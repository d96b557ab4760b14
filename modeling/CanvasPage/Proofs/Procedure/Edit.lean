import CanvasPage.Proofs.Pattern.Language
import CanvasPage.Proofs.Procedure.PlainCode
import CanvasPage.Proofs.Script.LiteralTexts

namespace CanvasPage.Substitution

open Pattern Script

/-- What becomes of a beginning of `t`: a character is kept, or code that the pattern reads is
replaced. -/
inductive Edits (s : Substitution) (t : Text) : Text → Text → Prop where
  | nil : Edits s t [] []
  | keep {p q u : Text} {c : Char} (hsplit : t = p ++ c :: u) (h : Edits s t p q) :
      Edits s t (p ++ [c]) (q ++ [c])
  | replace {p q w u before after : Text} {gs : GroupTexts} {o : Occurrence}
      (hsplit : t = p ++ (w ++ u)) (hcode : emitted (State.start.run p) w = [])
      (hread : s.pattern.Reads before w after gs) (hgroups : ∀ i, o.groupText i = gs.text i)
      (h : Edits s t p q) : Edits s t (p ++ w) (q ++ s.replacement o)

variable {s : Substitution} {t p q : Text}

theorem Edits.keep_all {u rest : Text} (hsplit : t = p ++ (u ++ rest)) (h : Edits s t p q) :
    Edits s t (p ++ u) (q ++ u) := by
  induction u generalizing p q with
  | nil => simpa using h
  | cons c u ih =>
    have hnext := ih (p := p ++ [c]) (q := q ++ [c]) (by simpa using hsplit) (.keep hsplit h)
    simpa using hnext

theorem Edits.replaceAll {c rest : Text} (hsplit : t = p ++ (c ++ rest))
    (hcode : emitted (State.start.run p) c = []) (h : Edits s t p q) :
    Edits s t (p ++ c) (q ++ s.pattern.replaceAll s.replacement c) := by
  have hdone : c = c.reverse.reverse ++ [] ∧
      Edits s t (p ++ c.reverse.reverse) (q ++ s.pattern.replaceAll s.replacement c) := by
    refine replaceAll_induction
      (P := fun before out rest => c = before.reverse ++ rest ∧
        Edits s t (p ++ before.reverse) (q ++ out)) ?_ ?_ ⟨rfl, by simpa using h⟩
    · rintro before out d after ⟨hc, hedits⟩
      refine ⟨by simpa using hc, ?_⟩
      have hkeep := hedits.keep (c := d) (u := after ++ rest) (by simp [hsplit, hc])
      simpa using hkeep
    · rintro before out w after gs o - hread hgroups ⟨hc, hedits⟩
      refine ⟨by simpa using hc, ?_⟩
      have hw : emitted (State.start.run (p ++ before.reverse)) w = [] := by
        rw [hc, emitted_append, emitted_append] at hcode
        rw [State.run_append]
        exact (List.append_eq_nil_iff.mp (List.append_eq_nil_iff.mp hcode).2).1
      have hreplace := hedits.replace (u := after ++ rest) (by simp [hsplit, hc]) hw hread hgroups
      simpa using hreplace
  simpa using hdone.2

theorem edits_apply (s : Substitution) (t : Text) : Edits s t t (s.apply t) := by
  have hfrom : ∀ gs p q u, t = p ++ u → Edits s t p q →
      gs = chunk ((roles (State.start.run p) u).zip u) →
      Edits s t t (q ++ gs.flatMap s.onSegment) := by
    intro gs
    induction gs with
    | nil =>
      intro p q u hsplit h hgs
      have hu := flatten_chunk ((roles (State.start.run p) u).zip u)
      rw [← hgs, List.map_snd_zip (Nat.le_of_eq (length_roles _ u).symm)] at hu
      rw [← hu] at hsplit
      simpa [hsplit] using h
    | cons g gs ih =>
      intro p q u hsplit h hgs
      obtain ⟨v, rfl, hrest, hcode⟩ := exists_of_chunk_eq_cons hgs.symm
      rw [List.flatMap_cons, ← List.append_assoc]
      refine ih (p ++ g.text) _ v (by simpa using hsplit) ?_ (by rwa [State.run_append])
      cases g with
      | code c => exact h.replaceAll hsplit (hcode c rfl)
      | literal l => exact h.keep_all hsplit
  rw [apply_eq_flatMap]
  exact hfrom _ [] [] t rfl .nil rfl

end CanvasPage.Substitution
