import CanvasPage.Proofs.Pattern.Complete
import CanvasPage.Proofs.Procedure.Depth
import CanvasPage.Proofs.Procedure.Indentation

namespace CanvasPage

namespace Pattern

variable {pattern : Pattern} {new : Occurrence → Text} {before t : Text}

theorem replaceFrom_of_occurrencesFrom_eq_nil (h : pattern.occurrencesFrom 0 before t = []) :
    pattern.replaceFrom new 0 before t = t := by
  induction t generalizing before with
  | nil => rfl
  | cons c t ih =>
    rw [occurrencesFrom] at h
    rw [replaceFrom]
    cases hat : pattern.at? ⟨before, c :: t⟩ with
    | none =>
      rw [hat] at h
      exact congrArg (c :: ·) (ih h)
    | some o =>
      rw [hat] at h
      cases h

theorem occurrences_eq_nil (h : pattern.occursIn t = false) : pattern.occurrences t = [] := by
  rwa [occursIn, first?, Option.isSome_eq_false_iff, Option.isNone_iff_eq_none,
    List.head?_eq_none_iff] at h

theorem replaceAll_of_occursIn_eq_false (h : pattern.occursIn t = false) :
    pattern.replaceAll new t = t :=
  replaceFrom_of_occurrencesFrom_eq_nil (occurrences_eq_nil h)

theorem at?_eq_none_of_occursIn {x y : Text} (h : pattern.occursIn t = false) (hsplit : t = x ++ y) :
    pattern.at? ⟨x.reverse, y⟩ = none := by
  have hnil := occurrences_eq_nil h
  rw [hsplit] at hnil
  cases hat : pattern.at? ⟨x.reverse, y⟩ with
  | none => rfl
  | some o =>
    rcases mem_occurrences_or_crosses hat with ho | ⟨o, ho, -⟩
    · rw [hnil] at ho
      cases ho
    · rw [hnil] at ho
      cases ho

end Pattern

open Script

namespace Procedure

/-- No substitution and no arrow header is found. -/
structure IsUntouched (t : Text) : Prop where
  code : ∀ s ∈ Substitution.all, ∀ c, .code c ∈ segments t → s.pattern.occursIn c = false
  headers : Arrow.headers t = []

variable {t : Text}

theorem IsUntouched.apply (h : IsUntouched t) {s : Substitution} (hs : s ∈ Substitution.all) :
    s.apply t = t := by
  have hsegment : ∀ g ∈ segments t, s.onSegment g = g.text := by
    intro g hg
    cases g with
    | literal l => rfl
    | code c => exact Pattern.replaceAll_of_occursIn_eq_false (h.code s hs c hg)
  rw [Substitution.apply_eq_flatMap, List.flatMap_congr hsegment, flatten_segments]

theorem IsUntouched.applyAll (h : IsUntouched t) : Substitution.applyAll t = t := by
  refine Substitution.applyAll_induction (P := (· = t)) rfl ?_
  rintro s hs _ rfl
  exact h.apply hs

theorem IsUntouched.next? (h : IsUntouched t) (params : Text → List Text) :
    Arrow.next? params t = none := by
  rw [Arrow.next?, h.headers]
  rfl

/-- A line in which nothing is found to rewrite. -/
structure IsFixed (t : Text) : Prop where
  line : '\n' ∉ t
  first : ∃ c ∈ t.head?, Text.isBlank c = false
  last : ∀ c ∈ t.getLast?, Text.isBlank c = false
  untouched : IsUntouched t

theorem IsFixed.ne_nil (h : IsFixed t) : t ≠ [] := by
  rintro rfl
  obtain ⟨c, hc, -⟩ := h.first
  cases hc

theorem IsFixed.trim (h : IsFixed t) : Text.trim t = t := by
  obtain ⟨c, hc, hblank⟩ := h.first
  refine Text.trim_of_ends (fun d hd => ?_) h.last
  obtain rfl : c = d := Option.some.inj (hc.symm.trans hd)
  exact hblank

theorem IsFixed.rewriteBody (h : IsFixed t) : rewriteBody t = t := by
  rw [rewriteBody_eq_rewriteUpTo, normalizeIndentation_of_not_mem h.line, h.trim,
    h.untouched.applyAll]
  cases t.count '>' with
  | zero => rfl
  | succ bound => rw [Arrow.rewriteUpTo, h.untouched.next?]

end Procedure

end CanvasPage
