import CanvasPage.Proofs.Procedure.Arrow
import CanvasPage.Proofs.Procedure.Body
import CanvasPage.Proofs.Procedure.CastsApart

namespace CanvasPage

open Script

/-- No arrow stands in the text, not even in a literal. -/
def ArrowFree (t : Text) : Prop := t.IsChain fun c d => ¬ (c = '=' ∧ d = '>')

variable {t p q : Text}

theorem arrowFree_iff : ArrowFree t ↔ ¬ ("=>" : Text) <:+: t := by
  have harrow : ("=>" : Text) = ['=', '>'] := rfl
  constructor
  · rintro h hfound
    have hchain := h.infix hfound
    rw [harrow] at hchain
    exact (List.isChain_cons_cons.mp hchain).1 ⟨rfl, rfl⟩
  · intro h
    induction t with
    | nil => exact .nil
    | cons c t ih =>
      have htail := ih fun hfound => h (hfound.trans ⟨[c], [], by simp⟩)
      cases t with
      | nil => exact .singleton c
      | cons d t =>
        refine .cons_cons ?_ htail
        rintro ⟨rfl, rfl⟩
        exact h ⟨[], t, rfl⟩

theorem ArrowFree.append {u : Text} (hq : ArrowFree q) (hu : ArrowFree u)
    (hjoin : q.getLast? = some '=' → u.head? ≠ some '>') : ArrowFree (q ++ u) := by
  refine List.isChain_append.mpr ⟨hq, hu, ?_⟩
  rintro c hc d hd ⟨rfl, rfl⟩
  exact hjoin hc hd

theorem not_opens_of_arrowFree (h : ArrowFree (p ++ '>' :: q)) : p.getLast? ≠ some '=' := by
  intro hlast
  exact (List.isChain_append.mp h).2.2 '=' hlast '>' rfl ⟨rfl, rfl⟩

namespace Substitution

theorem Exchange.greater_not_mem {old new : Text} (h : Exchange old new) : '>' ∉ new := fun hmem =>
  absurd (h.quiet '>' hmem) (by decide)

theorem Exchange.arrowFree {old new : Text} (h : Exchange old new) : ArrowFree new :=
  arrowFree_iff.mpr fun hfound => h.greater_not_mem (hfound.subset (by simp))

/-- `q` has come of `p` without an arrow, and does not end in an equals sign of its own. -/
structure StaysArrowFree (p q : Text) : Prop where
  arrowFree : ArrowFree q
  last : q.getLast? = some '=' → p.getLast? = some '='

theorem StaysArrowFree.keep {c : Char} {u : Text} (h : StaysArrowFree p q)
    (ht : ArrowFree (p ++ c :: u)) : StaysArrowFree (p ++ [c]) (q ++ [c]) := by
  refine ⟨h.arrowFree.append (.singleton c) fun hlast hc => ?_, fun hlast => ?_⟩
  · obtain rfl : c = '>' := by simpa using hc
    exact not_opens_of_arrowFree ht (h.last hlast)
  · simpa using hlast

theorem Swaps.staysArrowFree (ht : ArrowFree t) (h : Swaps t p q) : StaysArrowFree p q := by
  induction h with
  | nil => exact ⟨.nil, id⟩
  | keep hsplit _ ih => exact ih.keep (hsplit ▸ ht)
  | swap hcode hexchange _ ih =>
    refine ⟨ih.arrowFree.append hexchange.arrowFree fun _ hhead => ?_, fun hlast => ?_⟩
    · exact hexchange.greater_not_mem (List.mem_of_head? hhead)
    · obtain ⟨u, v, a, b, rfl, rfl, -, -, -, hequals⟩ := hexchange.last
      rw [← List.append_assoc, List.getLast?_concat, Option.some.injEq] at hlast
      rw [← List.append_assoc, List.getLast?_concat, hequals.mp hlast]

theorem run_blanks {s : State} {ws : Text} (hcode : emitted s ws = []) (hne : ws ≠ [])
    (hws : Text.allBlank ws = true) : s.run ws = .start := by
  obtain ⟨u, c, rfl, hc⟩ := exists_of_allBlank hne hws
  refine run_eq_start hcode ?_
  rintro rfl
  revert hc
  decide

theorem apart_of_reads_cast {w u before after : Text} {gs : GroupTexts} (hcasts : CastsApart t)
    (hsplit : t = p ++ (w ++ u)) (hcode : emitted (State.start.run p) w = [])
    (hread : cast.pattern.Reads before w after gs) :
    State.start.run p = .start ∧ p.getLast? ≠ some '=' := by
  have has : ("as" : Text) = ['a', 's'] := rfl
  obtain ⟨ws, bs, v, rfl, hne, hws, hbs, hblank, -⟩ := exists_of_reads_cast hread
  obtain ⟨c, bs, rfl⟩ := List.exists_cons_of_ne_nil hbs
  rw [Text.allBlank, List.all_cons, Bool.and_eq_true] at hblank
  rw [emitted_append, List.append_eq_nil_iff] at hcode
  refine hcasts p ws c (bs ++ (v ++ u)) ?_ hne hws hblank.1 ?_
  · simp [hsplit, has]
  · rw [State.run_append]
    exact run_blanks hcode.1 hne hws

theorem Edits.reads_alike (hcasts : CastsApart t) (h : Edits cast t p q) :
    State.start.run q = State.start.run p ∧ emitted .start q = emitted .start p := by
  induction h with
  | nil => exact ⟨rfl, rfl⟩
  | keep hsplit _ ih =>
    rw [State.run_append, State.run_append, emitted_append, emitted_append, ih.1, ih.2]
    exact ⟨rfl, rfl⟩
  | replace hsplit hcode hread _ _ ih =>
    obtain ⟨hstart, -⟩ := apart_of_reads_cast hcasts hsplit hcode hread
    obtain ⟨u, a, rfl, ha⟩ := exists_last_of_reads_cast hread
    have hdropped : ∀ o, cast.replacement o = [] := fun _ => rfl
    rw [hdropped, List.append_nil]
    refine ⟨?_, ?_⟩
    · rw [State.run_append, run_eq_start hcode ha, ih.1, hstart]
    · rw [emitted_append, hcode, List.append_nil, ih.2]

theorem Edits.staysArrowFree (hcasts : CastsApart t) (ht : ArrowFree t) (h : Edits cast t p q) :
    StaysArrowFree p q := by
  induction h with
  | nil => exact ⟨.nil, id⟩
  | keep hsplit _ ih => exact ih.keep (hsplit ▸ ht)
  | replace hsplit hcode hread _ _ ih =>
    obtain ⟨-, hlast⟩ := apart_of_reads_cast hcasts hsplit hcode hread
    have hdropped : ∀ o, cast.replacement o = [] := fun _ => rfl
    rw [hdropped, List.append_nil]
    exact ⟨ih.arrowFree, fun hequals => absurd (ih.last hequals) hlast⟩

theorem beforeCast_alike {ss : List Substitution} (hss : ∀ s ∈ ss, s.Exchanges)
    (hcasts : CastsApart t) :
    CastsApart (ss.foldl (fun t s => s.apply t) t) ∧
      emitted .start (ss.foldl (fun t s => s.apply t) t) = emitted .start t := by
  induction ss generalizing t with
  | nil => exact ⟨hcasts, rfl⟩
  | cons s ss ih =>
    have hswaps := (edits_apply s t).swaps (hss s (by simp))
    obtain ⟨hcasts, hemitted⟩ := ih (fun r hr => hss r (by simp [hr])) (hswaps.castsApart hcasts)
    exact ⟨hcasts, hemitted.trans hswaps.reads_alike.2⟩

theorem beforeCast_arrowFree {ss : List Substitution} (hss : ∀ s ∈ ss, s.Exchanges)
    (hfree : ArrowFree t) : ArrowFree (ss.foldl (fun t s => s.apply t) t) := by
  induction ss generalizing t with
  | nil => exact hfree
  | cons s ss ih =>
    have hswaps := (edits_apply s t).swaps (hss s (by simp))
    exact ih (fun r hr => hss r (by simp [hr])) (hswaps.staysArrowFree hfree).arrowFree

theorem applyAll_eq (t : Text) : applyAll t =
    nonNullAssertion.apply (cast.apply (beforeCast.foldl (fun t s => s.apply t) t)) := by
  have hall : all = beforeCast ++ [cast, nonNullAssertion] := rfl
  rw [applyAll, hall, List.foldl_append, List.foldl_cons, List.foldl_cons, List.foldl_nil]

theorem emitted_applyAll (hcasts : CastsApart t) :
    emitted .start (applyAll t) = emitted .start t := by
  obtain ⟨hcasts, hemitted⟩ := beforeCast_alike (fun s hs => exchanges_of_mem_beforeCast hs) hcasts
  rw [applyAll_eq]
  generalize beforeCast.foldl (fun t s => s.apply t) t = u at hcasts hemitted ⊢
  have hdropped := ((edits_apply cast u).reads_alike hcasts).2
  have hswaps := (edits_apply nonNullAssertion (cast.apply u)).swaps exchanges_nonNullAssertion
  exact hswaps.reads_alike.2.trans (hdropped.trans hemitted)

theorem applyAll_spec (hcasts : CastsApart t) (hfree : ArrowFree t) :
    ArrowFree (applyAll t) ∧ emitted .start (applyAll t) = emitted .start t := by
  refine ⟨?_, emitted_applyAll hcasts⟩
  have hexchanges : ∀ s ∈ beforeCast, s.Exchanges := fun s hs => exchanges_of_mem_beforeCast hs
  have hcasts := (beforeCast_alike hexchanges hcasts).1
  have hfree := beforeCast_arrowFree hexchanges hfree
  rw [applyAll_eq]
  generalize beforeCast.foldl (fun t s => s.apply t) t = u at hcasts hfree ⊢
  have hstays := (edits_apply cast u).staysArrowFree hcasts hfree
  have hswaps := (edits_apply nonNullAssertion (cast.apply u)).swaps exchanges_nonNullAssertion
  exact (hswaps.staysArrowFree hstays.arrowFree).arrowFree

end Substitution

namespace Procedure

/-- Rewriting a body leaves its literals as they are, byte for byte. -/
theorem literals_rewriteBody (hnormal : normalizeIndentation t = t)
    (harrows : ¬ ("=>" : Text) <:+: t) (hcasts : CastsApart t) :
    (literalRanges (rewriteBody t)).map (·.slice? (rewriteBody t)) =
      (literalRanges t).map (·.slice? t) := by
  obtain ⟨hfree, hemitted⟩ := Substitution.applyAll_spec hcasts (arrowFree_iff.mpr harrows)
  have hnone : ∀ params, Arrow.next? params (Substitution.applyAll t) = none := by
    refine Arrow.next?_eq_none fun u ws v hsplit _ => absurd ⟨u, ws ++ '\x7b' :: v, ?_⟩
      (arrowFree_iff.mp hfree)
    rw [hsplit, List.append_assoc]
  rw [rewriteBody_of_next?_eq_none (by rw [hnormal]) hnone, slice?_literalRanges, slice?_literalRanges,
    literalTexts_eq, literalTexts_eq, hemitted]

def plotSource : Text :=
  "let n: number = 1; // not x as Foo\nconst s = 'a as any!.' as string;\n" ++
    "plot(n as unknown\n  as Plot[], s!, [...s]); /* let b: T = 2; */"

theorem literals_rewriteBody_plotSource :
    normalizeIndentation plotSource = plotSource ∧ ¬ ("=>" : Text) <:+: plotSource ∧
      CastsApart plotSource ∧
      (literalRanges (rewriteBody plotSource)).map (·.slice? (rewriteBody plotSource)) =
        (literalRanges plotSource).map (·.slice? plotSource) := by
  have hnormal : normalizeIndentation plotSource = plotSource := by decide +kernel
  have harrows : ¬ ("=>" : Text) <:+: plotSource := by decide +kernel
  have hcasts : CastsApart plotSource := castsApart_iff.mpr (by decide +kernel)
  exact ⟨hnormal, harrows, hcasts, literals_rewriteBody hnormal harrows hcasts⟩

/-- A cast on the line after a remark takes the end of that line with it. -/
example : rewriteBody "x = foo // c\n  as Bar;\ny();" = "x = foo // c;\ny();" := by decide +kernel

end Procedure

end CanvasPage
