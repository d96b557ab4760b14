import CanvasPage.Page.Script
import CanvasPage.Proofs.ClassBlock.Statement

namespace CanvasPage.Script

/-- Read from `s`, the two texts end in the same state and leave as many brackets open. -/
structure Alike (s : State) (t u : Text) : Prop where
  run : s.run t = s.run u
  depth : ∀ (b : Bracket) depth, b.depthAfter? depth s t = b.depthAfter? depth s u

section Reading

variable {s : State} {t u v w : Text}

theorem Alike.refl (s : State) (t : Text) : Alike s t t := ⟨rfl, fun _ _ => rfl⟩

theorem Alike.symm (h : Alike s t u) : Alike s u t :=
  ⟨h.run.symm, fun b depth => (h.depth b depth).symm⟩

theorem Alike.trans (htu : Alike s t u) (huv : Alike s u v) : Alike s t v :=
  ⟨htu.run.trans huv.run, fun b depth => (htu.depth b depth).trans (huv.depth b depth)⟩

theorem Alike.append_left (w : Text) (h : Alike (s.run w) t u) : Alike s (w ++ t) (w ++ u) := by
  refine ⟨?_, fun b depth => ?_⟩
  · rw [State.run_append, State.run_append, h.run]
  · rw [Bracket.depthAfter?_append, Bracket.depthAfter?_append]
    simp only [h.depth]

theorem Alike.neutral (h : Alike s t u) (hu : Neutral s u) : Neutral s t :=
  ⟨by rw [h.run]; exact hu.isCode, fun b depth => by rw [h.depth, hu.depth]⟩

theorem alike_append (hrun : s.run w = s)
    (hdepth : ∀ (b : Bracket) depth, b.depthAfter? depth s w = some depth) (t : Text) :
    Alike s (w ++ t) t := by
  refine ⟨?_, fun b depth => ?_⟩
  · rw [State.run_append, hrun]
  · rw [Bracket.depthAfter?_append, hdepth, Option.bind_some, hrun]

theorem depthAfter?_of_isPlain {b : Bracket} {depth : Nat} (ht : ∀ c ∈ t, isPlain c = true) :
    b.depthAfter? depth s t = some depth := by
  induction t generalizing s with
  | nil => rfl
  | cons c t ih =>
    obtain ⟨ho, hc⟩ := ne_bracket_of_isPlain (ht c (by simp)) b
    rw [depthAfter?_of_ne (ne_of_beq_false ho) (ne_of_beq_false hc)]
    exact ih fun d hd => ht d (by simp [hd])

end Reading

section Literals

variable {t u : Text}

theorem alike_lineComment (h : '\n' ∉ t) (u : Text) : Alike ⟨.lineComment, []⟩ (t ++ u) u := by
  induction t with
  | nil => exact .refl _ _
  | cons c t ih =>
    have hc : c ≠ '\n' := fun hc => h (by simp [hc])
    have hstep : State.step ⟨.lineComment, []⟩ c = ⟨.lineComment, []⟩ := by simp [State.step, hc]
    have hrun : State.run ⟨.lineComment, []⟩ [c] = ⟨.lineComment, []⟩ := hstep
    have hskip : Alike ⟨.lineComment, []⟩ ([c] ++ (t ++ u)) (t ++ u) :=
      alike_append hrun (fun b depth => depthAfter?_of_not_isCode rfl c []) _
    exact hskip.trans (ih fun ht => h (by simp [ht]))

/-- Escaped text does not end the string that it stands in. -/
theorem alike_escapeString (h : '\n' ∉ t) (u : Text) :
    Alike ⟨.quoted '\'', []⟩ (Page.escapeString t ++ u) u := by
  induction t with
  | nil => exact .refl _ _
  | cons c t ih =>
    have hc : c ≠ '\n' := fun hc => h (by simp [hc])
    have ih := ih fun ht => h (by simp [ht])
    rw [Page.escapeString_cons, List.append_assoc]
    refine Alike.trans (alike_append ?_ (fun b depth => ?_) _) ih
    · split
      · rfl
      · rename_i hplain
        simp only [Bool.or_eq_true, beq_iff_eq, not_or] at hplain
        simp [State.run_cons, State.run_nil, State.step, hplain, hc]
    · split
      · rw [depthAfter?_of_not_isCode rfl, depthAfter?_of_not_isCode rfl]
        rfl
      · rw [depthAfter?_of_not_isCode rfl]
        rfl

theorem neutral_remark (h : '\n' ∉ t) : Neutral .start ("//" ++ t ++ "\n") := by
  have hread : Alike .start ("//" ++ (t ++ "\n")) ("//" ++ "\n") :=
    .append_left _ (alike_lineComment h _)
  rw [List.append_assoc]
  exact hread.neutral (neutral_of_isClosed (by decide))

theorem neutral_string (h : '\n' ∉ t) : Neutral .start ("'" ++ Page.escapeString t ++ "'") := by
  have hread : Alike .start ("'" ++ (Page.escapeString t ++ "'")) ("'" ++ "'") :=
    .append_left _ (alike_escapeString h _)
  rw [List.append_assoc]
  exact hread.neutral (neutral_of_isClosed (by decide))

end Literals

section Lines

variable {s : State} {c : Char} {t : Text}

def lineStartModes : List Mode :=
  [.code, .blockComment, .template, .quoted '\'', .quoted '"']

/-- Where a line can begin: blanks before it change nothing. -/
def State.IsLineStart (s : State) : Prop := s.mode ∈ lineStartModes

theorem isPlain_of_mem_blankCodes :
    ∀ n ∈ Text.blankCodes, isPlain (Char.ofNat n) = true ∧ Char.ofNat n ∉ ['\\', '$'] := by
  decide +kernel

theorem isPlain_of_isBlank (h : Text.isBlank c = true) : isPlain c = true ∧ c ∉ ['\\', '$'] := by
  have hcode := isPlain_of_mem_blankCodes c.toNat (Text.mem_blankCodes h)
  rwa [Char.ofNat_toNat] at hcode

theorem isLineStart_start : State.start.IsLineStart := by
  simp [State.IsLineStart, lineStartModes, State.start]

theorem State.IsLineStart.step_blank (hs : s.IsLineStart) (hc : Text.isBlank c = true)
    (hbreak : c ≠ '\n') : s.step c = s := by
  obtain ⟨hplain, hescape⟩ := isPlain_of_isBlank hc
  have hbrace := ne_bracket_of_isPlain hplain .brace
  simp only [isPlain, isQuote, Bool.not_eq_true', Bool.or_eq_false_iff, beq_eq_false_iff_ne,
    List.mem_cons, List.not_mem_nil, not_or, or_false, Bracket.opener, Bracket.closer] at *
  obtain ⟨mode, nesting⟩ := s
  simp only [State.IsLineStart, lineStartModes, List.mem_cons, List.not_mem_nil, or_false] at hs
  rcases hs with rfl | rfl | rfl | rfl | rfl
  · cases nesting <;> simp_all [State.step, stepCode, isQuote]
  all_goals simp_all [State.step, stepTemplate]

theorem isLineStart_step (hs : ∀ q ∈ s.mode.quote?, isQuote q = true) :
    (s.step '\n').IsLineStart := by
  obtain ⟨mode, nesting⟩ := s
  have hcode : (stepCode nesting '\n').IsLineStart := by
    cases nesting <;> simp [stepCode, isQuote, isBacktick, State.IsLineStart, lineStartModes]
  cases mode <;>
    simp_all [State.step, stepTemplate, isBacktick, State.IsLineStart, lineStartModes,
      Mode.quote?, isQuote]

theorem State.IsLineStart.alike_blanks (hs : s.IsLineStart) {w : Text}
    (hw : ∀ c ∈ w, Text.isBlank c = true ∧ c ≠ '\n') (t : Text) : Alike s (w ++ t) t := by
  induction w with
  | nil => exact .refl _ _
  | cons c w ih =>
    obtain ⟨hc, hbreak⟩ := hw c (by simp)
    have hrun : s.run [c] = s := hs.step_blank hc hbreak
    have hplain : ∀ d ∈ [c], isPlain d = true := by
      simpa using (isPlain_of_isBlank hc).1
    have hskip : Alike s ([c] ++ (w ++ t)) (w ++ t) :=
      alike_append hrun (fun _ _ => depthAfter?_of_isPlain hplain) _
    exact hskip.trans (ih fun d hd => hw d (by simp [hd]))

end Lines

end CanvasPage.Script
