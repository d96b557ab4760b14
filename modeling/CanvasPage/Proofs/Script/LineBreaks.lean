import CanvasPage.Proofs.Text.LineBreaks
import CanvasPage.Script.Bracket

namespace CanvasPage.Script

open Text

/-- Does a line that has a quote end in a backslash? `quoted` tells whether the first line has had
one already. -/
def escapesBreak (quoted : Bool) : Text → Bool
  | [] => false
  | '\\' :: '\n' :: rest => quoted || escapesBreak false rest
  | c :: rest => escapesBreak (c != '\n' && (quoted || isQuote c)) rest

section Lines

variable {c : Char} {t u : Text} {quoted : Bool}

theorem escapesBreak_cons (h : c ≠ '\\' ∨ t.head? ≠ some '\n') :
    escapesBreak quoted (c :: t) = escapesBreak (c != '\n' && (quoted || isQuote c)) t := by
  rw [escapesBreak]
  rintro rest rfl rfl
  rcases h with h | h <;> exact h rfl

theorem escapesBreak_mono (h : escapesBreak true t = false) : escapesBreak quoted t = false := by
  cases quoted with
  | true => exact h
  | false =>
    induction t with
    | nil => rfl
    | cons c t ih =>
      by_cases hbreak : c = '\\' ∧ t.head? = some '\n'
      · obtain ⟨rfl, hhead⟩ := hbreak
        cases t with
        | nil => rfl
        | cons d t =>
          obtain rfl := Option.some.inj hhead
          simp [escapesBreak] at h
      · rw [not_and_or] at hbreak
        rw [escapesBreak_cons hbreak] at h ⊢
        cases hc : c != '\n' with
        | false => rwa [hc] at h
        | true =>
          rw [hc] at h
          cases hq : isQuote c with
          | true => exact h
          | false => exact ih h

theorem escapesBreak_tail (h : escapesBreak quoted (c :: t) = false) :
    escapesBreak (c != '\n' && (quoted || isQuote c)) t = false := by
  by_cases hbreak : c = '\\' ∧ t.head? = some '\n'
  · obtain ⟨rfl, hhead⟩ := hbreak
    cases t with
    | nil => rfl
    | cons d t =>
      obtain rfl := Option.some.inj hhead
      rw [escapesBreak, Bool.or_eq_false_iff] at h
      exact h.2
  · rw [not_and_or] at hbreak
    rwa [escapesBreak_cons hbreak] at h

theorem escapesBreak_false (h : escapesBreak quoted t = false) : escapesBreak false t = false := by
  cases quoted with
  | false => exact h
  | true => exact escapesBreak_mono h

theorem escapesBreak_of_append_left (h : escapesBreak false (t ++ u) = false) :
    escapesBreak false u = false := by
  induction t with
  | nil => exact h
  | cons c t ih => exact ih (escapesBreak_false (escapesBreak_tail h))

theorem escapesBreak_of_append_right (h : escapesBreak quoted (t ++ u) = false) :
    escapesBreak quoted t = false := by
  induction t generalizing quoted with
  | nil => rfl
  | cons c t ih =>
    have htail := ih (escapesBreak_tail h)
    by_cases hbreak : c = '\\' ∧ t.head? = some '\n'
    · obtain ⟨rfl, hhead⟩ := hbreak
      cases t with
      | nil => rfl
      | cons d t =>
        obtain rfl := Option.some.inj hhead
        rw [List.cons_append, List.cons_append, escapesBreak, Bool.or_eq_false_iff] at h
        rw [escapesBreak, h.1]
        exact htail
    · rw [escapesBreak_cons (not_and_or.mp hbreak)]
      exact htail

end Lines

/-- What is left to read does not escape a line break in the string that the reader is in. -/
def State.Fits (s : State) (t : Text) : Prop :=
  match s.mode with
  | .quoted q => isQuote q = true ∧ escapesBreak true t = false
  | .quotedEscape q => isQuote q = true ∧ t.head? ≠ some '\n' ∧ escapesBreak true t = false
  | _ => escapesBreak false t = false

namespace State

variable {s : State} {c : Char} {t : Text}

theorem fits_start (h : escapesBreak false t = false) : State.start.Fits t := h

theorem escapesBreak_of_fits (h : s.Fits t) : escapesBreak false t = false := by
  rw [Fits] at h
  split at h
  · exact escapesBreak_mono h.2
  · exact escapesBreak_mono h.2.2
  · exact h

theorem fits_stepCode (nesting : List Nat)
    (h : escapesBreak (c != '\n' && isQuote c) t = false) : (stepCode nesting c).Fits t := by
  have hplain := escapesBreak_false h
  by_cases hquote : isQuote c = true
  · have hc : c != '\n' := by
      rw [bne_iff_ne]
      rintro rfl
      exact absurd hquote (by decide)
    rw [hc, hquote] at h
    rw [stepCode.eq_def, if_pos hquote]
    exact ⟨hquote, h⟩
  · rw [stepCode.eq_def, if_neg hquote]
    cases nesting with
    | nil => dsimp only; split_ifs <;> exact hplain
    | cons braces outer => cases braces <;> (dsimp only; split_ifs <;> exact hplain)

theorem fits_stepTemplate (nesting : List Nat) (h : escapesBreak false t = false) :
    (stepTemplate nesting c).Fits t := by
  rw [stepTemplate]
  split_ifs <;> exact h

theorem fits_step (h : s.Fits (c :: t)) : (s.step c).Fits t := by
  have hplain : escapesBreak false t = false :=
    escapesBreak_false (escapesBreak_tail (escapesBreak_of_fits h))
  obtain ⟨mode, nesting⟩ := s
  cases mode with
  | code => exact fits_stepCode nesting (escapesBreak_tail h)
  | slash =>
    simp only [step]
    split_ifs
    · exact hplain
    · exact hplain
    · exact fits_stepCode nesting (escapesBreak_tail h)
  | lineComment | blockComment | blockCommentStar =>
    simp only [step]
    split_ifs <;> exact hplain
  | quoted q =>
    have hrest := escapesBreak_tail h.2
    simp only [step]
    split_ifs with hescape hends
    · obtain rfl := beq_iff_eq.mp hescape
      refine ⟨h.1, fun hhead => ?_, hrest⟩
      cases t with
      | nil => cases hhead
      | cons d t =>
        obtain rfl := Option.some.inj hhead
        simp [Fits, escapesBreak] at h
    · exact hplain
    · rw [Bool.or_eq_true, not_or, beq_iff_eq] at hends
      have hc : c != '\n' := bne_iff_ne.mpr hends.1
      rw [hc] at hrest
      exact ⟨h.1, hrest⟩
  | quotedEscape q =>
    have hrest := escapesBreak_tail h.2.2
    have hc : c != '\n' := bne_iff_ne.mpr fun hc => h.2.1 (congrArg some hc)
    rw [hc] at hrest
    exact ⟨h.1, hrest⟩
  | template => exact fits_stepTemplate nesting hplain
  | templateEscape => exact hplain
  | templateDollar =>
    simp only [step]
    split_ifs
    · exact hplain
    · exact fits_stepTemplate nesting hplain

theorem stepCode_lineBreak (nesting : List Nat) {c : Char} (h : c = '\r' ∨ c = '\n') :
    stepCode nesting c = ⟨.code, nesting⟩ := by
  rcases h with rfl | rfl <;> cases nesting <;> rfl

theorem step_carriageReturn (h : s.Fits ('\n' :: t)) :
    (s.step '\r').Fits ('\n' :: t) ∧ (s.step '\r').step '\n' = s.step '\n' := by
  obtain ⟨mode, nesting⟩ := s
  cases mode with
  | code =>
    have hr : step ⟨.code, nesting⟩ '\r' = ⟨.code, nesting⟩ :=
      stepCode_lineBreak nesting (.inl rfl)
    rw [hr]
    exact ⟨h, rfl⟩
  | slash =>
    have hr : step ⟨.slash, nesting⟩ '\r' = ⟨.code, nesting⟩ :=
      stepCode_lineBreak nesting (.inl rfl)
    rw [hr]
    exact ⟨h, rfl⟩
  | quotedEscape q => exact absurd rfl h.2.1
  | quoted q =>
    have hq : '\r' ≠ q := by
      rintro rfl
      exact absurd h.1 (by decide)
    have hr : step ⟨.quoted q, nesting⟩ '\r' = ⟨.quoted q, nesting⟩ := by
      simp [step, hq]
    rw [hr]
    exact ⟨h, rfl⟩
  | lineComment | blockComment | blockCommentStar | template | templateEscape
  | templateDollar => exact ⟨h, rfl⟩

end State

namespace Bracket

variable {b : Bracket} {c : Char} {s : State} {t : Text}

theorem closeFrom_cons (hopen : c ≠ b.opener) (hclose : c ≠ b.closer) (depth : Nat) (s : State)
    (t : Text) : b.closeFrom depth s (c :: t) =
      (b.closeFrom depth (s.step c) t).map fun (inside, after) => (c :: inside, after) := by
  rw [closeFrom.eq_def]
  simp only [beq_false_of_ne hopen, beq_false_of_ne hclose, Bool.and_false, Bool.false_eq_true,
    if_false]

theorem closeFrom_toCrlf (h : s.Fits t) (depth : Nat) : b.closeFrom depth s (toCrlf t) =
    (b.closeFrom depth s t).map (Prod.map toCrlf toCrlf) := by
  induction t generalizing depth s with
  | nil => rfl
  | cons c t ih =>
    have hrest := State.fits_step h
    by_cases hc : c = '\n'
    · subst hc
      obtain ⟨-, hstep⟩ := State.step_carriageReturn h
      have hplain : ∀ d ∈ ['\r', '\n'], d ≠ b.opener ∧ d ≠ b.closer := by cases b <;> decide
      rw [toCrlf_lineFeed, closeFrom_cons (hplain _ (by simp)).1 (hplain _ (by simp)).2,
        closeFrom_cons (hplain _ (by simp)).1 (hplain _ (by simp)).2, hstep, ih hrest,
        closeFrom_cons (hplain _ (by simp)).1 (hplain _ (by simp)).2, Option.map_map,
        Option.map_map, Option.map_map]
      rfl
    · rw [toCrlf_cons hc, closeFrom.eq_def, closeFrom.eq_def b depth s (c :: t)]
      have hpush : ∀ depth, ((b.closeFrom depth (s.step c) t).map (Prod.map toCrlf toCrlf)).map
            (fun (inside, after) => (c :: inside, after)) =
          ((b.closeFrom depth (s.step c) t).map fun (inside, after) => (c :: inside, after)).map
            (Prod.map toCrlf toCrlf) := by
        intro depth
        rw [Option.map_map, Option.map_map]
        exact congrArg (Option.map · _) (funext fun _ => by simp [toCrlf_cons hc])
      simp only [ih hrest, hpush]
      split
      · cases depth <;> rfl
      · rfl

theorem enclosed?_toCrlf (h : escapesBreak false t = false) :
    b.enclosed? (toCrlf t) = (b.enclosed? t).map (Prod.map toCrlf toCrlf) :=
  closeFrom_toCrlf (State.fits_start h) 0

end Bracket

end CanvasPage.Script
