import CanvasPage.Proofs.Text.Trim
import Mathlib.Data.List.Induction

namespace CanvasPage.Text

/-- A text with a carriage return put before every line feed. -/
def toCrlf : Text → Text
  | [] => []
  | c :: rest => if c == '\n' then '\r' :: '\n' :: toCrlf rest else c :: toCrlf rest

/-- A text with every pair of a carriage return and a line feed replaced by a line feed. -/
def ofCrlf : Text → Text
  | [] => []
  | '\r' :: '\n' :: rest => '\n' :: ofCrlf rest
  | c :: rest => c :: ofCrlf rest

variable {c : Char} {t u : Text} {p : Char → Bool}

@[simp] theorem toCrlf_nil : toCrlf [] = [] := rfl

@[simp] theorem toCrlf_lineFeed (t : Text) : toCrlf ('\n' :: t) = '\r' :: '\n' :: toCrlf t := rfl

theorem toCrlf_cons (h : c ≠ '\n') (t : Text) : toCrlf (c :: t) = c :: toCrlf t := by
  rw [toCrlf, if_neg (by simpa using h)]

@[simp] theorem toCrlf_append (t u : Text) : toCrlf (t ++ u) = toCrlf t ++ toCrlf u := by
  induction t with
  | nil => rfl
  | cons c t ih =>
    by_cases hc : c = '\n'
    · subst hc
      rw [List.cons_append, toCrlf_lineFeed, ih]
      rfl
    · rw [List.cons_append, toCrlf_cons hc, toCrlf_cons hc, ih]
      rfl

theorem toCrlf_of_not_mem (h : '\n' ∉ t) : toCrlf t = t := by
  induction t with
  | nil => rfl
  | cons c t ih =>
    rw [List.mem_cons, not_or] at h
    rw [toCrlf_cons (Ne.symm h.1), ih h.2]

theorem toCrlf_eq_nil : toCrlf t = [] ↔ t = [] := by
  cases t with
  | nil => simp
  | cons c t => by_cases hc : c = '\n' <;> simp [toCrlf, hc]

theorem isEmpty_toCrlf (t : Text) : (toCrlf t).isEmpty = t.isEmpty := by
  rw [Bool.eq_iff_iff, List.isEmpty_iff, List.isEmpty_iff, toCrlf_eq_nil]

theorem ofCrlf_cons (h : c ≠ '\r' ∨ t.head? ≠ some '\n') : ofCrlf (c :: t) = c :: ofCrlf t := by
  rw [ofCrlf]
  rintro rest rfl rfl
  rcases h with h | h <;> exact h rfl

theorem ofCrlf_toCrlf (t : Text) : ofCrlf (toCrlf t) = t := by
  induction t with
  | nil => rfl
  | cons c t ih =>
    by_cases hc : c = '\n'
    · subst hc
      rw [toCrlf_lineFeed, ofCrlf, ih]
    · have hhead : (toCrlf t).head? ≠ some '\n' := by
        cases t with
        | nil => simp
        | cons d t => by_cases hd : d = '\n' <;> simp [toCrlf, hd]
      rw [toCrlf_cons hc, ofCrlf_cons (.inr hhead), ih]

theorem mem_toCrlf (hr : c ≠ '\r') : c ∈ toCrlf t ↔ c ∈ t := by
  induction t with
  | nil => rfl
  | cons d t ih =>
    by_cases hd : d = '\n'
    · subst hd
      rw [toCrlf_lineFeed, List.mem_cons, List.mem_cons, List.mem_cons, ih, or_iff_right hr]
    · rw [toCrlf_cons hd, List.mem_cons, List.mem_cons, ih]

theorem length_le_toCrlf (t : Text) : t.length ≤ (toCrlf t).length := by
  induction t with
  | nil => exact Nat.le_refl 0
  | cons c t ih =>
    by_cases hc : c = '\n'
    · subst hc
      rw [toCrlf_lineFeed, List.length_cons, List.length_cons, List.length_cons]
      omega
    · rw [toCrlf_cons hc]
      exact Nat.succ_le_succ ih

theorem exists_eq_append_of_toCrlf {v : Text} (hr : '\r' ∉ u) (h : toCrlf t = u ++ v) :
    ∃ w, t = u ++ w ∧ v = toCrlf w := by
  induction u generalizing t with
  | nil => exact ⟨t, rfl, h.symm⟩
  | cons c u ih =>
    rw [List.mem_cons, not_or] at hr
    cases t with
    | nil => cases h
    | cons d t =>
      by_cases hd : d = '\n'
      · subst hd
        exact absurd (List.cons.inj h).1 hr.1
      · rw [toCrlf_cons hd, List.cons_append] at h
        obtain ⟨rfl, htail⟩ := List.cons.inj h
        obtain ⟨w, rfl, hw⟩ := ih hr.2 htail
        exact ⟨w, rfl, hw⟩

section Blanks

theorem any_head?_toCrlf (h : p '\r' = p '\n') (t : Text) :
    (toCrlf t).head?.any p = t.head?.any p := by
  cases t with
  | nil => rfl
  | cons c t => by_cases hc : c = '\n' <;> simp [toCrlf, hc, h]

theorem all_head?_toCrlf (h : p '\r' = p '\n') (t : Text) :
    (toCrlf t).head?.all p = t.head?.all p := by
  cases t with
  | nil => rfl
  | cons c t => by_cases hc : c = '\n' <;> simp [toCrlf, hc, h]

theorem getLast?_toCrlf (t : Text) : (toCrlf t).getLast? = t.getLast? := by
  induction t using List.reverseRecOn with
  | nil => rfl
  | append_singleton t c =>
    by_cases hc : c = '\n'
    · subst hc
      simp
    · simp [toCrlf_cons hc]

theorem dropWhile_toCrlf (h : p '\r' = p '\n') (t : Text) :
    (toCrlf t).dropWhile p = toCrlf (t.dropWhile p) := by
  induction t with
  | nil => rfl
  | cons c t ih =>
    by_cases hc : c = '\n'
    · subst hc
      cases hp : p '\n' with
      | true => simp [h, hp, ih]
      | false => simp [h, hp]
    · cases hp : p c with
      | true => simp [toCrlf_cons hc, hp, ih]
      | false => simp [toCrlf_cons hc, hp]

theorem dropEndWhile_append_of_pos (h : p c = true) (t : Text) :
    dropEndWhile p (t ++ [c]) = dropEndWhile p t := by
  simp [dropEndWhile, h]

theorem dropEndWhile_toCrlf (h : p '\r' = p '\n') (t : Text) :
    dropEndWhile p (toCrlf t) = toCrlf (dropEndWhile p t) := by
  induction t using List.reverseRecOn with
  | nil => rfl
  | append_singleton t c ih =>
    by_cases hc : c = '\n'
    · subst hc
      have hbreak : toCrlf (t ++ ['\n']) = toCrlf t ++ ['\r'] ++ ['\n'] := by simp
      cases hp : p '\n' with
      | true =>
        rw [hbreak, dropEndWhile_append_of_pos hp, dropEndWhile_append_of_pos (h.trans hp), ih,
          dropEndWhile_append_of_pos hp]
      | false =>
        rw [dropEndWhile_append_singleton hp, hbreak, dropEndWhile_append_singleton hp]
    · have hkept : toCrlf (t ++ [c]) = toCrlf t ++ [c] := by simp [toCrlf_cons hc]
      cases hp : p c with
      | true => rw [hkept, dropEndWhile_append_of_pos hp, ih, dropEndWhile_append_of_pos hp]
      | false =>
        rw [hkept, dropEndWhile_append_singleton hp, dropEndWhile_append_singleton hp, hkept]

theorem trim_toCrlf (t : Text) : trim (toCrlf t) = toCrlf (trim t) := by
  rw [trim, trim, trimStart, trimStart, trimEnd, trimEnd, dropWhile_toCrlf rfl,
    dropEndWhile_toCrlf rfl]

theorem trim_append_of_isBlank (h : isBlank c = true) (t : Text) : trim (t ++ [c]) = trim t := by
  have hstart : trimStart (t ++ [c]) = if (trimStart t).isEmpty then [] else trimStart t ++ [c] := by
    rw [trimStart, List.dropWhile_append, List.dropWhile_cons_of_pos h]
    rfl
  rw [trim, hstart, trim]
  split
  · rename_i hempty
    rw [List.isEmpty_iff.mp hempty]
  · exact dropEndWhile_append_of_pos h _

theorem words_toCrlf (t : Text) : words (toCrlf t) = words t := by
  induction t with
  | nil => rfl
  | cons c t ih =>
    by_cases hc : c = '\n'
    · subst hc
      rw [toCrlf_lineFeed, words, if_pos (by decide), words, if_pos (by decide), ih, words,
        if_pos (by decide)]
    · rw [toCrlf_cons hc, words, words, ih, all_head?_toCrlf rfl]

end Blanks

end CanvasPage.Text
