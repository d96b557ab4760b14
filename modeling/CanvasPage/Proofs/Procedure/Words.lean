import CanvasPage.Proofs.Procedure.Substitution

namespace CanvasPage.Substitution

def blockKeywords : List Text := ["let", "const"]

/-- A block-scoping keyword is the beginning of the text, and no letter of it follows. -/
def leadsWithKeyword (t : Text) : Bool :=
  blockKeywords.any fun kw => kw.isPrefixOf t && !(t.drop kw.length).head?.any Text.isWordChar

/-- Where a reader of words stands: apart from the last one, behind it with only blanks between,
or in one. -/
inductive Spot where
  | apart
  | gap
  | word (letters : Text)
  deriving DecidableEq, Repr

/-- There is no next spot where a block-scoping keyword ends, nor in a word that only blanks part
from the one before. -/
def Spot.next? : Spot → Char → Option Spot
  | .apart, c => some (if isPathChar c then .word [c] else .apart)
  | .gap, c =>
      if isPathChar c then none else some (if Text.isBlank c then .gap else .apart)
  | .word letters, c =>
      if blockKeywords.contains letters && !Text.isWordChar c then none
      else some (if isPathChar c then .word (letters ++ [c])
        else if Text.isBlank c then .gap else .apart)

def spotAfter? (s : Spot) : Text → Option Spot
  | [] => some s
  | c :: t => (s.next? c).bind fun s => spotAfter? s t

theorem spotAfter?_append (s : Spot) (t u : Text) :
    spotAfter? s (t ++ u) = (spotAfter? s t).bind fun s => spotAfter? s u := by
  induction t generalizing s with
  | nil => rfl
  | cons c t ih => rw [List.cons_append, spotAfter?, spotAfter?, Option.bind_assoc, funext ih]

section Soundness

variable {s k : Spot} {a b kw ws w letters : Text} {c d : Char}

theorem exists_word_of_next? (hc : isPathChar c = true) (h : s.next? c = some k) :
    ∃ letters, k = .word letters := by
  cases s <;> grind [Spot.next?]

theorem spotAfter?_blanks (hne : ws ≠ []) (hws : Text.allBlank ws = true) (hs : s ≠ .apart)
    (h : spotAfter? s ws = some k) : k = .gap := by
  induction ws generalizing s with
  | nil => exact absurd rfl hne
  | cons c ws ih =>
    rw [Text.allBlank, List.all_cons, Bool.and_eq_true] at hws
    obtain ⟨j, hj, hrest⟩ := Option.bind_eq_some_iff.mp h
    have hpath : isPathChar c = false := by
      have hword := Text.not_continuesIdentifier_of_isBlank hws.1
      rw [Text.continuesIdentifier] at hword
      rw [isPathChar, hword, Bool.false_or, beq_eq_false_iff_ne]
      rintro rfl
      exact absurd hws.1 (by decide)
    obtain rfl : j = .gap := by cases s <;> grind [Spot.next?]
    by_cases hnil : ws = []
    · subst hnil
      exact (Option.some.inj hrest).symm
    · exact ih hnil hws.2 (by simp) hrest

theorem spotAfter?_gap (hc : isPathChar c = true) (hne : ws ≠ []) (hws : Text.allBlank ws = true)
    (hd : isPathChar d = true) : spotAfter? s (a ++ c :: (ws ++ d :: b)) = none := by
  rw [Option.eq_none_iff_forall_ne_some]
  intro k h
  rw [spotAfter?_append] at h
  obtain ⟨j, -, h⟩ := Option.bind_eq_some_iff.mp h
  obtain ⟨i, hi, h⟩ := Option.bind_eq_some_iff.mp h
  obtain ⟨letters, rfl⟩ := exists_word_of_next? hc hi
  rw [spotAfter?_append] at h
  obtain ⟨i, hi, h⟩ := Option.bind_eq_some_iff.mp h
  obtain rfl := spotAfter?_blanks hne hws (by simp) hi
  obtain ⟨i, hi, -⟩ := Option.bind_eq_some_iff.mp h
  rw [Spot.next?, if_pos hd] at hi
  cases hi

theorem not_word_of_spotAfter? (ha : ∀ d ∈ a.getLast?, isPathChar d = false)
    (h : spotAfter? .apart a = some k) : k = .apart ∨ k = .gap := by
  rcases List.eq_nil_or_concat a with rfl | ⟨a, d, rfl⟩
  · exact .inl (Option.some.inj h).symm
  · rw [List.concat_eq_append] at ha h
    have hd := ha d (by simp)
    rw [spotAfter?_append] at h
    obtain ⟨j, -, h⟩ := Option.bind_eq_some_iff.mp h
    obtain ⟨i, hi, h⟩ := Option.bind_eq_some_iff.mp h
    obtain rfl := Option.some.inj h
    cases j <;> grind [Spot.next?]

theorem spotAfter?_word (hw : ∀ c ∈ w, isPathChar c = true)
    (hlead : ∀ u v, w = u ++ v → letters ++ u ∈ blockKeywords → v ≠ [] →
      ∃ c ∈ v.head?, Text.isWordChar c = true) :
    spotAfter? (.word letters) w = some (.word (letters ++ w)) := by
  induction w generalizing letters with
  | nil => rw [List.append_nil]; rfl
  | cons c w ih =>
    have hkeyword : (blockKeywords.contains letters && !Text.isWordChar c) = false := by
      by_contra h
      simp only [Bool.not_eq_false, Bool.and_eq_true, List.contains_iff_mem] at h
      obtain ⟨d, hd, hword⟩ := hlead [] (c :: w) rfl (by simpa using h.1) (by simp)
      obtain rfl : c = d := by simpa using hd
      simp [hword] at h
    rw [spotAfter?, Spot.next?, hkeyword, if_neg Bool.false_ne_true, if_pos (hw c (by simp)),
      Option.bind_some, ih (fun d hd => hw d (by simp [hd])), List.append_assoc,
      List.singleton_append]
    intro u v hsplit hmem
    exact hlead (c :: u) v (by rw [hsplit, List.cons_append]) (by simpa using hmem)

theorem eq_word_of_spotAfter? (hw : ∀ c ∈ w, isPathChar c = true)
    (h : spotAfter? (.word letters) w = some k) : k = .word (letters ++ w) := by
  induction w generalizing letters with
  | nil => rw [List.append_nil]; exact (Option.some.inj h).symm
  | cons c w ih =>
    obtain ⟨j, hj, h⟩ := Option.bind_eq_some_iff.mp h
    have hc := hw c (by simp)
    obtain rfl : j = .word (letters ++ [c]) := by grind [Spot.next?]
    simpa using ih (fun d hd => hw d (by simp [hd])) h

theorem spotAfter?_keyword (ha : ∀ d ∈ a.getLast?, isPathChar d = false) (hkw : kw ∈ blockKeywords)
    (hc : Text.isWordChar c = false) : spotAfter? .apart (a ++ (kw ++ c :: b)) = none := by
  have hpath : ∀ kw ∈ blockKeywords, kw ≠ [] ∧ ∀ c ∈ kw, isPathChar c = true := by decide
  obtain ⟨hne, hletters⟩ := hpath kw hkw
  obtain ⟨e, kw, rfl⟩ := List.exists_cons_of_ne_nil hne
  obtain ⟨he, hletters⟩ := List.forall_mem_cons.mp hletters
  rw [Option.eq_none_iff_forall_ne_some]
  intro k h
  rw [spotAfter?_append] at h
  obtain ⟨j, hj, h⟩ := Option.bind_eq_some_iff.mp h
  obtain ⟨i, hi, h⟩ := Option.bind_eq_some_iff.mp h
  obtain rfl : i = .word [e] := by
    rcases not_word_of_spotAfter? ha hj with rfl | rfl
    · grind [Spot.next?]
    · grind [Spot.next?]
  rw [List.append_eq, spotAfter?_append] at h
  obtain ⟨i, hi, h⟩ := Option.bind_eq_some_iff.mp h
  obtain rfl := eq_word_of_spotAfter? hletters hi
  obtain ⟨i, hi, -⟩ := Option.bind_eq_some_iff.mp h
  have hcontains : blockKeywords.contains ([e] ++ kw) = true := List.contains_iff_mem.mpr hkw
  rw [Spot.next?, hcontains, hc] at hi
  cases hi

end Soundness

section Words

variable {t u v w : Text}

theorem isWordChar_of_leadsWithKeyword (h : leadsWithKeyword (u ++ v) = false)
    (hu : u ∈ blockKeywords) : ∃ c ∈ v.head?, Text.isWordChar c = true := by
  rw [leadsWithKeyword, List.any_eq_false] at h
  have hhead := h u hu
  have hstarts : u.isPrefixOf (u ++ v) = true := List.isPrefixOf_iff_prefix.mpr (u.prefix_append v)
  rw [hstarts, List.drop_left, Bool.true_and, Bool.not_eq_true', Bool.not_eq_false,
    Option.any_eq_true] at hhead
  exact hhead

theorem spotAfter?_of_not_leads (hw : ∀ c ∈ w, isPathChar c = true) (hne : w ≠ [])
    (hlead : leadsWithKeyword w = false) : spotAfter? .apart w = some (.word w) := by
  obtain ⟨c, w, rfl⟩ := List.exists_cons_of_ne_nil hne
  obtain ⟨hc, hw⟩ := List.forall_mem_cons.mp hw
  rw [spotAfter?, Spot.next?, if_pos hc, Option.bind_some, spotAfter?_word hw, List.singleton_append]
  rintro u v rfl hmem -
  rw [← List.cons_append] at hlead
  exact isWordChar_of_leadsWithKeyword hlead hmem

def separators : List Text := [", ", ": ", " = ", " =", ";"]

theorem spotAfter?_separator (hw : leadsWithKeyword w = false) :
    ∀ separator ∈ separators, spotAfter? (.word w) separator = some .apart := by
  have hkeyword : blockKeywords.contains w = false := by
    by_contra h
    rw [Bool.not_eq_false, List.contains_iff_mem] at h
    rw [← List.append_nil w] at hw
    obtain ⟨c, hc, -⟩ := isWordChar_of_leadsWithKeyword hw h
    simp at hc
  have hclosed : ∀ separator ∈ separators, ∃ c t, separator = c :: t ∧ isPathChar c = false ∧
      spotAfter? .gap (c :: t) = some .apart := by
    simp only [separators, List.mem_cons, List.not_mem_nil, or_false, forall_eq_or_imp, forall_eq]
    exact ⟨⟨_, _, rfl, by decide⟩, ⟨_, _, rfl, by decide⟩, ⟨_, _, rfl, by decide⟩,
      ⟨_, _, rfl, by decide⟩, ⟨_, _, rfl, by decide⟩⟩
  intro separator hseparator
  obtain ⟨c, t, rfl, hc, hgap⟩ := hclosed separator hseparator
  have hnext : (Spot.word w).next? c = Spot.gap.next? c := by
    rw [Spot.next?, Spot.next?, hkeyword, hc]
    rfl
  rw [spotAfter?, hnext]
  exact hgap

end Words

end CanvasPage.Substitution
