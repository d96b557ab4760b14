import CanvasPage.Descriptor.Resolve
import CanvasPage.Proofs.Text.Identifier
import CanvasPage.Text.Lowercase
import Mathlib.Data.Bool.Basic
import Mathlib.Data.List.TakeWhile

namespace CanvasPage.Descriptor

def startsIdentifier (c : Char) : Bool := (65 ≤ c.toNat && c.toNat ≤ 90) || c == '$'

def isName : Text → Bool
  | [] => false
  | c :: rest => startsIdentifier c && rest.all isNameChar

theorem toAsciiUpper_of_startsIdentifier {c : Char} (h : startsIdentifier c = true) :
    Text.toAsciiUpper c = c := by
  have hlower : ¬(97 ≤ c.toNat && c.toNat ≤ 122) = true := by
    intro hc
    simp only [startsIdentifier, Bool.or_eq_true, Bool.and_eq_true, decide_eq_true_eq,
      beq_iff_eq] at h hc
    rcases h with h | rfl
    · omega
    · exact absurd hc (by decide)
  rw [Text.toAsciiUpper, if_neg hlower]

theorem isNameChar_of_startsIdentifier {c : Char} (h : startsIdentifier c = true) :
    isNameChar c = true := by
  simp only [startsIdentifier, isNameChar, Text.isAsciiAlphanumeric, Text.isAsciiLetter,
    Bool.or_eq_true, Bool.and_eq_true, decide_eq_true_eq] at h ⊢
  grind

theorem startsIdentifier_ofNat :
    ∀ n < 123, 97 ≤ n → startsIdentifier (Char.ofNat (n - 32)) = true := by
  decide

theorem startsIdentifier_toAsciiUpper {c : Char} (h : startsName c = true) :
    startsIdentifier (Text.toAsciiUpper c) = true := by
  by_cases hlower : (97 ≤ c.toNat && c.toNat ≤ 122) = true
  · rw [Text.toAsciiUpper, if_pos hlower]
    rw [Bool.and_eq_true, decide_eq_true_eq, decide_eq_true_eq] at hlower
    exact startsIdentifier_ofNat c.toNat (Nat.lt_succ_of_le hlower.2) hlower.1
  · rw [Text.toAsciiUpper, if_neg hlower]
    simp only [startsName, Text.isAsciiLetter, startsIdentifier] at h ⊢
    simp_all

theorem isNameChar_toAsciiUpper {c : Char} (h : isNameChar c = true) :
    isNameChar (Text.toAsciiUpper c) = true := by
  by_cases hstart : startsName c = true
  · exact isNameChar_of_startsIdentifier (startsIdentifier_toAsciiUpper hstart)
  · have hlower : ¬(97 ≤ c.toNat && c.toNat ≤ 122) = true := by
      intro hc
      simp [startsName, Text.isAsciiLetter, hc] at hstart
    rwa [Text.toAsciiUpper, if_neg hlower]

theorem isNameChar_of_startsName {c : Char} (h : startsName c = true) : isNameChar c = true := by
  simp only [startsName, isNameChar, Text.isAsciiAlphanumeric, Bool.or_eq_true] at h ⊢
  grind

theorem all_capitalizeWords (atStart : Bool) (t : Text) :
    (capitalizeWords atStart t).all isNameChar = true := by
  fun_induction capitalizeWords atStart t with
  | case1 => rfl
  | case2 atStart c rest hc ih =>
    rw [List.all_cons, ih, Bool.and_true]
    split
    · exact isNameChar_toAsciiUpper hc
    · exact hc
  | case3 atStart c rest hc ih => exact ih

theorem capitalizeWords_of_all {t : Text} (h : t.all isNameChar = true) :
    capitalizeWords false t = t := by
  induction t with
  | nil => rfl
  | cons c t ih =>
    rw [List.all_cons, Bool.and_eq_true] at h
    rw [capitalizeWords, if_pos h.1, ih h.2, if_neg Bool.false_ne_true]

theorem isName_of_sanitizeName? {raw name : Text} (h : sanitizeName? raw = some name) :
    isName name = true := by
  have hhead := List.head?_dropWhile_not (!startsName ·) raw
  simp only [sanitizeName?] at h
  split at h
  · cases h
  · rename_i hne
    rw [← Option.some.inj h]
    cases hraw : raw.dropWhile (!startsName ·) with
    | nil =>
      rw [hraw] at hne
      exact absurd rfl hne
    | cons c rest =>
      rw [hraw] at hhead
      have hstart : startsName c = true := by simpa using hhead
      rw [capitalizeWords, if_pos (isNameChar_of_startsName hstart), if_pos rfl, isName,
        startsIdentifier_toAsciiUpper hstart, all_capitalizeWords]
      rfl

theorem sanitizeName?_eq_none_iff {raw : Text} :
    sanitizeName? raw = none ↔ ∀ c ∈ raw, startsName c = false := by
  have hnil : raw.dropWhile (!startsName ·) = [] ↔ ∀ c ∈ raw, startsName c = false := by
    simp [List.dropWhile_eq_nil_iff]
  rw [← hnil]
  have hhead := List.head?_dropWhile_not (!startsName ·) raw
  cases hraw : raw.dropWhile (!startsName ·) with
  | nil => simp [sanitizeName?, hraw, capitalizeWords]
  | cons c rest =>
    rw [hraw] at hhead
    have hstart : startsName c = true := by simpa using hhead
    simp [sanitizeName?, hraw, capitalizeWords, isNameChar_of_startsName hstart]

theorem sanitizeName?_of_isName {name : Text} (h : isName name = true) :
    sanitizeName? name = some name := by
  cases name with
  | nil => cases h
  | cons c rest =>
    rw [isName, Bool.and_eq_true] at h
    have hstart : startsName c = true := by
      have hc := h.1
      simp only [startsIdentifier, startsName, Text.isAsciiLetter, Bool.or_eq_true] at hc ⊢
      grind
    have hdrop : (c :: rest).dropWhile (!startsName ·) = c :: rest :=
      List.dropWhile_cons_of_neg (by simp [hstart])
    have hcapital : capitalizeWords true (c :: rest) = c :: rest := by
      rw [capitalizeWords, if_pos (isNameChar_of_startsName hstart), if_pos rfl,
        toAsciiUpper_of_startsIdentifier h.1, capitalizeWords_of_all h.2]
    rw [sanitizeName?, hdrop, hcapital]
    rfl

theorem toNat_lt_of_isNameChar {c : Char} (h : isNameChar c = true) : c.toNat < 128 := by
  simp only [isNameChar, Text.isAsciiAlphanumeric, Text.isAsciiLetter, Text.isAsciiDigit,
    Bool.or_eq_true, Bool.and_eq_true, decide_eq_true_eq, beq_iff_eq] at h
  rcases h with h | rfl
  · omega
  · decide

theorem continuesIdentifier_of_isNameChar {c : Char} (h : isNameChar c = true) :
    Text.continuesIdentifier c = true := by
  have hlt := toNat_lt_of_isNameChar h
  rw [isNameChar, Bool.or_eq_true] at h
  rw [Text.continuesIdentifier, Text.isWordChar, if_pos hlt]
  rcases h with h | h
  · rw [h]
    rfl
  · rw [h, Bool.or_true]

theorem isNameChar_ofNat : ∀ n < 91, 65 ≤ n → isNameChar (Char.ofNat (n + 32)) = true := by
  decide

theorem isNameChar_toAsciiLower {c : Char} (h : isNameChar c = true) :
    isNameChar (Text.toAsciiLower c) = true := by
  by_cases hupper : (65 ≤ c.toNat && c.toNat ≤ 90) = true
  · rw [Text.toAsciiLower, if_pos hupper]
    rw [Bool.and_eq_true, decide_eq_true_eq, decide_eq_true_eq] at hupper
    exact isNameChar_ofNat c.toNat (Nat.lt_succ_of_le hupper.2) hupper.1
  · rwa [Text.toAsciiLower, if_neg hupper]

theorem toLower_eq_map {t : Text} (h : ∀ c ∈ t, isNameChar c = true) :
    Text.toLower t = t.map Text.toAsciiLower := by
  have hgo : ∀ before : Text, Text.toLower.go before t = t.map Text.toAsciiLower := by
    induction t with
    | nil => exact fun _ => rfl
    | cons d t ih =>
      intro before
      have hlt := toNat_lt_of_isNameChar (h d (by simp))
      have hsigma : ¬(d.toNat == 0x3A3) = true := by
        rw [beq_iff_eq]
        omega
      rw [Text.toLower.go, if_neg hsigma, Text.lowerChar, if_pos hlt,
        ih fun e he => h e (by simp [he])]
      rfl
  exact hgo []

theorem isNameChar_of_mem_toLower {t : Text} (h : ∀ c ∈ t, isNameChar c = true) :
    ∀ c ∈ Text.toLower t, isNameChar c = true := by
  rw [toLower_eq_map h]
  exact List.forall_mem_map.mpr fun c hc => isNameChar_toAsciiLower (h c hc)

theorem isNameChar_of_isName {name : Text} (h : isName name = true) :
    name ≠ [] ∧ ∀ c ∈ name, isNameChar c = true := by
  cases name with
  | nil => cases h
  | cons c rest =>
    rw [isName, Bool.and_eq_true, List.all_eq_true] at h
    refine ⟨List.cons_ne_nil c rest, fun d hd => ?_⟩
    rcases List.mem_cons.mp hd with rfl | hd
    · exact isNameChar_of_startsIdentifier h.1
    · exact h.2 d hd

section WordStarts

variable {raw used name : Text} {c : Char}

/-- Does a name character behind a text begin a word? It does if a separator stands between it and
the name character before it. The first name character does if `atStart`. -/
def beginsWord (atStart : Bool) (before : Text) : Bool :=
  (before.all (!isNameChar ·) && atStart) ||
    (before.reverse.takeWhile (!isNameChar ·)).any separatesWords

/-- A name that has the name characters of a text in their order, the first of each word in upper
case and the others as they are. -/
structure IsCapitalized (used name : Text) : Prop where
  length : name.length = used.countP isNameChar
  char : ∀ before c after, used = before ++ c :: after → isNameChar c = true →
    name[before.countP isNameChar]? =
      some (if beginsWord true before then Text.toAsciiUpper c else c)

theorem beginsWord_nil (atStart : Bool) : beginsWord atStart [] = atStart := by
  cases atStart <;> rfl

theorem beginsWord_cons (atStart : Bool) (c : Char) (before : Text) :
    beginsWord atStart (c :: before) =
      beginsWord (!isNameChar c && (atStart || separatesWords c)) before := by
  rw [beginsWord, beginsWord, List.reverse_cons, List.all_cons, List.takeWhile_append]
  cases hall : before.all (!isNameChar ·) with
  | true =>
    have hreverse : before.reverse.takeWhile (!isNameChar ·) = before.reverse :=
      List.takeWhile_eq_self_iff.mpr fun d hd =>
        List.all_eq_true.mp hall d (List.mem_reverse.mp hd)
    rw [if_pos (congrArg List.length hreverse), hreverse, List.any_append]
    cases hc : isNameChar c with
    | true => simp [hc]
    | false => simp [hc, Bool.or_comm, Bool.or_left_comm]
  | false =>
    have hreverse : before.reverse.takeWhile (!isNameChar ·) ≠ before.reverse := by
      intro h
      have hmem := List.takeWhile_eq_self_iff.mp h
      rw [← Bool.not_eq_true, List.all_eq_true] at hall
      exact hall fun d hd => hmem d (List.mem_reverse.mpr hd)
    rw [if_neg fun h => hreverse ((List.takeWhile_prefix _).eq_of_length h), Bool.and_false,
      Bool.false_and, Bool.false_and]

theorem length_capitalizeWords (atStart : Bool) (t : Text) :
    (capitalizeWords atStart t).length = t.countP isNameChar := by
  fun_induction capitalizeWords atStart t with
  | case1 => rfl
  | case2 atStart c rest hc ih => rw [List.length_cons, ih, List.countP_cons_of_pos hc]
  | case3 atStart c rest hc ih => rw [ih, List.countP_cons_of_neg hc]

theorem getElem?_capitalizeWords (atStart : Bool) (before : Text) (hc : isNameChar c = true)
    (after : Text) :
    (capitalizeWords atStart (before ++ c :: after))[before.countP isNameChar]? =
      some (if beginsWord atStart before then Text.toAsciiUpper c else c) := by
  induction before generalizing atStart with
  | nil =>
    rw [List.nil_append, capitalizeWords, if_pos hc, beginsWord_nil]
    rfl
  | cons d before ih =>
    rw [List.cons_append, capitalizeWords, beginsWord_cons]
    cases hd : isNameChar d with
    | true =>
      rw [if_pos rfl, List.countP_cons_of_pos hd, List.getElem?_cons_succ, ih]
      rfl
    | false =>
      rw [if_neg Bool.false_ne_true, List.countP_cons_of_neg (by simp [hd]), ih]
      rfl

theorem isCapitalized_capitalizeWords (t : Text) : IsCapitalized t (capitalizeWords true t) where
  length := length_capitalizeWords true t
  char := by
    rintro before c after rfl hc
    exact getElem?_capitalizeWords true before hc after

theorem isCapitalized_of_sanitizeName? (h : sanitizeName? raw = some name) :
    ∃ skipped used, raw = skipped ++ used ∧ (∀ c ∈ skipped, startsName c = false) ∧
      used.head?.any startsName = true ∧ IsCapitalized used name := by
  have hname : name = capitalizeWords true (raw.dropWhile (!startsName ·)) := by
    simp only [sanitizeName?] at h
    split at h
    · cases h
    · exact (Option.some.inj h).symm
  refine ⟨raw.takeWhile (!startsName ·), raw.dropWhile (!startsName ·),
    List.takeWhile_append_dropWhile.symm, fun c hc => ?_, ?_, ?_⟩
  · simpa using List.mem_takeWhile_imp hc
  · have hhead := List.head?_dropWhile_not (!startsName ·) raw
    cases hused : raw.dropWhile (!startsName ·) with
    | nil =>
      rw [hused] at hname
      cases (isName_of_sanitizeName? h).symm.trans (congrArg isName hname)
    | cons c rest =>
      rw [hused] at hhead
      simpa using hhead
  · rw [hname]
    exact isCapitalized_capitalizeWords _

/-- A raw text without a letter or a dollar gives no name. Any other gives an identifier that has
its name characters from the first of these on, and that is its own name. -/
theorem sanitizeName?_isExact (raw : Text) :
    (sanitizeName? raw = none ↔ ∀ c ∈ raw, startsName c = false) ∧
    ∀ name, sanitizeName? raw = some name →
      isName name = true ∧
      (∃ skipped used, raw = skipped ++ used ∧ (∀ c ∈ skipped, startsName c = false) ∧
        used.head?.any startsName = true ∧ IsCapitalized used name) ∧
      sanitizeName? name = some name := by
  refine ⟨sanitizeName?_eq_none_iff, fun name h => ?_⟩
  have hname := isName_of_sanitizeName? h
  exact ⟨hname, isCapitalized_of_sanitizeName? h, sanitizeName?_of_isName hname⟩

/-- Digits in front, a letter beyond ASCII inside a word, and two separators in a row. -/
def waveTitle : Text := "3d w\u00e4ve-_Form $2"

theorem sanitizeName?_isExact_wave :
    sanitizeName? waveTitle = some "DWveForm$2" ∧ isName "DWveForm$2" = true ∧
      sanitizeName? "DWveForm$2" = some "DWveForm$2" := by
  have h : sanitizeName? waveTitle = some "DWveForm$2" := by decide
  have hexact := (sanitizeName?_isExact waveTitle).2 "DWveForm$2" h
  exact ⟨h, hexact.1, hexact.2.2⟩

end WordStarts

end CanvasPage.Descriptor
