import CanvasPage.Text.Letter

namespace CanvasPage.Text

def continuesIdentifier (c : Char) : Bool := isWordChar c || c == '$'

def isIdentifier : Text → Bool
  | [] => false
  | c :: rest => (isAsciiLetter c || c == '_' || c == '$') && rest.all continuesIdentifier

def blankCodes : List Nat :=
  [0x20, 9, 10, 11, 12, 13, 0x85, 0xA0, 0x1680, 0x2000, 0x2001, 0x2002, 0x2003, 0x2004, 0x2005,
    0x2006, 0x2007, 0x2008, 0x2009, 0x200A, 0x2028, 0x2029, 0x202F, 0x205F, 0x3000]

theorem mem_blankCodes {c : Char} (h : isBlank c = true) : c.toNat ∈ blankCodes := by
  have hspace : c = ' ' ↔ c.toNat = 0x20 := Char.toNat_inj.symm
  simp only [isBlank, Bool.or_eq_true, Bool.and_eq_true, beq_iff_eq, decide_eq_true_eq,
    hspace] at h
  simp only [blankCodes, List.mem_cons, List.not_mem_nil, or_false]
  omega

theorem not_continuesIdentifier_of_mem_blankCodes :
    ∀ n ∈ blankCodes, continuesIdentifier (Char.ofNat n) = false := by
  decide +kernel

theorem not_continuesIdentifier_of_isBlank {c : Char} (h : isBlank c = true) :
    continuesIdentifier c = false := by
  have hcode := not_continuesIdentifier_of_mem_blankCodes c.toNat (mem_blankCodes h)
  rwa [Char.ofNat_toNat] at hcode

theorem isBlank_of_continuesIdentifier {c : Char} (h : continuesIdentifier c = true) :
    isBlank c = false := by
  cases hb : isBlank c with
  | false => rfl
  | true => exact absurd h (by simp [not_continuesIdentifier_of_isBlank hb])

theorem continuesIdentifier_of_starts {c : Char}
    (h : (isAsciiLetter c || c == '_' || c == '$') = true) : continuesIdentifier c = true := by
  simp only [Bool.or_eq_true, beq_iff_eq] at h
  rcases h with (h | rfl) | rfl
  · have hlt : c.toNat < 128 := by
      simp only [isAsciiLetter, Bool.or_eq_true, Bool.and_eq_true, decide_eq_true_eq] at h
      omega
    simp [continuesIdentifier, isWordChar, hlt, isAsciiAlphanumeric, h]
  · decide
  · decide

theorem continuesIdentifier_of_isIdentifier {t : Text} (h : isIdentifier t = true) :
    ∀ c ∈ t, continuesIdentifier c = true := by
  cases t with
  | nil => simp
  | cons c t =>
    rw [isIdentifier, Bool.and_eq_true, List.all_eq_true] at h
    intro d hd
    rcases List.mem_cons.mp hd with rfl | hd
    · exact continuesIdentifier_of_starts h.1
    · exact h.2 d hd

theorem ne_nil_of_isIdentifier {t : Text} (h : isIdentifier t = true) : t ≠ [] := by
  rintro rfl
  simp [isIdentifier] at h

end CanvasPage.Text
