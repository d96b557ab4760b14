import CanvasPage.Text.Letter

namespace CanvasPage.Text

variable {n : Nat} {t : Text}

theorem lt_of_readDecimal? (h : readDecimal? t = some n) : n < UInt32.size := by
  simp only [readDecimal?] at h
  split at h
  · split at h
    · rename_i hlt
      rwa [← Option.some.inj h]
    · cases h
  · cases h

theorem isAsciiDigit_of_mem_decimal {c : Char} (h : c ∈ decimal n) : isAsciiDigit c = true := by
  have hdigit := Nat.isDigit_of_mem_toDigits (by decide) (by decide) h
  rw [isAsciiDigit, Bool.and_eq_true, decide_eq_true_eq, decide_eq_true_eq]
  rw [Char.isDigit, Bool.and_eq_true, decide_eq_true_eq, decide_eq_true_eq] at hdigit
  exact hdigit

theorem isBlank_of_isAsciiDigit {c : Char} (h : isAsciiDigit c = true) :
    isBlank c = false := by
  rw [isAsciiDigit, Bool.and_eq_true, decide_eq_true_eq, decide_eq_true_eq] at h
  have hspace : c ≠ ' ' := by
    rintro rfl
    exact absurd h.1 (by decide)
  simp [isBlank, hspace]
  omega

theorem decimal_ne_nil (n : Nat) : decimal n ≠ [] := Nat.toDigits_ne_nil

theorem foldl_decimal (n : Nat) :
    (decimal n).foldl (fun n c => n * 10 + (c.toNat - 48)) 0 = n := by
  have hstep : (fun (n : Nat) (c : Char) => n * 10 + (c.toNat - 48)) =
      fun n c => 10 * n + (c.toNat - '0'.toNat) := by
    funext m c
    rw [Nat.mul_comm]
    rfl
  rw [hstep, ← Nat.ofDigitChars_eq_foldl]
  exact Nat.ofDigitChars_ten_toDigits

theorem readDecimal?_decimal (h : n < UInt32.size) : readDecimal? (decimal n) = some n := by
  have hdigits : (decimal n).all isAsciiDigit = true := by
    rw [List.all_eq_true]
    intro c hc
    exact isAsciiDigit_of_mem_decimal hc
  have hne : List.isEmpty (decimal n) = false := by
    simpa using decimal_ne_nil n
  rw [readDecimal?, hdigits, hne]
  simp only [foldl_decimal, Bool.not_false, Bool.and_self, if_true]
  rw [if_pos h]

end CanvasPage.Text
