import CanvasPage.Proofs.Checked.Script
import CanvasPage.Proofs.Script.Matching

namespace CanvasPage

namespace Script

variable {t : Text} {b : Bracket} {c : Char} {o k : Nat}

theorem Bracket.eq_opener_of_ofOpener? (h : Bracket.ofOpener? c = some b) : c = b.opener := by
  rw [ofOpener?] at h
  grind [Bracket.opener]

theorem exists_of_matchingDelimiter (h : matchingDelimiter t o = some k) :
    ∃ (b : Bracket) (u w inside after : Text), t = u ++ b.opener :: w ∧ Text.byteLength u = o ∧
      b.enclosed? w = some (inside, after) ∧ k = o + 1 + Text.byteLength inside := by
  rw [matchingDelimiter] at h
  split at h
  · cases h
  · cases h
  · rename_i c w hdrop
    obtain ⟨u, rfl, rfl⟩ := Text.eq_append_of_dropBytes hdrop
    obtain ⟨b, hb, h⟩ := Option.bind_eq_some_iff.mp h
    obtain ⟨⟨inside, after⟩, hinside, hk⟩ := Option.bind_eq_some_iff.mp h
    rw [Bracket.eq_opener_of_ofOpener? hb]
    exact ⟨b, u, w, inside, after, rfl, rfl, hinside, (Option.some.inj hk).symm⟩

theorem matchingDelimiter_append_left (p t : Text) (o : Nat) :
    matchingDelimiter (p ++ t) (Text.byteLength p + o) =
      (matchingDelimiter t o).map (Text.byteLength p + ·) := by
  rw [matchingDelimiter, matchingDelimiter, Text.dropBytes_append_add]
  cases Text.dropBytes o t with
  | none => rfl
  | some u =>
    cases u with
    | nil => rfl
    | cons c w =>
      dsimp only
      cases Bracket.ofOpener? c with
      | none => rfl
      | some b =>
        simp only [Option.bind_eq_bind, Option.bind_some]
        cases b.enclosed? w with
        | none => rfl
        | some found =>
          rw [Option.bind_some, Nat.add_assoc, Nat.add_assoc, ← Nat.add_assoc o]
          rfl

/-- What stands behind a text changes no match in it: all that is read before the closer is found
stands before the closer. -/
theorem matchingDelimiter_append_right (t q : Text) (o : Nat) (hk : k < Text.byteLength t) :
    matchingDelimiter (t ++ q) o = some k ↔ matchingDelimiter t o = some k := by
  constructor
  · intro h
    obtain ⟨b, u, w, inside, after, ht, rfl, hinside, rfl⟩ := exists_of_matchingDelimiter h
    rw [← List.singleton_append, ← List.append_assoc] at ht
    rcases List.append_eq_append_iff.mp ht with ⟨v, hu, -⟩ | ⟨w, rfl, rfl⟩
    · have hlen := congrArg Text.byteLength hu
      simp only [Text.byteLength_append, Text.byteLength_cons, Text.byteLength_nil,
        b.utf8Size_opener] at hlen
      omega
    rw [List.append_assoc, List.singleton_append] at hk ⊢
    cases hw : b.enclosed? w with
    | some found =>
      obtain ⟨i, a⟩ := found
      have hboth := hinside.symm.trans (Bracket.enclosed?_append_right hw q)
      obtain ⟨rfl, -⟩ := Prod.mk.inj (Option.some.inj hboth)
      exact matchingDelimiter_of_enclosed? u hw
    | none =>
      obtain ⟨v, rfl⟩ := Bracket.exists_of_closeFrom_append hw hinside
      simp only [Text.byteLength_append, Text.byteLength_cons, b.utf8Size_opener] at hk
      omega
  · intro h
    obtain ⟨b, u, w, inside, after, rfl, rfl, hinside, rfl⟩ := exists_of_matchingDelimiter h
    rw [List.append_assoc, List.cons_append]
    exact matchingDelimiter_of_enclosed? u (Bracket.enclosed?_append_right hinside q)

end Script

namespace Checked

open Script Text

variable {t : Text} {d : Char} {k : Nat}

theorem byte?_eq_some_iff_charAt? (hd : d.toNat < 128) :
    byte? t k = some d ↔ charAt? t k = some d := by
  constructor
  · intro h
    obtain ⟨u, c, w, rfl, hle, hlt⟩ := exists_char_at (lt_of_byte?_eq_some h)
    by_cases hc : c.toNat < 128
    · rw [utf8Size_of_lt hc] at hlt
      obtain rfl : k = byteLength u := by omega
      rw [charAt?_append, ← byte?_cons hc w, ← byte?_append, h]
    · obtain ⟨n, rfl⟩ : ∃ n, k = byteLength u + n := ⟨k - byteLength u, by omega⟩
      obtain ⟨e, he, hwide⟩ := areWide_char (Nat.le_of_not_lt hc) u w n (by omega)
      obtain rfl := Option.some.inj (he.symm.trans h)
      omega
  · intro h
    obtain ⟨u, w, rfl, rfl⟩ := exists_of_charAt? h
    rw [byte?_append, byte?_cons hd]

theorem matchingDelimiter_eq_ok_at (t : Text) (pos : Nat) :
    matchingDelimiter t pos = .ok (Script.matchingDelimiter t pos) := by
  cases hb : (byte? t pos).bind Bracket.ofOpener? with
  | some b =>
    obtain ⟨c, hbyte, hc⟩ := Option.bind_eq_some_iff.mp hb
    obtain rfl := Bracket.eq_opener_of_ofOpener? hc
    have hchar := (byte?_eq_some_iff_charAt? (opener_lt b)).mp hbyte
    obtain ⟨u, w, rfl, rfl⟩ := exists_of_charAt? hchar
    rw [matchingDelimiter_eq_ok b rfl rfl, matchingDelimiter_opener]
  | none =>
    rw [matchingDelimiter, hb]
    cases hfound : Script.matchingDelimiter t pos with
    | none => rfl
    | some k =>
      obtain ⟨b, u, w, -, -, rfl, rfl, -⟩ := exists_of_matchingDelimiter hfound
      rw [byte?_append, byte?_cons (opener_lt b), Option.bind_some, b.ofOpener?_opener] at hb
      cases hb

end Checked

namespace Script

/-- Delimiters match in a stretch of a text as they do in the whole text, whatever stands before
and behind the stretch; so they do when both are read by bytes. -/
theorem matchingDelimiter_iff_of_stretch (p m q : Text) (o : Nat) {c : Nat}
    (hc : c < Text.byteLength m) :
    (matchingDelimiter (p ++ m ++ q) (Text.byteLength p + o) = some (Text.byteLength p + c) ↔
        matchingDelimiter m o = some c) ∧
      (Checked.matchingDelimiter (p ++ m ++ q) (Text.byteLength p + o) =
          .ok (some (Text.byteLength p + c)) ↔
        Checked.matchingDelimiter m o = .ok (some c)) := by
  have hlocal : matchingDelimiter (p ++ m ++ q) (Text.byteLength p + o) =
      some (Text.byteLength p + c) ↔ matchingDelimiter m o = some c := by
    rw [List.append_assoc, matchingDelimiter_append_left, ← matchingDelimiter_append_right m q o hc,
      Option.map_eq_some_iff]
    simp only [Nat.add_left_cancel_iff, exists_eq_right]
  refine ⟨hlocal, ?_⟩
  rw [Checked.matchingDelimiter_eq_ok_at, Checked.matchingDelimiter_eq_ok_at, Except.ok.injEq,
    Except.ok.injEq, hlocal]

/-- An arrow function with a brace in a string in a template. -/
def arrowValue : Text := "(t) => \x7b put(`a$\x7b'\x7d'\x7d`); \x7d"

theorem matchingDelimiter_iff_of_stretch_arrowValue :
    25 < Text.byteLength arrowValue ∧
      matchingDelimiter ("it's = " ++ arrowValue ++ ";\n\x7d") (Text.byteLength "it's = " + 7) =
        some (Text.byteLength "it's = " + 25) ∧
      Checked.matchingDelimiter ("it's = " ++ arrowValue ++ ";\n\x7d")
        (Text.byteLength "it's = " + 7) = .ok (some (Text.byteLength "it's = " + 25)) := by
  have hlocal :=
    matchingDelimiter_iff_of_stretch "it's = " arrowValue ";\n\x7d" 7 (c := 25) (by decide)
  exact ⟨by decide, hlocal.1.mpr (by decide), hlocal.2.mpr (by decide)⟩

end Script

end CanvasPage
