import CanvasPage.Checked.Basic

namespace CanvasPage.Checked

open Text

section Runs

variable {α β : Type}

theorem bind_ok (a : α) (f : α → Run β) : (Except.ok a >>= f) = f a := rfl

theorem mapM_eq_ok {f : α → Run β} {g : α → β} {xs : List α}
    (h : ∀ a ∈ xs, f a = .ok (g a)) : xs.mapM f = .ok (xs.map g) := by
  induction xs with
  | nil => rfl
  | cons a xs ih =>
    obtain ⟨ha, hxs⟩ := List.forall_mem_cons.mp h
    rw [List.mapM_cons, ha, bind_ok, ih hxs]
    rfl

theorem findM?_eq_ok {f : α → Run Bool} {p : α → Bool} {xs : List α}
    (h : ∀ a ∈ xs, f a = .ok (p a)) : xs.findM? f = .ok (xs.find? p) := by
  induction xs with
  | nil => rfl
  | cons a xs ih =>
    obtain ⟨ha, hxs⟩ := List.forall_mem_cons.mp h
    rw [List.findM?, ha, bind_ok, ih hxs, List.find?_cons]
    cases p a <;> rfl

theorem findSomeM?_eq_ok {f : α → Run (Option β)} {g : α → Option β} {xs : List α}
    (h : ∀ a ∈ xs, f a = .ok (g a)) : xs.findSomeM? f = .ok (xs.findSome? g) := by
  induction xs with
  | nil => rfl
  | cons a xs ih =>
    obtain ⟨ha, hxs⟩ := List.forall_mem_cons.mp h
    rw [List.findSomeM?, ha, bind_ok, ih hxs, List.findSome?_cons]
    cases g a <;> rfl

end Runs

section Bytes

variable {c d : Char} {t u v w : Text} {i n pos : Nat}

def charBytes (c : Char) : Text := (String.utf8EncodeChar c).map fun b => Char.ofNat b.toNat

theorem bytes_cons (c : Char) (t : Text) : bytes (c :: t) = charBytes c ++ bytes t := by
  simp [bytes, charBytes]

theorem bytes_append (t u : Text) : bytes (t ++ u) = bytes t ++ bytes u := by
  simp [bytes]

theorem length_charBytes (c : Char) : (charBytes c).length = c.utf8Size := by
  simp [charBytes]

theorem length_bytes (t : Text) : (bytes t).length = byteLength t := by
  induction t with
  | nil => rfl
  | cons c t ih => rw [bytes_cons, List.length_append, length_charBytes, ih, byteLength_cons]

theorem charBytes_of_lt (h : c.toNat < 128) : charBytes c = [c] := by
  have hsmall : c.val.toNat ≤ 127 := Nat.le_of_lt_succ h
  have hbyte : (UInt8.ofNat c.val.toNat).toNat = c.toNat :=
    Nat.mod_eq_of_lt (Nat.lt_of_lt_of_le h (by decide))
  rw [charBytes, String.utf8EncodeChar, if_pos hsmall, List.map_singleton, hbyte,
    Char.ofNat_toNat]

theorem toNat_ofNat_of_lt (h : n < 256) : (Char.ofNat n).toNat = n := by
  rw [Char.ofNat, dif_pos (Or.inl (by omega))]
  rfl

theorem le_toNat_of_mem_charBytes (h : 128 ≤ c.toNat) : ∀ b ∈ charBytes c, 128 ≤ b.toNat := by
  have hlarge : ¬ c.val.toNat ≤ 127 := Nat.not_le_of_lt h
  intro b hb
  obtain ⟨x, hx, rfl⟩ := List.mem_map.mp hb
  rw [toNat_ofNat_of_lt x.toNat_lt]
  rw [String.utf8EncodeChar, if_neg hlarge] at hx
  split at hx
  · simp only [List.mem_cons, List.not_mem_nil, or_false] at hx
    rcases hx with rfl | rfl <;> simp only [UInt8.toNat_ofNat'] <;> omega
  · split at hx
    · simp only [List.mem_cons, List.not_mem_nil, or_false] at hx
      rcases hx with rfl | rfl | rfl <;> simp only [UInt8.toNat_ofNat'] <;> omega
    · simp only [List.mem_cons, List.not_mem_nil, or_false] at hx
      rcases hx with rfl | rfl | rfl | rfl <;> simp only [UInt8.toNat_ofNat'] <;> omega

theorem utf8Size_of_lt (h : c.toNat < 128) : c.utf8Size = 1 := by
  rw [← length_charBytes, charBytes_of_lt h]
  rfl

theorem byte?_append_add (u v : Text) (i : Nat) :
    byte? (u ++ v) (byteLength u + i) = byte? v i := by
  rw [byte?, bytes_append, ← length_bytes, List.getElem?_append_right (by omega),
    Nat.add_sub_cancel_left]
  rfl

theorem byte?_append (u v : Text) : byte? (u ++ v) (byteLength u) = byte? v 0 :=
  byte?_append_add u v 0

theorem byte?_cons (h : c.toNat < 128) (t : Text) : byte? (c :: t) 0 = some c := by
  rw [byte?, bytes_cons, charBytes_of_lt h]
  rfl

theorem byte?_cons_succ (h : c.toNat < 128) (t : Text) (i : Nat) :
    byte? (c :: t) (i + 1) = byte? t i := by
  rw [byte?, bytes_cons, charBytes_of_lt h]
  rfl

/-- The bytes at `pos` belong to characters beyond ASCII. -/
def AreWide (t : Text) (pos n : Nat) : Prop :=
  ∀ i < n, ∃ b, byte? t (pos + i) = some b ∧ 128 ≤ b.toNat

theorem areWide_cons (h : 128 ≤ c.toNat) (t : Text) : AreWide (c :: t) 0 c.utf8Size := by
  intro i hi
  rw [← length_charBytes] at hi
  refine ⟨(charBytes c)[i], ?_, le_toNat_of_mem_charBytes h _ (List.getElem_mem hi)⟩
  rw [Nat.zero_add, byte?, bytes_cons, List.getElem?_append_left hi, List.getElem?_eq_getElem hi]

theorem areWide_append (h : AreWide v pos n) (u : Text) :
    AreWide (u ++ v) (byteLength u + pos) n := by
  intro i hi
  rw [Nat.add_assoc, byte?_append_add]
  exact h i hi

theorem AreWide.tail (h : AreWide t pos (n + 1)) : AreWide t (pos + 1) n := by
  intro i hi
  rw [Nat.add_assoc, Nat.add_comm 1]
  exact h (i + 1) (by omega)

theorem AreWide.head (h : AreWide t pos (n + 1)) :
    ∃ b, byte? t pos = some b ∧ 128 ≤ b.toNat := h 0 (Nat.succ_pos n)

theorem areWide_char (h : 128 ≤ c.toNat) (u v : Text) :
    AreWide (u ++ c :: v) (byteLength u) c.utf8Size :=
  areWide_append (areWide_cons h v) u

theorem byte?_eq_some_iff (hd : d.toNat < 128) : byte? t 0 = some d ↔ t.head? = some d := by
  cases t with
  | nil => simp [byte?, bytes]
  | cons c t =>
    by_cases hc : c.toNat < 128
    · rw [byte?_cons hc, List.head?_cons]
    · obtain ⟨b, hb, hwide⟩ := areWide_cons (Nat.le_of_not_lt hc) t 0 c.utf8Size_pos
      rw [hb, List.head?_cons, Option.some_inj, Option.some_inj]
      constructor
      · rintro rfl
        omega
      · rintro rfl
        omega

theorem byte?_beq_some (hd : d.toNat < 128) (t : Text) :
    (byte? t 0 == some d) = (t.head? == some d) := by
  rw [Bool.eq_iff_iff, beq_iff_eq, beq_iff_eq, byte?_eq_some_iff hd]

theorem byteAt_eq_ok (h : byte? t i = some c) : byteAt t i = .ok c := by
  rw [byteAt, h]

theorem byteAt_char (h : c.toNat < 128) (u v : Text) :
    byteAt (u ++ c :: v) (byteLength u) = .ok c :=
  byteAt_eq_ok (by rw [byte?_append, byte?_cons h])

theorem not_byteLength_le (u : Text) (c : Char) (w : Text) :
    ¬ byteLength (u ++ c :: w) ≤ byteLength u := by
  have := c.utf8Size_pos
  rw [byteLength_append, byteLength_cons]
  omega

theorem lt_of_byte?_eq_some (h : byte? t i = some c) : i < byteLength t := by
  rw [← length_bytes]
  exact (List.getElem?_eq_some_iff.mp h).1

theorem byteLength_singleton (h : c.toNat < 128) : byteLength [c] = 1 := utf8Size_of_lt h

theorem eq_nil_of_byteLength_le (h : byteLength t ≤ 0) : t = [] := by
  cases t with
  | nil => rfl
  | cons c t =>
    have := c.utf8Size_pos
    rw [byteLength_cons] at h
    omega

theorem byteLength_pos (h : t ≠ []) : 0 < byteLength t :=
  Nat.pos_of_ne_zero fun hzero => h (eq_nil_of_byteLength_le (Nat.le_of_eq hzero))

theorem byteLength_le_of_suffix (h : u <:+ v) : byteLength u ≤ byteLength v := by
  obtain ⟨w, rfl⟩ := h
  rw [byteLength_append]
  exact Nat.le_add_left _ _

theorem length_le_byteLength (t : Text) : t.length ≤ byteLength t := by
  induction t with
  | nil => exact Nat.le_refl _
  | cons c t ih =>
    have := c.utf8Size_pos
    rw [List.length_cons, byteLength_cons]
    omega

theorem byteLength_of_takeBytes {u : Text} (h : takeBytes n t = some u) : byteLength u = n := by
  fun_induction takeBytes n t generalizing u with
  | case1 t =>
    obtain rfl := Option.some.inj h
    rfl
  | case2 n => cases h
  | case3 n c rest hlt => cases h
  | case4 n c rest hlt ih =>
    obtain ⟨v, hv, rfl⟩ := Option.map_eq_some_iff.mp h
    rw [byteLength_cons, ih hv]
    omega

theorem cut_eq_ok {start stop : Nat} (ht : t = u ++ (v ++ w)) (hstart : start = byteLength u)
    (hstop : stop = start + byteLength v) : cut t start stop = .ok v := by
  subst ht hstart hstop
  rw [cut, if_neg (by omega), dropBytes_append, Option.bind_some, Nat.add_sub_cancel_left,
    takeBytes_append]

theorem cutFrom_eq_ok {start : Nat} (ht : t = u ++ v) (hstart : start = byteLength u) :
    cutFrom t start = .ok v :=
  cut_eq_ok (w := []) (by rw [ht, List.append_nil]) hstart (by rw [ht, hstart, byteLength_append])

theorem minus_of_le {m : Nat} (h : n ≤ m) : minus m n = .ok (m - n) := if_pos h

end Bytes

end CanvasPage.Checked
