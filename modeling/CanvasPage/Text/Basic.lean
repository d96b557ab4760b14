namespace CanvasPage

abbrev Text := List Char

instance : Coe String Text := ⟨String.toList⟩

namespace Text

instance decidableForallMem (t : Text) (p : Char → Prop) [DecidablePred p] :
    Decidable (∀ c ∈ t, p c) :=
  List.decidableBAll p t

/-- The property White_Space. -/
def isBlank (c : Char) : Bool :=
  c == ' ' || (9 ≤ c.toNat && c.toNat ≤ 13) || c.toNat == 0x85 || c.toNat == 0xA0 ||
    c.toNat == 0x1680 || (0x2000 ≤ c.toNat && c.toNat ≤ 0x200A) || c.toNat == 0x2028 ||
    c.toNat == 0x2029 || c.toNat == 0x202F || c.toNat == 0x205F || c.toNat == 0x3000

def allBlank (t : Text) : Bool := t.all isBlank

/-- The length in bytes of the UTF-8 form. -/
def byteLength : Text → Nat
  | [] => 0
  | c :: rest => c.utf8Size + byteLength rest

@[simp] theorem byteLength_nil : byteLength [] = 0 := rfl

@[simp] theorem byteLength_cons (c : Char) (t : Text) :
    byteLength (c :: t) = c.utf8Size + byteLength t := rfl

@[simp] theorem byteLength_append (s t : Text) :
    byteLength (s ++ t) = byteLength s + byteLength t := by
  induction s with
  | nil => simp
  | cons c s ih => simp [ih, Nat.add_assoc]

/-- The text after its first `n` bytes; `none` inside a character and past the end. -/
def dropBytes : Nat → Text → Option Text
  | 0, t => some t
  | _ + 1, [] => none
  | n + 1, c :: rest => if n + 1 < c.utf8Size then none else dropBytes (n + 1 - c.utf8Size) rest

theorem dropBytes_cons (c : Char) (t : Text) (n : Nat) :
    dropBytes (c.utf8Size + n) (c :: t) = dropBytes n t := by
  have hc := c.utf8Size_pos
  obtain ⟨k, hk⟩ : ∃ k, c.utf8Size + n = k + 1 := ⟨c.utf8Size + n - 1, by omega⟩
  rw [hk, dropBytes, if_neg (by omega)]
  congr 1
  omega

theorem dropBytes_append (s t : Text) : dropBytes (byteLength s) (s ++ t) = some t := by
  induction s with
  | nil => cases t <;> rfl
  | cons c s ih => rw [List.cons_append, byteLength_cons, dropBytes_cons, ih]

theorem eq_append_of_dropBytes {n : Nat} {t u : Text} (h : dropBytes n t = some u) :
    ∃ s, t = s ++ u ∧ byteLength s = n := by
  fun_induction dropBytes n t with
  | case1 t => exact ⟨[], by simpa using h, rfl⟩
  | case2 n => simp at h
  | case3 n c rest hlt => simp at h
  | case4 n c rest hlt ih =>
    obtain ⟨s, hs, hn⟩ := ih h
    exact ⟨c :: s, by rw [hs, List.cons_append], by rw [byteLength_cons]; omega⟩

/-- The first `n` bytes of a text; `none` inside a character and past the end. -/
def takeBytes : Nat → Text → Option Text
  | 0, _ => some []
  | _ + 1, [] => none
  | n + 1, c :: rest =>
      if n + 1 < c.utf8Size then none
      else (takeBytes (n + 1 - c.utf8Size) rest).map (c :: ·)

theorem takeBytes_cons (c : Char) (t : Text) (n : Nat) :
    takeBytes (c.utf8Size + n) (c :: t) = (takeBytes n t).map (c :: ·) := by
  have hc := c.utf8Size_pos
  obtain ⟨k, hk⟩ : ∃ k, c.utf8Size + n = k + 1 := ⟨c.utf8Size + n - 1, by omega⟩
  have hn : k + 1 - c.utf8Size = n := by omega
  rw [hk, takeBytes, if_neg (by omega), hn]

theorem takeBytes_append (s t : Text) : takeBytes (byteLength s) (s ++ t) = some s := by
  induction s with
  | nil => cases t <;> rfl
  | cons c s ih => rw [List.cons_append, byteLength_cons, takeBytes_cons, ih, Option.map_some]

def dropEndWhile (p : Char → Bool) (t : Text) : Text := (t.reverse.dropWhile p).reverse

def trimStart (t : Text) : Text := t.dropWhile isBlank

def trimEnd (t : Text) : Text := dropEndWhile isBlank t

def trim (t : Text) : Text := trimEnd (trimStart t)

/-- Removes a non-empty suffix as often as the text ends in it. -/
def dropSuffixes (suffix t : Text) : Text :=
  go t.length t
where
  go : Nat → Text → Text
    | 0, t => t
    | n + 1, t =>
        if suffix.isSuffixOf t && !suffix.isEmpty then go n (t.take (t.length - suffix.length))
        else t

/-- The lines of a text. A line ends at a line feed, which a carriage return may precede; nothing
follows the last line feed. -/
def lines : Text → List Text
  | [] => []
  | '\n' :: rest => [] :: lines rest
  | '\r' :: '\n' :: rest => [] :: lines rest
  | c :: rest =>
      match lines rest with
      | [] => [[c]]
      | l :: ls => (c :: l) :: ls

theorem not_mem_lines (t : Text) : ∀ l ∈ lines t, '\n' ∉ l := by
  fun_induction lines t with
  | case1 => simp
  | case2 rest ih => simpa using ih
  | case3 rest ih => simpa using ih
  | case4 c rest hc hr hl ih =>
    intro l hmem
    rw [List.mem_singleton.mp hmem, List.mem_singleton]
    exact fun h => hc h.symm
  | case5 c rest hc hr l ls hl ih =>
    intro k hk
    rw [hl] at ih
    rcases List.mem_cons.mp hk with rfl | hk
    · rw [List.mem_cons, not_or]
      exact ⟨fun h => hc h.symm, ih l (by simp)⟩
    · exact ih k (by simp [hk])

/-- The maximal runs of characters that are not blank. -/
def words : Text → List Text
  | [] => []
  | c :: rest =>
      if isBlank c then words rest
      else if rest.head?.all isBlank then [c] :: words rest
      else match words rest with
        | [] => [[c]]
        | w :: ws => (c :: w) :: ws

theorem of_mem_words (t : Text) : ∀ w ∈ words t, w ≠ [] ∧ ∀ c ∈ w, isBlank c = false := by
  fun_induction words t with
  | case1 => simp
  | case2 c rest hc ih => exact ih
  | case3 c rest hc hr ih =>
    simp only [List.mem_cons, forall_eq_or_imp]
    exact ⟨by simpa using hc, ih⟩
  | case4 c rest hc hr hw ih => simpa using hc
  | case5 c rest hc hr w ws hw ih =>
    rw [hw] at ih
    simp only [List.mem_cons, forall_eq_or_imp] at ih ⊢
    exact ⟨⟨by simp, by simpa using hc, ih.1.2⟩, ih.2⟩

def join (separator : Text) : List Text → Text
  | [] => []
  | [t] => t
  | t :: ts => t ++ separator ++ join separator ts

/-- Pads with spaces on the right up to `width` characters. -/
def padRight (width : Nat) (t : Text) : Text := t ++ List.replicate (width - t.length) ' '

/-- The order of texts by code points, which is that of their UTF-8 bytes. -/
def precedes : Text → Text → Bool
  | _, [] => false
  | [], _ :: _ => true
  | c :: s, d :: t => c.toNat < d.toNat || (c == d && precedes s t)

end Text

/-- A half-open range of byte offsets. -/
structure Span where
  start : Nat
  stop : Nat
  deriving DecidableEq, Repr

end CanvasPage
