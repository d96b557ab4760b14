import CanvasPage.Pattern.Match

namespace CanvasPage.Checked

/-- What stops a run on byte offsets: an index past the end, a stretch whose ends are out of order,
past the end or inside a character, a number below zero or above its 32 bits, a range that ends
before it starts, a group without a part in its match, or more steps than there can be. -/
inductive Failure where
  | index
  | stretch
  | underflow
  | overflow
  | range
  | group
  | endless
  deriving DecidableEq, Repr

abbrev Run := Except Failure

/-- The bytes of the UTF-8 form, each as the character of its value. -/
def bytes (t : Text) : Text := (t.flatMap String.utf8EncodeChar).map fun b => Char.ofNat b.toNat

def byte? (t : Text) (i : Nat) : Option Char := (bytes t)[i]?

def byteAt (t : Text) (i : Nat) : Run Char :=
  match byte? t i with
  | some b => .ok b
  | none => .error .index

/-- The text between two byte offsets. -/
def cut (t : Text) (start stop : Nat) : Run Text :=
  if stop < start then .error .stretch
  else
    match (Text.dropBytes start t).bind (Text.takeBytes (stop - start)) with
    | some u => .ok u
    | none => .error .stretch

def cutFrom (t : Text) (start : Nat) : Run Text := cut t start (Text.byteLength t)

def minus (m n : Nat) : Run Nat := if n ≤ m then .ok (m - n) else .error .underflow

/-- A range of offsets that are kept in 32 bits. -/
def span (start stop : Nat) : Run Span :=
  if start % UInt32.size ≤ stop % UInt32.size then .ok ⟨start % UInt32.size, stop % UInt32.size⟩
  else .error .range

/-- The next number after one that is kept in 32 bits. -/
def next32 (n : Nat) : Run Nat :=
  if n % UInt32.size + 1 < UInt32.size then .ok (n % UInt32.size + 1) else .error .overflow

def group (o : Occurrence) (i : Nat) : Run Text :=
  match o.group? i with
  | some g => .ok g.text
  | none => .error .group

/-- The byte offset of the first occurrence of a text. -/
def find? (needle : Text) : Text → Option Nat
  | [] => none
  | c :: rest =>
      if needle.isPrefixOf (c :: rest) then some 0
      else (find? needle rest).map (c.utf8Size + ·)

end CanvasPage.Checked
