import CanvasPage.Text.Letter

namespace CanvasPage

/-- A place in a text: the characters before it, the nearest first, and those after it. -/
structure Cursor where
  before : Text
  after : Text
  deriving DecidableEq, Repr

namespace Cursor

def atStart (t : Text) : Cursor := ⟨[], t⟩

def whole (c : Cursor) : Text := c.before.reverse ++ c.after

theorem whole_atStart (t : Text) : (atStart t).whole = t := rfl

def offset (c : Cursor) : Nat := Text.byteLength c.before

/-- Exactly one neighbour is a word character. -/
def atWordBoundary (c : Cursor) : Bool :=
  c.before.head?.any Text.isWordChar != c.after.head?.any Text.isWordChar

end Cursor

/-- A stretch of text: where it starts and how many characters it has. -/
structure Capture where
  start : Cursor
  width : Nat
  deriving DecidableEq, Repr

namespace Capture

def text (c : Capture) : Text := c.start.after.take c.width

def span (c : Capture) : Span := ⟨c.start.offset, c.start.offset + Text.byteLength c.text⟩

end Capture

/-- A text pattern whose alternatives are tried in order. -/
inductive Pattern where
  | empty
  | one (test : Char → Bool)
  | seq (first second : Pattern)
  | alt (first second : Pattern)
  | star (greedy : Bool) (body : Pattern)
  | group (index : Nat) (body : Pattern)
  | inputStart
  | inputEnd
  | wordBoundary

namespace Pattern

instance : Append Pattern := ⟨seq⟩

def literal : Text → Pattern
  | [] => empty
  | [c] => one (· == c)
  | c :: rest => one (· == c) ++ literal rest

instance : Coe String Pattern := ⟨fun s => literal s.toList⟩

def anyOf : List Pattern → Pattern
  | [] => one fun _ => false
  | [p] => p
  | p :: ps => alt p (anyOf ps)

def oneOf (cs : Text) : Pattern := one cs.contains

def noneOf (cs : Text) : Pattern := one fun c => !cs.contains c

def anyChar : Pattern := one fun _ => true

def blank : Pattern := one Text.isBlank

def many (p : Pattern) : Pattern := star true p

def many1 (p : Pattern) : Pattern := p ++ star true p

def lazyMany (p : Pattern) : Pattern := star false p

def lazyMany1 (p : Pattern) : Pattern := p ++ star false p

def optional (p : Pattern) : Pattern := alt p empty

def blanks : Pattern := many blank

def blanks1 : Pattern := many1 blank

/-- A character in either case. Besides the ASCII pairs, `s` has the long s and `k` the Kelvin
sign. -/
def eitherCase (c d : Char) : Bool :=
  Text.toAsciiLower c == Text.toAsciiLower d ||
    (Text.toAsciiLower c == 's' && d.toNat == 0x17F) ||
    (Text.toAsciiLower c == 'k' && d.toNat == 0x212A)

def literalEitherCase : Text → Pattern
  | [] => empty
  | [c] => one (eitherCase c)
  | c :: rest => one (eitherCase c) ++ literalEitherCase rest

end Pattern

end CanvasPage
