import CanvasPage.Text.Basic
import CanvasPage.Text.Ranges

namespace CanvasPage.Text

def isAsciiLetter (c : Char) : Bool :=
  (97 ≤ c.toNat && c.toNat ≤ 122) || (65 ≤ c.toNat && c.toNat ≤ 90)

def isAsciiDigit (c : Char) : Bool := 48 ≤ c.toNat && c.toNat ≤ 57

def isAsciiAlphanumeric (c : Char) : Bool := isAsciiLetter c || isAsciiDigit c

def isHexDigit (c : Char) : Bool :=
  isAsciiDigit c || (97 ≤ c.toNat && c.toNat ≤ 102) || (65 ≤ c.toNat && c.toNat ≤ 70)

def toAsciiLower (c : Char) : Char :=
  if 65 ≤ c.toNat && c.toNat ≤ 90 then Char.ofNat (c.toNat + 32) else c

def toAsciiUpper (c : Char) : Char :=
  if 97 ≤ c.toNat && c.toNat ≤ 122 then Char.ofNat (c.toNat - 32) else c

def eqIgnoringAsciiCase (s t : Text) : Bool := s.map toAsciiLower == t.map toAsciiLower

/-- Does a text begin with `start`, ASCII letters of either case being equal? -/
def startsWithIgnoringAsciiCase (start t : Text) : Bool :=
  eqIgnoringAsciiCase start (t.take start.length)

/-- The general category Decimal_Number, as patterns know it. They go by version 16 of the Unicode
standard, and everything else by version 17. -/
def isDigit (c : Char) : Bool :=
  if c.toNat < 128 then isAsciiDigit c else inRanges digitRanges c && !inRanges recentRanges c

/-- Letters, marks, decimal digits, connectors and join controls, as patterns know them. -/
def isWordChar (c : Char) : Bool :=
  if c.toNat < 128 then isAsciiAlphanumeric c || c == '_'
  else
    (inRanges alphabeticRanges c || inRanges markRanges c || inRanges digitRanges c ||
      inRanges connectorRanges c || c.toNat == 0x200C || c.toNat == 0x200D) &&
      !inRanges recentRanges c

/-- Letters and numbers of every kind. -/
def isAlphanumeric (c : Char) : Bool :=
  if c.toNat < 128 then isAsciiAlphanumeric c
  else inRanges alphabeticRanges c || inRanges digitRanges c || inRanges numeralRanges c

/-- An ASCII character of a script identifier. -/
def isIdentifierChar (c : Char) : Bool := isAsciiAlphanumeric c || c == '_' || c == '$'

def decimal (n : Nat) : Text := Nat.toDigits 10 n

/-- Reads ASCII digits, at least one, as a number below `2 ^ 32`. -/
def readDecimal? (t : Text) : Option Nat :=
  if !t.isEmpty && t.all isAsciiDigit then
    let n := t.foldl (fun n c => n * 10 + (c.toNat - 48)) 0
    if n < UInt32.size then some n else none
  else none

end CanvasPage.Text
