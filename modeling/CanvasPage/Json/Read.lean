import CanvasPage.Json.Basic

namespace CanvasPage.Json

def isSpace (c : Char) : Bool := (" \t\n\r" : Text).contains c

def skipSpaces (t : Text) : Text := t.dropWhile isSpace

def hexValue? (c : Char) : Option Nat :=
  if Text.isAsciiDigit c then some (c.toNat - 48)
  else if Text.isHexDigit c then some ((Text.toAsciiLower c).toNat - 87)
  else none

def hexValue4? (a b c d : Char) : Option Nat := do
  return (((← hexValue? a) * 16 + (← hexValue? b)) * 16 + (← hexValue? c)) * 16 + (← hexValue? d)

def shortEscape? (c : Char) : Option Char :=
  if c == '"' || c == '\\' || c == '/' then some c
  else if c == 'b' then some (Char.ofNat 8)
  else if c == 'f' then some (Char.ofNat 12)
  else if c == 'n' then some '\n'
  else if c == 'r' then some '\r'
  else if c == 't' then some '\t'
  else none

/-- The character of two halves of a surrogate pair. -/
def ofSurrogates (high low : Nat) : Char :=
  Char.ofNat (0x10000 + (high - 0xD800) * 0x400 + (low - 0xDC00))

def consChar (c : Char) (r : Text × Text) : Text × Text := (c :: r.1, r.2)

/-- The string that goes on here, and what follows its closing quote. `high` is the first half of a
surrogate pair that waits for the second. -/
def readString (high : Option Nat) : Text → Option (Text × Text)
  | '\\' :: 'u' :: a :: b :: c :: d :: rest =>
      match hexValue4? a b c d, high with
      | none, _ => none
      | some n, some h =>
          if 0xDC00 ≤ n && n ≤ 0xDFFF then
            (readString none rest).map (consChar (ofSurrogates h n))
          else none
      | some n, none =>
          if 0xD800 ≤ n && n ≤ 0xDBFF then readString (some n) rest
          else if 0xDC00 ≤ n && n ≤ 0xDFFF then none
          else (readString none rest).map (consChar (Char.ofNat n))
  | '\\' :: c :: rest =>
      match shortEscape? c, high with
      | some e, none => (readString none rest).map (consChar e)
      | _, _ => none
  | c :: rest =>
      if high.isSome || c == '\\' || c.toNat < 32 then none
      else if c == '"' then some ([], rest)
      else (readString none rest).map (consChar c)
  | [] => none

/-- At least one digit. -/
def readDigits (t : Text) : Option (Text × Text) :=
  let digits := t.takeWhile Text.isAsciiDigit
  if digits.isEmpty then none else some (digits, t.drop digits.length)

def readFraction (t : Text) : Option (Text × Text) :=
  match t with
  | '.' :: rest => (readDigits rest).map (consChar '.')
  | _ => some ([], t)

def readExponent (t : Text) : Option (Text × Text) :=
  match t with
  | c :: rest =>
      if c == 'e' || c == 'E' then
        match rest with
        | sign :: rest' =>
            if sign == '+' || sign == '-' then
              (readDigits rest').map fun r => consChar c (consChar sign r)
            else (readDigits rest).map (consChar c)
        | [] => none
      else some ([], t)
  | [] => some ([], [])

/-- A number without a sign. A leading zero stands alone. -/
def readUnsigned (t : Text) : Option (Text × Text) := do
  let (whole, rest) ← match t with
    | '0' :: rest => some (['0'], rest)
    | _ => readDigits t
  let (fraction, rest) ← readFraction rest
  let (exponent, rest) ← readExponent rest
  return (whole ++ fraction ++ exponent, rest)

def readNumber (t : Text) : Option (Text × Text) :=
  match t with
  | '-' :: rest => (readUnsigned rest).map (consChar '-')
  | _ => readUnsigned t

/-- The names `null`, `true` and `false`. -/
def readName (t : Text) : Option (Json × Text) :=
  if ("null" : Text).isPrefixOf t then some (null, t.drop 4)
  else if ("true" : Text).isPrefixOf t then some (bool true, t.drop 4)
  else if ("false" : Text).isPrefixOf t then some (bool false, t.drop 5)
  else none

def expect (c : Char) (t : Text) : Option Text :=
  match skipSpaces t with
  | d :: rest => if c == d then some rest else none
  | [] => none

mutual

def readValue : (bound : Nat) → Text → Option (Json × Text)
  | 0, _ => none
  | bound + 1, t =>
      match skipSpaces t with
      | '"' :: rest => (readString none rest).map fun (s, rest) => (string s, rest)
      | '[' :: rest =>
          match expect ']' rest with
          | some rest => some (array [], rest)
          | none => (readItems bound rest).map fun (items, rest) => (array items, rest)
      | '{' :: rest =>
          match expect '}' rest with
          | some rest => some (object [], rest)
          | none => (readMembers bound rest).map fun (members, rest) => (object members, rest)
      | t =>
          (readName t).or ((readNumber t).map fun (n, rest) => (number n, rest))

def readItems : (bound : Nat) → Text → Option (List Json × Text)
  | 0, _ => none
  | bound + 1, t => do
      let (item, rest) ← readValue bound t
      match expect ']' rest with
      | some rest => some ([item], rest)
      | none =>
          let (items, rest) ← readItems bound (← expect ',' rest)
          return (item :: items, rest)

def readMembers : (bound : Nat) → Text → Option (List (Text × Json) × Text)
  | 0, _ => none
  | bound + 1, t => do
      let (key, rest) ← readString none (← expect '"' t)
      let (value, rest) ← readValue bound (← expect ':' rest)
      match expect '}' rest with
      | some rest => some ([(key, value)], rest)
      | none =>
          let (members, rest) ← readMembers bound (← expect ',' rest)
          return ((key, value) :: members, rest)

end

/-- The value that a text is the JSON form of. Every value takes a character or more, so twice the
length bounds the nesting. -/
def ofText? (t : Text) : Option Json := do
  let (value, rest) ← readValue (2 * t.length + 1) t
  if (skipSpaces rest).isEmpty then some value else none

end CanvasPage.Json
