import CanvasPage.Text.Letter

namespace CanvasPage

/-- A value of a JSON text. The members of an object keep their order, and a number its text. -/
inductive Json where
  | null
  | bool (b : Bool)
  | number (literal : Text)
  | string (t : Text)
  | array (items : List Json)
  | object (members : List (Text × Json))

namespace Json

def hexDigit (n : Nat) : Char := Nat.digitChar n

def escapeChar (c : Char) : Text :=
  if c == '"' then "\\\""
  else if c == '\\' then "\\\\"
  else if c.toNat == 8 then "\\b"
  else if c == '\t' then "\\t"
  else if c == '\n' then "\\n"
  else if c.toNat == 12 then "\\f"
  else if c == '\r' then "\\r"
  else if c.toNat < 32 then "\\u00" ++ [hexDigit (c.toNat / 16), hexDigit (c.toNat % 16)]
  else [c]

def quote (t : Text) : Text := '"' :: t.flatMap escapeChar ++ ['"']

def indentation (depth : Nat) : Text := List.replicate (2 * depth) ' '

/-- Items on lines of their own between two brackets, or the brackets alone. -/
def bracketed (depth : Nat) (opener closer : Char) (items : List Text) : Text :=
  if items.isEmpty then [opener, closer]
  else
    [opener, '\n'] ++
      Text.join ",\n" (items.map fun item => indentation (depth + 1) ++ item) ++
      ('\n' :: indentation depth ++ [closer])

mutual

def pretty (depth : Nat) : Json → Text
  | null => "null"
  | bool b => if b then "true" else "false"
  | number literal => literal
  | string t => quote t
  | array items => bracketed depth '[' ']' (prettyItems depth items)
  | object members => bracketed depth '{' '}' (prettyMembers depth members)

def prettyItems (depth : Nat) : List Json → List Text
  | [] => []
  | j :: js => pretty (depth + 1) j :: prettyItems depth js

def prettyMembers (depth : Nat) : List (Text × Json) → List Text
  | [] => []
  | (key, j) :: rest => (quote key ++ ": " ++ pretty (depth + 1) j) :: prettyMembers depth rest

end

end Json

end CanvasPage
