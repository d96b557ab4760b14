import CanvasPage.Pattern.Basic

namespace CanvasPage.Color

def isHex : Text → Bool
  | '#' :: digits => digits.all Text.isHexDigit && [3, 4, 6, 8].contains digits.length
  | _ => false

def functionNames : List Text := ["rgba(", "rgb(", "hsla(", "hsl("]

def isArgumentChar (c : Char) : Bool :=
  Text.isAsciiDigit c || Text.isBlank c || (".%,/+-" : Text).contains c ||
    ("deg" : Text).contains (Text.toAsciiLower c)

/-- Is the text `name` in either case, something and a closing parenthesis? -/
def isCallOf (name t : Text) : Bool :=
  let arguments := t.drop name.length
  (name.zip t).all (fun (c, d) => Pattern.eitherCase c d) && arguments.length ≥ 2 &&
    arguments.dropLast.all isArgumentChar && arguments.getLast? == some ')'

def isFunctional (t : Text) : Bool := functionNames.any (isCallOf · t)

/-- Keywords of the background property that name no color. -/
def otherKeywords : List Text :=
  ["none", "inherit", "initial", "unset", "revert", "auto", "url", "linear", "radial"]

def isNamed (t : Text) : Bool :=
  t.all Text.isAsciiLetter && !otherKeywords.any (Text.eqIgnoringAsciiCase t)

/-- A hexadecimal, functional or named color, without a trailing `!important`. -/
def accept? (raw : Text) : Option Text :=
  let t := Text.trim (Text.dropSuffixes "!important" (Text.trim raw))
  if !t.isEmpty && (isHex t || isFunctional t || isNamed t) then some t else none

end CanvasPage.Color
