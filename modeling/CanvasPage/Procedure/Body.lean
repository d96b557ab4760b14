import CanvasPage.Procedure.Arrow
import CanvasPage.Procedure.Parameter
import CanvasPage.Procedure.Substitution

namespace CanvasPage.Procedure

def isIndent (c : Char) : Bool := c == ' ' || c == '\t'

def indentation (line : Text) : Nat := (line.takeWhile isIndent).length

def dropIndent (indent : Nat) (line : Text) : Text :=
  if Text.allBlank line then [] else line.drop (min (indentation line) indent)

/-- The least indentation of the lines that are not blank. -/
def commonIndent (lines : List Text) : Nat :=
  (((lines.filter (!Text.allBlank ·)).map indentation).min?).getD 0

def dropBlankEnds (lines : List Text) : List Text :=
  (((lines.dropWhile Text.allBlank).reverse).dropWhile Text.allBlank).reverse

def dedent (lines : List Text) : List Text := lines.map (dropIndent (commonIndent lines))

/-- Drops surrounding blank lines, trailing blanks and the common indentation. Text on the first
line, right after the opening brace, is trimmed on its own and has no say in the indentation of
the others. -/
def normalizeIndentation (raw : Text) : Text :=
  let lines := (Text.lines raw).map Text.trimEnd
  Text.join "\n" <|
    match lines, dropBlankEnds lines with
    | first :: _, kept :: rest =>
        if Text.allBlank first then dedent (kept :: rest) else Text.trim kept :: dedent rest
    | _, _ => []

/-- Rewrites a body whose arrows nest at most `depth` deep through default values. Every rewritten
arrow takes one `>` away and nothing adds one, so their number bounds the rewrites. -/
def rewriteBodyWithin : (depth : Nat) → Text → Text
  | 0, raw => Substitution.applyAll (normalizeIndentation raw)
  | depth + 1, raw =>
      let t := Substitution.applyAll (normalizeIndentation raw)
      Arrow.rewriteUpTo (Parameter.textsWith (rewriteBodyWithin depth)) (t.count '>') t

/-- A body that still works outside its class: dedented, without types and block scoping, and with
function expressions for arrow functions that do not mention `this`. -/
def rewriteBody (raw : Text) : Text := rewriteBodyWithin (raw.count '>') raw

def parameterTexts (raw : Text) : List Text := Parameter.textsWith rewriteBody raw

end CanvasPage.Procedure
