import CanvasPage.Field.Candidate
import CanvasPage.Script.Bracket
import CanvasPage.Script.Literal

namespace CanvasPage.Arrow

open Script

/-- The header of an arrow function, from its parameters through the brace that opens its block. -/
structure Header where
  start : Cursor
  stop : Cursor
  params : Text
  deriving DecidableEq, Repr

section Patterns

open Pattern

def typeChar : Pattern := one fun c => Text.isWordChar c || ("$.<>[]" : Text).contains c

def parenthesized : Pattern :=
  "(" ++ group 1 (many (noneOf "()")) ++ ")" ++ blanks ++
    optional (":" ++ blanks ++ many1 typeChar ++ blanks) ++ "=>" ++ blanks ++ "\x7b"

def singleParameter : Pattern :=
  group 1 (alt inputStart (one fun c => !(Text.isWordChar c || c == '$' || c == '.'))) ++
    group 2 Candidate.identifier ++ blanks ++ "=>" ++ blanks ++ "\x7b"

end Patterns

/-- The arrow headers of a text: those with parentheses, then those with a bare parameter. -/
def headers (t : Text) : List Header :=
  (parenthesized.occurrences t).map (fun o => ⟨o.start, o.stop, o.groupText 1⟩) ++
    (singleParameter.occurrences t).filterMap fun o =>
      (o.group? 2).map fun name => ⟨name.start, o.stop, name.text⟩

/-- Does the word `this` occur? `previous` is the character before the text. -/
def mentionsThisAfter (previous : Option Char) : Text → Bool
  | [] => false
  | c :: rest =>
      (!previous.any Text.isIdentifierChar && ("this" : Text).isPrefixOf (c :: rest) &&
        !((rest.drop 3).head?.any Text.isIdentifierChar)) ||
      mentionsThisAfter (some c) rest

def mentionsThis (t : Text) : Bool := mentionsThisAfter none t

/-- A header may be replaced if it is code and closes a block that does not depend on `this`. -/
def isReplaceable (t : Text) (h : Header) : Bool :=
  !inLiteral t h.start.before.length && !inLiteral t (h.stop.before.length - 1) &&
    match Bracket.brace.enclosed? h.stop.after with
    | some (block, _) => !mentionsThis block
    | none => false

/-- A stretch of text and what takes its place. -/
structure Rewrite where
  start : Cursor
  stop : Cursor
  replacement : Text
  deriving DecidableEq, Repr

def Rewrite.result (r : Rewrite) : Text :=
  r.start.before.reverse ++ r.replacement ++ r.stop.after

/-- The first header that may be replaced, as the header of a function expression. -/
def next? (params : Text → List Text) (t : Text) : Option Rewrite :=
  ((headers t).find? (isReplaceable t)).map fun h =>
    ⟨h.start, h.stop, "function(" ++ Text.join ", " (params h.params) ++ ") \x7b"⟩

/-- Replaces headers as long as there is one, at most `bound` times. -/
def rewriteUpTo (params : Text → List Text) : (bound : Nat) → Text → Text
  | 0, t => t
  | bound + 1, t =>
      match next? params t with
      | none => t
      | some r => rewriteUpTo params bound r.result

end CanvasPage.Arrow
