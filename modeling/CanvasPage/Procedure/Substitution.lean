import CanvasPage.Field.Candidate
import CanvasPage.Script.Literal

namespace CanvasPage

/-- A replacement of the matches of a pattern in code. -/
structure Substitution where
  pattern : Pattern
  replacement : Occurrence → Text

namespace Substitution

/-- Replaces in each run of code on its own. Literals stay as they are. -/
def apply (s : Substitution) (t : Text) : Text :=
  (Script.segments t).flatMap fun
    | .code code => s.pattern.replaceAll s.replacement code
    | .literal literal => literal

section Patterns

open Pattern

def pathChar : Pattern := one fun c => Text.isWordChar c || c == '$' || c == '.'

def path : Pattern := Candidate.identifierStart ++ many pathChar

/-- A declaration up to the colon of its type. -/
def annotated : Pattern :=
  wordBoundary ++ anyOf ["let", "const", "var"] ++ group 1 blanks1 ++
    group 2 Candidate.identifier ++ blanks ++ ":" ++ blanks

def typedDeclaration : Substitution where
  pattern := annotated ++ lazyMany1 (noneOf "=;\n") ++ blanks ++ "="
  replacement o := "var" ++ o.groupText 1 ++ o.groupText 2 ++ " ="

def typedDeclarationWithoutValue : Substitution where
  pattern := annotated ++ many1 (noneOf "=;\n") ++ ";"
  replacement o := "var" ++ o.groupText 1 ++ o.groupText 2 ++ ";"

def blockScopedDeclaration : Substitution where
  pattern :=
    group 1 (alt inputStart (one fun c => !(c == '.' || Text.isWordChar c || c == '$'))) ++
      anyOf ["let", "const"] ++ wordBoundary
  replacement o := o.groupText 1 ++ "var"

def arraySpreadCopy : Substitution where
  pattern := "[" ++ blanks ++ "..." ++ blanks ++ group 1 path ++ blanks ++ "]"
  replacement o := o.groupText 1 ++ ".slice()"

def genericConstructorCall : Substitution where
  pattern :=
    wordBoundary ++ "new" ++ blanks1 ++ group 1 path ++ blanks ++ "<" ++ many (noneOf "<>()") ++
      ">" ++ blanks ++ "("
  replacement o := "new " ++ o.groupText 1 ++ "("

def castType : Pattern :=
  anyOf [
    one (fun c => 65 ≤ c.toNat && c.toNat ≤ 90) ++ many pathChar ++
      optional ("<" ++ many (noneOf "<>") ++ ">"),
    "any", "unknown", "number", "string", "boolean", "const"]

def cast : Substitution where
  pattern := blanks1 ++ "as" ++ blanks1 ++ castType ++ many "[]"
  replacement _ := []

def nonNullAssertion : Substitution where
  pattern :=
    group 1 (one fun c => Text.isWordChar c || c == '$' || c == ')' || c == ']') ++ "!" ++
      group 2 (oneOf ".;),[")
  replacement o := o.groupText 1 ++ o.groupText 2

end Patterns

/-- The substitutions of a body, in the order they are made. -/
def all : List Substitution :=
  [typedDeclaration, typedDeclarationWithoutValue, blockScopedDeclaration, arraySpreadCopy,
    genericConstructorCall, cast, nonNullAssertion]

def applyAll (t : Text) : Text := all.foldl (fun t s => s.apply t) t

end Substitution

end CanvasPage
