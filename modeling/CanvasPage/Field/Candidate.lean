import CanvasPage.Field.Basic
import CanvasPage.Field.Color
import CanvasPage.Text.Letter

namespace CanvasPage

/-- One way to find a field: a pattern whose groups capture it, and what is made of a capture. -/
structure Candidate where
  id : Text
  pattern : Pattern
  accept : Text → Option Text

namespace Candidate

def acceptNonEmpty (raw : Text) : Option Text :=
  let t := Text.trim raw
  if t.isEmpty then none else some t

/-- A title needs a letter or a number. Runs of blanks become one space. -/
def acceptTitle (raw : Text) : Option Text :=
  let title := Text.join " " (Text.words raw)
  if title.any Text.isAlphanumeric then some title else none

def acceptDimension (raw : Text) : Option Text :=
  match Text.readDecimal? (Text.trim raw) with
  | some n => if 0 < n then some (Text.decimal n) else none
  | none => none

def acceptElementId (raw : Text) : Option Text :=
  let t := Text.trim raw
  if t.isEmpty || t.any Text.isBlank then none else some t

section Patterns

open Pattern

def identifierStart : Pattern := one fun c => Text.isAsciiLetter c || c == '_' || c == '$'

def identifierChar : Pattern := one fun c => Text.isWordChar c || c == '$'

def identifier : Pattern := identifierStart ++ many identifierChar

def upperIdentifier : Pattern :=
  one (fun c => 65 ≤ c.toNat && c.toNat ≤ 90) ++ many identifierChar

def digits : Pattern := many1 (one Text.isDigit)

def functionDeclaration : Pattern :=
  wordBoundary ++ "function" ++ blanks1 ++ group 1 upperIdentifier ++ blanks ++
    optional ("<" ++ many (noneOf ">(") ++ ">") ++ blanks ++ "("

def constFunction : Pattern :=
  wordBoundary ++ anyOf ["const", "let", "var"] ++ blanks1 ++ group 1 upperIdentifier ++ blanks ++
    optional (":" ++ many1 (noneOf "=;")) ++ "=" ++ blanks ++ optional ("async" ++ blanks1) ++
    anyOf [
      "function" ++ wordBoundary,
      "(" ++ many (noneOf "()") ++ ")" ++ blanks ++ optional (":" ++ many1 (noneOf "=;\x7b")) ++
        "=>",
      identifier ++ blanks ++ "=>"]

def classDeclaration : Pattern :=
  wordBoundary ++ "class" ++ blanks1 ++ group 1 identifier

def documentTitle : Pattern :=
  literalEitherCase "<title" ++ wordBoundary ++ many (noneOf ">") ++ ">" ++
    group 1 (many (noneOf "<")) ++ literalEitherCase "</title>"

def canvasAssignment (property : Text) : Pattern :=
  wordBoundary ++ "canvas." ++ literal property ++ blanks ++ "=" ++ blanks ++ group 1 digits ++
    wordBoundary

def canvasReferenceAssignment (property : Text) : Pattern :=
  wordBoundary ++ many identifierChar ++ oneOf "cC" ++ "anvas" ++ many identifierChar ++
    optional ".current" ++ "." ++ literal property ++ blanks ++ "=" ++ blanks ++ group 1 digits ++
    wordBoundary

/-- An attribute of an element up to the start of its value. -/
def attributeOf (element name : Text) : Pattern :=
  literalEitherCase ('<' :: element) ++ wordBoundary ++ lazyMany (noneOf ">") ++ blank ++
    literalEitherCase name ++ blanks ++ "=" ++ blanks

def canvasDimension (name : Text) : Pattern :=
  attributeOf "canvas" name ++ optional (oneOf "\"'") ++ group 1 digits

def quotedAttribute (element name : Text) : Pattern :=
  attributeOf element name ++ oneOf "\"'" ++ group 1 (many1 (noneOf "\"'")) ++ oneOf "\"'"

def quotedBy (index : Nat) (quote : Char) : Pattern :=
  one (· == quote) ++ group index (many (noneOf [quote, '\n'])) ++ one (· == quote)

/-- A quoted text, or what may stand for a value in a style sheet. -/
def quotedOrStyleValue : Pattern :=
  anyOf [quotedBy 1 '\'', quotedBy 2 '"',
    group 3 (many1 (anyOf [noneOf ";,\x7d'\"\n()", "(" ++ many (noneOf ")\n") ++ ")"]))]

def styleBackground : Pattern :=
  wordBoundary ++ "background" ++ blanks ++ ":" ++ blanks ++ quotedOrStyleValue

def fillStyle : Pattern :=
  wordBoundary ++ "fillStyle" ++ blanks ++ "=" ++ blanks ++
    anyOf [quotedBy 1 '\'', quotedBy 2 '"', quotedBy 3 (Char.ofNat 96)]

def backgroundColor : Pattern :=
  wordBoundary ++ "background" ++ anyOf ["-c", "C"] ++ "olor" ++ blanks ++ ":" ++ blanks ++
    quotedOrStyleValue

end Patterns

def componentNames : List Candidate := [
  ⟨"function-declaration", functionDeclaration, acceptNonEmpty⟩,
  ⟨"const-function", constFunction, acceptNonEmpty⟩,
  ⟨"class-declaration", classDeclaration, acceptNonEmpty⟩]

def componentWidths : List Candidate := [
  ⟨"canvas-width-assignment", canvasAssignment "width", acceptDimension⟩,
  ⟨"canvas-ref-width-assignment", canvasReferenceAssignment "width", acceptDimension⟩]

def componentHeights : List Candidate := [
  ⟨"canvas-height-assignment", canvasAssignment "height", acceptDimension⟩,
  ⟨"canvas-ref-height-assignment", canvasReferenceAssignment "height", acceptDimension⟩]

def backgrounds : List Candidate := [
  ⟨"style-background", styleBackground, Color.accept?⟩,
  ⟨"fill-style", fillStyle, Color.accept?⟩,
  ⟨"background-color", backgroundColor, Color.accept?⟩]

/-- The candidates of a field, in order of preference. -/
def forField : Field → Mode → List Candidate
  | .name, .component => componentNames
  | .name, .markup => ⟨"document-title", documentTitle, acceptTitle⟩ :: componentNames
  | .width, .component => componentWidths
  | .width, .markup =>
      ⟨"canvas-width-attribute", canvasDimension "width", acceptDimension⟩ :: componentWidths
  | .height, .component => componentHeights
  | .height, .markup =>
      ⟨"canvas-height-attribute", canvasDimension "height", acceptDimension⟩ :: componentHeights
  | .backgroundColor, _ => backgrounds
  | .scriptFileName, .markup =>
      [⟨"external-script", quotedAttribute "script" "src", acceptNonEmpty⟩]
  | .canvasId, .markup =>
      [⟨"canvas-id-attribute", quotedAttribute "canvas" "id", acceptElementId⟩]
  | .scriptFileName, .component => []
  | .canvasId, .component => []

/-- The first group, by index, that took part in a match. -/
def capture? (o : Occurrence) : Option Capture := [1, 2, 3].findSome? o.group?

def read? (candidate : Candidate) (o : Occurrence) : Option FieldMatch := do
  let capture ← capture? o
  let text ← candidate.accept capture.text
  return ⟨text, capture.span, candidate.id⟩

def find? (candidate : Candidate) (source : Text) : Option FieldMatch :=
  (candidate.pattern.occurrences source).findSome? candidate.read?

end Candidate

/-- The value of a field: the first accepted match of the first candidate that has one. -/
def Field.find? (source : Text) (mode : Mode) (field : Field) : Option FieldMatch :=
  (Candidate.forField field mode).findSome? (·.find? source)

end CanvasPage
