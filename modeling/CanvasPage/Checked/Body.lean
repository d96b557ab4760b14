import CanvasPage.Checked.Script
import CanvasPage.Procedure.Body

namespace CanvasPage.Checked

open Script Text

def slice {α : Type} (xs : List α) (start stop : Nat) : Run (List α) :=
  if start ≤ stop ∧ stop ≤ xs.length then .ok ((xs.drop start).take (stop - start))
  else .error .stretch

section Indentation

def indentation (line : Text) : Run Nat :=
  minus (byteLength line) (byteLength (line.dropWhile Procedure.isIndent))

def stripIndent (line : Text) (indent : Nat) : Run Text := do
  cutFrom line (min (← indentation line) indent)

/-- A line as it is kept: `isFirst` says that it stands right after the opening brace. -/
def dedent (indent : Nat) (isFirst : Bool) (line : Text) : Run Text :=
  if allBlank line then .ok []
  else if isFirst then .ok (trim line)
  else stripIndent line indent

def normalizeIndentation (raw : Text) : Run Text := do
  let lines := (lines raw).map trimEnd
  let some first := lines.findIdx? (!allBlank ·) | return []
  let last := ((lines.reverse.findIdx? (!allBlank ·)).map (lines.length - 1 - ·)).getD first
  let kept ← slice lines first (last + 1)
  let startsInline := first == 0 && ((Text.lines raw).head?).any (!allBlank ·)
  let rest ← if startsInline then slice kept 1 kept.length else pure kept
  let indents ← (rest.filter (!allBlank ·)).mapM indentation
  let indent := indents.min?.getD 0
  let dedented ← kept.zipIdx.mapM fun (line, i) => dedent indent (i == 0 && startsInline) line
  return join "\n" dedented

end Indentation

section Substitutions

/-- Replaces in the code before each literal. `start` is the offset after the literal before. -/
def replaceBetween (s : Substitution) (t : Text) : (start : Nat) → List Span → Run Text
  | _, [] => .ok []
  | start, literal :: literals => do
      let code ← cut t start literal.start
      let kept ← cut t literal.start literal.stop
      let rest ← replaceBetween s t literal.stop literals
      return s.pattern.replaceAll s.replacement code ++ kept ++ rest

def substitute (t : Text) (s : Substitution) : Run Text := do
  let literals ← literalRanges t
  replaceBetween s t 0 (literals ++ [⟨byteLength t, byteLength t⟩])

def substituteAll (t : Text) : Run Text := Substitution.all.foldlM substitute t

end Substitutions

section Parameters

def previous? (t : Text) : (i : Nat) → Run (Option Char)
  | 0 => .ok none
  | i + 1 => (byteAt t i).map some

/-- The pieces of `t` between commas outside brackets and quotes, from the bytes at `i` on. The
latest comma is before `start`. -/
def splitFrom (t : Text) (depth start : Nat) (quote : Option Char) (i : Nat) :
    (rest : Text) → Run (List Text)
  | [] => do return [← cutFrom t start]
  | b :: rest => do
      let previous ← previous? t i
      match quote with
      | some q =>
          let quote := if b == q && previous != some '\\' then none else some q
          splitFrom t depth start quote (i + 1) rest
      | none =>
          if opensString b then splitFrom t depth start (some b) (i + 1) rest
          else if b == ',' && depth == 0 then
            let piece ← cut t start i
            return piece :: (← splitFrom t depth (i + 1) none (i + 1) rest)
          else splitFrom t (Parameter.depthAfter depth previous b) start none (i + 1) rest

def split (raw : Text) : Run (List Text) := splitFrom raw 0 0 none 0 (bytes raw)

def assignment? (t : Text) (depth i : Nat) : (rest : Text) → Run (Option Nat)
  | [] => .ok none
  | b :: rest => do
      let previous ← previous? t i
      if b == '=' && depth == 0 && !Parameter.isCompound previous (byte? t (i + 1)) then
        return some i
      else assignment? t (Parameter.depthAfter depth previous b) (i + 1) rest

def colon? (depth i : Nat) : (rest : Text) → Option Nat
  | [] => none
  | b :: rest =>
      if b == ':' && depth == 0 then some i
      else
        let depth :=
          if Parameter.opensBracket b then depth + 1
          else if Parameter.closesBracket b || b == '>' then depth - 1
          else depth
        colon? depth (i + 1) rest

/-- The text before the default-value `=` of a parameter and the value after it. -/
def splitDefault (rewrite : Text → Run Text) (t : Text) : Run (Text × Option Text) := do
  match ← assignment? t 0 0 (bytes t) with
  | some equals =>
      let head ← cut t 0 equals
      let value ← cutFrom t (equals + 1)
      return (head, some (← rewrite (trim value)))
  | none => return (t, none)

def beforeType (t : Text) : Run Text :=
  match colon? 0 0 (bytes t) with
  | some colon => cut t 0 colon
  | none => .ok t

def parameter? (rewrite : Text → Run Text) (piece : Text) : Run (Option Parameter) := do
  let piece := trim piece
  if piece.isEmpty then return none
  let modifiers := ((Parameter.modifiers.atStart? piece).map (·.stop.offset)).getD 0
  let (head, value) ← splitDefault rewrite (← cutFrom piece modifiers)
  let name := trim (dropEndWhile (· == '?') (trim (← beforeType head)))
  if name.isEmpty then return none
  let text := match value with
    | some value => name ++ " = " ++ value
    | none => name
  return some { text, name, isProperty := modifiers > 0 }

def parameters (rewrite : Text → Run Text) (raw : Text) : Run (List Parameter) := do
  return (← (← split raw).mapM (parameter? rewrite)).filterMap id

def textsWith (rewrite : Text → Run Text) (raw : Text) : Run (List Text) := do
  return (← parameters rewrite raw).map (·.text)

end Parameters

section Arrows

/-- Not both neighbours of a byte offset are bytes of an identifier. -/
def isWordBoundary (t : Text) (i : Nat) : Run Bool := do
  match ← previous? t i, byte? t i with
  | some a, some b => return !(isIdentifierChar a && isIdentifierChar b)
  | _, _ => return true

/-- The byte offsets of a word whose occurrences cannot overlap. -/
def offsetsOf (word : Text) (offset : Nat) : Text → List Nat
  | [] => []
  | c :: rest =>
      let later := offsetsOf word (offset + c.utf8Size) rest
      if word.isPrefixOf (c :: rest) then offset :: later else later

def mentionsThis (t : Text) : Run Bool :=
  (offsetsOf "this" 0 t).anyM fun i => do
    if ← isWordBoundary t i then isWordBoundary t (i + 4) else return false

def isReplaceable (t : Text) (literals : List Span) (h : Arrow.Header) : Run Bool := do
  let opening ← minus h.stop.offset 1
  let inLiteral (k : Nat) := literals.any fun r => r.start ≤ k && k < r.stop
  if inLiteral h.start.offset || inLiteral opening then return false
  match ← matchingDelimiter t opening with
  | none => return false
  | some close => return !(← mentionsThis (← cut t (opening + 1) close))

def nextArrow? (params : Text → Run (List Text)) (t : Text) : Run (Option (Span × Text)) := do
  let literals ← literalRanges t
  match ← (Arrow.headers t).findM? (isReplaceable t literals) with
  | none => return none
  | some h =>
      let texts ← params h.params
      return some (⟨h.start.offset, h.stop.offset⟩, "function(" ++ join ", " texts ++ ") \x7b")

def replaceRange (t : Text) (r : Span) (new : Text) : Run Text := do
  let before ← cut t 0 r.start
  let _ ← cut t r.start r.stop
  return before ++ new ++ (← cutFrom t r.stop)

def rewriteArrows (params : Text → Run (List Text)) : (bound : Nat) → Text → Run Text
  | 0, t => do
      match ← nextArrow? params t with
      | none => return t
      | some _ => .error .endless
  | bound + 1, t => do
      match ← nextArrow? params t with
      | none => return t
      | some (r, new) => rewriteArrows params bound (← replaceRange t r new)

end Arrows

def rewriteBodyWithin : (depth : Nat) → Text → Run Text
  | 0, raw => do
      let t ← substituteAll (← normalizeIndentation raw)
      rewriteArrows (textsWith fun _ => .error .endless) (t.count '>') t
  | depth + 1, raw => do
      let t ← substituteAll (← normalizeIndentation raw)
      rewriteArrows (textsWith (rewriteBodyWithin depth)) (t.count '>') t

def rewriteBody (raw : Text) : Run Text := rewriteBodyWithin (raw.count '>') raw

end CanvasPage.Checked
