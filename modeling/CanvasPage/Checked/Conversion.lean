import CanvasPage.Checked.Body
import CanvasPage.Checked.Class
import CanvasPage.Report.Explanation

namespace CanvasPage.Checked

open Text

section Fields

def startsWith (start t : Text) : Run Bool :=
  if byteLength t < start.length then .ok false
  else do
    let head ← slice (bytes t) 0 start.length
    return eqIgnoringAsciiCase start head

def modeOf (source : Text) : Run Mode := do
  let head := trimStart source
  if (← startsWith "<!doctype" head) || (← startsWith "<html" head) then return .markup
  if Mode.canvasTag.occursIn source && Mode.externalScript.occursIn source then return .markup
  return .component

def readMatch (candidate : Candidate) (o : Occurrence) : Run (Option FieldMatch) := do
  let some capture := Candidate.capture? o | return none
  let some text := candidate.accept capture.text | return none
  let span ← span capture.start.offset (capture.start.offset + byteLength capture.text)
  return some ⟨text, span, candidate.id⟩

def findField? (source : Text) (mode : Mode) (field : Field) : Run (Option FieldMatch) :=
  (Candidate.forField field mode).findSomeM? fun candidate =>
    (candidate.pattern.occurrences source).findSomeM? (readMatch candidate)

def extraction (source : Text) : Run (Except ConversionError Extraction) := do
  if allBlank source then return .error .emptyInput
  let mode ← modeOf source
  let fields ← (Field.forMode mode).mapM fun field => do
    return (field, ← findField? source mode field)
  let classes ← if mode.readsClasses then classes source else pure []
  return .ok { mode, fields, classes }

end Fields

section Procedures

def parameterTexts (raw : Text) : Run (List Text) := textsWith rewriteBody raw

def methodProcedure (owner : Text) (m : Method) : Run Procedure := do
  let kind : ProcedureKind := match m.kind with
    | .plain => .method m.name
    | .getter => .getter m.name
    | .setter => .setter m.name
  let params ← parameterTexts m.params
  let body ← rewriteBody m.body
  return { owner, kind, isStatic := m.isStatic, params, body }

def arrowProcedure? (owner : Text) (p : Property) : Run (Option Procedure) := do
  let some header := arrowValue.atStart? p.value | return none
  let opening ← minus header.stop.offset 1
  let some close ← matchingDelimiter p.value opening | return none
  let params ← parameterTexts (← group header 1)
  let body ← rewriteBody (← cut p.value (opening + 1) close)
  return some { owner, kind := .method p.name, isStatic := p.isStatic, params, body }

def staticProcedure (owner : Text) (p : Property) : Run Procedure := do
  let body ← rewriteBody p.value
  return { owner, kind := .staticValue p.name, isStatic := true, params := [], body }

def initializerLines (m : Method) (params : List Parameter) : Run (List Text) := do
  let body ← rewriteBody m.body
  return (params.filter (·.isProperty)).map (fun p => Property.assignment p.name p.name) ++
    (lines body).filter (!superCall.occursIn ·)

def initializerProcedure (c : ClassBlock) : Run Procedure := do
  let properties ← c.instanceProperties.mapM fun p => do
    return Property.assignment p.name (← rewriteBody p.value)
  match c.initializer with
  | some m =>
      let params ← parameters rewriteBody m.params
      let lines ← initializerLines m params
      return .initializer c.name (params.map (·.text)) (join "\n" (properties ++ lines))
  | none =>
      return .initializer c.name []
        (join "\n" (if properties.isEmpty then c.defaultLines else properties))

def procedures (c : ClassBlock) : Run (List Procedure) := do
  let methods ← c.methods.mapM fun m => do return (m.span.start, ← methodProcedure c.name m)
  let arrows ← c.arrowProperties.mapM fun p => do
    return (← arrowProcedure? c.name p).map fun procedure => (p.span.start, procedure)
  let statics ← c.staticProperties.mapM fun p => do
    return (p.span.start, ← staticProcedure c.name p)
  let first ← initializerProcedure c
  let members := methods ++ arrows.filterMap id ++ statics
  return first :: (ClassBlock.sortByStart members).map (·.2)

end Procedures

section Reports

def lastFeed? : Text → Option Nat
  | [] => none
  | c :: rest =>
      match lastFeed? rest with
      | some i => some (c.utf8Size + i)
      | none => if c == '\n' then some 0 else none

def positionOf (source : Text) (offset : Nat) : Run Position := do
  let read := (takeBytes (min offset (byteLength source)) source).getD []
  let line ← next32 (read.count '\n')
  let lineStart := ((lastFeed? read).map (· + 1)).getD 0
  let column ← next32 (← cutFrom read lineStart).length
  return { line, column, offset }

def explainField (c : Conversion) (source : Text) (field : Field) (found : Option FieldMatch) :
    Run FieldReport := do
  let position ← match found with
    | some m => (positionOf source m.span.start).map some
    | none => pure none
  return { field, value := c.value field, captured := found.map (·.text)
           origin := (found.map (·.candidate)).getD "default", position }

def explain (c : Conversion) (source : Text) : Run (List FieldReport) :=
  c.extraction.fields.mapM fun (field, found) => explainField c source field found

end Reports

def convert (options : ConversionOptions) (source : Text) :
    Run (Except ConversionError Conversion) := do
  match ← extraction source with
  | .error e => return .error e
  | .ok extraction =>
      let procedures := (← extraction.classes.mapM procedures).flatten
      let descriptor := Descriptor.resolve extraction procedures options.fallback
      let artifacts := Page.artifacts descriptor options.urlOverrides
      return .ok { extraction, descriptor, artifacts }

def convertAndExplain (options : ConversionOptions) (source : Text) :
    Run (Except ConversionError (Conversion × List FieldReport)) := do
  match ← convert options source with
  | .error e => return .error e
  | .ok c => return .ok (c, ← explain c source)

end CanvasPage.Checked
