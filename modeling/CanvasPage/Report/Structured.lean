import CanvasPage.Batch.Outcome
import CanvasPage.Json.Basic
import CanvasPage.Report.Explanation

namespace CanvasPage.Report

def ofNumber (n : Nat) : Json := .number (Text.decimal n)

def present (key : Text) (value : Option Json) : List (Text × Json) :=
  (value.map fun j => (key, j)).toList

def ofPosition (p : Position) : Json :=
  .object [("line", ofNumber p.line), ("column", ofNumber p.column), ("offset", ofNumber p.offset)]

def ofFieldReport (r : FieldReport) : Json :=
  .object ([(("field" : Text), Json.string r.field.key), ("value", .string r.value)] ++
    present "matched" (r.captured.map .string) ++ [(("origin" : Text), Json.string r.origin)] ++
    present "position" (r.position.map ofPosition))

def ofConversion (c : Conversion) : Json :=
  .object [
    ("name", .string c.descriptor.name),
    ("mode", .string c.extraction.mode.key),
    ("canvasWidth", ofNumber c.descriptor.canvasWidth),
    ("canvasHeight", ofNumber c.descriptor.canvasHeight),
    ("backgroundColor", .string c.descriptor.backgroundColor),
    ("canvasId", .string c.descriptor.canvasId),
    ("owners", .array (c.descriptor.owners.map .string)),
    ("procedureCount", ofNumber c.descriptor.procedures.length)]

def ofArtifacts (a : Page.Artifacts) : Json :=
  .object [
    ("markupText", .string a.markupText),
    ("scriptText", .string a.scriptText),
    ("markupFileName", .string a.markupFileName),
    ("scriptFileName", .string a.scriptFileName)]

/-- A list that is left out when it is empty. -/
def ofItems (items : List Json) : Option Json := if items.isEmpty then none else some (.array items)

def ofOutcome (explain documents : Bool) (o : Outcome) : Json :=
  let status (s : Text) : List (Text × Json) := [("input", .string o.label), ("status", .string s)]
  let written := present "written" (ofItems (o.written.map .string))
  match o.result with
  | .error e => .object (status "failed" ++ present "error" (some (.string e.message)) ++ written)
  | .ok c =>
      let reports := if explain then c.explain o.source else []
      .object (status "converted" ++ present "component" (some (ofConversion c)) ++
        present "artifacts" (if documents then some (ofArtifacts c.artifacts) else none) ++
        written ++ present "fields" (ofItems (reports.map ofFieldReport)))

/-- All outcomes as one JSON array. -/
def structured (explain documents : Bool) (outcomes : List Outcome) : Text :=
  (Json.array (outcomes.map (ofOutcome explain documents))).pretty 0 ++ ['\n']

end CanvasPage.Report
