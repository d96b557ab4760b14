import CanvasPage.Batch.Outcome
import CanvasPage.Report.Explanation

namespace CanvasPage.Report

open Page (unlines)

def writtenLines (o : Outcome) : List Text := o.written.map ("  wrote " ++ ·)

def pageLine (c : Conversion) : Text :=
  "  " ++ c.extraction.mode.description ++ " -> " ++ c.artifacts.markupFileName ++ ", " ++
    c.artifacts.scriptFileName

def canvasLine (d : Descriptor) : Text :=
  let count := d.procedures.length
  let procedures : Text := if count == 1 then "procedure" else "procedures"
  "  canvas " ++ Text.decimal d.canvasWidth ++ "x" ++ Text.decimal d.canvasHeight ++
    ", background " ++ d.backgroundColor ++ ", " ++ Text.decimal count ++ " " ++ procedures ++
    " (" ++ Text.join ", " d.owners ++ ")"

def fieldLine (r : FieldReport) : Text :=
  let origin : Text := match r.position with
    | some p => Text.decimal p.line ++ ":" ++ Text.decimal p.column ++ " " ++ r.origin
    | none => r.origin
  "  " ++ Text.padRight 18 r.field.key ++ Text.padRight 24 r.value ++ origin

def documentText (name text : Text) : Text := "\n--- " ++ name ++ " ---\n" ++ text

def documentTexts (a : Page.Artifacts) : Text :=
  documentText a.markupFileName a.markupText ++ documentText a.scriptFileName a.scriptText

def humanOutcome (explain documents : Bool) (o : Outcome) : Text :=
  match o.result with
  | .error e => unlines (o.label :: ("  Error: " ++ e.message) :: writtenLines o ++ [[]])
  | .ok c =>
      unlines (o.label :: pageLine c :: canvasLine c.descriptor :: writtenLines o ++
        if explain then (c.explain o.source).map fieldLine else []) ++
        (if documents then documentTexts c.artifacts else []) ++ ['\n']

/-- A few lines for each outcome and an empty line after it. -/
def human (explain documents : Bool) (outcomes : List Outcome) : Text :=
  outcomes.flatMap (humanOutcome explain documents)

end CanvasPage.Report
