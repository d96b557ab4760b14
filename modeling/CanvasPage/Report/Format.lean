import CanvasPage.Report.Human
import CanvasPage.Report.Structured

namespace CanvasPage.Report

def machineFields (o : Outcome) : List Text :=
  match o.result with
  | .error e => ["FAILED", o.label, e.message]
  | .ok c => ["OK", o.label, c.artifacts.markupFileName, c.artifacts.scriptFileName,
      Text.decimal c.descriptor.canvasWidth ++ "x" ++ Text.decimal c.descriptor.canvasHeight,
      c.descriptor.backgroundColor, Text.decimal c.descriptor.procedures.length]

/-- One line for each outcome, its fields separated by tabs. -/
def machine (outcomes : List Outcome) : Text :=
  Page.unlines (outcomes.map fun o => Text.join "\t" (machineFields o))

inductive Format where
  | human
  | json
  | machine
  deriving DecidableEq, Repr

namespace Format

def key : Format → Text
  | human => "human"
  | json => "json"
  | machine => "machine"

def ofKey? (t : Text) : Option Format := [human, json, machine].find? (·.key == t)

end Format

/-- What a report says: with `explain` where values came from, with `documents` the documents. -/
structure Options where
  format : Format
  explain : Bool
  documents : Bool
  deriving DecidableEq, Repr

def text (options : Options) (outcomes : List Outcome) : Text :=
  match options.format with
  | .human => human options.explain options.documents outcomes
  | .json => structured options.explain options.documents outcomes
  | .machine => machine outcomes

end CanvasPage.Report
