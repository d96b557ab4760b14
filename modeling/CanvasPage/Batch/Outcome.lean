import CanvasPage.Conversion
import CanvasPage.Storage.FileTree

namespace CanvasPage

inductive RunError where
  | readFailed (path : Text) (fault : Fault)
  | writeFailed (path : Text) (fault : Fault)
  | invalidGlob (reason : Text)
  | configUnreadable (path : Text) (fault : Fault)
  | configInvalid (path : Text)
  | conversion (error : ConversionError)
  | noInputs
  deriving DecidableEq, Repr

def RunError.message : RunError → Text
  | readFailed path fault => "failed to read " ++ path ++ ": " ++ fault.message
  | writeFailed path fault => "failed to write " ++ path ++ ": " ++ fault.message
  | invalidGlob reason => "invalid glob pattern: " ++ reason
  | configUnreadable path fault => "failed to read config " ++ path ++ ": " ++ fault.message
  | configInvalid path => "invalid config " ++ path
  | conversion error => error.message
  | noInputs => "no inputs: pass files or directories, --stdin, or --sample"

/-- What became of one input, and the files that were written for it. -/
structure Outcome where
  label : Text
  source : Text
  result : Except RunError Conversion
  written : List Text

namespace Outcome

def failed (o : Outcome) : Bool :=
  match o.result with
  | .ok _ => false
  | .error _ => true

end Outcome

structure Summary where
  converted : Nat
  failed : Nat
  deriving DecidableEq, Repr

namespace Summary

def ofOutcomes (outcomes : List Outcome) : Summary where
  converted := outcomes.countP (!·.failed)
  failed := outcomes.countP (·.failed)

def text (s : Summary) : Text :=
  let inputs : Text := if s.converted == 1 then "input" else "inputs"
  "====================================\nstandalone-canvas converted " ++
    Text.decimal s.converted ++ " " ++ inputs ++ ", " ++ Text.decimal s.failed ++ " failed"

end Summary

end CanvasPage
