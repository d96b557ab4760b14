import CanvasPage.Batch.Collect
import CanvasPage.Batch.Convert

namespace CanvasPage.Batch

variable {m : Type → Type} [Monad m]

/-- Reads a config file. `shown` is the path in messages. -/
def readConfig (s : Storage m) (path shown : Text) : ExceptT RunError m Config := do
  match ← s.read path with
  | .error fault => throw (.configUnreadable shown fault)
  | .ok text =>
      match Config.ofText? text with
      | some config => return config
      | none => throw (.configInvalid shown)

/-- The config file that the arguments name, which must exist, or else the one in the working
directory, which need not. -/
def loadConfig (s : Storage m) (path? : Option Text) : ExceptT RunError m Config := do
  match path? with
  | some path => readConfig s path path
  | none =>
      if ← s.isFile Config.fileName then
        readConfig s Config.fileName (Path.join (← s.workingDirectory) Config.fileName)
      else return .empty

def readStandardInput (s : Storage m) : ExceptT RunError m Input := do
  match ← s.readInput with
  | .ok text => return .standardInput text
  | .error fault => throw (.readFailed "<stdin>" fault)

/-- The inputs of a run: files, then standard input, then the sample. -/
def inputs (s : Storage m) (a : Arguments) (settings : Settings) :
    ExceptT RunError m (List Input) := do
  let files ← ExceptT.mk (collect s settings.ignore settings.extensions a.inputs)
  let standard ← if a.stdin then (return [← readStandardInput s]) else pure []
  let sample := if a.sample then [Input.sample] else []
  return files.map .file ++ standard ++ sample

/-- What a run prints. Only the report for people ends in a summary. -/
def report (a : Arguments) (settings : Settings) (outcomes : List Outcome) : Text :=
  let options : Report.Options :=
    { format := a.outputFormat, explain := settings.explain, documents := settings.outDir.isNone }
  Report.text options outcomes ++
    if a.outputFormat == .human then (Summary.ofOutcomes outcomes).text ++ ['\n'] else []

/-- Converts what the arguments name, writes the pages and prints a report. -/
def run (s : Storage m) (a : Arguments) : ExceptT RunError m Summary := do
  let settings := Settings.resolve a (← loadConfig s a.config)
  let inputs ← inputs s a settings
  if inputs.isEmpty then throw .noInputs
  let outcomes ← (convertAll s settings inputs : m (List Outcome))
  s.print (report a settings outcomes)
  return Summary.ofOutcomes outcomes

end CanvasPage.Batch
