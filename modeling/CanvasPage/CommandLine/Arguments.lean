import CanvasPage.Descriptor.Fallback
import CanvasPage.Report.Format

namespace CanvasPage

structure Arguments where
  inputs : List Text
  stdin : Bool
  sample : Bool
  outDir : Option Text
  format : Option Report.Format
  fallback : Option Fallback
  urlOverrides : Bool
  explain : Bool
  ignore : List Text
  config : Option Text
  verbose : Bool
  quiet : Bool
  deriving DecidableEq, Repr

inductive ArgumentError where
  | unknownArgument
  | invalidValue
  | conflict
  | tooManyValues
  | help
  | version
  deriving DecidableEq, Repr

namespace Arguments

def empty : Arguments :=
  { inputs := [], stdin := false, sample := false, outDir := none, format := none, fallback := none
    urlOverrides := false, explain := false, ignore := [], config := none, verbose := false
    quiet := false }

inductive Flag where
  | stdin
  | sample
  | urlOverrides
  | explain
  | verbose
  | quiet
  | help
  | version
  deriving DecidableEq, Repr

/-- An option that takes a value. -/
inductive Setting where
  | outDir
  | output
  | fallback
  | ignore
  | config
  deriving DecidableEq, Repr

inductive Switch where
  | flag (f : Flag)
  | setting (s : Setting)
  deriving DecidableEq, Repr

def longNames : List (Text × Switch) := [
  ("stdin", .flag .stdin), ("sample", .flag .sample), ("url-overrides", .flag .urlOverrides),
  ("explain", .flag .explain), ("verbose", .flag .verbose), ("quiet", .flag .quiet),
  ("help", .flag .help), ("version", .flag .version), ("out-dir", .setting .outDir),
  ("output", .setting .output), ("fallback", .setting .fallback), ("ignore", .setting .ignore),
  ("config", .setting .config)]

def shortNames : List (Char × Flag) :=
  [('v', .verbose), ('q', .quiet), ('h', .help), ('V', .version)]

/-- A flag that is set already conflicts with itself. -/
def once (given : Bool) (a : Arguments) : Except ArgumentError Arguments :=
  if given then .error .conflict else .ok a

def setFlag (a : Arguments) : Flag → Except ArgumentError Arguments
  | .stdin => once a.stdin { a with stdin := true }
  | .sample => once a.sample { a with sample := true }
  | .urlOverrides => once a.urlOverrides { a with urlOverrides := true }
  | .explain => once a.explain { a with explain := true }
  | .verbose => once a.verbose { a with verbose := true }
  | .quiet => once a.quiet { a with quiet := true }
  | .help => .error .help
  | .version => .error .version

def setValue (a : Arguments) (value : Text) : Setting → Except ArgumentError Arguments
  | .outDir => once a.outDir.isSome { a with outDir := some value }
  | .config => once a.config.isSome { a with config := some value }
  | .ignore => .ok { a with ignore := a.ignore ++ [value] }
  | .output =>
      if a.format.isSome then .error .conflict
      else match Report.Format.ofKey? value with
        | some format => .ok { a with format := some format }
        | none => .error .invalidValue
  | .fallback =>
      if a.fallback.isSome then .error .conflict
      else match Fallback.ofKey? value with
        | some fallback => .ok { a with fallback := some fallback }
        | none => .error .invalidValue

/-- What has been read of a command line. An option counts only when something after it shows that
it is complete; until then it is pending, with or without its value. -/
structure Reading where
  arguments : Arguments
  pending : Option (Setting × Option Text)
  onlyInputs : Bool

namespace Reading

def settle (r : Reading) : Except ArgumentError Reading :=
  match r.pending with
  | none => .ok r
  | some (_, none) => .error .invalidValue
  | some (setting, some value) =>
      (r.arguments.setValue value setting).map fun a => { r with arguments := a, pending := none }

def flag (r : Reading) (f : Flag) : Except ArgumentError Reading := do
  let r ← r.settle
  return { r with arguments := ← r.arguments.setFlag f }

def flags (r : Reading) : Text → Except ArgumentError Reading
  | [] => .ok r
  | c :: rest =>
      match shortNames.lookup c with
      | some f => (r.flag f).bind fun r => r.flags rest
      | none => .error .unknownArgument

def input (r : Reading) (arg : Text) : Except ArgumentError Reading := do
  let r ← r.settle
  return { r with arguments := { r.arguments with inputs := r.arguments.inputs ++ [arg] } }

/-- The name of a long option and the value attached to it with an equals sign. -/
def splitValue (t : Text) : Text × Option Text :=
  let name := t.takeWhile (· != '=')
  (name, if name.length < t.length then some (t.drop (name.length + 1)) else none)

def long (r : Reading) (t : Text) : Except ArgumentError Reading :=
  let (name, value) := splitValue t
  match longNames.lookup name, value with
  | none, _ => .error .unknownArgument
  | some (.flag _), some _ => .error .tooManyValues
  | some (.flag f), none => r.flag f
  | some (.setting s), value => do
      let r ← r.settle
      let r := { r with pending := some (s, value) }
      if value.isSome then r.settle else return r

/-- An argument that is no option: the value of the option before it, or an input. -/
def plain (r : Reading) (arg : Text) : Except ArgumentError Reading :=
  match r.pending with
  | some (setting, none) => .ok { r with pending := some (setting, some arg) }
  | _ => r.input arg

def read (r : Reading) (arg : Text) : Except ArgumentError Reading :=
  if r.onlyInputs then r.input arg
  else match arg with
    | ['-', '-'] => .ok { r with onlyInputs := true }
    | '-' :: '-' :: name => r.long name
    | ['-'] => r.plain arg
    | '-' :: names => r.flags names
    | _ => r.plain arg

end Reading

def readAll (r : Reading) : List Text → Except ArgumentError Reading
  | [] => r.settle
  | arg :: args => (r.read arg).bind fun r => readAll r args

/-- Reads a command line without the name of the program. -/
def ofList (args : List Text) : Except ArgumentError Arguments := do
  let r ← readAll ⟨empty, none, false⟩ args
  if r.arguments.verbose && r.arguments.quiet then .error .conflict else return r.arguments

def outputFormat (a : Arguments) : Report.Format := a.format.getD .human

def logLevel (a : Arguments) : Text :=
  if a.verbose then "debug" else if a.quiet then "error" else "warn"

end Arguments

end CanvasPage
