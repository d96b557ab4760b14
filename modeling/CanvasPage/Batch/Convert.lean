import CanvasPage.Batch.Outcome
import CanvasPage.CommandLine.Arguments
import CanvasPage.Config.Basic
import CanvasPage.Sample
import CanvasPage.Storage.Basic

namespace CanvasPage

/-- What a run goes by. -/
structure Settings where
  conversion : ConversionOptions
  outDir : Option Text
  ignore : List Text
  extensions : List Text
  explain : Bool
  deriving DecidableEq, Repr

/-- Arguments win over the config file. Ignored globs add up, and either may allow overrides. -/
def Settings.resolve (a : Arguments) (c : Config) : Settings where
  conversion := {
    fallback := (a.fallback.or c.fallback).getD .inert
    urlOverrides := a.urlOverrides || c.urlOverrides.getD false }
  outDir := a.outDir.or c.outDir
  ignore := c.ignore ++ a.ignore
  extensions := c.fileExtensions
  explain := a.explain

inductive Input where
  | file (path : Text)
  | standardInput (text : Text)
  | sample
  deriving DecidableEq, Repr

def Input.label : Input → Text
  | file path => path
  | standardInput _ => "<stdin>"
  | sample => "<sample>"

namespace Batch

variable {m : Type → Type} [Monad m]

def read (s : Storage m) : Input → m (Except RunError Text)
  | .file path => return (← s.read path).mapError (.readFailed path)
  | .standardInput text => return .ok text
  | .sample => return .ok Sample.text

/-- The outcome of an input, given its source, before anything is written. -/
def outcome (options : ConversionOptions) (label : Text) : Except RunError Text → Outcome
  | .ok source =>
      { label, source, written := []
        result := (Conversion.ofSource options source).mapError .conversion }
  | .error e => { label, source := [], written := [], result := .error e }

def convert (s : Storage m) (options : ConversionOptions) (i : Input) : m Outcome :=
  return outcome options i.label (← read s i)

/-- Writes a text into a directory, which is created if need be. -/
def writeInto (s : Storage m) (outDir name text : Text) : m (Except RunError Text) := do
  match ← s.createDirectories outDir with
  | .error fault => return .error (.writeFailed outDir fault)
  | .ok () =>
      let path := Path.join outDir name
      return (← s.write path text).map (fun _ => path) |>.mapError (.writeFailed path)

/-- Writes the markup, then the script, of a converted input. The first failure takes the place of
its result; what was written before stays. -/
def writeOutcome (s : Storage m) (outDir : Text) (o : Outcome) : m Outcome := do
  match o.result with
  | .error _ => return o
  | .ok c =>
      match ← writeInto s outDir c.artifacts.markupFileName c.artifacts.markupText with
      | .error e => return { o with result := .error e, written := [] }
      | .ok markup =>
          match ← writeInto s outDir c.artifacts.scriptFileName c.artifacts.scriptText with
          | .error e => return { o with result := .error e, written := [markup] }
          | .ok script => return { o with written := [markup, script] }

/-- Reads and converts all inputs, then writes all pages, both in order. -/
def convertAll (s : Storage m) (settings : Settings) (inputs : List Input) : m (List Outcome) := do
  let outcomes ← inputs.mapM (convert s settings.conversion)
  match settings.outDir with
  | none => return outcomes
  | some outDir => outcomes.mapM (writeOutcome s outDir)

end Batch

end CanvasPage
