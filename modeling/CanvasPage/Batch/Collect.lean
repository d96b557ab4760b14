import CanvasPage.Batch.Outcome
import CanvasPage.Glob.Match
import CanvasPage.Glob.Parse
import CanvasPage.Storage.Basic
import CanvasPage.Text.Letter

namespace CanvasPage.Glob

/-- Directories that are never searched. -/
def defaultIgnores : List Text := ["**/node_modules/**", "**/dist/**", "**/target/**"]

/-- The globs of a list, or the message for the first one that is malformed. -/
def parseAll : List Text → Except Text (List (List Token))
  | [] => .ok []
  | glob :: globs =>
      match parse glob with
      | .error e => .error (e.message glob)
      | .ok tokens => (parseAll globs).map (tokens :: ·)

def anyMatches (globs : List (List Token)) (path : Text) : Bool := globs.any (matchesPath · path)

end CanvasPage.Glob

namespace CanvasPage.Batch

/-- Has the last name of a path one of the extensions, in either case? -/
def hasExtension (extensions : List Text) (place : List Text) : Bool :=
  match (place.getLast?).bind Path.extension? with
  | some extension => extensions.any (Text.eqIgnoringAsciiCase · extension)
  | none => false

/-- Is a file below a directory an input? Globs see its path relative to that directory. -/
def isInput (ignored : List (List Glob.Token)) (extensions place : List Text) : Bool :=
  hasExtension extensions place && !Glob.anyMatches ignored (Text.join "/" place)

/-- The files that one path names: those below a directory, or else the path itself. -/
def expand {m : Type → Type} [Monad m] (s : Storage m) (ignored : List (List Glob.Token))
    (extensions : List Text) (path : Text) : m (List Text) := do
  if ← s.isDirectory path then
    let places ← s.filesBelow path
    return (places.filter (isInput ignored extensions)).map fun place =>
      Path.join path (Text.join "/" place)
  else return [path]

def collect {m : Type → Type} [Monad m] (s : Storage m) (ignore extensions : List Text)
    (paths : List Text) : m (Except RunError (List Text)) := do
  match Glob.parseAll (ignore ++ Glob.defaultIgnores) with
  | .error reason => return .error (.invalidGlob reason)
  | .ok ignored => return .ok (← paths.mapM (expand s ignored extensions)).flatten

end CanvasPage.Batch
