import CanvasPage.Storage.FileTree

namespace CanvasPage

/-- The operations that a run has on files, standard input and standard output. Paths are relative
to the working directory. -/
structure Storage (m : Type → Type) where
  workingDirectory : m Text
  isFile : Text → m Bool
  isDirectory : Text → m Bool
  read : Text → m (Except Fault Text)
  filesBelow : Text → m (List (List Text))
  createDirectory : Text → m (Except Fault Unit)
  write : (path text : Text) → m (Except Fault Unit)
  readInput : m (Except Fault Text)
  print : Text → m Unit

namespace Storage

variable {m : Type → Type} [Monad m]

def ensureDirectory (s : Storage m) (path : Text) : m (Except Fault Unit) := do
  match ← s.createDirectory path with
  | .ok () => return .ok ()
  | .error fault =>
      if ← s.isDirectory path then return .ok ()
      else return .error fault

/-- Creates a directory, where needed after those that it stands in. `bound` limits how many names
the path has. What was created before a fault stays. -/
def createDirectoriesWithin (s : Storage m) : (bound : Nat) → Text → m (Except Fault Unit)
  | 0, _ => return .ok ()
  | bound + 1, path =>
      if path.isEmpty then return .ok ()
      else do
        match ← s.ensureDirectory path with
        | .ok () => return .ok ()
        | .error .missing =>
            match ← s.createDirectoriesWithin bound ((Path.parent? path).getD []) with
            | .ok () => s.ensureDirectory path
            | .error fault => return .error fault
        | .error fault => return .error fault

def createDirectories (s : Storage m) (path : Text) : m (Except Fault Unit) :=
  s.createDirectoriesWithin ((Path.names path).length + 1) path

end Storage

/-- Files and printed text. -/
structure World where
  files : FileTree
  printed : Text
  deriving DecidableEq, Repr

namespace World

/-- Makes a change to the files, or none if it fails. -/
def change (f : FileTree → Except Fault FileTree) : StateM World (Except Fault Unit) := fun w =>
  match f w.files with
  | .ok files => (.ok (), { w with files })
  | .error fault => (.error fault, w)

/-- The operations on a world. `input` is the standard input, unless that is not valid UTF-8. -/
def storage (workingDirectory : Text) (input : Option Text) : Storage (StateM World) where
  workingDirectory := pure workingDirectory
  isFile path := fun w => (w.files.isFile path, w)
  isDirectory path := fun w => (w.files.isDirectory path, w)
  read path := fun w => (w.files.read path, w)
  filesBelow path := fun w => (w.files.filesBelow path, w)
  createDirectory path := change (·.createDirectory path)
  write path text := change (·.write path text)
  readInput := pure (match input with
    | some t => .ok t
    | none => .error .notUtf8)
  print t := fun w => ((), { w with printed := w.printed ++ t })

end World

end CanvasPage
