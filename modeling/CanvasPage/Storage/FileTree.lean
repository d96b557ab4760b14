import CanvasPage.Storage.Path

namespace CanvasPage

/-- Why a file or directory could not be used. -/
inductive Fault where
  | missing
  | alreadyExists
  | notDirectory
  | isDirectory
  | nameTooLong
  | nulInPath
  | notUtf8
  | other (message : Text)
  deriving DecidableEq, Repr

def Fault.message : Fault → Text
  | missing => "No such file or directory (os error 2)"
  | alreadyExists => "File exists (os error 17)"
  | notDirectory => "Not a directory (os error 20)"
  | isDirectory => "Is a directory (os error 21)"
  | nameTooLong => "File name too long (os error 36)"
  | nulInPath => "file name contained an unexpected NUL byte"
  | notUtf8 => "stream did not contain valid UTF-8"
  | other message => message

/-- What stands at a place. A file without a text is not valid UTF-8. -/
inductive Entry where
  | file (text : Option Text)
  | directory
  deriving DecidableEq, Repr

/-- Files and directories by their names from the root on, and the directory that relative paths
start from. -/
structure FileTree where
  workingDirectory : List Text
  entries : List (List Text × Entry)
  deriving DecidableEq, Repr

namespace FileTree

/-- The root is always there. -/
def lookup? (t : FileTree) (place : List Text) : Option Entry :=
  if place.isEmpty then some .directory else t.entries.lookup place

def set (t : FileTree) (place : List Text) (e : Entry) : FileTree :=
  { t with entries := (place, e) :: t.entries.filter (·.1 != place) }

theorem lookup_filter_ne (l : List (List Text × Entry)) {p q : List Text} (h : q ≠ p) :
    (l.filter (·.1 != p)).lookup q = l.lookup q := by
  induction l with
  | nil => rfl
  | cons e l ih =>
    obtain ⟨r, e⟩ := e
    by_cases hr : r = p
    · have hq : (q == r) = false := by simpa [hr] using h
      simp [List.lookup_cons, hr ▸ hq, hr, ih]
    · simp [List.lookup_cons, hr, ih]

theorem lookup?_set_self (t : FileTree) {place : List Text} (h : place ≠ []) (e : Entry) :
    (t.set place e).lookup? place = some e := by
  simp [lookup?, set, h]

theorem lookup?_set_of_ne (t : FileTree) {p q : List Text} (h : q ≠ p) (e : Entry) :
    (t.set p e).lookup? q = t.lookup? q := by
  have hq : (q == p) = false := by simpa using h
  simp [lookup?, set, List.lookup_cons, hq, lookup_filter_ne _ h]

/-- Adds an entry and the directories it stands in. -/
def add (t : FileTree) (place : List Text) (e : Entry) : FileTree :=
  let outer := ((List.range place.length).map place.take).filter fun p => (t.lookup? p).isNone
  (outer.foldl (fun t p => t.set p .directory) t).set place e

/-- Only the working directory and those it stands in. -/
def emptyAt (workingDirectory : List Text) : FileTree :=
  (⟨workingDirectory, []⟩ : FileTree).add workingDirectory .directory

/-- The place of a path relative to `place`. All but the last name must be directories. -/
def locateFrom (t : FileTree) (place : List Text) : List Text → Except Fault (List Text)
  | [] => .ok place
  | piece :: rest =>
      match t.lookup? place with
      | none => .error .missing
      | some (.file _) => .error .notDirectory
      | some .directory =>
          if piece.isEmpty || piece == ['.'] then t.locateFrom place rest
          else if piece == ['.', '.'] then t.locateFrom place.dropLast rest
          else if Text.byteLength piece > 255 then .error .nameTooLong
          else t.locateFrom (place ++ [piece]) rest

def locate (t : FileTree) (path : Text) : Except Fault (List Text) :=
  if path.isEmpty then .error .missing
  else if path.any (·.toNat == 0) then .error .nulInPath
  else t.locateFrom (if path.head? == some '/' then [] else t.workingDirectory) (Path.pieces path)

def find (t : FileTree) (path : Text) : Except Fault Entry :=
  match t.locate path with
  | .error fault => .error fault
  | .ok place =>
      match t.lookup? place with
      | some e => .ok e
      | none => .error .missing

def isFile (t : FileTree) (path : Text) : Bool :=
  match t.find path with
  | .ok (.file _) => true
  | _ => false

def isDirectory (t : FileTree) (path : Text) : Bool :=
  match t.find path with
  | .ok .directory => true
  | _ => false

def read (t : FileTree) (path : Text) : Except Fault Text :=
  match t.find path with
  | .ok (.file (some text)) => .ok text
  | .ok (.file none) => .error .notUtf8
  | .ok .directory => .error .isDirectory
  | .error fault => .error fault

def write (t : FileTree) (path text : Text) : Except Fault FileTree :=
  match t.locate path with
  | .error fault => .error fault
  | .ok place =>
      if t.lookup? place == some .directory then .error .isDirectory
      else .ok (t.set place (.file (some text)))

def createDirectory (t : FileTree) (path : Text) : Except Fault FileTree :=
  match t.locate (Path.dropEndSlashes path) with
  | .error fault => .error fault
  | .ok place =>
      if (t.lookup? place).isSome then .error .alreadyExists else .ok (t.set place .directory)

/-- The files below a directory, relative to it and in the order of their components. -/
def filesBelow (t : FileTree) (path : Text) : List (List Text) :=
  match t.locate path with
  | .error _ => []
  | .ok place =>
      let below := t.entries.filterMap fun (p, e) =>
        if e == .directory || !place.isPrefixOf p then none else some (p.drop place.length)
      below.mergeSort fun p q => !Path.precedes q p

/-- The files below the working directory that an earlier tree does not have, or has with another
text. -/
def changedSince (t before : FileTree) : List (List Text × Text) :=
  t.entries.filterMap fun (p, e) =>
    match e with
    | .file (some text) =>
        if before.lookup? p == some e || !t.workingDirectory.isPrefixOf p then none
        else some (p.drop t.workingDirectory.length, text)
    | _ => none

end FileTree

end CanvasPage
