import CanvasPage.Proofs.Storage.Place
import CanvasPage.Storage.Basic

namespace CanvasPage

/-- A call that was to write a text, or without one to create a directory, and how it went. -/
structure Call where
  path : Text
  text : Option Text
  result : Except Fault Unit

namespace Call

def apply (t : FileTree) (c : Call) : FileTree :=
  match c.result, c.text with
  | .error _, _ => t
  | .ok (), none => t.set (t.placeOf c.path) .directory
  | .ok (), some text => t.set (t.placeOf c.path) (.file (some text))

/-- The path and the text of a write that succeeded. -/
def write? (c : Call) : Option (Text × Text) :=
  match c.result with
  | .error _ => none
  | .ok () => c.text.map fun text => (c.path, text)

/-- Only what is missing is created as a directory, and no directory is written to. -/
def IsPossible (t : FileTree) (c : Call) : Prop :=
  c.result = .ok () →
    match c.text with
    | none => t.lookup? (t.placeOf c.path) = none
    | some _ => t.lookup? (t.placeOf c.path) ≠ some .directory

/-- The calls that one of `files` may need: to create `outDir` and those above it, and to write the
file. -/
def IsFor (outDir : Text) (files : List (Text × Text)) (c : Call) : Prop :=
  match c.text with
  | none => Path.Encloses c.path outDir
  | some text => (c.path, text) ∈ files

theorem IsFor.mono {outDir : Text} {files more : List (Text × Text)} {c : Call}
    (h : c.IsFor outDir files) (hfiles : files ⊆ more) : c.IsFor outDir more := by
  obtain ⟨path, text, result⟩ := c
  cases text with
  | none => exact h
  | some text => exact hfiles h

def lastResult? (cs : List Call) : Option (Except Fault Unit) := cs.getLast?.map result

theorem lastResult?_append (cs ds : List Call) :
    lastResult? (cs ++ ds) = (lastResult? ds).or (lastResult? cs) := by
  rw [lastResult?, List.getLast?_append, Option.map_or]
  rfl

theorem isPossible_of_error {t : FileTree} {c : Call} {fault : Fault} (h : c.result = .error fault) :
    c.IsPossible t := by
  intro hok
  rw [h] at hok
  cases hok

end Call

namespace FileTree

def replay (t : FileTree) (cs : List Call) : FileTree := cs.foldl Call.apply t

def CanReplay : FileTree → List Call → Prop
  | _, [] => True
  | t, c :: cs => c.IsPossible t ∧ (c.apply t).CanReplay cs

variable {t : FileTree} {cs ds : List Call} {c : Call} {place : List Text}

theorem replay_append (t : FileTree) (cs ds : List Call) :
    t.replay (cs ++ ds) = (t.replay cs).replay ds :=
  List.foldl_append

theorem canReplay_append : t.CanReplay (cs ++ ds) ↔ t.CanReplay cs ∧ (t.replay cs).CanReplay ds := by
  induction cs generalizing t with
  | nil => exact (and_iff_right trivial).symm
  | cons c cs ih =>
    rw [List.cons_append, CanReplay, CanReplay, ih, and_assoc]
    rfl

theorem workingDirectory_apply (t : FileTree) (c : Call) :
    (c.apply t).workingDirectory = t.workingDirectory := by
  rw [Call.apply]
  split <;> rfl

theorem workingDirectory_replay (t : FileTree) (cs : List Call) :
    (t.replay cs).workingDirectory = t.workingDirectory := by
  induction cs generalizing t with
  | nil => rfl
  | cons c cs ih => exact (ih (c.apply t)).trans (t.workingDirectory_apply c)

theorem placeOf_replay (t : FileTree) (cs : List Call) (path : Text) :
    (t.replay cs).placeOf path = t.placeOf path :=
  placeOf_congr (t.workingDirectory_replay cs) path

theorem placeOf_ne_nil (h : t.lookup? place ≠ some .directory) : place ≠ [] := by
  rintro rfl
  exact h rfl

theorem lookup?_apply (h : c.IsPossible t) (place : List Text) :
    (c.apply t).lookup? place = t.lookup? place ∨
      c.result = .ok () ∧ place = t.placeOf c.path ∧
        ((c.text = none ∧ t.lookup? place = none ∧
            (c.apply t).lookup? place = some .directory) ∨
          ∃ text, c.text = some text ∧ (c.apply t).lookup? place = some (.file (some text))) := by
  obtain ⟨path, text, result⟩ := c
  cases result with
  | error fault => exact .inl rfl
  | ok _ =>
    by_cases hplace : place = t.placeOf path
    · refine .inr ⟨rfl, hplace, ?_⟩
      subst hplace
      cases text with
      | none =>
        have hnone : t.lookup? (t.placeOf path) = none := h rfl
        have hne : t.lookup? (t.placeOf path) ≠ some .directory := by simp [hnone]
        exact .inl ⟨rfl, hnone, lookup?_set_self t (placeOf_ne_nil hne) _⟩
      | some text =>
        have hfile : t.lookup? (t.placeOf path) ≠ some .directory := h rfl
        exact .inr ⟨text, rfl, lookup?_set_self t (placeOf_ne_nil hfile) _⟩
    · refine .inl ?_
      cases text with
      | none => exact lookup?_set_of_ne t hplace _
      | some text => exact lookup?_set_of_ne t hplace _

theorem lookup?_replay (h : t.CanReplay cs) (place : List Text) :
    (t.replay cs).lookup? place = t.lookup? place ∨
      (∃ c ∈ cs, c.text = none ∧ place = t.placeOf c.path ∧ t.lookup? place = none ∧
        (t.replay cs).lookup? place = some .directory) ∨
      ∃ c ∈ cs, ∃ text, c.text = some text ∧ place = t.placeOf c.path ∧
        (t.replay cs).lookup? place = some (.file (some text)) := by
  induction cs using List.reverseRecOn with
  | nil => exact .inl rfl
  | append_singleton cs c ih =>
    obtain ⟨hcs, hc, -⟩ := canReplay_append.mp h
    have happly : t.replay (cs ++ [c]) = c.apply (t.replay cs) := replay_append t cs [c]
    rw [happly]
    rcases lookup?_apply hc place with hsame | ⟨-, hplace, hnew⟩
    · rw [hsame]
      rcases ih hcs with hkept | ⟨d, hd, hdirectory⟩ | ⟨d, hd, hfile⟩
      · exact .inl hkept
      · exact .inr (.inl ⟨d, List.mem_append_left _ hd, hdirectory⟩)
      · exact .inr (.inr ⟨d, List.mem_append_left _ hd, hfile⟩)
    · rw [placeOf_replay] at hplace
      rcases hnew with ⟨htext, hmissing, hdirectory⟩ | ⟨text, htext, hfile⟩
      · refine .inr (.inl ⟨c, by simp, htext, hplace, ?_, hdirectory⟩)
        rcases ih hcs with hkept | ⟨-, -, -, -, hnone, -⟩ | ⟨-, -, text, -, -, hfile⟩
        · rwa [hkept] at hmissing
        · exact hnone
        · rw [hfile] at hmissing
          cases hmissing
      · exact .inr (.inr ⟨c, by simp, text, htext, hplace, hfile⟩)

section Contents

end Contents

end FileTree

/-- A world and the calls that were made to change its files, the earliest first. -/
structure Session where
  world : World
  calls : List Call

namespace Session

def observe {α : Type} (act : StateM World α) : StateM Session α := fun x =>
  let (a, world) := act x.world
  (a, { x with world })

/-- Makes a call that may change the files, or lets it fail if there is a fault for it. -/
def attempt (faults : Nat → Option Fault) (path : Text) (text : Option Text)
    (act : StateM World (Except Fault Unit)) : StateM Session (Except Fault Unit) := fun x =>
  let (result, world) : Except Fault Unit × World := match faults x.calls.length with
    | some fault => (.error fault, x.world)
    | none => act x.world
  (result, { world, calls := x.calls ++ [⟨path, text, result⟩] })

/-- The operations on a world of which calls that change files may fail: call number `n` fails with
`faults n`, whatever it finds. -/
def storage (faults : Nat → Option Fault) (workingDirectory : Text) (input : Option Text) :
    Storage (StateM Session) :=
  let s := World.storage workingDirectory input
  { workingDirectory := observe s.workingDirectory
    isFile := fun path => observe (s.isFile path)
    isDirectory := fun path => observe (s.isDirectory path)
    read := fun path => observe (s.read path)
    filesBelow := fun path => observe (s.filesBelow path)
    createDirectory := fun path => attempt faults path none (s.createDirectory path)
    write := fun path text => attempt faults path (some text) (s.write path text)
    readInput := observe s.readInput
    print := fun t => observe (s.print t) }

/-- The calls `cs` lead from one session to the other. -/
structure Leads (x : Session) (cs : List Call) (y : Session) : Prop where
  calls : y.calls = x.calls ++ cs
  printed : y.world.printed = x.world.printed
  files : y.world.files = x.world.files.replay cs
  possible : x.world.files.CanReplay cs

variable {x y z : Session} {cs ds : List Call}

theorem leads_nil (x : Session) : x.Leads [] x :=
  ⟨(List.append_nil _).symm, rfl, rfl, trivial⟩

theorem Leads.append (hxy : x.Leads cs y) (hyz : y.Leads ds z) : x.Leads (cs ++ ds) z where
  calls := by rw [hyz.calls, hxy.calls, List.append_assoc]
  printed := by rw [hyz.printed, hxy.printed]
  files := by rw [hyz.files, hxy.files, FileTree.replay_append]
  possible := FileTree.canReplay_append.mpr ⟨hxy.possible, hxy.files ▸ hyz.possible⟩

section Attempts

variable {text : Option Text} {change : FileTree → Except Fault FileTree}

theorem leads_attempt (faults : Nat → Option Fault) (path : Text)
    (hchange : ∀ t u, change t = .ok u →
      Call.IsPossible t ⟨path, text, .ok ()⟩ ∧ u = Call.apply t ⟨path, text, .ok ()⟩)
    (x : Session) :
    ∃ result y, attempt faults path text (World.change change) x = (result, y) ∧
      x.Leads [⟨path, text, result⟩] y := by
  rw [attempt]
  cases faults x.calls.length with
  | some fault => exact ⟨_, _, rfl, ⟨rfl, rfl, rfl, Call.isPossible_of_error rfl, trivial⟩⟩
  | none =>
    simp only [World.change]
    cases hc : change x.world.files with
    | error fault => exact ⟨_, _, rfl, ⟨rfl, rfl, rfl, Call.isPossible_of_error rfl, trivial⟩⟩
    | ok files =>
      obtain ⟨hpossible, happly⟩ := hchange _ _ hc
      exact ⟨_, _, rfl, ⟨rfl, rfl, happly, hpossible, trivial⟩⟩

theorem leads_createDirectory (faults : Nat → Option Fault) (dir : Text) (input : Option Text)
    (path : Text) (x : Session) :
    ∃ result y, (storage faults dir input).createDirectory path x = (result, y) ∧
      x.Leads [⟨path, none, result⟩] y := by
  have hcall : (storage faults dir input).createDirectory path =
      attempt faults path none (World.change (·.createDirectory path)) := rfl
  rw [hcall]
  refine leads_attempt faults path (fun t u h => ?_) x
  obtain ⟨hmissing, hset⟩ := FileTree.createDirectory_spec h
  exact ⟨fun _ => hmissing, hset⟩

theorem leads_write (faults : Nat → Option Fault) (dir : Text) (input : Option Text)
    (path text : Text) (x : Session) :
    ∃ result y, (storage faults dir input).write path text x = (result, y) ∧
      x.Leads [⟨path, some text, result⟩] y := by
  have hcall : (storage faults dir input).write path text =
      attempt faults path (some text) (World.change (·.write path text)) := rfl
  rw [hcall]
  refine leads_attempt faults path (fun t u h => ?_) x
  obtain ⟨hfile, hset⟩ := FileTree.write_spec h
  exact ⟨fun _ => hfile, hset⟩

end Attempts

end Session

end CanvasPage
