import CanvasPage.Batch.Convert
import CanvasPage.Proofs.Storage.Session

namespace CanvasPage

theorem stateM_bind {σ α β : Type} (act : StateM σ α) (next : α → StateM σ β) (x : σ) :
    (act >>= next) x = next (act x).1 (act x).2 := rfl

section Directories

variable {faults : Nat → Option Fault} {dir : Text} {input : Option Text} {path q : Text}
  {result : Except Fault Unit} {cs ds : List Call} {c : Call}

/-- The calls that create a directory and those above it. What they fail with is the fault of the
last one. -/
structure Creates (path : Text) (cs : List Call) (result : Except Fault Unit) : Prop where
  directories : ∀ c ∈ cs, c.text = none ∧ Path.Encloses c.path path
  fault : ∀ fault, result = .error fault → Call.lastResult? cs = some (.error fault)

theorem creates_nil (path : Text) : Creates path [] (.ok ()) :=
  ⟨by simp, nofun⟩

theorem creates_singleton (hpath : c.path = path) (htext : c.text = none)
    (h : result = .ok () ∨ result = c.result) : Creates path [c] result := by
  refine ⟨fun d hd => ?_, fun fault hfault => ?_⟩
  · rw [List.mem_singleton.mp hd, hpath]
    exact ⟨htext, Path.encloses_self path⟩
  · rcases h with rfl | rfl
    · cases hfault
    · exact congrArg some hfault

theorem Creates.of_parent? (hq : Path.parent? path = some q) (h : Creates q cs result) :
    Creates path cs result :=
  ⟨fun c hc => ⟨(h.directories c hc).1, (h.directories c hc).2.of_parent? hq⟩, h.fault⟩

theorem Creates.append {r : Except Fault Unit} (hcs : Creates path cs r)
    (hds : Creates path ds result) : Creates path (cs ++ ds) result := by
  refine ⟨fun c hc => ?_, fun fault hfault => ?_⟩
  · rcases List.mem_append.mp hc with hc | hc
    · exact hcs.directories c hc
    · exact hds.directories c hc
  · rw [Call.lastResult?_append, hds.fault fault hfault, Option.some_or]

theorem Creates.writes (h : Creates path cs result) : cs.filterMap Call.write? = [] := by
  refine List.filterMap_eq_nil_iff.mpr fun c hc => ?_
  rw [Call.write?, (h.directories c hc).1]
  split <;> rfl

theorem Creates.isFor (h : Creates path cs result) (files : List (Text × Text)) :
    ∀ c ∈ cs, c.IsFor path files := by
  intro c hc
  obtain ⟨htext, hpath⟩ := h.directories c hc
  rw [Call.IsFor, htext]
  exact hpath

theorem ensureDirectory_leads (faults : Nat → Option Fault) (dir : Text) (input : Option Text)
    (path : Text) (x : Session) :
    ∃ result y c, (Session.storage faults dir input).ensureDirectory path x = (result, y) ∧
      x.Leads [c] y ∧ Creates path [c] result := by
  obtain ⟨result, y, hcall, hleads⟩ := Session.leads_createDirectory faults dir input path x
  have hlooks : (Session.storage faults dir input).isDirectory path y =
      (y.world.files.isDirectory path, y) := rfl
  rw [Storage.ensureDirectory, stateM_bind, hcall]
  cases result with
  | ok _ => exact ⟨_, y, _, rfl, hleads, creates_singleton rfl rfl (.inl rfl)⟩
  | error fault =>
    dsimp only
    rw [stateM_bind, hlooks]
    cases y.world.files.isDirectory path with
    | true => exact ⟨_, y, _, rfl, hleads, creates_singleton rfl rfl (.inl rfl)⟩
    | false => exact ⟨_, y, _, rfl, hleads, creates_singleton rfl rfl (.inr rfl)⟩

theorem createDirectoriesWithin_leads (faults : Nat → Option Fault) (dir : Text) (input : Option Text)
    (bound : Nat) (path : Text) (x : Session) :
    ∃ result y cs,
      (Session.storage faults dir input).createDirectoriesWithin bound path x = (result, y) ∧
        x.Leads cs y ∧ Creates path cs result := by
  induction bound generalizing path x with
  | zero => exact ⟨_, x, [], rfl, x.leads_nil, creates_nil path⟩
  | succ bound ih =>
    rw [Storage.createDirectoriesWithin]
    by_cases hempty : path.isEmpty = true
    · rw [if_pos hempty]
      exact ⟨_, x, [], rfl, x.leads_nil, creates_nil path⟩
    rw [if_neg hempty, stateM_bind]
    obtain ⟨result, y, c, hensure, hy, hc⟩ := ensureDirectory_leads faults dir input path x
    rw [hensure]
    match result with
    | .ok () => exact ⟨_, y, [c], rfl, hy, hc⟩
    | .error .missing =>
      dsimp only
      rw [stateM_bind]
      cases hparent : Path.parent? path with
      | none =>
        have hnil : (Session.storage faults dir input).createDirectoriesWithin bound [] y =
            (.ok (), y) := by
          cases bound <;> rfl
        obtain ⟨result, z, d, hagain, hz, hd⟩ := ensureDirectory_leads faults dir input path y
        rw [Option.getD_none, hnil]
        exact ⟨result, z, [c] ++ [d], hagain, hy.append hz, hc.append hd⟩
      | some q =>
        obtain ⟨above, z, cs, hwithin, hz, hcs⟩ := ih q y
        have hcs := hcs.of_parent? hparent
        rw [Option.getD_some, hwithin]
        match above with
        | .error fault => exact ⟨_, z, [c] ++ cs, rfl, hy.append hz, hc.append hcs⟩
        | .ok () =>
          obtain ⟨result, w, d, hagain, hw, hd⟩ := ensureDirectory_leads faults dir input path z
          exact ⟨result, w, _, hagain, (hy.append hz).append hw,
            (hc.append hcs).append hd⟩
    | .error .alreadyExists | .error .notDirectory | .error .isDirectory | .error .nameTooLong
    | .error .nulInPath | .error .notUtf8 | .error (.other _) => exact ⟨_, y, [c], rfl, hy, hc⟩

end Directories

namespace Batch

section OneFile

variable {outDir path text : Text} {result : Except RunError Text} {cs : List Call}

/-- How it went to write one file of a directory. -/
inductive Stores (outDir path text : Text) : Except RunError Text → List Call → Prop
  | written {cs : List Call} (hcalls : ∀ c ∈ cs, c.IsFor outDir [(path, text)])
      (hwrites : cs.filterMap Call.write? = [(path, text)]) : Stores outDir path text (.ok path) cs
  | failed {cs : List Call} {target : Text} {fault : Fault}
      (hcalls : ∀ c ∈ cs, c.IsFor outDir [(path, text)]) (hwrites : cs.filterMap Call.write? = [])
      (htarget : target = outDir ∨ target = path)
      (hfault : Call.lastResult? cs = some (.error fault)) :
      Stores outDir path text (.error (.writeFailed target fault)) cs

theorem Stores.isFor (h : Stores outDir path text result cs) :
    ∀ c ∈ cs, c.IsFor outDir [(path, text)] := by
  cases h with
  | written hcalls => exact hcalls
  | failed hcalls => exact hcalls

theorem writeInto_leads (faults : Nat → Option Fault) (dir : Text) (input : Option Text)
    (outDir name text : Text) (x : Session) :
    ∃ result y cs,
      writeInto (Session.storage faults dir input) outDir name text x = (result, y) ∧
        x.Leads cs y ∧ Stores outDir (Path.join outDir name) text result cs := by
  obtain ⟨made, y, cs, hmake, hy, hcs⟩ :=
    createDirectoriesWithin_leads faults dir input ((Path.names outDir).length + 1) outDir x
  rw [writeInto, stateM_bind, Storage.createDirectories, hmake]
  cases made with
  | error fault =>
    exact ⟨_, y, cs, rfl, hy, .failed (hcs.isFor _) hcs.writes (.inl rfl) (hcs.fault fault rfl)⟩
  | ok _ =>
    obtain ⟨wrote, z, hwrite, hz⟩ :=
      Session.leads_write faults dir input (Path.join outDir name) text y
    dsimp only
    rw [stateM_bind, hwrite]
    have hcalls : ∀ c ∈ cs ++ [⟨Path.join outDir name, some text, wrote⟩],
        c.IsFor outDir [(Path.join outDir name, text)] := by
      intro c hc
      rcases List.mem_append.mp hc with hc | hc
      · exact hcs.isFor _ c hc
      · rw [List.mem_singleton.mp hc]
        exact List.mem_singleton_self _
    refine ⟨_, z, _, rfl, hy.append hz, ?_⟩
    cases wrote with
    | ok _ =>
      refine .written hcalls ?_
      rw [List.filterMap_append, hcs.writes]
      rfl
    | error fault =>
      refine .failed hcalls ?_ (.inr rfl) ?_
      · rw [List.filterMap_append, hcs.writes]
        rfl
      · rw [Call.lastResult?_append]
        rfl

end OneFile

end Batch

end CanvasPage
