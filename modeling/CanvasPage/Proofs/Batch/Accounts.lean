import CanvasPage.Proofs.Batch.Writing
import Mathlib.Data.List.Forall2

namespace CanvasPage

def Input.source (files : FileTree) : Input → Except RunError Text
  | .file path => (files.read path).mapError (.readFailed path)
  | .standardInput text => .ok text
  | .sample => .ok Sample.text

namespace Batch

variable {faults : Nat → Option Fault} {dir : Text} {input : Option Text}

/-- The outcome of an input if nothing is written. -/
def planned (options : ConversionOptions) (files : FileTree) (i : Input) : Outcome :=
  outcome options i.label (i.source files)

theorem exists_of_result_outcome {options : ConversionOptions} {label : Text}
    {read : Except RunError Text} {c : Conversion}
    (h : (outcome options label read).result = .ok c) :
    ∃ source, read = .ok source ∧ Conversion.ofSource options source = .ok c := by
  cases read with
  | error e => cases h
  | ok source =>
    refine ⟨source, rfl, ?_⟩
    rw [outcome] at h
    cases hc : Conversion.ofSource options source with
    | error cause =>
      rw [hc] at h
      cases h
    | ok c' =>
      rw [hc] at h
      exact congrArg Except.ok (Except.ok.inj h)

def pageFiles (outDir : Text) (a : Page.Artifacts) : List (Text × Text) :=
  [(Path.join outDir a.markupFileName, a.markupText),
    (Path.join outDir a.scriptFileName, a.scriptText)]

/-- How the calls for one input went, and the outcome that reports them. -/
inductive Accounts (outDir? : Option Text) (planned : Outcome) : Outcome → List Call → Prop
  | unwritten (h : outDir? = none ∨ ∃ e, planned.result = .error e) :
      Accounts outDir? planned { planned with written := [] } []
  | written {outDir : Text} {c : Conversion} {cs : List Call} (hout : outDir? = some outDir)
      (hresult : planned.result = .ok c)
      (hcalls : ∀ call ∈ cs, call.IsFor outDir (pageFiles outDir c.artifacts))
      (hwrites : cs.filterMap Call.write? = pageFiles outDir c.artifacts) :
      Accounts outDir? planned
        { planned with
          result := .ok c
          written := (pageFiles outDir c.artifacts).map (·.1) } cs
  | stopped {outDir target : Text} {c : Conversion} {fault : Fault} {cs : List Call}
      (hout : outDir? = some outDir) (hresult : planned.result = .ok c)
      (hcalls : ∀ call ∈ cs, call.IsFor outDir (pageFiles outDir c.artifacts))
      (hwrites : cs.filterMap Call.write? = [] ∨
        cs.filterMap Call.write? = (pageFiles outDir c.artifacts).take 1)
      (htarget : target ∈ outDir :: (pageFiles outDir c.artifacts).map (·.1))
      (hfault : Call.lastResult? cs = some (.error fault)) :
      Accounts outDir? planned
        { planned with
          result := .error (.writeFailed target fault)
          written := (cs.filterMap Call.write?).map (·.1) } cs

section OneInput

theorem writeOutcome_leads (faults : Nat → Option Fault) (dir : Text) (input : Option Text)
    (outDir : Text) {o : Outcome} (ho : o.written = []) (x : Session) :
    ∃ o' y cs, writeOutcome (Session.storage faults dir input) outDir o x = (o', y) ∧
      x.Leads cs y ∧ Accounts (some outDir) o o' cs := by
  rw [writeOutcome]
  cases hresult : o.result with
  | error e =>
    have hkept : o = { o with written := [] } := ho ▸ rfl
    exact ⟨o, x, [], rfl, x.leads_nil, hkept ▸ .unwritten (.inr ⟨e, hresult⟩)⟩
  | ok c =>
    dsimp only
    obtain ⟨markup, y, cs, hmarkup, hy, hcs⟩ := writeInto_leads faults dir input outDir
      c.artifacts.markupFileName c.artifacts.markupText x
    rw [stateM_bind, hmarkup]
    have hcalls : ∀ call ∈ cs, call.IsFor outDir (pageFiles outDir c.artifacts) :=
      fun call hcall => (hcs.isFor call hcall).mono (by simp [pageFiles])
    cases hcs with
    | @failed _ target fault _ hwrites htarget hfault =>
      have htarget : target ∈ outDir :: (pageFiles outDir c.artifacts).map (·.1) := by
        rcases htarget with h | h <;> simp [pageFiles, h]
      have haccount := Accounts.stopped rfl hresult hcalls (.inl hwrites) htarget hfault
      rw [hwrites] at haccount
      exact ⟨_, y, cs, rfl, hy, haccount⟩
    | written _ hwrites =>
      dsimp only
      obtain ⟨script, z, ds, hscript, hz, hds⟩ := writeInto_leads faults dir input outDir
        c.artifacts.scriptFileName c.artifacts.scriptText y
      rw [stateM_bind, hscript]
      have hcalls : ∀ call ∈ cs ++ ds, call.IsFor outDir (pageFiles outDir c.artifacts) :=
        List.forall_mem_append.mpr ⟨hcalls,
          fun call hcall => (hds.isFor call hcall).mono (by simp [pageFiles])⟩
      cases hds with
      | @failed _ target fault _ hnone htarget hfault =>
        have hone : (cs ++ ds).filterMap Call.write? =
            (pageFiles outDir c.artifacts).take 1 := by
          rw [List.filterMap_append, hwrites, hnone]
          rfl
        have htarget : target ∈ outDir :: (pageFiles outDir c.artifacts).map (·.1) := by
          rcases htarget with h | h <;> simp [pageFiles, h]
        have hlast : Call.lastResult? (cs ++ ds) = some (.error fault) := by
          rw [Call.lastResult?_append, hfault, Option.some_or]
        have haccount := Accounts.stopped rfl hresult hcalls (.inr hone) htarget hlast
        rw [hone] at haccount
        exact ⟨_, z, cs ++ ds, rfl, hy.append hz, haccount⟩
      | written _ hscriptWrites =>
        have hboth : (cs ++ ds).filterMap Call.write? = pageFiles outDir c.artifacts := by
          rw [List.filterMap_append, hwrites, hscriptWrites]
          rfl
        have haccount := Accounts.written rfl hresult hcalls hboth
        rw [← hresult] at haccount
        exact ⟨_, z, cs ++ ds, by rw [← hresult]; rfl, hy.append hz, haccount⟩

end OneInput

section AllInputs

theorem mapM_run {α β : Type} {act : α → StateM Session β} {f : α → β} {x : Session}
    (h : ∀ a, act a x = (f a, x)) (l : List α) : l.mapM act x = (l.map f, x) := by
  induction l with
  | nil => rfl
  | cons a l ih =>
    rw [List.mapM_cons, stateM_bind, h, stateM_bind, ih]
    rfl

theorem convert_run (options : ConversionOptions) (i : Input) (x : Session) :
    convert (Session.storage faults dir input) options i x =
      (planned options x.world.files i, x) := by
  cases i <;> rfl

theorem planned_written (options : ConversionOptions) (files : FileTree) (i : Input) :
    (planned options files i).written = [] := by
  rw [planned]
  cases i.source files <;> rfl

theorem writeOutcomes_leads (faults : Nat → Option Fault) (dir : Text) (input : Option Text)
    (outDir : Text) {os : List Outcome} (hos : ∀ o ∈ os, o.written = []) (x : Session) :
    ∃ rs : List (Outcome × List Call), ∃ y,
      os.mapM (writeOutcome (Session.storage faults dir input) outDir) x = (rs.map (·.1), y) ∧
        x.Leads (rs.flatMap (·.2)) y ∧
        List.Forall₂ (fun o r => Accounts (some outDir) o r.1 r.2) os rs := by
  induction os generalizing x with
  | nil => exact ⟨[], x, rfl, x.leads_nil, .nil⟩
  | cons o os ih =>
    obtain ⟨o', y, cs, ho, hy, haccount⟩ :=
      writeOutcome_leads faults dir input outDir (hos o (List.mem_cons_self ..)) x
    obtain ⟨rs, z, hrest, hz, haccounts⟩ := ih (fun o ho => hos o (List.mem_cons_of_mem _ ho)) y
    refine ⟨(o', cs) :: rs, z, ?_, hy.append hz, .cons haccount haccounts⟩
    rw [List.mapM_cons, stateM_bind, ho, stateM_bind, hrest]
    rfl

theorem convertAll_leads (faults : Nat → Option Fault) (dir : Text) (input : Option Text)
    (settings : Settings) (inputs : List Input) (x : Session) :
    ∃ rs : List (Outcome × List Call), ∃ y,
      convertAll (Session.storage faults dir input) settings inputs x = (rs.map (·.1), y) ∧
        x.Leads (rs.flatMap (·.2)) y ∧
        List.Forall₂ (fun i r => Accounts settings.outDir
          (planned settings.conversion x.world.files i) r.1 r.2) inputs rs := by
  rw [convertAll, stateM_bind, mapM_run fun i => convert_run settings.conversion i x]
  cases hout : settings.outDir with
  | none =>
    refine ⟨inputs.map fun i => (planned settings.conversion x.world.files i, []), x, ?_, ?_, ?_⟩
    · rw [List.map_map]
      rfl
    · have hnone : (inputs.map fun i =>
          (planned settings.conversion x.world.files i, ([] : List Call))).flatMap (·.2) = [] := by
        simp
      rw [hnone]
      exact x.leads_nil
    · refine List.forall₂_map_right_iff.mpr (List.forall₂_same.mpr fun i _ => ?_)
      have haccount : Accounts none (planned settings.conversion x.world.files i) _ [] :=
        .unwritten (.inl rfl)
      rwa [← planned_written settings.conversion x.world.files i] at haccount
  | some outDir =>
    have hunwritten : ∀ o ∈ inputs.map (planned settings.conversion x.world.files),
        o.written = [] := by simp only [List.forall_mem_map, planned_written, implies_true]
    obtain ⟨rs, y, hrun, hleads, haccounts⟩ :=
      writeOutcomes_leads faults dir input outDir hunwritten x
    exact ⟨rs, y, hrun, hleads, List.forall₂_map_left_iff.mp haccounts⟩

end AllInputs

end Batch

end CanvasPage
