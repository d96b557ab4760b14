import CanvasPage.Batch.Run
import CanvasPage.Proofs.Batch.Accounts
import CanvasPage.Proofs.Descriptor.Soundness

namespace CanvasPage

section FileNames

def isFileNameChar (c : Char) : Bool := c.isLower || c.isDigit || c == '$'

def IsPageFileName (name : Text) : Prop :=
  ∃ stem : Text, stem ≠ [] ∧ (∀ c ∈ stem, isFileNameChar c = true) ∧
    (name = stem ++ ".html" ∨ name = stem ++ ".js")

theorem isFileNameChar_ofNat : ∀ n < 128, Descriptor.isNameChar (Char.ofNat n) = true →
    isFileNameChar (Text.toAsciiLower (Char.ofNat n)) = true := by
  decide

theorem isFileNameChar_toAsciiLower {c : Char} (h : Descriptor.isNameChar c = true) :
    isFileNameChar (Text.toAsciiLower c) = true := by
  have hc := isFileNameChar_ofNat c.toNat (Descriptor.toNat_lt_of_isNameChar h)
  rw [Char.ofNat_toNat] at hc
  exact hc h

theorem IsPageFileName.isEntryName {name : Text} (h : IsPageFileName name) :
    FileTree.IsEntryName name := by
  obtain ⟨stem, hne, hstem, hname⟩ := h
  have hslash : '/' ∉ stem := fun hc => absurd (hstem '/' hc) (by decide)
  have hlength : 3 < name.length := by
    have hpos := List.length_pos_iff.mpr hne
    rcases hname with rfl | rfl
    · exact (by decide : 3 < (".html" : Text).length).trans_le (List.length_append ▸ Nat.le_add_left ..)
    · exact List.length_append ▸ Nat.lt_add_of_pos_left hpos
  refine ⟨?_, ?_, ?_, ?_⟩
  · rcases hname with rfl | rfl <;> simp [hslash]
  all_goals
    rintro rfl
    simp at hlength

theorem isPageFileName_toLower {name : Text} (h : Descriptor.isName name = true) :
    IsPageFileName (Text.toLower name ++ ".html") ∧ IsPageFileName (Text.toLower name ++ ".js") := by
  obtain ⟨hne, hall⟩ := Descriptor.isNameChar_of_isName h
  have hlower := Descriptor.toLower_eq_map hall
  have hchars : ∀ c ∈ Text.toLower name, isFileNameChar c = true := by
    rw [hlower]
    exact List.forall_mem_map.mpr fun c hc => isFileNameChar_toAsciiLower (hall c hc)
  have hstem : Text.toLower name ≠ [] := by
    rw [hlower]
    simpa using hne
  exact ⟨⟨_, hstem, hchars, .inl rfl⟩, ⟨_, hstem, hchars, .inr rfl⟩⟩

end FileNames

namespace Batch

section Observing

variable {α β : Type} {faults : Nat → Option Fault} {dir : Text} {input : Option Text}

/-- An action that leaves the files, and what has been printed, as they are. -/
def Observes (act : StateM Session α) : Prop := ∀ x, (act x).2 = x

theorem observes_pure (a : α) : Observes (pure a) := fun _ => rfl

theorem Observes.bind {act : StateM Session α} {next : α → StateM Session β} (h : Observes act)
    (hnext : ∀ a, Observes (next a)) : Observes (act >>= next) := by
  intro x
  rw [stateM_bind, hnext, h]

theorem Observes.mapM {act : α → StateM Session β} (h : ∀ a, Observes (act a)) (l : List α) :
    Observes (l.mapM act) := by
  induction l with
  | nil => exact observes_pure []
  | cons a l ih =>
    rw [List.mapM_cons]
    exact (h a).bind fun _ => ih.bind fun _ => observes_pure _

theorem Observes.bindExcept {ε : Type} {act : ExceptT ε (StateM Session) α}
    {next : α → ExceptT ε (StateM Session) β} (h : Observes act.run)
    (hnext : ∀ a, Observes (next a).run) : Observes (act >>= next).run := by
  rw [ExceptT.run_bind]
  refine h.bind fun result => ?_
  cases result with
  | ok a => exact hnext a
  | error e => exact observes_pure _

theorem observes_lift {ε : Type} {act : StateM Session α} (h : Observes act) :
    Observes (monadLift act : ExceptT ε (StateM Session) α).run :=
  h.bind fun _ => observes_pure _

theorem observes_observe {act : StateM World α} (h : ∀ w, (act w).2 = w) :
    Observes (Session.observe act) :=
  fun x => congrArg (fun world => { x with world }) (h x.world)

theorem observes_readConfig (path shown : Text) :
    Observes (readConfig (Session.storage faults dir input) path shown).run := by
  rw [readConfig]
  refine (observes_lift (observes_observe fun _ => rfl)).bindExcept fun result => ?_
  split
  · exact observes_pure _
  · split
    · exact observes_pure _
    · exact observes_pure _

theorem observes_loadConfig (faults : Nat → Option Fault) (dir : Text) (input : Option Text)
    (path? : Option Text) :
    Observes (loadConfig (Session.storage faults dir input) path?).run := by
  cases path? with
  | some path => exact observes_readConfig path path
  | none =>
    refine (observes_lift (observes_observe fun _ => rfl)).bindExcept fun found => ?_
    split
    · exact (observes_lift (observes_observe fun _ => rfl)).bindExcept fun _ =>
        observes_readConfig _ _
    · exact observes_pure _

theorem observes_expand (ignored : List (List Glob.Token)) (extensions : List Text) (path : Text) :
    Observes (expand (Session.storage faults dir input) ignored extensions path) := by
  refine (observes_observe fun _ => rfl).bind fun found => ?_
  split
  · exact (observes_observe fun _ => rfl).bind fun _ => observes_pure _
  · exact observes_pure _

theorem observes_collect (ignore extensions paths : List Text) :
    Observes (collect (Session.storage faults dir input) ignore extensions paths) := by
  rw [collect]
  split
  · exact observes_pure _
  · exact (Observes.mapM (observes_expand _ extensions) paths).bind fun _ => observes_pure _

theorem observes_inputs (faults : Nat → Option Fault) (dir : Text) (input : Option Text)
    (a : Arguments) (settings : Settings) :
    Observes (inputs (Session.storage faults dir input) a settings).run := by
  refine Observes.bindExcept (observes_collect _ _ _) fun files => ?_
  have hstandard : Observes (readStandardInput (Session.storage faults dir input)).run := by
    refine (observes_lift (observes_observe fun _ => rfl)).bindExcept fun result => ?_
    split
    · exact observes_pure _
    · exact observes_pure _
  dsimp only
  split
  · exact (hstandard.bindExcept fun _ => observes_pure _).bindExcept fun _ => observes_pure _
  · exact Observes.bindExcept (observes_pure _) fun _ => observes_pure _

end Observing

/-- The calls that create a directory or one above it, or write a page into it. -/
def IsWithin (outDir : Text) (c : Call) : Prop :=
  match c.text with
  | none => Path.Encloses c.path outDir
  | some _ => ∃ name, IsPageFileName name ∧ c.path = Path.join outDir name

/-- What a run may have done to the files: nothing without an output directory, or else to create
that directory and those above it, and to write pages into it. -/
def StaysIn (outDir? : Option Text) (x y : Session) : Prop :=
  match outDir? with
  | none => y.calls = x.calls ∧ y.world.files = x.world.files
  | some outDir =>
      (∃ cs, y.calls = x.calls ++ cs ∧ ∀ c ∈ cs, IsWithin outDir c) ∧
      ∀ place, y.world.files.lookup? place = x.world.files.lookup? place ∨
        (∃ q, Path.Encloses q outDir ∧ place = x.world.files.placeOf q ∧
          x.world.files.lookup? place = none ∧ y.world.files.lookup? place = some .directory) ∨
        ∃ name text, IsPageFileName name ∧ place = x.world.files.placeOf outDir ++ [name] ∧
          y.world.files.lookup? place = some (.file (some text))

section Frame

variable {faults : Nat → Option Fault} {dir : Text} {input : Option Text} {outDir : Text}
  {x y : Session}

theorem staysIn_of_leads {cs : List Call} (hleads : x.Leads cs y)
    (hcs : ∀ c ∈ cs, IsWithin outDir c) : StaysIn (some outDir) x y := by
  refine ⟨⟨cs, hleads.calls, hcs⟩, fun place => ?_⟩
  rw [hleads.files]
  rcases FileTree.lookup?_replay hleads.possible place with
    hsame | ⟨c, hc, htext, hplace, hmissing, hnow⟩ | ⟨c, hc, text, htext, hplace, hnow⟩
  · exact .inl hsame
  · have hwithin := hcs c hc
    rw [IsWithin, htext] at hwithin
    exact .inr (.inl ⟨c.path, hwithin, hplace, hmissing, hnow⟩)
  · have hwithin := hcs c hc
    rw [IsWithin, htext] at hwithin
    obtain ⟨name, hname, hpath⟩ := hwithin
    refine .inr (.inr ⟨name, text, hname, ?_, hnow⟩)
    rw [hplace, hpath, FileTree.placeOf_join _ _ hname.isEntryName]

theorem isPageFileName_of_planned {options : ConversionOptions} {files : FileTree} {i : Input}
    {c : Conversion} (h : (planned options files i).result = .ok c) :
    IsPageFileName c.artifacts.markupFileName ∧ IsPageFileName c.artifacts.scriptFileName := by
  obtain ⟨source, -, hc⟩ := exists_of_result_outcome h
  obtain ⟨e, -, rfl⟩ := Conversion.exists_of_ofSource hc
  exact isPageFileName_toLower (Descriptor.isName_resolve e _ options.fallback)

theorem Accounts.isWithin {options : ConversionOptions} {files : FileTree} {i : Input}
    {o : Outcome} {cs : List Call} (h : Accounts (some outDir) (planned options files i) o cs) :
    ∀ c ∈ cs, IsWithin outDir c := by
  have hfor : ∀ c, (planned options files i).result = .ok c → ∀ call : Call,
      call.IsFor outDir (pageFiles outDir c.artifacts) → IsWithin outDir call := by
    intro c hresult call hcall
    obtain ⟨hmarkup, hscript⟩ := isPageFileName_of_planned hresult
    obtain ⟨path, text, result⟩ := call
    cases text with
    | none => exact hcall
    | some text =>
      rcases List.mem_cons.mp hcall with h | h
      · exact ⟨_, hmarkup, congrArg Prod.fst h⟩
      · exact ⟨_, hscript, congrArg Prod.fst (List.mem_singleton.mp h)⟩
  cases h with
  | unwritten => simp
  | written hout hresult hcalls =>
    obtain rfl := Option.some.inj hout
    exact fun call hcall => hfor _ hresult call (hcalls call hcall)
  | stopped hout hresult hcalls =>
    obtain rfl := Option.some.inj hout
    exact fun call hcall => hfor _ hresult call (hcalls call hcall)

theorem Accounts.calls_of_none {planned o : Outcome} {cs : List Call}
    (h : Accounts none planned o cs) : cs = [] := by
  cases h with
  | unwritten => rfl
  | written hout => cases hout
  | stopped hout => cases hout

theorem convertAll_staysIn (faults : Nat → Option Fault) (dir : Text) (input : Option Text)
    (settings : Settings) (inputs : List Input) (x : Session) :
    StaysIn settings.outDir x
      (convertAll (Session.storage faults dir input) settings inputs x).2 := by
  obtain ⟨rs, y, hrun, hleads, haccounts⟩ := convertAll_leads faults dir input settings inputs x
  rw [hrun]
  have hcalls : ∀ c ∈ rs.flatMap (·.2), ∃ i o cs, c ∈ cs ∧
      Accounts settings.outDir (planned settings.conversion x.world.files i) o cs := by
    clear hrun hleads
    induction haccounts with
    | nil => simp
    | @cons i r inputs rs haccount _ ih =>
      intro c hc
      rcases List.mem_append.mp hc with hc | hc
      · exact ⟨i, r.1, r.2, hc, haccount⟩
      · exact ih c hc
  cases hout : settings.outDir with
  | none =>
    rw [hout] at hcalls
    have hnil : rs.flatMap (·.2) = [] := by
      refine List.eq_nil_iff_forall_not_mem.mpr fun c hc => ?_
      obtain ⟨i, o, cs, hmem, haccount⟩ := hcalls c hc
      rw [haccount.calls_of_none] at hmem
      cases hmem
    rw [hnil] at hleads
    exact ⟨hleads.calls.trans (List.append_nil _), hleads.files⟩
  | some outDir =>
    rw [hout] at hcalls
    refine staysIn_of_leads hleads fun c hc => ?_
    obtain ⟨i, o, cs, hmem, haccount⟩ := hcalls c hc
    exact haccount.isWithin c hmem

/-- A run that fails leaves everything as it was. One that succeeds stays in the output directory
that the arguments or the config file name. -/
theorem run_frame (faults : Nat → Option Fault) (dir : Text) (input : Option Text)
    (a : Arguments) (x : Session) :
    match (run (Session.storage faults dir input) a).run x with
    | (.error _, y) => y = x
    | (.ok _, y) => ∃ config,
        (loadConfig (Session.storage faults dir input) a.config).run x = (.ok config, x) ∧
          StaysIn (Settings.resolve a config).outDir x y := by
  have hload := observes_loadConfig faults dir input a.config x
  rw [run, ExceptT.run_bind, stateM_bind, hload]
  cases hconfig : ((loadConfig (Session.storage faults dir input) a.config).run x).1 with
  | error e => rfl
  | ok config =>
    have hinputs := observes_inputs faults dir input a (Settings.resolve a config) x
    dsimp only
    rw [ExceptT.run_bind, stateM_bind, hinputs]
    cases ((Batch.inputs (Session.storage faults dir input) a
        (Settings.resolve a config)).run x).1 with
    | error e => rfl
    | ok inputs =>
      dsimp only
      by_cases hempty : inputs.isEmpty = true
      · rw [if_pos hempty]
        rfl
      · rw [if_neg hempty]
        have hstays := convertAll_staysIn faults dir input (Settings.resolve a config) inputs x
        exact ⟨config, Prod.ext hconfig hload, hstays⟩

end Frame

end Batch

end CanvasPage
