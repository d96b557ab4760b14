import CanvasPage.Proofs.ClassBlock.Placed
import CanvasPage.Proofs.Procedure.DefaultInitializer
import CanvasPage.Proofs.Procedure.Tally

namespace CanvasPage

open Script

namespace Parameter

theorem name_prefix_of_parameter? {head : Text} {value : Option Text} {isProperty : Bool}
    {q : Parameter} (h : parameter? head value isProperty = some q) : q.name <+: q.text := by
  unfold parameter? at h
  dsimp only at h
  split at h
  · cases h
  · obtain rfl := Option.some.inj h
    cases value with
    | none => exact List.prefix_rfl
    | some value => exact (List.prefix_append _ _).trans (List.prefix_append _ _)

theorem name_prefix_text {rewrite : Text → Text} {raw : Text} {q : Parameter}
    (hq : q ∈ readAll rewrite raw) : q.name <+: q.text := by
  obtain ⟨piece, -, hread⟩ := List.mem_filterMap.mp hq
  obtain ⟨lead, rest, -, -, hcases⟩ := read?_eq rewrite piece
  rw [hcases] at hread
  cases hdefault : splitDefault 0 none rest with
  | none =>
    rw [hdefault] at hread
    exact name_prefix_of_parameter? hread
  | some pair =>
    rw [hdefault] at hread
    exact name_prefix_of_parameter? hread

end Parameter

namespace Property

variable {p : Property} {q : Procedure} {owner : Text}

/-- What becomes code of a property: the block of an arrow function, or the value. Nothing becomes of
an arrow function whose block stays open. -/
def code (p : Property) : Text :=
  match arrowValue.atStart? p.value with
  | some header => ((Bracket.brace.enclosed? header.stop.after).map (·.1)).getD []
  | none => p.value

theorem code_of_isArrow_eq_false (h : p.isArrow = false) : p.code = p.value := by
  rw [isArrow, Option.isSome_eq_false_iff, Option.isNone_iff_eq_none] at h
  rw [code, h]

theorem body_of_procedure? (h : p.procedure? owner = some q) :
    q.body = Procedure.rewriteBody p.code := by
  simp only [procedure?, Option.bind_eq_bind, Option.bind_eq_some_iff] at h
  obtain ⟨header, hheader, block, hblock, hvalue⟩ := h
  rw [← Option.some.inj hvalue, code, hheader]
  dsimp only
  rw [hblock]
  rfl

theorem code_of_procedure?_eq_none (harrow : p.isArrow = true) (h : p.procedure? owner = none) :
    p.code = [] := by
  obtain ⟨header, hheader⟩ := Option.isSome_iff_exists.mp harrow
  rw [procedure?, hheader] at h
  rw [code, hheader]
  dsimp only
  cases hblock : Bracket.brace.enclosed? header.stop.after with
  | none => rfl
  | some block => simp [hblock] at h

theorem forall_mem_assignment {P : Char → Prop} {name value : Text}
    (hfixed : ∀ c ∈ ("this. =;" : Text), P c) (hname : ∀ c ∈ name, P c) (hvalue : ∀ c ∈ value, P c) :
    ∀ c ∈ assignment name value, P c := by
  have hpart : ∀ u : Text, u ⊆ ("this. =;" : Text) → ∀ c ∈ u, P c := fun u hu c hc => hfixed c (hu hc)
  exact List.forall_mem_append.mpr ⟨List.forall_mem_append.mpr ⟨List.forall_mem_append.mpr
    ⟨List.forall_mem_append.mpr ⟨hpart _ (by decide), hname⟩, hpart _ (by decide)⟩, hvalue⟩,
    hpart _ (by decide)⟩

theorem tally_assignment {x : Char} {name : Text} (hx : x ∉ ("this. =;" : Text))
    (hname : ∀ d ∈ name, Text.continuesIdentifier d = true)
    (hforeign : Text.continuesIdentifier x = false) (value : Text) :
    tally x .start (assignment name value) = tally x .start value := by
  have hfixed : ∀ u : Text, u ⊆ ("this. =;" : Text) → x ∉ u := fun u hu h => hx (hu h)
  have hquiet : ∀ d ∈ name, isQuiet d = true := fun d hd =>
    isQuiet_of_isPlain (isPlain_of_continuesIdentifier (hname d hd)) (by
      rintro rfl
      exact absurd (hname _ hd) (by decide))
  have hnone : x ∉ name := fun hmem => by
    rw [hname x hmem] at hforeign
    cases hforeign
  refine tally_between (by simp) ?_ ?_ (hfixed ";" (by decide)) value
  · exact List.forall_mem_append.mpr ⟨List.forall_mem_append.mpr ⟨by decide, hquiet⟩, by decide⟩
  · simp only [List.mem_append, not_or]
    exact ⟨⟨hfixed _ (by decide), hnone⟩, hfixed _ (by decide)⟩

end Property

namespace ClassBlock

variable {source : Text} {c : ClassBlock}

/-- The texts of a class that become the code of its procedures. -/
def codes (c : ClassBlock) : List Text :=
  (c.initializer.toList ++ c.methods).map (·.body) ++ c.properties.map (·.code)

def parameterLists (c : ClassBlock) : List Text :=
  (c.initializer.toList ++ c.methods).map (·.params) ++
    c.properties.filterMap fun p => (arrowValue.atStart? p.value).map (·.groupText 1)

/-- The lines of the constructor, the calls of `super` too. -/
def initializerTexts (c : ClassBlock) : List Text :=
  c.instanceProperties.map (fun p => Property.assignment p.name (Procedure.rewriteBody p.value)) ++
    c.initializer.toList.flatMap fun m =>
      ((Parameter.readAll Procedure.rewriteBody m.params).filter (·.isProperty)).map
          (fun q => Property.assignment q.name q.name) ++
        Text.lines (Procedure.rewriteBody m.body)

/-- What a class has to be like for every hash of its code to stay: nothing that is replaced has one,
nor have the parameters of the constructor, and the constructor has no literal over several lines. -/
structure KeepsHashes (c : ClassBlock) : Prop where
  codes : ∀ t ∈ c.codes, Procedure.Keeps '#' t
  parameters : ∀ m ∈ c.initializer, '#' ∉ m.params
  lines : ∀ l ∈ c.initializerTexts, IsOwnLine l
  superCalls : ∀ l ∈ c.initializerTexts, superCall.occursIn l = true → tally '#' .start l = 0

theorem mem_codes {t : Text} : t ∈ c.codes ↔ (∃ m ∈ c.initializer, m.body = t) ∨
    (∃ m ∈ c.methods, m.body = t) ∨ ∃ p ∈ c.properties, p.code = t := by
  simp [codes]

theorem of_mem_instanceProperties {p : Property} (hp : p ∈ c.instanceProperties) :
    p ∈ c.properties ∧ p.isArrow = false := by
  simp only [instanceProperties, plainProperties, List.mem_filter] at hp
  exact ⟨hp.1.1, by simpa using hp.1.2⟩

theorem tally_values (hc : c ∈ scan source) (h : c.KeepsHashes) :
    (∀ l ∈ c.instanceProperties.map fun p =>
        Property.assignment p.name (Procedure.rewriteBody p.value), tally '#' .start l = 0) ↔
      ∀ p ∈ c.instanceProperties, tally '#' .start p.value = 0 := by
  rw [List.forall_mem_map]
  refine forall₂_congr fun p hp => ?_
  obtain ⟨hmem, harrow⟩ := of_mem_instanceProperties hp
  have hkeeps := h.codes p.value
    (mem_codes.mpr (.inr (.inr ⟨p, hmem, p.code_of_isArrow_eq_false harrow⟩)))
  rw [Property.tally_assignment (by decide) ((continuesIdentifier_of_mem_scan hc).2 p hmem)
    (by decide), Procedure.tally_rewriteBody isInert_hash hkeeps]

theorem hash_not_mem_defaultLines (c : ClassBlock) : '#' ∉ Text.join "\n" c.defaultLines := by
  rw [defaultLines]
  cases c.defines "initialize" with
  | false => decide +kernel
  | true => decide +kernel

theorem hash_not_mem_parameterTexts {raw : Text} (h : '#' ∉ raw) :
    ∀ n ∈ Procedure.parameterTexts raw, '#' ∉ n := fun n hn hmem =>
  Procedure.forall_mem_parameterTexts (P := (· ≠ '#')) (by decide)
    (fun d hd hdx => h (hdx ▸ hd)) n hn '#' hmem rfl

theorem hash_not_mem_assignment {name : Text} (h : '#' ∉ name) :
    '#' ∉ Property.assignment name name := by
  have hname : ∀ d ∈ name, d ≠ '#' := fun d hd hdx => h (hdx ▸ hd)
  exact fun hmem => Property.forall_mem_assignment (by decide) hname hname '#' hmem rfl

theorem tally_initializerLines {m : Method} {ps : List Parameter}
    (hnames : ∀ q ∈ ps, '#' ∉ q.name)
    (hlines : ∀ l ∈ Text.lines (Procedure.rewriteBody m.body), IsOwnLine l ∧
      (superCall.occursIn l = true → tally '#' .start l = 0))
    (hkeeps : Procedure.Keeps '#' m.body) :
    (∀ l ∈ initializerLines m ps, tally '#' .start l = 0) ↔ tally '#' .start m.body = 0 := by
  rw [initializerLines, List.forall_mem_append, ← Procedure.tally_rewriteBody isInert_hash hkeeps,
    tally_lines_eq_zero_iff isInert_hash.not_blank fun l hl => (hlines l hl).1]
  have hparameters : ∀ l ∈ (ps.filter (·.isProperty)).map (fun q =>
      Property.assignment q.name q.name), tally '#' .start l = 0 := by
    intro l hl
    obtain ⟨q, hq, rfl⟩ := List.mem_map.mp hl
    exact tally_of_not_mem (hash_not_mem_assignment (hnames q (List.mem_filter.mp hq).1)) _
  refine ⟨fun h l hl => ?_, fun h => ⟨hparameters, fun l hl => h l (List.mem_filter.mp hl).1⟩⟩
  by_cases hsuper : superCall.occursIn l = true
  · exact (hlines l hl).2 hsuper
  · exact h.2 l (List.mem_filter.mpr ⟨hl, by simpa using hsuper⟩)

theorem KeepsHashes.bodyLines {m : Method} (h : c.KeepsHashes) (hm : m ∈ c.initializer) :
    ∀ l ∈ Text.lines (Procedure.rewriteBody m.body), IsOwnLine l ∧
      (superCall.occursIn l = true → tally '#' .start l = 0) := by
  intro l hl
  have htext : l ∈ c.initializerTexts := List.mem_append_right _ (List.mem_flatMap.mpr
    ⟨m, Option.mem_toList.mpr hm, List.mem_append_right _ hl⟩)
  exact ⟨h.lines l htext, h.superCalls l htext⟩

theorem KeepsHashes.isOwnLine_initializerLines {m : Method} (h : c.KeepsHashes)
    (hm : m ∈ c.initializer) :
    ∀ l ∈ initializerLines m (Parameter.readAll Procedure.rewriteBody m.params), IsOwnLine l := by
  refine List.forall_mem_append.mpr ⟨fun l hl => h.lines l ?_,
    fun l hl => (h.bodyLines hm l (List.mem_filter.mp hl).1).1⟩
  exact List.mem_append_right _ (List.mem_flatMap.mpr
    ⟨m, Option.mem_toList.mpr hm, List.mem_append_left _ hl⟩)

theorem KeepsHashes.parameterNames {m : Method} (h : c.KeepsHashes) (hm : m ∈ c.initializer) :
    ∀ q ∈ Parameter.readAll Procedure.rewriteBody m.params, '#' ∉ q.name := fun q hq hmem =>
  hash_not_mem_parameterTexts (h.parameters m hm) q.text (List.mem_map_of_mem hq)
    ((Parameter.name_prefix_text hq).subset hmem)

theorem tally_initializerProcedure (hc : c ∈ scan source) (h : c.KeepsHashes) :
    tally '#' .start c.initializerProcedure.body = 0 ↔
      (∀ p ∈ c.instanceProperties, tally '#' .start p.value = 0) ∧
        ∀ m ∈ c.initializer, tally '#' .start m.body = 0 := by
  rw [← tally_values hc h]
  have hlines := h.lines
  rw [initializerTexts] at hlines
  obtain ⟨hvalues, -⟩ := List.forall_mem_append.mp hlines
  generalize hproperties : c.instanceProperties.map (fun p =>
    Property.assignment p.name (Procedure.rewriteBody p.value)) = ls at hvalues
  cases hinit : c.initializer with
  | none =>
    have hbody : c.initializerProcedure.body =
        Text.join "\n" (if ls.isEmpty then c.defaultLines else ls) := by
      rw [initializerProcedure, hinit, hproperties]
      rfl
    rw [hbody]
    cases ls with
    | nil =>
      rw [List.isEmpty_nil, if_pos rfl, tally_of_not_mem c.hash_not_mem_defaultLines]
      simp
    | cons l ls =>
      rw [List.isEmpty_cons, if_neg Bool.false_ne_true,
        tally_join_eq_zero_iff isInert_hash.ne_lineFeed hvalues]
      simp
  | some m =>
    have hbody : c.initializerProcedure.body = Text.join "\n"
        (ls ++ initializerLines m (Parameter.readAll Procedure.rewriteBody m.params)) := by
      rw [initializerProcedure, hinit, hproperties]
      rfl
    have hkeeps := h.codes m.body (mem_codes.mpr (.inl ⟨m, hinit, rfl⟩))
    have hown := List.forall_mem_append.mpr ⟨hvalues, h.isOwnLine_initializerLines hinit⟩
    rw [hbody, tally_join_eq_zero_iff isInert_hash.ne_lineFeed hown, List.forall_mem_append,
      tally_initializerLines (h.parameterNames hinit) (h.bodyLines hinit) hkeeps]
    simp

theorem forall_mem_procedures {P : Procedure → Prop} : (∀ p ∈ c.procedures, P p) ↔
    P c.initializerProcedure ∧ (∀ m ∈ c.methods, P (m.procedure c.name)) ∧
      (∀ p ∈ c.arrowProperties, ∀ q ∈ p.procedure? c.name, P q) ∧
      ∀ p ∈ c.staticProperties, P (p.staticProcedure c.name) := by
  have hmembers : (∀ p ∈ c.procedures, P p) ↔
      P c.initializerProcedure ∧ ∀ x ∈ c.memberProcedures, P x.2 := by
    refine ⟨fun h => ⟨h _ (mem_procedures.mpr (.inl rfl)), fun x hx =>
      h _ (mem_procedures.mpr (.inr ⟨x.1, hx⟩))⟩, fun h p hp => ?_⟩
    rcases mem_procedures.mp hp with rfl | ⟨start, hx⟩
    · exact h.1
    · exact h.2 _ hx
  rw [hmembers, memberProcedures, List.forall_mem_append, List.forall_mem_append, and_assoc]
  refine and_congr_right fun _ => and_congr ?_ (and_congr ?_ ?_)
  · simp
  · simp only [List.mem_filterMap, Option.map_eq_some_iff]
    refine ⟨fun h p hp q hq => h _ ⟨p, hp, q, hq, rfl⟩, ?_⟩
    rintro h x ⟨p, hp, q, hq, rfl⟩
    exact h p hp q hq
  · simp

theorem forall_mem_properties {P : Property → Prop} : (∀ p ∈ c.properties, P p) ↔
    (∀ p ∈ c.arrowProperties, P p) ∧ (∀ p ∈ c.staticProperties, P p) ∧
      ∀ p ∈ c.instanceProperties, P p := by
  simp only [arrowProperties, staticProperties, instanceProperties, plainProperties, List.mem_filter]
  refine ⟨fun h => ⟨fun p hp => h p hp.1, fun p hp => h p hp.1.1, fun p hp => h p hp.1.1⟩,
    fun ⟨harrow, hstatic, hinstance⟩ p hp => ?_⟩
  by_cases hp' : p.isArrow = true
  · exact harrow p ⟨hp, hp'⟩
  · by_cases hs : p.isStatic = true
    · exact hstatic p ⟨⟨hp, by simpa using hp'⟩, hs⟩
    · exact hinstance p ⟨⟨hp, by simpa using hp'⟩, by simpa using hs⟩

theorem forall_mem_codes {P : Text → Prop} : (∀ t ∈ c.codes, P t) ↔
    (∀ m ∈ c.initializer, P m.body) ∧ (∀ m ∈ c.methods, P m.body) ∧ ∀ p ∈ c.properties, P p.code := by
  refine ⟨fun h => ⟨fun m hm => h _ (mem_codes.mpr (.inl ⟨m, hm, rfl⟩)),
    fun m hm => h _ (mem_codes.mpr (.inr (.inl ⟨m, hm, rfl⟩))),
    fun p hp => h _ (mem_codes.mpr (.inr (.inr ⟨p, hp, rfl⟩)))⟩, ?_⟩
  rintro ⟨hinitializer, hmethods, hproperties⟩ t ht
  rcases mem_codes.mp ht with ⟨m, hm, rfl⟩ | ⟨m, hm, rfl⟩ | ⟨p, hp, rfl⟩
  · exact hinitializer m hm
  · exact hmethods m hm
  · exact hproperties p hp

theorem tally_method {m : Method} (h : c.KeepsHashes) (hm : m ∈ c.methods) :
    tally '#' .start (m.procedure c.name).body = tally '#' .start m.body :=
  Procedure.tally_rewriteBody isInert_hash (h.codes _ (mem_codes.mpr (.inr (.inl ⟨m, hm, rfl⟩))))

theorem tally_property {p : Property} (h : c.KeepsHashes) (hp : p ∈ c.properties) :
    tally '#' .start (Procedure.rewriteBody p.code) = tally '#' .start p.code :=
  Procedure.tally_rewriteBody isInert_hash (h.codes _ (mem_codes.mpr (.inr (.inr ⟨p, hp, rfl⟩))))

theorem tally_arrow {p : Property} (h : c.KeepsHashes) (hp : p ∈ c.arrowProperties) :
    (∀ q ∈ p.procedure? c.name, tally '#' .start q.body = 0) ↔ tally '#' .start p.code = 0 := by
  obtain ⟨hp, harrow⟩ := List.mem_filter.mp hp
  cases hprocedure : p.procedure? c.name with
  | none => simp [p.code_of_procedure?_eq_none harrow hprocedure, tally]
  | some q =>
    rw [← tally_property h hp, ← Property.body_of_procedure? hprocedure]
    simp

theorem code_of_mem_plainProperties {p : Property} (hp : p ∈ c.plainProperties) :
    p ∈ c.properties ∧ p.code = p.value := by
  obtain ⟨hp, hplain⟩ := List.mem_filter.mp hp
  exact ⟨hp, p.code_of_isArrow_eq_false (by simpa using hplain)⟩

theorem tally_static {p : Property} (h : c.KeepsHashes) (hp : p ∈ c.staticProperties) :
    tally '#' .start (p.staticProcedure c.name).body = tally '#' .start p.code := by
  obtain ⟨hp, hcode⟩ := code_of_mem_plainProperties (List.mem_filter.mp hp).1
  rw [← tally_property h hp, hcode]
  rfl

theorem tally_procedures (hc : c ∈ scan source) (h : c.KeepsHashes) :
    (∀ p ∈ c.procedures, tally '#' .start p.body = 0) ↔ ∀ t ∈ c.codes, tally '#' .start t = 0 := by
  have hmethods : (∀ m ∈ c.methods, tally '#' .start (m.procedure c.name).body = 0) ↔
      ∀ m ∈ c.methods, tally '#' .start m.body = 0 := forall₂_congr fun m hm => by
    rw [tally_method h hm]
  have hstatics : (∀ p ∈ c.staticProperties, tally '#' .start (p.staticProcedure c.name).body = 0) ↔
      ∀ p ∈ c.staticProperties, tally '#' .start p.code = 0 := forall₂_congr fun p hp => by
    rw [tally_static h hp]
  have hinstances : (∀ p ∈ c.instanceProperties, tally '#' .start p.value = 0) ↔
      ∀ p ∈ c.instanceProperties, tally '#' .start p.code = 0 := forall₂_congr fun p hp => by
    rw [(code_of_mem_plainProperties (List.mem_filter.mp hp).1).2]
  have harrows : (∀ p ∈ c.arrowProperties, ∀ q ∈ p.procedure? c.name, tally '#' .start q.body = 0) ↔
      ∀ p ∈ c.arrowProperties, tally '#' .start p.code = 0 :=
    forall₂_congr fun p hp => tally_arrow h hp
  rw [forall_mem_procedures, tally_initializerProcedure hc h, hmethods, hstatics, hinstances,
    harrows, forall_mem_codes, forall_mem_properties]
  constructor
  · rintro ⟨⟨hvalues, hinitializer⟩, hmethods, harrows, hstatics⟩
    exact ⟨hinitializer, hmethods, harrows, hstatics, hvalues⟩
  · rintro ⟨hinitializer, hmethods, harrows, hstatics, hvalues⟩
    exact ⟨⟨hvalues, hinitializer⟩, hmethods, harrows, hstatics⟩

theorem continuesIdentifier_of_mem_procedures (hc : c ∈ scan source) :
    ∀ p ∈ c.procedures, ∀ d ∈ p.name, Text.continuesIdentifier d = true := by
  obtain ⟨hmethods, hproperties⟩ := continuesIdentifier_of_mem_scan hc
  refine forall_mem_procedures.mpr ⟨?_, fun m hm => ?_, fun p hp q hq => ?_, fun p hp => ?_⟩
  · rw [Procedure.name, beq_iff_eq.mp c.initializerProcedure_spec.1]
    decide
  · have hname : (m.procedure c.name).name = m.name := by
      rw [Method.procedure, Procedure.name]
      cases m.kind <;> rfl
    rw [hname]
    exact hmethods m hm
  · rw [Procedure.name, (Property.spec_of_procedure? hq).1]
    exact hproperties p (List.mem_filter.mp hp).1
  · exact hproperties p (code_of_mem_plainProperties (List.mem_filter.mp hp).1).1

theorem hash_not_mem_name (hc : c ∈ scan source) :
    (∀ p ∈ c.procedures, '#' ∉ p.name) ∧ ∀ p ∈ c.properties, '#' ∉ p.name := by
  have hforeign : ∀ name : Text, (∀ d ∈ name, Text.continuesIdentifier d = true) → '#' ∉ name :=
    fun name hname hmem => absurd (hname _ hmem) (by decide)
  exact ⟨fun p hp => hforeign _ (continuesIdentifier_of_mem_procedures hc p hp),
    fun p hp => hforeign _ ((continuesIdentifier_of_mem_scan hc).2 p hp)⟩

theorem hash_not_mem_params (h : ∀ t ∈ c.parameterLists, '#' ∉ t) :
    ∀ p ∈ c.procedures, ∀ n ∈ p.params, '#' ∉ n := by
  have hlist : ∀ t ∈ c.parameterLists, ∀ n ∈ Procedure.parameterTexts t, '#' ∉ n :=
    fun t ht => hash_not_mem_parameterTexts (h t ht)
  have hmethod : ∀ m ∈ c.initializer.toList ++ c.methods, m.params ∈ c.parameterLists :=
    fun m hm => List.mem_append_left _ (List.mem_map_of_mem hm)
  refine forall_mem_procedures.mpr ⟨?_, fun m hm => ?_, fun p hp q hq => ?_, fun p hp n hn => ?_⟩
  · rw [initializerProcedure]
    cases hinit : c.initializer with
    | none => intro n hn; cases hn
    | some m => exact hlist _ (hmethod m (List.mem_append_left _ (by simp [hinit])))
  · exact hlist _ (hmethod m (List.mem_append_right _ hm))
  · simp only [Property.procedure?, Option.bind_eq_bind, Option.mem_def, Option.bind_eq_some_iff] at hq
    obtain ⟨header, hheader, block, -, hvalue⟩ := hq
    rw [← Option.some.inj hvalue]
    refine hlist _ (List.mem_append_right _ (List.mem_filterMap.mpr
      ⟨p, (List.mem_filter.mp hp).1, ?_⟩))
    rw [hheader]
    rfl
  · cases hn

/-- A private member is defined without its hash, and referred to with it: every hash in the code of
a method stays, and the code of the procedures is free of hashes exactly if the code of the class
is. -/
theorem privateNames_procedures (hc : c ∈ scan source) :
    (∀ p ∈ c.procedures, '#' ∉ p.name) ∧ (∀ p ∈ c.properties, '#' ∉ p.name) ∧
      (∀ m ∈ c.methods, m.procedure c.name ∈ c.procedures ∧ (Procedure.Keeps '#' m.body →
        tally '#' .start (m.procedure c.name).body = tally '#' .start m.body)) ∧
      ((∀ t ∈ c.parameterLists, '#' ∉ t) → ∀ p ∈ c.procedures, ∀ n ∈ p.params, '#' ∉ n) ∧
      (c.KeepsHashes →
        ((∀ p ∈ c.procedures, IsInLiterals '#' p.body) ↔ ∀ t ∈ c.codes, IsInLiterals '#' t)) := by
  obtain ⟨hnames, hproperties⟩ := hash_not_mem_name hc
  refine ⟨hnames, hproperties, fun m hm => ⟨procedure_mem_procedures hm,
    Procedure.tally_rewriteBody isInert_hash⟩, hash_not_mem_params, fun h => ?_⟩
  simp only [← tally_eq_zero_iff isInert_hash.quiet isInert_hash.ne_lineFeed]
  exact tally_procedures hc h

def gaugeSource : Text :=
  "class Gauge \x7b\n  #level = 1;\n  #color = '#fff';\n  constructor(max) \x7b\n" ++
    "    this.#level = max;\n  \x7d\n  #step(n: number) \x7b return this.#level + n; \x7d\n" ++
    "  draw(ctx) \x7b\n    const next: number = this.#step(1);\n    ctx.fillStyle = '#000';\n" ++
    "  \x7d\n\x7d\n"

def gauge : ClassBlock where
  name := "Gauge"
  parent := none
  span := ⟨0, 229⟩
  properties := [⟨"level", "1", false, ⟨16, 26⟩⟩, ⟨"color", "'#fff'", false, ⟨30, 45⟩⟩]
  initializer := some ⟨"constructor", .plain, false, "max", "\n    this.#level = max;\n  ", ⟨49, 94⟩⟩
  methods := [
    ⟨"step", .plain, false, "n: number", " return this.#level + n; ", ⟨97, 141⟩⟩,
    ⟨"draw", .plain, false, "ctx",
      "\n    const next: number = this.#step(1);\n    ctx.fillStyle = '#000';\n  ", ⟨144, 227⟩⟩]

theorem keepsHashes_gauge : gauge.KeepsHashes where
  codes := by
    have hcheck : ∀ t ∈ gauge.codes, escapesLineEnd .start t = false ∧
        (leadAfter? .start .far (Procedure.normalizeIndentation t)).isSome = true ∧
        Procedure.rewriteBody t = Substitution.applyAll (Procedure.normalizeIndentation t) ∧
        ∀ w ∈ Substitution.replacedBy Substitution.all (Procedure.normalizeIndentation t),
          '#' ∉ w := by
      decide +kernel
    intro t ht
    obtain ⟨hends, hcasts, harrows, hreplaced⟩ := hcheck t ht
    exact .of_no_arrow hends (castsApart_of_leadAfter? hcasts) harrows hreplaced
  parameters := by decide +kernel
  lines := by decide +kernel
  superCalls := by decide +kernel

/-- The methods `#step` and `draw` are defined as `step` and `draw`, and still refer to `#level` and
`#step`. -/
theorem privateNames_procedures_gauge :
    gauge ∈ scan gaugeSource ∧ (∀ t ∈ gauge.parameterLists, '#' ∉ t) ∧ gauge.KeepsHashes ∧
      (∀ p ∈ gauge.procedures, '#' ∉ p.name ∧ ∀ n ∈ p.params, '#' ∉ n) ∧
      (gauge.methods.map fun m => tally '#' .start (m.procedure gauge.name).body) = [1, 1] ∧
      ¬ ∀ p ∈ gauge.procedures, IsInLiterals '#' p.body := by
  have hclass : gauge ∈ scan gaugeSource := by decide +kernel
  have hlists : ∀ t ∈ gauge.parameterLists, '#' ∉ t := by decide +kernel
  obtain ⟨hnames, -, hmethods, hparams, hiff⟩ := privateNames_procedures hclass
  refine ⟨hclass, hlists, keepsHashes_gauge, fun p hp => ⟨hnames p hp, hparams hlists p hp⟩, ?_, ?_⟩
  · have hkept : (gauge.methods.map fun m => tally '#' .start (m.procedure gauge.name).body) =
        gauge.methods.map fun m => tally '#' .start m.body := List.map_congr_left fun m hm =>
      (hmethods m hm).2 (keepsHashes_gauge.codes _ (mem_codes.mpr (.inr (.inl ⟨m, hm, rfl⟩))))
    rw [hkept]
    decide +kernel
  · rw [hiff keepsHashes_gauge]
    simp only [← tally_eq_zero_iff isInert_hash.quiet isInert_hash.ne_lineFeed]
    decide +kernel

end ClassBlock

end CanvasPage
