import CanvasPage.ClassBlock.Scan
import CanvasPage.Descriptor.Basic
import CanvasPage.Proofs.Procedure.Owners

namespace CanvasPage

open Script

theorem Property.isSome_procedure? (p : Property) (owner : Text) :
    (p.procedure? owner).isSome = true ↔
      ∃ o ∈ arrowValue.atStart? p.value, (Bracket.brace.enclosed? o.stop.after).isSome = true := by
  rw [procedure?]
  cases arrowValue.atStart? p.value with
  | none => simp
  | some o => cases hblock : Bracket.brace.enclosed? o.stop.after <;> simp [hblock]

theorem Property.isArrow_of_isSome_procedure? {p : Property} {owner : Text}
    (h : (p.procedure? owner).isSome = true) : p.isArrow = true := by
  obtain ⟨o, ho, -⟩ := (p.isSome_procedure? owner).mp h
  rw [isArrow, Option.mem_def.mp ho]
  rfl

theorem Property.spec_of_procedure? {p : Property} {owner : Text} {procedure : Procedure}
    (h : p.procedure? owner = some procedure) :
    procedure.kind = .method p.name ∧ procedure.isStatic = p.isStatic := by
  simp only [procedure?, Option.bind_eq_bind, Option.bind_eq_some_iff] at h
  obtain ⟨header, -, block, -, hvalue⟩ := h
  rw [← Option.some.inj hvalue]
  exact ⟨rfl, rfl⟩

theorem Method.kind_procedure (m : Method) (owner name : Text) :
    (m.procedure owner).kind = .method name ↔ m.kind = .plain ∧ m.name = name := by
  rw [procedure]
  cases m.kind with
  | plain => simp
  | getter => simp
  | setter => simp

theorem Descriptor.ownerDefines_iff (d : Descriptor) (owner name : Text) :
    d.ownerDefines owner name = true ↔
      ∃ p ∈ d.procedures, p.owner = owner ∧ p.isStatic = false ∧ p.kind = .method name := by
  simp [ownerDefines, proceduresOf]

namespace ClassBlock

variable (c : ClassBlock) {name : Text}

/-- Has an instance of the class a method of this name? It is declared as one, or as a property
whose value is an arrow function with a block that is closed. -/
def ProvidesMethod (name : Text) : Prop :=
  (∃ m ∈ c.methods, m.name = name ∧ m.kind = .plain ∧ m.isStatic = false) ∨
    ∃ p ∈ c.properties, p.name = name ∧ p.isStatic = false ∧
      ∃ o ∈ arrowValue.atStart? p.value, (Bracket.brace.enclosed? o.stop.after).isSome = true

variable {c}

theorem ProvidesMethod.defines (h : c.ProvidesMethod name) : c.defines name = true := by
  rw [ClassBlock.defines, Bool.or_eq_true, List.any_eq_true, List.any_eq_true]
  rcases h with ⟨m, hm, hname, -⟩ | ⟨p, hp, hname, -⟩
  · exact .inl ⟨m, hm, beq_iff_eq.mpr hname⟩
  · exact .inr ⟨p, hp, beq_iff_eq.mpr hname⟩

theorem mem_procedures {p : Procedure} :
    p ∈ c.procedures ↔ p = c.initializerProcedure ∨ ∃ start, (start, p) ∈ c.memberProcedures := by
  rw [procedures, List.mem_cons, List.mem_map]
  refine or_congr_right ⟨?_, ?_⟩
  · rintro ⟨⟨start, p⟩, hx, rfl⟩
    exact ⟨start, (sortByStart_perm _).subset hx⟩
  · rintro ⟨start, hx⟩
    exact ⟨(start, p), (sortByStart_perm _).symm.subset hx, rfl⟩

theorem procedure_mem_procedures {m : Method} (hm : m ∈ c.methods) :
    m.procedure c.name ∈ c.procedures := by
  have hmem : (m.span.start, m.procedure c.name) ∈ c.memberProcedures :=
    List.mem_append_left _ (List.mem_append_left _ (List.mem_map_of_mem hm))
  exact mem_procedures.mpr (.inr ⟨_, hmem⟩)

theorem providesMethod_iff :
    c.ProvidesMethod name ↔
      ∃ p ∈ c.procedures, p.owner = c.name ∧ p.isStatic = false ∧ p.kind = .method name := by
  constructor
  · rintro (⟨m, hm, hname, hkind, hstatic⟩ | ⟨p, hp, hname, hstatic, hvalue⟩)
    · exact ⟨m.procedure c.name, procedure_mem_procedures hm, rfl, hstatic,
        (m.kind_procedure c.name name).mpr ⟨hkind, hname⟩⟩
    · have hsome := (p.isSome_procedure? c.name).mpr hvalue
      obtain ⟨q, hq⟩ := Option.isSome_iff_exists.mp hsome
      have hmem : (p.span.start, q) ∈ c.memberProcedures := by
        refine List.mem_append_left _ (List.mem_append_right _ (List.mem_filterMap.mpr ⟨p, ?_, ?_⟩))
        · exact List.mem_filter.mpr ⟨hp, Property.isArrow_of_isSome_procedure? hsome⟩
        · rw [hq]
          rfl
      obtain ⟨hkind, hsame⟩ := Property.spec_of_procedure? hq
      exact ⟨q, mem_procedures.mpr (.inr ⟨_, hmem⟩), Property.owner_of_procedure? hq,
        hsame.trans hstatic, hname ▸ hkind⟩
  · rintro ⟨q, hq, -, hstatic, hkind⟩
    rcases mem_procedures.mp hq with rfl | ⟨start, hmem⟩
    · have hinit := c.initializerProcedure_spec.1
      rw [Procedure.isInitializer, hkind] at hinit
      cases hinit
    rcases List.mem_append.mp hmem with hmem | hmem
    · rcases List.mem_append.mp hmem with hmem | hmem
      · obtain ⟨m, hm, heq⟩ := List.mem_map.mp hmem
        obtain ⟨-, rfl⟩ := Prod.mk.inj heq
        obtain ⟨hplain, hname⟩ := (m.kind_procedure c.name name).mp hkind
        exact .inl ⟨m, hm, hname, hplain, hstatic⟩
      · obtain ⟨p, hp, heq⟩ := List.mem_filterMap.mp hmem
        obtain ⟨procedure, hprocedure, heq⟩ := Option.map_eq_some_iff.mp heq
        obtain ⟨-, rfl⟩ := Prod.mk.inj heq
        obtain ⟨hkind', hsame⟩ := Property.spec_of_procedure? hprocedure
        have hname := ProcedureKind.method.inj (hkind'.symm.trans hkind)
        have hvalue := (p.isSome_procedure? c.name).mp (Option.isSome_iff_exists.mpr ⟨_, hprocedure⟩)
        exact .inr ⟨p, (List.mem_filter.mp hp).1, hname, hsame ▸ hstatic, hvalue⟩
    · obtain ⟨p, -, heq⟩ := List.mem_map.mp hmem
      obtain ⟨-, rfl⟩ := Prod.mk.inj heq
      cases hkind

theorem ownerDefines_iff_providesMethod {d : Descriptor} (hd : d.procedures = c.procedures) :
    d.ownerDefines c.name name = true ↔ c.ProvidesMethod name := by
  rw [d.ownerDefines_iff, providesMethod_iff, hd]

theorem lines_body_initializerProcedure (hinit : c.initializer = none)
    (hplain : c.instanceProperties = []) :
    Text.lines c.initializerProcedure.body = c.defaultLines := by
  have hbody : c.initializerProcedure.body = Text.join "\n" c.defaultLines := by
    rw [initializerProcedure, hinit, hplain]
    rfl
  rw [hbody, defaultLines]
  cases c.defines "initialize" with
  | false => rfl
  | true => rfl

theorem mem_defaultLines_iff :
    ("this.initialize();" : Text) ∈ c.defaultLines ↔ c.defines "initialize" = true := by
  rw [defaultLines]
  cases c.defines "initialize" with
  | false => decide
  | true => decide

/-- A class without a constructor and without properties is given a call of `initialize` that its
procedures can answer, unless every member of that name is static, an accessor, or a function whose
block stays open. -/
theorem initialize_mem_lines_iff_ownerDefines (hinit : c.initializer = none)
    (hplain : c.instanceProperties = []) {d : Descriptor} (hd : d.procedures = c.procedures) :
    (("this.initialize();" : Text) ∈ Text.lines c.initializerProcedure.body ↔
        d.ownerDefines c.name "initialize" = true) ↔
      (c.defines "initialize" = true → c.ProvidesMethod "initialize") := by
  rw [lines_body_initializerProcedure hinit hplain, mem_defaultLines_iff,
    ownerDefines_iff_providesMethod hd]
  exact ⟨fun h => h.mp, fun h => ⟨h, ProvidesMethod.defines⟩⟩

def dialText : Text := "class Dial \x7b static n = 1; initialize() \x7b \x7d \x7d"

def dial : ClassBlock :=
  { name := "Dial", parent := none, span := ⟨0, 45⟩
    properties := [⟨"n", "1", true, ⟨13, 25⟩⟩]
    initializer := none
    methods := [⟨"initialize", .plain, false, "", " ", ⟨27, 43⟩⟩] }

def dialDescriptor : Descriptor :=
  { name := "Dial", canvasWidth := 400, canvasHeight := 300, backgroundColor := "#fff"
    canvasId := "dial", scriptReference := none, procedures := dial.procedures }

theorem initialize_mem_lines_iff_ownerDefines_dial :
    scan dialText = [dial] ∧ dial.initializer = none ∧ dial.instanceProperties = [] ∧
      dialDescriptor.procedures = dial.procedures ∧
      ((("this.initialize();" : Text) ∈ Text.lines dial.initializerProcedure.body ↔
          dialDescriptor.ownerDefines dial.name "initialize" = true) ↔
        (dial.defines "initialize" = true → dial.ProvidesMethod "initialize")) :=
  have hplain : dial.instanceProperties = [] := by decide
  ⟨by decide +kernel, rfl, hplain, rfl, initialize_mem_lines_iff_ownerDefines rfl hplain rfl⟩

end ClassBlock

end CanvasPage
