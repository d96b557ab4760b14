import CanvasPage.Proofs.ClassBlock.Scan
import CanvasPage.Proofs.Procedure.Body
import CanvasPage.Proofs.Procedure.Owners

namespace CanvasPage

/-- A method as it is written in a class whose members have no types: `margin` spaces stand before
every line of its body. -/
structure PlainMethod where
  name : Text
  params : List Text
  lines : List Text
  margin : Nat

namespace PlainMethod

open Script Procedure

def rawBody (m : PlainMethod) : Text := '\n' :: Page.unlines (m.lines.map (spaces m.margin ++ ·))

def method (m : PlainMethod) : Method :=
  { name := m.name, kind := .plain, isStatic := false, params := Text.join ", " m.params
    body := m.rawBody, span := ⟨0, 0⟩ }

structure IsPlain (m : PlainMethod) : Prop where
  name : Text.isIdentifier m.name = true
  not_initializer : m.name ≠ "constructor"
  name_not_mem : m.name ∉ Member.notMethodNames
  params : ∀ p ∈ m.params, Text.isIdentifier p = true
  body : IsPlainBody m.lines

def procedure (owner : Text) (m : PlainMethod) : Procedure :=
  .method owner m.name m.params (Text.join "\n" m.lines)

def classText (name : Text) (ms : List PlainMethod) : ClassText :=
  ⟨name, ms.map fun m => .method m.method⟩

variable {m : PlainMethod} {ms : List PlainMethod} {name : Text}

theorem isPlain_of_mem_join {ts : List Text} (hts : ∀ t ∈ ts, Text.isIdentifier t = true) :
    ∀ c ∈ Text.join ", " ts, isPlain c = true := by
  have hnames : ∀ t ∈ ts, ∀ c ∈ t, isPlain c = true := fun t ht c hc =>
    isPlain_of_continuesIdentifier (Text.continuesIdentifier_of_isIdentifier (hts t ht) c hc)
  induction ts with
  | nil => simp [Text.join]
  | cons t ts ih =>
    cases ts with
    | nil => exact hnames t (by simp)
    | cons u us =>
      have hcomma : ∀ c ∈ (", " : Text), isPlain c = true := by decide
      rw [Text.join_cons_cons]
      intro c hc
      rcases List.mem_append.mp hc with hc | hc
      · exact hnames t (by simp) c hc
      · rcases List.mem_append.mp hc with hc | hc
        · exact hcomma c hc
        · exact ih (fun v hv => hts v (by simp [hv])) (fun v hv => hnames v (by simp [hv])) c hc

theorem isPrintable_method (hm : m.IsPlain) : m.method.IsPrintable where
  name := hm.name
  name_not_mem := hm.name_not_mem
  params := isClosed_of_neutral (neutral_of_isPlain rfl (isPlain_of_mem_join hm.params))
  body := isClosed_indented hm.body.closed m.margin

theorem isPrintable_classText (hname : Text.isIdentifier name = true)
    (hms : ∀ m ∈ ms, m.IsPlain) : (classText name ms).IsPrintable := by
  refine ⟨hname, fun n hn => ?_⟩
  obtain ⟨m, hm, rfl⟩ := List.mem_map.mp hn
  exact isPrintable_method (hms m hm)

theorem procedure_method (hm : m.IsPlain) (owner : Text) :
    m.method.procedure owner = m.procedure owner := by
  have hparams : parameterTexts m.method.params = m.params :=
    Parameter.textsWith_join hm.params rewriteBody
  have hbody : rewriteBody m.method.body = Text.join "\n" m.lines :=
    rewriteBody_indented hm.body m.margin
  rw [Method.procedure, hparams, hbody]
  rfl

end PlainMethod

namespace ClassBlock

variable {c : ClassText} {span : Span} {offset : Nat}

theorem sortByStart_of_pairwise {xs : List (Nat × Procedure)}
    (h : xs.Pairwise (·.1 ≤ ·.1)) : sortByStart xs = xs := by
  induction xs with
  | nil => rfl
  | cons x xs ih =>
    obtain ⟨hx, hxs⟩ := List.pairwise_cons.mp h
    have hsorted : sortByStart (x :: xs) = insertByStart x (sortByStart xs) := rfl
    rw [hsorted, ih hxs]
    cases xs with
    | nil => rfl
    | cons y ys => rw [insertByStart, if_pos (hx y (by simp))]

theorem methods_placed (hc : c.IsPrintable) (span : Span) (offset : Nat) :
    (placed c span offset).methods.map Method.unplaced =
      (c.methods.filter (!isInitializer ·)).map Method.unplaced := by
  have hblock := congrArg ClassBlock.methods (unplaced_placed hc span offset)
  exact hblock

theorem pairwise_methods_placed (hc : c.IsPrintable) (span : Span) (offset : Nat) :
    (placed c span offset).methods.Pairwise (·.span.start ≤ ·.span.start) := by
  refine List.Pairwise.filter _ (List.pairwise_filterMap.mpr ?_)
  refine (Member.pairwise_scanFrom_members hc.members offset).1.imp fun {m n} hle x hx y hy => ?_
  cases m with
  | property p => cases hx
  | method m =>
    cases n with
    | property p => cases hy
    | method n =>
      cases hx
      cases hy
      exact hle

theorem memberProcedures_placed (hc : c.IsPrintable)
    (hproperties : (placed c span offset).properties = []) :
    (sortByStart (placed c span offset).memberProcedures).map (·.2) =
      (c.methods.filter (!isInitializer ·)).map (Method.procedure c.name) := by
  have hmembers : (placed c span offset).memberProcedures =
      (placed c span offset).methods.map fun m => (m.span.start, m.procedure c.name) := by
    rw [memberProcedures, arrowProperties, staticProperties, plainProperties, hproperties]
    simp only [List.filter_nil, List.filterMap_nil, List.map_nil, List.append_nil]
    rfl
  have hsorted : ((placed c span offset).methods.map fun m =>
      (m.span.start, m.procedure c.name)).Pairwise (·.1 ≤ ·.1) :=
    List.pairwise_map.mpr (pairwise_methods_placed hc span offset)
  have hunplaced : Method.procedure c.name ∘ Method.unplaced = Method.procedure c.name := rfl
  rw [hmembers, sortByStart_of_pairwise hsorted, List.map_map]
  have hmethods := congrArg (List.map (Method.procedure c.name)) (methods_placed hc span offset)
  rwa [List.map_map, List.map_map, hunplaced] at hmethods

end ClassBlock

namespace PlainMethod

open ClassBlock

variable {ms : List PlainMethod} {name : Text}

theorem methods_classText (hms : ∀ m ∈ ms, m.IsPlain) :
    (classText name ms).methods.filter (!isInitializer ·) = ms.map method := by
  have hmethods : (classText name ms).methods = ms.map method := by
    rw [ClassText.methods, classText, List.filterMap_map]
    exact congrFun (List.filterMap_eq_map (f := method)) ms
  rw [hmethods, List.filter_eq_self]
  intro n hn
  obtain ⟨m, hm, rfl⟩ := List.mem_map.mp hn
  have hne : (m.name == ("constructor" : Text)) = false :=
    beq_false_of_ne (hms m hm).not_initializer
  rw [isInitializer, method, hne]
  rfl

theorem properties_placed (hname : Text.isIdentifier name = true) (hms : ∀ m ∈ ms, m.IsPlain)
    (span : Span) (offset : Nat) : (placed (classText name ms) span offset).properties = [] := by
  have hblock := congrArg ClassBlock.properties
    (unplaced_placed (isPrintable_classText hname hms) span offset)
  have hnone : (classText name ms).members.filterMap Member.property? = [] := by
    rw [classText, List.filterMap_map]
    exact List.filterMap_eq_nil_iff.mpr fun _ _ => rfl
  rw [ClassText.block, ClassBlock.unplaced, hnone] at hblock
  exact List.map_eq_nil_iff.mp hblock

theorem procedures_placed (hname : Text.isIdentifier name = true) (hms : ∀ m ∈ ms, m.IsPlain)
    (span : Span) (offset : Nat) :
    ∃ initial, initial.isInitializer = true ∧ initial.owner = name ∧
      (placed (classText name ms) span offset).procedures =
        initial :: ms.map (procedure name) := by
  obtain ⟨hkind, howner⟩ := (placed (classText name ms) span offset).initializerProcedure_spec
  have hmembers := memberProcedures_placed (isPrintable_classText hname hms)
    (properties_placed hname hms span offset)
  have hprocedures : ∀ m ∈ ms, (Method.procedure name ∘ method) m = procedure name m :=
    fun m hm => procedure_method (hms m hm) name
  refine ⟨_, hkind, howner, ?_⟩
  rw [ClassBlock.procedures, hmembers, methods_classText hms, List.map_map]
  exact congrArg _ (List.map_congr_left hprocedures)

end PlainMethod

end CanvasPage
