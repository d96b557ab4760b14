import CanvasPage.Proofs.ClassBlock.Placed
import CanvasPage.Proofs.Procedure.Owners
import Mathlib.Data.List.Sort

namespace CanvasPage

open Script Procedure

namespace ClassBlock

variable {x : Nat × Procedure} {xs ys : List (Nat × Procedure)}

theorem pairwise_insertByStart (x : Nat × Procedure) (h : xs.Pairwise (·.1 ≤ ·.1)) :
    (insertByStart x xs).Pairwise (·.1 ≤ ·.1) := by
  fun_induction insertByStart x xs with
  | case1 => exact List.pairwise_singleton _ _
  | case2 y ys hle =>
    refine List.pairwise_cons.mpr ⟨fun z hz => ?_, h⟩
    rcases List.mem_cons.mp hz with rfl | hz
    · exact hle
    · exact Nat.le_trans hle ((List.pairwise_cons.mp h).1 z hz)
  | case3 y ys hlt ih =>
    obtain ⟨hy, hys⟩ := List.pairwise_cons.mp h
    refine List.pairwise_cons.mpr ⟨fun z hz => ?_, ih hys⟩
    rcases List.mem_cons.mp ((insertByStart_perm x ys).subset hz) with rfl | hz
    · exact Nat.le_of_not_le hlt
    · exact hy z hz

theorem pairwise_sortByStart (xs : List (Nat × Procedure)) :
    (sortByStart xs).Pairwise (·.1 ≤ ·.1) := by
  induction xs with
  | nil => exact .nil
  | cons x xs ih => exact pairwise_insertByStart x ih

theorem sortByStart_eq_of_perm (h : xs.Perm ys) (hys : ys.Pairwise (·.1 < ·.1)) :
    sortByStart xs = ys := by
  have hperm := (sortByStart_perm xs).trans h
  refine hperm.eq_of_pairwise ?_ (pairwise_sortByStart xs) (hys.imp Nat.le_of_lt)
  intro a b ha hb hab hba
  by_contra hne
  have hdistinct : ys.Pairwise (·.1 ≠ ·.1) := hys.imp Nat.ne_of_lt
  have hsymm : Std.Symm fun a b : Nat × Procedure => a.1 ≠ b.1 := ⟨fun _ _ => Ne.symm⟩
  exact hdistinct.forall (hperm.subset ha) hb hne (Nat.le_antisymm hab hba)

theorem filterMap_method?_filter (ms : List Member) :
    (ms.filter fun m => !m.method?.any isInitializer).filterMap Member.method? =
      (ms.filterMap Member.method?).filter (!isInitializer ·) := by
  rw [List.filter_filterMap, List.filterMap_filter]
  refine List.filterMap_congr fun m _ => ?_
  cases m with
  | property p => rfl
  | method m => cases h : isInitializer m <;> simp [Member.method?, Option.filter, h]

theorem filterMap_property?_filter (ms : List Member) :
    (ms.filter fun m => !m.method?.any isInitializer).filterMap Member.property? =
      ms.filterMap Member.property? := by
  rw [List.filterMap_filter]
  refine List.filterMap_congr fun m _ => ?_
  cases m with
  | property p => rfl
  | method m => exact ite_self none

theorem exists_members {source : Text} {c : ClassBlock} (hc : c ∈ scan source) :
    ∃ ms : List Member, ms.filterMap Member.method? = c.methods ∧
      ms.filterMap Member.property? = c.properties ∧
      (ms.map Member.span).Pairwise Span.Precedes := by
  obtain ⟨before, body, hmembers⟩ := exists_members_of_mem_scan hc
  obtain ⟨ms, hmembers, hordered⟩ : ∃ ms, c = ofMembers c.name c.parent c.span ms ∧
      (ms.map Member.span).Pairwise Span.Precedes :=
    ⟨_, hmembers, (Member.laid_scanFrom before body).pairwise⟩
  refine ⟨ms.filter fun m => !m.method?.any isInitializer, ?_, ?_,
    hordered.sublist (List.filter_sublist.map _)⟩
  · rw [hmembers, filterMap_method?_filter]
    rfl
  · rw [hmembers, filterMap_property?_filter]
    rfl

end ClassBlock

/-- The brace that opens the block of an arrow function is closed in the value. -/
def Property.IsClosedArrow (p : Property) : Prop :=
  ∀ header ∈ arrowValue.atStart? p.value, (Bracket.brace.enclosed? header.stop.after).isSome = true

instance (p : Property) : Decidable p.IsClosedArrow :=
  inferInstanceAs (Decidable (∀ header ∈ _, _))

def MethodKind.procedureKind (name : Text) : MethodKind → ProcedureKind
  | plain => .method name
  | getter => .getter name
  | setter => .setter name

namespace Member

/-- Does a member become a procedure of its own? The others are left to the constructor. -/
def standsAlone : Member → Bool
  | method _ => true
  | property p => p.isArrow || p.isStatic

/-- The procedure that a member on its own becomes. -/
inductive Becomes (owner : Text) : Member → Procedure → Prop where
  | method (m : Method) : Becomes owner (method m)
      { owner, kind := m.kind.procedureKind m.name, isStatic := m.isStatic
        params := parameterTexts m.params, body := rewriteBody m.body }
  | arrow {p : Property} {header : Occurrence} {block rest : Text}
      (hheader : arrowValue.atStart? p.value = some header)
      (hblock : Bracket.brace.enclosed? header.stop.after = some (block, rest)) :
      Becomes owner (property p)
        { owner, kind := .method p.name, isStatic := p.isStatic
          params := parameterTexts (header.groupText 1), body := rewriteBody block }
  | staticValue {p : Property} (harrow : p.isArrow = false) (hstatic : p.isStatic = true) :
      Becomes owner (property p)
        { owner, kind := .staticValue p.name, isStatic := true, params := []
          body := rewriteBody p.value }

def alone? (owner : Text) : Member → Option Procedure
  | method m => some (m.procedure owner)
  | property p =>
      if p.isArrow then p.procedure? owner
      else if p.isStatic then some (p.staticProcedure owner)
      else none

variable {owner : Text} {ms : List Member}

theorem Becomes.spec {m : Member} {q : Procedure} (h : m.Becomes owner q) :
    q.owner = owner ∧ q.isInitializer = false := by
  cases h with
  | method m => exact ⟨rfl, by rw [isInitializer]; cases m.kind <;> rfl⟩
  | arrow | staticValue => exact ⟨rfl, rfl⟩

theorem exists_becomes {qs : List Procedure} (h : List.Forall₂ (Becomes owner) ms qs) :
    ∀ q ∈ qs, ∃ m : Member, m.Becomes owner q := by
  induction h with
  | nil => simp
  | cons hm _ ih => exact List.forall_mem_cons.mpr ⟨⟨_, hm⟩, ih⟩

theorem becomes_procedure (owner : Text) (m : Method) :
    (method m).Becomes owner (m.procedure owner) := by
  have h : (method m).Becomes owner _ := .method m
  rw [Method.procedure]
  revert h
  cases m.kind <;> exact id

theorem exists_procedure? (owner : Text) {p : Property} (harrow : p.isArrow = true)
    (hp : p.IsClosedArrow) :
    ∃ q, p.procedure? owner = some q ∧ (property p).Becomes owner q := by
  obtain ⟨header, hheader⟩ := Option.isSome_iff_exists.mp harrow
  obtain ⟨⟨block, rest⟩, hblock⟩ := Option.isSome_iff_exists.mp (hp header hheader)
  refine ⟨_, ?_, .arrow hheader hblock⟩
  simp only [Property.procedure?, hheader, hblock, Option.bind_eq_bind, Option.bind_some]
  rfl

theorem forall₂_becomes (owner : Text) (hms : ∀ p, property p ∈ ms → p.IsClosedArrow) :
    List.Forall₂ (Becomes owner) (ms.filter standsAlone) (ms.filterMap (alone? owner)) := by
  induction ms with
  | nil => exact .nil
  | cons m ms ih =>
    have hrest := ih fun p hp => hms p (List.mem_cons_of_mem m hp)
    cases m with
    | method m =>
      have halone : alone? owner (method m) = some (m.procedure owner) := rfl
      rw [List.filter_cons_of_pos rfl, List.filterMap_cons_some halone]
      exact .cons (becomes_procedure owner m) hrest
    | property p =>
      by_cases harrow : p.isArrow = true
      · obtain ⟨q, hq, hbecomes⟩ := exists_procedure? owner harrow (hms p (by simp))
        rw [List.filter_cons_of_pos (by simp [standsAlone, harrow]),
          List.filterMap_cons_some (b := q) (by rw [alone?, if_pos harrow, hq])]
        exact .cons hbecomes hrest
      · by_cases hstatic : p.isStatic = true
        · rw [List.filter_cons_of_pos (by simp [standsAlone, hstatic]),
            List.filterMap_cons_some (b := p.staticProcedure owner)
              (by rw [alone?, if_neg harrow, if_pos hstatic])]
          exact .cons (.staticValue (by simpa using harrow) hstatic) hrest
        · rw [List.filter_cons_of_neg (by simp [standsAlone, harrow, hstatic]),
            List.filterMap_cons_none (by rw [alone?, if_neg harrow, if_neg hstatic])]
          exact hrest

/-- A procedure with the offset that its member starts at. -/
def placed? (owner : Text) (m : Member) : Option (Nat × Procedure) :=
  (m.alone? owner).map fun q => (m.span.start, q)

theorem pairwise_placed? (h : (ms.map span).Pairwise Span.Precedes) :
    (ms.filterMap (placed? owner)).Pairwise (·.1 < ·.1) := by
  refine List.pairwise_filterMap.mpr ((List.pairwise_map.mp h).imp fun {m n} hmn x hx y hy => ?_)
  obtain ⟨_, -, rfl⟩ := Option.map_eq_some_iff.mp hx
  obtain ⟨_, -, rfl⟩ := Option.map_eq_some_iff.mp hy
  exact hmn.1

theorem map_snd_placed? (owner : Text) (ms : List Member) :
    (ms.filterMap (placed? owner)).map (·.2) = ms.filterMap (alone? owner) := by
  rw [List.map_filterMap]
  refine List.filterMap_congr fun m _ => ?_
  rw [placed?, Option.map_map]
  exact Option.map_id'

end Member

namespace ClassBlock

variable {c : ClassBlock} {ms : List Member}

/-- The members are parted by kind, and no member is lost or kept twice. -/
theorem memberProcedures_perm (hmethods : ms.filterMap Member.method? = c.methods)
    (hproperties : ms.filterMap Member.property? = c.properties) :
    c.memberProcedures.Perm (ms.filterMap (Member.placed? c.name)) := by
  rw [memberProcedures, arrowProperties, staticProperties, plainProperties, ← hmethods,
    ← hproperties]
  generalize c.name = owner
  clear hmethods hproperties
  induction ms with
  | nil => exact .refl _
  | cons m ms ih =>
    cases m with
    | method m =>
      exact ih.cons _
    | property p =>
      have hmethod : (Member.property p :: ms).filterMap Member.method? =
          ms.filterMap Member.method? := rfl
      have hproperty : (Member.property p :: ms).filterMap Member.property? =
          p :: ms.filterMap Member.property? := rfl
      rw [hmethod, hproperty]
      by_cases harrow : p.isArrow = true
      · rw [List.filter_cons_of_pos harrow, List.filter_cons_of_neg (by simp [harrow])]
        cases hq : p.procedure? owner with
        | none =>
          rw [List.filterMap_cons_none (by rw [hq]; rfl), List.filterMap_cons_none
            (by rw [Member.placed?, Member.alone?, if_pos harrow, hq]; rfl)]
          exact ih
        | some q =>
          rw [List.filterMap_cons_some (b := (p.span.start, q)) (by rw [hq]; rfl),
            List.filterMap_cons_some (b := (p.span.start, q))
              (by rw [Member.placed?, Member.alone?, if_pos harrow, hq]; rfl)]
          exact (List.perm_middle.append_right _).trans (ih.cons _)
      · rw [List.filter_cons_of_neg harrow, List.filter_cons_of_pos (by simp [harrow])]
        by_cases hstatic : p.isStatic = true
        · rw [List.filter_cons_of_pos hstatic, List.filterMap_cons_some
            (b := (p.span.start, p.staticProcedure owner))
            (by rw [Member.placed?, Member.alone?, if_neg harrow, if_pos hstatic]; rfl)]
          exact List.perm_middle.trans (ih.cons _)
        · rw [List.filter_cons_of_neg hstatic, List.filterMap_cons_none
            (by rw [Member.placed?, Member.alone?, if_neg harrow, if_neg hstatic]; rfl)]
          exact ih

def entry (p : Property) : Text := "this." ++ p.name ++ " = " ++ rewriteBody p.value ++ ";"

/-- The entry of a parameter that is a property too. -/
def parameterEntry (q : Parameter) : Text := "this." ++ q.name ++ " = " ++ q.name ++ ";"

/-- What follows the entries of the properties in the body of the constructor. -/
def statements (c : ClassBlock) : List Text :=
  match c.initializer with
  | some m =>
      ((Parameter.readAll rewriteBody m.params).filter (·.isProperty)).map parameterEntry ++
        (Text.lines (rewriteBody m.body)).filter (!superCall.occursIn ·)
  | none =>
      let call : List Text := if c.defines "initialize" then ["this.initialize();"] else []
      if c.instanceProperties.isEmpty then
        "this.segments = [];" :: "this.segmentCount = 30;" :: "this.width = 100;" :: call
      else []

theorem body_initializerProcedure (c : ClassBlock) :
    c.initializerProcedure.body =
      Text.join "\n" (c.instanceProperties.map entry ++ c.statements) := by
  rw [initializerProcedure, statements]
  cases c.initializer with
  | some m => rfl
  | none =>
    cases c.instanceProperties with
    | nil => rfl
    | cons p ps =>
      dsimp only [List.isEmpty_cons, List.map_cons]
      rw [if_neg Bool.false_ne_true, List.append_nil]
      rfl

/-- A class as procedures: `members` are its methods and properties in source order. Those that
stand alone become the procedures after the first, one each, and the others entries of the first. -/
structure Accounts (c : ClassBlock) (members : List Member) (first : Procedure)
    (rest : List Procedure) : Prop where
  procedures : c.procedures = first :: rest
  methods : members.filterMap Member.method? = c.methods
  properties : members.filterMap Member.property? = c.properties
  ordered : (members.map (·.span.start)).Pairwise (· < ·)
  alone : List.Forall₂ (Member.Becomes c.name) (members.filter Member.standsAlone) rest
  entries : first.body = Text.join "\n"
    (((members.filter (!·.standsAlone)).filterMap Member.property?).map entry ++ c.statements)
  first_initializer : first.isInitializer = true
  rest_initializer : ∀ q ∈ rest, q.isInitializer = false
  owners : ∀ q ∈ first :: rest, q.owner = c.name

theorem instanceProperties_eq (hproperties : ms.filterMap Member.property? = c.properties) :
    c.instanceProperties = (ms.filter (!·.standsAlone)).filterMap Member.property? := by
  rw [instanceProperties, plainProperties, List.filter_filter, ← hproperties, List.filter_filterMap,
    List.filterMap_filter]
  refine List.filterMap_congr fun m _ => ?_
  cases m with
  | method m => rfl
  | property p =>
    cases harrow : p.isArrow <;> cases hstatic : p.isStatic <;>
      simp [Member.property?, Member.standsAlone, harrow, hstatic]

/-- No member of a scanned class is lost and none is kept twice. -/
theorem procedures_accounts {source : Text} (hc : c ∈ scan source)
    (hclosed : ∀ p ∈ c.properties, p.IsClosedArrow) :
    ∃ members first rest, c.Accounts members first rest := by
  obtain ⟨members, hmethods, hproperties, hordered⟩ := exists_members hc
  obtain ⟨hinitializer, howner⟩ := c.initializerProcedure_spec
  have hclosed : ∀ p, Member.property p ∈ members → p.IsClosedArrow := fun p hp =>
    hclosed p (by rw [← hproperties]; exact List.mem_filterMap.mpr ⟨_, hp, rfl⟩)
  have halone := Member.forall₂_becomes c.name hclosed
  have hspec : ∀ q ∈ members.filterMap (Member.alone? c.name),
      q.owner = c.name ∧ q.isInitializer = false := by
    intro q hq
    obtain ⟨m, hm⟩ := Member.exists_becomes halone q hq
    exact hm.spec
  refine ⟨members, c.initializerProcedure, members.filterMap (Member.alone? c.name), ?_, hmethods,
    hproperties, ?_, halone, ?_, hinitializer, fun q hq => (hspec q hq).2, ?_⟩
  · rw [procedures, sortByStart_eq_of_perm (memberProcedures_perm hmethods hproperties)
      (Member.pairwise_placed? hordered), Member.map_snd_placed?]
  · exact List.pairwise_map.mpr ((List.pairwise_map.mp hordered).imp And.left)
  · rw [body_initializerProcedure, instanceProperties_eq hproperties]
  · intro q hq
    rcases List.mem_cons.mp hq with rfl | hq
    · exact howner
    · exact (hspec q hq).1

def pumpText : Text :=
  ("class Pump \x7b\n  static limit = 9;\n  rate = 2;\n" ++
    "  constructor(private id) \x7b this.on = false; \x7d\n" ++
    "  run = (n) => \x7b return n; \x7d;\n  get size() \x7b return 1; \x7d\n\x7d")

def pumpInitializer : Procedure :=
  .initializer "Pump" ["id"] "this.rate = 2;\nthis.id = id;\nthis.on = false;"

def pumpMembers : List Procedure := [
  { owner := "Pump", kind := .staticValue "limit", isStatic := true, params := [], body := "9" },
  .method "Pump" "run" ["n"] "return n;",
  { owner := "Pump", kind := .getter "size", isStatic := false, params := [], body := "return 1;" }]

/-- A class with a member of every kind. -/
theorem procedures_accounts_pumpText : ∃ c ∈ scan pumpText,
    (c.properties.map (·.name) = ["limit", "rate", "run"] ∧ c.initializer.isSome = true ∧
      c.methods.map (·.name) = ["size"]) ∧ (∀ p ∈ c.properties, p.IsClosedArrow) ∧
    ∃ members, c.Accounts members pumpInitializer pumpMembers := by
  have hscan : ∃ c ∈ scan pumpText,
      (c.properties.map (·.name) = ["limit", "rate", "run"] ∧ c.initializer.isSome = true ∧
        c.methods.map (·.name) = ["size"]) ∧ (∀ p ∈ c.properties, p.IsClosedArrow) ∧
      c.procedures = pumpInitializer :: pumpMembers := by
    decide +kernel
  obtain ⟨c, hc, hmembers, hclosed, hprocedures⟩ := hscan
  obtain ⟨members, first, rest, haccounts⟩ := procedures_accounts hc hclosed
  obtain ⟨rfl, rfl⟩ := List.cons.inj (haccounts.procedures.symm.trans hprocedures)
  exact ⟨c, hc, hmembers, hclosed, members, haccounts⟩

end ClassBlock

end CanvasPage
