import CanvasPage.Proofs.Page.Piece
import Mathlib.Data.List.Perm.Basic

open scoped List

namespace CanvasPage

section Regrouping

variable {α β : Type} [BEq α] [LawfulBEq α] {f : β → Option α} {ks : List α} {bs : List β}

theorem flatMap_filter_perm (hks : ks.Nodup) :
    (ks.flatMap fun k => bs.filter (f · == some k)) ~
      (bs.filter fun b => (f b).any ks.contains) := by
  induction ks with
  | nil =>
    rw [List.flatMap_nil, List.filter_eq_nil_iff.mpr fun b _ => by cases f b <;> simp]
  | cons k ks ih =>
    obtain ⟨hk, hks⟩ := List.nodup_cons.mp hks
    have hsplit := List.filter_append_perm (f · == some k)
      (bs.filter fun b => (f b).any (k :: ks).contains)
    have hhead : (bs.filter fun b => (f b).any (k :: ks).contains).filter (f · == some k) =
        bs.filter (f · == some k) := by
      rw [List.filter_filter]
      refine List.filter_congr fun b _ => ?_
      cases hb : f b == some k with
      | false => rfl
      | true => simp [eq_of_beq hb]
    have htail : (bs.filter fun b => (f b).any (k :: ks).contains).filter (!f · == some k) =
        bs.filter fun b => (f b).any ks.contains := by
      rw [List.filter_filter]
      refine List.filter_congr fun b _ => ?_
      cases hb : f b with
      | none => rfl
      | some a =>
        by_cases ha : a = k
        · subst ha
          simp [hk]
        · simp [ha]
    rw [hhead, htail] at hsplit
    exact ((ih hks).append_left _).trans hsplit

theorem flatMap_eraseDups_perm (f : β → Option α) (bs : List β) :
    ((bs.filterMap f).eraseDups.flatMap fun k => bs.filter (f · == some k)) ~
      (bs.filter (f · |>.isSome)) := by
  refine (flatMap_filter_perm (nodup_eraseDups _)).trans (.of_eq (List.filter_congr fun b hb => ?_))
  cases hk : f b with
  | none => rfl
  | some k =>
    have hmem : k ∈ (bs.filterMap f).eraseDups :=
      List.mem_eraseDups.mpr (List.mem_filterMap.mpr ⟨b, hb, hk⟩)
    simpa using hmem

end Regrouping

/-- The property that an accessor has a share in. -/
def Procedure.slot? (p : Procedure) : Option (Text × Bool) :=
  match p.kind with
  | .getter name | .setter name => some (name, p.isStatic)
  | .initializer | .method _ | .staticValue _ => none

namespace Page

variable {p q : Procedure} {ps pre post : List Procedure} {name : Text} {isStatic : Bool}

theorem slot?_of_isAccessor (h : p.isAccessor = true) : p.slot? = some (p.name, p.isStatic) := by
  cases hkind : p.kind <;>
    simp [Procedure.isAccessor, Procedure.slot?, Procedure.name, hkind] at h ⊢

theorem slot?_eq_none (h : p.isAccessor = false) : p.slot? = none := by
  cases hkind : p.kind <;> simp [Procedure.isAccessor, Procedure.slot?, hkind] at h ⊢

theorem isSome_slot? (p : Procedure) : p.slot?.isSome = p.isAccessor := by
  cases h : p.isAccessor with
  | true => rw [slot?_of_isAccessor h]; rfl
  | false => rw [slot?_eq_none h]; rfl

theorem isAccessorOf_eq (name : Text) (isStatic : Bool) (p : Procedure) :
    isAccessorOf name isStatic p = (p.slot? == some (name, isStatic)) := by
  cases h : p.isAccessor with
  | false => rw [slot?_eq_none h, isAccessorOf, h]; rfl
  | true =>
    rw [slot?_of_isAccessor h, isAccessorOf, h, Bool.eq_iff_iff]
    simp [and_comm]

section Leading

theorem filter_leadingMembers (ps : List Procedure) :
    (leadingMembers ps).filter (!·.isAccessor) = ps.filter (!·.isAccessor) := by
  induction ps with
  | nil => rfl
  | cons p ps ih =>
    rw [leadingMembers]
    cases hp : p.isAccessor with
    | false => simp [hp, ih]
    | true =>
      have hall : ∀ q ∈ leadingMembers ps,
          (!q.isAccessor && !isAccessorOf p.name p.isStatic q) = !q.isAccessor := by
        intro q _
        cases hq : q.isAccessor <;> simp [isAccessorOf, hq]
      simp [hp, List.filter_filter, List.filter_congr hall, ih]

theorem filterMap_leadingMembers (ps : List Procedure) :
    (leadingMembers ps).filterMap Procedure.slot? = (ps.filterMap Procedure.slot?).eraseDups := by
  induction ps with
  | nil => rfl
  | cons p ps ih =>
    rw [leadingMembers]
    cases hp : p.isAccessor with
    | false => simp [slot?_eq_none hp, ih]
    | true =>
      have hfilter : ((leadingMembers ps).filter (!isAccessorOf p.name p.isStatic ·)).filterMap
          Procedure.slot? = ((leadingMembers ps).filterMap Procedure.slot?).filter
            (!· == (p.name, p.isStatic)) := by
        rw [List.filterMap_filter, List.filter_filterMap]
        refine List.filterMap_congr fun q _ => ?_
        rw [isAccessorOf_eq]
        cases q.slot? with
        | none => rfl
        | some slot => simp [Option.filter]
      simp only [if_true, List.filterMap_cons, slot?_of_isAccessor hp, List.eraseDups_cons, hfilter,
        ih, eraseDups_filter]

theorem leadingMembers_append_cons (hp : ∀ slot ∈ p.slot?, slot ∉ pre.filterMap Procedure.slot?)
    (post : List Procedure) :
    ∃ rest, leadingMembers (pre ++ p :: post) = leadingMembers pre ++ p :: rest := by
  induction pre with
  | nil =>
    rw [List.nil_append, leadingMembers, leadingMembers]
    split
    · exact ⟨_, rfl⟩
    · exact ⟨_, rfl⟩
  | cons q pre ih =>
    obtain ⟨rest, hrest⟩ := ih fun slot hslot hmem =>
      hp slot hslot (List.mem_filterMap.mpr (by
        obtain ⟨r, hr, heq⟩ := List.mem_filterMap.mp hmem
        exact ⟨r, by simp [hr], heq⟩))
    rw [List.cons_append, leadingMembers, leadingMembers, hrest]
    cases hq : q.isAccessor with
    | false => exact ⟨rest, rfl⟩
    | true =>
      have hother : isAccessorOf q.name q.isStatic p = false := by
        rw [isAccessorOf_eq, beq_eq_false_iff_ne]
        intro hslot
        exact hp _ hslot (List.mem_filterMap.mpr ⟨q, by simp, slot?_of_isAccessor hq⟩)
      refine ⟨rest.filter (!isAccessorOf q.name q.isStatic ·), ?_⟩
      simp [List.filter_append, hother]

end Leading

/-- A part of what is emitted for an owner: a method, a static value, or a property with all its
accessors. -/
inductive Entry where
  | assignment (p : Procedure)
  | value (p : Procedure)
  | property (name : Text) (isStatic : Bool) (accessors : List Procedure)

namespace Entry

def procedures : Entry → List Procedure
  | assignment p | value p => [p]
  | property _ _ accessors => accessors

def single? : Entry → Option Procedure
  | assignment p | value p => some p
  | property _ _ _ => none

def slot? : Entry → Option (Text × Bool)
  | assignment _ | value _ => none
  | property name isStatic _ => some (name, isStatic)

def text (owner : Text) : Entry → Text
  | assignment p => functionWritten "    " (memberStart owner p) ";" p
  | value p => valueWritten owner p
  | property name isStatic accessors =>
      propertyLead owner name isStatic ++
        accessors.flatMap (fun p => functionWritten "        " (accessorKey p ++ ": ") "," p) ++
          propertyEnd

def ofLeading (ps : List Procedure) (p : Procedure) : Entry :=
  match p.kind with
  | .getter _ | .setter _ =>
      property p.name p.isStatic (ps.filter (isAccessorOf p.name p.isStatic))
  | .staticValue _ => value p
  | _ => assignment p

theorem ofLeading_of_isAccessor (ps : List Procedure) (h : p.isAccessor = true) :
    ofLeading ps p =
      property p.name p.isStatic (ps.filter (isAccessorOf p.name p.isStatic)) := by
  unfold ofLeading
  cases hkind : p.kind with
  | getter | setter => rfl
  | initializer | method | staticValue => simp [Procedure.isAccessor, hkind] at h

theorem ofLeading_of_not_isAccessor (ps : List Procedure) (h : p.isAccessor = false) :
    ofLeading ps p = assignment p ∧ (∀ name, p.kind ≠ .staticValue name) ∨
      ofLeading ps p = value p ∧ ∃ name, p.kind = .staticValue name := by
  unfold ofLeading
  cases hkind : p.kind with
  | getter | setter => simp [Procedure.isAccessor, hkind] at h
  | initializer | method => simp
  | staticValue => simp

theorem ofLeading_inversion (ps : List Procedure) (p : Procedure) :
    (∀ q, ofLeading ps p = assignment q →
      q = p ∧ p.isAccessor = false ∧ ∀ name, p.kind ≠ .staticValue name) ∧
    (∀ q, ofLeading ps p = value q → q = p ∧ ∃ name, p.kind = .staticValue name) ∧
    ∀ name isStatic qs, ofLeading ps p = property name isStatic qs →
      qs = ps.filter (isAccessorOf name isStatic) := by
  cases h : p.isAccessor with
  | true =>
    rw [ofLeading_of_isAccessor ps h]
    refine ⟨nofun, nofun, fun name isStatic qs hqs => ?_⟩
    cases hqs
    rfl
  | false =>
    rcases ofLeading_of_not_isAccessor ps h with ⟨heq, hvalue⟩ | ⟨heq, hvalue⟩
    · rw [heq]
      refine ⟨fun q hq => ?_, nofun, nofun⟩
      cases hq
      exact ⟨rfl, rfl, hvalue⟩
    · rw [heq]
      refine ⟨nofun, fun q hq => ?_, nofun⟩
      cases hq
      exact ⟨rfl, hvalue⟩

theorem slot?_ofLeading (ps : List Procedure) (p : Procedure) :
    (ofLeading ps p).slot? = p.slot? := by
  cases h : p.isAccessor with
  | true => rw [ofLeading_of_isAccessor ps h, slot?_of_isAccessor h]; rfl
  | false =>
    rw [slot?_eq_none h]
    rcases ofLeading_of_not_isAccessor ps h with ⟨heq, -⟩ | ⟨heq, -⟩ <;> rw [heq] <;> rfl

theorem single?_ofLeading (ps : List Procedure) (p : Procedure) :
    (ofLeading ps p).single? = Option.guard (!·.isAccessor) p := by
  cases h : p.isAccessor with
  | true => rw [ofLeading_of_isAccessor ps h]; simp [single?, Option.guard, h]
  | false =>
    rcases ofLeading_of_not_isAccessor ps h with ⟨heq, -⟩ | ⟨heq, -⟩ <;> rw [heq] <;>
      simp [single?, Option.guard, h]

theorem text_eq_flatMap (owner : Text) (ps : List Procedure) (p : Procedure) :
    (ofLeading ps p).text owner = (memberPieces owner ps p).flatMap Piece.text := by
  have hproperty : (property p.name p.isStatic (ps.filter (isAccessorOf p.name p.isStatic))).text
      owner = (Piece.plain (propertyLead owner p.name p.isStatic) ::
        ((ps.filter (isAccessorOf p.name p.isStatic)).map accessorPiece ++
          [.plain propertyEnd])).flatMap Piece.text := by
    rw [List.flatMap_cons, List.flatMap_append, List.flatMap_map, List.flatMap_singleton]
    exact List.append_assoc _ _ _
  unfold ofLeading memberPieces
  cases p.kind with
  | getter | setter => exact hproperty
  | staticValue | initializer | method => exact (List.append_nil _).symm

end Entry

theorem memberPieces_congr {all : List Procedure} (owner : Text)
    (hps : ∀ name isStatic, ps.filter (isAccessorOf name isStatic) =
      all.filter (isAccessorOf name isStatic)) (p : Procedure) :
    memberPieces owner ps p = memberPieces owner all p := by
  unfold memberPieces
  rw [hps]

def membersOf (d : Descriptor) (owner : Text) : List Procedure :=
  (d.proceduresOf owner).filter (!·.isInitializer)

def entries (d : Descriptor) (owner : Text) : List Entry :=
  (ownerMembers d owner).map (Entry.ofLeading (membersOf d owner))

/-- The entries `es` emit the procedures `ps`. -/
structure IsGrouping (ps : List Procedure) (es : List Entry) : Prop where
  once : es.flatMap Entry.procedures ~ ps
  methods : ∀ p, .assignment p ∈ es → ∃ name, p.kind = .method name
  values : ∀ p, .value p ∈ es → ∃ name, p.kind = .staticValue name
  accessors : ∀ name isStatic qs, .property name isStatic qs ∈ es →
    qs = ps.filter (·.slot? == some (name, isStatic))
  slots : es.filterMap Entry.slot? = (ps.filterMap Procedure.slot?).eraseDups
  singles : es.filterMap Entry.single? = ps.filter (!·.isAccessor)
  /-- An entry stands where the first of its procedures does. -/
  places : ∀ pre p post, ps = pre ++ p :: post →
    (∀ slot ∈ p.slot?, slot ∉ pre.filterMap Procedure.slot?) →
    ∃ es₁ e es₂, es = es₁ ++ e :: es₂ ∧ e.procedures.head? = some p ∧
      es₁.filterMap Entry.slot? = (pre.filterMap Procedure.slot?).eraseDups ∧
      es₁.filterMap Entry.single? = pre.filter (!·.isAccessor)

section Grouping

theorem filterMap_slot?_ofLeading (ps pre : List Procedure) :
    ((leadingMembers pre).map (Entry.ofLeading ps)).filterMap Entry.slot? =
      (pre.filterMap Procedure.slot?).eraseDups := by
  rw [List.filterMap_map, ← filterMap_leadingMembers]
  exact List.filterMap_congr fun p _ => Entry.slot?_ofLeading ps p

theorem filterMap_single?_ofLeading (ps pre : List Procedure) :
    ((leadingMembers pre).map (Entry.ofLeading ps)).filterMap Entry.single? =
      pre.filter (!·.isAccessor) := by
  rw [List.filterMap_map, ← filter_leadingMembers, ← List.filterMap_eq_filter]
  exact List.filterMap_congr fun p _ => Entry.single?_ofLeading ps p

theorem flatMap_procedures_perm (ps : List Procedure) :
    ((leadingMembers ps).map (Entry.ofLeading ps)).flatMap Entry.procedures ~ ps := by
  have hsplit := List.filter_append_perm (·.isAccessor) (leadingMembers ps)
  have haccessors : ((leadingMembers ps).filter (·.isAccessor)).flatMap
      (Entry.procedures ∘ Entry.ofLeading ps) =
        ((leadingMembers ps).filterMap Procedure.slot?).flatMap fun slot =>
          ps.filter (·.slot? == some slot) := by
    generalize leadingMembers ps = qs
    induction qs with
    | nil => rfl
    | cons q qs ih =>
      cases hq : q.isAccessor with
      | false => simpa [hq, slot?_eq_none hq] using ih
      | true =>
        have hentry : Entry.procedures (Entry.ofLeading ps q) =
            ps.filter (·.slot? == some (q.name, q.isStatic)) := by
          rw [Entry.ofLeading_of_isAccessor ps hq]
          exact List.filter_congr fun p _ => isAccessorOf_eq _ _ p
        simp [hq, slot?_of_isAccessor hq, hentry, ih]
  have hsingles : ((leadingMembers ps).filter (!·.isAccessor)).flatMap
      (Entry.procedures ∘ Entry.ofLeading ps) = ps.filter (!·.isAccessor) := by
    rw [filter_leadingMembers]
    refine (List.flatMap_congr fun q hq => ?_).trans (List.flatMap_singleton' _)
    have hq : q.isAccessor = false := by simpa using (List.mem_filter.mp hq).2
    rcases Entry.ofLeading_of_not_isAccessor ps hq with ⟨heq, -⟩ | ⟨heq, -⟩ <;>
      simp [heq, Entry.procedures]
  have hkeys := flatMap_eraseDups_perm Procedure.slot? ps
  simp only [isSome_slot?] at hkeys
  rw [List.flatMap_map]
  calc (leadingMembers ps).flatMap (Entry.procedures ∘ Entry.ofLeading ps)
      ~ ((leadingMembers ps).filter (·.isAccessor) ++
        (leadingMembers ps).filter (!·.isAccessor)).flatMap
          (Entry.procedures ∘ Entry.ofLeading ps) := (hsplit.flatMap_right _).symm
    _ ~ ps.filter (·.isAccessor) ++ ps.filter (!·.isAccessor) := by
      rw [List.flatMap_append, haccessors, hsingles, filterMap_leadingMembers]
      exact hkeys.append_right _
    _ ~ ps := List.filter_append_perm _ _

theorem head?_procedures_ofLeading (hp : ∀ slot ∈ p.slot?, slot ∉ pre.filterMap Procedure.slot?)
    (post : List Procedure) :
    (Entry.ofLeading (pre ++ p :: post) p).procedures.head? = some p := by
  cases h : p.isAccessor with
  | false =>
    rcases Entry.ofLeading_of_not_isAccessor (pre ++ p :: post) h with ⟨heq, -⟩ | ⟨heq, -⟩ <;>
      rw [heq] <;> rfl
  | true =>
    have hnone : pre.filter (isAccessorOf p.name p.isStatic) = [] := by
      rw [List.filter_eq_nil_iff]
      intro q hq hshares
      rw [isAccessorOf_eq, beq_iff_eq] at hshares
      exact hp _ (slot?_of_isAccessor h) (List.mem_filterMap.mpr ⟨q, hq, hshares⟩)
    have hself : isAccessorOf p.name p.isStatic p = true := by simp [isAccessorOf, h]
    rw [Entry.ofLeading_of_isAccessor _ h, Entry.procedures, List.filter_append, hnone,
      List.nil_append, List.filter_cons_of_pos hself]
    rfl

theorem isGrouping_leadingMembers (hps : ∀ p ∈ ps, p.isInitializer = false) :
    IsGrouping ps ((leadingMembers ps).map (Entry.ofLeading ps)) := by
  have hentry : ∀ e ∈ (leadingMembers ps).map (Entry.ofLeading ps),
      ∃ p ∈ ps, e = Entry.ofLeading ps p := by
    intro e he
    obtain ⟨p, hp, rfl⟩ := List.mem_map.mp he
    exact ⟨p, mem_of_mem_leadingMembers hp, rfl⟩
  constructor
  case once => exact flatMap_procedures_perm ps
  case slots => exact filterMap_slot?_ofLeading ps ps
  case singles => exact filterMap_single?_ofLeading ps ps
  case methods =>
    intro p hp
    obtain ⟨q, hq, heq⟩ := hentry _ hp
    obtain ⟨rfl, haccessor, hvalue⟩ := (Entry.ofLeading_inversion ps q).1 p heq.symm
    exact exists_method (hps p hq) haccessor hvalue
  case values =>
    intro p hp
    obtain ⟨q, -, heq⟩ := hentry _ hp
    obtain ⟨rfl, hvalue⟩ := (Entry.ofLeading_inversion ps q).2.1 p heq.symm
    exact hvalue
  case accessors =>
    intro name isStatic qs hqs
    obtain ⟨q, -, heq⟩ := hentry _ hqs
    rw [(Entry.ofLeading_inversion ps q).2.2 name isStatic qs heq.symm]
    exact List.filter_congr fun p _ => isAccessorOf_eq name isStatic p
  case places =>
    rintro pre p post rfl hp
    obtain ⟨rest, hrest⟩ := leadingMembers_append_cons hp post
    refine ⟨(leadingMembers pre).map (Entry.ofLeading (pre ++ p :: post)), _,
      rest.map (Entry.ofLeading (pre ++ p :: post)), ?_, head?_procedures_ofLeading hp post,
      filterMap_slot?_ofLeading _ pre, filterMap_single?_ofLeading _ pre⟩
    rw [hrest, List.map_append, List.map_cons]

end Grouping

variable {d : Descriptor} {owner : Text}

theorem filter_membersOf (d : Descriptor) (owner name : Text) (isStatic : Bool) :
    (membersOf d owner).filter (isAccessorOf name isStatic) =
      (d.proceduresOf owner).filter (isAccessorOf name isStatic) := by
  rw [membersOf, List.filter_filter]
  refine List.filter_congr fun p _ => ?_
  cases hkind : p.kind <;> simp [isAccessorOf, Procedure.isAccessor, Procedure.isInitializer, hkind]

theorem ownerText_eq (d : Descriptor) (owner : Text) :
    ownerText d owner = "\n    // " ++ owner ++ " definition\n" ++
      functionWritten "    " ("var " ++ owner ++ " = ") ";" (ownerInitializer d owner) ++
        (entries d owner).flatMap fun e => '\n' :: e.text owner := by
  have hentries : ((entries d owner).flatMap fun e => '\n' :: e.text owner) =
      ((ownerMembers d owner).flatMap fun p =>
        .plain ['\n'] :: memberPieces owner (d.proceduresOf owner) p).flatMap Piece.text := by
    rw [entries, List.flatMap_map, List.flatMap_assoc]
    refine List.flatMap_congr fun p _ => ?_
    rw [Entry.text_eq_flatMap, memberPieces_congr owner (filter_membersOf d owner)]
    rfl
  rw [hentries, ← flatMap_ownerPieces, ownerPieces, List.flatMap_cons, List.flatMap_cons,
    ← List.append_assoc]
  rfl

theorem isGrouping_entries (d : Descriptor) (owner : Text) :
    IsGrouping (membersOf d owner) (entries d owner) :=
  isGrouping_leadingMembers fun p hp => by simpa using (List.mem_filter.mp hp).2

theorem flatMap_proceduresOf_perm (d : Descriptor) :
    d.owners.flatMap d.proceduresOf ~ d.procedures := by
  have hkeys := flatMap_eraseDups_perm (fun p : Procedure => some p.owner) d.procedures
  rw [List.filterMap_eq_map', ← Descriptor.ownersOf_eq_eraseDups] at hkeys
  change (d.owners.flatMap fun owner => d.procedures.filter (·.owner == owner)) ~ _
  simpa [Descriptor.owners] using hkeys

/-- The text of an owner has an entry for each of its members, the accessors of a property
together, and so the script has each procedure of each owner once. -/
theorem ownerText_isGrouping (d : Descriptor) :
    (∀ owner, IsGrouping (membersOf d owner) (entries d owner) ∧
      ownerText d owner = "\n    // " ++ owner ++ " definition\n" ++
        functionWritten "    " ("var " ++ owner ++ " = ") ";" (ownerInitializer d owner) ++
          (entries d owner).flatMap fun e => '\n' :: e.text owner) ∧
    (∀ overrides, script d overrides =
      headText d ++ (if overrides then overridesText d else []) ++
        d.owners.flatMap (ownerText d) ++ animationText d overrides ++ unlines ["\x7d);"]) ∧
    (d.owners.flatMap fun owner => (entries d owner).flatMap Entry.procedures) ~
      d.procedures.filter (!·.isInitializer) := by
  refine ⟨fun owner => ⟨isGrouping_entries d owner, ownerText_eq d owner⟩, fun overrides => rfl, ?_⟩
  calc (d.owners.flatMap fun owner => (entries d owner).flatMap Entry.procedures)
      ~ d.owners.flatMap (membersOf d) :=
        .flatMap_left _ fun owner _ => (isGrouping_entries d owner).once
    _ ~ (d.owners.flatMap d.proceduresOf).filter (!·.isInitializer) := by
      rw [List.filter_flatMap]
      exact .refl _
    _ ~ d.procedures.filter (!·.isInitializer) :=
      (flatMap_proceduresOf_perm d).filter _

end Page

end CanvasPage
