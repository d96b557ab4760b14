import CanvasPage.Page.Script
import CanvasPage.Proofs.Procedure.Owners

namespace CanvasPage.Page

/-- A part of a script: a text of its own, or the function that a procedure becomes. -/
inductive Piece where
  | plain (t : Text)
  | function (indent start stop : Text) (p : Procedure)

def functionLead (indent start : Text) (p : Procedure) : Text :=
  indent ++ start ++ "function(" ++ Text.join ", " p.params ++ ") "

/-- Nothing if the body is blank, or else its lines, those that are not blank behind a margin. -/
def functionBlock (indent : Text) (p : Procedure) : Text :=
  if Text.allBlank p.body then []
  else '\n' :: ((Text.lines p.body).flatMap fun l =>
    if Text.allBlank l then ['\n'] else indent ++ ("    " ++ l) ++ ['\n']) ++ indent

def functionWritten (indent start stop : Text) (p : Procedure) : Text :=
  functionLead indent start p ++ '\x7b' :: (functionBlock indent p ++ '\x7d' :: (stop ++ "\n"))

theorem functionBlock_eq (indent : Text) (p : Procedure) :
    functionBlock indent p = if Text.allBlank p.body then []
      else '\n' :: indentLines (indent ++ "    ") p.body ++ indent := by
  have hline : ∀ l : Text, (if Text.allBlank l then ['\n'] else indent ++ ("    " ++ l) ++ ['\n']) =
      indentLine (indent ++ "    ") l ++ ['\n'] := by
    intro l
    rw [indentLine]
    split <;> simp
  rw [functionBlock, indentLines, unlines, List.flatMap_map, List.flatMap_congr fun l _ => hline l]

theorem functionText_eq (indent start stop : Text) (p : Procedure) :
    functionText indent start stop p = functionWritten indent start stop p := by
  have hheader : functionHeader p =
      "function(" ++ (Text.join ", " p.params ++ (") " ++ ['\x7b'])) := by
    unfold functionHeader
    exact List.append_assoc _ _ _
  have hclose : ("\x7d" : Text) = ['\x7d'] := rfl
  unfold functionText functionWritten functionLead
  simp only [hheader, hclose, functionBlock_eq, List.append_assoc, List.cons_append, List.nil_append]

namespace Piece

def text : Piece → Text
  | plain t => t
  | function indent start stop p => functionWritten indent start stop p

end Piece

def accessorKey (p : Procedure) : Text :=
  match p.kind with
  | .setter _ => "set"
  | _ => "get"

def accessorPiece (p : Procedure) : Piece := .function "        " (accessorKey p ++ ": ") "," p

def propertyLead (owner name : Text) (isStatic : Bool) : Text :=
  "    Object.defineProperty(" ++ (if isStatic then owner else owner ++ ".prototype") ++ ", '" ++
    escapeString name ++ "', \x7b\n"

def propertyEnd : Text := "        configurable: true\n    \x7d);\n"

/-- The assignment of a static value, the later lines of its expression behind a margin. -/
def valueWritten (owner : Text) (p : Procedure) : Text :=
  "    " ++ owner ++ "." ++ p.name ++ " = " ++
    (match Text.lines p.body with
    | [] => "undefined"
    | lines => Text.join "\n    " lines) ++ ";\n"

def memberStart (owner : Text) (p : Procedure) : Text :=
  (if p.isStatic then owner else owner ++ ".prototype") ++ "." ++ p.name ++ " = "

def memberPieces (owner : Text) (procedures : List Procedure) (p : Procedure) : List Piece :=
  match p.kind with
  | .getter _ | .setter _ =>
      .plain (propertyLead owner p.name p.isStatic) ::
        ((procedures.filter (isAccessorOf p.name p.isStatic)).map accessorPiece ++
          [.plain propertyEnd])
  | .staticValue _ => [.plain (valueWritten owner p)]
  | _ => [.function "    " (memberStart owner p) ";" p]

def ownerInitializer (d : Descriptor) (owner : Text) : Procedure :=
  ((d.proceduresOf owner).find? (·.isInitializer)).getD (.initializer owner [] [])

def ownerMembers (d : Descriptor) (owner : Text) : List Procedure :=
  leadingMembers ((d.proceduresOf owner).filter (!·.isInitializer))

def ownerPieces (d : Descriptor) (owner : Text) : List Piece :=
  .plain ("\n    // " ++ owner ++ " definition\n") ::
    .function "    " ("var " ++ owner ++ " = ") ";" (ownerInitializer d owner) ::
      (ownerMembers d owner).flatMap fun p =>
        .plain ['\n'] :: memberPieces owner (d.proceduresOf owner) p

def animationText (d : Descriptor) (overrides : Bool) : Text :=
  match d.primaryOwner? with
  | some primary => loopText d primary overrides
  | none => []

def scriptPieces (d : Descriptor) (overrides : Bool) : List Piece :=
  .plain (headText d ++ if overrides then overridesText d else []) ::
    (d.owners.flatMap (ownerPieces d) ++
      [.plain (animationText d overrides ++ unlines ["\x7d);"])])

def scriptParts (d : Descriptor) (overrides : Bool) : List Text :=
  (scriptPieces d overrides).map Piece.text

section Flatten

variable {d : Descriptor} {owner : Text} {procedures : List Procedure}

theorem accessorText_eq (p : Procedure) : accessorText p = (accessorPiece p).text :=
  functionText_eq _ _ _ _

theorem flatMap_memberPieces (owner : Text) (procedures : List Procedure) (p : Procedure) :
    (memberPieces owner procedures p).flatMap Piece.text = memberText owner procedures p := by
  have hproperty : (Piece.plain (propertyLead owner p.name p.isStatic) ::
      ((procedures.filter (isAccessorOf p.name p.isStatic)).map accessorPiece ++
        [.plain propertyEnd])).flatMap Piece.text =
      propertyText owner p.name p.isStatic procedures := by
    rw [List.flatMap_cons, List.flatMap_append, List.flatMap_map, List.flatMap_singleton,
      List.flatMap_congr fun q _ => (accessorText_eq q).symm]
    exact (List.append_assoc _ _ _).symm
  have hassignment : Piece.text (.function "    " (memberStart owner p) ";" p) =
      assignedFunction (memberTarget owner p.isStatic ++ "." ++ p.name) p :=
    (functionText_eq _ _ _ _).symm
  unfold memberPieces memberText
  cases p.kind with
  | getter | setter => exact hproperty
  | staticValue => exact List.append_nil _
  | initializer | method => exact (List.append_nil _).trans hassignment

theorem flatMap_ownerPieces (d : Descriptor) (owner : Text) :
    (ownerPieces d owner).flatMap Piece.text = ownerText d owner := by
  have hinitializer : ∀ p : Procedure,
      Piece.text (.function "    " ("var " ++ owner ++ " = ") ";" p) =
        assignedFunction ("var " ++ owner) p := fun p => (functionText_eq _ _ _ _).symm
  unfold ownerPieces ownerText ownerMembers
  rw [List.flatMap_cons, List.flatMap_cons, List.flatMap_assoc, ownerInitializer, hinitializer]
  simp only [List.flatMap_cons, flatMap_memberPieces]
  rw [← List.append_assoc]
  cases (d.proceduresOf owner).find? (·.isInitializer) with
  | none => rfl
  | some p => rfl

theorem flatMap_scriptPieces (d : Descriptor) (overrides : Bool) :
    (scriptPieces d overrides).flatMap Piece.text = script d overrides := by
  unfold scriptPieces script
  rw [List.flatMap_cons, List.flatMap_append, List.flatMap_assoc, List.flatMap_singleton]
  simp only [flatMap_ownerPieces, Piece.text, List.append_assoc]
  rfl

theorem flatten_scriptParts (d : Descriptor) (overrides : Bool) :
    (scriptParts d overrides).flatten = script d overrides := by
  rw [scriptParts, ← List.flatMap_def, flatMap_scriptPieces]

end Flatten

section Emission

variable {d : Descriptor} {owner : Text} {p q : Procedure} {ps : List Procedure}

theorem mem_of_mem_leadingMembers (h : p ∈ leadingMembers ps) : p ∈ ps := by
  induction ps with
  | nil => exact h
  | cons q ps ih =>
    rw [leadingMembers] at h
    split at h
    · rcases List.mem_cons.mp h with rfl | h
      · simp
      · simp [ih (List.mem_filter.mp h).1]
    · rcases List.mem_cons.mp h with rfl | h
      · simp
      · simp [ih h]

theorem mem_procedures_of_mem_proceduresOf (h : p ∈ d.proceduresOf owner) : p ∈ d.procedures :=
  (List.mem_filter.mp h).1

theorem mem_leadingMembers (hp : p.isAccessor = false) (h : p ∈ ps) : p ∈ leadingMembers ps := by
  have hother : ∀ q : Procedure, isAccessorOf q.name q.isStatic p = false := fun q => by
    simp [isAccessorOf, hp]
  induction ps with
  | nil => simp at h
  | cons q ps ih =>
    rw [leadingMembers]
    rcases List.mem_cons.mp h with rfl | h
    · simp [hp]
    · split
      · exact List.mem_cons_of_mem _ (List.mem_filter.mpr ⟨ih h, by simp [hother q]⟩)
      · exact List.mem_cons_of_mem _ (ih h)

theorem exists_leadingMember (hp : p.isAccessor = true) (h : p ∈ ps) :
    ∃ q ∈ leadingMembers ps, q.isAccessor = true ∧ isAccessorOf q.name q.isStatic p = true := by
  induction ps with
  | nil => simp at h
  | cons r ps ih =>
    rw [leadingMembers]
    rcases List.mem_cons.mp h with rfl | h
    · exact ⟨p, by simp [hp], hp, by simp [isAccessorOf, hp]⟩
    · obtain ⟨q, hq, hqa, hqp⟩ := ih h
      split
      · by_cases hr : isAccessorOf r.name r.isStatic q = true
        · rename_i hra
          refine ⟨r, by simp, hra, ?_⟩
          simp only [isAccessorOf, Bool.and_eq_true, beq_iff_eq] at hr hqp ⊢
          exact ⟨⟨hp, hqp.1.2.trans hr.1.2⟩, hqp.2.trans hr.2⟩
        · exact ⟨q, List.mem_cons_of_mem _ (List.mem_filter.mpr ⟨hq, by simp [hr]⟩), hqa, hqp⟩
      · exact ⟨q, List.mem_cons_of_mem _ hq, hqa, hqp⟩

theorem exists_method (hinitializer : p.isInitializer = false) (haccessor : p.isAccessor = false)
    (hvalue : ∀ name, p.kind ≠ .staticValue name) : ∃ name, p.kind = .method name := by
  cases hkind : p.kind with
  | method name => exact ⟨name, rfl⟩
  | initializer => simp [Procedure.isInitializer, hkind] at hinitializer
  | getter | setter => simp [Procedure.isAccessor, hkind] at haccessor
  | staticValue name => exact absurd hkind (hvalue name)

/-- A procedure with a function in the script: neither a static value nor a constructor that an
earlier one of its owner hides. -/
structure IsEmitted (d : Descriptor) (p : Procedure) : Prop where
  mem : p ∈ d.procedures
  not_value : ∀ name, p.kind ≠ .staticValue name
  first : p.isInitializer = true → (d.proceduresOf p.owner).find? (·.isInitializer) = some p

theorem mem_scriptPieces {piece : Piece} (howner : owner ∈ d.owners)
    (h : piece ∈ ownerPieces d owner) (overrides : Bool) : piece ∈ scriptPieces d overrides := by
  rw [scriptPieces]
  simp only [List.mem_cons, List.mem_append]
  exact .inr (.inl (List.mem_flatMap.mpr ⟨_, howner, h⟩))

theorem mem_ownerPieces_of_member {piece : Piece} (hq : q ∈ ownerMembers d owner)
    (h : piece ∈ memberPieces owner (d.proceduresOf owner) q) : piece ∈ ownerPieces d owner := by
  refine List.mem_cons_of_mem _ (List.mem_cons_of_mem _ ?_)
  exact List.mem_flatMap.mpr ⟨q, hq, List.mem_cons_of_mem _ h⟩

theorem function_mem_memberPieces (owner : Text) (hp : p.isAccessor = false)
    (hvalue : ∀ name, p.kind ≠ .staticValue name) :
    Piece.function "    " (memberStart owner p) ";" p ∈ memberPieces owner ps p := by
  unfold memberPieces
  cases hkind : p.kind with
  | initializer | method => simp
  | getter | setter => simp [Procedure.isAccessor, hkind] at hp
  | staticValue name => exact absurd hkind (hvalue name)

theorem accessorPiece_mem_memberPieces (owner : Text) (hq : q.isAccessor = true) (hp : p ∈ ps)
    (hshares : isAccessorOf q.name q.isStatic p = true) :
    accessorPiece p ∈ memberPieces owner ps q := by
  have hpiece : accessorPiece p ∈
      (ps.filter (isAccessorOf q.name q.isStatic)).map accessorPiece :=
    List.mem_map_of_mem (List.mem_filter.mpr ⟨hp, hshares⟩)
  unfold memberPieces
  cases hkind : q.kind with
  | getter | setter => simp [hpiece]
  | initializer | method | staticValue => simp [Procedure.isAccessor, hkind] at hq

def functionIndent (p : Procedure) : Text := if p.isAccessor then "        " else "    "

def functionStart (p : Procedure) : Text :=
  match p.kind with
  | .initializer => "var " ++ p.owner ++ " = "
  | .getter _ => "get: "
  | .setter _ => "set: "
  | .method _ | .staticValue _ => memberStart p.owner p

def functionStop (p : Procedure) : Text := if p.isAccessor then "," else ";"

def functionPiece (p : Procedure) : Piece :=
  .function (functionIndent p) (functionStart p) (functionStop p) p

def initializerPiece (p : Procedure) : Piece := .function "    " ("var " ++ p.owner ++ " = ") ";" p

theorem functionPiece_eq (p : Procedure) :
    (p.kind = .initializer → functionPiece p = initializerPiece p) ∧
    (p.isAccessor = true → functionPiece p = accessorPiece p) ∧
    ∀ name, p.kind = .method name →
      functionPiece p = .function "    " (memberStart p.owner p) ";" p := by
  have hparts : ∀ k, p.kind = k → functionPiece p = match k with
      | .initializer => initializerPiece p
      | .getter _ | .setter _ => accessorPiece p
      | .method _ | .staticValue _ => .function "    " (memberStart p.owner p) ";" p := by
    intro k hk
    cases k <;> simp [functionPiece, functionIndent, functionStart, functionStop, initializerPiece,
      accessorPiece, accessorKey, Procedure.isAccessor, hk]
  refine ⟨hparts _, fun haccessor => ?_, fun name => hparts _⟩
  cases hkind : p.kind with
  | getter | setter => exact hparts _ hkind
  | initializer | method | staticValue => simp [Procedure.isAccessor, hkind] at haccessor

theorem functionPiece_mem (hp : IsEmitted d p) (overrides : Bool) :
    functionPiece p ∈ scriptPieces d overrides := by
  obtain ⟨hinitializer, haccessor, hmethod⟩ := functionPiece_eq p
  have howner : p.owner ∈ d.owners := Descriptor.mem_ownersOf.mpr ⟨p, hp.mem, rfl⟩
  have hof : p ∈ d.proceduresOf p.owner := List.mem_filter.mpr ⟨hp.mem, beq_self_eq_true _⟩
  cases hinit : p.isInitializer with
  | true =>
    have hself : ownerInitializer d p.owner = p := by
      rw [ownerInitializer, hp.first hinit, Option.getD_some]
    have hpiece : initializerPiece p ∈ ownerPieces d p.owner := by
      unfold ownerPieces
      rw [hself]
      exact List.mem_cons_of_mem _ List.mem_cons_self
    rw [hinitializer (beq_iff_eq.mp hinit)]
    exact mem_scriptPieces howner hpiece overrides
  | false =>
    have hrest : p ∈ (d.proceduresOf p.owner).filter (!·.isInitializer) :=
      List.mem_filter.mpr ⟨hof, by simp [hinit]⟩
    cases hshared : p.isAccessor with
    | true =>
      obtain ⟨q, hq, hqa, hqp⟩ := exists_leadingMember hshared hrest
      rw [haccessor hshared]
      exact mem_scriptPieces howner
        (mem_ownerPieces_of_member hq (accessorPiece_mem_memberPieces p.owner hqa hof hqp)) overrides
    | false =>
      obtain ⟨name, hkind⟩ := exists_method hinit hshared hp.not_value
      rw [hmethod name hkind]
      exact mem_scriptPieces howner (mem_ownerPieces_of_member (mem_leadingMembers hshared hrest)
        (function_mem_memberPieces p.owner hshared hp.not_value)) overrides

end Emission

section Members

variable {d : Descriptor} {owner indent start stop : Text} {p q : Procedure} {piece : Piece}
  {overrides : Bool}

/-- A part of what an owner has after its constructor. -/
inductive IsMemberPiece (d : Descriptor) (owner : Text) : Piece → Prop where
  | gap : IsMemberPiece d owner (.plain ['\n'])
  | value {p : Procedure} (mem : p ∈ d.procedures) :
      IsMemberPiece d owner (.plain (valueWritten owner p))
  | property (name : Text) (isStatic : Bool) :
      IsMemberPiece d owner (.plain (propertyLead owner name isStatic))
  | propertyEnd : IsMemberPiece d owner (.plain propertyEnd)
  | accessor {p : Procedure} (mem : p ∈ d.procedures) (owned : p.owner = owner)
      (kind : p.isAccessor = true) : IsMemberPiece d owner (accessorPiece p)
  | method {p : Procedure} (mem : p ∈ d.procedures) (owned : p.owner = owner)
      (kind : ∃ name, p.kind = .method name) :
      IsMemberPiece d owner (.function "    " (memberStart owner p) ";" p)

theorem of_mem_proceduresOf (h : p ∈ d.proceduresOf owner) : p ∈ d.procedures ∧ p.owner = owner :=
  ⟨mem_procedures_of_mem_proceduresOf h, beq_iff_eq.mp (List.mem_filter.mp h).2⟩

theorem isMemberPiece_of_mem_memberPieces (hq : q ∈ ownerMembers d owner)
    (h : piece ∈ memberPieces owner (d.proceduresOf owner) q) : IsMemberPiece d owner piece := by
  obtain ⟨hof, hinit⟩ := List.mem_filter.mp (mem_of_mem_leadingMembers hq)
  obtain ⟨hmem, howner⟩ := of_mem_proceduresOf hof
  unfold memberPieces at h
  cases hkind : q.kind with
  | initializer => simp [Procedure.isInitializer, hkind] at hinit
  | getter | setter =>
    simp only [hkind, List.mem_cons, List.mem_append, List.mem_map, List.not_mem_nil,
      or_false] at h
    rcases h with rfl | ⟨p, hp, rfl⟩ | rfl
    · exact .property q.name q.isStatic
    · obtain ⟨hof, hshares⟩ := List.mem_filter.mp hp
      obtain ⟨hmem, howner⟩ := of_mem_proceduresOf hof
      simp only [isAccessorOf, Bool.and_eq_true] at hshares
      exact .accessor hmem howner hshares.1.1
    · exact .propertyEnd
  | staticValue =>
    simp only [hkind, List.mem_singleton] at h
    rw [h]
    exact .value hmem
  | method name =>
    simp only [hkind, List.mem_singleton] at h
    rw [h]
    exact .method hmem howner ⟨name, hkind⟩

def restPieces (d : Descriptor) (owner : Text) : List Piece :=
  (ownerMembers d owner).flatMap fun p =>
    .plain ['\n'] :: memberPieces owner (d.proceduresOf owner) p

theorem isMemberPiece_of_mem (h : piece ∈ restPieces d owner) : IsMemberPiece d owner piece := by
  obtain ⟨q, hq, h⟩ := List.mem_flatMap.mp h
  rcases List.mem_cons.mp h with rfl | h
  · exact .gap
  · exact isMemberPiece_of_mem_memberPieces hq h

theorem ownerInitializer_spec (d : Descriptor) (owner : Text) :
    (ownerInitializer d owner).kind = .initializer ∧ (ownerInitializer d owner).owner = owner := by
  rw [ownerInitializer]
  cases h : (d.proceduresOf owner).find? (·.isInitializer) with
  | none => exact ⟨rfl, rfl⟩
  | some p =>
    have hkind : p.kind = .initializer := by
      simpa [Procedure.isInitializer] using List.find?_some h
    exact ⟨hkind, (of_mem_proceduresOf (List.mem_of_find?_eq_some h)).2⟩

theorem ownerPieces_eq (d : Descriptor) (owner : Text) :
    ownerPieces d owner = .plain ("\n    // " ++ owner ++ " definition\n") ::
      initializerPiece (ownerInitializer d owner) :: restPieces d owner := by
  rw [initializerPiece, (ownerInitializer_spec d owner).2]
  rfl

/-- A function of a script is the constructor of an owner or one of its members. -/
theorem cases_of_function_mem (h : .function indent start stop p ∈ scriptPieces d overrides) :
    ∃ owner ∈ d.owners, .function indent start stop p = initializerPiece (ownerInitializer d owner) ∨
      IsMemberPiece d owner (.function indent start stop p) := by
  simp only [scriptPieces, List.mem_cons, List.mem_append, List.not_mem_nil, or_false,
    reduceCtorEq, false_or] at h
  obtain ⟨owner, howner, h⟩ := List.mem_flatMap.mp h
  rw [ownerPieces_eq] at h
  simp only [List.mem_cons, reduceCtorEq, false_or] at h
  exact ⟨owner, howner, h.imp_right isMemberPiece_of_mem⟩

end Members

end CanvasPage.Page
