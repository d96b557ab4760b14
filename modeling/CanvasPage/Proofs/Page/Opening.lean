import CanvasPage.Proofs.ClassBlock.Words
import CanvasPage.Proofs.Page.Piece

namespace CanvasPage.Page

variable {d : Descriptor} {owner primary name t : Text} {p : Procedure} {piece : Piece}
  {overrides : Bool}

/-- The names and the owners of all procedures are made of identifier characters. -/
structure IsNamed (d : Descriptor) : Prop where
  owner : ∀ p ∈ d.procedures, ∀ c ∈ p.owner, Text.continuesIdentifier c = true
  name : ∀ p ∈ d.procedures, ∀ c ∈ p.name, Text.continuesIdentifier c = true

theorem continuesIdentifier_of_mem_owners (hd : IsNamed d) (howner : owner ∈ d.owners) :
    ∀ c ∈ owner, Text.continuesIdentifier c = true := by
  obtain ⟨p, hp, rfl⟩ := Descriptor.mem_ownersOf.mp howner
  exact hd.owner p hp

def initializerLead (owner : Text) : Text := "    var " ++ owner ++ " = function("

def prototypeLead (owner name : Text) : Text :=
  "    " ++ owner ++ ".prototype." ++ name ++ " = function("

theorem prefix_functionWritten (indent start stop : Text) (p : Procedure) :
    indent ++ (start ++ ("function(" : Text)) <+: functionWritten indent start stop p := by
  unfold functionWritten functionLead
  simp only [List.append_assoc, List.prefix_append_right_inj]
  exact List.prefix_append _ _

/-- Behind four blanks a text has the word `w`, which may be empty, then `c` and then `rest`. -/
structure HasWord (t w : Text) (c : Char) (rest : Text) : Prop where
  text : t = ' ' :: ' ' :: ' ' :: ' ' :: (w ++ c :: rest)
  word : ∀ k ∈ w, Text.continuesIdentifier k = true
  stop : Text.continuesIdentifier c = false

theorem HasWord.unique {w v u x : Text} {c e : Char} (h : HasWord t w c u) (h' : HasWord t v e x) :
    w = v ∧ c = e ∧ u = x := by
  have htext := h.text.symm.trans h'.text
  simp only [List.cons.injEq, true_and] at htext
  exact Member.eq_of_append_cons h.word h'.word h.stop h'.stop htext

theorem exists_hasWord {w u : Text} {c : Char} (hw : ∀ k ∈ w, Text.continuesIdentifier k = true)
    (hc : Text.continuesIdentifier c = false)
    (h : ' ' :: ' ' :: ' ' :: ' ' :: (w ++ c :: u) <+: t) : ∃ rest, HasWord t w c (u ++ rest) := by
  obtain ⟨rest, rfl⟩ := h
  exact ⟨rest, by simp, hw, hc⟩

theorem exists_hasWord_prototypeLead (howner : ∀ c ∈ owner, Text.continuesIdentifier c = true)
    (h : prototypeLead owner name <+: t) :
    ∃ rest, HasWord t owner '.' ("prototype" ++ '.' :: (name ++ ' ' :: rest)) := by
  have hlead : ' ' :: ' ' :: ' ' :: ' ' :: (owner ++ '.' ::
      (("prototype" : Text) ++ '.' :: (name ++ [' ']))) <+: prototypeLead owner name :=
    ⟨("= function(" : Text), by simp [prototypeLead]⟩
  obtain ⟨rest, hbegins⟩ := exists_hasWord howner (by decide) (hlead.trans h)
  exact ⟨rest, by simpa using hbegins⟩

theorem isPrefix_prototypeLead (owner : Text) (hstatic : p.isStatic = false) :
    prototypeLead owner p.name <+: functionWritten "    " (memberStart owner p) ";" p := by
  have hlead : prototypeLead owner p.name =
      "    " ++ (memberStart owner p ++ ("function(" : Text)) := by
    simp [prototypeLead, memberStart, hstatic]
  rw [hlead]
  exact prefix_functionWritten _ _ _ _

/-- How what an owner has after its constructor begins. -/
inductive Opens (d : Descriptor) (owner t : Text) : Prop where
  | gap (text : t = ['\n'])
  | deeper (rest : Text) (begins : HasWord t [] ' ' rest)
  | property (rest : Text) (begins : HasWord t "Object" '.' ('d' :: rest))
  | own {p : Procedure} (mem : p ∈ d.procedures) (rest : Text)
      (begins : HasWord t owner '.' (p.name ++ ' ' :: rest))
  | shared {p : Procedure} (mem : p ∈ d.procedures) (owned : p.owner = owner)
      (not_static : p.isStatic = false) (kind : p.kind = .method p.name) (rest : Text)
      (begins : HasWord t owner '.' ("prototype" ++ '.' :: (p.name ++ ' ' :: rest)))

theorem opens_deeper (h : ("     " : Text) <+: t) : Opens d owner t := by
  have hlead : ' ' :: ' ' :: ' ' :: ' ' :: (([] : Text) ++ ' ' :: []) <+: t := h
  obtain ⟨rest, hbegins⟩ := exists_hasWord (by simp) (by decide) hlead
  exact .deeper rest hbegins

theorem opens_own (howner : ∀ c ∈ owner, Text.continuesIdentifier c = true)
    (mem : p ∈ d.procedures)
    (h : ("    " ++ owner ++ "." ++ p.name ++ " = " : Text) <+: t) : Opens d owner t := by
  have hlead : ' ' :: ' ' :: ' ' :: ' ' :: (owner ++ '.' :: (p.name ++ [' '])) <+: t :=
    .trans ⟨("= " : Text), by simp⟩ h
  obtain ⟨rest, hbegins⟩ := exists_hasWord howner (by decide) hlead
  rw [List.append_assoc] at hbegins
  exact .own mem rest hbegins

theorem opens_text (howner : ∀ c ∈ owner, Text.continuesIdentifier c = true)
    (h : IsMemberPiece d owner piece) : Opens d owner piece.text := by
  cases h with
  | gap => exact .gap rfl
  | @value p mem =>
    refine opens_own howner mem ?_
    unfold Piece.text valueWritten
    exact (List.prefix_append _ _).trans (List.prefix_append _ _)
  | property name isStatic =>
    have hlead : ("    Object.defineProperty(" : Text) <+: propertyLead owner name isStatic := by
      unfold propertyLead
      simp only [List.append_assoc]
      exact List.prefix_append _ _
    have hword : ' ' :: ' ' :: ' ' :: ' ' :: (("Object" : Text) ++ '.' :: ['d']) <+:
        ("    Object.defineProperty(" : Text) := by decide
    obtain ⟨rest, hbegins⟩ := exists_hasWord (by decide) (by decide) (hword.trans hlead)
    exact .property rest hbegins
  | propertyEnd => exact opens_deeper (by decide)
  | @accessor p =>
    have hmargin : ("     " : Text) <+: ("        " : Text) := by decide
    exact opens_deeper (hmargin.trans ((List.prefix_append _ _).trans
      (prefix_functionWritten "        " (accessorKey p ++ ": ") "," p)))
  | @method p mem owned kind =>
    have hname : p.kind = .method p.name := by
      obtain ⟨name, hkind⟩ := kind
      rw [Procedure.name, hkind]
    cases hstatic : p.isStatic with
    | true =>
      have hwritten := prefix_functionWritten "    " (memberStart owner p) ";" p
      refine opens_own howner mem (.trans ?_ hwritten)
      exact ⟨("function(" : Text), by simp [memberStart, hstatic]⟩
    | false =>
      obtain ⟨rest, hbegins⟩ :=
        exists_hasWord_prototypeLead howner (isPrefix_prototypeLead owner hstatic)
      exact .shared mem owned hstatic hname rest hbegins

theorem head?_of_opens (h : Opens d owner t) : t = ['\n'] ∨ t.head? = some ' ' := by
  cases h with
  | gap text => exact .inl text
  | deeper rest begins | property rest begins | own mem rest begins =>
    exact .inr (by rw [begins.text]; rfl)
  | shared mem owned not_static kind rest begins => exact .inr (by rw [begins.text]; rfl)

theorem not_var_of_opens (h : Opens d owner t) : ¬ ("    var " : Text) <+: t := by
  intro hvar
  have hlead : ' ' :: ' ' :: ' ' :: ' ' :: (("var" : Text) ++ ' ' :: []) <+: t := hvar
  obtain ⟨rest, hdeclares⟩ := exists_hasWord (by decide) (by decide) hlead
  cases h with
  | gap text => exact absurd hvar (text ▸ by decide)
  | deeper _ begins => exact absurd (hdeclares.unique begins).1 (by decide)
  | property _ begins => exact absurd (hdeclares.unique begins).2.1 (by decide)
  | own _ _ begins => exact absurd (hdeclares.unique begins).2.1 (by decide)
  | shared _ _ _ _ _ begins => exact absurd (hdeclares.unique begins).2.1 (by decide)

/-- Names have no dots, so that what a prototype is given can be read in one way only. -/
theorem exists_method_of_opens (hd : IsNamed d)
    (hprimary : ∀ c ∈ primary, Text.continuesIdentifier c = true)
    (hname : ∀ c ∈ name, Text.continuesIdentifier c = true) (h : Opens d owner t)
    (hlead : prototypeLead primary name <+: t) :
    ∃ p ∈ d.procedures, p.owner = primary ∧ p.isStatic = false ∧ p.kind = .method name := by
  have hword : ∀ c ∈ ("prototype" : Text), Text.continuesIdentifier c = true := by decide
  have hdot : Text.continuesIdentifier '.' = false := by decide
  have hblank : Text.continuesIdentifier ' ' = false := by decide
  obtain ⟨rest, hbegun⟩ := exists_hasWord_prototypeLead hprimary hlead
  cases h with
  | gap text => cases hbegun.text.symm.trans text
  | deeper _ begins => exact absurd (hbegun.unique begins).2.1 (by decide)
  | property _ begins =>
    obtain ⟨-, -, hrest⟩ := hbegun.unique begins
    cases hrest
  | @own p mem _ begins =>
    obtain ⟨-, -, hrest⟩ := hbegun.unique begins
    obtain ⟨-, hends, -⟩ := Member.eq_of_append_cons hword (hd.name p mem) hdot hblank hrest
    cases hends
  | @shared p mem owned not_static kind _ begins =>
    obtain ⟨rfl, -, hrest⟩ := hbegun.unique begins
    obtain ⟨-, -, hrest⟩ := Member.eq_of_append_cons hword hword hdot hdot hrest
    obtain ⟨rfl, -, -⟩ := Member.eq_of_append_cons hname (hd.name p mem) hblank hblank hrest
    exact ⟨p, mem, owned, not_static, kind⟩

section Declarations

def initializerText (p : Procedure) : Text :=
  functionWritten "    " ("var " ++ p.owner ++ " = ") ";" p

def declarationParts (d : Descriptor) (overrides : Bool) : List Text :=
  (headText d ++ if overrides then overridesText d else []) ::
    d.owners.flatMap fun owner => (ownerPieces d owner).map Piece.text

theorem scriptParts_eq (d : Descriptor) (overrides : Bool) :
    scriptParts d overrides =
      declarationParts d overrides ++ [animationText d overrides ++ unlines ["\x7d);"]] := by
  rw [scriptParts, scriptPieces, List.map_cons, List.map_append, List.map_flatMap]
  rfl

theorem map_text_ownerPieces (d : Descriptor) (owner : Text) :
    (ownerPieces d owner).map Piece.text = ("\n    // " ++ owner ++ " definition\n") ::
      initializerText (ownerInitializer d owner) :: (restPieces d owner).map Piece.text := by
  rw [ownerPieces_eq]
  rfl

theorem opens_of_mem_restPieces (hd : IsNamed d) (howner : owner ∈ d.owners)
    (ht : t ∈ (restPieces d owner).map Piece.text) : Opens d owner t := by
  obtain ⟨piece, hpiece, rfl⟩ := List.mem_map.mp ht
  exact opens_text (continuesIdentifier_of_mem_owners hd howner) (isMemberPiece_of_mem hpiece)

theorem cases_of_mem_declarationParts (hd : IsNamed d) (ht : t ∈ declarationParts d overrides) :
    t.head? = some '/' ∨ ∃ owner ∈ d.owners, t = "\n    // " ++ owner ++ " definition\n" ∨
      t = initializerText (ownerInitializer d owner) ∨ Opens d owner t := by
  rcases List.mem_cons.mp ht with rfl | ht
  · exact .inl rfl
  · obtain ⟨owner, howner, ht⟩ := List.mem_flatMap.mp ht
    rw [map_text_ownerPieces] at ht
    rcases List.mem_cons.mp ht with rfl | ht
    · exact .inr ⟨owner, howner, .inl rfl⟩
    · rcases List.mem_cons.mp ht with rfl | ht
      · exact .inr ⟨owner, howner, .inr (.inl rfl)⟩
      · exact .inr ⟨owner, howner, .inr (.inr (opens_of_mem_restPieces hd howner ht))⟩

theorem isPrefix_initializerLead (p : Procedure) :
    initializerLead p.owner <+: initializerText p := by
  have hvar : ("    var " : Text) = ("    " : Text) ++ ("var " : Text) := rfl
  have hassign : (" = function(" : Text) = (" = " : Text) ++ ("function(" : Text) := rfl
  unfold initializerLead initializerText functionWritten functionLead
  simp only [hvar, hassign, List.append_assoc, List.prefix_append_right_inj]
  exact List.prefix_append _ _

theorem var_prefix_initializerText (p : Procedure) :
    ("    var " : Text) <+: initializerText p := by
  have hlead : ("    var " : Text) <+: initializerLead p.owner := by
    unfold initializerLead
    exact (List.prefix_append _ _).trans (List.prefix_append _ _)
  exact hlead.trans (isPrefix_initializerLead p)

theorem filter_scriptParts (hd : IsNamed d) (overrides : Bool) :
    (scriptParts d overrides).filter (("    var " : Text).isPrefixOf ·) =
      (d.owners.map (ownerInitializer d)).map initializerText := by
  have howner : ∀ owner ∈ d.owners,
      ((ownerPieces d owner).map Piece.text).filter (("    var " : Text).isPrefixOf ·) =
        [initializerText (ownerInitializer d owner)] := by
    intro owner howner
    have hvar : ("    var " : Text).isPrefixOf (initializerText (ownerInitializer d owner)) = true :=
      List.isPrefixOf_iff_prefix.mpr (var_prefix_initializerText _)
    have hrest : ((restPieces d owner).map Piece.text).filter (("    var " : Text).isPrefixOf ·) =
        [] := by
      rw [List.filter_eq_nil_iff]
      intro t ht
      rw [List.isPrefixOf_iff_prefix]
      exact not_var_of_opens (opens_of_mem_restPieces hd howner ht)
    rw [map_text_ownerPieces, List.filter_cons_of_neg Bool.false_ne_true,
      List.filter_cons_of_pos hvar, hrest]
  have hend : ("    var " : Text).isPrefixOf (animationText d overrides ++ unlines ["\x7d);"]) =
      false := by
    unfold animationText
    cases d.primaryOwner? with
    | none => rfl
    | some primary => rfl
  rw [scriptParts_eq, declarationParts, List.cons_append, List.filter_cons_of_neg Bool.false_ne_true,
    List.filter_append, List.filter_cons_of_neg (by rw [hend]; exact Bool.false_ne_true),
    List.filter_nil, List.append_nil, List.filter_flatMap, List.map_map, List.map_eq_flatMap]
  exact List.flatMap_congr howner

end Declarations

end CanvasPage.Page
