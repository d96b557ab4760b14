import CanvasPage.Proofs.Procedure.Declaration

namespace CanvasPage.Procedure

open Substitution

/-- A name, a number or a path of names, not beginning with the word `let` or `const`. -/
structure Operand where
  text : Text
  ne_nil : text ≠ []
  chars : ∀ c ∈ text, isPathChar c = true
  not_leads : leadsWithKeyword text = false

structure Variable where
  text : Text
  isIdentifier : Text.isIdentifier text = true
  not_leads : leadsWithKeyword text = false

def Variable.operand (x : Variable) : Operand where
  text := x.text
  ne_nil := Text.ne_nil_of_isIdentifier x.isIdentifier
  chars := isPathChar_of_isIdentifier x.isIdentifier
  not_leads := x.not_leads

variable {kw mid rest t separator : Text}

theorem Operand.spotAfter? (e : Operand) : spotAfter? .apart e.text = some (.word e.text) :=
  spotAfter?_of_not_leads e.chars e.ne_nil e.not_leads

theorem Operand.spotAfter?_append (e : Operand)
    (h : separator ∈ separators) (t : Text) :
    Substitution.spotAfter? .apart (e.text ++ (separator ++ t)) =
      Substitution.spotAfter? .apart t := by
  rw [Substitution.spotAfter?_append, e.spotAfter?, Option.bind_some,
    Substitution.spotAfter?_append, spotAfter?_separator e.not_leads separator h, Option.bind_some]

theorem semicolon_mem_separators : (";" : Text) ∈ separators := by simp [separators]

theorem Operand.isDeclarationChar (e : Operand) : ∀ c ∈ e.text, isDeclarationChar c = true :=
  fun c hc => Bool.or_eq_true_iff.mpr (.inl (e.chars c hc))

theorem isUntyped_unvalued (x : Variable) : IsUntyped (x.text ++ ";") where
  chars := List.forall_mem_append.mpr ⟨x.operand.isDeclarationChar, by decide⟩
  spots := by
    have h := x.operand.spotAfter?_append semicolon_mem_separators []
    rw [List.append_nil] at h
    rw [show x.text = x.operand.text from rfl, h]
    rfl
  last := List.getLast?_concat
  first := ⟨x.text, ";", rfl, x.isIdentifier, by simp; decide, by decide⟩

theorem isUntyped_valued (x : Variable) (ht : IsTrail t) : IsUntyped (x.text ++ (" =" ++ t)) where
  chars := List.forall_mem_append.mpr ⟨x.operand.isDeclarationChar,
    List.forall_mem_append.mpr ⟨by decide, ht.chars⟩⟩
  spots := by
    rw [show x.text = x.operand.text from rfl, x.operand.spotAfter?_append (by simp [separators])]
    exact ht.spots
  last := by
    obtain ⟨u, rfl⟩ := List.getLast?_eq_some_iff.mp ht.last
    rw [← List.append_assoc, ← List.append_assoc, List.getLast?_concat]
  first := ⟨x.text, " =" ++ t, rfl, x.isIdentifier, by simp; decide, by
    have hequals : (" =" ++ t).dropWhile Text.isBlank = '=' :: t := rfl
    rw [hequals]
    simp⟩

theorem rewriteBody_of_isUntyped {raw : Text} (ht : IsUntyped t)
    (h : applyAll (normalizeIndentation raw) = "var " ++ t) : rewriteBody raw = "var " ++ t := by
  refine rewriteBody_of_next?_eq_none h (Arrow.next?_eq_none fun u ws v hsplit _ => ?_)
  refine absurd ?_ (ht.not_mem (c := '>') (by decide))
  rw [hsplit]
  simp

theorem Operand.isTypeChar (e : Operand) : ∀ c ∈ e.text, isTypeChar c = true := by
  have hend : ∀ d ∈ ("=;\n" : Text), isPathChar d = false := by decide
  intro c hc
  have hpath := e.chars c hc
  rw [Substitution.isTypeChar, isBare_of_isPathChar hpath, Bool.true_and, Bool.not_eq_true',
    ← Bool.not_eq_true, List.contains_iff_mem]
  intro hmem
  rw [hend c hmem] at hpath
  cases hpath

theorem typed_chars (hkw : kw ∈ keywords) (x : Variable) (hmid : ∀ c ∈ mid, isTypeChar c = true) :
    ∀ c ∈ kw ++ ' ' :: (x.text ++ ':' :: mid), isTypeChar c = true := by
  have hwords : ∀ kw ∈ keywords, ∀ c ∈ kw, isTypeChar c = true := by decide
  simp only [List.forall_mem_append, List.forall_mem_cons]
  exact ⟨hwords kw hkw, by decide, x.operand.isTypeChar, by decide, hmid⟩

theorem normalizeIndentation_declaration (hkw : kw ∈ keywords)
    (hbreak : '\n' ∉ rest) (hlast : rest.getLast? = some ';') :
    normalizeIndentation (kw ++ rest) = kw ++ rest := by
  have hwords : ∀ kw ∈ keywords, kw ≠ [] ∧ '\n' ∉ kw ∧ kw.head?.any Text.isBlank = false := by
    decide
  obtain ⟨hkwne, hkwbreak, hkwfirst⟩ := hwords kw hkw
  rw [normalizeIndentation_of_not_mem (by simp [hkwbreak, hbreak])]
  refine Text.trim_of_ends ?_ ?_
  · rw [List.head?_append_of_ne_nil _ hkwne]
    exact (Option.any_eq_false _ _).mp hkwfirst
  · intro d hd
    rw [List.getLast?_append_of_ne_nil _ (List.ne_nil_of_mem (List.mem_of_getLast? hlast)),
      hlast] at hd
    obtain rfl : ';' = d := by simpa using hd
    decide

theorem of_isTypeChar {c : Char} (h : isTypeChar c = true) :
    Script.isBare c = true ∧ c ∉ ("=;\n" : Text) := by
  rw [isTypeChar, Bool.and_eq_true, Bool.not_eq_true', ← Bool.not_eq_true,
    List.contains_iff_mem] at h
  exact h

theorem forall_mem_typed {u : Text} (ht : ∀ c ∈ t, isTypeChar c = true)
    (hu : ∀ c ∈ u, isDeclarationChar c = true) :
    (∀ c ∈ t ++ u, Script.isBare c = true) ∧ '\n' ∉ t ++ u := by
  refine ⟨fun c hc => ?_, fun hmem => ?_⟩
  · rcases List.mem_append.mp hc with hc | hc
    · exact (of_isTypeChar (ht c hc)).1
    · exact isBare_of_isDeclarationChar (hu c hc)
  · rcases List.mem_append.mp hmem with hmem | hmem
    · exact (of_isTypeChar (ht _ hmem)).2 (by decide)
    · exact absurd (hu _ hmem) (by decide)

section Passes

variable (hkw : kw ∈ keywords) (x : Variable) (hne : mid ≠ [])
  (hmid : ∀ c ∈ mid, isTypeChar c = true)

include hkw hne hmid

theorem rewriteBody_valued (ht : IsTrail rest) :
    rewriteBody ((kw ++ ' ' :: (x.text ++ ':' :: mid)) ++ '=' :: rest) =
      "var " ++ (x.text ++ (" =" ++ rest)) := by
  have htyped := typed_chars hkw x hmid
  have hrest : ∀ c ∈ '=' :: rest, isDeclarationChar c = true :=
    List.forall_mem_cons.mpr ⟨by decide, ht.chars⟩
  obtain ⟨hbare, hbreak⟩ := forall_mem_typed htyped hrest
  have hlast : ((' ' :: (x.text ++ ':' :: mid)) ++ '=' :: rest).getLast? = some ';' := by
    have hrest := List.ne_nil_of_mem (List.mem_of_getLast? ht.last)
    rw [List.getLast?_append_of_ne_nil _ (List.cons_ne_nil _ _), ← List.singleton_append,
      List.getLast?_append_of_ne_nil _ hrest, ht.last]
  have hnormal : normalizeIndentation ((kw ++ ' ' :: (x.text ++ ':' :: mid)) ++ '=' :: rest) =
      (kw ++ ' ' :: (x.text ++ ':' :: mid)) ++ '=' :: rest := by
    rw [List.append_assoc] at hbreak ⊢
    exact normalizeIndentation_declaration hkw (fun h => hbreak (List.mem_append_right _ h)) hlast
  have hnew : ∀ o : Occurrence, o.groupText 1 = [' '] → o.groupText 2 = x.text →
      typedDeclaration.replacement o = "var " ++ (x.text ++ " =") := by
    intro o h₁ h₂
    have hreplaced : typedDeclaration.replacement o =
        "var" ++ o.groupText 1 ++ o.groupText 2 ++ " =" := rfl
    rw [hreplaced, h₁, h₂, List.append_assoc]
    rfl
  have hfirst := stopsAt_typedDeclaration.apply_eq hkw x.isIdentifier
    (fun h => (of_isTypeChar (htyped _ h)).2 (by decide))
    (reads_typedDeclaration hkw x.isIdentifier hne (fun c hc => (of_isTypeChar (hmid c hc)).2) rest)
    hbare ht.spots hnew
  have hsplit : all = typedDeclaration :: all.tail := rfl
  refine rewriteBody_of_isUntyped (isUntyped_valued x ht) ?_
  rw [hnormal, applyAll, hsplit, List.foldl_cons, hfirst, List.append_assoc, List.append_assoc]
  exact (isUntyped_valued x ht).foldl_apply fun s hs => List.mem_of_mem_tail hs

theorem rewriteBody_unvalued :
    rewriteBody ((kw ++ ' ' :: (x.text ++ ':' :: mid)) ++ ";") = "var " ++ (x.text ++ ";") := by
  have htyped := typed_chars hkw x hmid
  have hend : ∀ c ∈ (";" : Text), isDeclarationChar c = true := by decide
  obtain ⟨hbare, hbreak⟩ := forall_mem_typed htyped hend
  have hnormal : normalizeIndentation ((kw ++ ' ' :: (x.text ++ ':' :: mid)) ++ ";") =
      (kw ++ ' ' :: (x.text ++ ':' :: mid)) ++ ";" := by
    rw [List.append_assoc] at hbreak ⊢
    exact normalizeIndentation_declaration hkw (fun h => hbreak (List.mem_append_right _ h))
      List.getLast?_concat
  have hnotype : typedDeclaration.apply ((kw ++ ' ' :: (x.text ++ ':' :: mid)) ++ ";") =
      (kw ++ ' ' :: (x.text ++ ':' :: mid)) ++ ";" := by
    refine apply_eq_self (by simp) hbare fun before w rest gs hsplit h => ?_
    obtain ⟨u, -, -, rfl, -⟩ := exists_of_reads_typedDeclaration h
    have hmem : '=' ∈ (kw ++ ' ' :: (x.text ++ ':' :: mid)) ++ ";" := by rw [hsplit]; simp
    rcases List.mem_append.mp hmem with hmem | hmem
    · exact (of_isTypeChar (htyped _ hmem)).2 (by decide)
    · exact absurd hmem (by decide)
  have hnew : ∀ o : Occurrence, o.groupText 1 = [' '] → o.groupText 2 = x.text →
      typedDeclarationWithoutValue.replacement o = "var " ++ (x.text ++ ";") := by
    intro o h₁ h₂
    have hreplaced : typedDeclarationWithoutValue.replacement o =
        "var" ++ o.groupText 1 ++ o.groupText 2 ++ ";" := rfl
    rw [hreplaced, h₁, h₂, List.append_assoc]
    rfl
  have hsecond := stopsAt_typedDeclarationWithoutValue.apply_eq hkw x.isIdentifier
    (fun h => (of_isTypeChar (htyped _ h)).2 (by decide))
    (reads_typedDeclarationWithoutValue hkw x.isIdentifier hne
      (fun c hc => (of_isTypeChar (hmid c hc)).2) [])
    hbare rfl hnew
  have hsplit : all = typedDeclaration :: typedDeclarationWithoutValue :: all.tail.tail := rfl
  refine rewriteBody_of_isUntyped (isUntyped_unvalued x) ?_
  rw [hnormal, applyAll, hsplit, List.foldl_cons, hnotype, List.foldl_cons]
  rw [List.append_nil] at hsecond
  have hsemicolon : (";" : Text) = [';'] := rfl
  rw [hsemicolon, hsecond]
  exact (isUntyped_unvalued x).foldl_apply fun s hs =>
    List.mem_of_mem_tail (List.mem_of_mem_tail hs)

end Passes

section Types

/-- Blanks that stay on their line. -/
structure IsGap (ws : Text) : Prop where
  blank : Text.allBlank ws = true
  no_break : '\n' ∉ ws

/-- Members of an object may stand between semicolons, parameters of a function may not. -/
inductive TypePart where
  | type
  | types
  | member
  | members (semicolons : Bool)

/-- The text is written as a type or as a part of one, with blanks wherever they may stand. -/
inductive IsWritten : TypePart → Text → Prop where
  | name {t : Text} (h : Text.isIdentifier t = true) : IsWritten .type t
  | array {t ws : Text} (h : IsWritten .type t) (hws : IsGap ws) :
      IsWritten .type (t ++ '[' :: (ws ++ [']']))
  | generic {name ws t : Text} (hname : Text.isIdentifier name = true) (hws : IsGap ws)
      (h : IsWritten .types t) : IsWritten .type (name ++ (ws ++ '<' :: (t ++ ['>'])))
  | union {t u : Text} (ht : IsWritten .type t) (hu : IsWritten .type u) :
      IsWritten .type (t ++ '|' :: u)
  | parenthesized {t : Text} (h : IsWritten .type t) : IsWritten .type ('(' :: (t ++ [')']))
  | object {t : Text} (h : IsWritten (.members true) t) :
      IsWritten .type ('\x7b' :: (t ++ ['\x7d']))
  | function {t ws u : Text} (ht : IsWritten (.members false) t) (hws : IsGap ws)
      (hu : IsWritten .type u) : IsWritten .type ('(' :: (t ++ ')' :: (ws ++ ("=>" ++ u))))
  | single {t : Text} (h : IsWritten .type t) : IsWritten .types t
  | several {t ts : Text} (ht : IsWritten .type t) (hts : IsWritten .types ts) :
      IsWritten .types (t ++ ',' :: ts)
  | member {name ws t : Text} (hname : Text.isIdentifier name = true) (hws : IsGap ws)
      (h : IsWritten .type t) : IsWritten .member (name ++ (ws ++ ':' :: t))
  | none (semicolons : Bool) : IsWritten (.members semicolons) []
  | last {semicolons : Bool} {t : Text} (h : IsWritten .member t) :
      IsWritten (.members semicolons) t
  | more {semicolons : Bool} {t ts : Text} {c : Char}
      (hc : c = ',' ∨ semicolons = true ∧ c = ';') (ht : IsWritten .member t)
      (hts : IsWritten (.members semicolons) ts) : IsWritten (.members semicolons) (t ++ c :: ts)
  | spaced {part : TypePart} {ws t ws' : Text} (hws : IsGap ws) (h : IsWritten part t)
      (hws' : IsGap ws') : IsWritten part (ws ++ (t ++ ws'))

abbrev IsType (t : Text) : Prop := IsWritten .type t

variable {part : TypePart} {t ws name : Text}

def isInline (c : Char) : Bool := Script.isBare c && c != '\n'

theorem isInline_of_isIdentifier (h : Text.isIdentifier name = true) :
    ∀ c ∈ name, isInline c = true := by
  intro c hc
  have hpath := isPathChar_of_isIdentifier h c hc
  rw [isInline, isBare_of_isPathChar hpath, Bool.true_and, bne_iff_ne]
  rintro rfl
  exact absurd hpath (by decide)

theorem IsGap.isInline (h : IsGap ws) : ∀ c ∈ ws, isInline c = true := by
  intro c hc
  have hplain := (Script.isPlain_of_isBlank (List.all_eq_true.mp h.blank c hc)).1
  simp only [Script.isPlain, Bool.not_eq_true', Bool.or_eq_false_iff] at hplain
  have hbreak : c ≠ '\n' := fun heq => h.no_break (heq ▸ hc)
  simp [Procedure.isInline, Script.isBare, hplain, hbreak]

theorem IsWritten.isInline (h : IsWritten part t) : ∀ c ∈ t, isInline c = true := by
  induction h with
  | name h => exact isInline_of_isIdentifier h
  | array _ hws ih =>
    simp only [List.forall_mem_append, List.forall_mem_cons]
    exact ⟨ih, by decide, hws.isInline, by decide, by simp⟩
  | generic hname hws _ ih =>
    simp only [List.forall_mem_append, List.forall_mem_cons]
    exact ⟨isInline_of_isIdentifier hname, hws.isInline, by decide, ih, by decide, by simp⟩
  | union _ _ iht ihu =>
    simp only [List.forall_mem_append, List.forall_mem_cons]
    exact ⟨iht, by decide, ihu⟩
  | parenthesized _ ih | object _ ih =>
    simp only [List.forall_mem_append, List.forall_mem_cons]
    exact ⟨by decide, ih, by decide, by simp⟩
  | function _ hws _ iht ihu =>
    simp only [List.forall_mem_append, List.forall_mem_cons]
    exact ⟨by decide, iht, by decide, hws.isInline, by decide, ihu⟩
  | single _ ih | last _ ih => exact ih
  | several _ _ iht ihts =>
    simp only [List.forall_mem_append, List.forall_mem_cons]
    exact ⟨iht, by decide, ihts⟩
  | member hname hws _ ih =>
    simp only [List.forall_mem_append, List.forall_mem_cons]
    exact ⟨isInline_of_isIdentifier hname, hws.isInline, by decide, ih⟩
  | none => simp
  | @more _ _ _ c hc _ _ iht ihts =>
    have hseparator : Procedure.isInline c = true := by
      rcases hc with rfl | ⟨-, rfl⟩
      · decide
      · decide
    simp only [List.forall_mem_append, List.forall_mem_cons]
    exact ⟨iht, hseparator, ihts⟩
  | spaced hws _ hws' ih =>
    simp only [List.forall_mem_append]
    exact ⟨hws.isInline, ih, hws'.isInline⟩

theorem IsWritten.isTypeChar (h : IsWritten part t) (hequals : '=' ∉ t) (hsemicolon : ';' ∉ t) :
    ∀ c ∈ t, isTypeChar c = true := by
  intro c hc
  have hinline := h.isInline c hc
  rw [Procedure.isInline, Bool.and_eq_true, bne_iff_ne] at hinline
  have hne₁ : c ≠ '=' := fun heq => hequals (heq ▸ hc)
  have hne₂ : c ≠ ';' := fun heq => hsemicolon (heq ▸ hc)
  simp [Substitution.isTypeChar, hinline, hne₁, hne₂]

theorem Operand.isTrail (e : Operand) : IsTrail (' ' :: (e.text ++ ";")) where
  chars := List.forall_mem_cons.mpr ⟨by decide,
    List.forall_mem_append.mpr ⟨e.isDeclarationChar, by decide⟩⟩
  spots := by
    have h := e.spotAfter?_append semicolon_mem_separators []
    rw [List.append_nil] at h
    exact (congrArg Option.isSome h).trans rfl
  last := by rw [← List.cons_append]; exact List.getLast?_concat

variable {kw type : Text}

/-- A declaration of one variable loses its type and nothing else, if neither an equals sign nor a
semicolon stands in the type. -/
theorem rewriteBody_annotated (hkw : kw ∈ keywords) (x : Variable) (e : Operand)
    (htype : IsType type) (hequals : '=' ∉ type) (hsemicolon : ';' ∉ type) :
    rewriteBody (kw ++ " " ++ x.text ++ ": " ++ type ++ " = " ++ e.text ++ ";") =
        "var " ++ x.text ++ " = " ++ e.text ++ ";" ∧
      rewriteBody (kw ++ " " ++ x.text ++ ": " ++ type ++ ";") = "var " ++ x.text ++ ";" := by
  have hspace : isTypeChar ' ' = true := by decide
  have hchars : ∀ c ∈ ' ' :: type, isTypeChar c = true :=
    List.forall_mem_cons.mpr ⟨hspace, htype.isTypeChar hequals hsemicolon⟩
  have hspaced : ∀ c ∈ ' ' :: (type ++ [' ']), isTypeChar c = true := by
    rw [← List.cons_append]
    exact List.forall_mem_append.mpr ⟨hchars, by simpa using hspace⟩
  have hliterals : (" " : Text) = [' '] ∧ (": " : Text) = [':', ' '] ∧
      (" = " : Text) = [' ', '=', ' '] ∧ (" =" : Text) = [' ', '='] := ⟨rfl, rfl, rfl, rfl⟩
  obtain ⟨hblank, hcolon, hvalue, hend⟩ := hliterals
  constructor
  · have h := rewriteBody_valued hkw x (List.cons_ne_nil _ _) hspaced e.isTrail
    simpa [hblank, hcolon, hvalue, hend] using h
  · have h := rewriteBody_unvalued hkw x (List.cons_ne_nil _ _) hchars
    simpa [hblank, hcolon] using h

def shape : Variable := ⟨"shape", by decide, by decide⟩

def shapeType : Text := "None | \x7b sides: Array<Side[]> \x7d"

theorem isType_shapeType : IsType shapeType := by
  have hspace : IsGap [' '] := ⟨by decide, by decide⟩
  have hnone : IsGap [] := ⟨rfl, by simp⟩
  have hname : ∀ t : Text, Text.isIdentifier t = true → IsType t := fun _ => .name
  have hsides := (hname "Side" (by decide)).array hnone
  have harray := IsWritten.generic (show Text.isIdentifier "Array" = true by decide) hnone
    (.single hsides)
  have hmember := IsWritten.member (show Text.isIdentifier "sides" = true by decide) hnone
    (.spaced hspace harray hspace)
  have hobject := IsWritten.object (.last (.spaced hspace hmember hnone))
  exact .union (.spaced hnone (hname "None" (by decide)) hspace) (.spaced hspace hobject hnone)

theorem rewriteBody_annotated_shape :
    IsType shapeType ∧ '=' ∉ shapeType ∧ ';' ∉ shapeType ∧
      rewriteBody ("let" ++ " " ++ shape.text ++ ": " ++ shapeType ++ " = " ++ "origin" ++ ";") =
        "var " ++ shape.text ++ " = " ++ "origin" ++ ";" ∧
      rewriteBody ("let" ++ " " ++ shape.text ++ ": " ++ shapeType ++ ";") =
        "var " ++ shape.text ++ ";" := by
  have hequals : '=' ∉ shapeType := by decide
  have hsemicolon : ';' ∉ shapeType := by decide
  have hkeyword : ("let" : Text) ∈ keywords := by simp [keywords]
  exact ⟨isType_shapeType, hequals, hsemicolon,
    rewriteBody_annotated hkeyword shape ⟨"origin", by decide, by decide, by decide⟩
      isType_shapeType hequals hsemicolon⟩

/-- A function type ends with its arrow, and an object type with its first semicolon. -/
example : rewriteBody "let f: (a: A) => B = g;" = "var f => B = g;" ∧
    rewriteBody "let p: \x7b a: A; b: B \x7d;" = "var p; b: B \x7d;" := by decide +kernel

end Types

end CanvasPage.Procedure
