import CanvasPage.Procedure.Substitution
import CanvasPage.Proofs.Pattern.Language
import CanvasPage.Proofs.Text.Identifier

namespace CanvasPage.Substitution

open Pattern

variable {before w after : Text} {gs : GroupTexts}

theorem reads_identifier : Candidate.identifier.Reads before w after gs ↔
    Text.isIdentifier w = true ∧ gs = [] := by
  rw [Candidate.identifier, Candidate.identifierStart, Candidate.identifierChar, reads_append]
  simp only [many, reads_one, reads_star_one]
  constructor
  · rintro ⟨u, v, hs, is, rfl, rfl, ⟨⟨c, hc, rfl⟩, rfl⟩, hv, rfl⟩
    refine ⟨?_, rfl⟩
    rw [List.singleton_append, Text.isIdentifier, Bool.and_eq_true, List.all_eq_true]
    exact ⟨hc, hv⟩
  · rintro ⟨hw, rfl⟩
    obtain ⟨c, v, rfl⟩ := List.exists_cons_of_ne_nil (Text.ne_nil_of_isIdentifier hw)
    rw [Text.isIdentifier, Bool.and_eq_true, List.all_eq_true] at hw
    exact ⟨[c], v, [], [], rfl, rfl, ⟨⟨c, hw.1, rfl⟩, rfl⟩, hw.2, rfl⟩

def isPathChar (c : Char) : Bool := Text.isWordChar c || c == '$' || c == '.'

theorem isPathChar_of_startsIdentifier {c : Char}
    (h : (Text.isAsciiLetter c || c == '_' || c == '$') = true) : isPathChar c = true := by
  have hcontinues := Text.continuesIdentifier_of_starts h
  rw [Text.continuesIdentifier] at hcontinues
  rw [isPathChar, hcontinues, Bool.true_or]

theorem not_isWordChar_of_not_isPathChar {c : Char} (h : isPathChar c = false) :
    Text.isWordChar c = false := by
  rw [isPathChar, Bool.or_eq_false_iff, Bool.or_eq_false_iff] at h
  exact h.1.1

def keywords : List Text := ["let", "const", "var"]

/-- A declaration of `name` up to its colon, with the blanks `ws` after its keyword. -/
structure IsAnnotated (before w ws name : Text) : Prop where
  boundary : ∀ c ∈ before.head?, Text.isWordChar c = false
  ne_nil : ws ≠ []
  blank : Text.allBlank ws = true
  isIdentifier : Text.isIdentifier name = true
  split : ∃ kw ∈ keywords, ∃ bs cs, Text.allBlank bs = true ∧
    w = kw ++ (ws ++ (name ++ (bs ++ ':' :: cs)))

theorem not_isWordChar_of_atWordBoundary {c : Char} (hc : Text.isWordChar c = true)
    (h : Cursor.atWordBoundary ⟨before, c :: after⟩ = true) :
    ∀ d ∈ before.head?, Text.isWordChar d = false := by
  intro d hd
  simpa [Cursor.atWordBoundary, Option.mem_def.mp hd, hc] using h

theorem exists_cons_of_mem_keywords {kw : Text} (h : kw ∈ keywords) :
    ∃ c rest, kw = c :: rest ∧ Text.isWordChar c = true := by
  simp only [keywords, List.mem_cons, List.not_mem_nil, or_false] at h
  rcases h with rfl | rfl | rfl
  · exact ⟨'l', _, rfl, by decide⟩
  · exact ⟨'c', _, rfl, by decide⟩
  · exact ⟨'v', _, rfl, by decide⟩

theorem reads_keyword {kws : List Text} :
    (anyOf (kws.map literal)).Reads before w after gs ↔ w ∈ kws ∧ gs = [] := by
  rw [reads_anyOf]
  simp only [List.mem_map, exists_exists_and_eq_and, reads_literal]
  constructor
  · rintro ⟨kw, hkw, rfl, rfl⟩
    exact ⟨hkw, rfl⟩
  · rintro ⟨hw, rfl⟩
    exact ⟨w, hw, rfl, rfl⟩

theorem exists_of_reads_annotated (h : annotated.Reads before w after gs) :
    ∃ ws name, IsAnnotated before w ws name ∧ gs = [(2, name), (1, ws)] := by
  have hcolon : (":" : Text) = [':'] := rfl
  have hkeywords : anyOf ["let", "const", "var"] = anyOf (keywords.map literal) := rfl
  rw [annotated, hkeywords] at h
  simp only [reads_append, reads_keyword, reads_group, reads_blanks1, reads_blanks,
    reads_identifier, reads_literal, hcolon] at h
  obtain ⟨u₁, cs, hs₁, is₁, rfl, rfl, ⟨u₂, colon, hs₂, is₂, rfl, rfl, ⟨u₃, bs, hs₃, is₃, rfl, rfl,
    ⟨u₄, name, hs₄, is₄, rfl, rfl, ⟨u₅, ws, hs₅, is₅, rfl, rfl, ⟨u₆, kw, hs₆, is₆, rfl, rfl,
      hboundary, hkw, rfl⟩, is₇, rfl, hne, hblank, rfl⟩, is₈, rfl, hname, rfl⟩, hbs, rfl⟩,
      rfl, rfl⟩, -, rfl⟩ := h
  obtain ⟨rfl, rfl, hstart⟩ := hboundary
  obtain ⟨c, rest, rfl, hc⟩ := exists_cons_of_mem_keywords hkw
  refine ⟨ws, name, ⟨?_, hne, hblank, hname, _, hkw, bs, cs, hbs, ?_⟩, rfl⟩
  · exact not_isWordChar_of_atWordBoundary hc hstart
  · simp only [List.append_assoc, List.cons_append, List.nil_append]

theorem not_continuesIdentifier_colon {bs : Text} (hbs : Text.allBlank bs = true) (v : Text) :
    ∀ c ∈ (bs ++ ':' :: v).head?, Text.continuesIdentifier c = false := by
  intro c hc
  cases bs with
  | nil =>
    obtain rfl : ':' = c := by simpa using hc
    decide
  | cons b bs =>
    obtain rfl : b = c := by simpa using hc
    exact Text.not_continuesIdentifier_of_isBlank (List.all_eq_true.mp hbs b List.mem_cons_self)

theorem IsAnnotated.append {ws name : Text} (h : IsAnnotated before w ws name) (v : Text) :
    IsAnnotated before (w ++ v) ws name := by
  obtain ⟨kw, hkw, bs, cs, hbs, rfl⟩ := h.split
  refine { h with split := ⟨kw, hkw, bs, cs ++ v, hbs, ?_⟩ }
  simp only [List.append_assoc, List.cons_append]

theorem takesOnly_annotated {d : Char} (hkw : ∀ kw ∈ keywords, d ∉ kw)
    (hpath : isPathChar d = false) (hblank : Text.isBlank d = false) (hcolon : d ≠ ':') :
    annotated.TakesOnly (· ≠ d) := by
  have hpathChar : ∀ c, isPathChar c = true → c ≠ d := by
    rintro c hc rfl
    rw [hpath] at hc
    cases hc
  have hblanks : blank.TakesOnly (· ≠ d) := by
    rintro c hc rfl
    rw [hblank] at hc
    cases hc
  have hkeywords : (anyOf (keywords.map literal)).TakesOnly (· ≠ d) := by
    refine takesOnly_anyOf fun p hp => ?_
    obtain ⟨kw, hmem, rfl⟩ := List.mem_map.mp hp
    refine takesOnly_literal fun c hc => ?_
    rintro rfl
    exact hkw kw hmem hc
  have hname : Candidate.identifier.TakesOnly (· ≠ d) := by
    refine ⟨fun c hc => hpathChar c (isPathChar_of_startsIdentifier hc), fun c hc => ?_⟩
    exact hpathChar c (Bool.or_eq_true_iff.mpr (.inl hc))
  exact ⟨⟨⟨⟨⟨⟨trivial, hkeywords⟩, hblanks, hblanks⟩, hname⟩, hblanks⟩,
    takesOnly_literal (by simpa using hcolon.symm)⟩, hblanks⟩

theorem exists_of_reads_typedDeclaration (h : typedDeclaration.pattern.Reads before w after gs) :
    ∃ u ws name, w = u ++ ['='] ∧ '=' ∉ u ∧ IsAnnotated before w ws name ∧ gs.text 1 = ws ∧
      gs.text 2 = name := by
  have hbefore : (annotated ++ lazyMany1 (noneOf "=;\n") ++ blanks).TakesOnly (· ≠ '=') := by
    have hnone : (noneOf "=;\n").TakesOnly (· ≠ '=') := takesOnly_noneOf (by decide)
    refine ⟨⟨takesOnly_annotated (by decide) (by decide) (by decide) (by decide), hnone, hnone⟩, ?_⟩
    rintro c hc rfl
    exact absurd hc (by decide)
  obtain ⟨u, v, _, _, rfl, rfl, hu, hv⟩ := reads_append.mp h
  obtain ⟨rfl, rfl⟩ := (reads_literal _).mp hv
  have hequals : '=' ∉ u := fun hmem => forall_mem_of_reads hbefore hu _ hmem rfl
  simp only [noneOf, reads_append, reads_lazyMany1, reads_blanks] at hu
  obtain ⟨_, bs, _, _, rfl, rfl, ⟨_, type, _, _, rfl, rfl, hannotated, -, -, rfl⟩, -, rfl⟩ := hu
  obtain ⟨ws, name, hname, rfl⟩ := exists_of_reads_annotated hannotated
  exact ⟨_, ws, name, rfl, hequals, ((hname.append type).append bs).append _, rfl, rfl⟩

theorem exists_of_reads_typedDeclarationWithoutValue
    (h : typedDeclarationWithoutValue.pattern.Reads before w after gs) :
    ∃ u ws name, w = u ++ [';'] ∧ ';' ∉ u ∧ IsAnnotated before w ws name ∧ gs.text 1 = ws ∧
      gs.text 2 = name := by
  have hbefore : (annotated ++ many1 (noneOf "=;\n")).TakesOnly (· ≠ ';') := by
    have hnone : (noneOf "=;\n").TakesOnly (· ≠ ';') := takesOnly_noneOf (by decide)
    exact ⟨takesOnly_annotated (by decide) (by decide) (by decide) (by decide), hnone, hnone⟩
  obtain ⟨u, v, _, _, rfl, rfl, hu, hv⟩ := reads_append.mp h
  obtain ⟨rfl, rfl⟩ := (reads_literal _).mp hv
  have hsemicolon : ';' ∉ u := fun hmem => forall_mem_of_reads hbefore hu _ hmem rfl
  simp only [noneOf, reads_append, reads_many1] at hu
  obtain ⟨_, type, _, _, rfl, rfl, hannotated, -, -, rfl⟩ := hu
  obtain ⟨ws, name, hname, rfl⟩ := exists_of_reads_annotated hannotated
  exact ⟨_, ws, name, rfl, hsemicolon, (hname.append type).append _, rfl, rfl⟩

theorem exists_of_reads_blockScopedDeclaration
    (h : blockScopedDeclaration.pattern.Reads before w after gs) :
    ∃ g kw, w = g ++ kw ∧ (kw = "let" ∨ kw = "const") ∧ gs.text 1 = g ∧
      (before = [] ∧ g = [] ∨ ∃ c, g = [c] ∧ isPathChar c = false) ∧
      ∀ c ∈ after.head?, Text.isWordChar c = false := by
  have hkeywords : anyOf ["let", "const"] = anyOf ((["let", "const"] : List Text).map literal) :=
    rfl
  simp only [blockScopedDeclaration, hkeywords, reads_append, reads_keyword, Reads,
    Bool.not_eq_true', Bool.or_eq_false_iff] at h
  obtain ⟨u₁, v, hs₁, is₁, rfl, rfl, ⟨g, kw, hs₂, is₂, rfl, rfl, ⟨is₃, rfl, hg⟩, hkw, rfl⟩,
    rfl, rfl, hboundary⟩ := h
  have hlast : ∃ d, (g ++ kw).getLast? = some d ∧ Text.isWordChar d = true := by
    simp only [List.mem_cons, List.not_mem_nil, or_false] at hkw
    rcases hkw with rfl | rfl
    · exact ⟨'t', by rw [List.getLast?_append]; rfl, by decide⟩
    · exact ⟨'t', by rw [List.getLast?_append]; rfl, by decide⟩
  refine ⟨g, kw, List.append_nil _, by simpa using hkw, rfl, ?_, ?_⟩
  · rcases hg with ⟨rfl, -, hbefore⟩ | ⟨⟨c, hc, rfl⟩, -⟩
    · exact .inl ⟨hbefore, rfl⟩
    · exact .inr ⟨c, rfl, by simp [isPathChar, hc]⟩
  · obtain ⟨d, hd, hword⟩ := hlast
    have hhead : ((g ++ kw).reverse ++ before).head? = some d := by
      rw [List.head?_append, List.head?_reverse, hd, Option.some_or]
    intro c hc
    rw [Cursor.atWordBoundary, hhead, Option.mem_def.mp hc, Option.any_some, Option.any_some,
      hword] at hboundary
    simpa using hboundary

theorem of_reads_path (h : path.Reads before w after gs) :
    w ≠ [] ∧ (∀ c ∈ w, isPathChar c = true) ∧ gs = [] := by
  simp only [path, pathChar, Candidate.identifierStart, reads_append, reads_many, reads_one] at h
  obtain ⟨u, v, hs, is, rfl, rfl, ⟨⟨c, hc, rfl⟩, rfl⟩, hv, rfl⟩ := h
  exact ⟨List.cons_ne_nil c v,
    List.forall_mem_cons.mpr ⟨isPathChar_of_startsIdentifier hc, hv⟩, rfl⟩

theorem exists_of_reads_arraySpreadCopy (h : arraySpreadCopy.pattern.Reads before w after gs) :
    ∃ u v, w = '[' :: (u ++ ("..." ++ (v ++ [']']))) ∧ gs.text 1 ≠ [] ∧
      ∀ c ∈ gs.text 1, isPathChar c = true := by
  have hopen : ("[" : Text) = ['['] := rfl
  have hclose : ("]" : Text) = [']'] := rfl
  simp only [arraySpreadCopy, reads_append, reads_group, reads_blanks, reads_literal, hopen,
    hclose] at h
  obtain ⟨u₁, close, hs₁, is₁, rfl, rfl, ⟨u₂, bs₂, hs₂, is₂, rfl, rfl, ⟨u₃, name, hs₃, is₃, rfl,
    rfl, ⟨u₄, bs₄, hs₄, is₄, rfl, rfl, ⟨u₅, dots, hs₅, is₅, rfl, rfl, ⟨u₆, bs₆, hs₆, is₆, rfl, rfl,
      ⟨rfl, rfl⟩, -, rfl⟩, rfl, rfl⟩, -, rfl⟩, hs₇, rfl, hpath⟩, -, rfl⟩, rfl, rfl⟩ := h
  obtain ⟨hne, hname, rfl⟩ := of_reads_path hpath
  refine ⟨bs₆, bs₄ ++ (name ++ bs₂), ?_, hne, hname⟩
  simp only [List.append_assoc, List.cons_append, List.nil_append]

def constructorName : Pattern := wordBoundary ++ "new" ++ blanks1 ++ group 1 path

theorem exists_of_reads_constructorName (h : constructorName.Reads before w after gs) :
    ∃ u name, w = 'n' :: u ∧ gs = [(1, name)] ∧ ∀ c ∈ name, isPathChar c = true := by
  have hnew : ("new" : Text) = ['n', 'e', 'w'] := rfl
  simp only [constructorName, reads_append, reads_group, reads_blanks1, reads_literal, hnew] at h
  obtain ⟨u₁, name, hs₁, is₁, rfl, rfl, ⟨u₂, bs, hs₂, is₂, rfl, rfl, ⟨u₃, v, hs₃, is₃, rfl, rfl,
    hboundary, rfl, rfl⟩, -, -, rfl⟩, hs, rfl, hpath⟩ := h
  obtain ⟨rfl, rfl, -⟩ := hboundary
  obtain ⟨-, hname, rfl⟩ := of_reads_path hpath
  exact ⟨'e' :: 'w' :: (bs ++ name), name, by simp, rfl, hname⟩

def typeArguments : Pattern :=
  "<" ++ (many (noneOf "<>()") ++ (">" ++ (blanks ++ "(")))

theorem exists_of_reads_typeArguments (h : typeArguments.Reads before w after gs) :
    ∃ u, w = '<' :: (u ++ ['(']) ∧ gs = [] := by
  have hless : ("<" : Text) = ['<'] := rfl
  have hopen : ("(" : Text) = ['('] := rfl
  simp only [typeArguments, noneOf, reads_append, reads_blanks, reads_literal, reads_many, hless,
    hopen] at h
  obtain ⟨_, _, _, _, rfl, rfl, ⟨rfl, rfl⟩, v, _, _, _, rfl, rfl, ⟨-, rfl⟩, _, _, _, _, rfl, rfl,
    ⟨rfl, rfl⟩, bs, _, _, _, rfl, rfl, ⟨-, rfl⟩, rfl, rfl⟩ := h
  exact ⟨v ++ (">" ++ bs), by simp, rfl⟩

theorem reads_genericConstructorCall (h : genericConstructorCall.pattern.Reads before w after gs) :
    (wordBoundary ++ (literal "new" ++ (blanks1 ++ (group 1 path ++
      (blanks ++ typeArguments))))).Reads before w after gs := by
  have hsplit : genericConstructorCall.pattern = wordBoundary ++ "new" ++ blanks1 ++
      group 1 path ++ blanks ++ "<" ++ many (noneOf "<>()") ++ ">" ++ blanks ++ "(" := rfl
  rw [hsplit] at h
  simpa only [typeArguments, reads_assoc] using h

theorem exists_of_reads_genericConstructorCall
    (h : genericConstructorCall.pattern.Reads before w after gs) :
    ∃ u, w = 'n' :: (u ++ ['(']) ∧ '<' ∈ u ∧ ∀ c ∈ gs.text 1, isPathChar c = true := by
  have hparts : (constructorName ++ (blanks ++ typeArguments)).Reads before w after gs := by
    have hsplit : genericConstructorCall.pattern =
        constructorName ++ blanks ++ "<" ++ many (noneOf "<>()") ++ ">" ++ blanks ++ "(" := rfl
    rw [hsplit] at h
    simpa only [typeArguments, reads_assoc] using h
  simp only [reads_append, reads_blanks] at hparts
  obtain ⟨u₁, v₁, gs₁, hs₁, rfl, rfl, hname, bs, v₂, _, _, rfl, rfl, ⟨-, rfl⟩, hend⟩ := hparts
  obtain ⟨u, name, rfl, rfl, hchars⟩ := exists_of_reads_constructorName hname
  obtain ⟨v, rfl, rfl⟩ := exists_of_reads_typeArguments hend
  exact ⟨u ++ (bs ++ ('<' :: v)), by simp, by simp, hchars⟩

theorem exists_cons_of_reads_castType (h : castType.Reads before w after gs) :
    ∃ c u, w = c :: u ∧ isPathChar c = true := by
  have hsplit : castType = anyOf ((one (fun c => 65 ≤ c.toNat && c.toNat ≤ 90) ++ many pathChar ++
      optional ("<" ++ many (noneOf "<>") ++ ">")) ::
        (["any", "unknown", "number", "string", "boolean", "const"] : List Text).map literal) := rfl
  have hwords : ∀ t ∈ (["any", "unknown", "number", "string", "boolean", "const"] : List Text),
      t.head?.any isPathChar = true := by decide
  rw [hsplit, reads_anyOf] at h
  obtain ⟨p, hp, h⟩ := h
  rcases List.mem_cons.mp hp with rfl | hp
  · obtain ⟨_, v, _, _, rfl, -, hname, -⟩ := reads_append.mp h
    obtain ⟨_, u, _, _, rfl, -, ⟨⟨c, hc, rfl⟩, -⟩, -⟩ := reads_append.mp hname
    refine ⟨c, u ++ v, rfl, isPathChar_of_startsIdentifier ?_⟩
    have hletter : Text.isAsciiLetter c = true := Bool.or_eq_true_iff.mpr (.inr hc)
    rw [hletter, Bool.true_or, Bool.true_or]
  · obtain ⟨t, ht, rfl⟩ := List.mem_map.mp hp
    obtain ⟨rfl, -⟩ := (reads_literal _).mp h
    obtain ⟨c, hc, hpath⟩ := (Option.any_eq_true _ _).mp (hwords _ ht)
    obtain ⟨u, rfl⟩ := List.head?_eq_some_iff.mp hc
    exact ⟨c, u, rfl, hpath⟩

theorem exists_of_reads_cast (h : cast.pattern.Reads before w after gs) :
    ∃ ws bs v, w = ws ++ ("as" ++ (bs ++ v)) ∧ ws ≠ [] ∧ Text.allBlank ws = true ∧ bs ≠ [] ∧
      Text.allBlank bs = true ∧ ∃ c u, v = c :: u ∧ isPathChar c = true := by
  simp only [cast, reads_append, reads_blanks1, reads_literal] at h
  obtain ⟨u₁, v₁, hs₁, is₁, rfl, rfl, ⟨u₂, v₂, hs₂, is₂, rfl, rfl, ⟨u₃, bs, hs₃, is₃, rfl, rfl,
    ⟨ws, v₄, hs₄, is₄, rfl, rfl, ⟨hne, hws, rfl⟩, rfl, rfl⟩, hbs, hblank, rfl⟩, htype⟩, -⟩ := h
  obtain ⟨c, u, rfl, hc⟩ := exists_cons_of_reads_castType htype
  refine ⟨ws, bs, c :: u ++ v₁, ?_, hne, hws, hbs, hblank, c, u ++ v₁, rfl, hc⟩
  simp only [List.append_assoc]

theorem eq_nil_or_append_of_repeated {M : Text → Text → Text → GroupTexts → Prop}
    (h : Repeated M before w after gs) :
    w = [] ∨ ∃ u v, w = u ++ v ∧ ∃ before after gs, M before v after gs := by
  cases h with
  | nil => exact .inl rfl
  | append _ hv => exact .inr ⟨_, _, rfl, _, _, _, hv⟩

theorem exists_last_of_reads_name {test : Char → Bool}
    (h : (one test ++ many pathChar).Reads before w after gs) :
    ∃ u a, w = u ++ [a] ∧ (test a = true ∨ isPathChar a = true) := by
  simp only [pathChar, reads_append, reads_many, reads_one] at h
  obtain ⟨u, v, _, _, rfl, rfl, ⟨⟨c, hc, rfl⟩, rfl⟩, hv, rfl⟩ := h
  rcases List.eq_nil_or_concat v with rfl | ⟨v, a, rfl⟩
  · exact ⟨[], c, rfl, .inl hc⟩
  · exact ⟨c :: v, a, by simp, .inr (hv a (by simp))⟩

theorem exists_last_of_reads_castType (h : castType.Reads before w after gs) :
    ∃ u a, w = u ++ [a] ∧ a ≠ '/' := by
  have hless : (">" : Text) = ['>'] := rfl
  simp only [castType, reads_anyOf, List.mem_cons, List.not_mem_nil, or_false, exists_eq_or_imp,
    exists_eq_left, reads_literal] at h
  rcases h with h | ⟨rfl, -⟩ | ⟨rfl, -⟩ | ⟨rfl, -⟩ | ⟨rfl, -⟩ | ⟨rfl, -⟩ | ⟨rfl, -⟩
  · obtain ⟨u, v, _, _, rfl, rfl, hname, harguments⟩ := reads_append.mp h
    rcases reads_optional.mp harguments with harguments | ⟨rfl, -⟩
    · simp only [reads_append, reads_literal, hless] at harguments
      obtain ⟨x, _, _, _, rfl, rfl, -, rfl, -⟩ := harguments
      exact ⟨u ++ x, '>', by simp, by decide⟩
    · obtain ⟨x, a, rfl, ha⟩ := exists_last_of_reads_name hname
      refine ⟨x, a, by simp, ?_⟩
      rintro rfl
      revert ha
      decide
  · exact ⟨['a', 'n'], 'y', rfl, by decide⟩
  · exact ⟨['u', 'n', 'k', 'n', 'o', 'w'], 'n', rfl, by decide⟩
  · exact ⟨['n', 'u', 'm', 'b', 'e'], 'r', rfl, by decide⟩
  · exact ⟨['s', 't', 'r', 'i', 'n'], 'g', rfl, by decide⟩
  · exact ⟨['b', 'o', 'o', 'l', 'e', 'a'], 'n', rfl, by decide⟩
  · exact ⟨['c', 'o', 'n', 's'], 't', rfl, by decide⟩

theorem exists_last_of_reads_cast (h : cast.pattern.Reads before w after gs) :
    ∃ u a, w = u ++ [a] ∧ a ≠ '/' := by
  have hbrackets : ("[]" : Text) = ['[', ']'] := rfl
  obtain ⟨u, v, _, _, rfl, rfl, hcast, hmany⟩ := reads_append.mp h
  obtain ⟨x, y, _, _, rfl, rfl, -, htype⟩ := reads_append.mp hcast
  rcases eq_nil_or_append_of_repeated hmany with rfl | ⟨z, _, rfl, _, _, _, hlast⟩
  · obtain ⟨z, a, rfl, ha⟩ := exists_last_of_reads_castType htype
    exact ⟨x ++ z, a, by simp, ha⟩
  · obtain ⟨rfl, -⟩ := (reads_literal _).mp hlast
    exact ⟨x ++ (y ++ (z ++ ['['])), ']', by simp [hbrackets], by decide⟩
theorem exists_of_reads_nonNullAssertion (h : nonNullAssertion.pattern.Reads before w after gs) :
    ∃ c d, w = [c, '!', d] ∧ gs.text 1 = [c] ∧ gs.text 2 = [d] ∧
      (Text.isWordChar c || c == '$' || c == ')' || c == ']') = true ∧ d ∈ (".;),[" : Text) := by
  have hmark : ("!" : Text) = ['!'] := rfl
  simp only [nonNullAssertion, oneOf, reads_append, reads_group, reads_one, reads_literal,
    hmark] at h
  obtain ⟨u₁, v₁, hs₁, is₁, rfl, rfl, ⟨u₂, v₂, hs₂, is₂, rfl, rfl, ⟨hs₃, rfl, ⟨c, hc, rfl⟩, rfl⟩,
    rfl, rfl⟩, ⟨hs₄, rfl, ⟨d, hd, rfl⟩, rfl⟩⟩ := h
  exact ⟨c, d, rfl, rfl, rfl, hc, by simpa using hd⟩

def beforeCast : List Substitution :=
  [typedDeclaration, typedDeclarationWithoutValue, blockScopedDeclaration, arraySpreadCopy,
    genericConstructorCall]

theorem mem_all_iff {s : Substitution} :
    s ∈ all ↔ s ∈ beforeCast ∨ s = cast ∨ s = nonNullAssertion := by
  simp [all, beforeCast, or_assoc]

/-- What a match looks like, by the substitution it is one of. -/
inductive IsMatch (before w : Text) (gs : GroupTexts) : Substitution → Prop where
  | typed {s : Substitution} {u ws name : Text} {d : Char} (hw : w = u ++ [d])
      (hd : d ∈ ("=;" : Text)) (h : IsAnnotated before w ws name) : IsMatch before w gs s
  | blockScoped {g kw : Text} (hw : w = g ++ kw) (hkw : kw = "let" ∨ kw = "const")
      (hg : gs.text 1 = g)
      (hside : before = [] ∧ g = [] ∨ ∃ c, g = [c] ∧ isPathChar c = false) :
      IsMatch before w gs blockScopedDeclaration
  | spread {u v : Text} (hw : w = '[' :: (u ++ ("..." ++ (v ++ [']'])))) :
      IsMatch before w gs arraySpreadCopy
  | construction {u : Text} (hw : w = 'n' :: (u ++ ['('])) (hless : '<' ∈ u) :
      IsMatch before w gs genericConstructorCall

theorem isMatch_of_reads {s : Substitution} (hs : s ∈ beforeCast)
    (h : s.pattern.Reads before w after gs) : IsMatch before w gs s := by
  simp only [beforeCast, List.mem_cons, List.not_mem_nil, or_false] at hs
  rcases hs with rfl | rfl | rfl | rfl | rfl
  · obtain ⟨u, ws, name, hw, -, hname, -⟩ := exists_of_reads_typedDeclaration h
    exact .typed hw (by decide) hname
  · obtain ⟨u, ws, name, hw, -, hname, -⟩ := exists_of_reads_typedDeclarationWithoutValue h
    exact .typed hw (by decide) hname
  · obtain ⟨g, kw, hw, hkw, hg, hside, -⟩ := exists_of_reads_blockScopedDeclaration h
    exact .blockScoped hw hkw hg hside
  · obtain ⟨u, v, hw, -⟩ := exists_of_reads_arraySpreadCopy h
    exact .spread hw
  · obtain ⟨u, hw, hless, -⟩ := exists_of_reads_genericConstructorCall h
    exact .construction hw hless

end CanvasPage.Substitution
