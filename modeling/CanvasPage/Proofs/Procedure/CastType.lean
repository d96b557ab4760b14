import CanvasPage.Proofs.Procedure.Unfinished

namespace CanvasPage

/-- A type as a cast names it: a name, arguments between angles, and pairs of square brackets. -/
structure CastType where
  name : Text
  arguments : Option Text
  dimensions : Nat
  deriving DecidableEq, Repr

namespace CastType

open Pattern Substitution

def brackets : (dimensions : Nat) → Text
  | 0 => []
  | n + 1 => '[' :: ']' :: brackets n

def argumentText : Option Text → Text
  | none => []
  | some a => '<' :: (a ++ ['>'])

def text (T : CastType) : Text := T.name ++ (argumentText T.arguments ++ brackets T.dimensions)

def builtins : List Text := ["any", "unknown", "number", "string", "boolean", "const"]

def isCapital (c : Char) : Bool := 65 ≤ c.toNat && c.toNat ≤ 90

def isTypeName : Text → Bool
  | [] => false
  | c :: rest => isCapital c && rest.all isPathChar

def hasNoAngle (t : Text) : Bool := t.all fun c => c != '<' && c != '>'

inductive IsSupported : CastType → Prop where
  | builtin {name : Text} {n : Nat} (h : name ∈ builtins) : IsSupported ⟨name, none, n⟩
  | named {name : Text} {arguments : Option Text} {n : Nat} (h : isTypeName name = true)
      (harguments : ∀ a ∈ arguments, hasNoAngle a = true) : IsSupported ⟨name, arguments, n⟩

variable {before w after name a : Text} {gs : GroupTexts} {T : CastType}

theorem not_mem_of_hasNoAngle (h : hasNoAngle a = true) : '<' ∉ a ∧ '>' ∉ a := by
  simp only [hasNoAngle, List.all_eq_true, Bool.and_eq_true, bne_iff_ne] at h
  exact ⟨fun hmem => (h _ hmem).1 rfl, fun hmem => (h _ hmem).2 rfl⟩

theorem isPathChar_of_isCapital {c : Char} (h : isCapital c = true) : isPathChar c = true := by
  refine isPathChar_of_startsIdentifier ?_
  have hletter : Text.isAsciiLetter c = true := Bool.or_eq_true_iff.mpr (.inr h)
  rw [hletter, Bool.true_or, Bool.true_or]

theorem isPathChar_of_isTypeName (h : isTypeName name = true) :
    name ≠ [] ∧ ∀ c ∈ name, isPathChar c = true := by
  cases name with
  | nil => cases h
  | cons c name =>
    rw [isTypeName, Bool.and_eq_true, List.all_eq_true] at h
    exact ⟨List.cons_ne_nil c name,
      List.forall_mem_cons.mpr ⟨isPathChar_of_isCapital h.1, h.2⟩⟩

theorem isPathChar_of_mem_builtins :
    ∀ name ∈ builtins, name ≠ [] ∧ ∀ c ∈ name, isPathChar c = true := by
  decide

namespace IsSupported

variable (hT : T.IsSupported)

include hT

theorem name_ne_nil : T.name ≠ [] := by
  cases hT with
  | builtin h => exact (isPathChar_of_mem_builtins _ h).1
  | named h _ => exact (isPathChar_of_isTypeName h).1

theorem isPathChar : ∀ c ∈ T.name, Substitution.isPathChar c = true := by
  cases hT with
  | builtin h => exact (isPathChar_of_mem_builtins _ h).2
  | named h _ => exact (isPathChar_of_isTypeName h).2

theorem hasNoAngle : ∀ a ∈ T.arguments, CastType.hasNoAngle a = true := by
  cases hT with
  | builtin _ => simp
  | named _ harguments => exact harguments

theorem name_ne_as (t u : Text) : T.text ++ t ≠ 'a' :: 's' :: u := by
  cases hT with
  | builtin h =>
    simp only [builtins, List.mem_cons, List.not_mem_nil, or_false] at h
    rcases h with rfl | rfl | rfl | rfl | rfl | rfl <;> simp [text]
  | @named name _ _ h _ =>
    cases name with
    | nil => cases h
    | cons c name =>
      rw [isTypeName, Bool.and_eq_true] at h
      intro heq
      obtain rfl : c = 'a' := (List.cons.inj heq).1
      exact absurd h.1 (by decide)

end IsSupported

section Readings

theorem mem_brackets {n : Nat} : ∀ c ∈ brackets n, c = '[' ∨ c = ']' := by
  induction n with
  | zero => simp [brackets]
  | succ n ih => simpa [brackets] using ih

theorem brackets_succ (n : Nat) : brackets n ++ ['[', ']'] = brackets (n + 1) := by
  induction n with
  | zero => rfl
  | succ n ih => rw [brackets, List.cons_append, List.cons_append, ih, ← brackets]

theorem IsSupported.exists_last (hT : T.IsSupported) : ∃ u c, T.text = u ++ [c] ∧ c ≠ ';' := by
  obtain ⟨name, arguments, n⟩ := T
  cases n with
  | succ n => exact ⟨name ++ (argumentText arguments ++ (brackets n ++ ['['])), ']', by
      simp [text, ← brackets_succ], by decide⟩
  | zero =>
    cases arguments with
    | some a => exact ⟨name ++ ('<' :: a), '>', by simp [text, argumentText, brackets], by decide⟩
    | none =>
      have hsplit := List.dropLast_append_getLast hT.name_ne_nil
      refine ⟨_, _, by simpa [text, argumentText, brackets] using hsplit.symm, fun hlast => ?_⟩
      have hpath := hT.isPathChar _ (List.getLast_mem hT.name_ne_nil)
      rw [hlast] at hpath
      cases hpath

theorem reads_brackets :
    (many "[]").Reads before w after gs ↔ (∃ n, w = brackets n) ∧ gs = [] := by
  have hpair : ("[]" : Text) = ['[', ']'] := rfl
  rw [many, Reads]
  constructor
  · intro h
    induction h with
    | nil => exact ⟨⟨0, rfl⟩, rfl⟩
    | append _ hv ih =>
      obtain ⟨⟨n, rfl⟩, rfl⟩ := ih
      obtain ⟨rfl, rfl⟩ := (reads_literal _).mp hv
      exact ⟨⟨n + 1, brackets_succ n⟩, rfl⟩
  · rintro ⟨⟨n, rfl⟩, rfl⟩
    induction n generalizing after with
    | zero => exact .nil after
    | succ n ih =>
      rw [← brackets_succ]
      have hround : (literal "[]").Reads ((List.replicate n ("[]" : Text)).flatten.reverse ++ before)
          ['[', ']'] after [] := (reads_literal _).mpr ⟨hpair.symm, rfl⟩
      exact .append ih hround

theorem reads_arguments : (optional ("<" ++ many (noneOf "<>") ++ ">")).Reads before w after gs ↔
    (∃ arguments, w = argumentText arguments ∧ ∀ a ∈ arguments, hasNoAngle a = true) ∧ gs = [] := by
  have hless : ("<" : Text) = ['<'] := rfl
  have hgreater : (">" : Text) = ['>'] := rfl
  simp only [noneOf, reads_optional, reads_append, reads_literal, reads_many, hless, hgreater]
  constructor
  · rintro (⟨_, _, _, _, rfl, rfl, ⟨_, a, _, _, rfl, rfl, ⟨rfl, rfl⟩, ha, rfl⟩, rfl, rfl⟩ |
      ⟨rfl, rfl⟩)
    · refine ⟨⟨some a, rfl, ?_⟩, rfl⟩
      simpa [hasNoAngle] using ha
    · exact ⟨⟨none, rfl, by simp⟩, rfl⟩
  · rintro ⟨⟨_ | a, rfl, ha⟩, rfl⟩
    · exact .inr ⟨rfl, rfl⟩
    · refine .inl ⟨'<' :: a, ['>'], [], [], rfl, rfl, ⟨['<'], a, [], [], rfl, rfl, ⟨rfl, rfl⟩, ?_,
        rfl⟩, rfl, rfl⟩
      simpa [hasNoAngle] using ha a rfl

theorem reads_typeName : (one isCapital ++ many pathChar).Reads before w after gs ↔
    isTypeName w = true ∧ gs = [] := by
  simp only [pathChar, reads_append, reads_many, reads_one]
  constructor
  · rintro ⟨_, v, _, _, rfl, rfl, ⟨⟨c, hc, rfl⟩, rfl⟩, hv, rfl⟩
    rw [List.singleton_append, isTypeName, hc, Bool.true_and, List.all_eq_true]
    exact ⟨hv, rfl⟩
  · rintro ⟨h, rfl⟩
    cases w with
    | nil => cases h
    | cons c w =>
      rw [isTypeName, Bool.and_eq_true, List.all_eq_true] at h
      exact ⟨[c], w, [], [], rfl, rfl, ⟨⟨c, h.1, rfl⟩, rfl⟩, h.2, rfl⟩

/-- The supported types are those that the pattern of a cast reads. -/
theorem reads_castType_iff : (castType ++ many "[]").Reads before w after gs ↔
    (∃ T : CastType, T.IsSupported ∧ w = T.text) ∧ gs = [] := by
  have hsplit : castType = anyOf ((one isCapital ++ many pathChar ++
      optional ("<" ++ many (noneOf "<>") ++ ">")) :: builtins.map literal) := rfl
  simp only [hsplit, reads_append, reads_anyOf, reads_brackets, List.mem_cons, exists_eq_or_imp,
    List.mem_map, exists_exists_and_eq_and, reads_literal, reads_arguments]
  constructor
  · rintro ⟨_, _, _, _, rfl, rfl, ⟨_, _, _, _, rfl, rfl, hname, ⟨arguments, rfl, ha⟩, rfl⟩ |
      ⟨_, hname, rfl, rfl⟩, ⟨n, rfl⟩, rfl⟩
    · obtain ⟨hcapital, rfl⟩ := reads_typeName.mp (reads_append.mpr hname)
      exact ⟨⟨⟨_, arguments, n⟩, .named hcapital ha, by simp [text]⟩, rfl⟩
    · exact ⟨⟨⟨_, none, n⟩, .builtin hname, rfl⟩, rfl⟩
  · rintro ⟨⟨T, hT, rfl⟩, rfl⟩
    cases hT with
    | @builtin name n h =>
      exact ⟨name, brackets n, [], [], rfl, rfl, .inr ⟨name, h, rfl, rfl⟩, ⟨n, rfl⟩, rfl⟩
    | @named name arguments n h ha =>
      exact ⟨name ++ argumentText arguments, brackets n, [], [], by simp [text], rfl,
        .inl ⟨name, _, [], [], rfl, rfl, reads_append.mp (reads_typeName.mpr ⟨h, rfl⟩),
          ⟨arguments, rfl, ha⟩, rfl⟩, ⟨n, rfl⟩, rfl⟩

theorem exists_type_of_reads_cast (h : cast.pattern.Reads before w after gs) :
    ∃ ws bs T, w = ws ++ ("as" ++ (bs ++ text T)) ∧ ws ≠ [] ∧ Text.allBlank ws = true ∧ bs ≠ [] ∧
      Text.allBlank bs = true ∧ T.IsSupported := by
  have hparts : (blanks1 ++ "as" ++ blanks1 ++ (castType ++ many "[]")).Reads before w after gs :=
    (reads_assoc _ _ _).mp h
  rw [reads_append] at hparts
  obtain ⟨_, _, _, _, rfl, -, hhead, htype⟩ := hparts
  obtain ⟨⟨T, hT, rfl⟩, -⟩ := reads_castType_iff.mp htype
  simp only [reads_append, reads_blanks1, reads_literal] at hhead
  obtain ⟨_, bs, _, _, rfl, -, ⟨ws, _, _, _, rfl, -, ⟨hne, hws, -⟩, rfl, -⟩, hbs, hblank, -⟩ := hhead
  exact ⟨ws, bs, T, by simp, hne, hws, hbs, hblank, hT⟩

end Readings

end CastType

end CanvasPage
