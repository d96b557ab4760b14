import CanvasPage.Proofs.Procedure.TypeAnnotation

namespace CanvasPage.Procedure

open Substitution

/-- A variable of a declaration, with its type and what it is set to. -/
structure Declarator where
  name : Variable
  type : Operand
  value? : Option Operand

namespace Declarator

def valueText (d : Declarator) : Text :=
  match d.value? with
  | some e => " = " ++ e.text
  | none => []

def text (d : Declarator) : Text := d.name.text ++ (": " ++ (d.type.text ++ d.valueText))

def following (ds : List Declarator) : Text := ds.flatMap fun d => ", " ++ d.text

/-- What follows the first name in a declaration that has been rewritten. The first value there is
goes to that name, whatever variable it was meant for. The variables in between are gone, and those
behind have kept their types. -/
def kept : List Declarator → Text
  | [] => []
  | d :: ds =>
      match d.value? with
      | some e => " = " ++ (e.text ++ following ds)
      | none => kept ds

/-- What follows the colon of the first variable. -/
def tail (d : Declarator) (ds : List Declarator) : Text :=
  ' ' :: (d.type.text ++ (d.valueText ++ following ds))

variable (d : Declarator) (ds : List Declarator) (e : Operand)

theorem join_text : Text.join ", " ((d :: ds).map text) = d.name.text ++ ':' :: d.tail ds := by
  have hcolon : (": " : Text) = [':', ' '] := rfl
  induction ds generalizing d with
  | nil => simp [Text.join, text, tail, following, hcolon]
  | cons d' ds ih =>
    have hrest := ih d'
    rw [List.map_cons, List.map_cons, Text.join_cons_cons, ← List.map_cons, hrest]
    simp [text, tail, following, hcolon]

theorem following_cons : following (d :: ds) ++ ";" =
    ", " ++ (d.name.operand.text ++ (": " ++ (d.type.text ++ (d.valueText ++
      (following ds ++ ";"))))) := by
  simp [following, text, Variable.operand]

theorem spotAfter?_following :
    spotAfter? .apart (e.text ++ (following ds ++ ";")) = some .apart := by
  induction ds generalizing e with
  | nil =>
    have h := e.spotAfter?_append semicolon_mem_separators []
    rw [List.append_nil] at h
    exact h
  | cons d ds ih =>
    rw [following_cons, e.spotAfter?_append (by simp [separators]),
      d.name.operand.spotAfter?_append (by simp [separators]), valueText]
    cases d.value? with
    | none => exact ih d.type
    | some e =>
      dsimp only
      rw [List.append_assoc, d.type.spotAfter?_append (by simp [separators])]
      exact ih e

theorem isDeclarationChar_text : ∀ c ∈ d.text, isDeclarationChar c = true := by
  rw [text, valueText]
  simp only [List.forall_mem_append]
  refine ⟨d.name.operand.isDeclarationChar, by decide, d.type.isDeclarationChar, ?_⟩
  cases d.value? with
  | none => simp
  | some e => exact List.forall_mem_append.mpr ⟨by decide, e.isDeclarationChar⟩

theorem isDeclarationChar_following : ∀ c ∈ following ds, isDeclarationChar c = true := by
  intro c hc
  obtain ⟨d, -, hc⟩ := List.mem_flatMap.mp hc
  have hcomma : ∀ c ∈ (", " : Text), isDeclarationChar c = true := by decide
  exact List.forall_mem_append.mpr ⟨hcomma, d.isDeclarationChar_text⟩ c hc

theorem isTrail_following : IsTrail (' ' :: (e.text ++ (following ds ++ ";"))) where
  chars := by
    simp only [List.forall_mem_cons, List.forall_mem_append]
    exact ⟨by decide, e.isDeclarationChar, isDeclarationChar_following ds, by decide⟩
  spots := (congrArg Option.isSome (spotAfter?_following ds e)).trans rfl
  last := by
    rw [← List.append_assoc, ← List.cons_append]
    exact List.getLast?_concat

/-- The first equals sign among the variables, and what is kept from there on. -/
structure IsValued (mid rest : Text) : Prop where
  tail : d.tail ds ++ ";" = mid ++ '=' :: rest
  ne_nil : mid ≠ []
  type : ∀ c ∈ mid, isTypeChar c = true
  trail : IsTrail rest
  kept : Declarator.kept (d :: ds) ++ ";" = " =" ++ rest

variable {d ds e}

theorem isValued_of_value (hd : d.value? = some e) :
    d.IsValued ds (' ' :: (d.type.text ++ [' '])) (' ' :: (e.text ++ (following ds ++ ";"))) where
  tail := by
    have hvalue : (" = " : Text) = [' ', '=', ' '] := rfl
    simp [Declarator.tail, valueText, hd, hvalue]
  ne_nil := List.cons_ne_nil _ _
  type := by
    simp only [List.forall_mem_cons, List.forall_mem_append]
    exact ⟨by decide, d.type.isTypeChar, by decide, by simp⟩
  trail := isTrail_following ds e
  kept := by
    have hvalue : (" = " : Text) = [' ', '=', ' '] ∧ (" =" : Text) = [' ', '='] := ⟨rfl, rfl⟩
    simp [Declarator.kept, hd, hvalue]

theorem isTypeChar_unvalued (d' : Declarator) :
    ∀ c ∈ ' ' :: (d.type.text ++ (", " ++ (d'.name.text ++ [':']))), isTypeChar c = true := by
  simp only [List.forall_mem_cons, List.forall_mem_append]
  exact ⟨by decide, d.type.isTypeChar, by decide, d'.name.operand.isTypeChar, by decide, by simp⟩

theorem tail_cons (hd : d.value? = none) (d' : Declarator) (ds : List Declarator) :
    d.tail (d' :: ds) =
      ' ' :: (d.type.text ++ (", " ++ (d'.name.text ++ [':']))) ++ d'.tail ds := by
  have hcolon : (": " : Text) = [':', ' '] := rfl
  simp [tail, valueText, hd, following, text, hcolon]

variable (d ds)

theorem isValued_cases : (∃ mid rest, d.IsValued ds mid rest) ∨
    (∀ c ∈ d.tail ds, isTypeChar c = true) ∧ kept (d :: ds) = [] := by
  induction ds generalizing d with
  | nil =>
    cases hd : d.value? with
    | some e => exact .inl ⟨_, _, isValued_of_value hd⟩
    | none =>
      have hspace : isTypeChar ' ' = true := by decide
      refine .inr ⟨?_, by simp [kept, hd]⟩
      simpa [tail, valueText, hd, following, hspace] using d.type.isTypeChar
  | cons d' ds ih =>
    cases hd : d.value? with
    | some e => exact .inl ⟨_, _, isValued_of_value hd⟩
    | none =>
      have hkept : kept (d :: d' :: ds) = kept (d' :: ds) := by rw [kept, hd]
      have htypes := isTypeChar_unvalued (d := d) d'
      rcases ih d' with ⟨mid, rest, h⟩ | ⟨hchars, hnil⟩
      · refine .inl ⟨_ ++ mid, rest, ?_, List.cons_ne_nil _ _,
          List.forall_mem_append.mpr ⟨htypes, h.type⟩, h.trail, by rw [hkept, h.kept]⟩
        rw [tail_cons hd, List.append_assoc, h.tail, List.append_assoc]
      · refine .inr ⟨?_, hkept.trans hnil⟩
        rw [tail_cons hd]
        exact List.forall_mem_append.mpr ⟨htypes, hchars⟩

end Declarator

variable {kw : Text}

/-- Of the types of a declaration only those up to the first value are dropped, together with all
but the first of the variables that have them. -/
theorem rewriteBody_declarators (hkw : kw ∈ keywords) (d : Declarator) (ds : List Declarator) :
    rewriteBody (kw ++ " " ++ Text.join ", " ((d :: ds).map Declarator.text) ++ ";") =
      "var " ++ d.name.text ++ Declarator.kept (d :: ds) ++ ";" := by
  have hspace : (" " : Text) = [' '] := rfl
  have hraw : kw ++ " " ++ Text.join ", " ((d :: ds).map Declarator.text) ++ ";" =
      kw ++ ' ' :: (d.name.text ++ ':' :: (d.tail ds ++ ";")) := by
    rw [Declarator.join_text]
    simp [hspace]
  rw [hraw]
  rcases d.isValued_cases ds with ⟨mid, rest, h⟩ | ⟨hchars, hnil⟩
  · have hvalued := rewriteBody_valued hkw d.name h.ne_nil h.type h.trail
    rw [h.tail, List.append_assoc, h.kept, List.append_assoc]
    simpa using hvalued
  · have hne : d.tail ds ≠ [] := List.cons_ne_nil _ _
    have hunvalued := rewriteBody_unvalued hkw d.name hne hchars
    rw [hnil]
    simpa using hunvalued

def spanDeclarators : List Declarator :=
  [⟨⟨"from", by decide, by decide⟩, ⟨"number", by decide, by decide, by decide⟩,
      some ⟨"0.5", by decide, by decide, by decide⟩⟩,
    ⟨⟨"to", by decide, by decide⟩, ⟨"Point", by decide, by decide, by decide⟩, none⟩]

theorem rewriteBody_declarators_span :
    ("const" : Text) ∈ keywords ∧
      rewriteBody ("const" ++ " " ++ Text.join ", " (spanDeclarators.map Declarator.text) ++ ";") =
        "var " ++ "from" ++ Declarator.kept spanDeclarators ++ ";" := by
  have hkeyword : ("const" : Text) ∈ keywords := by simp [keywords]
  exact ⟨hkeyword, rewriteBody_declarators hkeyword _ _⟩

/-- A variable without a value takes that of the next one, which is gone. -/
example : rewriteBody "let a: number, b: string = c;" = "var a = c;" := by decide +kernel

end CanvasPage.Procedure
