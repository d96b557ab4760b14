import CanvasPage.Script.Lexer

namespace CanvasPage.Script

inductive Bracket where
  | brace
  | paren
  | square
  deriving DecidableEq, Repr

namespace Bracket

def opener : Bracket → Char
  | brace => '{'
  | paren => '('
  | square => '['

def closer : Bracket → Char
  | brace => '}'
  | paren => ')'
  | square => ']'

def ofOpener? (c : Char) : Option Bracket :=
  if c == '{' then some brace
  else if c == '(' then some paren
  else if c == '[' then some square
  else none

/-- The text up to the closer of a bracket that `depth` further brackets of its kind are open in,
and the text after that closer. Brackets in literals do not count. -/
def closeFrom (b : Bracket) (depth : Nat) (s : State) : Text → Option (Text × Text)
  | [] => none
  | c :: rest =>
      if s.isCode && c == b.closer then
        match depth with
        | 0 => some ([], rest)
        | depth + 1 =>
            (closeFrom b depth (s.step c) rest).map fun (inside, after) => (c :: inside, after)
      else
        (closeFrom b (if s.isCode && c == b.opener then depth + 1 else depth) (s.step c) rest).map
          fun (inside, after) => (c :: inside, after)

theorem eq_of_closeFrom (b : Bracket) (depth : Nat) (s : State) (t : Text)
    {inside after : Text} (h : b.closeFrom depth s t = some (inside, after)) :
    t = inside ++ b.closer :: after := by
  fun_induction closeFrom b depth s t generalizing inside after with
  | case1 => simp at h
  | case2 s c rest hc =>
    obtain ⟨rfl, rfl⟩ : [] = inside ∧ rest = after := by simpa using h
    simp only [Bool.and_eq_true, beq_iff_eq] at hc
    rw [hc.2, List.nil_append]
  | case3 s c rest hc depth ih =>
    obtain ⟨⟨i, a⟩, hi, heq⟩ := Option.map_eq_some_iff.mp h
    obtain ⟨rfl, rfl⟩ : c :: i = inside ∧ a = after := by simpa using heq
    rw [ih hi, List.cons_append]
  | case4 depth s c rest hc ih =>
    obtain ⟨⟨i, a⟩, hi, heq⟩ := Option.map_eq_some_iff.mp h
    obtain ⟨rfl, rfl⟩ : c :: i = inside ∧ a = after := by simpa using heq
    rw [ih hi, List.cons_append]

/-- What a bracket encloses and what follows its closer, from the text after its opener. -/
def enclosed? (b : Bracket) (t : Text) : Option (Text × Text) := b.closeFrom 0 .start t

end Bracket

/-- The byte offset of the delimiter that closes the one at a byte offset. -/
def matchingDelimiter (t : Text) (offset : Nat) : Option Nat :=
  match Text.dropBytes offset t with
  | none | some [] => none
  | some (c :: rest) => do
      let bracket ← Bracket.ofOpener? c
      let (inside, _) ← bracket.enclosed? rest
      return offset + 1 + Text.byteLength inside

/-- How many brackets of a kind are open after a text that begins with `depth` of them open. A
closer without an opener leaves none. Brackets in literals do not count. -/
def Bracket.depthAfter? (b : Bracket) (depth : Nat) (s : State) : Text → Option Nat
  | [] => some depth
  | c :: rest =>
      if s.isCode && c == b.closer then
        match depth with
        | 0 => none
        | depth + 1 => depthAfter? b depth (s.step c) rest
      else depthAfter? b (if s.isCode && c == b.opener then depth + 1 else depth) (s.step c) rest

def Bracket.isBalanced (b : Bracket) (t : Text) : Bool := b.depthAfter? 0 .start t == some 0

/-- A text that can stand in code: every literal ends in it, and brackets pair up. -/
def isClosed (t : Text) : Bool :=
  (State.start.run t).isCode && [Bracket.brace, .paren, .square].all (·.isBalanced t)

theorem Bracket.closeFrom_append (b : Bracket) (depth : Nat) (s : State) (t u : Text)
    (ht : b.depthAfter? depth s t = some 0) (hs : (s.run t).isCode = true) :
    b.closeFrom depth s (t ++ b.closer :: u) = some (t, u) := by
  fun_induction depthAfter? b depth s t with
  | case1 depth s =>
    obtain rfl : depth = 0 := by simpa using ht
    rw [State.run_nil] at hs
    simp [closeFrom, hs]
  | case2 s c rest hc => simp at ht
  | case3 s c rest hc depth ih =>
    rw [State.run_cons] at hs
    simp [closeFrom, hc, ih ht hs]
  | case4 depth s c rest hc ih =>
    rw [State.run_cons] at hs
    rw [List.cons_append, closeFrom.eq_def]
    simp only [if_neg hc, ih ht hs, Option.map_some]

theorem isBalanced_of_isClosed {t : Text} (h : isClosed t = true) (b : Bracket) :
    b.isBalanced t = true := by
  simp only [isClosed, Bool.and_eq_true, List.all_eq_true] at h
  cases b <;> exact h.2 _ (by simp)

theorem Bracket.enclosed?_append (b : Bracket) {t : Text} (u : Text) (h : isClosed t = true) :
    b.enclosed? (t ++ b.closer :: u) = some (t, u) := by
  have hb := isBalanced_of_isClosed h b
  rw [isClosed, Bool.and_eq_true] at h
  exact b.closeFrom_append 0 .start t u (beq_iff_eq.mp hb) h.1

end CanvasPage.Script
