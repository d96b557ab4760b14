import CanvasPage.Script.Lexer

namespace CanvasPage.Script

inductive Role where
  | code
  | opens
  | inside
  deriving DecidableEq, Repr

/-- What a character is to the literals of its text: `s` is the state before it and `next` the
character after it. -/
def State.role (s : State) (c : Char) (next : Option Char) : Role :=
  if !s.nesting.isEmpty then .inside
  else match s.mode with
    | .code =>
        if isQuote c || isBacktick c || (c == '/' && (next == some '/' || next == some '*')) then
          .opens
        else .code
    | .slash =>
        if c == '/' || c == '*' then .inside
        else if isQuote c || isBacktick c then .opens
        else .code
    | .lineComment | .quoted _ => if c == '\n' then .code else .inside
    | _ => .inside

def roles (s : State) : Text → List Role
  | [] => []
  | c :: rest => s.role c rest.head? :: roles (s.step c) rest

theorem length_roles (s : State) (t : Text) : (roles s t).length = t.length := by
  induction t generalizing s with
  | nil => rfl
  | cons c t ih => rw [roles, List.length_cons, List.length_cons, ih]

inductive Segment where
  | code (text : Text)
  | literal (text : Text)
  deriving DecidableEq, Repr

def Segment.text : Segment → Text
  | .code t => t
  | .literal t => t

def Segment.ofRole : Role → Text → Segment
  | .code, t => .code t
  | _, t => .literal t

@[simp] theorem Segment.text_ofRole (r : Role) (t : Text) : (Segment.ofRole r t).text = t := by
  cases r <;> rfl

/-- Do two neighbouring characters belong to one segment? -/
def Role.joins : Role → Role → Bool
  | _, .inside => true
  | .code, .code => true
  | _, _ => false

def chunk : List (Role × Char) → List Segment
  | [] => []
  | [(r, c)] => [.ofRole r [c]]
  | (r, c) :: (r', c') :: rest =>
      match r.joins r', chunk ((r', c') :: rest) with
      | true, s :: ss => .ofRole r (c :: s.text) :: ss
      | _, ss => .ofRole r [c] :: ss

/-- A text cut into its literals (strings, templates and comments) and the code between them. -/
def segments (t : Text) : List Segment := chunk ((roles .start t).zip t)

theorem flatten_chunk (rcs : List (Role × Char)) :
    (chunk rcs).flatMap Segment.text = rcs.map (·.2) := by
  fun_induction chunk rcs with
  | case1 => rfl
  | case2 r c => simp
  | case3 r c r' c' rest s ss hs hj ih =>
    rw [hs] at ih
    simpa using ih
  | case4 r c r' c' rest hx ih =>
    simpa using ih

theorem flatten_segments (t : Text) : (segments t).flatMap Segment.text = t := by
  rw [segments, flatten_chunk, List.map_snd_zip (Nat.le_of_eq (length_roles .start t).symm)]

def literalSpans (offset : Nat) : List Segment → List Span
  | [] => []
  | .code t :: rest => literalSpans (offset + Text.byteLength t) rest
  | .literal t :: rest =>
      ⟨offset, offset + Text.byteLength t⟩ :: literalSpans (offset + Text.byteLength t) rest

/-- The byte ranges of the literals of a text, in order. -/
def literalRanges (t : Text) : List Span := literalSpans 0 (segments t)

/-- Does the character at an index belong to a literal? -/
def inLiteral (t : Text) (index : Nat) : Bool :=
  ((roles .start t)[index]?).any (· != .code)

end CanvasPage.Script
