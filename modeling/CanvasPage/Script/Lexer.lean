import CanvasPage.Text.Basic

namespace CanvasPage.Script

inductive Mode where
  | code
  | slash
  | lineComment
  | blockComment
  | blockCommentStar
  | quoted (quote : Char)
  | quotedEscape (quote : Char)
  | template
  | templateEscape
  | templateDollar
  deriving DecidableEq, Repr

/-- Where a reader of script text stands. `nesting` has an entry for each template expression it
is inside of, the innermost first: the number of braces open in that expression. -/
structure State where
  mode : Mode
  nesting : List Nat
  deriving DecidableEq, Repr

def State.start : State := ⟨.code, []⟩

def isQuote (c : Char) : Bool := c == '\'' || c == '"'

def isBacktick (c : Char) : Bool := c.toNat == 96

def stepCode (nesting : List Nat) (c : Char) : State :=
  if isQuote c then ⟨.quoted c, nesting⟩
  else if isBacktick c then ⟨.template, nesting⟩
  else if c == '/' then ⟨.slash, nesting⟩
  else match nesting with
    | [] => ⟨.code, []⟩
    | braces :: outer =>
        if c == '{' then ⟨.code, (braces + 1) :: outer⟩
        else if c == '}' then
          match braces with
          | 0 => ⟨.template, outer⟩
          | braces + 1 => ⟨.code, braces :: outer⟩
        else ⟨.code, braces :: outer⟩

def stepTemplate (nesting : List Nat) (c : Char) : State :=
  if c == '\\' then ⟨.templateEscape, nesting⟩
  else if isBacktick c then ⟨.code, nesting⟩
  else if c == '$' then ⟨.templateDollar, nesting⟩
  else ⟨.template, nesting⟩

def State.step (s : State) (c : Char) : State :=
  match s.mode with
  | .code => stepCode s.nesting c
  | .slash =>
      if c == '/' then ⟨.lineComment, s.nesting⟩
      else if c == '*' then ⟨.blockComment, s.nesting⟩
      else stepCode s.nesting c
  | .lineComment => if c == '\n' then ⟨.code, s.nesting⟩ else s
  | .blockComment => if c == '*' then ⟨.blockCommentStar, s.nesting⟩ else s
  | .blockCommentStar =>
      if c == '/' then ⟨.code, s.nesting⟩
      else if c == '*' then s
      else ⟨.blockComment, s.nesting⟩
  | .quoted q =>
      if c == '\\' then ⟨.quotedEscape q, s.nesting⟩
      else if c == '\n' || c == q then ⟨.code, s.nesting⟩
      else s
  | .quotedEscape q => ⟨.quoted q, s.nesting⟩
  | .template => stepTemplate s.nesting c
  | .templateEscape => ⟨.template, s.nesting⟩
  | .templateDollar =>
      if c == '{' then ⟨.code, 0 :: s.nesting⟩ else stepTemplate s.nesting c

def State.run (s : State) (t : Text) : State := t.foldl State.step s

/-- Outside every string, template and comment. -/
def State.isCode (s : State) : Bool :=
  s.nesting.isEmpty && (s.mode == .code || s.mode == .slash)

theorem State.run_nil (s : State) : s.run [] = s := rfl

theorem State.run_cons (s : State) (c : Char) (t : Text) : s.run (c :: t) = (s.step c).run t := rfl

theorem State.run_append (s : State) (t u : Text) : s.run (t ++ u) = (s.run t).run u :=
  List.foldl_append

end CanvasPage.Script
