import CanvasPage.ClassBlock.Basic
import CanvasPage.Field.Candidate
import CanvasPage.Script.Bracket

namespace CanvasPage.Member

open Script

section Patterns

open Pattern

def modifiers (names : List Text) : Pattern :=
  group 1 (many (anyOf (names.map literal) ++ blanks1))

def memberName : Pattern :=
  group 2 (one (fun c => Text.isAsciiLetter c || ("_$#" : Text).contains c) ++
    many Candidate.identifierChar)

def methodHeader : Pattern :=
  modifiers ["public", "private", "protected", "static", "async", "override", "get", "set"] ++
    optional "*" ++ blanks ++ memberName ++ blanks ++
    optional ("<" ++ many (noneOf ">()") ++ ">") ++ blanks ++ "("

/-- An optional return type and the brace that opens the body. -/
def bodyHeader : Pattern := blanks ++ optional (":" ++ many1 (noneOf "\x7b;=")) ++ "\x7b"

def initializedProperty : Pattern :=
  modifiers ["public", "private", "protected", "readonly", "static", "declare", "override"] ++
    memberName ++ blanks ++ optional (oneOf "?!") ++ blanks ++
    optional (":" ++ many1 (noneOf "=")) ++ "=" ++ group 3 (noneOf ">" ++ many anyChar) ++ inputEnd

end Patterns

/-- Keywords that a parenthesis may follow. -/
def notMethodNames : List Text :=
  ["if", "for", "while", "switch", "catch", "function", "return", "with"]

def withoutHash (name : Text) : Text := name.dropWhile (· == '#')

/-- The method that a text begins with, and its length in characters. The text stands at a byte
offset. -/
def readMethod? (offset : Nat) (t : Text) : Option (Method × Nat) := do
  let header ← methodHeader.atStart? t
  let name ← header.group? 2
  if notMethodNames.contains name.text then none
  let (params, afterParams) ← Bracket.paren.enclosed? header.stop.after
  let brace ← bodyHeader.atStart? afterParams
  let (body, rest) ← Bracket.brace.enclosed? brace.stop.after
  let width := t.length - rest.length
  let words := Text.words (header.groupText 1)
  let kind : MethodKind :=
    if words.contains "get" then .getter else if words.contains "set" then .setter else .plain
  let span := ⟨offset + name.start.offset, offset + Text.byteLength (t.take width)⟩
  let isStatic := words.contains "static"
  return ({ name := withoutHash name.text, kind, isStatic, params, body, span }, width)

/-- Does a statement go on after a line that ends here? `seen` is the statement so far, backwards. -/
def continues (seen : Text) : Bool :=
  match seen.dropWhile Text.isBlank with
  | '=' :: _ => true
  | ',' :: _ => true
  | '>' :: '=' :: _ => true
  | _ => false

def deeper (depth : Nat) (c : Char) : Nat :=
  if c == '(' || c == '[' || c == '{' then depth + 1
  else if c == ')' || c == ']' || c == '}' then depth - 1
  else depth

/-- The length of the property statement that a text begins with. It ends before a semicolon or
line feed outside brackets and strings. `string` is the state inside a string. -/
def statementWidth (depth : Nat) (seen : Text) (string : Option State) : Text → Nat
  | [] => 0
  | c :: rest =>
      match string.map (·.step c) with
      | some s =>
          if !s.isCode then 1 + statementWidth depth (c :: seen) (some s) rest
          else if c != '\n' then 1 + statementWidth depth (c :: seen) none rest
          else if depth == 0 && !continues seen then 0
          else 1 + statementWidth depth (c :: seen) none rest
      | none =>
          if depth == 0 && (c == ';' || (c == '\n' && !continues seen)) then 0
          else
            let string := if isQuote c || isBacktick c then some (State.start.step c) else none
            1 + statementWidth (deeper depth c) (c :: seen) string rest

def readProperty? (span : Span) (statement : Text) : Option Property := do
  let t := Text.trim (Text.dropEndWhile (· == ';') (Text.trim statement))
  let o ← initializedProperty.atStart? t
  let value := Text.trim (o.groupText 3)
  if value.isEmpty then none
  return { name := withoutHash (o.groupText 2), value
           isStatic := (Text.words (o.groupText 1)).contains "static", span }

/-- The length of a text up to the end of a block comment that it stands in. -/
def blockCommentWidth : Text → Nat
  | [] => 0
  | '*' :: '/' :: _ => 2
  | _ :: rest => 1 + blockCommentWidth rest

/-- The length of a decorator after its `@`, with its arguments. -/
def decoratorWidth (t : Text) : Nat :=
  let name := t.takeWhile fun c => Text.isIdentifierChar c || c == '.'
  match t.drop name.length with
  | '(' :: rest =>
      match Bracket.paren.enclosed? rest with
      | some (arguments, _) => name.length + arguments.length + 2
      | none => t.length
  | _ => name.length

/-- The length of the blank, semicolon, comment or decorator that a text begins with. -/
def triviaWidth? : Text → Option Nat
  | '/' :: '/' :: rest => some ((rest.takeWhile (· != '\n')).length + 3)
  | '/' :: '*' :: rest => some (blockCommentWidth rest + 2)
  | '@' :: rest => some (decoratorWidth rest + 1)
  | c :: _ => if (" \t\r\n;" : Text).contains c then some 1 else none
  | [] => none

/-- The members of a class body that stands at a byte offset. `covered` characters still belong to
what was read last. -/
def scanFrom (offset covered : Nat) : Text → List Member
  | [] => []
  | c :: rest =>
      let next := offset + c.utf8Size
      match covered with
      | covered + 1 => scanFrom next covered rest
      | 0 =>
          match triviaWidth? (c :: rest) with
          | some width => scanFrom next (width - 1) rest
          | none =>
              match readMethod? offset (c :: rest) with
              | some (m, width) => method m :: scanFrom next (width - 1) rest
              | none =>
                  let width := statementWidth 0 [] none (c :: rest)
                  let statement := (c :: rest).take width
                  let span := ⟨offset, offset + Text.byteLength statement⟩
                  ((readProperty? span statement).map property).toList ++ scanFrom next width rest

end CanvasPage.Member
