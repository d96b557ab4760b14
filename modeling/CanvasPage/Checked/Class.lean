import CanvasPage.Checked.Script
import CanvasPage.ClassBlock.Scan

namespace CanvasPage.Checked

open Script Text

/-- The offset after the name of a decorator whose rest is at `pos`. -/
def nameStop (t : Text) (stop : Nat) : (fuel pos : Nat) → Run Nat
  | 0, _ => .error .endless
  | fuel + 1, pos =>
      if stop ≤ pos then .ok pos
      else do
        let c ← byteAt t pos
        if isIdentifierChar c || c == '.' then nameStop t stop fuel (pos + 1) else return pos

/-- The offset after the blanks, semicolons, comments and decorators at `pos`. Those that do not
end may lead past `stop`. -/
def skipTrivia (t : Text) (stop : Nat) : (fuel pos : Nat) → Run Nat
  | 0, _ => .error .endless
  | fuel + 1, pos =>
      if stop ≤ pos then .ok pos
      else do
        let c ← byteAt t pos
        if (" \t\r\n;" : Text).contains c then skipTrivia t stop fuel (pos + 1)
        else if opensLine t pos c then
          match ← lineStop? t pos stop with
          | some feed => skipTrivia t stop fuel (feed + 1)
          | none => skipTrivia t stop fuel stop
        else if opensComment t pos c then
          match ← commentStop? t pos stop with
          | some next => skipTrivia t stop fuel next
          | none => skipTrivia t stop fuel stop
        else if c == '@' then
          let next ← nameStop t stop fuel (pos + 1)
          if byte? t next == some '(' then
            match ← matchingDelimiter t next with
            | some close => skipTrivia t stop fuel (close + 1)
            | none => skipTrivia t stop fuel stop
          else skipTrivia t stop fuel next
        else return pos

def continued (line : Text) : Bool := ["=", ",", "=>"].any fun s : String => s.toList.isSuffixOf line

/-- The offset of the semicolon or line feed that ends the statement at `start`. -/
def statementStop (t : Text) (start stop : Nat) : (fuel depth pos : Nat) → Run Nat
  | 0, _, _ => .error .endless
  | fuel + 1, depth, pos =>
      if stop ≤ pos then .ok stop
      else do
        let c ← byteAt t pos
        if opensString c then
          match ← stringStop? t c pos with
          | some next => statementStop t start stop fuel depth next
          | none => statementStop t start stop fuel depth stop
        else if c == ';' && depth == 0 then return pos
        else if c == '\n' && depth == 0 then
          let line ← cut t start pos
          if continued (trimEnd line) then statementStop t start stop fuel depth (pos + 1)
          else return pos
        else statementStop t start stop fuel (Member.deeper depth c) (pos + 1)

/-- The delimiter that closes the one at `pos`, if it comes before `stop`. -/
def matchingBefore (t : Text) (stop pos : Nat) : Run (Option Nat) := do
  return (← matchingDelimiter t pos).filter (· < stop)

def methodAt (t : Text) (stop pos : Nat) : Run (Option (Method × Nat)) := do
  let window ← cut t pos stop
  let some header := Member.methodHeader.atStart? window | return none
  let some name := header.group? 2 | return none
  if Member.notMethodNames.contains name.text then return none
  let parenOpen ← minus (pos + header.stop.offset) 1
  let some parenClose ← matchingBefore t stop parenOpen | return none
  let afterParams ← cut t (parenClose + 1) stop
  let some brace := Member.bodyHeader.atStart? afterParams | return none
  let braceOpen ← minus (parenClose + 1 + brace.stop.offset) 1
  let some braceClose ← matchingBefore t stop braceOpen | return none
  let words := words (← group header 1)
  let kind : MethodKind :=
    if words.contains "get" then .getter else if words.contains "set" then .setter else .plain
  let isStatic := words.contains "static"
  let params ← cut t (parenOpen + 1) parenClose
  let body ← cut t (braceOpen + 1) braceClose
  let span ← span (pos + name.start.offset) (braceClose + 1)
  return some ({ name := Member.withoutHash name.text, kind, isStatic, params, body, span },
    braceClose + 1)

def propertyOf (span : Span) (statement : Text) : Run (Option Property) := do
  let t := trim (dropEndWhile (· == ';') (trim statement))
  let some o := Member.initializedProperty.atStart? t | return none
  let value := trim (← group o 3)
  if value.isEmpty then return none
  let name := Member.withoutHash (← group o 2)
  let isStatic := (words (← group o 1)).contains "static"
  return some { name, value, isStatic, span }

/-- The property of the statement at `pos` and the offset of the end of the statement. -/
def propertyAt (t : Text) (stop pos : Nat) : Run (Option Property × Nat) := do
  let next ← statementStop t pos stop (byteLength t + 1) 0 pos
  let statement ← cut t pos next
  return (← propertyOf (← span pos next) statement, next)

/-- The members of the class body between `pos` and `stop`. -/
def membersFrom (t : Text) (stop : Nat) : (fuel pos : Nat) → Run (List Member)
  | 0, _ => .error .endless
  | fuel + 1, pos =>
      if stop ≤ pos then .ok []
      else do
        let pos ← skipTrivia t stop (byteLength t + 1) pos
        if stop ≤ pos then return []
        match ← methodAt t stop pos with
        | some (m, next) => return .method m :: (← membersFrom t stop fuel next)
        | none =>
            let (property, next) ← propertyAt t stop pos
            return (property.map .property).toList ++ (← membersFrom t stop fuel (next + 1))

/-- The leftmost match that starts at a byte offset or after it. -/
def firstFrom? (p : Pattern) (t : Text) (pos : Nat) : Run (Option Occurrence) := do
  let before ← cut t 0 pos
  let after ← cutFrom t pos
  return (p.occurrencesFrom 0 before.reverse after).head?

/-- The class that a header begins and the offset after it. -/
def classAt (t : Text) (header : Occurrence) : Run (Option (ClassBlock × Nat)) := do
  let opening ← minus header.stop.offset 1
  let some close ← matchingDelimiter t opening | return none
  let name ← group header 1
  let parent := (header.group? 2).map (·.text)
  let span ← span header.start.offset (close + 1)
  let members ← membersFrom t close (byteLength t + 1) (opening + 1)
  return some (.ofMembers name parent span members, close + 1)

def classesFrom (t : Text) : (fuel pos : Nat) → Run (List ClassBlock)
  | 0, _ => .error .endless
  | fuel + 1, pos => do
      let some header ← firstFrom? ClassBlock.header t pos | return []
      match ← classAt t header with
      | some (c, next) => return c :: (← classesFrom t fuel next)
      | none => classesFrom t fuel header.stop.offset

def classes (source : Text) : Run (List ClassBlock) := classesFrom source (byteLength source + 1) 0

end CanvasPage.Checked
