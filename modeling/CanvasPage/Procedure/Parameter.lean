import CanvasPage.Field.Candidate
import CanvasPage.Script.Lexer

namespace CanvasPage

/-- A parameter as it is emitted, `name` or `name = default`. A modifier such as `private` makes it
a property too. -/
structure Parameter where
  text : Text
  name : Text
  isProperty : Bool
  deriving DecidableEq, Repr

namespace Parameter

def opensBracket (c : Char) : Bool := ("([\x7b<" : Text).contains c

def closesBracket (c : Char) : Bool := (")]\x7d" : Text).contains c

/-- A `>` that is no part of `=>`. -/
def closesAngle (previous : Option Char) (c : Char) : Bool := c == '>' && previous.any (· != '=')

def depthAfter (depth : Nat) (previous : Option Char) (c : Char) : Nat :=
  if opensBracket c then depth + 1
  else if closesBracket c || closesAngle previous c then depth - 1
  else depth

def consFirst (c : Char) : List Text → List Text
  | [] => [[c]]
  | t :: ts => (c :: t) :: ts

/-- The pieces between commas outside brackets and quotes. -/
def splitFrom (depth : Nat) (quote previous : Option Char) : Text → List Text
  | [] => [[]]
  | c :: rest =>
      match quote with
      | some q =>
          let quote := if c == q && previous != some '\\' then none else some q
          consFirst c (splitFrom depth quote (some c) rest)
      | none =>
          if Script.isQuote c || Script.isBacktick c then
            consFirst c (splitFrom depth (some c) (some c) rest)
          else if c == ',' && depth == 0 then [] :: splitFrom depth none (some c) rest
          else consFirst c (splitFrom (depthAfter depth previous c) none (some c) rest)

def split (raw : Text) : List Text := splitFrom 0 none none raw

/-- Is an equals sign between these part of a longer operator? -/
def isCompound (previous next : Option Char) : Bool :=
  previous.any ("=!<>" : Text).contains || next.any ("=>" : Text).contains

/-- The texts around the first default-value `=` outside brackets. -/
def splitDefault (depth : Nat) (previous : Option Char) : Text → Option (Text × Text)
  | [] => none
  | c :: rest =>
      if c == '=' && depth == 0 && !isCompound previous rest.head? then some ([], rest)
      else (splitDefault (depthAfter depth previous c) (some c) rest).map fun (head, value) =>
        (c :: head, value)

/-- The text before the first colon outside brackets. -/
def beforeType (depth : Nat) : Text → Text
  | [] => []
  | c :: rest =>
      if c == ':' && depth == 0 then []
      else
        let depth :=
          if opensBracket c then depth + 1
          else if closesBracket c || c == '>' then depth - 1
          else depth
        c :: beforeType depth rest

def modifiers : Pattern :=
  Pattern.many1
    (.anyOf ["public", "private", "protected", "readonly", "override"] ++ Pattern.blanks1)

/-- Reads one piece of a parameter list. `rewrite` is done to a default value. -/
def read? (rewrite : Text → Text) (piece : Text) : Option Parameter :=
  let piece := Text.trim piece
  let modifiers := modifiers.atStart? piece
  let rest := match modifiers with
    | some o => o.stop.after
    | none => piece
  let (head, value) := match splitDefault 0 none rest with
    | some (head, value) => (head, some (rewrite (Text.trim value)))
    | none => (rest, none)
  let name := Text.trim (Text.dropEndWhile (· == '?') (Text.trim (beforeType 0 head)))
  if name.isEmpty then none
  else
    let text := match value with
      | some value => name ++ " = " ++ value
      | none => name
    some { text, name, isProperty := modifiers.isSome }

/-- The parameters of a raw list, without types and modifiers. -/
def readAll (rewrite : Text → Text) (raw : Text) : List Parameter :=
  (split raw).filterMap (read? rewrite)

def textsWith (rewrite : Text → Text) (raw : Text) : List Text :=
  (readAll rewrite raw).map (·.text)

end Parameter

end CanvasPage
