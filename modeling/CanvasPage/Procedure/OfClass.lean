import CanvasPage.ClassBlock.Basic
import CanvasPage.Procedure.Basic
import CanvasPage.Procedure.Body

namespace CanvasPage

section Patterns

open Pattern

/-- The value of a property that is an arrow function with a block. -/
def arrowValue : Pattern :=
  optional ("async" ++ blanks1) ++ "(" ++ group 1 (many (noneOf "()")) ++ ")" ++ blanks ++
    optional (":" ++ many1 (noneOf "=")) ++ "=>" ++ blanks ++ "\x7b"

def superCall : Pattern :=
  inputStart ++ blanks ++ "super" ++ blanks ++ "(" ++ many (noneOf "\n") ++ ")" ++ blanks ++
    optional ";" ++ blanks ++ inputEnd

end Patterns

namespace Property

def isArrow (p : Property) : Bool := (arrowValue.atStart? p.value).isSome

def assignment (name value : Text) : Text := "this." ++ name ++ " = " ++ value ++ ";"

/-- The method that an arrow-valued property stands for. -/
def procedure? (owner : Text) (p : Property) : Option Procedure := do
  let header ← arrowValue.atStart? p.value
  let (block, _) ← Script.Bracket.brace.enclosed? header.stop.after
  return { owner, kind := .method p.name, isStatic := p.isStatic
           params := Procedure.parameterTexts (header.groupText 1)
           body := Procedure.rewriteBody block }

def staticProcedure (owner : Text) (p : Property) : Procedure :=
  { owner, kind := .staticValue p.name, isStatic := true, params := []
    body := Procedure.rewriteBody p.value }

end Property

def Method.procedure (owner : Text) (m : Method) : Procedure :=
  let kind : ProcedureKind := match m.kind with
    | .plain => .method m.name
    | .getter => .getter m.name
    | .setter => .setter m.name
  { owner, kind, isStatic := m.isStatic, params := Procedure.parameterTexts m.params
    body := Procedure.rewriteBody m.body }

namespace ClassBlock

def arrowProperties (c : ClassBlock) : List Property := c.properties.filter (·.isArrow)

def plainProperties (c : ClassBlock) : List Property := c.properties.filter (!·.isArrow)

def staticProperties (c : ClassBlock) : List Property := c.plainProperties.filter (·.isStatic)

def instanceProperties (c : ClassBlock) : List Property := c.plainProperties.filter (!·.isStatic)

/-- What a class without a constructor and without properties is given. -/
def defaultProperties : List (Text × Text) :=
  [("segments", "[]"), ("segmentCount", "30"), ("width", "100")]

def defaultLines (c : ClassBlock) : List Text :=
  let call : List Text := if c.defines "initialize" then ["this.initialize();"] else []
  defaultProperties.map (fun (name, value) => Property.assignment name value) ++ call

/-- The lines that a constructor adds to the property lines. -/
def initializerLines (m : Method) (params : List Parameter) : List Text :=
  (params.filter (·.isProperty)).map (fun p => Property.assignment p.name p.name) ++
    (Text.lines (Procedure.rewriteBody m.body)).filter (!superCall.occursIn ·)

def initializerProcedure (c : ClassBlock) : Procedure :=
  let properties := c.instanceProperties.map fun p =>
    Property.assignment p.name (Procedure.rewriteBody p.value)
  match c.initializer with
  | some m =>
      let params := Parameter.readAll Procedure.rewriteBody m.params
      .initializer c.name (params.map (·.text))
        (Text.join "\n" (properties ++ initializerLines m params))
  | none =>
      .initializer c.name []
        (Text.join "\n" (if properties.isEmpty then c.defaultLines else properties))

/-- Inserts before the first pair with a greater or equal key, so that sorting is stable. -/
def insertByStart (x : Nat × Procedure) : List (Nat × Procedure) → List (Nat × Procedure)
  | [] => [x]
  | y :: ys => if x.1 ≤ y.1 then x :: y :: ys else y :: insertByStart x ys

def sortByStart (xs : List (Nat × Procedure)) : List (Nat × Procedure) :=
  xs.foldr insertByStart []

/-- The procedures of the members other than the constructor, with the offsets they start at. -/
def memberProcedures (c : ClassBlock) : List (Nat × Procedure) :=
  c.methods.map (fun m => (m.span.start, m.procedure c.name)) ++
    c.arrowProperties.filterMap (fun p =>
      (p.procedure? c.name).map fun procedure => (p.span.start, procedure)) ++
    c.staticProperties.map fun p => (p.span.start, p.staticProcedure c.name)

/-- A class as procedures: the constructor, then the other members in source order. -/
def procedures (c : ClassBlock) : List Procedure :=
  c.initializerProcedure :: (sortByStart c.memberProcedures).map (·.2)

end ClassBlock

end CanvasPage
