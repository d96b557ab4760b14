import CanvasPage.ClassBlock.Member
import CanvasPage.Proofs.Text.Identifier
import CanvasPage.Script.Bracket
import CanvasPage.Script.Literal

namespace CanvasPage

open Script

def joinWords (ws : List Text) : Text := ws.flatMap (· ++ [' '])

def staticWords (isStatic : Bool) : List Text := if isStatic then ["static"] else []

namespace Method

def kindWords : MethodKind → List Text
  | .plain => []
  | .getter => ["get"]
  | .setter => ["set"]

def modifierWords (m : Method) : List Text := staticWords m.isStatic ++ kindWords m.kind

def print (m : Method) : Text :=
  joinWords m.modifierWords ++ m.name ++ "(" ++ m.params ++ ") \x7b" ++ m.body ++ "\x7d"

structure IsPrintable (m : Method) : Prop where
  name : Text.isIdentifier m.name = true
  name_not_mem : m.name ∉ Member.notMethodNames
  params : isClosed m.params = true
  body : isClosed m.body = true

def unplaced (m : Method) : Method := { m with span := ⟨0, 0⟩ }

end Method

namespace Script

/-- Inside a comment that is no part of a template. -/
def State.inRemark (s : State) : Bool :=
  s.nesting.isEmpty && [Mode.lineComment, .blockComment, .blockCommentStar].contains s.mode

def isOutsideBrackets (t : Text) : Bool :=
  [Bracket.brace, .paren, .square].all (·.isBalanced t)

end Script

namespace Property

def print (p : Property) : Text :=
  joinWords (staticWords p.isStatic) ++ p.name ++ " = " ++ p.value ++ ";"

structure IsPrintable (p : Property) : Prop where
  name : Text.isIdentifier p.name = true
  ne_nil : p.value ≠ []
  trim : Text.trim p.value = p.value
  closed : isClosed p.value = true
  /-- The value has no comment. -/
  no_remark : ∀ i ≤ p.value.length, (State.start.run (p.value.take i)).inRemark = false
  /-- A semicolon or line feed in the code of the value stands in brackets. -/
  no_break : ∀ i < p.value.length, p.value[i]? = some ';' ∨ p.value[i]? = some '\n' →
    inLiteral p.value i = false → isOutsideBrackets (p.value.take i) = false

def unplaced (p : Property) : Property := { p with span := ⟨0, 0⟩ }

end Property

namespace Member

def print : Member → Text
  | method m => m.print
  | property p => p.print

def IsPrintable : Member → Prop
  | method m => m.IsPrintable
  | property p => p.IsPrintable

def unplaced : Member → Member
  | method m => method m.unplaced
  | property p => property p.unplaced

end Member

/-- A class as it is written: its name and its members, one to a line. -/
structure ClassText where
  name : Text
  members : List Member

namespace ClassText

def body (c : ClassText) : Text := '\n' :: c.members.flatMap (·.print ++ ['\n'])

def print (c : ClassText) : Text := "class " ++ c.name ++ " \x7b" ++ c.body ++ "\x7d"

structure IsPrintable (c : ClassText) : Prop where
  name : Text.isIdentifier c.name = true
  members : ∀ m ∈ c.members, m.IsPrintable

def methods (c : ClassText) : List Method := c.members.filterMap Member.method?

def block (c : ClassText) : ClassBlock :=
  { name := c.name
    parent := none
    span := ⟨0, 0⟩
    properties := (c.members.filterMap Member.property?).map Property.unplaced
    initializer := (c.methods.find? (·.name == ("constructor" : Text))).map Method.unplaced
    methods := (c.methods.filter (·.name != ("constructor" : Text))).map Method.unplaced }

end ClassText

def ClassBlock.unplaced (c : ClassBlock) : ClassBlock :=
  { c with
    span := ⟨0, 0⟩
    properties := c.properties.map Property.unplaced
    initializer := c.initializer.map Method.unplaced
    methods := c.methods.map Method.unplaced }

end CanvasPage
