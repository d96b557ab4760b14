import CanvasPage.Text.Basic

namespace CanvasPage

inductive MethodKind where
  | plain
  | getter
  | setter
  deriving DecidableEq, Repr

structure Method where
  name : Text
  kind : MethodKind
  isStatic : Bool
  params : Text
  body : Text
  span : Span
  deriving DecidableEq, Repr

/-- A property that is given a value where it is declared. -/
structure Property where
  name : Text
  value : Text
  isStatic : Bool
  span : Span
  deriving DecidableEq, Repr

inductive Member where
  | method (m : Method)
  | property (p : Property)
  deriving DecidableEq, Repr

namespace Member

def method? : Member → Option Method
  | method m => some m
  | property _ => none

def property? : Member → Option Property
  | method _ => none
  | property p => some p

end Member

structure ClassBlock where
  name : Text
  parent : Option Text
  span : Span
  properties : List Property
  initializer : Option Method
  methods : List Method
  deriving DecidableEq, Repr

namespace ClassBlock

def isInitializer (m : Method) : Bool := m.name == ("constructor" : Text)

/-- A class with the given members. The first constructor counts, further ones are dropped. -/
def ofMembers (name : Text) (parent : Option Text) (span : Span) (members : List Member) :
    ClassBlock :=
  let methods := members.filterMap Member.method?
  { name, parent, span
    properties := members.filterMap Member.property?
    initializer := methods.find? isInitializer
    methods := methods.filter (!isInitializer ·) }

def defines (c : ClassBlock) (member : Text) : Bool :=
  c.methods.any (·.name == member) || c.properties.any (·.name == member)

end ClassBlock

end CanvasPage
