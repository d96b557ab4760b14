import CanvasPage.Text.Basic

namespace CanvasPage

inductive ProcedureKind where
  | initializer
  | method (name : Text)
  | getter (name : Text)
  | setter (name : Text)
  | staticValue (name : Text)
  deriving DecidableEq, Repr

/-- One piece of a class that stands on its own. A static value has its expression for a body. -/
structure Procedure where
  owner : Text
  kind : ProcedureKind
  isStatic : Bool
  params : List Text
  body : Text
  deriving DecidableEq, Repr

namespace Procedure

def initializer (owner : Text) (params : List Text) (body : Text) : Procedure :=
  { owner, kind := .initializer, isStatic := false, params, body }

def method (owner name : Text) (params : List Text) (body : Text) : Procedure :=
  { owner, kind := .method name, isStatic := false, params, body }

def name (p : Procedure) : Text :=
  match p.kind with
  | .initializer => "constructor"
  | .method n | .getter n | .setter n | .staticValue n => n

def isInitializer (p : Procedure) : Bool := p.kind == .initializer

def isAccessor (p : Procedure) : Bool :=
  match p.kind with
  | .getter _ | .setter _ => true
  | _ => false

end Procedure

end CanvasPage
