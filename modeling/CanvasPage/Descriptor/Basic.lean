import CanvasPage.Procedure.Basic
import CanvasPage.Text.Lowercase

namespace CanvasPage

/-- All that a page is made of. `scriptReference` is a script that the input itself names. -/
structure Descriptor where
  name : Text
  canvasWidth : Nat
  canvasHeight : Nat
  backgroundColor : Text
  canvasId : Text
  scriptReference : Option Text
  procedures : List Procedure
  deriving DecidableEq, Repr

namespace Descriptor

def markupFileName (d : Descriptor) : Text := Text.toLower d.name ++ ".html"

def scriptFileName (d : Descriptor) : Text := Text.toLower d.name ++ ".js"

def scriptSource (d : Descriptor) : Text := d.scriptReference.getD d.scriptFileName

/-- Each owner once, in the order of first procedures. -/
def ownersOf : List Procedure → List Text
  | [] => []
  | p :: ps => p.owner :: (ownersOf ps).filter (· != p.owner)

def owners (d : Descriptor) : List Text := ownersOf d.procedures

def proceduresOf (d : Descriptor) (owner : Text) : List Procedure :=
  d.procedures.filter (·.owner == owner)

/-- Has an owner an instance method of this name? -/
def ownerDefines (d : Descriptor) (owner method : Text) : Bool :=
  (d.proceduresOf owner).any fun p => !p.isStatic && p.kind == .method method

def isAnimated (d : Descriptor) (owner : Text) : Bool :=
  d.ownerDefines owner "update" || d.ownerDefines owner "draw"

/-- The owner that the page animates: the last one that can be, or else the last one. -/
def primaryOwner? (d : Descriptor) : Option Text :=
  (d.owners.reverse.find? d.isAnimated).or d.owners.getLast?

end Descriptor

end CanvasPage
