import CanvasPage.Conversion
import CanvasPage.Report.Position

namespace CanvasPage

/-- Where a value came from: the candidate that captured it, or the defaults. -/
structure FieldReport where
  field : Field
  value : Text
  captured : Option Text
  origin : Text
  position : Option Position
  deriving DecidableEq, Repr

namespace Conversion

def value (c : Conversion) : Field → Text
  | .name => c.descriptor.name
  | .width => Text.decimal c.descriptor.canvasWidth
  | .height => Text.decimal c.descriptor.canvasHeight
  | .backgroundColor => c.descriptor.backgroundColor
  | .scriptFileName => c.descriptor.scriptSource
  | .canvasId => c.descriptor.canvasId

def explainField (c : Conversion) (source : Text) (field : Field) (found : Option FieldMatch) :
    FieldReport where
  field
  value := c.value field
  captured := found.map (·.text)
  origin := (found.map (·.candidate)).getD "default"
  position := found.map fun m => .ofOffset source m.span.start

def explain (c : Conversion) (source : Text) : List FieldReport :=
  c.extraction.fields.map fun (field, found) => c.explainField source field found

end Conversion

end CanvasPage
