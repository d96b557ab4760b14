import CanvasPage.Mode

namespace CanvasPage

inductive Field where
  | name
  | width
  | height
  | backgroundColor
  | scriptFileName
  | canvasId
  deriving DecidableEq, Repr

namespace Field

def key : Field → Text
  | name => "name"
  | width => "width"
  | height => "height"
  | backgroundColor => "backgroundColor"
  | scriptFileName => "scriptFileName"
  | canvasId => "canvasId"

/-- The fields looked for, in the order of reports. -/
def forMode : Mode → List Field
  | .component => [name, width, height, backgroundColor]
  | .markup => [name, width, height, backgroundColor, scriptFileName, canvasId]

end Field

/-- A captured value, the bytes it was captured from and the candidate that captured it. -/
structure FieldMatch where
  text : Text
  span : Span
  candidate : Text
  deriving DecidableEq, Repr

end CanvasPage
