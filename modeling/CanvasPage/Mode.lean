import CanvasPage.Pattern.Match

namespace CanvasPage

/-- The shape of an input: a markup document with an external script, or component source. -/
inductive Mode where
  | markup
  | component
  deriving DecidableEq, Repr

namespace Mode

def description : Mode → Text
  | markup => "markup+script"
  | component => "component source"

/-- The name of a shape in reports. -/
def key : Mode → Text
  | markup => "markupPair"
  | component => "dialectSource"

/-- Only component source is searched for classes. -/
def readsClasses (m : Mode) : Bool := m == component

def canvasTag : Pattern := Pattern.literalEitherCase "<canvas" ++ .wordBoundary

def externalScript : Pattern :=
  Pattern.literalEitherCase "<script" ++ .wordBoundary ++ .many (.noneOf ">") ++ .wordBoundary ++
    Pattern.literalEitherCase "src" ++ .blanks ++ "="

/-- Markup opens with a doctype or an `html` element, or holds a canvas and an external script. -/
def ofSource (source : Text) : Mode :=
  let head := Text.trimStart source
  if Text.startsWithIgnoringAsciiCase "<!doctype" head ||
      Text.startsWithIgnoringAsciiCase "<html" head then markup
  else if canvasTag.occursIn source && externalScript.occursIn source then markup
  else component

end Mode

end CanvasPage
