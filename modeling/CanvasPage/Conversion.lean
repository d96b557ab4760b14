import CanvasPage.Descriptor.Resolve
import CanvasPage.Page.Script
import CanvasPage.Procedure.OfClass

namespace CanvasPage

/-- How sources are converted. With `urlOverrides` the address of a page can change its
background. -/
structure ConversionOptions where
  fallback : Fallback
  urlOverrides : Bool
  deriving DecidableEq, Repr

structure Conversion where
  extraction : Extraction
  descriptor : Descriptor
  artifacts : Page.Artifacts
  deriving DecidableEq, Repr

namespace Conversion

def ofExtraction (options : ConversionOptions) (e : Extraction) : Conversion :=
  let descriptor :=
    Descriptor.resolve e (e.classes.flatMap ClassBlock.procedures) options.fallback
  { extraction := e, descriptor, artifacts := Page.artifacts descriptor options.urlOverrides }

/-- Converts a source into a page. Only a blank source fails. -/
def ofSource (options : ConversionOptions) (source : Text) : Except ConversionError Conversion :=
  (Extraction.ofSource source).map (ofExtraction options)

end Conversion

end CanvasPage
