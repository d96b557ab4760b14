import CanvasPage.Descriptor.Basic
import CanvasPage.Descriptor.Fallback
import CanvasPage.Extraction
import CanvasPage.Text.Letter

namespace CanvasPage.Descriptor

def startsName (c : Char) : Bool := Text.isAsciiLetter c || c == '$'

def isNameChar (c : Char) : Bool := Text.isAsciiAlphanumeric c || c == '$'

def separatesWords (c : Char) : Bool := Text.isBlank c || c == '-' || c == '.' || c == '_'

/-- Keeps the name characters. The first of a word becomes upper case; other characters neither
start nor end a word. -/
def capitalizeWords (atStart : Bool) : Text → Text
  | [] => []
  | c :: rest =>
      if isNameChar c then
        (if atStart then Text.toAsciiUpper c else c) :: capitalizeWords false rest
      else capitalizeWords (atStart || separatesWords c) rest

/-- An identifier in Pascal case made of a raw name, if anything of it can be used. -/
def sanitizeName? (raw : Text) : Option Text :=
  let name := capitalizeWords true (raw.dropWhile (!startsName ·))
  if name.isEmpty then none else some name

def defaultName : Text := "RibbonAnimation"

def defaultDimension : Nat := 550

def defaultBackground : Text := "#F0EEE6"

def defaultCanvasId : Text := "animationCanvas"

/-- Completes an extraction: a field without a match takes its default, and without procedures the
fallback provides them. -/
def resolve (e : Extraction) (procedures : List Procedure) (fallback : Fallback) : Descriptor :=
  let name := ((e.text? .name).bind sanitizeName?).getD defaultName
  { name
    canvasWidth := (e.dimension? .width).getD defaultDimension
    canvasHeight := (e.dimension? .height).getD defaultDimension
    backgroundColor := (e.text? .backgroundColor).getD defaultBackground
    canvasId := (e.text? .canvasId).getD defaultCanvasId
    scriptReference := e.text? .scriptFileName
    procedures := if procedures.isEmpty then fallback.procedures name else procedures }

end CanvasPage.Descriptor
