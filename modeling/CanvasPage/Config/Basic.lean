import CanvasPage.Config.Comments
import CanvasPage.Descriptor.Fallback
import CanvasPage.Json.Read

namespace CanvasPage

structure Config where
  fallback : Option Fallback
  urlOverrides : Option Bool
  outDir : Option Text
  ignore : List Text
  extensions : Option (List Text)
  deriving DecidableEq, Repr

namespace Config

def fileName : Text := "standalone-canvas.json"

def empty : Config :=
  { fallback := none, urlOverrides := none, outDir := none, ignore := [], extensions := none }

def readText? : Json → Option Text
  | .string t => some t
  | _ => none

def readFlag? : Json → Option Bool
  | .bool b => some b
  | _ => none

def readTexts? : Json → Option (List Text)
  | .array items => items.mapM readText?
  | _ => none

/-- A fallback by its name, or as an object whose only key is the name. -/
def readFallback? : Json → Option Fallback
  | .string t => Fallback.ofKey? t
  | .object [(key, .null)] => Fallback.ofKey? key
  | _ => none

def readOptional? {α : Type} (read : Json → Option α) : Json → Option (Option α)
  | .null => some none
  | j => (read j).map some

def keys : List Text := ["fallback", "urlOverrides", "outDir", "ignore", "extensions"]

/-- Sets one member. An unknown key or a value of another type is refused. -/
def set? (c : Config) (key : Text) (value : Json) : Option Config :=
  if key == "fallback" then
    (readOptional? readFallback? value).map fun v => { c with fallback := v }
  else if key == "urlOverrides" then
    (readOptional? readFlag? value).map fun v => { c with urlOverrides := v }
  else if key == "outDir" then
    (readOptional? readText? value).map fun v => { c with outDir := v }
  else if key == "ignore" then (readTexts? value).map fun v => { c with ignore := v }
  else if key == "extensions" then
    (readOptional? readTexts? value).map fun v => { c with extensions := v }
  else none

def ofMembers? : Config → List (Text × Json) → Option Config
  | c, [] => some c
  | c, (key, value) :: rest => (c.set? key value).bind fun c => ofMembers? c rest

/-- An object without repeated keys, or the values alone in the order of `keys`. -/
def ofJson? : Json → Option Config
  | .object members =>
      if (members.map (·.1)).Nodup then ofMembers? empty members else none
  | .array items =>
      if items.length ≤ keys.length then ofMembers? empty (keys.zip items) else none
  | _ => none

/-- Reads a config text, which may hold comments. -/
def ofText? (t : Text) : Option Config := (Json.ofText? (stripComments t)).bind ofJson?

def defaultExtensions : List Text := ["jsx", "tsx", "js", "ts", "html"]

def normalizeExtension (t : Text) : Text := (t.dropWhile (· == '.')).map Text.toAsciiLower

/-- The extensions of input files, in lower case and without leading dots. -/
def fileExtensions (c : Config) : List Text :=
  match c.extensions with
  | some (e :: es) => (e :: es).map normalizeExtension
  | _ => defaultExtensions

end Config

end CanvasPage
