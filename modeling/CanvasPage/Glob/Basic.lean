import CanvasPage.Text.Basic

namespace CanvasPage.Glob

/-- A part of a glob. The recursive parts stand for whole path components. -/
inductive Token where
  | literal (c : Char)
  | any
  | many
  | recursivePrefix
  | recursiveSuffix
  | recursiveInfix
  | charClass (negated : Bool) (ranges : List (Char × Char))
  | alternates (branches : List (List Token))

inductive Error where
  | unclosedClass
  | invalidRange (first last : Char)
  | unclosedAlternates
  | unopenedAlternates
  | danglingEscape
  deriving DecidableEq, Repr

namespace Error

def reason : Error → Text
  | unclosedClass => "unclosed character class; missing ']'"
  | invalidRange first last => "invalid range; '" ++ [first] ++ "' > '" ++ [last] ++ "'"
  | unclosedAlternates =>
      "unclosed alternate group; missing '\x7d' (maybe escape '\x7b' with '[\x7b]'?)"
  | unopenedAlternates =>
      "unopened alternate group; missing '\x7b' (maybe escape '\x7d' with '[\x7d]'?)"
  | danglingEscape => "dangling '\\'"

def message (glob : Text) (e : Error) : Text := "error parsing glob '" ++ glob ++ "': " ++ e.reason

end Error

end CanvasPage.Glob
