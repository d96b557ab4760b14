import CanvasPage.Text.Basic

namespace CanvasPage

/-- A place in a source, lines and columns counted from one. -/
structure Position where
  line : Nat
  column : Nat
  offset : Nat
  deriving DecidableEq, Repr

namespace Position

def after (t : Text) : Nat × Nat :=
  (t.count '\n' + 1, (t.reverse.takeWhile (· != '\n')).length + 1)

/-- The position of a byte offset. An offset past the end counts as the end, and one inside a
character as the start of the source. -/
def ofOffset (source : Text) (offset : Nat) : Position :=
  let read := (Text.takeBytes (min offset (Text.byteLength source)) source).getD []
  { line := (after read).1, column := (after read).2, offset }

end Position

end CanvasPage
