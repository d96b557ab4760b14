import CanvasPage.ClassBlock.Scan

namespace CanvasPage

inductive ConversionError where
  | emptyInput
  deriving DecidableEq, Repr

def ConversionError.message : ConversionError → Text
  | emptyInput => "input is empty: paste a component or a markup document first"

/-- What is read from a source before defaults apply. -/
structure Extraction where
  mode : Mode
  fields : List (Field × Option FieldMatch)
  classes : List ClassBlock
  deriving DecidableEq, Repr

namespace Extraction

def ofSource (source : Text) : Except ConversionError Extraction :=
  if Text.allBlank source then .error .emptyInput
  else
    let mode := Mode.ofSource source
    .ok {
      mode
      fields := (Field.forMode mode).map fun field => (field, field.find? source mode)
      classes := if mode.readsClasses then ClassBlock.scan source else [] }

def get? (e : Extraction) (field : Field) : Option FieldMatch :=
  ((e.fields.find? (·.1 == field)).map (·.2)).join

def text? (e : Extraction) (field : Field) : Option Text := (e.get? field).map (·.text)

/-- A positive number read for a field. -/
def dimension? (e : Extraction) (field : Field) : Option Nat :=
  ((e.text? field).bind Text.readDecimal?).filter (0 < ·)

/-- The fields without a match, in the order of reports. -/
def unresolved (e : Extraction) : List Field :=
  (e.fields.filter (·.2.isNone)).map (·.1)

end Extraction

end CanvasPage
