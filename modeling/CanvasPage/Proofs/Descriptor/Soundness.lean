import CanvasPage.Conversion
import CanvasPage.Proofs.Descriptor.Name
import CanvasPage.Proofs.Field.Found
import CanvasPage.Proofs.Procedure.Owners
import CanvasPage.Proofs.Text.Decimal
import Mathlib.Algebra.Group.Nat.Defs

namespace CanvasPage

namespace Extraction

variable {source t : Text} {e : Extraction} {field : Field} {n : Nat}

theorem exists_ofSource (h : Text.allBlank source = false) :
    ∃ e, ofSource source = .ok e ∧ e.mode = Mode.ofSource source ∧
      e.classes = if e.mode = .component then ClassBlock.scan source else [] := by
  rw [ofSource, if_neg (by simp [h])]
  refine ⟨_, rfl, rfl, ?_⟩
  cases hmode : Mode.ofSource source <;> rfl

theorem exists_ofSource_of_markup (h : Text.allBlank source = false)
    (hmode : Mode.ofSource source = .markup) :
    ∃ e, ofSource source = .ok e ∧ e.mode = .markup ∧ e.classes = [] ∧
      ∀ field, e.text? field = (Field.find? source .markup field).map (·.text) := by
  rw [ofSource, if_neg (by simp [h]), hmode]
  refine ⟨_, rfl, rfl, rfl, fun field => ?_⟩
  cases field <;> rfl

theorem of_ofSource (he : ofSource source = .ok e) :
    e.mode = Mode.ofSource source ∧
      e.fields = (Field.forMode e.mode).map fun field => (field, field.find? source e.mode) := by
  rw [ofSource] at he
  split at he
  · cases he
  · rw [← Except.ok.inj he]
    exact ⟨rfl, rfl⟩

theorem get?_ofSource (he : ofSource source = .ok e) (field : Field) :
    e.get? field = field.find? source e.mode := by
  rw [get?, (of_ofSource he).2]
  cases e.mode <;> cases field <;> rfl

theorem find?_of_text? (he : ofSource source = .ok e) (h : e.text? field = some t) :
    ∃ m, field.find? source (Mode.ofSource source) = some m ∧ m.text = t := by
  obtain ⟨m, hm, rfl⟩ := Option.map_eq_some_iff.mp h
  rw [get?_ofSource he, (of_ofSource he).1] at hm
  exact ⟨m, hm, rfl⟩

theorem dimension?_spec (h : e.dimension? field = some n) : 0 < n ∧ n < UInt32.size := by
  obtain ⟨hread, hpos⟩ := Option.filter_eq_some_iff.mp h
  obtain ⟨t, -, ht⟩ := Option.bind_eq_some_iff.mp hread
  exact ⟨by simpa using hpos, Text.lt_of_readDecimal? ht⟩

theorem dimension?_eq_some (hn : 0 < n ∧ n < 2 ^ 32)
    (h : e.text? field = some (Text.decimal n)) : e.dimension? field = some n := by
  rw [dimension?, h, Option.bind_some, Text.readDecimal?_decimal hn.2]
  simp [hn.1]

end Extraction

namespace Descriptor

def unsafeChars : Text := "'\"`\\<>;\x7b\x7d\n"

/-- What every descriptor that is resolved from a source satisfies. -/
structure IsSound (d : Descriptor) : Prop where
  name : isName d.name = true
  width : 0 < d.canvasWidth ∧ d.canvasWidth < 2 ^ 32
  height : 0 < d.canvasHeight ∧ d.canvasHeight < 2 ^ 32
  background : Color.accept? d.backgroundColor = some d.backgroundColor
  background_safe : ∀ c ∈ d.backgroundColor, c ∉ unsafeChars
  canvasId_ne_nil : d.canvasId ≠ []
  canvasId_chars : ∀ c ∈ d.canvasId, Text.isBlank c = false ∧ c ≠ '"' ∧ c ≠ '\''
  script : ∀ s ∈ d.scriptReference,
    s ≠ [] ∧ Text.trim s = s ∧ ∀ c ∈ s, c ≠ '"' ∧ c ≠ '\''
  procedures_ne_nil : d.procedures ≠ []
  procedures_led : AreLed d.procedures

variable {source : Text} {e : Extraction}

theorem isName_resolve (e : Extraction) (ps : List Procedure) (fallback : Fallback) :
    isName (resolve e ps fallback).name = true := by
  show isName (((e.text? .name).bind sanitizeName?).getD defaultName) = true
  cases h : (e.text? .name).bind sanitizeName? with
  | none => decide
  | some name =>
    obtain ⟨raw, -, hraw⟩ := Option.bind_eq_some_iff.mp h
    exact isName_of_sanitizeName? hraw

theorem dimension_resolve (e : Extraction) (field : Field) :
    0 < (e.dimension? field).getD defaultDimension ∧
      (e.dimension? field).getD defaultDimension < 2 ^ 32 := by
  cases h : e.dimension? field with
  | none => decide
  | some n => exact Extraction.dimension?_spec h

theorem background_resolve (he : Extraction.ofSource source = .ok e) :
    Color.accept? ((e.text? .backgroundColor).getD defaultBackground) =
        some ((e.text? .backgroundColor).getD defaultBackground) ∧
      '\n' ∉ (e.text? .backgroundColor).getD defaultBackground := by
  cases h : e.text? .backgroundColor with
  | none =>
    constructor
    · decide
    · decide
  | some t =>
    obtain ⟨m, hm, rfl⟩ := Extraction.find?_of_text? he h
    exact Field.background_of_find? hm

theorem not_mem_unsafeChars {t : Text} (h : Color.accept? t = some t) (hbreak : '\n' ∉ t) :
    ∀ c ∈ t, c ∉ unsafeChars := by
  intro c hc hmem
  have hcolor := Color.isColorChar_of_isColor (Color.accept?_eq_some h).1 c hc
  have hunsafe : ∀ d ∈ unsafeChars, Color.isColorChar d = true → d = '\n' := by decide
  obtain rfl := hunsafe c hmem hcolor
  exact hbreak hc

theorem canvasId_resolve (he : Extraction.ofSource source = .ok e) :
    (e.text? .canvasId).getD defaultCanvasId ≠ [] ∧
      ∀ c ∈ (e.text? .canvasId).getD defaultCanvasId,
        Text.isBlank c = false ∧ c ≠ '"' ∧ c ≠ '\'' := by
  cases h : e.text? .canvasId with
  | none =>
    constructor
    · decide
    · decide
  | some t =>
    obtain ⟨m, hm, rfl⟩ := Extraction.find?_of_text? he h
    exact Field.canvasId_of_find? hm

theorem isSound_resolve (he : Extraction.ofSource source = .ok e) (fallback : Fallback) :
    (resolve e (e.classes.flatMap ClassBlock.procedures) fallback).IsSound := by
  obtain ⟨hbackground, hbreak⟩ := background_resolve he
  obtain ⟨hid, hidChars⟩ := canvasId_resolve he
  have hname := isName_resolve e (e.classes.flatMap ClassBlock.procedures) fallback
  refine ⟨hname, dimension_resolve e .width, dimension_resolve e .height, hbackground,
    not_mem_unsafeChars hbackground hbreak, hid, hidChars, ?_, ?_, ?_⟩
  · intro s hs
    obtain ⟨m, hm, rfl⟩ := Extraction.find?_of_text? he hs
    exact (Field.script_of_find? hm).2
  · simp only [resolve]
    split
    · exact Fallback.procedures_ne_nil _ _
    · rename_i hne
      simpa using hne
  · simp only [resolve]
    split
    · exact Fallback.areLed_procedures _ _
    · exact ClassBlock.areLed_flatMap_procedures _

theorem IsSound.scriptFileName {d : Descriptor} (h : d.IsSound) :
    d.scriptFileName ≠ [] ∧
      ∀ c ∈ d.scriptFileName, Text.isBlank c = false ∧ c ≠ '"' ∧ c ≠ '\'' := by
  have hname := isNameChar_of_mem_toLower (isNameChar_of_isName h.name).2
  refine ⟨List.append_ne_nil_of_right_ne_nil _ (by decide), fun c hc => ?_⟩
  rcases List.mem_append.mp hc with hc | hc
  · have hchar := hname c hc
    refine ⟨Text.isBlank_of_continuesIdentifier (continuesIdentifier_of_isNameChar hchar), ?_, ?_⟩
    · rintro rfl
      revert hchar
      decide
    · rintro rfl
      revert hchar
      decide
  · have hjs : ∀ d ∈ (".js" : Text), Text.isBlank d = false ∧ d ≠ '"' ∧ d ≠ '\'' := by decide
    exact hjs c hc

theorem IsSound.scriptSource {d : Descriptor} (h : d.IsSound) :
    d.scriptSource ≠ [] ∧ Text.trim d.scriptSource = d.scriptSource ∧
      ∀ c ∈ d.scriptSource, c ≠ '"' ∧ c ≠ '\'' := by
  obtain ⟨hne, hchars⟩ := h.scriptFileName
  rw [Descriptor.scriptSource]
  cases hscript : d.scriptReference with
  | some s => exact h.script s hscript
  | none =>
    exact ⟨hne, Text.trim_of_forall fun c hc => (hchars c hc).1, fun c hc => (hchars c hc).2⟩

end Descriptor

namespace Conversion

theorem ofSource_of_extraction (options : ConversionOptions) {source : Text} {e : Extraction}
    (he : Extraction.ofSource source = .ok e) :
    ofSource options source = .ok (ofExtraction options e) := by
  rw [ofSource, he]
  rfl

theorem exists_of_ofSource {options : ConversionOptions} {source : Text} {c : Conversion}
    (h : ofSource options source = .ok c) :
    ∃ e, Extraction.ofSource source = .ok e ∧ c = ofExtraction options e := by
  rw [ofSource] at h
  cases he : Extraction.ofSource source with
  | error cause =>
    rw [he] at h
    cases h
  | ok e =>
    rw [he] at h
    exact ⟨e, rfl, (Except.ok.inj h).symm⟩

theorem ofSource_isSound (options : ConversionOptions) {source : Text}
    (h : Text.allBlank source = false) :
    ∃ r, ofSource options source = .ok r ∧ r.extraction.mode = Mode.ofSource source ∧
      r.descriptor.IsSound ∧
      (r.extraction.mode = .component → r.descriptor.scriptReference = none) ∧
      r.descriptor.procedures =
        if r.extraction.mode = .markup ∨ ClassBlock.scan source = [] then
          options.fallback.procedures r.descriptor.name
        else (ClassBlock.scan source).flatMap ClassBlock.procedures := by
  obtain ⟨e, he, hmode, hclasses⟩ := Extraction.exists_ofSource h
  refine ⟨_, ofSource_of_extraction options he, hmode,
    Descriptor.isSound_resolve he options.fallback, ?_, ?_⟩
  · intro hcomponent
    show e.text? .scriptFileName = none
    cases hscript : e.text? .scriptFileName with
    | none => rfl
    | some t =>
      obtain ⟨m, hm, -⟩ := Extraction.find?_of_text? he hscript
      have hmarkup := (Field.script_of_find? hm).1
      rw [← hmode, show e.mode = .component from hcomponent] at hmarkup
      cases hmarkup
  · show (Descriptor.resolve e (e.classes.flatMap ClassBlock.procedures)
      options.fallback).procedures = if e.mode = .markup ∨ ClassBlock.scan source = [] then _ else _
    simp only [Descriptor.resolve, List.isEmpty_iff, ClassBlock.flatMap_procedures_eq_nil, hclasses]
    cases e.mode with
    | markup => rfl
    | component =>
      simp only [reduceCtorEq, false_or, if_true]
      rfl

def sprocketSource : Text :=
  "class sprocket \x7b static N = 3; " ++
    "draw(c) \x7b c.fillStyle = 'Red !important'; canvas.width = 0; \x7d \x7d"

theorem ofSource_isSound_sprocket :
    Text.allBlank sprocketSource = false ∧
      ∃ r, ofSource ⟨.synthesized, true⟩ sprocketSource = .ok r ∧
        r.extraction.mode = Mode.ofSource sprocketSource ∧ r.descriptor.IsSound ∧
        (r.extraction.mode = .component → r.descriptor.scriptReference = none) ∧
        r.descriptor.procedures =
          if r.extraction.mode = .markup ∨ ClassBlock.scan sprocketSource = [] then
            Fallback.synthesized.procedures r.descriptor.name
          else (ClassBlock.scan sprocketSource).flatMap ClassBlock.procedures :=
  ⟨by decide, ofSource_isSound ⟨.synthesized, true⟩ (by decide)⟩

end Conversion

end CanvasPage
