import CanvasPage.Proofs.Field.Faithful
import CanvasPage.Proofs.Report.Position
import CanvasPage.Report.Explanation

namespace CanvasPage

/-- The value of a field that the source does not have. -/
def Descriptor.defaultValue (d : Descriptor) : Field → Text
  | .name => defaultName
  | .width | .height => Text.decimal defaultDimension
  | .backgroundColor => defaultBackground
  | .scriptFileName => d.scriptFileName
  | .canvasId => defaultCanvasId

/-- What a report says of a captured text is so: a candidate of the field read it at the position
given, and the value is made of it. The default takes the place of a name without a character that
a name can start with. -/
structure FieldReport.IsTraced (source : Text) (mode : Mode) (t : Text) (r : FieldReport) :
    Prop where
  origin : ∃ candidate ∈ Candidate.forField r.field mode, candidate.id = r.origin ∧
    ∃ before raw after, source = before ++ (raw ++ after) ∧
      candidate.ReadsAt before raw after t ∧
      r.position =
        some ⟨(Position.after before).1, (Position.after before).2, Text.byteLength before⟩
  value : r.field ≠ .name → r.value = t
  name : r.field = .name →
    (Descriptor.sanitizeName? t = some r.value ↔ ∃ c ∈ t, Descriptor.startsName c = true)
  unusable : r.field = .name → (∀ c ∈ t, Descriptor.startsName c = false) →
    r.value = Descriptor.defaultName

/-- What a report says of a field that was not found is so. -/
structure FieldReport.IsDefaulted (d : Descriptor) (r : FieldReport) : Prop where
  origin : r.origin = "default"
  position : r.position = none
  value : r.value = d.defaultValue r.field

namespace Conversion

variable {source t : Text} {e : Extraction} {field : Field} {m : FieldMatch}

theorem dimension_ofExtraction (he : Extraction.ofSource source = .ok e)
    (hfield : field = .width ∨ field = .height) :
    Text.decimal ((e.dimension? field).getD Descriptor.defaultDimension) =
      ((e.get? field).map (·.text)).getD (Text.decimal Descriptor.defaultDimension) := by
  rw [← Extraction.dimension?_ofSource he hfield, Option.getD_map]

theorem value_ofExtraction (options : ConversionOptions) (he : Extraction.ofSource source = .ok e)
    (hfield : field ≠ .name) : (ofExtraction options e).value field =
      (e.text? field).getD ((ofExtraction options e).descriptor.defaultValue field) := by
  cases field with
  | name => exact absurd rfl hfield
  | width => exact dimension_ofExtraction he (.inl rfl)
  | height => exact dimension_ofExtraction he (.inr rfl)
  | backgroundColor | scriptFileName | canvasId => rfl

theorem value_name_ofExtraction (options : ConversionOptions) (e : Extraction) :
    (ofExtraction options e).value .name =
      ((e.text? .name).bind Descriptor.sanitizeName?).getD Descriptor.defaultName := rfl

theorem explain_ofExtraction (options : ConversionOptions)
    (he : Extraction.ofSource source = .ok e) : (ofExtraction options e).explain source =
      (Field.forMode e.mode).map fun field =>
        (ofExtraction options e).explainField source field (field.find? source e.mode) := by
  show e.fields.map _ = _
  rw [(Extraction.of_ofSource he).2, List.map_map]
  rfl

theorem isTraced_explainField (options : ConversionOptions)
    (he : Extraction.ofSource source = .ok e) (hm : field.find? source e.mode = some m) :
    ((ofExtraction options e).explainField source field (some m)).IsTraced source e.mode m.text := by
  obtain ⟨earlier, candidate, later, before, raw, after, hsplit, hid, -, hsource, hspan, hreads, -⟩ :=
    Field.isFaithful_of_find? hm
  have htext : e.text? field = some m.text := by
    rw [Extraction.text?, Extraction.get?_ofSource he, hm]
    rfl
  have hname : field = .name → (ofExtraction options e).value field =
      (Descriptor.sanitizeName? m.text).getD Descriptor.defaultName := by
    rintro rfl
    rw [value_name_ofExtraction, htext, Option.bind_some]
  refine ⟨⟨candidate, ?_, hid, before, raw, after, hsource, hreads, ?_⟩, fun hfield => ?_,
    fun hfield => ?_, fun hfield hunusable => ?_⟩
  · show candidate ∈ Candidate.forField field e.mode
    rw [hsplit]
    exact List.mem_append_right _ List.mem_cons_self
  · show some (Position.ofOffset source m.span.start) = _
    rw [hspan, hsource, Position.ofOffset_append]
  · have hvalue := value_ofExtraction options he (show field ≠ .name from hfield)
    rw [htext] at hvalue
    exact hvalue
  · show Descriptor.sanitizeName? m.text = some ((ofExtraction options e).value field) ↔ _
    rw [hname hfield]
    cases hsanitize : Descriptor.sanitizeName? m.text with
    | none => simpa using Descriptor.sanitizeName?_eq_none_iff.mp hsanitize
    | some name =>
      have hstart : ¬ ∀ c ∈ m.text, Descriptor.startsName c = false := by
        rw [← Descriptor.sanitizeName?_eq_none_iff, hsanitize]
        exact Option.some_ne_none name
      simpa using hstart
  · show (ofExtraction options e).value field = Descriptor.defaultName
    rw [hname hfield, Descriptor.sanitizeName?_eq_none_iff.mpr hunusable]
    rfl

theorem isDefaulted_explainField (options : ConversionOptions)
    (he : Extraction.ofSource source = .ok e) (hm : field.find? source e.mode = none) :
    ((ofExtraction options e).explainField source field none).IsDefaulted
      (ofExtraction options e).descriptor := by
  have htext : e.text? field = none := by
    rw [Extraction.text?, Extraction.get?_ofSource he, hm]
    rfl
  refine ⟨rfl, rfl, ?_⟩
  show (ofExtraction options e).value field = (ofExtraction options e).descriptor.defaultValue field
  by_cases hfield : field = .name
  · subst hfield
    rw [value_name_ofExtraction, htext]
    rfl
  · rw [value_ofExtraction options he hfield, htext]
    rfl

/-- A report tells where every value comes from. Only for a name that no character of the captured
text can start it gives the place of the text, while the page has the default. -/
theorem explain_isTraced (options : ConversionOptions) (h : Text.allBlank source = false) :
    ∃ c, ofSource options source = .ok c ∧
      (c.explain source).map (·.field) = Field.forMode (Mode.ofSource source) ∧
      ∀ r ∈ c.explain source,
        (∀ t, r.captured = some t → r.IsTraced source (Mode.ofSource source) t) ∧
        (r.captured = none → r.IsDefaulted c.descriptor) := by
  obtain ⟨e, he, hmode, -⟩ := Extraction.exists_ofSource h
  rw [← hmode]
  refine ⟨_, ofSource_of_extraction options he, ?_, fun r hr => ?_⟩
  · rw [explain_ofExtraction options he, List.map_map]
    exact List.map_id _
  · rw [explain_ofExtraction options he] at hr
    obtain ⟨field, -, rfl⟩ := List.mem_map.mp hr
    cases hm : field.find? source e.mode with
    | none => exact ⟨nofun, fun _ => isDefaulted_explainField options he hm⟩
    | some m =>
      refine ⟨fun t ht => ?_, nofun⟩
      obtain rfl := Option.some.inj ht
      exact isTraced_explainField options he hm

def yearPage : Text := "<html><title>2024</title><canvas width=\"320\"></canvas></html>"

theorem explain_isTraced_yearPage :
    Text.allBlank yearPage = false ∧
      ∃ c, ofSource ⟨.inert, false⟩ yearPage = .ok c ∧
        (c.explain yearPage).map (·.field) = Field.forMode (Mode.ofSource yearPage) ∧
        ∀ r ∈ c.explain yearPage,
          (∀ t, r.captured = some t → r.IsTraced yearPage (Mode.ofSource yearPage) t) ∧
          (r.captured = none → r.IsDefaulted c.descriptor) :=
  ⟨by decide, explain_isTraced ⟨.inert, false⟩ (by decide)⟩

/-- The title is taken for a name, and no name comes of it. -/
example : Field.name.find? yearPage .markup = some ⟨"2024", ⟨13, 17⟩, "document-title"⟩ ∧
    Descriptor.sanitizeName? "2024" = none := by decide +kernel

end Conversion

end CanvasPage
