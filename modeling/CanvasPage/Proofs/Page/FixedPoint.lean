import CanvasPage.Proofs.Page.Reading

namespace CanvasPage.Page

namespace IsVerbatim

variable {d : Descriptor}

theorem ofSource_markup (h : IsVerbatim d) :
    ∃ e, Extraction.ofSource (markup d d.scriptSource) = .ok e ∧ e.mode = .markup ∧
      e.classes = [] ∧ ∀ field, e.text? field =
        (Field.find? (markup d d.scriptSource) .markup field).map (·.text) := by
  obtain ⟨rest, hrest⟩ : ∃ rest, markup d d.scriptSource = "<!DOCTYPE" ++ rest := by
    rw [h.markup_eq_title]
    exact ⟨_, rfl⟩
  rw [hrest]
  exact Extraction.exists_ofSource_of_markup rfl rfl

theorem resolve_markup (h : IsVerbatim d) :
    ∃ e, Extraction.ofSource (markup d d.scriptSource) = .ok e ∧ e.mode = .markup ∧
      ∀ fallback, Descriptor.resolve e (e.classes.flatMap ClassBlock.procedures) fallback =
        { d with
          scriptReference := some d.scriptSource
          procedures := fallback.procedures d.name } := by
  obtain ⟨e, he, hmode, hclasses, htext⟩ := h.ofSource_markup
  have htext? : ∀ {field : Field} {t : Text},
      (∃ m, field.find? (markup d d.scriptSource) .markup = some m ∧ m.text = t) →
        e.text? field = some t := by
    rintro field t ⟨m, hm, rfl⟩
    rw [htext, hm, Option.map_some]
  have hname := htext? h.find?_name
  have hwidth := Extraction.dimension?_eq_some h.sound.width (htext? h.find?_width)
  have hheight := Extraction.dimension?_eq_some h.sound.height (htext? h.find?_height)
  have hbackground := htext? h.find?_background
  have hid := htext? h.find?_canvasId
  have hscript := htext? h.find?_script
  refine ⟨e, he, hmode, fun fallback => ?_⟩
  rw [hclasses, List.flatMap_nil, Descriptor.resolve, hname, hwidth, hheight, hbackground, hid,
    hscript, Option.bind_some, Descriptor.sanitizeName?_of_isName h.sound.name]
  rfl

end IsVerbatim

end CanvasPage.Page

namespace CanvasPage.Conversion

theorem ofSource_markupText (options : ConversionOptions) {source : Text}
    (h : Text.allBlank source = false) :
    ∃ r, ofSource options source = .ok r ∧
      (r.descriptor.name.any Text.isAlphanumeric = true →
        (∀ c ∈ r.descriptor.canvasId, c ≠ '&' ∧ c ≠ '<' ∧ c ≠ '>') →
        (∀ c ∈ r.descriptor.scriptSource, c ≠ '&' ∧ c ≠ '<') →
        ∀ pageOptions : ConversionOptions, ∃ s,
          ofSource pageOptions r.artifacts.markupText = .ok s ∧ s.extraction.mode = .markup ∧
            s.descriptor = { r.descriptor with
              scriptReference := some r.descriptor.scriptSource
              procedures := pageOptions.fallback.procedures r.descriptor.name } ∧
            s.artifacts.markupText = r.artifacts.markupText) := by
  obtain ⟨e, he, -, -⟩ := Extraction.exists_ofSource h
  have hsound := Descriptor.isSound_resolve he options.fallback
  refine ⟨_, ofSource_of_extraction options he, fun hname hid hscript pageOptions => ?_⟩
  have hverbatim : Page.IsVerbatim (ofExtraction options e).descriptor :=
    ⟨hsound, hname, hid, hscript⟩
  obtain ⟨f, hf, hmode, hresolve⟩ := hverbatim.resolve_markup
  have hagain : ofSource pageOptions (ofExtraction options e).artifacts.markupText =
      .ok (ofExtraction pageOptions f) :=
    ofSource_of_extraction pageOptions hf
  refine ⟨_, hagain, hmode, hresolve pageOptions.fallback, ?_⟩
  show Page.markup (Descriptor.resolve f _ _) _ = _
  rw [hresolve pageOptions.fallback]
  rfl

def tankSource : Text :=
  "<html><title>wave tank</title><body style=\"background: hsl(210, 40%, 12%) !important\">" ++
    "<canvas class='wide' height=300 id=\"tank\" width=\"640\"></canvas>" ++
    "<script defer src='tank.js?v=2'></script>"

def needsNoEscapes (d : Descriptor) : Bool :=
  d.name.any Text.isAlphanumeric && d.canvasId.all (fun c => c ≠ '&' ∧ c ≠ '<' ∧ c ≠ '>') &&
    d.scriptSource.all fun c => c ≠ '&' ∧ c ≠ '<'

theorem ofSource_markupText_tank :
    Text.allBlank tankSource = false ∧
      ∃ r, ofSource ⟨.synthesized, true⟩ tankSource = .ok r ∧
        r.descriptor.name = "WaveTank" ∧ r.descriptor.scriptSource = "tank.js?v=2" ∧
        ∀ pageOptions : ConversionOptions, ∃ s,
          ofSource pageOptions r.artifacts.markupText = .ok s ∧ s.extraction.mode = .markup ∧
            s.descriptor = { r.descriptor with
              scriptReference := some r.descriptor.scriptSource
              procedures := pageOptions.fallback.procedures r.descriptor.name } ∧
            s.artifacts.markupText = r.artifacts.markupText := by
  have hblank : Text.allBlank tankSource = false := by decide
  obtain ⟨r, hr, hfixed⟩ := ofSource_markupText ⟨.synthesized, true⟩ hblank
  have hcheck : ((ofSource ⟨.synthesized, true⟩ tankSource).toOption.any fun r =>
      needsNoEscapes r.descriptor && r.descriptor.name == ("WaveTank" : Text) &&
        r.descriptor.scriptSource == ("tank.js?v=2" : Text)) = true := by decide +kernel
  rw [hr] at hcheck
  simp only [Except.toOption, Option.any_some, needsNoEscapes, Bool.and_eq_true, List.all_eq_true,
    decide_eq_true_eq, beq_iff_eq] at hcheck
  obtain ⟨⟨⟨⟨hname, hid⟩, hscript⟩, htank⟩, hreference⟩ := hcheck
  exact ⟨hblank, r, hr, htank, hreference, hfixed hname hid hscript⟩

end CanvasPage.Conversion
