import CanvasPage.Proofs.Field.Background
import CanvasPage.Proofs.Page.Markup

namespace CanvasPage.Page

open Pattern Candidate

section Avoids

variable {d : Descriptor} {element t : Text} {n : Nat}

theorem avoids_of_ne_less (h : ∀ c ∈ t, c ≠ '<') : avoids ('<' :: element) t = true := by
  apply avoids_of_forall
  intro c hc
  rw [← Bool.not_eq_true]
  intro heither
  exact h c hc (eq_of_eitherCase (by decide) heither)

theorem avoids_decimal : avoids ('<' :: element) (Text.decimal n) = true := by
  apply avoids_of_ne_less
  rintro c hc rfl
  exact absurd (Text.isAsciiDigit_of_mem_decimal hc) (by decide)

theorem avoids_canvasLead (h : IsVerbatim d)
    (hpieces : ∀ t ∈ [beforeTitle, "<title>", beforeBackground, "background: ", beforeCanvas],
      avoids ('<' :: element) t = true) :
    avoids ('<' :: element) (canvasLead d) = true := by
  have hname : avoids ('<' :: element) d.name = true := avoids_of_ne_less h.name_ne_less
  have hbackground : avoids ('<' :: element) d.backgroundColor = true :=
    avoids_of_ne_less h.background_ne_less
  have hlead : avoids ('<' :: element) (backgroundLead d) = true := by
    delta backgroundLead
    exact avoids_append (hpieces _ (by simp)) (avoids_append (hpieces _ (by simp))
      (avoids_append hname (hpieces _ (by simp))))
  delta canvasLead
  exact avoids_append hlead (avoids_append (hpieces _ (by simp))
    (avoids_append hbackground (hpieces _ (by simp))))

theorem avoids_canvas (h : IsVerbatim d) : avoids ('<' :: "canvas") (canvasLead d) = true :=
  avoids_canvasLead h (by decide +kernel)

theorem avoids_scriptLead (h : IsVerbatim d) : avoids ('<' :: "script") (scriptLead d) = true := by
  have hlead : avoids ('<' :: "script") (canvasLead d) = true :=
    avoids_canvasLead h (by decide +kernel)
  have hid : avoids ('<' :: "script") d.canvasId = true := avoids_of_ne_less h.canvasId_ne_less
  delta scriptLead
  exact avoids_append hlead (avoids_append (by decide +kernel) (avoids_append hid
    (avoids_append (by decide +kernel) (avoids_append avoids_decimal
      (avoids_append (by decide +kernel) (avoids_append avoids_decimal (by decide +kernel)))))))

end Avoids

namespace IsVerbatim

variable {d : Descriptor}

theorem acceptTitle_name (h : IsVerbatim d) : acceptTitle d.name = some d.name := by
  have hwords : Text.words d.name = [d.name] :=
    Text.words_of_forall (Descriptor.isNameChar_of_isName h.sound.name).1 fun c hc =>
      Text.isBlank_of_continuesIdentifier
        (Descriptor.continuesIdentifier_of_isNameChar (h.name_chars c hc))
  rw [acceptTitle, hwords]
  exact if_pos h.name

theorem find?_name (h : IsVerbatim d) :
    ∃ m, Field.find? (markup d d.scriptSource) .markup .name = some m ∧ m.text = d.name := by
  have hskip : documentTitle.FailsOver beforeTitle (titlePart d) :=
    failsOver_documentTitle (by decide +kernel) _
  have hclose : ∃ rest, beforeBackground ++ backgroundPart d = "</title>" ++ rest := ⟨_, rfl⟩
  obtain ⟨rest, hrest⟩ := hclose
  have hcapture : documentTitle.CapturesAt 1 d.name beforeTitle.reverse (titlePart d) := by
    delta titlePart
    rw [hrest]
    exact capturesAt_documentTitle h.name_ne_less _ _
  rw [h.markup_eq_title]
  exact find?_field_of_capturesAt rfl hskip hcapture (by decide) h.acceptTitle_name

theorem failsOver_backgroundLead (h : IsVerbatim d) :
    styleBackground.FailsOver (backgroundLead d) (backgroundPart d) := by
  have hname : ':' ∉ d.name := fun hc => absurd (h.name_chars _ hc) (by decide)
  have hrest : ∃ rest, beforeBackground ++ backgroundPart d = '<' :: rest := ⟨_, rfl⟩
  obtain ⟨rest, hrest⟩ := hrest
  delta backgroundLead
  refine (failsOver_styleBackground (by decide +kernel) _).append
    ((failsOver_styleBackground (by decide +kernel) _).append (.append ?_
      (failsOver_styleBackground (by decide +kernel) _)))
  rw [hrest]
  exact failsOver_styleBackground_of_not_mem hname rest

theorem find?_background (h : IsVerbatim d) :
    ∃ m, Field.find? (markup d d.scriptSource) .markup .backgroundColor = some m ∧
      m.text = d.backgroundColor := by
  obtain ⟨hcolor, htrim, -⟩ := Color.accept?_eq_some h.sound.background
  have hbreak : '\n' ∉ d.backgroundColor := fun hc => h.sound.background_safe _ hc (by decide)
  obtain ⟨c, u, hvalue, hc, hu⟩ := exists_isStyleValue hcolor hbreak
  have hblank : Text.isBlank c = false := by
    have hhead := Text.head?_trim d.backgroundColor
    rw [htrim, hvalue] at hhead
    exact hhead c rfl
  have hbefore : ∀ e ∈ (backgroundLead d).reverse.head?, Text.isWordChar e = false := by
    have hspace : beforeBackground.reverse.head? = some ' ' := by decide +kernel
    have hlast : (backgroundLead d).reverse.head? = some ' ' := by
      delta backgroundLead
      simp [hspace]
    intro e he
    rw [hlast] at he
    obtain rfl := Option.some.inj he
    decide
  have hcapture : styleBackground.CapturesAt 3 d.backgroundColor (backgroundLead d).reverse
      (backgroundPart d) := by
    delta backgroundPart
    rw [hvalue]
    exact capturesAt_styleBackground hbefore hc hblank hu _
  rw [h.markup_eq_background]
  exact find?_field_of_capturesAt rfl h.failsOver_backgroundLead hcapture (by decide)
    h.sound.background

theorem acceptElementId_canvasId (h : IsVerbatim d) :
    acceptElementId d.canvasId = some d.canvasId := by
  have hblank : ∀ c ∈ d.canvasId, Text.isBlank c = false :=
    fun c hc => (h.sound.canvasId_chars c hc).1
  have hany : d.canvasId.any Text.isBlank = false := by
    rw [List.any_eq_false]
    simpa using hblank
  have hne : List.isEmpty d.canvasId = false := by
    simpa using h.sound.canvasId_ne_nil
  rw [acceptElementId, Text.trim_of_forall hblank, hany, hne]
  rfl

theorem acceptNonEmpty_scriptSource (h : IsVerbatim d) :
    acceptNonEmpty d.scriptSource = some d.scriptSource := by
  obtain ⟨hne, htrim, -⟩ := h.sound.scriptSource
  have hempty : List.isEmpty d.scriptSource = false := by simpa using hne
  rw [acceptNonEmpty, htrim, hempty]
  rfl

theorem acceptDimension_decimal {n : Nat} (h : 0 < n ∧ n < 2 ^ 32) :
    acceptDimension (Text.decimal n) = some (Text.decimal n) := by
  have htrim : Text.trim (Text.decimal n) = Text.decimal n := by
    apply Text.trim_of_forall
    intro c hc
    exact Text.isBlank_of_isAsciiDigit (Text.isAsciiDigit_of_mem_decimal hc)
  rw [acceptDimension, htrim, Text.readDecimal?_decimal h.2]
  exact if_pos h.1

theorem canvasPart_eq_id (d : Descriptor) :
    ∃ rest, canvasPart d =
      ('<' :: "canvas") ++ ' ' :: ("id" ++ '=' :: '"' :: (d.canvasId ++ '"' :: rest)) :=
  ⟨_, rfl⟩

theorem canvasPart_eq_width (d : Descriptor) :
    ∃ rest, canvasPart d = "<canvas" ++ (idAttribute d ++ ' ' :: ("width" ++ '=' :: '"' ::
      (Text.decimal d.canvasWidth ++ '"' :: rest))) := by
  refine ⟨" height=\"" ++ (Text.decimal d.canvasHeight ++ (beforeScript ++ scriptPart d)), ?_⟩
  delta canvasPart idAttribute
  rw [List.append_assoc, List.append_assoc]
  rfl

theorem canvasPart_eq_height (d : Descriptor) :
    ∃ rest, canvasPart d = "<canvas" ++ ((idAttribute d ++ widthAttribute d) ++ ' ' ::
      ("height" ++ '=' :: '"' :: (Text.decimal d.canvasHeight ++ '"' :: rest))) := by
  obtain ⟨rest, hrest⟩ : ∃ rest, beforeScript ++ scriptPart d = '"' :: rest := ⟨_, rfl⟩
  refine ⟨rest, ?_⟩
  delta canvasPart idAttribute widthAttribute
  rw [hrest]
  simp only [List.append_assoc]
  rfl

theorem isPassed_idAttribute (h : IsVerbatim d) {name : Text}
    (hname : avoids (' ' :: name) " id=\"" = true) : IsPassed name (idAttribute d) := by
  have hid : ∀ c ∈ d.canvasId, c ≠ '>' ∧ Text.isBlank c = false :=
    fun c hc => ⟨(h.canvasId c hc).2.2, (h.sound.canvasId_chars c hc).1⟩
  have hlead : IsPassed name " id=\"" := ⟨by decide, by decide, hname⟩
  have hquote : IsPassed name ['"'] := isPassed_of_not_blank (by decide)
  delta idAttribute
  exact hlead.append ((isPassed_of_not_blank hid).append hquote)

theorem isPassed_widthAttribute (d : Descriptor) : IsPassed "height" (widthAttribute d) := by
  have hwidth : ∀ c ∈ Text.decimal d.canvasWidth, c ≠ '>' ∧ Text.isBlank c = false := by
    intro c hc
    have hdigit := Text.isAsciiDigit_of_mem_decimal hc
    refine ⟨?_, Text.isBlank_of_isAsciiDigit hdigit⟩
    rintro rfl
    exact absurd hdigit (by decide)
  have hlead : IsPassed "height" " width=\"" := ⟨by decide, by decide, by decide⟩
  have hquote : IsPassed "height" ['"'] := isPassed_of_not_blank (by decide)
  delta widthAttribute
  exact hlead.append ((isPassed_of_not_blank hwidth).append hquote)

theorem find?_dimension (h : IsVerbatim d) {field : Field} {id name skipped rest : Text} {n : Nat}
    {candidates : List Candidate} (hn : 0 < n ∧ n < 2 ^ 32)
    (hfield : forField field .markup =
      ⟨id, canvasDimension name, acceptDimension⟩ :: candidates)
    (hskipped : IsPassed name skipped) (hhead : (skipped ++ [' ']).head? = some ' ')
    (hpart : canvasPart d = "<canvas" ++ (skipped ++ ' ' :: (name ++ '=' :: '"' ::
      (Text.decimal n ++ '"' :: rest)))) :
    ∃ m, Field.find? (markup d d.scriptSource) .markup field = some m ∧
      m.text = Text.decimal n := by
  have hskip : (canvasDimension name).FailsOver (canvasLead d) (canvasPart d) :=
    failsOver_canvasDimension (avoids_canvas h) _
  have hcapture : (canvasDimension name).CapturesAt 1 (Text.decimal n) (canvasLead d).reverse
      (canvasPart d) := by
    rw [hpart]
    exact capturesAt_canvasDimension hskipped hhead (Text.decimal_ne_nil n)
      (fun c hc => Text.isAsciiDigit_of_mem_decimal hc) _ _
  rw [h.markup_eq_canvas]
  exact find?_field_of_capturesAt hfield hskip hcapture (by decide) (acceptDimension_decimal hn)

theorem find?_width (h : IsVerbatim d) :
    ∃ m, Field.find? (markup d d.scriptSource) .markup .width = some m ∧
      m.text = Text.decimal d.canvasWidth := by
  obtain ⟨rest, hpart⟩ := canvasPart_eq_width d
  exact h.find?_dimension h.sound.width rfl (h.isPassed_idAttribute (by decide)) rfl hpart

theorem find?_height (h : IsVerbatim d) :
    ∃ m, Field.find? (markup d d.scriptSource) .markup .height = some m ∧
      m.text = Text.decimal d.canvasHeight := by
  obtain ⟨rest, hpart⟩ := canvasPart_eq_height d
  have hpassed : IsPassed "height" (idAttribute d ++ widthAttribute d) :=
    (h.isPassed_idAttribute (by decide)).append (isPassed_widthAttribute d)
  exact h.find?_dimension h.sound.height rfl hpassed rfl hpart

theorem find?_canvasId (h : IsVerbatim d) :
    ∃ m, Field.find? (markup d d.scriptSource) .markup .canvasId = some m ∧
      m.text = d.canvasId := by
  have hskip : (quotedAttribute "canvas" "id").FailsOver (canvasLead d) (canvasPart d) :=
    failsOver_quotedAttribute (avoids_canvas h) _
  obtain ⟨rest, hpart⟩ := canvasPart_eq_id d
  have hcapture : (quotedAttribute "canvas" "id").CapturesAt 1 d.canvasId (canvasLead d).reverse
      (canvasPart d) := by
    rw [hpart]
    exact capturesAt_quotedAttribute (atWordBoundary_stop (by decide) (by decide))
      h.sound.canvasId_ne_nil fun c hc => (h.sound.canvasId_chars c hc).2
  rw [h.markup_eq_canvas]
  exact find?_field_of_capturesAt rfl hskip hcapture (by decide) h.acceptElementId_canvasId

theorem find?_script (h : IsVerbatim d) :
    ∃ m, Field.find? (markup d d.scriptSource) .markup .scriptFileName = some m ∧
      m.text = d.scriptSource := by
  obtain ⟨hne, -, hquotes⟩ := h.sound.scriptSource
  have hskip : (quotedAttribute "script" "src").FailsOver (scriptLead d) (scriptPart d) :=
    failsOver_quotedAttribute (avoids_scriptLead h) _
  have hpart : ∃ rest, scriptPart d =
      ('<' :: "script") ++ ' ' :: ("src" ++ '=' :: '"' :: (d.scriptSource ++ '"' :: rest)) :=
    ⟨_, rfl⟩
  obtain ⟨rest, hpart⟩ := hpart
  have hcapture : (quotedAttribute "script" "src").CapturesAt 1 d.scriptSource
      (scriptLead d).reverse (scriptPart d) := by
    rw [hpart]
    exact capturesAt_quotedAttribute (atWordBoundary_stop (by decide) (by decide)) hne hquotes
  rw [h.markup_eq_script]
  exact find?_field_of_capturesAt rfl hskip hcapture (by decide) h.acceptNonEmpty_scriptSource

end IsVerbatim

end CanvasPage.Page
