import CanvasPage.Proofs.Descriptor.Soundness

namespace CanvasPage.Page

def beforeTitle : Text := unlines [
  "<!DOCTYPE html>",
  "<html lang=\"en\">",
  "<head>",
  "    <meta charset=\"UTF-8\">",
  "    <meta name=\"viewport\" content=\"width=device-width, initial-scale=1.0\">"] ++ "    "

def beforeBackground : Text := unlines [
  "</title>",
  "    <style>",
  "        body \x7b",
  "            margin: 0;",
  "            padding: 0;",
  "            display: flex;",
  "            justify-content: center;",
  "            align-items: center;",
  "            min-height: 100vh;"] ++ "            "

def beforeCanvas : Text := unlines [
  ";",
  "            overflow: hidden;",
  "        \x7d",
  "",
  "        canvas \x7b",
  "            display: block;",
  "        \x7d",
  "    </style>",
  "</head>",
  "<body>"] ++ "    "

def beforeScript : Text := unlines ["\"></canvas>"] ++ "    "

def afterScript : Text := unlines ["\"></script>", "</body>", "</html>"]

theorem markup_eq (d : Descriptor) (source : Text) : markup d source =
    beforeTitle ++ ("<title>" ++ (d.name ++ (beforeBackground ++ ("background: " ++
      (d.backgroundColor ++ (beforeCanvas ++ ("<canvas id=\"" ++ (escapeAttribute d.canvasId ++
        ("\" width=\"" ++ (Text.decimal d.canvasWidth ++ ("\" height=\"" ++
          (Text.decimal d.canvasHeight ++ (beforeScript ++ ("<script src=\"" ++
            (escapeAttribute source ++ afterScript))))))))))))))) := by
  have htitle : ("    <title>" : Text) = "    " ++ "<title>" := rfl
  have hbackground : ("            background: " : Text) = "            " ++ "background: " := rfl
  have hcanvas : ("    <canvas id=\"" : Text) = "    " ++ "<canvas id=\"" := rfl
  have hscript : ("    <script src=\"" : Text) = "    " ++ "<script src=\"" := rfl
  simp only [markup, beforeTitle, beforeBackground, beforeCanvas, beforeScript, afterScript,
    unlines, List.flatMap_cons, List.flatMap_nil, List.append_assoc, List.append_nil, htitle,
    hbackground, hcanvas, hscript]

/-- A descriptor whose page needs no escapes and has a title that is accepted. -/
structure IsVerbatim (d : Descriptor) : Prop where
  sound : d.IsSound
  name : d.name.any Text.isAlphanumeric = true
  canvasId : ∀ c ∈ d.canvasId, c ≠ '&' ∧ c ≠ '<' ∧ c ≠ '>'
  script : ∀ c ∈ d.scriptSource, c ≠ '&' ∧ c ≠ '<'

theorem escapeAttributeChar_of_ne {c : Char} (hamp : c ≠ '&') (hquote : c ≠ '"') (hless : c ≠ '<') :
    escapeAttributeChar c = [c] := by
  simp [escapeAttributeChar, hamp, hquote, hless]

theorem escapeAttribute_of_forall {t : Text} (h : ∀ c ∈ t, c ≠ '&' ∧ c ≠ '"' ∧ c ≠ '<') :
    escapeAttribute t = t := by
  induction t with
  | nil => rfl
  | cons c t ih =>
    obtain ⟨hamp, hquote, hless⟩ := h c (by simp)
    rw [escapeAttribute, List.flatMap_cons, escapeAttributeChar_of_ne hamp hquote hless,
      List.singleton_append]
    exact congrArg (c :: ·) (ih fun d hd => h d (by simp [hd]))

section Parts

variable (d : Descriptor)

def scriptPart : Text := "<script src=\"" ++ (d.scriptSource ++ afterScript)

def canvasPart : Text :=
  "<canvas id=\"" ++ (d.canvasId ++ ("\" width=\"" ++ (Text.decimal d.canvasWidth ++
    ("\" height=\"" ++ (Text.decimal d.canvasHeight ++ (beforeScript ++ scriptPart d))))))

def backgroundPart : Text :=
  "background: " ++ (d.backgroundColor ++ (beforeCanvas ++ canvasPart d))

def titlePart : Text := "<title>" ++ (d.name ++ (beforeBackground ++ backgroundPart d))

def backgroundLead : Text := beforeTitle ++ ("<title>" ++ (d.name ++ beforeBackground))

def canvasLead : Text :=
  backgroundLead d ++ ("background: " ++ (d.backgroundColor ++ beforeCanvas))

def idAttribute : Text := " id=\"" ++ (d.canvasId ++ ['"'])

def widthAttribute : Text := " width=\"" ++ (Text.decimal d.canvasWidth ++ ['"'])

def scriptLead : Text :=
  canvasLead d ++ ("<canvas id=\"" ++ (d.canvasId ++ ("\" width=\"" ++
    (Text.decimal d.canvasWidth ++ ("\" height=\"" ++ (Text.decimal d.canvasHeight ++
      beforeScript))))))

end Parts

namespace IsVerbatim

variable {d : Descriptor}

theorem markup_eq_title (h : IsVerbatim d) :
    markup d d.scriptSource = beforeTitle ++ titlePart d := by
  have hid : escapeAttribute d.canvasId = d.canvasId :=
    escapeAttribute_of_forall fun c hc =>
      ⟨(h.canvasId c hc).1, (h.sound.canvasId_chars c hc).2.1, (h.canvasId c hc).2.1⟩
  have hscript : escapeAttribute d.scriptSource = d.scriptSource :=
    escapeAttribute_of_forall fun c hc =>
      ⟨(h.script c hc).1, (h.sound.scriptSource.2.2 c hc).1, (h.script c hc).2⟩
  rw [markup_eq, hid, hscript]
  rfl

theorem markup_eq_background (h : IsVerbatim d) :
    markup d d.scriptSource = backgroundLead d ++ backgroundPart d := by
  rw [h.markup_eq_title]
  delta titlePart backgroundLead
  simp only [List.append_assoc]

theorem markup_eq_canvas (h : IsVerbatim d) :
    markup d d.scriptSource = canvasLead d ++ canvasPart d := by
  rw [h.markup_eq_background]
  delta backgroundPart canvasLead
  simp only [List.append_assoc]

theorem markup_eq_script (h : IsVerbatim d) :
    markup d d.scriptSource = scriptLead d ++ scriptPart d := by
  rw [h.markup_eq_canvas]
  delta canvasPart scriptLead
  simp only [List.append_assoc]

theorem name_chars (h : IsVerbatim d) : ∀ c ∈ d.name, Descriptor.isNameChar c = true :=
  (Descriptor.isNameChar_of_isName h.sound.name).2

theorem name_ne_less (h : IsVerbatim d) : ∀ c ∈ d.name, c ≠ '<' := by
  rintro c hc rfl
  exact absurd (h.name_chars _ hc) (by decide)

theorem background_ne_less (h : IsVerbatim d) : ∀ c ∈ d.backgroundColor, c ≠ '<' := by
  rintro c hc rfl
  exact h.sound.background_safe _ hc (by decide)

theorem canvasId_ne_less (h : IsVerbatim d) : ∀ c ∈ d.canvasId, c ≠ '<' :=
  fun c hc => (h.canvasId c hc).2.1

end IsVerbatim

end CanvasPage.Page
