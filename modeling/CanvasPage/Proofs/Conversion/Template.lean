import CanvasPage.Proofs.ClassBlock.Placed
import CanvasPage.Proofs.Descriptor.Soundness
import CanvasPage.Proofs.Page.Piece
import CanvasPage.Proofs.Procedure.DefaultInitializer
import CanvasPage.Proofs.Procedure.Template

namespace CanvasPage

open Script

namespace Page

variable {margin body ℓ t : Text} {c : Char}

/-- The lines behind the first, moved to the right. -/
def indentBehind (margin : Text) (t : Text) : Text := Text.mapLines id (indentLine margin) t

theorem indentLine_of_mem {l : Text} (hc : c ∈ l) (hblank : Text.isBlank c = false)
    (margin : Text) : indentLine margin l = margin ++ l := by
  rw [indentLine, if_neg]
  intro hall
  rw [List.all_eq_true.mp hall c hc] at hblank
  cases hblank

theorem splits_indentLine (hc : Text.isBlank c = false) (margin : Text) :
    Text.Splits c (indentLine margin) id := by
  intro k l
  rw [indentLine_of_mem (c := c) (by simp) hc, indentLine_of_mem (c := c) (by simp) hc]
  simp

theorem splits_id (c : Char) : Text.Splits c id id := fun k l => by simp

theorem indentLines_eq_mapLines (ht : t ≠ []) (margin : Text) :
    indentLines margin t =
      Text.mapLines (indentLine margin) (indentLine margin) t ++ ['\n'] := by
  obtain ⟨l, ls, hlines⟩ := List.exists_cons_of_ne_nil (Text.lines_ne_nil ht)
  rw [indentLines, Text.mapLines, hlines, Text.unlines_eq_join (by simp)]
  rfl

theorem indentBehind_isInfix (hℓ : IsTemplate ℓ) (h : StandsInCode ℓ body) (margin : Text) :
    indentBehind margin ℓ <:+: indentLines margin body := by
  obtain ⟨c, v, d, rfl, hc, hd, -⟩ := hℓ.exists_ends
  have hc := isBlank_of_isBacktick hc
  have hd := isBlank_of_isBacktick hd
  obtain ⟨x, y, rfl, -⟩ := h
  have hends : ∀ k : Text, ∃ l, indentLine margin (k ++ [c]) = l ++ [c] := fun k =>
    ⟨margin ++ k, by rw [indentLine_of_mem (c := c) (by simp) hc, List.append_assoc]⟩
  obtain ⟨w, hw⟩ := Text.exists_mapLines_concat hc hends hends x
  have htext : x ++ (c :: (v ++ [d]) ++ y) = x ++ c :: (v ++ d :: y) := by simp
  have hsingle : Text.mapLines id (indentLine margin) [c] = [c] :=
    Text.mapLines_of_not_mem (by simpa using (Text.isBlank_lineBreak hc).1.symm) (by simp) _ _
  have hfront : indentBehind margin (c :: (v ++ [d])) =
      c :: Text.mapLines id (indentLine margin) (v ++ [d]) := by
    have happend := Text.mapLines_append_cons hc (splits_id c) (splits_indentLine hc margin) []
      (v ++ [d])
    rwa [List.nil_append, List.nil_append, hsingle] at happend
  rw [htext, indentLines_eq_mapLines (by simp), Text.mapLines_append_cons hc
    (splits_indentLine hc margin) (splits_indentLine hc margin), hw, Text.mapLines_append_cons hd
    (splits_id d) (splits_indentLine hd margin), hfront]
  exact ⟨w, Text.mapLines id (indentLine margin) y ++ ['\n'], by simp⟩

theorem indentBehind_of_not_mem (ht : '\n' ∉ t) (hne : t ≠ []) (margin : Text) :
    indentBehind margin t = t :=
  Text.mapLines_of_not_mem ht hne _ _

theorem indentBehind_infix_functionWritten {p : Procedure} (hℓ : IsTemplate ℓ)
    (h : StandsInCode ℓ p.body) (indent start stop : Text) :
    indentBehind (indent ++ "    ") ℓ <:+: functionWritten indent start stop p := by
  have hbody : Text.allBlank p.body = false := by
    obtain ⟨c, v, rfl, hc, -⟩ := hℓ
    obtain ⟨x, y, hsplit, -⟩ := h
    rw [hsplit]
    simp [Text.allBlank, isBlank_of_isBacktick hc]
  refine (indentBehind_isInfix hℓ h _).trans ?_
  rw [functionWritten, functionBlock_eq, hbody, if_neg Bool.false_ne_true]
  exact ⟨functionLead indent start p ++ ['\x7b', '\n'],
    indent ++ '\x7d' :: (stop ++ "\n"), by simp⟩

theorem text_functionPiece_isInfix {d : Descriptor} {p : Procedure} (hp : IsEmitted d p)
    (overrides : Bool) : (functionPiece p).text <:+: script d overrides := by
  obtain ⟨before, after, hpieces⟩ := List.append_of_mem (functionPiece_mem hp overrides)
  refine ⟨before.flatMap Piece.text, after.flatMap Piece.text, ?_⟩
  rw [← flatMap_scriptPieces, hpieces, List.flatMap_append, List.flatMap_cons, List.append_assoc]

end Page

namespace ClassBlock

variable {source : Text} {c : ClassBlock} {m : Method}

theorem isCode_run_body (hc : c ∈ scan source) (hm : m ∈ c.methods) :
    (State.start.run m.body).isCode = true := by
  obtain ⟨before, body, hmembers⟩ := exists_members_of_mem_scan hc
  rw [hmembers] at hm
  obtain ⟨hm, -⟩ := mem_methods_ofMembers.mp hm
  obtain ⟨_, _, _, -, -, -, _, _, _, -, hread⟩ :=
    (Member.laid_scanFrom before body).exists_of_mem hm
  exact (Bracket.tally_of_closeFrom hread.body).1

theorem not_allBlank_of_mem_scan (hc : c ∈ scan source) : Text.allBlank source = false := by
  obtain ⟨u, own, after, rfl, -, -, -, head, body, rfl, -⟩ :=
    (laid_scanFrom [] source).exists_of_mem hc
  have hletter : Text.isBlank 'c' = false := by decide
  have hclass : ("class" : Text) = 'c' :: "lass" := rfl
  simp [Text.allBlank, written, hclass, hletter]

end ClassBlock

namespace Conversion

variable {source : Text} {c : ClassBlock} {m : Method} {r : Conversion}

theorem exists_ofSource_isEmitted (hmode : Mode.ofSource source = .component)
    (hc : c ∈ ClassBlock.scan source) (hm : m ∈ c.methods) (options : ConversionOptions) :
    ∃ r, ofSource options source = .ok r ∧ c ∈ r.extraction.classes ∧
      Page.IsEmitted r.descriptor (m.procedure c.name) ∧
      r.artifacts.scriptText = Page.script r.descriptor options.urlOverrides := by
  obtain ⟨e, he, hemode, heclasses⟩ :=
    Extraction.exists_ofSource (ClassBlock.not_allBlank_of_mem_scan hc)
  have hclasses : e.classes = ClassBlock.scan source := by
    rw [heclasses, if_pos (hemode.trans hmode)]
  have hmem : m.procedure c.name ∈ e.classes.flatMap ClassBlock.procedures :=
    List.mem_flatMap.mpr ⟨c, hclasses ▸ hc, ClassBlock.procedure_mem_procedures hm⟩
  have hsome : (e.classes.flatMap ClassBlock.procedures).isEmpty = false := by
    simpa using List.ne_nil_of_mem hmem
  refine ⟨ofExtraction options e, by rw [ofSource, he]; rfl, hclasses ▸ hc, ⟨?_, ?_, ?_⟩, rfl⟩
  · show _ ∈ (Descriptor.resolve _ _ _).procedures
    rw [Descriptor.resolve, hsome, if_neg Bool.false_ne_true]
    exact hmem
  · intro name
    cases hkind : m.kind <;> simp [Method.procedure, hkind]
  · intro hinitializer
    rw [Procedure.isInitializer] at hinitializer
    cases hkind : m.kind <;> simp [Method.procedure, hkind] at hinitializer

/-- A template in a method comes into the function that the method becomes, its later lines at the
indentation of the function. -/
theorem ofSource_template {s : Span} {ℓ : Text} (hmode : Mode.ofSource source = .component)
    (hc : c ∈ ClassBlock.scan source) (hm : m ∈ c.methods) (hs : s ∈ literalRanges m.body)
    (hℓ : s.slice? m.body = some ℓ) (hhead : ℓ.head?.any isBacktick = true)
    (hspares : Procedure.Spares isBacktick m.body) (options : ConversionOptions) :
    ∃ r p function, ofSource options source = .ok r ∧ c ∈ r.extraction.classes ∧
      p = m.procedure c.name ∧
      function = Page.functionWritten (Page.functionIndent p) (Page.functionStart p)
        (Page.functionStop p) p ∧
      function <:+: r.artifacts.scriptText ∧
      Page.indentBehind (Page.functionIndent p ++ "    ")
        (Procedure.dedentBehind (Procedure.laterIndent m.body) ℓ) <:+: function ∧
      ('\n' ∉ ℓ → ℓ <:+: function) := by
  obtain ⟨r, hr, hclass, hemitted, hscript⟩ := exists_ofSource_isEmitted hmode hc hm options
  have hfunction := Page.text_functionPiece_isInfix hemitted options.urlOverrides
  have htext : ℓ ∈ literalTexts m.body := by
    have hmem : some ℓ ∈ (literalTexts m.body).map some := by
      rw [← slice?_literalRanges]
      exact hℓ ▸ List.mem_map_of_mem hs
    simpa using hmem
  have hopens : ∀ d ∈ ℓ.head?, isBacktick d = true := by
    intro d hd
    rwa [Option.mem_def.mp hd] at hhead
  obtain ⟨htemplate, hstands⟩ :=
    standsInCode_of_mem_literalTexts (ClassBlock.isCode_run_body hc hm) htext hopens
  obtain ⟨hdedented, -⟩ :=
    Procedure.standsInCode_normalizeIndentation htemplate hstands hspares.lineEnds
  have hbody := Procedure.standsInCode_rewriteBody htemplate hstands hspares
  have hinfix := Page.indentBehind_infix_functionWritten (p := m.procedure c.name) hdedented hbody
    (Page.functionIndent (m.procedure c.name)) (Page.functionStart (m.procedure c.name))
    (Page.functionStop (m.procedure c.name))
  refine ⟨r, _, _, hr, hclass, rfl, rfl, hscript ▸ hfunction, hinfix, fun hline => ?_⟩
  have hne : ℓ ≠ [] := fun hnil => by simp [hnil] at hhead
  rwa [Procedure.dedentBehind_of_not_mem hline, htemplate.trimEnd_eq,
    Page.indentBehind_of_not_mem hline hne] at hinfix

def bannerSource : Text :=
  "class Banner \x7b\n  draw(xs) \x7b\n    const title = `a $\x7bxs\x7d`;\n" ++
    "    const text = `one\n      two `;\n    xs.map((x) => \x7b return title + x; \x7d);\n  \x7d\n\x7d\n"

def bannerDraw : Method where
  name := "draw"
  kind := .plain
  isStatic := false
  params := "xs"
  body := "\n    const title = `a $\x7bxs\x7d`;\n    const text = `one\n      two `;\n" ++
    "    xs.map((x) => \x7b return title + x; \x7d);\n  "
  span := ⟨17, 137⟩

def banner : ClassBlock where
  name := "Banner"
  parent := none
  span := ⟨0, 139⟩
  properties := []
  initializer := none
  methods := [bannerDraw]

def bannerTemplate : Text := "`one\n      two `"

theorem spares_bannerDraw : Procedure.Spares isBacktick bannerDraw.body := by
  obtain ⟨r, hnext, hr⟩ : ∃ r, Arrow.next? Procedure.parameterTexts
      (Substitution.applyAll (Procedure.normalizeIndentation bannerDraw.body)) = some r ∧
      decide (Arrow.Spares isBacktick r ∧ r.result = Procedure.rewriteBody bannerDraw.body) = true :=
    (Option.any_eq_true ..).mp (by decide +kernel)
  obtain ⟨hspares, hresult⟩ := of_decide_eq_true hr
  refine ⟨by decide +kernel, castsApart_of_leadAfter? (by decide +kernel), [r],
    .cons hnext (hresult ▸ .nil), fun q hq => ?_⟩
  rwa [List.mem_singleton.mp hq]

def bannerFunction : Text :=
  "    Banner.prototype.draw = function(xs) \x7b\n        var title = `a $\x7bxs\x7d`;\n" ++
    "        var text = `one\n          two `;\n" ++
    "        xs.map(function(x) \x7b return title + x; \x7d);\n    \x7d;\n"

/-- The line behind the first is in the body at another column than in the script. -/
theorem ofSource_template_banner :
    Mode.ofSource bannerSource = .component ∧ banner ∈ ClassBlock.scan bannerSource ∧
      bannerDraw ∈ banner.methods ∧ (⟨47, 63⟩ : Span) ∈ literalRanges bannerDraw.body ∧
      (⟨47, 63⟩ : Span).slice? bannerDraw.body = some bannerTemplate ∧
      bannerTemplate.head?.any isBacktick = true ∧ Procedure.Spares isBacktick bannerDraw.body ∧
      ∀ options, ∃ r, ofSource options bannerSource = .ok r ∧ banner ∈ r.extraction.classes ∧
        bannerFunction <:+: r.artifacts.scriptText ∧
        ("`one\n          two `" : Text) <:+: bannerFunction := by
  have hmode : Mode.ofSource bannerSource = .component := by decide +kernel
  have hclass : banner ∈ ClassBlock.scan bannerSource := by decide +kernel
  have hmethod : bannerDraw ∈ banner.methods := List.mem_singleton.mpr rfl
  have hrange : (⟨47, 63⟩ : Span) ∈ literalRanges bannerDraw.body := by decide +kernel
  have hslice : (⟨47, 63⟩ : Span).slice? bannerDraw.body = some bannerTemplate := by
    decide +kernel
  have hhead : bannerTemplate.head?.any isBacktick = true := by decide +kernel
  have hfunction : Page.functionWritten (Page.functionIndent (bannerDraw.procedure banner.name))
      (Page.functionStart (bannerDraw.procedure banner.name))
      (Page.functionStop (bannerDraw.procedure banner.name)) (bannerDraw.procedure banner.name) =
        bannerFunction := by decide +kernel
  have htemplate : Page.indentBehind (Page.functionIndent (bannerDraw.procedure banner.name) ++ "    ")
      (Procedure.dedentBehind (Procedure.laterIndent bannerDraw.body) bannerTemplate) =
        "`one\n          two `" := by decide +kernel
  refine ⟨hmode, hclass, hmethod, hrange, hslice, hhead, spares_bannerDraw, fun options => ?_⟩
  obtain ⟨r, _, _, hr, hmem, rfl, rfl, hscript, hinfix, -⟩ := ofSource_template hmode hclass hmethod
    hrange hslice hhead spares_bannerDraw options
  exact ⟨r, hr, hmem, hfunction ▸ hscript, hfunction ▸ htemplate ▸ hinfix⟩

end Conversion

end CanvasPage
