import CanvasPage.Proofs.ClassBlock.Member
import CanvasPage.Proofs.Page.Indented
import CanvasPage.Proofs.Page.Piece
import CanvasPage.Proofs.Script.Neutral
import CanvasPage.Proofs.Script.Matching
import CanvasPage.Proofs.Text.Decimal

namespace CanvasPage

open Script

/-- Parameters and a body that can stand in a function. -/
structure Procedure.IsEnclosable (p : Procedure) : Prop where
  params : ∀ q ∈ p.params, isClosed q = true
  no_return : '\r' ∉ p.body
  body : isClosed (p.body ++ ['\n']) = true
  /-- A function does not end the last line of its body twice. -/
  ended : (∀ name, p.kind ≠ .staticValue name) → p.body.getLast? = some '\n' →
    isClosed p.body = true

structure Descriptor.IsRenderable (d : Descriptor) : Prop where
  name : Text.isIdentifier d.name = true
  owners : ∀ p ∈ d.procedures, Text.isIdentifier p.owner = true
  members : ∀ p ∈ d.procedures, Text.isIdentifier p.name = true
  canvasId : '\n' ∉ d.canvasId
  background : '\n' ∉ d.backgroundColor
  procedures : ∀ p ∈ d.procedures, p.IsEnclosable

namespace Page

variable {d : Descriptor} {p : Procedure} {indent start stop : Text}

section Functions

theorem neutral_unlines {body : Text} (hr : '\r' ∉ body)
    (hended : body.getLast? = some '\n' → isClosed body = true)
    (hclosed : isClosed (body ++ ['\n']) = true) :
    Neutral .start (unlines (Text.lines body)) := by
  rw [Text.unlines_lines hr]
  split
  · rename_i hlast
    cases hbody : body.getLast? with
    | none =>
      rw [List.getLast?_eq_none_iff.mp hbody]
      exact neutral_nil rfl
    | some c =>
      obtain rfl : c = '\n' := by simpa [hbody] using hlast
      exact neutral_of_isClosed (hended hbody)
  · exact neutral_of_isClosed hclosed

theorem isMargin_replicate (n : Nat) : IsMargin (List.replicate n ' ') := by
  intro c hc
  rw [List.eq_of_mem_replicate hc]
  decide

theorem isMargin_append {t u : Text} (ht : IsMargin t) (hu : IsMargin u) : IsMargin (t ++ u) := by
  intro c hc
  rcases List.mem_append.mp hc with hc | hc
  · exact ht c hc
  · exact hu c hc

theorem isPlain_of_isMargin (h : IsMargin indent) : ∀ c ∈ indent, isPlain c = true :=
  fun c hc => (isPlain_of_isBlank (h c hc).1).1

theorem isClosed_functionBlock (hp : p.IsEnclosable) (hkind : ∀ name, p.kind ≠ .staticValue name)
    (hindent : IsMargin indent) : isClosed (functionBlock indent p) = true := by
  rw [functionBlock_eq]
  split
  · rfl
  · have hmargin : IsMargin (indent ++ "    ") := isMargin_append hindent (isMargin_replicate 4)
    have hlines : Neutral .start (indentLines (indent ++ "    ") p.body) :=
      (alike_indentLines hmargin p.body).neutral
        (neutral_unlines hp.no_return (hp.ended hkind) hp.body)
    have hend := neutral_of_isPlain hlines.isCode (isPlain_of_isMargin hindent)
    rw [List.cons_append]
    exact isClosed_of_neutral (neutral_cons_of_isPlain rfl (by decide) (hlines.append hend))

theorem inert_functionText (hp : p.IsEnclosable) (hkind : ∀ name, p.kind ≠ .staticValue name)
    (hindent : IsMargin indent) (hstart : ∀ c ∈ start, isPlain c = true)
    (hstop : ∀ c ∈ stop, isPlain c = true) : Inert (functionText indent start stop p) := by
  have hparams : Inert ('(' :: (Text.join ", " p.params ++ [')'])) :=
    inert_enclose .paren (isClosed_of_neutral (neutral_join hp.params))
  have hblock : Inert ('\x7b' :: (functionBlock indent p ++ ['\x7d'])) :=
    inert_enclose .brace (isClosed_functionBlock hp hkind hindent)
  have hfunction : ("function(" : Text) = ("function" : Text) ++ ['('] := rfl
  have hspace : (") " : Text) = [')'] ++ [' '] := rfl
  have hsplit : functionText indent start stop p = indent ++ (start ++ ("function" ++
      ('(' :: (Text.join ", " p.params ++ [')']) ++ ([' '] ++
        ('\x7b' :: (functionBlock indent p ++ ['\x7d']) ++ (stop ++ "\n")))))) := by
    rw [functionText_eq]
    unfold functionWritten functionLead
    simp only [hfunction, hspace, List.append_assoc, List.cons_append, List.nil_append]
  rw [hsplit]
  exact (inert_of_isPlain (isPlain_of_isMargin hindent)).append
    ((inert_of_isPlain hstart).append ((inert_of_isPlain (by decide)).append
      (hparams.append ((inert_of_isPlain (by decide)).append
        (hblock.append ((inert_of_isPlain hstop).append (inert_of_isPlain (by decide))))))))

end Functions

section Members

theorem inert_of_isIdentifier {t : Text} (h : Text.isIdentifier t = true) : Inert t :=
  inert_of_isPlain fun c hc =>
    isPlain_of_continuesIdentifier (Text.continuesIdentifier_of_isIdentifier h c hc)

theorem isPlain_append {t u : Text} (ht : ∀ c ∈ t, isPlain c = true)
    (hu : ∀ c ∈ u, isPlain c = true) : ∀ c ∈ t ++ u, isPlain c = true := by
  intro c hc
  rcases List.mem_append.mp hc with hc | hc
  · exact ht c hc
  · exact hu c hc

theorem isPlain_of_isIdentifier {t : Text} (h : Text.isIdentifier t = true) :
    ∀ c ∈ t, isPlain c = true := fun c hc =>
  isPlain_of_continuesIdentifier (Text.continuesIdentifier_of_isIdentifier h c hc)

theorem isPlain_memberTarget {owner : Text} (h : Text.isIdentifier owner = true)
    (isStatic : Bool) : ∀ c ∈ memberTarget owner isStatic, isPlain c = true := by
  cases isStatic with
  | true => exact isPlain_of_isIdentifier h
  | false => exact isPlain_append (isPlain_of_isIdentifier h) (by decide)

theorem not_mem_of_isIdentifier {t : Text} (h : Text.isIdentifier t = true) : '\n' ∉ t := by
  intro hmem
  have hc := Text.continuesIdentifier_of_isIdentifier h '\n' hmem
  revert hc
  decide

theorem inert_accessorText (hp : p.IsEnclosable) (haccessor : p.isAccessor = true) :
    Inert (accessorText p) := by
  have hkind : ∀ name, p.kind ≠ .staticValue name := by
    intro name hname
    simp [Procedure.isAccessor, hname] at haccessor
  have hset : ∀ c ∈ ("set: " : Text), isPlain c = true := by decide
  have hget : ∀ c ∈ ("get: " : Text), isPlain c = true := by decide
  have hkey : ∀ c ∈ accessorKey p ++ ": ", isPlain c = true := by
    unfold accessorKey
    cases p.kind with
    | setter => exact hset
    | initializer | method | getter | staticValue => exact hget
  exact inert_functionText hp hkind (isMargin_replicate 8) hkey (by decide)

theorem inert_string {t : Text} (h : '\n' ∉ t) : Inert ("'" ++ escapeString t ++ "'") := by
  refine inert_of_isClosed (isClosed_of_neutral (neutral_string h)) ?_ ?_
  · simp
  · simp

theorem inert_definition {target name accessors : Text} (htarget : Inert target)
    (hname : '\n' ∉ name) (haccessors : Inert accessors) :
    Inert ("    Object.defineProperty(" ++ target ++ ", '" ++ escapeString name ++ "', \x7b\n" ++
      accessors ++ "        configurable: true\n    \x7d);\n") := by
  have hlead : Inert ("    Object.defineProperty" : Text) := inert_of_isPlain (by decide)
  have hcomma : Inert (", " : Text) := inert_of_isPlain (by decide)
  have hbreak : Inert ("\n" : Text) := inert_of_isPlain (by decide)
  have hlast : Inert ("        configurable: true\n    " : Text) := inert_of_isPlain (by decide)
  have hend : Inert (";\n" : Text) := inert_of_isPlain (by decide)
  have hblock := inert_enclose .brace (hbreak.append (haccessors.append hlast)).isClosed
  have harguments := inert_enclose .paren
    (htarget.append (hcomma.append ((inert_string hname).append (hcomma.append hblock)))).isClosed
  have hopen : ("    Object.defineProperty(" : Text) = ("    Object.defineProperty" : Text) ++ ['('] :=
    rfl
  have hquote : (", '" : Text) = (", " : Text) ++ ("'" : Text) := rfl
  have hbrace : ("', \x7b\n" : Text) = ("'" : Text) ++ ((", " : Text) ++ ('\x7b' :: ("\n" : Text))) :=
    rfl
  have hclose : ("        configurable: true\n    \x7d);\n" : Text) =
      ("        configurable: true\n    " : Text) ++ ('\x7d' :: ')' :: (";\n" : Text)) := rfl
  simpa only [hopen, hquote, hbrace, hclose, Bracket.opener, Bracket.closer, List.append_assoc,
    List.cons_append, List.nil_append] using hlead.append (harguments.append hend)

theorem inert_propertyText {owner name : Text} (howner : Text.isIdentifier owner = true)
    (hname : Text.isIdentifier name = true) (isStatic : Bool) {procedures : List Procedure}
    (hps : ∀ p ∈ procedures, p.IsEnclosable) :
    Inert (propertyText owner name isStatic procedures) := by
  refine inert_definition (inert_of_isPlain (isPlain_memberTarget howner isStatic))
    (not_mem_of_isIdentifier hname) (inert_flatMap fun p hp => ?_)
  obtain ⟨hmem, hof⟩ := List.mem_filter.mp hp
  simp only [isAccessorOf, Bool.and_eq_true] at hof
  exact inert_accessorText (hps p hmem) hof.1.1

theorem isCode_step_semicolon {s : State} (h : ((s.step '\n').step '\n').isCode = true) :
    ((s.step ';').step '\n').isCode = true := by
  obtain ⟨mode, nesting⟩ := s
  cases mode <;> cases nesting <;>
    simp_all [State.step, stepCode, stepTemplate, State.isCode, isQuote, isBacktick]
  all_goals grind

/-- A semicolon before the line feeds that end a text leaves it in code. -/
theorem neutral_append_semicolon {t : Text} (h : Neutral .start (t ++ ['\n', '\n'])) :
    Neutral .start (t ++ [';', '\n']) := by
  refine ⟨?_, fun b depth => ?_⟩
  · have hcode := h.isCode
    rw [State.run_append] at hcode ⊢
    exact isCode_step_semicolon hcode
  · have hdepth := h.depth b depth
    rw [Bracket.depthAfter?_append] at hdepth ⊢
    simpa only [depthAfter?_of_isPlain (t := [';', '\n']) (by decide),
      depthAfter?_of_isPlain (t := ['\n', '\n']) (by decide)] using hdepth

theorem neutral_expressionText {body : Text} (hr : '\r' ∉ body)
    (hclosed : isClosed (body ++ ['\n']) = true) :
    Neutral .start (expressionText body ++ ";\n") := by
  have hneutral := neutral_of_isClosed hclosed
  by_cases hnil : body = []
  · rw [hnil]
    exact neutral_of_isClosed (by decide)
  have hlines := Text.lines_ne_nil hnil
  have htext : expressionText body = Text.join ('\n' :: ("    " : Text)) (Text.lines body) := by
    unfold expressionText
    split
    · rename_i hempty
      exact absurd hempty hlines
    · rfl
  have hjoin : Neutral .start (Text.join ['\n'] (Text.lines body) ++ ['\n', '\n']) := by
    have hbreak : Neutral .start (body ++ ['\n'] ++ ['\n']) :=
      hneutral.append (neutral_of_isPlain hneutral.isCode (by decide))
    have hunlines := Text.unlines_eq_join hlines
    rw [Text.unlines_lines hr] at hunlines
    have hsplit : Text.join ['\n'] (Text.lines body) ++ ['\n', '\n'] =
        (Text.join "\n" (Text.lines body) ++ ['\n']) ++ ['\n'] := by
      rw [List.append_assoc]
      rfl
    rw [hsplit, ← hunlines]
    split
    · exact hneutral
    · exact hbreak
  rw [htext]
  exact (alike_join (by simp [State.start, Mode.quote?]) (isMargin_replicate 4) _).neutral
    (neutral_append_semicolon hjoin)

theorem inert_staticValueText {owner : Text} (howner : Text.isIdentifier owner = true)
    (hname : Text.isIdentifier p.name = true) (hp : p.IsEnclosable) :
    Inert (staticValueText owner p) := by
  have hlead : ∀ c ∈ "    " ++ owner ++ "." ++ p.name ++ " = ", isPlain c = true :=
    isPlain_append (isPlain_append (isPlain_append (isPlain_append (by decide)
      (isPlain_of_isIdentifier howner)) (by decide)) (isPlain_of_isIdentifier hname)) (by decide)
  unfold staticValueText
  rw [List.append_assoc]
  exact inert_plain_append (by simp) hlead (neutral_expressionText hp.no_return hp.body)

theorem inert_memberText {owner : Text} {procedures : List Procedure}
    (howner : Text.isIdentifier owner = true) (hname : Text.isIdentifier p.name = true)
    (hp : p.IsEnclosable) (hps : ∀ q ∈ procedures, q.IsEnclosable) :
    Inert (memberText owner procedures p) := by
  have htarget : ∀ c ∈ memberTarget owner p.isStatic ++ "." ++ p.name ++ " = ",
      isPlain c = true :=
    isPlain_append (isPlain_append (isPlain_append (isPlain_memberTarget howner p.isStatic)
      (by decide)) (isPlain_of_isIdentifier hname)) (by decide)
  unfold memberText
  split
  · exact inert_propertyText howner hname p.isStatic hps
  · exact inert_propertyText howner hname p.isStatic hps
  · exact inert_staticValueText howner hname hp
  · rename_i hvalue
    exact inert_functionText hp hvalue (isMargin_replicate 4) htarget (by decide)

end Members

section Owners

variable {owner : Text} {ps : List Procedure}

theorem isEnclosable_ownerInitializer (hd : d.IsRenderable) (owner : Text) :
    (ownerInitializer d owner).IsEnclosable ∧
      ∀ name, (ownerInitializer d owner).kind ≠ .staticValue name := by
  rw [ownerInitializer]
  cases hfind : (d.proceduresOf owner).find? (·.isInitializer) with
  | none => exact ⟨⟨by simp [Procedure.initializer], by simp [Procedure.initializer], rfl,
      by simp [Procedure.initializer]⟩, by simp [Procedure.initializer]⟩
  | some p =>
    have hinit : p.kind = .initializer := by
      simpa [Procedure.isInitializer] using List.find?_some hfind
    have hmem := mem_procedures_of_mem_proceduresOf (List.mem_of_find?_eq_some hfind)
    exact ⟨hd.procedures p hmem, by simp [hinit]⟩

theorem inert_ownerRemark (howner : Text.isIdentifier owner = true) :
    Inert ("\n    // " ++ owner ++ " definition\n") := by
  have hbreak : '\n' ∉ (" " : Text) ++ owner ++ " definition" := by
    simp [not_mem_of_isIdentifier howner]
  have hremark := inert_plain_append (t := ("\n    " : Text)) (by decide) (by decide)
    (neutral_remark hbreak)
  have hlead : ("\n    // " : Text) = ("\n    " : Text) ++ (("//" : Text) ++ (" " : Text)) := rfl
  have hend : (" definition\n" : Text) = (" definition" : Text) ++ ("\n" : Text) := rfl
  simpa only [hlead, hend, List.append_assoc] using hremark

theorem inert_ownerText (hd : d.IsRenderable) (howner : owner ∈ d.owners) :
    Inert (ownerText d owner) := by
  obtain ⟨p, hp, rfl⟩ := Descriptor.mem_ownersOf.mp howner
  have hname := hd.owners p hp
  obtain ⟨hinitializer, hkind⟩ := isEnclosable_ownerInitializer hd p.owner
  have hstart : ∀ c ∈ "var " ++ p.owner ++ " = ", isPlain c = true :=
    isPlain_append (isPlain_append (by decide) (isPlain_of_isIdentifier hname)) (by decide)
  have hmembers : ∀ q ∈ ownerMembers d p.owner,
      Inert ('\n' :: memberText p.owner (d.proceduresOf p.owner) q) := by
    intro q hq
    have hof := (List.mem_filter.mp (mem_of_mem_leadingMembers hq)).1
    have hmem := mem_procedures_of_mem_proceduresOf hof
    have htext : Inert (memberText p.owner (d.proceduresOf p.owner) q) :=
      inert_memberText hname (hd.members q hmem) (hd.procedures q hmem)
        fun r hr => hd.procedures r (mem_procedures_of_mem_proceduresOf hr)
    exact (inert_of_isPlain (t := ['\n']) (by decide)).append htext
  rw [← flatMap_ownerPieces]
  unfold ownerPieces
  rw [List.flatMap_cons, List.flatMap_cons, List.flatMap_assoc]
  simp only [List.flatMap_cons, flatMap_memberPieces]
  have hfunction : Inert (Piece.function "    " ("var " ++ p.owner ++ " = ") ";"
      (ownerInitializer d p.owner)).text := by
    rw [Piece.text, ← functionText_eq]
    exact inert_functionText hinitializer hkind (isMargin_replicate 4) hstart (by decide)
  exact (inert_ownerRemark hname).append (hfunction.append (inert_flatMap hmembers))

end Owners

section Loop

theorem inert_unlines {ls : List Text} (h : ∀ l ∈ ls, Inert l) : Inert (unlines ls) :=
  inert_flatMap fun l hl => (h l hl).append (inert_of_isPlain (t := ['\n']) (by decide))

theorem inert_fixed {t : Text} (h : (isClosed t && t.head? != some '/' && t.head? != some '*') = true) :
    Inert t := by
  simp only [Bool.and_eq_true, bne_iff_ne] at h
  exact inert_of_isClosed h.1.1 h.1.2 h.2

theorem inert_decimal (n : Nat) : Inert (Text.decimal n) := by
  refine inert_of_isPlain fun c hc => ?_
  have hdigit := Text.isAsciiDigit_of_mem_decimal hc
  refine isPlain_of_continuesIdentifier ?_
  have hlt : c.toNat < 128 := by
    simp only [Text.isAsciiDigit, Bool.and_eq_true, decide_eq_true_eq] at hdigit
    omega
  simp [Text.continuesIdentifier, Text.isWordChar, hlt, Text.isAsciiAlphanumeric, hdigit]

theorem inert_backgroundText (hd : '\n' ∉ d.backgroundColor) (overrides : Bool) :
    Inert (backgroundText d overrides) := by
  unfold backgroundText
  cases overrides with
  | true =>
    rw [if_pos rfl]
    exact inert_fixed (by decide +kernel)
  | false =>
    have hlead : Inert ("        ctx.fillStyle = " : Text) := inert_fixed (by decide +kernel)
    have hsemicolon : Inert (";" : Text) := inert_fixed (by decide)
    have hfill := hlead.append ((inert_string hd).append hsemicolon)
    have hopen : ("        ctx.fillStyle = '" : Text) = ("        ctx.fillStyle = " : Text) ++ ("'" : Text) :=
      rfl
    have hclose : ("';" : Text) = ("'" : Text) ++ (";" : Text) := rfl
    refine inert_unlines fun l hl => ?_
    rcases List.mem_cons.mp hl with rfl | hl
    · simpa only [hopen, hclose, List.append_assoc] using hfill
    · have hfixed : ∀ l ∈ (["        ctx.fillRect(0, 0, canvas.width, canvas.height);", ""] : List Text),
          (isClosed l && l.head? != some '/' && l.head? != some '*') = true := by decide +kernel
      exact inert_fixed (hfixed l hl)

theorem inert_line {t : Text} (h : Inert t) : Inert (t ++ ['\n']) :=
  h.append (inert_of_isPlain (t := ['\n']) (by decide))

theorem inert_unlines_fixed {ls : List Text}
    (h : ∀ l ∈ ls, (isClosed (l ++ ['\n']) && l.head? != some '/' && l.head? != some '*') = true) :
    Inert (unlines ls) := by
  refine inert_flatMap fun l hl => ?_
  have hline := h l hl
  simp only [Bool.and_eq_true, bne_iff_ne] at hline
  cases l with
  | nil => exact inert_of_isPlain (by decide)
  | cons c t => exact inert_of_isClosed hline.1.1 (by simpa using hline.1.2) (by simpa using hline.2)

theorem inert_loopText {primary : Text} (hd : '\n' ∉ d.backgroundColor)
    (hprimary : Text.isIdentifier primary = true) (overrides : Bool) :
    Inert (loopText d primary overrides) := by
  have hlead : Inert ("    var animation = new " : Text) := inert_fixed (by decide +kernel)
  have hcall : Inert ("();" : Text) := inert_fixed (by decide +kernel)
  have hopening : Inert (unlines ["", "    // Animation loop"]) :=
    inert_unlines_fixed (by decide +kernel)
  have hdeclared : Inert (unlines ["    var time = 0;", "    var animationFrameId;", ""]) :=
    inert_unlines_fixed (by decide +kernel)
  have hheader : Inert ("    function animate() " : Text) := inert_fixed (by decide +kernel)
  have htime : Inert (unlines ["        time += " ++ timeStep ++ ";"]) :=
    inert_unlines_fixed (by decide +kernel)
  have hupdate : Inert (if d.ownerDefines primary "update" then
      unlines ["        animation.update(time);"] else []) := by
    split
    · exact inert_unlines_fixed (by decide +kernel)
    · exact inert_nil
  have hdraw : Inert (if d.ownerDefines primary "draw" then
      unlines ["        animation.draw(ctx);"] else []) := by
    split
    · exact inert_unlines_fixed (by decide +kernel)
    · exact inert_nil
  have hnext : Inert (unlines ["", "        animationFrameId = requestAnimationFrame(animate);"]) :=
    inert_unlines_fixed (by decide +kernel)
  have hmargin : Inert ("    " : Text) := inert_of_isPlain (by decide)
  have hbreak : Inert ['\n'] := inert_of_isPlain (by decide)
  have hrest : Inert (unlines ["", "    animate();", "", "    // Cleanup on page unload"]) :=
    inert_unlines_fixed (by decide +kernel)
  have hcleanup : Inert (unlines [
      "    window.addEventListener('beforeunload', function() \x7b",
      "        cancelAnimationFrame(animationFrameId);",
      "    \x7d);"]) := inert_fixed (by decide +kernel)
  have hblock := inert_enclose .brace (hbreak.append ((inert_backgroundText hd overrides).append
    (htime.append (hupdate.append (hdraw.append (hnext.append hmargin)))))).isClosed
  have hloop := hopening.append ((inert_line (hlead.append
    ((inert_of_isIdentifier hprimary).append hcall))).append (hdeclared.append
      (hheader.append (hblock.append (hbreak.append (hrest.append hcleanup))))))
  have hopen : ("    function animate() \x7b" : Text) = ("    function animate() " : Text) ++ ['\x7b'] :=
    rfl
  have hclose : ("    \x7d" : Text) = ("    " : Text) ++ ['\x7d'] := rfl
  unfold unlines at hloop
  unfold loopText unlines
  simpa only [List.flatMap_cons, List.flatMap_nil, hopen, hclose, Bracket.opener, Bracket.closer,
    List.append_assoc, List.cons_append, List.nil_append, List.append_nil] using hloop

end Loop

section Handler

theorem inert_overridesText (hd : '\n' ∉ d.backgroundColor) : Inert (overridesText d) := by
  have hvariable : Inert ("    var config = " : Text) := inert_fixed (by decide +kernel)
  have hkey : Inert ("        backgroundColor: " : Text) := inert_fixed (by decide +kernel)
  have hcomma : Inert ("," : Text) := inert_fixed (by decide)
  have hbreak : Inert ['\n'] := inert_of_isPlain (by decide)
  have hmargin : Inert ("    " : Text) := inert_of_isPlain (by decide)
  have hsecond : Inert (unlines ["        transparentBackground: false"]) :=
    inert_unlines_fixed (by decide +kernel)
  have hend : Inert (unlines [";"]) := inert_unlines_fixed (by decide +kernel)
  have hrest : Inert (unlines [
      "",
      "    var urlParams = new URLSearchParams(window.location.search);",
      "    if (urlParams.has('bg')) \x7b",
      "        config.backgroundColor = '#' + urlParams.get('bg');",
      "        document.body.style.background = config.backgroundColor;",
      "    \x7d",
      "    if (urlParams.get('transparent') === 'true') \x7b",
      "        config.transparentBackground = true;",
      "        document.body.style.background = 'transparent';",
      "    \x7d"]) := inert_fixed (by decide +kernel)
  have hblock := inert_enclose .brace (hbreak.append ((inert_line (hkey.append
    ((inert_string hd).append hcomma))).append (hsecond.append hmargin))).isClosed
  have hconfig := hbreak.append (hvariable.append (hblock.append (hend.append hrest)))
  have hopen : ("    var config = \x7b" : Text) = ("    var config = " : Text) ++ ['\x7b'] := rfl
  have hquote : ("        backgroundColor: '" : Text) =
      ("        backgroundColor: " : Text) ++ ("'" : Text) := rfl
  have hunquote : ("'," : Text) = ("'" : Text) ++ ("," : Text) := rfl
  have hclose : ("    \x7d;" : Text) = ("    " : Text) ++ ('\x7d' :: (";" : Text)) := rfl
  have hempty : ("" : Text) = [] := rfl
  unfold unlines at hconfig
  unfold overridesText unlines
  simpa only [List.flatMap_cons, List.flatMap_nil, hempty, hopen, hquote, hunquote, hclose,
    Bracket.opener, Bracket.closer, List.append_assoc, List.cons_append, List.nil_append,
    List.append_nil] using hconfig

/-- The statements that look the canvas up and give it its size. -/
def setupText (d : Descriptor) : Text := unlines [
  "    var canvas = document.getElementById('" ++ escapeString d.canvasId ++ "');",
  "    if (!canvas) return;",
  "",
  "    var ctx = canvas.getContext('2d');",
  "    if (!ctx) return;",
  "",
  "    canvas.width = " ++ Text.decimal d.canvasWidth ++ ";",
  "    canvas.height = " ++ Text.decimal d.canvasHeight ++ ";"]

theorem inert_setupText (hd : '\n' ∉ d.canvasId) : Inert (setupText d) := by
  have hlookup : Inert ("    var canvas = document.getElementById" : Text) :=
    inert_fixed (by decide +kernel)
  have hsemicolon : Inert (";" : Text) := inert_fixed (by decide)
  have hchecks : Inert (unlines [
      "    if (!canvas) return;",
      "",
      "    var ctx = canvas.getContext('2d');",
      "    if (!ctx) return;",
      ""]) := inert_unlines_fixed (by decide +kernel)
  have hwidth : Inert ("    canvas.width = " : Text) := inert_fixed (by decide +kernel)
  have hheight : Inert ("    canvas.height = " : Text) := inert_fixed (by decide +kernel)
  have hid := inert_enclose .paren (inert_string hd).isClosed
  have hsetup := (inert_line (hlookup.append (hid.append hsemicolon))).append (hchecks.append
    ((inert_line (hwidth.append ((inert_decimal d.canvasWidth).append hsemicolon))).append
      (inert_line (hheight.append ((inert_decimal d.canvasHeight).append hsemicolon)))))
  have hopen : ("    var canvas = document.getElementById('" : Text) =
      ("    var canvas = document.getElementById" : Text) ++ ('(' :: ("'" : Text)) := rfl
  have hclose : ("');" : Text) = ("'" : Text) ++ (')' :: (";" : Text)) := rfl
  unfold unlines at hsetup
  unfold setupText unlines
  simpa only [List.flatMap_cons, List.flatMap_nil, hopen, hclose, Bracket.opener, Bracket.closer,
    List.append_assoc, List.cons_append, List.nil_append, List.append_nil] using hsetup

theorem inert_animationText (hd : d.IsRenderable) (overrides : Bool) :
    Inert (animationText d overrides) := by
  rw [animationText]
  cases hprimary : d.primaryOwner? with
  | none => exact inert_nil
  | some primary =>
    have howner : primary ∈ d.owners := by
      rw [Descriptor.primaryOwner?, Option.or_eq_some_iff] at hprimary
      rcases hprimary with h | ⟨-, h⟩
      · exact List.mem_reverse.mp (List.mem_of_find?_eq_some h)
      · exact List.mem_of_getLast? h
    obtain ⟨p, hp, rfl⟩ := Descriptor.mem_ownersOf.mp howner
    exact inert_loopText hd.background (hd.owners p hp) overrides

end Handler

end Page

end CanvasPage
