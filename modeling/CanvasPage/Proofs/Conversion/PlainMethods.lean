import CanvasPage.Proofs.Descriptor.Soundness
import CanvasPage.Proofs.Page.Inert
import CanvasPage.Proofs.Page.Reading
import CanvasPage.Proofs.Procedure.PlainMethod

namespace CanvasPage

namespace Mode

open Pattern

variable {source t : Text}

theorem startsWithIgnoringAsciiCase_less (u : Text) (h : '<' ∉ t) :
    Text.startsWithIgnoringAsciiCase ('<' :: u) t = false := by
  rw [← Bool.not_eq_true]
  intro hstart
  rw [Text.startsWithIgnoringAsciiCase, Text.eqIgnoringAsciiCase, beq_iff_eq] at hstart
  cases t with
  | nil => cases hstart
  | cons c t =>
    have hlower : Text.toAsciiLower '<' = Text.toAsciiLower c := (List.cons.inj hstart).1
    have heither : eitherCase '<' c = true := by
      rw [eitherCase, hlower, beq_self_eq_true, Bool.true_or, Bool.true_or]
    exact h (by simp [eq_of_eitherCase (by decide) heither])

theorem canvasTag_occursIn (h : '<' ∉ source) : canvasTag.occursIn source = false := by
  have havoids : avoids "<canvas" source = true :=
    Page.avoids_of_ne_less fun c hc hless => h (hless ▸ hc)
  have hfails : canvasTag.FailsOver source [] := by
    refine failsOver_of_avoids (fun before t hdiffers => at?_eq_none ?_) havoids []
    rw [canvasTag, run_append]
    exact run_of_ends_eq_nil (ends_literalEitherCase_eq_nil hdiffers)
  have hnone : canvasTag.occurrences source = [] := by
    have hoccurrences := occurrencesFrom_append hfails []
    rw [List.append_nil] at hoccurrences
    rw [occurrences, hoccurrences]
    rfl
  rw [occursIn, first?, hnone]
  rfl

theorem ofSource_of_not_mem_less (h : '<' ∉ source) : ofSource source = .component := by
  have hhead : '<' ∉ Text.trimStart source := fun hmem =>
    h ((List.dropWhile_suffix Text.isBlank).mem hmem)
  have hdoctype : Text.startsWithIgnoringAsciiCase "<!doctype" (Text.trimStart source) = false :=
    startsWithIgnoringAsciiCase_less _ hhead
  have hhtml : Text.startsWithIgnoringAsciiCase "<html" (Text.trimStart source) = false :=
    startsWithIgnoringAsciiCase_less _ hhead
  rw [ofSource, hdoctype, hhtml, canvasTag_occursIn h]
  rfl

end Mode

namespace PlainMethod

open Procedure

variable {m : PlainMethod} {ms : List PlainMethod} {d : Descriptor} {name owner : Text}
  {initial : Procedure}

/-- What a plain method becomes in a script. -/
def block (owner : Text) (m : PlainMethod) : Text :=
  "    " ++ owner ++ ".prototype." ++ m.name ++ " = function(" ++ Text.join ", " m.params ++
    ") \x7b" ++ ['\n'] ++ Page.unlines (m.lines.map (shift 8)) ++ "    \x7d;" ++ ['\n']

theorem lines_body (hm : m.IsPlain) : Text.lines (Text.join "\n" m.lines) = m.lines := by
  refine Text.lines_join (fun l hl => ⟨hm.body.tidy.no_break l hl, fun hreturn => ?_⟩) ?_
  · have hblank := hm.body.tidy.trimmed l hl _ hreturn
    revert hblank
    decide
  · rintro l hl rfl
    have hblank := hm.body.tidy.last _ hl
    cases hblank

theorem allBlank_body (hm : m.IsPlain) : Text.allBlank (Text.join "\n" m.lines) = false := by
  obtain ⟨l, hl, c, hc, -⟩ := hm.body.tidy.flush
  obtain ⟨first, rest, hlines⟩ := List.exists_cons_of_ne_nil (List.ne_nil_of_mem hl)
  have hfirst := hm.body.tidy.first first (by rw [hlines]; rfl)
  rw [hlines]
  cases rest with
  | nil => exact hfirst
  | cons next rest =>
    rw [Text.join_cons_cons, Text.allBlank_append, hfirst, Bool.false_and]

theorem indentLine_eq_shift {l : Text} (hl : ∀ c ∈ l.getLast?, Text.isBlank c = false) :
    Page.indentLine (spaces 8) l = shift 8 l := by
  rw [Page.indentLine, shift]
  simp only [Text.allBlank_iff hl]

theorem assignedFunction_procedure (hm : m.IsPlain) (owner : Text) :
    Page.assignedFunction (Page.memberTarget owner false ++ "." ++ m.name) (m.procedure owner) =
      m.block owner := by
  have hlines : Page.indentLines ("    " ++ "    ") (Text.join "\n" m.lines) =
      Page.unlines (m.lines.map (shift 8)) := by
    have height : ("    " : Text) ++ ("    " : Text) = spaces 8 := rfl
    rw [Page.indentLines, lines_body hm, height]
    exact congrArg Page.unlines
      (List.map_congr_left fun l hl => indentLine_eq_shift (hm.body.tidy.trimmed l hl))
  have hbody : (m.procedure owner).body = Text.join "\n" m.lines := rfl
  have hparams : (m.procedure owner).params = m.params := rfl
  have hblank : ¬ Text.allBlank (Text.join "\n" m.lines) = true := by
    rw [allBlank_body hm]
    exact Bool.false_ne_true
  have hheader : (") \x7b" : Text) = (") " : Text) ++ ['\x7b'] := rfl
  have hassign : (" = function(" : Text) = (" = " : Text) ++ ("function(" : Text) := rfl
  have hprototype : (".prototype." : Text) = (".prototype" : Text) ++ ("." : Text) := rfl
  have hclose : ("    \x7d;" : Text) = ("    " : Text) ++ ('\x7d' :: (";" : Text)) := rfl
  have hend : ("\n" : Text) = ['\n'] := rfl
  unfold Page.assignedFunction block Page.memberTarget
  rw [Page.functionText_eq]
  unfold Page.functionWritten Page.functionLead
  rw [Page.functionBlock_eq, hbody, hparams, if_neg hblank, if_neg Bool.false_ne_true, hlines]
  simp only [hheader, hassign, hprototype, hclose, hend, List.append_assoc, List.cons_append,
    List.nil_append]

theorem leadingMembers_eq_self {ps : List Procedure} (h : ∀ p ∈ ps, p.isAccessor = false) :
    Page.leadingMembers ps = ps := by
  induction ps with
  | nil => rfl
  | cons p ps ih =>
    rw [Page.leadingMembers, h p (by simp), if_neg Bool.false_ne_true,
      ih fun q hq => h q (by simp [hq])]

theorem owners_eq_singleton (hprocedures : d.procedures = initial :: ms.map (procedure owner))
    (howner : initial.owner = owner) : d.owners = [owner] := by
  have hrest : (Descriptor.ownersOf (ms.map (procedure owner))).filter (· != initial.owner) =
      [] := by
    rw [List.filter_eq_nil_iff]
    intro other hother
    obtain ⟨p, hp, rfl⟩ := Descriptor.mem_ownersOf.mp hother
    obtain ⟨m, -, rfl⟩ := List.mem_map.mp hp
    simp [howner, procedure, Procedure.method]
  rw [Descriptor.owners, hprocedures, Descriptor.ownersOf, hrest, howner]

theorem exists_ownerText (hms : ∀ m ∈ ms, m.IsPlain)
    (hprocedures : d.procedures = initial :: ms.map (procedure owner))
    (hkind : initial.isInitializer = true) (howner : initial.owner = owner) :
    ∃ before, Page.ownerText d owner = before ++ ms.flatMap fun m => '\n' :: m.block owner := by
  have hof : d.proceduresOf owner = d.procedures := by
    rw [Descriptor.proceduresOf, List.filter_eq_self, hprocedures]
    intro p hp
    rcases List.mem_cons.mp hp with rfl | hp
    · simp [howner]
    · obtain ⟨m, -, rfl⟩ := List.mem_map.mp hp
      simp [procedure, Procedure.method]
  have hmembers : d.procedures.filter (!·.isInitializer) = ms.map (procedure owner) := by
    rw [hprocedures, List.filter_cons_of_neg (by simp [hkind]), List.filter_eq_self]
    intro p hp
    obtain ⟨m, -, rfl⟩ := List.mem_map.mp hp
    simp [procedure, Procedure.method, Procedure.isInitializer]
  have hleading : Page.leadingMembers (ms.map (procedure owner)) = ms.map (procedure owner) := by
    refine leadingMembers_eq_self fun p hp => ?_
    obtain ⟨m, -, rfl⟩ := List.mem_map.mp hp
    rfl
  have htext : ∀ m ∈ ms, '\n' :: Page.memberText owner d.procedures (m.procedure owner) =
      '\n' :: m.block owner := by
    intro m hm
    rw [← assignedFunction_procedure (hms m hm)]
    rfl
  unfold Page.ownerText
  dsimp only
  rw [hof, hmembers, hleading, List.flatMap_map, List.flatMap_congr htext]
  exact ⟨_, rfl⟩

def codeTexts (t : Text) : List Text :=
  (Script.segments t).filterMap fun
    | .code c => some c
    | .literal _ => none

theorem isPlainBody_of_checks {ls : List Text} (htidy : AreTidy ls)
    (hclosed : Script.isClosed (Page.unlines ls) = true)
    (hcode : ∀ c ∈ codeTexts (Text.join "\n" ls), ('<' ∉ c ∧ ':' ∉ c ∧ '!' ∉ c) ∧
      ∀ w ∈ (["...", "let", "const", "as"] : List Text), ¬ w <:+: c)
    (harrows : ∀ i < (Text.join "\n" ls).length,
      Arrow.opensNoBlockAt (Text.join "\n" ls) i = true) : IsPlainBody ls where
  tidy := htidy
  closed := hclosed
  code c hc := by
    obtain ⟨hmarks, hwords⟩ := hcode c (List.mem_filterMap.mpr ⟨.code c, hc, rfl⟩)
    exact isPlainCode_of_not_infix hmarks hwords
  arrows _ _ _ hsplit hws := Arrow.inLiteral_of_opensNoBlockAt harrows hsplit hws

def clockUpdate : PlainMethod where
  name := "update"
  params := ["time", "$step"]
  lines := ["if (time > 1) \x7b // let it be; it's () => \x7b", "",
    "  this.label = 'const x: any = [...y] as T!;';", "\x7d"]
  margin := 4

def clockDraw : PlainMethod where
  name := "draw"
  params := []
  lines := ["return /* as any */ this;"]
  margin := 0

theorem isPlain_clock : ∀ m ∈ [clockUpdate, clockDraw], m.IsPlain := by
  have hnames : ∀ m ∈ [clockUpdate, clockDraw], Text.isIdentifier m.name = true ∧
      m.name ≠ "constructor" ∧ m.name ∉ Member.notMethodNames ∧
      ∀ p ∈ m.params, Text.isIdentifier p = true := by decide
  have hlines : ∀ m ∈ [clockUpdate, clockDraw],
      (m.lines.all fun l => !l.contains '\n') = true ∧
      (m.lines.all fun l => l.getLast?.all (!Text.isBlank ·)) = true ∧
      m.lines.head?.all (!Text.allBlank ·) = true ∧ m.lines.getLast?.all (!Text.allBlank ·) = true ∧
      (m.lines.any fun l => l.head?.any (!isIndent ·)) = true := by decide +kernel
  have hclosed : ∀ m ∈ [clockUpdate, clockDraw],
      Script.isClosed (Page.unlines m.lines) = true := by decide +kernel
  have hcode : ∀ m ∈ [clockUpdate, clockDraw], ∀ c ∈ codeTexts (Text.join "\n" m.lines),
      ('<' ∉ c ∧ ':' ∉ c ∧ '!' ∉ c) ∧
        ∀ w ∈ (["...", "let", "const", "as"] : List Text), ¬ w <:+: c := by decide +kernel
  have harrows : ∀ m ∈ [clockUpdate, clockDraw], ∀ i < (Text.join "\n" m.lines).length,
      Arrow.opensNoBlockAt (Text.join "\n" m.lines) i = true := by decide +kernel
  intro m hm
  obtain ⟨hname, hinitializer, hword, hparams⟩ := hnames m hm
  obtain ⟨hbreak, htrimmed, hfirst, hlast, hflush⟩ := hlines m hm
  exact ⟨hname, hinitializer, hword, hparams,
    isPlainBody_of_checks (areTidy_of_checks hbreak htrimmed hfirst hlast hflush) (hclosed m hm)
      (hcode m hm) (harrows m hm)⟩

end PlainMethod

namespace Conversion

open PlainMethod

/-- Plain methods pass through a conversion unchanged, in order. -/
theorem ofSource_plainMethods (options : ConversionOptions) {name : Text} {ms : List PlainMethod}
    (hname : Text.isIdentifier name = true) (hms : ∀ m ∈ ms, m.IsPlain)
    (hless : '<' ∉ (classText name ms).print) :
    ∃ r, ofSource options (classText name ms).print = .ok r ∧
      ∃ before after, r.artifacts.scriptText =
        before ++ (ms.flatMap fun m => '\n' :: m.block name) ++ after := by
  have hblank : Text.allBlank (classText name ms).print = false := rfl
  have hmode := Mode.ofSource_of_not_mem_less hless
  obtain ⟨e, he, hemode, hclasses⟩ := Extraction.exists_ofSource hblank
  rw [hmode] at hemode
  obtain ⟨span, offset, hscan⟩ := ClassBlock.exists_scan_print (isPrintable_classText hname hms)
  obtain ⟨initial, hkind, howner, hplaced⟩ := procedures_placed hname hms span offset
  rw [hemode, if_pos rfl, hscan] at hclasses
  have hprocedures : (ofExtraction options e).descriptor.procedures =
      initial :: ms.map (procedure name) := by
    rw [ofExtraction, hclasses, List.flatMap_singleton, hplaced]
    rfl
  obtain ⟨before, htext⟩ := exists_ownerText hms hprocedures hkind howner
  refine ⟨_, ofSource_of_extraction options he, ?_⟩
  have howners := owners_eq_singleton hprocedures howner
  have hscript : (ofExtraction options e).artifacts.scriptText =
      Page.script (ofExtraction options e).descriptor options.urlOverrides := rfl
  rw [hscript]
  unfold Page.script
  rw [howners, List.flatMap_singleton, htext]
  refine ⟨Page.headText (ofExtraction options e).descriptor ++
    (if options.urlOverrides then Page.overridesText (ofExtraction options e).descriptor else []) ++
      before, Page.animationText (ofExtraction options e).descriptor options.urlOverrides ++
        Page.unlines ["\x7d);"], ?_⟩
  simp only [List.append_assoc]
  rfl

theorem ofSource_plainMethods_clock :
    Text.isIdentifier "Clock" = true ∧ (∀ m ∈ [clockUpdate, clockDraw], m.IsPlain) ∧
      '<' ∉ (classText "Clock" [clockUpdate, clockDraw]).print ∧
      ∃ r, ofSource ⟨.inert, false⟩ (classText "Clock" [clockUpdate, clockDraw]).print = .ok r ∧
        ∃ before after, r.artifacts.scriptText =
          before ++ ([clockUpdate, clockDraw].flatMap fun m => '\n' :: m.block "Clock") ++
            after := by
  have hname : Text.isIdentifier "Clock" = true := by decide
  have hless : '<' ∉ (classText "Clock" [clockUpdate, clockDraw]).print := by decide +kernel
  exact ⟨hname, isPlain_clock, hless, ofSource_plainMethods _ hname isPlain_clock hless⟩

/-- The code after a remark is read as the start of a function where the remark ends in an arrow. -/
example : Procedure.rewriteBody "fill( // the shape ) =>\n  \x7b width: 2 \x7d);" =
    "fillfunction(// the shape) \x7b width: 2 \x7d);" := by decide +kernel

end Conversion

end CanvasPage
