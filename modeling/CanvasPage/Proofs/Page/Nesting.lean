import CanvasPage.Proofs.Page.Inert

namespace CanvasPage.Page

open Script

/-- The brace after `before` is closed by the one after `block`. -/
structure Encloses (t before block after : Text) : Prop where
  text : t = before ++ '\x7b' :: (block ++ '\x7d' :: after)
  closes : matchingDelimiter t (Text.byteLength before) =
    some (Text.byteLength (before ++ '\x7b' :: block))

theorem encloses_of_isClosed {t before block after : Text} (hblock : isClosed block = true)
    (ht : t = before ++ '\x7b' :: (block ++ '\x7d' :: after)) : Encloses t before block after := by
  refine ⟨ht, ?_⟩
  have henclosed := Bracket.brace.enclosed?_append after hblock
  have hmatch := matchingDelimiter_opener before (block ++ '\x7d' :: after) .brace
  simp only [Bracket.closer] at henclosed
  simp only [Bracket.opener, henclosed, Option.map_some] at hmatch
  have hbrace : ('\x7b' : Char).utf8Size = 1 := by decide
  rw [ht, hmatch, Text.byteLength_append, Text.byteLength_cons, hbrace, Nat.add_assoc]

section Handler

def handlerLead (d : Descriptor) : Text :=
  "// " ++ d.name ++ " - standalone canvas animation" ++ ['\n'] ++
    "document.addEventListener('DOMContentLoaded', function() "

def handlerBody (d : Descriptor) (overrides : Bool) : Text :=
  '\n' :: (setupText d ++ ((if overrides then overridesText d else []) ++
    (d.owners.flatMap (ownerText d) ++ animationText d overrides)))

theorem headText_eq (d : Descriptor) :
    headText d = handlerLead d ++ '\x7b' :: '\n' :: setupText d := by
  have hopen : ("document.addEventListener('DOMContentLoaded', function() \x7b" : Text) =
      ("document.addEventListener('DOMContentLoaded', function() " : Text) ++ ['\x7b'] := rfl
  unfold headText handlerLead setupText unlines
  simp only [List.flatMap_cons, List.flatMap_nil, hopen, List.append_assoc, List.cons_append,
    List.nil_append, List.append_nil]

theorem script_eq (d : Descriptor) (overrides : Bool) :
    script d overrides =
      handlerLead d ++ '\x7b' :: (handlerBody d overrides ++ '\x7d' :: (");\n" : Text)) := by
  have hlast : unlines ["\x7d);"] = '\x7d' :: (");\n" : Text) := rfl
  rw [← flatMap_scriptPieces]
  unfold scriptPieces handlerBody
  rw [List.flatMap_cons, List.flatMap_append, List.flatMap_assoc, List.flatMap_singleton]
  simp only [flatMap_ownerPieces, Piece.text, headText_eq, hlast, List.append_assoc,
    List.cons_append]

theorem isClosed_handlerBody {d : Descriptor} (hd : d.IsRenderable) (overrides : Bool) :
    isClosed (handlerBody d overrides) = true := by
  have hoverrides : Inert (if overrides then overridesText d else []) := by
    cases overrides with
    | true => exact inert_overridesText hd.background
    | false => exact inert_nil
  have howners : Inert (d.owners.flatMap (ownerText d)) :=
    inert_flatMap fun owner howner => inert_ownerText hd howner
  have hbody := (inert_setupText hd.canvasId).append
    (hoverrides.append (howners.append (inert_animationText hd overrides)))
  exact ((inert_of_isPlain (t := ['\n']) (by decide)).append hbody).isClosed

end Handler

section Functions

variable {d : Descriptor} {overrides : Bool} {indent start stop : Text} {p : Procedure}

/-- What a function piece of a renderable script is made from. -/
structure IsBlockOf (indent : Text) (p : Procedure) : Prop where
  enclosable : p.IsEnclosable
  not_value : ∀ name, p.kind ≠ .staticValue name
  margin : IsMargin indent

theorem isBlockOf_scriptPieces (hd : d.IsRenderable)
    (h : .function indent start stop p ∈ scriptPieces d overrides) : IsBlockOf indent p := by
  obtain ⟨owner, -, hinitializer | hmember⟩ := cases_of_function_mem h
  · obtain ⟨rfl, -, -, rfl⟩ := Piece.function.inj hinitializer
    obtain ⟨henclosable, hkind⟩ := isEnclosable_ownerInitializer hd owner
    exact ⟨henclosable, hkind, isMargin_replicate 4⟩
  · cases hmember with
    | accessor mem _ kind =>
      refine ⟨hd.procedures p mem, fun name hname => ?_, isMargin_replicate 8⟩
      simp [Procedure.isAccessor, hname] at kind
    | method mem _ kind =>
      obtain ⟨name, hkind⟩ := kind
      exact ⟨hd.procedures p mem, by simp [hkind], isMargin_replicate 4⟩

theorem encloses_piece {pre post : List Piece} (hp : IsBlockOf indent p)
    (h : scriptPieces d overrides = pre ++ .function indent start stop p :: post) :
    Encloses (script d overrides) (pre.flatMap Piece.text ++ functionLead indent start p)
      (functionBlock indent p) (stop ++ "\n" ++ post.flatMap Piece.text) := by
  refine encloses_of_isClosed (isClosed_functionBlock hp.enclosable hp.not_value hp.margin) ?_
  have htext : (Piece.function indent start stop p).text = functionLead indent start p ++
      '\x7b' :: (functionBlock indent p ++ '\x7d' :: (stop ++ "\n")) := rfl
  rw [← flatMap_scriptPieces, h, List.flatMap_append, List.flatMap_cons, htext]
  simp only [List.append_assoc, List.cons_append]

end Functions

/-- The handler of a script ends where it should, and so does the function of every procedure. -/
theorem encloses_script {d : Descriptor} (hd : d.IsRenderable) (overrides : Bool) :
    Encloses (script d overrides) (handlerLead d) (handlerBody d overrides) ");\n" ∧
      (∀ pre indent start stop p post,
        scriptPieces d overrides = pre ++ .function indent start stop p :: post →
        Encloses (script d overrides) (pre.flatMap Piece.text ++ functionLead indent start p)
          (functionBlock indent p) (stop ++ "\n" ++ post.flatMap Piece.text)) ∧
      ∀ p, IsEmitted d p →
        ∃ indent start stop, .function indent start stop p ∈ scriptPieces d overrides := by
  refine ⟨encloses_of_isClosed (isClosed_handlerBody hd overrides) (script_eq d overrides), ?_, ?_⟩
  · intro pre indent start stop p post h
    have hmem : .function indent start stop p ∈ scriptPieces d overrides := by
      rw [h]
      simp
    exact encloses_piece (isBlockOf_scriptPieces hd hmem) h
  · intro p hp
    exact ⟨_, _, _, functionPiece_mem hp overrides⟩

def gaugeUpdate : Procedure :=
  { owner := "Gauge", kind := .method "update", isStatic := false, params := ["time", "k = \x7b\x7d"]
    body := "this.label = `$\x7btime\x7d m\n  of \x7d`; // it's \x7b here" }

def gauge : Descriptor where
  name := "Gauge"
  canvasWidth := 800
  canvasHeight := 600
  backgroundColor := "rgb('1')"
  canvasId := "gauge"
  scriptReference := none
  procedures := [
    gaugeUpdate,
    { gaugeUpdate with kind := .getter "depth", params := [], body := "return [this.k\n  ];" },
    { gaugeUpdate with
      kind := .staticValue "units", isStatic := true, params := [], body := "[\n'm', // ]\n'km'\n]" }]

theorem encloses_script_gauge :
    gauge.IsRenderable ∧ IsEmitted gauge gaugeUpdate ∧
      Encloses (script gauge true) (handlerLead gauge) (handlerBody gauge true) ");\n" ∧
      ∃ before indent after,
        Encloses (script gauge true) before (functionBlock indent gaugeUpdate) after := by
  have hprocedures : ∀ p ∈ gauge.procedures, (∀ q ∈ p.params, isClosed q = true) ∧
      '\r' ∉ p.body ∧ isClosed (p.body ++ ['\n']) = true ∧ p.body.getLast? ≠ some '\n' := by
    decide +kernel
  have hrenderable : gauge.IsRenderable := by
    refine ⟨by decide +kernel, by decide +kernel, by decide +kernel, by decide +kernel,
      by decide +kernel, fun p hp => ?_⟩
    obtain ⟨hparams, hreturn, hbody, hlast⟩ := hprocedures p hp
    exact ⟨hparams, hreturn, hbody, fun _ h => absurd h hlast⟩
  have hemitted : IsEmitted gauge gaugeUpdate :=
    ⟨by simp [gauge], by simp [gaugeUpdate], by simp [Procedure.isInitializer, gaugeUpdate]⟩
  obtain ⟨hhandler, hpieces, hfunctions⟩ := encloses_script hrenderable true
  obtain ⟨indent, start, stop, hmem⟩ := hfunctions gaugeUpdate hemitted
  obtain ⟨pre, post, hsplit⟩ := List.append_of_mem hmem
  exact ⟨hrenderable, hemitted, hhandler, _, _, _, hpieces pre indent start stop gaugeUpdate post hsplit⟩

/-- A string that runs on over the end of a body takes in the brace after it. -/
def spill : Descriptor :=
  { gauge with procedures := [.method "Gauge" "update" [] "'a\\\n"] }

theorem not_encloses_script_spill :
    Text.isIdentifier spill.name = true ∧
      (∀ p ∈ spill.procedures,
        Text.isIdentifier p.owner = true ∧ Text.isIdentifier p.name = true ∧
          (∀ q ∈ p.params, isClosed q = true) ∧ '\r' ∉ p.body ∧
          isClosed (p.body ++ ['\n']) = true) ∧
      '\n' ∉ spill.canvasId ∧ '\n' ∉ spill.backgroundColor ∧
      script spill false =
        handlerLead spill ++ '\x7b' :: (handlerBody spill false ++ '\x7d' :: (");\n" : Text)) ∧
      matchingDelimiter (script spill false) (Text.byteLength (handlerLead spill)) = none := by
  refine ⟨by decide +kernel, by decide +kernel, by decide +kernel, by decide +kernel,
    script_eq spill false, by decide +kernel⟩

end CanvasPage.Page
