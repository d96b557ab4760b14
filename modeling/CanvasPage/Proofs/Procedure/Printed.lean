import CanvasPage.Proofs.Procedure.Untouched
import CanvasPage.Proofs.Procedure.Written

namespace CanvasPage

namespace Parameter

open Procedure Script

structure Printed where
  modifiers : List Text
  name : Text
  isOptional : Bool
  type? : Option Text
  default? : Option Text

namespace Printed

def mark (p : Printed) : Text := if p.isOptional then "?" else []

def typePart (p : Printed) : Text :=
  match p.type? with
  | some t => ": " ++ t
  | none => []

def defaultPart (p : Printed) : Text :=
  match p.default? with
  | some d => " = " ++ d
  | none => []

def text (p : Printed) : Text :=
  p.modifiers.flatMap (· ++ [' ']) ++
    (p.name ++ (p.mark ++ (p.typePart ++ p.defaultPart)))

def emitted (p : Printed) : Text :=
  match p.default? with
  | some d => p.name ++ " = " ++ d
  | none => p.name

/-- A name that is a modifier too does not stand before a blank. -/
structure IsReadable (p : Printed) : Prop where
  modifiers : ∀ m ∈ p.modifiers, m ∈ modifierWords
  name : Text.isIdentifier p.name = true
  apart : p.name ∈ modifierWords → p.isOptional = true ∨ p.type?.isSome = true ∨ p.default? = none
  type : ∀ t ∈ p.type?, t ≠ [] ∧ Text.trim t = t ∧ IsPaired .type true t
  default : ∀ d ∈ p.default?, IsFixed d ∧ IsPaired .value true d

def space (p : Printed) : Text := if p.default?.isSome then " " else []

theorem isBlank_of_mem_space (p : Printed) : ∀ c ∈ p.space, Text.isBlank c = true := by
  rw [space]
  split
  · rintro c hc
    rw [List.mem_singleton.mp hc]
    decide
  · simp

def written (lead : Text) (p : Printed) : Written where
  lead := lead
  words := p.modifiers.map (·, [' '])
  head := p.name
  marks := p.mark ++ if p.type?.isSome then [] else p.space
  type? := p.type?.map fun t => " " ++ t ++ p.space
  default? := p.default?.map (" " ++ ·)
  trail := []

variable {p : Printed} {lead : Text}

theorem rest_written (lead : Text) (p : Printed) :
    (p.written lead).rest = p.name ++ (p.mark ++ (p.typePart ++ p.defaultPart)) := by
  unfold Written.rest Written.left Written.typePart Written.defaultPart typePart defaultPart
  simp only [written, space]
  cases p.type? <;> cases p.default? <;> simp

theorem text_written (lead : Text) (p : Printed) : (p.written lead).text = lead ++ p.text := by
  rw [Written.text, rest_written, text, spaced]
  simp [written, List.flatMap_map]

theorem IsReadable.name_ne_nil (hp : p.IsReadable) : p.name ≠ [] := Text.ne_nil_of_isIdentifier hp.name

theorem IsReadable.continuesIdentifier (hp : p.IsReadable) :
    ∀ c ∈ p.name, Text.continuesIdentifier c = true :=
  Text.continuesIdentifier_of_isIdentifier hp.name

theorem isPaired_of_continuesIdentifier {w : Text}
    (hw : ∀ c ∈ w, Text.continuesIdentifier c = true) : IsPaired .head true w := by
  induction w with
  | nil => exact .nil
  | cons c w ih =>
    obtain ⟨hc, hw⟩ := List.forall_mem_cons.mp hw
    have hplain : Kind.head.plain c = true := by
      have hne : c ∉ (",=:" : Text) := fun hmem =>
        ne_marker hc c ((show (",=:" : Text) ⊆ markers by decide) hmem) rfl
      simpa [Kind.head] using hne
    refine .char (isOrdinary_of_continuesIdentifier hc) (fun _ => hplain) ?_ (ih hw)
    rintro rfl
    exact absurd hc (by decide)

theorem head?_rest (p : Printed) : ∀ c ∈ (p.mark ++ (p.typePart ++ p.defaultPart)).head?,
    Text.continuesIdentifier c = false := by
  have hmarks : ∀ d ∈ ("?: " : Text), Text.continuesIdentifier d = false := by decide
  intro c hc
  refine hmarks c ?_
  unfold mark typePart defaultPart at hc
  revert hc
  cases p.isOptional <;> cases p.type? <;> cases p.default? <;> simp <;> grind

theorem IsReadable.noModifier (hp : p.IsReadable) : NoModifier (p.written lead).rest := by
  intro n hn c r hsplit
  rw [rest_written] at hsplit
  cases hblank : Text.isBlank c with
  | false => rfl
  | true =>
    have hhead : ∀ d ∈ (c :: r).head?, Text.continuesIdentifier d = false := by
      rintro d ⟨⟩
      exact Text.not_continuesIdentifier_of_isBlank hblank
    obtain ⟨rfl, hrest⟩ := Text.eq_of_append_eq hp.continuesIdentifier
      (areWords_modifierWords n hn).2 p.head?_rest hhead hsplit
    have hmark : c = '?' ∨ c = ':' := by
      have hapart := hp.apart hn
      revert hapart hrest
      unfold mark typePart defaultPart
      cases p.isOptional <;> cases p.type? <;> cases p.default? <;> simp <;> grind
    rcases hmark with rfl | rfl
    · exact absurd hblank (by decide)
    · exact absurd hblank (by decide)

theorem IsReadable.last (hp : p.IsReadable) :
    ∀ c ∈ (p.written lead).rest.getLast?, Text.isBlank c = false := by
  rw [rest_written]
  have hname : ∀ c ∈ p.name.getLast?, Text.isBlank c = false := fun c hc =>
    Text.isBlank_of_continuesIdentifier (hp.continuesIdentifier c (List.mem_of_getLast? hc))
  have hmark : ∀ c ∈ p.mark.getLast?, Text.isBlank c = false := by
    rw [mark]
    split
    · rintro c ⟨⟩
      decide
    · simp
  have htype : ∀ c ∈ p.typePart.getLast?, Text.isBlank c = false := by
    rw [typePart]
    cases htype : p.type? with
    | none => simp
    | some t =>
      obtain ⟨hne, htrim, -⟩ := hp.type t htype
      have hlast := Text.getLast?_trim t
      rw [htrim] at hlast
      dsimp only
      rwa [List.getLast?_append_of_ne_nil _ hne]
  have hdefault : ∀ c ∈ p.defaultPart.getLast?, Text.isBlank c = false := by
    rw [defaultPart]
    cases hdefault : p.default? with
    | none => simp
    | some d =>
      obtain ⟨hd, -⟩ := hp.default d hdefault
      dsimp only
      rw [List.getLast?_append_of_ne_nil _ hd.ne_nil]
      exact hd.last
  exact Text.forall_getLast?_append hname
    (Text.forall_getLast?_append hmark (Text.forall_getLast?_append htype hdefault))

theorem IsReadable.isValid_written (hp : p.IsReadable)
    (hlead : ∀ c ∈ lead, Text.isBlank c = true) : (p.written lead).IsValid where
  lead := hlead
  words := {
    mem := by
      simp only [written, List.forall_mem_map]
      exact hp.modifiers
    ne_nil := by simp [written]
    blank := by
      simp only [written, List.forall_mem_map]
      intro m _ c hc
      rw [List.mem_singleton.mp hc]
      decide }
  noModifier := hp.noModifier
  head := isPaired_of_continuesIdentifier hp.continuesIdentifier
  head_first := by
    obtain ⟨c, n, hn⟩ := List.exists_cons_of_ne_nil hp.name_ne_nil
    have hc := hp.continuesIdentifier c (by simp [hn])
    exact ⟨c, by simp [written, hn], Text.isBlank_of_continuesIdentifier hc⟩
  head_last := by
    intro c hc
    have hc := hp.continuesIdentifier c (List.mem_of_getLast? hc)
    exact ⟨Text.isBlank_of_continuesIdentifier hc, ne_marker hc '?' (by decide)⟩
  marks := by
    refine ⟨[], p.mark, if p.type?.isSome then [] else p.space, rfl, by simp, ?_, ?_⟩
    · rw [mark]
      split <;> simp
    · have hspace := p.isBlank_of_mem_space
      split
      · simp
      · exact hspace
  type := by
    intro u hu
    obtain ⟨t, ht, rfl⟩ := Option.map_eq_some_iff.mp hu
    have hspace : IsPaired .type true p.space := by
      rw [space]
      split
      · exact .blank rfl .nil
      · exact .nil
    have hhead : ∀ c ∈ p.space.head?, c ≠ '/' ∧ c ≠ '*' := by
      rw [space]
      split
      · rintro c ⟨⟩
        decide
      · simp
    exact .blank rfl ((hp.type t ht).2.2.append hspace hhead)
  default := by
    intro u hu
    obtain ⟨d, hd, rfl⟩ := Option.map_eq_some_iff.mp hu
    exact .blank rfl (hp.default d hd).2
  apart := by
    intro u hu
    obtain ⟨d, hd, rfl⟩ := Option.map_eq_some_iff.mp hu
    have hlast : (p.written lead).left.getLast? = some ' ' := by
      unfold Written.left Written.typePart
      simp only [written, space, hd]
      cases p.type? <;> simp [List.getLast?_cons]
    rw [hlast]
    rfl
  last := hp.last
  trail := by simp [written]

theorem IsReadable.emitted_written (hp : p.IsReadable) :
    (p.written lead).emitted Procedure.rewriteBody = p.emitted := by
  rw [Written.emitted, emitted]
  simp only [written]
  cases hdefault : p.default? with
  | none => rfl
  | some d =>
    obtain ⟨hd, -⟩ := hp.default d hdefault
    have htrim : Text.trim (' ' :: d) = d := by rw [Text.trim_cons (by decide), hd.trim]
    have hrewrite : Procedure.rewriteBody (Text.trim (" " ++ d)) = d :=
      (congrArg _ htrim).trans hd.rewriteBody
    dsimp only [Option.map_some]
    rw [hrewrite]

end Printed

theorem join_eq_join_map (t : Text) (ts : List Text) :
    Text.join ", " (t :: ts) = Text.join "," (t :: ts.map (' ' :: ·)) := by
  induction ts generalizing t with
  | nil => rfl
  | cons u ts ih =>
    have hblank : ∀ vs : List Text,
        Text.join "," ((' ' :: u) :: vs) = ' ' :: Text.join "," (u :: vs) := by
      intro vs
      cases vs with
      | nil => rfl
      | cons v vs => rw [Text.join_cons_cons, Text.join_cons_cons, List.cons_append]
    rw [Text.join_cons_cons, ih, List.map_cons, Text.join_cons_cons, hblank]
    rfl

/-- Reading a printed list takes modifiers, question marks and types away and nothing else. -/
theorem parameterTexts_printed {ps : List Printed} (hps : ∀ p ∈ ps, p.IsReadable) :
    parameterTexts (Text.join ", " (ps.map (·.text))) = ps.map (·.emitted) := by
  cases ps with
  | nil => rfl
  | cons p ps =>
    obtain ⟨hp, hrest⟩ := List.forall_mem_cons.mp hps
    have hvalid : ∀ w ∈ p.written [] :: ps.map (·.written " "), w.IsValid := by
      refine List.forall_mem_cons.mpr ⟨hp.isValid_written (by simp), List.forall_mem_map.mpr ?_⟩
      exact fun q hq => (hrest q hq).isValid_written (by decide)
    have htexts : (p.text :: (ps.map (·.text)).map (' ' :: ·)) =
        (p.written [] :: ps.map (·.written " ")).map (·.text) := by
      rw [List.map_cons, Printed.text_written, List.map_map, List.map_map]
      refine congrArg _ (List.map_congr_left fun q _ => ?_)
      rw [Function.comp_apply, Function.comp_apply, Printed.text_written]
      rfl
    rw [List.map_cons, join_eq_join_map, htexts, parameterTexts, textsWith_texts hvalid,
      List.map_cons, hp.emitted_written, List.map_map, List.map_cons]
    exact congrArg _ (List.map_congr_left fun q hq => (hrest q hq).emitted_written)

theorem isFixed_comparison : IsFixed "a > 0 ? 'b, c' : d" where
  line := by decide
  first := ⟨'a', rfl, by decide⟩
  last := by
    rintro c ⟨⟩
    decide
  untouched := {
    code := by
      have hsegments : segments "a > 0 ? 'b, c' : d" =
          [.code "a > 0 ? ", .literal "'b, c'", .code " : d"] := by decide +kernel
      have hcode : ∀ s ∈ Substitution.all, ∀ c ∈ (["a > 0 ? ", " : d"] : List Text),
          s.pattern.occursIn c = false := by decide +kernel
      intro s hs c hc
      rw [hsegments] at hc
      exact hcode s hs c (by simpa using hc)
    headers := by decide +kernel }

theorem parameterTexts_printed_types : parameterTexts
    "readonly x?: Map<string, number[]>, f: (e: Event) => void = a > 0 ? 'b, c' : d" =
      ["x", "f = a > 0 ? 'b, c' : d"] := by
  have hmap : IsPaired .type true "Map<string, number[]>" := by
    have hsquare : IsPaired .type false "[]" :=
      .bracketed (o := '[') (c := ']') (by decide) .nil (by decide) .nil
    have hinner : IsPaired .type false "string, number[]" :=
      .comment (w := "string, number") (by decide) (by decide) hsquare
    exact .comment (w := "Map") (by decide) (by decide)
      (.bracketed (o := '<') (c := '>') (by decide) hinner (by decide) .nil)
  have hfunction : IsPaired .type true "(e: Event) => void" := by
    have hresult : IsPaired .type true " => void" :=
      .blank rfl (.arrow rfl (.comment (w := " void") (by decide) (by decide) .nil))
    have hinner : IsPaired .type false "e: Event" :=
      .comment (w := "e: Event") (by decide) (by decide) .nil
    exact .bracketed (o := '(') (c := ')') (by decide) hinner (by decide) hresult
  have hvalue : IsPaired .value true "a > 0 ? 'b, c' : d" := by
    have hquoted : IsString '\'' "b, c" := {
      quote := by decide
      inside := by
        have htake : ∀ n < 5,
            ((State.start.step '\'').run (("b, c" : Text).take n)).isCode = false := by decide
        intro a ha
        rw [List.prefix_iff_eq_take.mp ha]
        exact htake _ (Nat.lt_succ_of_le ha.length_le)
      ends := by decide
      escaped := by
        intro a b h
        have hmem : '\'' ∈ ("b, c" : Text) := by rw [h]; simp
        exact absurd hmem (by decide)
      last := by decide }
    have hrest : IsPaired .value true "'b, c' : d" :=
      .string (q := '\'') hquoted (by decide) (.comment (w := " : d") (by decide) (by decide) .nil)
    have hgreater : IsPaired .value true "> 0 ? 'b, c' : d" :=
      .greater (.comment (w := " 0 ? ") (by decide) (by decide) hrest)
    exact .comment (w := "a ") (by decide) (by decide) hgreater
  have hx : Printed.IsReadable ⟨["readonly"], "x", true,
      some "Map<string, number[]>", none⟩ := by
    refine ⟨by decide, by decide, by decide, ?_, by simp⟩
    rintro t ⟨⟩
    exact ⟨by decide, by decide, hmap⟩
  have hf : Printed.IsReadable ⟨[], "f", false, some "(e: Event) => void",
      some "a > 0 ? 'b, c' : d"⟩ := by
    refine ⟨by decide, by decide, by decide, ?_, ?_⟩
    · rintro t ⟨⟩
      exact ⟨by decide, by decide, hfunction⟩
    · rintro d ⟨⟩
      exact ⟨isFixed_comparison, hvalue⟩
  exact parameterTexts_printed (List.forall_mem_cons.mpr ⟨hx, List.forall_mem_singleton.mpr hf⟩)

end Parameter

end CanvasPage
