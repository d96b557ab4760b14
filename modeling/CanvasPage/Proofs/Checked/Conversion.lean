import CanvasPage.Proofs.Checked.Arrow
import CanvasPage.Proofs.Checked.Extraction
import CanvasPage.Proofs.Report.Position

namespace CanvasPage.Checked

open Script Text

section Procedures

theorem rewrites_rewriteBody (n : Nat) : Rewrites rewriteBody Procedure.rewriteBody n :=
  fun raw _ => rewriteBody_eq_ok raw

theorem parameterTexts_eq_ok (raw : Text) :
    parameterTexts raw = .ok (Procedure.parameterTexts raw) :=
  textsWith_eq_ok (rewrites_rewriteBody _) (Nat.le_refl _)

theorem methodProcedure_eq_ok (owner : Text) (m : Method) :
    methodProcedure owner m = .ok (m.procedure owner) := by
  rw [methodProcedure, parameterTexts_eq_ok, bind_ok, rewriteBody_eq_ok]
  rfl

theorem captures_arrowValue : arrowValue.Captures 1 := by
  simp [arrowValue]

theorem arrowProcedure?_eq_ok (owner : Text) (p : Property) :
    arrowProcedure? owner p = .ok (p.procedure? owner) := by
  rw [arrowProcedure?, Property.procedure?]
  cases hat : arrowValue.atStart? p.value with
  | none => rfl
  | some header =>
    obtain ⟨u, hvalue, hstop⟩ := exists_opening_of_atStart? (b := .brace) hat
    dsimp only [Option.bind_eq_bind, Option.bind_some]
    rw [hstop, minus_of_le (Nat.le_add_left 1 _), Nat.add_sub_cancel, bind_ok,
      matchingDelimiter_eq_ok .brace hvalue rfl, bind_ok]
    cases hblock : Bracket.brace.enclosed? header.stop.after with
    | none => rfl
    | some found =>
      dsimp only [Option.map_some]
      rw [group_eq_ok captures_arrowValue hat, bind_ok, parameterTexts_eq_ok, bind_ok,
        cut_enclosed hvalue rfl hblock, bind_ok, rewriteBody_eq_ok]
      rfl

theorem staticProcedure_eq_ok (owner : Text) (p : Property) :
    staticProcedure owner p = .ok (p.staticProcedure owner) := by
  rw [staticProcedure, rewriteBody_eq_ok]
  rfl

theorem initializerLines_eq_ok (m : Method) (params : List Parameter) :
    initializerLines m params = .ok (ClassBlock.initializerLines m params) := by
  rw [initializerLines, rewriteBody_eq_ok]
  rfl

theorem initializerProcedure_eq_ok (c : ClassBlock) :
    initializerProcedure c = .ok c.initializerProcedure := by
  rw [initializerProcedure, ClassBlock.initializerProcedure, mapM_eq_ok fun p _ => by
    rw [rewriteBody_eq_ok, bind_ok]
    rfl]
  cases c.initializer with
  | none => rfl
  | some m =>
    dsimp only
    rw [bind_ok, parameters_eq_ok (rewrites_rewriteBody _) (Nat.le_refl _), bind_ok,
      initializerLines_eq_ok]
    rfl

theorem procedures_eq_ok (c : ClassBlock) : procedures c = .ok c.procedures := by
  have hmethods : (c.methods.mapM fun m => do return (m.span.start, ← methodProcedure c.name m)) =
      .ok (c.methods.map fun m => (m.span.start, m.procedure c.name)) :=
    mapM_eq_ok fun m _ => by
      rw [methodProcedure_eq_ok]
      rfl
  have harrows : (c.arrowProperties.mapM fun p => do
      return (← arrowProcedure? c.name p).map fun procedure => (p.span.start, procedure)) =
      .ok (c.arrowProperties.map fun p =>
        (p.procedure? c.name).map fun procedure => (p.span.start, procedure)) :=
    mapM_eq_ok fun p _ => by
      rw [arrowProcedure?_eq_ok]
      rfl
  have hstatics : (c.staticProperties.mapM fun p => do
      return (p.span.start, ← staticProcedure c.name p)) =
      .ok (c.staticProperties.map fun p => (p.span.start, p.staticProcedure c.name)) :=
    mapM_eq_ok fun p _ => by
      rw [staticProcedure_eq_ok]
      rfl
  rw [procedures, hmethods, bind_ok, harrows, bind_ok, hstatics, bind_ok,
    initializerProcedure_eq_ok, bind_ok, ClassBlock.procedures, ClassBlock.memberProcedures,
    List.filterMap_map, Function.id_comp]
  rfl

end Procedures

section Reports

variable {source t : Text} {c : Conversion} {n offset : Nat}

theorem lastFeed?_cases (t : Text) :
    ('\n' ∉ t ∧ lastFeed? t = none) ∨
      ∃ u v, t = u ++ '\n' :: v ∧ '\n' ∉ v ∧ lastFeed? t = some (byteLength u) := by
  induction t with
  | nil => exact .inl ⟨List.not_mem_nil, rfl⟩
  | cons c t ih =>
    rcases ih with ⟨hnot, hnone⟩ | ⟨u, v, rfl, hv, hsome⟩
    · by_cases hc : c = '\n'
      · subst hc
        exact .inr ⟨[], t, rfl, hnot, by rw [lastFeed?, hnone]; rfl⟩
      · refine .inl ⟨by simp [hnot, Ne.symm hc], ?_⟩
        rw [lastFeed?, hnone]
        simp [hc]
    · exact .inr ⟨c :: u, v, rfl, hv, by rw [lastFeed?, hsome]; rfl⟩

theorem lastLine_eq_ok (t : Text) :
    cutFrom t (((lastFeed? t).map (· + 1)).getD 0) =
      .ok (t.reverse.takeWhile (· != '\n')).reverse := by
  rcases lastFeed?_cases t with ⟨hnot, hnone⟩ | ⟨u, v, rfl, hv, hsome⟩
  · rw [hnone, List.takeWhile_eq_self_iff.mpr (bne_lineFeed_of_mem_reverse hnot),
      List.reverse_reverse]
    exact cutFrom_eq_ok (u := []) rfl rfl
  · have hlast : (u ++ '\n' :: v).reverse.takeWhile (· != '\n') = v.reverse := by
      rw [List.reverse_append, List.reverse_cons, List.append_assoc,
        List.takeWhile_append_of_pos (bne_lineFeed_of_mem_reverse hv)]
      simp
    rw [hsome, hlast, List.reverse_reverse]
    exact cutFrom_eq_ok (u := u ++ ['\n']) (by simp) (by rw [byteLength_append]; rfl)

theorem next32_of_lt (h : n < UInt32.size) :
    next32 n = if n + 1 < UInt32.size then .ok (n + 1) else .error .overflow := by
  rw [next32, Nat.mod_eq_of_lt h]

theorem length_takeBytes_le (n : Nat) (t : Text) : ((takeBytes n t).getD []).length ≤ n := by
  cases htake : takeBytes n t with
  | none => exact Nat.zero_le _
  | some u => exact (length_le_byteLength u).trans (Nat.le_of_eq (byteLength_of_takeBytes htake))

theorem length_lastLine_le (t : Text) : (t.reverse.takeWhile (· != '\n')).length ≤ t.length := by
  refine (List.takeWhile_sublist _).length_le.trans ?_
  rw [List.length_reverse]

theorem positionOf_eq_ok_iff (hsize : byteLength source < UInt32.size) :
    positionOf source offset = .ok (.ofOffset source offset) ↔
      (Position.ofOffset source offset).line < UInt32.size ∧
        (Position.ofOffset source offset).column < UInt32.size := by
  rw [positionOf, Position.ofOffset]
  have hlength := length_takeBytes_le (min offset (byteLength source)) source
  generalize (takeBytes (min offset (byteLength source)) source).getD [] = read at hlength ⊢
  have hcount : read.count '\n' ≤ read.length := List.count_le_length
  have hline := length_lastLine_le read
  dsimp only [Position.after]
  rw [next32_of_lt (by omega)]
  by_cases hfits : read.count '\n' + 1 < UInt32.size
  · rw [if_pos hfits, bind_ok, lastLine_eq_ok, bind_ok, List.length_reverse,
      next32_of_lt (by omega)]
    by_cases hcolumn : (read.reverse.takeWhile (· != '\n')).length + 1 < UInt32.size
    · rw [if_pos hcolumn]
      exact ⟨fun _ => ⟨hfits, hcolumn⟩, fun _ => rfl⟩
    · rw [if_neg hcolumn]
      refine iff_of_false (fun h => ?_) fun h => hcolumn h.2
      cases h
  · rw [if_neg hfits]
    refine iff_of_false (fun h => ?_) fun h => hfits h.1
    cases h

theorem positionOf_eq_ok (hsize : byteLength source < UInt32.size)
    (hoffset : offset < byteLength source) :
    positionOf source offset = .ok (.ofOffset source offset) := by
  rw [positionOf_eq_ok_iff hsize, Position.ofOffset]
  have hlength := length_takeBytes_le (min offset (byteLength source)) source
  generalize (takeBytes (min offset (byteLength source)) source).getD [] = read at hlength ⊢
  have hcount : read.count '\n' ≤ read.length := List.count_le_length
  have hline := length_lastLine_le read
  dsimp only [Position.after]
  omega

theorem explainField_eq_ok (hsize : byteLength source < UInt32.size) (field : Field)
    {found : Option FieldMatch} (hfound : ∀ m ∈ found, m.span.start < byteLength source) :
    explainField c source field found = .ok (c.explainField source field found) := by
  cases found with
  | none => rfl
  | some m =>
    rw [explainField, positionOf_eq_ok hsize (hfound m rfl)]
    rfl

theorem fields_start_lt {e : Extraction} (h : Extraction.ofSource source = .ok e) :
    ∀ p ∈ e.fields, ∀ m ∈ p.2, m.span.start < byteLength source := by
  rw [Extraction.ofSource] at h
  split at h
  · cases h
  · obtain rfl := Except.ok.inj h
    intro p hp m hm
    obtain ⟨field, -, rfl⟩ := List.mem_map.mp hp
    exact start_lt_of_find? hm

theorem explain_eq_ok (hsize : byteLength source < UInt32.size)
    (h : Extraction.ofSource source = .ok c.extraction) :
    explain c source = .ok (c.explain source) :=
  mapM_eq_ok fun p hp => explainField_eq_ok hsize p.1 (fields_start_lt h p hp)

theorem convert_eq_ok (options : ConversionOptions) (hsize : byteLength source < UInt32.size) :
    convert options source = .ok (Conversion.ofSource options source) := by
  rw [convert, extraction_eq_ok hsize, bind_ok, Conversion.ofSource]
  cases Extraction.ofSource source with
  | error e => rfl
  | ok e =>
    dsimp only
    rw [mapM_eq_ok fun c _ => procedures_eq_ok c, bind_ok, ← List.flatMap_def]
    rfl

/-- On sources of fewer than `2 ^ 32` bytes no step of a conversion and of its report fails, and the
results are those of reading character by character. -/
theorem convertAndExplain_eq_ok (options : ConversionOptions) (source : Text)
    (hsize : byteLength source < UInt32.size) :
    convertAndExplain options source =
      .ok ((Conversion.ofSource options source).map fun c => (c, c.explain source)) := by
  rw [convertAndExplain, convert_eq_ok options hsize, bind_ok, Conversion.ofSource]
  cases hextraction : Extraction.ofSource source with
  | error e => rfl
  | ok e =>
    dsimp only [Except.map]
    rw [explain_eq_ok (c := .ofExtraction options e) hsize hextraction]
    rfl

/-- A class with a string that does not end, where a backslash stands before a letter beyond ASCII. -/
def unclosedSource : Text := "class Dot \x7b label = '\u00e9'; draw(ctx) \x7b say('\\\u00e9 \x7d"

theorem convertAndExplain_unclosed :
    byteLength unclosedSource < UInt32.size ∧
      convertAndExplain ⟨.synthesized, true⟩ unclosedSource =
        .ok ((Conversion.ofSource ⟨.synthesized, true⟩ unclosedSource).map fun c =>
          (c, c.explain unclosedSource)) :=
  ⟨by decide, convertAndExplain_eq_ok ⟨.synthesized, true⟩ unclosedSource (by decide)⟩

end Reports

end CanvasPage.Checked
