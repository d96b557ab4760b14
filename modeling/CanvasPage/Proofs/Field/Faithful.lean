import CanvasPage.Proofs.Descriptor.Soundness
import CanvasPage.Proofs.Pattern.Capture

namespace CanvasPage

/-- The first group, counted from one, that has a part in a match. -/
def Occurrence.IsFirstGroup (o : Occurrence) (g : Capture) : Prop :=
  ∃ i, 0 < i ∧ o.group? i = some g ∧ ∀ j, 0 < j → j < i → o.group? j = none

namespace Pattern

variable {pattern : Pattern} {before w after : Text} {gs : GroupTexts} {c : Cursor} {t : Text}
  {o : Occurrence}

def indices : Pattern → List Nat
  | seq first second | alt first second => first.indices ++ second.indices
  | star _ body => body.indices
  | group index body => index :: body.indices
  | empty | one _ | inputStart | inputEnd | wordBoundary => []

theorem index_mem_of_reads (h : pattern.Reads before w after gs) :
    ∀ g ∈ gs, g.1 ∈ pattern.indices := by
  induction pattern generalizing before w after gs with
  | empty | one test =>
    obtain ⟨-, rfl⟩ := h
    simp
  | inputStart | inputEnd | wordBoundary =>
    obtain ⟨-, rfl, -⟩ := h
    simp
  | seq first second ih₁ ih₂ =>
    obtain ⟨u, v, hs, is, -, rfl, hu, hv⟩ := h
    intro g hg
    rcases List.mem_append.mp hg with hg | hg
    · exact List.mem_append_right _ (ih₂ hv g hg)
    · exact List.mem_append_left _ (ih₁ hu g hg)
  | alt first second ih₁ ih₂ =>
    intro g hg
    rcases h with h | h
    · exact List.mem_append_left _ (ih₁ h g hg)
    · exact List.mem_append_right _ (ih₂ h g hg)
  | star greedy body ih =>
    rw [Reads] at h
    induction h with
    | nil => simp
    | append hu hv hrest => exact List.forall_mem_append.mpr ⟨ih hv, hrest⟩
  | group index body ih =>
    obtain ⟨hs, rfl, h⟩ := h
    exact List.forall_mem_cons.mpr
      ⟨List.mem_cons_self, fun g hg => List.mem_cons_of_mem _ (ih h g hg)⟩

theorem index_mem_of_group? (h : pattern.at? c = some o) {i : Nat} {g : Capture}
    (hg : o.group? i = some g) : i ∈ pattern.indices := by
  obtain ⟨-, w, -, -, -, hread⟩ := reads_of_at? h
  obtain ⟨⟨j, g'⟩, hfind, -⟩ := Option.map_eq_some_iff.mp hg
  obtain rfl : j = i := by simpa using List.find?_some hfind
  exact index_mem_of_reads hread _ (List.mem_map.mpr ⟨_, List.mem_of_find?_eq_some hfind, rfl⟩)

end Pattern

namespace Candidate

variable {candidate : Candidate} {source : Text} {m : FieldMatch} {o : Occurrence} {g : Capture}

/-- A candidate makes `text` of the part `raw` of a source: it is the first group of one of the
matches there. -/
structure ReadsAt (candidate : Candidate) (before raw after text : Text) : Prop where
  captured : ∃ o ∈ candidate.pattern.occurrences (before ++ (raw ++ after)), ∃ g,
    o.IsFirstGroup g ∧ g.start = ⟨before.reverse, raw ++ after⟩ ∧ g.text = raw
  accepted : candidate.accept raw = some text

/-- A candidate accepts the first group of none of its matches. -/
def Refuses (candidate : Candidate) (source : Text) : Prop :=
  ∀ o ∈ candidate.pattern.occurrences source, ∀ g, o.IsFirstGroup g →
    candidate.accept g.text = none

theorem indices_forField (field : Field) (mode : Mode) :
    ∀ c ∈ forField field mode, ∀ i ∈ c.pattern.indices, i ∈ [1, 2, 3] := by
  cases field <;> cases mode <;> decide

theorem nodup_ids_forField (field : Field) (mode : Mode) :
    ((forField field mode).map (·.id)).Nodup := by
  cases field <;> cases mode <;> decide

theorem capture?_eq (o : Occurrence) :
    capture? o = (o.group? 1).or ((o.group? 2).or (o.group? 3)) := by
  simp only [capture?, List.findSome?_cons, List.findSome?_nil]
  cases o.group? 1 <;> cases o.group? 2 <;> cases o.group? 3 <;> rfl

theorem isFirstGroup_of_capture? (h : capture? o = some g) : o.IsFirstGroup g := by
  rw [capture?_eq] at h
  cases h₁ : o.group? 1 with
  | some g₁ =>
    rw [h₁] at h
    exact ⟨1, by decide, h₁.trans h, by omega⟩
  | none =>
    rw [h₁, Option.none_or] at h
    cases h₂ : o.group? 2 with
    | some g₂ =>
      rw [h₂] at h
      refine ⟨2, by decide, h₂.trans h, fun j hpos hlt => ?_⟩
      obtain rfl : j = 1 := by omega
      exact h₁
    | none =>
      rw [h₂, Option.none_or] at h
      refine ⟨3, by decide, h, fun j hpos hlt => ?_⟩
      obtain rfl | rfl : j = 1 ∨ j = 2 := by omega
      · exact h₁
      · exact h₂

theorem capture?_of_isFirstGroup (hindices : ∀ i g, o.group? i = some g → i ∈ [1, 2, 3])
    (h : o.IsFirstGroup g) : capture? o = some g := by
  obtain ⟨i, -, hi, hnone⟩ := h
  have hmem := hindices i g hi
  simp only [List.mem_cons, List.not_mem_nil, or_false] at hmem
  rw [capture?_eq]
  rcases hmem with rfl | rfl | rfl
  · rw [hi, Option.some_or]
  · rw [hnone 1 (by decide) (by decide), Option.none_or, hi, Option.some_or]
  · rw [hnone 1 (by decide) (by decide), Option.none_or, hnone 2 (by decide) (by decide),
      Option.none_or, hi]

theorem readsAt_of_find? (h : candidate.find? source = some m) :
    ∃ before raw after, source = before ++ (raw ++ after) ∧
      m.span = ⟨Text.byteLength before, Text.byteLength before + Text.byteLength raw⟩ ∧
      m.candidate = candidate.id ∧ candidate.ReadsAt before raw after m.text := by
  obtain ⟨o, ho, g, hg, htext, hspan, hid⟩ := exists_capture_of_find? h
  have hfirst := isFirstGroup_of_capture? hg
  obtain ⟨i, -, hi, -⟩ := hfirst
  obtain ⟨c, hwhole, hat⟩ := Pattern.exists_at?_of_mem_occurrencesFrom ho
  have hsource : g.start.before.reverse ++ g.start.after = source :=
    (Pattern.holds_of_at? hat hi).1.trans hwhole
  have hafter : g.text ++ g.start.after.drop g.width = g.start.after := List.take_append_drop _ _
  refine ⟨g.start.before.reverse, g.text, g.start.after.drop g.width, ?_, ?_, hid, ⟨o, ?_, g,
    isFirstGroup_of_capture? hg, ?_, rfl⟩, htext⟩
  · rw [hafter, hsource]
  · rw [hspan, Text.byteLength_reverse]
    rfl
  · rwa [hafter, hsource]
  · rw [hafter, List.reverse_reverse]

theorem refuses_of_find?_eq_none (hindices : ∀ i ∈ candidate.pattern.indices, i ∈ [1, 2, 3])
    (h : candidate.find? source = none) : candidate.Refuses source := by
  intro o ho g hg
  obtain ⟨c, -, hat⟩ := Pattern.exists_at?_of_mem_occurrencesFrom ho
  have hcapture : capture? o = some g := capture?_of_isFirstGroup
    (fun i k hk => hindices i (Pattern.index_mem_of_group? hat hk)) hg
  have hread := List.findSome?_eq_none_iff.mp h o ho
  rw [read?, hcapture, Option.bind_eq_bind, Option.bind_some] at hread
  cases htext : candidate.accept g.text with
  | none => rfl
  | some text =>
    rw [htext] at hread
    cases hread

theorem acceptDimension_eq_some {raw t : Text} (h : acceptDimension raw = some t) :
    ∃ n, (0 < n ∧ n < 2 ^ 32) ∧ t = Text.decimal n := by
  rw [acceptDimension] at h
  split at h
  · rename_i n hn
    split at h
    · rename_i hpos
      exact ⟨n, ⟨hpos, Text.lt_of_readDecimal? hn⟩, (Option.some.inj h).symm⟩
    · cases h
  · cases h

theorem accept_of_dimension {field : Field} (hfield : field = .width ∨ field = .height)
    (mode : Mode) : ∀ c ∈ forField field mode, c.accept = acceptDimension := by
  intro c hc
  rcases hfield with rfl | rfl <;> cases mode <;>
    simp only [forField, componentWidths, componentHeights, List.mem_cons, List.not_mem_nil,
      or_false] at hc
  · rcases hc with rfl | rfl | rfl <;> rfl
  · rcases hc with rfl | rfl <;> rfl
  · rcases hc with rfl | rfl | rfl <;> rfl
  · rcases hc with rfl | rfl <;> rfl

end Candidate

/-- What a match says of a source is so. The part at its span, which stands between two characters,
is what the candidate of its name makes its text of, and the candidates before that one accept
nothing. -/
def FieldMatch.IsFaithful (source : Text) (candidates : List Candidate) (m : FieldMatch) : Prop :=
  ∃ earlier candidate later before raw after,
    candidates = earlier ++ candidate :: later ∧ candidate.id = m.candidate ∧
    (∀ c ∈ earlier ++ later, c.id ≠ m.candidate) ∧ source = before ++ (raw ++ after) ∧
    m.span = ⟨Text.byteLength before, Text.byteLength before + Text.byteLength raw⟩ ∧
    candidate.ReadsAt before raw after m.text ∧ ∀ c ∈ earlier, c.Refuses source

namespace Field

variable {field : Field} {source : Text} {mode : Mode} {m : FieldMatch}

theorem isFaithful_of_find? (h : field.find? source mode = some m) :
    m.IsFaithful source (Candidate.forField field mode) := by
  obtain ⟨earlier, candidate, later, hsplit, hfind, hnone⟩ := List.findSome?_eq_some_iff.mp h
  obtain ⟨before, raw, after, hsource, hspan, hid, hreads⟩ := Candidate.readsAt_of_find? hfind
  refine ⟨earlier, candidate, later, before, raw, after, hsplit, hid.symm, ?_, hsource, hspan,
    hreads, fun c hc => ?_⟩
  · have hnodup := Candidate.nodup_ids_forField field mode
    rw [hsplit, List.map_append, List.map_cons, List.perm_middle.nodup_iff, List.nodup_cons,
      ← List.map_append] at hnodup
    intro c hc heq
    exact hnodup.1 (List.mem_map.mpr ⟨c, hc, heq.trans hid⟩)
  · refine Candidate.refuses_of_find?_eq_none (fun i hi => ?_) (hnone c hc)
    exact Candidate.indices_forField field mode c (hsplit ▸ List.mem_append_left _ hc) i hi

theorem exists_decimal_of_find? (hfield : field = .width ∨ field = .height)
    (h : field.find? source mode = some m) : ∃ n, (0 < n ∧ n < 2 ^ 32) ∧ m.text = Text.decimal n := by
  obtain ⟨candidate, hcandidate, hfind⟩ := List.exists_of_findSome?_eq_some h
  obtain ⟨before, raw, after, -, -, -, hreads⟩ := Candidate.readsAt_of_find? hfind
  have haccepted := hreads.accepted
  rw [Candidate.accept_of_dimension hfield mode candidate hcandidate] at haccepted
  exact Candidate.acceptDimension_eq_some haccepted

end Field

namespace Extraction

variable {source : Text} {e : Extraction}

theorem dimension?_ofSource (he : ofSource source = .ok e) {field : Field}
    (hfield : field = .width ∨ field = .height) :
    (e.dimension? field).map Text.decimal = (e.get? field).map (·.text) := by
  cases hget : e.get? field with
  | none => simp [dimension?, text?, hget]
  | some m =>
    obtain ⟨n, ⟨hpos, hlt⟩, htext⟩ :=
      Field.exists_decimal_of_find? hfield ((get?_ofSource he field).symm.trans hget)
    simp [dimension?, text?, hget, htext, Text.readDecimal?_decimal hlt, hpos]

end Extraction

/-- Every match is faithful to the source and to the order of the candidates. A width or a height is
read just where it has a match, and prints as its text. -/
theorem Field.find?_isFaithful (source : Text) (mode : Mode) (field : Field) :
    (∀ m, field.find? source mode = some m →
      m.IsFaithful source (Candidate.forField field mode)) ∧
    ∀ e, Extraction.ofSource source = .ok e → ∀ dimension ∈ [Field.width, .height],
      e.get? dimension = dimension.find? source e.mode ∧
        (e.dimension? dimension).map Text.decimal = (e.get? dimension).map (·.text) := by
  refine ⟨fun m => isFaithful_of_find?, fun e he dimension hdimension => ?_⟩
  have hcases : dimension = .width ∨ dimension = .height := by simpa using hdimension
  exact ⟨Extraction.get?_ofSource he dimension, Extraction.dimension?_ofSource he hcases⟩

/-- The first width is refused, and the second is not in its shortest form. -/
def frameSource : Text := "canvas.width = 0; canvas.width = 0640;"

theorem Field.find?_isFaithful_frameSource :
    Field.width.find? frameSource .component =
        some ⟨"640", ⟨33, 37⟩, "canvas-width-assignment"⟩ ∧
      FieldMatch.IsFaithful frameSource (Candidate.forField .width .component)
        ⟨"640", ⟨33, 37⟩, "canvas-width-assignment"⟩ ∧
      ∃ e, Extraction.ofSource frameSource = .ok e ∧
        (e.dimension? .width).map Text.decimal = (e.get? .width).map (·.text) := by
  have hfind : Field.width.find? frameSource .component =
      some ⟨"640", ⟨33, 37⟩, "canvas-width-assignment"⟩ := by decide +kernel
  have hblank : Text.allBlank frameSource = false := by decide
  obtain ⟨e, he, -⟩ := Extraction.exists_ofSource hblank
  have hfaithful := find?_isFaithful frameSource .component .width
  exact ⟨hfind, hfaithful.1 _ hfind, e, he, (hfaithful.2 e he .width (by simp)).2⟩

end CanvasPage
