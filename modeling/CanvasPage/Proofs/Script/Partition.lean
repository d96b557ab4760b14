import CanvasPage.Proofs.Script.LiteralRanges

namespace CanvasPage.Script

/-- Ranges that hold the literals of a text, each of them whole, and leave the code. -/
structure IsPartition (t : Text) (rs : List Span) : Prop where
  nonempty : ∀ r ∈ rs, r.start < r.stop
  ordered : rs.Pairwise fun r r' => r.stop ≤ r'.start
  literal : ∀ r ∈ rs, ∃ l, r.slice? t = some l ∧ opensLiteral l = true ∧
    literalRanges l = [⟨0, Text.byteLength l⟩]
  code : ∀ k rest, Text.dropBytes k t = some rest → (∀ r ∈ rs, r.covers k = false) →
    opensLiteral rest = false

section Spans

variable {k : Nat} {gs : List Segment} {r : Span}

theorem of_mem_literalSpans (h : r ∈ literalSpans k gs) :
    k ≤ r.start ∧ ∃ l, .literal l ∈ gs ∧ r.stop = r.start + Text.byteLength l := by
  induction gs generalizing k with
  | nil => cases h
  | cons g gs ih =>
    have hrest : ∀ {k'}, k ≤ k' → r ∈ literalSpans k' gs →
        k ≤ r.start ∧ ∃ l, .literal l ∈ g :: gs ∧ r.stop = r.start + Text.byteLength l := by
      intro k' hk hr
      obtain ⟨hstart, l, hl, hstop⟩ := ih hr
      exact ⟨hk.trans hstart, l, List.mem_cons_of_mem g hl, hstop⟩
    cases g with
    | code t => exact hrest (Nat.le_add_right _ _) h
    | literal t =>
      rcases List.mem_cons.mp h with rfl | h
      · exact ⟨Nat.le_refl k, t, List.mem_cons_self, rfl⟩
      · exact hrest (Nat.le_add_right _ _) h

theorem pairwise_literalSpans (k : Nat) (gs : List Segment) :
    (literalSpans k gs).Pairwise fun r r' => r.stop ≤ r'.start := by
  induction gs generalizing k with
  | nil => exact .nil
  | cons g gs ih =>
    cases g with
    | code t => exact ih _
    | literal t => exact .cons (fun r hr => (of_mem_literalSpans hr).1) (ih _)

end Spans

section Segments

variable {s : State} {c : Char} {t l w inside after : Text}

theorem State.leave?_inside (hs : s.isCode = false) (h : s.leave? w = some (inside, after)) :
    s.leave? inside = none ∨ s.leave? inside = some (inside, []) := by
  cases hinside : s.leave? inside with
  | none => exact .inl rfl
  | some found =>
    obtain ⟨m, rest⟩ := found
    have hleave := State.leave?_append hs hinside after
    rw [← State.eq_of_leave? h, h] at hleave
    obtain ⟨rfl, -⟩ := Prod.mk.inj (Option.some.inj hleave)
    have hrest := State.eq_of_leave? hinside
    rw [List.self_eq_append_right] at hrest
    exact .inr (by rw [hrest])

theorem exists_opening (h : opensLiteral t = true) : ∃ c o w s, t = c :: (o ++ w) ∧
    State.isCode s = false ∧ (∀ v, opensLiteral (c :: (o ++ v)) = true) ∧
    ∀ v, roles .start (c :: (o ++ v)) = .opens :: ((o.map fun _ => .inside) ++ roles s v) := by
  cases t with
  | nil => cases h
  | cons c w =>
    by_cases hc : (isQuote c || isBacktick c) = true
    · have hopens : ∀ v, opensLiteral (c :: ([] ++ v)) = true := fun v => by
        rw [opensLiteral, hc, Bool.true_or]
      exact ⟨c, [], w, State.start.step c, rfl, isCode_step_of_quote hc, hopens, roles_quote hc⟩
    · rw [opensLiteral, Bool.eq_false_iff.mpr hc, Bool.false_or, Bool.and_eq_true, beq_iff_eq,
        Bool.or_eq_true, beq_iff_eq, beq_iff_eq] at h
      obtain ⟨rfl, hline | hblock⟩ := h
      · obtain ⟨w, rfl⟩ := List.head?_eq_some_iff.mp hline
        exact ⟨'/', ['/'], w, ⟨.lineComment, []⟩, rfl, rfl, fun _ => rfl, fun _ => rfl⟩
      · obtain ⟨w, rfl⟩ := List.head?_eq_some_iff.mp hblock
        exact ⟨'/', ['*'], w, ⟨.blockComment, []⟩, rfl, rfl, fun _ => rfl, fun _ => rfl⟩

theorem exists_segments_literal (h : opensLiteral t = true) : ∃ l rest, t = l ++ rest ∧
    segments t = .literal l :: segments rest ∧ opensLiteral l = true ∧
      segments l = [.literal l] := by
  obtain ⟨c, o, w, s, rfl, hs, hopens, hroles⟩ := exists_opening h
  have hsegments : segments (c :: (o ++ w)) = _ := chunk_opening hs o (hroles w)
  cases hleave : s.leave? w with
  | none =>
    rw [hleave, Option.elim_none] at hsegments
    exact ⟨c :: (o ++ w), [], by simp, hsegments, hopens w, hsegments⟩
  | some found =>
    obtain ⟨m, rest⟩ := found
    obtain rfl := State.eq_of_leave? hleave
    rw [hleave, Option.elim_some] at hsegments
    refine ⟨c :: (o ++ m), rest, by simp, hsegments, hopens m, ?_⟩
    have halone : segments (c :: (o ++ m)) = _ := chunk_opening hs o (hroles m)
    rcases State.leave?_inside hs hleave with hinside | hinside
    · rw [halone, hinside]
      rfl
    · rw [halone, hinside]
      rfl

theorem literalTexts_cons (h : opensLiteral (c :: t) = false) :
    literalTexts (c :: t) = literalTexts t := by
  rw [literalTexts, literalTexts, segments, segments, filter_chunk (isChain_roles .start _),
    filter_chunk (isChain_roles .start _), roles_of_not_opensLiteral h, List.zip_cons_cons,
    List.filter_cons_of_neg (by simp)]

theorem of_mem_literalTexts (h : l ∈ literalTexts t) :
    opensLiteral l = true ∧ segments l = [.literal l] := by
  induction hn : t.length using Nat.strong_induction_on generalizing t with
  | _ n ih =>
    cases t with
    | nil => cases h
    | cons c t =>
      cases hopens : opensLiteral (c :: t) with
      | false =>
        rw [literalTexts_cons hopens] at h
        exact ih t.length (by rw [← hn, List.length_cons]; omega) h rfl
      | true =>
        obtain ⟨m, rest, hsplit, hsegments, hm, halone⟩ := exists_segments_literal hopens
        rw [literalTexts, hsegments, List.filter_cons_of_pos rfl, List.map_cons] at h
        rcases List.mem_cons.mp h with rfl | h
        · exact ⟨hm, halone⟩
        · have hpos : 0 < m.length := by
            rw [List.length_pos_iff]
            rintro rfl
            cases hm
          refine ih rest.length ?_ h rfl
          rw [← hn, hsplit, List.length_append]
          omega

theorem opensLiteral_of_role (h : s.role c t.head? = .code) : opensLiteral (c :: t) = false := by
  obtain ⟨mode, nesting⟩ := s
  cases nesting with
  | cons n ns => cases h
  | nil =>
    cases mode with
    | lineComment | quoted q =>
      obtain rfl : c = '\n' := by simpa [State.role] using h
      rfl
    | code | slash => grind [State.role, opensLiteral]
    | _ => cases h

end Segments

/-- The literal ranges of a text part it into its literals and the code between them. -/
theorem literalRanges_isPartition (t : Text) : IsPartition t (literalRanges t) where
  nonempty := by
    intro r hr
    obtain ⟨-, l, hl, hstop⟩ := of_mem_literalSpans hr
    have hmem : l ∈ literalTexts t :=
      List.mem_map.mpr ⟨.literal l, List.mem_filter.mpr ⟨hl, rfl⟩, rfl⟩
    have hopens := (of_mem_literalTexts hmem).1
    cases l with
    | nil => cases hopens
    | cons c l =>
      have hsize := c.utf8Size_pos
      rw [hstop, Text.byteLength_cons]
      omega
  ordered := pairwise_literalSpans 0 (segments t)
  literal := by
    intro r hr
    have hslice := List.mem_map_of_mem (f := (·.slice? t)) hr
    rw [slice?_literalRanges] at hslice
    obtain ⟨l, hl, hr⟩ := List.mem_map.mp hslice
    obtain ⟨hopens, hsegments⟩ := of_mem_literalTexts hl
    refine ⟨l, hr.symm, hopens, ?_⟩
    rw [literalRanges, hsegments]
    show [_] = [_]
    rw [Nat.zero_add]
  code := by
    intro k rest hrest hk
    cases rest with
    | nil => rfl
    | cons c after =>
      obtain ⟨before, rfl, rfl⟩ := Text.eq_append_of_dropBytes hrest
      have hcode : isCodeOffset (before ++ c :: after) (Text.byteLength before) = true := by
        rw [isCodeOffset, List.all_eq_true]
        intro r hr
        rw [hk r hr]
        rfl
      have hpos := c.utf8Size_pos
      rw [isCodeOffset_append after (Nat.le_refl _) (by omega), beq_iff_eq] at hcode
      exact opensLiteral_of_role hcode

example : literalRanges "x = 'open\ny / z // it's" = [⟨4, 9⟩, ⟨16, 23⟩] := by decide +kernel

end CanvasPage.Script
