import CanvasPage.Proofs.Pattern.Language

namespace CanvasPage.Pattern

variable {pattern first : Pattern} {before w after : Text} {gs : GroupTexts} {c : Cursor}
  {o : Occurrence} {p q : Progress} {i : Nat} {d : Char}

theorem reads_of_at? (h : pattern.at? c = some o) :
    o.start = c ∧ ∃ w, c.after = w ++ o.stop.after ∧ o.stop.before = w.reverse ++ c.before ∧
      o.width = w.length ∧
      pattern.Reads c.before w o.stop.after (o.groups.map fun g => (g.1, g.2.text)) := by
  rw [at?] at h
  split at h
  · rename_i q hq
    split at h
    · obtain rfl := Option.some.inj h
      obtain ⟨w, gs, hw, hb, hwidth, hgs, hread⟩ := advances_of_mem_ends (List.mem_of_head? hq)
      have hgroups : q.groups.map (fun g => (g.1, g.2.text)) = gs := by
        rw [← Progress.groupTexts, hgs]
        exact List.append_nil gs
      exact ⟨rfl, w, hw, hb, hwidth.trans (Nat.zero_add _), by rwa [hgroups]⟩
    · cases h
  · cases h

theorem whole_stop_of_at? (h : pattern.at? c = some o) : o.stop.whole = c.whole := by
  obtain ⟨-, w, hw, hb, -⟩ := reads_of_at? h
  simp [Cursor.whole, hw, hb]

theorem exists_last_of_at? (h : (first ++ literal [d]).at? c = some o) :
    ∃ u, c.after = u ++ d :: o.stop.after ∧ o.stop.before = d :: (u.reverse ++ c.before) := by
  obtain ⟨-, w, hw, hb, -, hread⟩ := reads_of_at? h
  obtain ⟨u, v, _, _, rfl, -, -, hv⟩ := reads_append.mp hread
  obtain ⟨rfl, -⟩ := (reads_literal [d]).mp hv
  exact ⟨u, by simp [hw], by simp [hb]⟩

section Participation

/-- The group of index `i` has a part in every match. -/
def Captures (i : Nat) : Pattern → Prop
  | seq first second => first.Captures i ∨ second.Captures i
  | alt first second => first.Captures i ∧ second.Captures i
  | group index body => index = i ∨ body.Captures i
  | empty | one _ | star _ _ | inputStart | inputEnd | wordBoundary => False

@[simp]
theorem captures_append {second : Pattern} :
    (first ++ second).Captures i ↔ first.Captures i ∨ second.Captures i := Iff.rfl

@[simp]
theorem captures_group (i : Nat) (body : Pattern) : (group i body).Captures i := .inl rfl

theorem exists_mem_of_reads (hp : pattern.Captures i) (h : pattern.Reads before w after gs) :
    ∃ t, (i, t) ∈ gs := by
  induction pattern generalizing before w after gs with
  | empty | one | star | inputStart | inputEnd | wordBoundary => exact hp.elim
  | seq first second ih₁ ih₂ =>
    obtain ⟨u, v, hs, is, -, rfl, hu, hv⟩ := h
    rcases hp with hp | hp
    · obtain ⟨t, ht⟩ := ih₁ hp hu
      exact ⟨t, List.mem_append_right _ ht⟩
    · obtain ⟨t, ht⟩ := ih₂ hp hv
      exact ⟨t, List.mem_append_left _ ht⟩
  | alt first second ih₁ ih₂ =>
    rcases h with h | h
    · exact ih₁ hp.1 h
    · exact ih₂ hp.2 h
  | group index body ih =>
    obtain ⟨hs, rfl, h⟩ := h
    rcases hp with rfl | hp
    · exact ⟨w, List.mem_cons_self⟩
    · obtain ⟨t, ht⟩ := ih hp h
      exact ⟨t, List.mem_cons_of_mem _ ht⟩

theorem exists_group?_of_at? (hp : pattern.Captures i) (h : pattern.at? c = some o) :
    ∃ g, o.group? i = some g := by
  obtain ⟨-, w, -, -, -, hread⟩ := reads_of_at? h
  obtain ⟨t, ht⟩ := exists_mem_of_reads hp hread
  obtain ⟨g, hg, heq⟩ := List.mem_map.mp ht
  obtain ⟨rfl, -⟩ := Prod.mk.inj heq
  have hsome : (o.groups.find? (·.1 == g.1)).isSome = true :=
    List.find?_isSome.mpr ⟨g, hg, beq_self_eq_true g.1⟩
  obtain ⟨k, hk⟩ := Option.isSome_iff_exists.mp hsome
  exact ⟨k.2, by rw [Occurrence.group?, hk]; rfl⟩

end Participation

section Places

def Holds (p : Progress) : Prop :=
  ∀ g ∈ p.groups, g.2.start.whole = p.cursor.whole ∧ g.2.start.before <:+ p.cursor.before

theorem holds_of_mem_ends (h : q ∈ pattern.ends p) (hp : Holds p) : Holds q := by
  induction pattern generalizing p q with
  | empty =>
    rw [List.mem_singleton.mp h]
    exact hp
  | one test =>
    rw [ends] at h
    split at h
    · simp at h
    · rename_i c rest hc
      split at h
      · rw [List.mem_singleton.mp h]
        intro g hg
        refine ⟨(hp g hg).1.trans ?_, (hp g hg).2.trans (List.suffix_cons _ _)⟩
        simp [Progress.take, Cursor.whole, hc]
      · simp at h
  | seq first second ih₁ ih₂ =>
    obtain ⟨r, hr, hq⟩ := List.mem_flatMap.mp h
    exact ih₂ hq (ih₁ hr hp)
  | alt first second ih₁ ih₂ =>
    rcases List.mem_append.mp h with h | h
    · exact ih₁ h hp
    · exact ih₂ h hp
  | star greedy body ih =>
    exact forall_mem_rounds (fun r hr q hq => ih hq hr) greedy _ p hp [] (by simp) q h
  | group index body ih =>
    obtain ⟨r, hr, rfl⟩ := List.mem_map.mp h
    intro g hg
    rcases List.mem_cons.mp hg with rfl | hg
    · obtain ⟨w, _, _, hb, _⟩ := advances_of_mem_ends hr
      exact ⟨(whole_of_mem_ends body p r hr).symm, hb ▸ List.suffix_append _ _⟩
    · exact ih hr hp g hg
  | inputStart | inputEnd | wordBoundary =>
    rw [ends] at h
    split at h
    · rw [List.mem_singleton.mp h]
      exact hp
    · simp at h

theorem holds_of_at? (h : pattern.at? c = some o) {g : Capture} (hg : o.group? i = some g) :
    g.start.whole = c.whole ∧ g.start.before <:+ o.stop.before := by
  obtain ⟨⟨j, g'⟩, hfind, rfl⟩ := Option.map_eq_some_iff.mp hg
  have hmem := List.mem_of_find?_eq_some hfind
  have hwhole := whole_stop_of_at? h
  rw [at?] at h
  split at h
  · rename_i q hq
    split at h
    · obtain rfl := Option.some.inj h
      rw [← hwhole]
      exact holds_of_mem_ends (List.mem_of_head? hq) (by simp [Holds, Progress.start]) _ hmem
    · cases h
  · cases h

def IsFlat : Pattern → Prop
  | seq first second | alt first second => first.IsFlat ∧ second.IsFlat
  | star _ body => body.IsFlat
  | group _ _ => False
  | empty | one _ | inputStart | inputEnd | wordBoundary => True

theorem isFlat_literal (t : Text) : (literal t).IsFlat := by
  fun_induction literal t with
  | case1 => trivial
  | case2 c => trivial
  | case3 c t _ ih => exact ⟨trivial, ih⟩

theorem groups_eq_of_mem_ends (hp : pattern.IsFlat) (h : q ∈ pattern.ends p) :
    q.groups = p.groups := by
  induction pattern generalizing p q with
  | empty => rw [List.mem_singleton.mp h]
  | one test =>
    rw [ends] at h
    split at h
    · simp at h
    · split at h
      · rw [List.mem_singleton.mp h]
        rfl
      · simp at h
  | seq first second ih₁ ih₂ =>
    obtain ⟨r, hr, hq⟩ := List.mem_flatMap.mp h
    exact (ih₂ hp.2 hq).trans (ih₁ hp.1 hr)
  | alt first second ih₁ ih₂ => exact (List.mem_append.mp h).elim (ih₁ hp.1) (ih₂ hp.2)
  | star greedy body ih =>
    exact forall_mem_rounds (P := fun q => q.groups = p.groups)
      (fun r hr q hq => (ih hp hq).trans hr) greedy _ p rfl [] (by simp) q h
  | group index body => exact hp.elim
  | inputStart | inputEnd | wordBoundary =>
    rw [ends] at h
    split at h
    · rw [List.mem_singleton.mp h]
    · simp at h

theorem exists_last_group {body last : Pattern} (hlast : last.IsFlat)
    (h : (first ++ (group i body ++ last)).at? c = some o) :
    ∃ u v w g, c.after = u ++ (v ++ (w ++ o.stop.after)) ∧ o.group? i = some g ∧
      g.start = ⟨u.reverse ++ c.before, v ++ (w ++ o.stop.after)⟩ ∧ g.text = v ∧
      (∃ hs, first.Reads c.before u (v ++ (w ++ o.stop.after)) hs) ∧
      (∃ hs, body.Reads (u.reverse ++ c.before) v (w ++ o.stop.after) hs) ∧
      ∃ hs, last.Reads (v.reverse ++ (u.reverse ++ c.before)) w o.stop.after hs := by
  rw [at?] at h
  split at h
  · rename_i q hq
    split at h
    · obtain rfl := Option.some.inj h
      obtain ⟨r, hr, hrest⟩ := List.mem_flatMap.mp (List.mem_of_head? hq)
      obtain ⟨s, hs, hend⟩ := List.mem_flatMap.mp hrest
      obtain ⟨s, hbody, rfl⟩ := List.mem_map.mp hs
      obtain ⟨u, js, hu, hub, -, -, hfirst⟩ := advances_of_mem_ends hr
      obtain ⟨v, hs, hv, hvb, hwidth, -, hread⟩ := advances_of_mem_ends hbody
      obtain ⟨w, is, hw, -, -, -, hlastRead⟩ := advances_of_mem_ends hend
      have hgroups : q.groups = (i, ⟨r.cursor, s.width - r.width⟩) :: s.groups :=
        groups_eq_of_mem_ends hlast hend
      have hafter : s.cursor.after = w ++ q.cursor.after := hw
      rw [hafter] at hv hread
      have hplace : r.cursor = ⟨u.reverse ++ c.before, v ++ (w ++ q.cursor.after)⟩ := by
        change Cursor.mk r.cursor.before r.cursor.after = _
        rw [hub, hv]
        rfl
      have hlastBefore : (s.close i r).cursor.before = v.reverse ++ (u.reverse ++ c.before) := by
        change s.cursor.before = _
        rw [hvb, hub]
        rfl
      have htext : Capture.text ⟨r.cursor, s.width - r.width⟩ = v := by
        rw [Capture.text, hwidth, Nat.add_sub_cancel_left, hv, List.take_left]
      rw [hlastBefore] at hlastRead
      rw [hplace] at hread hfirst
      refine ⟨u, v, w, ⟨r.cursor, s.width - r.width⟩, ?_, ?_, hplace, htext, ⟨js, hfirst⟩,
        ⟨hs, hread⟩, ⟨is, hlastRead⟩⟩
      · rw [← hv]
        exact hu
      · simp [Occurrence.group?, hgroups]
    · cases h
  · cases h

end Places

end CanvasPage.Pattern
