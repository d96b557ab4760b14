import CanvasPage.Proofs.Pattern.Frame

namespace CanvasPage.Pattern

variable {tail : Pattern} {test : Char → Bool} {index : Nat} {b t : Text} {c : Char}

/-- A pattern behind the start of the text or behind a character that passes the test. -/
def fronted (index : Nat) (test : Char → Bool) (tail : Pattern) : Pattern :=
  group index (alt inputStart (one test)) ++ tail

/-- A pattern that begins with a character other than `c` and asks for neither end of the text. -/
structure BeginsPast (tail : Pattern) (c : Char) : Prop where
  openEnded : tail.isOpenEnded = true
  unanchored : tail.isUnanchored = true
  head : ∀ {before w after gs}, tail.Reads before w after gs → ∃ d u, w = d :: u ∧ d ≠ c

theorem BeginsPast.ends_eq_nil (h : tail.BeginsPast c) {p : Progress}
    (hp : p.cursor.after = c :: t) : tail.ends p = [] := by
  rw [List.eq_nil_iff_forall_not_mem]
  intro q hq
  obtain ⟨w, gs, hw, -, -, -, hread⟩ := advances_of_mem_ends hq
  obtain ⟨d, u, rfl, hne⟩ := h.head hread
  exact hne (List.cons.inj (hw.symm.trans hp)).1

theorem BeginsPast.width_lt (h : tail.BeginsPast c) {p q : Progress} (hq : q ∈ tail.ends p) :
    p.width < q.width := by
  obtain ⟨w, gs, -, -, hwidth, -, hread⟩ := advances_of_mem_ends hq
  obtain ⟨d, u, rfl, -⟩ := h.head hread
  rw [hwidth, List.length_cons]
  omega

theorem ends_fronted (p : Progress) :
    (fronted index test tail).ends p =
      (if p.cursor.before.isEmpty then tail.ends (p.close index p) else []) ++
        (group index (one test) ++ tail).ends p := by
  show ((group index (alt inputStart (one test))).ends p).flatMap tail.ends = _
  have hstart : inputStart.ends p = if p.cursor.before.isEmpty then [p] else [] := rfl
  have hsecond : (group index (one test) ++ tail).ends p =
      (((one test).ends p).map (·.close index p)).flatMap tail.ends := rfl
  rw [ends, ends, List.map_append, List.flatMap_append, hstart, hsecond]
  split
  · rw [List.map_singleton, List.flatMap_singleton]
  · rfl

theorem ends_one_append (hc : test c = true) {p : Progress} (hp : p.cursor.after = c :: t) :
    (group index (one test) ++ tail).ends p = tail.ends ((p.take c t).close index p) := by
  show ((group index (one test)).ends p).flatMap tail.ends = _
  rw [ends, ends, hp]
  dsimp only
  rw [if_pos hc, List.map_singleton, List.flatMap_singleton]

theorem at?_fronted (h : tail.BeginsPast c) (hc : test c = true)
    (hword : Text.isWordChar c = false) (index : Nat) (b t : Text) :
    (fronted index test tail).at? ⟨b, c :: t⟩ = none ∧
        (fronted index test tail).at? ⟨c :: b, t⟩ =
          ((fronted index test tail).at? ⟨[], t⟩).map (.frame (c :: b) []) ∨
      ∃ q ∈ tail.ends (.start ⟨[], t⟩), 0 < q.width ∧
        (fronted index test tail).at? ⟨b, c :: t⟩ = some ⟨⟨b, c :: t⟩, q.cursor.frame (c :: b) [],
          q.width + 1, (q.frame (c :: b) [] 1 [(index, ⟨⟨b, c :: t⟩, 1⟩)]).groups⟩ ∧
        (fronted index test tail).at? ⟨[], t⟩ =
          some ⟨⟨[], t⟩, q.cursor, q.width, q.groups ++ [(index, ⟨⟨[], t⟩, 0⟩)]⟩ := by
  have hignores : tail.Ignores (c :: b) [] := .inr (.inr ⟨h.unanchored, hword⟩)
  have hbehind : (fronted index test tail).ends (.start ⟨b, c :: t⟩) =
      (tail.ends (.start ⟨[], t⟩)).map (.frame (c :: b) [] 1 [(index, ⟨⟨b, c :: t⟩, 1⟩)]) := by
    have hanchor : tail.ends ((Progress.start ⟨b, c :: t⟩).close index (.start ⟨b, c :: t⟩)) = [] :=
      h.ends_eq_nil rfl
    rw [← ends_frame h.openEnded hignores, ends_fronted, hanchor, ite_self, List.nil_append,
      ends_one_append hc rfl]
    congr 1
    simp [Progress.frame, Cursor.frame, Progress.take, Progress.close, Progress.start]
  have hanchor : tail.ends ((Progress.start ⟨[], t⟩).close index (.start ⟨[], t⟩)) =
      (tail.ends (.start ⟨[], t⟩)).map (.frame [] [] 0 [(index, ⟨⟨[], t⟩, 0⟩)]) := by
    rw [← ends_frame h.openEnded (.inr (.inl rfl))]
    congr 1
    simp [Progress.frame, Cursor.frame, Progress.close, Progress.start]
  cases hends : tail.ends (.start ⟨[], t⟩) with
  | nil =>
    refine .inl ⟨by rw [at?, hbehind, hends]; rfl, ?_⟩
    have hcursor : (⟨c :: b, t⟩ : Cursor) = Cursor.frame (c :: b) [] ⟨[], t⟩ := by
      rw [Cursor.frame, List.append_nil, List.nil_append]
    rw [hcursor]
    refine at?_eq_map_frame ?_
    have hend : (group index (one test) ++ tail).isOpenEnded = true := h.openEnded
    have hfree : (group index (one test) ++ tail).isUnanchored = true := h.unanchored
    rw [ends_fronted, ends_fronted, ← hcursor, if_neg (by simp [Progress.start]), hcursor]
    rw [hends, List.map_nil] at hanchor
    rw [hanchor, ite_self, List.nil_append, List.nil_append]
    have hignores : (group index (one test) ++ tail).Ignores (c :: b) [] :=
      .inr (.inr ⟨hfree, hword⟩)
    have hframe : (group index (one test) ++ tail).ends ((Progress.start ⟨[], t⟩).frame (c :: b) [] 0 []) =
        ((group index (one test) ++ tail).ends (.start ⟨[], t⟩)).map (.frame (c :: b) [] 0 []) :=
      ends_frame hend hignores
    exact hframe
  | cons q qs =>
    have hpos : 0 < q.width := h.width_lt (p := .start ⟨[], t⟩) (by rw [hends]; exact List.mem_cons_self)
    refine .inr ⟨q, List.mem_cons_self, hpos, ?_, ?_⟩
    · rw [at?, hbehind, hends, List.map_cons, List.head?_cons]
      exact if_pos (Nat.succ_pos _)
    · have hempty : (Progress.start ⟨[], t⟩).cursor.before.isEmpty = true := rfl
      rw [at?, ends_fronted, if_pos hempty, hanchor, hends, List.map_cons, List.cons_append,
        List.head?_cons]
      simp [Progress.frame, Capture.frame, Cursor.frame, hpos]

section Search

variable {i : Nat}

theorem replaceFrom_congr {p q : Pattern} (h : ∀ c, p.at? c = q.at? c) (new : Occurrence → Text)
    (covered : Nat) (b t : Text) : p.replaceFrom new covered b t = q.replaceFrom new covered b t := by
  induction t generalizing covered b with
  | nil => rfl
  | cons d t ih =>
    cases covered with
    | succ covered => exact ih covered (d :: b)
    | zero =>
      rw [replaceFrom, replaceFrom, h]
      simp only [ih]

theorem occurrencesFrom_congr {p q : Pattern} (h : ∀ c, p.at? c = q.at? c) (covered : Nat)
    (b t : Text) : p.occurrencesFrom covered b t = q.occurrencesFrom covered b t := by
  induction t generalizing covered b with
  | nil => rfl
  | cons d t ih =>
    cases covered with
    | succ covered => exact ih covered (d :: b)
    | zero =>
      rw [occurrencesFrom, occurrencesFrom, h]
      simp only [ih]

theorem at?_assoc (p q r : Pattern) (c : Cursor) : (p ++ q ++ r).at? c = (p ++ (q ++ r)).at? c := by
  have hseq : ∀ first second : Pattern,
      (first ++ second).ends = fun p => (first.ends p).flatMap second.ends := fun _ _ => rfl
  rw [at?, at?]
  simp only [hseq, List.flatMap_assoc]

theorem BeginsPast.exists_cons (h : tail.BeginsPast c) {q : Progress}
    (hq : q ∈ tail.ends (.start ⟨[], t⟩)) : ∃ d u, t = d :: u ∧ q.width = (q.width - 1) + 1 := by
  obtain ⟨w, gs, hw, -, hwidth, -, hread⟩ := advances_of_mem_ends hq
  obtain ⟨d, u, rfl, -⟩ := h.head hread
  refine ⟨d, u ++ q.cursor.after, hw, ?_⟩
  rw [hwidth, List.length_cons]
  omega

theorem replaceFrom_fronted (h : tail.BeginsPast c) (hc : test c = true)
    (hword : Text.isWordChar c = false)
    (hgroups : ∀ {before w after gs}, tail.Reads before w after gs → gs = []) (index : Nat)
    (word b t : Text) :
    (fronted index test tail).replaceFrom (fun o => o.groupText index ++ word) 0 b (c :: t) =
      c :: (fronted index test tail).replaceAll (fun o => o.groupText index ++ word) t := by
  have hend : (fronted index test tail).isOpenEnded = true := h.openEnded
  have hnew : IsTextual fun o => o.groupText index ++ word := fun o o' ho => by simp only [ho]
  have hignores : ∀ d, (fronted index test tail).Ignores (c :: b) [d] := fun d =>
    .inl (List.cons_ne_nil d [])
  have hbehind : ∀ d covered u, (fronted index test tail).replaceFrom _ covered (d :: c :: b) u =
      (fronted index test tail).replaceFrom _ covered [d] u := fun d covered u =>
    replaceFrom_frame hend hnew (hignores d) covered u
  rcases at?_fronted h hc hword index b t with ⟨hnone, hat⟩ | ⟨q, hq, hpos, hat, halone⟩
  · rw [replaceFrom, hnone, replaceAll]
    refine congrArg (c :: ·) ?_
    cases t with
    | nil => rfl
    | cons d u =>
      rw [replaceFrom, replaceFrom, hat]
      cases ho : (fronted index test tail).at? ⟨[], d :: u⟩ with
      | none => exact congrArg (d :: ·) (hbehind d 0 u)
      | some o =>
        have hsame := groupText_frame (b := c :: b) (z := []) ho index
        rw [Option.map_some]
        dsimp only
        rw [hsame, hbehind]
        rfl
  · obtain ⟨d, u, rfl, hwidth⟩ := h.exists_cons hq
    have hnil : q.groups = [] := by
      obtain ⟨w, gs, -, -, -, hgs, hread⟩ := advances_of_mem_ends hq
      rw [hgroups hread] at hgs
      exact List.map_eq_nil_iff.mp hgs
    rw [replaceFrom, hat, replaceAll]
    dsimp only
    rw [Nat.add_sub_cancel, hwidth, replaceFrom, hbehind, replaceFrom, halone]
    simp [Occurrence.groupText, Occurrence.group?, Progress.frame, hnil, Capture.text]

theorem map_occurrencesFrom_fronted (h : tail.BeginsPast c) (hc : test c = true)
    (hword : Text.isWordChar c = false) (hi : index ≠ i) (b t : Text) :
    ((fronted index test tail).occurrencesFrom 0 b (c :: t)).map (fun o => (o.group? i, o.stop)) =
      (((fronted index test tail).occurrences t).map (Occurrence.frame (c :: b) [])).map
        fun o => (o.group? i, o.stop) := by
  have hend : (fronted index test tail).isOpenEnded = true := h.openEnded
  have hignores : ∀ d, (fronted index test tail).Ignores (c :: b) [d] := fun d =>
    .inl (List.cons_ne_nil d [])
  have hbehind : ∀ d covered u, (fronted index test tail).occurrencesFrom covered (d :: c :: b) u =
      ((fronted index test tail).occurrencesFrom covered [d] u).map (.frame (c :: b) []) :=
    fun d covered u => occurrencesFrom_frame hend (hignores d) covered u
  rcases at?_fronted h hc hword index b t with ⟨hnone, hat⟩ | ⟨q, hq, hpos, hat, halone⟩
  · rw [occurrencesFrom, hnone, occurrences]
    refine congrArg (List.map _) ?_
    cases t with
    | nil => rfl
    | cons d u =>
      rw [occurrencesFrom, occurrencesFrom, hat]
      cases ho : (fronted index test tail).at? ⟨[], d :: u⟩ with
      | none => exact hbehind d 0 u
      | some o =>
        rw [Option.map_some, List.map_cons, ← hbehind]
        rfl
  · obtain ⟨d, u, rfl, hwidth⟩ := h.exists_cons hq
    have hgroup : (q.frame (c :: b) [] 1 [(index, ⟨⟨b, c :: d :: u⟩, 1⟩)]).groups.find? (·.1 == i) =
        ((q.groups ++ [(index, Capture.mk ⟨[], d :: u⟩ 0)]).map fun g : Nat × Capture =>
          (g.1, g.2.frame (c :: b) [])).find? (·.1 == i) := by
      simp [Progress.frame, List.find?_append, hi]
    rw [occurrencesFrom, hat, occurrences]
    dsimp only
    rw [Nat.add_sub_cancel, hwidth, occurrencesFrom, hbehind, occurrencesFrom, halone]
    dsimp only
    rw [List.map_cons, List.map_cons, List.map_cons, Occurrence.group?, hgroup]
    rfl

end Search

end CanvasPage.Pattern
