import CanvasPage.Proofs.Pattern.Language
import CanvasPage.Proofs.Pattern.Run

namespace CanvasPage.Pattern

section Ends

variable {pattern body : Pattern} {greedy : Bool} {p q r : Progress} {before w after : Text}
  {gs : GroupTexts}

theorem mem_ends_star_self (greedy : Bool) (body : Pattern) (p : Progress) :
    p ∈ (star greedy body).ends p := by
  rw [ends_star]
  cases greedy <;> simp

theorem mem_ends_star_of_first (hq : q ∈ body.ends p) (hlt : p.width < q.width)
    (hr : r ∈ (star greedy body).ends q) : r ∈ (star greedy body).ends p := by
  have hmore : r ∈ (body.ends p).flatMap fun q =>
      if p.width < q.width then (star greedy body).ends q else [] :=
    List.mem_flatMap.mpr ⟨q, hq, by rwa [if_pos hlt]⟩
  rw [ends_star]
  cases greedy with
  | true => exact List.mem_append_left _ hmore
  | false => exact List.mem_cons_of_mem _ hmore

theorem mem_ends_star_cases (hq : q ∈ (star greedy body).ends p) :
    q = p ∨ ∃ r ∈ body.ends p, p.width < r.width ∧ q ∈ (star greedy body).ends r := by
  have hmore : (q ∈ (body.ends p).flatMap fun q =>
      if p.width < q.width then (star greedy body).ends q else []) →
        ∃ r ∈ body.ends p, p.width < r.width ∧ q ∈ (star greedy body).ends r := by
    intro h
    obtain ⟨r, hr, hq⟩ := List.mem_flatMap.mp h
    split at hq
    · exact ⟨r, hr, by assumption, hq⟩
    · simp at hq
  rw [ends_star] at hq
  cases greedy with
  | true =>
    rcases List.mem_append.mp hq with hq | hq
    · exact .inr (hmore hq)
    · exact .inl (List.mem_singleton.mp hq)
  | false =>
    rcases List.mem_cons.mp hq with hq | hq
    · exact .inl hq
    · exact .inr (hmore hq)

theorem mem_ends_star_of_last (hq : q ∈ (star greedy body).ends p) (hr : r ∈ body.ends q)
    (hlt : q.width < r.width) : r ∈ (star greedy body).ends p := by
  induction hn : p.cursor.after.length using Nat.strongRecOn generalizing p with
  | ind n ih =>
    rcases mem_ends_star_cases hq with rfl | ⟨s, hs, hwidth, hq⟩
    · exact mem_ends_star_of_first hr hlt (mem_ends_star_self greedy body r)
    · have hsum := width_add_length_of_mem_ends hs
      exact mem_ends_star_of_first hs hwidth (ih _ (by omega) hq rfl)

/-- A repetition reads what its rounds can read, leaving out the rounds that take nothing. -/
theorem exists_mem_ends_star_of_repeated
    (ih : ∀ {before w after : Text} {gs : GroupTexts} {p : Progress},
      body.Reads before w after gs → p.cursor = ⟨before, w ++ after⟩ →
        ∃ q ∈ body.ends p, q.cursor = ⟨w.reverse ++ before, after⟩)
    (h : Repeated body.Reads before w after gs) {p : Progress} (hp : p.cursor = ⟨before, w ++ after⟩) :
    ∃ q ∈ (star greedy body).ends p, q.cursor = ⟨w.reverse ++ before, after⟩ := by
  induction h generalizing p with
  | nil after => exact ⟨p, mem_ends_star_self greedy body p, hp⟩
  | @append u v after gs hs hu hv hround =>
    obtain ⟨q, hq, hqc⟩ := hround (p := p) (by rw [hp, List.append_assoc])
    obtain ⟨r, hr, hrc⟩ := ih hv hqc
    by_cases hnil : v = []
    · exact ⟨q, hq, by simp [hqc, hnil]⟩
    · have hsum := width_add_length_of_mem_ends hr
      have hlength := List.length_pos_iff.mpr hnil
      simp only [hqc, hrc, List.length_append] at hsum
      exact ⟨r, mem_ends_star_of_last hq hr (by omega), by
        rw [hrc, List.reverse_append, List.append_assoc]⟩

theorem exists_mem_ends_of_reads (h : pattern.Reads before w after gs) {p : Progress}
    (hp : p.cursor = ⟨before, w ++ after⟩) :
    ∃ q ∈ pattern.ends p, q.cursor = ⟨w.reverse ++ before, after⟩ := by
  induction pattern generalizing before w after gs p with
  | empty =>
    obtain ⟨rfl, -⟩ := h
    exact ⟨p, List.mem_singleton_self p, hp⟩
  | one test =>
    obtain ⟨⟨c, hc, rfl⟩, -⟩ := h
    refine ⟨p.take c after, ?_, by simp [Progress.take, hp]⟩
    simp [ends, hp, hc]
  | seq first second ih₁ ih₂ =>
    obtain ⟨u, v, _, _, rfl, -, hu, hv⟩ := h
    obtain ⟨q, hq, hqc⟩ := ih₁ hu (p := p) (by rw [hp, List.append_assoc])
    obtain ⟨r, hr, hrc⟩ := ih₂ hv hqc
    exact ⟨r, List.mem_flatMap.mpr ⟨q, hq, hr⟩, by
      rw [hrc, List.reverse_append, List.append_assoc]⟩
  | alt first second ih₁ ih₂ =>
    rcases h with h | h
    · obtain ⟨q, hq, hqc⟩ := ih₁ h hp
      exact ⟨q, List.mem_append_left _ hq, hqc⟩
    · obtain ⟨q, hq, hqc⟩ := ih₂ h hp
      exact ⟨q, List.mem_append_right _ hq, hqc⟩
  | star greedy body ih =>
    rw [Reads] at h
    exact exists_mem_ends_star_of_repeated (fun h hp => ih h hp) h hp
  | group index body ih =>
    obtain ⟨_, -, h⟩ := h
    obtain ⟨q, hq, hqc⟩ := ih h hp
    exact ⟨q.close index p, List.mem_map.mpr ⟨q, hq, rfl⟩, hqc⟩
  | inputStart =>
    obtain ⟨rfl, -, rfl⟩ := h
    exact ⟨p, by simp [ends, hp], hp⟩
  | inputEnd =>
    obtain ⟨rfl, -, rfl⟩ := h
    exact ⟨p, by simp [ends, hp], hp⟩
  | wordBoundary =>
    obtain ⟨rfl, -, hboundary⟩ := h
    rw [List.nil_append] at hp
    exact ⟨p, by simp [ends, hp, hboundary], hp⟩

end Ends

section Lazy

variable {α : Type} {k : Progress → Option α} {before t : Text} {width : Nat}
  {groups : List (Nat × Capture)} {test : Char → Bool} {a : α}

theorem exists_least_of_run_lazyMany
    (h : (lazyMany (one test)).run ⟨⟨before, t⟩, width, groups⟩ k = some a) :
    ∃ u rest, t = u ++ rest ∧ (∀ c ∈ u, test c = true) ∧
      k ⟨⟨u.reverse ++ before, rest⟩, width + u.length, groups⟩ = some a ∧
      ∀ v x, u = v ++ x → x ≠ [] →
        k ⟨⟨v.reverse ++ before, x ++ rest⟩, width + v.length, groups⟩ = none := by
  induction t generalizing before width with
  | nil =>
    rw [run_lazyMany, run_one_nil, Option.or_none] at h
    refine ⟨[], [], rfl, by simp, h, fun v x hx hne => ?_⟩
    exact absurd (List.append_eq_nil_iff.mp hx.symm).2 hne
  | cons c t ih =>
    rw [run_lazyMany, run_one_cons] at h
    cases hk : k ⟨⟨before, c :: t⟩, width, groups⟩ with
    | some b =>
      rw [hk, Option.some_or] at h
      refine ⟨[], c :: t, rfl, by simp, hk.trans h, fun v x hx hne => ?_⟩
      exact absurd (List.append_eq_nil_iff.mp hx.symm).2 hne
    | none =>
      rw [hk, Option.none_or] at h
      split at h
      · rename_i hc
        rw [if_pos (Nat.lt_succ_self width)] at h
        obtain ⟨u, rest, rfl, hu, hrun, hleast⟩ := ih h
        refine ⟨c :: u, rest, rfl, List.forall_mem_cons.mpr ⟨hc, hu⟩, ?_, fun v x hx hne => ?_⟩
        · simpa [Nat.add_assoc, Nat.add_comm 1] using hrun
        · rcases List.cons_eq_append_iff.mp hx with ⟨rfl, rfl⟩ | ⟨v, rfl, rfl⟩
          · exact hk
          · simpa [Nat.add_assoc, Nat.add_comm 1] using hleast v x rfl hne
      · cases h

end Lazy

section Search

variable {pattern : Pattern} {before p t : Text} {o : Occurrence} {covered : Nat}

theorem width_pos_of_at? {c : Cursor} (h : pattern.at? c = some o) : 0 < o.width := by
  obtain ⟨w, -, hne, -, -, hwidth, -⟩ := exists_reads_of_at? h
  exact hwidth ▸ List.length_pos_iff.mpr hne

theorem exists_at?_of_reads {w rest : Text} {gs : GroupTexts} (h : pattern.Reads before w rest gs)
    (hne : ∀ v after hs, pattern.Reads before v after hs → v ≠ []) :
    ∃ o, pattern.at? ⟨before, w ++ rest⟩ = some o := by
  obtain ⟨q, hq, -⟩ := exists_mem_ends_of_reads h (p := .start ⟨before, w ++ rest⟩) rfl
  obtain ⟨r, qs, hends⟩ := List.exists_cons_of_ne_nil (List.ne_nil_of_mem hq)
  obtain ⟨v, hs, -, -, hwidth, -, hread⟩ :=
    advances_of_mem_ends (p := .start ⟨before, w ++ rest⟩) (hends ▸ List.mem_cons_self)
  have hpos : 0 < r.width := by
    rw [hwidth]
    exact Nat.add_pos_right _ (List.length_pos_iff.mpr (hne _ _ _ hread))
  rw [at?, hends, List.head?_cons]
  exact ⟨_, if_pos hpos⟩

theorem replaceFrom_of_at? {w rest : Text} {new : Occurrence → Text}
    (hat : pattern.at? ⟨before, w ++ rest⟩ = some o) (hwidth : o.width = w.length) :
    pattern.replaceFrom new 0 before (w ++ rest) =
      new o ++ pattern.replaceFrom new 0 (w.reverse ++ before) rest := by
  cases w with
  | nil => exact absurd hwidth (Nat.ne_of_gt (width_pos_of_at? hat))
  | cons c w =>
    rw [List.cons_append] at hat
    rw [List.cons_append, replaceFrom, hat]
    dsimp only
    rw [hwidth, List.length_cons, Nat.add_sub_cancel, replaceFrom_covered, List.reverse_cons,
      List.append_assoc, List.singleton_append]

theorem replaceFrom_of_at?_whole {w : Text} {new : Occurrence → Text}
    (hat : pattern.at? ⟨before, w⟩ = some o) (hwidth : o.width = w.length) :
    pattern.replaceFrom new 0 before w = new o := by
  have hwhole : pattern.replaceFrom new 0 before (w ++ []) =
      new o ++ pattern.replaceFrom new 0 (w.reverse ++ before) [] :=
    replaceFrom_of_at? (by rwa [List.append_nil]) hwidth
  rwa [List.append_nil, replaceFrom, List.append_nil] at hwhole

theorem replaceAll_append {w rest : Text} {new : Occurrence → Text}
    (hat : pattern.at? ⟨[], w ++ rest⟩ = some o) (hwidth : o.width = w.length)
    (hrest : ∀ p u v gs, rest = p ++ (u ++ v) → u ≠ [] →
      ¬ pattern.Reads (p.reverse ++ w.reverse) u v gs) :
    pattern.replaceAll new (w ++ rest) = new o ++ rest := by
  rw [replaceAll, replaceFrom_of_at? hat hwidth, List.append_nil, replaceFrom_eq_self hrest]

theorem exists_cons_of_at? (h : pattern.at? ⟨before, t⟩ = some o) : ∃ c rest, t = c :: rest := by
  obtain ⟨w, -, hne, hafter, -⟩ := exists_reads_of_at? h
  obtain ⟨c, w, rfl⟩ := List.exists_cons_of_ne_nil hne
  exact ⟨c, _, hafter⟩

/-- The match `o` starts in `p` and goes on behind it. -/
def Crosses (pattern : Pattern) (before p t : Text) (o : Occurrence) : Prop :=
  ∃ x y, p = x ++ y ∧ y ≠ [] ∧ pattern.at? ⟨x.reverse ++ before, y ++ t⟩ = some o ∧
    y.length < o.width

theorem Crosses.cons {c : Char} (h : pattern.Crosses (c :: before) p t o) :
    pattern.Crosses before (c :: p) t o := by
  obtain ⟨x, y, rfl, hne, hat, hwidth⟩ := h
  exact ⟨c :: x, y, rfl, hne, by simpa using hat, hwidth⟩

/-- The search finds the match `o` behind `p`, or another one covers its place. -/
def Reaches (pattern : Pattern) (covered : Nat) (before p t : Text) (o : Occurrence) : Prop :=
  o ∈ pattern.occurrencesFrom covered before (p ++ t) ∨ p.length < covered ∨
    ∃ o' ∈ pattern.occurrencesFrom covered before (p ++ t), pattern.Crosses before p t o'

theorem Reaches.cons {c : Char} {next : Nat} (h : pattern.Reaches next (c :: before) p t o)
    (hfound : ∀ o' ∈ pattern.occurrencesFrom next (c :: before) (p ++ t),
      o' ∈ pattern.occurrencesFrom covered before (c :: p ++ t))
    (hcovered : p.length < next → pattern.Reaches covered before (c :: p) t o) :
    pattern.Reaches covered before (c :: p) t o := by
  rcases h with h | h | ⟨o', ho', hcrosses⟩
  · exact .inl (hfound o h)
  · exact hcovered h
  · exact .inr (.inr ⟨o', hfound o' ho', hcrosses.cons⟩)

theorem reaches_of_at? (h : pattern.at? ⟨p.reverse ++ before, t⟩ = some o) (covered : Nat) :
    pattern.Reaches covered before p t o := by
  induction p generalizing before covered with
  | nil =>
    cases covered with
    | succ covered => exact .inr (.inl (Nat.succ_pos covered))
    | zero =>
      obtain ⟨c, rest, rfl⟩ := exists_cons_of_at? h
      rw [List.reverse_nil, List.nil_append] at h
      rw [Reaches, List.nil_append, occurrencesFrom, h]
      exact .inl List.mem_cons_self
  | cons c p ih =>
    rw [List.reverse_cons, List.append_assoc, List.singleton_append] at h
    cases covered with
    | succ covered =>
      exact (ih h covered).cons (fun _ ho => ho) fun hlt => .inr (.inl (Nat.succ_lt_succ hlt))
    | zero =>
      cases hat : pattern.at? ⟨before, c :: (p ++ t)⟩ with
      | none =>
        refine (ih h 0).cons (fun o' ho => ?_) fun hlt => absurd hlt (Nat.not_lt_zero _)
        rw [List.cons_append, occurrencesFrom, hat]
        exact ho
      | some first =>
        have hlist : pattern.occurrencesFrom 0 before (c :: p ++ t) =
            first :: pattern.occurrencesFrom (first.width - 1) (c :: before) (p ++ t) := by
          rw [List.cons_append, occurrencesFrom, hat]
        refine (ih h (first.width - 1)).cons (fun o' ho => ?_) fun hlt => ?_
        · rw [hlist]
          exact List.mem_cons_of_mem _ ho
        · have hcrosses : pattern.Crosses before (c :: p) t first :=
            ⟨[], c :: p, rfl, List.cons_ne_nil c p, hat, by rw [List.length_cons]; omega⟩
          exact .inr (.inr ⟨first, by rw [hlist]; exact List.mem_cons_self, hcrosses⟩)

/-- A match at a place is found, unless an earlier one covers the place. -/
theorem mem_occurrences_or_crosses (h : pattern.at? ⟨p.reverse, t⟩ = some o) :
    o ∈ pattern.occurrences (p ++ t) ∨
      ∃ o' ∈ pattern.occurrences (p ++ t), pattern.Crosses [] p t o' := by
  have hreaches := reaches_of_at? (by rwa [List.append_nil]) 0
  rcases hreaches with h | h | h
  · exact .inl h
  · exact absurd h (Nat.not_lt_zero _)
  · exact .inr h

end Search

end CanvasPage.Pattern
