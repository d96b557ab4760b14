import CanvasPage.Proofs.Pattern.Taken

namespace CanvasPage.Pattern

variable {pattern : Pattern}

section Single

variable {c : Cursor} {q : Progress}

theorem at?_of_run (h : pattern.run (.start c) some = some q) (hq : 0 < q.width) :
    pattern.at? c = some ⟨c, q.cursor, q.width, q.groups⟩ := by
  rw [run_some] at h
  rw [at?, h]
  exact if_pos hq

theorem at?_eq_none (h : pattern.run (.start c) some = none) : pattern.at? c = none := by
  rw [run_some] at h
  rw [at?, h]

theorem captured_of_at? {P : Char → Prop} {o : Occurrence} (hP : pattern.CapturesOnly P)
    (h : pattern.at? c = some o) : ∀ g ∈ o.groups, ∀ d ∈ g.2.text, P d := by
  rw [at?] at h
  split at h
  · rename_i q hq
    split at h
    · obtain rfl := Option.some.inj h
      exact captured_of_mem_ends hP (List.mem_of_head? hq) (by simp [Progress.start])
    · cases h
  · cases h

theorem exists_at?_of_mem_occurrencesFrom {o : Occurrence} {covered : Nat} {before t : Text}
    (h : o ∈ pattern.occurrencesFrom covered before t) :
    ∃ c, c.whole = Cursor.whole ⟨before, t⟩ ∧ pattern.at? c = some o := by
  induction t generalizing covered before with
  | nil => simp [occurrencesFrom] at h
  | cons c t ih =>
    have hwhole : Cursor.whole ⟨c :: before, t⟩ = Cursor.whole ⟨before, c :: t⟩ := by
      simp [Cursor.whole]
    cases covered with
    | succ covered =>
      rw [← hwhole]
      exact ih h
    | zero =>
      rw [occurrencesFrom] at h
      split at h
      · rw [← hwhole]
        exact ih h
      · rename_i first hfirst
        rcases List.mem_cons.mp h with rfl | h
        · exact ⟨_, rfl, hfirst⟩
        · rw [← hwhole]
          exact ih h

theorem captured_of_mem_occurrences {P : Char → Prop} {o : Occurrence} {t : Text}
    (hP : pattern.CapturesOnly P) (h : o ∈ pattern.occurrences t) :
    ∀ g ∈ o.groups, ∀ d ∈ g.2.text, P d := by
  obtain ⟨c, -, hc⟩ := exists_at?_of_mem_occurrencesFrom h
  exact captured_of_at? hP hc

end Single

section Search

variable {before s t u rest : Text} {width : Nat}
  {groups : List (Nat × Capture)} {c d : Char}

/-- The pattern matches nowhere in a text that the given one follows. -/
def FailsOver (pattern : Pattern) : Text → Text → Prop
  | [], _ => True
  | c :: u, rest =>
      (∀ before, pattern.at? ⟨before, c :: (u ++ rest)⟩ = none) ∧ pattern.FailsOver u rest

theorem FailsOver.append (ht : pattern.FailsOver t (u ++ rest)) (hu : pattern.FailsOver u rest) :
    pattern.FailsOver (t ++ u) rest := by
  induction t with
  | nil => exact hu
  | cons c t ih =>
    refine ⟨fun before => ?_, ih ht.2⟩
    show pattern.at? ⟨before, c :: ((t ++ u) ++ rest)⟩ = none
    rw [List.append_assoc]
    exact ht.1 before

theorem occurrencesFrom_append (h : pattern.FailsOver u rest) (before : Text) :
    pattern.occurrencesFrom 0 before (u ++ rest) =
      pattern.occurrencesFrom 0 (u.reverse ++ before) rest := by
  induction u generalizing before with
  | nil => rfl
  | cons c u ih =>
    rw [List.cons_append, occurrencesFrom, h.1 before]
    dsimp only
    rw [ih h.2, List.reverse_cons, List.append_assoc, List.singleton_append]

section Openings

def differs : Text → Text → Bool
  | c :: u, d :: t => !eitherCase c d || differs u t
  | _, _ => false

theorem differs_append (h : differs u t = true) (rest : Text) : differs u (t ++ rest) = true := by
  fun_induction differs u t with
  | case1 c u d t ih =>
    rw [List.cons_append, differs]
    rw [Bool.or_eq_true] at h ⊢
    exact h.imp_right ih
  | case2 => cases h

def avoids (u : Text) : Text → Bool
  | [] => true
  | c :: t => differs u (c :: t) && avoids u t

theorem avoids_append (hs : avoids u s = true) (ht : avoids u t = true) :
    avoids u (s ++ t) = true := by
  induction s with
  | nil => exact ht
  | cons c s ih =>
    rw [avoids, Bool.and_eq_true] at hs
    rw [List.cons_append, avoids, ih hs.2, ← List.cons_append, differs_append hs.1]
    rfl

theorem differs_of_avoids (h : avoids u (s ++ t) = true) (ht : t ≠ []) : differs u t = true := by
  induction s with
  | nil =>
    obtain ⟨c, t, rfl⟩ := List.exists_cons_of_ne_nil ht
    exact (Bool.and_eq_true_iff.mp h).1
  | cons c s ih => exact ih (Bool.and_eq_true_iff.mp h).2

theorem avoids_of_forall (h : ∀ d ∈ t, eitherCase c d = false) : avoids (c :: u) t = true := by
  induction t with
  | nil => rfl
  | cons d t ih =>
    rw [avoids, differs, h d (by simp), ih fun e he => h e (by simp [he])]
    rfl

theorem ends_literalEitherCase_eq_nil (h : differs u t = true) :
    (literalEitherCase u).ends ⟨⟨before, t⟩, width, groups⟩ = [] := by
  have hrun : (literalEitherCase u).run ⟨⟨before, t⟩, width, groups⟩ some = none := by
    fun_induction differs u t generalizing before width with
    | case1 c u d t ih =>
      rw [run_literalEitherCase_cons_cons]
      cases hd : eitherCase c d with
      | false => rfl
      | true =>
        rw [hd] at h
        rw [if_pos rfl]
        exact ih (by simpa using h)
    | case2 => cases h
  rwa [run_some, List.head?_eq_none_iff] at hrun

theorem ends_literal_eq_nil_of_differs (h : differs u t = true) :
    (literal u).ends ⟨⟨before, t⟩, width, groups⟩ = [] := by
  have hrun : (literal u).run ⟨⟨before, t⟩, width, groups⟩ some = none := by
    fun_induction differs u t generalizing before width with
    | case1 c u d t ih =>
      rw [run_literal_cons_cons]
      split
      · rename_i hd
        rw [hd, eitherCase_self] at h
        exact ih (by simpa using h)
      · rfl
    | case2 => cases h
  rwa [run_some, List.head?_eq_none_iff] at hrun

theorem failsOver_of_avoids
    (hpattern : ∀ before t, differs u t = true → pattern.at? ⟨before, t⟩ = none)
    (h : avoids u t = true) (rest : Text) : pattern.FailsOver t rest := by
  induction t with
  | nil => trivial
  | cons c t ih =>
    rw [avoids, Bool.and_eq_true] at h
    exact ⟨fun before => hpattern before _ (differs_append h.1 rest), ih h.2⟩

end Openings

end Search

end CanvasPage.Pattern
