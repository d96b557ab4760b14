import CanvasPage.Pattern.Match
import Mathlib.Data.List.Basic

namespace CanvasPage.Pattern

variable {α : Type} {k : Progress → Option α} {p q : Progress}

/-- What the preferred match that `k` accepts gives. -/
def run (pattern : Pattern) (p : Progress) (k : Progress → Option α) : Option α :=
  (pattern.ends p).findSome? k

theorem run_eq_none {pattern : Pattern} (h : ∀ q ∈ pattern.ends p, k q = none) :
    pattern.run p k = none :=
  List.findSome?_eq_none_iff.mpr h

theorem run_of_ends_eq_nil {pattern : Pattern} (h : pattern.ends p = []) :
    pattern.run p k = none := by
  rw [run, h, List.findSome?_nil]

theorem run_some (pattern : Pattern) (p : Progress) :
    pattern.run p some = (pattern.ends p).head? := by
  rw [run]
  cases pattern.ends p with
  | nil => rfl
  | cons q qs => rfl

section Clauses

theorem run_empty (p : Progress) (k : Progress → Option α) : empty.run p k = k p := by
  rw [run, ends, List.findSome?_singleton]

theorem run_one_cons (test : Char → Bool) (before : Text) (c : Char) (rest : Text) (width : Nat)
    (groups : List (Nat × Capture)) (k : Progress → Option α) :
    (one test).run ⟨⟨before, c :: rest⟩, width, groups⟩ k =
      if test c then k ⟨⟨c :: before, rest⟩, width + 1, groups⟩ else none := by
  rw [run, ends]
  dsimp only
  split
  · rw [List.findSome?_singleton, Progress.take]
  · rfl

theorem run_one_nil (test : Char → Bool) (before : Text) (width : Nat)
    (groups : List (Nat × Capture)) (k : Progress → Option α) :
    (one test).run ⟨⟨before, []⟩, width, groups⟩ k = none := rfl

theorem findSome?_flatMap {β γ : Type} (f : β → List γ) (g : γ → Option α) (l : List β) :
    (l.flatMap f).findSome? g = l.findSome? fun b => (f b).findSome? g := by
  induction l with
  | nil => rfl
  | cons b l ih =>
    rw [List.flatMap_cons, List.findSome?_append, ih, List.findSome?_cons]
    cases (f b).findSome? g <;> rfl

theorem run_append (first second : Pattern) (p : Progress) (k : Progress → Option α) :
    (first ++ second).run p k = first.run p fun q => second.run q k := by
  show (seq first second).run p k = _
  rw [run, ends, findSome?_flatMap]
  rfl

theorem ends_append_eq_nil {first : Pattern} (h : first.ends p = []) (second : Pattern) :
    (first ++ second).ends p = [] := by
  show (seq first second).ends p = []
  rw [ends, h, List.flatMap_nil]

theorem run_alt (first second : Pattern) (p : Progress) (k : Progress → Option α) :
    (alt first second).run p k = (first.run p k).or (second.run p k) := by
  rw [run, ends, List.findSome?_append]
  rfl

theorem run_optional (pattern : Pattern) (p : Progress) (k : Progress → Option α) :
    (optional pattern).run p k = (pattern.run p k).or (k p) := by
  rw [optional, run_alt, run_empty]

theorem run_optional_skip {pattern : Pattern} (h : pattern.ends p = []) :
    (optional pattern).run p k = k p := by
  rw [run_optional, run_of_ends_eq_nil h, Option.none_or]

theorem run_group (index : Nat) (body : Pattern) (p : Progress) (k : Progress → Option α) :
    (group index body).run p k = body.run p fun q => k (q.close index p) := by
  rw [run, ends, List.findSome?_map]
  rfl

theorem run_wordBoundary (h : p.cursor.atWordBoundary = true) (k : Progress → Option α) :
    wordBoundary.run p k = k p := by
  rw [run, ends, if_pos h, List.findSome?_singleton]

theorem atWordBoundary_start {before rest : Text} {c : Char}
    (hbefore : ∀ d ∈ before.head?, Text.isWordChar d = false) (hc : Text.isWordChar c = true) :
    Cursor.atWordBoundary ⟨before, c :: rest⟩ = true := by
  have hnone : before.head?.any Text.isWordChar = false := by
    cases h : before.head? with
    | none => rfl
    | some d => exact hbefore d h
  simp [Cursor.atWordBoundary, hnone, hc]

theorem atWordBoundary_stop {before rest : Text} {c d : Char} (hc : Text.isWordChar c = true)
    (hd : Text.isWordChar d = false) : Cursor.atWordBoundary ⟨c :: before, d :: rest⟩ = true := by
  simp [Cursor.atWordBoundary, hc, hd]

theorem run_inputEnd (h : p.cursor.after = []) (k : Progress → Option α) :
    inputEnd.run p k = k p := by
  rw [run, ends, if_pos (List.isEmpty_iff.mpr h), List.findSome?_singleton]

end Clauses

theorem width_add_length_of_mem_ends {pattern : Pattern} (h : q ∈ pattern.ends p) :
    q.width + q.cursor.after.length = p.width + p.cursor.after.length := by
  have hwidth := width_of_mem_ends pattern p q h
  have hwhole := congrArg List.length (whole_of_mem_ends pattern p q h)
  simp only [Cursor.whole, List.length_append, List.length_reverse] at hwhole
  omega

section Repetition

variable {body : Progress → List Progress} {greedy : Bool}

theorem foldr_eq_flatMap_append {again : Progress → List Progress → List Progress}
    {f : Progress → List Progress} (h : ∀ q others, again q others = f q ++ others)
    (qs others : List Progress) : qs.foldr again others = qs.flatMap f ++ others := by
  induction qs with
  | nil => rfl
  | cons q qs ih => rw [List.foldr_cons, ih, h, List.flatMap_cons, List.append_assoc]

theorem rounds_append (ahead : Text) (p : Progress) (others : List Progress) :
    rounds body greedy ahead p others = rounds body greedy ahead p [] ++ others := by
  induction ahead generalizing p others with
  | nil => rfl
  | cons _ ahead ih =>
    have hagain : ∀ q others : _,
        (if p.width < q.width then rounds body greedy ahead q others else others) =
          (if p.width < q.width then rounds body greedy ahead q [] else []) ++ others := by
      intro q others
      split
      · exact ih q others
      · rfl
    cases greedy with
    | true => simp only [rounds, if_true, foldr_eq_flatMap_append hagain, List.append_assoc,
        List.singleton_append]
    | false => simp only [rounds, Bool.false_eq_true, if_false, foldr_eq_flatMap_append hagain,
        List.append_nil, List.cons_append]

theorem rounds_cons (c : Char) (ahead : Text) (p : Progress) :
    rounds body greedy (c :: ahead) p [] =
      if greedy then
        ((body p).flatMap fun q => if p.width < q.width then rounds body greedy ahead q [] else [])
          ++ [p]
      else p :: (body p).flatMap fun q =>
        if p.width < q.width then rounds body greedy ahead q [] else [] := by
  have hagain : ∀ q others : _,
      (if p.width < q.width then rounds body greedy ahead q others else others) =
        (if p.width < q.width then rounds body greedy ahead q [] else []) ++ others := by
    intro q others
    split
    · exact rounds_append ahead q others
    · rfl
  cases greedy with
  | true => simp only [rounds, if_true, foldr_eq_flatMap_append hagain]
  | false => simp only [rounds, Bool.false_eq_true, if_false, foldr_eq_flatMap_append hagain,
      List.append_nil]

section Fuel

variable (hbody : ∀ p, ∀ q ∈ body p,
  q.width + q.cursor.after.length = p.width + p.cursor.after.length)

include hbody

theorem rounds_of_length_eq_zero (ahead : Text) {p : Progress}
    (h : p.cursor.after.length = 0) : rounds body greedy ahead p [] = [p] := by
  cases ahead with
  | nil => rfl
  | cons c ahead =>
    have hnone : ((body p).flatMap fun q =>
        if p.width < q.width then rounds body greedy ahead q [] else []) = [] := by
      rw [List.flatMap_eq_nil_iff]
      intro q hq
      have := hbody p q hq
      rw [if_neg (by omega)]
    rw [rounds_cons, hnone]
    cases greedy <;> rfl

theorem rounds_ahead (ahead ahead' : Text) (p : Progress)
    (h : p.cursor.after.length ≤ ahead.length) (h' : p.cursor.after.length ≤ ahead'.length) :
    rounds body greedy ahead p [] = rounds body greedy ahead' p [] := by
  induction ahead generalizing ahead' p with
  | nil =>
    have hzero : p.cursor.after.length = 0 := by simpa using h
    rw [rounds_of_length_eq_zero hbody _ hzero, rounds_of_length_eq_zero hbody _ hzero]
  | cons c ahead ih =>
    cases ahead' with
    | nil =>
      have hzero : p.cursor.after.length = 0 := by simpa using h'
      rw [rounds_of_length_eq_zero hbody _ hzero, rounds_of_length_eq_zero hbody _ hzero]
    | cons d ahead' =>
      have hrounds : ∀ q ∈ body p,
          (if p.width < q.width then rounds body greedy ahead q [] else []) =
            if p.width < q.width then rounds body greedy ahead' q [] else [] := by
        intro q hq
        have hsum := hbody p q hq
        simp only [List.length_cons] at h h'
        split
        · exact ih ahead' q (by omega) (by omega)
        · rfl
      rw [rounds_cons, rounds_cons, List.flatMap_congr hrounds]

end Fuel

end Repetition

theorem ends_star (greedy : Bool) (body : Pattern) (p : Progress) :
    (star greedy body).ends p =
      if greedy then
        ((body.ends p).flatMap fun q =>
          if p.width < q.width then (star greedy body).ends q else []) ++ [p]
      else p :: (body.ends p).flatMap fun q =>
        if p.width < q.width then (star greedy body).ends q else [] := by
  have hbody : ∀ p, ∀ q ∈ body.ends p,
      q.width + q.cursor.after.length = p.width + p.cursor.after.length :=
    fun _ _ hq => width_add_length_of_mem_ends hq
  have hahead : rounds body.ends greedy p.cursor.after p [] =
      rounds body.ends greedy (' ' :: p.cursor.after) p [] :=
    rounds_ahead hbody _ _ p (Nat.le_refl _) (Nat.le_succ _)
  have hrounds : ∀ q ∈ body.ends p,
      (if p.width < q.width then rounds body.ends greedy p.cursor.after q [] else []) =
        if p.width < q.width then (star greedy body).ends q else [] := by
    intro q hq
    have hsum := hbody p q hq
    split
    · rw [ends, rounds_ahead hbody p.cursor.after q.cursor.after q (by omega) (Nat.le_refl _)]
    · rfl
  rw [ends, hahead, rounds_cons, List.flatMap_congr hrounds]

theorem findSome?_ite (test : Prop) [Decidable test] (l : List Progress) :
    (if test then l else []).findSome? k = if test then l.findSome? k else none := by
  split <;> rfl

theorem run_many (body : Pattern) (p : Progress) (k : Progress → Option α) :
    (many body).run p k =
      (body.run p fun q => if p.width < q.width then (many body).run q k else none).or (k p) := by
  rw [run, many, ends_star, if_pos rfl, List.findSome?_append, findSome?_flatMap,
    List.findSome?_singleton, run]
  simp only [findSome?_ite]
  rfl

theorem run_lazyMany (body : Pattern) (p : Progress) (k : Progress → Option α) :
    (lazyMany body).run p k =
      (k p).or
        (body.run p fun q => if p.width < q.width then (lazyMany body).run q k else none) := by
  rw [run, lazyMany, ends_star, if_neg Bool.false_ne_true, List.findSome?_cons, findSome?_flatMap,
    run]
  simp only [findSome?_ite]
  cases k p <;> rfl

variable {before t u rest : Text} {width : Nat}
  {groups : List (Nat × Capture)} {test : Char → Bool}

theorem run_many_one_cons {c : Char} (h : test c = true) :
    (many (one test)).run ⟨⟨before, c :: rest⟩, width, groups⟩ k =
      ((many (one test)).run ⟨⟨c :: before, rest⟩, width + 1, groups⟩ k).or
        (k ⟨⟨before, c :: rest⟩, width, groups⟩) := by
  rw [run_many, run_one_cons, if_pos h, if_pos (Nat.lt_succ_self width)]

theorem forall_mem_head?_cons {c : Char} (h : test c = false) (rest : Text) :
    ∀ d ∈ (c :: rest).head?, test d = false := by
  rintro d ⟨⟩
  exact h

theorem run_many_one_stop (h : ∀ c ∈ rest.head?, test c = false) :
    (many (one test)).run ⟨⟨before, rest⟩, width, groups⟩ k =
      k ⟨⟨before, rest⟩, width, groups⟩ := by
  cases rest with
  | nil => rw [run_many, run_one_nil, Option.none_or]
  | cons c rest =>
    have hc : ¬ test c = true := by simp [h c rfl]
    rw [run_many, run_one_cons, if_neg hc, Option.none_or]

theorem run_many_one_longest {a : α} (hu : ∀ c ∈ u, test c = true)
    (hrest : ∀ c ∈ rest.head?, test c = false)
    (hk : k ⟨⟨u.reverse ++ before, rest⟩, width + u.length, groups⟩ = some a) :
    (many (one test)).run ⟨⟨before, u ++ rest⟩, width, groups⟩ k = some a := by
  induction u generalizing before width with
  | nil => rw [List.nil_append, run_many_one_stop hrest, ← hk]; rfl
  | cons c u ih =>
    rw [List.cons_append, run_many_one_cons (hu c (by simp)),
      ih (fun d hd => hu d (by simp [hd])), Option.some_or]
    rw [← hk, List.reverse_cons, List.append_assoc, List.singleton_append, List.length_cons]
    congr 2
    omega

theorem run_many_anyChar {a : α}
    (hk : k ⟨⟨t.reverse ++ before, []⟩, width + t.length, groups⟩ = some a) :
    (many anyChar).run ⟨⟨before, t⟩, width, groups⟩ k = some a := by
  have hrun : (many anyChar).run ⟨⟨before, t ++ []⟩, width, groups⟩ k = some a :=
    run_many_one_longest (fun _ _ => rfl) (by simp) hk
  rwa [List.append_nil] at hrun

theorem run_lazyMany_of_some {p : Progress} {body : Pattern} {a : α} (h : k p = some a) :
    (lazyMany body).run p k = some a := by
  rw [run_lazyMany, h, Option.some_or]

theorem run_lazyMany_one_skip (hu : ∀ c ∈ u, test c = true)
    (hk : ∀ v w, u = v ++ w → w ≠ [] →
      k ⟨⟨v.reverse ++ before, w ++ rest⟩, width + v.length, groups⟩ = none) :
    (lazyMany (one test)).run ⟨⟨before, u ++ rest⟩, width, groups⟩ k =
      (lazyMany (one test)).run ⟨⟨u.reverse ++ before, rest⟩, width + u.length, groups⟩ k := by
  induction u generalizing before width with
  | nil => rfl
  | cons c u ih =>
    have hhere : k ⟨⟨before, c :: (u ++ rest)⟩, width, groups⟩ = none :=
      hk [] (c :: u) rfl (by simp)
    have hlater : ∀ v w, u = v ++ w → w ≠ [] →
        k ⟨⟨v.reverse ++ c :: before, w ++ rest⟩, width + 1 + v.length, groups⟩ = none := by
      intro v w huv hw
      have := hk (c :: v) w (by rw [huv, List.cons_append]) hw
      rw [List.reverse_cons, List.append_assoc, List.singleton_append, List.length_cons] at this
      rwa [Nat.add_assoc, Nat.add_comm 1]
    rw [List.cons_append, run_lazyMany, hhere, Option.none_or, run_one_cons,
      if_pos (hu c (by simp)), if_pos (Nat.lt_succ_self width),
      ih (fun d hd => hu d (by simp [hd])) hlater]
    rw [List.reverse_cons, List.append_assoc, List.singleton_append, List.length_cons,
      Nat.add_assoc, Nat.add_comm 1]

section Blanks

theorem run_blanks_stop (h : ∀ c ∈ rest.head?, Text.isBlank c = false) :
    blanks.run ⟨⟨before, rest⟩, width, groups⟩ k = k ⟨⟨before, rest⟩, width, groups⟩ :=
  run_many_one_stop h

theorem run_blanks_longest {a : α} (hu : ∀ c ∈ u, Text.isBlank c = true)
    (hrest : ∀ c ∈ rest.head?, Text.isBlank c = false)
    (hk : k ⟨⟨u.reverse ++ before, rest⟩, width + u.length, groups⟩ = some a) :
    blanks.run ⟨⟨before, u ++ rest⟩, width, groups⟩ k = some a :=
  run_many_one_longest hu hrest hk

theorem run_blanks1_eq_none (h : ∀ c ∈ rest.head?, Text.isBlank c = false) :
    blanks1.run ⟨⟨before, rest⟩, width, groups⟩ k = none := by
  rw [blanks1, many1, run_append]
  cases rest with
  | nil => exact run_one_nil _ _ _ _ _
  | cons c rest =>
    rw [blank, run_one_cons, h c rfl, if_neg Bool.false_ne_true]

theorem run_blanks1_cons (c : Char) (rest : Text) :
    blanks1.run ⟨⟨before, c :: rest⟩, width, groups⟩ k =
      if Text.isBlank c then blanks.run ⟨⟨c :: before, rest⟩, width + 1, groups⟩ k else none := by
  rw [blanks1, many1, run_append, blank, run_one_cons]
  rfl

end Blanks

end CanvasPage.Pattern
