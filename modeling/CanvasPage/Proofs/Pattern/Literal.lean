import CanvasPage.Proofs.Pattern.Run

namespace CanvasPage.Pattern

variable {α : Type} {k : Progress → Option α} {before t u rest : Text} {width : Nat}
  {groups : List (Nat × Capture)}

section Literals

theorem run_literal_nil (p : Progress) (k : Progress → Option α) : (literal []).run p k = k p :=
  run_empty p k

theorem run_literal_cons_cons (c d : Char) (u : Text) :
    (literal (c :: u)).run ⟨⟨before, d :: rest⟩, width, groups⟩ k =
      if d = c then (literal u).run ⟨⟨d :: before, rest⟩, width + 1, groups⟩ k else none := by
  cases u with
  | nil => simp only [literal, run_one_cons, run_empty, beq_iff_eq]
  | cons e u => simp only [literal, run_append, run_one_cons, beq_iff_eq]

theorem run_literal_singleton (c : Char) :
    (literal [c]).run ⟨⟨before, c :: rest⟩, width, groups⟩ k =
      k ⟨⟨c :: before, rest⟩, width + 1, groups⟩ := by
  rw [run_literal_cons_cons, if_pos rfl, run_literal_nil]

theorem run_literal_cons_nil (c : Char) (u : Text) :
    (literal (c :: u)).run ⟨⟨before, []⟩, width, groups⟩ k = none := by
  cases u with
  | nil => rw [literal, run_one_nil]
  | cons e u => simp only [literal, run_append, run_one_nil]

theorem run_literal_append (u : Text) :
    (literal u).run ⟨⟨before, u ++ rest⟩, width, groups⟩ k =
      k ⟨⟨u.reverse ++ before, rest⟩, width + u.length, groups⟩ := by
  induction u generalizing before width with
  | nil => exact run_empty _ _
  | cons c u ih =>
    rw [List.cons_append, run_literal_cons_cons, if_pos rfl, ih, List.reverse_cons,
      List.append_assoc, List.singleton_append, List.length_cons, Nat.add_assoc, Nat.add_comm 1]

theorem run_literal_eq_none
    (h : ∀ r, t = u ++ r → k ⟨⟨u.reverse ++ before, r⟩, width + u.length, groups⟩ = none) :
    (literal u).run ⟨⟨before, t⟩, width, groups⟩ k = none := by
  induction u generalizing before t width with
  | nil => rw [run_literal_nil]; exact h t rfl
  | cons c u ih =>
    cases t with
    | nil => exact run_literal_cons_nil c u
    | cons d t =>
      rw [run_literal_cons_cons]
      split
      · rename_i hd
        subst hd
        apply ih
        intro r htr
        have := h r (by rw [htr, List.cons_append])
        rw [List.reverse_cons, List.append_assoc, List.singleton_append, List.length_cons] at this
        rwa [Nat.add_assoc, Nat.add_comm 1]
      · rfl

theorem ends_literal_eq_nil {c : Char} (hu : u.head? = some c) (h : rest.head? ≠ some c) :
    (literal u).ends ⟨⟨before, rest⟩, width, groups⟩ = [] := by
  have hnone : (literal u).run ⟨⟨before, rest⟩, width, groups⟩ some = none := by
    refine run_literal_eq_none fun r hr => absurd ?_ h
    rw [hr, List.head?_append, hu, Option.some_or]
  rwa [run_some, List.head?_eq_none_iff] at hnone

theorem run_literalEitherCase_cons_cons (c d : Char) (u : Text) :
    (literalEitherCase (c :: u)).run ⟨⟨before, d :: rest⟩, width, groups⟩ k =
      if eitherCase c d then
        (literalEitherCase u).run ⟨⟨d :: before, rest⟩, width + 1, groups⟩ k
      else none := by
  cases u with
  | nil => simp only [literalEitherCase, run_one_cons, run_empty]
  | cons e u => simp only [literalEitherCase, run_append, run_one_cons]

theorem eitherCase_self (c : Char) : eitherCase c c = true := by
  simp [eitherCase]

theorem isAsciiLetter_ofNat :
    ∀ n < 91, 65 ≤ n → Text.isAsciiLetter (Char.ofNat (n + 32)) = true := by
  decide

theorem isAsciiLetter_toAsciiLower {d : Char} (h : Text.toAsciiLower d ≠ d) :
    Text.isAsciiLetter (Text.toAsciiLower d) = true := by
  by_cases hupper : (65 ≤ d.toNat && d.toNat ≤ 90) = true
  · rw [Text.toAsciiLower, if_pos hupper]
    rw [Bool.and_eq_true, decide_eq_true_eq, decide_eq_true_eq] at hupper
    exact isAsciiLetter_ofNat d.toNat (Nat.lt_succ_of_le hupper.2) hupper.1
  · exact absurd (by rw [Text.toAsciiLower, if_neg hupper]) h

theorem eq_of_eitherCase {c d : Char} (hc : Text.isAsciiLetter c = false)
    (h : eitherCase c d = true) : d = c := by
  have hlower : Text.toAsciiLower c = c := by
    by_contra hne
    have hletter := isAsciiLetter_toAsciiLower hne
    have hupper : ¬(65 ≤ c.toNat && c.toNat ≤ 90) = true := by
      intro hupper
      simp [Text.isAsciiLetter, hupper] at hc
    exact hne (by rw [Text.toAsciiLower, if_neg hupper])
  have hs : c ≠ 's' := by
    rintro rfl
    exact absurd hc (by decide)
  have hk : c ≠ 'k' := by
    rintro rfl
    exact absurd hc (by decide)
  simp only [eitherCase, hlower, beq_false_of_ne hs, beq_false_of_ne hk, Bool.false_and,
    Bool.or_false, beq_iff_eq] at h
  by_contra hne
  have hletter := isAsciiLetter_toAsciiLower (h ▸ Ne.symm hne)
  rw [← h, hc] at hletter
  cases hletter

theorem run_literalEitherCase_append (u : Text) :
    (literalEitherCase u).run ⟨⟨before, u ++ rest⟩, width, groups⟩ k =
      k ⟨⟨u.reverse ++ before, rest⟩, width + u.length, groups⟩ := by
  induction u generalizing before width with
  | nil => exact run_empty _ _
  | cons c u ih =>
    rw [List.cons_append, run_literalEitherCase_cons_cons, if_pos (eitherCase_self c), ih,
      List.reverse_cons, List.append_assoc, List.singleton_append, List.length_cons,
      Nat.add_assoc, Nat.add_comm 1]

end Literals

section Alternatives

variable {p : Progress} {ps : List Pattern}

theorem run_anyOf_nil (p : Progress) (k : Progress → Option α) : (anyOf []).run p k = none := by
  apply run_eq_none
  intro q hq
  rw [anyOf, ends] at hq
  split at hq <;> simp at hq

theorem run_anyOf_cons (pattern : Pattern) (ps : List Pattern) (p : Progress)
    (k : Progress → Option α) :
    (anyOf (pattern :: ps)).run p k = (pattern.run p k).or ((anyOf ps).run p k) := by
  cases ps with
  | nil =>
    rw [run_anyOf_nil, Option.or_none, anyOf]
  | cons next ps => rw [anyOf, run_alt]; simp

theorem run_anyOf_eq_none (h : ∀ pattern ∈ ps, pattern.run p k = none) :
    (anyOf ps).run p k = none := by
  induction ps with
  | nil => exact run_anyOf_nil p k
  | cons pattern ps ih =>
    rw [run_anyOf_cons, h pattern (by simp), Option.none_or, ih fun q hq => h q (by simp [hq])]

theorem run_anyOf_of_mem {pattern : Pattern} {a : α} (hmem : pattern ∈ ps)
    (hrun : pattern.run p k = some a)
    (h : ∀ other ∈ ps, other.run p k = none ∨ other.run p k = some a) :
    (anyOf ps).run p k = some a := by
  induction ps with
  | nil => simp at hmem
  | cons first ps ih =>
    rw [run_anyOf_cons]
    rcases h first (by simp) with hnone | hsome
    · rcases List.mem_cons.mp hmem with rfl | hmem
      · rw [hrun] at hnone
        cases hnone
      · rw [hnone, Option.none_or, ih hmem fun other ho => h other (by simp [ho])]
    · rw [hsome, Option.some_or]

end Alternatives

end CanvasPage.Pattern
