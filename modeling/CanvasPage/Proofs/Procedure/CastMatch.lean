import CanvasPage.Proofs.Pattern.Occurrence
import CanvasPage.Proofs.Pattern.Run
import CanvasPage.Proofs.Procedure.CastTail

namespace CanvasPage.CastType

open Pattern Script Substitution

variable {α : Type} {k : Progress → Option α} {T : CastType} {before rest t x y : Text}
  {width n : Nat} {groups : List (Nat × Capture)} {a : α} {s : Substitution}

theorem run_brackets (hrest : rest.head? ≠ some '[')
    (hk : k ⟨⟨(brackets n).reverse ++ before, rest⟩, width + (brackets n).length, groups⟩ = some a) :
    (many "[]").run ⟨⟨before, brackets n ++ rest⟩, width, groups⟩ k = some a := by
  induction n generalizing before width with
  | zero =>
    have hnone : (literal "[]").ends ⟨⟨before, brackets 0 ++ rest⟩, width, groups⟩ = [] :=
      ends_literal_eq_nil (c := '[') rfl hrest
    rw [run_many, run_of_ends_eq_nil hnone, Option.none_or]
    exact hk
  | succ n ih =>
    have hsplit : brackets (n + 1) ++ rest = ("[]" : Text) ++ (brackets n ++ rest) := rfl
    rw [hsplit, run_many, run_literal_append, if_pos (Nat.lt_add_of_pos_right (by decide)), ih,
      Option.some_or]
    rw [← hk, brackets, List.reverse_cons, List.reverse_cons, List.length_cons, List.length_cons]
    simp only [List.append_assoc, List.singleton_append]
    congr 2
    exact Nat.add_right_comm _ _ _

theorem not_prefix_builtins :
    ∀ name ∈ builtins, ∀ other ∈ builtins, other ≠ name → ¬ other <+: name ∧ ¬ name <+: other := by
  decide

theorem run_arguments {arguments : Option Text} (ha : ∀ a ∈ arguments, hasNoAngle a = true)
    (hrest : rest.head? ≠ some '<')
    (hk : k ⟨⟨(argumentText arguments).reverse ++ before, rest⟩,
      width + (argumentText arguments).length, groups⟩ = some a) :
    (optional ("<" ++ many (noneOf "<>") ++ ">")).run
      ⟨⟨before, argumentText arguments ++ rest⟩, width, groups⟩ k = some a := by
  have hless : ("<" : Text) = ['<'] := rfl
  have hgreater : (">" : Text) = ['>'] := rfl
  cases arguments with
  | none =>
    have hnone : ("<" ++ many (noneOf "<>") ++ ">" : Pattern).ends
        ⟨⟨before, argumentText none ++ rest⟩, width, groups⟩ = [] :=
      ends_append_eq_nil (ends_append_eq_nil (ends_literal_eq_nil rfl hrest) _) _
    rw [run_optional_skip hnone]
    exact hk
  | some v =>
    obtain ⟨hv, hv'⟩ := not_mem_of_hasNoAngle (ha v rfl)
    have htest : ∀ c ∈ v, (!("<>" : Text).contains c) = true := by
      intro c hc
      have hne : c ≠ '<' ∧ c ≠ '>' := ⟨fun h => hv (h ▸ hc), fun h => hv' (h ▸ hc)⟩
      simpa using hne
    rw [run_optional, argumentText, List.cons_append, List.append_assoc, run_append, run_append,
      hless, run_literal_singleton]
    refine Option.or_eq_some_iff.mpr (.inl ?_)
    refine run_many_one_longest htest (forall_mem_head?_cons (by decide) _) ?_
    rw [hgreater, List.singleton_append, run_literal_singleton, ← hk, argumentText]
    simp only [List.reverse_cons, List.reverse_append, List.append_assoc, List.length_cons,
      List.length_append, List.singleton_append, List.reverse_nil, List.nil_append]
    congr 2
    simp only [List.length_nil]
    omega

theorem run_builtin {name : Text} (h : name ∈ builtins)
    (hk : k ⟨⟨name.reverse ++ before, rest⟩, width + name.length, groups⟩ = some a) :
    castType.run ⟨⟨before, name ++ rest⟩, width, groups⟩ k = some a := by
  have hsplit : castType = anyOf ((one isCapital ++ many pathChar ++
      optional ("<" ++ many (noneOf "<>") ++ ">")) :: builtins.map literal) := rfl
  have hsmall : ∀ name ∈ builtins, ∃ c u, name = c :: u ∧ isCapital c = false := by
    simp only [builtins, List.forall_mem_cons]
    exact ⟨⟨_, _, rfl, by decide⟩, ⟨_, _, rfl, by decide⟩, ⟨_, _, rfl, by decide⟩,
      ⟨_, _, rfl, by decide⟩, ⟨_, _, rfl, by decide⟩, ⟨_, _, rfl, by decide⟩, by simp⟩
  have hrun : ∀ other ∈ builtins,
      (literal other).run ⟨⟨before, name ++ rest⟩, width, groups⟩ k = none ∨
        (literal other).run ⟨⟨before, name ++ rest⟩, width, groups⟩ k = some a := by
    intro other hother
    by_cases hne : other = name
    · exact .inr (by rw [hne, run_literal_append, hk])
    · refine .inl (run_literal_eq_none fun r hr => ?_)
      obtain ⟨hbegins, hbegins'⟩ := not_prefix_builtins name h other hother hne
      rcases List.append_eq_append_iff.mp hr with ⟨u, hu, -⟩ | ⟨u, hu, -⟩
      · exact absurd ⟨u, hu.symm⟩ hbegins'
      · exact absurd ⟨u, hu.symm⟩ hbegins
  rw [hsplit, run_anyOf_cons, run_append, run_append]
  obtain ⟨c, u, rfl, hc⟩ := hsmall name h
  rw [List.cons_append, run_one_cons, if_neg (by simp [hc]), Option.none_or, ← List.cons_append]
  have hmem : literal (c :: u) ∈ builtins.map literal := List.mem_map_of_mem h
  refine run_anyOf_of_mem hmem ?_ ?_
  · rw [run_literal_append, hk]
  · simpa using hrun

theorem run_named {name : Text} {arguments : Option Text} (h : isTypeName name = true)
    (ha : ∀ a ∈ arguments, hasNoAngle a = true)
    (hpath : ∀ c ∈ rest.head?, Substitution.isPathChar c = false) (hrest : rest.head? ≠ some '<')
    (hk : k ⟨⟨(name ++ argumentText arguments).reverse ++ before, rest⟩,
      width + (name ++ argumentText arguments).length, groups⟩ = some a) :
    castType.run ⟨⟨before, (name ++ argumentText arguments) ++ rest⟩, width, groups⟩ k = some a := by
  have hsplit : castType = anyOf ((one isCapital ++ many pathChar ++
      optional ("<" ++ many (noneOf "<>") ++ ">")) :: builtins.map literal) := rfl
  cases name with
  | nil => cases h
  | cons c name =>
    rw [isTypeName, Bool.and_eq_true, List.all_eq_true] at h
    have hstop : ∀ c ∈ (argumentText arguments ++ rest).head?,
        Substitution.isPathChar c = false := by
      cases arguments with
      | none => exact hpath
      | some v => exact forall_mem_head?_cons (by decide) _
    rw [hsplit, run_anyOf_cons, run_append, run_append, List.append_assoc, List.cons_append,
      run_one_cons, if_pos h.1]
    refine Option.or_eq_some_iff.mpr (.inl (run_many_one_longest h.2 hstop ?_))
    refine run_arguments ha hrest ?_
    rw [← hk]
    simp only [List.reverse_cons, List.reverse_append, List.append_assoc, List.cons_append,
      List.length_cons, List.length_append, List.nil_append]
    congr 2
    omega

theorem run_castType (hT : T.IsSupported)
    (hpath : ∀ c ∈ rest.head?, Substitution.isPathChar c = false) (hrest : rest.head? ≠ some '<')
    (hk : k ⟨⟨(T.name ++ argumentText T.arguments).reverse ++ before, rest⟩,
      width + (T.name ++ argumentText T.arguments).length, groups⟩ = some a) :
    castType.run ⟨⟨before, (T.name ++ argumentText T.arguments) ++ rest⟩, width, groups⟩ k =
      some a := by
  cases hT with
  | builtin h =>
    simp only [argumentText, List.append_nil] at hk ⊢
    exact run_builtin h hk
  | named h ha => exact run_named h ha hpath hrest hk

theorem at?_cast (hT : T.IsSupported) (before : Text) :
    ∃ o, Substitution.cast.pattern.at? ⟨before, (" as " ++ T.text) ++ [';']⟩ = some o ∧
      o.width = (" as " ++ T.text).length := by
  have hbrackets : ∀ c ∈ (brackets T.dimensions ++ [';']).head?,
      Substitution.isPathChar c = false ∧ c ≠ '<' := by
    cases T.dimensions with
    | zero => exact fun c hc => by obtain rfl := Option.some.inj hc; decide
    | succ n => exact fun c hc => by obtain rfl := Option.some.inj hc; decide
  have hname : ∀ c ∈ ((T.name ++ argumentText T.arguments) ++
      (brackets T.dimensions ++ [';'])).head?, Text.isBlank c = false := by
    obtain ⟨c, name, hname⟩ := List.exists_cons_of_ne_nil hT.name_ne_nil
    rw [hname]
    exact forall_mem_head?_cons (isQuiet_of_isPathChar (hT.isPathChar c (by simp [hname]))).2.2 _
  have hsplit : (" as " ++ T.text) ++ [';'] = ' ' :: ("as" ++ ' ' ::
      ((T.name ++ argumentText T.arguments) ++ (brackets T.dimensions ++ [';']))) := by
    have hpad : (" as " : Text) = [' ', 'a', 's', ' '] := rfl
    have has : ("as" : Text) = ['a', 's'] := rfl
    simp [text, hpad, has]
  have hrun : Substitution.cast.pattern.run (.start ⟨before, (" as " ++ T.text) ++ [';']⟩) some =
      some ⟨⟨(" as " ++ T.text).reverse ++ before, [';']⟩, (" as " ++ T.text).length, []⟩ := by
    rw [hsplit, Substitution.cast]
    simp only [run_append]
    have hletter : ∀ c ∈ (("as" : Text) ++ ' ' :: ((T.name ++ argumentText T.arguments) ++
        (brackets T.dimensions ++ [';']))).head?, Text.isBlank c = false :=
      forall_mem_head?_cons (by decide) _
    rw [Progress.start, run_blanks1_cons, if_pos (by decide), run_blanks_stop hletter,
      run_literal_append, run_blanks1_cons,
      if_pos (by decide), run_blanks_stop hname]
    refine run_castType hT (fun c hc => (hbrackets c hc).1) (fun h => (hbrackets _ h).2 rfl) ?_
    refine run_brackets (by decide) ?_
    simp [text]
    omega
  exact ⟨_, at?_of_run hrun (by simp), rfl⟩

theorem skipsOver_semicolon (before : Text) :
    Substitution.cast.pattern.SkipsOver before [';'] [] := by
  rintro x y w after gs hsplit hne heq - hread
  obtain ⟨ws, bs, T, rfl, hws, hblank, -⟩ := exists_type_of_reads_cast hread
  obtain ⟨b, ws, rfl⟩ := List.exists_cons_of_ne_nil hws
  obtain ⟨c, y, rfl⟩ := List.exists_cons_of_ne_nil hne
  have hc : c ∈ [';'] := by rw [hsplit]; simp
  obtain rfl : c = b := (List.cons.inj heq).1
  rw [List.mem_singleton.mp hc] at hblank
  exact absurd (List.all_eq_true.mp hblank ';' List.mem_cons_self) (by decide)

theorem replaceFrom_cast_tail (hT : T.IsSupported) (before : Text) :
    Substitution.cast.pattern.replaceFrom Substitution.cast.replacement 0 before T.tail = [';'] := by
  obtain ⟨o, hat, hwidth⟩ := at?_cast hT before
  have hsplit : T.tail = (" as " ++ T.text) ++ [';'] := (List.append_assoc _ _ _).symm
  rw [hsplit, replaceFrom_of_at? hat hwidth,
    replaceFrom_eq_self_of_skipsOver (skipsOver_semicolon _)]
  rfl

end CanvasPage.CastType
