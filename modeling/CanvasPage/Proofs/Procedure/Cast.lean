import CanvasPage.Proofs.Procedure.CastMatch
import CanvasPage.Proofs.Procedure.Depth
import CanvasPage.Proofs.Procedure.OpenDeclaration
import CanvasPage.Proofs.Procedure.Reflow

namespace CanvasPage

open Pattern Script Substitution

variable {s : Substitution} {x y z t u a : Text} {c : Char} {T : CastType}

namespace Substitution

theorem Edits.exists_operand {p q : Text} (hs : s ∈ beforeCast) (h : Edits s t p q)
    (hp : ∃ u c, p = u ++ [c] ∧ endsOperand c = true) :
    ∃ u c, q = u ++ [c] ∧ endsOperand c = true := by
  obtain ⟨u, c, hsplit, hc⟩ := hp
  cases h with
  | nil => exact absurd (congrArg List.length hsplit) (by simp)
  | @keep p q v d _ h =>
    obtain rfl : d = c := (List.cons.inj (List.append_inj' hsplit rfl).2).1
    exact ⟨q, d, rfl, hc⟩
  | @replace p q w v before after gs o _ _ hread hgroups h =>
    have hend : ∀ u' {d}, w = u' ++ [d] → endsOperand d = true := by
      rintro u' d rfl
      rw [← List.append_assoc] at hsplit
      obtain rfl : d = c := (List.cons.inj (List.append_inj' hsplit rfl).2).1
      exact hc
    have hsigns : ∀ d ∈ ("=;" : Text), endsOperand d = false := by decide
    cases isMatch_of_reads hs hread with
    | typed hw hd =>
      have hoperand := hend _ hw
      rw [hsigns _ hd] at hoperand
      cases hoperand
    | blockScoped =>
      exact ⟨q ++ (o.groupText 1 ++ "va"), 'r', by simp [blockScopedDeclaration], by decide⟩
    | spread => exact ⟨q ++ (o.groupText 1 ++ ".slice("), ')', by simp [arraySpreadCopy], by decide⟩
    | @construction u' hw => exact absurd (hend ('n' :: u') hw) (by decide)

/-- A text that ends in code, and there in an operand. -/
structure EndsInOperand (x : Text) : Prop where
  last : ∃ u c, x = u ++ [c] ∧ endsOperand c = true
  code : (State.start.run x).isCode = true

namespace EndsInOperand

theorem run_eq (hx : EndsInOperand x) : State.start.run x = .start := by
  have hcode := hx.code
  obtain ⟨u, c, rfl, hc⟩ := hx.last
  obtain ⟨hquiet, hbreak⟩ := isQuiet_of_endsOperand hc
  exact (role_of_isCode_run hquiet hbreak hcode none).2

theorem getLast?_ne (hx : EndsInOperand x) : x.getLast? ≠ some '/' := by
  obtain ⟨u, c, rfl, hc⟩ := hx.last
  rw [List.getLast?_concat]
  rintro ⟨⟩
  cases hc

theorem exists_endsInCode (hx : EndsInOperand x) :
    ∃ t, EndsInCode x t ∧ ∀ c ∈ t.getLast?, endsOperand c = true := by
  have hcode := hx.code
  obtain ⟨u, c, rfl, hc⟩ := hx.last
  obtain ⟨hquiet, hbreak⟩ := isQuiet_of_endsOperand hc
  obtain ⟨t, ht⟩ := Script.exists_endsInCode (role_of_isCode_run hquiet hbreak hcode none).1
  refine ⟨t, ht, fun d hd => ?_⟩
  obtain ⟨g, -, hsplit, -⟩ := ht.split
  have hlast := congrArg List.getLast? hsplit
  rw [List.getLast?_concat, List.getLast?_append_of_ne_nil _ ht.ne_nil] at hlast
  obtain rfl : c = d := Option.some.inj (hlast.trans hd)
  exact hc

protected theorem apply (hx : EndsInOperand x) (hs : s ∈ beforeCast) :
    EndsInOperand (s.apply x) := by
  refine ⟨(edits_apply s x).exists_operand hs hx.last, ?_⟩
  rw [((edits_apply s x).swaps (exchanges_of_mem_beforeCast hs)).reads_alike.1]
  exact hx.code

end EndsInOperand

section Border

theorem ne_of_replacement {s s' : Substitution}
    (h : s.replacement ⟨⟨[], []⟩, ⟨[], []⟩, 0, []⟩ ≠ s'.replacement ⟨⟨[], []⟩, ⟨[], []⟩, 0, []⟩) :
    s ≠ s' := by
  rintro rfl
  exact h rfl

/-- No declaration whose type the pass drops goes on from `x` into `z`. -/
def IsParted (s : Substitution) (x z : Text) : Prop :=
  s = typedDeclaration ∨ s = typedDeclarationWithoutValue →
    ¬ OpensDeclaration x ∨ s = typedDeclaration ∧ '=' ∉ z

theorem isParted_of_ne (h : s ≠ typedDeclaration) (h' : s ≠ typedDeclarationWithoutValue)
    (x z : Text) : IsParted s x z :=
  fun hs => hs.elim (absurd · h) (absurd · h')

theorem not_mem_semicolon_of_reads {before w after : Text} {gs : GroupTexts}
    (hs : s = arraySpreadCopy ∨ s = genericConstructorCall ∨ s = cast)
    (hread : s.pattern.Reads before w after gs) : ∀ c ∈ w.getLast?, c ∉ [';'] := by
  intro c hc
  rcases hs with rfl | rfl | rfl
  · obtain ⟨u, path, bs, rfl, -⟩ := exists_path_of_reads_arraySpreadCopy hread
    obtain rfl : ']' = c := by simpa [← List.append_assoc] using hc
    decide
  · obtain ⟨u, rfl, -⟩ := exists_of_reads_genericConstructorCall hread
    rw [← List.cons_append, List.getLast?_concat] at hc
    obtain rfl : '(' = c := Option.some.inj hc
    decide
  · obtain ⟨ws, bs, T, rfl, -, -, -, -, hT⟩ := CastType.exists_type_of_reads_cast hread
    obtain ⟨u, d, htext, hd⟩ := hT.exists_last
    have hsplit : ws ++ ("as" ++ (bs ++ T.text)) = (ws ++ ("as" ++ (bs ++ u))) ++ [d] := by
      simp [htext]
    rw [hsplit, List.getLast?_concat] at hc
    obtain rfl : d = c := Option.some.inj hc
    exact fun hmem => hd (List.mem_singleton.mp hmem)

theorem stopsBefore_operand (hx : EndsInCode x t) (hlast : ∀ c ∈ t.getLast?, endsOperand c = true)
    (hs : s ∈ beforeCast ∨ s = cast) (hz : StartsCast z ∨ z = [';'])
    (hparted : IsParted s x z) :
    s.pattern.StopsBefore [] t z := by
  obtain ⟨g, hsplit, hcode, hg⟩ := hx.exists_emitted
  have hlast' : ∀ x y, t = x ++ y → y ≠ [] → ∀ c ∈ y.getLast?, endsOperand c = true := by
    rintro x y rfl hy
    rwa [List.getLast?_append_of_ne_nil _ hy] at hlast
  have hheads : ∀ x y, t = x ++ y → y ≠ [] → HoldsHeads y z := by
    intro x y heq hy
    rcases hz with hz | rfl
    · exact hz.holdsHeads hy (hlast' x y heq hy)
    · exact holdsHeads_cons (by decide) (by decide) (by decide) _ _
  rw [hsplit] at hparted
  rcases hs with hs | rfl
  · simp only [beforeCast, List.mem_cons, List.not_mem_nil, or_false] at hs
    rcases hs with rfl | rfl | rfl | rfl | rfl
    · rcases hparted (.inl rfl) with hopen | ⟨-, hequals⟩
      · exact stopsBefore_typedDeclaration hopen hcode hg
          (fun c hc => isBlank_of_endsOperand (hlast c hc)) hheads
      · refine fun x y _ _ => staysIn_of_last fun w after gs hread c hc hmem => hequals ?_
        obtain ⟨u, _, _, rfl, -⟩ := exists_of_reads_typedDeclaration hread
        obtain rfl : '=' = c := by simpa using hc
        exact hmem
    · rcases hparted (.inr rfl) with hopen | ⟨heq, -⟩
      · exact stopsBefore_typedDeclarationWithoutValue hopen hcode hg hheads
      · exact absurd heq (ne_of_replacement (by decide))
    · intro x y heq hy
      rcases hz with hz | rfl
      · obtain ⟨n, u, rfl, -⟩ := hz.split
        exact staysIn_blockScopedDeclaration (by decide) hy
      · exact staysIn_blockScopedDeclaration (by decide) hy
    · intro x y heq hy
      rcases hz with hz | rfl
      · exact hz.staysIn_arraySpreadCopy hy (hlast' x y heq hy)
      · exact staysIn_of_last fun _ _ _ => not_mem_semicolon_of_reads (.inl rfl)
    · intro x y heq hy
      rcases hz with hz | rfl
      · exact hz.staysIn_genericConstructorCall hy (hlast' x y heq hy)
      · exact staysIn_of_last fun _ _ _ => not_mem_semicolon_of_reads (.inr (.inl rfl))
  · intro x y heq hy
    rcases hz with hz | rfl
    · exact hz.staysIn_cast hy (hlast' x y heq hy)
    · exact staysIn_of_last fun _ _ _ => not_mem_semicolon_of_reads (.inr (.inr rfl))

theorem EndsInOperand.apply_append (hx : EndsInOperand x) (hs : s ∈ beforeCast ∨ s = cast)
    (hz : StartsCast z ∨ z = [';'])
    (hparted : IsParted s x z)
    (hne : z ≠ []) (hcode : emitted .start z = [])
    (hfront : ∀ b, s.pattern.replaceFrom s.replacement 0 b z = s.pattern.replaceAll s.replacement z) :
    s.apply (x ++ z) = s.apply x ++ s.pattern.replaceAll s.replacement z := by
  obtain ⟨t, ht, hlast⟩ := hx.exists_endsInCode
  have hall : s ∈ all := by
    rcases hs with hs | rfl
    · exact mem_all_of_mem_beforeCast hs
    · simp [all]
  obtain ⟨hend, hnew⟩ := isOpenEnded_of_mem_all hall
  have hstops := stopsBefore_operand ht hlast hs hz hparted
  have hword : z.head?.any Text.isWordChar = false := by
    rcases hz with hz | rfl
    · obtain ⟨n, u, rfl, -⟩ := hz.split
      rfl
    · rfl
  rw [Substitution.apply_append ht hx.getLast?_ne hx.run_eq (segments_of_emitted hne hcode),
    apply_of_emitted hne hcode]
  rw [replaceAll, replaceFrom_append hend hword hnew hstops (Nat.zero_le _), hfront]
  rfl

end Border

end Substitution

namespace CastType

theorem apply_append_semicolon (hx : EndsInOperand x) (hs : s ∈ beforeCast ∨ s = Substitution.cast)
    (hparted : IsParted s x [';']) : s.apply (x ++ [';']) = s.apply x ++ [';'] := by
  have hskip : ∀ b, s.pattern.replaceFrom s.replacement 0 b [';'] = [';'] := by
    intro b
    rcases hs with hs | rfl
    · exact replaceFrom_eq_self_of_skipsOver (skipsOver_of_forall hs (by decide) b)
    · exact replaceFrom_eq_self_of_skipsOver (skipsOver_semicolon b)
  rw [hx.apply_append hs (.inr rfl) hparted (by simp) rfl
    (fun b => (hskip b).trans (hskip []).symm), replaceAll, hskip]

theorem replaceFrom_tail (hT : T.IsPlain) (hs : s ∈ beforeCast) (b : Text) :
    s.pattern.replaceFrom s.replacement 0 b T.tail = s.apply T.tail := by
  obtain ⟨hend, hnew⟩ := isOpenEnded_of_mem_all (mem_all_of_mem_beforeCast hs)
  rw [apply_of_emitted (tail_ne_nil T) hT.code, replaceAll, tail_eq]
  exact replaceFrom_front hend hnew (by simp) (skipsOver_name hT.supported hT.name_ne hs) b

theorem apply_append_tail (hx : EndsInOperand x) (hT : T.IsPlain) (hs : s ∈ beforeCast)
    (hparted : IsParted s x T.tail) : s.apply (x ++ T.tail) = s.apply x ++ s.apply T.tail := by
  have hfront := replaceFrom_tail hT hs
  rw [hx.apply_append (.inl hs) (.inl (startsCast_tail hT.supported)) hparted (tail_ne_nil T)
    hT.code (fun b => (hfront b).trans (hfront []).symm), replaceAll, hfront]

theorem apply_cast_tail (hx : EndsInOperand x) (hT : T.IsPlain) :
    Substitution.cast.apply (x ++ T.tail) = Substitution.cast.apply (x ++ [';']) := by
  have hdrop := replaceFrom_cast_tail hT.supported
  have hparted := isParted_of_ne (s := Substitution.cast) (ne_of_replacement (by decide))
    (ne_of_replacement (by decide)) x
  rw [apply_append_semicolon hx (.inr rfl) (hparted _),
    hx.apply_append (.inr rfl) (.inl (startsCast_tail hT.supported)) (hparted _) (tail_ne_nil T)
      hT.code (fun b => (hdrop b).trans (hdrop []).symm), replaceAll, hdrop]

section Passes

theorem not_mem_tail (hT : T.IsSupported) {c : Char} (hc : c ∈ ("=;\n" : Text))
    (hargs : ∀ a ∈ T.arguments, c ∉ a) : c ∉ " as " ++ T.text := by
  have hends : ∀ c ∈ ("=;\n" : Text), Substitution.isPathChar c = false ∧ c ∉ (" as <>[]" : Text) := by
    decide
  obtain ⟨hpath, hfixed⟩ := hends c hc
  have hpad : ∀ c ∈ (" as " : Text), c ∈ (" as <>[]" : Text) := by decide
  intro hmem
  rcases List.mem_append.mp hmem with h | h
  · exact hfixed (hpad c h)
  rcases List.mem_append.mp h with h | h
  · rw [hT.isPathChar c h] at hpath
    cases hpath
  rcases List.mem_append.mp h with h | h
  · cases ha : T.arguments with
    | none =>
      rw [ha] at h
      cases h
    | some a =>
      rw [ha, argumentText, List.mem_cons, List.mem_append, List.mem_singleton] at h
      rcases h with rfl | h | rfl
      · exact hfixed (by decide)
      · exact hargs a ha h
      · exact hfixed (by decide)
  · rcases mem_brackets c h with rfl | rfl
    · exact hfixed (by decide)
    · exact hfixed (by decide)

theorem typedDeclaration_skipsOver {s : Text} (before rest : Text) (h : '=' ∉ s ++ rest) :
    typedDeclaration.pattern.SkipsOver before s rest := by
  rintro x y w after gs rfl - heq - hread
  obtain ⟨u, _, _, rfl, -⟩ := exists_of_reads_typedDeclaration hread
  refine h ?_
  rw [List.append_assoc, heq]
  simp

theorem not_opensDeclaration_arguments (hT : T.IsPlain) {a a' before : Text} (ha : a ∈ T.arguments)
    (hopen : ¬ OpensDeclaration ('<' :: a)) (h : '<' :: a' =
      typedDeclaration.pattern.replaceFrom typedDeclaration.replacement 0 before ('<' :: a)) :
    ¬ OpensDeclaration ('<' :: a') := by
  obtain ⟨hend, hnew⟩ := isOpenEnded_of_mem_all (s := typedDeclaration) (by simp [all])
  have hskip : ∀ before, typedDeclaration.pattern.SkipsOver before ['<'] a := by
    rintro before x y w after gs hsplit hy heq - hread
    obtain ⟨_, _, _, -, -, hannotated, -⟩ := exists_of_reads_typedDeclaration hread
    obtain ⟨kw, v, rfl, hne, hpath, -⟩ := exists_word_of_isAnnotated hannotated
    obtain ⟨c, kw, rfl⟩ := List.exists_cons_of_ne_nil hne
    obtain ⟨d, y, rfl⟩ := List.exists_cons_of_ne_nil hy
    have hd : d ∈ ['<'] := by rw [hsplit]; simp
    obtain rfl : d = c := (List.cons.inj heq).1
    rw [List.mem_singleton.mp hd] at hpath
    exact absurd (hpath '<' (by simp)) (by decide)
  have happly : typedDeclaration.apply ('<' :: a) = '<' :: a' := by
    rw [h, apply_of_emitted (by simp) (hT.code_arguments ha)]
    exact (replaceFrom_front hend hnew (s := ['<']) (by simp) hskip before).symm
  intro hopen'
  rw [← happly] at hopen'
  exact hopen hopen'.of_apply

/-- Arguments that neither open a declaration nor, where one is open before the cast, end it. -/
structure ArgumentsFit (x : Text) (T : CastType) : Prop where
  closed : ∀ a ∈ T.arguments, ¬ OpensDeclaration ('<' :: a)
  inline : OpensDeclaration x → ∀ a ∈ T.arguments, ∀ c ∈ a, c ∉ ("=;\n" : Text)

theorem ArgumentsFit.exists_apply_typedDeclaration (h : ArgumentsFit x T) (hx : EndsInOperand x)
    (hT : T.IsPlain) : ∃ T' : CastType, T'.IsPlain ∧ ArgumentsFit (typedDeclaration.apply x) T' ∧
      typedDeclaration.apply (x ++ T.tail) = typedDeclaration.apply x ++ T'.tail := by
  have hmem : typedDeclaration ∈ beforeCast := by simp [beforeCast]
  obtain ⟨T', hT', htail, hargs⟩ := exists_tail_apply hT hmem
    fun h => absurd h (ne_of_replacement (by decide))
  have hparted : IsParted typedDeclaration x T.tail := fun _ => by
    by_cases hopen : OpensDeclaration x
    · refine .inr ⟨rfl, ?_⟩
      rw [tail, ← List.append_assoc, List.mem_append, not_or]
      exact ⟨not_mem_tail hT.supported (by decide) fun a ha hc => h.inline hopen a ha _ hc (by decide),
        by decide⟩
    · exact .inl hopen
  refine ⟨T', hT', ⟨fun a' ha' => ?_, fun hopen a' ha' => ?_⟩, ?_⟩
  · obtain ⟨a, ha, hreplaced⟩ := hargs a' ha'
    exact not_opensDeclaration_arguments hT ha (h.closed a ha) hreplaced
  · obtain ⟨a, ha, hreplaced⟩ := hargs a' ha'
    have hinline := h.inline hopen.of_apply a ha
    have hequals : '=' ∉ '<' :: a := fun hc => hinline '=' (by simpa using hc) (by decide)
    rw [replaceFrom_eq_self_of_skipsOver
      (typedDeclaration_skipsOver _ [] (by simpa using hequals))] at hreplaced
    rwa [(List.cons.inj hreplaced).2]
  · rw [apply_append_tail hx hT hmem hparted, htail]

theorem ArgumentsFit.apply_typedDeclarationWithoutValue (h : ArgumentsFit x T)
    (hx : EndsInOperand x) (hT : T.IsPlain) :
    typedDeclarationWithoutValue.apply (x ++ T.tail) =
        typedDeclarationWithoutValue.apply (x ++ [';']) ∨
      ∃ T' : CastType, T'.IsPlain ∧
        typedDeclarationWithoutValue.apply (x ++ T.tail) =
          typedDeclarationWithoutValue.apply x ++ T'.tail ∧
        typedDeclarationWithoutValue.apply (x ++ [';']) =
          typedDeclarationWithoutValue.apply x ++ [';'] := by
  have hmem : typedDeclarationWithoutValue ∈ beforeCast := by simp [beforeCast]
  obtain ⟨T', hT', htail, -⟩ := exists_tail_apply hT hmem fun _ => h.closed
  by_cases hopen : OpensDeclaration x
  · obtain ⟨t, ht, hlast⟩ := hx.exists_endsInCode
    obtain ⟨v, halone, hfollowed⟩ := exists_apply_append ht hx.getLast?_ne hx.run_eq
      typedDeclarationWithoutValue
    have happly : ∀ z, z ≠ [] → emitted .start z = [] →
        typedDeclarationWithoutValue.apply (x ++ z) =
          v ++ typedDeclarationWithoutValue.pattern.replaceAll
            typedDeclarationWithoutValue.replacement (t ++ z) := fun z hne hcode => by
      rw [hfollowed z z [] (segments_of_emitted hne hcode), List.flatMap_nil, List.append_nil]
    have hcast : EndsType t T.tail := by
      refine ⟨⟨" as " ++ T.text, (List.append_assoc _ _ _).symm, fun c hc hend => ?_⟩,
        fun x y hsplit hy => ?_, rfl⟩
      · exact not_mem_tail hT.supported hend (fun a ha hmem => h.inline hopen a ha c hmem hend) hc
      · rw [hsplit, List.getLast?_append_of_ne_nil _ hy] at hlast
        exact (startsCast_tail hT.supported).holdsHeads hy hlast
    have hplain : EndsType t [';'] := ⟨⟨[], rfl, by simp⟩,
      fun x y _ _ => holdsHeads_cons (by decide) (by decide) (by decide) _ _, rfl⟩
    have hoperand : ∀ c ∈ t.getLast?, Text.isBlank c = false ∧ c ≠ ':' := by
      intro c hc
      refine ⟨isBlank_of_endsOperand (hlast c hc), ?_⟩
      rintro rfl
      exact absurd (hlast _ hc) (by decide)
    rw [happly _ (tail_ne_nil T) hT.code, happly _ (by simp) rfl]
    rcases replaceFrom_endsType hcast hplain hoperand with heq | hsplit
    · exact .inl (by rw [heq])
    · refine .inr ⟨T', hT', ?_, ?_⟩
      · rw [hsplit _ (by simp), replaceFrom_tail hT hmem, htail, halone, List.append_assoc]
      · rw [hsplit _ (by simp), halone, List.append_assoc,
          replaceFrom_eq_self_of_skipsOver (skipsOver_of_forall hmem (by decide) _)]
  · refine .inr ⟨T', hT', ?_, ?_⟩
    · rw [apply_append_tail hx hT hmem fun _ => .inl hopen, htail]
    · exact apply_append_semicolon hx (.inl hmem) fun _ => .inl hopen

theorem exists_foldl_tail {ss : List Substitution} (hss : ∀ s ∈ ss, s ∈ beforeCast ∧
      s ≠ typedDeclaration ∧ s ≠ typedDeclarationWithoutValue)
    (hx : EndsInOperand x) (hT : T.IsPlain) :
    ∃ x' T', EndsInOperand x' ∧ IsPlain T' ∧
      ss.foldl (fun t s => s.apply t) (x ++ T.tail) = x' ++ T'.tail ∧
      ss.foldl (fun t s => s.apply t) (x ++ [';']) = x' ++ [';'] := by
  induction ss generalizing x T with
  | nil => exact ⟨x, T, hx, hT, rfl, rfl⟩
  | cons s ss ih =>
    obtain ⟨⟨hs, hne, hne'⟩, hss⟩ := List.forall_mem_cons.mp hss
    have hparted := isParted_of_ne hne hne' x
    obtain ⟨T', hT', htail, -⟩ := exists_tail_apply hT hs fun h => absurd h hne'
    obtain ⟨x'', T'', hx'', hT'', hcast, hplain⟩ := ih hss (hx.apply hs) hT'
    refine ⟨x'', T'', hx'', hT'', ?_, ?_⟩
    · rw [List.foldl_cons, apply_append_tail hx hT hs (hparted _), htail, hcast]
    · rw [List.foldl_cons, apply_append_semicolon hx (.inl hs) (hparted _), hplain]

/-- The substitutions make the same of a statement with a cast at its end and without. -/
theorem applyAll_tail (hx : EndsInOperand x) (hT : T.IsPlain) (h : ArgumentsFit x T) :
    applyAll (x ++ T.tail) = applyAll (x ++ [';']) := by
  have hfirst : typedDeclaration ∈ beforeCast := by simp [beforeCast]
  have hsecond : typedDeclarationWithoutValue ∈ beforeCast := by simp [beforeCast]
  obtain ⟨T₁, hT₁, h₁, htail₁⟩ := h.exists_apply_typedDeclaration hx hT
  have hx₁ := hx.apply hfirst
  have hall : ∀ t, applyAll t = nonNullAssertion.apply (Substitution.cast.apply
      ([blockScopedDeclaration, arraySpreadCopy, genericConstructorCall].foldl
        (fun t s => s.apply t)
        (typedDeclarationWithoutValue.apply (typedDeclaration.apply t)))) := fun t => by
    simp only [applyAll, all, List.foldl_cons, List.foldl_nil]
  have hplain₁ : typedDeclaration.apply (x ++ [';']) = typedDeclaration.apply x ++ [';'] :=
    apply_append_semicolon hx (.inl hfirst) fun _ => .inr ⟨rfl, by decide⟩
  rw [hall, hall, htail₁, hplain₁]
  rcases h₁.apply_typedDeclarationWithoutValue hx₁ hT₁ with heq | ⟨T₂, hT₂, htail₂, hplain₂⟩
  · rw [heq]
  have hrest : ∀ s ∈ [blockScopedDeclaration, arraySpreadCopy, genericConstructorCall],
      s ∈ beforeCast ∧ s ≠ typedDeclaration ∧ s ≠ typedDeclarationWithoutValue := by
    have hmem : ∀ s ∈ [blockScopedDeclaration, arraySpreadCopy, genericConstructorCall],
        s ∈ beforeCast := fun s hs => by simp [beforeCast] at hs ⊢; tauto
    simp only [List.forall_mem_cons] at hmem ⊢
    exact ⟨⟨hmem.1, ne_of_replacement (by decide), ne_of_replacement (by decide)⟩,
      ⟨hmem.2.1, ne_of_replacement (by decide), ne_of_replacement (by decide)⟩,
      ⟨hmem.2.2.1, ne_of_replacement (by decide), ne_of_replacement (by decide)⟩, by simp⟩
  obtain ⟨x₃, T₃, hx₃, hT₃, hcast, hplain₃⟩ := exists_foldl_tail hrest (hx₁.apply hsecond) hT₂
  rw [htail₂, hplain₂, hcast, hplain₃, apply_cast_tail hx₃ hT₃]

end Passes

section Reflowed

theorem isCode_run_of_emitted {s : State} (hs : s.isCode = true) (h : emitted s t = []) :
    (s.run t).isCode = true := by
  induction t generalizing s with
  | nil => exact hs
  | cons c t ih =>
    rw [emitted, List.append_eq_nil_iff] at h
    exact ih (Reflows.isCode_step hs h.1) h.2

theorem isPlain_of_emitted (hT : T.IsSupported) (hname : T.name ≠ "const")
    (hargs : ∀ a ∈ T.arguments, emitted .start a = []) : T.IsPlain := by
  refine ⟨hT, hname, ?_⟩
  have hquiet : ∀ c ∈ " as " ++ T.name, isQuiet c = true := by
    intro c hc
    rcases List.mem_append.mp hc with hc | hc
    · have has : ∀ c ∈ (" as " : Text), isQuiet c = true := by decide
      exact has c hc
    · exact (isQuiet_of_isPathChar (hT.isPathChar c hc)).1
  have hends : ∀ c ∈ ("[];" : Text), isQuiet c = true := by decide
  rw [tail_eq, emitted_append, emitted_of_isQuiet rfl hquiet, List.nil_append,
    run_of_isQuiet rfl (by simp) hquiet]
  cases ha : T.arguments with
  | none =>
    exact emitted_of_isQuiet rfl fun c hc => hends c (mem_rest_of_none ha c hc)
  | some a =>
    have hrest : T.rest = '<' :: (a ++ close T.dimensions) := by
      simp [rest, ha, argumentText, close]
    have hcode := hargs a ha
    obtain ⟨hstep, hemit⟩ := step_of_isQuiet (s := .start) (c := '<') rfl (by decide)
    rw [hrest, emitted, hemit, hstep, List.nil_append, emitted_append, hcode, List.nil_append]
    have hclose : ∀ {s : State}, s.isCode = true →
        emitted s (close T.dimensions) = emitted .start (brackets T.dimensions ++ [';']) := by
      intro s hs
      obtain rfl | rfl := State.eq_of_isCode hs <;> rfl
    rw [hclose (isCode_run_of_emitted rfl hcode)]
    refine emitted_of_isQuiet rfl fun c hc => hends c ?_
    rcases List.mem_append.mp hc with hc | hc
    · rcases mem_brackets c hc with rfl | rfl <;> decide
    · rw [List.mem_singleton.mp hc]
      decide

theorem emitted_of_literalRanges (h : literalRanges t = []) : emitted .start t = [] := by
  have htexts := slice?_literalRanges t
  rw [h, List.map_nil, eq_comm, List.map_eq_nil_iff, literalTexts_eq, List.map_eq_nil_iff] at htexts
  cases hemitted : emitted .start t with
  | nil => rfl
  | cons rc rcs =>
    obtain ⟨r, c⟩ := rc
    obtain ⟨v, gs, hfirst⟩ := exists_chunk_cons r c rcs
    rw [hemitted, hfirst] at htexts
    cases htexts

theorem opensDeclaration_trimStart (h : OpensDeclaration (Text.trimStart t)) :
    OpensDeclaration t := by
  obtain ⟨x, y, hsplit, hlast, hcode, hy⟩ := h
  have hblank : Text.allBlank (t.takeWhile Text.isBlank) = true := List.all_takeWhile
  have ht : t = (t.takeWhile Text.isBlank ++ x) ++ y := by
    rw [List.append_assoc, ← hsplit, Text.trimStart, List.takeWhile_append_dropWhile]
  refine ⟨_, y, ht, Text.forall_getLast?_append (fun c hc => ?_) hlast, ?_, hy⟩
  · exact not_isWordChar_of_isBlank (List.all_eq_true.mp hblank c (List.mem_of_getLast? hc))
  · rwa [run_start_of_allBlank hblank]

theorem endsInOperand_trimStart (hx : EndsInOperand x) : EndsInOperand (Text.trimStart x) := by
  obtain ⟨⟨u, c, rfl, hc⟩, hcode⟩ := hx
  refine ⟨?_, ?_⟩
  · obtain ⟨v, hv⟩ := Text.exists_trimStart_append (isBlank_of_endsOperand hc) u
    exact ⟨v, c, hv, hc⟩
  · rwa [← List.takeWhile_append_dropWhile (p := Text.isBlank) (l := u ++ [c]),
      run_start_of_allBlank List.all_takeWhile] at hcode

theorem IsSupported.of_arguments {arguments : Option Text} (hT : T.IsSupported)
    (h : ∀ a ∈ arguments, ∃ b ∈ T.arguments, a ⊆ b) :
    IsSupported ⟨T.name, arguments, T.dimensions⟩ := by
  cases hT with
  | builtin hname =>
    cases arguments with
    | none => exact .builtin hname
    | some a => simpa using h a rfl
  | named hname hargs =>
    refine .named hname fun a ha => List.all_eq_true.mpr fun c hc => ?_
    obtain ⟨b, hb, hsubset⟩ := h a ha
    exact List.all_eq_true.mp (hargs b hb) c (hsubset hc)

theorem exists_tail_normalizeIndentation (hx : EndsInOperand x) (hline : '\n' ∉ x)
    (hT : T.IsSupported) : ∃ arguments, Procedure.normalizeIndentation (x ++ T.tail) =
        Text.trimStart x ++ (CastType.mk T.name arguments T.dimensions).tail ∧
      (∀ a ∈ arguments, ∃ b ∈ T.arguments, Reflows b a) := by
  have hlast : ∃ u c, x = u ++ [c] ∧ Text.isBlank c = false := by
    obtain ⟨u, c, hsplit, hc⟩ := hx.last
    exact ⟨u, c, hsplit, isBlank_of_endsOperand hc⟩
  have hends : ∀ c ∈ (">[];" : Text), Text.isBlank c = false ∧ c ≠ '\n' := by decide
  have hend : ∀ {y : Text}, (∀ c ∈ y, c ∈ (">[];" : Text)) → '\n' ∉ y ∧
      (∀ c ∈ y.getLast?, Text.isBlank c = false) ∧ ∀ c ∈ y.head?, Text.isBlank c = false := by
    intro y hy
    exact ⟨fun h => (hends _ (hy _ h)).2 rfl,
      fun c hc => (hends c (hy c (List.mem_of_getLast? hc))).1,
      fun c hc => (hends c (hy c (List.mem_of_head? hc))).1⟩
  have hname : '\n' ∉ T.name := fun hmem => absurd (hT.isPathChar _ hmem) (by decide)
  obtain ⟨u, c, hsplit⟩ : ∃ u c, T.name = u ++ [c] :=
    ⟨_, _, (List.dropLast_append_getLast hT.name_ne_nil).symm⟩
  have hc : Text.isBlank c = false := (isQuiet_of_isPathChar (hT.isPathChar c (by simp [hsplit]))).2.2
  cases ha : T.arguments with
  | none =>
    have hrest : ∀ c ∈ T.rest, c ∈ (">[];" : Text) := fun c hc =>
      List.mem_cons_of_mem _ (mem_rest_of_none ha c hc)
    obtain ⟨hbreak, hylast, hyfirst⟩ := hend hrest
    obtain ⟨a', hreflows, hnormal⟩ := Procedure.exists_reflows_normalizeIndentation
      (x := x ++ (" as " ++ T.name)) (y := T.rest)
      ⟨x ++ (" as " ++ u), c, by simp [hsplit], hc⟩ (by simpa using ⟨hline, hname⟩)
      (by simp [rest]) hbreak hylast hyfirst []
    refine ⟨none, ?_, by simp⟩
    rw [hreflows.nil_eq, List.nil_append, List.append_assoc, ← tail_eq,
      Text.trimStart_append hlast, List.append_assoc, ← tail_eq] at hnormal
    rw [hnormal, ← ha]
  | some a =>
    obtain ⟨hbreak, hylast, hyfirst⟩ := hend (y := close T.dimensions) mem_close
    obtain ⟨a', hreflows, hnormal⟩ := Procedure.exists_reflows_normalizeIndentation
      (x := x ++ ((" as " ++ T.name) ++ ['<'])) (y := close T.dimensions)
      ⟨x ++ (" as " ++ T.name), '<', by simp, by decide⟩ (by simpa using ⟨hline, hname⟩)
      (by simp [close]) hbreak hylast hyfirst a
    refine ⟨some a', ?_, ?_⟩
    · have htail : ∀ a, (CastType.mk T.name (some a) T.dimensions).tail =
          ((" as " ++ T.name) ++ ['<']) ++ (a ++ close T.dimensions) := by
        intro a
        rw [tail_eq]
        simp [rest, argumentText, close]
      have hT' : T.tail = (CastType.mk T.name (some a) T.dimensions).tail := by rw [← ha]
      rw [hT', htail, ← List.append_assoc, hnormal, Text.trimStart_append hlast, htail,
        List.append_assoc]
    · rintro _ ⟨⟩
      exact ⟨a, rfl, hreflows⟩

end Reflowed

end CastType

namespace Procedure

variable {e : Text}

/-- The cast that ends a statement goes and nothing else, to any of the types that casts are
dropped for but `const`. Of the arguments of the type it is asked that they hold no literal, open
no declaration, and do not end one that is open before the cast. -/
theorem rewriteBody_cast (he : isClosed e = true) (hline : '\n' ∉ e)
    (hlast : e.getLast?.any endsOperand = true) (hT : T.IsSupported) (hname : T.name ≠ "const")
    (hargs : ∀ a ∈ T.arguments, literalRanges a = [] ∧ ¬ OpensDeclaration a)
    (hopen : OpensDeclaration e → ∀ a ∈ T.arguments, ∀ c ∈ a, c ∉ ("=;\n" : Text)) :
    rewriteBody (e ++ (" as " ++ (T.text ++ ";"))) = rewriteBody (e ++ ";") := by
  have hx : EndsInOperand e := by
    rw [isClosed, Bool.and_eq_true] at he
    cases hc : e.getLast? with
    | none =>
      rw [hc] at hlast
      cases hlast
    | some c =>
      obtain ⟨u, rfl⟩ := List.getLast?_eq_some_iff.mp hc
      rw [hc] at hlast
      exact ⟨⟨u, c, rfl, hlast⟩, he.1⟩
  have hemitted : ∀ a ∈ T.arguments, emitted .start a = [] := fun a ha =>
    CastType.emitted_of_literalRanges (hargs a ha).1
  obtain ⟨arguments, hnormal, hreflows⟩ := CastType.exists_tail_normalizeIndentation hx hline hT
  have hT' := hT.of_arguments fun a ha => by
    obtain ⟨b, hb, hreflow⟩ := hreflows a ha
    exact ⟨b, hb, hreflow.subset⟩
  have hplain : (CastType.mk T.name arguments T.dimensions).IsPlain := by
    refine CastType.isPlain_of_emitted hT' hname fun a ha => ?_
    obtain ⟨b, hb, h⟩ := hreflows a ha
    exact (h.alike rfl (hemitted b hb)).1
  have hfit : CastType.ArgumentsFit (Text.trimStart e)
      (CastType.mk T.name arguments T.dimensions) := by
    refine ⟨fun a ha h => ?_, fun h a ha c hc => ?_⟩
    · obtain ⟨b, hb, hreflow⟩ := hreflows a ha
      exact (hargs b hb).2 (hreflow.opensDeclaration (hemitted b hb)
        (CastType.opensDeclaration_of_angle h))
    · obtain ⟨b, hb, hreflow⟩ := hreflows a ha
      exact hopen (CastType.opensDeclaration_trimStart h) b hb c (hreflow.subset hc)
  have hend : normalizeIndentation (e ++ [';']) = Text.trimStart e ++ [';'] := by
    obtain ⟨u, c, hsplit, hc⟩ := hx.last
    have hend : ∀ c, some ';' = some c → Text.isBlank c = false := by simp; decide
    obtain ⟨a, hreflow, hnormal⟩ := exists_reflows_normalizeIndentation (y := [';'])
      ⟨u, c, hsplit, isBlank_of_endsOperand hc⟩ hline (by simp) (by decide) hend hend []
    rwa [hreflow.nil_eq] at hnormal
  refine rewriteBody_congr ?_
  rw [← CastType.tail, hnormal, show (";" : Text) = [';'] from rfl, hend]
  exact CastType.applyAll_tail (CastType.endsInOperand_trimStart hx) hplain hfit

theorem rewriteBody_cast_map :
    (CastType.mk "Map" (some "string,\n    number") 1).IsSupported ∧
      rewriteBody ("states = load('last')" ++ (" as " ++
          ((CastType.mk "Map" (some "string,\n    number") 1).text ++ ";"))) =
        rewriteBody ("states = load('last')" ++ ";") := by
  have hT : (CastType.mk "Map" (some "string,\n    number") 1).IsSupported :=
    .named (by decide) (by simpa using (by decide : CastType.hasNoAngle "string,\n    number" = true))
  refine ⟨hT, rewriteBody_cast (by decide +kernel) (by decide) (by decide) hT (by decide) ?_ ?_⟩
  · rintro _ ⟨⟩
    exact ⟨by decide, fun h => absurd h.mem (by decide)⟩
  · exact fun h => absurd h.mem (by decide)

/-- A cast to `const` is cut off by the pass that makes `var` of it, one to a type with a literal in
its arguments by the literal, and the semicolon of a type ends a declaration without a value. -/
example : rewriteBody "x as const;" = "x as var;" ∧
    rewriteBody "x as Pick<'a'>;" = "x<'a'>;" ∧
    rewriteBody "let y: Q as Pick<\x7b a: A; b: B \x7d>;" = "var y; b: B \x7d>;" := by
  decide +kernel

end Procedure

end CanvasPage
