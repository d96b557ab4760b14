import CanvasPage.Proofs.Procedure.CastType

namespace CanvasPage.Substitution

open Pattern Script

variable {before w after y z u bs : Text} {gs : GroupTexts} {c d n : Char}

section Readings

theorem exists_path_of_reads_arraySpreadCopy (h : arraySpreadCopy.pattern.Reads before w after gs) :
    ∃ u path bs, w = u ++ (path ++ (bs ++ [']'])) ∧ u ≠ [] ∧
      (∀ c ∈ u, c = '[' ∨ c = '.' ∨ Text.isBlank c = true) ∧ path ≠ [] ∧
      (∀ c ∈ path, isPathChar c = true) ∧ Text.allBlank bs = true := by
  have hopen : ("[" : Text) = ['['] := rfl
  have hdots : ("..." : Text) = ['.', '.', '.'] := rfl
  have hclose : ("]" : Text) = [']'] := rfl
  simp only [arraySpreadCopy, reads_append, reads_group, reads_blanks, reads_literal, hopen, hdots,
    hclose] at h
  obtain ⟨_, _, _, _, rfl, -, ⟨_, bs, _, _, rfl, -, ⟨_, path, _, _, rfl, -, ⟨_, bs₂, _, _, rfl, -,
    ⟨_, _, _, _, rfl, -, ⟨_, bs₁, _, _, rfl, -, ⟨rfl, -⟩, hbs₁, -⟩, rfl, -⟩, hbs₂, -⟩, _, -, hpath⟩,
    hbs, -⟩, rfl, -⟩ := h
  obtain ⟨hne, hchars, -⟩ := of_reads_path hpath
  refine ⟨'[' :: (bs₁ ++ ('.' :: '.' :: '.' :: bs₂)), path, bs, by simp, by simp, ?_, hne, hchars, hbs⟩
  intro c hc
  simp only [List.mem_cons, List.mem_append] at hc
  rcases hc with h | h | h | h | h | h
  · exact .inl h
  · exact .inr (.inr (List.all_eq_true.mp hbs₁ c h))
  · exact .inr (.inl h)
  · exact .inr (.inl h)
  · exact .inr (.inl h)
  · exact .inr (.inr (List.all_eq_true.mp hbs₂ c h))

/-- A generic constructor call as it is read, through the parenthesis that opens its arguments. -/
structure IsConstructorCall (w : Text) : Prop where
  split : ∃ ws path bs v cs, w = "new" ++ (ws ++ (path ++ (bs ++ '<' :: (v ++ '>' :: (cs ++ ['('])))))
    ∧ ws ≠ [] ∧ Text.allBlank ws = true ∧ path ≠ [] ∧ (∀ c ∈ path, isPathChar c = true) ∧
    Text.allBlank bs = true ∧ (∀ c ∈ v, c ∉ ("<>()" : Text)) ∧ Text.allBlank cs = true

theorem isConstructorCall_of_reads (h : genericConstructorCall.pattern.Reads before w after gs) :
    IsConstructorCall w := by
  have hless : ("<" : Text) = ['<'] := rfl
  have hgreater : (">" : Text) = ['>'] := rfl
  have hopen : ("(" : Text) = ['('] := rfl
  have hparts := reads_genericConstructorCall h
  simp only [reads_append, reads_literal, reads_blanks1, reads_group, reads_blanks] at hparts
  obtain ⟨_, _, _, _, rfl, -, ⟨rfl, -⟩, _, _, _, _, rfl, -, ⟨rfl, -⟩, ws, _, _, _, rfl, -,
    ⟨hne, hws, -⟩, path, _, _, _, rfl, -, ⟨_, -, hpath⟩, bs, _, _, _, rfl, -, ⟨hbs, -⟩,
    harguments⟩ := hparts
  obtain ⟨hpathNe, hchars, -⟩ := of_reads_path hpath
  simp only [typeArguments, noneOf, reads_append, reads_blanks, reads_literal, reads_many, hless,
    hgreater, hopen] at harguments
  obtain ⟨_, _, _, _, rfl, -, ⟨rfl, -⟩, v, _, _, _, rfl, -, ⟨hv, -⟩, _, _, _, _, rfl, -, ⟨rfl, -⟩,
    cs, _, _, _, rfl, -, ⟨hcs, -⟩, rfl, -⟩ := harguments
  exact ⟨ws, path, bs, v, cs, by simp, hne, hws, hpathNe, hchars, hbs, by simpa using hv, hcs⟩

end Readings

section Crossing

theorem exists_of_crossing (heq : y ++ z = w ++ after) (hlong : y.length < w.length) :
    ∃ u, u ≠ [] ∧ w = y ++ u ∧ z = u ++ after := by
  rcases List.append_eq_append_iff.mp heq with ⟨u, rfl, hu⟩ | ⟨u, rfl, -⟩
  · refine ⟨u, ?_, rfl, hu⟩
    rintro rfl
    simp at hlong
  · simp only [List.length_append] at hlong
    omega

theorem staysIn_of_not_mem_tail {pattern : Pattern} (hy : y ≠ [])
    (h : ∀ w after gs, pattern.Reads before w after gs → d ∉ w.tail) :
    pattern.StaysIn before y (d :: z) := by
  intro w after gs heq hread
  by_contra hlong
  obtain ⟨u, hu, rfl, hz⟩ := exists_of_crossing heq (Nat.lt_of_not_le hlong)
  obtain ⟨e, u, rfl⟩ := List.exists_cons_of_ne_nil hu
  obtain ⟨b, y, rfl⟩ := List.exists_cons_of_ne_nil hy
  obtain rfl := (List.cons.inj hz).1
  exact h _ _ _ hread (by simp)

theorem staysIn_of_last {pattern : Pattern}
    (h : ∀ w after gs, pattern.Reads before w after gs → ∀ c ∈ w.getLast?, c ∉ z) :
    pattern.StaysIn before y z := by
  intro w after gs heq hread
  by_contra hlong
  obtain ⟨u, hu, rfl, hz⟩ := exists_of_crossing heq (Nat.lt_of_not_le hlong)
  refine h _ _ _ hread (u.getLast hu) ?_ (by simp [hz])
  rw [List.getLast?_append_of_ne_nil _ hu, List.getLast?_eq_some_getLast hu]
  rfl

theorem staysIn_blockScopedDeclaration (hd : isPathChar d = false) (hy : y ≠ []) :
    blockScopedDeclaration.pattern.StaysIn before y (d :: z) := by
  refine staysIn_of_not_mem_tail hy fun w after gs h hmem => ?_
  have hchars : ∀ kw : Text, kw = "let" ∨ kw = "const" → ∀ c ∈ kw, isPathChar c = true := by
    rintro kw (rfl | rfl) <;> decide
  obtain ⟨g, kw, rfl, hkw, -, hg, -⟩ := exists_of_reads_blockScopedDeclaration h
  have hmem' : d ∈ kw := by
    rcases hg with ⟨-, rfl⟩ | ⟨c, rfl, -⟩
    · exact List.mem_of_mem_tail hmem
    · exact hmem
  rw [hchars kw hkw d hmem'] at hd
  cases hd

end Crossing

section Casts

/-- The beginning of a cast to a type whose arguments, if any, stand between angles. -/
structure StartsCast (z : Text) : Prop where
  split : ∃ n u, z = ' ' :: 'a' :: 's' :: ' ' :: n :: u ∧ isPathChar n = true
  angles : ∀ u v, z = u ++ '>' :: v → '<' ∈ u

theorem eq_of_blanks_append (hbs : Text.allBlank bs = true) (hc : Text.isBlank c = false)
    (heq : bs ++ c :: u = ' ' :: d :: z) (hd : Text.isBlank d = false) :
    bs = [' '] ∧ c = d ∧ u = z := by
  obtain ⟨rfl, hrest⟩ := Text.eq_of_append_eq (List.all_eq_true.mp hbs) (by decide)
    (by simpa using hc) (by simpa using hd) (show bs ++ c :: u = [' '] ++ d :: z from heq)
  exact ⟨rfl, List.cons.inj hrest⟩

theorem isBlank_of_endsOperand (h : endsOperand c = true) : Text.isBlank c = false := by
  rw [endsOperand, Bool.or_eq_true, Bool.or_eq_true, beq_iff_eq, beq_iff_eq] at h
  rcases h with (h | rfl) | rfl
  · exact Text.isBlank_of_continuesIdentifier h
  · decide
  · decide

theorem cases_of_blanks_append (hbs : Text.allBlank bs = true) (hc : Text.isBlank c = false)
    (hlast : ∀ c ∈ y.getLast?, Text.isBlank c = false) (hd : Text.isBlank d = false)
    (heq : bs ++ c :: u = y ++ ' ' :: d :: z) :
    (y = [] ∧ c = d ∧ u = z) ∨ ∃ y', y = bs ++ c :: y' ∧ u = y' ++ ' ' :: d :: z := by
  by_cases hnil : y = []
  · subst hnil
    exact .inl ⟨rfl, (eq_of_blanks_append hbs hc heq hd).2⟩
  · obtain ⟨y', rfl, hne, hrest⟩ := exists_append_of_allBlank hbs hnil hlast heq
    obtain ⟨b, y', rfl⟩ := List.exists_cons_of_ne_nil hne
    obtain ⟨rfl, rfl⟩ := List.cons.inj hrest
    exact .inr ⟨y', rfl, rfl⟩

theorem exists_append_of_arguments {arguments : Option Text} {m : Nat}
    (hargs : ∀ a ∈ arguments, CastType.hasNoAngle a = true)
    (hangles : ∀ u v, ' ' :: z = u ++ '>' :: v → '<' ∈ u)
    (heq : CastType.argumentText arguments ++ (CastType.brackets m ++ after) = y ++ ' ' :: z) :
    ∃ y', y = CastType.argumentText arguments ++ (CastType.brackets m ++ y') := by
  have hbrackets : ' ' ∉ CastType.brackets m := fun hmem =>
    (CastType.mem_brackets _ hmem).elim (by decide) (by decide)
  cases arguments with
  | none =>
    obtain ⟨y', rfl, -⟩ := exists_append_of_not_mem hbrackets heq
    exact ⟨y', rfl⟩
  | some a =>
    have hless := (CastType.not_mem_of_hasNoAngle (hargs a rfl)).1
    simp only [CastType.argumentText, List.append_assoc, List.cons_append, List.nil_append] at heq
    obtain ⟨y₁, rfl, h₁⟩ := exists_append_of_not_mem (u := ['<']) (by decide) heq
    rcases List.append_eq_append_iff.mp h₁ with ⟨y₂, rfl, h₂⟩ | ⟨x, rfl, hx⟩
    · obtain ⟨y₃, rfl, h₃⟩ := exists_append_of_not_mem (u := ['>']) (by decide) h₂
      obtain ⟨y₄, rfl, -⟩ := exists_append_of_not_mem hbrackets h₃
      exact ⟨y₄, by simp [CastType.argumentText]⟩
    · exact absurd (hangles x _ hx) fun hmem => hless (by simp [hmem])

variable (hz : StartsCast z) (hy : y ≠ []) (hlast : ∀ c ∈ y.getLast?, endsOperand c = true)

include hlast in
theorem not_isBlank_last : ∀ c ∈ y.getLast?, Text.isBlank c = false :=
  fun c hc => isBlank_of_endsOperand (hlast c hc)

include hz hy hlast

theorem StartsCast.holdsHeads : HoldsHeads y z := by
  obtain ⟨n, u, rfl, hn⟩ := hz.split
  intro p v hp heq
  refine hp.exists_append_as hy (not_isBlank_last hlast) (isQuiet_of_isPathChar hn).2.2 ?_ heq
  rintro rfl
  exact absurd hn (by decide)

theorem StartsCast.staysIn_arraySpreadCopy : arraySpreadCopy.pattern.StaysIn before y z := by
  intro w after gs heq h
  obtain ⟨n, k, rfl, -⟩ := hz.split
  obtain ⟨u, path, bs, rfl, -, hu, -, hpath, hbs⟩ := exists_path_of_reads_arraySpreadCopy h
  have hspace : ' ' ∉ path := fun hmem => absurd (hpath _ hmem) (by decide)
  have hsplit : u ++ (path ++ (bs ++ ']' :: after)) = y ++ ' ' :: 'a' :: 's' :: ' ' :: n :: k := by
    simp [heq]
  rcases List.append_eq_append_iff.mp hsplit with ⟨y₁, rfl, hrest⟩ | ⟨x, rfl, -⟩
  · obtain ⟨y₂, rfl, h₂⟩ := exists_append_of_not_mem hspace hrest
    have hlast₂ := Text.getLast?_of_append (Text.getLast?_of_append (not_isBlank_last hlast))
    rcases cases_of_blanks_append hbs (by decide) hlast₂ (by decide) h₂ with
      ⟨-, hbracket, -⟩ | ⟨y₃, rfl, -⟩
    · exact absurd hbracket (by decide)
    · simp only [List.length_append, List.length_cons, List.length_nil]
      omega
  · have hsome : y.getLast? = some (y.getLast hy) := List.getLast?_eq_some_getLast hy
    have hoperand := hlast _ hsome
    rcases hu (y.getLast hy) (by simp) with h | h | h
    · rw [h] at hoperand
      cases hoperand
    · rw [h] at hoperand
      cases hoperand
    · rw [isBlank_of_endsOperand hoperand] at h
      cases h

/-- No constructor call goes on into a cast: the angle that ends its type arguments would come
before the one that begins those of the cast. -/
theorem StartsCast.staysIn_genericConstructorCall :
    genericConstructorCall.pattern.StaysIn before y z := by
  intro w after gs heq h
  obtain ⟨ws, path, bs, v, cs, rfl, -, hws, hne, hpath, hbs, hv, hcs⟩ :=
    (isConstructorCall_of_reads h).split
  have hangles := hz.angles
  obtain ⟨n, k, rfl, hn⟩ := hz.split
  have hspace : ' ' ∉ path := fun hmem => absurd (hpath _ hmem) (by decide)
  obtain ⟨e, path, rfl⟩ := List.exists_cons_of_ne_nil hne
  have he : Text.isBlank e = false := (isQuiet_of_isPathChar (hpath e (by simp))).2.2
  have hspace' : ' ' ∉ path := fun hmem => hspace (by simp [hmem])
  simp only [List.append_assoc, List.cons_append, List.nil_append] at heq
  obtain ⟨y₁, rfl, h₁⟩ := exists_append_of_not_mem (by decide) heq.symm
  have hlast₁ := Text.getLast?_of_append (not_isBlank_last hlast)
  rcases cases_of_blanks_append hws he hlast₁ (by decide) h₁ with ⟨-, rfl, h₂⟩ | ⟨y₂, rfl, h₂⟩
  · obtain ⟨x, hx, h₃⟩ := exists_append_of_not_mem (y := ['s']) hspace' h₂
    cases path with
    | nil =>
      obtain rfl : ['s'] = x := hx
      cases bs with
      | nil => exact absurd (List.cons.inj h₃).1 (by decide)
      | cons b bs =>
        obtain rfl := (List.cons.inj h₃).1
        exact absurd (List.all_eq_true.mp hbs _ List.mem_cons_self) (by decide)
    | cons f path =>
      obtain ⟨rfl, hnil⟩ := List.cons.inj hx
      obtain ⟨rfl, rfl⟩ := List.append_eq_nil_iff.mp hnil.symm
      obtain ⟨-, rfl, -⟩ := eq_of_blanks_append hbs (by decide) h₃ (isQuiet_of_isPathChar hn).2.2
      exact absurd hn (by decide)
  · obtain ⟨y₃, rfl, h₃⟩ := exists_append_of_not_mem hspace' h₂
    have hlast₃ : ∀ c ∈ y₃.getLast?, Text.isBlank c = false :=
      Text.getLast?_of_append (t := ws ++ e :: path) (by simpa using hlast₁)
    rcases cases_of_blanks_append hbs (by decide) hlast₃ (by decide) h₃ with
      ⟨-, hangle, -⟩ | ⟨y₄, rfl, h₄⟩
    · exact absurd hangle (by decide)
    rcases List.append_eq_append_iff.mp h₄ with ⟨y₅, rfl, h₅⟩ | ⟨x, rfl, hx⟩
    · obtain ⟨y₆, rfl, h₆⟩ := exists_append_of_not_mem (u := ['>']) (by decide) h₅
      have hlast₆ : ∀ c ∈ y₆.getLast?, Text.isBlank c = false :=
        Text.getLast?_of_append (t := bs ++ '<' :: (v ++ ['>'])) (by simpa using hlast₃)
      rcases cases_of_blanks_append hcs (by decide) hlast₆ (by decide) h₆ with
        ⟨-, hparen, -⟩ | ⟨y₇, rfl, -⟩
      · exact absurd hparen (by decide)
      · simp only [List.length_append, List.length_cons, List.length_nil]
        omega
    · exact absurd (hangles x _ hx) fun hmem => hv '<' (by simp [hmem]) (by decide)

theorem StartsCast.staysIn_cast : cast.pattern.StaysIn before y z := by
  intro w after gs heq h
  obtain ⟨ws, bs, T, rfl, -, hws, -, hbs, hT⟩ := CastType.exists_type_of_reads_cast h
  have hangles := hz.angles
  obtain ⟨n, k, rfl, hn⟩ := hz.split
  have has : ("as" : Text) = ['a', 's'] := rfl
  have hspace : ' ' ∉ T.name := fun hmem => absurd (hT.isPathChar _ hmem) (by decide)
  obtain ⟨e, name, hname⟩ := List.exists_cons_of_ne_nil hT.name_ne_nil
  have he : Text.isBlank e = false :=
    (isQuiet_of_isPathChar (hT.isPathChar e (by simp [hname]))).2.2
  have hspace' : ' ' ∉ name := fun hmem => hspace (by simp [hname, hmem])
  have hlast₀ := not_isBlank_last hlast
  simp only [List.append_assoc, has, List.cons_append, List.nil_append] at heq
  rcases cases_of_blanks_append hws (by decide) hlast₀ (by decide) heq.symm with
    ⟨hnil, -⟩ | ⟨y₁, rfl, h₁⟩
  · exact absurd hnil hy
  obtain ⟨y₂, rfl, h₂⟩ := exists_append_of_not_mem (u := ['s']) (by decide) h₁
  have hlast₂ : ∀ c ∈ y₂.getLast?, Text.isBlank c = false :=
    Text.getLast?_of_append (t := ws ++ ['a', 's']) (by simpa using hlast₀)
  have hrest : bs ++ e :: (name ++ (CastType.argumentText T.arguments ++
      (CastType.brackets T.dimensions ++ after))) = y₂ ++ ' ' :: 'a' :: 's' :: ' ' :: n :: k := by
    rw [← h₂, CastType.text, hname]
    simp
  rcases cases_of_blanks_append hbs he hlast₂ (by decide) hrest with ⟨-, rfl, h₃⟩ | ⟨y₃, rfl, h₃⟩
  · refine absurd ?_ (hT.name_ne_as after (' ' :: n :: k))
    rw [CastType.text, hname, ← h₃]
    simp
  obtain ⟨y₄, rfl, h₄⟩ := exists_append_of_not_mem hspace' h₃
  obtain ⟨y₅, rfl⟩ := exists_append_of_arguments hT.hasNoAngle hangles h₄
  simp only [CastType.text, hname, has, List.length_append, List.length_cons, List.length_nil]
  omega

end Casts

end CanvasPage.Substitution
