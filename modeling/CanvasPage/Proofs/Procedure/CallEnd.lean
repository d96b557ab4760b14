import CanvasPage.Proofs.Procedure.Seam
import CanvasPage.Proofs.Procedure.Untouched

namespace CanvasPage

/-- The end of a text whose last line is a call. -/
def IsCallEnd (y : Text) : Prop := y = [';'] ∨ ∃ u, y = u ++ [')', ';']

theorem isCallEnd_of_suffix {u y : Text} (h : y <:+ u ++ [')', ';']) (hne : y ≠ []) :
    IsCallEnd y := by
  obtain ⟨x, hx⟩ := h
  rcases List.append_eq_append_iff.mp hx with ⟨v, -, rfl⟩ | ⟨v, -, hv⟩
  · exact .inr ⟨v, rfl⟩
  · rcases List.cons_eq_append_iff.mp hv with ⟨-, rfl⟩ | ⟨v, -, hv⟩
    · exact .inr ⟨[], rfl⟩
    · rcases List.cons_eq_append_iff.mp hv with ⟨-, rfl⟩ | ⟨v, -, hv⟩
      · exact .inl rfl
      · exact absurd (List.append_eq_nil_iff.mp hv.symm).2 hne

theorem IsCallEnd.getLast? {y : Text} (h : IsCallEnd y) : y.getLast? = some ';' := by
  rcases h with rfl | ⟨u, rfl⟩
  · rfl
  · rw [List.getLast?_append_of_ne_nil _ (List.cons_ne_nil _ _)]
    rfl

theorem IsCallEnd.mem {y : Text} (h : IsCallEnd y) : ';' ∈ y := by
  rcases h with rfl | ⟨u, rfl⟩ <;> simp

namespace Pattern

variable {pattern : Pattern} {before t u : Text}

/-- A match that goes over the end of a call stops before the next line. -/
def StopsAtCall (pattern : Pattern) : Prop :=
  ∀ before y v after gs, IsCallEnd y → ¬ pattern.Reads before (y ++ '\n' :: v) after gs

theorem stopsAtCall_of_takesOnly (h : pattern.TakesOnly (· ≠ ';')) : pattern.StopsAtCall :=
  fun _ _ _ _ _ hy hread => forall_mem_of_reads h hread ';' (by simp [hy.mem]) rfl

theorem stopsBefore_of_not_reads (h : ∀ x y v after gs, t = x ++ y → y ≠ [] →
      ¬ pattern.Reads (x.reverse ++ before) (y ++ '\n' :: v) after gs) :
    pattern.StopsBefore before t ('\n' :: u) := by
  intro x y hsplit hne w after gs heq hread
  by_contra hlong
  rcases List.append_eq_append_iff.mp heq with ⟨v, rfl, hv⟩ | ⟨v, rfl, -⟩
  · rcases List.cons_eq_append_iff.mp hv with ⟨rfl, -⟩ | ⟨v, rfl, -⟩
    · rw [List.append_nil] at hlong
      exact hlong (Nat.le_refl _)
    · exact h x y v after gs hsplit hne hread
  · rw [List.length_append] at hlong
    exact hlong (Nat.le_add_right _ _)

/-- A match that takes a semicolon takes it first and goes on past a line break. -/
theorem stopsAtCall_of_front (h : ∀ {before w after gs}, pattern.Reads before w after gs →
    ∃ g v, w = g ++ v ∧ g.length ≤ 1 ∧ ';' ∉ v ∧ v.head? ≠ some '\n') : pattern.StopsAtCall := by
  intro before y v after gs hy hread
  obtain ⟨g, r, hsplit, hlength, hr, hhead⟩ := h hread
  have hmem : ';' ∈ g ++ r := by
    rw [← hsplit]
    simp [hy.mem]
  have hfirst : g = [';'] := by
    have hg := (List.mem_append.mp hmem).resolve_right hr
    match g, hlength with
    | [c], _ => rw [List.mem_singleton.mp hg]
  rw [hfirst] at hsplit
  rcases hy with rfl | ⟨u, rfl⟩
  · obtain rfl := (List.cons.inj hsplit).2
    exact hhead rfl
  · cases u with
    | nil => exact absurd (List.cons.inj hsplit).1 (by decide)
    | cons c u =>
      have hrest : (u ++ [')', ';']) ++ '\n' :: v = r := (List.cons.inj hsplit).2
      rw [← hrest] at hr
      exact hr (by simp)

theorem StopsAtCall.stopsBefore (h : pattern.StopsAtCall) {v : Text}
    (ht : t <:+ v ++ [')', ';']) : pattern.StopsBefore before t ('\n' :: u) := by
  refine stopsBefore_of_not_reads fun x y w after gs hsplit hne => h _ y w after gs ?_
  refine isCallEnd_of_suffix (.trans ?_ ht) hne
  rw [hsplit]
  exact List.suffix_append x y

end Pattern

namespace Substitution

open Pattern Script

variable {before y v after t u : Text} {gs : GroupTexts}

theorem stopsAtCall_typedDeclaration : typedDeclaration.pattern.StopsAtCall := by
  have hnone : (noneOf "=;\n").TakesOnly (· ≠ ';') := takesOnly_noneOf (by decide)
  have hblanks : blanks.TakesOnly (· ≠ ';') := by
    rintro c hc rfl
    exact absurd hc (by decide)
  exact stopsAtCall_of_takesOnly
    ⟨⟨⟨takesOnly_annotated (by decide) (by decide) (by decide) (by decide), hnone, hnone⟩, hblanks⟩,
      takesOnly_literal (by decide)⟩

theorem stopsAtCall_typedDeclarationWithoutValue :
    typedDeclarationWithoutValue.pattern.StopsAtCall := by
  intro before y v after gs hy hread
  obtain ⟨u, -, -, hsplit, hu, -⟩ := exists_of_reads_typedDeclarationWithoutValue hread
  have hlast := congrArg List.dropLast hsplit
  rw [List.dropLast_append_of_ne_nil (List.cons_ne_nil _ v), List.dropLast_concat] at hlast
  exact hu (hlast ▸ List.mem_append_left _ hy.mem)

theorem stopsAtCall_blockScopedDeclaration : blockScopedDeclaration.pattern.StopsAtCall := by
  refine stopsAtCall_of_front fun hread => ?_
  obtain ⟨g, kw, rfl, hkw, -, hg, -⟩ := exists_of_reads_blockScopedDeclaration hread
  refine ⟨g, kw, rfl, ?_, ?_⟩
  · rcases hg with ⟨-, rfl⟩ | ⟨c, rfl, -⟩ <;> simp
  · rcases hkw with rfl | rfl <;> decide

theorem stopsAtCall_arraySpreadCopy : arraySpreadCopy.pattern.StopsAtCall := by
  have hblanks : blanks.TakesOnly (· ≠ ';') := by
    rintro c hc rfl
    exact absurd hc (by decide)
  have hpath : path.TakesOnly (· ≠ ';') := by
    refine ⟨?_, ?_⟩ <;>
    · rintro c hc rfl
      exact absurd hc (by decide)
  exact stopsAtCall_of_takesOnly ⟨⟨⟨⟨⟨⟨takesOnly_literal (by decide), hblanks⟩,
    takesOnly_literal (by decide)⟩, hblanks⟩, hpath⟩, hblanks⟩, takesOnly_literal (by decide)⟩

theorem stopsAtCall_genericConstructorCall : genericConstructorCall.pattern.StopsAtCall := by
  have hblanks : blanks.TakesOnly (· ≠ ')') := by
    rintro c hc rfl
    exact absurd hc (by decide)
  have hpath : path.TakesOnly (· ≠ ')') := by
    refine ⟨?_, ?_⟩ <;>
    · rintro c hc rfl
      exact absurd hc (by decide)
  have hparen : genericConstructorCall.pattern.TakesOnly (· ≠ ')') :=
    ⟨⟨⟨⟨⟨⟨⟨⟨⟨trivial, takesOnly_literal (by decide)⟩, hblanks, hblanks⟩, hpath⟩, hblanks⟩,
      takesOnly_literal (by decide)⟩, takesOnly_noneOf (by decide)⟩, takesOnly_literal (by decide)⟩,
      hblanks⟩, takesOnly_literal (by decide)⟩
  intro before y v after gs hy hread
  rcases hy with rfl | ⟨u, rfl⟩
  · obtain ⟨u, hsplit, -⟩ := exists_of_reads_genericConstructorCall hread
    exact absurd (List.cons.inj hsplit).1 (by decide)
  · exact forall_mem_of_reads hparen hread ')' (by simp) rfl

theorem stopsAtCall_nonNullAssertion : nonNullAssertion.pattern.StopsAtCall := by
  intro before y v after gs hy hread
  obtain ⟨c, d, hsplit, -, -, hc, -⟩ := exists_of_reads_nonNullAssertion hread
  rcases hy with rfl | ⟨u, rfl⟩
  · obtain rfl := (List.cons.inj hsplit).1
    exact absurd hc (by decide)
  · have hlength := congrArg List.length hsplit
    simp only [List.length_append, List.length_cons, List.length_nil] at hlength
    obtain rfl := List.length_eq_zero_iff.mp (show u.length = 0 by omega)
    exact absurd (List.cons.inj (List.cons.inj hsplit).2).1 (by decide)

def IsTypeArguments (v : Text) : Prop := ∃ m, v = '<' :: (m ++ ['>']) ∧ '>' ∉ m

theorem exists_of_reads_castType_name (h : castType.Reads before v after gs) :
    ∃ name r, v = name ++ r ∧ ';' ∉ name ∧ (r = [] ∨ IsTypeArguments r) ∧
      ∀ before after, castType.Reads before name after [] := by
  have hsplit : castType = anyOf ((one (fun c => 65 ≤ c.toNat && c.toNat ≤ 90) ++ many pathChar ++
      optional ("<" ++ many (noneOf "<>") ++ ">")) ::
        (["any", "unknown", "number", "string", "boolean", "const"] : List Text).map literal) := rfl
  have hwords : ∀ t ∈ (["any", "unknown", "number", "string", "boolean", "const"] : List Text),
      ';' ∉ t := by decide
  rw [hsplit, reads_anyOf] at h
  obtain ⟨p, hp, h⟩ := h
  rcases List.mem_cons.mp hp with rfl | hp
  · obtain ⟨name, r, _, _, rfl, -, hname, hr⟩ := reads_append.mp h
    simp only [pathChar, reads_append, reads_one, reads_many] at hname
    obtain ⟨_, cs, _, _, rfl, rfl, ⟨⟨c, hc, rfl⟩, rfl⟩, hcs, rfl⟩ := hname
    refine ⟨[c] ++ cs, r, rfl, ?_, ?_, fun before after => ?_⟩
    · rw [List.singleton_append, List.mem_cons, not_or]
      refine ⟨?_, fun hmem => absurd (hcs _ hmem) (by decide)⟩
      rintro rfl
      exact absurd hc (by decide)
    · simp only [noneOf, reads_optional, reads_append, reads_literal, reads_many] at hr
      rcases hr with ⟨_, _, _, _, rfl, -, ⟨_, m, _, _, rfl, -, ⟨rfl, -⟩, hm, -⟩, rfl, -⟩ | ⟨rfl, -⟩
      · exact .inr ⟨m, by simp, fun hmem => absurd (hm _ hmem) (by decide)⟩
      · exact .inl rfl
    · have hread : (one (fun c => 65 ≤ c.toNat && c.toNat ≤ 90) ++ many pathChar).Reads before
          ([c] ++ cs) ([] ++ after) [] := by
        simp only [pathChar, reads_append, reads_one, reads_many]
        exact ⟨[c], cs, [], [], rfl, rfl, ⟨⟨c, hc, rfl⟩, rfl⟩, hcs, rfl⟩
      rw [hsplit, reads_anyOf]
      exact ⟨_, List.mem_cons_self, reads_append.mpr ⟨[c] ++ cs, [], [], [],
        (List.append_nil _).symm, rfl, hread, reads_optional.mpr (.inr ⟨rfl, rfl⟩)⟩⟩
  · obtain ⟨t, ht, rfl⟩ := List.mem_map.mp hp
    obtain ⟨rfl, -⟩ := (reads_literal _).mp h
    refine ⟨v, [], (List.append_nil v).symm, hwords v ht, .inl rfl, fun before after => ?_⟩
    rw [hsplit, reads_anyOf]
    exact ⟨literal v, List.mem_cons_of_mem _ hp, (reads_literal v).mpr ⟨rfl, rfl⟩⟩

theorem exists_of_reads_cast_name (h : cast.pattern.Reads before v after gs) :
    ∃ w r cs, v = w ++ (r ++ cs) ∧ ';' ∉ w ∧ (r = [] ∨ IsTypeArguments r) ∧ ';' ∉ cs ∧
      ∀ rest, cast.pattern.Reads before w rest [] := by
  have hblank : ∀ {bs : Text}, Text.allBlank bs = true → ';' ∉ bs := fun hbs hmem =>
    absurd (List.all_eq_true.mp hbs _ hmem) (by decide)
  have hbrackets : (many "[]").TakesOnly (· ≠ ';') := takesOnly_literal (by decide)
  obtain ⟨x, cs, _, _, rfl, -, hcast, hcs⟩ := reads_append.mp h
  obtain ⟨y, t, _, _, rfl, -, hlead, htype⟩ := reads_append.mp hcast
  obtain ⟨name, r, rfl, hname, hr, hreads⟩ := exists_of_reads_castType_name htype
  have hlead' : ∀ rest, (blanks1 ++ "as" ++ blanks1).Reads before y rest [] := by
    simp only [reads_append, reads_blanks1, reads_literal] at hlead ⊢
    obtain ⟨_, bs, _, _, rfl, -, ⟨ws, _, _, _, rfl, -, ⟨hws, hwsBlank, rfl⟩, rfl, rfl⟩, hbs, hbsBlank,
      rfl⟩ := hlead
    exact fun rest => ⟨_, bs, [], [], rfl, rfl, ⟨ws, _, [], [], rfl, rfl, ⟨hws, hwsBlank, rfl⟩, rfl,
      rfl⟩, hbs, hbsBlank, rfl⟩
  refine ⟨y ++ name, r, cs, by simp, ?_, hr,
    fun hmem => forall_mem_of_reads hbrackets hcs _ hmem rfl, fun rest => ?_⟩
  · have hmem := hlead' []
    simp only [reads_append, reads_blanks1, reads_literal] at hmem
    obtain ⟨_, bs, _, _, rfl, -, ⟨ws, _, _, _, rfl, -, ⟨-, hwsBlank, -⟩, rfl, -⟩, -, hbsBlank, -⟩ :=
      hmem
    simp [hblank hwsBlank, hblank hbsBlank, hname]
  · exact reads_append.mpr ⟨y ++ name, [], [], [], (List.append_nil _).symm, rfl,
      reads_append.mpr ⟨y, name, [], [], rfl, rfl, hlead' _, hreads _ _⟩, .nil _⟩

/-- Does code of the line match as a cast, and is a `<` of the line left open at its end? -/
def opensCast (t : Text) : Bool :=
  (t.reverse.takeWhile (· != '>')).contains '<' &&
    (segments t).any fun
      | .code c => cast.pattern.occursIn c
      | .literal _ => false

theorem contains_takeWhile_reverse {u z : Text} (hz : '>' ∉ z) :
    ((u ++ '<' :: z).reverse.takeWhile (· != '>')).contains '<' = true := by
  have hall : ∀ c ∈ z.reverse ++ ['<'], (c != '>') = true := by
    intro c hc
    rw [bne_iff_ne]
    rintro rfl
    simp [hz] at hc
  have hsplit : (u ++ '<' :: z).reverse = (z.reverse ++ ['<']) ++ u.reverse := by simp
  rw [hsplit, List.takeWhile_append_of_pos hall]
  simp

theorem exists_open_of_split {y w r cs v : Text} (hy : IsCallEnd y) (hw : ';' ∉ w) (hcs : ';' ∉ cs)
    (hr : r = [] ∨ IsTypeArguments r) (hsplit : y ++ '\n' :: v = w ++ (r ++ cs)) :
    ∃ z, y = w ++ '<' :: z ∧ '>' ∉ z := by
  rcases List.append_eq_append_iff.mp hsplit with ⟨k, rfl, -⟩ | ⟨z, rfl, hz⟩
  · exact absurd (List.mem_append_left k hy.mem) hw
  have hsemicolon : ';' ∈ z := (List.mem_append.mp hy.mem).resolve_left hw
  rcases hr with rfl | ⟨m, rfl, hm⟩
  · rw [List.nil_append] at hz
    exact absurd (hz ▸ List.mem_append_left _ hsemicolon) hcs
  obtain ⟨c, z, rfl⟩ := List.exists_cons_of_ne_nil (List.ne_nil_of_mem hsemicolon)
  obtain ⟨rfl, hz⟩ := List.cons.inj hz
  have hz : m ++ '>' :: cs = z ++ '\n' :: v := by simpa using hz
  refine ⟨z, rfl, ?_⟩
  rcases List.append_eq_append_iff.mp hz with ⟨k, rfl, hk⟩ | ⟨k, rfl, -⟩
  · rcases List.cons_eq_append_iff.mp hk with ⟨rfl, -⟩ | ⟨k, rfl, rfl⟩
    · rwa [List.append_nil]
    · have hlast : ';' ∈ '>' :: k := by
        have hend := hy.getLast?
        rw [List.getLast?_append_of_ne_nil _ (List.cons_ne_nil _ _), ← List.cons_append,
          List.getLast?_append_of_ne_nil _ (List.cons_ne_nil _ _)] at hend
        exact List.mem_of_getLast? hend
      exact absurd (by simpa using hlast) fun h => hcs (List.mem_append_left _ h)
  · exact fun hmem => hm (List.mem_append_left k hmem)

theorem stopsBefore_cast {x : Text} (hx : opensCast x = false)
    (ht : .code t ∈ segments x) (hsuffix : t <:+ x) (hend : t <:+ v ++ [')', ';']) :
    cast.pattern.StopsBefore [] t ('\n' :: u) := by
  refine stopsBefore_of_not_reads fun y z v after gs hsplit hne hread => ?_
  obtain ⟨w, r, cs, hw, hsemicolon, hr, hcs, hname⟩ := exists_of_reads_cast_name hread
  have hz : IsCallEnd z := isCallEnd_of_suffix (.trans ⟨y, hsplit.symm⟩ hend) hne
  obtain ⟨k, rfl, hk⟩ := exists_open_of_split hz hsemicolon hcs hr hw
  obtain ⟨o, hat⟩ := exists_at?_of_reads (hname _) fun v after hs hv => by
    obtain ⟨ws, bs, u, rfl, hws, -⟩ := exists_of_reads_cast hv
    simp [hws]
  have hoccurs : cast.pattern.occursIn t = true := by
    by_contra hnone
    have hfree := at?_eq_none_of_occursIn (Bool.not_eq_true _ ▸ hnone) hsplit
    rw [List.append_nil, hfree] at hat
    cases hat
  obtain ⟨g, rfl⟩ := hsuffix
  have hopen := contains_takeWhile_reverse (u := g ++ (y ++ w)) hk
  rw [List.append_assoc, List.append_assoc, ← hsplit] at hopen
  rw [opensCast, hopen, Bool.true_and, List.any_eq_false] at hx
  exact absurd hoccurs (by simpa using hx _ ht)

theorem stopsBefore_of_mem_all {s : Substitution} (hs : s ∈ all) {x : Text}
    (hx : s = cast → opensCast x = false) (ht : .code t ∈ segments x) (hsuffix : t <:+ x)
    (hend : t <:+ v ++ [')', ';']) : s.pattern.StopsBefore [] t ('\n' :: u) := by
  simp only [all, List.mem_cons, List.not_mem_nil, or_false] at hs
  rcases hs with rfl | rfl | rfl | rfl | rfl | rfl | rfl
  · exact stopsAtCall_typedDeclaration.stopsBefore hend
  · exact stopsAtCall_typedDeclarationWithoutValue.stopsBefore hend
  · exact stopsAtCall_blockScopedDeclaration.stopsBefore hend
  · exact stopsAtCall_arraySpreadCopy.stopsBefore hend
  · exact stopsAtCall_genericConstructorCall.stopsBefore hend
  · exact stopsBefore_cast (hx rfl) ht hsuffix hend
  · exact stopsAtCall_nonNullAssertion.stopsBefore hend

end Substitution

namespace Arrow

open Pattern

theorem not_mem_of_isTail {d : Char} {v : Text} (h : IsTail v) (hd : isTailChar d = false)
    (hmark : d ∉ ("=>\x7b" : Text)) : d ∉ v := by
  obtain ⟨u, ws, rfl, hu, hws⟩ := h
  have htail : ∀ {t : Text}, (∀ c ∈ t, isTailChar c = true) → d ∉ t := by
    intro t ht hmem
    rw [ht d hmem] at hd
    cases hd
  have hblank : d ∉ ws :=
    htail fun c hc => isTailChar_of_isBlank (List.all_eq_true.mp hws c hc)
  have hmarks : ∀ e ∈ ("=>\x7b" : Text), d ≠ e := fun e he h => hmark (h ▸ he)
  have harrow : ("=>" : Text) = ['=', '>'] := rfl
  simp [htail hu, hblank, harrow, hmarks '=' (by decide), hmarks '>' (by decide),
    hmarks '\x7b' (by decide)]

theorem suffix_of_append_cons {p v u r : Text} {c : Char} (hp : c ∉ p)
    (h : p ++ c :: v = u ++ c :: r) : c :: r <:+ c :: v := by
  rcases List.append_eq_append_iff.mp h with ⟨a, rfl, hv⟩ | ⟨a, rfl, hr⟩
  · exact ⟨a, hv.symm⟩
  · rcases List.cons_eq_append_iff.mp hr with ⟨rfl, hv⟩ | ⟨a, rfl, -⟩
    · exact ⟨[], hv.symm⟩
    · exact absurd (by simp) hp

theorem stopsAtCall_parenthesized : parenthesized.StopsAtCall := by
  intro before y v after gs hy hread
  obtain ⟨tail, hsplit, hp, htail⟩ := exists_of_reads_parenthesized hread
  rcases hy with rfl | ⟨u, rfl⟩
  · exact absurd (List.cons.inj hsplit).1 (by decide)
  · have hparen : ')' ∉ '(' :: gs.text 1 := by
      rw [List.mem_cons, not_or]
      exact ⟨by decide, fun hmem => absurd (hp ')' hmem) (by decide)⟩
    have hsuffix : ')' :: ';' :: '\n' :: v <:+ ')' :: tail :=
      suffix_of_append_cons hparen (u := u) (by simpa using hsplit.symm)
    have hmem : ';' ∈ ')' :: tail := hsuffix.subset (by simp)
    have htail : ';' ∉ tail := not_mem_of_isTail htail (by decide) (by decide)
    exact htail (by simpa using hmem)

theorem stopsAtCall_singleParameter : singleParameter.StopsAtCall := by
  refine stopsAtCall_of_front fun {before w after gs} hread => ?_
  have hparts : (group 1 (alt inputStart (one fun c => !(Text.isWordChar c || c == '$' || c == '.'))) ++
      (group 2 Candidate.identifier ++ (blanks ++ opening))).Reads before w after gs := by
    rw [singleParameter] at hread
    simpa only [opening, reads_assoc] using hread
  obtain ⟨g, r, _, _, rfl, -, hlead, hrest⟩ := reads_append.mp hparts
  obtain ⟨name, tail, _, _, rfl, -, hname, htail⟩ := reads_append.mp hrest
  obtain ⟨_, -, hname⟩ := reads_group.mp hname
  have hidentifier := (Substitution.reads_identifier.mp hname).1
  have hcontinues := Text.continuesIdentifier_of_isIdentifier hidentifier
  have hsemicolon : ';' ∉ tail :=
    not_mem_of_isTail (isBareTail_of_reads htail).isTail (by decide) (by decide)
  refine ⟨g, name ++ tail, rfl, ?_, ?_, ?_⟩
  · obtain ⟨_, -, hstart | ⟨⟨c, -, rfl⟩, -⟩⟩ := reads_group.mp hlead
    · obtain ⟨rfl, -⟩ := hstart
      exact Nat.zero_le 1
    · exact Nat.le_refl 1
  · rw [List.mem_append, not_or]
    exact ⟨fun hmem => absurd (hcontinues _ hmem) (by decide), hsemicolon⟩
  · obtain ⟨c, name, rfl⟩ := List.exists_cons_of_ne_nil (Text.ne_nil_of_isIdentifier hidentifier)
    rintro hc
    obtain rfl : c = '\n' := by simpa using hc
    exact absurd (hcontinues '\n' (by simp)) (by decide)

end Arrow

end CanvasPage
