import CanvasPage.Procedure.OfClass
import CanvasPage.Proofs.Procedure.NextLine
import CanvasPage.Proofs.Text.Lines

namespace CanvasPage

open Script Pattern

variable {t l args before w after : Text} {gs : GroupTexts}

def callStart (bs : Text) : Text := bs ++ "super("

def callLine (bs args : Text) : Text := callStart bs ++ (args ++ ");")

theorem getLast?_callStart (bs : Text) : (callStart bs).getLast? = some '(' := by
  have hopen : ("super(" : Text) = "super" ++ ['('] := rfl
  rw [callStart, hopen, ← List.append_assoc, List.getLast?_concat]

theorem callLine_eq (bs args : Text) :
    callLine bs args = (bs ++ "super") ++ ('(' :: (args ++ ");")) := by
  have hopen : ("super(" : Text) = "super" ++ ['('] := rfl
  rw [callLine, callStart, hopen]
  simp

def callTail : Pattern :=
  blanks ++ ("(" ++ (many (noneOf "\n") ++ (")" ++
    (blanks ++ (optional ";" ++ (blanks ++ inputEnd))))))

theorem reads_superCall : superCall.Reads before w after gs ↔
    (inputStart ++ (blanks ++ ("super" ++ callTail))).Reads before w after gs := by
  simp only [superCall, callTail, reads_assoc]

theorem infix_of_reads_superCall (h : superCall.Reads before w after gs) : "super" <:+: w := by
  simp only [reads_superCall, reads_append, reads_literal] at h
  obtain ⟨s, _, _, _, rfl, -, -, bs, _, _, _, rfl, -, -, _, v, _, _, rfl, -, ⟨rfl, -⟩, -⟩ := h
  exact ⟨s ++ bs, v, by simp only [List.append_assoc]⟩

theorem infix_of_occursIn_superCall (h : superCall.occursIn t = true) : "super" <:+: t := by
  obtain ⟨o, ho⟩ := Option.isSome_iff_exists.mp h
  obtain ⟨c, hwhole, hat⟩ := exists_at?_of_mem_occurrencesFrom (List.mem_of_mem_head? ho)
  obtain ⟨w, gs, -, hafter, -, -, -, -, hread⟩ := exists_reads_of_at? hat
  have ht : c.before.reverse ++ (w ++ o.stop.after) = t := by
    rw [← hafter]
    exact hwhole
  exact (infix_of_reads_superCall hread).trans
    ⟨c.before.reverse, o.stop.after, by rw [← ht, List.append_assoc]⟩

theorem reads_callTail (hargs : '\n' ∉ args) (before : Text) :
    callTail.Reads before ("(" ++ (args ++ (")" ++ ";"))) [] [] := by
  have hblank : ∀ before after, blanks.Reads before [] after [] :=
    fun _ _ => reads_blanks.mpr ⟨rfl, rfl⟩
  have hliteral : ∀ (t before after : Text), (literal t).Reads before t after [] :=
    fun t _ _ => (reads_literal t).mpr ⟨rfl, rfl⟩
  have hline : ∀ c ∈ args, (!("\n" : Text).contains c) = true := by
    intro c hc
    have hne : c ≠ '\n' := fun h => hargs (h ▸ hc)
    simpa using hne
  exact ⟨[], _, [], [], rfl, rfl, hblank _ _, "(", _, [], [], rfl, rfl, hliteral _ _ _,
    args, _, [], [], rfl, rfl, reads_many.mpr ⟨hline, rfl⟩, ")", _, [], [], rfl, rfl, hliteral _ _ _,
    [], _, [], [], rfl, rfl, hblank _ _, ";", _, [], [], rfl, rfl, .inl (hliteral _ _ _),
    [], [], [], [], rfl, rfl, hblank _ _, rfl, rfl, rfl⟩

theorem occursIn_superCall {bs : Text} (hbs : Text.allBlank bs = true) (hargs : '\n' ∉ args) :
    superCall.occursIn (callLine bs args) = true := by
  have hopen : ∀ v : Text, '(' :: v = "(" ++ v := fun _ => rfl
  have hend : (");" : Text) = ")" ++ (";" : Text) := rfl
  have hread : superCall.Reads [] (callLine bs args) [] [] := by
    rw [reads_superCall, callLine_eq, hopen, hend, List.append_assoc]
    exact ⟨[], _, [], [], rfl, rfl, ⟨rfl, rfl, rfl⟩, bs, _, [], [], rfl, rfl,
      reads_blanks.mpr ⟨hbs, rfl⟩, "super", _, [], [], rfl, rfl, (reads_literal _).mpr ⟨rfl, rfl⟩,
      reads_callTail hargs _⟩
  obtain ⟨o, hat⟩ := exists_at?_of_reads hread fun v after hs hv => by
    rintro rfl
    exact absurd (infix_of_reads_superCall hv) (by decide)
  rw [List.append_nil] at hat
  by_contra hnone
  have hfree := at?_eq_none_of_occursIn (Bool.not_eq_true _ ▸ hnone) (x := []) rfl
  exact absurd (hat.symm.trans hfree) (by simp)

namespace Substitution

variable {s : Substitution} {bs p q r u z : Text} {c : Char} {o : Occurrence}

theorem not_mem_callStart (hbs : Text.allBlank bs = true) :
    ∀ d ∈ ("lcvn[!" : Text), d ∉ callStart bs := by
  have hplain : ∀ d ∈ ("lcvn[!" : Text), Text.isBlank d = false ∧ d ∉ ("super(" : Text) := by decide
  intro d hd hmem
  obtain ⟨hblank, hword⟩ := hplain d hd
  have hmem := (List.mem_append.mp hmem).resolve_right hword
  rw [List.all_eq_true.mp hbs d hmem] at hblank
  cases hblank

theorem cast_ne_callStart {ws v : Text} (hbs : Text.allBlank bs = true)
    (hlead : callStart bs = p ++ c :: r) (hws : Text.allBlank ws = true) (hne : ws ≠ []) :
    ws ++ 'a' :: v ≠ (c :: r) ++ z := by
  intro hw
  rcases List.append_eq_append_iff.mp hlead with ⟨k, -, hk⟩ | ⟨k, rfl, hk⟩
  · obtain ⟨d, ws, rfl⟩ := List.exists_cons_of_ne_nil hne
    obtain ⟨rfl, -⟩ := List.cons.inj hw
    have hd : d ∈ ("super(" : Text) := hk ▸ List.mem_append_right k List.mem_cons_self
    have hplain : ∀ d ∈ ("super(" : Text), Text.isBlank d = false := by decide
    have hblank := List.all_eq_true.mp hws d List.mem_cons_self
    rw [hplain d hd] at hblank
    cases hblank
  · have hblank : ∀ e ∈ k, Text.isBlank e = true := fun e he =>
      List.all_eq_true.mp hbs e (List.mem_append_right p he)
    have hsplit : ws ++ 'a' :: v = k ++ 's' :: ("uper(" ++ z) := by
      rw [hw, hk]
      simp
    obtain ⟨-, htail⟩ := Text.eq_of_append_eq (List.all_eq_true.mp hws) hblank
      (by rintro e ⟨⟩; decide) (by rintro e ⟨⟩; decide) hsplit
    exact absurd (List.cons.inj htail).1 (by decide)

theorem eq_parenthesis_of_reads (hs : s ∈ all) (hbs : Text.allBlank bs = true)
    (hlead : callStart bs = p ++ c :: r) (hread : s.pattern.Reads before w after gs)
    (hgroups : ∀ i, o.groupText i = gs.text i) (hw : w ++ u = (c :: r) ++ z) :
    r = [] ∧ ∃ w' new, w = '(' :: w' ∧ s.replacement o = '(' :: new := by
  have hfree : ∀ d ∈ ("lcvn[!" : Text), d ∉ c :: r := fun d hd hmem =>
    not_mem_callStart hbs d hd (hlead ▸ List.mem_append_right p hmem)
  have hlast : r = [] → c = '(' := by
    rintro rfl
    have hend := getLast?_callStart bs
    rw [hlead, List.getLast?_concat] at hend
    exact Option.some.inj hend
  have hhead : ∀ {d : Char} {v : Text}, w = d :: v → d ∉ ("lcvn[!" : Text) := by
    rintro d v rfl hd
    obtain ⟨rfl, -⟩ := List.cons.inj hw
    exact hfree d hd (by simp)
  have hsecond : ∀ {b d : Char} {v : Text}, w = b :: d :: v → d ∈ ("lcvn[!" : Text) →
      r = [] ∧ b = '(' := by
    rintro b d v rfl hd
    obtain ⟨rfl, hrest⟩ := List.cons.inj hw
    cases r with
    | nil => exact ⟨rfl, hlast rfl⟩
    | cons e r =>
      obtain ⟨rfl, -⟩ := List.cons.inj hrest
      exact absurd (by simp) (hfree d hd)
  rcases mem_all_iff.mp hs with hs | rfl | rfl
  · cases isMatch_of_reads hs hread with
    | typed _ _ h =>
      obtain ⟨kw, hkw, bs, cs, -, hsplit⟩ := h.split
      simp only [keywords, List.mem_cons, List.not_mem_nil, or_false] at hkw
      rcases hkw with rfl | rfl | rfl <;> exact absurd (by decide) (hhead hsplit)
    | @blockScoped g kw hw hkw hg hside =>
      obtain ⟨d, v, rfl, hd⟩ : ∃ d v, kw = d :: v ∧ d ∈ ("lcvn[!" : Text) := by
        rcases hkw with rfl | rfl
        · exact ⟨'l', _, rfl, by decide⟩
        · exact ⟨'c', _, rfl, by decide⟩
      rcases hside with ⟨-, rfl⟩ | ⟨b, rfl, -⟩
      · exact absurd hd (hhead hw)
      · obtain ⟨hr, rfl⟩ := hsecond hw hd
        refine ⟨hr, d :: v, "var", hw, ?_⟩
        show o.groupText 1 ++ "var" = _
        rw [hgroups, hg]
        rfl
    | spread hw => exact absurd (by decide) (hhead hw)
    | construction hw => exact absurd (by decide) (hhead hw)
  · obtain ⟨ws, bs', v, rfl, hne, hws, -⟩ := exists_of_reads_cast hread
    have hsplit : ws ++ 'a' :: ('s' :: (bs' ++ v ++ u)) = (c :: r) ++ z := by
      rw [← hw]
      simp
    exact absurd hsplit (cast_ne_callStart hbs hlead hws hne)
  · obtain ⟨b, e, hassertion, -, -, hb, -⟩ := exists_of_reads_nonNullAssertion hread
    obtain ⟨-, rfl⟩ := hsecond hassertion (by decide)
    exact absurd hb (by decide)

theorem Edits.beginsCall (hs : s ∈ all) (hbs : Text.allBlank bs = true)
    (ht : callStart bs <+: t) (h : Edits s t p q) :
    (p <+: callStart bs ∧ q = p) ∨
      ∃ p' q', p = callStart bs ++ p' ∧ q = callStart bs ++ q' := by
  induction h with
  | nil => exact .inl ⟨List.nil_prefix, rfl⟩
  | @keep p q u c hsplit _ ih =>
    rcases ih with ⟨hp, rfl⟩ | ⟨p', q', rfl, rfl⟩
    · have hnext : q ++ [c] <+: t := ⟨u, by rw [hsplit]; simp⟩
      rcases List.prefix_or_prefix_of_prefix hnext ht with hnext | ⟨p', hp'⟩
      · exact .inl ⟨hnext, rfl⟩
      · exact .inr ⟨p', p', hp'.symm, hp'.symm⟩
    · exact .inr ⟨p' ++ [c], q' ++ [c], by simp, by simp⟩
  | @replace p q w u before after gs o hsplit _ hread hgroups _ ih =>
    rcases ih with ⟨⟨r, hr⟩, rfl⟩ | ⟨p', q', rfl, rfl⟩
    · obtain ⟨z, rfl⟩ := ht
      cases r with
      | nil =>
        rw [List.append_nil] at hr
        exact .inr ⟨w, s.replacement o, by rw [hr], by rw [hr]⟩
      | cons c r =>
        have hw : w ++ u = (c :: r) ++ z := by
          rw [← hr, List.append_assoc] at hsplit
          exact (List.append_cancel_left hsplit).symm
        obtain ⟨rfl, w', new, rfl, hnew⟩ :=
          eq_parenthesis_of_reads hs hbs hr.symm hread hgroups hw
        obtain ⟨rfl, -⟩ := List.cons.inj hw
        exact .inr ⟨w', new, by rw [← hr]; simp, by rw [← hr, hnew]; simp⟩
    · exact .inr ⟨p' ++ w, q' ++ s.replacement o, by simp, by simp⟩

theorem exists_applyAll_callStart (hbs : Text.allBlank bs = true) (z : Text) :
    ∃ z', applyAll (callStart bs ++ z) = callStart bs ++ z' := by
  refine applyAll_induction (P := fun t => ∃ z', t = callStart bs ++ z') ⟨z, rfl⟩ ?_
  rintro s hs _ ⟨z, rfl⟩
  rcases (edits_apply s _).beginsCall hs hbs (List.prefix_append _ z) with
    ⟨hshort, heq⟩ | ⟨_, z', -, hz'⟩
  · exact ⟨z, heq⟩
  · exact ⟨z', hz'⟩

def IsCallLine (t : Text) : Prop :=
  ∃ bs args, t = callLine bs args ∧ Text.allBlank bs = true ∧ '\n' ∉ t

theorem isCallLine_of_ends (hbs : Text.allBlank bs = true) (hstart : t = callStart bs ++ z)
    (hend : endsCall t = true) (hline : '\n' ∉ t) : IsCallLine t := by
  obtain ⟨⟨v, hv⟩, -⟩ := exists_of_endsCall hend
  rcases List.append_eq_append_iff.mp (hstart.symm.trans hv) with ⟨k, -, rfl⟩ | ⟨k, hk, hclose⟩
  · exact ⟨bs, k, hstart, hbs, hline⟩
  · by_cases hne : k = []
    · subst hne
      obtain rfl : z = ");" := hclose.symm
      exact ⟨bs, [], hstart, hbs, hline⟩
    · have hlast := getLast?_callStart bs
      rw [hk, List.getLast?_append_of_ne_nil _ hne] at hlast
      have hmem : '(' ∈ [')', ';'] := hclose ▸ List.mem_append_left z (List.mem_of_getLast? hlast)
      exact absurd hmem (by decide)

theorem isCallLine_applyAll (hbs : Text.allBlank bs = true) (hline : '\n' ∉ callLine bs args)
    (hend : endsCall (applyAll (callLine bs args)) = true) :
    IsCallLine (applyAll (callLine bs args)) := by
  obtain ⟨z, hz⟩ := exists_applyAll_callStart hbs (args ++ ");")
  have hbreak := forall_mem_applyAll (P := (· ≠ '\n')) (by decide)
    (fun c hc => ne_of_mem_of_not_mem hc hline)
  exact isCallLine_of_ends hbs hz hend fun hmem => hbreak _ hmem rfl

theorem isCallLine_of_beginsCall (hbegins : beginsCall t = true) (hend : endsCall t = true) :
    IsCallLine t := by
  obtain ⟨hstart, hline⟩ := Bool.and_eq_true_iff.mp hbegins
  obtain ⟨z, hz⟩ := List.isPrefixOf_iff_prefix.mp hstart
  have hbs : Text.allBlank (t.takeWhile Text.isBlank) = true := List.all_takeWhile
  have hsplit : t = callStart (t.takeWhile Text.isBlank) ++ z := by
    rw [callStart, List.append_assoc, hz, List.takeWhile_append_dropWhile]
  exact isCallLine_of_ends hbs hsplit hend (by simpa using hline)

theorem IsCallLine.rewriteUpTo {n : Nat} (h : IsCallLine t) (hkeeps : keepsCall n t = true)
    (hcount : t.count '>' ≤ n) (bound : Nat) :
    IsCallLine (Arrow.rewriteUpTo Procedure.parameterTexts bound t) := by
  induction bound generalizing n t with
  | zero => exact h
  | succ bound ih =>
    rw [Arrow.rewriteUpTo]
    cases hnext : Arrow.next? Procedure.parameterTexts t with
    | none => exact h
    | some r =>
      obtain ⟨m, hbegins, hkeeps, hcount⟩ := Procedure.keepsCall_result hkeeps hcount hnext
      have hend := (Procedure.closesBlocks_of_keepsCall hkeeps).1
      exact ih (isCallLine_of_beginsCall hbegins hend) hkeeps hcount

end Substitution

namespace Text

theorem infix_of_mem_lines (t : Text) :
    (∀ l ∈ lines t, l <:+: t) ∧ ∀ l ∈ (lines t).head?, l <+: t := by
  fun_induction lines t with
  | case1 => simp
  | case2 rest ih =>
    refine ⟨List.forall_mem_cons.mpr ⟨List.nil_infix, fun l hl => (ih.1 l hl).trans ?_⟩, by simp⟩
    exact (List.suffix_cons _ rest).isInfix
  | case3 rest ih =>
    refine ⟨List.forall_mem_cons.mpr ⟨List.nil_infix, fun l hl => (ih.1 l hl).trans ?_⟩, by simp⟩
    exact ⟨['\r', '\n'], [], by simp⟩
  | case4 c rest _ _ hlines ih =>
    have hfirst : [c] <+: c :: rest := ⟨rest, rfl⟩
    exact ⟨by simpa using hfirst.isInfix, by simp⟩
  | case5 c rest _ _ l ls hlines ih =>
    rw [hlines] at ih
    have hfirst : c :: l <+: c :: rest := List.cons_prefix_cons.mpr ⟨rfl, ih.2 l rfl⟩
    refine ⟨List.forall_mem_cons.mpr ⟨hfirst.isInfix, fun m hm => ?_⟩, by simpa using hfirst⟩
    exact (ih.1 m (List.mem_cons_of_mem l hm)).trans (List.suffix_cons c rest).isInfix

theorem lines_breaks {gap : Text} (hgap : ∀ c ∈ gap, c = '\n') (t : Text) :
    lines (gap ++ t) = List.replicate gap.length [] ++ lines t := by
  induction gap with
  | nil => rfl
  | cons c gap ih =>
    obtain ⟨rfl, hrest⟩ := List.forall_mem_cons.mp hgap
    exact congrArg ([] :: ·) (ih hrest)

end Text

namespace ClassBlock

open Procedure Substitution

variable {c : ClassBlock} {m : Method} {gap rest : Text}

theorem lines_callLine {bs r : Text} (hline : '\n' ∉ callLine bs args) (hgap : ∀ c ∈ gap, c = '\n')
    (hr : gap = [] → r = []) : Text.lines (callLine bs args ++ (gap ++ r)) =
      callLine bs args :: (List.replicate (gap.length - 1) [] ++ Text.lines r) := by
  have hend : callLine bs args = (callStart bs ++ (args ++ ")")) ++ [';'] := by simp [callLine]
  cases gap with
  | nil =>
    rw [hr rfl, List.nil_append, List.append_nil]
    exact Text.lines_of_not_mem hline (by simp [hend])
  | cons c gap =>
    obtain ⟨rfl, hbreaks⟩ := List.forall_mem_cons.mp hgap
    have hreturn : (callLine bs args).getLast? ≠ some '\r' := by
      rw [hend, List.getLast?_concat]
      decide
    rw [List.cons_append, Text.lines_append_lineFeed hline hreturn, Text.lines_breaks hbreaks]
    rfl

theorem rewriteBody_eq_nil (h : normalizeIndentation rest = []) : rewriteBody rest = [] := by
  rw [rewriteBody_eq_rewriteUpTo, h]
  rfl

/-- A call on a line of its own is dropped, and no other line is. -/
theorem initializerProcedure_superCall {bs : Text} (hc : c.initializer = some m)
    (hbs : Text.allBlank bs = true) (hline : '\n' ∉ callLine bs args)
    (hstays : staysCall all (callLine bs args) = true)
    (hbody : normalizeIndentation m.body =
      callLine bs args ++ (gap ++ normalizeIndentation rest))
    (hgap : ∀ c ∈ gap, c = '\n') (hrest : gap = [] → normalizeIndentation rest = [])
    (hcast : ¬ BeginsCast (normalizeIndentation rest)) (hsuper : ¬ "super" <:+: rewriteBody rest) :
    c.initializerProcedure.body = Text.join "\n"
        (c.instanceProperties.map (fun p => Property.assignment p.name (rewriteBody p.value)) ++
          (((Parameter.readAll rewriteBody m.params).filter (·.isProperty)).map
              (fun p => Property.assignment p.name p.name) ++
            (List.replicate (gap.length - 1) [] ++ Text.lines (rewriteBody rest)))) ∧
      ∀ l ∈ Text.lines (rewriteBody rest), ¬ "super" <:+: l := by
  have hlines : ∀ l ∈ Text.lines (rewriteBody rest), ¬ "super" <:+: l := fun l hl h =>
    hsuper (h.trans ((Text.infix_of_mem_lines _).1 l hl))
  have hkept : ∀ l ∈ List.replicate (gap.length - 1) [] ++ Text.lines (rewriteBody rest),
      (!superCall.occursIn l) = true := by
    intro l hl
    rw [Bool.not_eq_true', Bool.eq_false_iff]
    intro hoccurs
    have hinfix := infix_of_occursIn_superCall hoccurs
    rcases List.mem_append.mp hl with hl | hl
    · rw [List.eq_of_mem_replicate hl] at hinfix
      exact absurd hinfix (by decide)
    · exact hlines l hl hinfix
  have hkeeps := keepsCall_applyAll hstays
  have happlied := isCallLine_applyAll hbs hline (closesBlocks_of_keepsCall hkeeps).1
  obtain ⟨bs', args', hcall, hbs', hline'⟩ :=
    happlied.rewriteUpTo hkeeps (Nat.le_refl _) ((applyAll (callLine bs args)).count '>')
  rw [hcall] at hline'
  have hargs : '\n' ∉ args' := fun hmem => hline' (by simp [callLine, hmem])
  refine ⟨?_, hlines⟩
  rw [initializerProcedure, hc]
  dsimp only [initializerLines]
  rw [rewriteBody_callLine hstays hgap hbody hrest hcast, hcall,
    lines_callLine hline' hgap fun h => rewriteBody_eq_nil (hrest h), List.filter_cons,
    occursIn_superCall hbs' hargs, List.filter_eq_self.mpr hkept]
  rfl

def discInitializer : Method :=
  { name := "constructor", kind := .plain, isStatic := false, params := "private r: number, name"
    body := "
    super(name as Label, (k) => \x7b return r!; \x7d);

    let label: string = `disc
      (round)`;
    this.label = label;
  "
    span := ⟨43, 205⟩ }

def disc : ClassBlock :=
  { name := "Disc", parent := some "Shape", span := ⟨0, 207⟩
    properties := [⟨"border", "2", false, ⟨29, 39⟩⟩]
    initializer := some discInitializer
    methods := [] }

def discArguments : Text := "name as Label, (k) => \x7b return r!; \x7d"

def discRest : Text := "
    let label: string = `disc
      (round)`;
    this.label = label;
  "

theorem initializerProcedure_superCall_disc :
    disc.initializer = some discInitializer ∧
      normalizeIndentation discInitializer.body =
        callLine [] discArguments ++ ("\n\n" ++ normalizeIndentation discRest) ∧
      staysCall all (callLine [] discArguments) = true ∧
      ¬ BeginsCast (normalizeIndentation discRest) ∧ ¬ "super" <:+: rewriteBody discRest ∧
      disc.initializerProcedure.body = "this.border = 2;\nthis.r = r;\n\nvar label = `disc
  (round)`;\nthis.label = label;" := by
  have hbody : normalizeIndentation discInitializer.body =
      callLine [] discArguments ++ ("\n\n" ++ normalizeIndentation discRest) := by
    decide +kernel
  have hstays : staysCall all (callLine [] discArguments) = true := by decide +kernel
  have hcast : ¬ BeginsCast (normalizeIndentation discRest) := by
    have hrest : normalizeIndentation discRest =
        'l' :: "et label: string = `disc\n  (round)`;\nthis.label = label;" := by decide +kernel
    rw [hrest]
    rintro ⟨bs, b, r, hsplit, hbs, -⟩
    cases bs with
    | nil => exact absurd (List.cons.inj hsplit).1 (by decide)
    | cons c bs =>
      obtain ⟨rfl, -⟩ := List.cons.inj hsplit
      exact absurd (hbs 'l' List.mem_cons_self) (by decide)
  have hsuper : ¬ "super" <:+: rewriteBody discRest := by decide +kernel
  have hmain := (initializerProcedure_superCall (c := disc) rfl rfl (by decide) hstays hbody
    (by decide) (by simp) hcast hsuper).1
  refine ⟨rfl, hbody, hstays, hcast, hsuper, hmain.trans ?_⟩
  decide +kernel

end ClassBlock

end CanvasPage
