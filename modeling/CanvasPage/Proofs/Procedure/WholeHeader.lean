import CanvasPage.Proofs.Pattern.Complete
import CanvasPage.Proofs.Procedure.AssertionsLeft
import CanvasPage.Proofs.Procedure.This
import CanvasPage.Proofs.Script.Matching

namespace CanvasPage

namespace Script

variable {b : Bracket} {s : State} {t u : Text}

theorem Bracket.exists_depthAfter?_of_not_mem (depth : Nat) (s : State) (ht : b.closer ∉ t) :
    ∃ e, b.depthAfter? depth s t = some e ∧ depth ≤ e := by
  induction t generalizing depth s with
  | nil => exact ⟨depth, rfl, Nat.le_refl depth⟩
  | cons c t ih =>
    obtain ⟨hc, ht⟩ := List.ne_and_not_mem_of_not_mem_cons ht
    rw [depthAfter?_cons (by rw [beq_false_of_ne hc.symm, Bool.and_false])]
    split
    · obtain ⟨e, he, hle⟩ := ih (depth + 1) (s.step c) ht
      exact ⟨e, he, Nat.le_of_succ_le hle⟩
    · exact ih depth (s.step c) ht

theorem Bracket.closer_mem_of_isClosed (h : isClosed (t ++ b.opener :: u) = true)
    (ht : (State.start.run t).isCode = true) : b.closer ∈ u := by
  by_contra hu
  have hbalanced := beq_iff_eq.mp (isBalanced_of_isClosed h b)
  rw [depthAfter?_append] at hbalanced
  obtain ⟨d, -, hd⟩ := Option.bind_eq_some_iff.mp hbalanced
  have hopener : ((State.start.run t).isCode && b.opener == b.closer) = false := by
    rw [beq_false_of_ne (b.opener_ne_closer b), Bool.and_false]
  rw [depthAfter?_cons hopener, ht, beq_self_eq_true, Bool.and_true, if_pos rfl] at hd
  obtain ⟨e, he, hle⟩ := exists_depthAfter?_of_not_mem (d + 1) ((State.start.run t).step b.opener) hu
  rw [hd] at he
  cases he
  cases hle

theorem Bracket.inLiteral_opener (b : Bracket) (ht : (State.start.run t).isCode = true)
    (u : Text) : inLiteral (t ++ b.opener :: u) t.length = false := by
  have hrole := b.role_opener (State.start.run t) u.head?
  rw [inLiteral_append, bne, hrole, ht]
  rfl

theorem run_start_of_isBare (ht : ∀ c ∈ t, isBare c = true) : State.start.run t = .start := by
  induction t with
  | nil => rfl
  | cons c t ih =>
    rw [State.run_cons, (start_of_isBare (ht c (by simp)) none).2]
    exact ih fun d hd => ht d (by simp [hd])

theorem eq_start_of_step_brace (h : (s.step '\x7b').isCode = true) : s.step '\x7b' = .start := by
  rcases State.eq_of_isCode h with heq | heq
  · exact heq
  · obtain ⟨mode, nesting⟩ := s
    cases mode <;> simp only [State.step, stepCode, stepTemplate] at heq <;> grind

end Script

namespace Arrow

open Pattern Script

theorem exists_append_of_not_mem {c : Char} {k q w z : Text} (hc : c ∉ w)
    (h : k ++ c :: q = w ++ z) : ∃ y, k = w ++ y ∧ z = y ++ c :: q := by
  rcases List.append_eq_append_iff.mp h with ⟨m, rfl, hm⟩ | ⟨m, rfl, hm⟩
  · cases m with
    | nil => exact ⟨[], by simp, hm.symm⟩
    | cons d m =>
      obtain ⟨rfl, -⟩ := List.cons.inj hm
      exact absurd (by simp) hc
  · exact ⟨m, rfl, hm⟩

theorem IsTail.not_mem {c : Char} {v : Text} (hv : IsTail v) (htail : isTailChar c = false)
    (hfixed : c ∉ ("=>\x7b" : Text)) : c ∉ v := by
  obtain ⟨u, ws, rfl, hu, hws⟩ := hv
  have hne : ∀ d, isTailChar d = true → c ≠ d := by
    rintro d hd rfl
    rw [hd] at htail
    cases htail
  simp only [List.mem_append, not_or]
  exact ⟨fun hmem => hne c (hu c hmem) rfl, fun hmem => hfixed (List.mem_append_left ['\x7b'] hmem),
    fun hmem => hne c (isTailChar_of_isBlank (List.all_eq_true.mp hws c hmem)) rfl,
    fun hmem => hfixed (List.mem_append_right "=>".toList hmem)⟩

theorem IsTail.arrow_isInfix {v : Text} (hv : IsTail v) : ("=>" : Text) <:+: v := by
  obtain ⟨u, ws, rfl, -⟩ := hv
  exact ⟨u, ws ++ ['\x7b'], by rw [List.append_assoc]⟩

theorem IsHeader.arrow_isInfix {p w : Text} (h : IsHeader p w) : ("=>" : Text) <:+: w := by
  cases h with
  | @parenthesized v hp hv =>
    exact hv.arrow_isInfix.trans ⟨'(' :: (p ++ [')']), [], by simp⟩
  | single hp hv => exact hv.arrow_isInfix.trans (List.suffix_append p _).isInfix

theorem IsHeader.exists_cons {p w : Text} (h : IsHeader p w) : ∃ c u, w = c :: u ∧ '(' ∉ u ∧
    (c = '(' ∨ Text.continuesIdentifier c = true) := by
  have htail : ∀ {v : Text}, IsTail v → '(' ∉ v := fun hv => hv.not_mem (by decide) (by decide)
  cases h with
  | @parenthesized v hp hv =>
    refine ⟨'(', p ++ ')' :: v, rfl, ?_, .inl rfl⟩
    simp only [List.mem_append, List.mem_cons, not_or]
    exact ⟨fun hmem => absurd (hp '(' hmem) (by decide), by decide, htail hv⟩
  | @single v hp hv =>
    obtain ⟨c, n, rfl⟩ := List.exists_cons_of_ne_nil (Text.ne_nil_of_isIdentifier hp)
    have hname := Text.continuesIdentifier_of_isIdentifier hp
    refine ⟨c, n ++ v, rfl, ?_, .inr (hname c (by simp))⟩
    simp only [List.mem_append, not_or]
    exact ⟨fun hmem => absurd (hname '(' (by simp [hmem])) (by decide), htail hv⟩

/-- A character of a type made of names, unions, arrays and generics. -/
def isResultChar (c : Char) : Bool :=
  Text.isBlank c || Text.isWordChar c || ("$.<>[]|&," : Text).contains c

/-- An arrow function with a result type, with no parentheses in its parameters and a closed block
that has neither `this` nor an arrow in it. -/
structure ArrowFunction where
  params : Text
  result : Text
  block : Text
  params_noParen : ∀ c ∈ params, isParen c = false
  params_isCode : (State.start.run params).isCode = true
  result_isResultChar : ∀ c ∈ result, isResultChar c = true
  block_isClosed : isClosed block = true
  block_noThis : mentionsThis block = false
  block_noArrow : ¬ ("=>" : Text) <:+: block

namespace ArrowFunction

variable (f : ArrowFunction)

def resultPart : Text := ": " ++ (f.result ++ " ")

def header : Text := '(' :: (f.params ++ ')' :: (f.resultPart ++ "=> \x7b"))

def text : Text := f.header ++ (f.block ++ ['\x7d'])

/-- The whole result type is what a header with parentheses may have. -/
def IsAccepted : Prop :=
  f.result ≠ [] ∧ ∀ c ∈ f.result, (Text.isWordChar c || ("$.<>[]" : Text).contains c) = true

/-- The last thing in the result type reads like a bare parameter. -/
def EndsInName : Prop :=
  ∃ a n bs, f.result = a ++ (n ++ bs) ∧ Text.isIdentifier n = true ∧ Text.allBlank bs = true ∧
    ∀ c ∈ a.getLast?, endsName c = true

variable {f} {before after x z n p v w : Text} {s : State}

theorem text_append (f : ArrowFunction) (after : Text) : f.text ++ after =
    '(' :: (f.params ++ ')' :: (f.resultPart ++ ("=> \x7b" ++ (f.block ++ '\x7d' :: after)))) := by
  simp [text, header]

section Characters

theorem isResultChar_of_mem_resultPart {c : Char} (hc : c ∈ f.resultPart) :
    isResultChar c = true ∨ c = ':' := by
  rw [resultPart, List.mem_append, List.mem_append] at hc
  rcases hc with hc | hc | hc
  · have hfixed : ∀ c ∈ (": " : Text), isResultChar c = true ∨ c = ':' := by decide
    exact hfixed c hc
  · exact .inl (f.result_isResultChar c hc)
  · obtain rfl := List.mem_singleton.mp hc
    exact .inl (by decide)

theorem not_mem_resultPart {c : Char} (hc : c ∈ ('=' :: '(' :: ')' :: wildChars)) :
    c ∉ f.resultPart := by
  have hnone : ∀ c ∈ '=' :: '(' :: ')' :: wildChars, isResultChar c = false ∧ c ≠ ':' := by decide
  intro hmem
  rcases isResultChar_of_mem_resultPart hmem with hchar | hcolon
  · rw [(hnone c hc).1] at hchar
    cases hchar
  · exact (hnone c hc).2 hcolon

theorem isBare_of_mem_resultPart {c : Char} (hc : c ∈ f.resultPart) : isBare c = true := by
  have htame : isTame c = true := (isTame_of_not_mem fun hmem =>
    not_mem_resultPart (by simp [hmem]) hc).1
  rw [isTame, Bool.and_eq_true] at htame
  exact htame.1

theorem run_list (f : ArrowFunction) (hs : s.isCode = true) (hw : ∀ c ∈ w, isBare c = true) :
    s.run ('(' :: (f.params ++ ')' :: w)) = .start := by
  have hopen : s.step '(' = .start := Bracket.paren.step_opener_of_isCode hs
  have hclose : (State.start.run f.params).step ')' = .start :=
    Bracket.paren.step_closer_of_isCode f.params_isCode
  rw [State.run_cons, hopen, State.run_append, State.run_cons, hclose, run_start_of_isBare hw]

theorem run_header (f : ArrowFunction) (hs : s.isCode = true) : s.run f.header = .start :=
  f.run_list hs (List.forall_mem_append.mpr ⟨fun c => isBare_of_mem_resultPart, by decide⟩)

theorem exists_lead (f : ArrowFunction) : ∃ lead, f.header = lead ++ ['\x7b'] ∧
    ∀ {s : State}, s.isCode = true → s.run lead = .start := by
  refine ⟨'(' :: (f.params ++ ')' :: (f.resultPart ++ "=> ")), by simp [header], fun hs => ?_⟩
  exact f.run_list hs (List.forall_mem_append.mpr ⟨fun c => isBare_of_mem_resultPart, by decide⟩)

theorem not_mem_of_isTail {c : Char} (hn : Text.isIdentifier n = true) (hv : IsTail v)
    (hc : c ∈ ("()\x7d" : Text)) : c ∉ n ++ v := by
  have hnone : ∀ c ∈ ("()\x7d" : Text), Text.continuesIdentifier c = false ∧
      isTailChar c = false ∧ c ∉ ("=>\x7b" : Text) := by decide
  obtain ⟨hcontinues, htail, hfixed⟩ := hnone c hc
  have hname : c ∉ n := fun hmem => by
    rw [Text.continuesIdentifier_of_isIdentifier hn c hmem] at hcontinues
    cases hcontinues
  rw [List.mem_append, not_or]
  exact ⟨hname, hv.not_mem htail hfixed⟩

end Characters

/-- A header stands in front of the function or behind it. -/
inductive IsApart (f : ArrowFunction) (before after x w z : Text) : Prop where
  | inFront (y : Text) (hbefore : before = x ++ (w ++ y)) (hz : z = y ++ (f.text ++ after))
  | behind (y : Text) (hx : x = before ++ (f.text ++ y)) (hafter : after = y ++ (w ++ z))

theorem isApart_or_exists_of_append_eq (hw : IsHeader p w)
    (h : before ++ (f.text ++ after) = x ++ (w ++ z)) :
    f.IsApart before after x w z ∨ ∃ k, x = before ++ k ∧ f.text ++ after = k ++ (w ++ z) := by
  rcases List.append_eq_append_iff.mp h with ⟨k, hx, hk⟩ | ⟨k, hbefore, hk⟩
  · exact .inr ⟨k, hx, hk⟩
  rcases k with _ | ⟨d, k⟩
  · exact .inr ⟨[], by simpa using hbefore.symm, hk.symm⟩
  obtain ⟨c, u, rfl, hu, -⟩ := hw.exists_cons
  obtain ⟨rfl, htail⟩ := List.cons.inj hk
  rw [text_append] at htail
  obtain ⟨y, rfl, rfl⟩ := exists_append_of_not_mem hu htail.symm
  exact .inl (.inFront y hbefore (by rw [text_append]))

theorem exists_of_append_eq_block {k : Text} (hw : IsHeader p w)
    (hcode : w.head? = some '(' → (State.start.run k).isCode = true)
    (h : f.block ++ '\x7d' :: after = k ++ (w ++ z)) :
    ∃ y, k = f.block ++ '\x7d' :: y ∧ after = y ++ (w ++ z) := by
  have hinside : ∀ a b, f.block ≠ a ++ (w ++ b) := fun a b hblock =>
    f.block_noArrow (hw.arrow_isInfix.trans ⟨a, b, by rw [hblock, List.append_assoc]⟩)
  rcases List.append_eq_append_iff.mp h with ⟨m, rfl, hm⟩ | ⟨m, hblock, hm⟩
  · rcases List.cons_eq_append_iff.mp hm with ⟨-, hstart⟩ | ⟨y, rfl, hafter⟩
    · obtain ⟨c, u, rfl, -, hc⟩ := hw.exists_cons
      obtain ⟨rfl, -⟩ := List.cons.inj hstart
      exact absurd hc (by decide)
    · exact ⟨y, rfl, hafter⟩
  cases hw with
  | single hn hv =>
    obtain ⟨y, rfl, -⟩ := exists_append_of_not_mem (not_mem_of_isTail hn hv (by simp)) hm.symm
    exact absurd hblock (hinside k y)
  | @parenthesized v hp hv =>
    rcases List.cons_eq_append_iff.mp hm with ⟨-, hstart⟩ | ⟨m, rfl, hlist⟩
    · cases hstart
    -- the list closes in the block, as the block is closed
    have hclose : ')' ∈ m :=
      Bracket.paren.closer_mem_of_isClosed (hblock ▸ f.block_isClosed) (hcode rfl)
    obtain ⟨a, b, rfl, ha⟩ := List.eq_append_cons_of_mem hclose
    have hlist : p ++ ')' :: (v ++ z) = a ++ ')' :: (b ++ '\x7d' :: after) := by simpa using hlist
    obtain ⟨rfl, hrest⟩ :=
      Text.append_cons_inj (fun hmem => absurd (hp ')' hmem) (by decide)) ha hlist
    obtain ⟨y, rfl, -⟩ := exists_append_of_not_mem (hv.not_mem (by decide) (by decide)) hrest.symm
    exact absurd hblock (by simpa using hinside k y)

theorem exists_of_append_eq_arrow {k : Text} (hn : Text.isIdentifier n = true)
    (hv : IsBareTail v) (h : "=> \x7b" ++ (f.block ++ '\x7d' :: after) = k ++ ((n ++ v) ++ z)) :
    ∃ y, k = "=> \x7b" ++ (f.block ++ '\x7d' :: y) ∧ after = y ++ ((n ++ v) ++ z) := by
  have hfixed : ∀ d ∈ ("=> \x7b" : Text), Text.continuesIdentifier d = false := by decide
  obtain ⟨c, n, rfl⟩ := List.exists_cons_of_ne_nil (Text.ne_nil_of_isIdentifier hn)
  have hc := Text.continuesIdentifier_of_isIdentifier hn c (by simp)
  have hfree : c ∉ ("=> \x7b" : Text) := fun hmem => by
    rw [hfixed c hmem] at hc
    cases hc
  obtain ⟨k, rfl, hblock⟩ := exists_append_of_not_mem hfree h.symm
  have hlist : (c :: n ++ v).head? ≠ some '(' := fun hhead => by
    obtain rfl := Option.some.inj hhead
    exact absurd hc (by decide)
  obtain ⟨y, rfl, hafter⟩ :=
    exists_of_append_eq_block (.single hn hv.isTail) (fun hhead => absurd hhead hlist) hblock
  exact ⟨y, rfl, hafter⟩

theorem exists_of_append_eq_name {u m t : Text} (hn : Text.isIdentifier n = true)
    (hv : IsBareTail v) (hresult : f.resultPart = u ++ m)
    (h : (n ++ v) ++ z = m ++ ("=> \x7b" ++ t)) :
    ∃ bs, f.resultPart = u ++ (n ++ bs) ∧ Text.allBlank bs = true := by
  obtain ⟨bs, ws, rfl, hbs, -⟩ := hv
  have hname : '=' ∉ n ++ bs := by
    rw [List.mem_append, not_or]
    refine ⟨fun hmem => ?_, fun hmem => ?_⟩
    · exact absurd (Text.continuesIdentifier_of_isIdentifier hn '=' hmem) (by decide)
    · exact absurd (List.all_eq_true.mp hbs '=' hmem) (by decide)
  have hmarks : '=' ∉ m := fun hmem =>
    not_mem_resultPart (f := f) (by simp) (hresult ▸ List.mem_append_right u hmem)
  have harrow : ("=>" : Text) = ['=', '>'] := rfl
  have hbrace : ("=> \x7b" : Text) = ['=', '>', ' ', '\x7b'] := rfl
  rw [harrow, hbrace] at h
  obtain ⟨rfl, -⟩ := Text.append_cons_inj hname hmarks (by simpa using h)
  exact ⟨bs, hresult, hbs⟩

theorem exists_of_append_eq_single {k : Text} (hn : Text.isIdentifier n = true)
    (hv : IsBareTail v)
    (h : f.params ++ ')' :: (f.resultPart ++ ("=> \x7b" ++ (f.block ++ '\x7d' :: after))) =
      k ++ ((n ++ v) ++ z)) :
    ("=>" : Text) <:+: f.params ∨
      (∃ u bs, k = f.params ++ ')' :: u ∧ f.resultPart = u ++ (n ++ bs) ∧
        Text.allBlank bs = true) ∨
      ∃ y, k = f.params ++ ')' :: (f.resultPart ++ ("=> \x7b" ++ (f.block ++ '\x7d' :: y))) ∧
        after = y ++ ((n ++ v) ++ z) := by
  have hclose : ')' ∉ n ++ v := not_mem_of_isTail hn hv.isTail (by simp)
  rcases List.append_eq_append_iff.mp h with ⟨m, rfl, hm⟩ | ⟨m, hparams, hm⟩
  · rcases List.cons_eq_append_iff.mp hm with ⟨-, hstart⟩ | ⟨u, rfl, hu⟩
    · obtain ⟨c, n, rfl⟩ := List.exists_cons_of_ne_nil (Text.ne_nil_of_isIdentifier hn)
      obtain ⟨rfl, -⟩ := List.cons.inj hstart
      exact absurd (by simp) hclose
    rcases List.append_eq_append_iff.mp hu with ⟨m, rfl, hbehind⟩ | ⟨m, hresult, hinside⟩
    · obtain ⟨y, rfl, hafter⟩ := exists_of_append_eq_arrow hn hv hbehind
      exact .inr (.inr ⟨y, rfl, hafter⟩)
    · obtain ⟨bs, hsplit, hbs⟩ := exists_of_append_eq_name hn hv hresult hinside
      exact .inr (.inl ⟨u, bs, rfl, hsplit, hbs⟩)
  · obtain ⟨y, rfl, -⟩ := exists_append_of_not_mem hclose hm.symm
    have harrow : ("=>" : Text) <:+: n ++ v :=
      hv.isTail.arrow_isInfix.trans (List.suffix_append n v).isInfix
    exact .inl (harrow.trans ⟨k, y, by rw [hparams, List.append_assoc]⟩)

theorem exists_of_append_eq_parenthesized {k : Text} (hp : ∀ c ∈ p, isParen c = false)
    (hv : IsTail v) (hcode : (State.start.run (before ++ k)).isCode = true)
    (hbefore : (State.start.run before).isCode = true)
    (h : f.text ++ after = k ++ ('(' :: (p ++ ')' :: v) ++ z)) :
    (k = [] ∧ p = f.params ∧ z = f.block ++ '\x7d' :: after) ∨
      ∃ y, k = f.text ++ y ∧ after = y ++ ('(' :: (p ++ ')' :: v) ++ z) := by
  have hclose : ∀ p : Text, (∀ c ∈ p, isParen c = false) → ')' ∉ p ∧ '(' ∉ p := fun p hp =>
    ⟨fun hmem => absurd (hp ')' hmem) (by decide), fun hmem => absurd (hp '(' hmem) (by decide)⟩
  rw [text_append] at h
  rcases List.cons_eq_append_iff.mp h with ⟨rfl, hstart⟩ | ⟨k, rfl, hk⟩
  · have hlist : f.params ++ ')' :: (f.resultPart ++ ("=> \x7b" ++ (f.block ++ '\x7d' :: after))) =
        p ++ ')' :: (v ++ z) := by simpa using (List.cons.inj hstart).2.symm
    obtain ⟨rfl, htail⟩ := Text.append_cons_inj (hclose _ f.params_noParen).1 (hclose p hp).1 hlist
    obtain ⟨u, ws, rfl, hu, hws⟩ := hv
    have harrow : ("=>" : Text) = ['=', '>'] := rfl
    have hbrace : ("=> \x7b" : Text) = ['=', '>', ' ', '\x7b'] := rfl
    have htype : '=' ∉ u := fun hmem => absurd (hu '=' hmem) (by decide)
    have hopen : Text.isBlank '\x7b' = false := by decide
    rw [harrow, hbrace] at htail
    obtain ⟨-, hrest⟩ := Text.append_cons_inj (not_mem_resultPart (by simp)) htype
      (by simpa using htail)
    obtain ⟨-, hblock⟩ := Text.eq_of_append_eq (p := Text.isBlank) (u := [' ']) (by decide)
      (List.all_eq_true.mp hws) (by simp [hopen]) (by simp [hopen]) (List.cons.inj hrest).2
    exact .inl ⟨rfl, rfl, (List.cons.inj hblock).2.symm⟩
  · have hparams : '(' ∉ f.params ++ [')'] := by
      simp [(hclose _ f.params_noParen).2]
    have htype : '(' ∉ f.resultPart ++ "=> \x7b" := by
      rw [List.mem_append, not_or]
      exact ⟨not_mem_resultPart (by simp), by decide⟩
    obtain ⟨k, rfl, hk⟩ := exists_append_of_not_mem hparams (by simpa using hk.symm)
    obtain ⟨k, rfl, hblock⟩ := exists_append_of_not_mem htype (by simpa using hk.symm)
    have hinside : (State.start.run k).isCode = true := by
      have hlead : before ++ '(' :: (f.params ++ [')'] ++ (f.resultPart ++ "=> \x7b" ++ k)) =
          before ++ (f.header ++ k) := by simp [header]
      rw [hlead, State.run_append, State.run_append, run_header f hbefore] at hcode
      exact hcode
    obtain ⟨y, rfl, hafter⟩ := exists_of_append_eq_block (.parenthesized hp hv) (fun _ => hinside)
      (by simpa using hblock)
    exact .inr ⟨y, by simp [text, header], hafter⟩

theorem endsInName_of_resultPart {u bs : Text} (hn : Text.isIdentifier n = true)
    (hbs : Text.allBlank bs = true) (h : f.resultPart = u ++ (n ++ bs))
    (hlead : ∀ c ∈ (x ++ u).getLast?, endsName c = true) : f.EndsInName := by
  have hnone : ∀ c ∈ (": " : Text), c ∉ n := fun c hc hmem => by
    have hfixed : ∀ c ∈ (": " : Text), Text.continuesIdentifier c = false := by decide
    have hname := Text.continuesIdentifier_of_isIdentifier hn c hmem
    rw [hfixed c hc] at hname
    cases hname
  obtain ⟨c, m, rfl⟩ := List.exists_cons_of_ne_nil (Text.ne_nil_of_isIdentifier hn)
  obtain ⟨a, rfl, hrest⟩ := exists_append_of_not_mem (fun hmem => hnone c hmem (by simp)) h.symm
  have ha : f.result ++ [' '] = a ++ (c :: m ++ bs) := hrest
  have hlast : ∀ c ∈ a.getLast?, endsName c = true := fun c hc => hlead c (by
    rw [List.getLast?_append, List.getLast?_append, Option.mem_def.mp hc]
    rfl)
  rcases List.eq_nil_or_concat bs with rfl | ⟨bs, d, rfl⟩
  · have hspace := congrArg List.getLast? ha
    rw [List.append_nil, List.getLast?_append_cons, List.getLast?_append_cons] at hspace
    exact absurd (List.mem_of_getLast? hspace.symm) (hnone ' ' (by simp))
  · rw [List.concat_eq_append, ← List.append_assoc, ← List.append_assoc] at ha
    obtain ⟨hresult, -⟩ := List.append_singleton_inj.mp ha
    refine ⟨a, c :: m, bs, by rw [hresult, List.append_assoc], hn, ?_, hlast⟩
    rw [Text.allBlank, List.concat_eq_append, List.all_append, Bool.and_eq_true] at hbs
    exact hbs.1

end ArrowFunction

section Occurrences

variable {params : Text → List Text} {t : Text} {r : Rewrite}

theorem cases_of_next? (hnext : next? params t = some r) :
    inLiteral t r.start.before.length = false ∧ r.stop.whole = t ∧
      ((∃ p v, t = r.start.before.reverse ++ ('(' :: (p ++ ')' :: v) ++ r.stop.after) ∧
        (∀ c ∈ p, isParen c = false) ∧ IsTail v ∧
        r.replacement = functionHeader (Text.join ", " (params p))) ∨
      ∃ n v, t = r.start.before.reverse ++ ((n ++ v) ++ r.stop.after) ∧
        (∀ c ∈ r.start.before.head?, endsName c = true) ∧ Text.isIdentifier n = true ∧
        IsBareTail v ∧ ∀ o ∈ parenthesized.occurrences t,
          isReplaceable t ⟨o.start, o.stop, o.groupText 1⟩ = false) := by
  obtain ⟨h, hfind, rfl⟩ := Option.map_eq_some_iff.mp hnext
  have hreplaceable := List.find?_some hfind
  rw [isReplaceable, Bool.and_eq_true, Bool.and_eq_true, Bool.not_eq_true'] at hreplaceable
  refine ⟨hreplaceable.1.1, whole_stop_of_mem_headers (List.mem_of_find?_eq_some hfind), ?_⟩
  rw [headers, List.find?_append] at hfind
  rcases Option.or_eq_some_iff.mp hfind with hfind | ⟨hnone, hfind⟩
  · obtain ⟨o, ho, rfl⟩ := List.mem_map.mp (List.mem_of_find?_eq_some hfind)
    obtain ⟨v, hsplit, hp, hv⟩ := exists_of_mem_parenthesized ho
    exact .inl ⟨_, v, hsplit, hp, hv, rfl⟩
  · obtain ⟨o, ho, hheader⟩ := List.mem_filterMap.mp (List.mem_of_find?_eq_some hfind)
    obtain ⟨name, hname, rfl⟩ := Option.map_eq_some_iff.mp hheader
    obtain ⟨v, hsplit, hlead, hn, hv⟩ := exists_of_mem_singleParameter ho hname
    refine .inr ⟨_, v, hsplit, hlead, hn, hv, fun o ho => ?_⟩
    rw [List.find?_eq_none] at hnone
    exact Bool.eq_false_of_not_eq_true (hnone _ (List.mem_map_of_mem ho))

theorem stop_of_append_eq {w : Text} (hwhole : r.stop.whole = t)
    (hsplit : t = r.start.before.reverse ++ (w ++ r.stop.after)) :
    r.stop.before.reverse = r.start.before.reverse ++ w := by
  rw [← List.append_assoc, ← hwhole] at hsplit
  exact List.append_cancel_right hsplit

theorem run_stop_of_next? (hnext : next? params t = some r) :
    State.start.run r.stop.before.reverse = .start := by
  obtain ⟨h, hfind, rfl⟩ := Option.map_eq_some_iff.mp hnext
  obtain ⟨x, hsplit, hstop, -⟩ := exists_of_mem_headers_split (List.mem_of_find?_eq_some hfind)
  have hreplaceable := List.find?_some hfind
  rw [isReplaceable, Bool.and_eq_true, Bool.and_eq_true, Bool.not_eq_true',
    Bool.not_eq_true'] at hreplaceable
  have hlength : h.stop.before.length - 1 = (h.start.before.reverse ++ x).length := by
    rw [← List.length_reverse, hstop, ← List.append_assoc, List.length_append]
    simp
  have htext : t = (h.start.before.reverse ++ x) ++ '\x7b' :: h.stop.after := by
    rw [hsplit]
    simp
  have hliteral := hreplaceable.1.2
  rw [hlength, htext] at hliteral
  dsimp only
  rw [hstop, ← List.append_assoc, State.run_append]
  exact Bracket.brace.step_opener_of_isCode (isCode_of_not_inLiteral (by decide) hliteral)

end Occurrences

namespace ArrowFunction

variable {f : ArrowFunction} {params : Text → List Text} {before after t u : Text} {r : Rewrite}
  {rs : List Rewrite}

theorem reads_resultType (h : f.IsAccepted) (before rest : Text) :
    resultType.Reads before f.resultPart rest [] := by
  have htype : ∀ before rest, (many1 typeChar).Reads before f.result rest [] := fun _ _ =>
    reads_many1.mpr ⟨h.1, h.2, rfl⟩
  have hblank : ∀ before rest, blanks.Reads before [' '] rest [] := fun _ _ =>
    reads_blanks.mpr ⟨by decide, rfl⟩
  have hcolon : ∀ before rest, (":" : Pattern).Reads before [':'] rest [] := fun _ _ =>
    (reads_literal _).mpr ⟨rfl, rfl⟩
  refine reads_optional.mpr (.inl (reads_append.mpr ⟨':' :: ' ' :: f.result, [' '], [], [], ?_, rfl,
    reads_append.mpr ⟨[':', ' '], f.result, [], [], rfl, rfl, reads_append.mpr ⟨[':'], [' '], [], [],
      rfl, rfl, hcolon _ _, hblank _ _⟩, htype _ _⟩, hblank _ _⟩))
  rfl

theorem reads_header (h : f.IsAccepted) (before rest : Text) :
    parenthesized.Reads before f.header rest [(1, f.params)] := by
  have hsplit : parenthesized = "(" ++ group 1 (many (noneOf "()")) ++ ")" ++ blanks ++
      resultType ++ "=>" ++ blanks ++ "\x7b" := rfl
  have hheader : f.header = ("(" : Text) ++ (f.params ++ ((")" : Text) ++ (([] : Text) ++
      (f.resultPart ++ (("=>" : Text) ++ (([' '] : Text) ++ ("\x7b" : Text))))))) := rfl
  have hparams : ∀ c ∈ f.params, (!("()" : Text).contains c) = true := fun c hc => by
    simpa [isParen] using f.params_noParen c hc
  have hliteral : ∀ t before rest : Text, (literal t).Reads before t rest [] := fun _ _ _ =>
    (reads_literal _).mpr ⟨rfl, rfl⟩
  have hblanks : ∀ t before rest : Text, Text.allBlank t = true → blanks.Reads before t rest [] :=
    fun _ _ _ ht => reads_blanks.mpr ⟨ht, rfl⟩
  rw [hsplit, hheader]
  simp only [reads_assoc]
  exact reads_append.mpr ⟨_, _, [], _, rfl, rfl, hliteral _ _ _,
    reads_append.mpr ⟨_, _, [(1, f.params)], [], rfl, rfl, ⟨[], rfl, reads_many.mpr ⟨hparams, rfl⟩⟩,
    reads_append.mpr ⟨_, _, [], [], rfl, rfl, hliteral _ _ _,
    reads_append.mpr ⟨_, _, [], [], rfl, rfl, hblanks _ _ _ rfl,
    reads_append.mpr ⟨_, _, [], [], rfl, rfl, reads_resultType h _ _,
    reads_append.mpr ⟨_, _, [], [], rfl, rfl, hliteral _ _ _,
    reads_append.mpr ⟨_, _, [], [], rfl, rfl, hblanks _ _ _ (by decide), hliteral _ _ _⟩⟩⟩⟩⟩⟩⟩

theorem not_crosses (o : Occurrence) :
    ¬ parenthesized.Crosses [] before (f.text ++ after) o := by
  rintro ⟨x, y, rfl, hne, hat, hlt⟩
  obtain ⟨w, gs, -, hafter, -, hwidth, -, -, hread⟩ := exists_reads_of_at? hat
  obtain ⟨v, rfl, hp, hv⟩ := exists_of_reads_parenthesized hread
  rcases isApart_or_exists_of_append_eq (x := []) (.parenthesized hp hv) hafter with
    happart | ⟨k, hk, -⟩
  · cases happart with
    | inFront y' hy hz =>
      rw [hwidth, hy] at hlt
      simp only [List.nil_append, List.length_append] at hlt
      omega
    | behind y' hy _ => exact hne (List.append_eq_nil_iff.mp hy.symm).1
  · exact hne (List.append_eq_nil_iff.mp hk.symm).1

theorem isReplaceable_header {h : Header} (hbefore : (State.start.run before).isCode = true)
    (hstart : h.start.before.reverse = before) (hstop : h.stop.before.reverse = before ++ f.header)
    (hblock : h.stop.after = f.block ++ '\x7d' :: after) :
    isReplaceable (before ++ (f.text ++ after)) h = true := by
  obtain ⟨lead, hlead, hrun⟩ := f.exists_lead
  have hsplit : before ++ (f.text ++ after) =
      (before ++ lead) ++ '\x7b' :: (f.block ++ '\x7d' :: after) := by
    simp [text, hlead]
  have hlength : h.stop.before.length - 1 = (before ++ lead).length := by
    rw [← List.length_reverse, hstop, hlead]
    simp only [List.length_append, List.length_cons, List.length_nil]
    omega
  have hstartCode : inLiteral (before ++ (f.text ++ after)) h.start.before.length = false := by
    rw [← List.length_reverse, hstart, text_append]
    exact Bracket.paren.inLiteral_opener hbefore _
  have hbraceCode : inLiteral (before ++ (f.text ++ after)) (h.stop.before.length - 1) = false := by
    rw [hlength, hsplit]
    exact Bracket.brace.inLiteral_opener (by rw [State.run_append, hrun hbefore]; rfl) _
  have hclosed : Bracket.brace.enclosed? h.stop.after = some (f.block, after) := by
    rw [hblock]
    exact Bracket.brace.enclosed?_append after f.block_isClosed
  rw [isReplaceable, hstartCode, hbraceCode, hclosed]
  dsimp only
  rw [f.block_noThis]
  rfl

theorem exists_replaceable (h : f.IsAccepted)
    (hbefore : (State.start.run before).isCode = true) :
    ∃ o ∈ parenthesized.occurrences (before ++ (f.text ++ after)),
      isReplaceable (before ++ (f.text ++ after)) ⟨o.start, o.stop, o.groupText 1⟩ = true := by
  have htext : f.text ++ after = f.header ++ (f.block ++ '\x7d' :: after) := by simp [text]
  obtain ⟨o, hat⟩ := exists_at?_of_reads
    (reads_header h before.reverse (f.block ++ '\x7d' :: after)) fun w rest gs hread => by
      obtain ⟨v, rfl, -⟩ := exists_of_reads_parenthesized hread
      exact List.cons_ne_nil _ _
  rw [← htext] at hat
  have hmem : o ∈ parenthesized.occurrences (before ++ (f.text ++ after)) :=
    (mem_occurrences_or_crosses hat).resolve_right fun ⟨o', hcrosses⟩ =>
      not_crosses o' hcrosses.2
  obtain ⟨w, gs, -, hafter, hstop, -, hstart, -, hread⟩ := exists_reads_of_at? hat
  obtain ⟨v, rfl, hp, hv⟩ := exists_of_reads_parenthesized hread
  rcases exists_of_append_eq_parenthesized (k := []) hp hv (by simpa using hbefore) hbefore hafter
    with ⟨-, -, hrest⟩ | ⟨y, hy, -⟩
  · have hheader : '(' :: (gs.text 1 ++ ')' :: v) = f.header :=
      List.append_cancel_right (hafter.symm.trans (hrest ▸ htext))
    refine ⟨o, hmem, isReplaceable_header hbefore ?_ ?_ ?_⟩
    · simp [hstart]
    · simp [hstop, hheader]
    · simp [hrest]
  · rw [text] at hy
    cases hy

/-- No other header reads a part of the header of the function. -/
def IsReadWhole (f : ArrowFunction) : Prop :=
  f.IsAccepted ∨ (¬ f.EndsInName ∧ ¬ ("=>" : Text) <:+: f.params)

/-- The rewrite replaces the header of the function between `before` and `after`, all of it and
nothing else. -/
structure IsReplaced (f : ArrowFunction) (params : Text → List Text) (before after : Text)
    (r : Rewrite) : Prop where
  start : r.start.before.reverse = before
  stop : r.stop.before.reverse = before ++ f.header
  block : r.stop.after = f.block ++ '\x7d' :: after
  replacement : r.replacement = "function(" ++ Text.join ", " (params f.params) ++ ") \x7b"

theorem isKeptOrReplaced_of_next? (hwhole : f.IsReadWhole)
    (hbefore : (State.start.run before).isCode = true)
    (hnext : next? params (before ++ (f.text ++ after)) = some r) :
    (∃ p w, r.stop.before.reverse = r.start.before.reverse ++ w ∧ IsHeader p w ∧
      f.IsApart before after r.start.before.reverse w r.stop.after) ∨
      f.IsReplaced params before after r := by
  obtain ⟨hliteral, hstop, ⟨p, v, hsplit, hp, hv, hreplacement⟩ |
    ⟨n, v, hsplit, hlead, hn, hv, hnone⟩⟩ := cases_of_next? hnext
  · have hheader : IsHeader p ('(' :: (p ++ ')' :: v)) := .parenthesized hp hv
    have hstop := stop_of_append_eq hstop hsplit
    rcases isApart_or_exists_of_append_eq hheader hsplit with happart | ⟨k, hx, hk⟩
    · exact .inl ⟨p, _, hstop, hheader, happart⟩
    have hcode : (State.start.run (before ++ k)).isCode = true := by
      rw [← hx]
      rw [hsplit, ← List.length_reverse] at hliteral
      exact isCode_of_not_inLiteral (by decide) hliteral
    rcases exists_of_append_eq_parenthesized hp hv hcode hbefore hk with
      ⟨rfl, rfl, hz⟩ | ⟨y, rfl, hafter⟩
    · have htext : f.header ++ (f.block ++ '\x7d' :: after) = f.text ++ after := by simp [text]
      have hw : '(' :: (f.params ++ ')' :: v) = f.header := by
        rw [hz, ← htext] at hk
        exact (List.append_cancel_right hk).symm
      rw [List.append_nil] at hx
      exact .inr ⟨hx, by rw [hstop, hx, hw], hz, hreplacement⟩
    · exact .inl ⟨p, _, hstop, hheader, .behind y hx hafter⟩
  · have hheader : IsHeader n (n ++ v) := .single hn hv.isTail
    have hstop := stop_of_append_eq hstop hsplit
    rcases isApart_or_exists_of_append_eq hheader hsplit with happart | ⟨k, hx, hk⟩
    · exact .inl ⟨n, _, hstop, hheader, happart⟩
    rcases hwhole with hwhole | ⟨hname, harrow⟩
    · obtain ⟨o, ho, hreplaceable⟩ := exists_replaceable hwhole hbefore
      rw [hnone o ho] at hreplaceable
      cases hreplaceable
    rw [text_append] at hk
    rcases List.cons_eq_append_iff.mp hk with ⟨rfl, hstart⟩ | ⟨k, rfl, hrest⟩
    · obtain ⟨c, m, rfl⟩ := List.exists_cons_of_ne_nil (Text.ne_nil_of_isIdentifier hn)
      obtain ⟨rfl, -⟩ := List.cons.inj hstart
      exact absurd (Text.continuesIdentifier_of_isIdentifier hn '(' (by simp)) (by decide)
    rcases exists_of_append_eq_single hn hv hrest with
      hparams | ⟨u, bs, rfl, hu, hbs⟩ | ⟨y, rfl, hafter⟩
    · exact absurd hparams harrow
    · refine absurd (endsInName_of_resultPart (x := before ++ '(' :: (f.params ++ [')']))
        hn hbs hu fun c hc => hlead c ?_) hname
      rw [← List.getLast?_reverse, hx]
      simpa using hc
    · exact .inl ⟨n, _, hstop, hheader, .behind y (by rw [hx, text_append]) hafter⟩

/-- What a rewrite puts in the place of a header ends in code. -/
def LeavesCode (r : Rewrite) : Prop :=
  (State.start.run (r.start.before.reverse ++ r.replacement)).isCode = true

instance (r : Rewrite) : Decidable (LeavesCode r) := inferInstanceAs (Decidable (_ = true))

theorem run_replacement_of_next? (hnext : next? params t = some r) (hcode : LeavesCode r) :
    State.start.run (r.start.before.reverse ++ r.replacement) = .start := by
  obtain ⟨p, -, -, -, hreplacement, -⟩ := exists_of_next?_eq_some hnext
  have hbrace : r.start.before.reverse ++ r.replacement =
      (r.start.before.reverse ++ ("function(" ++ Text.join ", " (params p) ++ ") ")) ++ ['\x7b'] := by
    rw [hreplacement]
    simp
  rw [LeavesCode, hbrace, State.run_append] at hcode
  rw [hbrace, State.run_append]
  exact eq_start_of_step_brace hcode

/-- The rewrites go by beside the function. Those in front of it change `before`, those behind it
`after`, and in the end it stands between `b` and `a`. -/
inductive PassesBy (f : ArrowFunction) :
    (before after : Text) → List Rewrite → (b a : Text) → Prop where
  | nil {before after : Text} : PassesBy f before after [] before after
  | inFront {before after y b a : Text} {r : Rewrite} {rs : List Rewrite}
      (hbefore : before = r.stop.before.reverse ++ y)
      (hafter : r.stop.after = y ++ (f.text ++ after))
      (hrest : PassesBy f (r.start.before.reverse ++ r.replacement ++ y) after rs b a) :
      PassesBy f before after (r :: rs) b a
  | behind {before after y b a : Text} {r : Rewrite} {rs : List Rewrite}
      (hbefore : r.start.before.reverse = before ++ (f.text ++ y))
      (hafter : before ++ (f.text ++ after) = r.stop.before.reverse ++ r.stop.after)
      (hrest : PassesBy f before (y ++ (r.replacement ++ r.stop.after)) rs b a) :
      PassesBy f before after (r :: rs) b a

/-- No rewrite that is made in front of the function leaves a literal open. -/
def LeavesCodeInFront (f : ArrowFunction) (before after : Text) (rs : List Rewrite) : Prop :=
  ∀ rs₁ r rs₂ b a, rs = rs₁ ++ r :: rs₂ → f.PassesBy before after rs₁ b a →
    r.stop.before.reverse <+: b → LeavesCode r

/-- All rewrites go by, and the function is in the text that they lead to. -/
def IsKept (f : ArrowFunction) (before after : Text) (rs : List Rewrite) (u : Text) : Prop :=
  ∃ b a, f.PassesBy before after rs b a ∧ u = b ++ (f.text ++ a)

/-- After rewrites that go by, one replaces the header. -/
def IsReplacedIn (f : ArrowFunction) (params : Text → List Text) (before after : Text)
    (rs : List Rewrite) : Prop :=
  ∃ rs₁ r rs₂ b a, rs = rs₁ ++ r :: rs₂ ∧ f.PassesBy before after rs₁ b a ∧
    f.IsReplaced params b a r

theorem isKept_or_isReplacedIn_cons {before' after' : Text}
    (hpass : ∀ {qs b a}, f.PassesBy before' after' qs b a → f.PassesBy before after (r :: qs) b a)
    (h : f.IsKept before' after' rs u ∨ f.IsReplacedIn params before' after' rs) :
    f.IsKept before after (r :: rs) u ∨ f.IsReplacedIn params before after (r :: rs) := by
  rcases h with ⟨b, a, hrest, hu⟩ | ⟨rs₁, q, rs₂, b, a, rfl, hrest, hreplaced⟩
  · exact .inl ⟨b, a, hpass hrest, hu⟩
  · exact .inr ⟨r :: rs₁, q, rs₂, b, a, rfl, hpass hrest, hreplaced⟩

theorem LeavesCodeInFront.of_cons {before' after' : Text}
    (hpass : ∀ {qs b a}, f.PassesBy before' after' qs b a → f.PassesBy before after (r :: qs) b a)
    (h : f.LeavesCodeInFront before after (r :: rs)) : f.LeavesCodeInFront before' after' rs := by
  rintro rs₁ q rs₂ b a rfl hrest hfront
  exact h (r :: rs₁) q rs₂ b a rfl (hpass hrest) hfront

theorem isKept_or_isReplacedIn (hwhole : f.IsReadWhole)
    (hbefore : (State.start.run before).isCode = true)
    (hrun : Rewrites params (before ++ (f.text ++ after)) rs u)
    (hcode : f.LeavesCodeInFront before after rs) :
    f.IsKept before after rs u ∨ f.IsReplacedIn params before after rs := by
  generalize ht : before ++ (f.text ++ after) = t at hrun
  induction hrun generalizing before after with
  | nil => exact .inl ⟨before, after, .nil, ht.symm⟩
  | @cons t u r rs hnext hrest ih =>
    rcases isKeptOrReplaced_of_next? hwhole hbefore (ht ▸ hnext) with
      ⟨p, w, hstop, hheader, happart⟩ | hreplaced
    · cases happart with
      | inFront y hx hz =>
        have hfront : before = r.stop.before.reverse ++ y := by
          rw [hx, hstop, List.append_assoc]
        have hhere : LeavesCode r := hcode [] r rs before after rfl .nil ⟨y, hfront.symm⟩
        have hresult : (r.start.before.reverse ++ r.replacement ++ y) ++ (f.text ++ after) =
            r.result := by
          rw [Rewrite.result, hz]
          simp
        rw [hfront, State.run_append, run_stop_of_next? hnext] at hbefore
        refine isKept_or_isReplacedIn_cons (.inFront hfront hz)
          (ih ?_ (hcode.of_cons (.inFront hfront hz)) hresult)
        rw [State.run_append, run_replacement_of_next? hnext hhere]
        exact hbefore
      | behind y hx hafter =>
        have hwholly : before ++ (f.text ++ after) = r.stop.before.reverse ++ r.stop.after := by
          rw [hstop, hx, hafter]
          simp
        have hresult : before ++ (f.text ++ (y ++ (r.replacement ++ r.stop.after))) = r.result := by
          rw [Rewrite.result, hx]
          simp
        exact isKept_or_isReplacedIn_cons (.behind hx hwholly)
          (ih hbefore (hcode.of_cons (.behind hx hwholly)) hresult)
    · exact .inr ⟨[], r, rs, before, after, rfl, .nil, hreplaced⟩

/-- However often arrows are rewritten, the function stays as it is or exactly its header is
replaced, where no replacement in front of it leaves a literal open. -/
theorem rewriteUpTo_keeps_or_replaces (hwhole : f.IsReadWhole)
    (hbefore : (State.start.run before).isCode = true) (after : Text) (bound : Nat) :
    ∃ rs, Rewrites Procedure.parameterTexts (before ++ (f.text ++ after)) rs
        (rewriteUpTo Procedure.parameterTexts bound (before ++ (f.text ++ after))) ∧
      (f.LeavesCodeInFront before after rs →
        f.IsKept before after rs
            (rewriteUpTo Procedure.parameterTexts bound (before ++ (f.text ++ after))) ∨
          f.IsReplacedIn Procedure.parameterTexts before after rs) := by
  obtain ⟨rs, hrs⟩ := exists_rewrites_rewriteUpTo Procedure.parameterTexts bound
    (before ++ (f.text ++ after))
  exact ⟨rs, hrs, isKept_or_isReplacedIn hwhole hbefore hrs⟩

def listed : ArrowFunction where
  params := "x: number"
  result := "string[]"
  block := " y(x); "
  params_noParen := by decide
  params_isCode := by decide
  result_isResultChar := by decide
  block_isClosed := by decide
  block_noThis := by decide
  block_noArrow := fun h =>
    absurd (h.subset (List.mem_cons_self : '=' ∈ ("=>" : Text))) (by decide)

/-- Another arrow function stands in front of the call. -/
def listedBefore : Text := "f((q) => \x7b z(q); \x7d); a.map("

def listedResult : Text := "f(function(q) \x7b z(q); \x7d); a.map(function(x) \x7b y(x); \x7d);"

theorem rewriteUpTo_keeps_or_replaces_listed :
    listed.IsReadWhole ∧ (State.start.run listedBefore).isCode = true ∧
      ∃ rs, Rewrites Procedure.parameterTexts (listedBefore ++ (listed.text ++ ");")) rs
          listedResult ∧
        listed.LeavesCodeInFront listedBefore ");" rs ∧
        listed.IsReplacedIn Procedure.parameterTexts listedBefore ");" rs := by
  have hwhole : listed.IsReadWhole := .inl ⟨by decide, by decide⟩
  have hbefore : (State.start.run listedBefore).isCode = true := by decide
  have hresult : rewriteUpTo Procedure.parameterTexts 2 (listedBefore ++ (listed.text ++ ");")) =
      listedResult := by decide +kernel
  obtain ⟨r, hfirst, hr⟩ :
      ∃ r, next? Procedure.parameterTexts (listedBefore ++ (listed.text ++ ");")) = some r ∧
        (decide (LeavesCode r) && (next? Procedure.parameterTexts r.result).any fun q =>
          decide (LeavesCode q ∧ q.result = listedResult)) = true :=
    (Option.any_eq_true ..).mp (by decide +kernel)
  rw [Bool.and_eq_true, decide_eq_true_eq, Option.any_eq_true] at hr
  obtain ⟨hleaves, q, hsecond, hq⟩ := hr
  obtain ⟨hqleaves, hend⟩ := of_decide_eq_true hq
  have hnone : next? Procedure.parameterTexts listedResult = none := by decide +kernel
  have hkept : ¬ listed.text <:+: listedResult := by decide +kernel
  obtain ⟨rs, hrs, hfunction⟩ := rewriteUpTo_keeps_or_replaces hwhole hbefore ");" 2
  rw [hresult] at hrs hfunction
  have hall : ∀ p ∈ rs, LeavesCode p := by
    rcases hrs.cases_of_next? hfirst with ⟨rfl, -⟩ | ⟨ps, rfl, hps⟩
    · simp
    rcases hps.cases_of_next? hsecond with ⟨rfl, -⟩ | ⟨qs, rfl, hqs⟩
    · simpa using hleaves
    · obtain ⟨rfl, -⟩ := hqs.eq_of_next?_none (hend ▸ hnone)
      simpa using ⟨hleaves, hqleaves⟩
  have hcode : listed.LeavesCodeInFront listedBefore ");" rs := by
    rintro rs₁ p rs₂ b a rfl - -
    exact hall p (by simp)
  refine ⟨hwhole, hbefore, rs, hrs, hcode, (hfunction hcode).resolve_left ?_⟩
  rintro ⟨b, a, -, htext⟩
  exact hkept ⟨b, a, by rw [htext, List.append_assoc]⟩

end ArrowFunction

end Arrow

end CanvasPage
