import CanvasPage.Proofs.Procedure.Assertion
import CanvasPage.Proofs.Procedure.Characters
import CanvasPage.Proofs.Procedure.Indentation

namespace CanvasPage

open Script Substitution

namespace Arrow

/-- A character that neither opens a literal nor marks an assertion. -/
def isTame (c : Char) : Bool := isBare c && c != '!'

/-- No parameter list of an arrow with a block has a string, a comment or a mark in it. -/
def HasPlainParameters (t : Text) : Prop :=
  ∀ l p v r, t = l ++ '(' :: (p ++ ')' :: (v ++ r)) → (∀ c ∈ p, isParen c = false) → IsTail v →
    ∀ c ∈ p, isTame c = true

variable {s : State} {c : Char} {p w w' before t : Text}

section Characters

def wildChars : Text := ['\'', '"', Char.ofNat 96, '/', '!', '(', ')']

theorem mem_wildChars (h : isTame c = false ∨ isParen c = true) : c ∈ wildChars := by
  have hbacktick : c = Char.ofNat 96 ↔ c.toNat = 96 := Char.toNat_inj.symm
  simp only [isTame, isBare, isQuote, isBacktick, isParen, Bool.and_eq_false_iff,
    Bool.not_eq_false', Bool.or_eq_true, beq_iff_eq, bne_eq_false_iff_eq] at h
  simp only [wildChars, List.mem_cons, List.not_mem_nil, or_false, hbacktick]
  grind

theorem isTame_of_not_mem (h : c ∉ wildChars) : isTame c = true ∧ isParen c = false := by
  constructor
  · by_contra hcontra
    exact h (mem_wildChars (.inl (by simpa using hcontra)))
  · by_contra hcontra
    exact h (mem_wildChars (.inr (by simpa using hcontra)))

theorem isTame_of_isTailChar (h : isTailChar c = true) : isTame c = true ∧ isParen c = false := by
  refine isTame_of_not_mem fun hmem => ?_
  have hwild : ∀ c ∈ wildChars, isTailChar c = false := by decide
  rw [hwild c hmem] at h
  cases h

theorem isTame_of_isIdentifier (h : Text.isIdentifier p = true) : ∀ c ∈ p, isTame c = true := by
  intro c hc
  refine (isTame_of_not_mem fun hmem => ?_).1
  have hwild : ∀ c ∈ wildChars, Text.continuesIdentifier c = false := by decide
  have hcontinues := Text.continuesIdentifier_of_isIdentifier h c hc
  rw [hwild c hmem] at hcontinues
  cases hcontinues

theorem IsTail.isTame {v : Text} (h : IsTail v) :
    (∀ c ∈ v, isTame c = true ∧ isParen c = false) ∧ ∃ u, v = u ++ ['\x7b'] := by
  obtain ⟨u, ws, rfl, hu, hws⟩ := h
  have hblank : ∀ c ∈ ws, isTailChar c = true :=
    fun c hc => isTailChar_of_isBlank (List.all_eq_true.mp hws c hc)
  refine ⟨?_, u ++ ("=>" ++ ws), by simp only [List.append_assoc]⟩
  refine List.forall_mem_append.mpr ⟨fun c hc => isTame_of_isTailChar (hu c hc),
    List.forall_mem_append.mpr ⟨by decide, List.forall_mem_append.mpr
      ⟨fun c hc => isTame_of_isTailChar (hblank c hc), by decide⟩⟩⟩

end Characters

section Openings

/-- A text that opens a block and has no assertion in it. -/
structure IsOpening (w : Text) : Prop where
  tame : ∀ c ∈ w, isTame c = true
  ends : ∃ c u, w = c :: (u ++ ['\x7b']) ∧ isQuiet c = true ∧ c ∉ '\n' :: followers

theorem IsHeader.isOpening (h : IsHeader p w) (hp : ∀ c ∈ p, isTame c = true) : IsOpening w := by
  cases h with
  | @parenthesized v hparen hv =>
    obtain ⟨htame, u, rfl⟩ := hv.isTame
    refine ⟨?_, '(', p ++ ')' :: u, by simp, by decide, by decide⟩
    refine List.forall_mem_cons.mpr ⟨by decide, List.forall_mem_append.mpr ⟨hp, ?_⟩⟩
    exact List.forall_mem_cons.mpr ⟨by decide, fun c hc => (htame c hc).1⟩
  | @single v hname hv =>
    obtain ⟨htame, u, rfl⟩ := hv.isTame
    obtain ⟨c, name, rfl⟩ := List.exists_cons_of_ne_nil (Text.ne_nil_of_isIdentifier hname)
    have hfollowers : ∀ c ∈ '\n' :: followers, Text.continuesIdentifier c = false := by decide
    have hcontinues := Text.continuesIdentifier_of_isIdentifier hname c (by simp)
    refine ⟨List.forall_mem_append.mpr ⟨hp, fun c hc => (htame c hc).1⟩, c, name ++ u, by simp,
      (isQuiet_of_isPathChar (isPathChar_of_isIdentifier hname c (by simp))).1, fun hmem => ?_⟩
    rw [hfollowers c hmem] at hcontinues
    cases hcontinues

theorem isOpening_function {ns : List Text} (hns : ∀ n ∈ ns, ∀ c ∈ n, isTame c = true) :
    IsOpening ("function(" ++ Text.join ", " ns ++ ") \x7b") := by
  refine ⟨forall_mem_replacement (by decide) hns, 'f', "unction(" ++ (Text.join ", " ns ++ ") "),
    ?_, by decide, by decide⟩
  simp only [List.append_assoc]
  rfl

theorem startsMark_append_cons (hmark : c ≠ '!') (hc : c ∉ followers) (u t : Text) :
    startsMark (u ++ c :: t) = startsMark u := by
  rcases u with _ | ⟨d, u⟩
  · simp [startsMark, hmark]
  by_cases hd : d = '!'
  · obtain rfl := hd
    rcases u with _ | ⟨e, u⟩
    · simpa [startsMark] using hc
    · rfl
  · simp [startsMark, hd]

theorem opensAssertion_of_isTame {u : Text} (hu : ∀ c ∈ u, isTame c = true) (s : State) (c : Char)
    (t : Text) : opensAssertion s c (u ++ '\x7b' :: t) = false := by
  have hmark : startsMark u = false := by
    by_contra hcontra
    obtain ⟨d, v, rfl, -⟩ := exists_of_startsMark (by simpa using hcontra)
    exact absurd (hu '!' (by simp)) (by decide)
  rw [opensAssertion, startsMark_append_cons (by decide) (by decide), hmark, Bool.and_false]

theorem occurs_start_of_isTame {u : Text} (hu : ∀ c ∈ u, isTame c = true) (t : Text) :
    occurs opensAssertion .start (u ++ '\x7b' :: t) = occurs opensAssertion .start t := by
  induction u with
  | nil => rfl
  | cons c u ih =>
    obtain ⟨hc, hu⟩ := List.forall_mem_cons.mp hu
    rw [isTame, Bool.and_eq_true] at hc
    rw [List.cons_append, occurs, opensAssertion_of_isTame hu, (start_of_isBare hc.1 none).2, ih hu,
      Bool.false_or]

theorem IsOpening.occurs_append (hw : IsOpening w) (hs : s.isCode = true) (t : Text) :
    occurs opensAssertion s (w ++ t) = occurs opensAssertion .start t := by
  obtain ⟨c, u, rfl, hquiet, -⟩ := hw.ends
  have hu : ∀ d ∈ u, isTame d = true := fun d hd => hw.tame d (by simp [hd])
  have hsplit : (c :: (u ++ ['\x7b'])) ++ t = c :: (u ++ '\x7b' :: t) := by simp
  rw [hsplit, occurs, opensAssertion_of_isTame hu, (step_of_isQuiet hs hquiet).1,
    occurs_start_of_isTame hu, Bool.false_or]

theorem IsOpening.startsMark_append (hw : IsOpening w) (u t : Text) :
    startsMark (u ++ (w ++ t)) = startsMark u := by
  obtain ⟨c, v, rfl, -, hc⟩ := hw.ends
  have htame := hw.tame c (by simp)
  refine startsMark_append_cons ?_ (List.not_mem_of_not_mem_cons hc) u _
  rintro rfl
  cases htame

theorem IsOpening.occurs_congr (hw : IsOpening w) (hw' : IsOpening w')
    (hbefore : (s.run before).isCode = true) (t : Text) :
    occurs opensAssertion s (before ++ (w ++ t)) =
      occurs opensAssertion s (before ++ (w' ++ t)) := by
  induction before generalizing s with
  | nil =>
    rw [State.run_nil] at hbefore
    rw [List.nil_append, List.nil_append, hw.occurs_append hbefore, hw'.occurs_append hbefore]
  | cons c before ih =>
    rw [List.cons_append, List.cons_append, occurs, occurs, opensAssertion, opensAssertion,
      hw.startsMark_append, hw'.startsMark_append, ih hbefore]

end Openings

section Parameters

variable {l p' v r after q : Text}

def functionHeader (p : Text) : Text := "function(" ++ p ++ ") \x7b"

theorem functionHeader_append (p t : Text) :
    functionHeader p ++ t = "function" ++ '(' :: (p ++ (')' :: ' ' :: '\x7b' :: t)) := by
  have hopen : ("function(" : Text) = ("function" : Text) ++ ['('] := rfl
  have hclose : (") \x7b" : Text) = [')', ' ', '\x7b'] := rfl
  unfold functionHeader
  rw [hclose, hopen]
  simp only [List.append_assoc, List.cons_append, List.nil_append]

theorem IsTail.exists_append (hv : IsTail v) (h : v ++ r = q ++ (functionHeader p' ++ after)) :
    ∃ r', q = v ++ r' := by
  rcases List.append_eq_append_iff.mp h with ⟨r', rfl, -⟩ | ⟨u, rfl, hrest⟩
  · exact ⟨r', rfl⟩
  rcases List.eq_nil_or_concat u with rfl | ⟨u, c, rfl⟩
  · exact ⟨[], by simp⟩
  obtain ⟨hchars, x, hlast⟩ := hv.isTame
  rw [List.concat_eq_append, ← List.append_assoc] at hlast
  obtain ⟨-, rfl⟩ := List.append_singleton_inj.mp hlast
  have hparen : '(' ∉ u.concat '\x7b' := fun hmem =>
    absurd (hchars '(' (List.mem_append_right _ hmem)).2 (by decide)
  have hbrace : '\x7b' ∈ u.concat '\x7b' := by simp
  rw [functionHeader_append] at hrest
  rcases List.append_eq_append_iff.mp hrest with ⟨y, hu, hy⟩ | ⟨y, hu, -⟩
  · rcases List.cons_eq_append_iff.mp hy with ⟨rfl, -⟩ | ⟨y, rfl, -⟩
    · rw [hu, List.append_nil] at hbrace
      exact absurd hbrace (by decide)
    · exact absurd (by rw [hu]; simp) hparen
  · have hmem : '\x7b' ∈ ("function" : Text) := hu ▸ List.mem_append_left y hbrace
    exact absurd hmem (by decide)

theorem exists_of_list_before (hp : ∀ c ∈ p, isParen c = false) (hv : IsTail v)
    (h : p ++ ')' :: (v ++ r) = q ++ (functionHeader p' ++ after)) :
    ∃ r', q = p ++ ')' :: (v ++ r') := by
  rcases List.append_eq_append_iff.mp h with ⟨x, rfl, hx⟩ | ⟨x, rfl, hx⟩
  · rcases List.cons_eq_append_iff.mp hx with ⟨rfl, hnil⟩ | ⟨x, rfl, htail⟩
    · rw [functionHeader_append] at hnil
      cases hnil
    · obtain ⟨r', rfl⟩ := hv.exists_append htail
      exact ⟨r', rfl⟩
  · rw [functionHeader_append] at hx
    have hx' : ∀ c ∈ x, (!isParen c) = true := fun c hc => by rw [hp c (by simp [hc])]; rfl
    obtain ⟨-, hparens⟩ := Text.eq_of_append_eq (by decide) hx' (by simp; decide) (by simp; decide) hx
    cases hparens

theorem subset_of_list_inside (hp : ∀ c ∈ p, isParen c = false)
    (h : p ++ ')' :: r = q ++ ')' :: after) : p ⊆ q := by
  rcases List.append_eq_append_iff.mp h with ⟨x, rfl, -⟩ | ⟨x, rfl, hx⟩
  · exact List.subset_append_left p x
  · rcases List.cons_eq_append_iff.mp hx with ⟨rfl, -⟩ | ⟨x, rfl, -⟩
    · rw [List.append_nil]
      exact List.Subset.refl q
    · exact absurd (hp ')' (by simp)) (by decide)

theorem exists_of_cons_eq_append {d : Char} {u : Text} (hne : c ≠ d) (h : c :: t = q ++ d :: u) :
    ∃ y, q = c :: y ∧ t = y ++ d :: u := by
  rcases List.cons_eq_append_iff.mp h with ⟨-, heq⟩ | ⟨y, rfl, ht⟩
  · exact absurd (List.cons.inj heq).1.symm hne
  · exact ⟨y, rfl, ht⟩

theorem HasPlainParameters.replace (h : HasPlainParameters (before ++ (w ++ after)))
    (hp' : ∀ c ∈ p', isTame c = true) :
    HasPlainParameters (before ++ (functionHeader p' ++ after)) := by
  intro l p v r hsplit hp hv
  rcases List.append_eq_append_iff.mp hsplit with ⟨x, rfl, hx⟩ | ⟨x, rfl, hx⟩
  · have hclose : (") \x7b" : Text) ++ after = ')' :: ' ' :: '\x7b' :: after := rfl
    unfold functionHeader at hx
    rw [List.append_assoc, hclose] at hx
    rcases List.append_eq_append_iff.mp hx with ⟨y, rfl, hy⟩ | ⟨y, hy, hrest⟩
    · obtain ⟨y, rfl, hspace⟩ := exists_of_cons_eq_append (by decide) hy
      obtain ⟨y, rfl, hbrace⟩ := exists_of_cons_eq_append (by decide) hspace
      obtain ⟨y, rfl, rfl⟩ := exists_of_cons_eq_append (by decide) hbrace
      exact h (before ++ (w ++ y)) p v r (by simp) hp hv
    · rcases List.cons_eq_append_iff.mp hrest with ⟨rfl, hnil⟩ | ⟨y, rfl, hq⟩
      · cases hnil
      · have htame : ∀ c ∈ ("function(" : Text) ++ p', isTame c = true :=
          List.forall_mem_append.mpr ⟨by decide, hp'⟩
        intro c hc
        exact htame c (by rw [hy]; simp [subset_of_list_inside hp hq hc])
  · rcases List.cons_eq_append_iff.mp hx with ⟨rfl, hnil⟩ | ⟨q, rfl, hq⟩
    · rw [functionHeader_append] at hnil
      cases hnil
    · obtain ⟨r', rfl⟩ := exists_of_list_before hp hv hq
      exact h l p v (r' ++ (w ++ after)) (by simp) hp hv

/-- Where a list opens, is it plain or does no arrow follow it? -/
def opensPlainListAt (t : Text) (i : Nat) : Bool :=
  let list := t.drop (i + 1)
  let rest := (list.dropWhile (!isParen ·)).drop 1
  t[i]? != some '(' || (list.takeWhile (!isParen ·)).all isTame ||
    !("=>" : Text).isPrefixOf (rest.dropWhile isTailChar)

theorem hasPlainParameters_of_checks (h : ∀ i < t.length, opensPlainListAt t i = true) :
    HasPlainParameters t := by
  rintro l p v r rfl hp ⟨u, ws, rfl, hu, -⟩
  have hinside : ∀ c ∈ p, (!isParen c) = true := fun c hc => by rw [hp c hc]; rfl
  have hlist : (l ++ '(' :: (p ++ ')' :: (u ++ ("=>" ++ (ws ++ ['\x7b'])) ++ r))).drop
      (l.length + 1) = p ++ ')' :: (u ++ ("=>" ++ (ws ++ ['\x7b'])) ++ r) := by
    rw [← List.drop_drop, List.drop_left]
    rfl
  have htake : (p ++ ')' :: (u ++ ("=>" ++ (ws ++ ['\x7b'])) ++ r)).takeWhile (!isParen ·) = p := by
    rw [List.takeWhile_append_of_pos hinside, List.takeWhile_cons_of_neg (by decide),
      List.append_nil]
  have hdrop : (p ++ ')' :: (u ++ ("=>" ++ (ws ++ ['\x7b'])) ++ r)).dropWhile (!isParen ·) =
      ')' :: (u ++ ("=>" ++ (ws ++ ['\x7b'])) ++ r) := by
    rw [List.dropWhile_append_of_pos hinside, List.dropWhile_cons_of_neg (by decide)]
  have harrow : (u ++ ("=>" ++ (ws ++ ['\x7b'])) ++ r).dropWhile isTailChar =
      "=>" ++ (ws ++ ['\x7b'] ++ r) := by
    rw [List.append_assoc, List.dropWhile_append_of_pos hu, List.append_assoc]
    rfl
  have hstarts : ("=>" : Text).isPrefixOf ("=>" ++ (ws ++ ['\x7b'] ++ r)) = true :=
    List.isPrefixOf_iff_prefix.mpr (List.prefix_append _ _)
  have hhere := h l.length (by simp)
  rw [opensPlainListAt, hlist, htake, hdrop, List.drop_one, List.tail_cons, harrow, hstarts] at hhere
  simpa using hhere

end Parameters

section Rewriting

variable {params : Text → List Text} {r : Rewrite}

theorem isCode_of_not_inLiteral (hc : c ≠ '\n')
    (h : inLiteral (before ++ c :: t) before.length = false) :
    (State.start.run before).isCode = true := by
  rw [inLiteral_append, bne_eq_false_iff_eq] at h
  exact isCode_of_emit (emit_eq_nil_of_role h) hc

theorem HasPlainParameters.next? (ht : HasPlainParameters t)
    (hparams : ∀ p : Text, (∀ c ∈ p, isTame c = true) → ∀ n ∈ params p, ∀ c ∈ n, isTame c = true)
    (h : next? params t = some r) : HasPlainParameters r.result ∧
      occurs opensAssertion .start r.result = occurs opensAssertion .start t := by
  obtain ⟨p, w, rfl, hheader, hreplacement, hcode⟩ := exists_of_next?_eq_some h
  have hp : ∀ c ∈ p, isTame c = true := by
    cases hheader with
    | @parenthesized v hparen hv =>
      exact ht r.start.before.reverse p v r.stop.after (by simp) hparen hv
    | single hname _ => exact isTame_of_isIdentifier hname
  have hresult : r.result = r.start.before.reverse ++
      (functionHeader (Text.join ", " (params p)) ++ r.stop.after) := by
    rw [Rewrite.result, hreplacement, List.append_assoc]
    rfl
  have hjoin : ∀ c ∈ Text.join ", " (params p), isTame c = true :=
    Text.forall_mem_join (by decide) (hparams p hp)
  have hopening := hheader.isOpening hp
  have hbefore : (State.start.run r.start.before.reverse).isCode = true := by
    obtain ⟨c, u, rfl, -, hc⟩ := hopening.ends
    rw [← List.length_reverse] at hcode
    exact isCode_of_not_inLiteral (List.ne_of_not_mem_cons hc) hcode
  rw [hresult]
  exact ⟨ht.replace hjoin,
    (isOpening_function (hparams p hp)).occurs_congr hopening hbefore r.stop.after⟩

theorem HasPlainParameters.rewriteUpTo (ht : HasPlainParameters t)
    (hparams : ∀ p : Text, (∀ c ∈ p, isTame c = true) → ∀ n ∈ params p, ∀ c ∈ n, isTame c = true)
    (bound : Nat) :
    occurs opensAssertion .start (rewriteUpTo params bound t) = occurs opensAssertion .start t := by
  induction bound generalizing t with
  | zero => rfl
  | succ bound ih =>
    rw [Arrow.rewriteUpTo]
    cases hnext : Arrow.next? params t with
    | none => rfl
    | some r =>
      obtain ⟨hplain, hoccurs⟩ := ht.next? hparams hnext
      exact (ih hplain).trans hoccurs

end Rewriting

end Arrow

namespace Procedure

variable {raw : Text}

def beforeAssertions (raw : Text) : Text :=
  (beforeCast ++ [Substitution.cast]).foldl (fun t s => s.apply t) (normalizeIndentation raw)

theorem applyAll_normalizeIndentation (raw : Text) :
    applyAll (normalizeIndentation raw) = nonNullAssertion.apply (beforeAssertions raw) := by
  have hall : all = beforeCast ++ [Substitution.cast] ++ [nonNullAssertion] := rfl
  rw [applyAll, hall, List.foldl_append, List.foldl_cons, List.foldl_nil, beforeAssertions]

/-- What is left of two assertions that share a parenthesis is all that rewriting leaves. -/
theorem hasAssertion_rewriteBody
    (h : Arrow.HasPlainParameters (applyAll (normalizeIndentation raw))) :
    HasAssertion (rewriteBody raw) ↔ HasNestedAssertion (beforeAssertions raw) := by
  have hwithin : ∀ depth, occurs opensAssertion .start (rewriteBodyWithin depth raw) =
      occurs opensAssertion .start (applyAll (normalizeIndentation raw)) := by
    intro depth
    cases depth with
    | zero => rfl
    | succ depth =>
      exact h.rewriteUpTo (fun p hp => Parameter.forall_mem_textsWith (by decide)
        (fun t ht => forall_mem_rewriteBodyWithin (by decide) depth ht) hp) _
  rw [hasAssertion_iff, rewriteBody, hwithin, ← hasAssertion_iff, applyAll_normalizeIndentation,
    hasAssertion_apply_iff]

def nestedSource : Text := "items.forEach((x: Item) => \x7b f(x!)!.add(); \x7d);"

theorem hasAssertion_rewriteBody_nestedSource :
    Arrow.HasPlainParameters (applyAll (normalizeIndentation nestedSource)) ∧
      HasNestedAssertion (beforeAssertions nestedSource) ∧
        HasAssertion (rewriteBody nestedSource) := by
  have hplain : Arrow.HasPlainParameters (applyAll (normalizeIndentation nestedSource)) :=
    Arrow.hasPlainParameters_of_checks (by decide +kernel)
  have hnested : HasNestedAssertion (beforeAssertions nestedSource) :=
    hasNestedAssertion_iff.mpr (by decide +kernel)
  exact ⟨hplain, hnested, (hasAssertion_rewriteBody hplain).mpr hnested⟩

end Procedure

end CanvasPage
