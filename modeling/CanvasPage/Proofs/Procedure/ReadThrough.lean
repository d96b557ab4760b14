import CanvasPage.Proofs.Procedure.Exchange
import CanvasPage.Proofs.Procedure.Reflowed
import Mathlib.Data.List.Infix

namespace CanvasPage

open Script Substitution

/-- Reads a text with a memory that the next character may refuse to extend. `s` is the state
before the text. -/
def readThrough? {M : Type} (next? : State → M → Char → Option M) (s : State) (m : M) :
    Text → Option M
  | [] => some m
  | c :: t => (next? s m c).bind fun n => readThrough? next? (s.step c) n t

section Reading

variable {M : Type} {next? : State → M → Char → Option M} {s : State} {m n : M} {c : Char}
  {t u : Text}

theorem readThrough?_append :
    readThrough? next? s m (t ++ u) =
      (readThrough? next? s m t).bind fun n => readThrough? next? (s.run t) n u := by
  induction t generalizing s m with
  | nil => rfl
  | cons c t ih =>
    rw [List.cons_append, readThrough?, readThrough?, Option.bind_assoc]
    exact congrArg _ (funext fun n => ih)

theorem exists_of_readThrough?_append (h : readThrough? next? s m (t ++ u) = some n) :
    ∃ k, readThrough? next? s m t = some k ∧ readThrough? next? (s.run t) k u = some n :=
  Option.bind_eq_some_iff.mp (readThrough?_append ▸ h)

theorem readThrough?_append_of_eq {k : M} (ht : readThrough? next? s m t = some k)
    (hu : readThrough? next? (s.run t) k u = some n) :
    readThrough? next? s m (t ++ u) = some n := by
  rw [readThrough?_append, ht, Option.bind_some, hu]

theorem exists_next?_of_readThrough?_cons (h : readThrough? next? s m (c :: t) = some n) :
    ∃ k, next? s m c = some k ∧ readThrough? next? (s.step c) k t = some n :=
  Option.bind_eq_some_iff.mp h

theorem exists_next?_of_readThrough?_concat (h : readThrough? next? s m (t ++ [c]) = some n) :
    ∃ k, next? (s.run t) k c = some n := by
  obtain ⟨k, -, hk⟩ := exists_of_readThrough?_append h
  obtain ⟨j, hj, hn⟩ := exists_next?_of_readThrough?_cons hk
  obtain rfl := Option.some.inj hn
  exact ⟨k, hj⟩

end Reading

namespace Substitution

variable {M : Type} {next? : State → M → Char → Option M} {s : Substitution} {t p q : Text}
  {m n : M}

/-- A reader that gets through the code that is replaced comes to the same through what takes its
place. -/
def Keeps (s : Substitution) (next? : State → M → Char → Option M) : Prop :=
  ∀ (before w after : Text) (gs : GroupTexts) (o : Occurrence) (r : State) (m n : M),
    s.pattern.Reads before w after gs → (∀ i, o.groupText i = gs.text i) → emitted r w = [] →
      readThrough? next? r m w = some n → readThrough? next? r m (s.replacement o) = some n

theorem Edits.readThrough? (hs : s.Exchanges) (hkeeps : s.Keeps next?) (h : Edits s t p q)
    (hp : CanvasPage.readThrough? next? .start m p = some n) :
    CanvasPage.readThrough? next? .start m q = some n := by
  induction h generalizing n with
  | nil => exact hp
  | keep hsplit h ih =>
    obtain ⟨k, hk, hc⟩ := exists_of_readThrough?_append hp
    refine readThrough?_append_of_eq (ih hk) ?_
    rwa [(h.swaps hs).reads_alike.1]
  | replace hsplit hcode hread hgroups h ih =>
    obtain ⟨k, hk, hw⟩ := exists_of_readThrough?_append hp
    refine readThrough?_append_of_eq (ih hk) ?_
    rw [(h.swaps hs).reads_alike.1]
    exact hkeeps _ _ _ _ _ _ _ _ hread hgroups hcode hw

theorem Keeps.apply (hkeeps : s.Keeps next?) (hs : s.Exchanges)
    (h : readThrough? next? .start m t = some n) :
    readThrough? next? .start m (s.apply t) = some n :=
  (edits_apply s t).readThrough? hs hkeeps h

theorem apply_of_forall_not_reads (h : ∀ before w after gs, w <:+: t →
    ¬ s.pattern.Reads before w after gs) : s.apply t = t := by
  have hsegment : ∀ g ∈ segments t, s.onSegment g = g.text := by
    intro g hg
    cases g with
    | literal l => rfl
    | code c =>
      have hc : c <:+: t := by
        obtain ⟨gs, gs', hsplit⟩ := List.append_of_mem hg
        refine ⟨gs.flatMap Segment.text, gs'.flatMap Segment.text, ?_⟩
        rw [← flatten_segments t, hsplit, List.flatMap_append, List.flatMap_cons, List.append_assoc]
        rfl
      refine Pattern.replaceAll_eq_self fun before w rest gs hsplit _ => h _ _ _ _ (.trans ?_ hc)
      exact ⟨before.reverse, rest, by rw [hsplit, List.append_assoc]⟩
  rw [apply_eq_flatMap, List.flatMap_congr hsegment, flatten_segments]

end Substitution

section Spreads

variable {s : State} {k n : Nat} {t u : Text} {c : Char}

/-- Counts the dots in a row, up to two. -/
def dotsNext? (_ : State) (dots : Nat) (c : Char) : Option Nat :=
  if c = '.' then if dots < 2 then some (dots + 1) else none else some 0

theorem not_infix_of_dots (h : readThrough? dotsNext? s k t = some n) : ¬ ("..." : Text) <:+: t := by
  rintro ⟨a, b, rfl⟩
  obtain ⟨j, hj, -⟩ := exists_of_readThrough?_append h
  obtain ⟨i, -, hi⟩ := exists_of_readThrough?_append hj
  have hdots : ("..." : Text) = ['.', '.', '.'] := rfl
  simp only [hdots, readThrough?, dotsNext?, if_true] at hi
  grind

theorem exists_dots (hk : k ≤ 2) (h : ¬ ("..." : Text) <:+: List.replicate k '.' ++ t) :
    ∃ n, readThrough? dotsNext? s k t = some n := by
  induction t generalizing s k with
  | nil => exact ⟨k, rfl⟩
  | cons c t ih =>
    by_cases hc : c = '.'
    · subst hc
      have hsplit : List.replicate k '.' ++ '.' :: t = List.replicate (k + 1) '.' ++ t := by
        rw [List.replicate_succ', List.append_assoc, List.singleton_append]
      rw [hsplit] at h
      have hlt : k < 2 := by
        refine Nat.lt_of_le_of_ne hk ?_
        rintro rfl
        exact h ⟨[], t, rfl⟩
      obtain ⟨n, hn⟩ := ih (s := s.step '.') (k := k + 1) (by omega) h
      exact ⟨n, by rw [readThrough?, dotsNext?, if_pos rfl, if_pos hlt, Option.bind_some, hn]⟩
    · have hrest : ¬ ("..." : Text) <:+: t := fun hfound =>
        h (hfound.trans ⟨List.replicate k '.' ++ [c], [], by simp⟩)
      obtain ⟨n, hn⟩ := ih (s := s.step c) (k := 0) (Nat.zero_le 2) hrest
      exact ⟨n, by rw [readThrough?, dotsNext?, if_neg hc, Option.bind_some, hn]⟩

theorem dots_concat (hc : c ≠ '.') (h : readThrough? dotsNext? s k (t ++ [c]) = some n) : n = 0 := by
  obtain ⟨j, hj⟩ := exists_next?_of_readThrough?_concat h
  rw [dotsNext?, if_neg hc] at hj
  exact (Option.some.inj hj).symm

theorem dots_of_not_mem (hne : t ≠ []) (ht : '.' ∉ t) : readThrough? dotsNext? s k t = some 0 := by
  induction t generalizing s k with
  | nil => exact absurd rfl hne
  | cons c t ih =>
    obtain ⟨hc, ht⟩ := not_or.mp (List.mem_cons.not.mp ht)
    rw [readThrough?, dotsNext?, if_neg (Ne.symm hc), Option.bind_some]
    by_cases hnil : t = []
    · rw [hnil]
      rfl
    · exact ih hnil ht

end Spreads

section Casts

/-- How far the text before has come toward a cast: `as` between blanks. -/
inductive CastLead where
  | far
  | gap
  | letter
  | word
  | past
  deriving DecidableEq, Repr

/-- No operand follows `as` and blanks. -/
def castNext? (_ : State) (l : CastLead) (c : Char) : Option CastLead :=
  if Text.isBlank c then some (if l = .word ∨ l = .past then .past else .gap)
  else if isPathChar c ∧ l = .past then none
  else if c = 'a' ∧ l = .gap then some .letter
  else if c = 's' ∧ l = .letter then some .word
  else some .far

variable {s : State} {l k : CastLead} {t u v ws bs w : Text} {c : Char}

theorem castNext?_of_ne (hc : beginsCast c = false) (h : castNext? s l c = some k) : k = .far := by
  simp only [beginsCast, Bool.or_eq_false_iff, beq_eq_false_iff_ne] at hc
  grind [castNext?]

theorem castNext?_of_not_isPathChar (hc : beginsCast c = false) (hpath : isPathChar c = false) :
    castNext? s l c = some .far := by
  simp only [beginsCast, Bool.or_eq_false_iff, beq_eq_false_iff_ne] at hc
  grind [castNext?]

theorem cast_concat (hc : beginsCast c = false)
    (h : readThrough? castNext? s l (t ++ [c]) = some k) : k = .far := by
  obtain ⟨j, hj⟩ := exists_next?_of_readThrough?_concat h
  exact castNext?_of_ne hc hj

theorem ne_past_of_cons (hc : isPathChar c = true)
    (h : readThrough? castNext? s l (c :: t) = some k) : l ≠ .past := by
  obtain ⟨j, hj, -⟩ := exists_next?_of_readThrough?_cons h
  have hblank := (isQuiet_of_isPathChar hc).2.2
  grind [castNext?]

theorem exists_cast_word (hl : l ≠ .past) (ht : ∀ c ∈ t, Text.isBlank c = false) :
    ∃ k, readThrough? castNext? s l t = some k ∧ k ≠ .past := by
  induction t generalizing s l with
  | nil => exact ⟨l, rfl, hl⟩
  | cons c t ih =>
    obtain ⟨hc, ht⟩ := List.forall_mem_cons.mp ht
    obtain ⟨j, hj, hne⟩ : ∃ j, castNext? s l c = some j ∧ j ≠ .past := by
      rw [castNext?, if_neg (by simp [hc]), if_neg (by simp [hl])]
      split
      · exact ⟨.letter, rfl, by decide⟩
      · split
        · exact ⟨.word, rfl, by decide⟩
        · exact ⟨.far, rfl, by decide⟩
    obtain ⟨k, hk, hpast⟩ := ih (s := s.step c) hne ht
    exact ⟨k, by rw [readThrough?, hj, Option.bind_some, hk], hpast⟩

theorem cast_blanks (hne : ws ≠ []) (hws : Text.allBlank ws = true) :
    readThrough? castNext? s l ws = some (if l = .word ∨ l = .past then .past else .gap) := by
  induction ws generalizing s l with
  | nil => exact absurd rfl hne
  | cons c ws ih =>
    rw [Text.allBlank, List.all_cons, Bool.and_eq_true] at hws
    rw [readThrough?, castNext?, if_pos hws.1, Option.bind_some]
    by_cases hnil : ws = []
    · rw [hnil]
      rfl
    · rw [ih hnil hws.2]
      split <;> simp

theorem not_cast_of_readThrough? (hne : ws ≠ []) (hws : Text.allBlank ws = true) (hbs : bs ≠ [])
    (hblank : Text.allBlank bs = true) (hc : isPathChar c = true) :
    readThrough? castNext? s l (u ++ (ws ++ ("as" ++ (bs ++ c :: v)))) = none := by
  rw [Option.eq_none_iff_forall_ne_some]
  intro k h
  obtain ⟨j, -, h⟩ := exists_of_readThrough?_append h
  obtain ⟨i, hi, h⟩ := exists_of_readThrough?_append h
  rw [cast_blanks hne hws, Option.some.injEq] at hi
  obtain ⟨j', hj', h⟩ := exists_of_readThrough?_append h
  have hgap : i ≠ .past := ne_past_of_cons (c := 'a') (t := ['s']) (by decide) hj'
  obtain rfl : i = .gap := by grind
  obtain rfl : j' = .word := by
    simpa [readThrough?, castNext?, (by decide : Text.isBlank 'a' = false),
      (by decide : Text.isBlank 's' = false)] using hj'.symm
  obtain ⟨i, hi, h⟩ := exists_of_readThrough?_append h
  rw [cast_blanks hbs hblank, if_pos (.inl rfl), Option.some.injEq] at hi
  exact ne_past_of_cons hc h hi.symm

/-- `as` does not stand between blanks. -/
def HasNoAs (t : Text) : Prop :=
  ∀ a c d b, t = a ++ c :: 'a' :: 's' :: d :: b → Text.isBlank c = true → Text.isBlank d = false

def startsWithAs : Text → Bool
  | c :: 'a' :: 's' :: d :: _ => Text.isBlank c && Text.isBlank d
  | _ => false

theorem hasNoAs_iff : HasNoAs t ↔ ∀ u ∈ t.tails, startsWithAs u = false := by
  constructor
  · intro h u hu
    obtain ⟨a, rfl⟩ := (List.mem_tails u t).mp hu
    unfold startsWithAs
    split
    · rename_i c d b
      cases hc : Text.isBlank c with
      | false => rfl
      | true => exact h a c d b rfl hc
    · rfl
  · rintro h a c d b rfl hc
    have hhere := h (c :: 'a' :: 's' :: d :: b) ((List.mem_tails _ _).mpr (List.suffix_append a _))
    simpa [startsWithAs, hc] using hhere

instance (t : Text) : Decidable (HasNoAs t) := decidable_of_iff _ hasNoAs_iff.symm

def CastLead.Holds (t : Text) : CastLead → Prop
  | .far => True
  | .gap => ∃ a c, t = a ++ [c] ∧ Text.isBlank c = true
  | .letter => ∃ a c, t = a ++ [c, 'a'] ∧ Text.isBlank c = true
  | .word => ∃ a c, t = a ++ [c, 'a', 's'] ∧ Text.isBlank c = true
  | .past => False

theorem HasNoAs.exists_next? (h : HasNoAs (t ++ c :: u)) (hl : l.Holds t) :
    ∃ k, castNext? s l c = some k ∧ k.Holds (t ++ [c]) := by
  have hpast : l ≠ .past := by rintro rfl; exact hl
  by_cases hc : Text.isBlank c = true
  · have hword : l ≠ .word := by
      rintro rfl
      obtain ⟨a, d, rfl, hd⟩ := hl
      rw [h a d c u (by simp) hd] at hc
      cases hc
    exact ⟨.gap, by grind [castNext?], t, c, rfl, hc⟩
  · by_cases hletter : c = 'a' ∧ l = .gap
    · obtain ⟨rfl, rfl⟩ := hletter
      obtain ⟨a, d, rfl, hd⟩ := hl
      exact ⟨.letter, by grind [castNext?], a, d, by simp, hd⟩
    · by_cases hword : c = 's' ∧ l = .letter
      · obtain ⟨rfl, rfl⟩ := hword
        obtain ⟨a, d, rfl, hd⟩ := hl
        exact ⟨.word, by grind [castNext?], a, d, by simp, hd⟩
      · exact ⟨.far, by grind [castNext?], trivial⟩

theorem HasNoAs.exists_readThrough? (h : HasNoAs (t ++ u)) (hl : l.Holds t) :
    ∃ k, readThrough? castNext? s l u = some k := by
  induction u generalizing s l t with
  | nil => exact ⟨l, rfl⟩
  | cons c u ih =>
    obtain ⟨j, hj, hholds⟩ := h.exists_next? (s := s) hl
    obtain ⟨k, hk⟩ := ih (s := s.step c) (t := t ++ [c]) (by simpa using h) hholds
    exact ⟨k, by rw [readThrough?, hj, Option.bind_some, hk]⟩

end Casts

namespace Substitution

open Pattern

variable {s : State} {l n : CastLead} {before w ws name : Text}

section Declarations

theorem dot_not_mem_declaration (h : IsAnnotated before w ws name) :
    '.' ∉ ("var" : Text) ++ (ws ++ name) := by
  intro hmem
  rcases List.mem_append.mp hmem with hmem | hmem
  · exact absurd hmem (by decide)
  · rcases List.mem_append.mp hmem with hmem | hmem
    · exact absurd (List.all_eq_true.mp h.blank '.' hmem) (by decide)
    · exact absurd (Text.continuesIdentifier_of_isIdentifier h.isIdentifier '.' hmem) (by decide)

theorem exists_cast_declaration (h : IsAnnotated before w ws name)
    (hw : readThrough? castNext? s l w = some n) :
    ∃ k, readThrough? castNext? s l ("var" ++ (ws ++ name)) = some k ∧ k ≠ .past := by
  have hl : l ≠ .past := by
    obtain ⟨kw, hkw, bs, cs, -, rfl⟩ := h.split
    obtain ⟨c, u, rfl, hc⟩ := exists_cons_of_mem_keywords hkw
    exact ne_past_of_cons (by rw [isPathChar, hc]; rfl) hw
  obtain ⟨j, hj, -⟩ := exists_cast_word (s := s) (t := "var") hl (by decide)
  obtain rfl : j = .far := cast_concat (t := ['v', 'a']) (c := 'r') (by decide) hj
  have hname : ∀ c ∈ name, Text.isBlank c = false := fun c hc =>
    (isQuiet_of_isPathChar (isPathChar_of_isIdentifier h.isIdentifier c hc)).2.2
  obtain ⟨k, hk, hpast⟩ := exists_cast_word (s := (s.run "var").run ws) (l := .gap) (by simp) hname
  refine ⟨k, readThrough?_append_of_eq hj (readThrough?_append_of_eq ?_ hk), hpast⟩
  rw [cast_blanks h.ne_nil h.blank]
  rfl

/-- Leaves of a declaration with a type `var`, its name and `stop`. -/
def DropsType (s : Substitution) (stop : Text) : Prop :=
  ∀ before w after gs o, s.pattern.Reads before w after gs → (∀ i, o.groupText i = gs.text i) →
    ∃ u c ws name, w = u ++ [c] ∧ c ≠ '.' ∧ beginsCast c = false ∧ IsAnnotated before w ws name ∧
      s.replacement o = ("var" ++ (ws ++ name)) ++ stop

theorem dropsType_typedDeclaration : typedDeclaration.DropsType " =" := by
  intro before w after gs o hread hgroups
  obtain ⟨u, ws, name, rfl, -, hannotated, hws, hname⟩ := exists_of_reads_typedDeclaration hread
  refine ⟨u, '=', ws, name, rfl, by decide, by decide, hannotated, ?_⟩
  simp [typedDeclaration, hgroups, hws, hname]

theorem dropsType_typedDeclarationWithoutValue :
    typedDeclarationWithoutValue.DropsType ";" := by
  intro before w after gs o hread hgroups
  obtain ⟨u, ws, name, rfl, -, hannotated, hws, hname⟩ :=
    exists_of_reads_typedDeclarationWithoutValue hread
  refine ⟨u, ';', ws, name, rfl, by decide, by decide, hannotated, ?_⟩
  simp [typedDeclarationWithoutValue, hgroups, hws, hname]

variable {d : Substitution} {stop : Text}

theorem DropsType.keeps_dots (hd : d.DropsType stop) (hstop : '.' ∉ stop) :
    d.Keeps dotsNext? := by
  intro before w after gs o r m n hread hgroups hcode hw
  obtain ⟨u, c, ws, name, rfl, hdot, -, hannotated, hnew⟩ := hd _ _ _ _ _ hread hgroups
  obtain rfl := dots_concat hdot hw
  rw [hnew]
  exact dots_of_not_mem (by simp)
    (List.not_mem_append (dot_not_mem_declaration hannotated) hstop)

theorem DropsType.keeps_cast (hd : d.DropsType stop)
    (hstop : ∀ r k, readThrough? castNext? r k stop = some .far) : d.Keeps castNext? := by
  intro before w after gs o r m n hread hgroups hcode hw
  obtain ⟨u, c, ws, name, rfl, -, hcast, hannotated, hnew⟩ := hd _ _ _ _ _ hread hgroups
  obtain rfl := cast_concat hcast hw
  obtain ⟨k, hk, -⟩ := exists_cast_declaration hannotated hw
  rw [hnew]
  exact readThrough?_append_of_eq hk (hstop _ k)

theorem keeps_typedDeclaration :
    typedDeclaration.Keeps dotsNext? ∧ typedDeclaration.Keeps castNext? := by
  refine ⟨dropsType_typedDeclaration.keeps_dots (by decide),
    dropsType_typedDeclaration.keeps_cast fun r k => ?_⟩
  refine readThrough?_append_of_eq (cast_blanks (List.cons_ne_nil ' ' []) (by decide)) ?_
  rw [readThrough?, castNext?_of_not_isPathChar (by decide) (by decide)]
  rfl

theorem keeps_typedDeclarationWithoutValue :
    typedDeclarationWithoutValue.Keeps dotsNext? ∧ typedDeclarationWithoutValue.Keeps castNext? := by
  refine ⟨dropsType_typedDeclarationWithoutValue.keeps_dots (by decide),
    dropsType_typedDeclarationWithoutValue.keeps_cast fun r k => ?_⟩
  show readThrough? castNext? r k [';'] = some .far
  rw [readThrough?, castNext?_of_not_isPathChar (by decide) (by decide)]
  rfl

end Declarations

section Keywords

variable {M : Type} {next? : State → M → Char → Option M} {kw : Text} {j k : Nat}

theorem keeps_of_keywords (hvar : ∀ {r m n} {kw : Text}, kw = "let" ∨ kw = "const" →
      readThrough? next? r m kw = some n → readThrough? next? r m "var" = some n) :
    blockScopedDeclaration.Keeps next? := by
  intro before w after gs o r m n hread hgroups hcode hw
  obtain ⟨g, kw, rfl, hkw, hgs, -, -⟩ := exists_of_reads_blockScopedDeclaration hread
  obtain ⟨i, hi, hw⟩ := exists_of_readThrough?_append hw
  have hnew : blockScopedDeclaration.replacement o = g ++ "var" := by
    simp only [blockScopedDeclaration, hgroups, hgs]
  rw [hnew]
  exact readThrough?_append_of_eq hi (hvar hkw hw)

theorem dots_var {r : State} (hkw : kw = "let" ∨ kw = "const")
    (h : readThrough? dotsNext? r j kw = some k) : readThrough? dotsNext? r j "var" = some k := by
  obtain rfl : k = 0 := by
    rcases hkw with rfl | rfl
    · exact dots_concat (t := ['l', 'e']) (c := 't') (by decide) h
    · exact dots_concat (t := ['c', 'o', 'n', 's']) (c := 't') (by decide) h
  exact dots_of_not_mem (by decide) (by decide)

theorem cast_var {r : State} (hkw : kw = "let" ∨ kw = "const")
    (h : readThrough? castNext? r l kw = some n) : readThrough? castNext? r l "var" = some n := by
  obtain ⟨rfl, hl⟩ : n = .far ∧ l ≠ .past := by
    rcases hkw with rfl | rfl
    · exact ⟨cast_concat (t := ['l', 'e']) (c := 't') (by decide) h,
        ne_past_of_cons (c := 'l') (by decide) h⟩
    · exact ⟨cast_concat (t := ['c', 'o', 'n', 's']) (c := 't') (by decide) h,
        ne_past_of_cons (c := 'c') (by decide) h⟩
  obtain ⟨k, hk, -⟩ := exists_cast_word (s := r) (t := "var") hl (by decide)
  obtain rfl : k = .far := cast_concat (t := ['v', 'a']) (c := 'r') (by decide) hk
  exact hk

theorem keeps_blockScopedDeclaration :
    blockScopedDeclaration.Keeps dotsNext? ∧ blockScopedDeclaration.Keeps castNext? :=
  ⟨keeps_of_keywords dots_var, keeps_of_keywords cast_var⟩

end Keywords

theorem keeps_cast_genericConstructorCall : genericConstructorCall.Keeps castNext? := by
  intro before w after gs o r m n hread hgroups hcode hw
  obtain ⟨u, rfl, -, hpath⟩ := exists_of_reads_genericConstructorCall hread
  obtain rfl : n = .far := cast_concat (t := 'n' :: u) (c := '(') (by decide) hw
  obtain ⟨k, hk, -⟩ := exists_cast_word (s := r) (t := ['n', 'e', 'w'])
    (ne_past_of_cons (by decide) hw) (by decide)
  obtain rfl : k = .far := cast_concat (t := ['n', 'e']) (c := 'w') (by decide) hk
  have hname : ∀ c ∈ gs.text 1, Text.isBlank c = false := fun c hc =>
    (isQuiet_of_isPathChar (hpath c hc)).2.2
  obtain ⟨j, hj, -⟩ := exists_cast_word (s := (r.run ['n', 'e', 'w']).run [' ']) (l := .gap)
    (by simp) hname
  have hnew : genericConstructorCall.replacement o =
      ['n', 'e', 'w'] ++ ([' '] ++ (gs.text 1 ++ ['('])) := by
    simp only [genericConstructorCall, hgroups, List.append_assoc]
    rfl
  rw [hnew]
  refine readThrough?_append_of_eq hk (readThrough?_append_of_eq
    (cast_blanks (List.cons_ne_nil _ _) (by decide)) (readThrough?_append_of_eq hj ?_))
  rw [readThrough?, castNext?_of_not_isPathChar (by decide) (by decide)]
  rfl

variable {t : Text} {k : Nat}

theorem apply_arraySpreadCopy (h : readThrough? dotsNext? .start 0 t = some k) :
    arraySpreadCopy.apply t = t := by
  refine apply_of_forall_not_reads fun before w after gs hw hread => not_infix_of_dots h ?_
  obtain ⟨u, v, rfl, -⟩ := exists_of_reads_arraySpreadCopy hread
  exact List.IsInfix.trans ⟨'[' :: u, v ++ [']'], by simp⟩ hw

theorem apply_cast (h : readThrough? castNext? .start .far t = some n) : cast.apply t = t := by
  refine apply_of_forall_not_reads fun before w after gs hw hread => ?_
  obtain ⟨ws, bs, v, rfl, hne, hws, hbs, hblank, c, u, rfl, hc⟩ := exists_of_reads_cast hread
  obtain ⟨a, b, rfl⟩ := hw
  have hnone := not_cast_of_readThrough? (s := .start) (l := .far) (u := a) (v := u ++ b) hne hws
    hbs hblank hc
  simp only [List.append_assoc, List.cons_append] at h hnone
  rw [hnone] at h
  cases h

end Substitution

end CanvasPage
