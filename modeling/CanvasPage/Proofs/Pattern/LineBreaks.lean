import CanvasPage.Proofs.Pattern.Language
import CanvasPage.Proofs.Pattern.Literal
import CanvasPage.Proofs.Pattern.Run
import CanvasPage.Proofs.Text.LineBreaks

namespace CanvasPage

open Text

/-- A text that is read twice, as it is and with carriage returns, and what is before it each
time. -/
structure Twice where
  text : Text
  before : Text
  before' : Text

namespace Twice

def plain (x : Twice) (u v : Text) (gs : List (Nat × Capture)) : Progress :=
  ⟨⟨u.reverse ++ x.before, v⟩, u.length, gs⟩

def broken (x : Twice) (u v : Text) (gs : List (Nat × Capture)) : Progress :=
  ⟨⟨(toCrlf u).reverse ++ x.before', toCrlf v⟩, (toCrlf u).length, gs⟩

/-- The place after the carriage return of a line break that `v` follows. The text as it is has
none like it. -/
def inBreak (x : Twice) (u v : Text) (gs : List (Nat × Capture)) : Progress :=
  ⟨⟨'\r' :: ((toCrlf u).reverse ++ x.before'), '\n' :: toCrlf v⟩, (toCrlf u).length + 1, gs⟩

end Twice

namespace Pattern

variable {x : Twice} {n : Nat} {k k' l l' : Progress → Option Progress} {test : Char → Bool}
  {u v : Text} {gs gs' : List (Nat × Capture)} {c : Char} {a a' b b' : Option Progress}
  {p q : Pattern}

section Steps

variable {α : Type} {m : Progress → Option α}

theorem run_one_plain (c : Char) : (one test).run (x.plain u (c :: v) gs) m =
    if test c then m (x.plain (u ++ [c]) v gs) else none := by
  rw [Twice.plain, run_one_cons, Twice.plain]
  simp

theorem run_one_broken (h : c ≠ '\n') : (one test).run (x.broken u (c :: v) gs) m =
    if test c then m (x.broken (u ++ [c]) v gs) else none := by
  rw [Twice.broken, toCrlf_cons h, run_one_cons, Twice.broken]
  simp [toCrlf_cons h]

theorem run_one_broken_lineFeed : (one test).run (x.broken u ('\n' :: v) gs) m =
    if test '\r' then m (x.inBreak u v gs) else none := by
  rw [Twice.broken, toCrlf_lineFeed, run_one_cons, Twice.inBreak]

theorem run_one_inBreak : (one test).run (x.inBreak u v gs) m =
    if test '\n' then m (x.broken (u ++ ['\n']) v gs) else none := by
  rw [Twice.inBreak, run_one_cons, Twice.broken]
  simp

theorem run_many_one (p : Progress) : (many (one test)).run p m =
    ((one test).run p fun q => (many (one test)).run q m).or (m p) := by
  obtain ⟨⟨before, after⟩, width, groups⟩ := p
  rw [run_many]
  cases after with
  | nil => rfl
  | cons c rest =>
    rw [run_one_cons, run_one_cons]
    simp

end Steps

/-- Groups that hold the same texts, but for the carriage returns. -/
def SameGroups (gs gs' : List (Nat × Capture)) : Prop :=
  gs'.map (fun g => (g.1, g.2.text)) = gs.map fun g => (g.1, toCrlf g.2.text)

theorem SameGroups.congr {hs hs' : List (Nat × Capture)} (h : SameGroups gs gs')
    (hgs : hs.map (fun g => (g.1, g.2.text)) = gs.map fun g => (g.1, g.2.text))
    (hgs' : hs'.map (fun g => (g.1, g.2.text)) = gs'.map fun g => (g.1, g.2.text)) :
    SameGroups hs hs' := by
  have hbreaks := congrArg (List.map fun g : Nat × Text => (g.1, toCrlf g.2)) hgs
  rw [List.map_map, List.map_map] at hbreaks
  exact hgs'.trans (h.trans hbreaks.symm)

/-- Two matches that end at the same place, or none. -/
inductive Alike (x : Twice) : Option Progress → Option Progress → Prop
  | none : Alike x none none
  | some {u v : Text} {gs gs' : List (Nat × Capture)} (h : u ++ v = x.text)
      (hgs : SameGroups gs gs') : Alike x (some (x.plain u v gs)) (some (x.broken u v gs'))

theorem Alike.or (ha : Alike x a a') (hb : Alike x b b') : Alike x (a.or b) (a'.or b') := by
  cases ha with
  | none => rwa [Option.none_or, Option.none_or]
  | some h hgs => exact .some h hgs

/-- At the places with less than `n` characters ahead, `k'` finds with carriage returns what `k`
finds without them. -/
structure Keeps (x : Twice) (n : Nat) (k k' : Progress → Option Progress) : Prop where
  alike : ∀ {u v gs gs'}, u ++ v = x.text → v.length < n → SameGroups gs gs' →
    Alike x (k (x.plain u v gs)) (k' (x.broken u v gs'))
  fails : ∀ {u v gs gs'}, u ++ v = x.text → v.length < n → k (x.plain u v gs) = none →
    k' (x.broken u v gs') = none

/-- And it finds nothing inside a line break if there is nothing to find after it. -/
structure Lockstep (x : Twice) (n : Nat) (k k' : Progress → Option Progress) : Prop
    extends Keeps x n k k' where
  failsInBreak : ∀ {u v gs gs'}, u ++ '\n' :: v = x.text → v.length < n →
    k (x.plain (u ++ ['\n']) v gs) = none → k' (x.inBreak u v gs') = none

section Combining

theorem Keeps.mono {m : Nat} (hm : m ≤ n) (h : Keeps x n k k') : Keeps x m k k' :=
  ⟨fun huv hv => h.alike huv (by omega), fun huv hv => h.fails huv (by omega)⟩

theorem Lockstep.mono {m : Nat} (hm : m ≤ n) (h : Lockstep x n k k') : Lockstep x m k k' :=
  { h.toKeeps.mono hm with failsInBreak := fun huv hv => h.failsInBreak huv (by omega) }

theorem Keeps.or (hk : Keeps x n k k') (hl : Keeps x n l l') :
    Keeps x n (fun p => (k p).or (l p)) (fun p => (k' p).or (l' p)) where
  alike huv hv hgs := (hk.alike huv hv hgs).or (hl.alike huv hv hgs)
  fails huv hv h := by
    rw [Option.or_eq_none_iff] at h ⊢
    exact ⟨hk.fails huv hv h.1, hl.fails huv hv h.2⟩

theorem Lockstep.or (hk : Lockstep x n k k') (hl : Lockstep x n l l') :
    Lockstep x n (fun p => (k p).or (l p)) (fun p => (k' p).or (l' p)) where
  toKeeps := hk.toKeeps.or hl.toKeeps
  failsInBreak huv hv h := by
    rw [Option.or_eq_none_iff] at h ⊢
    exact ⟨hk.failsInBreak huv hv h.1, hl.failsInBreak huv hv h.2⟩

theorem lockstep_some (x : Twice) (n : Nat) : Lockstep x n some some where
  alike huv _ hgs := .some huv hgs
  fails _ _ h := by cases h
  failsInBreak _ _ h := by cases h

end Combining

/-- A pattern that takes something, and neither starts nor stops inside a line break. -/
structure IsFirm (p : Pattern) : Prop where
  keeps : ∀ x n k k', Keeps x n k k' → Keeps x (n + 1) (p.run · k) (p.run · k')
  failsInBreak : ∀ (x : Twice) u v gs (k : Progress → Option Progress),
    p.run (x.inBreak u v gs) k = none

/-- A pattern that does not stop inside a line break. -/
def IsSolid (p : Pattern) : Prop :=
  ∀ x n k k', Keeps x n k k' → Keeps x n (p.run · k) (p.run · k')

def IsSteady (p : Pattern) : Prop :=
  ∀ x n k k', Lockstep x n k k' → Lockstep x n (p.run · k) (p.run · k')

/-- A pattern that may stop inside a line break, but must not start there. -/
def IsLoose (p : Pattern) : Prop :=
  ∀ x n k k', Lockstep x n k k' → Keeps x n (p.run · k) (p.run · k')

section Classes

theorem IsFirm.isSolid (h : IsFirm p) : IsSolid p :=
  fun x n k k' hk => (h.keeps x n k k' hk).mono (Nat.le_succ n)

theorem IsFirm.lockstep (h : IsFirm p) (hk : Keeps x n k k') :
    Lockstep x (n + 1) (p.run · k) (p.run · k') :=
  { h.keeps x n k k' hk with failsInBreak := fun _ _ _ => h.failsInBreak x _ _ _ k' }

theorem IsFirm.isSteady (h : IsFirm p) : IsSteady p :=
  fun _ n _ _ hk => (h.lockstep hk.toKeeps).mono (Nat.le_succ n)

theorem IsSteady.isLoose (h : IsSteady p) : IsLoose p :=
  fun x n k k' hk => (h x n k k' hk).toKeeps

theorem IsFirm.append (hp : IsFirm p) (hq : IsSolid q) : IsFirm (p ++ q) := by
  constructor
  · intro x n k k' hk
    simp only [run_append]
    exact hp.keeps x n _ _ (hq x n k k' hk)
  · intro x u v gs k
    rw [run_append, hp.failsInBreak]

theorem IsFirm.appendLoose (hp : IsFirm p) (hq : IsLoose q) : IsSteady (p ++ q) := by
  intro x n k k' hk
  simp only [run_append]
  exact (hp.lockstep (hq x n k k' hk)).mono (Nat.le_succ n)

theorem IsSolid.append (hp : IsSolid p) (hq : IsSolid q) : IsSolid (p ++ q) := by
  intro x n k k' hk
  simp only [run_append]
  exact hp x n _ _ (hq x n k k' hk)

theorem IsSteady.append (hp : IsSteady p) (hq : IsSteady q) : IsSteady (p ++ q) := by
  intro x n k k' hk
  simp only [run_append]
  exact hp x n _ _ (hq x n k k' hk)

theorem IsSteady.appendFirm (hp : IsSteady p) (hq : IsFirm q) : IsSolid (p ++ q) := by
  intro x n k k' hk
  simp only [run_append]
  exact (hp x n _ _ ((hq.lockstep hk).mono (Nat.le_succ n))).toKeeps

theorem IsLoose.append (hp : IsLoose p) (hq : IsSteady q) : IsLoose (p ++ q) := by
  intro x n k k' hk
  simp only [run_append]
  exact hp x n _ _ (hq x n k k' hk)

theorem IsLoose.appendFirm (hp : IsLoose p) (hq : IsFirm q) : IsSolid (p ++ q) := by
  intro x n k k' hk
  simp only [run_append]
  exact hp x n _ _ ((hq.lockstep hk).mono (Nat.le_succ n))

theorem IsSolid.appendLoose (hp : IsSolid p) (hq : IsLoose q) : IsLoose (p ++ q) := by
  intro x n k k' hk
  simp only [run_append]
  exact hp x n _ _ (hq x n k k' hk)

theorem IsSolid.optional (h : IsSolid p) : IsSolid (optional p) := by
  intro x n k k' hk
  simp only [run_optional]
  exact (h x n k k' hk).or hk

theorem IsSteady.optional (h : IsSteady p) : IsSteady (Pattern.optional p) := by
  intro x n k k' hk
  simp only [run_optional]
  exact (h x n k k' hk).or hk

theorem isFirm_anyOf {ps : List Pattern} (h : ∀ p ∈ ps, IsFirm p) : IsFirm (anyOf ps) := by
  constructor
  · intro x n k k' hk
    induction ps with
    | nil =>
      simp only [run_anyOf_nil]
      exact ⟨fun _ _ _ => .none, fun _ _ _ => rfl⟩
    | cons p ps ih =>
      simp only [run_anyOf_cons]
      exact ((h p (by simp)).keeps x n k k' hk).or (ih fun q hq => h q (by simp [hq]))
  · intro x u v gs k
    exact run_anyOf_eq_none fun p hp => (h p hp).failsInBreak x u v gs k

theorem run_inputEnd_eq_none {α : Type} {m : Progress → Option α} {r : Progress}
    (h : r.cursor.after ≠ []) : inputEnd.run r m = none := by
  rw [run, ends, if_neg (by simpa using h), List.findSome?_nil]

theorem isSteady_inputEnd : IsSteady inputEnd := by
  intro x n k k' hk
  have hboth : ∀ u v gs gs', v = [] ∧ inputEnd.run (x.plain u v gs) k = k (x.plain u v gs) ∧
        inputEnd.run (x.broken u v gs') k' = k' (x.broken u v gs') ∨
      inputEnd.run (x.plain u v gs) k = none ∧ inputEnd.run (x.broken u v gs') k' = none := by
    intro u v gs gs'
    by_cases hv : v = []
    · subst hv
      exact .inl ⟨rfl, run_inputEnd rfl _, run_inputEnd rfl _⟩
    · exact .inr ⟨run_inputEnd_eq_none hv, run_inputEnd_eq_none (mt toCrlf_eq_nil.mp hv)⟩
  constructor
  · constructor
    · intro u v gs gs' huv hv hgs
      rcases hboth u v gs gs' with ⟨-, h, h'⟩ | ⟨h, h'⟩
      · rw [h, h']
        exact hk.alike huv hv hgs
      · rw [h, h']
        exact .none
    · intro u v gs gs' huv hv hnone
      rcases hboth u v gs gs' with ⟨-, h, h'⟩ | ⟨-, h'⟩
      · rw [h] at hnone
        rw [h']
        exact hk.fails huv hv hnone
      · exact h'
  · intro u v gs gs' _ _ _
    exact run_inputEnd_eq_none (List.cons_ne_nil _ _)

theorem head?_reverse_append_any {test : Char → Bool} {before before' : Text}
    (h : before'.head?.any test = before.head?.any test) (u : Text) :
    ((toCrlf u).reverse ++ before').head?.any test = (u.reverse ++ before).head?.any test := by
  rw [List.head?_append, List.head?_append, List.head?_reverse, List.head?_reverse,
    getLast?_toCrlf]
  cases u.getLast? with
  | none => exact h
  | some c => rfl

theorem Keeps.wordBoundary (hk : Keeps x n k k')
    (hx : x.before'.head?.any isWordChar = x.before.head?.any isWordChar) :
    Keeps x n (wordBoundary.run · k) (wordBoundary.run · k') := by
  have hsame : ∀ u v gs gs', (x.broken u v gs').cursor.atWordBoundary =
      (x.plain u v gs).cursor.atWordBoundary := by
    intro u v gs gs'
    rw [Cursor.atWordBoundary, Cursor.atWordBoundary, Twice.broken, Twice.plain]
    dsimp only
    rw [head?_reverse_append_any hx, any_head?_toCrlf rfl]
  have hrun : ∀ {r : Progress}, r.cursor.atWordBoundary = false →
      ∀ m : Progress → Option Progress, Pattern.wordBoundary.run r m = none := by
    intro r hr m
    rw [run, ends, if_neg (by simp [hr]), List.findSome?_nil]
  constructor
  · intro u v gs gs' huv hv hgs
    cases hat : (x.plain u v gs).cursor.atWordBoundary with
    | true =>
      rw [run_wordBoundary hat, run_wordBoundary ((hsame u v gs gs').trans hat)]
      exact hk.alike huv hv hgs
    | false =>
      rw [hrun hat, hrun ((hsame u v gs gs').trans hat)]
      exact .none
  · intro u v gs gs' huv hv hnone
    cases hat : (x.plain u v gs).cursor.atWordBoundary with
    | true =>
      rw [run_wordBoundary hat] at hnone
      rw [run_wordBoundary ((hsame u v gs gs').trans hat)]
      exact hk.fails huv hv hnone
    | false => exact hrun ((hsame u v gs gs').trans hat) _

end Classes

section Characters

/-- Inside a line break `k'` finds what `k` finds after it. -/
structure Bridges (x : Twice) (n : Nat) (k k' : Progress → Option Progress) : Prop where
  alike : ∀ {u v gs gs'}, u ++ '\n' :: v = x.text → v.length < n → SameGroups gs gs' →
    Alike x (k (x.plain (u ++ ['\n']) v gs)) (k' (x.inBreak u v gs'))
  fails : ∀ {u v gs gs'}, u ++ '\n' :: v = x.text → v.length < n →
    k (x.plain (u ++ ['\n']) v gs) = none → k' (x.inBreak u v gs') = none

theorem append_singleton_append (u : Text) (c : Char) (v : Text) : u ++ [c] ++ v = u ++ c :: v := by
  rw [List.append_assoc, List.singleton_append]

theorem keeps_one (h : test '\r' = test '\n') (hk : Keeps x n k k')
    (hb : test '\n' = true → Bridges x n k k') :
    Keeps x (n + 1) ((one test).run · k) ((one test).run · k') where
  alike := by
    intro u v gs gs' huv hv hgs
    cases v with
    | nil => exact .none
    | cons c v =>
      have hlt : v.length < n := Nat.lt_of_succ_lt_succ hv
      by_cases hc : c = '\n'
      · subst hc
        simp only [run_one_plain, run_one_broken_lineFeed, h]
        split
        · rename_i hn
          exact (hb hn).alike huv hlt hgs
        · exact .none
      · simp only [run_one_plain, run_one_broken hc]
        split
        · exact hk.alike ((append_singleton_append u c v).trans huv) hlt hgs
        · exact .none
  fails := by
    intro u v gs gs' huv hv hnone
    cases v with
    | nil => rfl
    | cons c v =>
      have hlt : v.length < n := Nat.lt_of_succ_lt_succ hv
      by_cases hc : c = '\n'
      · subst hc
        simp only [run_one_plain, run_one_broken_lineFeed, h] at hnone ⊢
        split
        · rename_i hn
          rw [if_pos hn] at hnone
          exact (hb hn).fails huv hlt hnone
        · rfl
      · simp only [run_one_plain, run_one_broken hc] at hnone ⊢
        split
        · rename_i htest
          rw [if_pos htest] at hnone
          exact hk.fails ((append_singleton_append u c v).trans huv) hlt hnone
        · rfl

theorem isFirm_one (hr : test '\r' = false) (hn : test '\n' = false) : IsFirm (one test) := by
  constructor
  · intro x n k k' hk
    refine keeps_one (hr.trans hn.symm) hk fun h => ?_
    rw [hn] at h
    cases h
  · intro x u v gs k
    rw [run_one_inBreak, hn, if_neg Bool.false_ne_true]

theorem isFirm_literal {w : Text} (hw : w ≠ []) (hr : '\r' ∉ w) (hn : '\n' ∉ w) :
    IsFirm (literal w) := by
  induction w with
  | nil => exact absurd rfl hw
  | cons c w ih =>
    rw [List.mem_cons, not_or] at hr hn
    have hone : IsFirm (one (· == c)) :=
      isFirm_one (beq_false_of_ne hr.1) (beq_false_of_ne hn.1)
    cases w with
    | nil => exact hone
    | cons d w => exact hone.append (ih (List.cons_ne_nil d w) hr.2 hn.2).isSolid

theorem run_literal_plain (w : Text) : (literal w).run (x.plain u (w ++ v) gs) k =
    k (x.plain (u ++ w) v gs) := by
  rw [Twice.plain, run_literal_append, Twice.plain]
  simp

theorem run_literal_broken {w : Text} (hn : '\n' ∉ w) :
    (literal w).run (x.broken u (w ++ v) gs) k = k (x.broken (u ++ w) v gs) := by
  rw [Twice.broken, toCrlf_append, toCrlf_of_not_mem hn, run_literal_append, Twice.broken]
  simp [toCrlf_of_not_mem hn]

theorem keeps_literal {w : Text} (hr : '\r' ∉ w) (hn : '\n' ∉ w)
    (halike : ∀ {u v gs gs'}, u ++ (w ++ v) = x.text → SameGroups gs gs' →
      Alike x (k (x.plain (u ++ w) v gs)) (k' (x.broken (u ++ w) v gs')))
    (hfails : ∀ {u v gs gs'}, u ++ (w ++ v) = x.text → k (x.plain (u ++ w) v gs) = none →
      k' (x.broken (u ++ w) v gs') = none) :
    Keeps x n ((literal w).run · k) ((literal w).run · k') := by
  have hnone : ∀ {u v gs}, (¬∃ r, v = w ++ r) → (literal w).run (x.plain u v gs) k = none :=
    fun hstart => run_literal_eq_none fun r hr => absurd ⟨r, hr⟩ hstart
  have hnone' : ∀ {u v gs}, (¬∃ r, v = w ++ r) → (literal w).run (x.broken u v gs) k' = none := by
    intro u v gs hstart
    refine run_literal_eq_none fun r hsplit => ?_
    obtain ⟨r, hsplit, -⟩ := exists_eq_append_of_toCrlf hr hsplit
    exact absurd ⟨r, hsplit⟩ hstart
  constructor
  · intro u v gs gs' huv _ hgs
    by_cases hstart : ∃ r, v = w ++ r
    · obtain ⟨r, rfl⟩ := hstart
      rw [run_literal_plain, run_literal_broken hn]
      exact halike huv hgs
    · rw [hnone hstart, hnone' hstart]
      exact .none
  · intro u v gs gs' huv _ hfail
    by_cases hstart : ∃ r, v = w ++ r
    · obtain ⟨r, rfl⟩ := hstart
      rw [run_literal_plain] at hfail
      rw [run_literal_broken hn]
      exact hfails huv hfail
    · exact hnone' hstart

theorem isSolid_many_one (hr : test '\r' = false) (hn : test '\n' = false) :
    IsSolid (many (one test)) := by
  intro x n k k' hk
  induction n with
  | zero => exact ⟨fun _ hv => absurd hv (Nat.not_lt_zero _), fun _ hv => absurd hv (Nat.not_lt_zero _)⟩
  | succ n ih =>
    have hrest := ih (hk.mono (Nat.le_succ n))
    have hstep := ((isFirm_one hr hn).keeps x n _ _ hrest).or hk
    simpa only [← run_many_one] using hstep

theorem bridges_many_one (hn : test '\n' = true) (hk : Lockstep x n k k')
    (hmany : Keeps x n ((many (one test)).run · k) ((many (one test)).run · k')) :
    Bridges x n ((many (one test)).run · k) ((many (one test)).run · k') := by
  have hafter : ∀ {u v gs gs'}, u ++ '\n' :: v = x.text → v.length < n →
      (many (one test)).run (x.plain (u ++ ['\n']) v gs) k = none →
        k' (x.inBreak u v gs') = none := by
    intro u v gs gs' huv hv hnone
    rw [run_many_one, Option.or_eq_none_iff] at hnone
    exact hk.failsInBreak huv hv hnone.2
  have hrun : ∀ u v gs', (many (one test)).run (x.inBreak u v gs') k' =
      ((many (one test)).run (x.broken (u ++ ['\n']) v gs') k').or (k' (x.inBreak u v gs')) := by
    intro u v gs'
    rw [run_many_one, run_one_inBreak, if_pos hn]
  constructor
  · intro u v gs gs' huv hv hgs
    have halike := hmany.alike ((append_singleton_append u _ v).trans huv) hv hgs
    rw [hrun]
    have hor : ∀ {a a' b' : Option Progress}, Alike x a a' → (a = none → b' = none) →
        Alike x a (a'.or b') := by
      intro a a' b' ha hb
      cases ha with
      | none =>
        rw [hb rfl]
        exact .none
      | some h hgs => exact .some h hgs
    exact hor halike (hafter huv hv)
  · intro u v gs gs' huv hv hnone
    rw [hrun, hafter huv hv hnone, Option.or_none]
    exact hmany.fails ((append_singleton_append u _ v).trans huv) hv hnone

theorem isSteady_many_one (h : test '\r' = test '\n') : IsSteady (many (one test)) := by
  intro x n k k' hk
  induction n with
  | zero =>
    exact ⟨⟨fun _ hv => absurd hv (Nat.not_lt_zero _), fun _ hv => absurd hv (Nat.not_lt_zero _)⟩,
      fun _ hv => absurd hv (Nat.not_lt_zero _)⟩
  | succ n ih =>
    have hshort := hk.mono (Nat.le_succ n)
    have hrest := (ih hshort).toKeeps
    have hkeeps : Keeps x (n + 1) ((many (one test)).run · k) ((many (one test)).run · k') := by
      have hstep := (keeps_one h hrest fun hn => bridges_many_one hn hshort hrest).or hk.toKeeps
      simpa only [← run_many_one] using hstep
    refine { hkeeps with failsInBreak := ?_ }
    intro u v gs gs' huv hv hnone
    cases hn : test '\n' with
    | true => exact (bridges_many_one hn hk hkeeps).fails huv hv hnone
    | false =>
      rw [run_many_one, Option.or_eq_none_iff] at hnone
      rw [run_many_one, run_one_inBreak, hn, if_neg Bool.false_ne_true, Option.none_or]
      exact hk.failsInBreak huv hv hnone.2

theorem isLoose_one_append_many {test' : Char → Bool} (h : test '\r' = test '\n')
    (h' : test' '\r' = test' '\n') (himp : test '\n' = true → test' '\n' = true) :
    IsLoose (one test ++ many (one test')) := by
  intro x n k k' hk
  have hmany := (isSteady_many_one h' x n k k' hk).toKeeps
  simp only [run_append]
  exact (keeps_one h hmany fun hn => bridges_many_one (himp hn) hk hmany).mono (Nat.le_succ n)

end Characters

section Groups

theorem take_toCrlf {u v w r : Text} (h : u ++ v = w ++ r) :
    (toCrlf v).take ((toCrlf w).length - (toCrlf u).length) =
      toCrlf (v.take (w.length - u.length)) := by
  rcases List.append_eq_append_iff.mp h with ⟨m, rfl, rfl⟩ | ⟨m, rfl, rfl⟩
  · simp
  · simp

theorem SameGroups.cons {u v w r : Text} (h : u ++ v = w ++ r) (hgs : SameGroups gs gs') (i : Nat)
    (ps ps' : List (Nat × Capture)) :
    SameGroups ((x.plain w r gs).close i (x.plain u v ps)).groups
      ((x.broken w r gs').close i (x.broken u v ps')).groups := by
  have htext := take_toCrlf h
  have hrest : gs'.map (fun g => (g.1, g.2.text)) = gs.map fun g => (g.1, toCrlf g.2.text) := hgs
  simp only [SameGroups, Progress.close, Twice.plain, Twice.broken, List.map_cons, Capture.text,
    htext, List.cons.injEq, true_and]
  exact hrest

theorem Keeps.close (hk : Keeps x n k k') (i : Nat) {ps ps' : List (Nat × Capture)}
    (huv : u ++ v = x.text) :
    Keeps x n (fun q => k (q.close i (x.plain u v ps)))
      (fun q => k' (q.close i (x.broken u v ps'))) where
  alike hwr hr hgs := hk.alike hwr hr (hgs.cons (huv.trans hwr.symm) i ps ps')
  fails hwr hr hnone := hk.fails hwr hr hnone

theorem Lockstep.close (hk : Lockstep x n k k') (i : Nat) {ps ps' : List (Nat × Capture)}
    (huv : u ++ v = x.text) :
    Lockstep x n (fun q => k (q.close i (x.plain u v ps)))
      (fun q => k' (q.close i (x.broken u v ps'))) :=
  { hk.toKeeps.close i huv with
    failsInBreak := fun hwr hr hnone => hk.failsInBreak hwr hr hnone }

theorem IsFirm.group (h : IsFirm p) (i : Nat) : IsFirm (group i p) := by
  constructor
  · intro x n k k' hk
    simp only [run_group]
    exact ⟨fun huv hv hgs => (h.keeps x n _ _ (hk.close i huv)).alike huv hv hgs,
      fun huv hv hnone => (h.keeps x n _ _ (hk.close i huv)).fails huv hv hnone⟩
  · intro x u v gs k
    rw [run_group, h.failsInBreak]

theorem IsLoose.group (h : IsLoose p) (i : Nat) : IsLoose (group i p) := by
  intro x n k k' hk
  simp only [run_group]
  exact ⟨fun huv hv hgs => (h x n _ _ (hk.close i huv)).alike huv hv hgs,
    fun huv hv hnone => (h x n _ _ (hk.close i huv)).fails huv hv hnone⟩

end Groups

section Rounds

theorem run_congr {α : Type} {m m' : Progress → Option α} {r : Progress}
    (h : ∀ s ∈ p.ends r, m s = m' s) : p.run r m = p.run r m' := by
  rw [run, run]
  generalize p.ends r = ss at h
  induction ss with
  | nil => rfl
  | cons s ss ih =>
    rw [List.findSome?_cons, List.findSome?_cons, h s (by simp), ih fun s hs => h s (by simp [hs])]

theorem run_many_of_advances {α : Type} {m : Progress → Option α}
    (h : ∀ r, ∀ s ∈ p.ends r, r.width < s.width) (r : Progress) :
    (many p).run r m = (p.run r fun s => (many p).run s m).or (m r) := by
  rw [run_many, run_congr fun s hs => if_pos (h r s hs)]

theorem isSteady_many_append (hp : IsFirm p) (hq : IsLoose q)
    (hadvances : ∀ r, ∀ s ∈ (p ++ q).ends r, r.width < s.width) : IsSteady (many (p ++ q)) := by
  intro x n k k' hk
  have hinBreak : ∀ u v gs', (many (p ++ q)).run (x.inBreak u v gs') k' =
      k' (x.inBreak u v gs') := by
    intro u v gs'
    rw [run_many, run_append, hp.failsInBreak, Option.none_or]
  have hkeeps : Keeps x n ((many (p ++ q)).run · k) ((many (p ++ q)).run · k') := by
    induction n with
    | zero =>
      exact ⟨fun _ hv => absurd hv (Nat.not_lt_zero _), fun _ hv => absurd hv (Nat.not_lt_zero _)⟩
    | succ n ih =>
      have hrest : Lockstep x n ((many (p ++ q)).run · k) ((many (p ++ q)).run · k') := by
        have hshort := hk.mono (Nat.le_succ n)
        refine { ih hshort with failsInBreak := fun huv hv hnone => ?_ }
        rw [run_many, Option.or_eq_none_iff] at hnone
        rw [hinBreak]
        exact hshort.failsInBreak huv hv hnone.2
      have hstep := (hp.keeps x n _ _ (hq x n _ _ hrest)).or hk.toKeeps
      simp only [← run_append p q] at hstep
      simpa only [← run_many_of_advances hadvances] using hstep
  refine { hkeeps with failsInBreak := fun huv hv hnone => ?_ }
  rw [run_many, Option.or_eq_none_iff] at hnone
  rw [hinBreak]
  exact hk.failsInBreak huv hv hnone.2

end Rounds

end Pattern

section Occurrences

open Pattern

variable {x : Twice} {p : Pattern} {gs gs' : List (Nat × Capture)} {o o' : Occurrence}

/-- Occurrences that capture the same texts, but for the carriage returns. -/
def CaptureAlike (o o' : Occurrence) : Prop :=
  ∀ i, (o'.group? i).map Capture.text = (o.group? i).map fun g => toCrlf g.text

theorem CaptureAlike.groupText (h : CaptureAlike o o') (i : Nat) :
    o'.groupText i = toCrlf (o.groupText i) := by
  rw [Occurrence.groupText, Occurrence.groupText, h i]
  cases o.group? i <;> rfl

theorem captureAlike_of_sameGroups (h : SameGroups gs gs') {start stop start' stop' : Cursor}
    {width width' : Nat} : CaptureAlike ⟨start, stop, width, gs⟩ ⟨start', stop', width', gs'⟩ := by
  intro i
  have hfind : ((gs'.map fun g => (g.1, g.2.text)).find? (·.1 == i)).map Prod.snd =
      ((gs.map fun g => (g.1, toCrlf g.2.text)).find? (·.1 == i)).map Prod.snd :=
    congrArg (fun l => (l.find? (·.1 == i)).map Prod.snd) h
  rw [List.find?_map, List.find?_map, Option.map_map, Option.map_map] at hfind
  rw [Occurrence.group?, Occurrence.group?, Option.map_map, Option.map_map]
  exact hfind

/-- Two occurrences that take the same stretch `u` of a text, or none. -/
inductive FoundAlike (t : Text) : Option Occurrence → Option Occurrence → Prop
  | none : FoundAlike t none none
  | some {o o' : Occurrence} {u : Text} (hu : u ≠ []) (htext : t = u ++ o.stop.after)
      (hafter : o'.stop.after = toCrlf o.stop.after)
      (hwidth : o.width = u.length ∧ o'.width = (toCrlf u).length) (hgroups : CaptureAlike o o') :
      FoundAlike t (some o) (some o')

theorem foundAlike_at? (h : Keeps x (x.text.length + 1) (p.run · some) (p.run · some)) :
    FoundAlike x.text (p.at? ⟨x.before, x.text⟩) (p.at? ⟨x.before', toCrlf x.text⟩) := by
  have hstart : Alike x (p.run (x.plain [] x.text []) some) (p.run (x.broken [] x.text []) some) :=
    h.alike rfl (Nat.lt_succ_self _) rfl
  have hplain : x.plain [] x.text [] = .start ⟨x.before, x.text⟩ := rfl
  have hbroken : x.broken [] x.text [] = .start ⟨x.before', toCrlf x.text⟩ := rfl
  rw [hplain, hbroken, run_some, run_some] at hstart
  rw [at?, at?]
  generalize (p.ends (.start ⟨x.before, x.text⟩)).head? = a at hstart
  generalize (p.ends (.start ⟨x.before', toCrlf x.text⟩)).head? = a' at hstart
  cases hstart with
  | none => exact .none
  | @some u v gs gs' huv hgs =>
    dsimp only [Twice.plain, Twice.broken]
    cases u with
    | nil => exact .none
    | cons c u =>
      have hpos : 0 < (toCrlf (c :: u)).length :=
        List.length_pos_iff.mpr fun hnil => List.cons_ne_nil c u (toCrlf_eq_nil.mp hnil)
      rw [if_pos (List.length_pos_of_ne_nil (List.cons_ne_nil c u)), if_pos hpos]
      exact .some (List.cons_ne_nil c u) huv.symm rfl ⟨rfl, rfl⟩ (captureAlike_of_sameGroups hgs)

theorem Pattern.IsLoose.atStart? (h : p.IsLoose) (t : Text) :
    FoundAlike t (p.atStart? t) (p.atStart? (toCrlf t)) :=
  foundAlike_at? (h ⟨t, [], []⟩ _ _ _ (lockstep_some _ _))

end Occurrences

end CanvasPage
