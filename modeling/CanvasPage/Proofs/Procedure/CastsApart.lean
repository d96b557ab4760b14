import CanvasPage.Proofs.Procedure.Exchange
import CanvasPage.Proofs.Procedure.Indentation

namespace CanvasPage

open Script

/-- Blanks and `as` in code do not come right after a remark, an unfinished string, a slash or an
equals sign. Where they do, to drop them joins what stands before them to what follows. -/
def CastsApart (t : Text) : Prop :=
  ∀ p ws c u, t = p ++ (ws ++ 'a' :: 's' :: c :: u) → ws ≠ [] → Text.allBlank ws = true →
    Text.isBlank c = true → State.start.run (p ++ ws) = .start →
      State.start.run p = .start ∧ p.getLast? ≠ some '='

/-- How far the text before has come toward a cast that `CastsApart` rules out. -/
inductive Lead where
  | far
  | equals
  | gap
  | letter
  | word
  deriving DecidableEq, Repr

/-- `s` is the state before `c`. -/
def Lead.next? (s : State) (l : Lead) (c : Char) : Option Lead :=
  if Text.isBlank c then
    if l == .word then none
    else if s.step c == .start && (s != .start || l == .equals || l == .gap) then some .gap
    else some .far
  else if c == '=' then some .equals
  else if c == 'a' && l == .gap then some .letter
  else if c == 's' && l == .letter then some .word
  else some .far

def leadAfter? (s : State) (l : Lead) : Text → Option Lead
  | [] => some l
  | c :: rest => (l.next? s c).bind fun k => leadAfter? (s.step c) k rest

theorem leadAfter?_append (s : State) (l : Lead) (t u : Text) :
    leadAfter? s l (t ++ u) = (leadAfter? s l t).bind fun k => leadAfter? (s.run t) k u := by
  induction t generalizing s l with
  | nil => rfl
  | cons c t ih =>
    rw [List.cons_append, leadAfter?, leadAfter?, Option.bind_assoc]
    exact congrArg _ (funext fun k => ih (s.step c) k)

section Reading

variable {s : State} {l k : Lead} {c : Char} {ws t u : Text}

theorem next?_of_not_beginsCast (hc : Substitution.beginsCast c = false) :
    l.next? s c = some (if c = '=' then .equals else .far) := by
  simp only [Substitution.beginsCast, Bool.or_eq_false_iff, beq_eq_false_iff_ne] at hc
  simp only [Lead.next?, hc.1.1, Bool.false_eq_true, if_false, beq_iff_eq, Bool.and_eq_true,
    hc.1.2, hc.2, false_and]
  split <;> rfl

theorem leadAfter?_concat_of_not_beginsCast (hc : Substitution.beginsCast c = false)
    (h : leadAfter? s l (t ++ [c]) = some k) : k = if c = '=' then .equals else .far := by
  rw [leadAfter?_append] at h
  obtain ⟨j, -, hj⟩ := Option.bind_eq_some_iff.mp h
  rw [leadAfter?, next?_of_not_beginsCast hc] at hj
  exact (Option.some.inj hj).symm

theorem eq_gap_of_leadAfter? (hne : ws ≠ []) (hws : Text.allBlank ws = true)
    (hrun : s.run ws = .start) (hlead : s = .start → l = .equals ∨ l = .gap)
    (h : leadAfter? s l ws = some k) : k = .gap := by
  induction ws generalizing s l with
  | nil => exact absurd rfl hne
  | cons c ws ih =>
    rw [Text.allBlank, List.all_cons, Bool.and_eq_true] at hws
    obtain ⟨j, hj, hrest⟩ := Option.bind_eq_some_iff.mp h
    rw [State.run_cons] at hrun
    have hstep : s.step c = .start → j = .gap := by
      intro hstart
      grind [Lead.next?]
    by_cases hnil : ws = []
    · subst hnil
      obtain rfl : j = k := Option.some.inj hrest
      exact hstep hrun
    · exact ih hnil hws.2 hrun (fun hstart => .inr (hstep hstart)) hrest

theorem castsApart_of_leadAfter? (h : (leadAfter? .start .far t).isSome = true) : CastsApart t := by
  rintro p ws c u rfl hne hws hc hrun
  obtain ⟨k, hk⟩ := Option.isSome_iff_exists.mp h
  rw [leadAfter?_append] at hk
  obtain ⟨l, hl, hk⟩ := Option.bind_eq_some_iff.mp hk
  rw [leadAfter?_append] at hk
  obtain ⟨j, hj, hk⟩ := Option.bind_eq_some_iff.mp hk
  rw [State.run_append] at hrun
  by_contra hnear
  have hlead : State.start.run p = .start → l = .equals ∨ l = .gap := by
    intro hstart
    obtain ⟨v, rfl⟩ : ∃ v, p = v ++ ['='] := by
      refine List.getLast?_eq_some_iff.mp ?_
      by_contra hlast
      exact hnear ⟨hstart, hlast⟩
    exact .inl (leadAfter?_concat_of_not_beginsCast (by decide) hl)
  obtain rfl := eq_gap_of_leadAfter? hne hws hrun hlead hj
  have ha : Text.isBlank 'a' = false := by decide
  have hs : Text.isBlank 's' = false := by decide
  simp [leadAfter?, Lead.next?, ha, hs, hc] at hk

/-- Blanks in code right after what a cast may not follow. -/
structure IsGap (p ws : Text) : Prop where
  ne_nil : ws ≠ []
  blank : Text.allBlank ws = true
  run : State.start.run (p ++ ws) = .start
  near : ¬ (State.start.run p = .start ∧ p.getLast? ≠ some '=')

def Lead.Holds (t : Text) : Lead → Prop
  | .far => True
  | .equals => t.getLast? = some '='
  | .gap => ∃ p ws, t = p ++ ws ∧ IsGap p ws
  | .letter => ∃ p ws, t = p ++ (ws ++ ['a']) ∧ IsGap p ws
  | .word => ∃ p ws, t = p ++ (ws ++ ['a', 's']) ∧ IsGap p ws

theorem Lead.Holds.next (hl : l.Holds t) (hk : l.next? (State.start.run t) c = some k) :
    k.Holds (t ++ [c]) := by
  have hrun : State.start.run (t ++ [c]) = (State.start.run t).step c := State.run_append _ _ _
  cases k with
  | far => trivial
  | equals =>
    obtain rfl : c = '=' := by grind [Lead.next?]
    exact List.getLast?_concat
  | gap =>
    obtain ⟨hc, hstep, hnear⟩ : Text.isBlank c = true ∧ (State.start.run t).step c = .start ∧
        (State.start.run t ≠ .start ∨ l = .equals ∨ l = .gap) := by grind [Lead.next?]
    have hblank : Text.allBlank [c] = true := by simpa [Text.allBlank] using hc
    rcases hnear with hnear | rfl | rfl
    · exact ⟨t, [c], rfl, by simp, hblank, by rw [hrun, hstep], fun h => hnear h.1⟩
    · exact ⟨t, [c], rfl, by simp, hblank, by rw [hrun, hstep], fun h => h.2 hl⟩
    · obtain ⟨p, ws, rfl, hgap⟩ := hl
      refine ⟨p, ws ++ [c], List.append_assoc _ _ _, by simp, ?_, ?_, hgap.near⟩
      · rw [Text.allBlank_append, hgap.blank, hblank]
        rfl
      · rw [← List.append_assoc, hrun, hstep]
  | letter =>
    obtain ⟨rfl, rfl⟩ : c = 'a' ∧ l = .gap := by grind [Lead.next?]
    obtain ⟨p, ws, rfl, hgap⟩ := hl
    exact ⟨p, ws, List.append_assoc _ _ _, hgap⟩
  | word =>
    obtain ⟨rfl, rfl⟩ : c = 's' ∧ l = .letter := by grind [Lead.next?]
    obtain ⟨p, ws, rfl, hgap⟩ := hl
    exact ⟨p, ws, by simp, hgap⟩

theorem isSome_leadAfter? (h : CastsApart (t ++ u)) (hl : l.Holds t) :
    (leadAfter? (State.start.run t) l u).isSome = true := by
  induction u generalizing t l with
  | nil => rfl
  | cons c u ih =>
    cases hk : l.next? (State.start.run t) c with
    | none =>
      obtain ⟨hc, rfl⟩ : Text.isBlank c = true ∧ l = .word := by grind [Lead.next?]
      obtain ⟨p, ws, rfl, hgap⟩ := hl
      exact absurd (h p ws c u (by simp) hgap.ne_nil hgap.blank hc hgap.run) hgap.near
    | some k =>
      rw [leadAfter?, hk]
      have hrest := ih (t := t ++ [c]) (by simpa using h) (hl.next hk)
      rwa [State.run_append] at hrest

theorem castsApart_iff : CastsApart t ↔ (leadAfter? .start .far t).isSome = true :=
  ⟨fun h => isSome_leadAfter? (t := []) h trivial, castsApart_of_leadAfter?⟩

end Reading

namespace Substitution

variable {s : State} {l j k : Lead} {c : Char} {t p q old new : Text}

theorem exists_leadAfter?_of_not_isBlank (ht : ∀ c ∈ t, Text.isBlank c = false) :
    ∃ k, leadAfter? s l t = some k := by
  induction t generalizing s l with
  | nil => exact ⟨l, rfl⟩
  | cons c t ih =>
    rw [leadAfter?]
    cases hk : l.next? s c with
    | none =>
      have hc := ht c (by simp)
      grind [Lead.next?]
    | some k => exact ih fun d hd => ht d (by simp [hd])

theorem leadAfter?_of_isQuiet (ht : ∀ c ∈ t, isQuiet c = true) (heq : '=' ∉ t) :
    leadAfter? .start .far t = some .far := by
  induction t with
  | nil => rfl
  | cons c t ih =>
    obtain ⟨hc, heq⟩ := not_or.mp (List.mem_cons.not.mp heq)
    have hstep := (step_of_isQuiet (s := .start) rfl (ht c (by simp))).1
    have hnext : Lead.far.next? .start c = some .far := by grind [Lead.next?]
    rw [leadAfter?, hnext, hstep]
    exact ih (fun d hd => ht d (by simp [hd])) heq

theorem leadAfter?_cons_of_not_beginsCast (hc : beginsCast c = false) (t : Text) :
    leadAfter? s l (c :: t) = leadAfter? (s.step c) (if c = '=' then .equals else .far) t := by
  rw [leadAfter?, next?_of_not_beginsCast hc]
  rfl

theorem Exchange.exists_leadAfter? (h : Exchange old new) (hs : s.isCode = true) (l : Lead) :
    ∃ k, leadAfter? s l new = some k := by
  obtain ⟨u, c, v, rfl, hu, hc⟩ := h.calm
  obtain ⟨k, hk⟩ := exists_leadAfter?_of_not_isBlank (s := s) (l := l) hu
  rw [leadAfter?_append, hk, Option.bind_some, leadAfter?_cons_of_not_beginsCast hc]
  rcases List.eq_nil_or_concat v with rfl | ⟨v, b, rfl⟩
  · exact ⟨_, rfl⟩
  · have hnew : u ++ c :: v.concat b = (u ++ c :: v) ++ [b] := by simp
    have hquiet := h.quiet
    have hequals := h.no_equals
    obtain ⟨-, w, -, b', -, hlast, -, -, hb, -⟩ := h.last
    rw [hnew] at hquiet hequals hlast
    rw [List.dropLast_concat] at hequals
    obtain rfl : b = b' := by simpa using (List.append_inj' hlast rfl).2
    simp only [List.mem_append, List.mem_cons, not_or] at hequals
    have hstate : (s.run u).isCode = true :=
      isCode_run_of_isQuiet hs fun d hd => hquiet d (by simp [hd])
    have hstep := (step_of_isQuiet hstate (hquiet c (by simp))).1
    rw [if_neg fun hc => hequals.2.1 hc.symm, hstep, List.concat_eq_append, leadAfter?_append,
      leadAfter?_of_isQuiet (fun d hd => hquiet d (by simp [hd])) hequals.2.2, Option.bind_some,
      leadAfter?_cons_of_not_beginsCast hb]
    exact ⟨_, rfl⟩

theorem Exchange.leadAfter?_eq (h : Exchange old new) (hs : s.isCode = true)
    (hj : leadAfter? s l old = some j) : leadAfter? s l new = some j := by
  obtain ⟨k, hk⟩ := h.exists_leadAfter? hs l
  obtain ⟨u, v, a, b, rfl, rfl, -, ha, hb, hequals⟩ := h.last
  rw [hk, leadAfter?_concat_of_not_beginsCast ha hj, leadAfter?_concat_of_not_beginsCast hb hk]
  simp only [hequals]

theorem Swaps.leadAfter? (h : Swaps t p q) {j : Lead} (hj : leadAfter? .start .far p = some j) :
    CanvasPage.leadAfter? .start .far q = some j := by
  induction h generalizing j with
  | nil => exact hj
  | keep hsplit h ih =>
    rw [leadAfter?_append] at hj ⊢
    obtain ⟨k, hk, hj⟩ := Option.bind_eq_some_iff.mp hj
    rw [ih hk, Option.bind_some, h.reads_alike.1, hj]
  | swap hcode hexchange h ih =>
    rw [leadAfter?_append] at hj ⊢
    obtain ⟨k, hk, hj⟩ := Option.bind_eq_some_iff.mp hj
    rw [ih hk, Option.bind_some, h.reads_alike.1]
    exact hexchange.leadAfter?_eq (hexchange.isCode hcode) hj

theorem Swaps.castsApart (h : Swaps t p q) (hp : CastsApart p) : CastsApart q := by
  obtain ⟨j, hj⟩ := Option.isSome_iff_exists.mp (castsApart_iff.mp hp)
  rw [castsApart_iff, h.leadAfter? hj]
  rfl

end Substitution

end CanvasPage
