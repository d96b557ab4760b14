import CanvasPage.Proofs.Text.Identifier
import CanvasPage.Proofs.Text.Lines
import CanvasPage.Script.Bracket

namespace CanvasPage.Script

theorem State.eq_of_isCode {s : State} (h : s.isCode = true) :
    s = ⟨.code, []⟩ ∨ s = ⟨.slash, []⟩ := by
  obtain ⟨mode, nesting⟩ := s
  cases nesting with
  | cons n ns => simp [State.isCode] at h
  | nil => simpa [State.isCode] using h

theorem Bracket.step_opener_of_isCode (b : Bracket) {s : State} (h : s.isCode = true) :
    s.step b.opener = .start := by
  rcases State.eq_of_isCode h with rfl | rfl
  · cases b <;> rfl
  · cases b <;> rfl

theorem Bracket.step_closer_of_isCode (b : Bracket) {s : State} (h : s.isCode = true) :
    s.step b.closer = .start := by
  rcases State.eq_of_isCode h with rfl | rfl
  · cases b <;> rfl
  · cases b <;> rfl

namespace Bracket

variable {b : Bracket} {depth e : Nat} {s : State} {t : Text}

theorem depthAfter?_closer (hs : s.isCode = true) (depth : Nat) :
    b.depthAfter? (depth + 1) s (b.closer :: t) = b.depthAfter? depth (s.step b.closer) t := by
  simp [depthAfter?, hs]

theorem depthAfter?_cons {c : Char} (hc : (s.isCode && c == b.closer) = false) (depth : Nat) :
    b.depthAfter? depth s (c :: t) =
      b.depthAfter? (if s.isCode && c == b.opener then depth + 1 else depth) (s.step c) t := by
  rw [depthAfter?.eq_def]
  simp only [hc, Bool.false_eq_true, if_false]

theorem depthAfter?_append (b : Bracket) (depth : Nat) (s : State) (t u : Text) :
    b.depthAfter? depth s (t ++ u) =
      (b.depthAfter? depth s t).bind fun d => b.depthAfter? d (s.run t) u := by
  fun_induction depthAfter? b depth s t with
  | case1 => rfl
  | case2 s c rest hc => simp [depthAfter?, hc]
  | case3 s c rest hc depth ih =>
    obtain ⟨hs, rfl⟩ : s.isCode = true ∧ c = b.closer := by simpa using hc
    rw [List.cons_append, depthAfter?_closer hs, ih, State.run_cons]
  | case4 depth s c rest hc ih =>
    rw [List.cons_append, depthAfter?_cons (by simpa using hc), ih, State.run_cons]

theorem depthAfter?_add (n : Nat) (h : b.depthAfter? depth s t = some e) :
    b.depthAfter? (depth + n) s t = some (e + n) := by
  fun_induction depthAfter? b depth s t with
  | case1 => simpa [depthAfter?] using h
  | case2 => simp at h
  | case3 s c rest hc depth ih =>
    obtain ⟨hs, rfl⟩ : s.isCode = true ∧ c = b.closer := by simpa using hc
    rw [Nat.succ_add, depthAfter?_closer hs]
    exact ih h
  | case4 depth s c rest hc ih =>
    have hrest := ih h
    rw [depthAfter?_cons (by simpa using hc)]
    split at hrest
    · rename_i ho
      rw [if_pos ho, Nat.add_right_comm]
      exact hrest
    · rename_i ho
      rw [if_neg ho]
      exact hrest

end Bracket

theorem depthAfter?_of_ne {s : State} {c : Char} {b : Bracket} {depth : Nat} (ho : c ≠ b.opener) (hc : c ≠ b.closer)
    (t : Text) : b.depthAfter? depth s (c :: t) = b.depthAfter? depth (s.step c) t := by
  rw [Bracket.depthAfter?_cons (by rw [beq_false_of_ne hc, Bool.and_false]),
    beq_false_of_ne ho, Bool.and_false, if_neg Bool.false_ne_true]

theorem depthAfter?_of_not_isCode {s : State} {b : Bracket} {depth : Nat} (hs : s.isCode = false) (c : Char)
    (t : Text) : b.depthAfter? depth s (c :: t) = b.depthAfter? depth (s.step c) t := by
  rw [Bracket.depthAfter?_cons (by rw [hs, Bool.false_and]), hs, Bool.false_and,
    if_neg Bool.false_ne_true]

/-- Read from `s`, the text ends in code and leaves as many brackets open as were. -/
structure Neutral (s : State) (t : Text) : Prop where
  isCode : (s.run t).isCode = true
  depth : ∀ (b : Bracket) depth, b.depthAfter? depth s t = some depth

theorem neutral_of_isClosed {t : Text} (h : isClosed t = true) : Neutral .start t := by
  refine ⟨(Bool.and_eq_true_iff.mp h).1, fun b depth => ?_⟩
  have hb := Bracket.depthAfter?_add depth (beq_iff_eq.mp (isBalanced_of_isClosed h b))
  rwa [Nat.zero_add] at hb

theorem isClosed_of_neutral {t : Text} (h : Neutral .start t) : isClosed t = true := by
  simp [isClosed, h.isCode, Bracket.isBalanced, h.depth]

theorem neutral_nil {s : State} (h : s.isCode = true) : Neutral s [] :=
  ⟨h, fun _ _ => rfl⟩

theorem Neutral.append {s : State} {t u : Text} (ht : Neutral s t) (hu : Neutral (s.run t) u) :
    Neutral s (t ++ u) := by
  refine ⟨?_, fun b depth => ?_⟩
  · rw [State.run_append]
    exact hu.isCode
  · rw [Bracket.depthAfter?_append, ht.depth, Option.bind_some, hu.depth]

def isPlain (c : Char) : Bool :=
  !(isQuote c || isBacktick c || c == '/' || c == '*' ||
    [Bracket.brace, .paren, .square].any fun b => c == b.opener || c == b.closer)

def markChars : Text :=
  ['\'', '"', Char.ofNat 96, '/', '*', '\x7b', '\x7d', '(', ')', '[', ']']

theorem mem_markChars {c : Char} (h : isPlain c = false) : c ∈ markChars := by
  have hbacktick : c = Char.ofNat 96 ↔ c.toNat = 96 := Char.toNat_inj.symm
  simp only [isPlain, isQuote, isBacktick, Bracket.opener, Bracket.closer, List.any_cons,
    List.any_nil, Bool.not_eq_false', Bool.or_eq_true, beq_iff_eq, Bool.or_false] at h
  simp only [markChars, List.mem_cons, List.not_mem_nil, or_false, hbacktick]
  grind

theorem not_continuesIdentifier_markChars :
    ∀ c ∈ markChars, Text.continuesIdentifier c = false := by
  decide

theorem isPlain_of_continuesIdentifier {c : Char} (h : Text.continuesIdentifier c = true) :
    isPlain c = true := by
  cases hc : isPlain c with
  | true => rfl
  | false =>
    rw [not_continuesIdentifier_markChars c (mem_markChars hc)] at h
    cases h

theorem step_of_isPlain {s : State} {c : Char} (hs : s.isCode = true) (hc : isPlain c = true) :
    s.step c = .start := by
  simp only [isPlain, Bool.not_eq_true', Bool.or_eq_false_iff] at hc
  rcases State.eq_of_isCode hs with rfl | rfl
  · simp [State.step, stepCode, hc, State.start]
  · simp [State.step, stepCode, hc, State.start]

theorem ne_bracket_of_isPlain {c : Char} (hc : isPlain c = true) (b : Bracket) :
    (c == b.opener) = false ∧ (c == b.closer) = false := by
  simp only [isPlain, Bool.not_eq_true', Bool.or_eq_false_iff, List.any_eq_false] at hc
  have hb := hc.2 b (by cases b <;> simp)
  simpa only [Bool.or_eq_true, not_or, Bool.not_eq_true] using hb

theorem neutral_cons_of_isPlain {s : State} {c : Char} {t : Text} (hs : s.isCode = true)
    (hc : isPlain c = true) (ht : Neutral .start t) : Neutral s (c :: t) := by
  refine ⟨?_, fun b depth => ?_⟩
  · rw [State.run_cons, step_of_isPlain hs hc]
    exact ht.isCode
  · obtain ⟨ho, hcl⟩ := ne_bracket_of_isPlain hc b
    simp [Bracket.depthAfter?, ho, hcl, step_of_isPlain hs hc, ht.depth]

theorem neutral_of_isPlain {s : State} {t : Text} (hs : s.isCode = true)
    (ht : ∀ c ∈ t, isPlain c = true) : Neutral s t := by
  induction t generalizing s with
  | nil => exact neutral_nil hs
  | cons c t ih =>
    exact neutral_cons_of_isPlain hs (ht c (by simp))
      (ih rfl fun d hd => ht d (by simp [hd]))

theorem run_of_isPlain {s : State} {t : Text} (hs : s.isCode = true) (hne : t ≠ [])
    (ht : ∀ c ∈ t, isPlain c = true) : s.run t = .start := by
  induction t generalizing s with
  | nil => exact absurd rfl hne
  | cons c t ih =>
    rw [State.run_cons, step_of_isPlain hs (ht c (by simp))]
    by_cases hnil : t = []
    · rw [hnil, State.run_nil]
    · exact ih rfl hnil fun d hd => ht d (by simp [hd])

theorem Bracket.opener_ne_closer (b b' : Bracket) : b.opener ≠ b'.closer := by
  cases b <;> cases b' <;> decide

theorem Bracket.opener_beq (b b' : Bracket) : (b.opener == b'.opener) = (b == b') := by
  cases b <;> cases b' <;> rfl

theorem Bracket.closer_beq (b b' : Bracket) : (b.closer == b'.closer) = (b == b') := by
  cases b <;> cases b' <;> rfl

theorem Neutral.enclose {s : State} {t : Text} (hs : s.isCode = true) (ht : Neutral .start t)
    (b : Bracket) : Neutral s (b.opener :: (t ++ [b.closer])) := by
  refine ⟨?_, fun b' depth => ?_⟩
  · rw [State.run_cons, b.step_opener_of_isCode hs, State.run_append, State.run_cons,
      b.step_closer_of_isCode ht.isCode]
    rfl
  · have hopener : (s.isCode && b.opener == b'.closer) = false := by
      rw [beq_false_of_ne (b.opener_ne_closer b'), Bool.and_false]
    rw [Bracket.depthAfter?_cons hopener, hs, Bool.true_and, b.opener_beq,
      b.step_opener_of_isCode hs, Bracket.depthAfter?_append, ht.depth, Option.bind_some]
    cases hb : b == b' with
    | true =>
      obtain rfl := beq_iff_eq.mp hb
      rw [if_pos rfl, Bracket.depthAfter?_closer ht.isCode]
      rfl
    | false =>
      rw [if_neg Bool.false_ne_true,
        Bracket.depthAfter?_cons (by rw [b.closer_beq, hb, Bool.and_false]),
        beq_false_of_ne (b'.opener_ne_closer b).symm, Bool.and_false, if_neg Bool.false_ne_true]
      rfl

/-- Wherever code is read, the text leaves code and open brackets as they were. -/
def Inert (t : Text) : Prop := ∀ s : State, s.isCode = true → Neutral s t

section Inertness

variable {t u : Text}

theorem inert_nil : Inert [] := fun _ hs => neutral_nil hs

theorem Inert.append (ht : Inert t) (hu : Inert u) : Inert (t ++ u) :=
  fun s hs => (ht s hs).append (hu _ (ht s hs).isCode)

theorem inert_flatMap {α : Type} {f : α → Text} {xs : List α} (h : ∀ x ∈ xs, Inert (f x)) :
    Inert (xs.flatMap f) := by
  induction xs with
  | nil => exact inert_nil
  | cons x xs ih =>
    rw [List.flatMap_cons]
    exact (h x (by simp)).append (ih fun y hy => h y (by simp [hy]))

theorem inert_of_isPlain (h : ∀ c ∈ t, isPlain c = true) : Inert t :=
  fun _ hs => neutral_of_isPlain hs h

theorem inert_enclose (b : Bracket) (h : isClosed t = true) :
    Inert (b.opener :: (t ++ [b.closer])) :=
  fun _ hs => Neutral.enclose hs (neutral_of_isClosed h) b

theorem Inert.isClosed (h : Inert t) : isClosed t = true := isClosed_of_neutral (h .start rfl)

theorem step_slash_of_ne {c : Char} (hslash : c ≠ '/') (hstar : c ≠ '*') :
    State.step ⟨.slash, []⟩ c = State.start.step c := by
  simp [State.step, State.start, hslash, hstar]

theorem inert_of_isClosed (h : isClosed t = true) (hslash : t.head? ≠ some '/')
    (hstar : t.head? ≠ some '*') : Inert t := by
  have ht := neutral_of_isClosed h
  intro s hs
  rcases State.eq_of_isCode hs with rfl | rfl
  · exact ht
  cases t with
  | nil => exact neutral_nil rfl
  | cons c t =>
    have hstep : State.step ⟨.slash, []⟩ c = State.start.step c :=
      step_slash_of_ne (by simpa using hslash) (by simpa using hstar)
    refine ⟨?_, fun b depth => ?_⟩
    · rw [State.run_cons, hstep]
      exact ht.isCode
    · have hdepth := ht.depth b depth
      rw [Bracket.depthAfter?.eq_def] at hdepth ⊢
      simp only [hstep]
      exact hdepth

theorem inert_plain_append (hne : t ≠ []) (ht : ∀ c ∈ t, isPlain c = true)
    (hu : Neutral .start u) : Inert (t ++ u) := by
  intro s hs
  refine (neutral_of_isPlain hs ht).append ?_
  rwa [run_of_isPlain hs hne ht]

theorem neutral_join {ts : List Text} (hts : ∀ t ∈ ts, isClosed t = true) :
    Neutral .start (Text.join ", " ts) := by
  induction ts with
  | nil => exact neutral_nil rfl
  | cons t ts ih =>
    have ht := neutral_of_isClosed (hts t (by simp))
    cases ts with
    | nil => exact ht
    | cons u us =>
      rw [Text.join_cons_cons]
      exact ht.append (inert_plain_append (by decide) (by decide)
        (ih fun v hv => hts v (by simp [hv])) _ ht.isCode)

end Inertness

end CanvasPage.Script
