import CanvasPage.Proofs.Script.CodeOffset
import CanvasPage.Proofs.Script.Neutral
import Mathlib.Order.Bounds.Basic

namespace CanvasPage.Script

/-- How often a character stands in code at the byte offsets from `first` to `last`. -/
def codeCount (t : Text) (x : Char) (first last : Nat) : Nat :=
  (List.range' first (last + 1 - first)).countP fun k =>
    Text.charAt? t k == some x && isCodeOffset t k

/-- A later offset in code up to which as many brackets of a kind close as open. -/
def Bracket.BalancesAt (b : Bracket) (t : Text) (start k : Nat) : Prop :=
  start < k ∧ k < Text.byteLength t ∧ isCodeOffset t k = true ∧
    codeCount t b.opener start k = codeCount t b.closer start k

def tally (x : Char) (s : State) : Text → Nat
  | [] => 0
  | c :: rest => (if s.isCode && c == x then 1 else 0) + tally x (s.step c) rest

theorem tally_append (x : Char) (s : State) (t u : Text) :
    tally x s (t ++ u) = tally x s t + tally x (s.run t) u := by
  induction t generalizing s with
  | nil => simp [tally, State.run_nil]
  | cons c t ih => simp only [List.cons_append, tally, ih, State.run_cons, Nat.add_assoc]

theorem Bracket.utf8Size_opener (b : Bracket) : b.opener.utf8Size = 1 := by
  cases b <;> decide

theorem Bracket.utf8Size_closer (b : Bracket) : b.closer.utf8Size = 1 := by
  cases b <;> decide

theorem Bracket.ofOpener?_opener (b : Bracket) : ofOpener? b.opener = some b := by
  cases b <;> decide

section Counting

variable {x : Char}

theorem countP_char (hx : ∀ s next, (State.role s x next == .code) = s.isCode) (p : Text)
    (c : Char) (q : Text) {n : Nat} (h0 : 0 < n) (hn : n ≤ c.utf8Size) :
    ((List.range' (Text.byteLength p) n).countP fun k =>
      Text.charAt? (p ++ c :: q) k == some x && isCodeOffset (p ++ c :: q) k) =
      tally x (State.start.run p) [c] := by
  obtain ⟨m, rfl⟩ : ∃ m, n = m + 1 := ⟨n - 1, by omega⟩
  have hhead : isCodeOffset (p ++ c :: q) (Text.byteLength p) =
      ((State.start.run p).role c q.head? == .code) :=
    isCodeOffset_append q (Nat.le_refl _) (by omega)
  have htail : ((List.range' (Text.byteLength p + 1) m).countP fun k =>
      Text.charAt? (p ++ c :: q) k == some x && isCodeOffset (p ++ c :: q) k) = 0 := by
    rw [List.countP_eq_zero]
    intro k hk
    obtain ⟨i, hi, rfl⟩ := List.mem_range'.mp hk
    have hnone : Text.charAt? (p ++ c :: q) (Text.byteLength p + (1 + 1 * i)) = none := by
      rw [Text.charAt?_append_add, Text.charAt?_eq_none_of_lt (by omega) (by omega)]
    rw [Nat.add_assoc, hnone]
    simp
  rw [List.range'_succ, List.countP_cons, htail, Text.charAt?_append, hhead]
  by_cases hc : c = x
  · subst hc
    simp [tally, hx]
  · simp [tally, hc]

theorem countP_range (hx : ∀ s next, (State.role s x next == .code) = s.isCode) (p m : Text)
    (c : Char) (q : Text) {n : Nat} (h0 : 0 < n) (hn : n ≤ c.utf8Size) :
    ((List.range' (Text.byteLength p) (Text.byteLength m + n)).countP fun k =>
      Text.charAt? (p ++ (m ++ c :: q)) k == some x && isCodeOffset (p ++ (m ++ c :: q)) k) =
      tally x (State.start.run p) (m ++ [c]) := by
  induction m generalizing p with
  | nil => simpa using countP_char hx p c q h0 hn
  | cons d m ih =>
    have hfirst := countP_char hx p d (m ++ c :: q) d.utf8Size_pos (Nat.le_refl _)
    have hrest := ih (p ++ [d])
    rw [Text.byteLength_append, List.append_assoc] at hrest
    simp only [Text.byteLength_cons, Text.byteLength_nil, Nat.add_zero, List.singleton_append,
      State.run_append, State.run_cons, State.run_nil] at hrest
    rw [Text.byteLength_cons, Nat.add_assoc, ← List.range'_append_1, List.countP_append,
      List.cons_append, List.cons_append, hfirst, hrest]
    simp [tally]

end Counting

theorem Bracket.role_opener (b : Bracket) (s : State) (next : Option Char) :
    (s.role b.opener next == .code) = s.isCode := by
  obtain ⟨mode, nesting⟩ := s
  cases nesting with
  | nil => cases mode <;> cases b <;> rfl
  | cons n ns => rfl

theorem Bracket.role_closer (b : Bracket) (s : State) (next : Option Char) :
    (s.role b.closer next == .code) = s.isCode := by
  obtain ⟨mode, nesting⟩ := s
  cases nesting with
  | nil => cases mode <;> cases b <;> rfl
  | cons n ns => rfl

def Bracket.KeepsOpen (b : Bracket) (depth : Nat) (s : State) (t : Text) : Prop :=
  ∀ u, u <+: t → tally b.closer s u ≤ tally b.opener s u + depth

namespace Bracket

variable {b : Bracket} {depth : Nat} {s : State} {t inside after : Text}

theorem keepsOpen_nil (b : Bracket) (depth : Nat) (s : State) : b.KeepsOpen depth s [] := by
  intro u hu
  rw [List.prefix_nil.mp hu]
  exact Nat.zero_le _

theorem tally_opener_closer (b : Bracket) (s : State) (t : Text) :
    tally b.opener s (b.closer :: t) = tally b.opener (s.step b.closer) t := by
  have hne : (b.closer == b.opener) = false := beq_false_of_ne (b.opener_ne_closer b).symm
  simp [tally, hne]

theorem tally_closer_closer (hs : s.isCode = true) (t : Text) :
    tally b.closer s (b.closer :: t) = tally b.closer (s.step b.closer) t + 1 := by
  simp only [tally, hs, beq_self_eq_true, Bool.and_self, if_true]
  omega

theorem keepsOpen_closer (hs : s.isCode = true) (h : b.KeepsOpen depth (s.step b.closer) t) :
    b.KeepsOpen (depth + 1) s (b.closer :: t) := by
  intro u hu
  cases u with
  | nil => exact Nat.zero_le _
  | cons d u =>
    obtain ⟨hd, hut⟩ := List.cons_prefix_cons.mp hu
    have := h u hut
    rw [hd, tally_opener_closer, tally_closer_closer hs]
    omega

theorem tally_closer_of_ne {c : Char} (hc : (s.isCode && c == b.closer) = false) (t : Text) :
    tally b.closer s (c :: t) = tally b.closer (s.step c) t := by
  simp [tally, hc]

theorem keepsOpen_cons {c : Char} (hc : (s.isCode && c == b.closer) = false)
    (h : b.KeepsOpen (if s.isCode && c == b.opener then depth + 1 else depth) (s.step c) t) :
    b.KeepsOpen depth s (c :: t) := by
  intro u hu
  cases u with
  | nil => exact Nat.zero_le _
  | cons d u =>
    obtain ⟨hd, hut⟩ := List.cons_prefix_cons.mp hu
    have := h u hut
    rw [hd, tally_closer_of_ne hc, tally]
    split at this <;> split <;> omega

theorem tally_of_closeFrom (h : b.closeFrom depth s t = some (inside, after)) :
    (s.run inside).isCode = true ∧ tally b.closer s inside = tally b.opener s inside + depth ∧
      b.KeepsOpen depth s inside := by
  fun_induction closeFrom b depth s t generalizing inside after with
  | case1 => simp at h
  | case2 s c rest hc =>
    obtain ⟨rfl, rfl⟩ : [] = inside ∧ rest = after := by simpa using h
    rw [Bool.and_eq_true] at hc
    exact ⟨hc.1, rfl, keepsOpen_nil b 0 s⟩
  | case3 s c rest hc depth ih =>
    obtain ⟨⟨i, a⟩, hi, heq⟩ := Option.map_eq_some_iff.mp h
    obtain ⟨rfl, rfl⟩ : c :: i = inside ∧ a = after := by simpa using heq
    obtain ⟨hcode, hcount, hopen⟩ := ih hi
    obtain ⟨hs, rfl⟩ : s.isCode = true ∧ c = b.closer := by simpa using hc
    refine ⟨hcode, ?_, keepsOpen_closer hs hopen⟩
    rw [tally_closer_closer hs, tally_opener_closer, hcount]
    omega
  | case4 depth s c rest hc ih =>
    obtain ⟨⟨i, a⟩, hi, heq⟩ := Option.map_eq_some_iff.mp h
    obtain ⟨rfl, rfl⟩ : c :: i = inside ∧ a = after := by simpa using heq
    obtain ⟨hcode, hcount, hopen⟩ := ih hi
    have hc : (s.isCode && c == b.closer) = false := by simpa using hc
    refine ⟨hcode, ?_, keepsOpen_cons hc hopen⟩
    rw [tally_closer_of_ne hc, hcount, tally]
    split <;> omega

theorem keepsOpen_of_closeFrom_eq_none (h : b.closeFrom depth s t = none) :
    b.KeepsOpen depth s t := by
  fun_induction closeFrom b depth s t with
  | case1 => exact keepsOpen_nil _ _ _
  | case2 => simp at h
  | case3 s c rest hc depth ih =>
    obtain ⟨hs, rfl⟩ : s.isCode = true ∧ c = b.closer := by simpa using hc
    exact keepsOpen_closer hs (ih (Option.map_eq_none_iff.mp h))
  | case4 depth s c rest hc ih =>
    exact keepsOpen_cons (by simpa using hc) (ih (Option.map_eq_none_iff.mp h))

end Bracket

section Opener

variable {b : Bracket} {t pre rest : Text} {start k : Nat}

theorem isCode_of_isCodeOffset
    (h : isCodeOffset (pre ++ b.opener :: rest) (Text.byteLength pre) = true) :
    (State.start.run pre).isCode = true := by
  have hsize := b.utf8Size_opener
  rwa [isCodeOffset_append rest (Nat.le_refl _) (by omega), b.role_opener] at h

theorem codeCount_opener {x c : Char} (hx : ∀ s next, (State.role s x next == .code) = s.isCode)
    (u q : Text) (hcode : (State.start.run pre).isCode = true)
    (hk : Text.byteLength pre + 1 + Text.byteLength u ≤ k)
    (hlt : k < Text.byteLength pre + 1 + Text.byteLength u + c.utf8Size) :
    codeCount (pre ++ b.opener :: (u ++ c :: q)) x (Text.byteLength pre) k =
      (if b.opener == x then 1 else 0) + tally x .start (u ++ [c]) := by
  have hlen : k + 1 - Text.byteLength pre =
      Text.byteLength (b.opener :: u) + (k - Text.byteLength pre - Text.byteLength u) := by
    rw [Text.byteLength_cons, b.utf8Size_opener]
    omega
  have hcount := countP_range hx pre (b.opener :: u) c q
    (n := k - Text.byteLength pre - Text.byteLength u) (by omega) (by omega)
  rw [List.cons_append] at hcount
  rw [codeCount, hlen, hcount, List.cons_append, tally, b.step_opener_of_isCode hcode, hcode,
    Bool.true_and]

theorem balancesAt_iff {c : Char} (u q : Text) (hcode : (State.start.run pre).isCode = true)
    (hk : Text.byteLength pre + 1 + Text.byteLength u ≤ k)
    (hlt : k < Text.byteLength pre + 1 + Text.byteLength u + c.utf8Size) :
    b.BalancesAt (pre ++ b.opener :: (u ++ c :: q)) (Text.byteLength pre) k ↔
      (State.start.run u).role c q.head? = .code ∧
        tally b.opener .start (u ++ [c]) + 1 = tally b.closer .start (u ++ [c]) := by
  have hrun : State.start.run (pre ++ b.opener :: u) = State.start.run u := by
    rw [State.run_append, State.run_cons, b.step_opener_of_isCode hcode]
  have hsize := b.utf8Size_opener
  have hoffset : isCodeOffset (pre ++ b.opener :: (u ++ c :: q)) k =
      ((State.start.run u).role c q.head? == .code) := by
    have h := isCodeOffset_append (p := pre ++ b.opener :: u) (c := c) (k := k) q
      (by simp only [Text.byteLength_append, Text.byteLength_cons]; omega)
      (by simp only [Text.byteLength_append, Text.byteLength_cons]; omega)
    rwa [hrun, List.append_assoc, List.cons_append] at h
  have hne : (b.opener == b.closer) = false := beq_false_of_ne (b.opener_ne_closer b)
  rw [Bracket.BalancesAt, hoffset, codeCount_opener b.role_opener u q hcode hk hlt,
    codeCount_opener b.role_closer u q hcode hk hlt, beq_self_eq_true, hne, beq_iff_eq]
  simp only [Text.byteLength_append, Text.byteLength_cons, hsize, if_true, Bool.false_eq_true,
    if_false]
  constructor
  · rintro ⟨-, -, hrole, hcount⟩
    exact ⟨hrole, by omega⟩
  · rintro ⟨hrole, hcount⟩
    exact ⟨by omega, by omega, hrole, by omega⟩

theorem not_balancesAt_of_keepsOpen {inside after : Text} (hopen : b.KeepsOpen 0 .start inside)
    (hcode : (State.start.run pre).isCode = true)
    (hk : k < Text.byteLength pre + 1 + Text.byteLength inside) :
    ¬ b.BalancesAt (pre ++ b.opener :: (inside ++ after)) (Text.byteLength pre) k := by
  intro h
  have hlt : Text.byteLength pre < k := h.1
  obtain ⟨u, c, q, rfl, hu, hc⟩ :=
    Text.exists_char_at (t := inside) (k := k - (Text.byteLength pre + 1)) (by omega)
  rw [List.append_assoc, List.cons_append,
    balancesAt_iff u (q ++ after) hcode (by omega) (by omega)] at h
  have := hopen (u ++ [c]) ⟨q, by simp⟩
  omega

theorem matchingDelimiter_opener (pre rest : Text) (b : Bracket) :
    matchingDelimiter (pre ++ b.opener :: rest) (Text.byteLength pre) =
      (b.enclosed? rest).map fun (inside, _) =>
        Text.byteLength pre + 1 + Text.byteLength inside := by
  rw [matchingDelimiter, Text.dropBytes_append]
  simp only [b.ofOpener?_opener, Option.bind_eq_bind, Option.bind_some]
  cases b.enclosed? rest <;> rfl

theorem matchingDelimiter_of_enclosed? {inside after : Text} (pre : Text)
    (h : b.enclosed? rest = some (inside, after)) :
    matchingDelimiter (pre ++ b.opener :: rest) (Text.byteLength pre) =
      some (Text.byteLength pre + 1 + Text.byteLength inside) := by
  rw [matchingDelimiter_opener, h]
  rfl

theorem isLeast_of_enclosed? {inside after : Text} (hcode : (State.start.run pre).isCode = true)
    (h : b.enclosed? rest = some (inside, after)) :
    IsLeast {k | b.BalancesAt (pre ++ b.opener :: rest) (Text.byteLength pre) k}
      (Text.byteLength pre + 1 + Text.byteLength inside) := by
  obtain ⟨hinside, hcount, hopen⟩ := Bracket.tally_of_closeFrom h
  obtain rfl := b.eq_of_closeFrom 0 .start rest h
  constructor
  · show b.BalancesAt _ _ _
    rw [balancesAt_iff inside after hcode (Nat.le_refl _) (by rw [b.utf8Size_closer]; omega)]
    refine ⟨beq_iff_eq.mp ?_, ?_⟩
    · rw [b.role_closer, hinside]
    · rw [tally_append, tally_append, Bracket.tally_closer_closer hinside,
        Bracket.tally_opener_closer]
      simp only [tally]
      omega
  · intro k hk
    by_contra hlt
    exact not_balancesAt_of_keepsOpen hopen hcode (Nat.lt_of_not_le hlt) hk

theorem not_balancesAt_of_enclosed?_eq_none (hcode : (State.start.run pre).isCode = true)
    (h : b.enclosed? rest = none) (k : Nat) :
    ¬ b.BalancesAt (pre ++ b.opener :: rest) (Text.byteLength pre) k := by
  intro hk
  have hlen : k < Text.byteLength (pre ++ b.opener :: rest) := hk.2.1
  rw [Text.byteLength_append, Text.byteLength_cons, b.utf8Size_opener] at hlen
  rw [← List.append_nil rest] at hk
  exact not_balancesAt_of_keepsOpen (Bracket.keepsOpen_of_closeFrom_eq_none h) hcode (by omega) hk

end Opener

/-- The delimiter found is the first offset in code at which the brackets of its kind balance, and
none is found exactly when there is no such offset, as when a literal without an end begins
first. -/
theorem matchingDelimiter_isLeast {t : Text} {start : Nat} {b : Bracket}
    (hopen : Text.charAt? t start = some b.opener) (hcode : isCodeOffset t start = true) :
    (∀ k, matchingDelimiter t start = some k ↔ IsLeast {k | b.BalancesAt t start k} k) ∧
      (matchingDelimiter t start = none ↔ ∀ k, ¬ b.BalancesAt t start k) ∧
      (∀ r ∈ literalRanges t, r.stop = Text.byteLength t →
        (∀ k, k < r.start → ¬ b.BalancesAt t start k) → matchingDelimiter t start = none) := by
  obtain ⟨pre, rest, rfl, rfl⟩ := Text.exists_of_charAt? hopen
  have hrun := isCode_of_isCodeOffset hcode
  have hnone : matchingDelimiter (pre ++ b.opener :: rest) (Text.byteLength pre) = none ↔
      ∀ k, ¬ b.BalancesAt (pre ++ b.opener :: rest) (Text.byteLength pre) k := by
    rw [matchingDelimiter_opener]
    cases h : b.enclosed? rest with
    | none => simpa using not_balancesAt_of_enclosed?_eq_none hrun h
    | some found =>
      have hleast := isLeast_of_enclosed? hrun h
      simp only [Option.map_some, reduceCtorEq, false_iff, not_forall, not_not]
      exact ⟨_, hleast.1⟩
  refine ⟨?_, hnone, ?_⟩
  · intro k
    constructor
    · intro hk
      rw [matchingDelimiter_opener] at hk
      obtain ⟨⟨inside, after⟩, h, rfl⟩ := Option.map_eq_some_iff.mp hk
      exact isLeast_of_enclosed? hrun h
    · intro hk
      cases hfound : matchingDelimiter (pre ++ b.opener :: rest) (Text.byteLength pre) with
      | none => exact absurd hk.1 (hnone.mp hfound k)
      | some c =>
        rw [matchingDelimiter_opener] at hfound
        obtain ⟨⟨inside, after⟩, h, rfl⟩ := Option.map_eq_some_iff.mp hfound
        exact congrArg some ((isLeast_of_enclosed? hrun h).unique hk)
  · intro r hr hstop hbefore
    apply hnone.mpr
    intro k hk
    by_cases hlt : k < r.start
    · exact hbefore k hlt hk
    · have hoffset := List.all_eq_true.mp hk.2.2.1 r hr
      have hlen : k < Text.byteLength (pre ++ b.opener :: rest) := hk.2.1
      simp only [Span.covers, Bool.not_eq_true', Bool.and_eq_false_iff,
        decide_eq_false_iff_not] at hoffset
      omega

theorem matchingDelimiter_isLeast_nested :
    Text.charAt? "f(a, (b), ')') + 1" 1 = some Bracket.paren.opener ∧
      isCodeOffset "f(a, (b), ')') + 1" 1 = true ∧
      IsLeast {k | Bracket.paren.BalancesAt "f(a, (b), ')') + 1" 1 k} 13 :=
  ⟨by decide, by decide,
    ((matchingDelimiter_isLeast (by decide) (by decide)).1 13).mp (by decide)⟩

end CanvasPage.Script
