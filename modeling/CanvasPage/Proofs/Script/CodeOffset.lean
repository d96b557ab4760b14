import CanvasPage.Script.Literal
import Mathlib.Data.List.Chain

namespace CanvasPage

def Span.covers (r : Span) (k : Nat) : Bool := r.start ≤ k && k < r.stop

/-- The character whose bytes begin at a byte offset. -/
def Text.charAt? (t : Text) (k : Nat) : Option Char := (Text.dropBytes k t).bind List.head?

theorem Text.charAt?_append (p : Text) (c : Char) (q : Text) :
    Text.charAt? (p ++ c :: q) (Text.byteLength p) = some c := by
  rw [Text.charAt?, Text.dropBytes_append]
  rfl

theorem Text.exists_of_charAt? {t : Text} {k : Nat} {c : Char} (h : Text.charAt? t k = some c) :
    ∃ p q, t = p ++ c :: q ∧ Text.byteLength p = k := by
  obtain ⟨u, hu, hc⟩ := Option.bind_eq_some_iff.mp h
  obtain ⟨p, hp, hk⟩ := Text.eq_append_of_dropBytes hu
  obtain ⟨q, rfl⟩ := List.head?_eq_some_iff.mp hc
  exact ⟨p, q, hp, hk⟩

theorem Text.charAt?_eq_none_of_lt {c : Char} {q : Text} {n : Nat} (h0 : 0 < n)
    (h : n < c.utf8Size) : Text.charAt? (c :: q) n = none := by
  obtain ⟨m, rfl⟩ : ∃ m, n = m + 1 := ⟨n - 1, by omega⟩
  simp [Text.charAt?, Text.dropBytes, h]

theorem Text.dropBytes_append_add (p q : Text) (n : Nat) :
    Text.dropBytes (Text.byteLength p + n) (p ++ q) = Text.dropBytes n q := by
  induction p with
  | nil => simp
  | cons c p ih =>
    rw [Text.byteLength_cons, Nat.add_assoc, List.cons_append, Text.dropBytes_cons, ih]

theorem Text.charAt?_append_add (p q : Text) (n : Nat) :
    Text.charAt? (p ++ q) (Text.byteLength p + n) = Text.charAt? q n := by
  rw [Text.charAt?, Text.dropBytes_append_add]
  rfl

theorem Text.exists_char_at {t : Text} {k : Nat} (h : k < Text.byteLength t) :
    ∃ p c q, t = p ++ c :: q ∧ Text.byteLength p ≤ k ∧ k < Text.byteLength p + c.utf8Size := by
  induction t generalizing k with
  | nil => simp at h
  | cons c t ih =>
    by_cases hk : k < c.utf8Size
    · exact ⟨[], c, t, rfl, by simp, by simpa using hk⟩
    · rw [Text.byteLength_cons] at h
      obtain ⟨p, d, q, rfl, hp, hd⟩ := @ih (k - c.utf8Size) (by omega)
      refine ⟨c :: p, d, q, rfl, ?_, ?_⟩
      · rw [Text.byteLength_cons]
        omega
      · rw [Text.byteLength_cons]
        omega

namespace Script

/-- A byte offset that no literal of the text covers. -/
def isCodeOffset (t : Text) (k : Nat) : Bool := (literalRanges t).all fun r => !r.covers k

def Segment.isLiteral : Segment → Bool
  | .code _ => false
  | .literal _ => true

theorem Segment.isLiteral_ofRole (r : Role) (t : Text) :
    (Segment.ofRole r t).isLiteral = (r != .code) := by
  cases r <;> rfl

def Segment.marks (s : Segment) : List (Bool × Char) := s.text.map fun c => (s.isLiteral, c)

theorem Segment.map_snd_marks (s : Segment) : s.marks.map (·.2) = s.text := by
  rw [marks, List.map_map]
  exact List.map_id _

def coveredFrom (offset : Nat) : List (Bool × Char) → Nat → Bool
  | [], _ => false
  | (mark, c) :: rest, k =>
      (mark && offset ≤ k && k < offset + c.utf8Size) || coveredFrom (offset + c.utf8Size) rest k

theorem le_of_coveredFrom {offset k : Nat} {ms : List (Bool × Char)}
    (h : coveredFrom offset ms k = true) : offset ≤ k := by
  induction ms generalizing offset with
  | nil => simp [coveredFrom] at h
  | cons m ms ih =>
    simp only [coveredFrom, Bool.or_eq_true, Bool.and_eq_true, decide_eq_true_eq] at h
    rcases h with h | h
    · exact h.1.2
    · exact Nat.le_of_add_right_le (ih h)

theorem coveredFrom_append (offset k : Nat) (ms ns : List (Bool × Char)) :
    coveredFrom offset (ms ++ ns) k =
      (coveredFrom offset ms k ||
        coveredFrom (offset + Text.byteLength (ms.map (·.2))) ns k) := by
  induction ms generalizing offset with
  | nil => simp [coveredFrom]
  | cons m ms ih =>
    simp only [List.cons_append, coveredFrom, ih, List.map_cons, Text.byteLength_cons,
      Bool.or_assoc, Nat.add_assoc]

theorem coveredFrom_of_le {offset k : Nat} {ms : List (Bool × Char)}
    (h : offset + Text.byteLength (ms.map (·.2)) ≤ k) : coveredFrom offset ms k = false := by
  induction ms generalizing offset with
  | nil => rfl
  | cons m ms ih =>
    rw [List.map_cons, Text.byteLength_cons] at h
    rw [coveredFrom, ih (by omega)]
    simp only [Bool.or_false, Bool.and_eq_false_iff, decide_eq_false_iff_not]
    right
    omega

theorem coveredFrom_cons_of_lt {offset k : Nat} {mark : Bool} {c : Char}
    (ms : List (Bool × Char)) (h : offset ≤ k) (hk : k < offset + c.utf8Size) :
    coveredFrom offset ((mark, c) :: ms) k = mark := by
  have hrest : coveredFrom (offset + c.utf8Size) ms k = false := by
    cases hc : coveredFrom (offset + c.utf8Size) ms k with
    | false => rfl
    | true =>
      have := le_of_coveredFrom hc
      omega
  simp [coveredFrom, hrest, h, hk]

theorem coveredFrom_code (offset k : Nat) (t : Text) :
    coveredFrom offset (t.map fun c => (false, c)) k = false := by
  induction t generalizing offset with
  | nil => rfl
  | cons c t ih => simp [coveredFrom, ih]

theorem coveredFrom_literal (offset k : Nat) (t : Text) :
    coveredFrom offset (t.map fun c => (true, c)) k =
      (Span.mk offset (offset + Text.byteLength t)).covers k := by
  induction t generalizing offset with
  | nil =>
    simp only [List.map_nil, coveredFrom, Span.covers, Text.byteLength_nil]
    grind
  | cons c t ih =>
    simp only [List.map_cons, coveredFrom, ih, Span.covers, Text.byteLength_cons]
    grind

theorem any_covers_literalSpans (offset k : Nat) (ss : List Segment) :
    (literalSpans offset ss).any (·.covers k) =
      coveredFrom offset (ss.flatMap Segment.marks) k := by
  induction ss generalizing offset with
  | nil => rfl
  | cons s ss ih =>
    rw [List.flatMap_cons, coveredFrom_append]
    cases s with
    | code t =>
      rw [Segment.map_snd_marks, literalSpans, ih]
      simp only [Segment.marks, Segment.isLiteral, Segment.text, coveredFrom_code, Bool.false_or]
    | literal t =>
      rw [Segment.map_snd_marks, literalSpans, List.any_cons, ih]
      simp only [Segment.marks, Segment.isLiteral, Segment.text, coveredFrom_literal]

theorem State.role_step_ne_inside {s : State} {c d : Char} (h : s.role c (some d) = .code)
    (next : Option Char) : (s.step c).role d next ≠ .inside := by
  obtain ⟨mode, nesting⟩ := s
  cases nesting with
  | cons n ns => simp [State.role] at h
  | nil => cases mode <;> grind [State.role, State.step, stepCode]

theorem Role.bne_code_of_joins {r r' : Role} (hj : r.joins r' = true)
    (h : r = .code → r' ≠ .inside) : (r != .code) = (r' != .code) := by
  revert hj h
  cases r <;> cases r' <;> decide

theorem exists_chunk_cons (r : Role) (c : Char) (rcs : List (Role × Char)) :
    ∃ t ss, chunk ((r, c) :: rcs) = .ofRole r t :: ss := by
  cases rcs with
  | nil => exact ⟨[c], [], rfl⟩
  | cons rc rcs =>
    rw [chunk]
    split
    · exact ⟨_, _, rfl⟩
    · exact ⟨_, _, rfl⟩

theorem marks_chunk (rcs : List (Role × Char))
    (h : rcs.IsChain fun a b => a.1 = .code → b.1 ≠ .inside) :
    (chunk rcs).flatMap Segment.marks = rcs.map fun rc => (rc.1 != .code, rc.2) := by
  fun_induction chunk rcs with
  | case1 => rfl
  | case2 r c => simp [Segment.marks, Segment.isLiteral_ofRole]
  | case3 r c r' c' rest s ss hs hj ih =>
    obtain ⟨hcode, htail⟩ := List.isChain_cons_cons.mp h
    obtain ⟨t, ss', hchunk⟩ := exists_chunk_cons r' c' rest
    obtain ⟨rfl, rfl⟩ : s = .ofRole r' t ∧ ss = ss' := by simpa [hs] using hchunk
    have hr : (r != .code) = (r' != .code) := Role.bne_code_of_joins hj hcode
    have ih := ih htail
    rw [hs] at ih
    simp only [List.flatMap_cons, List.map_cons, Segment.marks, Segment.isLiteral_ofRole,
      Segment.text_ofRole, List.cons_append, hr] at ih ⊢
    rw [ih]
  | case4 r c r' c' rest hx ih =>
    have ih := ih (List.isChain_cons_cons.mp h).2
    simp only [List.flatMap_cons, Segment.marks, Segment.isLiteral_ofRole,
      Segment.text_ofRole, List.map_cons, List.map_nil, List.singleton_append] at ih ⊢
    rw [ih]

theorem isChain_roles (s : State) (t : Text) :
    ((roles s t).zip t).IsChain fun a b => a.1 = .code → b.1 ≠ .inside := by
  induction t generalizing s with
  | nil => exact .nil
  | cons c t ih =>
    cases t with
    | nil => exact .singleton _
    | cons d t =>
      have htail := ih (s.step c)
      simp only [roles, List.zip_cons_cons] at htail ⊢
      exact .cons_cons (fun h => State.role_step_ne_inside h t.head?) htail

theorem exists_roles_append (s : State) (p : Text) (c : Char) (q : Text) :
    ∃ rs, rs.length = p.length ∧
      roles s (p ++ c :: q) = rs ++ (s.run p).role c q.head? :: roles ((s.run p).step c) q := by
  induction p generalizing s with
  | nil => exact ⟨[], rfl, rfl⟩
  | cons d p ih =>
    obtain ⟨rs, hlen, hrs⟩ := ih (s.step d)
    refine ⟨s.role d (p ++ c :: q).head? :: rs, by simp [hlen], ?_⟩
    rw [List.cons_append, roles, hrs, State.run_cons, List.cons_append]

theorem inLiteral_append (p : Text) (c : Char) (q : Text) :
    inLiteral (p ++ c :: q) p.length = ((State.start.run p).role c q.head? != .code) := by
  obtain ⟨rs, hlength, hroles⟩ := exists_roles_append .start p c q
  rw [inLiteral, hroles, ← hlength, List.getElem?_append_right (Nat.le_refl _),
    Nat.sub_self]
  rfl

theorem isCodeOffset_append {p : Text} {c : Char} (q : Text) {k : Nat}
    (hp : Text.byteLength p ≤ k) (hk : k < Text.byteLength p + c.utf8Size) :
    isCodeOffset (p ++ c :: q) k = ((State.start.run p).role c q.head? == .code) := by
  obtain ⟨rs, hlen, hroles⟩ := exists_roles_append .start p c q
  have hany : isCodeOffset (p ++ c :: q) k =
      !coveredFrom 0 ((segments (p ++ c :: q)).flatMap Segment.marks) k := by
    rw [← any_covers_literalSpans, isCodeOffset, literalRanges, List.not_any_eq_all_not]
  have hmarks : (segments (p ++ c :: q)).flatMap Segment.marks =
      (rs.zip p).map (fun rc => (rc.1 != .code, rc.2)) ++
        ((State.start.run p).role c q.head? != .code, c) ::
          ((roles ((State.start.run p).step c) q).zip q).map fun rc => (rc.1 != .code, rc.2) := by
    rw [segments, marks_chunk _ (isChain_roles .start _), hroles, List.zip_append hlen,
      List.map_append, List.zip_cons_cons, List.map_cons]
  have hsnd : ((rs.zip p).map fun rc => (rc.1 != Role.code, rc.2)).map (·.2) = p := by
    rw [List.map_map]
    exact List.map_snd_zip (Nat.le_of_eq hlen.symm)
  rw [hany, hmarks, coveredFrom_append, hsnd, coveredFrom_of_le (by rw [hsnd]; omega),
    Bool.false_or, Nat.zero_add, coveredFrom_cons_of_lt _ hp hk]
  simp [bne]

end Script

end CanvasPage
