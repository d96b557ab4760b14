import CanvasPage.Proofs.Pattern.Complete
import CanvasPage.Proofs.Procedure.Exchange

namespace CanvasPage.Substitution

open Pattern Script

def endsOperand (c : Char) : Bool := Text.isWordChar c || c == '$' || c == ')' || c == ']'

def followers : Text := ".;),["

/-- A mark and a character that may follow an operand. -/
def startsMark : Text → Bool
  | '!' :: d :: _ => followers.contains d
  | _ => false

def opensAssertion (s : State) (c : Char) (t : Text) : Bool :=
  s.isCode && endsOperand c && startsMark t

def startsNested : Text → Bool
  | '!' :: ')' :: t => startsMark t
  | _ => false

/-- An assertion whose follower is the operand of another one. -/
def opensNested (s : State) (c : Char) (t : Text) : Bool := opensAssertion s c t && startsNested t

/-- Does the test hold of a character, the state before it and the text after it? -/
def occurs (test : State → Char → Text → Bool) (s : State) : Text → Bool
  | [] => false
  | c :: t => test s c t || occurs test (s.step c) t

/-- Drops assertions from the left. A follower is never the operand of the next one. -/
def dropAssertions (s : State) : Text → Text
  | c :: '!' :: d :: t =>
      if opensAssertion s c ('!' :: d :: t) then c :: d :: dropAssertions .start t
      else c :: dropAssertions (s.step c) ('!' :: d :: t)
  | c :: t => c :: dropAssertions (s.step c) t
  | [] => []

variable {s : State} {c d : Char} {t u v : Text}

theorem occurs_eq_true {test : State → Char → Text → Bool} :
    occurs test s t = true ↔ ∃ p c u, t = p ++ c :: u ∧ test (s.run p) c u = true := by
  induction t generalizing s with
  | nil => simp [occurs]
  | cons c t ih =>
    rw [occurs, Bool.or_eq_true, ih]
    constructor
    · rintro (h | ⟨p, d, u, rfl, h⟩)
      · exact ⟨[], c, t, rfl, h⟩
      · exact ⟨c :: p, d, u, rfl, h⟩
    · rintro ⟨p, d, u, hsplit, h⟩
      rcases List.cons_eq_append_iff.mp hsplit with ⟨rfl, hcons⟩ | ⟨p, rfl, rfl⟩
      · obtain ⟨rfl, rfl⟩ := List.cons.inj hcons
        exact .inl h
      · exact .inr ⟨p, d, u, rfl, h⟩

theorem exists_of_startsMark (h : startsMark t = true) :
    ∃ d u, t = '!' :: d :: u ∧ d ∈ followers := by
  unfold startsMark at h
  split at h
  · exact ⟨_, _, rfl, by simpa using h⟩
  · cases h

theorem exists_of_startsNested (h : startsNested t = true) :
    ∃ u, t = '!' :: ')' :: u ∧ startsMark u = true := by
  unfold startsNested at h
  split at h
  · exact ⟨_, rfl, h⟩
  · cases h

theorem isQuiet_of_endsOperand (h : endsOperand c = true) : isQuiet c = true ∧ c ≠ '\n' := by
  simp only [endsOperand, Bool.or_eq_true, beq_iff_eq] at h
  rcases h with ((h | rfl) | rfl) | rfl
  · have hpath : isPathChar c = true := by rw [isPathChar, h, Bool.true_or, Bool.true_or]
    refine ⟨(isQuiet_of_isPathChar hpath).1, ?_⟩
    rintro rfl
    revert h
    decide
  · decide
  · decide
  · decide

theorem isQuiet_of_mem_followers : ∀ d ∈ followers, isQuiet d = true ∧ d ≠ '!' := by decide

theorem eq_of_mem_followers : ∀ d ∈ followers, endsOperand d = true → d = ')' := by decide

theorem endsOperand_mark : endsOperand '!' = false := by decide

theorem isQuiet_mark : isQuiet '!' = true := by decide

theorem step_of_opensAssertion (h : opensAssertion s c t = true) : s.step c = .start := by
  rw [opensAssertion, Bool.and_eq_true, Bool.and_eq_true] at h
  exact (step_of_isQuiet h.1.1 (isQuiet_of_endsOperand h.1.2).1).1

theorem mem_followers_of_opensAssertion (h : opensAssertion s c ('!' :: d :: t) = true) :
    d ∈ followers := by
  rw [opensAssertion, Bool.and_eq_true] at h
  simpa [startsMark] using h.2

theorem opensAssertion_of_forall_ne (h : ∀ d u, t = '!' :: d :: u → False) :
    opensAssertion s c t = false := by
  cases hmark : startsMark t with
  | true =>
    obtain ⟨d, u, rfl, -⟩ := exists_of_startsMark hmark
    exact absurd rfl (h d u)
  | false => rw [opensAssertion, hmark, Bool.and_false]

theorem start_of_isQuiet (h : isQuiet c = true) : State.start.step c = .start :=
  (step_of_isQuiet rfl h).1

section Dropping

theorem dropAssertions_cons (h : opensAssertion s c t = false) :
    dropAssertions s (c :: t) = c :: dropAssertions (s.step c) t := by
  rw [dropAssertions.eq_def]
  split
  · rename_i hsplit
    obtain ⟨rfl, rfl⟩ := List.cons.inj hsplit
    rw [h, if_neg Bool.false_ne_true]
  · rename_i hsplit
    obtain ⟨rfl, rfl⟩ := List.cons.inj hsplit
    rfl
  · rename_i hsplit
    cases hsplit

theorem dropAssertions_of_opens (h : opensAssertion s c ('!' :: d :: t) = true) :
    dropAssertions s (c :: '!' :: d :: t) = c :: d :: dropAssertions .start t := by
  rw [dropAssertions, if_pos h]

theorem dropAssertions_mark (s : State) (t : Text) :
    dropAssertions s ('!' :: t) = '!' :: dropAssertions (s.step '!') t := by
  refine dropAssertions_cons ?_
  rw [opensAssertion, endsOperand_mark, Bool.and_false, Bool.false_and]

theorem head?_dropAssertions (s : State) (t : Text) : (dropAssertions s t).head? = t.head? := by
  fun_cases dropAssertions s t with
  | case1 c d t h => rfl
  | case2 c d t h => rfl
  | case3 c t => rfl
  | case4 => rfl

theorem startsMark_dropAssertions (s : State) (t : Text) :
    startsMark (dropAssertions s t) = startsMark t := by
  cases t with
  | nil => rfl
  | cons c t =>
    by_cases hc : c = '!'
    · obtain rfl := hc
      have hhead := head?_dropAssertions (s.step '!') t
      rw [dropAssertions_mark]
      cases t with
      | nil => rfl
      | cons d t =>
        obtain ⟨u, hu⟩ := List.head?_eq_some_iff.mp hhead
        rw [hu]
        rfl
    · have hhead := head?_dropAssertions s (c :: t)
      obtain ⟨u, hu⟩ := List.head?_eq_some_iff.mp hhead
      rw [hu]
      unfold startsMark
      simp [hc]

theorem opensAssertion_dropAssertions (s r : State) (c : Char) (t : Text) :
    opensAssertion s c (dropAssertions r t) = opensAssertion s c t := by
  rw [opensAssertion, startsMark_dropAssertions, opensAssertion]

theorem occurs_opensNested (h : opensAssertion s c ('!' :: d :: t) = true) :
    occurs opensNested s (c :: '!' :: d :: t) =
      (opensAssertion .start d t || occurs opensNested .start t) := by
  have hfollower := mem_followers_of_opensAssertion h
  have hstart := start_of_isQuiet (isQuiet_of_mem_followers d hfollower).1
  have hmark : opensNested .start '!' (d :: t) = false := by
    rw [opensNested, opensAssertion, endsOperand_mark, Bool.and_false, Bool.false_and,
      Bool.false_and]
  have hnested : opensNested s c ('!' :: d :: t) = opensAssertion .start d t := by
    rw [opensNested, h, Bool.true_and]
    cases hd : endsOperand d with
    | true =>
      obtain rfl := eq_of_mem_followers d hfollower hd
      rfl
    | false =>
      have hne : d ≠ ')' := by
        rintro rfl
        cases hd
      rw [opensAssertion, hd, Bool.and_false, Bool.false_and]
      simp [startsNested, hne]
  rw [occurs, occurs, occurs, step_of_opensAssertion h, start_of_isQuiet isQuiet_mark, hstart,
    hmark, hnested, Bool.false_or, ← Bool.or_assoc, opensNested]
  cases opensAssertion .start d t <;> rfl

theorem occurs_dropAssertions (s : State) (t : Text) :
    occurs opensAssertion s (dropAssertions s t) = occurs opensNested s t := by
  have hkeep : ∀ {s c t}, opensAssertion s c t = false →
      occurs opensAssertion (s.step c) (dropAssertions (s.step c) t) =
        occurs opensNested (s.step c) t →
      occurs opensAssertion s (c :: dropAssertions (s.step c) t) = occurs opensNested s (c :: t) := by
    intro s c t hopens hrest
    rw [occurs, opensAssertion_dropAssertions, hopens, hrest, occurs, opensNested, hopens,
      Bool.false_and]
  fun_induction dropAssertions s t with
  | case1 s c d t hopens ih =>
    obtain ⟨hquiet, hne⟩ := isQuiet_of_mem_followers d (mem_followers_of_opensAssertion hopens)
    have hfirst : opensAssertion s c (d :: dropAssertions .start t) = false := by
      rw [opensAssertion]
      simp [startsMark, hne]
    rw [occurs_opensNested hopens, occurs, occurs, hfirst, step_of_opensAssertion hopens,
      start_of_isQuiet hquiet, opensAssertion_dropAssertions, ih, Bool.false_or]
  | case2 s c d t hopens ih => exact hkeep (by simpa using hopens) ih
  | case3 s c t hnone ih => exact hkeep (opensAssertion_of_forall_ne hnone) ih
  | case4 => rfl

end Dropping

section Replacing

theorem at?_nonNullAssertion (before : Text) (h : endsOperand c = true ∧ startsMark t = true) :
    ∃ d u o, t = '!' :: d :: u ∧ nonNullAssertion.pattern.at? ⟨before, c :: t⟩ = some o ∧
      o.width = 3 ∧ nonNullAssertion.replacement o = [c, d] := by
  obtain ⟨hc, hmark⟩ := h
  obtain ⟨d, u, rfl, hd⟩ := exists_of_startsMark hmark
  have hread : nonNullAssertion.pattern.Reads before [c, '!', d] u [(2, [d]), (1, [c])] := by
    have hliteral : ("!" : Text) = ['!'] := rfl
    simp only [nonNullAssertion, oneOf, reads_append, reads_group, reads_one, reads_literal, hliteral]
    exact ⟨[c, '!'], [d], [(1, [c])], [(2, [d])], rfl, rfl, ⟨[c], ['!'], [(1, [c])], [], rfl, rfl,
      ⟨[], rfl, ⟨c, hc, rfl⟩, rfl⟩, rfl, rfl⟩, [], rfl, ⟨d, by simpa [followers] using hd, rfl⟩, rfl⟩
  obtain ⟨o, ho⟩ := exists_at?_of_reads hread fun v after gs hv => by
    obtain ⟨x, y, rfl, -⟩ := exists_of_reads_nonNullAssertion hv
    exact List.cons_ne_nil _ _
  obtain ⟨w, gs, -, hafter, -, hwidth, -, hgroups, hv⟩ := exists_reads_of_at? ho
  obtain ⟨x, y, rfl, hfirst, hsecond, -⟩ := exists_of_reads_nonNullAssertion hv
  simp only [List.cons_append, List.cons.injEq] at hafter
  obtain ⟨rfl, -, rfl, -⟩ := hafter
  refine ⟨d, u, o, rfl, ho, hwidth, ?_⟩
  simp [nonNullAssertion, hgroups, hfirst, hsecond]

theorem at?_nonNullAssertion_eq_none {before : Text}
    (h : (endsOperand c && startsMark t) = false) :
    nonNullAssertion.pattern.at? ⟨before, c :: t⟩ = none := by
  rw [Option.eq_none_iff_forall_ne_some]
  intro o ho
  obtain ⟨w, gs, -, hafter, -, -, -, -, hread⟩ := exists_reads_of_at? ho
  obtain ⟨x, d, rfl, -, -, hx, hd⟩ := exists_of_reads_nonNullAssertion hread
  obtain ⟨rfl, rfl⟩ := List.cons.inj hafter
  have hoperand : endsOperand c = true := hx
  have hmark : startsMark ('!' :: d :: o.stop.after) = true := List.contains_iff_mem.mpr hd
  rw [hoperand] at h
  exact absurd (hmark.symm.trans h) (by decide)

theorem replaceFrom_nonNullAssertion {w : Text} (hcode : emitted s w = []) (before : Text) :
    nonNullAssertion.pattern.replaceFrom nonNullAssertion.replacement 0 before w =
      dropAssertions s w := by
  induction hn : w.length using Nat.strongRecOn generalizing s w before with
  | ind n ih =>
  cases w with
  | nil => rfl
  | cons c t =>
    rw [emitted, List.append_eq_nil_iff] at hcode
    have hopens : opensAssertion s c t = (endsOperand c && startsMark t) := by
      cases hc : endsOperand c with
      | false => rw [opensAssertion, hc, Bool.and_false]
      | true => rw [opensAssertion, hc, isCode_of_emit hcode.1 (isQuiet_of_endsOperand hc).2]; rfl
    rw [replaceFrom]
    cases hmatch : endsOperand c && startsMark t with
    | false =>
      rw [at?_nonNullAssertion_eq_none hmatch, dropAssertions_cons (hopens.trans hmatch)]
      exact congrArg (c :: ·) (ih t.length (by simp [← hn]) hcode.2 (c :: before) rfl)
    | true =>
      obtain ⟨d, u, o, rfl, hat, hwidth, hnew⟩ :=
        at?_nonNullAssertion before (Bool.and_eq_true_iff.mp hmatch)
      have hopens := hopens.trans hmatch
      obtain ⟨hquiet, -⟩ := isQuiet_of_mem_followers d (mem_followers_of_opensAssertion hopens)
      have hrest := hcode.2
      rw [step_of_opensAssertion hopens, emitted, start_of_isQuiet isQuiet_mark, emitted,
        start_of_isQuiet hquiet, List.append_eq_nil_iff, List.append_eq_nil_iff] at hrest
      have hcovered : nonNullAssertion.pattern.replaceFrom nonNullAssertion.replacement 2
          (c :: before) ('!' :: d :: u) = nonNullAssertion.pattern.replaceFrom
            nonNullAssertion.replacement 0 (d :: '!' :: c :: before) u :=
        replaceFrom_covered ['!', d] (c :: before) u
      rw [hat, dropAssertions_of_opens hopens]
      dsimp only
      rw [hnew, hwidth]
      exact congrArg ([c, d] ++ ·) (hcovered.trans
        (ih u.length (by simp [← hn]; omega) hrest.2.2 _ rfl))

theorem role_of_isQuiet (hs : s.isCode = true) (hc : isQuiet c = true) (next : Option Char) :
    s.role c next = .code := by
  simp only [isQuiet, Bool.not_eq_true', Bool.or_eq_false_iff] at hc
  rcases State.eq_of_isCode hs with rfl | rfl
  · simp [State.role, hc]
  · simp [State.role, hc]

theorem opensAssertion_of_role (h : s.role c t.head? ≠ .code) : opensAssertion s c t = false := by
  cases hs : s.isCode with
  | false => rw [opensAssertion, hs, Bool.false_and, Bool.false_and]
  | true =>
    cases hc : endsOperand c with
    | false => rw [opensAssertion, hc, Bool.and_false, Bool.false_and]
    | true => exact absurd (role_of_isQuiet hs (isQuiet_of_endsOperand hc).1 _) h

theorem opensAssertion_append
    (h : ∀ d ∈ v.head?, isQuiet d = true → (s.run (c :: u)).isCode = false) :
    opensAssertion s c (u ++ v) = opensAssertion s c u := by
  cases hopens : opensAssertion s c (u ++ v) with
  | false =>
    symm
    rw [opensAssertion, Bool.and_eq_false_iff] at hopens ⊢
    refine hopens.imp_right fun hmark => ?_
    by_contra hcontra
    obtain ⟨d, t, rfl, -⟩ := exists_of_startsMark (by simpa using hcontra)
    exact hcontra hmark
  | true =>
    rw [State.run_cons, step_of_opensAssertion hopens] at h
    have hmark := hopens
    rw [opensAssertion, Bool.and_eq_true] at hmark
    obtain ⟨d, t, hsplit, hd⟩ := exists_of_startsMark hmark.2
    rcases List.append_eq_cons_iff.mp hsplit with ⟨rfl, rfl⟩ | ⟨u, rfl, hrest⟩
    · exact absurd (h '!' rfl isQuiet_mark) (by decide)
    rcases List.append_eq_cons_iff.mp hrest.symm with ⟨rfl, rfl⟩ | ⟨u, rfl, -⟩
    · exact absurd (h d rfl (isQuiet_of_mem_followers d hd).1) (by decide)
    · exact hopens.symm

theorem dropAssertions_append
    (h : ∀ d ∈ v.head?, isQuiet d = true → (s.run u).isCode = false) :
    dropAssertions s (u ++ v) = dropAssertions s u ++ dropAssertions (s.run u) v := by
  fun_induction dropAssertions s u with
  | case1 s c d t hopens ih =>
    have hrun : s.run (c :: '!' :: d :: t) = State.start.run t := by
      rw [State.run_cons, step_of_opensAssertion hopens, State.run_cons,
        start_of_isQuiet isQuiet_mark, State.run_cons, start_of_isQuiet
          (isQuiet_of_mem_followers d (mem_followers_of_opensAssertion hopens)).1]
    have hwhole : opensAssertion s c ('!' :: d :: (t ++ v)) = true := hopens
    rw [hrun] at h ⊢
    rw [List.cons_append, List.cons_append, List.cons_append, dropAssertions_of_opens hwhole, ih h]
    rfl
  | case2 s c d t hopens ih =>
    have hkeep := (opensAssertion_append h).trans (by simpa using hopens)
    rw [List.cons_append, dropAssertions_cons hkeep, ih h]
    rfl
  | case3 s c t hnone ih =>
    have hkeep := (opensAssertion_append h).trans (opensAssertion_of_forall_ne hnone)
    rw [List.cons_append, dropAssertions_cons hkeep, ih h]
    rfl
  | case4 => rfl

section Segments

variable {r : Role} {rcs : List (Role × Char)} {c : Char}

theorem onSegment_ofRole (q : Substitution) (hr : r ≠ .code) (t : Text) :
    q.onSegment (.ofRole r t) = t := by
  cases r with
  | code => exact absurd rfl hr
  | opens | inside => rfl

theorem flatMap_onSegment_cons (q : Substitution) (hr : r ≠ .code) :
    (chunk ((r, c) :: rcs)).flatMap q.onSegment = c :: (chunk rcs).flatMap q.onSegment := by
  cases rcs with
  | nil => simp [chunk, onSegment_ofRole q hr]
  | cons rc rcs =>
    obtain ⟨r', c'⟩ := rc
    obtain ⟨first, ss, hnext⟩ := exists_chunk_cons r' c' rcs
    rw [chunk, hnext]
    cases hjoins : r.joins r' with
    | false =>
      dsimp only
      rw [List.flatMap_cons, onSegment_ofRole q hr]
      rfl
    | true =>
      have hr' : r' ≠ .code := by
        rintro rfl
        cases r with
        | code => exact hr rfl
        | opens | inside => cases hjoins
      dsimp only
      rw [List.flatMap_cons, List.flatMap_cons, onSegment_ofRole q hr, onSegment_ofRole q hr',
        Segment.text_ofRole, List.cons_append]

theorem exists_chunk_eq_code (h : s.role c t.head? = .code) :
    ∃ w u, c :: t = w ++ u ∧ w ≠ [] ∧ emitted s w = [] ∧
      chunk ((roles s (c :: t)).zip (c :: t)) = .code w :: chunk ((roles (s.run w) u).zip u) ∧
      ∀ d ∈ u.head?, (s.run w).role d u.tail.head? ≠ .code := by
  have hsingle : emitted s [c] = [] := by
    rw [emitted, emit_eq_nil_of_role h]
    rfl
  induction t generalizing s c with
  | nil =>
    rw [List.head?_nil] at h
    refine ⟨[c], [], rfl, List.cons_ne_nil c [], hsingle, ?_, by simp⟩
    simp [roles, h, chunk, Segment.ofRole]
  | cons d t ih =>
    rw [roles, h, List.zip_cons_cons]
    by_cases hnext : (s.step c).role d t.head? = .code
    · have hfirst : emitted (s.step c) [d] = [] := by
        rw [emitted, emit_eq_nil_of_role hnext]
        rfl
      obtain ⟨w, u, hsplit, -, hcode, hchunk, hend⟩ := ih hnext hfirst
      refine ⟨c :: w, u, by rw [hsplit, List.cons_append], List.cons_ne_nil c w, ?_, ?_, hend⟩
      · rw [emitted, emit_eq_nil_of_role h, hcode]
        rfl
      · rw [roles, hnext, List.zip_cons_cons] at hchunk ⊢
        rw [chunk, hchunk]
        rfl
    · have hcut : chunk ((Role.code, c) :: (roles (s.step c) (d :: t)).zip (d :: t)) =
          .code [c] :: chunk ((roles (s.step c) (d :: t)).zip (d :: t)) := by
        refine chunk_cons_of_not_joins fun rc hrc => ?_
        obtain rfl : ((s.step c).role d t.head?, d) = rc := by simpa [roles] using hrc
        have hinside := State.role_step_ne_inside h t.head?
        cases hrole : (s.step c).role d t.head? with
        | code => exact absurd hrole hnext
        | inside => exact absurd hrole hinside
        | opens => rfl
      refine ⟨[c], d :: t, rfl, List.cons_ne_nil c [], hsingle, hcut, ?_⟩
      rintro e he
      obtain rfl : d = e := by simpa using he
      exact hnext

end Segments

theorem apply_nonNullAssertion (t : Text) :
    nonNullAssertion.apply t = dropAssertions .start t := by
  have hfrom : ∀ (n : Nat) (s : State) (t : Text), t.length = n →
      (chunk ((roles s t).zip t)).flatMap nonNullAssertion.onSegment = dropAssertions s t := by
    intro n
    induction n using Nat.strongRecOn with
    | ind n ih =>
    intro s t hn
    cases t with
    | nil => rfl
    | cons c t =>
      by_cases hrole : s.role c t.head? = .code
      · obtain ⟨w, u, hsplit, hne, hcode, hchunk, hend⟩ := exists_chunk_eq_code hrole
        have hlength : u.length < n := by
          have hpos := List.length_pos_iff.mpr hne
          rw [← hn, hsplit, List.length_append]
          omega
        have happend : dropAssertions s (w ++ u) =
            dropAssertions s w ++ dropAssertions (s.run w) u := by
          refine dropAssertions_append fun d hd hquiet => ?_
          by_contra hcontra
          exact hend d hd (role_of_isQuiet (by simpa using hcontra) hquiet _)
        rw [hchunk, List.flatMap_cons, ih _ hlength _ u rfl, hsplit, happend]
        exact congrArg (· ++ _) (replaceFrom_nonNullAssertion hcode [])
      · rw [roles, List.zip_cons_cons, flatMap_onSegment_cons _ hrole,
          dropAssertions_cons (opensAssertion_of_role hrole), ih t.length (by simp [← hn]) _ _ rfl]
  rw [apply_eq_flatMap, segments]
  exact hfrom _ .start t rfl

end Replacing

/-- A non-null assertion in code: the mark between the operand `c` and `d`. -/
structure IsAssertion (p : Text) (c d : Char) (u : Text) : Prop where
  operand : endsOperand c = true
  follower : d ∈ followers
  code : ∀ q ∈ [p, p ++ [c], p ++ [c, '!']],
    isCodeOffset (p ++ c :: '!' :: d :: u) (Text.byteLength q) = true

def HasAssertion (t : Text) : Prop :=
  ∃ p c d u, t = p ++ c :: '!' :: d :: u ∧ IsAssertion p c d u

/-- Two assertions in a row, the parenthesis between them the follower of one and the operand of
the other. -/
def HasNestedAssertion (t : Text) : Prop :=
  ∃ p c d u, t = p ++ c :: '!' :: ')' :: '!' :: d :: u ∧ IsAssertion p c ')' ('!' :: d :: u) ∧
    IsAssertion (p ++ [c, '!']) ')' d u

section Offsets

variable {p : Text}

theorem isCodeOffset_of_isQuiet (hp : (State.start.run p).isCode = true) (hc : isQuiet c = true)
    (u : Text) : isCodeOffset (p ++ c :: u) (Text.byteLength p) = true := by
  rw [isCodeOffset_append u (Nat.le_refl _) (Nat.lt_add_of_pos_right (Char.utf8Size_pos c)),
    role_of_isQuiet hp hc]
  rfl

theorem isAssertion_iff :
    IsAssertion p c d u ↔ opensAssertion (State.start.run p) c ('!' :: d :: u) = true := by
  rw [opensAssertion, Bool.and_eq_true, Bool.and_eq_true]
  constructor
  · rintro ⟨hc, hd, hcode⟩
    have hfirst := hcode p (by simp)
    rw [isCodeOffset_append _ (Nat.le_refl _) (Nat.lt_add_of_pos_right (Char.utf8Size_pos c)),
      beq_iff_eq] at hfirst
    exact ⟨⟨isCode_of_emit (emit_eq_nil_of_role hfirst) (isQuiet_of_endsOperand hc).2, hc⟩,
      List.contains_iff_mem.mpr hd⟩
  · rintro ⟨⟨hcode, hc⟩, hd⟩
    have hfollower : d ∈ followers := List.contains_iff_mem.mp hd
    have hquiet := (isQuiet_of_endsOperand hc).1
    have hrun : State.start.run (p ++ [c]) = .start := by
      rw [State.run_append]
      exact (step_of_isQuiet hcode hquiet).1
    have hmark : State.start.run (p ++ [c, '!']) = .start := by
      rw [State.run_append, State.run_cons, (step_of_isQuiet hcode hquiet).1]
      exact start_of_isQuiet isQuiet_mark
    have hsecond := isCodeOffset_of_isQuiet (by rw [hrun]; rfl) isQuiet_mark (d :: u)
    have hthird := isCodeOffset_of_isQuiet (by rw [hmark]; rfl)
      (isQuiet_of_mem_followers d hfollower).1 u
    rw [List.append_assoc] at hsecond hthird
    refine ⟨hc, hfollower, ?_⟩
    simp only [List.mem_cons, List.not_mem_nil, or_false, forall_eq_or_imp, forall_eq]
    exact ⟨isCodeOffset_of_isQuiet hcode hquiet _, hsecond, hthird⟩

theorem hasAssertion_iff : HasAssertion t ↔ occurs opensAssertion .start t = true := by
  rw [occurs_eq_true]
  constructor
  · rintro ⟨p, c, d, u, rfl, h⟩
    exact ⟨p, c, _, rfl, isAssertion_iff.mp h⟩
  · rintro ⟨p, c, v, rfl, h⟩
    have hmark := h
    rw [opensAssertion, Bool.and_eq_true] at hmark
    obtain ⟨d, u, rfl, -⟩ := exists_of_startsMark hmark.2
    exact ⟨p, c, d, u, rfl, isAssertion_iff.mpr h⟩

theorem hasNestedAssertion_iff : HasNestedAssertion t ↔ occurs opensNested .start t = true := by
  rw [occurs_eq_true]
  constructor
  · rintro ⟨p, c, d, u, rfl, h, hnext⟩
    refine ⟨p, c, _, rfl, ?_⟩
    rw [opensNested, isAssertion_iff.mp h]
    exact List.contains_iff_mem.mpr hnext.follower
  · rintro ⟨p, c, v, rfl, h⟩
    rw [opensNested, Bool.and_eq_true] at h
    obtain ⟨w, rfl, hmark⟩ := exists_of_startsNested h.2
    obtain ⟨d, u, rfl, hd⟩ := exists_of_startsMark hmark
    refine ⟨p, c, d, u, rfl, isAssertion_iff.mpr h.1, isAssertion_iff.mpr ?_⟩
    have hrun : State.start.run (p ++ [c, '!']) = .start := by
      rw [State.run_append, State.run_cons, step_of_opensAssertion h.1]
      exact start_of_isQuiet isQuiet_mark
    rw [opensAssertion, hrun, hmark]
    rfl

/-- What the pass leaves behind is one assertion of each two that share a parenthesis. -/
theorem hasAssertion_apply_iff (t : Text) :
    HasAssertion (nonNullAssertion.apply t) ↔ HasNestedAssertion t := by
  rw [hasAssertion_iff, apply_nonNullAssertion, occurs_dropAssertions, hasNestedAssertion_iff]

end Offsets

end CanvasPage.Substitution
