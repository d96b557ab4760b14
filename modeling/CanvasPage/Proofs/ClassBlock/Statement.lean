import CanvasPage.Proofs.ClassBlock.Printed
import CanvasPage.Proofs.Script.Neutral

namespace CanvasPage.Script

def Mode.quote? : Mode → Option Char
  | .quoted q | .quotedEscape q => some q
  | _ => none

theorem isQuote_of_step {s : State} (hs : ∀ q ∈ s.mode.quote?, isQuote q = true) (c : Char) :
    ∀ q ∈ (s.step c).mode.quote?, isQuote q = true := by
  obtain ⟨mode, nesting⟩ := s
  have hcode : ∀ q ∈ (stepCode nesting c).mode.quote?, isQuote q = true := by
    intro q hq
    simp only [stepCode] at hq
    split at hq
    · rename_i hc
      obtain rfl : c = q := by simpa [Mode.quote?] using hq
      exact hc
    · grind [Mode.quote?]
  have htemplate : ∀ q ∈ (stepTemplate nesting c).mode.quote?, isQuote q = true := by
    grind [stepTemplate, Mode.quote?]
  cases mode <;> grind [State.step, Mode.quote?]

theorem isCode_of_step_semicolon {s : State} (hs : ∀ q ∈ s.mode.quote?, isQuote q = true)
    (h : (s.step ';').isCode = true) : s.isCode = true := by
  obtain ⟨mode, nesting⟩ := s
  cases mode <;> cases nesting <;>
    simp_all [State.step, stepCode, stepTemplate, State.isCode, isQuote, isBacktick, Mode.quote?]
  all_goals grind

end CanvasPage.Script

namespace CanvasPage.Member

open Script

def nextDepth (b : Bracket) (s : State) (c : Char) (depth : Nat) : Nat :=
  if s.isCode && c == b.closer then depth - 1
  else if s.isCode && c == b.opener then depth + 1
  else depth

def openBrackets (d : Bracket → Nat) : Nat := d .brace + d .paren + d .square

section

variable {s : State} {c : Char} {w : Text} {d : Bracket → Nat}

theorem depthAfter?_nextDepth {b : Bracket} {depth : Nat}
    (h : b.depthAfter? depth s (c :: w) = some 0) (u : Text) :
    b.depthAfter? depth s (c :: u) = b.depthAfter? (nextDepth b s c depth) (s.step c) u := by
  rw [nextDepth]
  split
  · rename_i hc
    obtain ⟨hs, rfl⟩ : s.isCode = true ∧ c = b.closer := by simpa using hc
    cases depth with
    | zero => simp [Bracket.depthAfter?, hs] at h
    | succ depth => exact Bracket.depthAfter?_closer hs depth
  · rename_i hc
    exact Bracket.depthAfter?_cons (by simpa using hc) depth

theorem deeper_openBrackets (hs : s.isCode = true)
    (h : ∀ b : Bracket, b.depthAfter? (d b) s (c :: w) = some 0) (outer : Nat) :
    deeper (outer + openBrackets d) c =
      outer + openBrackets fun b => nextDepth b s c (d b) := by
  have hpos : ∀ b : Bracket, c = b.closer → 0 < d b := by
    intro b hb
    have hc := h b
    cases hd : d b with
    | succ n => exact Nat.succ_pos n
    | zero => simp [Bracket.depthAfter?, hs, hb, hd] at hc
  have hbrace := hpos .brace
  have hparen := hpos .paren
  have hsquare := hpos .square
  simp only [deeper, openBrackets, nextDepth, hs, Bool.true_and, Bracket.opener, Bracket.closer,
    beq_iff_eq, Bool.or_eq_true] at hbrace hparen hsquare ⊢
  grind

theorem openBrackets_of_not_isCode (hs : s.isCode = false) :
    (openBrackets fun b => nextDepth b s c (d b)) = openBrackets d := by
  simp [openBrackets, nextDepth, hs]

end

def stringState (s : State) : Option State := if s.isCode then none else some s

theorem step_of_isCode {s : State} {c : Char} (hs : s.isCode = true)
    (hremark : (s.step c).inRemark = false) : s.step c = State.start.step c := by
  rcases State.eq_of_isCode hs with rfl | rfl
  · rfl
  · by_cases hslash : c = '/'
    · subst hslash
      exact absurd hremark (by decide)
    · by_cases hstar : c = '*'
      · subst hstar
        exact absurd hremark (by decide)
      · simp [State.step, hslash, hstar, State.start]

theorem stringState_step {s : State} {c : Char} (hs : s.isCode = true)
    (hremark : (s.step c).inRemark = false) :
    (if isQuote c || isBacktick c then some (State.start.step c) else none) =
      stringState (s.step c) := by
  rw [step_of_isCode hs hremark, stringState]
  show _ = if (stepCode [] c).isCode then none else some (stepCode [] c)
  cases hq : isQuote c with
  | true => simp [State.step, State.start, stepCode, hq, State.isCode]
  | false =>
    cases hb : isBacktick c with
    | true => simp [State.step, State.start, stepCode, hq, hb, State.isCode]
    | false =>
      by_cases hslash : c = '/'
      · subst hslash
        rfl
      · simp [stepCode, hq, hb, hslash, State.isCode]

theorem role_of_isCode_step {s : State} (hs : s.isCode = false) (hremark : s.inRemark = false)
    (hcode : (s.step '\n').isCode = true) (next : Option Char) : s.role '\n' next = .code := by
  obtain ⟨mode, nesting⟩ := s
  cases nesting with
  | cons n ns =>
    cases mode <;> simp_all [State.step, stepCode, stepTemplate, State.isCode, isQuote, isBacktick]
  | nil =>
    cases mode <;> simp_all [State.step, stepTemplate, State.isCode, isBacktick, State.inRemark,
      State.role]

theorem role_of_isCode {s : State} (hs : s.isCode = true) {c : Char} (hc : c = ';' ∨ c = '\n')
    (next : Option Char) : s.role c next = .code := by
  rcases State.eq_of_isCode hs with rfl | rfl <;> rcases hc with rfl | rfl <;> rfl

theorem deeper_of_isPlain {c : Char} (hc : isPlain c = true) (depth : Nat) :
    deeper depth c = depth := by
  obtain ⟨hbrace, hbrace'⟩ := ne_bracket_of_isPlain hc .brace
  obtain ⟨hparen, hparen'⟩ := ne_bracket_of_isPlain hc .paren
  obtain ⟨hsquare, hsquare'⟩ := ne_bracket_of_isPlain hc .square
  simp only [Bracket.opener, Bracket.closer] at *
  simp [deeper, *]

theorem continues_of_append {t u : Text} (h : continues (t ++ u) = false) : continues t = false := by
  rw [continues, List.dropWhile_append] at h
  rw [continues]
  cases hdrop : t.dropWhile Text.isBlank with
  | nil => rfl
  | cons x w =>
    rw [hdrop, List.isEmpty_cons, if_neg Bool.false_ne_true] at h
    cases w with
    | nil => grind
    | cons y w => grind

section Opening

/-- The brackets and the string that are open after a character, unless the statement `seen` ends
before it. A comment is read like code. -/
def openNext? (depth : Nat) (seen : Text) (string : Option State) (c : Char) :
    Option (Nat × Option State) :=
  match string.map (·.step c) with
  | some s =>
      if !s.isCode then some (depth, some s)
      else if depth == 0 && (c == '\n' && !continues seen) then none
      else some (depth, none)
  | none =>
      if depth == 0 && (c == ';' || (c == '\n' && !continues seen)) then none
      else some (deeper depth c,
        if isQuote c || isBacktick c then some (State.start.step c) else none)

def openAfter? (depth : Nat) (seen : Text) (string : Option State) :
    Text → Option (Nat × Option State)
  | [] => some (depth, string)
  | c :: rest => (openNext? depth seen string c).bind fun r => openAfter? r.1 (c :: seen) r.2 rest

variable {depth : Nat} {seen : Text} {string : Option State} {r : Nat × Option State} {c : Char}
  {t u : Text}

theorem openAfter?_append (depth : Nat) (seen : Text) (string : Option State) (t u : Text) :
    openAfter? depth seen string (t ++ u) =
      (openAfter? depth seen string t).bind fun r => openAfter? r.1 (t.reverse ++ seen) r.2 u := by
  induction t generalizing depth seen string with
  | nil => rfl
  | cons c t ih =>
    rw [List.cons_append, openAfter?, openAfter?, Option.bind_assoc]
    refine congrArg _ (funext fun r => ?_)
    rw [ih, List.reverse_cons, List.append_assoc]
    rfl

theorem openNext?_append_seen (h : openNext? depth seen string c = some r) (more : Text) :
    openNext? depth (seen ++ more) string c = some r := by
  have hgo : continues (seen ++ more) = false → continues seen = false := continues_of_append
  rw [openNext?] at h ⊢
  grind

/-- What has been seen can only make a statement go on. -/
theorem openAfter?_append_seen (h : openAfter? depth seen string t = some r) (more : Text) :
    openAfter? depth (seen ++ more) string t = some r := by
  induction t generalizing depth seen string with
  | nil => exact h
  | cons c t ih =>
    obtain ⟨q, hq, hrest⟩ := Option.bind_eq_some_iff.mp h
    rw [openAfter?, openNext?_append_seen hq more]
    exact ih hrest

theorem statementWidth_cons (h : openNext? depth seen string c = some r) (rest : Text) :
    statementWidth depth seen string (c :: rest) =
      1 + statementWidth r.1 (c :: seen) r.2 rest := by
  rw [openNext?] at h
  rw [statementWidth]
  cases hstring : string.map (·.step c) with
  | some s =>
    rw [hstring] at h
    grind
  | none =>
    rw [hstring] at h
    grind

theorem statementWidth_of_openAfter? (h : openAfter? depth seen string t = some r) (u : Text) :
    statementWidth depth seen string (t ++ u) =
      t.length + statementWidth r.1 (t.reverse ++ seen) r.2 u := by
  induction t generalizing depth string seen with
  | nil =>
    obtain rfl := Option.some.inj h
    simp
  | cons c t ih =>
    obtain ⟨q, hq, hrest⟩ := Option.bind_eq_some_iff.mp h
    rw [List.cons_append, statementWidth_cons hq, ih hrest, List.reverse_cons, List.append_assoc,
      List.length_cons, Nat.add_comm t.length 1, Nat.add_assoc]
    rfl

theorem openAfter?_of_isPlain (ht : ∀ c ∈ t, isPlain c = true ∧ c ≠ ';' ∧ c ≠ '\n') (depth : Nat)
    (seen : Text) : openAfter? depth seen none t = some (depth, none) := by
  induction t generalizing seen with
  | nil => rfl
  | cons c t ih =>
    obtain ⟨hc, hsemicolon, hbreak⟩ := ht c (by simp)
    have hquote : (isQuote c || isBacktick c) = false := by
      simp only [isPlain, Bool.not_eq_true', Bool.or_eq_false_iff] at hc
      simp [hc]
    have hnext : openNext? depth seen none c = some (depth, none) := by
      rw [openNext?, Option.map_none]
      simp only [beq_false_of_ne hsemicolon, beq_false_of_ne hbreak, hquote, deeper_of_isPlain hc,
        Bool.or_false, Bool.and_false, Bool.false_and, Bool.false_eq_true, if_false]
    rw [openAfter?, hnext]
    exact ih (fun d hd => ht d (by simp [hd])) _

theorem statementWidth_append {u : Text} (hu : ∀ c ∈ u, isPlain c = true ∧ c ≠ ';' ∧ c ≠ '\n')
    (depth : Nat) (seen t : Text) :
    statementWidth depth seen none (u ++ t) =
      u.length + statementWidth depth (u.reverse ++ seen) none t :=
  statementWidth_of_openAfter? (openAfter?_of_isPlain hu depth seen) t

end Opening

/-- What makes a text, read after `seen` from a state in which the brackets `d` are open, the rest
of one statement. Around it `outer` brackets more are open. -/
structure IsStatement (outer : Nat) (seen : Text) (d : Bracket → Nat) (s : State) (w : Text) :
    Prop where
  depth : ∀ b : Bracket, b.depthAfter? (d b) s w = some 0
  isCode : (s.run w).isCode = true
  no_remark : ∀ i ≤ w.length, (s.run (w.take i)).inRemark = false
  no_break : ∀ i < w.length, w[i]? = some ';' ∨
      (w[i]? = some '\n' ∧ continues ((w.take i).reverse ++ seen) = false) →
    (roles s w)[i]? = some .code →
      outer ≠ 0 ∨ ∃ b : Bracket, b.depthAfter? (d b) s (w.take i) ≠ some 0

namespace IsStatement

variable {outer : Nat} {seen : Text} {d : Bracket → Nat} {s : State} {c : Char} {w : Text}

theorem tail (h : IsStatement outer seen d s (c :: w)) :
    IsStatement outer (c :: seen) (fun b => nextDepth b s c (d b)) (s.step c) w := by
  have hnext : ∀ (b : Bracket) (u : Text),
      b.depthAfter? (nextDepth b s c (d b)) (s.step c) u = b.depthAfter? (d b) s (c :: u) :=
    fun b u => (depthAfter?_nextDepth (h.depth b) u).symm
  refine ⟨fun b => ?_, h.isCode, fun i hi => ?_, fun i hi hc hrole => ?_⟩
  · rw [hnext]
    exact h.depth b
  · exact h.no_remark (i + 1) (Nat.succ_le_succ hi)
  · have hseen : ((c :: w).take (i + 1)).reverse ++ seen = (w.take i).reverse ++ c :: seen := by
      rw [List.take_succ_cons, List.reverse_cons, List.append_assoc, List.singleton_append]
    refine (h.no_break (i + 1) (Nat.succ_lt_succ hi) (by rwa [hseen]) hrole).imp_right ?_
    rintro ⟨b, hb⟩
    refine ⟨b, ?_⟩
    rw [hnext]
    exact hb

theorem not_inRemark (h : IsStatement outer seen d s w) : s.inRemark = false :=
  h.no_remark 0 (Nat.zero_le _)

theorem openBrackets_pos (h : IsStatement outer seen d s (c :: w))
    (hc : c = ';' ∨ (c = '\n' ∧ continues seen = false)) (hrole : s.role c w.head? = .code) : outer + openBrackets d ≠ 0 := by
  intro hzero
  obtain ⟨houter, hzero⟩ := Nat.add_eq_zero_iff.mp hzero
  rcases h.no_break 0 (Nat.succ_pos _) (by simpa using hc) (by simp [roles, hrole]) with hpos | hb
  · exact hpos houter
  · obtain ⟨b, hb⟩ := hb
    apply hb
    simp only [openBrackets, Nat.add_eq_zero_iff] at hzero
    cases b <;> simp [Bracket.depthAfter?, hzero]

theorem openBrackets_eq_zero (h : IsStatement outer seen d s []) : openBrackets d = 0 := by
  have hb : ∀ b, d b = 0 := fun b => by simpa [Bracket.depthAfter?] using h.depth b
  simp [openBrackets, hb]

theorem getLast?_ne (h : IsStatement 0 seen d s w) (hs : ∀ q ∈ s.mode.quote?, isQuote q = true) :
    w.getLast? ≠ some ';' := by
  induction w generalizing seen d s with
  | nil => simp
  | cons c w ih =>
    have htail := ih h.tail (isQuote_of_step hs c)
    cases w with
    | cons e w => rwa [List.getLast?_cons_cons]
    | nil =>
      rintro ⟨⟩
      have hcode := isCode_of_step_semicolon hs h.tail.isCode
      have hpos := h.openBrackets_pos (.inl rfl) (role_of_isCode hcode (.inl rfl) _)
      have hzero := h.tail.openBrackets_eq_zero
      rw [← Nat.zero_add (openBrackets _), ← deeper_openBrackets hcode h.depth] at hzero
      exact hpos hzero

theorem openAfter?_eq (h : IsStatement outer seen d s w) :
    openAfter? (outer + openBrackets d) seen (stringState s) w = some (outer, none) := by
  induction w generalizing seen d s with
  | nil =>
    have hs : s.isCode = true := h.isCode
    rw [h.openBrackets_eq_zero, stringState, if_pos hs]
    rfl
  | cons c w ih =>
    have hrest := ih h.tail
    have hremark := h.tail.not_inRemark
    cases hs : s.isCode with
    | true =>
      have hgo : (outer + openBrackets d == 0 && (c == ';' || (c == '\n' && !continues seen))) =
          false := by
        by_cases hc : c = ';' ∨ (c = '\n' ∧ continues seen = false)
        · have hrole := role_of_isCode hs (hc.imp_right And.left) w.head?
          simp only [beq_false_of_ne (h.openBrackets_pos hc hrole), Bool.false_and]
        · simp_all
      have hnext : openNext? (outer + openBrackets d) seen none c =
          some (outer + openBrackets fun b => nextDepth b s c (d b), stringState (s.step c)) := by
        rw [openNext?, Option.map_none]
        simp only [hgo, Bool.false_eq_true, if_false]
        rw [stringState_step hs hremark, deeper_openBrackets hs h.depth]
      rw [stringState, if_pos hs, openAfter?, hnext]
      exact hrest
    | false =>
      rw [openBrackets_of_not_isCode hs] at hrest
      have hgo : c = '\n' → continues seen = false → (s.step c).isCode = true →
          outer + openBrackets d ≠ 0 := by
        rintro rfl hstops hcode
        exact h.openBrackets_pos (.inr ⟨rfl, hstops⟩)
          (role_of_isCode_step hs h.not_inRemark hcode _)
      have hnext : openNext? (outer + openBrackets d) seen (some s) c =
          some (outer + openBrackets d, stringState (s.step c)) := by
        rw [openNext?, Option.map_some, stringState]
        grind
      rw [stringState, hs, if_neg Bool.false_ne_true, openAfter?, hnext]
      exact hrest

theorem of_isClosed (hclosed : isClosed w = true)
    (hremark : ∀ i ≤ w.length, (State.start.run (w.take i)).inRemark = false)
    (hbreak : ∀ i < w.length, w[i]? = some ';' ∨
        (w[i]? = some '\n' ∧ continues (w.take i).reverse = false) →
      inLiteral w i = false → isOutsideBrackets (w.take i) = false) (seen : Text) :
    IsStatement 0 seen (fun _ => 0) .start w := by
  have hneutral := neutral_of_isClosed hclosed
  refine ⟨fun b => hneutral.depth b 0, hneutral.isCode, hremark, fun i hi hc hrole => .inr ?_⟩
  have hliteral : inLiteral w i = false := by
    rw [inLiteral, hrole]
    rfl
  have hopen := hbreak i hi (hc.imp_right fun h => ⟨h.1, continues_of_append h.2⟩) hliteral
  simp only [isOutsideBrackets, List.all_eq_false, Bracket.isBalanced] at hopen
  obtain ⟨b, -, hb⟩ := hopen
  exact ⟨b, by simpa using hb⟩

theorem statementWidth_eq (h : IsStatement 0 seen (fun _ => 0) .start w) (rest : Text) :
    statementWidth 0 seen none (w ++ ';' :: rest) = w.length := by
  have hopen : openAfter? 0 seen none w = some (0, none) := h.openAfter?_eq
  rw [statementWidth_of_openAfter? hopen, statementWidth]
  rfl

end IsStatement

end CanvasPage.Member
