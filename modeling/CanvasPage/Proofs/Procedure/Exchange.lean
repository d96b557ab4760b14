import CanvasPage.Proofs.Procedure.Edit
import CanvasPage.Proofs.Script.Alike

namespace CanvasPage

namespace Script

/-- A character that neither opens a literal nor ends an operator that may. -/
def isQuiet (c : Char) : Bool := !(isQuote c || isBacktick c || c == '/' || c == '*' || c == '>')

variable {s : State} {c : Char} {t : Text}

theorem isQuiet_of_isPlain (h : isPlain c = true) (hne : c ≠ '>') : isQuiet c = true := by
  simp only [isPlain, Bool.not_eq_true', Bool.or_eq_false_iff] at h
  simp [isQuiet, h, hne]

theorem step_of_isQuiet (hs : s.isCode = true) (hc : isQuiet c = true) :
    s.step c = .start ∧ s.emit c = [] := by
  simp only [isQuiet, Bool.not_eq_true', Bool.or_eq_false_iff] at hc
  rcases State.eq_of_isCode hs with rfl | rfl
  · simp [State.step, stepCode, State.emit, hc, State.start]
  · simp [State.step, stepCode, State.emit, hc, State.start]

theorem run_of_isQuiet (hs : s.isCode = true) (hne : t ≠ []) (ht : ∀ c ∈ t, isQuiet c = true) :
    s.run t = .start := by
  induction t generalizing s with
  | nil => exact absurd rfl hne
  | cons c t ih =>
    rw [State.run_cons, (step_of_isQuiet hs (ht c (by simp))).1]
    by_cases hnil : t = []
    · rw [hnil, State.run_nil]
    · exact ih rfl hnil fun d hd => ht d (by simp [hd])

theorem isCode_run_of_isQuiet (hs : s.isCode = true) (ht : ∀ c ∈ t, isQuiet c = true) :
    (s.run t).isCode = true := by
  by_cases hnil : t = []
  · rwa [hnil, State.run_nil]
  · rw [run_of_isQuiet hs hnil ht]
    rfl

theorem emitted_of_isQuiet (hs : s.isCode = true) (ht : ∀ c ∈ t, isQuiet c = true) :
    emitted s t = [] := by
  induction t generalizing s with
  | nil => rfl
  | cons c t ih =>
    obtain ⟨hstep, hemit⟩ := step_of_isQuiet hs (ht c (by simp))
    rw [emitted, hemit, hstep, ih rfl fun d hd => ht d (by simp [hd])]
    rfl

theorem step_eq_start (h : s.emit c = []) (hc : c ≠ '/') : s.step c = .start := by
  obtain ⟨mode, nesting⟩ := s
  cases nesting with
  | cons n ns => cases h
  | nil => cases mode <;> grind [State.emit, State.step, stepCode, State.start]

theorem isCode_of_emit (h : s.emit c = []) (hc : c ≠ '\n') : s.isCode = true := by
  obtain ⟨mode, nesting⟩ := s
  cases nesting with
  | cons n ns => cases h
  | nil => cases mode <;> grind [State.emit, State.isCode]

theorem run_eq_start (h : emitted s (t ++ [c]) = []) (hc : c ≠ '/') : s.run (t ++ [c]) = .start := by
  rw [emitted_append, List.append_eq_nil_iff, emitted, emitted, List.append_nil] at h
  rw [State.run_append]
  exact step_eq_start h.2 hc

end Script

namespace Substitution

open Pattern Script

/-- A character of a cast's beginning, blanks and `as`. -/
def beginsCast (c : Char) : Bool := Text.isBlank c || c == 'a' || c == 's'

/-- Code and what may take its place without a literal, an arrow or a cast beginning or ending
there. -/
structure Exchange (old new : Text) : Prop where
  head : ∀ c ∈ old.head?, c ≠ '\n'
  quiet : ∀ c ∈ new, isQuiet c = true
  no_equals : '=' ∉ new.dropLast
  calm : ∃ u c v, new = u ++ c :: v ∧ (∀ d ∈ u, Text.isBlank d = false) ∧ beginsCast c = false
  last : ∃ u v a b, old = u ++ [a] ∧ new = v ++ [b] ∧ a ≠ '/' ∧ beginsCast a = false ∧
    beginsCast b = false ∧ (b = '=' ↔ a = '=')

variable {before w after : Text} {gs : GroupTexts}

theorem isQuiet_of_isBlank {c : Char} (h : Text.isBlank c = true) : isQuiet c = true ∧ c ≠ '=' := by
  have hne : ∀ d : Char, Text.isBlank d = false → c ≠ d := by
    rintro d hd rfl
    rw [h] at hd
    cases hd
  exact ⟨isQuiet_of_isPlain (isPlain_of_isBlank h).1 (hne '>' (by decide)), hne '=' (by decide)⟩

theorem run_start_of_allBlank {ws : Text} (hws : Text.allBlank ws = true) (t : Text) :
    State.start.run (ws ++ t) = State.start.run t := by
  by_cases hnil : ws = []
  · rw [hnil]
    rfl
  · rw [State.run_append, run_of_isQuiet rfl hnil fun c hc =>
      (isQuiet_of_isBlank (List.all_eq_true.mp hws c hc)).1]

theorem isQuiet_of_isPathChar {c : Char} (h : isPathChar c = true) :
    isQuiet c = true ∧ c ≠ '=' ∧ Text.isBlank c = false := by
  have hne : ∀ d : Char, isPathChar d = false → c ≠ d := by
    rintro d hd rfl
    rw [h] at hd
    cases hd
  have hequals := hne '=' (by decide)
  rw [isPathChar, Bool.or_eq_true] at h
  rcases h with h | h
  · exact ⟨isQuiet_of_isPlain (isPlain_of_continuesIdentifier h) (hne '>' (by decide)), hequals,
      Text.isBlank_of_continuesIdentifier h⟩
  · obtain rfl := beq_iff_eq.mp h
    exact ⟨by decide, hequals, by decide⟩

theorem isPathChar_of_isIdentifier {name : Text} (h : Text.isIdentifier name = true) :
    ∀ c ∈ name, isPathChar c = true := by
  intro c hc
  have hcontinues := Text.continuesIdentifier_of_isIdentifier h c hc
  rw [Text.continuesIdentifier] at hcontinues
  rw [isPathChar, hcontinues, Bool.true_or]

theorem exchange_of_parts {u path body : Text} {a b c : Char}
    (hhead : ∀ d ∈ (u ++ [a]).head?, d ≠ '\n') (hpath : ∀ d ∈ path, isPathChar d = true)
    (hc : beginsCast c = false) (hbody : ∀ d ∈ c :: body, isQuiet d = true ∧ d ≠ '=')
    (ha : a ≠ '/' ∧ beginsCast a = false) (hb : isQuiet b = true ∧ beginsCast b = false)
    (hequals : b = '=' ↔ a = '=') : Exchange (u ++ [a]) (path ++ c :: (body ++ [b])) := by
  have hnew : path ++ c :: (body ++ [b]) = (path ++ c :: body) ++ [b] := by simp
  refine ⟨hhead, fun d hd => ?_, fun hd => ?_, ⟨path, c, body ++ [b], rfl, fun d hd => ?_, hc⟩,
    ⟨u, _, a, b, rfl, hnew, ha.1, ha.2, hb.2, hequals⟩⟩
  · rw [hnew] at hd
    rcases List.mem_append.mp hd with hd | hd
    · rcases List.mem_append.mp hd with hd | hd
      · exact (isQuiet_of_isPathChar (hpath d hd)).1
      · exact (hbody d hd).1
    · rw [List.mem_singleton.mp hd]
      exact hb.1
  · rw [hnew, List.dropLast_concat] at hd
    rcases List.mem_append.mp hd with hd | hd
    · exact (isQuiet_of_isPathChar (hpath _ hd)).2.1 rfl
    · exact (hbody _ hd).2 rfl
  · exact (isQuiet_of_isPathChar (hpath d hd)).2.2

variable {s : Substitution} {o : Occurrence}

theorem head?_ne_lineFeed_of_isAnnotated {w ws name : Text} (h : IsAnnotated before w ws name) :
    ∀ c ∈ w.head?, c ≠ '\n' := by
  obtain ⟨kw, hkw, bs, cs, -, rfl⟩ := h.split
  obtain ⟨c, rest, rfl, hc⟩ := exists_cons_of_mem_keywords hkw
  intro d hd
  obtain rfl : c = d := by simpa using hd
  rintro rfl
  revert hc
  decide

theorem quiet_of_isAnnotated {w ws name : Text} (h : IsAnnotated before w ws name) :
    ∀ c ∈ 'v' :: 'a' :: 'r' :: (ws ++ name), isQuiet c = true ∧ c ≠ '=' := by
  simp only [List.forall_mem_cons, List.forall_mem_append]
  refine ⟨by decide, by decide, by decide, fun c hc => ?_, fun c hc => ?_⟩
  · exact isQuiet_of_isBlank (List.all_eq_true.mp h.blank c hc)
  · obtain ⟨hquiet, hne, -⟩ := isQuiet_of_isPathChar (isPathChar_of_isIdentifier h.isIdentifier c hc)
    exact ⟨hquiet, hne⟩

/-- What the substitution reads it keeps up to some point and exchanges from there on. -/
def Exchanges (s : Substitution) : Prop :=
  ∀ (before w after : Text) (gs : GroupTexts) (o : Occurrence), s.pattern.Reads before w after gs →
    (∀ i, o.groupText i = gs.text i) →
      ∃ kept old new, w = kept ++ old ∧ s.replacement o = kept ++ new ∧ Exchange old new

theorem exchanges_typedDeclaration : Exchanges typedDeclaration := by
  intro before w after gs o hread hgroups
  obtain ⟨u, ws, name, rfl, -, hannotated, hws, hname⟩ := exists_of_reads_typedDeclaration hread
  refine ⟨[], _, [] ++ 'v' :: (('a' :: 'r' :: (ws ++ (name ++ [' ']))) ++ ['=']), rfl, ?_, ?_⟩
  · have hvar : ("var" : Text) = ['v', 'a', 'r'] := rfl
    have hend : (" =" : Text) = [' ', '='] := rfl
    simp [typedDeclaration, hgroups, hws, hname, hvar, hend]
  · have hquiet := quiet_of_isAnnotated hannotated
    refine exchange_of_parts (head?_ne_lineFeed_of_isAnnotated hannotated) (by simp) (by decide)
      (fun d hd => ?_) (by decide) (by decide) (by decide)
    have hspace : isQuiet ' ' = true ∧ ' ' ≠ '=' := by decide
    simp only [List.mem_cons, List.mem_append, List.not_mem_nil, or_false] at hd hquiet
    rcases hd with hd | hd | hd | hd | hd | rfl
    · exact hquiet d (.inl hd)
    · exact hquiet d (.inr (.inl hd))
    · exact hquiet d (.inr (.inr (.inl hd)))
    · exact hquiet d (.inr (.inr (.inr (.inl hd))))
    · exact hquiet d (.inr (.inr (.inr (.inr hd))))
    · exact hspace

theorem exchanges_typedDeclarationWithoutValue : Exchanges typedDeclarationWithoutValue := by
  intro before w after gs o hread hgroups
  obtain ⟨u, ws, name, rfl, -, hannotated, hws, hname⟩ :=
    exists_of_reads_typedDeclarationWithoutValue hread
  refine ⟨[], _, [] ++ 'v' :: (('a' :: 'r' :: (ws ++ name)) ++ [';']), rfl, ?_, ?_⟩
  · have hvar : ("var" : Text) = ['v', 'a', 'r'] := rfl
    have hend : (";" : Text) = [';'] := rfl
    simp [typedDeclarationWithoutValue, hgroups, hws, hname, hvar, hend]
  · exact exchange_of_parts (head?_ne_lineFeed_of_isAnnotated hannotated) (by simp) (by decide)
      (quiet_of_isAnnotated hannotated) (by decide) (by decide) (by decide)

theorem exchanges_blockScopedDeclaration : Exchanges blockScopedDeclaration := by
  intro before w after gs o hread hgroups
  obtain ⟨kept, kw, rfl, hkw, hkept, -, -⟩ := exists_of_reads_blockScopedDeclaration hread
  have hlast : ∃ u, kw = u ++ ['t'] ∧ ∀ c ∈ (u ++ ['t']).head?, c ≠ '\n' := by
    rcases hkw with rfl | rfl
    · exact ⟨['l', 'e'], rfl, by simp⟩
    · exact ⟨['c', 'o', 'n', 's'], rfl, by simp⟩
  obtain ⟨u, rfl, hhead⟩ := hlast
  refine ⟨kept, _, [] ++ 'v' :: (['a'] ++ ['r']), rfl, ?_, ?_⟩
  · simp only [blockScopedDeclaration, hgroups, hkept]
    rfl
  · exact exchange_of_parts hhead (by simp) (by decide) (by decide) (by decide) (by decide)
      (by decide)

theorem exchanges_arraySpreadCopy : Exchanges arraySpreadCopy := by
  intro before w after gs o hread hgroups
  obtain ⟨u, v, rfl, -, hpath⟩ := exists_of_reads_arraySpreadCopy hread
  refine ⟨[], ('[' :: (u ++ ("..." ++ v))) ++ [']'],
    gs.text 1 ++ '.' :: (['s', 'l', 'i', 'c', 'e', '('] ++ [')']), by simp, ?_, ?_⟩
  · simp only [arraySpreadCopy, hgroups]
    rfl
  · exact exchange_of_parts (by simp) hpath (by decide) (by decide) (by decide) (by decide)
      (by decide)

theorem exchanges_genericConstructorCall : Exchanges genericConstructorCall := by
  intro before w after gs o hread hgroups
  obtain ⟨u, rfl, -, hpath⟩ := exists_of_reads_genericConstructorCall hread
  refine ⟨[], ('n' :: u) ++ ['('], [] ++ 'n' :: (('e' :: 'w' :: ' ' :: gs.text 1) ++ ['(']), rfl,
    ?_, ?_⟩
  · have hnew : ("new " : Text) = ['n', 'e', 'w', ' '] := rfl
    have hopen : ("(" : Text) = ['('] := rfl
    simp [genericConstructorCall, hgroups, hnew, hopen]
  · refine exchange_of_parts (by simp) (by simp) (by decide) ?_ (by decide) (by decide) (by decide)
    simp only [List.forall_mem_cons]
    refine ⟨by decide, by decide, by decide, by decide, fun c hc => ?_⟩
    obtain ⟨hquiet, hne, -⟩ := isQuiet_of_isPathChar (hpath c hc)
    exact ⟨hquiet, hne⟩

theorem exchanges_nonNullAssertion : Exchanges nonNullAssertion := by
  intro before w after gs o hread hgroups
  obtain ⟨c, d, rfl, hfirst, hsecond, -, hd⟩ := exists_of_reads_nonNullAssertion hread
  have hends : ∀ d ∈ (".;),[" : Text), isQuiet d = true ∧ d ≠ '/' ∧ beginsCast d = false := by
    decide
  obtain ⟨hquiet, hslash, hbegins⟩ := hends d hd
  refine ⟨[c], ['!', d], [d], rfl, ?_, ?_⟩
  · simp [nonNullAssertion, hgroups, hfirst, hsecond]
  · exact ⟨by simp, by simpa using hquiet, by simp, ⟨[], d, [], rfl, by simp, hbegins⟩,
      ⟨['!'], [], d, d, rfl, rfl, hslash, hbegins, hbegins, Iff.rfl⟩⟩

theorem exchanges_of_mem_beforeCast {s : Substitution} (hs : s ∈ beforeCast) : s.Exchanges := by
  simp only [beforeCast, List.mem_cons, List.not_mem_nil, or_false] at hs
  rcases hs with rfl | rfl | rfl | rfl | rfl
  · exact exchanges_typedDeclaration
  · exact exchanges_typedDeclarationWithoutValue
  · exact exchanges_blockScopedDeclaration
  · exact exchanges_arraySpreadCopy
  · exact exchanges_genericConstructorCall

section Swaps

/-- What becomes of a beginning of `t` when characters are kept and code is exchanged. -/
inductive Swaps (t : Text) : Text → Text → Prop where
  | nil : Swaps t [] []
  | keep {p q u : Text} {c : Char} (hsplit : t = p ++ c :: u) (h : Swaps t p q) :
      Swaps t (p ++ [c]) (q ++ [c])
  | swap {p q old new : Text} (hcode : emitted (State.start.run p) old = [])
      (hexchange : Exchange old new) (h : Swaps t p q) : Swaps t (p ++ old) (q ++ new)

variable {s : Substitution} {t p q : Text}

theorem Swaps.keep_all {u v : Text} (hsplit : t = p ++ (u ++ v)) (h : Swaps t p q) :
    Swaps t (p ++ u) (q ++ u) := by
  induction u generalizing p q with
  | nil => simpa using h
  | cons c u ih =>
    have hnext := ih (p := p ++ [c]) (q := q ++ [c]) (by simpa using hsplit) (.keep hsplit h)
    simpa using hnext

theorem Edits.swaps (hs : s.Exchanges) (h : Edits s t p q) : Swaps t p q := by
  induction h with
  | nil => exact .nil
  | keep hsplit _ ih => exact .keep hsplit ih
  | replace hsplit hcode hread hgroups _ ih =>
    obtain ⟨kept, old, new, rfl, hnew, hexchange⟩ := hs _ _ _ _ _ hread hgroups
    rw [emitted_append, List.append_eq_nil_iff, ← State.run_append] at hcode
    rw [hnew, ← List.append_assoc, ← List.append_assoc]
    exact .swap hcode.2 hexchange (ih.keep_all (by rw [hsplit, List.append_assoc]))

theorem Exchange.isCode {s : State} {old new : Text} (h : Exchange old new)
    (hcode : emitted s old = []) : s.isCode = true := by
  obtain ⟨u, -, a, -, rfl, -⟩ := h.last
  obtain ⟨c, v, hold⟩ := List.exists_cons_of_ne_nil (List.append_ne_nil_of_right_ne_nil u (List.cons_ne_nil a []))
  have hhead := h.head c (by rw [hold]; rfl)
  rw [hold, emitted, List.append_eq_nil_iff] at hcode
  exact isCode_of_emit hcode.1 hhead

theorem Exchange.run_eq {s : State} {old new : Text} (h : Exchange old new)
    (hcode : emitted s old = []) : s.run new = s.run old := by
  have hs := h.isCode hcode
  obtain ⟨u, v, a, b, rfl, rfl, ha, -⟩ := h.last
  rw [run_eq_start hcode ha, run_of_isQuiet hs (by simp) h.quiet]

theorem Swaps.reads_alike (h : Swaps t p q) :
    State.start.run q = State.start.run p ∧ emitted .start q = emitted .start p := by
  induction h with
  | nil => exact ⟨rfl, rfl⟩
  | keep hsplit _ ih =>
    rw [State.run_append, State.run_append, emitted_append, emitted_append, ih.1, ih.2]
    exact ⟨rfl, rfl⟩
  | swap hcode hexchange _ ih =>
    rw [State.run_append, State.run_append, emitted_append, emitted_append, ih.1, ih.2, hcode,
      hexchange.run_eq hcode, emitted_of_isQuiet (hexchange.isCode hcode) hexchange.quiet]
    exact ⟨rfl, rfl⟩

end Swaps

end Substitution

end CanvasPage
