import CanvasPage.Proofs.Script.LineBreaks
import CanvasPage.Script.Literal

namespace CanvasPage.Script

/-- What still belongs to the literal that a text is read in, and what follows it. The line feed
that ends a comment or an open string is code. -/
def State.leave? (s : State) : Text → Option (Text × Text)
  | [] => none
  | c :: rest =>
      if s.role c rest.head? == .code then some ([], c :: rest)
      else if (s.step c).isCode then some ([c], rest)
      else ((s.step c).leave? rest).map fun (inside, after) => (c :: inside, after)

variable {s : State} {c : Char} {t u v inside after : Text} {b : Bracket} {depth : Nat}

theorem State.eq_of_leave? (h : s.leave? t = some (inside, after)) : t = inside ++ after := by
  fun_induction State.leave? s t generalizing inside after with
  | case1 => cases h
  | case2 s c rest hrole =>
    obtain ⟨rfl, rfl⟩ := Prod.mk.inj (Option.some.inj h)
    rfl
  | case3 s c rest hrole hcode =>
    obtain ⟨rfl, rfl⟩ := Prod.mk.inj (Option.some.inj h)
    rfl
  | case4 s c rest hrole hcode ih =>
    obtain ⟨⟨i, a⟩, hi, heq⟩ := Option.map_eq_some_iff.mp h
    obtain ⟨rfl, rfl⟩ := Prod.mk.inj heq
    rw [ih hi, List.cons_append]

section Literal

/-- Only a line feed ends a literal without being part of it. -/
theorem State.of_role_eq_code (hs : s.isCode = false) {next : Option Char}
    (h : (s.role c next == .code) = true) : c = '\n' ∧ s.step c = .start := by
  obtain ⟨mode, nesting⟩ := s
  cases nesting with
  | cons n ns => cases h
  | nil => cases mode <;> grind [State.role, State.step, State.isCode, State.start]

theorem State.step_eq_start_of_isCode (hs : s.isCode = false) (h : (s.step c).isCode = true) :
    s.step c = .start := by
  obtain ⟨mode, nesting⟩ := s
  have hcode : (stepCode nesting c).isCode = true → nesting ≠ [] →
      stepCode nesting c = .start := by
    cases nesting with
    | nil => exact fun _ h => absurd rfl h
    | cons n ns => cases n <;> grind [stepCode, State.isCode]
  cases mode <;>
    grind [State.step, stepTemplate, State.isCode, State.start]

theorem Bracket.closeFrom_of_not_isCode (hs : s.isCode = false) (c : Char) (t : Text) :
    b.closeFrom depth s (c :: t) =
      (b.closeFrom depth (s.step c) t).map fun (inside, after) => (c :: inside, after) := by
  rw [Bracket.closeFrom.eq_def]
  simp only [hs, Bool.false_and, Bool.false_eq_true, if_false]

theorem Bracket.closeFrom_eq_bind (b : Bracket) (depth : Nat) (hs : s.isCode = false) (t : Text) :
    b.closeFrom depth s t = (s.leave? t).bind fun (m, rest) =>
      (b.closeFrom depth .start rest).map fun (inside, after) => (m ++ inside, after) := by
  fun_induction State.leave? s t with
  | case1 => rfl
  | case2 s c rest hrole =>
    obtain ⟨rfl, hstep⟩ := State.of_role_eq_code hs hrole
    rw [closeFrom_of_not_isCode hs, hstep, Option.bind_some]
    dsimp only
    rw [closeFrom_cons (by cases b <;> decide) (by cases b <;> decide), Option.map_map]
    rfl
  | case3 s c rest hrole hcode =>
    rw [closeFrom_of_not_isCode hs, State.step_eq_start_of_isCode hs hcode, Option.bind_some]
    rfl
  | case4 s c rest hrole hcode ih =>
    rw [closeFrom_of_not_isCode hs, ih (by simpa using hcode)]
    cases (s.step c).leave? rest with
    | none => rfl
    | some found =>
      simp only [Option.map_some, Option.bind_some, Option.map_map]
      rfl

theorem State.role_eq_inside_of_not_isCode (hs : s.isCode = false) {next : Option Char}
    (h : ¬ (s.role c next == .code) = true) : s.role c next = .inside := by
  obtain ⟨mode, nesting⟩ := s
  cases nesting with
  | cons n ns => rfl
  | nil => cases mode <;> grind [State.role, State.isCode]

theorem roles_of_leave?_eq_none (hs : s.isCode = false) (h : s.leave? t = none) :
    roles s t = t.map fun _ => .inside := by
  fun_induction State.leave? s t with
  | case1 => rfl
  | case2 | case3 => cases h
  | case4 s c rest hrole hcode ih =>
    rw [roles, State.role_eq_inside_of_not_isCode hs hrole, List.map_cons,
      ih (by simpa using hcode) (Option.map_eq_none_iff.mp h)]

theorem roles_of_leave?_eq_some (hs : s.isCode = false) (h : s.leave? t = some (inside, after)) :
    roles s t = (inside.map fun _ => .inside) ++ roles .start after := by
  fun_induction State.leave? s t generalizing inside after with
  | case1 => cases h
  | case2 s c rest hrole =>
    obtain ⟨rfl, rfl⟩ := Prod.mk.inj (Option.some.inj h)
    obtain ⟨rfl, hstep⟩ := State.of_role_eq_code hs hrole
    rw [roles, hstep, beq_iff_eq.mp hrole]
    rfl
  | case3 s c rest hrole hcode =>
    obtain ⟨rfl, rfl⟩ := Prod.mk.inj (Option.some.inj h)
    rw [roles, State.role_eq_inside_of_not_isCode hs hrole, State.step_eq_start_of_isCode hs hcode]
    rfl
  | case4 s c rest hrole hcode ih =>
    obtain ⟨⟨i, a⟩, hi, heq⟩ := Option.map_eq_some_iff.mp h
    obtain ⟨rfl, rfl⟩ := Prod.mk.inj heq
    rw [roles, State.role_eq_inside_of_not_isCode hs hrole, ih (by simpa using hcode) hi]
    rfl

theorem State.role_eq_of_not_isCode (hs : s.isCode = false) (x y : Option Char) :
    s.role c x = s.role c y := by
  obtain ⟨mode, nesting⟩ := s
  cases nesting with
  | cons n ns => rfl
  | nil => cases mode <;> simp_all [State.role, State.isCode]

theorem State.leave?_append (hs : s.isCode = false) (h : s.leave? t = some (inside, after))
    (u : Text) : s.leave? (t ++ u) = some (inside, after ++ u) := by
  fun_induction State.leave? s t generalizing inside after with
  | case1 => cases h
  | case2 s c rest hrole =>
    obtain ⟨rfl, rfl⟩ := Prod.mk.inj (Option.some.inj h)
    rw [List.cons_append, State.leave?, role_eq_of_not_isCode hs _ rest.head?, if_pos hrole]
  | case3 s c rest hrole hcode =>
    obtain ⟨rfl, rfl⟩ := Prod.mk.inj (Option.some.inj h)
    rw [List.cons_append, State.leave?, role_eq_of_not_isCode hs _ rest.head?, if_neg hrole, if_pos hcode]
  | case4 s c rest hrole hcode ih =>
    obtain ⟨⟨i, a⟩, hi, heq⟩ := Option.map_eq_some_iff.mp h
    obtain ⟨rfl, rfl⟩ := Prod.mk.inj heq
    rw [List.cons_append, State.leave?, role_eq_of_not_isCode hs _ rest.head?, if_neg hrole, if_neg hcode,
      ih (by simpa using hcode) hi]
    rfl

theorem State.leave?_append_of_eq_none (hs : s.isCode = false) (h : s.leave? t = none) (u : Text) :
    s.leave? (t ++ u) =
      ((s.run t).leave? u).map fun (inside, after) => (t ++ inside, after) := by
  fun_induction State.leave? s t with
  | case1 s =>
    rw [List.nil_append, State.run_nil]
    cases s.leave? u <;> rfl
  | case2 | case3 => cases h
  | case4 s c rest hrole hcode ih =>
    rw [List.cons_append, State.leave?, role_eq_of_not_isCode hs _ rest.head?, if_neg hrole,
      if_neg hcode, ih (by simpa using hcode) (Option.map_eq_none_iff.mp h), Option.map_map,
      State.run_cons]
    rfl

theorem exists_of_leave?_lineComment
    (h : State.leave? ⟨.lineComment, []⟩ t = some (inside, after)) :
    ∃ rest, after = '\n' :: rest ∧ '\n' ∉ inside := by
  induction t generalizing inside with
  | nil => cases h
  | cons c t ih =>
    by_cases hc : c = '\n'
    · subst hc
      obtain ⟨rfl, rfl⟩ := Prod.mk.inj (Option.some.inj h)
      exact ⟨t, rfl, List.not_mem_nil⟩
    · have hrole : State.role ⟨.lineComment, []⟩ c t.head? = .inside := by simp [State.role, hc]
      have hstep : State.step ⟨.lineComment, []⟩ c = ⟨.lineComment, []⟩ := by simp [State.step, hc]
      rw [State.leave?, hrole, if_neg (by decide), hstep, if_neg (by decide)] at h
      obtain ⟨⟨i, a⟩, hi, heq⟩ := Option.map_eq_some_iff.mp h
      obtain ⟨rfl, rfl⟩ := Prod.mk.inj heq
      obtain ⟨rest, rfl, hmem⟩ := ih hi
      exact ⟨rest, rfl, by simp [Ne.symm hc, hmem]⟩

end Literal

section Templates

/-- A state of a template expression in which `k` braces are open, from what its text alone would
lead to. -/
def State.within (k : Nat) (s : State) : State := ⟨s.mode, s.nesting ++ [k]⟩

theorem State.isCode_within (k : Nat) (s : State) : (s.within k).isCode = false := by
  simp [State.within, State.isCode]

theorem State.role_within (k : Nat) (s : State) (c : Char) (next : Option Char) :
    (s.within k).role c next = .inside := by
  simp [State.within, State.role]

theorem stepCode_singleton (k : Nat) (c : Char) :
    stepCode [k] c =
      if c == '}' then
        match k with
        | 0 => ⟨.template, []⟩
        | k + 1 => (stepCode [] c).within k
      else (stepCode [] c).within (if c == '{' then k + 1 else k) := by
  by_cases hclose : c = '}'
  · subst hclose
    cases k <;> rfl
  · by_cases hopen : c = '{'
    · subst hopen
      rfl
    · simp only [stepCode, beq_false_of_ne hclose, beq_false_of_ne hopen, Bool.false_eq_true,
        if_false]
      split
      · rfl
      · split
        · rfl
        · split <;> rfl

theorem stepCode_append (n k : Nat) (ns : List Nat) (c : Char) :
    stepCode (n :: (ns ++ [k])) c = (stepCode (n :: ns) c).within k := by
  simp only [stepCode]
  cases n <;> (repeat' split) <;> rfl

theorem State.step_within (k : Nat) (s : State) (c : Char) :
    (s.within k).step c =
      if s.isCode && c == Bracket.brace.closer then
        match k with
        | 0 => ⟨.template, []⟩
        | k + 1 => (s.step c).within k
      else (s.step c).within (if s.isCode && c == Bracket.brace.opener then k + 1 else k) := by
  obtain ⟨mode, nesting⟩ := s
  have htemplate : ∀ ns, stepTemplate (ns ++ [k]) c = (stepTemplate ns c).within k := by
    grind [stepTemplate, State.within]
  cases nesting with
  | nil =>
    cases mode with
    | code => exact stepCode_singleton k c
    | slash =>
      by_cases hslash : c = '/'
      · subst hslash
        rfl
      · by_cases hstar : c = '*'
        · subst hstar
          rfl
        · have hstep := stepCode_singleton k c
          simpa [State.within, State.step, State.isCode, Bracket.opener, Bracket.closer, hslash,
            hstar] using hstep
    | template | templateDollar => grind [State.within, State.step, State.isCode]
    | _ => grind [State.within, State.step, State.isCode]
  | cons n ns => cases mode <;> grind [State.within, State.step, State.isCode, stepCode_append]

theorem State.leave?_within (k : Nat) (s : State) (t : Text) :
    (s.within k).leave? t = (Bracket.brace.closeFrom k s t).bind fun (expression, rest) =>
      (State.leave? ⟨.template, []⟩ rest).map fun (inside, after) =>
        (expression ++ '}' :: inside, after) := by
  induction t generalizing k s with
  | nil => rfl
  | cons c t ih =>
    have hcode : ((s.within k).step c).isCode = false := by
      rw [State.step_within]
      split
      · cases k with
        | zero => rfl
        | succ k => exact State.isCode_within _ _
      · exact State.isCode_within _ _
    have hcons : ∀ found : Option (Text × Text),
        ((found.bind fun (expression, rest) =>
          (State.leave? ⟨.template, []⟩ rest).map fun (inside, after) =>
            (expression ++ '}' :: inside, after)).map fun (inside, after) => (c :: inside, after)) =
          (found.map fun (inside, after) => (c :: inside, after)).bind fun (expression, rest) =>
            (State.leave? ⟨.template, []⟩ rest).map fun (inside, after) =>
              (expression ++ '}' :: inside, after) := by
      intro found
      cases found with
      | none => rfl
      | some found =>
        rw [Option.bind_some, Option.map_some, Option.bind_some, Option.map_map]
        rfl
    rw [State.leave?, State.role_within, if_neg (by decide), if_neg (by simp [hcode]),
      State.step_within, Bracket.closeFrom.eq_def]
    dsimp only
    by_cases hclose : (s.isCode && c == Bracket.brace.closer) = true
    · rw [if_pos hclose, if_pos hclose]
      cases k with
      | zero =>
        rw [beq_iff_eq.mp (Bool.and_eq_true_iff.mp hclose).2]
        rfl
      | succ k =>
        dsimp only
        rw [ih k]
        exact hcons _
    · rw [if_neg hclose, if_neg hclose, ih]
      exact hcons _

theorem State.leave?_templateDollar (h : t.head? ≠ some '{') :
    State.leave? ⟨.templateDollar, []⟩ t = State.leave? ⟨.template, []⟩ t := by
  cases t with
  | nil => rfl
  | cons c t =>
    have hc : c ≠ '{' := fun hc => h (by rw [hc]; rfl)
    have hstep : State.step ⟨.templateDollar, []⟩ c = State.step ⟨.template, []⟩ c := by
      simp [State.step, hc]
    rw [State.leave?, State.leave?, hstep]
    rfl

end Templates

section Strings

variable {q d : Char} {w : Text}

theorem step_quote (h : (isQuote q || isBacktick q) = true) :
    State.start.step q = if isBacktick q then ⟨.template, []⟩ else ⟨.quoted q, []⟩ := by
  have hdisjoint : isQuote q = true → isBacktick q = false := by
    intro hq
    simp only [isQuote, Bool.or_eq_true, beq_iff_eq] at hq
    rcases hq with rfl | rfl <;> rfl
  cases hq : isQuote q with
  | true => simp [State.step, State.start, stepCode, hq, hdisjoint hq]
  | false =>
    rw [hq, Bool.false_or] at h
    simp [State.step, State.start, stepCode, hq, h]

theorem State.leave?_escape (h : (isQuote q || isBacktick q) = true) :
    (State.start.step q).leave? ['\\'] = none ∧
      (State.start.step q).leave? ('\\' :: d :: w) =
        ((State.start.step q).leave? w).map fun (inside, after) =>
          (['\\', d] ++ inside, after) := by
  rw [step_quote h]
  split
  · refine ⟨rfl, ?_⟩
    show Option.map _ (Option.map _ (State.leave? ⟨.template, []⟩ w)) = _
    rw [Option.map_map]
    rfl
  · refine ⟨by simp [State.leave?, State.role, State.step, State.isCode], ?_⟩
    have hrole : State.role ⟨.quoted q, []⟩ '\\' (some d) = .inside := rfl
    have hstep : State.step ⟨.quoted q, []⟩ '\\' = ⟨.quotedEscape q, []⟩ := rfl
    rw [State.leave?, List.head?_cons, hrole, if_neg (by decide), hstep,
      if_neg (by simp [State.isCode]), State.leave?]
    show Option.map _ (Option.map _ (State.leave? ⟨.quoted q, []⟩ w)) = _
    rw [Option.map_map]
    rfl

theorem State.leave?_expression (h : isBacktick q = true) :
    (State.start.step q).leave? ('$' :: '{' :: w) =
      ((Bracket.brace.enclosed? w).bind fun (expression, rest) =>
        ((State.start.step q).leave? rest).map fun (inside, after) =>
          (expression ++ '}' :: inside, after)).map fun (inside, after) =>
            (['$', '{'] ++ inside, after) := by
  rw [step_quote (by rw [h, Bool.or_true]), if_pos h, Bracket.enclosed?,
    ← State.leave?_within 0 .start w]
  show Option.map _ (Option.map _ (State.leave? ⟨.code, [0]⟩ w)) = _
  rw [Option.map_map]
  rfl

theorem State.leave?_lineFeed (h : isQuote q = true) (w : Text) :
    (State.start.step q).leave? ('\n' :: w) = some ([], '\n' :: w) := by
  have hq : isBacktick q = false := by
    simp only [isQuote, Bool.or_eq_true, beq_iff_eq] at h
    rcases h with rfl | rfl <;> rfl
  rw [step_quote (by rw [h, Bool.true_or]), hq]
  rfl

theorem State.leave?_quote (h : (isQuote q || isBacktick q) = true) (w : Text) :
    (State.start.step q).leave? (q :: w) = some ([q], w) := by
  rw [step_quote h]
  cases hq : isBacktick q with
  | true =>
    obtain rfl : q = Char.ofNat 96 := Char.toNat_inj.mp (beq_iff_eq.mp hq)
    rfl
  | false =>
    rw [hq, Bool.or_false, isQuote, Bool.or_eq_true, beq_iff_eq, beq_iff_eq] at h
    rcases h with rfl | rfl <;> rfl

theorem State.leave?_plain (h : (isQuote q || isBacktick q) = true) (hescape : c ≠ '\\')
    (hexpression : (c == '$' && isBacktick q && w.head? == some '{') = false)
    (hbreak : (c == '\n' && !isBacktick q) = false) (hquote : c ≠ q) :
    (State.start.step q).leave? (c :: w) =
      ((State.start.step q).leave? w).map fun (inside, after) => ([c] ++ inside, after) := by
  rw [step_quote h]
  cases hq : isBacktick q with
  | true =>
    rw [hq, Bool.and_true, Bool.and_eq_false_iff, beq_eq_false_iff_ne, beq_eq_false_iff_ne]
      at hexpression
    have hc : isBacktick c = false := by
      refine beq_false_of_ne fun hc => hquote (Char.toNat_inj.mp ?_)
      rw [hc, beq_iff_eq.mp hq]
    rw [if_pos rfl, State.leave?, if_neg (by simp [State.role])]
    by_cases hdollar : c = '$'
    · subst hdollar
      rw [← State.leave?_templateDollar (hexpression.resolve_left fun h => h rfl)]
      rfl
    · have hstep : State.step ⟨.template, []⟩ c = ⟨.template, []⟩ := by
        simp [State.step, stepTemplate, hescape, hc, hdollar]
      rw [hstep]
      rfl
  | false =>
    rw [hq, Bool.not_false, Bool.and_true, beq_eq_false_iff_ne] at hbreak
    have hstep : State.step ⟨.quoted q, []⟩ c = ⟨.quoted q, []⟩ := by
      simp [State.step, hescape, hbreak, hquote]
    rw [if_neg Bool.false_ne_true, State.leave?, if_neg (by simp [State.role, hbreak]), hstep,
      if_neg (by simp [State.isCode])]
    rfl

end Strings

section Slash

theorem step_slash (hslash : t.head? ≠ some '/') (hstar : t.head? ≠ some '*')
    (h : t.head? = some c) : State.step ⟨.slash, []⟩ c = State.start.step c := by
  rw [h] at hslash hstar
  simp only [ne_eq, Option.some_inj] at hslash hstar
  simp [State.step, State.start, hslash, hstar]

theorem Bracket.closeFrom_slash (b : Bracket) (depth : Nat) (hslash : t.head? ≠ some '/')
    (hstar : t.head? ≠ some '*') : b.closeFrom depth ⟨.slash, []⟩ t = b.closeFrom depth .start t := by
  cases t with
  | nil => rfl
  | cons c t =>
    rw [closeFrom.eq_def, closeFrom.eq_def b depth .start]
    dsimp only
    rw [step_slash hslash hstar rfl]
    rfl

theorem roles_slash (hslash : t.head? ≠ some '/') (hstar : t.head? ≠ some '*') :
    roles ⟨.slash, []⟩ t = roles .start t := by
  cases t with
  | nil => rfl
  | cons c t =>
    have hc : c ≠ '/' ∧ c ≠ '*' :=
      ⟨fun hc => hslash (by rw [hc]; rfl), fun hc => hstar (by rw [hc]; rfl)⟩
    have hrole : State.role ⟨.slash, []⟩ c t.head? = State.start.role c t.head? := by
      simp [State.role, State.start, hc]
    rw [roles, roles, step_slash hslash hstar rfl, hrole]

end Slash

section Openings

variable {w : Text}

theorem isCode_step_of_quote (h : (isQuote c || isBacktick c) = true) :
    (State.start.step c).isCode = false := by
  rw [Bool.or_eq_true] at h
  by_cases hq : isQuote c = true
  · simp [State.step, State.start, stepCode, hq, State.isCode]
  · simp [State.step, State.start, stepCode, hq, h.resolve_left hq, State.isCode]

theorem step_start (h : (isQuote c || isBacktick c) = false) :
    State.start.step c = if c == '/' then ⟨.slash, []⟩ else .start := by
  rw [Bool.or_eq_false_iff] at h
  simp [State.step, State.start, stepCode, h]

theorem Bracket.closeFrom_opening {opening : Text} (hs : s.isCode = false)
    (h : b.closeFrom depth .start (opening ++ w) =
      (b.closeFrom depth s w).map fun (inside, after) => (opening ++ inside, after)) :
    b.closeFrom depth .start (opening ++ w) = (s.leave? w).bind fun (m, rest) =>
      (b.closeFrom depth .start rest).map fun (inside, after) => (opening ++ m ++ inside, after) := by
  rw [h, closeFrom_eq_bind b depth hs]
  cases s.leave? w with
  | none => rfl
  | some found =>
    rw [Option.bind_some, Option.bind_some, Option.map_map]
    simp only [Function.comp_def, List.append_assoc]

theorem Bracket.closeFrom_string (b : Bracket) (depth : Nat)
    (hc : (isQuote c || isBacktick c) = true) (w : Text) :
    b.closeFrom depth .start ([c] ++ w) = ((State.start.step c).leave? w).bind fun (m, rest) =>
      (b.closeFrom depth .start rest).map fun (inside, after) => ([c] ++ m ++ inside, after) := by
  refine closeFrom_opening (isCode_step_of_quote hc) ?_
  refine closeFrom_cons ?_ ?_ _ _ _
  · rintro rfl
    cases b <;> cases hc
  · rintro rfl
    cases b <;> cases hc

theorem Bracket.closeFrom_comment (b : Bracket) (depth : Nat) (hc : c = '/' ∨ c = '*')
    (hs : (State.start.step '/').step c = s) (w : Text) :
    b.closeFrom depth .start (['/', c] ++ w) = (s.leave? w).bind fun (m, rest) =>
      (b.closeFrom depth .start rest).map fun (inside, after) =>
        (['/', c] ++ m ++ inside, after) := by
  have hcode : s.isCode = false := by
    rcases hc with rfl | rfl <;> exact hs ▸ rfl
  have hplain : c ≠ b.opener ∧ c ≠ b.closer := by
    rcases hc with rfl | rfl <;> cases b <;> decide
  refine closeFrom_opening hcode ?_
  rw [List.cons_append, closeFrom_cons (by cases b <;> decide) (by cases b <;> decide),
    List.cons_append, closeFrom_cons hplain.1 hplain.2, Option.map_map, hs]
  rfl

theorem Bracket.closeFrom_step_start (b : Bracket) (depth : Nat)
    (hstring : (isQuote c || isBacktick c) = false)
    (hline : (c == '/' && t.head? == some '/') = false)
    (hcomment : (c == '/' && t.head? == some '*') = false) :
    b.closeFrom depth (State.start.step c) t = b.closeFrom depth .start t := by
  rw [step_start hstring]
  split
  · rename_i hc
    rw [hc, Bool.true_and, beq_eq_false_iff_ne] at hline hcomment
    exact closeFrom_slash b depth hline hcomment
  · rfl

theorem Bracket.closeFrom_plain (depth : Nat) (hstring : (isQuote c || isBacktick c) = false)
    (hline : (c == '/' && t.head? == some '/') = false)
    (hcomment : (c == '/' && t.head? == some '*') = false) (hopen : c ≠ b.opener)
    (hclose : c ≠ b.closer) :
    b.closeFrom depth .start (c :: t) =
      (b.closeFrom depth .start t).map fun (inside, after) => ([c] ++ inside, after) := by
  rw [closeFrom_cons hopen hclose, closeFrom_step_start b depth hstring hline hcomment]
  rfl

theorem Bracket.closeFrom_opener (b : Bracket) (depth : Nat) (t : Text) :
    b.closeFrom depth .start (b.opener :: t) =
      (b.closeFrom (depth + 1) .start t).map fun (inside, after) =>
        ([b.opener] ++ inside, after) := by
  cases b <;> rfl

theorem Bracket.closeFrom_closer_zero (b : Bracket) (t : Text) :
    b.closeFrom 0 .start (b.closer :: t) = some ([], t) := by
  cases b <;> rfl

theorem Bracket.closeFrom_closer_succ (b : Bracket) (depth : Nat) (t : Text) :
    b.closeFrom (depth + 1) .start (b.closer :: t) =
      (b.closeFrom depth .start t).map fun (inside, after) => ([b.closer] ++ inside, after) := by
  cases b <;> rfl

theorem roles_step_start (hstring : (isQuote c || isBacktick c) = false)
    (hline : (c == '/' && t.head? == some '/') = false)
    (hcomment : (c == '/' && t.head? == some '*') = false) :
    roles (State.start.step c) t = roles .start t := by
  rw [step_start hstring]
  split
  · rename_i hc
    rw [hc, Bool.true_and, beq_eq_false_iff_ne] at hline hcomment
    exact roles_slash hline hcomment
  · rfl

end Openings

section Prefixes

theorem Bracket.closeFrom_append_of_eq_some (h : b.closeFrom depth s t = some (inside, after))
    (u : Text) : b.closeFrom depth s (t ++ u) = some (inside, after ++ u) := by
  fun_induction Bracket.closeFrom b depth s t generalizing inside after with
  | case1 => cases h
  | case2 s c rest hc =>
    obtain ⟨rfl, rfl⟩ := Prod.mk.inj (Option.some.inj h)
    rw [List.cons_append, closeFrom.eq_def]
    dsimp only
    rw [if_pos hc]
  | case3 s c rest hc depth ih =>
    obtain ⟨⟨i, a⟩, hi, heq⟩ := Option.map_eq_some_iff.mp h
    obtain ⟨rfl, rfl⟩ := Prod.mk.inj heq
    rw [List.cons_append, closeFrom.eq_def]
    dsimp only
    rw [if_pos hc, ih hi]
    rfl
  | case4 depth s c rest hc ih =>
    obtain ⟨⟨i, a⟩, hi, heq⟩ := Option.map_eq_some_iff.mp h
    obtain ⟨rfl, rfl⟩ := Prod.mk.inj heq
    rw [List.cons_append, closeFrom.eq_def]
    dsimp only
    rw [if_neg hc, ih hi]
    rfl

theorem Bracket.enclosed?_append_right (h : b.enclosed? t = some (inside, after)) (u : Text) :
    b.enclosed? (t ++ u) = some (inside, after ++ u) :=
  Bracket.closeFrom_append_of_eq_some h u

theorem Bracket.exists_of_closeFrom_append (h : b.closeFrom depth s t = none)
    (hu : b.closeFrom depth s (t ++ u) = some (inside, after)) : ∃ v, inside = t ++ v := by
  fun_induction Bracket.closeFrom b depth s t generalizing inside after with
  | case1 => exact ⟨inside, rfl⟩
  | case2 => cases h
  | case3 s c rest hc depth ih =>
    rw [List.cons_append, closeFrom.eq_def] at hu
    dsimp only at hu
    rw [if_pos hc] at hu
    obtain ⟨⟨i, a⟩, hi, heq⟩ := Option.map_eq_some_iff.mp hu
    obtain ⟨v, rfl⟩ := ih (Option.map_eq_none_iff.mp h) hi
    exact ⟨v, (Prod.mk.inj heq).1.symm⟩
  | case4 depth s c rest hc ih =>
    rw [List.cons_append, closeFrom.eq_def] at hu
    dsimp only at hu
    rw [if_neg hc] at hu
    obtain ⟨⟨i, a⟩, hi, heq⟩ := Option.map_eq_some_iff.mp hu
    obtain ⟨v, rfl⟩ := ih (Option.map_eq_none_iff.mp h) hi
    exact ⟨v, (Prod.mk.inj heq).1.symm⟩

end Prefixes

end CanvasPage.Script
