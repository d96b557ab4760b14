import CanvasPage.Proofs.Script.CodeOffset

namespace CanvasPage

/-- The bytes of a text that a range covers. -/
def Span.slice? (r : Span) (t : Text) : Option Text :=
  (Text.dropBytes r.start t).bind (Text.takeBytes (r.stop - r.start))

theorem Span.slice?_append (t u v : Text) :
    Span.slice? ⟨Text.byteLength t, Text.byteLength t + Text.byteLength u⟩ (t ++ (u ++ v)) =
      some u := by
  rw [slice?, Text.dropBytes_append, Option.bind_some, Nat.add_sub_cancel_left,
    Text.takeBytes_append]

namespace Script

def literalTexts (t : Text) : List Text := ((segments t).filter (·.isLiteral)).map (·.text)

theorem slice?_literalSpans (t : Text) (gs : List Segment) :
    (literalSpans (Text.byteLength t) gs).map (·.slice? (t ++ gs.flatMap Segment.text)) =
      (gs.filter (·.isLiteral)).map fun g => some g.text := by
  induction gs generalizing t with
  | nil => rfl
  | cons g gs ih =>
    have hrest := ih (t ++ g.text)
    rw [Text.byteLength_append, List.append_assoc, ← List.flatMap_cons] at hrest
    cases g with
    | code c =>
      rw [literalSpans, List.filter_cons_of_neg (by simp [Segment.isLiteral])]
      exact hrest
    | literal l =>
      rw [literalSpans, List.filter_cons_of_pos rfl, List.map_cons, List.map_cons,
        List.flatMap_cons, Segment.text, Span.slice?_append]
      exact congrArg _ hrest

theorem slice?_literalRanges (t : Text) :
    (literalRanges t).map (·.slice? t) = (literalTexts t).map some := by
  have h := slice?_literalSpans [] (segments t)
  rw [List.nil_append, flatten_segments, Text.byteLength_nil] at h
  rw [literalRanges, h, literalTexts, List.map_map]
  rfl

section Emission

/-- What reading a character adds to the literals. The slash that opens a comment comes with the
character after it. -/
def State.emit (s : State) (c : Char) : List (Role × Char) :=
  if !s.nesting.isEmpty then [(.inside, c)]
  else match s.mode with
    | .code => if isQuote c || isBacktick c then [(.opens, c)] else []
    | .slash =>
        if c == '/' || c == '*' then [(.opens, '/'), (.inside, c)]
        else if isQuote c || isBacktick c then [(.opens, c)]
        else []
    | .lineComment | .quoted _ => if c == '\n' then [] else [(.inside, c)]
    | _ => [(.inside, c)]

def emitted (s : State) : Text → List (Role × Char)
  | [] => []
  | c :: rest => s.emit c ++ emitted (s.step c) rest

theorem emitted_append (s : State) (t u : Text) :
    emitted s (t ++ u) = emitted s t ++ emitted (s.run t) u := by
  induction t generalizing s with
  | nil => rfl
  | cons c t ih => rw [List.cons_append, emitted, emitted, ih, List.append_assoc, State.run_cons]

theorem emit_eq_nil_of_role {s : State} {c : Char} {next : Option Char}
    (h : s.role c next = .code) : s.emit c = [] := by
  obtain ⟨mode, nesting⟩ := s
  cases nesting with
  | cons n ns => cases h
  | nil => cases mode <;> grind [State.role, State.emit]

/-- The slash that is still to be added once the text goes on. -/
def pending (s : State) (t : Text) : List (Role × Char) :=
  if s.nesting.isEmpty && s.mode == .slash && (t.head? == some '/' || t.head? == some '*') then
    [(.opens, '/')]
  else []

theorem nesting_ne_nil_of_slash {n : Nat} {ns : List Nat} {c : Char}
    (h : (stepCode (n :: ns) c).mode = .slash) : (stepCode (n :: ns) c).nesting ≠ [] := by
  cases n <;> grind [stepCode]

theorem emit_pending (s : State) (c : Char) (t : Text) :
    s.emit c ++ pending (s.step c) t = pending s (c :: t) ++
      [(s.role c t.head?, c)].filter (·.1 != .code) := by
  obtain ⟨mode, nesting⟩ := s
  cases nesting with
  | cons n ns =>
    have hslash := @nesting_ne_nil_of_slash n ns c
    cases mode <;> grind [State.emit, pending, State.role, State.step, stepTemplate]
  | nil => cases mode <;> grind [State.emit, pending, State.role, State.step, stepCode, stepTemplate]

theorem emitted_eq_filter (s : State) (t : Text) :
    emitted s t = pending s t ++ ((roles s t).zip t).filter (·.1 != .code) := by
  induction t generalizing s with
  | nil => simp [emitted, pending, roles]
  | cons c t ih =>
    rw [emitted, ih, ← List.append_assoc, emit_pending, roles, List.zip_cons_cons,
      ← List.singleton_append (l := (roles _ _).zip t), List.filter_append, List.append_assoc]

end Emission

section Chunk

variable {r : Role} {c : Char} {rcs : List (Role × Char)}

theorem chunk_cons_of_not_joins (h : ∀ rc ∈ rcs.head?, r.joins rc.1 = false) :
    chunk ((r, c) :: rcs) = .ofRole r [c] :: chunk rcs := by
  cases rcs with
  | nil => rfl
  | cons rc rcs =>
    obtain ⟨r', c'⟩ := rc
    have hjoins := h (r', c') rfl
    rw [chunk, hjoins]

theorem head?_filter_of_code
    (h : ((Role.code, c) :: rcs).IsChain fun a b => a.1 = .code → b.1 ≠ .inside) :
    ∀ rc ∈ (rcs.filter (·.1 != .code)).head?, rc.1 = .opens := by
  induction rcs generalizing c with
  | nil => simp
  | cons rc rcs ih =>
    obtain ⟨r', c'⟩ := rc
    obtain ⟨hcode, htail⟩ := List.isChain_cons_cons.mp h
    cases r' with
    | code => exact ih htail
    | opens => simp
    | inside => exact absurd rfl (hcode rfl)

theorem filter_chunk (h : rcs.IsChain fun a b => a.1 = .code → b.1 ≠ .inside) :
    (chunk rcs).filter (·.isLiteral) = chunk (rcs.filter (·.1 != .code)) := by
  fun_induction chunk rcs with
  | case1 => rfl
  | case2 r c => cases r <;> rfl
  | case3 r c r' c' rest s ss hs hj ih =>
    obtain ⟨hcode, htail⟩ := List.isChain_cons_cons.mp h
    obtain ⟨t, ss', hchunk⟩ := exists_chunk_cons r' c' rest
    obtain ⟨rfl, rfl⟩ : s = .ofRole r' t ∧ ss = ss' := by simpa [hs] using hchunk
    have ih := ih htail
    have hr : (r != .code) = (r' != .code) := Role.bne_code_of_joins hj hcode
    rw [hs] at ih
    cases hliteral : r' != .code with
    | false => simpa [List.filter_cons, Segment.isLiteral_ofRole, hr, hliteral] using ih
    | true =>
      simp only [List.filter_cons, Segment.isLiteral_ofRole, hr, hliteral, if_true] at ih ⊢
      rw [chunk, ← ih, hj]
  | case4 r c r' c' rest hx ih =>
    obtain ⟨hcode, htail⟩ := List.isChain_cons_cons.mp h
    have ih := ih htail
    obtain ⟨t, ss, hchunk⟩ := exists_chunk_cons r' c' rest
    have hjoins : r.joins r' ≠ true := fun hj => hx _ _ hj hchunk
    have hnext : ∀ rc ∈ (((r', c') :: rest).filter (·.1 != .code)).head?, rc.1 = .opens := by
      cases r' with
      | code =>
        rw [List.filter_cons_of_neg (by simp)]
        exact head?_filter_of_code htail
      | opens => simp
      | inside => exact absurd (by cases r <;> rfl) hjoins
    cases hliteral : r != .code with
    | false => simpa [List.filter_cons, Segment.isLiteral_ofRole, hliteral] using ih
    | true =>
      have hcut := chunk_cons_of_not_joins (r := r) (c := c) fun rc hrc => by
        rw [hnext rc hrc]
        cases r <;> rfl
      simp only [List.filter_cons, Segment.isLiteral_ofRole, hliteral, if_true] at ih hcut ⊢
      rw [ih, hcut]

theorem Segment.ofRole_eq_code {t u : Text} (h : Segment.ofRole r t = .code u) :
    r = .code ∧ t = u := by
  cases r with
  | code => exact ⟨rfl, by injection h⟩
  | opens | inside => cases h

theorem Role.eq_code_of_joins (hjoins : Role.code.joins r = true) (h : r ≠ .inside) :
    r = .code := by
  cases r with
  | code => rfl
  | opens => cases hjoins
  | inside => exact absurd rfl h

theorem exists_of_chunk_eq_cons {s : State} {t : Text} {g : Segment} {gs : List Segment}
    (h : chunk ((roles s t).zip t) = g :: gs) :
    ∃ u, t = g.text ++ u ∧ gs = chunk ((roles (s.run g.text) u).zip u) ∧
      ∀ c, g = .code c → emitted s c = [] := by
  induction t generalizing s g gs with
  | nil => cases h
  | cons c t ih =>
    have hsingle : ∀ v, Segment.ofRole (s.role c t.head?) [c] = .code v → emitted s v = [] := by
      intro v hv
      obtain ⟨hrole, rfl⟩ := Segment.ofRole_eq_code hv
      rw [emitted, emit_eq_nil_of_role hrole]
      rfl
    cases t with
    | nil =>
      obtain ⟨rfl, rfl⟩ := List.cons.inj h.symm
      exact ⟨[], by simp, rfl, hsingle⟩
    | cons d t =>
      obtain ⟨first, ss, hnext⟩ := exists_chunk_cons ((s.step c).role d t.head?) d
        ((roles ((s.step c).step d) t).zip t)
      obtain ⟨u, hsplit, hss, hcode⟩ := ih (s := s.step c) hnext
      rw [Segment.text_ofRole] at hsplit hss
      rw [roles, roles, List.zip_cons_cons, List.zip_cons_cons, chunk, hnext] at h
      cases hjoins : (s.role c (d :: t).head?).joins ((s.step c).role d t.head?) with
      | false =>
        rw [hjoins] at h
        obtain ⟨rfl, rfl⟩ := List.cons.inj h.symm
        refine ⟨d :: t, by simp, ?_, hsingle⟩
        rw [← hnext, Segment.text_ofRole]
        rfl
      | true =>
        rw [hjoins] at h
        obtain ⟨rfl, rfl⟩ := List.cons.inj h.symm
        rw [Segment.text_ofRole, Segment.text_ofRole]
        refine ⟨u, by rw [hsplit, List.cons_append], hss, fun v hv => ?_⟩
        obtain ⟨hrole, rfl⟩ := Segment.ofRole_eq_code hv
        have hne := State.role_step_ne_inside (d := d) hrole t.head?
        rw [hrole] at hjoins
        have hfirst := hcode first (by rw [Role.eq_code_of_joins hjoins hne]; rfl)
        rw [emitted, emit_eq_nil_of_role hrole, hfirst]
        rfl

theorem literalTexts_eq (t : Text) : literalTexts t = (chunk (emitted .start t)).map (·.text) := by
  rw [literalTexts, segments, filter_chunk (isChain_roles .start t), emitted_eq_filter]
  rfl

end Chunk

end Script

end CanvasPage
