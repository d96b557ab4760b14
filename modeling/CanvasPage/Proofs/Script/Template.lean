import CanvasPage.Proofs.Script.LiteralTexts
import CanvasPage.Proofs.Script.Neutral

namespace CanvasPage.Script

/-- Inside a template, or inside an expression of one. -/
def State.inTemplate (s : State) : Bool :=
  !s.nesting.isEmpty || [.template, .templateEscape, .templateDollar].contains s.mode

/-- Does every character of a text that is read from `s` belong to one template? -/
def staysInTemplate (s : State) : Text → Bool
  | [] => true
  | c :: rest => s.inTemplate && staysInTemplate (s.step c) rest

def State.template : State := ⟨.template, []⟩

/-- A template from the backtick that opens it to the one that closes it. -/
def IsTemplate (t : Text) : Prop :=
  ∃ c v, t = c :: v ∧ isBacktick c = true ∧ staysInTemplate .template v = true ∧
    State.template.run v = .start

/-- A text occurs in another where code is read. -/
def StandsInCode (u t : Text) : Prop :=
  ∃ x y, t = x ++ (u ++ y) ∧ (State.start.run x).isCode = true

variable {s : State} {c d : Char} {t u v b : Text} {ins es fs : List (Role × Char)}

theorem staysInTemplate_append (s : State) (t u : Text) : staysInTemplate s (t ++ u) =
    (staysInTemplate s t && staysInTemplate (s.run t) u) := by
  induction t generalizing s with
  | nil => rfl
  | cons c t ih =>
    rw [List.cons_append, staysInTemplate, staysInTemplate, ih, Bool.and_assoc, State.run_cons]

section Steps

theorem emit_of_inTemplate (hs : s.inTemplate = true) (c : Char) :
    s.emit c = [(.inside, c)] ∧ (s.step c = .start ∨ (s.step c).inTemplate = true) := by
  obtain ⟨mode, nesting⟩ := s
  cases nesting with
  | cons n ns =>
    have hcode : (stepCode (n :: ns) c).inTemplate = true := by
      cases n <;> grind [stepCode, State.inTemplate]
    cases mode <;> grind [State.emit, State.step, stepTemplate, State.inTemplate]
  | nil =>
    cases mode <;>
      grind [State.emit, State.step, stepTemplate, State.inTemplate, State.start]

theorem not_isCode_of_inTemplate (hs : s.inTemplate = true) : s.isCode = false := by
  obtain ⟨mode, nesting⟩ := s
  cases mode <;> grind [State.inTemplate, State.isCode]

theorem isBacktick_of_step (hs : s.inTemplate = true) (h : s.step c = .start) :
    isBacktick c = true := by
  obtain ⟨mode, nesting⟩ := s
  cases nesting with
  | cons n ns =>
    cases n <;> cases mode <;>
      grind [State.step, stepCode, stepTemplate, State.inTemplate, State.start]
  | nil => cases mode <;> grind [State.step, stepTemplate, State.inTemplate, State.start]

theorem emit_of_isCode (hs : s.isCode = true) (c : Char) :
    (s.emit c = [] ∧ (s.step c).isCode = true) ∨ ∃ d es, s.emit c = (.opens, d) :: es := by
  rcases State.eq_of_isCode hs with rfl | rfl <;>
    grind [State.emit, State.step, stepCode, State.isCode, State.start]

theorem step_of_isBacktick (hs : s.isCode = true) (hc : isBacktick c = true) :
    s.emit c = [(.opens, c)] ∧ s.step c = .template := by
  have hne : ∀ d : Char, isBacktick d = false → c ≠ d := by
    rintro d hd rfl
    rw [hc] at hd
    cases hd
  have hslash := hne '/' (by decide)
  have hstar := hne '*' (by decide)
  have hquote : isQuote c = false := by
    rw [isQuote, beq_false_of_ne (hne '\'' (by decide)), beq_false_of_ne (hne '"' (by decide))]
    rfl
  rcases State.eq_of_isCode hs with rfl | rfl <;>
    simp [State.emit, State.step, stepCode, State.template, hc, hquote, hslash, hstar]

theorem of_opens_mem_emit (hc : isBacktick c = true) (h : (.opens, c) ∈ s.emit d) :
    d = c ∧ s.isCode = true := by
  have hslash : isBacktick '/' = false := by decide
  obtain ⟨mode, nesting⟩ := s
  cases nesting with
  | cons n ns => simp [State.emit] at h
  | nil => cases mode <;> grind [State.emit, State.isCode]

theorem head?_emitted (hs : s.isCode = true) (t : Text) :
    ∀ e ∈ (emitted s t).head?, e.1 = .opens := by
  induction t generalizing s with
  | nil => simp [emitted]
  | cons c t ih =>
    rw [emitted]
    rcases emit_of_isCode hs c with ⟨hnone, hcode⟩ | ⟨d, es, hopens⟩
    · rw [hnone]
      exact ih hcode
    · rw [hopens]
      simp

end Steps

section Emission

theorem exists_opens_of_emitted (hc : isBacktick c = true)
    (h : emitted s t = es ++ (.opens, c) :: fs) :
    ∃ x b, t = x ++ c :: b ∧ (s.run x).isCode = true ∧ emitted .template b = fs := by
  induction t generalizing s es with
  | nil => simp [emitted] at h
  | cons d t ih =>
    rw [emitted] at h
    rcases List.append_eq_append_iff.mp h with ⟨es, rfl, hes⟩ | ⟨gs, hgs, hrest⟩
    · obtain ⟨x, b, rfl, hcode, hb⟩ := ih hes
      exact ⟨d :: x, b, rfl, hcode, hb⟩
    · cases gs with
      | nil =>
        have hrest : emitted (s.step d) t = [] ++ (.opens, c) :: fs := hrest.symm
        obtain ⟨x, b, rfl, hcode, hb⟩ := ih hrest
        exact ⟨d :: x, b, rfl, hcode, hb⟩
      | cons e gs =>
        obtain ⟨rfl, rfl⟩ := List.cons.inj hrest
        obtain ⟨rfl, hcode⟩ := of_opens_mem_emit (s := s) (d := d) hc (by simp [hgs])
        obtain ⟨hemit, hstep⟩ := step_of_isBacktick hcode hc
        rw [hemit] at hgs
        obtain rfl : gs = [] := by
          have hlength := congrArg List.length hgs
          simp only [List.length_append, List.length_cons, List.length_nil] at hlength
          exact List.length_eq_zero_iff.mp (by omega)
        exact ⟨[], t, rfl, hcode, by rw [← hstep]; rfl⟩

theorem exists_append_of_emitted (hv : staysInTemplate s v = true)
    (h : emitted s b = v.map (Role.inside, ·) ++ fs) : ∃ y, b = v ++ y := by
  induction v generalizing s b with
  | nil => exact ⟨b, rfl⟩
  | cons d v ih =>
    rw [staysInTemplate, Bool.and_eq_true] at hv
    cases b with
    | nil => simp [emitted] at h
    | cons e b =>
      rw [emitted, (emit_of_inTemplate hv.1 e).1] at h
      obtain ⟨hhead, htail⟩ := List.cons.inj h
      obtain rfl : e = d := (Prod.mk.inj hhead).2
      obtain ⟨y, rfl⟩ := ih hv.2 htail
      exact ⟨y, rfl⟩

theorem emitted_of_staysInTemplate (hv : staysInTemplate s v = true) :
    emitted s v = v.map (Role.inside, ·) := by
  induction v generalizing s with
  | nil => rfl
  | cons d v ih =>
    rw [staysInTemplate, Bool.and_eq_true] at hv
    rw [emitted, (emit_of_inTemplate hv.1 d).1, ih hv.2]
    rfl

theorem exists_end_of_emitted (hs : s.inTemplate = true) (hrun : (s.run b).isCode = true)
    (h : emitted s b = ins ++ fs) (hins : ∀ e ∈ ins, e.1 = .inside)
    (hfs : ∀ e ∈ fs.head?, e.1 ≠ .inside) :
    ∃ v y, b = v ++ y ∧ ins.map (·.2) = v ∧ staysInTemplate s v = true ∧ s.run v = .start := by
  induction b generalizing s ins with
  | nil => rw [State.run_nil, not_isCode_of_inTemplate hs] at hrun; cases hrun
  | cons c b ih =>
    obtain ⟨hemit, hstep⟩ := emit_of_inTemplate hs c
    rw [emitted, hemit, List.singleton_append] at h
    cases ins with
    | nil => exact absurd rfl (hfs (.inside, c) (by rw [← List.nil_append fs, ← h]; rfl))
    | cons i ins =>
      obtain ⟨rfl, hrest⟩ := List.cons.inj h
      obtain ⟨-, hins⟩ := List.forall_mem_cons.mp hins
      rcases hstep with hstart | hinside
      · cases ins with
        | nil =>
          refine ⟨[c], b, rfl, rfl, ?_, hstart⟩
          rw [staysInTemplate, hs]
          rfl
        | cons i ins =>
          have hopens := head?_emitted (s := s.step c) (by rw [hstart]; rfl) b i (by rw [hrest]; rfl)
          rw [hins i (by simp)] at hopens
          cases hopens
      · obtain ⟨v, y, rfl, hmap, hv, hend⟩ := ih hinside hrun hrest hins
        refine ⟨c :: v, y, rfl, congrArg _ hmap, ?_, hend⟩
        rw [staysInTemplate, hs, hv]
        rfl

end Emission

section Chunks

variable {r : Role} {rcs : List (Role × Char)} {g : Segment} {gs hs : List Segment}

theorem Role.joins_of_ne_code (hr : r ≠ .code) {q : Role} (h : q.joins r = true) : r = .inside := by
  cases r with
  | code => exact absurd rfl hr
  | opens => cases q <;> cases h
  | inside => rfl

theorem exists_of_chunk_eq_append (hliteral : ∀ e ∈ rcs, e.1 ≠ .code)
    (h : chunk rcs = gs ++ g :: hs) :
    ∃ es e ins fs, rcs = es ++ e :: (ins ++ fs) ∧ g.text = e.2 :: ins.map (·.2) ∧
      (gs = [] ↔ es = []) ∧ (es = [] ∨ e.1 = .opens) ∧ (∀ i ∈ ins, i.1 = .inside) ∧
      ∀ f ∈ fs.head?, f.1 ≠ .inside := by
  fun_induction chunk rcs generalizing gs g with
  | case1 => simp at h
  | case2 r c =>
    obtain ⟨rfl, rfl, rfl⟩ : gs = [] ∧ g = .ofRole r [c] ∧ hs = [] := by
      cases gs with
      | nil => exact ⟨rfl, (List.cons.inj h).1.symm, (List.cons.inj h).2.symm⟩
      | cons x gs => simp at h
    exact ⟨[], (r, c), [], [], rfl, by simp, by simp, .inl rfl, by simp, by simp⟩
  | case3 r c r' c' rest s ss hs' hjoins ih =>
    obtain ⟨hr, hliteral⟩ := List.forall_mem_cons.mp hliteral
    have hinside := Role.joins_of_ne_code (hliteral (r', c') (by simp)) hjoins
    cases gs with
    | nil =>
      obtain ⟨rfl, rfl⟩ := List.cons.inj h
      have hchunk : chunk ((r', c') :: rest) = [] ++ s :: ss := hs'
      obtain ⟨es, e, ins, fs, hsplit, htext, hes, -, hins, hfs⟩ := ih hliteral hchunk
      obtain rfl := hes.mp rfl
      obtain ⟨rfl, hrest⟩ := List.cons.inj hsplit
      refine ⟨[], (r, c), (r', c') :: ins, fs, by rw [hrest]; rfl, ?_, by simp, .inl rfl, ?_, hfs⟩
      · rw [Segment.text_ofRole, htext]
        rfl
      · exact List.forall_mem_cons.mpr ⟨hinside, hins⟩
    | cons x gs =>
      have hchunk : chunk ((r', c') :: rest) = (s :: gs) ++ g :: hs :=
        hs'.trans (congrArg _ (List.cons.inj h).2)
      obtain ⟨es, e, ins, fs, hsplit, htext, hes, hopens, hins, hfs⟩ := ih hliteral hchunk
      have hne : es ≠ [] := fun hnil => absurd (hes.mpr hnil) (by simp)
      exact ⟨(r, c) :: es, e, ins, fs, by rw [hsplit]; rfl, htext, by simp,
        .inr (hopens.resolve_left hne), hins, hfs⟩
  | case4 r c r' c' rest hx ih =>
    obtain ⟨hr, hliteral⟩ := List.forall_mem_cons.mp hliteral
    have hnext : r' ≠ .inside := by
      rintro rfl
      obtain ⟨t, ss, hchunk⟩ := exists_chunk_cons .inside c' rest
      exact hx _ _ (by cases r <;> rfl) hchunk
    cases gs with
    | nil =>
      obtain ⟨rfl, rfl⟩ := List.cons.inj h
      exact ⟨[], (r, c), [], (r', c') :: rest, rfl, by simp, by simp, .inl rfl, by simp,
        by simpa using hnext⟩
    | cons x gs =>
      obtain ⟨es, e, ins, fs, hsplit, htext, hes, hopens, hins, hfs⟩ :=
        ih hliteral (List.cons.inj h).2
      refine ⟨(r, c) :: es, e, ins, fs, by rw [hsplit]; rfl, htext, by simp, ?_, hins, hfs⟩
      rcases hopens with rfl | hopens
      · obtain ⟨rfl, -⟩ := List.cons.inj hsplit
        have hcode := hliteral (r', c') (by simp)
        cases r' with
        | code => exact absurd rfl hcode
        | opens => exact .inr rfl
        | inside => exact absurd rfl hnext
      · exact .inr hopens

end Chunks

section Templates

variable {ℓ : Text}

theorem emitted_ne_code (s : State) (t : Text) : ∀ e ∈ emitted s t, e.1 ≠ .code := by
  intro e he
  rw [emitted_eq_filter] at he
  rcases List.mem_append.mp he with he | he
  · rw [pending] at he
    split at he
    · rw [List.mem_singleton.mp he]
      simp
    · cases he
  · simpa using (List.mem_filter.mp he).2

theorem standsInCode_of_mem_literalTexts (hrun : (State.start.run t).isCode = true)
    (h : ℓ ∈ literalTexts t) (hhead : ∀ c ∈ ℓ.head?, isBacktick c = true) :
    IsTemplate ℓ ∧ StandsInCode ℓ t := by
  rw [literalTexts_eq] at h
  obtain ⟨g, hg, rfl⟩ := List.mem_map.mp h
  obtain ⟨gs, hs, hchunk⟩ := List.append_of_mem hg
  obtain ⟨es, ⟨r, c⟩, ins, fs, hemitted, htext, -, hopens, hins, hfs⟩ :=
    exists_of_chunk_eq_append (emitted_ne_code .start t) hchunk
  have hc : isBacktick c = true := hhead c (by rw [htext]; rfl)
  obtain rfl : r = .opens := by
    rcases hopens with rfl | hopens
    · exact head?_emitted (s := .start) rfl t (r, c) (by rw [hemitted]; rfl)
    · exact hopens
  obtain ⟨x, b, rfl, hcode, hb⟩ := exists_opens_of_emitted hc hemitted
  rw [State.run_append, State.run_cons, (step_of_isBacktick hcode hc).2] at hrun
  obtain ⟨v, y, rfl, hv, hreads, hend⟩ := exists_end_of_emitted rfl hrun hb hins hfs
  rw [htext, hv]
  exact ⟨⟨c, v, rfl, hc, hreads, hend⟩, x, y, by simp, hcode⟩

theorem StandsInCode.of_emitted_eq (hℓ : IsTemplate ℓ) (h : StandsInCode ℓ t)
    (hemitted : emitted .start u = emitted .start t) : StandsInCode ℓ u := by
  obtain ⟨c, v, rfl, hc, hreads, -⟩ := hℓ
  obtain ⟨x, y, rfl, hcode⟩ := h
  obtain ⟨hemit, hstep⟩ := step_of_isBacktick hcode hc
  have hsplit : emitted .start u = emitted .start x ++
      (.opens, c) :: (v.map (Role.inside, ·) ++ emitted (State.template.run v) y) := by
    rw [hemitted, emitted_append, List.cons_append, emitted, hemit, hstep, emitted_append,
      emitted_of_staysInTemplate hreads]
    rfl
  obtain ⟨x', b, rfl, hcode', hb⟩ := exists_opens_of_emitted hc hsplit
  obtain ⟨y', rfl⟩ := exists_append_of_emitted hreads hb
  exact ⟨x', y', by simp, hcode'⟩

end Templates

end CanvasPage.Script
