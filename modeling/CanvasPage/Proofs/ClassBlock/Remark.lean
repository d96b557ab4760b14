import CanvasPage.Proofs.ClassBlock.Scan
import CanvasPage.Proofs.Script.Alike

namespace CanvasPage

open Script Member

section Written

structure Property.IsWritten (p : Property) : Prop where
  name : Text.isIdentifier p.name = true
  reads : ∃ string, openAfter? 0 p.lead.reverse none p.value = some (0, string) ∧
    ∀ s ∈ string, (s.step '\n').isCode = true
  stops : continues p.value.reverse = false
  solid : ∃ c ∈ p.value, Text.isBlank c = false ∧ c ≠ ';'

variable {p : Property} {t u : Text} {c : Char}

theorem continues_append (ht : continues t = false) (hc : c ≠ '=')
    (hblank : Text.allBlank t = true → continues (c :: u) = false) :
    continues (t ++ c :: u) = false := by
  rw [continues, List.dropWhile_append]
  cases hdrop : t.dropWhile Text.isBlank with
  | nil =>
    refine hblank (List.all_eq_true.mpr fun d hd => ?_)
    exact List.dropWhile_eq_nil_iff.mp hdrop d hd
  | cons x w =>
    rw [continues, hdrop] at ht
    rw [List.isEmpty_cons, if_neg Bool.false_ne_true]
    cases w with
    | nil => grind
    | cons y w => grind

theorem exists_trim_append (hc : Text.isBlank c = false) (hsemicolon : c ≠ ';')
    (ht : ∀ d ∈ (t ++ [c]).head?, Text.isBlank d = false) (u : Text) :
    ∃ v, v <+: u ∧
      Text.trim (Text.dropEndWhile (· == ';') (Text.trim (t ++ c :: u))) = t ++ c :: v := by
  have hstart : ∀ w, Text.trimStart (t ++ c :: w) = t ++ c :: w := by
    intro w
    refine Text.dropWhile_of_head? fun d hd => ht d ?_
    cases t with
    | nil => simpa using hd
    | cons x t => simpa using hd
  have hend : ∀ w, Text.trimEnd (t ++ c :: w) = t ++ c :: Text.trimEnd w :=
    Text.trimEnd_append_cons hc t
  refine ⟨Text.trimEnd (Text.dropEndWhile (· == ';') (Text.trimEnd u)), ?_, ?_⟩
  · exact (Text.isPrefix_dropEndWhile _ _).trans
      ((Text.isPrefix_dropEndWhile _ _).trans (Text.isPrefix_dropEndWhile _ _))
  · rw [Text.trim, Text.trim, hstart, hend,
      Text.dropEndWhile_append_cons (p := (· == ';')) (beq_false_of_ne hsemicolon), hstart, hend]

namespace Property.IsWritten

theorem statementWidth_eq (h : p.IsWritten) (rest : Text) :
    statementWidth 0 [] none (p.lead ++ (p.value ++ '\n' :: rest)) = (p.lead ++ p.value).length := by
  obtain ⟨string, hopen, hend⟩ := h.reads
  have hsolid : Text.allBlank p.value.reverse = false := by
    obtain ⟨c, hc, hblank, -⟩ := h.solid
    rw [Text.allBlank, List.all_eq_false]
    exact ⟨c, List.mem_reverse.mpr hc, by simp [hblank]⟩
  have hstops : continues (p.value.reverse ++ p.lead.reverse) = false := by
    have hlead : p.lead.reverse = ' ' :: '=' :: ' ' ::
        (p.name.reverse ++ (joinWords (staticWords p.isStatic)).reverse) := by simp [lead]
    rw [hlead]
    refine continues_append h.stops (by decide) fun hblank => ?_
    rw [hsolid] at hblank
    cases hblank
  have hline : statementWidth 0 (p.value.reverse ++ p.lead.reverse) string ('\n' :: rest) = 0 := by
    rw [statementWidth]
    cases string with
    | none => simp [hstops]
    | some s => simp [hstops, hend s rfl]
  rw [statementWidth_append (isPlain_of_mem_lead h.name), List.append_nil,
    statementWidth_of_openAfter? hopen, hline, List.length_append, Nat.add_zero]

theorem exists_readProperty? (h : p.IsWritten) :
    ∃ q : Property, (∀ span, readProperty? span (p.lead ++ p.value) = some { q with span := span }) ∧
      q.name = p.name := by
  obtain ⟨c, hc, hblank, hsemicolon⟩ := h.solid
  obtain ⟨u, v, hvalue⟩ := List.append_of_mem hc
  obtain ⟨w, -, htrim⟩ := exists_trim_append (t := p.lead ++ u) hblank hsemicolon
    (by
      rw [List.append_assoc]
      exact fun d hd => Text.isBlank_of_continuesIdentifier (head?_lead h.name _ d hd)) v
  obtain ⟨o, ho, hwords, hname, hgroup⟩ := exists_initialized h.name (u ++ c :: w)
  have hsplit : p.lead ++ p.value = p.lead ++ u ++ c :: v := by rw [hvalue, List.append_assoc]
  have hne : (Text.trim (' ' :: (u ++ c :: w))).isEmpty = false := by
    rw [List.isEmpty_eq_false_iff]
    exact Text.trim_ne_nil (c := c) (by simp) hblank
  refine ⟨⟨p.name, Text.trim (' ' :: (u ++ c :: w)), p.isStatic, ⟨0, 0⟩⟩, fun span => ?_, rfl⟩
  rw [Member.readProperty?, hsplit, htrim, List.append_assoc, ho]
  simp only [Option.bind_eq_bind, Option.bind_some, hwords, hname, hgroup, hne,
    words_staticWords, contains_staticWords, withoutHash_of_isIdentifier h.name,
    Bool.false_eq_true, if_false]
  rfl

theorem exists_scanFrom (h : p.IsWritten) (offset : Nat) (rest : Text) :
    ∃ q : Property, q.name = p.name ∧
      (∃ span, readProperty? span (p.lead ++ p.value) = some q) ∧
      ∃ next, scanFrom offset 0 (p.lead ++ (p.value ++ '\n' :: rest)) =
        .property q :: scanFrom next 0 rest := by
  obtain ⟨q, hread, hname⟩ := h.exists_readProperty?
  exact ⟨{ q with span := ⟨offset, offset + Text.byteLength (p.lead ++ p.value)⟩ }, hname,
    ⟨_, hread _⟩, _, scanFrom_statement h.name (h.statementWidth_eq rest) hread offset⟩

end Property.IsWritten

end Written

/-- What lets a property be written without a semicolon, at the end of a line. -/
structure Property.EndsWithLine (p : Property) : Prop where
  name : Text.isIdentifier p.name = true
  ne_nil : p.value ≠ []
  trim : Text.trim p.value = p.value
  closed : isClosed p.value = true
  no_remark : ∀ i ≤ p.value.length, (State.start.run (p.value.take i)).inRemark = false
  /-- A semicolon in the code of the value stands in brackets, and so does a line feed after which
  the value does not go on. -/
  no_break : ∀ i < p.value.length, p.value[i]? = some ';' ∨
      (p.value[i]? = some '\n' ∧ continues (p.value.take i).reverse = false) →
    inLiteral p.value i = false → isOutsideBrackets (p.value.take i) = false
  stops : continues p.value.reverse = false

/-- A property that is an arrow function with a block, which goes on after the line that opens it. -/
structure ArrowProperty where
  name : Text
  isStatic : Bool
  params : Text
  block : Text

def remarkText (remark : Option Text) : Text := remark.elim [] (" //" ++ ·)

/-- Read like code among `depth` open brackets, a remark opens nothing that it does not close, and
no statement ends in it or goes on because of it. -/
structure IsHarmless (depth : Nat) (remark : Text) : Prop where
  no_break : '\n' ∉ remark
  reads : ∃ string, openAfter? depth [] none remark = some (depth, string) ∧
    ∀ s ∈ string, (s.step '\n').isCode = true
  stops : depth = 0 → continues remark.reverse = false

namespace ArrowProperty

def value (a : ArrowProperty) (remark : Option Text) : Text :=
  '(' :: (a.params ++ ')' :: (" => " ++ '\x7b' ::
    (remarkText remark ++ '\n' :: (a.block ++ ['\x7d']))))

def property (a : ArrowProperty) (remark : Option Text) : Property :=
  { name := a.name, value := a.value remark, isStatic := a.isStatic, span := ⟨0, 0⟩ }

structure IsPrintable (a : ArrowProperty) : Prop where
  name : Text.isIdentifier a.name = true
  params_closed : isClosed a.params = true
  block_closed : isClosed a.block = true
  /-- Comments, read like code, open nothing that they do not close. -/
  params_reads : openAfter? 1 [] none a.params = some (1, none)
  block_reads : openAfter? 1 [] none a.block = some (1, none)

end ArrowProperty

section Reading

variable {depth : Nat} {seen t c : Text} {remark : Option Text} {p : Property} {a : ArrowProperty}

/-- In brackets, a closed text without comments keeps open what is open. -/
theorem openAfter?_of_isClosed (ht : isClosed t = true)
    (hremark : ∀ i ≤ t.length, (State.start.run (t.take i)).inRemark = false) :
    openAfter? 1 [] none t = some (1, none) := by
  have hneutral := neutral_of_isClosed ht
  have hstatement : IsStatement 1 [] (fun _ => 0) .start t :=
    ⟨fun b => hneutral.depth b 0, hneutral.isCode, hremark, fun _ _ _ _ => .inl Nat.one_ne_zero⟩
  exact hstatement.openAfter?_eq

theorem openAfter?_cons {string : Option State} {r : Nat × Option State} {d : Char}
    (h : openNext? depth seen string d = some r) (t : Text) :
    openAfter? depth seen string (d :: t) = openAfter? r.1 (d :: seen) r.2 t := by
  rw [openAfter?, h, Option.bind_some]

theorem openAfter?_remark (depth : Nat) (seen c : Text) : openAfter? depth seen none (" //" ++ c) =
    openAfter? depth ('/' :: '/' :: ' ' :: seen) none c := by
  have hspace : openNext? depth seen none ' ' = some (depth, none) := by
    simp [openNext?, deeper, isQuote, isBacktick]
  have hslash : ∀ seen, openNext? depth seen none '/' = some (depth, none) := fun seen => by
    simp [openNext?, deeper, isQuote, isBacktick]
  show openAfter? depth seen none (' ' :: '/' :: '/' :: c) = _
  rw [openAfter?_cons hspace, openAfter?_cons (hslash _), openAfter?_cons (hslash _)]

theorem exists_openAfter?_remarkText (hremark : ∀ c ∈ remark, IsHarmless depth c) (seen : Text) :
    ∃ string, openAfter? depth seen none (remarkText remark) = some (depth, string) ∧
      ∀ s ∈ string, (s.step '\n').isCode = true := by
  cases remark with
  | none => exact ⟨none, rfl, by simp⟩
  | some c =>
    obtain ⟨string, hopen, hend⟩ := (hremark c rfl).reads
    refine ⟨string, ?_, hend⟩
    show openAfter? depth seen none (" //" ++ c) = _
    rw [openAfter?_remark]
    exact openAfter?_append_seen hopen _

theorem Property.EndsWithLine.isStatement (hp : p.EndsWithLine) (seen : Text) :
    IsStatement 0 seen (fun _ => 0) .start p.value :=
  .of_isClosed hp.closed hp.no_remark hp.no_break seen

theorem Property.EndsWithLine.isTrimmed (hp : p.EndsWithLine) : p.IsTrimmed :=
  ⟨hp.name, hp.ne_nil, hp.trim, (hp.isStatement []).getLast?_ne (by simp [State.start, Mode.quote?])⟩

theorem isWritten_property (hp : p.EndsWithLine) (hremark : ∀ c ∈ remark, IsHarmless 0 c) :
    Property.IsWritten { p with value := p.value ++ remarkText remark } := by
  have hvalue : ∀ seen, openAfter? 0 seen none p.value = some (0, none) := fun seen =>
    (hp.isStatement seen).openAfter?_eq
  obtain ⟨string, hopen, hend⟩ :=
    exists_openAfter?_remarkText hremark (p.value.reverse ++ p.lead.reverse)
  refine ⟨hp.name, ⟨string, ?_, hend⟩, ?_, ?_⟩
  · rw [openAfter?_append, hvalue]
    exact hopen
  · cases remark with
    | none =>
      show continues (p.value ++ []).reverse = false
      rw [List.append_nil]
      exact hp.stops
    | some c =>
      have hreverse : (p.value ++ (" //" ++ c)).reverse =
          c.reverse ++ '/' :: '/' :: ' ' :: p.value.reverse := by
        have hslashes : (" //" : Text) = [' ', '/', '/'] := rfl
        simp [hslashes]
      show continues (p.value ++ (" //" ++ c)).reverse = false
      rw [hreverse]
      exact continues_append ((hremark c rfl).stops rfl) (by decide) fun _ => rfl
  · obtain ⟨u, x, hsplit⟩ : ∃ u x, p.value = u ++ [x] :=
      ⟨_, _, (List.dropLast_append_getLast hp.ne_nil).symm⟩
    obtain ⟨hblank, hsemicolon⟩ := p.getLast?_statement hp.isTrimmed x (by
      rw [hsplit, ← List.append_assoc, List.getLast?_concat]
      rfl)
    exact ⟨x, by simp [hsplit], hblank, hsemicolon⟩

theorem openAfter?_arrow (ha : a.IsPrintable) (hremark : ∀ c ∈ remark, IsHarmless 1 c)
    (seen : Text) : openAfter? 0 seen none (a.value remark) = some (0, none) := by
  have hspaced : openAfter? 0 [] none " => " = some (0, none) := by decide
  have harrow : ∀ seen, openAfter? 0 seen none " => " = some (0, none) :=
    openAfter?_append_seen hspaced
  have hbreak : ∀ seen string, (∀ s ∈ string, (s.step '\n').isCode = true) →
      openNext? 1 seen string '\n' = some (1, none) := by
    intro seen string hend
    cases string with
    | none => rfl
    | some s => simp [openNext?, hend s rfl]
  have hparams : ∀ seen, openAfter? 1 seen none a.params = some (1, none) :=
    openAfter?_append_seen ha.params_reads
  have hblock : ∀ seen, openAfter? 1 seen none a.block = some (1, none) :=
    openAfter?_append_seen ha.block_reads
  have hclose : ∀ seen, openAfter? 1 seen none ['\x7d'] = some (0, none) := fun _ => rfl
  have hlines : ∀ seen, openAfter? 1 seen none
      (remarkText remark ++ '\n' :: (a.block ++ ['\x7d'])) = some (0, none) := by
    intro seen
    obtain ⟨string, hopen, hend⟩ := exists_openAfter?_remarkText hremark seen
    rw [openAfter?_append, hopen, Option.bind_some, openAfter?_cons (hbreak _ _ hend),
      openAfter?_append, hblock, Option.bind_some, hclose]
  rw [ArrowProperty.value, openAfter?_cons (r := (1, none)) rfl, openAfter?_append, hparams,
    Option.bind_some, openAfter?_cons (r := (0, none)) rfl, openAfter?_append, harrow,
    Option.bind_some, openAfter?_cons (r := (1, none)) rfl, hlines]

theorem isWritten_arrow (ha : a.IsPrintable) (hremark : ∀ c ∈ remark, IsHarmless 1 c) :
    (a.property remark).IsWritten := by
  refine ⟨ha.name, ⟨none, openAfter?_arrow ha hremark _, by simp⟩, ?_, ?_⟩
  · have hreverse : (a.value remark).reverse = '\x7d' :: ('(' :: (a.params ++ ')' ::
        (" => " ++ '\x7b' :: (remarkText remark ++ '\n' :: a.block)))).reverse := by
      simp [ArrowProperty.value]
    show continues (a.value remark).reverse = false
    rw [hreverse]
    rfl
  · refine ⟨'(', ?_, by decide, by decide⟩
    rw [ArrowProperty.property, ArrowProperty.value]
    exact List.mem_cons_self

theorem isTrimmed_arrow (ha : a.IsPrintable) (remark : Option Text) :
    (a.property remark).IsTrimmed := by
  have hvalue : a.value remark = '(' :: (a.params ++ ')' :: (" => " ++ '\x7b' ::
      (remarkText remark ++ '\n' :: a.block))) ++ ['\x7d'] := by
    simp [ArrowProperty.value]
  have hlast : (a.value remark).getLast? = some '\x7d' := by
    rw [hvalue, List.getLast?_concat]
  refine ⟨ha.name, List.cons_ne_nil _ _, Text.trim_of_ends ?_ ?_, ?_⟩
  · rintro c ⟨⟩
    decide
  · intro c hc
    have hc : c ∈ (a.value remark).getLast? := hc
    rw [hlast] at hc
    obtain rfl := Option.some.inj hc
    decide
  · show (a.value remark).getLast? ≠ some ';'
    rw [hlast]
    decide

theorem step_lineFeed {s : State} (h : (s.step '\n').isCode = true) : s.step '\n' = .start := by
  obtain ⟨mode, nesting⟩ := s
  cases mode <;> cases nesting <;>
    simp_all [State.step, stepCode, stepTemplate, State.isCode, isQuote, isBacktick, State.start]

theorem neutral_remarkText {s : State} (hs : s.isCode = true)
    (hremark : ∀ c ∈ remark, '\n' ∉ c) (ht : Neutral .start t) :
    Neutral s (remarkText remark ++ '\n' :: t) := by
  cases remark with
  | none => exact neutral_cons_of_isPlain hs (by decide) ht
  | some c =>
    have hline := neutral_remark (hremark c rfl)
    have hstart : State.start.run ("//" ++ c ++ "\n") = .start := by
      have hcode := hline.isCode
      rw [State.run_append] at hcode ⊢
      exact step_lineFeed hcode
    have hsplit : remarkText (some c) ++ '\n' :: t = ' ' :: (("//" ++ c ++ "\n") ++ t) := by
      have hslashes : (" //" : Text) = ' ' :: ("//" : Text) := rfl
      have hend : ("\n" : Text) = ['\n'] := rfl
      show (" //" ++ c) ++ '\n' :: t = _
      simp only [hslashes, hend, List.append_assoc, List.cons_append, List.nil_append]
    rw [hsplit]
    refine neutral_cons_of_isPlain hs (by decide) (hline.append ?_)
    rwa [hstart]

theorem isClosed_block (ha : a.IsPrintable) (hremark : ∀ c ∈ remark, '\n' ∉ c) :
    isClosed (remarkText remark ++ '\n' :: a.block) = true :=
  isClosed_of_neutral (neutral_remarkText rfl hremark (neutral_of_isClosed ha.block_closed))

theorem neutral_value (ha : a.IsPrintable) (hremark : ∀ c ∈ remark, '\n' ∉ c) :
    Neutral .start (a.value remark) := by
  have hparams := Neutral.enclose (s := .start) rfl (neutral_of_isClosed ha.params_closed) .paren
  have hblock := Neutral.enclose (s := .start) rfl (neutral_of_isClosed (isClosed_block ha hremark))
    .brace
  have harrow : ∀ c ∈ (" => " : Text), isPlain c = true := by decide
  have hstart := run_of_isPlain hparams.isCode (t := " => ") (by decide) harrow
  have hvalue : a.value remark =
      (Bracket.paren.opener :: (a.params ++ [Bracket.paren.closer])) ++ (" => " ++
        (Bracket.brace.opener :: ((remarkText remark ++ '\n' :: a.block) ++
          [Bracket.brace.closer]))) := by
    simp only [ArrowProperty.value, Bracket.opener, Bracket.closer, List.append_assoc,
      List.cons_append, List.nil_append]
  rw [hvalue]
  refine hparams.append ((neutral_of_isPlain hparams.isCode harrow).append ?_)
  rwa [hstart]

end Reading

end CanvasPage
