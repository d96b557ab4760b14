import CanvasPage.Proofs.ClassBlock.MemberSpans
import CanvasPage.Proofs.ClassBlock.Placed
import CanvasPage.Proofs.ClassBlock.Scan
import CanvasPage.Proofs.ClassBlock.Statement
import CanvasPage.Proofs.Script.Alike

namespace CanvasPage

open Script

def Property.placedAt (p : Property) (offset : Nat) : Property :=
  { p with span := ⟨offset, offset + Text.byteLength (p.lead ++ p.value)⟩ }

namespace Member

/-- A text that is read up to its end, whatever follows it. -/
def IsPassed (t : Text) : Prop :=
  ∀ offset rest, scanFrom offset 0 (t ++ rest) =
    scanFrom offset 0 t ++ scanFrom (offset + Text.byteLength t) 0 rest

variable {p : Property} {c : Char} {t u rest : Text}

theorem isPassed_nil : IsPassed [] := fun _ _ => rfl

theorem IsPassed.append (ht : IsPassed t) (hu : IsPassed u) : IsPassed (t ++ u) := by
  intro offset rest
  rw [List.append_assoc, ht, hu, ht offset u, List.append_assoc, Text.byteLength_append,
    Nat.add_assoc]

theorem isPassed_of_eq (members : Nat → List Member)
    (h : ∀ offset rest, scanFrom offset 0 (t ++ rest) =
      members offset ++ scanFrom (offset + Text.byteLength t) 0 rest) : IsPassed t := by
  intro offset rest
  have hend := h offset []
  rw [List.append_nil] at hend
  rw [h, hend]
  simp [scanFrom]

theorem isPassed_blank (hc : (" \t\r\n;" : Text).contains c = true) : IsPassed [c] := by
  have htrivia : ∀ rest, triviaWidth? (c :: rest) = some 1 := by
    intro rest
    have hall : ∀ d ∈ (" \t\r\n;" : Text), triviaWidth? (d :: rest) = some 1 := by
      intro d hd
      simp only [List.mem_cons, List.not_mem_nil, or_false,
        show (" \t\r\n;" : Text) = [' ', '\t', '\r', '\n', ';'] from rfl] at hd
      rcases hd with rfl | rfl | rfl | rfl | rfl <;> rfl
    exact hall c (by simpa using hc)
  refine isPassed_of_eq (fun _ => []) fun offset rest => ?_
  exact scanFrom_trivia (htrivia rest)

theorem scanFrom_trimmed (hp : p.IsTrimmed)
    (hwidth : statementWidth 0 [] none (p.lead ++ (p.value ++ c :: rest)) =
      (p.lead ++ p.value).length) (offset : Nat) :
    scanFrom offset 0 (p.lead ++ (p.value ++ c :: rest)) =
      property (p.placedAt offset) ::
        scanFrom (offset + Text.byteLength (p.lead ++ p.value ++ [c])) 0 rest :=
  scanFrom_statement hp.name hwidth (Property.readProperty?_statement hp) offset

theorem isPassed_print {m : Member} (hm : m.IsPrintable) : IsPassed m.print := by
  cases m with
  | method m =>
    refine isPassed_of_eq (fun offset => [method { m with span := m.spanAt offset }])
      fun offset rest => ?_
    obtain ⟨c, t, hprint⟩ := List.exists_cons_of_ne_nil m.print_ne_nil
    have hc : Text.continuesIdentifier c = true := Method.head?_print hm c (by rw [hprint]; rfl)
    have hread := Method.readMethod?_print hm offset rest
    rw [print]
    rw [hprint] at hread ⊢
    exact scanFrom_method (List.cons_ne_nil c t) (triviaWidth?_eq_none hc _) hread
  | property p =>
    refine isPassed_of_eq (fun offset => [property (p.placedAt offset)])
      fun offset rest => ?_
    have hwidth := Property.statementWidth_print hm rest
    rw [p.print_append, List.append_assoc] at hwidth
    have hprint : print (property p) = p.lead ++ p.value ++ [';'] := by
      rw [print, ← p.print_append, List.append_nil]
    rw [hprint, List.append_assoc, List.append_assoc, List.singleton_append]
    rw [scanFrom_trimmed (Property.isTrimmed hm) hwidth, List.append_assoc]
    rfl

theorem isPassed_lines {ms : List Member} (hms : ∀ m ∈ ms, m.IsPrintable) :
    IsPassed (ms.flatMap (·.print ++ ['\n'])) := by
  induction ms with
  | nil => exact isPassed_nil
  | cons m ms ih =>
    have hline := (isPassed_print (hms m (by simp))).append (isPassed_blank (c := '\n') rfl)
    exact hline.append (ih fun n hn => hms n (by simp [hn]))

end Member

open Member

/-- The binary operators, and what else an expression can be broken after. -/
def Script.operators : List Text :=
  ["+", "-", "*", "/", "%", "**", "<<", ">>", ">>>", "&", "|", "^", "&&", "||", "??",
    "==", "!=", "===", "!==", "<", ">", "<=", ">=", "in", "instanceof",
    "=", "+=", "-=", "*=", "/=", "%=", "**=", "<<=", ">>=", ">>>=", "&=", "|=", "^=", "&&=", "||=",
    "??=", "?", ":", ".", ","]

/-- The operators after which a statement goes on. -/
def Script.goesOn (operator : Text) : Bool :=
  operator.getLast? == some '=' || operator.getLast? == some ','

/-- An expression on one line, or what an operator leaves of one: closed, without comments, and a
semicolon in its code stands in brackets. -/
structure IsOperand (t : Text) : Prop where
  ne_nil : t ≠ []
  single : '\n' ∉ t
  closed : isClosed t = true
  no_remark : ∀ i ≤ t.length, (State.start.run (t.take i)).inRemark = false
  no_break : ∀ i < t.length, t[i]? = some ';' →
    inLiteral t i = false → isOutsideBrackets (t.take i) = false

structure BrokenLine where
  operand : Text
  gap : Text
  operator : Text

namespace BrokenLine

def text (l : BrokenLine) : Text := l.operand ++ (l.gap ++ l.operator)

structure IsPrintable (l : BrokenLine) : Prop where
  operand : IsOperand l.operand
  gap : ∀ c ∈ l.gap, Text.isBlank c = true ∧ c ≠ '\n'
  operator : l.operator ∈ operators
  /-- The operand and the operator do not make up a comment, nor an arrow. -/
  no_remark : (State.start.run l.text).inRemark = false
  no_arrow : (l.operand ++ l.gap).getLast? ≠ some '='

end BrokenLine

/-- A property whose value is broken after operators. -/
structure BrokenProperty where
  name : Text
  isStatic : Bool
  lines : List BrokenLine
  last : Text

namespace BrokenProperty

def join (ls : List BrokenLine) (last : Text) : Text := ls.flatMap (·.text ++ ['\n']) ++ last

/-- The value up to the first operator after which a statement does not go on. -/
def readTo (last : Text) : List BrokenLine → Text
  | [] => last
  | l :: ls => if goesOn l.operator then l.text ++ '\n' :: readTo last ls else l.text

def property (p : BrokenProperty) : Property :=
  { name := p.name, value := join p.lines p.last, isStatic := p.isStatic, span := ⟨0, 0⟩ }

def read (p : BrokenProperty) : Property := { p.property with value := readTo p.last p.lines }

structure IsPrintable (p : BrokenProperty) : Prop where
  name : Text.isIdentifier p.name = true
  lines : ∀ l ∈ p.lines, l.IsPrintable
  last : IsOperand p.last
  starts : ∀ c ∈ p.property.value.head?, Text.isBlank c = false
  stops : ∀ c ∈ p.last.getLast?, Text.isBlank c = false

end BrokenProperty

section Reading

variable {t seen : Text} {l : BrokenLine} {ls : List BrokenLine} {last : Text} {c x : Char}

theorem continues_cons (hx : Text.isBlank x = false) (t : Text) :
    continues (x :: t) = (x == '=' || x == ',' || (x == '>' && t.head? == some '=')) := by
  rw [continues, List.dropWhile_cons_of_neg (by simp [hx])]
  cases t <;> grind

theorem isStatement_of_isOperand (ht : IsOperand t) (seen : Text) :
    IsStatement 0 seen (fun _ => 0) .start t := by
  refine .of_isClosed ht.closed ht.no_remark (fun i hi hc hliteral => ?_) seen
  rcases hc with hc | ⟨hc, -⟩
  · exact ht.no_break i hi hc hliteral
  · exact absurd (List.mem_of_getElem? hc) ht.single

theorem openAfter?_operand (ht : IsOperand t) (seen : Text) :
    openAfter? 0 seen none t = some (0, none) :=
  (isStatement_of_isOperand ht seen).openAfter?_eq

theorem openAfter?_operators : ∀ op ∈ operators, openAfter? 0 [] none op = some (0, none) := by
  decide +kernel

theorem openAfter?_line (hl : l.IsPrintable) (seen : Text) :
    openAfter? 0 seen none l.text = some (0, none) := by
  have hgap : ∀ c ∈ l.gap, isPlain c = true ∧ c ≠ ';' ∧ c ≠ '\n' := by
    intro c hc
    obtain ⟨hblank, hbreak⟩ := hl.gap c hc
    refine ⟨(isPlain_of_isBlank hblank).1, ?_, hbreak⟩
    rintro rfl
    revert hblank
    decide
  have hoperator : ∀ seen, openAfter? 0 seen none l.operator = some (0, none) :=
    openAfter?_append_seen (openAfter?_operators l.operator hl.operator)
  rw [BrokenLine.text, openAfter?_append, openAfter?_operand hl.operand, Option.bind_some,
    openAfter?_append, openAfter?_of_isPlain hgap, Option.bind_some, hoperator]

theorem getLast_operators : ∀ op ∈ operators, ∃ h : op ≠ [],
    Text.isBlank (op.getLast h) = false ∧ op.getLast h ≠ ';' ∧
      (op.getLast h = '>' → op.dropLast.getLast? ≠ some '=') := by
  decide +kernel

theorem exists_last_of_mem_operators {op : Text} (h : op ∈ operators) :
    ∃ u x, op = u ++ [x] ∧ Text.isBlank x = false ∧ x ≠ ';' ∧
      (x = '>' → u.getLast? ≠ some '=') := by
  obtain ⟨hne, hblank, hsemicolon, harrow⟩ := getLast_operators op h
  exact ⟨op.dropLast, op.getLast hne, (List.dropLast_append_getLast hne).symm, hblank, hsemicolon,
    harrow⟩

theorem continues_line (hl : l.IsPrintable) (seen : Text) :
    continues (l.text.reverse ++ seen) = goesOn l.operator := by
  obtain ⟨u, x, hop, hblank, -, harrow⟩ := exists_last_of_mem_operators hl.operator
  have hreverse : l.text.reverse ++ seen = x :: ((l.operand ++ l.gap ++ u).reverse ++ seen) := by
    rw [BrokenLine.text, hop]
    simp
  have hhead : x = '>' → ((l.operand ++ l.gap ++ u).reverse ++ seen).head? ≠ some '=' := by
    intro hx
    have hne : (l.operand ++ l.gap ++ u).reverse ≠ [] := by simp [hl.operand.ne_nil]
    rw [List.head?_append_of_ne_nil _ hne, List.head?_reverse]
    cases hu : u.getLast? with
    | none =>
      rw [List.getLast?_eq_none_iff.mp hu, List.append_nil]
      exact hl.no_arrow
    | some d =>
      rw [List.getLast?_append, hu, Option.some_or, ← hu]
      exact harrow hx
  have hnone : (x == '>' && ((l.operand ++ l.gap ++ u).reverse ++ seen).head? == some '=') =
      false := by
    rw [Bool.and_eq_false_imp]
    exact fun hx => beq_false_of_ne (hhead (beq_iff_eq.mp hx))
  rw [hreverse, continues_cons hblank, hnone, Bool.or_false, goesOn, hop, List.getLast?_concat]
  rfl

theorem exists_readTo (hls : ∀ l ∈ ls, l.IsPrintable) (hlast : IsOperand last) (rest : Text) :
    ∃ c after, c.utf8Size = 1 ∧
      BrokenProperty.join ls last ++ ';' :: rest = BrokenProperty.readTo last ls ++ c :: after ∧
      (∀ seen, statementWidth 0 seen none (BrokenProperty.readTo last ls ++ c :: after) =
        (BrokenProperty.readTo last ls).length) ∧
      ((∀ l ∈ ls, goesOn l.operator = true) →
        BrokenProperty.readTo last ls = BrokenProperty.join ls last ∧ c = ';' ∧ after = rest) := by
  induction ls with
  | nil =>
    refine ⟨';', rest, rfl, rfl, fun seen => ?_, fun _ => ⟨rfl, rfl, rfl⟩⟩
    show statementWidth 0 seen none (last ++ ';' :: rest) = last.length
    rw [statementWidth_of_openAfter? (openAfter?_operand hlast seen), statementWidth]
    rfl
  | cons l ls ih =>
    have hl := hls l List.mem_cons_self
    obtain ⟨c, after, hc, hjoin, hwidth, hall⟩ := ih fun m hm => hls m (List.mem_cons_of_mem l hm)
    have hsplit : BrokenProperty.join (l :: ls) last ++ ';' :: rest =
        l.text ++ '\n' :: (BrokenProperty.join ls last ++ ';' :: rest) := by
      simp [BrokenProperty.join]
    have hcontinues := continues_line hl
    rw [hsplit, BrokenProperty.readTo]
    cases hgo : goesOn l.operator with
    | true =>
      rw [if_pos rfl]
      refine ⟨c, after, hc, by rw [hjoin]; simp, fun seen => ?_, fun h => ?_⟩
      · have hnext : openNext? 0 (l.text.reverse ++ seen) none '\n' = some (0, none) := by
          rw [openNext?, hcontinues, hgo]
          rfl
        rw [List.append_assoc, List.cons_append,
          statementWidth_of_openAfter? (openAfter?_line hl seen), statementWidth_cons hnext, hwidth]
        simp only [List.length_append, List.length_cons]
        omega
      · obtain ⟨hread, hend⟩ := hall fun m hm => h m (List.mem_cons_of_mem l hm)
        refine ⟨?_, hend⟩
        rw [hread]
        simp [BrokenProperty.join]
    | false =>
      rw [if_neg Bool.false_ne_true]
      refine ⟨'\n', _, rfl, rfl, fun seen => ?_, fun h => ?_⟩
      · rw [statementWidth_of_openAfter? (openAfter?_line hl seen), statementWidth, Option.map_none]
        dsimp only
        rw [hcontinues, hgo]
        rfl
      · rw [h l List.mem_cons_self] at hgo
        cases hgo

end Reading

section Values

variable {l : BrokenLine} {ls : List BrokenLine} {last : Text}

theorem BrokenLine.IsPrintable.text_ne_nil (hl : l.IsPrintable) : l.text ≠ [] :=
  List.append_ne_nil_of_left_ne_nil hl.operand.ne_nil _

namespace BrokenProperty

theorem join_cons (l : BrokenLine) (ls : List BrokenLine) (last : Text) :
    join (l :: ls) last = l.text ++ '\n' :: join ls last := by
  simp [join]

theorem readTo_isPrefix (ls : List BrokenLine) (last : Text) : readTo last ls <+: join ls last := by
  induction ls with
  | nil => exact List.prefix_refl last
  | cons l ls ih =>
    rw [join_cons, readTo]
    split
    · obtain ⟨r, hr⟩ := ih
      exact ⟨r, by rw [← hr]; simp⟩
    · exact List.prefix_append _ _

theorem readTo_ne_nil (hls : ∀ l ∈ ls, l.IsPrintable) (hlast : last ≠ []) : readTo last ls ≠ [] := by
  cases ls with
  | nil => exact hlast
  | cons l ls =>
    rw [readTo]
    split
    · simp
    · exact (hls l List.mem_cons_self).text_ne_nil

/-- The value is read whole exactly when it goes on after every line. -/
theorem readTo_eq_join_iff :
    readTo last ls = join ls last ↔ ∀ l ∈ ls, goesOn l.operator = true := by
  induction ls with
  | nil => exact iff_of_true rfl (by simp)
  | cons l ls ih =>
    rw [join_cons, readTo, List.forall_mem_cons, ← ih]
    cases goesOn l.operator with
    | true => simp
    | false => simp

theorem getLast?_readTo (hls : ∀ l ∈ ls, l.IsPrintable) (hlast : IsOperand last)
    (hstops : ∀ c ∈ last.getLast?, Text.isBlank c = false) :
    ∀ c ∈ (readTo last ls).getLast?, Text.isBlank c = false ∧ c ≠ ';' := by
  induction ls with
  | nil =>
    refine fun c hc => ⟨hstops c hc, ?_⟩
    rintro rfl
    exact (isStatement_of_isOperand hlast []).getLast?_ne (by simp [State.start, Mode.quote?]) hc
  | cons l ls ih =>
    have hrest := ih fun m hm => hls m (List.mem_cons_of_mem l hm)
    have hne : readTo last ls ≠ [] :=
      readTo_ne_nil (fun m hm => hls m (List.mem_cons_of_mem l hm)) hlast.ne_nil
    rw [readTo]
    split
    · rw [List.getLast?_append_of_ne_nil _ (List.cons_ne_nil _ _), List.getLast?_cons_of_ne_nil hne]
      exact hrest
    · obtain ⟨u, x, hop, hblank, hsemicolon, -⟩ :=
        exists_last_of_mem_operators (hls l List.mem_cons_self).operator
      rw [BrokenLine.text, hop, ← List.append_assoc, ← List.append_assoc, List.getLast?_concat]
      rintro c ⟨⟩
      exact ⟨hblank, hsemicolon⟩

variable {p : BrokenProperty}

theorem isTrimmed_read (hp : p.IsPrintable) : p.read.IsTrimmed := by
  have hlast := getLast?_readTo hp.lines hp.last hp.stops
  have hne := readTo_ne_nil hp.lines hp.last.ne_nil
  refine ⟨hp.name, hne, Text.trim_of_ends (fun c hc => hp.starts c ?_) fun c hc => (hlast c hc).1,
    fun h => (hlast _ h).2 rfl⟩
  obtain ⟨r, hr⟩ := readTo_isPrefix p.lines p.last
  show c ∈ (join p.lines p.last).head?
  rw [← hr, List.head?_append_of_ne_nil _ hne]
  exact hc

theorem exists_scanFrom (hp : p.IsPrintable) (offset : Nat) (rest : Text) :
    ∃ members, scanFrom offset 0 (p.property.print ++ rest) =
        .property (p.read.placedAt offset) :: members ∧
      ((∀ l ∈ p.lines, goesOn l.operator = true) →
        members = scanFrom (offset + Text.byteLength p.property.print) 0 rest) := by
  obtain ⟨c, after, hc, hjoin, hwidth, hall⟩ := exists_readTo hp.lines hp.last rest
  have hsplit : p.property.print ++ rest = p.read.lead ++ (p.read.value ++ c :: after) := by
    rw [Property.print_append, List.append_assoc]
    exact congrArg (p.property.lead ++ ·) hjoin
  have hstatement : statementWidth 0 [] none (p.read.lead ++ (p.read.value ++ c :: after)) =
      (p.read.lead ++ p.read.value).length := by
    rw [statementWidth_append (p.read.isPlain_of_mem_lead hp.name), List.length_append]
    exact congrArg (p.read.lead.length + ·) (hwidth _)
  refine ⟨scanFrom (offset + Text.byteLength (p.read.lead ++ p.read.value ++ [c])) 0 after, ?_,
    fun h => ?_⟩
  · rw [hsplit]
    exact scanFrom_trimmed (isTrimmed_read hp) hstatement offset
  · obtain ⟨hread, rfl, rfl⟩ := hall h
    have hprint : p.property.print = p.read.lead ++ p.read.value ++ [';'] := by
      rw [← List.append_nil p.property.print, Property.print_append]
      exact congrArg (p.property.lead ++ · ++ [';']) hread.symm
    rw [hprint]

end BrokenProperty

end Values

section Closed

variable {s : State} {t : Text} {l : BrokenLine} {ls : List BrokenLine} {last : Text}

theorem neutral_of_depthAfter? (hcode : (s.run t).isCode = true)
    (hdepth : ∀ b : Bracket, b.depthAfter? 0 s t = some 0) : Neutral s t := by
  refine ⟨hcode, fun b depth => ?_⟩
  rw [← Nat.zero_add depth]
  exact Bracket.depthAfter?_add depth (hdepth b)

theorem neutral_operators : ∀ op ∈ operators, ∀ s ∈ [State.start, ⟨.slash, []⟩],
    (s.run op).inRemark = false → (s.run op).isCode = true ∧
      ∀ b ∈ [Bracket.brace, .paren, .square], b.depthAfter? 0 s op = some 0 := by
  decide +kernel

theorem BrokenLine.IsPrintable.neutral (hl : l.IsPrintable) : Neutral .start l.text := by
  have hoperand := neutral_of_isClosed hl.operand.closed
  have hgap : Neutral (State.start.run l.operand) l.gap :=
    neutral_of_isPlain hoperand.isCode fun c hc => (isPlain_of_isBlank (hl.gap c hc).1).1
  refine hoperand.append (hgap.append ?_)
  have hcode : (State.start.run l.operand).run l.gap ∈ [State.start, ⟨.slash, []⟩] := by
    simpa [State.start] using State.eq_of_isCode hgap.isCode
  have hremark := hl.no_remark
  rw [BrokenLine.text, State.run_append, State.run_append] at hremark
  obtain ⟨hend, hdepth⟩ := neutral_operators l.operator hl.operator _ hcode hremark
  exact neutral_of_depthAfter? hend fun b => hdepth b (by cases b <;> simp)

theorem neutral_joinLines (hls : ∀ l ∈ ls, l.IsPrintable) (hlast : IsOperand last) :
    Neutral .start (BrokenProperty.join ls last) := by
  induction ls with
  | nil => exact neutral_of_isClosed hlast.closed
  | cons l ls ih =>
    have hl := (hls l List.mem_cons_self).neutral
    rw [BrokenProperty.join_cons]
    exact hl.append (neutral_cons_of_isPlain hl.isCode (by decide)
      (ih fun m hm => hls m (List.mem_cons_of_mem l hm)))

namespace BrokenProperty

variable {p : BrokenProperty} {before after : Text}

theorem isClosed_body (hp : p.IsPrintable) (hbefore : isClosed before = true)
    (hafter : isClosed after = true) :
    isClosed (before ++ (p.property.print ++ after)) = true := by
  have hstart := neutral_of_isClosed hbefore
  obtain ⟨hlead, hrun⟩ := Property.neutral_lead (p := p.property) hp.name hstart.isCode
  have hvalue := neutral_joinLines hp.lines hp.last
  refine isClosed_of_neutral (hstart.append ?_)
  rw [Property.print_append, List.append_assoc]
  refine hlead.append ?_
  rw [hrun]
  exact hvalue.append
    (neutral_cons_of_isPlain hvalue.isCode (by decide) (neutral_of_isClosed hafter))

end BrokenProperty

end Closed

namespace ClassBlock

variable {before after : Text} {p : BrokenProperty}

/-- The class with the members of `before` and the others, and a property between them. -/
def withProperty (c : ClassBlock) (head before : Text) (q : Property) (others : List Member) :
    ClassBlock :=
  ofMembers c.name c.parent c.span (Member.scanFrom (c.bodyStart head) 0 before ++
    .property (q.placedAt (c.bodyStart head + Text.byteLength before)) :: others)

theorem properties_withProperty (c : ClassBlock) (head before : Text) (q : Property)
    (others : List Member) : (c.withProperty head before q others).properties =
      (Member.scanFrom (c.bodyStart head) 0 before).filterMap Member.property? ++
        q.placedAt (c.bodyStart head + Text.byteLength before) ::
          others.filterMap Member.property? := by
  simp [withProperty, ofMembers, Member.property?]

/-- A property that is broken after operators is read up to the first one after which a statement
does not go on. It is read whole, and what follows as if it stood alone, exactly when there is no
such operator. -/
theorem scan_broken (hpassed : IsPassed before) (hp : p.IsPrintable) :
    (∀ source, ∀ c ∈ scan source, ∀ head, '\x7b' ∉ head →
      c.span.slice? source = some (written head (before ++ (p.property.print ++ after))) →
      (∃ others, c = c.withProperty head before p.read others) ∧
      (c = c.withProperty head before p.property (Member.scanFrom (c.bodyStart head +
          Text.byteLength before + Text.byteLength p.property.print) 0 after) ↔
        ∀ l ∈ p.lines, goesOn l.operator = true)) ∧
    ∀ name, Text.isIdentifier name = true → isClosed before = true → isClosed after = true →
      ∃ c, scan (printed name (before ++ (p.property.print ++ after))) = [c] := by
  refine ⟨fun source c hc head hhead htext => ?_, fun name hname hbefore hafter => ?_⟩
  · obtain ⟨others, hread, hall⟩ :=
      BrokenProperty.exists_scanFrom hp (c.bodyStart head + Text.byteLength before) after
    have hmembers := eq_ofMembers_of_mem hc hhead htext
    rw [hpassed, hread] at hmembers
    replace hmembers : c = c.withProperty head before p.read others := hmembers
    refine ⟨⟨others, hmembers⟩, fun h => ?_, fun h => ?_⟩
    · have hproperties := congrArg ClassBlock.properties (hmembers.symm.trans h)
      rw [properties_withProperty, properties_withProperty] at hproperties
      have hproperty := (List.cons.inj (List.append_cancel_left hproperties)).1
      exact BrokenProperty.readTo_eq_join_iff.mp (congrArg Property.value hproperty)
    · have hwhole : p.read = p.property := by
        rw [BrokenProperty.read, BrokenProperty.readTo_eq_join_iff.mpr h]
        rfl
      rw [hall h, hwhole] at hmembers
      exact hmembers
  · have hstart : ∀ d ∈ ([] : Text).head?, Text.isWordChar d = false := by simp
    obtain ⟨span, offset, hscan⟩ :=
      scanFrom_printed hname (BrokenProperty.isClosed_body hp hbefore hafter) hstart []
    rw [List.append_nil] at hscan
    exact ⟨_, hscan⟩

def valve : BrokenProperty :=
  { name := "open", isStatic := true
    lines := [⟨"load(\";\")", " ", ">="⟩, ⟨"[() => \x7b f(); \x7d]", "", "+"⟩], last := "1" }

def sizeMember : Member := .method ⟨"size", .getter, true, "", " return 1; ", ⟨0, 0⟩⟩

def valveBefore : Text := ['\n'] ++ [sizeMember].flatMap (·.print ++ ['\n'])

def valveAfter : Text := "\n  name = \"v\";\n"

def valveBody : Text := valveBefore ++ (valve.property.print ++ valveAfter)

theorem isPassed_valveBefore : IsPassed valveBefore := by
  refine (isPassed_blank rfl).append (isPassed_lines fun m hm => ?_)
  obtain rfl := List.mem_singleton.mp hm
  exact ⟨by decide, by decide, by decide, by decide⟩

theorem isPrintable_valve : valve.IsPrintable := by
  have hload : IsOperand "load(\";\")" :=
    ⟨by decide, by decide, by decide +kernel, by decide +kernel, by decide +kernel⟩
  have hlist : IsOperand "[() => \x7b f(); \x7d]" :=
    ⟨by decide, by decide, by decide +kernel, by decide +kernel, by decide +kernel⟩
  have hone : IsOperand "1" :=
    ⟨by decide, by decide, by decide, by decide +kernel, by decide +kernel⟩
  refine ⟨by decide, fun l hl => ?_, hone, by rintro _ ⟨⟩; rfl, by rintro _ ⟨⟩; rfl⟩
  rcases List.mem_cons.mp hl with rfl | hl
  · exact ⟨hload, by decide, by decide, by decide +kernel, by decide⟩
  · obtain rfl := List.mem_singleton.mp hl
    exact ⟨hlist, by decide, by decide, by decide +kernel, by decide⟩

/-- The value goes on after the first operator and is cut at the second. -/
theorem scan_broken_valve :
    (∃ c ∈ scan (written " Valve extends Part " valveBody),
      c.span.slice? (written " Valve extends Part " valveBody) =
        some (written " Valve extends Part " valveBody) ∧
      (∃ others, c = c.withProperty " Valve extends Part " valveBefore valve.read others) ∧
      valve.read.value = "load(\";\") >=\n[() => \x7b f(); \x7d]+") ∧
    ∃ c, scan (printed "Valve" valveBody) = [c] := by
  obtain ⟨hread, hfound⟩ :=
    @scan_broken valveBefore valveAfter valve isPassed_valveBefore isPrintable_valve
  have hscan : ∃ c ∈ scan (written " Valve extends Part " valveBody),
      c.span.slice? (written " Valve extends Part " valveBody) =
        some (written " Valve extends Part " valveBody) := by
    decide +kernel
  obtain ⟨c, hc, htext⟩ := hscan
  exact ⟨⟨c, hc, htext, (hread _ c hc _ (by decide) htext).1, by decide⟩,
    hfound "Valve" (by decide) (by decide +kernel) (by decide +kernel)⟩

end ClassBlock

end CanvasPage
