import CanvasPage.Proofs.ClassBlock.Headers
import CanvasPage.Proofs.ClassBlock.Statement
import CanvasPage.Proofs.Pattern.Occurrence
import CanvasPage.Proofs.Text.Trim

namespace CanvasPage

open Script

theorem withoutHash_of_isIdentifier {name : Text} (hname : Text.isIdentifier name = true) :
    Member.withoutHash name = name := by
  rw [Member.withoutHash]
  apply Text.dropWhile_of_head?
  intro c hc
  have hcontinues := Member.head?_isIdentifier hname [] c (by rwa [List.append_nil])
  cases hhash : c == '#' with
  | false => rfl
  | true =>
    rw [beq_iff_eq.mp hhash] at hcontinues
    revert hcontinues
    decide

namespace Method

variable {m : Method}

theorem print_append (m : Method) (rest : Text) :
    m.print ++ rest = joinWords m.modifierWords ++ (m.name ++ '(' ::
      (m.params ++ ')' :: (' ' :: '\x7b' :: (m.body ++ '\x7d' :: rest)))) := by
  have hparen : ("(" : Text) = ['('] := rfl
  have hbrace : (") \x7b" : Text) = [')', ' ', '\x7b'] := rfl
  have hclose : ("\x7d" : Text) = ['\x7d'] := rfl
  simp only [print, hparen, hbrace, hclose, List.append_assoc, List.cons_append, List.nil_append]

theorem words_modifierWords (m : Method) :
    Text.words (joinWords m.modifierWords) = m.modifierWords := by
  rw [modifierWords]
  cases m.isStatic <;> cases m.kind <;> decide

theorem modifierWords_subset (m : Method) : ∀ w ∈ m.modifierWords, w ∈ Member.methodWords := by
  rw [modifierWords]
  cases m.isStatic <;> cases m.kind <;> decide

theorem contains_static (m : Method) : m.modifierWords.contains ("static" : Text) = m.isStatic := by
  rw [modifierWords]
  cases m.isStatic <;> cases m.kind <;> decide

theorem kind_modifierWords (m : Method) :
    (if m.modifierWords.contains ("get" : Text) then MethodKind.getter
      else if m.modifierWords.contains ("set" : Text) then .setter else .plain) = m.kind := by
  rw [modifierWords]
  cases m.isStatic <;> cases m.kind <;> decide

theorem print_ne_nil (m : Method) : m.print ≠ [] := by
  simp [print]

theorem head?_print (hm : m.IsPrintable) :
    ∀ c ∈ m.print.head?, Text.continuesIdentifier c = true := by
  have hname := Member.head?_isIdentifier hm.name
  rw [← List.append_nil m.print, print_append, modifierWords]
  cases m.isStatic with
  | true =>
    rintro c ⟨⟩
    decide
  | false =>
    cases m.kind with
    | plain => exact hname _
    | getter | setter =>
      rintro c ⟨⟩
      decide

theorem exists_header (hm : m.IsPrintable) (rest : Text) :
    ∃ o name, Member.methodHeader.atStart? (m.print ++ rest) = some o ∧ o.group? 2 = some name ∧
      name.text = m.name ∧ name.start.offset = Text.byteLength (joinWords m.modifierWords) ∧
      o.groupText 1 = joinWords m.modifierWords ∧
      o.stop.after = m.params ++ ')' :: (' ' :: '\x7b' :: (m.body ++ '\x7d' :: rest)) := by
  have hrun := Member.run_methodHeader m.modifierWords_subset hm.name
    (m.params ++ ')' :: (' ' :: '\x7b' :: (m.body ++ '\x7d' :: rest)))
  rw [← print_append] at hrun
  refine ⟨_, _, Pattern.at?_of_run hrun (Nat.succ_pos _), rfl, ?_, ?_, ?_, rfl⟩
  · exact List.take_left
  · exact Text.byteLength_reverse _
  · show (m.print ++ rest).take (joinWords m.modifierWords).length = _
    rw [print_append]
    exact List.take_left

theorem exists_bodyHeader (rest : Text) :
    ∃ o, Member.bodyHeader.atStart? (' ' :: '\x7b' :: rest) = some o ∧ o.stop.after = rest :=
  ⟨_, Pattern.at?_of_run (Member.run_bodyHeader rest) Nat.two_pos, rfl⟩

/-- Where a method stands that is printed at an offset: from its name to its last brace. -/
def spanAt (m : Method) (offset : Nat) : Span :=
  ⟨offset + Text.byteLength (joinWords m.modifierWords), offset + Text.byteLength m.print⟩

theorem readMethod?_print (hm : m.IsPrintable) (offset : Nat) (rest : Text) :
    Member.readMethod? offset (m.print ++ rest) =
      some ({ m with span := m.spanAt offset }, m.print.length) := by
  obtain ⟨header, name, hheader, hgroup, htext, hstart, hwords, hafter⟩ := exists_header hm rest
  obtain ⟨brace, hbrace, hstop⟩ := exists_bodyHeader (m.body ++ '\x7d' :: rest)
  have hparams : Bracket.paren.enclosed?
      (m.params ++ ')' :: (' ' :: '\x7b' :: (m.body ++ '\x7d' :: rest))) = _ :=
    Bracket.paren.enclosed?_append _ hm.params
  have hbody : Bracket.brace.enclosed? (m.body ++ '\x7d' :: rest) = _ :=
    Bracket.brace.enclosed?_append rest hm.body
  have hname : Member.notMethodNames.contains m.name = false := by
    simpa using hm.name_not_mem
  have hwidth : (m.print ++ rest).length - rest.length = m.print.length := by
    rw [List.length_append, Nat.add_sub_cancel]
  rw [Member.readMethod?, hheader]
  simp only [Option.bind_eq_bind, Option.bind_some, hgroup, htext, hname, hstart, hwords, hafter,
    hparams, hbrace, hstop, hbody, hwidth, List.take_left, words_modifierWords, contains_static,
    kind_modifierWords, withoutHash_of_isIdentifier hm.name, Bool.false_eq_true, if_false]
  rfl

end Method

namespace Property

variable {p : Property}

def lead (p : Property) : Text :=
  joinWords (staticWords p.isStatic) ++ (p.name ++ [' ', '=', ' '])

theorem print_append (p : Property) (rest : Text) :
    p.print ++ rest = p.lead ++ p.value ++ ';' :: rest := by
  have hequals : (" = " : Text) = [' ', '=', ' '] := rfl
  have hsemicolon : (";" : Text) = [';'] := rfl
  simp only [print, lead, hequals, hsemicolon, List.append_assoc, List.cons_append,
    List.nil_append]

theorem lead_append (p : Property) (value : Text) : p.lead ++ value =
    joinWords (staticWords p.isStatic) ++ (p.name ++ ' ' :: '=' :: ' ' :: value) := by
  simp only [lead, List.append_assoc, List.cons_append, List.nil_append]

theorem words_staticWords (isStatic : Bool) :
    Text.words (joinWords (staticWords isStatic)) = staticWords isStatic := by
  cases isStatic <;> decide

theorem staticWords_subset (isStatic : Bool) :
    ∀ w ∈ staticWords isStatic, w ∈ Member.propertyWords := by
  cases isStatic <;> decide

theorem contains_staticWords (isStatic : Bool) :
    (staticWords isStatic).contains ("static" : Text) = isStatic := by
  cases isStatic <;> decide

theorem mem_joinWords_staticWords (isStatic : Bool) :
    ∀ c ∈ joinWords (staticWords isStatic), Text.continuesIdentifier c = true ∨ c = ' ' := by
  cases isStatic <;> decide

theorem mem_lead (hname : Text.isIdentifier p.name = true) :
    ∀ c ∈ p.lead, Text.continuesIdentifier c = true ∨ c = ' ' ∨ c = '=' := by
  intro c hc
  rcases List.mem_append.mp hc with hc | hc
  · rcases mem_joinWords_staticWords p.isStatic c hc with h | h
    · exact .inl h
    · exact .inr (.inl h)
  · rcases List.mem_append.mp hc with hc | hc
    · exact .inl (Text.continuesIdentifier_of_isIdentifier hname c hc)
    · simp only [List.mem_cons, List.not_mem_nil, or_false] at hc
      grind

theorem isStatement (hp : p.IsPrintable) (seen : Text) :
    Member.IsStatement 0 seen (fun _ => 0) .start p.value :=
  .of_isClosed hp.closed hp.no_remark (fun i hi hc => hp.no_break i hi (hc.imp_right And.left)) seen

theorem isPlain_of_mem_lead (hname : Text.isIdentifier p.name = true) :
    ∀ c ∈ p.lead, isPlain c = true ∧ c ≠ ';' ∧ c ≠ '\n' := by
  intro c hc
  rcases mem_lead hname c hc with h | rfl | rfl
  · refine ⟨isPlain_of_continuesIdentifier h, ?_, ?_⟩
    · rintro rfl
      revert h
      decide
    · rintro rfl
      revert h
      decide
  · decide
  · decide

theorem statementWidth_print (hp : p.IsPrintable) (rest : Text) :
    Member.statementWidth 0 [] none (p.print ++ rest) = (p.lead ++ p.value).length := by
  have hvalue := (isStatement hp (p.lead.reverse ++ [])).statementWidth_eq rest
  rw [print_append, List.append_assoc, Member.statementWidth_append (isPlain_of_mem_lead hp.name),
    List.length_append]
  exact congrArg (p.lead.length + ·) hvalue

/-- What lets a value be read back as it is written. -/
structure IsTrimmed (p : Property) : Prop where
  name : Text.isIdentifier p.name = true
  ne_nil : p.value ≠ []
  trim : Text.trim p.value = p.value
  last : p.value.getLast? ≠ some ';'

theorem isTrimmed (hp : p.IsPrintable) : p.IsTrimmed :=
  ⟨hp.name, hp.ne_nil, hp.trim, (isStatement hp []).getLast?_ne (by simp [State.start, Mode.quote?])⟩

theorem getLast?_statement (hp : p.IsTrimmed) :
    ∀ c ∈ (p.lead ++ p.value).getLast?, Text.isBlank c = false ∧ c ≠ ';' := by
  intro c hc
  rw [List.getLast?_append_of_ne_nil _ hp.ne_nil] at hc
  have hblank := Text.getLast?_trim p.value
  rw [hp.trim] at hblank
  refine ⟨hblank c hc, ?_⟩
  rintro rfl
  exact hp.last hc

theorem head?_lead (hname : Text.isIdentifier p.name = true) (rest : Text) :
    ∀ c ∈ (p.lead ++ rest).head?, Text.continuesIdentifier c = true := by
  have hhead : ∀ c ∈ (p.name ++ ([' ', '=', ' '] ++ rest)).head?,
      Text.continuesIdentifier c = true := Member.head?_isIdentifier hname _
  rw [lead, List.append_assoc, List.append_assoc]
  cases p.isStatic with
  | false => exact hhead
  | true =>
    rintro c ⟨⟩
    decide

theorem trim_statement (hp : p.IsTrimmed) :
    Text.trim (Text.dropEndWhile (· == ';') (Text.trim (p.lead ++ p.value))) =
      p.lead ++ p.value := by
  have htrim : Text.trim (p.lead ++ p.value) = p.lead ++ p.value := by
    refine Text.trim_of_ends ?_ fun c hc => (getLast?_statement hp c hc).1
    exact fun c hc => Text.isBlank_of_continuesIdentifier (head?_lead hp.name _ c hc)
  have hdrop : Text.dropEndWhile (· == ';') (p.lead ++ p.value) = p.lead ++ p.value :=
    Text.dropEndWhile_of_getLast? fun c hc => beq_false_of_ne (getLast?_statement hp c hc).2
  rw [htrim, hdrop, htrim]

theorem readMethod?_lead (hname : Text.isIdentifier p.name = true) (offset : Nat) (rest : Text) :
    Member.readMethod? offset (p.lead ++ rest) = none := by
  have hsplit : p.lead ++ rest =
      (joinWords (staticWords p.isStatic) ++ (p.name ++ [' '])) ++ '=' :: (' ' :: rest) := by
    rw [lead]
    simp only [List.append_assoc, List.cons_append, List.nil_append]
  have hlead : ∀ c ∈ joinWords (staticWords p.isStatic) ++ (p.name ++ [' ']),
      Text.continuesIdentifier c = true ∨ c = ' ' ∨ c = '=' := by
    intro c hc
    apply mem_lead hname c
    rw [lead]
    simp only [List.mem_append, List.mem_cons] at hc ⊢
    grind
  have hless : '<' ∉ joinWords (staticWords p.isStatic) ++ (p.name ++ [' ']) := fun h => by
    have hc := hlead '<' h
    revert hc
    decide
  have hparen : '(' ∉ joinWords (staticWords p.isStatic) ++ (p.name ++ [' ']) := fun h => by
    have hc := hlead '(' h
    revert hc
    decide
  have hheader : Member.methodHeader.atStart? (p.lead ++ rest) = none := by
    rw [hsplit]
    exact Pattern.at?_eq_none (Member.run_methodHeader_eq_none hless hparen _)
  rw [Member.readMethod?, hheader]
  rfl

theorem exists_initialized (hname : Text.isIdentifier p.name = true) (value : Text) :
    ∃ o, Member.initializedProperty.atStart? (p.lead ++ value) = some o ∧
      o.groupText 1 = joinWords (staticWords p.isStatic) ∧ o.groupText 2 = p.name ∧
      o.groupText 3 = ' ' :: value := by
  have hrun := Member.run_initializedProperty (staticWords_subset p.isStatic) hname value
  rw [← lead_append] at hrun
  have hpos : 0 < (joinWords (staticWords p.isStatic)).length + p.name.length + 3 +
      value.length := by
    omega
  refine ⟨_, Pattern.at?_of_run hrun hpos, ?_, ?_, ?_⟩
  · show (p.lead ++ value).take (joinWords (staticWords p.isStatic)).length = _
    rw [lead_append]
    exact List.take_left
  · exact List.take_left
  · show (' ' :: value).take (' ' :: value).length = _
    exact List.take_length

theorem readProperty?_statement (hp : p.IsTrimmed) (span : Span) :
    Member.readProperty? span (p.lead ++ p.value) = some { p with span := span } := by
  obtain ⟨o, ho, hwords, hname, hvalue⟩ := exists_initialized hp.name p.value
  have htrim : Text.trim (' ' :: p.value) = p.value := by
    rw [Text.trim_cons (by decide), hp.trim]
  have hnonempty : List.isEmpty p.value = false := by
    simpa using hp.ne_nil
  rw [Member.readProperty?, trim_statement hp, ho]
  simp only [Option.bind_eq_bind, Option.bind_some, hwords, hname, hvalue, htrim, hnonempty,
    words_staticWords, contains_staticWords, withoutHash_of_isIdentifier hp.name,
    Bool.false_eq_true, if_false]
  rfl

end Property

namespace Member

section Step

variable {offset width : Nat} {c : Char} {own rest t : Text} {m : Method}

theorem scanFrom_eq_drop (offset covered : Nat) (t : Text) :
    scanFrom offset covered t =
      scanFrom (offset + Text.byteLength (t.take covered)) 0 (t.drop covered) := by
  induction t generalizing offset covered with
  | nil => cases covered <;> simp [scanFrom]
  | cons c t ih =>
    cases covered with
    | zero => rfl
    | succ covered =>
      rw [scanFrom, ih, List.take_succ_cons, List.drop_succ_cons, Text.byteLength_cons,
        Nat.add_assoc]

theorem triviaWidth?_pos (h : triviaWidth? t = some width) : 0 < width := by
  rw [triviaWidth?.eq_def] at h
  split at h
  · exact Option.some.inj h ▸ Nat.succ_pos _
  · exact Option.some.inj h ▸ Nat.succ_pos _
  · exact Option.some.inj h ▸ Nat.succ_pos _
  · split at h
    · exact Option.some.inj h ▸ Nat.one_pos
    · cases h
  · cases h

theorem scanFrom_trivia (h : triviaWidth? t = some width) :
    scanFrom offset 0 t =
      scanFrom (offset + Text.byteLength (t.take width)) 0 (t.drop width) := by
  obtain ⟨n, rfl⟩ := Nat.exists_eq_succ_of_ne_zero (triviaWidth?_pos h).ne'
  cases t with
  | nil => cases h
  | cons c t =>
    rw [scanFrom, h]
    show scanFrom (offset + c.utf8Size) n t = _
    rw [scanFrom_eq_drop, List.take_succ_cons, List.drop_succ_cons, Text.byteLength_cons,
      Nat.add_assoc]

theorem scanFrom_method (hown : own ≠ []) (htrivia : triviaWidth? (own ++ rest) = none)
    (h : readMethod? offset (own ++ rest) = some (m, own.length)) :
    scanFrom offset 0 (own ++ rest) =
      method m :: scanFrom (offset + Text.byteLength own) 0 rest := by
  obtain ⟨c, own, rfl⟩ := List.exists_cons_of_ne_nil hown
  rw [List.cons_append] at htrivia h ⊢
  rw [scanFrom, htrivia, h]
  show method m :: scanFrom (offset + c.utf8Size) own.length (own ++ rest) = _
  rw [scanFrom_eq_drop, List.take_left, List.drop_left, Text.byteLength_cons, Nat.add_assoc]

theorem scanFrom_other (htrivia : triviaWidth? (c :: t) = none)
    (hmethod : readMethod? offset (c :: t) = none)
    (hwidth : statementWidth 0 [] none (c :: t) = width) :
    scanFrom offset 0 (c :: t) =
      ((readProperty? ⟨offset, offset + Text.byteLength ((c :: t).take width)⟩
          ((c :: t).take width)).map property).toList ++
        scanFrom (offset + Text.byteLength ((c :: t).take (width + 1))) 0
          ((c :: t).drop (width + 1)) := by
  rw [scanFrom, htrivia, hmethod]
  dsimp only
  rw [hwidth, scanFrom_eq_drop, List.take_succ_cons, List.drop_succ_cons, Text.byteLength_cons,
    Nat.add_assoc]

theorem scanFrom_ended (htrivia : triviaWidth? (own ++ c :: rest) = none)
    (hmethod : readMethod? offset (own ++ c :: rest) = none)
    (hwidth : statementWidth 0 [] none (own ++ c :: rest) = own.length) :
    scanFrom offset 0 (own ++ c :: rest) =
      ((readProperty? ⟨offset, offset + Text.byteLength own⟩ own).map property).toList ++
        scanFrom (offset + Text.byteLength (own ++ [c])) 0 rest := by
  have hnext : own ++ c :: rest = (own ++ [c]) ++ rest := by simp
  have hlength : own.length + 1 = (own ++ [c]).length := by simp
  have htake : (own ++ c :: rest).take (own.length + 1) = own ++ [c] := by
    rw [hnext, hlength, List.take_left]
  have hdrop : (own ++ c :: rest).drop (own.length + 1) = rest := by
    rw [hnext, hlength, List.drop_left]
  have htakeOwn : (own ++ c :: rest).take own.length = own := List.take_left
  obtain ⟨d, t, ht⟩ := List.exists_cons_of_ne_nil
    (List.append_ne_nil_of_right_ne_nil own (List.cons_ne_nil c rest))
  rw [ht] at htrivia hmethod hwidth htake hdrop htakeOwn ⊢
  rw [scanFrom_other htrivia hmethod hwidth, htake, hdrop, htakeOwn]

end Step

theorem scanFrom_lineFeed (offset : Nat) (rest : Text) :
    scanFrom offset 0 ('\n' :: rest) = scanFrom (offset + 1) 0 rest := rfl

theorem triviaWidth?_eq_none {c : Char} (hc : Text.continuesIdentifier c = true) (rest : Text) :
    triviaWidth? (c :: rest) = none := by
  have hne : ∀ d, Text.continuesIdentifier d = false → c ≠ d := by
    rintro d hd rfl
    rw [hc] at hd
    cases hd
  have hslash : c ≠ '/' := hne '/' (by decide)
  have hat : c ≠ '@' := hne '@' (by decide)
  have hblank : (" \t\r\n;" : Text).contains c = false := by
    have hnone : ∀ d ∈ (" \t\r\n;" : Text), Text.continuesIdentifier d = false := by decide
    rw [List.contains_eq_mem, decide_eq_false_iff_not]
    exact fun h => hne c (hnone c h) rfl
  unfold triviaWidth?
  split
  · rename_i h
    exact absurd (List.cons.inj h).1 hslash
  · rename_i h
    exact absurd (List.cons.inj h).1 hslash
  · rename_i h
    exact absurd (List.cons.inj h).1 hat
  · rename_i h
    obtain ⟨rfl, -⟩ := List.cons.inj h
    rw [hblank, if_neg Bool.false_ne_true]
  · rfl

theorem scanFrom_statement {p q : Property} {c : Char} {rest : Text}
    (hname : Text.isIdentifier p.name = true)
    (hwidth : statementWidth 0 [] none (p.lead ++ (p.value ++ c :: rest)) =
      (p.lead ++ p.value).length)
    (hread : ∀ span, readProperty? span (p.lead ++ p.value) = some { q with span := span })
    (offset : Nat) :
    scanFrom offset 0 (p.lead ++ (p.value ++ c :: rest)) =
      property { q with span := ⟨offset, offset + Text.byteLength (p.lead ++ p.value)⟩ } ::
        scanFrom (offset + Text.byteLength (p.lead ++ p.value ++ [c])) 0 rest := by
  have hmethod := Property.readMethod?_lead hname offset (p.value ++ c :: rest)
  have htrivia : triviaWidth? (p.lead ++ (p.value ++ c :: rest)) = none := by
    have hhead := Property.head?_lead hname (p.value ++ c :: rest)
    obtain ⟨d, w, hline⟩ := List.exists_cons_of_ne_nil
      (List.append_ne_nil_of_right_ne_nil p.lead (List.append_ne_nil_of_right_ne_nil p.value
        (List.cons_ne_nil c rest)))
    rw [hline] at hhead ⊢
    exact triviaWidth?_eq_none (hhead d rfl) w
  rw [← List.append_assoc] at hmethod htrivia hwidth ⊢
  rw [scanFrom_ended htrivia hmethod hwidth, hread]
  rfl

variable {m : Member}

def start : Member → Nat
  | method m => m.span.start
  | property p => p.span.start

theorem scanFrom_print (hm : m.IsPrintable) (offset : Nat) (rest : Text) :
    ∃ m', m'.unplaced = m.unplaced ∧ offset ≤ m'.start ∧
      m'.start ≤ offset + Text.byteLength m.print ∧
      scanFrom offset 0 (m.print ++ rest) =
        m' :: scanFrom (offset + Text.byteLength m.print) 0 rest := by
  cases m with
  | method m =>
    obtain ⟨c, t, hprint⟩ := List.exists_cons_of_ne_nil m.print_ne_nil
    have hc : Text.continuesIdentifier c = true := Method.head?_print hm c (by rw [hprint]; rfl)
    have hread := Method.readMethod?_print hm offset rest
    have hsplit := congrArg Text.byteLength (m.print_append [])
    rw [List.append_nil, Text.byteLength_append] at hsplit
    have hstop : (m.spanAt offset).start ≤ offset + Text.byteLength m.print := by
      rw [Method.spanAt, hsplit]
      exact Nat.add_le_add_left (Nat.le_add_right _ _) _
    rw [print]
    rw [hprint] at hread hstop ⊢
    exact ⟨method { m with span := m.spanAt offset }, rfl, Nat.le_add_right _ _, hstop,
      scanFrom_method (List.cons_ne_nil c t) (triviaWidth?_eq_none hc _) hread⟩
  | property p =>
    have hsplit : print (property p) ++ rest = p.lead ++ (p.value ++ ';' :: rest) := by
      rw [print, p.print_append, List.append_assoc]
    have hwidth := Property.statementWidth_print hm rest
    have hprint : print (property p) = p.lead ++ p.value ++ [';'] := by
      rw [print, ← p.print_append, List.append_nil]
    have hread := Property.readProperty?_statement (Property.isTrimmed hm)
    rw [p.print_append, List.append_assoc] at hwidth
    rw [hsplit, hprint]
    exact ⟨property { p with span := ⟨offset, offset + Text.byteLength (p.lead ++ p.value)⟩ }, rfl,
      Nat.le_refl _, Nat.le_add_right _ _, scanFrom_statement hm.name hwidth hread offset⟩

theorem scanFrom_members {ms : List Member} (hms : ∀ m ∈ ms, m.IsPrintable) (offset : Nat) :
    (scanFrom offset 0 (ms.flatMap (·.print ++ ['\n']))).map unplaced = ms.map unplaced := by
  induction ms generalizing offset with
  | nil => rfl
  | cons m ms ih =>
    have hrest := ih fun n hn => hms n (by simp [hn])
    obtain ⟨m', hm', -, -, hscan⟩ := scanFrom_print (hms m (by simp)) offset
      ('\n' :: ms.flatMap (·.print ++ ['\n']))
    rw [List.flatMap_cons, List.append_assoc, List.singleton_append, hscan, List.map_cons, hm',
      List.map_cons, scanFrom_lineFeed, hrest]

theorem pairwise_scanFrom_members {ms : List Member} (hms : ∀ m ∈ ms, m.IsPrintable)
    (offset : Nat) :
    (scanFrom offset 0 (ms.flatMap (·.print ++ ['\n']))).Pairwise (·.start ≤ ·.start) ∧
      ∀ m ∈ scanFrom offset 0 (ms.flatMap (·.print ++ ['\n'])), offset ≤ m.start := by
  induction ms generalizing offset with
  | nil => exact ⟨.nil, by simp [scanFrom]⟩
  | cons m ms ih =>
    obtain ⟨m', -, hle, hstop, hscan⟩ := scanFrom_print (hms m (by simp)) offset
      ('\n' :: ms.flatMap (·.print ++ ['\n']))
    obtain ⟨hpairs, hlater⟩ := ih (fun n hn => hms n (by simp [hn]))
      (offset + Text.byteLength m.print + 1)
    rw [List.flatMap_cons, List.append_assoc, List.singleton_append, hscan, scanFrom_lineFeed]
    refine ⟨List.pairwise_cons.mpr ⟨fun n hn => ?_, hpairs⟩, fun n hn => ?_⟩
    · have := hlater n hn
      omega
    · rcases List.mem_cons.mp hn with rfl | hn
      · exact hle
      · have := hlater n hn
        omega

end Member

end CanvasPage
