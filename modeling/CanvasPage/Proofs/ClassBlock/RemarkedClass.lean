import CanvasPage.Proofs.ClassBlock.Remark
import CanvasPage.Proofs.Procedure.Owners

namespace CanvasPage

open Script Member

/-- A member of a class that is written without semicolons. A remark may end the line of a property
and the line that opens the block of an arrow function. -/
inductive RemarkedMember where
  | method (m : Method)
  | property (p : Property) (remark : Option Text)
  | arrow (a : ArrowProperty) (remark : Option Text)

namespace RemarkedMember

def print : RemarkedMember → Text
  | method m => m.print
  | property p remark => p.lead ++ (p.value ++ remarkText remark)
  | arrow a remark => (a.property remark).lead ++ a.value remark

def IsPrintable : RemarkedMember → Prop
  | method m => m.IsPrintable
  | property p remark => p.EndsWithLine ∧ ∀ c ∈ remark, IsHarmless 0 c
  | arrow a remark => a.IsPrintable ∧ ∀ c ∈ remark, IsHarmless 1 c

def bare : RemarkedMember → RemarkedMember
  | method m => method m
  | property p _ => property p none
  | arrow a _ => arrow a none

def fieldName? : RemarkedMember → Option Text
  | method _ => none
  | property p _ => some p.name
  | arrow a _ => some a.name

def method? : RemarkedMember → Option Method
  | method m => some m
  | _ => none

/-- What is read off a member as it is written. Of a property it is the name that counts, since
its value ends with the remark. -/
inductive Finds : RemarkedMember → Member → Prop
  | method {m n : Method} (h : n.unplaced = m.unplaced) : Finds (.method m) (.method n)
  | property {p q : Property} {remark : Option Text} (h : q.name = p.name) :
      Finds (.property p remark) (.property q)
  | arrow {a : ArrowProperty} {q : Property} {remark : Option Text}
      (h : q.unplaced = a.property remark) : Finds (.arrow a remark) (.property q)

variable {m : RemarkedMember} {ms : List RemarkedMember} {n : Member} {ns : List Member}

theorem exists_scanFrom_line (hm : m.IsPrintable) (offset : Nat) (rest : Text) :
    ∃ n, m.Finds n ∧ ∃ next,
      scanFrom offset 0 (m.print ++ '\n' :: rest) = n :: scanFrom next 0 rest := by
  cases m with
  | method m =>
    obtain ⟨n, hn, -, -, hscan⟩ :=
      Member.scanFrom_print (m := .method m) hm offset ('\n' :: rest)
    rw [Member.scanFrom_lineFeed] at hscan
    cases n with
    | property q => cases hn
    | method n => exact ⟨_, .method (Member.method.inj hn), _, hscan⟩
  | property p remark =>
    obtain ⟨q, hq, -, next, hscan⟩ := (isWritten_property hm.1 hm.2).exists_scanFrom offset rest
    refine ⟨_, .property hq, next, ?_⟩
    rw [print, List.append_assoc, ← hscan]
    rfl
  | arrow a remark =>
    obtain ⟨q, -, ⟨span, hread⟩, next, hscan⟩ :=
      (isWritten_arrow hm.1 hm.2).exists_scanFrom offset rest
    have hq : q.unplaced = a.property remark := by
      rw [Property.readProperty?_statement (isTrimmed_arrow hm.1 remark)] at hread
      rw [← Option.some.inj hread]
      rfl
    refine ⟨_, .arrow hq, next, ?_⟩
    rw [print, List.append_assoc, ← hscan]
    rfl

theorem finds_scanFrom (hms : ∀ m ∈ ms, m.IsPrintable) (offset : Nat) :
    List.Forall₂ Finds ms (scanFrom offset 0 (ms.flatMap (·.print ++ ['\n']))) := by
  induction ms generalizing offset with
  | nil => exact .nil
  | cons m ms ih =>
    obtain ⟨n, hn, next, hscan⟩ := exists_scanFrom_line (hms m (by simp)) offset
      (ms.flatMap (·.print ++ ['\n']))
    rw [List.flatMap_cons, List.append_assoc, List.singleton_append, hscan]
    exact .cons hn (ih (fun n hn => hms n (by simp [hn])) next)

theorem neutral_line {s : State} (hs : s.isCode = true) (hm : m.IsPrintable) {t : Text}
    (ht : Neutral .start t) : Neutral s (m.print ++ '\n' :: t) := by
  cases m with
  | method m =>
    have hmethod := Method.neutral_print hm hs
    exact hmethod.append (neutral_cons_of_isPlain hmethod.isCode (by decide) ht)
  | property p remark =>
    obtain ⟨hp, hremark⟩ := hm
    obtain ⟨hlead, hstart⟩ := p.neutral_lead hp.name hs
    have hvalue := neutral_of_isClosed hp.closed
    rw [print, List.append_assoc, List.append_assoc]
    refine hlead.append ?_
    rw [hstart]
    exact hvalue.append
      (neutral_remarkText hvalue.isCode (fun c hc => (hremark c hc).no_break) ht)
  | arrow a remark =>
    obtain ⟨ha, hremark⟩ := hm
    obtain ⟨hlead, hstart⟩ := (a.property remark).neutral_lead ha.name hs
    have hvalue := neutral_value ha fun c hc => (hremark c hc).no_break
    rw [print, List.append_assoc]
    refine hlead.append ?_
    rw [hstart]
    exact hvalue.append (neutral_cons_of_isPlain hvalue.isCode (by decide) ht)

theorem neutral_lines (hms : ∀ m ∈ ms, m.IsPrintable) :
    Neutral .start (ms.flatMap (·.print ++ ['\n'])) := by
  induction ms with
  | nil => exact neutral_nil rfl
  | cons m ms ih =>
    have hrest := ih fun n hn => hms n (by simp [hn])
    rw [List.flatMap_cons, List.append_assoc, List.singleton_append]
    exact neutral_line rfl (hms m (by simp)) hrest

theorem isPrintable_bare (hm : m.IsPrintable) : m.bare.IsPrintable := by
  cases m with
  | method m => exact hm
  | property p remark => exact ⟨hm.1, by simp⟩
  | arrow a remark => exact ⟨hm.1, by simp⟩

theorem fieldName?_bare (m : RemarkedMember) : m.bare.fieldName? = m.fieldName? := by
  cases m <;> rfl

theorem method?_bare (m : RemarkedMember) : m.bare.method? = m.method? := by
  cases m <;> rfl

theorem Finds.fieldName?_eq (h : m.Finds n) : n.property?.map (·.name) = m.fieldName? := by
  cases h with
  | method h => rfl
  | property h => exact congrArg some h
  | arrow h => exact congrArg (fun p => some p.name) h

theorem Finds.method?_eq (h : m.Finds n) :
    n.method?.map Method.unplaced = m.method?.map Method.unplaced := by
  cases h with
  | method h => exact congrArg some h
  | property h => rfl
  | arrow h => rfl

theorem fieldNames_of_finds (h : List.Forall₂ Finds ms ns) :
    (ns.filterMap Member.property?).map (·.name) = ms.filterMap fieldName? := by
  rw [List.map_filterMap]
  induction h with
  | nil => rfl
  | cons hmember _ ih => rw [List.filterMap_cons, List.filterMap_cons, hmember.fieldName?_eq, ih]

theorem methods_of_finds (h : List.Forall₂ Finds ms ns) :
    (ns.filterMap Member.method?).map Method.unplaced =
      (ms.filterMap method?).map Method.unplaced := by
  rw [List.map_filterMap, List.map_filterMap]
  induction h with
  | nil => rfl
  | cons hmember _ ih => rw [List.filterMap_cons, List.filterMap_cons, hmember.method?_eq, ih]

theorem exists_property_of_finds {a : ArrowProperty} {remark : Option Text}
    (h : List.Forall₂ Finds ms ns) (hm : .arrow a remark ∈ ms) :
    ∃ q ∈ ns.filterMap Member.property?, q.unplaced = a.property remark := by
  induction h with
  | nil => cases hm
  | cons hmember _ ih =>
    rcases List.mem_cons.mp hm with rfl | hm
    · cases hmember with
      | arrow h => exact ⟨_, by simp [Member.property?], h⟩
    · obtain ⟨q, hq, hread⟩ := ih hm
      obtain ⟨n, hn, hproperty⟩ := List.mem_filterMap.mp hq
      exact ⟨q, List.mem_filterMap.mpr ⟨n, List.mem_cons_of_mem _ hn, hproperty⟩, hread⟩

end RemarkedMember

structure RemarkedClass where
  name : Text
  members : List RemarkedMember

namespace RemarkedClass

def print (c : RemarkedClass) : Text :=
  ClassBlock.printed c.name ('\n' :: c.members.flatMap (·.print ++ ['\n']))

def bare (c : RemarkedClass) : RemarkedClass := ⟨c.name, c.members.map RemarkedMember.bare⟩

def fieldNames (c : RemarkedClass) : List Text := c.members.filterMap RemarkedMember.fieldName?

def methods (c : RemarkedClass) : List Method := c.members.filterMap RemarkedMember.method?

structure IsPrintable (c : RemarkedClass) : Prop where
  name : Text.isIdentifier c.name = true
  members : ∀ m ∈ c.members, m.IsPrintable

end RemarkedClass

namespace ArrowProperty

/-- The parameters have no parentheses of their own. -/
def IsFlat (a : ArrowProperty) : Prop := '(' ∉ a.params ∧ ')' ∉ a.params

/-- The method that the property stands for. Its body begins with the remark. -/
def procedure (a : ArrowProperty) (owner : Text) (remark : Option Text) : Procedure :=
  { owner, kind := .method a.name, isStatic := a.isStatic
    params := Procedure.parameterTexts a.params
    body := Procedure.rewriteBody (remarkText remark ++ '\n' :: a.block) }

open Pattern in
theorem run_arrowValue {params : Text} (hparams : '(' ∉ params ∧ ')' ∉ params) (rest : Text) :
    arrowValue.run (.start ⟨[], '(' :: (params ++ ')' :: (" => " ++ '\x7b' :: rest))⟩) some =
      some ⟨⟨'\x7b' :: ' ' :: '>' :: '=' :: ' ' :: ')' :: (params.reverse ++ ['(']), rest⟩,
        params.length + 7,
        [(1, ⟨⟨['('], params ++ ')' :: (" => " ++ '\x7b' :: rest)⟩, params.length⟩)]⟩ := by
  have hasync : ∀ t, ("async" ++ blanks1 : Pattern).ends (.start ⟨[], '(' :: t⟩) = [] := fun _ => rfl
  have hflat : ∀ c ∈ params, (!("()" : Text).contains c) = true := by
    intro c hc
    have hopen : c ≠ '(' := by
      rintro rfl
      exact hparams.1 hc
    have hclose : c ≠ ')' := by
      rintro rfl
      exact hparams.2 hc
    simp [hopen, hclose]
  have htype : ∀ before width groups, (":" ++ many1 (noneOf "=") : Pattern).ends
      ⟨⟨before, '=' :: '>' :: ' ' :: '\x7b' :: rest⟩, width, groups⟩ = [] := fun _ _ _ => rfl
  have hopener : ("(" : Text) = ['('] := rfl
  have hcloser : (")" : Text) = [')'] := rfl
  have hbrace : ("\x7b" : Text) = ['\x7b'] := rfl
  have hsign : ("=>" : Text) = ['=', '>'] := rfl
  have harrow : (" => " : Text) ++ '\x7b' :: rest = [' '] ++ ['=', '>', ' ', '\x7b'] ++ rest := rfl
  rw [arrowValue]
  simp only [run_append]
  rw [run_optional_skip (hasync _), hopener, Progress.start, run_literal_singleton, run_group]
  apply run_many_one_longest hflat (forall_mem_head?_cons (by decide) _)
  dsimp only [Progress.close]
  rw [hcloser, run_literal_singleton, harrow, List.append_assoc]
  apply run_blanks_longest (by decide) (forall_mem_head?_cons (by decide) _)
  show (optional (":" ++ many1 (noneOf "="))).run
    ⟨⟨_, '=' :: '>' :: ' ' :: '\x7b' :: rest⟩, _, _⟩ _ = _
  rw [run_optional_skip (htype _ _ _), hsign, run_literal_cons_cons, if_pos rfl,
    run_literal_singleton]
  apply run_blanks_longest (u := [' ']) (by decide) (forall_mem_head?_cons (by decide) _)
  rw [hbrace, run_literal_singleton, Nat.zero_add, Nat.add_sub_cancel_left, Nat.add_comm 1]
  rfl

variable {a : ArrowProperty} {remark : Option Text}

theorem procedure?_eq {q : Property} (ha : a.IsPrintable) (hflat : a.IsFlat)
    (hremark : ∀ c ∈ remark, '\n' ∉ c) (hq : q.unplaced = a.property remark) (owner : Text) :
    q.isArrow = true ∧ q.procedure? owner = some (a.procedure owner remark) := by
  have hvalue : q.value = a.value remark := congrArg Property.value hq
  have hrun := run_arrowValue hflat (remarkText remark ++ '\n' :: (a.block ++ ['\x7d']))
  obtain ⟨o, ho, hparams, hafter⟩ : ∃ o, arrowValue.atStart? q.value = some o ∧
      o.groupText 1 = a.params ∧
      o.stop.after = remarkText remark ++ '\n' :: (a.block ++ ['\x7d']) := by
    have hat := Pattern.at?_of_run hrun (Nat.succ_pos _)
    rw [hvalue]
    refine ⟨_, hat, ?_, rfl⟩
    exact List.take_left
  have hblock : Bracket.brace.enclosed? (remarkText remark ++ '\n' :: (a.block ++ ['\x7d'])) =
      some (remarkText remark ++ '\n' :: a.block, []) := by
    have henclosed := Bracket.brace.enclosed?_append [] (isClosed_block ha hremark)
    rwa [List.append_assoc] at henclosed
  refine ⟨?_, ?_⟩
  · rw [Property.isArrow, ho]
    rfl
  · rw [Property.procedure?, ho]
    simp only [Option.bind_eq_bind, Option.bind_some, hafter, hparams, hblock]
    rw [show q.name = a.name from congrArg Property.name hq,
      show q.isStatic = a.isStatic from congrArg Property.isStatic hq]
    rfl

end ArrowProperty

namespace ClassBlock

variable {c : RemarkedClass}

theorem exists_scan_remarked (hc : c.IsPrintable) :
    ∃ span members, scan c.print = [ofMembers c.name none span members] ∧
      List.Forall₂ RemarkedMember.Finds c.members members := by
  have hclosed := isClosed_of_neutral (neutral_cons_of_isPlain (s := .start) rfl (c := '\n')
    (by decide) (RemarkedMember.neutral_lines hc.members))
  have hbefore : ∀ d ∈ ([] : Text).head?, Text.isWordChar d = false := by simp
  obtain ⟨span, offset, hscan⟩ := scanFrom_printed hc.name hclosed hbefore []
  rw [List.append_nil] at hscan
  exact ⟨span, _, hscan, RemarkedMember.finds_scanFrom hc.members (offset + 1)⟩

theorem mem_procedures_of_isArrow {b : ClassBlock} {q : Property} {p : Procedure}
    (hq : q ∈ b.properties) (harrow : q.isArrow = true) (hp : q.procedure? b.name = some p) :
    p ∈ b.procedures := by
  have hmember : (q.span.start, p) ∈ b.memberProcedures := by
    refine List.mem_append_left _ (List.mem_append_right _ (List.mem_filterMap.mpr ⟨q, ?_, ?_⟩))
    · exact List.mem_filter.mpr ⟨hq, harrow⟩
    · rw [hp]
      rfl
  refine List.mem_cons_of_mem _ (List.mem_map.mpr ⟨(q.span.start, p), ?_, rfl⟩)
  exact (sortByStart_perm _).symm.subset hmember

structure IsReadOf (b : ClassBlock) (c : RemarkedClass) : Prop where
  fieldNames : b.properties.map (·.name) = c.fieldNames
  initializer : b.initializer.map Method.unplaced =
    (c.methods.find? isInitializer).map Method.unplaced
  methods : b.methods.map Method.unplaced =
    (c.methods.filter (!isInitializer ·)).map Method.unplaced
  procedures : ∀ a remark, .arrow a remark ∈ c.members → a.IsFlat →
    a.procedure c.name remark ∈ b.procedures

theorem exists_isReadOf (hc : c.IsPrintable) : ∃ b, scan c.print = [b] ∧ b.IsReadOf c := by
  obtain ⟨span, ns, hscan, hfinds⟩ := exists_scan_remarked hc
  have hunplaced : isInitializer ∘ Method.unplaced = isInitializer := rfl
  have hothers : (!isInitializer ·) ∘ Method.unplaced = (!isInitializer ·) := rfl
  have hmethods : (ns.filterMap Member.method?).map Method.unplaced =
      c.methods.map Method.unplaced := RemarkedMember.methods_of_finds hfinds
  refine ⟨_, hscan, RemarkedMember.fieldNames_of_finds hfinds, ?_, ?_, fun a remark ha hflat => ?_⟩
  · have hfind := congrArg (List.find? isInitializer) hmethods
    rwa [List.find?_map, List.find?_map, hunplaced] at hfind
  · have hfilter := congrArg (List.filter (!isInitializer ·)) hmethods
    rwa [List.filter_map, List.filter_map, hothers] at hfilter
  · obtain ⟨hprintable, hremark⟩ := hc.members _ ha
    obtain ⟨q, hq, hread⟩ := RemarkedMember.exists_property_of_finds hfinds ha
    obtain ⟨harrow, hprocedure⟩ := ArrowProperty.procedure?_eq hprintable hflat
      (fun d hd => (hremark d hd).no_break) hread c.name
    exact mem_procedures_of_isArrow hq harrow hprocedure

theorem isPrintable_bare (hc : c.IsPrintable) : c.bare.IsPrintable := by
  refine ⟨hc.name, fun m hm => ?_⟩
  obtain ⟨n, hn, rfl⟩ := List.mem_map.mp hm
  exact RemarkedMember.isPrintable_bare (hc.members n hn)

theorem fieldNames_bare (c : RemarkedClass) : c.bare.fieldNames = c.fieldNames := by
  rw [RemarkedClass.fieldNames, RemarkedClass.bare, List.filterMap_map]
  exact List.filterMap_congr fun m _ => m.fieldName?_bare

theorem methods_bare (c : RemarkedClass) : c.bare.methods = c.methods := by
  rw [RemarkedClass.methods, RemarkedClass.bare, List.filterMap_map]
  exact List.filterMap_congr fun m _ => m.method?_bare

/-- Remarks change neither the names of the fields nor the methods of a class, and every arrow
function with a block stays a method of it. -/
theorem scan_remarked (hc : c.IsPrintable) :
    ∃ b bare, scan c.print = [b] ∧ scan c.bare.print = [bare] ∧
      b.properties.map (·.name) = bare.properties.map (·.name) ∧
      b.initializer.map Method.unplaced = bare.initializer.map Method.unplaced ∧
      b.methods.map Method.unplaced = bare.methods.map Method.unplaced ∧
      b.IsReadOf c := by
  obtain ⟨b, hscan, hb⟩ := exists_isReadOf hc
  obtain ⟨bare, hbare, hread⟩ := exists_isReadOf (isPrintable_bare hc)
  refine ⟨b, bare, hscan, hbare, ?_, ?_, ?_, hb⟩
  · rw [hb.fieldNames, hread.fieldNames, fieldNames_bare]
  · rw [hb.initializer, hread.initializer, methods_bare]
  · rw [hb.methods, hread.methods, methods_bare]

def fanText : RemarkedClass :=
  { name := "Fan"
    members :=
      [.property ⟨"speed", "[2,\n  3]", true, ⟨0, 0⟩⟩ (some " don't (go [faster"),
        .property ⟨"turn", "(e) =>\n  e.angle", false, ⟨0, 0⟩⟩ (some " radians, see `Wind`"),
        .arrow ⟨"spin", false, "n", "  return n; // turns\n"⟩ (some " \x7bslow\x7d; then ="),
        .method ⟨"rest", .getter, true, "", " return \"stop\"; // \x7d\n", ⟨0, 0⟩⟩] }

theorem isPrintable_fanText : fanText.IsPrintable := by
  refine ⟨by decide, fun m hm => ?_⟩
  rcases List.mem_cons.mp hm with rfl | hm
  · refine ⟨⟨by decide, by decide, by decide +kernel, by decide +kernel, by decide +kernel,
      by decide +kernel, by decide +kernel⟩, ?_⟩
    rintro c ⟨⟩
    exact ⟨by decide, ⟨some (State.start.run "'"), by decide +kernel, by decide⟩, by decide +kernel⟩
  rcases List.mem_cons.mp hm with rfl | hm
  · refine ⟨⟨by decide, by decide, by decide +kernel, by decide +kernel, by decide +kernel,
      by decide +kernel, by decide +kernel⟩, ?_⟩
    rintro c ⟨⟩
    exact ⟨by decide, ⟨none, by decide +kernel, by decide⟩, by decide +kernel⟩
  rcases List.mem_cons.mp hm with rfl | hm
  · refine ⟨⟨by decide, by decide +kernel, by decide +kernel, ?_, by decide +kernel⟩, ?_⟩
    · exact openAfter?_of_isClosed (by decide +kernel) (by decide +kernel)
    · rintro c ⟨⟩
      exact ⟨by decide, ⟨none, by decide +kernel, by decide⟩, by decide⟩
  obtain rfl := List.mem_singleton.mp hm
  exact ⟨by decide, by decide, by decide +kernel, by decide +kernel⟩

theorem scan_remarked_fanText :
    fanText.IsPrintable ∧ fanText.fieldNames = ["speed", "turn", "spin"] ∧
      ∃ b bare, scan fanText.print = [b] ∧ scan fanText.bare.print = [bare] ∧
        b.properties.map (·.name) = bare.properties.map (·.name) ∧
        b.initializer.map Method.unplaced = bare.initializer.map Method.unplaced ∧
        b.methods.map Method.unplaced = bare.methods.map Method.unplaced ∧
        b.IsReadOf fanText :=
  ⟨isPrintable_fanText, by decide, scan_remarked isPrintable_fanText⟩

-- A remark that opens a bracket takes the next field with it.
example : (scan "class N \x7b\na = 1 // (\nb = 2\n\x7d").map (·.properties.map (·.name)) =
    ([["a"]] : List (List Text)) := by
  decide +kernel

end ClassBlock

end CanvasPage
