import CanvasPage.ClassBlock.Scan
import CanvasPage.Proofs.ClassBlock.Words
import CanvasPage.Proofs.Pattern.Taken

namespace CanvasPage.Member

open Pattern

variable {α : Type} {k : Progress → Option α} {before t rest name : Text} {width : Nat}
  {groups : List (Nat × Capture)} {names : List Text} {a : α}

theorem run_modifiers (names : List Text) (p : Progress) (k : Progress → Option α) :
    (modifiers names).run p k = (many (word names)).run p fun q => k (q.close 1 p) := by
  rw [modifiers, run_group]
  rfl

theorem startsName_iff (c : Char) :
    (Text.isAsciiLetter c || ("_$#" : Text).contains c) =
      ((Text.isAsciiLetter c || c == '_' || c == '$') || c == '#') := by
  have hchars : ("_$#" : Text) = ['_', '$', '#'] := rfl
  rw [hchars, Bool.eq_iff_iff]
  simp [or_assoc]

theorem run_memberName (hname : Text.isIdentifier name = true)
    (hrest : ∀ c ∈ rest.head?, Text.continuesIdentifier c = false)
    (hk : k ⟨⟨name.reverse ++ before, rest⟩, width + name.length,
      (2, ⟨⟨before, name ++ rest⟩, name.length⟩) :: groups⟩ = some a) :
    memberName.run ⟨⟨before, name ++ rest⟩, width, groups⟩ k = some a := by
  cases name with
  | nil => simp [Text.isIdentifier] at hname
  | cons c name =>
    rw [Text.isIdentifier, Bool.and_eq_true, List.all_eq_true] at hname
    have hstart : (Text.isAsciiLetter c || ("_$#" : Text).contains c) = true := by
      rw [startsName_iff, hname.1, Bool.true_or]
    rw [memberName, run_group, run_append, List.cons_append, run_one_cons, if_pos hstart]
    apply run_many_one_longest hname.2 hrest
    rw [List.reverse_cons, List.append_assoc, List.singleton_append, List.length_cons] at hk
    have hwidth : width + 1 + name.length = width + (name.length + 1) := by omega
    have hcapture : width + (name.length + 1) - width = name.length + 1 := by omega
    simp only [Progress.close, hwidth, hcapture]
    exact hk

theorem run_memberName_eq_none {c : Char} (hc : Text.continuesIdentifier c = false)
    (hhash : c ≠ '#') : memberName.run ⟨⟨before, c :: rest⟩, width, groups⟩ k = none := by
  have hstart : ¬(Text.isAsciiLetter c || ("_$#" : Text).contains c) = true := by
    intro h
    rw [startsName_iff, Bool.or_eq_true] at h
    rcases h with h | h
    · rw [Text.continuesIdentifier_of_starts h] at hc
      cases hc
    · exact hhash (beq_iff_eq.mp h)
  rw [memberName, run_group, run_append, run_one_cons, if_neg hstart]

def methodWords : List Text :=
  ["public", "private", "protected", "static", "async", "override", "get", "set"]

theorem areWords_methodWords : AreWords methodWords := by
  unfold AreWords
  decide

def propertyWords : List Text :=
  ["public", "private", "protected", "readonly", "static", "declare", "override"]

theorem areWords_propertyWords : AreWords propertyWords := by
  unfold AreWords
  decide

theorem head?_isIdentifier (hname : Text.isIdentifier name = true) (rest : Text) :
    ∀ c ∈ (name ++ rest).head?, Text.continuesIdentifier c = true := by
  obtain ⟨c, u, rfl⟩ := List.exists_cons_of_ne_nil (Text.ne_nil_of_isIdentifier hname)
  intro d hd
  obtain rfl : c = d := by simpa using hd
  exact Text.continuesIdentifier_of_isIdentifier hname c (by simp)

theorem run_methodHeader {ws : List Text} (hws : ∀ w ∈ ws, w ∈ methodWords)
    (hname : Text.isIdentifier name = true) (rest : Text) :
    methodHeader.run ⟨⟨[], joinWords ws ++ (name ++ '(' :: rest)⟩, 0, []⟩ some =
      some ⟨⟨'(' :: (name.reverse ++ (joinWords ws).reverse), rest⟩,
        (joinWords ws).length + name.length + 1,
        [(2, ⟨⟨(joinWords ws).reverse, name ++ '(' :: rest⟩, name.length⟩),
          (1, ⟨⟨[], joinWords ws ++ (name ++ '(' :: rest)⟩, (joinWords ws).length⟩)]⟩ := by
  have hchars := Text.continuesIdentifier_of_isIdentifier hname
  have hfirst := head?_isIdentifier hname ('(' :: rest)
  have hblank : ∀ c ∈ (name ++ '(' :: rest).head?, Text.isBlank c = false :=
    fun c hc => Text.isBlank_of_continuesIdentifier (hfirst c hc)
  have hstar : (name ++ '(' :: rest).head? ≠ some '*' := by
    intro h
    have hcontinues := hfirst '*' h
    revert hcontinues
    decide
  have hparen : ∀ c ∈ ('(' :: rest).head?, Text.isBlank c = false :=
    forall_mem_head?_cons (by decide) rest
  rw [methodHeader]
  simp only [run_append]
  rw [run_modifiers]
  apply run_words areWords_methodWords hws hblank
  rw [run_words_stop areWords_methodWords hchars (by decide) (by decide)]
  dsimp only [Progress.close]
  rw [run_optional_skip (ends_literal_eq_nil rfl hstar), run_blanks_stop hblank]
  apply run_memberName hname (forall_mem_head?_cons (by decide) rest)
  have hless : ∀ before width groups,
      ("<" ++ many (noneOf ">()") ++ ">" : Pattern).ends ⟨⟨before, '(' :: rest⟩, width, groups⟩ =
        [] :=
    fun _ _ _ => rfl
  rw [run_blanks_stop hparen, run_optional_skip (hless _ _ _), run_blanks_stop hparen,
    List.append_nil, Nat.sub_zero, Nat.zero_add]
  rfl

theorem ne_of_test {test : Char → Bool} {d : Char} (h : test d = false) :
    ∀ c, test c = true → c ≠ d := by
  intro c hc hd
  rw [hd, h] at hc
  cases hc

theorem takesOnly_blanks {d : Char} (h : Text.isBlank d = false) :
    blanks.TakesOnly (· ≠ d) :=
  ne_of_test h

theorem takesOnly_modifiers {d : Char} (hnames : AreWords names)
    (hd : Text.continuesIdentifier d = false) (hblank : Text.isBlank d = false) :
    (modifiers names).TakesOnly (· ≠ d) := by
  refine ⟨takesOnly_anyOf ?_, ne_of_test hblank, ne_of_test hblank⟩
  intro pattern hp
  obtain ⟨n, hn, rfl⟩ := List.mem_map.mp hp
  apply takesOnly_literal
  intro c hc
  exact ne_of_test hd c ((hnames n hn).2 c hc)

theorem takesOnly_memberName : memberName.TakesOnly (· ≠ '=') :=
  ⟨ne_of_test (by decide), ne_of_test (by decide)⟩

theorem run_methodHeader_eq_none {u : Text} (hless : '<' ∉ u) (hparen : '(' ∉ u) (rest : Text) :
    methodHeader.run ⟨⟨before, u ++ '=' :: rest⟩, width, groups⟩ k = none := by
  have hblanks : blanks.TakesOnly (· ≠ '=') := takesOnly_blanks (by decide)
  have hfront : (modifiers methodWords ++ optional "*" ++ blanks ++ memberName ++
      blanks).TakesOnly (· ≠ '=') := by
    refine ⟨⟨⟨⟨?_, ?_⟩, hblanks⟩, takesOnly_memberName⟩, hblanks⟩
    · exact takesOnly_modifiers areWords_methodWords (by decide) (by decide)
    · exact ⟨takesOnly_literal (by decide), trivial⟩
  show (((modifiers methodWords ++ optional "*" ++ blanks ++ memberName ++ blanks) ++
    optional ("<" ++ many (noneOf ">()") ++ ">")) ++ blanks ++ "(" : Pattern).run _ k = none
  rw [run_append, run_append, run_append]
  apply run_eq_none
  intro q hq
  have htakes := takes_of_mem_ends hfront hq
  have hhead := htakes.head?_ne rfl hless (by decide)
  obtain ⟨v, hv, hafter⟩ := htakes.exists_suffix rfl
  rw [run_optional_skip
    (ends_append_eq_nil (ends_append_eq_nil (ends_literal_eq_nil rfl hhead) _) _), ← run_append]
  obtain ⟨⟨qbefore, _⟩, qwidth, qgroups⟩ := q
  obtain rfl := hafter
  exact run_of_ends_eq_nil
    (ends_append_literal_eq_nil hblanks rfl (fun h => hparen (hv.subset h)) (by decide))

theorem run_bodyHeader (rest : Text) :
    bodyHeader.run ⟨⟨[], ' ' :: '\x7b' :: rest⟩, 0, []⟩ some =
      some ⟨⟨['\x7b', ' '], rest⟩, 2, []⟩ := by
  have htype : ∀ before width groups, (":" ++ many1 (noneOf "\x7b;=") : Pattern).ends
      ⟨⟨before, '\x7b' :: rest⟩, width, groups⟩ = [] :=
    fun _ _ _ => rfl
  have hbrace : ∀ c ∈ ('\x7b' :: rest).head?, Text.isBlank c = false :=
    forall_mem_head?_cons (by decide) rest
  rw [bodyHeader]
  simp only [run_append]
  apply run_blanks_longest (u := [' ']) (by decide) hbrace
  rw [run_optional_skip (htype _ _ _)]
  rfl

theorem run_words_name (hnames : AreWords names)
    (hname : ∀ x ∈ name, Text.continuesIdentifier x = true)
    (hk : ∀ before width, k ⟨⟨before, '=' :: rest⟩, width, groups⟩ = none) :
    (many (word names)).run ⟨⟨before, name ++ ' ' :: '=' :: rest⟩, width, groups⟩ k =
      k ⟨⟨before, name ++ ' ' :: '=' :: rest⟩, width, groups⟩ := by
  rw [run_many, run_word_eq_none, Option.none_or]
  intro n hn c r hr hc
  have hstop := Text.not_continuesIdentifier_of_isBlank hc
  obtain ⟨-, -, rfl⟩ := eq_of_append_cons hname (hnames n hn).2 (by decide) hstop hr
  rw [run_blanks_stop (forall_mem_head?_cons (by decide) rest)]
  split
  · have hstay : (many (word names)).run
        ⟨⟨c :: (n.reverse ++ before), [] ++ '=' :: rest⟩, width + n.length + 1, groups⟩ k = _ :=
      run_words_stop hnames (by simp) (by decide) (by decide)
    rw [List.nil_append] at hstay
    rw [hstay, hk]
  · rfl

theorem run_initializedProperty {ws : List Text} (hws : ∀ w ∈ ws, w ∈ propertyWords)
    (hname : Text.isIdentifier name = true) (value : Text) :
    initializedProperty.run
      ⟨⟨[], joinWords ws ++ (name ++ ' ' :: '=' :: ' ' :: value)⟩, 0, []⟩ some =
      some ⟨⟨value.reverse ++ ' ' :: '=' :: ' ' :: (name.reverse ++ (joinWords ws).reverse), []⟩,
        (joinWords ws).length + name.length + 3 + value.length,
        [(3, ⟨⟨'=' :: ' ' :: (name.reverse ++ (joinWords ws).reverse), ' ' :: value⟩,
            value.length + 1⟩),
          (2, ⟨⟨(joinWords ws).reverse, name ++ ' ' :: '=' :: ' ' :: value⟩, name.length⟩),
          (1, ⟨⟨[], joinWords ws ++ (name ++ ' ' :: '=' :: ' ' :: value)⟩,
            (joinWords ws).length⟩)]⟩ := by
  have hchars := Text.continuesIdentifier_of_isIdentifier hname
  have hblank : ∀ c ∈ (name ++ ' ' :: '=' :: ' ' :: value).head?, Text.isBlank c = false :=
    fun c hc => Text.isBlank_of_continuesIdentifier (head?_isIdentifier hname _ c hc)
  have hequals : ∀ c ∈ ('=' :: ' ' :: value).head?, Text.isBlank c = false :=
    forall_mem_head?_cons (by decide) _
  rw [initializedProperty]
  simp only [run_append]
  rw [run_modifiers]
  apply run_words areWords_propertyWords hws hblank
  rw [run_words_name areWords_propertyWords hchars
    (fun _ _ => run_memberName_eq_none (by decide) (by decide))]
  dsimp only [Progress.close]
  apply run_memberName hname (forall_mem_head?_cons (by decide) _)
  apply run_blanks_longest (u := [' ']) (by decide) hequals
  have hmark : ∀ before width groups, (oneOf "?!").ends
      ⟨⟨before, '=' :: ' ' :: value⟩, width, groups⟩ = [] := fun _ _ _ => rfl
  have htype : ∀ before width groups, (":" ++ many1 (noneOf "=") : Pattern).ends
      ⟨⟨before, '=' :: ' ' :: value⟩, width, groups⟩ = [] := fun _ _ _ => rfl
  rw [run_optional_skip (hmark _ _ _), run_blanks_stop hequals, run_optional_skip (htype _ _ _)]
  have hliteral : ("=" : Text) = ['='] := rfl
  rw [hliteral, run_literal_singleton, run_group, run_append, noneOf, run_one_cons,
    if_pos (by decide)]
  apply run_many_anyChar
  rw [run_inputEnd rfl]
  have hwidth : 0 + (joinWords ws).length + name.length + [' '].length + 1 + 1 + value.length =
      (joinWords ws).length + name.length + 3 + value.length := by
    rw [Nat.zero_add]
    rfl
  have hcapture : 0 + (joinWords ws).length + name.length + [' '].length + 1 + 1 + value.length -
      (0 + (joinWords ws).length + name.length + [' '].length + 1) = value.length + 1 := by
    omega
  dsimp only [Progress.close]
  rw [hcapture, hwidth, List.append_nil, Nat.zero_add, Nat.sub_zero]
  rfl

end CanvasPage.Member

namespace CanvasPage.ClassBlock

open Pattern

variable {before name : Text}

theorem run_identifier {α : Type} {k : Progress → Option α} {rest : Text} {width : Nat}
    {groups : List (Nat × Capture)} {a : α} (hname : Text.isIdentifier name = true)
    (hrest : ∀ c ∈ rest.head?, Text.continuesIdentifier c = false)
    (hk : k ⟨⟨name.reverse ++ before, rest⟩, width + name.length, groups⟩ = some a) :
    Candidate.identifier.run ⟨⟨before, name ++ rest⟩, width, groups⟩ k = some a := by
  cases name with
  | nil => simp [Text.isIdentifier] at hname
  | cons c name =>
    rw [Text.isIdentifier, Bool.and_eq_true, List.all_eq_true] at hname
    rw [Candidate.identifier, run_append, List.cons_append, Candidate.identifierStart,
      run_one_cons, if_pos hname.1]
    apply run_many_one_longest hname.2 hrest
    rw [List.reverse_cons, List.append_assoc, List.singleton_append, List.length_cons] at hk
    rwa [Nat.add_assoc, Nat.add_comm 1]

theorem run_header (hbefore : ∀ c ∈ before.head?, Text.isWordChar c = false)
    (hname : Text.isIdentifier name = true) (rest : Text) :
    header.run ⟨⟨before, "class " ++ (name ++ ' ' :: '\x7b' :: rest)⟩, 0, []⟩ some =
      some ⟨⟨'\x7b' :: ' ' :: (name.reverse ++ (("class " : Text).reverse ++ before)), rest⟩,
        name.length + 8,
        [(1, ⟨⟨("class " : Text).reverse ++ before, name ++ ' ' :: '\x7b' :: rest⟩,
          name.length⟩)]⟩ := by
  have hblank : ∀ c ∈ (name ++ ' ' :: '\x7b' :: rest).head?, Text.isBlank c = false :=
    fun c hc => Text.isBlank_of_continuesIdentifier (Member.head?_isIdentifier hname _ c hc)
  have hbrace : ∀ c ∈ ('\x7b' :: rest).head?, Text.isBlank c = false :=
    forall_mem_head?_cons (by decide) rest
  have hblanks : blanks.TakesOnly (· ≠ '\x7b') := Member.takesOnly_blanks (by decide)
  have hblanks1 : blanks1.TakesOnly (· ≠ '\x7b') := ⟨hblanks, hblanks⟩
  have hless : ∀ before width groups,
      (blanks ++ "<" : Pattern).ends ⟨⟨before, ' ' :: '\x7b' :: rest⟩, width, groups⟩ = [] :=
    fun _ _ _ => ends_append_literal_eq_nil (u := [' ']) hblanks rfl (by decide) (by decide)
  have hextends : ∀ before width groups,
      (blanks1 ++ "extends" : Pattern).ends
        ⟨⟨before, ' ' :: '\x7b' :: rest⟩, width, groups⟩ = [] :=
    fun _ _ _ => ends_append_literal_eq_nil (u := [' ']) hblanks1 rfl (by decide) (by decide)
  have himplements : ∀ before width groups,
      (blanks1 ++ "implements" : Pattern).ends
        ⟨⟨before, ' ' :: '\x7b' :: rest⟩, width, groups⟩ = [] :=
    fun _ _ _ => ends_append_literal_eq_nil (u := [' ']) hblanks1 rfl (by decide) (by decide)
  have hclass : ("class " : Text) = ("class" : Text) ++ [' '] := rfl
  have hboundary : Cursor.atWordBoundary
      ⟨before, "class " ++ (name ++ ' ' :: '\x7b' :: rest)⟩ = true :=
    atWordBoundary_start hbefore (by decide)
  rw [header]
  simp only [run_append]
  rw [run_wordBoundary hboundary, hclass, List.append_assoc,
    run_literal_append, List.singleton_append, run_blanks1_cons, if_pos (by decide),
    run_blanks_stop hblank, run_group]
  apply run_identifier hname (forall_mem_head?_cons (by decide) _)
  dsimp only [Progress.close]
  rw [run_optional_skip (ends_append_eq_nil (ends_append_eq_nil (hless _ _ _) _) _),
    run_optional_skip (ends_append_eq_nil (ends_append_eq_nil (ends_append_eq_nil
      (hextends _ _ _) _) _) _),
    run_optional_skip (ends_append_eq_nil (ends_append_eq_nil (himplements _ _ _) _) _)]
  apply run_blanks_longest (u := [' ']) (by decide) hbrace
  have hwidth : 0 + ("class" : Text).length + 1 + name.length + [' '].length + 1 =
      name.length + 8 := by
    simp
    omega
  have hcapture : 0 + ("class" : Text).length + 1 + name.length -
      (0 + ("class" : Text).length + 1) = name.length := by
    omega
  rw [hcapture, ← hwidth]
  rfl

end CanvasPage.ClassBlock
