import CanvasPage.Proofs.ClassBlock.Member
import CanvasPage.Proofs.Pattern.LineBreaks
import CanvasPage.Proofs.Script.LineBreaks

namespace CanvasPage.Member

open Pattern Script Text

section Patterns

theorem ne_lineBreak_of_continuesIdentifier {c : Char} (h : continuesIdentifier c = true) :
    '\r' ≠ c ∧ '\n' ≠ c := by
  constructor <;> (rintro rfl; exact absurd h (by decide))

theorem isFirm_word {names : List Text} (h : AreWords names) :
    IsFirm (anyOf (names.map literal)) := by
  refine isFirm_anyOf fun p hp => ?_
  obtain ⟨w, hw, rfl⟩ := List.mem_map.mp hp
  obtain ⟨hne, hchars⟩ := h w hw
  exact isFirm_literal hne
    (fun hr => (ne_lineBreak_of_continuesIdentifier (hchars _ hr)).1 rfl)
    (fun hn => (ne_lineBreak_of_continuesIdentifier (hchars _ hn)).2 rfl)

theorem isLoose_blanks1 : IsLoose blanks1 :=
  isLoose_one_append_many rfl rfl id

theorem isSteady_blanks : IsSteady blanks := isSteady_many_one rfl

theorem advances_append_blanks1 (p : Pattern) (r : Progress) :
    ∀ s ∈ (p ++ blanks1).ends r, r.width < s.width := by
  intro s hs
  obtain ⟨w, gs, -, -, hwidth, -, hread⟩ := advances_of_mem_ends hs
  obtain ⟨u, v, hs, is, rfl, -, -, hv⟩ := reads_append.mp hread
  have hpos := List.length_pos_iff.mpr (reads_blanks1.mp hv).1
  rw [hwidth, List.length_append]
  omega

theorem isLoose_modifiers {names : List Text} (h : AreWords names) : IsLoose (modifiers names) :=
  (isSteady_many_append (isFirm_word h) isLoose_blanks1
    (advances_append_blanks1 _)).isLoose.group 1

theorem isFirm_string {s : String} (h : s.toList ≠ [] ∧ '\r' ∉ s.toList ∧ '\n' ∉ s.toList) :
    IsFirm (s : Pattern) :=
  isFirm_literal h.1 h.2.1 h.2.2

theorem isFirm_memberName : IsFirm memberName :=
  IsFirm.group (IsFirm.append (isFirm_one rfl rfl) (isSolid_many_one rfl rfl)) 2

theorem isLoose_methodHeader : IsLoose methodHeader := by
  have hmodifiers : IsLoose (modifiers methodWords) := isLoose_modifiers areWords_methodWords
  have hstar : IsSteady (optional "*") := (isFirm_string (by decide)).isSteady.optional
  have htypes : IsSteady (optional ("<" ++ many (noneOf ">()") ++ ">")) := by
    refine IsSteady.optional (IsSteady.append (IsSteady.append ?_ ?_) ?_)
    · exact (isFirm_string (by decide)).isSteady
    · exact isSteady_many_one rfl
    · exact (isFirm_string (by decide)).isSteady
  exact ((((((hmodifiers.append hstar).append isSteady_blanks).append
    isFirm_memberName.isSteady).append isSteady_blanks).append htypes).append
    isSteady_blanks).append (isFirm_string (by decide)).isSteady

theorem isLoose_bodyHeader : IsLoose bodyHeader := by
  have hmany1 : IsLoose (many1 (noneOf "\x7b;=")) := isLoose_one_append_many rfl rfl id
  have htype : IsSteady (optional (":" ++ many1 (noneOf "\x7b;="))) :=
    (IsFirm.appendLoose (isFirm_string (by decide)) hmany1).optional
  exact ((isSteady_blanks.append htype).append (isFirm_string (by decide)).isSteady).isLoose

theorem isLoose_initializedProperty : IsLoose initializedProperty := by
  have hmodifiers : IsLoose (modifiers propertyWords) := isLoose_modifiers areWords_propertyWords
  have hmark : IsSteady (optional (oneOf "?!")) :=
    (isFirm_one (by decide) (by decide)).isSteady.optional
  have htype : IsSteady (optional (":" ++ many1 (noneOf "="))) :=
    (IsFirm.appendLoose (isFirm_string (by decide))
      (isLoose_one_append_many (by decide) (by decide) id)).optional
  have hlead := (((((hmodifiers.append isFirm_memberName.isSteady).append isSteady_blanks).append
    hmark).append isSteady_blanks).append htype).appendFirm
      (isFirm_string (s := "=") (by decide))
  have hvalue : IsLoose (group 3 (noneOf ">" ++ many anyChar)) :=
    (isLoose_one_append_many (by decide) (by decide) fun _ => rfl).group 3
  exact (hlead.appendLoose hvalue).append isSteady_inputEnd

end Patterns

end CanvasPage.Member

namespace CanvasPage

open Pattern Script Text

def Method.mapTexts (f : Text → Text) (m : Method) : Method :=
  { m with params := f m.params, body := f m.body }

def Property.mapTexts (f : Text → Text) (p : Property) : Property := { p with value := f p.value }

namespace Member

def mapTexts (f : Text → Text) : Member → Member
  | method m => method (m.mapTexts f)
  | property p => property (p.mapTexts f)

section Methods

/-- Two readings of a method at the start of a text, or of none. -/
inductive ReadAlike (t : Text) : Option (Method × Nat) → Option (Method × Nat) → Prop
  | none : ReadAlike t none none
  | some {m m' : Method} {u v : Text} (h : t = u ++ v) (hu : u ≠ [])
      (hm : m'.unplaced = (m.mapTexts toCrlf).unplaced) :
      ReadAlike t (some (m, u.length)) (some (m', (toCrlf u).length))

theorem takesOnly_memberName_lineFeed : memberName.TakesOnly (· ≠ '\n') := by
  refine ⟨fun c hc => ?_, fun c hc => ?_⟩ <;> (rintro rfl; exact absurd hc (by decide))

theorem confines_modifiers (names : List Text) :
    (modifiers names).Confines 2 (· ≠ '\n') := by
  refine ⟨fun h => absurd h (by decide), ?_, trivial, trivial⟩
  exact confines_anyOf fun p hp => by
    obtain ⟨w, -, rfl⟩ := List.mem_map.mp hp
    exact confines_literal w

theorem confines_methodHeader : methodHeader.Confines 2 (· ≠ '\n') := by
  have hname : memberName.Confines 2 (· ≠ '\n') :=
    ⟨fun _ => takesOnly_memberName_lineFeed, trivial, trivial⟩
  exact ⟨⟨⟨⟨⟨⟨⟨confines_modifiers _, confines_literal _, trivial⟩, trivial⟩, hname⟩, trivial⟩,
    ⟨⟨confines_literal _, trivial⟩, confines_literal _⟩, trivial⟩, trivial⟩, confines_literal _⟩

theorem confines_initializedProperty : initializedProperty.Confines 2 (· ≠ '\n') := by
  have hname : memberName.Confines 2 (· ≠ '\n') :=
    ⟨fun _ => takesOnly_memberName_lineFeed, trivial, trivial⟩
  exact ⟨⟨⟨⟨⟨⟨⟨⟨confines_modifiers _, hname⟩, trivial⟩, trivial, trivial⟩, trivial⟩,
    ⟨confines_literal _, trivial, trivial⟩, trivial⟩, confines_literal _⟩,
    fun h => absurd h (by decide), trivial, trivial⟩, trivial⟩

theorem exists_name {o o' : Option Capture} (h : o'.map Capture.text = o.map fun g => toCrlf g.text)
    (hname : ∀ c ∈ (o.map Capture.text).getD [], c ≠ '\n') :
    o = none ∧ o' = none ∨ ∃ g g', o = some g ∧ o' = some g' ∧ g'.text = g.text := by
  cases o with
  | none =>
    cases o' with
    | none => exact .inl ⟨rfl, rfl⟩
    | some g' => cases h
  | some g =>
    cases o' with
    | none => cases h
    | some g' =>
      have hbreak : '\n' ∉ g.text := fun hc => hname '\n' hc rfl
      refine .inr ⟨g, g', rfl, rfl, ?_⟩
      rw [← toCrlf_of_not_mem hbreak]
      exact Option.some.inj h

theorem enclosed?_eq_append {b : Bracket} {t inside after : Text}
    (h : b.enclosed? t = some (inside, after)) : t = (inside ++ [b.closer]) ++ after := by
  rw [b.eq_of_closeFrom 0 .start t h, List.append_assoc]
  rfl

theorem ReadAlike.of_append {t taken rest : Text} {m m' : Method} (h : t = taken ++ rest)
    (hne : taken ≠ []) (hm : m'.unplaced = (m.mapTexts toCrlf).unplaced) :
    ReadAlike t (Option.some (m, t.length - rest.length))
      (Option.some (m', (toCrlf t).length - (toCrlf rest).length)) := by
  have hwidth : t.length - rest.length = taken.length := by
    rw [h, List.length_append, Nat.add_sub_cancel]
  have hwidth' : (toCrlf t).length - (toCrlf rest).length = (toCrlf taken).length := by
    rw [h, toCrlf_append, List.length_append, Nat.add_sub_cancel]
  rw [hwidth, hwidth']
  exact .some h hne hm

theorem readAlike_toCrlf {t : Text} (h : escapesBreak false t = false) (offset offset' : Nat) :
    ReadAlike t (readMethod? offset t) (readMethod? offset' (toCrlf t)) := by
  rw [readMethod?, readMethod?]
  have hheader := isLoose_methodHeader.atStart? t
  have hname := fun o (ho : methodHeader.atStart? t = some o) =>
    confined_of_at? confines_methodHeader ho
  generalize methodHeader.atStart? t = o at hheader hname
  generalize methodHeader.atStart? (toCrlf t) = o' at hheader
  cases hheader with
  | none => exact .none
  | @some o o' u hu htext hafter hwidth hgroups =>
    simp only [Option.bind_eq_bind, Option.bind_some, hgroups.groupText, words_toCrlf, hafter]
    rcases exists_name (hgroups 2) (hname o rfl) with ⟨hg, hg'⟩ | ⟨g, g', hg, hg', hgtext⟩
    · rw [hg, hg']
      exact .none
    rw [hg, hg']
    simp only [Option.bind_some, hgtext]
    split
    · exact .none
    rw [htext] at h
    have hv := escapesBreak_of_append_left h
    rw [Bracket.enclosed?_toCrlf hv]
    cases hparams : Bracket.paren.enclosed? o.stop.after with
    | none => exact .none
    | some split =>
      obtain ⟨params, w⟩ := split
      have hparams := enclosed?_eq_append hparams
      rw [hparams] at hv
      have hw := escapesBreak_of_append_left hv
      have hbrace := isLoose_bodyHeader.atStart? w
      simp only [Option.map_some, Prod.map_apply, Option.bind_some]
      generalize bodyHeader.atStart? w = p at hbrace
      generalize bodyHeader.atStart? (toCrlf w) = p' at hbrace
      cases hbrace with
      | none => exact .none
      | @some p p' u' hu' hw' hafter' hwidth' hgroups' =>
        rw [hw'] at hw
        simp only [Option.bind_some, hafter', Bracket.enclosed?_toCrlf (escapesBreak_of_append_left hw)]
        cases hbody : Bracket.brace.enclosed? p.stop.after with
        | none => exact .none
        | some split =>
          obtain ⟨body, rest⟩ := split
          have hbody := enclosed?_eq_append hbody
          simp only [Option.map_some, Prod.map_apply, Option.bind_some]
          have ht : t = (u ++ (params ++ [')']) ++ u' ++ (body ++ ['\x7d'])) ++ rest := by
            rw [htext, hparams, hw', hbody]
            simp only [List.append_assoc]
            rfl
          exact .of_append ht (by simp) rfl

end Methods

section Statements

theorem readProperty?_toCrlf (span span' : Span) (t : Text) (tail : Text)
    (htail : tail = [] ∨ tail = ['\r']) :
    (readProperty? span' (toCrlf t ++ tail)).map Property.unplaced =
      (readProperty? span t).map fun p => (p.mapTexts toCrlf).unplaced := by
  have htrim : trim (toCrlf t ++ tail) = toCrlf (trim t) := by
    rcases htail with rfl | rfl
    · rw [List.append_nil, trim_toCrlf]
    · rw [trim_append_of_isBlank (by decide), trim_toCrlf]
  rw [readProperty?, readProperty?, htrim, dropEndWhile_toCrlf (by decide), trim_toCrlf]
  generalize trim (dropEndWhile (· == ';') (trim t)) = u
  have hfound := isLoose_initializedProperty.atStart? u
  have hname := fun o (ho : initializedProperty.atStart? u = some o) =>
    confined_of_at? confines_initializedProperty ho
  generalize initializedProperty.atStart? u = o at hfound hname
  generalize initializedProperty.atStart? (toCrlf u) = o' at hfound
  cases hfound with
  | none => rfl
  | @some o o' w hw htext hafter hwidth hgroups =>
    have hbreak : '\n' ∉ o.groupText 2 := fun hc => hname o rfl '\n' hc rfl
    simp only [Option.bind_eq_bind, Option.bind_some, hgroups.groupText, trim_toCrlf,
      isEmpty_toCrlf, words_toCrlf, toCrlf_of_not_mem hbreak]
    split <;> rfl

theorem toList_property_toCrlf (span span' : Span) (t : Text) (tail : Text)
    (htail : tail = [] ∨ tail = ['\r']) :
    ((readProperty? span' (toCrlf t ++ tail)).map property).toList.map unplaced =
      ((readProperty? span t).map property).toList.map fun m => (m.mapTexts toCrlf).unplaced := by
  have hread := readProperty?_toCrlf span span' t tail htail
  generalize readProperty? span t = p at hread
  generalize readProperty? span' (toCrlf t ++ tail) = p' at hread
  cases p with
  | none =>
    rw [Option.map_eq_none_iff.mp hread]
    rfl
  | some p =>
    obtain ⟨p', rfl, hp⟩ := Option.map_eq_some_iff.mp hread
    simp [unplaced, mapTexts, hp]

theorem continues_cons {c : Char} (h : isBlank c = true) (seen : Text) :
    continues (c :: seen) = continues seen := by
  rw [continues, continues, List.dropWhile_cons_of_pos h]

theorem head?_reverse_toCrlf (u : Text) : (toCrlf u).reverse.head? = u.reverse.head? := by
  rw [List.head?_reverse, List.head?_reverse, getLast?_toCrlf]

theorem continues_congr {c : Char} {seen seen' : Text} (hc : isBlank c = false)
    (h : seen.head? = seen'.head?) : continues (c :: seen) = continues (c :: seen') := by
  have hdrop : ∀ l : Text, (c :: l).dropWhile isBlank = c :: l :=
    fun l => List.dropWhile_cons_of_neg (by simp [hc])
  rw [continues, continues, hdrop, hdrop]
  cases seen with
  | nil =>
    cases seen' with
    | nil => rfl
    | cons d seen' => cases h
  | cons d seen =>
    cases seen' with
    | nil => cases h
    | cons e seen' =>
      obtain rfl := Option.some.inj h
      split <;> split <;> simp_all

theorem continues_reverse_toCrlf (u : Text) :
    continues (toCrlf u).reverse = continues u.reverse := by
  induction u using List.reverseRecOn with
  | nil => rfl
  | append_singleton u c ih =>
    by_cases hc : c = '\n'
    · subst hc
      have hbreak : (toCrlf (u ++ ['\n'])).reverse = '\n' :: '\r' :: (toCrlf u).reverse := by simp
      have hplain : (u ++ ['\n']).reverse = '\n' :: u.reverse := by simp
      rw [hbreak, hplain, continues_cons (by decide), continues_cons (by decide), ih,
        continues_cons (by decide)]
    · have hkept : (toCrlf (u ++ [c])).reverse = c :: (toCrlf u).reverse := by
        simp [toCrlf_cons hc]
      have hplain : (u ++ [c]).reverse = c :: u.reverse := by simp
      rw [hkept, hplain]
      cases hblank : isBlank c with
      | true => rw [continues_cons hblank, continues_cons hblank, ih]
      | false =>
        exact continues_congr hblank (head?_reverse_toCrlf u)

/-- How far two readings of a statement go. The second may stop after a carriage return. -/
inductive EndsAlike (t : Text) : Nat → Nat → Prop
  | all : EndsAlike t t.length (toCrlf t).length
  | before {u v : Text} {c : Char} (hc : c ≠ '\n') (h : t = u ++ c :: v) :
      EndsAlike t u.length (toCrlf u).length
  | atBreak {u v : Text} (h : t = u ++ '\n' :: v) :
      EndsAlike t u.length ((toCrlf u).length + 1)

theorem EndsAlike.cons {c : Char} {t : Text} {n n' : Nat} (hc : c ≠ '\n') (h : EndsAlike t n n') :
    EndsAlike (c :: t) (1 + n) (1 + n') := by
  have hwidth : ∀ u : Text, 1 + (toCrlf u).length = (toCrlf (c :: u)).length := by
    intro u
    rw [toCrlf_cons hc, List.length_cons, Nat.add_comm]
  have hlength : ∀ u : Text, 1 + u.length = (c :: u).length := fun u => Nat.add_comm 1 u.length
  cases h with
  | all =>
    rw [hlength, hwidth]
    exact .all
  | before hd h =>
    rw [hlength, hwidth]
    exact .before hd (congrArg (c :: ·) h)
  | atBreak h =>
    rw [hlength, ← Nat.add_assoc, hwidth]
    exact .atBreak (congrArg (c :: ·) h)

theorem EndsAlike.lineFeed {t : Text} {n n' : Nat} (h : EndsAlike t n n') :
    EndsAlike ('\n' :: t) (1 + n) (1 + (1 + n')) := by
  have hwidth : ∀ u : Text, 1 + (1 + (toCrlf u).length) = (toCrlf ('\n' :: u)).length := by
    intro u
    rw [toCrlf_lineFeed, List.length_cons, List.length_cons]
    omega
  have hlength : ∀ u : Text, 1 + u.length = ('\n' :: u).length := fun u => Nat.add_comm 1 u.length
  cases h with
  | all =>
    rw [hlength, hwidth]
    exact .all
  | before hd h =>
    rw [hlength, hwidth]
    exact .before hd (congrArg ('\n' :: ·) h)
  | atBreak h =>
    rw [hlength, ← Nat.add_assoc, ← Nat.add_assoc, Nat.add_assoc 1 1, hwidth]
    exact .atBreak (congrArg ('\n' :: ·) h)

theorem isCode_step_carriageReturn {s : State} {t : Text} (h : s.Fits ('\n' :: t))
    (hs : s.isCode = false) : (s.step '\r').isCode = false := by
  obtain ⟨mode, nesting⟩ := s
  cases mode with
  | code | slash =>
    cases nesting with
    | nil => cases hs
    | cons braces outer => rfl
  | quoted q =>
    have hq : '\r' ≠ q := by
      rintro rfl
      exact absurd h.1 (by decide)
    simpa [State.step, hq] using hs
  | quotedEscape q => exact absurd rfl h.2.1
  | lineComment | blockComment | blockCommentStar | template | templateEscape | templateDollar =>
    exact Bool.and_false _

theorem isCode_start_step {c : Char} (h : (isQuote c || isBacktick c) = true) :
    (State.start.step c).isCode = false := by
  rw [Bool.or_eq_true] at h
  by_cases hquote : isQuote c = true
  · simp [State.start, State.step, stepCode, hquote, State.isCode]
  · have htick := h.resolve_left hquote
    simp [State.start, State.step, stepCode, hquote, htick, State.isCode]

theorem statementWidth_lineFeed (depth : Nat) (seen t : Text) :
    statementWidth depth seen none ('\n' :: t) =
      if depth == 0 && !continues seen then 0
      else 1 + statementWidth depth ('\n' :: seen) none t := rfl

theorem statementWidth_carriageReturn (depth : Nat) (seen t : Text) :
    statementWidth depth seen none ('\r' :: t) =
      1 + statementWidth depth ('\r' :: seen) none t := by
  rw [statementWidth]
  have hstop : ¬(depth == 0 && ('\r' == ';' || ('\r' == '\n' && !continues seen))) = true := by
    rw [Bool.and_eq_true]
    exact fun h => absurd h.2 Bool.false_ne_true
  rw [Option.map_none]
  dsimp only
  rw [if_neg hstop]
  rfl

/-- Wherever in a statement the text stands, the statement ends alike with either line ending. -/
def EndsAlikeIn (t : Text) : Prop :=
  ∀ (u : Text) (string : Option State) (depth : Nat),
    (∀ s ∈ string, s.Fits t ∧ s.isCode = false) →
      EndsAlike t (statementWidth depth u.reverse string t)
        (statementWidth depth (toCrlf u).reverse string (toCrlf t))

theorem EndsAlikeIn.lineFeed {t : Text} (h : EndsAlikeIn t) : EndsAlikeIn ('\n' :: t) := by
  intro u string depth hstring
  have hseen : '\n' :: u.reverse = (u ++ ['\n']).reverse := by simp
  have hseen' : '\n' :: '\r' :: (toCrlf u).reverse = (toCrlf (u ++ ['\n'])).reverse := by simp
  have hcontinues : continues ('\r' :: (toCrlf u).reverse) = continues u.reverse :=
    (continues_cons (by decide) _).trans (continues_reverse_toCrlf u)
  cases string with
  | none =>
    rw [toCrlf_lineFeed, statementWidth_lineFeed, statementWidth_carriageReturn,
      statementWidth_lineFeed, hcontinues, hseen, hseen']
    split
    · exact .atBreak (u := []) rfl
    · exact (h _ none depth (by simp)).lineFeed
  | some s =>
    obtain ⟨hfits, hcode⟩ := hstring s rfl
    obtain ⟨-, hstep⟩ := State.step_carriageReturn hfits
    rw [toCrlf_lineFeed, statementWidth, statementWidth, Option.map_some, Option.map_some]
    simp only [isCode_step_carriageReturn hfits hcode, Bool.not_false, if_true]
    rw [statementWidth, Option.map_some, hstep, hcontinues, hseen, hseen']
    dsimp only
    cases hcode : (s.step '\n').isCode with
    | false =>
      refine (h _ _ depth ?_).lineFeed
      rintro s ⟨⟩
      exact ⟨State.fits_step hfits, hcode⟩
    | true =>
      simp only [Bool.not_true, bne_self_eq_false, Bool.false_eq_true, if_false]
      split
      · exact .atBreak (u := []) rfl
      · exact (h _ none depth (by simp)).lineFeed

theorem EndsAlikeIn.cons {c : Char} {t : Text} (hc : c ≠ '\n')
    (hplain : escapesBreak false (c :: t) = false) (h : EndsAlikeIn t) : EndsAlikeIn (c :: t) := by
  intro u string depth hstring
  have hseen : c :: u.reverse = (u ++ [c]).reverse := by simp
  have hseen' : c :: (toCrlf u).reverse = (toCrlf (u ++ [c])).reverse := by simp [toCrlf_cons hc]
  have hne : (c != '\n') = true := bne_iff_ne.mpr hc
  rw [toCrlf_cons hc, statementWidth, statementWidth, hseen, hseen']
  cases string with
  | none =>
    simp only [Option.map_none, beq_false_of_ne hc, Bool.false_and, Bool.or_false]
    split
    · exact .before (u := []) hc rfl
    · refine (h _ _ _ ?_).cons hc
      intro s hs
      split at hs
      · rename_i hquote
        obtain rfl := Option.some.inj hs
        exact ⟨State.fits_step (State.fits_start hplain), isCode_start_step hquote⟩
      · cases hs
  | some s =>
    obtain ⟨hfits, -⟩ := hstring s rfl
    simp only [Option.map_some, hne, if_true]
    cases hcode : (s.step c).isCode with
    | false =>
      refine (h _ _ depth ?_).cons hc
      rintro s ⟨⟩
      exact ⟨State.fits_step hfits, hcode⟩
    | true => exact (h _ none depth (by simp)).cons hc

theorem endsAlikeIn_of_escapesBreak {t : Text} (hplain : escapesBreak false t = false) :
    EndsAlikeIn t := by
  induction t with
  | nil => exact fun _ _ _ _ => .all
  | cons c t ih =>
    have hrest := ih (escapesBreak_false (escapesBreak_tail hplain))
    by_cases hc : c = '\n'
    · subst hc
      exact hrest.lineFeed
    · exact hrest.cons hc hplain

end Statements

section Trivia

theorem drop_takeWhile_toCrlf (t : Text) :
    (toCrlf t).drop (((toCrlf t).takeWhile (· != '\n')).length + 1) =
      toCrlf (t.drop ((t.takeWhile (· != '\n')).length + 1)) := by
  induction t with
  | nil => rfl
  | cons c t ih =>
    by_cases hc : c = '\n'
    · subst hc
      rfl
    · have hne : (c != '\n') = true := bne_iff_ne.mpr hc
      rw [toCrlf_cons hc]
      simp only [List.takeWhile_cons, hne, if_true, List.length_cons, List.drop_succ_cons]
      exact ih

theorem blockCommentWidth_cons {c : Char} {t : Text} (h : c ≠ '*' ∨ t.head? ≠ some '/') :
    blockCommentWidth (c :: t) = 1 + blockCommentWidth t := by
  rw [blockCommentWidth]
  rintro rest rfl rfl
  rcases h with h | h <;> exact h rfl

theorem head?_toCrlf_eq_some {c : Char} (hr : c ≠ '\r') (hn : c ≠ '\n') (t : Text) :
    (toCrlf t).head? = some c ↔ t.head? = some c := by
  cases t with
  | nil => rfl
  | cons d t =>
    by_cases hd : d = '\n'
    · subst hd
      simp [hr.symm, hn.symm]
    · rw [toCrlf_cons hd]
      rfl

theorem drop_blockCommentWidth_toCrlf (t : Text) :
    (toCrlf t).drop (blockCommentWidth (toCrlf t)) = toCrlf (t.drop (blockCommentWidth t)) := by
  induction t with
  | nil => rfl
  | cons c t ih =>
    by_cases hc : c = '\n'
    · subst hc
      rw [toCrlf_lineFeed, blockCommentWidth_cons (.inl (by decide)),
        blockCommentWidth_cons (.inl (by decide)), blockCommentWidth_cons (.inl (by decide)),
        Nat.add_comm 1, Nat.add_comm 1, Nat.add_comm 1, List.drop_succ_cons, List.drop_succ_cons,
        List.drop_succ_cons, ih]
    · rw [toCrlf_cons hc]
      by_cases hend : c = '*' ∧ t.head? = some '/'
      · obtain ⟨rfl, hhead⟩ := hend
        cases t with
        | nil => cases hhead
        | cons d t =>
          obtain rfl := Option.some.inj hhead
          rfl
      · have hend' : c ≠ '*' ∨ (toCrlf t).head? ≠ some '/' := by
          rw [Ne, Ne, head?_toCrlf_eq_some (by decide) (by decide)]
          exact not_and_or.mp hend
        rw [blockCommentWidth_cons (not_and_or.mp hend), blockCommentWidth_cons hend',
          Nat.add_comm 1, Nat.add_comm 1, List.drop_succ_cons, List.drop_succ_cons, ih]

def isDecoratorChar (c : Char) : Bool := isIdentifierChar c || c == '.'

theorem takeWhile_append_of_head? {p : Char → Bool} {u v : Text} (hu : ∀ c ∈ u, p c = true)
    (hv : ∀ c ∈ v.head?, p c = false) : (u ++ v).takeWhile p = u := by
  rw [List.takeWhile_append_of_pos hu]
  cases v with
  | nil => simp
  | cons c v => rw [List.takeWhile_cons_of_neg (by simp [hv c rfl]), List.append_nil]

section Decorators

variable {name v : Text} (hname : ∀ c ∈ name, isDecoratorChar c = true)

include hname

theorem drop_decoratorWidth_plain (hv : ∀ c ∈ v.head?, isDecoratorChar c = false)
    (hparen : v.head? ≠ some '(') : (name ++ v).drop (decoratorWidth (name ++ v)) = v := by
  have htake := takeWhile_append_of_head? hname hv
  unfold isDecoratorChar at htake
  rw [decoratorWidth, htake, List.drop_left]
  split
  · exact absurd rfl hparen
  · exact List.drop_left

theorem decoratorWidth_arguments : decoratorWidth (name ++ '(' :: v) =
    match Bracket.paren.enclosed? v with
    | some (arguments, _) => name.length + arguments.length + 2
    | none => (name ++ '(' :: v).length := by
  have htake := takeWhile_append_of_head? (v := '(' :: v) hname (by simp [isDecoratorChar]; decide)
  unfold isDecoratorChar at htake
  rw [decoratorWidth, htake, List.drop_left]
  rfl

theorem drop_decoratorWidth_arguments :
    (name ++ '(' :: v).drop (decoratorWidth (name ++ '(' :: v)) =
      ((Bracket.paren.enclosed? v).map (·.2)).getD [] := by
  rw [decoratorWidth_arguments hname]
  cases henclosed : Bracket.paren.enclosed? v with
  | none => exact List.drop_length
  | some split =>
    obtain ⟨arguments, after⟩ := split
    have hsplit : name ++ '(' :: v = (name ++ '(' :: (arguments ++ [')'])) ++ after := by
      rw [enclosed?_eq_append henclosed]
      simp [Bracket.closer]
    have hlength : name.length + arguments.length + 2 =
        (name ++ '(' :: (arguments ++ [')'])).length := by
      simp only [List.length_append, List.length_cons, List.length_nil]
      omega
    dsimp only
    rw [hsplit, hlength, List.drop_left]
    rfl

end Decorators

theorem drop_decoratorWidth_toCrlf {t : Text} (h : escapesBreak false t = false) :
    (toCrlf t).drop (decoratorWidth (toCrlf t)) = toCrlf (t.drop (decoratorWidth t)) := by
  obtain ⟨name, v, rfl, hname, hv⟩ : ∃ name v, t = name ++ v ∧
      (∀ c ∈ name, isDecoratorChar c = true) ∧ ∀ c ∈ v.head?, isDecoratorChar c = false := by
    refine ⟨_, _, (List.takeWhile_append_dropWhile (p := isDecoratorChar)).symm,
      fun c hc => List.mem_takeWhile_imp hc, fun c hc => ?_⟩
    have hhead := List.head?_dropWhile_not isDecoratorChar t
    rwa [Option.mem_def.mp hc] at hhead
  have hbreak : '\n' ∉ name := fun hn => absurd (hname _ hn) (by decide)
  have hrest : escapesBreak false v = false := escapesBreak_of_append_left h
  rw [toCrlf_append, toCrlf_of_not_mem hbreak]
  by_cases hparen : v.head? = some '('
  · obtain ⟨r, rfl⟩ := List.head?_eq_some_iff.mp hparen
    rw [toCrlf_cons (by decide), drop_decoratorWidth_arguments hname,
      drop_decoratorWidth_arguments hname,
      Bracket.enclosed?_toCrlf (escapesBreak_false (escapesBreak_tail hrest))]
    cases Bracket.paren.enclosed? r <;> rfl
  · have hv' : ∀ c ∈ (toCrlf v).head?, isDecoratorChar c = false := by
      intro c hc
      by_cases hr : c = '\r'
      · rw [hr]
        decide
      by_cases hn : c = '\n'
      · rw [hn]
        decide
      exact hv c ((head?_toCrlf_eq_some hr hn v).mp hc)
    have hparen' : (toCrlf v).head? ≠ some '(' :=
      mt (head?_toCrlf_eq_some (by decide) (by decide) v).mp hparen
    rw [drop_decoratorWidth_plain hname hv hparen, drop_decoratorWidth_plain hname hv' hparen']

/-- Two readings of what is between members, or of none. -/
inductive SkipsAlike (t : Text) : Option Nat → Option Nat → Prop
  | none : SkipsAlike t none none
  | some {n n' : Nat} (h : (toCrlf t).drop (n' + 1) = toCrlf (t.drop (n + 1))) :
      SkipsAlike t (some (n + 1)) (some (n' + 1))

theorem triviaWidth?_other {c : Char} {t : Text} (hat : c ≠ '@')
    (h : c ≠ '/' ∨ t.head? ≠ some '/' ∧ t.head? ≠ some '*') :
    triviaWidth? (c :: t) = if (" \t\r\n;" : Text).contains c then some 1 else none := by
  rw [triviaWidth?.eq_def]
  split
  · rename_i hct
    obtain ⟨rfl, rfl⟩ := List.cons.inj hct
    simp at h
  · rename_i hct
    obtain ⟨rfl, rfl⟩ := List.cons.inj hct
    simp at h
  · rename_i hct
    exact absurd (List.cons.inj hct).1 hat
  · rename_i hct
    rw [(List.cons.inj hct).1]
  · rename_i hct
    cases hct

theorem skipsAlike_triviaWidth? {c : Char} {t : Text} (hc : c ≠ '\n')
    (h : escapesBreak false (c :: t) = false) :
    SkipsAlike (c :: t) (triviaWidth? (c :: t)) (triviaWidth? (toCrlf (c :: t))) := by
  rw [toCrlf_cons hc]
  by_cases hat : c = '@'
  · subst hat
    refine .some ?_
    rw [toCrlf_cons hc, List.drop_succ_cons, List.drop_succ_cons,
      drop_decoratorWidth_toCrlf (escapesBreak_false (escapesBreak_tail h))]
  · by_cases hslash : c = '/' ∧ (t.head? = some '/' ∨ t.head? = some '*')
    · obtain ⟨rfl, hhead⟩ := hslash
      cases t with
      | nil => simp at hhead
      | cons d t =>
        rcases hhead with hhead | hhead
        · obtain rfl := Option.some.inj hhead
          rw [toCrlf_cons (by decide)]
          refine .some ?_
          rw [toCrlf_cons (by decide), toCrlf_cons (by decide)]
          exact drop_takeWhile_toCrlf t
        · obtain rfl := Option.some.inj hhead
          rw [toCrlf_cons (by decide)]
          refine .some ?_
          rw [toCrlf_cons (by decide), toCrlf_cons (by decide)]
          exact drop_blockCommentWidth_toCrlf t
    · have hother : c ≠ '/' ∨ t.head? ≠ some '/' ∧ t.head? ≠ some '*' := by
        rwa [not_and_or, not_or] at hslash
      have hother' : c ≠ '/' ∨ (toCrlf t).head? ≠ some '/' ∧ (toCrlf t).head? ≠ some '*' := by
        rwa [Ne, Ne, Ne, head?_toCrlf_eq_some (by decide) (by decide),
          head?_toCrlf_eq_some (by decide) (by decide)]
      rw [triviaWidth?_other hat hother, triviaWidth?_other hat hother']
      split
      · refine .some ?_
        rw [toCrlf_cons hc]
        rfl
      · exact .none

end Trivia

section Members

theorem EndsAlike.exists_cut {t : Text} {n n' : Nat} (h : EndsAlike t n n') :
    ∃ tail, (tail = [] ∨ tail = ['\r']) ∧ (toCrlf t).take n' = toCrlf (t.take n) ++ tail ∧
      (toCrlf t).drop (n' + 1) = toCrlf (t.drop (n + 1)) := by
  have hdrop : ∀ (u v : Text) (c : Char), (u ++ c :: v).drop (u.length + 1) = v := by
    intro u v c
    rw [← List.drop_drop, List.drop_left]
    rfl
  cases h with
  | all =>
    refine ⟨[], .inl rfl, by simp, ?_⟩
    rw [List.drop_eq_nil_of_le (Nat.le_succ _), List.drop_eq_nil_of_le (Nat.le_succ _)]
    rfl
  | before hc h =>
    subst h
    refine ⟨[], .inl rfl, ?_, ?_⟩
    · rw [toCrlf_append, List.take_left, List.take_left, List.append_nil]
    · rw [toCrlf_append, toCrlf_cons hc, hdrop, hdrop]
  | @atBreak u v h =>
    subst h
    have hbreak : toCrlf (u ++ '\n' :: v) = (toCrlf u ++ ['\r']) ++ '\n' :: toCrlf v := by
      rw [toCrlf_append, toCrlf_lineFeed, List.append_assoc]
      rfl
    have hlength : (toCrlf u).length + 1 = (toCrlf u ++ ['\r']).length := by
      rw [List.length_append]
      rfl
    refine ⟨['\r'], .inr rfl, ?_, ?_⟩
    · rw [hbreak, hlength, List.take_left, List.take_left]
    · rw [hbreak, hlength, hdrop, hdrop]

variable {c : Char} {t : Text} {n : Nat}

theorem escapesBreak_drop (h : escapesBreak false t = false) (n : Nat) :
    escapesBreak false (t.drop n) = false := by
  rw [← List.take_append_drop n t] at h
  exact escapesBreak_of_append_left h

theorem scanFrom_toCrlf (h : escapesBreak false t = false) (offset offset' : Nat) :
    (scanFrom offset' 0 (toCrlf t)).map unplaced =
      (scanFrom offset 0 t).map fun m => (m.mapTexts toCrlf).unplaced := by
  induction hlength : t.length using Nat.strongRecOn generalizing t offset offset' with
  | ind length ih =>
    cases t with
    | nil => rfl
    | cons c t =>
      have hlater : ∀ n offset offset', (scanFrom offset' 0 (toCrlf ((c :: t).drop (n + 1)))).map
          unplaced = (scanFrom offset 0 ((c :: t).drop (n + 1))).map
            fun m => (m.mapTexts toCrlf).unplaced := by
        intro n offset offset'
        refine ih _ ?_ (escapesBreak_drop h (n + 1)) offset offset' rfl
        rw [← hlength, List.length_drop, List.length_cons]
        omega
      by_cases hc : c = '\n'
      · subst hc
        rw [toCrlf_lineFeed]
        exact hlater 0 (offset + 1) (offset' + 1 + 1)
      · have hskip := skipsAlike_triviaWidth? hc h
        have hmethod := readAlike_toCrlf h offset offset'
        have hend := endsAlikeIn_of_escapesBreak h [] none 0 (by simp)
        rw [toCrlf_cons hc] at hskip hmethod hend ⊢
        generalize hwidth : triviaWidth? (c :: t) = width at hskip
        generalize hwidth' : triviaWidth? (c :: toCrlf t) = width' at hskip
        cases hskip with
        | some hdrop =>
          rw [toCrlf_cons hc] at hdrop
          rw [scanFrom_trivia hwidth, scanFrom_trivia hwidth', hdrop]
          exact hlater _ _ _
        | none =>
          generalize hm : readMethod? offset (c :: t) = m at hmethod
          generalize hm' : readMethod? offset' (c :: toCrlf t) = m' at hmethod
          cases hmethod with
          | @some m m' u v hsplit hu hread =>
            have hsplit' : c :: toCrlf t = toCrlf u ++ toCrlf v := by
              rw [← toCrlf_append, ← hsplit, toCrlf_cons hc]
            have hrest := hlater (u.length - 1)
            rw [Nat.sub_add_cancel (List.length_pos_iff.mpr hu), hsplit, List.drop_left] at hrest
            rw [hsplit] at hwidth hm ⊢
            rw [hsplit'] at hwidth' hm' ⊢
            rw [scanFrom_method hu hwidth hm, scanFrom_method (mt toCrlf_eq_nil.mp hu) hwidth' hm',
              List.map_cons, List.map_cons]
            exact congrArg₂ List.cons (congrArg method hread) (hrest _ _)
          | none =>
            obtain ⟨tail, htail, htake, hdrop⟩ := hend.exists_cut
            rw [toCrlf_cons hc] at htake hdrop
            rw [scanFrom_other hwidth hm rfl, scanFrom_other hwidth' hm' rfl, List.map_append,
              List.map_append]
            exact congrArg₂ (· ++ ·) (htake ▸ toList_property_toCrlf _ _ _ _ htail)
              (hdrop ▸ hlater _ _ _)

end Members

end Member

end CanvasPage
