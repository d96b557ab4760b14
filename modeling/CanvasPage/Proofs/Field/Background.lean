import CanvasPage.Proofs.Field.Slot

namespace CanvasPage.Candidate

open Pattern

variable {α : Type} {k : Progress → Option α} {a : α} {before rest arguments u t : Text}
  {width : Nat} {groups : List (Nat × Capture)} {c : Char}

def stylePiece : Pattern := anyOf [noneOf ";,\x7d'\"\n()", "(" ++ many (noneOf ")\n") ++ ")"]

def isStyleChar (c : Char) : Bool := !(";,\x7d'\"\n()" : Text).contains c

theorem run_stylePiece_char (hc : isStyleChar c = true)
    (hk : k ⟨⟨c :: before, rest⟩, width + 1, groups⟩ = some a) :
    stylePiece.run ⟨⟨before, c :: rest⟩, width, groups⟩ k = some a := by
  have hnone : (!(";,\x7d'\"\n()" : Text).contains c) = true := hc
  rw [stylePiece, run_anyOf_cons, noneOf, run_one_cons, if_pos hnone, hk, Option.some_or]

theorem run_stylePiece_call (harguments : ∀ c ∈ arguments, c ≠ ')' ∧ c ≠ '\n')
    (hk : ∀ before, k ⟨⟨before, rest⟩, width + (arguments.length + 2), groups⟩ = some a) :
    stylePiece.run ⟨⟨before, '(' :: (arguments ++ ')' :: rest)⟩, width, groups⟩ k = some a := by
  have hopen : ("(" : Text) = ['('] := rfl
  have hclose : (")" : Text) = [')'] := rfl
  have hchars : ∀ c ∈ arguments, (!(")\n" : Text).contains c) = true := by
    intro c hc
    simpa using harguments c hc
  have hwidth : width + 1 + arguments.length + 1 = width + (arguments.length + 2) := by omega
  rw [stylePiece, run_anyOf_cons, noneOf, run_one_cons, if_neg (by decide), Option.none_or,
    run_anyOf_cons, run_append, run_append, hopen, run_literal_singleton, noneOf]
  rw [run_many_one_longest hchars (forall_mem_head?_cons (by decide) _) (a := a), Option.some_or]
  rw [hclose, run_literal_singleton, hwidth]
  exact hk _

theorem run_stylePiece_semicolon :
    stylePiece.run ⟨⟨before, ';' :: rest⟩, width, groups⟩ k = none := by
  have hopen : ("(" ++ many (noneOf ")\n") ++ ")" : Pattern).ends
      ⟨⟨before, ';' :: rest⟩, width, groups⟩ = [] := rfl
  rw [stylePiece, run_anyOf_cons, noneOf, run_one_cons, if_neg (by decide), Option.none_or,
    run_anyOf_cons, run_of_ends_eq_nil hopen, Option.none_or, run_anyOf_nil]

inductive IsStyleValue : Text → Prop
  | nil : IsStyleValue []
  | call (arguments : Text) (h : ∀ c ∈ arguments, c ≠ ')' ∧ c ≠ '\n') :
      IsStyleValue ('(' :: (arguments ++ [')']))
  | cons (c : Char) (u : Text) (hc : isStyleChar c = true) (hu : IsStyleValue u) :
      IsStyleValue (c :: u)

namespace IsStyleValue

theorem run_many (hu : IsStyleValue u)
    (hk : ∀ before, k ⟨⟨before, ';' :: rest⟩, width + u.length, groups⟩ = some a) :
    (many stylePiece).run ⟨⟨before, u ++ ';' :: rest⟩, width, groups⟩ k = some a := by
  induction hu generalizing before width with
  | nil =>
    rw [List.nil_append, Pattern.run_many, run_stylePiece_semicolon, Option.none_or]
    exact hk before
  | call arguments h =>
    have hsplit : ('(' :: (arguments ++ [')'])) ++ ';' :: rest =
        '(' :: (arguments ++ ')' :: ';' :: rest) := by
      simp
    rw [hsplit, Pattern.run_many, run_stylePiece_call h (a := a), Option.some_or]
    intro before
    rw [if_pos (show width < width + (arguments.length + 2) by omega), Pattern.run_many,
      run_stylePiece_semicolon, Option.none_or]
    have hlength : ('(' :: (arguments ++ [')'])).length = arguments.length + 2 := by simp
    rw [hlength] at hk
    exact hk before
  | cons c u hc hu ih =>
    rw [List.cons_append, Pattern.run_many, run_stylePiece_char hc (a := a), Option.some_or]
    rw [if_pos (show width < width + 1 by omega)]
    apply ih
    intro before
    rw [Nat.add_assoc, Nat.add_comm 1, ← List.length_cons]
    exact hk before

end IsStyleValue

theorem run_quotedBy_eq_none {quote : Char} (hc : c ≠ quote) (index : Nat) :
    (quotedBy index quote).run ⟨⟨before, c :: rest⟩, width, groups⟩ k = none := by
  rw [quotedBy, run_append, run_append, run_one_cons, if_neg (by simpa using hc)]

theorem ne_quote_of_isStyleChar (hc : isStyleChar c = true) : c ≠ '\'' ∧ c ≠ '"' := by
  constructor
  · rintro rfl
    exact absurd hc (by decide)
  · rintro rfl
    exact absurd hc (by decide)

theorem run_quotedOrStyleValue (hc : isStyleChar c = true) (hu : IsStyleValue u)
    (hk : ∀ b, k ⟨⟨b, ';' :: rest⟩, width + (c :: u).length,
      (3, ⟨⟨before, (c :: u) ++ ';' :: rest⟩, (c :: u).length⟩) :: groups⟩ = some a) :
    quotedOrStyleValue.run ⟨⟨before, (c :: u) ++ ';' :: rest⟩, width, groups⟩ k = some a := by
  obtain ⟨hsingle, hdouble⟩ := ne_quote_of_isStyleChar hc
  have hwidth : width + 1 + u.length = width + (c :: u).length := by
    rw [List.length_cons, Nat.add_assoc, Nat.add_comm 1]
  have hvalue : (group 3 (many1 stylePiece)).run
      ⟨⟨before, (c :: u) ++ ';' :: rest⟩, width, groups⟩ k = some a := by
    rw [run_group, many1, run_append]
    refine run_stylePiece_char hc (hu.run_many fun b => ?_)
    dsimp only [Progress.close]
    rw [hwidth, Nat.add_sub_cancel_left]
    exact hk b
  rw [quotedOrStyleValue, run_anyOf_cons, List.cons_append, run_quotedBy_eq_none hsingle,
    Option.none_or, run_anyOf_cons, run_quotedBy_eq_none hdouble, Option.none_or]
  exact hvalue

theorem capturesAt_styleBackground (hbefore : ∀ d ∈ before.head?, Text.isWordChar d = false)
    (hc : isStyleChar c = true) (hblank : Text.isBlank c = false) (hu : IsStyleValue u)
    (rest : Text) :
    styleBackground.CapturesAt 3 (c :: u) before ("background: " ++ ((c :: u) ++ ';' :: rest)) := by
  have hopen : ("background: " : Text) = ("background" : Text) ++ [':', ' '] := rfl
  have hcolon : (":" : Text) = [':'] := rfl
  have hboundary : Cursor.atWordBoundary
      ⟨before, "background: " ++ ((c :: u) ++ ';' :: rest)⟩ = true :=
    atWordBoundary_start hbefore (by decide)
  rw [CapturesAt, styleBackground, Progress.start]
  simp only [run_append]
  rw [run_wordBoundary hboundary, hopen, List.append_assoc, run_literal_append, List.cons_append,
    run_blanks_stop (forall_mem_head?_cons (by decide) _), hcolon, run_literal_singleton]
  apply run_blanks_longest (u := [' ']) (by decide) (forall_mem_head?_cons hblank _)
  apply run_quotedOrStyleValue hc hu
  intro b
  exact reading_eq (by omega) rfl

section Elsewhere

theorem run_styleBackground_eq_none (h : differs "background" t = true) :
    styleBackground.run ⟨⟨before, t⟩, width, groups⟩ k = none := by
  rw [styleBackground]
  simp only [run_append]
  apply run_eq_none
  intro q hq
  rw [ends] at hq
  split at hq
  · rw [List.mem_singleton.mp hq]
    exact run_of_ends_eq_nil (ends_literal_eq_nil_of_differs h)
  · cases hq

theorem failsOver_styleBackground (h : avoids "background" u = true) (rest : Text) :
    styleBackground.FailsOver u rest := by
  refine failsOver_of_avoids (fun before t hdiffers => at?_eq_none ?_) h rest
  exact run_styleBackground_eq_none hdiffers

theorem failsOver_styleBackground_of_not_mem (h : ':' ∉ u) (rest : Text) :
    styleBackground.FailsOver u ('<' :: rest) := by
  have hopen : (.wordBoundary ++ "background" ++ blanks : Pattern).TakesOnly (· ≠ '<') := by
    refine ⟨⟨trivial, takesOnly_literal (by decide)⟩, ?_⟩
    rintro c hc rfl
    exact absurd hc (by decide)
  have hnone : ∀ (t before : Text), ':' ∉ t →
      styleBackground.at? ⟨before, t ++ '<' :: rest⟩ = none := by
    intro t before ht
    apply at?_eq_none
    rw [styleBackground, run_append, run_append]
    exact run_of_ends_eq_nil (ends_append_literal_eq_nil hopen rfl ht (by decide))
  induction u with
  | nil => trivial
  | cons c u ih =>
    exact ⟨fun before => hnone (c :: u) before h, ih fun hc => h (by simp [hc])⟩

end Elsewhere

section Colors

theorem isStyleChar_of_test {test : Char → Bool}
    (htest : ∀ d ∈ (";,\x7d'\"\n()" : Text), test d = false) (hc : test c = true) :
    isStyleChar c = true := by
  rw [isStyleChar, Bool.not_eq_true', List.contains_eq_mem, decide_eq_false_iff_not]
  intro hmem
  rw [htest c hmem] at hc
  cases hc

theorem isStyleValue_append (hu : ∀ c ∈ u, isStyleChar c = true) (ht : IsStyleValue t) :
    IsStyleValue (u ++ t) := by
  induction u with
  | nil => exact ht
  | cons c u ih => exact .cons c _ (hu c (by simp)) (ih fun d hd => hu d (by simp [hd]))

theorem isStyleValue_of_forall (hu : ∀ c ∈ u, isStyleChar c = true) : IsStyleValue u := by
  have hvalue := isStyleValue_append hu .nil
  rwa [List.append_nil] at hvalue

theorem exists_append_of_zip {f : Text} (h : ∀ p ∈ (f ++ ['(']).zip t, eitherCase p.1 p.2 = true)
    (hlength : f.length < t.length) :
    ∃ u, t = u ++ '(' :: t.drop (f.length + 1) ∧ u.length = f.length ∧
      ∀ d ∈ u, ∃ c ∈ f, eitherCase c d = true := by
  induction f generalizing t with
  | nil =>
    cases t with
    | nil => cases hlength
    | cons d t =>
      have hd : eitherCase '(' d = true := h ('(', d) (by simp)
      obtain rfl := eq_of_eitherCase (by decide) hd
      exact ⟨[], rfl, rfl, by simp⟩
  | cons c f ih =>
    cases t with
    | nil => cases hlength
    | cons d t =>
      have htail : ∀ p ∈ (f ++ ['(']).zip t, eitherCase p.1 p.2 = true :=
        fun p hp => h p (by simp [hp])
      obtain ⟨u, hu, hlen, hcase⟩ := ih htail (Nat.lt_of_succ_lt_succ hlength)
      refine ⟨d :: u, ?_, by rw [List.length_cons, hlen, List.length_cons], fun e he => ?_⟩
      · rw [List.cons_append, List.length_cons, List.drop_succ_cons]
        exact congrArg (d :: ·) hu
      · rcases List.mem_cons.mp he with rfl | he
        · exact ⟨c, by simp, h (c, e) (by simp)⟩
        · obtain ⟨b, hb, hbe⟩ := hcase e he
          exact ⟨b, by simp [hb], hbe⟩

theorem isStyleValue_of_isCallOf {f : Text} (hne : f ≠ [])
    (hf : ∀ c ∈ f, ∀ d ∈ (";,\x7d'\"\n()" : Text), eitherCase c d = false)
    (h : Color.isCallOf (f ++ ['(']) t = true) (hbreak : '\n' ∉ t) :
    ∃ c u, t = c :: u ∧ isStyleChar c = true ∧ IsStyleValue u := by
  simp only [Color.isCallOf, Bool.and_eq_true, List.all_eq_true, beq_iff_eq, decide_eq_true_eq,
    List.length_append, List.length_singleton] at h
  obtain ⟨⟨⟨hcase, hlength⟩, harguments⟩, hlast⟩ := h
  rw [List.length_drop] at hlength
  obtain ⟨u, hu, hlen, hstyle⟩ := exists_append_of_zip hcase (by omega)
  obtain ⟨arguments, hdrop⟩ := List.getLast?_eq_some_iff.mp hlast
  rw [hdrop, List.dropLast_concat] at harguments
  rw [hdrop] at hu
  have hcall : ∀ c ∈ arguments, c ≠ ')' ∧ c ≠ '\n' := by
    intro c hc
    constructor
    · rintro rfl
      exact absurd (harguments _ hc) (by decide)
    · rintro rfl
      exact hbreak (by rw [hu]; simp [hc])
  have hchars : ∀ d ∈ u, isStyleChar d = true := by
    intro d hd
    obtain ⟨c, hc, hcd⟩ := hstyle d hd
    exact isStyleChar_of_test (hf c hc) hcd
  have hune : u ≠ [] := by
    rw [← List.length_pos_iff, hlen]
    exact List.length_pos_iff.mpr hne
  obtain ⟨c, u, rfl⟩ := List.exists_cons_of_ne_nil hune
  exact ⟨c, _, hu, hchars c (by simp),
    isStyleValue_append (fun d hd => hchars d (by simp [hd])) (.call arguments hcall)⟩

theorem exists_isStyleValue (h : Color.isColor t = true) (hbreak : '\n' ∉ t) :
    ∃ c u, t = c :: u ∧ isStyleChar c = true ∧ IsStyleValue u := by
  have hplain : (∀ c ∈ t, isStyleChar c = true) → t ≠ [] →
      ∃ c u, t = c :: u ∧ isStyleChar c = true ∧ IsStyleValue u := by
    intro hchars hne
    obtain ⟨c, u, rfl⟩ := List.exists_cons_of_ne_nil hne
    exact ⟨c, u, rfl, hchars c (by simp),
      isStyleValue_of_forall fun d hd => hchars d (by simp [hd])⟩
  rw [Color.isColor, Bool.and_eq_true, Bool.or_eq_true, Bool.or_eq_true] at h
  have hne : t ≠ [] := by simpa using h.1
  rcases h.2 with (hhex | hfunctional) | hnamed
  · refine hplain (fun c hc => ?_) hne
    rcases Color.mem_of_isHex hhex hc with rfl | hdigit
    · decide
    · exact isStyleChar_of_test (by decide) hdigit
  · rw [Color.isFunctional, List.any_eq_true] at hfunctional
    obtain ⟨name, hname, hcall⟩ := hfunctional
    simp only [Color.functionNames, List.mem_cons, List.not_mem_nil, or_false] at hname
    rcases hname with rfl | rfl | rfl | rfl
    · exact isStyleValue_of_isCallOf (f := "rgba") (by decide) (by decide) hcall hbreak
    · exact isStyleValue_of_isCallOf (f := "rgb") (by decide) (by decide) hcall hbreak
    · exact isStyleValue_of_isCallOf (f := "hsla") (by decide) (by decide) hcall hbreak
    · exact isStyleValue_of_isCallOf (f := "hsl") (by decide) (by decide) hcall hbreak
  · refine hplain (fun c hc => ?_) hne
    rw [Color.isNamed, Bool.and_eq_true, List.all_eq_true] at hnamed
    exact isStyleChar_of_test (by decide) (hnamed.1 c hc)

end Colors

end CanvasPage.Candidate
