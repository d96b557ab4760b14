import CanvasPage.Proofs.Procedure.Written
import CanvasPage.Proofs.Script.Matching

namespace CanvasPage.Parameter

open Procedure Script

/-- A piece of a list: blanks, or a parameter whose default value is closed when it is rewritten. -/
inductive IsPiece : Text → Prop where
  | blank {t : Text} (ht : ∀ c ∈ t, Text.isBlank c = true) : IsPiece t
  | written {w : Written} (hw : w.IsValid)
      (hdefault : ∀ d ∈ w.default?, isClosed (rewriteBody (Text.trim d)) = true) : IsPiece w.text

variable {w : Written} {t : Text} {ts : List Text} {p : Parameter}

theorem IsPiece.passes (h : IsPiece t) : Passes t := by
  cases h with
  | blank ht => exact passes_of_isBlank ht
  | written hw _ => exact hw.passes_text

theorem read?_of_isBlank (ht : ∀ c ∈ t, Text.isBlank c = true) (rewrite : Text → Text) :
    read? rewrite t = none := by
  have htrim : Text.trim t = [] := by
    rw [Text.trim, Text.trimStart, List.dropWhile_eq_nil_iff.mpr ht]
    rfl
  rw [read?, htrim]
  rfl

theorem Written.IsValid.isClosed_emitted (hw : w.IsValid)
    (hdefault : ∀ d ∈ w.default?, isClosed (rewriteBody (Text.trim d)) = true) :
    isClosed (w.emitted rewriteBody) = true := by
  have hhead : Neutral .start w.head := hw.head.neutral
  rw [Written.emitted]
  cases hd : w.default? with
  | none => exact isClosed_of_neutral hhead
  | some d =>
    have hvalue := neutral_of_isClosed (hdefault d hd)
    have hequals : Inert (" = " ++ rewriteBody (Text.trim d)) :=
      inert_plain_append (by decide) (by decide) hvalue
    dsimp only
    rw [List.append_assoc]
    exact isClosed_of_neutral (hhead.append (hequals _ hhead.isCode))

theorem IsPiece.isClosed_text (h : IsPiece t) (hread : read? rewriteBody t = some p) :
    isClosed p.text = true := by
  cases h with
  | blank ht =>
    rw [read?_of_isBlank ht] at hread
    cases hread
  | written hw hdefault =>
    rw [hw.read?_text] at hread
    obtain rfl := Option.some.inj hread
    exact hw.isClosed_emitted hdefault

theorem isClosed_of_mem_parameterTexts (hts : ∀ t ∈ ts, IsPiece t) :
    ∀ n ∈ parameterTexts (Text.join "," ts), isClosed n = true := by
  intro n hn
  obtain ⟨p, hp, rfl⟩ := List.mem_map.mp hn
  rw [readAll_join fun t ht => (hts t ht).passes] at hp
  obtain ⟨t, ht, hread⟩ := List.mem_filterMap.mp hp
  exact (hts t ht).isClosed_text hread

def enclosedList (raw : Text) : Text := '(' :: (Text.join ", " (parameterTexts raw) ++ [')'])

/-- The parenthesis behind an emitted list closes the one before it, whatever comments the names and
the default values have in front of their last characters. -/
theorem matchingDelimiter_enclosedList (hts : ∀ t ∈ ts, IsPiece t) :
    matchingDelimiter (enclosedList (Text.join "," ts)) 0 =
      some (Text.byteLength (enclosedList (Text.join "," ts)) - 1) := by
  have hclosed := isClosed_of_neutral (neutral_join (isClosed_of_mem_parameterTexts hts))
  have henclosed : Bracket.paren.enclosed?
      (Text.join ", " (parameterTexts (Text.join "," ts)) ++ [')']) = some (_, []) :=
    Bracket.paren.enclosed?_append [] hclosed
  refine (matchingDelimiter_opener [] _ .paren).trans ?_
  have hlength : ∀ t : Text, Text.byteLength ('(' :: (t ++ [')'])) - 1 = 0 + 1 + Text.byteLength t := by
    intro t
    have hopen : '('.utf8Size = 1 := rfl
    have hclose : ')'.utf8Size = 1 := rfl
    rw [Text.byteLength_cons, Text.byteLength_append, Text.byteLength_cons, hopen, hclose,
      Text.byteLength_nil]
    omega
  rw [henclosed, Option.map_some, Text.byteLength_nil, enclosedList, hlength]

theorem matchingDelimiter_enclosedList_commented :
    matchingDelimiter (enclosedList "a /* first */, // second\n b?: number = 1, ") 0 = some 32 ∧
      enclosedList "a /* first */, // second\n b?: number = 1, " =
        "(a /* first */, // second\n b = 1)" := by
  have hmodifier : ∀ {t : Text}, (∀ n ∈ modifierWords, n.isPrefixOf t = false) → NoModifier t := by
    rintro t ht n hn c r rfl
    have hstart := List.isPrefixOf_iff_prefix.mpr (List.prefix_append n (c :: r))
    rw [ht n hn] at hstart
    cases hstart
  have ha : Written.IsValid ⟨[], [], "a /* first */", [], none, none, []⟩ := {
    lead := by simp
    words := ⟨by simp, by simp, by simp⟩
    noModifier := hmodifier (by decide)
    head := .comment (w := "a ") (by decide) (by decide)
      (.comment (w := "/* first */") (by decide) (by decide) .nil)
    head_first := ⟨'a', rfl, by decide⟩
    head_last := by
      rintro c ⟨⟩
      decide
    marks := ⟨[], [], [], rfl, by simp, by simp, by simp⟩
    type := by simp
    default := by simp
    apart := by simp
    last := by
      rintro c ⟨⟩
      decide
    trail := by simp }
  have hb : Written.IsValid ⟨" ", [], "// second\n b", "?", some " number ", some " 1", []⟩ := {
    lead := by decide
    words := ⟨by simp, by simp, by simp⟩
    noModifier := hmodifier (by decide)
    head := .comment (w := "// second\n") (by decide) (by decide)
      (.comment (w := " b") (by decide) (by decide) .nil)
    head_first := ⟨'/', rfl, by decide⟩
    head_last := by
      rintro c ⟨⟩
      decide
    marks := ⟨[], "?", [], rfl, by simp, by decide, by simp⟩
    type := by
      rintro t ⟨⟩
      exact .comment (w := " number ") (by decide) (by decide) .nil
    default := by
      rintro d ⟨⟩
      exact .comment (w := " 1") (by decide) (by decide) .nil
    apart := by
      rintro d ⟨⟩
      decide
    last := by
      rintro c ⟨⟩
      decide
    trail := by simp }
  have hpieces : ∀ t ∈ (["a /* first */", " // second\n b?: number = 1", " "] : List Text),
      IsPiece t := by
    simp only [List.forall_mem_cons]
    refine ⟨.written ha (by simp), .written hb ?_, .blank (by decide), by simp⟩
    rintro d ⟨⟩
    decide +kernel
  have hemitted : enclosedList "a /* first */, // second\n b?: number = 1, " =
      "(a /* first */, // second\n b = 1)" := by decide +kernel
  refine ⟨(matchingDelimiter_enclosedList hpieces).trans ?_, hemitted⟩
  exact congrArg (fun t => some (Text.byteLength t - 1)) hemitted

end CanvasPage.Parameter
