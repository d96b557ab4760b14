import CanvasPage.Proofs.Field.Found
import CanvasPage.Proofs.Pattern.Run
import CanvasPage.Proofs.Pattern.Occurrence

namespace CanvasPage

namespace Pattern

variable {α : Type} {k : Progress → Option α} {before u rest : Text} {width : Nat}
  {groups : List (Nat × Capture)} {test : Char → Bool} {a : α}

def reading (q : Progress) : Bool × List (Nat × Text) :=
  (0 < q.width, q.groups.map fun g => (g.1, g.2.text))

theorem reading_eq {cursor : Cursor} {w n index : Nat} {value rest : Text} (hw : 0 < w)
    (hn : n = value.length) :
    some (reading ⟨cursor, w, [(index, ⟨⟨before, value ++ rest⟩, n⟩)]⟩) =
      some (true, [(index, value)]) := by
  simp [reading, hw, Capture.text, hn]

/-- The pattern matches at the start of a text, and its one group captures `value`. -/
def CapturesAt (pattern : Pattern) (index : Nat) (value before t : Text) : Prop :=
  pattern.run (.start ⟨before, t⟩) (fun q => some (reading q)) = some (true, [(index, value)])

theorem run_of_capturesAt {pattern : Pattern} {index : Nat} {value t : Text}
    (h : pattern.CapturesAt index value before t) :
    ∃ q capture, pattern.run (.start ⟨before, t⟩) some = some q ∧ 0 < q.width ∧
      q.groups = [(index, capture)] ∧ capture.text = value := by
  rw [CapturesAt, run] at h
  obtain ⟨q, qs, hends⟩ : ∃ q qs, pattern.ends (.start ⟨before, t⟩) = q :: qs := by
    cases hends : pattern.ends (.start ⟨before, t⟩) with
    | nil =>
      rw [hends] at h
      cases h
    | cons q qs => exact ⟨q, qs, rfl⟩
  rw [hends, List.findSome?_cons] at h
  obtain ⟨hwidth, hgroups⟩ := Prod.mk.inj (Option.some.inj h)
  obtain ⟨g, hg, hcapture⟩ := List.map_eq_singleton_iff.mp hgroups
  obtain ⟨hindex, htext⟩ := Prod.mk.inj hcapture
  refine ⟨q, g.2, ?_, by simpa using hwidth, ?_, htext⟩
  · rw [run_some, hends]
    rfl
  · rw [hg, ← hindex]

theorem run_group_many1 (index : Nat) (hne : u ≠ []) (hu : ∀ c ∈ u, test c = true)
    (hrest : ∀ c ∈ rest.head?, test c = false)
    (hk : k ⟨⟨u.reverse ++ before, rest⟩, width + u.length,
      (index, ⟨⟨before, u ++ rest⟩, u.length⟩) :: groups⟩ = some a) :
    (group index (many1 (one test))).run ⟨⟨before, u ++ rest⟩, width, groups⟩ k = some a := by
  obtain ⟨c, u, rfl⟩ := List.exists_cons_of_ne_nil hne
  have hwidth : width + 1 + u.length = width + (c :: u).length := by
    rw [List.length_cons, Nat.add_assoc, Nat.add_comm 1]
  rw [run_group, many1, run_append, List.cons_append, run_one_cons, if_pos (hu c (by simp))]
  apply run_many_one_longest (fun d hd => hu d (by simp [hd])) hrest
  rw [List.reverse_cons, List.append_assoc, List.singleton_append] at hk
  dsimp only [Progress.close]
  rw [hwidth, Nat.add_sub_cancel_left]
  exact hk

end Pattern

namespace Candidate

open Pattern

variable {candidate : Candidate} {index : Nat} {value u t x : Text}

theorem read?_of_groups {o : Occurrence} {capture : Capture}
    (hgroups : o.groups = [(index, capture)]) (hindex : index ∈ [1, 2, 3])
    (haccept : candidate.accept capture.text = some x) :
    candidate.read? o = some ⟨x, capture.span, candidate.id⟩ := by
  have hcapture : capture? o = some capture := by
    simp only [List.mem_cons, List.not_mem_nil, or_false] at hindex
    rcases hindex with rfl | rfl | rfl <;> simp [capture?, Occurrence.group?, hgroups]
  simp only [read?, hcapture, Option.bind_eq_bind, Option.bind_some, haccept]
  rfl

theorem find?_of_capturesAt (hskip : candidate.pattern.FailsOver u t)
    (hcapture : candidate.pattern.CapturesAt index value u.reverse t) (hindex : index ∈ [1, 2, 3])
    (haccept : candidate.accept value = some x) :
    ∃ m, candidate.find? (u ++ t) = some m ∧ m.text = x := by
  obtain ⟨q, capture, hrun, hwidth, hgroups, htext⟩ := run_of_capturesAt hcapture
  have hat := at?_of_run hrun hwidth
  obtain ⟨c, rest, rfl⟩ : ∃ c rest, t = c :: rest := by
    cases t with
    | cons c rest => exact ⟨c, rest, rfl⟩
    | nil =>
      rw [run_some] at hrun
      have hsum := width_add_length_of_mem_ends (List.mem_of_head? hrun)
      simp only [Progress.start, List.length_nil] at hsum
      omega
  have hread : candidate.read? ⟨⟨u.reverse, c :: rest⟩, q.cursor, q.width, q.groups⟩ = _ :=
    read?_of_groups hgroups hindex (by rw [htext, haccept])
  refine ⟨⟨x, capture.span, candidate.id⟩, ?_, rfl⟩
  rw [find?, occurrences, occurrencesFrom_append hskip, List.append_nil, occurrencesFrom, hat]
  dsimp only
  rw [List.findSome?_cons, hread]

theorem find?_field_of_capturesAt {field : Field} {mode : Mode} {candidates : List Candidate}
    (hfield : forField field mode = candidate :: candidates)
    (hskip : candidate.pattern.FailsOver u t)
    (hcapture : candidate.pattern.CapturesAt index value u.reverse t) (hindex : index ∈ [1, 2, 3])
    (haccept : candidate.accept value = some x) :
    ∃ m, Field.find? (u ++ t) mode field = some m ∧ m.text = x := by
  obtain ⟨m, hm, htext⟩ := find?_of_capturesAt hskip hcapture hindex haccept
  refine ⟨m, ?_, htext⟩
  rw [Field.find?, hfield, List.findSome?_cons, hm]

section Title

theorem capturesAt_documentTitle {name : Text} (hname : ∀ c ∈ name, c ≠ '<')
    (before rest : Text) :
    documentTitle.CapturesAt 1 name before ("<title>" ++ (name ++ ("</title>" ++ rest))) := by
  have hopen : ("<title>" : Text) = ("<title" : Text) ++ ['>'] := rfl
  have hclose : (">" : Text) = ['>'] := rfl
  have hboundary : Cursor.atWordBoundary
      ⟨("<title" : Text).reverse ++ before, '>' :: (name ++ ("</title>" ++ rest))⟩ = true :=
    atWordBoundary_stop (by decide) (by decide)
  have hless : ∀ c ∈ (("</title>" : Text) ++ rest).head?, (!("<" : Text).contains c) = false :=
    forall_mem_head?_cons (by decide) _
  have hstop : ∀ c ∈ ('>' :: (name ++ ("</title>" ++ rest))).head?,
      (!(">" : Text).contains c) = false := forall_mem_head?_cons (by decide) _
  have hchars : ∀ c ∈ name, (!("<" : Text).contains c) = true := by
    intro c hc
    simpa using hname c hc
  rw [CapturesAt, documentTitle, Progress.start]
  simp only [run_append]
  rw [hopen, List.append_assoc, run_literalEitherCase_append, List.singleton_append,
    run_wordBoundary hboundary, noneOf, run_many_one_stop hstop, hclose, run_literal_singleton,
    run_group]
  apply run_many_one_longest hchars hless
  dsimp only [Progress.close]
  rw [run_literalEitherCase_append]
  exact reading_eq (by simp) (by omega)

theorem failsOver_documentTitle (h : avoids "<title" u = true) (rest : Text) :
    documentTitle.FailsOver u rest := by
  refine failsOver_of_avoids (fun before t hdiffers => at?_eq_none ?_) h rest
  rw [documentTitle, Progress.start]
  simp only [run_append]
  exact run_of_ends_eq_nil (ends_literalEitherCase_eq_nil hdiffers)

end Title

section Attributes

structure IsPassed (name skipped : Text) : Prop where
  isOpen : ∀ c ∈ skipped, c ≠ '>'
  isBlank : ∀ c ∈ skipped, Text.isBlank c = true → c = ' '
  avoids : avoids (' ' :: name) skipped = true

variable {name skipped : Text}

theorem isPassed_nil : IsPassed name [] := ⟨by simp, by simp, rfl⟩

theorem IsPassed.append {s : Text} (hs : IsPassed name s) (ht : IsPassed name t) :
    IsPassed name (s ++ t) := by
  refine ⟨fun c hc => ?_, fun c hc => ?_, avoids_append hs.avoids ht.avoids⟩
  · rcases List.mem_append.mp hc with hc | hc
    · exact hs.isOpen c hc
    · exact ht.isOpen c hc
  · rcases List.mem_append.mp hc with hc | hc
    · exact hs.isBlank c hc
    · exact ht.isBlank c hc

theorem isPassed_of_not_blank (h : ∀ c ∈ t, c ≠ '>' ∧ Text.isBlank c = false) :
    IsPassed name t := by
  refine ⟨fun c hc => (h c hc).1, fun c hc hblank => ?_, ?_⟩
  · rw [(h c hc).2] at hblank
    cases hblank
  · apply avoids_of_forall
    intro c hc
    rw [← Bool.not_eq_true]
    intro heither
    have hblank := (h c hc).2
    rw [eq_of_eitherCase (by decide) heither] at hblank
    revert hblank
    decide

variable {α : Type} {k : Progress → Option α} {a : α} {before rest element : Text}

theorem run_attributeOf (skipped : Text) (hskipped : IsPassed name skipped)
    (hboundary : Cursor.atWordBoundary ⟨('<' :: element).reverse ++ before,
      skipped ++ ' ' :: (name ++ '=' :: rest)⟩ = true)
    (hrest : ∀ c ∈ rest.head?, Text.isBlank c = false)
    (hk : ∀ before width, 0 < width → k ⟨⟨before, rest⟩, width, []⟩ = some a) :
    (attributeOf element name).run
      (.start ⟨before, ('<' :: element) ++ (skipped ++ ' ' :: (name ++ '=' :: rest))⟩) k =
        some a := by
  have hequals : ("=" : Text) = ['='] := rfl
  have hblank : ∀ c ∈ ('=' :: rest).head?, Text.isBlank c = false :=
    forall_mem_head?_cons (by decide) _
  have htaken : ∀ c ∈ skipped, (!(">" : Text).contains c) = true := by
    intro c hc
    simpa using hskipped.isOpen c hc
  rw [attributeOf, Progress.start]
  simp only [run_append]
  rw [run_literalEitherCase_append, run_wordBoundary hboundary, noneOf,
    run_lazyMany_one_skip htaken]
  · apply run_lazyMany_of_some
    rw [blank, run_one_cons, if_pos (by decide), run_literalEitherCase_append,
      run_blanks_stop hblank, hequals, run_literal_singleton, run_blanks_stop hrest]
    exact hk _ _ (Nat.succ_pos _)
  · intro v w hw hne
    obtain ⟨c, w, rfl⟩ := List.exists_cons_of_ne_nil hne
    have hdiffers := differs_of_avoids (hw ▸ hskipped.avoids) hne
    rw [List.cons_append, blank, run_one_cons]
    split
    · rename_i hc
      obtain rfl := hskipped.isBlank c (by simp [hw]) hc
      have hname : differs name w = true := by simpa [differs, eitherCase_self] using hdiffers
      exact run_of_ends_eq_nil (ends_literalEitherCase_eq_nil (differs_append hname _))
    · rfl

variable {index : Nat}

theorem isDigit_of_isAsciiDigit {c : Char} (h : Text.isAsciiDigit c = true) :
    Text.isDigit c = true := by
  have hlt : c.toNat < 128 := by
    simp only [Text.isAsciiDigit, Bool.and_eq_true, decide_eq_true_eq] at h
    omega
  rw [Text.isDigit, if_pos hlt, h]

theorem capturesAt_canvasDimension (hskipped : IsPassed name skipped)
    (hhead : (skipped ++ [' ']).head? = some ' ') (hne : value ≠ [])
    (hvalue : ∀ c ∈ value, Text.isAsciiDigit c = true) (before rest : Text) :
    (canvasDimension name).CapturesAt 1 value before
      ("<canvas" ++ (skipped ++ ' ' :: (name ++ '=' :: '"' :: (value ++ '"' :: rest)))) := by
  rw [CapturesAt, canvasDimension, run_append, run_append]
  refine run_attributeOf skipped hskipped ?_ (forall_mem_head?_cons (by decide) _) ?_
  · cases skipped with
    | nil => exact atWordBoundary_stop (by decide) (by decide)
    | cons c skipped =>
      obtain rfl : c = ' ' := by simpa using hhead
      exact atWordBoundary_stop (by decide) (by decide)
  · intro before width hwidth
    rw [run_optional, oneOf, run_one_cons, if_pos (by decide), digits,
      run_group_many1 1 hne (fun c hc => isDigit_of_isAsciiDigit (hvalue c hc))
        (forall_mem_head?_cons (by decide) _) (reading_eq (by omega) rfl), Option.some_or]

theorem capturesAt_quotedAttribute (hboundary : Cursor.atWordBoundary
      ⟨('<' :: element).reverse ++ before, ' ' :: (name ++ '=' :: '"' :: (value ++ '"' :: rest))⟩ =
        true)
    (hne : value ≠ []) (hvalue : ∀ c ∈ value, c ≠ '"' ∧ c ≠ '\'') :
    (quotedAttribute element name).CapturesAt 1 value before
      (('<' :: element) ++ ' ' :: (name ++ '=' :: '"' :: (value ++ '"' :: rest))) := by
  have hchars : ∀ c ∈ value, (!("\"'" : Text).contains c) = true := by
    intro c hc
    simpa using hvalue c hc
  rw [CapturesAt, quotedAttribute, run_append, run_append, run_append]
  apply run_attributeOf [] isPassed_nil hboundary (forall_mem_head?_cons (by decide) _)
  intro before width hwidth
  rw [oneOf, run_one_cons, if_pos (by decide)]
  apply run_group_many1 1 hne hchars (forall_mem_head?_cons (by decide) _)
  rw [run_one_cons, if_pos (by decide)]
  exact reading_eq (by omega) rfl

theorem run_attributeOf_eq_none {width : Nat} {groups : List (Nat × Capture)}
    (h : differs ('<' :: element) t = true) :
    (attributeOf element name).run ⟨⟨before, t⟩, width, groups⟩ k = none := by
  rw [attributeOf]
  simp only [run_append]
  exact run_of_ends_eq_nil (ends_literalEitherCase_eq_nil h)

theorem failsOver_canvasDimension (h : avoids "<canvas" u = true) (rest : Text) :
    (canvasDimension name).FailsOver u rest := by
  refine failsOver_of_avoids (fun before t hdiffers => at?_eq_none ?_) h rest
  rw [canvasDimension, run_append, run_append]
  exact run_attributeOf_eq_none hdiffers

theorem failsOver_quotedAttribute (h : avoids ('<' :: element) u = true) (rest : Text) :
    (quotedAttribute element name).FailsOver u rest := by
  refine failsOver_of_avoids (fun before t hdiffers => at?_eq_none ?_) h rest
  rw [quotedAttribute, run_append, run_append, run_append]
  exact run_attributeOf_eq_none hdiffers

end Attributes

end Candidate

end CanvasPage
