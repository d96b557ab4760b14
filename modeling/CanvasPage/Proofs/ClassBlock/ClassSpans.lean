import CanvasPage.Proofs.ClassBlock.MemberSpans
import CanvasPage.Proofs.Script.Leaving

namespace CanvasPage

open Script

namespace ClassBlock

open Pattern

def written (head body : Text) : Text := "class" ++ (head ++ '\x7b' :: (body ++ ['\x7d']))

/-- What stands in a header between the keyword and the brace. -/
structure IsHead (head : Text) : Prop where
  blank : ∃ d ∈ head.head?, Text.isBlank d = true
  no_brace : '\x7b' ∉ head

section Header

variable {before t head body after : Text} {o : Occurrence}

theorem exists_head (h : header.at? ⟨before, t⟩ = some o) :
    ∃ head, t = "class" ++ (head ++ '\x7b' :: o.stop.after) ∧ IsHead head ∧ o.start = ⟨before, t⟩ ∧
      o.width = ("class" ++ (head ++ ['\x7b'])).length ∧
      o.stop.before = ("class" ++ (head ++ ['\x7b'])).reverse ++ before ∧
      ∀ d ∈ before.head?, Text.isWordChar d = false := by
  obtain ⟨hstart, w, hw, hb, hwidth, hread⟩ := reads_of_at? h
  have hbrace : ("\x7b" : Text) = ['\x7b'] := rfl
  simp only [header, hbrace] at hread
  obtain ⟨front, last, _, _, rfl, -, hfront, hlast⟩ := reads_append.mp hread
  obtain ⟨rfl, -⟩ := (reads_literal _).mp hlast
  simp only [reads_assoc] at hfront
  obtain ⟨_, _, _, _, rfl, -, ⟨rfl, -, hboundary⟩, _, head, _, _, rfl, -, hclass, hhead⟩ := hfront
  obtain ⟨rfl, -⟩ := (reads_literal _).mp hclass
  have hblanks : blanks.TakesOnly (· ≠ '\x7b') := Member.takesOnly_blanks (by decide)
  have hblanks1 : blanks1.TakesOnly (· ≠ '\x7b') := ⟨hblanks, hblanks⟩
  have hchar : ∀ {test : Char → Bool}, test '\x7b' = false → (one test).TakesOnly (· ≠ '\x7b') :=
    fun h => Member.ne_of_test h
  have htypes : (optional (blanks ++ "<" ++ many (noneOf ">\x7b") ++ ">")).TakesOnly (· ≠ '\x7b') :=
    ⟨⟨⟨⟨hblanks, takesOnly_literal (by decide)⟩, takesOnly_noneOf (by decide)⟩,
      takesOnly_literal (by decide)⟩, trivial⟩
  have hfree : ∀ c ∈ head, c ≠ '\x7b' := by
    refine forall_mem_of_reads ?_ hhead
    exact ⟨hblanks1, ⟨hchar (by decide), hchar (by decide)⟩, htypes, ⟨⟨⟨⟨⟨hblanks1,
      takesOnly_literal (by decide)⟩, hblanks1⟩, hchar (by decide), hchar (by decide)⟩, htypes⟩,
      trivial⟩, ⟨⟨⟨⟨hblanks1, takesOnly_literal (by decide)⟩, hblanks1⟩,
      takesOnly_noneOf (by decide), takesOnly_noneOf (by decide)⟩, trivial⟩, hblanks⟩
  obtain ⟨b, rest, _, _, rfl, -, hblank, -⟩ := hhead
  obtain ⟨hne, hall, -⟩ := reads_blanks1.mp hblank
  obtain ⟨d, b, rfl⟩ := List.exists_cons_of_ne_nil hne
  refine ⟨d :: b ++ rest, ?_, ⟨⟨d, rfl, ?_⟩, fun hc => hfree _ hc rfl⟩, hstart, ?_, ?_, ?_⟩
  · simpa using hw
  · rw [Text.allBlank, List.all_eq_true] at hall
    exact hall d (by simp)
  · rw [hwidth]
    simp
  · rw [hb]
    simp
  · intro e he
    cases hword : Text.isWordChar e with
    | false => rfl
    | true =>
      obtain ⟨z, rfl⟩ := List.head?_eq_some_iff.mp he
      have hboth : (Text.isWordChar e != Text.isWordChar 'c') = true := hboundary
      rw [hword] at hboth
      exact absurd hboth (by decide)

end Header

/-- What a class has to do with its text and the texts around it. -/
def Stands (c : ClassBlock) (before own after : Text) : Prop :=
  (∀ d ∈ before.getLast?, Text.isWordChar d = false) ∧ ∃ head body, own = written head body ∧
    IsHead head ∧ Bracket.brace.enclosed? (body ++ '\x7d' :: after) = some (body, after) ∧
    ∃ name parent, c = ofMembers name parent c.span
      (Member.scanFrom (Text.byteLength (before ++ "class" ++ head ++ ['\x7b'])) 0 body)

theorem exists_stands {before t : Text} {o : Occurrence} {c : ClassBlock} {width : Nat}
    (h : header.at? ⟨before.reverse, t⟩ = some o) (hc : ofHeader? o = some (c, width)) :
    ∃ own after, t = own ++ after ∧ own ≠ [] ∧ width = own.length ∧
      c.span = .behind before own ∧ Stands c before own after := by
  obtain ⟨head, ht, hhead, hstart, hwidth, hstop, hword⟩ := exists_head h
  obtain ⟨⟨body, after⟩, hbody, hc⟩ := Option.bind_eq_some_iff.mp hc
  have hafter : o.stop.after = body ++ '\x7d' :: after := Bracket.eq_of_closeFrom _ _ _ _ hbody
  obtain ⟨rfl, rfl⟩ := Prod.mk.inj (Option.some.inj hc)
  have hoffset : o.stop.offset = Text.byteLength (before ++ "class" ++ head ++ ['\x7b']) := by
    rw [Cursor.offset, hstop, ← List.reverse_append, Text.byteLength_reverse]
    simp only [List.append_assoc]
  rw [hafter] at hbody
  refine ⟨written head body, after, ?_, by simp [written], ?_, ?_, ?_, head, body, rfl, hhead, hbody,
    _, _, by rw [hoffset]; rfl⟩
  · rw [ht, hafter, written]
    simp
  · rw [hwidth, written]
    simp only [List.length_append, List.length_cons, List.length_nil]
    omega
  · show Span.mk o.start.offset _ = _
    rw [hoffset, hstart, Cursor.offset, Text.byteLength_reverse, Span.behind, written]
    have hclose : ('\x7d' : Char).utf8Size = 1 := rfl
    simp only [Text.byteLength_append, Text.byteLength_cons, Text.byteLength_nil, hclose,
      Nat.add_assoc, Nat.zero_add]
  · rwa [List.head?_reverse] at hword

theorem laid_scanFrom (before t : Text) :
    Laid (·.span) Stands before t (scanFrom 0 before.reverse t) := by
  induction hn : t.length using Nat.strong_induction_on generalizing before t with
  | _ n ih =>
  have hrest : ∀ u v, t = u ++ v → u ≠ [] →
      Laid (·.span) Stands (before ++ u) v (scanFrom 0 (u.reverse ++ before.reverse) v) := by
    intro u v ht hu
    rw [← List.reverse_append]
    refine ih v.length ?_ _ _ rfl
    rw [← hn, ht, List.length_append]
    exact Nat.lt_add_of_pos_left (List.length_pos_iff.mpr hu)
  cases t with
  | nil => exact .nil before []
  | cons c t =>
    cases hat : header.at? ⟨before.reverse, c :: t⟩ with
    | none =>
      rw [scanFrom_of_at?_eq_none hat]
      exact (hrest [c] t rfl (List.cons_ne_nil c [])).pass
    | some o =>
      cases hblock : ofHeader? o with
      | none =>
        obtain ⟨head, ht, -, -, hwidth, -⟩ := exists_head hat
        have hsplit : c :: t = ("class" ++ (head ++ ['\x7b'])) ++ o.stop.after := by rw [ht]; simp
        rw [hsplit] at hat hrest ⊢
        rw [scanFrom_append (by simp) hat hwidth hblock]
        exact (hrest _ _ rfl (by simp)).pass
      | some found =>
        obtain ⟨block, width⟩ := found
        obtain ⟨own, after, ht, hown, rfl, hspan, hstands⟩ := exists_stands hat hblock
        rw [ht] at hat hrest ⊢
        rw [scanFrom_cons hown hat hblock]
        exact .cons (u := []) hown (by rwa [List.append_nil]) (by rwa [List.append_nil])
          (by rw [List.append_nil]; exact hrest own after rfl hown)

end ClassBlock

end CanvasPage
