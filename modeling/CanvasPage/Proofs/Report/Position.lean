import CanvasPage.Report.Position
import Mathlib.Data.List.Basic

namespace CanvasPage

namespace Text

/-- What follows the first lines of a text, each with the line feed that ends it. -/
def skipLines? : Nat → Text → Option Text
  | 0, t => some t
  | _ + 1, [] => none
  | n + 1, c :: rest => skipLines? (if c == '\n' then n else n + 1) rest

/-- What follows the first characters of a line. -/
def skipColumns? : Nat → Text → Option Text
  | 0, t => some t
  | _ + 1, [] => none
  | n + 1, c :: rest => if c == '\n' then none else skipColumns? n rest

theorem skipLines?_append_lineFeed (t u : Text) :
    skipLines? (t.count '\n' + 1) (t ++ '\n' :: u) = some u := by
  induction t with
  | nil => cases u <;> rfl
  | cons c t ih =>
    rw [List.cons_append, skipLines?, List.count_cons]
    split
    · exact ih
    · exact ih

theorem skipColumns?_append {t : Text} (h : '\n' ∉ t) (u : Text) :
    skipColumns? t.length (t ++ u) = some u := by
  induction t with
  | nil => cases u <;> rfl
  | cons c t ih =>
    rw [List.mem_cons, not_or] at h
    rw [List.length_cons, List.cons_append, skipColumns?, if_neg (by simpa using Ne.symm h.1),
      ih h.2]

theorem bne_lineFeed_of_mem_reverse {t : Text} (h : '\n' ∉ t) :
    ∀ c ∈ t.reverse, (c != '\n') = true := by
  intro c hc
  rw [bne_iff_ne]
  rintro rfl
  exact h (List.mem_reverse.mp hc)

/-- A byte offset between two characters of a text, or at one of its ends. -/
def isBoundary (t : Text) (o : Nat) : Bool := (dropBytes o t).isSome

theorem exists_split_of_isBoundary {t : Text} {o : Nat} (h : isBoundary t o = true) :
    ∃ u v, t = u ++ v ∧ byteLength u = o := by
  obtain ⟨v, hv⟩ := Option.isSome_iff_exists.mp h
  obtain ⟨u, ht, ho⟩ := eq_append_of_dropBytes hv
  exact ⟨u, v, ht, ho⟩

theorem exists_splits_of_isBoundary {t : Text} {o o' : Nat} (h : isBoundary t o = true)
    (h' : isBoundary t o' = true) (hlt : o < o') : ∃ u v w, t = u ++ (v ++ w) ∧ v ≠ [] ∧
      byteLength u = o ∧ byteLength (u ++ v) = o' := by
  obtain ⟨u, r, ht, rfl⟩ := exists_split_of_isBoundary h
  obtain ⟨u', w, ht', rfl⟩ := exists_split_of_isBoundary h'
  rcases List.append_eq_append_iff.mp (ht.symm.trans ht') with ⟨v, rfl, rfl⟩ | ⟨v, rfl, rfl⟩
  · refine ⟨u, v, w, ht, ?_, rfl, rfl⟩
    rintro rfl
    simp at hlt
  · rw [byteLength_append] at hlt
    omega

end Text

namespace Position

variable {t u : Text} {p q : Position}

/-- The order of lines, and on one line that of columns. -/
def Precedes (p q : Position) : Prop :=
  p.line < q.line ∨ (p.line = q.line ∧ p.column < q.column)

/-- What follows a position in a source, by its line and its column. -/
def rest? (p : Position) (source : Text) : Option Text :=
  (Text.skipLines? (p.line - 1) source).bind (Text.skipColumns? (p.column - 1))

theorem ofOffset_append (t u : Text) :
    ofOffset (t ++ u) (Text.byteLength t) =
      ⟨(after t).1, (after t).2, Text.byteLength t⟩ := by
  have hmin : min (Text.byteLength t) (Text.byteLength (t ++ u)) = Text.byteLength t :=
    Nat.min_eq_left (by rw [Text.byteLength_append]; omega)
  rw [ofOffset, hmin, Text.takeBytes_append]
  rfl

theorem after_append (h : '\n' ∉ u) (t : Text) :
    after (t ++ u) = ((after t).1, (after t).2 + u.length) := by
  rw [after, after, List.count_append, List.count_eq_zero_of_not_mem h, List.reverse_append,
    List.takeWhile_append_of_pos (Text.bne_lineFeed_of_mem_reverse h), List.length_append,
    List.length_reverse, Nat.add_zero]
  refine Prod.ext rfl ?_
  dsimp only
  omega

theorem after_of_not_mem (h : '\n' ∉ t) : after t = (1, t.length + 1) := by
  have hafter := after_append h []
  rwa [List.nil_append, show after [] = (1, 1) from rfl, Nat.add_comm] at hafter

theorem after_append_lineFeed (h : '\n' ∉ u) (t : Text) :
    after (t ++ '\n' :: u) = (t.count '\n' + 2, u.length + 1) := by
  have hline : after (t ++ ['\n']) = (t.count '\n' + 2, 1) := by
    rw [after, List.count_append, List.reverse_append]
    rfl
  rw [← List.singleton_append, ← List.append_assoc, after_append h, hline, Nat.add_comm 1]

theorem exists_lastLine (t : Text) :
    '\n' ∉ t ∨ ∃ ended line, t = ended ++ '\n' :: line ∧ '\n' ∉ line := by
  by_cases h : '\n' ∈ t
  · obtain ⟨u, v, hsplit, hu⟩ := List.eq_append_cons_of_mem (List.mem_reverse.mpr h)
    refine .inr ⟨v.reverse, u.reverse, ?_, fun hmem => hu (List.mem_reverse.mp hmem)⟩
    rw [← List.reverse_reverse t, hsplit, List.reverse_append, List.reverse_cons,
      List.append_assoc, List.singleton_append]
  · exact .inl h

theorem rest?_ofOffset (t u : Text) :
    (ofOffset (t ++ u) (Text.byteLength t)).rest? (t ++ u) = some u := by
  rw [ofOffset_append, rest?]
  rcases exists_lastLine t with h | ⟨ended, line, rfl, hline⟩
  · rw [after_of_not_mem h]
    show (Text.skipLines? 0 (t ++ u)).bind (Text.skipColumns? t.length) = _
    rw [Text.skipLines?, Option.bind_some, Text.skipColumns?_append h]
  · rw [after_append_lineFeed hline, List.append_assoc, List.cons_append]
    show (Text.skipLines? (ended.count '\n' + 1) _).bind (Text.skipColumns? line.length) = _
    rw [Text.skipLines?_append_lineFeed, Option.bind_some, Text.skipColumns?_append hline]

theorem precedes_ofOffset (t : Text) (hu : u ≠ []) (v : Text) :
    (ofOffset (t ++ (u ++ v)) (Text.byteLength t)).Precedes
      (ofOffset (t ++ (u ++ v)) (Text.byteLength (t ++ u))) := by
  have hfar := ofOffset_append (t ++ u) v
  rw [List.append_assoc] at hfar
  rw [ofOffset_append, hfar, Precedes]
  by_cases h : '\n' ∈ u
  · refine .inl ?_
    have hcount := List.count_pos_iff.mpr h
    show t.count '\n' + 1 < (t ++ u).count '\n' + 1
    rw [List.count_append]
    omega
  · refine .inr ?_
    have hlength := List.length_pos_of_ne_nil hu
    rw [after_append h]
    exact ⟨rfl, Nat.lt_add_of_pos_right hlength⟩

theorem Precedes.ne (h : p.Precedes q) : ¬ (p.line = q.line ∧ p.column = q.column) := by
  rintro ⟨hline, hcolumn⟩
  rcases h with h | h
  · omega
  · omega

/-- The line and the column of an offset lead to it. They grow with it, so they tell it. -/
theorem ofOffset_leads (source : Text) :
    (∀ o, Text.isBoundary source o = true →
      1 ≤ (ofOffset source o).line ∧ 1 ≤ (ofOffset source o).column ∧
        (ofOffset source o).rest? source = Text.dropBytes o source) ∧
    (∀ o o', Text.isBoundary source o = true → Text.isBoundary source o' = true → o < o' →
      (ofOffset source o).Precedes (ofOffset source o')) ∧
    ∀ o o', Text.isBoundary source o = true → Text.isBoundary source o' = true →
      (ofOffset source o).line = (ofOffset source o').line ∧
        (ofOffset source o).column = (ofOffset source o').column → o = o' := by
  have hgrows : ∀ o o', Text.isBoundary source o = true → Text.isBoundary source o' = true →
      o < o' → (ofOffset source o).Precedes (ofOffset source o') := by
    intro o o' h h' hlt
    obtain ⟨t, u, v, rfl, hu, rfl, rfl⟩ := Text.exists_splits_of_isBoundary h h' hlt
    exact precedes_ofOffset t hu v
  refine ⟨fun o h => ?_, hgrows, fun o o' h h' heq => ?_⟩
  · obtain ⟨t, u, rfl, rfl⟩ := Text.exists_split_of_isBoundary h
    refine ⟨Nat.le_add_left 1 _, Nat.le_add_left 1 _, ?_⟩
    rw [rest?_ofOffset, Text.dropBytes_append]
  · rcases Nat.lt_trichotomy o o' with hlt | rfl | hlt
    · exact absurd heq (hgrows o o' h h' hlt).ne
    · rfl
    · exact absurd ⟨heq.1.symm, heq.2.symm⟩ (hgrows o' o h' h hlt).ne

/-- A text with a character of two bytes on its second line. -/
def accentSource : Text := "ab\ncd\u00e9\nf"

theorem ofOffset_leads_accent :
    Text.isBoundary accentSource 7 = true ∧ Text.isBoundary accentSource 8 = true ∧
      (ofOffset accentSource 7).rest? accentSource = some "\nf" ∧
      (ofOffset accentSource 7).Precedes (ofOffset accentSource 8) := by
  have hbefore : Text.isBoundary accentSource 7 = true := by decide
  have hbehind : Text.isBoundary accentSource 8 = true := by decide
  have hleads := ofOffset_leads accentSource
  exact ⟨hbefore, hbehind, (hleads.1 7 hbefore).2.2, hleads.2.1 7 8 hbefore hbehind (by decide)⟩

end Position

end CanvasPage
