import CanvasPage.Proofs.Checked.Indentation
import CanvasPage.Proofs.Procedure.Reflowed
import CanvasPage.Proofs.Procedure.Relaid
import Mathlib.Order.Bounds.Basic

namespace CanvasPage.Procedure

/-- What is kept of a line: it loses the blanks at its end and the `k` bytes it begins with, which
are spaces and tabs. Of a blank line nothing is kept. -/
inductive IsDedented (k : Nat) : Text → Text → Prop where
  | blank {l : Text} (hl : Text.allBlank l = true) : IsDedented k l []
  | text {indent kept blanks : Text} (hindent : ∀ c ∈ indent, isIndent c = true)
      (hk : Text.byteLength indent = k) (hkept : ∃ c ∈ kept.getLast?, Text.isBlank c = false)
      (hblanks : Text.allBlank blanks = true) : IsDedented k (indent ++ (kept ++ blanks)) kept

/-- What is kept of lines, `k` being the least indentation of those that are not blank. -/
structure AreDedented (k : Nat) (ls kept : List Text) : Prop where
  least : IsLeast {n | ∃ l ∈ ls, Text.allBlank l = false ∧ indentation l = n} k
  lines : List.Forall₂ (IsDedented k) ls kept
  shifted : ∀ p ∈ ls.zip kept, Text.allBlank p.1 = false →
    indentation p.1 = k + indentation p.2
  flush : ∃ l ∈ kept, ∃ c ∈ l.head?, isIndent c = false

/-- The lines from the first to the last that is not blank. -/
structure AreInner (ls inner : List Text) : Prop where
  around : ∃ before after, ls = before ++ (inner ++ after) ∧
    (∀ l ∈ before, Text.allBlank l = true) ∧ ∀ l ∈ after, Text.allBlank l = true
  first : ∃ l ∈ inner.head?, Text.allBlank l = false
  last : ∃ l ∈ inner.getLast?, Text.allBlank l = false

namespace AreInner

variable {ls inner : List Text}

theorem ne_nil (h : AreInner ls inner) : inner ≠ [] := by
  obtain ⟨l, hl, -⟩ := h.first
  exact List.ne_nil_of_mem (List.mem_of_head? hl)

theorem exists_text (h : AreInner ls inner) : ∃ l ∈ inner, Text.allBlank l = false := by
  obtain ⟨l, hl, hblank⟩ := h.first
  exact ⟨l, List.mem_of_head? hl, hblank⟩

theorem not_allBlank_last (h : AreInner ls inner) :
    ∀ l ∈ inner.getLast?, Text.allBlank l = false := by
  obtain ⟨l, hl, hblank⟩ := h.last
  rintro m hm
  rwa [← Option.mem_unique hl hm]

end AreInner

section Line

variable {l kept : Text} {k : Nat}

theorem isDedented_dropIndent (hk : Text.allBlank l = false → k ≤ indentation l) :
    IsDedented k l (dropIndent k (Text.trimEnd l)) := by
  cases hl : Text.allBlank l with
  | true =>
    rw [dropIndent, Text.allBlank_trimEnd, if_pos hl]
    exact .blank hl
  | false =>
    obtain ⟨u, c, blanks, rfl, hc, hblanks⟩ := Text.exists_split_of_not_allBlank hl
    have hk := hk hl
    rw [indentation_append_cons hc] at hk
    have hle : k ≤ u.length := hk.trans (List.takeWhile_prefix _).length_le
    have hindent := isIndent_of_mem_take hk
    have hkept : dropIndent k (Text.trimEnd (u ++ c :: blanks)) = u.drop k ++ [c] := by
      rw [dropIndent, Text.allBlank_trimEnd, hl, if_neg Bool.false_ne_true, Text.trimEnd_append_cons hc,
        Text.trimEnd_of_allBlank hblanks, indentation_append_cons hc, Nat.min_eq_right hk,
        List.drop_append_of_le_length hle]
    have hsplit : u ++ c :: blanks = u.take k ++ ((u.drop k ++ [c]) ++ blanks) := by
      rw [List.append_assoc, ← List.append_assoc, List.take_append_drop]
      rfl
    rw [hkept, hsplit]
    refine .text hindent ?_ ⟨c, by simp, hc⟩ hblanks
    rw [Checked.byteLength_of_forall_isIndent hindent, List.length_take, Nat.min_eq_left hle]

theorem IsDedented.exists_last (h : IsDedented k l kept) (hl : Text.allBlank l = false) :
    ∃ u c, kept = u ++ [c] ∧ Text.isBlank c = false := by
  cases h with
  | blank hblank =>
    rw [hblank] at hl
    cases hl
  | text hindent hk hkept hblanks =>
    obtain ⟨c, hlast, hc⟩ := hkept
    obtain ⟨u, rfl⟩ := List.getLast?_eq_some_iff.mp hlast
    exact ⟨u, c, rfl, hc⟩

theorem IsDedented.indentation_eq (h : IsDedented k l kept) (hl : Text.allBlank l = false) :
    indentation l = k + indentation kept := by
  obtain ⟨u, c, hlast, hc⟩ := h.exists_last hl
  cases h with
  | blank => simp at hlast
  | text hindent hk hkept hblanks =>
    rw [indentation_append hindent, hlast, List.append_assoc, List.singleton_append,
      indentation_append_cons hc, indentation_append_cons hc, ← hk,
      Checked.byteLength_of_forall_isIndent hindent]

theorem IsDedented.isLine (h : IsDedented k l kept) (hl : '\n' ∉ l) :
    '\n' ∉ kept ∧ kept.getLast? ≠ some '\r' := by
  cases h with
  | blank hblank => exact ⟨List.not_mem_nil, by simp⟩
  | text hindent hk hkept hblanks =>
    obtain ⟨c, hlast, hc⟩ := hkept
    refine ⟨fun hbreak => hl (by simp [hbreak]), ?_⟩
    rw [Option.mem_def.mp hlast]
    exact fun hreturn => (Text.isBlank_lineBreak hc).2 (Option.some.inj hreturn)

end Line

section Lines

variable {ls : List Text} {l : Text}

theorem dedent_map_trimEnd (ls : List Text) : dedent (ls.map Text.trimEnd) =
    ls.map fun l => dropIndent (commonIndent ls) (Text.trimEnd l) := by
  rw [dedent, commonIndent_map_trimEnd, List.map_map]
  rfl

theorem isDedented_of_mem (hl : l ∈ ls) :
    IsDedented (commonIndent ls) l (dropIndent (commonIndent ls) (Text.trimEnd l)) :=
  isDedented_dropIndent fun hblank =>
    (commonIndent_isLeast ⟨l, hl, hblank⟩).2 ⟨l, hl, hblank, rfl⟩

theorem areDedented_dedent (htext : ∃ l ∈ ls, Text.allBlank l = false) :
    AreDedented (commonIndent ls) ls (dedent (ls.map Text.trimEnd)) := by
  have hleast := commonIndent_isLeast htext
  have hlines : List.Forall₂ (IsDedented (commonIndent ls)) ls
      (dedent (ls.map Text.trimEnd)) := by
    rw [dedent_map_trimEnd, List.forall₂_map_right_iff, List.forall₂_same]
    exact fun l hl => isDedented_of_mem hl
  refine ⟨hleast, hlines, fun p hp hblank => ?_, ?_⟩
  · exact (List.forall₂_zip hlines hp).indentation_eq hblank
  · obtain ⟨l, hl, hblank, hindent⟩ := hleast.1
    have hkept := isDedented_of_mem hl
    obtain ⟨u, c, hlast, -⟩ := hkept.exists_last hblank
    obtain ⟨d, rest, hcons⟩ : ∃ d rest, dropIndent (commonIndent ls) (Text.trimEnd l) = d :: rest :=
      List.exists_cons_of_ne_nil (by rw [hlast]; simp)
    refine ⟨d :: rest, ?_, d, rfl, ?_⟩
    · rw [dedent_map_trimEnd, ← hcons]
      exact List.mem_map_of_mem hl
    · have hshift := hkept.indentation_eq hblank
      rw [hcons] at hshift
      by_contra hd
      rw [Bool.not_eq_false] at hd
      rw [indentation, indentation, List.takeWhile_cons_of_pos hd, List.length_cons] at hshift
      rw [indentation] at hindent
      omega

theorem dropBlankEnds_map_trimEnd (ls : List Text) :
    dropBlankEnds (ls.map Text.trimEnd) = (dropBlankEnds ls).map Text.trimEnd := by
  have hblank : Text.allBlank ∘ Text.trimEnd = Text.allBlank := funext Text.allBlank_trimEnd
  rw [dropBlankEnds, dropBlankEnds, List.dropWhile_map, hblank, ← List.map_reverse,
    List.dropWhile_map, hblank, List.map_reverse]

theorem areInner_dropBlankEnds (htext : ∃ l ∈ ls, Text.allBlank l = false) :
    AreInner ls (dropBlankEnds ls) := by
  obtain ⟨before, after, hsplit, hbefore, hafter⟩ := exists_dropBlankEnds ls
  have hne : dropBlankEnds ls ≠ [] := by
    intro hnil
    obtain ⟨l, hl, hblank⟩ := htext
    rw [hsplit, hnil, List.nil_append] at hl
    rw [(List.forall_mem_append.mpr ⟨hbefore, hafter⟩) l hl] at hblank
    cases hblank
  refine ⟨⟨before, after, hsplit, hbefore, hafter⟩, ?_, ?_⟩
  · obtain ⟨k, rest, hcons⟩ := List.exists_cons_of_ne_nil hne
    obtain ⟨post, hpost⟩ := dropBlankEnds_prefix_dropWhile ls
    have hhead := List.head?_dropWhile_not Text.allBlank ls
    rw [← hpost, hcons] at hhead
    exact ⟨k, by rw [hcons]; rfl, hhead⟩
  · obtain ⟨l, hl⟩ := Option.ne_none_iff_exists'.mp (mt List.getLast?_eq_none_iff.mp hne)
    have hhead := List.head?_dropWhile_not Text.allBlank (ls.dropWhile Text.allBlank).reverse
    refine ⟨l, hl, ?_⟩
    rw [dropBlankEnds, List.getLast?_reverse] at hl
    rwa [hl] at hhead

theorem areLines_dedent (hls : ∀ l ∈ ls, '\n' ∉ l) :
    ∀ l ∈ dedent (ls.map Text.trimEnd), '\n' ∉ l ∧ l.getLast? ≠ some '\r' := by
  rw [dedent_map_trimEnd, List.forall_mem_map]
  exact fun l hl => (isDedented_of_mem hl).isLine (hls l hl)

theorem getLast?_dedent_ne_nil (hlast : ∀ l ∈ ls.getLast?, Text.allBlank l = false) :
    ∀ l ∈ (dedent (ls.map Text.trimEnd)).getLast?, l ≠ [] := by
  rw [dedent_map_trimEnd, List.getLast?_map]
  intro kept hkept
  obtain ⟨l, hl, rfl⟩ := Option.map_eq_some_iff.mp hkept
  obtain ⟨u, c, hu, -⟩ := (isDedented_of_mem (List.mem_of_getLast? hl)).exists_last (hlast l hl)
  rw [hu]
  simp

end Lines

section Body

variable {raw first : Text} {later rest : List Text}

theorem exists_dropBlankEnds_cons (hfirst : Text.allBlank first = false) (later : List Text) :
    ∃ rest, dropBlankEnds (first :: later) = first :: rest ∧ rest <+: later := by
  have hprefix := dropBlankEnds_prefix hfirst later
  obtain ⟨k, rest, hcons⟩ := List.exists_cons_of_ne_nil
    (areInner_dropBlankEnds ⟨first, List.mem_cons_self, hfirst⟩).ne_nil
  rw [hcons, List.cons_prefix_cons] at hprefix
  exact ⟨rest, by rw [hcons, hprefix.1], hprefix.2⟩

theorem normalizeIndentation_of_blank (hlines : Text.lines raw = first :: later)
    (hfirst : Text.allBlank first = true) (hkept : dropBlankEnds (first :: later) ≠ []) :
    normalizeIndentation raw =
      Text.join "\n" (dedent ((dropBlankEnds (first :: later)).map Text.trimEnd)) := by
  obtain ⟨k, rest, hcons⟩ := List.exists_cons_of_ne_nil hkept
  rw [normalizeIndentation, hlines, dropBlankEnds_map_trimEnd, hcons, List.map_cons, List.map_cons]
  dsimp only
  rw [Text.allBlank_trimEnd, hfirst, if_pos rfl]

theorem normalizeIndentation_of_text (hlines : Text.lines raw = first :: later)
    (hfirst : Text.allBlank first = false)
    (hkept : dropBlankEnds (first :: later) = first :: rest) :
    normalizeIndentation raw =
      Text.join "\n" (Text.trim first :: dedent (rest.map Text.trimEnd)) := by
  rw [normalizeIndentation, hlines, dropBlankEnds_map_trimEnd, hkept, List.map_cons, List.map_cons]
  dsimp only
  rw [Text.allBlank_trimEnd, hfirst, if_neg Bool.false_ne_true, Text.trim_trimEnd]

theorem lines_join_trim (hfirst : Text.allBlank first = false)
    (hbreak : ∀ l ∈ first :: rest, '\n' ∉ l)
    (hlast : ∀ l ∈ rest.getLast?, Text.allBlank l = false) :
    Text.lines (Text.join "\n" (Text.trim first :: dedent (rest.map Text.trimEnd))) =
      Text.trim first :: dedent (rest.map Text.trimEnd) := by
  obtain ⟨hbreakFirst, hbreakRest⟩ := List.forall_mem_cons.mp hbreak
  obtain ⟨u, c, blanks, hu, hc, -⟩ := Text.exists_split_of_not_allBlank hfirst
  refine Text.lines_join (List.forall_mem_cons.mpr ⟨⟨?_, ?_⟩, areLines_dedent hbreakRest⟩) ?_
  · exact fun h => hbreakFirst (Text.mem_of_mem_trim h)
  · exact fun h => (Text.isBlank_lineBreak (Text.getLast?_trim first _ h)).2 rfl
  · intro l hl
    by_cases hnil : dedent (rest.map Text.trimEnd) = []
    · rw [hnil, List.getLast?_singleton] at hl
      rw [← Option.some.inj hl]
      exact Text.trim_ne_nil (by rw [hu]; simp) hc
    · rw [List.getLast?_cons_of_ne_nil hnil] at hl
      exact getLast?_dedent_ne_nil hlast l hl

/-- Normalising keeps the lines from the first to the last that is not blank, and all of them lose
the same indentation, the least there is. Text on the first line is trimmed and has no say in it. -/
theorem normalizeIndentation_dedents (hlines : Text.lines raw = first :: later)
    (htext : ∃ l ∈ first :: later, Text.allBlank l = false) :
    Checked.normalizeIndentation raw = .ok (normalizeIndentation raw) ∧
      Text.join "\n" (Text.lines (normalizeIndentation raw)) = normalizeIndentation raw ∧
      ∃ inner, AreInner (first :: later) inner ∧
        (Text.allBlank first = true →
          ∃ k, AreDedented k inner (Text.lines (normalizeIndentation raw))) ∧
        (Text.allBlank first = false → ∃ rest kept, inner = first :: rest ∧
          Text.lines (normalizeIndentation raw) = Text.trim first :: kept ∧
          ((rest = [] ∧ kept = []) ∨ ∃ k, AreDedented k rest kept)) := by
  refine ⟨Checked.normalizeIndentation_eq_ok raw, ?_⟩
  have hinner := areInner_dropBlankEnds htext
  have hbreak : ∀ l ∈ dropBlankEnds (first :: later), '\n' ∉ l := fun l hl =>
    Text.not_mem_lines raw l (hlines ▸ (dropBlankEnds_isInfix _).subset hl)
  cases hfirst : Text.allBlank first with
  | true =>
    have hnormal := normalizeIndentation_of_blank hlines hfirst hinner.ne_nil
    have hkept := Text.lines_join (areLines_dedent hbreak)
      (getLast?_dedent_ne_nil hinner.not_allBlank_last)
    rw [← hnormal] at hkept
    have hdedent := areDedented_dedent hinner.exists_text
    rw [← hkept] at hdedent
    exact ⟨by rw [hkept, hnormal], _, hinner, fun _ => ⟨_, hdedent⟩, nofun⟩
  | false =>
    obtain ⟨rest, hrest, -⟩ := exists_dropBlankEnds_cons hfirst later
    rw [hrest] at hbreak hinner
    have hlast : ∀ l ∈ rest.getLast?, Text.allBlank l = false := fun l hl =>
      hinner.not_allBlank_last l (by
        rwa [List.getLast?_cons_of_ne_nil (List.ne_nil_of_mem (List.mem_of_getLast? hl))])
    have hnormal := normalizeIndentation_of_text hlines hfirst hrest
    have hkept := lines_join_trim hfirst hbreak hlast
    rw [← hnormal] at hkept
    refine ⟨by rw [hkept, hnormal], _, hinner, nofun, fun _ => ⟨rest, _, rfl, hkept, ?_⟩⟩
    cases hend : rest.getLast? with
    | none =>
      obtain rfl := List.getLast?_eq_none_iff.mp hend
      exact .inl ⟨rfl, rfl⟩
    | some l =>
      exact .inr ⟨_, areDedented_dedent ⟨l, List.mem_of_getLast? hend, hlast l hend⟩⟩

/-- Tabs and spaces in front, a blank line in between, and a no-break space that is no
indentation. -/
def spacedBody : Text := "\n\t a();  \n   \n\t \u00a0 b();\n  "

theorem normalizeIndentation_dedents_spacedBody :
    Text.lines spacedBody = [] :: ["\t a();  ", "   ", "\t \u00a0 b();", "  "] ∧
      Text.allBlank "\t a();  " = false ∧
      Checked.normalizeIndentation spacedBody = .ok (normalizeIndentation spacedBody) ∧
      ∃ inner, AreInner (Text.lines spacedBody) inner ∧
        ∃ k, AreDedented k inner (Text.lines (normalizeIndentation spacedBody)) := by
  have hlines : Text.lines spacedBody =
      [] :: ["\t a();  ", "   ", "\t \u00a0 b();", "  "] := by decide
  have hblank : Text.allBlank "\t a();  " = false := by decide
  obtain ⟨hrun, -, inner, hinner, hdedent, -⟩ :=
    normalizeIndentation_dedents hlines ⟨_, by decide, hblank⟩
  exact ⟨hlines, hblank, hrun, inner, hlines ▸ hinner, hdedent rfl⟩

end Body

end CanvasPage.Procedure
