import CanvasPage.Procedure.Body
import CanvasPage.Proofs.Procedure.PlainCode
import CanvasPage.Proofs.Text.Identifier
import CanvasPage.Proofs.Text.Lines
import CanvasPage.Proofs.Text.Trim
import Mathlib.Data.List.Basic
import Mathlib.Data.List.TakeWhile
import Mathlib.Order.Bounds.Basic

namespace CanvasPage.Procedure

/-- The lines of a body as it is emitted: trimmed and dedented, without blank lines around. -/
structure AreTidy (ls : List Text) : Prop where
  no_break : ∀ l ∈ ls, '\n' ∉ l
  trimmed : ∀ l ∈ ls, ∀ c ∈ l.getLast?, Text.isBlank c = false
  first : ∀ l ∈ ls.head?, Text.allBlank l = false
  last : ∀ l ∈ ls.getLast?, Text.allBlank l = false
  flush : ∃ l ∈ ls, ∃ c ∈ l.head?, isIndent c = false

theorem areTidy_of_checks {ls : List Text} (hbreak : (ls.all fun l => !l.contains '\n') = true)
    (htrimmed : (ls.all fun l => l.getLast?.all (!Text.isBlank ·)) = true)
    (hfirst : ls.head?.all (!Text.allBlank ·) = true)
    (hlast : ls.getLast?.all (!Text.allBlank ·) = true)
    (hflush : (ls.any fun l => l.head?.any (!isIndent ·)) = true) : AreTidy ls where
  no_break := by simpa using hbreak
  trimmed := by simpa [Option.all_eq_true] using htrimmed
  first := by simpa [Option.all_eq_true] using hfirst
  last := by simpa [Option.all_eq_true] using hlast
  flush := by simpa [Option.any_eq_true] using hflush

def spaces (k : Nat) : Text := List.replicate k ' '

/-- A line moved to the right, unless it is empty. -/
def shift (k : Nat) (l : Text) : Text := if l = [] then [] else spaces k ++ l

variable {l : Text} {ls : List Text}

theorem allBlank_spaces (k : Nat) : Text.allBlank (spaces k) = true := by
  rw [Text.allBlank, List.all_eq_true]
  intro c hc
  rw [List.eq_of_mem_replicate hc]
  decide

theorem allBlank_shift (k : Nat) (l : Text) : Text.allBlank (shift k l) = Text.allBlank l := by
  rw [shift]
  split
  · rename_i hl
    rw [hl]
  · rw [Text.allBlank_append, allBlank_spaces, Bool.true_and]

theorem trimEnd_spaces_append (hl : ∀ c ∈ l.getLast?, Text.isBlank c = false) (k : Nat) :
    Text.trimEnd (spaces k ++ l) = shift k l := by
  rw [shift]
  split
  · rename_i hnil
    rw [hnil, List.append_nil]
    exact Text.trimEnd_of_allBlank (allBlank_spaces k)
  · rename_i hne
    refine Text.dropEndWhile_of_getLast? ?_
    rwa [List.getLast?_append_of_ne_nil _ hne]

theorem isIndent_of_mem_take {k : Nat} (hk : k ≤ indentation l) :
    ∀ c ∈ l.take k, isIndent c = true := by
  have hprefix : l.take (indentation l) = l.takeWhile isIndent :=
    (List.prefix_iff_eq_take.mp (List.takeWhile_prefix _)).symm
  intro c hc
  refine List.all_eq_true.mp (List.all_takeWhile (l := l)) c ?_
  rw [← hprefix]
  exact List.take_subset_take_left l hk hc

theorem indentation_append {t : Text} (ht : ∀ c ∈ t, isIndent c = true) (u : Text) :
    indentation (t ++ u) = t.length + indentation u := by
  rw [indentation, List.takeWhile_append_of_pos ht, List.length_append]
  rfl

theorem indentation_spaces_append (k : Nat) (l : Text) :
    indentation (spaces k ++ l) = k + indentation l := by
  have hspaces : ∀ c ∈ spaces k, isIndent c = true := by
    intro c hc
    rw [List.eq_of_mem_replicate hc]
    rfl
  rw [indentation_append hspaces, spaces, List.length_replicate]

theorem dropIndent_shift (hl : ∀ c ∈ l.getLast?, Text.isBlank c = false) (k : Nat) :
    dropIndent k (shift k l) = l := by
  rw [dropIndent, allBlank_shift]
  split
  · rename_i hblank
    exact ((Text.allBlank_iff hl).mp hblank).symm
  · rename_i hblank
    have hne : l ≠ [] := fun h => hblank (by rw [h]; rfl)
    rw [shift, if_neg hne, indentation_spaces_append, Nat.min_eq_right (Nat.le_add_right _ _)]
    exact List.drop_left' List.length_replicate

theorem commonIndent_isLeast (htext : ∃ l ∈ ls, Text.allBlank l = false) :
    IsLeast {n | ∃ l ∈ ls, Text.allBlank l = false ∧ indentation l = n} (commonIndent ls) := by
  obtain ⟨l, hl, hblank⟩ := htext
  have hmem : ∀ n, n ∈ (ls.filter (!Text.allBlank ·)).map indentation ↔
      ∃ l ∈ ls, Text.allBlank l = false ∧ indentation l = n := by
    simp [and_assoc]
  obtain ⟨k, hk⟩ : ∃ k, ((ls.filter (!Text.allBlank ·)).map indentation).min? = some k := by
    refine Option.ne_none_iff_exists'.mp fun hnone => ?_
    rw [List.min?_eq_none_iff] at hnone
    exact List.not_mem_nil (hnone ▸ (hmem _).mpr ⟨l, hl, hblank, rfl⟩)
  rw [commonIndent, hk, Option.getD_some]
  obtain ⟨hleast, hle⟩ := List.min?_eq_some_iff.mp hk
  exact ⟨(hmem k).mp hleast, fun n hn => hle n ((hmem n).mpr hn)⟩

theorem commonIndent_shift (hls : AreTidy ls) (k : Nat) : commonIndent (ls.map (shift k)) = k := by
  have hindent : ∀ m ∈ ls.map (shift k), Text.allBlank m = false →
      ∃ l ∈ ls, m = spaces k ++ l := by
    intro m hm hblank
    obtain ⟨l, hl, rfl⟩ := List.mem_map.mp hm
    refine ⟨l, hl, ?_⟩
    rw [allBlank_shift] at hblank
    rw [shift, if_neg]
    rintro rfl
    cases hblank
  obtain ⟨l, hl, c, hc, hflush⟩ := hls.flush
  obtain ⟨rest, rfl⟩ : ∃ rest, l = c :: rest := List.head?_eq_some_iff.mp hc
  have hblank : Text.allBlank (c :: rest) = false := by
    rw [← Bool.not_eq_true, Text.allBlank_iff (hls.trimmed _ hl)]
    exact List.cons_ne_nil c rest
  have hleast : IsLeast
      {n | ∃ m ∈ ls.map (shift k), Text.allBlank m = false ∧ indentation m = n} k := by
    refine ⟨⟨shift k (c :: rest), List.mem_map_of_mem hl, by rw [allBlank_shift, hblank], ?_⟩, ?_⟩
    · rw [shift, if_neg (List.cons_ne_nil c rest), indentation_spaces_append, indentation,
        List.takeWhile_cons_of_neg (by simp [hflush])]
      rfl
    · rintro n ⟨m, hm, hblank, rfl⟩
      obtain ⟨l, -, rfl⟩ := hindent m hm hblank
      rw [indentation_spaces_append]
      exact Nat.le_add_right _ _
  obtain ⟨m, hm, hblank, -⟩ := hleast.1
  exact (commonIndent_isLeast ⟨m, hm, hblank⟩).unique hleast

theorem dropBlankEnds_of_ends (hfirst : ∀ l ∈ ls.head?, Text.allBlank l = false)
    (hlast : ∀ l ∈ ls.getLast?, Text.allBlank l = false) : dropBlankEnds ls = ls := by
  have hdrop : ∀ ms : List Text, (∀ l ∈ ms.head?, Text.allBlank l = false) →
      ms.dropWhile Text.allBlank = ms := by
    intro ms hms
    cases ms with
    | nil => rfl
    | cons m ms => exact List.dropWhile_cons_of_neg (by simp [hms m rfl])
  rw [dropBlankEnds, hdrop ls hfirst, hdrop ls.reverse (by rwa [List.head?_reverse]),
    List.reverse_reverse]

theorem ends_shift (hls : AreTidy ls) (k : Nat) :
    (∀ l ∈ (ls.map (shift k)).head?, Text.allBlank l = false) ∧
      ∀ l ∈ (ls.map (shift k)).getLast?, Text.allBlank l = false := by
  rw [List.head?_map, List.getLast?_map]
  refine ⟨fun m hm => ?_, fun m hm => ?_⟩
  · obtain ⟨l, hl, rfl⟩ := Option.map_eq_some_iff.mp hm
    rw [allBlank_shift]
    exact hls.first l hl
  · obtain ⟨l, hl, rfl⟩ := Option.map_eq_some_iff.mp hm
    rw [allBlank_shift]
    exact hls.last l hl

theorem lines_indented (hls : AreTidy ls) (k : Nat) :
    (Text.lines ('\n' :: Page.unlines (ls.map (spaces k ++ ·)))).map Text.trimEnd =
      [] :: ls.map (shift k) := by
  have hsafe : ∀ m ∈ ls.map (spaces k ++ ·), '\n' ∉ m ∧ m.getLast? ≠ some '\r' := by
    intro m hm
    obtain ⟨l, hl, rfl⟩ := List.mem_map.mp hm
    have hspaces : ∀ c ∈ spaces k, c = ' ' := fun c hc => List.eq_of_mem_replicate hc
    constructor
    · intro hmem
      rcases List.mem_append.mp hmem with h | h
      · exact absurd (hspaces _ h) (by decide)
      · exact hls.no_break l hl h
    · have hne : ∀ c ∈ (spaces k ++ l).getLast?, c ≠ '\r' := by
        refine Text.forall_getLast?_append (fun c hc => ?_) fun c hc hreturn => ?_
        · rw [hspaces c (List.mem_of_getLast? hc)]
          decide
        · have hblank := hls.trimmed l hl c hc
          rw [hreturn] at hblank
          exact absurd hblank (by decide)
      exact fun hlast => hne _ hlast rfl
  have hlines : Text.lines ('\n' :: Page.unlines (ls.map (spaces k ++ ·))) =
      [] :: Text.lines (Page.unlines (ls.map (spaces k ++ ·))) := rfl
  have htrim : ∀ l ∈ ls, Text.trimEnd (spaces k ++ l) = shift k l :=
    fun l hl => trimEnd_spaces_append (hls.trimmed l hl) k
  rw [hlines, Text.lines_unlines hsafe, List.map_cons, List.map_map]
  exact congrArg _ (List.map_congr_left htrim)

theorem normalizeIndentation_indented (hls : AreTidy ls) (k : Nat) :
    normalizeIndentation ('\n' :: Page.unlines (ls.map (spaces k ++ ·))) = Text.join "\n" ls := by
  obtain ⟨hfirst, hlast⟩ := ends_shift hls k
  have hdedent : dedent (ls.map (shift k)) = ls := by
    rw [dedent, commonIndent_shift hls, List.map_map]
    have hback : ∀ l ∈ ls, (dropIndent k ∘ shift k) l = l :=
      fun l hl => dropIndent_shift (hls.trimmed l hl) k
    rw [List.map_congr_left hback, List.map_id']
  have hkept : dropBlankEnds ([] :: ls.map (shift k)) = ls.map (shift k) := by
    have hdrop : dropBlankEnds ([] :: ls.map (shift k)) = dropBlankEnds (ls.map (shift k)) := rfl
    rw [hdrop, dropBlankEnds_of_ends hfirst hlast]
  obtain ⟨l, ms, rfl⟩ : ∃ l ms, ls = l :: ms := by
    obtain ⟨l, hl, -⟩ := hls.flush
    exact List.exists_cons_of_ne_nil (List.ne_nil_of_mem hl)
  rw [normalizeIndentation, lines_indented hls, hkept]
  exact congrArg (Text.join "\n") hdedent

end CanvasPage.Procedure

namespace CanvasPage

namespace Script

/-- A character that opens no literal. -/
def isBare (c : Char) : Bool := !(isQuote c || isBacktick c || c == '/')

variable {c : Char} {t : Text}

theorem start_of_isBare (hc : isBare c = true) (next : Option Char) :
    State.start.role c next = .code ∧ State.start.step c = .start := by
  simp only [isBare, Bool.not_eq_true', Bool.or_eq_false_iff] at hc
  simp [State.start, State.role, State.step, stepCode, hc]

theorem segments_of_isBare (hne : t ≠ []) (ht : ∀ c ∈ t, isBare c = true) :
    segments t = [.code t] := by
  rw [segments]
  induction t with
  | nil => exact absurd rfl hne
  | cons c t ih =>
    obtain ⟨hc, ht⟩ := List.forall_mem_cons.mp ht
    cases t with
    | nil => rw [roles, (start_of_isBare hc _).1]; rfl
    | cons d t =>
      have hrest := ih (List.cons_ne_nil d t) ht
      rw [roles, List.zip_cons_cons] at hrest
      rw [roles, (start_of_isBare hc _).1, (start_of_isBare hc none).2, roles, List.zip_cons_cons,
        List.zip_cons_cons, chunk, hrest, (start_of_isBare (ht d (by simp)) _).1]
      rfl

end Script

namespace Substitution

variable {s : Substitution} {t : Text}

theorem apply_of_isBare (hne : t ≠ []) (ht : ∀ c ∈ t, Script.isBare c = true) :
    s.apply t = s.pattern.replaceAll s.replacement t := by
  rw [apply, Script.segments_of_isBare hne ht, List.flatMap_singleton]

theorem apply_eq_self (hne : t ≠ []) (ht : ∀ c ∈ t, Script.isBare c = true)
    (h : ∀ before w rest gs, t = before.reverse ++ (w ++ rest) → ¬ s.pattern.Reads before w rest gs) :
    s.apply t = t := by
  rw [apply_of_isBare hne ht]
  exact Pattern.replaceAll_eq_self fun before w rest gs hsplit _ => h before w rest gs hsplit

end Substitution

namespace Procedure

variable {t : Text}

theorem normalizeIndentation_of_not_mem (hbreak : '\n' ∉ t) :
    normalizeIndentation t = Text.trim t := by
  by_cases hne : t = []
  · rw [hne]
    rfl
  have hlines : (Text.lines t).map Text.trimEnd = [Text.trimEnd t] := by
    rw [Text.lines_of_not_mem hbreak hne, List.map_singleton]
  rw [normalizeIndentation, hlines, ← Text.trim_trimEnd]
  cases hblank : Text.allBlank t with
  | true =>
    rw [Text.trimEnd_of_allBlank hblank]
    rfl
  | false =>
    have hall : Text.allBlank (Text.trimEnd t) = false := by rw [Text.allBlank_trimEnd, hblank]
    rw [dropBlankEnds_of_ends (by simpa using hall) (by simpa using hall)]
    dsimp only
    rw [hall, if_neg Bool.false_ne_true]
    rfl

end Procedure

end CanvasPage
