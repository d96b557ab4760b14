import CanvasPage.Procedure.Arrow
import CanvasPage.Proofs.Pattern.Language

namespace CanvasPage.Arrow

open Pattern Script

variable {t : Text} {h : Header}

theorem exists_of_reads_arrow {p : Pattern} {before w after : Text} {gs : GroupTexts}
    (h : (p ++ "=>" ++ blanks ++ "\x7b").Reads before w after gs) :
    ∃ u ws, w = u ++ ("=>" ++ (ws ++ ['\x7b'])) ∧ Text.allBlank ws = true := by
  simp only [reads_append, reads_literal, reads_blanks] at h
  obtain ⟨_, _, _, _, rfl, rfl, ⟨_, ws, _, _, rfl, rfl, ⟨u, _, _, _, rfl, rfl, -, rfl, rfl⟩, hws,
    rfl⟩, rfl, rfl⟩ := h
  refine ⟨u, ws, ?_, hws⟩
  have hbrace : ("\x7b" : Text) = ['\x7b'] := rfl
  simp only [hbrace, List.append_assoc]

theorem exists_of_mem_occurrences {p : Pattern} {o : Occurrence}
    (ho : o ∈ (p ++ "=>" ++ blanks ++ "\x7b").occurrences t) :
    ∃ u ws v, t = u ++ ("=>" ++ (ws ++ '\x7b' :: v)) ∧ Text.allBlank ws = true ∧
      o.stop.before.length - 1 = u.length + 2 + ws.length := by
  obtain ⟨c, hwhole, hat⟩ := exists_at?_of_mem_occurrencesFrom ho
  obtain ⟨w, gs, -, hafter, hbefore, -, -, -, hread⟩ := exists_reads_of_at? hat
  obtain ⟨u, ws, rfl, hws⟩ := exists_of_reads_arrow hread
  refine ⟨c.before.reverse ++ u, ws, o.stop.after, ?_, hws, ?_⟩
  · have ht : t = c.before.reverse ++ c.after := by
      rw [← Cursor.whole, hwhole]
      rfl
    rw [ht, hafter]
    simp only [List.append_assoc, List.cons_append, List.nil_append]
  · have harrow : ("=>" : Text).length = 2 := rfl
    rw [hbefore]
    simp only [List.length_append, List.length_reverse, List.length_cons, List.length_nil, harrow]
    omega

theorem exists_of_mem_headers (hh : h ∈ headers t) :
    ∃ u ws v, t = u ++ ("=>" ++ (ws ++ '\x7b' :: v)) ∧ Text.allBlank ws = true ∧
      h.stop.before.length - 1 = u.length + 2 + ws.length := by
  rw [headers] at hh
  rcases List.mem_append.mp hh with hh | hh
  · obtain ⟨o, ho, rfl⟩ := List.mem_map.mp hh
    exact exists_of_mem_occurrences ho
  · obtain ⟨o, ho, hheader⟩ := List.mem_filterMap.mp hh
    obtain ⟨name, -, rfl⟩ := Option.map_eq_some_iff.mp hheader
    exact exists_of_mem_occurrences ho

/-- Where an arrow is the next thing, does a brace of a literal or none at all follow it? -/
def opensNoBlockAt (t : Text) (i : Nat) : Bool :=
  let after := t.drop (i + 2)
  !("=>" : Text).isPrefixOf (t.drop i) || (after.dropWhile Text.isBlank).head? != some '\x7b' ||
    inLiteral t (i + 2 + (after.takeWhile Text.isBlank).length)

theorem inLiteral_of_opensNoBlockAt (ht : ∀ i < t.length, opensNoBlockAt t i = true)
    {u ws v : Text} (hsplit : t = u ++ ("=>" ++ (ws ++ '\x7b' :: v)))
    (hws : Text.allBlank ws = true) : inLiteral t (u.length + 2 + ws.length) = true := by
  have hblank : ∀ c ∈ ws, Text.isBlank c = true := List.all_eq_true.mp hws
  have hdrop : t.drop u.length = "=>" ++ (ws ++ '\x7b' :: v) := by
    rw [hsplit, List.drop_left]
  have hafter : t.drop (u.length + 2) = ws ++ '\x7b' :: v := by
    rw [← List.drop_drop, hdrop]
    rfl
  have hstarts : ("=>" : Text).isPrefixOf ("=>" ++ (ws ++ '\x7b' :: v)) = true :=
    List.isPrefixOf_iff_prefix.mpr (List.prefix_append _ _)
  have htake : (ws ++ '\x7b' :: v).takeWhile Text.isBlank = ws := by
    rw [List.takeWhile_append_of_pos hblank, List.takeWhile_cons_of_neg (by decide),
      List.append_nil]
  have hbrace : (ws ++ '\x7b' :: v).dropWhile Text.isBlank = '\x7b' :: v := by
    rw [List.dropWhile_append_of_pos hblank, List.dropWhile_cons_of_neg (by decide)]
  have hlt : u.length < t.length := by
    rw [hsplit, List.length_append]
    simp
  have hhere := ht u.length hlt
  simpa [opensNoBlockAt, hdrop, hafter, hstarts, htake, hbrace] using hhere

theorem next?_eq_none (ht : ∀ u ws v, t = u ++ ("=>" ++ (ws ++ '\x7b' :: v)) →
      Text.allBlank ws = true → inLiteral t (u.length + 2 + ws.length) = true)
    (params : Text → List Text) : next? params t = none := by
  rw [next?, Option.map_eq_none_iff, List.find?_eq_none]
  intro h hh
  obtain ⟨u, ws, v, hsplit, hws, hlength⟩ := exists_of_mem_headers hh
  rw [isReplaceable, hlength, ht u ws v hsplit hws]
  simp

theorem rewriteUpTo_of_next?_eq_none {params : Text → List Text} (ht : next? params t = none)
    (bound : Nat) : rewriteUpTo params bound t = t := by
  cases bound with
  | zero => rfl
  | succ bound => rw [rewriteUpTo, ht]

end CanvasPage.Arrow
