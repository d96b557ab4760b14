import CanvasPage.Proofs.Procedure.Header

namespace CanvasPage.Arrow

open Pattern Script

variable {params : Text → List Text} {t : Text} {h : Header} {r : Rewrite}

/-- The replacement goes on a word, as in `asyncfunction(x) {`. -/
def Rewrite.ContinuesWord (r : Rewrite) : Prop :=
  ∃ c ∈ r.start.before.head?, Text.continuesIdentifier c = true

/-- A header with parentheses right behind a word, as in `async(x) => {`, with the word reversed. -/
structure IsCalled (before w : Text) : Prop where
  word : ∃ c ∈ before.head?, Text.continuesIdentifier c = true
  header : ∃ p v, w = '(' :: (p ++ ')' :: v) ∧ (∀ c ∈ p, isParen c = false) ∧ IsTail v

theorem continuesIdentifier_of_endsName {c : Char} (hc : endsName c = true) :
    Text.continuesIdentifier c = false := by
  rw [endsName, Bool.not_eq_true', Bool.or_eq_false_iff] at hc
  exact hc.1

theorem exists_isCalled_iff_of_mem_headers (hh : h ∈ headers t) :
    ∃ w, t = h.start.before.reverse ++ (w ++ h.stop.after) ∧ IsHeader h.params w ∧
      ((∃ c ∈ h.start.before.head?, Text.continuesIdentifier c = true) ↔
        IsCalled h.start.before w) := by
  rw [headers] at hh
  rcases List.mem_append.mp hh with hh | hh
  · obtain ⟨o, ho, rfl⟩ := List.mem_map.mp hh
    obtain ⟨v, hsplit, hp, hv⟩ := exists_of_mem_parenthesized ho
    exact ⟨_, hsplit, .parenthesized hp hv, fun hword => ⟨hword, _, v, rfl, hp, hv⟩, (·.word)⟩
  · obtain ⟨o, ho, hheader⟩ := List.mem_filterMap.mp hh
    obtain ⟨name, hname, rfl⟩ := Option.map_eq_some_iff.mp hheader
    obtain ⟨v, hsplit, hlead, hname, hv⟩ := exists_of_mem_singleParameter ho hname
    have hnot : ¬ ∃ c ∈ name.start.before.head?, Text.continuesIdentifier c = true := by
      rintro ⟨c, hc, hword⟩
      rw [continuesIdentifier_of_endsName (hlead c hc)] at hword
      cases hword
    exact ⟨_, hsplit, .single hname hv.isTail, fun hword => absurd hword hnot,
      fun hcalled => absurd hcalled.word hnot⟩

/-- The keyword `function` is put behind a word where the parentheses of a header follow the word
at once, and nowhere else. -/
theorem continuesWord_iff_of_next? (hnext : next? params t = some r) :
    ∃ p w, t = r.start.before.reverse ++ (w ++ r.stop.after) ∧ IsHeader p w ∧
      (r.ContinuesWord ↔ IsCalled r.start.before w) := by
  obtain ⟨h, hfind, rfl⟩ := Option.map_eq_some_iff.mp hnext
  obtain ⟨w, hsplit, hheader, hcalled⟩ :=
    exists_isCalled_iff_of_mem_headers (List.mem_of_find?_eq_some hfind)
  exact ⟨h.params, w, hsplit, hheader, hcalled⟩

theorem continuesWord_iff_of_async :
    next? (fun p => [p]) "async(x)=>\x7b\x7d" =
        some ⟨⟨"cnysa".toList, "(x)=>\x7b\x7d".toList⟩, ⟨"\x7b>=)x(cnysa".toList, ['\x7d']⟩,
          "function(x) \x7b".toList⟩ ∧
      ∃ p w, ("async(x)=>\x7b\x7d" : Text) = "async" ++ (w ++ ['\x7d']) ∧ IsHeader p w ∧
        ((∃ c ∈ ("cnysa" : Text).head?, Text.continuesIdentifier c = true) ↔
          IsCalled "cnysa" w) :=
  have hnext : next? (fun p => [p]) "async(x)=>\x7b\x7d" =
      some ⟨⟨"cnysa".toList, "(x)=>\x7b\x7d".toList⟩, ⟨"\x7b>=)x(cnysa".toList, ['\x7d']⟩,
        "function(x) \x7b".toList⟩ := by decide
  ⟨hnext, continuesWord_iff_of_next? hnext⟩

end CanvasPage.Arrow
