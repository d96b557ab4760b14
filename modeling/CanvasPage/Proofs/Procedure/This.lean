import CanvasPage.Procedure.Body
import CanvasPage.Proofs.Procedure.Header

namespace CanvasPage

namespace Text

variable {w p q t : Text} {c : Char}

/-- Does a word stand in a text, with no identifier character on either side of it? -/
def HasWord (w t : Text) : Prop :=
  ∃ a b, t = a ++ (w ++ b) ∧ a.getLast?.any isIdentifierChar = false ∧
    b.head?.any isIdentifierChar = false

theorem not_hasWord_nil (hw : w ≠ []) : ¬ HasWord w [] := by
  rintro ⟨a, b, h, -⟩
  exact hw (List.append_eq_nil_iff.mp (List.append_eq_nil_iff.mp h.symm).2).1

theorem HasWord.append_cons (hc : isIdentifierChar c = false) (h : HasWord w p) (q : Text) :
    HasWord w (p ++ c :: q) := by
  obtain ⟨a, b, rfl, ha, hb⟩ := h
  refine ⟨a, b ++ c :: q, by simp, ha, ?_⟩
  cases b with
  | nil => exact hc
  | cons d b => exact hb

theorem HasWord.cons_right (hc : isIdentifierChar c = false) (h : HasWord w q) (p : Text) :
    HasWord w (p ++ c :: q) := by
  obtain ⟨a, b, rfl, ha, hb⟩ := h
  refine ⟨p ++ c :: a, b, by simp, ?_, hb⟩
  rw [List.getLast?_append_of_ne_nil _ (List.cons_ne_nil c a), List.getLast?_cons]
  cases hlast : a.getLast? with
  | none => exact hc
  | some d => rwa [hlast] at ha

theorem hasWord_append_cons (hne : w ≠ []) (hw : ∀ d ∈ w, isIdentifierChar d = true)
    (hc : isIdentifierChar c = false) :
    HasWord w (p ++ c :: q) ↔ HasWord w p ∨ HasWord w q := by
  refine ⟨?_, fun h => h.elim (·.append_cons hc q) (·.cons_right hc p)⟩
  have hnot : c ∉ w := fun h => by rw [hw c h] at hc; cases hc
  rintro ⟨a, b, hsplit, ha, hb⟩
  rcases List.append_eq_append_iff.mp hsplit with ⟨k, rfl, hk⟩ | ⟨k, rfl, hk⟩
  · -- the word starts behind `p`
    cases k with
    | nil =>
      obtain ⟨d, w, rfl⟩ := List.exists_cons_of_ne_nil hne
      exact absurd (List.mem_cons.mpr (.inl (List.cons.inj hk).1)) hnot
    | cons d k =>
      obtain ⟨rfl, rfl⟩ := List.cons.inj hk
      refine .inr ⟨k, b, rfl, ?_, hb⟩
      rw [List.getLast?_append_of_ne_nil _ (List.cons_ne_nil c k), List.getLast?_cons] at ha
      cases hlast : k.getLast? with
      | none => rfl
      | some d => rwa [hlast] at ha
  · -- the word starts in `p`, and ends there
    rcases List.append_eq_append_iff.mp hk with ⟨j, rfl, rfl⟩ | ⟨j, rfl, hj⟩
    · refine .inl ⟨a, j, rfl, ha, ?_⟩
      cases j with
      | nil => rfl
      | cons d j => exact hb
    · cases j with
      | nil => exact .inl ⟨a, [], by simp, ha, rfl⟩
      | cons d j =>
        obtain ⟨rfl, -⟩ := List.cons.inj hj
        exact absurd (by simp) hnot

end Text

namespace Arrow

open Script

variable {params : Text → List Text} {t u : Text} {rs : List Rewrite}

theorem mentionsThisAfter_iff (previous : Option Char) (t : Text) :
    mentionsThisAfter previous t = true ↔
      ∃ a b, t = a ++ (("this" : Text) ++ b) ∧
        (a.getLast?.or previous).any Text.isIdentifierChar = false ∧
        b.head?.any Text.isIdentifierChar = false := by
  induction t generalizing previous with
  | nil => simp [mentionsThisAfter]
  | cons c t ih =>
    rw [mentionsThisAfter, Bool.or_eq_true, ih]
    constructor
    · rintro (hhere | ⟨a, b, rfl, ha, hb⟩)
      · simp only [Bool.and_eq_true, Bool.not_eq_true'] at hhere
        obtain ⟨⟨hprevious, hword⟩, hnext⟩ := hhere
        obtain ⟨b, hb⟩ := List.isPrefixOf_iff_prefix.mp hword
        refine ⟨[], b, hb.symm, hprevious, ?_⟩
        rwa [← (List.cons.inj hb).2] at hnext
      · refine ⟨c :: a, b, rfl, ?_, hb⟩
        rw [List.getLast?_cons]
        cases hlast : a.getLast? <;> simpa [hlast] using ha
    · rintro ⟨a, b, hsplit, ha, hb⟩
      cases a with
      | nil =>
        refine .inl ?_
        rw [List.nil_append] at hsplit
        simp only [Bool.and_eq_true, Bool.not_eq_true']
        refine ⟨⟨ha, List.isPrefixOf_iff_prefix.mpr ⟨b, hsplit.symm⟩⟩, ?_⟩
        rw [(List.cons.inj hsplit).2]
        exact hb
      | cons d a =>
        obtain ⟨rfl, rfl⟩ := List.cons.inj hsplit
        refine .inr ⟨a, b, rfl, ?_, hb⟩
        rw [List.getLast?_cons] at ha
        cases hlast : a.getLast? <;> simpa [hlast] using ha

theorem mentionsThis_iff (t : Text) : mentionsThis t = true ↔ Text.HasWord "this" t := by
  rw [mentionsThis, mentionsThisAfter_iff]
  simp only [Option.or_none]
  rfl

/-- The rewrites that are made one after the other on the way from a text to another. -/
inductive Rewrites (params : Text → List Text) : Text → List Rewrite → Text → Prop where
  | nil {t : Text} : Rewrites params t [] t
  | cons {t u : Text} {r : Rewrite} {rs : List Rewrite} (hnext : next? params t = some r)
      (hrest : Rewrites params r.result rs u) : Rewrites params t (r :: rs) u

theorem exists_rewrites_rewriteUpTo (params : Text → List Text) (bound : Nat) (t : Text) :
    ∃ rs, Rewrites params t rs (rewriteUpTo params bound t) := by
  fun_induction rewriteUpTo params bound t with
  | case1 t => exact ⟨[], .nil⟩
  | case2 bound t hnone => exact ⟨[], .nil⟩
  | case3 bound t r hnext ih =>
    obtain ⟨rs, hrs⟩ := ih
    exact ⟨r :: rs, .cons hnext hrs⟩

theorem Rewrites.eq_of_next?_none {params : Text → List Text} {t u : Text} {rs : List Rewrite}
    (h : Rewrites params t rs u) (hnext : next? params t = none) : rs = [] ∧ u = t := by
  cases h with
  | nil => exact ⟨rfl, rfl⟩
  | cons hsome => cases hsome.symm.trans hnext

theorem Rewrites.cases_of_next? {params : Text → List Text} {t u : Text} {r : Rewrite}
    {rs : List Rewrite} (h : Rewrites params t rs u) (hnext : next? params t = some r) :
    (rs = [] ∧ u = t) ∨ ∃ qs, rs = r :: qs ∧ Rewrites params r.result qs u := by
  cases h with
  | nil => exact .inl ⟨rfl, rfl⟩
  | @cons _ _ q qs hsome hrest =>
    obtain rfl := Option.some.inj (hsome.symm.trans hnext)
    exact .inr ⟨qs, rfl, hrest⟩

/-- The arrow function of a rewrite, from its parameters through the brace that closes its block. -/
structure Rewrite.IsOfArrow (r : Rewrite) (header block : Text) : Prop where
  isHeader : ∃ p, IsHeader p header
  start : r.stop.before.reverse = r.start.before.reverse ++ header
  block : ∃ rest, Bracket.brace.enclosed? r.stop.after = some (block, rest)

theorem exists_isOfArrow_of_next? {r : Rewrite} (hnext : next? params t = some r) :
    ∃ header block, r.IsOfArrow header block ∧
      (Text.HasWord "this" (header ++ (block ++ ['\x7d'])) ↔ Text.HasWord "this" header) := by
  have hne : ("this" : Text) ≠ [] := List.cons_ne_nil _ _
  have hword : ∀ d ∈ ("this" : Text), Text.isIdentifierChar d = true := by decide
  obtain ⟨h, hfind, rfl⟩ := Option.map_eq_some_iff.mp hnext
  obtain ⟨x, -, hstop, hheader⟩ := exists_of_mem_headers_split (List.mem_of_find?_eq_some hfind)
  have hreplaceable := List.find?_some hfind
  rw [isReplaceable, Bool.and_eq_true] at hreplaceable
  cases hblock : Bracket.brace.enclosed? h.stop.after with
  | none => simp [hblock] at hreplaceable
  | some found =>
    obtain ⟨block, rest⟩ := found
    have hthis : ¬ Text.HasWord "this" block := by
      rw [← mentionsThis_iff]
      simpa [hblock] using hreplaceable.2
    refine ⟨x ++ ['\x7b'], block, ⟨⟨_, hheader⟩, hstop, rest, hblock⟩, ?_⟩
    have hnil := Text.not_hasWord_nil hne
    rw [List.append_assoc, List.singleton_append, Text.hasWord_append_cons hne hword (by decide),
      Text.hasWord_append_cons hne hword (by decide),
      Text.hasWord_append_cons hne hword (by decide)]
    simp only [hthis, hnil, or_false]

theorem Rewrites.exists_isOfArrow (h : Rewrites params t rs u) {r : Rewrite} (hr : r ∈ rs) :
    ∃ header block, r.IsOfArrow header block ∧
      (Text.HasWord "this" (header ++ (block ++ ['\x7d'])) ↔ Text.HasWord "this" header) := by
  induction h with
  | nil => cases hr
  | cons hnext hrest ih =>
    rcases List.mem_cons.mp hr with rfl | hr
    · exact exists_isOfArrow_of_next? hnext
    · exact ih hr

end Arrow

namespace Procedure

/-- The arrow functions that the rewriting of a body replaces, one after the other, mention `this`
only if their headers do. The bodies of default values are rewritten with less depth. -/
theorem exists_rewrites_rewriteBodyWithin (depth : Nat) (raw : Text) :
    ∃ rs, Arrow.Rewrites (Parameter.textsWith (rewriteBodyWithin (depth - 1)))
        (Substitution.applyAll (normalizeIndentation raw)) rs (rewriteBodyWithin depth raw) ∧
      ∀ r ∈ rs, ∃ header block, r.IsOfArrow header block ∧
        (Text.HasWord "this" (header ++ (block ++ ['\x7d'])) ↔ Text.HasWord "this" header) := by
  have hrewrites : ∃ rs, Arrow.Rewrites (Parameter.textsWith (rewriteBodyWithin (depth - 1)))
      (Substitution.applyAll (normalizeIndentation raw)) rs (rewriteBodyWithin depth raw) := by
    cases depth with
    | zero => exact ⟨[], .nil⟩
    | succ depth => exact Arrow.exists_rewrites_rewriteUpTo _ _ _
  obtain ⟨rs, hrs⟩ := hrewrites
  exact ⟨rs, hrs, fun r => hrs.exists_isOfArrow⟩

end Procedure

end CanvasPage
