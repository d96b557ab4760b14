import CanvasPage.Proofs.Procedure.Reflow

namespace CanvasPage

namespace Text

variable {separator : Text} {ks ls : List Text}

theorem join_isPrefix (separator : Text) (ks ls : List Text) :
    join separator ks <+: join separator (ks ++ ls) := by
  induction ks with
  | nil => exact List.nil_prefix
  | cons k ks ih =>
    cases ks with
    | nil =>
      cases ls with
      | nil => exact List.prefix_refl _
      | cons l ls =>
        rw [List.singleton_append, join_cons_cons]
        exact List.prefix_append k _
    | cons k' ks =>
      rw [List.cons_append, List.cons_append, join_cons_cons, join_cons_cons]
      exact (List.prefix_append_right_inj _).mpr ((List.prefix_append_right_inj _).mpr ih)

theorem join_isSuffix (separator : Text) (ks ls : List Text) :
    join separator ls <:+ join separator (ks ++ ls) := by
  induction ks with
  | nil => exact List.suffix_refl _
  | cons k ks ih =>
    cases hrest : ks ++ ls with
    | nil =>
      rw [(List.append_eq_nil_iff.mp hrest).2]
      exact List.nil_suffix
    | cons l ms =>
      rw [hrest] at ih
      rw [List.cons_append, hrest, join_cons_cons, ← List.append_assoc]
      exact ih.trans (List.suffix_append _ _)

theorem join_isInfix (h : ks <:+: ls) : join separator ks <:+: join separator ls := by
  obtain ⟨js, ms, rfl⟩ := h
  rw [List.append_assoc]
  exact (join_isPrefix separator ks ms).isInfix.trans (join_isSuffix separator js _).isInfix

end Text

namespace Reflows

variable {t u v w x y : Text} {c d : Char}

theorem exists_of_append (h : Reflows t (u ++ v)) :
    ∃ t₁ t₂, t = t₁ ++ t₂ ∧ Reflows t₁ u ∧ Reflows t₂ v := by
  generalize hw : u ++ v = w at h
  induction h generalizing u with
  | nil =>
    obtain ⟨rfl, rfl⟩ := List.append_eq_nil_iff.mp hw
    exact ⟨[], [], rfl, .nil, .nil⟩
  | @keep t w c h ih =>
    rcases List.append_eq_cons_iff.mp hw with ⟨rfl, rfl⟩ | ⟨u, rfl, rfl⟩
    · exact ⟨[], c :: t, rfl, .nil, .keep c h⟩
    · obtain ⟨t₁, t₂, rfl, h₁, h₂⟩ := ih rfl
      exact ⟨c :: t₁, t₂, rfl, .keep c h₁, h₂⟩
  | @gap t w ws bs hws hbs h ih =>
    rcases List.append_eq_cons_iff.mp hw with ⟨rfl, rfl⟩ | ⟨u, rfl, rfl⟩
    · exact ⟨[], ws ++ '\n' :: (bs ++ t), rfl, .nil, .gap hws hbs h⟩
    · obtain ⟨t₁, t₂, rfl, h₁, h₂⟩ := ih rfl
      exact ⟨ws ++ '\n' :: (bs ++ t₁), t₂, by simp, .gap hws hbs h₁, h₂⟩

theorem exists_infix (h : Reflows t u) (hv : v <:+: u) : ∃ w, w <:+: t ∧ Reflows w v := by
  obtain ⟨x, y, rfl⟩ := hv
  obtain ⟨t₁, t₂, rfl, h₁, -⟩ := h.exists_of_append
  obtain ⟨t₃, t₄, rfl, -, h₄⟩ := h₁.exists_of_append
  exact ⟨t₄, ⟨t₃, t₂, rfl⟩, h₄⟩

theorem infix_of_not_isBlank (h : Reflows t u) (hw : ∀ c ∈ w, Text.isBlank c = false)
    (hu : w <:+: u) : w <:+: t := by
  obtain ⟨v, hv, hreflows⟩ := h.exists_infix hu
  rw [← List.append_nil w] at hreflows
  obtain ⟨z, rfl, -⟩ := hreflows.exists_append hw
  exact List.IsInfix.trans ⟨[], z, rfl⟩ hv

theorem isBlank_head (h : Reflows t (d :: y)) (hd : Text.isBlank d = true) :
    ∃ e t', t = e :: t' ∧ Text.isBlank e = true := by
  cases h with
  | keep _ h => exact ⟨d, _, rfl, hd⟩
  | @gap t u ws bs hws hbs h =>
    cases ws with
    | nil => exact ⟨'\n', bs ++ t, rfl, by decide⟩
    | cons e ws =>
      rw [Text.allBlank, List.all_cons, Bool.and_eq_true] at hws
      exact ⟨e, ws ++ '\n' :: (bs ++ t), rfl, hws.1⟩

theorem isBlank_last (h : Reflows t (x ++ [c])) (hc : Text.isBlank c = true) :
    ∃ t' e, t = t' ++ [e] ∧ Text.isBlank e = true := by
  rcases List.eq_nil_or_concat t with rfl | ⟨t', e, rfl⟩
  · exact absurd h.nil_eq (by simp)
  · rw [List.concat_eq_append] at h ⊢
    refine ⟨t', e, rfl, ?_⟩
    by_contra hblank
    have hlast := h.mem_getLast? e (by simp) (by simpa using hblank)
    rw [List.getLast?_concat] at hlast
    obtain rfl := Option.some.inj hlast
    exact hblank hc

theorem exists_between_blanks (h : Reflows t (x ++ c :: (w ++ d :: y)))
    (hw : ∀ e ∈ w, Text.isBlank e = false) (hc : Text.isBlank c = true)
    (hd : Text.isBlank d = true) :
    ∃ x' c' d' y', t = x' ++ c' :: (w ++ d' :: y') ∧ Text.isBlank c' = true ∧
      Text.isBlank d' = true := by
  have hsplit : x ++ c :: (w ++ d :: y) = (x ++ [c]) ++ (w ++ d :: y) := by simp
  rw [hsplit] at h
  obtain ⟨t₁, t₂, rfl, h₁, h₂⟩ := h.exists_of_append
  obtain ⟨t₃, rfl, h₃⟩ := h₂.exists_append hw
  obtain ⟨x', c', rfl, hc'⟩ := h₁.isBlank_last hc
  obtain ⟨d', y', rfl, hd'⟩ := h₃.isBlank_head hd
  exact ⟨x', c', d', y', by simp, hc', hd'⟩

end Reflows

namespace Procedure

variable {t raw w : Text} {ls ks : List Text}

theorem exists_trim (t : Text) :
    ∃ ws bs, t = ws ++ (Text.trim t ++ bs) ∧ Text.allBlank ws = true ∧ Text.allBlank bs = true := by
  obtain ⟨bs, hsplit, hbs⟩ := Text.exists_trimEnd (Text.trimStart t)
  refine ⟨t.takeWhile Text.isBlank, bs, ?_, List.all_takeWhile, hbs⟩
  conv_lhs => rw [← List.takeWhile_append_dropWhile (p := Text.isBlank) (l := t)]
  rw [Text.trim, ← hsplit, Text.trimStart]

/-- Lines without some of the blanks at their ends. -/
def AreCut (ls ks : List Text) : Prop :=
  List.Forall₂ (fun l k => ∃ ws bs, l = ws ++ (k ++ bs) ∧ Text.allBlank ws = true ∧
    Text.allBlank bs = true) ls ks

theorem areCut_dropIndent (k : Nat) (ls : List Text) : AreCut ls (ls.map (dropIndent k)) := by
  rw [AreCut, List.forall₂_map_right_iff, List.forall₂_same]
  intro l _
  obtain ⟨ws, hl, hws⟩ := exists_dropIndent k l
  exact ⟨ws, [], by rw [List.append_nil, ← hl], hws, rfl⟩

theorem exists_reflows_join (h : AreCut ((Text.lines t).map Text.trimEnd) ks) :
    ∃ ws u v, t = ws ++ (u ++ v) ∧ Text.allBlank ws = true ∧ Reflows u (Text.join "\n" ks) := by
  induction hn : t.length using Nat.strongRecOn generalizing t ks with
  | ind n ih =>
  by_cases hbreak : '\n' ∈ t
  · obtain ⟨l, r, rfl, hl⟩ := Text.exists_break hbreak
    rw [Text.map_trimEnd_lines hl] at h
    obtain ⟨k, ks, ⟨ws, bs, hline, hws, hbs⟩, hrest, rfl⟩ := List.forall₂_cons_left_iff.mp h
    obtain ⟨bs', htrim, hbs'⟩ := Text.exists_trimEnd l
    obtain ⟨ws', u, v, rfl, hws', hreflows⟩ := ih r.length (by simp [← hn]; omega) hrest rfl
    have hends : Text.allBlank (bs ++ bs') = true := by rw [Text.allBlank_append, hbs, hbs']; rfl
    rw [htrim, hline]
    cases ks with
    | nil => exact ⟨ws, k, bs ++ (bs' ++ '\n' :: (ws' ++ (u ++ v))), by simp, hws, .refl k⟩
    | cons k' ks =>
      refine ⟨ws, k ++ ((bs ++ bs') ++ '\n' :: (ws' ++ u)), v, by simp, hws, ?_⟩
      rw [Text.join_cons_cons]
      exact (Reflows.gap hends hws' hreflows).append_left k
  · by_cases hnil : t = []
    · subst hnil
      obtain rfl := List.forall₂_nil_left_iff.mp h
      exact ⟨[], [], [], rfl, rfl, .nil⟩
    · rw [Text.lines_of_not_mem hbreak hnil, List.map_singleton] at h
      obtain ⟨k, ks, ⟨ws, bs, hline, hws, -⟩, hrest, rfl⟩ := List.forall₂_cons_left_iff.mp h
      obtain rfl := List.forall₂_nil_left_iff.mp hrest
      obtain ⟨bs', htrim, -⟩ := Text.exists_trimEnd t
      rw [htrim, hline]
      exact ⟨ws, k, bs ++ bs', by simp, hws, .refl k⟩

theorem dropBlankEnds_prefix_dropWhile (ls : List Text) :
    dropBlankEnds ls <+: ls.dropWhile Text.allBlank := by
  rw [dropBlankEnds, ← List.reverse_suffix, List.reverse_reverse]
  exact List.dropWhile_suffix _

theorem dropBlankEnds_isInfix (ls : List Text) : dropBlankEnds ls <:+: ls :=
  (dropBlankEnds_prefix_dropWhile ls).isInfix.trans (List.dropWhile_suffix _).isInfix

theorem dropBlankEnds_prefix {l : Text} (hl : Text.allBlank l = false) (ls : List Text) :
    dropBlankEnds (l :: ls) <+: l :: ls := by
  have hprefix := dropBlankEnds_prefix_dropWhile (l :: ls)
  rwa [List.dropWhile_cons_of_neg (by simp [hl])] at hprefix

theorem exists_reflows_infix (raw : Text) :
    ∃ u, u <:+: raw ∧ Reflows u (normalizeIndentation raw) := by
  have hjoin : ∀ {ks kept}, AreCut ((Text.lines raw).map Text.trimEnd) ks → kept <:+: ks →
      ∃ u, u <:+: raw ∧ Reflows u (Text.join "\n" kept) := by
    intro ks kept hks hkept
    obtain ⟨ws, u, v, hraw, -, hreflows⟩ := exists_reflows_join hks
    obtain ⟨w, hw, hwkept⟩ := hreflows.exists_infix (Text.join_isInfix hkept)
    exact ⟨w, hw.trans ⟨ws, v, by rw [hraw, List.append_assoc]⟩, hwkept⟩
  rw [normalizeIndentation]
  generalize (Text.lines raw).map Text.trimEnd = lines at hjoin
  cases lines with
  | nil => exact ⟨[], List.nil_infix, .nil⟩
  | cons first rest =>
    cases hkept : dropBlankEnds (first :: rest) with
    | nil => exact ⟨[], List.nil_infix, .nil⟩
    | cons kept others =>
      dsimp only
      cases hfirst : Text.allBlank first with
      | true =>
        rw [if_pos rfl]
        refine hjoin (areCut_dropIndent (commonIndent (kept :: others)) _) ?_
        have hinfix := dropBlankEnds_isInfix (first :: rest)
        rw [hkept] at hinfix
        exact hinfix.map _
      | false =>
        rw [if_neg Bool.false_ne_true]
        have hprefix := dropBlankEnds_prefix hfirst rest
        rw [hkept, List.cons_prefix_cons] at hprefix
        obtain ⟨rfl, hothers⟩ := hprefix
        obtain ⟨ws, bs, hline, hws, hbs⟩ := exists_trim kept
        refine hjoin (.cons ⟨ws, bs, hline, hws, hbs⟩
          (areCut_dropIndent (commonIndent others) rest)) ?_
        exact (List.cons_prefix_cons.mpr ⟨rfl, hothers.map _⟩).isInfix

theorem infix_of_normalizeIndentation (hw : ∀ c ∈ w, Text.isBlank c = false)
    (h : w <:+: normalizeIndentation raw) : w <:+: raw := by
  obtain ⟨u, hu, hreflows⟩ := exists_reflows_infix raw
  exact (hreflows.infix_of_not_isBlank hw h).trans hu

end Procedure

end CanvasPage
