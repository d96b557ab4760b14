import CanvasPage.Proofs.Procedure.Indentation
import CanvasPage.Proofs.Procedure.Unfinished

namespace CanvasPage

open Script Substitution

/-- A text and what becomes of it where the blanks at the ends of its lines are dropped, and some
of those at their beginnings. -/
inductive Reflows : Text → Text → Prop where
  | nil : Reflows [] []
  | keep {t u : Text} (c : Char) (h : Reflows t u) : Reflows (c :: t) (c :: u)
  | gap {t u ws bs : Text} (hws : Text.allBlank ws = true) (hbs : Text.allBlank bs = true)
      (h : Reflows t u) : Reflows (ws ++ '\n' :: (bs ++ t)) ('\n' :: u)

namespace Reflows

variable {t u v x y : Text} {c : Char} {s : State}

theorem append_left (v : Text) (h : Reflows t u) : Reflows (v ++ t) (v ++ u) := by
  induction v with
  | nil => exact h
  | cons c v ih => exact .keep c ih

protected theorem refl (t : Text) : Reflows t t := by
  simpa using append_left t .nil

theorem subset (h : Reflows t u) : u ⊆ t := by
  induction h with
  | nil => exact List.Subset.refl []
  | keep c _ ih => exact List.cons_subset_cons c ih
  | @gap t u ws bs _ _ _ ih =>
    refine List.cons_subset.mpr ⟨by simp, fun c hc => ?_⟩
    simp [ih hc]

theorem eq_nil (h : Reflows t []) : t = [] := by
  cases h
  rfl

theorem nil_eq (h : Reflows [] u) : u = [] := by
  generalize ht : ([] : Text) = t at h
  cases h with
  | nil => rfl
  | keep c h => cases ht
  | gap _ _ h => simp at ht

theorem eq_of_not_mem (h : Reflows t u) (hu : '\n' ∉ u) : t = u := by
  induction h with
  | nil => rfl
  | keep c _ ih => rw [ih fun hmem => hu (by simp [hmem])]
  | gap _ _ _ => exact absurd (by simp) hu

theorem allBlank_eq (h : Reflows t u) : Text.allBlank t = Text.allBlank u := by
  induction h with
  | nil => rfl
  | keep c _ ih =>
    rw [Text.allBlank, Text.allBlank, List.all_cons, List.all_cons]
    exact congrArg _ ih
  | @gap t u ws bs hws hbs _ ih =>
    have hsplit : ws ++ '\n' :: (bs ++ t) = ws ++ ['\n'] ++ bs ++ t := by simp
    rw [hsplit, Text.allBlank_append, Text.allBlank_append, Text.allBlank_append,
      hws, hbs, ih]
    rfl

theorem exists_split (h : Reflows t (x ++ c :: y)) (hc : Text.isBlank c = false) :
    ∃ x' y', t = x' ++ c :: y' ∧ Reflows x' x ∧ Reflows y' y := by
  generalize hu : x ++ c :: y = u at h
  induction h generalizing x with
  | nil => simp at hu
  | @keep t u d h ih =>
    rcases List.append_eq_cons_iff.mp hu with ⟨rfl, hcons⟩ | ⟨x, rfl, rfl⟩
    · obtain ⟨rfl, rfl⟩ := List.cons.inj hcons
      exact ⟨[], t, rfl, .nil, h⟩
    · obtain ⟨x', y', rfl, hx, hy⟩ := ih rfl
      exact ⟨d :: x', y', rfl, .keep d hx, hy⟩
  | @gap t u ws bs hws hbs h ih =>
    rcases List.append_eq_cons_iff.mp hu with ⟨rfl, hcons⟩ | ⟨x, rfl, rfl⟩
    · obtain ⟨rfl, -⟩ := List.cons.inj hcons
      cases hc
    · obtain ⟨x', y', rfl, hx, hy⟩ := ih rfl
      exact ⟨ws ++ '\n' :: (bs ++ x'), y', by simp, .gap hws hbs hx, hy⟩

theorem exists_append (h : Reflows t (v ++ u)) (hv : ∀ c ∈ v, Text.isBlank c = false) :
    ∃ t', t = v ++ t' ∧ Reflows t' u := by
  induction v generalizing t with
  | nil => exact ⟨t, rfl, h⟩
  | cons c v ih =>
    obtain ⟨hc, hv⟩ := List.forall_mem_cons.mp hv
    obtain ⟨x, y, rfl, hx, hy⟩ := h.exists_split (x := []) hc
    obtain ⟨t', rfl, ht⟩ := ih hy hv
    rw [hx.eq_nil]
    exact ⟨t', rfl, ht⟩

theorem mem_getLast? (h : Reflows t u) :
    ∀ c ∈ t.getLast?, Text.isBlank c = false → c ∈ u.getLast? := by
  have hlonger : ∀ {v w t u : Text}, Reflows t u → t ≠ [] →
      (∀ c ∈ t.getLast?, Text.isBlank c = false → c ∈ u.getLast?) →
        ∀ c ∈ (v ++ t).getLast?, Text.isBlank c = false → c ∈ (w ++ u).getLast? := by
    intro v w t u h ht ih c hc hblank
    have hu : u ≠ [] := by
      rintro rfl
      exact ht h.eq_nil
    rw [List.getLast?_append_of_ne_nil _ ht] at hc
    rw [List.getLast?_append_of_ne_nil _ hu]
    exact ih c hc hblank
  induction h with
  | nil => simp
  | @keep t u d h ih =>
    by_cases ht : t = []
    · subst ht
      obtain rfl := h.nil_eq
      exact fun c hc _ => hc
    · exact hlonger (v := [d]) (w := [d]) h ht ih
  | @gap t u ws bs hws hbs h ih =>
    by_cases ht : t = []
    · subst ht
      intro c hc hblank
      have hall : Text.allBlank (ws ++ '\n' :: (bs ++ [])) = true := by
        rw [List.append_nil, Text.allBlank_append, hws, Text.allBlank, List.all_cons,
          ← Text.allBlank, hbs]
        rfl
      rw [List.all_eq_true.mp hall c (List.mem_of_getLast? hc)] at hblank
      cases hblank
    · have hmore := hlonger (v := ws ++ '\n' :: bs) (w := ['\n']) h ht ih
      simpa using hmore

theorem isCode_step {c : Char} (hs : s.isCode = true) (h : s.emit c = []) :
    (s.step c).isCode = true := by
  by_cases hc : c = '/'
  · obtain rfl | rfl := State.eq_of_isCode hs
    · subst hc
      rfl
    · subst hc
      cases h
  · rw [step_eq_start h hc]
    rfl

theorem alike (h : Reflows t u) (hs : s.isCode = true) (hcode : emitted s t = []) :
    emitted s u = [] ∧ s.run u = s.run t := by
  induction h generalizing s with
  | nil => exact ⟨rfl, rfl⟩
  | keep c _ ih =>
    rw [emitted, List.append_eq_nil_iff] at hcode
    obtain ⟨hemitted, hrun⟩ := ih (isCode_step hs hcode.1) hcode.2
    rw [emitted, hcode.1, hemitted, State.run_cons, State.run_cons, hrun]
    exact ⟨rfl, rfl⟩
  | @gap t u ws bs hws hbs _ ih =>
    have hquiet : ∀ c ∈ ws ++ '\n' :: bs, isQuiet c = true := by
      simp only [List.forall_mem_append, List.forall_mem_cons]
      exact ⟨fun c hc => (isQuiet_of_isBlank (List.all_eq_true.mp hws c hc)).1, by decide,
        fun c hc => (isQuiet_of_isBlank (List.all_eq_true.mp hbs c hc)).1⟩
    have hsplit : ws ++ '\n' :: (bs ++ t) = (ws ++ '\n' :: bs) ++ t := by simp
    have hrun := run_of_isQuiet hs (by simp) hquiet
    rw [hsplit, emitted_append, List.append_eq_nil_iff, hrun] at hcode
    obtain ⟨hemitted, hafter⟩ := ih rfl hcode.2
    obtain ⟨hstep, hemit⟩ := step_of_isQuiet (c := '\n') hs (by decide)
    rw [hsplit, State.run_append, hrun, emitted, hemit, hstep, hemitted, State.run_cons, hstep, hafter]
    exact ⟨rfl, rfl⟩

theorem isUnfinished (h : Reflows t y) (hy : IsUnfinished y) : IsUnfinished t := by
  obtain ⟨_, cs, type, ⟨kw, hkw, ws, name, bs, hne, hws, hname, hbs, rfl⟩, hcs, htype, rfl⟩ := hy
  have hkeyword : ∀ c ∈ kw, Text.isBlank c = false := fun c hc =>
    not_isBlank_of_isWordChar (isWordChar_of_mem_keyword kw hkw c hc)
  have hletters : ∀ c ∈ name, Text.isBlank c = false := fun c hc =>
    Text.isBlank_of_continuesIdentifier (Text.continuesIdentifier_of_isIdentifier hname c hc)
  obtain ⟨n, name, rfl⟩ := List.exists_cons_of_ne_nil (Text.ne_nil_of_isIdentifier hname)
  obtain ⟨hn, hletters⟩ := List.forall_mem_cons.mp hletters
  simp only [List.append_assoc, List.cons_append, List.nil_append] at h
  obtain ⟨t₁, rfl, h₁⟩ := h.exists_append hkeyword
  obtain ⟨ws', t₂, rfl, hgap, h₂⟩ := h₁.exists_split hn
  obtain ⟨t₃, rfl, h₃⟩ := h₂.exists_append hletters
  obtain ⟨bs', t₄, rfl, hblank, h₄⟩ := h₃.exists_split (c := ':') (by decide)
  have hhead : IsDeclarationHead (kw ++ (ws' ++ (n :: name ++ (bs' ++ [':'])))) := by
    refine ⟨kw, hkw, ws', n :: name, bs', ?_, hgap.allBlank_eq.trans hws, hname,
      hblank.allBlank_eq.trans hbs, rfl⟩
    rintro rfl
    exact hne hgap.nil_eq
  by_cases hblanks : Text.allBlank type = true
  · refine ⟨_, t₄, [], hhead, ?_, by simp, by simp⟩
    rw [h₄.allBlank_eq, Text.allBlank_append, hcs, hblanks]
    rfl
  · obtain ⟨v, c, w, rfl, hv, hc⟩ : ∃ v c w, type = v ++ c :: w ∧ Text.allBlank v = true ∧
        Text.isBlank c = false := by
      cases hdrop : type.dropWhile Text.isBlank with
      | nil => exact absurd (List.all_eq_true.mpr (List.dropWhile_eq_nil_iff.mp hdrop)) hblanks
      | cons c w =>
        have hhead := List.head?_dropWhile_not Text.isBlank type
        rw [hdrop] at hhead
        refine ⟨type.takeWhile Text.isBlank, c, w, ?_, List.all_takeWhile, by simpa using hhead⟩
        rw [← hdrop, List.takeWhile_append_dropWhile]
    rw [← List.append_assoc] at h₄
    obtain ⟨cs', w', rfl, hcs', hw⟩ := h₄.exists_split hc
    have hbreak : '\n' ∉ w := fun hmem => htype '\n' (by simp [hmem]) (by decide)
    obtain rfl := hw.eq_of_not_mem hbreak
    refine ⟨_, cs', c :: w', hhead, ?_, fun d hd => htype d (List.mem_append_right v hd), by simp⟩
    rw [hcs'.allBlank_eq, Text.allBlank_append, hcs, hv]
    rfl

theorem opensDeclaration (h : Reflows t u) (hcode : emitted .start t = [])
    (hu : OpensDeclaration u) : OpensDeclaration t := by
  obtain ⟨x, y, rfl, hlast, -, hy⟩ := hu
  obtain ⟨c, y, rfl⟩ := List.exists_cons_of_ne_nil hy.ne_nil
  have hc : Text.isBlank c = false := by
    by_contra hblank
    exact hy.head?_ne (not_isWordChar_of_isBlank (eq_true_of_ne_false hblank)) rfl
  obtain ⟨x', y', rfl, hx, hy'⟩ := h.exists_split hc
  rw [emitted_append, List.append_eq_nil_iff] at hcode
  refine ⟨x', c :: y', rfl, fun d hd => ?_, hcode.2, (hy'.keep c).isUnfinished hy⟩
  by_contra hword
  refine hword (hlast d (hx.mem_getLast? d hd ?_))
  exact not_isBlank_of_isWordChar (eq_true_of_ne_false hword)

end Reflows

namespace Text

variable {l t : Text}

theorem lines_append_carriageReturn (hl : '\n' ∉ l) (t : Text) :
    lines (l ++ '\r' :: '\n' :: t) = l :: lines t := by
  induction l with
  | nil => rfl
  | cons c l ih =>
    have hc : c ≠ '\n' := fun h => hl (by simp [h])
    rw [List.cons_append, lines, ih fun h => hl (by simp [h])]
    · exact hc
    · rintro rest - h
      rcases List.append_eq_cons_iff.mp h with ⟨-, hcons⟩ | ⟨l, rfl, -⟩
      · exact absurd (List.cons.inj hcons).1 (by decide)
      · exact hl (by simp)

theorem map_trimEnd_lines (hl : '\n' ∉ l) (t : Text) :
    (lines (l ++ '\n' :: t)).map trimEnd = trimEnd l :: (lines t).map trimEnd := by
  by_cases hlast : l.getLast? = some '\r'
  · obtain ⟨l, rfl⟩ := List.getLast?_eq_some_iff.mp hlast
    have hsplit : l ++ ['\r'] ++ '\n' :: t = l ++ '\r' :: '\n' :: t := by simp
    rw [hsplit, lines_append_carriageReturn (fun h => hl (by simp [h])), List.map_cons, trimEnd,
      trimEnd, dropEndWhile_append_of_pos (by decide)]
  · rw [lines_append_lineFeed hl hlast, List.map_cons]

theorem exists_break (h : '\n' ∈ t) : ∃ l u, t = l ++ '\n' :: u ∧ '\n' ∉ l := by
  induction t with
  | nil => cases h
  | cons c t ih =>
    by_cases hc : c = '\n'
    · exact ⟨[], t, by rw [hc]; rfl, by simp⟩
    · obtain ⟨l, u, rfl, hl⟩ := ih ((List.mem_cons.mp h).resolve_left fun h => hc h.symm)
      exact ⟨c :: l, u, rfl, by simp [Ne.symm hc, hl]⟩

end Text

namespace Procedure

variable {a x y t : Text} {c : Char}

theorem exists_dropIndent (k : Nat) (t : Text) :
    ∃ ws, t = ws ++ dropIndent k t ∧ Text.allBlank ws = true := by
  have hindent : ∀ c, isIndent c = true → Text.isBlank c = true := by
    intro c hc
    rw [isIndent, Bool.or_eq_true, beq_iff_eq, beq_iff_eq] at hc
    rcases hc with rfl | rfl <;> decide
  rw [dropIndent]
  split
  · rename_i hblank
    exact ⟨t, by simp, hblank⟩
  · exact ⟨t.take (min (indentation t) k), (List.take_append_drop _ _).symm,
      List.all_eq_true.mpr fun c hc =>
        hindent c (isIndent_of_mem_take (Nat.min_le_left _ _) c hc)⟩

theorem exists_reflows_lines (hy : y ≠ []) (hbreak : '\n' ∉ y)
    (hlast : ∀ c ∈ y.getLast?, Text.isBlank c = false)
    (hfirst : ∀ c ∈ y.head?, Text.isBlank c = false) (k : Nat) (a : Text) :
    ∃ ws a₀ a', a = ws ++ a₀ ∧ Text.allBlank ws = true ∧ Reflows a₀ a' ∧
      Text.join "\n" (((Text.lines (a ++ y)).map Text.trimEnd).map (dropIndent k)) = a' ++ y := by
  induction hn : a.length using Nat.strongRecOn generalizing a with
  | ind n ih =>
  by_cases ha : '\n' ∈ a
  · obtain ⟨l, a, rfl, hl⟩ := Text.exists_break ha
    obtain ⟨ws₁, a₀, a', rfl, hws₁, hreflows, hjoin⟩ := ih a.length (by simp [← hn]; omega) a rfl
    obtain ⟨bs, hline, hbs⟩ := Text.exists_trimEnd l
    obtain ⟨ws, htrimmed, hws⟩ := exists_dropIndent k (Text.trimEnd l)
    obtain ⟨m, ms, hlines⟩ : ∃ m ms, ((Text.lines ((ws₁ ++ a₀) ++ y)).map Text.trimEnd).map
        (dropIndent k) = m :: ms := by
      refine List.exists_cons_of_ne_nil fun hnil => ?_
      rw [List.map_eq_nil_iff, List.map_eq_nil_iff] at hnil
      exact Text.lines_ne_nil (List.append_ne_nil_of_right_ne_nil (ws₁ ++ a₀) hy) hnil
    refine ⟨ws, dropIndent k (Text.trimEnd l) ++ (bs ++ '\n' :: (ws₁ ++ a₀)),
      dropIndent k (Text.trimEnd l) ++ '\n' :: a', ?_, hws, (Reflows.gap hbs hws₁ hreflows).append_left _,
      ?_⟩
    · rw [← List.append_assoc ws, ← htrimmed, ← List.append_assoc, ← hline]
    · rw [hlines] at hjoin
      rw [List.append_assoc, List.cons_append, Text.map_trimEnd_lines hl, List.map_cons, hlines,
        Text.join_cons_cons, hjoin, List.append_assoc]
      rfl
  · have hne : a ++ y ≠ [] := List.append_ne_nil_of_right_ne_nil a hy
    have hend : Text.trimEnd (a ++ y) = a ++ y :=
      Text.dropEndWhile_of_getLast? (by rwa [List.getLast?_append_of_ne_nil _ hy])
    obtain ⟨ws, hsplit, hws⟩ := exists_dropIndent k (a ++ y)
    rw [Text.lines_of_not_mem (by simp [ha, hbreak]) hne, List.map_singleton, List.map_singleton, hend]
    rcases List.append_eq_append_iff.mp hsplit with ⟨u, rfl, hu⟩ | ⟨a₀, rfl, hdrop⟩
    · obtain rfl : u = [] := by
        cases u with
        | nil => rfl
        | cons c u =>
          have hc := hfirst c (by rw [hu]; rfl)
          rw [List.all_eq_true.mp hws c (by simp)] at hc
          cases hc
      exact ⟨a, [], [], by simp, by simpa using hws, .nil, hu.symm⟩
    · exact ⟨ws, a₀, a₀, rfl, hws, .refl a₀, hdrop⟩

theorem allBlank_last_line (ht : t ≠ []) (hlast : ∀ c ∈ t.getLast?, Text.isBlank c = false) :
    ∀ l ∈ ((Text.lines t).map Text.trimEnd).getLast?, Text.allBlank l = false := by
  induction hn : t.length using Nat.strongRecOn generalizing t with
  | ind n ih =>
  by_cases hbreak : '\n' ∈ t
  · obtain ⟨l, u, rfl, hl⟩ := Text.exists_break hbreak
    have hu : u ≠ [] := by
      rintro rfl
      exact absurd (hlast '\n' (by simp)) (by decide)
    have hulast : ∀ c ∈ u.getLast?, Text.isBlank c = false := by
      have hsplit : l ++ '\n' :: u = (l ++ ['\n']) ++ u := by simp
      rwa [hsplit, List.getLast?_append_of_ne_nil _ hu] at hlast
    have hne : (Text.lines u).map Text.trimEnd ≠ [] := by
      rw [Ne, List.map_eq_nil_iff]
      exact Text.lines_ne_nil hu
    rw [Text.map_trimEnd_lines hl, List.getLast?_cons_of_ne_nil hne]
    exact ih u.length (by simp [← hn]; omega) hu hulast rfl
  · rw [Text.lines_of_not_mem hbreak ht, List.map_singleton, Text.trimEnd,
      Text.dropEndWhile_of_getLast? hlast]
    rintro l ⟨⟩
    exact Text.allBlank_of_last ht hlast

theorem normalizeIndentation_append_break {l : Text} (hl : '\n' ∉ l)
    (htext : Text.allBlank l = false) (ht : t ≠ [])
    (hlast : ∀ c ∈ t.getLast?, Text.isBlank c = false) :
    normalizeIndentation (l ++ '\n' :: t) =
      Text.trim l ++ '\n' :: Text.join "\n" (dedent ((Text.lines t).map Text.trimEnd)) := by
  have hrest : (Text.lines t).map Text.trimEnd ≠ [] := by
    rw [Ne, List.map_eq_nil_iff]
    exact Text.lines_ne_nil ht
  have hfirst : Text.allBlank (Text.trimEnd l) = false := by rw [Text.allBlank_trimEnd, htext]
  have hkept : dropBlankEnds (Text.trimEnd l :: (Text.lines t).map Text.trimEnd) =
      Text.trimEnd l :: (Text.lines t).map Text.trimEnd := by
    refine dropBlankEnds_of_ends (by simpa using hfirst) ?_
    rw [List.getLast?_cons_of_ne_nil hrest]
    exact allBlank_last_line ht hlast
  obtain ⟨m, ms, hdedent⟩ : ∃ m ms, dedent ((Text.lines t).map Text.trimEnd) = m :: ms :=
    List.exists_cons_of_ne_nil fun hnil => hrest (List.map_eq_nil_iff.mp hnil)
  rw [normalizeIndentation, Text.map_trimEnd_lines hl, hkept]
  dsimp only
  rw [hfirst, if_neg Bool.false_ne_true, Text.trim_trimEnd, hdedent, Text.join_cons_cons]
  rfl

theorem exists_reflows_normalizeIndentation (hx : ∃ u c, x = u ++ [c] ∧ Text.isBlank c = false)
    (hxbreak : '\n' ∉ x) (hy : y ≠ []) (hbreak : '\n' ∉ y)
    (hlast : ∀ c ∈ y.getLast?, Text.isBlank c = false)
    (hfirst : ∀ c ∈ y.head?, Text.isBlank c = false) (a : Text) :
    ∃ a', Reflows a a' ∧ normalizeIndentation (x ++ (a ++ y)) = Text.trimStart x ++ (a' ++ y) := by
  have hend : ∀ a : Text, ∀ c ∈ (a ++ y).getLast?, Text.isBlank c = false := by
    intro a
    rwa [List.getLast?_append_of_ne_nil _ hy]
  by_cases ha : '\n' ∈ a
  · obtain ⟨l, a, rfl, hl⟩ := Text.exists_break ha
    obtain ⟨bs, hline, hbs⟩ := Text.exists_trimEnd l
    obtain ⟨ws, a₀, a', rfl, hws, hreflows, hjoin⟩ := exists_reflows_lines hy hbreak hlast hfirst
      (commonIndent ((Text.lines (a ++ y)).map Text.trimEnd)) a
    have htext : Text.allBlank (x ++ l) = false := by
      obtain ⟨u, c, rfl, hc⟩ := hx
      simp [Text.allBlank, hc]
    have hsplit : x ++ (l ++ '\n' :: (ws ++ a₀) ++ y) = (x ++ l) ++ '\n' :: (ws ++ a₀ ++ y) := by
      simp
    refine ⟨Text.trimEnd l ++ '\n' :: a', ?_, ?_⟩
    · have hreflow := (Reflows.gap hbs hws hreflows).append_left (Text.trimEnd l)
      rwa [← List.append_assoc, ← hline] at hreflow
    · rw [hsplit, normalizeIndentation_append_break (by simp [hxbreak, hl]) htext
        (List.append_ne_nil_of_right_ne_nil _ hy) (hend _), dedent, hjoin, Text.trim_append_of_last hx]
      simp
  · have hline : Text.trimEnd (a ++ y) = a ++ y := Text.dropEndWhile_of_getLast? (hend a)
    refine ⟨a, .refl a, ?_⟩
    rw [normalizeIndentation_of_not_mem (by simp [hxbreak, ha, hbreak]), Text.trim_append_of_last hx, hline]

end Procedure

end CanvasPage
