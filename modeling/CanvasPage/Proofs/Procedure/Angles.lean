import CanvasPage.Proofs.Procedure.Characters
import CanvasPage.Proofs.Procedure.Exchange
import Mathlib.Algebra.GroupWithZero.Nat

namespace CanvasPage

variable {t : Text} {ts us : List Text}

/-- The number of `>` in texts. As rewriting goes on it bounds the arrows to come. -/
def angles (ts : List Text) : Nat := (ts.map (·.count '>')).sum

@[simp] theorem angles_nil : angles [] = 0 := rfl

@[simp] theorem angles_cons (t : Text) (ts : List Text) :
    angles (t :: ts) = t.count '>' + angles ts := by
  rw [angles, List.map_cons, List.sum_cons]
  rfl

theorem count_le_angles (h : t ∈ ts) : t.count '>' ≤ angles ts := by
  induction ts with
  | nil => cases h
  | cons u ts ih =>
    rw [angles_cons]
    rcases List.mem_cons.mp h with rfl | h
    · exact Nat.le_add_right _ _
    · exact (ih h).trans (Nat.le_add_left _ _)

theorem angles_le_of_sublist (h : ts.Sublist us) : angles ts ≤ angles us := by
  induction h with
  | slnil => exact Nat.le_refl _
  | cons t _ ih =>
    rw [angles_cons]
    omega
  | cons_cons t _ ih =>
    rw [angles_cons, angles_cons]
    omega

theorem angles_map_le {f : Text → Text} (hf : ∀ t : Text, (f t).count '>' ≤ t.count '>')
    (ts : List Text) : angles (ts.map f) ≤ angles ts := by
  induction ts with
  | nil => exact Nat.le_refl _
  | cons t ts ih =>
    have := hf t
    rw [List.map_cons, angles_cons, angles_cons]
    omega

theorem angles_filterMap_le {α : Type} {f : Text → Option α} {text : α → Text}
    (hf : ∀ t a, f t = some a → (text a).count '>' ≤ t.count '>') (ts : List Text) :
    angles ((ts.filterMap f).map text) ≤ angles ts := by
  induction ts with
  | nil => exact Nat.le_refl _
  | cons t ts ih =>
    rw [List.filterMap_cons, angles_cons]
    split
    · omega
    · rename_i a ha
      have := hf t a ha
      rw [List.map_cons, angles_cons]
      omega

theorem count_join {separator : Text} (h : separator.count '>' = 0) (ts : List Text) :
    (Text.join separator ts).count '>' = angles ts := by
  fun_induction Text.join separator ts with
  | case1 => rfl
  | case2 t => simp
  | case3 t ts hne ih => rw [List.count_append, List.count_append, h, ih, angles_cons, Nat.add_zero]

section Trimming

theorem count_trimEnd_le (t : Text) : (Text.trimEnd t).count '>' ≤ t.count '>' :=
  (Text.isPrefix_dropEndWhile _ t).sublist.count_le _

theorem count_trim_le (t : Text) : (Text.trim t).count '>' ≤ t.count '>' :=
  Nat.le_trans (count_trimEnd_le _) ((List.dropWhile_sublist _).count_le _)

end Trimming

namespace Procedure

theorem angles_lines_le (t : Text) : angles (Text.lines t) ≤ t.count '>' := by
  fun_induction Text.lines t with
  | case1 => exact Nat.le_refl _
  | case2 t ih => simpa using ih
  | case3 t ih => simpa using ih
  | case4 c t _ _ hnone ih => simp [List.count_cons]
  | case5 c t _ _ l ls hlines ih =>
    rw [hlines, angles_cons] at ih
    rw [angles_cons, List.count_cons, List.count_cons]
    omega

theorem angles_dropBlankEnds_le (ls : List Text) : angles (dropBlankEnds ls) ≤ angles ls := by
  refine angles_le_of_sublist ?_
  have hends := (List.dropWhile_sublist (l := (ls.dropWhile Text.allBlank).reverse) Text.allBlank).reverse
  rw [List.reverse_reverse] at hends
  exact hends.trans (List.dropWhile_sublist _)

theorem angles_dedent_le (ls : List Text) : angles (dedent ls) ≤ angles ls := by
  refine angles_map_le (fun t => ?_) ls
  rw [dropIndent]
  split
  · exact Nat.zero_le _
  · exact (List.drop_sublist _ t).count_le _

theorem count_normalizeIndentation_le (t : Text) :
    (normalizeIndentation t).count '>' ≤ t.count '>' := by
  have hlines : angles (dropBlankEnds ((Text.lines t).map Text.trimEnd)) ≤ t.count '>' :=
    (angles_dropBlankEnds_le _).trans ((angles_map_le count_trimEnd_le _).trans (angles_lines_le t))
  rw [normalizeIndentation, count_join rfl]
  refine Nat.le_trans ?_ hlines
  generalize dropBlankEnds ((Text.lines t).map Text.trimEnd) = kept
  split
  · split
    · exact angles_dedent_le _
    · rename_i k ks _ _
      have := angles_dedent_le ks
      have := count_trim_le k
      rw [angles_cons, angles_cons]
      omega
  · exact Nat.zero_le _

end Procedure

namespace Substitution

theorem count_replacement_le {s : Substitution} (hs : s ∈ all) {before w after : Text}
    {gs : GroupTexts} {o : Occurrence} (hread : s.pattern.Reads before w after gs)
    (hgroups : ∀ i, o.groupText i = gs.text i) : (s.replacement o).count '>' ≤ w.count '>' := by
  have hexchanges : s.Exchanges → (s.replacement o).count '>' ≤ w.count '>' := by
    intro h
    obtain ⟨kept, old, new, rfl, hnew, hexchange⟩ := h _ _ _ _ _ hread hgroups
    have hzero : new.count '>' = 0 :=
      List.count_eq_zero.mpr fun hmem => absurd (hexchange.quiet _ hmem) (by decide)
    rw [hnew, List.count_append, List.count_append, hzero]
    omega
  have hall : all = beforeCast ++ [cast, nonNullAssertion] := rfl
  rw [hall] at hs
  rcases List.mem_append.mp hs with hs | hs
  · exact hexchanges (exchanges_of_mem_beforeCast hs)
  · simp only [List.mem_cons, List.not_mem_nil, or_false] at hs
    rcases hs with rfl | rfl
    · exact Nat.zero_le _
    · exact hexchanges exchanges_nonNullAssertion

theorem count_apply_le {s : Substitution} (hs : s ∈ all) (t : Text) :
    (s.apply t).count '>' ≤ t.count '>' := by
  have hedits : ∀ {p q}, Edits s t p q → q.count '>' ≤ p.count '>' := by
    intro p q h
    induction h with
    | nil => exact Nat.le_refl _
    | keep _ _ ih =>
      rw [List.count_append, List.count_append]
      omega
    | replace _ _ hread hgroups _ ih =>
      have := count_replacement_le hs hread hgroups
      rw [List.count_append, List.count_append]
      omega
  exact hedits (edits_apply s t)

theorem count_applyAll_le (t : Text) : (applyAll t).count '>' ≤ t.count '>' := by
  refine applyAll_induction (P := fun u => u.count '>' ≤ t.count '>') (Nat.le_refl _) ?_
  exact fun s hs u hu => (count_apply_le hs u).trans hu

end Substitution

namespace Parameter

theorem angles_consFirst (c : Char) (ts : List Text) :
    angles (consFirst c ts) = (if c == '>' then 1 else 0) + angles ts := by
  cases ts with
  | nil => simp [consFirst, List.count_cons]
  | cons t ts =>
    rw [consFirst, angles_cons, angles_cons, List.count_cons]
    omega

theorem angles_splitFrom_le (depth : Nat) (quote previous : Option Char) (t : Text) :
    angles (splitFrom depth quote previous t) ≤ t.count '>' := by
  fun_induction splitFrom depth quote previous t with
  | case1 => exact Nat.le_refl _
  | case2 depth previous c t q quote ih | case3 depth previous c t hquote ih
  | case5 depth previous c t hquote hcomma ih =>
    rw [angles_consFirst, List.count_cons]
    omega
  | case4 depth previous c t hquote hcomma ih =>
    rw [angles_cons, List.count_nil, Nat.zero_add, List.count_cons]
    omega

variable {rewrite : Text → Text}

theorem count_parameter?_le {head : Text} {value : Option Text} {isProperty : Bool} {q : Parameter}
    (h : parameter? head value isProperty = some q) :
    q.text.count '>' ≤ head.count '>' + (value.getD []).count '>' := by
  have hname : (Text.trim (Text.dropEndWhile (· == '?') (Text.trim (beforeType 0 head)))).count '>' ≤
      head.count '>' :=
    ((count_trim_le _).trans ((Text.isPrefix_dropEndWhile _ _).sublist.count_le _)).trans
      ((count_trim_le _).trans ((beforeType_isPrefix 0 head).sublist.count_le _))
  have hequals : (" = " : Text).count '>' = 0 := rfl
  unfold parameter? at h
  dsimp only at h
  split at h
  · cases h
  · obtain rfl := Option.some.inj h
    cases value with
    | none => exact hname.trans (Nat.le_add_right _ _)
    | some v =>
      dsimp only [Option.getD_some]
      rw [List.count_append, List.count_append, hequals]
      omega

theorem count_read?_le (hrewrite : ∀ t : Text, (rewrite t).count '>' ≤ t.count '>') {piece : Text}
    {q : Parameter} (h : read? rewrite piece = some q) : q.text.count '>' ≤ piece.count '>' := by
  obtain ⟨lead, rest, hsplit, -, hread⟩ := read?_eq rewrite piece
  have hrest : rest.count '>' ≤ piece.count '>' := by
    refine Nat.le_trans ?_ (count_trim_le piece)
    rw [hsplit, List.count_append]
    exact Nat.le_add_left _ _
  rw [hread] at h
  cases hdefault : splitDefault 0 none rest with
  | none =>
    rw [hdefault] at h
    exact (count_parameter?_le h).trans hrest
  | some pair =>
    obtain ⟨head, value⟩ := pair
    rw [hdefault] at h
    have := count_parameter?_le h
    rw [eq_of_splitDefault hdefault, List.count_append, List.count_cons] at hrest
    have := (hrewrite (Text.trim value)).trans (count_trim_le value)
    rw [Option.getD_some] at *
    omega

theorem angles_textsWith_le (hrewrite : ∀ t : Text, (rewrite t).count '>' ≤ t.count '>')
    (raw : Text) : angles (textsWith rewrite raw) ≤ raw.count '>' :=
  (angles_filterMap_le (fun _ _ h => count_read?_le hrewrite h) _).trans
    (angles_splitFrom_le 0 none none raw)

end Parameter

namespace Arrow

theorem IsTail.count_pos {v : Text} (h : IsTail v) : 0 < v.count '>' := by
  obtain ⟨u, ws, rfl, -, -⟩ := h
  rw [List.count_pos_iff]
  simp

theorem IsHeader.count_lt {p w : Text} (h : IsHeader p w) : p.count '>' < w.count '>' := by
  cases h with
  | parenthesized hp hv =>
    have := hv.count_pos
    rw [List.count_cons, List.count_append, List.count_cons]
    omega
  | single hp hv =>
    have := hv.count_pos
    rw [List.count_append]
    omega

variable {params : Text → List Text} {r : Rewrite}

theorem count_result_lt (hparams : ∀ p, angles (params p) ≤ p.count '>')
    (h : next? params t = some r) : r.result.count '>' < t.count '>' := by
  obtain ⟨p, w, hsplit, hheader, hreplacement, -⟩ := exists_of_next?_eq_some h
  have := hparams p
  have := hheader.count_lt
  have hfixed : ("function(" : Text).count '>' = 0 ∧ (") \x7b" : Text).count '>' = 0 := ⟨rfl, rfl⟩
  have hnew : r.replacement.count '>' = angles (params p) := by
    rw [hreplacement, List.count_append, List.count_append, hfixed.1, hfixed.2, count_join rfl]
    omega
  have hold : t.count '>' =
      r.start.before.reverse.count '>' + (w.count '>' + r.stop.after.count '>') := by
    rw [← List.count_append, ← List.count_append, ← hsplit]
  rw [Rewrite.result, List.count_append, List.count_append]
  omega

theorem count_rewriteUpTo_le (hparams : ∀ p, angles (params p) ≤ p.count '>') (bound : Nat)
    (t : Text) : (rewriteUpTo params bound t).count '>' ≤ t.count '>' := by
  induction bound generalizing t with
  | zero => exact Nat.le_refl _
  | succ bound ih =>
    rw [rewriteUpTo]
    cases hnext : next? params t with
    | none => exact Nat.le_refl _
    | some r => exact (ih r.result).trans (Nat.le_of_lt (count_result_lt hparams hnext))

theorem next?_eq_none_of_count (h : t.count '>' = 0) (params : Text → List Text) :
    next? params t = none := by
  cases hnext : next? params t with
  | none => rfl
  | some r =>
    obtain ⟨p, w, hsplit, hheader, -⟩ := exists_of_next?_eq_some hnext
    have := hheader.count_lt
    rw [hsplit, List.count_append, List.count_append] at h
    omega

theorem next?_rewriteUpTo (hparams : ∀ p, angles (params p) ≤ p.count '>') {bound : Nat}
    (hbound : t.count '>' ≤ bound) : next? params (rewriteUpTo params bound t) = none := by
  induction bound generalizing t with
  | zero => exact next?_eq_none_of_count (Nat.le_zero.mp hbound) params
  | succ bound ih =>
    rw [rewriteUpTo]
    cases hnext : next? params t with
    | none => exact hnext
    | some r =>
      have := count_result_lt hparams hnext
      exact ih (by omega)

end Arrow

namespace Procedure

theorem count_rewriteBodyWithin_le (depth : Nat) (t : Text) :
    (rewriteBodyWithin depth t).count '>' ≤ t.count '>' := by
  have happly : ∀ t, (Substitution.applyAll (normalizeIndentation t)).count '>' ≤ t.count '>' :=
    fun t => (Substitution.count_applyAll_le _).trans (count_normalizeIndentation_le t)
  induction depth generalizing t with
  | zero => exact happly t
  | succ depth ih =>
    rw [rewriteBodyWithin]
    exact (Arrow.count_rewriteUpTo_le (Parameter.angles_textsWith_le ih) _ _).trans (happly t)

theorem angles_parameterTexts_le (p : Text) : angles (parameterTexts p) ≤ p.count '>' :=
  Parameter.angles_textsWith_le (fun t => count_rewriteBodyWithin_le _ t) p

end Procedure

end CanvasPage
