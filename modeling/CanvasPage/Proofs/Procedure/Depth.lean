import CanvasPage.Proofs.Procedure.Angles

namespace CanvasPage

variable {t raw raw' : Text}

namespace Parameter

variable {f g : Text → Text}

theorem read?_congr {piece : Text}
    (h : ∀ v : Text, v.count '>' ≤ piece.count '>' → f v = g v) : read? f piece = read? g piece := by
  obtain ⟨lead, rest, hsplit, hoffset, hf⟩ := read?_eq f piece
  obtain ⟨lead', rest', hsplit', hoffset', hg⟩ := read?_eq g piece
  have hrest : rest = rest' := by
    have hdrop := Text.dropBytes_append lead' rest'
    rw [← hsplit', hsplit, ← hoffset', hoffset, Text.dropBytes_append] at hdrop
    exact Option.some.inj hdrop
  obtain rfl := hrest
  obtain rfl : lead = lead' := List.append_cancel_right (hsplit.symm.trans hsplit')
  have hcount : rest.count '>' ≤ piece.count '>' := by
    refine Nat.le_trans ?_ (count_trim_le piece)
    rw [hsplit, List.count_append]
    exact Nat.le_add_left _ _
  rw [hf, hg]
  cases hdefault : splitDefault 0 none rest with
  | none => rfl
  | some pair =>
    obtain ⟨head, value⟩ := pair
    have hvalue : (Text.trim value).count '>' ≤ piece.count '>' := by
      refine (count_trim_le value).trans (Nat.le_trans ?_ hcount)
      rw [eq_of_splitDefault hdefault, List.count_append, List.count_cons]
      omega
    dsimp only
    rw [h _ hvalue]

theorem textsWith_congr (h : ∀ v : Text, v.count '>' ≤ raw.count '>' → f v = g v) :
    textsWith f raw = textsWith g raw := by
  have hread : ∀ piece ∈ split raw, read? f piece = read? g piece := fun piece hpiece =>
    read?_congr fun v hv => h v <|
      hv.trans ((count_le_angles hpiece).trans (angles_splitFrom_le 0 none none raw))
  rw [textsWith, textsWith, readAll, readAll, List.filterMap_congr hread]

end Parameter

namespace Arrow

variable {params params' : Text → List Text}

theorem next?_congr (h : ∀ p : Text, p.count '>' < t.count '>' → params p = params' p) :
    next? params t = next? params' t := by
  rw [next?, next?]
  cases hfind : (headers t).find? (isReplaceable t) with
  | none => rfl
  | some header =>
    obtain ⟨w, hsplit, hheader⟩ := isHeader_of_mem_headers (List.mem_of_find?_eq_some hfind)
    have hcount : header.params.count '>' < t.count '>' := by
      have := hheader.count_lt
      have := congrArg (List.count '>') hsplit
      rw [List.count_append, List.count_append] at this
      omega
    rw [Option.map_some, Option.map_some, h _ hcount]

theorem rewriteUpTo_congr (hparams : ∀ p, angles (params p) ≤ p.count '>')
    (h : ∀ p : Text, p.count '>' < t.count '>' → params p = params' p) (bound : Nat) :
    rewriteUpTo params bound t = rewriteUpTo params' bound t := by
  induction bound generalizing t with
  | zero => rfl
  | succ bound ih =>
    rw [rewriteUpTo, rewriteUpTo, ← next?_congr h]
    cases hnext : next? params t with
    | none => rfl
    | some r =>
      have := count_result_lt hparams hnext
      exact ih fun p hp => h p (by omega)

theorem rewriteUpTo_of_count_le {n m : Nat}
    (hparams : ∀ p, angles (params p) ≤ p.count '>') (ht : t.count '>' ≤ n) (hle : n ≤ m) :
    rewriteUpTo params m t = rewriteUpTo params n t := by
  induction n generalizing t m with
  | zero =>
    have hnone := next?_eq_none_of_count (Nat.le_zero.mp ht) params
    rw [rewriteUpTo_of_next?_eq_none hnone, rewriteUpTo_of_next?_eq_none hnone]
  | succ n ih =>
    obtain ⟨m, rfl⟩ := Nat.exists_eq_add_of_le' hle
    rw [← Nat.add_assoc, rewriteUpTo, rewriteUpTo]
    cases hnext : next? params t with
    | none => rfl
    | some r =>
      have := count_result_lt hparams hnext
      exact ih (by omega) (by omega)

end Arrow

namespace Procedure

open Substitution (applyAll)

theorem count_applyAll_normalizeIndentation_le (raw : Text) :
    (applyAll (normalizeIndentation raw)).count '>' ≤ raw.count '>' :=
  (Substitution.count_applyAll_le _).trans (count_normalizeIndentation_le raw)

theorem rewriteBodyWithin_congr {depth depth' n : Nat}
    (heq : applyAll (normalizeIndentation raw) = applyAll (normalizeIndentation raw'))
    (hn : (applyAll (normalizeIndentation raw)).count '>' ≤ n) (hdepth : n ≤ depth)
    (hdepth' : n ≤ depth') : rewriteBodyWithin depth raw = rewriteBodyWithin depth' raw' := by
  induction n generalizing raw raw' depth depth' with
  | zero =>
    have hnone : ∀ depth raw, (applyAll (normalizeIndentation raw)).count '>' ≤ 0 →
        rewriteBodyWithin depth raw = applyAll (normalizeIndentation raw) := by
      intro depth raw hzero
      cases depth with
      | zero => rfl
      | succ depth => rw [rewriteBodyWithin, Nat.le_zero.mp hzero, Arrow.rewriteUpTo]
    rw [hnone depth raw hn, hnone depth' raw' (heq ▸ hn), heq]
  | succ n ih =>
    cases depth with
    | zero => omega
    | succ depth =>
      cases depth' with
      | zero => omega
      | succ depth' =>
        rw [rewriteBodyWithin, rewriteBodyWithin, ← heq]
        refine Arrow.rewriteUpTo_congr
          (Parameter.angles_textsWith_le (count_rewriteBodyWithin_le depth)) (fun p hp => ?_) _
        refine Parameter.textsWith_congr fun v hv => ?_
        have := count_applyAll_normalizeIndentation_le v
        exact ih rfl (by omega) (by omega) (by omega)

theorem rewriteBodyWithin_eq_rewriteBody {depth : Nat} (h : raw.count '>' ≤ depth) :
    rewriteBodyWithin depth raw = rewriteBody raw :=
  rewriteBodyWithin_congr rfl (count_applyAll_normalizeIndentation_le raw) h (Nat.le_refl _)

/-- The substitutions are made first, then the arrows are rewritten as long as there are any. -/
theorem rewriteBody_eq_rewriteUpTo (raw : Text) :
    rewriteBody raw = Arrow.rewriteUpTo parameterTexts
      ((applyAll (normalizeIndentation raw)).count '>') (applyAll (normalizeIndentation raw)) := by
  have hcount := count_applyAll_normalizeIndentation_le raw
  rw [rewriteBody]
  cases hdepth : raw.count '>' with
  | zero =>
    rw [hdepth, Nat.le_zero] at hcount
    rw [rewriteBodyWithin, hcount, Arrow.rewriteUpTo]
  | succ depth =>
    rw [rewriteBodyWithin]
    refine Arrow.rewriteUpTo_congr
      (Parameter.angles_textsWith_le (count_rewriteBodyWithin_le depth)) (fun p hp => ?_) _
    exact Parameter.textsWith_congr fun v hv => rewriteBodyWithin_eq_rewriteBody (by omega)

theorem rewriteBody_congr
    (heq : applyAll (normalizeIndentation raw) = applyAll (normalizeIndentation raw')) :
    rewriteBody raw = rewriteBody raw' := by
  have hcount := count_applyAll_normalizeIndentation_le raw'
  rw [← heq] at hcount
  rw [rewriteBody, rewriteBody]
  exact rewriteBodyWithin_congr heq (Nat.le_refl _) (count_applyAll_normalizeIndentation_le raw)
    hcount

end Procedure

end CanvasPage
