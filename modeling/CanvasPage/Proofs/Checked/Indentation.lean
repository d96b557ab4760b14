import CanvasPage.Checked.Body
import CanvasPage.Proofs.Checked.Script
import CanvasPage.Proofs.Procedure.Indentation

namespace CanvasPage.Checked

open Text

section Indentation

variable {line : Text} {lines ls : List Text}

theorem lt_of_isIndent {c : Char} (h : Procedure.isIndent c = true) : c.toNat < 128 := by
  simp only [Procedure.isIndent, Bool.or_eq_true, beq_iff_eq] at h
  rcases h with rfl | rfl <;> decide

theorem byteLength_of_forall_isIndent {t : Text} (h : ∀ c ∈ t, Procedure.isIndent c = true) :
    byteLength t = t.length := by
  induction t with
  | nil => rfl
  | cons c t ih =>
    obtain ⟨hc, ht⟩ := List.forall_mem_cons.mp h
    rw [byteLength_cons, utf8Size_of_lt (lt_of_isIndent hc), ih ht, List.length_cons, Nat.add_comm]

theorem forall_mem_takeWhile_isIndent (line : Text) :
    ∀ c ∈ line.takeWhile Procedure.isIndent, Procedure.isIndent c = true :=
  fun _ hc => List.mem_takeWhile_imp hc

theorem indentation_eq_ok (line : Text) : indentation line = .ok (Procedure.indentation line) := by
  have hline : byteLength line = (line.takeWhile Procedure.isIndent).length +
      byteLength (line.dropWhile Procedure.isIndent) := by
    rw [← byteLength_of_forall_isIndent (forall_mem_takeWhile_isIndent line), ← byteLength_append,
      List.takeWhile_append_dropWhile]
  rw [indentation, minus_of_le (by omega), hline, Nat.add_sub_cancel]
  rfl

theorem stripIndent_eq_ok (line : Text) (indent : Nat) :
    stripIndent line indent = .ok (line.drop (min (Procedure.indentation line) indent)) := by
  obtain ⟨k, hk⟩ : ∃ k, k = min (Procedure.indentation line) indent := ⟨_, rfl⟩
  have hle : k ≤ Procedure.indentation line := hk ▸ Nat.min_le_left _ _
  have hlength : byteLength (line.take k) = k := by
    rw [byteLength_of_forall_isIndent (Procedure.isIndent_of_mem_take hle), List.length_take,
      Nat.min_eq_left (hle.trans (List.takeWhile_prefix _).length_le)]
  rw [stripIndent, indentation_eq_ok, bind_ok, ← hk]
  exact cutFrom_eq_ok (List.take_append_drop k line).symm hlength.symm

theorem dedent_false_eq_ok (indent : Nat) (line : Text) :
    dedent indent false line = .ok (Procedure.dropIndent indent line) := by
  rw [dedent, Procedure.dropIndent, stripIndent_eq_ok]
  split <;> rfl

theorem slice_eq_ok {α : Type} {xs ys zs : List α} {stop : Nat} (hstop : stop = xs.length + ys.length) :
    slice (xs ++ (ys ++ zs)) xs.length stop = .ok ys := by
  subst hstop
  rw [slice, if_pos (by simp only [List.length_append]; omega), List.drop_left,
    Nat.add_sub_cancel_left, List.take_left]

theorem dropWhile_cases {α : Type} (p : α → Bool) (xs : List α) :
    ((∀ a ∈ xs, p a = true) ∧ xs.dropWhile p = []) ∨
      ∃ pre a post, xs = pre ++ a :: post ∧ (∀ b ∈ pre, p b = true) ∧ p a = false ∧
        xs.dropWhile p = a :: post := by
  cases hdrop : xs.dropWhile p with
  | nil => exact .inl ⟨List.dropWhile_eq_nil_iff.mp hdrop, rfl⟩
  | cons a post =>
    have hsplit := List.takeWhile_append_dropWhile (p := p) (l := xs)
    rw [hdrop] at hsplit
    have ha := List.head_dropWhile_not p (l := xs) (by rw [hdrop]; exact List.cons_ne_nil a post)
    simp only [hdrop, List.head_cons] at ha
    exact .inr ⟨_, a, post, hsplit.symm, fun _ hb => List.mem_takeWhile_imp hb, ha, rfl⟩

theorem findIdx?_append_cons {α : Type} {p : α → Bool} {pre post : List α} {a : α}
    (hpre : ∀ b ∈ pre, p b = true) (ha : p a = false) :
    (pre ++ a :: post).findIdx? (!p ·) = some pre.length := by
  induction pre with
  | nil => simp [List.findIdx?_cons, ha]
  | cons b pre ih =>
    obtain ⟨hb, hpre⟩ := List.forall_mem_cons.mp hpre
    rw [List.cons_append, List.findIdx?_cons, hb, ih hpre]
    rfl

theorem blank_or_exists_split (ls : List Text) :
    (ls.findIdx? (!allBlank ·) = none ∧ Procedure.dropBlankEnds ls = []) ∨
      ∃ pre k rest post, ls = pre ++ ((k :: rest) ++ post) ∧ (∀ l ∈ pre, allBlank l = true) ∧
        ls.findIdx? (!allBlank ·) = some pre.length ∧
        (ls.reverse.findIdx? (!allBlank ·)).map (ls.length - 1 - ·) =
          some (pre.length + rest.length) ∧
        Procedure.dropBlankEnds ls = k :: rest ∧ allBlank k = false := by
  rcases dropWhile_cases allBlank ls with ⟨hall, hdrop⟩ | ⟨pre, k, tail, rfl, hpre, hk, hdrop⟩
  · refine .inl ⟨?_, by rw [Procedure.dropBlankEnds, hdrop]; rfl⟩
    simpa using hall
  rcases dropWhile_cases allBlank (k :: tail).reverse with
    ⟨hall, -⟩ | ⟨blanks, l, front, hsplit, hblanks, hl, hends⟩
  · rw [hall k (by simp)] at hk
    cases hk
  obtain ⟨k', rest, hrest⟩ := List.exists_cons_of_ne_nil
    (List.append_ne_nil_of_right_ne_nil front.reverse (List.cons_ne_nil l []))
  have htail : k :: tail = k' :: (rest ++ blanks.reverse) := by
    rw [← List.cons_append, ← hrest, ← List.reverse_reverse (k :: tail), hsplit]
    simp
  obtain ⟨rfl, rfl⟩ := List.cons.inj htail
  have hlength : rest.length = front.length := by simpa using (congrArg List.length hrest).symm
  refine .inr ⟨pre, k, rest, blanks.reverse, rfl, hpre, findIdx?_append_cons hpre hk, ?_, ?_, hk⟩
  · have hreverse : (pre ++ k :: (rest ++ blanks.reverse)).reverse =
        blanks ++ l :: (front ++ pre.reverse) := by
      rw [List.reverse_append, hsplit]
      simp
    rw [hreverse, findIdx?_append_cons hblanks hl, Option.map_some]
    simp only [List.length_append, List.length_cons, List.length_reverse]
    congr 1
    omega
  · rw [Procedure.dropBlankEnds, hdrop, hends]
    simpa using hrest

theorem indents_eq_ok (ls : List Text) :
    (ls.filter (!allBlank ·)).mapM indentation =
      .ok ((ls.filter (!allBlank ·)).map Procedure.indentation) :=
  mapM_eq_ok fun l _ => indentation_eq_ok l

theorem mapM_zipIdx_eq_ok {α β : Type} {f : α × Nat → Run β} {g : α → β} {xs : List α}
    {start : Nat} (h : ∀ p ∈ xs.zipIdx start, f p = .ok (g p.1)) :
    (xs.zipIdx start).mapM f = .ok (xs.map g) := by
  rw [mapM_eq_ok (g := fun p => g p.1) h, ← Function.comp_def g, ← List.map_map,
    List.zipIdx_map_fst]

theorem any_head?_of_trimmed {raws : List Text} {k : Text} (hhead : (raws.map trimEnd).head? = some k)
    (hk : allBlank k = false) : raws.head?.any (!allBlank ·) = true := by
  rw [List.head?_map] at hhead
  obtain ⟨first, hraw, rfl⟩ := Option.map_eq_some_iff.mp hhead
  rw [allBlank_trimEnd] at hk
  rw [hraw, Option.any_some, hk]
  rfl

theorem slice_tail {α : Type} (x : α) (xs : List α) :
    slice (x :: xs) 1 (x :: xs).length = .ok xs := by
  have hslice : slice ([x] ++ (xs ++ [])) [x].length (x :: xs).length = .ok xs :=
    slice_eq_ok (by simp only [List.length_cons, List.length_nil]; omega)
  rwa [List.append_nil] at hslice

theorem normalizeIndentation_eq_ok (raw : Text) :
    normalizeIndentation raw = .ok (Procedure.normalizeIndentation raw) := by
  rw [normalizeIndentation, Procedure.normalizeIndentation]
  obtain ⟨raws, hraws⟩ : ∃ raws, raws = Text.lines raw := ⟨_, rfl⟩
  obtain ⟨ls, hls⟩ : ∃ ls, ls = raws.map trimEnd := ⟨_, rfl⟩
  rw [← hraws, ← hls]
  rcases blank_or_exists_split ls with ⟨hnone, hdrop⟩ |
    ⟨pre, k, rest, post, hsplit, hpre, hfirst, hlast, hdrop, hk⟩
  · rw [hnone, hdrop]
    cases ls <;> rfl
  · dsimp only
    rw [hfirst, hlast, hdrop]
    dsimp only [Option.getD_some]
    rw [hsplit, slice_eq_ok (by simp only [List.length_cons]; omega), bind_ok]
    cases pre with
    | nil =>
      have hhead : (raws.map trimEnd).head? = some k := by
        rw [← hls, hsplit]
        rfl
      rw [any_head?_of_trimmed hhead hk, slice_tail]
      simp only [List.length_nil, BEq.rfl, Bool.and_true, if_true, bind_ok]
      rw [indents_eq_ok, bind_ok, List.zipIdx_cons, List.mapM_cons]
      dsimp only [List.nil_append, List.cons_append]
      rw [dedent, hk, mapM_zipIdx_eq_ok fun p hp => ?_]
      · rfl
      · have hlater : (p.2 == 0) = false :=
          beq_false_of_ne (Nat.pos_iff_ne_zero.mp (List.le_snd_of_mem_zipIdx hp))
        rw [hlater, dedent_false_eq_ok]
        rfl
    | cons p pre =>
      have hp : allBlank p = true := hpre p (by simp)
      have hinline : ((p :: pre).length == 0) = false := rfl
      simp only [hinline, Bool.false_and, Bool.false_eq_true, if_false, pure_bind]
      rw [indents_eq_ok, bind_ok]
      dsimp only [List.cons_append]
      rw [hp, mapM_zipIdx_eq_ok fun p _ => ?_]
      · rfl
      · rw [Bool.and_false, dedent_false_eq_ok]
        rfl

end Indentation

end CanvasPage.Checked
