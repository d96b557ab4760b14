import CanvasPage.Checked.Body
import CanvasPage.Proofs.Checked.Parameter
import CanvasPage.Proofs.Checked.Script
import CanvasPage.Proofs.Pattern.Capture
import CanvasPage.Proofs.Procedure.PlainCode

namespace CanvasPage

namespace Script

theorem Role.bne_code_or_of_not_joins {r r' : Role} (hne : r.joins r' = false) :
    (r != .code || r' != .code) = true := by
  cases r <;> cases r' <;> first | rfl | cases hne

theorem isChain_chunk {rcs : List (Role × Char)}
    (h : rcs.IsChain fun a b => a.1 = .code → b.1 ≠ .inside) :
    (chunk rcs).IsChain fun a b => (a.isLiteral || b.isLiteral) = true := by
  fun_induction chunk rcs with
  | case1 => exact .nil
  | case2 r c => exact .singleton _
  | case3 r c r' c' rest s ss hs hj ih =>
    obtain ⟨hcode, htail⟩ := List.isChain_cons_cons.mp h
    obtain ⟨t, ss', hchunk⟩ := exists_chunk_cons r' c' rest
    obtain ⟨rfl, rfl⟩ : s = .ofRole r' t ∧ ss = ss' := by simpa [hs] using hchunk
    have ih := ih htail
    rw [hs] at ih
    cases ss with
    | nil => exact .singleton _
    | cons s ss =>
      obtain ⟨hfirst, hrest⟩ := List.isChain_cons_cons.mp ih
      rw [Segment.isLiteral_ofRole, ← Role.bne_code_of_joins hj hcode] at hfirst
      exact .cons_cons (by rwa [Segment.isLiteral_ofRole]) hrest
  | case4 r c r' c' rest hx ih =>
    have htail := (List.isChain_cons_cons.mp h).2
    obtain ⟨t, ss, hchunk⟩ := exists_chunk_cons r' c' rest
    have hjoins : r.joins r' = false := Bool.eq_false_iff.mpr fun hj => hx _ _ hj hchunk
    have ih := ih htail
    rw [hchunk] at ih ⊢
    refine .cons_cons ?_ ih
    rw [Segment.isLiteral_ofRole, Segment.isLiteral_ofRole]
    exact Role.bne_code_or_of_not_joins hjoins

end Script

namespace Checked

open Script Text

variable {t u w : Text}

theorem replaceBetween_end (s : Substitution) (ht : t = u ++ w) :
    replaceBetween s t (byteLength u) [⟨byteLength t, byteLength t⟩] =
      .ok (s.pattern.replaceAll s.replacement w) := by
  have hcode : cut t (byteLength u) (byteLength t) = .ok w :=
    cut_eq_ok (w := []) (by rw [ht, List.append_nil]) rfl (by rw [ht, byteLength_append])
  have hkept : cut t (byteLength t) (byteLength t) = .ok [] :=
    cut_eq_ok (u := t) (v := []) (w := []) (by simp) rfl rfl
  rw [replaceBetween, hcode, bind_ok, hkept, bind_ok]
  show Except.ok (_ ++ [] ++ []) = _
  rw [List.append_nil, List.append_nil]

theorem replaceBetween_literal (s : Substitution) {c l rest : Text} (spans : List Span)
    (ht : t = u ++ (c ++ (l ++ w)))
    (hrest : replaceBetween s t (byteLength u + byteLength c + byteLength l) spans = .ok rest) :
    replaceBetween s t (byteLength u)
        (⟨byteLength u + byteLength c, byteLength u + byteLength c + byteLength l⟩ :: spans) =
      .ok (s.pattern.replaceAll s.replacement c ++ (l ++ rest)) := by
  have hcode : cut t (byteLength u) (byteLength u + byteLength c) = .ok c := cut_eq_ok ht rfl rfl
  have hkept : cut t (byteLength u + byteLength c) (byteLength u + byteLength c + byteLength l) =
      .ok l :=
    cut_eq_ok (u := u ++ c) (by rw [ht, List.append_assoc]) (byteLength_append u c).symm rfl
  rw [replaceBetween, hcode, bind_ok, hkept, bind_ok, hrest, ← List.append_assoc]
  rfl

theorem replaceBetween_eq_ok (s : Substitution) : ∀ (gs : List Segment) (u : Text),
    gs.IsChain (fun a b => (a.isLiteral || b.isLiteral) = true) →
      t = u ++ gs.flatMap Segment.text →
        replaceBetween s t (byteLength u)
            (literalSpans (byteLength u) gs ++ [⟨byteLength t, byteLength t⟩]) =
          .ok (gs.flatMap s.onSegment)
  | [], _, _, ht => replaceBetween_end s ht
  | [.code c], u, _, ht => by
      have hend := replaceBetween_end s ht
      rw [List.flatMap_singleton] at hend ⊢
      exact hend
  | .literal l :: gs, u, hgs, ht => by
      have hrest := replaceBetween_eq_ok s gs (u ++ l) hgs.tail (by
        rw [ht, List.flatMap_cons, List.append_assoc]
        rfl)
      rw [byteLength_append] at hrest
      exact replaceBetween_literal s (c := []) _ ht hrest
  | .code c :: .literal l :: gs, u, hgs, ht => by
      have hrest := replaceBetween_eq_ok s gs (u ++ c ++ l) hgs.tail.tail (by
        rw [ht]
        simp [Segment.text])
      rw [byteLength_append, byteLength_append] at hrest
      exact replaceBetween_literal s _ ht hrest
  | .code _ :: .code _ :: _, _, hgs, _ => absurd (List.isChain_cons_cons.mp hgs).1 Bool.false_ne_true

theorem substitute_eq_ok (t : Text) (s : Substitution) : substitute t s = .ok (s.apply t) := by
  rw [substitute, literalRanges_eq_ok, bind_ok, Substitution.apply_eq_flatMap]
  exact replaceBetween_eq_ok s (segments t) [] (isChain_chunk (isChain_roles .start t))
    (flatten_segments t).symm

theorem substituteAll_eq_ok (t : Text) : substituteAll t = .ok (Substitution.applyAll t) := by
  have hfold : ∀ (ss : List Substitution) (t : Text),
      ss.foldlM substitute t = .ok (ss.foldl (fun t s => s.apply t) t) := by
    intro ss
    induction ss with
    | nil => exact fun t => rfl
    | cons s ss ih =>
      intro t
      rw [List.foldlM_cons, substitute_eq_ok, bind_ok, ih]
      rfl
  exact hfold _ t

variable {a b : Option Char} {v : Text}

section This

theorem Resembles.any_isIdentifierChar (h : Resembles a b) :
    a.any isIdentifierChar = b.any isIdentifierChar := by
  cases a <;> cases b
  · rfl
  · exact h.elim
  · exact h.elim
  · rename_i x y
    rcases h with rfl | ⟨hx, hy⟩
    · rfl
    · rw [Option.any_some, Option.any_some, isIdentifierChar_of_wide hx, isIdentifierChar_of_wide hy]

theorem isWordBoundary_eq_ok (ht : t = u ++ v) :
    isWordBoundary t (byteLength u) =
      .ok (!(u.getLast?.any isIdentifierChar && v.head?.any isIdentifierChar)) := by
  obtain ⟨b, hb, hresembles⟩ := exists_resembles_getLast? u v
  have hnext : (byte? t (byteLength u)).any isIdentifierChar = v.head?.any isIdentifierChar := by
    rw [ht, byte?_append]
    exact (resembles_byte?_head? v).any_isIdentifierChar
  rw [isWordBoundary, ht, hb, bind_ok, ← ht, ← hresembles.any_isIdentifierChar, ← hnext]
  cases b with
  | none => rfl
  | some x =>
    cases byte? t (byteLength u) with
    | none => rw [Option.any_none, Bool.and_false]; rfl
    | some y => rfl

theorem mentionsThisAfter_eq_ok (ht : t = u ++ v) :
    ((offsetsOf "this" (byteLength u) v).anyM fun i => do
        if ← isWordBoundary t i then isWordBoundary t (i + 4) else return false) =
      .ok (Arrow.mentionsThisAfter u.getLast? v) := by
  induction v generalizing u with
  | nil => rfl
  | cons c v ih =>
    have hrest := ih (u := u ++ [c]) (by simp [ht])
    rw [List.getLast?_concat, byteLength_append] at hrest
    rw [offsetsOf, Arrow.mentionsThisAfter]
    cases hthis : List.isPrefixOf ("this" : Text) (c :: v) with
    | false =>
      rw [if_neg Bool.false_ne_true, Bool.and_false, Bool.false_and, Bool.false_or]
      exact hrest
    | true =>
      obtain ⟨z, hz⟩ := List.isPrefixOf_iff_prefix.mp hthis
      have hword : ("this" : Text) = ['t', 'h', 'i', 's'] := rfl
      rw [hword] at hz
      obtain ⟨rfl, hv⟩ := List.cons.inj hz
      obtain rfl : v = 'h' :: 'i' :: 's' :: z := hv.symm
      have hstart := isWordBoundary_eq_ok ht
      have hstop := isWordBoundary_eq_ok (t := t) (u := u ++ ['t', 'h', 'i', 's']) (v := z)
        (by rw [ht, List.append_assoc]; rfl)
      have hlast : (u ++ ['t', 'h', 'i', 's']).getLast? = some 's' := by simp
      rw [byteLength_append, hlast] at hstop
      rw [if_pos rfl, List.anyM_cons]
      have hletters : isIdentifierChar 't' = true ∧ isIdentifierChar 's' = true := by decide
      rw [List.head?_cons, Option.any_some, hletters.1, Bool.and_true] at hstart
      rw [Option.any_some, hletters.2, Bool.true_and] at hstop
      have hstop : isWordBoundary t (byteLength u + 4) = .ok (!z.head?.any isIdentifierChar) := hstop
      have hdrop : ('h' :: 'i' :: 's' :: z).drop 3 = z := rfl
      rw [hstart, bind_ok, hstop, hdrop, Bool.and_true]
      cases hbefore : u.getLast?.any isIdentifierChar with
      | true => exact hrest
      | false =>
        cases hafter : z.head?.any isIdentifierChar with
        | true => exact hrest
        | false => rfl

theorem mentionsThis_eq_ok (t : Text) : mentionsThis t = .ok (Arrow.mentionsThis t) :=
  mentionsThisAfter_eq_ok (u := []) rfl

end This

section Headers

variable {h : Arrow.Header} {params : Text → Run (List Text)} {params' : Text → List Text}

theorem any_literalRanges (p : Text) (c : Char) (q : Text) :
    ((Script.literalRanges (p ++ c :: q)).any fun r =>
        r.start ≤ byteLength p && byteLength p < r.stop) = inLiteral (p ++ c :: q) p.length := by
  have hcode := isCodeOffset_append (p := p) (c := c) q (Nat.le_refl _)
    (Nat.lt_add_of_pos_right c.utf8Size_pos)
  rw [inLiteral_append, bne, ← hcode, isCodeOffset, List.not_all_eq_any_not]
  simp only [Bool.not_not]
  rfl

theorem isReplaceable_eq_ok (hh : h ∈ Arrow.headers t) :
    isReplaceable t (Script.literalRanges t) h = .ok (Arrow.isReplaceable t h) := by
  obtain ⟨x, hsplit, hstop, -⟩ := Arrow.exists_of_mem_headers_split hh
  obtain ⟨p, hp⟩ : ∃ p, p = h.start.before.reverse := ⟨_, rfl⟩
  rw [← hp] at hsplit hstop
  have htext : t = (p ++ x) ++ Bracket.brace.opener :: h.stop.after := by
    rw [hsplit]
    simp [Bracket.opener]
  have hstart : h.start.offset = byteLength p ∧ h.start.before.length = p.length := by
    rw [hp, Cursor.offset, byteLength_reverse, List.length_reverse]
    exact ⟨rfl, rfl⟩
  have hopening : h.stop.offset = byteLength (p ++ x) + 1 ∧
      h.stop.before.length - 1 = (p ++ x).length := by
    rw [Cursor.offset, ← byteLength_reverse, ← List.length_reverse, hstop, ← List.append_assoc,
      byteLength_append _ ['\x7b'], List.length_append]
    exact ⟨rfl, Nat.add_sub_cancel _ _⟩
  obtain ⟨c, q, hq⟩ := List.exists_cons_of_ne_nil
    (List.append_ne_nil_of_right_ne_nil x (List.cons_ne_nil Bracket.brace.opener h.stop.after))
  have hhead : t = p ++ c :: q := by rw [htext, List.append_assoc, hq]
  have hfirst := any_literalRanges p c q
  have hlast := any_literalRanges (p ++ x) Bracket.brace.opener h.stop.after
  rw [← hhead] at hfirst
  rw [← htext] at hlast
  rw [isReplaceable, Arrow.isReplaceable, hstart.1, hstart.2, hopening.1, hopening.2,
    minus_of_le (Nat.le_add_left 1 _), Nat.add_sub_cancel, bind_ok]
  simp only [hfirst, hlast]
  cases inLiteral t p.length with
  | true => rfl
  | false =>
    cases inLiteral t (p ++ x).length with
    | true => rfl
    | false =>
      rw [matchingDelimiter_eq_ok .brace htext rfl, bind_ok]
      cases hblock : Bracket.brace.enclosed? h.stop.after with
      | none => rfl
      | some found =>
        obtain ⟨block, rest⟩ := found
        dsimp only [Option.map_some]
        rw [cut_enclosed htext rfl hblock, bind_ok, mentionsThis_eq_ok, bind_ok]
        rfl

/-- With fewer than `n` arrows the parameters by bytes are those by characters. -/
def ReadsBelow (params : Text → Run (List Text)) (params' : Text → List Text) (n : Nat) : Prop :=
  ∀ p : Text, p.count '>' < n → params p = .ok (params' p)

theorem nextArrow?_eq_ok (h : ReadsBelow params params' (t.count '>')) :
    nextArrow? params t = .ok ((Arrow.next? params' t).map fun r =>
      (⟨r.start.offset, r.stop.offset⟩, r.replacement)) := by
  rw [nextArrow?, literalRanges_eq_ok, bind_ok, findM?_eq_ok fun _ => isReplaceable_eq_ok, bind_ok,
    Arrow.next?]
  cases hfind : (Arrow.headers t).find? (Arrow.isReplaceable t) with
  | none => rfl
  | some header =>
    obtain ⟨x, hsplit, -, hheader⟩ :=
      Arrow.exists_of_mem_headers_split (List.mem_of_find?_eq_some hfind)
    have hcount : header.params.count '>' < t.count '>' := by
      refine Nat.lt_of_lt_of_le hheader.count_lt ?_
      rw [hsplit]
      simp only [List.count_append]
      omega
    dsimp only
    rw [h _ hcount]
    rfl

theorem replaceRange_eq_ok {r : Arrow.Rewrite} (h : Arrow.next? params' t = some r) :
    replaceRange t ⟨r.start.offset, r.stop.offset⟩ r.replacement = .ok r.result := by
  obtain ⟨header, hfind, rfl⟩ := Option.map_eq_some_iff.mp h
  obtain ⟨x, hsplit, hstop, -⟩ :=
    Arrow.exists_of_mem_headers_split (List.mem_of_find?_eq_some hfind)
  have hstart : header.start.offset = byteLength header.start.before.reverse := by
    rw [Cursor.offset, byteLength_reverse]
  have hoffset : header.stop.offset =
      byteLength header.start.before.reverse + byteLength (x ++ ['\x7b']) := by
    rw [Cursor.offset, ← byteLength_reverse, hstop, byteLength_append]
  have hbefore : cut t 0 header.start.offset = .ok header.start.before.reverse :=
    cut_eq_ok (u := []) hsplit rfl (by rw [hstart, Nat.zero_add])
  have hheader : cut t header.start.offset header.stop.offset = .ok (x ++ ['\x7b']) :=
    cut_eq_ok hsplit hstart (by rw [hoffset, hstart])
  have hafter : cutFrom t header.stop.offset = .ok header.stop.after := by
    refine cutFrom_eq_ok (u := header.start.before.reverse ++ (x ++ ['\x7b'])) ?_ ?_
    · rw [List.append_assoc]
      exact hsplit
    · rw [hoffset, byteLength_append _ (x ++ _)]
  rw [replaceRange, hbefore, bind_ok, hheader, bind_ok, hafter]
  rfl

theorem rewriteArrows_eq_ok {n bound : Nat} (h : ReadsBelow params params' n)
    (hparams : ∀ p, angles (params' p) ≤ p.count '>') (ht : t.count '>' ≤ n)
    (hbound : t.count '>' ≤ bound) :
    rewriteArrows params bound t = .ok (Arrow.rewriteUpTo params' bound t) := by
  induction bound generalizing t with
  | zero =>
    rw [rewriteArrows, nextArrow?_eq_ok fun p hp => h p (Nat.lt_of_lt_of_le hp ht), bind_ok,
      Arrow.next?_eq_none_of_count (Nat.le_zero.mp hbound)]
    rfl
  | succ bound ih =>
    rw [rewriteArrows, nextArrow?_eq_ok fun p hp => h p (Nat.lt_of_lt_of_le hp ht), bind_ok,
      Arrow.rewriteUpTo]
    cases hnext : Arrow.next? params' t with
    | none => rfl
    | some r =>
      have hlt := Arrow.count_result_lt hparams hnext
      dsimp only [Option.map_some]
      rw [replaceRange_eq_ok hnext, bind_ok]
      exact ih (by omega) (by omega)

end Headers

section Bodies

theorem rewriteBodyWithin_eq_ok (depth : Nat) :
    Rewrites (rewriteBodyWithin depth) (Procedure.rewriteBodyWithin depth) depth := by
  have hcount : ∀ raw : Text,
      (Substitution.applyAll (Procedure.normalizeIndentation raw)).count '>' ≤ raw.count '>' :=
    fun raw => (Substitution.count_applyAll_le _).trans (Procedure.count_normalizeIndentation_le raw)
  induction depth with
  | zero =>
    intro raw hraw
    have hzero := Nat.le_zero.mp ((hcount raw).trans hraw)
    have hparams : ReadsBelow (textsWith fun _ => .error .endless) (fun _ => []) 0 :=
      fun p hp => absurd hp (Nat.not_lt_zero _)
    rw [rewriteBodyWithin, normalizeIndentation_eq_ok, bind_ok, substituteAll_eq_ok, bind_ok,
      Procedure.rewriteBodyWithin, rewriteArrows_eq_ok hparams (fun p => Nat.zero_le _)
        (Nat.le_of_eq hzero) (Nat.le_refl _), hzero]
    rfl
  | succ depth ih =>
    intro raw hraw
    rw [rewriteBodyWithin, normalizeIndentation_eq_ok, bind_ok, substituteAll_eq_ok, bind_ok,
      Procedure.rewriteBodyWithin]
    refine rewriteArrows_eq_ok (n := depth + 1) (fun p hp => textsWith_eq_ok ih (Nat.le_of_lt_succ hp))
      (Parameter.angles_textsWith_le (Procedure.count_rewriteBodyWithin_le depth)) ?_ (Nat.le_refl _)
    exact (hcount raw).trans hraw

theorem rewriteBody_eq_ok (raw : Text) : rewriteBody raw = .ok (Procedure.rewriteBody raw) :=
  rewriteBodyWithin_eq_ok _ raw (Nat.le_refl _)

end Bodies

end Checked

end CanvasPage
