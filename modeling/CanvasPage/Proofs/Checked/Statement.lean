import CanvasPage.Checked.Class
import CanvasPage.Proofs.Checked.Script
import CanvasPage.Proofs.ClassBlock.Member

namespace CanvasPage.Checked

open Script Text

variable {b : Bracket} {c d q : Char} {t u v w m r : Text} {pos stop fuel depth k : Nat}

/-- At `pos` the text `w` begins, and at `stop`, after it, the brace that closes its class. -/
structure Stands (t : Text) (pos stop : Nat) (w : Text) : Prop where
  exists_split : ∃ u z, t = u ++ (w ++ '\x7d' :: z) ∧ pos = byteLength u
  stop_eq : stop = pos + byteLength w

namespace Stands

theorem skip (h : Stands t pos stop (m ++ r)) : Stands t (pos + byteLength m) stop r := by
  obtain ⟨⟨u, z, rfl, rfl⟩, rfl⟩ := h
  exact ⟨⟨u ++ m, z, by simp, by simp⟩, by rw [byteLength_append, Nat.add_assoc]⟩

theorem eq_add (h : Stands t pos stop (m ++ r)) (hr : Stands t k stop r) :
    k = pos + byteLength m := by
  have hstop := h.stop_eq
  rw [hr.stop_eq, byteLength_append] at hstop
  omega

theorem le (h : Stands t pos stop w) : pos ≤ stop := by
  rw [h.stop_eq]
  exact Nat.le_add_right _ _

theorem lt (h : Stands t pos stop (c :: w)) : pos < stop := by
  have := c.utf8Size_pos
  rw [h.stop_eq, byteLength_cons]
  omega

theorem stop_lt (h : Stands t pos stop w) : stop < byteLength t := by
  obtain ⟨⟨u, z, rfl, rfl⟩, rfl⟩ := h
  have := ('\x7d').utf8Size_pos
  simp only [byteLength_append, byteLength_cons]
  omega

theorem cut (h : Stands t pos stop (m ++ r)) : cut t pos (pos + byteLength m) = .ok m := by
  obtain ⟨⟨u, z, rfl, rfl⟩, -⟩ := h
  exact cut_eq_ok (by rw [List.append_assoc]) rfl rfl

theorem cut_stop (h : Stands t pos stop w) : Checked.cut t pos stop = .ok w := by
  rw [h.stop_eq]
  rw [← List.append_nil w] at h
  exact h.cut

theorem byteAt (h : Stands t pos stop (c :: w)) (hc : c.toNat < 128) : byteAt t pos = .ok c := by
  obtain ⟨⟨u, z, rfl, rfl⟩, -⟩ := h
  exact byteAt_char hc u _

theorem areWide (h : Stands t pos stop (c :: w)) (hc : 128 ≤ c.toNat) :
    AreWide t pos c.utf8Size := by
  obtain ⟨⟨u, z, rfl, rfl⟩, -⟩ := h
  exact areWide_char hc u _

theorem byte?_beq (h : Stands t pos stop w) (hd : d.toNat < 128) (hne : d ≠ '\x7d') :
    (byte? t pos == some d) = (w.head? == some d) := by
  obtain ⟨⟨u, z, rfl, rfl⟩, -⟩ := h
  rw [byte?_append, byte?_beq_some hd]
  cases w with
  | nil => simp [Ne.symm hne]
  | cons c w => rfl

theorem opensLine_eq (h : Stands t pos stop (c :: w)) (hc : c.toNat < 128) :
    opensLine t pos c = (c == '/' && w.head? == some '/') := by
  have hnext := h.skip (m := [c])
  rw [byteLength_singleton hc] at hnext
  rw [opensLine, hnext.byte?_beq (by decide) (by decide)]

theorem opensComment_eq (h : Stands t pos stop (c :: w)) (hc : c.toNat < 128) :
    opensComment t pos c = (c == '/' && w.head? == some '*') := by
  have hnext := h.skip (m := [c])
  rw [byteLength_singleton hc] at hnext
  rw [opensComment, hnext.byte?_beq (by decide) (by decide)]

/-- A bracket is closed where it is closed in the class, or else after it. -/
theorem matchingDelimiter (h : Stands t pos stop (b.opener :: w)) :
    ∃ found, matchingDelimiter t pos = .ok found ∧
      ((∃ i r, b.enclosed? w = some (i, r) ∧ found = some (pos + 1 + byteLength i)) ∨
        b.enclosed? w = none ∧ ∀ close ∈ found, stop ≤ close) := by
  obtain ⟨⟨u, z, rfl, rfl⟩, rfl⟩ := h
  refine ⟨_, matchingDelimiter_eq_ok b rfl rfl, ?_⟩
  have hsize := byteLength_singleton (opener_lt b)
  cases hw : b.enclosed? w with
  | some found =>
    obtain ⟨i, r⟩ := found
    have hall : b.enclosed? (w ++ '\x7d' :: z) = some (i, r ++ '\x7d' :: z) :=
      Bracket.closeFrom_append_of_eq_some hw _
    exact .inl ⟨i, r, rfl, by rw [List.append_eq, hall, Option.map_some]⟩
  | none =>
    refine .inr ⟨rfl, fun close hclose => ?_⟩
    obtain ⟨⟨i, r⟩, hall, rfl⟩ := Option.map_eq_some_iff.mp hclose
    obtain ⟨v, rfl⟩ := Bracket.exists_of_closeFrom_append hw hall
    rw [byteLength_cons, byteLength_append, utf8Size_of_lt (opener_lt b)]
    omega

theorem matchingBefore (h : Stands t pos stop (b.opener :: w)) :
    matchingBefore t stop pos =
      .ok ((b.enclosed? w).map fun p => pos + 1 + byteLength p.1) := by
  obtain ⟨found, hfound, ⟨i, r, hw, rfl⟩ | ⟨hw, hclose⟩⟩ := h.matchingDelimiter
  · have hlt : pos + 1 + byteLength i < stop := by
      have hsize := utf8Size_of_lt (closer_lt b)
      rw [h.stop_eq, Bracket.eq_of_closeFrom _ _ _ _ hw, byteLength_cons, byteLength_append,
        byteLength_cons, utf8Size_of_lt (opener_lt b)]
      omega
    rw [Checked.matchingBefore, hfound, bind_ok, hw]
    show Except.ok (Option.filter _ _) = _
    rw [Option.filter_some, if_pos (by simpa using hlt)]
    rfl
  · rw [Checked.matchingBefore, hfound, bind_ok, hw]
    show Except.ok (Option.filter _ _) = _
    refine congrArg Except.ok (Option.filter_eq_none_iff.mpr fun close hmem => ?_)
    simpa using hclose close hmem

theorem stringStop? (h : Stands t pos stop (q :: w)) (hq : opensString q = true) :
    ∃ found, stringStop? t q pos = .ok found ∧
      ((∃ m r, (State.start.step q).leave? w = some (m, r) ∧
          found = some (pos + 1 + byteLength m)) ∨
        (State.start.step q).leave? w = none ∧ ∀ next ∈ found, stop ≤ next) := by
  obtain ⟨⟨u, z, rfl, rfl⟩, rfl⟩ := h
  have hcode := isCode_step_of_quote hq
  refine ⟨_, stringStop?_eq_ok hq rfl rfl, ?_⟩
  cases hw : (State.start.step q).leave? w with
  | some found =>
    obtain ⟨m, r⟩ := found
    exact .inl ⟨m, r, rfl, by rw [List.append_eq, State.leave?_append hcode hw, Option.map_some]⟩
  | none =>
    refine .inr ⟨rfl, fun next hnext => ?_⟩
    rw [List.append_eq, State.leave?_append_of_eq_none hcode hw, Option.map_map] at hnext
    obtain ⟨p, -, rfl⟩ := Option.map_eq_some_iff.mp hnext
    simp only [Function.comp_apply, byteLength_append, byteLength_cons,
      utf8Size_of_lt (toNat_lt_of_opensString hq)]
    omega

end Stands

section Trivia

theorem nameStop_eq_ok (h : Stands t pos stop w) (hfuel : byteLength w < fuel) :
    nameStop t stop fuel pos =
      .ok (pos + byteLength (w.takeWhile fun c => isIdentifierChar c || c == '.')) := by
  induction w generalizing pos fuel with
  | nil =>
    obtain ⟨fuel, rfl⟩ : ∃ f, fuel = f + 1 := ⟨fuel - 1, by omega⟩
    have hstop : stop ≤ pos := Nat.le_of_eq h.stop_eq
    rw [nameStop, if_pos hstop]
    rfl
  | cons c w ih =>
    have hpos := c.utf8Size_pos
    obtain ⟨fuel, rfl⟩ : ∃ f, fuel = f + 1 := ⟨fuel - 1, by omega⟩
    rw [byteLength_cons] at hfuel
    rw [nameStop, if_neg (Nat.not_le.mpr h.lt), List.takeWhile_cons]
    by_cases hc : c.toNat < 128
    · have hsize := byteLength_singleton hc
      have hlt : byteLength w < fuel := by omega
      have hrest := ih (h.skip (m := [c])) hlt
      rw [hsize] at hrest
      rw [h.byteAt hc, bind_ok, hrest]
      split
      · rw [byteLength_cons, utf8Size_of_lt hc, Nat.add_assoc]
      · rfl
    · have hwide := Nat.le_of_not_lt hc
      obtain ⟨e, he, hbyte⟩ := h.areWide hwide 0 hpos
      rw [Nat.add_zero] at he
      rw [byteAt_eq_ok he, bind_ok, isIdentifierChar_of_wide hbyte,
        beq_of_wide hbyte (by decide), isIdentifierChar_of_wide hwide,
        beq_of_wide hwide (by decide)]
      rfl

theorem find?_lineFeed_cases (t : Text) :
    (find? "\n" t = none ∧ (t.takeWhile (· != '\n')).length = t.length) ∨
      ∃ m r, t = m ++ '\n' :: r ∧ find? "\n" t = some (byteLength m) ∧
        (t.takeWhile (· != '\n')).length = m.length := by
  induction t with
  | nil => exact .inl ⟨rfl, rfl⟩
  | cons c t ih =>
    by_cases hc : c = '\n'
    · subst hc
      exact .inr ⟨[], t, rfl, rfl, rfl⟩
    · have hfind : find? "\n" (c :: t) = (find? "\n" t).map (c.utf8Size + ·) := by
        rw [find?, if_neg (by simp [List.isPrefixOf, Ne.symm hc])]
      have htake : (c :: t).takeWhile (· != '\n') = c :: t.takeWhile (· != '\n') :=
        List.takeWhile_cons_of_pos (by simpa using hc)
      rw [hfind, htake, List.length_cons, List.length_cons]
      rcases ih with ⟨hnone, hlen⟩ | ⟨m, r, rfl, hsome, hlen⟩
      · exact .inl ⟨by rw [hnone]; rfl, by rw [hlen]⟩
      · exact .inr ⟨c :: m, r, rfl, by rw [hsome]; rfl, by rw [hlen, List.length_cons]⟩

theorem find?_commentEnd_cases (t : Text) :
    (find? "*/" t = none ∧ Member.blockCommentWidth t = t.length) ∨
      ∃ m r, t = m ++ '*' :: '/' :: r ∧ find? "*/" t = some (byteLength m) ∧
        Member.blockCommentWidth t = m.length + 2 := by
  fun_induction Member.blockCommentWidth t with
  | case1 => exact .inl ⟨rfl, rfl⟩
  | case2 r => exact .inr ⟨[], r, rfl, rfl, rfl⟩
  | case3 c t hne ih =>
    have hprefix : List.isPrefixOf ("*/" : Text) (c :: t) = false := by
      refine Bool.eq_false_iff.mpr fun hprefix => ?_
      obtain ⟨r, hr⟩ := List.isPrefixOf_iff_prefix.mp hprefix
      obtain ⟨rfl, rfl⟩ := List.cons.inj hr
      exact hne r rfl rfl
    have hfind : find? "*/" (c :: t) = (find? "*/" t).map (c.utf8Size + ·) := by
      rw [find?, hprefix, if_neg Bool.false_ne_true]
    rw [hfind, List.length_cons]
    rcases ih with ⟨hnone, hlen⟩ | ⟨m, r, rfl, hsome, hlen⟩
    · exact .inl ⟨by rw [hnone]; rfl, by omega⟩
    · exact .inr ⟨c :: m, r, rfl, by rw [hsome]; rfl, by rw [List.length_cons]; omega⟩

/-- Trivia of `k` characters at the start of `w` lead to `p`, which may be past the end. -/
def Leads (w : Text) (pos stop k p : Nat) : Prop :=
  (∃ m r, w = m ++ r ∧ m.length = k ∧ p = pos + byteLength m) ∨ w.length ≤ k ∧ stop ≤ p

theorem lt_of_blank (hc : (" \t\r\n;" : Text).contains c = true) : c.toNat < 128 := by
  have hall : ∀ d ∈ (" \t\r\n;" : Text), d.toNat < 128 := by decide
  exact hall c (by simpa using hc)

theorem skipTrivia_blank (h : Stands t pos stop (c :: w))
    (hc : (" \t\r\n;" : Text).contains c = true) (fuel : Nat) :
    ∃ p, skipTrivia t stop (fuel + 1) pos = skipTrivia t stop fuel p ∧
      Leads (c :: w) pos stop 1 p := by
  have hsize := byteLength_singleton (lt_of_blank hc)
  refine ⟨pos + 1, ?_, .inl ⟨[c], w, rfl, rfl, by rw [hsize]⟩⟩
  rw [skipTrivia, if_neg (Nat.not_le.mpr h.lt), h.byteAt (lt_of_blank hc), bind_ok, if_pos hc]

theorem skipTrivia_line (h : Stands t pos stop ('/' :: '/' :: w)) (fuel : Nat) :
    ∃ p, skipTrivia t stop (fuel + 1) pos = skipTrivia t stop fuel p ∧
      Leads ('/' :: '/' :: w) pos stop ((w.takeWhile (· != '\n')).length + 3) p := by
  have hline : opensLine t pos '/' = true := by
    rw [h.opensLine_eq (by decide)]
    rfl
  have hstep : skipTrivia t stop (fuel + 1) pos =
      (((find? "\n" w).map (pos + 2 + ·)).elim (skipTrivia t stop fuel stop) fun feed =>
        skipTrivia t stop fuel (feed + 1)) := by
    have hfind : find? "\n" ('/' :: '/' :: w) = (find? "\n" w).map (2 + ·) := by
      show ((find? "\n" w).map (1 + ·)).map (1 + ·) = _
      rw [Option.map_map]
      exact congrArg (Option.map · _) (funext fun k => (Nat.add_assoc 1 1 k).symm)
    rw [skipTrivia, if_neg (Nat.not_le.mpr h.lt), h.byteAt (by decide), bind_ok,
      if_neg (by decide), if_pos hline, lineStop?, h.cut_stop, bind_ok, hfind]
    cases find? "\n" w with
    | none => rfl
    | some k => exact congrArg (fun p => skipTrivia t stop fuel (p + 1)) (Nat.add_assoc pos 2 k).symm
  rw [hstep]
  rcases find?_lineFeed_cases w with ⟨hnone, hlen⟩ | ⟨m, r, rfl, hsome, hlen⟩
  · refine ⟨stop, by rw [hnone]; rfl, .inr ⟨?_, Nat.le_refl _⟩⟩
    rw [hlen, List.length_cons, List.length_cons]
    omega
  · refine ⟨pos + 2 + byteLength m + 1, by rw [hsome]; rfl, .inl ⟨'/' :: '/' :: (m ++ ['\n']), r,
      by simp, by simp [hlen], ?_⟩⟩
    rw [byteLength_cons, byteLength_cons, byteLength_append]
    show _ = pos + (1 + (1 + (byteLength m + 1)))
    omega

theorem skipTrivia_comment (h : Stands t pos stop ('/' :: '*' :: w)) (fuel : Nat) :
    ∃ p, skipTrivia t stop (fuel + 1) pos = skipTrivia t stop fuel p ∧
      Leads ('/' :: '*' :: w) pos stop (Member.blockCommentWidth w + 2) p := by
  have hline : opensLine t pos '/' = false := by
    rw [h.opensLine_eq (by decide)]
    rfl
  have hcomment : opensComment t pos '/' = true := by
    rw [h.opensComment_eq (by decide)]
    rfl
  have hcut : cut t (pos + 2) stop = .ok w := (h.skip (m := ['/', '*'])).cut_stop
  have hstep : skipTrivia t stop (fuel + 1) pos =
      (((find? "*/" w).map (pos + 2 + · + 2)).elim (skipTrivia t stop fuel stop)
        (skipTrivia t stop fuel)) := by
    rw [skipTrivia, if_neg (Nat.not_le.mpr h.lt), h.byteAt (by decide), bind_ok,
      if_neg (by decide), hline, if_neg Bool.false_ne_true, if_pos hcomment, commentStop?, hcut,
      bind_ok]
    cases find? "*/" w <;> rfl
  rw [hstep]
  rcases find?_commentEnd_cases w with ⟨hnone, hlen⟩ | ⟨m, r, rfl, hsome, hlen⟩
  · refine ⟨stop, by rw [hnone]; rfl, .inr ⟨?_, Nat.le_refl _⟩⟩
    rw [hlen, List.length_cons, List.length_cons]
  · refine ⟨pos + 2 + byteLength m + 2, by rw [hsome]; rfl,
      .inl ⟨'/' :: '*' :: (m ++ ['*', '/']), r, by simp, by simp [hlen], ?_⟩⟩
    rw [byteLength_cons, byteLength_cons, byteLength_append]
    show _ = pos + (1 + (1 + (byteLength m + 2)))
    omega

theorem skipTrivia_at (h : Stands t pos stop ('@' :: (m ++ r)))
    (hname : nameStop t stop fuel (pos + 1) = .ok (pos + 1 + byteLength m)) :
    skipTrivia t stop (fuel + 1) pos =
      if r.head? == some '(' then
        matchingDelimiter t (pos + 1 + byteLength m) >>= fun close =>
          close.elim (skipTrivia t stop fuel stop) fun close => skipTrivia t stop fuel (close + 1)
      else skipTrivia t stop fuel (pos + 1 + byteLength m) := by
  have hline : opensLine t pos '@' = false := rfl
  have hcomment : opensComment t pos '@' = false := rfl
  have hrest : Stands t (pos + 1 + byteLength m) stop r := (h.skip (m := ['@'])).skip
  rw [skipTrivia, if_neg (Nat.not_le.mpr h.lt), h.byteAt (by decide), bind_ok,
    if_neg (by decide), hline, if_neg Bool.false_ne_true, hcomment, if_neg Bool.false_ne_true,
    if_pos (by decide), hname, bind_ok, hrest.byte?_beq (by decide) (by decide)]
  split
  · refine bind_congr fun close => ?_
    cases close <;> rfl
  · rfl

theorem skipTrivia_decorator (h : Stands t pos stop ('@' :: w)) (hfuel : byteLength w < fuel) :
    ∃ p, skipTrivia t stop (fuel + 1) pos = skipTrivia t stop fuel p ∧
      Leads ('@' :: w) pos stop (Member.decoratorWidth w + 1) p := by
  obtain ⟨name, hname⟩ : ∃ n, n = w.takeWhile fun c => isIdentifierChar c || c == '.' := ⟨_, rfl⟩
  obtain ⟨r, hw⟩ : ∃ r, w = name ++ r := ⟨_, by rw [hname, List.takeWhile_append_dropWhile]⟩
  have hrest : Stands t (pos + 1) stop (name ++ r) := by
    rw [← hw]
    exact h.skip (m := ['@'])
  have hstop : nameStop t stop fuel (pos + 1) = .ok (pos + 1 + byteLength name) := by
    rw [nameStop_eq_ok hrest (by rw [← hw]; exact hfuel), ← hw, ← hname]
  have hdrop : w.drop name.length = r := by rw [hw, List.drop_left]
  rw [skipTrivia_at (hw ▸ h) hstop, Member.decoratorWidth, ← hname, hdrop]
  have hplain : Leads ('@' :: w) pos stop (name.length + 1) (pos + 1 + byteLength name) :=
    .inl ⟨'@' :: name, r, by rw [hw]; rfl, rfl, Nat.add_assoc pos 1 _⟩
  cases r with
  | nil => exact ⟨_, rfl, hplain⟩
  | cons c r =>
    by_cases hc : c = '('
    · subst hc
      obtain ⟨found, hfound, ⟨i, a, hi, rfl⟩ | ⟨hi, hclose⟩⟩ :=
        Stands.matchingDelimiter (b := .paren) hrest.skip
      · refine ⟨_, by rw [hfound]; rfl, .inl ⟨'@' :: (name ++ '(' :: (i ++ [')'])), a, ?_, ?_, ?_⟩⟩
        · rw [hw, Bracket.eq_of_closeFrom _ _ _ _ hi]
          simp [Bracket.closer]
        · simp [hi]
          omega
        · rw [byteLength_cons, byteLength_append, byteLength_cons, byteLength_append]
          show _ = pos + (1 + (byteLength name + (1 + (byteLength i + 1))))
          omega
      · cases found with
        | none => exact ⟨stop, by rw [hfound]; rfl, .inr ⟨by simp [hi], Nat.le_refl _⟩⟩
        | some close =>
          exact ⟨close + 1, by rw [hfound]; rfl,
            .inr ⟨by simp [hi], Nat.le_succ_of_le (hclose close rfl)⟩⟩
    · refine ⟨_, if_neg (by simpa using hc), ?_⟩
      split
      · rename_i hparen
        exact absurd (List.cons.inj hparen).1 hc
      · exact hplain

theorem eq_of_blank (hc : (" \t\r\n;" : Text).contains c = true) :
    c = ' ' ∨ c = '\t' ∨ c = '\r' ∨ c = '\n' ∨ c = ';' := by
  have hmem : c ∈ [' ', '\t', '\r', '\n', ';'] := by simpa using hc
  simpa using hmem

theorem skipTrivia_of_triviaWidth?_eq_none (h : Stands t pos stop (c :: w))
    (hk : Member.triviaWidth? (c :: w) = none) (fuel : Nat) :
    skipTrivia t stop (fuel + 1) pos = .ok pos := by
  have hstop := Nat.not_le.mpr h.lt
  by_cases hc : c.toNat < 128
  · have hblank : (" \t\r\n;" : Text).contains c = false := by
      refine Bool.eq_false_iff.mpr fun hblank => ?_
      rcases eq_of_blank hblank with rfl | rfl | rfl | rfl | rfl <;> cases hk
    have hline : opensLine t pos c = false := by
      rw [h.opensLine_eq hc]
      refine Bool.eq_false_iff.mpr fun hline => ?_
      simp only [Bool.and_eq_true, beq_iff_eq] at hline
      obtain ⟨r, rfl⟩ := List.head?_eq_some_iff.mp hline.2
      rw [hline.1] at hk
      cases hk
    have hcomment : opensComment t pos c = false := by
      rw [h.opensComment_eq hc]
      refine Bool.eq_false_iff.mpr fun hcomment => ?_
      simp only [Bool.and_eq_true, beq_iff_eq] at hcomment
      obtain ⟨r, rfl⟩ := List.head?_eq_some_iff.mp hcomment.2
      rw [hcomment.1] at hk
      cases hk
    have hat : (c == '@') = false := by
      refine beq_false_of_ne ?_
      rintro rfl
      cases hk
    rw [skipTrivia, if_neg hstop, h.byteAt hc, bind_ok, hblank, hline, hcomment, hat]
    rfl
  · obtain ⟨e, he, hbyte⟩ := h.areWide (Nat.le_of_not_lt hc) 0 c.utf8Size_pos
    rw [Nat.add_zero] at he
    have hblank : (" \t\r\n;" : Text).contains e = false := by
      refine Bool.eq_false_iff.mpr fun hblank => ?_
      have := lt_of_blank hblank
      omega
    have hslash := beq_of_wide (d := '/') hbyte (by decide)
    rw [skipTrivia, if_neg hstop, byteAt_eq_ok he, bind_ok, hblank, opensLine, opensComment, hslash,
      beq_of_wide hbyte (by decide)]
    rfl

theorem skipTrivia_of_le (h : stop ≤ pos) (hfuel : 0 < fuel) :
    skipTrivia t stop fuel pos = .ok pos := by
  obtain ⟨fuel, rfl⟩ : ∃ f, fuel = f + 1 := ⟨fuel - 1, by omega⟩
  rw [skipTrivia, if_pos h]

theorem skipTrivia_step (h : Stands t pos stop w) (hfuel : byteLength w ≤ fuel)
    (hk : Member.triviaWidth? w = some k) :
    0 < k ∧ ∃ p, skipTrivia t stop (fuel + 1) pos = skipTrivia t stop fuel p ∧
      Leads w pos stop k p := by
  rw [Member.triviaWidth?.eq_def] at hk
  split at hk
  · obtain rfl := Option.some.inj hk
    exact ⟨Nat.succ_pos _, skipTrivia_line h fuel⟩
  · obtain rfl := Option.some.inj hk
    exact ⟨Nat.succ_pos _, skipTrivia_comment h fuel⟩
  · obtain rfl := Option.some.inj hk
    refine ⟨Nat.succ_pos _, skipTrivia_decorator h ?_⟩
    rw [byteLength_cons] at hfuel
    exact Nat.lt_of_lt_of_le (Nat.lt_add_of_pos_left Nat.one_pos) hfuel
  · split at hk
    · rename_i hc
      obtain rfl := Option.some.inj hk
      exact ⟨Nat.one_pos, skipTrivia_blank h hc fuel⟩
    · cases hk
  · cases hk

theorem skipTrivia_eq_ok (h : Stands t pos stop w) (hfuel : byteLength w < fuel) :
    ∃ p, skipTrivia t stop fuel pos = .ok p ∧
      ((stop ≤ p ∧ Member.scanFrom pos 0 w = []) ∨
        ∃ r, r ≠ [] ∧ Stands t p stop r ∧ byteLength r ≤ byteLength w ∧
          Member.triviaWidth? r = none ∧ Member.scanFrom pos 0 w = Member.scanFrom p 0 r) := by
  induction fuel generalizing pos w with
  | zero => omega
  | succ fuel ih =>
    cases hk : Member.triviaWidth? w with
    | none =>
      cases w with
      | nil =>
        have hstop : stop ≤ pos := Nat.le_of_eq h.stop_eq
        exact ⟨pos, skipTrivia_of_le hstop (Nat.succ_pos _), .inl ⟨hstop, rfl⟩⟩
      | cons c w =>
        exact ⟨pos, skipTrivia_of_triviaWidth?_eq_none h hk fuel,
          .inr ⟨_, List.cons_ne_nil c w, h, Nat.le_refl _, hk, rfl⟩⟩
    | some k =>
      obtain ⟨hpos, p, hstep, ⟨m, r, rfl, rfl, rfl⟩ | ⟨hlen, hstop⟩⟩ :=
        skipTrivia_step h (Nat.le_of_lt_succ hfuel) hk
      · have hm : m ≠ [] := List.length_pos_iff.mp hpos
        have hsize : 0 < byteLength m := byteLength_pos hm
        rw [byteLength_append] at hfuel
        obtain ⟨p, hp, hcases⟩ := ih h.skip (by omega)
        have hscan : Member.scanFrom pos 0 (m ++ r) = Member.scanFrom (pos + byteLength m) 0 r := by
          rw [Member.scanFrom_trivia hk, List.take_left, List.drop_left]
        refine ⟨p, hstep.trans hp, hcases.imp (fun hc => ⟨hc.1, hscan.trans hc.2⟩) ?_⟩
        rintro ⟨r', hr, hstands, hle, hnone, hrest⟩
        exact ⟨r', hr, hstands, by rw [byteLength_append]; omega, hnone, hscan.trans hrest⟩
      · have hw : 0 < byteLength w := by
          cases w with
          | nil => cases hk
          | cons c w =>
            have := c.utf8Size_pos
            rw [byteLength_cons]
            omega
        refine ⟨p, hstep.trans (skipTrivia_of_le hstop (by omega)), .inl ⟨hstop, ?_⟩⟩
        rw [Member.scanFrom_trivia hk, List.drop_eq_nil_of_le hlen]
        rfl

end Trivia

section Statement

variable {s : State} {seen : Text} {string : Option State} {start n : Nat}

theorem continued_trimEnd (seen : Text) :
    continued (trimEnd seen.reverse) = Member.continues seen := by
  rw [trimEnd, dropEndWhile, List.reverse_reverse, Member.continues]
  generalize seen.dropWhile isBlank = x
  have hsuffix : ∀ u : Text, List.isSuffixOf u x.reverse = List.isPrefixOf u.reverse x := by
    intro u
    rw [List.isSuffixOf, List.reverse_reverse]
  have hall : continued x.reverse =
      (List.isPrefixOf ['='] x || List.isPrefixOf [','] x || List.isPrefixOf ['>', '='] x) := by
    simp [continued, hsuffix, Bool.or_assoc]
  rw [hall]
  split
  · rfl
  · rfl
  · simp [List.isPrefixOf]
  · rename_i hequals hcomma harrow
    refine Bool.eq_false_iff.mpr fun h => ?_
    simp only [Bool.or_eq_true, List.isPrefixOf_iff_prefix] at h
    rcases h with (⟨r, rfl⟩ | ⟨r, rfl⟩) | ⟨r, rfl⟩
    · exact hequals r rfl
    · exact hcomma r rfl
    · exact harrow r rfl

theorem ne_lineFeed_of_isCode_step (hs : s.isCode = false) (hcode : (s.step c).isCode = true)
    {next : Option Char} (hrole : ¬ (s.role c next == .code) = true) : c ≠ '\n' := by
  rintro rfl
  obtain ⟨mode, nesting⟩ := s
  cases nesting with
  | cons n ns =>
    cases mode <;> cases n <;>
      grind [State.step, State.isCode, stepCode, stepTemplate, isQuote, isBacktick]
  | nil =>
    cases mode <;>
      grind [State.step, State.isCode, State.role, stepCode, stepTemplate, isQuote, isBacktick]

theorem statementWidth_of_leave?_eq_none (hs : s.isCode = false) (h : s.leave? w = none) :
    Member.statementWidth depth seen (some s) w = w.length := by
  fun_induction State.leave? s w generalizing seen with
  | case1 => rfl
  | case2 | case3 => cases h
  | case4 s c w hrole hcode ih =>
    rw [Member.statementWidth, Option.map_some]
    dsimp only
    rw [if_pos (by simpa using hcode), ih (by simpa using hcode) (Option.map_eq_none_iff.mp h),
      List.length_cons, Nat.add_comm]

theorem statementWidth_of_leave? (hs : s.isCode = false) (h : s.leave? w = some (m, r)) :
    Member.statementWidth depth seen (some s) w =
      m.length + Member.statementWidth depth (m.reverse ++ seen) none r := by
  fun_induction State.leave? s w generalizing seen m r with
  | case1 => cases h
  | case2 s c w hrole =>
    obtain ⟨rfl, rfl⟩ := Prod.mk.inj (Option.some.inj h)
    obtain ⟨rfl, hstep⟩ := State.of_role_eq_code hs hrole
    rw [Member.statementWidth, Option.map_some, hstep, Member.statementWidth, Option.map_none]
    simp [State.isCode, State.start, Member.deeper, isQuote, isBacktick]
  | case3 s c w hrole hcode =>
    obtain ⟨rfl, rfl⟩ := Prod.mk.inj (Option.some.inj h)
    have hc := ne_lineFeed_of_isCode_step hs hcode hrole
    rw [Member.statementWidth, Option.map_some]
    dsimp only
    rw [if_neg (by simpa using hcode), if_pos (by simpa using hc)]
    rfl
  | case4 s c w hrole hcode ih =>
    obtain ⟨⟨i, a⟩, hi, heq⟩ := Option.map_eq_some_iff.mp h
    obtain ⟨rfl, rfl⟩ := Prod.mk.inj heq
    rw [Member.statementWidth, Option.map_some]
    dsimp only
    rw [if_pos (by simpa using hcode), ih (by simpa using hcode) hi, List.length_cons,
      List.reverse_cons, List.append_assoc, List.singleton_append]
    omega

/-- After `n` characters of `w` comes a semicolon, a line feed or nothing. -/
def EndsAfter (w : Text) (n : Nat) : Prop :=
  ∃ m r, w = m ++ r ∧ n = m.length ∧ ∀ d ∈ r.head?, d = ';' ∨ d = '\n'

theorem EndsAfter.cons (h : EndsAfter w n) (c : Char) : EndsAfter (c :: w) (1 + n) := by
  obtain ⟨m, r, rfl, rfl, hr⟩ := h
  exact ⟨c :: m, r, rfl, Nat.add_comm 1 _, hr⟩

theorem endsAfter_zero (h : c = ';' ∨ c = '\n') (w : Text) : EndsAfter (c :: w) 0 :=
  ⟨[], c :: w, rfl, rfl, by simpa using h⟩

theorem endsAfter_statementWidth (depth : Nat) (seen : Text) (string : Option State) (w : Text) :
    EndsAfter w (Member.statementWidth depth seen string w) := by
  fun_induction Member.statementWidth depth seen string w with
  | case1 => exact ⟨[], [], rfl, rfl, by simp⟩
  | case2 _ _ _ c _ _ _ _ ih | case3 _ _ _ c _ _ _ _ _ ih | case5 _ _ _ c _ _ _ _ _ _ ih
  | case7 _ _ _ c _ _ _ _ ih => exact ih.cons c
  | case4 _ _ _ c w _ _ _ hfeed => exact endsAfter_zero (.inr (by simpa using hfeed)) w
  | case6 _ _ _ c w _ h =>
    simp only [Bool.and_eq_true, Bool.or_eq_true, beq_iff_eq] at h
    exact endsAfter_zero (h.2.imp_right And.left) w

theorem deeper_of_wide (hc : 128 ≤ c.toNat) (depth : Nat) : Member.deeper depth c = depth := by
  simp only [Member.deeper, beq_of_wide hc (d := '(') (by decide),
    beq_of_wide hc (d := '[') (by decide), beq_of_wide hc (d := '\x7b') (by decide),
    beq_of_wide hc (d := ')') (by decide), beq_of_wide hc (d := ']') (by decide),
    beq_of_wide hc (d := '\x7d') (by decide)]
  rfl

theorem deeper_of_opensString (hc : opensString c = true) (depth : Nat) :
    Member.deeper depth c = depth := by
  simp only [opensString, isQuote, isBacktick, Bool.or_eq_true, beq_iff_eq] at hc
  rcases hc with (rfl | rfl) | hc
  · rfl
  · rfl
  · obtain rfl : c = Char.ofNat 96 := Char.toNat_inj.mp hc
    rfl

theorem statementStop_of_le (h : stop ≤ pos) (hfuel : 0 < fuel) :
    statementStop t start stop fuel depth pos = .ok stop := by
  obtain ⟨fuel, rfl⟩ : ∃ f, fuel = f + 1 := ⟨fuel - 1, by omega⟩
  rw [statementStop, if_pos h]

theorem statementStop_skip (h : AreWide t pos n) (hstop : pos + n ≤ stop) (fuel : Nat) :
    statementStop t start stop (fuel + n) depth pos =
      statementStop t start stop fuel depth (pos + n) := by
  induction n generalizing pos with
  | zero => rfl
  | succ n ih =>
    obtain ⟨d, hd, hwide⟩ := h.head
    rw [← Nat.add_assoc, statementStop, if_neg (by omega), byteAt_eq_ok hd, bind_ok,
      opensString_of_wide hwide, beq_of_wide hwide (by decide), beq_of_wide hwide (by decide),
      deeper_of_wide hwide]
    simp only [Bool.false_and, Bool.false_eq_true, if_false]
    rw [ih h.tail (by omega), Nat.add_assoc, Nat.add_comm 1]

/-- With up to `n` bytes to come, a statement that has gone from `start` to `pos` ends where reading
character by character ends it. -/
def StopsWithin (t : Text) (start stop n : Nat) : Prop :=
  ∀ ⦃seen w : Text⦄ ⦃pos f : Nat⦄ (depth : Nat), Stands t start stop (seen.reverse ++ w) →
    pos = start + byteLength seen.reverse → byteLength w ≤ n → byteLength w < f →
    statementStop t start stop f depth pos =
      .ok (pos + byteLength (w.take (Member.statementWidth depth seen none w)))

theorem StopsWithin.after (hstops : StopsWithin t start stop n) (depth fuel : Nat)
    (h : Stands t start stop (seen.reverse ++ (m ++ r)))
    (hpos : pos = start + byteLength seen.reverse) (hn : byteLength r ≤ n)
    (hfuel : byteLength r < fuel)
    (hwidth : k = m.length + Member.statementWidth depth (m.reverse ++ seen) none r) :
    statementStop t start stop fuel depth (pos + byteLength m) =
      .ok (pos + byteLength ((m ++ r).take k)) := by
  have hr : Stands t start stop ((m.reverse ++ seen).reverse ++ r) := by simpa using h
  have hpos' : pos + byteLength m = start + byteLength (m.reverse ++ seen).reverse := by
    simp [hpos, Nat.add_assoc]
  rw [hstops depth hr hpos' hn hfuel, hwidth, List.take_length_add_append, byteLength_append,
    Nat.add_assoc]

theorem StopsWithin.quoted (hstops : StopsWithin t start stop n) (hc : opensString c = true)
    (h : Stands t start stop (seen.reverse ++ c :: w))
    (hpos : pos = start + byteLength seen.reverse) (hn : byteLength w ≤ n)
    (hfuel : byteLength w < fuel) :
    statementStop t start stop (fuel + 1) depth pos =
      .ok (pos + byteLength ((c :: w).take (Member.statementWidth depth seen none (c :: w)))) := by
  have hw : Stands t pos stop (c :: w) := hpos ▸ h.skip
  have hlt := toNat_lt_of_opensString hc
  have hcode := isCode_step_of_quote hc
  have hplain : c ≠ ';' ∧ c ≠ '\n' := by
    constructor <;> (rintro rfl; cases hc)
  have hwidth : Member.statementWidth depth seen none (c :: w) =
      1 + Member.statementWidth depth (c :: seen) (some (State.start.step c)) w := by
    rw [opensString] at hc
    rw [Member.statementWidth, Option.map_none]
    simp only [beq_false_of_ne hplain.1, beq_false_of_ne hplain.2, Bool.false_and, Bool.or_false,
      Bool.and_false, Bool.false_eq_true, if_false, hc, if_true, deeper_of_opensString hc]
  rw [statementStop, if_neg (Nat.not_le.mpr hw.lt), hw.byteAt hlt, bind_ok, if_pos hc]
  obtain ⟨found, hfound, ⟨m, r, hleave, rfl⟩ | ⟨hleave, hnext⟩⟩ := hw.stringStop? hc
  · obtain rfl := State.eq_of_leave? hleave
    rw [byteLength_append] at hn hfuel
    rw [statementWidth_of_leave? hcode hleave, ← Nat.add_assoc, Nat.add_comm 1] at hwidth
    have hafter := hstops.after depth fuel (m := c :: m) (r := r) h hpos (by omega) (by omega)
      (by simpa using hwidth)
    rw [byteLength_cons, utf8Size_of_lt hlt, ← Nat.add_assoc] at hafter
    rw [hfound, bind_ok]
    exact hafter
  · have hall : pos + byteLength ((c :: w).take (1 + w.length)) = stop := by
      rw [Nat.add_comm 1, ← List.length_cons, List.take_length, hw.stop_eq]
    rw [hwidth, statementWidth_of_leave?_eq_none hcode hleave, hall, hfound, bind_ok]
    cases found with
    | none => exact statementStop_of_le (Nat.le_refl _) (by omega)
    | some next => exact statementStop_of_le (hnext next rfl) (by omega)

theorem statementWidth_cons (hc : opensString c = false)
    (hend : (depth == 0 && (c == ';' || (c == '\n' && !Member.continues seen))) = false) :
    Member.statementWidth depth seen none (c :: w) =
      1 + Member.statementWidth (Member.deeper depth c) (c :: seen) none w := by
  rw [opensString] at hc
  rw [Member.statementWidth, Option.map_none]
  simp only [hend, hc, Bool.false_eq_true, if_false]

theorem StopsWithin.ascii (hstops : StopsWithin t start stop n) (hc : c.toNat < 128)
    (hplain : opensString c = false) (h : Stands t start stop (seen.reverse ++ c :: w))
    (hpos : pos = start + byteLength seen.reverse) (hn : byteLength w ≤ n)
    (hfuel : byteLength w < fuel) :
    statementStop t start stop (fuel + 1) depth pos =
      .ok (pos + byteLength ((c :: w).take (Member.statementWidth depth seen none (c :: w)))) := by
  have hw : Stands t pos stop (c :: w) := hpos ▸ h.skip
  have hline : cut t start pos = .ok seen.reverse := hpos ▸ h.cut
  rw [statementStop, if_neg (Nat.not_le.mpr hw.lt), hw.byteAt hc, bind_ok, hplain,
    if_neg Bool.false_ne_true, hline, bind_ok, continued_trimEnd]
  cases hend : depth == 0 && (c == ';' || (c == '\n' && !Member.continues seen)) with
  | true =>
    have hwidth : Member.statementWidth depth seen none (c :: w) = 0 := by
      rw [Member.statementWidth, Option.map_none]
      exact if_pos hend
    simp only [Bool.and_eq_true, Bool.or_eq_true, beq_iff_eq, Bool.not_eq_true'] at hend
    rw [hwidth]
    obtain ⟨rfl, rfl | ⟨rfl, hcontinues⟩⟩ := hend
    · rfl
    · rw [hcontinues]
      rfl
  | false =>
    have hrest := hstops.after (Member.deeper depth c) fuel (m := [c]) (r := w) h hpos hn hfuel rfl
    rw [byteLength_singleton hc] at hrest
    rw [statementWidth_cons hplain hend]
    by_cases hfeed : (c == '\n' && depth == 0) = true
    · obtain ⟨hc, hdepth⟩ := Bool.and_eq_true_iff.mp hfeed
      rw [beq_iff_eq] at hc hdepth
      subst hc hdepth
      have hcontinues : Member.continues seen = true := by simpa using hend
      rw [hcontinues]
      exact hrest
    · have hsemicolon : (c == ';' && depth == 0) = false := by
        refine Bool.eq_false_iff.mpr fun hsemicolon => ?_
        obtain ⟨hc, hdepth⟩ := Bool.and_eq_true_iff.mp hsemicolon
        rw [hc, hdepth] at hend
        cases hend
      rw [hsemicolon, if_neg Bool.false_ne_true, if_neg hfeed]
      exact hrest

theorem stopsWithin_succ (hstops : StopsWithin t start stop n) : StopsWithin t start stop (n + 1) := by
  rintro seen w pos fuel depth h rfl hn hfuel
  have hw : Stands t (start + byteLength seen.reverse) stop w := h.skip
  cases w with
  | nil =>
    have hstop : stop = start + byteLength seen.reverse := hw.stop_eq
    rw [statementStop_of_le (Nat.le_of_eq hstop) (by omega), hstop]
    rfl
  | cons c w =>
    have hsize := c.utf8Size_pos
    rw [byteLength_cons] at hn hfuel
    by_cases hlt : c.toNat < 128
    · obtain ⟨fuel, rfl⟩ : ∃ f, fuel = f + 1 := ⟨fuel - 1, by omega⟩
      cases hc : opensString c with
      | true => exact hstops.quoted hc h rfl (by omega) (by omega)
      | false => exact hstops.ascii hlt hc h rfl (by omega) (by omega)
    · have hwide := Nat.le_of_not_lt hlt
      obtain ⟨fuel, rfl⟩ : ∃ f, fuel = f + c.utf8Size := ⟨fuel - c.utf8Size, by omega⟩
      have hstop : start + byteLength seen.reverse + c.utf8Size ≤ stop := by
        rw [hw.stop_eq, byteLength_cons]
        omega
      have hend : (depth == 0 && (c == ';' || (c == '\n' && !Member.continues seen))) = false := by
        rw [beq_of_wide hwide (by decide), beq_of_wide hwide (by decide)]
        simp
      have hrest := hstops.after depth fuel (m := [c]) (r := w) h rfl (by omega) (by omega) rfl
      rw [statementStop_skip (hw.areWide hwide) hstop,
        statementWidth_cons (opensString_of_wide hwide) hend, deeper_of_wide hwide]
      simpa using hrest

theorem stopsWithin (t : Text) (start stop n : Nat) : StopsWithin t start stop n := by
  induction n with
  | zero =>
    rintro seen w pos fuel depth h rfl hn hfuel
    obtain rfl := eq_nil_of_byteLength_le hn
    have hstop : stop = start + byteLength seen.reverse := (h.skip (r := [])).stop_eq
    rw [statementStop_of_le (Nat.le_of_eq hstop) (by omega), hstop]
    rfl
  | succ n ih => exact stopsWithin_succ ih

theorem statementStop_eq_ok (h : Stands t pos stop w) (hfuel : byteLength w < fuel) :
    statementStop t pos stop fuel 0 pos =
      .ok (pos + byteLength (w.take (Member.statementWidth 0 [] none w))) :=
  have hstart : Stands t pos stop (([] : Text).reverse ++ w) := h
  stopsWithin t pos stop (byteLength w) 0 hstart rfl (Nat.le_refl _) hfuel

end Statement

end CanvasPage.Checked
