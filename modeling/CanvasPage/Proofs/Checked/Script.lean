import CanvasPage.Checked.Script
import CanvasPage.Proofs.Checked.Bytes
import CanvasPage.Proofs.Script.LiteralRanges

namespace CanvasPage.Checked

open Script Text

section Finding

variable {t : Text}

theorem find?_lineFeed (t : Text) :
    find? "\n" t = (State.leave? ⟨.lineComment, []⟩ t).map fun p => byteLength p.1 := by
  induction t with
  | nil => rfl
  | cons c t ih =>
    by_cases hc : c = '\n'
    · subst hc
      rfl
    · have hprefix : List.isPrefixOf ("\n" : Text) (c :: t) = false := by
        simp [List.isPrefixOf, Ne.symm hc]
      have hrole : State.role ⟨.lineComment, []⟩ c t.head? = .inside := by simp [State.role, hc]
      have hstep : State.step ⟨.lineComment, []⟩ c = ⟨.lineComment, []⟩ := by simp [State.step, hc]
      rw [find?, hprefix, if_neg Bool.false_ne_true, ih, State.leave?, hrole,
        if_neg (by decide), hstep, if_neg (by decide), Option.map_map, Option.map_map]
      rfl

theorem leave?_blockCommentStar (h : t.head? ≠ some '/') :
    State.leave? ⟨.blockCommentStar, []⟩ t = State.leave? ⟨.blockComment, []⟩ t := by
  cases t with
  | nil => rfl
  | cons c t =>
    have hc : c ≠ '/' := fun hc => h (by rw [hc]; rfl)
    have hstep : State.step ⟨.blockCommentStar, []⟩ c = State.step ⟨.blockComment, []⟩ c := by
      simp [State.step, hc]
    rw [State.leave?, State.leave?, hstep]
    rfl

theorem find?_commentEnd (t : Text) :
    (find? "*/" t).map (· + 2) =
      (State.leave? ⟨.blockComment, []⟩ t).map fun p => byteLength p.1 := by
  induction t with
  | nil => rfl
  | cons c t ih =>
    have hskip : List.isPrefixOf ("*/" : Text) (c :: t) = false →
        (State.step ⟨.blockComment, []⟩ c).leave? t = State.leave? ⟨.blockComment, []⟩ t →
        (State.step ⟨.blockComment, []⟩ c).isCode = false →
        (find? "*/" (c :: t)).map (· + 2) =
          (State.leave? ⟨.blockComment, []⟩ (c :: t)).map fun p => byteLength p.1 := by
      intro hprefix hstep hcode
      have hmap : ∀ k, c.utf8Size + k + 2 = c.utf8Size + (k + 2) := fun k => Nat.add_assoc _ _ _
      have hrest : (find? "*/" t).map (fun k => c.utf8Size + (k + 2)) =
          ((find? "*/" t).map (· + 2)).map (c.utf8Size + ·) := by
        rw [Option.map_map]
        rfl
      rw [find?, hprefix, if_neg Bool.false_ne_true, Option.map_map, State.leave?,
        if_neg (by simp [State.role]), if_neg (by simp [hcode]), hstep, Option.map_map]
      simp only [Function.comp_def, hmap, byteLength_cons]
      rw [hrest, ih, Option.map_map]
      rfl
    by_cases hc : c = '*'
    · subst hc
      by_cases hslash : t.head? = some '/'
      · obtain ⟨rest, rfl⟩ := List.head?_eq_some_iff.mp hslash
        rfl
      · refine hskip ?_ (leave?_blockCommentStar hslash) rfl
        cases t with
        | nil => rfl
        | cons d t =>
          have hd : '/' ≠ d := fun hd => hslash (by rw [hd]; rfl)
          simp [List.isPrefixOf, hd]
    · have hstep : State.step ⟨.blockComment, []⟩ c = ⟨.blockComment, []⟩ := by
        simp [State.step, hc]
      refine hskip ?_ (by rw [hstep]) (by rw [hstep]; rfl)
      simp [List.isPrefixOf, Ne.symm hc]

end Finding

section Wide

variable {b : Bracket} {c q : Char} {t : Text} {n pos : Nat}

theorem beq_of_wide {d : Char} (hc : 128 ≤ c.toNat) (hd : d.toNat < 128) : (c == d) = false := by
  refine beq_false_of_ne ?_
  rintro rfl
  omega

theorem toNat_lt_of_opensString (h : opensString c = true) : c.toNat < 128 := by
  simp only [opensString, isQuote, isBacktick, Bool.or_eq_true, beq_iff_eq] at h
  rcases h with (rfl | rfl) | h
  · decide
  · decide
  · omega

theorem opensString_of_wide (hc : 128 ≤ c.toNat) : opensString c = false := by
  cases h : opensString c with
  | false => rfl
  | true =>
    have := toNat_lt_of_opensString h
    omega

theorem isIdentifierChar_of_wide (hc : 128 ≤ c.toNat) : isIdentifierChar c = false := by
  have hne : c ≠ '_' ∧ c ≠ '$' :=
    ⟨ne_of_beq_false (beq_of_wide hc (by decide)), ne_of_beq_false (beq_of_wide hc (by decide))⟩
  simp only [isIdentifierChar, isAsciiAlphanumeric, isAsciiLetter, isAsciiDigit, Bool.or_eq_false_iff,
    Bool.and_eq_false_iff, decide_eq_false_iff_not, beq_eq_false_iff_ne]
  exact ⟨⟨⟨⟨by omega, by omega⟩, by omega⟩, hne.1⟩, hne.2⟩

theorem opener_lt (b : Bracket) : b.opener.toNat < 128 := by cases b <;> decide

theorem closer_lt (b : Bracket) : b.closer.toNat < 128 := by cases b <;> decide

theorem closeFrom_skip (b : Bracket) (h : AreWide t pos n) (fuel depth : Nat) :
    closeFrom t b (fuel + n) depth pos = closeFrom t b fuel depth (pos + n) := by
  induction n generalizing pos with
  | zero => rfl
  | succ n ih =>
    obtain ⟨d, hd, hwide⟩ := h.head
    rw [← Nat.add_assoc, closeFrom, if_neg (Nat.not_le.mpr (lt_of_byte?_eq_some hd)),
      byteAt_eq_ok hd, bind_ok, opensString_of_wide hwide, opensLine, opensComment,
      beq_of_wide hwide (by decide), Bool.false_and, Bool.false_and,
      beq_of_wide hwide (opener_lt b), beq_of_wide hwide (closer_lt b)]
    simp only [Bool.false_eq_true, if_false]
    rw [ih h.tail, Nat.add_assoc, Nat.add_comm 1]

theorem stringFrom_skip (hq : opensString q = true) (h : AreWide t pos n) (fuel : Nat) :
    stringFrom t q (fuel + n) pos = stringFrom t q fuel (pos + n) := by
  induction n generalizing pos with
  | zero => rfl
  | succ n ih =>
    obtain ⟨d, hd, hwide⟩ := h.head
    rw [← Nat.add_assoc, stringFrom, if_neg (Nat.not_le.mpr (lt_of_byte?_eq_some hd)),
      byteAt_eq_ok hd, bind_ok, beq_of_wide hwide (by decide), beq_of_wide hwide (by decide),
      beq_of_wide hwide (by decide), beq_of_wide hwide (toNat_lt_of_opensString hq)]
    simp only [Bool.false_and, Bool.false_eq_true, if_false]
    rw [ih h.tail, Nat.add_assoc, Nat.add_comm 1]

end Wide

section Scanning

variable {b : Bracket} {c q : Char} {t u v w : Text} {depth fuel n pos stop : Nat}

/-- On texts of up to `n` bytes brackets close where reading character by character closes them. -/
def ClosesWithin (n : Nat) : Prop :=
  ∀ ⦃t u v : Text⦄ ⦃k f : Nat⦄ (b : Bracket) (depth : Nat), t = u ++ v → k = byteLength u →
    byteLength v ≤ n → byteLength v < f →
    closeFrom t b f (depth + 1) k =
      .ok ((b.closeFrom depth .start v).map fun p => k + byteLength p.1)

/-- On texts of up to `n` bytes strings end where reading character by character ends them. -/
def StringsEndWithin (n : Nat) : Prop :=
  ∀ ⦃t u v : Text⦄ ⦃k f : Nat⦄ ⦃q : Char⦄, opensString q = true → t = u ++ v →
    k = byteLength u → byteLength v ≤ n → byteLength v < f →
    stringFrom t q f k =
      .ok (((State.start.step q).leave? v).map fun p => k + byteLength p.1)

theorem opensLine_eq (hc : c.toNat < 128) (u w : Text) :
    opensLine (u ++ c :: w) (byteLength u) c = (c == '/' && w.head? == some '/') := by
  rw [opensLine, byte?_append_add, byte?_cons_succ hc, byte?_beq_some (by decide)]

theorem opensComment_eq (hc : c.toNat < 128) (u w : Text) :
    opensComment (u ++ c :: w) (byteLength u) c = (c == '/' && w.head? == some '*') := by
  rw [opensComment, byte?_append_add, byte?_cons_succ hc, byte?_beq_some (by decide)]

theorem lineStop?_eq_ok (h : cut t pos stop = .ok (['/', '/'] ++ v)) :
    lineStop? t pos stop =
      .ok ((State.leave? ⟨.lineComment, []⟩ v).map fun p => pos + 2 + byteLength p.1) := by
  have hskip : find? "\n" (['/', '/'] ++ v) = (find? "\n" v).map (2 + ·) := by
    show ((find? "\n" v).map (1 + ·)).map (1 + ·) = _
    rw [Option.map_map]
    exact congrArg (Option.map · _) (funext fun k => (Nat.add_assoc 1 1 k).symm)
  rw [lineStop?, h, bind_ok, hskip, find?_lineFeed, Option.map_map, Option.map_map]
  simp only [Function.comp_def, Nat.add_assoc]
  rfl

theorem commentStop?_eq_ok (h : cut t (pos + 2) stop = .ok v) :
    commentStop? t pos stop =
      .ok ((State.leave? ⟨.blockComment, []⟩ v).map fun p => pos + 2 + byteLength p.1) := by
  have hmap := congrArg (Option.map (pos + 2 + ·)) (find?_commentEnd v)
  rw [Option.map_map, Option.map_map] at hmap
  rw [commentStop?, h, bind_ok]
  exact congrArg Except.ok hmap

theorem map_append_start (hpos : stop = pos + byteLength u) (found : Option (Text × Text)) :
    ((found.map fun (inside, after) => (u ++ inside, after)).map fun p => pos + byteLength p.1) =
      found.map fun p => stop + byteLength p.1 := by
  rw [Option.map_map, hpos]
  simp only [Function.comp_def, byteLength_append, Nat.add_assoc]

theorem ClosesWithin.wide (hclose : ClosesWithin n) (hc : 128 ≤ c.toNat)
    (hn : byteLength (c :: w) ≤ n + 1) (hfuel : byteLength (c :: w) < fuel) (b : Bracket)
    (depth : Nat) (u : Text) :
    closeFrom (u ++ c :: w) b fuel (depth + 1) (byteLength u) =
      .ok ((b.closeFrom depth .start (c :: w)).map fun p => byteLength u + byteLength p.1) := by
  have hslash := beq_of_wide (d := '/') hc (by decide)
  have hpos := c.utf8Size_pos
  rw [byteLength_cons] at hn hfuel
  obtain ⟨fuel, rfl⟩ : ∃ f, fuel = f + c.utf8Size := ⟨fuel - c.utf8Size, by omega⟩
  have hrest := hclose (t := u ++ c :: w) (u := u ++ [c]) (v := w) (f := fuel)
    (k := byteLength u + c.utf8Size) b depth (by simp) (by simp) (by omega) (by omega)
  rw [closeFrom_skip b (areWide_char hc u w), hrest, b.closeFrom_plain depth
    (opensString_of_wide hc) (by rw [hslash]; rfl) (by rw [hslash]; rfl)
    (ne_of_beq_false (beq_of_wide hc (opener_lt b))) (ne_of_beq_false (beq_of_wide hc (closer_lt b))),
    map_append_start rfl]
  simp

theorem closeFrom_eq_none (h : byteLength t ≤ pos) (b : Bracket) (depth : Nat) (hfuel : 0 < fuel) :
    closeFrom t b fuel depth pos = .ok none := by
  obtain ⟨fuel, rfl⟩ : ∃ f, fuel = f + 1 := ⟨fuel - 1, by omega⟩
  rw [closeFrom, if_pos h]

theorem ClosesWithin.after {m r : Text} (hclose : ClosesWithin n) (hn : byteLength r ≤ n)
    (hfuel : byteLength r < fuel) (b : Bracket) (depth : Nat) (ht : t = u ++ (m ++ r))
    (hpos : pos = byteLength u + byteLength m) :
    closeFrom t b fuel (depth + 1) pos =
      .ok (((b.closeFrom depth .start r).map fun (inside, after) =>
        (m ++ inside, after)).map fun p => byteLength u + byteLength p.1) := by
  rw [hclose (u := u ++ m) (v := r) b depth (by rw [ht, List.append_assoc])
    (by rw [hpos, byteLength_append]) hn hfuel, map_append_start hpos]

theorem ClosesWithin.string (hclose : ClosesWithin n) (hstring : StringsEndWithin n)
    (hc : opensString c = true) (hn : byteLength w ≤ n) (hfuel : byteLength w < fuel)
    (b : Bracket) (depth : Nat) (u : Text) :
    closeFrom (u ++ ([c] ++ w)) b (fuel + 1) (depth + 1) (byteLength u) =
      .ok ((b.closeFrom depth .start ([c] ++ w)).map fun p => byteLength u + byteLength p.1) := by
  have hsize := byteLength_singleton (toNat_lt_of_opensString hc)
  have hend := hstring (t := u ++ ([c] ++ w)) (u := u ++ [c]) (v := w) (f := fuel)
    (k := byteLength u + 1) hc (by simp) (by rw [byteLength_append, hsize]) hn hfuel
  rw [List.singleton_append, closeFrom, if_neg (not_byteLength_le u c w),
    byteAt_char (toNat_lt_of_opensString hc), bind_ok, if_pos hc, ← List.singleton_append, hend,
    b.closeFrom_string depth hc w]
  cases hleave : (State.start.step c).leave? w with
  | none => rfl
  | some found =>
    obtain ⟨m, rest⟩ := found
    obtain rfl := State.eq_of_leave? hleave
    rw [byteLength_append] at hn hfuel
    exact hclose.after (m := [c] ++ m) (by omega) (by omega) b depth (by rw [List.append_assoc])
      (by rw [byteLength_append, hsize]; exact Nat.add_assoc _ _ _)

theorem ClosesWithin.lineComment (hclose : ClosesWithin n) (hn : byteLength w ≤ n)
    (hfuel : byteLength w < fuel) (b : Bracket) (depth : Nat) (u : Text) :
    closeFrom (u ++ '/' :: '/' :: w) b (fuel + 1) (depth + 1) (byteLength u) =
      .ok ((b.closeFrom depth .start ('/' :: '/' :: w)).map fun p =>
        byteLength u + byteLength p.1) := by
  have hcut := cutFrom_eq_ok (t := u ++ '/' :: '/' :: w) (u := u) rfl rfl
  have hline : opensLine (u ++ '/' :: '/' :: w) (byteLength u) '/' = true := by
    rw [opensLine_eq (by decide)]
    rfl
  have hmodel := b.closeFrom_comment (s := ⟨.lineComment, []⟩) depth (.inl rfl) rfl w
  rw [List.cons_append, List.cons_append, List.nil_append] at hmodel
  rw [closeFrom, if_neg (not_byteLength_le u _ _), byteAt_char (by decide), bind_ok,
    if_neg (by decide), if_pos hline, lineStop?_eq_ok hcut, bind_ok, hmodel]
  cases hleave : State.leave? ⟨.lineComment, []⟩ w with
  | none => exact closeFrom_eq_none (Nat.le_refl _) b _ (by omega)
  | some found =>
    obtain ⟨m, rest⟩ := found
    obtain rfl := State.eq_of_leave? hleave
    obtain ⟨rest, rfl, -⟩ := exists_of_leave?_lineComment hleave
    rw [byteLength_append, byteLength_cons] at hn hfuel
    have hfeed := b.closeFrom_plain (t := rest) (c := '\n') depth rfl rfl rfl
      (by cases b <;> decide) (by cases b <;> decide)
    have hsize : byteLength (['/', '/'] ++ m ++ ['\n']) = 2 + byteLength m + 1 := by
      rw [byteLength_append, byteLength_append]
      rfl
    rw [Option.bind_some]
    dsimp only
    rw [hfeed]
    have hpos : byteLength u + 2 + byteLength m + 1 =
        byteLength u + byteLength (['/', '/'] ++ m ++ ['\n']) := by omega
    refine (hclose.after (u := u) (m := ['/', '/'] ++ m ++ ['\n']) (r := rest) (by omega)
      (by omega) b depth (by simp) hpos).trans ?_
    simp only [Option.map_map, Function.comp_def, List.append_assoc]

theorem ClosesWithin.blockComment (hclose : ClosesWithin n) (hn : byteLength w ≤ n)
    (hfuel : byteLength w < fuel) (b : Bracket) (depth : Nat) (u : Text) :
    closeFrom (u ++ '/' :: '*' :: w) b (fuel + 1) (depth + 1) (byteLength u) =
      .ok ((b.closeFrom depth .start ('/' :: '*' :: w)).map fun p =>
        byteLength u + byteLength p.1) := by
  have hsize : byteLength (u ++ ['/', '*']) = byteLength u + 2 := byteLength_append u _
  have hcut := cutFrom_eq_ok (t := u ++ '/' :: '*' :: w) (u := u ++ ['/', '*']) (v := w)
    (by simp) rfl
  rw [hsize] at hcut
  have hline : opensLine (u ++ '/' :: '*' :: w) (byteLength u) '/' = false := by
    rw [opensLine_eq (by decide)]
    rfl
  have hcomment : opensComment (u ++ '/' :: '*' :: w) (byteLength u) '/' = true := by
    rw [opensComment_eq (by decide)]
    rfl
  have hmodel := b.closeFrom_comment (s := ⟨.blockComment, []⟩) depth (.inr rfl) rfl w
  rw [List.cons_append, List.cons_append, List.nil_append] at hmodel
  rw [closeFrom, if_neg (not_byteLength_le u _ _), byteAt_char (by decide), bind_ok,
    if_neg (by decide), hline, if_neg Bool.false_ne_true, if_pos hcomment,
    commentStop?_eq_ok hcut, bind_ok, hmodel]
  cases hleave : State.leave? ⟨.blockComment, []⟩ w with
  | none => rfl
  | some found =>
    obtain ⟨m, rest⟩ := found
    obtain rfl := State.eq_of_leave? hleave
    rw [byteLength_append] at hn hfuel
    exact hclose.after (m := ['/', '*'] ++ m) (by omega) (by omega) b depth (by simp)
      (by rw [byteLength_append]; exact Nat.add_assoc _ _ _)

theorem ClosesWithin.ascii (hclose : ClosesWithin n) (hstring : StringsEndWithin n)
    (hc : c.toNat < 128) (hn : byteLength (c :: w) ≤ n + 1) (hfuel : byteLength (c :: w) < fuel)
    (b : Bracket) (depth : Nat) (u : Text) :
    closeFrom (u ++ c :: w) b fuel (depth + 1) (byteLength u) =
      .ok ((b.closeFrom depth .start (c :: w)).map fun p => byteLength u + byteLength p.1) := by
  have hsize := utf8Size_of_lt hc
  obtain ⟨fuel, rfl⟩ : ∃ f, fuel = f + 1 := ⟨fuel - 1, by omega⟩
  rw [byteLength_cons] at hn hfuel
  by_cases hquote : opensString c = true
  · exact hclose.string hstring hquote (by omega) (by omega) b depth u
  rw [Bool.not_eq_true] at hquote
  by_cases hline : c = '/' ∧ w.head? = some '/'
  · obtain ⟨rfl, hw⟩ := hline
    obtain ⟨w, rfl⟩ := List.head?_eq_some_iff.mp hw
    rw [byteLength_cons] at hn hfuel
    exact hclose.lineComment (by omega) (by omega) b depth u
  by_cases hcomment : c = '/' ∧ w.head? = some '*'
  · obtain ⟨rfl, hw⟩ := hcomment
    obtain ⟨w, rfl⟩ := List.head?_eq_some_iff.mp hw
    rw [byteLength_cons] at hn hfuel
    exact hclose.blockComment (by omega) (by omega) b depth u
  have hline : (c == '/' && w.head? == some '/') = false := by simpa using hline
  have hcomment : (c == '/' && w.head? == some '*') = false := by simpa using hcomment
  have hnext : ∀ depth, closeFrom (u ++ c :: w) b fuel (depth + 1) (byteLength u + 1) =
      .ok (((b.closeFrom depth .start w).map fun (inside, after) => ([c] ++ inside, after)).map
        fun p => byteLength u + byteLength p.1) := fun depth =>
    hclose.after (m := [c]) (r := w) (by omega) (by omega) b depth (by simp)
      (by rw [byteLength_singleton hc])
  rw [closeFrom, if_neg (not_byteLength_le u c w), byteAt_char hc, bind_ok, hquote,
    opensLine_eq hc, hline, opensComment_eq hc, hcomment]
  simp only [Bool.false_eq_true, if_false]
  by_cases hopener : c = b.opener
  · rw [hopener] at hnext ⊢
    rw [beq_self_eq_true, if_pos rfl, hnext, b.closeFrom_opener]
  by_cases hcloser : c = b.closer
  · rw [beq_false_of_ne hopener, hcloser, beq_self_eq_true, minus_of_le (Nat.le_add_left 1 depth)]
    rw [hcloser] at hnext
    cases depth with
    | zero => rw [b.closeFrom_closer_zero]; rfl
    | succ depth => rw [b.closeFrom_closer_succ, ← hnext]; rfl
  · rw [beq_false_of_ne hopener, beq_false_of_ne hcloser,
      b.closeFrom_plain depth hquote hline hcomment hopener hcloser, ← hnext]
    rfl

theorem closesWithin_succ (hclose : ClosesWithin n) (hstring : StringsEndWithin n) :
    ClosesWithin (n + 1) := by
  rintro t u v pos fuel b depth rfl rfl hn hfuel
  cases v with
  | nil => exact closeFrom_eq_none (by simp) b _ (by omega)
  | cons c w =>
    by_cases hc : c.toNat < 128
    · exact hclose.ascii hstring hc hn hfuel b depth u
    · exact hclose.wide (Nat.le_of_not_lt hc) hn hfuel b depth u

theorem stringFrom_eq_none (h : byteLength t ≤ pos) (q : Char) (hfuel : 0 < fuel) :
    stringFrom t q fuel pos = .ok none := by
  obtain ⟨fuel, rfl⟩ : ∃ f, fuel = f + 1 := ⟨fuel - 1, by omega⟩
  rw [stringFrom, if_pos h]

theorem StringsEndWithin.after {m r : Text} (hstring : StringsEndWithin n)
    (hq : opensString q = true) (hn : byteLength r ≤ n) (hfuel : byteLength r < fuel)
    (ht : t = u ++ (m ++ r)) (hpos : pos = byteLength u + byteLength m) :
    stringFrom t q fuel pos =
      .ok ((((State.start.step q).leave? r).map fun (inside, after) =>
        (m ++ inside, after)).map fun p => byteLength u + byteLength p.1) := by
  rw [hstring (u := u ++ m) (v := r) hq (by rw [ht, List.append_assoc])
    (by rw [hpos, byteLength_append]) hn hfuel, map_append_start hpos]

theorem StringsEndWithin.escape (hstring : StringsEndWithin n) (hq : opensString q = true)
    (hn : byteLength w ≤ n) (hfuel : byteLength w < fuel) (u : Text) :
    stringFrom (u ++ '\\' :: w) q (fuel + 1) (byteLength u) =
      .ok (((State.start.step q).leave? ('\\' :: w)).map fun p =>
        byteLength u + byteLength p.1) := by
  rw [stringFrom, if_neg (not_byteLength_le u _ _), byteAt_char (by decide), bind_ok,
    if_pos (beq_self_eq_true '\\')]
  cases w with
  | nil =>
    rw [(State.leave?_escape (d := q) (w := []) hq).1]
    refine stringFrom_eq_none ?_ q (by omega)
    rw [byteLength_append, byteLength_cons, byteLength_nil]
    show _ + 1 ≤ _ + 2
    omega
  | cons d w =>
    have hpos := d.utf8Size_pos
    rw [byteLength_cons] at hn hfuel
    obtain ⟨fuel, rfl⟩ : ∃ f, fuel = f + (d.utf8Size - 1) :=
      ⟨fuel - (d.utf8Size - 1), by omega⟩
    have hwide : AreWide (u ++ '\\' :: d :: w) (byteLength u + 2) (d.utf8Size - 1) := by
      by_cases hd : d.toNat < 128
      · rw [utf8Size_of_lt hd]
        exact fun i hi => absurd hi (Nat.not_lt_zero i)
      · have hchar := areWide_char (Nat.le_of_not_lt hd) (u ++ ['\\']) w
        rw [List.append_assoc, byteLength_append] at hchar
        obtain ⟨k, hk⟩ : ∃ k, d.utf8Size = k + 1 := ⟨d.utf8Size - 1, by omega⟩
        rw [hk] at hchar ⊢
        exact hchar.tail
    rw [(State.leave?_escape hq).2, stringFrom_skip hq hwide]
    refine hstring.after (m := ['\\', d]) hq (by omega) (by omega) (by simp) ?_
    show _ = byteLength u + (1 + (d.utf8Size + 0))
    omega

theorem ClosesWithin.enclosed (hclose : ClosesWithin n) (b : Bracket) (hn : byteLength w ≤ n)
    (hfuel : byteLength w < fuel) (ht : t = u ++ b.opener :: w) (hpos : pos = byteLength u) :
    closeFrom t b (fuel + 1) 0 pos =
      .ok ((b.enclosed? w).map fun p => pos + 1 + byteLength p.1) := by
  subst ht hpos
  have hplain : opensString b.opener = false ∧ (b.opener == '/') = false := by
    cases b <;> exact ⟨rfl, rfl⟩
  rw [closeFrom, if_neg (not_byteLength_le u _ _), byteAt_char (opener_lt b), bind_ok, hplain.1,
    opensLine, opensComment, hplain.2, beq_self_eq_true]
  exact hclose (u := u ++ [b.opener]) (v := w) b 0 (by simp)
    (by rw [byteLength_append, byteLength_singleton (opener_lt b)]) hn hfuel

theorem StringsEndWithin.expression (hclose : ClosesWithin n) (hstring : StringsEndWithin n)
    (hq : isBacktick q = true) (hn : byteLength w + 1 ≤ n) (hfuel : byteLength w + 1 < fuel)
    (u : Text) :
    stringFrom (u ++ '$' :: '{' :: w) q (fuel + 1) (byteLength u) =
      .ok (((State.start.step q).leave? ('$' :: '{' :: w)).map fun p =>
        byteLength u + byteLength p.1) := by
  have hnext : (byte? (u ++ '$' :: '{' :: w) (byteLength u + 1) == some '{') = true := by
    rw [byte?_append_add, byte?_cons_succ (by decide), byte?_beq_some (by decide)]
    rfl
  obtain ⟨fuel, rfl⟩ : ∃ f, fuel = f + 1 := ⟨fuel - 1, by omega⟩
  have hbody : closeFrom (u ++ '$' :: '{' :: w) .brace (fuel + 1) 0 (byteLength u + 1) = _ :=
    hclose.enclosed (u := u ++ ['$']) (w := w) .brace (by omega) (by omega) (by simp; rfl)
      (by rw [byteLength_append]; rfl)
  rw [stringFrom, if_neg (not_byteLength_le u _ _), byteAt_char (by decide), bind_ok,
    if_neg (by decide), hnext, hq, if_pos (by decide), hbody, bind_ok,
    State.leave?_expression hq]
  cases hexpression : Bracket.brace.enclosed? w with
  | none => rfl
  | some found =>
    obtain ⟨expression, rest⟩ := found
    obtain rfl := Bracket.eq_of_closeFrom _ _ _ _ hexpression
    rw [byteLength_append, byteLength_cons] at hn hfuel
    have hsize : byteLength (['$', '{'] ++ expression ++ ['}']) = 2 + byteLength expression + 1 := by
      rw [byteLength_append, byteLength_append]
      rfl
    have hpos : byteLength u + 1 + 1 + byteLength expression + 1 =
        byteLength u + byteLength (['$', '{'] ++ expression ++ ['}']) := by omega
    refine (hstring.after (u := u) (m := ['$', '{'] ++ expression ++ ['}']) (r := rest)
      (by rw [opensString, hq, Bool.or_true]) (by omega) (by omega) (by simp; rfl) hpos).trans ?_
    simp only [Option.bind_some, Option.map_map, Function.comp_def, List.append_assoc]
    rfl

theorem StringsEndWithin.ascii (hclose : ClosesWithin n) (hstring : StringsEndWithin n)
    (hq : opensString q = true) (hc : c.toNat < 128) (hn : byteLength (c :: w) ≤ n + 1)
    (hfuel : byteLength (c :: w) < fuel) (u : Text) :
    stringFrom (u ++ c :: w) q fuel (byteLength u) =
      .ok (((State.start.step q).leave? (c :: w)).map fun p =>
        byteLength u + byteLength p.1) := by
  have hsize := utf8Size_of_lt hc
  obtain ⟨fuel, rfl⟩ : ∃ f, fuel = f + 1 := ⟨fuel - 1, by omega⟩
  rw [byteLength_cons] at hn hfuel
  by_cases hescape : c = '\\'
  · subst hescape
    exact hstring.escape hq (by omega) (by omega) u
  by_cases hexpression : (c == '$' && isBacktick q && w.head? == some '{') = true
  · rw [Bool.and_eq_true, Bool.and_eq_true, beq_iff_eq, beq_iff_eq] at hexpression
    obtain ⟨⟨rfl, hbacktick⟩, hw⟩ := hexpression
    obtain ⟨w, rfl⟩ := List.head?_eq_some_iff.mp hw
    have hbrace : byteLength ('{' :: w) = byteLength w + 1 := Nat.add_comm _ _
    exact hstring.expression hclose hbacktick (by omega) (by omega) u
  rw [Bool.not_eq_true] at hexpression
  have hnext : (byte? (u ++ c :: w) (byteLength u + 1) == some '{') = (w.head? == some '{') := by
    rw [byte?_append_add, byte?_cons_succ hc, byte?_beq_some (by decide)]
  rw [stringFrom, if_neg (not_byteLength_le u _ _), byteAt_char hc, bind_ok,
    beq_false_of_ne hescape, hnext, hexpression]
  simp only [Bool.false_eq_true, if_false]
  by_cases hbreak : (c == '\n' && !isBacktick q) = true
  · rw [if_pos hbreak]
    rw [Bool.and_eq_true, beq_iff_eq, Bool.not_eq_true'] at hbreak
    obtain ⟨rfl, hbacktick⟩ := hbreak
    rw [State.leave?_lineFeed (by simpa [opensString, hbacktick] using hq)]
    rfl
  rw [if_neg hbreak]
  rw [Bool.not_eq_true] at hbreak
  by_cases hquote : c = q
  · subst hquote
    rw [beq_self_eq_true, if_pos rfl, State.leave?_quote hq, Option.map_some,
      byteLength_singleton hc]
    rfl
  · rw [beq_false_of_ne hquote, if_neg Bool.false_ne_true,
      State.leave?_plain hq hescape hexpression hbreak hquote]
    exact hstring.after (m := [c]) (r := w) hq (by omega) (by omega) (by simp)
      (by rw [byteLength_singleton hc])

theorem StringsEndWithin.wide (hstring : StringsEndWithin n) (hq : opensString q = true)
    (hc : 128 ≤ c.toNat) (hn : byteLength (c :: w) ≤ n + 1) (hfuel : byteLength (c :: w) < fuel)
    (u : Text) :
    stringFrom (u ++ c :: w) q fuel (byteLength u) =
      .ok (((State.start.step q).leave? (c :: w)).map fun p =>
        byteLength u + byteLength p.1) := by
  have hpos := c.utf8Size_pos
  rw [byteLength_cons] at hn hfuel
  obtain ⟨fuel, rfl⟩ : ∃ f, fuel = f + c.utf8Size := ⟨fuel - c.utf8Size, by omega⟩
  rw [stringFrom_skip hq (areWide_char hc u w), State.leave?_plain hq
    (ne_of_beq_false (beq_of_wide hc (by decide))) (by rw [beq_of_wide hc (by decide)]; rfl)
    (by rw [beq_of_wide hc (by decide)]; rfl)
    (ne_of_beq_false (beq_of_wide hc (toNat_lt_of_opensString hq)))]
  exact hstring.after (m := [c]) (r := w) hq (by omega) (by omega) (by simp) (by simp)

theorem stringsEndWithin_succ (hclose : ClosesWithin n) (hstring : StringsEndWithin n) :
    StringsEndWithin (n + 1) := by
  rintro t u v pos fuel q hq rfl rfl hn hfuel
  cases v with
  | nil => exact stringFrom_eq_none (by simp) q (by omega)
  | cons c w =>
    by_cases hc : c.toNat < 128
    · exact hstring.ascii hclose hq hc hn hfuel u
    · exact hstring.wide hq (Nat.le_of_not_lt hc) hn hfuel u

/-- Reading byte by byte with jumps ends brackets and strings where reading character by character
does. Each recursive call has less text before it. -/
theorem scans_within (n : Nat) : ClosesWithin n ∧ StringsEndWithin n := by
  induction n with
  | zero =>
    constructor
    · rintro t u v pos fuel b depth rfl rfl hn hfuel
      rw [eq_nil_of_byteLength_le hn]
      exact closeFrom_eq_none (by simp) b _ (by omega)
    · rintro t u v pos fuel q hq rfl rfl hn hfuel
      rw [eq_nil_of_byteLength_le hn]
      exact stringFrom_eq_none (by simp) q (by omega)
  | succ n ih => exact ⟨closesWithin_succ ih.1 ih.2, stringsEndWithin_succ ih.1 ih.2⟩

theorem stringStop?_eq_ok (hq : opensString q = true) (ht : t = u ++ q :: w)
    (hpos : pos = byteLength u) :
    stringStop? t q pos =
      .ok (((State.start.step q).leave? w).map fun p => pos + 1 + byteLength p.1) := by
  have hsize := utf8Size_of_lt (toNat_lt_of_opensString hq)
  refine (scans_within (byteLength w)).2 (u := u ++ [q]) hq (by simp [ht]) ?_ (Nat.le_refl _) ?_
  · rw [hpos, byteLength_append, byteLength_singleton (toNat_lt_of_opensString hq)]
  · rw [ht, byteLength_append, byteLength_cons]
    omega

theorem matchingDelimiter_eq_ok (b : Bracket) (ht : t = u ++ b.opener :: w)
    (hpos : pos = byteLength u) :
    matchingDelimiter t pos = .ok ((b.enclosed? w).map fun p => pos + 1 + byteLength p.1) := by
  have hbyte : byte? t pos = some b.opener := by
    rw [ht, hpos, byte?_append, byte?_cons (opener_lt b)]
  have hsize := utf8Size_of_lt (opener_lt b)
  rw [matchingDelimiter, hbyte, Option.bind_some, show Bracket.ofOpener? b.opener = some b by
    cases b <;> rfl]
  refine (scans_within (byteLength w)).1.enclosed b (Nat.le_refl _) ?_ ht hpos
  rw [ht, byteLength_append, byteLength_cons]
  omega

theorem cut_enclosed {inside after : Text} (ht : t = u ++ b.opener :: w) (hpos : pos = byteLength u)
    (h : b.enclosed? w = some (inside, after)) :
    cut t (pos + 1) (pos + 1 + byteLength inside) = .ok inside := by
  refine cut_eq_ok (u := u ++ [b.opener]) (w := b.closer :: after) ?_ ?_ rfl
  · rw [ht, Bracket.eq_of_closeFrom _ _ _ _ h]
    simp
  · rw [hpos, byteLength_append, byteLength_singleton (opener_lt b)]

end Scanning

section Ranges

variable {c d : Char} {t u v w : Text} {s : State} {rcs : List (Role × Char)} {n fuel pos k : Nat}

theorem literalRangesFrom_skip (h : AreWide t pos n) (fuel : Nat) :
    literalRangesFrom t (fuel + n) pos = literalRangesFrom t fuel (pos + n) := by
  induction n generalizing pos with
  | zero => rfl
  | succ n ih =>
    obtain ⟨d, hd, hwide⟩ := h.head
    rw [← Nat.add_assoc, literalRangesFrom, if_neg (Nat.not_le.mpr (lt_of_byte?_eq_some hd)),
      byteAt_eq_ok hd, bind_ok, opensString_of_wide hwide, opensLine, opensComment,
      beq_of_wide hwide (by decide), Bool.false_and, Bool.false_and]
    simp only [Bool.false_eq_true, if_false]
    show literalRangesFrom t (fuel + n) (pos + 1) = _
    rw [ih h.tail, Nat.add_assoc, Nat.add_comm 1]

theorem literalRangesFrom_eq_nil (h : byteLength t ≤ pos) (hfuel : 0 < fuel) :
    literalRangesFrom t fuel pos = .ok [] := by
  obtain ⟨fuel, rfl⟩ : ∃ f, fuel = f + 1 := ⟨fuel - 1, by omega⟩
  rw [literalRangesFrom, if_pos h]

/-- On texts of up to `n` bytes the ranges are those of reading character by character. -/
def RangesWithin (n : Nat) : Prop :=
  ∀ ⦃t u v : Text⦄ ⦃pos fuel : Nat⦄, t = u ++ v → pos = byteLength u → byteLength v ≤ n →
    byteLength v < fuel →
    literalRangesFrom t fuel pos = .ok (literalSpans pos (chunk ((roles .start v).zip v)))

theorem RangesWithin.after (hranges : RangesWithin n) (hs : s.isCode = false) (o : Text)
    (h : roles .start (c :: (o ++ w)) = .opens :: ((o.map fun _ => .inside) ++ roles s w))
    (hn : byteLength (o ++ w) ≤ n) (hfuel : byteLength (o ++ w) < fuel)
    (ht : t = u ++ c :: (o ++ w)) (hpos : pos = byteLength u) (hk : k = pos + byteLength (c :: o)) :
    (literalRangesFrom t fuel
      (max (((s.leave? w).map fun p => k + byteLength p.1).getD (byteLength t)) (pos + 1))).map
        (⟨pos, ((s.leave? w).map fun p => k + byteLength p.1).getD (byteLength t)⟩ :: ·) =
      .ok (literalSpans pos (chunk ((roles .start (c :: (o ++ w))).zip (c :: (o ++ w))))) := by
  have hsize := c.utf8Size_pos
  rw [literalSpans_opening hs o h]
  cases hleave : s.leave? w with
  | none =>
    have hlen : byteLength t = pos + byteLength (c :: (o ++ w)) := by
      rw [ht, hpos, byteLength_append]
    rw [Option.map_none, Option.getD_none, literalRangesFrom_eq_nil (by omega) (by omega), hlen]
    rfl
  | some found =>
    obtain ⟨m, rest⟩ := found
    obtain rfl := State.eq_of_leave? hleave
    have hstop : k + byteLength m = pos + byteLength (c :: (o ++ m)) := by
      rw [hk, Nat.add_assoc, ← byteLength_append, List.cons_append]
    have hmax : max (pos + byteLength (c :: (o ++ m))) (pos + 1) =
        pos + byteLength (c :: (o ++ m)) := by
      rw [byteLength_cons]
      omega
    rw [byteLength_append, byteLength_append] at hn hfuel
    rw [Option.map_some, Option.getD_some, hstop, hmax,
      hranges (u := u ++ c :: (o ++ m)) (v := rest) (by simp [ht])
        (by rw [hpos, byteLength_append]) (by omega) (by omega)]
    rfl

theorem RangesWithin.string (hranges : RangesWithin n) (hc : opensString c = true)
    (hn : byteLength w ≤ n) (hfuel : byteLength w < fuel) (u : Text) :
    literalRangesFrom (u ++ c :: w) (fuel + 1) (byteLength u) =
      .ok (literalSpans (byteLength u) (chunk ((roles .start (c :: w)).zip (c :: w)))) := by
  rw [literalRangesFrom, if_neg (not_byteLength_le u c w),
    byteAt_char (toNat_lt_of_opensString hc), bind_ok, if_pos hc, stringStop?_eq_ok hc rfl rfl]
  exact hranges.after (isCode_step_of_quote hc) [] (roles_quote hc w) hn hfuel rfl rfl
    (by rw [byteLength_singleton (toNat_lt_of_opensString hc)])

theorem RangesWithin.lineComment (hranges : RangesWithin n) (hn : byteLength w + 1 ≤ n)
    (hfuel : byteLength w + 1 < fuel) (u : Text) :
    literalRangesFrom (u ++ '/' :: '/' :: w) (fuel + 1) (byteLength u) =
      .ok (literalSpans (byteLength u)
        (chunk ((roles .start ('/' :: '/' :: w)).zip ('/' :: '/' :: w)))) := by
  have hcut := cutFrom_eq_ok (t := u ++ '/' :: '/' :: w) (u := u) rfl rfl
  have hline : opensLine (u ++ '/' :: '/' :: w) (byteLength u) '/' = true := by
    rw [opensLine_eq (by decide)]
    rfl
  have hsize : byteLength (['/'] ++ w) = byteLength w + 1 := Nat.add_comm _ _
  rw [literalRangesFrom, if_neg (not_byteLength_le u _ _), byteAt_char (by decide), bind_ok,
    if_neg (by decide), if_pos hline, lineStop?_eq_ok hcut]
  exact hranges.after (s := ⟨.lineComment, []⟩) rfl ['/'] rfl (by omega) (by omega) rfl rfl rfl

theorem RangesWithin.blockComment (hranges : RangesWithin n) (hn : byteLength w + 1 ≤ n)
    (hfuel : byteLength w + 1 < fuel) (u : Text) :
    literalRangesFrom (u ++ '/' :: '*' :: w) (fuel + 1) (byteLength u) =
      .ok (literalSpans (byteLength u)
        (chunk ((roles .start ('/' :: '*' :: w)).zip ('/' :: '*' :: w)))) := by
  have hstart : byteLength (u ++ ['/', '*']) = byteLength u + 2 := byteLength_append u _
  have hcut := cutFrom_eq_ok (t := u ++ '/' :: '*' :: w) (u := u ++ ['/', '*']) (v := w)
    (by simp) rfl
  rw [hstart] at hcut
  have hline : opensLine (u ++ '/' :: '*' :: w) (byteLength u) '/' = false := by
    rw [opensLine_eq (by decide)]
    rfl
  have hcomment : opensComment (u ++ '/' :: '*' :: w) (byteLength u) '/' = true := by
    rw [opensComment_eq (by decide)]
    rfl
  have hsize : byteLength (['*'] ++ w) = byteLength w + 1 := Nat.add_comm _ _
  rw [literalRangesFrom, if_neg (not_byteLength_le u _ _), byteAt_char (by decide), bind_ok,
    if_neg (by decide), hline, if_neg Bool.false_ne_true, if_pos hcomment, commentStop?_eq_ok hcut]
  exact hranges.after (s := ⟨.blockComment, []⟩) rfl ['*'] rfl (by omega) (by omega) rfl rfl rfl

theorem RangesWithin.code (hranges : RangesWithin n) (hstring : opensString c = false)
    (hline : (c == '/' && w.head? == some '/') = false)
    (hcomment : (c == '/' && w.head? == some '*') = false) (hn : byteLength w ≤ n)
    (hfuel : byteLength w < fuel) (u : Text) :
    literalRangesFrom (u ++ c :: w) fuel (byteLength u + c.utf8Size) =
      .ok (literalSpans (byteLength u) (chunk ((roles .start (c :: w)).zip (c :: w)))) := by
  have hopens : opensLiteral (c :: w) = false := by
    rw [opensString] at hstring
    rw [opensLiteral, hstring, Bool.false_or, Bool.and_or_distrib_left, hline, hcomment]
    rfl
  rw [roles_of_not_opensLiteral hopens, List.zip_cons_cons,
    literalSpans_chunk_code (head?_zip_roles_start w)]
  exact hranges (u := u ++ [c]) (by simp) (by simp) hn hfuel

theorem rangesWithin_succ (hranges : RangesWithin n) : RangesWithin (n + 1) := by
  rintro t u v pos fuel rfl rfl hn hfuel
  cases v with
  | nil => exact literalRangesFrom_eq_nil (by simp) (by omega)
  | cons c w =>
    have hpos := c.utf8Size_pos
    rw [byteLength_cons] at hn hfuel
    by_cases hc : c.toNat < 128
    · obtain ⟨fuel, rfl⟩ : ∃ f, fuel = f + 1 := ⟨fuel - 1, by omega⟩
      by_cases hstring : opensString c = true
      · exact hranges.string hstring (by omega) (by omega) u
      rw [Bool.not_eq_true] at hstring
      by_cases hline : c = '/' ∧ w.head? = some '/'
      · obtain ⟨rfl, hw⟩ := hline
        obtain ⟨w, rfl⟩ := List.head?_eq_some_iff.mp hw
        have hslash : byteLength ('/' :: w) = byteLength w + 1 := Nat.add_comm _ _
        exact hranges.lineComment (by omega) (by omega) u
      by_cases hcomment : c = '/' ∧ w.head? = some '*'
      · obtain ⟨rfl, hw⟩ := hcomment
        obtain ⟨w, rfl⟩ := List.head?_eq_some_iff.mp hw
        have hstar : byteLength ('*' :: w) = byteLength w + 1 := Nat.add_comm _ _
        exact hranges.blockComment (by omega) (by omega) u
      have hline : (c == '/' && w.head? == some '/') = false := by simpa using hline
      have hcomment : (c == '/' && w.head? == some '*') = false := by simpa using hcomment
      rw [literalRangesFrom, if_neg (not_byteLength_le u c w), byteAt_char hc, bind_ok, hstring,
        opensLine_eq hc, hline, opensComment_eq hc, hcomment]
      simp only [Bool.false_eq_true, if_false]
      have hcode := hranges.code hstring hline hcomment (by omega) (by omega : byteLength w < fuel) u
      rw [utf8Size_of_lt hc] at hcode
      rw [← hcode]
      rfl
    · have hwide := Nat.le_of_not_lt hc
      obtain ⟨fuel, rfl⟩ : ∃ f, fuel = f + c.utf8Size := ⟨fuel - c.utf8Size, by omega⟩
      rw [literalRangesFrom_skip (areWide_char hwide u w)]
      exact hranges.code (opensString_of_wide hwide) (by rw [beq_of_wide hwide (by decide)]; rfl)
        (by rw [beq_of_wide hwide (by decide)]; rfl) (by omega) (by omega) u

theorem rangesWithin (n : Nat) : RangesWithin n := by
  induction n with
  | zero =>
    rintro t u v pos fuel rfl rfl hn hfuel
    rw [eq_nil_of_byteLength_le hn]
    exact literalRangesFrom_eq_nil (by simp) (by omega)
  | succ n ih => exact rangesWithin_succ ih

theorem literalRanges_eq_ok (t : Text) : literalRanges t = .ok (Script.literalRanges t) :=
  rangesWithin (byteLength t) (u := []) rfl rfl (Nat.le_refl _) (Nat.lt_succ_self _)

end Ranges

end CanvasPage.Checked
