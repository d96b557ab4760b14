import CanvasPage.Proofs.Checked.Statement
import CanvasPage.Proofs.Pattern.Capture

namespace CanvasPage.Checked

open Script Text Pattern

variable {b : Bracket} {c d : Char} {t w m r : Text} {pos stop fuel k : Nat}

theorem span_eq_ok {start stop : Nat} (hle : start ≤ stop) (hlt : stop < UInt32.size) :
    span start stop = .ok ⟨start, stop⟩ := by
  rw [span, Nat.mod_eq_of_lt hlt, Nat.mod_eq_of_lt (Nat.lt_of_le_of_lt hle hlt), if_pos hle]

theorem group_eq_ok {pattern : Pattern} {o : Occurrence} {cursor : Cursor} {i : Nat}
    (hp : pattern.Captures i) (h : pattern.at? cursor = some o) : group o i = .ok (o.groupText i) := by
  obtain ⟨g, hg⟩ := exists_group?_of_at? hp h
  rw [group, hg, Occurrence.groupText, hg]
  rfl

theorem exists_opening_of_atStart? {first : Pattern} {o : Occurrence}
    (hat : (first ++ literal [b.opener]).atStart? w = some o) :
    ∃ u, w = u ++ b.opener :: o.stop.after ∧ o.stop.offset = byteLength u + 1 := by
  obtain ⟨u, hw, hbefore⟩ := exists_last_of_at? hat
  refine ⟨u, hw, ?_⟩
  rw [Cursor.offset, hbefore, byteLength_cons, utf8Size_of_lt (opener_lt b), byteLength_append,
    byteLength_reverse]
  exact Nat.add_comm _ _

theorem Stands.opening {first : Pattern} {o : Occurrence} (h : Stands t pos stop w)
    (hat : (first ++ literal [b.opener]).atStart? w = some o) :
    ∃ u, w = u ++ b.opener :: o.stop.after ∧ o.stop.offset = byteLength u + 1 ∧
      minus (pos + o.stop.offset) 1 = .ok (pos + byteLength u) ∧
        Stands t (pos + byteLength u) stop (b.opener :: o.stop.after) := by
  obtain ⟨u, hw, hoffset⟩ := exists_opening_of_atStart? hat
  refine ⟨u, hw, hoffset, ?_, (hw ▸ h).skip⟩
  rw [hoffset, minus_of_le (by omega), ← Nat.add_assoc, Nat.add_sub_cancel]

theorem Stands.enclosed {i a : Text} (h : Stands t pos stop (b.opener :: r))
    (hr : b.enclosed? r = some (i, a)) :
    Checked.cut t (pos + 1) (pos + 1 + byteLength i) = .ok i ∧
      Stands t (pos + 1 + byteLength i + 1) stop a := by
  have hinside : Stands t (pos + 1) stop (i ++ b.closer :: a) := by
    have hskip := h.skip (m := [b.opener])
    rwa [byteLength_singleton (opener_lt b), Bracket.eq_of_closeFrom _ _ _ _ hr] at hskip
  have hafter := hinside.skip.skip (m := [b.closer]) (r := a)
  rw [byteLength_singleton (closer_lt b)] at hafter
  exact ⟨hinside.cut, hafter⟩

theorem captures_methodHeader : Member.methodHeader.Captures 1 := by
  simp [Member.methodHeader, Member.modifiers]

theorem exists_read {header brace : Occurrence} {params afterParams body rest : Text}
    (hat : Member.methodHeader.atStart? w = some header)
    (hparams : Bracket.paren.enclosed? header.stop.after = some (params, afterParams))
    (hbrace : Member.bodyHeader.atStart? afterParams = some brace)
    (hbody : Bracket.brace.enclosed? brace.stop.after = some (body, rest)) :
    ∃ read, read ≠ [] ∧ w = read ++ rest := by
  obtain ⟨u, hw, -⟩ := exists_last_of_at? hat
  obtain ⟨v, hv, -⟩ := exists_last_of_at? hbrace
  have hw : w = u ++ '(' :: header.stop.after := hw
  have hv : afterParams = v ++ '\x7b' :: brace.stop.after := hv
  refine ⟨u ++ '(' :: (params ++ ')' :: (v ++ '\x7b' :: (body ++ ['\x7d']))), by simp, ?_⟩
  rw [hw, Bracket.eq_of_closeFrom _ _ _ _ hparams, hv, Bracket.eq_of_closeFrom _ _ _ _ hbody]
  simp [Bracket.closer]

theorem exists_read_of_readMethod? {method : Method}
    (h : Member.readMethod? pos w = some (method, k)) :
    ∃ read rest, w = read ++ rest ∧ read ≠ [] ∧ k = read.length := by
  simp only [Member.readMethod?, Option.bind_eq_bind, Option.bind_eq_some_iff] at h
  obtain ⟨header, hat, name, -, h⟩ := h
  split at h
  · cases h
  · simp only [Option.bind_eq_some_iff] at h
    obtain ⟨⟨params, afterParams⟩, hparams, brace, hbrace, ⟨body, rest⟩, hbody, h⟩ := h
    obtain ⟨read, hne, hw⟩ := exists_read hat hparams hbrace hbody
    obtain ⟨-, rfl⟩ := Prod.mk.inj (Option.some.inj h)
    exact ⟨read, rest, hw, hne, by rw [hw, List.length_append, Nat.add_sub_cancel]⟩

theorem methodAt_eq_ok (h : Stands t pos stop w) (hsize : byteLength t < UInt32.size) :
    methodAt t stop pos =
      .ok ((Member.readMethod? pos w).map fun (m, width) => (m, pos + byteLength (w.take width))) := by
  rw [methodAt, h.cut_stop, bind_ok, Member.readMethod?]
  cases hat : Member.methodHeader.atStart? w with
  | none => rfl
  | some header =>
  cases hname : header.group? 2 with
  | none => simp only [Option.bind_eq_bind, Option.bind_some, hname]; rfl
  | some name =>
  simp only [Option.bind_eq_bind, Option.bind_some, hname]
  split
  · rfl
  obtain ⟨u, hw, hheader, hminus, hparen⟩ := h.opening (b := .paren) hat
  rw [hminus, bind_ok, hparen.matchingBefore, bind_ok]
  cases hparams : Bracket.paren.enclosed? header.stop.after with
  | none => rfl
  | some found =>
  obtain ⟨params, afterParams⟩ := found
  obtain ⟨hcutParams, hafter⟩ := hparen.enclosed hparams
  simp only [Option.map_some, Option.bind_some]
  rw [hafter.cut_stop, bind_ok]
  cases hbrace : Member.bodyHeader.atStart? afterParams with
  | none => rfl
  | some brace =>
  obtain ⟨v, hv, -, hminusBrace, hopen⟩ := hafter.opening (b := .brace) hbrace
  simp only [Option.bind_some]
  rw [hminusBrace, bind_ok, hopen.matchingBefore, bind_ok]
  cases hbody : Bracket.brace.enclosed? brace.stop.after with
  | none => rfl
  | some found =>
  obtain ⟨body, rest⟩ := found
  obtain ⟨hcutBody, hrest⟩ := hopen.enclosed hbody
  simp only [Option.map_some, Option.bind_some]
  rw [group_eq_ok captures_methodHeader hat, bind_ok, hcutParams, bind_ok, hcutBody, bind_ok]
  obtain ⟨read, -, hread⟩ := exists_read hat hparams hbrace hbody
  have hend := (hread ▸ h).eq_add hrest
  have hwidth : w.take (w.length - rest.length) = read := by
    rw [hread, List.length_append, Nat.add_sub_cancel, List.take_left]
  have hstart : name.start.offset ≤ header.stop.offset :=
    byteLength_le_of_suffix (holds_of_at? hat hname).2
  have hspan : span (pos + name.start.offset) (pos + byteLength read) =
      .ok ⟨pos + name.start.offset, pos + byteLength read⟩ :=
    span_eq_ok (by omega) (by have := hrest.le; have := h.stop_lt; omega)
  rw [hend, hspan, bind_ok, ← hwidth]
  rfl

theorem captures_initializedProperty :
    Member.initializedProperty.Captures 1 ∧ Member.initializedProperty.Captures 2 ∧
      Member.initializedProperty.Captures 3 := by
  simp [Member.initializedProperty, Member.modifiers, Member.memberName]

theorem propertyOf_eq_ok (span : Span) (statement : Text) :
    propertyOf span statement = .ok (Member.readProperty? span statement) := by
  obtain ⟨h₁, h₂, h₃⟩ := captures_initializedProperty
  rw [propertyOf, Member.readProperty?]
  cases hat : Member.initializedProperty.atStart? (trim (dropEndWhile (· == ';') (trim statement))) with
  | none => rfl
  | some o =>
    dsimp only
    rw [group_eq_ok h₃ hat, bind_ok, group_eq_ok h₂ hat, group_eq_ok h₁ hat, Option.bind_eq_bind,
      Option.bind_some]
    split <;> rfl

theorem membersFrom_of_le (h : stop ≤ pos) (hfuel : 0 < fuel) :
    membersFrom t stop fuel pos = .ok [] := by
  obtain ⟨fuel, rfl⟩ : ∃ f, fuel = f + 1 := ⟨fuel - 1, by omega⟩
  rw [membersFrom, if_pos h]

theorem propertyAt_eq_ok (h : Stands t pos stop (m ++ r)) (hsize : byteLength t < UInt32.size)
    (hwidth : Member.statementWidth 0 [] none (m ++ r) = m.length) :
    propertyAt t stop pos =
      .ok (Member.readProperty? ⟨pos, pos + byteLength m⟩ m, pos + byteLength m) := by
  have hle := h.skip.le
  have hlt := h.stop_lt
  have hstop := h.stop_eq
  have hspan := span_eq_ok (Nat.le_add_right pos (byteLength m)) (by omega)
  rw [propertyAt, statementStop_eq_ok h (by omega), bind_ok, hwidth, List.take_left, h.cut, bind_ok,
    hspan, bind_ok, propertyOf_eq_ok, bind_ok]
  rfl

theorem exists_after_statement (h : Stands t pos stop (m ++ r)) (hw : c :: w = m ++ r)
    (hk : Member.triviaWidth? (m ++ r) = none) (hmethod : Member.readMethod? pos (m ++ r) = none)
    (hwidth : Member.statementWidth 0 [] none (m ++ r) = m.length)
    (hend : ∀ d ∈ r.head?, d = ';' ∨ d = '\n') (hfuel : byteLength (m ++ r) ≤ fuel)
    (ih : ∀ ⦃w : Text⦄ ⦃pos : Nat⦄, Stands t pos stop w → byteLength w < fuel →
      membersFrom t stop fuel pos = .ok (Member.scanFrom pos 0 w)) :
    ∃ ms, membersFrom t stop fuel (pos + byteLength m + 1) = .ok ms ∧
      Member.scanFrom pos 0 (m ++ r) =
        ((Member.readProperty? ⟨pos, pos + byteLength m⟩ m).map .property).toList ++ ms := by
  rw [byteLength_append] at hfuel
  cases r with
  | nil =>
    have hnext : stop = pos + byteLength m := (h.skip (r := [])).stop_eq
    have hpos := c.utf8Size_pos
    rw [List.append_nil] at hw
    obtain rfl := hw
    rw [List.append_nil] at hk hmethod hwidth ⊢
    rw [byteLength_cons] at hfuel
    refine ⟨[], membersFrom_of_le (by omega) (by omega), ?_⟩
    rw [Member.scanFrom_other hk hmethod hwidth, List.take_length,
      List.drop_eq_nil_of_le (Nat.le_succ _)]
    rfl
  | cons d r =>
    have hd : d.utf8Size = 1 := by
      rcases hend d rfl with rfl | rfl <;> rfl
    have hnext : pos + byteLength (m ++ [d]) = pos + byteLength m + 1 := by
      rw [byteLength_append, byteLength_cons, byteLength_nil, hd, Nat.add_assoc]
    have hrest : Stands t (pos + byteLength m + 1) stop r := by
      have hskip := h.skip.skip (m := [d])
      rwa [byteLength_cons, hd] at hskip
    rw [byteLength_cons] at hfuel
    refine ⟨_, ih hrest (by omega), ?_⟩
    rw [Member.scanFrom_ended hk hmethod hwidth, hnext]

theorem membersFrom_eq_ok (h : Stands t pos stop w) (hsize : byteLength t < UInt32.size)
    (hfuel : byteLength w < fuel) :
    membersFrom t stop fuel pos = .ok (Member.scanFrom pos 0 w) := by
  induction fuel generalizing pos w with
  | zero => omega
  | succ fuel ih =>
    have hw : byteLength w < byteLength t + 1 := by
      have := h.stop_lt
      have := h.stop_eq
      omega
    cases w with
    | nil =>
      have hstop : stop ≤ pos := Nat.le_of_eq h.stop_eq
      exact membersFrom_of_le hstop (Nat.succ_pos _)
    | cons c w =>
      rw [membersFrom, if_neg (Nat.not_le.mpr h.lt)]
      obtain ⟨p, hp, ⟨hstop, hnil⟩ | ⟨r, hr, hstands, hle, hk, hscan⟩⟩ := skipTrivia_eq_ok h hw
      · rw [hp, bind_ok, if_pos hstop, hnil]
        rfl
      obtain ⟨d, r, rfl⟩ := List.exists_cons_of_ne_nil hr
      rw [hp, bind_ok, if_neg (Nat.not_le.mpr hstands.lt), methodAt_eq_ok hstands hsize, bind_ok,
        hscan]
      cases hmethod : Member.readMethod? p (d :: r) with
      | none =>
        obtain ⟨m, rest, hm, hwidth, hend⟩ := endsAfter_statementWidth 0 [] none (d :: r)
        have hw := hm
        rw [hm] at hk hmethod hstands hle hwidth
        obtain ⟨ms, hms, hmembers⟩ := exists_after_statement hstands hw hk hmethod hwidth hend
          (by omega) fun _ _ => ih
        rw [hm, hmembers, propertyAt_eq_ok hstands hsize hwidth]
        show (do return ((Member.readProperty? ⟨p, p + byteLength m⟩ m).map Member.property).toList ++
          (← membersFrom t stop fuel (p + byteLength m + 1))) = _
        rw [hms]
        rfl
      | some found =>
        obtain ⟨method, k⟩ := found
        obtain ⟨read, rest, hread, hne, rfl⟩ := exists_read_of_readMethod? hmethod
        have hpos : 0 < byteLength read := byteLength_pos hne
        rw [hread] at hk hmethod hstands hle ⊢
        rw [byteLength_append] at hle
        have hrest := ih hstands.skip (by omega)
        rw [Member.scanFrom_method hne hk hmethod]
        show (do return Member.method method :: (← membersFrom t stop fuel
          (p + byteLength ((read ++ rest).take read.length)))) = _
        rw [List.take_left, hrest]
        rfl

end CanvasPage.Checked
