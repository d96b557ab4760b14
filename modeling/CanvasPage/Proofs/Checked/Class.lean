import CanvasPage.Proofs.Checked.Member
import CanvasPage.Proofs.ClassBlock.ClassBreaks
import CanvasPage.Proofs.Pattern.Complete

namespace CanvasPage.Checked

open Script Text Pattern

variable {t u w before : Text} {o : Occurrence} {pos fuel : Nat}

theorem scanFrom_of_head?_eq_none
    (h : (ClassBlock.header.occurrencesFrom 0 before w).head? = none) :
    ClassBlock.scanFrom 0 before w = [] := by
  induction w generalizing before with
  | nil => rfl
  | cons c w ih =>
    rw [occurrencesFrom] at h
    cases hat : ClassBlock.header.at? ⟨before, c :: w⟩ with
    | none =>
      rw [hat] at h
      rw [ClassBlock.scanFrom_of_at?_eq_none hat]
      exact ih h
    | some o =>
      rw [hat] at h
      cases h

theorem exists_of_head?_eq_some
    (h : (ClassBlock.header.occurrencesFrom 0 before w).head? = some o) :
    ∃ u v, w = u ++ v ∧ ClassBlock.header.at? ⟨u.reverse ++ before, v⟩ = some o ∧
      ClassBlock.scanFrom 0 before w = ClassBlock.scanFrom 0 (u.reverse ++ before) v := by
  induction w generalizing before with
  | nil => cases h
  | cons c w ih =>
    rw [occurrencesFrom] at h
    cases hat : ClassBlock.header.at? ⟨before, c :: w⟩ with
    | none =>
      rw [hat] at h
      obtain ⟨u, v, rfl, hv, hscan⟩ := ih h
      refine ⟨c :: u, v, rfl, by simpa using hv, ?_⟩
      rw [ClassBlock.scanFrom_of_at?_eq_none hat, hscan]
      simp
    | some o' =>
      rw [hat] at h
      obtain rfl := Option.some.inj h
      exact ⟨[], c :: w, rfl, hat, rfl⟩

theorem firstFrom?_eq_ok (p : Pattern) (ht : t = u ++ w) (hpos : pos = byteLength u) :
    firstFrom? p t pos = .ok (p.occurrencesFrom 0 u.reverse w).head? := by
  have hbefore : cut t 0 pos = .ok u :=
    cut_eq_ok (u := []) (w := w) ht rfl (by rw [hpos, Nat.zero_add])
  rw [firstFrom?, hbefore, bind_ok, cutFrom_eq_ok ht hpos, bind_ok]
  rfl

theorem captures_header : ClassBlock.header.Captures 1 := by
  simp [ClassBlock.header]

theorem exists_opening {v : Text} (hat : ClassBlock.header.at? ⟨u.reverse, v⟩ = some o) :
    ∃ y, v = y ++ Bracket.brace.opener :: o.stop.after ∧ o.width = y.length + 1 ∧
      o.start.offset = byteLength u ∧ o.stop.offset = byteLength (u ++ y) + 1 := by
  obtain ⟨hstart, z, hz, -, hwidth, -⟩ := reads_of_at? hat
  obtain ⟨y, hy, hlast⟩ := exists_last_of_at? hat
  have hy : v = y ++ Bracket.brace.opener :: o.stop.after := hy
  have hlast : o.stop.before = Bracket.brace.opener :: (y.reverse ++ u.reverse) := hlast
  have hread : z = y ++ [Bracket.brace.opener] := by
    refine List.append_cancel_right (hz.symm.trans ?_)
    rw [List.append_assoc]
    exact hy
  refine ⟨y, hy, ?_, by rw [hstart, Cursor.offset, byteLength_reverse], ?_⟩
  · rw [hwidth, hread, List.length_append, List.length_singleton]
  · rw [Cursor.offset, hlast, ← List.reverse_append, byteLength_cons, byteLength_reverse,
      utf8Size_of_lt (opener_lt .brace), Nat.add_comm]

theorem exists_read_of_enclosed? {v body rest : Text}
    (hat : ClassBlock.header.at? ⟨u.reverse, v⟩ = some o)
    (hbody : Bracket.brace.enclosed? o.stop.after = some (body, rest)) :
    ∃ read, v = read ++ rest ∧ read.length = o.width + body.length + 1 ∧
      byteLength u + byteLength read = o.stop.offset + byteLength body + 1 := by
  obtain ⟨y, hv, hwidth, -, hstop⟩ := exists_opening hat
  have hafter : o.stop.after = body ++ '\x7d' :: rest := Bracket.eq_of_closeFrom _ _ _ _ hbody
  refine ⟨y ++ Bracket.brace.opener :: (body ++ ['\x7d']), by rw [hv, hafter]; simp, ?_, ?_⟩
  · rw [hwidth]
    simp only [List.length_append, List.length_cons, List.length_nil]
    omega
  · rw [hstop]
    simp only [byteLength_append, byteLength_cons, utf8Size_of_lt (opener_lt .brace)]
    show _ + (_ + (1 + (_ + 1))) = _
    omega

theorem exists_read_of_ofHeader? {v : Text} {c : ClassBlock} {k : Nat}
    (hat : ClassBlock.header.at? ⟨u.reverse, v⟩ = some o)
    (h : ClassBlock.ofHeader? o = some (c, k)) :
    ∃ read rest, v = read ++ rest ∧ read ≠ [] ∧ k = read.length := by
  obtain ⟨⟨body, rest⟩, hbody, h⟩ := Option.bind_eq_some_iff.mp h
  obtain ⟨read, hv, hlength, -⟩ := exists_read_of_enclosed? hat hbody
  obtain ⟨-, rfl⟩ := Prod.mk.inj (Option.some.inj h)
  exact ⟨read, rest, hv, List.ne_nil_of_length_pos (by omega), hlength.symm⟩

theorem classAt_eq_ok {v : Text} (hsize : byteLength t < UInt32.size) (ht : t = u ++ v)
    (hat : ClassBlock.header.at? ⟨u.reverse, v⟩ = some o) :
    classAt t o = .ok ((ClassBlock.ofHeader? o).map fun (c, width) =>
      (c, byteLength u + byteLength (v.take width))) := by
  obtain ⟨y, hv, -, hstart, hstop⟩ := exists_opening hat
  have htext : t = (u ++ y) ++ Bracket.brace.opener :: o.stop.after := by
    rw [ht, List.append_assoc, ← hv]
  have hminus : minus o.stop.offset 1 = .ok (byteLength (u ++ y)) := by
    rw [hstop, minus_of_le (Nat.le_add_left 1 _), Nat.add_sub_cancel]
  rw [classAt, hminus, bind_ok, matchingDelimiter_eq_ok .brace htext rfl, bind_ok,
    ClassBlock.ofHeader?, ← hstop]
  cases hbody : Bracket.brace.enclosed? o.stop.after with
  | none => rfl
  | some found =>
    obtain ⟨body, rest⟩ := found
    obtain ⟨read, hread, hlength, hsum⟩ := exists_read_of_enclosed? hat hbody
    have hstands : Stands t o.stop.offset (o.stop.offset + byteLength body) body := by
      refine ⟨⟨(u ++ y) ++ [Bracket.brace.opener], rest, ?_, ?_⟩, rfl⟩
      · rw [htext, Bracket.eq_of_closeFrom _ _ _ _ hbody]
        simp [Bracket.closer]
      · rw [hstop, byteLength_append _ [_], byteLength_singleton (opener_lt .brace)]
    have hlt := hstands.stop_lt
    have hspan : span o.start.offset (o.stop.offset + byteLength body + 1) =
        .ok ⟨o.start.offset, o.stop.offset + byteLength body + 1⟩ :=
      span_eq_ok (by omega) (by omega)
    rw [Option.map_some]
    dsimp only
    rw [group_eq_ok captures_header hat, bind_ok, hspan, bind_ok,
      membersFrom_eq_ok hstands hsize (by omega), bind_ok, Option.bind_eq_bind, Option.bind_some]
    show Except.ok (some (_, _)) = Except.ok (some (_, byteLength u + byteLength (v.take _)))
    rw [← hlength, hread, List.take_left, hsum]

theorem classesFrom_eq_ok (hsize : byteLength t < UInt32.size) (ht : t = u ++ w)
    (hpos : pos = byteLength u) (hfuel : byteLength w < fuel) :
    classesFrom t fuel pos = .ok (ClassBlock.scanFrom 0 u.reverse w) := by
  induction fuel generalizing u w pos with
  | zero => omega
  | succ fuel ih =>
    rw [classesFrom, firstFrom?_eq_ok _ ht hpos, bind_ok]
    cases hhead : (ClassBlock.header.occurrencesFrom 0 u.reverse w).head? with
    | none =>
      rw [scanFrom_of_head?_eq_none hhead]
      rfl
    | some o =>
      obtain ⟨x, v, rfl, hat, hscan⟩ := exists_of_head?_eq_some hhead
      have ht : t = (u ++ x) ++ v := by rw [ht, List.append_assoc]
      rw [← List.reverse_append] at hat hscan
      rw [byteLength_append] at hfuel
      dsimp only
      rw [hscan, classAt_eq_ok hsize ht hat, bind_ok]
      cases hclass : ClassBlock.ofHeader? o with
      | none =>
        obtain ⟨-, z, rfl, hstop, hwidth, -⟩ := reads_of_at? hat
        have hlength := width_pos_of_at? hat
        rw [hwidth] at hlength
        have hz : z ≠ [] := List.length_pos_iff.mp hlength
        have hoffset : o.stop.offset = byteLength ((u ++ x) ++ z) := by
          rw [Cursor.offset, hstop, ← List.reverse_append, byteLength_reverse]
        have hpos : 0 < byteLength z := byteLength_pos hz
        rw [byteLength_append] at hfuel
        rw [ClassBlock.scanFrom_append hz hat hwidth hclass, ← List.reverse_append]
        exact ih (by simp [ht]) hoffset (by omega)
      | some found =>
        obtain ⟨c, k⟩ := found
        obtain ⟨read, rest, rfl, hne, rfl⟩ := exists_read_of_ofHeader? hat hclass
        rw [ClassBlock.scanFrom_cons hne hat hclass, ← List.reverse_append]
        have hpos : 0 < byteLength read := byteLength_pos hne
        rw [byteLength_append] at hfuel
        show (do return c :: (← classesFrom t fuel
          (byteLength (u ++ x) + byteLength ((read ++ rest).take read.length)))) = _
        rw [List.take_left, ih (w := rest) (by simp [ht]) (byteLength_append _ _).symm (by omega)]
        rfl

theorem classes_eq_ok (hsize : byteLength t < UInt32.size) :
    classes t = .ok (ClassBlock.scan t) :=
  classesFrom_eq_ok (u := []) hsize rfl rfl (Nat.lt_succ_self _)

end CanvasPage.Checked
