import CanvasPage.Checked.Conversion
import CanvasPage.Proofs.Checked.Indentation
import CanvasPage.Proofs.Checked.Class
import CanvasPage.Proofs.Field.Found

namespace CanvasPage.Checked

open Text

variable {c : Char} {start source : Text} {o : Occurrence} {candidate : Candidate}

theorem toAsciiLower_lt (hc : c.toNat < 128) : (toAsciiLower c).toNat < 128 := by
  rw [toAsciiLower]
  split
  · rename_i hupper
    simp only [Bool.and_eq_true, decide_eq_true_eq] at hupper
    rw [toNat_ofNat_of_lt (by omega)]
    omega
  · exact hc

theorem toAsciiLower_of_wide (hc : 128 ≤ c.toNat) : toAsciiLower c = c := by
  rw [toAsciiLower, if_neg]
  simp only [Bool.and_eq_true, decide_eq_true_eq]
  omega

theorem eqIgnoringAsciiCase_cons (c d : Char) (t u : Text) :
    eqIgnoringAsciiCase (c :: t) (d :: u) =
      (toAsciiLower c == toAsciiLower d && eqIgnoringAsciiCase t u) := rfl

theorem eqIgnoringAsciiCase_bytes (hstart : ∀ c ∈ start, c.toNat < 128) (t : Text) :
    eqIgnoringAsciiCase start ((bytes t).take start.length) =
      eqIgnoringAsciiCase start (t.take start.length) := by
  induction start generalizing t with
  | nil => rfl
  | cons c start ih =>
    obtain ⟨hc, hstart⟩ := List.forall_mem_cons.mp hstart
    cases t with
    | nil => rfl
    | cons d t =>
      rw [List.length_cons, List.take_succ_cons, eqIgnoringAsciiCase_cons]
      by_cases hd : d.toNat < 128
      · rw [bytes_cons, charBytes_of_lt hd, List.singleton_append, List.take_succ_cons,
          eqIgnoringAsciiCase_cons, ih hstart]
      · have hwide := Nat.le_of_not_lt hd
        have hne : ∀ e : Char, 128 ≤ e.toNat → (toAsciiLower c == toAsciiLower e) = false := by
          intro e he
          rw [toAsciiLower_of_wide he]
          refine beq_false_of_ne fun heq => ?_
          have := toAsciiLower_lt hc
          rw [heq] at this
          omega
        obtain ⟨b, bs, hbytes⟩ := List.exists_cons_of_ne_nil (l := charBytes d) fun hnil => by
          have := d.utf8Size_pos
          rw [← length_charBytes, hnil] at this
          exact Nat.lt_irrefl 0 this
        have hb := le_toNat_of_mem_charBytes hwide b (by rw [hbytes]; simp)
        rw [bytes_cons, hbytes, List.cons_append, List.take_succ_cons, eqIgnoringAsciiCase_cons,
          hne b hb, hne d hwide]
        rfl

theorem startsWith_eq_ok (hstart : ∀ c ∈ start, c.toNat < 128) (t : Text) :
    startsWith start t = .ok (startsWithIgnoringAsciiCase start t) := by
  rw [startsWith, startsWithIgnoringAsciiCase, ← eqIgnoringAsciiCase_bytes hstart]
  split
  · rename_i hlt
    refine congrArg Except.ok (Bool.eq_false_iff.mpr fun heq => ?_).symm
    have hlength := congrArg List.length (beq_iff_eq.mp heq)
    rw [List.length_map, List.length_map, List.length_take, length_bytes] at hlength
    omega
  · rename_i hle
    have hslice : slice (bytes t) 0 start.length = .ok ((bytes t).take start.length) := by
      rw [slice, if_pos ⟨Nat.zero_le _, by rw [length_bytes]; omega⟩]
      rfl
    rw [hslice]
    rfl

theorem modeOf_eq_ok (source : Text) : modeOf source = .ok (Mode.ofSource source) := by
  have hdoctype : startsWith "<!doctype" (trimStart source) =
      .ok (startsWithIgnoringAsciiCase "<!doctype" (trimStart source)) :=
    startsWith_eq_ok (by decide) _
  have hhtml : startsWith "<html" (trimStart source) =
      .ok (startsWithIgnoringAsciiCase "<html" (trimStart source)) :=
    startsWith_eq_ok (by decide) _
  rw [modeOf, Mode.ofSource, hdoctype, bind_ok, hhtml, bind_ok]
  split
  · rfl
  · split <;> rfl

theorem capture_stop_le (ho : o ∈ candidate.pattern.occurrences source) {capture : Capture}
    (hcapture : Candidate.capture? o = some capture) :
    capture.start.offset + byteLength capture.text ≤ byteLength source := by
  obtain ⟨cursor, hcursor, hat⟩ := Pattern.exists_at?_of_mem_occurrencesFrom ho
  obtain ⟨index, -, hindex⟩ := List.exists_of_findSome?_eq_some hcapture
  have hwhole : capture.start.before.reverse ++ capture.start.after = source :=
    (Pattern.holds_of_at? hat hindex).1.trans hcursor
  have htext : byteLength capture.text ≤ byteLength capture.start.after := by
    have hsplit := congrArg byteLength (List.take_append_drop capture.width capture.start.after)
    rw [byteLength_append] at hsplit
    rw [Capture.text]
    omega
  rw [Cursor.offset, ← hwhole, byteLength_append, byteLength_reverse]
  omega

theorem readMatch_eq_ok (ho : o ∈ candidate.pattern.occurrences source)
    (hsize : byteLength source < UInt32.size) : readMatch candidate o = .ok (candidate.read? o) := by
  rw [readMatch, Candidate.read?]
  cases hcapture : Candidate.capture? o with
  | none => rfl
  | some capture =>
    have hle := capture_stop_le ho hcapture
    dsimp only [Option.bind_eq_bind, Option.bind_some]
    cases candidate.accept capture.text with
    | none => rfl
    | some text =>
      dsimp only
      rw [span_eq_ok (Nat.le_add_right _ _) (by omega)]
      rfl

theorem findField?_eq_ok (hsize : byteLength source < UInt32.size) (mode : Mode) (field : Field) :
    findField? source mode field = .ok (field.find? source mode) :=
  findSomeM?_eq_ok fun _ _ => findSomeM?_eq_ok fun _ ho => readMatch_eq_ok ho hsize

theorem accept_nil {mode : Mode} {field : Field} (h : candidate ∈ Candidate.forField field mode) :
    candidate.accept [] = none := by
  have hforall : ∀ candidate ∈ Candidate.forField field mode, candidate.accept [] = none := by
    cases field <;> cases mode <;> decide
  exact hforall candidate h

theorem start_lt_of_find? {mode : Mode} {field : Field} {m : FieldMatch}
    (h : field.find? source mode = some m) : m.span.start < byteLength source := by
  obtain ⟨candidate, hcandidate, hfind⟩ := List.exists_of_findSome?_eq_some h
  obtain ⟨o, ho, capture, hcapture, htext, hspan, -⟩ := Candidate.exists_capture_of_find? hfind
  have hne : capture.text ≠ [] := by
    intro hnil
    rw [hnil, accept_nil hcandidate] at htext
    cases htext
  have hpos := byteLength_pos hne
  have hle := capture_stop_le ho hcapture
  rw [hspan]
  show capture.start.offset < byteLength source
  omega

theorem extraction_eq_ok (hsize : byteLength source < UInt32.size) :
    extraction source = .ok (Extraction.ofSource source) := by
  rw [extraction, Extraction.ofSource]
  split
  · rfl
  · rw [modeOf_eq_ok, bind_ok, mapM_eq_ok (g := fun field =>
      (field, field.find? source (Mode.ofSource source))) fun field _ => by
        rw [findField?_eq_ok hsize]
        rfl]
    rw [bind_ok]
    dsimp only
    split
    · rw [classes_eq_ok hsize]
      rfl
    · rfl

end CanvasPage.Checked
