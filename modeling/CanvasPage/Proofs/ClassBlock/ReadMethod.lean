import CanvasPage.Proofs.Checked.Class
import CanvasPage.Proofs.Pattern.Front
import CanvasPage.Proofs.Script.LiteralTexts

namespace CanvasPage

open Script

/-- A method as it stands in a text: a hash or nothing before its name, what stands between the
name and the parameters, and what stands between the parameters and the body. -/
def Method.written (m : Method) (hash gap result : Text) : Text :=
  hash ++ (m.name ++ (gap ++ '(' :: (m.params ++ ')' :: (result ++ '\x7b' :: (m.body ++ ['\x7d'])))))

/-- Before `after`, the first parentheses behind the name enclose the parameters, and the first
braces behind them the body. -/
structure Method.IsRead (m : Method) (hash gap result after : Text) : Prop where
  hash_eq : hash = [] ∨ hash = ['#']
  name_stops : ∀ c ∈ gap.head?, Text.continuesIdentifier c = false
  gap_free : '(' ∉ gap
  result_free : '\x7b' ∉ result
  params : Bracket.paren.enclosed?
      (m.params ++ ')' :: (result ++ '\x7b' :: (m.body ++ '\x7d' :: after))) =
    some (m.params, result ++ '\x7b' :: (m.body ++ '\x7d' :: after))
  body : Bracket.brace.enclosed? (m.body ++ '\x7d' :: after) = some (m.body, after)

namespace Member

open Pattern

section Headers

variable {t : Text} {o : Occurrence}

def headerTail : Pattern :=
  blanks ++ (optional ("<" ++ many (noneOf ">()") ++ ">") ++ (blanks ++ "("))

theorem at?_methodHeader (c : Cursor) :
    methodHeader.at? c = ((modifiers methodWords ++ optional "*" ++ blanks) ++
      (memberName ++ headerTail)).at? c := by
  rw [methodHeader, at?_assoc, at?_assoc, at?_assoc, at?_assoc]
  rfl

theorem exists_gap_of_reads {before w after : Text} {gs : GroupTexts}
    (h : headerTail.Reads before w after gs) :
    ∃ gap, w = gap ++ ['('] ∧ '(' ∉ gap ∧ ∀ c ∈ gap.head?, Text.continuesIdentifier c = false := by
  have hparen : ("(" : Text) = ['('] := rfl
  have hless : ("<" : Text) = ['<'] := rfl
  have hmore : (">" : Text) = ['>'] := rfl
  simp only [headerTail, noneOf, reads_append, reads_blanks, reads_optional, reads_many,
    reads_literal, hparen, hless, hmore] at h
  obtain ⟨b, _, _, _, rfl, rfl, ⟨hb, rfl⟩, type, _, _, _, rfl, rfl, htype, b', _, _, _, rfl, rfl,
    ⟨hb', rfl⟩, rfl, rfl⟩ := h
  have hblank : ∀ {u : Text}, Text.allBlank u = true → '(' ∉ u ∧
      ∀ c ∈ u.head?, Text.continuesIdentifier c = false := by
    intro u hu
    rw [Text.allBlank, List.all_eq_true] at hu
    exact ⟨fun hc => absurd (hu _ hc) (by decide), fun c hc =>
      Text.not_continuesIdentifier_of_isBlank (hu c (List.mem_of_head? hc))⟩
  have htype : '(' ∉ type ∧ ∀ c ∈ type.head?, Text.continuesIdentifier c = false := by
    rcases htype with ⟨_, _, _, _, rfl, -, ⟨_, u, _, _, rfl, -, ⟨rfl, -⟩, hu, -⟩, rfl, -⟩ | ⟨rfl, -⟩
    · refine ⟨?_, ?_⟩
      · simp only [List.mem_append, List.mem_singleton, not_or]
        exact ⟨⟨by decide, fun hc => absurd (hu _ hc) (by decide)⟩, by decide⟩
      · rintro c ⟨⟩
        decide
    · simp
  refine ⟨b ++ (type ++ b'), by simp, ?_, ?_⟩
  · simp only [List.mem_append, not_or]
    exact ⟨(hblank hb).1, htype.1, (hblank hb').1⟩
  · cases b with
    | cons d b => exact (hblank hb).2
    | nil =>
      cases type with
      | cons d type => exact htype.2
      | nil => exact (hblank hb').2

theorem exists_of_reads_memberName {before w after : Text} {gs : GroupTexts}
    (h : memberName.Reads before w after gs) :
    ∃ c u, w = c :: u ∧ ∀ d ∈ u, Text.continuesIdentifier d = true := by
  simp only [memberName, Candidate.identifierChar, reads_group, reads_append, reads_one,
    reads_many] at h
  obtain ⟨_, -, _, u, _, _, rfl, -, ⟨⟨c, -, rfl⟩, -⟩, hu, -⟩ := h
  exact ⟨c, u, rfl, hu⟩

theorem exists_name_of_methodHeader (h : methodHeader.atStart? t = some o) :
    ∃ u raw gap g, t = u ++ (raw ++ (gap ++ '(' :: o.stop.after)) ∧ o.group? 2 = some g ∧
      g.start.before = u.reverse ∧ g.text = raw ∧
      (∃ c v, raw = c :: v ∧ ∀ d ∈ v, Text.continuesIdentifier d = true) ∧ '(' ∉ gap ∧
      ∀ c ∈ gap.head?, Text.continuesIdentifier c = false := by
  have hflat : headerTail.IsFlat :=
    ⟨trivial, ⟨⟨⟨isFlat_literal _, trivial⟩, isFlat_literal _⟩, trivial⟩, trivial, isFlat_literal _⟩
  rw [atStart?, at?_methodHeader] at h
  obtain ⟨u, raw, w, g, hafter, hgroup, hstart, htext, -, ⟨_, hname⟩, _, htail⟩ :=
    exists_last_group hflat h
  obtain ⟨gap, rfl, hgap, hstops⟩ := exists_gap_of_reads htail
  have hnamed : memberName.Reads (u.reverse ++ (Cursor.atStart t).before) raw
      ((gap ++ ['(']) ++ o.stop.after) _ := reads_group.mpr ⟨_, rfl, hname⟩
  refine ⟨u, raw, gap, g, ?_, hgroup, ?_, htext, exists_of_reads_memberName hnamed, hgap, hstops⟩
  · rw [List.append_assoc] at hafter
    exact hafter
  · rw [hstart]
    exact List.append_nil _

theorem exists_result_of_bodyHeader (h : bodyHeader.atStart? t = some o) :
    ∃ result, t = result ++ '\x7b' :: o.stop.after ∧ '\x7b' ∉ result := by
  have hbrace : ("\x7b" : Text) = ['\x7b'] := rfl
  obtain ⟨-, w, hw, -, -, hread⟩ := reads_of_at? h
  rw [bodyHeader, reads_append, hbrace] at hread
  obtain ⟨result, _, _, _, rfl, -, hresult, hopen⟩ := hread
  obtain ⟨rfl, -⟩ := (reads_literal _).mp hopen
  have htakes : (blanks ++ optional (":" ++ many1 (noneOf "\x7b;="))).TakesOnly (· ≠ '\x7b') :=
    ⟨takesOnly_blanks (by decide), ⟨takesOnly_literal (by decide),
      takesOnly_noneOf (by decide), takesOnly_noneOf (by decide)⟩, trivial⟩
  refine ⟨result, ?_, fun hc => forall_mem_of_reads htakes hresult _ hc rfl⟩
  rw [List.append_assoc] at hw
  exact hw

end Headers

theorem exists_hash {c : Char} {v : Text} (hv : ∀ d ∈ v, Text.continuesIdentifier d = true) :
    ∃ hash, c :: v = hash ++ withoutHash (c :: v) ∧ (hash = [] ∨ hash = ['#']) := by
  have hrest : v.dropWhile (· == '#') = v := Text.dropWhile_of_head? fun d hd => by
    cases hhash : d == '#' with
    | false => rfl
    | true =>
      have hd := hv d (List.mem_of_head? hd)
      rw [beq_iff_eq.mp hhash] at hd
      revert hd
      decide
  by_cases hc : c = '#'
  · subst hc
    exact ⟨['#'], by rw [withoutHash, List.dropWhile_cons_of_pos (by decide), hrest]; rfl, .inr rfl⟩
  · exact ⟨[], by rw [withoutHash, List.dropWhile_cons_of_neg (by simpa using hc)]; rfl, .inl rfl⟩

theorem exists_isRead_of_readMethod? {offset width : Nat} {t : Text} {m : Method}
    (h : readMethod? offset t = some (m, width)) :
    ∃ u hash gap result w, t = u ++ (m.written hash gap result ++ w) ∧
      width = (u ++ m.written hash gap result).length ∧ m.IsRead hash gap result w ∧
      m.span = ⟨offset + Text.byteLength u,
        offset + Text.byteLength (u ++ m.written hash gap result)⟩ := by
  simp only [readMethod?, Option.bind_eq_bind, Option.bind_eq_some_iff] at h
  obtain ⟨header, hheader, name, hname, h⟩ := h
  split at h
  · cases h
  simp only [Option.bind_eq_some_iff] at h
  obtain ⟨⟨params, afterParams⟩, hparams, brace, hbrace, ⟨body, rest⟩, hbody, h⟩ := h
  dsimp only at hbrace hbody h
  obtain ⟨rfl, rfl⟩ := Prod.mk.inj (Option.some.inj h)
  obtain ⟨u, raw, gap, g, ht, hgroup, hbefore, htext, ⟨c, v, rfl, hv⟩, hgap, hstops⟩ :=
    exists_name_of_methodHeader hheader
  obtain rfl := Option.some.inj (hname.symm.trans hgroup)
  obtain ⟨result, hafter, hresult⟩ := exists_result_of_bodyHeader hbrace
  obtain ⟨hash, hraw, hhash⟩ := exists_hash (c := c) hv
  have hparamsText : header.stop.after = params ++ ')' :: afterParams :=
    Bracket.eq_of_closeFrom _ _ _ _ hparams
  have hbodyText : brace.stop.after = body ++ '\x7d' :: rest :=
    Bracket.eq_of_closeFrom _ _ _ _ hbody
  rw [hparamsText, hafter, hbodyText] at hparams
  rw [hbodyText] at hbody
  obtain ⟨read, hread⟩ : ∃ read, read = hash ++ (withoutHash (c :: v) ++ (gap ++ '(' :: (params ++
      ')' :: (result ++ '\x7b' :: (body ++ ['\x7d']))))) := ⟨_, rfl⟩
  have hsplit : t = (u ++ read) ++ rest := by
    rw [ht, hparamsText, hafter, hbodyText, hread]
    nth_rewrite 1 [hraw]
    simp only [List.append_assoc, List.cons_append, List.nil_append]
  have hwidth : t.length - rest.length = (u ++ read).length := by
    rw [hsplit, List.length_append, Nat.add_sub_cancel]
  refine ⟨u, hash, gap, result, rest, ?_, ?_, ⟨hhash, hstops, hgap, hresult, hparams, hbody⟩, ?_⟩
  · rw [Method.written, htext, ← hread, ← List.append_assoc]
    exact hsplit
  · rw [Method.written, htext, ← hread]
    exact hwidth
  · rw [Method.written, htext, ← hread, Cursor.offset, hbefore, Text.byteLength_reverse]
    dsimp only
    rw [hwidth, hsplit, List.take_left]

end Member

end CanvasPage
