import CanvasPage.Proofs.Pattern.Capture
import CanvasPage.Proofs.Procedure.Arrow
import CanvasPage.Proofs.Procedure.Substitution

namespace CanvasPage.Arrow

open Pattern Script

def isParen (c : Char) : Bool := c == '(' || c == ')'

/-- What stands between the parameters of an arrow and the arrow: blanks and a type. -/
def isTailChar (c : Char) : Bool :=
  Text.isBlank c || c == ':' || (Text.isWordChar c || ("$.<>[]" : Text).contains c)

/-- What follows the parameters of an arrow with a block, through the brace. -/
def IsTail (v : Text) : Prop :=
  ∃ u ws, v = u ++ ("=>" ++ (ws ++ ['\x7b'])) ∧ (∀ c ∈ u, isTailChar c = true) ∧
    Text.allBlank ws = true

inductive IsHeader : (params w : Text) → Prop where
  | parenthesized {p v : Text} (hp : ∀ c ∈ p, isParen c = false) (hv : IsTail v) :
      IsHeader p ('(' :: (p ++ ')' :: v))
  | single {p v : Text} (hp : Text.isIdentifier p = true) (hv : IsTail v) : IsHeader p (p ++ v)

variable {before w after t : Text} {gs : GroupTexts} {h : Header}

theorem isTailChar_of_isBlank {c : Char} (h : Text.isBlank c = true) : isTailChar c = true := by
  rw [isTailChar, h, Bool.true_or, Bool.true_or]

def opening : Pattern := "=>" ++ (blanks ++ "\x7b")

theorem exists_of_reads_opening (h : opening.Reads before w after gs) :
    ∃ ws, w = "=>" ++ (ws ++ ['\x7b']) ∧ Text.allBlank ws = true ∧ gs = [] := by
  have hbrace : ("\x7b" : Text) = ['\x7b'] := rfl
  simp only [opening, reads_append, reads_literal, reads_blanks, hbrace] at h
  obtain ⟨_, _, _, _, rfl, rfl, ⟨rfl, rfl⟩, ws, _, _, _, rfl, rfl, ⟨hws, rfl⟩, rfl, rfl⟩ := h
  exact ⟨ws, rfl, hws, rfl⟩

/-- The tail of an arrow with a bare parameter, which has no type. -/
def IsBareTail (v : Text) : Prop :=
  ∃ bs ws, v = bs ++ ("=>" ++ (ws ++ ['\x7b'])) ∧ Text.allBlank bs = true ∧ Text.allBlank ws = true

theorem IsBareTail.isTail {v : Text} (h : IsBareTail v) : IsTail v := by
  obtain ⟨bs, ws, rfl, hbs, hws⟩ := h
  exact ⟨bs, ws, rfl, fun c hc => isTailChar_of_isBlank (List.all_eq_true.mp hbs c hc), hws⟩

theorem isBareTail_of_reads (h : (blanks ++ opening).Reads before w after gs) : IsBareTail w := by
  rw [reads_append] at h
  obtain ⟨bs, v, _, _, rfl, -, hbs, hv⟩ := h
  obtain ⟨ws, rfl, hws, -⟩ := exists_of_reads_opening hv
  exact ⟨bs, ws, rfl, (reads_blanks.mp hbs).1, hws⟩

def resultType : Pattern := optional (":" ++ blanks ++ many1 typeChar ++ blanks)

theorem forall_mem_of_reads_resultType (h : resultType.Reads before w after gs) :
    (∀ c ∈ w, isTailChar c = true) ∧ gs = [] := by
  have hblanks : ∀ {bs : Text}, Text.allBlank bs = true → ∀ c ∈ bs, isTailChar c = true :=
    fun hbs c hc => isTailChar_of_isBlank (List.all_eq_true.mp hbs c hc)
  simp only [resultType, typeChar, reads_optional, reads_append, reads_literal, reads_blanks,
    reads_many1] at h
  rcases h with ⟨_, bs', _, _, rfl, rfl, ⟨_, type, _, _, rfl, rfl, ⟨_, bs, _, _, rfl, rfl,
    ⟨rfl, rfl⟩, hbs, rfl⟩, -, htype, rfl⟩, hbs', rfl⟩ | ⟨rfl, rfl⟩
  · refine ⟨?_, rfl⟩
    simp only [List.forall_mem_append]
    refine ⟨⟨⟨by decide, hblanks hbs⟩, fun c hc => ?_⟩, hblanks hbs'⟩
    rw [isTailChar, htype c hc, Bool.or_true]
  · exact ⟨by simp, rfl⟩

theorem exists_of_reads_parenthesized (h : parenthesized.Reads before w after gs) :
    ∃ v, w = '(' :: (gs.text 1 ++ ')' :: v) ∧ (∀ c ∈ gs.text 1, isParen c = false) ∧
      IsTail v := by
  have hparts : ("(" ++ (group 1 (many (noneOf "()")) ++ (")" ++ (blanks ++
      (resultType ++ opening))))).Reads before w after gs := by
    have hsplit : parenthesized = "(" ++ group 1 (many (noneOf "()")) ++ ")" ++ blanks ++
        resultType ++ "=>" ++ blanks ++ "\x7b" := rfl
    rw [hsplit] at h
    simpa only [opening, reads_assoc] using h
  have hopen : ("(" : Text) = ['('] := rfl
  have hclose : (")" : Text) = [')'] := rfl
  simp only [noneOf, reads_append, reads_literal, reads_blanks, reads_group, reads_many, hopen,
    hclose] at hparts
  obtain ⟨_, _, _, _, rfl, rfl, ⟨rfl, rfl⟩, p, _, _, _, rfl, rfl, ⟨_, rfl, hp, rfl⟩, _, _, _, _,
    rfl, rfl, ⟨rfl, rfl⟩, bs, _, _, _, rfl, rfl, ⟨hbs, rfl⟩, type, _, _, _, rfl, rfl, htype,
    hopening⟩ := hparts
  obtain ⟨ws, rfl, hws, rfl⟩ := exists_of_reads_opening hopening
  obtain ⟨htypeChars, rfl⟩ := forall_mem_of_reads_resultType htype
  have hblank : ∀ c ∈ bs, isTailChar c = true :=
    fun c hc => isTailChar_of_isBlank (List.all_eq_true.mp hbs c hc)
  have htail : IsTail (bs ++ (type ++ ("=>" ++ (ws ++ ['\x7b'])))) :=
    ⟨bs ++ type, ws, by rw [List.append_assoc], List.forall_mem_append.mpr ⟨hblank, htypeChars⟩, hws⟩
  exact ⟨_, rfl, fun c hc => by simpa [isParen] using hp c hc, htail⟩

theorem at?_singleParameter (c : Cursor) :
    singleParameter.at? c = (group 1 (alt inputStart
      (one fun c => !(Text.isWordChar c || c == '$' || c == '.'))) ++
        (group 2 Candidate.identifier ++ (blanks ++ opening))).at? c := by
  have hseq : ∀ first second : Pattern,
      (first ++ second).ends = fun p => (first.ends p).flatMap second.ends := fun _ _ => rfl
  rw [at?, at?, singleParameter, opening]
  simp only [hseq, List.flatMap_assoc]

theorem exists_of_mem_parenthesized {o : Occurrence} (ho : o ∈ parenthesized.occurrences t) :
    ∃ v, t = o.start.before.reverse ++ ('(' :: (o.groupText 1 ++ ')' :: v) ++ o.stop.after) ∧
      (∀ c ∈ o.groupText 1, isParen c = false) ∧ IsTail v := by
  obtain ⟨c, hwhole, hat⟩ := exists_at?_of_mem_occurrencesFrom ho
  obtain ⟨w, gs, -, hafter, -, -, hstart, hgroups, hread⟩ := exists_reads_of_at? hat
  obtain ⟨v, rfl, hp, hv⟩ := exists_of_reads_parenthesized hread
  rw [hgroups, hstart]
  refine ⟨v, ?_, hp, hv⟩
  rw [← hafter]
  exact hwhole.symm

/-- Does a character end a name, so that a bare parameter may stand behind it? -/
def endsName (c : Char) : Bool := !(Text.isWordChar c || c == '$' || c == '.')

theorem forall_mem_of_reads_lead
    (h : (group 1 (alt inputStart (one endsName))).Reads before w after gs) :
    ∀ c ∈ (w.reverse ++ before).head?, endsName c = true := by
  obtain ⟨_, -, ⟨rfl, -, rfl⟩ | ⟨⟨c, hc, rfl⟩, -⟩⟩ := h
  · simp
  · simpa using hc

theorem exists_of_mem_singleParameter {o : Occurrence} {name : Capture}
    (ho : o ∈ singleParameter.occurrences t) (hname : o.group? 2 = some name) :
    ∃ v, t = name.start.before.reverse ++ ((name.text ++ v) ++ o.stop.after) ∧
      (∀ c ∈ name.start.before.head?, endsName c = true) ∧
      Text.isIdentifier name.text = true ∧ IsBareTail v := by
  obtain ⟨c, hwhole, hat⟩ := exists_at?_of_mem_occurrencesFrom ho
  have hflat : (blanks ++ opening).IsFlat :=
    ⟨trivial, isFlat_literal _, trivial, isFlat_literal _⟩
  rw [at?_singleParameter] at hat
  obtain ⟨u, v, w, g, hafter, hgroup, hstart, htext, ⟨_, hlead⟩, ⟨_, hv⟩, _, hw⟩ :=
    exists_last_group hflat hat
  obtain rfl := Option.some.inj (hname.symm.trans hgroup)
  rw [htext, hstart]
  refine ⟨w, ?_, forall_mem_of_reads_lead hlead, (Substitution.reads_identifier.mp hv).1,
    isBareTail_of_reads hw⟩
  have ht : t = c.before.reverse ++ c.after := hwhole.symm
  rw [ht, hafter]
  simp only [List.reverse_append, List.reverse_reverse, List.append_assoc]

theorem isHeader_of_mem_headers (hh : h ∈ headers t) :
    ∃ w, t = h.start.before.reverse ++ (w ++ h.stop.after) ∧ IsHeader h.params w := by
  rw [headers] at hh
  rcases List.mem_append.mp hh with hh | hh
  · obtain ⟨o, ho, rfl⟩ := List.mem_map.mp hh
    obtain ⟨v, hsplit, hp, hv⟩ := exists_of_mem_parenthesized ho
    exact ⟨_, hsplit, .parenthesized hp hv⟩
  · obtain ⟨o, ho, hheader⟩ := List.mem_filterMap.mp hh
    obtain ⟨name, hname, rfl⟩ := Option.map_eq_some_iff.mp hheader
    obtain ⟨v, hsplit, -, hname, hv⟩ := exists_of_mem_singleParameter ho hname
    exact ⟨_, hsplit, .single hname hv.isTail⟩

theorem whole_stop_of_mem_headers (hh : h ∈ headers t) : h.stop.whole = t := by
  rw [headers] at hh
  rcases List.mem_append.mp hh with hh | hh
  · obtain ⟨o, ho, rfl⟩ := List.mem_map.mp hh
    obtain ⟨c, hwhole, hat⟩ := exists_at?_of_mem_occurrencesFrom ho
    exact (whole_stop_of_at? hat).trans hwhole
  · obtain ⟨o, ho, hheader⟩ := List.mem_filterMap.mp hh
    obtain ⟨name, -, rfl⟩ := Option.map_eq_some_iff.mp hheader
    obtain ⟨c, hwhole, hat⟩ := exists_at?_of_mem_occurrencesFrom ho
    exact (whole_stop_of_at? hat).trans hwhole

theorem IsHeader.exists_append_brace {p w : Text} (h : IsHeader p w) : ∃ x, w = x ++ ['\x7b'] := by
  cases h with
  | parenthesized hp hv =>
    obtain ⟨u, ws, rfl, -, -⟩ := hv
    exact ⟨'(' :: (p ++ ')' :: (u ++ ("=>" ++ ws))), by simp⟩
  | single hp hv =>
    obtain ⟨u, ws, rfl, -, -⟩ := hv
    exact ⟨p ++ (u ++ ("=>" ++ ws)), by simp⟩

theorem exists_of_mem_headers_split (hh : h ∈ headers t) :
    ∃ x, t = h.start.before.reverse ++ ((x ++ ['\x7b']) ++ h.stop.after) ∧
      h.stop.before.reverse = h.start.before.reverse ++ (x ++ ['\x7b']) ∧
      IsHeader h.params (x ++ ['\x7b']) := by
  obtain ⟨w, hsplit, hheader⟩ := isHeader_of_mem_headers hh
  obtain ⟨x, rfl⟩ := hheader.exists_append_brace
  have hwhole : h.stop.before.reverse ++ h.stop.after =
      (h.start.before.reverse ++ (x ++ ['\x7b'])) ++ h.stop.after := by
    rw [List.append_assoc, ← hsplit]
    exact whole_stop_of_mem_headers hh
  exact ⟨x, hsplit, List.append_cancel_right hwhole, hheader⟩

end CanvasPage.Arrow
