import CanvasPage.Proofs.ClassBlock.Member

namespace CanvasPage

open Script

section Closed

variable {s : State} {m : Member}

theorem isPlain_of_mem_joinWords {ws : List Text}
    (hws : ∀ w ∈ ws, ∀ c ∈ w, Text.continuesIdentifier c = true) :
    ∀ c ∈ joinWords ws, isPlain c = true := by
  intro c hc
  obtain ⟨w, hw, hc⟩ := List.mem_flatMap.mp hc
  rcases List.mem_append.mp hc with hc | hc
  · exact isPlain_of_continuesIdentifier (hws w hw c hc)
  · rw [List.mem_singleton.mp hc]
    decide

theorem Method.neutral_print {m : Method} (hm : m.IsPrintable) (hs : s.isCode = true) :
    Neutral s m.print := by
  have hlead : Neutral s (joinWords m.modifierWords ++ m.name) := by
    apply neutral_of_isPlain hs
    intro c hc
    rcases List.mem_append.mp hc with hc | hc
    · refine isPlain_of_mem_joinWords (fun w hw => ?_) c hc
      exact (Member.areWords_methodWords w (m.modifierWords_subset w hw)).2
    · exact isPlain_of_continuesIdentifier (Text.continuesIdentifier_of_isIdentifier hm.name c hc)
  have hparams := Neutral.enclose hlead.isCode (neutral_of_isClosed hm.params) .paren
  have hbody := Neutral.enclose (s := .start) rfl (neutral_of_isClosed hm.body) .brace
  have htail := neutral_cons_of_isPlain hparams.isCode (c := ' ') (by decide) hbody
  have hprint : m.print = (joinWords m.modifierWords ++ m.name) ++
      ((Bracket.paren.opener :: (m.params ++ [Bracket.paren.closer])) ++
        ' ' :: (Bracket.brace.opener :: (m.body ++ [Bracket.brace.closer]))) := by
    rw [← List.append_nil m.print, m.print_append]
    simp only [List.append_assoc, List.cons_append, List.nil_append, Bracket.opener,
      Bracket.closer]
  rw [hprint]
  exact hlead.append (hparams.append htail)

theorem Property.neutral_lead {p : Property} (hname : Text.isIdentifier p.name = true)
    (hs : s.isCode = true) : Neutral s p.lead ∧ s.run p.lead = .start := by
  have hplain : ∀ c ∈ p.lead, isPlain c = true := fun c hc => (p.isPlain_of_mem_lead hname c hc).1
  have hne : p.lead ≠ [] := by
    rw [lead, ← List.append_assoc]
    exact List.append_ne_nil_of_right_ne_nil _ (List.cons_ne_nil _ _)
  exact ⟨neutral_of_isPlain hs hplain, run_of_isPlain hs hne hplain⟩

theorem Property.neutral_print {p : Property} (hp : p.IsPrintable) (hs : s.isCode = true) :
    Neutral s p.print := by
  obtain ⟨hlead, hstart⟩ := p.neutral_lead hp.name hs
  have hvalue := neutral_of_isClosed hp.closed
  have hend := neutral_cons_of_isPlain hvalue.isCode (c := ';') (by decide) (neutral_nil rfl)
  have hprint : p.print = p.lead ++ (p.value ++ [';']) := by
    rw [← List.append_assoc, ← p.print_append, List.append_nil]
  rw [hprint]
  apply hlead.append
  rw [hstart]
  exact hvalue.append hend

theorem Member.neutral_print (hm : m.IsPrintable) (hs : s.isCode = true) : Neutral s m.print := by
  cases m with
  | method m => exact Method.neutral_print hm hs
  | property p => exact Property.neutral_print hm hs

theorem Member.neutral_lines {ms : List Member} (hms : ∀ m ∈ ms, m.IsPrintable)
    (hs : s.isCode = true) : Neutral s (ms.flatMap (·.print ++ ['\n'])) := by
  induction ms generalizing s with
  | nil => exact neutral_nil hs
  | cons m ms ih =>
    have hrest := ih (fun n hn => hms n (by simp [hn])) (s := .start) rfl
    have hm := Member.neutral_print (hms m (by simp)) hs
    have hline := neutral_cons_of_isPlain hm.isCode (c := '\n') (by decide) hrest
    rw [List.flatMap_cons, List.append_assoc]
    exact hm.append hline

theorem ClassText.isClosed_body {c : ClassText} (hc : c.IsPrintable) : isClosed c.body = true :=
  isClosed_of_neutral
    (neutral_cons_of_isPlain rfl (by decide) (Member.neutral_lines hc.members rfl))

end Closed

namespace Member

theorem method?_unplaced (m : Member) : m.unplaced.method? = m.method?.map Method.unplaced := by
  cases m <;> rfl

theorem property?_unplaced (m : Member) :
    m.unplaced.property? = m.property?.map Property.unplaced := by
  cases m <;> rfl

theorem filterMap_method?_unplaced (ms : List Member) :
    (ms.map unplaced).filterMap method? = (ms.filterMap method?).map Method.unplaced := by
  rw [List.filterMap_map, List.map_filterMap]
  exact List.filterMap_congr fun m _ => m.method?_unplaced

theorem filterMap_property?_unplaced (ms : List Member) :
    (ms.map unplaced).filterMap property? = (ms.filterMap property?).map Property.unplaced := by
  rw [List.filterMap_map, List.map_filterMap]
  exact List.filterMap_congr fun m _ => m.property?_unplaced

end Member

namespace ClassBlock

theorem unplaced_ofMembers (name : Text) (parent : Option Text) (span : Span) (ms : List Member) :
    (ofMembers name parent span ms).unplaced =
      ofMembers name parent ⟨0, 0⟩ (ms.map Member.unplaced) := by
  have hinitializer : (isInitializer ∘ Method.unplaced) = isInitializer := rfl
  have hother : ((!isInitializer ·) ∘ Method.unplaced) = (!isInitializer ·) := rfl
  simp only [ofMembers, unplaced, Member.filterMap_method?_unplaced,
    Member.filterMap_property?_unplaced, List.find?_map, List.filter_map, hinitializer, hother]

theorem ofMembers_unplaced (c : ClassText) :
    ofMembers c.name none ⟨0, 0⟩ (c.members.map Member.unplaced) = c.block := by
  rw [← unplaced_ofMembers c.name none ⟨0, 0⟩]
  rfl

/-- A class as it is written, with any text for its body. -/
def printed (name body : Text) : Text := "class " ++ name ++ " \x7b" ++ body ++ "\x7d"

variable {before name body : Text} {c : ClassText}

theorem printed_append (name body rest : Text) :
    printed name body ++ rest = "class " ++ (name ++ ' ' :: '\x7b' :: (body ++ '\x7d' :: rest)) := by
  have hopen : (" \x7b" : Text) = [' ', '\x7b'] := rfl
  have hclose : ("\x7d" : Text) = ['\x7d'] := rfl
  show (("class " : Text) ++ name ++ (" \x7b" : Text) ++ body ++ ("\x7d" : Text)) ++ rest = _
  rw [hopen, hclose]
  simp only [List.append_assoc, List.cons_append, List.nil_append]

theorem exists_header (hname : Text.isIdentifier name = true)
    (hbefore : ∀ d ∈ before.head?, Text.isWordChar d = false) (rest : Text) :
    ∃ o, header.at? ⟨before, printed name body ++ rest⟩ = some o ∧ o.groupText 1 = name ∧
      o.group? 2 = none ∧ o.width = name.length + 8 ∧ o.stop.after = body ++ '\x7d' :: rest := by
  have hrun := run_header hbefore hname (body ++ '\x7d' :: rest)
  rw [← printed_append] at hrun
  refine ⟨_, Pattern.at?_of_run hrun (Nat.succ_pos _), ?_, rfl, rfl, rfl⟩
  exact List.take_left

theorem length_printed (name body : Text) :
    (printed name body).length = name.length + 8 + body.length + 1 := by
  have hclass : ("class " : Text).length = 6 := rfl
  rw [← List.append_nil (printed name body), printed_append]
  simp only [List.length_append, List.length_cons, List.length_nil, hclass]
  omega

theorem exists_block (hname : Text.isIdentifier name = true) (hclosed : isClosed body = true)
    (hbefore : ∀ d ∈ before.head?, Text.isWordChar d = false) (rest : Text) :
    ∃ o span offset, header.at? ⟨before, printed name body ++ rest⟩ = some o ∧
      ofHeader? o = some (ofMembers name none span (Member.scanFrom offset 0 body),
        (printed name body).length) := by
  obtain ⟨o, ho, hgroup, hparent, hwidth, hafter⟩ := exists_header hname hbefore rest
  have hbody : Bracket.brace.enclosed? (body ++ '\x7d' :: rest) = _ :=
    Bracket.brace.enclosed?_append rest hclosed
  have hlength : o.width + body.length + 1 = (printed name body).length := by
    rw [length_printed, hwidth]
  refine ⟨o, ⟨o.start.offset, o.stop.offset + Text.byteLength body + 1⟩, o.stop.offset, ho, ?_⟩
  rw [ofHeader?, hafter, hbody]
  simp only [Option.bind_eq_bind, Option.bind_some, hgroup, hparent, hlength, Option.map_none]
  rfl

section Step

variable {u v : Text}

theorem scanFrom_drop (n : Nat) (before t : Text) :
    scanFrom n before t = scanFrom 0 ((t.take n).reverse ++ before) (t.drop n) := by
  induction t generalizing n before with
  | nil => rw [List.take_nil, List.drop_nil]; cases n <;> rfl
  | cons c t ih =>
    cases n with
    | zero => rfl
    | succ n =>
      rw [scanFrom, ih, List.take_succ_cons, List.drop_succ_cons, List.reverse_cons,
        List.append_assoc]
      rfl

theorem scanFrom_of_at?_eq_none {c : Char} (h : header.at? ⟨before, c :: t⟩ = none) :
    scanFrom 0 before (c :: t) = scanFrom 0 (c :: before) t := by
  rw [scanFrom, h]

theorem scanFrom_append {o : Occurrence} (hu : u ≠ [])
    (h : header.at? ⟨before, u ++ v⟩ = some o) (hwidth : o.width = u.length)
    (hnone : ofHeader? o = none) :
    scanFrom 0 before (u ++ v) = scanFrom 0 (u.reverse ++ before) v := by
  obtain ⟨c, u, rfl⟩ := List.exists_cons_of_ne_nil hu
  have hrest := scanFrom_drop u.length (c :: before) (u ++ v)
  rw [List.take_left, List.drop_left] at hrest
  rw [List.cons_append] at h ⊢
  rw [scanFrom, h, List.reverse_cons, List.append_assoc, List.singleton_append, ← hrest]
  dsimp only
  rw [hnone, hwidth]
  rfl

theorem scanFrom_cons {o : Occurrence} {c : ClassBlock} (hu : u ≠ [])
    (h : header.at? ⟨before, u ++ v⟩ = some o) (hblock : ofHeader? o = some (c, u.length)) :
    scanFrom 0 before (u ++ v) = c :: scanFrom 0 (u.reverse ++ before) v := by
  obtain ⟨d, u, rfl⟩ := List.exists_cons_of_ne_nil hu
  have hrest := scanFrom_drop u.length (d :: before) (u ++ v)
  rw [List.take_left, List.drop_left] at hrest
  rw [List.cons_append] at h ⊢
  rw [scanFrom, h, List.reverse_cons, List.append_assoc, List.singleton_append, ← hrest]
  dsimp only
  rw [hblock]
  rfl

end Step

theorem scanFrom_printed (hname : Text.isIdentifier name = true) (hclosed : isClosed body = true)
    (hbefore : ∀ d ∈ before.head?, Text.isWordChar d = false) (rest : Text) :
    ∃ span offset, scanFrom 0 before (printed name body ++ rest) =
      ofMembers name none span (Member.scanFrom offset 0 body) ::
        scanFrom 0 ((printed name body).reverse ++ before) rest := by
  obtain ⟨o, span, offset, ho, hblock⟩ := exists_block hname hclosed hbefore rest
  have hne : printed name body ≠ [] := by
    rw [← List.length_pos_iff, length_printed]
    exact Nat.succ_pos _
  exact ⟨span, offset, scanFrom_cons hne ho hblock⟩

/-- The block that is read off a printed class: where it stands and where its members begin. -/
def placed (c : ClassText) (span : Span) (offset : Nat) : ClassBlock :=
  ofMembers c.name none span (Member.scanFrom offset 0 (c.members.flatMap (·.print ++ ['\n'])))

theorem unplaced_placed (hc : c.IsPrintable) (span : Span) (offset : Nat) :
    (placed c span offset).unplaced = c.block := by
  rw [placed, unplaced_ofMembers, ← ofMembers_unplaced, Member.scanFrom_members hc.members]

theorem scanFrom_print (hc : c.IsPrintable)
    (hbefore : ∀ d ∈ before.head?, Text.isWordChar d = false) (rest : Text) :
    ∃ span offset, scanFrom 0 before (c.print ++ rest) =
      placed c span offset :: scanFrom 0 (c.print.reverse ++ before) rest := by
  obtain ⟨span, offset, hscan⟩ :=
    scanFrom_printed hc.name (ClassText.isClosed_body hc) hbefore rest
  exact ⟨span, offset + 1, hscan⟩

open Pattern in
theorem at?_header_of_lineBreak {c : Char} (hc : c = '\r' ∨ c = '\n') (before t : Text) :
    header.at? ⟨before, c :: t⟩ = none := by
  have hfirst : (literal "class").ends (.start ⟨before, c :: t⟩) = [] := by
    refine ends_literal_eq_nil (c := 'c') rfl ?_
    rcases hc with rfl | rfl <;> simp
  apply at?_eq_none
  simp only [header, run_append]
  refine run_eq_none fun q hq => ?_
  rw [ends] at hq
  split at hq
  · rw [List.mem_singleton.mp hq, run_of_ends_eq_nil hfirst]
  · cases hq

theorem scanFrom_lineFeed (before rest : Text) :
    scanFrom 0 before ('\n' :: rest) = scanFrom 0 ('\n' :: before) rest :=
  scanFrom_of_at?_eq_none (at?_header_of_lineBreak (.inr rfl) before rest)

theorem scanFrom_join {cs : List ClassText} (hcs : ∀ c ∈ cs, c.IsPrintable)
    (hbefore : ∀ d ∈ before.head?, Text.isWordChar d = false) :
    (scanFrom 0 before (Text.join "\n" (cs.map ClassText.print))).map unplaced =
      cs.map ClassText.block := by
  induction cs generalizing before with
  | nil => rfl
  | cons c cs ih =>
    have hc := hcs c (by simp)
    have hlater : ∀ d ∈ cs, d.IsPrintable := fun d hd => hcs d (by simp [hd])
    cases cs with
    | nil =>
      obtain ⟨span, offset, hscan⟩ := scanFrom_print hc hbefore []
      rw [List.append_nil] at hscan
      show (scanFrom 0 before c.print).map unplaced = [c.block]
      rw [hscan, List.map_cons, unplaced_placed hc]
      rfl
    | cons d ds =>
      obtain ⟨span, offset, hscan⟩ := scanFrom_print hc hbefore
        ('\n' :: Text.join "\n" ((d :: ds).map ClassText.print))
      have hjoin : Text.join "\n" ((c :: d :: ds).map ClassText.print) =
          c.print ++ '\n' :: Text.join "\n" ((d :: ds).map ClassText.print) := by
        show c.print ++ ("\n" : Text) ++ _ = _
        rw [List.append_assoc]
        rfl
      rw [hjoin, hscan, List.map_cons, unplaced_placed hc, scanFrom_lineFeed,
        ih hlater (Pattern.forall_mem_head?_cons (by decide) _)]
      rfl

theorem exists_scan_print (hc : c.IsPrintable) :
    ∃ span offset, scan c.print = [placed c span offset] := by
  have hbefore : ∀ d ∈ ([] : Text).head?, Text.isWordChar d = false := by simp
  obtain ⟨span, offset, hscan⟩ := scanFrom_print hc hbefore []
  rw [List.append_nil] at hscan
  exact ⟨span, offset, hscan⟩

/-- Classes that are printed one after the other are scanned as they were, in order. -/
theorem scan_print {cs : List ClassText} (hcs : ∀ c ∈ cs, c.IsPrintable) :
    (scan (Text.join "\n" (cs.map ClassText.print))).map unplaced = cs.map ClassText.block :=
  scanFrom_join hcs (by simp)

def engineText : ClassText :=
  { name := "Engine"
    members :=
      [.method ⟨"constructor", .plain, false, "scale = \")\"",
          "\n  class Inner \x7b y() \x7b\x7d \x7d\n", ⟨0, 0⟩⟩,
        .property ⟨"static", "(a) => \x7b\n  a;\n\x7d", true, ⟨0, 0⟩⟩,
        .method ⟨"get", .getter, true, "", " return `\x7d$\x7b [0] \x7d`; // \x7d\n", ⟨0, 0⟩⟩,
        .property ⟨"set", "[1, \"a;b\"] / 2", false, ⟨0, 0⟩⟩] }

theorem isPrintable_engineText : engineText.IsPrintable := by
  refine ⟨by decide, fun m hm => ?_⟩
  rcases List.mem_cons.mp hm with rfl | hm
  · exact ⟨by decide, by decide, by decide +kernel, by decide +kernel⟩
  rcases List.mem_cons.mp hm with rfl | hm
  · exact ⟨by decide, by decide, by decide +kernel, by decide +kernel, by decide +kernel,
      by decide +kernel⟩
  rcases List.mem_cons.mp hm with rfl | hm
  · exact ⟨by decide, by decide, by decide +kernel, by decide +kernel⟩
  obtain rfl := List.mem_singleton.mp hm
  exact ⟨by decide, by decide, by decide +kernel, by decide +kernel, by decide +kernel,
    by decide +kernel⟩

theorem scan_print_engineText :
    (∀ c ∈ [engineText, ⟨"$", []⟩], c.IsPrintable) ∧
      (scan (Text.join "\n" ([engineText, ⟨"$", []⟩].map ClassText.print))).map unplaced =
        [engineText, ⟨"$", []⟩].map ClassText.block := by
  have hcs : ∀ c ∈ [engineText, ⟨"$", []⟩], c.IsPrintable := by
    intro c hc
    simp only [List.mem_cons, List.not_mem_nil, or_false] at hc
    rcases hc with rfl | rfl
    · exact isPrintable_engineText
    · exact ⟨by decide, by simp⟩
  exact ⟨hcs, scan_print hcs⟩

end ClassBlock

end CanvasPage
