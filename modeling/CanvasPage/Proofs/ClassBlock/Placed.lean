import CanvasPage.Proofs.ClassBlock.ClassSpans
import CanvasPage.Proofs.Script.Matching

namespace CanvasPage

open Script

variable {source before own after : Text}

/-- A method where it stands in a source: its range begins with its name, which a hash may precede,
and ends with the brace that closes its body. `gap` stands between the name and the parentheses of
its parameters, `result` between these and the body. -/
structure Method.IsPlaced (m : Method) (source hash gap result : Text) : Prop where
  hash_eq : hash = [] ∨ hash = ['#']
  name_stops : ∀ c ∈ gap.head?, Text.continuesIdentifier c = false
  gap_free : '(' ∉ gap
  result_free : '\x7b' ∉ result
  text : m.span.slice? source = some (m.written hash gap result)
  params : matchingDelimiter source (m.span.start + Text.byteLength (hash ++ m.name ++ gap)) =
    some (m.span.start + Text.byteLength (hash ++ m.name ++ gap) + 1 + Text.byteLength m.params)
  body : matchingDelimiter source (m.span.start +
      Text.byteLength (hash ++ m.name ++ gap ++ '(' :: m.params ++ ')' :: result)) =
    some (m.span.stop - 1)

/-- A property where it stands in a source: its value is in the text of its range. -/
def Property.IsPlaced (p : Property) (source : Text) : Prop :=
  ∃ own, p.span.slice? source = some own ∧ p.value <:+: own

namespace ClassBlock

def memberSpans (c : ClassBlock) : List Span :=
  c.properties.map (·.span) ++ (c.initializer.toList ++ c.methods).map (·.span)

/-- A class where it stands in a source. `head` stands between the keyword and the first brace,
`body` between that brace and the one that closes it. -/
structure IsPlaced (c : ClassBlock) (source head body : Text) : Prop where
  text : c.span.slice? source = some (written head body)
  word : ∃ before, Text.takeBytes c.span.start source = some before ∧
    ∀ d ∈ before.getLast?, Text.isWordChar d = false
  isHead : IsHead head
  close : matchingDelimiter source (c.span.start + Text.byteLength ("class" ++ head)) =
    some (c.span.stop - 1)
  within : ∀ r ∈ c.memberSpans, c.span.start + Text.byteLength ("class" ++ head) + 1 ≤ r.start ∧
    r.start < r.stop ∧ r.stop ≤ c.span.stop - 1
  apart : c.memberSpans.Pairwise Span.IsApart
  properties_ordered : (c.properties.map (·.span)).Pairwise Span.Precedes
  methods_ordered : (c.methods.map (·.span)).Pairwise Span.Precedes
  methods_placed : ∀ m ∈ c.initializer.toList ++ c.methods, ∃ hash gap result,
    m.IsPlaced source hash gap result
  properties_placed : ∀ p ∈ c.properties, p.IsPlaced source

end ClassBlock

theorem Span.slice?_behind (before own after : Text) :
    (Span.behind before own).slice? (before ++ (own ++ after)) = some own :=
  Span.slice?_append before own after

theorem Method.IsRead.isPlaced {m : Method} {hash gap result : Text}
    (h : m.IsRead hash gap result after)
    (hspan : m.span = .behind before (m.written hash gap result)) (rest : Text) :
    m.IsPlaced (before ++ (m.written hash gap result ++ (after ++ rest))) hash gap result := by
  have hparams := Bracket.enclosed?_append_right h.params rest
  have hbody := Bracket.enclosed?_append_right h.body rest
  refine ⟨h.hash_eq, h.name_stops, h.gap_free, h.result_free, ?_, ?_, ?_⟩
  · rw [hspan, Span.slice?_behind]
  · have hmatch := matchingDelimiter_of_enclosed? (before ++ (hash ++ m.name ++ gap)) hparams
    rw [Text.byteLength_append] at hmatch
    rw [hspan, Span.behind]
    refine Eq.trans (congrFun (congrArg _ ?_) _) hmatch
    simp [Method.written, Bracket.opener]
  · have hmatch := matchingDelimiter_of_enclosed?
      (before ++ (hash ++ m.name ++ gap ++ '(' :: m.params ++ ')' :: result)) hbody
    rw [Text.byteLength_append] at hmatch
    rw [hspan, Span.behind]
    refine Eq.trans (congrFun (congrArg _ ?_) _) (hmatch.trans (congrArg some ?_))
    · simp [Method.written, Bracket.opener]
    · have hopen : ('\x7b' : Char).utf8Size = 1 := rfl
      have hclose : ('\x7d' : Char).utf8Size = 1 := rfl
      simp only [Method.written, Text.byteLength_append, Text.byteLength_cons, Text.byteLength_nil,
        hopen, hclose]
      omega

theorem Property.isPlaced {p : Property} (hvalue : p.value <:+: own)
    (hspan : p.span = .behind before own) (rest : Text) :
    p.IsPlaced (before ++ (own ++ rest)) :=
  ⟨own, by rw [hspan, Span.slice?_behind], hvalue⟩

namespace Member

@[simp] theorem method?_eq_some {m : Member} {n : Method} : m.method? = some n ↔ m = method n := by
  cases m <;> simp [method?]

@[simp] theorem property?_eq_some {m : Member} {p : Property} :
    m.property? = some p ↔ m = property p := by
  cases m <;> simp [property?]

theorem span_of_method? {m : Member} {n : Method} (h : m.method? = some n) : n.span = m.span := by
  rw [method?_eq_some] at h
  rw [h, span]

theorem span_of_property? {m : Member} {p : Property} (h : m.property? = some p) :
    p.span = m.span := by
  rw [property?_eq_some] at h
  rw [h, span]

theorem pairwise_spans {α : Type} {f : Member → Option α} {spanOf : α → Span}
    (hf : ∀ {m a}, f m = some a → spanOf a = m.span) {R : Span → Span → Prop} {ms : List Member}
    (h : (ms.map span).Pairwise R) : ((ms.filterMap f).map spanOf).Pairwise R := by
  rw [List.pairwise_map, List.pairwise_filterMap]
  refine (List.pairwise_map.mp h).imp fun {m n} hmn a ha b hb => ?_
  rw [hf ha, hf hb]
  exact hmn

end Member

namespace ClassBlock

section Members

variable {name : Text} {parent : Option Text} {span : Span} {ms : List Member}

theorem mem_properties_ofMembers {p : Property} :
    p ∈ (ofMembers name parent span ms).properties ↔ .property p ∈ ms := by
  simp [ofMembers]

theorem mem_methods_ofMembers {m : Method} : m ∈ (ofMembers name parent span ms).methods ↔
    .method m ∈ ms ∧ isInitializer m = false := by
  simp [ofMembers]

theorem of_mem_initializer_ofMembers {m : Method}
    (h : m ∈ (ofMembers name parent span ms).initializer.toList) :
    .method m ∈ ms ∧ isInitializer m = true := by
  have hfind : (ms.filterMap Member.method?).find? isInitializer = some m :=
    Option.mem_toList.mp h
  have hmem := List.mem_of_find?_eq_some hfind
  exact ⟨by simpa using hmem, List.find?_some hfind⟩

theorem mem_of_mem_methods_ofMembers {m : Method}
    (h : m ∈ (ofMembers name parent span ms).initializer.toList ++
      (ofMembers name parent span ms).methods) : .method m ∈ ms := by
  rcases List.mem_append.mp h with h | h
  · exact (of_mem_initializer_ofMembers h).1
  · exact (mem_methods_ofMembers.mp h).1

theorem exists_of_mem_memberSpans {r : Span}
    (h : r ∈ (ofMembers name parent span ms).memberSpans) : ∃ m ∈ ms, m.span = r := by
  rcases List.mem_append.mp h with h | h
  · obtain ⟨p, hp, rfl⟩ := List.mem_map.mp h
    exact ⟨.property p, mem_properties_ofMembers.mp hp, rfl⟩
  · obtain ⟨m, hm, rfl⟩ := List.mem_map.mp h
    exact ⟨.method m, mem_of_mem_methods_ofMembers hm, rfl⟩

theorem methods_ordered_ofMembers (h : (ms.map Member.span).Pairwise Span.Precedes) :
    ((ofMembers name parent span ms).methods.map (·.span)).Pairwise Span.Precedes :=
  (Member.pairwise_spans Member.span_of_method? h).sublist (List.filter_sublist.map _)

theorem apart_ofMembers (h : (ms.map Member.span).Pairwise Span.Precedes) :
    (ofMembers name parent span ms).memberSpans.Pairwise Span.IsApart := by
  have happart : ∀ {a b : Member}, a ∈ ms → b ∈ ms → a ≠ b → a.span.IsApart b.span := by
    intro a b ha hb hne
    have hsymm : Std.Symm fun a b : Member => a.span.IsApart b.span := ⟨fun _ _ h => h.symm⟩
    exact ((List.pairwise_map.mp h).imp Span.Precedes.isApart).forall ha hb hne
  rw [memberSpans, List.map_append, List.pairwise_append, List.pairwise_append]
  refine ⟨(Member.pairwise_spans Member.span_of_property? h).imp Span.Precedes.isApart,
    ⟨?_, (methods_ordered_ofMembers h).imp Span.Precedes.isApart, ?_⟩, ?_⟩
  · cases (ofMembers name parent span ms).initializer <;> simp
  · intro r hr s hs
    obtain ⟨m, hm, rfl⟩ := List.mem_map.mp hr
    obtain ⟨n, hn, rfl⟩ := List.mem_map.mp hs
    obtain ⟨hm, hinitializer⟩ := of_mem_initializer_ofMembers hm
    obtain ⟨hn, hother⟩ := mem_methods_ofMembers.mp hn
    refine happart (a := .method m) (b := .method n) hm hn ?_
    rintro ⟨⟩
    rw [hinitializer] at hother
    cases hother
  · intro r hr s hs
    obtain ⟨p, hp, rfl⟩ := List.mem_map.mp hr
    have hp := mem_properties_ofMembers.mp hp
    rw [← List.map_append] at hs
    obtain ⟨m, hm, rfl⟩ := List.mem_map.mp hs
    have hm := mem_of_mem_methods_ofMembers hm
    exact happart (a := .property p) (b := .method m) hp hm (by rintro ⟨⟩)

end Members

theorem Stands.isPlaced {c : ClassBlock} (h : Stands c before own after)
    (hspan : c.span = .behind before own) :
    ∃ head body, c.IsPlaced (before ++ (own ++ after)) head body := by
  obtain ⟨hword, head, body, rfl, hhead, hbody, name, parent, hc⟩ := h
  have hclose : ('\x7d' : Char).utf8Size = 1 := rfl
  have hopen : ('\x7b' : Char).utf8Size = 1 := rfl
  have hlaid := Member.laid_scanFrom (before ++ "class" ++ head ++ ['\x7b']) body
  have hsource : ∀ u own rest, body = u ++ (own ++ rest) →
      before ++ (written head body ++ after) =
        (before ++ "class" ++ head ++ ['\x7b'] ++ u) ++ (own ++ (rest ++ '\x7d' :: after)) := by
    rintro u own rest rfl
    simp [written]
  rw [hspan] at hc
  clear hspan
  subst hc
  refine ⟨head, body, Span.slice?_behind _ _ _, ⟨before, Text.takeBytes_append _ _, hword⟩, hhead,
    ?_, ?_, apart_ofMembers hlaid.pairwise,
    Member.pairwise_spans Member.span_of_property? hlaid.pairwise,
    methods_ordered_ofMembers hlaid.pairwise, ?_, ?_⟩
  · have hmatch := matchingDelimiter_of_enclosed? (before ++ ("class" ++ head)) hbody
    rw [Text.byteLength_append] at hmatch
    refine Eq.trans (congrFun (congrArg _ ?_) _) (hmatch.trans (congrArg some ?_))
    · simp [written, Bracket.opener]
    · simp only [ofMembers, Span.behind, written, Text.byteLength_append, Text.byteLength_cons,
        Text.byteLength_nil, hopen, hclose]
      omega
  · intro r hr
    obtain ⟨m, hm, rfl⟩ := exists_of_mem_memberSpans hr
    have hwithin := hlaid.within hm
    simp only [Text.byteLength_append, Text.byteLength_cons, Text.byteLength_nil, hopen] at hwithin
    simp only [ofMembers, Span.behind, written, Text.byteLength_append, Text.byteLength_cons,
      Text.byteLength_nil, hopen, hclose]
    omega
  · intro m hm
    obtain ⟨u, own, rest, hbody, -, hspan, hash, gap, result, rfl, hread⟩ :=
      hlaid.exists_of_mem (mem_of_mem_methods_ofMembers hm)
    refine ⟨hash, gap, result, ?_⟩
    rw [hsource u _ rest hbody]
    exact hread.isPlaced hspan _
  · intro p hp
    obtain ⟨u, own, rest, hbody, -, hspan, hvalue⟩ :=
      hlaid.exists_of_mem (mem_properties_ofMembers.mp hp)
    rw [hsource u own rest hbody]
    exact Property.isPlaced hvalue hspan _

theorem exists_members_of_mem_scan {c : ClassBlock} (hc : c ∈ scan source) :
    ∃ before body, c = ofMembers c.name c.parent c.span
      (Member.scanFrom (Text.byteLength before) 0 body) := by
  obtain ⟨u, own, after, -, -, -, -, head, body, -, -, -, name, parent, hmembers⟩ :=
    (laid_scanFrom [] source).exists_of_mem hc
  have hname : c.name = name := by rw [hmembers]; rfl
  have hparent : c.parent = parent := by rw [hmembers]; rfl
  rw [hname, hparent]
  exact ⟨_, body, hmembers⟩

def bodyStart (c : ClassBlock) (head : Text) : Nat :=
  c.span.start + Text.byteLength ("class" ++ head) + 1

theorem eq_ofMembers_of_mem {c : ClassBlock} {head body : Text} (hc : c ∈ scan source)
    (hhead : '\x7b' ∉ head) (htext : c.span.slice? source = some (written head body)) :
    c = ofMembers c.name c.parent c.span (Member.scanFrom (c.bodyStart head) 0 body) := by
  obtain ⟨u, own, after, rfl, -, hspan, -, head', body', rfl, hhead', -, name, parent, hmembers⟩ :=
    (laid_scanFrom [] source).exists_of_mem hc
  rw [List.nil_append] at hspan hmembers
  have hwritten : written head' body' = written head body := by
    rw [hspan, Span.slice?_behind] at htext
    exact Option.some.inj htext
  obtain ⟨rfl, hbody⟩ := Text.append_cons_inj hhead'.no_brace hhead
    (List.append_cancel_left hwritten)
  obtain rfl := List.append_cancel_right hbody
  have hstart : c.bodyStart head' = Text.byteLength (u ++ "class" ++ head' ++ ['\x7b']) := by
    have hopen : ('\x7b' : Char).utf8Size = 1 := rfl
    rw [bodyStart, hspan, Span.behind]
    simp only [Text.byteLength_append, Text.byteLength_cons, Text.byteLength_nil, hopen]
    omega
  have hname : c.name = name := by rw [hmembers]; rfl
  have hparent : c.parent = parent := by rw [hmembers]; rfl
  rw [hname, hparent, hstart]
  exact hmembers

/-- The classes of a source are in order, and each is what its range says. -/
theorem scan_isPlaced (source : Text) :
    ((scan source).map (·.span)).Pairwise Span.Precedes ∧
      ∀ c ∈ scan source, ∃ head body, c.IsPlaced source head body := by
  have hlaid := laid_scanFrom [] source
  refine ⟨hlaid.pairwise, fun c hc => ?_⟩
  obtain ⟨u, own, after, hsource, -, hspan, hstands⟩ := hlaid.exists_of_mem hc
  rw [List.nil_append] at hspan hstands
  rw [hsource]
  exact hstands.isPlaced hspan

end ClassBlock

namespace Pattern

variable {first body last : Pattern} {before w after : Text} {gs : GroupTexts} {i : Nat}

/-- What a group holds when no group behind it has its index. -/
theorem reads_text (hlast : last.Confines i fun _ => False)
    (h : (first ++ (group i body ++ last)).Reads before w after gs) :
    gs.text i = [] ∨ ∃ b a hs, body.Reads b (gs.text i) a hs := by
  rw [reads_append] at h
  obtain ⟨u, v, hs, is, -, rfl, -, h⟩ := h
  rw [reads_append] at h
  obtain ⟨x, y, js, ks, -, rfl, hgroup, htail⟩ := h
  obtain ⟨ls, rfl, hbody⟩ := reads_group.mp hgroup
  rw [GroupTexts.text, List.append_assoc, List.find?_append]
  cases hfind : ks.find? (·.1 == i) with
  | none =>
    rw [Option.none_or, List.cons_append, List.find?_cons_of_pos (by simp)]
    exact .inr ⟨_, _, ls, hbody⟩
  | some g =>
    obtain ⟨j, t⟩ := g
    obtain rfl : j = i := by simpa using List.find?_some hfind
    have ht := confined_of_reads hlast htail t (List.mem_of_find?_eq_some hfind)
    exact .inl (List.eq_nil_iff_forall_not_mem.mpr ht)

end Pattern

namespace Member

open Pattern

variable {t : Text} {o : Occurrence}

def name : Member → Text
  | method m => m.name
  | property p => p.name

def nameText : Pattern :=
  one (fun c => Text.isAsciiLetter c || ("_$#" : Text).contains c) ++ many Candidate.identifierChar

theorem continuesIdentifier_of_reads {before raw after : Text} {gs : GroupTexts}
    (h : nameText.Reads before raw after gs) :
    ∀ d ∈ withoutHash raw, Text.continuesIdentifier d = true := by
  simp only [nameText, Candidate.identifierChar, reads_append, reads_one, reads_many] at h
  obtain ⟨_, v, _, _, rfl, -, ⟨⟨c, hc, rfl⟩, -⟩, hv, -⟩ := h
  rw [List.singleton_append, withoutHash]
  by_cases hhash : c = '#'
  · rw [List.dropWhile_cons_of_pos (by simpa using hhash)]
    exact fun d hd => hv d ((List.dropWhile_suffix _).subset hd)
  · rw [List.dropWhile_cons_of_neg (by simpa using hhash)]
    have hstart : (Text.isAsciiLetter c || c == '_' || c == '$') = true := by
      simpa [hhash, or_assoc] using hc
    exact List.forall_mem_cons.mpr ⟨Text.continuesIdentifier_of_starts hstart, hv⟩

theorem continuesIdentifier_of_group {first last : Pattern}
    (hlast : last.Confines 2 fun _ => False)
    (h : (first ++ (memberName ++ last)).atStart? t = some o) :
    ∀ d ∈ withoutHash (o.groupText 2), Text.continuesIdentifier d = true := by
  obtain ⟨w, gs, -, -, -, -, -, hgroups, hread⟩ := exists_reads_of_at? h
  rw [hgroups]
  rcases reads_text hlast hread with hnil | ⟨_, _, _, hname⟩
  · rw [hnil]
    simp [withoutHash]
  · exact continuesIdentifier_of_reads hname

theorem continuesIdentifier_of_readMethod? {offset width : Nat} {m : Method}
    (h : readMethod? offset t = some (m, width)) :
    ∀ d ∈ m.name, Text.continuesIdentifier d = true := by
  simp only [readMethod?, Option.bind_eq_bind, Option.bind_eq_some_iff] at h
  obtain ⟨header, hheader, name, hname, h⟩ := h
  split at h
  · cases h
  simp only [Option.bind_eq_some_iff] at h
  obtain ⟨⟨params, afterParams⟩, -, brace, -, ⟨body, rest⟩, -, h⟩ := h
  obtain ⟨rfl, -⟩ := Prod.mk.inj (Option.some.inj h)
  have htail : headerTail.Confines 2 fun _ => False :=
    ⟨trivial, ⟨⟨⟨confines_literal _, trivial⟩, confines_literal _⟩, trivial⟩, trivial,
      confines_literal _⟩
  rw [atStart?, at?_methodHeader] at hheader
  have hchars := continuesIdentifier_of_group htail hheader
  rwa [Occurrence.groupText, hname] at hchars

theorem continuesIdentifier_of_readProperty? {span : Span} {p : Property}
    (h : readProperty? span t = some p) : ∀ d ∈ p.name, Text.continuesIdentifier d = true := by
  simp only [readProperty?, Option.bind_eq_bind, Option.bind_eq_some_iff] at h
  obtain ⟨o, ho, h⟩ := h
  split at h
  · cases h
  · obtain rfl := Option.some.inj h
    rw [initializedProperty, atStart?] at ho
    simp only [at?_assoc] at ho
    refine continuesIdentifier_of_group ?_ ho
    exact ⟨trivial, ⟨trivial, trivial⟩, trivial, ⟨⟨confines_literal _, trivial, trivial⟩, trivial⟩,
      confines_literal _, ⟨fun h => absurd h (by decide), trivial, trivial⟩, trivial⟩

theorem continuesIdentifier_of_mem_scanFrom {offset covered : Nat} {t : Text} {m : Member}
    (hm : m ∈ scanFrom offset covered t) : ∀ d ∈ m.name, Text.continuesIdentifier d = true := by
  fun_induction scanFrom offset covered t with
  | case1 => cases hm
  | case2 _ _ _ _ _ ih => exact ih hm
  | case3 _ _ _ _ _ _ ih => exact ih hm
  | case4 _ _ _ _ _ n width hread ih =>
    rcases List.mem_cons.mp hm with rfl | hm
    · exact continuesIdentifier_of_readMethod? hread
    · exact ih hm
  | case5 _ _ _ _ _ _ _ _ _ ih =>
    rcases List.mem_append.mp hm with hm | hm
    · obtain ⟨p, hp, rfl⟩ := Option.map_eq_some_iff.mp (Option.mem_toList.mp hm)
      exact continuesIdentifier_of_readProperty? hp
    · exact ih hm

end Member

namespace ClassBlock

variable {c : ClassBlock}

theorem continuesIdentifier_of_mem_scan (hc : c ∈ scan source) :
    (∀ m ∈ c.methods, ∀ d ∈ m.name, Text.continuesIdentifier d = true) ∧
      ∀ p ∈ c.properties, ∀ d ∈ p.name, Text.continuesIdentifier d = true := by
  obtain ⟨before, body, hmembers⟩ := exists_members_of_mem_scan hc
  rw [hmembers]
  exact ⟨fun m hm => Member.continuesIdentifier_of_mem_scanFrom (mem_methods_ofMembers.mp hm).1,
    fun p hp => Member.continuesIdentifier_of_mem_scanFrom (mem_properties_ofMembers.mp hp)⟩

theorem confines_header_name : header.Confines 1 (Text.continuesIdentifier · = true) := by
  have htypes : (Pattern.optional (Pattern.blanks ++ "<" ++ Pattern.many (Pattern.noneOf ">\x7b") ++
      ">")).Confines 1 (Text.continuesIdentifier · = true) :=
    ⟨⟨⟨⟨trivial, Pattern.confines_literal _⟩, trivial⟩, Pattern.confines_literal _⟩, trivial⟩
  have hname : (Pattern.group 1 Candidate.identifier).Confines 1
      (Text.continuesIdentifier · = true) :=
    ⟨fun _ => ⟨fun _ => Text.continuesIdentifier_of_starts, fun _ => id⟩, trivial, trivial⟩
  refine ⟨⟨⟨⟨⟨⟨⟨⟨trivial, Pattern.confines_literal _⟩, trivial, trivial⟩, hname⟩, htypes⟩,
    ⟨⟨⟨⟨⟨trivial, trivial⟩, Pattern.confines_literal _⟩, trivial, trivial⟩, ?_⟩, htypes⟩, trivial⟩,
    ⟨⟨⟨⟨trivial, trivial⟩, Pattern.confines_literal _⟩, trivial, trivial⟩, trivial, trivial⟩,
    trivial⟩, trivial⟩, Pattern.confines_literal _⟩
  exact ⟨fun h => absurd h (by decide), trivial, trivial⟩

theorem continuesIdentifier_of_mem_scanFrom {covered : Nat} {before t : Text}
    (hc : c ∈ scanFrom covered before t) : ∀ d ∈ c.name, Text.continuesIdentifier d = true := by
  fun_induction scanFrom covered before t with
  | case1 => cases hc
  | case2 _ _ _ _ ih => exact ih hc
  | case3 _ _ _ _ ih => exact ih hc
  | case4 _ _ _ _ _ _ ih => exact ih hc
  | case5 _ _ _ o hat block width hblock ih =>
    rcases List.mem_cons.mp hc with rfl | hc
    · simp only [ofHeader?, Option.bind_eq_bind, Option.bind_eq_some_iff] at hblock
      obtain ⟨⟨body, rest⟩, -, hblock⟩ := hblock
      obtain ⟨rfl, -⟩ := Prod.mk.inj (Option.some.inj hblock)
      exact Pattern.confined_of_at? confines_header_name hat
    · exact ih hc

end ClassBlock

end CanvasPage
