import CanvasPage.ClassBlock.Scan
import CanvasPage.Proofs.ClassBlock.MemberBreaks
import CanvasPage.Proofs.ClassBlock.Scan

namespace CanvasPage

open Pattern Script Text

namespace ClassBlock

section Interfaces

/-- What stands between `implements` and the body of a class, with the brace that opens it. -/
def interfaceList : Pattern := blanks1 ++ lazyMany1 (noneOf "\x7b") ++ blanks ++ "\x7b"

/-- `v` begins with the interfaces `w` and a brace, which `r` follows. -/
structure Lists (v w r : Text) : Prop where
  split : v = w ++ '\x7b' :: r
  blank : w.head?.any isBlank = true
  two : 2 ≤ w.length
  open_ : '\x7b' ∉ w

variable {before v w w' r r' : Text} {width : Nat} {gs gs' : List (Nat × Capture)}

theorem Lists.unique (h : Lists v w r) (h' : Lists v w' r') : w = w' ∧ r = r' :=
  append_cons_inj h.open_ h'.open_ (h.split.symm.trans h'.split)

theorem Lists.toCrlf (h : Lists v w r) : Lists v.toCrlf w.toCrlf r.toCrlf := by
  obtain ⟨rfl, hblank, htwo, hopen⟩ := h
  refine ⟨?_, (any_head?_toCrlf rfl w).trans hblank, htwo.trans (length_le_toCrlf w),
    mt (mem_toCrlf (by decide)).mp hopen⟩
  rw [toCrlf_append, toCrlf_cons (by decide)]

/-- A line feed that the brace follows takes the place of two characters once it has its carriage
return. -/
theorem lists_of_toCrlf (h : Lists (toCrlf v) w' r') :
    (∃ w r, Lists v w r) ∨ ∃ r, v = '\n' :: '\x7b' :: r := by
  have hmem : '\x7b' ∈ v := (mem_toCrlf (by decide)).mp (by simp [h.split])
  obtain ⟨w, r, rfl, hopen⟩ := List.eq_append_cons_of_mem hmem
  have hbroken : toCrlf (w ++ '\x7b' :: r) = toCrlf w ++ '\x7b' :: toCrlf r := by
    rw [toCrlf_append, toCrlf_cons (by decide)]
  obtain ⟨rfl, -⟩ := append_cons_inj h.open_ (mt (mem_toCrlf (by decide)).mp hopen)
    (h.split.symm.trans hbroken)
  have hblank := (any_head?_toCrlf rfl w).symm.trans h.blank
  match w with
  | [] => cases hblank
  | [c] =>
    by_cases hc : c = '\n'
    · subst hc
      exact .inr ⟨r, rfl⟩
    · exact absurd h.two (by simp [toCrlf_cons hc])
  | c :: d :: w => exact .inl ⟨_, r, rfl, hblank, by simp, hopen⟩

theorem isSome_run_lazyMany_one {test : Char → Bool} {m : Progress → Option Progress}
    (hw : ∀ c ∈ w, test c = true)
    (hm : (m ⟨⟨w.reverse ++ before, r⟩, width + w.length, gs⟩).isSome = true) :
    ((lazyMany (one test)).run ⟨⟨before, w ++ r⟩, width, gs⟩ m).isSome = true := by
  induction w generalizing before width with
  | nil =>
    rw [run_lazyMany, Option.isSome_or, Bool.or_eq_true]
    exact .inl hm
  | cons c w ih =>
    have hwidth : width + (c :: w).length = width + 1 + w.length := by
      rw [List.length_cons]
      omega
    rw [List.reverse_cons, List.append_assoc, List.singleton_append, hwidth] at hm
    rw [run_lazyMany, List.cons_append, run_one_cons, if_pos (hw c (by simp)),
      if_pos (Nat.lt_succ_self width), Option.isSome_or, ih (fun d hd => hw d (by simp [hd])) hm,
      Bool.or_true]

theorem isSome_run_many_of_isSome {p : Pattern} {s : Progress} {m : Progress → Option Progress}
    (h : (m s).isSome = true) : ((many p).run s m).isSome = true := by
  rw [run_many, Option.isSome_or, h, Bool.or_true]

theorem not_contains_brace {c : Char} (h : '\x7b' ≠ c) : (!("\x7b" : Text).contains c) = true := by
  have hbrace : ("\x7b" : Text) = ['\x7b'] := rfl
  simp [hbrace, Ne.symm h]

theorem isSome_run_interfaceList (h : Lists v w r) :
    (interfaceList.run ⟨⟨before, v⟩, width, gs⟩ some).isSome = true := by
  obtain ⟨rfl, hblank, htwo, hopen⟩ := h
  match w with
  | c :: d :: w =>
    rw [List.mem_cons, List.mem_cons, not_or, not_or] at hopen
    rw [interfaceList, run_append, run_append, run_append, blanks1, many1, run_append, lazyMany1,
      List.cons_append, blank, run_one_cons, if_pos (by simpa using hblank)]
    apply isSome_run_many_of_isSome
    rw [run_append, List.cons_append, noneOf, run_one_cons, if_pos (not_contains_brace hopen.2.1)]
    apply isSome_run_lazyMany_one
    · exact fun e he => not_contains_brace (ne_of_mem_of_not_mem he hopen.2.2).symm
    · apply isSome_run_many_of_isSome
      exact Option.isSome_of_eq_some (run_literal_singleton '\x7b')

theorem exists_lists_of_run {s q : Progress} (h : interfaceList.run s some = some q) :
    ∃ w, Lists s.cursor.after w q.cursor.after ∧
      q.cursor.before = '\x7b' :: (w.reverse ++ s.cursor.before) ∧
      q.width = s.width + (w.length + 1) ∧ q.groupTexts = s.groupTexts := by
  rw [run_some] at h
  obtain ⟨w, gs, hafter, hbefore, hwidth, hgroups, hread⟩ :=
    advances_of_mem_ends (List.mem_of_head? h)
  simp only [interfaceList, reads_append, reads_blanks1, noneOf, reads_lazyMany1, reads_blanks,
    reads_literal] at hread
  obtain ⟨_, _, _, _, rfl, rfl, ⟨_, trail, _, _, rfl, rfl, ⟨lead, names, _, _, rfl, rfl,
    ⟨hlead, hblank, rfl⟩, hnames, hopen, rfl⟩, htrail, rfl⟩, rfl, rfl⟩ := hread
  have hbrace : ("\x7b" : Text) = ['\x7b'] := rfl
  have hblanks : ∀ {t : Text}, allBlank t = true → '\x7b' ∉ t :=
    fun ht hmem => absurd (List.all_eq_true.mp ht _ hmem) (by decide)
  refine ⟨lead ++ names ++ trail, ⟨?_, ?_, ?_, ?_⟩, ?_, ?_, hgroups⟩
  · rw [hafter, hbrace, List.append_assoc, List.singleton_append]
  · obtain ⟨c, lead, rfl⟩ := List.exists_cons_of_ne_nil hlead
    exact List.all_eq_true.mp hblank c (by simp)
  · have hfirst := List.length_pos_iff.mpr hlead
    have hsecond := List.length_pos_iff.mpr hnames
    rw [List.length_append, List.length_append]
    omega
  · rw [List.mem_append, List.mem_append, not_or, not_or]
    exact ⟨⟨hblanks hblank, fun hmem => absurd (hopen _ hmem) (by decide)⟩, hblanks htrail⟩
  · rw [hbefore, hbrace, List.reverse_append]
    rfl
  · rw [hwidth, hbrace, List.length_append]
    rfl

theorem isSome_run_interfaceList_iff {s : Progress} :
    (interfaceList.run s some).isSome = true ↔ ∃ w r, Lists s.cursor.after w r := by
  constructor
  · intro h
    obtain ⟨q, hq⟩ := Option.isSome_iff_exists.mp h
    obtain ⟨w, hw, -⟩ := exists_lists_of_run hq
    exact ⟨w, q.cursor.after, hw⟩
  · rintro ⟨w, r, h⟩
    exact isSome_run_interfaceList h

theorem exists_lists_toCrlf_iff (hv : ∀ r, v ≠ '\n' :: '\x7b' :: r) :
    (∃ w r, Lists (toCrlf v) w r) ↔ ∃ w r, Lists v w r := by
  constructor
  · rintro ⟨w, r, h⟩
    exact (lists_of_toCrlf h).resolve_right fun ⟨r, hr⟩ => hv r hr
  · rintro ⟨w, r, h⟩
    exact ⟨_, _, h.toCrlf⟩

section Twice

variable {x : Twice} {u : Text}

theorem isSome_run_broken_iff (x : Twice) (u : Text) (gs gs' : List (Nat × Capture))
    (hv : ∀ r, v ≠ '\n' :: '\x7b' :: r) :
    (interfaceList.run (x.broken u v gs') some).isSome = true ↔
      (interfaceList.run (x.plain u v gs) some).isSome = true := by
  rw [isSome_run_interfaceList_iff, isSome_run_interfaceList_iff]
  exact exists_lists_toCrlf_iff hv

theorem alike_interfaceList (huv : u ++ v = x.text) (hv : ∀ r, v ≠ '\n' :: '\x7b' :: r)
    (hgs : SameGroups gs gs') :
    Alike x (interfaceList.run (x.plain u v gs) some)
      (interfaceList.run (x.broken u v gs') some) := by
  have hsome := isSome_run_broken_iff x u gs gs' hv
  cases hplain : interfaceList.run (x.plain u v gs) some with
  | none =>
    rw [hplain] at hsome
    rw [Option.not_isSome_iff_eq_none.mp (mt hsome.mp Bool.false_ne_true)]
    exact .none
  | some q =>
    rw [hplain] at hsome
    obtain ⟨q', hbroken⟩ := Option.isSome_iff_exists.mp (hsome.mpr rfl)
    obtain ⟨w, hw, hbefore, hwidth, hgroups⟩ := exists_lists_of_run hplain
    obtain ⟨w', hw', hbefore', hwidth', hgroups'⟩ := exists_lists_of_run hbroken
    obtain ⟨rfl, hafter⟩ := hw'.unique hw.toCrlf
    rw [hbroken]
    obtain ⟨⟨before, r⟩, width, hs⟩ := q
    obtain ⟨⟨before', r'⟩, width', hs'⟩ := q'
    have hend : (⟨⟨before, r⟩, width, hs⟩ : Progress) = x.plain (u ++ (w ++ ['\x7b'])) r hs := by
      dsimp only [Twice.plain] at hbefore hwidth ⊢
      simp [hbefore, hwidth]
    have hend' : (⟨⟨before', r'⟩, width', hs'⟩ : Progress) =
        x.broken (u ++ (w ++ ['\x7b'])) r hs' := by
      dsimp only [Twice.broken] at hbefore' hwidth' hafter ⊢
      simp [hbefore', hwidth', hafter, toCrlf_cons]
    rw [hend, hend']
    refine .some ?_ (hgs.congr hgroups hgroups')
    rw [← huv, show v = w ++ '\x7b' :: r from hw.split]
    simp

end Twice

theorem keeps_implements {x : Twice} (hx : ¬ ("implements\n\x7b" : Text) <:+: x.text) (n : Nat) :
    Keeps x n ((literal "implements").run · (interfaceList.run · some))
      ((literal "implements").run · (interfaceList.run · some)) := by
  have hlist : ∀ {u v}, u ++ ("implements" ++ v) = x.text → ∀ r, v ≠ '\n' :: '\x7b' :: r := by
    rintro u _ huv r rfl
    refine hx ⟨u, r, ?_⟩
    rw [← huv, List.append_assoc]
    rfl
  refine keeps_literal (by decide) (by decide) ?_ ?_
  · intro u v gs gs' huv hgs
    exact alike_interfaceList (by rw [← huv, List.append_assoc]) (hlist huv) hgs
  · intro u v gs gs' huv hnone
    rw [← Option.not_isSome_iff_eq_none] at hnone ⊢
    rwa [isSome_run_broken_iff x _ gs gs' (hlist huv)]

end Interfaces

section Header

theorem isSolid_typeArguments : IsSolid (optional (blanks ++ "<" ++ many (noneOf ">\x7b") ++ ">")) := by
  refine IsSolid.optional (IsSteady.appendFirm (IsSteady.append (IsSteady.append ?_ ?_) ?_) ?_)
  · exact Member.isSteady_blanks
  · exact (Member.isFirm_string (by decide)).isSteady
  · exact isSteady_many_one rfl
  · exact Member.isFirm_string (by decide)

theorem isFirm_identifier : IsFirm Candidate.identifier :=
  (isFirm_one rfl rfl).append (isSolid_many_one rfl rfl)

theorem isSolid_extends : IsSolid (optional (blanks1 ++ "extends" ++ blanks1 ++
    group 2 (Candidate.identifierStart ++
      many (one fun c => isWordChar c || c == '$' || c == '.')) ++
    optional (blanks ++ "<" ++ many (noneOf ">\x7b") ++ ">"))) := by
  refine ((((Member.isLoose_blanks1.appendFirm ?_).appendLoose
    Member.isLoose_blanks1).appendFirm ?_).append isSolid_typeArguments).optional
  · exact Member.isFirm_string (by decide)
  · exact ((isFirm_one rfl rfl).append (isSolid_many_one rfl rfl)).group 2

theorem keeps_header {x : Twice} (hx : ¬ ("implements\n\x7b" : Text) <:+: x.text)
    (hbefore : x.before'.head?.any isWordChar = x.before.head?.any isWordChar) (n : Nat) :
    Keeps x n (header.run · some) (header.run · some) := by
  have hopen : Lockstep x n ((literal "\x7b").run · some) ((literal "\x7b").run · some) :=
    ((Member.isFirm_string (by decide)).lockstep (lockstep_some x n).toKeeps).mono (Nat.le_succ n)
  have hblanks := Member.isSteady_blanks x n _ _ hopen
  have hword : Lockstep x n ((literal "implements").run · (interfaceList.run · some))
      ((literal "implements").run · (interfaceList.run · some)) :=
    { keeps_implements hx n with
      failsInBreak := fun _ _ _ => (Member.isFirm_string (by decide)).failsInBreak x _ _ _ _ }
  have himplements := (Member.isLoose_blanks1 x n _ _ hword).or hblanks.toKeeps
  have hextends := isSolid_typeArguments x n _ _ (isSolid_extends x n _ _ himplements)
  have hname := ((isFirm_identifier.group 1).lockstep hextends).mono (Nat.le_succ n)
  have hlead := Member.isLoose_blanks1 x n _ _ hname
  have hclass := (((Member.isFirm_string (s := "class") (by decide)).keeps x n _ _ hlead).mono
    (Nat.le_succ n)).wordBoundary hbefore
  simpa only [header, interfaceList, run_append, run_optional] using hclass

theorem confines_header {i : Nat} : header.Confines i (· ≠ '\n') := by
  have hbreak : ∀ {test : Char → Bool}, test '\n' = false → ∀ c, test c = true → c ≠ '\n' := by
    rintro test hn _ hc rfl
    rw [hn] at hc
    cases hc
  have htypes : (optional (blanks ++ "<" ++ many (noneOf ">\x7b") ++ ">")).Confines i (· ≠ '\n') :=
    ⟨⟨⟨⟨trivial, confines_literal _⟩, trivial⟩, confines_literal _⟩, trivial⟩
  have hname : (group 1 Candidate.identifier).Confines i (· ≠ '\n') :=
    ⟨fun _ => ⟨hbreak rfl, hbreak rfl⟩, trivial, trivial⟩
  refine ⟨⟨⟨⟨⟨⟨⟨⟨trivial, confines_literal _⟩, trivial, trivial⟩, hname⟩, htypes⟩, ⟨⟨⟨⟨⟨trivial, trivial⟩,
    confines_literal _⟩, trivial, trivial⟩, ?_⟩, htypes⟩, trivial⟩, ⟨⟨⟨⟨trivial, trivial⟩,
    confines_literal _⟩, trivial, trivial⟩, trivial, trivial⟩, trivial⟩, trivial⟩, confines_literal _⟩
  exact ⟨fun _ => ⟨hbreak rfl, hbreak rfl⟩, trivial, trivial⟩

end Header

end ClassBlock

section Blocks

def ClassBlock.mapTexts (f : Text → Text) (c : ClassBlock) : ClassBlock :=
  { c with
    properties := c.properties.map (·.mapTexts f)
    initializer := c.initializer.map (·.mapTexts f)
    methods := c.methods.map (·.mapTexts f) }

namespace ClassBlock

/-- Two readings of a class at the start of a text, or of none. -/
inductive BlockAlike (t : Text) : Option (ClassBlock × Nat) → Option (ClassBlock × Nat) → Prop
  | none : BlockAlike t none none
  | some {c c' : ClassBlock} {u v : Text} (h : t = u ++ v) (hu : u ≠ [])
      (hc : c'.unplaced = (c.mapTexts toCrlf).unplaced) :
      BlockAlike t (some (c, u.length)) (some (c', (toCrlf u).length))

theorem mapTexts_ofMembers (f : Text → Text) (name : Text) (parent : Option Text) (span : Span)
    (ms : List Member) : (ofMembers name parent span ms).mapTexts f =
      ofMembers name parent span (ms.map (·.mapTexts f)) := by
  have hmethods : (ms.map (·.mapTexts f)).filterMap Member.method? =
      (ms.filterMap Member.method?).map (·.mapTexts f) := by
    rw [List.filterMap_map, List.map_filterMap]
    exact List.filterMap_congr fun m _ => by cases m <;> rfl
  have hproperties : (ms.map (·.mapTexts f)).filterMap Member.property? =
      (ms.filterMap Member.property?).map (·.mapTexts f) := by
    rw [List.filterMap_map, List.map_filterMap]
    exact List.filterMap_congr fun m _ => by cases m <;> rfl
  have hinitializer : (isInitializer ∘ fun m => m.mapTexts f) = isInitializer := rfl
  have hother : ((!isInitializer ·) ∘ fun m : Method => m.mapTexts f) = (!isInitializer ·) := rfl
  simp only [ofMembers, mapTexts, hmethods, hproperties, List.find?_map, List.filter_map,
    hinitializer, hother]

theorem parent_toCrlf {o o' : Occurrence} (h : CaptureAlike o o')
    (hparent : ∀ c ∈ o.groupText 2, c ≠ '\n') :
    (o'.group? 2).map Capture.text = (o.group? 2).map Capture.text := by
  rcases Member.exists_name (h 2) hparent with ⟨hg, hg'⟩ | ⟨g, g', hg, hg', htext⟩
  · rw [hg, hg']
  · rw [hg, hg', Option.map_some, Option.map_some, htext]

theorem blockAlike_ofHeader? {t : Text} {o o' : Occurrence} {u : Text}
    (htext : t = u ++ o.stop.after) (hafter : o'.stop.after = toCrlf o.stop.after)
    (hwidth : o.width = u.length ∧ o'.width = (toCrlf u).length) (hgroups : CaptureAlike o o')
    (hconfined : ∀ i, ∀ c ∈ o.groupText i, c ≠ '\n') (h : escapesBreak false t = false) :
    BlockAlike t (ofHeader? o) (ofHeader? o') := by
  rw [htext] at h
  have hplain := escapesBreak_of_append_left h
  have hname : '\n' ∉ o.groupText 1 := fun hc => hconfined 1 _ hc rfl
  rw [ofHeader?, ofHeader?, hafter, Bracket.enclosed?_toCrlf hplain]
  cases hbody : Bracket.brace.enclosed? o.stop.after with
  | none => exact .none
  | some split =>
    obtain ⟨body, rest⟩ := split
    have hsplit := Member.enclosed?_eq_append hbody
    rw [hsplit, List.append_assoc] at hplain
    have hmembers := Member.scanFrom_toCrlf (escapesBreak_of_append_right hplain) o.stop.offset
      o'.stop.offset
    simp only [Option.map_some, Prod.map_apply, Option.bind_eq_bind, Option.bind_some,
      hgroups.groupText, toCrlf_of_not_mem hname, parent_toCrlf hgroups (hconfined 2)]
    have hlength : ∀ a b : Text, a.length + b.length + 1 = (a ++ (b ++ ['\x7d'])).length := by
      intro a b
      rw [List.length_append, List.length_append]
      rfl
    have hbroken : toCrlf (u ++ (body ++ ['\x7d'])) = toCrlf u ++ (toCrlf body ++ ['\x7d']) := by
      rw [toCrlf_append, toCrlf_append]
      rfl
    rw [hwidth.1, hwidth.2, hlength, hlength, ← hbroken]
    refine .some (v := rest) ?_ (by simp) ?_
    · rw [htext, hsplit]
      simp only [List.append_assoc]
      rfl
    · rw [mapTexts_ofMembers, unplaced_ofMembers, unplaced_ofMembers, hmembers, List.map_map]
      rfl

variable {before before' t : Text}

theorem scanFrom_toCrlf (h : escapesBreak false t = false)
    (hinterfaces : ¬ ("implements\n\x7b" : Text) <:+: t)
    (hbefore : before'.head?.any isWordChar = before.head?.any isWordChar) :
    (scanFrom 0 before' (toCrlf t)).map unplaced =
      (scanFrom 0 before t).map fun c => (c.mapTexts toCrlf).unplaced := by
  induction hlength : t.length using Nat.strongRecOn generalizing t before before' with
  | ind length ih =>
    cases t with
    | nil => rfl
    | cons c t =>
      have hlater : ∀ u v, u ≠ [] → c :: t = u ++ v →
          (scanFrom 0 ((toCrlf u).reverse ++ before') (toCrlf v)).map unplaced =
            (scanFrom 0 (u.reverse ++ before) v).map fun c => (c.mapTexts toCrlf).unplaced := by
        intro u v hu hsplit
        have hpos := List.length_pos_iff.mpr hu
        rw [hsplit] at h hinterfaces hlength
        rw [List.length_append] at hlength
        exact ih v.length (by omega) (escapesBreak_of_append_left h)
          (mt (fun hv => hv.trans (List.suffix_append u v).isInfix) hinterfaces)
          (head?_reverse_append_any hbefore u) rfl
      by_cases hc : c = '\n'
      · subst hc
        rw [toCrlf_lineFeed, scanFrom_of_at?_eq_none (at?_header_of_lineBreak (.inl rfl) _ _),
          scanFrom_of_at?_eq_none (at?_header_of_lineBreak (.inr rfl) _ _),
          scanFrom_of_at?_eq_none (at?_header_of_lineBreak (.inr rfl) _ _)]
        exact hlater ['\n'] t (List.cons_ne_nil _ _) rfl
      · have hfound := foundAlike_at? (x := ⟨c :: t, before, before'⟩)
          (keeps_header hinterfaces hbefore _)
        dsimp only at hfound
        generalize hat : header.at? ⟨before, c :: t⟩ = o at hfound
        generalize hat' : header.at? ⟨before', toCrlf (c :: t)⟩ = o' at hfound
        cases hfound with
        | none =>
          rw [toCrlf_cons hc] at hat' ⊢
          rw [scanFrom_of_at?_eq_none hat, scanFrom_of_at?_eq_none hat']
          have hrest := hlater [c] t (List.cons_ne_nil _ _) rfl
          rwa [toCrlf_cons hc] at hrest
        | @some o o' u hu hsplit hafter hwidth hgroups =>
          have hblock := blockAlike_ofHeader? hsplit hafter hwidth hgroups
            (fun i => confined_of_at? confines_header hat) h
          generalize hfirst : ofHeader? o = b at hblock
          generalize hsecond : ofHeader? o' = b' at hblock
          cases hblock with
          | none =>
            have hrest := hlater u o.stop.after hu hsplit
            have hu' : toCrlf u ≠ [] := mt toCrlf_eq_nil.mp hu
            rw [hsplit] at hat hat' ⊢
            rw [toCrlf_append] at hat' ⊢
            rwa [scanFrom_append hu hat hwidth.1 hfirst, scanFrom_append hu' hat' hwidth.2 hsecond]
          | @some b b' w v hsplit hw hread =>
            have hrest := hlater w v hw hsplit
            have hw' : toCrlf w ≠ [] := mt toCrlf_eq_nil.mp hw
            rw [hsplit] at hat hat' ⊢
            rw [toCrlf_append] at hat' ⊢
            rw [scanFrom_cons hw hat hfirst, scanFrom_cons hw' hat' hsecond, List.map_cons,
              List.map_cons, hread, hrest]

theorem unplaced_mapTexts (f : Text → Text) (c : ClassBlock) :
    (c.mapTexts f).unplaced = c.unplaced.mapTexts f := by
  simp only [unplaced, mapTexts, List.map_map, Option.map_map]
  rfl

theorem mapTexts_ofCrlf_toCrlf (c : ClassBlock) : (c.mapTexts toCrlf).mapTexts ofCrlf = c := by
  have hmethod : (fun m : Method => (m.mapTexts toCrlf).mapTexts ofCrlf) = id :=
    funext fun m => by simp [Method.mapTexts, ofCrlf_toCrlf]
  have hproperty : (fun p : Property => (p.mapTexts toCrlf).mapTexts ofCrlf) = id :=
    funext fun p => by simp [Property.mapTexts, ofCrlf_toCrlf]
  simp only [mapTexts, List.map_map, Option.map_map, Function.comp_def, hmethod, hproperty,
    List.map_id, Option.map_id, id]

/-- Line endings do not change what is scanned, as long as no line with a quote ends in a backslash
and no line that ends in `implements` comes right before the brace of a class. -/
theorem scan_toCrlf (h : escapesBreak false t = false)
    (hinterfaces : ¬ ("implements\n\x7b" : Text) <:+: t) :
    (scan (toCrlf t)).map (fun c => (c.mapTexts ofCrlf).unplaced) = (scan t).map unplaced := by
  have hscan : (scan (toCrlf t)).map unplaced =
      (scan t).map fun c => (c.mapTexts toCrlf).unplaced := scanFrom_toCrlf h hinterfaces rfl
  calc (scan (toCrlf t)).map (fun c => (c.mapTexts ofCrlf).unplaced)
      = ((scan (toCrlf t)).map unplaced).map (·.mapTexts ofCrlf) := by
        rw [List.map_map]
        exact List.map_congr_left fun c _ => unplaced_mapTexts ofCrlf c
    _ = (scan t).map fun c => ((c.mapTexts toCrlf).mapTexts ofCrlf).unplaced := by
        rw [hscan, List.map_map]
        exact List.map_congr_left fun c _ => (unplaced_mapTexts ofCrlf (c.mapTexts toCrlf)).symm
    _ = (scan t).map unplaced := by simp only [mapTexts_ofCrlf_toCrlf]

def kiteText : Text :=
  ("export class Kite extends Glider implements\n  Toy \x7b\n  static tail = [\"red\",\n    'blue'];\n" ++
    "  // don't\n  get size() \x7b\n    return `$\x7bthis.w\x7d\\\n high`;\n  \x7d\n\x7d\n")

theorem scan_toCrlf_kiteText :
    escapesBreak false kiteText = false ∧ ¬ ("implements\n\x7b" : Text) <:+: kiteText ∧
      (scan (toCrlf kiteText)).map (fun c => (c.mapTexts ofCrlf).unplaced) =
        (scan kiteText).map unplaced :=
  ⟨by decide +kernel, by decide +kernel, scan_toCrlf (by decide +kernel) (by decide +kernel)⟩

-- A backslash before the carriage return leaves the line feed to end the string.
example : (scan (toCrlf "class N \x7b f() \x7b x = 'a\\\n\x7d'; \x7d \x7d")).map (·.methods.map (·.name)) ≠
    (scan "class N \x7b f() \x7b x = 'a\\\n\x7d'; \x7d \x7d").map (·.methods.map (·.name)) := by
  decide +kernel

end ClassBlock

end Blocks

end CanvasPage
