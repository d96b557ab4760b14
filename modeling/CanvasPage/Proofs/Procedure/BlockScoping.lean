import CanvasPage.Proofs.Procedure.Assertion
import CanvasPage.Proofs.Procedure.AssertionsLeft
import CanvasPage.Proofs.Procedure.Literals
import CanvasPage.Proofs.Procedure.ReadThrough
import CanvasPage.Proofs.Procedure.Words

namespace CanvasPage

open Script

namespace Substitution

open Pattern

section Rests

variable {rests : List Text} {t : Text} {c : Char}

/-- A text starts with one of the rests of keywords, and no letter follows that. -/
def StartsWithRest (rests : List Text) (t : Text) : Prop :=
  ∃ k ∈ rests, ∃ u, t = k ++ u ∧ ∀ c ∈ u.head?, Text.isWordChar c = false

/-- What is left of a text after its first character, if that is `c`. -/
def afterChar? (c : Char) : Text → Option Text
  | [] => none
  | d :: k => if d = c then some k else none

theorem not_startsWithRest_of_nil (t : Text) : ¬ StartsWithRest [] t := by
  rintro ⟨k, hk, -⟩
  exact List.not_mem_nil hk

theorem startsWithRest_cons (h : StartsWithRest (rests.filterMap (afterChar? c)) t) :
    StartsWithRest rests (c :: t) := by
  obtain ⟨k, hk, u, rfl, hu⟩ := h
  obtain ⟨k', hk', hafter⟩ := List.mem_filterMap.mp hk
  cases k' with
  | nil => cases hafter
  | cons d k' =>
    rw [afterChar?] at hafter
    split at hafter
    · rename_i hd
      obtain rfl := Option.some.inj hafter
      exact ⟨d :: k', hk', u, by rw [hd, List.cons_append], hu⟩
    · cases hafter

theorem startsWithRest_of_nil_mem (h : [] ∈ rests) (hc : Text.isWordChar c = false) (t : Text) :
    StartsWithRest rests (c :: t) :=
  ⟨[], h, c :: t, rfl, by simpa using hc⟩

theorem nil_not_mem_blockKeywords : ([] : Text) ∉ blockKeywords := by decide

theorem of_mem_blockKeywords : ∀ kw ∈ blockKeywords, ∃ c u, kw = c :: u ∧
    (∀ d ∈ c :: u, Text.isWordChar d = true) ∧ c ≠ 'v' := by
  simp only [blockKeywords, List.mem_cons, List.not_mem_nil, or_false, forall_eq_or_imp, forall_eq]
  exact ⟨⟨'l', _, rfl, by decide, by decide⟩, ⟨'c', _, rfl, by decide, by decide⟩⟩

/-- The rests of the keywords that the text may be in the middle of. None is refused as long as no
keyword that stands on its own in code comes to its end. -/
def keywordNext? (s : State) (rests : List Text) (c : Char) : Option (List Text) :=
  if s.isCode then
    if Text.isWordChar c then some (rests.filterMap (afterChar? c))
    else if [] ∈ rests then none
    else some (if isPathChar c then [] else blockKeywords)
  else some blockKeywords

end Rests

section Keywords

variable {s : State} {rests ns : List Text} {a b kw t u w before : Text} {c : Char}

theorem keywordNext?_of_not_isPathChar (hc : isPathChar c = false)
    (hrests : s.isCode = true → [] ∉ rests) : keywordNext? s rests c = some blockKeywords := by
  have hword := not_isWordChar_of_not_isPathChar hc
  rw [keywordNext?]
  split
  · rename_i hs
    rw [if_neg (by simp [hword]), if_neg (hrests hs), hc]
    rfl
  · rfl

theorem readThrough?_singleton (hc : isPathChar c = false) (hrests : [] ∉ rests) :
    readThrough? keywordNext? s rests [c] = some blockKeywords := by
  rw [readThrough?, keywordNext?_of_not_isPathChar hc fun _ => hrests]
  rfl

theorem isQuiet_of_isWordChar (hc : Text.isWordChar c = true) : isQuiet c = true :=
  (isQuiet_of_isPathChar (by rw [isPathChar, hc]; rfl)).1

theorem mem_of_readThrough?_word (hs : s.isCode = true) (hw : ∀ c ∈ w, Text.isWordChar c = true)
    (hmem : w ++ t ∈ rests) (h : readThrough? keywordNext? s rests w = some ns) : t ∈ ns := by
  induction w generalizing s rests with
  | nil =>
    obtain rfl := Option.some.inj h
    exact hmem
  | cons c w ih =>
    obtain ⟨hc, hw⟩ := List.forall_mem_cons.mp hw
    obtain ⟨js, hjs, hrest⟩ := exists_next?_of_readThrough?_cons h
    rw [keywordNext?, if_pos hs, if_pos hc, Option.some.injEq] at hjs
    have hstep := (step_of_isQuiet hs (isQuiet_of_isWordChar hc)).1
    rw [hstep] at hrest
    refine ih rfl hw ?_ hrest
    rw [← hjs, List.mem_filterMap]
    exact ⟨c :: (w ++ t), hmem, by rw [afterChar?, if_pos rfl]⟩

theorem eq_blockKeywords_of_concat (hc : isPathChar c = false)
    (h : readThrough? keywordNext? s rests (t ++ [c]) = some ns) : ns = blockKeywords := by
  have hword := not_isWordChar_of_not_isPathChar hc
  obtain ⟨js, hjs⟩ := exists_next?_of_readThrough?_concat h
  rw [keywordNext?] at hjs
  split at hjs
  · rw [if_neg (by simp [hword]), hc] at hjs
    split at hjs
    · cases hjs
    · exact (Option.some.inj hjs).symm
  · exact (Option.some.inj hjs).symm

theorem eq_blockKeywords_of_readThrough? (ha : ∀ c ∈ a.getLast?, isPathChar c = false)
    (h : readThrough? keywordNext? .start blockKeywords a = some ns) : ns = blockKeywords := by
  rcases List.eq_nil_or_concat a with rfl | ⟨a, c, rfl⟩
  · exact (Option.some.inj h).symm
  · rw [List.concat_eq_append] at ha h
    exact eq_blockKeywords_of_concat (ha c (by simp)) h

theorem not_isCode_of_readThrough? (ha : ∀ c ∈ a.getLast?, isPathChar c = false)
    (hkw : kw ∈ blockKeywords) (hb : ∀ c ∈ b.head?, Text.isWordChar c = false)
    (h : readThrough? keywordNext? .start blockKeywords (a ++ (kw ++ b)) = some ns)
    (hns : [] ∉ ns) : (State.start.run a).isCode = false := by
  by_contra hcode
  rw [Bool.not_eq_false] at hcode
  obtain ⟨c, u, rfl, hletters, -⟩ := of_mem_blockKeywords kw hkw
  obtain ⟨js, hjs, hrest⟩ := exists_of_readThrough?_append h
  obtain rfl := eq_blockKeywords_of_readThrough? ha hjs
  obtain ⟨ms, hms, hend⟩ := exists_of_readThrough?_append hrest
  have hnil : [] ∈ ms :=
    mem_of_readThrough?_word hcode hletters (by rwa [List.append_nil]) hms
  have hafter : ((State.start.run a).run (c :: u)).isCode = true :=
    isCode_run_of_isQuiet hcode fun d hd => isQuiet_of_isWordChar (hletters d hd)
  cases b with
  | nil =>
    obtain rfl := Option.some.inj hend
    exact hns hnil
  | cons d b =>
    obtain ⟨is, his, -⟩ := exists_next?_of_readThrough?_cons hend
    have hd := hb d rfl
    rw [keywordNext?, if_pos hafter, if_neg (by simp [hd]), if_pos hnil] at his
    cases his

theorem reads_blockScopedDeclaration {g after : Text}
    (hg : before = [] ∧ g = [] ∨ ∃ c, g = [c] ∧ isPathChar c = false)
    (hkw : kw ∈ blockKeywords) (hafter : ∀ c ∈ after.head?, Text.isWordChar c = false) :
    blockScopedDeclaration.pattern.Reads before (g ++ kw) after [(1, g)] := by
  have hkeywords : anyOf ["let", "const"] = anyOf (blockKeywords.map literal) := rfl
  have hlast : ∃ u d, kw = u ++ [d] ∧ Text.isWordChar d = true := by
    obtain ⟨c, u, rfl, hletters, -⟩ := of_mem_blockKeywords kw hkw
    rcases List.eq_nil_or_concat (c :: u) with hnil | ⟨v, d, hsplit⟩
    · cases hnil
    · rw [List.concat_eq_append] at hsplit
      exact ⟨v, d, hsplit, hletters d (by simp [hsplit])⟩
  have hboundary : Cursor.atWordBoundary ⟨(g ++ kw).reverse ++ before, after⟩ = true := by
    obtain ⟨u, d, rfl, hd⟩ := hlast
    have hnext : after.head?.any Text.isWordChar = false := by
      cases hhead : after.head? with
      | none => rfl
      | some e => exact hafter e hhead
    simp [Cursor.atWordBoundary, hd, hnext]
  simp only [blockScopedDeclaration, hkeywords, reads_append, reads_keyword, Reads]
  refine ⟨g ++ kw, [], _, [], (List.append_nil _).symm, rfl, ⟨g, kw, [(1, g)], [], rfl, rfl,
    ⟨[], rfl, ?_⟩, hkw, rfl⟩, rfl, rfl, hboundary⟩
  rcases hg with ⟨hbefore, rfl⟩ | ⟨c, rfl, hc⟩
  · exact .inl ⟨rfl, rfl, hbefore⟩
  · refine .inr ⟨⟨c, ?_, rfl⟩, rfl⟩
    rw [isPathChar] at hc
    grind

theorem not_startsWithRest_of_at? (h : blockScopedDeclaration.pattern.at? ⟨before, c :: t⟩ = none) :
    (before = [] → ¬ StartsWithRest blockKeywords (c :: t)) ∧
      (isPathChar c = false → ¬ StartsWithRest blockKeywords t) := by
  have hfound : ∀ g kw u, (before = [] ∧ g = [] ∨ ∃ c, g = [c] ∧ isPathChar c = false) →
      kw ∈ blockKeywords → (∀ d ∈ u.head?, Text.isWordChar d = false) →
        c :: t ≠ (g ++ kw) ++ u := by
    intro g kw u hg hkw hu hsplit
    obtain ⟨o, ho⟩ := exists_at?_of_reads (reads_blockScopedDeclaration hg hkw hu)
      fun v after gs hv => by
        obtain ⟨g, kw, rfl, hkw, -⟩ := exists_of_reads_blockScopedDeclaration hv
        rcases hkw with rfl | rfl <;> simp
    rw [← hsplit, h] at ho
    cases ho
  constructor
  · rintro hbefore ⟨kw, hkw, u, hsplit, hu⟩
    exact hfound [] kw u (.inl ⟨hbefore, rfl⟩) hkw hu hsplit
  · rintro hc ⟨kw, hkw, u, rfl, hu⟩
    exact hfound [c] kw u (.inr ⟨c, rfl, hc⟩) hkw hu rfl

theorem exists_keywordNext?_of_at? (hemit : s.emit c = [])
    (hrests : ¬ StartsWithRest rests (c :: t))
    (hnext : isPathChar c = false → ¬ StartsWithRest blockKeywords t) :
    ∃ ns, keywordNext? s rests c = some ns ∧ ¬ StartsWithRest ns t := by
  by_cases hpath : isPathChar c = true
  · have hcode := isCode_of_emit hemit (by rintro rfl; exact absurd hpath (by decide))
    by_cases hword : Text.isWordChar c = true
    · refine ⟨_, by rw [keywordNext?, if_pos hcode, if_pos hword], ?_⟩
      exact fun hstarts => hrests (startsWithRest_cons hstarts)
    · have hnil : [] ∉ rests := fun hmem =>
        hrests (startsWithRest_of_nil_mem hmem (by simpa using hword) t)
      refine ⟨[], by rw [keywordNext?, if_pos hcode, if_neg hword, if_neg hnil, if_pos hpath], ?_⟩
      rintro ⟨k, hk, -⟩
      cases hk
  · have hpath : isPathChar c = false := by simpa using hpath
    have hnil : [] ∉ rests := fun hmem =>
      hrests (startsWithRest_of_nil_mem hmem (not_isWordChar_of_not_isPathChar hpath) t)
    exact ⟨_, keywordNext?_of_not_isPathChar hpath fun _ => hnil, hnext hpath⟩

theorem readThrough?_var (hs : s.isCode = true) :
    readThrough? keywordNext? s blockKeywords "var" = some [] := by
  have hstep : ∀ {s : State} {c : Char}, s.isCode = true → Text.isWordChar c = true →
      s.step c = .start := fun hs hc => (step_of_isQuiet hs (isQuiet_of_isWordChar hc)).1
  have hvar : ("var" : Text) = ['v', 'a', 'r'] := rfl
  rw [hvar, readThrough?, keywordNext?, if_pos hs, if_pos (by decide), Option.bind_some,
    hstep hs (by decide)]
  rfl

theorem exists_replaceFrom_of_at? {o : Occurrence}
    (h : blockScopedDeclaration.pattern.at? ⟨before, w⟩ = some o) :
    ∃ g kw rest, w = (g ++ kw) ++ rest ∧ kw ∈ blockKeywords ∧
      (before = [] ∧ g = [] ∨ ∃ c, g = [c] ∧ isPathChar c = false) ∧
      blockScopedDeclaration.pattern.replaceFrom blockScopedDeclaration.replacement 0 before w =
        (g ++ "var") ++ blockScopedDeclaration.pattern.replaceFrom
          blockScopedDeclaration.replacement 0 ((g ++ kw).reverse ++ before) rest := by
  obtain ⟨v, gs, -, hsplit, -, hwidth, -, hgroups, hread⟩ := exists_reads_of_at? h
  obtain ⟨g, kw, rfl, hkw, hgs, hg, -⟩ := exists_of_reads_blockScopedDeclaration hread
  have hnew : blockScopedDeclaration.replacement o = g ++ "var" := by
    simp only [blockScopedDeclaration, hgroups, hgs]
  dsimp only at hsplit
  refine ⟨g, kw, o.stop.after, hsplit, by simpa [blockKeywords] using hkw, hg, ?_⟩
  rw [hsplit] at h
  rw [hsplit, replaceFrom_of_at? h hwidth, hnew]

theorem run_keyword {g : Text} (hkw : kw ∈ blockKeywords) (hcode : emitted s (g ++ kw) = []) :
    (s.run g).isCode = true ∧ s.run (g ++ kw) = .start ∧ s.run (g ++ "var") = .start := by
  obtain ⟨c, u, rfl, hletters, -⟩ := of_mem_blockKeywords kw hkw
  have hgcode : (s.run g).isCode = true := by
    rw [emitted_append, List.append_eq_nil_iff, emitted, List.append_eq_nil_iff] at hcode
    refine isCode_of_emit hcode.2.1 ?_
    rintro rfl
    exact absurd (hletters '\n' (by simp)) (by decide)
  refine ⟨hgcode, ?_, ?_⟩
  · rw [State.run_append,
      run_of_isQuiet hgcode (by simp) fun d hd => isQuiet_of_isWordChar (hletters d hd)]
  · have hvar : ∀ c ∈ ("var" : Text), isQuiet c = true := by decide
    rw [State.run_append, run_of_isQuiet hgcode (by decide) hvar]

theorem exists_readThrough?_of_at? {o : Occurrence}
    (hat : blockScopedDeclaration.pattern.at? ⟨before, w⟩ = some o) (hcode : emitted s w = [])
    (hstart : before = [] → rests = blockKeywords)
    (hnil : (∀ c ∈ w.head?, Text.isWordChar c = false) → [] ∉ rests) :
    ∃ x y rest, w = x ++ rest ∧ x ≠ [] ∧ emitted .start rest = [] ∧ s.run x = .start ∧
      s.run y = .start ∧ readThrough? keywordNext? s rests y = some [] ∧
      blockScopedDeclaration.pattern.replaceFrom blockScopedDeclaration.replacement 0 before w =
        y ++ blockScopedDeclaration.pattern.replaceFrom blockScopedDeclaration.replacement 0
          (x.reverse ++ before) rest := by
  obtain ⟨g, kw, rest, rfl, hkw, hg, hreplace⟩ := exists_replaceFrom_of_at? hat
  rw [emitted_append, List.append_eq_nil_iff] at hcode
  obtain ⟨hgcode, hold, hvar⟩ := run_keyword hkw hcode.1
  have hbefore : readThrough? keywordNext? s rests g = some blockKeywords := by
    rcases hg with ⟨hbefore, rfl⟩ | ⟨d, rfl, hd⟩
    · rw [hstart hbefore]
      rfl
    · exact readThrough?_singleton hd (hnil (by simpa using not_isWordChar_of_not_isPathChar hd))
  have hne : g ++ kw ≠ [] := by
    obtain ⟨d, u, rfl, -⟩ := of_mem_blockKeywords kw hkw
    simp
  exact ⟨g ++ kw, g ++ "var", rest, rfl, hne, hold ▸ hcode.2, hold, hvar,
    readThrough?_append_of_eq hbefore (readThrough?_var hgcode), hreplace⟩

variable (rests before) in
theorem exists_readThrough?_replaceFrom (hcode : emitted s w = [])
    (hstart : before = [] → rests = blockKeywords)
    (hrests : before ≠ [] → ¬ StartsWithRest rests w) :
    ∃ ns, readThrough? keywordNext? s rests (blockScopedDeclaration.pattern.replaceFrom
        blockScopedDeclaration.replacement 0 before w) = some ns ∧ [] ∉ ns ∧
      s.run (blockScopedDeclaration.pattern.replaceFrom
        blockScopedDeclaration.replacement 0 before w) = s.run w := by
  induction hn : w.length using Nat.strongRecOn generalizing s rests w before with
  | ind n ih =>
  have hnil : (∀ c ∈ w.head?, Text.isWordChar c = false) → [] ∉ rests := by
    intro hw hmem
    by_cases hbefore : before = []
    · rw [hstart hbefore] at hmem
      exact nil_not_mem_blockKeywords hmem
    · exact hrests hbefore ⟨[], hmem, w, rfl, hw⟩
  cases w with
  | nil => exact ⟨rests, rfl, hnil (by simp), rfl⟩
  | cons c t =>
    cases hat : blockScopedDeclaration.pattern.at? ⟨before, c :: t⟩ with
    | none =>
      obtain ⟨hfirst, hnext⟩ := not_startsWithRest_of_at? hat
      have hfree : ¬ StartsWithRest rests (c :: t) := by
        by_cases hbefore : before = []
        · rw [hstart hbefore]
          exact hfirst hbefore
        · exact hrests hbefore
      rw [emitted, List.append_eq_nil_iff] at hcode
      obtain ⟨js, hjs, hjst⟩ := exists_keywordNext?_of_at? hcode.1 hfree hnext
      obtain ⟨ns, hns, hend, hrun⟩ := ih t.length (by simp [← hn]) js (c :: before) hcode.2
        (by simp) (fun _ => hjst) rfl
      rw [replaceFrom, hat]
      refine ⟨ns, ?_, hend, ?_⟩
      · rw [readThrough?, hjs, Option.bind_some, hns]
      · rw [State.run_cons, State.run_cons, hrun]
    | some o =>
      obtain ⟨x, y, rest, hsplit, hne, hrest, hx, hy, hread, hreplace⟩ :=
        exists_readThrough?_of_at? hat hcode hstart hnil
      have hlt : rest.length < n := by
        have hpos := List.length_pos_iff.mpr hne
        rw [← hn, hsplit, List.length_append]
        omega
      obtain ⟨ns, hns, hend, hrun⟩ := ih rest.length hlt [] (x.reverse ++ before) hrest
        (fun hempty => absurd (List.append_eq_nil_iff.mp hempty).1 (by simpa using hne))
        (fun _ => not_startsWithRest_of_nil rest) rfl
      refine ⟨ns, ?_, hend, ?_⟩
      · rw [hreplace]
        refine readThrough?_append_of_eq hread ?_
        rwa [hy]
      · rw [hreplace, hsplit, State.run_append, State.run_append (t := x), hx, hy, hrun]

theorem keywordNext?_of_role {next : Option Char} (hc : s.role c next ≠ .code) (hrests : [] ∉ rests) :
    keywordNext? s rests c = some blockKeywords := by
  by_cases hpath : isPathChar c = true
  · have hs : s.isCode = false := by
      by_contra hs
      exact hc (role_of_isQuiet (by simpa using hs) (isQuiet_of_isPathChar hpath).1 next)
    rw [keywordNext?, hs, if_neg Bool.false_ne_true]
  · exact keywordNext?_of_not_isPathChar (by simpa using hpath) fun _ => hrests

theorem exists_readThrough?_blockScopedDeclaration (t : Text) :
    ∃ ns, readThrough? keywordNext? .start blockKeywords (blockScopedDeclaration.apply t) = some ns ∧
      [] ∉ ns := by
  have hfrom : ∀ (n : Nat) (s : State) (rests : List Text) (t : Text), t.length = n → [] ∉ rests →
      (∀ c u, t = c :: u → s.role c u.head? = .code → rests = blockKeywords) →
      ∃ ns, readThrough? keywordNext? s rests
        ((chunk ((roles s t).zip t)).flatMap blockScopedDeclaration.onSegment) = some ns ∧
          [] ∉ ns := by
    intro n
    induction n using Nat.strongRecOn with
    | ind n ih =>
    intro s rests t hn hrests hfirst
    cases t with
    | nil => exact ⟨rests, rfl, hrests⟩
    | cons c t =>
      by_cases hrole : s.role c t.head? = .code
      · obtain ⟨w, u, hsplit, hne, hcode, hchunk, hend⟩ := exists_chunk_eq_code hrole
        obtain rfl := hfirst c t rfl hrole
        have hlength : u.length < n := by
          have hpos := List.length_pos_iff.mpr hne
          rw [← hn, hsplit, List.length_append]
          omega
        obtain ⟨js, hjs, hnil, hrun⟩ := exists_readThrough?_replaceFrom blockKeywords [] hcode
          (fun _ => rfl) (fun hempty => absurd rfl hempty)
        obtain ⟨ns, hns, hend⟩ := ih u.length hlength (s.run w) js u rfl hnil fun d v hu hd => by
          rw [hu] at hend
          exact absurd hd (hend d rfl)
        refine ⟨ns, ?_, hend⟩
        have hrun : s.run (blockScopedDeclaration.onSegment (.code w)) = s.run w := hrun
        rw [hchunk, List.flatMap_cons]
        refine readThrough?_append_of_eq hjs ?_
        rwa [hrun]
      · obtain ⟨ns, hns, hend⟩ := ih t.length (by simp [← hn]) (s.step c) blockKeywords t rfl
          nil_not_mem_blockKeywords fun _ _ _ _ => rfl
        refine ⟨ns, ?_, hend⟩
        rw [roles, List.zip_cons_cons, flatMap_onSegment_cons _ hrole, readThrough?,
          keywordNext?_of_role hrole hrests, Option.bind_some, hns]
  rw [apply_eq_flatMap, segments]
  exact hfrom t.length .start blockKeywords t rfl nil_not_mem_blockKeywords fun _ _ _ _ => rfl

theorem nil_not_mem_of_cons (hs : s.isCode = true) (hc : Text.isWordChar c = false)
    (h : readThrough? keywordNext? s rests (c :: t) = some ns) : [] ∉ rests := by
  intro hnil
  obtain ⟨js, hjs, -⟩ := exists_next?_of_readThrough?_cons h
  rw [keywordNext?, if_pos hs, if_neg (by simp [hc]), if_pos hnil] at hjs
  cases hjs

end Keywords

section Passes

variable {before w after : Text} {gs : GroupTexts}

theorem exists_parts_of_reads_genericConstructorCall
    (h : genericConstructorCall.pattern.Reads before w after gs) :
    ∃ b bs d u, w = ['n', 'e', 'w'] ++ ((b :: bs) ++ (gs.text 1 ++ d :: (u ++ ['(']))) ∧
      Text.allBlank (b :: bs) = true ∧ Text.isWordChar d = false ∧
      ∀ c ∈ gs.text 1, isPathChar c = true := by
  have hparts := reads_genericConstructorCall h
  simp only [reads_append, reads_literal, reads_blanks1, reads_group, reads_blanks] at hparts
  obtain ⟨_, _, _, _, rfl, rfl, ⟨rfl, rfl, -⟩, _, _, _, _, rfl, rfl, ⟨rfl, rfl⟩, bs, _, _, _, rfl,
    rfl, ⟨hne, hbs, rfl⟩, name, _, _, _, rfl, rfl, ⟨_, rfl, hpath⟩, ws, v, _, _, rfl, rfl,
    ⟨hws, rfl⟩, harguments⟩ := hparts
  obtain ⟨-, hname, rfl⟩ := of_reads_path hpath
  obtain ⟨u, rfl, rfl⟩ := exists_of_reads_typeArguments harguments
  obtain ⟨b, bs, rfl⟩ := List.exists_cons_of_ne_nil hne
  obtain ⟨d, v, hd, hword⟩ : ∃ d v, ws ++ '<' :: (u ++ ['(']) = d :: (v ++ ['(']) ∧
      Text.isWordChar d = false := by
    cases ws with
    | nil => exact ⟨'<', u, rfl, by decide⟩
    | cons d ws =>
      rw [Text.allBlank, List.all_cons, Bool.and_eq_true] at hws
      exact ⟨d, ws ++ '<' :: u, by simp, not_isWordChar_of_isBlank hws.1⟩
  exact ⟨b, bs, d, v, by simp only [hd]; rfl, hbs, hword, hname⟩

theorem eq_blockKeywords_of_blanks {s : State} {rests ns : List Text} (hne : w ≠ [])
    (hw : Text.allBlank w = true) (h : readThrough? keywordNext? s rests w = some ns) :
    ns = blockKeywords := by
  rcases List.eq_nil_or_concat w with rfl | ⟨v, c, rfl⟩
  · exact absurd rfl hne
  · rw [List.concat_eq_append] at h hw
    have hc := List.all_eq_true.mp hw c (by simp)
    refine eq_blockKeywords_of_concat ?_ h
    by_contra hpath
    rw [Bool.not_eq_false] at hpath
    rw [(isQuiet_of_isPathChar hpath).2.2] at hc
    cases hc

theorem keeps_keywords_genericConstructorCall : genericConstructorCall.Keeps keywordNext? := by
  intro before w after gs o r m n hread hgroups hcode hw
  obtain ⟨b, bs, d, u, rfl, hbs, hd, hname⟩ := exists_parts_of_reads_genericConstructorCall hread
  have hb : Text.isBlank b = true := by
    rw [Text.allBlank, List.all_cons, Bool.and_eq_true] at hbs
    exact hbs.1
  have hr : r.isCode = true := by
    rw [List.cons_append, emitted, List.append_eq_nil_iff] at hcode
    exact isCode_of_emit hcode.1 (by decide)
  have hnew : r.run ['n', 'e', 'w'] = .start := run_of_isQuiet hr (by simp) (by decide)
  have hgap : State.start.run (b :: bs) = .start := run_of_isQuiet rfl (by simp) fun c hc =>
    (isQuiet_of_isBlank (List.all_eq_true.mp hbs c hc)).1
  have hlast : n = blockKeywords := by
    have hw : readThrough? keywordNext? r m
        ((['n', 'e', 'w'] ++ ((b :: bs) ++ (gs.text 1 ++ d :: u))) ++ ['(']) = some n := by
      simpa using hw
    exact eq_blockKeywords_of_concat (by decide) hw
  obtain ⟨j, hj, hw⟩ := exists_of_readThrough?_append hw
  rw [hnew] at hw
  have hjnil := nil_not_mem_of_cons rfl (not_isWordChar_of_isBlank hb) hw
  obtain ⟨k, hk, hw⟩ := exists_of_readThrough?_append hw
  obtain rfl := eq_blockKeywords_of_blanks (List.cons_ne_nil b bs) hbs hk
  rw [hgap] at hw
  obtain ⟨i, hi, hw⟩ := exists_of_readThrough?_append hw
  have hcode : (State.start.run (gs.text 1)).isCode = true :=
    isCode_run_of_isQuiet rfl fun c hc => (isQuiet_of_isPathChar (hname c hc)).1
  have hinil := nil_not_mem_of_cons hcode hd hw
  have hreplaced : genericConstructorCall.replacement o =
      ['n', 'e', 'w'] ++ ([' '] ++ (gs.text 1 ++ ['('])) := by
    simp only [genericConstructorCall, hgroups, List.append_assoc]
    rfl
  rw [hreplaced, hlast]
  refine readThrough?_append_of_eq hj ?_
  rw [hnew]
  exact readThrough?_append_of_eq (readThrough?_singleton (by decide) hjnil)
    (readThrough?_append_of_eq hi (readThrough?_singleton (by decide) hinil))

theorem keeps_keywords_nonNullAssertion : nonNullAssertion.Keeps keywordNext? := by
  intro before w after gs o r m n hread hgroups hcode hw
  obtain ⟨c, d, rfl, hfirst, hsecond, hc, hd⟩ := exists_of_reads_nonNullAssertion hread
  obtain ⟨hquiet, hbreak⟩ := isQuiet_of_endsOperand hc
  have hword : ∀ d ∈ followers, Text.isWordChar d = false := by decide
  have hr : r.isCode = true := by
    rw [emitted, List.append_eq_nil_iff] at hcode
    exact isCode_of_emit hcode.1 hbreak
  have hstep := (step_of_isQuiet hr hquiet).1
  have hreplaced : nonNullAssertion.replacement o = [c, d] := by
    simp [nonNullAssertion, hgroups, hfirst, hsecond]
  obtain ⟨j, hj, hw⟩ := exists_next?_of_readThrough?_cons hw
  rw [hstep] at hw
  have hnil := nil_not_mem_of_cons rfl (by decide) hw
  obtain ⟨k, hk, hw⟩ := exists_next?_of_readThrough?_cons hw
  rw [keywordNext?_of_not_isPathChar (by decide) fun _ => hnil, Option.some.injEq] at hk
  have hsame : keywordNext? .start j d = keywordNext? .start blockKeywords d := by
    rw [keywordNext?, keywordNext?, hword d hd, if_neg hnil, if_neg nil_not_mem_blockKeywords]
    rfl
  rw [← hk, start_of_isQuiet isQuiet_mark, readThrough?, ← hsame] at hw
  rw [hreplaced, readThrough?, hj, Option.bind_some, hstep, readThrough?, ← hw]

theorem exists_readThrough?_applyAll {t : Text} {k : Nat} {l : CastLead}
    (hdots : readThrough? dotsNext? .start 0 t = some k)
    (hcasts : readThrough? castNext? .start .far t = some l) :
    ∃ ns, readThrough? keywordNext? .start blockKeywords (applyAll t) = some ns ∧ [] ∉ ns := by
  have hdots₁ := keeps_typedDeclaration.1.apply exchanges_typedDeclaration hdots
  have hcasts₁ := keeps_typedDeclaration.2.apply exchanges_typedDeclaration hcasts
  have hdots₂ :=
    keeps_typedDeclarationWithoutValue.1.apply exchanges_typedDeclarationWithoutValue hdots₁
  have hcasts₂ :=
    keeps_typedDeclarationWithoutValue.2.apply exchanges_typedDeclarationWithoutValue hcasts₁
  obtain ⟨ns, hns, hnil⟩ := exists_readThrough?_blockScopedDeclaration
    (typedDeclarationWithoutValue.apply (typedDeclaration.apply t))
  have hdots₃ := keeps_blockScopedDeclaration.1.apply exchanges_blockScopedDeclaration hdots₂
  have hcasts₃ := keeps_blockScopedDeclaration.2.apply exchanges_blockScopedDeclaration hcasts₂
  have hcasts₅ := keeps_cast_genericConstructorCall.apply exchanges_genericConstructorCall hcasts₃
  have hns₅ := keeps_keywords_genericConstructorCall.apply exchanges_genericConstructorCall hns
  have hns₇ := keeps_keywords_nonNullAssertion.apply exchanges_nonNullAssertion hns₅
  refine ⟨ns, ?_, hnil⟩
  simp only [applyAll, all, List.foldl_cons, List.foldl_nil]
  rwa [apply_arraySpreadCopy hdots₃, apply_cast hcasts₅]

end Passes

end Substitution

theorem HasNoAs.castsApart {t : Text} (h : HasNoAs t) : CastsApart t := by
  rintro p ws c u rfl hne hws hc -
  obtain ⟨v, d, rfl, hd⟩ := Substitution.exists_of_allBlank hne hws
  rw [h (p ++ v) d c u (by simp) hd] at hc
  cases hc

namespace Procedure

variable {raw : Text}

theorem hasNoAs_normalizeIndentation (h : HasNoAs raw) : HasNoAs (normalizeIndentation raw) := by
  obtain ⟨v, ⟨x, y, rfl⟩, hreflows⟩ := exists_reflows_infix raw
  intro a c d b hsplit hc
  by_contra hd
  rw [hsplit] at hreflows
  obtain ⟨a', c', d', b', rfl, hc', hd'⟩ := hreflows.exists_between_blanks (w := ['a', 's'])
    (by decide) hc (by simpa using hd)
  rw [h (x ++ a') c' d' (b' ++ y) (by simp) hc'] at hd'
  cases hd'

/-- A body without arrows, spreads and casts comes out without a block-scoping keyword in code,
while those in its literals stay with the literals. -/
theorem blockKeywords_rewriteBody (harrows : ¬ ("=>" : Text) <:+: raw)
    (hspreads : ¬ ("..." : Text) <:+: raw) (has : HasNoAs raw) :
    (∀ a kw b, rewriteBody raw = a ++ (kw ++ b) → kw ∈ Substitution.blockKeywords →
      (∀ c ∈ a.getLast?, Substitution.isPathChar c = false) →
      (∀ c ∈ b.head?, Text.isWordChar c = false) → inLiteral (rewriteBody raw) a.length = true) ∧
    (literalRanges (rewriteBody raw)).map (·.slice? (rewriteBody raw)) =
      (literalRanges (normalizeIndentation raw)).map (·.slice? (normalizeIndentation raw)) := by
  have hnormal := hasNoAs_normalizeIndentation has
  have harrows : ArrowFree (normalizeIndentation raw) := arrowFree_iff.mpr fun hfound =>
    harrows (infix_of_normalizeIndentation (by decide) hfound)
  obtain ⟨hfree, hemitted⟩ := Substitution.applyAll_spec hnormal.castsApart harrows
  have hbody : rewriteBody raw = Substitution.applyAll (normalizeIndentation raw) := by
    refine rewriteBody_of_next?_eq_none rfl
      (Arrow.next?_eq_none fun u ws v hsplit _ => absurd ⟨u, ws ++ '\x7b' :: v, ?_⟩
        (arrowFree_iff.mp hfree))
    rw [hsplit, List.append_assoc]
  rw [hbody]
  constructor
  · obtain ⟨k, hdots⟩ := exists_dots (s := .start) (t := normalizeIndentation raw) (k := 0)
      (Nat.zero_le 2) fun hfound => hspreads (infix_of_normalizeIndentation (by decide) hfound)
    obtain ⟨l, hcasts⟩ := HasNoAs.exists_readThrough? (s := .start) (l := .far) (t := [])
      (u := normalizeIndentation raw) hnormal trivial
    obtain ⟨ns, hns, hnil⟩ := Substitution.exists_readThrough?_applyAll hdots hcasts
    intro a kw b hsplit hkw ha hb
    rw [hsplit] at hns ⊢
    obtain ⟨c, u, rfl, hletters, -⟩ := Substitution.of_mem_blockKeywords kw hkw
    have hbreak : c ≠ '\n' := by
      rintro rfl
      exact absurd (hletters '\n' (by simp)) (by decide)
    by_contra hcode
    rw [Bool.not_eq_true] at hcode
    have hcode := Arrow.isCode_of_not_inLiteral (t := u ++ b) hbreak (by simpa using hcode)
    rw [Substitution.not_isCode_of_readThrough? ha hkw hb hns hnil] at hcode
    cases hcode
  · rw [slice?_literalRanges, slice?_literalRanges, literalTexts_eq, literalTexts_eq, hemitted]

def tallySource : Text :=
  "\n    const last: number = 1; // let as,\n    let\ts = 'const', list = new Set<A>();\n" ++
    "    for (let i of s!.let) \x7b a.const = `let $\x7bi\x7d`; \x7d\n"

theorem blockKeywords_rewriteBody_tallySource :
    ¬ ("=>" : Text) <:+: tallySource ∧ ¬ ("..." : Text) <:+: tallySource ∧ HasNoAs tallySource ∧
      rewriteBody tallySource = ("var last = 1; // let as,\nvar\ts = 'const', list = new Set();\n" ++
        "for (var i of s.let) \x7b a.const = `let $\x7bi\x7d`; \x7d" : Text) ∧
      (∀ a kw b, rewriteBody tallySource = a ++ (kw ++ b) → kw ∈ Substitution.blockKeywords →
        (∀ c ∈ a.getLast?, Substitution.isPathChar c = false) →
        (∀ c ∈ b.head?, Text.isWordChar c = false) →
        inLiteral (rewriteBody tallySource) a.length = true) ∧
      (literalRanges (rewriteBody tallySource)).map (·.slice? (rewriteBody tallySource)) =
        (literalRanges (normalizeIndentation tallySource)).map
          (·.slice? (normalizeIndentation tallySource)) := by
  have harrows : ¬ ("=>" : Text) <:+: tallySource := by decide +kernel
  have hspreads : ¬ ("..." : Text) <:+: tallySource := by decide +kernel
  have has : HasNoAs tallySource := by decide +kernel
  exact ⟨harrows, hspreads, has, by decide +kernel, blockKeywords_rewriteBody harrows hspreads has⟩

end Procedure

end CanvasPage
