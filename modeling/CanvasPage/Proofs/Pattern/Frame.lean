import CanvasPage.Proofs.Pattern.Complete

namespace CanvasPage

/-- The same place in a longer text: `b`, reversed, stands before the text and `z` behind it. -/
def Cursor.frame (b z : Text) (c : Cursor) : Cursor := ⟨c.before ++ b, c.after ++ z⟩

def Capture.frame (b z : Text) (g : Capture) : Capture := ⟨g.start.frame b z, g.width⟩

/-- The same progress in a longer text, of a match that has taken `n` characters and closed the
groups `gs` before. -/
def Progress.frame (b z : Text) (n : Nat) (gs : List (Nat × Capture)) (p : Progress) : Progress :=
  ⟨p.cursor.frame b z, p.width + n, p.groups.map (fun g => (g.1, g.2.frame b z)) ++ gs⟩

def Occurrence.frame (b z : Text) (o : Occurrence) : Occurrence :=
  ⟨o.start.frame b z, o.stop.frame b z, o.width, o.groups.map fun g => (g.1, g.2.frame b z)⟩

namespace Pattern

variable {b z before : Text} {pattern : Pattern} {p q : Progress} {c : Cursor} {o : Occurrence}
  {n : Nat} {gs : List (Nat × Capture)}

def isOpenEnded : Pattern → Bool
  | seq first second | alt first second => first.isOpenEnded && second.isOpenEnded
  | star _ body | group _ body => body.isOpenEnded
  | inputEnd => false
  | empty | one _ | inputStart | wordBoundary => true

def isUnanchored : Pattern → Bool
  | seq first second | alt first second => first.isUnanchored && second.isUnanchored
  | star _ body | group _ body => body.isUnanchored
  | inputStart => false
  | empty | one _ | inputEnd | wordBoundary => true

/-- A pattern takes no notice of `b` before `before`. -/
def Ignores (pattern : Pattern) (b before : Text) : Prop :=
  before ≠ [] ∨ b = [] ∨ pattern.isUnanchored = true ∧ b.head?.any Text.isWordChar = false

theorem Ignores.mono {pattern' : Pattern} (h : pattern.Ignores b before)
    (hle : pattern.isUnanchored = true → pattern'.isUnanchored = true) :
    pattern'.Ignores b before :=
  h.imp_right (·.imp_right (·.imp_left hle))

/-- A match that ends before `z` does. -/
def staysBefore (z : Text) (q : Progress) : Bool := z.length ≤ q.cursor.after.length

theorem staysBefore_frame (b z : Text) (n : Nat) (gs : List (Nat × Capture)) (p : Progress) :
    staysBefore z (p.frame b z n gs) = true := by
  simp [staysBefore, Progress.frame, Cursor.frame]

theorem staysBefore_of_mem_ends (h : q ∈ pattern.ends p) (hq : staysBefore z q = true) :
    staysBefore z p = true := by
  have hsum := width_add_length_of_mem_ends h
  obtain ⟨w, _, -, -, hwidth, -⟩ := advances_of_mem_ends h
  simp only [staysBefore, decide_eq_true_eq] at hq ⊢
  omega

theorem filter_flatMap_ends {f : Progress → List Progress} (qs : List Progress)
    (hf : ∀ q, ∀ r ∈ f q, staysBefore z r = true → staysBefore z q = true) :
    (qs.flatMap f).filter (staysBefore z) =
      (qs.filter (staysBefore z)).flatMap fun q => (f q).filter (staysBefore z) := by
  induction qs with
  | nil => rfl
  | cons q qs ih =>
    rw [List.flatMap_cons, List.filter_append, ih]
    cases hq : staysBefore z q with
    | true => rw [List.filter_cons_of_pos hq, List.flatMap_cons]
    | false =>
      have hnone : (f q).filter (staysBefore z) = [] :=
        List.filter_eq_nil_iff.mpr fun r hr hstays => by rw [hf q r hr hstays] at hq; cases hq
      rw [List.filter_cons_of_neg (by simp [hq]), hnone, List.nil_append]

section Ends

theorem atWordBoundary_frame (hz : z.head?.any Text.isWordChar = false)
    (hb : wordBoundary.Ignores b c.before) : (c.frame b z).atWordBoundary = c.atWordBoundary := by
  have hbefore : (c.before ++ b).head?.any Text.isWordChar = c.before.head?.any Text.isWordChar := by
    cases hc : c.before with
    | cons d t => rfl
    | nil =>
      rcases hb with hb | rfl | ⟨-, hb⟩
      · exact absurd hc hb
      · rfl
      · rw [List.nil_append, hb]
        rfl
  have hafter : (c.after ++ z).head?.any Text.isWordChar = c.after.head?.any Text.isWordChar := by
    cases hc : c.after with
    | nil => rw [List.nil_append, hz]; rfl
    | cons d t => rfl
  rw [Cursor.atWordBoundary, Cursor.atWordBoundary, Cursor.frame, hbefore, hafter]

theorem Ignores.of_mem_ends (hb : pattern.Ignores b p.cursor.before) {pattern' : Pattern}
    (h : q ∈ pattern'.ends p) : pattern.Ignores b q.cursor.before := by
  refine hb.imp_left fun hne hnil => hne ?_
  obtain ⟨w, _, -, hbefore, -⟩ := advances_of_mem_ends h
  rw [hnil] at hbefore
  exact (List.append_eq_nil_iff.mp hbefore.symm).2

theorem filter_frame (b z : Text) (n : Nat) (gs : List (Nat × Capture)) (p : Progress) :
    [p.frame b z n gs].filter (staysBefore z) = [p.frame b z n gs] :=
  List.filter_cons_of_pos (staysBefore_frame b z n gs p)

theorem take_frame (b z : Text) (n : Nat) (gs : List (Nat × Capture)) (p : Progress) (d : Char)
    (rest : Text) : (p.frame b z n gs).take d (rest ++ z) = (p.take d rest).frame b z n gs := by
  simp [Progress.take, Progress.frame, Cursor.frame, Nat.add_right_comm]

theorem close_frame (b z : Text) (n : Nat) (gs : List (Nat × Capture)) (p q : Progress) (i : Nat) :
    (q.frame b z n gs).close i (p.frame b z n gs) = (q.close i p).frame b z n gs := by
  have hwidth : q.width + n - (p.width + n) = q.width - p.width := Nat.add_sub_add_right _ _ _
  simp only [Progress.close, Progress.frame, Capture.frame, hwidth]
  rfl

theorem filter_ends_one_frame (test : Char → Bool) :
    ((one test).ends (p.frame b z n gs)).filter (staysBefore z) =
      ((one test).ends p).map (Progress.frame b z n gs) := by
  cases hafter : p.cursor.after with
  | nil =>
    -- the text is used up, so a character would be one of `z`
    have hnone : ∀ q ∈ (one test).ends (p.frame b z n gs), staysBefore z q = false := by
      intro q hq
      have hsum := width_add_length_of_mem_ends hq
      obtain ⟨w, _, -, -, hwidth, -, ⟨c, -, rfl⟩, -⟩ := advances_of_mem_ends hq
      simp only [Progress.frame, Cursor.frame, hafter, List.nil_append, List.length_singleton]
        at hsum hwidth
      simp only [staysBefore, decide_eq_false_iff_not]
      omega
    have hnil : (one test).ends p = [] := by rw [ends, hafter]
    rw [hnil, List.map_nil]
    exact List.filter_eq_nil_iff.mpr fun q hq hstays => by rw [hnone q hq] at hstays; cases hstays
  | cons c rest =>
    have hframe : (p.frame b z n gs).cursor.after = c :: (rest ++ z) := by
      simp [Progress.frame, Cursor.frame, hafter]
    rw [ends, ends, hafter, hframe]
    dsimp only
    split
    · rw [take_frame]
      exact filter_frame b z n gs (p.take c rest)
    · rfl

theorem filter_ends_star_frame {body : Pattern} (greedy : Bool)
    (hbody : ∀ p : Progress, body.Ignores b p.cursor.before →
      (body.ends (p.frame b z n gs)).filter (staysBefore z) =
        (body.ends p).map (Progress.frame b z n gs))
    (hb : body.Ignores b p.cursor.before) :
    ((star greedy body).ends (p.frame b z n gs)).filter (staysBefore z) =
      ((star greedy body).ends p).map (Progress.frame b z n gs) := by
  induction hn : p.cursor.after.length using Nat.strongRecOn generalizing p with
  | ind m hrounds =>
    have hwidth : ∀ p : Progress, (p.frame b z n gs).width = p.width + n := fun _ => rfl
    have hmore : (((body.ends (p.frame b z n gs)).flatMap fun q =>
          if p.width + n < q.width then (star greedy body).ends q else []).filter (staysBefore z)) =
        ((body.ends p).flatMap fun q =>
          if p.width < q.width then (star greedy body).ends q else []).map (.frame b z n gs) := by
      rw [filter_flatMap_ends, hbody p hb, List.flatMap_map, List.map_flatMap]
      · refine List.flatMap_congr fun q hq => ?_
        have hsum := width_add_length_of_mem_ends hq
        by_cases hlt : p.width < q.width
        · rw [hwidth, if_pos (by omega), if_pos hlt]
          exact hrounds _ (by omega) (hb.of_mem_ends hq) rfl
        · rw [hwidth, if_neg (by omega), if_neg hlt]
          rfl
      · intro q r hr
        split at hr
        · exact staysBefore_of_mem_ends hr
        · cases hr
    rw [ends_star, ends_star, hwidth]
    cases greedy with
    | true =>
      simp only [if_true, List.filter_append, List.map_append, filter_frame]
      rw [hmore]
      rfl
    | false =>
      simp only [Bool.false_eq_true, if_false]
      rw [List.filter_cons_of_pos (staysBefore_frame b z n gs p), hmore]
      rfl

theorem isEmpty_before_frame (hb : inputStart.Ignores b c.before) :
    (c.frame b z).before.isEmpty = c.before.isEmpty := by
  show (c.before ++ b).isEmpty = c.before.isEmpty
  rcases hb with hb | rfl | ⟨hb, -⟩
  · obtain ⟨d, u, hd⟩ := List.exists_cons_of_ne_nil hb
    rw [hd]
    rfl
  · rw [List.append_nil]
  · cases hb

/-- In a longer text a pattern matches as it did, in the same order, apart from the matches that go
beyond the old one. -/
theorem filter_ends_frame (hend : pattern.isOpenEnded = true) (hz : z.head?.any Text.isWordChar = false)
    (hb : pattern.Ignores b p.cursor.before) :
    (pattern.ends (p.frame b z n gs)).filter (staysBefore z) =
      (pattern.ends p).map (Progress.frame b z n gs) := by
  induction pattern generalizing p with
  | empty => exact filter_frame b z n gs p
  | one test => exact filter_ends_one_frame test
  | seq first second ih₁ ih₂ =>
    rw [isOpenEnded, Bool.and_eq_true] at hend
    have hb₁ : first.Ignores b p.cursor.before :=
      hb.mono fun h => (Bool.and_eq_true_iff.mp h).1
    have hb₂ : second.Ignores b p.cursor.before :=
      hb.mono fun h => (Bool.and_eq_true_iff.mp h).2
    rw [ends, ends, filter_flatMap_ends _ fun q r hr => staysBefore_of_mem_ends hr, ih₁ hend.1 hb₁,
      List.flatMap_map, List.map_flatMap]
    exact List.flatMap_congr fun q hq => ih₂ hend.2 (hb₂.of_mem_ends hq)
  | alt first second ih₁ ih₂ =>
    rw [isOpenEnded, Bool.and_eq_true] at hend
    rw [ends, ends, List.filter_append, ih₁ hend.1 (hb.mono fun h => (Bool.and_eq_true_iff.mp h).1),
      ih₂ hend.2 (hb.mono fun h => (Bool.and_eq_true_iff.mp h).2), List.map_append]
  | star greedy body ih =>
    exact filter_ends_star_frame greedy (fun p hb => ih hend hb) (hb.mono id)
  | group index body ih =>
    have hstays : staysBefore z ∘ (Progress.close · index (p.frame b z n gs)) = staysBefore z := rfl
    rw [ends, ends, List.filter_map, hstays, ih hend (hb.mono id), List.map_map, List.map_map]
    exact List.map_congr_left fun q _ => close_frame b z n gs p q index
  | inputStart =>
    rw [ends, ends, Progress.frame, isEmpty_before_frame hb]
    split
    · exact filter_frame b z n gs p
    · rfl
  | inputEnd => cases hend
  | wordBoundary =>
    rw [ends, ends, Progress.frame, atWordBoundary_frame hz hb]
    split
    · exact filter_frame b z n gs p
    · rfl

theorem ends_frame (hend : pattern.isOpenEnded = true) (hb : pattern.Ignores b p.cursor.before) :
    pattern.ends (p.frame b [] n gs) = (pattern.ends p).map (.frame b [] n gs) := by
  rw [← filter_ends_frame hend rfl hb, eq_comm, List.filter_eq_self]
  exact fun q _ => decide_eq_true (Nat.zero_le _)

end Ends

section Search

variable {s t : Text} {i : Nat}

/-- No match that starts here goes beyond `s`. -/
def StaysIn (pattern : Pattern) (before s z : Text) : Prop :=
  ∀ w after gs, s ++ z = w ++ after → pattern.Reads before w after gs → w.length ≤ s.length

/-- No match that starts in `s` goes on behind it. -/
def StopsBefore (pattern : Pattern) (before s z : Text) : Prop :=
  ∀ x y, s = x ++ y → y ≠ [] → pattern.StaysIn (x.reverse ++ before) y z

theorem StopsBefore.cons {d : Char} (h : pattern.StopsBefore before (d :: s) z) :
    pattern.StaysIn before (d :: s) z ∧ pattern.StopsBefore (d :: before) s z := by
  refine ⟨h [] (d :: s) rfl (List.cons_ne_nil d s), fun x y hsplit hne => ?_⟩
  have hrest := h (d :: x) y (by rw [hsplit, List.cons_append]) hne
  simpa using hrest

theorem filter_ends_of_staysIn (h : pattern.StaysIn before s z) :
    (pattern.ends (.start ⟨before, s ++ z⟩)).filter (staysBefore z) =
      pattern.ends (.start ⟨before, s ++ z⟩) := by
  rw [List.filter_eq_self]
  intro q hq
  obtain ⟨w, gs, hw, -, hwidth, -, hread⟩ := advances_of_mem_ends hq
  have hsum := width_add_length_of_mem_ends hq
  have hlength := h w q.cursor.after gs hw hread
  simp only [Progress.start, List.length_append] at hsum hwidth
  simp only [staysBefore, decide_eq_true_eq]
  omega

theorem at?_eq_map_frame {pattern' : Pattern} (h : pattern.ends (.start (c.frame b z)) =
      (pattern'.ends (.start c)).map (.frame b z 0 [])) :
    pattern.at? (c.frame b z) = (pattern'.at? c).map (.frame b z) := by
  rw [at?, at?, h, List.head?_map]
  cases (pattern'.ends (.start c)).head? with
  | none => rfl
  | some q =>
    rw [Option.map_some]
    dsimp only [Progress.frame]
    rw [Nat.add_zero, List.append_nil]
    split
    · rfl
    · rfl

theorem at?_frame (hend : pattern.isOpenEnded = true) (hz : z.head?.any Text.isWordChar = false)
    (hb : pattern.Ignores b before) (h : pattern.StaysIn (before ++ b) s z) :
    pattern.at? ⟨before ++ b, s ++ z⟩ = (pattern.at? ⟨before, s⟩).map (.frame b z) := by
  have hends : (pattern.ends ((Progress.start ⟨before, s⟩).frame b z 0 [])).filter (staysBefore z) =
      (pattern.ends (.start ⟨before, s⟩)).map (Progress.frame b z 0 []) :=
    filter_ends_frame hend hz hb
  have hstart : (Progress.start ⟨before, s⟩).frame b z 0 [] = .start ⟨before ++ b, s ++ z⟩ := rfl
  rw [hstart, filter_ends_of_staysIn h] at hends
  exact at?_eq_map_frame (c := ⟨before, s⟩) hends

/-- The groups of a match stand in the text with all that they hold. -/
def Fits (groups : List (Nat × Capture)) : Prop :=
  ∀ g ∈ groups, g.2.width ≤ g.2.start.after.length

theorem fits_of_mem_ends (h : q ∈ pattern.ends p) (hp : Fits p.groups) : Fits q.groups := by
  induction pattern generalizing p q with
  | empty =>
    rw [List.mem_singleton.mp h]
    exact hp
  | one test =>
    rw [ends] at h
    split at h
    · cases h
    · split at h
      · rw [List.mem_singleton.mp h]
        exact hp
      · cases h
  | seq first second ih₁ ih₂ =>
    obtain ⟨r, hr, hq⟩ := List.mem_flatMap.mp h
    exact ih₂ hq (ih₁ hr hp)
  | alt first second ih₁ ih₂ => exact (List.mem_append.mp h).elim (ih₁ · hp) (ih₂ · hp)
  | star greedy body ih =>
    exact forall_mem_rounds (P := fun r => Fits r.groups) (fun r hr q hq => ih hq hr) greedy _ p hp
      [] (by simp) q h
  | group index body ih =>
    obtain ⟨r, hr, rfl⟩ := List.mem_map.mp h
    have hsum := width_add_length_of_mem_ends hr
    refine List.forall_mem_cons.mpr ⟨?_, ih hr hp⟩
    show r.width - p.width ≤ p.cursor.after.length
    omega
  | inputStart | inputEnd | wordBoundary =>
    rw [ends] at h
    split at h
    · rw [List.mem_singleton.mp h]
      exact hp
    · cases h

theorem fits_of_at? (h : pattern.at? c = some o) : Fits o.groups := by
  rw [at?] at h
  split at h
  · rename_i q hq
    split at h
    · obtain rfl := Option.some.inj h
      exact fits_of_mem_ends (List.mem_of_head? hq) (by simp [Fits, Progress.start])
    · cases h
  · cases h

theorem text_frame {g : Capture} (h : g.width ≤ g.start.after.length) :
    (g.frame b z).text = g.text :=
  List.take_append_of_le_length h

theorem group?_frame (o : Occurrence) (i : Nat) :
    (o.frame b z).group? i = (o.group? i).map (.frame b z) := by
  have hindex : ((fun g : Nat × Capture => g.1 == i) ∘ fun g : Nat × Capture =>
      (g.1, g.2.frame b z)) = fun g => g.1 == i := rfl
  rw [Occurrence.group?, Occurrence.group?, Occurrence.frame, List.find?_map, hindex,
    Option.map_map, Option.map_map]
  rfl

theorem groupText_frame (h : pattern.at? c = some o) (i : Nat) :
    (o.frame b z).groupText i = o.groupText i := by
  rw [Occurrence.groupText, Occurrence.groupText, group?_frame]
  cases hg : o.group? i with
  | none => rfl
  | some g =>
    obtain ⟨⟨j, g'⟩, hfind, rfl⟩ := Option.map_eq_some_iff.mp hg
    have hfits := fits_of_at? h _ (List.mem_of_find?_eq_some hfind)
    simp only [Option.map_some, Option.getD_some]
    exact text_frame hfits

/-- A replacement that depends on the texts of the groups alone. -/
def IsTextual (new : Occurrence → Text) : Prop :=
  ∀ o o' : Occurrence, (∀ i, o.groupText i = o'.groupText i) → new o = new o'

variable {new : Occurrence → Text}

/-- What the search does at `d`, whatever follows that no match here reaches: it puts in a text and
goes on behind it. -/
theorem exists_replaceFrom_cons (hend : pattern.isOpenEnded = true) (hnew : IsTextual new) (d : Char)
    (s before : Text) : ∃ out covered, covered ≤ s.length ∧
      pattern.replaceFrom new 0 before (d :: s) =
        out ++ pattern.replaceFrom new covered (d :: before) s ∧
      ∀ z, z.head?.any Text.isWordChar = false → pattern.StaysIn before (d :: s) z →
        pattern.replaceFrom new 0 before (d :: (s ++ z)) =
          out ++ pattern.replaceFrom new covered (d :: before) (s ++ z) := by
  have hat : ∀ z, z.head?.any Text.isWordChar = false → pattern.StaysIn before (d :: s) z →
      pattern.at? ⟨before, d :: (s ++ z)⟩ = (pattern.at? ⟨before, d :: s⟩).map (.frame [] z) := by
    intro z hz hstays
    have hframe := at?_frame (b := []) hend hz (.inr (.inl rfl)) (by rwa [List.append_nil])
    rwa [List.append_nil, List.cons_append] at hframe
  cases ho : pattern.at? ⟨before, d :: s⟩ with
  | none =>
    refine ⟨[d], 0, Nat.zero_le _, by rw [replaceFrom, ho]; rfl, fun z hz hstays => ?_⟩
    rw [replaceFrom, hat z hz hstays, ho]
    rfl
  | some o =>
    obtain ⟨w, _, hne, hafter, -, hwidth, -⟩ := exists_reads_of_at? ho
    have hlength := congrArg List.length hafter
    simp only [List.length_cons, List.length_append] at hlength
    refine ⟨new o, o.width - 1, by omega, by rw [replaceFrom, ho], fun z hz hstays => ?_⟩
    have hsame : new (o.frame [] z) = new o := hnew _ _ (groupText_frame ho)
    rw [replaceFrom, hat z hz hstays, ho, Option.map_some]
    dsimp only
    rw [hsame]
    rfl

theorem replaceFrom_append (hend : pattern.isOpenEnded = true) (hz : z.head?.any Text.isWordChar = false)
    (hnew : IsTextual new) (h : pattern.StopsBefore before s z) {covered : Nat}
    (hcovered : covered ≤ s.length) :
    pattern.replaceFrom new covered before (s ++ z) =
      pattern.replaceFrom new covered before s ++
        pattern.replaceFrom new 0 (s.reverse ++ before) z := by
  induction s generalizing before covered with
  | nil =>
    obtain rfl := Nat.le_zero.mp hcovered
    rfl
  | cons d s ih =>
    obtain ⟨hstays, hrest⟩ := h.cons
    rw [List.cons_append, List.reverse_cons, List.append_assoc, List.singleton_append]
    cases covered with
    | succ covered =>
      rw [replaceFrom, replaceFrom, ih hrest (Nat.le_of_succ_le_succ hcovered)]
    | zero =>
      obtain ⟨out, covered, hcovered, halone, hfollowed⟩ :=
        exists_replaceFrom_cons hend hnew d s before
      rw [hfollowed z hz hstays, halone, ih hrest hcovered, List.append_assoc]

/-- Two texts that follow `s` are each searched on their own, unless from some place in `s` on the
search comes out the same with both. -/
theorem replaceFrom_append_or {z' : Text} (hend : pattern.isOpenEnded = true) (hnew : IsTextual new)
    (hz : z.head?.any Text.isWordChar = false) (hz' : z'.head?.any Text.isWordChar = false)
    (h : ∀ x y, s = x ++ y → y ≠ [] →
      pattern.replaceFrom new 0 (x.reverse ++ before) (y ++ z) =
          pattern.replaceFrom new 0 (x.reverse ++ before) (y ++ z') ∨
        pattern.StaysIn (x.reverse ++ before) y z ∧ pattern.StaysIn (x.reverse ++ before) y z')
    {covered : Nat} (hcovered : covered ≤ s.length) :
    pattern.replaceFrom new covered before (s ++ z) = pattern.replaceFrom new covered before (s ++ z') ∨
      ∀ u ∈ [z, z'], pattern.replaceFrom new covered before (s ++ u) =
        pattern.replaceFrom new covered before s ++
          pattern.replaceFrom new 0 (s.reverse ++ before) u := by
  induction s generalizing before covered with
  | nil =>
    obtain rfl := Nat.le_zero.mp hcovered
    exact .inr fun u _ => rfl
  | cons d s ih =>
    have hrest : ∀ x y, s = x ++ y → y ≠ [] →
        pattern.replaceFrom new 0 (x.reverse ++ d :: before) (y ++ z) =
            pattern.replaceFrom new 0 (x.reverse ++ d :: before) (y ++ z') ∨
          pattern.StaysIn (x.reverse ++ d :: before) y z ∧
            pattern.StaysIn (x.reverse ++ d :: before) y z' := by
      intro x y heq hy
      simpa using h (d :: x) y (by rw [heq, List.cons_append]) hy
    simp only [List.cons_append, List.reverse_cons, List.append_assoc, List.nil_append]
    cases covered with
    | succ covered =>
      simp only [replaceFrom]
      exact ih hrest (Nat.le_of_succ_le_succ hcovered)
    | zero =>
      rcases h [] (d :: s) rfl (List.cons_ne_nil d s) with heq | ⟨hstays, hstays'⟩
      · exact .inl heq
      obtain ⟨out, covered, hcovered, halone, hfollowed⟩ :=
        exists_replaceFrom_cons hend hnew d s before
      rw [hfollowed z hz hstays, hfollowed z' hz' hstays']
      rcases ih hrest hcovered with heq | hsplit
      · exact .inl (congrArg (out ++ ·) heq)
      · refine .inr fun u hu => ?_
        have hu' : pattern.replaceFrom new 0 before (d :: (s ++ u)) =
            out ++ pattern.replaceFrom new covered (d :: before) (s ++ u) := by
          rcases List.mem_pair.mp hu with rfl | rfl
          · exact hfollowed _ hz hstays
          · exact hfollowed _ hz' hstays'
        rw [hu', halone, hsplit u hu, List.append_assoc]

theorem at?_append_before (hend : pattern.isOpenEnded = true) (hb : pattern.Ignores b before)
    (t : Text) :
    pattern.at? ⟨before ++ b, t⟩ = (pattern.at? ⟨before, t⟩).map (.frame b []) := by
  have hcursor : Cursor.frame b [] ⟨before, t⟩ = ⟨before ++ b, t⟩ := by
    rw [Cursor.frame, List.append_nil]
  rw [← hcursor]
  have hends : pattern.ends ((Progress.start ⟨before, t⟩).frame b [] 0 []) =
      (pattern.ends (.start ⟨before, t⟩)).map (.frame b [] 0 []) := ends_frame hend hb
  exact at?_eq_map_frame hends

/-- What stands before the text counts only where the search begins, and there only to a pattern
that asks for it. -/
theorem replaceFrom_frame (hend : pattern.isOpenEnded = true) (hnew : IsTextual new)
    (hb : pattern.Ignores b before) (covered : Nat) (t : Text) :
    pattern.replaceFrom new covered (before ++ b) t = pattern.replaceFrom new covered before t := by
  induction t generalizing before covered with
  | nil => rfl
  | cons d t ih =>
    have ih : ∀ covered, pattern.replaceFrom new covered (d :: before ++ b) t =
        pattern.replaceFrom new covered (d :: before) t :=
      ih (.inl (List.cons_ne_nil d before))
    cases covered with
    | succ covered => rw [replaceFrom, replaceFrom, ← ih, List.cons_append]
    | zero =>
      rw [replaceFrom, replaceFrom, at?_append_before hend hb]
      cases ho : pattern.at? ⟨before, d :: t⟩ with
      | none =>
        rw [Option.map_none]
        dsimp only
        rw [← ih, List.cons_append]
      | some o =>
        have hsame : new (o.frame b []) = new o := hnew _ _ (groupText_frame ho)
        rw [Option.map_some]
        dsimp only
        rw [hsame, ← ih, List.cons_append]
        rfl

section Occurrences

theorem occurrencesFrom_frame (hend : pattern.isOpenEnded = true) (hb : pattern.Ignores b before)
    (covered : Nat) (t : Text) :
    pattern.occurrencesFrom covered (before ++ b) t =
      (pattern.occurrencesFrom covered before t).map (.frame b []) := by
  induction t generalizing before covered with
  | nil => rfl
  | cons d t ih =>
    have ih : ∀ covered, pattern.occurrencesFrom covered (d :: before ++ b) t =
        (pattern.occurrencesFrom covered (d :: before) t).map (.frame b []) :=
      ih (.inl (List.cons_ne_nil d before))
    cases covered with
    | succ covered => rw [occurrencesFrom, occurrencesFrom, ← ih, List.cons_append]
    | zero =>
      rw [occurrencesFrom, occurrencesFrom, at?_append_before hend hb]
      cases ho : pattern.at? ⟨before, d :: t⟩ with
      | none =>
        rw [Option.map_none]
        dsimp only
        rw [← ih, List.cons_append]
      | some o =>
        rw [Option.map_some]
        dsimp only
        rw [List.map_cons, ← ih, List.cons_append]
        rfl

theorem occurrencesFrom_append_of_stopsBefore (hend : pattern.isOpenEnded = true)
    (hz : z.head?.any Text.isWordChar = false) (h : pattern.StopsBefore before s z) {covered : Nat}
    (hcovered : covered ≤ s.length) :
    pattern.occurrencesFrom covered before (s ++ z) =
      (pattern.occurrencesFrom covered before s).map (.frame [] z) ++
        pattern.occurrencesFrom 0 (s.reverse ++ before) z := by
  induction s generalizing before covered with
  | nil =>
    obtain rfl := Nat.le_zero.mp hcovered
    rfl
  | cons d s ih =>
    obtain ⟨hstays, hrest⟩ := h.cons
    rw [List.cons_append, List.reverse_cons, List.append_assoc, List.singleton_append]
    cases covered with
    | succ covered =>
      rw [occurrencesFrom, occurrencesFrom, ih hrest (Nat.le_of_succ_le_succ hcovered)]
    | zero =>
      have hat := at?_frame (b := []) hend hz (.inr (.inl rfl)) (by rwa [List.append_nil])
      rw [List.append_nil, List.cons_append] at hat
      rw [occurrencesFrom, occurrencesFrom, hat]
      cases ho : pattern.at? ⟨before, d :: s⟩ with
      | none =>
        rw [Option.map_none]
        dsimp only
        rw [ih hrest (Nat.zero_le _)]
      | some o =>
        obtain ⟨w, _, hne, hafter, -, hwidth, -⟩ := exists_reads_of_at? ho
        have hlength := congrArg List.length hafter
        simp only [List.length_cons, List.length_append] at hlength
        have hframe : (o.frame [] z).width = o.width := rfl
        rw [Option.map_some]
        dsimp only
        rw [hframe, List.map_cons, ih hrest (by omega), List.cons_append]

end Occurrences

end Search

end Pattern

end CanvasPage
