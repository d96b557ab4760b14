import CanvasPage.Proofs.Pattern.Occurrence
import Mathlib.Data.List.Induction

namespace CanvasPage

abbrev GroupTexts := List (Nat × Text)

def GroupTexts.text (gs : GroupTexts) (index : Nat) : Text :=
  ((gs.find? (·.1 == index)).map (·.2)).getD []

namespace Pattern

inductive Repeated (M : Text → Text → Text → GroupTexts → Prop) (before : Text) :
    Text → Text → GroupTexts → Prop where
  | nil (after : Text) : Repeated M before [] after []
  | append {u v after : Text} {gs hs : GroupTexts} (hu : Repeated M before u (v ++ after) gs)
      (hv : M (u.reverse ++ before) v after hs) : Repeated M before (u ++ v) after (hs ++ gs)

/-- Between `before`, which is reversed, and `after` the pattern can take `w`. Its groups then hold
the texts `gs`, the latest first. -/
def Reads : Pattern → (before w after : Text) → (gs : GroupTexts) → Prop
  | empty, _, w, _, gs => w = [] ∧ gs = []
  | one test, _, w, _, gs => (∃ c, test c = true ∧ w = [c]) ∧ gs = []
  | seq first second, before, w, after, gs =>
      ∃ u v hs is, w = u ++ v ∧ gs = is ++ hs ∧ first.Reads before u (v ++ after) hs ∧
        second.Reads (u.reverse ++ before) v after is
  | alt first second, before, w, after, gs =>
      first.Reads before w after gs ∨ second.Reads before w after gs
  | star _ body, before, w, after, gs => Repeated body.Reads before w after gs
  | group index body, before, w, after, gs =>
      ∃ hs, gs = (index, w) :: hs ∧ body.Reads before w after hs
  | inputStart, before, w, _, gs => w = [] ∧ gs = [] ∧ before = []
  | inputEnd, _, w, after, gs => w = [] ∧ gs = [] ∧ after = []
  | wordBoundary, before, w, after, gs =>
      w = [] ∧ gs = [] ∧ Cursor.atWordBoundary ⟨before, after⟩ = true

end Pattern

section Soundness

def Progress.groupTexts (p : Progress) : GroupTexts := p.groups.map fun g => (g.1, g.2.text)

/-- From `p` to `q` a text is taken of which `M` holds. -/
def Progress.Advances (M : Text → Text → Text → GroupTexts → Prop) (p q : Progress) : Prop :=
  ∃ w gs, p.cursor.after = w ++ q.cursor.after ∧
    q.cursor.before = w.reverse ++ p.cursor.before ∧ q.width = p.width + w.length ∧
    q.groupTexts = gs ++ p.groupTexts ∧ M p.cursor.before w q.cursor.after gs

variable {p q r : Progress} {pattern first second body : Pattern}

theorem Progress.advances_self {M : Text → Text → Text → GroupTexts → Prop}
    (h : M p.cursor.before [] p.cursor.after []) : p.Advances M p :=
  ⟨[], [], rfl, rfl, rfl, rfl, h⟩

theorem Progress.Advances.mono {M N : Text → Text → Text → GroupTexts → Prop}
    (h : p.Advances M q) (hM : ∀ before w after gs, M before w after gs → N before w after gs) :
    p.Advances N q := by
  obtain ⟨w, gs, hw, hb, hwidth, hgs, hread⟩ := h
  exact ⟨w, gs, hw, hb, hwidth, hgs, hM _ _ _ _ hread⟩

theorem Progress.Advances.trans {L M N : Text → Text → Text → GroupTexts → Prop}
    (hpq : p.Advances L q) (hqr : q.Advances M r)
    (hN : ∀ before u v after gs hs, L before u (v ++ after) gs →
      M (u.reverse ++ before) v after hs → N before (u ++ v) after (hs ++ gs)) :
    p.Advances N r := by
  obtain ⟨u, gs, hu, hub, huw, hug, hfirst⟩ := hpq
  obtain ⟨v, hs, hv, hvb, hvw, hvg, hsecond⟩ := hqr
  refine ⟨u ++ v, hs ++ gs, ?_, ?_, ?_, ?_, hN _ _ _ _ _ _ ?_ ?_⟩
  · rw [hu, hv, List.append_assoc]
  · rw [hvb, hub, List.reverse_append, List.append_assoc]
  · rw [hvw, huw, List.length_append, Nat.add_assoc]
  · rw [hvg, hug, List.append_assoc]
  · rwa [← hv]
  · rwa [← hub]

theorem Progress.Advances.append (hpq : p.Advances first.Reads q)
    (hqr : q.Advances second.Reads r) : p.Advances (first ++ second).Reads r :=
  hpq.trans hqr fun _ u v _ gs hs hu hv => ⟨u, v, gs, hs, rfl, rfl, hu, hv⟩

theorem Progress.Advances.again (hpq : p.Advances (Pattern.Repeated body.Reads) q)
    (hqr : q.Advances body.Reads r) : p.Advances (Pattern.Repeated body.Reads) r :=
  hpq.trans hqr fun _ _ _ _ _ _ hu hv => .append hu hv

theorem Progress.Advances.close (h : p.Advances body.Reads q) (index : Nat) :
    p.Advances (Pattern.group index body).Reads (q.close index p) := by
  obtain ⟨w, gs, hw, hb, hwidth, hgs, hread⟩ := h
  have htext : Capture.text ⟨p.cursor, q.width - p.width⟩ = w := by
    rw [Capture.text, hwidth, hw, Nat.add_sub_cancel_left, List.take_left]
  refine ⟨w, (index, w) :: gs, hw, hb, hwidth, ?_, gs, rfl, hread⟩
  rw [groupTexts, Progress.close, List.map_cons, htext, List.cons_append]
  exact congrArg _ hgs

theorem Pattern.advances_of_mem_ends (h : q ∈ pattern.ends p) : p.Advances pattern.Reads q := by
  induction pattern generalizing p q with
  | empty =>
    rw [List.mem_singleton.mp h]
    exact Progress.advances_self ⟨rfl, rfl⟩
  | one test =>
    rw [ends] at h
    split at h
    · simp at h
    · rename_i c rest hc
      split at h
      · rename_i htest
        rw [List.mem_singleton.mp h]
        exact ⟨[c], [], hc, rfl, rfl, rfl, ⟨c, htest, rfl⟩, rfl⟩
      · simp at h
  | seq first second ih₁ ih₂ =>
    obtain ⟨r, hr, hq⟩ := List.mem_flatMap.mp h
    exact (ih₁ hr).append (ih₂ hq)
  | alt first second ih₁ ih₂ =>
    rcases List.mem_append.mp h with h | h
    · exact (ih₁ h).mono fun _ _ _ _ => .inl
    · exact (ih₂ h).mono fun _ _ _ _ => .inr
  | star greedy body ih =>
    have hbody : ∀ r, p.Advances (Repeated body.Reads) r → ∀ q ∈ body.ends r,
        p.Advances (Repeated body.Reads) q := fun r hr q hq => hr.again (ih hq)
    have hnone : p.Advances (Repeated body.Reads) p := Progress.advances_self (.nil _)
    exact forall_mem_rounds hbody greedy _ p hnone [] (by simp) q h
  | group index body ih =>
    obtain ⟨r, hr, rfl⟩ := List.mem_map.mp h
    exact (ih hr).close index
  | inputStart | inputEnd =>
    rw [ends] at h
    split at h
    · rename_i hempty
      rw [List.mem_singleton.mp h]
      exact Progress.advances_self ⟨rfl, rfl, List.isEmpty_iff.mp hempty⟩
    · simp at h
  | wordBoundary =>
    rw [ends] at h
    split at h
    · rename_i hboundary
      rw [List.mem_singleton.mp h]
      exact Progress.advances_self ⟨rfl, rfl, hboundary⟩
    · simp at h

theorem Pattern.exists_reads_of_at? {c : Cursor} {o : Occurrence} (h : pattern.at? c = some o) :
    ∃ w gs, w ≠ [] ∧ c.after = w ++ o.stop.after ∧ o.stop.before = w.reverse ++ c.before ∧
      o.width = w.length ∧ o.start = c ∧ (∀ i, o.groupText i = gs.text i) ∧
      pattern.Reads c.before w o.stop.after gs := by
  rw [at?] at h
  split at h
  · rename_i q hq
    split at h
    · rename_i hpos
      obtain rfl := Option.some.inj h
      obtain ⟨w, gs, hw, hb, hwidth, hgs, hread⟩ := advances_of_mem_ends (List.mem_of_head? hq)
      have hzero : (Progress.start c).width = 0 := rfl
      rw [hzero, Nat.zero_add] at hwidth
      refine ⟨w, gs, ?_, hw, hb, hwidth, rfl, fun i => ?_, hread⟩
      · rintro rfl
        rw [hwidth] at hpos
        exact absurd hpos (Nat.lt_irrefl 0)
      · have hgroups : gs = q.groups.map fun g => (g.1, g.2.text) := by
          rw [← Progress.groupTexts, hgs]
          exact (List.append_nil gs).symm
        have hindex : ((fun g : Nat × Text => g.1 == i) ∘ fun g : Nat × Capture =>
            (g.1, g.2.text)) = fun g => g.1 == i := rfl
        rw [Occurrence.groupText, Occurrence.group?, GroupTexts.text, hgroups, List.find?_map,
          hindex, Option.map_map, Option.map_map]
        rfl
    · cases h
  · cases h

end Soundness

namespace Pattern

section Inversion

variable {before w after t : Text} {gs : GroupTexts} {first second body : Pattern}
  {test : Char → Bool} {greedy : Bool} {index : Nat}

theorem reads_append : (first ++ second).Reads before w after gs ↔
    ∃ u v hs is, w = u ++ v ∧ gs = is ++ hs ∧ first.Reads before u (v ++ after) hs ∧
      second.Reads (u.reverse ++ before) v after is := Iff.rfl

theorem reads_assoc (p q r : Pattern) :
    (p ++ q ++ r).Reads before w after gs ↔ (p ++ (q ++ r)).Reads before w after gs := by
  simp only [reads_append]
  constructor
  · rintro ⟨_, v, _, is, rfl, rfl, ⟨u₁, u₂, gs₁, gs₂, rfl, rfl, hp, hq⟩, hr⟩
    refine ⟨u₁, u₂ ++ v, gs₁, is ++ gs₂, List.append_assoc _ _ _, ?_, ?_, u₂, v, gs₂, is, rfl, rfl,
      hq, ?_⟩
    · exact (List.append_assoc _ _ _).symm
    · rwa [List.append_assoc]
    · rwa [List.reverse_append, List.append_assoc] at hr
  · rintro ⟨u₁, _, gs₁, _, rfl, rfl, hp, u₂, v, gs₂, is, rfl, rfl, hq, hr⟩
    refine ⟨u₁ ++ u₂, v, gs₂ ++ gs₁, is, (List.append_assoc _ _ _).symm, List.append_assoc _ _ _,
      ⟨u₁, u₂, gs₁, gs₂, rfl, rfl, ?_, hq⟩, ?_⟩
    · rwa [List.append_assoc] at hp
    · rwa [List.reverse_append, List.append_assoc]

theorem reads_literal (t : Text) : (literal t).Reads before w after gs ↔ w = t ∧ gs = [] := by
  fun_induction literal t generalizing before w gs with
  | case1 => exact Iff.rfl
  | case2 c => simp [Reads]
  | case3 c rest hrest ih =>
    rw [reads_append]
    simp only [ih, Reads]
    constructor
    · rintro ⟨u, v, hs, is, rfl, rfl, ⟨⟨d, hd, rfl⟩, rfl⟩, rfl, rfl⟩
      obtain rfl := beq_iff_eq.mp hd
      exact ⟨rfl, rfl⟩
    · rintro ⟨rfl, rfl⟩
      exact ⟨[c], rest, [], [], rfl, rfl, ⟨⟨c, beq_self_eq_true c, rfl⟩, rfl⟩, rfl, rfl⟩

theorem reads_anyOf (ps : List Pattern) :
    (anyOf ps).Reads before w after gs ↔ ∃ p ∈ ps, p.Reads before w after gs := by
  fun_induction anyOf ps with
  | case1 => simp [Reads]
  | case2 p => simp
  | case3 p ps hps ih => simp [Reads, ih]

theorem reads_one :
    (one test).Reads before w after gs ↔ (∃ c, test c = true ∧ w = [c]) ∧ gs = [] := Iff.rfl

theorem reads_star_one : (star greedy (one test)).Reads before w after gs ↔
    (∀ c ∈ w, test c = true) ∧ gs = [] := by
  constructor
  · intro h
    rw [Reads] at h
    induction h with
    | nil => simp
    | append hu hv ih =>
      obtain ⟨⟨c, hc, rfl⟩, rfl⟩ := hv
      obtain ⟨htest, rfl⟩ := ih
      refine ⟨fun d hd => ?_, rfl⟩
      rcases List.mem_append.mp hd with hd | hd
      · exact htest d hd
      · rwa [List.mem_singleton.mp hd]
  · rintro ⟨htest, rfl⟩
    rw [Reads]
    induction w using List.reverseRecOn generalizing after with
    | nil => exact .nil after
    | append_singleton u c ih =>
      have hu : Repeated (one test).Reads before u ([c] ++ after) [] :=
        ih fun d hd => htest d (by simp [hd])
      exact .append hu ⟨⟨c, htest c (by simp), rfl⟩, rfl⟩

theorem reads_blanks : blanks.Reads before w after gs ↔ Text.allBlank w = true ∧ gs = [] := by
  rw [Text.allBlank, List.all_eq_true]
  exact reads_star_one

theorem reads_one_append_star :
    (one test ++ star greedy (one test)).Reads before w after gs ↔
      w ≠ [] ∧ (∀ c ∈ w, test c = true) ∧ gs = [] := by
  rw [reads_append]
  simp only [reads_star_one, reads_one]
  constructor
  · rintro ⟨u, v, hs, is, rfl, rfl, ⟨⟨c, hc, rfl⟩, rfl⟩, hv, rfl⟩
    exact ⟨List.cons_ne_nil c _, List.forall_mem_cons.mpr ⟨hc, hv⟩, rfl⟩
  · rintro ⟨hne, hw, rfl⟩
    obtain ⟨c, v, rfl⟩ := List.exists_cons_of_ne_nil hne
    exact ⟨[c], v, [], [], rfl, rfl, ⟨⟨c, hw c (by simp), rfl⟩, rfl⟩,
      fun d hd => hw d (by simp [hd]), rfl⟩

theorem reads_many1 : (many1 (one test)).Reads before w after gs ↔
    w ≠ [] ∧ (∀ c ∈ w, test c = true) ∧ gs = [] := reads_one_append_star

theorem reads_lazyMany1 : (lazyMany1 (one test)).Reads before w after gs ↔
    w ≠ [] ∧ (∀ c ∈ w, test c = true) ∧ gs = [] := reads_one_append_star

theorem reads_many : (many (one test)).Reads before w after gs ↔
    (∀ c ∈ w, test c = true) ∧ gs = [] := reads_star_one

theorem reads_blanks1 :
    blanks1.Reads before w after gs ↔ w ≠ [] ∧ Text.allBlank w = true ∧ gs = [] := by
  rw [Text.allBlank, List.all_eq_true]
  exact reads_one_append_star

theorem reads_optional : (optional body).Reads before w after gs ↔
    body.Reads before w after gs ∨ w = [] ∧ gs = [] := Iff.rfl

theorem reads_group : (group index body).Reads before w after gs ↔
    ∃ hs, gs = (index, w) :: hs ∧ body.Reads before w after hs := Iff.rfl

end Inversion

section Confined

variable {P : Char → Prop} {i : Nat} {pattern : Pattern} {before w after : Text} {gs : GroupTexts}

theorem forall_mem_of_reads (hP : pattern.TakesOnly P) (h : pattern.Reads before w after gs) :
    ∀ c ∈ w, P c := by
  induction pattern generalizing before w after gs with
  | empty | inputStart | inputEnd | wordBoundary =>
    obtain ⟨rfl, -⟩ := h
    simp
  | one test =>
    obtain ⟨⟨c, hc, rfl⟩, -⟩ := h
    rw [List.forall_mem_singleton]
    exact hP c hc
  | seq first second ih₁ ih₂ =>
    obtain ⟨u, v, hs, is, rfl, -, hu, hv⟩ := h
    exact List.forall_mem_append.mpr ⟨ih₁ hP.1 hu, ih₂ hP.2 hv⟩
  | alt first second ih₁ ih₂ =>
    rcases h with h | h
    · exact ih₁ hP.1 h
    · exact ih₂ hP.2 h
  | star greedy body ih =>
    rw [Reads] at h
    induction h with
    | nil => simp
    | append hu hv hrest => exact List.forall_mem_append.mpr ⟨hrest, ih hP hv⟩
  | group index body ih =>
    obtain ⟨hs, -, h⟩ := h
    exact ih hP h

/-- Every group of index `i` takes only characters of which `P` holds. -/
def Confines (i : Nat) (P : Char → Prop) : Pattern → Prop
  | seq first second | alt first second => first.Confines i P ∧ second.Confines i P
  | star _ body => body.Confines i P
  | group index body => (index = i → body.TakesOnly P) ∧ body.Confines i P
  | empty | one _ | inputStart | inputEnd | wordBoundary => True

theorem confines_literal (t : Text) : (literal t).Confines i P := by
  fun_induction literal t with
  | case1 => trivial
  | case2 c => trivial
  | case3 c rest hrest ih => exact ⟨trivial, ih⟩

theorem confines_anyOf {ps : List Pattern} (h : ∀ p ∈ ps, p.Confines i P) :
    (anyOf ps).Confines i P := by
  fun_induction anyOf ps with
  | case1 => trivial
  | case2 p => exact h p (by simp)
  | case3 p ps hps ih => exact ⟨h p (by simp), ih fun q hq => h q (by simp [hq])⟩

theorem confined_of_reads (hP : pattern.Confines i P) (h : pattern.Reads before w after gs) :
    ∀ t, (i, t) ∈ gs → ∀ c ∈ t, P c := by
  induction pattern generalizing before w after gs with
  | empty =>
    obtain ⟨-, rfl⟩ := h
    simp
  | inputStart | inputEnd | wordBoundary =>
    obtain ⟨-, rfl, -⟩ := h
    simp
  | one test =>
    obtain ⟨-, rfl⟩ := h
    simp
  | seq first second ih₁ ih₂ =>
    obtain ⟨u, v, hs, is, -, rfl, hu, hv⟩ := h
    intro t ht
    rcases List.mem_append.mp ht with ht | ht
    · exact ih₂ hP.2 hv t ht
    · exact ih₁ hP.1 hu t ht
  | alt first second ih₁ ih₂ =>
    rcases h with h | h
    · exact ih₁ hP.1 h
    · exact ih₂ hP.2 h
  | star greedy body ih =>
    rw [Reads] at h
    induction h with
    | nil => simp
    | append hu hv hrest =>
      intro t ht
      rcases List.mem_append.mp ht with ht | ht
      · exact ih hP hv t ht
      · exact hrest t ht
  | group index body ih =>
    obtain ⟨hs, rfl, h⟩ := h
    intro t ht
    rcases List.mem_cons.mp ht with ht | ht
    · obtain ⟨rfl, rfl⟩ := Prod.mk.inj ht
      exact forall_mem_of_reads (hP.1 rfl) h
    · exact ih hP.2 h t ht

theorem confined_of_at? {c : Cursor} {o : Occurrence} (hP : pattern.Confines i P)
    (h : pattern.at? c = some o) : ∀ d ∈ o.groupText i, P d := by
  obtain ⟨w, gs, -, -, -, -, -, hgroups, hread⟩ := exists_reads_of_at? h
  rw [hgroups, GroupTexts.text]
  cases hg : gs.find? (·.1 == i) with
  | none => simp
  | some g =>
    obtain ⟨j, t⟩ := g
    obtain rfl : j = i := by simpa using List.find?_some hg
    exact confined_of_reads hP hread t (List.mem_of_find?_eq_some hg)

end Confined

section Replacing

variable {pattern : Pattern} {new : Occurrence → Text} {t : Text}

theorem replaceFrom_covered (w before rest : Text) :
    pattern.replaceFrom new w.length before (w ++ rest) =
      pattern.replaceFrom new 0 (w.reverse ++ before) rest := by
  induction w generalizing before with
  | nil => rfl
  | cons c w ih =>
    rw [List.cons_append, List.length_cons, replaceFrom, ih, List.reverse_cons, List.append_assoc,
      List.singleton_append]

/-- What each kept character and each replacement preserve, the whole replacement does. `P` speaks
of the text that is done, reversed, of what has become of it and of the text to come. -/
theorem replaceAll_induction {P : Text → Text → Text → Prop}
    (hkeep : ∀ before out c rest, P before out (c :: rest) → P (c :: before) (out ++ [c]) rest)
    (hnew : ∀ before out w rest gs o, w ≠ [] → pattern.Reads before w rest gs →
      (∀ i, Occurrence.groupText o i = gs.text i) → P before out (w ++ rest) →
      P (w.reverse ++ before) (out ++ new o) rest)
    (h : P [] [] t) : P t.reverse (pattern.replaceAll new t) [] := by
  have hfrom : ∀ n before out rest, rest.length = n → P before out rest →
      P (rest.reverse ++ before) (out ++ pattern.replaceFrom new 0 before rest) [] := by
    intro n
    induction n using Nat.strongRecOn with
    | ind n ih =>
      intro before out rest hn hP
      cases rest with
      | nil => simpa [replaceFrom] using hP
      | cons c rest =>
        rw [replaceFrom]
        cases hat : pattern.at? ⟨before, c :: rest⟩ with
        | none =>
          have hrest := ih rest.length (by simp [← hn]) (c :: before) (out ++ [c]) rest rfl
            (hkeep before out c rest hP)
          simpa using hrest
        | some o =>
          obtain ⟨w, gs, hne, hafter, -, hwidth, -, hgroups, hread⟩ := exists_reads_of_at? hat
          obtain ⟨d, w, rfl⟩ := List.exists_cons_of_ne_nil hne
          obtain ⟨rfl, hrest⟩ := List.cons.inj hafter
          rw [show c :: rest = c :: w ++ o.stop.after from hafter] at hP
          have hlt : o.stop.after.length < n := by
            rw [← hn, hrest, List.append_eq, List.length_cons, List.length_append]
            omega
          have hdone := ih _ hlt _ _ _ rfl (hnew before out (c :: w) _ gs o hne hread hgroups hP)
          dsimp only
          rw [hwidth, List.length_cons, Nat.add_sub_cancel, hrest, List.append_eq,
            replaceFrom_covered]
          simpa using hdone
  have hall := hfrom t.length [] [] t rfl h
  rwa [List.append_nil, List.nil_append] at hall

theorem at?_eq_none_of_reads {before : Text}
    (h : ∀ w rest gs, t = w ++ rest → w ≠ [] → ¬ pattern.Reads before w rest gs) :
    pattern.at? ⟨before, t⟩ = none := by
  rw [Option.eq_none_iff_forall_ne_some]
  intro o ho
  obtain ⟨w, gs, hne, hafter, -, -, -, -, hread⟩ := exists_reads_of_at? ho
  exact h w _ gs hafter hne hread

theorem replaceFrom_eq_self {before : Text}
    (h : ∀ p w rest gs, t = p ++ (w ++ rest) → w ≠ [] →
      ¬ pattern.Reads (p.reverse ++ before) w rest gs) :
    pattern.replaceFrom new 0 before t = t := by
  induction t generalizing before with
  | nil => rfl
  | cons c t ih =>
    have hat : pattern.at? ⟨before, c :: t⟩ = none :=
      at?_eq_none_of_reads fun w rest gs hsplit hne => h [] w rest gs hsplit hne
    rw [replaceFrom, hat]
    refine congrArg (c :: ·) (ih fun p w rest gs hsplit hne => ?_)
    simpa using h (c :: p) w rest gs (by rw [hsplit, List.cons_append]) hne

theorem replaceAll_eq_self
    (h : ∀ before w rest gs, t = before.reverse ++ (w ++ rest) → w ≠ [] →
      ¬ pattern.Reads before w rest gs) : pattern.replaceAll new t = t :=
  replaceFrom_eq_self fun p w rest gs hsplit hne => by
    simpa using h p.reverse w rest gs (by simpa using hsplit) hne

end Replacing

end Pattern

end CanvasPage
