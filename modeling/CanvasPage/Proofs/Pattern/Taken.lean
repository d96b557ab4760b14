import CanvasPage.Proofs.Pattern.Literal

namespace CanvasPage

def Progress.Takes (P : Char → Prop) (p q : Progress) : Prop :=
  ∃ u, p.cursor.after = u ++ q.cursor.after ∧ q.cursor.before = u.reverse ++ p.cursor.before ∧
    q.width = p.width + u.length ∧ ∀ c ∈ u, P c

namespace Progress

variable {P : Char → Prop} {p q r : Progress}

theorem takes_refl (P : Char → Prop) (p : Progress) : p.Takes P p :=
  ⟨[], by simp⟩

theorem Takes.trans (hpq : p.Takes P q) (hqr : q.Takes P r) : p.Takes P r := by
  obtain ⟨u, hu, hub, huw, hup⟩ := hpq
  obtain ⟨v, hv, hvb, hvw, hvp⟩ := hqr
  refine ⟨u ++ v, ?_, ?_, ?_, ?_⟩
  · rw [hu, hv, List.append_assoc]
  · rw [hvb, hub, List.reverse_append, List.append_assoc]
  · rw [hvw, huw, List.length_append, Nat.add_assoc]
  · intro c hc
    rcases List.mem_append.mp hc with hc | hc
    · exact hup c hc
    · exact hvp c hc

theorem takes_take {c : Char} {rest : Text} (hc : P c) (h : p.cursor.after = c :: rest) :
    p.Takes P (p.take c rest) :=
  ⟨[c], by simp [take, h, hc]⟩

theorem Takes.close (h : p.Takes P q) (index : Nat) (opened : Progress) :
    p.Takes P (q.close index opened) := h

theorem Takes.exists_suffix {c : Char} {u r : Text} (h : p.Takes (· ≠ c) q)
    (hp : p.cursor.after = u ++ c :: r) : ∃ v, v <:+ u ∧ q.cursor.after = v ++ c :: r := by
  obtain ⟨w, hw, -, -, hne⟩ := h
  have hsplit : w ++ q.cursor.after = u ++ c :: r := by rw [← hw, hp]
  rcases List.append_eq_append_iff.mp hsplit with ⟨v, rfl, hv⟩ | ⟨v, rfl, hv⟩
  · exact ⟨v, List.suffix_append w v, hv⟩
  · cases v with
    | nil => exact ⟨[], List.nil_suffix, hv.symm⟩
    | cons d v =>
      obtain rfl : c = d := (List.cons.inj hv).1
      exact absurd rfl (hne c (by simp))

theorem Takes.head?_ne {c d : Char} {u r : Text} (h : p.Takes (· ≠ c) q)
    (hp : p.cursor.after = u ++ c :: r) (hd : d ∉ u) (hc : c ≠ d) :
    q.cursor.after.head? ≠ some d := by
  obtain ⟨v, hv, hq⟩ := h.exists_suffix hp
  rw [hq]
  intro hhead
  cases v with
  | nil => exact hc (by simpa using hhead)
  | cons e v =>
    obtain rfl : e = d := by simpa using hhead
    exact hd (hv.subset (by simp))

end Progress

namespace Pattern

def TakesOnly (P : Char → Prop) : Pattern → Prop
  | one test => ∀ c, test c = true → P c
  | seq first second | alt first second => first.TakesOnly P ∧ second.TakesOnly P
  | star _ body | group _ body => body.TakesOnly P
  | empty | inputStart | inputEnd | wordBoundary => True

theorem takesOnly_append {P : Char → Prop} {first second : Pattern} :
    (first ++ second).TakesOnly P ↔ first.TakesOnly P ∧ second.TakesOnly P := Iff.rfl

theorem takesOnly_literal {P : Char → Prop} {u : Text} (h : ∀ c ∈ u, P c) :
    (literal u).TakesOnly P := by
  fun_induction literal u with
  | case1 => trivial
  | case2 c =>
    intro d hd
    rw [beq_iff_eq.mp hd]
    exact h c (by simp)
  | case3 c rest hr ih =>
    refine takesOnly_append.mpr ⟨?_, ih fun d hd => h d (by simp [hd])⟩
    intro d hd
    rw [beq_iff_eq.mp hd]
    exact h c (by simp)

theorem takesOnly_noneOf {cs : Text} {d : Char} (h : d ∈ cs) : (noneOf cs).TakesOnly (· ≠ d) := by
  intro c hc
  rintro rfl
  simp [h] at hc

theorem takesOnly_anyOf {P : Char → Prop} {ps : List Pattern} (h : ∀ p ∈ ps, p.TakesOnly P) :
    (anyOf ps).TakesOnly P := by
  fun_induction anyOf ps with
  | case1 => exact fun c hc => absurd hc Bool.false_ne_true
  | case2 p => exact h p (by simp)
  | case3 p ps hps ih => exact ⟨h p (by simp), ih fun q hq => h q (by simp [hq])⟩

theorem takes_of_mem_ends {P : Char → Prop} {pattern : Pattern} {p q : Progress}
    (hP : pattern.TakesOnly P) (h : q ∈ pattern.ends p) : p.Takes P q := by
  induction pattern generalizing p q with
  | empty =>
    rw [List.mem_singleton.mp h]
    exact p.takes_refl P
  | one test =>
    rw [ends] at h
    split at h
    · simp at h
    · rename_i c rest hc
      split at h
      · rename_i htest
        rw [List.mem_singleton.mp h]
        exact Progress.takes_take (hP c htest) hc
      · simp at h
  | seq first second ih₁ ih₂ =>
    obtain ⟨r, hr, hq⟩ := List.mem_flatMap.mp h
    exact (ih₁ hP.1 hr).trans (ih₂ hP.2 hq)
  | alt first second ih₁ ih₂ =>
    rcases List.mem_append.mp h with h | h
    · exact ih₁ hP.1 h
    · exact ih₂ hP.2 h
  | star greedy body ih =>
    have hbody : ∀ r, p.Takes P r → ∀ q ∈ body.ends r, p.Takes P q :=
      fun r hr q hq => hr.trans (ih hP hq)
    exact forall_mem_rounds hbody greedy _ p (p.takes_refl P) [] (by simp) q h
  | group index body ih =>
    obtain ⟨r, hr, rfl⟩ := List.mem_map.mp h
    exact (ih hP hr).close index p
  | inputStart | inputEnd | wordBoundary =>
    rw [ends] at h
    split at h
    · rw [List.mem_singleton.mp h]
      exact p.takes_refl P
    · simp at h

theorem ends_append_literal_eq_nil {first : Pattern} {c d : Char} {before u v rest : Text}
    {width : Nat} {groups : List (Nat × Capture)} (hfirst : first.TakesOnly (· ≠ c))
    (hv : v.head? = some d) (hd : d ∉ u) (hc : c ≠ d) :
    (first ++ literal v).ends ⟨⟨before, u ++ c :: rest⟩, width, groups⟩ = [] := by
  show (seq first (literal v)).ends _ = []
  rw [ends, List.flatMap_eq_nil_iff]
  intro q hq
  exact ends_literal_eq_nil hv ((takes_of_mem_ends hfirst hq).head?_ne rfl hd hc)

def CapturesOnly (P : Char → Prop) : Pattern → Prop
  | seq first second | alt first second => first.CapturesOnly P ∧ second.CapturesOnly P
  | star _ body => body.CapturesOnly P
  | group _ body => body.TakesOnly P ∧ body.CapturesOnly P
  | empty | one _ | inputStart | inputEnd | wordBoundary => True

section Captures

variable {P : Char → Prop}

theorem capturesOnly_literal (u : Text) : (literal u).CapturesOnly P := by
  fun_induction literal u with
  | case1 => trivial
  | case2 c => trivial
  | case3 c rest hr ih => exact ⟨trivial, ih⟩

theorem capturesOnly_literalEitherCase (u : Text) : (literalEitherCase u).CapturesOnly P := by
  fun_induction literalEitherCase u with
  | case1 => trivial
  | case2 c => trivial
  | case3 c rest hr ih => exact ⟨trivial, ih⟩

theorem capturesOnly_anyOf {ps : List Pattern} (h : ∀ p ∈ ps, p.CapturesOnly P) :
    (anyOf ps).CapturesOnly P := by
  fun_induction anyOf ps with
  | case1 => trivial
  | case2 p => exact h p (by simp)
  | case3 p ps hps ih => exact ⟨h p (by simp), ih fun q hq => h q (by simp [hq])⟩

end Captures

theorem text_close {P : Char → Prop} {p q : Progress} (h : p.Takes P q) :
    ∀ c ∈ Capture.text ⟨p.cursor, q.width - p.width⟩, P c := by
  obtain ⟨u, hu, -, hw, hP⟩ := h
  have htext : Capture.text ⟨p.cursor, q.width - p.width⟩ = u := by
    rw [Capture.text, hw, hu]
    simp
  rwa [htext]

theorem captured_of_mem_ends {P : Char → Prop} {pattern : Pattern} {p q : Progress}
    (hP : pattern.CapturesOnly P) (h : q ∈ pattern.ends p)
    (hp : ∀ g ∈ p.groups, ∀ c ∈ g.2.text, P c) : ∀ g ∈ q.groups, ∀ c ∈ g.2.text, P c := by
  induction pattern generalizing p q with
  | empty =>
    rw [List.mem_singleton.mp h]
    exact hp
  | one test =>
    rw [ends] at h
    split at h
    · simp at h
    · split at h
      · rw [List.mem_singleton.mp h]
        exact hp
      · simp at h
  | seq first second ih₁ ih₂ =>
    obtain ⟨r, hr, hq⟩ := List.mem_flatMap.mp h
    exact ih₂ hP.2 hq (ih₁ hP.1 hr hp)
  | alt first second ih₁ ih₂ =>
    rcases List.mem_append.mp h with h | h
    · exact ih₁ hP.1 h hp
    · exact ih₂ hP.2 h hp
  | star greedy body ih =>
    have hbody : ∀ r : Progress, (∀ g ∈ r.groups, ∀ c ∈ g.2.text, P c) → ∀ q ∈ body.ends r,
        ∀ g ∈ q.groups, ∀ c ∈ g.2.text, P c := fun r hr q hq => ih hP hq hr
    exact forall_mem_rounds hbody greedy _ p hp [] (by simp) q h
  | group index body ih =>
    obtain ⟨r, hr, rfl⟩ := List.mem_map.mp h
    intro g hg
    rcases List.mem_cons.mp hg with rfl | hg
    · exact text_close (takes_of_mem_ends hP.1 hr)
    · exact ih hP.2 hr hp g hg
  | inputStart | inputEnd | wordBoundary =>
    rw [ends] at h
    split at h
    · rw [List.mem_singleton.mp h]
      exact hp
    · simp at h

end Pattern

end CanvasPage
