import CanvasPage.Proofs.Procedure.Seam

namespace CanvasPage.Substitution

open Pattern Script

variable {s : Substitution} {b p t u v w x y z before after : Text} {gs : GroupTexts} {c d n : Char}

section Heads

def IsDeclarationHead (p : Text) : Prop :=
  ∃ kw ∈ keywords, ∃ ws name bs, ws ≠ [] ∧ Text.allBlank ws = true ∧
    Text.isIdentifier name = true ∧ Text.allBlank bs = true ∧
      p = kw ++ (ws ++ (name ++ (bs ++ [':'])))

theorem exists_head_of_reads_annotated (h : annotated.Reads before w after gs) :
    ∃ p cs, w = p ++ cs ∧ IsDeclarationHead p ∧ Text.allBlank cs = true ∧
      ∀ c ∈ before.head?, Text.isWordChar c = false := by
  obtain ⟨_, _, hannotated, -⟩ := exists_of_reads_annotated h
  have hboundary := hannotated.boundary
  have hcolon : (":" : Text) = [':'] := rfl
  have hkeywords : anyOf ["let", "const", "var"] = anyOf (keywords.map literal) := rfl
  rw [annotated, hkeywords] at h
  simp only [reads_append, reads_keyword, reads_group, reads_blanks1, reads_blanks,
    reads_identifier, reads_literal, hcolon] at h
  obtain ⟨_, cs, _, _, rfl, rfl, ⟨_, _, _, _, rfl, rfl, ⟨_, bs, _, _, rfl, rfl,
    ⟨_, name, _, _, rfl, rfl, ⟨_, ws, _, _, rfl, rfl, ⟨_, kw, _, _, rfl, rfl,
      ⟨rfl, rfl, -⟩, hkw, rfl⟩, _, rfl, hne, hblank, rfl⟩, _, rfl, hname, rfl⟩, hbs, rfl⟩,
      rfl, rfl⟩, hcs, rfl⟩ := h
  refine ⟨kw ++ (ws ++ (name ++ (bs ++ [':']))), cs, ?_, ⟨kw, hkw, ws, name, bs, hne, hblank, hname,
    hbs, rfl⟩, hcs, hboundary⟩
  simp only [List.append_assoc, List.nil_append]

theorem isWordChar_of_mem_keyword : ∀ kw ∈ keywords, ∀ c ∈ kw, Text.isWordChar c = true := by
  decide

theorem not_isBlank_of_isWordChar (h : Text.isWordChar c = true) : Text.isBlank c = false := by
  by_contra hblank
  rw [not_isWordChar_of_isBlank (eq_true_of_ne_false hblank)] at h
  cases h

theorem forall_mem_head (hp : IsDeclarationHead p) :
    ∀ c ∈ p, isPathChar c = true ∨ Text.isBlank c = true ∨ c = ':' := by
  obtain ⟨kw, hkw, ws, name, bs, -, hws, hname, hbs, rfl⟩ := hp
  intro c hc
  simp only [List.mem_append, List.mem_singleton] at hc
  rcases hc with hc | hc | hc | hc | hc
  · refine .inl ?_
    rw [isPathChar, isWordChar_of_mem_keyword kw hkw c hc]
    rfl
  · exact .inr (.inl (List.all_eq_true.mp hws c hc))
  · exact .inl (isPathChar_of_isIdentifier hname c hc)
  · exact .inr (.inl (List.all_eq_true.mp hbs c hc))
  · exact .inr (.inr hc)

theorem IsDeclarationHead.exists_append (hp : IsDeclarationHead p) (hpath : isPathChar d = false)
    (hblank : Text.isBlank d = false) (hcolon : d ≠ ':') (heq : p ++ v = y ++ d :: z) :
    ∃ v', y = p ++ v' ∧ v = v' ++ d :: z := by
  rcases List.append_eq_append_iff.mp heq with ⟨v', rfl, hv⟩ | ⟨k, rfl, hk⟩
  · exact ⟨v', rfl, hv⟩
  cases k with
  | nil => exact ⟨[], (List.append_nil _).symm.trans (List.append_nil _).symm, hk.symm⟩
  | cons e k =>
    obtain ⟨rfl, -⟩ := List.cons.inj hk
    rcases forall_mem_head hp d (by simp) with h | h | h
    · rw [h] at hpath
      cases hpath
    · rw [h] at hblank
      cases hblank
    · exact absurd h hcolon

theorem exists_append_of_not_mem (hd : d ∉ u) (heq : u ++ v = y ++ d :: z) :
    ∃ y', y = u ++ y' ∧ v = y' ++ d :: z := by
  rcases List.append_eq_append_iff.mp heq with ⟨y', rfl, hv⟩ | ⟨k, rfl, hk⟩
  · exact ⟨y', rfl, hv⟩
  cases k with
  | nil => exact ⟨[], (List.append_nil _).symm.trans (List.append_nil _).symm, hk.symm⟩
  | cons e k =>
    obtain ⟨rfl, -⟩ := List.cons.inj hk
    exact absurd (by simp) hd

theorem exists_append_of_allBlank (hu : Text.allBlank u = true) (hy : y ≠ [])
    (hlast : ∀ c ∈ y.getLast?, Text.isBlank c = false) (heq : u ++ v = y ++ z) :
    ∃ y', y = u ++ y' ∧ y' ≠ [] ∧ v = y' ++ z := by
  have hproper : ∀ k, u = y ++ k → False := by
    rintro k rfl
    obtain ⟨y, c, rfl⟩ := (List.eq_nil_or_concat y).resolve_left hy
    have hc := hlast c (by simp)
    rw [List.all_eq_true.mp hu c (by simp)] at hc
    cases hc
  rcases List.append_eq_append_iff.mp heq with ⟨y', rfl, hv⟩ | ⟨k, rfl, -⟩
  · refine ⟨y', rfl, ?_, hv⟩
    rintro rfl
    exact hproper [] (by simp)
  · exact (hproper k rfl).elim

theorem colon_ne_blank {bs : Text} (hbs : Text.allBlank bs = true) (hn : Text.isBlank n = false)
    (hcolon : n ≠ ':') : bs ++ ':' :: v ≠ ' ' :: n :: z := by
  intro heq
  obtain ⟨-, hrest⟩ := Text.eq_of_append_eq (List.all_eq_true.mp hbs)
    (show ∀ c ∈ [' '], Text.isBlank c = true by decide) (by simp; decide) (by simpa using hn)
    (show bs ++ ':' :: v = [' '] ++ n :: z from heq)
  exact hcolon (List.cons.inj hrest).1.symm

theorem name_ne_as {ws name bs : Text} (hws : Text.allBlank ws = true)
    (hname : Text.isIdentifier name = true) (hbs : Text.allBlank bs = true)
    (hn : Text.isBlank n = false) (hcolon : n ≠ ':') :
    ws ++ (name ++ (bs ++ ':' :: v)) ≠ ' ' :: 'a' :: 's' :: ' ' :: n :: z := by
  intro heq
  have hcontinues := Text.continuesIdentifier_of_isIdentifier hname
  have hhead : ∀ c ∈ (name ++ (bs ++ ':' :: v)).head?, Text.isBlank c = false := by
    rw [List.head?_append_of_ne_nil _ (Text.ne_nil_of_isIdentifier hname)]
    exact fun c hc => Text.isBlank_of_continuesIdentifier (hcontinues c (List.mem_of_head? hc))
  obtain ⟨-, hrest⟩ := Text.eq_of_append_eq (List.all_eq_true.mp hws)
    (show ∀ c ∈ [' '], Text.isBlank c = true by decide) hhead (by simp; decide)
    (show ws ++ (name ++ (bs ++ ':' :: v)) = [' '] ++ 'a' :: 's' :: ' ' :: n :: z from heq)
  obtain ⟨-, hrest⟩ := Text.eq_of_append_eq hcontinues
    (show ∀ c ∈ ['a', 's'], Text.continuesIdentifier c = true by decide)
    (not_continuesIdentifier_colon hbs v) (by simp; decide)
    (show name ++ (bs ++ ':' :: v) = ['a', 's'] ++ ' ' :: n :: z from hrest)
  exact colon_ne_blank hbs hn hcolon hrest

theorem IsDeclarationHead.exists_append_as (hp : IsDeclarationHead p) (hy : y ≠ [])
    (hlast : ∀ c ∈ y.getLast?, Text.isBlank c = false) (hn : Text.isBlank n = false)
    (hcolon : n ≠ ':') (heq : p ++ v = y ++ ' ' :: 'a' :: 's' :: ' ' :: n :: z) :
    ∃ v', y = p ++ v' ∧ v = v' ++ ' ' :: 'a' :: 's' :: ' ' :: n :: z := by
  obtain ⟨kw, hkw, ws, name, bs, hne, hws, hname, hbs, rfl⟩ := hp
  simp only [List.append_assoc, List.singleton_append] at heq
  have hkeyword : ' ' ∉ kw := fun h =>
    absurd (isWordChar_of_mem_keyword kw hkw _ h) (by decide)
  have hletters : ' ' ∉ name := fun h =>
    absurd (Text.continuesIdentifier_of_isIdentifier hname _ h) (by decide)
  -- part by part: the text ends behind the keyword, the blanks, the name and the colon
  obtain ⟨y₁, rfl, h₁⟩ := exists_append_of_not_mem hkeyword heq
  by_cases hy₁ : y₁ = []
  · subst hy₁
    exact (name_ne_as hws hname hbs hn hcolon h₁).elim
  have hlast₁ : ∀ c ∈ y₁.getLast?, Text.isBlank c = false := Text.getLast?_of_append hlast
  obtain ⟨y₂, rfl, hy₂, h₂⟩ := exists_append_of_allBlank hws hy₁ hlast₁ h₁
  have hlast₂ : ∀ c ∈ y₂.getLast?, Text.isBlank c = false := Text.getLast?_of_append hlast₁
  obtain ⟨y₃, rfl, h₃⟩ := exists_append_of_not_mem hletters h₂
  by_cases hy₃ : y₃ = []
  · subst hy₃
    exact (colon_ne_blank hbs (by decide) (by decide) h₃).elim
  have hlast₃ : ∀ c ∈ y₃.getLast?, Text.isBlank c = false := Text.getLast?_of_append hlast₂
  obtain ⟨y₄, rfl, hy₄, h₄⟩ := exists_append_of_allBlank hbs hy₃ hlast₃ h₃
  obtain ⟨f, y₅, rfl⟩ := List.exists_cons_of_ne_nil hy₄
  obtain ⟨rfl, rfl⟩ := List.cons.inj h₄
  exact ⟨y₅, by simp, rfl⟩

end Heads

section Types

/-- A declaration whose type goes on to the end of the text. -/
def IsUnfinished (y : Text) : Prop :=
  ∃ p cs type, IsDeclarationHead p ∧ Text.allBlank cs = true ∧
    (∀ c ∈ type, c ∉ ("=;\n" : Text)) ∧ y = p ++ (cs ++ type)

theorem IsUnfinished.ne_nil (hy : IsUnfinished y) : y ≠ [] := by
  obtain ⟨_, cs, type, ⟨kw, hkw, ws, name, bs, -, -, -, -, rfl⟩, -, -, rfl⟩ := hy
  obtain ⟨c, u, rfl, -⟩ := exists_cons_of_mem_keywords hkw
  exact List.cons_ne_nil c _

theorem IsUnfinished.head?_ne (hy : IsUnfinished y) (hc : Text.isWordChar c = false) :
    y.head? ≠ some c := by
  obtain ⟨_, cs, type, ⟨kw, hkw, ws, name, bs, -, -, -, -, rfl⟩, -, -, rfl⟩ := hy
  obtain ⟨d, u, rfl, hd⟩ := exists_cons_of_mem_keywords hkw
  rintro heq
  obtain rfl : d = c := Option.some.inj heq
  rw [hd] at hc
  cases hc

theorem IsUnfinished.not_mem (hy : IsUnfinished y) (hc : c ∈ ("=;" : Text)) : c ∉ y := by
  obtain ⟨p, cs, type, hp, hcs, htype, rfl⟩ := hy
  have hsides : ∀ c ∈ ("=;" : Text), isPathChar c = false ∧ Text.isBlank c = false ∧ c ≠ ':' ∧
      c ∈ ("=;\n" : Text) := by decide
  obtain ⟨hpath, hblank, hcolon, hends⟩ := hsides c hc
  intro hmem
  rcases List.mem_append.mp hmem with hmem | hmem
  · rcases forall_mem_head hp c hmem with h | h | h
    · rw [h] at hpath
      cases hpath
    · rw [h] at hblank
      cases hblank
    · exact hcolon h
  · rcases List.mem_append.mp hmem with hmem | hmem
    · rw [List.all_eq_true.mp hcs c hmem] at hblank
      cases hblank
    · exact htype c hmem hends

/-- In the code at the end of the text a declaration has begun and its type has not ended. -/
def OpensDeclaration (t : Text) : Prop :=
  ∃ x y, t = x ++ y ∧ (∀ c ∈ x.getLast?, Text.isWordChar c = false) ∧
    emitted (State.start.run x) y = [] ∧ IsUnfinished y

theorem OpensDeclaration.mem (h : OpensDeclaration t) : ':' ∈ t := by
  obtain ⟨x, y, rfl, -, -, p, cs, type, ⟨kw, -, ws, name, bs, -, -, -, -, rfl⟩, -, -, rfl⟩ := h
  simp

theorem exists_type_of_reads_typedDeclaration
    (h : typedDeclaration.pattern.Reads before w after gs) :
    ∃ p cs type bs, w = p ++ (cs ++ (type ++ (bs ++ ['=']))) ∧ IsDeclarationHead p ∧
      Text.allBlank cs = true ∧ (∀ c ∈ type, c ∉ ("=;\n" : Text)) ∧ Text.allBlank bs = true ∧
      ∀ c ∈ before.head?, Text.isWordChar c = false := by
  have hequals : ("=" : Text) = ['='] := rfl
  simp only [typedDeclaration, noneOf, reads_append, reads_lazyMany1, reads_blanks, reads_literal,
    hequals] at h
  obtain ⟨_, _, _, _, rfl, -, ⟨_, bs, _, _, rfl, -, ⟨_, type, _, _, rfl, -, hannotated, -, htype, -⟩,
    hbs, -⟩, rfl, -⟩ := h
  obtain ⟨p, cs, rfl, hp, hcs, hbefore⟩ := exists_head_of_reads_annotated hannotated
  exact ⟨p, cs, type, bs, by simp, hp, hcs, by simpa using htype, hbs, hbefore⟩

theorem exists_type_of_reads_typedDeclarationWithoutValue
    (h : typedDeclarationWithoutValue.pattern.Reads before w after gs) :
    ∃ p cs type, w = p ++ (cs ++ (type ++ [';'])) ∧ IsDeclarationHead p ∧
      Text.allBlank cs = true ∧ (∀ c ∈ type, c ∉ ("=;\n" : Text)) ∧
      ∀ c ∈ before.head?, Text.isWordChar c = false := by
  have hsemicolon : (";" : Text) = [';'] := rfl
  simp only [typedDeclarationWithoutValue, noneOf, reads_append, reads_many1, reads_literal,
    hsemicolon] at h
  obtain ⟨_, _, _, _, rfl, -, ⟨_, type, _, _, rfl, -, hannotated, -, htype, -⟩, rfl, -⟩ := h
  obtain ⟨p, cs, rfl, hp, hcs, hbefore⟩ := exists_head_of_reads_annotated hannotated
  exact ⟨p, cs, type, by simp, hp, hcs, by simpa using htype, hbefore⟩

end Types

section Crossing

/-- No declaration up to its colon goes on from `y` into `z`. -/
def HoldsHeads (y z : Text) : Prop :=
  ∀ p v, IsDeclarationHead p → p ++ v = y ++ z → ∃ v', y = p ++ v' ∧ v = v' ++ z

theorem holdsHeads_cons (hpath : isPathChar d = false) (hblank : Text.isBlank d = false)
    (hcolon : d ≠ ':') (y z : Text) : HoldsHeads y (d :: z) :=
  fun _ _ hp heq => hp.exists_append hpath hblank hcolon heq

theorem isUnfinished_of_prefix {cs type bs : Text} (hp : IsDeclarationHead p)
    (hcs : Text.allBlank cs = true) (htype : ∀ c ∈ type, c ∉ ("=;\n" : Text))
    (hbs : Text.allBlank bs = true) (hlast : bs ≠ [] → ∀ c ∈ (p ++ v).getLast?, Text.isBlank c = false)
    (heq : cs ++ (type ++ bs) = v ++ u) : IsUnfinished (p ++ v) := by
  rcases List.append_eq_append_iff.mp heq with ⟨v, rfl, hv⟩ | ⟨u, rfl, -⟩
  · rcases List.append_eq_append_iff.mp hv with ⟨v, rfl, hblanks⟩ | ⟨u, rfl, -⟩
    · have hnil : v = [] := by
        by_contra hne
        have hsome : v.getLast? = some (v.getLast hne) := List.getLast?_eq_some_getLast hne
        have hmem : v.getLast hne ∈ bs := by simp [hblanks]
        have hc := hlast (List.ne_nil_of_mem hmem) (v.getLast hne) (by
          rw [← List.append_assoc, ← List.append_assoc, List.getLast?_append_of_ne_nil _ hne, hsome]
          exact rfl)
        rw [List.all_eq_true.mp hbs _ hmem] at hc
        cases hc
      exact ⟨p, cs, type, hp, hcs, htype, by rw [hnil, List.append_nil]⟩
    · exact ⟨p, cs, v, hp, hcs, fun c hc => htype c (by simp [hc]), rfl⟩
  · have hv : Text.allBlank v = true :=
      List.all_eq_true.mpr fun c hc => List.all_eq_true.mp hcs c (by simp [hc])
    exact ⟨p, v, [], hp, hv, by simp, by rw [List.append_nil]⟩

variable {type bs cs : Text} {e : Char}

theorem isUnfinished_of_crossing (hheads : HoldsHeads y z) (hp : IsDeclarationHead p)
    (hcs : Text.allBlank cs = true) (htype : ∀ c ∈ type, c ∉ ("=;\n" : Text))
    (hbs : Text.allBlank bs = true) (hlast : bs ≠ [] → ∀ c ∈ y.getLast?, Text.isBlank c = false)
    (heq : y ++ z = (p ++ (cs ++ (type ++ (bs ++ [e])))) ++ after)
    (hlong : y.length < (p ++ (cs ++ (type ++ (bs ++ [e])))).length) : IsUnfinished y := by
  have hhead : p ++ (cs ++ (type ++ (bs ++ [e])) ++ after) = y ++ z := by simp [heq]
  obtain ⟨v, rfl, -⟩ := hheads p _ hp hhead
  have hrest : (cs ++ (type ++ bs)) ++ e :: after = v ++ z := by
    simpa [List.append_assoc] using heq.symm
  rcases List.append_eq_append_iff.mp hrest with ⟨u, rfl, hu⟩ | ⟨u, hu, -⟩
  · have hnil : u = [] := by
      simp only [List.length_append, List.length_singleton] at hlong
      exact List.length_eq_zero_iff.mp (by omega)
    rw [hnil, List.append_nil] at hlast ⊢
    exact isUnfinished_of_prefix (u := []) hp hcs htype hbs hlast (by simp)
  · exact isUnfinished_of_prefix hp hcs htype hbs hlast hu

theorem staysIn_typedDeclaration (hheads : HoldsHeads y z)
    (hlast : ∀ c ∈ y.getLast?, Text.isBlank c = false)
    (hy : (∀ c ∈ before.head?, Text.isWordChar c = false) → ¬ IsUnfinished y) :
    typedDeclaration.pattern.StaysIn before y z := by
  intro w after gs heq hread
  obtain ⟨p, cs, type, bs, rfl, hp, hcs, htype, hbs, hbefore⟩ :=
    exists_type_of_reads_typedDeclaration hread
  by_contra hlong
  exact hy hbefore (isUnfinished_of_crossing hheads hp hcs htype hbs (fun _ => hlast) heq
    (Nat.lt_of_not_le hlong))

theorem staysIn_typedDeclarationWithoutValue (hheads : HoldsHeads y z)
    (hy : (∀ c ∈ before.head?, Text.isWordChar c = false) → ¬ IsUnfinished y) :
    typedDeclarationWithoutValue.pattern.StaysIn before y z := by
  intro w after gs heq hread
  obtain ⟨p, cs, type, rfl, hp, hcs, htype, hbefore⟩ :=
    exists_type_of_reads_typedDeclarationWithoutValue hread
  by_contra hlong
  have hnone : Text.allBlank [] = true := rfl
  exact hy hbefore (isUnfinished_of_crossing hheads hp hcs htype hnone (by simp) heq
    (Nat.lt_of_not_le hlong))

theorem not_isUnfinished {g x : Text} (hopen : ¬ OpensDeclaration (g ++ (x ++ y)))
    (hcode : emitted (State.start.run g) (x ++ y) = [])
    (hg : (x ++ y).head? ≠ some '\n' → ∀ c ∈ g.getLast?, Text.isWordChar c = false)
    (hx : ∀ c ∈ (x.reverse ++ []).head?, Text.isWordChar c = false) : ¬ IsUnfinished y := by
  intro hy
  rw [emitted_append, List.append_eq_nil_iff, ← State.run_append] at hcode
  rw [List.append_nil, List.head?_reverse] at hx
  refine hopen ⟨g ++ x, y, (List.append_assoc _ _ _).symm, fun c hc => ?_, hcode.2, hy⟩
  rcases List.eq_nil_or_concat x with rfl | ⟨x, b, rfl⟩
  · rw [List.append_nil] at hc
    exact hg (hy.head?_ne (by decide)) c hc
  · rw [List.getLast?_append_of_ne_nil _ (by simp)] at hc
    exact hx c hc

variable {g : Text}

theorem stopsBefore_typedDeclaration (hopen : ¬ OpensDeclaration (g ++ t))
    (hcode : emitted (State.start.run g) t = [])
    (hg : t.head? ≠ some '\n' → ∀ c ∈ g.getLast?, Text.isWordChar c = false)
    (hlast : ∀ c ∈ t.getLast?, Text.isBlank c = false)
    (hheads : ∀ x y, t = x ++ y → y ≠ [] → HoldsHeads y z) :
    typedDeclaration.pattern.StopsBefore [] t z := by
  rintro x y rfl hne
  refine staysIn_typedDeclaration (hheads x y rfl hne) ?_ (not_isUnfinished hopen hcode hg)
  rwa [List.getLast?_append_of_ne_nil _ hne] at hlast

theorem stopsBefore_typedDeclarationWithoutValue (hopen : ¬ OpensDeclaration (g ++ t))
    (hcode : emitted (State.start.run g) t = [])
    (hg : t.head? ≠ some '\n' → ∀ c ∈ g.getLast?, Text.isWordChar c = false)
    (hheads : ∀ x y, t = x ++ y → y ≠ [] → HoldsHeads y z) :
    typedDeclarationWithoutValue.pattern.StopsBefore [] t z := by
  rintro x y rfl hne
  exact staysIn_typedDeclarationWithoutValue (hheads x y rfl hne)
    (not_isUnfinished hopen hcode hg)

end Crossing

section Kept

theorem Edits.exists_of_append (hnew : ∀ o, ∃ u, s.replacement o = u ++ [d])
    (h : Edits s t p (x ++ y)) (hy : d ∉ y) : ∃ x', p = x' ++ y ∧ Edits s t x' x := by
  generalize hq : x ++ y = q at h
  induction h generalizing y with
  | nil =>
    obtain ⟨rfl, rfl⟩ := List.append_eq_nil_iff.mp hq
    exact ⟨[], rfl, .nil⟩
  | @keep p q u c hsplit h ih =>
    rcases List.eq_nil_or_concat y with rfl | ⟨y, b, rfl⟩
    · rw [List.append_nil] at hq
      exact ⟨p ++ [c], (List.append_nil _).symm, hq ▸ .keep hsplit h⟩
    · rw [List.concat_eq_append, ← List.append_assoc] at hq
      obtain ⟨rfl, hbc⟩ := List.append_inj' hq rfl
      obtain rfl := (List.cons.inj hbc).1
      obtain ⟨x', rfl, hx⟩ := ih (y := y) (fun hmem => hy (by simp [hmem])) rfl
      exact ⟨x', by simp, hx⟩
  | @replace p q w u before after gs o hsplit hcode hread hgroups h ih =>
    rcases List.eq_nil_or_concat y with rfl | ⟨y, b, rfl⟩
    · rw [List.append_nil] at hq
      exact ⟨p ++ w, (List.append_nil _).symm, hq ▸ .replace hsplit hcode hread hgroups h⟩
    · obtain ⟨v, hv⟩ := hnew o
      rw [hv, List.concat_eq_append, ← List.append_assoc, ← List.append_assoc] at hq
      obtain rfl := (List.cons.inj (List.append_inj' hq rfl).2).1
      exact absurd (by simp) hy

theorem OpensDeclaration.of_apply (h : OpensDeclaration (typedDeclaration.apply t)) :
    OpensDeclaration t := by
  obtain ⟨x, y, hsplit, hlast, hcode, hy⟩ := h
  have hnew : ∀ o, ∃ u, typedDeclaration.replacement o = u ++ ['='] := fun o =>
    ⟨"var" ++ o.groupText 1 ++ o.groupText 2 ++ [' '], by simp [typedDeclaration]⟩
  have hedits := edits_apply typedDeclaration t
  rw [hsplit] at hedits
  obtain ⟨x', rfl, hx⟩ := hedits.exists_of_append hnew (hy.not_mem (by decide))
  refine ⟨x', y, rfl, fun c hc => ?_, ?_, hy⟩
  · cases hx with
    | nil => cases hc
    | keep _ _ => exact hlast c (by simpa using hc)
    | replace _ _ hread _ _ =>
      obtain ⟨u, _, _, rfl, -⟩ := exists_of_reads_typedDeclaration hread
      obtain rfl : '=' = c := by simpa [← List.append_assoc] using hc
      decide
  · rwa [← (hx.swaps exchanges_typedDeclaration).reads_alike.1]

end Kept

end CanvasPage.Substitution
