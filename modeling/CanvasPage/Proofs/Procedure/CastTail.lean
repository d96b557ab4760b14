import CanvasPage.Proofs.Procedure.CastBorder
import CanvasPage.Proofs.Procedure.Characters

namespace CanvasPage

namespace Pattern

variable {pattern : Pattern} {new : Occurrence → Text} {before s rest w after : Text} {c : Char}

/-- No match begins in `s`, which `rest` follows. -/
def SkipsOver (pattern : Pattern) (before s rest : Text) : Prop :=
  ∀ x y w after gs, s = x ++ y → y ≠ [] → y ++ rest = w ++ after → w ≠ [] →
    ¬ pattern.Reads (x.reverse ++ before) w after gs

theorem replaceFrom_of_skipsOver (h : pattern.SkipsOver before s rest) :
    pattern.replaceFrom new 0 before (s ++ rest) =
      s ++ pattern.replaceFrom new 0 (s.reverse ++ before) rest := by
  induction s generalizing before with
  | nil => rfl
  | cons c s ih =>
    have hhere : pattern.at? ⟨before, c :: (s ++ rest)⟩ = none :=
      at?_eq_none_of_reads fun w after gs heq hne =>
        h [] (c :: s) w after gs rfl (List.cons_ne_nil c s) heq hne
    have hlater : pattern.SkipsOver (c :: before) s rest := by
      intro x y w after gs hsplit hy heq hne
      have hread := h (c :: x) y w after gs (by rw [hsplit, List.cons_append]) hy heq hne
      simpa using hread
    rw [List.cons_append, replaceFrom, hhere]
    dsimp only
    rw [ih hlater, List.reverse_cons, List.append_assoc, List.singleton_append, List.cons_append]

theorem replaceFrom_eq_self_of_skipsOver (h : pattern.SkipsOver before s []) :
    pattern.replaceFrom new 0 before s = s := by
  have hskip : pattern.replaceFrom new 0 before (s ++ []) =
      s ++ pattern.replaceFrom new 0 (s.reverse ++ before) [] := replaceFrom_of_skipsOver h
  rwa [List.append_nil, replaceFrom, List.append_nil] at hskip

theorem replaceFrom_front (hend : pattern.isOpenEnded = true) (hnew : IsTextual new) (hs : s ≠ [])
    (h : ∀ before, pattern.SkipsOver before s rest) (b : Text) :
    pattern.replaceFrom new 0 b (s ++ rest) = pattern.replaceFrom new 0 [] (s ++ rest) := by
  rw [replaceFrom_of_skipsOver (h b), replaceFrom_of_skipsOver (h []), List.append_nil,
    replaceFrom_frame hend hnew (.inl (by simpa using hs))]

end Pattern

namespace CastType

open Pattern Script Substitution

def tail (T : CastType) : Text := " as " ++ (T.text ++ ";")

def rest (T : CastType) : Text := argumentText T.arguments ++ (brackets T.dimensions ++ [';'])

variable {T : CastType} {before w after x y a : Text} {gs : GroupTexts} {s : Substitution} {c : Char}

theorem tail_eq (T : CastType) : T.tail = (" as " ++ T.name) ++ T.rest := by
  have hend : (";" : Text) = [';'] := rfl
  simp only [tail, text, rest, hend, List.append_assoc]

theorem mem_rest_of_none (h : T.arguments = none) : ∀ c ∈ T.rest, c ∈ ("[];" : Text) := by
  intro c hc
  rw [rest, h, argumentText, List.nil_append] at hc
  rcases List.mem_append.mp hc with hc | hc
  · rcases mem_brackets c hc with rfl | rfl <;> decide
  · rw [List.mem_singleton.mp hc]
    decide

theorem head?_rest (T : CastType) : ∃ c u, T.rest = c :: u ∧ isPathChar c = false ∧
    Text.isBlank c = false := by
  have hends : ∀ c ∈ ("[];" : Text), isPathChar c = false ∧ Text.isBlank c = false := by decide
  cases ha : T.arguments with
  | none =>
    obtain ⟨c, u, hcons⟩ : ∃ c u, T.rest = c :: u :=
      List.exists_cons_of_ne_nil (List.append_ne_nil_of_right_ne_nil _ (by simp))
    exact ⟨c, u, hcons, hends c (mem_rest_of_none ha c (by simp [hcons]))⟩
  | some a =>
    rw [rest, ha]
    exact ⟨'<', _, rfl, by decide, by decide⟩

theorem startsCast_tail (hT : T.IsSupported) : StartsCast T.tail := by
  obtain ⟨n, name, hname⟩ := List.exists_cons_of_ne_nil hT.name_ne_nil
  refine ⟨⟨n, name ++ T.rest, by rw [tail_eq, hname]; rfl, hT.isPathChar n (by simp [hname])⟩, ?_⟩
  intro u v heq
  have hname : ∀ c ∈ " as " ++ T.name, isPathChar c = true ∨ Text.isBlank c = true := by
    intro c hc
    rcases List.mem_append.mp hc with hc | hc
    · have has : ∀ c ∈ (" as " : Text), isPathChar c = true ∨ Text.isBlank c = true := by decide
      exact has c hc
    · exact .inl (hT.isPathChar c hc)
  have hclose : '>' ∉ " as " ++ T.name := fun hmem =>
    (hname _ hmem).elim (by decide) (by decide)
  rw [tail_eq] at heq
  obtain ⟨u', hu, hrest⟩ : ∃ u', u = (" as " ++ T.name) ++ u' ∧ T.rest = u' ++ '>' :: v :=
    exists_append_of_not_mem hclose heq
  rw [hu]
  refine List.mem_append_right _ ?_
  cases ha : T.arguments with
  | none =>
    have hmem := mem_rest_of_none ha '>' (by rw [hrest]; simp)
    exact absurd hmem (by decide)
  | some a =>
    rw [rest, ha] at hrest
    obtain ⟨u'', rfl, -⟩ := exists_append_of_not_mem (u := ['<']) (by decide) hrest
    simp

theorem head?_name_of_isSupported (hT : T.IsSupported) (hconst : T.name ≠ "const") :
    ∀ c ∈ T.name.head?, c ≠ 'l' ∧ c ≠ 'c' := by
  cases hT with
  | @builtin name n h =>
    have hheads : ∀ name ∈ builtins, name ≠ "const" → ∀ c ∈ name.head?, c ≠ 'l' ∧ c ≠ 'c' := by
      simp only [builtins, List.mem_cons, List.not_mem_nil, or_false]
      rintro name (rfl | rfl | rfl | rfl | rfl | rfl) hne
      all_goals simp_all
    exact hheads name h hconst
  | @named name arguments n h _ =>
    cases name with
    | nil => cases h
    | cons d name =>
      rw [isTypeName, Bool.and_eq_true] at h
      rintro c ⟨⟩
      constructor
      · rintro rfl
        exact absurd h.1 (by decide)
      · rintro rfl
        exact absurd h.1 (by decide)

theorem cases_of_suffix (hT : T.IsSupported) (hsplit : " as " ++ T.name = x ++ y) (hy : y ≠ []) :
    (∃ c u, y = c :: u ∧ c ∈ (" as" : Text) ∧ (c = ' ' → u = "as " ++ T.name ∨ u = T.name)) ∨
      ∀ c ∈ y, isPathChar c = true := by
  have has : (" as " : Text) = [' ', 'a', 's', ' '] := rfl
  have has' : ("as " : Text) = ['a', 's', ' '] := rfl
  simp only [has, List.cons_append, List.nil_append] at hsplit
  obtain ⟨e, v, rfl⟩ := List.exists_cons_of_ne_nil hy
  rcases x with _ | ⟨a, _ | ⟨b, _ | ⟨c, _ | ⟨d, x⟩⟩⟩⟩
  all_goals
    simp only [List.nil_append, List.cons_append, List.cons.injEq] at hsplit
  · obtain ⟨rfl, rfl⟩ := hsplit
    exact .inl ⟨' ', _, rfl, by decide, fun _ => .inl (by rw [has']; rfl)⟩
  · obtain ⟨-, rfl, rfl⟩ := hsplit
    exact .inl ⟨'a', _, rfl, by decide, fun h => absurd h (by decide)⟩
  · obtain ⟨-, -, rfl, rfl⟩ := hsplit
    exact .inl ⟨'s', _, rfl, by decide, fun h => absurd h (by decide)⟩
  · obtain ⟨-, -, -, rfl, rfl⟩ := hsplit
    exact .inl ⟨' ', _, rfl, by decide, fun _ => .inr rfl⟩
  · obtain ⟨-, -, -, -, hname⟩ := hsplit
    exact .inr fun c hc => hT.isPathChar c (by rw [hname]; exact List.mem_append_right x hc)

theorem not_word_of_suffix {kw ws v : Text} (hT : T.IsSupported)
    (hsplit : " as " ++ T.name = x ++ y) (hy : y ≠ []) (hkw : ∀ c ∈ kw, isPathChar c = true)
    (hhead : ∀ c ∈ kw.head?, c ∉ (" as" : Text)) (hne : kw ≠ []) (hws : Text.allBlank ws = true)
    (hws' : ws ≠ []) : y ++ T.rest ≠ kw ++ (ws ++ v) := by
  intro heq
  obtain ⟨d, kw', rfl⟩ := List.exists_cons_of_ne_nil hne
  rcases cases_of_suffix hT hsplit hy with ⟨c, u, rfl, hc, -⟩ | hpath
  · obtain rfl := (List.cons.inj heq).1
    exact hhead _ rfl hc
  · obtain ⟨e, ws', rfl⟩ := List.exists_cons_of_ne_nil hws'
    obtain ⟨b, r, hrest, hbpath, hbblank⟩ := head?_rest T
    have he : Text.isBlank e = true := List.all_eq_true.mp hws e List.mem_cons_self
    have hepath : isPathChar e = false := by
      by_contra h
      rw [(isQuiet_of_isPathChar (eq_true_of_ne_false h)).2.2] at he
      cases he
    obtain ⟨-, hafter⟩ := Text.eq_of_append_eq hpath hkw (by simpa [hrest] using hbpath)
      (by simpa using hepath) heq
    rw [hrest] at hafter
    obtain rfl := (List.cons.inj hafter).1
    rw [he] at hbblank
    cases hbblank

theorem exists_word_of_isAnnotated {ws name : Text} (h : IsAnnotated before w ws name) :
    ∃ kw v, w = kw ++ (ws ++ v) ∧ kw ≠ [] ∧ (∀ c ∈ kw, isPathChar c = true) ∧
      ∀ c ∈ kw.head?, c ∉ (" as" : Text) := by
  obtain ⟨kw, hkw, bs, cs, -, rfl⟩ := h.split
  have hwords : ∀ kw ∈ keywords, kw ≠ [] ∧ ∀ c ∈ kw, isPathChar c = true := by decide
  have hhead : ∀ kw ∈ keywords, ∀ c ∈ kw.head?, c ∉ (" as" : Text) := by simp [keywords]
  obtain ⟨hne, hpath⟩ := hwords kw hkw
  exact ⟨kw, _, rfl, hne, hpath, hhead kw hkw⟩

theorem ne_keyword_of_suffix {c d : Char} (hT : T.IsSupported) (hconst : T.name ≠ "const")
    (hsplit : " as " ++ T.name = x ++ y) (hy : y ≠ []) (hd : isPathChar d = false)
    (hc : c = 'l' ∨ c = 'c') (u : Text) : y ++ T.rest ≠ d :: c :: u := by
  intro heq
  rcases cases_of_suffix hT hsplit hy with ⟨e, v, rfl, he, hv⟩ | hpath
  · obtain ⟨rfl, hrest⟩ := List.cons.inj heq
    have hspaces : ∀ e ∈ (" as" : Text), isPathChar e = false → e = ' ' := by decide
    rcases hv (hspaces _ he hd) with rfl | rfl
    · obtain rfl : 'a' = c := (List.cons.inj hrest).1
      exact absurd hc (by decide)
    · obtain ⟨n, name, hname⟩ := List.exists_cons_of_ne_nil hT.name_ne_nil
      have hhead := head?_name_of_isSupported hT hconst n (by rw [hname]; rfl)
      rw [hname] at hrest
      obtain rfl : n = c := (List.cons.inj hrest).1
      exact hc.elim hhead.1 hhead.2
  · obtain ⟨e, y, rfl⟩ := List.exists_cons_of_ne_nil hy
    obtain rfl := (List.cons.inj heq).1
    rw [hpath _ List.mem_cons_self] at hd
    cases hd

theorem skipsOver_name (hT : T.IsSupported) (hconst : T.name ≠ "const") (hs : s ∈ beforeCast)
    (before : Text) : s.pattern.SkipsOver before (" as " ++ T.name) T.rest := by
  intro x y w after gs hsplit hy heq hne hread
  cases isMatch_of_reads hs hread with
  | typed _ _ h =>
    obtain ⟨kw, v, rfl, hkw, hpath, hhead⟩ := exists_word_of_isAnnotated h
    refine not_word_of_suffix hT hsplit hy hpath hhead hkw h.blank h.ne_nil (v := v ++ after) ?_
    simpa using heq
  | @blockScoped g kw hw hkw _ hg =>
    subst hw
    obtain ⟨c, u, rfl, hc⟩ : ∃ c u, kw = c :: u ∧ (c = 'l' ∨ c = 'c') := by
      rcases hkw with rfl | rfl
      · exact ⟨'l', _, rfl, .inl rfl⟩
      · exact ⟨'c', _, rfl, .inr rfl⟩
    rcases hg with ⟨hbefore, rfl⟩ | ⟨d, rfl, hd⟩
    · obtain rfl : x = [] := by simpa using (List.append_eq_nil_iff.mp hbefore).1
      obtain rfl : " as " ++ T.name = y := hsplit
      obtain rfl : ' ' = c := (List.cons.inj heq).1
      exact absurd hc (by decide)
    · exact ne_keyword_of_suffix hT hconst hsplit hy hd hc _ heq
  | spread hw =>
    subst hw
    obtain ⟨c, y, rfl⟩ := List.exists_cons_of_ne_nil hy
    obtain rfl := (List.cons.inj heq).1
    rcases cases_of_suffix hT hsplit hy with ⟨c, u, hcons, hc, -⟩ | hpath
    · obtain rfl := (List.cons.inj hcons).1
      exact absurd hc (by decide)
    · exact absurd (hpath '[' (by simp)) (by decide)
  | construction =>
    obtain ⟨ws, path, bs, v, cs, rfl, hws', hws, -⟩ := (isConstructorCall_of_reads hread).split
    have hword : y ++ T.rest =
        "new" ++ (ws ++ (path ++ (bs ++ '<' :: (v ++ '>' :: (cs ++ ['(']))) ++ after)) := by
      simpa using heq
    have hhead : ∀ c ∈ ("new" : Text).head?, c ∉ (" as" : Text) := by simp
    exact not_word_of_suffix hT hsplit hy (by decide) hhead (by decide) hws hws' hword

section Arguments

theorem exists_pathChar_of_reads (hs : s ∈ beforeCast) (hread : s.pattern.Reads before w after gs) :
    ∃ c ∈ w, isPathChar c = true := by
  cases isMatch_of_reads hs hread with
  | typed _ _ h =>
    obtain ⟨kw, v, rfl, hne, hpath, -⟩ := exists_word_of_isAnnotated h
    obtain ⟨c, kw, rfl⟩ := List.exists_cons_of_ne_nil hne
    exact ⟨c, by simp, hpath c (by simp)⟩
  | @blockScoped g _ hw hkw =>
    refine ⟨'t', ?_, by decide⟩
    rw [hw]
    rcases hkw with rfl | rfl <;> exact List.mem_append_right g (by decide)
  | spread hw => exact ⟨'.', by simp [hw], by decide⟩
  | construction hw => exact ⟨'n', by simp [hw], by decide⟩

theorem skipsOver_of_forall {t : Text} (hs : s ∈ beforeCast)
    (ht : ∀ c ∈ t, isPathChar c = false) (before : Text) : s.pattern.SkipsOver before t [] := by
  rintro x y w after gs rfl - heq - hread
  obtain ⟨c, hc, hpath⟩ := exists_pathChar_of_reads hs hread
  rw [List.append_nil] at heq
  rw [ht c (by rw [heq]; simp [hc])] at hpath
  cases hpath

def close (n : Nat) : Text := '>' :: (brackets n ++ [';'])

theorem mem_close {n : Nat} : ∀ c ∈ close n, c ∈ (">[];" : Text) := by
  intro c hc
  simp only [close, List.mem_cons, List.mem_append, List.not_mem_nil, or_false] at hc
  rcases hc with rfl | hc | rfl
  · decide
  · rcases mem_brackets c hc with rfl | rfl <;> decide
  · decide

theorem opensDeclaration_of_angle (h : OpensDeclaration ('<' :: a)) : OpensDeclaration a := by
  obtain ⟨x, y, hsplit, hlast, hcode, hy⟩ := h
  rcases List.cons_eq_append_iff.mp hsplit with ⟨rfl, rfl⟩ | ⟨x, rfl, rfl⟩
  · exact absurd rfl (hy.head?_ne (c := '<') (by decide))
  · refine ⟨x, y, rfl, fun c hc => hlast c ?_, hcode, hy⟩
    rw [← List.singleton_append, List.getLast?_append_of_ne_nil]
    · exact hc
    · rintro rfl
      cases hc

theorem stopsBefore_close {n : Nat} (hs : s ∈ beforeCast) (ha : hasNoAngle a = true)
    (hcode : emitted .start ('<' :: a) = [])
    (hopen : s = typedDeclarationWithoutValue → ¬ OpensDeclaration ('<' :: a)) (before : Text) :
    s.pattern.StopsBefore before ('<' :: a) (close n) := by
  intro x y hsplit hy
  obtain ⟨hless, hgreater⟩ := not_mem_of_hasNoAngle ha
  simp only [beforeCast, List.mem_cons, List.not_mem_nil, or_false] at hs
  rcases hs with rfl | rfl | rfl | rfl | rfl
  · refine staysIn_of_last fun w after gs hread c hc hmem => ?_
    obtain ⟨v, _, _, rfl, -⟩ := exists_of_reads_typedDeclaration hread
    obtain rfl : '=' = c := by simpa using hc
    exact absurd (mem_close '=' hmem) (by decide)
  · refine staysIn_typedDeclarationWithoutValue
      (holdsHeads_cons (by decide) (by decide) (by decide) _ _) fun hbefore hunfinished => ?_
    refine hopen rfl ⟨x, y, hsplit, fun c hc => hbefore c ?_, ?_, hunfinished⟩
    · obtain ⟨v, rfl⟩ := List.getLast?_eq_some_iff.mp hc
      simp
    · rw [hsplit, emitted_append, List.append_eq_nil_iff] at hcode
      exact hcode.2
  · exact staysIn_blockScopedDeclaration (by decide) hy
  · refine staysIn_of_not_mem_tail hy fun w after gs hread hmem => ?_
    obtain ⟨u, path, bs, rfl, -, hu, -, hpath, hbs⟩ := exists_path_of_reads_arraySpreadCopy hread
    have hmem := List.mem_of_mem_tail hmem
    simp only [List.mem_append, List.mem_singleton] at hmem
    rcases hmem with h | h | h | h
    · exact absurd (hu _ h) (by decide)
    · exact absurd (hpath _ h) (by decide)
    · exact absurd (List.all_eq_true.mp hbs _ h) (by decide)
    · exact absurd h (by decide)
  · intro w after gs heq hread
    by_contra hlong
    obtain ⟨u, hu, hw, hz⟩ := exists_of_crossing heq (Nat.lt_of_not_le hlong)
    obtain ⟨v, rfl, hmem, -⟩ := exists_of_reads_genericConstructorCall hread
    have hfirst : '<' ∈ y := by
      have hboth : '<' ∈ y ++ u := by
        rw [← hw]
        simp [hmem]
      refine (List.mem_append.mp hboth).resolve_right fun h => ?_
      exact absurd (mem_close (n := n) '<' (by rw [hz]; simp [h])) (by decide)
    rcases List.cons_eq_append_iff.mp hsplit with ⟨-, rfl⟩ | ⟨x, -, rfl⟩
    · exact absurd (List.cons.inj hw).1 (by decide)
    · exact hless (List.mem_append_right x hfirst)

theorem forall_mem_replaceFrom {P : Char → Prop} {t : Text} (hinserted : ∀ c ∈ inserted, P c)
    (hs : s ∈ all) (ht : ∀ c ∈ t, P c) (covered : Nat) (before : Text) :
    ∀ c ∈ s.pattern.replaceFrom s.replacement covered before t, P c := by
  induction t generalizing covered before with
  | nil => simp [replaceFrom]
  | cons d t ih =>
    obtain ⟨hd, ht'⟩ := List.forall_mem_cons.mp ht
    cases covered with
    | succ covered => exact ih ht' covered (d :: before)
    | zero =>
      rw [replaceFrom]
      cases hat : s.pattern.at? ⟨before, d :: t⟩ with
      | none => exact List.forall_mem_cons.mpr ⟨hd, ih ht' 0 (d :: before)⟩
      | some o =>
        obtain ⟨w, gs, -, hafter, -, -, -, hgroups, hread⟩ := exists_reads_of_at? hat
        refine List.forall_mem_append.mpr ⟨fun c hc => ?_, ih ht' _ (d :: before)⟩
        rcases List.mem_append.mp (replacement_subset hs hread hgroups hc) with hc | hc
        · exact ht c (by rw [show d :: t = w ++ o.stop.after from hafter]; simp [hc])
        · exact hinserted c hc

theorem hasNoAngle_replaceFrom (hs : s ∈ all) (ha : hasNoAngle a = true) (covered : Nat)
    (before : Text) :
    hasNoAngle (s.pattern.replaceFrom s.replacement covered before a) = true := by
  rw [hasNoAngle, List.all_eq_true] at ha ⊢
  exact forall_mem_replaceFrom (by decide) hs ha covered before

theorem exists_replaceFrom_arguments (hs : s ∈ beforeCast) (ha : hasNoAngle a = true)
    (before : Text) : ∃ a', hasNoAngle a' = true ∧
      s.pattern.replaceFrom s.replacement 0 before ('<' :: a) = '<' :: a' := by
  have hall := mem_all_of_mem_beforeCast hs
  have hdone := hasNoAngle_replaceFrom hall ha
  rw [replaceFrom]
  cases hat : s.pattern.at? ⟨before, '<' :: a⟩ with
  | none => exact ⟨_, hdone 0 ('<' :: before), rfl⟩
  | some o =>
    obtain ⟨w, gs, -, hafter, -, -, -, hgroups, hread⟩ := exists_reads_of_at? hat
    cases isMatch_of_reads hs hread with
    | typed _ _ h =>
      obtain ⟨kw, v, rfl, hne, hpath, -⟩ := exists_word_of_isAnnotated h
      obtain ⟨c, kw, rfl⟩ := List.exists_cons_of_ne_nil hne
      obtain rfl : '<' = c := (List.cons.inj hafter).1
      exact absurd (hpath '<' (by simp)) (by decide)
    | blockScoped hw hkw hg hsides =>
      subst hw
      rcases hsides with ⟨-, rfl⟩ | ⟨d, rfl, -⟩
      · rcases hkw with rfl | rfl
        · exact absurd (List.cons.inj hafter).1 (by decide)
        · exact absurd (List.cons.inj hafter).1 (by decide)
      · obtain rfl : '<' = d := (List.cons.inj hafter).1
        have hnew : blockScopedDeclaration.replacement o = '<' :: "var" := by
          simp only [blockScopedDeclaration, hgroups, hg]
          rfl
        refine ⟨"var" ++ _, ?_, congrArg (· ++ _) hnew⟩
        have happend : ∀ t u, hasNoAngle (t ++ u) = (hasNoAngle t && hasNoAngle u) :=
          fun _ _ => List.all_append
        rw [happend, hdone]
        decide
    | spread hw =>
      subst hw
      exact absurd (List.cons.inj hafter).1 (by decide)
    | construction hw =>
      subst hw
      exact absurd (List.cons.inj hafter).1 (by decide)

end Arguments

section Passes

theorem tail_ne_nil (T : CastType) : T.tail ≠ [] := List.cons_ne_nil ' ' _

/-- What a cast and its type are to the passes before casts are dropped. -/
structure IsPlain (T : CastType) : Prop where
  supported : T.IsSupported
  name_ne : T.name ≠ "const"
  code : emitted .start T.tail = []

theorem IsPlain.code_arguments (hT : T.IsPlain) (ha : a ∈ T.arguments) :
    emitted .start ('<' :: a) = [] := by
  have hcode := hT.code
  obtain ⟨name, arguments, n⟩ := T
  obtain rfl := Option.mem_def.mp ha
  have hquiet : ∀ c ∈ " as " ++ name, isQuiet c = true := by
    intro c hc
    rcases List.mem_append.mp hc with hc | hc
    · have has : ∀ c ∈ (" as " : Text), isQuiet c = true := by decide
      exact has c hc
    · exact (isQuiet_of_isPathChar (hT.supported.isPathChar c hc)).1
  have hrest : CastType.rest ⟨name, some a, n⟩ = ('<' :: a) ++ close n := by
    simp [rest, argumentText, close]
  rw [tail_eq, hrest, emitted_append, run_of_isQuiet rfl (by simp) hquiet] at hcode
  have hrun := (List.append_eq_nil_iff.mp hcode).2
  rw [emitted_append] at hrun
  exact (List.append_eq_nil_iff.mp hrun).1

/-- A pass before casts are dropped leaves a cast and its type in place, whatever becomes of the
arguments. -/
theorem exists_tail_apply (hT : T.IsPlain) (hs : s ∈ beforeCast)
    (hopen : s = typedDeclarationWithoutValue → ∀ a ∈ T.arguments, ¬ OpensDeclaration ('<' :: a)) :
    ∃ T' : CastType, T'.IsPlain ∧ s.apply T.tail = T'.tail ∧
      ∀ a' ∈ T'.arguments, ∃ a ∈ T.arguments,
        '<' :: a' = s.pattern.replaceFrom s.replacement 0 (" as " ++ T.name).reverse ('<' :: a) := by
  obtain ⟨hend, hnew⟩ := isOpenEnded_of_mem_all (mem_all_of_mem_beforeCast hs)
  have hskip := skipsOver_name hT.supported hT.name_ne hs []
  have happly := apply_of_emitted (tail_ne_nil T) hT.code s
  rw [replaceAll, tail_eq, replaceFrom_of_skipsOver hskip, List.append_nil, ← tail_eq] at happly
  have hcode := emitted_apply hs hT.code
  have hsupported := hT.supported
  have hname := hT.name_ne
  have harguments := fun a ha => hT.code_arguments (a := a) ha
  obtain ⟨name, arguments, n⟩ := T
  cases arguments with
  | none =>
    have hrest : s.pattern.replaceFrom s.replacement 0 (" as " ++ name).reverse
        (CastType.rest ⟨name, none, n⟩) = CastType.rest ⟨name, none, n⟩ := by
      refine replaceFrom_eq_self_of_skipsOver (skipsOver_of_forall hs (fun c hc => ?_) _)
      have hends : ∀ c ∈ ("[];" : Text), isPathChar c = false := by decide
      exact hends c (mem_rest_of_none rfl c hc)
    rw [hrest, ← tail_eq] at happly
    exact ⟨_, hT, happly, by simp⟩
  | some a =>
    have ha := hsupported.hasNoAngle a rfl
    obtain ⟨a', ha', hreplaced⟩ := exists_replaceFrom_arguments hs ha (" as " ++ name).reverse
    have hstops := stopsBefore_close (n := n) hs ha (harguments a rfl)
      (fun h => hopen h a rfl) (" as " ++ name).reverse
    have hclose : s.pattern.replaceFrom s.replacement 0
        (('<' :: a).reverse ++ (" as " ++ name).reverse) (close n) = close n := by
      refine replaceFrom_eq_self_of_skipsOver (skipsOver_of_forall hs (fun c hc => ?_) _)
      have hends : ∀ c ∈ (">[];" : Text), isPathChar c = false := by decide
      exact hends c (mem_close c hc)
    have hrest : ∀ a, CastType.rest ⟨name, some a, n⟩ = ('<' :: a) ++ close n := by
      simp [rest, argumentText, close]
    have htail : s.apply (CastType.tail ⟨name, some a, n⟩) = CastType.tail ⟨name, some a', n⟩ := by
      rw [happly, hrest, replaceFrom_append hend rfl hnew hstops (Nat.zero_le _), hclose, hreplaced,
        ← hrest]
      exact (tail_eq ⟨name, some a', n⟩).symm
    refine ⟨⟨name, some a', n⟩, ⟨?_, hname, htail ▸ hcode⟩, htail, ?_⟩
    · cases hsupported with
      | named h _ => exact .named h (by simpa using ha')
    · rintro a'' ⟨⟩
      exact ⟨a, rfl, hreplaced.symm⟩

end Passes

end CastType

end CanvasPage
