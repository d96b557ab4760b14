import CanvasPage.Proofs.Procedure.Substitution

namespace CanvasPage

/-- Neither neighbour of what stands between the two texts is a word character. -/
def IsDelimited (before after : Text) : Prop :=
  (∀ c ∈ before.getLast?, Text.isWordChar c = false) ∧
    ∀ c ∈ after.head?, Text.isWordChar c = false

/-- Code in which no substitution finds anything. -/
structure IsPlainCode (t : Text) : Prop where
  no_less : '<' ∉ t
  no_spread : ¬ ("..." : Text) <:+: t
  no_declaration : ∀ a kw b, t = a ++ (kw ++ b) → kw = "let" ∨ kw = "const" → ¬ IsDelimited a b
  no_annotation : ∀ a ws name bs b, t = a ++ ("var" ++ (ws ++ (name ++ (bs ++ ':' :: b)))) →
    (∀ c ∈ a.getLast?, Text.isWordChar c = false) → ws ≠ [] → Text.allBlank ws = true →
    Text.isIdentifier name = true → Text.allBlank bs = false
  no_cast : ∀ a c d b, t = a ++ c :: 'a' :: 's' :: d :: b → Text.isBlank c = true →
    Text.isBlank d = false
  no_assertion : ∀ a c b, t = a ++ '!' :: c :: b → c ∉ (".;),[" : Text)

theorem isPlainCode_of_not_infix {t : Text} (hmarks : '<' ∉ t ∧ ':' ∉ t ∧ '!' ∉ t)
    (hwords : ∀ w ∈ (["...", "let", "const", "as"] : List Text), ¬ w <:+: t) : IsPlainCode t where
  no_less := hmarks.1
  no_spread := hwords _ (by simp)
  no_declaration := by
    rintro a kw b rfl hkw -
    have hpart : kw <:+: a ++ (kw ++ b) := ⟨a, b, List.append_assoc _ _ _⟩
    rcases hkw with rfl | rfl
    · exact hwords _ (by simp) hpart
    · exact hwords _ (by simp) hpart
  no_annotation := by
    rintro a ws name bs b rfl
    exact absurd (by simp) hmarks.2.1
  no_cast := by
    rintro a c d b rfl
    exact absurd ⟨a ++ [c], d :: b, by simp⟩ (hwords "as" (by simp))
  no_assertion := by
    rintro a c b rfl
    exact absurd (by simp) hmarks.2.2

namespace Substitution

open Pattern

variable {before w rest t : Text} {gs : GroupTexts}

theorem not_isWordChar_of_isBlank {c : Char} (h : Text.isBlank c = true) :
    Text.isWordChar c = false := by
  have hcontinues := Text.not_continuesIdentifier_of_isBlank h
  rw [Text.continuesIdentifier, Bool.or_eq_false_iff] at hcontinues
  exact hcontinues.1

theorem not_isAnnotated (ht : IsPlainCode t) (hsplit : t = before.reverse ++ (w ++ rest))
    {ws name : Text} : ¬ IsAnnotated before w ws name := by
  intro h
  obtain ⟨kw, hkw, bs, cs, hbs, rfl⟩ := h.split
  obtain ⟨d, ws, rfl⟩ := List.exists_cons_of_ne_nil h.ne_nil
  have hd : Text.isBlank d = true := by
    have hblank := h.blank
    rw [Text.allBlank, List.all_cons, Bool.and_eq_true] at hblank
    exact hblank.1
  have hbefore : ∀ c ∈ before.reverse.getLast?, Text.isWordChar c = false := by
    rw [List.getLast?_reverse]
    exact h.boundary
  have hdeclared : ∀ kw : Text, (kw = "let" ∨ kw = "const") →
      t ≠ before.reverse ++ ((kw ++ (d :: ws ++ (name ++ (bs ++ ':' :: cs)))) ++ rest) := by
    intro kw hkw heq
    rw [List.append_assoc] at heq
    refine ht.no_declaration _ kw _ heq hkw ⟨hbefore, ?_⟩
    intro c hc
    obtain rfl : d = c := by simpa using hc
    exact not_isWordChar_of_isBlank hd
  simp only [keywords, List.mem_cons, List.not_mem_nil, or_false] at hkw
  rcases hkw with rfl | rfl | rfl
  · exact hdeclared _ (.inl rfl) hsplit
  · exact hdeclared _ (.inr rfl) hsplit
  · have hfalse := ht.no_annotation before.reverse (d :: ws) name bs (cs ++ rest)
      (by simpa only [List.append_assoc, List.cons_append] using hsplit) hbefore h.ne_nil h.blank
      h.isIdentifier
    rw [hbs] at hfalse
    cases hfalse

theorem not_reads_blockScopedDeclaration (ht : IsPlainCode t)
    (hsplit : t = before.reverse ++ (w ++ rest)) :
    ¬ blockScopedDeclaration.pattern.Reads before w rest gs := by
  intro h
  obtain ⟨g, kw, rfl, hkw, -, hg, hrest⟩ := exists_of_reads_blockScopedDeclaration h
  refine ht.no_declaration (before.reverse ++ g) kw rest ?_ hkw ⟨fun c hc => ?_, hrest⟩
  · simpa only [List.append_assoc] using hsplit
  · rcases hg with ⟨rfl, rfl⟩ | ⟨d, rfl, hd⟩
    · simp at hc
    · obtain rfl : d = c := by simpa using hc
      exact not_isWordChar_of_not_isPathChar hd

theorem exists_of_allBlank {ws : Text} (hne : ws ≠ []) (h : Text.allBlank ws = true) :
    ∃ u c, ws = u ++ [c] ∧ Text.isBlank c = true := by
  rcases List.eq_nil_or_concat ws with rfl | ⟨u, c, rfl⟩
  · exact absurd rfl hne
  · rw [Text.allBlank, List.all_eq_true] at h
    exact ⟨u, c, List.concat_eq_append, h c (by simp)⟩

theorem not_reads_cast (ht : IsPlainCode t) (hsplit : t = before.reverse ++ (w ++ rest)) :
    ¬ cast.pattern.Reads before w rest gs := by
  intro h
  obtain ⟨ws, bs, v, rfl, hne, hws, hbs, hblank, -⟩ := exists_of_reads_cast h
  obtain ⟨u, c, rfl, hc⟩ := exists_of_allBlank hne hws
  obtain ⟨d, bs, rfl⟩ := List.exists_cons_of_ne_nil hbs
  rw [Text.allBlank, List.all_cons, Bool.and_eq_true] at hblank
  have has : ("as" : Text) = ['a', 's'] := rfl
  have hd := ht.no_cast (before.reverse ++ u) c d (bs ++ (v ++ rest))
    (by simpa only [has, List.append_assoc, List.cons_append, List.nil_append] using hsplit) hc
  rw [hblank.1] at hd
  cases hd

theorem not_reads_of_isPlainCode (ht : IsPlainCode t) (hsplit : t = before.reverse ++ (w ++ rest))
    {s : Substitution} (hs : s ∈ all) : ¬ s.pattern.Reads before w rest gs := by
  have hpart : w <:+: t := ⟨before.reverse, rest, by rw [hsplit, List.append_assoc]⟩
  intro h
  rcases mem_all_iff.mp hs with hs | rfl | rfl
  · cases isMatch_of_reads hs h with
    | typed _ _ hname => exact not_isAnnotated ht hsplit hname
    | blockScoped => exact not_reads_blockScopedDeclaration ht hsplit h
    | @spread u v hw =>
      exact ht.no_spread (.trans ⟨'[' :: u, v ++ [']'], by simp [hw]⟩ hpart)
    | construction hw hless => exact ht.no_less (hpart.subset (by simp [hw, hless]))
  · exact not_reads_cast ht hsplit h
  · obtain ⟨c, d, rfl, -, -, -, hd⟩ := exists_of_reads_nonNullAssertion h
    refine ht.no_assertion (before.reverse ++ [c]) d rest ?_ hd
    simpa only [List.append_assoc, List.cons_append, List.nil_append] using hsplit

def onSegment (s : Substitution) : Script.Segment → Text
  | .code c => s.pattern.replaceAll s.replacement c
  | .literal l => l

theorem apply_eq_flatMap (s : Substitution) (t : Text) :
    s.apply t = (Script.segments t).flatMap s.onSegment := by
  rw [apply]
  refine List.flatMap_congr fun g _ => ?_
  cases g <;> rfl

theorem apply_of_isPlainCode (ht : ∀ c, .code c ∈ Script.segments t → IsPlainCode c)
    {s : Substitution} (hs : s ∈ all) : s.apply t = t := by
  have hsegment : ∀ g ∈ Script.segments t, s.onSegment g = g.text := by
    intro g hg
    cases g with
    | literal l => rfl
    | code c =>
      exact replaceAll_eq_self fun _ _ _ _ hsplit _ =>
        not_reads_of_isPlainCode (ht c hg) hsplit hs
  rw [apply_eq_flatMap, List.flatMap_congr hsegment, Script.flatten_segments]

theorem applyAll_induction {P : Text → Prop} (ht : P t) (h : ∀ s ∈ all, ∀ t, P t → P (s.apply t)) :
    P (applyAll t) :=
  List.foldlRecOn all _ ht fun t ht s hs => h s hs t ht

theorem applyAll_of_isPlainCode (ht : ∀ c, .code c ∈ Script.segments t → IsPlainCode c) :
    applyAll t = t := by
  refine applyAll_induction (P := (· = t)) rfl ?_
  rintro s hs _ rfl
  exact apply_of_isPlainCode ht hs

end Substitution

end CanvasPage
