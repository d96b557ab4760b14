import CanvasPage.Proofs.Pattern.Complete
import CanvasPage.Proofs.Procedure.Body
import CanvasPage.Proofs.Procedure.Exchange
import CanvasPage.Proofs.Procedure.Indentation
import CanvasPage.Proofs.Procedure.Words

namespace CanvasPage

namespace Substitution

open Pattern Script

variable {before w ws bs cs name kw mid rest t p u v r : Text} {gs : GroupTexts} {s : Substitution}
  {c : Char} {spot : Spot}

section Annotations

theorem IsAnnotated.eq_of_append_eq {ws' name' : Text} (h : IsAnnotated before w ws name)
    (hkw : kw ∈ keywords) (hne : ws' ≠ []) (hws : ∀ c ∈ ws', Text.isBlank c = true)
    (hname : Text.isIdentifier name' = true)
    (hr : ∀ c ∈ r.head?, Text.continuesIdentifier c = false)
    (heq : w ++ rest = kw ++ (ws' ++ (name' ++ r))) :
    ws = ws' ∧ name = name' ∧ ∃ bs cs, Text.allBlank bs = true ∧ r = bs ++ ':' :: cs := by
  obtain ⟨kw', hkw', bs, cs, hbs, rfl⟩ := h.split
  have hwords : ∀ kw ∈ keywords, ∀ c ∈ kw, Text.isWordChar c = true := by decide
  have hblank : ∀ c ∈ ws, Text.isBlank c = true := List.all_eq_true.mp h.blank
  have hletters : ∀ {n : Text}, Text.isIdentifier n = true → ∀ t : Text,
      ∀ c ∈ (n ++ t).head?, Text.isBlank c = false := by
    intro n hn t c hc
    rw [List.head?_append_of_ne_nil _ (Text.ne_nil_of_isIdentifier hn)] at hc
    exact Text.isBlank_of_continuesIdentifier
      (Text.continuesIdentifier_of_isIdentifier hn c (List.mem_of_head? hc))
  have hgap : ∀ {ws : Text}, ws ≠ [] → (∀ c ∈ ws, Text.isBlank c = true) → ∀ t : Text,
      ∀ c ∈ (ws ++ t).head?, Text.isWordChar c = false := by
    intro ws hne hblank t c hc
    rw [List.head?_append_of_ne_nil _ hne] at hc
    exact not_isWordChar_of_isBlank (hblank c (List.mem_of_head? hc))
  simp only [List.append_assoc, List.cons_append] at heq
  obtain ⟨rfl, hafter⟩ := Text.eq_of_append_eq (hwords _ hkw') (hwords _ hkw)
    (hgap h.ne_nil hblank _) (hgap hne hws _) heq
  obtain ⟨rfl, hnames⟩ := Text.eq_of_append_eq hblank hws (hletters h.isIdentifier _)
    (hletters hname _) hafter
  obtain ⟨rfl, rfl⟩ := Text.eq_of_append_eq
    (Text.continuesIdentifier_of_isIdentifier h.isIdentifier)
    (Text.continuesIdentifier_of_isIdentifier hname) (not_continuesIdentifier_colon hbs _) hr hnames
  exact ⟨rfl, rfl, bs, cs ++ rest, hbs, rfl⟩

theorem isPathChar_of_mem_keywords : ∀ kw ∈ keywords, ∃ u c, kw = u ++ [c] ∧ isPathChar c = true := by
  simp only [keywords, List.mem_cons, List.not_mem_nil, or_false, forall_eq_or_imp, forall_eq]
  exact ⟨⟨['l', 'e'], 't', rfl, by decide⟩, ⟨['c', 'o', 'n', 's'], 't', rfl, by decide⟩,
    ⟨['v', 'a'], 'r', rfl, by decide⟩⟩

theorem not_isAnnotated_of_spots (h : (spotAfter? spot t).isSome = true)
    (hsplit : t = p ++ (w ++ v)) : ¬ IsAnnotated before w ws name := by
  intro hannotated
  obtain ⟨kw, hkw, bs, cs, -, rfl⟩ := hannotated.split
  obtain ⟨u, c, rfl, hc⟩ := isPathChar_of_mem_keywords kw hkw
  obtain ⟨d, name, rfl⟩ :=
    List.exists_cons_of_ne_nil (Text.ne_nil_of_isIdentifier hannotated.isIdentifier)
  have hd := isPathChar_of_isIdentifier hannotated.isIdentifier d (by simp)
  have hnone : spotAfter? spot ((p ++ u) ++ c :: (ws ++ d :: (name ++ (bs ++ ':' :: (cs ++ v))))) =
      none := spotAfter?_gap hc hannotated.ne_nil hannotated.blank hd
  rw [hsplit] at h
  simp only [List.append_assoc, List.cons_append, List.nil_append] at h hnone
  rw [hnone] at h
  cases h

/-- Every match is a declaration that ends with the first `c`. -/
def StopsAt (s : Substitution) (c : Char) : Prop :=
  ∀ (before w after : Text) (gs : GroupTexts), s.pattern.Reads before w after gs →
    ∃ u ws name, w = u ++ [c] ∧ c ∉ u ∧ IsAnnotated before w ws name ∧ gs.text 1 = ws ∧
      gs.text 2 = name

theorem reads_annotated (hbefore : ∀ c ∈ before.head?, Text.isWordChar c = false)
    (hkw : kw ∈ keywords) (hne : ws ≠ []) (hws : Text.allBlank ws = true)
    (hname : Text.isIdentifier name = true) (hbs : Text.allBlank bs = true)
    (hcs : Text.allBlank cs = true) (rest : Text) :
    annotated.Reads before (kw ++ (ws ++ (name ++ (bs ++ ':' :: cs)))) rest
      [(2, name), (1, ws)] := by
  have hkeywords : anyOf ["let", "const", "var"] = anyOf (keywords.map literal) := rfl
  have hboundary : ∀ t, Cursor.atWordBoundary ⟨before, kw ++ t⟩ = true := by
    obtain ⟨c, u, rfl, hc⟩ := exists_cons_of_mem_keywords hkw
    exact fun t => atWordBoundary_start hbefore hc
  rw [annotated, hkeywords]
  simp only [reads_append, reads_keyword, reads_group, reads_blanks1, reads_blanks,
    reads_identifier, reads_literal]
  refine ⟨kw ++ (ws ++ (name ++ (bs ++ [':']))), cs, _, [], by simp, rfl,
    ⟨kw ++ (ws ++ (name ++ bs)), [':'], _, [], by simp, rfl,
      ⟨kw ++ (ws ++ name), bs, _, [], by simp, rfl,
        ⟨kw ++ ws, name, [(1, ws)], [(2, name)], by simp, rfl,
          ⟨kw, ws, [], _, rfl, rfl, ⟨[], kw, [], [], rfl, rfl, ⟨rfl, rfl, ?_⟩, hkw, rfl⟩,
            [], rfl, hne, hws, rfl⟩, [], rfl, hname, rfl⟩, hbs, rfl⟩, rfl, rfl⟩, hcs, rfl⟩
  exact hboundary _

theorem StopsAt.apply_eq {new : Text} (h : s.StopsAt c) (hkw : kw ∈ keywords)
    (hname : Text.isIdentifier name = true)
    (hc : c ∉ kw ++ ' ' :: (name ++ ':' :: mid))
    (hread : s.pattern.Reads [] ((kw ++ ' ' :: (name ++ ':' :: mid)) ++ [c]) rest gs)
    (hbare : ∀ d ∈ (kw ++ ' ' :: (name ++ ':' :: mid)) ++ c :: rest, isBare d = true)
    (hspots : (spotAfter? .apart rest).isSome = true)
    (hnew : ∀ o : Occurrence, o.groupText 1 = [' '] → o.groupText 2 = name →
      s.replacement o = new) :
    s.apply ((kw ++ ' ' :: (name ++ ':' :: mid)) ++ c :: rest) = new ++ rest := by
  obtain ⟨o, hat⟩ := exists_at?_of_reads hread fun v after hs hv => by
    obtain ⟨u, -, -, rfl, -⟩ := h _ _ _ _ hv
    simp
  obtain ⟨v, gs', -, hafter, -, hwidth, -, hgroups, hv⟩ := exists_reads_of_at? hat
  obtain ⟨u, ws, name', rfl, hu, hannotated, h₁, h₂⟩ := h _ _ _ _ hv
  have hne : ∀ {t : Text}, c ∉ t → ∀ d ∈ t, (d != c) = true := by
    intro t ht d hd
    rw [bne_iff_ne]
    rintro rfl
    exact ht hd
  have hsplit : u ++ c :: o.stop.after = (kw ++ ' ' :: (name ++ ':' :: mid)) ++ c :: rest := by
    simpa using hafter.symm
  obtain ⟨rfl, -⟩ := Text.eq_of_append_eq (p := (· != c)) (hne hu) (hne hc) (by simp) (by simp)
    hsplit
  have htext : (kw ++ ' ' :: (name ++ ':' :: mid) ++ [c]) ++ rest =
      kw ++ ([' '] ++ (name ++ ':' :: (mid ++ c :: rest))) := by simp
  obtain ⟨rfl, rfl, -⟩ := hannotated.eq_of_append_eq hkw (by simp) (by decide) hname
    (by simp; decide) htext
  have hwhole : ∀ t : Text, t ++ c :: rest = (t ++ [c]) ++ rest := by simp
  rw [apply_of_isBare (by simp) hbare, hwhole, replaceAll_append hat hwidth,
    hnew o ((hgroups 1).trans h₁) ((hgroups 2).trans h₂)]
  intro p u v gs hsplit _ hu
  obtain ⟨_, _, _, -, -, hagain, -⟩ := h _ _ _ _ hu
  exact not_isAnnotated_of_spots hspots hsplit hagain

theorem stopsAt_typedDeclaration : typedDeclaration.StopsAt '=' :=
  fun _ _ _ _ => exists_of_reads_typedDeclaration

theorem stopsAt_typedDeclarationWithoutValue : typedDeclarationWithoutValue.StopsAt ';' :=
  fun _ _ _ _ => exists_of_reads_typedDeclarationWithoutValue

theorem reads_typedDeclaration (hkw : kw ∈ keywords) (hname : Text.isIdentifier name = true)
    (hne : mid ≠ []) (hmid : ∀ c ∈ mid, c ∉ ("=;\n" : Text)) (rest : Text) :
    typedDeclaration.pattern.Reads [] ((kw ++ ' ' :: (name ++ ':' :: mid)) ++ ['=']) rest
      [(2, name), (1, [' '])] := by
  have hequals : ("=" : Text) = ['='] := rfl
  simp only [typedDeclaration, noneOf, reads_append, reads_lazyMany1, reads_blanks, reads_literal,
    hequals]
  refine ⟨_, ['='], _, [], rfl, rfl, ⟨_, [], _, [], (List.append_nil _).symm, rfl,
    ⟨kw ++ ([' '] ++ (name ++ ([] ++ [':']))), mid, _, [], by simp, rfl, ?_, hne,
      by simpa using hmid, rfl⟩, rfl, rfl⟩, rfl, rfl⟩
  exact reads_annotated (by simp) hkw (by simp) (by decide) hname rfl rfl _

theorem reads_typedDeclarationWithoutValue_of_annotated
    (h : annotated.Reads before u (mid ++ ';' :: rest) gs) (hne : mid ≠ [])
    (hmid : ∀ c ∈ mid, c ∉ ("=;\n" : Text)) :
    typedDeclarationWithoutValue.pattern.Reads before (u ++ mid ++ [';']) rest gs := by
  have hsemicolon : (";" : Text) = [';'] := rfl
  simp only [typedDeclarationWithoutValue, noneOf, reads_append, reads_many1, reads_literal,
    hsemicolon]
  refine ⟨u ++ mid, [';'], gs, [], rfl, by simp, ⟨u, mid, gs, [], rfl, by simp, ?_, hne,
    by simpa using hmid, rfl⟩, rfl, rfl⟩
  simpa using h

theorem reads_typedDeclarationWithoutValue (hkw : kw ∈ keywords)
    (hname : Text.isIdentifier name = true) (hne : mid ≠ [])
    (hmid : ∀ c ∈ mid, c ∉ ("=;\n" : Text)) (rest : Text) :
    typedDeclarationWithoutValue.pattern.Reads []
      ((kw ++ ' ' :: (name ++ ':' :: mid)) ++ [';']) rest [(2, name), (1, [' '])] := by
  have hsplit : (kw ++ ' ' :: (name ++ ':' :: mid)) ++ [';'] =
      kw ++ ([' '] ++ (name ++ ([] ++ [':']))) ++ mid ++ [';'] := by simp
  rw [hsplit]
  exact reads_typedDeclarationWithoutValue_of_annotated
    (reads_annotated (by simp) hkw (by simp) (by decide) hname rfl rfl _) hne hmid

end Annotations

section Untyped

/-- The characters of variables, of types that are names, and of values. -/
def isDeclarationChar (c : Char) : Bool := isPathChar c || (" ,:=;" : Text).contains c

theorem isBare_of_isPathChar (h : isPathChar c = true) : isBare c = true := by
  obtain ⟨hquiet, -⟩ := isQuiet_of_isPathChar h
  simp only [isQuiet, Bool.not_eq_true', Bool.or_eq_false_iff] at hquiet
  simp [isBare, hquiet]

theorem isBare_of_isDeclarationChar (h : isDeclarationChar c = true) : isBare c = true := by
  have hothers : ∀ c ∈ (" ,:=;" : Text), isBare c = true := by decide
  rcases Bool.or_eq_true_iff.mp h with h | h
  · exact isBare_of_isPathChar h
  · exact hothers c (List.contains_iff_mem.mp h)

/-- What follows `var ` in a declaration that has no type. -/
structure IsUntyped (t : Text) : Prop where
  chars : ∀ c ∈ t, isDeclarationChar c = true
  spots : (spotAfter? .apart t).isSome = true
  last : t.getLast? = some ';'
  first : ∃ name r, t = name ++ r ∧ Text.isIdentifier name = true ∧
    (∀ c ∈ r.head?, Text.continuesIdentifier c = false) ∧
    (r.dropWhile Text.isBlank).head? ≠ some ':'

theorem IsUntyped.not_mem (h : IsUntyped t) (hc : isDeclarationChar c = false) :
    c ∉ "var " ++ t := by
  have hvar : ∀ c ∈ ("var " : Text), isDeclarationChar c = true := by decide
  intro hmem
  have hchar : isDeclarationChar c = true := by
    rcases List.mem_append.mp hmem with hmem | hmem
    · exact hvar c hmem
    · exact h.chars c hmem
  rw [hc] at hchar
  cases hchar

theorem cases_of_var_append (h : "var " ++ t = p ++ u) (hu : u ≠ []) :
    p = [] ∨ (∃ q, p = "var " ++ q ∧ t = q ++ u) ∨
      (∃ c ∈ p.getLast?, c ∈ ("var" : Text)) ∧ ∃ c ∈ u.head?, c ∈ ("ar " : Text) := by
  have hvar : ("var " : Text) = ['v', 'a', 'r', ' '] := rfl
  obtain ⟨d, u, rfl⟩ := List.exists_cons_of_ne_nil hu
  simp only [hvar, List.cons_append, List.nil_append] at h
  rcases p with _ | ⟨a, _ | ⟨b, _ | ⟨c, _ | ⟨e, p⟩⟩⟩⟩
  · exact .inl rfl
  all_goals
    simp only [List.cons_append, List.nil_append, List.cons.injEq] at h
    obtain ⟨rfl, h⟩ := h
    refine .inr ?_
  · obtain ⟨rfl, -⟩ := h
    exact .inr ⟨⟨'v', rfl, by decide⟩, 'a', rfl, by decide⟩
  · obtain ⟨rfl, rfl, -⟩ := h
    exact .inr ⟨⟨'a', rfl, by decide⟩, 'r', rfl, by decide⟩
  · obtain ⟨rfl, rfl, rfl, -⟩ := h
    exact .inr ⟨⟨'r', rfl, by decide⟩, ' ', rfl, by decide⟩
  · obtain ⟨rfl, rfl, rfl, rfl⟩ := h
    exact .inl ⟨p, rfl, rfl⟩

variable (ht : IsUntyped t) (hsplit : "var " ++ t = before.reverse ++ (w ++ rest))

include ht hsplit

theorem IsUntyped.not_isAnnotated : ¬ IsAnnotated before w ws name := by
  intro h
  obtain ⟨kw, hkw, bs, cs, -, hw⟩ := h.split
  obtain ⟨c, kw', rfl, hc⟩ := exists_cons_of_mem_keywords hkw
  have hfirst : ∀ kw ∈ keywords, ∀ c ∈ kw.head?, c ∉ ("ar " : Text) := by simp [keywords]
  have hne : w ++ rest ≠ [] := by simp [hw]
  rcases cases_of_var_append hsplit hne with hnil | ⟨q, -, hq⟩ | ⟨-, d, hd, hmem⟩
  · obtain ⟨name', r, rfl, hname, hr, hcolon⟩ := ht.first
    rw [hnil, List.nil_append] at hsplit
    have hvar : ("var" : Text) ∈ keywords := by simp [keywords]
    have hread : w ++ rest = "var" ++ ([' '] ++ (name' ++ r)) := hsplit.symm.trans rfl
    obtain ⟨-, -, bs, cs, hbs, rfl⟩ :=
      h.eq_of_append_eq hvar (by simp) (by decide) hname hr hread
    rw [List.dropWhile_append_of_pos (List.all_eq_true.mp hbs),
      List.dropWhile_cons_of_neg (by decide)] at hcolon
    exact hcolon rfl
  · exact not_isAnnotated_of_spots ht.spots hq h
  · obtain rfl : c = d := by simpa [hw] using hd
    exact hfirst _ hkw c rfl hmem

theorem IsUntyped.not_reads_blockScopedDeclaration :
    ¬ blockScopedDeclaration.pattern.Reads before w rest gs := by
  intro h
  obtain ⟨g, kw, rfl, hkw, -, hg, hrest⟩ := exists_of_reads_blockScopedDeclaration h
  have hmem : kw ∈ blockKeywords := by simpa [blockKeywords] using hkw
  have hsides : ∀ kw ∈ blockKeywords, kw ≠ [] ∧ (∀ c ∈ kw.head?, c ∉ ("var " : Text)) ∧
      kw.getLast? = some 't' := by simp [blockKeywords]
  obtain ⟨hne, hfirst, hend⟩ := hsides kw hmem
  have hlast : ∀ c ∈ (before.reverse ++ g).getLast?, isPathChar c = false := by
    rcases hg with ⟨rfl, rfl⟩ | ⟨d, rfl, hd⟩
    · simp
    · simpa using hd
  have hhead : ∀ u, (kw ++ u).head? = kw.head? := fun u => List.head?_append_of_ne_nil _ hne
  rw [List.append_assoc, ← List.append_assoc] at hsplit
  rcases cases_of_var_append hsplit (by simp [hne]) with hnil | ⟨q, hp, hq⟩ | ⟨-, d, hd, hletter⟩
  · rw [hnil, List.nil_append] at hsplit
    have hv : ∀ c ∈ kw.head?, c = 'v' := by
      rw [← hhead rest, ← hsplit]
      simp
    obtain ⟨c, u, rfl⟩ := List.exists_cons_of_ne_nil hne
    exact hfirst c rfl (by rw [hv c rfl]; decide)
  · cases rest with
    | nil =>
      have hsemicolon := ht.last
      rw [hq, List.append_nil, List.getLast?_append_of_ne_nil _ hne, hend] at hsemicolon
      exact absurd hsemicolon (by decide)
    | cons c rest =>
      have hspots := ht.spots
      rw [hq, spotAfter?_keyword (fun d hd => ?_) hmem (hrest c rfl)] at hspots
      · cases hspots
      · refine hlast d ?_
        rw [hp, List.getLast?_append_of_ne_nil _ (List.ne_nil_of_mem (List.mem_of_getLast? hd))]
        exact hd
  · rw [hhead] at hd
    have hsub : ∀ d ∈ ("ar " : Text), d ∈ ("var " : Text) := by decide
    exact hfirst d hd (hsub d hletter)

theorem IsUntyped.not_reads_cast : ¬ cast.pattern.Reads before w rest gs := by
  intro h
  have has : ("as" : Text) = ['a', 's'] := rfl
  obtain ⟨ws, bs, v, rfl, hne, hws, hbs, hblank, c, u, rfl, hc⟩ := exists_of_reads_cast h
  have hmove : before.reverse ++ (ws ++ ("as" ++ (bs ++ c :: u)) ++ rest) =
      (before.reverse ++ ws) ++ ('a' :: 's' :: (bs ++ c :: (u ++ rest))) := by simp [has]
  rw [hmove] at hsplit
  rcases cases_of_var_append hsplit (by simp) with hnil | ⟨q, -, hq⟩ | ⟨⟨d, hd, hmem⟩, -⟩
  · exact hne (List.append_eq_nil_iff.mp hnil).2
  · have hspots := ht.spots
    have hnone : spotAfter? .apart ((q ++ ['a']) ++ 's' :: (bs ++ c :: (u ++ rest))) = none :=
      spotAfter?_gap (by decide) hbs hblank hc
    rw [hq, ← List.singleton_append, ← List.append_assoc, hnone] at hspots
    cases hspots
  · rw [List.getLast?_append_of_ne_nil _ hne] at hd
    have hletters : ∀ d ∈ ("var" : Text), Text.isBlank d = false := by decide
    have hd' := List.all_eq_true.mp hws d (List.mem_of_getLast? hd)
    rw [hletters d hmem] at hd'
    cases hd'

theorem IsUntyped.not_reads (hs : s ∈ all) : ¬ s.pattern.Reads before w rest gs := by
  have hpart : ∀ c ∈ w, c ∈ "var " ++ t := fun c hc => by rw [hsplit]; simp [hc]
  intro h
  rcases mem_all_iff.mp hs with hs | rfl | rfl
  · cases isMatch_of_reads hs h with
    | typed _ _ hname => exact ht.not_isAnnotated hsplit hname
    | blockScoped => exact ht.not_reads_blockScopedDeclaration hsplit h
    | spread hw => exact ht.not_mem (c := '[') (by decide) (hpart _ (by simp [hw]))
    | construction hw hless =>
      exact ht.not_mem (c := '<') (by decide) (hpart _ (by simp [hw, hless]))
  · exact ht.not_reads_cast hsplit h
  · obtain ⟨c, d, rfl, -⟩ := exists_of_reads_nonNullAssertion h
    exact ht.not_mem (c := '!') (by decide) (hpart _ (by simp))

end Untyped

section Passes

theorem IsUntyped.isBare (ht : IsUntyped t) : ∀ c ∈ "var " ++ t, Script.isBare c = true := by
  have hvar : ∀ c ∈ ("var " : Text), Script.isBare c = true := by decide
  intro c hc
  rcases List.mem_append.mp hc with hc | hc
  · exact hvar c hc
  · exact isBare_of_isDeclarationChar (ht.chars c hc)

theorem IsUntyped.apply_eq_self (ht : IsUntyped t) (hs : s ∈ all) :
    s.apply ("var " ++ t) = "var " ++ t :=
  Substitution.apply_eq_self (List.cons_ne_nil _ _) ht.isBare
    fun _ _ _ _ hsplit => ht.not_reads hsplit hs

theorem IsUntyped.foldl_apply (ht : IsUntyped t) {ss : List Substitution}
    (hss : ∀ s ∈ ss, s ∈ all) :
    ss.foldl (fun t s => s.apply t) ("var " ++ t) = "var " ++ t := by
  induction ss with
  | nil => rfl
  | cons s ss ih =>
    rw [List.foldl_cons, ht.apply_eq_self (hss s (by simp))]
    exact ih fun r hr => hss r (by simp [hr])

end Passes

/-- A character of a type that no declaration ends with. -/
def isTypeChar (c : Char) : Bool := isBare c && !("=;\n" : Text).contains c

/-- What may follow the equals sign of a declaration. -/
structure IsTrail (t : Text) : Prop where
  chars : ∀ c ∈ t, isDeclarationChar c = true
  spots : (spotAfter? .apart t).isSome = true
  last : t.getLast? = some ';'

end Substitution

end CanvasPage
