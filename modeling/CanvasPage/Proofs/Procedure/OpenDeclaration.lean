import CanvasPage.Proofs.Procedure.Declaration
import CanvasPage.Proofs.Procedure.Unfinished

namespace CanvasPage.Substitution

open Pattern Script

variable {before s t v x y z z' : Text} {covered : Nat}

theorem of_at?_typedDeclarationWithoutValue {kw ws name bs r : Text} {o : Occurrence}
    (hkw : kw ∈ keywords) (hne : ws ≠ []) (hws : Text.allBlank ws = true)
    (hname : Text.isIdentifier name = true) (hbs : Text.allBlank bs = true)
    (hnone : ';' ∉ kw ++ (ws ++ (name ++ (bs ++ ':' :: r))))
    (hat : typedDeclarationWithoutValue.pattern.at?
      ⟨before, kw ++ (ws ++ (name ++ (bs ++ ':' :: r))) ++ [';']⟩ = some o) :
    o.width = (kw ++ (ws ++ (name ++ (bs ++ ':' :: r))) ++ [';']).length ∧
      typedDeclarationWithoutValue.replacement o = "var" ++ ws ++ name ++ ";" := by
  obtain ⟨w, gs, -, hafter, -, hwidth, -, hgroups, h⟩ := exists_reads_of_at? hat
  obtain ⟨u, ws', name', rfl, hu, hannotated, h₁, h₂⟩ :=
    exists_of_reads_typedDeclarationWithoutValue h
  have hsplit : u ++ ';' :: o.stop.after = kw ++ (ws ++ (name ++ (bs ++ ':' :: r))) ++ ';' :: [] := by
    simpa using hafter.symm
  obtain ⟨rfl, -⟩ := Text.append_cons_inj hu hnone hsplit
  obtain ⟨rfl, rfl, -⟩ := hannotated.eq_of_append_eq hkw hne (List.all_eq_true.mp hws) hname
    (not_continuesIdentifier_colon hbs (r ++ [';']))
    (show _ ++ [] = kw ++ (ws ++ (name ++ (bs ++ ':' :: (r ++ [';'])))) by simp)
  refine ⟨hwidth, ?_⟩
  rw [typedDeclarationWithoutValue]
  dsimp only
  rw [hgroups, hgroups, h₁, h₂]

theorem ne_nil_of_isUnfinished {p cs type : Text} (hp : p.getLast? = some ':')
    (hcs : Text.allBlank cs = true)
    (hlast : ∀ c ∈ (p ++ (cs ++ type)).getLast?, Text.isBlank c = false ∧ c ≠ ':') : type ≠ [] := by
  rintro rfl
  rw [List.append_nil] at hlast
  rcases List.eq_nil_or_concat cs with rfl | ⟨cs, c, rfl⟩
  · rw [List.append_nil] at hlast
    exact (hlast ':' hp).2 rfl
  · have hc := (Text.getLast?_of_append hlast c (by simp)).1
    rw [List.all_eq_true.mp hcs c (by simp)] at hc
    cases hc

theorem exists_at?_of_isUnfinished (hy : IsUnfinished y)
    (hbefore : ∀ c ∈ before.head?, Text.isWordChar c = false)
    (hlast : ∀ c ∈ y.getLast?, Text.isBlank c = false ∧ c ≠ ':') :
    ∃ new, ∀ v : Text, (∀ c ∈ v, c ∉ ("=;\n" : Text)) →
      ∃ o, typedDeclarationWithoutValue.pattern.at? ⟨before, (y ++ v) ++ [';']⟩ = some o ∧
        o.width = ((y ++ v) ++ [';']).length ∧ typedDeclarationWithoutValue.replacement o = new := by
  have hsemicolon : ';' ∉ y := hy.not_mem (by decide)
  obtain ⟨_, cs, type, ⟨kw, hkw, ws, name, bs, hne, hws, hname, hbs, rfl⟩, hcs, htype, rfl⟩ := hy
  have htypeNe : type ≠ [] := ne_nil_of_isUnfinished (by simp [← List.append_assoc]) hcs hlast
  refine ⟨"var" ++ ws ++ name ++ ";", fun v hv => ?_⟩
  have hread : typedDeclarationWithoutValue.pattern.Reads before
      (kw ++ (ws ++ (name ++ (bs ++ ':' :: cs))) ++ (type ++ v) ++ [';']) [] [(2, name), (1, ws)] :=
    reads_typedDeclarationWithoutValue_of_annotated
      (reads_annotated hbefore hkw hne hws hname hbs hcs _) (by simp [htypeNe])
      (List.forall_mem_append.mpr ⟨htype, hv⟩)
  obtain ⟨o, hat⟩ := exists_at?_of_reads hread fun v after hs h => by
    obtain ⟨u, -, -, rfl, -⟩ := exists_of_reads_typedDeclarationWithoutValue h
    simp
  have hwhole : kw ++ (ws ++ (name ++ (bs ++ [':']))) ++ (cs ++ type) ++ v =
      kw ++ (ws ++ (name ++ (bs ++ ':' :: (cs ++ (type ++ v))))) := by simp
  have hnone : ';' ∉ kw ++ (ws ++ (name ++ (bs ++ [':']))) ++ (cs ++ type) ++ v := by
    rw [List.mem_append, not_or]
    exact ⟨hsemicolon, fun hmem => hv _ hmem (by decide)⟩
  rw [hwhole] at hnone ⊢
  have hat' : typedDeclarationWithoutValue.pattern.at? ⟨before,
      kw ++ (ws ++ (name ++ (bs ++ ':' :: (cs ++ (type ++ v))))) ++ [';']⟩ = some o := by
    simpa using hat
  exact ⟨o, hat', of_at?_typedDeclarationWithoutValue hkw hne hws hname hbs hnone hat'⟩

/-- What may follow a text where the types of declarations without values are dropped: the rest of
a type, up to its semicolon. -/
structure EndsType (s z : Text) : Prop where
  split : ∃ v, z = v ++ [';'] ∧ ∀ c ∈ v, c ∉ ("=;\n" : Text)
  heads : ∀ x y, s = x ++ y → y ≠ [] → HoldsHeads y z
  apart : z.head?.any Text.isWordChar = false

theorem exists_replaceFrom_of_isUnfinished (hy : IsUnfinished y)
    (hbefore : ∀ c ∈ before.head?, Text.isWordChar c = false)
    (hlast : ∀ c ∈ y.getLast?, Text.isBlank c = false ∧ c ≠ ':') :
    ∃ out, ∀ s z, EndsType s z → typedDeclarationWithoutValue.pattern.replaceFrom
      typedDeclarationWithoutValue.replacement 0 before (y ++ z) = out := by
  obtain ⟨out, hout⟩ := exists_at?_of_isUnfinished hy hbefore hlast
  refine ⟨out, fun s z hz => ?_⟩
  obtain ⟨v, rfl, hv⟩ := hz.split
  obtain ⟨o, hat, hwidth, hnew⟩ := hout v hv
  rw [← List.append_assoc, replaceFrom_of_at?_whole hat hwidth, hnew]

theorem replaceFrom_endsType (hz : EndsType t z) (hz' : EndsType t z')
    (hlast : ∀ c ∈ t.getLast?, Text.isBlank c = false ∧ c ≠ ':') :
    typedDeclarationWithoutValue.pattern.replaceAll typedDeclarationWithoutValue.replacement
        (t ++ z) =
      typedDeclarationWithoutValue.pattern.replaceAll typedDeclarationWithoutValue.replacement
        (t ++ z') ∨
    ∀ u ∈ [z, z'],
      typedDeclarationWithoutValue.pattern.replaceAll typedDeclarationWithoutValue.replacement
          (t ++ u) =
        typedDeclarationWithoutValue.pattern.replaceAll typedDeclarationWithoutValue.replacement t ++
          typedDeclarationWithoutValue.pattern.replaceFrom
            typedDeclarationWithoutValue.replacement 0 t.reverse u := by
  obtain ⟨hend, hnew⟩ := isOpenEnded_of_mem_all (s := typedDeclarationWithoutValue) (by simp [all])
  have hplaces : ∀ x y, t = x ++ y → y ≠ [] →
      typedDeclarationWithoutValue.pattern.replaceFrom typedDeclarationWithoutValue.replacement 0
          (x.reverse ++ []) (y ++ z) =
        typedDeclarationWithoutValue.pattern.replaceFrom typedDeclarationWithoutValue.replacement 0
          (x.reverse ++ []) (y ++ z') ∨
      typedDeclarationWithoutValue.pattern.StaysIn (x.reverse ++ []) y z ∧
        typedDeclarationWithoutValue.pattern.StaysIn (x.reverse ++ []) y z' := by
    intro x y hsplit hne
    have hy : ∀ c ∈ y.getLast?, Text.isBlank c = false ∧ c ≠ ':' := by
      rwa [hsplit, List.getLast?_append_of_ne_nil _ hne] at hlast
    by_cases hopen : IsUnfinished y ∧ ∀ c ∈ (x.reverse ++ []).head?, Text.isWordChar c = false
    · obtain ⟨out, hout⟩ := exists_replaceFrom_of_isUnfinished hopen.1 hopen.2 hy
      exact .inl ((hout t z hz).trans (hout t z' hz').symm)
    · exact .inr ⟨staysIn_typedDeclarationWithoutValue (hz.heads x y hsplit hne)
          fun hbefore hunfinished => hopen ⟨hunfinished, hbefore⟩,
        staysIn_typedDeclarationWithoutValue (hz'.heads x y hsplit hne)
          fun hbefore hunfinished => hopen ⟨hunfinished, hbefore⟩⟩
  have hsearch := replaceFrom_append_or hend hnew hz.apart hz'.apart hplaces (Nat.zero_le t.length)
  rwa [List.append_nil] at hsearch

end CanvasPage.Substitution
