import CanvasPage.Procedure.Body
import CanvasPage.Proofs.Procedure.Edit
import CanvasPage.Proofs.Procedure.Header
import CanvasPage.Proofs.Text.Trim

namespace CanvasPage

namespace Pattern

variable {pattern : Pattern} {before w after : Text} {gs : GroupTexts}

theorem subset_of_mem_groups (h : pattern.Reads before w after gs) : ∀ g ∈ gs, g.2 ⊆ w := by
  induction pattern generalizing before w after gs with
  | empty => simp [h.2]
  | one test => simp [h.2]
  | seq first second ih₁ ih₂ =>
    obtain ⟨u, v, hs, is, rfl, rfl, hu, hv⟩ := h
    intro g hg
    rcases List.mem_append.mp hg with hg | hg
    · exact List.subset_append_of_subset_right u (ih₂ hv g hg)
    · exact List.subset_append_of_subset_left v (ih₁ hu g hg)
  | alt first second ih₁ ih₂ => exact h.elim ih₁ ih₂
  | star greedy body ih =>
    rw [Reads] at h
    induction h with
    | nil => simp
    | append _ hv ihu =>
      intro g hg
      rcases List.mem_append.mp hg with hg | hg
      · exact List.subset_append_of_subset_right _ (ih hv g hg)
      · exact List.subset_append_of_subset_left _ (ihu g hg)
  | group index body ih =>
    obtain ⟨hs, rfl, h⟩ := h
    intro g hg
    rcases List.mem_cons.mp hg with rfl | hg
    · exact List.Subset.refl w
    · exact ih h g hg
  | inputStart => simp [h.2.1]
  | inputEnd => simp [h.2.1]
  | wordBoundary => simp [h.2.1]

theorem text_subset (h : pattern.Reads before w after gs) (i : Nat) : gs.text i ⊆ w := by
  rw [GroupTexts.text]
  cases hg : gs.find? (·.1 == i) with
  | none => exact List.nil_subset w
  | some g => exact subset_of_mem_groups h g (List.mem_of_find?_eq_some hg)

end Pattern

def Substitution.inserted : Text := "var new =;.slice()"

def Procedure.added : Text := "var new =;,.slice()function\x7b\n"

open Procedure (added)

variable {P : Char → Prop} {t : Text}

namespace Substitution

open Pattern

theorem inserted_subset : inserted ⊆ added := by decide

theorem replacement_subset {s : Substitution} (hs : s ∈ all) {before w after : Text}
    {gs : GroupTexts} {o : Occurrence} (hread : s.pattern.Reads before w after gs)
    (hgroups : ∀ i, o.groupText i = gs.text i) : s.replacement o ⊆ w ++ inserted := by
  have hgroup : ∀ i, o.groupText i ⊆ w ++ inserted := fun i => by
    rw [hgroups]
    exact List.subset_append_of_subset_left _ (text_subset hread i)
  have hfixed : ∀ u : Text, u ⊆ inserted → u ⊆ w ++ inserted :=
    fun u hu => List.subset_append_of_subset_right w hu
  simp only [all, List.mem_cons, List.not_mem_nil, or_false] at hs
  rcases hs with rfl | rfl | rfl | rfl | rfl | rfl | rfl
  · exact List.append_subset.mpr ⟨List.append_subset.mpr ⟨List.append_subset.mpr
      ⟨hfixed _ (by decide), hgroup 1⟩, hgroup 2⟩, hfixed _ (by decide)⟩
  · exact List.append_subset.mpr ⟨List.append_subset.mpr ⟨List.append_subset.mpr
      ⟨hfixed _ (by decide), hgroup 1⟩, hgroup 2⟩, hfixed _ (by decide)⟩
  · exact List.append_subset.mpr ⟨hgroup 1, hfixed _ (by decide)⟩
  · exact List.append_subset.mpr ⟨hgroup 1, hfixed _ (by decide)⟩
  · exact List.append_subset.mpr ⟨List.append_subset.mpr
      ⟨hfixed _ (by decide), hgroup 1⟩, hfixed _ (by decide)⟩
  · exact List.nil_subset _
  · exact List.append_subset.mpr ⟨hgroup 1, hgroup 2⟩

theorem forall_mem_apply (hinserted : ∀ c ∈ inserted, P c) {s : Substitution} (hs : s ∈ all)
    (ht : ∀ c ∈ t, P c) : ∀ c ∈ s.apply t, P c := by
  have hedits : ∀ {p q}, Edits s t p q → ∀ c ∈ q, P c := by
    intro p q h
    induction h with
    | nil => simp
    | @keep p q u c hsplit _ ih =>
      refine List.forall_mem_append.mpr ⟨ih, ?_⟩
      simpa using ht c (by simp [hsplit])
    | @replace p q w u _ _ _ o hsplit _ hread hgroups _ ih =>
      refine List.forall_mem_append.mpr ⟨ih, fun c hc => ?_⟩
      rcases List.mem_append.mp (replacement_subset hs hread hgroups hc) with hc | hc
      · exact ht c (by simp [hsplit, hc])
      · exact hinserted c hc
  exact hedits (edits_apply s t)

theorem forall_mem_applyAll (hinserted : ∀ c ∈ inserted, P c) (ht : ∀ c ∈ t, P c) :
    ∀ c ∈ applyAll t, P c :=
  applyAll_induction (P := fun t => ∀ c ∈ t, P c) ht fun _ hs _ ht => forall_mem_apply hinserted hs ht

end Substitution

theorem Text.forall_mem_join {separator : Text} {ts : List Text}
    (hseparator : ∀ c ∈ separator, P c) (hts : ∀ t ∈ ts, ∀ c ∈ t, P c) :
    ∀ c ∈ Text.join separator ts, P c := by
  fun_induction Text.join separator ts with
  | case1 => simp
  | case2 t => exact hts t (by simp)
  | case3 t ts hne ih =>
    obtain ⟨ht, hts⟩ := List.forall_mem_cons.mp hts
    exact List.forall_mem_append.mpr ⟨List.forall_mem_append.mpr ⟨ht, hseparator⟩, ih hts⟩

namespace Parameter

theorem forall_mem_consFirst {c : Char} {ts : List Text} (hc : P c)
    (hts : ∀ t ∈ ts, ∀ c ∈ t, P c) : ∀ t ∈ consFirst c ts, ∀ c ∈ t, P c := by
  cases ts with
  | nil => simpa [consFirst] using hc
  | cons t ts =>
    obtain ⟨ht, hts⟩ := List.forall_mem_cons.mp hts
    exact List.forall_mem_cons.mpr ⟨List.forall_mem_cons.mpr ⟨hc, ht⟩, hts⟩

theorem forall_mem_splitFrom (depth : Nat) (quote previous : Option Char) (ht : ∀ c ∈ t, P c) :
    ∀ piece ∈ splitFrom depth quote previous t, ∀ c ∈ piece, P c := by
  fun_induction splitFrom depth quote previous t with
  | case1 => simp
  | case2 depth previous c t q quote ih =>
    obtain ⟨hc, ht⟩ := List.forall_mem_cons.mp ht
    exact forall_mem_consFirst hc (ih ht)
  | case3 depth previous c t hquote ih =>
    obtain ⟨hc, ht⟩ := List.forall_mem_cons.mp ht
    exact forall_mem_consFirst hc (ih ht)
  | case4 depth previous c t hquote hcomma ih =>
    obtain ⟨hc, ht⟩ := List.forall_mem_cons.mp ht
    exact List.forall_mem_cons.mpr ⟨by simp, ih ht⟩
  | case5 depth previous c t hquote hcomma ih =>
    obtain ⟨hc, ht⟩ := List.forall_mem_cons.mp ht
    exact forall_mem_consFirst hc (ih ht)

theorem eq_of_splitDefault {depth : Nat} {previous : Option Char} {head value : Text}
    (h : splitDefault depth previous t = some (head, value)) : t = head ++ '=' :: value := by
  induction t generalizing depth previous head with
  | nil => cases h
  | cons c t ih =>
    rw [splitDefault] at h
    split at h
    · rename_i hc
      simp only [Bool.and_eq_true, beq_iff_eq] at hc
      obtain ⟨rfl, rfl⟩ := Prod.mk.inj (Option.some.inj h)
      rw [hc.1.1]
      rfl
    · obtain ⟨⟨head, value⟩, hrest, hpair⟩ := Option.map_eq_some_iff.mp h
      obtain ⟨rfl, rfl⟩ := Prod.mk.inj hpair
      rw [ih hrest]
      rfl

theorem beforeType_isPrefix (depth : Nat) (t : Text) : beforeType depth t <+: t := by
  induction t generalizing depth with
  | nil => exact List.prefix_rfl
  | cons c t ih =>
    rw [beforeType]
    split
    · exact List.nil_prefix
    · exact (List.prefix_cons_inj c).mpr (ih _)

variable {rewrite : Text → Text}

/-- A parameter from the text before its default value, modifiers apart, and that value. -/
def parameter? (head : Text) (value : Option Text) (isProperty : Bool) : Option Parameter :=
  let name := Text.trim (Text.dropEndWhile (· == '?') (Text.trim (beforeType 0 head)))
  if name.isEmpty then none
  else
    let text := match value with
      | some value => name ++ " = " ++ value
      | none => name
    some { text, name, isProperty }

def unmodified (piece : Text) : Text :=
  match modifiers.atStart? (Text.trim piece) with
  | some o => o.stop.after
  | none => Text.trim piece

theorem read?_eq_parameter? (f : Text → Text) (piece : Text) :
    read? f piece =
      match splitDefault 0 none (unmodified piece) with
      | some (head, value) =>
          parameter? head (some (f (Text.trim value)))
            (modifiers.atStart? (Text.trim piece)).isSome
      | none => parameter? (unmodified piece) none (modifiers.atStart? (Text.trim piece)).isSome := by
  rw [read?, unmodified]
  cases modifiers.atStart? (Text.trim piece) with
  | none => cases splitDefault 0 none (Text.trim piece) <;> rfl
  | some o => cases splitDefault 0 none o.stop.after <;> rfl

theorem read?_eq (rewrite : Text → Text) (piece : Text) :
    ∃ lead rest, Text.trim piece = lead ++ rest ∧
      ((modifiers.atStart? (Text.trim piece)).map (·.stop.offset)).getD 0 = Text.byteLength lead ∧
      read? rewrite piece =
        match splitDefault 0 none rest with
        | some (head, value) => parameter? head (some (rewrite (Text.trim value))) (!lead.isEmpty)
        | none => parameter? rest none (!lead.isEmpty) := by
  rw [read?]
  cases hmodifiers : modifiers.atStart? (Text.trim piece) with
  | none =>
    refine ⟨[], Text.trim piece, rfl, rfl, ?_⟩
    cases splitDefault 0 none (Text.trim piece) <;> rfl
  | some o =>
    obtain ⟨w, _, hne, hafter, hbefore, -⟩ := Pattern.exists_reads_of_at? hmodifiers
    obtain ⟨c, w, rfl⟩ := List.exists_cons_of_ne_nil hne
    refine ⟨c :: w, o.stop.after, hafter, ?_, ?_⟩
    · rw [Option.map_some, Option.getD_some, Cursor.offset, hbefore, Cursor.atStart,
        List.append_nil, Text.byteLength_reverse]
    · dsimp only
      cases splitDefault 0 none o.stop.after <;> rfl

theorem forall_mem_parameter? (hadded : ∀ c ∈ added, P c) {head : Text} {value : Option Text}
    {isProperty : Bool} {q : Parameter} (hhead : ∀ c ∈ head, P c)
    (hvalue : ∀ v ∈ value, ∀ c ∈ v, P c) (h : parameter? head value isProperty = some q) :
    ∀ c ∈ q.text, P c := by
  have hname : ∀ c ∈ Text.trim (Text.dropEndWhile (· == '?') (Text.trim (beforeType 0 head))),
      P c := by
    intro c hc
    have hmark := (Text.isPrefix_dropEndWhile _ _).subset (Text.mem_of_mem_trim hc)
    exact hhead c ((beforeType_isPrefix 0 head).subset (Text.mem_of_mem_trim hmark))
  have hequals : (" = " : Text) ⊆ added := by decide
  unfold parameter? at h
  dsimp only at h
  split at h
  · cases h
  · obtain rfl := Option.some.inj h
    cases value with
    | none => exact hname
    | some v =>
      exact List.forall_mem_append.mpr ⟨List.forall_mem_append.mpr
        ⟨hname, fun c hc => hadded c (hequals hc)⟩, hvalue v rfl⟩

theorem forall_mem_read? (hadded : ∀ c ∈ added, P c)
    (hrewrite : ∀ t : Text, (∀ c ∈ t, P c) → ∀ c ∈ rewrite t, P c) {piece : Text} {q : Parameter}
    (hpiece : ∀ c ∈ piece, P c) (h : read? rewrite piece = some q) : ∀ c ∈ q.text, P c := by
  obtain ⟨lead, rest, hsplit, -, hread⟩ := read?_eq rewrite piece
  have hrest : ∀ c ∈ rest, P c := fun c hc =>
    hpiece c (Text.mem_of_mem_trim (by rw [hsplit]; simp [hc]))
  rw [hread] at h
  cases hdefault : splitDefault 0 none rest with
  | none =>
    rw [hdefault] at h
    exact forall_mem_parameter? hadded hrest (by simp) h
  | some pair =>
    obtain ⟨head, value⟩ := pair
    rw [hdefault] at h
    rw [eq_of_splitDefault hdefault] at hrest
    obtain ⟨hhead, hvalue⟩ := List.forall_mem_append.mp hrest
    refine forall_mem_parameter? hadded hhead ?_ h
    rintro v hv
    obtain rfl := Option.some.inj hv
    exact hrewrite _ fun c hc => hvalue c (List.mem_cons_of_mem _ (Text.mem_of_mem_trim hc))

theorem forall_mem_textsWith (hadded : ∀ c ∈ added, P c)
    (hrewrite : ∀ t : Text, (∀ c ∈ t, P c) → ∀ c ∈ rewrite t, P c) {raw : Text}
    (hraw : ∀ c ∈ raw, P c) : ∀ n ∈ textsWith rewrite raw, ∀ c ∈ n, P c := by
  intro n hn
  obtain ⟨q, hq, rfl⟩ := List.mem_map.mp hn
  obtain ⟨piece, hpiece, hread⟩ := List.mem_filterMap.mp hq
  exact forall_mem_read? hadded hrewrite (forall_mem_splitFrom 0 none none hraw piece hpiece) hread

end Parameter

namespace Arrow

theorem IsHeader.params_subset {p w : Text} (h : IsHeader p w) : p ⊆ w := by
  cases h with
  | parenthesized hp hv => exact List.subset_cons_of_subset _ (List.subset_append_left _ _)
  | single hp hv => exact List.subset_append_left _ _

variable {params : Text → List Text} {r : Rewrite}

theorem exists_of_next?_eq_some (h : next? params t = some r) :
    ∃ p w, t = r.start.before.reverse ++ (w ++ r.stop.after) ∧ IsHeader p w ∧
      r.replacement = "function(" ++ Text.join ", " (params p) ++ ") \x7b" ∧
      Script.inLiteral t r.start.before.length = false := by
  obtain ⟨header, hfind, rfl⟩ := Option.map_eq_some_iff.mp h
  obtain ⟨w, hsplit, hheader⟩ := isHeader_of_mem_headers (List.mem_of_find?_eq_some hfind)
  have hreplaceable := List.find?_some hfind
  rw [isReplaceable, Bool.and_eq_true, Bool.and_eq_true, Bool.not_eq_true'] at hreplaceable
  exact ⟨header.params, w, hsplit, hheader, rfl, hreplaceable.1.1⟩

theorem forall_mem_replacement (hadded : ∀ c ∈ added, P c) {ns : List Text}
    (hns : ∀ n ∈ ns, ∀ c ∈ n, P c) : ∀ c ∈ "function(" ++ Text.join ", " ns ++ ") \x7b", P c := by
  have hfixed : ∀ u : Text, u ⊆ added → ∀ c ∈ u, P c := fun u hu c hc => hadded c (hu hc)
  exact List.forall_mem_append.mpr ⟨List.forall_mem_append.mpr ⟨hfixed _ (by decide),
    Text.forall_mem_join (hfixed _ (by decide)) hns⟩, hfixed _ (by decide)⟩

theorem forall_mem_rewriteUpTo (hadded : ∀ c ∈ added, P c)
    (hparams : ∀ p : Text, (∀ c ∈ p, P c) → ∀ n ∈ params p, ∀ c ∈ n, P c) (bound : Nat)
    (ht : ∀ c ∈ t, P c) : ∀ c ∈ rewriteUpTo params bound t, P c := by
  induction bound generalizing t with
  | zero => exact ht
  | succ bound ih =>
    rw [rewriteUpTo]
    cases hnext : next? params t with
    | none => exact ht
    | some r =>
      obtain ⟨p, w, hsplit, hheader, hreplacement, -⟩ := exists_of_next?_eq_some hnext
      rw [hsplit] at ht
      obtain ⟨hbefore, hrest⟩ := List.forall_mem_append.mp ht
      obtain ⟨hw, hafter⟩ := List.forall_mem_append.mp hrest
      refine ih (List.forall_mem_append.mpr ⟨List.forall_mem_append.mpr ⟨hbefore, ?_⟩, hafter⟩)
      rw [hreplacement]
      exact forall_mem_replacement hadded (hparams p fun c hc => hw c (hheader.params_subset hc))

end Arrow

namespace Procedure

theorem forall_mem_lines (ht : ∀ c ∈ t, P c) : ∀ l ∈ Text.lines t, ∀ c ∈ l, P c := by
  fun_induction Text.lines t with
  | case1 => simp
  | case2 t ih => simpa using ih fun c hc => ht c (by simp [hc])
  | case3 t ih => simpa using ih fun c hc => ht c (by simp [hc])
  | case4 c t _ _ hnone ih => simpa using ht c (by simp)
  | case5 c t _ _ l ls hlines ih =>
    obtain ⟨hc, ht⟩ := List.forall_mem_cons.mp ht
    have hrest := ih ht
    rw [hlines] at hrest
    obtain ⟨hl, hls⟩ := List.forall_mem_cons.mp hrest
    exact List.forall_mem_cons.mpr ⟨List.forall_mem_cons.mpr ⟨hc, hl⟩, hls⟩

theorem forall_mem_dedent {ls : List Text} (hls : ∀ l ∈ ls, ∀ c ∈ l, P c) :
    ∀ l ∈ dedent ls, ∀ c ∈ l, P c := by
  intro l hl c hc
  obtain ⟨k, hk, rfl⟩ := List.mem_map.mp hl
  rw [dropIndent] at hc
  split at hc
  · cases hc
  · exact hls k hk c (List.mem_of_mem_drop hc)

theorem forall_mem_normalizeIndentation (hbreak : P '\n') (ht : ∀ c ∈ t, P c) :
    ∀ c ∈ normalizeIndentation t, P c := by
  have hlines : ∀ l ∈ (Text.lines t).map Text.trimEnd, ∀ c ∈ l, P c := by
    intro l hl c hc
    obtain ⟨k, hk, rfl⟩ := List.mem_map.mp hl
    exact forall_mem_lines ht k hk c ((Text.isPrefix_dropEndWhile _ _).subset hc)
  have hkept : ∀ l ∈ dropBlankEnds ((Text.lines t).map Text.trimEnd), ∀ c ∈ l, P c := by
    intro l hl
    rw [dropBlankEnds, List.mem_reverse] at hl
    have hrest := (List.dropWhile_suffix _).subset hl
    rw [List.mem_reverse] at hrest
    exact hlines l ((List.dropWhile_suffix _).subset hrest)
  rw [normalizeIndentation]
  refine Text.forall_mem_join (by simpa using hbreak) ?_
  generalize dropBlankEnds ((Text.lines t).map Text.trimEnd) = kept at hkept ⊢
  split
  · obtain ⟨hfirst, hrest⟩ := List.forall_mem_cons.mp hkept
    split
    · exact forall_mem_dedent hkept
    · exact List.forall_mem_cons.mpr ⟨fun c hc => hfirst c (Text.mem_of_mem_trim hc),
        forall_mem_dedent hrest⟩
  · simp

theorem forall_mem_rewriteBodyWithin (hadded : ∀ c ∈ added, P c) (depth : Nat)
    (ht : ∀ c ∈ t, P c) : ∀ c ∈ rewriteBodyWithin depth t, P c := by
  have happly : ∀ {t}, (∀ c ∈ t, P c) →
      ∀ c ∈ Substitution.applyAll (normalizeIndentation t), P c := fun ht =>
    Substitution.forall_mem_applyAll (fun c hc => hadded c (Substitution.inserted_subset hc))
      (forall_mem_normalizeIndentation (hadded _ (by decide)) ht)
  induction depth generalizing t with
  | zero => exact happly ht
  | succ depth ih =>
    rw [rewriteBodyWithin]
    exact Arrow.forall_mem_rewriteUpTo hadded
      (fun p hp => Parameter.forall_mem_textsWith hadded (fun t ht => ih ht) hp) _ (happly ht)

end Procedure

end CanvasPage
