import CanvasPage.Proofs.ClassBlock.ReadMethod
import CanvasPage.Text.Basic

namespace CanvasPage

namespace Span

/-- Begins and ends before another range begins. -/
def Precedes (r s : Span) : Prop := r.start < s.start ∧ r.stop ≤ s.start

/-- Shares no byte with another range. -/
def IsApart (r s : Span) : Prop := r.stop ≤ s.start ∨ s.stop ≤ r.start

theorem IsApart.symm {r s : Span} (h : r.IsApart s) : s.IsApart r := Or.symm h

theorem Precedes.isApart {r s : Span} (h : r.Precedes s) : r.IsApart s := .inl h.2

/-- The range of a text that stands behind another one. -/
def behind (before own : Text) : Span :=
  ⟨Text.byteLength before, Text.byteLength before + Text.byteLength own⟩

end Span

theorem Text.byteLength_pos {t : Text} (h : t ≠ []) : 0 < Text.byteLength t := by
  cases t with
  | nil => exact absurd rfl h
  | cons c t => exact Nat.lt_of_lt_of_le c.utf8Size_pos (Nat.le_add_right _ _)

/-- Items that stand one after another in a text, which stands behind `before` itself. `Own` tells
what an item has to do with the text before it, its own text and the text after it. -/
inductive Laid {α : Type} (span : α → Span) (Own : α → Text → Text → Text → Prop) :
    Text → Text → List α → Prop where
  | nil (before t : Text) : Laid span Own before t []
  | cons {x : α} {xs : List α} {before u own after : Text} (hown : own ≠ [])
      (hspan : span x = .behind (before ++ u) own) (h : Own x (before ++ u) own after)
      (hrest : Laid span Own (before ++ u ++ own) after xs) :
      Laid span Own before (u ++ (own ++ after)) (x :: xs)

namespace Laid

variable {α : Type} {span : α → Span} {Own : α → Text → Text → Text → Prop} {before u t : Text}
  {x : α} {xs : List α}

/-- A stretch in which no item begins. -/
theorem pass (u : Text) (h : Laid span Own (before ++ u) t xs) :
    Laid span Own before (u ++ t) xs := by
  cases h with
  | nil => exact .nil before _
  | @cons _ _ _ v own after hown hspan hx hrest =>
    rw [List.append_assoc before u v] at hspan hx hrest
    rw [← List.append_assoc u v]
    exact .cons hown hspan hx hrest

theorem exists_of_mem (h : Laid span Own before t xs) (hx : x ∈ xs) :
    ∃ u own after, t = u ++ (own ++ after) ∧ own ≠ [] ∧ span x = .behind (before ++ u) own ∧
      Own x (before ++ u) own after := by
  induction h with
  | nil => cases hx
  | @cons y ys before v own after hown hspan hy hrest ih =>
    rcases List.mem_cons.mp hx with rfl | hx
    · exact ⟨v, own, after, rfl, hown, hspan, hy⟩
    · obtain ⟨w, own', after', rfl, hown', hspan', hx⟩ := ih hx
      rw [List.append_assoc, List.append_assoc] at hspan' hx
      exact ⟨v ++ (own ++ w), own', after', by simp only [List.append_assoc], hown', hspan', hx⟩

theorem within (h : Laid span Own before t xs) (hx : x ∈ xs) :
    Text.byteLength before ≤ (span x).start ∧ (span x).start < (span x).stop ∧
      (span x).stop ≤ Text.byteLength before + Text.byteLength t := by
  obtain ⟨u, own, after, rfl, hown, hspan, -⟩ := h.exists_of_mem hx
  have hpos := Text.byteLength_pos hown
  rw [hspan, Span.behind]
  simp only [Text.byteLength_append]
  omega

theorem pairwise (h : Laid span Own before t xs) : (xs.map span).Pairwise Span.Precedes := by
  induction h with
  | nil => exact .nil
  | @cons x xs before v own after hown hspan hx hrest ih =>
    refine List.pairwise_cons.mpr ⟨fun s hs => ?_, ih⟩
    obtain ⟨y, hy, rfl⟩ := List.mem_map.mp hs
    have hle := (hrest.within hy).1
    have hpos := Text.byteLength_pos hown
    rw [Text.byteLength_append] at hle
    rw [hspan, Span.behind]
    exact ⟨by dsimp only; omega, hle⟩

end Laid

namespace Text

theorem isInfix_dropEndWhile (p : Char → Bool) (t : Text) : dropEndWhile p t <:+: t :=
  (isPrefix_dropEndWhile p t).isInfix

theorem isInfix_trim (t : Text) : trim t <:+: t :=
  (isInfix_dropEndWhile isBlank _).trans (List.dropWhile_suffix isBlank).isInfix

end Text

open Pattern in
theorem Pattern.isInfix_groupText {pattern : Pattern} {t : Text} {o : Occurrence} {i : Nat}
    (h : pattern.atStart? t = some o) : o.groupText i <:+: t := by
  rw [Occurrence.groupText]
  cases hg : o.group? i with
  | none => exact List.nil_infix
  | some g =>
    obtain ⟨hwhole, -⟩ := holds_of_at? h hg
    have ht : t = g.start.before.reverse ++ g.start.after := hwhole.symm
    rw [ht]
    exact (List.take_prefix _ _).isInfix.trans (List.suffix_append _ _).isInfix

namespace Member

def span : Member → Span
  | method m => m.span
  | property p => p.span

/-- What a member has to do with its text and the text after it. -/
def Stands (m : Member) (_before own after : Text) : Prop :=
  match m with
  | method m => ∃ hash gap result, own = m.written hash gap result ∧ m.IsRead hash gap result after
  | property p => p.value <:+: own

theorem of_readProperty? {span : Span} {statement : Text} {p : Property}
    (h : readProperty? span statement = some p) :
    statement ≠ [] ∧ p.span = span ∧ p.value <:+: statement := by
  simp only [readProperty?, Option.bind_eq_bind, Option.bind_eq_some_iff] at h
  obtain ⟨o, ho, h⟩ := h
  split at h
  · cases h
  · rename_i hne
    obtain rfl := Option.some.inj h
    have hvalue : Text.trim (o.groupText 3) <:+: statement :=
      ((Text.isInfix_trim _).trans (Pattern.isInfix_groupText ho)).trans ((Text.isInfix_trim _).trans
        ((Text.isInfix_dropEndWhile _ _).trans (Text.isInfix_trim statement)))
    refine ⟨?_, rfl, hvalue⟩
    rintro rfl
    rw [List.infix_nil.mp hvalue] at hne
    exact hne rfl

theorem laid_scanFrom (before t : Text) :
    Laid span Stands before t (scanFrom (Text.byteLength before) 0 t) := by
  induction hn : t.length using Nat.strong_induction_on generalizing before t with
  | _ n ih =>
  cases t with
  | nil => exact .nil before []
  | cons c t =>
    -- What is left after a character or more is shorter.
    have hrest : ∀ width, 0 < width → Laid span Stands (before ++ (c :: t).take width)
        ((c :: t).drop width) (scanFrom (Text.byteLength before +
          Text.byteLength ((c :: t).take width)) 0 ((c :: t).drop width)) := by
      intro width hpos
      rw [← Text.byteLength_append]
      refine ih _ ?_ _ _ rfl
      rw [← hn, List.length_drop, List.length_cons]
      omega
    have hpass : ∀ width, 0 < width → Laid span Stands before (c :: t) (scanFrom
        (Text.byteLength before + Text.byteLength ((c :: t).take width)) 0
          ((c :: t).drop width)) := by
      intro width hpos
      have h := (hrest width hpos).pass
      rwa [List.take_append_drop] at h
    cases htrivia : triviaWidth? (c :: t) with
    | some width =>
      rw [scanFrom_trivia htrivia]
      exact hpass width (triviaWidth?_pos htrivia)
    | none =>
      cases hread : readMethod? (Text.byteLength before) (c :: t) with
      | some found =>
        obtain ⟨m, width⟩ := found
        obtain ⟨u, hash, gap, result, w, ht, rfl, hm, hspan⟩ := exists_isRead_of_readMethod? hread
        obtain ⟨own, hown⟩ : ∃ own, own = m.written hash gap result := ⟨_, rfl⟩
        have hne : own ≠ [] := by simp [hown, Method.written]
        have hnonempty : u ++ own ≠ [] := List.append_ne_nil_of_right_ne_nil u hne
        rw [← hown] at ht hspan hread
        have h := hrest (u ++ own).length (List.length_pos_iff.mpr hnonempty)
        rw [← List.append_assoc] at ht
        rw [ht] at htrivia hread h ⊢
        rw [List.take_left, List.drop_left, ← List.append_assoc] at h
        rw [scanFrom_method hnonempty htrivia hread, List.append_assoc]
        refine .cons hne ?_ ⟨hash, gap, result, hown, hm⟩ h
        rw [span, hspan, Span.behind]
        simp only [Text.byteLength_append, Nat.add_assoc]
      | none =>
        obtain ⟨width, hwidth⟩ : ∃ width, statementWidth 0 [] none (c :: t) = width := ⟨_, rfl⟩
        obtain ⟨own, hown⟩ : ∃ own, (c :: t).take width = own := ⟨_, rfl⟩
        rw [scanFrom_other htrivia hread hwidth, hown]
        cases hp : readProperty? ⟨Text.byteLength before, Text.byteLength before +
            Text.byteLength own⟩ own with
        | none => exact hpass _ (Nat.succ_pos width)
        | some p =>
          obtain ⟨hne, hspan, hvalue⟩ := of_readProperty? hp
          have h := hrest (width + 1) (Nat.succ_pos width)
          generalize scanFrom _ 0 ((c :: t).drop (width + 1)) = ms at h ⊢
          rw [List.take_add, hown, ← List.append_assoc] at h
          have hafter := h.pass
          rw [← List.drop_drop, List.take_append_drop] at hafter
          rw [← List.take_append_drop width (c :: t), hown]
          exact .cons (u := []) hne (by rwa [List.append_nil]) hvalue (by rwa [List.append_nil])

end Member

end CanvasPage
