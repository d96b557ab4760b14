import CanvasPage.Proofs.Field.Slot
import CanvasPage.Proofs.Pattern.Complete
import CanvasPage.Proofs.Text.Trim
import Mathlib.Data.List.Forall2

namespace CanvasPage

namespace Pattern

variable {α : Type} {k : Progress → Option α} {before w after t u : Text} {width : Nat}
  {groups : List (Nat × Capture)} {gs : GroupTexts} {a : α}

/-- The same text but for the case of its letters. -/
abbrev SameLetters (u w : Text) : Prop := List.Forall₂ (fun c d => eitherCase c d = true) u w

theorem reads_literalEitherCase (u : Text) :
    (literalEitherCase u).Reads before w after gs ↔ SameLetters u w ∧ gs = [] := by
  fun_induction literalEitherCase u generalizing before w gs with
  | case1 => simp [Reads, SameLetters]
  | case2 c => simp [Reads, SameLetters, List.forall₂_cons_left_iff]
  | case3 c rest hrest ih =>
    rw [reads_append, SameLetters, List.forall₂_cons_left_iff]
    simp only [ih, reads_one]
    constructor
    · rintro ⟨_, v, _, _, rfl, rfl, ⟨⟨d, hd, rfl⟩, rfl⟩, hv, rfl⟩
      exact ⟨⟨d, v, hd, hv, rfl⟩, rfl⟩
    · rintro ⟨⟨d, v, hd, hv, rfl⟩, rfl⟩
      exact ⟨[d], v, [], [], rfl, rfl, ⟨⟨d, hd, rfl⟩, rfl⟩, hv, rfl⟩

theorem run_literalEitherCase_of_sameLetters (h : SameLetters u w) :
    (literalEitherCase u).run ⟨⟨before, w ++ after⟩, width, groups⟩ k =
      k ⟨⟨w.reverse ++ before, after⟩, width + w.length, groups⟩ := by
  induction h generalizing before width with
  | nil => exact run_empty _ _
  | cons hcd _ ih =>
    rw [List.cons_append, run_literalEitherCase_cons_cons, if_pos hcd, ih, List.reverse_cons,
      List.append_assoc, List.singleton_append, List.length_cons, Nat.add_assoc, Nat.add_comm 1]

theorem exists_of_run_literalEitherCase
    (h : (literalEitherCase u).run ⟨⟨before, t⟩, width, groups⟩ k = some a) :
    ∃ w after, t = w ++ after ∧ SameLetters u w ∧
      k ⟨⟨w.reverse ++ before, after⟩, width + w.length, groups⟩ = some a := by
  induction u generalizing before t width with
  | nil => exact ⟨[], t, rfl, .nil, (run_empty _ _).symm.trans h⟩
  | cons c u ih =>
    cases t with
    | nil =>
      rw [run_of_ends_eq_nil] at h
      · cases h
      · cases u <;> rfl
    | cons d t =>
      rw [run_literalEitherCase_cons_cons] at h
      split at h
      · rename_i hd
        obtain ⟨w, after, rfl, hw, hk⟩ := ih h
        refine ⟨d :: w, after, rfl, .cons hd hw, ?_⟩
        rw [List.reverse_cons, List.append_assoc, List.singleton_append, List.length_cons,
          Nat.add_comm w.length, ← Nat.add_assoc]
        exact hk
      · cases h

theorem of_run_wordBoundary {p : Progress} (h : wordBoundary.run p k = some a) :
    p.cursor.atWordBoundary = true ∧ k p = some a := by
  cases hb : p.cursor.atWordBoundary with
  | true => exact ⟨rfl, (run_wordBoundary hb k).symm.trans h⟩
  | false =>
    rw [run_of_ends_eq_nil (by rw [ends, hb]; rfl)] at h
    cases h

end Pattern

namespace Candidate

open Pattern

section Quoted

variable {name value value' w w' rest rest' before after t : Text} {gs : GroupTexts}

/-- An attribute with a quoted value, from the blank before it through its closing quote. -/
structure IsQuoted (name value w : Text) : Prop where
  ne_nil : value ≠ []
  chars : ∀ c ∈ value, c ∉ ("\"'" : Text)
  split : ∃ b written bs cs q q', Text.isBlank b = true ∧ SameLetters name written ∧
    Text.allBlank bs = true ∧ Text.allBlank cs = true ∧ q ∈ ("\"'" : Text) ∧
    q' ∈ ("\"'" : Text) ∧ w = b :: (written ++ (bs ++ '=' :: (cs ++ q :: (value ++ [q']))))

def quotedValue (name : Text) : Pattern :=
  blank ++ (literalEitherCase name ++ (blanks ++ ("=" ++ (blanks ++ (oneOf "\"'" ++
    (group 1 (many1 (noneOf "\"'")) ++ oneOf "\"'"))))))

theorem reads_quotedValue : (quotedValue name).Reads before w after gs ↔
    ∃ value, IsQuoted name value w ∧ gs = [(1, value)] := by
  have hequals : ("=" : Text) = ['='] := rfl
  have hchars : ∀ value : Text, (∀ c ∈ value, (!("\"'" : Text).contains c) = true) ↔
      ∀ c ∈ value, c ∉ ("\"'" : Text) := by simp
  simp only [quotedValue, blank, oneOf, noneOf, reads_append, reads_one, reads_literalEitherCase,
    reads_blanks, reads_literal, reads_group, reads_many1, hequals, hchars]
  constructor
  · rintro ⟨_, _, _, _, rfl, rfl, ⟨⟨b, hb, rfl⟩, rfl⟩, written, _, _, _, rfl, rfl, ⟨hwritten, rfl⟩,
      bs, _, _, _, rfl, rfl, ⟨hbs, rfl⟩, _, _, _, _, rfl, rfl, ⟨rfl, rfl⟩, cs, _, _, _, rfl, rfl,
      ⟨hcs, rfl⟩, _, _, _, _, rfl, rfl, ⟨⟨q, hq, rfl⟩, rfl⟩, value, _, _, _, rfl, rfl,
      ⟨_, rfl, hne, hvalue, rfl⟩, ⟨q', hq', rfl⟩, rfl⟩
    exact ⟨value, ⟨hne, hvalue, b, written, bs, cs, q, q', hb, hwritten, hbs, hcs, by simpa using hq,
      by simpa using hq', rfl⟩, rfl⟩
  · rintro ⟨value, ⟨hne, hvalue, b, written, bs, cs, q, q', hb, hwritten, hbs, hcs, hq, hq', rfl⟩,
      rfl⟩
    exact ⟨[b], _, [], _, rfl, rfl, ⟨⟨b, hb, rfl⟩, rfl⟩, written, _, [], _, rfl, rfl,
      ⟨hwritten, rfl⟩, bs, _, [], _, rfl, rfl, ⟨hbs, rfl⟩, ['='], _, [], _, rfl, rfl, ⟨rfl, rfl⟩,
      cs, _, [], _, rfl, rfl, ⟨hcs, rfl⟩, [q], _, [], _, rfl, rfl, ⟨⟨q, by simpa using hq, rfl⟩, rfl⟩,
      value, [q'], _, [], rfl, rfl, ⟨[], rfl, hne, hvalue, rfl⟩, ⟨q', by simpa using hq', rfl⟩, rfl⟩

theorem IsQuoted.value_eq (h : IsQuoted name value w) (h' : IsQuoted name value' w')
    (heq : w ++ rest = w' ++ rest') : value = value' := by
  obtain ⟨b, written, bs, cs, q, q', -, hwritten, hbs, hcs, hq, hq', rfl⟩ := h.split
  obtain ⟨d, written', bs', cs', r, r', -, hwritten', hbs', hcs', hr, hr', rfl⟩ := h'.split
  have hquotes : ∀ q ∈ ("\"'" : Text), Text.isBlank q = false := by decide
  simp only [List.cons_append, List.append_assoc, List.nil_append, List.cons.injEq] at heq
  have hafter := (List.append_inj heq.2 (hwritten.length_eq.symm.trans hwritten'.length_eq)).2
  rw [Text.allBlank, List.all_eq_true] at hbs hcs hbs' hcs'
  obtain ⟨-, hequals⟩ := Text.eq_of_append_eq hbs hbs' (forall_mem_head?_cons (c := '=') (by decide) _)
    (forall_mem_head?_cons (c := '=') (by decide) _) hafter
  obtain ⟨-, hvalue⟩ := Text.eq_of_append_eq hcs hcs' (forall_mem_head?_cons (hquotes q hq) _)
    (forall_mem_head?_cons (hquotes r hr) _) (List.cons.inj hequals).2
  have hplain : ∀ {value : Text}, (∀ c ∈ value, c ∉ ("\"'" : Text)) →
      ∀ c ∈ value, (!("\"'" : Text).contains c) = true := by simp
  have hquote : ∀ q ∈ ("\"'" : Text), (!("\"'" : Text).contains q) = false := by decide
  exact (Text.eq_of_append_eq (hplain h.chars) (hplain h'.chars)
    (forall_mem_head?_cons (hquote q' hq') _) (forall_mem_head?_cons (hquote r' hr') _)
    (List.cons.inj hvalue).2).1

theorem IsQuoted.exists_blank (h : IsQuoted name value w) : ∃ b u, w = b :: u ∧
    Text.isBlank b = true := by
  obtain ⟨b, _, _, _, _, _, hb, -, -, -, -, -, rfl⟩ := h.split
  exact ⟨b, _, rfl, hb⟩

/-- No attribute of the name with a quoted value begins the text. -/
def StartsUnquoted (name t : Text) : Prop :=
  ∀ w value rest, t = w ++ rest → ¬ IsQuoted name value w

theorem run_quotedValue_eq_none_iff {width : Nat} {groups : List (Nat × Capture)} :
    (quotedValue name).run ⟨⟨before, t⟩, width, groups⟩ some = none ↔ StartsUnquoted name t := by
  rw [run_some, List.head?_eq_none_iff, List.eq_nil_iff_forall_not_mem]
  constructor
  · rintro h w value rest rfl hquoted
    obtain ⟨q, hq, -⟩ := exists_mem_ends_of_reads (reads_quotedValue.mpr ⟨value, hquoted, rfl⟩)
      (p := ⟨⟨before, w ++ rest⟩, width, groups⟩) rfl
    exact h q hq
  · intro h q hq
    obtain ⟨w, gs, hw, -, -, -, hread⟩ := advances_of_mem_ends hq
    obtain ⟨value, hquoted, -⟩ := reads_quotedValue.mp hread
    exact h w value _ hw hquoted

end Quoted

section First

variable {element name tag inside value w rest before t : Text} {o : Occurrence}

/-- An element up to its first attribute of the name with a quoted value. -/
structure IsFirstQuoted (element name tag inside value w rest : Text) : Prop where
  letters : SameLetters ('<' :: element) tag
  boundary : Cursor.atWordBoundary ⟨tag.reverse, inside ++ (w ++ rest)⟩ = true
  isOpen : '>' ∉ inside
  quoted : IsQuoted name value w
  first : ∀ u v, inside = u ++ v → v ≠ [] → StartsUnquoted name (v ++ (w ++ rest))

theorem run_quotedAttribute {α : Type} (element name : Text) (p : Progress)
    (k : Progress → Option α) :
    (quotedAttribute element name).run p k = (literalEitherCase ('<' :: element)).run p fun q =>
      wordBoundary.run q fun q => (lazyMany (noneOf ">")).run q fun q =>
        (quotedValue name).run q k := by
  simp only [quotedAttribute, attributeOf, quotedValue, run_append]

theorem atWordBoundary_tag (htag : SameLetters ('<' :: element) tag) (before t : Text) :
    Cursor.atWordBoundary ⟨tag.reverse ++ before, t⟩ =
      Cursor.atWordBoundary ⟨tag.reverse, t⟩ := by
  obtain ⟨c, u, -, -, rfl⟩ := List.forall₂_cons_left_iff.mp htag
  rw [Cursor.atWordBoundary, Cursor.atWordBoundary, List.head?_append_of_ne_nil _ (by simp)]

theorem exists_isFirstQuoted_of_at?
    (h : (quotedAttribute element name).at? ⟨before, t⟩ = some o) :
    ∃ tag inside value w rest, t = tag ++ (inside ++ (w ++ rest)) ∧
      IsFirstQuoted element name tag inside value w rest ∧
      o.width = tag.length + (inside.length + w.length) ∧
      ∃ capture, o.groups = [(1, capture)] ∧ capture.text = value := by
  rw [at?, ← run_some, run_quotedAttribute] at h
  split at h
  · rename_i q hq
    split at h
    · obtain rfl := Option.some.inj h
      obtain ⟨tag, t, rfl, htag, hq⟩ := exists_of_run_literalEitherCase hq
      obtain ⟨hboundary, hq⟩ := of_run_wordBoundary hq
      obtain ⟨inside, t, rfl, hinside, hq, hleast⟩ := exists_least_of_run_lazyMany hq
      rw [run_some] at hq
      obtain ⟨w, gs, hw, -, hwidth, hgs, hread⟩ := advances_of_mem_ends (List.mem_of_head? hq)
      obtain ⟨value, hquoted, rfl⟩ := reads_quotedValue.mp hread
      obtain ⟨g, hg, hcapture⟩ := List.map_eq_singleton_iff.mp
        (show q.groups.map (fun g => (g.1, g.2.text)) = [(1, value)] from hgs)
      obtain ⟨hindex, htext⟩ := Prod.mk.inj hcapture
      dsimp only at hw
      rw [atWordBoundary_tag htag, hw] at hboundary
      refine ⟨tag, inside, value, w, q.cursor.after, by rw [← hw], ⟨htag, hboundary, ?_, hquoted,
        fun u v huv hne => ?_⟩, ?_, g.2, by rw [hg, ← hindex], htext⟩
      · intro hmem
        exact absurd (hinside '>' hmem) (by decide)
      · rw [← hw]
        exact run_quotedValue_eq_none_iff.mp (hleast u v huv hne)
      · dsimp only [Progress.start] at hwidth ⊢
        omega
    · cases h
  · cases h

theorem IsFirstQuoted.exists_at? (h : IsFirstQuoted element name tag inside value w rest)
    (before : Text) :
    ∃ o, (quotedAttribute element name).at? ⟨before, tag ++ (inside ++ (w ++ rest))⟩ = some o := by
  have hinside : ∀ c ∈ inside, (!(">" : Text).contains c) = true := by
    intro c hc
    have hne : c ≠ '>' := fun heq => h.isOpen (heq ▸ hc)
    simpa using hne
  have hboundary := (atWordBoundary_tag h.letters before (inside ++ (w ++ rest))).trans h.boundary
  have hquoted : ∀ width, ∃ q, (quotedValue name).run
      ⟨⟨inside.reverse ++ (tag.reverse ++ before), w ++ rest⟩, width, []⟩ some = some q := by
    intro width
    refine Option.isSome_iff_exists.mp (Option.isSome_iff_ne_none.mpr fun hnone => ?_)
    exact run_quotedValue_eq_none_iff.mp hnone w value rest rfl h.quoted
  obtain ⟨q, hq⟩ := hquoted (0 + tag.length + inside.length)
  have hpos : 0 < q.width := by
    rw [run_some] at hq
    obtain ⟨u, gs, -, -, hwidth, -, hread⟩ := advances_of_mem_ends (List.mem_of_head? hq)
    obtain ⟨_, hu, -⟩ := reads_quotedValue.mp hread
    obtain ⟨b, u, rfl, -⟩ := hu.exists_blank
    rw [hwidth, List.length_cons]
    omega
  refine ⟨_, at?_of_run ?_ hpos⟩
  rw [run_quotedAttribute, Progress.start, run_literalEitherCase_of_sameLetters h.letters,
    run_wordBoundary hboundary, noneOf, run_lazyMany_one_skip hinside]
  · exact run_lazyMany_of_some hq
  · intro u v huv hne
    exact run_quotedValue_eq_none_iff.mpr (h.first u v huv hne)

variable {tag' inside' value' w' rest' : Text}

theorem IsFirstQuoted.length_inside_le (h : IsFirstQuoted element name tag inside value w rest)
    (hw' : IsQuoted name value' w') (heq : inside ++ (w ++ rest) = inside' ++ (w' ++ rest')) :
    inside.length ≤ inside'.length := by
  rcases List.append_eq_append_iff.mp heq with ⟨v, rfl, -⟩ | ⟨v, rfl, hv⟩
  · simp
  · by_cases hnil : v = []
    · simp [hnil]
    · exact absurd hw' (h.first inside' v rfl hnil w' value' rest' hv.symm)

theorem IsFirstQuoted.value_eq (h : IsFirstQuoted element name tag inside value w rest)
    (h' : IsFirstQuoted element name tag' inside' value' w' rest')
    (heq : tag ++ (inside ++ (w ++ rest)) = tag' ++ (inside' ++ (w' ++ rest'))) :
    value = value' := by
  obtain ⟨-, heq⟩ := List.append_inj heq (h.letters.length_eq.symm.trans h'.letters.length_eq)
  have hle := h.length_inside_le h'.quoted heq
  have hge := h'.length_inside_le h.quoted heq.symm
  exact h.quoted.value_eq h'.quoted (List.append_inj heq (Nat.le_antisymm hle hge)).2

end First

end Candidate

end CanvasPage
