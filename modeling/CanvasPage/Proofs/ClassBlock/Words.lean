import CanvasPage.Proofs.ClassBlock.Printed
import CanvasPage.Proofs.Pattern.Literal
import CanvasPage.Proofs.Pattern.Run

namespace CanvasPage.Member

open Pattern

variable {α : Type} {k : Progress → Option α} {before t rest : Text} {width : Nat}
  {groups : List (Nat × Capture)} {names : List Text} {a : α}

def AreWords (names : List Text) : Prop :=
  ∀ n ∈ names, n ≠ [] ∧ ∀ c ∈ n, Text.continuesIdentifier c = true

def word (names : List Text) : Pattern := anyOf (names.map literal) ++ blanks1

theorem run_word_eq_none (h : ∀ n ∈ names, ∀ c r, t = n ++ c :: r → Text.isBlank c = true →
    blanks.run ⟨⟨c :: (n.reverse ++ before), r⟩, width + n.length + 1, groups⟩ k = none) :
    (word names).run ⟨⟨before, t⟩, width, groups⟩ k = none := by
  rw [word, run_append]
  apply run_anyOf_eq_none
  intro pattern hp
  obtain ⟨n, hn, rfl⟩ := List.mem_map.mp hp
  apply run_literal_eq_none
  intro r hr
  cases r with
  | nil => exact run_blanks1_eq_none (by simp)
  | cons c r =>
    rw [run_blanks1_cons]
    split
    · rename_i hc
      exact h n hn c r hr hc
    · rfl

theorem eq_of_append_cons {m n r : Text} {c d : Char}
    (hm : ∀ x ∈ m, Text.continuesIdentifier x = true)
    (hn : ∀ x ∈ n, Text.continuesIdentifier x = true) (hc : Text.continuesIdentifier c = false)
    (hd : Text.continuesIdentifier d = false) (h : m ++ c :: rest = n ++ d :: r) :
    m = n ∧ c = d ∧ rest = r := by
  have htake := congrArg (List.takeWhile Text.continuesIdentifier) h
  rw [List.takeWhile_append_of_pos hm, List.takeWhile_append_of_pos hn,
    List.takeWhile_cons_of_neg (by simp [hc]), List.takeWhile_cons_of_neg (by simp [hd]),
    List.append_nil, List.append_nil] at htake
  subst htake
  exact ⟨rfl, List.cons.inj (List.append_cancel_left h)⟩

theorem run_word (hnames : AreWords names) {n b : Text} (hn : n ∈ names) (hne : b ≠ [])
    (hb : ∀ c ∈ b, Text.isBlank c = true) (hrest : ∀ c ∈ rest.head?, Text.isBlank c = false)
    (hk : k ⟨⟨b.reverse ++ (n.reverse ++ before), rest⟩, width + n.length + b.length, groups⟩ =
      some a) : (word names).run ⟨⟨before, n ++ (b ++ rest)⟩, width, groups⟩ k = some a := by
  obtain ⟨d, b, rfl⟩ := List.exists_cons_of_ne_nil hne
  obtain ⟨hd, hb⟩ := List.forall_mem_cons.mp hb
  have hword : (literal n).run ⟨⟨before, n ++ (d :: b ++ rest)⟩, width, groups⟩
      (fun q => blanks1.run q k) = some a := by
    rw [run_literal_append, List.cons_append, run_blanks1_cons, if_pos hd]
    refine run_blanks_longest hb hrest ?_
    rw [← hk, List.reverse_cons, List.append_assoc, List.length_cons]
    congr 2
    omega
  have hother : ∀ m ∈ names, m ≠ n →
      (literal m).run ⟨⟨before, n ++ (d :: b ++ rest)⟩, width, groups⟩
        (fun q => blanks1.run q k) = none := by
    intro m hm hne
    apply run_literal_eq_none
    intro r hr
    cases r with
    | nil => exact run_blanks1_eq_none (by simp)
    | cons c r =>
      rw [run_blanks1_cons]
      split
      · rename_i hc
        have hstop := Text.not_continuesIdentifier_of_isBlank hc
        exact absurd (eq_of_append_cons (hnames n hn).2 (hnames m hm).2
          (Text.not_continuesIdentifier_of_isBlank hd) hstop hr).1.symm hne
      · rfl
  rw [word, run_append]
  apply run_anyOf_of_mem (List.mem_map_of_mem hn) hword
  intro pattern hp
  obtain ⟨m, hm, rfl⟩ := List.mem_map.mp hp
  by_cases hne : m = n
  · rw [hne, hword]
    exact .inr rfl
  · exact .inl (hother m hm hne)

theorem run_words (hnames : AreWords names) {ws : List Text} (hws : ∀ w ∈ ws, w ∈ names)
    (ht : ∀ c ∈ t.head?, Text.isBlank c = false)
    (hk : (many (word names)).run
      ⟨⟨(joinWords ws).reverse ++ before, t⟩, width + (joinWords ws).length, groups⟩ k = some a) :
    (many (word names)).run ⟨⟨before, joinWords ws ++ t⟩, width, groups⟩ k = some a := by
  induction ws generalizing before width with
  | nil => simpa [joinWords] using hk
  | cons n ws ih =>
    have hn : n ∈ names := hws n (by simp)
    have htail : ∀ w ∈ ws, w ∈ names := fun w hw => hws w (by simp [hw])
    have hhead : ∀ c ∈ (joinWords ws ++ t).head?, Text.isBlank c = false := by
      cases ws with
      | nil => simpa [joinWords] using ht
      | cons m ws =>
        obtain ⟨hne, hm⟩ := hnames m (htail m (by simp))
        obtain ⟨c, m, rfl⟩ := List.exists_cons_of_ne_nil hne
        intro d hd
        obtain rfl : c = d := by simpa [joinWords] using hd
        exact Text.isBlank_of_continuesIdentifier (hm c (by simp))
    have hsplit : joinWords (n :: ws) ++ t = n ++ ' ' :: (joinWords ws ++ t) := by
      simp [joinWords]
    have hreverse : (joinWords (n :: ws)).reverse ++ before =
        (joinWords ws).reverse ++ ' ' :: (n.reverse ++ before) := by
      simp [joinWords]
    have hlength : width + (joinWords (n :: ws)).length =
        width + n.length + 1 + (joinWords ws).length := by
      simp [joinWords]
      omega
    rw [hreverse, hlength] at hk
    have hrest := ih htail hk
    have hword : (word names).run ⟨⟨before, n ++ ([' '] ++ (joinWords ws ++ t))⟩, width, groups⟩
        (fun q => if width < q.width then (many (word names)).run q k else none) = some a := by
      refine run_word hnames hn (List.cons_ne_nil ' ' []) (by decide) hhead ?_
      exact (if_pos (show width < width + n.length + 1 by omega)).trans hrest
    rw [hsplit, run_many]
    exact (congrArg (Option.or · _) hword).trans (Option.some_or ..)

theorem run_words_stop (hnames : AreWords names) {name : Text} {c : Char}
    (hname : ∀ x ∈ name, Text.continuesIdentifier x = true)
    (hc : Text.continuesIdentifier c = false) (hblank : Text.isBlank c = false) :
    (many (word names)).run ⟨⟨before, name ++ c :: rest⟩, width, groups⟩ k =
      k ⟨⟨before, name ++ c :: rest⟩, width, groups⟩ := by
  rw [run_many, run_word_eq_none, Option.none_or]
  intro n hn d r hr hd
  have hstop := Text.not_continuesIdentifier_of_isBlank hd
  obtain ⟨-, rfl, -⟩ := eq_of_append_cons hname (hnames n hn).2 hc hstop hr
  rw [hblank] at hd
  cases hd

end CanvasPage.Member
