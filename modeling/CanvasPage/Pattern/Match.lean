import CanvasPage.Pattern.Basic

namespace CanvasPage

/-- How far a match has come: its place, how many characters it has taken and the groups it has
closed, the latest first. -/
structure Progress where
  cursor : Cursor
  width : Nat
  groups : List (Nat × Capture)
  deriving DecidableEq, Repr

namespace Progress

def start (c : Cursor) : Progress := ⟨c, 0, []⟩

/-- Takes the character `c`, which `rest` follows. -/
def take (p : Progress) (c : Char) (rest : Text) : Progress :=
  { p with cursor := ⟨c :: p.cursor.before, rest⟩, width := p.width + 1 }

/-- Closes the group that was opened at `opened`. -/
def close (p : Progress) (index : Nat) (opened : Progress) : Progress :=
  { p with groups := (index, ⟨opened.cursor, p.width - opened.width⟩) :: p.groups }

end Progress

namespace Pattern

/-- The ends of a repetition, in order of preference, and after them `others`. A round takes a
character or more, so there are no more rounds than characters `ahead`. -/
def rounds (body : Progress → List Progress) (greedy : Bool) :
    (ahead : Text) → Progress → List Progress → List Progress
  | [], p, others => p :: others
  | _ :: ahead, p, others =>
      let again (q : Progress) (others : List Progress) : List Progress :=
        if p.width < q.width then rounds body greedy ahead q others else others
      if greedy then (body p).foldr again (p :: others) else p :: (body p).foldr again others

/-- Every way to match from a place, in order of preference. -/
def ends : Pattern → Progress → List Progress
  | empty, p => [p]
  | one test, p =>
      match p.cursor.after with
      | [] => []
      | c :: rest => if test c then [p.take c rest] else []
  | seq first second, p => (first.ends p).flatMap second.ends
  | alt first second, p => first.ends p ++ second.ends p
  | star greedy body, p => rounds body.ends greedy p.cursor.after p []
  | group index body, p => (body.ends p).map (·.close index p)
  | inputStart, p => if p.cursor.before.isEmpty then [p] else []
  | inputEnd, p => if p.cursor.after.isEmpty then [p] else []
  | wordBoundary, p => if p.cursor.atWordBoundary then [p] else []

theorem forall_mem_foldr {α : Type} {again : α → List α → List α} {P : α → Prop}
    (qs others : List α)
    (ih : ∀ q ∈ qs, ∀ others, (∀ r ∈ others, P r) → ∀ r ∈ again q others, P r)
    (h : ∀ r ∈ others, P r) : ∀ r ∈ qs.foldr again others, P r := by
  induction qs with
  | nil => exact h
  | cons q qs hqs =>
    exact ih q (by simp) _ (hqs fun q hq => ih q (List.mem_cons_of_mem _ hq))

theorem forall_mem_rounds {body : Progress → List Progress} {P : Progress → Prop}
    (hbody : ∀ p, P p → ∀ q ∈ body p, P q) (greedy : Bool) (ahead : Text) (p : Progress) (hp : P p)
    (others : List Progress) (h : ∀ q ∈ others, P q) :
    ∀ q ∈ rounds body greedy ahead p others, P q := by
  induction ahead generalizing p others with
  | nil => simpa [rounds, hp] using h
  | cons _ ahead ih =>
    have hagain : ∀ q ∈ body p, ∀ others : List Progress, (∀ r ∈ others, P r) →
        ∀ r ∈ (if p.width < q.width then rounds body greedy ahead q others else others), P r := by
      intro q hq others h
      split
      · exact ih q (hbody p hp q hq) others h
      · exact h
    have hcons : ∀ q ∈ p :: others, P q := by simpa [hp] using h
    cases greedy with
    | true => exact forall_mem_foldr _ _ hagain hcons
    | false =>
      intro q hq
      rcases List.mem_cons.mp hq with rfl | hq
      · exact hp
      · exact forall_mem_foldr _ _ hagain h q hq

/-- What taking a character and closing a group keep, every match keeps. -/
theorem forall_mem_ends {P : Progress → Prop}
    (htake : ∀ p c rest, P p → p.cursor.after = c :: rest → P (p.take c rest))
    (hclose : ∀ p index opened, P p → P (p.close index opened)) (pattern : Pattern) (p : Progress)
    (hp : P p) : ∀ q ∈ pattern.ends p, P q := by
  induction pattern generalizing p with
  | empty => simpa [ends] using hp
  | one test =>
    intro q hq
    rw [ends] at hq
    split at hq
    · simp at hq
    · rename_i c rest hc
      split at hq
      · rw [List.mem_singleton.mp hq]
        exact htake p c rest hp hc
      · simp at hq
  | seq first second ih₁ ih₂ =>
    intro q hq
    obtain ⟨r, hr, hq⟩ := List.mem_flatMap.mp hq
    exact ih₂ r (ih₁ p hp r hr) q hq
  | alt first second ih₁ ih₂ =>
    intro q hq
    rcases List.mem_append.mp hq with h | h
    · exact ih₁ p hp q h
    · exact ih₂ p hp q h
  | star greedy body ih => exact forall_mem_rounds ih greedy _ p hp [] (by simp)
  | group index body ih =>
    intro q hq
    obtain ⟨r, hr, rfl⟩ := List.mem_map.mp hq
    exact hclose r index p (ih p hp r hr)
  | inputStart | inputEnd | wordBoundary =>
    intro q hq
    rw [ends] at hq
    split at hq <;> simp_all

theorem whole_of_mem_ends (pattern : Pattern) (p : Progress) :
    ∀ q ∈ pattern.ends p, q.cursor.whole = p.cursor.whole :=
  forall_mem_ends (P := fun q => q.cursor.whole = p.cursor.whole)
    (fun q c rest hq hc => by rw [← hq]; simp [Progress.take, Cursor.whole, hc])
    (fun _ _ _ hq => hq) pattern p rfl

theorem width_of_mem_ends (pattern : Pattern) (p : Progress) :
    ∀ q ∈ pattern.ends p,
      q.width + p.cursor.before.length = p.width + q.cursor.before.length :=
  forall_mem_ends
    (P := fun q => q.width + p.cursor.before.length = p.width + q.cursor.before.length)
    (fun q c rest hq _ => by simp only [Progress.take, List.length_cons]; omega)
    (fun _ _ _ hq => hq) pattern p rfl

end Pattern

structure Occurrence where
  start : Cursor
  stop : Cursor
  width : Nat
  groups : List (Nat × Capture)
  deriving DecidableEq, Repr

namespace Occurrence

def group? (o : Occurrence) (index : Nat) : Option Capture :=
  (o.groups.find? (·.1 == index)).map (·.2)

def groupText (o : Occurrence) (index : Nat) : Text := ((o.group? index).map (·.text)).getD []

end Occurrence

namespace Pattern

/-- The preferred match at a place. A match is never empty. -/
def at? (p : Pattern) (c : Cursor) : Option Occurrence :=
  match (p.ends (.start c)).head? with
  | some q => if 0 < q.width then some ⟨c, q.cursor, q.width, q.groups⟩ else none
  | none => none

def atStart? (p : Pattern) (t : Text) : Option Occurrence := p.at? (.atStart t)

/-- All matches from left to right, none overlapping an earlier one. `covered` characters still
belong to the latest match. -/
def occurrencesFrom (p : Pattern) (covered : Nat) (before : Text) : Text → List Occurrence
  | [] => []
  | c :: rest =>
      match covered with
      | covered + 1 => p.occurrencesFrom covered (c :: before) rest
      | 0 =>
          match p.at? ⟨before, c :: rest⟩ with
          | none => p.occurrencesFrom 0 (c :: before) rest
          | some o => o :: p.occurrencesFrom (o.width - 1) (c :: before) rest

def occurrences (p : Pattern) (t : Text) : List Occurrence := p.occurrencesFrom 0 [] t

def first? (p : Pattern) (t : Text) : Option Occurrence := (p.occurrences t).head?

def occursIn (p : Pattern) (t : Text) : Bool := (p.first? t).isSome

def replaceFrom (p : Pattern) (new : Occurrence → Text) (covered : Nat) (before : Text) :
    Text → Text
  | [] => []
  | c :: rest =>
      match covered with
      | covered + 1 => p.replaceFrom new covered (c :: before) rest
      | 0 =>
          match p.at? ⟨before, c :: rest⟩ with
          | none => c :: p.replaceFrom new 0 (c :: before) rest
          | some o => new o ++ p.replaceFrom new (o.width - 1) (c :: before) rest

def replaceAll (p : Pattern) (new : Occurrence → Text) (t : Text) : Text :=
  p.replaceFrom new 0 [] t

end Pattern

end CanvasPage
