import CanvasPage.Text.Basic

namespace CanvasPage.Path

def pieces : Text → List Text
  | [] => [[]]
  | c :: rest =>
      if c == '/' then [] :: pieces rest
      else match pieces rest with
        | [] => [[c]]
        | p :: ps => (c :: p) :: ps

theorem pieces_ne_nil (path : Text) : pieces path ≠ [] := by
  fun_cases pieces path <;> simp

theorem join_pieces (path : Text) : Text.join ['/'] (pieces path) = path := by
  fun_induction pieces path with
  | case1 => rfl
  | case2 c rest hc ih =>
    obtain ⟨p, ps, hp⟩ := List.exists_cons_of_ne_nil (pieces_ne_nil rest)
    rw [hp] at ih ⊢
    rw [Text.join, ih, beq_iff_eq.mp hc]
    · rfl
    · simp
  | case3 c rest hc hp ih => exact absurd hp (pieces_ne_nil rest)
  | case4 c rest hc p ps hp ih =>
    rw [hp] at ih
    cases ps with
    | nil => simpa [Text.join] using ih
    | cons q ps =>
      rw [Text.join] at ih ⊢
      · rw [← ih]; rfl
      all_goals simp

def join (dir name : Text) : Text :=
  if dir.isEmpty || dir.getLast? == some '/' then dir ++ name else dir ++ '/' :: name

/-- The part of a file name after its last dot. A dot in front starts no extension. -/
def extension? (name : Text) : Option Text :=
  let extension := (name.reverse.takeWhile (· != '.')).reverse
  if extension.length + 1 < name.length then some extension else none

/-- The pieces that name something: no empty ones, and a dot only in front. -/
def names (path : Text) : List Text :=
  match pieces path with
  | [] => []
  | p :: ps =>
      let rest := ps.filter fun q => !q.isEmpty && q != ['.']
      if p.isEmpty then rest else p :: rest

def parent? (path : Text) : Option Text :=
  let root : Text := if path.head? == some '/' then "/" else []
  if (names path).isEmpty then none else some (root ++ Text.join "/" (names path).dropLast)

/-- The path without the slashes that it ends in, other than the root. -/
def dropEndSlashes : Text → Text
  | [] => []
  | c :: rest => c :: Text.dropEndWhile (· == '/') rest

/-- The order of paths by their components. -/
def precedes : List Text → List Text → Bool
  | _, [] => false
  | [], _ :: _ => true
  | s :: ss, t :: ts => Text.precedes s t || (s == t && precedes ss ts)

end CanvasPage.Path
