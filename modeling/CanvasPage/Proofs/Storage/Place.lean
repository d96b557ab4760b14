import CanvasPage.Storage.FileTree
import Mathlib.Data.List.Induction
import Mathlib.Logic.Relation

namespace CanvasPage

namespace Path

/-- `q` is the path `p` or that of a directory that `p` stands in. -/
def Encloses (q p : Text) : Prop := Relation.ReflTransGen (fun p q => parent? p = some q) p q

theorem encloses_self (p : Text) : Encloses p p := .refl

theorem Encloses.of_parent? {p q r : Text} (hq : parent? p = some q) (h : Encloses r q) :
    Encloses r p :=
  .head hq h

theorem pieces_of_not_mem {t : Text} (h : '/' ∉ t) : pieces t = [t] := by
  induction t with
  | nil => rfl
  | cons c t ih =>
    have hc : (c == '/') = false := beq_false_of_ne fun hc => h (by simp [hc])
    rw [pieces, hc, ih fun ht => h (by simp [ht])]
    rfl

theorem pieces_append (t u : Text) : pieces (t ++ '/' :: u) = pieces t ++ pieces u := by
  induction t with
  | nil => rfl
  | cons c t ih =>
    rw [List.cons_append, pieces, pieces, ih]
    split
    · rfl
    · obtain ⟨p, ps, hp⟩ := List.exists_cons_of_ne_nil (pieces_ne_nil t)
      rw [hp]
      rfl

end Path

namespace FileTree

variable {t : FileTree} {path name : Text}

/-- The place that one piece of a path leads to. -/
def enter (place : List Text) (piece : Text) : List Text :=
  if piece.isEmpty || piece == ['.'] then place
  else if piece == ['.', '.'] then place.dropLast
  else place ++ [piece]

/-- The place that a path names if all that it passes are directories. -/
def placeOf (t : FileTree) (path : Text) : List Text :=
  (Path.pieces path).foldl enter (if path.head? == some '/' then [] else t.workingDirectory)

theorem placeOf_congr {u : FileTree} (h : u.workingDirectory = t.workingDirectory) (path : Text) :
    u.placeOf path = t.placeOf path := by
  rw [placeOf, placeOf, h]

theorem eq_of_locateFrom {place found : List Text} {pieces : List Text}
    (h : t.locateFrom place pieces = .ok found) : found = pieces.foldl enter place := by
  induction pieces generalizing place with
  | nil => exact (Except.ok.inj h).symm
  | cons piece rest ih =>
    rw [locateFrom] at h
    rw [List.foldl_cons, enter]
    split at h
    · cases h
    · cases h
    · split_ifs at h ⊢
      · exact ih h
      · exact ih h
      · exact ih h

theorem eq_of_locate {found : List Text} (h : t.locate path = .ok found) :
    found = t.placeOf path := by
  rw [locate] at h
  split at h
  · cases h
  · split at h
    · cases h
    · exact eq_of_locateFrom h

section Slashes

theorem placeOf_append_slash (h : path ≠ []) (rest : Text) :
    t.placeOf (path ++ '/' :: rest) = (Path.pieces rest).foldl enter (t.placeOf path) := by
  have hhead : (path ++ '/' :: rest).head? = path.head? := by
    rw [List.head?_append, Option.or_of_isSome (List.isSome_head?.mpr h)]
  rw [placeOf, placeOf, Path.pieces_append, List.foldl_append, hhead]

theorem placeOf_cons_dropEndWhile (c : Char) (rest : Text) :
    t.placeOf (c :: Text.dropEndWhile (· == '/') rest) = t.placeOf (c :: rest) := by
  induction rest using List.reverseRecOn with
  | nil => rfl
  | append_singleton rest d ih =>
    by_cases hd : d = '/'
    · subst hd
      have hdrop : Text.dropEndWhile (· == '/') (rest ++ ['/']) =
          Text.dropEndWhile (· == '/') rest := by
        simp [Text.dropEndWhile]
      rw [hdrop, ih, ← List.cons_append, placeOf_append_slash (List.cons_ne_nil c rest)]
      rfl
    · have hkeep : Text.dropEndWhile (· == '/') (rest ++ [d]) = rest ++ [d] := by
        simp [Text.dropEndWhile, hd]
      rw [hkeep]

theorem placeOf_dropEndSlashes (t : FileTree) (path : Text) :
    t.placeOf (Path.dropEndSlashes path) = t.placeOf path := by
  cases path with
  | nil => rfl
  | cons c rest => exact placeOf_cons_dropEndWhile c rest

end Slashes

/-- A name of something, which leads one step down. -/
structure IsEntryName (name : Text) : Prop where
  no_slash : '/' ∉ name
  no_step : name ≠ [] ∧ name ≠ ['.'] ∧ name ≠ ['.', '.']

theorem IsEntryName.enter (h : IsEntryName name) (place : List Text) :
    FileTree.enter place name = place ++ [name] := by
  obtain ⟨hne, hdot, hdots⟩ := h.no_step
  simp [FileTree.enter, hne, hdot, hdots]

theorem IsEntryName.pieces (h : IsEntryName name) : Path.pieces name = [name] :=
  Path.pieces_of_not_mem h.no_slash

theorem IsEntryName.head?_ne (h : IsEntryName name) : name.head? ≠ some '/' :=
  fun hc => h.no_slash (List.mem_of_head? hc)

theorem placeOf_join (t : FileTree) (dir : Text) (h : IsEntryName name) :
    t.placeOf (Path.join dir name) = t.placeOf dir ++ [name] := by
  have hslash : ∀ u ≠ [], t.placeOf (u ++ '/' :: name) = t.placeOf u ++ [name] := by
    intro u hu
    rw [placeOf_append_slash hu, h.pieces]
    exact h.enter _
  have hname : t.placeOf name = t.workingDirectory ++ [name] := by
    rw [placeOf, h.pieces, if_neg (by simpa using h.head?_ne)]
    exact h.enter _
  have hroot : t.placeOf ('/' :: name) = [name] := by
    rw [placeOf, ← List.nil_append ('/' :: name), Path.pieces_append, h.pieces, List.foldl_append]
    exact h.enter _
  rw [Path.join]
  split
  · rename_i hends
    rw [Bool.or_eq_true, List.isEmpty_iff, beq_iff_eq, List.getLast?_eq_some_iff] at hends
    rcases hends with rfl | ⟨u, rfl⟩
    · exact hname
    · rw [List.append_assoc, List.singleton_append]
      by_cases hu : u = []
      · subst hu
        exact hroot
      · rw [hslash u hu, placeOf_append_slash hu]
        rfl
  · rename_i hends
    rw [Bool.or_eq_true, not_or, List.isEmpty_iff] at hends
    exact hslash dir hends.1

section Changes

variable {u : FileTree} {text : Text}

theorem createDirectory_spec (h : t.createDirectory path = .ok u) :
    t.lookup? (t.placeOf path) = none ∧ u = t.set (t.placeOf path) .directory := by
  rw [createDirectory] at h
  split at h
  · cases h
  · rename_i place hplace
    have hplace : place = t.placeOf path := by
      rw [eq_of_locate hplace, placeOf_dropEndSlashes]
    subst hplace
    split_ifs at h with hsome
    exact ⟨by simpa using hsome, (Except.ok.inj h).symm⟩

theorem write_spec (h : t.write path text = .ok u) :
    t.lookup? (t.placeOf path) ≠ some .directory ∧
      u = t.set (t.placeOf path) (.file (some text)) := by
  rw [write] at h
  split at h
  · cases h
  · rename_i place hplace
    obtain rfl := eq_of_locate hplace
    split_ifs at h with hdirectory
    exact ⟨by simpa using hdirectory, (Except.ok.inj h).symm⟩

end Changes

end FileTree

end CanvasPage
