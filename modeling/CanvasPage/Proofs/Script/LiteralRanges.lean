import CanvasPage.Page.Script
import CanvasPage.Proofs.Script.Leaving
import CanvasPage.Proofs.Script.LiteralTexts

namespace CanvasPage

namespace Script

/-- Does a text begin with a quote, a backtick or the two characters that open a comment? -/
def opensLiteral : Text → Bool
  | [] => false
  | c :: rest =>
      isQuote c || isBacktick c || (c == '/' && (rest.head? == some '/' || rest.head? == some '*'))

section Opening

variable {c q : Char} {t w inside after : Text} {s : State} {rcs : List (Role × Char)} {k : Nat}

theorem role_start (c : Char) (t : Text) :
    State.start.role c t.head? = if opensLiteral (c :: t) then .opens else .code := rfl

theorem roles_quote (hc : (isQuote c || isBacktick c) = true) (t : Text) :
    roles .start (c :: t) = .opens :: roles (State.start.step c) t := by
  rw [roles, role_start, opensLiteral, hc, Bool.true_or, if_pos rfl]

theorem roles_of_not_opensLiteral (h : opensLiteral (c :: t) = false) :
    roles .start (c :: t) = .code :: roles .start t := by
  obtain ⟨hstring, hcomment⟩ := Bool.or_eq_false_iff.mp h
  rw [Bool.and_or_distrib_left, Bool.or_eq_false_iff] at hcomment
  rw [roles, role_start, h, roles_step_start hstring hcomment.1 hcomment.2,
    if_neg Bool.false_ne_true]

theorem literalSpans_chunk_code (h : ∀ rc ∈ rcs.head?, rc.1 ≠ .inside) :
    literalSpans k (chunk ((.code, c) :: rcs)) = literalSpans (k + c.utf8Size) (chunk rcs) := by
  cases rcs with
  | nil => rfl
  | cons rc rcs =>
    obtain ⟨r, d⟩ := rc
    cases r with
    | inside => exact absurd rfl (h _ rfl)
    | opens =>
      rw [chunk_cons_of_not_joins (by simp [Role.joins])]
      rfl
    | code =>
      obtain ⟨t, ss, hchunk⟩ := exists_chunk_cons .code d rcs
      rw [chunk, hchunk]
      show literalSpans (k + Text.byteLength (c :: t)) ss = literalSpans (k + c.utf8Size + Text.byteLength t) ss
      rw [Text.byteLength_cons, Nat.add_assoc]

theorem chunk_literal {r : Role} (hr : r ≠ .code) (h : ∀ rc ∈ rcs.head?, rc.1 ≠ .inside)
    (m : Text) :
    chunk ((r, c) :: (m.map (Role.inside, ·) ++ rcs)) = .literal (c :: m) :: chunk rcs := by
  induction m generalizing r c with
  | nil =>
    have hjoins : ∀ rc ∈ rcs.head?, r.joins rc.1 = false := by
      intro rc hrc
      have := h rc hrc
      cases r <;> cases hrole : rc.1 <;> simp_all [Role.joins]
    rw [List.map_nil, List.nil_append, chunk_cons_of_not_joins hjoins]
    cases r <;> simp_all [Segment.ofRole]
  | cons d m ih =>
    rw [List.map_cons, List.cons_append, chunk, ih (by decide)]
    cases r <;> simp_all [Role.joins, Segment.ofRole, Segment.text]

theorem head?_zip_roles_start (t : Text) :
    ∀ rc ∈ ((roles .start t).zip t).head?, rc.1 ≠ .inside := by
  cases t with
  | nil => simp
  | cons c t =>
    rintro rc ⟨⟩
    grind [State.role, State.start]

theorem chunk_opening (hs : s.isCode = false) (o : Text)
    (h : roles .start (c :: (o ++ w)) = .opens :: ((o.map fun _ => .inside) ++ roles s w)) :
    chunk ((roles .start (c :: (o ++ w))).zip (c :: (o ++ w))) =
      (s.leave? w).elim [.literal (c :: (o ++ w))] fun p =>
        .literal (c :: (o ++ p.1)) :: chunk ((roles .start p.2).zip p.2) := by
  have hzip : ∀ m : Text, (m.map fun _ => Role.inside).zip m = m.map (Role.inside, ·) := by
    intro m
    induction m with
    | nil => rfl
    | cons d m ih => rw [List.map_cons, List.zip_cons_cons, ih, List.map_cons]
  rw [h, List.zip_cons_cons, List.zip_append (by simp), hzip]
  cases hleave : s.leave? w with
  | none =>
    have hchunk : chunk ((.opens, c) :: ((o ++ w).map (Role.inside, ·) ++ [])) =
        [.literal (c :: (o ++ w))] :=
      chunk_literal (by decide) (by simp) (o ++ w)
    rw [List.append_nil] at hchunk
    rw [roles_of_leave?_eq_none hs hleave, hzip, ← List.map_append, hchunk]
    rfl
  | some found =>
    obtain ⟨m, rest⟩ := found
    obtain rfl := State.eq_of_leave? hleave
    rw [roles_of_leave?_eq_some hs hleave, List.zip_append (by simp), hzip, ← List.append_assoc,
      ← List.map_append, chunk_literal (by decide) (head?_zip_roles_start rest)]
    rfl

theorem literalSpans_opening (hs : s.isCode = false) (o : Text)
    (h : roles .start (c :: (o ++ w)) = .opens :: ((o.map fun _ => .inside) ++ roles s w)) :
    literalSpans k (chunk ((roles .start (c :: (o ++ w))).zip (c :: (o ++ w)))) =
      (s.leave? w).elim [⟨k, k + Text.byteLength (c :: (o ++ w))⟩] fun p =>
        ⟨k, k + Text.byteLength (c :: (o ++ p.1))⟩ ::
          literalSpans (k + Text.byteLength (c :: (o ++ p.1))) (chunk ((roles .start p.2).zip p.2)) := by
  rw [chunk_opening hs o h]
  cases s.leave? w <;> rfl

theorem literalRanges_quoted (hq : (isQuote q || isBacktick q) = true)
    (h : (State.start.step q).leave? w = some (inside, after)) :
    literalRanges (q :: w) = ⟨0, Text.byteLength (q :: inside)⟩ ::
      literalSpans (Text.byteLength (q :: inside)) (segments after) := by
  have hcode : (State.start.step q).isCode = false := by
    rw [step_quote hq]
    split <;> rfl
  have hroles : roles .start (q :: ([] ++ w)) =
      .opens :: ((([] : Text).map fun _ => .inside) ++ roles (State.start.step q) w) :=
    roles_quote hq w
  have hspans := literalSpans_opening (k := 0) hcode [] hroles
  rw [h, Option.elim_some, List.nil_append, List.nil_append, Nat.zero_add] at hspans
  exact hspans

end Opening

end Script

namespace Page

/-- Each backslash left out, and the character after it kept, from left to right. -/
def unescape : Text → Text
  | [] => []
  | '\\' :: c :: rest => c :: unescape rest
  | c :: rest => c :: unescape rest

def replaceEach (c : Char) (u t : Text) : Text := t.flatMap fun d => if d == c then u else [d]

/-- Backslashes and quotes may be escaped one after the other, the backslashes first. -/
theorem escapeString_eq_replaceEach (t : Text) :
    escapeString t = replaceEach '\'' "\\'" (replaceEach '\\' "\\\\" t) := by
  rw [escapeString, replaceEach, replaceEach, List.flatMap_assoc]
  congr 1
  funext c
  by_cases hslash : c = '\\'
  · subst hslash
    rfl
  · by_cases hquote : c = '\''
    · subst hquote
      rfl
    · simp [hslash, hquote]

theorem unescape_escapeString (t : Text) : unescape (escapeString t) = t := by
  induction t with
  | nil => rfl
  | cons c t ih =>
    rw [escapeString_cons]
    split
    · show c :: unescape (escapeString t) = c :: t
      rw [ih]
    · rename_i hplain
      have hslash : c ≠ '\\' := by
        rintro rfl
        exact hplain rfl
      rw [List.singleton_append, unescape, ih]
      exact fun _ _ hc => absurd hc hslash

end Page

namespace Script

open Page (escapeString unescape)

variable {v : Text}

theorem State.leave?_escapeString (h : '\n' ∉ v) (w : Text) :
    (State.start.step '\'').leave? (escapeString v ++ '\'' :: w) =
      some (escapeString v ++ ['\''], w) := by
  induction v with
  | nil => exact State.leave?_quote rfl w
  | cons c v ih =>
    have hc : c ≠ '\n' := fun hc => h (by simp [hc])
    have ih := ih fun hv => h (by simp [hv])
    rw [Page.escapeString_cons, List.append_assoc]
    split
    · -- the backslash is read with the character behind it, so a quote there does not end the string
      rw [List.cons_append, List.singleton_append, (State.leave?_escape rfl).2, ih]
      rfl
    · rename_i hplain
      simp only [Bool.or_eq_true, beq_iff_eq, not_or] at hplain
      rw [List.singleton_append, State.leave?_plain rfl hplain.1 (by simp [isBacktick])
        (by simp [hc]) hplain.2, ih]
      rfl

/-- A text that is escaped and put in quotes is read as one string, and its value is the text. -/
theorem literalRanges_escapeString (h : '\n' ∉ v) (w : Text) :
    (literalRanges ("'" ++ escapeString v ++ "'" ++ w)).head? =
        some ⟨0, Text.byteLength ("'" ++ escapeString v ++ "'")⟩ ∧
      unescape (escapeString v) = v := by
  have hopen : ("'" ++ escapeString v ++ "'" ++ w : Text) = '\'' :: (escapeString v ++ '\'' :: w) := by
    simp
  refine ⟨?_, Page.unescape_escapeString v⟩
  rw [hopen, literalRanges_quoted rfl (State.leave?_escapeString h w)]
  rfl

/-- The text `it\'s \`, where a quote stands behind each backslash. -/
def backslashed : Text := "it\\'s \\"

theorem literalRanges_escapeString_backslashed :
    '\n' ∉ backslashed ∧
      (literalRanges ("'" ++ escapeString backslashed ++ "'" ++ " + 'x'")).head? =
        some ⟨0, 12⟩ ∧
      unescape (escapeString backslashed) = backslashed :=
  ⟨by decide, literalRanges_escapeString (by decide) " + 'x'"⟩

end Script

end CanvasPage
