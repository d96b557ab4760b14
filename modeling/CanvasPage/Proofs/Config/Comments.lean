import CanvasPage.Config.Comments

namespace CanvasPage.Config

/-- Can a text stand between the quotes of a string, or behind a backslash there? The character
behind a backslash belongs to it. -/
def isStringBody (escaped : Bool) : Text → Bool
  | [] => !escaped
  | c :: rest =>
      if escaped then isStringBody false rest else c != '"' && isStringBody (c == '\\') rest

/-- A part of a commented text. Strings and comments are given by what stands between their
marks. -/
inductive Piece where
  | string (body : Text)
  | plain (text : Text)
  | block (body : Text)
  | line (body : Text)
  deriving DecidableEq, Repr

namespace Piece

def IsValid : Piece → Prop
  | string body => isStringBody false body = true
  | plain text => '"' ∉ text ∧ '/' ∉ text
  | block body => ¬ ("*/" : Text) <:+: body
  | line body => '\n' ∉ body

instance decidableIsValid : DecidablePred IsValid
  | string body => inferInstanceAs (Decidable (isStringBody false body = true))
  | plain text => inferInstanceAs (Decidable ('"' ∉ text ∧ '/' ∉ text))
  | block body => inferInstanceAs (Decidable (¬ ("*/" : Text) <:+: body))
  | line body => inferInstanceAs (Decidable ('\n' ∉ body))

def text : Piece → Text
  | string body => '"' :: (body ++ ['"'])
  | plain text => text
  | block body => '/' :: '*' :: (body ++ ['*', '/'])
  | line body => '/' :: '/' :: (body ++ ['\n'])

/-- What is left of a piece without comments. -/
def kept : Piece → Text
  | block _ => []
  | line _ => ['\n']
  | p => p.text

end Piece

section Insertion

variable {body t : Text}

theorem stripFrom_string {escaped : Bool} (h : isStringBody escaped body = true) (u : Text) :
    stripFrom (if escaped then .stringEscape else .string) (body ++ '"' :: u) =
      body ++ '"' :: stripFrom .outside u := by
  fun_induction isStringBody escaped body with
  | case1 escaped =>
    obtain rfl : escaped = false := by simpa using h
    rfl
  | case2 c rest ih => exact congrArg _ (ih h)
  | case3 escaped c rest hescaped ih =>
    rw [Bool.and_eq_true, bne_iff_ne] at h
    rw [if_neg hescaped, List.cons_append, stripFrom, beq_false_of_ne h.1,
      if_neg Bool.false_ne_true, ih h.2, List.cons_append]

theorem stripFrom_plain (hquote : '"' ∉ t) (hslash : '/' ∉ t) (u : Text) :
    stripFrom .outside (t ++ u) = t ++ stripFrom .outside u := by
  induction t with
  | nil => rfl
  | cons c t ih =>
    rw [List.mem_cons, not_or] at hquote hslash
    rw [List.cons_append, stripFrom, if_neg (by simpa using Ne.symm hquote.1),
      beq_false_of_ne (Ne.symm hslash.1), Bool.false_and, Bool.false_and,
      if_neg Bool.false_ne_true, if_neg Bool.false_ne_true, ih hquote.2 hslash.2, List.cons_append]

/-- A block comment is left at the first star with a slash behind it. After a star the rest may not
begin with the slash. -/
theorem stripFrom_block (h : ¬ ("*/" : Text) <:+: body) (u : Text) :
    stripFrom .block (body ++ '*' :: '/' :: u) = stripFrom .outside u ∧
      (body.head? ≠ some '/' →
        stripFrom .blockStar (body ++ '*' :: '/' :: u) = stripFrom .outside u) := by
  induction body with
  | nil => exact ⟨rfl, fun _ => rfl⟩
  | cons c body ih =>
    obtain ⟨hblock, hstar⟩ := ih fun hmem => h (hmem.trans (List.suffix_cons c body).isInfix)
    have hnext : stripFrom (if c == '*' then .blockStar else .block) (body ++ '*' :: '/' :: u) =
        stripFrom .outside u := by
      split
      · rename_i hc
        refine hstar fun hhead => h ?_
        obtain ⟨rest, rfl⟩ := List.head?_eq_some_iff.mp hhead
        rw [beq_iff_eq.mp hc]
        exact (List.prefix_append ['*', '/'] rest).isInfix
      · exact hblock
    refine ⟨hnext, fun hhead => ?_⟩
    have hc : c ≠ '/' := fun hc => hhead (by rw [hc]; rfl)
    rw [List.cons_append, stripFrom, if_neg (by simpa using hc)]
    exact hnext

theorem stripFrom_line (h : '\n' ∉ body) (u : Text) :
    stripFrom .lineComment (body ++ '\n' :: u) = '\n' :: stripFrom .outside u := by
  induction body with
  | nil => rfl
  | cons c body ih =>
    rw [List.mem_cons, not_or] at h
    rw [List.cons_append, stripFrom, if_neg (by simpa using Ne.symm h.1), ih h.2]

theorem stripFrom_piece {p : Piece} (h : p.IsValid) (u : Text) :
    stripFrom .outside (p.text ++ u) = p.kept ++ stripFrom .outside u := by
  cases p with
  | string body =>
    show '"' :: stripFrom .string ((body ++ ['"']) ++ u) = '"' :: ((body ++ ['"']) ++ _)
    rw [List.append_assoc, List.append_assoc]
    exact congrArg _ (stripFrom_string h u)
  | plain text => exact stripFrom_plain h.1 h.2 u
  | block body =>
    show stripFrom .block ((body ++ ['*', '/']) ++ u) = _
    rw [List.append_assoc]
    exact (stripFrom_block h u).1
  | line body =>
    show stripFrom .lineComment ((body ++ ['\n']) ++ u) = '\n' :: _
    rw [List.append_assoc]
    exact stripFrom_line h u

theorem stripFrom_pieces {ps : List Piece} (h : ∀ p ∈ ps, p.IsValid) :
    stripFrom .outside (ps.flatMap Piece.text) = ps.flatMap Piece.kept := by
  induction ps with
  | nil => rfl
  | cons p ps ih =>
    rw [List.flatMap_cons, stripFrom_piece (h p (by simp)), ih fun q hq => h q (by simp [hq]),
      List.flatMap_cons]

end Insertion

section Again

/-- Where the reader of the stripped text stands, while that of the text itself stands in a
state. -/
def CommentState.stripped : CommentState → CommentState
  | .string => .string
  | .stringEscape => .stringEscape
  | _ => .outside

theorem head?_stripFrom_outside {t : Text} (h : t.head? ≠ some '/') :
    (stripFrom .outside t).head? = t.head? := by
  cases t with
  | nil => rfl
  | cons c t =>
    have hc : c ≠ '/' := fun hc => h (by rw [hc]; rfl)
    rw [stripFrom, beq_false_of_ne hc, Bool.false_and, Bool.false_and]
    split <;> rfl

theorem stripFrom_stripFrom (s : CommentState) (t : Text) :
    stripFrom s.stripped (stripFrom s t) = stripFrom s t := by
  fun_induction stripFrom s t with
  | case1 s => cases s <;> rfl
  | case2 c rest hquote ih =>
    obtain rfl := beq_iff_eq.mp hquote
    exact congrArg _ ih
  | case3 c rest hquote hline ih => exact ih
  | case4 c rest hquote hline hblock ih => exact ih
  | case5 c rest hquote hline hblock ih =>
    -- a slash that is kept has the same character behind it as before, so it opens nothing
    have hopens : ∀ d, ¬ (c == '/' && rest.head? == some d) = true →
        ¬ (c == '/' && (stripFrom .outside rest).head? == some d) = true := by
      intro d hd hkept
      rw [Bool.and_eq_true, beq_iff_eq] at hkept
      obtain ⟨rfl, hhead⟩ := hkept
      rw [head?_stripFrom_outside (by simpa using hline)] at hhead
      exact hd (by simpa using hhead)
    show stripFrom .outside (c :: stripFrom .outside rest) = _
    rw [stripFrom, if_neg hquote, if_neg (hopens '/' hline), if_neg (hopens '*' hblock)]
    exact congrArg _ ih
  | case6 c rest next ih =>
    have hnext : next.stripped = next := by
      dsimp only [next]
      split
      · rfl
      · split <;> rfl
    rw [hnext] at ih
    exact congrArg _ ih
  | case7 c rest ih => exact congrArg _ ih
  | case8 c rest hc ih =>
    obtain rfl := beq_iff_eq.mp hc
    exact congrArg _ ih
  | case9 c rest hc ih => exact ih
  | case10 c rest ih => exact ih
  | case11 c rest ih =>
    have hnext : (if c == '*' then CommentState.blockStar else .block).stripped = .outside := by
      split <;> rfl
    rwa [hnext] at ih
  | case12 c rest ih =>
    have hnext : (if c == '/' then CommentState.outside
        else if c == '*' then .blockStar else .block).stripped = .outside := by
      split
      · rfl
      · split <;> rfl
    rwa [hnext] at ih

end Again

/-- A commented text is read back without its comments, and nothing that is left of any text can
be taken for a comment. -/
theorem stripComments_pieces :
    (∀ ps : List Piece, (∀ p ∈ ps, p.IsValid) →
      stripComments (ps.flatMap Piece.text) = ps.flatMap Piece.kept) ∧
    ∀ t, stripComments (stripComments t) = stripComments t :=
  ⟨fun _ => stripFrom_pieces, stripFrom_stripFrom .outside⟩

/-- A string with the marks of comments in it, and comments with a quote and with stars. -/
def urlPieces : List Piece :=
  [.block "**", .plain "[", .string "http://a.b/*c*/ \\\"", .block " \" // * ", .plain ", 1",
    .line " it's /*", .plain "]"]

theorem stripComments_pieces_url :
    (∀ p ∈ urlPieces, p.IsValid) ∧
      stripComments (urlPieces.flatMap Piece.text) = "[\"http://a.b/*c*/ \\\"\", 1\n]" ∧
      stripComments (stripComments "/ /**/* \"") = stripComments "/ /**/* \"" := by
  have hvalid : ∀ p ∈ urlPieces, p.IsValid := by decide +kernel
  refine ⟨hvalid, ?_, stripComments_pieces.2 _⟩
  rw [stripComments_pieces.1 urlPieces hvalid]
  decide

end CanvasPage.Config
