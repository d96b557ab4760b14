import CanvasPage.Page.Script
import CanvasPage.Proofs.Script.Alike
import CanvasPage.Proofs.Text.Lines

namespace CanvasPage.Page

open Script

variable {s : State} {t indent : Text} {ls : List Text}

theorem isQuote_run (hs : ∀ q ∈ s.mode.quote?, isQuote q = true) (t : Text) :
    ∀ q ∈ (s.run t).mode.quote?, isQuote q = true := by
  induction t generalizing s with
  | nil => exact hs
  | cons c t ih => exact ih (isQuote_of_step hs c)

theorem isLineStart_run (hs : ∀ q ∈ s.mode.quote?, isQuote q = true) (l : Text) :
    (s.run (l ++ ['\n'])).IsLineStart := by
  rw [State.run_append]
  exact isLineStart_step (isQuote_run hs l)

def IsMargin (t : Text) : Prop := ∀ c ∈ t, Text.isBlank c = true ∧ c ≠ '\n'

theorem alike_indentLine (hs : s.IsLineStart) (hindent : IsMargin indent) {l : Text}
    (hl : '\n' ∉ l) (t : Text) : Alike s (indentLine indent l ++ t) (l ++ t) := by
  rw [indentLine]
  split
  · rename_i hblank
    have hmargin : IsMargin l := fun c hc =>
      ⟨List.all_eq_true.mp hblank c hc, fun hbreak => hl (hbreak ▸ hc)⟩
    exact (hs.alike_blanks hmargin t).symm
  · rw [List.append_assoc]
    exact hs.alike_blanks hindent _

theorem alike_unlines (hs : s.IsLineStart) (hq : ∀ q ∈ s.mode.quote?, isQuote q = true)
    (hindent : IsMargin indent) (hls : ∀ l ∈ ls, '\n' ∉ l) :
    Alike s (unlines (ls.map (indentLine indent))) (unlines ls) := by
  induction ls generalizing s with
  | nil => exact .refl _ _
  | cons l ls ih =>
    have hline := alike_indentLine hs hindent (hls l (by simp))
    have hrest := ih (isLineStart_run hq l) (isQuote_run hq (l ++ ['\n']))
      fun m hm => hls m (by simp [hm])
    rw [unlines] at hrest ⊢
    rw [List.map_cons, List.flatMap_cons, List.append_assoc]
    refine (hline _).trans ?_
    rw [← List.append_assoc]
    exact .append_left _ hrest

theorem alike_indentLines (hindent : IsMargin indent) (body : Text) :
    Alike .start (indentLines indent body) (unlines (Text.lines body)) :=
  alike_unlines isLineStart_start (by simp [State.start, Mode.quote?]) hindent
    (Text.not_mem_lines body)

theorem join_lineFeed (indent l m : Text) (ls : List Text) (t : Text) :
    Text.join ('\n' :: indent) (l :: m :: ls) ++ t =
      (l ++ ['\n']) ++ (indent ++ (Text.join ('\n' :: indent) (m :: ls) ++ t)) := by
  rw [Text.join_cons_cons]
  simp only [List.append_assoc, List.cons_append, List.nil_append]

theorem alike_join (hq : ∀ q ∈ s.mode.quote?, isQuote q = true) (hindent : IsMargin indent)
    (t : Text) : Alike s (Text.join ('\n' :: indent) ls ++ t) (Text.join ['\n'] ls ++ t) := by
  induction ls generalizing s with
  | nil => exact .refl _ _
  | cons l ls ih =>
    cases ls with
    | nil => exact .refl _ _
    | cons m ls =>
      have hrest := ih (isQuote_run hq (l ++ ['\n']))
      have hmargin := (isLineStart_run hq l).alike_blanks hindent
        (Text.join ('\n' :: indent) (m :: ls) ++ t)
      rw [join_lineFeed, join_lineFeed]
      exact .append_left _ (hmargin.trans hrest)

end CanvasPage.Page
