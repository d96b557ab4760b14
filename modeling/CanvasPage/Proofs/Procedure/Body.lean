import CanvasPage.Procedure.OfClass
import CanvasPage.Proofs.Page.Indented
import CanvasPage.Proofs.Procedure.Arrow
import CanvasPage.Proofs.Procedure.Indentation
import CanvasPage.Proofs.Procedure.Parameter
import CanvasPage.Proofs.Procedure.PlainCode

namespace CanvasPage

open Script

namespace Procedure

/-- The lines of a body that needs no rewriting. An arrow may stand in it where no block opens
after it in code. -/
structure IsPlainBody (ls : List Text) : Prop where
  tidy : AreTidy ls
  closed : isClosed (Page.unlines ls) = true
  code : ∀ c, .code c ∈ segments (Text.join "\n" ls) → IsPlainCode c
  arrows : ∀ u ws v, Text.join "\n" ls = u ++ ("=>" ++ (ws ++ '\x7b' :: v)) →
    Text.allBlank ws = true → inLiteral (Text.join "\n" ls) (u.length + 2 + ws.length) = true

variable {ls : List Text} {raw t : Text}

theorem rewriteBody_of_next?_eq_none (hraw : Substitution.applyAll (normalizeIndentation raw) = t)
    (harrow : ∀ params, Arrow.next? params t = none) : rewriteBody raw = t := by
  have hwithin : ∀ depth, rewriteBodyWithin depth raw = t := by
    intro depth
    cases depth with
    | zero => rw [rewriteBodyWithin, hraw]
    | succ depth =>
      rw [rewriteBodyWithin, hraw]
      exact Arrow.rewriteUpTo_of_next?_eq_none (harrow _) _
  exact hwithin _

theorem rewriteBody_indented (hls : IsPlainBody ls) (k : Nat) :
    rewriteBody ('\n' :: Page.unlines (ls.map (spaces k ++ ·))) = Text.join "\n" ls := by
  refine rewriteBody_of_next?_eq_none ?_ (Arrow.next?_eq_none hls.arrows)
  rw [normalizeIndentation_indented hls.tidy k, Substitution.applyAll_of_isPlainCode hls.code]

theorem isMargin_spaces (k : Nat) : Page.IsMargin (spaces k) := by
  intro c hc
  rw [List.eq_of_mem_replicate hc]
  decide

theorem alike_indented {s : State} (hs : s.IsLineStart)
    (hq : ∀ q ∈ s.mode.quote?, isQuote q = true) (k : Nat) (ls : List Text) :
    Alike s (Page.unlines (ls.map (spaces k ++ ·))) (Page.unlines ls) := by
  induction ls generalizing s with
  | nil => exact .refl _ _
  | cons l ls ih =>
    have hrest := ih (Page.isLineStart_run hq l) (Page.isQuote_run hq (l ++ ['\n']))
    have hmargin := hs.alike_blanks (isMargin_spaces k) ((l ++ ['\n']) ++
      Page.unlines (ls.map (spaces k ++ ·)))
    have hline : Page.unlines ((l :: ls).map (spaces k ++ ·)) =
        spaces k ++ ((l ++ ['\n']) ++ Page.unlines (ls.map (spaces k ++ ·))) := by
      rw [List.map_cons, Page.unlines, List.flatMap_cons]
      simp only [List.append_assoc]
      rfl
    rw [hline]
    exact hmargin.trans (.append_left _ hrest)

theorem isClosed_indented (hls : isClosed (Page.unlines ls) = true) (k : Nat) :
    isClosed ('\n' :: Page.unlines (ls.map (spaces k ++ ·))) = true := by
  have halike := alike_indented isLineStart_start (by simp [State.start, Mode.quote?]) k ls
  exact isClosed_of_neutral (neutral_cons_of_isPlain rfl (by decide)
    (halike.neutral (neutral_of_isClosed hls)))

end Procedure

end CanvasPage
