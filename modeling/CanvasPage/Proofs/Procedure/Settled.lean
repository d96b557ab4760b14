import CanvasPage.Proofs.Procedure.Depth
import CanvasPage.Proofs.Procedure.This

namespace CanvasPage

namespace Parameter

variable {f g : Text → Text} {piece raw v : Text}

theorem unmodified_suffix (piece : Text) : unmodified piece <:+ Text.trim piece := by
  rw [unmodified]
  cases hmodifiers : modifiers.atStart? (Text.trim piece) with
  | none => exact List.suffix_refl _
  | some o =>
    obtain ⟨w, _, -, hafter, -⟩ := Pattern.exists_reads_of_at? hmodifiers
    exact ⟨w, hafter.symm⟩

def default? (piece : Text) : Option Text :=
  (splitDefault 0 none (unmodified piece)).map fun (_, value) => Text.trim value

theorem count_default?_le (h : default? piece = some v) : v.count '>' ≤ piece.count '>' := by
  obtain ⟨⟨head, value⟩, hdefault, rfl⟩ := Option.map_eq_some_iff.mp h
  have hrest := (unmodified_suffix piece).sublist.count_le '>'
  rw [eq_of_splitDefault hdefault, List.count_append, List.count_cons] at hrest
  have := count_trim_le piece
  have := count_trim_le value
  dsimp only
  omega

theorem read?_congr_of_default? (h : ∀ v ∈ default? piece, f v = g v) :
    read? f piece = read? g piece := by
  rw [read?_eq_parameter?, read?_eq_parameter?]
  cases hdefault : splitDefault 0 none (unmodified piece) with
  | none => rfl
  | some pair =>
    have hvalue : default? piece = some (Text.trim pair.2) := by rw [default?, hdefault]; rfl
    dsimp only
    rw [h _ hvalue]

def defaults (raw : Text) : List Text := (split raw).filterMap default?

theorem count_le_of_mem_defaults (h : v ∈ defaults raw) : v.count '>' ≤ raw.count '>' := by
  obtain ⟨piece, hpiece, hdefault⟩ := List.mem_filterMap.mp h
  exact (count_default?_le hdefault).trans
    ((count_le_angles hpiece).trans (angles_splitFrom_le 0 none none raw))

theorem textsWith_congr_of_defaults (h : ∀ v ∈ defaults raw, f v = g v) :
    textsWith f raw = textsWith g raw := by
  have hread : ∀ piece ∈ split raw, read? f piece = read? g piece := fun piece hpiece =>
    read?_congr_of_default? fun v hv => h v (List.mem_filterMap.mpr ⟨piece, hpiece, hv⟩)
  rw [textsWith, textsWith, readAll, readAll, List.filterMap_congr hread]

end Parameter

namespace Arrow

variable {params : Text → List Text} {t u v : Text} {rs : List Rewrite}

/-- The default values among the parameters of the header that is replaced next. -/
def calls (t : Text) : List Text :=
  match (headers t).find? (isReplaceable t) with
  | some header => Parameter.defaults header.params
  | none => []

theorem count_lt_of_mem_calls (h : v ∈ calls t) : v.count '>' < t.count '>' := by
  rw [calls] at h
  cases hfind : (headers t).find? (isReplaceable t) with
  | none => simp [hfind] at h
  | some header =>
    rw [hfind] at h
    obtain ⟨w, hsplit, hheader⟩ := isHeader_of_mem_headers (List.mem_of_find?_eq_some hfind)
    have hparams := Parameter.count_le_of_mem_defaults h
    have := hheader.count_lt
    have := congrArg (List.count '>') hsplit
    rw [List.count_append, List.count_append] at this
    omega

theorem next?_congr_of_calls {f g : Text → Text} (h : ∀ v ∈ calls t, f v = g v) :
    next? (Parameter.textsWith f) t = next? (Parameter.textsWith g) t := by
  rw [calls] at h
  rw [next?, next?]
  cases hfind : (headers t).find? (isReplaceable t) with
  | none => rw [Option.map_none, Option.map_none]
  | some header =>
    rw [hfind] at h
    rw [Option.map_some, Option.map_some, Parameter.textsWith_congr_of_defaults h]

theorem Rewrites.length_le (hparams : ∀ p, angles (params p) ≤ p.count '>')
    (h : Rewrites params t rs u) : u.count '>' + rs.length ≤ t.count '>' := by
  induction h with
  | nil => exact Nat.le_refl _
  | cons hnext _ ih =>
    have := count_result_lt hparams hnext
    rw [List.length_cons]
    omega

end Arrow

namespace Procedure

open Substitution (applyAll)

/-- Rewriting a body ends at a text without an arrow to rewrite. The number of `>` is what falls:
no substitution adds one, every rewrite takes one away, and the default values that a rewrite calls
for have fewer of them than the text it is made in. -/
theorem rewriteBody_settles (raw : Text) :
    (∀ s ∈ Substitution.all, ∀ t, (s.apply t).count '>' ≤ t.count '>') ∧
    (∀ t r, Arrow.next? parameterTexts t = some r → r.result.count '>' < t.count '>') ∧
    (∀ t, ∀ v ∈ Arrow.calls t, v.count '>' < t.count '>') ∧
    (∀ t f, (∀ v ∈ Arrow.calls t, f v = rewriteBody v) →
      Arrow.next? (Parameter.textsWith f) t = Arrow.next? parameterTexts t) ∧
    (applyAll (normalizeIndentation raw)).count '>' ≤ raw.count '>' ∧
    Arrow.next? parameterTexts (rewriteBody raw) = none ∧
    ∃ rs, Arrow.Rewrites parameterTexts (applyAll (normalizeIndentation raw)) rs
        (rewriteBody raw) ∧
      rs.length ≤ (applyAll (normalizeIndentation raw)).count '>' := by
  refine ⟨fun s hs t => Substitution.count_apply_le hs t,
    fun t r hnext => Arrow.count_result_lt angles_parameterTexts_le hnext,
    fun t v hv => Arrow.count_lt_of_mem_calls hv,
    fun t f hf => Arrow.next?_congr_of_calls hf,
    count_applyAll_normalizeIndentation_le raw, ?_, ?_⟩
  · rw [rewriteBody_eq_rewriteUpTo]
    exact Arrow.next?_rewriteUpTo angles_parameterTexts_le (Nat.le_refl _)
  · rw [rewriteBody_eq_rewriteUpTo]
    obtain ⟨rs, hrs⟩ := Arrow.exists_rewrites_rewriteUpTo parameterTexts
      ((applyAll (normalizeIndentation raw)).count '>') (applyAll (normalizeIndentation raw))
    have := hrs.length_le angles_parameterTexts_le
    exact ⟨rs, hrs, by omega⟩

end Procedure

end CanvasPage
