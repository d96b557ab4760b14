import CanvasPage.Proofs.Procedure.Literals
import CanvasPage.Proofs.Procedure.Relaid
import CanvasPage.Proofs.Procedure.WholeHeader

namespace CanvasPage

open Script Substitution

variable {ℓ raw t u : Text} {c : Char}

namespace Script

theorem isBlank_of_isBacktick (hc : isBacktick c = true) : Text.isBlank c = false := by
  by_contra hblank
  rw [(isMute_of_isBlank (by simpa using hblank)).backtick] at hc
  cases hc

theorem IsTemplate.exists_ends (h : IsTemplate ℓ) : ∃ c v d, ℓ = c :: (v ++ [d]) ∧
    isBacktick c = true ∧ isBacktick d = true ∧ staysInTemplate .template (v ++ [d]) = true ∧
    State.template.run (v ++ [d]) = .start := by
  obtain ⟨c, v, rfl, hc, hstays, hrun⟩ := h
  rcases List.eq_nil_or_concat v with rfl | ⟨v, d, rfl⟩
  · cases hrun
  · rw [List.concat_eq_append] at hstays hrun ⊢
    refine ⟨c, v, d, rfl, hc, ?_, hstays, hrun⟩
    rw [staysInTemplate_append, staysInTemplate, Bool.and_eq_true, Bool.and_eq_true] at hstays
    rw [State.run_append] at hrun
    exact isBacktick_of_step hstays.2.1 hrun

theorem IsTemplate.trimEnd_eq (h : IsTemplate ℓ) : Text.trimEnd ℓ = ℓ := by
  obtain ⟨c, v, d, rfl, -, hd, -⟩ := h.exists_ends
  have hblank := isBlank_of_isBacktick hd
  rw [← List.cons_append, Text.trimEnd_append_cons hblank]
  rfl

end Script

namespace Procedure

theorem dedentBehind_isTemplate (hℓ : IsTemplate ℓ) {x y : Text} (hx : (State.start.run x).isCode = true)
    (hescapes : escapesLineEnd .start (x ++ (ℓ ++ y)) = false) (k : Nat) :
    IsTemplate (dedentBehind k ℓ) ∧ ∃ w, State.start.run w = State.start.run x ∧
      dedentBehind k (x ++ (ℓ ++ y)) = w ++ (dedentBehind k ℓ ++ dedentBehind k y) := by
  obtain ⟨c, v, d, rfl, hc, hd, hstays, hrun⟩ := hℓ.exists_ends
  have hcblank := isBlank_of_isBacktick hc
  have hdblank := isBlank_of_isBacktick hd
  have htext : x ++ (c :: (v ++ [d]) ++ y) = x ++ c :: (v ++ d :: y) := by simp
  rw [htext] at hescapes ⊢
  have hinside : escapesLineEnd .template (v ++ d :: y) = false := by
    have hsplit : x ++ c :: (v ++ d :: y) = (x ++ [c]) ++ (v ++ d :: y) := by simp
    rw [hsplit] at hescapes
    have hrest := escapesLineEnd_append hescapes
    rwa [State.run_append, State.run_cons, (step_of_isBacktick hx hc).2] at hrest
  obtain ⟨w, hw, hwrun, -⟩ := exists_dedentBehind_concat hcblank (by simp [State.start, Mode.quote?])
    hescapes k
  obtain ⟨m, hm, hmrun, hmstays⟩ := exists_dedentBehind_concat hdblank
    (by simp [State.template, Mode.quote?]) hinside k
  rw [staysInTemplate_append, Bool.and_eq_true] at hstays
  have hdedent : dedentBehind k (c :: (v ++ [d])) = c :: (m ++ [d]) := by
    rw [dedentBehind_cons hcblank, hm]
  refine ⟨⟨c, m ++ [d], hdedent, hc, ?_, ?_⟩, w, hwrun, ?_⟩
  · rw [staysInTemplate_append, hmstays hstays.1, hmrun, hstays.2]
    rfl
  · rw [State.run_append, hmrun, ← State.run_append, hrun]
  · rw [dedentBehind_append_cons hcblank, hw, dedentBehind_append_cons hdblank, hm, hdedent]
    simp

theorem standsInCode_normalizeIndentation (hℓ : IsTemplate ℓ) (h : StandsInCode ℓ raw)
    (hescapes : escapesLineEnd .start raw = false) :
    IsTemplate (dedentBehind (laterIndent raw) ℓ) ∧
      StandsInCode (dedentBehind (laterIndent raw) ℓ) (normalizeIndentation raw) := by
  obtain ⟨x, y, hraw, hx⟩ := h
  obtain ⟨ws, bs, hnormal, hws, hbs⟩ := exists_normalizeIndentation raw
  generalize laterIndent raw = k at hnormal ⊢
  generalize normalizeIndentation raw = n at hnormal ⊢
  subst hraw
  obtain ⟨htemplate, w, hwrun, hdedent⟩ := dedentBehind_isTemplate hℓ hx hescapes k
  refine ⟨htemplate, ?_⟩
  obtain ⟨c, v, d, hends, hc, hd, -⟩ := htemplate.exists_ends
  rw [hends] at hdedent ⊢
  rw [hdedent] at hnormal
  have hnoBlank : ∀ {e : Char} {ws : Text}, isBacktick e = true → Text.allBlank ws = true →
      e ∉ ws := by
    intro e ws he hws hmem
    have hblank := List.all_eq_true.mp hws e hmem
    rw [isBlank_of_isBacktick he] at hblank
    cases hblank
  obtain ⟨w, rfl, hback⟩ := Arrow.exists_append_of_not_mem (q := v ++ d :: dedentBehind k y)
    (hnoBlank hc hws) (by simpa using hnormal)
  rw [run_start_of_allBlank hws] at hwrun
  have hfront : (w ++ c :: v) ++ d :: dedentBehind k y = n ++ bs := by
    rw [hback]
    simp
  rcases List.append_eq_append_iff.mp hfront with ⟨z, rfl, hz⟩ | ⟨z, -, rfl⟩
  · cases z with
    | nil => exact absurd (by rw [← List.nil_append bs, ← hz]; simp) (hnoBlank hd hbs)
    | cons e z =>
      obtain ⟨rfl, -⟩ := List.cons.inj hz
      exact ⟨w, z, by simp, by rw [hwrun]; exact hx⟩
  · exact absurd (by simp) (hnoBlank hd hbs)

end Procedure

namespace Arrow

open ArrowFunction (LeavesCode)

variable {params : Text → List Text} {r : Rewrite} {rs : List Rewrite}

def Rewrite.header (r : Rewrite) : Text := r.stop.before.reverse.drop r.start.before.length

/-- A rewrite that leaves code behind it, of a header without the characters that are spared. -/
structure Spares (spared : Char → Bool) (r : Rewrite) : Prop where
  leavesCode : LeavesCode r
  header : ∀ c ∈ r.header, spared c = false

instance (spared : Char → Bool) : Decidable (Spares spared r) :=
  decidable_of_iff ((State.start.run (r.start.before.reverse ++ r.replacement)).isCode = true ∧
      ∀ c ∈ r.header, spared c = false)
    ⟨fun h => ⟨h.1, h.2⟩, fun h => ⟨h.leavesCode, h.header⟩⟩

theorem exists_header_of_next? (hnext : next? params t = some r) : ∃ p,
    t = r.start.before.reverse ++ (r.header ++ r.stop.after) ∧
      r.stop.before.reverse = r.start.before.reverse ++ r.header ∧ IsHeader p r.header ∧
      r.replacement = "function(" ++ Text.join ", " (params p) ++ ") \x7b" ∧
      inLiteral t r.start.before.length = false := by
  obtain ⟨p, w, hsplit, hheader, hreplacement, hliteral⟩ := exists_of_next?_eq_some hnext
  have hstop := stop_of_append_eq (cases_of_next? hnext).2.1 hsplit
  have hw : r.header = w := by rw [Rewrite.header, hstop, ← List.length_reverse, List.drop_left]
  exact ⟨p, hw ▸ hsplit, hw ▸ hstop, hw ▸ hheader, hreplacement, hliteral⟩

theorem before_or_behind {b w a : Text} (hℓ : IsTemplate ℓ) (h : StandsInCode ℓ (b ++ (w ++ a)))
    (hcode : (State.start.run b).isCode = true) (hne : w ≠ [])
    (hbare : ∀ c ∈ w, isBacktick c = false) :
    (∃ x y, b = x ++ (ℓ ++ y) ∧ (State.start.run x).isCode = true) ∨
      ∃ x y, a = x ++ (ℓ ++ y) ∧ (State.start.run (b ++ (w ++ x))).isCode = true := by
  obtain ⟨c, v, rfl, hc, hstays, -⟩ := hℓ
  obtain ⟨x, y, ht, hx⟩ := h
  have hmem : c ∉ w := fun hmem => by
    rw [hbare c hmem] at hc
    cases hc
  rcases List.append_eq_append_iff.mp ht with ⟨k, rfl, hk⟩ | ⟨k, rfl, hk⟩
  · obtain ⟨k, rfl, rfl⟩ := exists_append_of_not_mem (q := v ++ y) hmem hk.symm
    exact .inr ⟨k, y, by simp, hx⟩
  · rcases List.append_eq_append_iff.mp hk with ⟨z, rfl, hz⟩ | ⟨z, hz, hrest⟩
    · exact .inl ⟨x, z, rfl, hx⟩
    -- the stretch would begin at the backtick or inside the template
    cases k with
    | nil =>
      obtain ⟨d, u, rfl⟩ := List.exists_cons_of_ne_nil hne
      rw [List.nil_append] at hk
      exact absurd (by rw [(List.cons.inj hk).1]; simp) hmem
    | cons e k =>
      obtain ⟨rfl, hv⟩ := List.cons.inj hz
      replace hv : v = k ++ z := hv
      subst hv
      cases z with
      | nil => exact .inl ⟨x, [], by simp, hx⟩
      | cons f z =>
        rw [staysInTemplate_append, staysInTemplate, Bool.and_eq_true, Bool.and_eq_true] at hstays
        rw [State.run_append, State.run_cons, (step_of_isBacktick hx hc).2,
          not_isCode_of_inTemplate hstays.2.1] at hcode
        cases hcode

theorem standsInCode_of_next? (hℓ : IsTemplate ℓ) (h : StandsInCode ℓ t)
    (hnext : next? params t = some r) (hspares : Spares isBacktick r) :
    StandsInCode ℓ r.result := by
  obtain ⟨p, hsplit, hstop, hheader, -, hliteral⟩ := exists_header_of_next? hnext
  have hafter := run_stop_of_next? hnext
  have hreplaced := ArrowFunction.run_replacement_of_next? hnext hspares.leavesCode
  obtain ⟨d, w, hw, -, hd⟩ := hheader.exists_cons
  have hcode : (State.start.run r.start.before.reverse).isCode = true := by
    have hfeed : d ≠ '\n' := by
      rintro rfl
      revert hd
      decide
    rw [hsplit, hw, ← List.length_reverse] at hliteral
    exact isCode_of_not_inLiteral hfeed hliteral
  have hne : r.header ≠ [] := hw ▸ List.cons_ne_nil d w
  rw [hsplit] at h
  rw [hstop] at hafter
  rw [Rewrite.result]
  rcases before_or_behind hℓ h hcode hne hspares.header with ⟨x, y, hb, hx⟩ | ⟨x, y, ha, hx⟩
  · exact ⟨x, y ++ (r.replacement ++ r.stop.after), by rw [hb]; simp, hx⟩
  · refine ⟨r.start.before.reverse ++ r.replacement ++ x, y, by rw [ha]; simp, ?_⟩
    rw [← List.append_assoc, State.run_append, hafter] at hx
    rw [State.run_append, hreplaced]
    exact hx

theorem Rewrites.standsInCode (hℓ : IsTemplate ℓ) (h : StandsInCode ℓ t)
    (hrun : Rewrites params t rs u) (hspares : ∀ r ∈ rs, Spares isBacktick r) : StandsInCode ℓ u := by
  induction hrun with
  | nil => exact h
  | cons hnext _ ih =>
    obtain ⟨hhere, hlater⟩ := List.forall_mem_cons.mp hspares
    exact ih (standsInCode_of_next? hℓ h hnext hhere) hlater

end Arrow

namespace Procedure

/-- What a body has to be free of for its literals to come through the rewriting whole: a backslash
before the blanks at the end of a line, a cast next to another word, and arrow functions with a
comment behind their header or a spared character in it. -/
structure Spares (spared : Char → Bool) (raw : Text) : Prop where
  lineEnds : escapesLineEnd .start raw = false
  casts : CastsApart (normalizeIndentation raw)
  arrows : ∃ rs, Arrow.Rewrites parameterTexts (applyAll (normalizeIndentation raw)) rs
      (rewriteBody raw) ∧ ∀ r ∈ rs, Arrow.Spares spared r

/-- What becomes of a template when its body is rewritten: its later lines are dedented. -/
theorem standsInCode_rewriteBody (hℓ : IsTemplate ℓ) (h : StandsInCode ℓ raw)
    (hspares : Spares isBacktick raw) :
    StandsInCode (dedentBehind (laterIndent raw) ℓ) (rewriteBody raw) := by
  obtain ⟨rs, hrun, hrs⟩ := hspares.arrows
  obtain ⟨htemplate, hnormal⟩ := standsInCode_normalizeIndentation hℓ h hspares.lineEnds
  have hsubstituted := StandsInCode.of_emitted_eq htemplate hnormal (emitted_applyAll hspares.casts)
  exact hrun.standsInCode htemplate hsubstituted hrs

end Procedure

end CanvasPage
