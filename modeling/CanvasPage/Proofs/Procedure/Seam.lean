import CanvasPage.Proofs.Page.Indented
import CanvasPage.Proofs.Pattern.Frame
import CanvasPage.Proofs.Procedure.Assertion
import CanvasPage.Proofs.Script.Leaving

namespace CanvasPage

namespace Script

variable {s : State} {r : Role} {c a : Char} {g t u x y : Text} {gs hs : List Segment}
  {rcs : List (Role × Char)}

theorem State.role_congr (h : c ≠ '/') (next next' : Option Char) :
    s.role c next = s.role c next' := by
  obtain ⟨mode, nesting⟩ := s
  cases nesting with
  | cons n ns => rfl
  | nil => cases mode <;> simp [State.role, h]

theorem roles_append (h : ∀ c ∈ x.getLast?, c ≠ '/') (s : State) (y : Text) :
    roles s (x ++ y) = roles s x ++ roles (s.run x) y := by
  induction x generalizing s with
  | nil => rfl
  | cons c x ih =>
    have hrole : s.role c (x ++ y).head? = s.role c x.head? := by
      cases x with
      | nil => exact State.role_congr (h c rfl) _ _
      | cons d x => rfl
    have hrest : ∀ c ∈ x.getLast?, c ≠ '/' := by
      cases x with
      | nil => simp
      | cons d x => simpa [List.getLast?_cons_cons] using h
    rw [List.cons_append, roles, roles, State.run_cons, ih hrest, hrole, List.cons_append]

theorem State.isCode_of_step (hq : ∀ q ∈ s.mode.quote?, isQuote q = true)
    (hc : isQuiet c = true) (hne : c ≠ '\n') (h : (s.step c).isCode = true) : s.isCode = true := by
  by_contra hs
  have hstart := State.step_eq_start_of_isCode (by simpa using hs) h
  simp only [isQuiet, Bool.not_eq_true', Bool.or_eq_false_iff] at hc
  obtain ⟨mode, nesting⟩ := s
  cases nesting with
  | cons n ns =>
    cases mode <;> cases n <;> grind [State.step, stepCode, stepTemplate, State.start]
  | nil =>
    cases mode <;>
      grind [State.step, stepCode, stepTemplate, State.start, State.isCode, Mode.quote?]

theorem role_of_isCode_run (hc : isQuiet a = true) (hne : a ≠ '\n')
    (h : (State.start.run (x ++ [a])).isCode = true) (next : Option Char) :
    (State.start.run x).role a next = .code ∧ State.start.run (x ++ [a]) = .start := by
  rw [State.run_append, State.run_cons, State.run_nil] at h ⊢
  have hquotes : ∀ q ∈ (State.start.run x).mode.quote?, isQuote q = true :=
    Page.isQuote_run (by simp [State.start, Mode.quote?]) x
  have hcode := State.isCode_of_step hquotes hc hne h
  exact ⟨Substitution.role_of_isQuiet hcode hc next, (step_of_isQuiet hcode hc).1⟩

section Chunk

def asCode (t : Text) : List (Role × Char) := t.map fun c => (.code, c)

theorem zip_replicate_code (t : Text) : (List.replicate t.length Role.code).zip t = asCode t := by
  induction t with
  | nil => rfl
  | cons c t ih =>
    rw [List.length_cons, List.replicate_succ, List.zip_cons_cons, ih]
    rfl

theorem chunk_append (h : ∀ rc ∈ rcs.getLast?, rc.1 ≠ .code) (c : Char)
    (rest : List (Role × Char)) :
    chunk (rcs ++ (.code, c) :: rest) = chunk rcs ++ chunk ((.code, c) :: rest) := by
  induction rcs with
  | nil => rfl
  | cons rc rcs ih =>
    obtain ⟨r, d⟩ := rc
    cases rcs with
    | nil =>
      have hjoins : r.joins .code = false := by
        cases r with
        | code => exact absurd rfl (h (.code, d) rfl)
        | opens | inside => rfl
      exact chunk_cons_of_not_joins (by simpa using hjoins)
    | cons rc rcs =>
      obtain ⟨r', d'⟩ := rc
      have ih := ih (by simpa [List.getLast?_cons_cons] using h)
      obtain ⟨v, hs, hfirst⟩ := exists_chunk_cons r' d' rcs
      rw [List.cons_append] at ih
      rw [List.cons_append, List.cons_append, chunk, ih, chunk, hfirst, List.cons_append]
      cases r.joins r' with
      | true => rfl
      | false => rfl

theorem chunk_asCode (hne : t ≠ []) : chunk (asCode t) = [.code t] := by
  induction t with
  | nil => exact absurd rfl hne
  | cons c t ih =>
    cases t with
    | nil => rfl
    | cons d t =>
      have ih := ih (List.cons_ne_nil d t)
      rw [asCode, List.map_cons] at ih
      rw [asCode, List.map_cons, List.map_cons, chunk, ih]
      rfl

theorem chunk_asCode_append (h : chunk rcs = .code u :: hs) :
    chunk (asCode t ++ rcs) = .code (t ++ u) :: hs := by
  induction t with
  | nil => exact h
  | cons c t ih =>
    obtain ⟨⟨r, d⟩, rest, hrest⟩ : ∃ rc rest, asCode t ++ rcs = rc :: rest := by
      cases hcons : asCode t ++ rcs with
      | nil => rw [hcons] at ih; cases ih
      | cons rc rest => exact ⟨rc, rest, rfl⟩
    obtain ⟨v, hs', hfirst⟩ := exists_chunk_cons r d rest
    rw [hrest] at ih
    obtain ⟨hr, -⟩ := List.cons.inj (hfirst.symm.trans ih)
    obtain ⟨rfl, rfl⟩ := Segment.ofRole_eq_code hr
    rw [asCode, List.map_cons, List.cons_append, ← asCode, hrest, chunk, ih]
    rfl

end Chunk

theorem emitted_of_roles (h : ∀ r ∈ roles s t, r = .code) : emitted s t = [] := by
  induction t generalizing s with
  | nil => rfl
  | cons c t ih =>
    obtain ⟨hc, ht⟩ := List.forall_mem_cons.mp h
    rw [emitted, emit_eq_nil_of_role hc, ih ht, List.append_nil]

theorem segments_of_emitted (hne : t ≠ []) (h : emitted .start t = []) :
    segments t = [.code t] := by
  rw [emitted_eq_filter, List.append_eq_nil_iff, List.filter_eq_nil_iff] at h
  have hcode : ∀ r ∈ roles .start t, r = .code := by
    intro r hr
    rw [← List.map_fst_zip (Nat.le_of_eq (length_roles .start t))] at hr
    obtain ⟨rc, hrc, rfl⟩ := List.mem_map.mp hr
    simpa using h.2 rc hrc
  have hzip : (roles .start t).zip t = asCode t := by
    rw [List.eq_replicate_iff.mpr ⟨length_roles .start t, hcode⟩, zip_replicate_code]
  rw [segments, hzip, chunk_asCode hne]

/-- The text `x` ends in the code `t`, which a literal stands before if anything does. -/
structure EndsInCode (x t : Text) : Prop where
  ne_nil : t ≠ []
  split : ∃ g rs, x = g ++ t ∧ rs.length = g.length ∧ (∀ r ∈ rs.getLast?, r ≠ .code) ∧
    roles .start x = rs ++ List.replicate t.length .code

theorem exists_replicate_of_getLast? {rs : List Role} (h : rs.getLast? = some .code) :
    ∃ rs' n, n ≠ 0 ∧ rs = rs' ++ List.replicate n .code ∧ ∀ r ∈ rs'.getLast?, r ≠ .code := by
  induction rs using List.reverseRecOn with
  | nil => cases h
  | append_singleton rs r ih =>
    obtain rfl : r = .code := by simpa using h
    cases hlast : rs.getLast? with
    | none => exact ⟨[], 1, by simp, by rw [List.getLast?_eq_none_iff.mp hlast]; rfl, by simp⟩
    | some r =>
      cases r with
      | opens | inside => exact ⟨rs, 1, by simp, rfl, by simp [hlast]⟩
      | code =>
        obtain ⟨rs', n, -, rfl, hrs'⟩ := ih hlast
        refine ⟨rs', n + 1, Nat.succ_ne_zero n, ?_, hrs'⟩
        rw [List.replicate_succ', List.append_assoc]

theorem exists_endsInCode (hrole : (State.start.run x).role a none = .code) :
    ∃ t, EndsInCode (x ++ [a]) t := by
  obtain ⟨rs, hlength, hroles⟩ := exists_roles_append .start x a []
  rw [List.head?_nil, hrole] at hroles
  have hlast : (roles .start (x ++ [a])).getLast? = some .code := by
    rw [hroles, roles, List.getLast?_concat]
  obtain ⟨rs', n, hn, hsplit, hrs'⟩ := exists_replicate_of_getLast? hlast
  have hsum : (x ++ [a]).length = rs'.length + n := by
    rw [← length_roles .start (x ++ [a]), hsplit, List.length_append, List.length_replicate]
  have hdrop : ((x ++ [a]).drop rs'.length).length = n := by
    rw [List.length_drop]
    omega
  refine ⟨(x ++ [a]).drop rs'.length, ?_, (x ++ [a]).take rs'.length, rs',
    (List.take_append_drop _ _).symm, ?_, hrs', by rw [hdrop, hsplit]⟩
  · intro hnil
    rw [hnil] at hdrop
    exact hn hdrop.symm
  · rw [List.length_take]
    omega

namespace EndsInCode

variable (hx : EndsInCode x t)

include hx

theorem exists_zip : ∃ rcs, (roles .start x).zip x = rcs ++ asCode t ∧
    ∀ rc ∈ rcs.getLast?, rc.1 ≠ .code := by
  obtain ⟨g, rs, rfl, hlength, hlast, hroles⟩ := hx.split
  refine ⟨rs.zip g, by rw [hroles, List.zip_append hlength, zip_replicate_code], fun rc hrc => ?_⟩
  rcases List.eq_nil_or_concat rs with rfl | ⟨rs, r, rfl⟩
  · simp at hrc
  · rcases List.eq_nil_or_concat g with rfl | ⟨g, c, rfl⟩
    · simp at hlength
    · rw [List.concat_eq_append, List.concat_eq_append, List.zip_append (by simpa using hlength)]
        at hrc
      obtain rfl : (r, c) = rc := by simpa using hrc
      exact hlast r (by simp)

theorem exists_segments : ∃ gs, segments x = gs ++ [.code t] ∧
    ∀ y u hs, x.getLast? ≠ some '/' → State.start.run x = .start →
      segments y = .code u :: hs → segments (x ++ y) = gs ++ .code (t ++ u) :: hs := by
  obtain ⟨rcs, hzip, hlast⟩ := hx.exists_zip
  obtain ⟨c, v, rfl⟩ := List.exists_cons_of_ne_nil hx.ne_nil
  have hcons : asCode (c :: v) = (.code, c) :: asCode v := rfl
  refine ⟨chunk rcs, ?_, fun y u hs hslash hrun hy => ?_⟩
  · rw [segments, hzip, hcons, chunk_append hlast, ← hcons, chunk_asCode (List.cons_ne_nil c v)]
  · have hroles := roles_append (x := x) (fun d hd h => hslash (h ▸ hd)) .start y
    rw [segments] at hy
    rw [segments, hroles, List.zip_append (length_roles .start x), hzip, hrun, List.append_assoc,
      hcons, List.cons_append, chunk_append hlast, ← List.cons_append, ← hcons,
      chunk_asCode_append hy]

theorem exists_emitted : ∃ g, x = g ++ t ∧ emitted (State.start.run g) t = [] ∧
    (t.head? ≠ some '\n' → ∀ c ∈ g.getLast?, Text.isWordChar c = false) := by
  obtain ⟨g, rs, rfl, hlength, hlast, hroles⟩ := hx.split
  obtain ⟨d, v, rfl⟩ := List.exists_cons_of_ne_nil hx.ne_nil
  obtain ⟨rs', hlength', hroles'⟩ := exists_roles_append .start g d v
  obtain ⟨rfl, htail⟩ := List.append_inj (hroles.symm.trans hroles') (hlength.trans hlength'.symm)
  have hcode : ∀ r ∈ roles (State.start.run g) (d :: v), r = .code := by
    rw [roles, ← htail]
    exact fun r hr => List.eq_of_mem_replicate hr
  refine ⟨g, rfl, emitted_of_roles hcode, fun hd c hc => ?_⟩
  by_contra hword
  obtain ⟨g, rfl⟩ := List.getLast?_eq_some_iff.mp hc
  obtain ⟨hquiet, -⟩ := Substitution.isQuiet_of_isPathChar
    (c := c) (by rw [Substitution.isPathChar, eq_true_of_ne_false hword]; rfl)
  have hbreak : c ≠ '\n' := by
    rintro rfl
    exact hword (by decide)
  have hrun : (State.start.run (g ++ [c])).isCode = true :=
    isCode_of_emit (emit_eq_nil_of_role (hcode _ List.mem_cons_self)) fun h => hd (by rw [h]; rfl)
  obtain ⟨rs', hlength', hsplit⟩ := exists_roles_append .start g c (d :: v)
  rw [(role_of_isCode_run hquiet hbreak hrun _).1] at hsplit
  rw [List.append_assoc] at hroles'
  have hlong := hroles'.symm.trans hsplit
  have hassoc : rs' ++ Role.code :: roles ((State.start.run g).step c) (d :: v) =
      (rs' ++ [.code]) ++ roles ((State.start.run g).step c) (d :: v) := by simp
  rw [hassoc] at hlong
  obtain ⟨rfl, -⟩ := List.append_inj hlong (by simp [hlength, hlength'])
  exact hlast .code (by simp) rfl

end EndsInCode

end Script

namespace Substitution

open Pattern Script

variable {s : Substitution} {t u x y : Text} {gs hs : List Segment}

theorem mem_all_of_mem_beforeCast (hs : s ∈ beforeCast) : s ∈ all := by
  have hall : all = beforeCast ++ [cast, nonNullAssertion] := rfl
  rw [hall]
  exact List.mem_append_left _ hs

theorem apply_of_emitted (hne : t ≠ []) (h : emitted .start t = []) (s : Substitution) :
    s.apply t = s.pattern.replaceAll s.replacement t := by
  rw [apply, segments_of_emitted hne h, List.flatMap_singleton]

theorem emitted_apply (hs : s ∈ beforeCast) (h : emitted .start t = []) :
    emitted .start (s.apply t) = [] := by
  rw [((edits_apply s t).swaps (exchanges_of_mem_beforeCast hs)).reads_alike.2, h]

theorem exists_apply_append (hx : EndsInCode x t) (hslash : x.getLast? ≠ some '/')
    (hrun : State.start.run x = .start) (s : Substitution) : ∃ v,
      s.apply x = v ++ s.pattern.replaceAll s.replacement t ∧
      ∀ y u hs, segments y = .code u :: hs → s.apply (x ++ y) =
        v ++ (s.pattern.replaceAll s.replacement (t ++ u) ++ hs.flatMap s.onSegment) := by
  obtain ⟨gs, hsegments, hmore⟩ := hx.exists_segments
  refine ⟨gs.flatMap s.onSegment, ?_, fun y u hs hy => ?_⟩
  · rw [apply_eq_flatMap, hsegments, List.flatMap_append, List.flatMap_singleton]
    rfl
  · rw [apply_eq_flatMap, hmore y u hs hslash hrun hy, List.flatMap_append, List.flatMap_cons]
    rfl

theorem apply_append (hx : EndsInCode x t) (hslash : x.getLast? ≠ some '/')
    (hrun : State.start.run x = .start) (hy : segments y = .code u :: hs)
    (h : s.pattern.replaceAll s.replacement (t ++ u) =
      s.pattern.replaceAll s.replacement t ++ s.pattern.replaceAll s.replacement u) :
    s.apply (x ++ y) = s.apply x ++ s.apply y := by
  obtain ⟨v, halone, hfollowed⟩ := exists_apply_append hx hslash hrun s
  rw [hfollowed y u hs hy, halone, h, apply_eq_flatMap s y, hy, List.flatMap_cons]
  simp only [onSegment, List.append_assoc]

theorem isOpenEnded_of_mem_all {s : Substitution} (hs : s ∈ all) :
    s.pattern.isOpenEnded = true ∧ IsTextual s.replacement := by
  simp only [all, List.mem_cons, List.not_mem_nil, or_false] at hs
  rcases hs with rfl | rfl | rfl | rfl | rfl | rfl | rfl
  · exact ⟨rfl, fun o o' h => by simp only [typedDeclaration, h]⟩
  · exact ⟨rfl, fun o o' h => by simp only [typedDeclarationWithoutValue, h]⟩
  · exact ⟨rfl, fun o o' h => by simp only [blockScopedDeclaration, h]⟩
  · exact ⟨rfl, fun o o' h => by simp only [arraySpreadCopy, h]⟩
  · exact ⟨rfl, fun o o' h => by simp only [genericConstructorCall, h]⟩
  · exact ⟨rfl, fun o o' _ => rfl⟩
  · exact ⟨rfl, fun o o' h => by simp only [nonNullAssertion, h]⟩

end Substitution

end CanvasPage
