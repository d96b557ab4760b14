import CanvasPage.Proofs.Procedure.CallLine
import CanvasPage.Proofs.Procedure.WholeHeader
import Mathlib.Data.List.Find

namespace CanvasPage

open Script

namespace Pattern

variable {pattern : Pattern} {x r : Text}

theorem stopsBefore_nil (pattern : Pattern) (z : Text) : pattern.StopsBefore [] [] z :=
  fun _ _ hsplit hne => absurd (List.append_eq_nil_iff.mp hsplit.symm).2 hne

theorem occurrences_nextLine (hend : pattern.isOpenEnded = true)
    (hfree : pattern.isUnanchored = true) (hstops : pattern.StopsBefore [] x ('\n' :: r))
    (h : ∀ w after gs, '\n' :: r = w ++ after → w ≠ [] → ¬ pattern.Reads x.reverse w after gs) :
    pattern.occurrences (x ++ '\n' :: r) = (pattern.occurrences x).map (.frame [] ('\n' :: r)) ++
      (pattern.occurrences r).map (.frame ('\n' :: x.reverse) []) := by
  have hsplit := occurrencesFrom_append_of_stopsBefore hend rfl hstops (Nat.zero_le _)
  rw [occurrences, hsplit, List.append_nil, occurrencesFrom_of_lineBreak hend hfree h]
  rfl

end Pattern

namespace Script

variable {x r : Text}

theorem inLiteral_behind (hx : (State.start.run x).isCode = true) (r : Text) (i : Nat) :
    inLiteral (x ++ '\n' :: r) (x.length + (i + 1)) = inLiteral r i := by
  obtain ⟨rs, hlength, hroles⟩ := exists_roles_append .start x '\n' r
  have hstart : (State.start.run x).step '\n' = .start := by
    rcases State.eq_of_isCode hx with h | h <;> rw [h] <;> rfl
  rw [inLiteral, inLiteral, hroles, hstart, ← hlength, List.getElem?_append_right (by omega),
    Nat.add_sub_cancel_left, List.getElem?_cons_succ]

theorem inLiteral_inFront (hx : ∀ c ∈ x.getLast?, c ≠ '/') {i : Nat} (hi : i < x.length)
    (r : Text) : inLiteral (x ++ r) i = inLiteral x i := by
  rw [inLiteral, inLiteral, roles_append hx, List.getElem?_append_left (by rwa [length_roles])]

end Script

namespace Arrow

open Pattern
open Substitution (closesBlocks keepsCall)

variable {x r : Text} {h : Header}

def Header.frame (b z : Text) (h : Header) : Header :=
  ⟨h.start.frame b z, h.stop.frame b z, h.params⟩

def Rewrite.frame (b z : Text) (r : Rewrite) : Rewrite :=
  ⟨r.start.frame b z, r.stop.frame b z, r.replacement⟩

theorem Rewrite.result_frame (b z : Text) (r : Rewrite) :
    (r.frame b z).result = b.reverse ++ (r.result ++ z) := by
  simp [result, frame, Cursor.frame]

def listHeader (o : Occurrence) : Header := ⟨o.start, o.stop, o.groupText 1⟩

def listHeaders (t : Text) : List Header := (parenthesized.occurrences t).map listHeader

def bareHeader? (m : Option Capture × Cursor) : Option Header :=
  m.1.map fun name => ⟨name.start, m.2, name.text⟩

def bareHeaders (os : List Occurrence) : List Header :=
  (os.map fun o => (o.group? 2, o.stop)).filterMap bareHeader?

theorem headers_eq (t : Text) :
    headers t = listHeaders t ++ bareHeaders (singleParameter.occurrences t) := by
  rw [headers, bareHeaders, List.filterMap_map]
  rfl

theorem listHeaders_frame {os : List Occurrence} (b z : Text)
    (hos : ∀ o ∈ os, ∃ c, parenthesized.at? c = some o) :
    (os.map (.frame b z)).map listHeader = (os.map listHeader).map (.frame b z) := by
  rw [List.map_map, List.map_map]
  refine List.map_congr_left fun o ho => ?_
  obtain ⟨c, hat⟩ := hos o ho
  simp only [Function.comp_apply, listHeader, groupText_frame hat]
  rfl

theorem bareHeaders_append (os us : List Occurrence) :
    bareHeaders (os ++ us) = bareHeaders os ++ bareHeaders us := by
  rw [bareHeaders, List.map_append, List.filterMap_append]
  rfl

theorem bareHeaders_frame {os : List Occurrence} (b z : Text)
    (hos : ∀ o ∈ os, ∃ c, singleParameter.at? c = some o) :
    bareHeaders (os.map (.frame b z)) = (bareHeaders os).map (.frame b z) := by
  rw [bareHeaders, bareHeaders, List.map_map, List.filterMap_map, List.filterMap_map,
    List.map_filterMap]
  refine List.filterMap_congr fun o ho => ?_
  obtain ⟨c, hat⟩ := hos o ho
  have htext : (o.frame b z).groupText 2 = o.groupText 2 := groupText_frame hat 2
  simp only [Occurrence.groupText, group?_frame] at htext
  simp only [Function.comp_apply, bareHeader?, group?_frame]
  cases hname : o.group? 2 with
  | none => rfl
  | some name =>
    simp only [hname, Option.map_some, Option.getD_some] at htext ⊢
    rw [htext]
    rfl

theorem at?_of_mem_occurrences {pattern : Pattern} {t : Text} :
    ∀ o ∈ pattern.occurrences t, ∃ c, pattern.at? c = some o := by
  intro o ho
  obtain ⟨c, -, hat⟩ := exists_at?_of_mem_occurrencesFrom ho
  exact ⟨c, hat⟩

theorem beginsPast_bareParameter :
    (group 2 Candidate.identifier ++ (blanks ++ opening)).BeginsPast '\n' where
  openEnded := rfl
  unanchored := rfl
  head hread := by
    obtain ⟨name, tail, _, _, rfl, -, hname, -⟩ := reads_append.mp hread
    obtain ⟨_, -, hname⟩ := reads_group.mp hname
    have hidentifier := (Substitution.reads_identifier.mp hname).1
    obtain ⟨c, name, rfl⟩ := List.exists_cons_of_ne_nil (Text.ne_nil_of_isIdentifier hidentifier)
    refine ⟨c, name ++ tail, rfl, ?_⟩
    rintro rfl
    exact absurd (Text.continuesIdentifier_of_isIdentifier hidentifier '\n' (by simp)) (by decide)

theorem bareHeaders_lineBreak (b r : Text) :
    bareHeaders (singleParameter.occurrencesFrom 0 b ('\n' :: r)) =
      (bareHeaders (singleParameter.occurrences r)).map (.frame ('\n' :: b) []) := by
  have hfronted := occurrencesFrom_congr at?_singleParameter 0
  rw [← bareHeaders_frame _ _ at?_of_mem_occurrences, bareHeaders, bareHeaders, occurrences, hfronted,
    hfronted]
  exact congrArg (List.filterMap bareHeader?)
    (map_occurrencesFrom_fronted beginsPast_bareParameter rfl rfl (by decide) b r)

theorem not_reads_parenthesized_lineBreak {before w after : Text} {gs : GroupTexts}
    (hsplit : '\n' :: r = w ++ after) : ¬ parenthesized.Reads before w after gs := by
  intro hread
  obtain ⟨v, rfl, -⟩ := exists_of_reads_parenthesized hread
  exact absurd (List.cons.inj hsplit).1 (by decide)

theorem headers_nextLine (hlist : parenthesized.StopsBefore [] x ('\n' :: r))
    (hsingle : singleParameter.StopsBefore [] x ('\n' :: r)) :
    headers (x ++ '\n' :: r) =
      (listHeaders x).map (.frame [] ('\n' :: r)) ++
          (listHeaders r).map (.frame ('\n' :: x.reverse) []) ++
        ((bareHeaders (singleParameter.occurrences x)).map (.frame [] ('\n' :: r)) ++
          (bareHeaders (singleParameter.occurrences r)).map (.frame ('\n' :: x.reverse) [])) := by
  have hfirst : parenthesized.occurrences (x ++ '\n' :: r) =
      (parenthesized.occurrences x).map (.frame [] ('\n' :: r)) ++
        (parenthesized.occurrences r).map (.frame ('\n' :: x.reverse) []) :=
    occurrences_nextLine rfl rfl hlist
      fun w after gs hsplit _ => not_reads_parenthesized_lineBreak hsplit
  have hsecond : singleParameter.occurrences (x ++ '\n' :: r) =
      (singleParameter.occurrences x).map (.frame [] ('\n' :: r)) ++
        singleParameter.occurrencesFrom 0 x.reverse ('\n' :: r) := by
    have hend : singleParameter.isOpenEnded = true := rfl
    have hsplit := occurrencesFrom_append_of_stopsBefore hend rfl hsingle (Nat.zero_le _)
    rwa [List.append_nil] at hsplit
  rw [headers_eq, listHeaders, hfirst, hsecond, List.map_append,
    listHeaders_frame _ _ at?_of_mem_occurrences, listHeaders_frame _ _ at?_of_mem_occurrences,
    bareHeaders_append, bareHeaders_frame _ _ at?_of_mem_occurrences, bareHeaders_lineBreak]
  rfl

theorem isReplaceable_behind (hx : (State.start.run x).isCode = true) (hh : h ∈ headers r) :
    isReplaceable (x ++ '\n' :: r) (h.frame ('\n' :: x.reverse) []) = isReplaceable r h := by
  obtain ⟨w, -, hstop, -⟩ := exists_of_mem_headers_split hh
  have hpos : 0 < h.stop.before.length := by
    rw [← List.length_reverse, hstop, List.length_append, List.length_append, List.length_singleton]
    omega
  have hstart : (h.frame ('\n' :: x.reverse) []).start.before.length =
      x.length + (h.start.before.length + 1) := by
    simp only [Header.frame, Cursor.frame, List.length_append, List.length_cons,
      List.length_reverse]
    omega
  have hend : (h.frame ('\n' :: x.reverse) []).stop.before.length - 1 =
      x.length + (h.stop.before.length - 1 + 1) := by
    simp only [Header.frame, Cursor.frame, List.length_append, List.length_cons,
      List.length_reverse]
    omega
  have hafter : (h.frame ('\n' :: x.reverse) []).stop.after = h.stop.after := List.append_nil _
  rw [isReplaceable, isReplaceable, hstart, hend, hafter, inLiteral_behind hx, inLiteral_behind hx]

theorem isReplaceable_inFront (hx : ∀ c ∈ x.getLast?, c ≠ '/') (hcloses : closesBlocks x = true)
    (hh : h ∈ headers x) (r : Text) :
    isReplaceable (x ++ r) (h.frame [] r) = isReplaceable x h := by
  obtain ⟨w, hsplit, hstop, -⟩ := exists_of_mem_headers_split hh
  have hlength := congrArg List.length hsplit
  have hlengthStop := congrArg List.length hstop
  simp only [List.length_append, List.length_reverse, List.length_cons, List.length_nil]
    at hlength hlengthStop
  have hstart : (h.frame [] r).start.before = h.start.before := List.append_nil _
  have hend : (h.frame [] r).stop.before = h.stop.before := List.append_nil _
  have hafter : (h.frame [] r).stop.after = h.stop.after ++ r := rfl
  rw [isReplaceable, isReplaceable, hstart, hend, hafter, inLiteral_inFront hx (by omega),
    inLiteral_inFront hx (by omega)]
  have hclosed := List.all_eq_true.mp hcloses h hh
  simp only [Bool.or_eq_true] at hclosed
  rcases hclosed with (hliteral | hliteral) | hclosed
  · rw [hliteral]
    rfl
  · rw [hliteral, Bool.not_true, Bool.and_false, Bool.false_and, Bool.false_and]
  · obtain ⟨⟨block, after⟩, hblock⟩ := Option.isSome_iff_exists.mp hclosed
    rw [hblock, Bracket.enclosed?_append_right hblock r]

/-- A rewrite of a line and the text behind it is one of the line or one of the text. -/
inductive NextOf (params : Text → List Text) (x r : Text) : Option Rewrite → Prop where
  | none (hline : next? params x = none) (hrest : next? params r = none) : NextOf params x r none
  | inFront {q : Rewrite} (hline : next? params x = some q) :
      NextOf params x r (some (q.frame [] ('\n' :: r)))
  | behind {q : Rewrite} (hrest : next? params r = some q) :
      NextOf params x r (some (q.frame ('\n' :: x.reverse) []))

theorem find?_map_frame {t u b z : Text} {hs : List Header}
    (h : ∀ h ∈ hs, isReplaceable u (h.frame b z) = isReplaceable t h) :
    (hs.map (.frame b z)).find? (isReplaceable u) =
      (hs.find? (isReplaceable t)).map (.frame b z) := by
  rw [List.find?_map]
  exact congrArg _ (List.find?_congr h)

theorem next?_eq (params : Text → List Text) (t : Text) :
    next? params t = (((listHeaders t).find? (isReplaceable t)).or
      ((bareHeaders (singleParameter.occurrences t)).find? (isReplaceable t))).map fun h =>
        ⟨h.start, h.stop, "function(" ++ Text.join ", " (params h.params) ++ ") \x7b"⟩ := by
  rw [next?, headers_eq, List.find?_append]

theorem nextOf_of_headers (hcode : (State.start.run x).isCode = true)
    (hlist : parenthesized.StopsBefore [] x ('\n' :: r))
    (hsingle : singleParameter.StopsBefore [] x ('\n' :: r))
    (hline : ∀ h ∈ headers x,
      isReplaceable (x ++ '\n' :: r) (h.frame [] ('\n' :: r)) = isReplaceable x h)
    (params : Text → List Text) : NextOf params x r (next? params (x ++ '\n' :: r)) := by
  have hbehind : ∀ h ∈ headers r, isReplaceable (x ++ '\n' :: r)
      (h.frame ('\n' :: x.reverse) []) = isReplaceable r h :=
    fun h hh => isReplaceable_behind hcode hh
  simp only [headers_eq, List.forall_mem_append] at hline hbehind
  rw [next?, headers_nextLine hlist hsingle, List.find?_append, List.find?_append,
    List.find?_append, find?_map_frame hline.1, find?_map_frame hbehind.1,
    find?_map_frame hline.2, find?_map_frame hbehind.2]
  have hx := next?_eq params x
  have hr := next?_eq params r
  -- the headers with parentheses come first, and of each kind those of the line
  cases hxlist : (listHeaders x).find? (isReplaceable x) with
  | some h => exact .inFront (by rw [hx, hxlist]; rfl)
  | none =>
    cases hrlist : (listHeaders r).find? (isReplaceable r) with
    | some h => exact .behind (by rw [hr, hrlist]; rfl)
    | none =>
      rw [hxlist, Option.none_or] at hx
      rw [hrlist, Option.none_or] at hr
      cases hxbare : (bareHeaders (singleParameter.occurrences x)).find? (isReplaceable x) with
      | some h => exact .inFront (by rw [hx, hxbare]; rfl)
      | none =>
        cases hrbare : (bareHeaders (singleParameter.occurrences r)).find? (isReplaceable r) with
        | some h => exact .behind (by rw [hr, hrbare]; rfl)
        | none => exact .none (by rw [hx, hxbare]; rfl) (by rw [hr, hrbare]; rfl)

theorem nextOf (hx : x = [] ∨ endsCall x = true ∧ closesBlocks x = true)
    (params : Text → List Text) (r : Text) : NextOf params x r (next? params (x ++ '\n' :: r)) := by
  rcases hx with rfl | ⟨hend, hcloses⟩
  · exact nextOf_of_headers rfl (stopsBefore_nil _ _) (stopsBefore_nil _ _) (fun _ => nofun) params
  · obtain ⟨⟨v, rfl⟩, hcode⟩ := exists_of_endsCall hend
    have hslash : ∀ c ∈ (v ++ [')', ';']).getLast?, c ≠ '/' := by simp
    exact nextOf_of_headers hcode (stopsAtCall_parenthesized.stopsBefore List.suffix_rfl)
      (stopsAtCall_singleParameter.stopsBefore List.suffix_rfl)
      (fun h hh => isReplaceable_inFront hslash hcloses hh _) params

end Arrow

namespace Procedure

open Substitution

variable {x gap r raw rest : Text}

theorem beginsCast_of_lineBreak (h : BeginsCast ('\n' :: r)) : BeginsCast r := by
  obtain ⟨bs, b, u, hsplit, hbs, hb⟩ := h
  cases bs with
  | nil => exact absurd (List.cons.inj hsplit).1 (by decide)
  | cons c bs =>
    exact ⟨bs, b, u, (List.cons.inj hsplit).2, fun d hd => hbs d (List.mem_cons_of_mem c hd), hb⟩

theorem closesBlocks_of_keepsCall {n : Nat} (h : keepsCall n x = true) :
    endsCall x = true ∧ closesBlocks x = true := by
  cases n with
  | zero => exact Bool.and_eq_true_iff.mp h
  | succ n => exact Bool.and_eq_true_iff.mp (Bool.and_eq_true_iff.mp h).1

theorem keepsCall_result {n : Nat} {q : Arrow.Rewrite} (h : keepsCall n x = true)
    (hcount : x.count '>' ≤ n) (hnext : Arrow.next? parameterTexts x = some q) :
    ∃ m, beginsCall q.result = true ∧ keepsCall m q.result = true ∧ q.result.count '>' ≤ m := by
  have hlt := Arrow.count_result_lt angles_parameterTexts_le hnext
  cases n with
  | zero => omega
  | succ n =>
    have hresult := (Bool.and_eq_true_iff.mp h).2
    rw [hnext, Option.all_some, Bool.and_eq_true] at hresult
    exact ⟨n, hresult.1, hresult.2, by omega⟩

/-- The arrows of a line that stays a call and those behind it are rewritten apart, in whatever
order they come. -/
theorem rewriteUpTo_nextLine {n bound : Nat}
    (hx : x = [] ∨ keepsCall n x = true ∧ x.count '>' ≤ n)
    (hbound : x.count '>' + r.count '>' ≤ bound) :
    Arrow.rewriteUpTo parameterTexts bound (x ++ '\n' :: r) =
      Arrow.rewriteUpTo parameterTexts bound x ++
        '\n' :: Arrow.rewriteUpTo parameterTexts bound r := by
  -- the next rewrite is one of the line, which has one arrow less then, or one behind it
  induction bound generalizing n x r with
  | zero => rfl
  | succ bound ih =>
    have hstep := Arrow.nextOf (hx.imp_right fun h => closesBlocks_of_keepsCall h.1) parameterTexts r
    rw [Arrow.rewriteUpTo]
    generalize Arrow.next? parameterTexts (x ++ '\n' :: r) = next at hstep ⊢
    cases hstep with
    | none hline hrest =>
      rw [Arrow.rewriteUpTo_of_next?_eq_none hline, Arrow.rewriteUpTo_of_next?_eq_none hrest]
    | @inFront q hline =>
      have hlt := Arrow.count_result_lt angles_parameterTexts_le hline
      have hresult : (q.frame [] ('\n' :: r)).result = q.result ++ '\n' :: r :=
        Arrow.Rewrite.result_frame _ _ _
      have hstays : keepsCall n x = true ∧ x.count '>' ≤ n := by
        refine hx.resolve_left ?_
        rintro rfl
        exact Nat.not_lt_zero _ hlt
      obtain ⟨m, -, hkeeps, hcount⟩ := keepsCall_result hstays.1 hstays.2 hline
      have hrest : Arrow.rewriteUpTo parameterTexts (bound + 1) r =
          Arrow.rewriteUpTo parameterTexts bound r :=
        Arrow.rewriteUpTo_of_count_le angles_parameterTexts_le (by omega) (Nat.le_succ bound)
      have hnext : Arrow.rewriteUpTo parameterTexts (bound + 1) x =
          Arrow.rewriteUpTo parameterTexts bound q.result := by rw [Arrow.rewriteUpTo, hline]
      dsimp only
      rw [hresult, ih (.inr ⟨hkeeps, hcount⟩) (by omega), hrest, hnext]
    | @behind q hrest =>
      have hlt := Arrow.count_result_lt angles_parameterTexts_le hrest
      have hresult : (q.frame ('\n' :: x.reverse) []).result = x ++ '\n' :: q.result := by
        rw [Arrow.Rewrite.result_frame]
        simp
      have hline : Arrow.rewriteUpTo parameterTexts (bound + 1) x =
          Arrow.rewriteUpTo parameterTexts bound x :=
        Arrow.rewriteUpTo_of_count_le angles_parameterTexts_le (by omega) (Nat.le_succ bound)
      have hnext : Arrow.rewriteUpTo parameterTexts (bound + 1) r =
          Arrow.rewriteUpTo parameterTexts bound q.result := by rw [Arrow.rewriteUpTo, hrest]
      dsimp only
      rw [hresult, ih hx (by omega), hline, hnext]

theorem applyAll_breaks (hgap : ∀ c ∈ gap, c = '\n') (hr : ¬ BeginsCast r) :
    ¬ BeginsCast (gap ++ r) ∧ applyAll (gap ++ r) = gap ++ applyAll r := by
  induction gap with
  | nil => exact ⟨hr, by rw [List.nil_append, List.nil_append]⟩
  | cons c gap ih =>
    obtain ⟨rfl, hbreaks⟩ := List.forall_mem_cons.mp hgap
    obtain ⟨hbegins, hrest⟩ := ih hbreaks
    refine ⟨fun h => hbegins (beginsCast_of_lineBreak h), ?_⟩
    have hbreak := (applyAll_nextLine (x := []) (.inl rfl) hbegins).1
    rw [hrest] at hbreak
    exact hbreak

theorem count_breaks (hgap : ∀ c ∈ gap, c = '\n') (r : Text) :
    (gap ++ r).count '>' = r.count '>' := by
  have hzero : gap.count '>' = 0 :=
    List.count_eq_zero.mpr fun hmem => absurd (hgap _ hmem) (by decide)
  rw [List.count_append, hzero, Nat.zero_add]

theorem rewriteUpTo_breaks (hgap : ∀ c ∈ gap, c = '\n') {bound : Nat}
    (hbound : r.count '>' ≤ bound) :
    Arrow.rewriteUpTo parameterTexts bound (gap ++ r) =
      gap ++ Arrow.rewriteUpTo parameterTexts bound r := by
  induction gap with
  | nil => rfl
  | cons c gap ih =>
    obtain ⟨rfl, hbreaks⟩ := List.forall_mem_cons.mp hgap
    have hcount : ([] : Text).count '>' + (gap ++ r).count '>' ≤ bound := by
      rwa [count_breaks hbreaks, List.count_nil, Nat.zero_add]
    have hbreak := rewriteUpTo_nextLine (n := 0) (.inl rfl) hcount
    have hnone := Arrow.next?_eq_none_of_count (t := []) rfl parameterTexts
    rwa [ih hbreaks, Arrow.rewriteUpTo_of_next?_eq_none hnone] at hbreak

theorem keepsCall_foldl {ss : List Substitution} (hx : staysCall ss x = true) :
    keepsCall ((ss.foldl (fun t s => s.apply t) x).count '>')
      (ss.foldl (fun t s => s.apply t) x) = true := by
  induction ss generalizing x with
  | nil => rwa [staysCall] at hx
  | cons s ss ih =>
    rw [staysCall, Bool.and_eq_true] at hx
    exact ih hx.2

theorem keepsCall_applyAll (hx : staysCall all x = true) :
    keepsCall ((applyAll x).count '>') (applyAll x) = true :=
  keepsCall_foldl hx

theorem rewriteBody_callLine (hx : staysCall all x = true) (hgap : ∀ c ∈ gap, c = '\n')
    (hraw : normalizeIndentation raw = x ++ (gap ++ normalizeIndentation rest))
    (hrest : gap = [] → normalizeIndentation rest = [])
    (hcast : ¬ BeginsCast (normalizeIndentation rest)) :
    rewriteBody raw =
      Arrow.rewriteUpTo parameterTexts ((applyAll x).count '>') (applyAll x) ++
        (gap ++ rewriteBody rest) := by
  have hempty : applyAll [] = [] := rfl
  have hkeeps := keepsCall_applyAll hx
  rw [rewriteBody_eq_rewriteUpTo raw, rewriteBody_eq_rewriteUpTo rest, hraw]
  cases gap with
  | nil =>
    rw [hrest rfl, List.append_nil, List.append_nil, hempty]
    exact (List.append_nil _).symm
  | cons c gap =>
    obtain ⟨rfl, hbreaks⟩ := List.forall_mem_cons.mp hgap
    obtain ⟨hbegins, happly⟩ := applyAll_breaks hbreaks hcast
    have hsplit := (applyAll_nextLine (.inr hx) hbegins).1
    rw [happly] at hsplit
    have hcount : (applyAll x ++ '\n' :: (gap ++ applyAll (normalizeIndentation rest))).count '>' =
        (applyAll x).count '>' + (applyAll (normalizeIndentation rest)).count '>' := by
      rw [List.count_append, List.count_cons_of_ne (by decide), count_breaks hbreaks]
    have hline := Nat.le_add_right ((applyAll x).count '>')
      ((applyAll (normalizeIndentation rest)).count '>')
    have hbehind := Nat.le_add_left ((applyAll (normalizeIndentation rest)).count '>')
      ((applyAll x).count '>')
    rw [List.cons_append, hsplit, hcount,
      rewriteUpTo_nextLine (.inr ⟨hkeeps, Nat.le_refl _⟩) (by rw [count_breaks hbreaks]),
      rewriteUpTo_breaks hbreaks hbehind,
      Arrow.rewriteUpTo_of_count_le angles_parameterTexts_le (Nat.le_refl _) hline,
      Arrow.rewriteUpTo_of_count_le angles_parameterTexts_le (Nat.le_refl _) hbehind,
      List.cons_append]

end Procedure

end CanvasPage
