import CanvasPage.Proofs.Procedure.AssertionsLeft
import CanvasPage.Proofs.Procedure.Relaid
import CanvasPage.Proofs.Procedure.Template
import CanvasPage.Proofs.Script.Matching

namespace CanvasPage

open Script Substitution

variable {s : State} {c d : Char} {l t u v : Text}

namespace Script

theorem tally_of_not_mem (h : c ∉ t) (s : State) : tally c s t = 0 := by
  induction t generalizing s with
  | nil => rfl
  | cons d t ih =>
    rw [List.mem_cons, not_or] at h
    have hne : (d == c) = false := beq_false_of_ne fun hd => h.1 hd.symm
    rw [tally, hne, Bool.and_false, if_neg Bool.false_ne_true, ih h.2]

theorem emit_subset (s : State) (c : Char) : ∀ rc ∈ s.emit c, rc.2 = c ∨ rc.2 = '/' := by
  obtain ⟨mode, nesting⟩ := s
  cases mode <;> grind [State.emit]

theorem exists_emit_of_not_isCode (hs : s.isCode = false) (hc : c ≠ '\n') :
    ∃ r, s.emit c = [(r, c)] := by
  have hne : s.emit c ≠ [] := fun hemit => by
    rw [isCode_of_emit hemit hc] at hs
    cases hs
  obtain ⟨mode, nesting⟩ := s
  cases mode <;> grind [State.emit, State.isCode]

theorem count_eq (hquiet : isQuiet c = true) (hc : c ≠ '\n') (s : State) (t : Text) :
    t.count c = tally c s t + ((emitted s t).map (·.2)).count c := by
  have hslash : c ≠ '/' := by
    rintro rfl
    revert hquiet
    decide
  induction t generalizing s with
  | nil => rfl
  | cons d t ih =>
    rw [emitted, List.map_append, List.count_append, tally, List.count_cons, ih (s.step d)]
    by_cases hd : d = c
    · subst hd
      cases hs : s.isCode with
      | true =>
        have hemit := emitted_of_isQuiet (t := [d]) hs (by simpa using hquiet)
        rw [emitted, emitted, List.append_nil] at hemit
        simp [hemit]
        omega
      | false =>
        obtain ⟨r, hemit⟩ := exists_emit_of_not_isCode hs hc
        simp [hemit]
        omega
    · have hemit : ((s.emit d).map (·.2)).count c = 0 := by
        rw [List.count_eq_zero, List.mem_map]
        rintro ⟨rc, hrc, rfl⟩
        rcases emit_subset s d rc hrc with h | h
        · exact hd h.symm
        · exact hslash h
      simp [hemit, hd]

theorem role_eq_code_iff (hquiet : isQuiet c = true) (hc : c ≠ '\n') (next : Option Char) :
    s.role c next = .code ↔ s.isCode = true := by
  refine ⟨fun h => isCode_of_emit (emit_eq_nil_of_role h) hc, fun hs => ?_⟩
  obtain ⟨mode, nesting⟩ := s
  cases mode <;> grind [State.role, isQuiet, State.isCode]

theorem tally_eq_zero_iff_forall :
    tally c s t = 0 ↔ ∀ a b, t = a ++ c :: b → (s.run a).isCode = false := by
  induction t generalizing s with
  | nil => simp [tally]
  | cons d t ih =>
    rw [tally, Nat.add_eq_zero_iff, ih]
    constructor
    · rintro ⟨hd, hrest⟩ a b hsplit
      rcases List.cons_eq_append_iff.mp hsplit with ⟨rfl, hcons⟩ | ⟨a, rfl, rfl⟩
      · obtain ⟨rfl, -⟩ := List.cons.inj hcons
        simpa [State.run_nil] using hd
      · exact hrest a b rfl
    · intro h
      refine ⟨?_, fun a b hsplit => h (d :: a) b (by rw [hsplit]; rfl)⟩
      rw [if_neg]
      rw [Bool.and_eq_true, beq_iff_eq]
      rintro ⟨hs, rfl⟩
      have hcode := h [] t rfl
      rw [State.run_nil, hs] at hcode
      cases hcode

/-- Every place of a character in a text is in a literal. -/
def IsInLiterals (c : Char) (t : Text) : Prop :=
  ∀ a b, t = a ++ c :: b → inLiteral t a.length = true

theorem tally_eq_zero_iff (hquiet : isQuiet c = true) (hc : c ≠ '\n') :
    tally c .start t = 0 ↔ IsInLiterals c t := by
  rw [tally_eq_zero_iff_forall]
  refine forall₂_congr fun a b => imp_congr_right fun hsplit => ?_
  rw [hsplit, inLiteral_append, bne_iff_ne, ne_eq, role_eq_code_iff hquiet hc,
    Bool.not_eq_true]

theorem tally_between (hne : u ≠ []) (hquiet : ∀ d ∈ u, isQuiet d = true) (hu : c ∉ u) (hv : c ∉ v)
    (t : Text) : tally c .start (u ++ t ++ v) = tally c .start t := by
  rw [tally_append, tally_append, run_of_isQuiet rfl hne hquiet, tally_of_not_mem hu,
    tally_of_not_mem hv, Nat.zero_add, Nat.add_zero]

end Script

namespace Procedure

theorem tally_append_blanks (hblank : Text.isBlank c = false) {ws : Text}
    (hws : ∀ d ∈ ws, Text.isBlank d = true) (s : State) (t : Text) :
    tally c s (t ++ ws) = tally c s t := by
  have hmem : c ∉ ws := fun hmem => by
    rw [hws c hmem] at hblank
    cases hblank
  rw [tally_append, tally_of_not_mem hmem, Nat.add_zero]

theorem tally_dedentBehind (hblank : Text.isBlank c = false)
    (hq : ∀ q ∈ s.mode.quote?, isQuote q = true) (h : escapesLineEnd s t = false) (k : Nat) :
    tally c s (dedentBehind k t) = tally c s t := by
  induction hn : t.length using Nat.strongRecOn generalizing s t with
  | ind n ih =>
  have hfeed : Text.isBlank '\n' = true := by decide
  have htrim : ∀ l s, tally c s (Text.trimEnd l) = tally c s l := by
    intro l s
    obtain ⟨bs, hsplit, hbs⟩ := Text.exists_trimEnd l
    conv_rhs => rw [hsplit, tally_append_blanks hblank (List.all_eq_true.mp hbs)]
  by_cases hbreak : '\n' ∈ t
  · obtain ⟨l, r, rfl, hl⟩ := Text.exists_break hbreak
    by_cases hr : r = []
    · have hlines : dedentBehind k (l ++ '\n' :: r) = Text.trimEnd l := by
        rw [dedentBehind_eq_join, Text.map_trimEnd_lines hl, hr]
        rfl
      rw [hlines, htrim, hr, tally_append_blanks hblank (by simpa using hfeed)]
    · obtain ⟨ws, m, rfl, hws, hdedent⟩ := exists_dedentBehind_lineFeed hl hr k
      obtain ⟨bs, hsplit, hbs⟩ := Text.exists_trimEnd l
      have hmargin : Page.IsMargin bs := fun d hd => by
        refine ⟨List.all_eq_true.mp hbs d hd, ?_⟩
        rintro rfl
        exact hl (by rw [hsplit]; simp [hd])
      rw [hdedent]
      generalize Text.trimEnd l = q at hsplit ⊢
      subst hsplit
      have hbetween : ∀ d ∈ bs ++ '\n' :: ws, Text.isBlank d = true :=
        List.forall_mem_append.mpr ⟨List.all_eq_true.mp hbs,
          List.forall_mem_cons.mpr ⟨hfeed, fun d hd => (hws d hd).1⟩⟩
      have hrun := run_lineBreak (t := ws ++ m) hq hmargin hws (by simpa using h)
      have htext : q ++ bs ++ '\n' :: (ws ++ m) = (q ++ (bs ++ '\n' :: ws)) ++ m := by simp
      have htail : q ++ '\n' :: dedentBehind k m = (q ++ ['\n']) ++ dedentBehind k m := by simp
      have hrest : escapesLineEnd (s.run (q ++ ['\n'])) m = false := by
        rw [← hrun]
        exact escapesLineEnd_append (by rwa [← htext])
      have hm := ih m.length (by simp [← hn]; omega) (Page.isQuote_run hq _) hrest rfl
      rw [htext, htail, tally_append, tally_append c s (q ++ (bs ++ '\n' :: ws)), hm, hrun,
        tally_append_blanks hblank hbetween,
        tally_append_blanks hblank (by simpa using hfeed)]
  · rw [dedentBehind_of_not_mem hbreak, htrim]

theorem tally_normalizeIndentation (hblank : Text.isBlank c = false)
    (h : escapesLineEnd .start t = false) :
    tally c .start (normalizeIndentation t) = tally c .start t := by
  obtain ⟨ws, bs, hnormal, hws, hbs⟩ := exists_normalizeIndentation t
  have hdedent := tally_dedentBehind hblank (by simp [State.start, Mode.quote?]) h (laterIndent t)
  have hfront := tally_append_blanks hblank (List.all_eq_true.mp hws) .start []
  have hstart := run_start_of_allBlank hws []
  rw [List.append_nil] at hstart
  rw [hnormal, tally_append, ← List.nil_append ws, hfront, List.nil_append, hstart,
    tally_append_blanks hblank (List.all_eq_true.mp hbs)] at hdedent
  simpa [tally, State.run_nil] using hdedent

end Procedure

namespace Script

variable {ls : List Text}

/-- A line behind which a reader is where it was at the start. -/
def IsOwnLine (l : Text) : Prop := State.start.run (l ++ ['\n']) = .start

instance (l : Text) : Decidable (IsOwnLine l) := inferInstanceAs (Decidable (_ = _))

theorem tally_append_line (hc : c ≠ '\n') (hl : IsOwnLine l) (t : Text) :
    tally c .start (l ++ '\n' :: t) = tally c .start l + tally c .start t := by
  have hsplit : l ++ '\n' :: t = (l ++ ['\n']) ++ t := by simp
  rw [hsplit, tally_append, hl, tally_append, tally_of_not_mem (t := ['\n']) (by simpa using hc),
    Nat.add_zero]

theorem tally_join_eq_zero_iff (hc : c ≠ '\n') (hls : ∀ l ∈ ls, IsOwnLine l) :
    tally c .start (Text.join "\n" ls) = 0 ↔ ∀ l ∈ ls, tally c .start l = 0 := by
  have hfeed : ("\n" : Text) = ['\n'] := rfl
  fun_induction Text.join "\n" ls with
  | case1 => simp [tally]
  | case2 l => simp
  | case3 l ls hne ih =>
    obtain ⟨hl, hls⟩ := List.forall_mem_cons.mp hls
    rw [hfeed, List.append_assoc, List.singleton_append, tally_append_line hc hl,
      Nat.add_eq_zero_iff, List.forall_mem_cons]
    exact and_congr_right fun _ => ih hls

theorem isOwnLine_carriageReturn (h : IsOwnLine l) : IsOwnLine (l ++ ['\r']) := by
  rw [IsOwnLine, State.run_append] at h
  have hescaping : (State.start.run l).isEscaping = false := by
    generalize State.start.run l = s at h
    obtain ⟨mode, nesting⟩ := s
    cases mode with
    | quotedEscape q => cases h
    | _ => rfl
  have hstep := (step_blank_lineFeed (c := '\r') hescaping (by decide) (by decide)).1
  rw [IsOwnLine, List.append_assoc, State.run_append, List.singleton_append, State.run_cons]
  exact (congrArg (State.run · []) hstep).trans h

theorem tally_lines_eq_zero_iff (hblank : Text.isBlank c = false)
    (hls : ∀ l ∈ Text.lines t, IsOwnLine l) :
    tally c .start t = 0 ↔ ∀ l ∈ Text.lines t, tally c .start l = 0 := by
  obtain ⟨hfeed, hreturn⟩ := Text.isBlank_lineBreak hblank
  induction hn : t.length using Nat.strongRecOn generalizing t with
  | ind n ih =>
  by_cases hbreak : '\n' ∈ t
  · obtain ⟨l, r, rfl, hl⟩ := Text.exists_break hbreak
    have hrest : ∀ k, tally c .start k = tally c .start l → IsOwnLine l →
        Text.lines (l ++ '\n' :: r) = k :: Text.lines r →
        (tally c .start (l ++ '\n' :: r) = 0 ↔
          ∀ k ∈ Text.lines (l ++ '\n' :: r), tally c .start k = 0) := by
      intro k hk hown hlines
      rw [hlines] at hls
      rw [hlines, tally_append_line hfeed hown, Nat.add_eq_zero_iff, List.forall_mem_cons, hk,
        ih r.length (by simp [← hn]; omega) (List.forall_mem_cons.mp hls).2 rfl]
    by_cases hlast : l.getLast? = some '\r'
    · obtain ⟨l, rfl⟩ := List.getLast?_eq_some_iff.mp hlast
      have hlines := Text.lines_append_carriageReturn (l := l) (fun h => hl (by simp [h])) r
      have hsplit : l ++ ['\r'] ++ '\n' :: r = l ++ '\r' :: '\n' :: r := by simp
      rw [← hsplit] at hlines
      rw [hlines] at hls
      refine hrest l ?_ (isOwnLine_carriageReturn (hls l (by simp))) hlines
      rw [tally_append, tally_of_not_mem (t := ['\r']) (by simpa using hreturn), Nat.add_zero]
    · have hlines := Text.lines_append_lineFeed hl hlast r
      rw [hlines] at hls
      exact hrest l rfl (hls l (by simp)) hlines
  · by_cases hnil : t = []
    · simp [hnil, Text.lines, tally]
    · simp [Text.lines_of_not_mem hbreak hnil]

end Script

open Procedure (added)

variable {raw : Text}

/-- A character that means nothing to the rewriting of a body: none of the texts that are put in has
it, and a reader of script text stays outside of literals at it. -/
structure IsInert (c : Char) : Prop where
  quiet : isQuiet c = true
  not_blank : Text.isBlank c = false
  not_added : c ∉ added

theorem IsInert.ne_lineFeed (hc : IsInert c) : c ≠ '\n' := (Text.isBlank_lineBreak hc.not_blank).1

theorem isInert_hash : IsInert '#' := ⟨by decide, by decide, by decide⟩

namespace Pattern

variable {pattern : Pattern} {new : Occurrence → Text}

def coveredBy (o : Occurrence) : Text := o.start.after.take o.width

theorem count_replaceFrom (hnew : ∀ cursor o, pattern.at? cursor = some o → c ∉ coveredBy o → c ∉ new o)
    (covered : Nat) (before t : Text)
    (h : ∀ o ∈ pattern.occurrencesFrom covered before t, c ∉ coveredBy o) :
    (pattern.replaceFrom new covered before t).count c = (t.drop covered).count c := by
  induction t generalizing covered before with
  | nil => simp [replaceFrom]
  | cons d t ih =>
    cases covered with
    | succ covered =>
      rw [occurrencesFrom] at h
      rw [replaceFrom, ih _ _ h, List.drop_succ_cons]
    | zero =>
      rw [occurrencesFrom] at h
      rw [replaceFrom]
      cases hat : pattern.at? ⟨before, d :: t⟩ with
      | none =>
        rw [hat] at h
        have hrest := ih _ _ h
        rw [List.drop_zero] at hrest ⊢
        dsimp only
        rw [List.count_cons, List.count_cons, hrest]
      | some o =>
        rw [hat] at h
        obtain ⟨ho, hrest⟩ := List.forall_mem_cons.mp h
        obtain ⟨w, gs, hne, hafter, -, hwidth, hstart, -⟩ := exists_reads_of_at? hat
        have hw : coveredBy o = w := by
          rw [coveredBy, hstart, hafter, hwidth, List.take_left]
        obtain ⟨e, w, rfl⟩ := List.exists_cons_of_ne_nil hne
        obtain ⟨rfl, ht⟩ := List.cons.inj hafter
        replace ht : t = w ++ o.stop.after := ht
        have hcovered : o.width - 1 = w.length := by
          rw [hwidth, List.length_cons, Nat.add_sub_cancel]
        dsimp only
        rw [List.count_append, List.count_eq_zero.mpr (hnew _ _ hat ho), Nat.zero_add, ih _ _ hrest,
          hcovered, ht, List.drop_left, List.drop_zero]
        rw [hw] at ho
        rw [← List.cons_append, List.count_append, List.count_eq_zero.mpr ho, Nat.zero_add]

end Pattern

namespace Substitution

def replaced (s : Substitution) (t : Text) : List Text :=
  (segments t).flatMap fun
    | .code code => (s.pattern.occurrences code).map Pattern.coveredBy
    | .literal _ => []

def replacedBy : List Substitution → Text → List Text
  | [], _ => []
  | s :: ss, t => s.replaced t ++ replacedBy ss (s.apply t)

theorem count_apply {s : Substitution} (hs : s ∈ all) (hc : c ∉ added)
    (h : ∀ w ∈ s.replaced t, c ∉ w) : (s.apply t).count c = t.count c := by
  have hnew : ∀ cursor o, s.pattern.at? cursor = some o → c ∉ Pattern.coveredBy o →
      c ∉ s.replacement o := by
    intro cursor o hat ho hmem
    obtain ⟨w, gs, -, hafter, -, hwidth, hstart, hgroups, hread⟩ := Pattern.exists_reads_of_at? hat
    rw [Pattern.coveredBy, hstart, hafter, hwidth, List.take_left] at ho
    rcases List.mem_append.mp (replacement_subset hs hread hgroups hmem) with hmem | hmem
    · exact ho hmem
    · exact hc (inserted_subset hmem)
  have hsegments : ∀ gs : List Segment, (∀ g ∈ gs, g ∈ segments t) →
      (gs.flatMap s.onSegment).count c = (gs.flatMap Segment.text).count c := by
    intro gs hgs
    induction gs with
    | nil => rfl
    | cons g gs ih =>
      obtain ⟨hg, hrest⟩ := List.forall_mem_cons.mp hgs
      rw [List.flatMap_cons, List.flatMap_cons, List.count_append, List.count_append, ih hrest]
      cases g with
      | literal l => rfl
      | code code =>
        refine congrArg (· + _) (Pattern.count_replaceFrom hnew 0 [] code fun o ho => h _ ?_)
        exact List.mem_flatMap.mpr ⟨.code code, hg, List.mem_map_of_mem ho⟩
  rw [apply_eq_flatMap, hsegments _ fun _ hg => hg, flatten_segments]

theorem count_foldl_apply (hc : c ∉ added) {ss : List Substitution} (hss : ∀ s ∈ ss, s ∈ all)
    (h : ∀ w ∈ replacedBy ss t, c ∉ w) :
    (ss.foldl (fun t s => s.apply t) t).count c = t.count c := by
  induction ss generalizing t with
  | nil => rfl
  | cons s ss ih =>
    obtain ⟨hhere, hlater⟩ := List.forall_mem_append.mp h
    obtain ⟨hs, hss⟩ := List.forall_mem_cons.mp hss
    rw [List.foldl_cons, ih hss hlater, count_apply hs hc hhere]

theorem tally_applyAll (hc : IsInert c) (hcasts : CastsApart t)
    (h : ∀ w ∈ replacedBy all t, c ∉ w) :
    tally c .start (applyAll t) = tally c .start t := by
  have hcount := count_foldl_apply hc.not_added (fun _ hs => hs) h
  rw [← applyAll, count_eq hc.quiet hc.ne_lineFeed .start, emitted_applyAll hcasts,
    count_eq hc.quiet hc.ne_lineFeed .start t] at hcount
  exact Nat.add_right_cancel hcount

end Substitution

namespace Arrow

variable {params : Text → List Text} {r : Rewrite} {rs : List Rewrite}

theorem tally_of_next? (hc : c ∉ added)
    (hparams : ∀ p : Text, (∀ d ∈ p, d ≠ c) → ∀ n ∈ params p, ∀ d ∈ n, d ≠ c)
    (hnext : next? params t = some r) (hspares : Spares (· == c) r) :
    tally c .start r.result = tally c .start t := by
  obtain ⟨p, hsplit, hstop, hheader, hreplacement, -⟩ := exists_header_of_next? hnext
  have hafter := run_stop_of_next? hnext
  have hreplaced := ArrowFunction.run_replacement_of_next? hnext hspares.leavesCode
  have hold : ∀ d ∈ r.header, d ≠ c := fun d hd => by simpa using hspares.header d hd
  have hnew : ∀ d ∈ r.replacement, d ≠ c := by
    rw [hreplacement]
    refine forall_mem_replacement (P := (· ≠ c)) (fun d hd hdc => hc ?_)
      (hparams p fun d hd => hold d (hheader.params_subset hd))
    rwa [← hdc]
  rw [hstop] at hafter
  rw [hsplit, Rewrite.result, List.append_assoc]
  simp only [tally_append, ← State.run_append, hafter, hreplaced,
    tally_of_not_mem fun hmem => hold c hmem rfl,
    tally_of_not_mem fun hmem => hnew c hmem rfl]

theorem Rewrites.tally (hc : c ∉ added)
    (hparams : ∀ p : Text, (∀ d ∈ p, d ≠ c) → ∀ n ∈ params p, ∀ d ∈ n, d ≠ c)
    (hrun : Rewrites params t rs u) (hspares : ∀ r ∈ rs, Spares (· == c) r) :
    tally c .start u = tally c .start t := by
  induction hrun with
  | nil => rfl
  | cons hnext _ ih =>
    obtain ⟨hhere, hlater⟩ := List.forall_mem_cons.mp hspares
    rw [ih hlater, tally_of_next? hc hparams hnext hhere]

end Arrow

namespace Procedure

theorem forall_mem_parameterTexts {P : Char → Prop} (hadded : ∀ c ∈ added, P c)
    (hraw : ∀ c ∈ raw, P c) : ∀ n ∈ parameterTexts raw, ∀ c ∈ n, P c :=
  Parameter.forall_mem_textsWith hadded (fun _ ht => forall_mem_rewriteBodyWithin hadded _ ht) hraw

/-- A body in which a character stays where it is: what is replaced does not have it. -/
structure Keeps (c : Char) (raw : Text) : Prop where
  spares : Spares (· == c) raw
  replaced : ∀ w ∈ Substitution.replacedBy Substitution.all (normalizeIndentation raw), c ∉ w

/-- Rewriting a body neither drops a character from its code nor shows one of its literals. -/
theorem tally_rewriteBody (hc : IsInert c) (h : Keeps c raw) :
    tally c .start (rewriteBody raw) = tally c .start raw := by
  obtain ⟨rs, hrun, hrs⟩ := h.spares.arrows
  have hadded : ∀ d ∈ added, d ≠ c := fun d hd hdc => hc.not_added (hdc ▸ hd)
  rw [hrun.tally hc.not_added (fun p hp => forall_mem_parameterTexts hadded hp) hrs,
    Substitution.tally_applyAll hc h.spares.casts h.replaced,
    tally_normalizeIndentation hc.not_blank h.spares.lineEnds]

theorem Keeps.of_no_arrow (hends : escapesLineEnd .start raw = false)
    (hcasts : CastsApart (normalizeIndentation raw))
    (harrows : rewriteBody raw = Substitution.applyAll (normalizeIndentation raw))
    (hreplaced : ∀ w ∈ Substitution.replacedBy Substitution.all (normalizeIndentation raw), c ∉ w) :
    Keeps c raw :=
  ⟨⟨hends, hcasts, [], harrows ▸ .nil, by simp⟩, hreplaced⟩

end Procedure

end CanvasPage
