import CanvasPage.Proofs.Page.Indented
import CanvasPage.Proofs.Procedure.Reflow
import CanvasPage.Proofs.Script.Template
import CanvasPage.Proofs.Text.Lines

namespace CanvasPage

open Script

namespace Script

variable {s : State} {t u ws : Text}

def State.isEscaping (s : State) : Bool :=
  match s.mode with
  | .quotedEscape _ => true
  | _ => false

/-- Does a backslash in a string stand right before the blanks that end its line? -/
def escapesLineEnd (s : State) : Text → Bool
  | [] => false
  | c :: rest =>
      (s.isEscaping && c != '\n' && Text.allBlank ((c :: rest).takeWhile (· != '\n'))) ||
        escapesLineEnd (s.step c) rest

theorem escapesLineEnd_append (h : escapesLineEnd s (t ++ u) = false) :
    escapesLineEnd (s.run t) u = false := by
  induction t generalizing s with
  | nil => exact h
  | cons c t ih =>
    rw [List.cons_append, escapesLineEnd, Bool.or_eq_false_iff] at h
    exact ih h.2

theorem isEscaping_of_escapesLineEnd (hne : ws ≠ []) (hws : Page.IsMargin ws)
    (h : escapesLineEnd s (ws ++ '\n' :: t) = false) : s.isEscaping = false := by
  obtain ⟨c, ws, rfl⟩ := List.exists_cons_of_ne_nil hne
  have hline : (c :: ws ++ '\n' :: t).takeWhile (· != '\n') = c :: ws := by
    rw [List.takeWhile_append_of_pos fun d hd => by simpa using (hws d hd).2,
      List.takeWhile_cons_of_neg (by simp), List.append_nil]
  have hblank : Text.allBlank (c :: ws) = true := List.all_eq_true.mpr fun d hd => (hws d hd).1
  rw [List.cons_append, escapesLineEnd, ← List.cons_append, hline, hblank,
    Bool.or_eq_false_iff] at h
  simpa [(hws c (by simp)).2] using h.1

/-- The characters that a blank is not. -/
structure IsMute (c : Char) : Prop where
  quote : isQuote c = false
  backtick : isBacktick c = false
  others : ∀ d ∈ ['/', '*', '\\', '$', '{', '}'], c ≠ d

theorem isMute_of_isBlank {c : Char} (hc : Text.isBlank c = true) : IsMute c := by
  obtain ⟨hplain, hescape⟩ := isPlain_of_isBlank hc
  have hbrace := ne_bracket_of_isPlain hplain .brace
  simp only [isPlain, Bool.not_eq_true', Bool.or_eq_false_iff, beq_eq_false_iff_ne,
    Bracket.opener, Bracket.closer] at hplain hbrace
  refine ⟨hplain.1.1.1.1, hplain.1.1.1.2, ?_⟩
  simp_all

theorem IsMute.stepCode {c : Char} (hc : IsMute c) (nesting : List Nat) :
    stepCode nesting c = ⟨.code, nesting⟩ := by
  obtain ⟨hquote, hbacktick, hothers⟩ := hc
  simp only [List.mem_cons, List.not_mem_nil, or_false, forall_eq_or_imp, forall_eq] at hothers
  cases nesting <;> simp [Script.stepCode, hquote, hbacktick, hothers]

theorem step_blank_lineFeed {c : Char} (hs : s.isEscaping = false) (hc : Text.isBlank c = true)
    (hbreak : c ≠ '\n') :
    (s.step c).step '\n' = s.step '\n' ∧ (s.step c).isEscaping = false := by
  have hmute := isMute_of_isBlank hc
  have hfeed : IsMute '\n' := isMute_of_isBlank (by decide)
  have hcode := hmute.stepCode
  have hothers := hmute.others
  simp only [List.mem_cons, List.not_mem_nil, or_false, forall_eq_or_imp, forall_eq] at hothers
  obtain ⟨mode, nesting⟩ := s
  cases mode with
  | quotedEscape q => cases hs
  | quoted q =>
    by_cases hq : c = q
    · subst hq
      simp [State.step, hothers, hfeed.stepCode, State.isEscaping]
    · simp [State.step, hothers, hq, hbreak, State.isEscaping]
  | _ =>
    simp [State.step, stepTemplate, hothers, hcode, hmute.backtick, hfeed.backtick, hfeed.stepCode,
      hbreak, State.isEscaping]

/-- Blanks at the end of a line change nothing but what a string escapes. -/
theorem step_lineFeed_blanks (hs : s.isEscaping = false) (hws : Page.IsMargin ws) :
    (s.run ws).step '\n' = s.step '\n' := by
  induction ws generalizing s with
  | nil => rfl
  | cons c ws ih =>
    obtain ⟨⟨hc, hbreak⟩, hws⟩ := List.forall_mem_cons.mp hws
    obtain ⟨hstep, hescaping⟩ := step_blank_lineFeed hs hc hbreak
    rw [State.run_cons, ih hescaping hws, hstep]

theorem run_lineBreak {q bs : Text} (hq : ∀ q ∈ s.mode.quote?, isQuote q = true)
    (hbs : Page.IsMargin bs) (hws : Page.IsMargin ws)
    (h : escapesLineEnd s (q ++ (bs ++ '\n' :: t)) = false) :
    s.run (q ++ (bs ++ '\n' :: ws)) = s.run (q ++ ['\n']) := by
  have hstep : ((s.run q).run bs).step '\n' = (s.run q).step '\n' := by
    by_cases hnil : bs = []
    · rw [hnil, State.run_nil]
    · exact step_lineFeed_blanks
        (isEscaping_of_escapesLineEnd hnil hbs (escapesLineEnd_append h)) hbs
  have hblanks := ((Page.isLineStart_run hq q).alike_blanks hws []).run
  rw [List.append_nil, State.run_nil, State.run_append] at hblanks
  rw [State.run_append, State.run_append, State.run_cons, hstep, State.run_append]
  exact hblanks

theorem staysInTemplate_lineBreak {q bs : Text}
    (h : staysInTemplate s (q ++ (bs ++ '\n' :: ws)) = true) :
    staysInTemplate s (q ++ ['\n']) = true := by
  rw [staysInTemplate_append, Bool.and_eq_true] at h ⊢
  obtain ⟨hq, hline⟩ := h
  refine ⟨hq, ?_⟩
  cases bs with
  | nil =>
    rw [List.nil_append, staysInTemplate, Bool.and_eq_true] at hline
    rw [staysInTemplate, hline.1]
    rfl
  | cons b bs =>
    rw [List.cons_append, staysInTemplate, Bool.and_eq_true] at hline
    rw [staysInTemplate, hline.1]
    rfl

end Script

namespace Procedure

variable {s : State} {t l r u v : Text} {c : Char} {k : Nat} {ls : List Text}

/-- A text without the blanks at the ends of its lines, and without `k` columns of indentation on
the lines behind the first. -/
def dedentBehind (k : Nat) (t : Text) : Text :=
  Text.mapLines Text.trimEnd (fun l => dropIndent k (Text.trimEnd l)) t

theorem isIndent_of_not_isBlank (hc : Text.isBlank c = false) : isIndent c = false := by
  by_contra hindent
  rw [isIndent, Bool.not_eq_false, Bool.or_eq_true, beq_iff_eq, beq_iff_eq] at hindent
  rcases hindent with rfl | rfl <;> revert hc <;> decide

theorem indentation_append_cons (hc : Text.isBlank c = false) (u v : Text) :
    indentation (u ++ c :: v) = indentation u := by
  have hindent := isIndent_of_not_isBlank hc
  rw [indentation, List.takeWhile_append, List.takeWhile_cons_of_neg (by simp [hindent]),
    List.append_nil, indentation]
  split
  · rename_i hall
    exact hall.symm
  · rfl

theorem dropIndent_append_cons (hc : Text.isBlank c = false) (k : Nat) (u v : Text) :
    dropIndent k (u ++ c :: v) = dropIndent k (u ++ [c]) ++ v := by
  have hle : min (indentation u) k ≤ u.length :=
    (Nat.min_le_left _ _).trans (List.takeWhile_prefix _).length_le
  have hblank : ∀ v : Text, Text.allBlank (u ++ c :: v) = false := by
    intro v
    simp [Text.allBlank, hc]
  rw [dropIndent, dropIndent, hblank, hblank, if_neg Bool.false_ne_true, if_neg Bool.false_ne_true,
    indentation_append_cons hc, indentation_append_cons hc, List.drop_append_of_le_length hle, List.drop_append_of_le_length hle,
    List.append_assoc]
  rfl

theorem dedentBehind_append_cons (hc : Text.isBlank c = false) (k : Nat) (u v : Text) :
    dedentBehind k (u ++ c :: v) = dedentBehind k (u ++ [c]) ++ dedentBehind k v := by
  have hnil : Text.trimEnd [] = [] := rfl
  refine Text.mapLines_append_cons hc (fun k l => ?_) (fun k l => ?_) u v
  · rw [Text.trimEnd_append_cons hc, Text.trimEnd_append_cons hc, hnil, List.append_assoc]
    rfl
  · rw [Text.trimEnd_append_cons hc, Text.trimEnd_append_cons hc, hnil]
    exact dropIndent_append_cons hc _ _ _

theorem dedentBehind_of_not_mem (ht : '\n' ∉ t) (k : Nat) : dedentBehind k t = Text.trimEnd t := by
  by_cases hnil : t = []
  · rw [hnil]
    rfl
  · exact Text.mapLines_of_not_mem ht hnil _ _

theorem dedentBehind_cons (hc : Text.isBlank c = false) (k : Nat) (v : Text) :
    dedentBehind k (c :: v) = c :: dedentBehind k v := by
  have hsingle : dedentBehind k [c] = [c] := by
    rw [dedentBehind_of_not_mem (by simpa using (Text.isBlank_lineBreak hc).1.symm)]
    exact Text.dropEndWhile_append_singleton hc []
  have happend := dedentBehind_append_cons hc k [] v
  rwa [List.nil_append, List.nil_append, hsingle] at happend

theorem dedentBehind_eq_join (k : Nat) (t : Text) : dedentBehind k t =
    Text.join "\n" (Text.mapFirst id (dropIndent k) ((Text.lines t).map Text.trimEnd)) := by
  rw [dedentBehind, Text.mapLines]
  cases Text.lines t with
  | nil => rfl
  | cons l ls => rw [Text.mapFirst, List.map_cons, Text.mapFirst, List.map_map]; rfl

theorem exists_margin (hl : '\n' ∉ l) (k : Nat) : ∃ ws m, l = ws ++ m ∧ Page.IsMargin ws ∧
    Text.trimEnd m = dropIndent k (Text.trimEnd l) := by
  obtain ⟨bs, hsplit, hbs⟩ := Text.exists_trimEnd l
  obtain ⟨ws, hindent, hws⟩ := exists_dropIndent k (Text.trimEnd l)
  have hlast : ∀ c ∈ (dropIndent k (Text.trimEnd l)).getLast?, Text.isBlank c = false := by
    intro c hc
    refine Text.getLast?_dropEndWhile Text.isBlank l c ?_
    rw [← Text.trimEnd, hindent, List.getLast?_append_of_ne_nil _ (List.ne_nil_of_mem
      (List.mem_of_getLast? hc))]
    exact hc
  refine ⟨ws, dropIndent k (Text.trimEnd l) ++ bs, ?_, fun c hc => ⟨List.all_eq_true.mp hws c hc, ?_⟩,
    ?_⟩
  · rw [← List.append_assoc, ← hindent, ← hsplit]
  · rintro rfl
    rw [hsplit, hindent] at hl
    exact hl (by simp [hc])
  · rw [Text.trimEnd_append_of_allBlank hbs]
    exact Text.dropEndWhile_of_getLast? hlast

theorem exists_dedentBehind_lineFeed (hl : '\n' ∉ l) (hr : r ≠ []) (k : Nat) :
    ∃ ws m, r = ws ++ m ∧ Page.IsMargin ws ∧
      dedentBehind k (l ++ '\n' :: r) = Text.trimEnd l ++ '\n' :: dedentBehind k m := by
  have hrest : ∃ ws m, r = ws ++ m ∧ Page.IsMargin ws ∧ dedentBehind k m =
      Text.join "\n" (((Text.lines r).map Text.trimEnd).map (dropIndent k)) := by
    by_cases hbreak : '\n' ∈ r
    · obtain ⟨q, z, rfl, hq⟩ := Text.exists_break hbreak
      obtain ⟨ws, m, rfl, hws, hm⟩ := exists_margin hq k
      refine ⟨ws, m ++ '\n' :: z, by simp, hws, ?_⟩
      rw [dedentBehind_eq_join, Text.map_trimEnd_lines (fun h => hq (by simp [h])),
        Text.map_trimEnd_lines hq, List.map_cons, ← hm]
      rfl
    · obtain ⟨ws, m, rfl, hws, hm⟩ := exists_margin hbreak k
      refine ⟨ws, m, rfl, hws, ?_⟩
      rw [dedentBehind_of_not_mem (fun h => hbreak (by simp [h])), Text.lines_of_not_mem hbreak hr,
        hm]
      rfl
  obtain ⟨ws, m, hsplit, hws, hm⟩ := hrest
  obtain ⟨q, qs, hlines⟩ : ∃ q qs, ((Text.lines r).map Text.trimEnd).map (dropIndent k) = q :: qs :=
    List.exists_cons_of_ne_nil (by simpa using Text.lines_ne_nil hr)
  refine ⟨ws, m, hsplit, hws, ?_⟩
  rw [dedentBehind_eq_join, Text.map_trimEnd_lines hl, Text.mapFirst, hm, hlines,
    Text.join_cons_cons]
  rfl

theorem exists_dedentBehind_concat (hc : Text.isBlank c = false)
    (hq : ∀ q ∈ s.mode.quote?, isQuote q = true) (h : escapesLineEnd s (u ++ c :: v) = false)
    (k : Nat) : ∃ w, dedentBehind k (u ++ [c]) = w ++ [c] ∧ s.run w = s.run u ∧
      (staysInTemplate s u = true → staysInTemplate s w = true) := by
  induction hn : u.length using Nat.strongRecOn generalizing s u with
  | ind n ih =>
  have hfeed := (Text.isBlank_lineBreak hc).1
  by_cases hbreak : '\n' ∈ u
  · obtain ⟨l, r, rfl, hl⟩ := Text.exists_break hbreak
    obtain ⟨ws, m, hr, hws, hdedent⟩ := exists_dedentBehind_lineFeed hl (r := r ++ [c]) (by simp) k
    obtain ⟨m, rfl, rfl⟩ : ∃ w, r = ws ++ w ∧ m = w ++ [c] := by
      rcases List.append_eq_append_iff.mp hr with ⟨w, rfl, hm⟩ | ⟨w, rfl, hm⟩
      · cases w with
        | nil => exact ⟨[], by simp, hm.symm⟩
        | cons d w =>
          obtain ⟨rfl, -⟩ := List.cons.inj hm
          rw [(hws c (by simp)).1] at hc
          cases hc
      · exact ⟨w, rfl, hm⟩
    obtain ⟨bs, hsplit, hbs⟩ := Text.exists_trimEnd l
    have hmargin : Page.IsMargin bs := fun c hc => by
      refine ⟨List.all_eq_true.mp hbs c hc, ?_⟩
      rintro rfl
      exact hl (by rw [hsplit]; simp [hc])
    rw [List.append_assoc, List.cons_append, hdedent]
    generalize Text.trimEnd l = q at hsplit ⊢
    subst hsplit
    have hsplit : q ++ bs ++ '\n' :: (ws ++ m) = (q ++ (bs ++ '\n' :: ws)) ++ m := by simp
    have hrun := run_lineBreak (t := ws ++ (m ++ c :: v)) hq hmargin hws (by simpa using h)
    have hrest : escapesLineEnd (s.run (q ++ ['\n'])) (m ++ c :: v) = false := by
      rw [← hrun]
      exact escapesLineEnd_append (by simpa using h)
    obtain ⟨w, hw, hwrun, hwstays⟩ :=
      ih m.length (by simp [← hn]; omega) (Page.isQuote_run hq _) hrest rfl
    refine ⟨(q ++ ['\n']) ++ w, by rw [hw]; simp, ?_, fun hstays => ?_⟩
    · rw [hsplit, State.run_append, State.run_append _ _ m, hrun, hwrun]
    · rw [hsplit, staysInTemplate_append, hrun, Bool.and_eq_true] at hstays
      rw [staysInTemplate_append, Bool.and_eq_true]
      exact ⟨staysInTemplate_lineBreak hstays.1, hwstays hstays.2⟩
  · rw [dedentBehind_of_not_mem (by simp [hbreak, hfeed.symm])]
    exact ⟨u, Text.dropEndWhile_append_singleton hc u, rfl, id⟩

def laterIndent (t : Text) : Nat := commonIndent (Text.lines t).tail

theorem indentation_trimEnd (ht : Text.allBlank t = false) :
    indentation (Text.trimEnd t) = indentation t := by
  obtain ⟨u, c, bs, rfl, hc, -⟩ := Text.exists_split_of_not_allBlank ht
  rw [Text.trimEnd_append_cons hc, indentation_append_cons hc, indentation_append_cons hc]

theorem commonIndent_map_trimEnd (ls : List Text) :
    commonIndent (ls.map Text.trimEnd) = commonIndent ls := by
  rw [commonIndent, commonIndent, List.filter_map, List.map_map]
  have hblank : (fun l => !Text.allBlank l) ∘ Text.trimEnd = fun l => !Text.allBlank l :=
    funext fun l => congrArg _ (Text.allBlank_trimEnd l)
  have hindent : ∀ l ∈ ls.filter (!Text.allBlank ·),
      (indentation ∘ Text.trimEnd) l = indentation l := fun l hl =>
    indentation_trimEnd (by simpa using (List.mem_filter.mp hl).2)
  rw [hblank, List.map_congr_left hindent]

theorem commonIndent_blankEnds {ks ms : List Text} (hks : ∀ l ∈ ks, Text.allBlank l = true)
    (hms : ∀ l ∈ ms, Text.allBlank l = true) :
    commonIndent (ks ++ (ls ++ ms)) = commonIndent ls := by
  have hnone : ∀ {ks : List Text}, (∀ l ∈ ks, Text.allBlank l = true) →
      ks.filter (!Text.allBlank ·) = [] := fun hks =>
    List.filter_eq_nil_iff.mpr fun l hl => by simp [hks l hl]
  rw [commonIndent, commonIndent, List.filter_append, List.filter_append, hnone hks, hnone hms,
    List.nil_append, List.append_nil]

theorem exists_dropBlankEnds (ls : List Text) : ∃ ks ms, ls = ks ++ (dropBlankEnds ls ++ ms) ∧
    (∀ l ∈ ks, Text.allBlank l = true) ∧ ∀ l ∈ ms, Text.allBlank l = true := by
  have hfront := List.takeWhile_append_dropWhile (p := Text.allBlank) (l := ls)
  have hback := List.takeWhile_append_dropWhile (p := Text.allBlank)
    (l := (ls.dropWhile Text.allBlank).reverse)
  refine ⟨ls.takeWhile Text.allBlank,
    ((ls.dropWhile Text.allBlank).reverse.takeWhile Text.allBlank).reverse, ?_,
    fun l hl => List.mem_takeWhile_imp hl,
    fun l hl => List.mem_takeWhile_imp (List.mem_reverse.mp hl)⟩
  rw [dropBlankEnds, ← List.reverse_append, hback, List.reverse_reverse, hfront]

theorem allBlank_join (h : ∀ l ∈ ls, Text.allBlank l = true) :
    Text.allBlank (Text.join "\n" ls) = true := by
  induction ls with
  | nil => rfl
  | cons l ls ih =>
    obtain ⟨hl, hls⟩ := List.forall_mem_cons.mp h
    cases ls with
    | nil => exact hl
    | cons m ls =>
      rw [Text.join_cons_cons, Text.allBlank_append, Text.allBlank_append, hl, ih hls]
      rfl

theorem exists_join_blankEnds {ks ms : List Text} (hls : ls ≠ [])
    (hks : ∀ l ∈ ks, Text.allBlank l = true) (hms : ∀ l ∈ ms, Text.allBlank l = true) :
    ∃ ws bs, Text.join "\n" (ks ++ (ls ++ ms)) = ws ++ (Text.join "\n" ls ++ bs) ∧
      Text.allBlank ws = true ∧ Text.allBlank bs = true := by
  have hfeed : Text.allBlank "\n" = true := by decide
  have hback : ∃ bs, Text.join "\n" (ls ++ ms) = Text.join "\n" ls ++ bs ∧
      Text.allBlank bs = true := by
    by_cases hnil : ms = []
    · exact ⟨[], by rw [hnil, List.append_nil, List.append_nil], rfl⟩
    · refine ⟨_, Text.join_append _ hls hnil, ?_⟩
      rw [Text.allBlank_append, hfeed, allBlank_join hms]
      rfl
  obtain ⟨bs, hback, hbs⟩ := hback
  by_cases hnil : ks = []
  · exact ⟨[], bs, by rw [hnil]; exact hback, rfl, hbs⟩
  · refine ⟨Text.join "\n" ks ++ "\n", bs, ?_, ?_, hbs⟩
    · rw [Text.join_append _ hnil (List.append_ne_nil_of_left_ne_nil hls ms), hback,
        List.append_assoc]
    · rw [Text.allBlank_append, hfeed, allBlank_join hks]
      rfl

theorem trim_of_last (ht : ∀ c ∈ t.getLast?, Text.isBlank c = false) :
    Text.trim t = Text.trimStart t := by
  refine Text.dropEndWhile_of_getLast? fun c hc => ht c ?_
  have hsplit := List.takeWhile_append_dropWhile (p := Text.isBlank) (l := t)
  rw [← Text.trimStart] at hsplit
  rw [← hsplit, List.getLast?_append_of_ne_nil _ (List.ne_nil_of_mem (List.mem_of_getLast? hc))]
  exact hc

theorem allBlank_dropIndent (k : Nat) (h : ∀ l ∈ ls, Text.allBlank l = true) :
    ∀ l ∈ ls.map (dropIndent k), Text.allBlank l = true := by
  intro l hl
  obtain ⟨m, hm, rfl⟩ := List.mem_map.mp hl
  rw [dropIndent, if_pos (h m hm)]
  rfl

section Lines

variable {first kept : Text} {rest others : List Text}

theorem exists_dedent_of_allBlank (hnil : first = []) (hkept : dropBlankEnds (first :: rest) ≠ []) :
    ∃ ws bs, Text.join "\n" (first :: rest.map (dropIndent (commonIndent rest))) =
        ws ++ (Text.join "\n" (dedent (dropBlankEnds (first :: rest))) ++ bs) ∧
      Text.allBlank ws = true ∧ Text.allBlank bs = true := by
  obtain ⟨ks, ms, hlines, hks, hms⟩ := exists_dropBlankEnds (first :: rest)
  have hcommon : commonIndent rest = commonIndent (dropBlankEnds (first :: rest)) := by
    have hrest : commonIndent ([first] ++ (rest ++ [])) = commonIndent rest :=
      commonIndent_blankEnds (by simp [hnil, Text.allBlank]) (by simp)
    rw [List.append_nil, List.singleton_append, hlines, commonIndent_blankEnds hks hms] at hrest
    exact hrest.symm
  have hfirst : first = dropIndent (commonIndent rest) first := by
    rw [hnil]
    rfl
  rw [hfirst, ← List.map_cons, ← hfirst, hlines, List.map_append, List.map_append, ← hlines, hcommon]
  exact exists_join_blankEnds (by simpa using hkept) (allBlank_dropIndent _ hks)
    (allBlank_dropIndent _ hms)

theorem exists_dedent_of_first (hlast : ∀ c ∈ first.getLast?, Text.isBlank c = false)
    (hfirst : Text.allBlank first = false)
    (hkept : dropBlankEnds (first :: rest) = kept :: others) :
    ∃ ws bs, Text.join "\n" (first :: rest.map (dropIndent (commonIndent rest))) =
        ws ++ (Text.join "\n" (Text.trim kept :: dedent others) ++ bs) ∧
      Text.allBlank ws = true ∧ Text.allBlank bs = true := by
  obtain ⟨ks, ms, hlines, hks, hms⟩ := exists_dropBlankEnds (first :: rest)
  rw [hkept] at hlines
  obtain ⟨rfl, hrest⟩ : kept = first ∧ others ++ ms = rest := by
    cases ks with
    | nil => exact ⟨(List.cons.inj hlines).1.symm, (List.cons.inj hlines).2.symm⟩
    | cons k ks =>
      obtain ⟨rfl, -⟩ := List.cons.inj hlines
      rw [hks first (by simp)] at hfirst
      cases hfirst
  have hcommon : commonIndent rest = commonIndent others := by
    rw [← hrest]
    show commonIndent ([] ++ (others ++ ms)) = commonIndent others
    exact commonIndent_blankEnds (by simp) hms
  have htrim := List.takeWhile_append_dropWhile (p := Text.isBlank) (l := kept)
  rw [← Text.trimStart, ← trim_of_last hlast] at htrim
  have hglue := Text.join_glue "\n" [] (rest.map (dropIndent (commonIndent others)))
    (kept.takeWhile Text.isBlank) (Text.trim kept)
  obtain ⟨ws, bs, hjoin, hws, hbs⟩ := exists_join_blankEnds
    (List.cons_ne_nil (Text.trim kept) (dedent others)) (List.forall_mem_nil _)
    (allBlank_dropIndent (commonIndent others) hms)
  rw [List.nil_append, List.cons_append, dedent, ← List.map_append, hrest] at hjoin
  rw [List.nil_append, List.nil_append, htrim, hjoin] at hglue
  refine ⟨kept.takeWhile Text.isBlank ++ ws, bs, ?_, ?_, hbs⟩
  · rw [hcommon, hglue, List.append_assoc]
    rfl
  · rw [Text.allBlank_append, hws, Text.allBlank, List.all_takeWhile]
    rfl

end Lines

/-- Normalising a text takes the blanks off the ends of what is left of it when its later lines are
dedented. -/
theorem exists_normalizeIndentation (raw : Text) : ∃ ws bs,
    dedentBehind (laterIndent raw) raw = ws ++ (normalizeIndentation raw ++ bs) ∧
      Text.allBlank ws = true ∧ Text.allBlank bs = true := by
  have hindent : laterIndent raw = commonIndent ((Text.lines raw).map Text.trimEnd).tail := by
    rw [laterIndent, ← List.map_tail, commonIndent_map_trimEnd]
  have hlast : ∀ l ∈ (Text.lines raw).map Text.trimEnd, ∀ c ∈ l.getLast?,
      Text.isBlank c = false := by
    intro l hl
    obtain ⟨m, -, rfl⟩ := List.mem_map.mp hl
    exact Text.getLast?_dropEndWhile Text.isBlank m
  rw [hindent, dedentBehind_eq_join, normalizeIndentation]
  generalize (Text.lines raw).map Text.trimEnd = lines at hlast
  cases lines with
  | nil => exact ⟨[], [], rfl, rfl, rfl⟩
  | cons first rest =>
    rw [List.tail_cons, Text.mapFirst, id]
    cases hkept : dropBlankEnds (first :: rest) with
    | nil =>
      obtain ⟨ks, ms, hlines, hks, hms⟩ := exists_dropBlankEnds (first :: rest)
      rw [hkept] at hlines
      have hall : ∀ l ∈ first :: rest, Text.allBlank l = true := by
        rw [hlines]
        exact List.forall_mem_append.mpr ⟨hks, hms⟩
      obtain ⟨hfirst, hrest⟩ := List.forall_mem_cons.mp hall
      refine ⟨_, [], (List.append_nil _).symm, ?_, rfl⟩
      exact allBlank_join (List.forall_mem_cons.mpr ⟨hfirst, allBlank_dropIndent _ hrest⟩)
    | cons kept others =>
      dsimp only
      cases hfirst : Text.allBlank first with
      | true =>
        rw [if_pos rfl, ← hkept]
        exact exists_dedent_of_allBlank ((Text.allBlank_iff (hlast first (by simp))).mp hfirst)
          (by rw [hkept]; simp)
      | false =>
        rw [if_neg Bool.false_ne_true]
        exact exists_dedent_of_first (hlast first (by simp)) hfirst hkept

end Procedure

end CanvasPage
