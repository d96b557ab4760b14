import CanvasPage.Proofs.Procedure.Parameter
import CanvasPage.Proofs.Script.Neutral
import CanvasPage.Proofs.Script.Leaving

namespace CanvasPage.Parameter

open Script

/-- A character that is neither a bracket nor an angle bracket. -/
def isLevel (c : Char) : Bool := !(opensBracket c || closesBracket c || c == '>')

def isOrdinary (c : Char) : Bool := !(isQuote c || isBacktick c) && isLevel c

/-- A string ends at the next quote that no backslash precedes. -/
structure IsString (q : Char) (body : Text) : Prop where
  quote : (isQuote q || isBacktick q) = true
  inside : ∀ a, a <+: body → ((State.start.step q).run a).isCode = false
  ends : (State.start.step q).run (body ++ [q]) = .start
  escaped : ∀ a b, body = a ++ q :: b → a.getLast? = some '\\'
  last : body.getLast? ≠ some '\\'

/-- The characters that a text may have outside of brackets and strings, in strings outside of
brackets and in strings in brackets, and whether it may have arrows. -/
structure Kind where
  plain : Char → Bool
  string : Char → Bool
  nested : Char → Bool
  arrows : Bool

def pairs : List (Char × Char) := [('(', ')'), ('[', ']'), ('\x7b', '\x7d'), ('<', '>')]

/-- Brackets and angle brackets pair, strings and comments end, and comments have no quotes and no
brackets. The text stands outside of brackets if it is `outer`. -/
inductive IsPaired (k : Kind) : (outer : Bool) → Text → Prop where
  | nil {outer : Bool} : IsPaired k outer []
  | char {outer : Bool} {c : Char} {t : Text} (hc : isOrdinary c = true)
      (hplain : outer = true → k.plain c = true)
      (hslash : c = '/' → ∀ d ∈ t.head?, d ≠ '/' ∧ d ≠ '*') (ht : IsPaired k outer t) :
      IsPaired k outer (c :: t)
  | arrow {outer : Bool} {t : Text} (harrows : k.arrows = true) (ht : IsPaired k outer t) :
      IsPaired k outer ('=' :: '>' :: t)
  | greater {t : Text} (ht : IsPaired k true t) : IsPaired k true ('>' :: t)
  | comment {outer : Bool} {w t : Text} (hends : State.start.run w = .start)
      (hchars : ∀ c ∈ w, isOrdinary c = true ∧ (outer = true → k.plain c = true))
      (ht : IsPaired k outer t) : IsPaired k outer (w ++ t)
  | string {outer : Bool} {q : Char} {body t : Text} (hbody : IsString q body)
      (hchars : ∀ c ∈ body, (if outer then k.string c else k.nested c) = true)
      (ht : IsPaired k outer t) : IsPaired k outer (q :: (body ++ q :: t))
  | bracketed {outer : Bool} {o c : Char} {u t : Text} (hpair : (o, c) ∈ pairs)
      (hu : IsPaired k false u) (hlast : c = '>' → u.getLast? ≠ some '=')
      (ht : IsPaired k outer t) : IsPaired k outer (o :: (u ++ c :: t))

def lastOr (previous : Option Char) (t : Text) : Option Char := t.foldl (fun _ c => some c) previous

variable {k : Kind} {outer : Bool} {c o q : Char} {t u w body rest : Text} {depth : Nat}
  {previous : Option Char}

section Characters

theorem lastOr_append (previous : Option Char) (t u : Text) :
    lastOr previous (t ++ u) = lastOr (lastOr previous t) u := List.foldl_append

theorem lastOr_eq (previous : Option Char) (t : Text) :
    lastOr previous t = t.getLast?.or previous := by
  induction t generalizing previous with
  | nil => rfl
  | cons c t ih =>
    have hcons : lastOr previous (c :: t) = lastOr (some c) t := rfl
    rw [hcons, ih, List.getLast?_cons]
    cases t.getLast? <;> rfl

theorem depthAfter_of_isLevel (hc : isLevel c = true) (depth : Nat) (previous : Option Char) :
    depthAfter depth previous c = depth := by
  simp only [isLevel, Bool.not_eq_true', Bool.or_eq_false_iff] at hc
  simp [depthAfter, closesAngle, hc]

theorem pair_cases (h : (o, c) ∈ pairs) :
    opensBracket o = true ∧ opensBracket c = false ∧ (closesBracket c = true ∨ c = '>') := by
  have hpairs : ∀ p ∈ pairs, opensBracket p.1 = true ∧ opensBracket p.2 = false ∧
      (closesBracket p.2 = true ∨ p.2 = '>') := by decide
  exact hpairs (o, c) h

theorem depthAfter_opener (h : (o, c) ∈ pairs) (depth : Nat) (previous : Option Char) :
    depthAfter depth previous o = depth + 1 := by
  simp [depthAfter, (pair_cases h).1]

theorem depthAfter_closer (h : (o, c) ∈ pairs) (hu : c = '>' → u.getLast? ≠ some '=')
    (depth : Nat) : depthAfter (depth + 1) (lastOr (some o) u) c = depth := by
  obtain ⟨ho, hopen, hclose⟩ := pair_cases h
  rcases hclose with hclose | rfl
  · simp [depthAfter, hopen, hclose]
  · have hne : o ≠ '=' := by
      rintro rfl
      exact absurd ho (by decide)
    have hangle : closesAngle (lastOr (some o) u) '>' = true := by
      rw [closesAngle, lastOr_eq]
      cases hlast : u.getLast? with
      | none => simpa using hne
      | some d =>
        have hd : d ≠ '=' := by
          rintro rfl
          exact hu rfl hlast
        simpa using hd
    simp [depthAfter, hopen, hangle]

theorem depthAfter_zero_greater (previous : Option Char) : depthAfter 0 previous '>' = 0 := by
  simp [depthAfter, opensBracket]

theorem isQuote_of_pair (h : (o, c) ∈ pairs) :
    (isQuote o || isBacktick o) = false ∧ (isQuote c || isBacktick c) = false ∧ o ≠ ',' ∧ c ≠ ',' ∧
      o ≠ '=' ∧ c ≠ '=' := by
  have hpairs : ∀ p ∈ pairs, (isQuote p.1 || isBacktick p.1) = false ∧
      (isQuote p.2 || isBacktick p.2) = false ∧ p.1 ≠ ',' ∧ p.2 ≠ ',' ∧ p.1 ≠ '=' ∧ p.2 ≠ '=' := by
    decide
  exact hpairs (o, c) h

theorem ne_colon_of_pair (h : (o, c) ∈ pairs) : o ≠ ':' ∧ c ≠ ':' := by
  have hpairs : ∀ p ∈ pairs, p.1 ≠ ':' ∧ p.2 ≠ ':' := by decide
  exact hpairs (o, c) h

theorem isLevel_of_quote (h : (isQuote q || isBacktick q) = true) :
    isLevel q = true ∧ q ≠ '=' ∧ q ≠ ':' := by
  have hquotes : ∀ q ∈ ['\'', '"', Char.ofNat 96], isLevel q = true ∧ q ≠ '=' ∧ q ≠ ':' := by decide
  refine hquotes q ?_
  have hbacktick : q = Char.ofNat 96 ↔ q.toNat = 96 := Char.toNat_inj.symm
  simp only [isQuote, isBacktick, Bool.or_eq_true, beq_iff_eq] at h
  simp only [List.mem_cons, List.not_mem_nil, or_false, hbacktick]
  exact or_assoc.mp h

theorem isOrdinary_iff :
    isOrdinary c = true ↔ (isQuote c || isBacktick c) = false ∧ isLevel c = true := by
  rw [isOrdinary, Bool.and_eq_true, Bool.not_eq_true']

theorem forall_mem_string {d : Char} (hbody : IsString q body) (hd : q ≠ d)
    (hstring : ∀ c, k.string c = true → isLevel c = true ∧ c ≠ d)
    (hnested : ∀ c, k.nested c = true → isLevel c = true)
    (hchars : ∀ c ∈ body, (if outer then k.string c else k.nested c) = true)
    (hdepth : outer = true ↔ depth = 0) :
    ∀ c ∈ q :: (body ++ [q]), isLevel c = true ∧ (c = d → depth ≠ 0) := by
  have hends : isLevel q = true ∧ (q = d → depth ≠ 0) :=
    ⟨(isLevel_of_quote hbody.quote).1, fun h => absurd h hd⟩
  refine List.forall_mem_cons.mpr ⟨hends, List.forall_mem_append.mpr
    ⟨fun c hc => ?_, List.forall_mem_singleton.mpr hends⟩⟩
  have hchar := hchars c hc
  cases outer with
  | true =>
    obtain ⟨hlevel, hne⟩ := hstring c hchar
    exact ⟨hlevel, fun h => absurd h hne⟩
  | false => exact ⟨hnested c hchar, fun _ hzero => absurd (hdepth.mpr hzero) (by simp)⟩

theorem ne_of_plain {d : Char} (hk : k.plain d = false) (hplain : outer = true → k.plain c = true)
    (hdepth : outer = true ↔ depth = 0) : c = d → depth ≠ 0 := by
  rintro rfl hzero
  rw [hplain (hdepth.mpr hzero)] at hk
  cases hk

end Characters

theorem mem_markers (h : isOrdinary c = false) : c ∈ markers := by
  have hbacktick : c = Char.ofNat 96 ↔ c.toNat = 96 := Char.toNat_inj.symm
  simp only [isOrdinary, isLevel, isQuote, isBacktick, opensBracket, closesBracket,
    Bool.and_eq_false_iff, Bool.not_eq_false', Bool.or_eq_true, beq_iff_eq, List.contains_iff_mem] at h
  have hmarkers : ∀ {u : Text}, u ⊆ markers → c ∈ u → c ∈ markers := fun hu hc => hu hc
  rcases h with ((rfl | rfl) | h) | ((h | h) | rfl)
  · decide
  · decide
  · rw [hbacktick.mpr h]
    decide
  · exact hmarkers (by decide) h
  · exact hmarkers (by decide) h
  · decide

theorem isOrdinary_of_continuesIdentifier (hc : Text.continuesIdentifier c = true) :
    isOrdinary c = true := by
  cases hordinary : isOrdinary c with
  | true => rfl
  | false => exact absurd rfl (ne_marker hc c (mem_markers hordinary))

theorem IsPaired.blank (hk : k.plain ' ' = true) (ht : IsPaired k outer t) :
    IsPaired k outer (' ' :: t) :=
  .char (by decide) (fun _ => hk) (fun h => absurd h (by decide)) ht

theorem IsPaired.append (ht : IsPaired k outer t) (hu : IsPaired k outer u)
    (hhead : ∀ c ∈ u.head?, c ≠ '/' ∧ c ≠ '*') : IsPaired k outer (t ++ u) := by
  induction ht with
  | nil => exact hu
  | char hc hplain hslash _ ih =>
    refine .char hc hplain (fun h d hd => ?_) (ih hu)
    rename_i t _
    cases t with
    | nil => exact hhead d hd
    | cons => exact hslash h d hd
  | comment hends hchars _ ih =>
    rw [List.append_assoc]
    exact .comment hends hchars (ih hu)
  | arrow harrows _ ih => exact .arrow harrows (ih hu)
  | greater _ ih => exact .greater (ih hu)
  | string hbody hchars _ ih =>
    rw [List.cons_append, List.append_assoc]
    exact .string hbody hchars (ih hu)
  | bracketed hpair hinner hlast _ _ ih =>
    rw [List.cons_append, List.append_assoc]
    exact .bracketed hpair hinner hlast (ih hu)

section Reading

/-- What a reader that counts brackets makes of the parts of a text in which brackets pair, where
`P depth previous w n` says that from `depth`, behind `previous`, it reads `w` and goes on at `n`. -/
structure ReadsPairs (k : Kind) (P : Nat → Option Char → Text → Nat → Prop) : Prop where
  nil {depth : Nat} {previous : Option Char} : P depth previous [] depth
  append {l m n : Nat} {previous : Option Char} {w t : Text} (hw : P l previous w m)
      (ht : P m (lastOr previous w) t n) : P l previous (w ++ t) n
  chars {outer : Bool} {depth : Nat} {previous : Option Char} {w : Text}
      (hdepth : outer = true ↔ depth = 0)
      (hw : ∀ c ∈ w, isOrdinary c = true ∧ (outer = true → k.plain c = true)) :
      P depth previous w depth
  arrow {depth : Nat} {previous : Option Char} (harrows : k.arrows = true) :
      P depth previous ['=', '>'] depth
  greater {previous : Option Char} : P 0 previous ['>'] 0
  string {outer : Bool} {depth : Nat} {previous : Option Char} {q : Char} {body : Text}
      (hdepth : outer = true ↔ depth = 0) (hbody : IsString q body)
      (hchars : ∀ c ∈ body, (if outer then k.string c else k.nested c) = true) :
      P depth previous (q :: (body ++ [q])) depth
  opener {depth : Nat} {previous : Option Char} {o c : Char} (hpair : (o, c) ∈ pairs) :
      P depth previous [o] (depth + 1)
  closer {depth : Nat} {o c : Char} {u : Text} (hpair : (o, c) ∈ pairs)
      (hu : c = '>' → u.getLast? ≠ some '=') : P (depth + 1) (lastOr (some o) u) [c] depth

/-- The reader comes out of the text at the depth it went in. -/
theorem IsPaired.reads {P : Nat → Option Char → Text → Nat → Prop} (h : IsPaired k outer t)
    (hP : ReadsPairs k P) (hdepth : outer = true ↔ depth = 0) (previous : Option Char) :
    P depth previous t depth := by
  induction h generalizing depth previous with
  | nil => exact hP.nil
  | @char outer c t hc hplain _ _ ih =>
    exact hP.append (w := [c]) (hP.chars hdepth (List.forall_mem_singleton.mpr ⟨hc, hplain⟩))
      (ih hdepth _)
  | @arrow outer t harrows _ ih =>
    exact hP.append (w := ['=', '>']) (hP.arrow harrows) (ih hdepth _)
  | @greater t _ ih =>
    obtain rfl := hdepth.mp rfl
    exact hP.append (w := ['>']) hP.greater (ih hdepth _)
  | comment _ hchars _ ih => exact hP.append (hP.chars hdepth hchars) (ih hdepth _)
  | @string outer q body t hbody hchars _ ih =>
    have hsplit : q :: (body ++ q :: t) = (q :: (body ++ [q])) ++ t := by simp
    rw [hsplit]
    exact hP.append (hP.string hdepth hbody hchars) (ih hdepth _)
  | @bracketed outer o c u t hpair _ hlast _ ihu iht =>
    have hinner : P (depth + 1) (some o) u (depth + 1) := ihu (by simp) _
    exact hP.append (w := [o]) (hP.opener hpair)
      (hP.append hinner (hP.append (w := [c]) (hP.closer hpair hlast) (iht hdepth _)))

end Reading

section Commas

theorem splitFrom_step (hquote : (isQuote c || isBacktick c) = false)
    (hcomma : c = ',' → depth ≠ 0) : splitFrom depth none previous (c :: t) =
      consFirst c (splitFrom (depthAfter depth previous c) none (some c) t) := by
  have hsplit : (c == ',' && depth == 0) = false := by
    simpa using hcomma
  rw [splitFrom]
  simp only [hquote, hsplit, Bool.false_eq_true, if_false]

theorem splitFrom_of_isOrdinary (hw : ∀ c ∈ w, isOrdinary c = true ∧ (c = ',' → depth ≠ 0))
    (previous : Option Char) (rest : Text) : splitFrom depth none previous (w ++ rest) =
      w.foldr consFirst (splitFrom depth none (lastOr previous w) rest) := by
  induction w generalizing previous with
  | nil => rfl
  | cons c w ih =>
    obtain ⟨⟨hc, hcomma⟩, hw⟩ := List.forall_mem_cons.mp hw
    obtain ⟨hquote, hlevel⟩ := isOrdinary_iff.mp hc
    rw [List.cons_append, splitFrom_step hquote hcomma, depthAfter_of_isLevel hlevel, ih hw]
    rfl

theorem splitFrom_string (hbody : IsString q body) (depth : Nat) (previous : Option Char)
    (rest : Text) : splitFrom depth none previous (q :: (body ++ q :: rest)) =
      (q :: (body ++ [q])).foldr consFirst (splitFrom depth none (some q) rest) := by
  have hne : q ≠ '\\' := by
    rintro rfl
    exact absurd hbody.quote (by decide)
  have hend := hbody.last
  have hstep : ∀ a w, body = a ++ w →
      splitFrom depth (some q) (lastOr (some q) a) (w ++ q :: rest) =
        (w ++ [q]).foldr consFirst (splitFrom depth none (some q) rest) := by
    intro a w hsplit
    induction w generalizing a with
    | nil =>
      have hlast : lastOr (some q) a ≠ some '\\' := by
        rw [lastOr_eq]
        cases ha : a.getLast? with
        | none => simpa using hne
        | some d =>
          rw [hsplit, List.append_nil, ha] at hend
          exact hend
      rw [List.nil_append, splitFrom]
      simp [hlast]
    | cons c w ih =>
      have hopen : ¬ ((c == q && lastOr (some q) a != some '\\') = true) := by
        rw [Bool.and_eq_true, beq_iff_eq, bne_iff_ne, not_and, not_not]
        rintro rfl
        rw [lastOr_eq, hbody.escaped a w hsplit]
        rfl
      have hrest := ih (a ++ [c]) (by rw [hsplit, List.append_assoc]; rfl)
      rw [lastOr_append] at hrest
      rw [List.cons_append, splitFrom, if_neg hopen]
      exact congrArg (consFirst c) hrest
  have hopen : splitFrom depth none previous (q :: (body ++ q :: rest)) =
      consFirst q (splitFrom depth (some q) (some q) (body ++ q :: rest)) := by
    rw [splitFrom]
    simp only [hbody.quote, if_true]
  rw [hopen]
  exact congrArg (consFirst q) (hstep [] body rfl)

def KeepsCommas (depth : Nat) (previous : Option Char) (w : Text) (n : Nat) : Prop :=
  ∀ rest, splitFrom depth none previous (w ++ rest) =
    w.foldr consFirst (splitFrom n none (lastOr previous w) rest)

theorem KeepsCommas.append {m n : Nat} (hw : KeepsCommas depth previous w m)
    (ht : KeepsCommas m (lastOr previous w) t n) : KeepsCommas depth previous (w ++ t) n := by
  intro rest
  rw [List.append_assoc, hw, ht, ← List.foldr_append, ← lastOr_append]

theorem keepsCommas_singleton {n : Nat} (hquote : (isQuote c || isBacktick c) = false) (hc : c ≠ ',')
    (hn : depthAfter depth previous c = n) : KeepsCommas depth previous [c] n := by
  subst hn
  exact fun _ => splitFrom_step hquote fun h => absurd h hc

theorem readsPairs_keepsCommas (hk : k.plain ',' = false) : ReadsPairs k KeepsCommas where
  nil _ := rfl
  append := KeepsCommas.append
  chars hdepth hw := splitFrom_of_isOrdinary
    (fun c hc => ⟨(hw c hc).1, ne_of_plain hk (hw c hc).2 hdepth⟩) _
  arrow {depth previous} _ := by
    have hequals : KeepsCommas depth previous ['='] depth :=
      keepsCommas_singleton (by decide) (by decide) (depthAfter_of_isLevel (by decide) _ _)
    exact hequals.append (keepsCommas_singleton (by decide) (by decide) rfl)
  greater := keepsCommas_singleton (by decide) (by decide) (depthAfter_zero_greater _)
  string {_ depth previous q body} _ hbody _ rest := by
    have hlast : lastOr previous (q :: (body ++ [q])) = some q := by
      rw [lastOr_eq, ← List.cons_append, List.getLast?_concat, Option.some_or]
    rw [hlast, ← splitFrom_string hbody, List.cons_append, List.append_assoc]
    rfl
  opener hpair := by
    obtain ⟨ho, -, hcomma, -⟩ := isQuote_of_pair hpair
    exact keepsCommas_singleton ho hcomma (depthAfter_opener hpair _ _)
  closer hpair hu := by
    obtain ⟨-, hc, -, hcomma, -⟩ := isQuote_of_pair hpair
    exact keepsCommas_singleton hc hcomma (depthAfter_closer hpair hu _)

/-- No comma of the text divides a list. -/
def Passes (t : Text) : Prop :=
  ∀ previous rest, splitFrom 0 none previous (t ++ rest) =
    t.foldr consFirst (splitFrom 0 none (lastOr previous t) rest)

theorem Passes.append (ht : Passes t) (hu : Passes u) : Passes (t ++ u) :=
  fun previous => KeepsCommas.append (ht previous) (hu _)

theorem passes_of_isOrdinary (hw : ∀ c ∈ w, isOrdinary c = true ∧ c ≠ ',') : Passes w :=
  splitFrom_of_isOrdinary fun c hc => ⟨(hw c hc).1, fun h => absurd h (hw c hc).2⟩

theorem passes_of_isPaired (hk : k.plain ',' = false) (h : IsPaired k true t) : Passes t :=
  h.reads (readsPairs_keepsCommas hk) (by simp)

theorem split_join {ts : List Text} (hts : ∀ t ∈ ts, Passes t) (hne : ts ≠ []) :
    split (Text.join "," ts) = ts := by
  have hsplit : ∀ previous, splitFrom 0 none previous (Text.join "," ts) = ts := by
    induction ts with
    | nil => exact absurd rfl hne
    | cons t ts ih =>
      obtain ⟨ht, hts⟩ := List.forall_mem_cons.mp hts
      intro previous
      cases ts with
      | nil =>
        have hlast := ht previous []
        rw [List.append_nil] at hlast
        rw [Text.join, hlast, splitFrom, foldr_consFirst, List.append_nil]
      | cons u ts =>
        have hcomma : splitFrom 0 none (lastOr previous t) ("," ++ Text.join "," (u :: ts)) =
            [] :: splitFrom 0 none (some ',') (Text.join "," (u :: ts)) := rfl
        rw [Text.join_cons_cons, ht, hcomma, ih hts (List.cons_ne_nil u ts), foldr_consFirst,
          List.append_nil]
  exact hsplit none

end Commas

section Defaults

theorem splitDefault_step (hc : c = '=' → depth = 0 → isCompound previous t.head? = true) :
    splitDefault depth previous (c :: t) =
      (splitDefault (depthAfter depth previous c) (some c) t).map fun (head, value) =>
        (c :: head, value) := by
  have hskip : ¬ (c == '=' && depth == 0 && !isCompound previous t.head?) = true := by
    simpa using hc
  rw [splitDefault, if_neg hskip]

theorem splitDefault_of_isLevel (hw : ∀ c ∈ w, isLevel c = true ∧ (c = '=' → depth ≠ 0))
    (previous : Option Char) (rest : Text) :
    splitDefault depth previous (w ++ rest) =
      (splitDefault depth (lastOr previous w) rest).map fun (head, value) => (w ++ head, value) := by
  induction w generalizing previous with
  | nil => simp [lastOr]
  | cons c w ih =>
    obtain ⟨⟨hlevel, hequals⟩, hw⟩ := List.forall_mem_cons.mp hw
    rw [List.cons_append, splitDefault_step (fun hc hdepth => absurd hdepth (hequals hc)),
      depthAfter_of_isLevel hlevel, ih hw, Option.map_map]
    rfl

def KeepsEquals (depth : Nat) (previous : Option Char) (w : Text) (n : Nat) : Prop :=
  ∀ rest, splitDefault depth previous (w ++ rest) =
    (splitDefault n (lastOr previous w) rest).map fun (head, value) => (w ++ head, value)

theorem KeepsEquals.append {m n : Nat} (hw : KeepsEquals depth previous w m)
    (ht : KeepsEquals m (lastOr previous w) t n) : KeepsEquals depth previous (w ++ t) n := by
  intro rest
  rw [List.append_assoc, hw, ht, Option.map_map, ← lastOr_append]
  refine congrArg (Option.map · _) (funext fun pair => ?_)
  simp

theorem keepsEquals_singleton {n : Nat} (hc : c ≠ '=') (hn : depthAfter depth previous c = n) :
    KeepsEquals depth previous [c] n := by
  subst hn
  exact fun _ => splitDefault_step fun h => absurd h hc

theorem keepsEquals_arrow : KeepsEquals depth previous ['=', '>'] depth := by
  intro rest
  have hangle : splitDefault depth (some '=') ('>' :: rest) =
      (splitDefault depth (some '>') rest).map fun (head, value) => ('>' :: head, value) :=
    keepsEquals_singleton (by decide) rfl rest
  rw [List.cons_append, List.cons_append, List.nil_append,
    splitDefault_step fun _ _ => by simp [isCompound], depthAfter_of_isLevel (by decide), hangle,
    Option.map_map]
  rfl

theorem readsPairs_keepsEquals (hk : k.plain '=' = false)
    (hstring : ∀ c, k.string c = true → isLevel c = true ∧ c ≠ '=')
    (hnested : ∀ c, k.nested c = true → isLevel c = true) : ReadsPairs k KeepsEquals where
  nil _ := by simp [lastOr]
  append := KeepsEquals.append
  chars hdepth hw := splitDefault_of_isLevel (fun c hc =>
    ⟨(isOrdinary_iff.mp (hw c hc).1).2, ne_of_plain hk (hw c hc).2 hdepth⟩) _
  arrow _ := keepsEquals_arrow
  greater := keepsEquals_singleton (by decide) (depthAfter_zero_greater _)
  string hdepth hbody hchars := splitDefault_of_isLevel
    (forall_mem_string hbody (isLevel_of_quote hbody.quote).2.1 hstring hnested hchars hdepth) _
  opener hpair := by
    obtain ⟨-, -, -, -, ho, -⟩ := isQuote_of_pair hpair
    exact keepsEquals_singleton ho (depthAfter_opener hpair _ _)
  closer hpair hu := by
    obtain ⟨-, -, -, -, -, hc⟩ := isQuote_of_pair hpair
    exact keepsEquals_singleton hc (depthAfter_closer hpair hu _)

end Defaults

section Types

theorem beforeType_step (hc : c = ':' → depth ≠ 0) : beforeType depth (c :: t) =
    c :: beforeType (if opensBracket c then depth + 1
      else if closesBracket c || c == '>' then depth - 1 else depth) t := by
  have hskip : ¬ (c == ':' && depth == 0) = true := by
    simpa using hc
  rw [beforeType, if_neg hskip]

theorem beforeType_of_isLevel (hw : ∀ c ∈ w, isLevel c = true ∧ (c = ':' → depth ≠ 0))
    (rest : Text) : beforeType depth (w ++ rest) = w ++ beforeType depth rest := by
  induction w with
  | nil => rfl
  | cons c w ih =>
    obtain ⟨⟨hlevel, hcolon⟩, hw⟩ := List.forall_mem_cons.mp hw
    simp only [isLevel, Bool.not_eq_true', Bool.or_eq_false_iff] at hlevel
    rw [List.cons_append, beforeType_step hcolon]
    simp [hlevel, ih hw]

theorem readsPairs_keepsColons (hk : k.plain ':' = false) (harrows : k.arrows = false)
    (hstring : ∀ c, k.string c = true → isLevel c = true ∧ c ≠ ':')
    (hnested : ∀ c, k.nested c = true → isLevel c = true) :
    ReadsPairs k fun depth _ w n => ∀ rest, beforeType depth (w ++ rest) = w ++ beforeType n rest where
  nil _ := rfl
  append hw ht rest := by rw [List.append_assoc, hw, ht, List.append_assoc]
  chars hdepth hw := beforeType_of_isLevel fun c hc =>
    ⟨(isOrdinary_iff.mp (hw c hc).1).2, ne_of_plain hk (hw c hc).2 hdepth⟩
  arrow h := by
    rw [harrows] at h
    cases h
  greater _ := beforeType_step (by simp)
  string hdepth hbody hchars := beforeType_of_isLevel
    (forall_mem_string hbody (isLevel_of_quote hbody.quote).2.2 hstring hnested hchars hdepth)
  opener hpair rest := by
    rw [List.singleton_append, beforeType_step (fun h => absurd h (ne_colon_of_pair hpair).1),
      if_pos (pair_cases hpair).1]
    rfl
  closer {depth o c u} hpair _ rest := by
    obtain ⟨-, hopen, hclose⟩ := pair_cases hpair
    have hcloses : (closesBracket c || c == '>') = true := by
      rw [Bool.or_eq_true, beq_iff_eq]
      exact hclose
    rw [List.singleton_append, beforeType_step (fun h => absurd h (ne_colon_of_pair hpair).2), hopen,
      if_neg Bool.false_ne_true, if_pos hcloses, Nat.add_sub_cancel]
    rfl

end Types

section Code

theorem neutral_cons {s : State} (hc : ∀ b : Bracket, c ≠ b.opener ∧ c ≠ b.closer)
    (h : Neutral (s.step c) t) : Neutral s (c :: t) := by
  refine ⟨h.isCode, fun b depth => ?_⟩
  rw [depthAfter?_of_ne (hc b).1 (hc b).2, h.depth]

theorem ne_bracket (hc : isLevel c = true) (b : Bracket) : c ≠ b.opener ∧ c ≠ b.closer := by
  have hbrackets : isLevel b.opener = false ∧ isLevel b.closer = false := by
    cases b <;> decide
  constructor
  · rintro rfl
    rw [hbrackets.1] at hc
    cases hc
  · rintro rfl
    rw [hbrackets.2] at hc
    cases hc

theorem depthAfter?_of_inside {b : Bracket} {s : State}
    (h : ∀ a c, a ++ [c] <+: w → (s.run a).isCode = false) : b.depthAfter? depth s w = some depth := by
  induction w generalizing s with
  | nil => rfl
  | cons c w ih =>
    have hs : s.isCode = false := h [] c ⟨w, rfl⟩
    rw [depthAfter?_of_not_isCode hs]
    exact ih fun a d ha => h (c :: a) d ((List.prefix_cons_inj c).mpr ha)

theorem IsString.neutral (h : IsString q body) : Neutral .start (q :: (body ++ [q])) := by
  have hrun : State.start.run (q :: (body ++ [q])) = .start := h.ends
  refine ⟨by rw [hrun]; rfl, fun b depth => ?_⟩
  obtain ⟨ho, hc⟩ := ne_bracket (isLevel_of_quote h.quote).1 b
  rw [depthAfter?_of_ne ho hc]
  refine depthAfter?_of_inside fun a d ha => h.inside a ?_
  rcases List.prefix_concat_iff.mp ha with heq | ha
  · obtain ⟨rfl, -⟩ := List.append_singleton_inj.mp heq
    exact List.prefix_rfl
  · exact (List.prefix_append a [d]).trans ha

theorem run_enclose (b : Bracket) (hu : Neutral .start u) :
    State.start.run (b.opener :: (u ++ [b.closer])) = .start := by
  rw [State.run_cons, b.step_opener_of_isCode rfl, State.run_append]
  exact b.step_closer_of_isCode hu.isCode

theorem neutral_of_pair (hpair : (o, c) ∈ pairs) (hu : Neutral .start u) :
    Neutral .start (o :: (u ++ [c])) ∧ State.start.run (o :: (u ++ [c])) = .start := by
  have henclose : ∀ b : Bracket, Neutral .start (b.opener :: (u ++ [b.closer])) ∧
      State.start.run (b.opener :: (u ++ [b.closer])) = .start := fun b =>
    ⟨hu.enclose rfl b, run_enclose b hu⟩
  simp only [pairs, List.mem_cons, Prod.mk.injEq, List.not_mem_nil, or_false] at hpair
  rcases hpair with ⟨rfl, rfl⟩ | ⟨rfl, rfl⟩ | ⟨rfl, rfl⟩ | ⟨rfl, rfl⟩
  · exact henclose .paren
  · exact henclose .square
  · exact henclose .brace
  · have hangle : Neutral (State.start.run u) ['>'] :=
      neutral_cons_of_isPlain hu.isCode (by decide) (neutral_nil rfl)
    refine ⟨neutral_cons_of_isPlain rfl (by decide) (hu.append hangle), ?_⟩
    rw [State.run_cons, State.run_append]
    exact step_of_isPlain hu.isCode (by decide)

theorem neutral_of_isLevel {s : State} (hrun : (s.run w).isCode = true)
    (hw : ∀ c ∈ w, isLevel c = true) : Neutral s w := by
  refine ⟨hrun, fun b depth => ?_⟩
  clear hrun
  induction w generalizing s with
  | nil => rfl
  | cons c w ih =>
    obtain ⟨hc, hw⟩ := List.forall_mem_cons.mp hw
    rw [depthAfter?_of_ne (ne_bracket hc b).1 (ne_bracket hc b).2]
    exact ih hw

theorem IsPaired.neutral (h : IsPaired k outer t) : Neutral .start t := by
  induction h with
  | nil => exact neutral_nil rfl
  | @char outer c t hc _ hslash _ ih =>
    obtain ⟨hquote, hlevel⟩ := isOrdinary_iff.mp hc
    refine neutral_cons (ne_bracket hlevel) ?_
    rw [step_start hquote]
    split
    · rename_i hc
      have hnext := hslash (beq_iff_eq.mp hc)
      refine inert_of_isClosed (isClosed_of_neutral ih) ?_ ?_ _ rfl
      · exact fun h => (hnext '/' h).1 rfl
      · exact fun h => (hnext '*' h).2 rfl
    · exact ih
  | comment hends hchars _ ih =>
    have hw := neutral_of_isLevel (by rw [hends]; rfl) fun c hc =>
      (isOrdinary_iff.mp (hchars c hc).1).2
    exact hw.append (by rwa [hends])
  | arrow _ _ ih =>
    exact neutral_cons_of_isPlain rfl (by decide) (neutral_cons_of_isPlain rfl (by decide) ih)
  | greater _ ih => exact neutral_cons_of_isPlain rfl (by decide) ih
  | @string outer q body t hbody _ _ ih =>
    have hsplit : q :: (body ++ q :: t) = (q :: (body ++ [q])) ++ t := by simp
    have hrun : State.start.run (q :: (body ++ [q])) = .start := hbody.ends
    rw [hsplit]
    exact hbody.neutral.append (by rwa [hrun])
  | @bracketed outer o c u t hpair _ _ _ ihu iht =>
    have henclosed : Neutral .start (o :: (u ++ [c])) ∧ State.start.run (o :: (u ++ [c])) = .start :=
      neutral_of_pair hpair ihu
    have hsplit : o :: (u ++ c :: t) = (o :: (u ++ [c])) ++ t := by simp
    rw [hsplit]
    exact henclosed.1.append (by rwa [henclosed.2])

end Code

end CanvasPage.Parameter
