import CanvasPage.Proofs.Pattern.Front
import CanvasPage.Proofs.Procedure.CallEnd

namespace CanvasPage

namespace Pattern

variable {pattern : Pattern} {before u : Text}

theorem replaceFrom_of_lineBreak {new : Occurrence → Text} (hend : pattern.isOpenEnded = true)
    (hnew : IsTextual new) (hfree : pattern.isUnanchored = true)
    (h : ∀ w after gs, '\n' :: u = w ++ after → w ≠ [] → ¬ pattern.Reads before w after gs) :
    pattern.replaceFrom new 0 before ('\n' :: u) = '\n' :: pattern.replaceAll new u := by
  have hignores : pattern.Ignores ('\n' :: before) [] := .inr (.inr ⟨hfree, rfl⟩)
  rw [replaceFrom, at?_eq_none_of_reads h]
  exact congrArg ('\n' :: ·) (replaceFrom_frame hend hnew hignores 0 u)

theorem occurrencesFrom_of_lineBreak (hend : pattern.isOpenEnded = true)
    (hfree : pattern.isUnanchored = true)
    (h : ∀ w after gs, '\n' :: u = w ++ after → w ≠ [] → ¬ pattern.Reads before w after gs) :
    pattern.occurrencesFrom 0 before ('\n' :: u) =
      (pattern.occurrences u).map (.frame ('\n' :: before) []) := by
  have hignores : pattern.Ignores ('\n' :: before) [] := .inr (.inr ⟨hfree, rfl⟩)
  rw [occurrencesFrom, at?_eq_none_of_reads h]
  exact occurrencesFrom_frame hend hignores 0 u

theorem not_reads_of_head? (h : ∀ {before w after gs}, pattern.Reads before w after gs →
      w.head? ≠ some '\n') : ∀ w after gs, '\n' :: u = w ++ after → w ≠ [] →
        ¬ pattern.Reads before w after gs := by
  intro w after gs hsplit hne hread
  obtain ⟨c, w, rfl⟩ := List.exists_cons_of_ne_nil hne
  exact h hread (congrArg some (List.cons.inj hsplit).1.symm)

end Pattern

namespace Substitution

open Pattern Script

variable {before v after u : Text} {gs : GroupTexts}

/-- Blanks and the word `as` with a blank behind it. -/
def BeginsCast (t : Text) : Prop :=
  ∃ bs b r, t = bs ++ 'a' :: 's' :: b :: r ∧ (∀ c ∈ bs, Text.isBlank c = true) ∧
    Text.isBlank b = true

theorem not_reads_cast_lineBreak (hu : ¬ BeginsCast u) {w : Text} (hsplit : '\n' :: u = w ++ after) :
    ¬ cast.pattern.Reads before w after gs := by
  intro hread
  obtain ⟨ws, bs, v, rfl, hne, hws, hbs, hblank, -⟩ := exists_of_reads_cast hread
  obtain ⟨c, ws, rfl⟩ := List.exists_cons_of_ne_nil hne
  obtain ⟨d, bs, rfl⟩ := List.exists_cons_of_ne_nil hbs
  have hall := List.all_eq_true.mp hws
  refine hu ⟨ws, d, bs ++ (v ++ after), ?_, fun e he => hall e (by simp [he]),
    List.all_eq_true.mp hblank d (by simp)⟩
  have has : ("as" : Text) = ['a', 's'] := rfl
  have htail := (List.cons.inj hsplit).2
  simpa [has] using htail

def blockKeyword : Pattern := anyOf ["let", "const"] ++ wordBoundary

theorem exists_of_reads_blockKeyword (h : blockKeyword.Reads before v after gs) :
    (v = "let" ∨ v = "const") ∧ gs = [] := by
  have hkeywords : anyOf ["let", "const"] = anyOf ((["let", "const"] : List Text).map literal) :=
    rfl
  simp only [blockKeyword, hkeywords, reads_append, reads_keyword, Reads] at h
  obtain ⟨kw, _, _, _, rfl, rfl, ⟨hkw, rfl⟩, rfl, rfl, -⟩ := h
  exact ⟨by simpa using hkw, rfl⟩

theorem beginsPast_blockKeyword : blockKeyword.BeginsPast '\n' where
  openEnded := rfl
  unanchored := rfl
  head hread := by
    obtain ⟨rfl | rfl, -⟩ := exists_of_reads_blockKeyword hread
    · exact ⟨'l', "et", rfl, by decide⟩
    · exact ⟨'c', "onst", rfl, by decide⟩

theorem replaceFrom_lineBreak {s : Substitution} (hs : s ∈ all) (hu : s = cast → ¬ BeginsCast u)
    (before : Text) : s.pattern.replaceFrom s.replacement 0 before ('\n' :: u) =
      '\n' :: s.pattern.replaceAll s.replacement u := by
  obtain ⟨hend, hnew⟩ := isOpenEnded_of_mem_all hs
  simp only [all, List.mem_cons, List.not_mem_nil, or_false] at hs
  rcases hs with rfl | rfl | rfl | rfl | rfl | rfl | rfl
  · refine replaceFrom_of_lineBreak hend hnew rfl (not_reads_of_head? fun hread hhead => ?_)
    obtain ⟨-, ws, name, -, -, hname, -⟩ := exists_of_reads_typedDeclaration hread
    exact head?_ne_lineFeed_of_isAnnotated hname _ hhead rfl
  · refine replaceFrom_of_lineBreak hend hnew rfl (not_reads_of_head? fun hread hhead => ?_)
    obtain ⟨-, ws, name, -, -, hname, -⟩ := exists_of_reads_typedDeclarationWithoutValue hread
    exact head?_ne_lineFeed_of_isAnnotated hname _ hhead rfl
  · have hfronted := replaceFrom_congr (at?_assoc
      (group 1 (alt inputStart (one fun c => !(c == '.' || Text.isWordChar c || c == '$'))))
      (anyOf ["let", "const"]) wordBoundary) blockScopedDeclaration.replacement
    refine (hfronted 0 before _).trans (.trans ?_ (congrArg ('\n' :: ·) (hfronted 0 [] u)).symm)
    exact replaceFrom_fronted beginsPast_blockKeyword rfl rfl
      (fun hread => (exists_of_reads_blockKeyword hread).2) 1 "var" before u
  · refine replaceFrom_of_lineBreak hend hnew rfl (not_reads_of_head? fun hread hhead => ?_)
    obtain ⟨u, v, rfl, -⟩ := exists_of_reads_arraySpreadCopy hread
    exact absurd hhead (by simp)
  · refine replaceFrom_of_lineBreak hend hnew rfl (not_reads_of_head? fun hread hhead => ?_)
    obtain ⟨u, rfl, -⟩ := exists_of_reads_genericConstructorCall hread
    exact absurd hhead (by simp)
  · exact replaceFrom_of_lineBreak hend hnew rfl fun w after gs hsplit _ =>
      not_reads_cast_lineBreak (hu rfl) hsplit
  · refine replaceFrom_of_lineBreak hend hnew rfl (not_reads_of_head? fun hread hhead => ?_)
    obtain ⟨c, d, rfl, -, -, hc, -⟩ := exists_of_reads_nonNullAssertion hread
    obtain rfl := Option.some.inj hhead
    exact absurd hc (by decide)

end Substitution

namespace Script

variable {r : Text}

theorem role_start_ne_inside (c : Char) (next : Option Char) : State.start.role c next ≠ .inside := by
  simp only [State.role, State.start]
  grind

theorem exists_segments_lineBreak (r : Text) : ∃ u ss,
    segments ('\n' :: r) = .code ('\n' :: u) :: ss ∧ u <+: r ∧
      (segments r = .code u :: ss ∨ u = [] ∧ segments r = ss) := by
  have hroles : roles .start ('\n' :: r) = .code :: roles .start r := rfl
  rw [segments, segments, hroles, List.zip_cons_cons]
  cases r with
  | nil => exact ⟨[], [], rfl, List.nil_prefix, .inr ⟨rfl, rfl⟩⟩
  | cons c r =>
    have hinside := role_start_ne_inside c r.head?
    have hwhole := flatten_segments (c :: r)
    rw [segments] at hwhole
    rw [roles, List.zip_cons_cons] at hwhole ⊢
    obtain ⟨t, ss, hchunk⟩ := exists_chunk_cons (State.start.role c r.head?) c
      ((roles (State.start.step c) r).zip r)
    rw [hchunk, List.flatMap_cons, Segment.text_ofRole] at hwhole
    rw [chunk, hchunk]
    cases hrole : State.start.role c r.head? with
    | code => exact ⟨t, ss, rfl, ⟨_, hwhole⟩, .inl rfl⟩
    | opens => exact ⟨[], _, rfl, List.nil_prefix, .inr ⟨rfl, rfl⟩⟩
    | inside => exact absurd hrole hinside

end Script

open Script

def endsCall (t : Text) : Bool := (");" : Text).isSuffixOf t && (State.start.run t).isCode

theorem exists_of_endsCall {t : Text} (h : endsCall t = true) :
    (∃ v, t = v ++ [')', ';']) ∧ (State.start.run t).isCode = true := by
  obtain ⟨hend, hcode⟩ := Bool.and_eq_true_iff.mp h
  obtain ⟨v, hv⟩ := List.isSuffixOf_iff_suffix.mp hend
  exact ⟨⟨v, hv.symm⟩, hcode⟩

namespace Substitution

open Pattern

variable {s : Substitution} {r x : Text}

theorem BeginsCast.append {t : Text} (h : BeginsCast t) (u : Text) : BeginsCast (t ++ u) := by
  obtain ⟨bs, b, r, rfl, hbs, hb⟩ := h
  exact ⟨bs, b, r ++ u, by simp, hbs, hb⟩

theorem not_beginsCast_mono {u : Text} (hu : u <+: r) (hr : s = cast → ¬ BeginsCast r) :
    s = cast → ¬ BeginsCast u := by
  obtain ⟨v, rfl⟩ := hu
  exact fun hcast hbegins => hr hcast (hbegins.append v)

theorem apply_lineBreak (hs : s ∈ all) (hr : s = cast → ¬ BeginsCast r) :
    s.apply ('\n' :: r) = '\n' :: s.apply r := by
  obtain ⟨u, ss, hsegments, hu, hrest⟩ := exists_segments_lineBreak r
  have hfirst : s.onSegment (.code ('\n' :: u)) = '\n' :: s.onSegment (.code u) :=
    replaceFrom_lineBreak hs (not_beginsCast_mono hu hr) []
  have hself : (segments r).flatMap s.onSegment = s.onSegment (.code u) ++ ss.flatMap s.onSegment := by
    rcases hrest with hrest | ⟨rfl, rfl⟩
    · rw [hrest, List.flatMap_cons]
    · rfl
  rw [apply_eq_flatMap, apply_eq_flatMap, hsegments, List.flatMap_cons, hfirst, hself]
  rfl

theorem apply_callLine (hx : endsCall x = true) (hopen : s = cast → opensCast x = false)
    (hs : s ∈ all) (hr : s = cast → ¬ BeginsCast r) :
    s.apply (x ++ '\n' :: r) = s.apply x ++ '\n' :: s.apply r := by
  obtain ⟨⟨v, rfl⟩, hcode⟩ := exists_of_endsCall hx
  have hsplit : v ++ [')', ';'] = (v ++ [')']) ++ [';'] := by simp
  rw [hsplit] at hcode hopen ⊢
  obtain ⟨hrole, hrun⟩ := role_of_isCode_run (by decide) (by decide) hcode none
  obtain ⟨t, ht⟩ := exists_endsInCode hrole
  obtain ⟨gs, hsegments, -⟩ := ht.exists_segments
  obtain ⟨g, _, hg, -⟩ := ht.split
  have hsuffix : t <:+ (v ++ [')']) ++ [';'] := ⟨g, hg.symm⟩
  obtain ⟨hend, hnew⟩ := isOpenEnded_of_mem_all hs
  obtain ⟨u, ss, hline, hu, -⟩ := exists_segments_lineBreak r
  have hstops : s.pattern.StopsBefore [] t ('\n' :: u) :=
    stopsBefore_of_mem_all hs hopen (by rw [hsegments]; simp) hsuffix (hsplit ▸ hsuffix)
  have hsearch : s.pattern.replaceAll s.replacement (t ++ '\n' :: u) =
      s.pattern.replaceAll s.replacement t ++ s.pattern.replaceAll s.replacement ('\n' :: u) := by
    have hbehind := replaceFrom_lineBreak hs (not_beginsCast_mono hu hr)
    rw [replaceAll, replaceFrom_append hend rfl hnew hstops (Nat.zero_le _), hbehind, ← hbehind []]
    rfl
  have hslash : (v ++ [')'] ++ [';']).getLast? ≠ some '/' := by simp
  rw [apply_append ht hslash hrun hline hsearch, apply_lineBreak hs hr]

def beginsCall (t : Text) : Bool :=
  ("super(" : Text).isPrefixOf (t.dropWhile Text.isBlank) && !t.contains '\n'

/-- Is the block of every arrow function that is code closed in the text? -/
def closesBlocks (t : Text) : Bool :=
  (Arrow.headers t).all fun h =>
    inLiteral t h.start.before.length || inLiteral t (h.stop.before.length - 1) ||
      (Bracket.brace.enclosed? h.stop.after).isSome

/-- While arrows are rewritten on it, at most `bound` of them, the line stays a call that closes the
blocks of its arrows. -/
def keepsCall : (bound : Nat) → Text → Bool
  | 0, t => endsCall t && closesBlocks t
  | bound + 1, t => endsCall t && closesBlocks t &&
      (Arrow.next? Procedure.parameterTexts t).all fun r =>
        beginsCall r.result && keepsCall bound r.result

/-- Rewritten on its own, the line ends as a call after each of the substitutions, with no cast
left open, and stays one while its arrows are rewritten. -/
def staysCall : List Substitution → Text → Bool
  | [], t => keepsCall (t.count '>') t
  | s :: ss, t => endsCall t && !opensCast t && staysCall ss (s.apply t)

theorem apply_nil (s : Substitution) : s.apply [] = [] := rfl

theorem apply_nextLine {ss : List Substitution} (hx : x = [] ∨ staysCall (s :: ss) x = true)
    (hs : s ∈ all) (hr : s = cast → ¬ BeginsCast r) :
    s.apply (x ++ '\n' :: r) = s.apply x ++ '\n' :: s.apply r ∧
      (s.apply x = [] ∨ staysCall ss (s.apply x) = true) := by
  rcases hx with rfl | hx
  · exact ⟨apply_lineBreak hs hr, .inl (apply_nil s)⟩
  · simp only [staysCall, Bool.and_eq_true, Bool.not_eq_true'] at hx
    obtain ⟨⟨hend, hopen⟩, hstays⟩ := hx
    exact ⟨apply_callLine hend (fun _ => hopen) hs hr, .inr hstays⟩

section BeforeCast

variable {t p q : Text}

theorem Exchange.exists_not_beginsCast {old new : Text} (h : Exchange old new) :
    ∃ c ∈ new, beginsCast c = false := by
  obtain ⟨u, c, v, rfl, -, hc⟩ := h.calm
  exact ⟨c, by simp, hc⟩

theorem Swaps.eq_of_beginsCast (h : Swaps t p q) (hq : ∀ c ∈ q, beginsCast c = true) : q = p := by
  induction h with
  | nil => rfl
  | keep _ _ ih => rw [ih fun c hc => hq c (List.mem_append_left _ hc)]
  | swap _ hexchange _ _ =>
    obtain ⟨c, hc, hnot⟩ := hexchange.exists_not_beginsCast
    rw [hq c (List.mem_append_right _ hc)] at hnot
    cases hnot

theorem beginsCast_of_isBlank {c : Char} (h : Text.isBlank c = true) : beginsCast c = true := by
  rw [beginsCast, h, Bool.true_or, Bool.true_or]

theorem beginsCast_of_forall {bs : Text} (hbs : ∀ c ∈ bs, Text.isBlank c = true) :
    ∀ c ∈ bs ++ ['a', 's'], beginsCast c = true := by
  simp only [List.forall_mem_append, List.forall_mem_cons]
  exact ⟨fun c hc => beginsCast_of_isBlank (hbs c hc), by decide, by decide, by simp⟩

theorem Exchange.ne_append {old new a r : Text} {b : Char} (h : Exchange old new)
    (ha : ∀ c ∈ a, beginsCast c = true) (hb : Text.isBlank b = true) : new ≠ a ++ b :: r := by
  obtain ⟨u, c, v, rfl, hu, hc⟩ := h.calm
  have hne : b ≠ c := by
    rintro rfl
    rw [beginsCast_of_isBlank hb] at hc
    cases hc
  intro hsplit
  rcases List.append_eq_append_iff.mp hsplit with ⟨e, rfl, hv⟩ | ⟨e, rfl, hr⟩
  · rcases List.cons_eq_append_iff.mp hv with ⟨rfl, hv⟩ | ⟨e, rfl, -⟩
    · exact hne (List.cons.inj hv).1.symm
    · rw [ha c (by simp)] at hc
      cases hc
  · rcases List.cons_eq_append_iff.mp hr with ⟨rfl, hr⟩ | ⟨e, rfl, -⟩
    · exact hne (List.cons.inj hr).1
    · rw [hu b (by simp)] at hb
      cases hb

theorem Swaps.beginsCast (h : Swaps t p q) (hq : BeginsCast q) : BeginsCast p := by
  induction h with
  | nil =>
    obtain ⟨bs, b, r, hnil, -⟩ := hq
    simp at hnil
  | @keep p q u c hsplit h ih =>
    obtain ⟨bs, b, r, hcast, hbs, hb⟩ := hq
    rcases List.eq_nil_or_concat r with rfl | ⟨r, d, rfl⟩
    · have hlast : q ++ [c] = (bs ++ ['a', 's']) ++ [b] := by rw [hcast]; simp
      obtain ⟨rfl, hc⟩ := List.append_inj' hlast rfl
      obtain rfl := (List.cons.inj hc).1
      rw [← h.eq_of_beginsCast (beginsCast_of_forall hbs)]
      exact ⟨bs, c, [], by simp, hbs, hb⟩
    · have hlast : q ++ [c] = (bs ++ 'a' :: 's' :: b :: r) ++ [d] := by rw [hcast]; simp
      exact (ih ⟨bs, b, r, (List.append_inj' hlast rfl).1, hbs, hb⟩).append [c]
  | @swap p q old new _ hexchange h ih =>
    obtain ⟨bs, b, r, hcast, hbs, hb⟩ := hq
    have hsplit : q ++ new = (bs ++ ['a', 's']) ++ b :: r := by rw [hcast]; simp
    rcases List.append_eq_append_iff.mp hsplit with ⟨a, hbegins, hnew⟩ | ⟨a, rfl, hnew⟩
    · have ha : ∀ c ∈ a, Substitution.beginsCast c = true := fun c hc =>
        beginsCast_of_forall hbs c (hbegins ▸ List.mem_append_right q hc)
      exact absurd hnew (hexchange.ne_append ha hb)
    · rcases List.cons_eq_append_iff.mp hnew with ⟨rfl, hnew⟩ | ⟨a, rfl, -⟩
      · exact absurd hnew.symm (hexchange.ne_append (a := []) (by simp) hb)
      · exact (ih ⟨bs, b, a, by simp, hbs, hb⟩).append old

end BeforeCast

theorem not_beginsCast_apply (hs : s ∈ beforeCast) (hr : ¬ BeginsCast r) :
    ¬ BeginsCast (s.apply r) :=
  fun h => hr (((edits_apply s r).swaps (exchanges_of_mem_beforeCast hs)).beginsCast h)

theorem nonNullAssertion_ne_cast : nonNullAssertion ≠ cast := by
  intro h
  have hreplacement := congrFun (congrArg Substitution.replacement h)
    ⟨⟨[], "a"⟩, ⟨[], []⟩, 1, [(1, ⟨⟨[], "a"⟩, 1⟩)]⟩
  exact absurd hreplacement (by decide)

theorem foldl_nextLine {ss us : List Substitution} (hss : ∀ s ∈ ss, s ∈ beforeCast)
    (hx : x = [] ∨ staysCall (ss ++ us) x = true) (hr : ¬ BeginsCast r) :
    ss.foldl (fun t s => s.apply t) (x ++ '\n' :: r) =
        ss.foldl (fun t s => s.apply t) x ++ '\n' :: ss.foldl (fun t s => s.apply t) r ∧
      (ss.foldl (fun t s => s.apply t) x = [] ∨
        staysCall us (ss.foldl (fun t s => s.apply t) x) = true) ∧
      ¬ BeginsCast (ss.foldl (fun t s => s.apply t) r) := by
  induction ss generalizing x r with
  | nil => exact ⟨rfl, hx, hr⟩
  | cons s ss ih =>
    obtain ⟨hs, hrest⟩ := List.forall_mem_cons.mp hss
    obtain ⟨hsplit, hstays⟩ := apply_nextLine hx (mem_all_of_mem_beforeCast hs) fun _ => hr
    rw [List.foldl_cons, List.foldl_cons, List.foldl_cons, hsplit]
    exact ih hrest hstays (not_beginsCast_apply hs hr)

theorem applyAll_nextLine (hx : x = [] ∨ staysCall all x = true) (hr : ¬ BeginsCast r) :
    applyAll (x ++ '\n' :: r) = applyAll x ++ '\n' :: applyAll r ∧
      (applyAll x = [] ∨ staysCall [] (applyAll x) = true) := by
  have hall : all = beforeCast ++ [cast, nonNullAssertion] := rfl
  have hcast : cast ∈ all := by simp only [hall, List.mem_append, List.mem_cons, true_or, or_true]
  have hassertion : nonNullAssertion ∈ all := by
    simp only [hall, List.mem_append, List.mem_cons, true_or, or_true]
  have hafter : ∀ t, applyAll t =
      nonNullAssertion.apply (cast.apply (beforeCast.foldl (fun t s => s.apply t) t)) := by
    intro t
    simp only [applyAll, hall, List.foldl_append, List.foldl_cons, List.foldl_nil]
  rw [hall] at hx
  obtain ⟨hbefore, hstays, hbegins⟩ := foldl_nextLine (fun s hs => hs) hx hr
  obtain ⟨hdropped, hstays⟩ := apply_nextLine hstays hcast fun _ => hbegins
  obtain ⟨hlast, hstays⟩ :=
    apply_nextLine hstays hassertion fun h => absurd h nonNullAssertion_ne_cast
  rw [hafter, hafter, hafter, hbefore, hdropped]
  exact ⟨hlast, hstays⟩

end Substitution

end CanvasPage
