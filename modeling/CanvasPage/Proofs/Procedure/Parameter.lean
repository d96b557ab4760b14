import CanvasPage.Procedure.Parameter
import CanvasPage.Proofs.Pattern.Language
import CanvasPage.Proofs.Text.Identifier
import CanvasPage.Proofs.Text.Lines
import CanvasPage.Proofs.Text.Trim

namespace CanvasPage.Parameter

variable {name t : Text} {names : List Text} {c : Char}

/-- The characters that a parameter list is read by. -/
def markers : Text := "'\"([\x7b<)]\x7d>,=:?" ++ [Char.ofNat 96]

theorem not_continuesIdentifier_of_mem_markers :
    ∀ c ∈ markers, Text.continuesIdentifier c = false := by
  decide

theorem ne_marker (hc : Text.continuesIdentifier c = true) : ∀ d ∈ markers, c ≠ d := by
  rintro d hd rfl
  rw [not_continuesIdentifier_of_mem_markers c hd] at hc
  cases hc

theorem splitFrom_cons (hc : Text.continuesIdentifier c = true) (previous : Option Char)
    (t : Text) : splitFrom 0 none previous (c :: t) =
      consFirst c (splitFrom 0 none (some c) t) := by
  have hne := ne_marker hc
  have hquote : (Script.isQuote c || Script.isBacktick c) = false := by
    have hbacktick : c.toNat ≠ 96 := fun h =>
      hne (Char.ofNat 96) (by decide) (Char.toNat_inj.mp h)
    simp [Script.isQuote, Script.isBacktick, hne '\'' (by decide), hne '"' (by decide), hbacktick]
  have hcomma : (c == ',') = false := beq_false_of_ne (hne ',' (by decide))
  have hopen : opensBracket c = false := by
    have hchars : ∀ d ∈ ("([\x7b<" : Text), c ≠ d := fun d hd =>
      hne d ((show ("([\x7b<" : Text) ⊆ markers by decide) hd)
    rw [opensBracket, List.contains_eq_mem, decide_eq_false_iff_not]
    exact fun h => hchars c h rfl
  have hclose : closesBracket c = false := by
    have hchars : ∀ d ∈ (")]\x7d" : Text), c ≠ d := fun d hd =>
      hne d ((show (")]\x7d" : Text) ⊆ markers by decide) hd)
    rw [closesBracket, List.contains_eq_mem, decide_eq_false_iff_not]
    exact fun h => hchars c h rfl
  have hangle : closesAngle previous c = false := by
    rw [closesAngle, beq_false_of_ne (hne '>' (by decide)), Bool.false_and]
  rw [splitFrom]
  simp only [hquote, hcomma, depthAfter, hopen, hclose, hangle, Bool.false_and, Bool.or_self,
    Bool.false_eq_true, if_false]

theorem splitFrom_append (hname : ∀ c ∈ name, Text.continuesIdentifier c = true)
    (previous : Option Char) (t : Text) : ∃ last, splitFrom 0 none previous (name ++ t) =
      name.foldr consFirst (splitFrom 0 none last t) := by
  induction name generalizing previous with
  | nil => exact ⟨previous, rfl⟩
  | cons c name ih =>
    obtain ⟨last, hlast⟩ := ih (fun d hd => hname d (by simp [hd])) (some c)
    exact ⟨last, by rw [List.cons_append, splitFrom_cons (hname c (by simp)), hlast]; rfl⟩

theorem foldr_consFirst (name t : Text) (ts : List Text) :
    name.foldr consFirst (t :: ts) = (name ++ t) :: ts := by
  induction name with
  | nil => rfl
  | cons c name ih => rw [List.foldr_cons, ih, consFirst, List.cons_append]

theorem splitFrom_join (hname : ∀ c ∈ name, Text.continuesIdentifier c = true)
    (hnames : ∀ n ∈ names, ∀ c ∈ n, Text.continuesIdentifier c = true) (previous : Option Char) :
    splitFrom 0 none previous (Text.join ", " (name :: names)) =
      name :: names.map (' ' :: ·) := by
  induction names generalizing name previous with
  | nil =>
    obtain ⟨last, hlast⟩ := splitFrom_append hname previous []
    rw [List.append_nil] at hlast
    rw [Text.join, hlast, splitFrom, foldr_consFirst, List.append_nil]
    rfl
  | cons next names ih =>
    have hrest := ih (hnames next (by simp)) (fun n hn => hnames n (by simp [hn])) (some ' ')
    have hcomma : (", " : Text) = [',', ' '] := rfl
    obtain ⟨last, hlast⟩ := splitFrom_append hname previous
      (',' :: ' ' :: Text.join ", " (next :: names))
    have hsplit : splitFrom 0 none last (',' :: ' ' :: Text.join ", " (next :: names)) =
        [] :: consFirst ' ' (splitFrom 0 none (some ' ') (Text.join ", " (next :: names))) := rfl
    rw [Text.join_cons_cons, hcomma, List.cons_append, List.cons_append, List.nil_append, ← hcomma,
      hlast, hsplit, hrest, foldr_consFirst, List.append_nil]
    rfl

theorem modifiers_atStart?_eq_none (h : ∀ c ∈ t, Text.isBlank c = false) :
    modifiers.atStart? t = none := by
  cases hat : modifiers.atStart? t with
  | none => rfl
  | some o =>
    obtain ⟨w, gs, -, hafter, -, -, -, -, hread⟩ := Pattern.exists_reads_of_at? hat
    simp only [modifiers, Pattern.many1, Pattern.reads_append, Pattern.reads_blanks1] at hread
    obtain ⟨u, v, hs, is, rfl, -, ⟨word, bs, -, -, rfl, -, -, hne, hblank, -⟩, -⟩ := hread
    obtain ⟨b, bs, rfl⟩ := List.exists_cons_of_ne_nil hne
    have hmem : b ∈ t := by
      rw [show t = _ from hafter]
      simp
    rw [Text.allBlank, List.all_cons, h b hmem] at hblank
    cases hblank

theorem splitDefault_eq_none (h : '=' ∉ t) (depth : Nat) (previous : Option Char) :
    splitDefault depth previous t = none := by
  induction t generalizing depth previous with
  | nil => rfl
  | cons c t ih =>
    have hc : (c == '=') = false := beq_false_of_ne fun hc => h (by simp [hc])
    rw [splitDefault, hc, ih fun ht => h (by simp [ht])]
    rfl

theorem beforeType_eq_self (h : ':' ∉ t) (depth : Nat) : beforeType depth t = t := by
  induction t generalizing depth with
  | nil => rfl
  | cons c t ih =>
    have hc : (c == ':') = false := beq_false_of_ne fun hc => h (by simp [hc])
    rw [beforeType, hc, Bool.false_and, if_neg Bool.false_ne_true]
    dsimp only
    rw [ih fun ht => h (by simp [ht])]

theorem read?_identifier (hname : Text.isIdentifier name = true) {piece : Text}
    (hpiece : Text.trim piece = name) (rewrite : Text → Text) :
    read? rewrite piece = some ⟨name, name, false⟩ := by
  have hchars := Text.continuesIdentifier_of_isIdentifier hname
  have hblank : ∀ c ∈ name, Text.isBlank c = false :=
    fun c hc => Text.isBlank_of_continuesIdentifier (hchars c hc)
  have hmarker : ∀ d ∈ markers, d ∉ name := fun d hd hmem => ne_marker (hchars d hmem) d hd rfl
  have hmark : Text.dropEndWhile (· == '?') name = name :=
    Text.dropEndWhile_of_getLast? fun c hc => beq_false_of_ne fun h =>
      hmarker '?' (by decide) (h ▸ List.mem_of_getLast? hc)
  have hne : List.isEmpty name = false := by
    simpa using Text.ne_nil_of_isIdentifier hname
  rw [read?, hpiece]
  simp only [modifiers_atStart?_eq_none hblank, splitDefault_eq_none (hmarker '=' (by decide)),
    beforeType_eq_self (hmarker ':' (by decide)), Text.trim_of_forall hblank, hmark, hne,
    Bool.false_eq_true, if_false, Option.isSome_none]

theorem textsWith_join (hnames : ∀ n ∈ names, Text.isIdentifier n = true)
    (rewrite : Text → Text) : textsWith rewrite (Text.join ", " names) = names := by
  have hread : ∀ n ∈ names, ∀ piece, Text.trim piece = n →
      read? rewrite piece = some ⟨n, n, false⟩ := fun n hn piece hpiece =>
    read?_identifier (hnames n hn) hpiece rewrite
  have htrim : ∀ n ∈ names, Text.trim n = n := fun n hn => Text.trim_of_forall fun c hc =>
    Text.isBlank_of_continuesIdentifier (Text.continuesIdentifier_of_isIdentifier (hnames n hn) c hc)
  have hpiece : ∀ n ∈ names, Text.trim (' ' :: n) = n := fun n hn => by
    rw [Text.trim_cons (by decide), htrim n hn]
  have hrest : ∀ ns : List Text, (∀ n ∈ ns, n ∈ names) →
      (ns.map (' ' :: ·)).filterMap (read? rewrite) = ns.map fun n => ⟨n, n, false⟩ := by
    intro ns hns
    induction ns with
    | nil => rfl
    | cons n ns ih =>
      have hn := hns n (by simp)
      rw [List.map_cons, List.filterMap_cons, hread n hn _ (hpiece n hn),
        ih fun m hm => hns m (by simp [hm]), List.map_cons]
  cases names with
  | nil => rfl
  | cons name names =>
    have hsplit : split (Text.join ", " (name :: names)) = name :: names.map (' ' :: ·) :=
      splitFrom_join (Text.continuesIdentifier_of_isIdentifier (hnames name (by simp)))
        (fun n hn => Text.continuesIdentifier_of_isIdentifier (hnames n (by simp [hn]))) none
    have hread := hread name (by simp) name (htrim name (by simp))
    rw [textsWith, readAll, hsplit, List.filterMap_cons, hread, hrest names fun n hn => by simp [hn],
      List.map_cons, List.map_map]
    exact congrArg _ (List.map_id' names)

end CanvasPage.Parameter
