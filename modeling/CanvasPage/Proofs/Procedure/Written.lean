import CanvasPage.Proofs.ClassBlock.Words
import CanvasPage.Proofs.Procedure.Paired
import CanvasPage.Proofs.Procedure.Characters

namespace CanvasPage

namespace Parameter

open Pattern

def modifierWords : List Text := ["public", "private", "protected", "readonly", "override"]

theorem areWords_modifierWords : Member.AreWords modifierWords := by
  unfold Member.AreWords
  decide

/-- Words, each with the blanks behind it. -/
def spaced (ws : List (Text × Text)) : Text := ws.flatMap fun w => w.1 ++ w.2

structure AreSpaced (ws : List (Text × Text)) : Prop where
  mem : ∀ w ∈ ws, w.1 ∈ modifierWords
  ne_nil : ∀ w ∈ ws, w.2 ≠ []
  blank : ∀ w ∈ ws, ∀ c ∈ w.2, Text.isBlank c = true

/-- No modifier begins here. -/
def NoModifier (t : Text) : Prop :=
  ∀ n ∈ modifierWords, ∀ c r, t = n ++ c :: r → Text.isBlank c = false

section Modifiers

variable {α : Type} {k : Progress → Option α} {before t rest : Text} {width : Nat}
  {groups : List (Nat × Capture)} {ws : List (Text × Text)} {a : α}

theorem run_word_of_noModifier (ht : NoModifier t) (k : Progress → Option α) :
    (Member.word modifierWords).run ⟨⟨before, t⟩, width, groups⟩ k = none := by
  refine Member.run_word_eq_none fun n hn c r hr hc => ?_
  rw [ht n hn c r hr] at hc
  cases hc

theorem spaced_cons (w : Text × Text) (ws : List (Text × Text)) :
    spaced (w :: ws) = w.1 ++ (w.2 ++ spaced ws) := by
  rw [spaced, List.flatMap_cons, List.append_assoc, spaced]

theorem AreSpaced.tail {w : Text × Text} (hws : AreSpaced (w :: ws)) : AreSpaced ws :=
  ⟨fun v hv => hws.mem v (by simp [hv]), fun v hv => hws.ne_nil v (by simp [hv]),
    fun v hv => hws.blank v (by simp [hv])⟩

theorem AreSpaced.head?_append (hws : AreSpaced ws)
    (ht : ∀ c ∈ t.head?, Text.isBlank c = false) :
    ∀ c ∈ (spaced ws ++ t).head?, Text.isBlank c = false := by
  cases ws with
  | nil => exact ht
  | cons w ws =>
    obtain ⟨hne, hw⟩ := areWords_modifierWords w.1 (hws.mem w (by simp))
    obtain ⟨c, n, hn⟩ := List.exists_cons_of_ne_nil hne
    intro d hd
    rw [spaced_cons, hn] at hd
    obtain rfl : c = d := by simpa using hd
    exact Text.isBlank_of_continuesIdentifier (hw c (by simp [hn]))

theorem run_spaced (hws : AreSpaced ws) (ht : ∀ c ∈ t.head?, Text.isBlank c = false)
    (hstop : NoModifier t)
    (hk : k ⟨⟨(spaced ws).reverse ++ before, t⟩, width + (spaced ws).length, groups⟩ = some a) :
    (many (Member.word modifierWords)).run ⟨⟨before, spaced ws ++ t⟩, width, groups⟩ k = some a := by
  induction ws generalizing before width with
  | nil =>
    rw [run_many]
    refine (congrArg (Option.or · _) (run_word_of_noModifier hstop _)).trans ?_
    rw [Option.none_or]
    exact hk
  | cons w ws ih =>
    obtain ⟨n, b⟩ := w
    have hb : b ≠ [] := hws.ne_nil (n, b) (by simp)
    have hpos := List.length_pos_iff.mpr hb
    have hrest : (many (Member.word modifierWords)).run ⟨⟨b.reverse ++ (n.reverse ++ before),
        spaced ws ++ t⟩, width + n.length + b.length, groups⟩ k = some a := by
      refine ih hws.tail ?_
      rw [← hk, spaced_cons]
      simp [Nat.add_assoc]
    have hword : (Member.word modifierWords).run
        ⟨⟨before, n ++ (b ++ (spaced ws ++ t))⟩, width, groups⟩
        (fun q => if width < q.width then (many (Member.word modifierWords)).run q k else none) =
          some a := by
      refine Member.run_word areWords_modifierWords (hws.mem (n, b) (by simp)) hb
        (hws.blank (n, b) (by simp)) (hws.tail.head?_append ht) ?_
      exact (if_pos (show width < width + n.length + b.length by omega)).trans hrest
    have hsplit : spaced ((n, b) :: ws) ++ t = n ++ (b ++ (spaced ws ++ t)) := by
      simp [spaced_cons]
    rw [hsplit, run_many]
    exact (congrArg (Option.or · _) hword).trans (Option.some_or ..)

theorem modifiers_atStart? (hws : AreSpaced ws) (ht : ∀ c ∈ t.head?, Text.isBlank c = false)
    (hstop : NoModifier t) :
    (ws = [] ∧ modifiers.atStart? (spaced ws ++ t) = none) ∨
      (ws ≠ [] ∧ ∃ o, modifiers.atStart? (spaced ws ++ t) = some o ∧ o.stop.after = t) := by
  have hmodifiers : modifiers = Member.word modifierWords ++ many (Member.word modifierWords) := rfl
  cases ws with
  | nil =>
    refine .inl ⟨rfl, at?_eq_none ?_⟩
    rw [hmodifiers, Progress.start, run_append]
    exact run_word_of_noModifier hstop _
  | cons w ws =>
    obtain ⟨n, b⟩ := w
    have hb : b ≠ [] := hws.ne_nil (n, b) (by simp)
    have hpos := List.length_pos_iff.mpr hb
    let q : Progress := ⟨⟨(spaced ws).reverse ++ (b.reverse ++ (n.reverse ++ [])), t⟩,
      0 + n.length + b.length + (spaced ws).length, []⟩
    have hrest : (many (Member.word modifierWords)).run ⟨⟨b.reverse ++ (n.reverse ++ []),
        spaced ws ++ t⟩, 0 + n.length + b.length, []⟩ some = some q :=
      run_spaced hws.tail ht hstop rfl
    have hsplit : spaced ((n, b) :: ws) ++ t = n ++ (b ++ (spaced ws ++ t)) := by
      simp [spaced_cons]
    have hrun : modifiers.run (.start (.atStart (n ++ (b ++ (spaced ws ++ t))))) some = some q := by
      rw [hmodifiers, run_append]
      exact Member.run_word areWords_modifierWords (hws.mem (n, b) (by simp)) hb
        (hws.blank (n, b) (by simp)) (hws.tail.head?_append ht) hrest
    rw [hsplit]
    exact .inr ⟨List.cons_ne_nil _ _, _, at?_of_run hrun (by simp only [q]; omega), rfl⟩

end Modifiers

section Characters

variable {t : Text}

theorem isOrdinary_of_mem_blankCodes : ∀ n ∈ Text.blankCodes,
    isOrdinary (Char.ofNat n) = true ∧ Char.ofNat n ∉ (",=:" : Text) := by
  decide +kernel

theorem isOrdinary_of_isBlank {c : Char} (hc : Text.isBlank c = true) :
    isOrdinary c = true ∧ c ∉ (",=:" : Text) := by
  have hcode := isOrdinary_of_mem_blankCodes c.toNat (Text.mem_blankCodes hc)
  rwa [Char.ofNat_toNat] at hcode

theorem isOrdinary_of_mem_modifierWords : ∀ n ∈ modifierWords, ∀ c ∈ n,
    isOrdinary c = true ∧ c ∉ (",=:" : Text) := by
  decide

theorem passes_of_forall (ht : ∀ c ∈ t, isOrdinary c = true ∧ c ∉ (",=:" : Text)) : Passes t :=
  passes_of_isOrdinary fun c hc => ⟨(ht c hc).1, by rintro rfl; exact (ht ',' hc).2 (by decide)⟩

theorem passes_of_isBlank (ht : ∀ c ∈ t, Text.isBlank c = true) : Passes t :=
  passes_of_forall fun c hc => isOrdinary_of_isBlank (ht c hc)

end Characters

section Kinds

def Kind.head : Kind where
  plain c := !(",=:" : Text).contains c
  string c := isLevel c && !("=:" : Text).contains c
  nested := isLevel
  arrows := false

def Kind.type : Kind where
  plain c := !(",=" : Text).contains c
  string c := isLevel c && c != '='
  nested := isLevel
  arrows := true

def Kind.value : Kind where
  plain c := c != ','
  string _ := true
  nested _ := true
  arrows := true

end Kinds

/-- A parameter as it is written, with the blanks around it. -/
structure Written where
  lead : Text
  words : List (Text × Text)
  head : Text
  marks : Text
  type? : Option Text
  default? : Option Text
  trail : Text

namespace Written

def typePart (w : Written) : Text :=
  match w.type? with
  | some t => ':' :: t
  | none => []

def defaultPart (w : Written) : Text :=
  match w.default? with
  | some d => '=' :: d
  | none => []

/-- The parameter up to its default value, modifiers apart. -/
def left (w : Written) : Text := w.head ++ (w.marks ++ w.typePart)

def rest (w : Written) : Text := w.left ++ w.defaultPart

def text (w : Written) : Text := w.lead ++ ((spaced w.words ++ w.rest) ++ w.trail)

/-- The parameter without modifiers and type. -/
def emitted (rewrite : Text → Text) (w : Written) : Text :=
  match w.default? with
  | some d => w.head ++ " = " ++ rewrite (Text.trim d)
  | none => w.head

/-- Brackets pair in each part, and no part reads like another. -/
structure IsValid (w : Written) : Prop where
  lead : ∀ c ∈ w.lead, Text.isBlank c = true
  words : AreSpaced w.words
  noModifier : NoModifier w.rest
  head : IsPaired .head true w.head
  head_first : ∃ c ∈ w.head.head?, Text.isBlank c = false
  head_last : ∀ c ∈ w.head.getLast?, Text.isBlank c = false ∧ c ≠ '?'
  marks : ∃ bs qs cs, w.marks = bs ++ (qs ++ cs) ∧ (∀ c ∈ bs, Text.isBlank c = true) ∧
    (∀ c ∈ qs, c = '?') ∧ ∀ c ∈ cs, Text.isBlank c = true
  type : ∀ t ∈ w.type?, IsPaired .type true t
  default : ∀ d ∈ w.default?, IsPaired .value true d
  apart : ∀ d ∈ w.default?, isCompound w.left.getLast? d.head? = false
  last : ∀ c ∈ w.rest.getLast?, Text.isBlank c = false
  trail : ∀ c ∈ w.trail, Text.isBlank c = true

variable {w : Written} {rewrite : Text → Text}

theorem IsValid.isOrdinary_of_mem_marks (hw : w.IsValid) : ∀ c ∈ w.marks,
    isOrdinary c = true ∧ c ∉ (",=:" : Text) := by
  obtain ⟨bs, qs, cs, hmarks, hbs, hqs, hcs⟩ := hw.marks
  have hmark : isOrdinary '?' = true ∧ '?' ∉ (",=:" : Text) := by decide
  rw [hmarks]
  refine List.forall_mem_append.mpr ⟨fun c hc => isOrdinary_of_isBlank (hbs c hc),
    List.forall_mem_append.mpr ⟨fun c hc => ?_, fun c hc => isOrdinary_of_isBlank (hcs c hc)⟩⟩
  rw [hqs c hc]
  exact hmark

theorem IsValid.isLevel_of_mem_marks (hw : w.IsValid) {d : Char} (hd : d ∈ (",=:" : Text)) :
    ∀ c ∈ w.marks, isLevel c = true ∧ (c = d → (0 : Nat) ≠ 0) := by
  intro c hc
  obtain ⟨hordinary, hmem⟩ := hw.isOrdinary_of_mem_marks c hc
  exact ⟨(isOrdinary_iff.mp hordinary).2, fun h => absurd (h ▸ hd) hmem⟩

theorem IsValid.head_ne_nil (hw : w.IsValid) : w.head ≠ [] := by
  obtain ⟨c, hc, -⟩ := hw.head_first
  rintro hnil
  rw [hnil] at hc
  cases hc

theorem IsValid.isBlank_head? (hw : w.IsValid) (t : Text) :
    ∀ c ∈ (w.head ++ t).head?, Text.isBlank c = false := by
  obtain ⟨c, hc, hblank⟩ := hw.head_first
  obtain ⟨head, hhead⟩ := List.head?_eq_some_iff.mp hc
  rw [hhead]
  intro d hd
  obtain rfl : c = d := Option.some.inj hd
  exact hblank

theorem IsValid.head_eq (hw : w.IsValid) :
    Text.trim (Text.dropEndWhile (· == '?') (Text.trim (w.head ++ w.marks))) = w.head := by
  obtain ⟨bs, qs, cs, hmarks, hbs, hqs, hcs⟩ := hw.marks
  have hlast : ∀ c ∈ w.head.getLast?, Text.isBlank c = false := fun c hc => (hw.head_last c hc).1
  have hhead : ∀ {u : Text}, (∀ c ∈ u, Text.isBlank c = true) → Text.trim (w.head ++ u) = w.head := by
    intro u hu
    have hfirst := hw.isBlank_head? []
    rw [List.append_nil] at hfirst
    exact Text.trim_append (s := []) (by simp) hu hfirst hlast hw.head_ne_nil
  rw [hmarks]
  cases hq : qs.getLast? with
  | none =>
    obtain rfl := List.getLast?_eq_none_iff.mp hq
    have hmark : Text.dropEndWhile (· == '?') w.head = w.head :=
      Text.dropEndWhile_of_getLast? fun c hc => beq_false_of_ne (hw.head_last c hc).2
    have hself := hhead (u := []) (by simp)
    rw [List.append_nil] at hself
    rw [List.nil_append, hhead (List.forall_mem_append.mpr ⟨hbs, hcs⟩), hmark, hself]
  | some q =>
    obtain rfl := hqs q (List.mem_of_getLast? hq)
    have htrim : Text.trim (w.head ++ (bs ++ qs) ++ cs) = w.head ++ (bs ++ qs) := by
      refine Text.trim_append (s := []) (by simp) hcs (hw.isBlank_head? _) ?_ (by simp [hw.head_ne_nil])
      rw [List.getLast?_append, List.getLast?_append, hq]
      rintro c ⟨⟩
      decide
    have hunmarked : ∀ c ∈ (w.head ++ bs).getLast?, (c == '?') = false := by
      intro c hc
      rw [List.getLast?_append] at hc
      cases hb : bs.getLast? with
      | none =>
        rw [hb, Option.none_or] at hc
        exact beq_false_of_ne (hw.head_last c hc).2
      | some b =>
        rw [hb] at hc
        obtain rfl : b = c := Option.some.inj hc
        refine beq_false_of_ne ?_
        rintro rfl
        exact absurd (hbs '?' (List.mem_of_getLast? hb)) (by decide)
    have hmark : Text.dropEndWhile (· == '?') (w.head ++ (bs ++ qs)) = w.head ++ bs := by
      rw [← List.append_assoc]
      exact Text.dropEndWhile_append hunmarked fun c hc => beq_iff_eq.mpr (hqs c hc)
    rw [← List.append_assoc bs, ← List.append_assoc, htrim, hmark, hhead hbs]

theorem isLevel_of_head_string {d : Char} (hd : Kind.head.string d = false) :
    ∀ c, Kind.head.string c = true → isLevel c = true ∧ c ≠ d := by
  intro c hc
  refine ⟨(Bool.and_eq_true_iff.mp hc).1, ?_⟩
  rintro rfl
  rw [hd] at hc
  cases hc

theorem IsValid.beforeType_left (hw : w.IsValid) : beforeType 0 w.left = w.head ++ w.marks := by
  have hhead : ∀ rest, beforeType 0 (w.head ++ rest) = w.head ++ beforeType 0 rest :=
    hw.head.reads (readsPairs_keepsColons (by decide) rfl (isLevel_of_head_string (by decide))
      fun c hc => hc) (by simp) none
  have htype : beforeType 0 w.typePart = [] := by
    rw [typePart]
    cases w.type? <;> rfl
  rw [left, hhead, beforeType_of_isLevel (hw.isLevel_of_mem_marks (by decide)), htype,
    List.append_nil]

theorem IsValid.keepsEquals_typePart (hw : w.IsValid) (previous : Option Char) :
    KeepsEquals 0 previous w.typePart 0 := by
  have hstring : ∀ c, Kind.type.string c = true → isLevel c = true ∧ c ≠ '=' := by
    intro c hc
    simpa [Kind.type] using hc
  rw [typePart]
  cases htype : w.type? with
  | none => exact (readsPairs_keepsEquals (by decide) hstring fun c hc => hc).nil
  | some t =>
    have hcolon : KeepsEquals 0 previous [':'] 0 :=
      keepsEquals_singleton (by decide) (depthAfter_of_isLevel (by decide) _ _)
    exact hcolon.append ((hw.type t htype).reads
      (readsPairs_keepsEquals (by decide) hstring fun c hc => hc) (by simp) _)

theorem IsValid.keepsEquals_left (hw : w.IsValid) : KeepsEquals 0 none w.left 0 := by
  have hhead : KeepsEquals 0 none w.head 0 :=
    hw.head.reads (readsPairs_keepsEquals (by decide) (isLevel_of_head_string (by decide))
      fun c hc => hc) (by simp) none
  have hmarks : KeepsEquals 0 (lastOr none w.head) w.marks 0 :=
    splitDefault_of_isLevel (hw.isLevel_of_mem_marks (by decide)) _
  exact hhead.append (hmarks.append (hw.keepsEquals_typePart _))

theorem IsValid.splitDefault_rest (hw : w.IsValid) :
    splitDefault 0 none w.rest = w.default?.map fun d => (w.left, d) := by
  rw [rest, hw.keepsEquals_left, defaultPart]
  cases hdefault : w.default? with
  | none => rfl
  | some d =>
    have hcompound : isCompound (lastOr none w.left) d.head? = false := by
      rw [lastOr_eq, Option.or_none]
      exact hw.apart d hdefault
    dsimp only
    rw [splitDefault, hcompound]
    simp

theorem IsValid.unmodified_text (hw : w.IsValid) : unmodified w.text = w.rest ∧
    (modifiers.atStart? (Text.trim w.text)).isSome = !w.words.isEmpty := by
  have hfirst : ∀ c ∈ w.rest.head?, Text.isBlank c = false := by
    rw [rest, left, List.append_assoc]
    exact hw.isBlank_head? _
  have hne : w.rest ≠ [] := by simp [rest, left, hw.head_ne_nil]
  have htrim : Text.trim w.text = spaced w.words ++ w.rest := by
    refine Text.trim_append hw.lead hw.trail (hw.words.head?_append hfirst) ?_ (by simp [hne])
    rw [List.getLast?_append_of_ne_nil _ hne]
    exact hw.last
  rw [unmodified, htrim]
  rcases modifiers_atStart? hw.words hfirst hw.noModifier with ⟨hwords, hat⟩ | ⟨hwords, o, hat, hafter⟩
  · rw [hat, hwords]
    exact ⟨rfl, rfl⟩
  · rw [hat]
    exact ⟨hafter, by simpa using hwords⟩

theorem IsValid.parameter?_left (hw : w.IsValid) (value : Option Text) (isProperty : Bool) :
    parameter? w.left value isProperty =
      some ⟨match value with
        | some value => w.head ++ " = " ++ value
        | none => w.head, w.head, isProperty⟩ := by
  have hname : Text.trim (Text.dropEndWhile (· == '?') (Text.trim (beforeType 0 w.left))) =
      w.head := by
    rw [hw.beforeType_left]
    exact hw.head_eq
  have hempty : List.isEmpty w.head = false := by simpa using hw.head_ne_nil
  unfold parameter?
  dsimp only
  rw [hname]
  exact if_neg (by simp [hempty])

theorem IsValid.read?_text (hw : w.IsValid) (rewrite : Text → Text) :
    read? rewrite w.text = some ⟨w.emitted rewrite, w.head, !w.words.isEmpty⟩ := by
  rw [read?_eq_parameter?, hw.unmodified_text.1, hw.unmodified_text.2, hw.splitDefault_rest, emitted]
  cases hdefault : w.default? with
  | some d => exact hw.parameter?_left _ _
  | none =>
    have hrest : w.rest = w.left := by
      rw [rest, defaultPart, hdefault]
      exact List.append_nil _
    rw [hrest]
    exact hw.parameter?_left none _

theorem IsValid.passes_text (hw : w.IsValid) : Passes w.text := by
  have hwords : Passes (spaced w.words) := by
    refine passes_of_forall fun c hc => ?_
    obtain ⟨⟨n, b⟩, hmem, hc⟩ := List.mem_flatMap.mp hc
    rcases List.mem_append.mp hc with hc | hc
    · exact isOrdinary_of_mem_modifierWords n (hw.words.mem _ hmem) c hc
    · exact isOrdinary_of_isBlank (hw.words.blank _ hmem c hc)
  have hmark : ∀ {c : Char} {t : Text}, isOrdinary c = true ∧ c ≠ ',' → Passes t → Passes (c :: t) :=
    fun {c t} hc ht => (passes_of_isOrdinary (w := [c]) (List.forall_mem_singleton.mpr hc)).append ht
  have htype : Passes w.typePart := by
    rw [typePart]
    cases htype : w.type? with
    | none => exact passes_of_isBlank (by simp)
    | some t => exact hmark (by decide) (passes_of_isPaired (by decide) (hw.type t htype))
  have hdefault : Passes w.defaultPart := by
    rw [defaultPart]
    cases hdefault : w.default? with
    | none => exact passes_of_isBlank (by simp)
    | some d => exact hmark (by decide) (passes_of_isPaired (by decide) (hw.default d hdefault))
  have hleft : Passes w.left := (passes_of_isPaired (by decide) hw.head).append
    ((passes_of_forall hw.isOrdinary_of_mem_marks).append htype)
  exact (passes_of_isBlank hw.lead).append
    ((hwords.append (hleft.append hdefault)).append (passes_of_isBlank hw.trail))

end Written

theorem readAll_join {ts : List Text} (hts : ∀ t ∈ ts, Passes t) (rewrite : Text → Text) :
    readAll rewrite (Text.join "," ts) = ts.filterMap (read? rewrite) := by
  cases ts with
  | nil => rfl
  | cons t ts => rw [readAll, split_join hts (List.cons_ne_nil t ts)]

theorem textsWith_texts {ws : List Written} (hws : ∀ w ∈ ws, w.IsValid) (rewrite : Text → Text) :
    textsWith rewrite (Text.join "," (ws.map (·.text))) = ws.map (·.emitted rewrite) := by
  have hpasses : ∀ t ∈ ws.map (·.text), Passes t :=
    List.forall_mem_map.mpr fun w hw => (hws w hw).passes_text
  rw [textsWith, readAll_join hpasses, List.filterMap_map, List.map_filterMap,
    ← List.filterMap_eq_map]
  refine List.filterMap_congr fun w hw => ?_
  rw [Function.comp_apply, (hws w hw).read?_text]
  rfl

end Parameter

end CanvasPage
