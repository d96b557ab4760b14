import CanvasPage.Proofs.Batch.Frame
import CanvasPage.Proofs.Procedure.Characters
import CanvasPage.Proofs.Text.Lines
import CanvasPage.Report.Format
import Mathlib.Data.List.Forall2

namespace CanvasPage

namespace Text

variable {c : Char} {ts : List Text}

theorem splitOn_join (h : ts ≠ []) : (join [c] ts).splitOn c = ts.flatMap (List.splitOn c) := by
  induction ts with
  | nil => exact absurd rfl h
  | cons t ts ih =>
    cases ts with
    | nil => rw [join, List.flatMap_singleton]
    | cons u us =>
      rw [join_cons_cons, List.singleton_append, List.splitOn_append_cons_self,
        ih (List.cons_ne_nil u us)]
      rfl

theorem flatMap_splitOn (h : ∀ t ∈ ts, c ∉ t) : ts.flatMap (List.splitOn c) = ts := by
  induction ts with
  | nil => rfl
  | cons t ts ih =>
    rw [List.flatMap_cons, List.splitOn_eq_singleton (h t (by simp)),
      ih fun u hu => h u (by simp [hu]), List.singleton_append]

theorem length_splitOn (c : Char) (t : Text) : (t.splitOn c).length = t.count c + 1 := by
  induction t with
  | nil => rw [List.splitOn_nil, List.count_nil, List.length_singleton]
  | cons d t ih =>
    rw [List.splitOn_cons_eq_if_modifyHead, List.count_cons]
    split
    · rw [List.length_cons, ih]
    · rw [List.length_modifyHead, ih]

end Text

theorem Color.isFunctional_of_tab_mem {t : Text} (h : isColor t = true) (htab : '\t' ∈ t) :
    isFunctional t = true := by
  rw [isColor, Bool.and_eq_true, Bool.or_eq_true, Bool.or_eq_true] at h
  -- a hexadecimal color has digits only, a named one letters
  rcases h.2 with (hhex | hfunctional) | hnamed
  · rcases mem_of_isHex hhex htab with hmark | hdigit
    · cases hmark
    · cases hdigit
  · exact hfunctional
  · rw [isNamed, Bool.and_eq_true, List.all_eq_true] at hnamed
    cases hnamed.1 _ htab

namespace Report

/-- A text that ends neither the field of a record it stands in nor the record. -/
def IsField (t : Text) : Prop := ∀ c ∈ t, c ≠ '\t' ∧ c ≠ '\n'

instance decidableIsField (t : Text) : Decidable (IsField t) := Text.decidableForallMem t _

theorem isField_of_forall {p : Char → Bool} {t : Text} (htab : p '\t' = false)
    (hbreak : p '\n' = false) (h : ∀ c ∈ t, p c = true) : IsField t := by
  intro c hc
  constructor
  · rintro rfl
    exact Bool.false_ne_true (htab.symm.trans (h _ hc))
  · rintro rfl
    exact Bool.false_ne_true (hbreak.symm.trans (h _ hc))

theorem isField_decimal (n : Nat) : IsField (Text.decimal n) :=
  isField_of_forall (p := Text.isAsciiDigit) rfl rfl fun _ => Text.isAsciiDigit_of_mem_decimal

theorem isField_pageFileName {name : Text} (h : IsPageFileName name) : IsField name := by
  obtain ⟨stem, -, hstem, hname⟩ := h
  have hfield : IsField stem := isField_of_forall (by decide) (by decide) hstem
  rcases hname with rfl | rfl
  · exact List.forall_mem_append.mpr ⟨hfield, by decide⟩
  · exact List.forall_mem_append.mpr ⟨hfield, by decide⟩

/-- The fields of the record of a converted input up to the background color. -/
def leadingFields (label : Text) (c : Conversion) : List Text :=
  ["OK", label, c.artifacts.markupFileName, c.artifacts.scriptFileName,
    Text.decimal c.descriptor.canvasWidth ++ "x" ++ Text.decimal c.descriptor.canvasHeight]

end Report

/-- Neither the label nor the message is broken, and the result is that of some source. -/
structure Outcome.IsReportable (o : Outcome) : Prop where
  label : Report.IsField o.label
  message : ∀ e, o.result = .error e → Report.IsField e.message
  conversion : ∀ c, o.result = .ok c →
    ∃ options source, Conversion.ofSource options source = .ok c

theorem Batch.isReportable_outcome {label : Text} (hlabel : Report.IsField label)
    (options : ConversionOptions) (source : Text) :
    (outcome options label (.ok source)).IsReportable where
  label := hlabel
  message := by
    intro e he
    rw [outcome] at he
    cases hc : Conversion.ofSource options source with
    | ok c =>
      rw [hc] at he
      cases he
    | error cause =>
      rw [hc] at he
      obtain rfl := Except.error.inj he
      cases cause
      decide
  conversion := by
    intro c hresult
    obtain ⟨source, -, hc⟩ := exists_of_result_outcome hresult
    exact ⟨options, source, hc⟩

namespace Report

variable {o : Outcome} {c : Conversion} {outcomes : List Outcome}

theorem isField_leadingFields (h : o.IsReportable) (hresult : o.result = .ok c) :
    ∀ t ∈ leadingFields o.label c, IsField t := by
  obtain ⟨options, source, hc⟩ := h.conversion c hresult
  obtain ⟨e, -, rfl⟩ := Conversion.exists_of_ofSource hc
  obtain ⟨hmarkup, hscript⟩ :=
    isPageFileName_toLower (Descriptor.isName_resolve e
      (e.classes.flatMap ClassBlock.procedures) options.fallback)
  have hok : IsField "OK" := by decide
  have hby : IsField "x" := by decide
  simp only [leadingFields, List.forall_mem_cons]
  exact ⟨hok, h.label, isField_pageFileName hmarkup, isField_pageFileName hscript,
    List.forall_mem_append.mpr ⟨List.forall_mem_append.mpr ⟨isField_decimal _, hby⟩,
      isField_decimal _⟩, by simp⟩

theorem background_of_isReportable (h : o.IsReportable) (hresult : o.result = .ok c) :
    '\n' ∉ c.descriptor.backgroundColor ∧
      ('\t' ∈ c.descriptor.backgroundColor →
        Color.isFunctional c.descriptor.backgroundColor = true) := by
  obtain ⟨options, source, hc⟩ := h.conversion c hresult
  obtain ⟨e, he, rfl⟩ := Conversion.exists_of_ofSource hc
  obtain ⟨hcolor, hbreak⟩ := Descriptor.background_resolve he
  exact ⟨hbreak, Color.isFunctional_of_tab_mem (Color.accept?_eq_some hcolor).1⟩

/-- What a line of the report holds about an outcome. A converted one has the seven fields, unless
its color is written with tabs between the arguments of a function: each of them is one field more. -/
structure IsRecord (o : Outcome) (line : Text) : Prop where
  unbroken : '\n' ∉ line
  failed : ∀ e, o.result = .error e →
    line.splitOn '\t' = (["FAILED", o.label, e.message] : List Text)
  converted : ∀ c, o.result = .ok c → '\t' ∉ c.descriptor.backgroundColor →
    line.splitOn '\t' =
      (["OK", o.label, c.artifacts.markupFileName, c.artifacts.scriptFileName,
        Text.decimal c.descriptor.canvasWidth ++ "x" ++ Text.decimal c.descriptor.canvasHeight,
        c.descriptor.backgroundColor, Text.decimal c.descriptor.procedures.length] : List Text)
  torn : ∀ c, o.result = .ok c → '\t' ∈ c.descriptor.backgroundColor →
    Color.isFunctional c.descriptor.backgroundColor = true ∧
      (line.splitOn '\t').length = 7 + c.descriptor.backgroundColor.count '\t'

theorem tab_not_mem_of_isField {t : Text} (h : IsField t) : '\t' ∉ t := fun hc => (h _ hc).1 rfl

theorem machineFields_of_ok (hresult : o.result = .ok c) :
    machineFields o = leadingFields o.label c ++
      [c.descriptor.backgroundColor, Text.decimal c.descriptor.procedures.length] := by
  rw [machineFields, hresult]
  rfl

theorem isField_machineFields_of_error {e : RunError} (h : o.IsReportable)
    (hresult : o.result = .error e) : ∀ t ∈ machineFields o, IsField t := by
  have hfailed : IsField "FAILED" := by decide
  rw [machineFields, hresult]
  exact List.forall_mem_cons.mpr ⟨hfailed,
    List.forall_mem_cons.mpr ⟨h.label, List.forall_mem_singleton.mpr (h.message e hresult)⟩⟩

theorem splitOn_record (o : Outcome) : (Text.join "\t" (machineFields o)).splitOn '\t' =
    (machineFields o).flatMap (List.splitOn '\t') := by
  refine Text.splitOn_join ?_
  rw [machineFields]
  split <;> exact List.cons_ne_nil _ _

theorem splitOn_record_of_ok (h : o.IsReportable) (hresult : o.result = .ok c) :
    (Text.join "\t" (machineFields o)).splitOn '\t' =
      leadingFields o.label c ++ (c.descriptor.backgroundColor.splitOn '\t' ++
        [Text.decimal c.descriptor.procedures.length]) := by
  have hleading := Text.flatMap_splitOn fun t ht =>
    tab_not_mem_of_isField (isField_leadingFields h hresult t ht)
  have hcount := List.splitOn_eq_singleton (tab_not_mem_of_isField
    (isField_decimal c.descriptor.procedures.length))
  rw [splitOn_record, machineFields_of_ok hresult, List.flatMap_append, hleading,
    List.flatMap_cons, List.flatMap_singleton, hcount]

theorem lineFeed_not_mem_record (h : o.IsReportable) :
    ∀ c ∈ Text.join "\t" (machineFields o), c ≠ '\n' := by
  refine Text.forall_mem_join (by decide) fun t ht => ?_
  cases hresult : o.result with
  | error e =>
    exact fun c hc => (isField_machineFields_of_error h hresult t ht c hc).2
  | ok c =>
    rw [machineFields_of_ok hresult] at ht
    rcases List.mem_append.mp ht with ht | ht
    · exact fun d hd => (isField_leadingFields h hresult t ht d hd).2
    · rcases List.mem_pair.mp ht with rfl | rfl
      · rintro d hd rfl
        exact (background_of_isReportable h hresult).1 hd
      · exact fun d hd => (isField_decimal _ d hd).2

theorem isRecord_record (h : o.IsReportable) :
    IsRecord o (Text.join "\t" (machineFields o)) where
  unbroken := fun hbreak => lineFeed_not_mem_record h _ hbreak rfl
  failed := by
    intro e hresult
    have hfields := Text.flatMap_splitOn fun t ht =>
      tab_not_mem_of_isField (isField_machineFields_of_error h hresult t ht)
    rw [splitOn_record, hfields, machineFields, hresult]
  converted := by
    intro c hresult htab
    rw [splitOn_record_of_ok h hresult, List.splitOn_eq_singleton htab]
    rfl
  torn := by
    intro c hresult htab
    refine ⟨(background_of_isReportable h hresult).2 htab, ?_⟩
    rw [splitOn_record_of_ok h hresult, List.length_append, List.length_append,
      Text.length_splitOn]
    show 5 + (_ + 1 + 1) = _
    omega

theorem machine_isRecord (h : ∀ o ∈ outcomes, o.IsReportable) :
    ∃ lines, machine outcomes = Page.unlines lines ∧ List.Forall₂ IsRecord outcomes lines := by
  refine ⟨_, rfl, ?_⟩
  rw [List.forall₂_map_right_iff, List.forall₂_same]
  exact fun o ho => isRecord_record (h o ho)

def tabbedColor : Text :=
  "body \x7b background-color: rgb(10,\t20,\t30); \x7d\nclass Foo \x7b draw(ctx) \x7b\x7d \x7d"

def tabbedOutcomes : List Outcome :=
  [Batch.outcome ⟨.inert, false⟩ "Foo.jsx" (.ok tabbedColor),
    Batch.outcome ⟨.inert, false⟩ "Empty.jsx" (.ok "")]

theorem machine_isRecord_tabbedOutcomes :
    (∀ o ∈ tabbedOutcomes, o.IsReportable) ∧
      ∃ lines, machine tabbedOutcomes = Page.unlines lines ∧
        List.Forall₂ IsRecord tabbedOutcomes lines := by
  have hreportable : ∀ o ∈ tabbedOutcomes, o.IsReportable := by
    rw [tabbedOutcomes, List.forall_mem_cons, List.forall_mem_singleton]
    exact ⟨Batch.isReportable_outcome (by decide) _ _, Batch.isReportable_outcome (by decide) _ _⟩
  exact ⟨hreportable, machine_isRecord hreportable⟩

/-- The color is taken with the tabs between its arguments. -/
example : Field.backgroundColor.find? tabbedColor .component =
    some ⟨"rgb(10,\t20,\t30)", ⟨25, 40⟩, "background-color"⟩ := by decide +kernel

end Report

end CanvasPage
