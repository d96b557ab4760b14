import CanvasPage.Proofs.Field.QuotedAttribute
import CanvasPage.Proofs.Text.Identifier

namespace CanvasPage

namespace Candidate

open Pattern

variable {tag inside value w rest tag' inside' value' w' rest' source p : Text} {o : Occurrence}

theorem exists_mem_of_sameLetters {u : Text} {c : Char} (h : SameLetters u w) (hc : c ∈ w) :
    ∃ e ∈ u, eitherCase e c = true := by
  induction h with
  | nil => simp at hc
  | cons hed _ ih =>
    rcases List.mem_cons.mp hc with rfl | hc
    · exact ⟨_, List.mem_cons_self, hed⟩
    · obtain ⟨e, he, hec⟩ := ih hc
      exact ⟨e, List.mem_cons_of_mem _ he, hec⟩

theorem not_eitherCase_of_mem_codes : ∀ n ∈ 0x3C :: Text.blankCodes, ∀ e ∈ ("script" : Text),
    eitherCase e (Char.ofNat n) = false := by
  decide

theorem not_eitherCase_script {c e : Char} (hc : c = '<' ∨ Text.isBlank c = true)
    (he : e ∈ ("script" : Text)) : eitherCase e c = false := by
  have hcode : c.toNat ∈ 0x3C :: Text.blankCodes := by
    rcases hc with rfl | hc
    · exact List.mem_cons_self
    · exact List.mem_cons_of_mem _ (Text.mem_blankCodes hc)
  have hfalse := not_eitherCase_of_mem_codes c.toNat hcode e he
  rwa [Char.ofNat_toNat] at hfalse

theorem exists_cons_of_tag (h : SameLetters "<script" tag) : ∃ u, tag = '<' :: u ∧
    ∀ c ∈ u, c ≠ '<' ∧ Text.isBlank c = false := by
  obtain ⟨c, u, hc, hu, rfl⟩ := List.forall₂_cons_left_iff.mp h
  obtain rfl := eq_of_eitherCase (by decide) hc
  refine ⟨u, rfl, fun d hd => ?_⟩
  obtain ⟨e, he, hed⟩ := exists_mem_of_sameLetters hu hd
  have hnot : ¬ (d = '<' ∨ Text.isBlank d = true) := by
    intro h
    rw [not_eitherCase_script h he] at hed
    cases hed
  simpa using hnot

theorem isBlank_of_mem_tag (h : SameLetters "<script" tag) {c : Char} (hc : c ∈ tag) :
    Text.isBlank c = false := by
  obtain ⟨u, rfl, hu⟩ := exists_cons_of_tag h
  rcases List.mem_cons.mp hc with rfl | hc
  · decide
  · exact (hu c hc).2

theorem less_mem_value (h : IsQuoted "src" value w) (hless : '<' ∈ w) : '<' ∈ value := by
  obtain ⟨b, written, bs, cs, q, q', hb, hwritten, hbs, hcs, hq, hq', rfl⟩ := h.split
  have hblank : ∀ {c}, Text.isBlank c = true → '<' ≠ c := by
    rintro c hc rfl
    exact absurd hc (by decide)
  have hquote : ∀ q ∈ ("\"'" : Text), '<' ≠ q := by decide
  rw [Text.allBlank, List.all_eq_true] at hbs hcs
  have hnot : '<' ∉ written := by
    intro hmem
    obtain ⟨e, he, hec⟩ := exists_mem_of_sameLetters hwritten hmem
    have hsub : ∀ e ∈ ("src" : Text), e ∈ ("script" : Text) := by decide
    rw [not_eitherCase_script (.inl rfl) (hsub e he)] at hec
    cases hec
  have hbs' : '<' ∉ bs := fun hmem => hblank (hbs _ hmem) rfl
  have hcs' : '<' ∉ cs := fun hmem => hblank (hcs _ hmem) rfl
  simpa [hblank hb, hquote q hq, hquote q' hq', hnot, hbs', hcs'] using hless

theorem IsFirstQuoted.value_eq_of_inside {z : Text}
    (h : IsFirstQuoted "script" "src" tag inside value w rest)
    (h' : IsFirstQuoted "script" "src" tag' inside' value' w' rest') {b : Text}
    (hinside : inside' = z ++ b) (heq : tag ++ (inside ++ (w ++ rest)) = b ++ (w' ++ rest')) :
    value = value' := by
  obtain ⟨c, v, rfl, hc⟩ := h'.quoted.exists_blank
  have hb : ∃ d, b = tag ++ d ∧ inside ++ (w ++ rest) = d ++ (c :: v ++ rest') := by
    rcases List.append_eq_append_iff.mp heq with ⟨d, rfl, hd⟩ | ⟨d, rfl, hd⟩
    · exact ⟨d, rfl, hd⟩
    · cases d with
      | nil => exact ⟨[], by simp, by simpa using hd.symm⟩
      | cons e d =>
        obtain rfl : c = e := (List.cons.inj hd).1
        rw [isBlank_of_mem_tag h.letters (by simp)] at hc
        cases hc
  obtain ⟨d, rfl, hd⟩ := hb
  have hle := h.length_inside_le h'.quoted hd
  obtain ⟨e, rfl, he⟩ : ∃ e, d = inside ++ e ∧ w ++ rest = e ++ (c :: v ++ rest') := by
    rcases List.append_eq_append_iff.mp hd with ⟨e, rfl, he⟩ | ⟨e, rfl, he⟩
    · exact ⟨e, rfl, he⟩
    · rw [List.length_append] at hle
      obtain rfl : e = [] := List.length_eq_zero_iff.mp (by omega)
      exact ⟨[], by simp, by simpa using he.symm⟩
  by_cases hnil : e = []
  · rw [hnil, List.nil_append] at he
    exact h.quoted.value_eq h'.quoted he
  · have hfirst := h'.first (z ++ (tag ++ inside)) e (by simp [hinside]) hnil
    exact absurd h.quoted (hfirst w value rest he.symm)

theorem IsFirstQuoted.of_crosses (h : IsFirstQuoted "script" "src" tag inside value w rest)
    (hvalue : Text.allBlank value = false)
    (hcrosses : (quotedAttribute "script" "src").Crosses [] p (tag ++ (inside ++ (w ++ rest))) o) :
    ∃ capture, o.groups = [(1, capture)] ∧ Text.allBlank capture.text = false := by
  obtain ⟨x, y, rfl, hne, hat, hwidth⟩ := hcrosses
  obtain ⟨tag', inside', value', w', rest', heq, h', hlength, capture, hgroups, rfl⟩ :=
    exists_isFirstQuoted_of_at? hat
  refine ⟨capture, hgroups, ?_⟩
  obtain ⟨u, rfl, -⟩ := exists_cons_of_tag h.letters
  obtain ⟨u', rfl, hletters⟩ := exists_cons_of_tag h'.letters
  -- Where the covered element begins: in the tag, before the reference or in it.
  obtain ⟨z, rfl, hz⟩ : ∃ z, y = ('<' :: u') ++ z ∧
      z ++ ('<' :: u ++ (inside ++ (w ++ rest))) = inside' ++ (w' ++ rest') := by
    rcases List.append_eq_append_iff.mp heq with ⟨z, hy, hz⟩ | ⟨z, hy, hz⟩
    · cases z with
      | nil => exact ⟨[], by simpa using hy.symm, by simpa using hz⟩
      | cons c z =>
        obtain rfl : '<' = c := (List.cons.inj hz).1
        obtain ⟨d, y, rfl⟩ := List.exists_cons_of_ne_nil hne
        have hmem : '<' ∈ u' := by
          rw [(List.cons.inj hy).2]
          simp
        exact absurd rfl (hletters _ hmem).1
    · exact ⟨z, hy, hz.symm⟩
  rcases List.append_eq_append_iff.mp hz with ⟨b, hb, hafter⟩ | ⟨b, rfl, hafter⟩
  · rw [← h.value_eq_of_inside h' hb hafter]
    exact hvalue
  · have hless : '<' ∈ w' := by
      simp only [List.length_append, List.length_cons] at hwidth hlength
      rcases List.append_eq_append_iff.mp hafter with ⟨d, rfl, -⟩ | ⟨d, rfl, hd⟩
      · rw [List.length_append] at hwidth
        omega
      · cases d with
        | nil =>
          rw [List.length_append, List.length_nil] at hlength
          omega
        | cons c d =>
          obtain rfl : '<' = c := (List.cons.inj hd).1
          simp
    have hmem := less_mem_value h'.quoted hless
    rw [Text.allBlank, List.all_eq_false]
    exact ⟨'<', hmem, by decide⟩

/-- The first quoted `src` of a script element is not blank. -/
def ReferencesScript (source : Text) : Prop :=
  ∃ before tag inside value w rest, source = before ++ (tag ++ (inside ++ (w ++ rest))) ∧
    IsFirstQuoted "script" "src" tag inside value w rest ∧ Text.allBlank value = false

def externalScript : Candidate :=
  ⟨"external-script", quotedAttribute "script" "src", acceptNonEmpty⟩

theorem isSome_acceptNonEmpty :
    (acceptNonEmpty value).isSome = true ↔ Text.allBlank value = false := by
  have htrim : (Text.trim value).isEmpty = false ↔ Text.allBlank value = false := by
    rw [← Bool.not_eq_true, List.isEmpty_iff, Text.allBlank, List.all_eq_false]
    constructor
    · intro hne
      by_contra hblank
      simp only [not_exists, not_and, Bool.not_eq_true, Bool.not_eq_false] at hblank
      have hstart : Text.trimStart value = [] := List.dropWhile_eq_nil_iff.mpr hblank
      exact hne (by rw [Text.trim, hstart]; rfl)
    · rintro ⟨c, hc, hblank⟩
      exact Text.trim_ne_nil hc (by simpa using hblank)
  rw [← htrim, acceptNonEmpty]
  cases (Text.trim value).isEmpty <;> simp

theorem isSome_read?_of_groups {candidate : Candidate} {capture : Capture}
    (h : o.groups = [(1, capture)]) :
    (candidate.read? o).isSome = (candidate.accept capture.text).isSome := by
  have hcapture : capture? o = some capture := by simp [capture?, Occurrence.group?, h]
  rw [read?, hcapture, Option.bind_eq_bind, Option.bind_some]
  cases candidate.accept capture.text <;> rfl

theorem isSome_read?_externalScript {capture : Capture} (h : o.groups = [(1, capture)]) :
    (externalScript.read? o).isSome = true ↔ Text.allBlank capture.text = false := by
  rw [isSome_read?_of_groups h]
  exact isSome_acceptNonEmpty

theorem isSome_find?_externalScript :
    (externalScript.find? source).isSome = true ↔ ReferencesScript source := by
  rw [find?, List.findSome?_isSome_iff]
  constructor
  · rintro ⟨o, ho, hread⟩
    obtain ⟨⟨before, t⟩, hwhole, hat⟩ := exists_at?_of_mem_occurrencesFrom ho
    obtain ⟨tag, inside, value, w, rest, rfl, h, -, capture, hgroups, rfl⟩ :=
      exists_isFirstQuoted_of_at? hat
    refine ⟨before.reverse, tag, inside, capture.text, w, rest, ?_, h,
      (isSome_read?_externalScript hgroups).mp hread⟩
    rw [← Cursor.whole_atStart source]
    exact hwhole.symm
  · rintro ⟨before, tag, inside, value, w, rest, rfl, h, hvalue⟩
    obtain ⟨o, hat⟩ := h.exists_at? before.reverse
    rcases mem_occurrences_or_crosses hat with ho | ⟨o', ho', hcrosses⟩
    · obtain ⟨tag', inside', _, w', rest', heq, h', -, capture, hgroups, rfl⟩ :=
        exists_isFirstQuoted_of_at? hat
      refine ⟨o, ho, (isSome_read?_externalScript hgroups).mpr ?_⟩
      rw [← h.value_eq h' heq]
      exact hvalue
    · obtain ⟨capture, hgroups, hcapture⟩ := h.of_crosses hvalue hcrosses
      exact ⟨o', ho', (isSome_read?_externalScript hgroups).mpr hcapture⟩

theorem isSome_find?_scriptFileName :
    (Field.find? source .markup .scriptFileName).isSome = true ↔ ReferencesScript source := by
  rw [← isSome_find?_externalScript, Field.find?]
  show (List.findSome? _ [externalScript]).isSome = true ↔ _
  rw [List.findSome?_singleton]

/-- Where a source that does not open as a document is taken for a page because of its tags, a
script is found exactly if an element references one. -/
theorem isSome_find?_of_ofSource_eq_markup
    (hopening : (Text.startsWithIgnoringAsciiCase "<!doctype" (Text.trimStart source) ||
      Text.startsWithIgnoringAsciiCase "<html" (Text.trimStart source)) = false) :
    (Mode.ofSource source = .markup →
        (Field.find? source .markup .scriptFileName).isSome = true) ↔
      (Mode.canvasTag.occursIn source = true → Mode.externalScript.occursIn source = true →
        ReferencesScript source) := by
  have hmode : Mode.ofSource source = .markup ↔
      Mode.canvasTag.occursIn source = true ∧ Mode.externalScript.occursIn source = true := by
    rw [Mode.ofSource, hopening, if_neg Bool.false_ne_true, ← Bool.and_eq_true]
    split <;> simp_all
  rw [hmode, isSome_find?_scriptFileName, and_imp]

def dialPage : Text := "<canvas></canvas><script src='dial.js' defer></script>"

theorem isSome_find?_dialPage :
    (Text.startsWithIgnoringAsciiCase "<!doctype" (Text.trimStart dialPage) ||
        Text.startsWithIgnoringAsciiCase "<html" (Text.trimStart dialPage)) = false ∧
      Mode.ofSource dialPage = .markup ∧
      (Field.find? dialPage .markup .scriptFileName).isSome = true := by
  have hopening : (Text.startsWithIgnoringAsciiCase "<!doctype" (Text.trimStart dialPage) ||
      Text.startsWithIgnoringAsciiCase "<html" (Text.trimStart dialPage)) = false := by
    decide +kernel
  have hmode : Mode.ofSource dialPage = .markup := by decide +kernel
  have hreference : ReferencesScript dialPage := by
    refine ⟨"<canvas></canvas>", "<script", [], "dial.js", " src='dial.js'", " defer></script>", rfl,
      ⟨by simp [SameLetters, eitherCase], by decide, by simp, ⟨by decide, by decide,
        ' ', "src", [], [], '\'', '\'', by decide, by simp [SameLetters, eitherCase], rfl, rfl,
        by decide, by decide, rfl⟩, fun u v huv hne => ?_⟩, by decide⟩
    exact absurd (List.append_eq_nil_iff.mp huv.symm).2 hne
  exact ⟨hopening, hmode,
    (isSome_find?_of_ofSource_eq_markup hopening).mpr (fun _ _ => hreference) hmode⟩

end Candidate

end CanvasPage
