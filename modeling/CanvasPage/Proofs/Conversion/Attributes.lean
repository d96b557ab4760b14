import CanvasPage.Proofs.Conversion.PlainMethods
import CanvasPage.Proofs.Field.Faithful
import CanvasPage.Proofs.Script.LiteralTexts

namespace CanvasPage

namespace Page

variable {t rest : Text} {d : Descriptor}

section Entities

/-- The value of an attribute text, as far as the entities of `&`, `<` and the double quote go. -/
def decodeEntities : Text → Text
  | '&' :: 'a' :: 'm' :: 'p' :: ';' :: rest => '&' :: decodeEntities rest
  | '&' :: 'l' :: 't' :: ';' :: rest => '<' :: decodeEntities rest
  | '&' :: 'q' :: 'u' :: 'o' :: 't' :: ';' :: rest => '"' :: decodeEntities rest
  | c :: rest => c :: decodeEntities rest
  | [] => []

def HasEntity (t : Text) : Prop := ∃ e ∈ (["&amp;", "&lt;", "&quot;"] : List Text), e <:+: t

theorem decodeEntities_cons {c : Char} (h : c ≠ '&') (t : Text) :
    decodeEntities (c :: t) = c :: decodeEntities t := by
  rw [decodeEntities.eq_def]
  split <;> simp_all

theorem escapeAttributeChar_cases (c : Char) : (c = '&' ∨ c = '"' ∨ c = '<') ∨
    c ≠ '&' ∧ c ≠ '"' ∧ escapeAttributeChar c = [c] := by
  by_cases hamp : c = '&'
  · exact .inl (.inl hamp)
  · by_cases hquote : c = '"'
    · exact .inl (.inr (.inl hquote))
    · by_cases hless : c = '<'
      · exact .inl (.inr (.inr hless))
      · exact .inr ⟨hamp, hquote, escapeAttributeChar_of_ne hamp hquote hless⟩

theorem decodeEntities_escapeAttribute (t : Text) : decodeEntities (escapeAttribute t) = t := by
  induction t with
  | nil => rfl
  | cons c t ih =>
    rcases escapeAttributeChar_cases c with (rfl | rfl | rfl) | ⟨hamp, -, hc⟩
    · exact congrArg ('&' :: ·) ih
    · exact congrArg ('"' :: ·) ih
    · exact congrArg ('<' :: ·) ih
    · rw [escapeAttribute, List.flatMap_cons, hc, List.singleton_append, decodeEntities_cons hamp]
      exact congrArg (c :: ·) ih

theorem not_mem_escapeAttribute (t : Text) : '"' ∉ escapeAttribute t := by
  intro hmem
  obtain ⟨c, -, hmem⟩ := List.mem_flatMap.mp hmem
  rcases escapeAttributeChar_cases c with (rfl | rfl | rfl) | ⟨-, hquote, hc⟩
  · exact absurd hmem (by decide)
  · exact absurd hmem (by decide)
  · exact absurd hmem (by decide)
  · rw [hc, List.mem_singleton] at hmem
    exact hquote hmem.symm

theorem hasEntity_cons {c : Char} (h : HasEntity (c :: t))
    (hfirst : ∀ e ∈ (["&amp;", "&lt;", "&quot;"] : List Text), ¬ e <+: c :: t) : HasEntity t := by
  obtain ⟨e, he, hwithin⟩ := h
  rcases List.infix_cons_iff.mp hwithin with hprefix | hwithin
  · exact absurd hprefix (hfirst e he)
  · exact ⟨e, he, hwithin⟩

theorem length_decodeEntities_le (t : Text) : (decodeEntities t).length ≤ t.length := by
  fun_induction decodeEntities t with
  | case1 rest ih | case2 rest ih | case3 rest ih =>
    simp only [List.length_cons]
    omega
  | case4 c rest _ _ _ ih => simpa using ih
  | case5 => exact Nat.le_refl 0

theorem length_decodeEntities_lt (h : HasEntity t) : (decodeEntities t).length < t.length := by
  fun_induction decodeEntities t with
  | case1 rest ih | case2 rest ih | case3 rest ih =>
    have hle := length_decodeEntities_le rest
    simp only [List.length_cons]
    omega
  | case4 c rest hamp hless hquote ih =>
    have hfirst : ∀ e ∈ (["&amp;", "&lt;", "&quot;"] : List Text), ¬ e <+: c :: rest := by
      simp only [List.mem_cons, List.not_mem_nil, or_false]
      rintro e (rfl | rfl | rfl) ⟨after, hafter⟩
      · exact hamp after (List.cons.inj hafter).1.symm (List.cons.inj hafter).2.symm
      · exact hless after (List.cons.inj hafter).1.symm (List.cons.inj hafter).2.symm
      · exact hquote after (List.cons.inj hafter).1.symm (List.cons.inj hafter).2.symm
    simpa using ih (hasEntity_cons h hfirst)
  | case5 =>
    obtain ⟨e, he, hwithin⟩ := h
    rw [List.infix_nil] at hwithin
    rw [hwithin] at he
    exact absurd he (by decide)

theorem hasEntity_of_isInfix {s : Text} (hs : s <:+: t) (h : HasEntity s) : HasEntity t := by
  obtain ⟨e, he, hwithin⟩ := h
  exact ⟨e, he, hwithin.trans hs⟩

theorem decodeEntities_eq_self (h : ¬ HasEntity t) : decodeEntities t = t := by
  fun_induction decodeEntities t with
  | case1 rest => exact absurd ⟨"&amp;", by simp, [], rest, rfl⟩ h
  | case2 rest => exact absurd ⟨"&lt;", by simp, [], rest, rfl⟩ h
  | case3 rest => exact absurd ⟨"&quot;", by simp, [], rest, rfl⟩ h
  | case4 c rest _ _ _ ih =>
    rw [ih fun hrest => h (hasEntity_of_isInfix (List.infix_cons (List.infix_refl rest)) hrest)]
  | case5 => rfl

theorem decodeEntities_eq_self_iff : decodeEntities t = t ↔ ¬ HasEntity t := by
  refine ⟨fun heq h => ?_, decodeEntities_eq_self⟩
  have hlt := length_decodeEntities_lt h
  rw [heq] at hlt
  exact Nat.lt_irrefl _ hlt

end Entities

section Strings

/-- The value of a single-quoted script string after its opening quote, and what follows it. Only
escapes of quotes and backslashes are read. -/
def readString : Text → Option (Text × Text)
  | [] => none
  | '\'' :: rest => some ([], rest)
  | '\\' :: c :: rest =>
      if c == '\\' || c == '\'' || c == '"' then
        (readString rest).map fun (value, after) => (c :: value, after)
      else none
  | c :: rest =>
      if c == '\\' || c == '\n' || c == '\r' then none
      else (readString rest).map fun (value, after) => (c :: value, after)

theorem readString_escapeString (h : '\n' ∉ t ∧ '\r' ∉ t) (rest : Text) :
    readString (escapeString t ++ '\'' :: rest) = some (t, rest) := by
  induction t with
  | nil => rfl
  | cons c t ih =>
    have ih := ih ⟨fun hc => h.1 (by simp [hc]), fun hc => h.2 (by simp [hc])⟩
    rw [escapeString_cons, List.append_assoc]
    by_cases hslash : c = '\\'
    · subst hslash
      simp [readString, ih]
    · by_cases hquote : c = '\''
      · subst hquote
        simp [readString, ih]
      · have hbreak : c ≠ '\n' ∧ c ≠ '\r' :=
          ⟨fun hc => h.1 (by simp [hc]), fun hc => h.2 (by simp [hc])⟩
        simp [hslash, hquote, readString, hbreak, ih]

end Strings

section Documents

/-- The page of a descriptor with these texts between the quotes of its two free attributes. -/
def withAttributes (d : Descriptor) (canvasId source : Text) : Text :=
  beforeTitle ++ ("<title>" ++ (d.name ++ (beforeBackground ++ ("background: " ++
    (d.backgroundColor ++ (beforeCanvas ++ ("<canvas id=\"" ++ (canvasId ++ ("\" width=\"" ++
      (Text.decimal d.canvasWidth ++ ("\" height=\"" ++ (Text.decimal d.canvasHeight ++
        (beforeScript ++ ("<script src=\"" ++ (source ++ afterScript)))))))))))))))

/-- A script up to the name of the element that it draws on. -/
def lookupLead (d : Descriptor) : Text :=
  "// " ++ d.name ++ " - standalone canvas animation\n" ++
    "document.addEventListener('DOMContentLoaded', function() \x7b\n" ++
      "    var canvas = document.getElementById("

theorem exists_script_lookup (d : Descriptor) (overrides : Bool) :
    ∃ rest, script d overrides =
      lookupLead d ++ '\'' :: (escapeString d.canvasId ++ '\'' :: ')' :: rest) := by
  have htitle : (" - standalone canvas animation\n" : Text) =
      " - standalone canvas animation" ++ ['\n'] := rfl
  have hlistener : ("document.addEventListener('DOMContentLoaded', function() \x7b\n" : Text) =
      "document.addEventListener('DOMContentLoaded', function() \x7b" ++ ['\n'] := rfl
  have hlookup : ("    var canvas = document.getElementById('" : Text) =
      "    var canvas = document.getElementById(" ++ ['\''] := rfl
  have hclose : ("');" : Text) = '\'' :: ')' :: [';'] := rfl
  have hhead : ∃ rest, headText d =
      lookupLead d ++ '\'' :: (escapeString d.canvasId ++ '\'' :: ')' :: rest) := by
    unfold headText lookupLead
    rw [unlines, List.flatMap_cons, List.flatMap_cons, List.flatMap_cons, htitle, hlistener,
      hlookup, hclose]
    simp only [List.append_assoc, List.cons_append, List.nil_append]
    exact ⟨_, rfl⟩
  obtain ⟨rest, hrest⟩ := hhead
  unfold script
  rw [hrest]
  simp only [List.append_assoc, List.cons_append]
  exact ⟨_, rfl⟩

/-- What becomes of a captured attribute: `value` stands between the quotes in the page. -/
structure IsCarried (source : Text) (m : FieldMatch) (value : Text) : Prop where
  captured : ∃ raw, m.span.slice? source = some raw ∧ Text.trim raw = m.text
  unquoted : '"' ∉ value
  decoded : decodeEntities value = m.text
  kept : decodeEntities value = decodeEntities m.text ↔ ¬ HasEntity m.text

theorem isCarried_escapeAttribute {source : Text} {m : FieldMatch}
    (h : ∃ raw, m.span.slice? source = some raw ∧ Text.trim raw = m.text) :
    IsCarried source m (escapeAttribute m.text) := by
  refine ⟨h, not_mem_escapeAttribute _, decodeEntities_escapeAttribute _, ?_⟩
  rw [decodeEntities_escapeAttribute, eq_comm, decodeEntities_eq_self_iff]

end Documents

end Page

namespace Candidate

variable {candidate : Candidate} {source : Text} {m : FieldMatch}

theorem slice?_of_find? (h : candidate.find? source = some m) :
    ∃ raw, m.span.slice? source = some raw ∧ candidate.accept raw = some m.text := by
  obtain ⟨before, raw, after, hsource, hspan, -, hreads⟩ := readsAt_of_find? h
  refine ⟨raw, ?_, hreads.accepted⟩
  rw [hspan, hsource, Span.slice?_append]

end Candidate

namespace Field

variable {source : Text} {field : Field} {m : FieldMatch}

theorem exists_trim_of_find? (hfield : field = .scriptFileName ∨ field = .canvasId)
    (h : field.find? source .markup = some m) :
    ∃ raw, m.span.slice? source = some raw ∧ Text.trim raw = m.text := by
  obtain ⟨candidate, hcandidate, hfind⟩ := List.exists_of_findSome?_eq_some h
  obtain ⟨raw, hslice, haccept⟩ := Candidate.slice?_of_find? hfind
  refine ⟨raw, hslice, ?_⟩
  rcases hfield with rfl | rfl
  · obtain rfl := List.mem_singleton.mp hcandidate
    simp only [Candidate.acceptNonEmpty] at haccept
    split at haccept
    · cases haccept
    · exact Option.some.inj haccept
  · obtain rfl := List.mem_singleton.mp hcandidate
    simp only [Candidate.acceptElementId] at haccept
    split at haccept
    · cases haccept
    · exact Option.some.inj haccept

end Field

namespace Conversion

variable {source : Text} {e : Extraction} {m : FieldMatch}

theorem get?_of_markup (he : Extraction.ofSource source = .ok e)
    (hmode : Mode.ofSource source = .markup) (field : Field) :
    e.get? field = field.find? source .markup := by
  rw [Extraction.get?_ofSource he, (Extraction.of_ofSource he).1, hmode]

theorem not_allBlank_of_markup (h : Mode.ofSource source = .markup) :
    Text.allBlank source = false := by
  rw [← Bool.not_eq_true]
  intro hblank
  have hless : '<' ∉ source := fun hmem => by
    have hc := List.all_eq_true.mp hblank _ hmem
    revert hc
    decide
  rw [Mode.ofSource_of_not_mem_less hless] at h
  cases h

theorem scriptSource_ofExtraction (options : ConversionOptions)
    (h : e.get? .scriptFileName = some m) :
    (ofExtraction options e).descriptor.scriptSource = m.text := by
  show (e.text? .scriptFileName).getD _ = m.text
  rw [Extraction.text?, h]
  rfl

theorem canvasId_ofExtraction (options : ConversionOptions) (h : e.get? .canvasId = some m) :
    (ofExtraction options e).descriptor.canvasId = m.text := by
  show (e.text? .canvasId).getD _ = m.text
  rw [Extraction.text?, h]
  rfl

/-- The script and the canvas that a document names get attributes whose values are the texts of
the original ones. The values are the same just where these have no entity. -/
theorem ofSource_attributes (options : ConversionOptions)
    (hmode : Mode.ofSource source = .markup) :
    ∃ r canvasId script, ofSource options source = .ok r ∧
      r.artifacts.markupText = Page.withAttributes r.descriptor canvasId script ∧
      (∀ m, r.extraction.get? .scriptFileName = some m → Page.IsCarried source m script) ∧
      ∀ m, r.extraction.get? .canvasId = some m → Page.IsCarried source m canvasId ∧
        ∃ after rest, r.artifacts.scriptText = Page.lookupLead r.descriptor ++ '\'' :: after ∧
          Page.readString after = some (Page.decodeEntities canvasId, ')' :: rest) := by
  obtain ⟨e, he, -, -⟩ := Extraction.exists_ofSource (not_allBlank_of_markup hmode)
  have hget := get?_of_markup he hmode
  refine ⟨_, _, _, ofSource_of_extraction options he, Page.markup_eq _ _, fun m hm => ?_,
    fun m hm => ?_⟩
  · have hsource : (ofExtraction options e).descriptor.scriptSource = m.text :=
      scriptSource_ofExtraction options hm
    have hfound := (hget .scriptFileName).symm.trans hm
    exact hsource ▸ Page.isCarried_escapeAttribute (Field.exists_trim_of_find? (.inl rfl) hfound)
  · have hid : (ofExtraction options e).descriptor.canvasId = m.text :=
      canvasId_ofExtraction options hm
    have hfound := (hget .canvasId).symm.trans hm
    have hchars := (Field.canvasId_of_find? hfound).2
    have hbreak : '\n' ∉ m.text ∧ '\r' ∉ m.text :=
      ⟨fun hmem => absurd (hchars _ hmem).1 (by decide),
        fun hmem => absurd (hchars _ hmem).1 (by decide)⟩
    refine ⟨hid ▸ Page.isCarried_escapeAttribute (Field.exists_trim_of_find? (.inr rfl) hfound), ?_⟩
    obtain ⟨rest, hscript⟩ :=
      Page.exists_script_lookup (ofExtraction options e).descriptor options.urlOverrides
    refine ⟨_, rest, hscript, ?_⟩
    rw [Page.decodeEntities_escapeAttribute]
    exact Page.readString_escapeString (hid ▸ hbreak) _

/-- A document whose attributes have entities. -/
def shelfPage : Text :=
  "<html><canvas id=\"a&lt;b\"></canvas><script src=\" x.js?a&amp;b \"></script></html>"

theorem ofSource_attributes_shelfPage :
    Mode.ofSource shelfPage = .markup ∧
      ∃ r canvasId script, ofSource ⟨.inert, false⟩ shelfPage = .ok r ∧
        r.artifacts.markupText = Page.withAttributes r.descriptor canvasId script ∧
        (∀ m, r.extraction.get? .scriptFileName = some m → Page.IsCarried shelfPage m script) ∧
        ∀ m, r.extraction.get? .canvasId = some m → Page.IsCarried shelfPage m canvasId ∧
          ∃ after rest, r.artifacts.scriptText = Page.lookupLead r.descriptor ++ '\'' :: after ∧
            Page.readString after = some (Page.decodeEntities canvasId, ')' :: rest) :=
  ⟨by decide +kernel, ofSource_attributes ⟨.inert, false⟩ (by decide +kernel)⟩

/-- An entity is escaped once more. -/
example : Page.escapeAttribute "x.js?a&amp;b" = "x.js?a&amp;amp;b" ∧
    Page.decodeEntities "x.js?a&amp;amp;b" = "x.js?a&amp;b" ∧
    Page.decodeEntities "x.js?a&amp;b" = "x.js?a&b" := by decide

end Conversion

end CanvasPage
