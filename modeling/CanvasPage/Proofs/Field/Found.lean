import CanvasPage.Field.Candidate
import CanvasPage.Field.Color
import CanvasPage.Proofs.Pattern.Occurrence
import CanvasPage.Proofs.Text.Trim

namespace CanvasPage.Color

def isColorChar (c : Char) : Bool :=
  c == '#' || c == ')' || Text.isHexDigit c || Text.isAsciiLetter c || isArgumentChar c ||
    functionNames.any (·.any (Pattern.eitherCase · c))

variable {t raw : Text} {c : Char}

theorem mem_of_isHex (h : isHex t = true) (hc : c ∈ t) : c = '#' ∨ Text.isHexDigit c = true := by
  cases t with
  | nil => cases h
  | cons d t =>
    unfold isHex at h
    split at h
    · rename_i digits heq
      obtain ⟨rfl, rfl⟩ := List.cons.inj heq
      rw [Bool.and_eq_true, List.all_eq_true] at h
      rcases List.mem_cons.mp hc with rfl | hc
      · exact .inl rfl
      · exact .inr (h.1 c hc)
    · cases h

theorem isColorChar_of_isHex (h : isHex t = true) (hc : c ∈ t) : isColorChar c = true := by
  rcases mem_of_isHex h hc with rfl | hdigit
  · rfl
  · simp [isColorChar, hdigit]

theorem mem_zip_or_mem_drop {s : Text} (hc : c ∈ t) :
    (∃ d ∈ s, (d, c) ∈ s.zip t) ∨ c ∈ t.drop s.length := by
  induction t generalizing s with
  | nil => cases hc
  | cons e t ih =>
    cases s with
    | nil => exact .inr hc
    | cons d s =>
      rcases List.mem_cons.mp hc with rfl | hc
      · exact .inl ⟨d, by simp, by simp⟩
      · rcases ih (s := s) hc with ⟨f, hf, hzip⟩ | hdrop
        · exact .inl ⟨f, by simp [hf], by simp [hzip]⟩
        · exact .inr hdrop

theorem isColorChar_of_isCallOf {name : Text} (hname : name ∈ functionNames)
    (h : isCallOf name t = true) (hc : c ∈ t) : isColorChar c = true := by
  simp only [isCallOf, Bool.and_eq_true, List.all_eq_true, beq_iff_eq] at h
  obtain ⟨⟨⟨hcase, -⟩, harguments⟩, hlast⟩ := h
  rcases mem_zip_or_mem_drop hc with ⟨d, hd, hzip⟩ | hdrop
  · have heither : Pattern.eitherCase d c = true := hcase (d, c) hzip
    have hany : functionNames.any (·.any (Pattern.eitherCase · c)) = true := by
      rw [List.any_eq_true]
      refine ⟨name, hname, ?_⟩
      rw [List.any_eq_true]
      exact ⟨d, hd, heither⟩
    simp [isColorChar, hany]
  · obtain ⟨u, hu⟩ := List.getLast?_eq_some_iff.mp hlast
    rw [hu, List.dropLast_concat] at harguments
    rw [hu] at hdrop
    rcases List.mem_append.mp hdrop with hc | hc
    · simp [isColorChar, harguments c hc]
    · rw [List.mem_singleton.mp hc]
      rfl

theorem isColorChar_of_isNamed (h : isNamed t = true) (hc : c ∈ t) : isColorChar c = true := by
  rw [isNamed, Bool.and_eq_true, List.all_eq_true] at h
  simp [isColorChar, h.1 c hc]

def isColor (t : Text) : Bool := !t.isEmpty && (isHex t || isFunctional t || isNamed t)

theorem isColorChar_of_isColor (h : isColor t = true) : ∀ c ∈ t, isColorChar c = true := by
  intro c hc
  rw [isColor, Bool.and_eq_true, Bool.or_eq_true, Bool.or_eq_true] at h
  rcases h.2 with (hhex | hfunctional) | hnamed
  · exact isColorChar_of_isHex hhex hc
  · rw [isFunctional, List.any_eq_true] at hfunctional
    obtain ⟨name, hname, hcall⟩ := hfunctional
    exact isColorChar_of_isCallOf hname hcall hc
  · exact isColorChar_of_isNamed hnamed hc

theorem mem_of_mem_dropSuffixes {suffix : Text} (h : c ∈ Text.dropSuffixes suffix t) : c ∈ t := by
  have hgo : ∀ (n : Nat) (u : Text), c ∈ Text.dropSuffixes.go suffix n u → c ∈ u := by
    intro n
    induction n with
    | zero => exact fun _ hc => hc
    | succ n ih =>
      intro u hc
      rw [Text.dropSuffixes.go] at hc
      split at hc
      · exact List.mem_of_mem_take (ih _ hc)
      · exact hc
  exact hgo _ _ h

theorem accept?_eq_some (h : accept? raw = some t) :
    isColor t = true ∧ Text.trim t = t ∧ ∀ c ∈ t, c ∈ raw := by
  simp only [accept?] at h
  split at h
  · rename_i hcolor
    obtain rfl := Option.some.inj h
    refine ⟨hcolor, Text.trim_trim _, fun c hc => ?_⟩
    exact Text.mem_of_mem_trim (mem_of_mem_dropSuffixes (Text.mem_of_mem_trim hc))
  · cases h

theorem go_dropSuffixes (suffix : Text) (n : Nat) (h : suffix.isSuffixOf t = false) :
    Text.dropSuffixes.go suffix n t = t := by
  cases n with
  | zero => rfl
  | succ n => simp [Text.dropSuffixes.go, h]

theorem isSuffixOf_eq_false {suffix : Text} (hc : c ∈ suffix) (h : c ∉ t) :
    suffix.isSuffixOf t = false := by
  rw [← Bool.not_eq_true, List.isSuffixOf_iff_suffix]
  exact fun hsuffix => h (hsuffix.subset hc)

theorem accept?_accept? (h : accept? raw = some t) : accept? t = some t := by
  obtain ⟨hcolor, htrim, -⟩ := accept?_eq_some h
  have hmark : '!' ∉ t := by
    intro hc
    have hchar := isColorChar_of_isColor hcolor '!' hc
    revert hchar
    decide
  have hdrop : Text.dropSuffixes "!important" t = t :=
    go_dropSuffixes _ _ (isSuffixOf_eq_false (by decide) hmark)
  rw [accept?, htrim, hdrop, htrim]
  exact if_pos hcolor

end CanvasPage.Color

namespace CanvasPage

namespace Candidate

variable {P : Char → Prop} {candidate : Candidate} {m : FieldMatch} {source : Text}

theorem exists_mem_groups_of_capture? {o : Occurrence} {capture : Capture}
    (h : capture? o = some capture) : ∃ g ∈ o.groups, g.2 = capture := by
  obtain ⟨index, -, hindex⟩ := List.exists_of_findSome?_eq_some h
  obtain ⟨g, hg, rfl⟩ := Option.map_eq_some_iff.mp hindex
  exact ⟨g, List.mem_of_find?_eq_some hg, rfl⟩

theorem acceptNonEmpty_eq_some {raw t : Text} (h : acceptNonEmpty raw = some t) :
    t ≠ [] ∧ Text.trim t = t ∧ ∀ c ∈ t, c ∈ raw := by
  simp only [acceptNonEmpty] at h
  split at h
  · cases h
  · rename_i hne
    obtain rfl := Option.some.inj h
    exact ⟨by simpa using hne, Text.trim_trim _, fun c hc => Text.mem_of_mem_trim hc⟩

theorem acceptElementId_eq_some {raw t : Text} (h : acceptElementId raw = some t) :
    t ≠ [] ∧ (∀ c ∈ t, Text.isBlank c = false) ∧ ∀ c ∈ t, c ∈ raw := by
  simp only [acceptElementId] at h
  split at h
  · cases h
  · rename_i hne
    obtain rfl := Option.some.inj h
    simp only [Bool.or_eq_true, List.isEmpty_iff, List.any_eq_true, not_or, not_exists, not_and,
      Bool.not_eq_true] at hne
    exact ⟨hne.1, hne.2, fun c hc => Text.mem_of_mem_trim hc⟩

theorem exists_capture_of_find? (h : candidate.find? source = some m) :
    ∃ o ∈ candidate.pattern.occurrences source, ∃ g, capture? o = some g ∧
      candidate.accept g.text = some m.text ∧ m.span = g.span ∧ m.candidate = candidate.id := by
  obtain ⟨o, ho, hread⟩ := List.exists_of_findSome?_eq_some h
  obtain ⟨g, hg, hread⟩ := Option.bind_eq_some_iff.mp hread
  obtain ⟨text, htext, hread⟩ := Option.bind_eq_some_iff.mp hread
  obtain rfl := Option.some.inj hread
  exact ⟨o, ho, g, hg, htext, rfl, rfl⟩

theorem exists_of_find? (hP : candidate.pattern.CapturesOnly P)
    (h : candidate.find? source = some m) :
    ∃ raw, (∀ c ∈ raw, P c) ∧ candidate.accept raw = some m.text := by
  obtain ⟨o, ho, capture, hcapture, htext, -, -⟩ := exists_capture_of_find? h
  obtain ⟨g, hg, rfl⟩ := exists_mem_groups_of_capture? hcapture
  exact ⟨g.2.text, Pattern.captured_of_mem_occurrences hP ho g hg, htext⟩

open Pattern

theorem capturesOnly_quotedBy (index : Nat) (quote : Char) :
    (quotedBy index quote).CapturesOnly (· ≠ '\n') := by
  refine ⟨⟨trivial, ?_, trivial⟩, trivial⟩
  exact takesOnly_noneOf (by simp)

theorem capturesOnly_quotedOrStyleValue : quotedOrStyleValue.CapturesOnly (· ≠ '\n') := by
  have hvalue : (anyOf [noneOf ";,\x7d'\"\n()",
      "(" ++ many (noneOf ")\n") ++ ")"]).TakesOnly (· ≠ '\n') := by
    apply takesOnly_anyOf
    intro pattern hp
    simp only [List.mem_cons, List.not_mem_nil, or_false] at hp
    rcases hp with rfl | rfl
    · exact takesOnly_noneOf (by decide)
    · exact ⟨⟨takesOnly_literal (by decide), takesOnly_noneOf (by decide)⟩,
        takesOnly_literal (by decide)⟩
  have hnogroup : (anyOf [noneOf ";,\x7d'\"\n()",
      "(" ++ many (noneOf ")\n") ++ ")"]).CapturesOnly (· ≠ '\n') := by
    apply capturesOnly_anyOf
    intro pattern hp
    simp only [List.mem_cons, List.not_mem_nil, or_false] at hp
    rcases hp with rfl | rfl
    · trivial
    · exact ⟨⟨capturesOnly_literal _, trivial⟩, capturesOnly_literal _⟩
  apply capturesOnly_anyOf
  intro pattern hp
  simp only [List.mem_cons, List.not_mem_nil, or_false] at hp
  rcases hp with rfl | rfl | rfl
  · exact capturesOnly_quotedBy 1 '\''
  · exact capturesOnly_quotedBy 2 '"'
  · exact ⟨⟨hvalue, hvalue⟩, hnogroup, hnogroup⟩

theorem capturesOnly_backgrounds :
    ∀ candidate ∈ backgrounds, candidate.pattern.CapturesOnly (· ≠ '\n') := by
  have hquoted : (anyOf [quotedBy 1 '\'', quotedBy 2 '"', quotedBy 3 (Char.ofNat 96)]).CapturesOnly
      (· ≠ '\n') := by
    apply capturesOnly_anyOf
    intro pattern hp
    simp only [List.mem_cons, List.not_mem_nil, or_false] at hp
    rcases hp with rfl | rfl | rfl
    · exact capturesOnly_quotedBy 1 '\''
    · exact capturesOnly_quotedBy 2 '"'
    · exact capturesOnly_quotedBy 3 _
  intro candidate hc
  simp only [backgrounds, List.mem_cons, List.not_mem_nil, or_false] at hc
  rcases hc with rfl | rfl | rfl
  · exact ⟨⟨⟨⟨⟨trivial, capturesOnly_literal _⟩, trivial⟩, capturesOnly_literal _⟩, trivial⟩,
      capturesOnly_quotedOrStyleValue⟩
  · exact ⟨⟨⟨⟨⟨trivial, capturesOnly_literal _⟩, trivial⟩, capturesOnly_literal _⟩, trivial⟩,
      hquoted⟩
  · refine ⟨⟨⟨⟨⟨⟨⟨trivial, capturesOnly_literal _⟩, ?_⟩, capturesOnly_literal _⟩, trivial⟩,
      capturesOnly_literal _⟩, trivial⟩, capturesOnly_quotedOrStyleValue⟩
    apply capturesOnly_anyOf
    intro pattern hp
    simp only [List.mem_cons, List.not_mem_nil, or_false] at hp
    rcases hp with rfl | rfl
    · exact capturesOnly_literal _
    · exact capturesOnly_literal _

theorem capturesOnly_quotedAttribute (element name : Text) :
    (quotedAttribute element name).CapturesOnly fun c => c ≠ '"' ∧ c ≠ '\'' := by
  have hattribute : (attributeOf element name).CapturesOnly fun c => c ≠ '"' ∧ c ≠ '\'' := by
    refine ⟨⟨⟨⟨⟨⟨⟨?_, trivial⟩, trivial⟩, trivial⟩, ?_⟩, trivial⟩, ?_⟩, trivial⟩
    · exact capturesOnly_literalEitherCase _
    · exact capturesOnly_literalEitherCase _
    · exact capturesOnly_literal _
  have hvalue : (noneOf "\"'").TakesOnly fun c => c ≠ '"' ∧ c ≠ '\'' := fun c hc =>
    ⟨takesOnly_noneOf (by decide) c hc, takesOnly_noneOf (by decide) c hc⟩
  exact ⟨⟨⟨hattribute, trivial⟩, ⟨hvalue, hvalue⟩, trivial, trivial⟩, trivial⟩

end Candidate

namespace Field

variable {source : Text} {mode : Mode} {m : FieldMatch}

theorem background_of_find? (h : find? source mode .backgroundColor = some m) :
    Color.accept? m.text = some m.text ∧ '\n' ∉ m.text := by
  obtain ⟨candidate, hcandidate, hfind⟩ := List.exists_of_findSome?_eq_some h
  have hmem : candidate ∈ Candidate.backgrounds := by
    cases mode <;> exact hcandidate
  have haccept : candidate.accept = Color.accept? := by
    simp only [Candidate.backgrounds, List.mem_cons, List.not_mem_nil, or_false] at hmem
    rcases hmem with rfl | rfl | rfl <;> rfl
  obtain ⟨raw, hraw, htext⟩ :=
    Candidate.exists_of_find? (Candidate.capturesOnly_backgrounds candidate hmem) hfind
  rw [haccept] at htext
  obtain ⟨-, -, hsub⟩ := Color.accept?_eq_some htext
  exact ⟨Color.accept?_accept? htext, fun hbreak => hraw '\n' (hsub '\n' hbreak) rfl⟩

theorem canvasId_of_find? (h : find? source mode .canvasId = some m) :
    m.text ≠ [] ∧ ∀ c ∈ m.text, Text.isBlank c = false ∧ c ≠ '"' ∧ c ≠ '\'' := by
  obtain ⟨candidate, hcandidate, hfind⟩ := List.exists_of_findSome?_eq_some h
  cases mode with
  | component => cases hcandidate
  | markup =>
    obtain rfl := List.mem_singleton.mp hcandidate
    obtain ⟨raw, hraw, htext⟩ :=
      Candidate.exists_of_find? (Candidate.capturesOnly_quotedAttribute "canvas" "id") hfind
    obtain ⟨hne, hblank, hsub⟩ := Candidate.acceptElementId_eq_some htext
    exact ⟨hne, fun c hc => ⟨hblank c hc, hraw c (hsub c hc)⟩⟩

theorem script_of_find? (h : find? source mode .scriptFileName = some m) :
    mode = .markup ∧ m.text ≠ [] ∧ Text.trim m.text = m.text ∧
      ∀ c ∈ m.text, c ≠ '"' ∧ c ≠ '\'' := by
  obtain ⟨candidate, hcandidate, hfind⟩ := List.exists_of_findSome?_eq_some h
  cases mode with
  | component => cases hcandidate
  | markup =>
    obtain rfl := List.mem_singleton.mp hcandidate
    obtain ⟨raw, hraw, htext⟩ :=
      Candidate.exists_of_find? (Candidate.capturesOnly_quotedAttribute "script" "src") hfind
    obtain ⟨hne, htrim, hsub⟩ := Candidate.acceptNonEmpty_eq_some htext
    exact ⟨rfl, hne, htrim, fun c hc => hraw c (hsub c hc)⟩

end Field

end CanvasPage
