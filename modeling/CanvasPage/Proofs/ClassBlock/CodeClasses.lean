import CanvasPage.Proofs.ClassBlock.ClassSpans
import CanvasPage.Proofs.Script.Neutral

namespace CanvasPage

open Script

namespace ClassBlock

/-- The class that begins at a place in a text and has a body that closes, with its length. -/
def classAt? (c : Cursor) : Option (ClassBlock × Nat) := (header.at? c).bind ofHeader?

/-- The classes that begin at the byte offsets of which `test` holds, each behind the one before. -/
def scanWhere (test : Nat → Bool) (covered : Nat) (before : Text) : Text → List ClassBlock
  | [] => []
  | c :: rest =>
      match covered with
      | covered + 1 => scanWhere test covered (c :: before) rest
      | 0 =>
          match classAt? ⟨before, c :: rest⟩ with
          | none => scanWhere test 0 (c :: before) rest
          | some (block, width) =>
              if test (Text.byteLength before) then
                block :: scanWhere test (width - 1) (c :: before) rest
              else scanWhere test 0 (c :: before) rest

def codeClasses (source : Text) : List ClassBlock := scanWhere (isCodeOffset source) 0 [] source

section Step

variable {test : Nat → Bool} {before t : Text} {c : Char} {block : ClassBlock} {width : Nat}

theorem scanWhere_of_eq_none (h : classAt? ⟨before, c :: t⟩ = none) :
    scanWhere test 0 before (c :: t) = scanWhere test 0 (c :: before) t := by
  rw [scanWhere, h]

theorem scanWhere_of_pos (h : classAt? ⟨before, c :: t⟩ = some (block, width))
    (htest : test (Text.byteLength before) = true) :
    scanWhere test 0 before (c :: t) = block :: scanWhere test (width - 1) (c :: before) t := by
  rw [scanWhere, h]
  exact if_pos htest

theorem scanWhere_of_neg (h : classAt? ⟨before, c :: t⟩ = some (block, width))
    (htest : test (Text.byteLength before) = false) :
    scanWhere test 0 before (c :: t) = scanWhere test 0 (c :: before) t := by
  rw [scanWhere, h]
  exact if_neg (by rw [htest]; exact Bool.false_ne_true)

end Step

section Place

variable {before t : Text} {block : ClassBlock} {width : Nat}

theorem exists_of_classAt? (h : classAt? ⟨before, t⟩ = some (block, width)) :
    ∃ own after, t = own ++ after ∧ own ≠ [] ∧ width = own.length ∧
      block.span = .behind before.reverse own := by
  obtain ⟨o, ho, hblock⟩ := Option.bind_eq_some_iff.mp h
  rw [← List.reverse_reverse before] at ho
  obtain ⟨own, after, ht, hown, hwidth, hspan, -⟩ := exists_stands ho hblock
  exact ⟨own, after, ht, hown, hwidth, hspan⟩

theorem ofHeader?_eq_none_iff {o : Occurrence} :
    ofHeader? o = none ↔ Bracket.brace.enclosed? o.stop.after = none := by
  rw [ofHeader?]
  cases Bracket.brace.enclosed? o.stop.after with
  | none => exact iff_of_true rfl rfl
  | some found => exact iff_of_false (Option.some_ne_none _) (Option.some_ne_none _)

theorem brace_not_mem_class : '\x7b' ∉ ("class" : Text) := by decide

/-- A header that begins within another one reaches the same brace. -/
theorem classAt?_eq_none_of_covered {u v : Text} {o : Occurrence}
    (h : header.at? ⟨before, u ++ v⟩ = some o) (hnone : ofHeader? o = none)
    (hu : u.length < o.width) : classAt? ⟨u.reverse ++ before, v⟩ = none := by
  rw [classAt?, Option.bind_eq_none_iff]
  intro o' h'
  obtain ⟨head, ht, hhead, -, hwidth, -⟩ := exists_head h
  obtain ⟨head', hv, hhead', -⟩ := exists_head h'
  rw [← List.append_assoc] at ht hv
  have hfree : ∀ {z}, IsHead z → '\x7b' ∉ "class" ++ z := fun hz => by
    rw [List.mem_append, not_or]
    exact ⟨brace_not_mem_class, hz.no_brace⟩
  have hstart : u <+: "class" ++ head := by
    refine List.prefix_of_prefix_length_le (List.prefix_append u v) (ht ▸ List.prefix_append _ _) ?_
    rw [hwidth, ← List.append_assoc, List.length_append, List.length_singleton] at hu
    exact Nat.le_of_lt_succ hu
  have hread : '\x7b' ∉ u ++ ("class" ++ head') := by
    rw [List.mem_append, not_or]
    exact ⟨fun hc => hfree hhead (hstart.subset hc), hfree hhead'⟩
  rw [hv, ← List.append_assoc] at ht
  obtain ⟨-, hafter⟩ := Text.append_cons_inj hread (hfree hhead) ht
  rw [ofHeader?_eq_none_iff, hafter]
  exact ofHeader?_eq_none_iff.mp hnone

end Place

section Scan

variable {test : Nat → Bool} {before t u v : Text} {covered : Nat} {b : ClassBlock}

theorem scanWhere_drop (test : Nat → Bool) (n : Nat) (before t : Text) :
    scanWhere test n before t = scanWhere test 0 ((t.take n).reverse ++ before) (t.drop n) := by
  induction t generalizing n before with
  | nil => rw [List.take_nil, List.drop_nil]; cases n <;> rfl
  | cons c t ih =>
    cases n with
    | zero => rfl
    | succ n =>
      rw [scanWhere, ih, List.take_succ_cons, List.drop_succ_cons, List.reverse_cons,
        List.append_assoc]
      rfl

theorem scanWhere_cons (hu : u ≠ []) (h : classAt? ⟨before, u ++ v⟩ = some (b, u.length))
    (htest : test (Text.byteLength before) = true) :
    scanWhere test 0 before (u ++ v) = b :: scanWhere test 0 (u.reverse ++ before) v := by
  obtain ⟨c, u, rfl⟩ := List.exists_cons_of_ne_nil hu
  rw [List.cons_append] at h ⊢
  rw [scanWhere_of_pos h htest, List.length_cons, Nat.add_sub_cancel, scanWhere_drop,
    List.take_left, List.drop_left, List.reverse_cons, List.append_assoc]
  rfl

theorem scanWhere_append (h : ∀ x y, u = x ++ y → y ≠ [] →
    classAt? ⟨x.reverse ++ before, y ++ v⟩ = none) :
    scanWhere test 0 before (u ++ v) = scanWhere test 0 (u.reverse ++ before) v := by
  induction u generalizing before with
  | nil => rfl
  | cons c u ih =>
    have hnone : classAt? ⟨before, c :: (u ++ v)⟩ = none := h [] (c :: u) rfl (List.cons_ne_nil c u)
    rw [List.cons_append, scanWhere_of_eq_none hnone, ih, List.reverse_cons, List.append_assoc,
      List.singleton_append]
    intro x y hu hy
    have hat := h (c :: x) y (by rw [hu]; rfl) hy
    rwa [List.reverse_cons, List.append_assoc] at hat

theorem scanFrom_eq_scanWhere (before t : Text) :
    scanFrom 0 before t = scanWhere (fun _ => true) 0 before t := by
  induction hn : t.length using Nat.strong_induction_on generalizing before t with
  | _ n ih =>
  have hrest : ∀ u v, t = u ++ v → u ≠ [] → scanFrom 0 (u.reverse ++ before) v =
      scanWhere (fun _ => true) 0 (u.reverse ++ before) v := by
    intro u v ht hu
    refine ih v.length ?_ _ _ rfl
    rw [← hn, ht, List.length_append]
    exact Nat.lt_add_of_pos_left (List.length_pos_iff.mpr hu)
  cases t with
  | nil => rfl
  | cons c t =>
    cases hat : header.at? ⟨before, c :: t⟩ with
    | none =>
      rw [scanFrom_of_at?_eq_none hat, scanWhere_of_eq_none (by rw [classAt?, hat]; rfl)]
      exact hrest [c] t rfl (List.cons_ne_nil c [])
    | some o =>
      cases hblock : ofHeader? o with
      | none =>
        obtain ⟨head, ht, -, -, hwidth, -⟩ := exists_head hat
        have hsplit : c :: t = ("class" ++ (head ++ ['\x7b'])) ++ o.stop.after := by rw [ht]; simp
        rw [hsplit] at hat hrest ⊢
        rw [scanFrom_append (by simp) hat hwidth hblock, hrest _ _ rfl (by simp)]
        refine (scanWhere_append fun x y hxy hy => ?_).symm
        rw [hxy, List.append_assoc] at hat
        refine classAt?_eq_none_of_covered hat hblock ?_
        rw [hwidth, hxy, List.length_append]
        exact Nat.lt_add_of_pos_right (List.length_pos_iff.mpr hy)
      | some found =>
        obtain ⟨block, width⟩ := found
        have hclass : classAt? ⟨before, c :: t⟩ = some (block, width) := by
          rw [classAt?, hat]
          exact hblock
        obtain ⟨own, after, ht, hown, rfl, -⟩ := exists_of_classAt? hclass
        rw [ht] at hat hclass hrest ⊢
        rw [scanFrom_cons hown hat hblock, scanWhere_cons hown hclass rfl, hrest own after rfl hown]

theorem scanWhere_eq_of_forall
    (h : ∀ b ∈ scanWhere (fun _ => true) covered before t, test b.span.start = true) :
    scanWhere (fun _ => true) covered before t = scanWhere test covered before t := by
  induction t generalizing covered before with
  | nil => rfl
  | cons c t ih =>
    cases covered with
    | succ covered => exact ih h
    | zero =>
      cases hat : classAt? ⟨before, c :: t⟩ with
      | none =>
        rw [scanWhere_of_eq_none hat] at h ⊢
        rw [scanWhere_of_eq_none hat]
        exact ih h
      | some found =>
        obtain ⟨b, width⟩ := found
        obtain ⟨own, after, -, -, -, hspan⟩ := exists_of_classAt? hat
        rw [scanWhere_of_pos hat rfl] at h ⊢
        have hb := h b List.mem_cons_self
        rw [hspan, Span.behind, Text.byteLength_reverse] at hb
        rw [scanWhere_of_pos hat hb]
        exact congrArg (b :: ·) (ih fun b' hb' => h b' (List.mem_cons_of_mem b hb'))

theorem of_mem_scanWhere (h : b ∈ scanWhere test covered before t) :
    Text.byteLength before ≤ b.span.start ∧ test b.span.start = true := by
  induction t generalizing covered before with
  | nil => cases h
  | cons c t ih =>
    have hrest : ∀ {n}, b ∈ scanWhere test n (c :: before) t →
        Text.byteLength before ≤ b.span.start ∧ test b.span.start = true := fun h =>
      ⟨Nat.le_trans (Nat.le_add_left _ _) (ih h).1, (ih h).2⟩
    cases covered with
    | succ covered => exact hrest h
    | zero =>
      cases hat : classAt? ⟨before, c :: t⟩ with
      | none =>
        rw [scanWhere_of_eq_none hat] at h
        exact hrest h
      | some found =>
        obtain ⟨block, width⟩ := found
        obtain ⟨own, after, -, -, -, hspan⟩ := exists_of_classAt? hat
        rw [Span.behind, Text.byteLength_reverse] at hspan
        cases htest : test (Text.byteLength before) with
        | false =>
          rw [scanWhere_of_neg hat htest] at h
          exact hrest h
        | true =>
          rw [scanWhere_of_pos hat htest] at h
          rcases List.mem_cons.mp h with rfl | h
          · rw [hspan]
            exact ⟨Nat.le_refl _, htest⟩
          · exact hrest h

theorem reverse_cons_append (c : Char) (u before : Text) :
    (c :: u).reverse ++ before = u.reverse ++ c :: before := by
  rw [List.reverse_cons, List.append_assoc, List.singleton_append]

section Border

variable {own after : Text}

theorem byteLength_lt_of_append (h : u ++ v = own ++ after) (hlt : u.length < own.length) :
    Text.byteLength u < Text.byteLength own := by
  obtain ⟨r, rfl⟩ := List.prefix_of_prefix_length_le (h ▸ List.prefix_append u v)
    (List.prefix_append own after) (Nat.le_of_lt hlt)
  rw [List.length_append] at hlt
  rw [Text.byteLength_append]
  exact Nat.lt_add_of_pos_right (Text.byteLength_pos (List.length_pos_iff.mp (by omega)))

theorem byteLength_le_of_append (h : u ++ v = own ++ after) (hle : own.length ≤ u.length) :
    Text.byteLength own ≤ Text.byteLength u := by
  obtain ⟨r, rfl⟩ := List.prefix_of_prefix_length_le (List.prefix_append own after)
    (h ▸ List.prefix_append u v) hle
  rw [Text.byteLength_append]
  exact Nat.le_add_right _ _

end Border

/-- Every class that begins in a text is found or lies in one that is found. -/
theorem exists_mem_of_classAt? {x : ClassBlock × Nat} (ht : t = u ++ v) (hu : covered ≤ u.length)
    (h : classAt? ⟨u.reverse ++ before, v⟩ = some x) :
    ∃ b ∈ scanWhere (fun _ => true) covered before t,
      b.span.start ≤ Text.byteLength (u.reverse ++ before) ∧
        Text.byteLength (u.reverse ++ before) < b.span.stop := by
  induction t generalizing covered before u with
  | nil =>
    obtain ⟨rfl, rfl⟩ := List.append_eq_nil_iff.mp ht.symm
    obtain ⟨own, after, hown, hne, -⟩ := exists_of_classAt? h
    exact absurd (List.append_eq_nil_iff.mp hown.symm).1 hne
  | cons c t ih =>
    have hrest : ∀ {n}, u ≠ [] → n ≤ u.length - 1 →
        ∃ b ∈ scanWhere (fun _ => true) n (c :: before) t,
          b.span.start ≤ Text.byteLength (u.reverse ++ before) ∧
            Text.byteLength (u.reverse ++ before) < b.span.stop := by
      intro n hne hn
      obtain ⟨d, u, rfl⟩ := List.exists_cons_of_ne_nil hne
      obtain ⟨rfl, rfl⟩ := List.cons.inj ht
      rw [reverse_cons_append] at h ⊢
      exact ih rfl hn h
    cases covered with
    | succ covered => exact hrest (List.ne_nil_of_length_pos (by omega)) (Nat.le_sub_of_add_le hu)
    | zero =>
      cases hat : classAt? ⟨before, c :: t⟩ with
      | none =>
        rw [scanWhere_of_eq_none hat]
        refine hrest ?_ (Nat.zero_le _)
        rintro rfl
        rw [ht, ← List.nil_append before] at hat
        rw [List.nil_append v, ← List.reverse_nil, h] at hat
        cases hat
      | some found =>
        obtain ⟨b, width⟩ := found
        obtain ⟨own, after, hown, hne, rfl, hspan⟩ := exists_of_classAt? hat
        rw [scanWhere_of_pos hat rfl]
        by_cases hlt : u.length < own.length
        · have hbytes := byteLength_lt_of_append (ht.symm.trans hown) hlt
          refine ⟨b, List.mem_cons_self, ?_⟩
          rw [hspan, Span.behind]
          simp only [Text.byteLength_append, Text.byteLength_reverse]
          omega
        · have hpos := List.length_pos_iff.mpr hne
          obtain ⟨b', hb', hwithin⟩ := hrest (n := own.length - 1)
            (List.ne_nil_of_length_pos (by omega)) (by omega)
          exact ⟨b', List.mem_cons_of_mem b hb', hwithin⟩

/-- If each class that fails the test lies in one that passes, the test leaves out nothing that is
found. -/
theorem scanWhere_eq_of_covered (h : ∀ u v x, t = u ++ v → covered ≤ u.length →
    classAt? ⟨u.reverse ++ before, v⟩ = some x →
    test (Text.byteLength (u.reverse ++ before)) = true ∨
      ∃ b ∈ scanWhere test covered before t, b.span.start < Text.byteLength (u.reverse ++ before) ∧
        Text.byteLength (u.reverse ++ before) < b.span.stop) :
    scanWhere (fun _ => true) covered before t = scanWhere test covered before t := by
  induction t generalizing covered before with
  | nil => rfl
  | cons c t ih =>
    cases covered with
    | succ covered =>
      refine ih fun u v x ht hu hx => ?_
      have h := h (c :: u) v x (by rw [ht]; rfl) (Nat.succ_le_succ hu)
      rw [reverse_cons_append] at h
      exact h hx
    | zero =>
      have htail : ∀ u v x, t = u ++ v → classAt? ⟨u.reverse ++ c :: before, v⟩ = some x →
          test (Text.byteLength (u.reverse ++ c :: before)) = true ∨
            ∃ b ∈ scanWhere test 0 before (c :: t),
              b.span.start < Text.byteLength (u.reverse ++ c :: before) ∧
                Text.byteLength (u.reverse ++ c :: before) < b.span.stop := by
        intro u v x ht hx
        have h := h (c :: u) v x (by rw [ht]; rfl) (Nat.zero_le _)
        rw [reverse_cons_append] at h
        exact h hx
      cases hat : classAt? ⟨before, c :: t⟩ with
      | none =>
        rw [scanWhere_of_eq_none hat] at htail ⊢
        rw [scanWhere_of_eq_none hat]
        exact ih fun u v x ht _ hx => htail u v x ht hx
      | some found =>
        obtain ⟨b, width⟩ := found
        obtain ⟨own, after, hown, hne, rfl, hspan⟩ := exists_of_classAt? hat
        -- A class that fails here would have to lie in one that begins earlier.
        have htest : test (Text.byteLength before) = true := by
          refine (h [] (c :: t) _ rfl (Nat.zero_le _) hat).resolve_right ?_
          rintro ⟨b', hb', hlt, -⟩
          exact absurd (of_mem_scanWhere hb').1 (Nat.not_le.mpr hlt)
        rw [scanWhere_of_pos hat htest] at htail ⊢
        rw [scanWhere_of_pos hat rfl]
        refine congrArg (b :: ·) (ih fun u v x ht hu hx => ?_)
        refine (htail u v x ht hx).imp_right ?_
        rintro ⟨b', hb', hwithin⟩
        rcases List.mem_cons.mp hb' with rfl | hb'
        · have hpos := List.length_pos_iff.mpr hne
          have hbytes := byteLength_le_of_append (u := c :: u) (v := v)
            (by rw [← hown, ht]; rfl) (by rw [List.length_cons]; omega)
          rw [hspan, Span.behind, ← reverse_cons_append] at hwithin
          simp only [Text.byteLength_append, Text.byteLength_reverse] at hwithin
          omega
        · exact ⟨b', hb', hwithin⟩

end Scan

section Keyword

variable {s : State} {u v : Text} {k : Nat}

theorem isCode_of_role {next : Option Char} (h : s.role 'c' next = .code) : s.isCode = true := by
  obtain ⟨mode, nesting⟩ := s
  cases nesting with
  | cons n ns => cases h
  | nil => cases mode <;> grind [State.role, State.isCode]

theorem role_of_mem_class {d : Char} (hs : s.isCode = true) (hd : d ∈ ("class" : Text))
    (next : Option Char) : s.role d next = .code := by
  have hall : ∀ d ∈ ("class" : Text), (isQuote d || isBacktick d || d == '/' || d == '*') = false := by
    decide
  have hplain := hall d hd
  simp only [Bool.or_eq_false_iff] at hplain
  rcases State.eq_of_isCode hs with rfl | rfl <;> simp [State.role, hplain]

theorem isCodeOffset_class (hstart : isCodeOffset (u ++ ("class" ++ v)) (Text.byteLength u) = true)
    (hle : Text.byteLength u ≤ k) (hlt : k < Text.byteLength u + Text.byteLength "class") :
    isCodeOffset (u ++ ("class" ++ v)) k = true := by
  have hs : (State.start.run u).isCode = true := by
    have hrole := isCodeOffset_append (p := u) (c := 'c') ("lass" ++ v) (Nat.le_refl _)
      (Nat.lt_add_of_pos_right (Char.utf8Size_pos _))
    exact isCode_of_role (beq_iff_eq.mp (hrole.symm.trans hstart))
  obtain ⟨p, d, q, hclass, hp, hd⟩ :=
    Text.exists_char_at (t := "class") (k := k - Text.byteLength u) (by omega)
  have hplain : ∀ d ∈ ("class" : Text), isPlain d = true := by decide
  have hrun : (State.start.run (u ++ p)).isCode = true := by
    by_cases hne : p = []
    · rwa [hne, List.append_nil]
    · rw [State.run_append, run_of_isPlain hs hne fun d hd => hplain d (by rw [hclass]; simp [hd])]
      rfl
  rw [hclass, List.append_assoc, ← List.append_assoc, List.cons_append]
  rw [isCodeOffset_append (q ++ v) (by rw [Text.byteLength_append]; omega)
    (by rw [Text.byteLength_append]; omega), beq_iff_eq]
  exact role_of_mem_class hrun (by rw [hclass]; simp) _

end Keyword

/-- Every byte of the keyword of a class is outside the literals of its source. -/
def IsInCode (b : ClassBlock) (source : Text) : Prop :=
  ∀ k, b.span.start ≤ k → k < b.span.start + Text.byteLength "class" → isCodeOffset source k = true

theorem isInCode_iff {source : Text} {b : ClassBlock} (hb : b ∈ scan source) :
    b.IsInCode source ↔ isCodeOffset source b.span.start = true := by
  obtain ⟨u, own, after, hsource, -, hspan, -, head, body, hown, -⟩ :=
    (laid_scanFrom [] source).exists_of_mem hb
  have hsplit : source = u ++ ("class" ++ ((head ++ '\x7b' :: (body ++ ['\x7d'])) ++ after)) := by
    rw [hsource, hown, written, List.append_assoc "class".toList]
  have hstart : b.span.start = Text.byteLength u := by rw [hspan]; rfl
  rw [IsInCode, hstart, hsplit]
  constructor
  · intro h
    exact h _ (Nat.le_refl _) (Nat.lt_add_of_pos_right (by decide))
  · intro h k hle hlt
    exact isCodeOffset_class h hle hlt

/-- A class header in a literal whose body closes, in no class of the code. -/
def HasStray (source : Text) : Prop :=
  ∃ u v x, source = u ++ v ∧ classAt? ⟨u.reverse, v⟩ = some x ∧
    isCodeOffset source (Text.byteLength u) = false ∧
    ∀ b ∈ codeClasses source,
      ¬ (b.span.start < Text.byteLength u ∧ Text.byteLength u < b.span.stop)

theorem scan_eq_codeClasses_iff (source : Text) :
    scan source = codeClasses source ↔ ¬ HasStray source := by
  rw [scan, scanFrom_eq_scanWhere]
  constructor
  · rintro h ⟨u, v, x, hsource, hx, hliteral, houtside⟩
    rw [← List.append_nil u.reverse] at hx
    obtain ⟨b, hb, hle, hlt⟩ := exists_mem_of_classAt? hsource (Nat.zero_le _) hx
    rw [List.append_nil, Text.byteLength_reverse] at hle hlt
    rw [h] at hb
    have htest := (of_mem_scanWhere hb).2
    refine houtside b hb ⟨Nat.lt_of_le_of_ne hle ?_, hlt⟩
    intro heq
    rw [heq, hliteral] at htest
    cases htest
  · intro h
    refine scanWhere_eq_of_covered fun u v x hsource _ hx => ?_
    rw [List.append_nil] at hx ⊢
    rw [Text.byteLength_reverse]
    by_contra hnone
    rw [not_or, Bool.not_eq_true] at hnone
    exact h ⟨u, v, x, hsource, hx, hnone.1, fun b hb hwithin => hnone.2 ⟨b, hb, hwithin⟩⟩

/-- Only code is scanned for classes exactly when every class header in a literal lies in a class of
the code or has no closed body: then no header in a literal is found, and none changes what is
found outside. -/
theorem forall_isInCode_iff (source : Text) :
    ((∀ b ∈ scan source, b.IsInCode source) ↔ ¬ HasStray source) ∧
      (scan source = codeClasses source ↔ ¬ HasStray source) := by
  refine ⟨?_, scan_eq_codeClasses_iff source⟩
  rw [← scan_eq_codeClasses_iff]
  constructor
  · intro h
    rw [scan, scanFrom_eq_scanWhere]
    refine scanWhere_eq_of_forall fun b hb => ?_
    rw [← scanFrom_eq_scanWhere] at hb
    exact (isInCode_iff hb).mp (h b hb)
  · intro h b hb
    refine (isInCode_iff hb).mpr ?_
    rw [h] at hb
    exact (of_mem_scanWhere hb).2

/-- A header in a comment is found, and hides the class behind it. -/
example : (scan "\x7b // class A \x7b\nclass B \x7b \x7d \x7d").map (·.name) = ["A"] := by
  decide +kernel

end ClassBlock

end CanvasPage
