import CanvasPage.Proofs.Checked.Indentation
import CanvasPage.Proofs.Procedure.Angles

namespace CanvasPage.Checked

open Text

variable {a b : Option Char} {c d : Char} {t u v w m : Text} {i n depth start : Nat}

/-- Two characters are equal or both beyond ASCII. -/
def Resembles : Option Char → Option Char → Prop
  | some x, some y => x = y ∨ 128 ≤ x.toNat ∧ 128 ≤ y.toNat
  | none, none => True
  | _, _ => False

theorem contains_of_wide {ds : Text} (hds : ∀ d ∈ ds, d.toNat < 128) (hc : 128 ≤ c.toNat) :
    ds.contains c = false := by
  refine Bool.eq_false_iff.mpr fun hmem => ?_
  have := hds c (by simpa using hmem)
  omega

namespace Resembles

theorem beq_some (h : Resembles a b) (hd : d.toNat < 128) : (a == some d) = (b == some d) := by
  cases a with
  | none =>
    cases b with
    | none => rfl
    | some y => exact h.elim
  | some x =>
    cases b with
    | none => exact h.elim
    | some y =>
      rcases h with rfl | ⟨hx, hy⟩
      · rfl
      · show (x == d) = (y == d)
        rw [beq_of_wide hx hd, beq_of_wide hy hd]

theorem any_contains (h : Resembles a b) {ds : Text} (hds : ∀ d ∈ ds, d.toNat < 128) :
    a.any ds.contains = b.any ds.contains := by
  cases a with
  | none =>
    cases b with
    | none => rfl
    | some y => exact h.elim
  | some x =>
    cases b with
    | none => exact h.elim
    | some y =>
      rcases h with rfl | ⟨hx, hy⟩
      · rfl
      · rw [Option.any_some, Option.any_some, contains_of_wide hds hx, contains_of_wide hds hy]

theorem closesAngle (h : Resembles a b) (c : Char) :
    Parameter.closesAngle a c = Parameter.closesAngle b c := by
  have hequals := h.beq_some (d := '=') (by decide)
  cases a <;> cases b
  · rfl
  · exact h.elim
  · exact h.elim
  · rename_i x y
    have hequals : (x == '=') = (y == '=') := hequals
    simp only [Parameter.closesAngle, Option.any_some, bne, hequals]

theorem depthAfter (h : Resembles a b) (depth : Nat) (c : Char) :
    Parameter.depthAfter depth a c = Parameter.depthAfter depth b c := by
  rw [Parameter.depthAfter, Parameter.depthAfter, h.closesAngle]

theorem isCompound {a' b' : Option Char} (h : Resembles a b) (h' : Resembles a' b') :
    Parameter.isCompound a a' = Parameter.isCompound b b' := by
  rw [Parameter.isCompound, Parameter.isCompound, h.any_contains (by decide),
    h'.any_contains (by decide)]

end Resembles

theorem resembles_byte?_head? (w : Text) : Resembles (byte? w 0) w.head? := by
  cases w with
  | nil => exact trivial
  | cons c w =>
    by_cases hc : c.toNat < 128
    · rw [byte?_cons hc]
      exact .inl rfl
    · have hwide := Nat.le_of_not_lt hc
      obtain ⟨e, he, hbyte⟩ := areWide_cons hwide w 0 c.utf8Size_pos
      rw [Nat.add_zero] at he
      rw [he]
      exact .inr ⟨hbyte, hwide⟩

theorem exists_previous? (h : i ≤ byteLength t) : ∃ b, previous? t i = .ok b := by
  cases i with
  | zero => exact ⟨none, rfl⟩
  | succ i =>
    rw [← length_bytes] at h
    have hbyte : byte? t i = some (bytes t)[i] := List.getElem?_eq_getElem h
    exact ⟨_, by rw [previous?, byteAt_eq_ok hbyte]; rfl⟩

theorem exists_resembles_getLast? (u v : Text) :
    ∃ b, previous? (u ++ v) (byteLength u) = .ok b ∧ Resembles b u.getLast? := by
  rcases List.eq_nil_or_concat u with rfl | ⟨u, c, rfl⟩
  · exact ⟨none, rfl, trivial⟩
  rw [List.concat_eq_append, List.getLast?_concat, List.append_assoc, List.singleton_append,
    byteLength_append]
  by_cases hc : c.toNat < 128
  · rw [byteLength_singleton hc, previous?, byteAt_char hc]
    exact ⟨some c, rfl, .inl rfl⟩
  · have hwide := Nat.le_of_not_lt hc
    have hpos := c.utf8Size_pos
    obtain ⟨n, hn⟩ : ∃ n, c.utf8Size = n + 1 := ⟨c.utf8Size - 1, by omega⟩
    obtain ⟨e, he, hbyte⟩ := areWide_char hwide u v n (by omega)
    have hsize : byteLength u + byteLength [c] = byteLength u + n + 1 := by
      rw [byteLength_cons, hn]
      rfl
    rw [hsize, previous?, byteAt_eq_ok he]
    exact ⟨some e, rfl, .inr ⟨hbyte, hwide⟩⟩

theorem opensBracket_of_wide (hc : 128 ≤ c.toNat) : Parameter.opensBracket c = false :=
  contains_of_wide (by decide) hc

theorem closesBracket_of_wide (hc : 128 ≤ c.toNat) : Parameter.closesBracket c = false :=
  contains_of_wide (by decide) hc

theorem depthAfter_of_wide (hc : 128 ≤ c.toNat) (depth : Nat) (previous : Option Char) :
    Parameter.depthAfter depth previous c = depth := by
  rw [Parameter.depthAfter, opensBracket_of_wide hc, closesBracket_of_wide hc,
    Parameter.closesAngle, beq_of_wide hc (by decide)]
  rfl

section Splitting

variable {quote : Option Char} {bs rest : Text}

theorem splitFrom_skip (hquote : ∀ q ∈ quote, opensString q = true)
    (hbs : ∀ b ∈ bs, 128 ≤ b.toNat) (hi : i + bs.length ≤ byteLength t) :
    splitFrom t depth start quote i (bs ++ rest) =
      splitFrom t depth start quote (i + bs.length) rest := by
  induction bs generalizing i with
  | nil => rfl
  | cons b bs ih =>
    obtain ⟨hb, hbs⟩ := List.forall_mem_cons.mp hbs
    rw [List.length_cons] at hi
    obtain ⟨p, hp⟩ := exists_previous? (t := t) (i := i) (by omega)
    have hnext := ih hbs (i := i + 1) (by omega)
    rw [Nat.add_assoc, Nat.add_comm 1] at hnext
    rw [List.cons_append, splitFrom, hp, bind_ok, List.length_cons, ← hnext]
    cases quote with
    | some q =>
      have hq := beq_of_wide hb (toNat_lt_of_opensString (hquote q rfl))
      dsimp only
      rw [hq]
      rfl
    | none =>
      dsimp only
      rw [opensString_of_wide hb, beq_of_wide hb (by decide), depthAfter_of_wide hb]
      rfl

/-- From every place before `v` on the pieces by bytes are those by characters. Since the latest comma
`m` has come. -/
def Splits (t v : Text) : Prop :=
  ∀ ⦃u m : Text⦄ ⦃i : Nat⦄ ⦃quote : Option Char⦄ (depth : Nat),
    (∀ q ∈ quote, opensString q = true) → t = u ++ (m ++ v) → i = byteLength (u ++ m) →
      ∃ p ps, Parameter.splitFrom depth quote (u ++ m).getLast? v = p :: ps ∧
        splitFrom t depth (byteLength u) quote i (bytes v) = .ok ((m ++ p) :: ps)

theorem splits_nil (t : Text) : Splits t [] := by
  intro u m i quote depth _ ht _
  rw [List.append_nil] at ht
  refine ⟨[], [], rfl, ?_⟩
  rw [show bytes ([] : Text) = [] from rfl, splitFrom, cutFrom_eq_ok ht rfl, List.append_nil]
  rfl

theorem Splits.after (h : Splits t v) (hquote : ∀ q ∈ quote, opensString q = true)
    (ht : t = u ++ (m ++ c :: v)) (hi : i = byteLength (u ++ m)) (depth : Nat) :
    ∃ p ps, Parameter.consFirst c (Parameter.splitFrom depth quote (some c) v) = (c :: p) :: ps ∧
      splitFrom t depth (byteLength u) quote (i + c.utf8Size) (bytes v) =
        .ok ((m ++ c :: p) :: ps) := by
  have hlast : (u ++ (m ++ [c])).getLast? = some c := by
    rw [← List.append_assoc, List.getLast?_concat]
  obtain ⟨p, ps, hchars, hbytes⟩ := h (u := u) (m := m ++ [c]) (i := i + c.utf8Size) depth hquote
    (by simp [ht]) (by simp [hi, Nat.add_assoc])
  refine ⟨p, ps, ?_, ?_⟩
  · rw [← hlast, hchars]
    rfl
  · rw [hbytes, List.append_assoc]
    rfl

theorem Splits.wide (h : Splits t v) (hc : 128 ≤ c.toNat) : Splits t (c :: v) := by
  intro u m i quote depth hquote ht hi
  have hle : i + (charBytes c).length ≤ byteLength t := by
    rw [length_charBytes, hi, ht]
    simp only [byteLength_append, byteLength_cons]
    omega
  obtain ⟨p, ps, hchars, hbytes⟩ := h.after hquote ht hi depth
  refine ⟨c :: p, ps, ?_, ?_⟩
  · rw [← hchars]
    cases quote with
    | some q =>
      have hq := beq_of_wide hc (toNat_lt_of_opensString (hquote q rfl))
      conv_lhs => rw [Parameter.splitFrom, hq]
      rfl
    | none =>
      have hplain := opensString_of_wide hc
      rw [opensString] at hplain
      conv_lhs => rw [Parameter.splitFrom, hplain, beq_of_wide hc (by decide), depthAfter_of_wide hc]
      rfl
  · rw [bytes_cons, splitFrom_skip hquote (le_toNat_of_mem_charBytes hc) hle, length_charBytes,
      hbytes]

theorem Splits.quoted (h : Splits t v) (hc : c.toNat < 128) {q : Char} (hq : opensString q = true)
    (ht : t = u ++ (m ++ c :: v)) (hi : i = byteLength (u ++ m)) (depth : Nat) :
    ∃ p ps, Parameter.splitFrom depth (some q) (u ++ m).getLast? (c :: v) = p :: ps ∧
      splitFrom t depth (byteLength u) (some q) i (c :: bytes v) = .ok ((m ++ p) :: ps) := by
  obtain ⟨b, hb, hresembles⟩ := exists_resembles_getLast? (u ++ m) (c :: v)
  rw [List.append_assoc, ← ht, ← hi] at hb
  have hescaped : (b != some '\\') = ((u ++ m).getLast? != some '\\') := by
    rw [bne, bne, hresembles.beq_some (by decide)]
  have hquote : ∀ d ∈ (if c == q && (u ++ m).getLast? != some '\\' then none else some q),
      opensString d = true := by
    split <;> simp_all
  obtain ⟨p, ps, hchars, hbytes⟩ := h.after hquote ht hi depth
  refine ⟨c :: p, ps, ?_, ?_⟩
  · rw [← hchars]
    conv_lhs => rw [Parameter.splitFrom]
  · rw [utf8Size_of_lt hc] at hbytes
    rw [splitFrom, hb, bind_ok]
    dsimp only
    rw [hescaped, hbytes]

theorem Splits.plain (h : Splits t v) (hc : c.toNat < 128) (ht : t = u ++ (m ++ c :: v))
    (hi : i = byteLength (u ++ m)) (depth : Nat) :
    ∃ p ps, Parameter.splitFrom depth none (u ++ m).getLast? (c :: v) = p :: ps ∧
      splitFrom t depth (byteLength u) none i (c :: bytes v) = .ok ((m ++ p) :: ps) := by
  obtain ⟨b, hb, hresembles⟩ := exists_resembles_getLast? (u ++ m) (c :: v)
  rw [List.append_assoc, ← ht, ← hi] at hb
  rw [splitFrom, hb, bind_ok, Parameter.splitFrom]
  dsimp only
  rw [← opensString]
  by_cases hstring : opensString c = true
  · have hquote : ∀ q ∈ some c, opensString q = true := by simpa using hstring
    obtain ⟨p, ps, hchars, hbytes⟩ := h.after hquote ht hi depth
    rw [utf8Size_of_lt hc] at hbytes
    rw [if_pos hstring, if_pos hstring, hchars, hbytes]
    exact ⟨_, _, rfl, rfl⟩
  have hnone : ∀ q ∈ (none : Option Char), opensString q = true := by simp
  rw [if_neg hstring, if_neg hstring]
  by_cases hcomma : (c == ',' && depth == 0) = true
  · have hlast : (u ++ (m ++ [c]) ++ []).getLast? = some c := by
      rw [List.append_nil, ← List.append_assoc, List.getLast?_concat]
    have hstart : i + 1 = byteLength (u ++ (m ++ [c])) := by
      rw [hi, ← List.append_assoc, byteLength_append _ [c], byteLength_singleton hc]
    obtain ⟨p, ps, hchars, hbytes⟩ := h (u := u ++ (m ++ [c])) (m := []) (i := i + 1) depth hnone
      (by simp [ht]) (by rw [hstart, List.append_nil])
    have hpiece : cut t (byteLength u) i = .ok m := cut_eq_ok ht rfl (by rw [hi, byteLength_append])
    rw [if_pos hcomma, if_pos hcomma, hpiece, bind_ok, hstart, ← hlast, hchars]
    rw [hstart] at hbytes
    rw [hbytes]
    exact ⟨[], p :: ps, rfl, by rw [List.append_nil]; rfl⟩
  · obtain ⟨p, ps, hchars, hbytes⟩ := h.after hnone ht hi (Parameter.depthAfter depth b c)
    rw [utf8Size_of_lt hc] at hbytes
    rw [if_neg hcomma, if_neg hcomma, hbytes, ← hresembles.depthAfter, hchars]
    exact ⟨_, _, rfl, rfl⟩

theorem splits (t v : Text) : Splits t v := by
  induction v with
  | nil => exact splits_nil t
  | cons c v ih =>
    by_cases hc : c.toNat < 128
    · intro u m i quote depth hquote ht hi
      have hbytes : bytes (c :: v) = c :: bytes v := by rw [bytes_cons, charBytes_of_lt hc]; rfl
      rw [hbytes]
      cases quote with
      | some q => exact ih.quoted hc (hquote q rfl) ht hi depth
      | none => exact ih.plain hc ht hi depth
    · exact ih.wide (Nat.le_of_not_lt hc)

theorem split_eq_ok (raw : Text) : split raw = .ok (Parameter.split raw) := by
  have hnone : ∀ q ∈ (none : Option Char), opensString q = true := by simp
  obtain ⟨p, ps, hchars, hbytes⟩ := splits raw raw (u := []) (m := []) 0 hnone rfl rfl
  rw [split, Parameter.split]
  exact hbytes.trans (congrArg Except.ok hchars.symm)

end Splitting

section Reading

variable {bs rest : Text}

theorem assignment?_skip (hbs : ∀ b ∈ bs, 128 ≤ b.toNat) (hi : i + bs.length ≤ byteLength t) :
    assignment? t depth i (bs ++ rest) = assignment? t depth (i + bs.length) rest := by
  induction bs generalizing i with
  | nil => rfl
  | cons b bs ih =>
    obtain ⟨hb, hbs⟩ := List.forall_mem_cons.mp hbs
    rw [List.length_cons] at hi
    obtain ⟨p, hp⟩ := exists_previous? (t := t) (i := i) (by omega)
    have hnext := ih hbs (i := i + 1) (by omega)
    rw [Nat.add_assoc, Nat.add_comm 1] at hnext
    rw [List.cons_append, assignment?, hp, bind_ok, List.length_cons, ← hnext,
      beq_of_wide hb (by decide), depthAfter_of_wide hb]
    rfl

theorem map_byteLength_cons (i : Nat) (c : Char) (found : Option (Text × Text)) :
    (found.map fun p => i + c.utf8Size + byteLength p.1) =
      (found.map fun (head, value) => (c :: head, value)).map fun p => i + byteLength p.1 := by
  rw [Option.map_map]
  simp only [Function.comp_def, byteLength_cons, Nat.add_assoc]

theorem assignment?_eq_ok (ht : t = u ++ v) (hi : i = byteLength u) :
    assignment? t depth i (bytes v) =
      .ok ((Parameter.splitDefault depth u.getLast? v).map fun p => i + byteLength p.1) := by
  induction v generalizing u i depth with
  | nil => rfl
  | cons c v ih =>
    have hrest : ∀ depth, assignment? t depth (i + c.utf8Size) (bytes v) =
        .ok ((Parameter.splitDefault depth (u ++ [c]).getLast? v).map fun p =>
          i + c.utf8Size + byteLength p.1) :=
      fun depth => ih (by simp [ht]) (by simp [hi])
    rw [List.getLast?_concat] at hrest
    rw [Parameter.splitDefault]
    by_cases hc : c.toNat < 128
    · obtain ⟨b, hb, hresembles⟩ := exists_resembles_getLast? u (c :: v)
      have hnext : Resembles (byte? t (i + 1)) v.head? := by
        rw [ht, hi, byte?_append_add, byte?_cons_succ hc]
        exact resembles_byte?_head? v
      rw [← ht, ← hi] at hb
      rw [bytes_cons, charBytes_of_lt hc, List.singleton_append, assignment?, hb, bind_ok,
        hresembles.isCompound hnext, hresembles.depthAfter]
      split
      · rfl
      · rw [← map_byteLength_cons, ← hrest, utf8Size_of_lt hc]
    · have hwide := Nat.le_of_not_lt hc
      have hle : i + (charBytes c).length ≤ byteLength t := by
        rw [length_charBytes, hi, ht]
        simp only [byteLength_append, byteLength_cons]
        omega
      rw [bytes_cons, assignment?_skip (le_toNat_of_mem_charBytes hwide) hle, length_charBytes,
        hrest, beq_of_wide hwide (by decide), depthAfter_of_wide hwide, map_byteLength_cons]
      rfl

theorem colon?_skip (hbs : ∀ b ∈ bs, 128 ≤ b.toNat) :
    colon? depth i (bs ++ rest) = colon? depth (i + bs.length) rest := by
  induction bs generalizing i with
  | nil => rfl
  | cons b bs ih =>
    obtain ⟨hb, hbs⟩ := List.forall_mem_cons.mp hbs
    have hnext := ih hbs (i := i + 1)
    rw [Nat.add_assoc, Nat.add_comm 1] at hnext
    rw [List.cons_append, colon?, List.length_cons, ← hnext, beq_of_wide hb (by decide),
      opensBracket_of_wide hb, closesBracket_of_wide hb, beq_of_wide hb (by decide)]
    rfl

theorem colon?_cases (depth i : Nat) (v : Text) :
    (colon? depth i (bytes v) = none ∧ Parameter.beforeType depth v = v) ∨
      colon? depth i (bytes v) = some (i + byteLength (Parameter.beforeType depth v)) := by
  induction v generalizing depth i with
  | nil => exact .inl ⟨rfl, rfl⟩
  | cons c v ih =>
    have hafter : ∀ depth,
        (colon? depth (i + c.utf8Size) (bytes v) = none ∧ c :: Parameter.beforeType depth v = c :: v) ∨
          colon? depth (i + c.utf8Size) (bytes v) =
            some (i + byteLength (c :: Parameter.beforeType depth v)) := by
      intro depth
      rw [byteLength_cons, ← Nat.add_assoc]
      exact (ih depth (i + c.utf8Size)).imp_left fun ⟨hnone, hall⟩ => ⟨hnone, by rw [hall]⟩
    rw [Parameter.beforeType]
    by_cases hc : c.toNat < 128
    · rw [bytes_cons, charBytes_of_lt hc, List.singleton_append, colon?]
      rw [utf8Size_of_lt hc] at hafter
      split
      · exact .inr rfl
      · exact hafter _
    · have hwide := Nat.le_of_not_lt hc
      rw [bytes_cons, colon?_skip (le_toNat_of_mem_charBytes hwide), length_charBytes,
        beq_of_wide hwide (by decide), opensBracket_of_wide hwide, closesBracket_of_wide hwide,
        beq_of_wide hwide (by decide)]
      exact hafter depth

theorem beforeType_eq_ok (t : Text) : beforeType t = .ok (Parameter.beforeType 0 t) := by
  obtain ⟨rest, hrest⟩ := Parameter.beforeType_isPrefix 0 t
  rw [beforeType]
  rcases colon?_cases 0 0 t with ⟨hnone, hall⟩ | hsome
  · rw [hnone, hall]
  · rw [hsome]
    exact cut_eq_ok (u := []) (w := rest) hrest.symm rfl rfl

variable {rewrite : Text → Run Text} {rewrite' : Text → Text}

/-- On texts with up to `n` arrows a rewriting by bytes is one by characters. -/
def Rewrites (rewrite : Text → Run Text) (rewrite' : Text → Text) (n : Nat) : Prop :=
  ∀ t : Text, t.count '>' ≤ n → rewrite t = .ok (rewrite' t)

theorem splitDefault_eq_ok (h : Rewrites rewrite rewrite' n) (ht : t.count '>' ≤ n) :
    splitDefault rewrite t = .ok (match Parameter.splitDefault 0 none t with
      | some (head, value) => (head, some (rewrite' (trim value)))
      | none => (t, none)) := by
  have hassignment : assignment? t 0 0 (bytes t) =
      .ok ((Parameter.splitDefault 0 none t).map fun p => 0 + byteLength p.1) :=
    assignment?_eq_ok (u := []) rfl rfl
  rw [splitDefault, hassignment, bind_ok]
  cases hdefault : Parameter.splitDefault 0 none t with
  | none => rfl
  | some found =>
    obtain ⟨head, value⟩ := found
    have hsplit := Parameter.eq_of_splitDefault hdefault
    have hhead : cut t 0 (0 + byteLength head) = .ok head := cut_eq_ok (u := []) hsplit rfl rfl
    have hvalue : cutFrom t (0 + byteLength head + 1) = .ok value := by
      refine cutFrom_eq_ok (u := head ++ ['=']) (by simp [hsplit]) ?_
      rw [byteLength_append, Nat.zero_add]
      rfl
    have hcount : (trim value).count '>' ≤ n := by
      rw [hsplit, List.count_append, List.count_cons] at ht
      have := count_trim_le value
      omega
    dsimp only [Option.map_some]
    rw [hhead, bind_ok, hvalue, bind_ok, h _ hcount]
    rfl

theorem parameter?_eq_ok (h : Rewrites rewrite rewrite' n) {piece : Text}
    (hpiece : piece.count '>' ≤ n) :
    parameter? rewrite piece = .ok (Parameter.read? rewrite' piece) := by
  obtain ⟨lead, rest, hsplit, hmodifiers, hread⟩ := Parameter.read?_eq rewrite' piece
  have hcount : rest.count '>' ≤ n := by
    have := count_trim_le piece
    rw [hsplit, List.count_append] at this
    omega
  have hproperty : decide (byteLength lead > 0) = !lead.isEmpty := by
    cases lead with
    | nil => rfl
    | cons c lead => exact decide_eq_true (byteLength_pos (List.cons_ne_nil c lead))
  rw [parameter?, hmodifiers]
  dsimp only
  rw [cutFrom_eq_ok hsplit rfl, bind_ok, hread, hproperty]
  cases hempty : (trim piece).isEmpty with
  | true =>
    rw [hsplit, List.isEmpty_iff, List.append_eq_nil_iff] at hempty
    obtain ⟨rfl, rfl⟩ := hempty
    rfl
  | false =>
    rw [if_neg Bool.false_ne_true, splitDefault_eq_ok h hcount, bind_ok]
    cases Parameter.splitDefault 0 none rest with
    | none =>
      dsimp only
      rw [beforeType_eq_ok, bind_ok, Parameter.parameter?]
      split <;> rfl
    | some found =>
      obtain ⟨head, value⟩ := found
      dsimp only
      rw [beforeType_eq_ok, bind_ok, Parameter.parameter?]
      split <;> rfl

theorem parameters_eq_ok (h : Rewrites rewrite rewrite' n) {raw : Text} (hraw : raw.count '>' ≤ n) :
    parameters rewrite raw = .ok (Parameter.readAll rewrite' raw) := by
  have hpieces : ∀ piece ∈ Parameter.split raw, piece.count '>' ≤ n := by
    intro piece hpiece
    exact ((count_le_angles hpiece).trans (Parameter.angles_splitFrom_le 0 none none raw)).trans hraw
  have hmap : (Parameter.split raw).mapM (parameter? rewrite) =
      .ok ((Parameter.split raw).map (Parameter.read? rewrite')) :=
    mapM_eq_ok fun piece hpiece => parameter?_eq_ok h (hpieces piece hpiece)
  rw [parameters, split_eq_ok, bind_ok, hmap, bind_ok, Parameter.readAll, List.filterMap_map,
    Function.id_comp]
  rfl

theorem textsWith_eq_ok (h : Rewrites rewrite rewrite' n) {raw : Text} (hraw : raw.count '>' ≤ n) :
    textsWith rewrite raw = .ok (Parameter.textsWith rewrite' raw) := by
  rw [textsWith, parameters_eq_ok h hraw]
  rfl

end Reading

end CanvasPage.Checked
