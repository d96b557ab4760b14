import CanvasPage.Text.Basic
import Mathlib.Data.List.TakeWhile

namespace CanvasPage.Text

variable {p : Char → Bool} {t : Text}

theorem byteLength_reverse (t : Text) : byteLength t.reverse = byteLength t := by
  induction t with
  | nil => rfl
  | cons c t ih =>
    rw [List.reverse_cons, byteLength_append, ih, byteLength_cons, byteLength_cons,
      byteLength_nil, Nat.add_zero, Nat.add_comm]

theorem dropEndWhile_append_singleton {c : Char} (h : p c = false) (t : Text) :
    dropEndWhile p (t ++ [c]) = t ++ [c] := by
  rw [dropEndWhile, List.reverse_append, List.reverse_singleton, List.singleton_append,
    List.dropWhile_cons_of_neg (by simp [h]), List.reverse_cons, List.reverse_reverse]

theorem dropEndWhile_of_getLast? (h : ∀ c ∈ t.getLast?, p c = false) : dropEndWhile p t = t := by
  rcases List.eq_nil_or_concat t with rfl | ⟨u, c, rfl⟩
  · rfl
  · rw [List.concat_eq_append] at h ⊢
    exact dropEndWhile_append_singleton (h c (by simp)) u

theorem getLast?_dropEndWhile (p : Char → Bool) (t : Text) :
    ∀ c ∈ (dropEndWhile p t).getLast?, p c = false := by
  intro c hc
  rw [dropEndWhile, List.getLast?_reverse] at hc
  have hhead := List.head?_dropWhile_not p t.reverse
  rwa [Option.mem_def.mp hc] at hhead

theorem isPrefix_dropEndWhile (p : Char → Bool) (t : Text) : dropEndWhile p t <+: t := by
  have hsuffix := List.dropWhile_suffix (l := t.reverse) p
  rw [dropEndWhile, ← List.reverse_suffix, List.reverse_reverse]
  exact hsuffix

theorem dropEndWhile_append_cons {c : Char} (h : p c = false) (t u : Text) :
    dropEndWhile p (t ++ c :: u) = t ++ c :: dropEndWhile p u := by
  have hsplit : (t ++ c :: u).reverse = u.reverse ++ (c :: t.reverse) := by simp
  rw [dropEndWhile, dropEndWhile, hsplit, List.dropWhile_append]
  cases hdrop : u.reverse.dropWhile p with
  | nil => simp [h]
  | cons x w => simp

theorem trimEnd_append_cons {c : Char} (hc : isBlank c = false) (t u : Text) :
    trimEnd (t ++ c :: u) = t ++ c :: trimEnd u :=
  dropEndWhile_append_cons hc t u

theorem dropEndWhile_append {u : Text} (ht : ∀ c ∈ t.getLast?, p c = false)
    (hu : ∀ c ∈ u, p c = true) : dropEndWhile p (t ++ u) = t := by
  have hreverse : ∀ c ∈ u.reverse, p c = true := fun c hc => hu c (List.mem_reverse.mp hc)
  rw [dropEndWhile, List.reverse_append, List.dropWhile_append_of_pos hreverse]
  exact dropEndWhile_of_getLast? ht

theorem allBlank_trimEnd (t : Text) : allBlank (trimEnd t) = allBlank t := by
  have hsplit := List.takeWhile_append_dropWhile (p := isBlank) (l := t.reverse)
  have hblank : (t.reverse.takeWhile isBlank).all isBlank = true :=
    List.all_eq_true.mpr fun _ hc => List.mem_takeWhile_imp hc
  have hall : t.reverse.all isBlank = (t.reverse.dropWhile isBlank).all isBlank := by
    calc t.reverse.all isBlank
        = (t.reverse.takeWhile isBlank ++ t.reverse.dropWhile isBlank).all isBlank := by rw [hsplit]
      _ = (t.reverse.dropWhile isBlank).all isBlank := by
        rw [List.all_append, hblank, Bool.true_and]
  rw [allBlank, allBlank, trimEnd, dropEndWhile, List.all_reverse, ← List.all_reverse (l := t), hall]

theorem forall_getLast?_append {P : Char → Prop} {u : Text} (ht : ∀ c ∈ t.getLast?, P c)
    (hu : ∀ c ∈ u.getLast?, P c) : ∀ c ∈ (t ++ u).getLast?, P c := by
  intro c hc
  rw [List.getLast?_append, Option.mem_def, Option.or_eq_some_iff] at hc
  exact hc.elim (hu c) fun h => ht c h.2

theorem getLast?_of_append {P : Char → Prop} {u : Text} (h : ∀ c ∈ (t ++ u).getLast?, P c) :
    ∀ c ∈ u.getLast?, P c := by
  intro c hc
  refine h c ?_
  rw [List.getLast?_append, Option.mem_def.mp hc, Option.some_or]
  rfl

theorem allBlank_append {u : Text} : allBlank (t ++ u) = (allBlank t && allBlank u) :=
  List.all_append

theorem allBlank_iff (ht : ∀ c ∈ t.getLast?, isBlank c = false) : allBlank t = true ↔ t = [] := by
  constructor
  · intro h
    rcases List.eq_nil_or_concat t with rfl | ⟨u, c, rfl⟩
    · rfl
    · have hc := ht c (by simp)
      rw [List.all_eq_true.mp h c (by simp)] at hc
      cases hc
  · rintro rfl
    rfl

theorem allBlank_of_last (hne : t ≠ []) (hlast : ∀ c ∈ t.getLast?, isBlank c = false) :
    allBlank t = false := by
  rw [← Bool.not_eq_true, allBlank_iff hlast]
  exact hne

theorem dropWhile_of_head? (h : ∀ c ∈ t.head?, p c = false) : t.dropWhile p = t := by
  cases t with
  | nil => rfl
  | cons c t => exact List.dropWhile_cons_of_neg (by simp [h c rfl])

theorem takeWhile_of_head? (h : ∀ c ∈ t.head?, p c = false) : t.takeWhile p = [] := by
  cases t with
  | nil => rfl
  | cons c t => exact List.takeWhile_cons_of_neg (by simp [h c rfl])

theorem eq_of_append_eq {u u' r r' : Text} (hu : ∀ c ∈ u, p c = true) (hu' : ∀ c ∈ u', p c = true)
    (hr : ∀ c ∈ r.head?, p c = false) (hr' : ∀ c ∈ r'.head?, p c = false)
    (h : u ++ r = u' ++ r') : u = u' ∧ r = r' := by
  have htake := congrArg (List.takeWhile p) h
  rw [List.takeWhile_append_of_pos hu, List.takeWhile_append_of_pos hu', takeWhile_of_head? hr,
    takeWhile_of_head? hr', List.append_nil, List.append_nil] at htake
  obtain rfl := htake
  exact ⟨rfl, List.append_cancel_left h⟩

theorem append_cons_inj {c : Char} {u u' r r' : Text} (hu : c ∉ u) (hu' : c ∉ u')
    (h : u ++ c :: r = u' ++ c :: r') : u = u' ∧ r = r' := by
  have hne : ∀ u : Text, c ∉ u → ∀ d ∈ u, (d != c) = true := fun u hu d hd =>
    bne_iff_ne.mpr (ne_of_mem_of_not_mem hd hu)
  obtain ⟨rfl, htail⟩ := eq_of_append_eq (hne u hu) (hne u' hu') (by simp) (by simp) h
  exact ⟨rfl, (List.cons.inj htail).2⟩

theorem trim_of_ends (hhead : ∀ c ∈ t.head?, isBlank c = false)
    (hlast : ∀ c ∈ t.getLast?, isBlank c = false) : trim t = t := by
  rw [trim, trimStart, trimEnd, dropWhile_of_head? hhead, dropEndWhile_of_getLast? hlast]

theorem trim_append {s u : Text} (hs : ∀ c ∈ s, isBlank c = true) (hu : ∀ c ∈ u, isBlank c = true)
    (hhead : ∀ c ∈ t.head?, isBlank c = false) (hlast : ∀ c ∈ t.getLast?, isBlank c = false)
    (hne : t ≠ []) : trim (s ++ (t ++ u)) = t := by
  obtain ⟨c, t, rfl⟩ := List.exists_cons_of_ne_nil hne
  have hc : ∀ d ∈ (c :: t ++ u).head?, isBlank d = false := hhead
  rw [trim, trimStart, List.dropWhile_append_of_pos hs, dropWhile_of_head? hc]
  exact dropEndWhile_append hlast hu

theorem trim_of_forall (h : ∀ c ∈ t, isBlank c = false) : trim t = t :=
  trim_of_ends (fun c hc => h c (List.mem_of_head? hc)) fun c hc => h c (List.mem_of_getLast? hc)

theorem words_of_forall (hne : t ≠ []) (h : ∀ c ∈ t, isBlank c = false) : words t = [t] := by
  induction t with
  | nil => exact absurd rfl hne
  | cons c t ih =>
    rw [words, h c (by simp), if_neg Bool.false_ne_true]
    cases t with
    | nil => rfl
    | cons d t =>
      have hd : ¬(List.head? (d :: t)).all isBlank = true := by simp [h d (by simp)]
      rw [if_neg hd, ih (List.cons_ne_nil d t) fun e he => h e (by simp [he])]

theorem getLast?_trim (t : Text) : ∀ c ∈ (trim t).getLast?, isBlank c = false :=
  getLast?_dropEndWhile isBlank _

theorem head?_trim (t : Text) : ∀ c ∈ (trim t).head?, isBlank c = false := by
  intro c hc
  obtain ⟨u, hu⟩ := isPrefix_dropEndWhile isBlank (trimStart t)
  rw [trim, trimEnd] at hc
  cases hd : dropEndWhile isBlank (trimStart t) with
  | nil => rw [hd] at hc; simp at hc
  | cons d s =>
    rw [hd] at hc hu
    have hhead := List.head?_dropWhile_not isBlank t
    rw [trimStart] at hu
    rw [← hu] at hhead
    obtain rfl : d = c := by simpa using hc
    exact hhead

theorem trim_trim (t : Text) : trim (trim t) = trim t :=
  trim_of_ends (head?_trim t) (getLast?_trim t)

theorem trim_cons {c : Char} (h : isBlank c = true) (t : Text) : trim (c :: t) = trim t := by
  rw [trim, trimStart, List.dropWhile_cons_of_pos h]
  rfl

theorem trim_ne_nil {c : Char} (hc : c ∈ t) (h : isBlank c = false) : trim t ≠ [] := by
  intro hnil
  cases hstart : trimStart t with
  | nil =>
    have hall := List.dropWhile_eq_nil_iff.mp hstart c hc
    rw [h] at hall
    cases hall
  | cons x u =>
    have hdrop : t.dropWhile isBlank = x :: u := hstart
    have hx := List.head?_dropWhile_not isBlank t
    rw [hdrop] at hx
    rw [trim, hstart, trimEnd, ← List.nil_append (x :: u), dropEndWhile_append_cons hx] at hnil
    cases hnil

theorem mem_of_mem_trim {c : Char} (h : c ∈ trim t) : c ∈ t :=
  (List.dropWhile_suffix isBlank).subset ((isPrefix_dropEndWhile isBlank _).subset h)

theorem exists_trimEnd (t : Text) : ∃ ws, t = trimEnd t ++ ws ∧ allBlank ws = true := by
  have hsplit := List.takeWhile_append_dropWhile (p := isBlank) (l := t.reverse)
  refine ⟨(t.reverse.takeWhile isBlank).reverse, ?_, ?_⟩
  · rw [trimEnd, dropEndWhile, ← List.reverse_append, hsplit, List.reverse_reverse]
  · rw [allBlank, List.all_reverse]
    exact List.all_takeWhile

theorem exists_split_of_not_allBlank (ht : allBlank t = false) :
    ∃ u c bs, t = u ++ c :: bs ∧ isBlank c = false ∧ allBlank bs = true := by
  obtain ⟨bs, hsplit, hbs⟩ := exists_trimEnd t
  have hlast := getLast?_dropEndWhile isBlank t
  rw [← trimEnd] at hlast
  rcases List.eq_nil_or_concat (trimEnd t) with hnil | ⟨u, c, hu⟩
  · rw [← allBlank_trimEnd, hnil] at ht
    cases ht
  · rw [List.concat_eq_append] at hu
    exact ⟨u, c, bs, by rw [hsplit, hu]; simp, hlast c (by rw [hu]; simp), hbs⟩

theorem trimEnd_append_of_allBlank {ws : Text} (hws : allBlank ws = true) (t : Text) :
    trimEnd (t ++ ws) = trimEnd t := by
  have hblank : ∀ c ∈ ws.reverse, isBlank c = true := fun c hc =>
    List.all_eq_true.mp hws c (List.mem_reverse.mp hc)
  rw [trimEnd, trimEnd, dropEndWhile, dropEndWhile, List.reverse_append,
    List.dropWhile_append_of_pos hblank]

theorem trimEnd_of_allBlank (h : allBlank t = true) : trimEnd t = [] :=
  trimEnd_append_of_allBlank h []

theorem exists_trimStart_append {c : Char} (hc : isBlank c = false) (t : Text) :
    ∃ u, trimStart (t ++ [c]) = u ++ [c] := by
  rw [trimStart, List.dropWhile_append]
  split
  · exact ⟨[], by rw [List.dropWhile_cons_of_neg (by simp [hc])]; rfl⟩
  · exact ⟨_, rfl⟩

theorem trimStart_append {x : Text} (hx : ∃ u c, x = u ++ [c] ∧ isBlank c = false) (t : Text) :
    trimStart (x ++ t) = trimStart x ++ t := by
  obtain ⟨u, c, rfl, hc⟩ := hx
  obtain ⟨v, hv⟩ := exists_trimStart_append hc u
  rw [trimStart, trimStart, List.dropWhile_append, if_neg]
  rw [← trimStart, hv]
  simp

theorem trim_append_of_last {x : Text} (hx : ∃ u c, x = u ++ [c] ∧ isBlank c = false) (t : Text) :
    trim (x ++ t) = trimStart x ++ trimEnd t := by
  rw [trim, trimStart_append hx]
  obtain ⟨u, c, rfl, hc⟩ := hx
  obtain ⟨v, hv⟩ := exists_trimStart_append hc u
  rw [hv, List.append_assoc, List.singleton_append, trimEnd_append_cons hc, List.append_assoc]
  rfl

theorem trim_trimEnd (t : Text) : trim (trimEnd t) = trim t := by
  cases ht : allBlank t with
  | true =>
    have hstart : trimStart t = [] := List.dropWhile_eq_nil_iff.mpr (List.all_eq_true.mp ht)
    rw [trimEnd_of_allBlank ht, trim, trim, hstart]
    rfl
  | false =>
    obtain ⟨u, c, bs, rfl, hc, hbs⟩ := exists_split_of_not_allBlank ht
    have hsplit : u ++ c :: bs = (u ++ [c]) ++ bs := by simp
    have hkept : trimEnd (u ++ [c]) = u ++ [c] := dropEndWhile_append_singleton hc u
    have htrim : ∀ t, trim ((u ++ [c]) ++ t) = trimStart (u ++ [c]) ++ trimEnd t :=
      trim_append_of_last ⟨u, c, rfl, hc⟩
    rw [hsplit, trimEnd_append_of_allBlank hbs, hkept, htrim, trimEnd_of_allBlank hbs]
    simpa [trimEnd, dropEndWhile] using htrim []

end CanvasPage.Text
