import CanvasPage.Page.Markup
import CanvasPage.Proofs.Text.Trim

namespace CanvasPage.Text

variable {t l : Text}

theorem join_cons_cons (separator t u : Text) (us : List Text) :
    join separator (t :: u :: us) = t ++ (separator ++ join separator (u :: us)) := by
  rw [join, List.append_assoc]
  exact List.cons_ne_nil u us

theorem lines_append_lineFeed (hl : '\n' ∉ l) (hr : l.getLast? ≠ some '\r') (t : Text) :
    lines (l ++ '\n' :: t) = l :: lines t := by
  induction l with
  | nil => rfl
  | cons c l ih =>
    have hc : c ≠ '\n' := fun h => hl (by simp [h])
    have hrest : lines (l ++ '\n' :: t) = l :: lines t := by
      cases l with
      | nil => rfl
      | cons d l =>
        rw [List.getLast?_cons_cons] at hr
        exact ih (fun h => hl (by simp [h])) hr
    have hreturn : ∀ rest, c = '\r' → l ++ '\n' :: t ≠ '\n' :: rest := by
      rintro rest rfl h
      cases l with
      | nil => exact hr rfl
      | cons d l =>
        obtain rfl := (List.cons.inj h).1
        exact hl (by simp)
    rw [List.cons_append, lines, hrest]
    · exact hc
    · exact hreturn

theorem lines_of_not_mem (hl : '\n' ∉ l) (hne : l ≠ []) : lines l = [l] := by
  induction l with
  | nil => exact absurd rfl hne
  | cons c l ih =>
    have hc : c ≠ '\n' := fun h => hl (by simp [h])
    have hrest : '\n' ∉ l := fun h => hl (by simp [h])
    have hreturn : ∀ rest, c = '\r' → l ≠ '\n' :: rest := by
      rintro rest - rfl
      exact hrest (by simp)
    rw [lines]
    · cases l with
      | nil => rfl
      | cons d l => rw [ih hrest (List.cons_ne_nil d l)]
    · exact hc
    · exact hreturn

theorem lines_join {ls : List Text} (hls : ∀ l ∈ ls, '\n' ∉ l ∧ l.getLast? ≠ some '\r')
    (hlast : ∀ l ∈ ls.getLast?, l ≠ []) : lines (join "\n" ls) = ls := by
  induction ls with
  | nil => rfl
  | cons l ls ih =>
    obtain ⟨hbreak, hreturn⟩ := hls l (by simp)
    cases ls with
    | nil => exact lines_of_not_mem hbreak (hlast l rfl)
    | cons m ls =>
      rw [List.getLast?_cons_cons] at hlast
      have hrest := ih (fun k hk => hls k (by simp [hk])) hlast
      have hjoin : join "\n" (l :: m :: ls) = l ++ '\n' :: join "\n" (m :: ls) :=
        join_cons_cons _ _ _ _
      rw [hjoin, lines_append_lineFeed hbreak hreturn, hrest]

theorem lines_unlines {ls : List Text} (hls : ∀ l ∈ ls, '\n' ∉ l ∧ l.getLast? ≠ some '\r') :
    lines (Page.unlines ls) = ls := by
  induction ls with
  | nil => rfl
  | cons l ls ih =>
    obtain ⟨hbreak, hreturn⟩ := hls l (by simp)
    have ih := ih fun m hm => hls m (by simp [hm])
    rw [Page.unlines] at ih ⊢
    rw [List.flatMap_cons, List.append_assoc, List.singleton_append,
      lines_append_lineFeed hbreak hreturn, ih]

theorem unlines_eq_join {ls : List Text} (h : ls ≠ []) :
    Page.unlines ls = join "\n" ls ++ ['\n'] := by
  induction ls with
  | nil => exact absurd rfl h
  | cons l ls ih =>
    cases ls with
    | nil => rw [Page.unlines, List.flatMap_singleton, join]
    | cons m ls =>
      have ih := ih (List.cons_ne_nil m ls)
      rw [Page.unlines] at ih ⊢
      rw [List.flatMap_cons, ih, join_cons_cons, List.append_assoc, List.append_assoc,
        List.append_assoc]
      rfl

theorem lines_ne_nil (h : t ≠ []) : lines t ≠ [] := by
  fun_cases lines t with
  | case1 => exact absurd rfl h
  | case2 => exact List.cons_ne_nil _ _
  | case3 => exact List.cons_ne_nil _ _
  | case4 => exact List.cons_ne_nil _ _
  | case5 => exact List.cons_ne_nil _ _

theorem unlines_lines (h : '\r' ∉ t) :
    Page.unlines (lines t) = if t.getLast?.all (· == '\n') then t else t ++ ['\n'] := by
  fun_induction lines t with
  | case1 => rfl
  | case2 rest ih =>
    have ih := ih fun hr => h (by simp [hr])
    rw [Page.unlines] at ih ⊢
    rw [List.flatMap_cons, ih, List.getLast?_cons]
    cases hlast : rest.getLast? with
    | none =>
      obtain rfl := List.getLast?_eq_none_iff.mp hlast
      rfl
    | some c =>
      simp only [Option.all_some, Option.getD_some, List.nil_append, List.singleton_append]
      split <;> rfl
  | case3 rest ih => exact absurd (by simp) h
  | case4 c rest hc hr hl ih =>
    have hrest : rest = [] := Decidable.byContradiction fun hne => lines_ne_nil hne hl
    have hlast : ¬ ([c].getLast?.all (· == '\n')) = true := by simpa using hc
    rw [hrest, if_neg hlast]
    rfl
  | case5 c rest hc hr l ls hl ih =>
    have ih := ih fun hmem => h (by simp [hmem])
    have hne : rest ≠ [] := by
      rintro rfl
      cases hl
    rw [hl, Page.unlines, List.flatMap_cons] at ih
    rw [Page.unlines, List.flatMap_cons, List.cons_append, List.cons_append, ih,
      List.getLast?_cons_of_ne_nil hne]
    split <;> rfl

variable {u k m : Text} {c : Char} {f g h : Text → Text} {ks ls : List Text}

theorem isBlank_lineBreak (hc : isBlank c = false) : c ≠ '\n' ∧ c ≠ '\r' := by
  constructor
  · rintro rfl
    cases hc
  · rintro rfl
    cases hc

theorem exists_lines_append_cons (hfeed : c ≠ '\n') (hreturn : c ≠ '\r') (u : Text) :
    ∃ ks k, ∀ v, lines (u ++ c :: v) =
      ks ++ (k ++ c :: (lines v).headD []) :: (lines v).tail := by
  fun_induction lines u with
  | case1 =>
    refine ⟨[], [], fun v => ?_⟩
    have hpair : ∀ rest, c = '\r' → v ≠ '\n' :: rest := fun _ hc => absurd hc hreturn
    rw [List.nil_append, lines]
    · cases lines v <;> rfl
    · exact hfeed
    · exact hpair
  | case2 rest ih =>
    obtain ⟨ks, k, hlines⟩ := ih
    exact ⟨[] :: ks, k, fun v => congrArg _ (hlines v)⟩
  | case3 rest ih =>
    obtain ⟨ks, k, hlines⟩ := ih
    exact ⟨[] :: ks, k, fun v => congrArg _ (hlines v)⟩
  | case4 d rest hd hpair _ ih | case5 d rest hd hpair _ _ _ ih =>
    obtain ⟨ks, k, hlines⟩ := ih
    have hpair : ∀ v tail, d = '\r' → rest ++ c :: v ≠ '\n' :: tail := by
      rintro v tail rfl heq
      rcases List.append_eq_cons_iff.mp heq with ⟨rfl, hhead⟩ | ⟨rest', rfl, -⟩
      · exact hfeed (List.cons.inj hhead).1
      · exact hpair rest' rfl rfl
    cases ks with
    | nil =>
      refine ⟨[], d :: k, fun v => ?_⟩
      rw [List.cons_append, lines, hlines]
      · rfl
      · exact hd
      · exact hpair v
    | cons first ks =>
      refine ⟨(d :: first) :: ks, k, fun v => ?_⟩
      rw [List.cons_append, lines, hlines]
      · rfl
      · exact hd
      · exact hpair v

theorem join_glue (separator : Text) (ks ls : List Text) (k l : Text) :
    join separator (ks ++ (k ++ l) :: ls) =
      join separator (ks ++ [k]) ++ join separator (l :: ls) := by
  induction ks with
  | nil =>
    cases ls with
    | nil => rfl
    | cons m ls =>
      rw [List.nil_append, List.nil_append, join_cons_cons, join_cons_cons, List.append_assoc]
      rfl
  | cons j ks ih =>
    obtain ⟨m, ms, hcons⟩ : ∃ m ms, ks ++ [k] = m :: ms :=
      List.exists_cons_of_ne_nil (by simp)
    obtain ⟨m', ms', hcons'⟩ : ∃ m ms, ks ++ (k ++ l) :: ls = m :: ms :=
      List.exists_cons_of_ne_nil (by simp)
    rw [hcons, hcons'] at ih
    rw [List.cons_append, List.cons_append, hcons, hcons', join_cons_cons, join_cons_cons, ih]
    simp only [List.append_assoc]

theorem join_append (separator : Text) (hks : ks ≠ []) (hls : ls ≠ []) :
    join separator (ks ++ ls) = join separator ks ++ (separator ++ join separator ls) := by
  obtain ⟨js, k, rfl⟩ := (List.eq_nil_or_concat ks).resolve_left hks
  obtain ⟨l, ls, rfl⟩ := List.exists_cons_of_ne_nil hls
  have hglue := join_glue separator js (l :: ls) k []
  rw [List.append_nil, join_cons_cons, List.nil_append] at hglue
  rw [List.concat_eq_append, List.append_assoc, List.singleton_append, hglue]

/-- The first line changed by one function, those behind it by another. -/
def mapFirst (first later : Text → Text) : List Text → List Text
  | [] => []
  | l :: ls => first l :: ls.map later

def mapLines (first later : Text → Text) (t : Text) : Text :=
  join "\n" (mapFirst first later (lines t))

theorem mapLines_of_not_mem (ht : '\n' ∉ t) (hne : t ≠ []) (f g : Text → Text) :
    mapLines f g t = f t := by
  rw [mapLines, lines_of_not_mem ht hne]
  rfl

/-- What a function of lines makes of a line is what it makes of a beginning of it, and then
something that depends on the rest alone. -/
def Splits (c : Char) (f h : Text → Text) : Prop :=
  ∀ k l : Text, f (k ++ c :: l) = f (k ++ [c]) ++ h l

theorem Splits.nil (hf : Splits c f h) : h [] = [] := List.append_right_eq_self.mp (hf [] []).symm

theorem mapFirst_append (f g : Text → Text) (ks : List Text) :
    ∃ ms q, (q = f ∨ q = g) ∧ ∀ l ls, mapFirst f g (ks ++ l :: ls) = ms ++ q l :: ls.map g := by
  cases ks with
  | nil => exact ⟨[], f, .inl rfl, fun _ _ => rfl⟩
  | cons k ks =>
    refine ⟨f k :: ks.map g, g, .inr rfl, fun l ls => ?_⟩
    simp [mapFirst]

theorem mapLines_append_cons (hc : isBlank c = false) (hf : Splits c f h) (hg : Splits c g h)
    (u v : Text) : mapLines f g (u ++ c :: v) = mapLines f g (u ++ [c]) ++ mapLines h g v := by
  obtain ⟨hfeed, hreturn⟩ := isBlank_lineBreak hc
  obtain ⟨ks, k, hlines⟩ := exists_lines_append_cons hfeed hreturn u
  obtain ⟨ms, q, hq, hfirst⟩ := mapFirst_append f g ks
  have hsplits : Splits c q h := by
    rcases hq with rfl | rfl
    · exact hf
    · exact hg
  have hbehind : mapLines h g v =
      join "\n" (h ((lines v).headD []) :: (lines v).tail.map g) := by
    rw [mapLines]
    cases lines v with
    | nil => exact hf.nil.symm
    | cons l ls => rfl
  rw [mapLines, mapLines, hlines, hlines, hfirst, hfirst, hsplits, join_glue, hbehind]
  rfl

theorem exists_mapLines_concat (hc : isBlank c = false) (hf : ∀ k : Text, ∃ l, f (k ++ [c]) = l ++ [c])
    (hg : ∀ k : Text, ∃ l, g (k ++ [c]) = l ++ [c]) (u : Text) :
    ∃ v, mapLines f g (u ++ [c]) = v ++ [c] := by
  obtain ⟨hfeed, hreturn⟩ := isBlank_lineBreak hc
  obtain ⟨ks, k, hlines⟩ := exists_lines_append_cons hfeed hreturn u
  obtain ⟨ms, q, hq, hfirst⟩ := mapFirst_append f g ks
  obtain ⟨l, hl⟩ : ∃ l, q (k ++ [c]) = l ++ [c] := by
    rcases hq with rfl | rfl
    · exact hf k
    · exact hg k
  refine ⟨join "\n" (ms ++ [l]), ?_⟩
  have hend : (lines []).headD [] = [] ∧ (lines []).tail = [] := ⟨rfl, rfl⟩
  rw [mapLines, hlines, hfirst, hend.1, hend.2, List.map_nil, hl, join_glue]
  rfl

end CanvasPage.Text
