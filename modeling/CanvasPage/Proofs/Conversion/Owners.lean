import CanvasPage.Proofs.Descriptor.Soundness
import CanvasPage.Proofs.Page.Opening
import CanvasPage.Proofs.Procedure.PrivateName

namespace CanvasPage

namespace Page

variable {d : Descriptor} {owner primary name : Text} {p : Procedure} {ps : List Procedure}
  {overrides : Bool}

section Initializers

/-- Of the constructors of each owner the first. -/
def leadingInitializers : List Procedure → List Procedure
  | [] => []
  | p :: ps =>
      if p.isInitializer then p :: (leadingInitializers ps).filter (·.owner != p.owner)
      else leadingInitializers ps

/-- Where constructors lead, each owner has its own, the first. `keeps` are the owners that are
looked at: an owner that has been met is taken away from them. -/
theorem filter_leadingInitializers (keeps : Text → Bool)
    (hled : ∀ p ∈ ps, keeps p.owner = true →
      (ps.find? (·.owner == p.owner)).any (·.isInitializer) = true) :
    (leadingInitializers ps).filter (keeps ·.owner) =
      ((Descriptor.ownersOf ps).filter keeps).filterMap fun owner =>
        (ps.filter (·.owner == owner)).find? (·.isInitializer) := by
  induction ps generalizing keeps with
  | nil => rfl
  | cons p ps ih =>
    have hne : ∀ {owner : Text}, (owner != p.owner) = true → (p.owner == owner) = false := by
      intro owner h
      rw [bne_iff_ne] at h
      exact beq_eq_false_iff_ne.mpr (Ne.symm h)
    have hrest := ih (fun owner => keeps owner && owner != p.owner) fun q hq hkeeps => by
      rw [Bool.and_eq_true] at hkeeps
      have hq := hled q (by simp [hq]) hkeeps.1
      rwa [List.find?_cons, hne hkeeps.2] at hq
    have hfind : ∀ owner ∈ (Descriptor.ownersOf ps).filter
        (fun owner => keeps owner && owner != p.owner),
        (ps.filter (·.owner == owner)).find? (·.isInitializer) =
          ((p :: ps).filter (·.owner == owner)).find? (·.isInitializer) := by
      intro owner howner
      have hkeeps := (List.mem_filter.mp howner).2
      rw [Bool.and_eq_true] at hkeeps
      rw [List.filter_cons_of_neg (by simp [hne hkeeps.2])]
    rw [List.filterMap_congr hfind] at hrest
    rw [leadingInitializers, Descriptor.ownersOf]
    cases hkeeps : keeps p.owner with
    | true =>
      have hp := hled p (by simp) hkeeps
      rw [List.find?_cons, beq_self_eq_true, Option.any_some] at hp
      rw [if_pos hp, List.filter_cons, if_pos hkeeps, List.filter_cons, if_pos hkeeps,
        List.filterMap_cons, List.filter_cons_of_pos (by simp), List.find?_cons_of_pos hp,
        List.filter_filter, List.filter_filter]
      exact congrArg _ hrest
    | false =>
      have hdrop : ∀ owner, keeps owner = (keeps owner && owner != p.owner) := by
        intro owner
        by_cases howner : owner = p.owner
        · rw [howner, hkeeps, Bool.false_and]
        · simp [howner]
      rw [List.filter_cons_of_neg (by simp [hkeeps]), List.filter_filter, ← hrest]
      split
      · rw [List.filter_cons_of_neg (by simp [hkeeps]), List.filter_filter]
      · exact List.filter_congr fun q _ => hdrop q.owner

theorem map_ownerInitializer (hd : AreLed d.procedures) :
    d.owners.map (ownerInitializer d) = leadingInitializers d.procedures := by
  have hleading := filter_leadingInitializers (fun _ => true) fun p hp _ => hd p hp
  have hself : ∀ owner ∈ d.owners, (d.proceduresOf owner).find? (·.isInitializer) =
      some (ownerInitializer d owner) := by
    intro owner howner
    obtain ⟨p, hp, rfl⟩ := Descriptor.mem_ownersOf.mp howner
    have hsome : ((d.proceduresOf p.owner).find? (·.isInitializer)).isSome = true := by
      have hled := hd p hp
      cases hfind : d.procedures.find? (·.owner == p.owner) with
      | none => simp [hfind] at hled
      | some q =>
        rw [hfind] at hled
        have howner : q.owner = p.owner := by simpa using List.find?_some hfind
        have hq : q ∈ d.proceduresOf p.owner :=
          List.mem_filter.mpr ⟨List.mem_of_find?_eq_some hfind, beq_iff_eq.mpr howner⟩
        exact List.find?_isSome.mpr ⟨q, hq, hled⟩
    rw [ownerInitializer, Option.eq_some_of_isSome hsome]
    rfl
  rw [List.filter_eq_self.mpr fun _ _ => rfl, List.filter_eq_self.mpr fun _ _ => rfl] at hleading
  rw [hleading, ← List.filterMap_eq_map]
  exact (List.filterMap_congr hself).symm

theorem leadingInitializers_sublist (ps : List Procedure) :
    (leadingInitializers ps).Sublist (ps.filter (·.isInitializer)) := by
  induction ps with
  | nil => exact .refl _
  | cons p ps ih =>
    rw [leadingInitializers]
    cases hp : p.isInitializer with
    | true =>
      rw [List.filter_cons_of_pos hp]
      exact (List.filter_sublist.trans ih).cons_cons p
    | false =>
      rw [List.filter_cons_of_neg (by simp [hp])]
      exact ih

theorem leadingInitializers_eq_filter_iff (ps : List Procedure) :
    leadingInitializers ps = ps.filter (·.isInitializer) ↔
      ((ps.filter (·.isInitializer)).map (·.owner)).Nodup := by
  induction ps with
  | nil => simp [leadingInitializers]
  | cons p ps ih =>
    rw [leadingInitializers]
    cases hp : p.isInitializer with
    | false =>
      rw [List.filter_cons_of_neg (by simp [hp])]
      exact ih
    | true =>
      rw [List.filter_cons_of_pos hp, List.map_cons, List.nodup_cons, ← ih, if_pos rfl,
        List.cons.injEq, and_iff_right rfl]
      constructor
      · intro heq
        have hsame : leadingInitializers ps = ps.filter (·.isInitializer) :=
          (leadingInitializers_sublist ps).antisymm (heq ▸ List.filter_sublist)
        refine ⟨fun hmem => ?_, hsame⟩
        obtain ⟨q, hq, howner⟩ := List.mem_map.mp hmem
        rw [← heq] at hq
        simpa [howner] using (List.mem_filter.mp hq).2
      · rintro ⟨hmem, hsame⟩
        rw [hsame, List.filter_eq_self]
        intro q hq
        exact bne_iff_ne.mpr fun howner => hmem (List.mem_map.mpr ⟨q, hq, howner⟩)

end Initializers

section Animation

/-- Does an owner have an instance method that a frame calls? -/
def HasFrames (d : Descriptor) (owner : Text) : Prop :=
  ∃ p ∈ d.procedures, p.owner = owner ∧ p.isStatic = false ∧
    (p.kind = .method "update" ∨ p.kind = .method "draw")

theorem isAnimated_iff : d.isAnimated owner = true ↔ HasFrames d owner := by
  rw [Descriptor.isAnimated, Bool.or_eq_true, Descriptor.ownerDefines_iff,
    Descriptor.ownerDefines_iff, ← exists_or, HasFrames]
  refine exists_congr fun p => ?_
  rw [← and_or_left, ← and_or_left, ← and_or_left]

/-- The owner `primary` is the last one with frames, or just the last one where none has them. -/
structure IsPrimary (d : Descriptor) (primary : Text) : Prop where
  frames : ∀ owner, HasFrames d owner → HasFrames d primary
  last : ∃ before after, (d.procedures.map (·.owner)).eraseDups = before ++ primary :: after ∧
    (∀ owner ∈ after, ¬ HasFrames d owner) ∧ (HasFrames d primary ∨ after = [])

theorem mem_owners_of_hasFrames (h : HasFrames d owner) : owner ∈ d.owners := by
  obtain ⟨p, hp, rfl, -⟩ := h
  exact Descriptor.mem_ownersOf.mpr ⟨p, hp, rfl⟩

theorem isPrimary_of_primaryOwner? (h : d.primaryOwner? = some primary) : IsPrimary d primary := by
  have howners : d.owners = (d.procedures.map (·.owner)).eraseDups :=
    Descriptor.ownersOf_eq_eraseDups _
  rw [Descriptor.primaryOwner?, Option.or_eq_some_iff] at h
  rcases h with h | ⟨hnone, h⟩
  · obtain ⟨hframes, after, before, hsplit, hafter⟩ := List.find?_eq_some_iff_append.mp h
    have hframes := isAnimated_iff.mp hframes
    refine ⟨fun _ _ => hframes, before.reverse, after.reverse, ?_, fun owner howner => ?_,
      .inl hframes⟩
    · have hreverse := congrArg List.reverse hsplit
      rw [← howners]
      simpa using hreverse
    · have hfree := hafter owner (List.mem_reverse.mp howner)
      rw [← isAnimated_iff, Bool.not_eq_true]
      simpa using hfree
  · have hfree : ∀ owner, ¬ HasFrames d owner := by
      intro owner howner
      have hmem := List.mem_reverse.mpr (mem_owners_of_hasFrames howner)
      exact List.find?_eq_none.mp hnone owner hmem (isAnimated_iff.mpr howner)
    obtain ⟨before, hsplit⟩ := List.getLast?_eq_some_iff.mp h
    refine ⟨fun owner howner => absurd howner (hfree owner), before, [], ?_, by simp, .inr rfl⟩
    rw [← howners]
    exact hsplit

theorem IsPrimary.not_mem_after {other : Text} {after : List Text} (h : IsPrimary d other)
    (hafter : ∀ owner ∈ after, ¬ HasFrames d owner) (hlast : HasFrames d primary ∨ after = []) :
    other ∉ after := by
  intro hmem
  rcases hlast with hframes | rfl
  · exact hafter other hmem (h.frames primary hframes)
  · cases hmem

theorem IsPrimary.unique {other : Text} (h : IsPrimary d primary) (h' : IsPrimary d other) :
    primary = other := by
  obtain ⟨before, after, hsplit, hafter, hlast⟩ := h.last
  obtain ⟨before', after', hsplit', hafter', hlast'⟩ := h'.last
  have hother := h'.not_mem_after hafter hlast
  have hprimary := h.not_mem_after hafter' hlast'
  rcases List.append_eq_append_iff.mp (hsplit.symm.trans hsplit') with
    ⟨between, -, hrest⟩ | ⟨between, -, hrest⟩
  · cases between with
    | nil => exact (List.cons.inj hrest).1
    | cons _ between => exact absurd ((List.cons.inj hrest).2 ▸ by simp) hother
  · cases between with
    | nil => exact (List.cons.inj hrest).1.symm
    | cons _ between => exact absurd ((List.cons.inj hrest).2 ▸ by simp) hprimary

theorem exists_primaryOwner? (hd : d.procedures ≠ []) :
    ∃ primary, d.primaryOwner? = some primary := by
  have hne : d.owners ≠ [] := by
    obtain ⟨p, ps, hps⟩ := List.exists_cons_of_ne_nil hd
    rw [Descriptor.owners, hps]
    exact List.cons_ne_nil _ _
  rw [← Option.isSome_iff_exists, Descriptor.primaryOwner?, Option.isSome_or]
  simp [hne]

def loopLead : Text := "\n    // Animation loop\n"

theorem not_loopLead (hd : IsNamed d) {t : Text} (ht : t ∈ declarationParts d overrides) :
    ¬ loopLead <+: t := by
  intro hloop
  have hhead : t.head? = some '\n' := by
    obtain ⟨rest, rfl⟩ := hloop
    rfl
  rcases cases_of_mem_declarationParts hd ht with hslash | ⟨owner, howner, rfl | rfl | hopens⟩
  · cases hslash.symm.trans hhead
  · obtain ⟨rest, hrest⟩ := hloop
    have hsplit : ("Animation" : Text) ++ ' ' :: ("loop\n" ++ rest) =
        owner ++ ' ' :: "definition\n" := by
      rw [List.append_assoc] at hrest
      exact @List.append_cancel_left Char "\n    // " _ _ hrest
    obtain ⟨-, -, heq⟩ := Member.eq_of_append_cons (by decide)
      (continuesIdentifier_of_mem_owners hd howner) (by decide) (by decide) hsplit
    cases heq
  · cases hhead
  · rcases head?_of_opens hopens with rfl | hblank
    · exact absurd hloop (by decide)
    · cases hblank.symm.trans hhead

theorem exists_initializerLead (howner : owner ∈ d.owners) (overrides : Bool) :
    ∃ t ∈ declarationParts d overrides, initializerLead owner <+: t := by
  have hlead := isPrefix_initializerLead (ownerInitializer d owner)
  rw [(ownerInitializer_spec d owner).2] at hlead
  refine ⟨_, List.mem_cons_of_mem _ (List.mem_flatMap.mpr ⟨owner, howner, ?_⟩), hlead⟩
  rw [map_text_ownerPieces]
  simp

/-- What a frame may call is what the prototype of the owner is given. -/
theorem exists_prototypeLead_iff (hd : IsNamed d)
    (hprimary : ∀ c ∈ primary, Text.continuesIdentifier c = true)
    (hname : ∀ c ∈ name, Text.continuesIdentifier c = true) :
    (∃ t ∈ declarationParts d overrides, prototypeLead primary name <+: t) ↔
      d.ownerDefines primary name = true := by
  rw [Descriptor.ownerDefines_iff]
  constructor
  · rintro ⟨t, ht, hlead⟩
    obtain ⟨rest, hbegins⟩ := exists_hasWord_prototypeLead hprimary hlead
    have hblank : t.head? = some ' ' := by
      rw [hbegins.text]
      rfl
    rcases cases_of_mem_declarationParts hd ht with hslash | ⟨owner, howner, rfl | rfl | hopens⟩
    · cases hslash.symm.trans hblank
    · cases hblank
    · obtain ⟨rest, hdeclares⟩ := exists_hasWord (w := "var") (c := ' ') (u := []) (by decide)
        (by decide) (var_prefix_initializerText (ownerInitializer d owner))
      exact absurd (hbegins.unique hdeclares).2.1 (by decide)
    · exact exists_method_of_opens hd hprimary hname hopens hlead
  · rintro ⟨p, hp, rfl, hstatic, hkind⟩
    have hown : p.name = name := by rw [Procedure.name, hkind]
    have hshared : p.isAccessor = false := by simp [Procedure.isAccessor, hkind]
    have hrest : p ∈ (d.proceduresOf p.owner).filter (!·.isInitializer) := by
      simp [Descriptor.proceduresOf, hp, Procedure.isInitializer, hkind]
    have hpiece := mem_ownerPieces_of_member (mem_leadingMembers hshared hrest)
      (function_mem_memberPieces p.owner hshared (by simp [hkind]))
    exact ⟨_, List.mem_cons_of_mem _ (List.mem_flatMap.mpr
      ⟨p.owner, Descriptor.mem_ownersOf.mpr ⟨p, hp, rfl⟩, List.mem_map_of_mem hpiece⟩),
      hown ▸ isPrefix_prototypeLead p.owner hstatic⟩

def frameUpdate : Text := "        animation.update(time);"

def frameDraw : Text := "        animation.draw(ctx);"

/-- A line that calls no method of the owner. -/
structure IsFixedLine (l : Text) : Prop where
  no_break : '\n' ∉ l
  no_call : l ≠ frameUpdate ∧ l ≠ frameDraw

theorem isFixedLine_fill {background : Text} (h : '\n' ∉ background) :
    IsFixedLine ("        ctx.fillStyle = '" ++ escapeString background ++ "';") := by
  have hescape : '\n' ∉ escapeString background := by
    intro hmem
    obtain ⟨c, hc, hmem⟩ := List.mem_flatMap.mp hmem
    split at hmem
    · rcases List.mem_cons.mp hmem with heq | hmem
      · exact absurd heq (by decide)
      · exact h (List.mem_singleton.mp hmem ▸ hc)
    · exact h (List.mem_singleton.mp hmem ▸ hc)
  have hlead : ("        ctx.fillStyle = '" : Text) <+:
      "        ctx.fillStyle = '" ++ escapeString background ++ "';" :=
    (List.prefix_append _ _).trans (List.prefix_append _ _)
  have hcalls : ¬ ("        ctx.fillStyle = '" : Text) <+: frameUpdate ∧
      ¬ ("        ctx.fillStyle = '" : Text) <+: frameDraw := by decide
  have hfixed : '\n' ∉ ("        ctx.fillStyle = '" : Text) ∧ '\n' ∉ ("';" : Text) := by decide
  refine ⟨?_, fun heq => hcalls.1 (heq ▸ hlead), fun heq => hcalls.2 (heq ▸ hlead)⟩
  rw [List.mem_append, List.mem_append]
  rintro ((hmem | hmem) | hmem)
  · exact hfixed.1 hmem
  · exact hescape hmem
  · exact hfixed.2 hmem

theorem exists_backgroundText (d : Descriptor) (overrides : Bool) (h : '\n' ∉ d.backgroundColor) :
    ∃ background, backgroundText d overrides = unlines background ∧
      ∀ l ∈ background, IsFixedLine l := by
  have hfixed : ∀ ls : List Text, (∀ l ∈ ls, '\n' ∉ l ∧ l ≠ frameUpdate ∧ l ≠ frameDraw) →
      ∀ l ∈ ls, IsFixedLine l := fun ls hls l hl => ⟨(hls l hl).1, (hls l hl).2⟩
  cases overrides with
  | true => exact ⟨_, rfl, hfixed _ (by decide +kernel)⟩
  | false =>
    exact ⟨_, rfl, List.forall_mem_cons.mpr ⟨isFixedLine_fill h, hfixed _ (by decide +kernel)⟩⟩

/-- The lines of a loop: a frame begins with the lines `background`, and its calls are `calls`. -/
def loopLines (primary : Text) (background calls : List Text) : List Text :=
  let before : List Text := [
    "",
    "    // Animation loop",
    "    var animation = new " ++ primary ++ "();",
    "    var time = 0;",
    "    var animationFrameId;",
    "",
    "    function animate() \x7b"]
  let tick : Text := "        time += 0.00125;"
  let after : List Text := [
    "",
    "        animationFrameId = requestAnimationFrame(animate);",
    "    \x7d",
    "",
    "    animate();",
    "",
    "    // Cleanup on page unload",
    "    window.addEventListener('beforeunload', function() \x7b",
    "        cancelAnimationFrame(animationFrameId);",
    "    \x7d);"]
  before ++ background ++ tick :: (calls ++ after)

def frameCalls (d : Descriptor) (primary : Text) : List Text :=
  (if d.ownerDefines primary "update" then [frameUpdate] else []) ++
    if d.ownerDefines primary "draw" then [frameDraw] else []

theorem exists_loopText (h : '\n' ∉ d.backgroundColor) (primary : Text) (overrides : Bool) :
    ∃ background, loopText d primary overrides =
        (loopLines primary background (frameCalls d primary)).flatMap (· ++ ['\n']) ∧
      ∀ l ∈ background, IsFixedLine l := by
  obtain ⟨background, hbackground, hfixed⟩ := exists_backgroundText d overrides h
  have hcall : ∀ (b : Bool) (l : Text), (if b then unlines [l] else []) =
      (if b then [l] else []).flatMap (· ++ ['\n']) := by
    intro b l
    cases b <;> rfl
  refine ⟨background, ?_, hfixed⟩
  unfold loopText loopLines frameCalls
  rw [hbackground, hcall, hcall]
  simp only [unlines, List.flatMap_append, List.flatMap_cons, List.flatMap_nil, List.append_assoc,
    List.nil_append]
  rfl

theorem mem_frameCalls (d : Descriptor) (primary : Text) :
    (frameCalls d primary).Sublist [frameUpdate, frameDraw] ∧
      (frameUpdate ∈ frameCalls d primary ↔ d.ownerDefines primary "update" = true) ∧
      (frameDraw ∈ frameCalls d primary ↔ d.ownerDefines primary "draw" = true) := by
  unfold frameCalls
  generalize d.ownerDefines primary "update" = update
  generalize d.ownerDefines primary "draw" = draw
  revert update draw
  decide +kernel

/-- Behind the parts `declarations` a loop runs the owner `primary`. -/
structure Animates (d : Descriptor) (declarations : List Text) (primary : Text)
    (background calls : List Text) : Prop where
  chosen : IsPrimary d primary
  declared : ∃ t ∈ declarations, initializerLead primary <+: t
  once : ∀ t ∈ declarations, ¬ loopLead <+: t
  fixed : ∀ l ∈ background, IsFixedLine l
  called : calls.Sublist [frameUpdate, frameDraw]
  update : frameUpdate ∈ calls ↔ ∃ t ∈ declarations, prototypeLead primary "update" <+: t
  draw : frameDraw ∈ calls ↔ ∃ t ∈ declarations, prototypeLead primary "draw" <+: t

theorem exists_animates (hd : IsNamed d) (hbreak : '\n' ∉ d.backgroundColor)
    (h : d.primaryOwner? = some primary) (overrides : Bool) :
    ∃ declarations background calls,
      scriptParts d overrides = declarations ++
        [(loopLines primary background calls).flatMap (· ++ ['\n']) ++ "\x7d);\n"] ∧
      Animates d declarations primary background calls := by
  have hprimary := isPrimary_of_primaryOwner? h
  have howner : primary ∈ d.owners := by
    obtain ⟨before, after, hsplit, -⟩ := hprimary.last
    rw [Descriptor.owners, Descriptor.ownersOf_eq_eraseDups, hsplit]
    simp
  have hchars := continuesIdentifier_of_mem_owners hd howner
  obtain ⟨background, hloop, hfixed⟩ := exists_loopText hbreak primary overrides
  obtain ⟨hsublist, hupdate, hdraw⟩ := mem_frameCalls d primary
  refine ⟨declarationParts d overrides, background, frameCalls d primary, ?_, hprimary,
    exists_initializerLead howner overrides, fun t => not_loopLead hd, hfixed, hsublist, ?_, ?_⟩
  · rw [scriptParts_eq, animationText, h, ← hloop]
    rfl
  · rw [hupdate, exists_prototypeLead_iff hd hchars (by decide)]
  · rw [hdraw, exists_prototypeLead_iff hd hchars (by decide)]

end Animation

end Page

namespace ClassBlock

theorem filter_procedures (c : ClassBlock) :
    c.procedures.filter (·.isInitializer) = [c.initializerProcedure] := by
  have hrest : ∀ x ∈ c.memberProcedures, x.2.isInitializer = false := by
    intro x hx
    rcases List.mem_append.mp hx with hx | hx
    · rcases List.mem_append.mp hx with hx | hx
      · obtain ⟨m, -, rfl⟩ := List.mem_map.mp hx
        rw [Method.procedure, Procedure.isInitializer]
        cases m.kind <;> rfl
      · obtain ⟨p, -, hp⟩ := List.mem_filterMap.mp hx
        obtain ⟨procedure, hprocedure, rfl⟩ := Option.map_eq_some_iff.mp hp
        rw [Procedure.isInitializer, (Property.spec_of_procedure? hprocedure).1]
        rfl
    · obtain ⟨p, -, rfl⟩ := List.mem_map.mp hx
      rfl
  rw [procedures, List.filter_cons_of_pos c.initializerProcedure_spec.1,
    List.filter_eq_nil_iff.mpr]
  intro p hp
  obtain ⟨x, hx, rfl⟩ := List.mem_map.mp hp
  rw [hrest x ((sortByStart_perm _).subset hx)]
  exact Bool.false_ne_true

theorem owner_of_mem_procedures (c : ClassBlock) : ∀ p ∈ c.procedures, p.owner = c.name :=
  forall_mem_procedures.mpr ⟨c.initializerProcedure_spec.2, fun _ _ => rfl,
    fun _ _ _ hq => Property.owner_of_procedure? hq, fun _ _ => rfl⟩

theorem map_owner_filter_procedures (cs : List ClassBlock) :
    ((cs.flatMap procedures).filter (·.isInitializer)).map (·.owner) = cs.map (·.name) := by
  induction cs with
  | nil => rfl
  | cons c cs ih =>
    rw [List.flatMap_cons, List.filter_append, c.filter_procedures, List.map_append, ih,
      List.map_cons, List.map_cons, c.initializerProcedure_spec.2]
    rfl

end ClassBlock

namespace Fallback

theorem map_owner_filter_procedures (owner : Text) (f : Fallback) :
    ((f.procedures owner).filter (·.isInitializer)).map (·.owner) = [owner] := by
  cases f <;> rfl

theorem spec_of_mem_procedures {owner : Text} {f : Fallback} {p : Procedure}
    (hp : p ∈ f.procedures owner) :
    p.owner = owner ∧ p.name ∈ (["constructor", "initialize", "update", "draw"] : List Text) := by
  cases f with
  | inert =>
    simp only [procedures, List.mem_cons, List.not_mem_nil, or_false] at hp
    rcases hp with rfl | rfl | rfl <;>
      simp [Procedure.initializer, Procedure.method, Procedure.name]
  | synthesized =>
    simp only [procedures, List.mem_cons, List.not_mem_nil, or_false] at hp
    rcases hp with rfl | rfl | rfl | rfl <;>
      simp [Procedure.initializer, Procedure.method, Procedure.name]

end Fallback

namespace Conversion

theorem isNamed_of_procedures {d : Descriptor} (source : Text) (fallback : Fallback)
    (hname : Descriptor.isName d.name = true)
    (hd : d.procedures = fallback.procedures d.name ∨
      d.procedures = (ClassBlock.scan source).flatMap ClassBlock.procedures) : Page.IsNamed d := by
  rcases hd with hd | hd
  · have hnames : ∀ name ∈ (["constructor", "initialize", "update", "draw"] : List Text),
        ∀ c ∈ name, Text.continuesIdentifier c = true := by decide
    constructor
    · intro p hp c hc
      rw [hd] at hp
      rw [(Fallback.spec_of_mem_procedures hp).1] at hc
      exact Descriptor.continuesIdentifier_of_isNameChar
        ((Descriptor.isNameChar_of_isName hname).2 c hc)
    · intro p hp
      rw [hd] at hp
      exact hnames _ (Fallback.spec_of_mem_procedures hp).2
  · constructor
    · intro p hp
      rw [hd] at hp
      obtain ⟨block, hblock, hp⟩ := List.mem_flatMap.mp hp
      rw [block.owner_of_mem_procedures p hp]
      exact ClassBlock.continuesIdentifier_of_mem_scanFrom hblock
    · intro p hp
      rw [hd] at hp
      obtain ⟨block, hblock, hp⟩ := List.mem_flatMap.mp hp
      exact ClassBlock.continuesIdentifier_of_mem_procedures hblock p hp

variable {source : Text}

theorem exists_ofSource_isNamed (options : ConversionOptions) (h : Text.allBlank source = false) :
    ∃ r, ofSource options source = .ok r ∧ Page.IsNamed r.descriptor ∧ r.descriptor.IsSound ∧
      (Page.scriptParts r.descriptor options.urlOverrides).flatten = r.artifacts.scriptText := by
  obtain ⟨e, he, -, hclasses⟩ := Extraction.exists_ofSource h
  have hsound := Descriptor.isSound_resolve he options.fallback
  refine ⟨_, ofSource_of_extraction options he,
    isNamed_of_procedures source options.fallback hsound.name ?_, hsound,
    Page.flatten_scriptParts _ _⟩
  rw [ofExtraction, hclasses]
  cases e.mode with
  | markup => exact .inl rfl
  | component =>
    rw [if_pos rfl, Descriptor.resolve]
    split
    · exact .inl rfl
    · exact .inr rfl

/-- A script has of the constructors of each owner the first: all of them, if no two classes share
a name. -/
theorem ofSource_initializers (options : ConversionOptions)
    (h : Text.allBlank source = false) :
    ∃ r, ofSource options source = .ok r ∧
      (Page.scriptParts r.descriptor options.urlOverrides).flatten = r.artifacts.scriptText ∧
      (Page.scriptParts r.descriptor options.urlOverrides).filter
          (("    var " : Text).isPrefixOf ·) =
        (Page.leadingInitializers r.descriptor.procedures).map Page.initializerText ∧
      (Page.leadingInitializers r.descriptor.procedures =
          r.descriptor.procedures.filter (·.isInitializer) ↔
        (r.extraction.classes.map (·.name)).Nodup) := by
  obtain ⟨e, he, -, -⟩ := Extraction.exists_ofSource h
  obtain ⟨r, hr, hnamed, hsound, hscript⟩ := exists_ofSource_isNamed options h
  obtain rfl := Except.ok.inj ((ofSource_of_extraction options he).symm.trans hr)
  refine ⟨_, hr, hscript, ?_, ?_⟩
  · rw [Page.filter_scriptParts hnamed, Page.map_ownerInitializer hsound.procedures_led]
  · rw [Page.leadingInitializers_eq_filter_iff]
    simp only [ofExtraction, Descriptor.resolve, List.isEmpty_iff,
      ClassBlock.flatMap_procedures_eq_nil]
    split
    · rename_i hnone
      rw [Fallback.map_owner_filter_procedures, hnone]
      simp
    · rw [ClassBlock.map_owner_filter_procedures]

/-- Two functions, each with a class of its own. -/
def twinSource : Text :=
  "function left() \x7b class Wing \x7b constructor() \x7b this.x = 1; \x7d \x7d \x7d\n" ++
    "function right() \x7b class Wing \x7b constructor(y) \x7b this.y = y; \x7d \x7d \x7d"

def wingFunction : Text := "    var Wing = function() \x7b\n        this.x = 1;\n    \x7d;\n"

/-- The classes share a name, and the second constructor is lost. -/
theorem ofSource_initializers_twinSource :
    Text.allBlank twinSource = false ∧
      ∃ r, ofSource ⟨.inert, false⟩ twinSource = .ok r ∧
        (Page.scriptParts r.descriptor false).flatten = r.artifacts.scriptText ∧
        (Page.scriptParts r.descriptor false).filter (("    var " : Text).isPrefixOf ·) =
          [wingFunction] ∧
        r.descriptor.procedures.filter (·.isInitializer) =
          [.initializer "Wing" [] "this.x = 1;", .initializer "Wing" ["y"] "this.y = y;"] := by
  have hchecks : (ofSource ⟨.inert, false⟩ twinSource).toOption.all (fun r =>
      (Page.leadingInitializers r.descriptor.procedures).map Page.initializerText ==
          [wingFunction] &&
        r.descriptor.procedures.filter (·.isInitializer) ==
          [.initializer "Wing" [] "this.x = 1;", .initializer "Wing" ["y"] "this.y = y;"]) =
      true := by decide +kernel
  have hblank : Text.allBlank twinSource = false := by decide
  obtain ⟨r, hr, hscript, hinitializers, -⟩ := ofSource_initializers ⟨.inert, false⟩ hblank
  rw [hr] at hchecks
  simp only [Except.toOption, Option.all_some, Bool.and_eq_true, beq_iff_eq] at hchecks
  exact ⟨hblank, r, hr, hscript, hinitializers.trans hchecks.1, hchecks.2⟩

/-- The script of a source animates one of its owners. -/
theorem ofSource_animates (options : ConversionOptions) (h : Text.allBlank source = false) :
    ∃ r declarations primary background calls, ofSource options source = .ok r ∧
      (Page.scriptParts r.descriptor options.urlOverrides).flatten = r.artifacts.scriptText ∧
      Page.scriptParts r.descriptor options.urlOverrides = declarations ++
        [(Page.loopLines primary background calls).flatMap (· ++ ['\n']) ++ "\x7d);\n"] ∧
      Page.Animates r.descriptor declarations primary background calls := by
  obtain ⟨r, hr, hnamed, hsound, hscript⟩ := exists_ofSource_isNamed options h
  obtain ⟨primary, hprimary⟩ := Page.exists_primaryOwner? hsound.procedures_ne_nil
  have hbreak : '\n' ∉ r.descriptor.backgroundColor := fun hmem =>
    hsound.background_safe _ hmem (by decide)
  obtain ⟨declarations, background, calls, hparts, hanimates⟩ :=
    Page.exists_animates hnamed hbreak hprimary options.urlOverrides
  exact ⟨r, declarations, primary, background, calls, hr, hscript, hparts, hanimates⟩

def skySource : Text :=
  "class Sky \x7b static draw(ctx) \x7b \x7d update = (t) => \x7b this.t = t; \x7d \x7d\n" ++
    "class Star \x7b get update() \x7b return 1; \x7d \x7d"

def skyUpdate : Text :=
  "    Sky.prototype.update = function(t) \x7b\n        this.t = t;\n    \x7d;\n"

/-- A static method and an accessor are not called in a frame. -/
theorem ofSource_animates_skySource :
    Text.allBlank skySource = false ∧
      ∃ r declarations background, ofSource ⟨.inert, true⟩ skySource = .ok r ∧
        (Page.scriptParts r.descriptor true).flatten = r.artifacts.scriptText ∧
        Page.scriptParts r.descriptor true = declarations ++
          [(Page.loopLines "Sky" background ["        animation.update(time);"]).flatMap
            (· ++ ['\n']) ++ "\x7d);\n"] ∧
        Page.Animates r.descriptor declarations "Sky" background
          ["        animation.update(time);"] ∧
        skyUpdate ∈ declarations := by
  have hchecks : (ofSource ⟨.inert, true⟩ skySource).toOption.all (fun r =>
      let declarations := (Page.scriptParts r.descriptor true).dropLast
      r.descriptor.primaryOwner? == some ("Sky" : Text) && (declarations.contains skyUpdate &&
        (declarations.any ((Page.prototypeLead "Sky" "update").isPrefixOf ·) &&
          declarations.all (!(Page.prototypeLead "Sky" "draw").isPrefixOf ·)))) = true := by
    decide +kernel
  have hblank : Text.allBlank skySource = false := by decide
  obtain ⟨r, declarations, primary, background, calls, hr, hscript, hparts, hanimates⟩ :=
    ofSource_animates ⟨.inert, true⟩ hblank
  rw [hr] at hchecks
  simp only [Except.toOption, Option.all_some, hparts, List.dropLast_concat, Bool.and_eq_true,
    beq_iff_eq, List.contains_iff_mem, List.any_eq_true, List.all_eq_true, Bool.not_eq_true',
    List.isPrefixOf_iff_prefix] at hchecks
  obtain ⟨hprimary, hmem, hupdate, hdraw⟩ := hchecks
  obtain rfl : primary = "Sky" := hanimates.chosen.unique (Page.isPrimary_of_primaryOwner? hprimary)
  have hcalls : calls = [Page.frameUpdate] := by
    have hupdate := hanimates.update.mpr hupdate
    have hdraw : Page.frameDraw ∉ calls := fun hcall => by
      obtain ⟨t, ht, hlead⟩ := hanimates.draw.mp hcall
      rw [← List.isPrefixOf_iff_prefix, hdraw t ht] at hlead
      cases hlead
    have hne : Page.frameUpdate ≠ Page.frameDraw := by decide
    have hcalled := hanimates.called
    rw [List.sublist_cons_iff] at hcalled
    rcases hcalled with hrest | ⟨rest, rfl, hrest⟩
    · exact absurd (List.mem_singleton.mp (hrest.subset hupdate)) hne
    · have hnil : rest = [] := by
        refine List.eq_nil_iff_forall_not_mem.mpr fun l hl => hdraw ?_
        rw [← List.mem_singleton.mp (hrest.subset hl)]
        exact List.mem_cons_of_mem _ hl
      rw [hnil]
  exact ⟨hblank, r, declarations, background, hr, hscript, hcalls ▸ hparts, hcalls ▸ hanimates,
    hmem⟩

end Conversion

end CanvasPage
