import CanvasPage.Descriptor.Basic
import CanvasPage.Descriptor.Fallback
import CanvasPage.Procedure.OfClass
import Mathlib.Data.List.Basic

namespace CanvasPage

section Distinct

variable {α : Type} [BEq α] [LawfulBEq α]

theorem eraseDups_filter (p : α → Bool) (as : List α) :
    (as.filter p).eraseDups = as.eraseDups.filter p := by
  match as with
  | [] => rfl
  | a :: as =>
    have ih := eraseDups_filter p (as.filter fun b => !b == a)
    rw [List.filter_filter] at ih
    cases hp : p a with
    | true =>
      rw [List.filter_cons_of_pos hp, List.eraseDups_cons, List.eraseDups_cons,
        List.filter_cons_of_pos hp, ← ih, List.filter_filter]
      simp only [Bool.and_comm]
    | false =>
      have hne : ∀ b ∈ as, (p b && !b == a) = p b := by
        intro b _
        cases hb : b == a with
        | true => simp [eq_of_beq hb, hp]
        | false => simp
      rw [List.filter_cons_of_neg (by simp [hp]), List.eraseDups_cons,
        List.filter_cons_of_neg (by simp [hp]), ← ih, List.filter_congr hne]
termination_by as.length
decreasing_by exact Nat.lt_succ_of_le (List.length_filter_le _ _)

theorem nodup_eraseDups (as : List α) : as.eraseDups.Nodup := by
  match as with
  | [] => exact List.nodup_nil
  | a :: as =>
    rw [List.eraseDups_cons, List.nodup_cons]
    exact ⟨by simp, nodup_eraseDups (as.filter fun b => !b == a)⟩
termination_by as.length
decreasing_by exact Nat.lt_succ_of_le (List.length_filter_le _ _)

end Distinct

namespace Descriptor

variable {owner : Text} {ps : List Procedure}

theorem ownersOf_eq_eraseDups (ps : List Procedure) :
    ownersOf ps = (ps.map (·.owner)).eraseDups := by
  induction ps with
  | nil => rfl
  | cons p ps ih =>
    rw [ownersOf, ih, List.map_cons, List.eraseDups_cons, eraseDups_filter]
    rfl

theorem mem_ownersOf : owner ∈ ownersOf ps ↔ ∃ p ∈ ps, p.owner = owner := by
  rw [ownersOf_eq_eraseDups, List.mem_eraseDups, List.mem_map]

end Descriptor

def AreLed (ps : List Procedure) : Prop :=
  ∀ p ∈ ps, (ps.find? (·.owner == p.owner)).any (·.isInitializer) = true

namespace AreLed

variable {p : Procedure} {ps qs : List Procedure}

theorem nil : AreLed [] := by
  intro p hp
  cases hp

theorem of_owner (hp : p.isInitializer = true) (hps : ∀ q ∈ ps, q.owner = p.owner) :
    AreLed (p :: ps) := by
  intro q hq
  have howner : (p.owner == q.owner) = true := by
    rcases List.mem_cons.mp hq with rfl | hq
    · exact beq_self_eq_true _
    · rw [hps q hq]
      exact beq_self_eq_true _
  rw [List.find?_cons, howner]
  exact hp

theorem append (hps : AreLed ps) (hqs : AreLed qs) : AreLed (ps ++ qs) := by
  intro q hq
  rw [List.find?_append]
  cases hfind : ps.find? (·.owner == q.owner) with
  | some p =>
    have howner : p.owner = q.owner := by simpa using List.find?_some hfind
    have hled := hps p (List.mem_of_find?_eq_some hfind)
    rwa [howner, hfind] at hled
  | none =>
    rcases List.mem_append.mp hq with hq | hq
    · exact absurd (List.find?_eq_none.mp hfind q hq) (by simp)
    · exact hqs q hq

end AreLed

theorem Property.owner_of_procedure? {p : Property} {owner : Text} {procedure : Procedure}
    (h : p.procedure? owner = some procedure) : procedure.owner = owner := by
  simp only [procedure?, Option.bind_eq_bind, Option.bind_eq_some_iff] at h
  obtain ⟨header, -, block, -, hvalue⟩ := h
  rw [← Option.some.inj hvalue]

namespace ClassBlock

theorem insertByStart_perm (x : Nat × Procedure) (xs : List (Nat × Procedure)) :
    (insertByStart x xs).Perm (x :: xs) := by
  fun_induction insertByStart x xs with
  | case1 => exact .refl _
  | case2 y ys hle => exact .refl _
  | case3 y ys hlt ih => exact (ih.cons y).trans (.swap x y ys)

theorem sortByStart_perm (xs : List (Nat × Procedure)) : (sortByStart xs).Perm xs := by
  induction xs with
  | nil => exact .refl _
  | cons x xs ih => exact (insertByStart_perm x (sortByStart xs)).trans (ih.cons x)

theorem owner_of_mem_memberProcedures (c : ClassBlock) :
    ∀ x ∈ c.memberProcedures, x.2.owner = c.name := by
  intro x hx
  rcases List.mem_append.mp hx with hx | hx
  · rcases List.mem_append.mp hx with hx | hx
    · obtain ⟨m, -, rfl⟩ := List.mem_map.mp hx
      rfl
    · obtain ⟨p, -, hp⟩ := List.mem_filterMap.mp hx
      obtain ⟨procedure, hprocedure, rfl⟩ := Option.map_eq_some_iff.mp hp
      exact Property.owner_of_procedure? hprocedure
  · obtain ⟨p, -, rfl⟩ := List.mem_map.mp hx
    rfl

theorem initializerProcedure_spec (c : ClassBlock) :
    c.initializerProcedure.isInitializer = true ∧ c.initializerProcedure.owner = c.name := by
  rw [initializerProcedure]
  split
  · exact ⟨rfl, rfl⟩
  · exact ⟨rfl, rfl⟩

theorem areLed_procedures (c : ClassBlock) : AreLed c.procedures := by
  obtain ⟨hkind, howner⟩ := c.initializerProcedure_spec
  apply AreLed.of_owner hkind
  intro q hq
  obtain ⟨x, hx, rfl⟩ := List.mem_map.mp hq
  rw [c.owner_of_mem_memberProcedures x ((sortByStart_perm _).subset hx), howner]

theorem areLed_flatMap_procedures (cs : List ClassBlock) : AreLed (cs.flatMap procedures) := by
  induction cs with
  | nil => exact AreLed.nil
  | cons c cs ih => exact c.areLed_procedures.append ih

theorem flatMap_procedures_eq_nil {cs : List ClassBlock} :
    cs.flatMap procedures = [] ↔ cs = [] := by
  cases cs with
  | nil => simp
  | cons c cs => simp [procedures]

end ClassBlock

namespace Fallback

theorem areLed_procedures (owner : Text) (f : Fallback) : AreLed (f.procedures owner) := by
  cases f with
  | inert =>
    apply AreLed.of_owner rfl
    intro q hq
    rcases List.mem_cons.mp hq with rfl | hq
    · rfl
    · rw [List.mem_singleton.mp hq]
      rfl
  | synthesized =>
    apply AreLed.of_owner rfl
    intro q hq
    rcases List.mem_cons.mp hq with rfl | hq
    · rfl
    · rcases List.mem_cons.mp hq with rfl | hq
      · rfl
      · rw [List.mem_singleton.mp hq]
        rfl

theorem procedures_ne_nil (owner : Text) (f : Fallback) : f.procedures owner ≠ [] := by
  cases f <;> exact List.cons_ne_nil _ _

end Fallback

end CanvasPage
