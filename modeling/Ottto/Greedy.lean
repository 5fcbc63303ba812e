-- Consecutive elements in groups: a group takes the next element while it fits, and a
-- new one is opened otherwise. Nothing here is about one program.
import Mathlib.Data.List.Basic
import Mathlib.Data.List.Perm.Basic
import Mathlib.Data.List.Sort

namespace greedy

open List

variable {α : Type}

/-- The groups of a list, with the open one first. -/
def groups_from (fits : List α → α → Bool) : List α → List α → List (List α)
  | opened, [] => if opened.isEmpty then [] else [opened]
  | opened, x :: xs =>
    if opened.isEmpty || fits opened x then groups_from fits (opened ++ [x]) xs
    else opened :: groups_from fits [x] xs

def groups (fits : List α → α → Bool) (xs : List α) : List (List α) := groups_from fits [] xs

variable {fits : List α → α → Bool}

theorem groups_from_flatten (opened xs : List α) :
    (groups_from fits opened xs).flatten = opened ++ xs := by
  induction xs generalizing opened with
  | nil =>
    rw [groups_from]
    split
    case isTrue h => rw [isEmpty_iff.mp h]; rfl
    case isFalse h => rw [flatten_cons, flatten_nil]
  | cons x xs ih =>
    rw [groups_from]
    split
    · rw [ih, append_assoc, singleton_append]
    · rw [flatten_cons, ih, singleton_append]

/-- No element is lost, and the order stands. -/
theorem groups_flatten (xs : List α) : (groups fits xs).flatten = xs := groups_from_flatten [] xs

/-- What the elements stand for comes in their order, group by group. -/
theorem groups_flatMap {β : Type} (f : α → List β) (xs : List α) :
    (groups fits xs).flatMap (fun group => group.flatMap f) = xs.flatMap f := by
  have hflat : ∀ gs : List (List α), gs.flatMap (fun group => group.flatMap f) =
      gs.flatten.flatMap f := by
    intro gs
    induction gs with
    | nil => rfl
    | cons g gs ih => rw [flatMap_cons, ih, flatten_cons, flatMap_append]
  rw [hflat, groups_flatten]

theorem groups_from_all {P : List α → Prop} {xs : List α} (hone : ∀ x ∈ xs, P [x])
    (hfits : ∀ opened, ∀ x ∈ xs, opened ≠ [] → P opened → fits opened x = true → P (opened ++ [x]))
    {opened : List α} (hopened : opened ≠ [] → P opened) :
    ∀ group ∈ groups_from fits opened xs, group ≠ [] ∧ P group := by
  induction xs generalizing opened with
  | nil =>
    intro group hgroup
    rw [groups_from] at hgroup
    split at hgroup
    case isTrue => cases hgroup
    case isFalse h =>
      have hne : opened ≠ [] := fun he => h (by rw [he]; rfl)
      rw [mem_singleton.mp hgroup]
      exact ⟨hne, hopened hne⟩
  | cons x xs ih =>
    have hrest := @ih (fun y hy => hone y (mem_cons_of_mem _ hy))
      (fun g y hy => hfits g y (mem_cons_of_mem _ hy))
    rw [groups_from]
    split
    case isTrue h =>
      refine hrest (fun _ => ?_)
      by_cases hne : opened = []
      · rw [hne, nil_append]
        exact hone x mem_cons_self
      · rcases Bool.or_eq_true_iff.mp h with he | hfit
        · exact absurd (isEmpty_iff.mp he) hne
        · exact hfits opened x mem_cons_self hne (hopened hne) hfit
    case isFalse h =>
      have hne : opened ≠ [] := fun he => h (by rw [he]; rfl)
      intro group hgroup
      rcases mem_cons.mp hgroup with rfl | hgroup
      · exact ⟨hne, hopened hne⟩
      · exact hrest (fun _ => hone x mem_cons_self) group hgroup

/-- What holds of one element, and stays true while the next fits, holds of each group. -/
theorem groups_all {P : List α → Prop} {xs : List α} (hone : ∀ x ∈ xs, P [x])
    (hfits : ∀ opened, ∀ x ∈ xs, opened ≠ [] → P opened → fits opened x = true →
      P (opened ++ [x])) : ∀ group ∈ groups fits xs, group ≠ [] ∧ P group :=
  groups_from_all hone hfits (fun h => absurd rfl h)

/-! ## A stable sort -/

/-- A stable sort leaves the elements of one key in their order. -/
theorem mergeSort_filter_mem {le : α → α → Bool}
    (htrans : ∀ a b c, le a b = true → le b c = true → le a c = true)
    (htotal : ∀ a b, (le a b || le b a) = true) (xs : List α) (p : α → Bool)
    (hkey : ∀ a ∈ xs, ∀ b ∈ xs, p a = true → p b = true → le a b = true) :
    (xs.mergeSort le).filter p = xs.filter p := by
  have hpairs : (xs.filter p).Pairwise (fun a b => le a b = true) := by
    apply pairwise_of_forall_mem_list
    intro a ha b hb
    obtain ⟨ha, hpa⟩ := mem_filter.mp ha
    obtain ⟨hb, hpb⟩ := mem_filter.mp hb
    exact hkey a ha b hb hpa hpb
  have hsub := (sublist_mergeSort htrans htotal hpairs filter_sublist).filter p
  rw [filter_filter, show (fun a => p a && p a) = p from funext (fun a => Bool.and_self _)] at hsub
  have hlength : ((xs.mergeSort le).filter p).length = (xs.filter p).length :=
    ((mergeSort_perm xs le).filter p).length_eq
  exact (hsub.eq_of_length hlength.symm).symm

end greedy
