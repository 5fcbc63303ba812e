-- A vector sorted and freed of doubles, as `sort_unstable` with `dedup_by_key`
-- leaves it, and the ascending list of a set. Nothing here is about one program.
import Mathlib.Data.List.Destutter
import Mathlib.Tactic

namespace SortDedup

open List

variable {α κ : Type} [LinearOrder α] [LinearOrder κ] {key : α → κ} {l : List α}

/-- Ascending, each key once. -/
def SortedBy (key : α → κ) (l : List α) : Prop := l.Pairwise (fun a b => key a < key b)

/-- Of the elements that share a key, the first in the order stays. -/
def sort_dedup_by (key : α → κ) (l : List α) : List α :=
  (l.insertionSort (· ≤ ·)).destutter (fun a b => key a ≠ key b)

def sort_dedup (l : List α) : List α := sort_dedup_by id l

theorem sort_dedup_by_sublist : (sort_dedup_by key l).Sublist (l.insertionSort (· ≤ ·)) :=
  destutter_sublist _ _

theorem mem_of_mem_sort_dedup_by {a : α} (h : a ∈ sort_dedup_by key l) : a ∈ l :=
  (mem_insertionSort _).mp (sort_dedup_by_sublist.subset h)

theorem sort_dedup_by_sorted (hkey : Monotone key) : SortedBy key (sort_dedup_by key l) := by
  have hle : (sort_dedup_by key l).IsChain (fun a b => a ≤ b) :=
    ((pairwise_insertionSort (· ≤ ·) l).sublist sort_dedup_by_sublist).isChain
  have hne : (sort_dedup_by key l).IsChain (fun a b => key a ≠ key b) := isChain_destutter _ _
  have hlt : (sort_dedup_by key l).IsChain (fun a b => key a < key b) :=
    isChain_iff_getElem.mpr (fun i hi => lt_of_le_of_ne
      (hkey (isChain_iff_getElem.mp hle i hi)) (isChain_iff_getElem.mp hne i hi))
  have : IsTrans α (fun a b => key a < key b) := ⟨fun _ _ _ => lt_trans⟩
  exact isChain_iff_pairwise.mp hlt

omit [LinearOrder α] in
/-- Every element leaves one of its key behind. -/
theorem exists_key_destutter' (l : List α) (a : α) {x : α} (hx : x ∈ a :: l) :
    ∃ y ∈ l.destutter' (fun a b => key a ≠ key b) a, key y = key x := by
  induction l generalizing a x with
  | nil =>
    obtain rfl := mem_singleton.mp hx
    exact ⟨x, mem_singleton_self x, rfl⟩
  | cons b l ih =>
    by_cases hkeys : key a = key b
    · rw [List.destutter'_cons_neg l (not_not.mpr hkeys)]
      rcases mem_cons.mp hx with rfl | hx
      · exact ih x mem_cons_self
      · rcases mem_cons.mp hx with rfl | hx
        · obtain ⟨y, hy, hya⟩ := ih a mem_cons_self
          exact ⟨y, hy, hya.trans hkeys⟩
        · exact ih a (mem_cons_of_mem a hx)
    · rw [List.destutter'_cons_pos l hkeys]
      rcases mem_cons.mp hx with rfl | hx
      · exact ⟨x, mem_cons_self, rfl⟩
      · obtain ⟨y, hy, hyx⟩ := ih b hx
        exact ⟨y, mem_cons_of_mem a hy, hyx⟩

theorem exists_key_sort_dedup_by {x : α} (hx : x ∈ l) : ∃ y ∈ sort_dedup_by key l, key y = key x := by
  have hsorted := (mem_insertionSort (· ≤ ·)).mpr hx
  unfold sort_dedup_by
  cases h : l.insertionSort (· ≤ ·) with
  | nil =>
    rw [h] at hsorted
    cases hsorted
  | cons a rest =>
    rw [h] at hsorted
    exact exists_key_destutter' rest a hsorted

theorem mem_sort_dedup {a : α} : a ∈ sort_dedup l ↔ a ∈ l := by
  refine ⟨mem_of_mem_sort_dedup_by, fun h => ?_⟩
  obtain ⟨b, hb, hba⟩ := @exists_key_sort_dedup_by α α _ _ id l a h
  exact (show b = a from hba) ▸ hb

theorem sort_dedup_sorted : SortedBy id (sort_dedup l) := sort_dedup_by_sorted monotone_id

end SortDedup
