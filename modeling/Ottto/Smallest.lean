-- The smallest entries of a stream, kept in a window of a fixed width: what the window holds is the
-- front of the sorted stream. Nothing here is about one program.
import Mathlib.Data.List.Sort
import Mathlib.Data.List.MinMax
import Mathlib.Tactic

namespace Smallest

open List

variable {α κ : Type} [LinearOrder κ] (key : α → κ)

def sort (l : List α) : List α := l.insertionSort (fun a b => key a ≤ key b)

/-- One more entry: it is taken while there is room, and then for the largest entry. -/
def offer (width : Nat) (window : List α) (a : α) : List α :=
  if window.length < width then a :: window
  else
    match window.argmax key with
    | none => window
    | some top =>
      if key a < key top then a :: window.eraseP (fun b => decide (key b = key top)) else window

/-- The window holds the smallest entries of those seen. -/
structure Holds (width : Nat) (seen window : List α) : Prop where
  length : window.length = min width seen.length
  split : ∃ rest, (window ++ rest).Perm seen ∧ ∀ x ∈ window, ∀ y ∈ rest, key x ≤ key y

variable {key} {width : Nat} {seen window l : List α} {a : α}

theorem sort_perm (l : List α) : (sort key l).Perm l := perm_insertionSort _ l

scoped instance totalKey : Std.Total (fun a b : α => key a ≤ key b) := ⟨fun a b => le_total (key a) (key b)⟩

scoped instance transKey : IsTrans α (fun a b => key a ≤ key b) := ⟨fun _ _ _ hab hbc => le_trans hab hbc⟩

theorem pairwise_sort (l : List α) : (sort key l).Pairwise (fun a b => key a ≤ key b) :=
  pairwise_insertionSort _ l

/-- Entries with different keys have one order only. -/
theorem eq_sort (hkeys : (l.map key).Nodup) {m : List α} (hperm : m.Perm l)
    (hsorted : m.Pairwise (fun a b => key a ≤ key b)) : m = sort key l := by
  refine List.Perm.eq_of_pairwise ?_ hsorted (pairwise_sort l) (hperm.trans (sort_perm l).symm)
  intro a b ha hb hab hba
  exact inj_on_of_nodup_map hkeys (hperm.mem_iff.mp ha) ((sort_perm l).mem_iff.mp hb)
    (le_antisymm hab hba)

theorem holds_nil (width : Nat) : Holds key width ([] : List α) [] := by
  refine ⟨by simp, [], .refl _, by simp⟩

theorem perm_snoc {rest : List α} (h : (window ++ rest).Perm seen) :
    (a :: window ++ rest).Perm (seen ++ [a]) :=
  (h.cons a).trans (perm_append_singleton a seen).symm

/-- One more entry keeps the smallest. -/
theorem Holds.offer (h : Holds key width seen window) :
    Holds key width (seen ++ [a]) (offer key width window a) := by
  obtain ⟨hlength, rest, hperm, hle⟩ := h
  have hcount := hperm.length_eq
  rw [length_append] at hcount
  unfold Smallest.offer
  by_cases hroom : window.length < width
  · rw [if_pos hroom]
    have hrest : rest = [] := eq_nil_of_length_eq_zero (by omega)
    subst hrest
    refine ⟨?_, [], perm_snoc hperm, by simp⟩
    simp only [length_cons, length_append, length_nil]
    omega
  · rw [if_neg hroom]
    have hfull : window.length = min width (seen ++ [a]).length := by
      simp only [length_append, length_singleton]
      omega
    cases htop : window.argmax key with
    | none =>
      rw [argmax_eq_none] at htop
      subst htop
      refine ⟨hfull, seen ++ [a], by simp, by simp⟩
    | some top =>
      have htop_mem := argmax_mem htop
      have htop_max : ∀ x ∈ window, key x ≤ key top := fun x hx => le_of_mem_argmax hx htop
      dsimp only
      by_cases hlt : key a < key top
      · rw [if_pos hlt]
        obtain ⟨b, front, back, hfront, hb, hwindow, herase⟩ :=
          exists_of_eraseP (p := fun b => decide (key b = key top)) htop_mem
            (decide_eq_true rfl)
        have hb_key : key b = key top := of_decide_eq_true hb
        rw [herase]
        refine ⟨?_, b :: rest, ?_, ?_⟩
        · rw [← hfull, hwindow]
          simp only [length_cons, length_append]
          omega
        · rw [hwindow] at hperm
          have hback : (front ++ back ++ b :: rest).Perm (front ++ b :: back ++ rest) := by
            rw [append_assoc, append_assoc]
            exact .append_left front perm_middle
          exact perm_snoc (hback.trans hperm)
        · intro x hx y hy
          have hx_top : key x ≤ key top := by
            rcases mem_cons.mp hx with rfl | hx
            · exact hlt.le
            · apply htop_max x
              rw [hwindow]
              rcases mem_append.mp hx with hx | hx <;> simp [hx]
          rcases mem_cons.mp hy with rfl | hy
          · exact hx_top.trans hb_key.ge
          · exact hx_top.trans (hle top htop_mem y hy)
      · rw [if_neg hlt]
        refine ⟨hfull, rest ++ [a], ?_, ?_⟩
        · rw [← append_assoc]
          exact hperm.append_right [a]
        · intro x hx y hy
          rcases mem_append.mp hy with hy | hy
          · exact hle x hx y hy
          · rw [mem_singleton.mp hy]
            exact (htop_max x hx).trans (not_lt.mp hlt)

theorem Holds.run (h : Holds key width seen window) (l : List α) :
    Holds key width (seen ++ l) (l.foldl (Smallest.offer key width) window) := by
  induction l generalizing seen window with
  | nil => simpa using h
  | cons a l ih =>
    rw [append_cons]
    exact ih h.offer

/-- The window, put in order, is the front of what was seen. -/
theorem Holds.sort_eq (h : Holds key width seen window) (hkeys : (seen.map key).Nodup) :
    sort key window = (sort key seen).take width := by
  obtain ⟨hlength, rest, hperm, hle⟩ := h
  have hsorted : (sort key window ++ sort key rest).Pairwise (fun a b => key a ≤ key b) := by
    refine pairwise_append.mpr ⟨pairwise_sort _, pairwise_sort _, ?_⟩
    intro x hx y hy
    exact hle x ((sort_perm window).mem_iff.mp hx) y ((sort_perm rest).mem_iff.mp hy)
  have hall := eq_sort hkeys (((sort_perm window).append (sort_perm rest)).trans hperm) hsorted
  have hwindow := (@sort_perm _ _ _ key window).length_eq
  have hseen := (@sort_perm _ _ _ key seen).length_eq
  rw [← hall]
  rcases Nat.le_total width seen.length with hle_width | hle_width
  · rw [take_left' (by omega)]
  · have hrest : rest = [] := by
      have hcount := hperm.length_eq
      rw [length_append] at hcount
      exact eq_nil_of_length_eq_zero (by omega)
    subst hrest
    have hempty : sort key ([] : List α) = [] := rfl
    rw [hempty, append_nil, take_of_length_le (by omega)]

/-- The smallest entries of a stream. -/
theorem sort_offers (hkeys : (l.map key).Nodup) :
    sort key (l.foldl (Smallest.offer key width) []) = (sort key l).take width := by
  have hrun := (@holds_nil _ _ _ key width).run l
  rw [nil_append] at hrun
  exact hrun.sort_eq hkeys

/-- What is left after the smallest entries, up to one of them. -/
theorem sort_filter_lt {front back : List α} {top : α} (hkeys : (l.map key).Nodup)
    (hsplit : sort key l = front ++ top :: back) :
    sort key (l.filter (fun a => decide (key top < key a))) = back := by
  have hsorted := @pairwise_sort _ _ _ key l
  have hnodup : ((sort key l).map key).Nodup := ((sort_perm l).map key).nodup_iff.mpr hkeys
  rw [hsplit] at hsorted hnodup
  have hback : ∀ b ∈ back, key top < key b := by
    intro b hb
    have hle := (pairwise_cons.mp (pairwise_append.mp hsorted).2.1).1 b hb
    have hne : key top ≠ key b := by
      rw [map_append, map_cons] at hnodup
      intro heq
      have hcons := (nodup_append.mp hnodup).2.1
      exact (nodup_cons.mp hcons).1 (heq ▸ mem_map_of_mem hb)
    exact lt_of_le_of_ne hle hne
  have hfront : ∀ b ∈ front, ¬ key top < key b := by
    intro b hb
    exact not_lt.mpr ((pairwise_append.mp hsorted).2.2 b hb top mem_cons_self)
  have hfiltered : (sort key l).filter (fun a => decide (key top < key a)) = back := by
    rw [hsplit, filter_append, filter_cons_of_neg (by simp),
      filter_eq_nil_iff.mpr (by simpa using hfront),
      filter_eq_self.mpr (by simpa using hback)]
    rfl
  symm
  apply eq_sort
  · exact hkeys.sublist (filter_sublist.map key)
  · rw [← hfiltered]
    exact (sort_perm l).filter _
  · exact (pairwise_cons.mp (pairwise_append.mp hsorted).2.1).2

/-- The largest entry is the last one in order. -/
theorem map_argmax (l : List α) : (l.argmax key).map key = (sort key l).getLast?.map key := by
  cases htop : l.argmax key with
  | none =>
    rw [argmax_eq_none] at htop
    subst htop
    rfl
  | some top =>
    have htop_mem : top ∈ sort key l := (sort_perm l).mem_iff.mpr (argmax_mem htop)
    obtain ⟨last, hlast⟩ : ∃ last, (sort key l).getLast? = some last :=
      ⟨_, List.getLast?_eq_some_getLast (ne_nil_of_mem htop_mem)⟩
    have hlast_mem := (sort_perm l).mem_iff.mp (mem_of_getLast? hlast)
    have htop_last : key top ≤ key last := by
      obtain ⟨front, hfront⟩ := List.getLast?_eq_some_iff.mp hlast
      have hsorted := @pairwise_sort _ _ _ key l
      rw [hfront] at hsorted htop_mem
      rcases mem_append.mp htop_mem with hmem | hmem
      · exact (pairwise_append.mp hsorted).2.2 top hmem last (by simp)
      · rw [mem_singleton.mp hmem]
    rw [hlast]
    exact congrArg some (le_antisymm htop_last (le_of_mem_argmax hlast_mem htop))

end Smallest
