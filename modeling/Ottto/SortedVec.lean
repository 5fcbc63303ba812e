-- Vectors of entries in key order: binary search, and what a replacement, an
-- insertion and a removal at the place that it finds are. Nothing here is
-- about one program.
import Ottto.SortedMap

namespace SortedVec

open List Option SortedMap

variable {α β : Type} [LinearOrder α]

/-- The entries are in key order, each key once. -/
def Sorted (l : List (α × β)) : Prop := l.Pairwise (fun a b => a.1 < b.1)

/-- `windows(2)` finds no entry that is not before the next one. -/
def windows_ordered (l : List (α × β)) : Bool :=
  (l.zip l.tail).all (fun w => decide (w.1.1 < w.2.1))

/-- Where the key stands, or would stand. -/
def place (k : α) : List (α × β) → Nat
  | [] => 0
  | e :: l => if e.1 < k then place k l + 1 else 0

/-- `binary_search_by_key` on a sorted slice: where the key stands, or where to
insert it. -/
def binary_search (l : List (α × β)) (k : α) : Except Nat (Fin l.length) :=
  if h : place k l < l.length then
    if (l.get ⟨place k l, h⟩).1 = k then .ok ⟨place k l, h⟩ else .error (place k l)
  else .error (place k l)

/-! ## The laws -/

theorem windows_ordered_iff (l : List (α × β)) : windows_ordered l = true ↔ Sorted l := by
  unfold windows_ordered Sorted
  induction l with
  | nil => simp
  | cons a l ih =>
    cases l with
    | nil => simp
    | cons b l =>
      simp only [tail_cons, zip_cons_cons, all_cons, Bool.and_eq_true,
        decide_eq_true_eq] at ih ⊢
      rw [ih]
      constructor
      · rintro ⟨hab, hsorted⟩
        refine pairwise_cons.mpr ⟨fun e he => ?_, hsorted⟩
        rcases mem_cons.mp he with rfl | he
        · exact hab
        · exact lt_trans hab ((pairwise_cons.mp hsorted).1 e he)
      · intro hsorted
        obtain ⟨hhead, htail⟩ := pairwise_cons.mp hsorted
        exact ⟨hhead b mem_cons_self, htail⟩

variable {k : α} {l : List (α × β)}

/-- The key stands at its place, or nowhere. -/
theorem lookup_at_place (hs : Sorted l) :
    SortedMap.lookupEntry k l =
      (l[place k l]?).bind (fun e => if e.1 = k then some e.2 else none) := by
  induction l with
  | nil => rfl
  | cons e l ih =>
    obtain ⟨hhead, htail⟩ := pairwise_cons.mp hs
    obtain ⟨k', v⟩ := e
    simp only [place, SortedMap.lookupEntry]
    by_cases hlt : k' < k
    · rw [if_pos hlt, if_neg (ne_of_gt hlt), ih htail, getElem?_cons_succ]
    · rw [if_neg hlt]
      by_cases heq : k = k'
      · subst heq
        simp
      · rw [if_neg heq]
        have hnone : SortedMap.lookupEntry k l = none := by
          apply lookupEntry_eq_none_of_lt
          intro e he
          have hbefore : k < k' := lt_of_le_of_ne (not_lt.mp hlt) heq
          exact lt_trans hbefore (hhead e he)
        rw [hnone]
        simp [Ne.symm heq]

theorem set_at_place (v : β) (h : ∃ w, l[place k l]? = some (k, w)) :
    l.set (place k l) (k, v) = SortedMap.insertEntry k v l := by
  induction l with
  | nil => simp at h
  | cons e l ih =>
    obtain ⟨k', v'⟩ := e
    simp only [place] at h ⊢
    by_cases hlt : k' < k
    · rw [if_pos hlt] at h ⊢
      rw [getElem?_cons_succ] at h
      rw [set_cons_succ, ih h, SortedMap.insertEntry, if_neg (not_lt.mpr hlt.le),
        if_neg (ne_of_gt hlt)]
    · rw [if_neg hlt] at h ⊢
      obtain ⟨w, hw⟩ := h
      have hkey : k' = k := by simpa using congrArg (Option.map Prod.fst) hw
      subst hkey
      rw [set_cons_zero, SortedMap.insertEntry, if_neg (lt_irrefl _), if_pos rfl]

theorem insert_at_place (v : β) (h : ∀ w, l[place k l]? ≠ some (k, w)) :
    l.insertIdx (place k l) (k, v) = SortedMap.insertEntry k v l := by
  induction l with
  | nil => rfl
  | cons e l ih =>
    obtain ⟨k', v'⟩ := e
    simp only [place] at h ⊢
    by_cases hlt : k' < k
    · rw [if_pos hlt] at h ⊢
      simp only [getElem?_cons_succ] at h
      rw [insertIdx_succ_cons, ih h, SortedMap.insertEntry, if_neg (not_lt.mpr hlt.le),
        if_neg (ne_of_gt hlt)]
    · rw [if_neg hlt] at h ⊢
      have hne : k ≠ k' := fun heq => h v' (by simp [heq])
      rw [insertIdx_zero, SortedMap.insertEntry,
        if_pos (lt_of_le_of_ne (not_lt.mp hlt) hne)]

theorem erase_at_place (hs : Sorted l) (h : ∃ w, l[place k l]? = some (k, w)) :
    l.eraseIdx (place k l) = SortedMap.eraseEntry k l := by
  induction l with
  | nil => simp at h
  | cons e l ih =>
    obtain ⟨hhead, htail⟩ := pairwise_cons.mp hs
    obtain ⟨k', v'⟩ := e
    simp only [place] at h ⊢
    unfold SortedMap.eraseEntry at ih ⊢
    by_cases hlt : k' < k
    · rw [if_pos hlt] at h ⊢
      rw [getElem?_cons_succ] at h
      rw [eraseIdx_cons_succ, ih htail h, filter_cons_of_pos]
      simp [ne_of_lt hlt]
    · rw [if_neg hlt] at h ⊢
      obtain ⟨w, hw⟩ := h
      have hkey : k' = k := by simpa using congrArg (Option.map Prod.fst) hw
      subst hkey
      rw [eraseIdx_cons_zero, filter_cons_of_neg (by simp), filter_eq_self.mpr]
      intro e he
      simpa using (ne_of_gt (hhead e he))

/-- What a binary search of a sorted vector finds. -/
inductive Search (l : List (α × β)) (k : α) : Except Nat (Fin l.length) → Prop where
  | found (i : Fin l.length) (v : β) (entry : l.get i = (k, v))
      (lookup : SortedMap.lookupEntry k l = some v)
      (set : ∀ w, l.set i (k, w) = SortedMap.insertEntry k w l)
      (erase : l.eraseIdx i = SortedMap.eraseEntry k l) : Search l k (.ok i)
  | absent (i : Nat) (lookup : SortedMap.lookupEntry k l = none)
      (insert : ∀ v, l.insertIdx i (k, v) = SortedMap.insertEntry k v l) : Search l k (.error i)

theorem binary_search_spec (hs : Sorted l) (k : α) :
    Search l k (binary_search l k) := by
  have hlookup := lookup_at_place (k := k) hs
  unfold binary_search
  split_ifs with hlt hkey
  · have hget : l[place k l]? = some (k, l[place k l].2) := by
      rw [getElem?_eq_getElem hlt]
      exact congrArg some (Prod.ext hkey rfl)
    rw [hget, bind_some, if_pos rfl] at hlookup
    refine .found ⟨place k l, hlt⟩ l[place k l].2 ?_ hlookup
      (fun w => set_at_place w ⟨_, hget⟩) (erase_at_place hs ⟨_, hget⟩)
    exact Prod.ext hkey rfl
  · have hget : l[place k l]? = some l[place k l] := getElem?_eq_getElem hlt
    have hkey : l[place k l].1 ≠ k := hkey
    rw [hget, bind_some, if_neg hkey] at hlookup
    refine .absent _ hlookup (fun v => insert_at_place v (fun w hw => hkey ?_))
    rw [hget] at hw
    exact congrArg Prod.fst (Option.some.inj hw)
  · have hget : l[place k l]? = none := getElem?_eq_none (not_lt.mp hlt)
    rw [hget] at hlookup
    exact .absent _ hlookup (fun v => insert_at_place v (by simp [hget]))

theorem Sorted.insertEntry (hs : Sorted l) (k : α) (v : β) :
    Sorted (SortedMap.insertEntry k v l) := insertEntry_sorted k v hs

theorem Sorted.eraseEntry (hs : Sorted l) (k : α) :
    Sorted (SortedMap.eraseEntry k l) := .filter _ hs

/-- An entry of a sorted vector is what its key finds. -/
theorem Sorted.lookup_iff (hs : Sorted l) {v : β} :
    SortedMap.lookupEntry k l = some v ↔ (k, v) ∈ l :=
  (mem_iff_lookupEntry hs).symm

/-- What a change of the values leaves under a key. -/
theorem lookup_map {γ : Type} (f : α × β → α × γ) (hkey : ∀ e, (f e).1 = e.1) (k : α)
    (l : List (α × β)) :
    SortedMap.lookupEntry k (l.map f) = (SortedMap.lookupEntry k l).map (fun v => (f (k, v)).2) := by
  induction l with
  | nil => rfl
  | cons e l ih =>
    obtain ⟨k', v⟩ := e
    have hfirst : f (k', v) = (k', (f (k', v)).2) := Prod.ext (hkey (k', v)) rfl
    rw [map_cons, hfirst, SortedMap.lookupEntry, SortedMap.lookupEntry]
    by_cases hk : k = k'
    · subst hk
      simp
    · rw [if_neg hk, if_neg hk, ih]

theorem Sorted.map {γ : Type} (hs : Sorted l) (f : α × β → α × γ)
    (hkey : ∀ e, (f e).1 = e.1) : Sorted (l.map f) := by
  refine pairwise_map.mpr (hs.imp fun {a b} hab => ?_)
  rw [hkey, hkey]
  exact hab

theorem Sorted.filter (hs : Sorted l) (p : α × β → Bool) :
    Sorted (l.filter p) := List.Pairwise.filter p hs

/-- What a filter leaves under a key. -/
theorem Sorted.lookup_filter (hs : Sorted l) (p : α × β → Bool) (k : α) :
    SortedMap.lookupEntry k (l.filter p) =
      (SortedMap.lookupEntry k l).filter (fun v => p (k, v)) := by
  ext v
  rw [(hs.filter p).lookup_iff, mem_filter, ← hs.lookup_iff, filter_eq_some_iff]

end SortedVec
