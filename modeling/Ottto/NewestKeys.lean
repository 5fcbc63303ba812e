-- The entries with the largest keys of a stream, each the first of its key, kept in a map of bounded
-- size: what the map holds is what sorting the whole stream would leave. Nothing here is about one
-- program.
import Mathlib.Data.List.Destutter
import Ottto.SortedMap

namespace NewestKeys

open SortedMap List Option

variable {κ β : Type} [LinearOrder κ]

/-! ## Sorting it all -/

/-- Sorted by key, the order kept among equal keys. -/
def sorted (l : List (κ × β)) : List (κ × β) := l.insertionSort (fun a b => a.1 ≤ b.1)

/-- Of neighbours with one key, the first. -/
def dedup (l : List (κ × β)) : List (κ × β) := l.destutter (fun a b => a.1 ≠ b.1)

/-- The first entry of each key. -/
def firsts (l : List (κ × β)) : SortedMap κ β := l.foldl (fun m e => m.orInsert e.1 e.2) .empty

variable {l : List (κ × β)} {k : κ} {v : β}

theorem pairwise_sorted (l : List (κ × β)) : (sorted l).Pairwise (fun a b => a.1 ≤ b.1) := by
  have : Std.Total (fun a b : κ × β => a.1 ≤ b.1) := ⟨fun a b => le_total a.1 b.1⟩
  have : IsTrans (κ × β) (fun a b => a.1 ≤ b.1) := ⟨fun _ _ _ hab hbc => le_trans hab hbc⟩
  exact pairwise_insertionSort _ l

theorem pairwise_dedup (h : l.Pairwise (fun a b => a.1 ≤ b.1)) :
    (dedup l).Pairwise (fun a b => a.1 < b.1) := by
  have hle : (dedup l).IsChain (fun a b => a.1 ≤ b.1) :=
    (h.sublist (destutter_sublist _ _)).isChain
  have hne : (dedup l).IsChain (fun a b => a.1 ≠ b.1) := isChain_destutter _ _
  have hlt : (dedup l).IsChain (fun a b => a.1 < b.1) :=
    isChain_iff_getElem.mpr (fun i hi => lt_of_le_of_ne
      (isChain_iff_getElem.mp hle i hi) (isChain_iff_getElem.mp hne i hi))
  have : IsTrans (κ × β) (fun a b => a.1 < b.1) := ⟨fun _ _ _ => lt_trans⟩
  exact isChain_iff_pairwise.mp hlt

/-- An entry goes before those of its key. -/
theorem lookup_orderedInsert (e : κ × β) (l : List (κ × β)) (k : κ) :
    lookupEntry k (l.orderedInsert (fun a b => a.1 ≤ b.1) e) = lookupEntry k (e :: l) := by
  induction l with
  | nil => rfl
  | cons a l ih =>
    rw [orderedInsert_cons]
    split_ifs with hle
    · rfl
    · have hne : e.1 ≠ a.1 := fun heq => hle heq.le
      simp only [lookupEntry] at ih ⊢
      rw [ih]
      by_cases hk : k = e.1
      · rw [if_pos hk, if_pos hk, if_neg (fun heq => hne (hk.symm.trans heq))]
      · rw [if_neg hk, if_neg hk]

theorem lookup_sorted (l : List (κ × β)) (k : κ) : lookupEntry k (sorted l) = lookupEntry k l := by
  induction l with
  | nil => rfl
  | cons e l ih =>
    unfold sorted at ih ⊢
    rw [insertionSort_cons, lookup_orderedInsert]
    simp only [lookupEntry, ih]

theorem lookup_destutter' (l : List (κ × β)) (e : κ × β) (k : κ) :
    lookupEntry k (l.destutter' (fun a b => a.1 ≠ b.1) e) = lookupEntry k (e :: l) := by
  induction l generalizing e with
  | nil => rfl
  | cons a l ih =>
    by_cases hne : e.1 ≠ a.1
    · rw [List.destutter'_cons_pos l hne]
      simp only [lookupEntry, ih]
    · rw [List.destutter'_cons_neg l hne, ih]
      have heq : e.1 = a.1 := not_not.mp hne
      simp only [lookupEntry]
      by_cases hk : k = e.1
      · rw [if_pos hk, if_pos hk]
      · rw [if_neg hk, if_neg hk, if_neg (fun hka => hk (hka.trans heq.symm))]

theorem lookup_dedup (l : List (κ × β)) (k : κ) : lookupEntry k (dedup l) = lookupEntry k l := by
  cases l with
  | nil => rfl
  | cons e l => exact lookup_destutter' l e k

theorem firsts_get? (l : List (κ × β)) (k : κ) : (firsts l).get? k = lookupEntry k l := by
  have hall := get?_foldl_orInsert (fun _ => true) l (.empty : SortedMap κ β) k
  simpa [firsts] using hall

/-- Sorting, and then dropping later doubles, leaves the first of each key. -/
theorem dedup_sorted (l : List (κ × β)) : dedup (sorted l) = (firsts l).entries := by
  apply eq_of_lookupEntry_eq (pairwise_dedup (pairwise_sorted l)) (firsts l).sorted
  intro k
  rw [lookup_dedup, lookup_sorted]
  exact (firsts_get? l k).symm

/-! ## A map of bounded size -/

/-- The map without its first entries. -/
def drop (n : Nat) (m : SortedMap κ β) : SortedMap κ β :=
  ⟨m.entries.drop n, m.sorted.sublist (drop_sublist n m.entries)⟩

/-- The entries with the largest keys. -/
def newest (width : Nat) (m : SortedMap κ β) : SortedMap κ β := drop (m.size - width) m

@[simp] theorem entries_drop (n : Nat) (m : SortedMap κ β) : (drop n m).entries = m.entries.drop n :=
  rfl

theorem entries_newest (width : Nat) (m : SortedMap κ β) :
    (newest width m).entries = m.entries.drop (m.entries.length - width) := rfl

theorem entries_insert (m : SortedMap κ β) (k : κ) (v : β) :
    (m.insert k v).entries = insertEntry k v m.entries := rfl

/-- A key that the map does not hold, and that is not below all of a full one. -/
def admits (width : Nat) (m : SortedMap κ β) (k : κ) : Bool :=
  !m.contains k &&
    !(decide (m.size = width) && m.entries.head?.all (fun e => decide (k < e.1)))

/-- One more entry: the first of its key, and then in the place of the smallest. -/
def note (width : Nat) (m : SortedMap κ β) (k : κ) (v : β) : SortedMap κ β :=
  if admits width m k then (if m.size = width then drop 1 m else m).insert k v else m

variable {front back : List (κ × β)} {width : Nat} {m : SortedMap κ β}

theorem note_eq (width : Nat) (m : SortedMap κ β) (k : κ) (v : β) :
    note width m k v =
      if m.contains k then m
      else if m.size = width then
        if m.entries.head?.all (fun e => decide (k < e.1)) then m else (drop 1 m).insert k v
      else m.insert k v := by
  unfold note admits
  cases m.contains k <;> by_cases hfull : m.size = width <;>
    cases m.entries.head?.all (fun e => decide (k < e.1)) <;> simp [hfull]

theorem insertEntry_front (h : ∀ e ∈ back, k < e.1) :
    insertEntry k v (front ++ back) = insertEntry k v front ++ back := by
  induction front with
  | nil =>
    cases back with
    | nil => rfl
    | cons e back => simp [insertEntry, h e mem_cons_self]
  | cons e front ih =>
    simp only [cons_append, insertEntry, ih]
    split_ifs <;> rfl

theorem insertEntry_back (h : ∀ e ∈ front, e.1 < k) :
    insertEntry k v (front ++ back) = front ++ insertEntry k v back := by
  induction front with
  | nil => rfl
  | cons e front ih =>
    have he := h e mem_cons_self
    simp only [cons_append, insertEntry, if_neg (lt_asymm he), if_neg he.ne',
      ih (fun e he => h e (mem_cons_of_mem _ he))]

theorem length_insertEntry (h : lookupEntry k l = none) :
    (insertEntry k v l).length = l.length + 1 := by
  induction l with
  | nil => rfl
  | cons e l ih =>
    have hne : ¬ k = e.1 := by
      intro heq
      simp [lookupEntry, heq] at h
    have hrest : lookupEntry k l = none := by simpa [lookupEntry, hne] using h
    simp only [insertEntry, if_neg hne]
    split_ifs
    · rfl
    · rw [length_cons, ih hrest, length_cons]

theorem lookup_append (hfront : lookupEntry k front = none) :
    lookupEntry k (front ++ back) = lookupEntry k back := by
  induction front with
  | nil => rfl
  | cons e front ih =>
    have hne : ¬ k = e.1 := by
      intro heq
      simp [lookupEntry, heq] at hfront
    have hrest : lookupEntry k front = none := by simpa [lookupEntry, hne] using hfront
    simp only [cons_append, lookupEntry, if_neg hne, ih hrest]

theorem drop_insert_below (hbelow : ∀ e ∈ back, k < e.1) (hnone : lookupEntry k front = none) :
    (insertEntry k v (front ++ back)).drop (front.length + 1) = back := by
  rw [insertEntry_front hbelow, drop_left' (length_insertEntry hnone)]

theorem drop_insert_above {b : κ × β} (hfront : ∀ e ∈ front, e.1 < b.1) (hb : b.1 < k) :
    (insertEntry k v (front ++ b :: back)).drop (front.length + 1) = insertEntry k v back := by
  rw [insertEntry_back (fun e he => (hfront e he).trans hb), ← drop_drop, drop_left]
  simp only [insertEntry, if_neg (lt_asymm hb), if_neg hb.ne', drop_one, tail_cons]

/-- A map, cut where the entries begin that are kept. -/
structure Cut (width : Nat) (m : SortedMap κ β) (front back : List (κ × β)) : Prop where
  entries : m.entries = front ++ back
  kept : (newest width m).entries = back
  length : front.length = m.size - width
  sorted : (front ++ back).Pairwise (fun a b => a.1 < b.1)

theorem exists_cut (width : Nat) (m : SortedMap κ β) : ∃ front back, Cut width m front back := by
  have hentries := (take_append_drop (m.size - width) m.entries).symm
  refine ⟨m.entries.take (m.size - width), m.entries.drop (m.size - width), hentries, rfl, ?_, ?_⟩
  · rw [length_take]
    exact min_eq_left (Nat.sub_le _ _)
  · rw [← hentries]
    exact m.sorted

namespace Cut

theorem size (h : Cut width m front back) : m.size = front.length + back.length := by
  rw [SortedMap.size, h.entries, length_append]

theorem size_kept (h : Cut width m front back) : (newest width m).size = back.length := by
  rw [SortedMap.size, h.kept]

theorem before (h : Cut width m front back) : ∀ a ∈ front, ∀ b ∈ back, a.1 < b.1 :=
  (pairwise_append.mp h.sorted).2.2

/-- A key that was seen is kept, or has fallen below the smallest one that is. -/
theorem note_seen (h : Cut width m front back) (hthere : (m.get? k).isSome) (v : β) :
    note width (newest width m) k v = newest width m := by
  have hget : m.get? k = lookupEntry k (front ++ back) := by rw [SortedMap.get?, h.entries]
  have hkept : (newest width m).get? k = lookupEntry k back := by rw [SortedMap.get?, h.kept]
  rw [note_eq, SortedMap.contains]
  by_cases hback : ((newest width m).get? k).isSome
  · rw [if_pos hback]
  · rw [if_neg hback]
    have hold : lookupEntry k front ≠ none := by
      intro hnone
      rw [hget, lookup_append hnone, ← hkept] at hthere
      exact hback hthere
    obtain ⟨w, hw⟩ := ne_none_iff_exists'.mp hold
    have hmem := (mem_iff_lookupEntry (pairwise_append.mp h.sorted).1).mpr hw
    have hfull : (newest width m).size = width := by
      have hpos := length_pos_of_mem hmem
      have hlength := h.length
      rw [h.size_kept]
      have hsize := h.size
      omega
    rw [if_pos hfull, h.kept, if_pos]
    cases back with
    | nil => rfl
    | cons b back => simpa using h.before _ hmem b mem_cons_self

/-- A new key takes its place, and where the map is full the smallest key falls out. -/
theorem note_unseen (h : Cut width m front back) (hnone : m.get? k = none) (v : β) :
    note width (newest width m) k v = newest width (m.insert k v) := by
  have hsize := h.size
  have hkept_size := h.size_kept
  have hlength := h.length
  have hnone : lookupEntry k (front ++ back) = none := by
    rw [← h.entries]
    exact hnone
  have hout : ∀ e ∈ front ++ back, e.1 ≠ k := by
    intro e he heq
    have hfound := (mem_iff_lookupEntry (k := e.1) (v := e.2) h.sorted).mp he
    rw [heq, hnone] at hfound
    cases hfound
  have hnone_front : lookupEntry k front = none := by
    by_contra hsome
    obtain ⟨w, hw⟩ := ne_none_iff_exists'.mp hsome
    have hmem := (mem_iff_lookupEntry (pairwise_append.mp h.sorted).1).mpr hw
    exact hout _ (mem_append_left back hmem) rfl
  have hnone_back : (newest width m).get? k = none := by
    rw [SortedMap.get?, h.kept, ← lookup_append hnone_front, hnone]
  have hinserted : (newest width (m.insert k v)).entries =
      (insertEntry k v (front ++ back)).drop (front.length + back.length + 1 - width) := by
    have hlength := length_insertEntry (v := v) hnone
    rw [length_append] at hlength
    rw [entries_newest, entries_insert, h.entries, hlength]
  rw [note_eq, SortedMap.contains, hnone_back, if_neg (by simp)]
  apply ext_entries
  by_cases hfull : (newest width m).size = width
  · rw [if_pos hfull, h.kept]
    rw [show front.length + back.length + 1 - width = front.length + 1 by omega] at hinserted
    cases back with
    | nil =>
      rw [hinserted, drop_insert_below (by simp) hnone_front, if_pos (by rfl), h.kept]
    | cons b back =>
      simp only [head?_cons, Option.all_some, decide_eq_true_eq]
      have hrest := (pairwise_cons.mp (pairwise_append.mp h.sorted).2.1).1
      split
      · next hb =>
        rw [hinserted, drop_insert_below (forall_mem_cons.mpr
          ⟨hb, fun e he => hb.trans (hrest e he)⟩) hnone_front, h.kept]
      · next hb =>
        rw [hinserted, drop_insert_above (fun e he => h.before e he b mem_cons_self)
          (lt_of_le_of_ne (not_lt.mp hb) (hout b (by simp))), entries_insert, entries_drop, h.kept]
        rfl
  · rw [if_neg hfull]
    have hempty : front = [] := by
      apply eq_nil_of_length_eq_zero
      omega
    subst hempty
    have hzero : ([] : List (κ × β)).length + back.length + 1 - width = 0 := by
      simp only [length_nil] at hlength hsize ⊢
      omega
    rw [hinserted, hzero, drop_zero, nil_append, entries_insert, h.kept]

end Cut

/-- The bounded map follows the whole one. -/
theorem note_newest (m : SortedMap κ β) (k : κ) (v : β) :
    note width (newest width m) k v = newest width (m.orInsert k v) := by
  obtain ⟨front, back, hcut⟩ := exists_cut width m
  unfold SortedMap.orInsert
  by_cases hthere : (m.get? k).isSome
  · rw [if_pos hthere]
    exact hcut.note_seen hthere v
  · rw [if_neg hthere]
    exact hcut.note_unseen (not_isSome_iff_eq_none.mp hthere) v

theorem foldl_note_eq (l : List (κ × β)) :
    l.foldl (fun m e => note width m e.1 e.2) .empty = newest width (firsts l) := by
  have hrun : ∀ (l : List (κ × β)) (m : SortedMap κ β),
      l.foldl (fun m e => note width m e.1 e.2) (newest width m) =
        newest width (l.foldl (fun m e => m.orInsert e.1 e.2) m) := by
    intro l
    induction l with
    | nil => exact fun _ => rfl
    | cons e l ih =>
      intro m
      rw [foldl_cons, foldl_cons, note_newest, ih]
  have hempty : newest width (.empty : SortedMap κ β) = .empty := by
    apply ext_entries
    rw [entries_newest]
    exact drop_nil
  rw [← hempty]
  exact hrun l .empty

/-- A run of entries leaves what sorting them all, dropping doubles and keeping the last would. -/
theorem foldl_note (l : List (κ × β)) :
    (l.foldl (fun m e => note width m e.1 e.2) .empty).entries =
      (dedup (sorted l)).drop ((dedup (sorted l)).length - width) := by
  rw [dedup_sorted, foldl_note_eq, entries_newest]

theorem note_of_not_admits (h : admits width m k = false) : note width m k v = m := by
  unfold note
  rw [h, if_neg Bool.false_ne_true]

theorem isSome_lookupEntry (h : (k, v) ∈ l) : (lookupEntry k l).isSome := by
  induction l with
  | nil => cases h
  | cons e l ih =>
    by_cases hk : k = e.1
    · simp [lookupEntry, hk]
    · rcases mem_cons.mp h with heq | h
      · exact absurd (congrArg Prod.fst heq) hk
      · simpa [lookupEntry, hk] using ih h

/-- A key that has been seen never comes back. -/
theorem not_admits_of_mem (h : (k, v) ∈ l) :
    admits width (l.foldl (fun m e => note width m e.1 e.2) .empty) k = false := by
  rw [Bool.eq_false_iff]
  intro hadmits
  rw [foldl_note_eq] at hadmits
  have hseen : ((firsts l).get? k).isSome := by
    rw [firsts_get?]
    exact isSome_lookupEntry h
  have hsame : (firsts l).orInsert k v = firsts l := if_pos hseen
  have hnote := @note_newest _ _ _ width (firsts l) k v
  rw [hsame] at hnote
  have hout : ((newest width (firsts l)).get? k).isSome = false := by
    have hnot := (Bool.and_eq_true_iff.mp hadmits).1
    simpa [SortedMap.contains] using hnot
  unfold note at hnote
  rw [hadmits, if_pos rfl] at hnote
  rw [← hnote, get?_insert_self] at hout
  cases hout

/-! ## Other values at the same keys -/

variable {γ : Type} (f : κ → β → γ)

/-- The same keys, each with a value of its own. -/
def mapped (e : κ × β) : κ × γ := (e.1, f e.1 e.2)

theorem sorted_mapped (l : List (κ × β)) : sorted (l.map (mapped f)) = (sorted l).map (mapped f) :=
  (map_insertionSort (r := fun a b : κ × β => a.1 ≤ b.1) (s := fun a b : κ × γ => a.1 ≤ b.1)
    (mapped f) l (fun _ _ _ _ => .rfl)).symm

theorem dedup_mapped (l : List (κ × β)) : dedup (l.map (mapped f)) = (dedup l).map (mapped f) :=
  (map_destutter (R := fun a b : κ × β => a.1 ≠ b.1) (f := mapped f) (fun _ _ _ _ => .rfl)).symm

theorem lookup_mapped (l : List (κ × β)) (k : κ) :
    lookupEntry k (l.map (mapped f)) = (lookupEntry k l).map (f k) := by
  induction l with
  | nil => rfl
  | cons e l ih =>
    simp only [map_cons, mapped, lookupEntry]
    by_cases hk : k = e.1
    · rw [if_pos hk, if_pos hk, hk]
      rfl
    · rw [if_neg hk, if_neg hk]
      exact ih

theorem insertEntry_mapped (l : List (κ × β)) (k : κ) (v : β) :
    insertEntry k (f k v) (l.map (mapped f)) = (insertEntry k v l).map (mapped f) := by
  induction l with
  | nil => rfl
  | cons e l ih =>
    simp only [map_cons, mapped, insertEntry] at ih ⊢
    split_ifs
    · rfl
    · rfl
    · rw [map_cons, ih]
      rfl

variable {f} {m' : SortedMap κ γ}

theorem admits_mapped (h : m'.entries = m.entries.map (mapped f)) (k : κ) :
    admits width m' k = admits width m k := by
  have hcontains : m'.contains k = m.contains k := by
    unfold SortedMap.contains SortedMap.get?
    rw [h, lookup_mapped, isSome_map]
  have hsize : m'.size = m.size := by
    unfold SortedMap.size
    rw [h, length_map]
  have hhead : m'.entries.head?.all (fun e => decide (k < e.1)) =
      m.entries.head?.all (fun e => decide (k < e.1)) := by
    rw [h, List.head?_map]
    cases m.entries.head? <;> rfl
  unfold admits
  rw [hcontains, hsize, hhead]

/-- The map is bounded in the same way whatever its values. -/
theorem note_mapped (h : m'.entries = m.entries.map (mapped f)) (k : κ) (v : β) :
    (note width m' k (f k v)).entries = (note width m k v).entries.map (mapped f) := by
  have hsize : m'.size = m.size := by
    unfold SortedMap.size
    rw [h, length_map]
  unfold note
  rw [admits_mapped h, hsize]
  cases admits width m k with
  | false => exact h
  | true =>
    rw [if_pos rfl, if_pos rfl]
    split_ifs
    · rw [entries_insert, entries_insert, entries_drop, entries_drop, h, ← map_drop,
        insertEntry_mapped]
    · rw [entries_insert, entries_insert, h, insertEntry_mapped]

end NewestKeys
