-- The last observation of each key, the latest first, with a bound on how many
-- are kept. Nothing here is about one program.
import Ottto.Runs

namespace Recency

open List

variable {κ μ ν : Type}

def Distinct (l : List (κ × ν)) : Prop := (l.map Prod.fst).Nodup

theorem distinct_nil : Distinct ([] : List (κ × ν)) := nodup_nil

variable {l : List (κ × ν)}

theorem Distinct.tail {x : κ × ν} (h : Distinct (x :: l)) :
    x.1 ∉ l.map Prod.fst ∧ Distinct l := nodup_cons.mp h

theorem Distinct.filter (h : Distinct l) (p : κ × ν → Bool) :
    Distinct (l.filter p) := h.sublist (filter_sublist.map Prod.fst)

variable [DecidableEq κ]

/-- The new observation in front, in place of an older one of its key. -/
def store (l : List (κ × ν)) (e : κ × ν) : List (κ × ν) :=
  e :: l.filter (fun other => other.1 ≠ e.1)

/-- The same, with at most `n` observations kept. -/
def storeWithin (n : Nat) (l : List (κ × ν)) (e : κ × ν) : List (κ × ν) := (store l e).take n

theorem distinct_store (h : Distinct l) (e : κ × ν) : Distinct (store l e) := by
  refine nodup_cons.mpr ⟨?_, h.filter _⟩
  intro hmem
  obtain ⟨other, hother, heq⟩ := mem_map.mp hmem
  have hne := (mem_filter.mp hother).2
  simp [heq] at hne

theorem filter_other {k : κ} (h : k ∉ l.map Prod.fst) :
    l.filter (fun e => e.1 ≠ k) = l := by
  apply filter_eq_self.mpr
  intro e he
  apply decide_eq_true
  intro heq
  exact h (mem_map.mpr ⟨e, he, heq⟩)

theorem take_filter (h : Distinct l) (k : κ) (n : Nat) :
    (l.filter (fun e => e.1 ≠ k)).take n =
      ((l.take (n + 1)).filter (fun e => e.1 ≠ k)).take n := by
  induction l generalizing n with
  | nil => rfl
  | cons x l ih =>
    obtain ⟨hx, hl⟩ := h.tail
    by_cases hk : x.1 = k
    · subst hk
      have htake : x.1 ∉ (l.take n).map Prod.fst := by
        intro hmem
        exact hx (((take_sublist n l).map Prod.fst).subset hmem)
      simp only [take_succ_cons, ne_eq, not_true_eq_false, decide_false, Bool.false_eq_true,
        not_false_eq_true, filter_cons_of_neg]
      have hfirst := filter_other hx
      have hsecond := filter_other htake
      simp only [ne_eq] at hfirst hsecond
      rw [hfirst, hsecond, take_take, min_self]
    · have hkeep : ∀ l : List (κ × ν), (x :: l).filter (fun e => e.1 ≠ k) =
          x :: l.filter (fun e => e.1 ≠ k) :=
        fun _ => filter_cons_of_pos (decide_eq_true hk)
      rw [take_succ_cons, hkeep, hkeep]
      cases n with
      | zero => rfl
      | succ n => rw [take_succ_cons, take_succ_cons, ih hl n]

/-- What is kept after a store depends only on what was kept before it. -/
theorem take_store (h : Distinct l) (e : κ × ν) (n : Nat) :
    (store l e).take n = storeWithin n (l.take n) e := by
  unfold storeWithin store
  cases n with
  | zero => rfl
  | succ n => rw [take_succ_cons, take_succ_cons, take_filter h]

theorem distinct_run (history : List (κ × ν)) : Distinct (run store [] history) :=
  Run.invariant Distinct (fun _ e h => distinct_store h e) distinct_nil history

theorem run_storeWithin (n : Nat) (history : List (κ × ν)) :
    run (storeWithin n) [] history = (run store [] history).take n := by
  induction history using List.reverseRecOn with
  | nil => simp
  | append_singleton history e ih =>
    rw [Run.snoc, Run.snoc, ih, take_store (distinct_run history)]

theorem map_store (f : ν → μ) (l : List (κ × ν)) (e : κ × ν) :
    (store l e).map (Prod.map id f) = store (l.map (Prod.map id f)) (Prod.map id f e) := by
  unfold store
  rw [map_cons, filter_map]
  rfl

theorem map_storeWithin (f : ν → μ) (n : Nat) (l : List (κ × ν)) (e : κ × ν) :
    (storeWithin n l e).map (Prod.map id f) =
      storeWithin n (l.map (Prod.map id f)) (Prod.map id f e) := by
  unfold storeWithin
  rw [map_take, map_store]

/-! ## Where an observation stands -/

-- Induction on the later stores, the last one first: each key among them is
-- in front of the observation, and nothing else is.
theorem run_store_split (before : List (κ × ν)) (e : κ × ν) (after : List (κ × ν))
    (h : e.1 ∉ after.map Prod.fst) :
    ∃ front back, run store [] (before ++ e :: after) = front ++ e :: back ∧
      ∀ k, k ∈ front.map Prod.fst ↔ k ∈ after.map Prod.fst := by
  induction after using List.reverseRecOn with
  | nil =>
    refine ⟨[], (run store [] before).filter (fun other => other.1 ≠ e.1), ?_, by simp⟩
    rw [Run.snoc]
    rfl
  | append_singleton after x ih =>
    simp only [map_append, map_cons, map_nil, mem_append, mem_singleton,
      not_or] at h
    obtain ⟨front, back, hrun, hkeys⟩ := ih h.1
    refine ⟨x :: front.filter (fun other => other.1 ≠ x.1),
      back.filter (fun other => other.1 ≠ x.1), ?_, ?_⟩
    · have hkeep : (e :: back).filter (fun other => other.1 ≠ x.1) =
          e :: back.filter (fun other => other.1 ≠ x.1) :=
        filter_cons_of_pos (decide_eq_true h.2)
      rw [← cons_append, ← append_assoc, Run.snoc, hrun, store, filter_append,
        hkeep, cons_append]
    · intro k
      simp only [map_cons, mem_cons, map_append, mem_append, map_nil,
        not_mem_nil, or_false, ← hkeys k]
      constructor
      · rintro (rfl | hmem)
        · exact .inr rfl
        · obtain ⟨other, hother, rfl⟩ := mem_map.mp hmem
          exact .inl (mem_map_of_mem (mem_filter.mp hother).1)
      · rintro (hmem | rfl)
        · by_cases hk : k = x.1
          · exact .inl hk
          · obtain ⟨other, hother, rfl⟩ := mem_map.mp hmem
            exact .inr (mem_map_of_mem (mem_filter.mpr ⟨hother, decide_eq_true hk⟩))
        · exact .inl rfl

theorem run_store_absent {k : κ} {history : List (κ × ν)} (h : k ∉ history.map Prod.fst) :
    k ∉ (run store [] history).map Prod.fst := by
  induction history using List.reverseRecOn with
  | nil => simp
  | append_singleton history x ih =>
    simp only [map_append, map_cons, map_nil, mem_append, mem_singleton,
      not_or] at h
    rw [Run.snoc]
    intro hmem
    rcases mem_cons.mp hmem with heq | hmem
    · exact h.2 heq
    · obtain ⟨other, hother, rfl⟩ := mem_map.mp hmem
      exact ih h.1 (mem_map_of_mem (mem_filter.mp hother).1)

/-- The last observation of a key is kept until `n` other keys were stored
after it, and no other one of its key is. -/
theorem kept_iff (n : Nat) (before after : List (κ × ν)) (e : κ × ν) (v : ν)
    (h : e.1 ∉ after.map Prod.fst) :
    (e.1, v) ∈ run (storeWithin n) [] (before ++ e :: after) ↔
      v = e.2 ∧ (after.map Prod.fst).toFinset.card < n := by
  obtain ⟨front, back, hrun, hkeys⟩ := run_store_split before e after h
  have hdistinct := distinct_run (before ++ e :: after)
  rw [hrun] at hdistinct
  have hcount : (after.map Prod.fst).toFinset.card = front.length := by
    have hsame : (after.map Prod.fst).toFinset = (front.map Prod.fst).toFinset := by
      ext k
      simp only [mem_toFinset]
      exact (hkeys k).symm
    have hnodup : (front.map Prod.fst).Nodup := by
      unfold Distinct at hdistinct
      rw [map_append] at hdistinct
      exact (nodup_append.mp hdistinct).1
    rw [hsame, toFinset_card_of_nodup hnodup, length_map]
  have hfront : ∀ other ∈ front, other.1 ≠ e.1 := by
    intro other hother heq
    apply h
    rw [← hkeys, ← heq]
    exact mem_map_of_mem hother
  have hback : ∀ other ∈ back, other.1 ≠ e.1 := by
    intro other hother heq
    unfold Distinct at hdistinct
    rw [map_append, map_cons] at hdistinct
    have hnot := (nodup_cons.mp (nodup_append.mp hdistinct).2.1).1
    apply hnot
    rw [← heq]
    exact mem_map_of_mem hother
  rw [run_storeWithin, hrun, hcount, take_append, mem_append]
  constructor
  · rintro (hmem | hmem)
    · exact absurd rfl (hfront (e.1, v) (mem_of_mem_take hmem))
    · cases hleft : n - front.length with
      | zero => simp [hleft] at hmem
      | succ m =>
        rw [hleft, take_succ_cons] at hmem
        rcases mem_cons.mp hmem with heq | hmem
        · rw [← heq]
          exact ⟨rfl, by omega⟩
        · exact absurd rfl (hback (e.1, v) (mem_of_mem_take hmem))
  · rintro ⟨rfl, hlt⟩
    right
    obtain ⟨m, hm⟩ : ∃ m, n - front.length = m + 1 := ⟨n - front.length - 1, by omega⟩
    rw [hm, take_succ_cons]
    exact mem_cons_self

end Recency
