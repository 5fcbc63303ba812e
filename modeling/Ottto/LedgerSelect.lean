-- The selection of a cycle (snapshot_sync.rs): who is a candidate, and what the choice of
-- retries and re-offers leaves of the ledger.
import Ottto.LedgerInvariant

namespace ottto_service.snapshot_sync

open snapshots terminal_contract_retry reason_reoffer List Option Selection SortedMap

namespace SnapshotUploadProgress

variable {ns : String} {now : Nat} {s : SnapshotUploadProgress} {fp : String}

/-! ## The candidates -/

theorem mem_candidates {due : SortedMap String (Nat × String)} :
    fp ∈ s.candidates now due ↔ due.contains fp = true ∨
      ∃ record, s.quarantined_fingerprints.get? fp = some record ∧
        s.is_retry_candidate now fp record = true ∧ ¬ due.contains fp = true := by
  unfold candidates
  simp only [List.mem_map, mem_insertionSort, mem_append, mem_filterMap]
  constructor
  · rintro ⟨e, (⟨⟨key, record⟩, hmem, he⟩ | ⟨⟨key, due_at⟩, hmem, he⟩), rfl⟩
    · right
      split at he
      · rename_i hcandidate
        cases he
        exact ⟨record, mem_entries.mp hmem, hcandidate⟩
      · cases he
    · left
      cases he
      exact mem_keys_iff.mp (List.mem_map.mpr ⟨_, hmem, rfl⟩)
  · rintro (hdue | ⟨record, hrecord, hcandidate⟩)
    · obtain ⟨due_at, hget⟩ := Option.isSome_iff_exists.mp hdue
      exact ⟨_, .inr ⟨(fp, due_at), mem_entries.mpr hget, rfl⟩, rfl⟩
    · exact ⟨_, .inl ⟨(fp, record), mem_entries.mpr hrecord, by rw [if_pos hcandidate]⟩,
        rfl⟩

theorem filterMap_fst_nodup {β γ : Type} {l : List (String × β)} {f : String × β → Option γ}
    {key : γ → String} (h : (l.map Prod.fst).Nodup) (hf : ∀ e v, f e = some v → key v = e.1) :
    ((l.filterMap f).map key).Nodup := by
  induction l with
  | nil => simp
  | cons e rest ih =>
    rw [map_cons, nodup_cons] at h
    rw [filterMap_cons]
    cases he : f e with
    | none => exact ih h.2
    | some v =>
      rw [map_cons, nodup_cons]
      refine ⟨?_, ih h.2⟩
      rintro hmem
      obtain ⟨w, hw, hkey⟩ := mem_map.mp hmem
      obtain ⟨e', he', hfe'⟩ := mem_filterMap.mp hw
      apply h.1
      rw [← hf e v he, ← hkey, hf e' w hfe']
      exact mem_map.mpr ⟨e', he', rfl⟩

/-- An entity takes one slot, as a retry or as a re-offer. -/
theorem candidates_nodup {due : SortedMap String (Nat × String)} :
    (s.candidates now due).Nodup := by
  unfold candidates
  dsimp only
  rw [(List.Perm.map _ (perm_insertionSort _ _)).nodup_iff, map_append,
    nodup_append]
  refine ⟨?_, ?_, ?_⟩
  · apply filterMap_fst_nodup s.quarantined_fingerprints.keys_nodup
    intro e v he
    split at he
    · cases he
      rfl
    · cases he
  · rw [List.map_map]
    exact due.keys_nodup
  · intro a ha b hb heq
    subst heq
    obtain ⟨v, hv, rfl⟩ := List.mem_map.mp ha
    obtain ⟨e, -, he⟩ := mem_filterMap.mp hv
    split at he
    · rename_i hcandidate
      cases he
      apply hcandidate.2
      obtain ⟨w, hw, hkey⟩ := List.mem_map.mp hb
      obtain ⟨e', he', rfl⟩ := List.mem_map.mp hw
      apply mem_keys_iff.mp
      exact List.mem_map.mpr ⟨e', he', hkey⟩
    · cases he

/-! ## Re-offers change no body -/

theorem reclamp_toRefusal_body {refusal : PermanentSnapshotRejection} :
    (reclamp now refusal).body_witness = refusal.body_witness := by
  unfold reclamp
  split <;> rfl

theorem collect_due_loadable (h : s.toDurable.Loadable ns now) {scope : Scope} :
    (s.collect_due_reason_reoffers scope).1.toDurable.Loadable ns now := by
  unfold collect_due_reason_reoffers
  split
  · exact h
  · apply h.with_refusals
    intro fp refusal hget
    rw [get?_mapValues] at hget
    obtain ⟨old, hold, rfl⟩ := map_eq_some_iff.mp hget
    rw [reclamp_toRefusal_body]
    exact h.refusals fp old hold

theorem reserve_loadable (h : s.toDurable.Loadable ns now) {body : String} {at_now : Nat} :
    (s.reserve_reason_reoffer fp body at_now).toDurable.Loadable ns now := by
  unfold reserve_reason_reoffer
  split
  · exact h
  · rename_i refusal hrefusal
    apply h.with_refusals
    intro found left hget
    rw [get?_insert] at hget
    split at hget
    · cases hget
      rename_i heq
      rw [heq]
      exact h.refusals fp refusal hrefusal
    · exact h.refusals found left hget

@[simp] theorem reserve_quarantined {body : String} {at_now : Nat} :
    (s.reserve_reason_reoffer fp body at_now).quarantined_fingerprints =
      s.quarantined_fingerprints := by
  unfold reserve_reason_reoffer
  split <;> rfl

@[simp] theorem collect_due_quarantined {scope : Scope} :
    (s.collect_due_reason_reoffers scope).1.quarantined_fingerprints =
      s.quarantined_fingerprints := by
  unfold collect_due_reason_reoffers
  split <;> rfl

end SnapshotUploadProgress

namespace Selection

open SnapshotUploadProgress

variable {ns : String} {now : Nat} {s : Selection} {fp : String}

/-! ## What a selection keeps -/

theorem select_one_loadable {at_now : Nat} (h : s.ledger.toDurable.Loadable ns now) :
    (s.select_one at_now fp).ledger.toDurable.Loadable ns now := by
  unfold select_one
  split
  · split
    · exact h
    · exact reserve_loadable h
  · exact h

variable {fps : List String}

theorem select_loadable {at_now : Nat} (h : s.ledger.toDurable.Loadable ns now) :
    (select at_now fps s).ledger.toDurable.Loadable ns now := by
  induction fps generalizing s with
  | nil => exact h
  | cons fp rest ih =>
    unfold select
    split
    · exact h
    · exact ih (select_one_loadable h)

theorem select_one_quarantined :
    (s.select_one now fp).ledger.quarantined_fingerprints = s.ledger.quarantined_fingerprints := by
  unfold select_one
  split
  · split
    · rfl
    · exact reserve_quarantined
  · rfl

theorem select_quarantined :
    (select now fps s).ledger.quarantined_fingerprints = s.ledger.quarantined_fingerprints := by
  induction fps generalizing s with
  | nil => rfl
  | cons fp rest ih =>
    unfold select
    split
    · rfl
    · rw [ih, select_one_quarantined]

variable {other : String}

theorem select_one_due (hne : other ≠ fp) :
    (s.select_one now fp).due.get? other = s.due.get? other := by
  unfold select_one
  split
  · split
    · rfl
    · exact (get?_erase _ _ _).trans (if_neg hne)
  · rfl

theorem mem_retry_of_select_one (h : other ∈ (s.select_one now fp).retry) :
    other ∈ s.retry ∨ (other = fp ∧ s.due.get? fp = none) := by
  unfold select_one at h
  split at h
  · split at h <;> exact .inl h
  · rename_i hdue
    rcases Finset.mem_insert.mp h with heq | hmem
    · exact .inr ⟨heq, hdue⟩
    · exact .inl hmem

/-- A retry is a candidate that has no due re-offer. -/
theorem mem_retry_of_select (hnodup : fps.Nodup) (h : other ∈ (select now fps s).retry) :
    other ∈ s.retry ∨ (other ∈ fps ∧ s.due.get? other = none) := by
  induction fps generalizing s with
  | nil => exact .inl h
  | cons fp rest ih =>
    rw [nodup_cons] at hnodup
    unfold select at h
    split at h
    · exact .inl h
    rcases ih hnodup.2 h with hearlier | ⟨hrest, hdue⟩
    · rcases mem_retry_of_select_one hearlier with hold | ⟨rfl, hnone⟩
      · exact .inl hold
      · exact .inr ⟨mem_cons_self, hnone⟩
    · right
      have hne : other ≠ fp := by
        rintro rfl
        exact hnodup.1 hrest
      rw [select_one_due hne] at hdue
      exact ⟨mem_cons_of_mem _ hrest, hdue⟩

end Selection

namespace SnapshotUploadProgress

variable {ns : String} {now : Nat} {s : SnapshotUploadProgress}

variable {reoffer : Option Scope}

theorem collect_loadable (h : s.toDurable.Loadable ns now) :
    (s.collect_due reoffer).1.toDurable.Loadable ns now := by
  cases reoffer with
  | none => exact h
  | some scope => exact collect_due_loadable h

theorem selection_quarantined :
    (s.selection reoffer now).ledger.quarantined_fingerprints = s.quarantined_fingerprints := by
  unfold selection
  rw [select_quarantined]
  cases reoffer with
  | none => rfl
  | some scope => exact collect_due_quarantined

/-- A selected retry was pending, and has no re-offer. -/
theorem selection_retry {fp : String} (h : fp ∈ (s.selection reoffer now).retry) :
    (s.collect_due reoffer).2.1.get? fp = none ∧
      ∃ record, s.quarantined_fingerprints.get? fp = some record ∧
        s.is_retry_candidate now fp record = true := by
  rcases mem_retry_of_select candidates_nodup h with hnone | ⟨hmem, hdue⟩
  · exact absurd hnone (Finset.notMem_empty fp)
  refine ⟨hdue, ?_⟩
  rcases mem_candidates.mp hmem with hcontains | ⟨record, hrecord, hcandidate, -⟩
  · rw [SortedMap.contains, hdue] at hcontains
    cases hcontains
  · exact ⟨record, hrecord, hcandidate⟩

theorem leased_loadable (h : s.toDurable.Loadable ns now) :
    ((s.selection reoffer now).leased now).toDurable.Loadable ns now := by
  have hselected : (s.selection reoffer now).ledger.toDurable.Loadable ns now :=
    select_loadable (collect_loadable h)
  apply hselected.with_quarantined
  intro fp record hget
  rw [get?_filterMap_some, selection_quarantined] at hget
  obtain ⟨old, hold, rfl⟩ := map_eq_some_iff.mp hget
  have hrecord := h.quarantined fp old hold
  refine ⟨hrecord.1, ?_⟩
  unfold claim_retry
  split
  · rename_i hretry
    obtain ⟨-, found, hfound, hcandidate⟩ := selection_retry hretry.1
    rw [hold] at hfound
    cases hfound
    apply paced_loadable (claim_loadable hrecord.2)
    simp only [is_retry_candidate, Bool.and_eq_true, beq_iff_eq] at hcandidate
    exact hcandidate.1.2
  · exact hrecord.2

theorem prepare_loadable (h : s.toDurable.Loadable ns now)
    {index : SortedMap String SnapshotQuarantineRecord} (hindex : IsIndexQuarantine now index) :
    (s.prepare_quarantine_and_reason_retries index reoffer now).1.toDurable.Loadable ns now :=
  leased_loadable (restore_quarantines_loadable h hindex)

end SnapshotUploadProgress

end ottto_service.snapshot_sync
