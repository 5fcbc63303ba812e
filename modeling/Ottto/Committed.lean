-- The committable subset (snapshots/upload/committable_subset.rs): each file is committed
-- wholly from one of the two indexes, and only settled files from the scan.
import Ottto.Committable

namespace ottto_service.snapshots

open Option ScanIndex ScanIndexEntry SortedMap Bool

/-! ## What a commit may change of an entry -/

namespace ScanIndexEntry

/-- The captured and applied facts that a recovery settles. -/
def recovery_facts (s : ScanIndexEntry) :=
  (s.codex_captured_joined_member_set, s.codex_captured_tier_receipt,
    s.codex_captured_tier_receipt_required, s.codex_captured_uncommitted,
    s.codex_applied_tier_receipt, s.codex_applied_tier_receipt_required)

/-- `entry` is `source` with its source witness kept or cleared, its audit marker kept or
carried, and its recovery facts kept, cleared, or those of the committed entry. -/
structure CommittedAs (old : Option ScanIndexEntry) (source entry : ScanIndexEntry) : Prop where
  last_snapshot_fingerprint : entry.last_snapshot_fingerprint = source.last_snapshot_fingerprint
  last_upload_body_witness : entry.last_upload_body_witness = source.last_upload_body_witness
  codex_joined_member_set : entry.codex_joined_member_set = source.codex_joined_member_set
  codex_protected_owner : entry.codex_protected_owner = source.codex_protected_owner
  codex_counting_v2 : entry.codex_counting_v2 = source.codex_counting_v2
  codex_counting_owner : entry.codex_counting_owner = source.codex_counting_owner
  source_file_fingerprint : entry.source_file_fingerprint = source.source_file_fingerprint ∨
    entry.source_file_fingerprint = ""
  scan_identity_version : entry.scan_identity_version = source.scan_identity_version ∨
    ∃ due sealed, entry.scan_identity_version = some (provenance_marker due sealed)
  recovery : entry.recovery_facts = source.recovery_facts ∨
    entry.recovery_facts = source.clear_capture.recovery_facts ∨
    ∃ committed ∈ old, entry.recovery_facts = (source.restore_capture committed).recovery_facts

variable {s working : ScanIndexEntry} {old : Option ScanIndexEntry}

theorem carry_committed : CommittedAs old s (s.carry working) where
  last_snapshot_fingerprint := rfl
  last_upload_body_witness := rfl
  codex_joined_member_set := rfl
  codex_protected_owner := rfl
  codex_counting_v2 := rfl
  codex_counting_owner := rfl
  source_file_fingerprint := by
    unfold carry
    dsimp only
    split
    · exact .inr rfl
    · exact .inl rfl
  scan_identity_version := by
    unfold carry sampled_audit_carry
    cases working.unverified_deadline with
    | none => exact .inl rfl
    | some due => exact .inr ⟨_, _, rfl⟩
  recovery := .inl rfl

/-- The settlement of a recovery changes its own facts only. -/
theorem reconcile_committed {settled : Bool} {source : ScanIndexEntry}
    (h : CommittedAs old source s) (hfacts : s.recovery_facts = source.recovery_facts) :
    CommittedAs old source (s.reconcile_recovery old settled) := by
  have hclear : s.clear_capture.recovery_facts = source.clear_capture.recovery_facts := by
    simp only [recovery_facts, clear_capture, Prod.mk.injEq] at hfacts ⊢
    simp [hfacts]
  have hrestore : ∀ committed, (s.restore_capture committed).recovery_facts =
      (source.restore_capture committed).recovery_facts := by
    intro committed
    simp only [recovery_facts, restore_capture, Prod.mk.injEq] at hfacts ⊢
    simp [hfacts]
  unfold reconcile_recovery
  split
  · exact { h with recovery := .inr (.inl hclear) }
  cases old with
  | none => exact h
  | some committed =>
    dsimp only
    split
    · exact { h with recovery := .inr (.inr ⟨committed, rfl, hrestore committed⟩) }
    · exact h

theorem reconcile_source {settled : Bool} :
    (s.reconcile_recovery old settled).source_file_fingerprint = s.source_file_fingerprint := by
  unfold reconcile_recovery
  split
  · rfl
  cases old with
  | none => rfl
  | some committed =>
    dsimp only
    split <;> rfl

/-- An entry clears no witness of its own. -/
theorem carry_self_source : (s.carry s).source_file_fingerprint = s.source_file_fingerprint := by
  unfold carry
  dsimp only
  split
  · rename_i hempty
    exact hempty.symm
  · rfl

end ScanIndexEntry

namespace ScanIndex

variable {index previous : ScanIndex} {accepted : Finset String}
  {quarantined : SortedMap String SnapshotQuarantineRecord} {locally_held : Finset String}
  {every_batch_sent : Bool} {key : String}

/-! ## One index for each key -/

theorem get?_committable_files {safe : String → Bool} :
    (index.committable_files previous safe).get? key =
      if (index.files.contains key && safe key) = true then index.files.get? key
      else previous.files.get? key := by
  unfold committable_files
  rw [get?_extend, get?_filterMap, SortedMap.contains]
  cases index.files.get? key with
  | none => simp
  | some entry => cases safe key <;> simp

theorem get?_of_safe_keys {β : Type} {safe : String → Bool} {committed scanned : SortedMap String β} :
    (of_safe_keys safe committed scanned).get? key =
      if safe key = true then scanned.get? key else committed.get? key := by
  unfold of_safe_keys
  rw [get?_extend, get?_filterKeys, get?_filterKeys]
  cases safe key <;> simp

/-- The file is scanned, the decoder does not hold it, and its entities are settled, or the
scan proved it empty where nothing was committed of it. -/
theorem safe_key_spec
    (h : index.is_safe_key previous accepted quarantined locally_held every_batch_sent key = true) :
    index.files.contains key = true ∧ index.decode_holds_file key = false ∧
      ((key ∈ index.confirmed_empty_files ∧ previous.had_entity key = false) ∨
        ∀ fingerprints, index.file_snapshot_fingerprints.get? key = some fingerprints →
          ∀ fingerprint ∈ fingerprints, index.is_settled accepted quarantined locally_held
            every_batch_sent fingerprint = true) := by
  unfold is_safe_key at h
  cases hentry : index.files.get? key with
  | none => rw [hentry] at h; cases h
  | some entry =>
    rw [hentry, any_some] at h
    unfold is_safe at h
    dsimp only at h
    refine ⟨by rw [SortedMap.contains, hentry]; rfl, ?_⟩
    split at h
    · cases h
    rename_i hheld
    refine ⟨not_eq_true _ ▸ hheld, ?_⟩
    split at h
    · rename_i hempty
      exact .inl ⟨hempty, not_eq_true' _ ▸ h⟩
    right
    intro fingerprints hfingerprints
    rw [hfingerprints] at h
    exact of_decide_eq_true h

/-! ## The committed index -/

/-- The file is committed as the scan has it, and its entities are settled. -/
structure CommitsScanned (index previous result : ScanIndex) (settled : String → Prop) (key : String)
    (entry : ScanIndexEntry) : Prop where
  entry : ∃ scanned, index.files.get? key = some scanned ∧
    entry.source_file_fingerprint = scanned.source_file_fingerprint ∧
    ScanIndexEntry.CommittedAs (previous.files.get? key) scanned entry
  fingerprints : result.file_snapshot_fingerprints.get? key =
    index.file_snapshot_fingerprints.get? key
  confirmed_empty : key ∈ result.confirmed_empty_files ↔ key ∈ index.confirmed_empty_files
  settled : (key ∈ index.confirmed_empty_files ∧ previous.had_entity key = false) ∨
    ∀ fingerprints, index.file_snapshot_fingerprints.get? key = some fingerprints →
      ∀ fingerprint ∈ fingerprints, settled fingerprint

/-- The file stays as it was committed. -/
structure KeepsCommitted (previous result : ScanIndex) (key : String) (entry : ScanIndexEntry) :
    Prop where
  entry : ∃ committed, previous.files.get? key = some committed ∧
    ScanIndexEntry.CommittedAs (some committed) committed entry
  fingerprints : result.file_snapshot_fingerprints.get? key =
    previous.file_snapshot_fingerprints.get? key
  confirmed_empty : key ∈ result.confirmed_empty_files ↔ key ∈ previous.confirmed_empty_files

theorem get?_reconciled : (index.reconcile_codex_recovery_settlement previous accepted).files.get? key =
    (index.files.get? key).map (fun entry => entry.reconcile_recovery (previous.files.get? key)
      (index.recovery_settled accepted key)) := by
  unfold reconcile_codex_recovery_settlement
  rw [get?_filterMap]
  cases index.files.get? key <;> rfl

/-- The result's entry of a file: the scan's of a safe key, else the committed one, with
what it still owes. -/
theorem get?_committed :
    ∃ settled, (index.committable_subset_for_upload previous accepted quarantined locally_held
        every_batch_sent).files.get? key =
      (if index.is_safe_key previous accepted quarantined locally_held every_batch_sent key = true
        then index.files.get? key else previous.files.get? key).map (fun entry =>
          ((index.files.get? key).elim entry entry.carry).reconcile_recovery
            (previous.files.get? key) settled) := by
  have hfiles : (index.committable_files previous (index.is_safe_key previous accepted quarantined
      locally_held every_batch_sent)).get? key =
        if index.is_safe_key previous accepted quarantined locally_held every_batch_sent key = true
          then index.files.get? key else previous.files.get? key := by
    rw [get?_committable_files]
    by_cases hsafe : index.is_safe_key previous accepted quarantined locally_held every_batch_sent
        key = true
    · rw [(safe_key_spec hsafe).1, hsafe]
      rfl
    · rw [if_neg (fun hboth => hsafe (and_eq_true_iff.mp hboth).2), if_neg hsafe]
  rw [← hfiles]
  let maps := index.committable_maps previous accepted quarantined locally_held every_batch_sent
  let carried := (maps.carry_working_entries index.files).retain_quarantined_fingerprints
    maps.quarantined_snapshot_fingerprints
  let passed := accepted.filter (fun fingerprint => fingerprint ∉ locally_held)
  have hcarried : carried.files.get? key = (maps.files.get? key).map (fun entry =>
      (index.files.get? key).elim entry entry.carry) := by
    have hget := @SortedMap.get?_filterMap _ _ _ _ (fun key entry =>
      some ((index.files.get? key).elim entry entry.carry)) maps.files key
    refine Eq.trans hget ?_
    cases maps.files.get? key <;> rfl
  refine ⟨carried.recovery_settled passed key, ?_⟩
  refine (get?_reconciled : (carried.reconcile_codex_recovery_settlement previous passed).files.get?
    key = _).trans ?_
  rw [hcarried, map_map]
  rfl

theorem committed_entry {source : ScanIndexEntry} {settled : Bool} :
    ScanIndexEntry.CommittedAs (previous.files.get? key) source
      (((index.files.get? key).elim source source.carry).reconcile_recovery
        (previous.files.get? key) settled) := by
  cases index.files.get? key with
  | none =>
    apply reconcile_committed _ rfl
    exact ⟨rfl, rfl, rfl, rfl, rfl, rfl, .inl rfl, .inl rfl, .inl rfl⟩
  | some working => exact reconcile_committed carry_committed rfl

/-- An accepted entity is not quarantined, and was accepted before or in this pass. -/
theorem accepted_of_committed {fp : String}
    (h : fp ∈ (index.committable_subset_for_upload previous accepted quarantined locally_held
      every_batch_sent).accepted_snapshot_fingerprints) :
    (index.committable_subset_for_upload previous accepted quarantined locally_held
        every_batch_sent).quarantined_snapshot_fingerprints.contains fp = false ∧
      (fp ∈ previous.accepted_snapshot_fingerprints ∨ fp ∈ accepted ∧ fp ∉ locally_held) := by
  unfold committable_subset_for_upload reconcile_codex_recovery_settlement
    retain_quarantined_fingerprints at h ⊢
  dsimp only at h ⊢
  rw [Finset.mem_filter, and_eq_true, not_eq_true'] at h
  refine ⟨h.2.2, ?_⟩
  have hmaps := h.1
  unfold carry_working_entries committable_maps at hmaps
  dsimp only at hmaps
  rw [Finset.mem_filter, Finset.mem_union, Finset.mem_filter] at hmaps
  exact hmaps.1

end ScanIndex

/-- A partial commit keeps every committed file, commits each file as a whole from the scan
or as it was, and from the scan only where its entities are settled; what it accepts is not
quarantined, and every disposition has its file. -/
theorem a_partial_commit_publishes_settled_files_only (index previous : ScanIndex)
    (accepted : Finset String) (quarantined : SortedMap String SnapshotQuarantineRecord)
    (locally_held : Finset String) (every_batch_sent : Bool) :
    let result := index.committable_subset_for_upload previous accepted quarantined locally_held
      every_batch_sent
    (∀ key, previous.files.contains key = true → result.files.contains key = true) ∧
    (∀ key entry, result.files.get? key = some entry →
      index.CommitsScanned previous result (fun fingerprint =>
          index.decode_holds_entity fingerprint = false ∧ fingerprint ∉ locally_held ∧
            (fingerprint ∈ accepted ∨ quarantined.contains fingerprint = true ∨
              every_batch_sent = true)) key entry ∨
        previous.KeepsCommitted result key entry) ∧
    (∀ fingerprint ∈ result.accepted_snapshot_fingerprints,
      result.quarantined_snapshot_fingerprints.contains fingerprint = false ∧
        (fingerprint ∈ previous.accepted_snapshot_fingerprints ∨
          fingerprint ∈ accepted ∧ fingerprint ∉ locally_held)) ∧
    ((∀ key, index.terminal_jsonl_dispositions.contains key = true →
        index.files.contains key = true) →
      (∀ key, previous.terminal_jsonl_dispositions.contains key = true →
        previous.files.contains key = true) →
      ∀ key, result.terminal_jsonl_dispositions.contains key = true →
        result.files.contains key = true) := by
  intro result
  have hsafe_files : ∀ key, index.is_safe_key previous accepted quarantined locally_held
      every_batch_sent key = true → result.files.contains key = true := by
    intro key hsafe
    obtain ⟨settled, hget⟩ := @ScanIndex.get?_committed index previous accepted quarantined
      locally_held every_batch_sent key
    rw [SortedMap.contains, hget, if_pos hsafe, isSome_map]
    exact (safe_key_spec hsafe).1
  have hcommitted : ∀ key, previous.files.contains key = true → result.files.contains key = true := by
    intro key hprevious
    by_cases hsafe : index.is_safe_key previous accepted quarantined locally_held every_batch_sent
        key = true
    · exact hsafe_files key hsafe
    · obtain ⟨settled, hget⟩ := @ScanIndex.get?_committed index previous accepted quarantined
        locally_held every_batch_sent key
      rw [SortedMap.contains, hget, if_neg hsafe, isSome_map]
      exact hprevious
  refine ⟨hcommitted, ?_, fun fingerprint h => accepted_of_committed h, ?_⟩
  · intro key entry hentry
    obtain ⟨settled, hget⟩ := @ScanIndex.get?_committed index previous accepted quarantined
      locally_held every_batch_sent key
    rw [hentry] at hget
    obtain ⟨source, hsource, heq⟩ := map_eq_some_iff.mp hget.symm
    have hfingerprints : result.file_snapshot_fingerprints.get? key =
        if index.is_safe_key previous accepted quarantined locally_held every_batch_sent key = true
          then index.file_snapshot_fingerprints.get? key
          else previous.file_snapshot_fingerprints.get? key := get?_of_safe_keys
    have hempty : key ∈ result.confirmed_empty_files ↔
        key ∈ previous.confirmed_empty_files.filter (fun key => index.is_safe_key previous accepted
            quarantined locally_held every_batch_sent key = false) ∪
          index.confirmed_empty_files.filter (fun key => index.is_safe_key previous accepted
            quarantined locally_held every_batch_sent key) := .rfl
    rw [Finset.mem_union, Finset.mem_filter, Finset.mem_filter] at hempty
    by_cases hsafe : index.is_safe_key previous accepted quarantined locally_held every_batch_sent
        key = true
    · left
      rw [if_pos hsafe] at hsource hfingerprints
      obtain ⟨-, -, hsettled⟩ := safe_key_spec hsafe
      have hwitness : entry.source_file_fingerprint = source.source_file_fingerprint := by
        rw [← heq, reconcile_source, hsource]
        exact carry_self_source
      refine ⟨⟨source, hsource, hwitness, ?_⟩, hfingerprints, ?_, ?_⟩
      · rw [← heq]
        exact committed_entry
      · rw [hempty]
        simp [hsafe]
      · rcases hsettled with hnone | hall
        · exact .inl hnone
        · right
          intro fingerprints hset fingerprint hmem
          have hone := hall fingerprints hset fingerprint hmem
          simp only [is_settled, and_eq_true, or_eq_true, not_eq_true',
            decide_eq_true_eq] at hone
          tauto
    · right
      rw [if_neg hsafe] at hsource hfingerprints
      refine ⟨⟨source, hsource, ?_⟩, hfingerprints, ?_⟩
      · rw [← heq, ← hsource]
        exact committed_entry
      · rw [hempty]
        simp [hsafe]
  · intro hscanned hprevious key hkey
    have hget : result.terminal_jsonl_dispositions.get? key =
        if index.is_safe_key previous accepted quarantined locally_held every_batch_sent key = true
          then index.terminal_jsonl_dispositions.get? key
          else previous.terminal_jsonl_dispositions.get? key := get?_of_safe_keys
    by_cases hsafe : index.is_safe_key previous accepted quarantined locally_held every_batch_sent
        key = true
    · exact hsafe_files key hsafe
    · rw [SortedMap.contains, hget, if_neg hsafe] at hkey
      exact hcommitted key (hprevious key hkey)

/-- A file whose captured recovery its upload settles. -/
def captured_file : ScanIndexEntry :=
  { source_file_fingerprint := "source"
    last_snapshot_fingerprint := some "usage"
    codex_captured_uncommitted := true }

/-- A settled recovery clears its captured mark: the entry is neither the scanned nor the
committed one. -/
theorem a_settled_recovery_is_neither_entry :
    ¬ ∀ (index previous : ScanIndex) (accepted : Finset String)
      (quarantined : SortedMap String SnapshotQuarantineRecord) (locally_held : Finset String)
      (every_batch_sent : Bool) (key : String) (entry : ScanIndexEntry),
      (index.committable_subset_for_upload previous accepted quarantined locally_held
        every_batch_sent).files.get? key = some entry →
      index.files.get? key = some entry ∨
        ∃ committed, previous.files.get? key = some committed ∧
          { entry with source_file_fingerprint := "", scan_identity_version := none } =
            { committed with source_file_fingerprint := "", scan_identity_version := none } := by
  intro hclaim
  let index : ScanIndex :=
    { files := SortedMap.empty.insert "file" captured_file
      file_snapshot_fingerprints := SortedMap.empty.insert "file" {"usage"} }
  have hcleared : ((index.committable_subset_for_upload {} {"usage"} .empty ∅ false).files.get?
      "file").map (fun entry => entry.codex_captured_uncommitted) = some false := by decide
  obtain ⟨entry, hentry, hmark⟩ := map_eq_some_iff.mp hcleared
  rcases hclaim index {} {"usage"} .empty ∅ false "file" entry hentry with hscanned | hcommitted
  · have hget : (index.files.get? "file").map (fun entry => entry.codex_captured_uncommitted) =
        some true := by decide
    rw [hscanned, map_some, hmark] at hget
    cases hget
  · obtain ⟨committed, hget, -⟩ := hcommitted
    cases hget

end ottto_service.snapshots
