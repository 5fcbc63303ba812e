-- A file that a scan skips is held by a record, or is the file that its entry says it is
-- (snapshots/scan_index/candidate_decision.rs).
import Ottto.CandidateDecision

namespace ottto_service.snapshots.candidate_decision

open Option

variable (out : Outside) (index : ScanIndex) (candidate : CandidateFile)

/-! ## Holds -/

/-- The listing stamp of an entry: an entry without nanoseconds is compared at whole seconds. -/
structure SameStamp (entry : ScanIndexEntry) : Prop where
  size : entry.size_bytes = candidate.size_bytes ∨ ∃ bound, entry.codex_fragment = some bound ∧
    bound.binds entry.size_bytes candidate.size_bytes (Stamp.candidate candidate) = true
  modified : ∀ nanos, entry.modified_unix_nanos = some nanos → nanos = candidate.modified_unix_nanos
  modified_seconds : entry.modified_unix_nanos = none →
    candidate.modified_unix_nanos / 1000000000 = entry.modified_unix_seconds
  birth : entry.opened_birth_nanos = 0 ∨
    entry.opened_birth_nanos = candidate.fingerprint_birth_nanos

/-- An entity of the file was refused until its input changes, and the stamp is the entry's. -/
def StaleRefusal : Prop :=
  ∃ fps fp cooldown entry, index.file_snapshot_fingerprints.get? candidate.key = some fps ∧ fp ∈ fps ∧
    index.reason_reoffer_cooldowns.get? fp = some cooldown ∧ cooldown.input_change_only = true ∧
    index.files.get? candidate.key = some entry ∧ SameStamp candidate entry

/-- The family's authority record asks for no read of this member. -/
structure AuthorityWaits (root_session_id member : String)
    (record : ClaudeUsageAuthorityQuarantineRecord) : Prop where
  family : claude_index_path_family_member candidate.path = some (root_session_id, member)
  quarantined : index.claude_usage_authority_quarantine.get? root_session_id = some record
  owed : ∀ correction, record.proof_correction = some correction → member ∉ correction.owed_member_ids
  witness : ∃ witness, index.claude_usage_family_witnesses.get? root_session_id = some witness ∧
    claude_usage_family_witness_fingerprint witness = record.proven_witness_fingerprint
  revision : record.member_source_file_fingerprints.get? member =
    some candidate.source_file_fingerprint
  retry : record.disposition = .RetryPending → out.clock < record.retry_after_unix_seconds
  terminal : claude_terminal_predates_e2 record = false

def AuthorityHold : Prop := ∃ root_session_id member record,
  AuthorityWaits out index candidate root_session_id member record

/-- The account is withheld, and the memo has what a parse of the candidate would see. -/
structure WithheldHold : Prop where
  deferred : index.claude_account_deferred_holds.contains candidate.key = true
  readable : index.withheld_memo.poisoned = false ∧ index.withheld_memo.refused = false
  seen : ∃ before content, index.withheld_memo.seen (memo_key candidate.key) = some before ∧
    index.withheld_completed_seen candidate = some content ∧
    (before = content ∨ birth_clamp_continues before content candidate.modified_unix_nanos = true)

/-- A retry that is due is another file's, or that of the exact body that was refused. -/
def RetryWaits (key fingerprint : String) : Prop :=
  index.quarantine_requires_retry out fingerprint = true →
    (∃ owner, index.terminal_contract_retries.get? fingerprint = some owner ∧ owner ≠ key) ∨
      index.reason_reoffer_cooldown_defers fingerprint = true

/-- The file's capture is not committed, and each of its entities is refused under the active
contract. -/
structure CaptureHold (entry : ScanIndexEntry) (fingerprints : Finset String)
    (active : SnapshotQuarantineWitness) : Prop where
  indexed : index.files.get? candidate.key = some entry
  captured : entry.captured = true
  fingerprint : entry.source_file_fingerprint = candidate.source_file_fingerprint
  entities : index.file_snapshot_fingerprints.get? candidate.key = some fingerprints
  nonempty : fingerprints ≠ ∅
  contract : index.active_quarantine_witness = some active
  quarantined : ∀ fp ∈ fingerprints, ∃ record,
    index.quarantined_snapshot_fingerprints.get? fp = some record ∧
      ScanIndex.same_retry_contract_any_context record.witness active = true
  retries : ∀ fp ∈ fingerprints, RetryWaits out index candidate.key fp

/-- The recorded holds. -/
inductive Held : Prop where
  | decode (h : index.decode_holds_file candidate.key = true)
  | stale_refusal (h : StaleRefusal index candidate)
  | authority (h : AuthorityHold out index candidate)
  | withheld (h : WithheldHold index candidate)
  | capture (entry : ScanIndexEntry) (fingerprints : Finset String)
      (active : SnapshotQuarantineWitness)
      (h : CaptureHold out index candidate entry fingerprints active)

/-- The file is the one that its entry was made of, with a known outcome. -/
structure Unchanged (entry : ScanIndexEntry) : Prop where
  indexed : index.files.get? candidate.key = some entry
  fingerprint : entry.source_file_fingerprint = candidate.source_file_fingerprint
  content : ScanIndex.known_fragment candidate entry = true ∨
    (entry.size_bytes = candidate.size_bytes ∧
      entry.modified_unix_seconds = candidate.modified_unix_seconds ∧
      ∀ nanos, entry.modified_unix_nanos = some nanos → nanos = candidate.modified_unix_nanos)
  identity : entry.scan_identity_version = some LOCAL_SCAN_INDEX_IDENTITY_VERSION ∨
    entry.has_unverified_source = true
  outcome : entry.last_snapshot_fingerprint.isSome = true ∨
    candidate.key ∈ index.confirmed_empty_files
  retries : ∀ fingerprints, index.file_snapshot_fingerprints.get? candidate.key = some fingerprints →
    ∀ fp ∈ fingerprints, RetryWaits out index candidate.key fp

/-! ## The gates -/

variable {out : Outside} {index : ScanIndex} {candidate : CandidateFile}

theorem retry_waits_iff {key fingerprint : String} :
    RetryWaits out index key fingerprint ↔
      index.quarantine_retry_selects_file out key fingerprint = false := by
  unfold RetryWaits ScanIndex.quarantine_retry_selects_file
  cases index.quarantine_requires_retry out fingerprint with
  | false => simp
  | true =>
    cases index.terminal_contract_retries.get? fingerprint with
    | none => simp
    | some owner =>
      cases index.reason_reoffer_cooldown_defers fingerprint <;> simp

variable {entry : ScanIndexEntry}

theorem same_stamp_iff :
    entry.same_stamp_with_mtime (entry.modified_unix_nanos.or
      ((some candidate.modified_unix_nanos).filter
        (fun nanos => nanos / 1000000000 == entry.modified_unix_seconds)))
      candidate.size_bytes (some candidate.modified_unix_nanos)
      (some candidate.fingerprint_birth_nanos) (Stamp.candidate candidate) = true ↔
      SameStamp candidate entry := by
  unfold ScanIndexEntry.same_stamp_with_mtime
  simp only [Bool.and_eq_true, Bool.or_eq_true, beq_iff_eq, any_eq_true, isSome_some,
    and_true, Option.some.injEq]
  constructor
  · rintro ⟨⟨hsize, hmodified⟩, hbirth⟩
    refine ⟨hsize, ?_, ?_, hbirth.imp_right Eq.symm⟩
    · intro nanos hnanos
      rw [hnanos] at hmodified
      exact Option.some.inj hmodified
    · intro hnone
      rw [hnone] at hmodified
      simp only [none_or, filter_some] at hmodified
      split at hmodified
      · next h => exact beq_iff_eq.mp h
      · cases hmodified
  · intro h
    refine ⟨⟨h.size, ?_⟩, h.birth.imp_right Eq.symm⟩
    cases hnanos : entry.modified_unix_nanos with
    | none => simp [h.modified_seconds hnanos]
    | some nanos => simp [h.modified nanos hnanos]

theorem stale_refusal_iff :
    index.stale_refusal_holds_unchanged_input candidate = true ↔ StaleRefusal index candidate := by
  unfold ScanIndex.stale_refusal_holds_unchanged_input StaleRefusal
  rw [Bool.and_eq_true, any_eq_true, any_eq_true]
  constructor
  · rintro ⟨⟨fps, hfps, hrefused⟩, entry, hentry, hstamp⟩
    obtain ⟨fp, hfp, hcooldown⟩ := of_decide_eq_true hrefused
    obtain ⟨cooldown, hget, honly⟩ := (any_eq_true _ _).mp hcooldown
    exact ⟨fps, fp, cooldown, entry, hfps, hfp, hget, honly, hentry, same_stamp_iff.mp hstamp⟩
  · rintro ⟨fps, fp, cooldown, entry, hfps, hfp, hget, honly, hentry, hstamp⟩
    refine ⟨⟨fps, hfps, decide_eq_true ⟨fp, hfp, ?_⟩⟩, entry, hentry, same_stamp_iff.mpr hstamp⟩
    exact (any_eq_true _ _).mpr ⟨cooldown, hget, honly⟩

theorem withheld_hold (h : (index.withheld_account_unchanged candidate candidate.key).1 = true) :
    WithheldHold index candidate := by
  unfold ScanIndex.withheld_account_unchanged at h
  dsimp only at h
  split at h
  · cases h
  · next hdeferred =>
    rw [Bool.not_eq_true, Bool.not_eq_false'] at hdeferred
    split at h
    · cases h
    · next content hcontent =>
      split at h
      · cases h
      · next hreadable =>
        rw [Bool.or_eq_true, not_or, Bool.not_eq_true, Bool.not_eq_true] at hreadable
        split at h
        · cases h
        · next before hbefore =>
          refine ⟨hdeferred, hreadable, before, content, hbefore, hcontent, ?_⟩
          split at h
          · next hsame => exact .inl hsame
          · split at h
            · next hclamp => exact .inr hclamp
            · cases h

/-- A record that asks for no read. -/
theorem authority_waits {root_session_id member : String}
    {record : ClaudeUsageAuthorityQuarantineRecord}
    (hfamily : claude_index_path_family_member candidate.path = some (root_session_id, member))
    (hrecord : index.claude_usage_authority_quarantine.get? root_session_id = some record)
    (howed : record.proof_correction.any
      (fun correction => decide (member ∈ correction.owed_member_ids)) = false)
    (hreparse : index.claude_usage_authority_candidate_requires_family_reparse out candidate = none) :
    AuthorityWaits out index candidate root_session_id member record := by
  unfold ScanIndex.claude_usage_authority_candidate_requires_family_reparse at hreparse
  simp only [hfamily, hrecord, bind_eq_bind, bind_some] at hreparse
  split at hreparse
  · cases hreparse
  · next hquiet =>
    simp only [Bool.or_eq_true, Bool.not_eq_true', Bool.and_eq_true, not_or, Bool.not_eq_false,
      beq_iff_eq, decide_eq_true_eq, not_and, Nat.not_le, Bool.not_eq_true] at hquiet
    obtain ⟨⟨hwitness, hrevision⟩, hretry, hterminal⟩ := hquiet
    refine ⟨hfamily, hrecord, ?_, ?_, ?_, ?_, hterminal⟩
    · intro correction hcorrection
      rw [hcorrection] at howed
      exact of_decide_eq_false howed
    · obtain ⟨witness, hget, hsame⟩ := (any_eq_true _ _).mp hwitness
      exact ⟨witness, hget, beq_iff_eq.mp hsame⟩
    · exact hrevision
    · exact hretry

theorem unindexed_authority_hold
    (h : index.claude_unindexed_member_waits_for_authority out candidate = true) :
    AuthorityHold out index candidate := by
  obtain ⟨⟨root_session_id, member⟩, hfamily, h⟩ := (any_eq_true _ _).mp h
  obtain ⟨record, hrecord, h⟩ := (any_eq_true _ _).mp h
  rw [Bool.and_eq_true, Bool.not_eq_true', isNone_iff_eq_none] at h
  exact ⟨root_session_id, member, record, authority_waits hfamily hrecord h.1 h.2⟩

theorem authority_decision_skip {decided : ScanIndex.Decided}
    (h : index.authority_decision out candidate = some decided) (hskip : decided.1 = .Skip) :
    AuthorityHold out index candidate := by
  unfold ScanIndex.authority_decision at h
  split at h
  · cases h
  · next root_session_id member hfamily =>
    split at h
    · next hquarantined =>
      split at h
      · cases h
        cases hskip
      · next hquiet =>
        obtain ⟨record, hrecord⟩ := isSome_iff_exists.mp hquarantined
        rw [Bool.or_eq_true, not_or, Bool.not_eq_true, Bool.not_eq_true,
          isSome_eq_false_iff, isNone_iff_eq_none] at hquiet
        have howed := hquiet.2
        unfold ScanIndex.correction_owes at howed
        rw [hrecord] at howed
        exact ⟨root_session_id, member, record, authority_waits hfamily hrecord howed hquiet.1⟩
    · cases h

theorem capture_hold (hentry : index.files.get? candidate.key = some entry)
    (hcaptured : entry.captured = true) (h : index.quarantine_holds out candidate entry = true) :
    ∃ fingerprints active, CaptureHold out index candidate entry fingerprints active := by
  unfold ScanIndex.quarantine_holds at h
  rw [Bool.and_eq_true, beq_iff_eq] at h
  obtain ⟨hfingerprint, h⟩ := h
  obtain ⟨fingerprints, hfingerprints, h⟩ := (any_eq_true _ _).mp h
  rw [Bool.and_eq_true] at h
  have hne := of_decide_eq_true h.1
  have hall := of_decide_eq_true h.2
  -- The entities are not none, so there is an active contract.
  obtain ⟨first, hfirst⟩ := Finset.nonempty_iff_ne_empty.mpr hne
  obtain ⟨_, _, hactive⟩ := (any_eq_true _ _).mp (hall first hfirst)
  rw [Bool.and_eq_true] at hactive
  obtain ⟨active, hcontract, -⟩ := (any_eq_true _ _).mp hactive.1
  refine ⟨fingerprints, active, hentry, hcaptured, hfingerprint, hfingerprints, hne, hcontract,
    ?_, ?_⟩
  · intro fp hfp
    obtain ⟨record, hrecord, hheld⟩ := (any_eq_true _ _).mp (hall fp hfp)
    rw [hcontract, Bool.and_eq_true] at hheld
    exact ⟨record, hrecord, hheld.1⟩
  · intro fp hfp
    obtain ⟨record, hrecord, hheld⟩ := (any_eq_true _ _).mp (hall fp hfp)
    rw [Bool.and_eq_true, Bool.not_eq_true'] at hheld
    exact retry_waits_iff.mpr hheld.2

/-- What the gates of the outcome ask of a file that they skip. -/
theorem outcome_decision_skip (h : (index.outcome_decision out candidate entry).1 = .Skip) :
    entry.source_file_fingerprint = candidate.source_file_fingerprint ∧
      (entry.scan_identity_version = some LOCAL_SCAN_INDEX_IDENTITY_VERSION ∨
        entry.has_unverified_source = true) ∧
      (entry.last_snapshot_fingerprint.isSome = true ∨
        candidate.key ∈ index.confirmed_empty_files) := by
  unfold ScanIndex.outcome_decision at h
  split at h
  · cases h
  · next hknown =>
    split at h
    · cases h
    · split at h
      · split at h
        · split at h
          · cases h
          · cases h
        · cases h
      · next hidentity =>
        split at h
        · cases h
        · next hsame =>
          refine ⟨not_not.mp hsame, ?_, ?_⟩
          · simpa [or_iff_not_imp_left] using hidentity
          · simpa [or_iff_not_imp_left] using hknown

theorem not_transcript_changed (h : ScanIndex.transcript_changed candidate entry = false) :
    ScanIndex.known_fragment candidate entry = true ∨
      (entry.size_bytes = candidate.size_bytes ∧
        entry.modified_unix_seconds = candidate.modified_unix_seconds ∧
        ∀ nanos, entry.modified_unix_nanos = some nanos → nanos = candidate.modified_unix_nanos) := by
  unfold ScanIndex.transcript_changed at h
  cases hknown : ScanIndex.known_fragment candidate entry with
  | true => exact .inl rfl
  | false =>
    rw [hknown] at h
    simp only [Bool.not_false, Bool.true_and, Bool.or_eq_false_iff, bne_eq_false_iff_eq] at h
    obtain ⟨⟨hsize, hseconds⟩, hnanos⟩ := h
    refine .inr ⟨hsize, hseconds, ?_⟩
    intro nanos hsome
    rw [hsome] at hnanos
    exact bne_eq_false_iff_eq.mp hnanos

/-- An indexed file that no authority holds is skipped for a withheld account, for a capture,
or as the file of its entry. -/
theorem indexed_decision_skip {now : Nat} {adoption : Bool}
    (hentry : index.files.get? candidate.key = some entry)
    (h : (index.indexed_decision out candidate now adoption entry).1 = .Skip) :
    Held out index candidate ∨ Unchanged out index candidate entry := by
  unfold ScanIndex.indexed_decision at h
  dsimp only at h
  split at h
  · cases h
  split at h
  · cases h
  split at h
  · cases h
  split at h
  · cases h
  next hentities =>
  split at h
  · next hwithheld =>
    rw [Bool.and_eq_true] at hwithheld
    exact .inl (.withheld (withheld_hold hwithheld.2))
  split at h
  · cases h
  next hchanged =>
  split at h
  · next hcaptured =>
    split at h
    · next hholds =>
      obtain ⟨fingerprints, active, hold⟩ := capture_hold hentry hcaptured hholds
      exact .inl (.capture entry fingerprints active hold)
    · cases h
  · obtain ⟨hfingerprint, hidentity, houtcome⟩ := outcome_decision_skip h
    refine .inr ⟨hentry, hfingerprint, not_transcript_changed (Bool.not_eq_true _ ▸ hchanged),
      hidentity, houtcome, ?_⟩
    intro fingerprints hfingerprints fp hfp
    rw [hfingerprints, any_some, decide_eq_true_eq] at hentities
    have hnone := Bool.eq_false_iff.mpr (fun hselects => hentities ⟨fp, hfp, hselects⟩)
    exact retry_waits_iff.mpr (Bool.or_eq_false_iff.mp hnone).2

/-- The gates in their order, with or without the revision of the body witness. -/
theorem gated_skip {now : Nat} {adoption : Bool}
    (h : (index.candidate_decision_with_reason_gated out candidate now adoption).1 = .Skip) :
    Held out index candidate ∨ ∃ entry, Unchanged out index candidate entry := by
  unfold ScanIndex.candidate_decision_with_reason_gated at h
  dsimp only at h
  split at h
  · next hdecode => exact .inl (.decode hdecode)
  split at h
  · next hstale => exact .inl (.stale_refusal (stale_refusal_iff.mp hstale))
  split at h
  · cases h
  split at h
  · split at h
    · next hwaits =>
      rcases Bool.or_eq_true _ _ ▸ hwaits with hauthority | hwithheld
      · exact .inl (.authority (unindexed_authority_hold hauthority))
      · exact .inl (.withheld (withheld_hold hwithheld))
    · cases h
  · next entry hentry =>
    split at h
    · next decided hdecided => exact .inl (.authority (authority_decision_skip hdecided h))
    · exact (indexed_decision_skip hentry h).imp_right (fun hsame => ⟨entry, hsame⟩)

/-- A file that is skipped is held by a record, or is the file that its entry was made of. -/
theorem skipped_files_are_held_or_unchanged (out : Outside) (index : ScanIndex)
    (candidate : CandidateFile) (now : Nat)
    (h : (index.candidate_decision_with_reason_at out candidate now).1 = .Skip) :
    Held out index candidate ∨ ∃ entry, Unchanged out index candidate entry :=
  gated_skip h

/-- A file as its entry has it. -/
def listed_file : CandidateFile where
  physical_identity := none
  path := "/sessions/rollout.jsonl"
  size_bytes := 7
  modified_unix_seconds := 1
  modified_unix_nanos := 1000000000
  source_file_fingerprint := "source"
  legacy_source_file_fingerprint := ""
  legacy_config_reconciliation_required := false
  fingerprint_birth_nanos := 0
  withheld_content_stamp := none

def listed_entry : ScanIndexEntry where
  size_bytes := 7
  modified_unix_seconds := 1
  modified_unix_nanos := some 1000000000
  source_file_fingerprint := "source"
  last_snapshot_fingerprint := some "entity"
  scan_identity_version := some LOCAL_SCAN_INDEX_IDENTITY_VERSION

def contract : SnapshotQuarantineWitness where
  contract := "contract"
  collector_version := "1"
  parser_version := "1"
  scan_identity_version := LOCAL_SCAN_INDEX_IDENTITY_VERSION
  snapshot_schema_version := 1
  entity_ack_contract := "ack"
  item_wire_byte_limit := 655360

/-- The entity was refused with one body, and its deadline has passed. -/
def refused : SnapshotQuarantineRecord where
  reconstruction_contract := 1
  contract_retry_claims := none
  witness := contract
  retry_after_unix_seconds := 50
  upload_body_witness := some "body"
  failed_reconstruction_count := 1
  disposition := .RetryPending

/-- The same body is still in conflict. -/
def cooling_index : ScanIndex where
  files := SortedMap.empty.insert listed_file.key listed_entry
  file_snapshot_fingerprints := SortedMap.empty.insert listed_file.key {"entity"}
  snapshot_activity_at := SortedMap.empty.insert "entity" none
  quarantined_snapshot_fingerprints := SortedMap.empty.insert "entity" refused
  active_quarantine_witness := some contract
  reason_reoffer_cooldowns := SortedMap.empty.insert "entity" { body_witness := "body" }

def past_deadline : Outside where
  rfc3339 := fun _ => false
  clock := 100

theorem cooling_index_skips :
    (cooling_index.candidate_decision_with_reason_at past_deadline listed_file 100).1 = .Skip := by
  decide +kernel

theorem nothing_holds_listed_file : ¬ Held past_deadline cooling_index listed_file := by
  intro h
  cases h with
  | decode h =>
    have hnone : cooling_index.decode_holds_file listed_file.key = false := by decide +kernel
    rw [hnone] at h
    cases h
  | stale_refusal h =>
    have hnone : cooling_index.stale_refusal_holds_unchanged_input listed_file = false := by
      decide +kernel
    rw [stale_refusal_iff.mpr h] at hnone
    cases hnone
  | authority h =>
    obtain ⟨root_session_id, member, record, h⟩ := h
    cases h.quarantined
  | withheld h => cases h.deferred
  | capture entry fingerprints active h =>
    have hentry := h.indexed
    have hlisted : cooling_index.files.get? listed_file.key = some listed_entry :=
      SortedMap.get?_insert _ _ _ _ |>.trans (if_pos rfl)
    rw [hlisted] at hentry
    cases hentry
    cases h.captured

/-- A retry that is due is deferred while its body is in conflict. -/
theorem a_due_retry_is_deferred :
    (cooling_index.candidate_decision_with_reason_at past_deadline listed_file 100).1 = .Skip ∧
      ¬ Held past_deadline cooling_index listed_file ∧
      ∃ fingerprints, cooling_index.file_snapshot_fingerprints.get? listed_file.key =
        some fingerprints ∧ ∃ fp ∈ fingerprints,
          cooling_index.quarantine_requires_retry past_deadline fp = true := by
  refine ⟨cooling_index_skips, nothing_holds_listed_file, {"entity"}, ?_, "entity", ?_, ?_⟩
  · rfl
  · exact Finset.mem_singleton_self _
  · decide +kernel

theorem listed_file_is_unchanged :
    ∃ entry, Unchanged past_deadline cooling_index listed_file entry :=
  (skipped_files_are_held_or_unchanged past_deadline cooling_index listed_file 100
    cooling_index_skips).resolve_left nothing_holds_listed_file

end ottto_service.snapshots.candidate_decision
