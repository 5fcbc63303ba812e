-- What a save after an upload may commit (snapshots/upload/committable_subset.rs): the
-- files whose entities are settled from the scan, every other file as it was committed.
import Ottto.UploadIndex
import Ottto.Reuse
import Ottto.UsageLedger

namespace ottto_service.snapshots

open codex_counting_version claude_usage_ledger

/-! ## The marker of an audit that is owed (sampled_audit.rs) -/

def UNVERIFIED_STEM : String := "semantic_sync:v2+sampled_unverified:"
def PROVENANCE_IDENTITY : String := "semantic_sync:v2+sampled_unverified:v2"

/-- `p` is a sealed prefix, `c` a complete native recomposition. -/
def provenance_marker (due : Nat) (sealed : Bool) : String :=
  PROVENANCE_IDENTITY ++ ":" ++ toString due ++ ":" ++ (if sealed then "p" else "c")

/-- Digits only, `str::parse::<u64>` of them. -/
def parse_due (due : String) : Option Nat :=
  if due.toList.isEmpty || !due.toList.all Char.isDigit then none
  else
    let seconds := Nat.ofDigitChars 10 due.toList 0
    if seconds ≤ u64_max then some seconds else none

def decode_marker (version : String) : Option (Nat × Bool) := do
  let marker ← strip_prefix_of PROVENANCE_IDENTITY version
  let marker ← strip_prefix_of ":" marker
  let (due, provenance) ← split_once marker ':'
  let due ← parse_due due
  if provenance = "c" then some (due, false)
  else if provenance = "p" then some (due, true)
  else none

namespace ScanIndexEntry

variable (s working : ScanIndexEntry)

def has_unverified_source : Bool :=
  s.scan_identity_version.any (fun version => (strip_prefix_of UNVERIFIED_STEM version).isSome)

/-- A stem is a prefix unless it decodes as a complete recomposition. -/
def has_prefix_provenance : Bool :=
  s.has_unverified_source &&
    s.scan_identity_version.any (fun version =>
      (decode_marker version).all (fun marker => marker.2))

def unverified_deadline : Option Nat :=
  if s.has_unverified_source then
    s.scan_identity_version.map (fun version =>
      ((decode_marker version).map Prod.fst).getD
        -- A v1 deadline stays, with no provenance.
        ((((strip_prefix_of UNVERIFIED_STEM version).bind (strip_prefix_of "v1:")).bind parse_due).getD 0))
  else none

/-- The earlier deadline, and a prefix of either entry. -/
def sampled_audit_carry : Option String :=
  working.unverified_deadline.map (fun due =>
    provenance_marker (s.unverified_deadline.elim due (min · due))
      (s.has_prefix_provenance || working.has_prefix_provenance))

/-- A cleared source witness is outstanding work that an unsettled entry keeps. -/
def carry : ScanIndexEntry :=
  { s with
    source_file_fingerprint :=
      if working.source_file_fingerprint = "" then "" else s.source_file_fingerprint
    scan_identity_version := (s.sampled_audit_carry working).or s.scan_identity_version }

end ScanIndexEntry

/-! ## The captured facts of a recovery (sources/codex/recovery_capture.rs) -/

def captured_join (witness : String) : String := "codex_captured_join:v1:" ++ witness

def valid_captured_join (value : String) : Bool :=
  (strip_prefix_of "codex_captured_join:v1:" value).any scan_index.valid_codex_protected_owner

def covered_by (s previous : scan_index.AppliedTierReceipt) : Bool :=
  s.version == previous.version && s.derivation == previous.derivation &&
    s.tiers.entries.all (fun e => previous.tiers.get? e.1 == some e.2)

namespace ScanIndexEntry

variable (s : ScanIndexEntry)

/-- Facts of the committed entry that wait for their settlement. -/
def pending_tiers : Bool :=
  s.codex_captured_tier_receipt_required || s.codex_captured_tier_receipt.isSome ||
    (s.codex_captured_uncommitted && s.codex_captured_joined_member_set.isNone)

/-- The applied facts of `s` hold all that `old` captured. -/
def covers_capture (old : Option ScanIndexEntry) : Bool :=
  (!old.any pending_tiers ||
      (old.bind (fun old => old.codex_captured_tier_receipt)).any (fun captured =>
        s.codex_applied_tier_receipt.any (covered_by captured))) &&
    (old.bind (fun old => old.codex_captured_joined_member_set)).all (fun captured =>
      s.codex_joined_member_set.any (fun applied =>
        valid_captured_join captured && captured == captured_join applied))

def clear_capture : ScanIndexEntry :=
  { s with
    codex_captured_joined_member_set := none
    codex_captured_tier_receipt := none
    codex_captured_tier_receipt_required := false
    codex_captured_uncommitted := false }

/-- The facts that stay pending are those of the committed entry; its captured receipt
gives way to an applied one that covers it. -/
def restore_capture (old : ScanIndexEntry) : ScanIndexEntry :=
  { s with
    codex_captured_tier_receipt := old.codex_captured_tier_receipt.map (fun captured =>
      (s.codex_applied_tier_receipt.filter (covered_by captured)).getD captured)
    codex_captured_joined_member_set := old.codex_captured_joined_member_set
    codex_captured_tier_receipt_required := old.pending_tiers
    codex_captured_uncommitted := old.codex_captured_uncommitted
    codex_applied_tier_receipt := old.codex_applied_tier_receipt
    codex_applied_tier_receipt_required := old.codex_applied_tier_receipt_required }

/-- One entry once the upload of its file is known. -/
def reconcile_recovery (old : Option ScanIndexEntry) (settled : Bool) : ScanIndexEntry :=
  if settled && s.covers_capture old then s.clear_capture
  else match old with
    | none => s
    | some old =>
      if old.pending_tiers || old.codex_captured_joined_member_set.isSome then s.restore_capture old
      else s

end ScanIndexEntry

namespace ScanIndex

variable (index previous : ScanIndex) (accepted : Finset String)
  (quarantined : SortedMap String SnapshotQuarantineRecord) (locally_held : Finset String)
  (every_batch_sent : Bool)

def recovery_settled (key : String) : Bool :=
  (index.file_snapshot_fingerprints.get? key).any (fun fingerprints =>
    decide (fingerprints ≠ ∅) && decide (∀ fingerprint ∈ fingerprints, fingerprint ∈ accepted))

def reconcile_codex_recovery_settlement : ScanIndex :=
  { index with files := index.files.filterMap (fun key entry =>
      some (entry.reconcile_recovery (previous.files.get? key) (index.recovery_settled accepted key))) }

/-! ## Quarantines that stay (upload/reoffer_quarantine.rs) -/

/-- A terminal record of an entity that no file has, kept for a replay. -/
def is_absent_terminal (fingerprint : String) (record : SnapshotQuarantineRecord) : Bool :=
  decide (fingerprint ∉ members index.file_snapshot_fingerprints) &&
    (record.disposition == .UnprovenTerminal || record.disposition == .SupersededTerminal)

def retain_quarantined_fingerprints (quarantined : SortedMap String SnapshotQuarantineRecord) :
    ScanIndex :=
  let current := members index.file_snapshot_fingerprints
  let kept := quarantined.retain (fun fingerprint record =>
    decide (fingerprint ∈ current) || record.disposition == .SupersededTerminal)
  let with_absent := (index.quarantined_snapshot_fingerprints.retain index.is_absent_terminal).extend kept
  let previous_claims := index.quarantined_snapshot_fingerprints.retain
    (fun _ record => record.contract_retry_claims.isSome)
  let merged := (terminal_contract_retry.merge_maps with_absent previous_claims).1
  { index with
    quarantined_snapshot_fingerprints := merged
    accepted_snapshot_fingerprints := index.accepted_snapshot_fingerprints.filter (fun fingerprint =>
      (index.decode_has_opaque_file_incidence || decide (fingerprint ∈ index.carried_ack_fingerprints) ||
        decide (fingerprint ∈ current)) && !merged.contains fingerprint) }

/-! ## The committable subset -/

def is_settled (fingerprint : String) : Bool :=
  !index.decode_holds_entity fingerprint &&
    ((decide (fingerprint ∈ accepted) && decide (fingerprint ∉ locally_held)) ||
      (quarantined.contains fingerprint && decide (fingerprint ∉ locally_held)) ||
      (every_batch_sent && decide (fingerprint ∉ locally_held)))

/-- The committed index has an entity of this file. -/
def had_entity (key : String) : Bool :=
  (previous.file_snapshot_fingerprints.get? key).any (fun fingerprints => decide (fingerprints ≠ ∅)) ||
    ((previous.files.get? key).bind (fun entry => entry.last_snapshot_fingerprint)).isSome

def is_safe (key : String) (fingerprint : Option String) : Bool :=
  let settled := index.is_settled accepted quarantined locally_held every_batch_sent
  if index.decode_holds_file key then false
  else if key ∈ index.confirmed_empty_files then !previous.had_entity key
  else match index.file_snapshot_fingerprints.get? key with
    | some exact => decide (∀ fingerprint ∈ exact, settled fingerprint = true)
    | none =>
      fingerprint.all (fun fingerprint => settled fingerprint ||
        (previous.files.get? key).bind (fun entry => entry.last_snapshot_fingerprint) ==
          some fingerprint)

/-- A scanned file whose entry may be committed. -/
def is_safe_key (key : String) : Bool :=
  (index.files.get? key).any (fun entry =>
    index.is_safe previous accepted quarantined locally_held every_batch_sent key
      entry.last_snapshot_fingerprint)

/-- The entries that are kept, over all that were committed: a partial save deletes none. -/
def committable_files (safe : String → Bool) : SortedMap String ScanIndexEntry :=
  previous.files.extend (index.files.filterMap (fun key entry =>
    if safe key then some entry else previous.files.get? key))

/-- The committed values of a map, but those of the scan under a safe key. -/
def of_safe_keys {β : Type} (safe : String → Bool) (committed scanned : SortedMap String β) :
    SortedMap String β :=
  (committed.filterKeys (fun key => !safe key)).extend (scanned.filterKeys safe)

/-- The quarantines of this pass, and the committed ones that it did not settle. -/
def retained_quarantine (current : Finset String) : SortedMap String SnapshotQuarantineRecord :=
  let passed := quarantined.filterKeys (fun fingerprint => fingerprint ∉ locally_held)
  (previous.quarantined_snapshot_fingerprints.filterKeys (fun fingerprint =>
    decide (fingerprint ∈ current) &&
      !(decide (fingerprint ∈ accepted) && decide (fingerprint ∉ locally_held)) &&
      !passed.contains fingerprint)).extend passed

/-- The committed result before its entries are carried and settled. -/
def committable_maps : ScanIndex :=
  let safe := index.is_safe_key previous accepted quarantined locally_held every_batch_sent
  let file_snapshot_fingerprints :=
    of_safe_keys safe previous.file_snapshot_fingerprints index.file_snapshot_fingerprints
  let current := members file_snapshot_fingerprints
  let retained :=
    previous.retained_quarantine accepted quarantined locally_held current
  let opaque_incidence :=
    decide (∃ key ∈ index.decode_holds.files, ¬ file_snapshot_fingerprints.contains key)
  let accepted_rebuild_incidence :=
    (index.accepted_rebuild_incidence.extend previous.accepted_rebuild_incidence).filterKeys
      (fun key => !(safe key && !index.accepted_rebuild_incidence.contains key))
  { index with
    generation := previous.generation
    files := index.committable_files previous safe
    file_snapshot_fingerprints
    confirmed_empty_files :=
      previous.confirmed_empty_files.filter (fun key => safe key = false) ∪
        index.confirmed_empty_files.filter (fun key => safe key)
    snapshot_activity_at :=
      (previous.snapshot_activity_at.filterKeys (fun fingerprint => fingerprint ∈ current)).extend
        (index.snapshot_activity_at.filterKeys (fun fingerprint => fingerprint ∈ current))
    accepted_snapshot_fingerprints :=
      (previous.accepted_snapshot_fingerprints ∪
          accepted.filter (fun fingerprint => fingerprint ∉ locally_held)).filter
        (fun fingerprint => (opaque_incidence = true ∨
            fingerprint ∈ members accepted_rebuild_incidence ∨ fingerprint ∈ current) ∧
          retained.contains fingerprint = false)
    accepted_rebuild_incidence
    quarantined_snapshot_fingerprints := retained
    upload_ack_retirement_handoff := previous.upload_ack_retirement_handoff
    terminal_jsonl_dispositions :=
      of_safe_keys safe previous.terminal_jsonl_dispositions index.terminal_jsonl_dispositions }

/-- Every entry with what its working entry still owes. -/
def carry_working_entries (working : SortedMap String ScanIndexEntry) : ScanIndex :=
  { index with files := index.files.filterMap (fun key entry =>
      some ((working.get? key).elim entry entry.carry)) }

/-- Of two indexes whose persistence is available. -/
def committable_subset_for_upload : ScanIndex :=
  let maps := index.committable_maps previous accepted quarantined locally_held every_batch_sent
  ((maps.carry_working_entries index.files).retain_quarantined_fingerprints
      maps.quarantined_snapshot_fingerprints).reconcile_codex_recovery_settlement previous
    (accepted.filter (fun fingerprint => fingerprint ∉ locally_held))

end ScanIndex

end ottto_service.snapshots
