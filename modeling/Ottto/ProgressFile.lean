-- The file of the upload ledger (snapshot_sync.rs): what the loader accepts, what a save
-- writes over what is there, and the end of a cycle.
import Ottto.ProgressCycle

namespace ottto_service.snapshot_sync

open snapshots

/-! ## What the loader accepts -/

def pending_is_loadable (file : String) (pending : PendingCacheHeadFile) : Bool :=
  is_snapshot_fingerprint file && is_snapshot_fingerprint pending.source_file_fingerprint &&
    is_snapshot_fingerprint pending.group_fingerprint && !pending.entities.isEmpty &&
    pending.reselected_heads.entries.all (fun e =>
      is_snapshot_fingerprint e.2 && pending.entities.values.contains e.1) &&
    decide (∀ entity ∈ pending.settled_entities, pending.entities.contains entity) &&
    pending.entities.entries.all (fun e =>
      is_snapshot_fingerprint e.1 && is_snapshot_fingerprint e.2)

namespace Durable

variable (d : Durable)

/-- The checks of the loader. That of the cache states is not here. -/
def is_loadable (now : Nat) (expected_destination_namespace_hash : String) : Bool :=
  d.schema_version == SNAPSHOT_UPLOAD_PROGRESS_SCHEMA_VERSION &&
    d.destination_namespace_hash == expected_destination_namespace_hash &&
    is_snapshot_fingerprint d.destination_namespace_hash &&
    decide (∀ fp ∈ d.accepted_fingerprints, is_snapshot_fingerprint fp) &&
    d.accepted_body_witnesses.size == d.accepted_fingerprints.card &&
    d.accepted_body_witnesses.keys.all (fun fp =>
      is_snapshot_fingerprint fp && decide (fp ∈ d.accepted_fingerprints)) &&
    d.accepted_body_witnesses.values.all is_snapshot_fingerprint &&
    d.accepted_body_contexts.entries.all (fun e =>
      d.accepted_body_witnesses.contains e.1 && is_snapshot_fingerprint e.2) &&
    d.accepted_cache_heads.entries.all (fun e =>
      is_snapshot_fingerprint e.1 && is_snapshot_fingerprint e.2) &&
    d.pending_cache_heads.entries.all (fun e => pending_is_loadable e.1 e.2) &&
    d.quarantined_fingerprints.keys.all is_snapshot_fingerprint &&
    d.permanent_rejections.entries.all (fun e =>
      is_snapshot_fingerprint e.1 && is_snapshot_fingerprint e.2.body_witness) &&
    d.quarantined_fingerprints.values.all (record_is_loadable now)

end Durable

namespace SnapshotUploadProgress

/-- A record that the loader re-arms, unless the refusal of its body stands. -/
def rearmed (d : Durable) (active_quarantine_witness : SnapshotQuarantineWitness) (now : Nat)
    (fp : String) (record : SnapshotQuarantineRecord) : Option SnapshotQuarantineRecord :=
  if (d.permanent_rejections.get? fp).any
      (fun refusal => record.upload_body_witness == some refusal.body_witness) then none
  else terminal_contract_retry.rearm_record fp record (some active_quarantine_witness) now

/-- The ledger of a new cycle over what was saved. -/
def resume (d : Durable) (active_quarantine_witness : SnapshotQuarantineWitness) (now : Nat)
    (ack_recovery : Bool) : SnapshotUploadProgress :=
  let rearm := rearmed d active_quarantine_witness now
  { d with
    quarantined_fingerprints :=
      d.quarantined_fingerprints.filterMap (fun fp record => some ((rearm fp record).getD record))
    active_quarantine_witness
    ack_recovery
    terminal_contract_retry_pending_save :=
      d.quarantined_fingerprints.entries.any (fun e => (rearm e.1 e.2).isSome) }

/-- The ledger of the path, and what the path holds then: an invalid ledger is moved
away. -/
def load_with_recovery (disk : Option Durable) (expected_destination_namespace_hash : String)
    (active_quarantine_witness : SnapshotQuarantineWitness) (ack_recovery : Bool) (now : Nat) :
    SnapshotUploadProgress × Option Durable :=
  match disk with
  | none =>
    ({ new expected_destination_namespace_hash active_quarantine_witness with ack_recovery }, none)
  | some d =>
    if d.is_loadable now expected_destination_namespace_hash then
      (resume d active_quarantine_witness now ack_recovery, some d)
    else (new expected_destination_namespace_hash active_quarantine_witness, none)

variable (s : SnapshotUploadProgress)

/-! ## Saving -/

def same_writer (current : Durable) : Bool :=
  current.schema_version == SNAPSHOT_UPLOAD_PROGRESS_SCHEMA_VERSION &&
    current.generation == s.generation &&
    current.destination_namespace_hash == s.destination_namespace_hash

/-- The contexts of bodies that are accepted. -/
def retain_contexts : SnapshotUploadProgress :=
  { s with accepted_body_contexts :=
      s.accepted_body_contexts.filterKeys s.accepted_body_witnesses.contains }

def next_generation : Except String SnapshotUploadProgress :=
  if s.generation + 1 > u64_max then .error "snapshot upload progress generation overflow"
  else .ok { s with generation := s.generation + 1 }

/-- The ledger as the path then holds it. The same bytes claim no generation. -/
def save (disk : Option Durable) : Except String SnapshotUploadProgress :=
  match disk with
  | none =>
    if s.generation ≠ 0 then .error "snapshot upload progress disappeared concurrently"
    else s.retain_contexts.next_generation
  | some current =>
    if !s.same_writer current then .error "snapshot upload progress changed concurrently"
    else
      let merged := (s.retain_contexts.merge_index current.quarantined_fingerprints).1
      if merged.toDurable = current then .ok merged else merged.next_generation

/-- What a save that fails has already changed of the ledger. -/
def unsaved (disk : Option Durable) : SnapshotUploadProgress :=
  match disk with
  | none => s.retain_contexts
  | some current =>
    if !s.same_writer current then s.retain_contexts
    else (s.retain_contexts.merge_index current.quarantined_fingerprints).1

def is_clearable : Bool :=
  !s.ack_recovery && decide (s.accepted_fingerprints = ∅) && s.permanent_rejections.isEmpty &&
    s.accepted_cache_heads.isEmpty && s.pending_cache_heads.isEmpty && s.other_stores.isEmpty

/-- A ledger that holds no evidence leaves no file. -/
def clear (disk : Option Durable) : Except String (Option Durable) :=
  match disk with
  | none =>
    if s.generation = 0 then .ok none
    else .error "snapshot upload progress disappeared concurrently"
  | some current =>
    if s.same_writer current then .ok none
    else .error "snapshot upload progress changed concurrently"

def finish_cycle (disk : Option Durable) : Except String (SnapshotUploadProgress × Option Durable) :=
  if s.is_clearable then (s.clear disk).map (fun disk => (s, disk))
  else (s.finished.save disk).map (fun saved => (saved, some saved.toDurable))

end SnapshotUploadProgress

end ottto_service.snapshot_sync
