-- The upload ledger (snapshot_sync.rs, snapshot_sync/reason_reoffer.rs, stale_owed.rs):
-- which bodies the server accepted, refused for good, or still owes an answer, and what
-- one answer changes of it.
import Ottto.UploadIndex

/-! ## The re-offer of a refusal -/

namespace ottto_service.reason_reoffer

def ORIGINAL_PAIR_CANDIDATE_UNPROVED : String := "original_pair_candidate_unproved"
def REOFFER_INTERVAL_SECONDS : Nat := 86400
def REOFFER_CLOCK_TOLERANCE_SECONDS : Nat := 600

inductive RefusalReoffer where
  | OriginalPair (retry_after_unix_seconds : Nat)
  | LegacyOther (retry_after_unix_seconds : Nat)
  | Classified
deriving DecidableEq

def RefusalReoffer.retry_after : RefusalReoffer → Option Nat
  | .OriginalPair after => some after
  | .LegacyOther after => some after
  | .Classified => none

def RefusalReoffer.with_retry_after (retry_after : Nat) : RefusalReoffer → RefusalReoffer
  | .OriginalPair _ => .OriginalPair retry_after
  | .LegacyOther _ => .LegacyOther retry_after
  | .Classified => .Classified

def next_offer_after (observed_at : Nat) : Nat := u64_saturating_add observed_at REOFFER_INTERVAL_SECONDS

def latest_valid_deadline (now : Nat) : Nat :=
  u64_saturating_add (u64_saturating_add now REOFFER_INTERVAL_SECONDS) REOFFER_CLOCK_TOLERANCE_SECONDS

end ottto_service.reason_reoffer

namespace ottto_service.upload_receipts

inductive RejectedUsageReason where
  | UsageAccountingAuthorityDowngrade
  | ReservedSessionIdentitySeparator
  | OccurredAtBeyondFutureHorizon
  | HourBucketCountAboveCap
  | DivergentDuplicateLogicalSession
  | AcceptedLogTransactionCap
  | OccurredAtBeyondWriteFenceFuture
  | OccurredAtBeyondJournalRetention
  | BodyExceedsMaxBytes
  | OccurredAtRequiresTimezone
  | OccurredAtUtcNormalizationOutOfRange
  | AcceptedLogStaleOlderUpload
  | Other
deriving DecidableEq

def RejectedUsageReason.from_wire : String → RejectedUsageReason
  | "usage_accounting_authority_downgrade" => .UsageAccountingAuthorityDowngrade
  | "reserved_session_identity_separator" => .ReservedSessionIdentitySeparator
  | "occurred_at_beyond_future_horizon" => .OccurredAtBeyondFutureHorizon
  | "hour_bucket_count_above_cap" => .HourBucketCountAboveCap
  | "divergent_duplicate_logical_session" => .DivergentDuplicateLogicalSession
  | "accepted_log_transaction_cap" => .AcceptedLogTransactionCap
  | "accepted_log_stale_older_upload" => .AcceptedLogStaleOlderUpload
  | "occurred_at_beyond_write_fence_future" => .OccurredAtBeyondWriteFenceFuture
  | "occurred_at_beyond_journal_retention" => .OccurredAtBeyondJournalRetention
  | "body_exceeds_max_bytes" => .BodyExceedsMaxBytes
  | "occurred_at_requires_timezone" => .OccurredAtRequiresTimezone
  | "occurred_at_utc_normalization_out_of_range" => .OccurredAtUtcNormalizationOutOfRange
  | _ => .Other

end ottto_service.upload_receipts

namespace ottto_service.snapshot_sync

open snapshots reason_reoffer upload_receipts

def SNAPSHOT_UPLOAD_PROGRESS_SCHEMA_VERSION : Nat := 3
def SNAPSHOT_BATCH_LIMIT : Nat := 50
def SNAPSHOT_QUARANTINE_RETRY_LIMIT_PER_CYCLE : Nat := SNAPSHOT_BATCH_LIMIT
def SNAPSHOT_CONFLICT_PROBE_SECONDS : Nat := 30 * 60
def MAX_HONOURED_RETRY_AFTER : Nat := 30 * 60

/-! ## Refusals -/

/-- What a fresh refusal records of its usage. -/
structure Exposure where
  first_held_unix : Option Nat
deriving DecidableEq

/-- One refused revision of an entity. -/
structure Refusal where
  body_witness : String
  reason : RejectedUsageReason
  reoffer : Option RefusalReoffer
  exposure : Option Exposure
deriving DecidableEq

/-- The refusal of an entity, and the older revisions that stay owed with it. A revision
has none of its own. -/
structure PermanentSnapshotRejection extends Refusal where
  revisions : SortedMap String Refusal
deriving DecidableEq

namespace Refusal

variable (s : Refusal)

def is_stale : Bool := s.reason == .AcceptedLogStaleOlderUpload

/-- Only a fresh refusal has an exposure: a legacy record stays owed. -/
def owed : Bool := s.is_stale && s.exposure.isNone

end Refusal

namespace PermanentSnapshotRejection

variable (s : PermanentSnapshotRejection)

def has_stale_debt : Bool := s.owed || s.revisions.values.any Refusal.owed

def refused_body (body : String) : Bool := s.body_witness == body || s.revisions.contains body

end PermanentSnapshotRejection

/-! ## The ledger -/

/-- A file whose cache evidence waits for the accepted head of its sessions. -/
structure PendingCacheHeadFile where
  source_file_fingerprint : String
  group_fingerprint : String
  entities : SortedMap String String
  reselected_heads : SortedMap String String := .empty
  settled_entities : Finset String := ∅
deriving DecidableEq

/-- The context of this cycle's uploads, and which entities owe it a stamp. -/
structure Cycle where
  active : Option String := none
  candidates : Finset String := ∅
  stamped : Finset String := ∅
  resends : SortedMap String Bool := .empty
  not_stored : Finset String := ∅
  remaining_bytes : Nat := 0
  ordinary_pending : Finset String := ∅
  deferred : Finset String := ∅
  bootstrap_blocks_catchup : Bool := false

namespace Cycle

variable (s : Cycle)

def is_candidate (entity : String) : Bool := decide (entity ∈ s.candidates)

def requires_resend (entity : String) (stamps : SortedMap String String) : Bool :=
  s.is_candidate entity && decide (entity ∉ s.stamped) &&
    s.active.any (fun active => stamps.get? entity != some active)

def is_catchup (entity : String) : Bool := s.resends.get? entity == some true

end Cycle

/-- What a save writes. The stores of cache states, identity buckets and head challenges
stand together as the bytes of those that are not empty. -/
structure Durable where
  schema_version : Nat := SNAPSHOT_UPLOAD_PROGRESS_SCHEMA_VERSION
  generation : Nat := 0
  destination_namespace_hash : String
  historical_replay_generation : Option String := none
  accepted_fingerprints : Finset String := ∅
  accepted_body_witnesses : SortedMap String String := .empty
  accepted_body_contexts : SortedMap String String := .empty
  accepted_cache_heads : SortedMap String String := .empty
  pending_cache_heads : SortedMap String PendingCacheHeadFile := .empty
  quarantined_fingerprints : SortedMap String SnapshotQuarantineRecord := .empty
  permanent_rejections : SortedMap String PermanentSnapshotRejection := .empty
  other_stores : List UInt8 := []
deriving DecidableEq

/-- The ledger of a running cycle. -/
structure SnapshotUploadProgress extends Durable where
  active_quarantine_witness : SnapshotQuarantineWitness
  active_quarantine_retries : Finset String := ∅
  active_reason_reoffers : SortedMap String String := .empty
  attempted_reason_reoffers : Finset String := ∅
  legacy_selected : Nat := 0
  terminal_contract_retry_pending_save : Bool := false
  context_resend : Cycle := {}
  ack_recovery : Bool := false

namespace SnapshotUploadProgress

def new (destination_namespace_hash : String)
    (active_quarantine_witness : SnapshotQuarantineWitness) : SnapshotUploadProgress :=
  { destination_namespace_hash, active_quarantine_witness }

variable (s : SnapshotUploadProgress)

/-! ## Refused bodies -/

def refused_body (fp body : String) : Bool :=
  (s.permanent_rejections.get? fp).any (fun r => r.refused_body body)

def owed_stale_body (fp body : String) : Bool :=
  (s.permanent_rejections.get? fp).any (fun r =>
    (r.owed && r.body_witness == body) || (r.revisions.get? body).any Refusal.owed)

/-- An entity that owes an answer for a stale revision. -/
def has_stale_debt (fp : String) : Bool :=
  (s.permanent_rejections.get? fp).any PermanentSnapshotRejection.has_stale_debt

/-- The revisions that stay with the entity's next refusal, `next`. -/
def retained_revisions (fp next : String) : SortedMap String Refusal :=
  match s.permanent_rejections.get? fp with
  | none => .empty
  | some old =>
    let revisions := if old.owed ∧ old.body_witness ≠ next then
        old.revisions.insert old.body_witness old.toRefusal
      else old.revisions
    revisions.erase next

/-- A body that is not sent: refused without its own lease, accepted, or quarantined. -/
def contains_body (fingerprint body_witness : String) : Bool :=
  if s.refused_body fingerprint body_witness then
    s.owed_stale_body fingerprint body_witness ||
      s.active_reason_reoffers.get? fingerprint != some body_witness
  else if fingerprint ∈ s.active_quarantine_retries then false
  else
    (s.accepted_body_witnesses.get? fingerprint == some body_witness &&
        !s.context_resend.requires_resend fingerprint s.accepted_body_contexts) ||
      (s.quarantined_fingerprints.get? fingerprint).any
        (fun record => record.upload_body_witness == some body_witness)

/-! ## Answers -/

/-- What is left of a refusal once another body, or its own, is accepted. -/
def refusal_after_ack (refusal : PermanentSnapshotRejection) (body_witness : String) :
    Option PermanentSnapshotRejection :=
  let revisions := refusal.revisions.erase body_witness
  if refusal.body_witness = body_witness then
    match revisions.entries with
    | [] => none
    | (body, remaining) :: _ =>
      some { toRefusal := remaining, revisions := revisions.erase body }
  else if refusal.owed ∨ ¬ revisions.isEmpty then some { refusal with revisions }
  else none

def put_refusal (refusals : SortedMap String PermanentSnapshotRejection) (fingerprint : String)
    (refusal : Option PermanentSnapshotRejection) : SortedMap String PermanentSnapshotRejection :=
  match refusal with
  | some refusal => refusals.insert fingerprint refusal
  | none => refusals.erase fingerprint

def record_body (fingerprint body_witness : String) : SnapshotUploadProgress :=
  { s with
    accepted_body_contexts := s.accepted_body_contexts.erase fingerprint
    permanent_rejections := put_refusal s.permanent_rejections fingerprint
      ((s.permanent_rejections.get? fingerprint).bind
        (fun refusal => refusal_after_ack refusal body_witness))
    accepted_fingerprints := insert fingerprint s.accepted_fingerprints
    accepted_body_witnesses := s.accepted_body_witnesses.insert fingerprint body_witness
    quarantined_fingerprints := s.quarantined_fingerprints.erase fingerprint
    active_quarantine_retries := s.active_quarantine_retries.erase fingerprint
    active_reason_reoffers := s.active_reason_reoffers.erase fingerprint }

/-- The record whose budget a quarantine of this body goes on with. -/
def quarantine_budget (fingerprint body_witness : String) : Option SnapshotQuarantineRecord :=
  (s.quarantined_fingerprints.get? fingerprint).filter (fun record =>
    record.upload_body_witness == some body_witness ||
      (record.upload_body_witness.isNone && record.contract_retry_claims.isSome))

/-- The record of a body that failed once more. -/
def quarantine_record (fingerprint body_witness : String) (now : Nat) : SnapshotQuarantineRecord :=
  let budget := s.quarantine_budget fingerprint body_witness
  let existing := budget.filter
    (fun record => record.witness.same_retry_contract s.active_quarantine_witness)
  let current := terminal_contract_retry.current_contract
  let failed_reconstruction_count :=
    -- A refused stale body owes an answer: it spends no reconstruction budget.
    if s.owed_stale_body fingerprint body_witness then 1
    else min (existing.elim 1 (fun record => record.failed_reconstruction_count + 1))
      MAX_SNAPSHOT_RECONSTRUCTION_FAILURES
  let exhausted := s.owed_stale_body fingerprint body_witness = false ∧
    failed_reconstruction_count = MAX_SNAPSHOT_RECONSTRUCTION_FAILURES
  { contract_retry_claims := budget.bind (fun record => record.contract_retry_claims)
    reconstruction_contract :=
      budget.elim current (fun record => max record.reconstruction_contract current)
    witness := s.active_quarantine_witness
    retry_after_unix_seconds := if exhausted then 0 else quarantine_retry_after fingerprint now
    upload_body_witness := some body_witness
    failed_reconstruction_count
    disposition := if exhausted then .UnprovenTerminal else .RetryPending }

/-- The entity is quarantined under this record, and no longer accepted. -/
def quarantine_as (fingerprint : String) (record : SnapshotQuarantineRecord) :
    SnapshotUploadProgress :=
  { s with
    quarantined_fingerprints := s.quarantined_fingerprints.insert fingerprint record
    accepted_fingerprints := s.accepted_fingerprints.erase fingerprint
    accepted_body_witnesses := s.accepted_body_witnesses.erase fingerprint
    accepted_body_contexts := s.accepted_body_contexts.erase fingerprint
    active_quarantine_retries := s.active_quarantine_retries.erase fingerprint }

def quarantine_body (fingerprint body_witness : String) (now : Nat) : SnapshotUploadProgress :=
  s.quarantine_as fingerprint (s.quarantine_record fingerprint body_witness now)

/-- Each refusal for the same reason restarts the clock; any other `other` answer is the
server's classification, and is never offered again. -/
def reoffer_of_reason (reason : String) (now : Nat) : Option RefusalReoffer :=
  if reason = ORIGINAL_PAIR_CANDIDATE_UNPROVED then some (.OriginalPair (next_offer_after now))
  else if RejectedUsageReason.from_wire reason = .Other then some .Classified
  else none

def quarantine_permanent_body (fingerprint body_witness reason : String) (now : Nat) :
    SnapshotUploadProgress :=
  let record := (s.quarantine_record fingerprint body_witness now).terminal
  { s.quarantine_as fingerprint record with
    permanent_rejections := s.permanent_rejections.insert fingerprint
      { body_witness
        reason := .from_wire reason
        reoffer := reoffer_of_reason reason now
        exposure := some { first_held_unix := some now }
        revisions := s.retained_revisions fingerprint body_witness }
    active_reason_reoffers := s.active_reason_reoffers.erase fingerprint }

/-- The record of a body that the server did not store. -/
def unstored_record (stale_owed : Bool) (fingerprint : String) (record : SnapshotQuarantineRecord)
    (now : Nat) : SnapshotQuarantineRecord :=
  if stale_owed then { record with disposition := .RetryPending, contract_retry_claims := none }
  else if s.context_resend.is_candidate fingerprint then
    if record.disposition = .RetryPending then
      -- 6 hours, then 12.
      let delay := SNAPSHOT_QUARANTINE_RETRY_SECONDS *
        2 ^ (min (record.failed_reconstruction_count - 1) 1)
      { record with retry_after_unix_seconds := u64_saturating_add now delay }
    else record
  else record.terminal

/-- A validated unchanged answer replaces the verdict of the refusal of this body. -/
def without_verdict (fingerprint body_witness : String) : SnapshotUploadProgress :=
  let refused := (s.permanent_rejections.get? fingerprint).any
    (fun refusal => refusal.body_witness == body_witness)
  { s with
    permanent_rejections := if !s.owed_stale_body fingerprint body_witness && refused then
        s.permanent_rejections.erase fingerprint
      else s.permanent_rejections
    active_reason_reoffers := s.active_reason_reoffers.erase fingerprint }

def hold_unstored_body (fingerprint body_witness : String) (now : Nat) : SnapshotUploadProgress :=
  let stale_owed := s.owed_stale_body fingerprint body_witness
  let answered := s.without_verdict fingerprint body_witness
  let record := answered.quarantine_record fingerprint body_witness now
  answered.quarantine_as fingerprint (s.unstored_record stale_owed fingerprint record now)

def quarantine_retryable_body (fingerprint body_witness : String)
    (retry_after_unix_seconds now : Nat) : SnapshotUploadProgress :=
  let answered :=
    { s with active_reason_reoffers := s.active_reason_reoffers.erase fingerprint }
  let record := answered.quarantine_record fingerprint body_witness now
  let failures := if record.contract_retry_claims.isSome then MAX_SNAPSHOT_RECONSTRUCTION_FAILURES - 1
    else 1
  answered.quarantine_as fingerprint
    (terminal_contract_retry.exhaust (record.retry failures retry_after_unix_seconds)).1

/-! ## Quarantines over a cycle -/

/-- Re-witnessed, with the ordinary backoff, without spending a failure. -/
def paced (fingerprint : String) (record : SnapshotQuarantineRecord) (now : Nat) :
    SnapshotQuarantineRecord :=
  { record with
    witness := s.active_quarantine_witness
    retry_after_unix_seconds := quarantine_retry_after fingerprint now }

def pace_retry (fingerprint : String) (now : Nat) : SnapshotUploadProgress :=
  match s.quarantined_fingerprints.get? fingerprint with
  | none => s
  | some record => { s with
      quarantined_fingerprints :=
        s.quarantined_fingerprints.insert fingerprint (s.paced fingerprint record now) }

/-- A retry that no offered item and no queued file takes up. -/
def is_held_retry (offered : Finset String) (index : ScanIndex) (fingerprint : String) : Bool :=
  decide (fingerprint ∉ offered) && !index.quarantine_retry_is_queued fingerprint &&
    (s.quarantined_fingerprints.get? fingerprint).any (fun record =>
      record.contract_retry_claims.isNone && record.disposition == .RetryPending)

/-- Retries that the source holds are paced, and keep no lease. -/
def defer_held_quarantine_retries (offered : Finset String) (index : ScanIndex) (now : Nat) :
    SnapshotUploadProgress :=
  { s with
    quarantined_fingerprints := s.quarantined_fingerprints.filterMap (fun fp record =>
      some (if fp ∈ s.active_quarantine_retries ∧ s.is_held_retry offered index fp then
        s.paced fp record now else record))
    active_quarantine_retries :=
      s.active_quarantine_retries.filter (fun fp => ¬ s.is_held_retry offered index fp) }

/-- A record whose body is no longer current. -/
def is_superseded (current : Finset String) (fingerprint : String)
    (record : SnapshotQuarantineRecord) : Bool :=
  decide (fingerprint ∉ current) && !s.has_stale_debt fingerprint &&
    record.disposition != .SupersededTerminal

def retain_current_quarantines (current : Finset String) : SnapshotUploadProgress :=
  { s with
    quarantined_fingerprints := s.quarantined_fingerprints.filterMap (fun fp record =>
      some (if s.is_superseded current fp record then record.superseded else record))
    active_quarantine_retries := s.active_quarantine_retries.filter (fun fp => fp ∈ current) }

/-- A new replay re-arms every current entity once. -/
def prepare_historical_replay (generation : String) : SnapshotUploadProgress :=
  if s.historical_replay_generation = some generation then s
  else { s with
    historical_replay_generation := some generation
    accepted_fingerprints := ∅
    accepted_body_witnesses := .empty
    accepted_body_contexts := .empty
    quarantined_fingerprints := .empty
    pending_cache_heads := s.pending_cache_heads.mapValues (fun pending =>
      { pending with settled_entities := ∅, reselected_heads := .empty }) }

/-- A conflict that is newer than the refusal it stands beside. -/
def outlives_cycle (fingerprint : String) (record : SnapshotQuarantineRecord) : Bool :=
  record.disposition == .RetryPending &&
    (s.permanent_rejections.get? fingerprint).any (fun refusal =>
      record.upload_body_witness == some refusal.body_witness)

/-- What the end of a cycle saves. -/
def finished : SnapshotUploadProgress :=
  { s with
    quarantined_fingerprints := s.quarantined_fingerprints.retain s.outlives_cycle
    active_quarantine_retries := ∅
    active_reason_reoffers := .empty }

end SnapshotUploadProgress

end ottto_service.snapshot_sync
