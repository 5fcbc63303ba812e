-- One page of an upload (snapshot_sync.rs): the bodies of a batch are sent, and each is
-- settled from the answer that names it.
import Ottto.AckAdmission
import Ottto.Packing

namespace ottto_service.snapshot_sync

open snapshots SnapshotUploadProgress

/-! ## Answers -/

def SNAPSHOT_ENTITY_ACK_CONTRACT : String := "snapshot_entity_ack:v1"

/-- An entity that the server stored, or left as it was. A basis says that this body
was not stored. -/
structure SnapshotEntityRef where
  source_session_id : String
  snapshot_fingerprint : String
  head_etag : Option String
  unchanged_basis : Option String

structure SnapshotEntityRejection where
  snapshot_fingerprint : String
  safe_reason : String
  permanent : Bool
  ordinary_retryable : Bool

structure SnapshotBatchResponse where
  accepted : Nat
  disabled : Bool
  disabled_reason : Option String
  entity_ack_contract : Option String
  accepted_entities : List SnapshotEntityRef
  unchanged_entities : List SnapshotEntityRef
  conflict_entities : List SnapshotEntityRef
  rejected_entities : List SnapshotEntityRejection

namespace SnapshotBatchResponse

variable (response : SnapshotBatchResponse)

def refs : List SnapshotEntityRef := response.accepted_entities ++ response.unchanged_entities

/-- The unchanged entities whose body the server did not store. -/
def not_stored : Finset String :=
  ((response.unchanged_entities.filter (fun r => r.unchanged_basis.isSome)).map
    SnapshotEntityRef.snapshot_fingerprint).toFinset

def settled : Finset String :=
  (response.refs.map SnapshotEntityRef.snapshot_fingerprint).toFinset \ response.not_stored

def conflicted : Finset String :=
  (response.conflict_entities.map SnapshotEntityRef.snapshot_fingerprint).toFinset

/-- The last rejection of an entity, as a map of them holds it. -/
def rejected (fingerprint : String) : Option SnapshotEntityRejection :=
  (response.rejected_entities.filter (fun r => r.snapshot_fingerprint == fingerprint)).getLast?

/-- What the page counts as conflicted: conflicts and refusals that may be tried again. -/
def conflicts : Nat :=
  response.conflict_entities.length +
    (response.rejected_entities.filter (fun r => !r.permanent)).length

def isolated : Nat :=
  (response.rejected_entities.filter (fun r => !r.permanent && r.ordinary_retryable)).length +
    response.conflict_entities.length

end SnapshotBatchResponse

/-! ## Failures -/

/-- The items of a request that an answer names, at least one. -/
structure NamedItems where
  indexes : List Nat
  some_named : indexes ≠ []

/-- The server asks for room. -/
structure UploadShed where
  status : Nat
  retry_after_ms : Option Nat
  is_original_identity_unavailable : Bool

/-- A failed attempt, as the loop asks about it. -/
structure UploadError where
  operation : String
  preflight_index : Option Nat := none
  named : Option NamedItems := none
  is_snapshot_batch_deadline : Bool := false
  shed : Option UploadShed := none
  transient_batch_status : Option Nat := none
  /-- Only a typed answer to the batch proves that it was sent. -/
  proves_send : Bool := false

/-- A failure of the process itself, which no arm of the loop takes up. -/
def local_state (operation : String) : UploadError := { operation }

/-- What one attempt meets: the clock, the answer of the upload, and the saves and stores
that fail. -/
structure Reply where
  now : Nat
  upload : Except UploadError SnapshotBatchResponse
  /-- The save of a replaced proof, before anything is sent. -/
  replaced_proof_save : Option UploadError := none
  /-- The save of a paced retry, once the send is proved. -/
  paced_retry_save : Option UploadError := none
  /-- The entity whose state cannot be stored. -/
  unstorable : String → Bool := fun _ => false
  /-- A challenge that the server answered, and that is owed a new answer now. -/
  answer_owed_now : String → Bool := fun _ => false
  checkpoint_fails : Bool := false
  /-- The save behind a failure that holds items. -/
  hold_save_fails : Bool := false
  failed_after_ms : Nat := 0
  jitter_ms : Nat := 0
  shed_backoff : Nat := 0

/-! ## The attempt -/

namespace SnapshotUploadProgress

variable (s : SnapshotUploadProgress)

/-- A leased body is about to be offered. -/
def note_reoffer (b : Body) : SnapshotUploadProgress :=
  if s.active_reason_reoffers.get? b.fingerprint = some b.body_witness then
    { s with attempted_reason_reoffers := insert b.fingerprint s.attempted_reason_reoffers }
  else s

/-- `Cycle::note_attempt` -/
def note_attempt (b : Body) : SnapshotUploadProgress :=
  if s.context_resend.is_catchup b.fingerprint then s
  else { s with context_resend := { s.context_resend with
    ordinary_pending := s.context_resend.ordinary_pending.erase b.fingerprint } }

/-- An ordinary retry whose send is proved. -/
def is_sent_retry (fingerprint : String) : Bool :=
  decide (fingerprint ∈ s.active_quarantine_retries) &&
    (s.quarantined_fingerprints.get? fingerprint).any
      (fun record => record.contract_retry_claims.isNone)

def pace_sent_retries (page : List Body) (now : Nat) : SnapshotUploadProgress :=
  page.foldl (fun s b =>
    if s.is_sent_retry b.fingerprint then s.pace_retry b.fingerprint now else s) s

/-- An accepted head stands until its session is accepted without one. -/
def record_heads (response : SnapshotBatchResponse) : SnapshotUploadProgress :=
  let key (r : SnapshotEntityRef) := hex_lower (Sha256.digest r.source_session_id.toUTF8.toList)
  let heads := response.accepted_entities.foldl (fun heads r =>
    if r.head_etag.isNone then heads.erase (key r) else heads) s.accepted_cache_heads
  { s with accepted_cache_heads := response.refs.foldl (fun heads r =>
      r.head_etag.elim heads (fun head => heads.insert (key r) head)) heads }

/-- A settled body, with the context of this cycle. -/
def settle_body (b : Body) : SnapshotUploadProgress :=
  let recorded := s.record_body b.fingerprint b.body_witness
  match recorded.context_resend.active with
  | none => recorded
  | some context => { recorded with
      accepted_body_contexts := recorded.accepted_body_contexts.insert b.fingerprint context }

/-- The body is held as it is: the server's head covers it already. -/
def hold_not_stored (b : Body) (now : Nat) : SnapshotUploadProgress :=
  let held := s.hold_unstored_body b.fingerprint b.body_witness now
  { held with context_resend := { held.context_resend with
    not_stored := insert b.fingerprint held.context_resend.not_stored } }

/-- The settled and the unstored bodies of the page, up to one that cannot be stored. -/
def settle_refs (response : SnapshotBatchResponse) (reply : Reply) :
    SnapshotUploadProgress → List Body → SnapshotUploadProgress × Option UploadError
  | s, [] => (s, none)
  | s, b :: page =>
    if b.fingerprint ∈ response.settled then
      let s := s.settle_body b
      if reply.unstorable b.fingerprint then (s, some (local_state "record stored state"))
      else settle_refs response reply s page
    else if b.fingerprint ∈ response.not_stored then
      settle_refs response reply (s.hold_not_stored b reply.now) page
    else settle_refs response reply s page

/-- When a conflicting body is offered again. -/
def conflict_retry_after (fingerprint : String) (reply : Reply) : Nat :=
  let contract_rearm := (s.quarantined_fingerprints.get? fingerprint).any
    (fun record => record.contract_retry_claims.isSome)
  if contract_rearm then quarantine_retry_after fingerprint reply.now
  else if reply.answer_owed_now fingerprint then reply.now
  else jittered_retry_after fingerprint reply.now SNAPSHOT_CONFLICT_PROBE_SECONDS

/-- A refused or conflicting body of the page. -/
def settle_refusal (response : SnapshotBatchResponse) (reply : Reply) (b : Body) :
    SnapshotUploadProgress :=
  match response.rejected b.fingerprint with
  | some rejection =>
    if rejection.permanent then
      s.quarantine_permanent_body b.fingerprint b.body_witness rejection.safe_reason reply.now
    else s.quarantine_retryable_body b.fingerprint b.body_witness
      (quarantine_retry_after b.fingerprint reply.now) reply.now
  | none =>
    if b.fingerprint ∈ response.conflicted then
      s.quarantine_retryable_body b.fingerprint b.body_witness
        (s.conflict_retry_after b.fingerprint reply) reply.now
    else s

/-- A response without a contract acknowledges the whole page by its count. -/
def settle_counted (reply : Reply) :
    SnapshotUploadProgress → List Body → SnapshotUploadProgress × Option UploadError
  | s, [] => (s, none)
  | s, b :: page =>
    let s := s.record_body b.fingerprint b.body_witness
    if reply.unstorable b.fingerprint then (s, some (local_state "record cache state"))
    else settle_counted reply s page

/-- What an entity response makes of the page. -/
def settle_entities (response : SnapshotBatchResponse) (reply : Reply) (page : List Body) :
    SnapshotUploadProgress × Option UploadError :=
  match settle_refs response reply (s.record_heads response) page with
  | (settled, some error) => (settled, some error)
  | (settled, none) =>
    (page.foldl (fun s b => s.settle_refusal response reply b) settled, none)

end SnapshotUploadProgress

inductive SnapshotPageOutcome
  | Settled (conflicted isolated : Nat)
  | Disabled (reason : Option String)

namespace AckLedger

variable (s : AckLedger)

def with_progress (progress : SnapshotUploadProgress) : AckLedger := { s with progress }

/-- What is done before the upload callback, and the ledger that the callback finds. -/
def before_upload (page : List Body) (reply : Reply) : AckLedger × Option UploadError :=
  let new_acks := (page.filter (fun b => decide (b.fingerprint ∉ s.accepted))).length
  match s.admit_ack_batch new_acks with
  | .error _ => (s, some (local_state "kind=ack_settlement_required"))
  | .ok _ =>
    let noted := page.foldl note_attempt
      (page.foldl note_reoffer s.progress)
    (s.with_progress noted, reply.replaced_proof_save)

/-- What an answer makes of the page. -/
def settle_response (page : List Body) (response : SnapshotBatchResponse) (reply : Reply) :
    AckLedger × Except UploadError SnapshotPageOutcome :=
  if response.disabled then (s, .ok (.Disabled response.disabled_reason))
  else if response.entity_ack_contract.any (fun c => c != SNAPSHOT_ENTITY_ACK_CONTRACT) then
    (s, .error (local_state "snapshot response uses an unsupported entity ACK contract"))
  else if response.entity_ack_contract.isNone ∧ response.accepted ≠ page.length then
    (s, .error (local_state "snapshot batch response rejected"))
  else
    let (settled, failed) :=
      if response.entity_ack_contract.isSome then s.progress.settle_entities response reply page
      else s.progress.settle_counted reply page
    match failed with
    | some error => (s.with_progress settled, .error error)
    | none =>
      if reply.checkpoint_fails then
        (s.with_progress settled, .error (local_state "save upload checkpoint"))
      else if response.entity_ack_contract.isSome then
        (s.with_progress settled, .ok (.Settled response.conflicts response.isolated))
      else (s.with_progress settled, .ok (.Settled 0 0))

/-- What follows the upload callback: an ordinary retry is paced once its send is proved. -/
def after_upload (page : List Body) (reply : Reply) :
    AckLedger × Except UploadError SnapshotPageOutcome :=
  let proves_send := match reply.upload with
    | .ok _ => true
    | .error error => error.proves_send
  let paced := if proves_send then
      s.with_progress (s.progress.pace_sent_retries page reply.now)
    else s
  let retried := proves_send && page.any (fun b => s.progress.is_sent_retry b.fingerprint)
  match (if retried then reply.paced_retry_save else none) with
  | some error => (paced, .error error)
  | none =>
    match reply.upload with
    | .error error => (paced, .error error)
    | .ok response => paced.settle_response page response reply

/-- One page: whether the callback was reached, the ledger, and the outcome. -/
def attempt_snapshot_page (page : List Body) (reply : Reply) :
    Bool × AckLedger × Except UploadError SnapshotPageOutcome :=
  match s.before_upload page reply with
  | (noted, some error) => (false, noted, .error error)
  | (noted, none) => (true, noted.after_upload page reply)

end AckLedger

end ottto_service.snapshot_sync
