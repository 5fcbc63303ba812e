-- The batch loop of an upload (snapshot_sync.rs): batches come back from four kinds of
-- failure, each in a way that leaves less to do, so that no server keeps it going.
import Ottto.PackingLaws
import Ottto.UploadPage
import Ottto.Json

namespace ottto_service.snapshot_sync

open serde_json (Value)
open snapshots

def SNAPSHOT_ADAPTIVE_SPLIT_LIMIT : Nat := 6
def SNAPSHOT_ADAPTIVE_ATTEMPT_LIMIT : Nat := SNAPSHOT_BATCH_LIMIT + 4
def SNAPSHOT_INPLACE_RETRY_LIMIT : Nat := 2
def SNAPSHOT_INPLACE_RETRY_MAX_WAIT : Nat := 5000
def SNAPSHOT_INPLACE_RETRY_WAIT_BUDGET : Nat := 10000
def SNAPSHOT_INPLACE_RETRY_FAST_FAILURE : Nat := 15000
def SNAPSHOT_INPLACE_RETRY_SERVER_ERROR_WAIT : Nat := 2000
def SNAPSHOT_INPLACE_RETRY_MIN_WAIT : Nat := 250

/-! ## Named items -/

/-! ## The loop -/

/-- In-place resends spent by one source page, and the time waited for them. -/
structure InplaceRetryBudget where
  resends : Nat := 0
  waited : Nat := 0

/-- The wait before a failed batch is sent again in place, with its status. -/
def transient_inplace_retry_wait (error : UploadError) (reply : Reply) : Option (Nat × Nat) :=
  let base : Option (Nat × Nat) := match error.shed with
    | some shed =>
      if shed.is_original_identity_unavailable then none
      else (shed.retry_after_ms.filter (fun wait =>
        decide (wait ≤ SNAPSHOT_INPLACE_RETRY_MAX_WAIT))).map (fun wait => (shed.status, wait))
    | none => error.transient_batch_status.map
        (fun status => (status, SNAPSHOT_INPLACE_RETRY_SERVER_ERROR_WAIT))
  base.map (fun (status, base) =>
    (status, min (max base SNAPSHOT_INPLACE_RETRY_MIN_WAIT + reply.jitter_ms)
      SNAPSHOT_INPLACE_RETRY_MAX_WAIT))

def InplaceRetryBudget.admit (budget : InplaceRetryBudget) (error : UploadError) (reply : Reply) :
    Option (Nat × Nat) :=
  if SNAPSHOT_INPLACE_RETRY_LIMIT ≤ budget.resends ∨
      SNAPSHOT_INPLACE_RETRY_FAST_FAILURE ≤ reply.failed_after_ms then none
  else (transient_inplace_retry_wait error reply).filter (fun retry =>
    decide (budget.waited + retry.2 ≤ SNAPSHOT_INPLACE_RETRY_WAIT_BUDGET))

/-- The items of this page that the failure names, unless one falls outside. -/
def server_named_items (error : UploadError) (page : List Body) : Option (List Body) :=
  error.named.bind (fun named => named.indexes.mapM (fun index => page[index]?))

inductive ResumableUploadResult
  | Completed
  | Rejected (count : Nat)
  | Deferred (count isolated : Nat)
  | Disabled (reason : Option String)
  | Shed (retry_after_ms : Option Nat)
  | Failed (operation : String)

/-- A call of the upload callback: what it sent, and what of it is settled, held or
quarantined when its answer has been taken in. -/
structure Call where
  sent : List String
  closed : List String

/-- The variables of the loop, and the calls that it made. -/
structure UploadLoop where
  items : List Body
  ledger : AckLedger
  batches : List (List Body × Bool)
  inplace_retry : InplaceRetryBudget
  adaptive_splits : Nat := 0
  adaptive_attempts : Nat := 0
  conflicted_entities : Nat := 0
  isolated_entities : Nat := 0
  calls : List Call := []

namespace UploadLoop

variable (s : UploadLoop)

def fingerprints_of (page : List Body) : List String := page.map Body.fingerprint

def contains (b : Body) : Bool := s.ledger.progress.contains_body b.fingerprint b.body_witness

/-- The batch goes back to the front, if anything is left of it. -/
def push_front (page : List Body) (adaptive : Bool) : UploadLoop :=
  if page.isEmpty then s else { s with batches := (page, adaptive) :: s.batches }

/-- When an item that the failure names is offered again. -/
def held_retry_after (error : UploadError) (reply : Reply) (b : Body) : Nat :=
  if error.shed.isSome then u64_saturating_add reply.now reply.shed_backoff
  else quarantine_retry_after b.fingerprint reply.now

/-- Notes what the call that was just made has closed. -/
def close (called : Bool) (page closed : List Body) : UploadLoop :=
  if called then
    { s with calls := s.calls ++ [⟨fingerprints_of page, fingerprints_of closed⟩] }
  else s

/-- A local preflight names the one item that cannot be sent: its siblings are. -/
def quarantine_preflight (called : Bool) (page : List Body) (index : Nat) (reply : Reply) :
    UploadLoop × Option ResumableUploadResult :=
  match page[index]? with
  | none =>
    (s.close called page [], some (.Failed "local snapshot preflight index was out of bounds"))
  | some poison =>
    if reply.hold_save_fails then
      (s.close called page [], some (.Failed "save local preflight quarantine"))
    else
      let ledger := s.ledger.with_progress
        (s.ledger.progress.quarantine_body poison.fingerprint poison.body_witness reply.now)
      (({ s with ledger }.push_front (page.eraseIdx index) false).close called page [poison], none)

/-- Named items are held; their siblings are sent again. -/
def hold_named (called : Bool) (page held : List Body) (error : UploadError) (reply : Reply) :
    UploadLoop × Option ResumableUploadResult :=
  if reply.hold_save_fails then
    (s.close called page [], some (.Failed (if error.shed.isSome then
      "save identity deferral quarantine" else "save validation rejection quarantine")))
  else
    let progress := held.dedup.foldl (fun progress b =>
      progress.quarantine_retryable_body b.fingerprint b.body_witness
        (held_retry_after error reply b) reply.now) s.ledger.progress
    let isolated := if error.shed.any (fun shed => shed.status == 503) then held.dedup.length else 0
    let next := { s with
      ledger := s.ledger.with_progress progress
      conflicted_entities := s.conflicted_entities + held.dedup.length
      isolated_entities := s.isolated_entities + isolated }
    ((next.push_front (page.filter (fun b => decide (b ∉ held))) false).close called page held, none)

/-- A batch that met a deadline goes on as two halves. -/
def bisect (called : Bool) (page : List Body) : UploadLoop :=
  let midpoint := page.length / 2
  { s with
    adaptive_splits := s.adaptive_splits + 1
    batches := (page.take midpoint, true) :: (page.drop midpoint, true) :: s.batches }.close
      called page []

/-- A short transient failure: the same page again, after a wait. -/
def resend (called : Bool) (page : List Body) (adaptive : Bool) (wait : Nat) : UploadLoop :=
  { s with
    inplace_retry := ⟨s.inplace_retry.resends + 1, s.inplace_retry.waited + wait⟩
    batches := (page, adaptive) :: s.batches }.close called page []

/-- The arms of the match on a failed attempt, in their order. -/
def take_failure (called : Bool) (page : List Body) (adaptive : Bool) (error : UploadError)
    (reply : Reply) : UploadLoop × Option ResumableUploadResult :=
  match error.preflight_index with
  | some index => s.quarantine_preflight called page index reply
  | none =>
    match server_named_items error page with
    | some held => s.hold_named called page held error reply
    | none =>
      if 1 < page.length ∧ s.adaptive_splits < SNAPSHOT_ADAPTIVE_SPLIT_LIMIT ∧
          error.is_snapshot_batch_deadline then (s.bisect called page, none)
      else match s.inplace_retry.admit error reply with
        | some (_, wait) => (s.resend called page adaptive wait, none)
        | none =>
          match error.shed with
          | some shed => (s.close called page [], some (.Shed shed.retry_after_ms))
          | none => (s.close called page [], some (.Failed error.operation))

/-- The entities of the input whose exact body is refused for good. -/
def permanent_rejected : Nat :=
  ((s.items.filter (fun b => (s.ledger.progress.permanent_rejections.get? b.fingerprint).any
    (fun record => record.body_witness == b.body_witness))).map Body.fingerprint).toFinset.card

/-- What the loop returns once no batch is left. -/
def finished : ResumableUploadResult :=
  if 0 < s.conflicted_entities then .Deferred s.conflicted_entities s.isolated_entities
  else if 0 < s.permanent_rejected then .Rejected s.permanent_rejected
  else .Completed

/-- One turn of the loop. -/
def turn (reply : Reply) : UploadLoop × Option ResumableUploadResult :=
  match s.batches with
  | [] => (s, some s.finished)
  | (popped, adaptive) :: batches =>
    let s := { s with batches }
    -- A duplicate fingerprint was checkpointed by an earlier batch.
    let page := popped.filter (fun b => !s.contains b)
    if page.isEmpty then (s, none)
    else if adaptive ∧ SNAPSHOT_ADAPTIVE_ATTEMPT_LIMIT ≤ s.adaptive_attempts then
      (s, some (.Failed "snapshot adaptive upload attempt limit reached"))
    else
      let (called, ledger, outcome) := s.ledger.attempt_snapshot_page page reply
      let s := { s with
        ledger
        adaptive_attempts := s.adaptive_attempts + if adaptive then 1 else 0 }
      match outcome with
      | .ok (.Disabled reason) => (s.close called page [], some (.Disabled reason))
      | .ok (.Settled conflicted isolated) =>
        ({ s with
          conflicted_entities := s.conflicted_entities + conflicted
          isolated_entities := s.isolated_entities + isolated }.close called page page, none)
      | .error error => s.take_failure called page adaptive error reply

/-- The loop against a server that gives the replies in their order. -/
def run (replies : Nat → Reply) : Nat → Nat → UploadLoop → Option (UploadLoop × ResumableUploadResult)
  | 0, _, _ => none
  | fuel + 1, turns, s =>
    match s.turn (replies turns) with
    | (s, some result) => some (s, result)
    | (s, none) => run replies fuel (turns + 1) s

end UploadLoop

/-! ## The start of an upload -/

namespace SnapshotUploadProgress

variable (s : SnapshotUploadProgress)

/-- The body that the input has for each fingerprint. -/
def current_body_witnesses (items : List Body) : SortedMap String String :=
  items.foldl (fun current b => current.insert b.fingerprint b.body_witness) .empty

/-- Only a body that changed takes its ACK with it. -/
def without_changed (current : SortedMap String String) : SnapshotUploadProgress :=
  let witnesses := s.accepted_body_witnesses.retain
    (fun fp witness => (current.get? fp).all (fun body => body == witness))
  { s with
    accepted_body_witnesses := witnesses
    accepted_fingerprints := s.accepted_fingerprints.filter (fun fp => witnesses.contains fp) }

/-- The body is refused for good, and no quarantine says so any more. -/
def lacks_refusal (fp body : String) : Bool :=
  (s.permanent_rejections.get? fp).any (fun record => record.body_witness == body && !record.owed) &&
    !(s.quarantined_fingerprints.get? fp).any (fun record =>
      record.upload_body_witness == some body &&
        (record.disposition == .UnprovenTerminal || record.disposition == .RetryPending))

/-- The refusal that the index reads, again. -/
def restore_refusal (fp body : String) (now : Nat) : SnapshotUploadProgress :=
  s.quarantine_as fp (s.quarantine_record fp body now).terminal

/-- The ledger against the input of this upload, and whether it has to be saved. -/
def against_input (items : List Body) (now : Nat) : SnapshotUploadProgress × Bool :=
  let current := current_body_witnesses items
  let pruned := s.without_changed current
  let permanent_to_restore := current.entries.filter (fun e => pruned.lacks_refusal e.1 e.2)
  (permanent_to_restore.foldl (fun progress e => progress.restore_refusal e.1 e.2 now) pruned,
    decide (pruned.accepted_fingerprints.card ≠ s.accepted_fingerprints.card) ||
      !permanent_to_restore.isEmpty)

end SnapshotUploadProgress

/-- The input holds two bodies for one fingerprint. -/
def has_conflicting_bodies (items : List Body) : Bool :=
  items.any (fun a => items.any (fun b =>
    a.fingerprint == b.fingerprint && a.body_witness != b.body_witness))

/-- Everything before the loop, or the operation that failed. -/
def begin_upload (ledger : AckLedger) (items : List Body) (inplace_retry : InplaceRetryBudget)
    (now : Nat) (prune_save_fails : Bool) : Except String UploadLoop := do
  if has_conflicting_bodies items then .error "resolve conflicting snapshot body witnesses"
  else
    let (progress, changed) := ledger.progress.against_input items now
    if changed ∧ prune_save_fails then .error "prune upload checkpoint"
    else
      let packed ← pack_batches progress items
      .ok {
        items
        ledger := ledger.with_progress { progress with context_resend := packed.cycle }
        batches := packed.batches.map (fun batch => (batch.map Member.body, false))
        inplace_retry }

end ottto_service.snapshot_sync
