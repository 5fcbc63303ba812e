-- The start of an upload cycle (snapshot_sync.rs): the quarantines that the index
-- brings, and the ordinary retries and due re-offers that share the cycle's budget.
import Ottto.Progress

namespace ottto_service.reason_reoffer

/-- What selects due re-offers: the committed index, the clock, and the reading of a
time of activity. -/
structure Scope where
  index : snapshots.ScanIndex
  now : Nat
  window_start_unix_seconds : Nat
  unix_timestamp : String → Option Int

end ottto_service.reason_reoffer

namespace ottto_service.snapshot_sync

open snapshots reason_reoffer upload_receipts

/-- `as i64` -/
def as_i64 (n : Nat) : Int := if n < 2 ^ 63 then n else (n : Int) - 2 ^ 64

namespace SnapshotUploadProgress

variable (s : SnapshotUploadProgress)

/-! ## The quarantines that the index brings -/

/-- Runtime leases end with their cycle. -/
def reset_cycle : SnapshotUploadProgress :=
  { s with
    active_quarantine_retries := ∅
    active_reason_reoffers := .empty
    attempted_reason_reoffers := ∅
    legacy_selected := 0
    terminal_contract_retry_pending_save := false }

/-- An ACK is saved before the index retires an older quarantine, and is the stronger
fact. -/
def drop_accepted : SnapshotUploadProgress :=
  { s with quarantined_fingerprints :=
      s.quarantined_fingerprints.filterKeys (fun fp => fp ∉ s.accepted_fingerprints) }

/-- The record of the index beside the ledger's own, and whether a save is owed. -/
def restored (old : Option SnapshotQuarantineRecord) (record : SnapshotQuarantineRecord) :
    SnapshotQuarantineRecord × Bool :=
  match old with
  | none => (record, decide (record.reconstruction_contract > 1))
  | some old =>
    if old.reconstruction_contract < record.reconstruction_contract ∨
        (old.reconstruction_contract = record.reconstruction_contract ∧
          old.witness.item_wire_byte_limit < record.witness.item_wire_byte_limit) then
      ((terminal_contract_retry.merge_claims record old).1,
        decide (old.reconstruction_contract < record.reconstruction_contract))
    else (old, false)

/-- One record of the index's quarantine, in the order of its keys. -/
def restore_from_index (state : SnapshotUploadProgress × Bool)
    (e : String × SnapshotQuarantineRecord) : SnapshotUploadProgress × Bool :=
  let (s, changed) := state
  if e.1 ∈ s.accepted_fingerprints then state
  else
    let (record, owed) := restored (s.quarantined_fingerprints.get? e.1) e.2
    ({ s with quarantined_fingerprints := s.quarantined_fingerprints.insert e.1 record },
      changed || owed)

/-- Each record rewritten where it stands. -/
def map_quarantine (f : String → SnapshotQuarantineRecord → SnapshotQuarantineRecord) :
    SnapshotUploadProgress :=
  { s with quarantined_fingerprints :=
      s.quarantined_fingerprints.filterMap (fun fp record => some (f fp record)) }

def any_quarantined (p : String → SnapshotQuarantineRecord → Bool) : Bool :=
  s.quarantined_fingerprints.entries.any (fun e => p e.1 e.2)

def merge_index (index_quarantine : SortedMap String SnapshotQuarantineRecord) :
    SnapshotUploadProgress × Bool :=
  let merged :=
    terminal_contract_retry.merge_maps s.quarantined_fingerprints index_quarantine
  ({ s with quarantined_fingerprints := merged.1 }, merged.2)

def exhausts (fp : String) (record : SnapshotQuarantineRecord) : Bool :=
  !s.has_stale_debt fp && terminal_contract_retry.is_exhausted record

/-- The refusal of this very body, that is not owed an answer. -/
def is_dominated (fp : String) (record : SnapshotQuarantineRecord) : Bool :=
  (s.permanent_rejections.get? fp).any (fun permanent =>
    !permanent.owed && record.upload_body_witness == some permanent.body_witness)

/-- A change of build or parser labels only. -/
def is_version_only (record : SnapshotQuarantineRecord) : Bool :=
  record.witness != s.active_quarantine_witness &&
    record.witness.same_retry_contract s.active_quarantine_witness

/-- The quarantines of this cycle, and whether a save is owed for them. -/
def restore_quarantines (index_quarantine : SortedMap String SnapshotQuarantineRecord) :
    SnapshotUploadProgress × Bool :=
  let pending_save := s.terminal_contract_retry_pending_save
  let own := s.reset_cycle.drop_accepted
  -- A conflict recorded beside the refusal is newer than the refusal.
  let newer := own.outlives_cycle
  let newer_retryable_refusals := own.quarantined_fingerprints.retain newer
  let (brought, owed) := index_quarantine.entries.foldl restore_from_index (own, pending_save)
  let (merged, merge_owed) := brought.merge_index index_quarantine
  let exhausted := merged.map_quarantine (fun fp record =>
    if merged.exhausts fp record then record.terminal else record)
  let dominated := exhausted.map_quarantine (fun fp record =>
    if !newer_retryable_refusals.contains fp && exhausted.is_dominated fp record then
      record.terminal
    else record)
  let version_only_kept := dominated.any_quarantined (fun _ record => dominated.is_version_only record)
  (dominated.map_quarantine (fun _ record =>
      if dominated.is_version_only record then
        { record with witness := dominated.active_quarantine_witness }
      else record),
    owed || merge_owed || merged.any_quarantined merged.exhausts || version_only_kept)

/-! ## What is due -/

def is_retry_candidate (now : Nat) (fp : String) (record : SnapshotQuarantineRecord) : Bool :=
  !s.has_stale_debt fp && !record.upload_body_witness.any (s.refused_body fp) &&
    record.disposition == .RetryPending &&
    ((record.contract_retry_claims.isNone &&
        !record.witness.same_retry_contract s.active_quarantine_witness &&
        !quarantine_context_only_changed record.witness s.active_quarantine_witness) ||
      decide (record.retry_after_unix_seconds ≤ now))

/-- When this refusal may be offered again; nothing for a reason that never is. -/
def offer_deadline (refusal : PermanentSnapshotRejection) : Option Nat :=
  if refusal.has_stale_debt ∨ refusal.reason ≠ .Other then none
  else match refusal.reoffer with
    | none => some 0
    | some .Classified => none
    | some reoffer => some (reoffer.retry_after.getD 0)

/-- A deadline past the longest one the clock allows. -/
def is_past_clock (now : Nat) (refusal : PermanentSnapshotRejection) : Bool :=
  (offer_deadline refusal).any (fun after => decide (after > latest_valid_deadline now))

/-- After a clock that went back, the cooldown starts again. -/
def reclamp (now : Nat) (refusal : PermanentSnapshotRejection) : PermanentSnapshotRejection :=
  if is_past_clock now refusal then
    { refusal with
      reoffer := refusal.reoffer.map (RefusalReoffer.with_retry_after (next_offer_after now)) }
  else refusal

/-- The index still binds the entity to this body, and no one accepted it. -/
def is_bound (scope : Scope) (fp : String) (refusal : PermanentSnapshotRejection) : Bool :=
  (scope.index.quarantined_snapshot_fingerprints.get? fp).any (fun record =>
      record.disposition != .SupersededTerminal &&
        record.upload_body_witness == some refusal.body_witness) &&
    decide (fp ∈ scope.index.eligible_snapshot_fingerprint_refs) &&
    decide (fp ∉ s.accepted_fingerprints) &&
    !scope.index.accepted_snapshot_fingerprint_recorded fp

def is_outside_window (scope : Scope) (fp : String) : Bool :=
  (((scope.index.snapshot_activity_at.get? fp).bind id).bind scope.unix_timestamp).any
    (fun activity => decide (activity < as_i64 scope.window_start_unix_seconds))

/-- The deadline and the body of a refusal that is due. -/
def due_reoffer (scope : Scope) (fp : String) (refusal : PermanentSnapshotRejection) :
    Option (Nat × String) :=
  match offer_deadline refusal with
  | none => none
  | some after =>
    if is_past_clock scope.now refusal || !s.is_bound scope fp refusal || decide (after > scope.now) ||
        is_outside_window scope fp then none
    else some (after, refusal.body_witness)

/-- The due re-offers, the ledger with its deadlines re-clamped, and whether one was. -/
def collect_due_reason_reoffers (scope : Scope) :
    SnapshotUploadProgress × SortedMap String (Nat × String) × Bool :=
  -- A missing index cannot prove current membership.
  if scope.index.generation = 0 ∨ s.permanent_rejections.isEmpty then (s, .empty, false)
  else
    ({ s with permanent_rejections := s.permanent_rejections.mapValues (reclamp scope.now) },
      s.permanent_rejections.filterMap (s.due_reoffer scope),
      s.permanent_rejections.values.any (is_past_clock scope.now))

/-! ## The selection -/

/-- The next offer is reserved before any scan or upload can use the lease. -/
def reserve_reason_reoffer (fp body_witness : String) (now : Nat) : SnapshotUploadProgress :=
  match s.permanent_rejections.get? fp with
  | none => s
  | some refusal =>
    let next := next_offer_after now
    let legacy := match refusal.reoffer with
      | none | some (.LegacyOther _) => true
      | _ => false
    let reoffer := match refusal.reoffer with
      | none => .LegacyOther next
      | some reoffer => reoffer.with_retry_after next
    { s with
      permanent_rejections :=
        s.permanent_rejections.insert fp { refusal with reoffer := some reoffer }
      legacy_selected := if legacy then s.legacy_selected + 1 else s.legacy_selected
      active_reason_reoffers := s.active_reason_reoffers.insert fp body_witness }

/-- A refusal that an older writer left without its reason. -/
def is_legacy (fp : String) : Bool :=
  (s.permanent_rejections.get? fp).any (fun refusal =>
    match refusal.reoffer with
    | none | some (.LegacyOther _) => true
    | _ => false)

end SnapshotUploadProgress

structure Selection where
  ledger : SnapshotUploadProgress
  due : SortedMap String (Nat × String)
  retry : Finset String := ∅
  reoffer_changed : Bool

namespace Selection

/-- One candidate; the legacy refusals get at most half of the slots. -/
def select_one (now : Nat) (s : Selection) (fp : String) : Selection :=
  match s.due.get? fp with
  | some (_, body_witness) =>
    if s.ledger.is_legacy fp ∧
        s.ledger.legacy_selected ≥ SNAPSHOT_QUARANTINE_RETRY_LIMIT_PER_CYCLE / 2 then s
    else { s with
      ledger := s.ledger.reserve_reason_reoffer fp body_witness now
      due := s.due.erase fp
      reoffer_changed := true }
  | none => { s with retry := insert fp s.retry }

def is_full (s : Selection) : Bool :=
  decide (s.retry.card + s.ledger.active_reason_reoffers.size ≥
    SNAPSHOT_QUARANTINE_RETRY_LIMIT_PER_CYCLE)

def select (now : Nat) : List String → Selection → Selection
  | [], s => s
  | fp :: rest, s => if s.is_full then s else select now rest (s.select_one now fp)

end Selection

namespace SnapshotUploadProgress

variable (s : SnapshotUploadProgress)

/-- The retries and the due re-offers, the oldest deadline first. -/
def candidates (now : Nat) (due : SortedMap String (Nat × String)) : List String :=
  let retries := s.quarantined_fingerprints.entries.filterMap (fun e =>
    if s.is_retry_candidate now e.1 e.2 ∧ ¬ due.contains e.1 then
      some (toLex ((e.2.witness.same_retry_contract s.active_quarantine_witness).toNat,
        toLex (e.2.retry_after_unix_seconds, e.1)))
    else none)
  let reoffers := due.entries.map (fun e => toLex (1, toLex (e.2.1, e.1)))
  ((retries ++ reoffers).insertionSort (· ≤ ·)).map (fun e => (ofLex (ofLex e).2).2)

/-- A claim of a contract retry is spent at its selection, and paced. -/
def claim_retry (now : Nat) (retry : Finset String) (fp : String)
    (record : SnapshotQuarantineRecord) : SnapshotQuarantineRecord :=
  if fp ∈ retry ∧ record.contract_retry_claims.isSome then
    s.paced fp (terminal_contract_retry.claim record) now
  else record

/-- The due re-offers of the scope, when there is one. -/
def collect_due (reoffer : Option Scope) :
    SnapshotUploadProgress × SortedMap String (Nat × String) × Bool :=
  match reoffer with
  | some scope => s.collect_due_reason_reoffers scope
  | none => (s, .empty, false)

/-- The choice among the candidates of a ledger whose quarantines are restored. -/
def selection (reoffer : Option Scope) (now : Nat) : Selection :=
  let collected := s.collect_due reoffer
  Selection.select ((reoffer.map Scope.now).getD 0) (s.candidates now collected.2.1)
    { ledger := collected.1, due := collected.2.1, reoffer_changed := collected.2.2 }

end SnapshotUploadProgress

/-- The ledger with its leases taken. -/
def Selection.leased (selection : Selection) (now : Nat) : SnapshotUploadProgress :=
  { selection.ledger.map_quarantine (selection.ledger.claim_retry now selection.retry) with
    active_quarantine_retries := selection.retry }

namespace SnapshotUploadProgress

variable (s : SnapshotUploadProgress)

/-- This cycle's leases, and whether the ledger is to be saved before one is used. -/
def prepare_quarantine_and_reason_retries
    (index_quarantine : SortedMap String SnapshotQuarantineRecord) (reoffer : Option Scope)
    (now : Nat) : SnapshotUploadProgress × Bool :=
  let (restored, owed) := s.restore_quarantines index_quarantine
  let selection := restored.selection reoffer now
  (selection.leased now,
    decide (selection.retry ≠ ∅) || selection.reoffer_changed || owed)

end SnapshotUploadProgress

end ottto_service.snapshot_sync
