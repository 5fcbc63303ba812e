-- Continuation pages (snapshot_sync/continuation.rs): the ticket that an ordinary
-- Codex finish grants, and the page that runs on it.
import Ottto.Cadence
import Ottto.Runs

namespace ottto_service.continuation

open adaptive_collector

def SNAPSHOT_SYNC_INTERVAL : Duration := from_secs (5 * 60)

def PACING : ContinuationPacing where
  min_gap := from_secs 30
  idle_per_work := 9

def CONTENTION_WORK : Duration := from_secs 20

section

variable (Digest Cursor : Type)

structure ContinuationTicket where
  destination : Digest
  authority : Digest
  cursor : Cursor
  issued : Instant
  expires : Instant

inductive PageEnd where
  | Paused (cursor : Cursor)
  | PausedContended
  | Deferred
  | Cancelled
  | Failed

end

inductive PlatformState where
  | Allowed
  | Refused
  | Unknown
deriving DecidableEq

inductive Skip where
  | NoTicket
  | NotDue
  | Failing
  | Backoff
  | Platform
  | LockBusy
  | Authority
  | Destination
  | NotReady
  | CadenceUnavailable
  | Expired

inductive Outcome where
  | Skipped (skip : Skip)
  | Paused
  | PausedContended
  | PausedWithoutRequest
  | Deferred
  | Cancelled
  | Failed

/-- `try_lock` -/
inductive TryLock where
  | Free
  | Poisoned
  | WouldBlock
deriving DecidableEq

variable {Digest Cursor : Type}

def ContinuationTicket.valid_at (self : ContinuationTicket Digest Cursor) (now : Instant) : Bool :=
  decide (self.issued ≤ now ∧ now < self.expires)

/-- What the pages of a process share: the slot of the ticket, the cadence of Codex
(none for good once its mutex is poisoned), and what the host answers. -/
structure Shared (Digest Cursor : Type) where
  slot : Option (ContinuationTicket Digest Cursor) := none
  cadence : Option SourceCadence :=
    some { config := CadenceConfig.cost_first SNAPSHOT_SYNC_INTERVAL }
  upload_backoff : Bool := false
  destination : Option Digest := none
  authority : Option Digest := none

namespace Shared

variable (self : Shared Digest Cursor)

/-- No continuation: neither the ticket nor the cadence request survives. -/
def clear : Shared Digest Cursor :=
  { self with slot := none, cadence := self.cadence.map SourceCadence.clear_continuation }

/-! ## Ordinary cycles -/

/-- The fixed lifetime of a ticket's inputs, from the start of the prepare. -/
def lifetime_from (prepared_at : Option Instant) (cadence : SourceCadence) :
    Option (Instant × Instant) := do
  let prepared_at ← prepared_at
  let bound := min (min cadence.ordinary_interval cadence.config.hot_min_interval)
    SNAPSHOT_SYNC_INTERVAL
  if bound = 0 then none
  let expires ← checked_add prepared_at bound
  some (prepared_at, expires)

/-- The ticket of a finished page's pause; `cursor` is what the port mints for the
scan, its inputs attached. -/
def ordinary_ticket (cursor : Option Cursor) (destination : Digest) (authority : Option Digest)
    (lifetime : Option (Instant × Instant)) : Option (ContinuationTicket Digest Cursor) := do
  let authority ← authority
  let (issued, expires) ← lifetime
  let cursor ← cursor
  some { destination, authority, cursor, issued, expires }

/-- The ticket with its measured work, for a finish that succeeded in time. -/
def kept_ticket (ticket : Option (ContinuationTicket Digest Cursor)) (started : Option Instant)
    (finished : Instant) (finished_ok : Bool) :
    Option (ContinuationTicket Digest Cursor × Duration) := do
  if !finished_ok then none
  let ticket ← ticket
  let started ← started
  let work ← checked_duration_since finished started
  if work ≤ CONTENTION_WORK then some (ticket, work) else none

def after_ordinary_codex_page (ticket : Option (ContinuationTicket Digest Cursor))
    (started : Option Instant) (finished : Instant) (finished_ok : Bool) : Shared Digest Cursor :=
  match kept_ticket ticket started finished finished_ok with
  | none => self.clear
  | some (ticket, work) =>
    match self.cadence.map (fun cadence => cadence.request_continuation finished work) with
    | some (cadence, true) => { self with cadence := some cadence, slot := some ticket }
    | some (cadence, false) => clear { self with cadence := some cadence }
    | none => self.clear

def settle_cycle (succeeded_with_codex : Bool) : Shared Digest Cursor :=
  if succeeded_with_codex then self else self.clear

/-! ## Pages -/

def page_due (now : Instant) : Except Skip Bool :=
  match self.cadence with
  | none => .error .CadenceUnavailable
  | some cadence =>
    if cadence.state = .Failing then .error .Failing
    else if self.upload_backoff then .error .Backoff
    else
      match cadence.continuation_due PACING with
      | some due => .ok (decide (due ≤ now))
      | none => .error .NotDue

/-- Not due keeps the ticket and the request; an error clears both. -/
def check_due (now : Instant) : Option (Shared Digest Cursor × Outcome) :=
  match self.page_due now with
  | .ok true => none
  | .ok false => some (self, .Skipped .NotDue)
  | .error reason => some (self.clear, .Skipped reason)

def ordinary_equivalent (cadence : SourceCadence) (upload_backoff : Bool) : Option Duration :=
  if upload_backoff ∨ cadence.state = .Failing ∨ cadence.state = .Disabled then none
  else some cadence.ordinary_interval

/-- The start of `run_page`, before it tries the lock: the outcome, if it ends here. -/
def run_page_precheck (started : Instant) (power : PlatformState) :
    Shared Digest Cursor × Option Outcome :=
  if self.slot.isNone then (self, some (.Skipped .NoTicket))
  else
    match self.check_due started with
    | some (shared, outcome) => (shared, some outcome)
    | none =>
      if power ≠ .Allowed then (self.clear, some (.Skipped .Platform)) else (self, none)

end Shared

/-- One call of `port.page`, and the clock reading that its ticket was checked at. -/
structure PageCall (Digest Cursor : Type) where
  ticket : ContinuationTicket Digest Cursor
  checked_at : Instant
  deadline : Instant
  ordinary : Option Duration

/-- How a page ended: its outcome, and the cursor of a pause. -/
def PageEnd.outcome : PageEnd Cursor → Outcome × Option Cursor
  | .Paused cursor => (.Paused, some cursor)
  | .PausedContended => (.PausedContended, none)
  | .Deferred => (.Deferred, none)
  | .Cancelled => (.Cancelled, none)
  | .Failed => (.Failed, none)

/-- What may change while a page runs: the host's answers and the cadence's tiers. -/
inductive Change (Digest : Type) where
  | destination (destination : Option Digest)
  | authority (authority : Option Digest)
  | upload_backoff (running : Bool)
  | set_server_min_interval (interval : Option Duration)
  | set_disabled (disabled : Bool)
  | record_file_event (now : Instant)
  | record_backend_hint (now : Instant) (record_count_15m : UInt64)
      (last_data_is_newer_than_local_success reconciliation_enabled : Bool)
  | record_scan_success (now : Instant) (uploaded_count : UInt64)
  | record_scan_failure (now : Instant)
  | poison

namespace Shared

variable (self : Shared Digest Cursor)

def change : Change Digest → Shared Digest Cursor
  | .destination destination => { self with destination }
  | .authority authority => { self with authority }
  | .upload_backoff running => { self with upload_backoff := running }
  | .set_server_min_interval interval =>
    { self with cadence := self.cadence.map (·.set_server_min_interval interval) }
  | .set_disabled disabled => { self with cadence := self.cadence.map (·.set_disabled disabled) }
  | .record_file_event now => { self with cadence := self.cadence.map (·.record_file_event now) }
  | .record_backend_hint now records newer enabled =>
    { self with cadence := self.cadence.map (·.record_backend_hint now records newer enabled) }
  | .record_scan_success now uploaded =>
    { self with cadence := self.cadence.map (·.record_scan_success now uploaded) }
  | .record_scan_failure now => { self with cadence := self.cadence.map (·.record_scan_failure now) }
  | .poison => { self with cadence := none }

end Shared

/-- What `run_page` reads from the lock on. -/
structure PageReads (Digest Cursor : Type) where
  lock : TryLock
  now : Instant
  background_qos : PlatformState
  ready : Bool
  ended : PageEnd Cursor
  during : List (Change Digest)
  finished : Instant

namespace Shared

variable (self : Shared Digest Cursor)

/-- A pause's next ticket is kept when the page was fast and the cadence takes the
request. -/
def keep_pause (next : ContinuationTicket Digest Cursor) (started finished : Instant) :
    Shared Digest Cursor × Outcome :=
  match checked_duration_since finished started with
  | none => (self.clear, .PausedContended)
  | some work =>
    if work ≤ CONTENTION_WORK then
      match self.cadence.map (fun cadence => cadence.request_continuation finished work) with
      | some (cadence, true) => ({ self with cadence := some cadence, slot := some next }, .Paused)
      | some (cadence, false) => (clear { self with cadence := some cadence }, .PausedWithoutRequest)
      | none => (self.clear, .PausedWithoutRequest)
    else (self.clear, .PausedContended)

variable [DecidableEq Digest]

/-- The page on a ticket just taken: the checks of the ticket, the call, and its end. -/
def run_ticket (ticket : ContinuationTicket Digest Cursor) (started ordinary_deadline : Instant)
    (reads : PageReads Digest Cursor) :
    Shared Digest Cursor × Outcome × Option (PageCall Digest Cursor) :=
  if !ticket.valid_at reads.now then (self.clear, .Skipped .Expired, none)
  else if self.authority ≠ some ticket.authority then (self.clear, .Skipped .Authority, none)
  else if self.destination ≠ some ticket.destination then (self.clear, .Skipped .Destination, none)
  else if reads.background_qos ≠ .Allowed then (self.clear, .Skipped .Platform, none)
  else
    let deadline := (checked_add started CONTENTION_WORK).elim ordinary_deadline
      (fun limit => min limit ordinary_deadline)
    let ordinary := self.cadence.bind (fun cadence => ordinary_equivalent cadence self.upload_backoff)
    if !reads.ready then (self.clear, .Skipped .NotReady, none)
    else
      let call := { ticket, checked_at := reads.now, deadline, ordinary }
      let after := reads.during.foldl change self
      match reads.ended.outcome with
      | (_, some cursor) =>
        let (shared, outcome) := after.keep_pause { ticket with cursor } started reads.finished
        (shared, outcome, some call)
      | (outcome, none) => (after.clear, outcome, some call)

/-- The rest of `run_page`, from the lock to its release. -/
def run_page_locked (started ordinary_deadline : Instant) (reads : PageReads Digest Cursor) :
    Shared Digest Cursor × Outcome × Option (PageCall Digest Cursor) :=
  if reads.lock = .WouldBlock then (self.clear, .Skipped .LockBusy, none)
  else if self.slot.isNone then (self, .Skipped .NoTicket, none)
  else
    match self.check_due reads.now with
    | some (shared, outcome) => (shared, outcome, none)
    | none =>
      match self.slot with
      | none => (self, .Skipped .NoTicket, none)
      | some ticket => run_ticket { self with slot := none } ticket started ordinary_deadline reads

end Shared

end ottto_service.continuation
