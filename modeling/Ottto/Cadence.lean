-- The cadence of one source (adaptive_collector.rs): its tier, its failures, and
-- the continuation that a paused page asks for.
import Mathlib.Tactic

namespace ottto_service.adaptive_collector

/-- Nanoseconds of the monotonic clock. -/
abbrev Instant : Type := Nat

/-- Nanoseconds. -/
abbrev Duration : Type := Nat

def from_secs (seconds : Nat) : Duration := seconds * 1000000000

/-- The seconds of an instant are an `i64`. -/
def checked_add (instant : Instant) (duration : Duration) : Option Instant :=
  if instant + duration < from_secs (2 ^ 63) then some (instant + duration) else none

/-- The seconds of a duration are a `u64`. -/
def checked_mul (duration : Duration) (n : Nat) : Option Duration :=
  if duration * n < from_secs (2 ^ 64) then some (duration * n) else none

def checked_duration_since (later earlier : Instant) : Option Duration :=
  if earlier ≤ later then some (later - earlier) else none

inductive LocalCollectorState where
  | Hot
  | Warm
  | Idle
  | Cold
  | Failing
  | Disabled
deriving DecidableEq

structure CadenceConfig where
  hot_min_interval : Duration := from_secs 10
  warm_interval : Duration := from_secs 60
  warm_window : Duration := from_secs (15 * 60)
  idle_interval : Duration := from_secs (10 * 60)
  cold_interval : Duration := from_secs (30 * 60)
  failure_backoffs : List Duration :=
    [from_secs 60, from_secs (2 * 60), from_secs (5 * 60), from_secs (15 * 60), from_secs (60 * 60)]
  some_backoff : failure_backoffs ≠ [] := by decide

def CadenceConfig.cost_first (floor : Duration) : CadenceConfig :=
  let default : CadenceConfig := {}
  { default with
    hot_min_interval := floor
    warm_interval := floor
    idle_interval := max default.idle_interval floor
    cold_interval := max default.cold_interval floor }

structure ContinuationPacing where
  min_gap : Duration
  idle_per_work : Nat

structure ContinuationRequest where
  finished_at : Instant
  work : Duration

structure SourceCadence where
  config : CadenceConfig
  state : LocalCollectorState := .Cold
  last_activity_at : Option Instant := none
  last_scan_at : Option Instant := none
  /-- A `usize` that counts failed scans; no result depends on its bound. -/
  consecutive_failures : Nat := 0
  disabled : Bool := false
  server_min_interval : Option Duration := none
  continuation : Option ContinuationRequest := none

namespace SourceCadence

variable (self : SourceCadence)

def set_server_min_interval (interval : Option Duration) : SourceCadence :=
  { self with server_min_interval := interval }

def set_disabled (disabled : Bool) : SourceCadence :=
  if disabled then { self with disabled, state := .Disabled }
  else if self.state = .Disabled then { self with disabled, state := .Cold }
  else { self with disabled }

def record_file_event (now : Instant) : SourceCadence :=
  if self.disabled then self else { self with last_activity_at := some now, state := .Hot }

def record_backend_hint (now : Instant) (record_count_15m : UInt64)
    (last_data_is_newer_than_local_success reconciliation_enabled : Bool) : SourceCadence :=
  let set := self.set_disabled (!reconciliation_enabled)
  if set.disabled then set
  else if 0 < record_count_15m ∨ last_data_is_newer_than_local_success then
    { set with last_activity_at := some now, state := .Warm }
  else set

/-- `duration_since` gives zero for an activity after now. -/
def record_scan_success (now : Instant) (uploaded_count : UInt64) : SourceCadence :=
  if self.disabled then self
  else
    let scanned := { self with last_scan_at := some now, consecutive_failures := 0 }
    if 0 < uploaded_count then { scanned with last_activity_at := some now, state := .Warm }
    else if self.last_activity_at.any (fun activity => now - activity ≤ self.config.warm_window) then
      { scanned with state := .Warm }
    else { scanned with state := .Idle }

def record_scan_failure (now : Instant) : SourceCadence :=
  if self.disabled then self
  else { self with
    last_scan_at := some now
    consecutive_failures := self.consecutive_failures + 1
    state := .Failing }

def failure_backoff : Duration :=
  if self.consecutive_failures = 0 then self.config.failure_backoffs.head self.config.some_backoff
  else (self.config.failure_backoffs[self.consecutive_failures - 1]?).getD
    (self.config.failure_backoffs.getLast self.config.some_backoff)

def tier : Duration :=
  match self.state with
  | .Hot => self.config.hot_min_interval
  | .Warm => self.config.warm_interval
  | .Idle => self.config.idle_interval
  | .Cold => self.config.cold_interval
  | .Failing => self.failure_backoff
  | .Disabled => self.config.cold_interval

def ordinary_interval : Duration :=
  if self.disabled then self.config.cold_interval
  else
    match self.server_min_interval with
    | some requested => max self.tier requested
    | none => self.tier

/-- A disabled source takes no request. -/
def request_continuation (finished_at : Instant) (work : Duration) : SourceCadence × Bool :=
  let continuation := if self.disabled then none else some { finished_at, work }
  ({ self with continuation }, continuation.isSome)

def clear_continuation : SourceCadence := { self with continuation := none }

/-- When the pending continuation page may run. Any overflow refuses it. -/
def continuation_due (pacing : ContinuationPacing) : Option Instant := do
  if self.disabled then none
  let request ← self.continuation
  let last_scan ← self.last_scan_at
  let gap ← checked_mul request.work pacing.idle_per_work
  let interval := max gap pacing.min_gap
  let interval := match self.server_min_interval with
    | some requested => max interval requested
    | none => interval
  let interval := if self.state = .Failing then max interval self.failure_backoff else interval
  let due ← checked_add (max request.finished_at last_scan) interval
  let ordinary_due ← checked_add last_scan self.ordinary_interval
  if due < ordinary_due then some due else none

end SourceCadence

end ottto_service.adaptive_collector
