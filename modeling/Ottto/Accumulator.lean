-- The usage side of the snapshot accumulator (scan/accumulator.rs): the
-- session totals, the rows of each hour, and the steps that admit a usage.
import Ottto.Occurrence

open Words

namespace ottto_service.accumulator

open serde_json json_fields usage codex_counting_version codex_usage_occurrence

def IMPLICIT_USAGE_MODEL : String := "unknown"
def CODEX_THREAD_TIER : String := "codex_thread_tier"
def CODEX_FORWARD_EVIDENCE_FROM_UNIX_SECONDS : Int := 1794182400
def CODEX_LEGACY_REPEAT_FROM_UNIX_SECONDS : Int := 1793750400

/-- What the accumulator calls outside this model. No result rests on a
property of the tier replay (`TierReplay`, here `R`) or of the price lines:
they choose the selector of a row. -/
structure Outside (R : Type) where
  time : Rfc3339
  sha256 : List UInt8 → Fin 32 → UInt8
  selector_digest : SortedMap String String → String
  /-- `replay.selector(value, selector, current, model, effort, turn)`. -/
  tier_selector : R → Value → SelectorCapture → SelectorCapture →
    Option String → Option String → Option String → SelectorCapture × Option (String × String)
  tier_admitted : R → Option (String × String) → R
  provider_context_bucket : String → UInt64 → Option String → Option String

/-! ## The state -/

/-- The running values that a line leaves for the lines after it. -/
structure Context (R : Type) where
  source_session_id : Option String := none
  started_at : Option String := none
  last_activity_at : Option String := none
  latest_model : Option String := none
  latest_reasoning_effort : Option String := none
  latest_turn_id : Option String := none
  codex_turn_traces : Option (String → Bool) := none
  codex_tier_replay : Option R := none
  current_selector : SelectorCapture := {}

/-- The accepted usage: the session totals, and the rows of each hour. -/
structure Ledger where
  accepted_usage_totals : UsageTotals := {}
  usage_buckets : SortedMap String UsageBucketState := .empty
  dropped_usage_record_count : UInt64 := 0

structure SnapshotAccumulator (R : Type) extends Context R, Ledger where
  codex_counting : Option CodexCounting := none
  session_cumulative_usage : Option UsageTotals := none
  codex_last_usage_event_identity : Option String := none
  codex_duplicate_usage_records_skipped : UInt64 := 0
  codex_cumulative_reset_count : UInt64 := 0

def Context.fallback_bucket_timestamp {R : Type} (self : Context R) : Option String :=
  self.last_activity_at.or self.started_at

/-! ## The rows -/

/-- The row of a key after one more usage. A refused add of the row leaves
its usage: the source asserts that this does not happen. -/
def merge_row (rows : SortedMap RowKey BucketRowAccumulator) (row_key : RowKey)
    (row : BucketRowAccumulator) : SortedMap RowKey BucketRowAccumulator :=
  match rows.get? row_key with
  | some existing => rows.insert row_key
      { existing with
        selector_sources := existing.selector_sources.extend row.selector_sources
        usage := (existing.usage.add row.usage).getD existing.usage }
  | none => rows.insert row_key row

/-- The rows of the whole session take the row of one hour. -/
def merge_session_row (session_rows : SortedMap RowKey BucketRowAccumulator) (row_key : RowKey)
    (row : BucketRowAccumulator) : SortedMap RowKey BucketRowAccumulator :=
  merge_row session_rows row_key row

namespace Ledger

def note_dropped_usage (self : Ledger) (events : UInt64) : Ledger :=
  { self with
    dropped_usage_record_count := saturating_add self.dropped_usage_record_count events }

/-- An accepted usage: its hour notes the activity times and takes the row. -/
def enter_row (self : Ledger) (time : Rfc3339) (bucket_start : String) (activity : List String)
    (row_key : RowKey) (row : BucketRowAccumulator) : Ledger :=
  let bucket := (self.usage_buckets.get? bucket_start).getD {}
  let bucket := activity.foldl (UsageBucketState.note_activity_at time) bucket
  { self with
    usage_buckets := self.usage_buckets.insert bucket_start
      { bucket with rows := merge_row bucket.rows row_key row } }

def add_placed_usage (self : Ledger) (time : Rfc3339) (placed : PlacedClaudeUsage)
    (usage : UsageTotals) (effort : Option String) : Ledger :=
  match placed.placement with
  | none => self.note_dropped_usage 1
  | some placement =>
    match self.accepted_usage_totals.add usage with
    | none => self.note_dropped_usage 1
    | some totals =>
      { self with accepted_usage_totals := totals }.enter_row time placement.bucket
        [placement.normalized_timestamp] placement.row_key
        { selector_context := placement.reduced_context
          selector_sources := placement.reduced_sources
          usage := usage
          reasoning_effort := effort }

/-- One staged row, as immediate publication would add it. -/
def publish_row (time : Rfc3339) (self : Ledger) (entry : (String ×ₗ RowKey) × PendingRow) :
    Ledger :=
  let (bucket_start, row_key) := ofLex entry.1
  let row := entry.2
  match self.accepted_usage_totals.add row.usage with
  | none => self.note_dropped_usage row.events
  | some totals =>
    { self with accepted_usage_totals := totals }.enter_row time bucket_start
      [row.first_activity_at, row.last_activity_at] row_key
      { selector_context := row.selector_context
        selector_sources := row.selector_sources
        usage := row.usage
        reasoning_effort := row_key.reasoning_effort }

def publish_codex_pending (self : Ledger) (time : Rfc3339) (pending : Pending) : Ledger :=
  pending.entries.foldl (publish_row time) self

/-- The rows of every hour, hour by hour, as `into_items` reads them. -/
def bucket_rows (self : Ledger) : List (RowKey × BucketRowAccumulator) :=
  self.usage_buckets.values.flatMap (fun bucket => bucket.rows.entries)

/-- The session-wide rows that `into_items` emits. -/
def session_rows (self : Ledger) : SortedMap RowKey BucketRowAccumulator :=
  self.bucket_rows.foldl (fun rows e => merge_session_row rows e.1 e.2) .empty

end Ledger

/-! ## Admission -/

namespace SnapshotAccumulator

variable {R : Type} (outside : Outside R)

def note_dropped_usage (self : SnapshotAccumulator R) : SnapshotAccumulator R :=
  { self with toLedger := self.toLedger.note_dropped_usage 1 }

/-- The native model and row placement of one usage; `none` for zero usage. -/
def place_usage (self : SnapshotAccumulator R) (model : Option String) (usage : UsageTotals)
    (selector : SelectorCapture) (timestamp effort : Option String) :
    SnapshotAccumulator R × Option PlacedClaudeUsage :=
  if usage.is_zero then (self, none)
  else
    let fell_back := model.isNone
    let model := (model.or self.latest_model).getD IMPLICIT_USAGE_MODEL
    let self := { self with latest_model := some model }
    let fallback := if timestamp.isNone then self.fallback_bucket_timestamp else none
    let placement := claude_row_placement outside.time outside.selector_digest model
      self.current_selector selector effort timestamp fallback
    (self, some { model, fell_back, placement })

def add_usage_with_selector (self : SnapshotAccumulator R) (model : Option String)
    (usage : UsageTotals) (selector : SelectorCapture) (timestamp effort : Option String) :
    SnapshotAccumulator R :=
  match self.place_usage outside model usage selector timestamp effort with
  | (self, none) => self
  | (self, some placed) =>
    { self with toLedger := self.toLedger.add_placed_usage outside.time placed usage effort }

/-- The model carries forward, an exact repeated usage event is skipped, a
cumulative reset is counted and `usage` becomes the cumulative total. Returns
the resolved model, the previous total and whether `usage` reset it. -/
def admit_codex_cumulative_usage (self : SnapshotAccumulator R) (model : Option String)
    (usage : UsageTotals) (usage_event_identity : Option String) :
    SnapshotAccumulator R × Option (String × Option UsageTotals × Bool) :=
  let resolved_model := (model.or self.latest_model).getD IMPLICIT_USAGE_MODEL
  let self := { self with latest_model := some resolved_model }
  if usage_event_identity.isSome ∧ usage_event_identity = self.codex_last_usage_event_identity then
    ({ self with
       codex_duplicate_usage_records_skipped :=
         saturating_add self.codex_duplicate_usage_records_skipped 1 }, none)
  else
    let identity := usage_event_identity.or self.codex_last_usage_event_identity
    let reset := match self.session_cumulative_usage with
      | some previous => !usage.is_monotonic_after previous
      | none => false
    let resets := if reset then saturating_add self.codex_cumulative_reset_count 1
      else self.codex_cumulative_reset_count
    ({ self with
       codex_last_usage_event_identity := identity
       codex_cumulative_reset_count := resets
       session_cumulative_usage := some usage },
      some (resolved_model, self.session_cumulative_usage, reset))

def codex_counting_v2 (self : SnapshotAccumulator R) : Bool :=
  match self.codex_counting with
  | some counting => counting.version == some .V2
  | none => false

def codex_occurrence (self : SnapshotAccumulator R) : Option OccurrenceReducer :=
  self.codex_counting.bind CodexCounting.reducer

/-- Writes through the reference that `codex_occurrence` returns. -/
def with_occurrence (self : SnapshotAccumulator R) (reducer : OccurrenceReducer) :
    SnapshotAccumulator R :=
  { self with
    codex_counting := self.codex_counting.map
      (fun counting => { counting with reducer := some reducer }) }

/-- Legacy's use of the shared repeat gate for a line it would count. -/
def codex_legacy_ui_repeat (self : SnapshotAccumulator R) (last : Option UsageTotals)
    (total delta : UsageTotals) (may_drop : Bool) : SnapshotAccumulator R × Bool :=
  match self.codex_occurrence with
  | none => (self, false)
  | some reducer =>
    let (reducer, tuple) := reducer.take_ui_tuple last total
    let (gated, repeated) := if may_drop then reducer.equal_total_repeat tuple delta
      else (reducer, false)
    if repeated then (self.with_occurrence gated, true)
    else (self.with_occurrence (gated.note_ui tuple), false)

/-- Sets the request count of a delta that is not zero. -/
def with_count (implicit_request_count : Option UInt64) (delta : UsageTotals) : UsageTotals :=
  if delta.is_zero then delta
  else
    match implicit_request_count with
    | some count => { delta with request_count := count }
    | none => delta

/-- `last`, else the cumulative delta, else the whole total on a first event
or a reset. -/
def codex_legacy_delta (usage : UsageTotals) (last_usage previous : Option UsageTotals)
    (reset : Bool) (implicit_request_count : Option UInt64) : UsageTotals :=
  with_count implicit_request_count (match last_usage, previous with
    | some last, _ => last
    | none, some previous => if reset then usage else usage.delta_from previous
    | none, none => usage)

def decide_codex_legacy_usage (self : SnapshotAccumulator R) (model : Option String)
    (usage : UsageTotals) (last_usage : Option UsageTotals)
    (usage_event_identity timestamp : Option String) (implicit_request_count : Option UInt64) :
    SnapshotAccumulator R × Option (String × UsageTotals) :=
  match self.admit_codex_cumulative_usage model usage usage_event_identity with
  | (self, none) => (self, none)
  | (self, some (resolved_model, previous, reset)) =>
    let delta := codex_legacy_delta usage last_usage previous reset implicit_request_count
    if delta.is_zero then (self, none)
    else
      let may_drop := dated_on_or_after outside.time timestamp
        CODEX_LEGACY_REPEAT_FROM_UNIX_SECONDS
      match self.codex_legacy_ui_repeat last_usage usage delta may_drop with
      | (self, true) => (self, none)
      | (self, false) => (self, some (resolved_model, delta))

end SnapshotAccumulator

/-- True when the running turn paid for the fast mode, per the `logs_2`
request tier. -/
def Context.current_turn_is_priority {R : Type} (self : Context R) : Bool :=
  match self.latest_turn_id, self.codex_turn_traces with
  | some turn_id, some traces => traces turn_id
  | _, _ => false

def in_codex_forward_evidence_epoch (time : Rfc3339) (timestamp : Option String) : Bool :=
  dated_on_or_after time timestamp CODEX_FORWARD_EVIDENCE_FROM_UNIX_SECONDS

def Context.stamp_codex_thread_tier {R : Type} (self : Context R) (time : Rfc3339)
    (selector : SelectorCapture) (timestamp : Option String) : SelectorCapture :=
  match self.current_selector.context.get? CODEX_THREAD_TIER with
  | none => selector
  | some tier =>
    if in_codex_forward_evidence_epoch time timestamp &&
        !selector.context.contains "service_tier" &&
        !self.current_selector.context.contains "service_tier" then
      selector.insert "service_tier" tier "derived_from_thread_settings"
    else selector

end ottto_service.accumulator
