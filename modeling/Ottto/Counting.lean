-- The Codex counting V2 on the accumulator (codex_usage_occurrence.rs): the
-- turn lifecycle, the native records, the staged UI rows, and the step of one
-- transcript line.
import Ottto.Accumulator
import Ottto.Runs

open Words

namespace ottto_service.codex_usage_occurrence

open serde_json json_fields usage accumulator codex_counting_version

/-! ## Closing and binding a turn -/

/-- An id that a start or a closure may name. -/
def bounded_turn_id (turn_id : Option String) : Option String :=
  turn_id.filter (fun id => id != "" && decide (id.utf8ByteSize ≤ MAX_TURN_ID_BYTES))

def BoundTurn.opened (id : String) : BoundTurn :=
  { id, native := false, ui_published := false, staged_events := 0, pending := .empty }

namespace OccurrenceReducer

section

variable (sha256 : List UInt8 → Fin 32 → UInt8)

/-- Closing with an id that is not the open turn's. -/
def note_mismatch (self : OccurrenceReducer) (closing_turn_id : Option String) :
    OccurrenceReducer :=
  let self := { self with
    counters := { self.counters with
      turn_closure_mismatch := self.counters.turn_closure_mismatch + 1 } }
  match bounded_turn_id closing_turn_id with
  | some closing => self.remember_closed sha256 closing
  | none => self

/-- Returns the staged rows that the closure publishes. -/
def close_codex_turn_content (self : OccurrenceReducer) (closing_turn_id : Option String) :
    OccurrenceReducer × Option Pending :=
  match self.turn with
  | none =>
    match bounded_turn_id closing_turn_id with
    | some closing => (self.remember_closed sha256 closing, none)
    | none => (self, none)
  | some turn =>
    let self := { self with turn := none }
    let self := if closing_turn_id.isSome ∧ closing_turn_id ≠ some turn.id then
        self.note_mismatch sha256 closing_turn_id
      else self
    (self.remember_closed sha256 turn.id,
      if !turn.native && !turn.ui_published then some turn.pending else none)

/-- The turn of a `task_started`. A closed id reopens only as an unbound
span. -/
def bind_turn (self : OccurrenceReducer) (turn_id : Option String) : OccurrenceReducer :=
  match turn_id with
  | none => { self with turn := none }
  | some id =>
    match self.closed sha256 id with
    | .Recent => { self with
        counters := { self.counters with turn_reopened := self.counters.turn_reopened + 1 }
        turn := none }
    | .Unconfirmed => { self with
        counters := { self.counters with
          closed_filter_hit_unconfirmed := self.counters.closed_filter_hit_unconfirmed + 1 }
        turn := none }
    | .No => { self with turn := some (BoundTurn.opened id) }

/-! ## Native authority -/

/-- A native outside the open turn: its usage goes to the receipt of the
reason. -/
def note_unbound_native (self : OccurrenceReducer) (native : NativeRecord) : OccurrenceReducer :=
  let counters := self.counters
  let closed := match native.turn_id with
    | some turn => self.closed sha256 turn
    | none => .No
  { self with
    counters := match closed with
      | .Recent => { counters with
          native_after_turn_closed := counters.native_after_turn_closed + 1
          native_after_turn_closed_usage :=
            add_t6 counters.native_after_turn_closed_usage native.usage }
      | .Unconfirmed => { counters with
          closed_filter_hit_unconfirmed := counters.closed_filter_hit_unconfirmed + 1
          closed_filter_hit_unconfirmed_native_usage :=
            add_t6 counters.closed_filter_hit_unconfirmed_native_usage native.usage }
      | .No => { counters with
          native_outside_open_turn := counters.native_outside_open_turn + 1
          native_outside_open_turn_usage :=
            add_t6 counters.native_outside_open_turn_usage native.usage } }

/-- The first native of the open turn: the staged rows are not counted. -/
def discard_staged (self : OccurrenceReducer) (turn : BoundTurn) : OccurrenceReducer :=
  { self with
    turn := some { turn with native := true, staged_events := 0, pending := .empty }
    counters := { self.counters with
      ui_in_native_turn_not_counted :=
        self.counters.ui_in_native_turn_not_counted + turn.staged_events
      ui_in_native_turn_not_counted_usage :=
        turn.pending.values.foldl (fun sum row => add_t6 sum (totals_t6 row.usage))
          self.counters.ui_in_native_turn_not_counted_usage } }

/-- What the bound turn makes of the money of a native. -/
def settle_native (self : OccurrenceReducer) (native : NativeRecord) (money : T6) :
    OccurrenceReducer × T6 :=
  match self.turn.filter (fun turn => decide (native.turn_id = some turn.id)) with
  | some turn =>
    if turn.ui_published then
      ({ self with
         counters := { self.counters with
           native_after_ui_flush := self.counters.native_after_ui_flush + 1
           native_after_ui_flush_usage :=
             add_t6 self.counters.native_after_ui_flush_usage native.usage } }, T6.zero)
    else if turn.native then (self, money)
    else (self.discard_staged turn, money)
  | none => (self.note_unbound_native sha256 native, T6.zero)

def note_codex_native_authority (self : OccurrenceReducer) (native : Option NativeRecord) :
    OccurrenceReducer × Option (NativeRecord × T6) :=
  match native with
  | none =>
    ({ self with
       counters := { self.counters with
         native_not_authority := self.counters.native_not_authority + 1 } }, none)
  | some native =>
    let (self, money) := self.cover native
    let (self, money) := self.settle_native sha256 native money
    if money.is_zero then (self, none)
    else
      ({ self with
         counters := { self.counters with native_counted := self.counters.native_counted + 1 } },
        some (native, money))

end

/-! ## The admission of a UI line -/

/-- `false` is the unbound span, admitted before the equal-total filter. -/
def admit_ui (self : OccurrenceReducer) (tuple : Option UiTuple) (legacy_delta : UsageTotals)
    (bound_delta : Option UsageTotals) : OccurrenceReducer × Option (UsageTotals × Bool) :=
  match self.turn with
  | none =>
    let self := { self with
      counters := { self.counters with
        ui_in_unbound_span := self.counters.ui_in_unbound_span + 1 } }
    (self.note_ui tuple, some (legacy_delta, false))
  | some _ =>
    match self.equal_total_repeat tuple legacy_delta with
    | (self, true) => (self, none)
    | (self, false) =>
      let self := self.note_ui tuple
      match bound_delta.filter (fun delta => !delta.is_zero) with
      | some delta => (self, some (delta, true))
      | none =>
        ({ self with
           counters := { self.counters with
             v2_cumulative_base_uncounted := self.counters.v2_cumulative_base_uncounted + 1
             v2_cumulative_base_uncounted_usage :=
               add_t6 self.counters.v2_cumulative_base_uncounted_usage
                 (totals_t6 legacy_delta) } }, none)

/-- A UI line of a turn that has a native. -/
def note_ui_in_native_turn (self : OccurrenceReducer) (delta : UsageTotals) : OccurrenceReducer :=
  { self with
    counters := { self.counters with
      ui_in_native_turn_not_counted := self.counters.ui_in_native_turn_not_counted + 1
      ui_in_native_turn_not_counted_usage :=
        add_t6 self.counters.ui_in_native_turn_not_counted_usage (totals_t6 delta) } }

/-- The staged rows of a turn that passed a cap. -/
def flush_turn (self : OccurrenceReducer) (turn : BoundTurn) : OccurrenceReducer :=
  { self with
    counters := { self.counters with
      pending_overflow_flushes := self.counters.pending_overflow_flushes + 1 }
    turn := some { turn with ui_published := true, staged_events := 0, pending := .empty } }

end OccurrenceReducer

/-! ## Staging -/

inductive Staging
  | Staged
  | Dropped
  | Overflow

/-- The source adds with saturation: a sum at `usize::MAX` is past the cap
too. -/
def pending_row_content_bytes (bucket_start : String) (key : RowKey)
    (context sources : SortedMap String String) : Nat :=
  let optional := fun (value : Option String) => (value.map String.utf8ByteSize).getD 0
  let map := fun (values : SortedMap String String) =>
    (values.entries.map (fun e => e.1.utf8ByteSize + e.2.utf8ByteSize)).sum
  bucket_start.utf8ByteSize + key.model.utf8ByteSize + key.selector_hash.utf8ByteSize +
    optional key.reasoning_effort + optional key.auth_mode + optional key.billing_channel +
    optional key.billing_provider + optional key.gateway_provider + optional key.model_provider +
    optional key.subscription_product + map context + map sources

/-- A staged row with one more usage. -/
def PendingRow.merged (time : Rfc3339) (row : PendingRow) (sources : SortedMap String String)
    (usage : UsageTotals) (activity_at : String) : PendingRow :=
  { row with
    selector_sources := sources
    usage := usage
    events := saturating_add row.events 1
    first_activity_at := if timestamp_is_before time activity_at row.first_activity_at
      then activity_at else row.first_activity_at
    last_activity_at := if timestamp_is_after time activity_at row.last_activity_at
      then activity_at else row.last_activity_at }

/-- The turn with a usage staged; `none` when a cap or a counter stops it. -/
def BoundTurn.stage (time : Rfc3339) (turn : BoundTurn) (bucket_start activity_at : String)
    (row_key : RowKey) (context sources : SortedMap String String) (usage : UsageTotals) :
    Option BoundTurn :=
  let content :=
    pending_row_content_bytes bucket_start row_key context sources + activity_at.utf8ByteSize * 2
  let key := toLex (bucket_start, row_key)
  let staged := fun row =>
    { turn with
      pending := turn.pending.insert key row
      staged_events := saturating_add turn.staged_events 1 }
  match turn.pending.get? key with
  | some row =>
    -- The row keeps the union of its sources: the cap is checked on it too.
    let merged_sources := row.selector_sources.extend sources
    let merged_content :=
      pending_row_content_bytes bucket_start row_key row.selector_context merged_sources +
        activity_at.utf8ByteSize * 2
    if MAX_PENDING_ROW_CONTENT_BYTES < content ∨ MAX_PENDING_ROW_CONTENT_BYTES < merged_content then
      none
    else (row.usage.add usage).map (fun usage => staged (row.merged time merged_sources usage activity_at))
  | none =>
    if MAX_PENDING_ROW_CONTENT_BYTES < content ∨ MAX_PENDING_ROWS ≤ turn.pending.size then none
    else some (staged
      { selector_context := context
        selector_sources := sources
        usage := usage
        events := 1
        first_activity_at := activity_at
        last_activity_at := activity_at })

/-! ## The version and the lifecycle -/

namespace CodexCounting

/-- The first owned record fixes the version. No cutover reads as Legacy. -/
def fix_version (time : Rfc3339) (self : CodexCounting) (value : Value) : CodexCounting :=
  match self.version with
  | some _ => self
  | none =>
    let version := match self.cutover_unix_ms with
      | none => .Legacy
      | some cutover => codex_counting_version.decide time value self.evidence cutover
    { self with
      version := some version
      reducer := if version = .V2 then some {} else self.reducer }

/-- Legacy keeps only the state of the repeat gate, from its first UI line
with a `last` that is not zero. -/
def note_legacy_line (self : CodexCounting) (value : Value) : CodexCounting :=
  let line_ui := ui_t6_pair value
  let counted := match line_ui with
    | some (last, _) => decide (∃ d, last d ≠ 0)
    | none => false
  let reducer := if self.reducer.isNone && counted then some {} else self.reducer
  { self with reducer := reducer.map (fun reducer => { reducer with line_ui := line_ui }) }

end CodexCounting

end ottto_service.codex_usage_occurrence

namespace ottto_service.accumulator.SnapshotAccumulator

open serde_json json_fields usage codex_counting_version codex_usage_occurrence

variable {R : Type} (outside : Outside R)

def publish_codex_pending (self : SnapshotAccumulator R) (pending : Pending) :
    SnapshotAccumulator R :=
  { self with toLedger := self.toLedger.publish_codex_pending outside.time pending }

/-- Closes the open turn, and publishes its staged rows when asked to. -/
def close_codex_turn (self : SnapshotAccumulator R) (closing_turn_id : Option String)
    (publish : Bool) : SnapshotAccumulator R :=
  match self.codex_occurrence with
  | none => self
  | some reducer =>
    match reducer.close_codex_turn_content outside.sha256 closing_turn_id with
    | (reducer, none) => self.with_occurrence reducer
    | (reducer, some pending) =>
      if publish then (self.with_occurrence reducer).publish_codex_pending outside pending
      else self.with_occurrence reducer

def bind_codex_turn (self : SnapshotAccumulator R) (turn_id : Option String) :
    SnapshotAccumulator R :=
  match self.codex_occurrence with
  | none => self
  | some reducer => self.with_occurrence (reducer.bind_turn outside.sha256 turn_id)

/-- The events of a turn. -/
def observe_codex_turn_event (self : SnapshotAccumulator R) (value : Value) (publish : Bool) :
    SnapshotAccumulator R :=
  let event := string_at value ["payload", "type"]
  let turn_id := string_at value ["payload", "turn_id"]
  if event = some "task_started" then
    (self.close_codex_turn outside none publish).bind_codex_turn outside (bounded_turn_id turn_id)
  else if event = some "task_complete" ∨ event = some "turn_aborted" then
    self.close_codex_turn outside turn_id publish
  else self

def observe_codex_turn_lifecycle (self : SnapshotAccumulator R) (value : Value) (publish : Bool) :
    SnapshotAccumulator R :=
  match self.codex_counting with
  | none => self
  | some counting =>
    let counting := counting.fix_version outside.time value
    if counting.version ≠ some .V2 then
      { self with codex_counting := some (counting.note_legacy_line value) }
    else
      match counting.reducer with
      | none => { self with codex_counting := some counting }
      | some reducer =>
        let reducer := { reducer with line_ui := ui_t6_pair value }
        { self with codex_counting := some { counting with reducer := some reducer } }
          |>.observe_codex_turn_event outside value publish

/-! ## Native records -/

/-- The selector of a native row, and the tier that the replay applied. -/
def native_selector (self : SnapshotAccumulator R) (value : Value) (timestamp model : Option String)
    (selector : SelectorCapture) (native : NativeRecord) :
    SelectorCapture × Option (String × String) :=
  let usage_selector := if self.current_turn_is_priority then
      selector.insert "service_tier" "priority" "derived_from_logs_2"
    else selector
  let model := model.or self.latest_model
  let (usage_selector, applied_tier) := match self.codex_tier_replay with
    | some replay => outside.tier_selector replay value usage_selector self.current_selector model
        self.latest_reasoning_effort self.latest_turn_id
    | none => (usage_selector, none)
  let usage_selector := self.stamp_codex_thread_tier outside.time usage_selector timestamp
  let bucket := model.bind
    (fun model => outside.provider_context_bucket model (native.usage T6.input) timestamp)
  let usage_selector := match usage_selector.context.contains "context_bucket", bucket with
    | false, some bucket =>
      usage_selector.insert "context_bucket" bucket "derived_from_native_usage"
    | _, _ => usage_selector
  (usage_selector, applied_tier)

def admit_codex_native (self : SnapshotAccumulator R) (value : Value) (timestamp : Option String)
    (selector : SelectorCapture) : SnapshotAccumulator R :=
  match self.codex_occurrence with
  | none => self
  | some reducer =>
    match reducer.note_codex_native_authority outside.sha256
        (native_record value self.source_session_id) with
    | (reducer, none) => self.with_occurrence reducer
    | (reducer, some (native, money)) =>
      let self := self.with_occurrence reducer
      let model := string_at value ["payload", "model"]
      let (usage_selector, applied_tier) :=
        self.native_selector outside value timestamp model selector native
      let self := self.add_usage_with_selector outside model (native_money money) usage_selector
        timestamp self.latest_reasoning_effort
      { self with
        codex_tier_replay :=
          self.codex_tier_replay.map (fun replay => outside.tier_admitted replay applied_tier) }

/-- Runs for every owned Codex line before the shared UI usage path. -/
def observe_codex_counting_line (self : SnapshotAccumulator R) (value : Value)
    (timestamp : Option String) (selector : SelectorCapture) : SnapshotAccumulator R :=
  let self := self.observe_codex_turn_lifecycle outside value true
  if !self.codex_counting_v2 then self
  else if string_eq_at value ["type"] "token_usage_record" then
    self.admit_codex_native outside value timestamp selector
  else self

/-! ## The UI lines -/

/-- The delta that Legacy counts, and the delta that a bound turn counts: no
bound turn counts an inherited or reset base. -/
def codex_ui_deltas (usage : UsageTotals) (last_usage previous : Option UsageTotals) (reset : Bool)
    (implicit_request_count : Option UInt64) : UsageTotals × Option UsageTotals :=
  let (legacy_delta, bound_delta) := match last_usage, previous with
    | some last, _ => (last, some last)
    | none, some previous =>
      if reset then (usage, none) else (usage.delta_from previous, some (usage.delta_from previous))
    | none, none => (usage, none)
  (with_count implicit_request_count legacy_delta,
    bound_delta.map (with_count implicit_request_count))

/-- The admission decision, with no publication or staging. -/
def decide_codex_usage (self : SnapshotAccumulator R) (model : Option String) (usage : UsageTotals)
    (last_usage : Option UsageTotals) (usage_event_identity : Option String)
    (implicit_request_count : Option UInt64) :
    SnapshotAccumulator R × Option (String × UsageTotals × Bool) :=
  match self.admit_codex_cumulative_usage model usage usage_event_identity with
  | (self, none) => (self, none)
  | (self, some (resolved_model, previous, reset)) =>
    let (legacy_delta, bound_delta) :=
      codex_ui_deltas usage last_usage previous reset implicit_request_count
    if legacy_delta.is_zero then (self, none)
    else
      match self.codex_occurrence with
      | none => (self, none)
      | some reducer =>
        let (reducer, tuple) := reducer.take_ui_tuple last_usage usage
        match reducer.admit_ui tuple legacy_delta bound_delta with
        | (reducer, none) => (self.with_occurrence reducer, none)
        | (reducer, some (delta, bound)) =>
          (self.with_occurrence reducer, some (resolved_model, delta, bound))

/-- Resolves the row as publication would at this record, without publishing
it. -/
def stage_codex_ui (self : SnapshotAccumulator R) (model : String) (usage : UsageTotals)
    (selector : SelectorCapture) (timestamp effort : Option String) :
    SnapshotAccumulator R × Staging :=
  let bucket_input := timestamp.or self.fallback_bucket_timestamp
  match bucket_input.bind (activity_bucket_from_timestamp outside.time) with
  | none => (self.note_dropped_usage, .Dropped)
  | some (bucket_start, activity_at) =>
    let merged := self.current_selector.merge selector
    let (row_key, context, sources) :=
      build_row_identity outside.selector_digest model merged effort
    match self.codex_occurrence with
    | none => (self, .Overflow)
    | some reducer =>
      match reducer.turn with
      | none => (self, .Overflow)
      | some turn =>
        match turn.stage outside.time bucket_start activity_at row_key context sources usage with
        | none => (self, .Overflow)
        | some turn => (self.with_occurrence { reducer with turn := some turn }, .Staged)

/-- Publishes the staged rows of a turn that passed a cap. -/
def flush_codex_turn (self : SnapshotAccumulator R) : SnapshotAccumulator R :=
  match self.codex_occurrence with
  | none => self
  | some reducer =>
    match reducer.turn with
    | none => self
    | some turn =>
      (self.with_occurrence (reducer.flush_turn turn)).publish_codex_pending outside turn.pending

/-- A UI line that `decide_codex_usage` admitted to the open turn. -/
def count_bound_ui (self : SnapshotAccumulator R) (resolved_model : String) (delta : UsageTotals)
    (selector : SelectorCapture) (timestamp effort : Option String) :
    SnapshotAccumulator R × Option UsageTotals :=
  match self.codex_occurrence with
  | none => (self, none)
  | some reducer =>
    match reducer.turn with
    | none => (self, none)
    | some turn =>
      if turn.native then
        (self.with_occurrence (reducer.note_ui_in_native_turn delta), some delta)
      else if turn.ui_published then
        (self.add_usage_with_selector outside (some resolved_model) delta selector timestamp effort,
          some delta)
      else
        match self.stage_codex_ui outside resolved_model delta selector timestamp effort with
        | (self, .Staged) => (self, some delta)
        | (self, .Dropped) => (self, some delta)
        | (self, .Overflow) =>
          ((self.flush_codex_turn outside).add_usage_with_selector outside (some resolved_model)
            delta selector timestamp effort, some delta)

def set_codex_v2_cumulative_usage (self : SnapshotAccumulator R) (model : Option String)
    (usage : UsageTotals) (last_usage : Option UsageTotals) (usage_event_identity : Option String)
    (selector : SelectorCapture) (timestamp : Option String)
    (implicit_request_count : Option UInt64) (effort : Option String) :
    SnapshotAccumulator R × Option UsageTotals :=
  match self.decide_codex_usage model usage last_usage usage_event_identity
      implicit_request_count with
  | (self, none) => (self, none)
  | (self, some (resolved_model, delta, false)) =>
    (self.add_usage_with_selector outside (some resolved_model) delta selector timestamp effort,
      some delta)
  | (self, some (resolved_model, delta, true)) =>
    self.count_bound_ui outside resolved_model delta selector timestamp effort

def set_cumulative_usage_with_selector (self : SnapshotAccumulator R) (model : Option String)
    (usage : UsageTotals) (last_usage : Option UsageTotals) (usage_event_identity : Option String)
    (selector : SelectorCapture) (timestamp : Option String)
    (implicit_request_count : Option UInt64) (effort : Option String) :
    SnapshotAccumulator R × Option UsageTotals :=
  if self.codex_counting_v2 then
    self.set_codex_v2_cumulative_usage outside model usage last_usage usage_event_identity selector
      timestamp implicit_request_count effort
  else
    match self.decide_codex_legacy_usage outside model usage last_usage usage_event_identity
        timestamp implicit_request_count with
    | (self, none) => (self, none)
    | (self, some (resolved_model, delta)) =>
      (self.add_usage_with_selector outside (some resolved_model) delta selector timestamp effort,
        some delta)

end ottto_service.accumulator.SnapshotAccumulator

/-! ## One line -/

namespace ottto_service.accumulator

open serde_json json_fields usage codex_counting_version codex_usage_occurrence

/-- The arguments of the usage call of a line. -/
structure UiCall where
  model : Option String
  usage : UsageTotals
  last_usage : Option UsageTotals
  usage_event_identity : Option String
  selector : SelectorCapture
  implicit_request_count : Option UInt64
  effort : Option String

/-- One owned Codex line. What the rest of the parser does with the running
values is any function of them: `note` runs before the counting, `ui` reads the
usage call, and `finish` runs after it. -/
structure Line (R : Type) where
  value : Value
  timestamp : Option String
  selector : SelectorCapture
  note : Context R → Context R
  ui : Context R → Option UiCall
  finish : Option UsageTotals → Context R → Context R

namespace SnapshotAccumulator

variable {R : Type} (outside : Outside R)

def noted (self : SnapshotAccumulator R) (line : Line R) : SnapshotAccumulator R :=
  { self with toContext := line.note self.toContext }

/-- The turn lifecycle of a line. -/
def lifecycle (self : SnapshotAccumulator R) (line : Line R) : SnapshotAccumulator R :=
  self.observe_codex_turn_lifecycle outside line.value true

/-- The native record of a line, if it is one. -/
def native (self : SnapshotAccumulator R) (line : Line R) : SnapshotAccumulator R :=
  if !self.codex_counting_v2 then self
  else if string_eq_at line.value ["type"] "token_usage_record" then
    self.admit_codex_native outside line.value line.timestamp line.selector
  else self

theorem observe_codex_counting_line_eq (self : SnapshotAccumulator R) (line : Line R) :
    self.observe_codex_counting_line outside line.value line.timestamp line.selector =
      (self.lifecycle outside line).native outside line := rfl

/-- The usage call of a line, if it has one. -/
def count_ui (self : SnapshotAccumulator R) (line : Line R) : SnapshotAccumulator R :=
  match line.ui self.toContext with
  | none => self
  | some call =>
    match self.set_cumulative_usage_with_selector outside call.model call.usage call.last_usage
        call.usage_event_identity call.selector line.timestamp call.implicit_request_count
        call.effort with
    | (self, admitted) => { self with toContext := line.finish admitted self.toContext }

def apply_codex_line (self : SnapshotAccumulator R) (line : Line R) : SnapshotAccumulator R :=
  let self := self.noted line
  let self :=
    self.observe_codex_counting_line outside line.value line.timestamp line.selector
  self.count_ui outside line

/-- A parser before its first line. -/
def fresh (context : Context R) (counting : Option CodexCounting) : SnapshotAccumulator R :=
  { toContext := context, toLedger := {}, codex_counting := counting }

end SnapshotAccumulator

end ottto_service.accumulator
