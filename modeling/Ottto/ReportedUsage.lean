-- Rebuilding a Claude item from the usage that its API rows report
-- (snapshots/sources/claude/census/usage_ledger.rs): each request takes its usage from the
-- transcript or from its row, and the hours and the session take the rows.
import Ottto.SnapshotWire
import Ottto.UsageLedger

namespace ottto_service.claude_reported_usage

open Words usage accumulator claude_usage_ledger
open snapshots.wire hiding SnapshotItem
open durable_tail_codec.Durable (as_bytes)
open json_fields (trim)

def CLAUDE_EFFORT_TIERS : List String := ["low", "medium", "high", "xhigh", "max"]

/-! ## What a row reports -/

inductive CacheCreation where
  | Split (five_m one_h : UInt64)
  | Unattributed (total : UInt64)
  | Contradictory

def claude_cache_creation (total five_m one_h : UInt64) : CacheCreation :=
  match checked_add five_m one_h with
  | none => .Contradictory
  | some split =>
    if split = 0 then .Unattributed total
    else if total = 0 ∨ total = split then .Split five_m one_h
    else .Contradictory

/-- The split of the cache creation, and what no split attributes. -/
def claude_api_cache_creation (row : ClaudeLocalOtelEvidence) : Option (UInt64 × UInt64 × UInt64) :=
  match claude_cache_creation row.cache_creation_tokens row.cache_creation_5m_tokens
      row.cache_creation_1h_tokens with
  | .Split five_m one_h => some (five_m, one_h, 0)
  | .Unattributed total => some (0, 0, total)
  | .Contradictory => none

/-- Only a count that the sidecar reported must be the transcript's. -/
def claude_api_reasoning_matches (reported transcript : UInt64) : Bool :=
  reported == 0 || reported == transcript

def to_ascii_lowercase (c : Char) : Char := if c.isUpper then c.toLower else c

/-- `normalize_selector_raw("speed_mode", ..)` of a text. -/
def normalize_speed_mode (text : String) : Option String :=
  let normalized := String.ofList ((trim text).toList.map (fun c =>
    let c := to_ascii_lowercase c
    if c = ' ' ∨ c = '-' then '_' else c))
  if normalized = "" then none
  else if normalized ∈ ["normal", "default", "base"] then some "standard"
  else some normalized

/-- `insert_selector_raw` of a speed. -/
def insert_speed_mode (capture : SelectorCapture) (text : String) : SelectorCapture :=
  match normalize_speed_mode text with
  | none => capture
  | some normalized =>
    let capture := capture.insert "speed_mode" normalized "claude_code.api_request.speed"
    if normalized = "fast" then capture.insert "service_tier" "fast" "derived_from_speed"
    else capture

/-- Micro-dollars as pico-dollars. -/
def cost_picos (row : ClaudeLocalOtelEvidence) : Option (BitVec 128) :=
  row.cost_usd_micros.bind (fun micros =>
    if micros.toNat * 1000000 < 2 ^ 128 then some (BitVec.ofNat 128 (micros.toNat * 1000000))
    else none)

/-! ## The item -/

structure ClaudeTranscriptUsageOccurrence where
  sequence : UInt64 := 0
  usage : UsageTotals := {}
  model : Option String := none
  selector : SelectorCapture := {}
  reasoning_effort : Option String := none
  timestamp : Option String := none
  event_clock_complete : Bool := false

/-- An item with the requests of its transcript. -/
structure SnapshotItem extends snapshots.wire.SnapshotItem where
  claude_usage_request_ids : SortedMap String Unit := .empty
  claude_usage_occurrences : SortedMap String ClaudeTranscriptUsageOccurrence := .empty

/-! ## One row -/

/-- A request as it is handed to the request sink. -/
structure Request where
  request_id : String
  occurrence : Option (UInt64 × Bool)
  timestamp : String
  bucket_start : String
  row_key : RowKey
  usage : UsageTotals
deriving DecidableEq

/-- The requests handed so far, where there is a sink. -/
abbrev RequestSink : Type := Option (List Request)

def RequestSink.add (sink : RequestSink) (request : Request) : RequestSink :=
  sink.map (fun handed => handed ++ [request])

/-- What one row counts as. -/
structure Reading where
  usage : UsageTotals
  model : String
  timestamp : String
  selector : SelectorCapture
  effort : Option String

/-- The occurrence reports the numbers of the row. -/
def transcript_matches (row : ClaudeLocalOtelEvidence) (api_cache_creation : UInt64)
    (occurrence : ClaudeTranscriptUsageOccurrence) : Bool :=
  row.input_tokens == occurrence.usage.input_tokens &&
    row.output_tokens == occurrence.usage.output_tokens &&
    row.cache_read_tokens == occurrence.usage.cache_read_tokens &&
    claude_api_reasoning_matches row.reasoning_output_tokens
      occurrence.usage.reasoning_output_tokens &&
    some api_cache_creation == checked_add occurrence.usage.cache_creation_5m_tokens
      occurrence.usage.cache_creation_1h_tokens &&
    occurrence.model.all (fun model => model == row.model)

/-- The speed that a row reports, unless the transcript has another one. -/
def row_selector (row : ClaudeLocalOtelEvidence) (selector : SelectorCapture) :
    Option SelectorCapture :=
  if trim row.speed = "" then some selector
  else if (normalize_speed_mode row.speed).any (fun speed =>
      (selector.context.get? "speed_mode").any (fun existing => existing != speed)) then none
  else some (insert_speed_mode selector row.speed)

/-- The effort of the transcript or else of the row, which do not contradict each other. -/
def row_effort (row : ClaudeLocalOtelEvidence) (transcript : Option String) :
    Option (Option String) :=
  let reported := if row.effort ∈ CLAUDE_EFFORT_TIERS then some row.effort else none
  match transcript, reported with
  | some transcript, some reported =>
    if transcript = reported then some (some transcript) else none
  | _, _ => some (transcript.or reported)

/-- The usage of a request: one request, at the cost of its row. -/
def priced (usage : UsageTotals) (cost : Option (BitVec 128)) : UsageTotals :=
  { usage with
    request_count := 1
    costs := match cost with
      | some cost => { observed := true, reported := true, total := some cost }
      | none => {} }

/-- A row read beside the transcript. Each refusal here comes before the request is handed on. -/
def read_row (item : SnapshotItem) (row : ClaudeLocalOtelEvidence) : Option Reading := do
  let (cache_5m, cache_1h, cache_unattributed) ← claude_api_cache_creation row
  let api_cache_creation ← checked_add cache_5m cache_1h
  let api_cache_creation ← checked_add api_cache_creation cache_unattributed
  let occurrence := item.claude_usage_occurrences.get? row.request_id
  let selector ← row_selector row ((occurrence.map (fun o => o.selector)).getD {})
  let effort ← row_effort row (occurrence.bind (fun o => o.reasoning_effort))
  match occurrence with
  | some occurrence =>
    if transcript_matches row api_cache_creation occurrence then
      some {
        usage := priced occurrence.usage (cost_picos row)
        model := occurrence.model.getD row.model
        timestamp := occurrence.timestamp.getD row.observed_at
        selector, effort }
    else none
  | none =>
    some {
      usage := priced {
        input_tokens := row.input_tokens
        output_tokens := row.output_tokens
        cache_read_tokens := row.cache_read_tokens
        cache_creation_5m_tokens := cache_5m
        cache_creation_1h_tokens := cache_1h
        reasoning_output_tokens := row.reasoning_output_tokens
        unattributed_total_tokens := cache_unattributed } (cost_picos row)
      model := row.model
      timestamp := row.observed_at
      selector, effort }

/-- The running sums. -/
structure Sums where
  totals : UsageTotals := {}
  buckets : SortedMap String UsageBucketState := .empty
  total_cost_picos : BitVec 128 := 0
  cost_complete : Bool := true

/-- The sum of the costs, which an unpriced row leaves incomplete. -/
def Sums.add_cost (self : Sums) (cost : Option (BitVec 128)) : Option Sums :=
  match cost with
  | some cost => (checked_add128 self.total_cost_picos cost).map
      (fun total_cost_picos => { self with total_cost_picos })
  | none => some { self with cost_complete := false }

/-- The row of one hour takes a usage, unless a counter overflows. -/
def add_row (rows : SortedMap RowKey BucketRowAccumulator) (row_key : RowKey)
    (row : BucketRowAccumulator) : Option (SortedMap RowKey BucketRowAccumulator) :=
  match rows.get? row_key with
  | some existing =>
    (existing.usage.add row.usage).map (fun usage => rows.insert row_key
      { existing with
        selector_sources := existing.selector_sources.extend row.selector_sources
        usage })
  | none => some (rows.insert row_key row)

section

variable (out : Outside) (selector_digest : SortedMap String String → String)

/-- One row of the loop: the sums, or a refusal, and the sink as it was left. -/
def add_reported_row (item : SnapshotItem) (sums : Sums) (sink : RequestSink)
    (row : ClaudeLocalOtelEvidence) : Option Sums × RequestSink :=
  match read_row item row with
  | none => (none, sink)
  | some reading =>
    match sums.add_cost (cost_picos row) with
    | none => (none, sink)
    | some sums =>
      match sums.totals.add reading.usage with
      | none => (none, sink)
      | some totals =>
        match activity_bucket_from_timestamp out.time reading.timestamp with
        | none => (none, sink)
        | some (bucket_start, normalized_timestamp) =>
          let (row_key, selector_context, selector_sources) :=
            build_row_identity selector_digest reading.model reading.selector reading.effort
          let sink := sink.add {
            request_id := row.request_id
            occurrence := (item.claude_usage_occurrences.get? row.request_id).map
              (fun o => (o.sequence, o.event_clock_complete))
            timestamp := reading.timestamp
            bucket_start, row_key
            usage := reading.usage }
          let bucket := ((sums.buckets.get? bucket_start).getD {}).note_activity_at out.time
            normalized_timestamp
          match add_row bucket.rows row_key
              { selector_context, selector_sources, usage := reading.usage
                reasoning_effort := reading.effort } with
          | none => (none, sink)
          | some rows =>
            (some { sums with
              totals
              buckets := sums.buckets.insert bucket_start { bucket with rows } }, sink)

def add_reported_rows (item : SnapshotItem) :
    List ClaudeLocalOtelEvidence → Sums → RequestSink → Option Sums × RequestSink
  | [], sums, sink => (some sums, sink)
  | row :: rows, sums, sink =>
    match add_reported_row out selector_digest item sums sink row with
    | (none, sink) => (none, sink)
    | (some sums, sink) => add_reported_rows item rows sums sink

/-! ## The rebuild -/

structure PreparedClaudeReportedUsage where
  totals : UsageTotals
  model_usage : List SnapshotModelUsage
  usage_buckets : List SnapshotUsageBucket
  reported_activity : UsageBucketState
  cost : Option SnapshotCost

/-- The one account of the rows, when each of them was checked. -/
def rows_account (rows : List ClaudeLocalOtelEvidence) : Option String :=
  match (rows.filterMap (fun row => row.account_identifier_hash)).dedup with
  | [hash] => if rows.all (fun row => row.account_identity_checked) then some hash else none
  | _ => none

/-- The hours' own earliest and latest activity. -/
def reported_activity (buckets : SortedMap String UsageBucketState) : UsageBucketState :=
  buckets.values.foldl (fun activity bucket =>
    let activity := bucket.first_activity_at.elim activity (activity.note_activity_at out.time)
    bucket.last_activity_at.elim activity (activity.note_activity_at out.time)) {}

/-- The rows as they go on the wire, with the account of the session. -/
def wire_rows (account : Option String) (rows : SortedMap RowKey BucketRowAccumulator) :
    List SnapshotModelUsage :=
  rows.entries.map (fun e =>
    { model_usage_from_row e.1 e.2 with account_identifier_hash := account })

/-- The rows of every hour, merged by their keys. -/
def session_rows (buckets : SortedMap String UsageBucketState) :
    SortedMap RowKey BucketRowAccumulator :=
  (buckets.values.flatMap (fun bucket => bucket.rows.entries)).foldl
    (fun rows e => merge_session_row rows e.1 e.2) .empty

/-- What the sums are written as. -/
def Sums.prepared (self : Sums) (account : Option String) : Option PreparedClaudeReportedUsage :=
  if (session_rows self.buckets).isEmpty then none
  else some {
    totals := self.totals
    model_usage := wire_rows account (session_rows self.buckets)
    usage_buckets := self.buckets.entries.map (fun e =>
      { bucket_start := e.1
        model_usage := wire_rows account e.2.rows
        first_activity_at := e.2.first_activity_at
        last_activity_at := e.2.last_activity_at })
    reported_activity := reported_activity out self.buckets
    cost := if self.cost_complete then
        some { total_cost_usd := some (usd_picos_string self.total_cost_picos.toNat)
               evidence_source := "claude_code_api_request" }
      else none }

def request_hash (request_id : String) : String := sha256_hex out (as_bytes request_id)

/-- The item's own requests are rows, and no row is excluded. -/
def rows_cover (item : SnapshotItem) (rows : List ClaudeLocalOtelEvidence)
    (excluded_request_hashes : Finset String) : Bool :=
  let owned_request_ids := item.claude_usage_request_ids.keys.filter
    (fun request_id => decide (request_hash out request_id ∉ excluded_request_hashes))
  !rows.isEmpty &&
    item.claude_usage_occurrences.size == item.claude_usage_request_ids.size &&
    !owned_request_ids.isEmpty &&
    owned_request_ids.all (fun request_id => rows.any (fun row => row.request_id == request_id)) &&
    !rows.any (fun row => decide (request_hash out row.request_id ∈ excluded_request_hashes))

def prepare_claude_reported_usage (item : SnapshotItem) (rows : List ClaudeLocalOtelEvidence)
    (excluded_request_hashes : Finset String) (sink : RequestSink) :
    Option PreparedClaudeReportedUsage × RequestSink :=
  if rows_cover out item rows excluded_request_hashes then
    match add_reported_rows out selector_digest item rows {} sink with
    | (none, sink) => (none, sink)
    | (some sums, sink) => (sums.prepared out (rows_account rows), sink)
  else (none, sink)

/-- The item with what was prepared, its times moved only outward. -/
def SnapshotItem.rebuilt (item : SnapshotItem) (prepared : PreparedClaudeReportedUsage) :
    SnapshotItem :=
  let totals := prepared.totals
  let first := prepared.reported_activity.first_activity_at
  let last := prepared.reported_activity.last_activity_at
  { item with
    input_tokens := totals.input_tokens
    output_tokens := totals.output_tokens
    cache_read_tokens := totals.cache_read_tokens
    cache_creation_5m_tokens := totals.cache_creation_5m_tokens
    cache_creation_1h_tokens := totals.cache_creation_1h_tokens
    reasoning_output_tokens := totals.reasoning_output_tokens
    unattributed_total_tokens := totals.unattributed_total_tokens
    request_count := totals.request_count
    model_usage := prepared.model_usage
    usage_buckets := prepared.usage_buckets
    source_started_at := first.elim item.source_started_at (fun first =>
      if item.source_started_at.all (timestamp_is_before out.time first) then some first
      else item.source_started_at)
    source_last_activity_at := last.elim item.source_last_activity_at (fun last =>
      if item.source_last_activity_at.all (timestamp_is_after out.time last) then some last
      else item.source_last_activity_at)
    source_ended_at := last.elim item.source_ended_at (fun last =>
      if item.source_ended_at.any (timestamp_is_after out.time last) then some last
      else item.source_ended_at)
    cost := prepared.cost }

/-- The answer, the item and the sink. -/
def rebuild_claude_reported_usage (item : SnapshotItem) (rows : List ClaudeLocalOtelEvidence)
    (excluded_request_hashes : Finset String) (sink : RequestSink) :
    Bool × SnapshotItem × RequestSink :=
  match prepare_claude_reported_usage out selector_digest item rows excluded_request_hashes sink with
  | (none, sink) => (false, item, sink)
  | (some prepared, sink) => (true, item.rebuilt out prepared, sink)

end

end ottto_service.claude_reported_usage
