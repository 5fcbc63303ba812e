-- The literal emitter (snapshots/claude_request_money/emit.rs): the grains of a session become the
-- rows of its item, staged whole before the item changes.
import Ottto.FileFold

namespace ottto_service.claude_request_money.emit

open Words usage accumulator snapshots.wire
open claude_request_money (SnapshotItem)

-- The fingerprint of an item's semantic components.
variable (time : Rfc3339) (snapshot_fingerprint : SnapshotItem → String)

/-! ## Rows -/

def dollars (micros : UInt64) : String := usd_picos_string (micros.toNat * 1000000)

def removed (tokens : ClaudeMoneyTokens) : ClaudeRemovedUsage where
  input_tokens := tokens.input
  output_tokens := tokens.output
  cache_read_tokens := tokens.cache_read
  cache_creation_5m_tokens := tokens.cache_5m
  cache_creation_1h_tokens := tokens.cache_1h
  unattributed_total_tokens := tokens.unattributed
  reasoning_output_tokens := tokens.reasoning

def origin_name : ClaudeRequestUsageOrigin → String
  | .TelemetryMatched => "telemetry_matched"
  | .TelemetryReported => "telemetry_reported"
  | .TelemetryUnpriced => "telemetry_unpriced"

/-- The selectors of a grain with its origin, without the mark of an unproven copy. -/
def origin_context (key : ClaudeLiveKey) (origin : Option ClaudeRequestUsageOrigin) :
    SortedMap String String :=
  origin.elim (key.selectors.erase COPY_UNPROVEN_KEY) (fun origin =>
    (key.selectors.erase COPY_UNPROVEN_KEY).insert "request_usage_origin" (origin_name origin))

/-- The selectors that the row has fields for. -/
def HOISTED_FIELDS : List String := "reasoning_effort" :: ROW_BILLING_FIELDS

def grain_row (key : ClaudeLiveKey) (origin : Option ClaudeRequestUsageOrigin)
    (grain : ClaudeGrainSide) (account : Option String) : SnapshotModelUsage :=
  let context := origin_context key origin
  { model := key.model
    input_tokens := grain.tokens.input
    output_tokens := grain.tokens.output
    cache_read_tokens := grain.tokens.cache_read
    cache_creation_5m_tokens := grain.tokens.cache_5m
    cache_creation_1h_tokens := grain.tokens.cache_1h
    reasoning_output_tokens := grain.tokens.reasoning
    unattributed_total_tokens := grain.tokens.unattributed
    request_count := grain.requests
    reasoning_effort := context.get? "reasoning_effort"
    auth_mode := context.get? "auth_mode"
    billing_channel := context.get? "billing_channel"
    billing_provider := context.get? "billing_provider"
    gateway_provider := context.get? "gateway_provider"
    model_provider := context.get? "model_provider"
    subscription_product := context.get? "subscription_product"
    selector_context := context.filterKeys (fun field => !HOISTED_FIELDS.contains field)
    selector_sources :=
      origin.elim .empty (fun _ => SortedMap.empty.insert "request_usage_origin" "claude_api_request")
    account_identifier_hash := account
    copy_unproven := key.selectors.contains COPY_UNPROVEN_KEY
    cost_usd := grain.cost.map dollars
    input_cost_usd := none
    output_cost_usd := none
    cache_read_cost_usd := none
    cache_creation_cost_usd := none }

/-! ## Staging -/

/-- What the grains so far come to. -/
structure Staged where
  tokens : ClaudeMoneyTokens := {}
  requests : UInt64 := 0
  cost : Option UInt64 := none
  buckets : SortedMap String (List SnapshotModelUsage) := .empty
  /-- The place of a row in its bucket, and its cost. -/
  positions : SortedMap (String ×ₗ RowKey) (Nat × Option UInt64) := .empty
  row_costs : SortedMap RowKey (Option UInt64) := .empty

/-- Two costs of one row: unknown unless both are known, `none` when the sum overflows. -/
def add_row_cost (prior cost : Option UInt64) : Option (Option UInt64) :=
  match prior, cost with
  | some a, some b => (checked_add a b).map some
  | _, _ => some none

/-- The cost of the session takes the cost of a priced grain. -/
def add_session_cost (cost own_cost : Option UInt64) : Option (Option UInt64) :=
  match own_cost with
  | some own_cost => (checked_add (cost.getD 0) own_cost).map some
  | none => some cost

/-- A row with the usage and the cost of two rows. -/
def combined (existing : SnapshotModelUsage) (usage : UsageTotals) (cost : Option UInt64) :
    BucketRowAccumulator where
  selector_context := existing.selector_context
  selector_sources := existing.selector_sources
  reasoning_effort := existing.reasoning_effort
  usage := { usage with
    costs := { usage.costs with
      total := cost.map (fun micros => BitVec.ofNat 128 (micros.toNat * 1000000)) } }

/-- A row takes the usage and the cost of another of its key. -/
def combine (account : Option String) (row_key : RowKey) (existing row : SnapshotModelUsage)
    (cost : Option UInt64) : Option SnapshotModelUsage :=
  ((usage_totals_from_model_usage existing).add (usage_totals_from_model_usage row)).map
    (fun usage =>
      { model_usage_from_row row_key (combined existing usage cost) with
        account_identifier_hash := account })

/-- One grain of the loop, refused when a sum overflows. -/
def stage_grain (account : Option String) (staged : Staged) (e : GrainKey × ClaudeGrainSide) :
    Option Staged := do
  let ⟨⟨key, origin, _⟩, grain⟩ := e
  let requests ← checked_add staged.requests grain.requests
  let cost ← add_session_cost staged.cost grain.cost
  let row := grain_row key origin grain account
  let row_key := row_key_from_model_usage row
  let row_cost ← (match staged.row_costs.get? row_key with
    | none => some grain.cost
    | some prior => add_row_cost prior grain.cost)
  let identity := toLex (key.bucket_start, row_key)
  let rows := (staged.buckets.get? key.bucket_start).getD []
  let staged := { staged with
    tokens := staged.tokens.add grain.tokens
    requests, cost
    row_costs := staged.row_costs.insert row_key row_cost }
  match staged.positions.get? identity with
  | some (position, prior) =>
    let existing ← rows[position]?
    let cost ← add_row_cost prior grain.cost
    let combined ← combine account row_key existing row cost
    some { staged with
      buckets := staged.buckets.insert key.bucket_start (rows.set position combined)
      positions := staged.positions.insert identity (position, cost) }
  | none =>
    some { staged with
      buckets := staged.buckets.insert key.bucket_start (rows ++ [row])
      positions := staged.positions.insert identity (rows.length, grain.cost) }

def stage_grains (account : Option String) (staged : Staged)
    (grains : List (GrainKey × ClaudeGrainSide)) : Option Staged :=
  grains.foldlM (stage_grain account) staged

/-! ## The item -/

def uniform_session_account_hash (item : SnapshotItem) : Option String :=
  let carried := item.request_evidence.any (fun entry => entry.account_source.isSome)
  let accounts := (item.model_usage ++ item.usage_buckets.flatMap (fun b => b.model_usage)).flatMap
    (fun row =>
      match row.identity_parts.filter (fun _ => carried) with
      | none => [row.account_identifier_hash]
      | some parts => parts.map (fun part => part.account_identifier_hash))
  match accounts with
  | some first :: rest => if rest.all (fun account => account == some first) then some first else none
  | _ => none

def exact_session_account_hash (item : SnapshotItem) : Option String :=
  if item.request_evidence.any (fun entry =>
      entry.account_source.isSome || entry.identity_basis == "transcript_recorded_login") then none
  else uniform_session_account_hash item

/-- `rebuild_snapshot_model_usage_with`: the rows of every hour, merged by their keys. -/
def session_rows (buckets : List SnapshotUsageBucket) : SortedMap RowKey BucketRowAccumulator :=
  (buckets.flatMap (fun bucket => bucket.model_usage)).foldl
    (fun rows row => merge_session_row rows (row_key_from_model_usage row)
      { selector_context := row.selector_context
        selector_sources := row.selector_sources
        usage := usage_totals_from_model_usage row
        reasoning_effort := row.reasoning_effort }) .empty

/-- The one account that every bucket row has. -/
def rows_account (buckets : List SnapshotUsageBucket) : Option String :=
  let accounts := (buckets.flatMap (fun bucket => bucket.model_usage)).map
    (fun row => row.account_identifier_hash)
  match (accounts.filterMap id).dedup with
  | [account] => if accounts.all (fun account => account.isSome) then some account else none
  | _ => none

def MAX : Nat := 2 ^ 53 - 1

/-- Every number of the body that the wire carries. -/
def wire_numbers (tokens : ClaudeMoneyTokens) (requests : UInt64) (entity : ClaudeEntityBody) :
    List UInt64 :=
  let r := removed entity.removed
  [tokens.input, tokens.output, tokens.cache_read, tokens.cache_5m, tokens.cache_1h,
    tokens.unattributed, tokens.reasoning, requests, r.input_tokens, r.output_tokens,
    r.cache_read_tokens, r.cache_creation_5m_tokens, r.cache_creation_1h_tokens,
    r.unattributed_total_tokens, r.reasoning_output_tokens, entity.removed_requests,
    entity.resolver_conflicts]

def bucket_of (entity : ClaudeEntityBody) (e : String × List SnapshotModelUsage) :
    SnapshotUsageBucket where
  bucket_start := e.1
  model_usage := e.2
  first_activity_at := (entity.bucket_activity.get? e.1).bind (fun activity => time.format activity.1)
  last_activity_at := (entity.bucket_activity.get? e.1).bind (fun activity => time.format activity.2)

/-- The marked rows of the hours and their requests. -/
def copy_unproven_counts (buckets : List SnapshotUsageBucket) : Option CopyUnprovenCounts :=
  let marked := (buckets.flatMap (fun bucket => bucket.model_usage)).filter
    (fun row => row.copy_unproven)
  if 0 < marked.length then
    some { rows := marked.length
           requests := marked.foldl (fun requests row => requests + row.request_count) 0 }
  else none

/-- A session row with the sum of its own costs. -/
def session_row (row_costs : SortedMap RowKey (Option UInt64)) (account : Option String)
    (e : RowKey × BucketRowAccumulator) : SnapshotModelUsage :=
  let row := { model_usage_from_row e.1 e.2 with account_identifier_hash := account }
  { row with cost_usd := ((row_costs.get? (row_key_from_model_usage row)).join).map dollars }

/-- The clocks move only forward; the end of path twins follows their summed clock. -/
def SnapshotItem.advanced (item : SnapshotItem) (entity : ClaudeEntityBody) (summed : Bool) :
    SnapshotItem :=
  let latest := max entity.activity_nanos (entity.activity_unix.toNat * 1000000000)
  let nanos := fun (clock : Option String) => (clock.bind time.parse).getD 0
  match time.format latest with
  | none => item
  | some clock =>
    let advances := decide (nanos item.source_last_activity_at < latest)
    let ends :=
      if summed then decide (0 < latest) && decide (nanos item.source_ended_at ≤ latest)
      else advances
    { item with
      source_ended_at := if ends then some clock else item.source_ended_at
      source_last_activity_at := if advances then some clock else item.source_last_activity_at }

/-- The item with the staged body. -/
def SnapshotItem.with_body (item : SnapshotItem) (entity : ClaudeEntityBody) (staged : Staged) :
    SnapshotItem :=
  let usage_buckets := staged.buckets.entries.map (bucket_of time entity)
  { item with
    input_tokens := staged.tokens.input
    output_tokens := staged.tokens.output
    cache_read_tokens := staged.tokens.cache_read
    cache_creation_5m_tokens := staged.tokens.cache_5m
    cache_creation_1h_tokens := staged.tokens.cache_1h
    unattributed_total_tokens := staged.tokens.unattributed
    reasoning_output_tokens := staged.tokens.reasoning
    request_count := staged.requests
    usage_buckets
    model_usage := (session_rows usage_buckets).entries.map
      (session_row staged.row_costs (rows_account usage_buckets))
    copy_unproven_counts := copy_unproven_counts usage_buckets
    cost := staged.cost.map (fun micros =>
      { total_cost_usd := some (dollars micros), evidence_source := "claude_code_api_request" })
    usage_accounting_contract := some "claude_request_owned_usage:v1"
    removed_request_count := some entity.removed_requests
    removed_usage := some (removed entity.removed)
    telemetry_owned_complete := some entity.telemetry_owned_complete
    resolver_conflict_count :=
      if 0 < entity.resolver_conflicts then some entity.resolver_conflicts else none }

/-- The item with the staged body, its clocks and its new fingerprint. -/
def SnapshotItem.written (item : SnapshotItem) (entity : ClaudeEntityBody) (staged : Staged)
    (summed : Bool) : SnapshotItem :=
  let item := SnapshotItem.advanced time (SnapshotItem.with_body time item entity staged) entity summed
  { item with snapshot_fingerprint := snapshot_fingerprint item }

/-- The rows carry identity of an earlier emission. -/
def tagged (item : SnapshotItem) : Bool :=
  !item.request_evidence.isEmpty ||
    (item.model_usage ++ item.usage_buckets.flatMap (fun b => b.model_usage)).any
      (fun row => row.evidence_ref.isSome || row.identity_parts.isSome)

/-- Whether the body was emitted, and the item. -/
def apply (item : SnapshotItem) (entity : ClaudeEntityBody) (summed : Bool) :
    Bool × SnapshotItem :=
  if entity.held || !entity.certificate_ok then (false, item)
  else if tagged item then (false, item)
  else
    match stage_grains (exact_session_account_hash item) {} entity.grains.entries with
    | none => (false, item)
    | some staged =>
      if (wire_numbers staged.tokens staged.requests entity).any
          (fun n => decide (MAX < n.toNat)) then (false, item)
      else (true, SnapshotItem.written time snapshot_fingerprint item entity staged summed)

end ottto_service.claude_request_money.emit
