-- The rows of usage (scan/accumulator.rs): the selector of a line, the key
-- that names a row, the hour that holds it, and the placement of one usage.
import Ottto.SortedMap
import Ottto.Usage

open Words

namespace ottto_service.accumulator

open usage

/-! ## Times -/

/-- The `time` crate as the code uses it: `parse` reads an RFC 3339 text as
its nanoseconds from the epoch, and `format` writes the instant in UTC. A
text that `format` wrote reads back as its own instant. -/
structure Rfc3339 where
  parse : String → Option Int
  format : Int → Option String
  parse_format : ∀ t s, format t = some s → parse s = some t

/-- The crate at the texts of a table. -/
def Rfc3339.of_table (table : List (String × Int)) : Rfc3339 where
  parse s := table.lookup s
  format t := (table.find? (fun row => table.lookup row.1 == some t)).map Prod.fst
  parse_format := by
    intro t s h
    obtain ⟨row, hrow, rfl⟩ := Option.map_eq_some_iff.mp h
    have hread := List.find?_some hrow
    exact beq_iff_eq.mp hread

section Times

variable (time : Rfc3339)

def timestamp_is_before (candidate current : String) : Bool :=
  match time.parse candidate, time.parse current with
  | some candidate, some current => decide (candidate < current)
  | some _, none => true
  | none, some _ => false
  | none, none => decide (candidate < current)

def timestamp_is_after (candidate current : String) : Bool :=
  match time.parse candidate, time.parse current with
  | some candidate, some current => decide (current < candidate)
  | some _, none => true
  | none, some _ => false
  | none, none => decide (current < candidate)

/-- The start of the hour, and the time as it is written in UTC. `/` rounds
down on `Int`, as `div_euclid` does for a positive divisor. -/
def activity_bucket_from_timestamp (value : String) : Option (String × String) := do
  let parsed ← time.parse value
  let unix_timestamp := parsed / 1000000000
  let bucket_seconds := unix_timestamp / 3600 * 3600
  let bucket_start ← time.format (bucket_seconds * 1000000000)
  let normalized_timestamp ← time.format parsed
  some (bucket_start, normalized_timestamp)

/-- `none` for a time before 1970, which no `u64` holds. -/
def rfc3339_unix_seconds (value : String) : Option Int := do
  let parsed ← time.parse value
  let seconds := parsed / 1000000000
  if 0 ≤ seconds then some seconds else none

def dated_on_or_after (timestamp : Option String) (from_unix_seconds : Int) : Bool :=
  match timestamp.bind (rfc3339_unix_seconds time) with
  | some seconds => decide (from_unix_seconds ≤ seconds)
  | none => false

end Times

/-! ## The selector -/

structure SelectorCapture where
  context : SortedMap String String := .empty
  sources : SortedMap String String := .empty
deriving DecidableEq, Inhabited

namespace SelectorCapture

def insert (self : SelectorCapture) (field value source : String) : SelectorCapture :=
  { context := self.context.insert field value, sources := self.sources.insert field source }

def merge (self other : SelectorCapture) : SelectorCapture :=
  { context := self.context.extend other.context, sources := self.sources.extend other.sources }

end SelectorCapture

/-! ## The key of a row -/

structure RowKey where
  model : String
  selector_hash : String
  reasoning_effort : Option String
  auth_mode : Option String
  billing_channel : Option String
  billing_provider : Option String
  gateway_provider : Option String
  model_provider : Option String
  subscription_product : Option String
deriving DecidableEq

/-- `None` comes before every `Some` in the derived `Ord`. -/
def noneFirst : Option String → WithBot String
  | none => ⊥
  | some s => (s : WithBot String)

theorem noneFirst_injective : Function.Injective noneFirst := by
  intro a b h
  rcases a with _ | a <;> rcases b with _ | b <;> simp_all [noneFirst]

/-- The fields in the order that the derived `Ord` compares them. -/
def RowKey.fields (k : RowKey) :
    String ×ₗ String ×ₗ WithBot String ×ₗ WithBot String ×ₗ WithBot String ×ₗ WithBot String ×ₗ
      WithBot String ×ₗ WithBot String ×ₗ WithBot String :=
  toLex (k.model, toLex (k.selector_hash, toLex (noneFirst k.reasoning_effort,
    toLex (noneFirst k.auth_mode, toLex (noneFirst k.billing_channel,
      toLex (noneFirst k.billing_provider, toLex (noneFirst k.gateway_provider,
        toLex (noneFirst k.model_provider, noneFirst k.subscription_product))))))))

theorem RowKey.fields_injective : Function.Injective RowKey.fields := by
  intro a b h
  cases a
  cases b
  simpa [RowKey.fields, noneFirst_injective.eq_iff] using h

instance : LinearOrder RowKey := LinearOrder.lift' RowKey.fields RowKey.fields_injective

def ROW_BILLING_FIELDS : List String :=
  ["auth_mode", "billing_channel", "billing_provider", "gateway_provider", "model_provider",
    "subscription_product"]

def SELECTOR_CONTEXT_ALLOWED : List String :=
  ["service_tier", "speed_mode", "batch_mode", "cache_ttl", "region_mode", "platform",
    "context_bucket", "mode", "billing_channel", "auth_mode", "gateway_provider",
    "subscription_product", "attribution_subagent", "attribution_skill", "attribution_plugin",
    "attribution_mcp_server", "attribution_mcp_tool"]

/-- A field that stays in the reduced selector of a row. -/
def kept_field (field : String) : Bool :=
  !ROW_BILLING_FIELDS.contains field && SELECTOR_CONTEXT_ALLOWED.contains field

section Identity

-- The 16 hexadecimal digits of `sha256_hex` over the JSON text of a
-- selector context.
variable (selector_digest : SortedMap String String → String)

def selector_hash (selector_context : SortedMap String String) : String :=
  if selector_context.isEmpty then "base" else selector_digest selector_context

def build_row_identity (model : String) (merged : SelectorCapture)
    (reasoning_effort : Option String) :
    RowKey × SortedMap String String × SortedMap String String :=
  let hoisted := fun field => (merged.context.get? field).filter (fun value => value != "")
  let reduced_context := merged.context.filterKeys kept_field
  let reduced_sources := merged.sources.filterKeys kept_field
  let row_key : RowKey :=
    { model
      selector_hash := selector_hash selector_digest reduced_context
      reasoning_effort
      auth_mode := hoisted "auth_mode"
      billing_channel := hoisted "billing_channel"
      billing_provider := hoisted "billing_provider"
      gateway_provider := hoisted "gateway_provider"
      model_provider := hoisted "model_provider"
      subscription_product := hoisted "subscription_product" }
  (row_key, reduced_context, reduced_sources)

end Identity

/-! ## The rows of one hour -/

structure BucketRowAccumulator where
  selector_context : SortedMap String String
  selector_sources : SortedMap String String
  usage : UsageTotals
  reasoning_effort : Option String
deriving DecidableEq

structure UsageBucketState where
  rows : SortedMap RowKey BucketRowAccumulator := .empty
  first_activity_at : Option String := none
  last_activity_at : Option String := none
deriving DecidableEq, Inhabited

def UsageBucketState.note_activity_at (time : Rfc3339) (self : UsageBucketState)
    (timestamp : String) : UsageBucketState :=
  { self with
    first_activity_at := match self.first_activity_at with
      | some current =>
        if timestamp_is_before time timestamp current then some timestamp else some current
      | none => some timestamp
    last_activity_at := match self.last_activity_at with
      | some current =>
        if timestamp_is_after time timestamp current then some timestamp else some current
      | none => some timestamp }

/-! ## The placement of one usage -/

structure ClaudeRowPlacement where
  bucket : String
  normalized_timestamp : String
  row_key : RowKey
  reduced_context : SortedMap String String
  reduced_sources : SortedMap String String

structure PlacedClaudeUsage where
  model : String
  fell_back : Bool
  placement : Option ClaudeRowPlacement

def claude_row_placement (time : Rfc3339) (selector_digest : SortedMap String String → String)
    (model : String) (base selector : SelectorCapture) (effort timestamp fallback : Option String) :
    Option ClaudeRowPlacement := do
  let at_time ← timestamp.or fallback
  let (bucket, normalized_timestamp) ← activity_bucket_from_timestamp time at_time
  let merged := base.merge selector
  let (row_key, reduced_context, reduced_sources) :=
    build_row_identity selector_digest model merged effort
  some { bucket, normalized_timestamp, row_key, reduced_context, reduced_sources }

end ottto_service.accumulator
