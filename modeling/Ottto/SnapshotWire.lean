-- What a session item carries on the wire (snapshots/wire.rs): its rows, its hours, its counters
-- and the texts of exact costs.
import Mathlib.Data.List.TakeWhile
import Ottto.LedgerOwners
import Ottto.Reconcile

namespace ottto_service.accumulator

open serde_json (Value)

def RowKey.billing_fields (self : RowKey) : List (String × Option String) :=
  [("auth_mode", self.auth_mode), ("billing_channel", self.billing_channel),
    ("billing_provider", self.billing_provider), ("gateway_provider", self.gateway_provider),
    ("model_provider", self.model_provider), ("subscription_product", self.subscription_product)]

/-- The first 16 digits of `sha256_hex` over the text of a selector context. -/
def selector_digest (context : SortedMap String String) : String :=
  let text := canonical_json.plain
    (.object (context.entries.map (fun entry => (entry.1, Value.string entry.2))))
  String.ofList ((durable_tail_codec.HDigest.hex
    (Sha256.digest (canonical_json.utf8 text ++ [0]))).toList.take 16)

def COPY_UNPROVEN_PARTITION : String := "copy_unproven:"

def copy_unproven_selector_hash (copy_unproven : Bool) (selector_hash : String) : String :=
  if copy_unproven then COPY_UNPROVEN_PARTITION ++ selector_hash else selector_hash

end ottto_service.accumulator

namespace ottto_service.snapshots.wire

open usage accumulator List
open claude_usage_ledger (strip_prefix_of)

def USD_PICO_SCALE : Nat := 1000000000000

/-! ## Exact costs -/

/-- `format!("{fraction:012}")` -/
def padded (fraction : Nat) : List Char :=
  let digits := Nat.toDigits 10 fraction
  List.replicate (12 - digits.length) '0' ++ digits

/-- `while ends_with('0') { pop }` -/
def without_trailing_zeros (text : List Char) : List Char :=
  (text.reverse.dropWhile (fun c => c == '0')).reverse

def usd_picos_string (value : Nat) : String :=
  let whole := value / USD_PICO_SCALE
  let fraction := value % USD_PICO_SCALE
  if fraction = 0 then String.ofList (Nat.toDigits 10 whole)
  else String.ofList (Nat.toDigits 10 whole ++ '.' :: without_trailing_zeros (padded fraction))

/-- A decimal text as pico-dollars. -/
def decimal_picos (text : String) : Nat :=
  let whole := text.toList.takeWhile (fun c => c != '.')
  let fraction := (text.toList.dropWhile (fun c => c != '.')).drop 1
  Nat.ofDigitChars 10 whole 0 * USD_PICO_SCALE +
    Nat.ofDigitChars 10 fraction 0 * 10 ^ (12 - fraction.length)

theorem digits_without_point (n : Nat) : ∀ c ∈ Nat.toDigits 10 n, (c != '.') = true := by
  intro c hc
  rw [bne_iff_ne]
  rintro rfl
  have hdigit := Nat.isDigit_of_mem_toDigits (by decide) (by decide) hc
  revert hdigit
  decide

theorem padded_length {fraction : Nat} (h : fraction < USD_PICO_SCALE) :
    (padded fraction).length = 12 := by
  have hshort : (Nat.toDigits 10 fraction).length ≤ 12 :=
    (Nat.length_toDigits_le_iff (by decide) (by decide)).mpr h
  unfold padded
  rw [length_append, length_replicate]
  omega

theorem padded_value (fraction : Nat) : Nat.ofDigitChars 10 (padded fraction) 0 = fraction := by
  unfold padded
  rw [Nat.ofDigitChars_append, Nat.ofDigitChars_replicate_zero, Nat.mul_zero,
    Nat.ofDigitChars_ten_toDigits]

/-- The zeros that were popped. -/
theorem trailing_zeros (text : List Char) :
    without_trailing_zeros text ++
      List.replicate (text.length - (without_trailing_zeros text).length) '0' = text := by
  unfold without_trailing_zeros
  have hsplit : text = (text.reverse.dropWhile (fun c => c == '0')).reverse ++
      (text.reverse.takeWhile (fun c => c == '0')).reverse := by
    rw [← reverse_append, takeWhile_append_dropWhile, reverse_reverse]
  have hzeros : (text.reverse.takeWhile (fun c => c == '0')).reverse =
      List.replicate (text.reverse.takeWhile (fun c => c == '0')).length '0' := by
    apply eq_replicate_iff.mpr
    refine ⟨length_reverse, ?_⟩
    intro c hc
    have hzero := mem_takeWhile_imp (mem_reverse.mp hc)
    exact beq_iff_eq.mp hzero
  have hlength := congrArg List.length hsplit
  rw [length_append, length_reverse, length_reverse] at hlength
  rw [length_reverse, hlength, Nat.add_sub_cancel_left, ← hzeros, ← hsplit]

/-- The text of a cost says it exactly. -/
theorem decimal_picos_string (value : Nat) : decimal_picos (usd_picos_string value) = value := by
  have hscale : 0 < USD_PICO_SCALE := by decide
  have hsum := Nat.div_add_mod value USD_PICO_SCALE
  unfold usd_picos_string
  simp only
  split
  · next hwhole =>
    unfold decimal_picos
    rw [String.toList_ofList, takeWhile_eq_self_iff.mpr (digits_without_point _),
      dropWhile_eq_nil_iff.mpr (digits_without_point _)]
    simp only [drop_nil, Nat.ofDigitChars_nil, Nat.zero_mul, Nat.add_zero,
      Nat.ofDigitChars_ten_toDigits]
    rw [Nat.mul_comm]
    omega
  · have hlength := padded_length (Nat.mod_lt value hscale)
    have hvalue := padded_value (value % USD_PICO_SCALE)
    have hzeros := trailing_zeros (padded (value % USD_PICO_SCALE))
    generalize without_trailing_zeros (padded (value % USD_PICO_SCALE)) = kept at hzeros ⊢
    rw [← hzeros, Nat.ofDigitChars_append, Nat.ofDigitChars_replicate_zero, hlength] at hvalue
    have hwhole := digits_without_point (value / USD_PICO_SCALE)
    unfold decimal_picos
    rw [String.toList_ofList, takeWhile_append_of_pos hwhole, dropWhile_append_of_pos hwhole]
    simp only [takeWhile_cons, dropWhile_cons, bne_self_eq_false, Bool.false_eq_true,
      if_false, append_nil, drop_succ_cons, drop_zero, Nat.ofDigitChars_ten_toDigits]
    rw [Nat.mul_comm (Nat.ofDigitChars 10 kept 0), hvalue, Nat.mul_comm]
    omega

/-! ## The item -/

/-- An exact share of a row that mixes accounts. -/
structure SnapshotIdentityPart where
  account_identifier_hash : Option String

/-- How a carried account reached a request. -/
inductive AccountSource where
  | CarriedForward
  | CarriedBackward
deriving DecidableEq

structure SnapshotRequestEvidence where
  identity_basis : String
  provider_workspace_hash : Option String
  account_source : Option AccountSource

structure SnapshotModelUsage where
  model : String
  copy_unproven : Bool
  input_tokens : UInt64
  output_tokens : UInt64
  cache_read_tokens : UInt64
  cache_creation_5m_tokens : UInt64
  cache_creation_1h_tokens : UInt64
  reasoning_output_tokens : UInt64
  reasoning_effort : Option String
  unattributed_total_tokens : UInt64
  request_count : UInt64
  selector_context : SortedMap String String
  selector_sources : SortedMap String String
  auth_mode : Option String
  billing_channel : Option String
  billing_provider : Option String
  gateway_provider : Option String
  model_provider : Option String
  subscription_product : Option String
  account_identifier_hash : Option String
  evidence_ref : Option UInt16 := none
  identity_parts : Option (List SnapshotIdentityPart) := none
  identity_retained : Bool := false
  copy_invalidated : Bool := false
  cost_usd : Option String
  input_cost_usd : Option String
  output_cost_usd : Option String
  cache_read_cost_usd : Option String
  cache_creation_cost_usd : Option String

structure SnapshotUsageBucket where
  bucket_start : String
  model_usage : List SnapshotModelUsage
  first_activity_at : Option String
  last_activity_at : Option String

structure SnapshotCost where
  total_cost_usd : Option String
  input_cost_usd : Option String := none
  output_cost_usd : Option String := none
  cache_read_cost_usd : Option String := none
  cache_creation_cost_usd : Option String := none
  evidence_source : String

structure SnapshotItem where
  source_session_id : String := ""
  snapshot_fingerprint : String := ""
  input_tokens : UInt64 := 0
  output_tokens : UInt64 := 0
  cache_read_tokens : UInt64 := 0
  cache_creation_5m_tokens : UInt64 := 0
  cache_creation_1h_tokens : UInt64 := 0
  reasoning_output_tokens : UInt64 := 0
  unattributed_total_tokens : UInt64 := 0
  request_count : UInt64 := 0
  model_usage : List SnapshotModelUsage := []
  usage_buckets : List SnapshotUsageBucket := []
  cost : Option SnapshotCost := none
  source_started_at : Option String := none
  source_ended_at : Option String := none
  source_last_activity_at : Option String := none
  request_evidence : List SnapshotRequestEvidence := []

def model_usage_from_row (row_key : RowKey) (row : BucketRowAccumulator) : SnapshotModelUsage where
  model := row_key.model
  copy_unproven := (strip_prefix_of COPY_UNPROVEN_PARTITION row_key.selector_hash).isSome
  input_tokens := row.usage.input_tokens
  output_tokens := row.usage.output_tokens
  cache_read_tokens := row.usage.cache_read_tokens
  cache_creation_5m_tokens := row.usage.cache_creation_5m_tokens
  cache_creation_1h_tokens := row.usage.cache_creation_1h_tokens
  reasoning_output_tokens := row.usage.reasoning_output_tokens
  reasoning_effort := row.reasoning_effort
  unattributed_total_tokens := row.usage.unattributed_total_tokens
  request_count := row.usage.request_count
  selector_context := row.selector_context
  selector_sources := row.selector_sources
  auth_mode := row_key.auth_mode
  billing_channel := row_key.billing_channel
  billing_provider := row_key.billing_provider
  gateway_provider := row_key.gateway_provider
  model_provider := row_key.model_provider
  subscription_product := row_key.subscription_product
  account_identifier_hash := none
  evidence_ref := none
  identity_parts := none
  identity_retained := false
  copy_invalidated := false
  cost_usd := row.usage.costs.total.map (fun picos => usd_picos_string picos.toNat)
  input_cost_usd := row.usage.costs.input.map (fun picos => usd_picos_string picos.toNat)
  output_cost_usd := row.usage.costs.output.map (fun picos => usd_picos_string picos.toNat)
  cache_read_cost_usd := row.usage.costs.cache_read.map (fun picos => usd_picos_string picos.toNat)
  cache_creation_cost_usd :=
    row.usage.costs.cache_creation.map (fun picos => usd_picos_string picos.toNat)

def usage_totals_from_model_usage (row : SnapshotModelUsage) : UsageTotals where
  input_tokens := row.input_tokens
  output_tokens := row.output_tokens
  cache_read_tokens := row.cache_read_tokens
  cache_creation_5m_tokens := row.cache_creation_5m_tokens
  cache_creation_1h_tokens := row.cache_creation_1h_tokens
  reasoning_output_tokens := row.reasoning_output_tokens
  unattributed_total_tokens := row.unattributed_total_tokens
  request_count := row.request_count

/-- The key of a wire row. -/
def row_key_from_model_usage (row : SnapshotModelUsage) : RowKey where
  model := row.model
  selector_hash := copy_unproven_selector_hash row.copy_unproven
    (selector_hash selector_digest row.selector_context)
  reasoning_effort := row.reasoning_effort
  auth_mode := row.auth_mode
  billing_channel := row.billing_channel
  billing_provider := row.billing_provider
  gateway_provider := row.gateway_provider
  model_provider := row.model_provider
  subscription_product := row.subscription_product

/-! ## Counters on the wire -/

def SnapshotModelUsage.counter (self : SnapshotModelUsage) : Counter → UInt64
  | .input_tokens => self.input_tokens
  | .output_tokens => self.output_tokens
  | .cache_read_tokens => self.cache_read_tokens
  | .cache_creation_5m_tokens => self.cache_creation_5m_tokens
  | .cache_creation_1h_tokens => self.cache_creation_1h_tokens
  | .reasoning_output_tokens => self.reasoning_output_tokens
  | .unattributed_total_tokens => self.unattributed_total_tokens
  | .request_count => self.request_count

def SnapshotModelUsage.count (self : SnapshotModelUsage) (c : Counter) : Nat :=
  (self.counter c).toNat

def SnapshotItem.counter (self : SnapshotItem) : Counter → UInt64
  | .input_tokens => self.input_tokens
  | .output_tokens => self.output_tokens
  | .cache_read_tokens => self.cache_read_tokens
  | .cache_creation_5m_tokens => self.cache_creation_5m_tokens
  | .cache_creation_1h_tokens => self.cache_creation_1h_tokens
  | .reasoning_output_tokens => self.reasoning_output_tokens
  | .unattributed_total_tokens => self.unattributed_total_tokens
  | .request_count => self.request_count

def SnapshotItem.count (self : SnapshotItem) (c : Counter) : Nat := (self.counter c).toNat

/-- The sum of a counter over wire rows. -/
def wire_count (rows : List SnapshotModelUsage) (c : Counter) : Nat :=
  (rows.map (fun row => row.count c)).sum

/-- The sum of a counter over the rows of all hours. -/
def hours_count (buckets : List SnapshotUsageBucket) (c : Counter) : Nat :=
  (buckets.map (fun bucket => wire_count bucket.model_usage c)).sum

@[simp] theorem usage_totals_from_model_usage_count (row : SnapshotModelUsage) (c : Counter) :
    (usage_totals_from_model_usage row).count c = row.count c := by
  cases c <;> rfl

end ottto_service.snapshots.wire
