-- The occurrence reducer of the Codex counting V2
-- (codex_usage_occurrence.rs): native coverage, the equal-total repeat gate,
-- the open turn and the memory of closed turns.
import Ottto.CountingVersion

open Words

namespace ottto_service.codex_usage_occurrence

open serde_json json_fields usage accumulator codex_counting_version

def MAX_PENDING_ROWS : Nat := 64
def MAX_PENDING_ROW_CONTENT_BYTES : Nat := 4096
def MAX_TURN_ID_BYTES : Nat := 128
def MAX_CLOSED_TURN_IDS : Nat := 64
def MAX_RESPONSE_ID_BYTES : Nat := 256

/-! ## Six-dimension vectors -/

/-- `input, cached_input, cache_write_input, output, reasoning_output, total`. -/
abbrev T6 : Type := Fin 6 → UInt64

/-- The dimension of the input tokens. -/
def T6.input : Fin 6 := 0

namespace T6

def zero : T6 := fun _ => 0

/-- No money in the five dimensions that a row counts: the total is not one
of them. -/
def is_zero (money : T6) : Bool := decide (∀ d : Fin 6, d < 5 → money d = 0)

end T6

def all_le (left right : T6) : Bool := decide (∀ d, left d ≤ right d)

def add_t6 (sum value : T6) : T6 := fun d => saturating_add (sum d) (value d)

def totals_t6 (usage : UsageTotals) : T6 :=
  ![usage.input_tokens, usage.cache_read_tokens, usage.cache_creation_5m_tokens,
    usage.output_tokens, usage.reasoning_output_tokens,
    saturating_add usage.input_tokens usage.output_tokens]

def native_money (money : T6) : UsageTotals :=
  { input_tokens := money 0
    cache_read_tokens := money 1
    cache_creation_5m_tokens := money 2
    output_tokens := money 3
    reasoning_output_tokens := money 4
    request_count := 1 }

def strict_t6 (value : Value) : Option T6 := do
  let field := fun name => (value.get name).bind Value.as_u64
  let input ← field "input_tokens"
  let cached ← field "cached_input_tokens"
  let written ← match value.get "cache_write_input_tokens" with
    | none => some 0
    | some tokens => tokens.as_u64
  let output ← field "output_tokens"
  let reasoning ← field "reasoning_output_tokens"
  let total ← field "total_tokens"
  some ![input, cached, written, output, reasoning, total]

def lenient_t6 (value : Value) : T6 :=
  let field := fun name => ((value.get name).bind Value.as_u64).getD 0
  ![field "input_tokens", field "cached_input_tokens", field "cache_write_input_tokens",
    field "output_tokens", field "reasoning_output_tokens", field "total_tokens"]

def ui_t6_pair (value : Value) : Option (T6 × T6) := do
  let last ← (((value.pointer ["token_count", "info", "last_token_usage"]).or
    (value.pointer ["payload", "info", "last_token_usage"])).or
    (value.pointer ["payload", "last_token_usage"])).or (value.pointer ["last_token_usage"])
  let total ← (((value.pointer ["token_count", "info", "total_token_usage"]).or
    (value.pointer ["payload", "info", "total_token_usage"])).or
    (value.pointer ["payload", "total_token_usage"])).or (value.pointer ["total_token_usage"])
  some (lenient_t6 last, lenient_t6 total)

/-! ## The state -/

/-- A native whose counter interval is self-consistent: `native_record`
takes `before` by a checked subtraction. -/
structure NativeRecord where
  id : String
  turn_id : Option String
  usage : T6
  before : T6
  after : T6
  interval : ∀ d, (before d).toNat + (usage d).toNat = (after d).toNat

structure Epoch where
  base : T6
  hwm : T6
  first_id : String
  contiguous : Bool

structure LastNative where
  id : String
  usage : T6
  after : T6

structure UiTuple where
  last : UsageTotals
  total : UsageTotals
  last_t6 : T6
  total_t6 : T6
deriving DecidableEq

structure PendingRow where
  selector_context : SortedMap String String
  selector_sources : SortedMap String String
  usage : UsageTotals
  events : UInt64
  first_activity_at : String
  last_activity_at : String

/-- The staged rows of a turn, in the order of `(bucket_start, row_key)`. -/
abbrev Pending : Type := SortedMap (String ×ₗ RowKey) PendingRow

structure BoundTurn where
  id : String
  native : Bool
  ui_published : Bool
  staged_events : UInt64
  pending : Pending

/-- The local receipts. -/
structure OccurrenceCounters where
  native_counted : UInt64 := 0
  native_not_authority : UInt64 := 0
  native_restated : UInt64 := 0
  native_inside_holed_coverage : UInt64 := 0
  native_inside_holed_coverage_usage : T6 := T6.zero
  native_chain_gap : UInt64 := 0
  native_chain_overlap : UInt64 := 0
  native_chain_overlap_covered : T6 := T6.zero
  native_epoch_reset : UInt64 := 0
  native_conflict : UInt64 := 0
  native_outside_open_turn : UInt64 := 0
  native_outside_open_turn_usage : T6 := T6.zero
  native_after_turn_closed : UInt64 := 0
  native_after_turn_closed_usage : T6 := T6.zero
  native_after_ui_flush : UInt64 := 0
  native_after_ui_flush_usage : T6 := T6.zero
  ui_equal_total_repeat : UInt64 := 0
  ui_equal_total_repeat_usage : T6 := T6.zero
  ui_in_native_turn_not_counted : UInt64 := 0
  ui_in_native_turn_not_counted_usage : T6 := T6.zero
  ui_in_unbound_span : UInt64 := 0
  v2_cumulative_base_uncounted : UInt64 := 0
  v2_cumulative_base_uncounted_usage : T6 := T6.zero
  turn_closure_mismatch : UInt64 := 0
  turn_reopened : UInt64 := 0
  closed_filter_hit_unconfirmed : UInt64 := 0
  closed_filter_hit_unconfirmed_native_usage : T6 := T6.zero
  pending_overflow_flushes : UInt64 := 0

/-- 8 KiB of bits, as 1,024 words. -/
abbrev ClosedTurnFilter : Type := Fin 1024 → UInt64

structure OccurrenceReducer where
  epoch : Option Epoch := none
  last_native : Option LastNative := none
  prev_ui : Option UiTuple := none
  native_since_prev_ui : Bool := false
  line_ui : Option (T6 × T6) := none
  turn : Option BoundTurn := none
  closed_turns : List String := []
  closed_filter : Option ClosedTurnFilter := none
  counters : OccurrenceCounters := {}

structure CodexCounting where
  evidence : AckEvidence
  cutover_unix_ms : Option Int64
  version : Option CountingVersion
  reducer : Option OccurrenceReducer

def CodexCounting.new (evidence : AckEvidence) (cutover_unix_ms : Option Int64) : CodexCounting :=
  { evidence, cutover_unix_ms, version := none, reducer := none }

/-! ## A native record -/

/-- A UUID with its hyphens: 8-4-4-4-12 hexadecimal digits. -/
def codex_identity_is_uuid_shaped (value : String) : Bool :=
  let cs := value.toList
  cs.length == 36 && cs.zipIdx.all (fun (c, i) =>
    if i == 8 || i == 13 || i == 18 || i == 23 then c == '-'
    else c.isDigit || ('a' ≤ c && c ≤ 'f') || ('A' ≤ c && c ≤ 'F'))

def resolve_codex_identity (value : String) : String :=
  if codex_identity_is_uuid_shaped value then String.ofList (value.toList.map Char.toLower)
  else value

/-- `after - usage` in each dimension, or nothing when one underflows. -/
def checked_before (after usage : T6) : Option T6 :=
  if ∀ d, (usage d).toNat ≤ (after d).toNat then some (fun d => after d - usage d) else none

theorem checked_before_interval {after usage before : T6}
    (h : checked_before after usage = some before) (d : Fin 6) :
    (before d).toNat + (usage d).toNat = (after d).toNat := by
  unfold checked_before at h
  split at h
  · rename_i hle
    cases h
    rw [toNat_sub_of_le (hle d)]
    exact Nat.sub_add_cancel (hle d)
  · cases h

def native_record (value : Value) (session : Option String) : Option NativeRecord :=
  match value.get "payload" with
  | none => none
  | some payload =>
    match (payload.get "thread_id").bind Value.as_str with
    | none => none
    | some thread_id =>
      let thread := resolve_codex_identity thread_id
      if session.map resolve_codex_identity ≠ some thread then none
      else
        match (payload.get "response_id").bind Value.as_str with
        | none => none
        | some id =>
          if id = "" ∨ MAX_RESPONSE_ID_BYTES < id.utf8ByteSize then none
          else
            match (payload.get "usage").bind strict_t6,
              (payload.get "thread_token_usage").bind strict_t6 with
            | some usage, some after =>
              match h : checked_before after usage with
              | none => none
              | some before => some
                { id
                  turn_id := (payload.get "turn_id").bind Value.as_str
                  usage, before, after
                  interval := checked_before_interval h }
            | _, _ => none

/-! ## The methods of the reducer -/

/-- The epoch that a native opens. -/
def Epoch.opened (native : NativeRecord) : Epoch :=
  { base := native.before, hwm := native.after, first_id := native.id, contiguous := true }

/-- The part of each dimension past the high water mark. -/
def uncovered (native : NativeRecord) (hwm : T6) : T6 :=
  fun d => saturating_sub (native.after d) (max (native.before d) (hwm d))

namespace OccurrenceReducer

/-- What `cover` writes before it looks at the coverage. -/
def note_native (self : OccurrenceReducer) (native : NativeRecord) : OccurrenceReducer :=
  let conflict := match self.last_native with
    | some last =>
      last.id == native.id && (last.usage != native.usage || last.after != native.after)
    | none => false
  { self with
    counters := if conflict then
        { self.counters with native_conflict := self.counters.native_conflict + 1 }
      else self.counters
    last_native := some { id := native.id, usage := native.usage, after := native.after }
    native_since_prev_ui := true }

/-- Coverage disposition (first match wins); returns the money it adds. -/
def cover (self : OccurrenceReducer) (native : NativeRecord) : OccurrenceReducer × T6 :=
  let self := self.note_native native
  let counters := self.counters
  match self.epoch with
  | none => ({ self with epoch := some (Epoch.opened native) }, native.usage)
  | some epoch =>
    if native.before = epoch.hwm then
      ({ self with epoch := some { epoch with hwm := native.after } }, native.usage)
    else
      let new_first_response := decide (∀ d, native.before d = 0) && native.id != epoch.first_id
      if all_le epoch.base native.before && all_le native.after epoch.hwm && !new_first_response then
        if epoch.contiguous then
          ({ self with
             counters := { counters with native_restated := counters.native_restated + 1 } },
            T6.zero)
        else
          ({ self with
             counters := { counters with
               native_inside_holed_coverage := counters.native_inside_holed_coverage + 1
               native_inside_holed_coverage_usage :=
                 add_t6 counters.native_inside_holed_coverage_usage native.usage } },
            T6.zero)
      else if all_le epoch.hwm native.before then
        ({ self with
           counters := { counters with native_chain_gap := counters.native_chain_gap + 1 }
           epoch := some { epoch with hwm := native.after, contiguous := false } },
          native.usage)
      else if all_le epoch.hwm native.after && all_le epoch.base native.before then
        -- Only the uncovered part of each dimension counts.
        let money := uncovered native epoch.hwm
        let covered : T6 := fun d => saturating_sub (native.usage d) (money d)
        ({ self with
           counters := { counters with
             native_chain_overlap := counters.native_chain_overlap + 1
             native_chain_overlap_covered :=
               add_t6 counters.native_chain_overlap_covered covered }
           epoch := some { epoch with hwm := native.after, contiguous := false } },
          money)
      else
        ({ self with
           counters := { counters with native_epoch_reset := counters.native_epoch_reset + 1 }
           epoch := some (Epoch.opened native) },
          native.usage)

def note_ui (self : OccurrenceReducer) (tuple : Option UiTuple) : OccurrenceReducer :=
  { self with prev_ui := tuple, native_since_prev_ui := false }

/-- The tuple of this line, and the reducer with the raw pair taken. -/
def take_ui_tuple (self : OccurrenceReducer) (last : Option UsageTotals) (total : UsageTotals) :
    OccurrenceReducer × Option UiTuple :=
  ({ self with line_ui := none },
    match self.line_ui, last with
    | some (last_t6, total_t6), some last => some { last, total, last_t6, total_t6 }
    | _, _ => none)

def equal_total_repeat (self : OccurrenceReducer) (tuple : Option UiTuple) (delta : UsageTotals) :
    OccurrenceReducer × Bool :=
  let repeated := !self.native_since_prev_ui && tuple.isSome && decide (tuple = self.prev_ui)
  if repeated then
    ({ self with
       counters := { self.counters with
         ui_equal_total_repeat := self.counters.ui_equal_total_repeat + 1
         ui_equal_total_repeat_usage :=
           add_t6 self.counters.ui_equal_total_repeat_usage (totals_t6 delta) } }, true)
  else (self, false)

end OccurrenceReducer

/-! ## The memory of closed turns -/

namespace ClosedTurnFilter

section

-- SHA-256 of the bytes.
variable (sha256 : List UInt8 → Fin 32 → UInt8)

/-- The bytes that the filter hashes: a domain prefix with its zero byte,
and the id. -/
def material (turn_id : String) : List UInt8 :=
  "codex_closed_turn:v1".toUTF8.toList ++ [0] ++ turn_id.toUTF8.toList

/-- Four bit positions, each from two bytes of the digest, high byte first. -/
def positions (turn_id : String) : List Nat :=
  let digest := sha256 (material turn_id)
  [(digest 0).toNat * 256 + (digest 1).toNat, (digest 2).toNat * 256 + (digest 3).toNat,
    (digest 4).toNat * 256 + (digest 5).toNat, (digest 6).toNat * 256 + (digest 7).toNat]

def new : ClosedTurnFilter := fun _ => 0

def bit (position : Nat) : UInt64 := 1 <<< UInt64.ofNat (position % 64)

/-- The word of a position: 65,536 positions over 1,024 words. -/
def word (position : Nat) : Fin 1024 := Fin.ofNat 1024 (position / 64)

def set (filter : ClosedTurnFilter) (position : Nat) : ClosedTurnFilter :=
  Function.update filter (word position) (filter (word position) ||| bit position)

def test (filter : ClosedTurnFilter) (position : Nat) : Bool :=
  (filter (word position) &&& bit position) != 0

def insert (filter : ClosedTurnFilter) (turn_id : String) : ClosedTurnFilter :=
  (positions sha256 turn_id).foldl set filter

def contains (filter : ClosedTurnFilter) (turn_id : String) : Bool :=
  (positions sha256 turn_id).all (test filter)

end

end ClosedTurnFilter

inductive Closed
  | No
  | Recent
  | Unconfirmed

namespace OccurrenceReducer

section

variable (sha256 : List UInt8 → Fin 32 → UInt8)

def remember_closed (self : OccurrenceReducer) (id : String) : OccurrenceReducer :=
  let filter := (self.closed_filter.getD ClosedTurnFilter.new).insert sha256 id
  let self := { self with closed_filter := some filter }
  if self.closed_turns.contains id then self
  else
    let kept := if MAX_CLOSED_TURN_IDS ≤ self.closed_turns.length then self.closed_turns.tail
      else self.closed_turns
    { self with closed_turns := kept ++ [id] }

def closed (self : OccurrenceReducer) (turn_id : String) : Closed :=
  if self.closed_turns.contains turn_id then .Recent
  else
    match self.closed_filter with
    | some filter => if filter.contains sha256 turn_id then .Unconfirmed else .No
    | none => .No

end

end OccurrenceReducer

end ottto_service.codex_usage_occurrence
