-- The resolution of a Claude response (claude_response_records.rs): its records are put in
-- provider time, collapsed at each instant and merged in order, or they conflict.
import Ottto.ClaudeRecords

open Words

namespace ottto_service.claude_response_records

open usage accumulator

/-! ## The merge of two records -/

structure ResolvedClaudeResponse where
  cache_slot : RequestSlot
  sequence : UInt64
  usage : UsageTotals
  model : Option String
  selector : SelectorCapture
  reasoning_effort : Option String
  request_id : Option String
  first_timestamp : Option String
  terminal_timestamp : Option String
  event_clock_complete : Bool
  desktop_request : Bool
  preceding_user_timestamp : Option String
  computed_effective_input_context : Option UInt64
  tool_uses : SortedMap String String

inductive ClaudeResolveFailure where
  | Decode
  | Conflict

/-- The comparisons of `UsageTotals::is_monotonic_after`. -/
def claude_usage_is_progressive_after (current previous : UsageTotals) : Bool :=
  current.is_monotonic_after previous

/-- `none` is a conflict, here and in each merge below. -/
def merge_optional_claude_field (current next : Option String) : Option (Option String) :=
  match current, next with
  | some current, some next => if current ≠ next then none else some (some current)
  | none, some next => some (some next)
  | current, none => some current

def conflicts (existing : SortedMap String String) (entry : String × String) : Bool :=
  (existing.get? entry.1).any (fun value => decide (value ≠ entry.2))

def merge_claude_response_tool_uses (current next : SortedMap String String) :
    Option (SortedMap String String) :=
  next.entries.foldlM (fun current use =>
    if conflicts current use then none else some (current.insert use.1 use.2)) current

def merge_claude_response_selector (current next : SelectorCapture) : Option SelectorCapture :=
  if next.context.entries.any (conflicts current.context) then none else some (current.merge next)

def merge_claude_response_record (current next : ClaudeResponseRecord) :
    Option ClaudeResponseRecord :=
  if !claude_usage_is_progressive_after next.usage current.usage then none
  else do
    let model ← merge_optional_claude_field current.model next.model
    let reasoning_effort ←
      merge_optional_claude_field current.reasoning_effort next.reasoning_effort
    let request_id ← merge_optional_claude_field current.request_id next.request_id
    let selector ← merge_claude_response_selector current.selector next.selector
    let tool_uses ← merge_claude_response_tool_uses current.tool_uses next.tool_uses
    some
      { current with
        model
        reasoning_effort
        request_id
        selector
        tool_uses
        cache_slot := next.cache_slot
        usage := next.usage
        computed_effective_input_context :=
          match next.computed_effective_input_context with
          | some next_context => some
            (current.computed_effective_input_context.elim next_context (max · next_context))
          | none => current.computed_effective_input_context
        timestamp := next.timestamp.or current.timestamp }

/-! ## The order of the records -/

section

variable (time : Rfc3339)

/-- `OffsetDateTime` compares instants. -/
def claude_response_provider_time (record : ClaudeResponseRecord) : Option Int :=
  record.timestamp.bind time.parse

def claude_usage_deterministic_order (left right : UsageTotals) : Ordering :=
  (compare left.input_tokens right.input_tokens)
    |>.then (compare left.output_tokens right.output_tokens)
    |>.then (compare left.cache_read_tokens right.cache_read_tokens)
    |>.then (compare left.cache_creation_5m_tokens right.cache_creation_5m_tokens)
    |>.then (compare left.cache_creation_1h_tokens right.cache_creation_1h_tokens)
    |>.then (compare left.reasoning_output_tokens right.reasoning_output_tokens)
    |>.then (compare left.unattributed_total_tokens right.unattributed_total_tokens)
    |>.then (compare left.request_count right.request_count)
    |>.then (compare left.costs.observed right.costs.observed)
    |>.then (compare left.costs.reported right.costs.reported)
    |>.then (compare left.costs.total right.costs.total)
    |>.then (compare left.costs.input right.costs.input)
    |>.then (compare left.costs.output right.costs.output)
    |>.then (compare left.costs.cache_read right.costs.cache_read)
    |>.then (compare left.costs.cache_creation right.costs.cache_creation)

def claude_response_record_order (left right : ClaudeResponseRecord) : Ordering :=
  match claude_response_provider_time time left, claude_response_provider_time time right with
  | some left_time, some right_time =>
    (compare left_time right_time).then (claude_usage_deterministic_order left.usage right.usage)
      |>.then (compare left.physical_sequence right.physical_sequence)
  | some _, none => .lt
  | none, some _ => .gt
  | none, none => compare left.physical_sequence right.physical_sequence

def claude_response_records_share_provider_time (left right : ClaudeResponseRecord) : Bool :=
  match claude_response_provider_time time left, claude_response_provider_time time right with
  | some left, some right => left == right
  | _, _ => false

/-! ## The resolution -/

def event_clock_complete (records : List ClaudeResponseRecord) : Bool :=
  records.all (fun record => (claude_response_provider_time time record).isSome)

/-- Provider time orders the records when it is complete; append order does otherwise. -/
def sort_records (records : List ClaudeResponseRecord) : List ClaudeResponseRecord :=
  if event_clock_complete time records then
    records.insertionSort (fun left right => claude_response_record_order time left right ≠ .gt)
  else records.insertionSort (fun left right => left.physical_sequence ≤ right.physical_sequence)

/-- The loop that collapses each instant: `last` is the record it still merges into. -/
def collapse (canonical : List ClaudeResponseRecord) (last : ClaudeResponseRecord) :
    List ClaudeResponseRecord → Option (List ClaudeResponseRecord)
  | [] => some (canonical ++ [last])
  | record :: rest =>
    if claude_response_records_share_provider_time time last record then do
      let last ← merge_claude_response_record last record
      collapse canonical last rest
    else collapse (canonical ++ [last]) record rest

def canonical_records : List ClaudeResponseRecord → Option (List ClaudeResponseRecord)
  | [] => some []
  | first :: rest => collapse time [] first rest

/-- The first record of the canonical ones, and all of them merged into it. -/
def merge_canonical (records : List ClaudeResponseRecord) :
    Option (ClaudeResponseRecord × ClaudeResponseRecord) :=
  match records with
  | [] => none
  | first :: rest => (rest.foldlM merge_claude_response_record first).map (fun merged => (first, merged))

def ClaudeResponseObservation.resolve_classified (self : ClaudeResponseObservation)
    (selectors : ClaudeSelectorTable) : Except ClaudeResolveFailure ResolvedClaudeResponse :=
  if self.record_limit_exceeded then .error .Decode
  else
    match decode_records self.records selectors with
    | none => .error .Decode
    | some records =>
      match (canonical_records time (sort_records time records)).bind merge_canonical with
      | none => .error .Conflict
      | some (first, aggregate) => .ok
        { cache_slot := aggregate.cache_slot
          sequence := self.sequence
          usage := aggregate.usage
          model := aggregate.model
          selector := aggregate.selector
          reasoning_effort := aggregate.reasoning_effort
          request_id := aggregate.request_id
          first_timestamp := first.timestamp
          terminal_timestamp := aggregate.timestamp
          event_clock_complete := event_clock_complete time records
          desktop_request := self.desktop_request
          preceding_user_timestamp := self.preceding_user_timestamp
          computed_effective_input_context := aggregate.computed_effective_input_context
          tool_uses := aggregate.tool_uses }

end

end ottto_service.claude_response_records
