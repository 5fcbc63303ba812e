-- The context sizes around each compaction (snapshots/compaction_events.rs): a bounded list of the
-- newest distinct times, with the requests just before and just after each.
import Mathlib.Data.List.MinMax
import Ottto.CopyRemovals
import Ottto.NewestKeys
import Ottto.ReportedUsage

namespace ottto_service.compaction_events

open accumulator
open scoped claude_copy_removals
open claude_reported_usage (ClaudeTranscriptUsageOccurrence)

def MAX_COMPACTION_TIMESTAMPS : Nat := 64

def CLAUDE_IDLE_COMPACTION_GAP_SECONDS : Int := 50 * 60

structure SnapshotCompactionEvent where
  at_text : String
  before : Option UInt64 := none
  after : Option UInt64 := none
  trigger : Option String := none
deriving DecidableEq

/-- Sorted by time, the first of each time, and of these the newest. -/
def bounded_compaction_events (events : List SnapshotCompactionEvent) : List SnapshotCompactionEvent :=
  let events := events.insertionSort (fun left right => left.at_text ≤ right.at_text)
  let events := events.destutter (fun earlier later => earlier.at_text ≠ later.at_text)
  events.drop (events.length - MAX_COMPACTION_TIMESTAMPS)

/-! ## Claude -/

inductive ClaudeCompactionTrigger
  | Auto
  | Manual
  | Idle
deriving DecidableEq

def ClaudeCompactionTrigger.wire : ClaudeCompactionTrigger → String
  | .Auto => "auto"
  | .Manual => "manual"
  | .Idle => "idle"

inductive ClaudeCompactionKind
  | LegacySummary
  | CurrentBoundary
deriving DecidableEq

structure ClaudeCompactionObservation where
  kind : ClaudeCompactionKind
  timestamp : Option String
  response_count_before : UInt64
  trigger : Option ClaudeCompactionTrigger := none
  id_less_before : Bool := false
  id_less_after : Bool := false

structure ClaudeIdLessNeighbours where
  before : Nat := 0
  after : Nat := 0

/-- A request of the transcript with its prompt size. -/
structure OwnRequest extends ClaudeTranscriptUsageOccurrence where
  effective_input_context : UInt64

/-- Of the requests of one gap: the last one, with its time, and the first one. -/
structure ClaudeRequestGap where
  last : Option (UInt64 × UInt64 × Option String) := none
  first : Option (UInt64 × UInt64) := none

/-- The sequences are ordered as numbers. -/
def ClaudeRequestGap.note (gap : ClaudeRequestGap) (request : OwnRequest) : ClaudeRequestGap where
  last :=
    if gap.last.any (fun last => decide (request.sequence ≤ last.1)) then gap.last
    else some (request.sequence, request.effective_input_context, request.timestamp)
  first :=
    if gap.first.any (fun first => decide (first.1 ≤ request.sequence)) then gap.first
    else some (request.sequence, request.effective_input_context)

/-- How many cuts come before the first that fails the test. -/
def partition_point (cuts : List UInt64) (test : UInt64 → Bool) : Nat := (cuts.takeWhile test).length

def note_request (cuts : List UInt64) (gaps : List ClaudeRequestGap) (request : OwnRequest) :
    List ClaudeRequestGap :=
  if request.effective_input_context = 0 then gaps
  else gaps.modify (partition_point cuts (fun cut => decide (cut ≤ request.sequence)))
    (fun gap => gap.note request)

/-- The latest request at or before each gap. -/
def latest_from (latest : Option (UInt64 × UInt64 × Option String)) :
    List ClaudeRequestGap → List (Option (UInt64 × UInt64 × Option String))
  | [] => []
  | gap :: gaps => gap.last.or latest :: latest_from (gap.last.or latest) gaps

/-- The earliest request in each gap or later. -/
def earliest_of (gaps : List ClaudeRequestGap) : List (Option (UInt64 × UInt64)) :=
  gaps.foldr (fun gap later => gap.first.or later.head?.join :: later) []

variable (time : Rfc3339)

def idle_gap (last_request_at : Option String) (compaction_at : String) : Bool :=
  ((last_request_at.bind time.parse).bind (fun last =>
    (time.parse compaction_at).map (fun compaction => (last, compaction)))).any
      (fun gap => decide (CLAUDE_IDLE_COMPACTION_GAP_SECONDS ≤ (gap.2 - gap.1).tdiv (10 ^ 9)))

/-- The boundaries and unpaired summaries that carry a time. -/
def timed (observations : List ClaudeCompactionObservation) (paired : Finset Nat) :
    List (String × ClaudeCompactionObservation) :=
  observations.zipIdx.filterMap (fun e =>
    if e.1.kind = .CurrentBoundary ∨ e.2 ∉ paired then e.1.timestamp.map (fun text => (text, e.1))
    else none)

def candidates (observations : List ClaudeCompactionObservation) (paired : Finset Nat) :
    SortedMap String ClaudeCompactionObservation :=
  (timed observations paired).foldl
    (fun candidates e => NewestKeys.note MAX_COMPACTION_TIMESTAMPS candidates e.1 e.2) .empty

/-- The trigger of an event: an automatic one after a long gap was idle. -/
def event_trigger (last_request_at : Option String) (at_text : String)
    (trigger : Option ClaudeCompactionTrigger) : Option ClaudeCompactionTrigger :=
  if trigger = some .Auto ∧ idle_gap time last_request_at at_text = true then some .Idle else trigger

def claude_compaction_events (owned_observations : List ClaudeCompactionObservation)
    (paired : Finset Nat) (own_requests : List OwnRequest) :
    List SnapshotCompactionEvent × ClaudeIdLessNeighbours :=
  let candidates := (candidates owned_observations paired).entries
  if candidates.isEmpty then ([], {})
  else
    let id_less : ClaudeIdLessNeighbours :=
      { before := candidates.countP (fun e => e.2.id_less_before)
        after := candidates.countP (fun e => e.2.id_less_after) }
    let cuts := cut_points candidates
    let gaps := own_requests.foldl (note_request cuts)
      (List.replicate (cuts.length + 1) ({} : ClaudeRequestGap))
    let before := latest_from none (gaps.take cuts.length)
    let after := earliest_of (gaps.drop 1)
    (candidates.map (fun e =>
      let cut := partition_point cuts (fun cut => decide (cut < e.2.response_count_before))
      let before := before[cut]?.join
      { at_text := e.1
        before := before.map (fun last => last.2.1)
        after := after[cut]?.join.map (fun first => first.2)
        trigger := (event_trigger time (before.bind (fun last => last.2.2)) e.1 e.2.trigger).map
          ClaudeCompactionTrigger.wire }), id_less)
where
  cut_points (candidates : List (String × ClaudeCompactionObservation)) : List UInt64 :=
    let counts := candidates.map (fun e => e.2.response_count_before)
    (counts.insertionSort (· ≤ ·)).destutter (· ≠ ·)

/-! ## Codex -/

structure CodexCompactionSize where
  before : Option UInt64
  after : Option UInt64

structure CodexCompactionSizes where
  entries : SortedMap String CodexCompactionSize := .empty
  pending_after : Bool := false

/-- `NonZeroU64::new`. -/
def non_zero (n : UInt64) : Option UInt64 := if n = 0 then none else some n

namespace CodexCompactionSizes

def note_marker (self : CodexCompactionSizes) (at_text : String) (before : Option UInt64) :
    CodexCompactionSizes :=
  if NewestKeys.admits MAX_COMPACTION_TIMESTAMPS self.entries at_text then
    { entries := NewestKeys.note MAX_COMPACTION_TIMESTAMPS self.entries at_text
        { before := before.bind non_zero, after := none }
      pending_after := true }
  else self

def note_counted_request (self : CodexCompactionSizes) (context_tokens : UInt64) :
    CodexCompactionSizes :=
  if !self.pending_after then self
  else
    match non_zero context_tokens with
    | none => self
    | some context_tokens =>
      { entries := self.entries.mapValues
          (fun entry => { entry with after := entry.after.or (some context_tokens) })
        pending_after := false }

def into_events (self : CodexCompactionSizes) : List SnapshotCompactionEvent :=
  self.entries.entries.map (fun e => { at_text := e.1, before := e.2.before, after := e.2.after })

end CodexCompactionSizes

end ottto_service.compaction_events
