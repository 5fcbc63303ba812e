-- The folded money of one Claude file on its item (snapshots/claude_request_money/e2.rs), and the
-- root accounts that the files of a page inherit (snapshots/claude_request_identity.rs).
import Ottto.EntityBody
import Ottto.ReportedUsage

namespace ottto_service.claude_request_money

open usage accumulator
open claude_money_birth_store (LocationKey)

/-! ## The accounts of a file -/

/-- A counted request's grain slot and the account that a copied marker lent it. -/
structure LentSlot where
  key : ClaudeLiveKey
  origin : Option ClaudeRequestUsageOrigin
  lent : AuthorityKey
  read : Bool

structure CarryCounts where
  no_seed : Bool := false
  blocked_no_account : Bool := false

structure RequestAccounts where
  starting : AccountPartition := none
  fallback : AccountPartition := none
  bound : AccountPartition := none
  retained_root : AccountPartition := none
  conflict : Bool := false
  subagent : Bool := false
  reconciled : Bool := false
  root_fallback_pending : Bool := false
  unhealthy_no_fallback : Bool := false
  copied_marker_lent : SortedMap Nat LentSlot := .empty
  carried : CarryCounts := {}

/-! ## The fold -/

/-- What this page's telemetry read did for one fold. -/
structure FoldTelemetry where
  read : Bool := false
  complete : Bool := false
  side_calls_done : Bool := false

structure FileFold where
  entity : ClaudeEntityBody := {}
  location : Option LocationKey := none
  /-- Held pre-birth responses, as half-open sequence ranges. -/
  skipped : List (UInt64 × UInt64) := []
  telemetry : FoldTelemetry := {}
  accounts : Option RequestAccounts := none

/-- The requests of the transcript grains. -/
def ClaudeEntityBody.estimated_requests (self : ClaudeEntityBody) : UInt64 :=
  self.grains.entries.foldl
    (fun sum e => if e.1.origin.isNone then sum + e.2.requests else sum) 0

namespace FileFold

def is_skipped (self : FileFold) (sequence : UInt64) : Bool :=
  ((self.skipped.dropWhile (fun range => decide (range.2 ≤ sequence))).head?).any
    (fun range => decide (range.1 ≤ sequence))

def telemetry_complete (self : FileFold) : Bool :=
  self.telemetry.read && self.telemetry.complete && self.telemetry.side_calls_done &&
    self.entity.estimated_requests == 0

end FileFold

/-! ## The item -/

structure ClaudeRemovedUsage where
  input_tokens : UInt64
  output_tokens : UInt64
  cache_read_tokens : UInt64
  cache_creation_5m_tokens : UInt64
  cache_creation_1h_tokens : UInt64
  unattributed_total_tokens : UInt64
  reasoning_output_tokens : UInt64

/-- No list of rows is as long as a 64-bit count can be, so the rows are counted exactly. -/
structure CopyUnprovenCounts where
  rows : Nat
  requests : UInt64

/-- An item with its folded money and what the literal emitter writes. -/
structure SnapshotItem extends toReported : claude_reported_usage.SnapshotItem where
  usage_accounting_contract : Option String := none
  removed_request_count : Option UInt64 := none
  removed_usage : Option ClaudeRemovedUsage := none
  telemetry_owned_complete : Option Bool := none
  resolver_conflict_count : Option UInt64 := none
  copy_unproven_counts : Option CopyUnprovenCounts := none
  claude_money : Option FileFold := none
  /-- The value of the attribution fact `root_session_ref`. -/
  root_session_ref : Option String := none

/-- `text.split_once(sep)`, its first half. -/
def before (sep text : String) : Option String :=
  (text.toList.tails.findIdx? (fun rest => decide (sep.toList <+: rest))).map
    (fun at_char => String.ofList (text.toList.take at_char))

def claude_snapshot_family_root_ref (item : SnapshotItem) : String :=
  (item.root_session_ref.or (before "_agent-" item.source_session_id)).getD item.source_session_id

/-! ## Root accounts -/

/-- The earliest native start of a root session. -/
structure Root where
  first : Int
  starting : AccountPartition
  bound : AccountPartition
  conflict : Bool
  known : Bool
  org_start : Bool
  start_conflict : Bool := false
  bound_conflict : Bool := false

/-- Two observations of one root at the same start. -/
def Root.meet (root candidate : Root) : Root :=
  let root := { root with
    bound_conflict := root.bound_conflict ||
      (root.bound.isSome && candidate.bound.isSome && root.bound != candidate.bound) }
  let root := { root with
    bound := if root.bound_conflict then none else root.bound.or candidate.bound }
  let root :=
    if root.known && candidate.known && root.starting != candidate.starting then
      if root.org_start != candidate.org_start then
        -- Different kinds do not contradict each other.
        if candidate.org_start then
          { root with starting := candidate.starting, org_start := true, start_conflict := false }
        else root
      else { root with start_conflict := true, conflict := true }
    else root
  if root.start_conflict then { root with starting := root.bound } else root

def Root.observe (root candidate : Root) : Root :=
  let any_conflict := root.conflict || candidate.conflict
  let root :=
    if candidate.known && (!root.known || decide (candidate.first < root.first)) then candidate
    else if candidate.first = root.first then root.meet candidate
    else root
  { root with conflict := root.conflict || any_conflict }

variable (time : Rfc3339)

/-- What an item says of its own root: nothing, when it is a subagent's or its family is not
healthy. -/
def root_candidate (item : SnapshotItem) : Option Root :=
  ((item.claude_money.bind (fun fold => fold.accounts)).filter
      (fun accounts => !accounts.subagent && !accounts.unhealthy_no_fallback)).map
    (fun accounts =>
      { first := (item.source_started_at.bind time.parse).getD (2 ^ 127 - 1)
        starting := accounts.starting
        bound := accounts.bound
        conflict := accounts.conflict
        known := accounts.starting.isSome
        org_start := accounts.starting.any (fun key => key.org.isSome) })

def observe_root (roots : SortedMap String Root) (item : SnapshotItem) : SortedMap String Root :=
  match root_candidate time item with
  | none => roots
  | some candidate =>
    roots.insert item.source_session_id
      (match roots.get? item.source_session_id with
        | none => candidate
        | some root => root.observe candidate)

/-- One fold takes the start of its root. -/
def inherit_root (roots : SortedMap String Root) (settled : Bool) (root : String)
    (fold : FileFold) : FileFold :=
  match fold.accounts with
  | none => fold
  | some accounts =>
    if accounts.unhealthy_no_fallback ||
        (accounts.reconciled && (accounts.carried.blocked_no_account || accounts.carried.no_seed)) then
      fold
    else if accounts.subagent then
      let starting := match roots.get? root with
        | some root => root.starting
        | none => accounts.retained_root
      { fold with
        accounts := some { accounts with starting, fallback := starting }
        entity :=
          if settled || accounts.reconciled then fold.entity.inherit_missing starting
          else fold.entity.repartition starting }
    else
      match roots.get? root with
      | none => fold
      | some root =>
        { fold with
          accounts := some { accounts with
            fallback := root.starting
            root_fallback_pending := !settled && accounts.starting.isNone
            conflict := accounts.conflict || root.conflict }
          entity := if settled then fold.entity.inherit_missing root.starting else fold.entity }

/-- A subagent's own marker never makes the account of a root. -/
def inherit_root_accounts (items : List SnapshotItem) (settled : Bool) : List SnapshotItem :=
  let roots := items.foldl (observe_root time) .empty
  items.map (fun item =>
    { item with
      claude_money := item.claude_money.map
        (inherit_root roots settled (claude_snapshot_family_root_ref item)) })

end ottto_service.claude_request_money
