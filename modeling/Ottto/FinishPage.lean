-- The end of a page of Claude items (snapshots/claude_request_money/e2.rs, `finish_page`): the
-- folds of a session sum into one body, which its first item emits or its items wait for.
import Ottto.LiteralEmit

namespace ottto_service.claude_request_money.finish

open Words usage accumulator
open claude_request_money (SnapshotItem)
open claude_money_birth_store (LocationKey)

/-- Whether the page's sidecar read succeeded. -/
inductive TelemetryRead where
  | Loaded
  | Failed
deriving DecidableEq

abbrev HoldReasons : Type := SortedMap String Nat

def HoldReasons.add (self : HoldReasons) (reason : String) (count : Nat) : HoldReasons :=
  self.insert reason ((self.get? reason).getD 0 + count)

/-- What the page reads beside its items: the clock texts, the fingerprint of an item, and the
sessions with a live indexed path that is not on the page, which the file system and the scan index
say. -/
structure Outside where
  time : Rfc3339
  snapshot_fingerprint : SnapshotItem → String
  absent_twins : List (String × List LocationKey) → List SnapshotItem → HoldReasons →
    Finset String × HoldReasons

/-! ## Gathering -/

/-- The first fold's own values of what the page changes on its entity. -/
structure FirstUndo where
  telemetry_owned_complete : Bool := false
  held : Bool := false
  activity_nanos : Int := 0
  clock_incomplete : Bool := false

structure Session where
  entity : ClaudeEntityBody := {}
  /-- The first fold's own entity, kept when a path twin arrives. -/
  first_original : Option ClaudeEntityBody := none
  first_undo : FirstUndo := {}
  folds : Nat := 0
  complete : Bool
  locations : List LocationKey := []
  twin_loans : List LentSlot := []

section

variable (time : Rfc3339)

/-- Counted usage without a complete clock. -/
def clock_incomplete (item : SnapshotItem) (fold : FileFold) : Bool :=
  item.claude_usage_occurrences.values.any (fun occurrence =>
    !occurrence.usage.is_zero && !fold.is_skipped occurrence.sequence &&
      (!occurrence.event_clock_complete || (occurrence.timestamp.bind time.parse).isNone))

/-- The session takes the entity of its first fold and sums the entities of the others. -/
def Session.take_entity (self : Session) (fold : FileFold) : Session :=
  if self.folds = 0 then
    { self with
      folds := 1
      entity := { fold.entity with activity_nanos := max fold.entity.activity_nanos 0 }
      first_undo :=
        { telemetry_owned_complete := fold.entity.telemetry_owned_complete
          held := fold.entity.held
          activity_nanos := fold.entity.activity_nanos
          clock_incomplete := fold.entity.clock_incomplete } }
  else
    { self with
      folds := self.folds + 1
      first_original := if self.folds = 1 then some self.entity else self.first_original
      entity := self.entity.sum fold.entity
      twin_loans := self.twin_loans ++
        (fold.accounts.map (fun accounts => accounts.copied_marker_lent.values)).getD [] }

def Session.take_fold (self : Session) (item : SnapshotItem) (fold : FileFold) : Session :=
  let session := { self with complete := self.complete && fold.telemetry_complete }.take_entity fold
  { session with
    entity := { session.entity with
      clock_incomplete := session.entity.clock_incomplete || clock_incomplete time item fold }
    locations := session.locations ++ fold.location.toList }

/-- The fold whose entity was moved out. -/
def FileFold.moved_out (self : FileFold) : FileFold := { self with entity := {} }

def gather_item (telemetry : TelemetryRead) (sessions : SortedMap String Session)
    (item : SnapshotItem) : SortedMap String Session × SnapshotItem :=
  match item.claude_money with
  | none => (sessions, item)
  | some fold =>
    let session := (sessions.get? item.source_session_id).getD
      { complete := telemetry == .Loaded }
    (sessions.insert item.source_session_id (session.take_fold time item fold),
      if session.folds = 0 then { item with claude_money := some (FileFold.moved_out fold) } else item)

def gather (telemetry : TelemetryRead) : SortedMap String Session → List SnapshotItem →
    SortedMap String Session × List SnapshotItem
  | sessions, [] => (sessions, [])
  | sessions, item :: items =>
    let (sessions, item) := gather_item time telemetry sessions item
    let (sessions, items) := gather telemetry sessions items
    (sessions, item :: items)

end

/-! ## Emitting -/

/-- The entity of the session as it is decided. -/
def Session.decide (self : Session) (held : Bool) : Session :=
  { self with entity := { self.entity with
      telemetry_owned_complete := self.complete
      held := self.entity.held || held } }

/-- The first fold's own entity, given back. -/
def Session.restored (self : Session) : ClaudeEntityBody :=
  { self.first_original.getD self.entity with
    telemetry_owned_complete := self.first_undo.telemetry_owned_complete
    held := self.first_undo.held
    activity_nanos := self.first_undo.activity_nanos
    clock_incomplete := self.first_undo.clock_incomplete }

/-- Later twins' loans take keys after the first's. -/
def RequestAccounts.lend (self : RequestAccounts) (twin_loans : List LentSlot) : RequestAccounts :=
  let next := (self.copied_marker_lent.keys.getLast?.map
    (fun key => min (key + 1) (2 ^ 64 - 1))).getD 0
  { self with
    copied_marker_lent := (twin_loans.foldl
      (fun (lent, next) slot => (lent.insert next slot, min (next + 1) (2 ^ 64 - 1)))
      (self.copied_marker_lent, next)).1 }

structure Emission where
  entities : SortedMap String Session
  withheld : Finset String := ∅
  hold_reasons : HoldReasons

/-- Why a session is withheld. -/
def hold_reason (absent : Bool) (entity : ClaudeEntityBody) : String :=
  if absent then "absent_twin"
  else if entity.held then "request_owned_held"
  else if !entity.certificate_ok then "uncertified"
  else "emission_rejected"

def note_withheld (hold_reasons : HoldReasons) (absent : Bool) (entity : ClaudeEntityBody) :
    HoldReasons :=
  let reason := hold_reason absent entity
  let hold_reasons := hold_reasons.add reason 1
  if reason = "uncertified" then
    entity.certificate_failure.elim hold_reasons
      (fun failure => hold_reasons.add failure.hold_reason 1)
  else hold_reasons

variable (out : Outside)

/-- The item of an emitted session: its fold keeps the final sum and the twins' loans. -/
def SnapshotItem.emitted (item : SnapshotItem) (session : Session) : SnapshotItem :=
  { item with claude_money := item.claude_money.map (fun fold =>
      { fold with
        accounts := fold.accounts.map (fun accounts => RequestAccounts.lend accounts session.twin_loans)
        entity := session.entity }) }

/-- The item of a withheld session: its fold gets its own entity back. -/
def SnapshotItem.withheld (item : SnapshotItem) (session : Session) : SnapshotItem :=
  { item with claude_money := item.claude_money.map (fun fold =>
      { fold with entity := session.restored }) }

/-- One item of `retain`: the first item of a session carries its body. -/
def emit_item (held : Finset String) (emission : Emission) (item : SnapshotItem) :
    Emission × Option SnapshotItem :=
  if item.claude_money.isNone then (emission, some item)
  else
    match emission.entities.get? item.source_session_id with
    | none => (emission,
        if item.source_session_id ∈ emission.withheld then some item else none)
    | some session =>
      let (emitted, applied) := emit.apply out.time out.snapshot_fingerprint item session.entity
        session.first_original.isSome
      let emission := { emission with entities := emission.entities.erase item.source_session_id }
      if emitted then (emission, some (SnapshotItem.emitted applied session))
      else
        ({ emission with
            withheld := insert applied.source_session_id emission.withheld
            hold_reasons := note_withheld emission.hold_reasons
              (applied.source_session_id ∈ held) session.entity },
          some (SnapshotItem.withheld applied session))

def emit_items (held : Finset String) : Emission → List SnapshotItem → Emission × List SnapshotItem
  | emission, [] => (emission, [])
  | emission, item :: items =>
    let (emission, kept) := emit_item out held emission item
    let (emission, items) := emit_items held emission items
    (emission, kept.toList ++ items)

/-! ## The page -/

/-- The gathered sessions are decided and emitted. -/
def finish_gathered (held : Finset String) (hold_reasons : HoldReasons)
    (gathered : SortedMap String Session × List SnapshotItem) :
    List SnapshotItem × Finset String × HoldReasons :=
  let entities := gathered.1.filterMap (fun id session => some (session.decide (id ∈ held)))
  let (emission, items) := emit_items out held { entities, hold_reasons } gathered.2
  (items, emission.withheld, emission.hold_reasons)

/-- The items left on the page, the withheld sessions and why. -/
def finish_page (items : List SnapshotItem) (persistence_available : Bool)
    (telemetry : TelemetryRead) (hold_reasons : HoldReasons) :
    List SnapshotItem × Finset String × HoldReasons :=
  if persistence_available then
    let gathered := gather out.time telemetry .empty (inherit_root_accounts out.time items true)
    let (held, hold_reasons) := out.absent_twins
      (gathered.1.entries.map (fun e => (e.1, e.2.locations))) gathered.2 hold_reasons
    finish_gathered out held hold_reasons gathered
  else
    let held := (items.map (fun item => item.source_session_id)).toFinset
    ([], held, if held.Nonempty then hold_reasons.add "index_unavailable" held.card else hold_reasons)

end ottto_service.claude_request_money.finish
