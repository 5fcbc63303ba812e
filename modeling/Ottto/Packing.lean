-- How the pending bodies of an upload are packed into requests (snapshot_sync.rs): the
-- bodies of a literal family travel together, each request is of one class, and
-- catch-up goes out behind the ordinary bodies, within what these leave of an allowance.
import Ottto.Greedy
import Ottto.Progress

namespace ottto_service.snapshot_sync

def SNAPSHOT_BATCH_MAX_BYTES : Nat := 2 * 1024 * 1024

/-- A body as the uploader's closures see it. Its JSON may fail to serialize. -/
structure Body where
  fingerprint : String
  body_witness : String
  session_id : Option String
  batch_class : UInt8
  literal_family : Option String
  json_length : Option Nat
deriving DecidableEq

/-- A pending body, with the length of its JSON. -/
structure Member where
  body : Body
  length : Nat

namespace Member

/-- The body and the comma behind it. -/
def bytes (m : Member) : Nat := u64_saturating_add m.length 1

def batch_class (m : Member) : UInt8 := m.body.batch_class

/-- The order of a family: its root first, the others by their session. -/
def family_le (root : String) (a b : Member) : Bool :=
  match decide (a.body.session_id = some root), decide (b.body.session_id = some root) with
  | true, _ => true
  | false, true => false
  | false, false =>
    match a.body.session_id, b.body.session_id with
    | none, _ => true
    | some _, none => false
    | some a, some b => decide (a ≤ b)

end Member

/-- Bodies that stay together, and the class that their family is ordered by. -/
abbrev PackingUnit := List Member × UInt8

def saturating_sum (start : Nat) (lengths : List Nat) : Nat :=
  lengths.foldl u64_saturating_add start

/-- The next member of a family goes into the group. -/
def joins_group (group : List Member) (member : Member) : Bool :=
  !(decide (group.length = SNAPSHOT_BATCH_LIMIT) ||
    decide (SNAPSHOT_BATCH_MAX_BYTES <
      u64_saturating_add (saturating_sum 2 (group.map Member.bytes)) member.bytes) ||
    decide (group.head?.map Member.batch_class ≠ some member.batch_class))

/-- One family, root first, cut into groups that fit a request each. -/
def literal_family_groups (members : List Member) : List (List Member) :=
  greedy.groups joins_group members

/-- A body that is still to be sent; another of its fingerprint has taken its place. -/
def add_pending (progress : SnapshotUploadProgress) (pending : SortedMap String Member)
    (item : Body) : Except String (SortedMap String Member) :=
  if progress.contains_body item.fingerprint item.body_witness then .ok pending
  else if pending.contains item.fingerprint then .ok pending
  else match item.json_length with
    | none => .error "serialize snapshot for batch packing"
    | some length => .ok (pending.insert item.fingerprint ⟨item, length⟩)

/-- The bodies that are still to be sent: one for each fingerprint, in their order. -/
def pending_by_fingerprint (progress : SnapshotUploadProgress) (items : List Body) :
    Except String (SortedMap String Member) :=
  items.foldlM (add_pending progress) .empty

/-- `literal_families.entry(root).or_default().push(item)` -/
def push_member (families : SortedMap String (List Member)) (m : Member) :
    SortedMap String (List Member) :=
  match m.body.literal_family with
  | none => families
  | some root => families.insert root ((families.get? root).getD [] ++ [m])

/-- The members of each literal family, in the order of their fingerprints. -/
def literal_families (pending : List Member) : SortedMap String (List Member) :=
  pending.foldl push_member .empty

/-- The units of one family, under the class of its first member. -/
def family_units (root : String) (members : List Member) : List PackingUnit :=
  let members := members.mergeSort (Member.family_le root)
  match members with
  | [] => []
  | first :: _ => (literal_family_groups members).map (fun group => (group, first.batch_class))

def packing_units (pending : List Member) : List PackingUnit :=
  (pending.filter (fun m => m.body.literal_family.isNone)).map (fun m => ([m], m.batch_class)) ++
    (literal_families pending).entries.flatMap (fun e => family_units e.1 e.2)

/-- The units of one lane: what is left of each, if anything. -/
def lane_units (in_lane : Member → Bool) (units : List PackingUnit) : List PackingUnit :=
  (units.map (fun unit => (unit.1.filter in_lane, unit.2))).filter (fun unit => !unit.1.isEmpty)

/-- Stable: a family keeps its groups together and in their order. -/
def sort_by_family_key (units : List PackingUnit) : List PackingUnit :=
  units.mergeSort (fun a b => decide (a.2 ≤ b.2))

namespace Cycle

def reserve_ordinary_bytes (cycle : Cycle) (bytes : Nat) : Cycle :=
  { cycle with remaining_bytes := cycle.remaining_bytes - bytes }

def admit_catchup_bytes (cycle : Cycle) (bytes : Nat) : Option Cycle :=
  if cycle.remaining_bytes < bytes then none
  else some { cycle with remaining_bytes := cycle.remaining_bytes - bytes }

def ordinary_work_is_in (cycle : Cycle) (entities : Finset String) : Bool :=
  !cycle.bootstrap_blocks_catchup && decide (cycle.ordinary_pending ⊆ entities)

def defer (cycle : Cycle) (entity : String) : Cycle :=
  { cycle with deferred := insert entity cycle.deferred }

end Cycle

/-- What a body is charged: its bytes and the brackets of a request. -/
def charged (m : Member) : Nat := u64_saturating_add m.bytes 2

/-- The catch-up bodies of a unit that the allowance admits; the others stay owed. -/
def admit_unit (in_this_call : Bool) : Cycle → List Member → List Member × List Member × Cycle
  | cycle, [] => ([], [], cycle)
  | cycle, m :: unit =>
    match if in_this_call then cycle.admit_catchup_bytes (charged m) else none with
    | some admitted =>
      let (sent, owed, cycle) := admit_unit in_this_call admitted unit
      (m :: sent, owed, cycle)
    | none =>
      let (sent, owed, cycle) := admit_unit in_this_call (cycle.defer m.body.fingerprint) unit
      (sent, m :: owed, cycle)

/-- The units of the catch-up lane that have a body left, and the bodies left out. -/
def admit_units (in_this_call : Bool) : Cycle → List PackingUnit →
    List (List Member) × List Member × Cycle
  | cycle, [] => ([], [], cycle)
  | cycle, unit :: units =>
    let (sent, owed, cycle) := admit_unit in_this_call cycle unit.1
    let (rest, others, cycle) := admit_units in_this_call cycle units
    (if sent.isEmpty then rest else sent :: rest, owed ++ others, cycle)

/-- A unit of a lane: whether it is catch-up, and its bodies. -/
abbrev LaneUnit := Bool × List Member

def unit_bytes (unit : LaneUnit) : Nat := saturating_sum 0 (unit.2.map Member.bytes)

/-- A request is of one class and of one lane. -/
def unit_class (unit : LaneUnit) : Option UInt8 × Bool :=
  (unit.2.head?.map Member.batch_class, unit.1)

/-- The next unit goes into the batch. -/
def joins_batch (batch : List LaneUnit) (unit : LaneUnit) : Bool :=
  !(decide (SNAPSHOT_BATCH_LIMIT < (batch.flatMap Prod.snd).length + unit.2.length) ||
    decide (SNAPSHOT_BATCH_MAX_BYTES <
      u64_saturating_add (saturating_sum 2 (batch.map unit_bytes)) (unit_bytes unit)) ||
    decide (batch.getLast?.map unit_class ≠ some (unit_class unit)))

/-- What the packing leaves: the requests, the catch-up that stays owed and the cycle with
its allowance. -/
structure Packed where
  batches : List (List Member)
  owed : List Member
  cycle : Cycle

/-- The lanes of a call. -/
def is_catchup (progress : SnapshotUploadProgress) (m : Member) : Bool :=
  progress.context_resend.is_catchup m.body.fingerprint

/-- The units of ordinary bodies, by the class of their families. -/
def ordinary_lane (progress : SnapshotUploadProgress) (units : List PackingUnit) :
    List PackingUnit :=
  sort_by_family_key (lane_units (fun m => !is_catchup progress m) units)

/-- The units of stamp-only bodies. -/
def catchup_lane (progress : SnapshotUploadProgress) (units : List PackingUnit) :
    List PackingUnit :=
  sort_by_family_key (lane_units (is_catchup progress) units)

/-- No ordinary body is left for a later call. -/
def ordinary_in_this_call (progress : SnapshotUploadProgress) (units : List PackingUnit) : Bool :=
  progress.context_resend.ordinary_work_is_in
    (((ordinary_lane progress units).flatMap Prod.fst).map (fun m => m.body.fingerprint)).toFinset

/-- All ordinary bodies are charged before any catch-up. -/
def reserved_cycle (progress : SnapshotUploadProgress) (units : List PackingUnit) : Cycle :=
  progress.context_resend.reserve_ordinary_bytes
    (saturating_sum 0 (((ordinary_lane progress units).flatMap Prod.fst).map charged))

def pack_units (progress : SnapshotUploadProgress) (units : List PackingUnit) : Packed :=
  let (admitted, owed, cycle) := admit_units (ordinary_in_this_call progress units)
    (reserved_cycle progress units) (catchup_lane progress units)
  let lanes := (ordinary_lane progress units).map (fun unit => (false, unit.1)) ++
    admitted.map (fun unit => (true, unit))
  { batches := (greedy.groups joins_batch lanes).map (fun batch => batch.flatMap Prod.snd)
    owed
    cycle }

/-- The first requests of an upload. -/
def pack_batches (progress : SnapshotUploadProgress) (items : List Body) : Except String Packed := do
  let pending ← pending_by_fingerprint progress items
  .ok (pack_units progress (packing_units pending.values))

end ottto_service.snapshot_sync
