-- The head of a Tail file (snapshots/state_v2/tail.rs): the membership of its
-- collections, the common body and the reduction, as the bytes of one value.
import Ottto.TailRoundTrip
import Ottto.Results

namespace ottto_service.state_v2.tail

open Results List
open durable_tail_codec.Durable (to_le_bytes from_le_bytes as_bytes from_utf8 to_le_bytes_length
  from_le_bytes_to_le_bytes from_utf8_as_bytes)

/-- Why a Tail operation failed. -/
inductive Fault where
  | Message (text : String)
  | Future
  | ReloadRequired
deriving DecidableEq, Repr

def ensure (ok : Bool) (fault : Fault) : Except Fault Unit := if ok then .ok () else .error fault

def context {α : Type} (value : Option α) (text : String) : Except Fault α :=
  match value with
  | some a => .ok a
  | none => .error (.Message text)

abbrev Bytes := List UInt8

/-! ## The types of a head -/

def TAIL_KINDS : List String :=
  ["tail.page.responses", "tail.page.tool_uses", "tail.page.changed_files", "tail.page.cap_hours",
    "tail.page.compactions", "tail.page.signatures", "tail.page.priority_turns",
    "tail.page.usage_hours", "tail.page.requests", "tail.page.pi_usage_keys",
    "tail.page.codex_active_turns", "tail.page.codex_open_calls", "tail.page.codex_name_counts",
    "tail.revision", "tail.page.session_facts", "tail.head", "tail.frag", "tail.set_aside"]

inductive Collection where
  | Responses
  | ToolUses
  | ChangedFiles
  | CapabilityHours
  | Compactions
  | Signatures
  | PriorityTurns
  | UsageHours
  | Requests
  | PiUsageKeys
  | CodexActiveTurns
  | CodexOpenCalls
  | CodexNameCounts
  | Revisions
  | SessionFacts
deriving DecidableEq, Repr

namespace Collection

def ALL : List Collection :=
  [.Responses, .ToolUses, .ChangedFiles, .CapabilityHours, .Compactions, .Signatures,
    .PriorityTurns, .UsageHours, .Requests, .PiUsageKeys, .CodexActiveTurns, .CodexOpenCalls,
    .CodexNameCounts, .Revisions, .SessionFacts]

/-- `self as usize`. -/
def index (c : Collection) : Nat := c.ctorIdx

theorem index_injective : Function.Injective index := by
  intro a b h
  cases a <;> cases b <;> first | rfl | cases h

instance : LinearOrder Collection := LinearOrder.lift' index index_injective

def kind (c : Collection) : String := (TAIL_KINDS[c.index]?).getD ""

/-- Fragment-owner id; the head owns id 1. -/
def owner (c : Collection) : Nat := c.index + 2

theorem get_index (c : Collection) : ALL[c.index]? = some c := by cases c <;> rfl

theorem mem_all (c : Collection) : c ∈ ALL := by cases c <;> decide

end Collection

def HEAD_OWNER : Nat := 1

inductive Shape where
  | Slot
  | Log
  | Hour
deriving DecidableEq, Repr

def Shape.code : Shape → UInt8
  | .Slot => 1
  | .Log => 2
  | .Hour => 3

structure CollectionMeta where
  shape : Shape
  elements_per_page : UInt32
  elements : UInt64

/-- One collection's stored membership: the XOR of a term per row. -/
structure Membership where
  «meta» : CollectionMeta
  pages : UInt64
  commit : BitVec 256

abbrev MembershipTable := SortedMap Collection Membership

inductive Representation where
  | Tail
  | Archive
  | NonTail
deriving DecidableEq, Repr

def Representation.code : Representation → UInt8
  | .Tail => 1
  | .Archive => 2
  | .NonTail => 3

inductive NoUploadRequired where
  | ZeroUsageLines
  | ZeroTokens
deriving DecidableEq, Repr

def NoUploadRequired.code : NoUploadRequired → UInt8
  | .ZeroUsageLines => 1
  | .ZeroTokens => 2

structure DebtSummary where
  earliest_unacked_change_at : Option UInt64 := none
  lower_bound : Bool := false
  reason_bits : UInt32 := 0
  disposition : Option NoUploadRequired := none

structure ContentStamp where
  device : UInt64
  inode : UInt64
  length : UInt64
  modified : Int64 × Int64

structure InventoryFacts where
  owner : String
  created_unix_ms : Option Int64
  stamp : ContentStamp
  read_bytes : UInt64

structure Common where
  representation : Representation := .Tail
  debt : DebtSummary := {}
  next_revision_id : UInt64 := 0
  inventory : Option InventoryFacts := none

structure Decoded where
  revision : UInt32 := 0
  table : MembershipTable := .empty
  common : Common := {}
  reduction : Option Bytes := none

/-! ## Writing a head -/

def to_be_bytes (width n : Nat) : Bytes := (to_le_bytes width n).reverse

def from_be_bytes (bytes : Bytes) : Nat := from_le_bytes bytes.reverse

def u32_bytes (n : UInt32) : Bytes := to_be_bytes 4 n.toNat
def u64_bytes (n : UInt64) : Bytes := to_be_bytes 8 n.toNat
def i64_bytes (n : Int64) : Bytes := u64_bytes n.toUInt64
def flag (b : Bool) : UInt8 := if b then 1 else 0

def ENVELOPE : UInt8 := 1
def HAS_REDUCTION : UInt8 := 1
def HAS_INVENTORY : UInt8 := 2

def value_shape : Fault := .Message "state_v2_tail_value_shape"

/-- Only a Tail head holds a reduction, whichever way the head is crossing. -/
def check_shape (representation : Representation) (has_reduction : Bool) : Except Fault Unit :=
  ensure (!has_reduction || representation == .Tail) value_shape

def encode_inventory (facts : InventoryFacts) : Except Fault Bytes := do
  let stamp := facts.stamp
  let owner := as_bytes facts.owner
  let _ ← ensure (decide (owner.length < 2 ^ 32))
    (.Message "out of range integral type conversion attempted")
  .ok (flag facts.created_unix_ms.isSome :: i64_bytes (facts.created_unix_ms.getD 0) ++
    u64_bytes stamp.device ++ u64_bytes stamp.inode ++ u64_bytes stamp.length ++
    i64_bytes stamp.modified.1 ++ i64_bytes stamp.modified.2 ++ u64_bytes facts.read_bytes ++
    to_be_bytes 4 owner.length ++ owner)

def entry_bytes (collection : Collection) (entry : Membership) : Bytes :=
  UInt8.ofNat collection.index :: entry.«meta».shape.code ::
    (u32_bytes entry.«meta».elements_per_page ++ u64_bytes entry.«meta».elements ++
      u64_bytes entry.pages ++ to_be_bytes 32 entry.commit.toNat)

def debt_bytes (debt : DebtSummary) : Bytes :=
  flag debt.earliest_unacked_change_at.isSome ::
    (u64_bytes (debt.earliest_unacked_change_at.getD 0) ++ flag debt.lower_bound ::
      u32_bytes debt.reason_bits ++ [(debt.disposition.map NoUploadRequired.code).getD 0])

def encode_head (revision : UInt32) (table : MembershipTable) (common : Common)
    (reduction : Option Bytes) : Except Fault Bytes := do
  let _ ← check_shape common.representation reduction.isSome
  let parts := flag reduction.isSome * HAS_REDUCTION + flag common.inventory.isSome * HAS_INVENTORY
  let facts ← (match common.inventory with
    | some facts => encode_inventory facts
    | none => .ok [])
  .ok (u32_bytes revision ++ UInt8.ofNat table.size ::
    table.entries.flatMap (fun e => entry_bytes e.1 e.2) ++
    ENVELOPE :: common.representation.code :: u64_bytes common.next_revision_id ++
    debt_bytes common.debt ++ parts :: facts ++ reduction.getD [])

/-! ## Reading a head -/

/-- A read takes from the front of what is left. -/
abbrev Reader := StateT Bytes (Except Fault)

namespace Reader

def fail {α : Type} (fault : Fault) : Reader α := fun _ => .error fault

def take (n : Nat) : Reader Bytes := fun input =>
  if n ≤ input.length then .ok (input.take n, input.drop n) else .error value_shape

def byte : Reader UInt8 := do
  let bytes ← take 1
  pure (bytes.headD 0)

def u32 : Reader UInt32 := do
  let bytes ← take 4
  pure (UInt32.ofNat (from_be_bytes bytes))

def u64 : Reader UInt64 := do
  let bytes ← take 8
  pure (UInt64.ofNat (from_be_bytes bytes))

def i64 : Reader Int64 := do
  let bits ← u64
  pure bits.toInt64

/-- A code above `max` was written by a newer build: hold, never default. -/
def code (max : UInt8) : Reader UInt8 := do
  let value ← byte
  if value ≤ max then pure value else fail .Future

end Reader

open Reader

def decode_inventory : Reader InventoryFacts := do
  let created ← code 1
  let at_ms ← i64
  let device ← u64
  let inode ← u64
  let length ← u64
  let seconds ← i64
  let nanos ← i64
  let read_bytes ← u64
  let len ← u32
  let owner ← take len.toNat
  match from_utf8 owner with
  | some owner =>
    pure { owner, created_unix_ms := if created = 1 then some at_ms else none,
           stamp := ⟨device, inode, length, (seconds, nanos)⟩, read_bytes }
  | none => fail value_shape

def Shape.known (code : UInt8) : Option Shape :=
  [Shape.Slot, Shape.Log, Shape.Hour].find? (fun known => known.code == code)

def decode_entry : Reader (Collection × Membership) := do
  let collection ← byte
  let shape ← byte
  match Collection.ALL[collection.toNat]?, Shape.known shape with
  | some collection, some shape => do
    let elements_per_page ← u32
    let elements ← u64
    let pages ← u64
    let commit ← take 32
    pure (collection, ⟨⟨shape, elements_per_page, elements⟩, pages, BitVec.ofNat 256 (from_be_bytes commit)⟩)
  | _, _ => fail .Future

def decode_table : Nat → MembershipTable → Reader MembershipTable
  | 0, table => pure table
  | n + 1, table => do
    let e ← decode_entry
    decode_table n (table.insert e.1 e.2)

def decode_representation : Reader Representation := do
  let value ← code 3
  match value with
  | 1 => pure .Tail
  | 2 => pure .Archive
  | 3 => pure .NonTail
  | _ => fail value_shape

def decode_debt : Reader DebtSummary := do
  let earliest ← code 1
  let at_ms ← u64
  let lower_bound ← code 1
  let reason_bits ← u32
  let disposition ← code 2
  pure { earliest_unacked_change_at := if earliest = 1 then some at_ms else none,
         lower_bound := lower_bound = 1, reason_bits,
         disposition := match disposition with
           | 0 => none
           | 1 => some .ZeroUsageLines
           | _ => some .ZeroTokens }

/-- The bytes before the reduction: the revision, the table, the common body
and whether a reduction follows. -/
def decode_common : Reader (UInt32 × MembershipTable × Common × Bool) := do
  let revision ← u32
  let entries ← byte
  let table ← decode_table entries.toNat .empty
  let envelope ← code ENVELOPE
  if envelope = ENVELOPE then do
    let representation ← decode_representation
    let next_revision_id ← u64
    let debt ← decode_debt
    let parts ← code (HAS_REDUCTION ||| HAS_INVENTORY)
    let inventory ← (if parts &&& HAS_INVENTORY ≠ 0 then some <$> decode_inventory else pure none)
    pure (revision, table, ⟨representation, debt, next_revision_id, inventory⟩,
      parts &&& HAS_REDUCTION ≠ 0)
  else fail value_shape

def decode_head (bytes : Bytes) : Except Fault Decoded := do
  let ((revision, table, common, has_reduction), rest) ← decode_common bytes
  let _ ← check_shape common.representation has_reduction
  let reduction := if has_reduction then some rest else none
  let _ ← ensure (reduction.isSome || rest.isEmpty) value_shape
  .ok { revision, table, common, reduction }

/-! ## Round trip -/

theorem ensure_eq_ok {ok : Bool} {fault : Fault} {u : Unit} :
    ensure ok fault = .ok u ↔ ok = true := by
  unfold ensure
  cases ok <;> simp

theorem context_eq_ok {α : Type} {x : Option α} {text : String} {a : α} :
    context x text = .ok a ↔ x = some a := by
  cases x <;> simp [context]

/-- The reader takes exactly these bytes, and reads `x` from them. -/
def Takes {α : Type} (read : Reader α) (bytes : Bytes) (x : α) : Prop :=
  ∀ rest, read (bytes ++ rest) = .ok (x, rest)

namespace Takes

variable {α β : Type}

theorem pure (x : α) : Takes (Pure.pure x) [] x := fun _ => rfl

variable {read : Reader α} {next : α → Reader β} {x : α} {y : β}

theorem bind {front back : Bytes} (h : Takes read front x) (h' : Takes (next x) back y) :
    Takes (read >>= next) (front ++ back) y := by
  intro rest
  rw [append_assoc]
  show (read (front ++ (back ++ rest)) >>= fun r => next r.1 r.2) = _
  rw [h]
  exact h' rest

variable {bytes : Bytes}

theorem map (h : Takes read bytes x) (f : α → β) :
    Takes (read >>= fun a => Pure.pure (f a)) bytes (f x) := by
  have h' : Takes (read >>= fun a => Pure.pure (f a)) (bytes ++ []) (f x) := bind h (pure (f x))
  rwa [append_nil] at h'

theorem take {n : Nat} (h : bytes.length = n) : Takes (Reader.take n) bytes bytes := by
  intro rest
  unfold Reader.take
  rw [if_pos (by rw [length_append]; omega), ← h, take_left, drop_left]

theorem byte (b : UInt8) : Takes Reader.byte [b] b :=
  map (take rfl : Takes (Reader.take 1) [b] [b]) (fun bytes => bytes.headD 0)

theorem to_be_bytes_length (width n : Nat) : (to_be_bytes width n).length = width := by
  unfold to_be_bytes
  rw [length_reverse, to_le_bytes_length]

theorem from_be_bytes_to_be_bytes {width n : Nat} (h : n < 256 ^ width) :
    from_be_bytes (to_be_bytes width n) = n := by
  unfold from_be_bytes to_be_bytes
  rw [reverse_reverse, from_le_bytes_to_le_bytes width n h]

theorem u32 (n : UInt32) : Takes Reader.u32 (u32_bytes n) n := by
  have h := (take (to_be_bytes_length 4 n.toNat)).map (fun b => UInt32.ofNat (from_be_bytes b))
  rwa [from_be_bytes_to_be_bytes (by simpa using n.toNat_lt), UInt32.ofNat_toNat] at h

theorem u64 (n : UInt64) : Takes Reader.u64 (u64_bytes n) n := by
  have h := (take (to_be_bytes_length 8 n.toNat)).map (fun b => UInt64.ofNat (from_be_bytes b))
  rwa [from_be_bytes_to_be_bytes (by simpa using n.toNat_lt), UInt64.ofNat_toNat] at h

theorem i64 (n : Int64) : Takes Reader.i64 (i64_bytes n) n :=
  (u64 n.toUInt64).map UInt64.toInt64

theorem code {b max : UInt8} (h : b ≤ max) : Takes (Reader.code max) [b] b := by
  have hnext : Takes (if b ≤ max then Pure.pure b else Reader.fail .Future) [] b := by
    rw [if_pos h]
    exact pure b
  exact (byte b).bind hnext

/-- One byte, then the rest. -/
theorem cons {b : UInt8} {back : Bytes}
    (h : Takes read [b] x) (h' : Takes (next x) back y) : Takes (read >>= next) (b :: back) y :=
  bind h h'

/-- The last read takes the bytes that are left. -/
theorem last
    (h : Takes read bytes x) (h' : Takes (next x) [] y) : Takes (read >>= next) bytes y := by
  have hall := bind h h'
  rwa [append_nil] at hall

theorem flag_le (b : Bool) : flag b ≤ 1 := by cases b <;> decide

/-- A value behind its flag. -/
theorem flagged {γ : Type} (value : Option γ) (absent : γ) :
    (if flag value.isSome = 1 then some (value.getD absent) else none) = value := by
  cases value with
  | none => rfl
  | some x => rfl

theorem inventory {facts : InventoryFacts} (h : encode_inventory facts = .ok bytes) :
    Takes decode_inventory bytes facts := by
  obtain ⟨_, hlen, h⟩ := bind_eq_ok.mp h
  have hlen := of_decide_eq_true (ensure_eq_ok.mp hlen)
  cases h
  have howner : Takes Reader.u32 (to_be_bytes 4 (as_bytes facts.owner).length)
      (UInt32.ofNat (as_bytes facts.owner).length) := by
    have h := u32 (UInt32.ofNat (as_bytes facts.owner).length)
    rwa [u32_bytes, UInt32.toNat_ofNat', Nat.mod_eq_of_lt hlen] at h
  simp only [append_assoc, cons_append]
  refine cons (code (flag_le _)) (bind (i64 _) (bind (u64 _) (bind (u64 _) (bind (u64 _) ?_))))
  refine bind (i64 _) (bind (i64 _) (bind (u64 _) (bind howner ?_)))
  refine last (take ?_) ?_
  · rw [UInt32.toNat_ofNat', Nat.mod_eq_of_lt hlen]
  · rw [from_utf8_as_bytes, flagged]
    exact pure facts

theorem known_code (shape : Shape) : Shape.known shape.code = some shape := by cases shape <;> rfl

theorem entry (c : Collection) (e : Membership) : Takes decode_entry (entry_bytes c e) (c, e) := by
  have hindex : (UInt8.ofNat c.index).toNat = c.index := by cases c <;> rfl
  refine cons (byte _) (cons (byte _) ?_)
  rw [hindex, Collection.get_index, known_code]
  simp only [append_assoc]
  refine bind (u32 _) (bind (u64 _) (bind (u64 _) ?_))
  refine last (take (to_be_bytes_length 32 _)) ?_
  rw [from_be_bytes_to_be_bytes (by simpa using e.commit.isLt), BitVec.ofNat_toNat,
    BitVec.setWidth_eq]
  exact pure (c, e)

theorem table (entries : List (Collection × Membership)) (found : MembershipTable) :
    Takes (decode_table entries.length found) (entries.flatMap (fun e => entry_bytes e.1 e.2))
      (entries.foldl (fun t e => t.insert e.1 e.2) found) := by
  induction entries generalizing found with
  | nil => exact pure found
  | cons e entries ih => exact bind (entry e.1 e.2) (ih (found.insert e.1 e.2))

theorem representation (r : Representation) : Takes decode_representation [r.code] r := by
  cases r with
  | Tail => exact last (code (by decide)) (pure _)
  | Archive => exact last (code (by decide)) (pure _)
  | NonTail => exact last (code (by decide)) (pure _)

theorem debt (d : DebtSummary) : Takes decode_debt (debt_bytes d) d := by
  have hdisposition : (d.disposition.map NoUploadRequired.code).getD 0 ≤ 2 := by
    rcases d.disposition with _ | ⟨⟨⟩ | ⟨⟩⟩ <;> decide
  unfold debt_bytes
  simp only [append_assoc, cons_append]
  refine cons (code (flag_le _)) (bind (u64 _) (cons (code (flag_le _)) (bind (u32 _) ?_)))
  refine last (code hdisposition) ?_
  rw [flagged]
  obtain ⟨earliest, lower_bound, reason_bits, disposition⟩ := d
  rcases disposition with _ | ⟨⟨⟩ | ⟨⟩⟩ <;> cases lower_bound <;> exact pure _

theorem table_size (t : MembershipTable) : t.size ≤ 15 := by
  have hnodup : t.keys.Nodup := by
    unfold SortedMap.keys
    rw [nodup_iff_pairwise_ne, pairwise_map]
    exact t.sorted.imp (fun h => ne_of_lt h)
  have hsub : t.keys ⊆ Collection.ALL := fun c _ => c.mem_all
  have hle := (hnodup.subperm hsub).length_le
  rwa [SortedMap.keys, length_map] at hle

theorem table_entries (t : MembershipTable) :
    t.entries.foldl (fun t e => t.insert e.1 e.2) .empty = t := by
  ext c : 1
  rw [SortedMap.get?_foldl_insert _ t.sorted, SortedMap.get?_empty, Option.or_none]
  rfl

theorem parts_le (a b : Bool) :
    flag a * HAS_REDUCTION + flag b * HAS_INVENTORY ≤ HAS_REDUCTION ||| HAS_INVENTORY := by
  cases a <;> cases b <;> decide

theorem parts_inventory (a b : Bool) :
    ((flag a * HAS_REDUCTION + flag b * HAS_INVENTORY) &&& HAS_INVENTORY ≠ 0) ↔ b = true := by
  cases a <;> cases b <;> decide

theorem parts_reduction (a b : Bool) :
    decide ((flag a * HAS_REDUCTION + flag b * HAS_INVENTORY) &&& HAS_REDUCTION ≠ 0) = a := by
  cases a <;> cases b <;> decide

end Takes

/-- What `encode_head` wrote, `decode_head` reads. -/
theorem decode_encode_head {revision : UInt32} {t : MembershipTable} {common : Common}
    {reduction : Option Bytes} {bytes : Bytes}
    (h : encode_head revision t common reduction = .ok bytes) :
    decode_head bytes = .ok ⟨revision, t, common, reduction⟩ := by
  obtain ⟨_, hshape, h⟩ := bind_eq_ok.mp h
  obtain ⟨facts, hfacts, h⟩ := bind_eq_ok.mp h
  cases h
  have hinventory : Takes (if common.inventory.isSome = true then some <$> decode_inventory
      else pure none) facts common.inventory := by
    cases hinventory : common.inventory with
    | none =>
      rw [hinventory] at hfacts
      cases hfacts
      exact Takes.pure none
    | some found =>
      rw [hinventory] at hfacts
      exact (Takes.inventory hfacts).map some
  have hsize : (UInt8.ofNat t.size).toNat = t.entries.length := by
    have := Takes.table_size t
    rw [UInt8.toNat_ofNat', Nat.mod_eq_of_lt (by omega)]
    rfl
  have htable := Takes.table t.entries .empty
  rw [Takes.table_entries, ← hsize] at htable
  have hcommon : Takes decode_common (u32_bytes revision ++ UInt8.ofNat t.size ::
      (t.entries.flatMap (fun e => entry_bytes e.1 e.2) ++
      ENVELOPE :: common.representation.code :: (u64_bytes common.next_revision_id ++
      (debt_bytes common.debt ++ (flag reduction.isSome * HAS_REDUCTION +
        flag common.inventory.isSome * HAS_INVENTORY) :: facts))))
      (revision, t, common, reduction.isSome) := by
    refine Takes.bind (Takes.u32 _) (Takes.cons (Takes.byte _) (Takes.bind htable ?_))
    refine Takes.cons (Takes.code (by decide : ENVELOPE ≤ ENVELOPE)) ?_
    rw [if_pos rfl]
    refine Takes.cons (Takes.representation _) (Takes.bind (Takes.u64 _) ?_)
    refine Takes.bind (Takes.debt _) (Takes.cons (Takes.code (Takes.parts_le _ _)) ?_)
    simp only [Takes.parts_inventory, Takes.parts_reduction]
    exact Takes.last hinventory (Takes.pure _)
  have hread := hcommon (reduction.getD [])
  simp only [append_assoc, cons_append] at hread ⊢
  unfold decode_head
  rw [hread]
  cases reduction with
  | none =>
    simp only [bind, Except.bind] at hshape ⊢
    rw [hshape]
    rfl
  | some body =>
    simp only [bind, Except.bind] at hshape ⊢
    rw [hshape]
    rfl

end ottto_service.state_v2.tail
