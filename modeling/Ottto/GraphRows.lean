-- The graph rows of a save (snapshots/state_v2/mapper.rs): each row that is
-- enumerated is written where its digest differs from the stored one's, and the
-- rows of a staged file wait for the file's boundary.
import Ottto.Interning
import Ottto.TailStaging

namespace ottto_service.state_v2

open serde_json Results
open tail (Bytes Fault)

/-! ## Row keys -/

instance byteOrder : LinearOrder UInt8 where
  le_refl := UInt8.le_refl
  le_trans := fun _ _ _ => UInt8.le_trans
  le_antisymm := fun _ _ => UInt8.le_antisymm
  le_total := UInt8.le_total
  lt_iff_le_not_ge := by
    intro a b
    simp only [UInt8.lt_iff_toNat_lt, UInt8.le_iff_toNat_le]
    omega
  toDecidableLE := inferInstance
  toDecidableEq := inferInstance
  toDecidableLT := inferInstance

inductive RowKey where
  | Meta (name : String)
  | Record (kind : String) (key_bytes : Bytes) (position : Nat)
  | RequestSet (id : Nat)

namespace RowKey

/-- The fields in the order that the derived `Ord` compares them. -/
def fields : RowKey → String ⊕ₗ ((String ×ₗ Bytes ×ₗ Nat) ⊕ₗ Nat)
  | Meta name => toLex (.inl name)
  | Record kind key_bytes position =>
    toLex (.inr (toLex (.inl (toLex (kind, toLex (key_bytes, position))))))
  | RequestSet id => toLex (.inr (toLex (.inr id)))

theorem fields_injective : Function.Injective fields := by
  intro a b h
  cases a <;> cases b <;> simp_all [fields]

instance : LinearOrder RowKey := LinearOrder.lift' fields fields_injective

theorem le_iff {a b : RowKey} : a ≤ b ↔ a.fields ≤ b.fields := .rfl

theorem record_le_record {kind kind' : String} {f g : Bytes} {p q : Nat} :
    Record kind f p ≤ Record kind' g q ↔
      kind < kind' ∨ kind = kind' ∧ (f < g ∨ f = g ∧ p ≤ q) := by
  rw [le_iff]
  simp only [fields, Sum.Lex.inr_le_inr_iff, Sum.Lex.inl_le_inl_iff, Prod.Lex.toLex_le_toLex]

/-- Between two rows of one kind lie rows of the kind, and between two of one
file rows of the file. -/
theorem record_between {kind : String} {f g : Bytes} {p q : Nat} {k : RowKey}
    (h1 : Record kind f p ≤ k) (h2 : k ≤ Record kind g q) :
    ∃ file position, k = Record kind file position ∧ (f = g → file = f) := by
  cases k with
  | Meta name =>
    simp only [le_iff, fields] at h1
    exact absurd h1 Sum.Lex.not_inr_le_inl
  | RequestSet id =>
    simp only [le_iff, fields, Sum.Lex.inr_le_inr_iff] at h2
    exact absurd h2 Sum.Lex.not_inr_le_inl
  | Record kind' file position =>
    rw [record_le_record] at h1 h2
    have hkind : kind = kind' := by
      rcases h1 with h1 | ⟨h1, -⟩
      · rcases h2 with h2 | ⟨h2, -⟩
        · exact absurd h1 (lt_asymm h2)
        · exact h2.symm
      · exact h1
    subst hkind
    refine ⟨file, position, rfl, ?_⟩
    rintro rfl
    rcases h1 with h1 | ⟨-, h1 | ⟨h1, -⟩⟩
    · exact absurd h1 (lt_irrefl _)
    · rcases h2 with h2 | ⟨-, h2 | ⟨h2, -⟩⟩
      · exact absurd h2 (lt_irrefl _)
      · exact absurd h1 (lt_asymm h2)
      · exact h2
    · exact h1.symm

end RowKey

namespace mapper

/-- File-owned kinds: maps whose members are keyed by the file's index key. -/
def CLOSURE : List String :=
  ["file.progress", "file.terminal", "file.entities", "file.confirmed_empty",
    "file.growth_retention", "file.census", "v1_field.claude_desktop_title_files",
    "proof.deferred_account"]

/-- A file-owned kind's row: (file key, position). Position 0 is the cardinality. -/
def closure_row (key : RowKey) : Option (Bytes × Nat) :=
  match key with
  | .Record kind key_bytes position =>
    if CLOSURE.contains kind then some (key_bytes, position) else none
  | _ => none

def record_kind (key : RowKey) : Option String :=
  match key with
  | .Record kind _ _ => some kind
  | _ => none

/-- The file a row belongs to. -/
def owner (key : RowKey) : Option Bytes := (closure_row key).map Prod.fst

end mapper

/-! ## The graph rows of a store -/

/-- Rows that hold bytes as they are: controls, and values no decoder took. -/
def RowKey.is_raw (key : RowKey) : Bool :=
  match key with
  | .Meta _ => true
  | .Record kind _ _ => "raw_hold.".isPrefixOf kind
  | .RequestSet _ => false

def kind_name (key : RowKey) : String := (mapper.record_kind key).getD ""

def CONTROL_BYTES : Nat := 16 * 1024

def value_cap (key : RowKey) : Nat :=
  match key with
  | .Meta _ => CONTROL_BYTES
  | _ => VALUE_BYTES

structure Graph (codec : RowCodec) where
  records : Store codec RowKey := {}
  held : SortedMap RowKey Bytes := .empty

/-- An error of a row is one of the save. -/
def fault {α : Type} (r : Except String α) : Except Fault α := r.mapError .Message

section

variable {codec : RowCodec}

namespace Graph

variable (g : Graph codec) (key : RowKey)

def put (value : Value) : Except Fault (Graph codec) := do
  let records ← fault (g.records.put kind_name key value)
  .ok { g with records }

def put_raw (value : Bytes) : Except Fault (Graph codec) := do
  let _ ← tail.ensure (decide (value.length ≤ value_cap key)) (.Message "state_v2_value_admission")
  .ok { g with held := g.held.insert key value }

def remove : Except Fault (Graph codec) :=
  if (g.held.get? key).isSome then .ok { g with held := g.held.erase key }
  else do
    let records ← fault (g.records.remove kind_name key)
    .ok { g with records }

end Graph

/-- What a graph row says: a value, or bytes as they are. -/
inductive RowValue where
  | json (value : Value)
  | raw (bytes : Bytes)
deriving DecidableEq

namespace RowValue

def json? : RowValue → Option Value
  | json value => some value
  | raw _ => none

def raw? : RowValue → Option Bytes
  | json _ => none
  | raw bytes => some bytes

def is_raw (v : RowValue) : Bool := v.raw?.isSome

end RowValue

/-- A row as it was put: the evidence its record refers to is read back. -/
def Graph.read (g : Graph codec) (key : RowKey) : Except Fault (Option RowValue) :=
  match g.held.get? key, g.records.records.get? key with
  | some bytes, _ => .ok (some (.raw bytes))
  | none, some json => do
    let value ← fault (restore g.records (kind_name key) json)
    .ok (some (.json value))
  | none, none => .ok none

/-- The digests of an inventory: of a row's text in its domain, and of raw
bytes. Rows meet no collision. -/
structure Inventory (codec : RowCodec) where
  Digest : Type
  digestEq : DecidableEq Digest
  text : codec.Text → Digest
  text_injective : Function.Injective text
  bytes : Bytes → Digest
  bytes_injective : Function.Injective bytes

instance (inv : Inventory codec) : DecidableEq inv.Digest := inv.digestEq

namespace Inventory

variable (inv : Inventory codec)

def json (value : Value) : inv.Digest := inv.text (codec.to_vec value)

def digest : RowValue → inv.Digest
  | .json value => inv.json value
  | .raw bytes => inv.bytes bytes

end Inventory

/-! ## The rows of a save -/

/-- The rows of a transaction: the graph's and the Tail files'. -/
structure Transaction (codec : RowCodec) (out : tail.Outside Bytes) where
  graph : Graph codec := {}
  tail : tail.Tx out := {}

namespace mapper

/-- One changed row of a staged file's closure, written inside its boundary. -/
structure ClosureRow (inv : Inventory codec) where
  key : RowKey
  /-- The committed digest, restored if the boundary rolls back. -/
  old : Option inv.Digest
  /-- `None`: the save removes the row. -/
  value : Option Value

/-- Expanded logical rows. Consuming the old inventory makes deletions
independent of how a subset was rebuilt. -/
structure Rows (inv : Inventory codec) (out : tail.Outside Bytes) where
  tx : Transaction codec out
  old : SortedMap RowKey inv.Digest := .empty
  next : SortedMap RowKey inv.Digest := .empty
  /-- Baseline seed only. -/
  seed : SortedMap RowKey inv.Digest := .empty
  /-- Files staged in Tail: their changed closure rows wait for their boundary. -/
  closures : SortedMap Bytes (List (ClosureRow inv)) := .empty
  /-- Closure kinds' cardinality rows, written by `finish` from `next`. -/
  counted : SortedMap RowKey Unit := .empty

variable {inv : Inventory codec} {out : tail.Outside Bytes}

namespace Rows

variable (rows : Rows inv out)

def digest (key : RowKey) (value : Value) : inv.Digest × Rows inv out :=
  match rows.seed.get? key with
  | some digest => (digest, { rows with seed := rows.seed.erase key })
  | none => (inv.json value, rows)

/-- The digest of a row that is new in this save. -/
def note (key : RowKey) (digest : inv.Digest) : Except Fault (Rows inv out) := do
  let _ ← tail.ensure (rows.next.get? key).isNone (.Message "state_v2_duplicate_row")
  .ok { rows with next := rows.next.insert key digest }

def put_digest (key : RowKey) (value : Value) (digest : inv.Digest) :
    Except Fault (Rows inv out) := do
  let old := rows.old.get? key
  let rows := { rows with old := rows.old.erase key }
  if old = some digest then rows.note key digest
  else
    match (owner key).bind (fun file => (rows.closures.get? file).map (fun c => (file, c))) with
    | some (file, closure) =>
      let closure := closure ++ [⟨key, old, some value⟩]
      { rows with closures := rows.closures.insert file closure }.note key digest
    | none => do
      let graph ← rows.tx.graph.put key value
      { rows with tx := { rows.tx with graph } }.note key digest

def put (key : RowKey) (value : Value) : Except Fault (Rows inv out) :=
  -- a file-owned kind counts the members that commit, after the boundaries
  if (closure_row key).any (fun r => r.2 == 0) then
    .ok { rows with counted := rows.counted.insert key () }
  else
    let (digest, rows) := rows.digest key value
    rows.put_digest key value digest

def raw (key : RowKey) (value : Bytes) : Except Fault (Rows inv out) := do
  let digest := inv.bytes value
  let old := rows.old.get? key
  let rows := { rows with old := rows.old.erase key }
  if old = some digest then rows.note key digest
  else do
    let graph ← rows.tx.graph.put_raw key value
    { rows with tx := { rows.tx with graph } }.note key digest

/-- The rows of a kind that a file still has in the old inventory. -/
def left (file : Bytes) (kind : String) : List RowKey :=
  (rows.old.rangeWhile (.Record kind file 0)
    (fun key => record_kind key = some kind ∧ owner key = some file)).map Prod.fst

/-- The file's changed closure rows, with those this save removes: they leave
`old`, so `finish` never deletes them outside the file's boundary. -/
def take_closure (file : Bytes) : List (ClosureRow inv) × Rows inv out :=
  let closure := (rows.closures.get? file).getD []
  let rows := { rows with closures := rows.closures.erase file }
  CLOSURE.foldl (fun (closure, rows) kind =>
    (left rows file kind).foldl (fun (closure, rows) key =>
      (closure ++ [⟨key, rows.old.get? key, none⟩], { rows with old := rows.old.erase key }))
      (closure, rows)) (closure, rows)

/-- The file's boundary rolled back: its committed rows stand. -/
def revert (closure : List (ClosureRow inv)) : Rows inv out :=
  closure.foldl (fun rows row =>
    { rows with next := match row.old with
      | some digest => rows.next.insert row.key digest
      | none => rows.next.erase row.key }) rows

/-- The count of a kind's members, as JSON. -/
def count (members : Nat) : Value := .number (.PosInt (UInt64.ofNat members))

def finish_counted (manifest : RowKey) : Except Fault (Rows inv out) :=
  let members := count (rows.next.rangeWhile manifest
    (fun key => record_kind key = record_kind manifest)).length
  let (digest, rows) := rows.digest manifest members
  rows.put_digest manifest members digest

def finish : Except Fault (SortedMap RowKey inv.Digest × Transaction codec out) := do
  let rows ← rows.counted.keys.foldlM finish_counted { rows with counted := .empty }
  let graph ← rows.old.keys.foldlM Graph.remove rows.tx.graph
  .ok (rows.next, { rows.tx with graph })

end Rows

end mapper

end

end ottto_service.state_v2
