-- The Tail store row by row (snapshots/state_v2/tail.rs): the keys of its rows, and the
-- loops that scan them by pages while they write, read and delete.
import Ottto.Paging
import Ottto.Sha256
import Ottto.TailContent

namespace ottto_service.state_v2.tail

open Results
open durable_tail_codec.Durable (as_bytes)

def HEADER_PAGE : Nat := 128
def HEAD : String := "tail.head"
def FRAG : String := "tail.frag"
def REVISION : String := "tail.revision"
def SET_ASIDE : String := "tail.set_aside"

/-! ## Keys -/

/-- `RowKey::Record`. The store has a position as an `i64`. -/
structure RecordKey where
  kind : String
  key_bytes : Bytes
  position : Nat
  fits : position < 2 ^ 63
deriving DecidableEq

/-- The first position of a key. -/
theorem zero_fits : 0 < 2 ^ 63 := by decide

namespace RecordKey

/-- `ORDER BY kind, key_bytes, position`: blobs compare byte by byte. -/
def columns (k : RecordKey) : String ×ₗ List Nat ×ₗ Nat :=
  toLex (k.kind, toLex (k.key_bytes.map UInt8.toNat, k.position))

theorem columns_injective : Function.Injective columns := by
  intro a b h
  obtain ⟨hkind, h⟩ := Prod.mk.inj (toLex.injective h)
  obtain ⟨hbytes, hposition⟩ := Prod.mk.inj (toLex.injective h)
  have hbytes := List.map_injective_iff.mpr (fun _ _ h => UInt8.toNat_inj.mp h) hbytes
  cases a
  cases b
  simp_all

instance : LinearOrder RecordKey := LinearOrder.lift' columns columns_injective

/-- `RowKey::record`, and the conversion of its position. -/
def record (kind : String) (key : Bytes) (position : Nat) : Except Fault RecordKey :=
  if fits : position < 2 ^ 63 then .ok ⟨kind, key, position, fits⟩
  else .error (.Message "state_v2_number_admission")

/-- The rows that `scan_record_key` reads. -/
def of_record_key (kind : String) (key_bytes : Bytes) (after : Option Nat) (k : RecordKey) : Bool :=
  decide (k.kind = kind) && decide (k.key_bytes = key_bytes) &&
    after.all (fun position => decide (position < k.position))

end RecordKey

def file_digest (domain : String) (file : Bytes) : Bytes := Sha256.digest (as_bytes domain ++ file)

/-- The file's part of a fragment's key. -/
def frag_file (file : Bytes) : Bytes :=
  file_digest "ottto.scan-index.state-v2.tail-frag.v1\x00" file

/-- One value's fragment key: file digest, owner id, the owner's position. -/
def frag_key (file : Bytes) (owner page : Nat) : Bytes :=
  frag_file file ++ to_be_bytes 8 owner ++ to_be_bytes 8 page

def Place.kind : Place → String
  | head => HEAD
  | page collection _ => collection.kind

/-- The key of the row that holds a place's value. -/
def Place.key (file : Bytes) (place : Place) : Except Fault RecordKey :=
  RecordKey.record place.kind file place.position

def Place.frag_key (file : Bytes) (place : Place) : Bytes :=
  tail.frag_key file place.owner place.position

/-! ## Rows -/

/-- The rows of the `records` table. -/
abbrev Records := SortedMap RecordKey Row

namespace Records

variable (out : Outside Bytes) (rows : Records) (file : Bytes)

/-- `for part in value.chunks(FRAG_BYTES)` -/
def put_fragment (place : Place) (value : Bytes) (number : Nat) : Except Fault Records := do
  let key ← RecordKey.record FRAG (place.frag_key file) number
  .ok (rows.insert key (inline out (chunk value number)))

/-- Delete an owner's fragments numbered `start` and up. -/
def delete_fragments (place : Place) (start : Nat) : Records :=
  let checked_sub := if start = 0 then none else some (start - 1)
  paging.drain HEADER_PAGE (RecordKey.of_record_key FRAG (place.frag_key file) checked_sub) rows

/-- Store one logical value: inline, or as fragments behind a small row. -/
def write_value (place : Place) (value : Bytes) : Except Fault Records := do
  let rows ← (List.range (fragments value)).foldlM
    (fun rows number => put_fragment out rows file place value number) rows
  let rows := rows.delete_fragments file place (fragments value)
  let key ← place.key file
  .ok (rows.insert key (stored out value))

def read_fragments (place : Place) : List Nat → Except Fault Bytes
  | [] => .ok []
  | number :: rest => do
    let key ← RecordKey.record FRAG (place.frag_key file) number
    let row ← context (rows.get? key) "state_v2_tail_membership"
    let bytes ← read_inline out row
    let more ← read_fragments place rest
    .ok (bytes ++ more)

def read_value (place : Place) (row : Row) : Except Fault Bytes :=
  if row.version ≠ .FRAGMENTED then read_inline out row
  else do
    let ((len, fragments, digest), _) ← Tx.read_envelope row.value
    let value ← read_fragments out rows file place (List.range fragments.toNat)
    let _ ← ensure (decide (UInt64.ofNat value.length = len ∧
      to_be_bytes 32 (out.sha256 value).toNat = digest)) (.Message "state_v2_tail_membership")
    .ok value

/-- The kinds that are deleted under the file's own key. -/
def purged_kinds (keep_debt : Bool) : List String :=
  TAIL_KINDS.filter (fun k =>
    !(decide (k = SET_ASIDE) || decide (k = FRAG) || (keep_debt && decide (k = REVISION))))

/-- Every row of the file except its marker; with `keep_debt`, its revisions and
their fragments stay too. -/
def delete_rows (keep_debt : Bool) : Records :=
  let rows := (purged_kinds keep_debt).foldl (fun rows kind =>
    paging.drain HEADER_PAGE (RecordKey.of_record_key kind file none) rows) rows
  let digest := frag_file file
  let debt := digest ++ to_be_bytes 8 Collection.Revisions.owner
  -- The bare digest sorts before every fragment key that starts with it. Owners
  -- sort on both sides of the kept revisions, so the walk passes over them.
  let after : RecordKey := ⟨FRAG, digest, 0, zero_fits⟩
  paging.sweep HEADER_PAGE (fun k => decide (k.kind = FRAG)) (fun k => digest.isPrefixOf k.key_bytes)
    (fun k => !(keep_debt && debt.isPrefixOf k.key_bytes)) after rows

/-- Writes of values, each to a place of a file. -/
def write_values : List (Bytes × Place × Bytes) → Records → Except Fault Records
  | [], rows => .ok rows
  | (file, place, value) :: writes, rows => do
    let rows ← write_value out rows file place value
    write_values writes rows

end Records

end ottto_service.state_v2.tail
