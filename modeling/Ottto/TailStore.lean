-- The Tail store (snapshots/state_v2/tail.rs): the rows of a file under one
-- write transaction, and the operations that write, replace, retire, move and
-- read them.
import Ottto.TailHead

namespace ottto_service.state_v2.tail

open Results
open durable_tail_codec.Durable (as_bytes)

/-! ## Rows -/

def FRAG_BYTES : Nat := 16 * 1024 * 1024

inductive Version where
  | INLINE
  | FRAGMENTED
  | ZSTD_INLINE
deriving DecidableEq, Repr

structure Row where
  version : Version
  value : Bytes

/-- What the store rests on: the digests of a file's key, the compression of a
value, and the digests of rows and values. Keys meet no collision. -/
structure Outside (File : Type) where
  Digest : Type
  digestEq : DecidableEq Digest
  frag_file : File → Digest
  frag_file_injective : Function.Injective frag_file
  set_aside_key : File → Digest
  set_aside_key_injective : Function.Injective set_aside_key
  compress : Bytes → Bytes
  decompress : Bytes → Option Bytes
  decompress_compress : ∀ bytes, decompress (compress bytes) = some bytes
  stored_digest : Version → Bytes → Bytes
  sha256 : Bytes → BitVec 256

instance {File : Type} (out : Outside File) : DecidableEq out.Digest := out.digestEq

/-- The key of a fragment behind its file: owner id, the owner's position, number. -/
abbrev FragKey := Nat ×ₗ Nat ×ₗ Nat

def fragKey (owner page number : Nat) : FragKey := toLex (owner, toLex (page, number))

/-- The `tail.*` rows of a transaction. -/
structure Tx {File : Type} (out : Outside File) where
  head : File → Option Row := fun _ => none
  page : File → Collection → SortedMap Nat Row := fun _ _ => .empty
  frag : out.Digest → SortedMap FragKey Row := fun _ => .empty
  set_aside : out.Digest → Option Row := fun _ => none

/-- A row of a file that holds one of its values. -/
inductive Place where
  | head
  | page (collection : Collection) (position : Nat)
deriving DecidableEq

namespace Place

def owner : Place → Nat
  | head => HEAD_OWNER
  | page collection _ => collection.owner

def position : Place → Nat
  | head => 0
  | page _ position => position

end Place

section

variable {File : Type} [DecidableEq File] {out : Outside File}

/-- A row's position is stored as an `i64`. -/
def admit_position (position : Nat) : Except Fault Unit :=
  ensure (decide (position < 2 ^ 63)) (.Message "state_v2_number_admission")

namespace Tx

variable (tx : Tx out) (file : File)

def row (place : Place) : Option Row :=
  match place with
  | .head => tx.head file
  | .page c position => (tx.page file c).get? position

def get (place : Place) : Except Fault (Option Row) := do
  let _ ← admit_position place.position
  .ok (tx.row file place)

def setPage (c : Collection) (rows : SortedMap Nat Row) : Tx out :=
  { tx with page := Function.update tx.page file (Function.update (tx.page file) c rows) }

def setFrag (rows : SortedMap FragKey Row) : Tx out :=
  { tx with frag := Function.update tx.frag (out.frag_file file) rows }

def put (place : Place) (row : Row) : Except Fault (Tx out) := do
  let _ ← admit_position place.position
  .ok (match place with
    | .head => { tx with head := Function.update tx.head file (some row) }
    | .page c position => tx.setPage file c ((tx.page file c).insert position row))

def delete (place : Place) : Except Fault (Tx out) := do
  let _ ← admit_position place.position
  .ok (match place with
    | .head => { tx with head := Function.update tx.head file none }
    | .page c position => tx.setPage file c ((tx.page file c).erase position))

end Tx

/-! ## Values -/

/-- The zstd frame, where that is shorter. -/
def encode (out : Outside File) (bytes : Bytes) : Bytes :=
  if bytes.length < 512 then bytes
  else if (out.compress bytes).length < bytes.length then out.compress bytes
  else bytes

/-- The row `put_inline` writes. -/
def inline (out : Outside File) (value : Bytes) : Row :=
  let stored := encode out value
  { version := if stored.length < value.length then .ZSTD_INLINE else .INLINE, value := stored }

def expand_frame (out : Outside File) (bytes : Bytes) (cap : Nat) : Except Fault Bytes := do
  let expanded ← context (out.decompress bytes) "state_v2_zstd"
  let _ ← ensure (decide (expanded.length ≤ cap)) (.Message "state_v2_value_admission")
  .ok expanded

def read_inline (out : Outside File) (row : Row) : Except Fault Bytes :=
  match row.version with
  | .INLINE => .ok row.value
  | .ZSTD_INLINE => expand_frame out row.value FRAG_BYTES
  | .FRAGMENTED => .error value_shape

/-- The fragments of a value; a short value has none. -/
def fragments (value : Bytes) : Nat :=
  if FRAG_BYTES < value.length then (value.length + FRAG_BYTES - 1) / FRAG_BYTES else 0

/-- `value.chunks(FRAG_BYTES)`, by number. -/
def chunk (value : Bytes) (number : Nat) : Bytes := (value.drop (number * FRAG_BYTES)).take FRAG_BYTES

def envelope (out : Outside File) (value : Bytes) : Bytes :=
  u64_bytes (UInt64.ofNat value.length) ++ u64_bytes (UInt64.ofNat (fragments value)) ++
    to_be_bytes 32 (out.sha256 value).toNat

/-- The row that stands for a value: itself, or the envelope of its fragments. -/
def stored (out : Outside File) (value : Bytes) : Row :=
  if fragments value = 0 then inline out value
  else { version := .FRAGMENTED, value := envelope out value }

namespace Tx

variable (tx : Tx out) (file : File)

def put_fragment (place : Place) (value : Bytes) (number : Nat) : Except Fault (Tx out) := do
  let _ ← admit_position number
  .ok (tx.setFrag file ((tx.frag (out.frag_file file)).insert
    (fragKey place.owner place.position number) (inline out (chunk value number))))

/-- Delete an owner's fragments numbered `start` and up. -/
def delete_fragments (place : Place) (start : Nat) : Tx out :=
  tx.setFrag file ((tx.frag (out.frag_file file)).retain
    (fun key _ => !((ofLex key).1 = place.owner ∧ (ofLex (ofLex key).2).1 = place.position ∧
      start ≤ (ofLex (ofLex key).2).2)))

/-- Store one logical value: inline, or as fragments behind a small row. -/
def write_value (place : Place) (value : Bytes) : Except Fault (Row × Tx out) := do
  let tx ← (List.range (fragments value)).foldlM (fun tx number =>
    tx.put_fragment file place value number) tx
  let tx := tx.delete_fragments file place (fragments value)
  let row := stored out value
  let tx ← tx.put file place row
  .ok (row, tx)

def read_fragments (place : Place) : List Nat → Except Fault Bytes
  | [] => .ok []
  | number :: rest => do
    let _ ← admit_position number
    let row ← context ((tx.frag (out.frag_file file)).get?
      (fragKey place.owner place.position number)) "state_v2_tail_membership"
    let bytes ← read_inline out row
    let more ← read_fragments place rest
    .ok (bytes ++ more)

def read_envelope : Reader (UInt64 × UInt64 × Bytes) := do
  let len ← Reader.u64
  let fragments ← Reader.u64
  let digest ← Reader.take 32
  pure (len, fragments, digest)

def read_value (place : Place) (row : Row) : Except Fault Bytes :=
  if row.version ≠ .FRAGMENTED then read_inline out row
  else do
    let ((len, fragments, digest), _) ← read_envelope row.value
    let value ← tx.read_fragments file place (List.range fragments.toNat)
    let _ ← ensure (decide (UInt64.ofNat value.length = len ∧
      to_be_bytes 32 (out.sha256 value).toNat = digest)) (.Message "state_v2_tail_membership")
    .ok value

/-- Every row of the file except its marker; with `keep_debt`, its revisions
and their fragments stay too. -/
def delete_rows (keep_debt : Bool) : Tx out :=
  { tx with
    head := Function.update tx.head file none
    page := Function.update tx.page file (fun c =>
      if keep_debt ∧ c = .Revisions then tx.page file c else .empty)
    frag := Function.update tx.frag (out.frag_file file)
      ((tx.frag (out.frag_file file)).retain
        (fun key _ => keep_debt ∧ (ofLex key).1 = Collection.Revisions.owner)) }

def clear_set_aside : Tx out :=
  { tx with set_aside := Function.update tx.set_aside (out.set_aside_key file) none }

/-! ## Heads and membership -/

def read_head : Except Fault (Option Decoded) :=
  match tx.head file with
  | none => .ok none
  | some row => do
    let bytes ← tx.read_value file .head row
    let head ← decode_head bytes
    .ok (some head)

end Tx

/-- A row's part of its membership. -/
def term (out : Outside File) (collection : Collection) (position : Nat) (row : Row) : BitVec 256 :=
  let kind := as_bytes collection.kind
  out.sha256 (to_be_bytes 8 kind.length ++ kind ++ to_be_bytes 8 position ++
    out.stored_digest row.version row.value)

def Membership.toggle (m : Membership) (t : BitVec 256) : Membership :=
  { m with commit := m.commit ^^^ t }

def member (table : MembershipTable) (c : Collection) : Except Fault Membership :=
  context (table.get? c) "state_v2_tail_membership"

def debt_member (table : MembershipTable) : Membership :=
  (table.get? .Revisions).getD ⟨⟨.Slot, 1, 0⟩, 0, 0⟩

inductive Change where
  | Ordinary
  | DropsPrivate
  | Reset
deriving DecidableEq, Repr

instance : LinearOrder Change := LinearOrder.lift' (fun c => c.ctorIdx)
  (by intro a b h; cases a <;> cases b <;> first | rfl | exact absurd h (by decide))

/-- One file's staged state: its complete new head and only its changed pages. -/
structure StagedFile where
  revision : UInt32
  head : Bytes
  collections : SortedMap Collection CollectionMeta
  pages : SortedMap (Collection ×ₗ Nat) Bytes
  obsolete : SortedMap (Collection ×ₗ Nat) Unit
  change : Change

/-- The collections a stage names. -/
def StagedFile.names (s : StagedFile) : List Collection :=
  s.collections.keys ++ s.pages.keys.map (fun k => (ofLex k).1) ++
    s.obsolete.keys.map (fun k => (ofLex k).1)

structure Observation where
  representation : Representation := .Tail
  summary : DebtSummary := {}
  added : List Bytes := []
  replaced : SortedMap Nat Bytes := .empty
  resolved : SortedMap Nat Unit := .empty
  inventory : Option InventoryFacts := none

/-- A write in progress: the rows, and the table that will describe them. -/
structure Work (out : Outside File) where
  tx : Tx out
  table : MembershipTable

namespace Work

variable (w : Work out) (file : File)

/-- A committed revision is overwritten in place; an unknown id fails the file. -/
def replace_revision (id : Nat) (value : Bytes) : Except Fault (Work out) := do
  let entry := debt_member w.table
  let found ← w.tx.get file (.page .Revisions id)
  let old ← context found "state_v2_tail_membership"
  let entry := entry.toggle (term out .Revisions id old)
  let (written, tx) ← w.tx.write_value file (.page .Revisions id) value
  .ok { tx, table := w.table.insert .Revisions (entry.toggle (term out .Revisions id written)) }

def resolve_revision (id : Nat) : Except Fault (Work out) := do
  let entry := debt_member w.table
  let found ← w.tx.get file (.page .Revisions id)
  let old ← context found "state_v2_tail_membership"
  let entry := entry.toggle (term out .Revisions id old)
  let tx ← w.tx.delete file (.page .Revisions id)
  .ok { tx := tx.delete_fragments file (.page .Revisions id) 0
        table := w.table.insert .Revisions { entry with pages := entry.pages - 1 } }

def add_revision (id : Nat) (value : Bytes) : Except Fault (Work out) := do
  let entry := debt_member w.table
  let (written, tx) ← w.tx.write_value file (.page .Revisions id) value
  let entry := entry.toggle (term out .Revisions id written)
  .ok { tx, table := w.table.insert .Revisions { entry with pages := entry.pages + 1 } }

/-- New revisions take the ids from `next` on, in order. -/
def add_revisions : UInt64 → List Bytes → Work out → Except Fault (UInt64 × List Nat × Work out)
  | next, [], w => .ok (next, [], w)
  | next, value :: values, w => do
    let w ← w.add_revision file next.toNat value
    let (last, ids, w) ← add_revisions (next + 1) values w
    .ok (last, next.toNat :: ids, w)

/-- Debt-only changes, with the ids that were given. -/
def observe (common : Common) (o : Observation) : Except Fault (List Nat × Common × Work out) := do
  let w := { w with table := w.table.insert .Revisions (debt_member w.table) }
  let w ← o.replaced.entries.foldlM (fun w e => w.replace_revision file e.1 e.2) w
  let w ← o.resolved.entries.foldlM (fun w e => w.resolve_revision file e.1) w
  let (next, ids, w) ← add_revisions file common.next_revision_id o.added w
  let entry := debt_member w.table
  let entry := { entry with «meta» := { entry.«meta» with elements := entry.pages } }
  .ok (ids, ⟨o.representation, o.summary, next, o.inventory.or common.inventory⟩,
    { w with table := w.table.insert .Revisions entry })

def set_meta (c : Collection) (found : CollectionMeta) : Work out :=
  let entry := (w.table.get? c).getD ⟨found, 0, 0⟩
  { w with table := w.table.insert c ⟨found, entry.pages, entry.commit⟩ }

def drop_page (c : Collection) (position : Nat) : Except Fault (Work out) := do
  let found ← w.tx.get file (.page c position)
  match found with
  | none => .ok w
  | some old => do
    let entry ← member w.table c
    let entry := entry.toggle (term out c position old)
    let tx ← w.tx.delete file (.page c position)
    .ok { tx := tx.delete_fragments file (.page c position) 0
          table := w.table.insert c { entry with pages := entry.pages - 1 } }

def write_page (c : Collection) (position : Nat) (value : Bytes) : Except Fault (Work out) := do
  let entry ← member w.table c
  let found ← w.tx.get file (.page c position)
  let entry := match found with
    | some old => entry.toggle (term out c position old)
    | none => { entry with pages := entry.pages + 1 }
  let (written, tx) ← w.tx.write_value file (.page c position) value
  .ok { tx, table := w.table.insert c (entry.toggle (term out c position written)) }

/-- The collections, then the obsolete pages, then the changed ones. -/
def apply_stage (s : StagedFile) : Except Fault (Work out) := do
  let _ ← ensure (!s.names.contains .Revisions) (.Message "state_v2_tail_membership")
  let w := s.collections.entries.foldl (fun w e => w.set_meta e.1 e.2) w
  let w ← s.obsolete.entries.foldlM (fun w e => w.drop_page file (ofLex e.1).1 (ofLex e.1).2) w
  s.pages.entries.foldlM (fun w e => w.write_page file (ofLex e.1).1 (ofLex e.1).2 e.2) w

end Work

namespace Tx

variable (tx : Tx out) (file : File)

/-- A revision row counted: the debt's entry with it, and the allocator above it. -/
def count_revision (out : Outside File) (state : MembershipTable × UInt64) (e : Nat × Row) :
    MembershipTable × UInt64 :=
  let entry := debt_member state.1
  let pages := entry.pages + 1
  (state.1.insert .Revisions ⟨⟨entry.«meta».shape, entry.«meta».elements_per_page, pages⟩, pages,
    entry.commit ^^^ term out .Revisions e.1 e.2⟩, max state.2 (UInt64.ofNat e.1 + 1))

/-- The file's debt alone, its membership rebuilt from revision row headers. -/
def committed_debt : Except Fault (UInt32 × MembershipTable × Common) := do
  let prior ← tx.read_head file
  let head := prior.getD {}
  let (table, next) := (tx.page file .Revisions).entries.foldl (count_revision out)
    (.empty, head.common.next_revision_id)
  .ok (head.revision, table, { head.common with next_revision_id := next })

end Tx

/-- A head being rewritten, with the rows under it. -/
structure Draft (out : Outside File) where
  revision : UInt32
  common : Common
  reduction : Option Bytes
  work : Work out

/-- A reset replaces acquisition state only: committed debt stays and merges. -/
def Tx.draft (tx : Tx out) (file : File) (reset : Bool) : Except Fault (Draft out) :=
  if reset then do
    let (revision, table, common) ← tx.committed_debt file
    .ok ⟨revision, common, none, tx.delete_rows file true, table⟩
  else do
    let head ← tx.read_head file
    let head := head.getD {}
    .ok ⟨head.revision, head.common, head.reduction, tx, head.table⟩

namespace Draft

variable (d : Draft out) (file : File)

def stage (s : StagedFile) : Except Fault (Draft out) := do
  let work ← d.work.apply_stage file s
  .ok ⟨s.revision, { d.common with representation := .Tail }, some s.head, work⟩

def observe (o : Observation) : Except Fault (List Nat × Draft out) := do
  let (ids, common, work) ← d.work.observe file d.common o
  .ok (ids, { d with common, work })

/-- No longer a Tail file: the reduction and its pages go, the debt stays. -/
def settle : Draft out :=
  if d.common.representation ≠ .Tail ∧ d.reduction.isSome then
    { d with reduction := none
             work := ⟨d.work.tx.delete_rows file true,
               d.work.table.filterKeys (fun c => c = .Revisions)⟩ }
  else d

/-- A head with no reduction, debt or inventory goes. Only a reduction
replacement clears the set-aside marker. -/
def write (staged : Bool) : Except Fault (Tx out) := do
  let tx := if staged ∧ d.reduction.isSome then d.work.tx.clear_set_aside file else d.work.tx
  let table := if (d.work.table.get? .Revisions).any (fun m => m.pages == 0)
    then d.work.table.erase .Revisions else d.work.table
  if d.reduction.isNone ∧ (table.get? .Revisions).isNone ∧ d.common.inventory.isNone then
    .ok (tx.delete_rows file false)
  else do
    let head ← encode_head d.revision table d.common d.reduction
    let (_, tx) ← tx.write_value file .head head
    .ok tx

end Draft

namespace Tx

variable (tx : Tx out) (file : File)

/-- Replace one file's reduction and apply its debt changes. The ids given to
new revisions come back. -/
def write_file (staged : Option StagedFile) (debt : Option Observation) :
    Except Fault (List Nat × Tx out) := do
  let d ← tx.draft file (staged.any (fun s => s.change == .Reset))
  let d ← (match staged with
    | some s => d.stage file s
    | none => .ok d)
  let (ids, d) ← (match debt with
    | some o => d.observe file o
    | none => .ok ([], d))
  let tx ← (d.settle file).write file staged.isSome
  .ok (ids, tx)

/-- Retirement: the reduction goes; unresolved revisions stay under one
metadata-only head. `true`: debt kept. -/
def retire : Except Fault (Bool × Tx out) := do
  let (revision, table, common) ← tx.committed_debt file
  let keep := !table.isEmpty
  let tx := tx.delete_rows file keep
  if keep then do
    let head ← encode_head revision table common none
    let (_, tx) ← tx.write_value file .head head
    .ok (keep, tx)
  else .ok (keep, tx)

/-- Scope erasure: debt goes too, and the marker with it. -/
def erase : Tx out := (tx.delete_rows file false).clear_set_aside file

structure PathCarry (File : Type) where
  source : File
  head : Bytes
  inventory : InventoryFacts

def carry_conflict : Fault := .Message "state_v2_tail_carry_conflict"

/-- The pages and fragments under the keys of another file. -/
def rekey (source target : File) : Tx out :=
  { tx with
    page := Function.update (Function.update tx.page target (fun c =>
      (tx.page target c).extend (tx.page source c))) source (fun _ => .empty)
    frag := Function.update (Function.update tx.frag (out.frag_file target)
      ((tx.frag (out.frag_file target)).extend (tx.frag (out.frag_file source))))
      (out.frag_file source) .empty }

def move_set_aside (source target : File) : Except Fault (Tx out) :=
  match tx.set_aside (out.set_aside_key source) with
  | none => .ok tx
  | some marker => do
    let _ ← ensure (tx.set_aside (out.set_aside_key target)).isNone carry_conflict
    .ok { tx with set_aside := Function.update (Function.update tx.set_aside
      (out.set_aside_key target) (some marker)) (out.set_aside_key source) none }

/-- Every row keeps its bytes under the new file's keys, which must be free. -/
def move_tail (target : File) (carry : PathCarry File) : Except Fault (Tx out) := do
  let source := carry.source
  let head ← context (← tx.read_head source) "state_v2_tail_carry_missing"
  let _ ← ensure (tx.head target).isNone carry_conflict
  let _ ← ensure (Collection.ALL.all (fun c => (tx.page source c).keys.all (fun position =>
    ((tx.page target c).get? position).isNone))) carry_conflict
  let _ ← ensure ((tx.frag (out.frag_file source)).keys.all (fun key =>
    ((tx.frag (out.frag_file target)).get? key).isNone)) carry_conflict
  let moved ← (tx.rekey source target).move_set_aside source target
  let value ← encode_head head.revision head.table
    { head.common with inventory := some carry.inventory } (head.reduction.map (fun _ => carry.head))
  let (_, moved) ← moved.write_value target .head value
  moved.delete source .head

/-! ## Loading -/

structure TailHead where
  revision : UInt32
  table : MembershipTable
  body : Bytes
  common : Common
  metadata_only : Bool
  generation : Nat

def load_head (revision : UInt32) (generation : Nat) : Except Fault (Option TailHead) := do
  match ← tx.read_head file with
  | none => .ok none
  | some head => do
    let _ ← ensure (decide (head.revision ≤ revision)) .Future
    .ok (some ⟨head.revision, head.table, head.reduction.getD [], head.common,
      head.reduction.isNone, generation⟩)

/-- The rows of a collection as they are visited, checked against its membership. -/
def stream_collection (head : TailHead) (c : Collection) :
    Except Fault (List (Collection × Nat × Bytes)) := do
  let rows := (tx.page file c).entries
  let visited ← rows.mapM (fun e => do
    let bytes ← tx.read_value file (.page c e.1) e.2
    .ok (c, e.1, bytes))
  let pages := UInt64.ofNat rows.length
  let commit := rows.foldl (fun commit e => commit ^^^ term out c e.1 e.2) 0
  let expected := head.table.get? c
  let _ ← ensure (decide (pages = (expected.map Membership.pages).getD 0 ∧
    commit = (expected.map Membership.commit).getD 0)) (.Message "state_v2_tail_membership")
  .ok visited

def stream (head : TailHead) (generation : Nat) (collections : List Collection) :
    Except Fault (List (Collection × Nat × Bytes)) := do
  let _ ← ensure (decide (head.generation = generation)) .ReloadRequired
  let visited ← collections.mapM (tx.stream_collection file head)
  .ok visited.flatten

def load_pages (head : TailHead) (generation : Nat) :
    Except Fault (List (Collection × Nat × Bytes)) := do
  let _ ← ensure (!head.metadata_only) (.Message "state_v2_tail_metadata_only")
  tx.stream file head generation (Collection.ALL.filter (fun c => c ≠ .Revisions))

def load_revisions (head : TailHead) (generation : Nat) : Except Fault (List (Nat × Bytes)) := do
  let visited ← tx.stream file head generation [.Revisions]
  .ok (visited.map Prod.snd)

end Tx

end

end ottto_service.state_v2.tail
