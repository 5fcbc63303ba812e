-- One save (snapshots/state_v2/kinds.rs, tail.rs): the rows of the next graph are
-- enumerated, each staged file is applied in a boundary of its own, and what the
-- enumeration left of the old inventory goes.
import Ottto.GraphRows

namespace ottto_service.state_v2

open serde_json Results
open tail (Bytes Fault TailStage StagedFile Observation)

/-! ## Set-aside files -/

structure SetAside where
  cause : tail.SetAsideCause
  attempts : UInt32
  first_seen_unix_seconds : UInt64

/-- How a file's boundary ends where its body comes through: released, rolled
back by an error of the file's own, or given up with the save. -/
inductive Boundary where
  | Released
  | RolledBack
  | Systemic

/-- What a save does not decide itself: how the boundaries end, the time, and
the JSON of a set-aside marker. -/
structure Surroundings where
  boundary : Bytes → Boundary
  retiring : Bytes → Boundary
  now : UInt64
  to_vec : SetAside → Bytes
  from_slice : Bytes → Option SetAside

section

variable {codec : RowCodec} {inv : Inventory codec} {out : tail.Outside Bytes}

/-- `saturating_add(1)`. -/
def saturating_succ (n : UInt32) : UInt32 := if n + 1 = 0 then n else n + 1

/-- Only `attempts` changes; there is no next-try time and no parking threshold. -/
def mark_set_aside (w : Surroundings) (tx : tail.Tx out) (file : Bytes)
    (cause : tail.SetAsideCause) : Except Fault (tail.Tx out) := do
  let marker ← (match tx.set_aside (out.set_aside_key file) with
    | some row => do
      let bytes ← tail.read_inline out row
      let marker ← tail.context (w.from_slice bytes) "state_v2_set_aside"
      .ok { marker with attempts := saturating_succ marker.attempts }
    | none => .ok ⟨cause, 1, w.now⟩)
  let row := tail.inline out (w.to_vec marker)
  .ok { tx with set_aside := Function.update tx.set_aside (out.set_aside_key file) (some row) }

/-- A systemic failure abandons the save; `none`: the boundary rolled back. -/
def isolated {α : Type} (boundary : Boundary) (body : Except Fault α) :
    Except Fault (Option α) :=
  match boundary with
  | .Released => .ok body.toOption
  | .RolledBack => .ok none
  | .Systemic => .error (.Message "state_v2_transaction_refused")

/-! ## The staged files -/

namespace tail

open mapper

/-- A removed `file.progress` member: its Tail rows retire in the same commit. -/
def removed_files (old : SortedMap RowKey inv.Digest) : List Bytes :=
  old.keys.filterMap (fun key =>
    match key with
    | .Record kind key_bytes position =>
      if position = 1 ∧ kind = "file.progress" then some key_bytes else none
    | _ => none)

def write_closure (graph : Graph codec) (closure : List (ClosureRow inv)) :
    Except Fault (Graph codec) :=
  closure.foldlM (fun graph row =>
    match row.value with
    | some value => graph.put row.key value
    | none => graph.remove row.key) graph

/-- Its stage is stale, so its graph rows write as an unstaged file's do. -/
def unstage_removed (rows : Rows inv out) (file : Bytes) : Except Fault (Rows inv out) := do
  let (closure, rows) := rows.take_closure file
  let graph ← write_closure rows.tx.graph closure
  .ok { rows with tx := { rows.tx with graph } }

/-- The file's closure boundary: its graph rows, then its Tail rows. `true`:
the boundary held. -/
def apply_boundary (w : Surroundings) (rows : Rows inv out) (file : Bytes)
    (staged : Option StagedFile) (debt : Option Observation) : Except Fault (Bool × Rows inv out) := do
  let (closure, rows) := if staged.isSome then rows.take_closure file else ([], rows)
  let result ← isolated (w.boundary file) (do
    let graph ← write_closure rows.tx.graph closure
    let (_, tail) ← rows.tx.tail.write_file file staged debt
    .ok { graph, tail })
  match result with
  | some tx => .ok (true, { rows with tx })
  | none => .ok (false, rows.revert closure)

/-- One staged file, alone. With it, the files whose graph rows rolled back. -/
def apply_file (w : Surroundings) (stage : TailStage Bytes) (removed : List Bytes)
    (state : Rows inv out × List Bytes) (file : Bytes) : Except Fault (Rows inv out × List Bytes) := do
  let (rows, rolled_back) := state
  let debt := stage.debt.get? file
  -- retirement wins: this save removes the file's progress row
  let stale := (stage.staged file).isSome && removed.contains file
  let rows ← (if stale then unstage_removed rows file else .ok rows)
  let staged := if stale then none else stage.staged file
  let (held, rows) ← (if staged.isSome || debt.isSome then apply_boundary w rows file staged debt
    else .ok (true, rows))
  let failed := if held then
      match stage.files.get? file with
      | some (.Failed cause) => some cause
      | _ => none
    else some .Row
  let tail ← (match failed with
    | some cause => mark_set_aside w rows.tx.tail file cause
    | none => .ok rows.tx.tail)
  .ok ({ rows with tx := { rows.tx with tail } },
    if !held && staged.isSome then rolled_back ++ [file] else rolled_back)

/-- A head this build cannot read is set aside, never retired. -/
def retire_file (w : Surroundings) (tx : Tx out) (file : Bytes) : Except Fault (Tx out) := do
  let result ← isolated (w.retiring file) (tx.retire file)
  match result with
  | none => mark_set_aside w tx file .Row
  | some (kept, tx) => .ok (if kept then tx else tx.clear_set_aside file)

/-- Every staged file, each alone, with its own graph rows and its debt changes:
a failure rolls back only that file and sets it aside. The files whose graph
rows rolled back come back. -/
def apply (w : Surroundings) (rows : Rows inv out) (stage : TailStage Bytes) (removed : List Bytes) :
    Except Fault (Rows inv out × List Bytes) := do
  let keys := ((stage.files.mapValues (fun _ => ())).extend
    (stage.debt.mapValues (fun _ => ()))).keys
  let (rows, rolled_back) ← keys.foldlM (apply_file w stage removed) (rows, [])
  let tail ← (removed ++ stage.retire.keys).foldlM (retire_file w) rows.tx.tail
  -- scope erasure is not a reset: debt goes too, and nothing vetoes it
  let tail := stage.erase.keys.foldl Tx.erase tail
  .ok ({ rows with tx := { rows.tx with tail } }, rolled_back)

end tail

/-! ## The save -/

/-- What the next graph is enumerated as. -/
inductive Enumerated where
  | put (key : RowKey) (value : Value)
  | put_digest (key : RowKey) (value : Value)
  | raw (key : RowKey) (value : Bytes)

namespace mapper

def Rows.enumerate (rows : Rows inv out) : Enumerated → Except Fault (Rows inv out)
  | .put key value => rows.put key value
  | .put_digest key value => rows.put_digest key value (inv.json value)
  | .raw key value => rows.raw key value

end mapper

namespace kinds

open mapper

/-- The closures that wait: one for each staged file. -/
def closures (inv : Inventory codec) (stage : TailStage Bytes) :
    SortedMap Bytes (List (ClosureRow inv)) :=
  stage.files.filterMap (fun _ entry =>
    match entry with
    | .File _ => some []
    | .Failed _ => none)

/-- The new inventory, the rows, and the files whose graph rows rolled back. -/
def delta (w : Surroundings) (previous : SortedMap RowKey inv.Digest) (next : List Enumerated)
    (tx : Transaction codec out) (stage : TailStage Bytes) :
    Except Fault (SortedMap RowKey inv.Digest × Transaction codec out × List Bytes) := do
  let rows : Rows inv out := { tx, old := previous, closures := closures inv stage }
  let rows ← next.foldlM Rows.enumerate rows
  let retired := tail.removed_files rows.old
  let (rows, rolled_back) ← tail.apply w rows stage retired
  let (digests, tx) ← rows.finish
  .ok (digests, tx, rolled_back)

end kinds

end

end ottto_service.state_v2
