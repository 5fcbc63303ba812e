-- The log of start verdicts (snapshots/start_verdict_store.rs): one row for each change of a
-- session's verdict, written by one daemon and read as a whole by short-lived readers.
import Ottto.JsonInt
import Ottto.CodexRecord

namespace ottto_service.start_verdict_store

open serde_json canonical_json accumulator
open claude_request_identity.accepted (of_i64)

/-- The log's bytes. -/
abbrev Bytes : Type := List UInt8

def MAX_BYTES : Nat := 8 * 1024 * 1024

def MAX_SESSIONS : Nat := 50000

def KEEP_SECONDS : Int := 92 * 86400

structure Entry where
  key : String
  measured : Bool
  at_seconds : Int64

inductive StartVerdict
  | Measured
  | NotMeasured
deriving DecidableEq

structure Verdicts where
  entries : SortedMap String Entry := .empty
  destination : String := ""

def key (destination source id : String) : String :=
  let source := if source = "claude-code" then "claude_code" else source
  snapshots.hex_lower (Sha256.digest (destination.toUTF8.toList ++ [0] ++ source.toUTF8.toList ++ [0] ++
    id.toUTF8.toList))

/-- An entry still counts at a time. -/
def Entry.visible (entry : Entry) (now : Int64) : Bool :=
  decide (now.toInt - KEEP_SECONDS ≤ entry.at_seconds.toInt ∧ entry.at_seconds.toInt ≤ now.toInt)

namespace Verdicts

def lookup (self : Verdicts) (source id : String) (now : Int64) : Option StartVerdict :=
  ((self.entries.get? (key self.destination source id)).filter (fun entry => entry.visible now)).map
    (fun entry => if entry.measured then .Measured else .NotMeasured)

end Verdicts

/-! ## The rows -/

def members (entry : Entry) : List (String × Value) :=
  [("key", .string entry.key), ("measured", .bool entry.measured), ("at", of_i64 entry.at_seconds)]

/-- `serde_json::to_vec` of an entry. -/
def to_vec (entry : Entry) : Bytes :=
  utf8 ('\x7b' :: joined (plainMembers (members entry)) ++ ['\x7d'])

def row (entry : Entry) : Bytes := to_vec entry ++ [10]

def valid_key (key : String) : Bool :=
  decide (key.length = 64) && key.toList.all is_ascii_hexdigit

/-- `serde_json::from_str` at `Entry`. -/
structure EntryReader where
  from_str : Bytes → Except String Entry
  reads_back : ∀ entry, valid_key entry.key = true → from_str (to_vec entry) = .ok entry

/-- `BufRead::lines`: a line feed ends a line, and what follows the last one is a line where it
is not empty. -/
def lines (bytes : Bytes) : List Bytes :=
  let parts := bytes.splitOn 10
  parts.dropLast.map (fun line => if line.getLast? = some 13 then line.dropLast else line) ++
    (parts.getLast?.filter (fun line => line ≠ [])).toList

variable (reader : EntryReader)

def read_line (out : SortedMap String Entry) (line : Bytes) : Except String (SortedMap String Entry) := do
  let entry ← reader.from_str line
  if !valid_key entry.key then throw "invalid verdict key"
  let out := out.insert entry.key entry
  if MAX_SESSIONS < out.size then throw "verdict session cap exceeded"
  return out

/-- A log that is absent reads as one without rows. -/
def read (log : Bytes) : Except String (SortedMap String Entry) :=
  if MAX_BYTES < log.length then throw "verdict log oversized"
  else (lines log).foldlM (read_line reader) .empty

def load (log : Bytes) (destination : String) : Verdicts where
  entries := (read reader log).toOption.getD .empty
  destination

/-! ## The writer -/

structure Cached where
  day : Int
  verdicts : SortedMap String Entry
  bytes : Nat

/-- The log beside the writer's cache of it. -/
structure Store where
  log : Bytes
  cache : Cached

/-- Where a call stopped. -/
inductive RecordError
  | compact
  | open_log
  | write_all
  | sync

/-- The oldest go, until half the cap is left. -/
def evict_oldest (verdicts : SortedMap String Entry) : SortedMap String Entry :=
  let oldest := (verdicts.values.map (fun e => toLex (e.at_seconds.toInt, e.key))).insertionSort
    (fun a b => a ≤ b)
  (oldest.take (verdicts.size - MAX_SESSIONS / 2)).foldl
    (fun verdicts e => verdicts.erase (ofLex e).2) verdicts

def rows (verdicts : SortedMap String Entry) : Bytes := verdicts.values.flatMap row

/-- The log that a compaction puts in place by its rename. -/
def Store.compacted (s : Store) : Store where
  log := rows s.cache.verdicts
  cache := { s.cache with bytes := (rows s.cache.verdicts).length }

/-- A compaction that fails before its rename leaves the log as it is. -/
def Store.compact (s : Store) (fails : Bool) : Store × Bool :=
  if fails then (s, false) else (s.compacted, true)

def Cached.full (cache : Cached) : Bool :=
  decide (MAX_BYTES - 64 * 1024 ≤ cache.bytes) || decide (MAX_SESSIONS ≤ cache.verdicts.size)

def day_of (now : Int64) : Int := now.toInt.tdiv 86400

namespace Store

def with_verdicts (s : Store) (verdicts : SortedMap String Entry) : Store :=
  { s with cache := { s.cache with verdicts } }

/-- The verdicts that pruning leaves. -/
def pruned (s : Store) (now : Int64) : SortedMap String Entry :=
  let retained := s.cache.verdicts.retain (fun _ e => e.visible now)
  if s.cache.full ∧ MAX_SESSIONS / 2 < retained.size then evict_oldest retained else retained

/-- The check for pruning is due. -/
def due (s : Store) (now : Int64) : Bool := decide (s.cache.day ≠ day_of now) || s.cache.full

/-- Pruning is followed by a compaction. -/
def compacts (s : Store) (now : Int64) : Bool :=
  s.due now && (s.cache.full || decide ((s.pruned now).size ≠ s.cache.verdicts.size))

def prune (s : Store) (now : Int64) (fails : Bool) : Store × Bool :=
  if s.due now then
    let after := (s.with_verdicts (s.pruned now)).compact fails
    if s.compacts now then
      if after.2 then ({ after.1 with cache := { after.1.cache with day := day_of now } }, true) else after
    else ({ s with cache := { s.cache with verdicts := s.pruned now, day := day_of now } }, true)
  else (s, true)

end Store

/-- A final wire item, as far as its verdict goes. -/
structure Item where
  source_session_id : String
  verdict : StartVerdict

/-- What fails around one item. A torn append writes its first bytes only. -/
structure ItemFaults where
  sync : Bool := false
  compaction : Bool := false
  opening : Bool := false
  torn : Option Nat := none

structure Call where
  destination : String
  source : String
  items : List (Item × ItemFaults)
  now : Int64
  /-- The log cannot be read, in the call that reads it. -/
  unreadable : Bool := false
  compaction : Bool := false
  sync : Bool := false

section Items

variable (call : Call)

def Call.key (item : Item) : String := start_verdict_store.key call.destination call.source item.source_session_id

def Call.entry (item : Item) : Entry where
  key := call.key item
  measured := decide (item.verdict = .Measured)
  at_seconds := call.now

namespace Store

/-- The cache has the item's verdict already. -/
def unchanged (s : Store) (item : Item) : Bool :=
  (s.cache.verdicts.get? (call.key item)).any (fun e => e.measured == decide (item.verdict = .Measured))

def new_at_cap (s : Store) (item : Item) : Bool :=
  !s.cache.verdicts.contains (call.key item) && decide (MAX_SESSIONS ≤ s.cache.verdicts.size)

/-- The batch compacts before the item's row. -/
def makes_room (s : Store) (item : Item) : Bool :=
  decide (MAX_BYTES < s.cache.bytes + (row (call.entry item)).length) || s.new_at_cap call item

def make_room (s : Store) (item : Item) (faults : ItemFaults) : Store × Except RecordError Unit :=
  if s.makes_room call item then
    if faults.sync then (s, .error .sync)
    else
      let s := if s.new_at_cap call item then s.with_verdicts (evict_oldest s.cache.verdicts) else s
      let after := s.compact faults.compaction
      (after.1, if after.2 then .ok () else .error .compact)
  else (s, .ok ())

def append (s : Store) (item : Item) (faults : ItemFaults) : Store × Except RecordError Nat :=
  let row := row (call.entry item)
  if faults.opening then (s, .error .open_log)
  else
    match faults.torn with
    | some written =>
      -- A partial append must be compacted before another write.
      ({ log := s.log ++ row.take written, cache := { s.cache with bytes := MAX_BYTES } },
        .error .write_all)
    | none =>
      ({ log := s.log ++ row
         cache := { s.cache with
           bytes := s.cache.bytes + row.length
           verdicts := s.cache.verdicts.insert (call.key item) (call.entry item) } },
        .ok row.length)

def record_item (s : Store) (item : Item) (faults : ItemFaults) : Store × Except RecordError Nat :=
  if s.unchanged call item then (s, .ok 0)
  else
    match s.make_room call item faults with
    | (s, .error error) => (s, .error error)
    | (s, .ok ()) => s.append call item faults

def record_items (s : Store) : List (Item × ItemFaults) → Store × Except RecordError Nat
  | [] => (s, .ok 0)
  | (item, faults) :: items =>
    match s.record_item call item faults with
    | (s, .error error) => (s, .error error)
    | (s, .ok written) =>
      let rest := s.record_items items
      (rest.1, rest.2.map (fun more => written + more))

end Store

end Items

/-- The folder's log, with the cache once a call has read it. -/
structure Writer where
  log : Bytes
  cache : Option Cached := none

/-- The first call reads the log. -/
def Writer.opened (w : Writer) (unreadable : Bool) : Store :=
  match w.cache with
  | some cache => { log := w.log, cache }
  | none =>
    match if unreadable then .error "" else read reader w.log with
    | .ok verdicts => { log := w.log, cache := { day := -1, verdicts, bytes := w.log.length } }
    | .error _ => { log := w.log, cache := { day := -1, verdicts := .empty, bytes := MAX_BYTES } }

def Store.closed (s : Store) : Writer where
  log := s.log
  cache := some s.cache

def record (w : Writer) (call : Call) : Writer × Except RecordError Nat :=
  match (w.opened reader call.unreadable).prune call.now call.compaction with
  | (s, false) => (s.closed, .error .compact)
  | (s, true) =>
    match s.record_items call call.items with
    | (s, .error error) => (s.closed, .error error)
    | (s, .ok written) => (s.closed, if call.sync then .error .sync else .ok written)

end ottto_service.start_verdict_store
