-- The counting evidence of retired index entries
-- (codex_counting_version.rs): an entry that is pruned leaves its evidence
-- under its owner, so that a moved session keeps the rule it was published by.
import Ottto.Occurrence

open Words

namespace ottto_service.identity

open codex_usage_occurrence

/-! ## The identities that a path names -/

/-- `Path::file_name` on Unix: the last component that is not `.`. -/
def file_name (path : String) : Option (List Char) :=
  let components := (path.toList.splitOn '/').filter (fun part => part ≠ [] ∧ part ≠ ['.'])
  components.getLast?.filter (fun name => name ≠ ['.', '.'])

/-- The name before its last dot. A dot that opens the name does not split
it. -/
def file_stem (name : List Char) : List Char :=
  match (name.reverse.dropWhile (fun c => c ≠ '.')) with
  | [] => name
  | [_] => name
  | _ :: before => before.reverse

def codex_archive_name (name : List Char) : Bool := ".jsonl.zst".toList.isSuffixOf name

/-- `d` stands for a digit. The first 20 bytes of a name that matches are
ASCII, so its bytes are its characters. -/
def TIMESTAMP_SHAPE : List Char := "dddd-dd-ddTdd-dd-dd-".toList

def timestamp_prefix (raw_identity : List Char) : Bool :=
  decide (20 < raw_identity.length) &&
    (TIMESTAMP_SHAPE.zip raw_identity).all
      (fun (shape, c) => if shape = 'd' then c.isDigit else c == shape)

/-- The whole identity, and the identity after a time. -/
def codex_session_id_candidates_from_path (path : String) : List String :=
  match file_name path with
  | none => []
  | some name =>
    -- `with_extension("")` of an archive leaves the name without `.zst`.
    let name := if codex_archive_name name then file_stem name else name
    let stem := file_stem name
    if !"rollout-".toList.isPrefixOf stem then []
    else
      let raw_identity := stem.drop 8
      if raw_identity.isEmpty then []
      else
        let legacy := resolve_codex_identity (String.ofList raw_identity)
        if timestamp_prefix raw_identity then
          let modern := resolve_codex_identity (String.ofList (raw_identity.drop 20))
          if legacy = modern then [legacy] else [legacy, modern]
        else [legacy]

example : codex_session_id_candidates_from_path "/a/rollout-2026-12-01T10-30-00-x.jsonl.zst" =
    ["2026-12-01T10-30-00-x", "x"] := by decide

end ottto_service.identity

namespace ottto_service.scan_index

open codex_usage_occurrence codex_counting_version identity

/-! ## The index -/

/-- `format!("{:x}")` of a digest. -/
def hex_lower (digest : Fin 32 → UInt8) : String :=
  String.ofList ((List.ofFn digest).flatMap
    (fun byte => [Nat.digitChar (byte.toNat / 16), Nat.digitChar (byte.toNat % 16)]))

section

variable (sha256 : List UInt8 → Fin 32 → UInt8)

def sha256_hex (parts : List String) : String :=
  hex_lower (sha256 (parts.flatMap (fun part => part.toUTF8.toList ++ [0])))

def codex_protected_owner (session : String) : String :=
  sha256_hex sha256 ["codex_protected_owner:v1", resolve_codex_identity session]

end

/-- 64 lowercase hexadecimal digits. -/
def is_sha256_lower (value : String) : Bool :=
  value.utf8ByteSize == 64 &&
    value.toList.all (fun c => c.isDigit || (decide ('a' ≤ c) && decide (c ≤ 'f')))

abbrev valid_codex_protected_owner := is_sha256_lower

structure AppliedTierReceipt where
  version : UInt16
  derivation : String
  scope : String
  records : Nat
  prefix_digest : String
  tiers : SortedMap String String

/-- The fields that the counting evidence reads. -/
structure ScanIndexEntry where
  last_snapshot_fingerprint : Option String := none
  last_upload_body_witness : Option String := none
  codex_joined_member_set : Option String := none
  codex_captured_joined_member_set : Option String := none
  codex_protected_owner : Option String := none
  codex_applied_tier_receipt : Option AppliedTierReceipt := none
  codex_applied_tier_receipt_required : Bool := false
  codex_captured_tier_receipt : Option AppliedTierReceipt := none
  codex_captured_tier_receipt_required : Bool := false
  codex_captured_uncommitted : Bool := false
  codex_counting_v2 : Bool := false
  codex_counting_owner : Option String := none

structure CountingTombstone where
  evidence : AckEvidence
  retired_in : String
  created_unix_ms : Option Int64

structure EvictedLegacyOwner where
  owner : String
  selected_v2 : Bool

/-- The running walk over the roots. -/
structure Traversal where
  census_window_end : String

structure ScanIndex where
  files : SortedMap String ScanIndexEntry := .empty
  traversal : Option Traversal := none
  codex_counting_moved_evidence : SortedMap String AckEvidence := .empty
  codex_counting_tombstones : SortedMap String CountingTombstone := .empty
  codex_counting_evicted_legacy : List EvictedLegacyOwner := []
  codex_counting_evictions : Fin 3 → UInt64 := fun _ => 0

end ottto_service.scan_index

namespace ottto_service.codex_counting_version

open scan_index identity AckEvidence

def CODEX_COUNTING_V2_CUTOVER_UNIX_MS : Int64 := 1793016000000

def active_cutover_unix_ms : Int64 := CODEX_COUNTING_V2_CUTOVER_UNIX_MS

def MAX_COUNTING_TOMBSTONES : Nat := 1024
def MAX_EVICTED_LEGACY_OWNERS : Nat := 256

/-! ## The evidence of an entry -/

def entry_has_ack_evidence (entry : ScanIndexEntry) : Bool :=
  entry.last_snapshot_fingerprint.isSome || entry.last_upload_body_witness.isSome ||
    entry.codex_protected_owner.isSome || entry.codex_joined_member_set.isSome ||
    entry.codex_captured_joined_member_set.isSome || entry.codex_applied_tier_receipt.isSome ||
    entry.codex_applied_tier_receipt_required || entry.codex_captured_tier_receipt.isSome ||
    entry.codex_captured_tier_receipt_required || entry.codex_captured_uncommitted

/-- Any entry that Legacy acknowledged forces Legacy; otherwise any V2 mark
selects V2. -/
def AckEvidence.of_view (entries : List ScanIndexEntry) (marked : Bool := false) : AckEvidence :=
  match entries with
  | [] => if marked then .V2Marked else .None
  | entry :: rest =>
    if entry.codex_counting_v2 then of_view rest true
    else if entry_has_ack_evidence entry then .LegacyAcked
    else of_view rest marked

def group_evidence (entries : List ScanIndexEntry) : AckEvidence := of_view entries

/-- The first valid owner that a complete parse proved. -/
def proven_owner (entry : ScanIndexEntry) : Option String :=
  ([entry.codex_counting_owner, entry.codex_protected_owner].filterMap id).find?
    valid_codex_protected_owner

section

variable (sha256 : List UInt8 → Fin 32 → UInt8)

/-! ## Retiring an entry -/

/-- The evidence that a retired entry leaves, by owner. -/
def retired_evidence (key : String) (entry : ScanIndexEntry) : List (String × AckEvidence) :=
  match proven_owner entry with
  | some owner => [(owner, of_view [entry])]
  | none => (codex_session_id_candidates_from_path key).map
      (fun session => (codex_protected_owner sha256 session, .LegacyAcked))

/-- The class that a tombstone may be evicted in: V2 only, before the
cutover, or of an earlier generation. -/
def eviction_class (cutover : Int64) (retired_in : String) (tombstone : CountingTombstone) :
    Option (Fin 3) :=
  if tombstone.evidence ≠ .LegacyAcked then some 0
  else if tombstone.created_unix_ms.any (fun created => created < cutover) then some 1
  else if tombstone.retired_in ≠ retired_in then some 2
  else none

/-- The tombstones that may be evicted, in the order that they are. Owners
that are written again cannot free a slot. -/
def evictable (cutover : Int64) (retired_in : String) (retired : List (String × AckEvidence))
    (tombstones : SortedMap String CountingTombstone) :
    List (Fin 3 ×ₗ Bool ×ₗ String ×ₗ String) :=
  (tombstones.entries.filterMap (fun (owner, tombstone) =>
    if retired.any (fun r => r.1 == owner) then none
    else (eviction_class cutover retired_in tombstone).map (fun c =>
      toLex (c, toLex (tombstone.created_unix_ms.isNone, toLex (tombstone.retired_in, owner))))))
    |>.insertionSort (· ≤ ·)

/-- The newest records of evicted Legacy owners, each owner once. -/
def remember (owners : List EvictedLegacyOwner) (record : EvictedLegacyOwner) :
    List EvictedLegacyOwner :=
  let kept := owners.filter (fun previous => previous.owner ≠ record.owner)
  (if kept.length = MAX_EVICTED_LEGACY_OWNERS then kept.tail else kept) ++ [record]

def evict (index : ScanIndex) (slot : Fin 3 ×ₗ Bool ×ₗ String ×ₗ String) : ScanIndex :=
  let c := (ofLex slot).1
  let owner := (ofLex (ofLex (ofLex slot).2).2).2
  { index with
    codex_counting_tombstones := index.codex_counting_tombstones.erase owner
    codex_counting_evictions :=
      Function.update index.codex_counting_evictions c
        (saturating_add (index.codex_counting_evictions c) 1)
    codex_counting_evicted_legacy := if c = 2 then
        remember index.codex_counting_evicted_legacy { owner, selected_v2 := false }
      else index.codex_counting_evicted_legacy }

/-- The tombstone of an owner takes the evidence of one more retired entry. -/
def record_retired (retired_in : String) (tombstones : SortedMap String CountingTombstone)
    (retired : String × AckEvidence) : SortedMap String CountingTombstone :=
  let tombstone := (tombstones.get? retired.1).getD
    { evidence := .None, retired_in := "", created_unix_ms := none }
  tombstones.insert retired.1
    { tombstone with evidence := tombstone.evidence.combine retired.2, retired_in }

def tombstone_before_retire (index : ScanIndex) (key : String) : ScanIndex × Bool :=
  match index.files.get? key with
  | none => (index, true)
  | some entry =>
    if of_view [entry] = .None then (index, true)
    else
      let retired := retired_evidence sha256 key entry
      let retired_in := (index.traversal.map Traversal.census_window_end).getD ""
      let tombstones := index.codex_counting_tombstones
      let needed := (retired.filter (fun r => !tombstones.contains r.1)).length
      let short := tombstones.size + needed - MAX_COUNTING_TOMBSTONES
      let recorded := fun (index : ScanIndex) =>
        { index with
          codex_counting_tombstones :=
            retired.foldl (record_retired retired_in) index.codex_counting_tombstones }
      if short = 0 then (recorded index, true)
      else if retired.all (fun r => r.2 != .LegacyAcked) then (index, true)
      else
        let evictable := evictable active_cutover_unix_ms retired_in retired tombstones
        if evictable.length < short then (index, false)
        else (recorded ((evictable.take short).foldl evict index), true)

/-! ## The evidence of the owners of an inventory -/

/-- `get_mut` of a map, written through. -/
def modify (by_owner : SortedMap String AckEvidence) (owner : String)
    (f : AckEvidence → AckEvidence) : SortedMap String AckEvidence :=
  match by_owner.get? owner with
  | some previous => by_owner.insert owner (f previous)
  | none => by_owner

/-- The evidence of the live entries of each owner that has a tombstone. -/
def live_evidence (index : ScanIndex) : SortedMap String AckEvidence :=
  index.files.values.foldl (fun live entry =>
    match proven_owner entry with
    | none => live
    | some owner =>
      if index.codex_counting_tombstones.contains owner then
        live.insert owner (((live.get? owner).getD .None).combine (of_view [entry]))
      else live) .empty

def collect_tombstones (index : ScanIndex) (owners : SortedMap String String)
    (absence_coverage : Bool) : ScanIndex :=
  let live := live_evidence index
  { index with
    codex_counting_tombstones := index.codex_counting_tombstones.retain (fun owner tombstone =>
      let absorbed := match live.get? owner with
        | some evidence =>
          evidence != .None && evidence.combine tombstone.evidence == evidence
        | none => false
      let absent := absence_coverage && !owners.values.contains owner &&
        match index.traversal with
        | some traversal => traversal.census_window_end != tombstone.retired_in
        | none => false
      !(absorbed || absent)) }

def absorbs_evicted_legacy (evidence : AckEvidence) (selected_v2 : Bool) : Bool :=
  evidence == .LegacyAcked || (selected_v2 && evidence == .V2Marked)

/-- The records of evicted owners that no committed carrier absorbs. -/
def pending_evicted (index : ScanIndex) : List EvictedLegacyOwner :=
  let records := index.codex_counting_evicted_legacy
  let pending : SortedMap String Bool :=
    records.foldl (fun pending record => pending.insert record.owner record.selected_v2) .empty
  let pending := pending.retain (fun owner selected_v2 =>
    !(index.codex_counting_tombstones.get? owner).any
      (fun tombstone => absorbs_evicted_legacy tombstone.evidence selected_v2))
  let pending := index.files.values.foldl (fun pending entry =>
    match proven_owner entry with
    | none => pending
    | some owner =>
      if (pending.get? owner).any (absorbs_evicted_legacy (of_view [entry])) then
        pending.erase owner
      else pending) pending
  records.filter (fun record => pending.contains record.owner)

/-- The owner that an entry is bound to: proven by its parse, or by the
inventory. -/
def binding (owners : SortedMap String String) (path : String) (entry : ScanIndexEntry) :
    Option String :=
  ((proven_owner entry).or (owners.get? path)).filter valid_codex_protected_owner

/-- The evidence of one entry, under its owner. An unbound name is only a
Legacy hint. -/
def fold_entry (owners : SortedMap String String) (by_owner : SortedMap String AckEvidence)
    (file : String × ScanIndexEntry) : SortedMap String AckEvidence :=
  let evidence := group_evidence [file.2]
  if evidence = .None then by_owner
  else
    match binding owners file.1 file.2 with
    | some owner => modify by_owner owner (fun previous => previous.combine evidence)
    | none => (codex_session_id_candidates_from_path file.1).foldl (fun by_owner session =>
        modify by_owner (codex_protected_owner sha256 session) (fun _ => .LegacyAcked)) by_owner

def fold_tombstone (by_owner : SortedMap String AckEvidence)
    (tombstone : String × CountingTombstone) : SortedMap String AckEvidence :=
  modify by_owner tombstone.1 (fun previous => previous.combine tombstone.2.evidence)

/-- The evidence of each owner of the inventory. -/
def evidence_by_owner (index : ScanIndex) (owners : SortedMap String String) :
    SortedMap String AckEvidence :=
  let by_owner := owners.values.foldl (fun by_owner owner => by_owner.insert owner .None) .empty
  let by_owner := index.files.entries.foldl (fold_entry sha256 owners) by_owner
  index.codex_counting_tombstones.entries.foldl fold_tombstone by_owner

def prepare_moved_evidence (index : ScanIndex) (owners : SortedMap String String)
    (absence_coverage : Bool) : ScanIndex :=
  let index := { index with codex_counting_evicted_legacy := pending_evicted index }
  let index := collect_tombstones index owners absence_coverage
  let by_owner := evidence_by_owner sha256 index owners
  { index with
    codex_counting_moved_evidence := owners.filterMap
      (fun _ owner => (by_owner.get? owner).filter (fun evidence => evidence != .None)) }

def key_evidence (key : String) (index : ScanIndex) : AckEvidence :=
  (of_view (index.files.get? key).toList).combine
    ((index.codex_counting_moved_evidence.get? key).getD .None)

end

end ottto_service.codex_counting_version
