-- The scan index as an upload reads it (snapshots/scan_index.rs, scan_index/save.rs,
-- lenient_decode.rs): which files hold which entities, what the decoder holds back, what
-- the server accepted, and the handoff of retired ACKs.
import Ottto.Quarantine
import Ottto.Tombstones

namespace ottto_service.snapshots

open identity List

/-! ## Sets of fingerprints under keys -/

/-- `values().flat_map(BTreeSet::iter)` -/
def members (m : SortedMap String (Finset String)) : Finset String :=
  m.values.foldr (· ∪ ·) ∅

theorem mem_foldr_union {sets : List (Finset String)} {fp : String} :
    fp ∈ sets.foldr (· ∪ ·) ∅ ↔ ∃ set ∈ sets, fp ∈ set := by
  induction sets with
  | nil => simp
  | cons set rest ih => simp [ih]

theorem mem_members {m : SortedMap String (Finset String)} {fp : String} :
    fp ∈ members m ↔ ∃ key set, m.get? key = some set ∧ fp ∈ set := by
  unfold members SortedMap.values
  rw [mem_foldr_union]
  constructor
  · rintro ⟨set, hset, hfp⟩
    obtain ⟨e, he, rfl⟩ := mem_map.mp hset
    exact ⟨e.1, e.2, SortedMap.mem_entries.mp he, hfp⟩
  · rintro ⟨key, set, hget, hfp⟩
    exact ⟨set, mem_map.mpr ⟨(key, set), SortedMap.mem_entries.mpr hget, rfl⟩, hfp⟩

/-! ## Members of Claude families -/

/-- The root of the family that a path belongs to. -/
def claude_index_path_member_root (path : String) : Option (List Char) := do
  let name ← file_name path
  let stem := file_stem name
  if name ≠ stem ++ ".jsonl".toList then none
  let components := (path.toList.splitOn '/').filter (fun part => part ≠ [] ∧ part ≠ ['.'])
  let directories := components.dropLast.reverse.filter (fun part => part ≠ ['.', '.'])
  match (directories.dropWhile (fun part => part ≠ "subagents".toList)).drop 1 with
  | root :: _ => if stem = "journal".toList then none else some root
  | [] => some stem

example : claude_index_path_member_root "/p/root/subagents/agent.jsonl" = some "root".toList := by
  decide

def repair_key (value : List Char) : List UInt8 := Sha256.digest (String.ofList value).toUTF8.toList

/-! ## The index -/

/-- The keys whose records the decoder could not read and holds as they are. -/
structure Holds where
  files : Finset String := ∅
  quarantined_snapshot_fingerprints : Finset String := ∅
  claude_usage_authority_quarantine : Finset String := ∅
  claude_usage_family_witnesses : Finset String := ∅
deriving DecidableEq

/-- The entry of a file: what the counting evidence reads, the revision of the source,
and the marker of an audit that is still owed. -/
structure ScanIndexEntry extends scan_index.ScanIndexEntry where
  source_file_fingerprint : String := ""
  scan_identity_version : Option String := none

structure TerminalJsonlDisposition where
  source_file_fingerprint : String
  parser_generation : String

/-- The ACKs that the next settlement may forget, each with its exact body. -/
structure UploadAckRetirementHandoff where
  destination_namespace_hash : String
  committed_generation : Nat
  bodies : SortedMap String String
  pending_bodies : SortedMap String String

structure ScanIndex where
  persistence_available : Bool := true
  generation : Nat := 0
  decode_holds : Holds := {}
  files : SortedMap String ScanIndexEntry := .empty
  file_snapshot_fingerprints : SortedMap String (Finset String) := .empty
  confirmed_empty_files : Finset String := ∅
  snapshot_activity_at : SortedMap String (Option String) := .empty
  accepted_snapshot_fingerprints : Finset String := ∅
  accepted_rebuild_incidence : SortedMap String (Finset String) := .empty
  quarantined_snapshot_fingerprints : SortedMap String SnapshotQuarantineRecord := .empty
  upload_ack_retirement_handoff : Option UploadAckRetirementHandoff := none
  terminal_jsonl_dispositions : SortedMap String TerminalJsonlDisposition := .empty
  /-- The file of each retry, and the files still queued to be scanned. -/
  terminal_contract_retries : SortedMap String String := .empty
  pending_candidates : List String := []

namespace ScanIndex

variable (index : ScanIndex)

/-! ## What the decoder holds -/

def decode_holds_family (root : List Char) : Bool :=
  !index.persistence_available ||
    decide (∃ key ∈ index.decode_holds.files,
      (claude_index_path_member_root key).any (fun held => repair_key held == repair_key root)) ||
    decide (String.ofList root ∈ index.decode_holds.claude_usage_authority_quarantine) ||
    decide (String.ofList root ∈ index.decode_holds.claude_usage_family_witnesses)

def decode_holds_file (key : String) : Bool :=
  decide (key ∈ index.decode_holds.files) ||
    (claude_index_path_member_root key).any index.decode_holds_family

def decode_holds_entity (fingerprint : String) : Bool :=
  !index.persistence_available ||
    decide (fingerprint ∈ index.decode_holds.quarantined_snapshot_fingerprints)

/-- A held file whose members are not known. -/
def decode_has_opaque_file_incidence : Bool :=
  decide (∃ key ∈ index.decode_holds.files, ¬ index.file_snapshot_fingerprints.contains key)

/-! ## Incidence -/

/-- The last fingerprint of each file that has no exact set. -/
def legacy_fingerprints : Finset String :=
  (index.files.entries.filterMap (fun e =>
    if index.file_snapshot_fingerprints.contains e.1 then none
    else e.2.last_snapshot_fingerprint)).toFinset

def current_snapshot_fingerprint_refs : Finset String :=
  members index.file_snapshot_fingerprints ∪ index.legacy_fingerprints

/-- The same, of the files that the decoder does not hold. -/
def eligible_snapshot_fingerprint_refs : Finset String :=
  members (index.file_snapshot_fingerprints.filterKeys (fun key => !index.decode_holds_file key)) ∪
    (index.files.entries.filterMap (fun e =>
      if index.file_snapshot_fingerprints.contains e.1 || index.decode_holds_file e.1 then none
      else e.2.last_snapshot_fingerprint)).toFinset

def carried_ack_fingerprints : Finset String := members index.accepted_rebuild_incidence

def upload_progress_ack_incidence : Finset String :=
  index.current_snapshot_fingerprint_refs ∪ index.carried_ack_fingerprints

def upload_progress_ack_incidence_unknown : Bool := index.decode_has_opaque_file_incidence

def accepted_snapshot_fingerprint_recorded (fingerprint : String) : Bool :=
  !index.decode_holds_entity fingerprint &&
    decide (fingerprint ∈ index.accepted_snapshot_fingerprints)

def quarantine_retry_is_queued (fingerprint : String) : Bool :=
  (index.terminal_contract_retries.get? fingerprint).any
    (fun key => index.pending_candidates.contains key)

end ScanIndex

/-! ## The digest of a file's bodies -/

/-- The length in 4 bytes, then the bytes. -/
def length_prefixed (bytes : List UInt8) : List UInt8 :=
  Sha256.be_bytes (UInt32.ofNat bytes.length) ++ bytes

def snapshot_file_set_hasher (domain : String) (set : List String) : List UInt8 :=
  Sha256.digest (length_prefixed domain.toUTF8.toList ++
    set.flatMap (fun member => length_prefixed member.toUTF8.toList))

/-- `format!("{:x}")` of a digest. -/
def hex_lower (digest : List UInt8) : String :=
  String.ofList (digest.flatMap
    (fun byte => [Nat.digitChar (byte.toNat / 16), Nat.digitChar (byte.toNat % 16)]))

theorem hex_digit_lower {n : Nat} (h : n < 16) :
    (Nat.digitChar n).utf8Size = 1 ∧ is_ascii_hexdigit (Nat.digitChar n) = true := by
  interval_cases n <;> decide

theorem hex_lower_is_fingerprint {digest : List UInt8} (h : digest.length = 32) :
    is_snapshot_fingerprint (hex_lower digest) = true := by
  have hlow (byte : UInt8) : byte.toNat / 16 < 16 := by
    have := byte.toNat_lt
    omega
  have hhigh (byte : UInt8) : byte.toNat % 16 < 16 := Nat.mod_lt _ (by decide)
  unfold is_snapshot_fingerprint hex_lower
  rw [String.toList_ofList, String.utf8ByteSize_ofList, Bool.and_eq_true]
  constructor
  · have hlen (l : List UInt8) : String.utf8Len (l.flatMap (fun byte =>
        [Nat.digitChar (byte.toNat / 16), Nat.digitChar (byte.toNat % 16)])) = 2 * l.length := by
      induction l with
      | nil => rfl
      | cons byte rest ih =>
        simp only [flatMap_cons, cons_append, nil_append, String.utf8Len_cons, ih,
          (hex_digit_lower (hlow byte)).1, (hex_digit_lower (hhigh byte)).1, length_cons]
        omega
    rw [hlen, h]
    rfl
  · rw [all_eq_true]
    intro c hc
    obtain ⟨byte, -, hbyte⟩ := mem_flatMap.mp hc
    rcases mem_cons.mp hbyte with rfl | hrest
    · exact (hex_digit_lower (hlow byte)).2
    · obtain rfl := mem_singleton.mp hrest
      exact (hex_digit_lower (hhigh byte)).2

/-- The members of a `BTreeSet` in its order. -/
def in_order (texts : Finset String) : List String := texts.sort (· ≤ ·)

/-- Over the bodies sorted, each once. -/
def snapshot_file_upload_body_set_hex (witnesses : Finset String) : String :=
  hex_lower (snapshot_file_set_hasher "snapshot_file_upload_body_set:v1"
    (in_order witnesses))

namespace ScanIndex

variable (index : ScanIndex)

/-- The file's recorded body set is that of the bodies given, all of them accepted. -/
def adopts_file (bodies : SortedMap String String) (key : String) (set : Finset String) : Bool :=
  decide (set ≠ ∅) && !index.decode_holds_file key &&
    ((index.files.get? key).bind (fun entry => entry.last_upload_body_witness)).any (fun expected =>
      decide (∀ fp ∈ set, bodies.contains fp ∧ index.accepted_snapshot_fingerprint_recorded fp) &&
        expected == snapshot_file_upload_body_set_hex
          (set.image (fun fp => (bodies.get? fp).getD "")))

def adopted_upload_progress_acks (bodies : SortedMap String String) : Finset String :=
  members (index.file_snapshot_fingerprints.retain (index.adopts_file bodies))

/-! ## Saving -/

/-- A record that no writer of this version leaves, as a save repairs it. -/
def normalize_snapshot_quarantine_record (record : SnapshotQuarantineRecord) (now : Nat) :
    SnapshotQuarantineRecord :=
  match record.disposition with
  | .RetryPending => record.retry
      (min record.failed_reconstruction_count (MAX_SNAPSHOT_RECONSTRUCTION_FAILURES - 1))
      (if record.retry_after_unix_seconds >
          u64_saturating_add now (SNAPSHOT_QUARANTINE_RETRY_SECONDS * 2) then now
        else record.retry_after_unix_seconds)
  | .UnprovenTerminal => record.terminal
  | .SupersededTerminal =>
    { record.superseded with
      failed_reconstruction_count :=
        min record.failed_reconstruction_count MAX_SNAPSHOT_RECONSTRUCTION_FAILURES }

def drop_invalid_index_records (now : Nat) : ScanIndex :=
  { index with
    accepted_snapshot_fingerprints :=
      index.accepted_snapshot_fingerprints.filter (fun fp => scan_index.is_sha256_lower fp)
    quarantined_snapshot_fingerprints :=
      index.quarantined_snapshot_fingerprints.mapValues (fun record =>
        if snapshot_quarantine_deadline_is_bounded_at record now then record
        else normalize_snapshot_quarantine_record record now) }

/-- A save over what the path holds: refused when another writer saved in between. -/
def save (current : Option ScanIndex) (now : Nat) : Except String ScanIndex := do
  if !index.persistence_available then .error "scan_index_map_unavailable"
  let repaired := index.drop_invalid_index_records now
  let merged ← match current with
    | some current =>
      if !current.persistence_available then .error "scan_index_map_unavailable"
      else if current.generation ≠ index.generation then
        .error "local snapshot scan index changed concurrently"
      else if current.decode_holds ≠ index.decode_holds then .error "current_index_requires_reload"
      else .ok { repaired with
        quarantined_snapshot_fingerprints := (terminal_contract_retry.merge_maps
          repaired.quarantined_snapshot_fingerprints current.quarantined_snapshot_fingerprints).1 }
    | none =>
      if index.generation ≠ 0 then .error "local snapshot scan index disappeared concurrently"
      else .ok repaired
  if index.generation + 1 > u64_max then .error "local snapshot scan index generation overflow"
  .ok { merged with generation := index.generation + 1 }

end ScanIndex

end ottto_service.snapshots
