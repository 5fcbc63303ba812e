-- Cache heads that a file's entities still wait for (snapshot_sync.rs): recorded when the
-- evidence is deferred, retired after the settled save of the index.
import Ottto.ProgressFile

namespace ottto_service.snapshot_sync

open snapshots

def cache_head_selection_witness (accepted_head : String) : String :=
  hex_lower (Sha256.digest ("cache_head_selection:v1:" ++ accepted_head).toUTF8.toList)

def cache_head_index_key (index_key : String) : String :=
  hex_lower (Sha256.digest ("cache_head_file:v1:" ++ index_key).toUTF8.toList)

/-- The fields of an item that the ledger reads. The witnesses are of its exact body, and
of the body without its cache evidence. -/
structure SnapshotItem where
  snapshot_fingerprint : String
  source_session_id : String
  source_file_fingerprint : Option String
  cache_observations : Bool
  cache_base_head_etag : Option String
  upload_body_witness : String
  probe_body_witness : String
deriving DecidableEq

/-- The file of an entity: its key, its fingerprint and its entities. -/
abbrev Groups := SortedMap String (String × String × Finset String)

namespace SnapshotUploadProgress

variable (s : SnapshotUploadProgress)

/-! ## Recording -/

def invalid_binding (actually_deferred : Bool) : Except String (SnapshotUploadProgress × Bool) :=
  if actually_deferred then .error "bind deferred cache head to current file entities"
  else .ok (s, false)

/-- A new obligation of this revision of the file. -/
def opened (file group : String) : PendingCacheHeadFile :=
  { source_file_fingerprint := file, group_fingerprint := group, entities := .empty }

/-- The obligation of this revision; a replaced group starts its own. -/
def pending_of_group (file group : String) (pending : Option PendingCacheHeadFile) :
    PendingCacheHeadFile :=
  match pending with
  | none => opened file group
  | some pending =>
    if pending.group_fingerprint ≠ group ∨ pending.source_file_fingerprint ≠ file then
      opened file group
    else pending

def with_entity (pending : PendingCacheHeadFile) (fingerprint session : String) :
    PendingCacheHeadFile :=
  { pending with entities := pending.entities.insert fingerprint session }

def record_pending_cache_head_identity (source_file_fingerprint : Option String)
    (fingerprint session : String) (groups : Groups) (actually_deferred : Bool) :
    Except String (SnapshotUploadProgress × Bool) :=
  match source_file_fingerprint with
  | none => s.invalid_binding actually_deferred
  | some file =>
    match groups.get? file with
    | none => s.invalid_binding actually_deferred
    | some (index_key, group, entities) =>
      if fingerprint ∉ entities then s.invalid_binding actually_deferred
      else
        let pending := s.pending_cache_heads.get? index_key
        if !actually_deferred && pending.isNone then .ok (s, false)
        else
          let recorded := with_entity (pending_of_group file group pending) fingerprint session
          .ok ({ s with pending_cache_heads := s.pending_cache_heads.insert index_key recorded },
            decide (pending ≠ some recorded))

/-! ## Retiring -/

/-- The indexed file that the key names. -/
def current_file (index : ScanIndex) (file : String) : Option (String × ScanIndexEntry) :=
  (index.files.entries.filter (fun e => cache_head_index_key e.1 == file)).getLast?

/-- The last item of this file and entity that carries cache evidence. -/
def projected (items : List SnapshotItem) (file entity : String) : Option SnapshotItem :=
  (items.filter (fun item => item.cache_observations &&
    item.source_file_fingerprint == some file && item.snapshot_fingerprint == entity)).getLast?

/-- One entity of a pending file against the item that was uploaded for it. -/
def settle_entity (items : List SnapshotItem) (held : Finset String)
    (projected_file_witness : Option (Option String)) (entry : ScanIndexEntry)
    (pending : PendingCacheHeadFile) (e : String × String) : PendingCacheHeadFile :=
  let (entity, session) := e
  if entity ∈ held then pending
  else match projected items pending.source_file_fingerprint entity with
    | none => pending
    | some item =>
      let settled := if s.accepted_cache_heads.contains session ∧
          s.accepted_body_witnesses.get? entity = some item.upload_body_witness then
          insert entity pending.settled_entities
        else pending.settled_entities
      let reselected := match item.cache_base_head_etag with
        | some head =>
          if entry.last_upload_body_witness.isSome ∧
              projected_file_witness = some entry.last_upload_body_witness then
            pending.reselected_heads.insert session (cache_head_selection_witness head)
          else pending.reselected_heads
        | none => pending.reselected_heads
      { pending with settled_entities := settled, reselected_heads := reselected }

def all_siblings_settled (index : ScanIndex) (index_key : String) (pending : PendingCacheHeadFile) :
    Bool :=
  (index.file_snapshot_fingerprints.get? index_key).any (fun entities =>
    decide (∀ entity ∈ entities, index.decode_holds_entity entity = false ∧
      (entity ∈ pending.settled_entities ∨ (entity ∈ s.accepted_fingerprints ∧
        ¬ index.quarantined_snapshot_fingerprints.contains entity))))

/-- What is left of a pending file after a save of the index. -/
def retire_pending (index : ScanIndex) (items : List SnapshotItem) (held : Finset String)
    (census_complete : Bool) (projected_file_witnesses : SortedMap String (Option String))
    (file : String) (pending : PendingCacheHeadFile) : Option PendingCacheHeadFile :=
  if ∃ key ∈ index.decode_holds.files, cache_head_index_key key = file then some pending
  else match current_file index file with
    | none => if census_complete then none else some pending
    | some (index_key, entry) =>
      if index.decode_holds_file index_key then some pending
      else if entry.source_file_fingerprint ≠ pending.source_file_fingerprint ∨
          entry.last_snapshot_fingerprint ≠ some pending.group_fingerprint then some pending
      else
        let settled := pending.entities.entries.foldl
          (s.settle_entity items held (projected_file_witnesses.get? file) entry) pending
        if s.all_siblings_settled index index_key settled ∧
            ∀ entity ∈ settled.entities.keys, entity ∈ settled.settled_entities then none
        else some settled

def retire_pending_cache_heads (index : ScanIndex) (items : List SnapshotItem)
    (held : Finset String) (census_complete : Bool)
    (projected_file_witnesses : SortedMap String (Option String)) : SnapshotUploadProgress :=
  { s with
    pending_cache_heads := s.pending_cache_heads.filterMap
      (s.retire_pending index items held census_complete projected_file_witnesses) }

end SnapshotUploadProgress

end ottto_service.snapshot_sync
