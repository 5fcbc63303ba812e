-- How long an ACK lives in the upload ledger (snapshot_sync/ack_retention.rs): what a
-- settled save of the index may forget, and the handoff that a restart goes on with.
import Ottto.ProgressFile

namespace ottto_service.snapshot_sync

open snapshots

/-- The obligations that a scan still references. -/
abbrev AckScanReferences := Finset String

/-- The ACKs that the next save of the index may retire. -/
abbrev AckRetirementPlan := Finset String

namespace SnapshotUploadProgress

variable (s : SnapshotUploadProgress)

/-! ## Evidence -/

/-- Only a complete census proves that an ACK's entity is gone. -/
def complete_census_ack_retirements (scanned : ScanIndex) (census_complete : Bool) :
    Finset String :=
  if census_complete = false ∨ scanned.upload_progress_ack_incidence_unknown then ∅
  else s.accepted_fingerprints \ scanned.upload_progress_ack_incidence

/-- A handoff of this destination that a save has committed. -/
def own_handoff (index : ScanIndex) : Option UploadAckRetirementHandoff :=
  index.upload_ack_retirement_handoff.filter (fun h =>
    h.destination_namespace_hash == s.destination_namespace_hash &&
      decide (0 < h.committed_generation) && decide (h.committed_generation ≤ index.generation))

/-- The entities whose handed-off body is still the accepted one. -/
def exact_bodies (bodies : SortedMap String String) : Finset String :=
  (bodies.retain (fun fp body => s.accepted_body_witnesses.get? fp == some body)).keys.toFinset

/-- What the handoff of `previous` still owes, and the held ACKs of its incidence. -/
def retirement_obligations (previous : ScanIndex) : Finset String :=
  (s.own_handoff previous).elim ∅
      (fun h => s.exact_bodies h.bodies ∪ s.exact_bodies h.pending_bodies) ∪
    if previous.generation > 0 then
      previous.upload_progress_ack_incidence.filter (fun fp => fp ∈ s.accepted_fingerprints)
    else ∅

def ack_retirement_scan_references (previous scanned : ScanIndex) : AckScanReferences :=
  scanned.upload_progress_ack_incidence.filter (fun fp => fp ∈ s.retirement_obligations previous)

/-! ## Staging -/

/-- A candidate that this save may not retire yet. -/
def is_pending_retirement (selected : ScanIndex) (scan_referenced : AckScanReferences)
    (locally_held : Finset String) (fp : String) : Bool :=
  selected.upload_progress_ack_incidence_unknown || decide (fp ∈ locally_held) ||
    selected.decode_holds_entity fp ||
    (decide (fp ∈ scan_referenced) && decide (fp ∉ selected.upload_progress_ack_incidence))

/-- The accepted bodies of the entities given. -/
def bodies_of (fps : Finset String) : SortedMap String String :=
  s.accepted_body_witnesses.filterKeys (fun fp => fp ∈ fps)

def stage_ack_retirement_handoff_with_scan (previous selected : ScanIndex)
    (scan_referenced : AckScanReferences) (locally_held census_absent : Finset String) :
    Except String ScanIndex :=
  let candidates := s.retirement_obligations previous ∪ census_absent
  let pending := is_pending_retirement selected scan_referenced locally_held
  let pending_bodies := s.bodies_of (candidates.filter (fun fp => pending fp))
  let bodies := s.bodies_of (candidates.filter (fun fp =>
    pending fp = false ∧ fp ∉ selected.upload_progress_ack_incidence))
  if bodies.isEmpty ∧ pending_bodies.isEmpty then
    .ok { selected with upload_ack_retirement_handoff := none }
  else if selected.generation + 1 > u64_max then .error "ACK retirement generation overflow"
  else .ok { selected with
    upload_ack_retirement_handoff := some {
      destination_namespace_hash := s.destination_namespace_hash
      committed_generation := selected.generation + 1
      bodies
      pending_bodies } }

/-- The held ACKs of the committed incidence that the selected index no longer has. -/
def committed_incidence_retirements (committed selected : ScanIndex) : Finset String :=
  if committed.generation = 0 ∨ selected.upload_progress_ack_incidence_unknown then ∅
  else (committed.upload_progress_ack_incidence.filter (fun fp => fp ∈ s.accepted_fingerprints) \
      selected.upload_progress_ack_incidence).filter (fun fp => ¬ selected.decode_holds_entity fp)

/-- The index with its handoff, and the plan, of a selected save. -/
def stage_selected_ack_retirement (previous selected : ScanIndex)
    (scan_referenced : AckScanReferences) (locally_held census_absent : Finset String) :
    Except String (ScanIndex × AckRetirementPlan) := do
  let staged ← s.stage_ack_retirement_handoff_with_scan previous selected scan_referenced
    locally_held census_absent
  .ok (staged, s.committed_incidence_retirements previous staged \ scan_referenced)

/-! ## Retiring -/

def saved_handoff_retirements (saved : ScanIndex) : Finset String :=
  match s.own_handoff saved with
  | none => ∅
  | some handoff =>
    if saved.upload_progress_ack_incidence_unknown then ∅
    else (s.exact_bodies handoff.bodies).filter (fun fp => ¬ saved.decode_holds_entity fp) \
      saved.upload_progress_ack_incidence

def add_saved_handoff_retirements (plan : AckRetirementPlan) (saved : ScanIndex) :
    AckRetirementPlan :=
  plan ∪ s.saved_handoff_retirements saved

/-- The ACKs whose entity is kept, and no other. -/
def retain_acks (keep : String → Bool) : SnapshotUploadProgress :=
  let witnesses := s.accepted_body_witnesses.filterKeys keep
  { s with
    accepted_body_witnesses := witnesses
    accepted_fingerprints := s.accepted_fingerprints.filter (fun fp => witnesses.contains fp) }

def outlives_save (saved : ScanIndex) (retired locally_held : Finset String) (fp : String) : Bool :=
  decide (fp ∈ locally_held) || saved.decode_holds_entity fp ||
    !(decide (fp ∈ saved.adopted_upload_progress_acks s.accepted_body_witnesses) ||
      (!saved.upload_progress_ack_incidence_unknown && decide (fp ∈ retired)))

def retire_listed_acks_after_index_save (saved : ScanIndex) (retired locally_held : Finset String) :
    SnapshotUploadProgress :=
  if saved.generation = 0 then s else s.retain_acks (s.outlives_save saved retired locally_held)

def retire_planned_acks_after_index_save (saved : ScanIndex) (plan : AckRetirementPlan)
    (locally_held : Finset String) : SnapshotUploadProgress :=
  s.retire_listed_acks_after_index_save saved plan locally_held

/-- What a partial save of the index lets go of, before the ledger is saved. -/
def release_acks_after_partial_index_save_with_scan (previous saved : ScanIndex)
    (scan_referenced : AckScanReferences) (locally_held : Finset String)
    (keep_adopted_for_retry : Bool) : SnapshotUploadProgress :=
  let retired := (s.committed_incidence_retirements previous saved ∪
    s.saved_handoff_retirements saved) \ scan_referenced
  if keep_adopted_for_retry then
    -- The retry driver still reads this ledger: its adopted siblings stay.
    s.retain_acks (fun fp => decide (fp ∉ retired) || decide (fp ∈ locally_held))
  else s.retire_listed_acks_after_index_save saved retired locally_held

/-! ## Recovery after a restart -/

/-- The handed-off ACKs, forgotten. -/
def forget_acks (retired : Finset String) : SnapshotUploadProgress :=
  { s with
    accepted_body_witnesses := s.accepted_body_witnesses.filterKeys (fun fp => fp ∉ retired)
    accepted_fingerprints := s.accepted_fingerprints \ retired }

/-- The bodies that are still accepted as they were handed off. -/
def still_exact (bodies : SortedMap String String) : SortedMap String String :=
  bodies.retain (fun fp body => s.accepted_body_witnesses.get? fp == some body)

/-- What the handoff still owes; none is to be written when nothing changed. -/
def pruned_handoff (handoff : UploadAckRetirementHandoff) :
    Option (Option UploadAckRetirementHandoff) :=
  let pending := { handoff with
    bodies := s.still_exact handoff.bodies, pending_bodies := s.still_exact handoff.pending_bodies }
  let pending_count := pending.bodies.size + pending.pending_bodies.size
  if pending_count = handoff.bodies.size + handoff.pending_bodies.size ∧ pending_count > 0 then none
  else some (if pending_count > 0 then some pending else none)

end SnapshotUploadProgress

/-- What the two files hold. -/
structure Disk where
  progress : Option Durable
  index : Option ScanIndex

/-- A process in its recovery: the ledger, the index, and the disks that its writes left,
the last one first. -/
structure Recovering where
  progress : SnapshotUploadProgress
  saved : ScanIndex
  disks : List Disk

namespace Recovering

/-- The disk as it is now. -/
def disk (r : Recovering) : Disk := r.disks.headD ⟨none, none⟩

/-- A save of the ledger; a failed one stops the work and the disks stand. -/
def save_progress (r : Recovering) : Except (List Disk) Recovering :=
  match r.progress.save r.disk.progress with
  | .error _ => .error r.disks
  | .ok progress => .ok { r with
      progress, disks := { r.disk with progress := some progress.toDurable } :: r.disks }

def save_index (r : Recovering) (now : Nat) : Except (List Disk) Recovering :=
  match r.saved.save r.disk.index now with
  | .error _ => .error r.disks
  | .ok saved => .ok { r with saved, disks := { r.disk with index := some saved } :: r.disks }

/-- The ledger is saved before its handoff is cleared: either failed save stops work. -/
def recover_ack_retirement_handoff (r : Recovering) (now : Nat) :
    Except (List Disk) Recovering := do
  let retired := r.progress.saved_handoff_retirements r.saved
  let removed := r.progress.accepted_body_witnesses.filterKeys (fun fp => fp ∈ retired)
  let r := { r with progress := r.progress.forget_acks retired }
  let r ← if removed.isEmpty then .ok r else r.save_progress
  match r.progress.own_handoff r.saved with
  | none => .ok r
  | some handoff =>
    match r.progress.pruned_handoff handoff with
    | none => .ok r
    | some pruned =>
      let r ← if removed.isEmpty then r.save_progress else .ok r
      { r with saved := { r.saved with upload_ack_retirement_handoff := pruned } }.save_index now

end Recovering

end ottto_service.snapshot_sync
