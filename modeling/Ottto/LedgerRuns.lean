-- Runs of the upload ledger's operations, with saves and reloads between them: the
-- loader accepts all that a save writes.
import Ottto.LedgerHeads

namespace ottto_service.snapshot_sync

open snapshots terminal_contract_retry reason_reoffer SortedMap SnapshotUploadProgress List

namespace Durable

/-- The ledger as its loader asks for it, with what the loader does not see. -/
structure Kept (ns : String) (session_of : String → String) (now : Nat) (d : Durable) : Prop where
  loadable : d.Loadable ns now
  bound : d.Bound session_of

variable {ns : String} {session_of : String → String} {now : Nat} {d : Durable}

theorem Kept.later {later : Nat} (hle : now ≤ later) (h : d.Kept ns session_of now) :
    d.Kept ns session_of later := ⟨h.loadable.later hle, h.bound⟩

end Durable

namespace SnapshotUploadProgress

variable {ns : String} {session_of : String → String} {now : Nat} {s : SnapshotUploadProgress}

/-! ## The older revisions of a refusal -/

variable {body : String}

theorem refusal_after_ack_revisions {refusal left : PermanentSnapshotRejection}
    (h : refusal_after_ack refusal body = some left) {key : String} {revision : Refusal}
    (hget : left.revisions.get? key = some revision) :
    refusal.revisions.get? key = some revision := by
  unfold refusal_after_ack at h
  dsimp only at h
  split at h
  · split at h
    · cases h
    · cases h
      exact get?_of_erase (get?_of_erase hget)
  · split at h
    · cases h
      exact get?_of_erase hget
    · cases h

theorem retained_revisions_bodies (h : s.toDurable.Kept ns session_of now)
    {fp next key : String} {revision : Refusal}
    (hget : (s.retained_revisions fp next).get? key = some revision) :
    is_snapshot_fingerprint revision.body_witness = true := by
  unfold retained_revisions at hget
  split at hget
  · simp at hget
  · rename_i old hold
    replace hget := get?_of_erase hget
    split at hget
    · exact forall_insert (p := fun _ found => is_snapshot_fingerprint found.body_witness)
        (h.loadable.refusals fp old hold).2 (h.bound.revisions fp old hold) key revision hget
    · exact h.bound.revisions fp old hold key revision hget

/-! ## Answers -/

variable {fingerprint : String}

theorem record_body_kept (h : s.toDurable.Kept ns session_of now)
    (hfp : is_snapshot_fingerprint fingerprint = true)
    (hbody : is_snapshot_fingerprint body = true) :
    (s.record_body fingerprint body).toDurable.Kept ns session_of now := by
  refine ⟨record_body_loadable h.loadable h.bound hfp hbody, ?_, h.bound.sessions⟩
  intro fp refusal hget key revision hrevision
  change (put_refusal _ _ _).get? fp = some refusal at hget
  rw [get?_put_refusal] at hget
  split at hget
  · obtain ⟨old, hold, hleft⟩ := Option.bind_eq_some_iff.mp hget
    exact h.bound.revisions _ old hold key revision (refusal_after_ack_revisions hleft hrevision)
  · exact h.bound.revisions fp refusal hget key revision hrevision

theorem quarantine_body_kept (h : s.toDurable.Kept ns session_of now)
    (hfp : is_snapshot_fingerprint fingerprint = true)
    (hbody : is_snapshot_fingerprint body = true) :
    (s.quarantine_body fingerprint body now).toDurable.Kept ns session_of now :=
  ⟨quarantine_body_loadable h.loadable hfp hbody, h.bound.revisions, h.bound.sessions⟩

theorem quarantine_permanent_body_kept (h : s.toDurable.Kept ns session_of now)
    {reason : String} (hfp : is_snapshot_fingerprint fingerprint = true)
    (hbody : is_snapshot_fingerprint body = true) :
    (s.quarantine_permanent_body fingerprint body reason now).toDurable.Kept ns session_of now := by
  refine ⟨quarantine_permanent_body_loadable h.loadable hfp hbody, ?_, h.bound.sessions⟩
  intro fp refusal hget key revision hrevision
  exact forall_insert (fun key revision => retained_revisions_bodies h)
    h.bound.revisions fp refusal hget key revision hrevision

theorem hold_unstored_body_kept (h : s.toDurable.Kept ns session_of now)
    (hfp : is_snapshot_fingerprint fingerprint = true)
    (hbody : is_snapshot_fingerprint body = true) :
    (s.hold_unstored_body fingerprint body now).toDurable.Kept ns session_of now := by
  refine ⟨hold_unstored_body_loadable h.loadable hfp hbody, ?_, h.bound.sessions⟩
  intro fp refusal hget
  change (s.without_verdict fingerprint body).permanent_rejections.get? fp = some refusal at hget
  unfold without_verdict at hget
  dsimp only at hget
  split at hget
  · exact h.bound.revisions fp refusal (get?_of_erase hget)
  · exact h.bound.revisions fp refusal hget

theorem quarantine_retryable_body_kept (h : s.toDurable.Kept ns session_of now) {retry_after : Nat}
    (hfp : is_snapshot_fingerprint fingerprint = true) (hbody : is_snapshot_fingerprint body = true)
    (hafter : retry_after ≤ u64_saturating_add now (SNAPSHOT_QUARANTINE_RETRY_SECONDS * 2)) :
    (s.quarantine_retryable_body fingerprint body retry_after now).toDurable.Kept ns session_of
      now :=
  ⟨quarantine_retryable_body_loadable h.loadable hfp hbody hafter, h.bound.revisions,
    h.bound.sessions⟩

/-! ## The start of a cycle -/

theorem reserve_kept (h : s.toDurable.Kept ns session_of now) {fp : String} {at_now : Nat} :
    (s.reserve_reason_reoffer fp body at_now).toDurable.Kept ns session_of now := by
  refine ⟨reserve_loadable h.loadable, ?_, ?_⟩
  · intro found refusal hget
    unfold reserve_reason_reoffer at hget
    split at hget
    · exact h.bound.revisions found refusal hget
    · rename_i old hold
      exact forall_insert (h.bound.revisions fp old hold) h.bound.revisions _ _ hget
  · unfold reserve_reason_reoffer
    split <;> exact h.bound.sessions

theorem collect_due_kept (h : s.toDurable.Kept ns session_of now) {reoffer : Option Scope} :
    (s.collect_due reoffer).1.toDurable.Kept ns session_of now := by
  cases reoffer with
  | none => exact h
  | some scope =>
    refine ⟨collect_due_loadable h.loadable, ?_, ?_⟩
    · intro fp refusal hget
      unfold collect_due collect_due_reason_reoffers at hget
      dsimp only at hget
      split at hget
      · exact h.bound.revisions fp refusal hget
      · rw [get?_mapValues] at hget
        obtain ⟨old, hold, rfl⟩ := Option.map_eq_some_iff.mp hget
        intro key revision hrevision
        apply h.bound.revisions fp old hold key revision
        unfold reclamp at hrevision
        split at hrevision <;> exact hrevision
    · unfold collect_due collect_due_reason_reoffers
      dsimp only
      split <;> exact h.bound.sessions

theorem restore_from_index_bound {state : SnapshotUploadProgress × Bool}
    {e : String × SnapshotQuarantineRecord} (h : state.1.toDurable.Bound session_of) :
    (restore_from_index state e).1.toDurable.Bound session_of := by
  unfold restore_from_index
  dsimp only
  split <;> exact ⟨h.revisions, h.sessions⟩

theorem restore_quarantines_kept (h : s.toDurable.Kept ns session_of now)
    {index : SortedMap String SnapshotQuarantineRecord} (hindex : IsIndexQuarantine now index) :
    (s.restore_quarantines index).1.toDurable.Kept ns session_of now := by
  refine ⟨restore_quarantines_loadable h.loadable hindex, ?_⟩
  have hfold : ∀ (entries : List (String × SnapshotQuarantineRecord))
      (state : SnapshotUploadProgress × Bool), state.1.toDurable.Bound session_of →
      (entries.foldl restore_from_index state).1.toDurable.Bound session_of := by
    intro entries
    induction entries with
    | nil => exact fun state hstate => hstate
    | cons e rest ih => exact fun state hstate => ih _ (restore_from_index_bound hstate)
  have hbrought := hfold index.entries
    (s.reset_cycle.drop_accepted, s.terminal_contract_retry_pending_save)
    ⟨h.bound.revisions, h.bound.sessions⟩
  exact ⟨hbrought.revisions, hbrought.sessions⟩

end SnapshotUploadProgress

namespace Selection

open SnapshotUploadProgress

variable {ns : String} {session_of : String → String} {now : Nat} {s : Selection}

theorem select_kept {at_now : Nat} {fps : List String}
    (h : s.ledger.toDurable.Kept ns session_of now) :
    (select at_now fps s).ledger.toDurable.Kept ns session_of now := by
  induction fps generalizing s with
  | nil => exact h
  | cons fp rest ih =>
    unfold select
    split
    · exact h
    apply ih
    unfold select_one
    split
    · split
      · exact h
      · exact reserve_kept h
    · exact h

theorem leased_bound (h : s.ledger.toDurable.Bound session_of) :
    (s.leased now).toDurable.Bound session_of := ⟨h.revisions, h.sessions⟩

end Selection

namespace SnapshotUploadProgress

variable {ns : String} {session_of : String → String} {now : Nat} {s : SnapshotUploadProgress}

theorem selection_kept (h : s.toDurable.Kept ns session_of now) {reoffer : Option Scope} :
    (s.selection reoffer now).ledger.toDurable.Kept ns session_of now := by
  exact Selection.select_kept (collect_due_kept h)

theorem prepare_kept (h : s.toDurable.Kept ns session_of now)
    {index : SortedMap String SnapshotQuarantineRecord} (hindex : IsIndexQuarantine now index)
    {reoffer : Option Scope} :
    (s.prepare_quarantine_and_reason_retries index reoffer now).1.toDurable.Kept ns session_of
      now := by
  refine ⟨prepare_loadable h.loadable hindex, ?_⟩
  exact Selection.leased_bound (selection_kept (restore_quarantines_kept h hindex)).bound

theorem prepare_historical_replay_kept (h : s.toDurable.Kept ns session_of now)
    {generation : String} :
    (s.prepare_historical_replay generation).toDurable.Kept ns session_of now := by
  unfold prepare_historical_replay
  split
  · exact h
  have hpending : ∀ file left, (s.pending_cache_heads.mapValues (fun pending =>
      { pending with settled_entities := ∅, reselected_heads := .empty })).get? file = some left →
      ∃ pending, s.pending_cache_heads.get? file = some pending ∧ left =
        { pending with settled_entities := ∅, reselected_heads := .empty } := by
    intro file left hget
    rw [get?_mapValues] at hget
    obtain ⟨pending, hold, rfl⟩ := Option.map_eq_some_iff.mp hget
    exact ⟨pending, hold, rfl⟩
  constructor
  · constructor
    · exact h.loadable.schema
    · exact h.loadable.destination
    · simp [SortedMap.contains]
    · simp
    · simp
    · exact h.loadable.heads
    · intro file left hget
      obtain ⟨pending, hold, rfl⟩ := hpending file left hget
      have hok := pending_is_loadable_iff.mp (h.loadable.pending file pending hold)
      apply pending_is_loadable_iff.mpr
      exact ⟨hok.file, hok.source, hok.group, hok.nonempty, by simp, by simp, hok.entities⟩
    · simp
    · exact h.loadable.refusals
  · refine ⟨h.bound.revisions, ?_⟩
    intro file left hget
    obtain ⟨pending, hold, rfl⟩ := hpending file left hget
    exact h.bound.sessions file pending hold

/-! ## The ACKs that are retired -/

theorem retain_acks_kept (h : s.toDurable.Kept ns session_of now) {keep : String → Bool} :
    (s.retain_acks keep).toDurable.Kept ns session_of now := by
  refine ⟨?_, h.bound.revisions, h.bound.sessions⟩
  apply h.loadable.with_accepted
  · intro fp
    rw [Finset.mem_filter, h.loadable.accepted fp]
    simp only [SortedMap.contains, get?_filterKeys]
    cases keep fp <;> simp
  · exact fun fp body hget => h.loadable.witnesses fp body (get?_of_filterKeys hget)
  · exact fun fp context hget => hget

theorem retire_listed_kept (h : s.toDurable.Kept ns session_of now) {saved : ScanIndex}
    {retired locally_held : Finset String} :
    (s.retire_listed_acks_after_index_save saved retired locally_held).toDurable.Kept ns session_of
      now := by
  unfold retire_listed_acks_after_index_save
  split
  · exact h
  · exact retain_acks_kept h

theorem release_acks_kept (h : s.toDurable.Kept ns session_of now) {previous saved : ScanIndex}
    {scan_referenced : AckScanReferences} {locally_held : Finset String} {keep_adopted : Bool} :
    (s.release_acks_after_partial_index_save_with_scan previous saved scan_referenced locally_held
      keep_adopted).toDurable.Kept ns session_of now := by
  unfold release_acks_after_partial_index_save_with_scan
  split
  · exact retain_acks_kept h
  · exact retire_listed_kept h

theorem forget_acks_kept (h : s.toDurable.Kept ns session_of now) {retired : Finset String} :
    (s.forget_acks retired).toDurable.Kept ns session_of now := by
  refine ⟨?_, h.bound.revisions, h.bound.sessions⟩
  apply h.loadable.with_accepted
  · intro fp
    rw [Finset.mem_sdiff, h.loadable.accepted fp]
    simp only [SortedMap.contains, get?_filterKeys, decide_eq_true_eq]
    by_cases hmem : fp ∈ retired <;> simp [hmem]
  · exact fun fp body hget => h.loadable.witnesses fp body (get?_of_filterKeys hget)
  · exact fun fp context hget => hget

/-! ## Saves and reloads -/

theorem retain_contexts_kept (h : s.toDurable.Kept ns session_of now) :
    s.retain_contexts.toDurable.Kept ns session_of now := by
  refine ⟨?_, h.bound.revisions, h.bound.sessions⟩
  apply h.loadable.with_accepted h.loadable.accepted h.loadable.witnesses
  exact fun fp context hget => get?_of_filterKeys hget

variable {disk : Option Durable}

theorem unsaved_kept (h : s.toDurable.Kept ns session_of now)
    (hdisk : ∀ d ∈ disk, d.Kept ns session_of now) :
    (s.unsaved disk).toDurable.Kept ns session_of now := by
  have hcontexts := retain_contexts_kept h
  unfold unsaved
  split
  · exact hcontexts
  rename_i current
  split
  · exact hcontexts
  exact ⟨merge_index_loadable hcontexts.loadable (fun fp record hget =>
      ((hdisk current rfl).loadable.quarantined fp record hget).2),
    hcontexts.bound.revisions, hcontexts.bound.sessions⟩

/-- Every context of what is saved is that of an accepted body. -/
theorem unsaved_contexts {fp context : String}
    (hget : (s.unsaved disk).accepted_body_contexts.get? fp = some context) :
    (s.unsaved disk).accepted_body_witnesses.contains fp = true := by
  have hcontexts : s.retain_contexts.accepted_body_contexts.get? fp = some context →
      s.accepted_body_witnesses.contains fp = true := by
    intro hretained
    simp only [retain_contexts, get?_filterKeys] at hretained
    split at hretained
    · assumption
    · cases hretained
  unfold unsaved at hget ⊢
  split
  · exact hcontexts hget
  · dsimp only at hget
    split at hget
    · rename_i hwriter
      rw [if_pos hwriter]
      exact hcontexts hget
    · rename_i hwriter
      rw [if_neg hwriter]
      exact hcontexts hget

/-- A save writes what a failed one leaves, under the next generation or none. -/
theorem save_spec {saved : SnapshotUploadProgress} (h : s.save disk = .ok saved) :
    ∃ generation, saved = { s.unsaved disk with generation } := by
  have hnext : ∀ {t : SnapshotUploadProgress}, t.next_generation = .ok saved →
      saved = { t with generation := t.generation + 1 } := by
    intro t ht
    unfold next_generation at ht
    split at ht
    · cases ht
    · cases ht
      rfl
  unfold save at h
  unfold unsaved
  split at h
  · split at h
    · cases h
    · exact ⟨_, hnext h⟩
  · rename_i current
    split at h
    · cases h
    · rename_i hwriter
      rw [if_neg hwriter]
      dsimp only at h
      split at h
      · cases h
        exact ⟨_, rfl⟩
      · exact ⟨_, hnext h⟩

theorem save_kept (h : s.toDurable.Kept ns session_of now)
    (hdisk : ∀ d ∈ disk, d.Kept ns session_of now) {saved : SnapshotUploadProgress}
    (hsaved : s.save disk = .ok saved) (hns : is_snapshot_fingerprint ns = true) :
    saved.toDurable.Kept ns session_of now ∧ saved.toDurable.is_loadable now ns = true := by
  obtain ⟨generation, rfl⟩ := save_spec hsaved
  have hunsaved := unsaved_kept h hdisk
  have hkept : ({ s.unsaved disk with generation } : SnapshotUploadProgress).toDurable.Kept ns
      session_of now :=
    ⟨{ hunsaved.loadable with }, hunsaved.bound.revisions, hunsaved.bound.sessions⟩
  exact ⟨hkept, hkept.loadable.loads hns (fun fp context hget => unsaved_contexts hget)⟩

theorem resume_kept {d : Durable} (h : d.Kept ns session_of now)
    {active_quarantine_witness : SnapshotQuarantineWitness} {ack_recovery : Bool} :
    (resume d active_quarantine_witness now ack_recovery).toDurable.Kept ns session_of now := by
  refine ⟨?_, h.bound.revisions, h.bound.sessions⟩
  apply h.loadable.with_quarantined
  intro fp record hget
  rw [get?_filterMap_some] at hget
  obtain ⟨old, hold, rfl⟩ := Option.map_eq_some_iff.mp hget
  refine ⟨(h.loadable.quarantined fp old hold).1, ?_⟩
  have hrecord := (h.loadable.quarantined fp old hold).2
  cases hrearm : rearmed d active_quarantine_witness now fp old with
  | none => exact hrecord
  | some rearmed =>
    unfold SnapshotUploadProgress.rearmed at hrearm
    split at hrearm
    · cases hrearm
    · exact rearm_record_loadable hrecord hrearm

end SnapshotUploadProgress

/-! ## Runs -/

/-- When the callers of `quarantine_retryable_body` ask for the next try. -/
inductive RetryAfter where
  | refused
  | owed_now
  | conflict_probe
  | identity_deferred (shed_backoff : Nat)

def RetryAfter.at (fingerprint : String) (now : Nat) : RetryAfter → Nat
  | .refused => quarantine_retry_after fingerprint now
  | .owed_now => now
  | .conflict_probe => jittered_retry_after fingerprint now SNAPSHOT_CONFLICT_PROBE_SECONDS
  | .identity_deferred shed_backoff =>
    u64_saturating_add now (min shed_backoff MAX_HONOURED_RETRY_AFTER)

/-- An operation of the ledger, its saves and a restart between them. `answered_at` is the
clock as the caller read it. -/
inductive LedgerOp where
  | record_body (fingerprint body : String)
  | quarantine_body (fingerprint body : String)
  | quarantine_permanent_body (fingerprint body reason : String)
  | hold_unstored_body (fingerprint body : String)
  | quarantine_retryable_body (fingerprint body : String) (retry : RetryAfter) (answered_at : Nat)
  | begin_context (cycle : Cycle)
  | prepare_quarantine_and_reason_retries (index : SortedMap String SnapshotQuarantineRecord)
      (reoffer : Option Scope)
  | retain_current_quarantines (current : Finset String)
  | defer_held_quarantine_retries (offered : Finset String) (index : ScanIndex)
  | prepare_historical_replay (generation : String)
  | record_pending_cache_head_identity (source : Option String) (fingerprint session : String)
      (groups : Groups) (actually_deferred : Bool)
  | retire_pending_cache_heads (index : ScanIndex) (items : List SnapshotItem)
      (held : Finset String) (census_complete : Bool)
      (witnesses : SortedMap String (Option String))
  | retire_listed_acks_after_index_save (saved : ScanIndex) (retired held : Finset String)
  | release_acks_after_partial_index_save_with_scan (previous saved : ScanIndex)
      (scan_referenced : AckScanReferences) (held : Finset String) (keep_adopted : Bool)
  | forget_handed_off_acks (saved : ScanIndex)
  | save
  | finish_cycle
  | reload (active_quarantine_witness : SnapshotQuarantineWitness) (ack_recovery : Bool)

/-- The ledger in memory, what its path holds, and the last reading of the clock. -/
structure LedgerState where
  ledger : SnapshotUploadProgress
  disk : Option Durable
  now : Nat

namespace LedgerOp

open SnapshotUploadProgress

/-- Fingerprints and witnesses are 64 hex digits, an entity has one session, and an index
brings records that its own loader accepts. -/
def Valid (session_of : String → String) (now : Nat) : LedgerOp → Prop
  | .record_body fingerprint body
  | .quarantine_body fingerprint body
  | .quarantine_permanent_body fingerprint body _
  | .hold_unstored_body fingerprint body =>
    is_snapshot_fingerprint fingerprint = true ∧ is_snapshot_fingerprint body = true
  | .quarantine_retryable_body fingerprint body _ answered_at =>
    is_snapshot_fingerprint fingerprint = true ∧ is_snapshot_fingerprint body = true ∧
      answered_at ≤ now
  | .prepare_quarantine_and_reason_retries index _ => IsIndexQuarantine now index
  | .record_pending_cache_head_identity _ fingerprint session groups _ =>
    GroupsOk groups ∧ is_snapshot_fingerprint fingerprint = true ∧
      is_snapshot_fingerprint session = true ∧ session = session_of fingerprint
  | _ => True

/-- What an operation that touches no file makes of the ledger. -/
def apply (s : SnapshotUploadProgress) (now : Nat) : LedgerOp → SnapshotUploadProgress
  | .record_body fingerprint body => s.record_body fingerprint body
  | .quarantine_body fingerprint body => s.quarantine_body fingerprint body now
  | .quarantine_permanent_body fingerprint body reason =>
    s.quarantine_permanent_body fingerprint body reason now
  | .hold_unstored_body fingerprint body => s.hold_unstored_body fingerprint body now
  | .quarantine_retryable_body fingerprint body retry answered_at =>
    s.quarantine_retryable_body fingerprint body (retry.at fingerprint answered_at) now
  | .begin_context cycle => { s with context_resend := cycle }
  | .prepare_quarantine_and_reason_retries index reoffer =>
    (s.prepare_quarantine_and_reason_retries index reoffer now).1
  | .retain_current_quarantines current => s.retain_current_quarantines current
  | .defer_held_quarantine_retries offered index =>
    s.defer_held_quarantine_retries offered index now
  | .prepare_historical_replay generation => s.prepare_historical_replay generation
  | .record_pending_cache_head_identity source fingerprint session groups deferred =>
    match s.record_pending_cache_head_identity source fingerprint session groups deferred with
    | .ok (recorded, _) => recorded
    | .error _ => s
  | .retire_pending_cache_heads index items held census_complete witnesses =>
    s.retire_pending_cache_heads index items held census_complete witnesses
  | .retire_listed_acks_after_index_save saved retired held =>
    s.retire_listed_acks_after_index_save saved retired held
  | .release_acks_after_partial_index_save_with_scan previous saved scan_referenced held keep =>
    s.release_acks_after_partial_index_save_with_scan previous saved scan_referenced held keep
  | .forget_handed_off_acks saved => s.forget_acks (s.saved_handoff_retirements saved)
  | .save | .finish_cycle | .reload _ _ => s

end LedgerOp

namespace LedgerState

open SnapshotUploadProgress

variable (st : LedgerState)

/-- A save, with what a failed one leaves. -/
def saved (s : SnapshotUploadProgress) : LedgerState :=
  match s.save st.disk with
  | .ok saved => { st with ledger := saved, disk := some saved.toDurable }
  | .error _ => { st with ledger := s.unsaved st.disk }

def finish_cycle : LedgerState :=
  if st.ledger.is_clearable then
    match st.ledger.clear st.disk with
    | .ok disk => { st with disk }
    | .error _ => st
  else st.saved st.ledger.finished

def load (ns : String) (active_quarantine_witness : SnapshotQuarantineWitness)
    (ack_recovery : Bool) : LedgerState :=
  let (ledger, disk) :=
    load_with_recovery st.disk ns active_quarantine_witness ack_recovery st.now
  { st with ledger, disk }

def step (ns : String) (e : Nat × LedgerOp) : LedgerState :=
  let st := { st with now := e.1 }
  match e.2 with
  | .save => st.saved st.ledger
  | .finish_cycle => st.finish_cycle
  | .reload active_quarantine_witness ack_recovery => st.load ns active_quarantine_witness ack_recovery
  | op => { st with ledger := op.apply st.ledger e.1 }

end LedgerState

/-- A 64-bit clock that does not run backwards, over operations that are valid when they
run. -/
def ValidRun (session_of : String → String) : Nat → List (Nat × LedgerOp) → Prop
  | _, [] => True
  | now, (later, op) :: rest =>
    now ≤ later ∧ later ≤ u64_max ∧ op.Valid session_of later ∧ ValidRun session_of later rest

/-- A new ledger, or the one that a path holds, after a list of operations. -/
def ledger_run (ns : String) (active_quarantine_witness : SnapshotQuarantineWitness)
    (ack_recovery : Bool) (disk : Option Durable) (now : Nat) (ops : List (Nat × LedgerOp)) :
    LedgerState :=
  ops.foldl (LedgerState.step · ns ·)
    (LedgerState.load ⟨.new ns active_quarantine_witness, disk, now⟩ ns active_quarantine_witness
      ack_recovery)

/-! ## What a run keeps -/

variable {now : Nat}

theorem RetryAfter.at_le {fingerprint : String} {answered_at : Nat} (hle : answered_at ≤ now)
    (hnow : now ≤ u64_max) (retry : RetryAfter) :
    retry.at fingerprint answered_at ≤
      u64_saturating_add now (SNAPSHOT_QUARANTINE_RETRY_SECONDS * 2) := by
  apply le_trans _ (u64_saturating_add_mono hle le_rfl)
  cases retry with
  | refused => exact quarantine_retry_after_le fingerprint answered_at
  | owed_now =>
    apply le_min
    · exact Nat.le_add_right answered_at _
    · exact hle.trans hnow
  | conflict_probe =>
    apply (jittered_retry_after_le fingerprint answered_at (by decide)).trans
    exact u64_saturating_add_mono le_rfl (by decide)
  | identity_deferred shed_backoff =>
    apply u64_saturating_add_mono le_rfl
    exact (Nat.min_le_right _ _).trans (by decide)

open SnapshotUploadProgress in
theorem LedgerOp.apply_kept {ns : String} {session_of : String → String}
    {s : SnapshotUploadProgress} {op : LedgerOp} (h : s.toDurable.Kept ns session_of now)
    (hnow : now ≤ u64_max) (hop : op.Valid session_of now) :
    (op.apply s now).toDurable.Kept ns session_of now := by
  cases op with
  | record_body fingerprint body => exact record_body_kept h hop.1 hop.2
  | quarantine_body fingerprint body => exact quarantine_body_kept h hop.1 hop.2
  | quarantine_permanent_body fingerprint body reason =>
    exact quarantine_permanent_body_kept h hop.1 hop.2
  | hold_unstored_body fingerprint body => exact hold_unstored_body_kept h hop.1 hop.2
  | quarantine_retryable_body fingerprint body retry answered_at =>
    exact quarantine_retryable_body_kept h hop.1 hop.2.1 (retry.at_le hop.2.2 hnow)
  | begin_context cycle => exact h
  | prepare_quarantine_and_reason_retries index reoffer => exact prepare_kept h hop
  | retain_current_quarantines current =>
    exact ⟨retain_current_quarantines_loadable h.loadable, h.bound.revisions, h.bound.sessions⟩
  | defer_held_quarantine_retries offered index =>
    exact ⟨defer_held_quarantine_retries_loadable h.loadable, h.bound.revisions, h.bound.sessions⟩
  | prepare_historical_replay generation => exact prepare_historical_replay_kept h
  | record_pending_cache_head_identity source fingerprint session groups deferred =>
    obtain ⟨hgroups, hfp, hsession, hof⟩ := hop
    simp only [LedgerOp.apply]
    cases hrecorded : s.record_pending_cache_head_identity source fingerprint session groups
        deferred with
    | error error => exact h
    | ok recorded =>
      obtain ⟨hloadable, hbound⟩ :=
        record_pending_loadable h.loadable h.bound hgroups hfp hsession hof hrecorded
      exact ⟨hloadable, hbound⟩
  | retire_pending_cache_heads index items held census_complete witnesses =>
    obtain ⟨hloadable, hbound⟩ := retire_pending_cache_heads_loadable h.loadable h.bound
    exact ⟨hloadable, hbound⟩
  | retire_listed_acks_after_index_save saved retired held => exact retire_listed_kept h
  | release_acks_after_partial_index_save_with_scan previous saved scan_referenced held keep =>
    exact release_acks_kept h
  | forget_handed_off_acks saved => exact forget_acks_kept h
  | save => exact h
  | finish_cycle => exact h
  | reload active_quarantine_witness ack_recovery => exact h

theorem Durable.is_loadable_later {ns : String} {d : Durable} {later : Nat} (hle : now ≤ later)
    (h : d.is_loadable now ns = true) : d.is_loadable later ns = true := by
  have hloadable := (Durable.loadable_of_is_loadable h).later hle
  unfold Durable.is_loadable at h
  simp only [Bool.and_eq_true, beq_iff_eq, all_eq_true] at h
  obtain ⟨⟨⟨⟨⟨⟨⟨⟨⟨⟨⟨⟨-, hdest⟩, hns⟩, -⟩, -⟩, -⟩, -⟩, hcontexts⟩, -⟩, -⟩, -⟩, -⟩, -⟩ := h
  rw [hdest] at hns
  apply hloadable.loads hns
  intro fp context hget
  exact (hcontexts (fp, context) (mem_entries.mpr hget)).1

namespace LedgerState

/-- The ledger in memory, and what its loader makes of the path. -/
structure Kept (ns : String) (session_of : String → String) (st : LedgerState) : Prop where
  ledger : st.ledger.toDurable.Kept ns session_of st.now
  disk : ∀ d ∈ st.disk, d.Kept ns session_of st.now ∧ d.is_loadable st.now ns = true

variable {ns : String} {session_of : String → String} {st : LedgerState}

theorem Kept.later {later : Nat} (hle : st.now ≤ later) (h : st.Kept ns session_of) :
    Kept ns session_of { st with now := later } where
  ledger := h.ledger.later hle
  disk := fun d hd => ⟨(h.disk d hd).1.later hle, Durable.is_loadable_later hle (h.disk d hd).2⟩

theorem saved_kept (hns : is_snapshot_fingerprint ns = true) (h : st.Kept ns session_of)
    {s : SnapshotUploadProgress} (hs : s.toDurable.Kept ns session_of st.now) :
    (st.saved s).Kept ns session_of := by
  have hdisk : ∀ d ∈ st.disk, d.Kept ns session_of st.now := fun d hd => (h.disk d hd).1
  unfold saved
  cases hsaved : s.save st.disk with
  | error error => exact ⟨unsaved_kept hs hdisk, h.disk⟩
  | ok saved =>
    have hkept := save_kept hs hdisk hsaved hns
    refine ⟨hkept.1, ?_⟩
    intro d hd
    cases hd
    exact hkept

theorem finish_cycle_kept (hns : is_snapshot_fingerprint ns = true) (h : st.Kept ns session_of) :
    st.finish_cycle.Kept ns session_of := by
  unfold finish_cycle
  split
  · split
    · rename_i disk hclear
      refine ⟨h.ledger, ?_⟩
      intro d hd
      -- A cleared path holds nothing.
      unfold SnapshotUploadProgress.clear at hclear
      split at hclear <;> split at hclear <;> cases hclear <;> cases hd
    · exact h
  · apply saved_kept hns h
    exact ⟨finished_loadable h.ledger.loadable, h.ledger.bound.revisions,
      h.ledger.bound.sessions⟩

theorem load_kept (hdisk : ∀ d ∈ st.disk, d.Bound session_of)
    {active_quarantine_witness : SnapshotQuarantineWitness} {ack_recovery : Bool} :
    (st.load ns active_quarantine_witness ack_recovery).Kept ns session_of := by
  have hnew : Durable.Kept ns session_of st.now { destination_namespace_hash := ns } :=
    ⟨.of_new, .of_new⟩
  unfold load load_with_recovery
  split
  rename_i ledger disk hload
  split at hload
  · cases hload
    exact ⟨hnew, by simp⟩
  · rename_i d hd
    split at hload
    · rename_i hloads
      cases hload
      have hkept : d.Kept ns session_of st.now :=
        ⟨Durable.loadable_of_is_loadable hloads, hdisk d hd⟩
      refine ⟨resume_kept hkept, ?_⟩
      intro found hfound
      cases hfound
      exact ⟨hkept, hloads⟩
    · cases hload
      exact ⟨hnew, by simp⟩

theorem step_kept (hns : is_snapshot_fingerprint ns = true) (h : st.Kept ns session_of)
    {later : Nat} {op : LedgerOp} (hle : st.now ≤ later) (hlater : later ≤ u64_max)
    (hop : op.Valid session_of later) : (st.step ns (later, op)).Kept ns session_of := by
  have hnow := h.later hle
  have happly : Kept ns session_of { st with ledger := op.apply st.ledger later, now := later } :=
    ⟨LedgerOp.apply_kept hnow.ledger hlater hop, hnow.disk⟩
  cases op with
  | save => exact saved_kept hns hnow hnow.ledger
  | finish_cycle => exact finish_cycle_kept hns hnow
  | reload active_quarantine_witness ack_recovery =>
    exact load_kept (fun d hd => (hnow.disk d hd).1.bound)
  | _ => exact happly

theorem step_now {later : Nat} {op : LedgerOp} : (st.step ns (later, op)).now = later := by
  have hsaved : ∀ (st : LedgerState) (s : SnapshotUploadProgress), (st.saved s).now = st.now := by
    intro st s
    unfold saved
    split <;> rfl
  cases op with
  | save => exact hsaved _ _
  | finish_cycle =>
    simp only [step, finish_cycle]
    split
    · split <;> rfl
    · exact hsaved _ _
  | _ => rfl

theorem run_kept (hns : is_snapshot_fingerprint ns = true) {ops : List (Nat × LedgerOp)}
    (h : st.Kept ns session_of) (hops : ValidRun session_of st.now ops) :
    (ops.foldl (LedgerState.step · ns ·) st).Kept ns session_of := by
  induction ops generalizing st with
  | nil => exact h
  | cons e rest ih =>
    obtain ⟨later, op⟩ := e
    obtain ⟨hle, hlater, hop, hrest⟩ := hops
    have hstep := step_kept hns h hle hlater hop
    apply ih hstep
    rw [step_now]
    exact hrest

end LedgerState

/-! ## What a save writes loads again -/

/-- After any run from a new or a loaded ledger, at any later time, the loader takes what
the path holds as it is. -/
theorem what_a_save_writes_loads_again {ns : String} {session_of : String → String}
    {active_quarantine_witness : SnapshotQuarantineWitness} {ack_recovery : Bool}
    {disk : Option Durable} {now : Nat} {ops : List (Nat × LedgerOp)}
    (hns : is_snapshot_fingerprint ns = true) (hdisk : ∀ d ∈ disk, d.Bound session_of)
    (hops : ValidRun session_of now ops) {d : Durable}
    (hd : (ledger_run ns active_quarantine_witness ack_recovery disk now ops).disk = some d)
    {later : Nat}
    (hlater : (ledger_run ns active_quarantine_witness ack_recovery disk now ops).now ≤ later) :
    d.is_loadable later ns = true ∧
      ∀ reloading ack_recovery,
        load_with_recovery (some d) ns reloading ack_recovery later =
          (SnapshotUploadProgress.resume d reloading later ack_recovery, some d) := by
  have hkept : (ledger_run ns active_quarantine_witness ack_recovery disk now ops).Kept ns
      session_of := by
    apply LedgerState.run_kept hns (LedgerState.load_kept hdisk)
    exact hops
  have hloads := Durable.is_loadable_later hlater (hkept.disk d hd).2
  refine ⟨hloads, ?_⟩
  intro reloading ack_recovery
  simp only [load_with_recovery]
  rw [if_pos hloads]

theorem replicate_is_fingerprint {c : Char} (hsize : c.utf8Size = 1)
    (hc : is_ascii_hexdigit c = true) :
    is_snapshot_fingerprint (String.ofList (List.replicate 64 c)) = true := by
  have hlen : ∀ n, String.utf8Len (List.replicate n c) = n := by
    intro n
    induction n with
    | zero => rfl
    | succ n ih => simp [replicate_succ, ih, hsize]
  unfold is_snapshot_fingerprint
  rw [String.toList_ofList, String.utf8ByteSize_ofList, hlen, Bool.and_eq_true, all_eq_true]
  refine ⟨rfl, ?_⟩
  intro d hd
  rw [eq_of_mem_replicate hd]
  exact hc

/-- One body accepted and one refused for good, then saved. -/
theorem an_accepted_and_a_refused_body_load_again :
    let digits (c : Char) := String.ofList (List.replicate 64 c)
    let witness : SnapshotQuarantineWitness := ⟨"v1", "", "", "2", 3, "", 1024⟩
    let ops := [(10, .record_body (digits 'a') (digits 'B')),
      (20, .quarantine_permanent_body (digits 'c') (digits 'd') "body_exceeds_max_bytes"),
      (30, .save)]
    ∃ d, (ledger_run (digits '0') witness false none 0 ops).disk = some d ∧
      d.is_loadable 40 (digits '0') = true := by
  intro digits witness ops
  have h0 : is_snapshot_fingerprint (digits '0') = true := replicate_is_fingerprint rfl rfl
  have hops : ValidRun id 0 ops :=
    ⟨by decide, by decide, ⟨replicate_is_fingerprint rfl rfl, replicate_is_fingerprint rfl rfl⟩,
      by decide, by decide, ⟨replicate_is_fingerprint rfl rfl, replicate_is_fingerprint rfl rfl⟩,
      by decide, by decide, trivial, trivial⟩
  obtain ⟨d, hd⟩ : ∃ d, (ledger_run (digits '0') witness false none 0 ops).disk = some d :=
    ⟨_, rfl⟩
  have hnow : (ledger_run (digits '0') witness false none 0 ops).now ≤ 40 := by decide
  exact ⟨d, hd,
    (what_a_save_writes_loads_again h0 (by simp) hops hd hnow).1⟩

end ottto_service.snapshot_sync
