-- Which files a scan reads again (snapshots/scan_index/candidate_decision.rs): the gates
-- that a candidate passes in order, each of which skips the file or selects it.
import Ottto.Committable
import Ottto.CopyRemovals

namespace ottto_service.snapshots.candidate_decision

open claude_copy_removals (CopyRemovals)
open claude_money_birth_store (location_key)
open durable_tail_codec.Durable (to_le_bytes)

def LOCAL_SCAN_INDEX_IDENTITY_VERSION : String := "semantic_sync:v2"
def JSONL_TERMINAL_DISPOSITION_GENERATION : String :=
  "bounded_jsonl_terminal:v1:max_line_bytes=16777216"
def AUDIT_INTERVAL_SECONDS : Nat := 3600
def PRE_E2_TERMINAL_DEADLINE_CUTOFF : Nat := 1793167200

/-- The reader of timestamps, and the system clock. -/
structure Outside where
  rfc3339 : String → Bool
  clock : Nat

def sha256 : claude_money_birth_store.Outside where
  sha256 := fun bytes => ⟨Sha256.digest bytes, Sha256.digest_length bytes⟩

/-! ## Candidates -/

structure CandidateFile where
  physical_identity : Option (UInt64 × UInt64)
  path : String
  size_bytes : UInt64
  modified_unix_seconds : UInt64
  modified_unix_nanos : UInt64
  source_file_fingerprint : String
  legacy_source_file_fingerprint : String
  legacy_config_reconciliation_required : Bool
  fingerprint_birth_nanos : UInt64
  withheld_content_stamp : Option String

/-- `local_index_key` -/
def CandidateFile.key (candidate : CandidateFile) : String := candidate.path

inductive CandidateDecision where
  | Skip
  | Migrate
  | ReconcileLegacy
  | Parse
deriving DecidableEq

inductive CandidateParseReason where
  | TerminalDisposition
  | NewFile
  | AuthorityQuarantine
  | Audit
  | BodyWitnessAdoption
  | ActivityOrQuarantineRetry
  | TranscriptChanged
  | CodexCapture
  | UnknownOutcome
  | LegacyActivity
  | LegacyIdentity
  | Rearmed
  | SourceChanged

/-- The root of a Claude family and the subagent's stem, which the root itself has not. -/
def claude_index_path_member_ref (path : String) : Option (List Char × Option (List Char)) := do
  let name ← identity.file_name path
  let stem := identity.file_stem name
  if name ≠ stem ++ ".jsonl".toList then none
  let components := (path.toList.splitOn '/').filter (fun part => part ≠ [] ∧ part ≠ ['.'])
  let directories := components.dropLast.reverse.filter (fun part => part ≠ ['.', '.'])
  match (directories.dropWhile (fun part => part ≠ "subagents".toList)).drop 1 with
  | root :: _ => if stem = "journal".toList then none else some (root, some stem)
  | [] => some (stem, none)

/-- The root and the member. -/
def claude_index_path_family_member (path : String) : Option (String × String) :=
  (claude_index_path_member_ref path).map (fun (root, subagent_stem) =>
    (String.ofList root, match subagent_stem with
      | some stem => String.ofList (root ++ '_' :: stem)
      | none => String.ofList root))

/-! ## Certified fragments (codex_fragment.rs) -/

structure ContentStamp where
  dev : UInt64
  ino : UInt64
  extent : UInt64
  modified : Int64 × Int64
deriving DecidableEq

structure Stamp where
  content : ContentStamp
  birth : UInt64
deriving DecidableEq

def Stamp.candidate (candidate : CandidateFile) : Option Stamp :=
  if candidate.fingerprint_birth_nanos = 0 then none
  else candidate.physical_identity.map (fun (dev, ino) =>
    { content := {
        dev, ino
        extent := candidate.size_bytes
        modified := ((candidate.modified_unix_nanos / 1000000000).toInt64,
          (candidate.modified_unix_nanos % 1000000000).toInt64) }
      birth := candidate.fingerprint_birth_nanos })

structure BoundFragment where
  offset : UInt64
  stamp : Stamp

/-- `BoundFragment::matches` -/
def BoundFragment.binds (self : BoundFragment) (committed len : UInt64) (stamp : Option Stamp) : Bool :=
  committed == self.offset && len == self.stamp.content.extent &&
    stamp.any (fun stamp => self.stamp == stamp)

/-! ## Entries -/

structure ScanIndexEntry extends toRecorded : snapshots.ScanIndexEntry where
  codex_fragment : Option BoundFragment := none
  size_bytes : UInt64 := 0
  modified_unix_seconds : UInt64 := 0
  modified_unix_nanos : Option UInt64 := none
  effective_upload_body_witness_revision : UInt64 := 0
  opened_birth_nanos : UInt64 := 0

namespace ScanIndexEntry

variable (self : ScanIndexEntry)

def same_stamp_with_mtime (stored_modified_nanos : Option UInt64) (len : UInt64)
    (modified_nanos birth_nanos : Option UInt64) (fragment : Option Stamp) : Bool :=
  (self.size_bytes == len ||
      self.codex_fragment.any (fun bound => bound.binds self.size_bytes len fragment)) &&
    modified_nanos.isSome && stored_modified_nanos == modified_nanos &&
    (self.opened_birth_nanos == 0 || birth_nanos == some self.opened_birth_nanos)

/-- When the audit is due. -/
def audit_obligation (now : Nat) : Option Nat :=
  if self.has_unverified_source then
    some ((self.unverified_deadline.filter (fun deadline => decide (0 < deadline) &&
      decide (now + AUDIT_INTERVAL_SECONDS ≤ u64_max) &&
      decide (deadline ≤ now + AUDIT_INTERVAL_SECONDS))).getD now)
  else none

def audit_requires_full (now : Nat) : Bool :=
  (self.audit_obligation now).any (fun due => decide (due ≤ now))

/-- Captured selector evidence. -/
def captured : Bool :=
  self.codex_captured_uncommitted || self.codex_captured_tier_receipt_required ||
    self.codex_captured_joined_member_set.isSome

end ScanIndexEntry

/-! ## Authority over Claude families -/

inductive ClaudeUsageAuthorityQuarantineDisposition where
  | RetryPending
  | UnprovenTerminal
deriving DecidableEq

structure ClaudeAuthorityProofCorrection where
  owed_member_ids : Finset String

structure ClaudeUsageAuthorityQuarantineRecord where
  proven_witness_fingerprint : String
  member_source_file_fingerprints : SortedMap String String
  disposition : ClaudeUsageAuthorityQuarantineDisposition
  retry_after_unix_seconds : Nat
  proof_correction : Option ClaudeAuthorityProofCorrection

structure ClaudeUsageFamilyWitness where
  evidence_fingerprint : String
  member_request_id_fingerprints : SortedMap String String
  member_occurrence_fingerprints : SortedMap String String
  assigned_request_id_fingerprints : SortedMap String String
  legacy_excluded_request_id_hashes : SortedMap String (Finset String)
  legacy_exclusion_evidence_fingerprint : Option String
  legacy_owner_roots : Finset String

def prefixed (text : String) : List UInt8 := length_prefixed text.toUTF8.toList

def prefixed_pairs (m : SortedMap String String) : List UInt8 :=
  m.entries.flatMap (fun e => prefixed e.1 ++ prefixed e.2)

def claude_usage_family_witness_fingerprint (witness : ClaudeUsageFamilyWitness) : String :=
  hex_lower (Sha256.digest (
    prefixed "ottto:claude-usage-family-durable-witness:v1" ++ prefixed witness.evidence_fingerprint ++
    prefixed "member_request_id_fingerprints" ++
    prefixed_pairs witness.member_request_id_fingerprints ++
    prefixed "member_occurrence_fingerprints" ++
    prefixed_pairs witness.member_occurrence_fingerprints ++
    prefixed "assigned_request_id_fingerprints" ++
    prefixed_pairs witness.assigned_request_id_fingerprints ++
    prefixed "legacy_excluded_request_id_hashes" ++
    witness.legacy_excluded_request_id_hashes.entries.flatMap (fun e =>
      prefixed e.1 ++ (in_order e.2).flatMap prefixed) ++
    prefixed "legacy_exclusion_evidence_fingerprint" ++
    prefixed (witness.legacy_exclusion_evidence_fingerprint.getD "none") ++
    prefixed "legacy_owner_roots" ++ (in_order witness.legacy_owner_roots).flatMap prefixed))

def claude_terminal_predates_e2 (record : ClaudeUsageAuthorityQuarantineRecord) : Bool :=
  record.disposition == .UnprovenTerminal && decide (1 ≤ record.retry_after_unix_seconds) &&
    decide (record.retry_after_unix_seconds ≤ PRE_E2_TERMINAL_DEADLINE_CUTOFF)

/-! ## Withheld accounts (withheld_account.rs) -/

def CONTENT : String := "claude_withheld_account_content:v1"

structure Seen where
  size_bytes : UInt64
  evidence : List UInt8
  object : UInt64 × UInt64 × UInt64
deriving DecidableEq

/-- The memo's entries under the digests of their keys. A poisoned lock gives no state. -/
structure WithheldMemo where
  poisoned : Bool := false
  refused : Bool := false
  entries : List (List UInt8 × Option Seen) := []

def digest (parts : List String) : List UInt8 :=
  Sha256.digest (parts.flatMap (fun part =>
    (to_le_bytes 8 part.toUTF8.toList.length).reverse ++ part.toUTF8.toList))

def memo_key (index_key : String) : List UInt8 :=
  digest ["claude_withheld_account_memo_key:v1", index_key]

namespace WithheldMemo

variable (self : WithheldMemo)

def seen (key : List UInt8) : Option Seen := (self.entries.lookup key).join

def set_seen (key : List UInt8) (value : Option Seen) : WithheldMemo :=
  { self with entries := self.entries.map (fun e => if e.1 = key then (e.1, value) else e) }

end WithheldMemo

/-- Only a birth that falls back to the time of modification continues what was seen. -/
def birth_clamp_continues (before after : Seen) (modified : UInt64) : Bool :=
  before.object.1 == after.object.1 && before.object.2.1 == after.object.2.1 &&
    before.size_bytes == after.size_bytes && before.evidence == after.evidence &&
    decide (after.object.2.2 < before.object.2.2) && after.object.2.2 == modified

/-! ## The index -/

structure ReasonReofferCooldown where
  body_witness : String
  input_change_only : Bool := false

/-- What the decision reads. -/
structure ScanIndex where
  persistence_available : Bool := true
  decode_holds : Holds := {}
  files : SortedMap String ScanIndexEntry := .empty
  file_snapshot_fingerprints : SortedMap String (Finset String) := .empty
  confirmed_empty_files : Finset String := ∅
  snapshot_activity_at : SortedMap String (Option String) := .empty
  accepted_snapshot_fingerprints : Finset String := ∅
  quarantined_snapshot_fingerprints : SortedMap String SnapshotQuarantineRecord := .empty
  active_quarantine_witness : Option SnapshotQuarantineWitness := none
  terminal_jsonl_dispositions : SortedMap String TerminalJsonlDisposition := .empty
  terminal_contract_retries : SortedMap String String := .empty
  reason_reoffer_retries : SortedMap String String := .empty
  reason_reoffer_cooldowns : SortedMap String ReasonReofferCooldown := .empty
  claude_usage_authority_quarantine : SortedMap String ClaudeUsageAuthorityQuarantineRecord := .empty
  claude_usage_family_witnesses : SortedMap String ClaudeUsageFamilyWitness := .empty
  claude_account_deferred_holds : SortedMap String String := .empty
  claude_request_identity_contract : Option String := none
  claude_copy_removals : CopyRemovals := {}
  active_effective_upload_body_witness_revision : UInt64 := 0
  active_effective_upload_body_witness_revision_monotone : Bool := false
  withheld_memo : WithheldMemo := {}

namespace ScanIndex

variable (out : Outside) (self : ScanIndex) (candidate : CandidateFile) (key fingerprint : String)

/-! ## What holds a file -/

/-- What the decoder's holds and the accepted entities are read from. -/
def decoded : snapshots.ScanIndex where
  persistence_available := self.persistence_available
  decode_holds := self.decode_holds
  accepted_snapshot_fingerprints := self.accepted_snapshot_fingerprints

def decode_holds_file : Bool := self.decoded.decode_holds_file key

def decode_holds_entity : Bool := self.decoded.decode_holds_entity fingerprint

def accepted_snapshot_fingerprint_recorded : Bool :=
  self.decoded.accepted_snapshot_fingerprint_recorded fingerprint

/-- A refusal that only a change of the input ends, and the stamp as it was listed. -/
def stale_refusal_holds_unchanged_input : Bool :=
  (self.file_snapshot_fingerprints.get? candidate.key).any (fun fps =>
    decide (∃ fp ∈ fps, (self.reason_reoffer_cooldowns.get? fp).any
      (fun c => c.input_change_only) = true)) &&
  (self.files.get? candidate.key).any (fun entry =>
    let modified := some candidate.modified_unix_nanos
    let stored := entry.modified_unix_nanos.or
      (modified.filter (fun nanos => nanos / 1000000000 == entry.modified_unix_seconds))
    entry.same_stamp_with_mtime stored candidate.size_bytes modified
      (some candidate.fingerprint_birth_nanos) (Stamp.candidate candidate))

/-- The family of the candidate when its witness, its revision or its retry asks for it. -/
def claude_usage_authority_candidate_requires_family_reparse : Option String := do
  let (root_session_id, source_session_id) ← claude_index_path_family_member candidate.path
  let record ← self.claude_usage_authority_quarantine.get? root_session_id
  let witness_matches := (self.claude_usage_family_witnesses.get? root_session_id).any
    (fun witness =>
      claude_usage_family_witness_fingerprint witness == record.proven_witness_fingerprint)
  let revision_matches := record.member_source_file_fingerprints.get? source_session_id ==
    some candidate.source_file_fingerprint
  let retry_due := (record.disposition == .RetryPending &&
    decide (record.retry_after_unix_seconds ≤ out.clock)) || claude_terminal_predates_e2 record
  if !witness_matches || !revision_matches || retry_due then some root_session_id else none

/-- A proof correction of the family owes this member. -/
def correction_owes (root_session_id member : String) : Bool :=
  ((self.claude_usage_authority_quarantine.get? root_session_id).bind
    (fun record => record.proof_correction)).any
      (fun correction => decide (member ∈ correction.owed_member_ids))

def claude_unindexed_member_waits_for_authority : Bool :=
  (claude_index_path_family_member candidate.path).any (fun (root_session_id, member) =>
    (self.claude_usage_authority_quarantine.get? root_session_id).any (fun record =>
      !record.proof_correction.any
        (fun correction => decide (member ∈ correction.owed_member_ids)) &&
      (self.claude_usage_authority_candidate_requires_family_reparse out candidate).isNone))

/-- What a completed parse would have seen. -/
def withheld_completed_seen : Option Seen := do
  let (device, inode) ← candidate.physical_identity
  if candidate.fingerprint_birth_nanos = 0 then none
  let stamp ← candidate.withheld_content_stamp
  let evidence := digest [CONTENT, stamp,
    self.claude_request_identity_contract.getD "\x00none"]
  let authority := digest [CONTENT,
    toString self.active_effective_upload_body_witness_revision.toNat]
  some {
    size_bytes := candidate.size_bytes
    evidence := Sha256.digest (evidence ++ authority)
    object := (device, inode, candidate.fingerprint_birth_nanos) }

/-- Whether the memo has the content of the candidate, and the memo after an accepted clamp. -/
def withheld_account_unchanged : Bool × WithheldMemo :=
  let memo := self.withheld_memo
  if !self.claude_account_deferred_holds.contains key then (false, memo)
  else match self.withheld_completed_seen candidate with
    | none => (false, if memo.poisoned then memo else memo.set_seen (memo_key key) none)
    | some content =>
      if memo.poisoned || memo.refused then (false, memo)
      else match memo.seen (memo_key key) with
        | none => (false, memo)
        | some before =>
          if before = content then (true, memo)
          else if birth_clamp_continues before content candidate.modified_unix_nanos then
            (true, memo.set_seen (memo_key key) (some content))
          else (false, memo)

/-! ## Retries of refused entities -/

def same_retry_contract_any_context (witness active : SnapshotQuarantineWitness) : Bool :=
  witness.same_retry_contract active || quarantine_context_only_changed witness active

def quarantine_requires_retry : Bool :=
  if self.decode_holds_entity fingerprint then false
  else if self.reason_reoffer_retries.contains fingerprint then true
  else
    match self.quarantined_snapshot_fingerprints.get? fingerprint,
        self.active_quarantine_witness with
    | some persisted, some active =>
      if persisted.contract_retry_claims.isSome then
        self.terminal_contract_retries.contains fingerprint
      else
        persisted.disposition == .RetryPending &&
          (self.terminal_contract_retries.contains fingerprint ||
            !same_retry_contract_any_context persisted.witness active ||
            decide (persisted.retry_after_unix_seconds ≤ out.clock))
    | _, _ => false

/-- The retry is only that of the exact body that was refused. -/
def reason_reoffer_cooldown_defers : Bool :=
  if (self.reason_reoffer_cooldowns.get? fingerprint).any (fun c => c.input_change_only) then true
  else
    !self.reason_reoffer_retries.contains fingerprint &&
      !self.accepted_snapshot_fingerprint_recorded fingerprint &&
      match self.reason_reoffer_cooldowns.get? fingerprint,
          self.quarantined_snapshot_fingerprints.get? fingerprint with
      | some body_witness, some record =>
        record.disposition == .RetryPending &&
          record.upload_body_witness == some body_witness.body_witness &&
          self.active_quarantine_witness.any (same_retry_contract_any_context record.witness)
      | _, _ => false

def quarantine_retry_selects_file : Bool :=
  self.quarantine_requires_retry out fingerprint &&
    (self.terminal_contract_retries.get? fingerprint).all (fun owner => owner == key) &&
    !self.reason_reoffer_cooldown_defers fingerprint

def effective_upload_body_witness_revision_requires_adoption : Bool :=
  let active := self.active_effective_upload_body_witness_revision
  active != 0 && (self.files.get? key).all (fun entry =>
    let stored := entry.effective_upload_body_witness_revision
    if self.active_effective_upload_body_witness_revision_monotone then decide (stored < active)
    else stored != active)

def valid_snapshot_activity (value : Option String) : Bool := value.all out.rfc3339

/-- The entity's activity is recorded, and no damaged time. -/
def activity_known : Bool :=
  (self.snapshot_activity_at.get? fingerprint).any (valid_snapshot_activity out)

/-! ## The decision -/

abbrev Decided : Type := CandidateDecision × Option CandidateParseReason

/-- The gates behind the file's own change: what is known of the entry's outcome. -/
def outcome_decision (entry : ScanIndexEntry) : Decided :=
  if entry.last_snapshot_fingerprint.isNone && decide (candidate.key ∉ self.confirmed_empty_files)
  then (.Parse, some .UnknownOutcome)
  else if !self.file_snapshot_fingerprints.contains candidate.key &&
      entry.last_snapshot_fingerprint.any (fun fingerprint => !self.activity_known out fingerprint)
  then (.Parse, some .LegacyActivity)
  else if entry.scan_identity_version != some LOCAL_SCAN_INDEX_IDENTITY_VERSION &&
      !entry.has_unverified_source then
    if entry.source_file_fingerprint = candidate.legacy_source_file_fingerprint then
      if candidate.legacy_config_reconciliation_required then (.ReconcileLegacy, none)
      else (.Migrate, none)
    else (.Parse, some .LegacyIdentity)
  else if entry.source_file_fingerprint ≠ candidate.source_file_fingerprint then
    (.Parse, some (if entry.source_file_fingerprint = "" then .Rearmed else .SourceChanged))
  else if self.claude_account_deferred_holds.contains candidate.key then
    (.Parse, some .SourceChanged)
  else (.Skip, none)

/-- Every entity of the file is refused under the active contract, and no retry selects it. -/
def quarantine_holds (entry : ScanIndexEntry) : Bool :=
  entry.source_file_fingerprint == candidate.source_file_fingerprint &&
    (self.file_snapshot_fingerprints.get? candidate.key).any (fun fingerprints =>
      decide (fingerprints ≠ ∅) &&
      decide (∀ fingerprint ∈ fingerprints,
        (self.quarantined_snapshot_fingerprints.get? fingerprint).any (fun record =>
          self.active_quarantine_witness.any (same_retry_contract_any_context record.witness) &&
          !self.quarantine_retry_selects_file out candidate.key fingerprint) = true))

def known_fragment (entry : ScanIndexEntry) : Bool :=
  entry.codex_fragment.any (fun fragment =>
    fragment.binds entry.size_bytes candidate.size_bytes (Stamp.candidate candidate) &&
      entry.source_file_fingerprint == candidate.source_file_fingerprint)

def transcript_changed (entry : ScanIndexEntry) : Bool :=
  !known_fragment candidate entry &&
    (entry.size_bytes != candidate.size_bytes ||
      entry.modified_unix_seconds != candidate.modified_unix_seconds ||
      entry.modified_unix_nanos.any (fun value => value != candidate.modified_unix_nanos))

/-- An entity whose activity is not known, unless the account is withheld, or whose retry
selects the file. -/
def entity_selects (withheld_unchanged : Bool) : Bool :=
  (!withheld_unchanged && !self.activity_known out fingerprint) ||
    self.quarantine_retry_selects_file out key fingerprint

/-- The gates of a file whose family no authority holds. -/
def indexed_decision (now : Nat) (body_witness_adoption : Bool) (entry : ScanIndexEntry) : Decided :=
  let key := candidate.key
  let withheld_unchanged := entry.source_file_fingerprint != "" &&
    (self.withheld_account_unchanged candidate key).1
  if self.claude_copy_removals.pending (location_key sha256 key) then (.Parse, some .SourceChanged)
  else if entry.audit_requires_full now && !withheld_unchanged then (.Parse, some .Audit)
  else if body_witness_adoption && !withheld_unchanged &&
      self.effective_upload_body_witness_revision_requires_adoption key
  then (.Parse, some .BodyWitnessAdoption)
  else if (self.file_snapshot_fingerprints.get? key).any (fun fingerprints =>
      decide (∃ fingerprint ∈ fingerprints,
        self.entity_selects out key fingerprint withheld_unchanged = true))
  then (.Parse, some .ActivityOrQuarantineRetry)
  else if withheld_unchanged then (.Skip, none)
  else if transcript_changed candidate entry then (.Parse, some .TranscriptChanged)
  else if entry.captured then
    if self.quarantine_holds out candidate entry then (.Skip, none)
    else (.Parse, some .CodexCapture)
  else self.outcome_decision out candidate entry

/-- A family that an authority record holds waits for its own gate. -/
def authority_decision : Option Decided :=
  match claude_index_path_family_member candidate.path with
  | none => none
  | some (root_session_id, member) =>
    if self.claude_usage_authority_quarantine.contains root_session_id then
      if (self.claude_usage_authority_candidate_requires_family_reparse out candidate).isSome ||
          self.correction_owes root_session_id member
      then some (.Parse, some .AuthorityQuarantine)
      else some (.Skip, none)
    else none

def candidate_decision_with_reason_gated (now : Nat) (body_witness_adoption : Bool) : Decided :=
  let key := candidate.key
  if self.decode_holds_file key then (.Skip, none)
  else if self.stale_refusal_holds_unchanged_input candidate then (.Skip, none)
  else if (self.terminal_jsonl_dispositions.get? key).any (fun disposition =>
      disposition.source_file_fingerprint != candidate.source_file_fingerprint ||
        disposition.parser_generation != JSONL_TERMINAL_DISPOSITION_GENERATION)
  then (.Parse, some .TerminalDisposition)
  else match self.files.get? key with
    | none =>
      if self.claude_unindexed_member_waits_for_authority out candidate ||
          (self.withheld_account_unchanged candidate key).1 then (.Skip, none)
      else (.Parse, some .NewFile)
    | some entry =>
      match self.authority_decision out candidate with
      | some decided => decided
      | none => self.indexed_decision out candidate now body_witness_adoption entry

def candidate_decision_with_reason_at (now : Nat) : Decided :=
  self.candidate_decision_with_reason_gated out candidate now true

end ScanIndex

end ottto_service.snapshots.candidate_decision
