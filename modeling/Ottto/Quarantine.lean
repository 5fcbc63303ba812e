-- Quarantine records of refused snapshot bodies (snapshots/scan_index.rs) and the
-- paced reassessment of them (snapshots/terminal_contract_retry.rs).
import Ottto.SortedMap
import Ottto.Sha256

/-! ## Seconds in 64 bits -/

namespace ottto_service

def u64_max : Nat := 2 ^ 64 - 1

/-- `u64::u64_saturating_add` -/
def u64_saturating_add (a b : Nat) : Nat := min (a + b) u64_max

theorem u64_saturating_add_mono {a a' b b' : Nat} (ha : a ≤ a') (hb : b ≤ b') :
    u64_saturating_add a b ≤ u64_saturating_add a' b' := by
  unfold u64_saturating_add
  omega

theorem u64_saturating_add_assoc_le (a b c : Nat) :
    u64_saturating_add (u64_saturating_add a b) c ≤ u64_saturating_add a (b + c) := by
  unfold u64_saturating_add
  omega

def is_ascii_hexdigit (c : Char) : Bool :=
  c.isDigit || ('a' ≤ c && c ≤ 'f') || ('A' ≤ c && c ≤ 'F')

/-- `is_sha256_any_case`: 64 hexadecimal digits, of either case. -/
def is_snapshot_fingerprint (value : String) : Bool :=
  value.utf8ByteSize == 64 && value.toList.all is_ascii_hexdigit

end ottto_service

namespace ottto_service.snapshots

def SNAPSHOT_QUARANTINE_RETRY_SECONDS : Nat := 6 * 60 * 60
def MAX_SNAPSHOT_RECONSTRUCTION_FAILURES : Nat := 4

/-! ## The records -/

structure SnapshotQuarantineWitness where
  contract : String
  collector_version : String
  parser_version : String
  scan_identity_version : String
  snapshot_schema_version : Nat
  entity_ack_contract : String
  item_wire_byte_limit : Nat
deriving DecidableEq

/-- Build and parser labels alone do not change the retry contract. -/
def SnapshotQuarantineWitness.same_retry_contract (s other : SnapshotQuarantineWitness) : Bool :=
  s.contract == other.contract && s.scan_identity_version == other.scan_identity_version &&
    s.snapshot_schema_version == other.snapshot_schema_version &&
    s.entity_ack_contract == other.entity_ack_contract &&
    s.item_wire_byte_limit == other.item_wire_byte_limit

/-- `split(pattern).next()` -/
def before_pattern (pattern : List Char) : List Char → List Char
  | [] => []
  | c :: rest => if pattern.isPrefixOf (c :: rest) then [] else c :: before_pattern pattern rest

def contract_stem (contract : String) : List Char :=
  before_pattern ":upload_context:".toList contract.toList

/-- A change of the upload context only does not move a deadline. -/
def quarantine_context_only_changed (previous active : SnapshotQuarantineWitness) : Bool :=
  if previous.contract = active.contract ∨
      contract_stem previous.contract ≠ contract_stem active.contract then false
  else { previous with contract := active.contract }.same_retry_contract active

inductive SnapshotQuarantineDisposition where
  | RetryPending
  | UnprovenTerminal
  | SupersededTerminal
deriving DecidableEq

structure SnapshotQuarantineRecord where
  reconstruction_contract : Nat
  contract_retry_claims : Option Nat
  witness : SnapshotQuarantineWitness
  retry_after_unix_seconds : Nat
  upload_body_witness : Option String
  failed_reconstruction_count : Nat
  disposition : SnapshotQuarantineDisposition
deriving DecidableEq

def snapshot_quarantine_deadline_is_bounded_at (record : SnapshotQuarantineRecord) (now : Nat) :
    Bool :=
  match record.disposition with
  | .RetryPending =>
    decide (record.failed_reconstruction_count < MAX_SNAPSHOT_RECONSTRUCTION_FAILURES) &&
      decide (record.retry_after_unix_seconds ≤
        u64_saturating_add now (SNAPSHOT_QUARANTINE_RETRY_SECONDS * 2))
  | .UnprovenTerminal =>
    record.failed_reconstruction_count == MAX_SNAPSHOT_RECONSTRUCTION_FAILURES &&
      record.retry_after_unix_seconds == 0
  | .SupersededTerminal =>
    decide (record.failed_reconstruction_count ≤ MAX_SNAPSHOT_RECONSTRUCTION_FAILURES) &&
      record.retry_after_unix_seconds == 0

/-- What the loader of the upload ledger asks of a record. -/
def record_is_loadable (now : Nat) (record : SnapshotQuarantineRecord) : Bool :=
  snapshot_quarantine_deadline_is_bounded_at record now &&
    record.upload_body_witness.all is_snapshot_fingerprint

/-! ## The pace of a retry -/

def big_endian (bytes : List UInt8) : Nat := bytes.foldl (fun n b => n * 256 + b.toNat) 0

/-- `[from + base, from + 2 * base)`, staggered by the key. -/
def jittered_retry_after (key : String) (start base : Nat) : Nat :=
  let jitter := big_endian ((Sha256.digest key.toUTF8.toList).take 8) % base
  u64_saturating_add (u64_saturating_add start base) jitter

def quarantine_retry_after (fingerprint : String) (now : Nat) : Nat :=
  jittered_retry_after fingerprint now SNAPSHOT_QUARANTINE_RETRY_SECONDS

theorem jittered_retry_after_le (key : String) (start : Nat) {base : Nat} (hbase : 0 < base) :
    jittered_retry_after key start base ≤ u64_saturating_add start (base * 2) := by
  have hjitter := Nat.mod_lt (big_endian ((Sha256.digest key.toUTF8.toList).take 8)) hbase
  unfold jittered_retry_after
  apply (u64_saturating_add_assoc_le start base _).trans
  apply u64_saturating_add_mono le_rfl
  omega

theorem quarantine_retry_after_le (fingerprint : String) (now : Nat) :
    quarantine_retry_after fingerprint now ≤
      u64_saturating_add now (SNAPSHOT_QUARANTINE_RETRY_SECONDS * 2) :=
  jittered_retry_after_le fingerprint now (by decide)

/-! ## The shapes that a record may have -/

/-- The record of a body that is still owed a retry. -/
def SnapshotQuarantineRecord.retry (record : SnapshotQuarantineRecord) (failures retry_after : Nat) :
    SnapshotQuarantineRecord :=
  { record with
    failed_reconstruction_count := failures, disposition := .RetryPending
    retry_after_unix_seconds := retry_after }

/-- The record of a body that is given up. -/
def SnapshotQuarantineRecord.terminal (record : SnapshotQuarantineRecord) :
    SnapshotQuarantineRecord :=
  { record with
    failed_reconstruction_count := MAX_SNAPSHOT_RECONSTRUCTION_FAILURES
    disposition := .UnprovenTerminal, retry_after_unix_seconds := 0 }

def SnapshotQuarantineRecord.superseded (record : SnapshotQuarantineRecord) :
    SnapshotQuarantineRecord :=
  { record with disposition := .SupersededTerminal, retry_after_unix_seconds := 0 }

section

variable {now : Nat} {record : SnapshotQuarantineRecord}

theorem loadable_iff : record_is_loadable now record = true ↔
    snapshot_quarantine_deadline_is_bounded_at record now = true ∧
      ∀ body ∈ record.upload_body_witness, is_snapshot_fingerprint body = true := by
  unfold record_is_loadable
  cases record.upload_body_witness <;> simp

theorem bounded_count (h : snapshot_quarantine_deadline_is_bounded_at record now = true) :
    record.failed_reconstruction_count ≤ MAX_SNAPSHOT_RECONSTRUCTION_FAILURES := by
  unfold snapshot_quarantine_deadline_is_bounded_at at h
  split at h <;> simp at h <;> omega

theorem bounded_deadline (h : snapshot_quarantine_deadline_is_bounded_at record now = true) :
    record.retry_after_unix_seconds ≤
      u64_saturating_add now (SNAPSHOT_QUARANTINE_RETRY_SECONDS * 2) := by
  unfold snapshot_quarantine_deadline_is_bounded_at at h
  split at h <;> simp at h <;> omega

theorem bounded_mono {later : Nat} (hle : now ≤ later)
    (h : snapshot_quarantine_deadline_is_bounded_at record now = true) :
    snapshot_quarantine_deadline_is_bounded_at record later = true := by
  have hmono := u64_saturating_add_mono hle (le_refl (SNAPSHOT_QUARANTINE_RETRY_SECONDS * 2))
  unfold snapshot_quarantine_deadline_is_bounded_at at h ⊢
  split at h <;> simp at h ⊢ <;> omega

theorem loadable_mono {later : Nat} (hle : now ≤ later) (h : record_is_loadable now record = true) :
    record_is_loadable later record = true := by
  rw [loadable_iff] at h ⊢
  exact ⟨bounded_mono hle h.1, h.2⟩

theorem bounded_retry {failures retry_after : Nat}
    (hfailures : failures < MAX_SNAPSHOT_RECONSTRUCTION_FAILURES)
    (hafter : retry_after ≤ u64_saturating_add now (SNAPSHOT_QUARANTINE_RETRY_SECONDS * 2)) :
    snapshot_quarantine_deadline_is_bounded_at (record.retry failures retry_after) now = true := by
  simp [snapshot_quarantine_deadline_is_bounded_at, SnapshotQuarantineRecord.retry, hfailures,
    hafter]

theorem bounded_terminal :
    snapshot_quarantine_deadline_is_bounded_at record.terminal now = true := by
  simp [snapshot_quarantine_deadline_is_bounded_at, SnapshotQuarantineRecord.terminal]

theorem bounded_superseded (h : snapshot_quarantine_deadline_is_bounded_at record now = true) :
    snapshot_quarantine_deadline_is_bounded_at record.superseded now = true := by
  simp [snapshot_quarantine_deadline_is_bounded_at, SnapshotQuarantineRecord.superseded,
    bounded_count h]

end

end ottto_service.snapshots

namespace ottto_service.terminal_contract_retry

open snapshots

def RECONSTRUCTION_CONTRACT : Nat := 1
def UNKNOWN_CONTRACT : Nat := 0
def MAX_CLAIMS : Nat := 2

def current_contract : Nat := RECONSTRUCTION_CONTRACT

/-- The record as the loader re-arms it, when the contract moved past it. -/
def rearm_record (fingerprint : String) (record : SnapshotQuarantineRecord)
    (active_witness : Option SnapshotQuarantineWitness) (now : Nat) :
    Option SnapshotQuarantineRecord :=
  let unassessed_pending := record.disposition = .RetryPending ∧
    (record.reconstruction_contract = UNKNOWN_CONTRACT ∨ record.contract_retry_claims.isSome)
  if (record.disposition ≠ .UnprovenTerminal ∧ ¬ unassessed_pending) ∨
      record.reconstruction_contract ≥ current_contract then none
  else some { record with
    disposition := .RetryPending
    failed_reconstruction_count := MAX_SNAPSHOT_RECONSTRUCTION_FAILURES - 1
    retry_after_unix_seconds := quarantine_retry_after fingerprint now
    reconstruction_contract := current_contract
    contract_retry_claims := some 0
    witness := active_witness.getD record.witness }

/-- A claim is spent at selection. -/
def claim (record : SnapshotQuarantineRecord) : SnapshotQuarantineRecord :=
  { record with contract_retry_claims :=
      record.contract_retry_claims.map (fun claims => min (claims + 1) (2 ^ 16 - 1)) }

def is_exhausted (record : SnapshotQuarantineRecord) : Bool :=
  record.contract_retry_claims.any (fun n => decide (n ≥ MAX_CLAIMS)) &&
    record.disposition == .RetryPending

def exhaust (record : SnapshotQuarantineRecord) : SnapshotQuarantineRecord × Bool :=
  if is_exhausted record then (record.terminal, true) else (record, false)

/-- A newer claim owns its cooldown. -/
def take_cooldown (previous : Option Nat) (claims : Nat) (record other : SnapshotQuarantineRecord) :
    SnapshotQuarantineRecord :=
  if previous.all (fun n => decide (n < claims)) ∧ record.disposition = .RetryPending then
    { record with
      retry_after_unix_seconds :=
        max record.retry_after_unix_seconds other.retry_after_unix_seconds }
  else record

/-- A claim that is no older brings its verdict along. -/
def take_verdict (previous : Option Nat) (claims : Nat) (record other : SnapshotQuarantineRecord) :
    SnapshotQuarantineRecord :=
  if previous.all (fun n => decide (n ≤ claims)) ∧ other.disposition = .UnprovenTerminal ∧
      record.disposition ≠ .SupersededTerminal then
    { record with
      disposition := other.disposition
      failed_reconstruction_count := other.failed_reconstruction_count
      retry_after_unix_seconds := 0 }
  else record

/-- The budget of one body: by version, then by the most claims. -/
def merge_claims (record other : SnapshotQuarantineRecord) : SnapshotQuarantineRecord × Bool :=
  match other.contract_retry_claims with
  | none => (record, false)
  | some claims =>
    if record.upload_body_witness.isSome ∧ other.upload_body_witness.isSome ∧
        record.upload_body_witness ≠ other.upload_body_witness then (record, false)
    else if record.reconstruction_contract < other.reconstruction_contract then
      (if record.disposition = .SupersededTerminal then other.superseded else other, true)
    else if record.reconstruction_contract ≠ other.reconstruction_contract then (record, false)
    else
      let previous := record.contract_retry_claims
      let claimed := { record with
        upload_body_witness := record.upload_body_witness.or other.upload_body_witness
        contract_retry_claims := some (max (previous.getD 0) claims) }
      let merged := take_verdict previous claims (take_cooldown previous claims claimed other) other
      (merged, decide (merged ≠ record))

section

variable {now : Nat} {record other : SnapshotQuarantineRecord}

theorem rearm_record_loadable {fingerprint : String} {active : Option SnapshotQuarantineWitness}
    {rearmed : SnapshotQuarantineRecord} (hrecord : record_is_loadable now record = true)
    (h : rearm_record fingerprint record active now = some rearmed) :
    record_is_loadable now rearmed = true := by
  unfold rearm_record at h
  dsimp only at h
  split at h
  · cases h
  · cases h
    apply loadable_iff.mpr
    refine ⟨?_, (loadable_iff.mp hrecord).2⟩
    have hafter := quarantine_retry_after_le fingerprint now
    simp [snapshot_quarantine_deadline_is_bounded_at, hafter, MAX_SNAPSHOT_RECONSTRUCTION_FAILURES]

theorem claim_loadable (h : record_is_loadable now record = true) :
    record_is_loadable now (claim record) = true := h

theorem exhaust_loadable (h : record_is_loadable now record = true) :
    record_is_loadable now (exhaust record).1 = true := by
  unfold exhaust
  split
  · exact loadable_iff.mpr ⟨bounded_terminal, (loadable_iff.mp h).2⟩
  · exact h

@[simp] theorem exhaust_body :
    (exhaust record).1.upload_body_witness = record.upload_body_witness := by
  unfold exhaust
  split <;> rfl

variable {previous : Option Nat} {claims : Nat}

theorem take_cooldown_bounded (h : snapshot_quarantine_deadline_is_bounded_at record now = true)
    (hother : snapshot_quarantine_deadline_is_bounded_at other now = true) :
    snapshot_quarantine_deadline_is_bounded_at
      (take_cooldown previous claims record other) now = true := by
  have hdeadline := max_le (bounded_deadline h) (bounded_deadline hother)
  unfold take_cooldown
  split
  · next hpending =>
    simp only [snapshot_quarantine_deadline_is_bounded_at, hpending.2, Bool.and_eq_true,
      decide_eq_true_eq] at h ⊢
    exact ⟨h.1, hdeadline⟩
  · exact h

theorem take_verdict_bounded (h : snapshot_quarantine_deadline_is_bounded_at record now = true)
    (hother : snapshot_quarantine_deadline_is_bounded_at other now = true) :
    snapshot_quarantine_deadline_is_bounded_at
      (take_verdict previous claims record other) now = true := by
  unfold take_verdict
  split
  · next hverdict =>
    simp only [snapshot_quarantine_deadline_is_bounded_at, hverdict.2.1,
      Bool.and_eq_true] at hother ⊢
    exact ⟨hother.1, rfl⟩
  · exact h

theorem merge_claims_bounded
    (h : snapshot_quarantine_deadline_is_bounded_at record now = true)
    (hother : snapshot_quarantine_deadline_is_bounded_at other now = true) :
    snapshot_quarantine_deadline_is_bounded_at (merge_claims record other).1 now = true := by
  unfold merge_claims
  split
  · exact h
  split
  · exact h
  split
  · dsimp only
    split
    · exact bounded_superseded hother
    · exact hother
  split
  · exact h
  · exact take_verdict_bounded (take_cooldown_bounded h hother) hother

@[simp] theorem take_cooldown_body :
    (take_cooldown previous claims record other).upload_body_witness =
      record.upload_body_witness := by
  unfold take_cooldown
  split <;> rfl

@[simp] theorem take_verdict_body :
    (take_verdict previous claims record other).upload_body_witness =
      record.upload_body_witness := by
  unfold take_verdict
  split <;> rfl

/-- The body of a merged copy is that of one of the two. -/
theorem merge_claims_body :
    (merge_claims record other).1.upload_body_witness = record.upload_body_witness ∨
      (merge_claims record other).1.upload_body_witness = other.upload_body_witness := by
  unfold merge_claims
  split
  · exact .inl rfl
  split
  · exact .inl rfl
  split
  · dsimp only
    split <;> exact .inr rfl
  split
  · exact .inl rfl
  · simp only [take_verdict_body, take_cooldown_body]
    cases record.upload_body_witness <;> simp

theorem merge_claims_loadable (h : record_is_loadable now record = true)
    (hother : record_is_loadable now other = true) :
    record_is_loadable now (merge_claims record other).1 = true := by
  obtain ⟨hbound, hbody⟩ := loadable_iff.mp h
  obtain ⟨hobound, hobody⟩ := loadable_iff.mp hother
  refine loadable_iff.mpr ⟨merge_claims_bounded hbound hobound, ?_⟩
  rcases @merge_claims_body record other with hmerged | hmerged
  · rwa [hmerged]
  · rwa [hmerged]

end

/-- Each record merged with the other map's, and whether one changed. -/
def merge_maps (records other : SortedMap String SnapshotQuarantineRecord) :
    SortedMap String SnapshotQuarantineRecord × Bool :=
  let merge := fun fingerprint record =>
    match other.get? fingerprint with
    | some other => merge_claims record other
    | none => (record, false)
  (records.filterMap (fun fingerprint record => some (merge fingerprint record).1),
    records.entries.any (fun e => (merge e.1 e.2).2))

theorem get?_merge_maps (records other : SortedMap String SnapshotQuarantineRecord)
    (fingerprint : String) :
    (merge_maps records other).1.get? fingerprint =
      (records.get? fingerprint).map (fun record =>
        match other.get? fingerprint with
        | some other => (merge_claims record other).1
        | none => record) := by
  unfold merge_maps
  rw [SortedMap.get?_filterMap]
  cases records.get? fingerprint with
  | none => rfl
  | some record => cases h : other.get? fingerprint <;> simp [h]

end ottto_service.terminal_contract_retry
