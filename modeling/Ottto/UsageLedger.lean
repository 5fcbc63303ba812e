-- The Claude usage ledger (snapshots/sources/claude/census/usage_ledger.rs):
-- the join of a root's API rows and trace rows, and the legacy owner of each
-- request over every root.
import Ottto.BirthStore
import Ottto.CanonicalJson
import Ottto.Results
import Ottto.Rows

namespace ottto_service.claude_usage_ledger

open json_fields (trim)
open durable_tail_codec.HDigest (hex unhex)
open durable_tail_codec.Durable (as_bytes)
open claude_money_birth_store (Digest)

abbrev Bytes : Type := List UInt8

/-- SHA-256, and the clock texts. -/
structure Outside where
  sha256 : Bytes → Digest
  time : accumulator.Rfc3339

/-! ## The evidence rows (claude_local_otel.rs) -/

inductive ClaudeIdentityAttributeOrigin where
  | Missing
  | Resource
  | LogRecord
  | ResourceAndLogRecord

inductive ClaudeIdentityDisposition where
  | Missing
  | Invalid
  | Conflict
  | Complete

structure ClaudeIdentityAttributeEvidence where
  origin : ClaudeIdentityAttributeOrigin
  disposition : ClaudeIdentityDisposition
  resource_hash : Option String
  log_record_hash : Option String

structure ClaudeRequestIdentityEvidence where
  identity_hash_scheme : String
  account : ClaudeIdentityAttributeEvidence
  organization : ClaudeIdentityAttributeEvidence
  disposition : ClaudeIdentityDisposition

structure ClaudeLocalOtelEvidence where
  capture_revision : String := ""
  fingerprint : String := ""
  session_id : String := ""
  request_id : String := ""
  client_request_id : String := ""
  observed_at : String := ""
  model : String := ""
  effort : String := ""
  query_source : String := ""
  speed : String := ""
  cost_usd_micros : Option UInt64 := none
  event_sequence : Option UInt64 := none
  app_version : String := ""
  input_tokens : UInt64 := 0
  output_tokens : UInt64 := 0
  cache_read_tokens : UInt64 := 0
  cache_creation_tokens : UInt64 := 0
  cache_creation_5m_tokens : UInt64 := 0
  cache_creation_1h_tokens : UInt64 := 0
  reasoning_output_tokens : UInt64 := 0
  request_count : UInt64 := 0
  account_identity_checked : Bool := false
  account_identifier_hash : Option String := none
  request_identity : Option ClaudeRequestIdentityEvidence := none

structure ClaudeTraceOwnershipEvidence where
  capture_revision : String := ""
  fingerprint : String := ""
  session_id : String := ""
  request_id : String := ""
  client_request_id : String := ""
  agent_id : String := ""
  parent_agent_id : String := ""
  workflow_run_id : String := ""
  observed_at : String := ""

/-! ## Their JSON, field by field -/

namespace json

def string (s : String) : Bytes := canonical_json.write_string s []

def number (n : UInt64) : Bytes := as_bytes (toString n.toNat)

def bool (b : Bool) : Bytes := as_bytes (if b then "true" else "false")

def option {α : Type} (write : α → Bytes) : Option α → Bytes
  | some a => write a
  | none => as_bytes "null"

/-- `skip_serializing_if = "Option::is_none"` -/
def present {α : Type} (key : String) (write : α → Bytes) (a : Option α) : List (String × Bytes) :=
  a.toList.map (fun a => (key, write a))

def object (members : List (String × Bytes)) : Bytes :=
  [0x7b] ++ List.intercalate [0x2c] (members.map (fun m => string m.1 ++ [0x3a] ++ m.2)) ++ [0x7d]

end json

def ClaudeIdentityAttributeOrigin.json : ClaudeIdentityAttributeOrigin → Bytes
  | .Missing => json.string "missing"
  | .Resource => json.string "resource"
  | .LogRecord => json.string "log_record"
  | .ResourceAndLogRecord => json.string "resource_and_log_record"

def ClaudeIdentityDisposition.json : ClaudeIdentityDisposition → Bytes
  | .Missing => json.string "missing"
  | .Invalid => json.string "invalid"
  | .Conflict => json.string "conflict"
  | .Complete => json.string "complete"

def ClaudeIdentityAttributeEvidence.json (self : ClaudeIdentityAttributeEvidence) : Bytes :=
  json.object ([("origin", self.origin.json), ("disposition", self.disposition.json)] ++
    json.present "resource_hash" json.string self.resource_hash ++
    json.present "log_record_hash" json.string self.log_record_hash)

def ClaudeRequestIdentityEvidence.json (self : ClaudeRequestIdentityEvidence) : Bytes :=
  json.object [("identity_hash_scheme", json.string self.identity_hash_scheme),
    ("account", self.account.json), ("organization", self.organization.json),
    ("disposition", self.disposition.json)]

def ClaudeLocalOtelEvidence.json (self : ClaudeLocalOtelEvidence) : Bytes :=
  json.object ([("capture_revision", json.string self.capture_revision),
    ("fingerprint", json.string self.fingerprint), ("session_id", json.string self.session_id),
    ("request_id", json.string self.request_id),
    ("client_request_id", json.string self.client_request_id),
    ("observed_at", json.string self.observed_at), ("model", json.string self.model),
    ("effort", json.string self.effort), ("query_source", json.string self.query_source),
    ("speed", json.string self.speed),
    ("cost_usd_micros", json.option json.number self.cost_usd_micros),
    ("event_sequence", json.option json.number self.event_sequence),
    ("app_version", json.string self.app_version), ("input_tokens", json.number self.input_tokens),
    ("output_tokens", json.number self.output_tokens),
    ("cache_read_tokens", json.number self.cache_read_tokens),
    ("cache_creation_tokens", json.number self.cache_creation_tokens),
    ("cache_creation_5m_tokens", json.number self.cache_creation_5m_tokens),
    ("cache_creation_1h_tokens", json.number self.cache_creation_1h_tokens),
    ("reasoning_output_tokens", json.number self.reasoning_output_tokens),
    ("request_count", json.number self.request_count),
    ("account_identity_checked", json.bool self.account_identity_checked)] ++
    json.present "account_identifier_hash" json.string self.account_identifier_hash ++
    json.present "request_identity" ClaudeRequestIdentityEvidence.json self.request_identity)

def ClaudeTraceOwnershipEvidence.json (self : ClaudeTraceOwnershipEvidence) : Bytes :=
  json.object [("capture_revision", json.string self.capture_revision),
    ("fingerprint", json.string self.fingerprint), ("session_id", json.string self.session_id),
    ("request_id", json.string self.request_id),
    ("client_request_id", json.string self.client_request_id),
    ("agent_id", json.string self.agent_id), ("parent_agent_id", json.string self.parent_agent_id),
    ("workflow_run_id", json.string self.workflow_run_id),
    ("observed_at", json.string self.observed_at)]

/-! ## The checks of a row -/

section

variable (out : Outside)

/-- `format!("{:x}", Sha256::digest(..))` -/
def sha256_hex (bytes : Bytes) : String := hex (out.sha256 bytes).1

def claude_api_evidence_fingerprint_is_valid (row : ClaudeLocalOtelEvidence) : Bool :=
  "sha256:" ++ sha256_hex out { row with fingerprint := "" }.json == row.fingerprint

def claude_trace_evidence_fingerprint_is_valid (row : ClaudeTraceOwnershipEvidence) : Bool :=
  "sha256:" ++ sha256_hex out { row with fingerprint := "" }.json == row.fingerprint

def validate_claude_api_row (root_session_id : String) (row : ClaudeLocalOtelEvidence) : Bool :=
  row.capture_revision == "claude_api_request:v2" && row.session_id == root_session_id &&
    row.request_id != "" && row.model != "" && row.request_count == 1 &&
    claude_api_evidence_fingerprint_is_valid out row && (out.time.parse row.observed_at).isSome

def validate_claude_trace_row (root_session_id : String) (row : ClaudeTraceOwnershipEvidence) :
    Bool :=
  row.capture_revision == "claude_llm_request_ownership:v1" && row.session_id == root_session_id &&
    row.request_id != "" && claude_trace_evidence_fingerprint_is_valid out row &&
    (out.time.parse row.observed_at).isSome

end

/-! ## The ledger of one root -/

inductive IgnoredVeto where
  | EvidenceGap
  | InvalidRows
  | DuplicateRows
  | ClientMismatch
  | MultiRootClaims

def strip_prefix_of (start text : String) : Option String :=
  if start.toList <+: text.toList then some (String.ofList (text.toList.drop start.length)) else none

def claude_trace_owner_session_id (root_session_id agent_id : String) : String :=
  let agent_id := trim agent_id
  if agent_id = "" then root_session_id
  else root_session_id ++ "_agent-" ++ (strip_prefix_of "agent-" agent_id).getD agent_id

structure ReducedClaudeUsageLedger (R : Type) where
  evidence_fingerprint : String
  assigned_request_id_hashes : SortedMap String (SortedMap String Unit)
  rows_by_member : SortedMap String (List R)

def collect_row {Row : Type} (valid : Row → Bool) (request_id : Row → String)
    (by_request : SortedMap String Row) (row : Row) : Except IgnoredVeto (SortedMap String Row) :=
  if !valid row then .error .InvalidRows
  else if by_request.contains (request_id row) then .error .DuplicateRows
  else .ok (by_request.insert (request_id row) row)

/-- The rows by request: each valid, and each request once. -/
def collect_by_request {Row : Type} (valid : Row → Bool) (request_id : Row → String)
    (rows : List Row) : Except IgnoredVeto (SortedMap String Row) :=
  rows.foldlM (collect_row valid request_id) .empty

/-- What the loop over the requests builds; `digest` is what was fed to SHA-256. -/
structure Assigned (R : Type) where
  assigned_hashes : SortedMap String (SortedMap String Unit)
  rows_by_member : SortedMap String (List R)
  digest : Bytes

/-- `members.iter().map(|member| (member.clone(), empty)).collect()` -/
def for_each_member {α : Type} (members : SortedMap String Unit) (empty : α) : SortedMap String α :=
  members.mapValues (fun _ => empty)

section

variable {R : Type} (out : Outside) (row_view : ClaudeLocalOtelEvidence → R)
  (root_session_id : String) (members : SortedMap String Unit)

def assign_request (trace_by_request : SortedMap String ClaudeTraceOwnershipEvidence)
    (state : Assigned R) (request : String × ClaudeLocalOtelEvidence) :
    Except IgnoredVeto (Assigned R) :=
  let (request_id, api_row) := request
  match trace_by_request.get? request_id with
  | none => .error .EvidenceGap
  | some trace_row =>
    if api_row.client_request_id ≠ "" ∧ trace_row.client_request_id ≠ "" ∧
        api_row.client_request_id ≠ trace_row.client_request_id then .error .ClientMismatch
    else
      let owner := claude_trace_owner_session_id root_session_id trace_row.agent_id
      if !members.contains owner then .error .EvidenceGap
      else
        let request_hash := sha256_hex out (as_bytes request_id)
        match state.assigned_hashes.get? owner, state.rows_by_member.get? owner with
        | some hashes, some rows => .ok {
            assigned_hashes := state.assigned_hashes.insert owner (hashes.insert request_hash ())
            rows_by_member := state.rows_by_member.insert owner (rows ++ [row_view api_row])
            digest := state.digest ++ as_bytes request_hash ++ [0] ++ as_bytes owner ++ [0] ++
              as_bytes api_row.fingerprint ++ [0] ++ as_bytes trace_row.fingerprint ++ [0] }
        | _, _ => .error .EvidenceGap

def classify_claude_usage_ledger_with_rows (api_rows : List ClaudeLocalOtelEvidence)
    (trace_rows : List ClaudeTraceOwnershipEvidence) :
    Except IgnoredVeto (ReducedClaudeUsageLedger R) :=
  if !members.contains root_session_id || api_rows.isEmpty || trace_rows.isEmpty then
    .error .EvidenceGap
  else do
    let api_by_request ← collect_by_request (validate_claude_api_row out root_session_id)
      ClaudeLocalOtelEvidence.request_id api_rows
    let trace_by_request ← collect_by_request (validate_claude_trace_row out root_session_id)
      ClaudeTraceOwnershipEvidence.request_id trace_rows
    if api_by_request.keys ≠ trace_by_request.keys then .error .EvidenceGap
    else
      let assigned ← api_by_request.entries.foldlM
        (assign_request out row_view root_session_id members trace_by_request)
        { assigned_hashes := for_each_member members .empty
          rows_by_member := for_each_member members []
          digest := as_bytes "claude_reported_usage_ledger:v1\x00" }
      .ok { evidence_fingerprint := sha256_hex out assigned.digest
            assigned_request_id_hashes := assigned.assigned_hashes
            rows_by_member := assigned.rows_by_member }

end

/-! ## The legacy owners -/

/-- `[u8; 32]` compares byte by byte. -/
scoped instance digestOrder : LinearOrder Digest :=
  LinearOrder.lift' (fun digest : Digest => digest.1.map UInt8.toNat) (fun _ _ h =>
    Subtype.ext (List.map_injective_iff.mpr (fun _ _ => UInt8.toNat_inj.mp) h))

structure ClaudeLegacyRequestOwner where
  root_session_id : String
  evidence_fingerprint : Digest

structure ClaudeLegacyRequestOwners where
  roots : List String := []
  owners : SortedMap Digest (UInt32 × Digest) := .empty
  refusal : Option IgnoredVeto := none

/-- `sha256_digest`: each part, then a zero. -/
def sha256_digest (out : Outside) (parts : List String) : Digest :=
  out.sha256 (parts.flatMap (fun part => as_bytes part ++ [0]))

def hash_is_valid (hash : String) : Bool :=
  (as_bytes hash).length == 64 &&
    (as_bytes hash).all (fun b => (48 ≤ b && b ≤ 57) || (97 ≤ b && b ≤ 102))

/-- `digest_hex::decode` -/
def digest_hex_decode (value : String) : Option Digest :=
  if hash_is_valid value then
    (unhex (as_bytes value)).bind (fun bytes => if h : bytes.length = 32 then some ⟨bytes, h⟩ else none)
  else none

namespace ClaudeLegacyRequestOwners

variable (out : Outside)

/-- The root member's rows: each request gets its owner. -/
def claim_rows (root_session_id : String) (root : UInt32)
    (trace_by_request : SortedMap String ClaudeTraceOwnershipEvidence) :
    List ClaudeLocalOtelEvidence → ClaudeLegacyRequestOwners →
      ClaudeLegacyRequestOwners × Except IgnoredVeto Unit
  | [], self => (self, .ok ())
  | row :: rest, self =>
    match trace_by_request.get? row.request_id with
    | none => (self, .error .EvidenceGap)
    | some trace =>
      if trim trace.agent_id ≠ "" then (self, .error .EvidenceGap)
      else
        let request_hash := out.sha256 (as_bytes row.request_id)
        let evidence_fingerprint := sha256_digest out ["claude_legacy_request_owner:v1",
          root_session_id, hex request_hash.1, row.fingerprint, trace.fingerprint]
        let claimed := { self with
          owners := self.owners.insert request_hash (root, evidence_fingerprint) }
        if self.owners.contains request_hash then (claimed, .error .MultiRootClaims)
        else claim_rows root_session_id root trace_by_request rest claimed

/-- The root, and the owner of each trace row that names an agent. -/
def owner_members (root_session_id : String) (trace_rows : List ClaudeTraceOwnershipEvidence) :
    SortedMap String Unit :=
  (root_session_id :: (trace_rows.filter (fun row => trim row.agent_id != "")).map
      (fun row => claude_trace_owner_session_id root_session_id row.agent_id)).foldl
    (fun members member => members.insert member ()) .empty

/-- The trace rows by request, the last of each. -/
def traces_by_request (trace_rows : List ClaudeTraceOwnershipEvidence) :
    SortedMap String ClaudeTraceOwnershipEvidence :=
  trace_rows.foldl (fun by_request row => by_request.insert row.request_id row) .empty

/-- What was added before a refusal stays. -/
def try_add_root (self : ClaudeLegacyRequestOwners) (root_session_id : String)
    (api_rows : List ClaudeLocalOtelEvidence)
    (trace_rows : Option (List ClaudeTraceOwnershipEvidence)) :
    ClaudeLegacyRequestOwners × Except IgnoredVeto Unit :=
  match trace_rows with
  | none => (self, .error .EvidenceGap)
  | some trace_rows =>
    match classify_claude_usage_ledger_with_rows out id root_session_id
        (owner_members root_session_id trace_rows) api_rows trace_rows with
    | .error refusal => (self, .error refusal)
    | .ok reduced =>
      if 2 ^ 32 ≤ self.roots.length then (self, .error .EvidenceGap)
      else
        let root := UInt32.ofNat self.roots.length
        let pushed := { self with roots := self.roots ++ [root_session_id] }
        match reduced.rows_by_member.get? root_session_id with
        | none => (pushed, .error .EvidenceGap)
        | some rows => claim_rows out root_session_id root (traces_by_request trace_rows) rows pushed

/-- The first refusal stops it. -/
def add_root (self : ClaudeLegacyRequestOwners) (root_session_id : String)
    (api_rows : List ClaudeLocalOtelEvidence)
    (trace_rows : Option (List ClaudeTraceOwnershipEvidence)) : ClaudeLegacyRequestOwners :=
  match self.refusal with
  | some _ => self
  | none =>
    match self.try_add_root out root_session_id api_rows trace_rows with
    | (added, .ok ()) => added
    | (added, .error refusal) => { added with refusal := some refusal }

def verdict (self : ClaudeLegacyRequestOwners) : Except IgnoredVeto ClaudeLegacyRequestOwners :=
  match self.refusal with
  | none => .ok self
  | some refusal => .error refusal

/-- The owner of the request whose SHA-256 hex is `request_hash`. -/
def get (self : ClaudeLegacyRequestOwners) (request_hash : String) :
    Option ClaudeLegacyRequestOwner := do
  let request_hash ← digest_hex_decode request_hash
  let (root, evidence_fingerprint) ← self.owners.get? request_hash
  let root_session_id ← self.roots[root.toNat]?
  some { root_session_id, evidence_fingerprint }

end ClaudeLegacyRequestOwners

/-- A root's rows, as the sidecars hold them. -/
structure Root where
  root_session_id : String
  api_rows : List ClaudeLocalOtelEvidence
  trace_rows : Option (List ClaudeTraceOwnershipEvidence)

def classify_claude_legacy_request_owners (out : Outside) (roots : List Root) :
    Except IgnoredVeto ClaudeLegacyRequestOwners :=
  (roots.foldl (fun (owners : ClaudeLegacyRequestOwners) root =>
    owners.add_root out root.root_session_id root.api_rows root.trace_rows) {}).verdict

end ottto_service.claude_usage_ledger
