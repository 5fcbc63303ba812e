-- The reader of the scan index that hands the census evidence on in canonical form
-- (claude_request_census.rs): its scanner, a byte at a time, and the reads that copy whole runs.
import Ottto.JsonScan
import Ottto.JsonReader

open json_grammar

namespace ottto_service.lenient_decode

def FIELDS : List String :=
  ["schema_version", "generation", "upload_context_fingerprint", "files",
    "session_account_bindings", "terminal_jsonl_dispositions", "known_configured_scan_roots",
    "legacy_unresolved_root_file_witnesses", "codex_state_only_snapshot_fingerprints",
    "codex_state_only_blocked_session_ids", "codex_state_only_blocked_by_file",
    "codex_state_only_blocked_unattributed", "codex_state_only_blocked_legacy",
    "codex_state_only_blocked_attributed", "codex_parent_ownership_refs",
    "codex_parent_ownership_ledgers", "codex_parent_side_requests", "codex_parent_side",
    "codex_parent_side_generation", "codex_parent_proof_wrap_epoch",
    "codex_parent_prefix_proofs", "codex_parent_proof_cursor", "codex_parent_side_cursor",
    "codex_parent_proof_seq", "codex_proof_index_incarnation", "claude_desktop_title_files",
    "claude_account_family_witnesses", "claude_account_family_pending",
    "claude_usage_family_witnesses", "claude_usage_family_pending", "claude_request_census",
    "claude_request_census_shadow", "claude_usage_authority_quarantine",
    "claude_retired_family_tombstones", "claude_retired_family_tombstones_initialized",
    "claude_retired_family_tombstones_uncertain", "claude_duplicate_request_owners",
    "claude_duplicate_request_witness_overflowed", "claude_owned_start_census",
    "claude_account_deferred_holds", "claude_duplicate_fence_rearm_attempt",
    "claude_duplicate_fence_next_full_rearm_unix_seconds", "claude_full_rearm_progress",
    "claude_request_identity_contract", "claude_request_identity_contract_changed",
    "claude_desktop_store_cursor", "claude_desktop_store_upper_bound",
    "claude_desktop_store_sweep_had_errors", "claude_desktop_identity_census_complete",
    "claude_desktop_lineage_census_complete", "claude_desktop_census_witness",
    "claude_desktop_store_retry_attempt", "claude_desktop_store_retry_not_before_unix_seconds",
    "resume_after_path", "resume_upper_bound_path", "resume_census_window_end",
    "bounded_sweep_had_unsettled_upload", "bounded_sweep_unsettled_causes", "traversal",
    "claude_stale_family_carry", "scan_residue_witness", "historical_replay_generation",
    "context_curve_capability_enabled", "context_curve_replay_epoch",
    "completed_context_curve_replay_generation", "confirmed_empty_files",
    "file_snapshot_fingerprints", "snapshot_activity_at", "accepted_snapshot_fingerprints",
    "accepted_snapshot_fingerprint_ledger_version",
    "legacy_settlement_reconcile_after_fingerprint", "quarantined_snapshot_fingerprints",
    "claude_history_cutoff_unix_seconds", "claude_history_gate_loaded",
    "claude_history_move_not_full", "claude_history_move_released",
    "accepted_incidence_pending_census", "accepted_rebuild_incidence",
    "accepted_rebuild_pending_since_unix_seconds", "accepted_rebuild_last_alarm_unix_seconds",
    "codex_counting_tombstones", "reread_guard", "codex_counting_evicted_legacy",
    "upload_ack_retirement_handoff", "held_audit_progress", "claude_money_birth_store",
    "claude_desktop_store_inventory", "claude_copy_removals", "upload_context_proof", "archives",
    "archive_deferred_alarm_count", "copy_prefix_last_accepted_nonce",
    "claude_folder_login_ledger", "tail_discovery"]

end ottto_service.lenient_decode

namespace ottto_service.claude_request_census

open lenient_decode (FIELDS)

/-- Above it evidence is unknown, never corruption. -/
def MAX_EVIDENCE_DEPTH : Nat := 256

/-- `serde_json` reads a text as a `String`: UTF-8, every escape decoded, and
nothing but space around it. -/
def read_string (text : Text) : Option String :=
  (String.fromUTF8? ⟨text.toArray⟩).bind (fun text =>
    match serde_json.Reader.skip text.toList with
    | '"' :: rest =>
      (serde_json.Reader.readString (rest.length + 1) rest).bind (fun (name, rest) =>
        if serde_json.Reader.skip rest = [] then some (String.ofList name) else none)
    | _ => none)

/-! ## The reader underneath -/

/-- What the reader underneath gives at one call. It ends where its deliveries end. -/
inductive Delivery
  | interrupted
  | bytes (first : UInt8) (rest : Text)

def Delivery.text : Delivery → Text
  | .interrupted => []
  | .bytes first rest => first :: rest

def delivered (deliveries : List Delivery) : Text := deliveries.flatMap Delivery.text

/-- The input in one delivery. -/
def whole : Text → List Delivery
  | [] => []
  | first :: rest => [.bytes first rest]

structure BufReader where
  buffer : Text
  deliveries : List Delivery

namespace BufReader

/-- All the bytes that are left. -/
def left (r : BufReader) : Text := r.buffer ++ delivered r.deliveries

/-- The next delivery in the buffer. An interrupted call is made again: `byte` retries it, and in
`read` it goes round the loop with nothing changed. -/
def refill : List Delivery → BufReader
  | [] => ⟨[], []⟩
  | .interrupted :: more => refill more
  | .bytes first rest :: more => ⟨first :: rest, more⟩

/-- At the end of the input the buffer stays empty. -/
def fill_buf (r : BufReader) : BufReader :=
  match r with
  | ⟨[], deliveries⟩ => refill deliveries
  | ⟨_ :: _, _⟩ => r

def consume (r : BufReader) (count : Nat) : BufReader := { r with buffer := r.buffer.drop count }

def byte (r : BufReader) : Option UInt8 × BufReader :=
  match r.fill_buf with
  | ⟨byte :: buffer, deliveries⟩ => (some byte, ⟨buffer, deliveries⟩)
  | ⟨[], deliveries⟩ => (none, ⟨[], deliveries⟩)

end BufReader

/-! ## The scanner -/

/-- What `serde_json` makes of the bytes of a value: the text of the census or of the shadow state that
they hold, or else of the default. -/
structure Canonical where
  census : Text → Text
  shadow : Text → Text
  census_nonempty : ∀ bytes, census bytes ≠ []
  shadow_nonempty : ∀ bytes, shadow bytes ≠ []

structure CensusRead where
  reader : BufReader
  replay : Option UInt8
  output : Text
  depth : Nat
  root_array : Bool
  array_index : Nat
  retired_guard : Bool
  quoted : Bool
  escaped : Bool
  expect_key : Bool
  seen_census : Bool
  seen_shadow : Bool
  duplicate_census : Bool
  duplicate_shadow : Bool
  shadow_key : Bool
  shadow_state : Bool
  capture : Bool
  syntax_only : Bool

/-- The slots of the three fields in a positional array. -/
def sequence_fields : Nat × Nat × Nat :=
  (FIELDS.idxOf "claude_request_census", FIELDS.idxOf "claude_request_census_shadow",
    FIELDS.idxOf "reread_guard")

namespace CensusRead

def new (deliveries : List Delivery) (syntax_only : Bool) : CensusRead where
  reader := ⟨[], deliveries⟩
  replay := none
  output := []
  depth := 0
  root_array := false
  array_index := 0
  retired_guard := false
  quoted := false
  escaped := false
  expect_key := false
  seen_census := false
  seen_shadow := false
  duplicate_census := false
  duplicate_shadow := false
  shadow_key := false
  shadow_state := false
  capture := false
  syntax_only := syntax_only

/-- The bytes that `byte` has still to give. -/
def left (s : CensusRead) : Text := s.replay.toList ++ s.reader.left

def with_reader (s : CensusRead) (reader : BufReader) : CensusRead := { s with reader := reader }

def with_replay (s : CensusRead) (replay : Option UInt8) : CensusRead := { s with replay := replay }

def with_output (s : CensusRead) (output : Text) : CensusRead := { s with output := output }

def byte (s : CensusRead) : Option UInt8 × CensusRead :=
  match s.replay with
  | some byte => (some byte, s.with_replay none)
  | none => (s.reader.byte.1, s.with_reader s.reader.byte.2)

/-- The loop of `root_key`: at most so many more bytes of the key. -/
def root_key_bytes : Nat → CensusRead → Text → Text × CensusRead
  | 0, s, key => (key, s)
  | room + 1, s, key =>
    match s.byte with
    | (none, s) => (key, s)
    | (some byte, s) =>
      if s.escaped then root_key_bytes room { s with escaped := false } (key ++ [byte])
      else if byte = 0x5C then root_key_bytes room { s with escaped := true } (key ++ [byte])
      else if byte = 0x22 then (key ++ [byte], { s with quoted := false })
      else root_key_bytes room s (key ++ [byte])

def ignored_retired_reread_guard : Text := "\"_ignored_retired_reread_guard\"".toUTF8.toList

def ignored_census_duplicate : Text := "\"_ignored_census_duplicate\"".toUTF8.toList

/-- What the name of a complete root key does, and the key that stands for it. -/
def named_key (s : CensusRead) (key : Text) : Text × CensusRead :=
  match read_string key with
  | some "claude_request_census" =>
    let duplicate := s.seen_census
    let s := { s with
      shadow_key := true, shadow_state := false, seen_census := true,
      duplicate_census := s.duplicate_census || duplicate }
    (if duplicate then ignored_census_duplicate else key, s)
  | some "claude_request_census_shadow" =>
    let duplicate := s.seen_shadow
    let s := { s with
      shadow_key := true, shadow_state := true, seen_shadow := true,
      duplicate_shadow := s.duplicate_shadow || duplicate }
    (if duplicate then ignored_census_duplicate else key, s)
  | some "reread_guard" =>
    (ignored_retired_reread_guard, { s with shadow_key := true, retired_guard := true })
  | _ => (key, s)

/-- Buffer only enough of a root key to recognize every escaped spelling of our names. Long ordinary
keys continue streaming unchanged. -/
def root_key (s : CensusRead) : Text × CensusRead :=
  let (key, s) := root_key_bytes 255 { s with quoted := true, escaped := false } [0x22]
  let s := { s with shadow_key := false, retired_guard := false }
  if s.quoted then (key, s) else s.named_key key

/-- The locals of `evidence`. -/
structure Evidence where
  bytes : Text
  scan : Scan
  overflow : Bool

def Evidence.push (e : Evidence) (byte : UInt8) : Evidence :=
  let scan := e.scan.step byte
  if e.overflow then { e with scan := scan }
  else if !e.scan.quoted && (byte == 0x7B || byte == 0x5B) && decide (MAX_EVIDENCE_DEPTH < scan.depth)
    then { bytes := [], scan := scan, overflow := true }
  else { e with bytes := e.bytes ++ [byte], scan := scan }

/-- The loop of `evidence`, a byte a turn. -/
def evidence_bytes : Nat → CensusRead → Evidence → Evidence × CensusRead
  | 0, s, e => (e, s)
  | turns + 1, s, e =>
    match s.byte with
    | (none, s) => (e, s)
    | (some byte, s) =>
      if e.scan.stops byte then (e, s.with_replay (some byte))
      else evidence_bytes turns s (e.push byte)

/-- The value up to the byte that ends it, and the canonical text that stands for it. -/
def evidence (canonical : Canonical) (s : CensusRead) : Text × CensusRead :=
  let (e, s) := evidence_bytes (s.left.length + 1) s
    { bytes := [], scan := Scan.start, overflow := s.syntax_only || s.retired_guard }
  (if e.overflow then null_text
    else if s.shadow_state then canonical.shadow e.bytes
    else canonical.census e.bytes, s)

def is_ascii_whitespace (byte : UInt8) : Bool :=
  byte == 0x20 || byte == 0x09 || byte == 0x0A || byte == 0x0C || byte == 0x0D

/-- The next byte of `output`, where it has one. -/
def pop (s : CensusRead) : Option UInt8 × CensusRead :=
  match s.output with
  | [] => (none, s)
  | byte :: output => (some byte, s.with_output output)

/-- A new output, and its first byte. Where `next` calls itself, its output is not empty any more. -/
def give (s : CensusRead) (output : Text) : Option UInt8 × CensusRead := (s.with_output output).pop

def release (s : CensusRead) : CensusRead := { s with capture := false }

/-- What a byte of the text itself does to the state. -/
def structure_byte (s : CensusRead) (byte : UInt8) : CensusRead :=
  if s.quoted then
    if s.escaped then { s with escaped := false }
    else if byte = 0x5C then { s with escaped := true }
    else if byte = 0x22 then { s with quoted := false }
    else s
  else if byte = 0x22 then { s with quoted := true }
  else if byte = 0x7B ∨ byte = 0x5B then
    { s with
      root_array := if s.depth = 0 then byte == 0x5B else s.root_array
      expect_key := if s.depth = 0 then byte == 0x7B else s.expect_key
      depth := s.depth + 1 }
  else if byte = 0x7D ∨ byte = 0x5D then { s with depth := s.depth - 1 }
  else if byte = 0x3A ∧ s.depth = 1 then
    { s with expect_key := false, capture := s.shadow_key, shadow_key := false }
  else if byte = 0x2C ∧ s.depth = 1 then
    { s with shadow_key := false, expect_key := !s.root_array, array_index := s.array_index + 1 }
  else s

/-- The slot of a field whose value is not handed on as it is. -/
def is_drained_slot (index : Nat) : Bool :=
  index == sequence_fields.1 || index == sequence_fields.2.1 || index == sequence_fields.2.2

/-- The byte starts the value of such a slot of a positional array. -/
def starts_slot (s : CensusRead) (byte : UInt8) : Bool :=
  s.root_array && s.depth == 1 && !s.quoted && !is_ascii_whitespace byte &&
    !(byte == 0x2C || byte == 0x5D) && is_drained_slot s.array_index

def enter_slot (s : CensusRead) (byte : UInt8) : CensusRead :=
  { s with
    shadow_state := s.array_index == sequence_fields.2.1
    retired_guard := s.array_index == sequence_fields.2.2
    replay := some byte }

/-- The byte starts a key of the root object. -/
def starts_key (s : CensusRead) (byte : UInt8) : Bool :=
  byte == 0x22 && !s.quoted && s.depth == 1 && !s.root_array && s.expect_key

/-- The byte that a `next` gave, and what follows it; nothing where it gave none. -/
def before_more (next : Option UInt8 × CensusRead) (more : CensusRead → Text × CensusRead) :
    Text × CensusRead :=
  match next with
  | (none, s) => ([], s)
  | (some byte, s) => (byte :: (more s).1, (more s).2)

section

variable (canonical : Canonical)

/-- `next` once the output is empty and no evidence is due. -/
def next_byte (s : CensusRead) : Option UInt8 × CensusRead :=
  match s.byte with
  | (none, s) => (none, s)
  | (some byte, s) =>
    if s.starts_slot byte then
      let (output, s) := (s.enter_slot byte).evidence canonical
      s.give output
    else if s.starts_key byte then
      let (output, s) := s.root_key
      s.give output
    else (some byte, s.structure_byte byte)

def next (s : CensusRead) : Option UInt8 × CensusRead :=
  if s.output ≠ [] then s.pop
  else if s.capture then
    let (output, s) := s.release.evidence canonical
    s.give output
  else s.next_byte canonical

/-- `next` so many times, or until it has no byte. -/
def repeat_next : Nat → CensusRead → Text × CensusRead
  | 0, s => ([], s)
  | count + 1, s => before_more (s.next canonical) (repeat_next count)

/-! ## The reads -/

/-- A byte that a run of the buffer may hold. -/
def in_run (s : CensusRead) (byte : UInt8) : Bool :=
  if s.quoted then !(byte == 0x22 || byte == 0x5C)
  else !(byte == 0x22 || byte == 0x7B || byte == 0x7D || byte == 0x5B || byte == 0x5D ||
    byte == 0x3A || byte == 0x2C)

/-- Every top-level sequence value must visit `next`, even a scalar with no structural byte, to
recognize census slots. -/
def must_visit (s : CensusRead) : Bool :=
  s.capture || s.replay.isSome || s.escaped || (s.root_array && s.depth == 1 && !s.quoted)

/-- The run at the start of the buffer that fits the room. -/
def run_of (s : CensusRead) (room : Nat) : Text := (s.reader.buffer.take room).takeWhile s.in_run

/-- The loop of `read`: the output first, then a run of the buffer, then `next`. Each turn gives a byte
or is the last, so the room is enough of them. -/
def read_turns : Nat → Nat → CensusRead → Text × CensusRead
  | 0, _, s => ([], s)
  | turns + 1, room, s =>
    if room = 0 then ([], s)
    else if s.output ≠ [] then
      let copied := s.output.take room
      let (more, s) := read_turns turns (room - copied.length) (s.with_output (s.output.drop room))
      (copied ++ more, s)
    else
      let s := if s.must_visit then s else s.with_reader s.reader.fill_buf
      let run := if s.must_visit then [] else s.run_of room
      if run ≠ [] then
        let (more, s) :=
          read_turns turns (room - run.length) (s.with_reader (s.reader.consume run.length))
        (run ++ more, s)
      else before_more (s.next canonical) (read_turns turns (room - 1))

def read (room : Nat) (s : CensusRead) : Text × CensusRead := read_turns canonical room room s

/-- Reads into buffers of the sizes given, one after the other. -/
def reads : List Nat → CensusRead → Text × CensusRead
  | [], s => ([], s)
  | size :: sizes, s =>
    let (bytes, s) := s.read canonical size
    let (more, s) := reads sizes s
    (bytes ++ more, s)

end

end CensusRead

end ottto_service.claude_request_census
