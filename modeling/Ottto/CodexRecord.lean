-- The readers of one rollout line (sources/codex/identity.rs, line.rs and
-- rollout_header.rs): the header, its identities and its creator, and the token totals.
import Ottto.Json
import Ottto.Rows
import Ottto.UploadIndex

namespace ottto_service.json_fields

open serde_json

/-- `str::parse::<u64>` -/
def parse_u64 (s : String) : Option UInt64 :=
  let digits := if s.toList.head? = some '+' then s.toList.tail else s.toList
  if digits = [] ∨ digits.any (fun c => !c.isDigit) then none
  else
    let n := digits.foldl (fun n c => 10 * n + (c.toNat - 48)) 0
    if n < 2 ^ 64 then some (UInt64.ofNat n) else none

def u64_at (value : Value) (path : List String) : Option UInt64 :=
  match value.pointer path with
  | some (.number (.PosInt n)) => some n
  | some (.string s) => parse_u64 s
  | _ => none

example : u64_at (.object [("ordinal", .string "+12")]) ["ordinal"] = some 12 := by decide

end ottto_service.json_fields

namespace ottto_service.sources.codex

open serde_json json_fields usage accumulator

/-! ## Identities -/

/-- The source reads bytes: each of the 36 is one character, or the shape fails. -/
def codex_identity_is_uuid_shaped (value : String) : Bool :=
  value.length == 36 && value.toList.zipIdx.all (fun (c, index) =>
    if index = 8 ∨ index = 13 ∨ index = 18 ∨ index = 23 then c == '-' else is_ascii_hexdigit c)

def resolve_codex_identity (value : String) : String :=
  if codex_identity_is_uuid_shaped value then value.map Char.toLower else value

def resolve_codex_identity_option (value : Option String) : Option String :=
  value.map resolve_codex_identity

def codex_identity_at (value : Value) (path : List String) : Option String :=
  match value.pointer path with
  | some (.string s) => if s ≠ "" then some s else none
  | _ => none

/-! ## The header

The payload of a `session_meta` line is the `header` of the functions below. -/

def codex_session_meta_payload (value : Value) : Option Value :=
  if string_eq_at value ["type"] "session_meta" then value.get "payload"
  else value.pointer ["session_meta", "payload"]

def codex_session_id_is_native_parent (header : Value) (session_id : String) : Bool :=
  if !string_eq_at header ["thread_source"] "subagent" then false
  else
    match resolve_codex_identity_option
        (codex_identity_at header ["source", "subagent", "thread_spawn", "parent_thread_id"]) with
    | none => false
    | some parent =>
      parent == session_id ||
        ((header.pointer ["source", "subagent", "thread_spawn", "depth"]).bind Value.as_u64 == some 2 &&
          (resolve_codex_identity_option (codex_identity_at header ["id"])).any
            (fun id => id != parent && id != session_id))

def codex_paginated_fork_creation_header (value header : Value) : Bool :=
  if !string_eq_at header ["history_mode"] "paginated" ||
      string_eq_at header ["thread_source"] "subagent" ||
      string_eq_at header ["thread_source"] "agent_created_thread" ||
      (header.pointer ["source", "subagent"]).isSome ||
      (header.get "subagent_history_start_ordinal").isSome then
    false
  else
    match resolve_codex_identity_option (codex_identity_at header ["id"]),
        resolve_codex_identity_option (codex_identity_at header ["forked_from_id"]) with
    | some id, some parent =>
      id != parent &&
        resolve_codex_identity_option (codex_identity_at header ["session_id"]) == some id &&
        (resolve_codex_identity_option (codex_identity_at header ["history_base", "thread_id"])).any
          (fun base => base != id) &&
        (u64_at value ["ordinal"]).any (fun ordinal =>
          u64_at header ["history_base", "end_ordinal_exclusive"] == some ordinal)
    | _, _ => false

/-- ottto-core, claude_account.rs -/
def billing_identity_hash (provider kind value : String) : Option String :=
  let lower := fun s : String => (trim s).map Char.toLower
  if trim value = "" then none
  else
    some (snapshots.hex_lower
      (Sha256.digest (lower provider ++ ":" ++ lower kind ++ ":" ++ lower value).toUTF8.toList))

def codex_raw_creator_pair (header : Value) : Option (String × String) := do
  let user ← (← header.get "creator_user_id").as_str
  let account ← billing_identity_hash "openai" "account" user
  let account_id ← (← header.get "creator_account_id").as_str
  let workspace ← billing_identity_hash "openai" "workspace" account_id
  some (account, workspace)

/-- `SessionAccountEvidence`; its other fields are constants. -/
structure SessionAccountEvidence where
  account_identifier_hash : Option String
  provider_workspace_hash : Option String
  source_created_at : Option String

def codex_creator_header_evidence (time : Rfc3339) (value header : Value) :
    Option SessionAccountEvidence := do
  let id ← resolve_codex_identity_option (codex_identity_at header ["id"])
  if (header.get "session_id").isSome then
    let session_id ← resolve_codex_identity_option (codex_identity_at header ["session_id"])
    if session_id ≠ id ∧ !codex_session_id_is_native_parent header session_id then failure
  if (value.get "ordinal").isSome ∧ u64_at value ["ordinal"] ≠ some 0 ∧
      !codex_paginated_fork_creation_header value header then failure
  let (account, workspace) ← codex_raw_creator_pair header
  let envelope_time ← time.parse (← (← value.get "timestamp").as_str)
  let created ← match header.get "timestamp" with
    | some timestamp => timestamp.as_str.bind time.parse
    | none => some envelope_time
  if created < 0 ∨ envelope_time < created then failure
  let source_created_at ← time.format created
  some
    { account_identifier_hash := some account
      provider_workspace_hash := some workspace
      source_created_at := some source_created_at }

/-! ## Usage -/

def usage_object_has_numeric_field (root : Value) (fields : List String) : Bool :=
  fields.any (fun field => ((root.get field).bind Value.as_u64).isSome)

def codex_usage_from_root (root : Value) (cumulative : Bool) : Option UsageTotals :=
  if !usage_object_has_numeric_field root
      ["input_tokens", "inputTokens", "output_tokens", "outputTokens", "cache_read_tokens",
        "cached_input_tokens", "cachedInputTokens", "cache_write_tokens",
        "cache_write_input_tokens", "cacheWriteTokens", "cache_creation_tokens",
        "cacheCreationInputTokens", "reasoning_output_tokens", "request_count", "requests"] then
    none
  else
    let input_details := (root.get "input_tokens_details").or (root.get "prompt_tokens_details")
    let usage : UsageTotals :=
      { input_tokens :=
          ((u64_at root ["input_tokens"]).or (u64_at root ["inputTokens"])).getD 0
        output_tokens :=
          ((u64_at root ["output_tokens"]).or (u64_at root ["outputTokens"])).getD 0
        cache_read_tokens :=
          ((u64_at root ["cache_read_tokens"]).or <| (u64_at root ["cached_input_tokens"]).or <|
            (u64_at root ["cachedInputTokens"]).or <|
            input_details.bind (fun details => u64_at details ["cached_tokens"])).getD 0
        cache_creation_5m_tokens :=
          ((u64_at root ["cache_write_tokens"]).or <| (u64_at root ["cache_write_input_tokens"]).or <|
            (u64_at root ["cacheWriteTokens"]).or <| (u64_at root ["cache_creation_tokens"]).or <|
            (u64_at root ["cacheCreationInputTokens"]).or <|
            input_details.bind (fun details =>
              (u64_at details ["cache_write_tokens"]).or
                (u64_at details ["cache_write_input_tokens"]))).getD 0
        reasoning_output_tokens := (u64_at root ["reasoning_output_tokens"]).getD 0
        request_count := ((u64_at root ["request_count"]).or (u64_at root ["requests"])).getD 0 }
    if usage.request_count = 0 ∧ (cumulative ∨ !usage.is_zero) then
      some { usage with request_count := 1 }
    else some usage

/-- The first of the four places of a `token_count` total. -/
def usage_root (field : String) (value : Value) : Option Value :=
  (value.pointer ["token_count", "info", field]).or <|
    (value.pointer ["payload", "info", field]).or <|
    (value.pointer ["payload", field]).or <| value.pointer [field]

def codex_total_usage (value : Value) : Option UsageTotals :=
  (usage_root "total_token_usage" value).bind (fun root => codex_usage_from_root root true)

def codex_last_usage_root (value : Value) : Option Value := usage_root "last_token_usage" value

def codex_last_usage (value : Value) : Option UsageTotals :=
  (codex_last_usage_root value).bind (fun root => codex_usage_from_root root false)

end ottto_service.sources.codex
