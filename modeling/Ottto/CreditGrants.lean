-- The grant list of a credit balance (quota_credit_model.rs): how a provider record becomes
-- a grant, what refuses it, and what the list says of the balance.
import Ottto.SectionCache
import Ottto.CanonicalJson
import Ottto.Rows
import Ottto.Sha256
import Ottto.UploadIndex

open Words

/-! ## Provider display text (ottto-protocol/src/lib.rs) -/

namespace ottto_protocol

open ottto_service.json_fields

/-- The Unicode tables of the standard library and of `unicode_normalization`. -/
structure Unicode where
  to_lowercase : Char → List Char
  nfkc : List Char → List Char

def to_ascii_lowercase (c : Char) : Char := if c.isUpper then c.toLower else c

def forbidden_fragments : List String :=
  ["/users/", "\\users\\", "/home/", "\\home\\", "/.codex", "\\.codex", "/.claude", "\\.claude",
    "/.pi/", "\\.pi\\", "authorization:", "bearer ", "otdev_", "otsi_", "otsr_", "otsct_", "otel_",
    "otrelay_", "sk-"]

/-- The characters that may stand around a path. -/
def is_wrapping (c : Char) : Bool :=
  c ∈ ['"', '\'', ',', ';', ')', '(', '[', ']', '{', '}']

def is_safe_backend_text_without_email_guard (value : List Char) : Bool :=
  let normalized := value.map to_ascii_lowercase
  let trimmed := ((normalized.dropWhile is_wrapping).reverse.dropWhile is_wrapping).reverse
  !normalized.all is_whitespace &&
    forbidden_fragments.all (fun fragment => !decide (fragment.toList <:+: normalized)) &&
    ["/", "~/", "file:/", "http://", "https://"].all (fun start =>
      !start.toList.isPrefixOf trimmed)

def is_safe_backend_text (value : List Char) : Bool :=
  !value.contains '@' && is_safe_backend_text_without_email_guard value

/-- Unicode `Cf` characters. -/
def is_format_char (c : Char) : Bool :=
  [(0xAD, 0xAD), (0x600, 0x605), (0x61C, 0x61C), (0x6DD, 0x6DD), (0x70F, 0x70F), (0x890, 0x891),
    (0x8E2, 0x8E2), (0x180E, 0x180E), (0x200B, 0x200F), (0x202A, 0x202E), (0x2060, 0x2064),
    (0x2066, 0x206F), (0xFEFF, 0xFEFF), (0xFFF9, 0xFFFB), (0x110BD, 0x110BD), (0x110CD, 0x110CD),
    (0x1BCA0, 0x1BCA3), (0x1D173, 0x1D17A), (0xE0001, 0xE0001), (0xE0020, 0xE007F)].any
    (fun range => decide (range.1 ≤ c.toNat) && decide (c.toNat ≤ range.2))

/-- A full-width form or a lookalike as its ASCII form; `none` for an invisible one. -/
def fold_char (c : Char) : Option Char :=
  if 0xFF01 ≤ c.toNat ∧ c.toNat ≤ 0xFF5E then some (Char.ofNat (c.toNat - 0xFEE0))
  else if c.toNat ∈ [0x2044, 0x2215, 0x29F8] then some '/'
  else if c.toNat = 0xFE6B then some '@'
  else if c.toNat ∈ [0x2216, 0x29F5, 0x29F9, 0xFE68] then some '\\'
  else if is_format_char c then none
  else some c

section

variable (unicode : Unicode)

/-- A whitespace run becomes one space; `in_space` when one was written. -/
def fold_for_privacy_match : Bool → List Char → List Char
  | _, [] => []
  | in_space, c :: rest =>
    match fold_char c with
    | none => fold_for_privacy_match in_space rest
    | some mapped =>
      if is_whitespace mapped then
        (if in_space then [] else [' ']) ++ fold_for_privacy_match true rest
      else unicode.to_lowercase mapped ++ fold_for_privacy_match false rest

def is_backend_safe_credit_text (value : List Char) : Bool :=
  is_safe_backend_text value && is_safe_backend_text (fold_for_privacy_match unicode false value)

end

def is_credit_reason_code (value : String) : Bool :=
  decide (1 ≤ value.utf8ByteSize) && decide (value.utf8ByteSize ≤ 64) &&
    value.toList.all (fun c => c.isLower || c.isDigit || c == '_' || c == '.' || c == '-')

end ottto_protocol

namespace ottto_service.quota_credit_model

open ottto_protocol json_fields canonical_json

def GRANTS_MAX : Nat := 20
def GRANT_MAX_BYTES : Nat := 1024
def TITLE_MAX_CHARS : Nat := 128
def TITLE_MAX_BYTES : Nat := 512
def RESETS_MAX : UInt64 := 1000
def CLEARS_MAX_ITEMS : Nat := 8
def GRANT_COUNT_MAX : UInt64 := 10000
def ANTHROPIC_GRANT_ID_MAX : Nat := 40
def OPENAI_GRANT_ID_MAX : Nat := 256

/-! ## Provider records -/

inductive Provider where
  | OpenAi | Anthropic
deriving DecidableEq

def Provider.token : Provider → String
  | .OpenAi => "openai"
  | .Anthropic => "anthropic"

def credit_grant_key (provider : Provider) (id : String) : String :=
  snapshots.hex_lower
    (Sha256.digest (provider.token ++ ":credit_grant:" ++ id).toUTF8.toList)

inductive Field (α : Type) where
  | Absent
  | Value (value : α)
  | Invalid
deriving DecidableEq

inductive TimeInput where
  | Absent
  | Rfc3339 (text : String)
  | UnixSeconds (seconds : Int)
  | Invalid

inductive GrantStatusInput where
  | Reported (word : Field String)
  | PausedResetsLeft (paused : Field Bool) (resets_left : Field UInt64)

structure GrantInput where
  id : Field String := .Absent
  reset_type : Field String := .Absent
  status : GrantStatusInput := .Reported .Absent
  granted_at : TimeInput := .Absent
  starts_at : TimeInput := .Absent
  expires_at : TimeInput := .Absent
  resets_included : Field UInt64 := .Absent
  resets_left : Field UInt64 := .Absent
  clears : Field (List String) := .Absent
  title : Field String := .Absent
  usable_now : Field Bool := .Absent

inductive ListObservation where
  | Read (provider : Provider) (provider_count : Option UInt64) (records : List GrantInput)
      (observed_at : String)
  | Unavailable (provider : Provider) (provider_count : Option UInt64)

/-! ## One field -/

section

variable (time : accumulator.Rfc3339) (unicode : Unicode)

/-- `from_unix_timestamp` reads the years -9999 to 9999. -/
def from_unix_timestamp (seconds : Int) : Option Int :=
  if -377705116800 ≤ seconds ∧ seconds ≤ 253402300799 then some (seconds * 1000000000) else none

/-- `none` is a refused instant. -/
def normalize_time (input : TimeInput) : Option (Option String) :=
  match input with
  | .Absent => some none
  | .Invalid => none
  | .Rfc3339 text => ((time.parse (trim text)).bind time.format).map some
  | .UnixSeconds seconds => ((from_unix_timestamp seconds).bind time.format).map some

/-- The category `Cc`. -/
def is_control (c : Char) : Bool :=
  decide (c.toNat ≤ 0x1f) || (decide (0x7f ≤ c.toNat) && decide (c.toNat ≤ 0x9f))

def grant_id_is_valid : Provider → String → Bool
  | .Anthropic, id =>
    decide (1 ≤ id.utf8ByteSize) && decide (id.utf8ByteSize ≤ ANTHROPIC_GRANT_ID_MAX) &&
      id.toList.all (fun c => c.isLower || c.isDigit || c == '_' || c == '-')
  | .OpenAi, id =>
    decide (1 ≤ id.utf8ByteSize) && decide (id.utf8ByteSize ≤ OPENAI_GRANT_ID_MAX) &&
      !id.toList.any is_control

def field_refused (field : String) : CreditModelDiagnostic := ⟨"field_refused", field⟩

/-- What the model reads from a field, and what it refuses. -/
abbrev Checked (α : Type) := Option α × List CreditModelDiagnostic

def bounded_resets (input : Field UInt64) (field : String) : Checked UInt64 :=
  match input with
  | .Absent => (none, [])
  | .Value value => if value ≤ RESETS_MAX then (some value, []) else (none, [field_refused field])
  | .Invalid => (none, [field_refused field])

def bounded_time (input : TimeInput) (field : String) : Checked String :=
  match normalize_time time input with
  | some value => (value, [])
  | none => (none, [field_refused field])

/-- `none` is a refused status. -/
def grant_status : GrantStatusInput → Option CreditGrantStatus
  | .Reported (.Value word) =>
    if word = "available" then some .Available
    else if word = "redeeming" then some .Redeeming
    else if word = "redeemed" then some .Redeemed
    else if word = "paused" then some .Paused
    else none
  | .Reported _ => none
  | .PausedResetsLeft (.Value true) _ => some .Paused
  | .PausedResetsLeft (.Value false) (.Value left) =>
    if left = 0 then some .Redeemed
    else if left ≤ RESETS_MAX then some .Available
    else none
  | .PausedResetsLeft _ _ => none

def grant_type : Provider → Field String → CreditGrantType × List CreditModelDiagnostic
  | .Anthropic, _ => (.RateLimitReset, [])
  | .OpenAi, reset_type =>
    if reset_type = .Value "codexRateLimits" then (.RateLimitReset, [])
    else (.Unknown, [field_refused "grants[].grant_type"])

def bounded_clears (input : Field (List String)) : Checked (List String) :=
  match input with
  | .Absent => (none, [])
  | .Value names =>
    if decide (names.length ≤ CLEARS_MAX_ITEMS) && names.all is_credit_reason_code then
      (some names, [])
    else (none, [field_refused "grants[].clears"])
  | .Invalid => (none, [field_refused "grants[].clears"])

def bounded_usable_now (input : Field Bool) : Checked Bool :=
  match input with
  | .Absent => (none, [])
  | .Value value => (some value, [])
  | .Invalid => (none, [field_refused "grants[].usable_now"])

def is_privacy_safe_display_text (text : List Char) : Bool :=
  is_backend_safe_credit_text unicode text && is_backend_safe_credit_text unicode (unicode.nfkc text)

/-- The longest start of the text within both bounds. -/
def cut_title : Nat → Nat → List Char → List Char
  | _, _, [] => []
  | count, bytes, c :: rest =>
    if count = TITLE_MAX_CHARS ∨ bytes + c.utf8Size > TITLE_MAX_BYTES then []
    else c :: cut_title (count + 1) (bytes + c.utf8Size) rest

def bounded_title (input : Field String) (field : String) : Checked String :=
  match input with
  | .Absent => (none, [])
  | .Invalid => (none, [field_refused field])
  | .Value text =>
    if text.isEmpty then (none, [])
    else if !is_privacy_safe_display_text unicode text.toList || text.toList.any is_control then
      (none, [field_refused field])
    else if text.length ≤ TITLE_MAX_CHARS ∧ text.utf8ByteSize ≤ TITLE_MAX_BYTES then
      (some text, [])
    else (some (String.ofList (cut_title 0 0 text.toList)), [⟨"title_truncated", field⟩])

/-! ## The wire size of a grant -/

def CreditGrantType.as_str : CreditGrantType → String
  | .RateLimitReset => "rate_limit_reset"
  | .Credit => "credit"
  | .Unknown => "unknown"

def CreditGrantStatus.as_str : CreditGrantStatus → String
  | .Available => "available"
  | .Redeeming => "redeeming"
  | .Redeemed => "redeemed"
  | .Paused => "paused"
  | .Unknown => "unknown"

def string_size (text : String) : Nat := (write_string text []).length

def number_size (number : UInt64) : Nat := (toString number.toNat).length

def names_size (names : List String) : Nat := 2 + (names.map string_size).sum + (names.length - 1)

/-- The size of each member, in the order it is written. -/
def grant_members (grant : AgentCreditGrant) : List (String × Option Nat) :=
  [("grant_key", some (string_size grant.grant_key)),
    ("grant_type", some (string_size grant.grant_type.as_str)),
    ("status", some (string_size grant.status.as_str)),
    ("granted_at", grant.granted_at.map string_size),
    ("starts_at", grant.starts_at.map string_size),
    ("expires_at", grant.expires_at.map string_size),
    ("resets_included", grant.resets_included.map number_size),
    ("resets_left", grant.resets_left.map number_size),
    ("clears", grant.clears.map names_size),
    ("title", grant.title.map string_size),
    ("usable_now", grant.usable_now.map (fun usable => if usable then 4 else 5))]

/-- Compact JSON, with `,"key":null` for each absent member. -/
def grant_wire_size (grant : AgentCreditGrant) : Nat :=
  let written := (grant_members grant).filterMap (fun member =>
    member.2.map (fun size => member.1.utf8ByteSize + 3 + size))
  let absent := (grant_members grant).filter (fun member => member.2.isNone)
  2 + written.sum + (written.length - 1) + (absent.map (fun member => member.1.utf8ByteSize + 8)).sum

/-! ## One grant -/

/-- Display text gives way first. -/
def shed_title (grant : AgentCreditGrant) : AgentCreditGrant × List CreditModelDiagnostic :=
  if grant_wire_size grant > GRANT_MAX_BYTES ∧ grant.title.isSome then
    ({ grant with title := none }, [field_refused "grants[].title"])
  else (grant, [])

def shed_clears (grant : AgentCreditGrant) : AgentCreditGrant × List CreditModelDiagnostic :=
  if grant_wire_size grant > GRANT_MAX_BYTES ∧ grant.clears.isSome then
    ({ grant with clears := none }, [field_refused "grants[].clears"])
  else (grant, [])

def valid_id (provider : Provider) (id : Field String) : Option String :=
  match id with
  | .Value id => if grant_id_is_valid provider id then some id else none
  | _ => none

/-- The fields whose refusal makes the list partial: the two reset counts, the status and
the three times, in this order. -/
def state_refusals (record : GrantInput) : List CreditModelDiagnostic :=
  (bounded_resets record.resets_left "grants[].resets_left").2 ++
    (bounded_resets record.resets_included "grants[].resets_included").2 ++
    (if (grant_status record.status).isNone then [field_refused "grants[].status"] else []) ++
    (bounded_time time record.granted_at "grants[].granted_at").2 ++
    (bounded_time time record.starts_at "grants[].starts_at").2 ++
    (bounded_time time record.expires_at "grants[].expires_at").2

/-- The grant before its size is bounded. -/
def whole_grant (provider : Provider) (id : String) (record : GrantInput) : AgentCreditGrant :=
  { grant_key := credit_grant_key provider id
    grant_type := (grant_type provider record.reset_type).1
    status := (grant_status record.status).getD .Unknown
    granted_at := (bounded_time time record.granted_at "grants[].granted_at").1
    starts_at := (bounded_time time record.starts_at "grants[].starts_at").1
    expires_at := (bounded_time time record.expires_at "grants[].expires_at").1
    resets_included := (bounded_resets record.resets_included "grants[].resets_included").1
    resets_left := (bounded_resets record.resets_left "grants[].resets_left").1
    clears := (bounded_clears record.clears).1
    title := (bounded_title unicode record.title "grants[].title").1
    usable_now := (bounded_usable_now record.usable_now).1 }

/-- The grant, whether a refused field makes the list partial, and what was refused. -/
def build_grant (provider : Provider) (record : GrantInput) :
    Option (AgentCreditGrant × Bool) × List CreditModelDiagnostic :=
  match valid_id provider record.id with
  | none => (none, [⟨"grant_dropped", "grants[].id"⟩])
  | some id =>
    let refusals := state_refusals time record
    let (grant, title_refusals) := shed_title (whole_grant time unicode provider id record)
    let (grant, clears_refusals) := shed_clears grant
    (some (grant, !refusals.isEmpty),
      (grant_type provider record.reset_type).2 ++ refusals ++ (bounded_clears record.clears).2 ++
        (bounded_usable_now record.usable_now).2 ++
        (bounded_title unicode record.title "grants[].title").2 ++ title_refusals ++ clears_refusals)

end

/-! ## The list -/

section

variable (time : accumulator.Rfc3339) (unicode : Unicode)

/-- `expires_at` ascending with no expiry last, then `grant_key`. -/
def grant_order (left right : AgentCreditGrant) : Ordering :=
  (match left.expires_at.bind time.parse, right.expires_at.bind time.parse with
    | some left, some right => compare left right
    | some _, none => .lt
    | none, some _ => .gt
    | none, none => .eq).then (compare left.grant_key right.grant_key)

def sort_grants (grants : List AgentCreditGrant) : List AgentCreditGrant :=
  grants.insertionSort (fun left right => grant_order time left right ≠ .gt)

def counts_toward_next_expiry (grant : AgentCreditGrant) : Bool :=
  grant.status == .Available || grant.status == .Paused

/-- One element of the list, `keeps` choosing between it and those after it. -/
def choose {α : Type} (keeps : α → α → Bool) : List α → Option α
  | [] => none
  | a :: rest =>
    match choose keeps rest with
    | none => some a
    | some b => if keeps a b then some a else some b

/-- `Iterator::min_by_key`: the first of the least. -/
def min_by_key {α : Type} (key : α → Int) : List α → Option α :=
  choose (fun a b => decide (key a ≤ key b))

/-- `Iterator::max_by_key`: the last of the greatest. -/
def max_by_key {α : Type} (key : α → Int) : List α → Option α :=
  choose (fun a b => decide (key b < key a))

/-- The texts with their instants; a text that is no instant is left out. -/
def instants (texts : List (Option String)) : List (Int × String) :=
  texts.filterMap (fun text => do
    let text ← text
    let instant ← time.parse text
    some (instant, text))

def next_expires_at (grants : List AgentCreditGrant) : Option String :=
  (min_by_key Prod.fst (instants time ((grants.filter counts_toward_next_expiry).map
    (fun grant => grant.expires_at)))).map Prod.snd

def latest_granted_at (grants : List AgentCreditGrant) : Option String :=
  (max_by_key Prod.fst (instants time (grants.map (fun grant => grant.granted_at)))).map Prod.snd

def bounded_grant_count (count : Option UInt64) : Checked UInt64 :=
  match count with
  | some count =>
    if GRANT_COUNT_MAX < count then (none, [field_refused "grant_count"]) else (some count, [])
  | none => (none, [])

structure GrantsBuild where
  grants : Option (List AgentCreditGrant) := none
  grants_state : Option CreditGrantsState := none
  grant_count : Option UInt64 := none
  grants_observed_at : Option String := none
  sender_capped : Bool := false
  sender_capped_next_expires_at : Option String := none
  provider : Option Provider := none
  diagnostics : List CreditModelDiagnostic := []

/-- Whether the provider counts more records than it sent; `none` when its count is not a
guarantee of completeness. -/
def provider_capped (provider_count : Option UInt64) (returned : Nat) : Option Bool :=
  provider_count.bind (fun count =>
    if count.toNat = returned then some false
    else if returned < count.toNat then some true
    else none)

/-- `Partial` over `Capped` over `Complete`. -/
def list_state (refused : Bool) (capped : Option Bool) (cut : Bool) : CreditGrantsState :=
  if refused || capped.isNone then .Partial
  else if cut || capped == some true then .Capped
  else .Complete

/-- The list was complete before the daemon's own cap cut it. -/
def is_sender_capped (refused : Bool) (capped : Option Bool) (cut : Bool) : Bool :=
  cut && capped == some false && !refused

def build_grants (obs : ListObservation) : GrantsBuild :=
  match obs with
  | .Unavailable provider provider_count =>
    let (grant_count, diagnostics) := bounded_grant_count provider_count
    { grants_state := some .Unavailable, grant_count, provider := some provider, diagnostics }
  | .Read provider provider_count records observed_at =>
    let (grant_count, count_diagnostics) := bounded_grant_count provider_count
    let built := records.map (build_grant time unicode provider)
    let grants := sort_grants time (built.filterMap (fun result => result.1.map Prod.fst))
    let refused := built.any (fun result => result.1.elim true Prod.snd)
    let capped := provider_capped provider_count records.length
    let cut := decide (GRANTS_MAX < grants.length)
    { grants := some (grants.take GRANTS_MAX)
      grants_state := some (list_state refused capped cut)
      grant_count
      grants_observed_at := some observed_at
      sender_capped := is_sender_capped refused capped cut
      sender_capped_next_expires_at :=
        if is_sender_capped refused capped cut then next_expires_at time grants else none
      provider := some provider
      diagnostics := count_diagnostics ++ built.flatMap Prod.snd ++
        (if cut then [⟨"grants_capped", "grants"⟩] else []) }

/-! ## The balance -/

def status_for_remaining : Option UInt64 → AgentCreditBalanceStatus
  | some 0 => .Exhausted
  | some _ => .Ok
  | none => .Unknown

def is_saved_resets (balance : AgentCreditBalance) : Bool :=
  balance.kind == some .SavedResets && balance.unit == .Resets

/-- The resets left of the grants that are not paused; the sum of `u64` wraps. -/
def resets_left (grants : List AgentCreditGrant) : UInt64 :=
  ((grants.filter (fun grant => grant.status ≠ .Paused)).filterMap
    (fun grant => grant.resets_left)).foldl (· + ·) 0

def is_complete (balance : AgentCreditBalance) : Bool := balance.grants_state == some .Complete

/-- Only a complete list is a basis of the times. -/
def with_times (balance : AgentCreditBalance) : AgentCreditBalance :=
  { balance with
    next_expires_at :=
      if is_complete balance then next_expires_at time (balance.grants.getD []) else none
    latest_granted_at :=
      if is_complete balance then latest_granted_at time (balance.grants.getD []) else none }

/-- Anthropic counts no saved resets of its own. -/
def with_remaining (balance : AgentCreditBalance) (provider : Option Provider) : AgentCreditBalance :=
  if provider = some .Anthropic then
    { balance with
      remaining :=
        if is_complete balance then some (resets_left (balance.grants.getD [])) else none }
  else balance

def summarize (balance : AgentCreditBalance) (provider : Option Provider) : AgentCreditBalance :=
  let balance := with_times time balance
  if !is_saved_resets balance then balance
  else
    let balance := with_remaining balance provider
    { balance with status := status_for_remaining balance.remaining }

/-- The balance with the grant section that was built. -/
def GrantsBuild.write (build : GrantsBuild) (balance : AgentCreditBalance) : AgentCreditBalance :=
  { balance with
    grants := build.grants
    grants_state := build.grants_state
    grant_count := build.grant_count
    grants_observed_at := build.grants_observed_at }

def GrantsBuild.apply_to (build : GrantsBuild) (balance : AgentCreditBalance) :
    AgentCreditBalance × List CreditModelDiagnostic :=
  let balance := summarize time (build.write balance) build.provider
  (if build.sender_capped && balance.grants_state == some .Capped then
      { balance with next_expires_at := build.sender_capped_next_expires_at }
    else balance, build.diagnostics)

end

end ottto_service.quota_credit_model
