-- The record of a file's request ids as the index stores it (claude_request_census.rs): its fields on
-- the wire, the two spellings of its hashes, and the visitor that reads it.
import Ottto.Base64
import Ottto.LedgerOwners

namespace ottto_service.claude_request_census

open serde_json (Value)
open claude_money_birth_store (Digest)
open durable_tail_codec.Durable (as_bytes)
open durable_tail_codec.HDigest (hex nibble)

/-- Serialized scalar strings are bounded. -/
def MAX_CLAUDE_REQUEST_CENSUS_SCALAR_BYTES : Nat := 128

/-! ## The record -/

inductive ClaudeRequestCensusShape
  | Exact
  | Empty
  | IdentityIncomplete
  | Lossy
  | OverBudget
deriving DecidableEq

namespace ClaudeRequestCensusShape

def ALL : List ClaudeRequestCensusShape := [.Exact, .Empty, .IdentityIncomplete, .Lossy, .OverBudget]

def wire : ClaudeRequestCensusShape → String
  | .Exact => "exact"
  | .Empty => "empty"
  | .IdentityIncomplete => "identity_incomplete"
  | .Lossy => "lossy"
  | .OverBudget => "over_budget"

def from_wire (value : String) : Option ClaudeRequestCensusShape :=
  ALL.find? (fun shape => shape.wire == value)

/-- Exact needs an id; Empty and the tombstone carry none. -/
def admits (self : ClaudeRequestCensusShape) (request_hashes : List UInt64) : Bool :=
  match self with
  | .Exact => !request_hashes.isEmpty
  | .Empty | .OverBudget => request_hashes.isEmpty
  | .IdentityIncomplete | .Lossy => true

end ClaudeRequestCensusShape

structure ClaudeRequestBirth where
  unix_seconds : UInt64
  device : UInt64
  inode : UInt64

/-- Birth stubs carry this derivation, which no parse ever produces. -/
def BIRTH_STUB_DERIVATION : UInt16 := 0

/-- The hashes are the shared buffer, which `shared_hashes` builds only where there is a hash. -/
structure ClaudeRequestCensusRecord where
  source_file_fingerprint : Digest
  derivation : UInt16
  window : UInt64
  shape : ClaudeRequestCensusShape
  twin : Bool
  unverified : Bool
  request_hashes : List UInt64
  birth : Option ClaudeRequestBirth
  retired : Option UInt64
  old_path_usage : Option (UInt64 × UInt64)
  modified : Option UInt64

namespace ClaudeRequestCensusRecord

def hash_count (self : ClaudeRequestCensusRecord) : Nat := self.request_hashes.length

/-- Every reader treats the key of a birth stub as having no record. -/
def is_birth_stub (self : ClaudeRequestCensusRecord) : Bool := self.derivation == BIRTH_STUB_DERIVATION

theorem no_fingerprint_length : (List.replicate 32 (0 : UInt8)).length = 32 := List.length_replicate

def birth_stub (birth : ClaudeRequestBirth) : ClaudeRequestCensusRecord where
  source_file_fingerprint := ⟨List.replicate 32 0, no_fingerprint_length⟩
  derivation := BIRTH_STUB_DERIVATION
  window := 0
  shape := .Empty
  twin := false
  unverified := false
  request_hashes := []
  birth := some birth
  retired := none
  old_path_usage := none
  modified := none

end ClaudeRequestCensusRecord

/-! ## The hashes as text -/

/-- `u64::to_be_bytes` -/
def to_be_bytes (hash : UInt64) : List UInt8 :=
  [56, 48, 40, 32, 24, 16, 8, 0].map (fun shift => UInt8.ofNat (hash.toNat / 2 ^ shift))

def big_endian (bytes : List UInt8) : Nat := bytes.foldl (fun n byte => n * 256 + byte.toNat) 0

/-- `u64::from_be_bytes` -/
def from_be_bytes (bytes : List UInt8) : UInt64 := UInt64.ofNat (big_endian bytes)

/-- `chunks` of a slice -/
def chunks {α : Type} (size : Nat) (items : List α) : List (List α) :=
  if _h : items = [] ∨ size = 0 then [] else items.take size :: chunks size (items.drop size)
termination_by items.length
decreasing_by
  have hitems : 0 < items.length := List.length_pos_iff.mpr (fun hnil => _h (.inl hnil))
  have hsize : size ≠ 0 := fun hzero => _h (.inr hzero)
  rw [List.length_drop]
  omega

/-- `HashBase64`: three hashes (24 bytes, 32 characters) at a time. -/
def hash_base64 (hashes : List UInt64) : String :=
  String.ofList ((chunks 3 hashes).flatMap (fun chunk =>
    StandardBase64.encode (chunk.flatMap to_be_bytes)))

/-- The older spelling: 16 hexadecimal digits for each hash. -/
def hash_hex (hashes : List UInt64) : String := hex (hashes.flatMap to_be_bytes)

/-- A hash behind the ones read, each larger than the one before it. -/
def push_hash (hashes : List UInt64) (hash : UInt64) : Option (List UInt64) :=
  if hashes.getLast?.any (fun last => decide (hash ≤ last)) then none else some (hashes ++ [hash])

/-- The engine reads bytes, each of them one character. -/
def latin (bytes : List UInt8) : List Char := bytes.map (fun byte => Char.ofNat byte.toNat)

def decode_base64_chunks : List (List UInt8) → List UInt64 → Option (List UInt64)
  | [], hashes => some hashes
  | chunk :: rest, hashes =>
    -- Only the final chunk may carry padding or a partial group.
    if rest ≠ [] ∧ 0x3D ∈ chunk then none
    else
      (StandardBase64.decode (latin chunk)).bind (fun bytes =>
        if bytes.length = 0 ∨ bytes.length % 8 ≠ 0 then none
        else (((chunks 8 bytes).map from_be_bytes).foldlM push_hash hashes).bind
          (decode_base64_chunks rest))

/-- Strictly ascending, non-empty, whole hashes only; anything else is None. -/
def decode_base64_hashes (value : String) : Option (List UInt64) :=
  let text := as_bytes value
  if text = [] ∨ text.length % 4 ≠ 0 then none else decode_base64_chunks (chunks 32 text) []

def lower_hex (bytes : List UInt8) : Bool := bytes.all (fun byte => (nibble byte).isSome)

/-- `from_str_radix` with radix 16, behind `lower_hex`. -/
def from_hex (bytes : List UInt8) : Option Nat :=
  bytes.foldlM (fun n byte => (nibble byte).map (fun digit => n * 16 + digit.toNat)) 0

def decode_fingerprint (value : String) : Option Digest :=
  let bytes := as_bytes value
  if bytes.length ≠ 64 ∨ lower_hex bytes = false then none
  else ((chunks 2 bytes).mapM from_hex).bind (fun fingerprint =>
    if h : (fingerprint.map UInt8.ofNat).length = 32 then some ⟨fingerprint.map UInt8.ofNat, h⟩
    else none)

def decode_hashes (value : String) : Option (List UInt64) :=
  let bytes := as_bytes value
  if bytes = [] ∨ bytes.length % 16 ≠ 0 ∨ lower_hex bytes = false then none
  else ((chunks 16 bytes).mapM from_hex).bind (fun hashes =>
    (hashes.map UInt64.ofNat).foldlM push_hash [])

/-! ## The record on the wire -/

def of_u64 (n : UInt64) : Value := .number (.PosInt n)

namespace ClaudeRequestCensusRecord

def scalar_member (name : String) : Option UInt64 → List (String × Value)
  | some n => [(name, of_u64 n)]
  | none => []

def birth_members : Option ClaudeRequestBirth → List (String × Value)
  | some birth =>
    [("bi", of_u64 birth.unix_seconds), ("bd", of_u64 birth.device), ("bn", of_u64 birth.inode)]
  | none => []

def usage_members : Option (UInt64 × UInt64) → List (String × Value)
  | some (requests, tokens) => [("ur", of_u64 requests), ("ut", of_u64 tokens)]
  | none => []

/-- The members in the order of the writer. The hashes are the member `hashes`, where there are any. -/
def members (hashes : String × Value) (self : ClaudeRequestCensusRecord) : List (String × Value) :=
  [("v", of_u64 self.derivation.toUInt64), ("fp", .string (hex self.source_file_fingerprint.1)),
    ("w", of_u64 self.window), ("s", .string self.shape.wire)] ++
  (if self.twin then [("tw", .bool true)] else []) ++
  (if self.unverified then [("u", .bool true)] else []) ++
  (if self.request_hashes ≠ [] then [hashes] else []) ++
  birth_members self.birth ++ scalar_member "r" self.retired ++
  usage_members self.old_path_usage ++ scalar_member "m" self.modified

def serialize (self : ClaudeRequestCensusRecord) : Value :=
  .object (self.members ("b", .string (hash_base64 self.request_hashes)))

/-- The record as it was written with the older spelling of its hashes. -/
def serialize_older (self : ClaudeRequestCensusRecord) : Value :=
  .object (self.members ("h", .string (hash_hex self.request_hashes)))

end ClaudeRequestCensusRecord

/-- A scalar the decoder accepts; every other shape is `Other`. -/
inductive Loose
  | U64 (n : UInt64)
  | Bool (b : Bool)
  | Str (s : String)
  | Other

def Loose.deserialize : Value → Loose
  | .bool b => .Bool b
  | .number (.PosInt n) => .U64 n
  | .number (.NegInt n) => if 0 ≤ n then .U64 n.toUInt64 else .Other
  | .string s => if s.utf8ByteSize ≤ MAX_CLAUDE_REQUEST_CENSUS_SCALAR_BYTES then .Str s else .Other
  | _ => .Other

namespace RecordVisitor

def FIELDS : List String :=
  ["v", "fp", "w", "s", "tw", "u", "h", "b", "bi", "bd", "bn", "r", "ur", "ut", "m"]

/-- The other spelling of the field. -/
def other_spelling (field : String) : Option String :=
  if field = "h" then some "b" else if field = "b" then some "h" else none

/-- The locals of `visit_map`. -/
structure Reading where
  seen : List String := []
  malformed : Bool := false
  derivation : Option UInt16 := none
  source_file_fingerprint : Option Digest := none
  window : UInt64 := 0
  shape : Option ClaudeRequestCensusShape := none
  twin : Bool := false
  unverified : Bool := false
  request_hashes : List UInt64 := []
  scalars : List (String × UInt64) := []

def hashes (r : Reading) (decode : String → Option (List UInt64)) (value : Value) : Reading :=
  match value.as_str.bind decode with
  | some hashes => { r with request_hashes := hashes }
  | none => { r with malformed := true }

def u16_try_from (n : UInt64) : Option UInt16 :=
  if n.toNat < 2 ^ 16 then some (UInt16.ofNat n.toNat) else none

/-- The value of a known field that is read for the first time. -/
def field (r : Reading) (name : String) (value : Value) : Reading :=
  if name = "h" then hashes r decode_hashes value
  else if name = "b" then hashes r decode_base64_hashes value
  else match name, Loose.deserialize value with
    | "v", .U64 value => { r with derivation := u16_try_from value }
    | "fp", .Str value => { r with source_file_fingerprint := decode_fingerprint value }
    | "w", .U64 value => { r with window := value }
    | "s", .Str value => { r with shape := ClaudeRequestCensusShape.from_wire value }
    | "tw", .Bool value => { r with twin := value }
    | "u", .Bool value => { r with unverified := value }
    | name, .U64 value =>
      if name ∈ ["v", "fp", "w", "s", "tw", "u"] then { r with malformed := true }
      else { r with scalars := (name, value) :: r.scalars }
    | _, _ => { r with malformed := true }

/-- One turn of the loop: an unknown field is skipped, a second one is malformed. -/
def visit (r : Reading) (member : String × Value) : Reading :=
  if member.1 ∉ FIELDS then r
  else if member.1 ∈ r.seen ∨ (other_spelling member.1).any (fun other => decide (other ∈ r.seen)) then
    { r with malformed := true }
  else field { r with seen := member.1 :: r.seen } member.1 member.2

/-- Grouped fields are all-or-nothing: a partial group is malformed. -/
def group (scalars : List (String × UInt64)) (names : List String) : Option (Option (List UInt64)) :=
  let values := names.map (fun name => scalars.lookup name)
  if values.all Option.isNone then some none
  else if values.all Option.isSome then some (some (values.filterMap id))
  else none

def birth_of : List UInt64 → Option ClaudeRequestBirth
  | [unix_seconds, device, inode] => some ⟨unix_seconds, device, inode⟩
  | _ => none

def usage_of : List UInt64 → Option (UInt64 × UInt64)
  | [requests, tokens] => some (requests, tokens)
  | _ => none

/-- What follows the loop. -/
def finish (r : Reading) : Option ClaudeRequestCensusRecord :=
  if r.malformed then none
  else do
    let derivation ← r.derivation
    let source_file_fingerprint ← r.source_file_fingerprint
    let shape ← r.shape
    let birth ← group r.scalars ["bi", "bd", "bn"]
    let old_path_usage ← group r.scalars ["ur", "ut"]
    let retired := r.scalars.lookup "r"
    let modified := r.scalars.lookup "m"
    if shape.admits r.request_hashes ∨ retired.isSome then
      some {
        source_file_fingerprint, derivation, window := r.window, shape, twin := r.twin,
        unverified := r.unverified, request_hashes := r.request_hashes,
        birth := birth.bind birth_of, retired, old_path_usage := old_path_usage.bind usage_of, modified }
    else none

end RecordVisitor

/-- Every shape but an object is no record. -/
def ClaudeRequestCensusRecord.deserialize (value : Value) : Option ClaudeRequestCensusRecord :=
  match value with
  | .object members => RecordVisitor.finish (members.foldl RecordVisitor.visit {})
  | _ => none

end ottto_service.claude_request_census
