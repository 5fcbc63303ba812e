-- The saved form of the birth table (snapshots/claude_request_money/birth_store.rs): one
-- versioned binary string, and a reader that takes five layouts of it.
import Ottto.Base64
import Ottto.BirthStore
import Ottto.CopyCodec

namespace ottto_service.claude_money_birth_store

open durable_tail_codec (checked_add)
open durable_tail_codec.Durable (as_bytes to_le_bytes from_le_bytes)
open claude_copy_removals (take take_key take_len take_word times word_bytes len_bytes)

abbrev Bytes : Type := List UInt8

/-- The longest string that is decoded. -/
def ENCODED_LIMIT : Nat := 4 * 1024 * 1024

/-! ## Writing -/

def checked_mul (a b : Nat) : Option Nat := if a * b < 2 ^ 64 then some (a * b) else none

def BirthIdentity.is_known (self : BirthIdentity) : Bool := self.object != 0

/-- One session in the sum of the bytes. -/
def add_session_len (n : Nat) (s : LocationKey × Session) : Option Nat := do
  let n ← checked_add n 52
  let paths ← checked_mul s.2.paths.length 28
  let n ← checked_add n paths
  let known ← checked_mul (s.2.paths.filter (fun o => o.2.opened.is_known)).length 12
  checked_add n known

def put_path (o : LocationKey × Observation) : Except String Bytes :=
  if MAX_GENERATION < o.2.generation then .error "birth generation overflow"
  else
    let tag : UInt32 := if o.2.opened.is_known then 1 else 0
    let tagged_generation := o.2.generation.toUInt32 * 2 + tag
    let opened := if o.2.opened.is_known then
        word_bytes o.2.opened.object ++ to_le_bytes 4 o.2.opened.size.toNat
      else []
    .ok (o.1.1 ++ word_bytes o.2.birth ++ to_le_bytes 4 tagged_generation.toNat ++ opened)

def put_session (s : LocationKey × Session) : Except String Bytes := do
  let paths ← s.2.paths.mapM put_path
  .ok (s.1.1 ++ s.2.owner.1 ++ word_bytes s.2.cutoff ++ word_bytes s.2.absent ++
    len_bytes s.2.paths.length ++ paths.flatten)

def mark_bytes (m : LocationKey × UInt8) : Bytes := m.1.1 ++ [m.2]

namespace BirthStore

variable (self : BirthStore)

def byte_len : Option Nat := do
  let n ← self.sessions.foldlM add_session_len 8
  let marks ← checked_mul self.marks.paths.length 17
  checked_add n (6 + marks)

/-- The trailer is written only once a mark or a version exists. -/
def marked : Bool := self.marks.version != 0 || !self.marks.paths.isEmpty

def trailer : Bytes :=
  if self.marked then
    to_le_bytes 2 self.marks.version.toNat ++ len_bytes self.marks.paths.length ++
      self.marks.paths.flatMap mark_bytes
  else []

def put_bytes : Except String Bytes := do
  let sessions ← self.sessions.mapM put_session
  .ok (as_bytes (if self.marked then "CMB5" else "CMB4") ++ len_bytes self.sessions.length ++
    sessions.flatten ++ self.trailer)

/-- `Serialize` -/
def serialize : Except String String :=
  match self.byte_len with
  | none => .error "birth table size overflow"
  | some _ => do
    let bytes ← self.put_bytes
    .ok (String.ofList (UrlSafe.encode bytes))

end BirthStore

/-! ## Reading -/

inductive Layout where
  | CMB1
  | CMB2
  | CMB3
  | CMB4
  | CMB5
deriving DecidableEq

namespace Layout

def of_version (version : Bytes) : Option Layout :=
  if version = as_bytes "CMB1" then some CMB1
  else if version = as_bytes "CMB2" then some CMB2
  else if version = as_bytes "CMB3" then some CMB3
  else if version = as_bytes "CMB4" then some CMB4
  else if version = as_bytes "CMB5" then some CMB5
  else none

def record_bytes : Layout → Nat
  | CMB1 => 24
  | CMB2 => 32
  | CMB3 => 32
  | CMB4 => 28
  | CMB5 => 28

/-- The low bit of the generation tags an identity. -/
def is_tagged : Layout → Bool
  | CMB1 => false
  | CMB2 => false
  | CMB3 => true
  | CMB4 => true
  | CMB5 => true

end Layout

variable (out : Outside)

def take_u32 (input : Bytes) : Option (UInt32 × Bytes) := do
  let (n, input) ← take_len input
  some (UInt32.ofNat n, input)

/-- A count of records that the input can hold. -/
def take_count (record_bytes : Nat) (input : Bytes) : Option (Nat × Bytes) := do
  let (count, input) ← take_len input
  if input.length / record_bytes < count then none else some (count, input)

def take_generation (version : Layout) (input : Bytes) : Option (UInt64 × Bytes) :=
  match version with
  | .CMB1 => some (0, input)
  | .CMB2 => take_word input
  | .CMB3 => take_word input
  | .CMB4 => (take_u32 input).map (fun (n, input) => (n.toUInt64, input))
  | .CMB5 => (take_u32 input).map (fun (n, input) => (n.toUInt64, input))

/-- An identity as the compact layouts have it. -/
def take_object (input : Bytes) : Option (BirthIdentity × Bytes) := do
  let (object, input) ← take_word input
  let (size, input) ← take_u32 input
  some (⟨object, size⟩, input)

/-- An identity as `CMB3` has it: the object is digested here. -/
def take_device (input : Bytes) : Option (BirthIdentity × Bytes) := do
  let (device, input) ← take_u32 input
  let (size, input) ← take_u32 input
  let (inode, input) ← take_word input
  some (⟨BirthIdentity.object_of out device.toUInt64 inode, size⟩, input)

def take_opened (version : Layout) (has_identity : Bool) (input : Bytes) :
    Option (BirthIdentity × Bytes) :=
  if has_identity then
    if version = .CMB4 ∨ version = .CMB5 then take_object input else take_device out input
  else some ({}, input)

def take_path (version : Layout) (input : Bytes) : Option ((LocationKey × Observation) × Bytes) := do
  let (path, input) ← take_key input
  let (birth, input) ← take_word input
  let (word, input) ← take_generation version input
  let has_identity := version.is_tagged && word &&& 1 != 0
  let generation := if version.is_tagged then word >>> 1 else word
  let (opened, input) ← take_opened out version has_identity input
  if MAX_GENERATION < generation then none
  else some ((path, ⟨birth, generation, opened⟩), input)

def take_session (version : Layout) (input : Bytes) : Option ((LocationKey × Session) × Bytes) := do
  let (session, input) ← take_key input
  let (owner, input) ← take_key input
  let (cutoff, input) ← take_word input
  let (absent, input) ← take_word input
  let (count, input) ← take_count version.record_bytes input
  let (paths, input) ← times (take_path out version) count input
  some ((session, ⟨owner, cutoff, absent, paths⟩), input)

def take_mark (input : Bytes) : Option ((LocationKey × UInt8) × Bytes) := do
  let (path, input) ← take_key input
  let (marks, input) ← take 1 input
  some ((path, marks.headD 0), input)

def take_marks (version : Layout) (input : Bytes) : Option (MoneyMarks × Bytes) :=
  if version = .CMB5 then do
    let (number, input) ← take 2 input
    let (count, input) ← take_len input
    if checked_mul count 17 ≠ some input.length then none
    else
      let (paths, input) ← times take_mark count input
      some (⟨UInt16.ofNat (from_le_bytes number), paths⟩, input)
  else some ({}, input)

/-- `decode`, of the bytes behind the version. -/
def take_store (version : Layout) (input : Bytes) : Option BirthStore := do
  let (count, input) ← take_count 52 input
  let (sessions, input) ← times (take_session out version) count input
  let (marks, input) ← take_marks version input
  if input ≠ [] then none else BirthStore.valid ⟨sessions, [], marks⟩

def decode (encoded : String) : Option BirthStore :=
  if ENCODED_LIMIT < (as_bytes encoded).length then none
  else do
    let bytes ← UrlSafe.decode encoded.toList
    let (version, input) ← take 4 bytes
    let version ← Layout.of_version version
    take_store out version input

/-- `Deserialize` -/
def deserialize (encoded : String) : Except String BirthStore :=
  match decode out encoded with
  | some store => .ok store
  | none => .error "invalid birth table"

end ottto_service.claude_money_birth_store
