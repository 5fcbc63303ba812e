-- The stored copy removals (snapshots/claude_request_money/copy_removals.rs):
-- per file, the request hashes it removed on each holder's proof, and the passes
-- its prefix has been held.
import Ottto.Base64
import Ottto.BirthStore
import Ottto.Results

namespace ottto_service.claude_copy_removals

open Words SortedVec
open claude_money_birth_store (LocationKey)
open durable_tail_codec.Durable (as_bytes to_le_bytes from_le_bytes)

def HOLD_PASSES : UInt64 := 3

scoped instance wordOrder : LinearOrder UInt64 where
  le_refl := UInt64.le_refl
  le_trans := fun _ _ _ => UInt64.le_trans
  le_antisymm := fun _ _ => UInt64.le_antisymm
  le_total := UInt64.le_total
  lt_iff_le_not_ge := by
    intro a b
    simp only [UInt64.lt_iff_toNat_lt, UInt64.le_iff_toNat_le]
    omega
  toDecidableLE := inferInstance
  toDecidableEq := inferInstance
  toDecidableLT := inferInstance

/-- One file's stored removals: (holder, sorted unique hashes), by holder. -/
abbrev Groups : Type := List (LocationKey × List UInt64)

/-- `BTreeSet<u64>` -/
abbrev Hashes : Type := SortedMap UInt64 Unit

/-- `BTreeMap<LocationKey, BTreeSet<u64>>` -/
abbrev GroupMap : Type := SortedMap LocationKey Hashes

namespace Hashes

/-- `BTreeSet::extend` -/
def extend (set : Hashes) (hashes : List UInt64) : Hashes :=
  hashes.foldl (fun set hash => set.insert hash ()) set

end Hashes

namespace GroupMap

/-- `entry(holder).or_default().extend(hashes)` -/
def extend (map : GroupMap) (holder : LocationKey) (hashes : List UInt64) : GroupMap :=
  map.insert holder (Hashes.extend ((map.get? holder).getD .empty) hashes)

/-- The groups of a slice, collected. -/
def of_groups (groups : Groups) : GroupMap :=
  groups.foldl (fun map group => map.insert group.1 (Hashes.extend .empty group.2)) .empty

/-- Back to a slice. -/
def groups (map : GroupMap) : Groups := map.entries.map (fun group => (group.1, group.2.keys))

end GroupMap

/-- A group's holder becomes another one, whose own group takes its hashes. -/
def rename_holder (source target : LocationKey) (groups : Groups) : Groups :=
  match binary_search groups source with
  | .error _ => groups
  | .ok _ =>
    let merged := GroupMap.of_groups groups
    let hashes := (merged.get? source).getD .empty
    GroupMap.groups (GroupMap.extend (merged.erase source) target hashes.keys)

structure CopyRemovals where
  files : List (LocationKey × UInt64 × Groups) := []
  metadata_lost : Bool := false

namespace CopyRemovals

/-- Damaged metadata is uncertainty. -/
def missing : CopyRemovals := { metadata_lost := true }

variable (self : CopyRemovals) (file : LocationKey)

/-- The passes the file's prefix has been held so far. -/
def hold_age : UInt64 :=
  match binary_search self.files file with
  | .ok i => (self.files.get i).2.1
  | .error _ => 0

def pending : Bool := decide (0 < self.hold_age file)

def forget : CopyRemovals :=
  match binary_search self.files file with
  | .ok i => { self with files := self.files.eraseIdx i }
  | .error _ => self

def clear_hold : CopyRemovals :=
  match binary_search self.files file with
  | .ok i =>
    if (self.files.get i).2.2.isEmpty then self.forget file
    else { self with files := self.files.set i (file, 0, (self.files.get i).2.2) }
  | .error _ => self

/-- Hold at most two passes; the third ends the hold. -/
def advance_hold : CopyRemovals × Bool :=
  match binary_search self.files file with
  | .ok i =>
    let attempts := saturating_add (self.files.get i).2.1 1
    let held := { self with files := self.files.set i (file, attempts, (self.files.get i).2.2) }
    if attempts < HOLD_PASSES then (held, true) else (held.clear_hold file, false)
  | .error i => ({ self with files := self.files.insertIdx i (file, 1, []) }, true)

def get : Groups :=
  match binary_search self.files file with
  | .ok i => (self.files.get i).2.2
  | .error _ => []

/-- `unwrap_err`: the file is forgotten. -/
def replace (attempts : UInt64) (groups : Groups) : CopyRemovals :=
  let forgotten := self.forget file
  if groups ≠ [] ∨ 0 < attempts then
    match binary_search forgotten.files file with
    | .error i => { forgotten with files := forgotten.files.insertIdx i (file, attempts, groups) }
    | .ok _ => forgotten
  else forgotten

/-- The hashes of a group that its holder's stored group does not have. The
stored hashes are sorted: their search finds what they contain. -/
def fresh (old : Groups) (group : LocationKey × List UInt64) : Nat :=
  let prior := match binary_search old group.1 with
    | .ok i => (old.get i).2
    | .error _ => []
  (group.2.filter (fun hash => !prior.contains hash)).length

/-- Store the file's decision whole; the number of hashes newly recorded. -/
def store (groups : GroupMap) : CopyRemovals × Nat :=
  let groups := GroupMap.groups (groups.retain (fun _ hashes => !hashes.isEmpty))
  let old := self.get file
  if old = groups then (self, 0)
  else
    let added := (groups.map (fresh old)).sum
    (self.replace file (self.hold_age file) groups, added)

/-- The greater of the attempts and the target's. -/
def attempts_with (target : LocationKey) (attempts : UInt64) : UInt64 :=
  match binary_search self.files target with
  | .ok j =>
    let held := (self.files.get j).2.1
    if attempts < held then held else attempts
  | .error _ => attempts

/-- A removed entry joins the target's. -/
def join_entry (target : LocationKey) (attempts : UInt64) (groups : Groups) : CopyRemovals :=
  let merged := groups.foldl (fun map group => GroupMap.extend map group.1 group.2)
    (GroupMap.of_groups (self.get target))
  self.replace target (self.attempts_with target attempts) merged.groups

/-- The entry of a file that a physical move renames. -/
def rekey_file (source target : LocationKey) : CopyRemovals :=
  match binary_search self.files source with
  | .error _ => self
  | .ok i =>
    let (attempts, groups) := (self.files.get i).2
    join_entry { self with files := self.files.eraseIdx i } target attempts groups

/-- A proven physical move: the file may also be another copy's holder. -/
def rekey (source target : LocationKey) : CopyRemovals :=
  if source = target then self
  else
    let moved := self.rekey_file source target
    { moved with files :=
      moved.files.map (fun file => (file.1, file.2.1, rename_holder source target file.2.2)) }

end CopyRemovals

/-! ## The binary string -/

abbrev Bytes : Type := List UInt8

/-- `(len as u32).to_le_bytes()` -/
def len_bytes (len : Nat) : Bytes := to_le_bytes 4 (len % 2 ^ 32)

def word_bytes (word : UInt64) : Bytes := to_le_bytes 8 word.toNat

def group_bytes (group : LocationKey × List UInt64) : Bytes :=
  group.1.1 ++ len_bytes group.2.length ++ group.2.flatMap word_bytes

def file_bytes (file : LocationKey × UInt64 × Groups) : Bytes :=
  file.1.1 ++ word_bytes file.2.1 ++ len_bytes file.2.2.length ++ file.2.2.flatMap group_bytes

def CopyRemovals.bytes (self : CopyRemovals) : Bytes :=
  as_bytes "CCR2" ++ [if self.metadata_lost then 1 else 0] ++ len_bytes self.files.length ++
    self.files.flatMap file_bytes

/-- Split off the next `n` bytes. -/
def take (n : Nat) (input : Bytes) : Option (Bytes × Bytes) :=
  if n ≤ input.length then some (input.take n, input.drop n) else none

def take_key (input : Bytes) : Option (LocationKey × Bytes) :=
  if h : 16 ≤ input.length then
    some (⟨input.take 16, by rw [List.length_take]; exact Nat.min_eq_left h⟩, input.drop 16)
  else none

def take_len (input : Bytes) : Option (Nat × Bytes) := do
  let (bytes, input) ← take 4 input
  some (from_le_bytes bytes, input)

def take_word (input : Bytes) : Option (UInt64 × Bytes) := do
  let (bytes, input) ← take 8 input
  some (UInt64.ofNat (from_le_bytes bytes), input)

/-- A positive count of units that the input can hold. -/
def count (unit : Nat) (input : Bytes) : Option (Nat × Bytes) := do
  let (n, input) ← take_len input
  if 0 < n ∧ n ≤ input.length / unit then some (n, input) else none

/-- The same step `n` times, in order. -/
def times {α : Type} (step : Bytes → Option (α × Bytes)) : Nat → Bytes → Option (List α × Bytes)
  | 0, input => some ([], input)
  | n + 1, input => do
    let (a, input) ← step input
    let (rest, input) ← times step n input
    some (a :: rest, input)

/-- `windows(2).all(|w| w[0] < w[1])` -/
def ascending (hashes : List UInt64) : Bool :=
  (hashes.zip hashes.tail).all (fun w => decide (w.1 < w.2))

def decode_group (input : Bytes) : Option ((LocationKey × List UInt64) × Bytes) := do
  let (holder, input) ← take_key input
  let (n, input) ← count 8 input
  let (hashes, input) ← times take_word n input
  if ascending hashes then some ((holder, hashes), input) else none

def decode_file (old_version : Bool) (input : Bytes) :
    Option ((LocationKey × UInt64 × Groups) × Bytes) := do
  let (file, input) ← take_key input
  let (seq, input) ← take_word input
  let seq := if old_version then 0 else seq
  if HOLD_PASSES ≤ seq then none
  else
    let (group_count, input) ← take_len input
    if input.length / 28 < group_count ∨ (group_count = 0 ∧ seq = 0) then none
    else
      let (groups, input) ← times decode_group group_count input
      if windows_ordered groups then some ((file, seq, groups), input) else none

/-- The loop over the files: each after the last. -/
def decode_files (old_version : Bool) :
    Nat → List (LocationKey × UInt64 × Groups) → Bytes →
      Option (List (LocationKey × UInt64 × Groups) × Bytes)
  | 0, files, input => some (files, input)
  | n + 1, files, input => do
    let (file, input) ← decode_file old_version input
    if files.getLast?.any (fun last => decide (file.1 ≤ last.1)) then none
    else decode_files old_version n (files ++ [file]) input

/-- The first version has no mark of a damaged store. -/
def decode_lost (version input : Bytes) : Option (Bool × Bytes) :=
  if version = as_bytes "CCR2" then do
    let (lost, input) ← take 1 input
    if lost = [0] then some (false, input)
    else if lost = [1] then some (true, input)
    else none
  else some (false, input)

def decode (bytes : Bytes) : Option CopyRemovals := do
  let (version, input) ← take 4 bytes
  if version ≠ as_bytes "CCR1" ∧ version ≠ as_bytes "CCR2" then none
  else
    let (metadata_lost, input) ← decode_lost version input
    let (files, input) ← take_len input
    if input.length / 28 < files then none
    else
      let (files, input) ← decode_files (decide (version = as_bytes "CCR1")) files [] input
      if input.isEmpty then some { files, metadata_lost } else none

namespace CopyRemovals

/-- `URL_SAFE_NO_PAD`, in a JSON string. -/
def serialize (self : CopyRemovals) : String := String.ofList (UrlSafe.encode self.bytes)

def deserialize (encoded : String) : Option CopyRemovals := do
  let bytes ← UrlSafe.decode encoded.toList
  decode bytes

/-- A damaged string is a missing store. -/
def deserialize_lenient (encoded : String) : CopyRemovals :=
  (deserialize encoded).getD missing

end CopyRemovals

end ottto_service.claude_copy_removals
