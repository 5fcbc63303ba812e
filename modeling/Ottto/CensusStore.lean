-- The store of the census records with its running hash total, and the map they are read from
-- (claude_request_census.rs).
import Ottto.CensusCodec
import Ottto.SortedMap

namespace ottto_service.claude_request_census

open ClaudeRequestCensusRecord SortedMap Option List

open serde_json (Value)

def MAX_CLAUDE_REQUEST_CENSUS_KEY_BYTES : Nat := 4096

/-! ## The store -/

/-- Every record by index key, with the hash total kept in step. -/
structure ClaudeRequestCensus where
  records : SortedMap String ClaudeRequestCensusRecord
  hash_total : Nat

namespace ClaudeRequestCensus

def empty : ClaudeRequestCensus := ⟨.empty, 0⟩

/-- `hash_total -= count`, none where it underflows. -/
def less (self : ClaudeRequestCensus) (count : Nat) : Option ClaudeRequestCensus :=
  if count ≤ self.hash_total then some { self with hash_total := self.hash_total - count } else none

def remove (self : ClaudeRequestCensus) (key : String) : Option ClaudeRequestCensus :=
  match self.records.get? key with
  | some old => less { self with records := self.records.erase key } old.hash_count
  | none => some self

/-- The one insert: replaces `key`'s record whole. -/
def insert (self : ClaudeRequestCensus) (key : String) (record : ClaudeRequestCensusRecord) :
    Option ClaudeRequestCensus :=
  (self.remove key).map (fun census =>
    { records := census.records.insert key record,
      hash_total := census.hash_total + record.hash_count })

/-- Remove `key`'s record and return it. -/
def take (self : ClaudeRequestCensus) (key : String) :
    Option (Option ClaudeRequestCensusRecord × ClaudeRequestCensus) :=
  match self.records.get? key with
  | some old =>
    (less { self with records := self.records.erase key } old.hash_count).map (fun census =>
      (some old, census))
  | none => some (none, self)

/-- Invalidate `key`'s record but keep its first-seen birth in place. -/
def invalidate_keeping_birth (self : ClaudeRequestCensus) (key : String) : Option ClaudeRequestCensus :=
  match self.records.get? key with
  | none => some self
  | some old =>
    match old.birth with
    | none => self.remove key
    | some birth =>
      less { self with records := self.records.insert key (birth_stub birth) }
        old.hash_count

/-- The key's record; a birth stub is no record. -/
def get (self : ClaudeRequestCensus) (key : String) : Option ClaudeRequestCensusRecord :=
  (self.records.get? key).filter (fun record => !record.is_birth_stub)

/-! ## Runs of the store -/

inductive Call
  | insert (key : String) (record : ClaudeRequestCensusRecord)
  | remove (key : String)
  | take (key : String)
  | invalidate_keeping_birth (key : String)

def call (self : ClaudeRequestCensus) : Call → Option ClaudeRequestCensus
  | .insert key record => self.insert key record
  | .remove key => self.remove key
  | .take key => (self.take key).map Prod.snd
  | .invalidate_keeping_birth key => self.invalidate_keeping_birth key

def run (self : ClaudeRequestCensus) (calls : List Call) : Option ClaudeRequestCensus :=
  calls.foldlM call self

/-- The hashes of all stored records. -/
def stored_hashes (self : ClaudeRequestCensus) : Nat :=
  (self.records.values.map hash_count).sum

/-- The running total is the sum it stands for. -/
def InStep (self : ClaudeRequestCensus) : Prop := self.hash_total = self.stored_hashes

theorem stored_hashes_eq (self : ClaudeRequestCensus) :
    self.stored_hashes = self.records.total (fun _ record => record.hash_count) := by
  unfold stored_hashes SortedMap.values SortedMap.total
  rw [List.map_map]
  rfl

theorem in_step_empty : InStep empty := rfl

variable {self : ClaudeRequestCensus}

theorem less_spec {count : Nat} (h : count ≤ self.hash_total) :
    self.less count = some { self with hash_total := self.hash_total - count } := if_pos h

/-- The record that leaves takes its hashes from the total. -/
theorem less_erase {key : String} {old : ClaudeRequestCensusRecord}
    (h : self.InStep) (hget : self.records.get? key = some old) :
    ∃ census, less { self with records := self.records.erase key } old.hash_count = some census ∧
      census.records = self.records.erase key ∧ census.InStep := by
  have hsum := self.records.total_erase (fun _ record => record.hash_count) key
  rw [hget, ← stored_hashes_eq, ← h] at hsum
  simp only [map_some, getD_some] at hsum
  refine ⟨_, less_spec (by simp only; omega), rfl, ?_⟩
  rw [InStep, stored_hashes_eq]
  simp only
  omega

theorem remove_spec (h : self.InStep) (key : String) :
    ∃ census, self.remove key = some census ∧ census.records = self.records.erase key ∧
      census.InStep := by
  unfold remove
  cases hget : self.records.get? key with
  | none => exact ⟨self, rfl, (erase_of_absent hget).symm, h⟩
  | some old => exact less_erase h hget

theorem take_spec (h : self.InStep) (key : String) :
    ∃ census, self.take key = some (self.records.get? key, census) ∧
      census.records = self.records.erase key ∧ census.InStep := by
  unfold take
  cases hget : self.records.get? key with
  | none => exact ⟨self, rfl, (erase_of_absent hget).symm, h⟩
  | some old =>
    obtain ⟨census, hless, hrecords, hstep⟩ := less_erase h hget
    exact ⟨census, by simp only [hless, map_some], hrecords, hstep⟩

theorem insert_spec (h : self.InStep) (key : String) (record : ClaudeRequestCensusRecord) :
    ∃ census, self.insert key record = some census ∧
      census.records = self.records.insert key record ∧ census.InStep := by
  obtain ⟨removed, hremove, hrecords, hstep⟩ := remove_spec h key
  have hsame : removed.records.insert key record = self.records.insert key record := by
    ext k : 1
    rw [hrecords, get?_insert, get?_insert, get?_erase]
    split <;> rfl
  have hsum := removed.records.total_insert (fun _ record => record.hash_count) key record
  have hnone : removed.records.get? key = none := by
    rw [hrecords, get?_erase, if_pos rfl]
  rw [hnone, ← stored_hashes_eq, ← hstep] at hsum
  refine ⟨_, by rw [insert, hremove]; rfl, hsame, ?_⟩
  rw [InStep, stored_hashes_eq]
  simpa using hsum.symm

theorem invalidate_spec (h : self.InStep) (key : String) :
    ∃ census, self.invalidate_keeping_birth key = some census ∧ census.InStep := by
  unfold invalidate_keeping_birth
  cases hget : self.records.get? key with
  | none => exact ⟨self, rfl, h⟩
  | some old =>
    dsimp only
    cases hbirth : old.birth with
    | none =>
      obtain ⟨census, hremove, -, hstep⟩ := remove_spec h key
      exact ⟨census, hremove, hstep⟩
    | some birth =>
      -- The stub in the slot holds no hash.
      have hsum := self.records.total_insert (fun _ record => record.hash_count) key
        (birth_stub birth)
      rw [hget, ← stored_hashes_eq, ← h] at hsum
      have hstub : (birth_stub birth).hash_count = 0 := rfl
      simp only [map_some, getD_some, hstub] at hsum
      refine ⟨_, less_spec (by simp only; omega), ?_⟩
      rw [InStep, stored_hashes_eq]
      simp only
      omega

/-- Every call succeeds and keeps the total in step. -/
theorem call_spec (h : self.InStep) (c : Call) :
    ∃ census, self.call c = some census ∧ census.InStep := by
  cases c with
  | insert key record =>
    obtain ⟨census, hcall, -, hstep⟩ := insert_spec h key record
    exact ⟨census, hcall, hstep⟩
  | remove key =>
    obtain ⟨census, hcall, -, hstep⟩ := remove_spec h key
    exact ⟨census, hcall, hstep⟩
  | take key =>
    obtain ⟨census, htake, -, hstep⟩ := take_spec h key
    exact ⟨census, by rw [call, htake]; rfl, hstep⟩
  | invalidate_keeping_birth key => exact invalidate_spec h key

theorem run_spec (h : self.InStep) (calls : List Call) :
    ∃ census, self.run calls = some census ∧ census.InStep := by
  induction calls generalizing self with
  | nil => exact ⟨self, rfl, h⟩
  | cons c calls ih =>
    obtain ⟨next, hcall, hnext⟩ := call_spec h c
    obtain ⟨census, hrun, hstep⟩ := ih hnext
    refine ⟨census, ?_, hstep⟩
    rw [run, foldlM_cons, hcall]
    exact hrun

theorem get_is_no_stub {key : String} {record : ClaudeRequestCensusRecord}
    (h : self.get key = some record) : record.is_birth_stub = false := by
  simpa using (filter_eq_some_iff.mp h).2

end ClaudeRequestCensus

/-! ## The stored map -/

/-- Keys of the retired money ledger. -/
def is_ledger_key (key : String) : Bool :=
  ["otel:", "sweep:", "fam:", "mh:"].any (fun mark => mark.toList.isPrefixOf key.toList)

def admits_entry_key (key : String) : Bool :=
  decide (key.utf8ByteSize ≤ MAX_CLAUDE_REQUEST_CENSUS_KEY_BYTES) && !is_ledger_key key

/-- One entry of the map: its key, and what `serde_json` makes of its text read alone, none where
that is no JSON value. -/
abbrev Entry := String × Option Value

/-- One v1 census entry: its record, or None (dropped). -/
def decode_entry (entry : Entry) : Option ClaudeRequestCensusRecord :=
  if admits_entry_key entry.1 then entry.2.bind ClaudeRequestCensusRecord.deserialize else none

/-- `CensusVisitor::visit_map`: the census, and how many entries it did not keep. -/
def visit_map : List Entry → ClaudeRequestCensus × Nat → Option (ClaudeRequestCensus × Nat)
  | [], read => some read
  | entry :: entries, (census, dropped) =>
    match decode_entry entry with
    | none => visit_map entries (census, dropped + 1)
    | some record =>
      let dropped := if census.records.contains entry.1 then dropped + 1 else dropped
      (census.insert entry.1 record).bind (fun census => visit_map entries (census, dropped))

/-- The last record that an entry of the key holds. -/
def last_valid (entries : List Entry) (key : String) : Option ClaudeRequestCensusRecord :=
  (entries.filterMap (fun entry => if entry.1 = key then decode_entry entry else none)).getLast?

theorem last_valid_cons (entry : Entry) (entries : List Entry) (key : String) :
    last_valid (entry :: entries) key =
      (last_valid entries key).or (if entry.1 = key then decode_entry entry else none) := by
  unfold last_valid
  rw [filterMap_cons]
  cases (if entry.1 = key then decode_entry entry else none) with
  | none => simp
  | some record => rw [getLast?_cons, or_some]

theorem visit_map_spec (entries : List Entry) {census : ClaudeRequestCensus} (dropped : Nat)
    (h : census.InStep) :
    ∃ read total, visit_map entries (census, dropped) = some (read, total) ∧ read.InStep ∧
      total + read.records.size = dropped + census.records.size + entries.length ∧
      ∀ key, read.records.get? key = (last_valid entries key).or (census.records.get? key) := by
  induction entries generalizing census dropped with
  | nil => exact ⟨census, dropped, rfl, h, by simp, fun key => by simp [last_valid]⟩
  | cons entry entries ih =>
    cases hentry : decode_entry entry with
    | none =>
      obtain ⟨read, total, hread, hstep, hcount, hget⟩ := ih (dropped + 1) h
      refine ⟨read, total, by simpa only [visit_map, hentry] using hread, hstep, ?_, fun key => ?_⟩
      · rw [hcount, length_cons]
        omega
      · rw [hget, last_valid_cons, hentry]
        split <;> simp
    | some record =>
      obtain ⟨next, hinsert, hrecords, hnext⟩ := ClaudeRequestCensus.insert_spec h entry.1 record
      obtain ⟨read, total, hread, hstep, hcount, hget⟩ :=
        ih (if census.records.contains entry.1 then dropped + 1 else dropped) hnext
      refine ⟨read, total, by simpa only [visit_map, hentry, hinsert, bind_some] using hread, hstep, ?_,
        fun key => ?_⟩
      · rw [hcount, hrecords, size_insert, length_cons]
        split <;> omega
      · rw [hget, last_valid_cons, hentry, hrecords, get?_insert, Option.or_assoc]
        by_cases heq : key = entry.1
        · simp [heq]
        · simp [heq, Ne.symm heq]

/-! ## The codec and the store -/

/-- A record, its hashes in either spelling and a map with damaged entries are read back exactly, and
the store's running total is the sum it stands for after every run of calls. -/
theorem codec_and_store_are_exact :
    (∀ record, RecordVisitor.Sound record →
      ClaudeRequestCensusRecord.deserialize record.serialize = some record ∧
      ClaudeRequestCensusRecord.deserialize record.serialize_older = some record) ∧
    (∀ hashes : List UInt64, hash_base64 hashes =
      String.ofList (StandardBase64.encode (hashes.flatMap to_be_bytes))) ∧
    (∀ hashes : List UInt64, hashes ≠ [] → Ascending hashes →
      decode_base64_hashes (hash_base64 hashes) = some hashes ∧
      decode_hashes (hash_hex hashes) = some hashes) ∧
    (∀ entries, ∃ census dropped, visit_map entries (.empty, 0) = some (census, dropped) ∧
      census.InStep ∧ dropped + census.records.size = entries.length ∧
      ∀ key, census.records.get? key = last_valid entries key) ∧
    ∀ calls, ∃ census, ClaudeRequestCensus.empty.run calls = some census ∧ census.InStep ∧
      ∀ key record, census.get key = some record → record.is_birth_stub = false := by
  refine ⟨fun record h => ⟨RecordVisitor.deserialize_serialize h, RecordVisitor.deserialize_serialize_older h⟩,
    hash_base64_eq, fun hashes hne h => ⟨decode_hash_base64 hne h, decode_hash_hex hne h⟩,
    fun entries => ?_, fun calls => ?_⟩
  · obtain ⟨census, dropped, hread, hstep, hcount, hget⟩ :=
      visit_map_spec entries 0 ClaudeRequestCensus.in_step_empty
    have hnothing : ClaudeRequestCensus.empty.records.size = 0 := rfl
    refine ⟨census, dropped, hread, hstep, by omega, fun key => ?_⟩
    rw [hget]
    exact or_none
  · obtain ⟨census, hrun, hstep⟩ := ClaudeRequestCensus.run_spec ClaudeRequestCensus.in_step_empty calls
    exact ⟨census, hrun, hstep, fun key record => ClaudeRequestCensus.get_is_no_stub⟩

/-- A record of three requests. -/
def example_record : ClaudeRequestCensusRecord where
  source_file_fingerprint := ⟨List.replicate 32 7, List.length_replicate⟩
  derivation := 1
  window := 30
  shape := .Exact
  twin := false
  unverified := false
  request_hashes := [3, 70, 1099511627776]
  birth := none
  retired := none
  old_path_usage := none
  modified := some 9

/-- A key written twice, in either spelling, and a damaged entry: one record is kept. -/
example :
    (visit_map [("a", some example_record.serialize), ("b", none),
      ("a", some example_record.serialize_older)] (.empty, 0)).map
        (fun read => (read.1.records.keys, read.1.hash_total, read.2)) = some (["a"], 3, 2) := by
  decide +kernel

end ottto_service.claude_request_census
