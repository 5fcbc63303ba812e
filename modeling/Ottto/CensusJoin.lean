-- The join over every record of the census (claude_request_census.rs): what covers each family key,
-- which request ids lie under two keys, and what it says of one member.
import Ottto.CandidateDecision
import Ottto.CensusStore
import Ottto.Fronts

namespace ottto_service.claude_request_census

open List Fronts Function

open snapshots.candidate_decision (claude_index_path_family_member)
open Fronts (Front)
open scoped claude_copy_removals

def CLAUDE_REQUEST_CENSUS_DERIVATION : UInt16 := 1
def CLAUDE_REQUEST_CENSUS_HASH_ALARM_BASE : Nat := 2097152
def MAX_SHADOW_ENTRIES : Nat := 65536
def MAX_SHADOW_WORKSPACE_BYTES : Nat := 128 * 1024 * 1024
def MAX_CLAUDE_DUPLICATE_REQUEST_OWNERS : Nat := 250000

/-- `usize::saturating_add` -/
def saturating_add (a b : Nat) : Nat := min (2 ^ 64 - 1) (a + b)

/-- The record leaves its own family census-unknown. -/
def ClaudeRequestCensusShape.unknown (self : ClaudeRequestCensusShape) : Bool :=
  self == .IdentityIncomplete || self == .Lossy

/-- What the join reads of an index entry. -/
structure ScanIndexEntry where
  source_file_fingerprint : String
  last_snapshot_fingerprint : Option String

/-- What the join reads of the index. -/
structure ScanIndex where
  files : SortedMap String ScanIndexEntry
  confirmed_empty_files : Finset String
  census : ClaudeRequestCensus
  claude_usage_authority_quarantine : Finset String
  claude_account_deferred_holds : Finset String
  file_snapshot_fingerprints : Finset String
  persistence_available : Bool

/-- Why a key has no record that would cover it, first match wins. -/
inductive ClaudeRequestCensusCoverage
  | Fingerprint
  | Window
  | OverBudget
  | AccountHold
  | Residue
  | Placeholder
  | EmptyFingerprint
  | FingerprintMismatch
  | Migrate
deriving DecidableEq

def ClaudeRequestCensusCoverage.covers (self : ClaudeRequestCensusCoverage) : Bool :=
  self == .Fingerprint || self == .Window

/-- One counter for each coverage and each shape. -/
structure Counts where
  transient_limited : Bool
  records : Nat
  hashes : Nat
  hash_budget_usage_percent : Nat
  family_keys : Nat := 0
  by_coverage : ClaudeRequestCensusCoverage → Nat := fun _ => 0
  quarantine_without_record : Nat := 0
  by_shape : ClaudeRequestCensusShape → Nat := fun _ => 0
  unverified : Nat := 0
  twin : Nat := 0
  family_unknown_roots : Nat := 0
  duplicate_hashes : Nat := 0
  duplicate_owner_entries : Nat := 0

structure ClaudeRequestCensusJoin where
  counts : Counts
  coverage : SortedMap String ClaudeRequestCensusCoverage := .empty
  shared_keys : Finset String := ∅
  unknown_roots : Finset String := ∅

namespace ClaudeRequestCensusJoin

/-! ## The merge of the hashes -/

/-- The keys with a hash, and their hashes. -/
abbrev Lists : Type := List (String × List UInt64)

def lists_of (census : ClaudeRequestCensus) : Lists :=
  (census.records.entries.filter (fun entry => !entry.2.request_hashes.isEmpty)).map
    (fun entry => (entry.1, entry.2.request_hashes))

def key_of (lists : Lists) (list : Nat) : String := (lists.getD list default).1

def close_run (lists : Lists) (self : ClaudeRequestCensusJoin) (run_lists : List Nat) :
    ClaudeRequestCensusJoin :=
  if run_lists.length < 2 then self
  else { self with
    counts := { self.counts with
      duplicate_hashes := self.counts.duplicate_hashes + 1
      duplicate_owner_entries :=
        saturating_add self.counts.duplicate_owner_entries run_lists.length }
    shared_keys := self.shared_keys ∪ (run_lists.map (key_of lists)).toFinset }

/-- The locals of the merge: the join, the hash of the open run, and its lists. -/
abbrev Merge : Type := ClaudeRequestCensusJoin × Option UInt64 × List Nat

/-- One turn for each hash of each list. -/
def merge_loop (lists : Lists) : Nat → List (Front UInt64) → Merge → Merge
  | 0, _, merge => merge
  | _ + 1, [], merge => merge
  | turns + 1, front :: heap, (self, run, run_lists) =>
    let (self, run, run_lists) :=
      if run ≠ some front.element then (close_run lists self run_lists, some front.element, [])
      else (self, run, run_lists)
    merge_loop lists turns (Fronts.advance (lists.map Prod.snd) front heap)
      (self, run, run_lists ++ [front.list])

def merge_hashes (self : ClaudeRequestCensusJoin) (census : ClaudeRequestCensus) :
    ClaudeRequestCensusJoin :=
  let lists := lists_of census
  let turns := (lists.map (fun list => list.2.length)).sum
  let (self, _, run_lists) :=
    merge_loop lists turns (Fronts.start (lists.map Prod.snd)) (self, none, [])
  close_run lists self run_lists

/-! ## The keys -/

variable (index : ScanIndex) (window : UInt64) (residue_index_keys : Finset String)

def own_record (key : String) : Option ClaudeRequestCensusRecord :=
  (index.census.get key).filter
    (fun record => record.derivation == CLAUDE_REQUEST_CENSUS_DERIVATION)

/-- A record that covers the key, by its fingerprint or by this window. -/
def covering (entry : ScanIndexEntry) (record : ClaudeRequestCensusRecord) :
    Option ClaudeRequestCensusCoverage :=
  if record.shape = .OverBudget then none
  else if decode_fingerprint entry.source_file_fingerprint = some record.source_file_fingerprint then
    some .Fingerprint
  else if window ≠ 0 ∧ record.window = window then some .Window
  else none

def coverage_of (key : String) (entry : ScanIndexEntry) (record : Option ClaudeRequestCensusRecord) :
    ClaudeRequestCensusCoverage :=
  match record.bind (covering window entry) with
  | some coverage => coverage
  | none =>
    if record.any (fun record => record.shape == .OverBudget) then .OverBudget
    else if key ∈ index.claude_account_deferred_holds then .AccountHold
    else if key ∈ residue_index_keys then .Residue
    else if entry.last_snapshot_fingerprint = none ∧ key ∉ index.file_snapshot_fingerprints then
      .Placeholder
    else if entry.source_file_fingerprint = "" then .EmptyFingerprint
    else if record.isSome then .FingerprintMismatch
    else .Migrate

/-- The coverage of an indexed file, by the record of its key. -/
def coverage_at (file : String × ScanIndexEntry) : ClaudeRequestCensusCoverage :=
  coverage_of index window residue_index_keys file.1 file.2 (own_record index file.1)

def unknown_record (record : ClaudeRequestCensusRecord) : Bool := record.shape.unknown || record.twin

/-- The counters of a record that covers its key. The shape `OverBudget` covers none. -/
def count_record (counts : Counts) (record : ClaudeRequestCensusRecord) : Counts :=
  { counts with
    by_shape := Function.update counts.by_shape record.shape (counts.by_shape record.shape + 1)
    unverified := counts.unverified + record.unverified.toNat
    twin := counts.twin + record.twin.toNat }

/-- One indexed file. With the join go the owners of the keys counted, one for each key. -/
def count_key (state : ClaudeRequestCensusJoin × List (String × String))
    (file : String × ScanIndexEntry) : ClaudeRequestCensusJoin × List (String × String) :=
  match claude_index_path_family_member file.1 with
  | none => state
  | some path_owner =>
    if file.1 ∈ index.confirmed_empty_files then state
    else
      let (self, path_owners) := state
      let coverage := coverage_at index window residue_index_keys file
      let covering_record := if coverage.covers then own_record index file.1 else none
      let counts := { self.counts with
        family_keys := self.counts.family_keys + 1
        by_coverage := Function.update self.counts.by_coverage coverage
          (self.counts.by_coverage coverage + 1)
        quarantine_without_record := self.counts.quarantine_without_record +
          if coverage.covers = false ∧ path_owner.1 ∈ index.claude_usage_authority_quarantine then 1
          else 0 }
      ({ self with
          counts := covering_record.elim counts (count_record counts)
          coverage := self.coverage.insert file.1 coverage
          unknown_roots :=
            if covering_record.any unknown_record then
              insert path_owner.1 self.unknown_roots
            else self.unknown_roots },
        path_owner :: path_owners)

/-- A path twin: one (root, member) on two or more keys. -/
def twin_roots (path_owners : List (String × String)) : Finset String :=
  ((path_owners.filter (fun owner => decide (1 < path_owners.count owner))).map Prod.fst).toFinset

/-- A member that is not a counted key still leaves its family census-unknown. -/
def uncounted_roots (self : ClaudeRequestCensusJoin) : Finset String :=
  (index.census.records.entries.filterMap (fun (key, record) =>
    if self.coverage.contains key ∨ record.derivation ≠ CLAUDE_REQUEST_CENSUS_DERIVATION ∨
        unknown_record record = false then none
    else (claude_index_path_family_member key).map Prod.fst)).toFinset

def empty : ClaudeRequestCensusJoin where
  counts :=
    let census := index.census
    { transient_limited := !index.persistence_available
      records := (census.records.entries.filter (fun entry => !entry.2.is_birth_stub)).length
      hashes := census.hash_total
      hash_budget_usage_percent :=
        min (2 ^ 64 - 1) (census.hash_total * 100) / CLAUDE_REQUEST_CENSUS_HASH_ALARM_BASE }

/-- Oversized inventories remain closed. -/
def oversized (workspace_bound : Option Nat) : Bool :=
  decide (MAX_SHADOW_ENTRIES < index.files.size) ||
    decide (MAX_SHADOW_ENTRIES < index.census.records.size) ||
    workspace_bound.all (fun bytes => decide (MAX_SHADOW_WORKSPACE_BYTES < bytes)) ||
    (index.files.keys ++ index.census.records.keys).any (fun key =>
      decide (MAX_CLAUDE_REQUEST_CENSUS_KEY_BYTES < key.utf8ByteSize))

def new (workspace_bound : Option Nat) : ClaudeRequestCensusJoin :=
  let join := empty index
  if oversized index workspace_bound then
    { join with counts := { join.counts with transient_limited := true } }
  else
    let (join, path_owners) :=
      index.files.entries.foldl (count_key index window residue_index_keys) (join, [])
    let join := { join with unknown_roots := join.unknown_roots ∪ twin_roots path_owners }
    let unknown_roots := join.unknown_roots ∪ uncounted_roots index join
    merge_hashes { join with
      unknown_roots
      counts := { join.counts with family_unknown_roots := unknown_roots.card } }
      index.census

/-- Every visible request id was compared with every other key's ids. -/
def disjointness_complete (self : ClaudeRequestCensusJoin) (census_complete : Bool) : Bool :=
  census_complete && !self.counts.transient_limited &&
    self.counts.by_coverage .Fingerprint + self.counts.by_coverage .Window ==
      self.counts.family_keys &&
    decide (self.counts.duplicate_owner_entries ≤ MAX_CLAUDE_DUPLICATE_REQUEST_OWNERS)

inductive ClaudeCensusMemberStatus
  | Disjoint
  | SharesHash
  | FamilyUnknown
  | Unverified
  | Unobserved
deriving DecidableEq

def member_status (self : ClaudeRequestCensusJoin) (key : String) (census_complete : Bool) :
    ClaudeCensusMemberStatus :=
  if self.disjointness_complete census_complete = false then .Unobserved
  else
    let covered := (self.coverage.get? key).any ClaudeRequestCensusCoverage.covers
    match (index.census.get key).filter (fun _ => covered),
      claude_index_path_family_member key with
    | some record, some (root, _) =>
      if key ∈ self.shared_keys then .SharesHash
      else if root ∈ self.unknown_roots ∨ record.shape.unknown then .FamilyUnknown
      else if record.unverified then .Unverified
      else .Disjoint
    | _, _ => .Unobserved

/-! ## The hashes under two keys -/

/-- The keys whose record holds the hash. -/
def holders (census : ClaudeRequestCensus) (hash : UInt64) : List String :=
  (census.records.entries.filter (fun entry => decide (hash ∈ entry.2.request_hashes))).map Prod.fst

/-- The hashes that lie under two keys. -/
def doubled (census : ClaudeRequestCensus) : Finset UInt64 :=
  (census.records.entries.flatMap (fun entry => entry.2.request_hashes)).toFinset.filter
    (fun hash => 2 ≤ (holders census hash).length)

theorem mem_doubled {census : ClaudeRequestCensus} {hash : UInt64} :
    hash ∈ doubled census ↔ 2 ≤ (holders census hash).length := by
  rw [doubled, Finset.mem_filter, mem_toFinset, and_iff_right_iff_imp]
  intro h
  obtain ⟨key, hkey⟩ := exists_mem_of_ne_nil (holders census hash)
    (fun hnil => by rw [hnil] at h; simp at h)
  obtain ⟨entry, hentry, -⟩ := mem_map.mp hkey
  obtain ⟨hmem, hhash⟩ := mem_filter.mp hentry
  exact mem_flatMap.mpr ⟨entry, hmem, of_decide_eq_true hhash⟩

theorem merge_loop_eq (lists : Lists) (turns : Nat) (heap : List (Front UInt64)) (merge : Merge) :
    merge_loop lists turns heap merge =
      (Fronts.pops (lists.map Prod.snd) turns heap).foldl (Fronts.visit (close_run lists)) merge := by
  induction turns generalizing heap merge with
  | zero => rfl
  | succ turns ih =>
    cases heap with
    | nil => rfl
    | cons front heap =>
      obtain ⟨self, run, run_lists⟩ := merge
      rw [merge_loop, Fronts.pops, foldl_cons, Fronts.visit]
      by_cases h : run = some front.element
      · simp only [h, ne_eq, not_true_eq_false, if_false, if_true, ih]
      · simp only [h, ne_eq, not_false_eq_true, if_false, if_true, ih, nil_append]

/-- The groups of two lists or more. -/
def doubles (groups : List (List Nat)) : List (List Nat) :=
  groups.filter (fun run_lists => decide (2 ≤ run_lists.length))

theorem close_runs_eq (lists : Lists) (groups : List (List Nat)) (self : ClaudeRequestCensusJoin)
    (h : self.counts.duplicate_owner_entries ≤ 2 ^ 64 - 1) :
    groups.foldl (close_run lists) self = { self with
      counts := { self.counts with
        duplicate_hashes := self.counts.duplicate_hashes + (doubles groups).length
        duplicate_owner_entries :=
          saturating_add self.counts.duplicate_owner_entries ((doubles groups).map List.length).sum }
      shared_keys := self.shared_keys ∪ ((doubles groups).flatten.map (key_of lists)).toFinset } := by
  induction groups generalizing self with
  | nil =>
    have hkept : saturating_add self.counts.duplicate_owner_entries 0 =
        self.counts.duplicate_owner_entries := min_eq_right h
    simp [doubles, hkept]
  | cons run_lists groups ih =>
    rw [foldl_cons]
    by_cases htwo : run_lists.length < 2
    · have hgroups : doubles (run_lists :: groups) = doubles groups := by
        rw [doubles, filter_cons_of_neg (by simpa using htwo), doubles]
      rw [close_run, if_pos htwo, ih self h, hgroups]
    · have hgroups : doubles (run_lists :: groups) = run_lists :: doubles groups := by
        unfold doubles
        rw [filter_cons, if_pos (decide_eq_true (not_lt.mp htwo))]
      rw [close_run, if_neg htwo, ih _ (by simp only [saturating_add]; omega), hgroups]
      simp only [length_cons, map_cons, sum_cons, flatten_cons, map_append,
        toFinset_append, Finset.union_assoc, saturating_add, ClaudeRequestCensusJoin.mk.injEq,
        Counts.mk.injEq, and_true, true_and]
      omega

variable {census : ClaudeRequestCensus}

theorem group_all (entries : List (List UInt64 × Nat)) (hash : UInt64)
    (h : ∀ entry ∈ entries, entry.1.Nodup) :
    Fronts.group (entries.flatMap (fun entry => entry.1.map (fun a => (a, entry.2)))) hash =
      (entries.filter (fun entry => decide (hash ∈ entry.1))).map Prod.snd := by
  induction entries with
  | nil => rfl
  | cons entry entries ih =>
    have hrest := ih (fun other hother => h other (mem_cons_of_mem entry hother))
    have hone : Fronts.group (entry.1.map (fun a => (a, entry.2))) hash =
        if hash ∈ entry.1 then [entry.2] else [] := by
      unfold Fronts.group
      rw [filter_map, map_map]
      have hfilter : entry.1.filter (fun a => decide (a = hash)) = if hash ∈ entry.1 then [hash] else [] := by
        rw [filter_eq, (h entry mem_cons_self).count]
        split <;> rfl
      rw [show ((fun a : UInt64 × Nat => decide (a.1 = hash)) ∘ fun a => (a, entry.2)) =
        fun a => decide (a = hash) from rfl, hfilter]
      split <;> rfl
    unfold Fronts.group at hrest hone ⊢
    rw [flatMap_cons, filter_append, map_append, hone, hrest, filter_cons]
    by_cases hmem : hash ∈ entry.1 <;> simp [hmem]

theorem keys_of_group (lists : Lists) (hash : UInt64) :
    (((lists.map Prod.snd).zipIdx.filter (fun entry => decide (hash ∈ entry.1))).map Prod.snd).map
        (key_of lists) = (lists.filter (fun list => decide (hash ∈ list.2))).map Prod.fst := by
  have hentries : (lists.map Prod.snd).zipIdx = lists.zipIdx.map (fun entry => (entry.1.2, entry.2)) :=
    zipIdx_map
  rw [hentries, filter_map, map_map, map_map]
  calc (lists.zipIdx.filter (fun entry => decide (hash ∈ entry.1.2))).map
        (fun entry => key_of lists entry.2)
      = (lists.zipIdx.filter (fun entry => decide (hash ∈ entry.1.2))).map (fun entry => entry.1.1) := by
        refine map_congr_left fun entry hentry => ?_
        rw [key_of, getD_eq_getElem?_getD,
          mem_zipIdx_iff_getElem?.mp (mem_of_mem_filter hentry), Option.getD_some]
    _ = ((lists.zipIdx.map Prod.fst).filter (fun list => decide (hash ∈ list.2))).map Prod.fst := by
        rw [filter_map, map_map]
        rfl
    _ = (lists.filter (fun list => decide (hash ∈ list.2))).map Prod.fst := by
        rw [zipIdx_map_fst]

theorem holders_eq (hash : UInt64) :
    ((lists_of census).filter (fun list => decide (hash ∈ list.2))).map Prod.fst =
      holders census hash := by
  unfold lists_of holders
  rw [filter_map, map_map, filter_filter]
  have hsame : ∀ entry ∈ census.records.entries,
      (((fun list : String × List UInt64 => decide (hash ∈ list.2)) ∘
          fun entry : String × ClaudeRequestCensusRecord => (entry.1, entry.2.request_hashes)) entry &&
        !entry.2.request_hashes.isEmpty) = decide (hash ∈ entry.2.request_hashes) := by
    intro entry _
    by_cases hmem : hash ∈ entry.2.request_hashes
    · have hne : entry.2.request_hashes.isEmpty = false :=
        isEmpty_eq_false_iff.mpr (ne_nil_of_mem hmem)
      simp [hmem, hne]
    · simp [hmem]
  rw [filter_congr hsame]
  rfl

/-- What the merge takes from its heap, in order. -/
def popped (lists : Lists) : List (UInt64 × Nat) :=
  Fronts.pops (lists.map Prod.snd) (lists.map (fun list => list.2.length)).sum
    (Fronts.start (lists.map Prod.snd))

theorem merge_hashes_closed (self : ClaudeRequestCensusJoin) :
    merge_hashes self census = Fronts.closed (close_run (lists_of census))
      ((popped (lists_of census)).foldl (Fronts.visit (close_run (lists_of census))) (self, none, [])) := by
  rw [popped, ← merge_loop_eq]
  rfl

/-- The merge has a turn for each hash of each list. -/
theorem popped_perm (lists : Lists) : (popped lists).Perm
    ((lists.map Prod.snd).zipIdx.flatMap (fun entry => entry.1.map (fun a => (a, entry.2)))) := by
  have hall := contents_start (lists.map Prod.snd)
  refine (pops_perm _ (start_stands _) ?_).trans hall
  rw [hall.length_eq, length_flatMap]
  simp only [length_map]
  rw [show (fun entry : List UInt64 × Nat => entry.1.length) = List.length ∘ Prod.fst from rfl,
    ← map_map, zipIdx_map_fst, map_map]
  exact le_rfl

/-- The lists of a hash, as the merge gathers them, are those of its holders. -/
theorem group_holders (h : ∀ list ∈ lists_of census, Ascending list.2) (hash : UInt64) :
    ((Fronts.group (popped (lists_of census)) hash).map (key_of (lists_of census))).Perm
      (holders census hash) := by
  refine ((((popped_perm _).filter _).map Prod.snd).map (key_of (lists_of census))).trans
    (List.Perm.of_eq ?_)
  rw [← holders_eq, ← keys_of_group]
  refine congrArg (List.map (key_of (lists_of census))) (group_all _ hash fun entry hentry => ?_)
  obtain ⟨list, hlist, heq⟩ := mem_map.mp (fst_mem_of_mem_zipIdx hentry)
  rw [← heq]
  exact (h list hlist).imp (fun hlt => ne_of_lt hlt)

/-- The join of the hashes, in the terms of the census alone. -/
theorem merge_hashes_eq (self : ClaudeRequestCensusJoin)
    (hhashes : ∀ entry ∈ census.records.entries, Ascending entry.2.request_hashes)
    (hself : self.counts.duplicate_owner_entries ≤ 2 ^ 64 - 1) :
    ∃ shared : Finset String,
      (∀ key, key ∈ shared ↔ ∃ hash ∈ doubled census, key ∈ holders census hash) ∧
      merge_hashes self census = { self with
        counts := { self.counts with
          duplicate_hashes := self.counts.duplicate_hashes + (doubled census).card
          duplicate_owner_entries := saturating_add self.counts.duplicate_owner_entries
            (∑ hash ∈ doubled census, (holders census hash).length) }
        shared_keys := self.shared_keys ∪ shared } := by
  have hlists : ∀ list ∈ lists_of census, Ascending list.2 := by
    intro list hlist
    obtain ⟨entry, hentry, rfl⟩ := mem_map.mp hlist
    exact hhashes entry (mem_of_mem_filter hentry)
  have hsorted : (popped (lists_of census)).Pairwise (fun a b => a.1 ≤ b.1) := by
    refine pops_sorted _ (start_stands _) fun list hlist => ?_
    obtain ⟨full, hfull, rfl⟩ := mem_map.mp hlist
    exact (hlists full hfull).imp (fun hlt => le_of_lt hlt)
  obtain ⟨elements, hascending, hmembers, hclosed⟩ := closed_eq (close_run (lists_of census))
    (fun join => by rw [close_run, if_pos (by simp)]) self _ hsorted
  have hlength : ∀ hash, (Fronts.group (popped (lists_of census)) hash).length =
      (holders census hash).length := fun hash =>
    (length_map _).symm.trans (group_holders hlists hash).length_eq
  let twice := elements.filter (fun hash => decide (2 ≤ (holders census hash).length))
  have htwice : doubles (elements.map (Fronts.group (popped (lists_of census)))) =
      twice.map (Fronts.group (popped (lists_of census))) := by
    rw [doubles, filter_map]
    exact congrArg _ (filter_congr fun hash _ => by rw [comp_apply, hlength])
  have hdoubled : doubled census = twice.toFinset := by
    ext hash
    rw [mem_doubled, mem_toFinset, mem_filter, hmembers, decide_eq_true_eq, iff_and_self]
    intro htwo
    by_contra habsent
    have hnone := hlength hash
    rw [group_of_absent habsent, length_nil] at hnone
    omega
  have hnodup : twice.Nodup := (hascending.imp (fun hlt => ne_of_lt hlt)).filter _
  refine ⟨((twice.map (Fronts.group (popped (lists_of census)))).flatten.map
    (key_of (lists_of census))).toFinset, fun key => ?_, ?_⟩
  · rw [hdoubled, mem_toFinset, map_flatten, map_map]
    simp only [mem_flatten, mem_map, mem_toFinset, comp_apply]
    constructor
    · rintro ⟨_, ⟨hash, hhash, rfl⟩, hkey⟩
      exact ⟨hash, hhash, (group_holders hlists hash).mem_iff.mp hkey⟩
    · rintro ⟨hash, hhash, hkey⟩
      exact ⟨_, ⟨hash, hhash, rfl⟩, (group_holders hlists hash).mem_iff.mpr hkey⟩
  · rw [merge_hashes_closed, hclosed, close_runs_eq _ _ self hself, htwice, hdoubled,
      toFinset_card_of_nodup hnodup, length_map, sum_toFinset _ hnodup, map_map]
    simp only [comp_def, hlength]

/-! ## The keys that count -/

section

variable (index : ScanIndex) (window : UInt64) (residue_index_keys : Finset String)

/-- The (root, member) of a key that counts: a family member that is not confirmed empty. -/
def counted (key : String) : Option (String × String) :=
  if key ∈ index.confirmed_empty_files then none else claude_index_path_family_member key

/-- What the loop over the files has made of those it has seen. -/
structure Counted (seen : List (String × ScanIndexEntry))
    (state : ClaudeRequestCensusJoin × List (String × String)) : Prop where
  coverage : ∀ key coverage, state.1.coverage.get? key = some coverage ↔
    ∃ entry, (key, entry) ∈ seen ∧ (counted index key).isSome ∧
      coverage_at index window residue_index_keys (key, entry) = coverage
  family_keys : state.1.counts.family_keys =
    seen.countP (fun file => (counted index file.1).isSome)
  by_coverage : ∀ coverage, state.1.counts.by_coverage coverage =
    seen.countP (fun file => (counted index file.1).isSome &&
      coverage_at index window residue_index_keys file == coverage)
  path_owners : state.2 = (seen.filterMap (fun file => counted index file.1)).reverse
  unknown_roots : ∀ file ∈ seen, ∀ owner record, counted index file.1 = some owner →
    (coverage_at index window residue_index_keys file).covers = true →
    own_record index file.1 = some record → unknown_record record = true →
    owner.1 ∈ state.1.unknown_roots
  untouched : state.1.counts.transient_limited = !index.persistence_available ∧
    state.1.counts.duplicate_hashes = 0 ∧ state.1.counts.duplicate_owner_entries = 0 ∧
    state.1.shared_keys = ∅

variable {index window residue_index_keys} {seen : List (String × ScanIndexEntry)}
  {state : ClaudeRequestCensusJoin × List (String × String)} {file : String × ScanIndexEntry}

theorem count_key_of_none (h : counted index file.1 = none) :
    count_key index window residue_index_keys state file = state := by
  unfold counted at h
  unfold count_key
  cases hmember : claude_index_path_family_member file.1 with
  | none => rfl
  | some owner =>
    by_cases hempty : file.1 ∈ index.confirmed_empty_files
    · simp only [if_pos hempty]
    · rw [if_neg hempty, hmember] at h
      cases h

theorem Counted.skip (h : Counted index window residue_index_keys seen state)
    (hnone : counted index file.1 = none) :
    Counted index window residue_index_keys (seen ++ [file]) state := by
  obtain ⟨hcoverage, hkeys, hby, howners, hunknown, huntouched⟩ := h
  refine ⟨fun key coverage => ?_, ?_, fun coverage => ?_, ?_, fun other hother owner record hcounted => ?_,
    huntouched⟩
  · rw [hcoverage]
    refine exists_congr fun entry => ?_
    rw [mem_append, mem_singleton]
    refine ⟨fun hall => ⟨.inl hall.1, hall.2⟩, fun hall => ⟨hall.1.resolve_right fun heq => ?_, hall.2⟩⟩
    have hsome := hall.2.1
    rw [show key = file.1 from congrArg Prod.fst heq, hnone] at hsome
    cases hsome
  · rw [hkeys, countP_append]
    simp [hnone]
  · rw [hby, countP_append]
    simp [hnone]
  · rw [howners, filterMap_append]
    simp [hnone]
  · rcases mem_append.mp hother with hother | hother
    · exact hunknown other hother owner record hcounted
    · rw [mem_singleton.mp hother, hnone] at hcounted
      cases hcounted

variable (window residue_index_keys state) in
theorem count_key_of_counted {owner : String × String} (h : counted index file.1 = some owner) :
    ∃ counts : Counts,
      count_key index window residue_index_keys state file =
        ({ state.1 with
            counts
            coverage := state.1.coverage.insert file.1 (coverage_at index window residue_index_keys file)
            unknown_roots :=
              if (if (coverage_at index window residue_index_keys file).covers then
                  own_record index file.1 else none).any unknown_record then
                insert owner.1 state.1.unknown_roots
              else state.1.unknown_roots },
          owner :: state.2) ∧
      counts.family_keys = state.1.counts.family_keys + 1 ∧
      counts.by_coverage = Function.update state.1.counts.by_coverage
        (coverage_at index window residue_index_keys file)
        (state.1.counts.by_coverage (coverage_at index window residue_index_keys file) + 1) ∧
      counts.transient_limited = state.1.counts.transient_limited ∧
      counts.duplicate_hashes = state.1.counts.duplicate_hashes ∧
      counts.duplicate_owner_entries = state.1.counts.duplicate_owner_entries := by
  unfold counted at h
  split at h
  · cases h
  · rename_i hempty
    unfold count_key
    simp only [h, if_neg hempty]
    refine ⟨_, rfl, ?_⟩
    cases (if (coverage_at index window residue_index_keys file).covers then
      own_record index file.1 else none) <;> exact ⟨rfl, rfl, rfl, rfl, rfl⟩

theorem mem_grown {p : Prop} [Decidable p] {a b : String} {roots : Finset String} (h : a ∈ roots) :
    a ∈ if p then insert b roots else roots := by
  split
  · exact Finset.mem_insert_of_mem h
  · exact h

/-- The keys of the files come in order, so that each is counted once. -/
theorem Counted.count_key (h : Counted index window residue_index_keys seen state)
    (hbelow : ∀ other ∈ seen, other.1 < file.1) :
    Counted index window residue_index_keys (seen ++ [file])
      (count_key index window residue_index_keys state file) := by
  cases hcounted : counted index file.1 with
  | none =>
    rw [count_key_of_none hcounted]
    exact h.skip hcounted
  | some owner =>
    obtain ⟨hcoverage, hkeys, hby, howners, hunknown, htransient, hhashes, hentries, hshared⟩ := h
    obtain ⟨counts, hcount, hkeys', hby', htransient', hhashes', hentries'⟩ :=
      count_key_of_counted window residue_index_keys state hcounted
    rw [hcount]
    refine ⟨fun key coverage => ?_, ?_, fun coverage => ?_, ?_, ?_, htransient'.trans htransient,
      hhashes'.trans hhashes, hentries'.trans hentries, hshared⟩
    · rw [SortedMap.get?_insert]
      by_cases hkey : key = file.1
      · subst hkey
        rw [if_pos rfl, Option.some.injEq]
        constructor
        · rintro rfl
          exact ⟨file.2, by simp, by rw [hcounted]; rfl, rfl⟩
        · rintro ⟨entry, hentry, -, rfl⟩
          rcases mem_append.mp hentry with hentry | hentry
          · exact absurd (hbelow _ hentry) (lt_irrefl _)
          · rw [mem_singleton] at hentry
            rw [← hentry]
      · rw [if_neg hkey, hcoverage]
        refine exists_congr fun entry => and_congr_left fun _ => ?_
        rw [mem_append, mem_singleton]
        exact ⟨.inl, fun hor => hor.resolve_right fun heq => hkey (congrArg Prod.fst heq)⟩
    · rw [hkeys', hkeys, countP_append]
      simp [hcounted]
    · rw [hby', countP_append, countP_singleton, update_apply]
      by_cases hsame : coverage = coverage_at index window residue_index_keys file
      · rw [if_pos hsame, ← hsame, hby]
        simp [hcounted]
      · rw [if_neg hsame, hby]
        simp [Ne.symm hsame]
    · rw [howners, filterMap_append]
      simp [hcounted]
    · intro other hother owner' record hother' hcovers hrecord hunk
      rcases mem_append.mp hother with hother | hother
      · exact mem_grown (hunknown other hother owner' record hother' hcovers hrecord hunk)
      · rw [mem_singleton] at hother
        subst hother
        rw [hcounted, Option.some.injEq] at hother'
        rw [if_pos (by simpa [hcovers, hrecord] using hunk), hother']
        exact Finset.mem_insert_self _ _

variable (window residue_index_keys) in
theorem counted_files (index : ScanIndex) :
    Counted index window residue_index_keys index.files.entries
      (index.files.entries.foldl (ClaudeRequestCensusJoin.count_key index window residue_index_keys)
        (empty index, [])) := by
  have hsorted := index.files.sorted
  generalize index.files.entries = files at hsorted
  induction files using List.reverseRecOn with
  | nil =>
    refine ⟨fun key coverage => ?_, rfl, fun _ => rfl, rfl, fun _ h => absurd h not_mem_nil,
      rfl, rfl, rfl, rfl⟩
    constructor
    · intro h
      cases h
    · rintro ⟨_, h, -⟩
      cases h
  | append_singleton files file ih =>
    obtain ⟨hfront, -, hlast⟩ := pairwise_append.mp hsorted
    rw [foldl_append, foldl_cons, foldl_nil]
    exact (ih hfront).count_key fun other hother =>
      hlast other hother file (mem_singleton_self file)

variable (window residue_index_keys) in
/-- The join as it stands before its hashes are merged. -/
theorem new_eq {workspace_bound : Option Nat} (hsize : oversized index workspace_bound = false) :
    ∃ join : ClaudeRequestCensusJoin,
      new index window residue_index_keys workspace_bound = merge_hashes join index.census ∧
      Counted index window residue_index_keys index.files.entries
        (join, (index.files.entries.filterMap (fun file => counted index file.1)).reverse) ∧
      twin_roots ((index.files.entries.filterMap (fun file => counted index file.1)).reverse) ⊆
        join.unknown_roots := by
  have h := counted_files window residue_index_keys index
  obtain ⟨hcoverage, hkeys, hby, howners, hunknown, huntouched⟩ := h
  refine ⟨_, if_neg (by simp [hsize]), ⟨hcoverage, hkeys, hby, rfl, ?_, huntouched⟩, ?_⟩
  · intro file hfile owner record hcounted hcovers hrecord hunk
    exact Finset.mem_union_left _ (Finset.mem_union_left _
      (hunknown file hfile owner record hcounted hcovers hrecord hunk))
  · rw [← howners]
    exact fun root hroot => Finset.mem_union_left _ (Finset.mem_union_right _ hroot)

end

/-! ## What the join says -/

/-- The key's record holds the hash. -/
def Holds (census : ClaudeRequestCensus) (key : String) (hash : UInt64) : Prop :=
  ∃ record, census.records.get? key = some record ∧ hash ∈ record.request_hashes

theorem mem_holders {key : String} {hash : UInt64} : key ∈ holders census hash ↔ Holds census key hash := by
  unfold holders Holds
  simp only [mem_map, mem_filter, decide_eq_true_eq, Prod.exists, exists_and_right,
    exists_eq_right]
  exact exists_congr fun record => and_congr_left fun _ => SortedMap.mem_entries

theorem holders_nodup (hash : UInt64) : (holders census hash).Nodup := by
  have hkeys : (census.records.entries.map Prod.fst).Nodup :=
    pairwise_map.mpr (census.records.sorted.imp (fun hlt => ne_of_lt hlt))
  exact hkeys.sublist (filter_sublist.map Prod.fst)

/-- A hash has two holders where another key holds it too. -/
theorem two_holders {key : String} {hash : UInt64} (h : Holds census key hash) :
    hash ∈ doubled census ↔ ∃ other, other ≠ key ∧ Holds census other hash := by
  have hlength := length_erase_of_mem (mem_holders.mpr h)
  calc hash ∈ doubled census
      ↔ 0 < ((holders census hash).erase key).length := by
        rw [mem_doubled]
        omega
    _ ↔ ∃ other, other ∈ (holders census hash).erase key := length_pos_iff_exists_mem
    _ ↔ ∃ other, other ≠ key ∧ Holds census other hash := by
        simp only [(holders_nodup hash).mem_erase_iff, mem_holders]

variable (index : ScanIndex) (window : UInt64) (residue_index_keys : Finset String)
  (workspace_bound : Option Nat)

theorem hash_join_spec
    (hhashes : ∀ entry ∈ index.census.records.entries, Ascending entry.2.request_hashes)
    (hsize : oversized index workspace_bound = false) :
    (new index window residue_index_keys workspace_bound).counts.duplicate_hashes =
        (doubled index.census).card ∧
      (new index window residue_index_keys workspace_bound).counts.duplicate_owner_entries =
        min (2 ^ 64 - 1) (∑ hash ∈ doubled index.census, (holders index.census hash).length) ∧
      ∀ key, key ∈ (new index window residue_index_keys workspace_bound).shared_keys ↔
        ∃ hash other, other ≠ key ∧ Holds index.census key hash ∧ Holds index.census other hash := by
  obtain ⟨join, hnew, ⟨-, -, -, -, -, -, hdoubles, howners, hshared⟩, -⟩ :=
    new_eq window residue_index_keys hsize
  obtain ⟨shared, hkeys, hmerge⟩ := merge_hashes_eq join hhashes (by simp only at howners; omega)
  rw [hnew, hmerge]
  refine ⟨by rw [hdoubles, Nat.zero_add], by rw [howners, saturating_add, Nat.zero_add], fun key => ?_⟩
  rw [hshared, Finset.empty_union, hkeys]
  refine exists_congr fun hash => ?_
  constructor
  · rintro ⟨htwo, hkey⟩
    obtain ⟨other, hne, hother⟩ := (two_holders (mem_holders.mp hkey)).mp htwo
    exact ⟨other, hne, mem_holders.mp hkey, hother⟩
  · rintro ⟨other, hne, hkey, hother⟩
    exact ⟨(two_holders hkey).mpr ⟨other, hne, hother⟩, mem_holders.mpr hkey⟩

/-- Every key that counts is covered. -/
def AllCovered : Prop :=
  ∀ file ∈ index.files.entries, (counted index file.1).isSome →
    (coverage_at index window residue_index_keys file).covers = true

/-- A key is covered by a record of its own, which is no tombstone. -/
theorem own_record_of_covers {file : String × ScanIndexEntry}
    (h : (coverage_at index window residue_index_keys file).covers = true) :
    ∃ record, own_record index file.1 = some record ∧ record.shape ≠ .OverBudget := by
  unfold coverage_at coverage_of at h
  cases hbind : (own_record index file.1).bind (covering window file.2) with
  | none =>
    rw [hbind] at h
    split_ifs at h <;> cases h
  | some coverage =>
    obtain ⟨record, hrecord, hcovering⟩ := Option.bind_eq_some_iff.mp hbind
    refine ⟨record, hrecord, fun hshape => ?_⟩
    rw [covering, if_pos hshape] at hcovering
    cases hcovering

theorem covered_count (files : List (String × ScanIndexEntry)) :
    files.countP (fun file => (counted index file.1).isSome &&
        coverage_at index window residue_index_keys file == .Fingerprint) +
      files.countP (fun file => (counted index file.1).isSome &&
        coverage_at index window residue_index_keys file == .Window) =
    (files.filter (fun file => (counted index file.1).isSome)).countP (fun file =>
      (coverage_at index window residue_index_keys file).covers) := by
  induction files with
  | nil => rfl
  | cons file files ih =>
    rw [countP_cons, countP_cons, filter_cons]
    cases hcounted : (counted index file.1).isSome with
    | false => simpa [hcounted] using ih
    | true =>
      rw [if_pos rfl, countP_cons, ← ih]
      cases coverage_at index window residue_index_keys file <;>
        simp [ClaudeRequestCensusCoverage.covers] <;> omega

theorem disjointness_complete_iff (census_complete : Bool)
    (hhashes : ∀ entry ∈ index.census.records.entries, Ascending entry.2.request_hashes)
    (hsize : oversized index workspace_bound = false) :
    (new index window residue_index_keys workspace_bound).disjointness_complete census_complete = true ↔
      census_complete = true ∧ index.persistence_available = true ∧
        AllCovered index window residue_index_keys ∧
        ∑ hash ∈ doubled index.census, (holders index.census hash).length ≤
          MAX_CLAUDE_DUPLICATE_REQUEST_OWNERS := by
  obtain ⟨-, hentries, -⟩ :=
    hash_join_spec index window residue_index_keys workspace_bound hhashes hsize
  obtain ⟨join, hnew, ⟨-, hkeys, hby, -, -, htransient, -, howners, -⟩, -⟩ :=
    new_eq window residue_index_keys hsize
  obtain ⟨shared, -, hmerge⟩ := merge_hashes_eq join hhashes (by simp only at howners; omega)
  have hcovered : join.counts.by_coverage .Fingerprint + join.counts.by_coverage .Window =
      join.counts.family_keys ↔ AllCovered index window residue_index_keys := by
    simp only at hkeys hby
    have hall := countP_eq_length_filter (l := index.files.entries)
      (p := fun file => (counted index file.1).isSome)
    rw [hby, hby, hkeys, covered_count, hall, countP_eq_length]
    simp only [mem_filter, and_imp, AllCovered]
  unfold disjointness_complete
  simp only [Bool.and_eq_true, beq_iff_eq, decide_eq_true_eq, hentries]
  rw [hnew, hmerge]
  simp only [hcovered] at htransient ⊢
  rw [htransient, Bool.not_not, and_assoc, and_assoc]
  refine and_congr_right fun _ => and_congr_right fun _ => and_congr_right fun _ => ?_
  unfold MAX_CLAUDE_DUPLICATE_REQUEST_OWNERS
  omega

/-- Over any records with ascending hashes, the merge counts each request id that lies under two keys
once, with one owner entry for each key that holds it, shares exactly the keys that hold an id another
key holds, and the gate opens exactly where every key that counts is covered and the owners fit. -/
theorem the_join_is_exact
    (hhashes : ∀ entry ∈ index.census.records.entries, Ascending entry.2.request_hashes)
    (hsize : oversized index workspace_bound = false) :
    (new index window residue_index_keys workspace_bound).counts.duplicate_hashes =
        (doubled index.census).card ∧
      (new index window residue_index_keys workspace_bound).counts.duplicate_owner_entries =
        min (2 ^ 64 - 1) (∑ hash ∈ doubled index.census, (holders index.census hash).length) ∧
      (∀ key, key ∈ (new index window residue_index_keys workspace_bound).shared_keys ↔
        ∃ hash other, other ≠ key ∧ Holds index.census key hash ∧ Holds index.census other hash) ∧
      ∀ census_complete,
        (new index window residue_index_keys workspace_bound).disjointness_complete census_complete = true ↔
          census_complete = true ∧ index.persistence_available = true ∧
            AllCovered index window residue_index_keys ∧
            ∑ hash ∈ doubled index.census, (holders index.census hash).length ≤
              MAX_CLAUDE_DUPLICATE_REQUEST_OWNERS := by
  obtain ⟨hdoubles, howners, hshared⟩ :=
    hash_join_spec index window residue_index_keys workspace_bound hhashes hsize
  exact ⟨hdoubles, howners, hshared, fun census_complete =>
    disjointness_complete_iff index window residue_index_keys workspace_bound census_complete hhashes hsize⟩

/-- A record of these request ids, read in window 1. -/
def example_record (request_hashes : List UInt64) : ClaudeRequestCensusRecord :=
  { ClaudeRequestCensusRecord.birth_stub ⟨0, 0, 0⟩ with
    derivation := 1, window := 1, shape := .Exact, request_hashes }

/-- Three main transcripts: the first two share request 7, the third shares none. -/
def example_index : ScanIndex where
  files := ((SortedMap.empty.insert "r.jsonl" ⟨"", some ""⟩).insert "s.jsonl" ⟨"", some ""⟩).insert
    "t.jsonl" ⟨"", some ""⟩
  confirmed_empty_files := ∅
  census :=
    { records := ((SortedMap.empty.insert "r.jsonl" (example_record [3, 7])).insert "s.jsonl"
        (example_record [7, 9])).insert "t.jsonl" (example_record [8])
      hash_total := 5 }
  claude_usage_authority_quarantine := ∅
  claude_account_deferred_holds := ∅
  file_snapshot_fingerprints := ∅
  persistence_available := true

theorem example_ascending :
    ∀ entry ∈ example_index.census.records.entries, Ascending entry.2.request_hashes := by
  unfold Ascending
  decide +kernel

theorem the_join_is_exact_of_example :
    oversized example_index (some 0) = false ∧
      (new example_index 1 ∅ (some 0)).counts.duplicate_hashes = 1 ∧
      (new example_index 1 ∅ (some 0)).counts.duplicate_owner_entries = 2 ∧
      "s.jsonl" ∈ (new example_index 1 ∅ (some 0)).shared_keys ∧
      "t.jsonl" ∉ (new example_index 1 ∅ (some 0)).shared_keys := by
  have hsize : oversized example_index (some 0) = false := by decide +kernel
  have hdoubled : doubled example_index.census = {7} := by decide +kernel
  have hholders : holders example_index.census 7 = ["r.jsonl", "s.jsonl"] := by decide +kernel
  obtain ⟨hhashes, howners, hshared, -⟩ :=
    the_join_is_exact example_index 1 ∅ (some 0) example_ascending hsize
  have hheld (key : String) : Holds example_index.census key 7 ↔ key ∈ ["r.jsonl", "s.jsonl"] := by
    rw [← hholders, mem_holders]
  refine ⟨hsize, hhashes, howners, (hshared _).mpr ⟨7, "r.jsonl", by decide, (hheld _).mpr (by decide),
    (hheld _).mpr (by decide)⟩, fun h => ?_⟩
  obtain ⟨hash, other, hne, hkey, hother⟩ := (hshared _).mp h
  have htwo := (two_holders hkey).mpr ⟨other, hne, hother⟩
  rw [hdoubled, Finset.mem_singleton] at htwo
  rw [htwo] at hkey
  exact absurd ((hheld _).mp hkey) (by decide)

theorem member_of_counted {key : String} {owner : String × String} (h : counted index key = some owner) :
    claude_index_path_family_member key = some owner := by
  unfold counted at h
  split at h
  · cases h
  · exact h

/-- The gate of an oversized index never opens. -/
theorem not_oversized_of_open {census_complete : Bool}
    (h : (new index window residue_index_keys workspace_bound).disjointness_complete census_complete =
      true) : oversized index workspace_bound = false := by
  by_contra hsize
  rw [Bool.not_eq_false] at hsize
  rw [new, if_pos hsize] at h
  simp [disjointness_complete] at h

theorem mem_twin_roots {owners : List (String × String)} {owner : String × String}
    (h : 1 < owners.count owner) : owner.1 ∈ twin_roots owners := by
  rw [twin_roots, mem_toFinset, mem_map]
  exact ⟨owner, mem_filter.mpr ⟨count_pos_iff.mp (by omega), decide_eq_true h⟩, rfl⟩

/-- A member is disjoint only under an open gate, by a verified record of its own that is exact or empty
and shares no id with any other key, in a family without an unknown record or a path twin. -/
theorem a_disjoint_member_stands_alone (key : String) (census_complete : Bool)
    (hhashes : ∀ entry ∈ index.census.records.entries, Ascending entry.2.request_hashes)
    (h : (new index window residue_index_keys workspace_bound).member_status index key census_complete =
      .Disjoint) :
    (census_complete = true ∧ index.persistence_available = true ∧
      AllCovered index window residue_index_keys ∧
      ∑ hash ∈ doubled index.census, (holders index.census hash).length ≤
        MAX_CLAUDE_DUPLICATE_REQUEST_OWNERS) ∧
    ∃ record owner, own_record index key = some record ∧ counted index key = some owner ∧
      (record.shape = .Exact ∨ record.shape = .Empty) ∧ record.unverified = false ∧
      (∀ hash other, other ≠ key → Holds index.census key hash → ¬ Holds index.census other hash) ∧
      (index.files.entries.filterMap (fun file => counted index file.1)).count owner ≤ 1 ∧
      ∀ file ∈ index.files.entries, ∀ other, counted index file.1 = some other → other.1 = owner.1 →
        ∀ member, own_record index file.1 = some member → unknown_record member = false := by
  unfold member_status at h
  split at h
  · cases h
  · rename_i hopen
    rw [Bool.not_eq_false] at hopen
    have hsize := not_oversized_of_open index window residue_index_keys workspace_bound hopen
    have hgate := (disjointness_complete_iff index window residue_index_keys workspace_bound
      census_complete hhashes hsize).mp hopen
    refine ⟨hgate, ?_⟩
    obtain ⟨-, -, hshared⟩ :=
      hash_join_spec index window residue_index_keys workspace_bound hhashes hsize
    obtain ⟨join, hnew, ⟨hcoverage, -, -, -, hunknown, -, -, howners, -⟩, htwins⟩ :=
      new_eq window residue_index_keys hsize
    obtain ⟨shared, -, hmerge⟩ := merge_hashes_eq join hhashes (by simp only at howners; omega)
    have hsame : (new index window residue_index_keys workspace_bound).coverage = join.coverage ∧
        (new index window residue_index_keys workspace_bound).unknown_roots = join.unknown_roots := by
      rw [hnew, hmerge]
      exact ⟨rfl, rfl⟩
    rw [hsame.1, hsame.2] at h
    dsimp only at h
    split at h
    · rename_i record root member hrecord hmember
      split_ifs at h with hkey hfamily hunverified
      obtain ⟨hget, hcovered⟩ := Option.filter_eq_some_iff.mp hrecord
      obtain ⟨coverage, hat, hcovers⟩ : ∃ coverage, join.coverage.get? key = some coverage ∧
          coverage.covers = true := by
        cases hat : join.coverage.get? key with
        | none => simp [hat] at hcovered
        | some coverage => exact ⟨coverage, rfl, by simpa [hat] using hcovered⟩
      obtain ⟨entry, hentry, hcounts, rfl⟩ := (hcoverage key coverage).mp hat
      obtain ⟨owner, howner⟩ := Option.isSome_iff_exists.mp hcounts
      have hroot : owner = (root, member) :=
        Option.some.inj ((member_of_counted index howner).symm.trans hmember)
      obtain ⟨own, hown, hshape⟩ :=
        own_record_of_covers index window residue_index_keys hcovers
      have hsame : own = record := by
        obtain ⟨hown, -⟩ := Option.filter_eq_some_iff.mp hown
        exact Option.some.inj (hown.symm.trans hget)
      subst hsame
      rw [not_or, Bool.not_eq_true] at hfamily
      refine ⟨own, owner, hown, howner, ?_, by simpa using hunverified, ?_, ?_, ?_⟩
      · cases hs : own.shape <;> simp_all [ClaudeRequestCensusShape.unknown]
      · exact fun hash other hne hmine hother => hkey ((hshared key).mpr ⟨hash, other, hne, hmine, hother⟩)
      · by_contra htwice
        have hmem := htwins (@mem_twin_roots _ owner (by rwa [count_reverse, ← not_le]))
        rw [hroot] at hmem
        exact hfamily.1 hmem
      · intro file hfile other hother hfamily' record hrecord
        by_contra hunk
        rw [Bool.not_eq_false] at hunk
        have hcovers := hgate.2.2.1 file hfile (by rw [hother]; rfl)
        have hmem := hunknown file hfile other record hother hcovers hrecord hunk
        rw [hfamily', hroot] at hmem
        exact hfamily.1 hmem
    · cases h

theorem a_disjoint_member_stands_alone_of_example :
    (new example_index 1 ∅ (some 0)).member_status example_index "t.jsonl" true = .Disjoint ∧
      AllCovered example_index 1 ∅ := by
  have hstatus : (new example_index 1 ∅ (some 0)).member_status example_index "t.jsonl" true =
      .Disjoint := by decide +kernel
  exact ⟨hstatus, (a_disjoint_member_stands_alone example_index 1 ∅ (some 0) "t.jsonl" true
    example_ascending hstatus).1.2.2.1⟩

end ClaudeRequestCensusJoin

end ottto_service.claude_request_census
