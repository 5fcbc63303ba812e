-- What each operation on the copy removals leaves: one file's passes and groups
-- set, and the other files as they were.
import Ottto.CopyGroups

namespace ottto_service.claude_copy_removals

open Words SortedVec Option GroupMap Groups SortedMap UInt64
open SortedMap (lookupEntry insertEntry eraseEntry)
open claude_money_birth_store (LocationKey)

namespace CopyRemovals

/-- The passes and the groups of a file. -/
def entry (s : CopyRemovals) (file : LocationKey) : Option (UInt64 × Groups) :=
  lookupEntry file s.files

/-- What the store keeps: no hold reaches the limit, the groups are well formed,
and a file without groups is held. -/
structure Valid (s : CopyRemovals) : Prop where
  sorted : Sorted s.files
  held : ∀ file e, s.entry file = some e →
    e.1 < HOLD_PASSES ∧ Groups.WellFormed e.2 ∧ (e.2 = [] → e.1 ≠ 0)

/-- The entry that a file's passes and groups make: none, when there are neither. -/
def made (attempts : UInt64) (groups : Groups) : Option (UInt64 × Groups) :=
  if groups = [] ∧ attempts = 0 then none else some (attempts, groups)

/-- One file's passes and groups are set. -/
structure Sets (s s' : CopyRemovals) (file : LocationKey) (attempts : UInt64) (groups : Groups) :
    Prop where
  sorted : Sorted s'.files
  lost : s'.metadata_lost = s.metadata_lost
  entry : ∀ k, s'.entry k = if k = file then made attempts groups else s.entry k

variable {s s' s'' : CopyRemovals} {file : LocationKey} {attempts : UInt64} {groups : Groups}

theorem get_eq (hs : Sorted s.files) (file : LocationKey) :
    s.get file = ((s.entry file).map Prod.snd).getD [] := by
  have hfound := binary_search_spec hs file
  unfold get entry
  generalize binary_search s.files file = found at hfound ⊢
  cases hfound with
  | found i e hentry hlookup _ _ => simp only [hentry, hlookup, map_some, getD_some]
  | absent i hlookup _ => simp only [hlookup, map_none, getD_none]

theorem hold_age_eq (hs : Sorted s.files) (file : LocationKey) :
    s.hold_age file = ((s.entry file).map Prod.fst).getD 0 := by
  have hfound := binary_search_spec hs file
  unfold hold_age entry
  generalize binary_search s.files file = found at hfound ⊢
  cases hfound with
  | found i e hentry hlookup _ _ => simp only [hentry, hlookup, map_some, getD_some]
  | absent i hlookup _ => simp only [hlookup, map_none, getD_none]

theorem Valid.get (hs : s.Valid) (file : LocationKey) : Groups.WellFormed (s.get file) := by
  rw [get_eq hs.sorted]
  cases hentry : s.entry file with
  | none => exact .nil
  | some e => exact (hs.held file e hentry).2.1

theorem Valid.hold_age (hs : s.Valid) (file : LocationKey) : s.hold_age file < HOLD_PASSES := by
  rw [hold_age_eq hs.sorted]
  cases hentry : s.entry file with
  | none => decide
  | some e => exact (hs.held file e hentry).1

/-- A file's entry is what its passes and groups make. -/
theorem Valid.entry_eq (hs : s.Valid) (file : LocationKey) :
    s.entry file = made (s.hold_age file) (s.get file) := by
  rw [get_eq hs.sorted, hold_age_eq hs.sorted]
  cases hentry : s.entry file with
  | none => rfl
  | some e =>
    have hheld := (hs.held file e hentry).2.2
    exact (if_neg (fun hnone => hheld hnone.1 hnone.2)).symm

namespace Sets

theorem valid (h : Sets s s' file attempts groups) (hs : s.Valid) (ha : attempts < HOLD_PASSES)
    (hg : groups.WellFormed) : s'.Valid := by
  refine ⟨h.sorted, fun k e hk => ?_⟩
  rw [h.entry] at hk
  split_ifs at hk with hfile
  · unfold made at hk
    split_ifs at hk with hnone
    cases hk
    exact ⟨ha, hg, fun hempty hzero => hnone ⟨hempty, hzero⟩⟩
  · exact hs.held k e hk

theorem get (h : Sets s s' file attempts groups) (hs : Sorted s.files) (k : LocationKey) :
    s'.get k = if k = file then groups else s.get k := by
  rw [get_eq h.sorted, get_eq hs, h.entry]
  by_cases hk : k = file
  · rw [if_pos hk, if_pos hk]
    unfold made
    split_ifs with hnone
    · exact hnone.1.symm
    · rfl
  · rw [if_neg hk, if_neg hk]

theorem hold_age (h : Sets s s' file attempts groups) (hs : Sorted s.files) (k : LocationKey) :
    s'.hold_age k = if k = file then attempts else s.hold_age k := by
  rw [hold_age_eq h.sorted, hold_age_eq hs, h.entry]
  by_cases hk : k = file
  · rw [if_pos hk, if_pos hk]
    unfold made
    split_ifs with hnone
    · exact hnone.2.symm
    · rfl
  · rw [if_neg hk, if_neg hk]

theorem trans {attempts' : UInt64} {groups' : Groups} (h : Sets s s' file attempts groups)
    (h' : Sets s' s'' file attempts' groups') : Sets s s'' file attempts' groups' := by
  refine ⟨h'.sorted, h'.lost.trans h.lost, fun k => ?_⟩
  rw [h'.entry, h.entry]
  split_ifs <;> rfl

/-- A file that keeps its passes and groups. -/
theorem same (hs : s.Valid) (file : LocationKey) : Sets s s file (s.hold_age file) (s.get file) := by
  refine ⟨hs.sorted, rfl, fun k => ?_⟩
  split_ifs with hk
  · rw [hk, hs.entry_eq]
  · rfl

end Sets

theorem entry_insert (hs : Sorted s.files) (file : LocationKey) (e : UInt64 × Groups)
    (k : LocationKey) :
    entry { s with files := insertEntry file e s.files } k =
      if k = file then some e else s.entry k := lookupEntry_insertEntry file k e hs

theorem insert_sets (hs : Sorted s.files) (hmade : ¬(groups = [] ∧ attempts = 0)) :
    Sets s { s with files := insertEntry file (attempts, groups) s.files } file attempts groups := by
  refine ⟨hs.insertEntry _ _, rfl, fun k => ?_⟩
  rw [entry_insert hs, made, if_neg hmade]

/-! ## The operations -/

theorem forget_spec (hs : Sorted s.files) (file : LocationKey) : Sets s (s.forget file) file 0 [] := by
  have hfound := binary_search_spec hs file
  unfold forget
  generalize binary_search s.files file = found at hfound ⊢
  cases hfound with
  | found i e _ _ _ herase =>
    simp only [herase]
    refine ⟨hs.eraseEntry _, rfl, fun k => ?_⟩
    exact lookupEntry_eraseEntry file k s.files
  | absent i hlookup _ =>
    refine ⟨hs, rfl, fun k => ?_⟩
    split_ifs with hk
    · rw [hk]
      exact hlookup
    · rfl

theorem clear_hold_spec (hs : Sorted s.files) (file : LocationKey) :
    Sets s (s.clear_hold file) file 0 (s.get file) := by
  have hget := get_eq hs file
  have hfound := binary_search_spec hs file
  unfold clear_hold
  generalize binary_search s.files file = found at hfound ⊢
  cases hfound with
  | found i e hentry hlookup hset _ =>
    have hget : s.get file = e.2 := by
      rw [hget, entry, hlookup]
      rfl
    simp only [hentry, hset, List.isEmpty_iff]
    rw [hget]
    by_cases hempty : e.2 = []
    · rw [if_pos hempty, hempty]
      exact forget_spec hs file
    · rw [if_neg hempty]
      exact insert_sets hs (fun h => hempty h.1)
  | absent i hlookup _ =>
    have hget : s.get file = [] := by
      rw [hget, entry, hlookup]
      rfl
    rw [hget]
    refine ⟨hs, rfl, fun k => ?_⟩
    split_ifs with hk
    · rw [hk]
      exact hlookup
    · rfl

/-- The third pass ends the hold. -/
theorem advance_hold_spec (hs : s.Valid) (file : LocationKey) :
    (s.hold_age file + 1 < HOLD_PASSES ∧ (s.advance_hold file).2 = true ∧
      Sets s (s.advance_hold file).1 file (s.hold_age file + 1) (s.get file)) ∨
    (s.hold_age file + 1 = HOLD_PASSES ∧ (s.advance_hold file).2 = false ∧
      Sets s (s.advance_hold file).1 file 0 (s.get file)) := by
  have hage := hs.hold_age file
  have hgets := get_eq hs.sorted file
  have hages := hold_age_eq hs.sorted file
  have hthree : HOLD_PASSES.toNat = 3 := rfl
  have hnext : saturating_add (s.hold_age file) 1 = s.hold_age file + 1 := by
    rw [UInt64.lt_iff_toNat_lt, hthree] at hage
    rw [saturating_add, if_pos]
    change (s.hold_age file).toNat + 1 < 2 ^ 64
    omega
  have hne : s.hold_age file + 1 ≠ 0 := by
    intro hzero
    have hwrap := congrArg UInt64.toNat hzero
    rw [UInt64.lt_iff_toNat_lt, hthree] at hage
    rw [UInt64.toNat_add, UInt64.toNat_one, UInt64.toNat_zero] at hwrap
    omega
  have hfound := binary_search_spec hs.sorted file
  unfold advance_hold
  generalize binary_search s.files file = found at hfound ⊢
  cases hfound with
  | found i e hentry hlookup hset _ =>
    have hget : s.get file = e.2 := by
      rw [hgets, entry, hlookup]
      rfl
    have hhold : s.hold_age file = e.1 := by
      rw [hages, entry, hlookup]
      rfl
    have hheld : Sets s { s with files := insertEntry file (s.hold_age file + 1, e.2) s.files } file
        (s.hold_age file + 1) (s.get file) := by
      rw [hget]
      exact insert_sets hs.sorted (fun h => hne h.2)
    simp only [hentry, hset]
    rw [← hhold, hnext]
    by_cases hless : s.hold_age file + 1 < HOLD_PASSES
    · rw [if_pos hless]
      exact .inl ⟨hless, rfl, hheld⟩
    · rw [if_neg hless]
      refine .inr ⟨?_, rfl, ?_⟩
      · apply UInt64.toNat_inj.mp
        rw [UInt64.lt_iff_toNat_lt, UInt64.toNat_add, UInt64.toNat_one, hthree] at hless
        rw [UInt64.lt_iff_toNat_lt, hthree] at hage
        rw [UInt64.toNat_add, UInt64.toNat_one, hthree]
        omega
      · -- the held store, its hold cleared
        have hclear := clear_hold_spec hheld.sorted file
        rw [hheld.get hs.sorted, if_pos rfl] at hclear
        exact hheld.trans hclear
  | absent i hlookup hinsert =>
    have hget : s.get file = [] := by
      rw [hgets, entry, hlookup]
      rfl
    have hhold : s.hold_age file = 0 := by
      rw [hages, entry, hlookup]
      rfl
    simp only [hinsert]
    rw [hhold, hget] at *
    exact .inl ⟨by decide, trivial, insert_sets hs.sorted (by decide)⟩

theorem replace_spec (hs : Sorted s.files) (file : LocationKey) (attempts : UInt64)
    (groups : Groups) : Sets s (s.replace file attempts groups) file attempts groups := by
  have hforget := forget_spec hs file
  have habsent : (s.forget file).entry file = none := by
    rw [hforget.entry, if_pos rfl]
    rfl
  unfold replace
  dsimp only
  by_cases hmade : groups ≠ [] ∨ 0 < attempts
  · rw [if_pos hmade]
    have hfound := binary_search_spec hforget.sorted file
    generalize s.forget file = forgotten at hforget habsent hfound ⊢
    generalize binary_search forgotten.files file = found at hfound ⊢
    cases hfound with
    | found i e _ hlookup _ _ => cases hlookup.symm.trans habsent
    | absent i hlookup hinsert =>
      simp only [hinsert]
      refine hforget.trans (insert_sets hforget.sorted ?_)
      rintro ⟨hempty, hzero⟩
      rcases hmade with hne | hpos
      · exact hne hempty
      · rw [hzero] at hpos
        exact UInt64.lt_irrefl _ hpos
  · rw [if_neg hmade]
    have hnone : groups = [] ∧ attempts = 0 := by
      constructor
      · by_contra hne
        exact hmade (.inl hne)
      · by_contra hne
        exact hmade (.inr (UInt64.pos_iff_ne_zero.mpr hne))
    rw [hnone.1, hnone.2]
    exact hforget

/-- The groups that a decision stores: those that are not empty. -/
def stored (groups : GroupMap) : Groups :=
  GroupMap.groups (groups.retain (fun _ hashes => !hashes.isEmpty))

theorem stored_spec (groups : GroupMap) :
    Groups.WellFormed (stored groups) ∧
      ∀ holder hash, Groups.Has (stored groups) holder hash ↔ groups.Has holder hash := by
  have hnonempty : ∀ set : Hashes, (!set.isEmpty) = true ↔ ∃ hash, set.contains hash = true := by
    intro set
    rw [Bool.not_eq_true', ← Bool.not_eq_true, SortedMap.isEmpty_iff, SortedMap.eq_empty_iff]
    simp only [not_forall, SortedMap.contains, isSome_iff_ne_none, ne_eq]
  refine ⟨GroupMap.Filled.groups (fun holder set hget => ?_), fun holder hash => ?_⟩
  · rw [SortedMap.get?_retain, filter_eq_some_iff] at hget
    exact (hnonempty set).mp hget.2
  · rw [stored, GroupMap.has_groups]
    unfold GroupMap.Has
    constructor
    · rintro ⟨set, hget, hhash⟩
      rw [SortedMap.get?_retain, filter_eq_some_iff] at hget
      exact ⟨set, hget.1, hhash⟩
    · rintro ⟨set, hget, hhash⟩
      refine ⟨set, ?_, hhash⟩
      rw [SortedMap.get?_retain, filter_eq_some_iff]
      exact ⟨hget, (hnonempty set).mpr ⟨hash, hhash⟩⟩

theorem store_spec (hs : s.Valid) (file : LocationKey) (groups : GroupMap) :
    Sets s (s.store file groups).1 file (s.hold_age file) (stored groups) := by
  unfold store
  change Sets s (if s.get file = stored groups then (s, 0)
    else (s.replace file (s.hold_age file) (stored groups), _)).1 _ _ _
  by_cases hsame : s.get file = stored groups
  · rw [if_pos hsame, ← hsame]
    exact Sets.same hs file
  · rw [if_neg hsame]
    exact replace_spec hs.sorted file _ _

/-! ## Moves -/

/-- The greater of two holds. -/
def longer (a b : UInt64) : UInt64 := if a < b then b else a

/-- The entry of the source joins the entry of the target. -/
structure Joined (s s' : CopyRemovals) (source target : LocationKey) : Prop where
  valid : s'.Valid
  lost : s'.metadata_lost = s.metadata_lost
  hold_age : ∀ k, s'.hold_age k = if k = source then 0
    else if k = target then longer (s.hold_age source) (s.hold_age target) else s.hold_age k
  has : ∀ k h x, Groups.Has (s'.get k) h x ↔
    ∃ f, Groups.renamed source target f = k ∧ Groups.Has (s.get f) h x

variable {source target : LocationKey}

/-- A source without an entry leaves everything as it is. -/
theorem Joined.absent (hs : s.Valid) (hget : s.get source = []) (hhold : s.hold_age source = 0) :
    Joined s s source target := by
  refine ⟨hs, rfl, fun k => ?_, fun k h x => ⟨fun hhas => ⟨k, ?_, hhas⟩, ?_⟩⟩
  · split_ifs with hsource htarget
    · rw [hsource, hhold]
    · rw [htarget, hhold, longer]
      split_ifs with hpos
      · rfl
      · by_contra hzero
        exact hpos (UInt64.pos_iff_ne_zero.mpr hzero)
    · rfl
  · refine if_neg (fun hsource => ?_)
    rw [hsource, hget] at hhas
    exact Groups.has_nil h x hhas
  · rintro ⟨f, rfl, hhas⟩
    have hf : f ≠ source := by
      rintro rfl
      rw [hget] at hhas
      exact Groups.has_nil h x hhas
    rwa [Groups.renamed, if_neg hf]

theorem attempts_with_eq (s : CopyRemovals) (file : LocationKey) (attempts : UInt64) :
    s.attempts_with file attempts = longer attempts (s.hold_age file) := by
  unfold attempts_with CopyRemovals.hold_age longer
  cases binary_search s.files file with
  | ok j => rfl
  | error j => exact (if_neg (UInt64.not_lt.mpr UInt64.zero_le)).symm

/-- The groups of two entries, in one map. -/
theorem merged_spec (hs : s.Valid) (source target : LocationKey) :
    ((s.get source).foldl (fun map group => GroupMap.extend map group.1 group.2)
        (GroupMap.of_groups (s.get target))).Filled ∧
      ∀ h x, ((s.get source).foldl (fun map group => GroupMap.extend map group.1 group.2)
        (GroupMap.of_groups (s.get target))).Has h x ↔
          Groups.Has (s.get target) h x ∨ Groups.Has (s.get source) h x := by
  have hsource := hs.get source
  refine ⟨(GroupMap.filled_of_groups (hs.get target)).foldl_extend
    (fun g hg => (hsource.hashes g hg).1), fun h x => ?_⟩
  rw [GroupMap.has_foldl_extend, GroupMap.has_of_groups (hs.get target).sorted,
    Groups.has_iff_mem hsource.sorted]

/-- The source's entry goes, and the target's holds what both held. -/
theorem Joined.of_sets {removed s' : CopyRemovals} {merged : GroupMap} (hs : s.Valid)
    (hne : source ≠ target) (hremoved : Sets s removed source 0 [])
    (hset : Sets removed s' target (longer (s.hold_age source) (s.hold_age target)) merged.groups)
    (hfilled : merged.Filled) (hmerged : ∀ h x, merged.Has h x ↔
      Groups.Has (s.get target) h x ∨ Groups.Has (s.get source) h x) :
    Joined s s' source target := by
  have hvalid := hremoved.valid hs (by decide) .nil
  have hlimit : longer (s.hold_age source) (s.hold_age target) < HOLD_PASSES := by
    unfold longer
    split_ifs
    · exact hs.hold_age target
    · exact hs.hold_age source
  refine ⟨hset.valid hvalid hlimit hfilled.groups, hset.lost.trans hremoved.lost, fun k => ?_,
    fun k h x => ?_⟩
  · rw [hset.hold_age hvalid.sorted, hremoved.hold_age hs.sorted]
    by_cases hk : k = source
    · rw [if_neg (fun htarget => hne (hk.symm.trans htarget)), if_pos hk, if_pos hk]
    · rw [if_neg hk, if_neg hk]
  · rw [hset.get hvalid.sorted, hremoved.get hs.sorted]
    by_cases hk : k = target
    · rw [if_pos hk, GroupMap.has_groups, hmerged]
      constructor
      · rintro (hhas | hhas)
        · exact ⟨target, (if_neg hne.symm).trans hk.symm, hhas⟩
        · exact ⟨source, (if_pos rfl).trans hk.symm, hhas⟩
      · rintro ⟨f, hf, hhas⟩
        by_cases hfsource : f = source
        · exact .inr (hfsource ▸ hhas)
        · rw [Groups.renamed, if_neg hfsource] at hf
          exact .inl (hk ▸ hf ▸ hhas)
    · rw [if_neg hk]
      constructor
      · intro hhas
        by_cases hksource : k = source
        · rw [if_pos hksource] at hhas
          exact absurd hhas (Groups.has_nil h x)
        · rw [if_neg hksource] at hhas
          exact ⟨k, if_neg hksource, hhas⟩
      · rintro ⟨f, hf, hhas⟩
        by_cases hfsource : f = source
        · rw [Groups.renamed, if_pos hfsource] at hf
          exact absurd hf.symm hk
        · rw [Groups.renamed, if_neg hfsource] at hf
          subst hf
          rwa [if_neg hfsource]

theorem rekey_file_spec (hs : s.Valid) (hne : source ≠ target) :
    Joined s (s.rekey_file source target) source target := by
  have hgets := get_eq hs.sorted source
  have hages := hold_age_eq hs.sorted source
  have hfound := binary_search_spec hs.sorted source
  unfold rekey_file
  generalize binary_search s.files source = found at hfound ⊢
  cases hfound with
  | absent i hlookup _ =>
    rw [entry, hlookup] at hgets hages
    exact .absent hs hgets hages
  | found i e hentry hlookup _ herase =>
    rw [entry, hlookup] at hgets hages
    have hremoved : Sets s { s with files := eraseEntry source s.files } source 0 [] :=
      ⟨hs.sorted.eraseEntry _, rfl, fun k => SortedMap.lookupEntry_eraseEntry source k s.files⟩
    have hsorted := hremoved.sorted
    simp only [hentry, herase]
    rw [show e.2 = s.get source from hgets.symm, show e.1 = s.hold_age source from hages.symm]
    generalize { s with files := eraseEntry source s.files } = removed at hremoved hsorted ⊢
    obtain ⟨hfilled, hmerged⟩ := merged_spec hs source target
    unfold join_entry
    dsimp only
    rw [attempts_with_eq, hremoved.hold_age hs.sorted, hremoved.get hs.sorted,
      if_neg hne.symm, if_neg hne.symm]
    exact .of_sets hs hne hremoved (replace_spec hsorted target _ _) hfilled hmerged

/-- A move of a file: its entry, and its name as a holder. -/
structure Rekeyed (s s' : CopyRemovals) (source target : LocationKey) : Prop where
  valid : s'.Valid
  lost : s'.metadata_lost = s.metadata_lost
  hold_age : ∀ k, s'.hold_age k = if k = source then 0
    else if k = target then longer (s.hold_age source) (s.hold_age target) else s.hold_age k
  has : ∀ k h x, Groups.Has (s'.get k) h x ↔ ∃ f g, Groups.renamed source target f = k ∧
    Groups.renamed source target g = h ∧ Groups.Has (s.get f) g x

theorem rekey_spec (hs : s.Valid) {source target : LocationKey} (hne : source ≠ target) :
    Rekeyed s (s.rekey source target) source target := by
  have hjoined := rekey_file_spec hs hne
  unfold rekey
  rw [if_neg hne]
  dsimp only
  generalize s.rekey_file source target = moved at hjoined ⊢
  have hvalid := hjoined.valid
  have hsorted := hvalid.sorted.map
    (fun file : LocationKey × UInt64 × Groups =>
      (file.1, file.2.1, rename_holder source target file.2.2)) (fun _ => rfl)
  have hentry : ∀ k, entry { moved with files := moved.files.map (fun file =>
      (file.1, file.2.1, rename_holder source target file.2.2)) } k =
      (moved.entry k).map (fun e => (e.1, rename_holder source target e.2)) :=
    fun k => lookup_map (fun file : LocationKey × UInt64 × Groups =>
      (file.1, file.2.1, rename_holder source target file.2.2)) (fun _ => rfl) k moved.files
  have hget : ∀ k, CopyRemovals.get { moved with files := moved.files.map (fun file =>
      (file.1, file.2.1, rename_holder source target file.2.2)) } k =
      rename_holder source target (moved.get k) := by
    intro k
    rw [get_eq hsorted, get_eq hvalid.sorted, hentry]
    cases moved.entry k <;> rfl
  refine ⟨⟨hsorted, fun k e hk => ?_⟩, hjoined.lost, fun k => ?_, fun k h x => ?_⟩
  · rw [hentry] at hk
    obtain ⟨before, hbefore, rfl⟩ := map_eq_some_iff.mp hk
    obtain ⟨hlimit, hgroups, hheld⟩ := hvalid.held k before hbefore
    obtain ⟨hrenamed, hhas⟩ := rename_holder_spec hgroups hne
    refine ⟨hlimit, hrenamed, fun hempty => hheld ?_⟩
    apply Groups.WellFormed.ext hgroups .nil
    intro h x
    refine iff_of_false (fun hold => ?_) (has_nil h x)
    have hnew := (hhas (Groups.renamed source target h) x).mpr ⟨h, rfl, hold⟩
    change rename_holder source target before.2 = [] at hempty
    rw [hempty] at hnew
    exact has_nil _ x hnew
  · rw [← hjoined.hold_age k, hold_age_eq hsorted, hold_age_eq hvalid.sorted, hentry]
    cases moved.entry k <;> rfl
  · rw [hget, (rename_holder_spec (hvalid.get k) hne).2]
    constructor
    · rintro ⟨g, hg, hhas⟩
      obtain ⟨f, hf, hhas⟩ := (hjoined.has k g x).mp hhas
      exact ⟨f, g, hf, hg, hhas⟩
    · rintro ⟨f, g, hf, hg, hhas⟩
      exact ⟨g, hg, (hjoined.has k g x).mpr ⟨f, hf, hhas⟩⟩

end CopyRemovals

end ottto_service.claude_copy_removals
