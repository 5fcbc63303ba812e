-- What the groups of a file hold, and what each change of a file's entry leaves:
-- the groups, the passes held, and the entries of the other files.
import Ottto.CopyRemovals

namespace ottto_service.claude_copy_removals

open Words SortedVec List GroupMap Hashes SortedMap
open SortedMap (lookupEntry insertEntry eraseEntry)
open claude_money_birth_store (LocationKey)

/-! ## Groups -/

namespace Hashes

theorem contains_insert (set : Hashes) (hash x : UInt64) :
    (SortedMap.insert set hash ()).contains x = true ↔ x = hash ∨ set.contains x = true := by
  unfold SortedMap.contains
  rw [get?_insert]
  by_cases hx : x = hash <;> simp [hx]

theorem contains_extend (set : Hashes) (hashes : List UInt64) (x : UInt64) :
    (extend set hashes).contains x = true ↔ set.contains x = true ∨ x ∈ hashes := by
  unfold extend
  induction hashes generalizing set with
  | nil => simp
  | cons hash rest ih =>
    rw [foldl_cons, ih, contains_insert, mem_cons]
    tauto

theorem mem_keys_iff (set : Hashes) (x : UInt64) : x ∈ set.keys ↔ set.contains x = true :=
  SortedMap.mem_keys_iff

theorem keys_sorted (set : Hashes) : set.keys.Pairwise (· < ·) :=
  pairwise_map.mpr set.sorted

end Hashes

namespace Groups

/-- The groups hold the hash under the holder. -/
def Has (groups : Groups) (holder : LocationKey) (hash : UInt64) : Prop :=
  ∃ hashes, lookupEntry holder groups = some hashes ∧ hash ∈ hashes

/-- The groups that a file stores: by holder, none empty, each sorted. -/
structure WellFormed (groups : Groups) : Prop where
  sorted : Sorted groups
  hashes : ∀ group ∈ groups, group.2 ≠ [] ∧ group.2.Pairwise (· < ·)

theorem WellFormed.nil : WellFormed [] := ⟨.nil, by simp⟩

theorem has_nil (holder : LocationKey) (hash : UInt64) : ¬Has [] holder hash := by
  rintro ⟨_, h, -⟩
  cases h

/-- Well-formed groups with the same hashes are the same. -/
theorem WellFormed.ext {a b : Groups} (ha : WellFormed a) (hb : WellFormed b)
    (h : ∀ holder hash, Has a holder hash ↔ Has b holder hash) : a = b := by
  apply eq_of_lookupEntry_eq ha.sorted hb.sorted
  intro holder
  have hfrom : ∀ {c d : Groups}, WellFormed c → WellFormed d →
      (∀ hash, Has c holder hash ↔ Has d holder hash) → ∀ hashes,
      lookupEntry holder c = some hashes → lookupEntry holder d = some hashes := by
    intro c d hc hd hsame hashes hlookup
    obtain ⟨hne, hsorted⟩ := hc.hashes _ (hc.sorted.lookup_iff.mp hlookup)
    obtain ⟨hash, rest, hcons⟩ := exists_cons_of_ne_nil hne
    have hhash : hash ∈ hashes := by
      change hashes = hash :: rest at hcons
      rw [hcons]
      exact mem_cons_self
    obtain ⟨other, hother, -⟩ := (hsame hash).mp ⟨hashes, hlookup, hhash⟩
    rw [hother]
    refine congrArg some ?_
    obtain ⟨-, hsorted'⟩ := hd.hashes _ (hd.sorted.lookup_iff.mp hother)
    refine List.Perm.eq_of_pairwise' hsorted' hsorted ?_
    refine (perm_ext_iff_of_nodup (hsorted'.imp ne_of_lt) (hsorted.imp ne_of_lt)).mpr ?_
    intro x
    constructor
    · intro hx
      obtain ⟨_, hfound, hmem⟩ := (hsame x).mpr ⟨other, hother, hx⟩
      rwa [Option.some.inj (hlookup.symm.trans hfound)]
    · intro hx
      obtain ⟨_, hfound, hmem⟩ := (hsame x).mp ⟨hashes, hlookup, hx⟩
      rwa [Option.some.inj (hother.symm.trans hfound)]
  cases hlookup : lookupEntry holder a with
  | some hashes => exact (hfrom ha hb (h holder) hashes hlookup).symm
  | none =>
    cases hlookup' : lookupEntry holder b with
    | none => rfl
    | some hashes => cases hlookup.symm.trans (hfrom hb ha (fun x => (h holder x).symm) hashes hlookup')

end Groups

namespace GroupMap

def Has (map : GroupMap) (holder : LocationKey) (hash : UInt64) : Prop :=
  ∃ set, map.get? holder = some set ∧ set.contains hash = true

/-- No holder has an empty set. -/
def Filled (map : GroupMap) : Prop :=
  ∀ holder set, map.get? holder = some set → ∃ hash, set.contains hash = true

variable {map : GroupMap} {holder h : LocationKey} {hashes : List UInt64} {x : UInt64}

theorem has_extend : (extend map holder hashes).Has h x ↔ map.Has h x ∨ (h = holder ∧ x ∈ hashes) := by
  unfold Has extend
  simp only [get?_insert]
  by_cases hholder : h = holder
  · subst hholder
    rw [if_pos rfl]
    simp only [Option.some.injEq, exists_eq_left', contains_extend, true_and]
    refine or_congr_left ?_
    cases map.get? h with
    | none => simp [SortedMap.contains]
    | some set => simp
  · simp [hholder]

theorem Filled.extend (hm : map.Filled) (hne : hashes ≠ []) : (extend map holder hashes).Filled := by
  obtain ⟨hash, rest, rfl⟩ := exists_cons_of_ne_nil hne
  exact forall_insert
    ⟨hash, (contains_extend _ _ _).mpr (.inr mem_cons_self)⟩ hm

theorem has_erase {source : LocationKey} :
    Has (SortedMap.erase map source) h x ↔ h ≠ source ∧ map.Has h x := by
  unfold Has
  rw [get?_erase]
  by_cases hsource : h = source <;> simp [hsource]

theorem Filled.erase (hm : map.Filled) (source : LocationKey) :
    Filled (SortedMap.erase map source) := by
  exact fun h set hget => hm h set (get?_of_erase hget)

theorem lookup_groups (map : GroupMap) (holder : LocationKey) :
    lookupEntry holder map.groups = (map.get? holder).map SortedMap.keys :=
  lookup_map (fun group : LocationKey × Hashes => (group.1, group.2.keys)) (fun _ => rfl) holder
    map.entries

theorem has_groups (map : GroupMap) (h : LocationKey) (x : UInt64) :
    Groups.Has map.groups h x ↔ map.Has h x := by
  unfold Groups.Has Has
  rw [lookup_groups]
  cases map.get? h with
  | none => simp
  | some set => simp [mem_keys_iff]

theorem Filled.groups (hm : map.Filled) : Groups.WellFormed map.groups := by
  have hsorted : Sorted map.entries := map.sorted
  refine ⟨hsorted.map _ (fun _ => rfl), ?_⟩
  intro group hgroup
  obtain ⟨⟨holder, set⟩, hmem, rfl⟩ := mem_map.mp hgroup
  obtain ⟨hash, hhash⟩ := hm holder set (mem_entries.mp hmem)
  exact ⟨ne_nil_of_mem ((mem_keys_iff set hash).mpr hhash), keys_sorted set⟩

theorem get?_of_groups {groups : Groups} (hs : Sorted groups) (holder : LocationKey) :
    (of_groups groups).get? holder = (lookupEntry holder groups).map (Hashes.extend .empty) := by
  unfold of_groups
  have hmapped : groups.foldl (fun map group => SortedMap.insert map group.1
      (Hashes.extend .empty group.2)) (SortedMap.empty : GroupMap) =
      (groups.map (fun group => (group.1, Hashes.extend .empty group.2))).foldl
        (fun map group => SortedMap.insert map group.1 group.2) .empty := by
    rw [foldl_map]
  have hsorted : Sorted (groups.map
      (fun group : LocationKey × List UInt64 => (group.1, Hashes.extend .empty group.2))) :=
    hs.map _ (fun _ => rfl)
  rw [hmapped, get?_foldl_insert _ hsorted, lookup_map (fun group : LocationKey × List UInt64 =>
    (group.1, Hashes.extend .empty group.2)) (fun _ => rfl)]
  cases lookupEntry holder groups <;> rfl

theorem has_of_groups {groups : Groups} (hs : Sorted groups) (h : LocationKey) (x : UInt64) :
    (of_groups groups).Has h x ↔ Groups.Has groups h x := by
  unfold Has Groups.Has
  rw [get?_of_groups hs]
  cases lookupEntry h groups with
  | none => simp
  | some hashes =>
    simp only [Option.map_some, Option.some.injEq, exists_eq_left', contains_extend]
    simp [SortedMap.contains]

theorem filled_of_groups {groups : Groups} (hg : groups.WellFormed) : (of_groups groups).Filled := by
  intro holder set hget
  rw [get?_of_groups hg.sorted] at hget
  obtain ⟨hashes, hlookup, rfl⟩ := Option.map_eq_some_iff.mp hget
  obtain ⟨hash, rest, rfl⟩ :=
    exists_cons_of_ne_nil (hg.hashes _ (hg.sorted.lookup_iff.mp hlookup)).1
  exact ⟨hash, (contains_extend _ _ _).mpr (.inr mem_cons_self)⟩

/-- The groups of one slice after those of another. -/
theorem has_foldl_extend (groups : Groups) (map : GroupMap) (h : LocationKey) (x : UInt64) :
    (groups.foldl (fun map group => extend map group.1 group.2) map).Has h x ↔
      map.Has h x ∨ ∃ group ∈ groups, group.1 = h ∧ x ∈ group.2 := by
  induction groups generalizing map with
  | nil => simp
  | cons group rest ih =>
    rw [foldl_cons, ih, has_extend]
    simp only [exists_mem_cons_iff]
    constructor
    · rintro ((hmap | ⟨rfl, hx⟩) | hrest)
      · exact .inl hmap
      · exact .inr (.inl ⟨rfl, hx⟩)
      · exact .inr (.inr hrest)
    · rintro (hmap | ⟨rfl, hx⟩ | hrest)
      · exact .inl (.inl hmap)
      · exact .inl (.inr ⟨rfl, hx⟩)
      · exact .inr hrest

theorem Filled.foldl_extend {groups : Groups} (hm : map.Filled)
    (hg : ∀ group ∈ groups, group.2 ≠ []) :
    (groups.foldl (fun map group => GroupMap.extend map group.1 group.2) map).Filled := by
  induction groups generalizing map with
  | nil => exact hm
  | cons group rest ih =>
    obtain ⟨hhead, hrest⟩ := forall_mem_cons.mp hg
    exact ih (hm.extend hhead) hrest

end GroupMap

namespace Groups

theorem has_iff_mem {groups : Groups} (hs : Sorted groups) (holder : LocationKey) (hash : UInt64) :
    Has groups holder hash ↔ ∃ group ∈ groups, group.1 = holder ∧ hash ∈ group.2 := by
  constructor
  · rintro ⟨hashes, hlookup, hmem⟩
    exact ⟨(holder, hashes), hs.lookup_iff.mp hlookup, rfl, hmem⟩
  · rintro ⟨⟨_, hashes⟩, hmem, rfl, hhash⟩
    exact ⟨hashes, hs.lookup_iff.mpr hmem, hhash⟩

/-- The key that a move gives a file. -/
def renamed (source target k : LocationKey) : LocationKey := if k = source then target else k

theorem rename_holder_spec {groups : Groups} (hg : groups.WellFormed) {source target : LocationKey}
    (hne : source ≠ target) :
    WellFormed (rename_holder source target groups) ∧
      ∀ h x, Has (rename_holder source target groups) h x ↔
        ∃ k, renamed source target k = h ∧ Has groups k x := by
  have hfound := binary_search_spec hg.sorted source
  unfold rename_holder
  generalize binary_search groups source = found at hfound ⊢
  cases hfound with
  | absent i hlookup _ =>
    refine ⟨hg, fun h x => ⟨fun hhas => ⟨h, ?_, hhas⟩, ?_⟩⟩
    · -- no group is the source's
      refine if_neg (fun hsource => ?_)
      obtain ⟨_, hfound, -⟩ := hhas
      rw [hsource] at hfound
      cases hlookup.symm.trans hfound
    · rintro ⟨k, rfl, hhas⟩
      have hk : k ≠ source := by
        rintro rfl
        obtain ⟨_, hfound, -⟩ := hhas
        cases hlookup.symm.trans hfound
      rwa [renamed, if_neg hk]
  | found i hashes _ hlookup _ _ =>
    dsimp only
    have hfilled := filled_of_groups hg
    obtain ⟨set, hset⟩ : ∃ set, (of_groups groups).get? source = some set := by
      rw [get?_of_groups hg.sorted, hlookup]
      exact ⟨_, rfl⟩
    have hkeys : ∀ x, x ∈ (((of_groups groups).get? source).getD .empty).keys ↔
        Has groups source x := by
      intro x
      rw [← has_of_groups hg.sorted, mem_keys_iff, GroupMap.Has, hset]
      simp
    have hkeysNe : (((of_groups groups).get? source).getD .empty).keys ≠ [] := by
      obtain ⟨hash, hhash⟩ := hfilled source set hset
      rw [hset]
      exact ne_nil_of_mem ((mem_keys_iff set hash).mpr hhash)
    refine ⟨((hfilled.erase source).extend hkeysNe).groups, fun h x => ?_⟩
    rw [has_groups, has_extend, has_erase, has_of_groups hg.sorted,
      hkeys]
    constructor
    · rintro (⟨hsource, hhas⟩ | ⟨rfl, hhas⟩)
      · exact ⟨h, if_neg hsource, hhas⟩
      · exact ⟨source, if_pos rfl, hhas⟩
    · rintro ⟨k, rfl, hhas⟩
      by_cases hk : k = source
      · subst hk
        exact .inr ⟨if_pos rfl, hhas⟩
      · rw [renamed, if_neg hk]
        exact .inl ⟨hk, hhas⟩

end Groups

end ottto_service.claude_copy_removals
