-- Runs of the copy removals' calls: the store is the set of removals that the
-- calls describe, its holds end, and it reads back where its counts fit.
import Ottto.Base64
import Ottto.CopyCodec
import Ottto.Runs

namespace ottto_service.claude_copy_removals

open Words SortedVec List CopyRemovals UInt64 SortedMap
open SortedMap (lookupEntry insertEntry eraseEntry)
open claude_money_birth_store (LocationKey)

/-! ## What the calls describe -/

inductive Call where
  | store (file : LocationKey) (groups : GroupMap)
  | advance_hold (file : LocationKey)
  | clear_hold (file : LocationKey)
  | rekey (source target : LocationKey)
  | forget (file : LocationKey)
  | reload

/-- The answer of a call. -/
inductive Reply where
  | added (count : Nat)
  | held (more : Bool)
  | done

def CopyRemovals.call (s : CopyRemovals) : Call → CopyRemovals × Reply
  | .store file groups => ((s.store file groups).1, .added (s.store file groups).2)
  | .advance_hold file => ((s.advance_hold file).1, .held (s.advance_hold file).2)
  | .clear_hold file => (s.clear_hold file, .done)
  | .rekey source target => (s.rekey source target, .done)
  | .forget file => (s.forget file, .done)
  | .reload => (deserialize_lenient s.serialize, .done)

/-- The removals of every file: (file, holder, hash). -/
abbrev Removed : Type := Finset (LocationKey × LocationKey × UInt64)

/-- The (holder, hash) pairs of a decision. -/
def pairs (groups : GroupMap) : Finset (LocationKey × UInt64) :=
  (groups.entries.flatMap (fun group => group.2.keys.map (fun hash => (group.1, hash)))).toFinset

/-- A decision takes the place of its file's, a move renames the file and the
holder, and a forgotten file has none. -/
def Removed.call (removed : Removed) : Call → Removed
  | .store file groups => removed.filter (·.1 ≠ file) ∪ (pairs groups).image (fun p => (file, p))
  | .rekey source target => removed.image (fun t =>
      (Groups.renamed source target t.1, Groups.renamed source target t.2.1, t.2.2))
  | .forget file => removed.filter (·.1 ≠ file)
  | .advance_hold _ | .clear_hold _ | .reload => removed

/-- A run: the store, the removals that the calls describe, and for each file the
`advance_hold` calls that returned true since it last had no pending hold. -/
structure Watched where
  store : CopyRemovals
  removed : Removed := ∅
  since : LocationKey → Nat := fun _ => 0

def watch (w : Watched) (c : Call) : Watched where
  store := (w.store.call c).1
  removed := w.removed.call c
  since := fun file =>
    if (w.store.call c).1.pending file then
      match c with
      | .advance_hold held =>
        if held = file ∧ (w.store.advance_hold held).2 then w.since file + 1 else w.since file
      | _ => w.since file
    else 0

/-! ## One call -/

theorem mem_pairs (groups : GroupMap) (holder : LocationKey) (hash : UInt64) :
    (holder, hash) ∈ pairs groups ↔ groups.Has holder hash := by
  unfold pairs
  rw [mem_toFinset, mem_flatMap]
  constructor
  · rintro ⟨⟨h, set⟩, hmem, hpair⟩
    obtain ⟨x, hx, heq⟩ := mem_map.mp hpair
    obtain ⟨rfl, rfl⟩ := Prod.mk.inj heq
    exact ⟨set, mem_entries.mp hmem, (Hashes.mem_keys_iff set x).mp hx⟩
  · rintro ⟨set, hget, hhash⟩
    exact ⟨(holder, set), mem_entries.mpr hget,
      mem_map.mpr ⟨hash, (Hashes.mem_keys_iff set hash).mpr hhash, rfl⟩⟩

/-- The store is what the calls describe, and no file has been held longer than
its age. -/
structure Exact (w : Watched) : Prop where
  valid : w.store.Valid
  has : ∀ file holder hash, Groups.Has (w.store.get file) holder hash ↔
    (file, holder, hash) ∈ w.removed
  since : ∀ file, w.since file ≤ (w.store.hold_age file).toNat

namespace Exact

variable {w : Watched}

theorem empty (lost : Bool) : Exact ⟨{ metadata_lost := lost }, ∅, fun _ => 0⟩ := by
  refine ⟨⟨.nil, fun _ _ h => by cases h⟩, fun file holder hash => ?_,
    fun _ => Nat.zero_le _⟩
  exact iff_of_false (Groups.has_nil holder hash) (Finset.notMem_empty _)

/-- One file's groups and passes are set, and the calls describe it so. -/
theorem of_sets {s' : CopyRemovals} {file : LocationKey} {attempts : UInt64} {groups : Groups}
    {removed : Removed} (h : Exact w) (hset : w.store.Sets s' file attempts groups)
    (ha : attempts < HOLD_PASSES) (hg : groups.WellFormed)
    (hhas : ∀ holder hash, Groups.Has groups holder hash ↔ (file, holder, hash) ∈ removed)
    (hothers : ∀ k, k ≠ file → ∀ holder hash,
      (k, holder, hash) ∈ removed ↔ (k, holder, hash) ∈ w.removed) :
    s'.Valid ∧ ∀ k holder hash, Groups.Has (s'.get k) holder hash ↔ (k, holder, hash) ∈ removed := by
  refine ⟨hset.valid h.valid ha hg, fun k holder hash => ?_⟩
  rw [hset.get h.valid.sorted]
  split_ifs with hk
  · rw [hk, hhas]
  · rw [h.has, hothers k hk]

/-- The watch of the holds after a call that advances none. -/
theorem since_kept {c : Call} (hadvance : ∀ file, c ≠ .advance_hold file)
    (hsince : ∀ file, (w.store.call c).1.pending file = true →
      w.since file ≤ ((w.store.call c).1.hold_age file).toNat) (file : LocationKey) :
    (watch w c).since file ≤ ((watch w c).store.hold_age file).toNat := by
  unfold watch
  dsimp only
  split_ifs with hpending
  · cases c with
    | advance_hold held => exact absurd rfl (hadvance held)
    | _ => exact hsince file hpending
  · exact Nat.zero_le _

/-- A call that clears one hold leaves the others as they are. -/
theorem since_cleared {s' : CopyRemovals} {cleared : LocationKey} {groups : Groups} (h : Exact w)
    (hset : Sets w.store s' cleared 0 groups) (k : LocationKey) (hpending : s'.pending k = true) :
    w.since k ≤ (s'.hold_age k).toNat := by
  have hpending : 0 < s'.hold_age k := of_decide_eq_true hpending
  rw [hset.hold_age h.valid.sorted] at hpending ⊢
  split_ifs at hpending ⊢ with hk
  · exact absurd hpending (lt_irrefl _)
  · exact h.since k

theorem store (h : Exact w) (file : LocationKey) (groups : GroupMap) :
    Exact (watch w (.store file groups)) := by
  have hset := store_spec h.valid file groups
  obtain ⟨hwell, hstored⟩ := stored_spec groups
  have hafter := @of_sets _ _ _ _ _ (w.removed.call (.store file groups)) h hset
    (h.valid.hold_age file) hwell
    (by
      intro holder hash
      rw [hstored, ← mem_pairs]
      simp [Removed.call])
    (by
      intro k hk holder hash
      simp [Removed.call, hk, hk.symm])
  refine ⟨hafter.1, hafter.2, since_kept (fun _ hne => by cases hne) (fun k _ => ?_)⟩
  change _ ≤ ((w.store.store file groups).1.hold_age k).toNat
  rw [hset.hold_age h.valid.sorted]
  split_ifs with hk
  · exact hk ▸ h.since k
  · exact h.since k

theorem forget (h : Exact w) (file : LocationKey) : Exact (watch w (.forget file)) := by
  have hset := forget_spec h.valid.sorted file
  have hafter := @of_sets _ _ _ _ _ (w.removed.call (.forget file)) h hset (by decide) .nil
    (by
      intro holder hash
      exact iff_of_false (Groups.has_nil holder hash) (by simp [Removed.call]))
    (by
      intro k hk holder hash
      simp [Removed.call, hk])
  exact ⟨hafter.1, hafter.2, since_kept (fun _ hne => by cases hne) (since_cleared h hset)⟩

theorem clear_hold (h : Exact w) (file : LocationKey) :
    Exact (watch w (.clear_hold file)) := by
  have hset := clear_hold_spec h.valid.sorted file
  have hafter := @of_sets _ _ _ _ _ (w.removed.call (.clear_hold file)) h hset (by decide)
    (h.valid.get file) (h.has file) (fun _ _ _ _ => .rfl)
  exact ⟨hafter.1, hafter.2, since_kept (fun _ hne => by cases hne) (since_cleared h hset)⟩

theorem advance_hold (h : Exact w) (file : LocationKey) :
    Exact (watch w (.advance_hold file)) := by
  have hlimit := h.valid.hold_age file
  rcases advance_hold_spec h.valid file with ⟨hless, hheld, hset⟩ | ⟨-, hended, hset⟩
  · have hafter := @of_sets _ _ _ _ _ (w.removed.call (.advance_hold file)) h hset hless
      (h.valid.get file) (h.has file) (fun _ _ _ _ => .rfl)
    refine ⟨hafter.1, hafter.2, fun k => ?_⟩
    unfold watch
    dsimp only
    split_ifs with hpending hthis
    · -- the held file is one pass older
      change _ ≤ ((w.store.advance_hold file).1.hold_age k).toNat
      rw [hset.hold_age h.valid.sorted, if_pos hthis.1.symm]
      have hage := h.since k
      rw [← hthis.1] at hage ⊢
      have hthree : HOLD_PASSES.toNat = 3 := rfl
      rw [lt_iff_toNat_lt, hthree] at hlimit
      rw [UInt64.toNat_add, toNat_one]
      omega
    · change _ ≤ ((w.store.advance_hold file).1.hold_age k).toNat
      rw [hset.hold_age h.valid.sorted, if_neg (fun hk => hthis ⟨hk.symm, hheld⟩)]
      exact h.since k
    · exact Nat.zero_le _
  · have hafter := @of_sets _ _ _ _ _ (w.removed.call (.advance_hold file)) h hset (by decide)
      (h.valid.get file) (h.has file) (fun _ _ _ _ => .rfl)
    refine ⟨hafter.1, hafter.2, fun k => ?_⟩
    unfold watch
    dsimp only
    have hended' : ¬(file = k ∧ (w.store.advance_hold file).2 = true) := by
      rw [hended]
      exact fun hthis => Bool.false_ne_true hthis.2
    split_ifs with hpending
    · exact since_cleared h hset k hpending
    · exact Nat.zero_le _

theorem rekey (h : Exact w) (source target : LocationKey) :
    Exact (watch w (.rekey source target)) := by
  by_cases hne : source = target
  · -- a move to itself renames nothing
    have hsame : w.store.rekey source target = w.store := by
      unfold CopyRemovals.rekey
      rw [if_pos hne]
    have hrenamed : ∀ k, Groups.renamed source target k = k := by
      intro k
      unfold Groups.renamed
      split_ifs with hk
      · rw [hk, hne]
      · rfl
    refine ⟨?_, fun k holder hash => ?_, since_kept (fun _ heq => by cases heq) (fun k _ => ?_)⟩
    · change (w.store.rekey source target).Valid
      rw [hsame]
      exact h.valid
    · change Groups.Has ((w.store.rekey source target).get k) holder hash ↔ _
      rw [hsame, h.has]
      simp [watch, Removed.call, hrenamed]
    · change _ ≤ ((w.store.rekey source target).hold_age k).toNat
      rw [hsame]
      exact h.since k
  · have hmoved := rekey_spec h.valid hne
    refine ⟨hmoved.valid, fun k holder hash => ?_,
      since_kept (fun _ heq => by cases heq) (fun k hpending => ?_)⟩
    · change Groups.Has ((w.store.rekey source target).get k) holder hash ↔ _
      rw [hmoved.has]
      simp only [watch, Removed.call, Finset.mem_image, Prod.mk.injEq, Prod.exists]
      constructor
      · rintro ⟨f, g, hf, hg, hhas⟩
        exact ⟨f, g, hash, (h.has f g hash).mp hhas, hf, hg, rfl⟩
      · rintro ⟨f, g, x, hmem, hf, hg, rfl⟩
        exact ⟨f, g, hf, hg, (h.has f g x).mpr hmem⟩
    · change _ ≤ ((w.store.rekey source target).hold_age k).toNat
      have hpending : 0 < (w.store.rekey source target).hold_age k := of_decide_eq_true hpending
      have hage := h.since k
      rw [hmoved.hold_age] at hpending ⊢
      split_ifs at hpending ⊢ with hsource htarget
      · exact absurd hpending (lt_irrefl _)
      · rw [htarget] at hage ⊢
        unfold CopyRemovals.longer
        split_ifs with hless
        · exact hage
        · exact hage.trans (le_iff_toNat_le.mp (not_lt.mp hless))
      · exact hage

theorem reload (h : Exact w) (hfits : w.store.Fits) : Exact (watch w .reload) := by
  have hsame : deserialize_lenient w.store.serialize = w.store := by
    unfold deserialize_lenient
    rw [(deserialize_serialize h.valid).mpr hfits]
    rfl
  refine ⟨?_, fun k holder hash => ?_, since_kept (fun _ heq => by cases heq) (fun k _ => ?_)⟩
  · change (deserialize_lenient w.store.serialize).Valid
    rw [hsame]
    exact h.valid
  · change Groups.Has ((deserialize_lenient
      w.store.serialize).get k) holder hash ↔ _
    rw [hsame]
    exact h.has k holder hash
  · change _ ≤ ((deserialize_lenient
      w.store.serialize).hold_age k).toNat
    rw [hsame]
    exact h.since k

theorem call (h : Exact w) (c : Call) (hfits : c = .reload → w.store.Fits) :
    Exact (watch w c) := by
  cases c with
  | store file groups => exact h.store file groups
  | advance_hold file => exact h.advance_hold file
  | clear_hold file => exact h.clear_hold file
  | rekey source target => exact h.rekey source target
  | forget file => exact h.forget file
  | reload => exact h.reload (hfits rfl)

end Exact

/-! ## Runs -/

/-- The run before its first call. -/
def start (lost : Bool) : Watched := { store := { metadata_lost := lost } }

theorem exact_run (lost : Bool) {calls : List Call}
    (hfits : ∀ before after, calls = before ++ .reload :: after →
      (run watch (start lost) before).store.Fits) :
    Exact (run watch (start lost) calls) := by
  induction calls using List.reverseRecOn with
  | nil => exact .empty lost
  | append_singleton calls c ih =>
    rw [Run.snoc]
    have hbefore := ih (fun before after heq => hfits before (after ++ [c]) (by rw [heq]; simp))
    refine hbefore.call c (fun hc => hfits calls [] ?_)
    rw [hc]

/-! ## The count of a decision -/

/-- The (holder, hash) pairs of a slice. -/
def Groups.pairs (groups : Groups) : List (LocationKey × UInt64) :=
  groups.flatMap (fun group => group.2.map (fun hash => (group.1, hash)))

namespace Groups

variable {groups : Groups}

theorem mem_pairs (hs : Sorted groups) (holder : LocationKey) (hash : UInt64) :
    (holder, hash) ∈ groups.pairs ↔ Has groups holder hash := by
  rw [has_iff_mem hs]
  unfold pairs
  rw [mem_flatMap]
  constructor
  · rintro ⟨group, hgroup, hpair⟩
    obtain ⟨x, hx, heq⟩ := mem_map.mp hpair
    cases heq
    exact ⟨group, hgroup, rfl, hx⟩
  · rintro ⟨group, hgroup, rfl, hx⟩
    exact ⟨group, hgroup, mem_map.mpr ⟨hash, hx, rfl⟩⟩

theorem WellFormed.pairs_nodup (h : groups.WellFormed) : groups.pairs.Nodup := by
  unfold pairs
  rw [nodup_flatMap]
  constructor
  · intro group hgroup
    apply List.Nodup.map (fun a b hab => (Prod.mk.inj hab).2)
    exact (h.hashes group hgroup).2.imp ne_of_lt
  · refine List.Pairwise.imp ?_ h.sorted
    intro a b hab p hpa hpb
    obtain ⟨x, -, rfl⟩ := mem_map.mp hpa
    obtain ⟨y, -, heq⟩ := mem_map.mp hpb
    exact (ne_of_lt hab) (Prod.mk.inj heq).1.symm

theorem fresh_eq {old : Groups} (hs : Sorted old) {p : LocationKey × UInt64 → Bool}
    (hp : ∀ holder hash, p (holder, hash) = true ↔ ¬Has old holder hash)
    (group : LocationKey × List UInt64) :
    CopyRemovals.fresh old group = (group.2.filter (fun hash => p (group.1, hash))).length := by
  have hfound := binary_search_spec hs group.1
  refine congrArg List.length (filter_congr (fun hash _ => ?_))
  rw [Bool.eq_iff_iff, hp]
  generalize binary_search old group.1 = found at hfound ⊢
  cases hfound with
  | found i hashes hentry hlookup _ _ =>
    have hhas : Has old group.1 hash ↔ hash ∈ hashes := by
      unfold Has
      rw [hlookup]
      simp
    dsimp only
    rw [hhas, hentry, Bool.not_eq_true', ← Bool.not_eq_true, contains_iff_mem]
  | absent i hlookup _ =>
    have hnone : ¬Has old group.1 hash := by
      rintro ⟨_, hfound, -⟩
      cases hlookup.symm.trans hfound
    simp [hnone]

/-- The fresh hashes of a slice are its pairs that the old groups do not have. -/
theorem sum_fresh {old : Groups} (hs : Sorted old) (h : groups.WellFormed)
    {p : LocationKey × UInt64 → Bool}
    (hp : ∀ holder hash, p (holder, hash) = true ↔ ¬Has old holder hash) :
    (groups.map (CopyRemovals.fresh old)).sum = (groups.pairs.toFinset.filter (p · = true)).card := by
  have hcard : (groups.pairs.toFinset.filter (p · = true)).card = (groups.pairs.filter p).length := by
    rw [← toFinset_filter]
    exact toFinset_card_of_nodup (h.pairs_nodup.filter p)
  rw [hcard, pairs, filter_flatMap, length_flatMap]
  refine congrArg List.sum (map_congr_left (fun group _ => ?_))
  rw [fresh_eq hs hp, filter_map, length_map]
  rfl

end Groups

/-- The value that `store` returns. -/
theorem Exact.added {w : Watched} (h : Exact w) (file : LocationKey) (groups : GroupMap) :
    (w.store.store file groups).2 =
      ((pairs groups).filter (fun p => (file, p) ∉ w.removed)).card := by
  obtain ⟨hwell, hstored⟩ := stored_spec groups
  have hpairs : pairs groups = (CopyRemovals.stored groups).pairs.toFinset := by
    ext ⟨holder, hash⟩
    rw [mem_pairs, mem_toFinset, Groups.mem_pairs hwell.sorted, hstored]
  have hnew : ∀ holder hash, decide ((file, holder, hash) ∉ w.removed) = true ↔
      ¬Groups.Has (w.store.get file) holder hash := by
    intro holder hash
    rw [decide_eq_true_iff, h.has]
  change (if w.store.get file = CopyRemovals.stored groups then (w.store, 0)
    else (_, ((CopyRemovals.stored groups).map (CopyRemovals.fresh (w.store.get file))).sum)).2 = _
  by_cases hsame : w.store.get file = CopyRemovals.stored groups
  · -- the file has every pair of the decision
    rw [if_pos hsame]
    symm
    rw [Finset.card_eq_zero, Finset.filter_eq_empty_iff]
    rintro ⟨holder, hash⟩ hpair hnot
    rw [mem_pairs, ← hstored, ← hsame, h.has] at hpair
    exact hnot hpair
  · rw [if_neg hsame]
    rw [Groups.sum_fresh (p := fun p => decide ((file, p) ∉ w.removed)) (h.valid.get file).sorted hwell
      hnew, hpairs]
    simp only [decide_eq_true_eq]

/-! ## What a run keeps -/

/-- The groups of each file are those that the calls describe, each hold ends at
its third pass, and each call touches what it names. -/
structure Faithful (w : Watched) : Prop where
  get : ∀ file, Groups.WellFormed (w.store.get file) ∧
    ∀ holder hash, Groups.Has (w.store.get file) holder hash ↔ (file, holder, hash) ∈ w.removed
  held : ∀ file, w.since file ≤ HOLD_PASSES.toNat - 1 ∧
    (w.since file = HOLD_PASSES.toNat - 1 → (w.store.advance_hold file).2 = false)
  ended : ∀ file, (w.store.advance_hold file).2 = false →
    (w.store.advance_hold file).1.pending file = false
  groups_kept : ∀ file k, (w.store.advance_hold file).1.get k = w.store.get k ∧
    (w.store.clear_hold file).get k = w.store.get k
  others : ∀ file groups k, k ≠ file → (w.store.store file groups).1.get k = w.store.get k ∧
    (w.store.forget file).get k = w.store.get k
  moved : ∀ source target, source ≠ target → ∀ k, k ≠ source → k ≠ target → ∀ holder hash,
    Groups.Has ((w.store.rekey source target).get k) holder hash ↔
      ∃ h, Groups.renamed source target h = holder ∧ Groups.Has (w.store.get k) h hash
  added : ∀ file groups, (w.store.store file groups).2 =
    ((pairs groups).filter (fun p => (file, p) ∉ w.removed)).card

theorem Exact.faithful {w : Watched} (h : Exact w) : Faithful w := by
  have hthree : HOLD_PASSES.toNat = 3 := rfl
  refine ⟨fun file => ⟨h.valid.get file, h.has file⟩, fun file => ?_, fun file hended => ?_,
    fun file k => ?_, fun file groups k hk => ?_, fun source target hne k hsource htarget holder hash => ?_,
    h.added⟩
  · have hage := h.since file
    have hlimit := h.valid.hold_age file
    rw [lt_iff_toNat_lt, hthree] at hlimit
    refine ⟨by omega, fun hlast => ?_⟩
    rcases advance_hold_spec h.valid file with ⟨hless, -, -⟩ | ⟨-, hended, -⟩
    · exfalso
      rw [lt_iff_toNat_lt, UInt64.toNat_add, toNat_one, hthree] at hless
      omega
    · exact hended
  · rcases advance_hold_spec h.valid file with ⟨-, hheld, -⟩ | ⟨-, -, hset⟩
    · rw [hheld] at hended
      cases hended
    · unfold CopyRemovals.pending
      rw [hset.hold_age h.valid.sorted, if_pos rfl]
      rfl
  · have hclear := (clear_hold_spec h.valid.sorted file).get h.valid.sorted k
    have hadvance : (w.store.advance_hold file).1.get k =
        if k = file then w.store.get file else w.store.get k := by
      rcases advance_hold_spec h.valid file with ⟨-, -, hset⟩ | ⟨-, -, hset⟩
      · exact hset.get h.valid.sorted k
      · exact hset.get h.valid.sorted k
    rw [hadvance, hclear]
    by_cases hk : k = file
    · rw [if_pos hk, hk]
      exact ⟨rfl, rfl⟩
    · rw [if_neg hk]
      exact ⟨rfl, rfl⟩
  · have hstore := (store_spec h.valid file groups).get h.valid.sorted k
    have hforget := (forget_spec h.valid.sorted file).get h.valid.sorted k
    rw [if_neg hk] at hstore hforget
    exact ⟨hstore, hforget⟩
  · rw [(rekey_spec h.valid hne).has]
    constructor
    · rintro ⟨f, g, hf, hg, hhas⟩
      have hfk : f = k := by
        unfold Groups.renamed at hf
        split_ifs at hf
        · exact absurd hf.symm htarget
        · exact hf
      rw [hfk] at hhas
      exact ⟨g, hg, hhas⟩
    · rintro ⟨g, hg, hhas⟩
      exact ⟨k, g, if_neg hsource, hg, hhas⟩

/-- In a run, every reload gives the same store and every state is faithful,
exactly where each reloaded store has counts that fit. -/
theorem the_store_is_exact_where_its_counts_fit (lost : Bool) (calls : List Call) :
    (∀ before after, calls = before ++ after →
      Faithful (run watch (start lost) before) ∧
      (after.head? = some .reload →
        CopyRemovals.deserialize
          ((run watch (start lost) before).store.serialize) =
            some (run watch (start lost) before).store)) ↔
    (∀ before after, calls = before ++ .reload :: after →
      (run watch (start lost) before).store.Fits) := by
  constructor
  · intro h before after heq
    have hsame := (h before (.reload :: after) heq).2 rfl
    unfold CopyRemovals.deserialize CopyRemovals.serialize at hsame
    rw [String.toList_ofList, UrlSafe.decode_encode, Option.bind_eq_bind, Option.bind_some] at hsame
    exact decode_fits hsame
  · intro hfits before after heq
    have hexact : Exact (run watch (start lost) before) := by
      refine exact_run lost (fun first rest hbefore => hfits first (rest ++ after) ?_)
      rw [heq, hbefore, append_assoc, cons_append]
    refine ⟨hexact.faithful, fun hreload => ?_⟩
    rw [deserialize_serialize hexact.valid]
    obtain ⟨rest, rfl⟩ := List.head?_eq_some_iff.mp hreload
    exact hfits before rest heq

/-! ## A decision too large to read back -/

theorem words_sorted {n : Nat} (h : n ≤ 2 ^ 64) :
    ((List.range n).map (fun i => (UInt64.ofNat i, ()))).Pairwise (fun a b => a.1 < b.1) := by
  rw [pairwise_map]
  refine List.Pairwise.imp_of_mem ?_ pairwise_lt_range
  intro a b ha hb hab
  rw [mem_range] at ha hb
  have hsize : UInt64.size = 2 ^ 64 := rfl
  rw [lt_iff_toNat_lt, toNat_ofNat_of_lt' (by omega), toNat_ofNat_of_lt' (by omega)]
  exact hab

/-- The first 2^32 words. -/
def many_hashes : Hashes := ⟨_, words_sorted (n := 2 ^ 32) (by decide)⟩

def first_location : LocationKey := ⟨List.replicate 16 0, rfl⟩

/-- One decision: 2^32 hashes on one holder's proof. -/
def large_decision : GroupMap := ⟨[(first_location, many_hashes)], pairwise_singleton _ _⟩

theorem many_hashes_length : many_hashes.keys.length = 2 ^ 32 := by
  unfold many_hashes SortedMap.keys
  rw [length_map, length_map, length_range]

theorem large_decision_filled : large_decision.Filled := by
  intro holder set hget
  have hmem := mem_entries.mpr hget
  cases (mem_singleton.mp hmem)
  have hne : many_hashes.keys ≠ [] := by
    apply ne_nil_of_length_pos
    rw [many_hashes_length]
    decide
  obtain ⟨hash, hhash⟩ := exists_mem_of_ne_nil _ hne
  exact ⟨hash, (Hashes.mem_keys_iff _ _).mp hhash⟩

theorem large_decision_stored : CopyRemovals.stored large_decision = large_decision.groups := by
  obtain ⟨hwell, hstored⟩ := stored_spec large_decision
  apply hwell.ext large_decision_filled.groups
  intro holder hash
  rw [hstored, GroupMap.has_groups]

theorem large_decision_groups : large_decision.groups = [(first_location, many_hashes.keys)] := rfl

theorem CopyRemovals.made_cons (attempts : UInt64) (group : LocationKey × List UInt64)
    (groups : Groups) : made attempts (group :: groups) = some (attempts, group :: groups) :=
  if_neg (fun hnone => cons_ne_nil group groups hnone.1)

theorem CopyRemovals.entry_mem {s : CopyRemovals} (hs : Sorted s.files) {file : LocationKey}
    {e : UInt64 × Groups} (h : s.entry file = some e) : (file, e) ∈ s.files :=
  hs.lookup_iff.mp h

theorem CopyRemovals.Fits.one_group {s : CopyRemovals} (h : s.Fits) {file holder : LocationKey}
    {attempts : UInt64} {hashes : List UInt64} (hfile : (file, attempts, [(holder, hashes)]) ∈ s.files) :
    hashes.length < 2 ^ 32 :=
  h.hashes _ hfile _ (mem_singleton_self _)

theorem store_of_one_decision (lost : Bool) (file : LocationKey) (groups : GroupMap) :
    (run watch (start lost) [.store file groups]).store =
      ((start lost).store.store file groups).1 := rfl

/-- The count of hashes is written in 32 bits, so it wraps to zero. -/
theorem a_large_decision_does_not_read_back :
    CopyRemovals.deserialize
      ((run watch (start false)
        [.store first_location large_decision]).store.serialize) ≠
      some (run watch (start false)
        [.store first_location large_decision]).store := by
  have hstart : (start false).store.Valid := (Exact.empty false).valid
  have hset := store_spec hstart first_location large_decision
  have hvalid := hset.valid hstart (hstart.hold_age first_location)
    (stored_spec large_decision).1
  rw [store_of_one_decision, ne_eq, deserialize_serialize hvalid]
  intro hfits
  have hentry := hset.entry first_location
  rw [if_pos rfl, large_decision_stored, large_decision_groups, made_cons] at hentry
  have hlength := hfits.one_group (entry_mem hset.sorted hentry)
  rw [many_hashes_length] at hlength
  exact Nat.lt_irrefl _ hlength

end ottto_service.claude_copy_removals
