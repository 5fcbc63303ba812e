-- Pending cache heads under the ledger's operations (snapshot_sync.rs): a file that is
-- pending stays one that the loader accepts.
import Ottto.LedgerSelect

namespace ottto_service.snapshot_sync

open snapshots List SortedMap

/-! ## One pending file -/

/-- A pending file as the loader asks for it. -/
structure PendingOk (file : String) (pending : PendingCacheHeadFile) : Prop where
  file : is_snapshot_fingerprint file = true
  source : is_snapshot_fingerprint pending.source_file_fingerprint = true
  group : is_snapshot_fingerprint pending.group_fingerprint = true
  nonempty : pending.entities ≠ .empty
  reselected : ∀ session witness, pending.reselected_heads.get? session = some witness →
    is_snapshot_fingerprint witness = true ∧ ∃ entity, pending.entities.get? entity = some session
  settled : ∀ entity ∈ pending.settled_entities, pending.entities.contains entity = true
  entities : ∀ entity session, pending.entities.get? entity = some session →
    is_snapshot_fingerprint entity = true ∧ is_snapshot_fingerprint session = true

theorem mem_values {β : Type} {m : SortedMap String β} {v : β} :
    v ∈ m.values ↔ ∃ key, m.get? key = some v := by
  unfold SortedMap.values
  rw [mem_map]
  constructor
  · rintro ⟨e, he, rfl⟩
    exact ⟨e.1, mem_entries.mp he⟩
  · rintro ⟨key, hget⟩
    exact ⟨(key, v), mem_entries.mpr hget, rfl⟩

theorem pending_is_loadable_iff {file : String} {pending : PendingCacheHeadFile} :
    pending_is_loadable file pending = true ↔ PendingOk file pending := by
  have hempty : (!pending.entities.isEmpty) = true ↔ pending.entities ≠ .empty := by
    rw [Bool.not_eq_true', ← Bool.not_eq_true]
    exact not_congr isEmpty_iff
  unfold pending_is_loadable
  simp only [Bool.and_eq_true, decide_eq_true_eq, all_eq_true, hempty, contains_eq_mem,
    mem_values]
  constructor
  · rintro ⟨⟨⟨⟨⟨⟨hfile, hsource⟩, hgroup⟩, hnonempty⟩, hreselected⟩, hsettled⟩, hentities⟩
    exact ⟨hfile, hsource, hgroup, hnonempty,
      fun session witness hget => hreselected (session, witness) (mem_entries.mpr hget),
      hsettled,
      fun entity session hget => hentities (entity, session) (mem_entries.mpr hget)⟩
  · intro h
    exact ⟨⟨⟨⟨⟨⟨h.file, h.source⟩, h.group⟩, h.nonempty⟩,
      fun e he => h.reselected e.1 e.2 (mem_entries.mp he)⟩, h.settled⟩,
      fun e he => h.entities e.1 e.2 (mem_entries.mp he)⟩

theorem insert_ne_empty {β : Type} {m : SortedMap String β} {key : String} {v : β} :
    m.insert key v ≠ .empty := by
  intro h
  have hget := get?_insert m key key v
  rw [h] at hget
  simp at hget

namespace SnapshotUploadProgress

variable {ns : String} {session_of : String → String} {now : Nat} {s : SnapshotUploadProgress}

/-! ## Recording -/

variable {fingerprint session : String}

/-- An entity joins the pending file of its group under its own session. -/
theorem recorded_ok {index_key file group : String} {pending : Option PendingCacheHeadFile}
    (hpending : ∀ old ∈ pending, PendingOk index_key old ∧
      ∀ entity found, old.entities.get? entity = some found → found = session_of entity)
    (hkey : is_snapshot_fingerprint index_key = true) (hfile : is_snapshot_fingerprint file = true)
    (hgroup : is_snapshot_fingerprint group = true)
    (hfp : is_snapshot_fingerprint fingerprint = true)
    (hsession : is_snapshot_fingerprint session = true) (hof : session = session_of fingerprint) :
    PendingOk index_key (with_entity (pending_of_group file group pending) fingerprint session) ∧
      ∀ entity found,
        (with_entity (pending_of_group file group pending) fingerprint session).entities.get? entity =
          some found → found = session_of entity := by
  generalize hbound : pending_of_group file group pending = bound
  -- The obligation of this group: a new one, or the old one as it was.
  have hcases : bound = opened file group ∨ pending = some bound := by
    rw [← hbound]
    unfold pending_of_group
    split
    · exact .inl rfl
    · split
      · exact .inl rfl
      · exact .inr rfl
  have hold : (∀ entity found, bound.entities.get? entity = some found →
      is_snapshot_fingerprint entity = true ∧ is_snapshot_fingerprint found = true ∧
        found = session_of entity) := by
    rcases hcases with rfl | rfl
    · simp [opened]
    · intro entity found hget
      obtain ⟨hok, hsessions⟩ := hpending bound rfl
      exact ⟨(hok.entities entity found hget).1, (hok.entities entity found hget).2,
        hsessions entity found hget⟩
  constructor
  · refine ⟨hkey, ?_, ?_, insert_ne_empty, ?_, ?_, ?_⟩
    · rcases hcases with rfl | rfl
      · exact hfile
      · exact (hpending bound rfl).1.source
    · rcases hcases with rfl | rfl
      · exact hgroup
      · exact (hpending bound rfl).1.group
    · intro key witness hget
      rcases hcases with rfl | rfl
      · simp [with_entity, opened] at hget
      · obtain ⟨hwitness, entity, hentity⟩ := (hpending bound rfl).1.reselected key witness hget
        refine ⟨hwitness, entity, ?_⟩
        unfold with_entity
        rw [get?_insert]
        split
        · rename_i heq
          rw [(hold entity key hentity).2.2, heq, hof]
        · exact hentity
    · intro entity hmem
      rcases hcases with rfl | rfl
      · simp [with_entity, opened] at hmem
      · have hcontains := (hpending bound rfl).1.settled entity hmem
        unfold with_entity SortedMap.contains at *
        rw [get?_insert]
        split
        · rfl
        · exact hcontains
    · exact forall_insert ⟨hfp, hsession⟩
        (fun entity found hget => ⟨(hold entity found hget).1, (hold entity found hget).2.1⟩)
  · exact forall_insert hof (fun entity found hget => (hold entity found hget).2.2)

/-- The file groups of a scan: every name in them is a fingerprint. -/
def GroupsOk (groups : Groups) : Prop :=
  ∀ file index_key group entities, groups.get? file = some (index_key, group, entities) →
    is_snapshot_fingerprint file = true ∧ is_snapshot_fingerprint index_key = true ∧
      is_snapshot_fingerprint group = true

theorem record_pending_spec {source : Option String}
    {groups : Groups} {actually_deferred changed : Bool} {t : SnapshotUploadProgress}
    (h : s.record_pending_cache_head_identity source fingerprint session groups actually_deferred =
      .ok (t, changed)) :
    t = s ∨ ∃ file index_key group entities, groups.get? file = some (index_key, group, entities) ∧
      t = { s with
        pending_cache_heads := s.pending_cache_heads.insert index_key (with_entity
          (pending_of_group file group (s.pending_cache_heads.get? index_key))
          fingerprint session) } := by
  have hinvalid : ∀ {u : SnapshotUploadProgress × Bool},
      s.invalid_binding actually_deferred = .ok u → u.1 = s := by
    intro u hu
    unfold invalid_binding at hu
    split at hu
    · cases hu
    · cases hu
      rfl
  unfold record_pending_cache_head_identity at h
  split at h
  · exact .inl (hinvalid h)
  split at h
  · exact .inl (hinvalid h)
  rename_i file _ index_key group entities hgroup
  split at h
  · exact .inl (hinvalid h)
  dsimp only at h
  split at h
  · cases h
    exact .inl rfl
  · cases h
    exact .inr ⟨file, index_key, group, entities, hgroup, rfl⟩

theorem record_pending_loadable (h : s.toDurable.Loadable ns now)
    (hbound : s.toDurable.Bound session_of) {source : Option String}
    {groups : Groups} {actually_deferred changed : Bool} {t : SnapshotUploadProgress}
    (hgroups : GroupsOk groups) (hfp : is_snapshot_fingerprint fingerprint = true)
    (hsession : is_snapshot_fingerprint session = true) (hof : session = session_of fingerprint)
    (ht : s.record_pending_cache_head_identity source fingerprint session groups
      actually_deferred = .ok (t, changed)) :
    t.toDurable.Loadable ns now ∧ t.toDurable.Bound session_of := by
  rcases record_pending_spec ht with rfl | ⟨file, index_key, group, entities, hgroup, rfl⟩
  · exact ⟨h, hbound⟩
  obtain ⟨hfile, hkey, hgrouped⟩ := hgroups file index_key group entities hgroup
  have hpending : ∀ old ∈ s.pending_cache_heads.get? index_key, PendingOk index_key old ∧
      ∀ entity found, old.entities.get? entity = some found → found = session_of entity :=
    fun old hold => ⟨pending_is_loadable_iff.mp (h.pending index_key old hold),
      hbound.sessions index_key old hold⟩
  have hrecorded := recorded_ok hpending hkey hfile hgrouped hfp hsession hof
  constructor
  · apply h.with_pending
    exact forall_insert (pending_is_loadable_iff.mpr hrecorded.1) h.pending
  · exact ⟨hbound.revisions, forall_insert hrecorded.2 hbound.sessions⟩

/-! ## Retiring -/

theorem settle_entity_spec {items : List SnapshotItem} {held : Finset String}
    {witness : Option (Option String)} {entry : ScanIndexEntry} {pending : PendingCacheHeadFile}
    {file entity session : String} (h : PendingOk file pending)
    (hentity : pending.entities.get? entity = some session) :
    PendingOk file (s.settle_entity items held witness entry pending (entity, session)) ∧
      (s.settle_entity items held witness entry pending (entity, session)).entities =
        pending.entities := by
  unfold settle_entity
  dsimp only
  split
  · exact ⟨h, rfl⟩
  split
  · exact ⟨h, rfl⟩
  rename_i item _
  refine ⟨⟨h.file, h.source, h.group, h.nonempty, ?_, ?_, h.entities⟩, rfl⟩
  · intro key found hget
    dsimp only at hget
    split at hget
    · split at hget
      · exact forall_insert
          ⟨hex_lower_is_fingerprint (Sha256.digest_length _), entity, hentity⟩ h.reselected _ _ hget
      · exact h.reselected key found hget
    · exact h.reselected key found hget
  · intro settled hmem
    dsimp only at hmem
    split at hmem
    · rcases Finset.mem_insert.mp hmem with rfl | hold
      · simp only [SortedMap.contains, hentity, Option.isSome_some]
      · exact h.settled settled hold
    · exact h.settled settled hmem

theorem settle_all_spec {items : List SnapshotItem} {held : Finset String}
    {witness : Option (Option String)} {entry : ScanIndexEntry} {pending : PendingCacheHeadFile}
    {file : String} {entries : List (String × String)} (h : PendingOk file pending)
    (hentries : ∀ e ∈ entries, pending.entities.get? e.1 = some e.2) :
    PendingOk file (entries.foldl (s.settle_entity items held witness entry) pending) ∧
      (entries.foldl (s.settle_entity items held witness entry) pending).entities =
        pending.entities := by
  induction entries generalizing pending with
  | nil => exact ⟨h, rfl⟩
  | cons e rest ih =>
    obtain ⟨hok, hentities⟩ := @settle_entity_spec s items held witness entry pending file e.1 e.2 h
      (hentries e mem_cons_self)
    rw [foldl_cons]
    have hrest := ih hok (fun e' hmem => by
      rw [hentities]
      exact hentries e' (mem_cons_of_mem _ hmem))
    exact ⟨hrest.1, hrest.2.trans hentities⟩

theorem retire_pending_spec {index : ScanIndex} {items : List SnapshotItem} {held : Finset String}
    {census_complete : Bool} {witnesses : SortedMap String (Option String)} {file : String}
    {pending left : PendingCacheHeadFile} (h : PendingOk file pending)
    (hleft : s.retire_pending index items held census_complete witnesses file pending = some left) :
    PendingOk file left ∧ left.entities = pending.entities := by
  unfold retire_pending at hleft
  split at hleft
  · cases hleft
    exact ⟨h, rfl⟩
  split at hleft
  · split at hleft
    · cases hleft
    · cases hleft
      exact ⟨h, rfl⟩
  split at hleft
  · cases hleft
    exact ⟨h, rfl⟩
  split at hleft
  · cases hleft
    exact ⟨h, rfl⟩
  dsimp only at hleft
  split at hleft
  · cases hleft
  · cases hleft
    exact settle_all_spec h (fun e he => mem_entries.mp he)

theorem retire_pending_cache_heads_loadable (h : s.toDurable.Loadable ns now)
    (hbound : s.toDurable.Bound session_of) {index : ScanIndex} {items : List SnapshotItem}
    {held : Finset String} {census_complete : Bool}
    {witnesses : SortedMap String (Option String)} :
    (s.retire_pending_cache_heads index items held census_complete witnesses).toDurable.Loadable
        ns now ∧
      (s.retire_pending_cache_heads index items held census_complete witnesses).toDurable.Bound
        session_of := by
  have hspec : ∀ file left,
      (s.pending_cache_heads.filterMap
        (s.retire_pending index items held census_complete witnesses)).get? file = some left →
      ∃ pending, s.pending_cache_heads.get? file = some pending ∧
        PendingOk file left ∧ left.entities = pending.entities := by
    intro file left hget
    rw [get?_filterMap] at hget
    obtain ⟨pending, hpending, hleft⟩ := Option.bind_eq_some_iff.mp hget
    exact ⟨pending, hpending,
      retire_pending_spec (pending_is_loadable_iff.mp (h.pending file pending hpending)) hleft⟩
  constructor
  · apply h.with_pending
    intro file left hget
    obtain ⟨-, -, hok, -⟩ := hspec file left hget
    exact pending_is_loadable_iff.mpr hok
  · refine ⟨hbound.revisions, ?_⟩
    intro file left hget entity session hentity
    obtain ⟨pending, hpending, -, hsame⟩ := hspec file left hget
    rw [hsame] at hentity
    exact hbound.sessions file pending hpending entity session hentity

end SnapshotUploadProgress

end ottto_service.snapshot_sync
