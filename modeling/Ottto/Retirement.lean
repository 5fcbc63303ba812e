-- The law of retired entries: an entry that leaves the index leaves its
-- evidence behind, so that no owner changes its counting version, unless a
-- tombstone was evicted to make room.
import Ottto.Tombstones

open Words

namespace ottto_service.codex_counting_version

open scan_index identity List SortedMap AckEvidence

theorem AckEvidence.combine_legacy {a b : AckEvidence} :
    a.combine b = .LegacyAcked ↔ a = .LegacyAcked ∨ b = .LegacyAcked := by
  cases a <;> cases b <;> simp [AckEvidence.combine]

/-- The decision reads of the evidence only whether it is Legacy. -/
theorem decide_of_legacy_iff {time : accumulator.Rfc3339} {a b : AckEvidence}
    (h : a = .LegacyAcked ↔ b = .LegacyAcked) (header : serde_json.Value) (cutover : Int64) :
    decide time header a cutover = decide time header b cutover := by
  rw [decide_eq, decide_eq time header b]
  by_cases ha : a = .LegacyAcked
  · rw [if_pos ha, if_pos (h.mp ha)]
  · rw [if_neg ha, if_neg (fun hb => ha (h.mpr hb))]

/-! ## Legacy evidence through a fold -/

/-- The owner is one of the map, and stands at Legacy. -/
def Legacy (m : SortedMap String AckEvidence) (owner : String) : Prop :=
  m.get? owner = some .LegacyAcked

theorem get?_modify (m : SortedMap String AckEvidence) (owner o : String)
    (f : AckEvidence → AckEvidence) :
    (modify m owner f).get? o = if o = owner then (m.get? o).map f else m.get? o := by
  unfold modify
  by_cases ho : o = owner
  · subst ho
    rcases h : m.get? o with _ | previous
    · simp [h]
    · simp
  · rcases h : m.get? owner with _ | previous
    · simp [ho]
    · simp [ho, get?_insert]

/-- A step that keeps the owner, and makes it Legacy when the input does. -/
def Marks {ι : Type} (step : SortedMap String AckEvidence → ι → SortedMap String AckEvidence)
    (owner : String) (P : ι → Prop) : Prop :=
  ∀ m i, (m.get? owner).isSome = true →
    ((step m i).get? owner).isSome = true ∧ (Legacy (step m i) owner ↔ Legacy m owner ∨ P i)

theorem Marks.foldl {ι : Type}
    {step : SortedMap String AckEvidence → ι → SortedMap String AckEvidence} {owner : String}
    {P : ι → Prop} (h : Marks step owner P) (inputs : List ι) {m : SortedMap String AckEvidence}
    (hm : (m.get? owner).isSome = true) :
    ((inputs.foldl step m).get? owner).isSome = true ∧
      (Legacy (inputs.foldl step m) owner ↔ Legacy m owner ∨ ∃ i ∈ inputs, P i) := by
  induction inputs generalizing m with
  | nil => simp [hm]
  | cons i rest ih =>
    obtain ⟨hsome, hstep⟩ := h m i hm
    obtain ⟨h1, h2⟩ := ih hsome
    refine ⟨h1, ?_⟩
    rw [foldl_cons, h2, hstep]
    simp only [mem_cons, exists_eq_or_imp, or_assoc]

theorem marks_modify {ι : Type} (owner : String) (name : ι → String)
    (f : ι → AckEvidence → AckEvidence) (P : ι → Prop)
    (hf : ∀ i previous, f i previous = .LegacyAcked ↔ previous = .LegacyAcked ∨ P i) :
    Marks (fun m i => modify m (name i) (f i)) owner (fun i => owner = name i ∧ P i) := by
  intro m i hm
  obtain ⟨previous, hprevious⟩ := Option.isSome_iff_exists.mp hm
  unfold Legacy
  simp only [get?_modify]
  by_cases howner : owner = name i
  · simp only [if_pos howner, hprevious, Option.map_some, Option.isSome_some, Option.some.injEq,
      hf, true_and]
    tauto
  · simp only [if_neg howner, hprevious, Option.isSome_some, Option.some.injEq, true_and]
    tauto

section

variable (sha256 : List UInt8 → Fin 32 → UInt8)

/-! ## The evidence of an owner -/

/-- The entry makes the owner Legacy: it is bound to it with Legacy evidence,
or it is unbound and its name may be the owner's. -/
def EntryMarks (owners : SortedMap String String) (owner : String)
    (file : String × ScanIndexEntry) : Prop :=
  group_evidence [file.2] ≠ .None ∧
    match binding owners file.1 file.2 with
    | some bound => owner = bound ∧ group_evidence [file.2] = .LegacyAcked
    | none => ∃ session ∈ codex_session_id_candidates_from_path file.1,
        owner = codex_protected_owner sha256 session

theorem marks_fold_entry (owners : SortedMap String String) (owner : String) :
    Marks (fold_entry sha256 owners) owner (EntryMarks sha256 owners owner) := by
  intro m file hm
  unfold fold_entry EntryMarks
  by_cases hnone : group_evidence [file.2] = .None
  · simp [hnone, hm]
  rcases binding owners file.1 file.2 with _ | bound
  · have hfold := (marks_modify owner (codex_protected_owner sha256) (fun _ _ => .LegacyAcked)
      (fun _ => True) (fun _ _ => by simp)).foldl (codex_session_id_candidates_from_path file.1) hm
    simpa [hnone] using hfold
  · have hstep := marks_modify owner (fun _ : Unit => bound)
      (fun _ previous => previous.combine (group_evidence [file.2]))
      (fun _ => group_evidence [file.2] = .LegacyAcked)
      (fun _ _ => combine_legacy) m () hm
    simpa [hnone] using hstep

theorem marks_fold_tombstone (owner : String) :
    Marks fold_tombstone owner
      (fun t : String × CountingTombstone => owner = t.1 ∧ t.2.evidence = .LegacyAcked) :=
  marks_modify owner Prod.fst
    (fun (t : String × CountingTombstone) previous => previous.combine t.2.evidence)
    (fun t => t.2.evidence = .LegacyAcked) (fun _ _ => combine_legacy)

/-- Each owner of the inventory starts with no evidence. -/
theorem get?_owners_start (values : List String) (owner : String)
    {m : SortedMap String AckEvidence} (hm : ∀ e, m.get? owner = some e → e = .None)
    (h : (m.get? owner).isSome = true ∨ owner ∈ values) :
    (values.foldl (fun by_owner owner => by_owner.insert owner .None) m).get? owner =
      some .None := by
  induction values generalizing m with
  | nil =>
    simp only [not_mem_nil, or_false] at h
    obtain ⟨e, he⟩ := Option.isSome_iff_exists.mp h
    rw [foldl_nil, he, hm e he]
  | cons value rest ih =>
    by_cases hvalue : owner = value
    · subst hvalue
      apply ih
      · intro e he
        rw [get?_insert_self] at he
        exact (Option.some.inj he).symm
      · simp
    · apply ih
      · intro e he
        rw [get?_insert_ne _ _ hvalue] at he
        exact hm e he
      · rw [get?_insert_ne _ _ hvalue]
        simpa [hvalue] using h

/-- Legacy evidence reaches an owner from an entry or from its tombstone. -/
def OwnerLegacy (index : ScanIndex) (owners : SortedMap String String) (owner : String) : Prop :=
  (∃ file ∈ index.files.entries, EntryMarks sha256 owners owner file) ∨
    ∃ tombstone, index.codex_counting_tombstones.get? owner = some tombstone ∧
      tombstone.evidence = .LegacyAcked

variable {owner : String}

theorem legacy_by_owner (index : ScanIndex) (owners : SortedMap String String)
    (h : owner ∈ owners.values) :
    Legacy (evidence_by_owner sha256 index owners) owner ↔
      OwnerLegacy sha256 index owners owner := by
  have hstart := get?_owners_start owners.values owner (m := .empty)
    (fun e he => by cases he) (.inr h)
  obtain ⟨hfiles, hfilesLegacy⟩ := (marks_fold_entry sha256 owners owner).foldl index.files.entries
    (m := owners.values.foldl (fun by_owner owner => by_owner.insert owner .None) .empty)
    (by rw [hstart]; rfl)
  have htombstones := ((marks_fold_tombstone owner).foldl
    index.codex_counting_tombstones.entries hfiles).2
  have hnot : ¬ Legacy (owners.values.foldl
      (fun by_owner owner => by_owner.insert owner .None) .empty) owner := by
    unfold Legacy
    rw [hstart]
    simp
  unfold evidence_by_owner OwnerLegacy
  rw [htombstones, hfilesLegacy]
  simp only [hnot, false_or]
  constructor
  · rintro (hfile | ⟨⟨o, t⟩, hmem, rfl, hlegacy⟩)
    · exact .inl hfile
    · exact .inr ⟨t, mem_entries.mp hmem, hlegacy⟩
  · rintro (hfile | ⟨t, hget, hlegacy⟩)
    · exact .inl hfile
    · exact .inr ⟨(owner, t), mem_entries.mpr hget, rfl, hlegacy⟩

/-! ## Absorbed tombstones -/

theorem proven_owner_valid {entry : ScanIndexEntry}
    (h : proven_owner entry = some owner) : valid_codex_protected_owner owner = true :=
  List.find?_some h

variable {owners : SortedMap String String} {path : String}

theorem binding_of_proven {entry : ScanIndexEntry} (h : proven_owner entry = some owner) :
    binding owners path entry = some owner := by
  unfold binding
  rw [h, Option.some_or, Option.filter_some, if_pos (proven_owner_valid h)]

variable {index : ScanIndex}

/-- A live owner that stands at Legacy has an entry that proves it. -/
theorem live_legacy (h : (live_evidence index).get? owner = some .LegacyAcked) :
    ∃ entry ∈ index.files.values, proven_owner entry = some owner ∧
      of_view [entry] = .LegacyAcked := by
  revert h
  refine List.foldlRecOn (motive := fun (live : SortedMap String AckEvidence) =>
    live.get? owner = some .LegacyAcked → ∃ entry ∈ index.files.values,
      proven_owner entry = some owner ∧ of_view [entry] = .LegacyAcked) _ _ ?_ ?_
  · intro hempty
    cases hempty
  · intro live hlive entry hmem hnext
    rcases hproven : proven_owner entry with _ | proven
    · simp only [hproven] at hnext
      exact hlive hnext
    · simp only [hproven] at hnext
      split at hnext
      · rw [get?_insert] at hnext
        split at hnext
        · rename_i howner
          subst howner
          -- The Legacy evidence is the entry's, or was there before it.
          rcases combine_legacy.mp (Option.some.inj hnext) with hold | hnew
          · apply hlive
            rcases hget : live.get? owner with _ | previous
            · rw [hget] at hold
              cases hold
            · rw [hget] at hold
              exact congrArg some hold
          · exact ⟨entry, hmem, hproven, hnew⟩
        · exact hlive hnext
      · exact hlive hnext

/-- What the collection drops, a live entry carries. -/
theorem ownerLegacy_collect (index : ScanIndex) (owners : SortedMap String String)
    (owner : String) :
    OwnerLegacy sha256 (collect_tombstones index owners false) owners owner ↔
      OwnerLegacy sha256 index owners owner := by
  unfold OwnerLegacy collect_tombstones
  simp only [get?_retain]
  constructor
  · rintro (hfile | ⟨tombstone, hget, hlegacy⟩)
    · exact .inl hfile
    · exact .inr ⟨tombstone, Option.eq_some_of_filter_eq_some hget, hlegacy⟩
  · rintro (hfile | ⟨tombstone, hget, hlegacy⟩)
    · exact .inl hfile
    · rcases hlive : (live_evidence index).get? owner with _ | evidence
      · exact .inr ⟨tombstone, by simp [hget], hlegacy⟩
      · by_cases hevidence : evidence = .LegacyAcked
        · rw [hevidence] at hlive
          obtain ⟨entry, hmem, hproven, hview⟩ := live_legacy hlive
          obtain ⟨⟨path, _⟩, hfile, rfl⟩ := mem_map.mp hmem
          refine .inl ⟨(path, _), hfile, ?_, ?_⟩
          · simp [group_evidence, hview]
          · rw [binding_of_proven hproven]
            exact ⟨rfl, hview⟩
        · refine .inr ⟨tombstone, ?_, hlegacy⟩
          have hkeep : evidence.combine .LegacyAcked ≠ evidence := by
            cases evidence <;> simp_all [AckEvidence.combine]
          simp [hget, hlegacy, hkeep]

/-- The moved evidence of a path is Legacy when its owner is. -/
theorem moved_legacy (index : ScanIndex) (owners : SortedMap String String)
    (h : owners.get? path = some owner) :
    ((prepare_moved_evidence sha256 index owners false).codex_counting_moved_evidence.get?
        path).getD .None = .LegacyAcked ↔ OwnerLegacy sha256 index owners owner := by
  have hmem : owner ∈ owners.values :=
    mem_map.mpr ⟨(path, owner), mem_entries.mpr h, rfl⟩
  rw [← ownerLegacy_collect sha256 index owners owner]
  unfold prepare_moved_evidence
  simp only [get?_filterMap, h, Option.bind_some]
  refine Iff.trans ?_ (legacy_by_owner sha256 _ owners hmem)
  unfold Legacy
  -- The diagnostics of evictions are not evidence.
  change ((((evidence_by_owner sha256 (collect_tombstones index owners false) owners).get?
    owner).filter (fun evidence => evidence != .None)).getD .None = .LegacyAcked ↔ _)
  generalize (evidence_by_owner sha256 (collect_tombstones index owners false) owners).get? owner =
    evidence
  rcases evidence with _ | evidence
  · simp
  · rw [Option.filter_some]
    cases evidence <;> simp

/-! ## The tombstones of a retirement -/

theorem get?_record_retired (retired_in : String) (tombstones : SortedMap String CountingTombstone)
    (retired : String × AckEvidence) (owner : String) :
    (record_retired retired_in tombstones retired).get? owner =
      if owner = retired.1 then
        some { (tombstones.get? owner).getD
                { evidence := .None, retired_in := "", created_unix_ms := none } with
               evidence := ((tombstones.get? owner).getD
                { evidence := .None, retired_in := "", created_unix_ms := none }).evidence.combine
                  retired.2
               retired_in }
      else tombstones.get? owner := by
  unfold record_retired
  simp only [get?_insert]
  split
  · rename_i h
    rw [h]
  · rfl

/-- The tombstone of an owner is Legacy. -/
def TombLegacy (tombstones : SortedMap String CountingTombstone) (owner : String) : Prop :=
  ∃ tombstone, tombstones.get? owner = some tombstone ∧ tombstone.evidence = .LegacyAcked

theorem tombLegacy_record (retired_in : String) (tombstones : SortedMap String CountingTombstone)
    (retired : String × AckEvidence) (owner : String) :
    TombLegacy (record_retired retired_in tombstones retired) owner ↔
      TombLegacy tombstones owner ∨ retired = (owner, .LegacyAcked) := by
  obtain ⟨name, evidence⟩ := retired
  unfold TombLegacy
  rw [get?_record_retired]
  by_cases h : owner = name
  · subst h
    simp only [if_true, Option.some.injEq, exists_eq_left', combine_legacy,
      Prod.mk.injEq, true_and]
    rcases tombstones.get? owner with _ | tombstone <;> simp
  · simp [h, Ne.symm h]

theorem tombLegacy_fold (retired_in : String) (retired : List (String × AckEvidence))
    (tombstones : SortedMap String CountingTombstone) (owner : String) :
    TombLegacy (retired.foldl (record_retired retired_in) tombstones) owner ↔
      TombLegacy tombstones owner ∨ (owner, AckEvidence.LegacyAcked) ∈ retired := by
  induction retired generalizing tombstones with
  | nil => simp
  | cons r rest ih =>
    rw [foldl_cons, ih, tombLegacy_record, mem_cons, or_assoc]
    simp only [eq_comm]

/-- A retirement adds at most one slot for each owner that had none. -/
theorem size_fold_record (retired_in : String) (retired : List (String × AckEvidence))
    (tombstones : SortedMap String CountingTombstone) :
    (retired.foldl (record_retired retired_in) tombstones).size ≤
      tombstones.size + (retired.filter (fun r => !tombstones.contains r.1)).length := by
  induction retired generalizing tombstones with
  | nil => simp
  | cons r rest ih =>
    have hnext := ih (record_retired retired_in tombstones r)
    have hcontains : ∀ owner, tombstones.contains owner = true →
        (record_retired retired_in tombstones r).contains owner = true := by
      intro owner howner
      unfold SortedMap.contains at howner ⊢
      rw [get?_record_retired]
      split
      · rfl
      · exact howner
    have hfewer : (rest.filter
        (fun r' => !(record_retired retired_in tombstones r).contains r'.1)).length ≤
        (rest.filter (fun r' => !tombstones.contains r'.1)).length := by
      apply List.Sublist.length_le
      apply monotone_filter_right
      intro r' hr'
      by_contra hnot
      rw [hcontains r'.1 (by simpa using hnot)] at hr'
      cases hr'
    have hsize : (record_retired retired_in tombstones r).size =
        if tombstones.contains r.1 then tombstones.size else tombstones.size + 1 :=
      size_insert tombstones r.1 _
    rw [foldl_cons, filter_cons]
    split_ifs with hnew
    · simp only [Bool.not_eq_true'] at hnew
      rw [hnew] at hsize
      simp only [Bool.false_eq_true, if_false] at hsize
      simp only [length_cons]
      omega
    · simp only [Bool.not_eq_true', Bool.not_eq_false] at hnew
      rw [hnew] at hsize
      simp only [if_true] at hsize
      omega

/-! ## Evictions -/

/-- The owner of a slot that may be evicted. -/
def slotOwner (slot : Fin 3 ×ₗ Bool ×ₗ String ×ₗ String) : String :=
  (ofLex (ofLex (ofLex slot).2).2).2

theorem mem_evictable {cutover : Int64} {retired_in : String}
    {retired : List (String × AckEvidence)} {tombstones : SortedMap String CountingTombstone}
    {slot : Fin 3 ×ₗ Bool ×ₗ String ×ₗ String}
    (h : slot ∈ evictable cutover retired_in retired tombstones) :
    (∀ r ∈ retired, r.1 ≠ slotOwner slot) ∧
      ∃ tombstone, tombstones.get? (slotOwner slot) = some tombstone ∧
        eviction_class cutover retired_in tombstone ≠ none := by
  unfold evictable at h
  rw [mem_insertionSort, mem_filterMap] at h
  obtain ⟨⟨owner, tombstone⟩, hmem, hslot⟩ := h
  simp only at hslot
  split at hslot
  · cases hslot
  · rename_i hrewritten
    obtain ⟨c, hclass, rfl⟩ := Option.map_eq_some_iff.mp hslot
    refine ⟨fun r hr heq => hrewritten ?_, tombstone, mem_entries.mp hmem,
      by simp [hclass]⟩
    exact any_eq_true.mpr ⟨r, hr, beq_iff_eq.mpr heq⟩

/-- Each owner has one slot. -/
theorem evictable_owners_nodup (cutover : Int64) (retired_in : String)
    (retired : List (String × AckEvidence)) (tombstones : SortedMap String CountingTombstone) :
    ((evictable cutover retired_in retired tombstones).map slotOwner).Nodup := by
  refine ((perm_insertionSort (· ≤ ·) _).map slotOwner).nodup_iff.mpr ?_
  rw [map_filterMap, List.Nodup, pairwise_filterMap]
  refine tombstones.sorted.imp ?_
  -- The slot of an entry holds the owner of the entry.
  have howner : ∀ (e : String × CountingTombstone) (owner : String),
      Option.map slotOwner (if retired.any (fun r => r.1 == e.1) then none
        else (eviction_class cutover retired_in e.2).map (fun c =>
          toLex (c, toLex (e.2.created_unix_ms.isNone, toLex (e.2.retired_in, e.1))))) =
        some owner → owner = e.1 := by
    intro e owner h
    split at h
    · cases h
    · rw [Option.map_map] at h
      obtain ⟨c, -, rfl⟩ := Option.map_eq_some_iff.mp h
      rfl
  intro a b hlt a' ha b' hb heq
  rw [howner a a' ha, howner b b' hb] at heq
  exact hlt.ne heq

theorem get?_evict_fold (slots : List (Fin 3 ×ₗ Bool ×ₗ String ×ₗ String)) (index : ScanIndex)
    (owner : String) :
    (slots.foldl evict index).codex_counting_tombstones.get? owner =
      if owner ∈ slots.map slotOwner then none else index.codex_counting_tombstones.get? owner := by
  induction slots generalizing index with
  | nil => rfl
  | cons slot rest ih =>
    have hevict : (evict index slot).codex_counting_tombstones.get? owner =
        if owner = slotOwner slot then none else index.codex_counting_tombstones.get? owner :=
      get?_erase _ _ _
    rw [foldl_cons, ih, hevict]
    by_cases h : owner ∈ rest.map slotOwner
    · simp [h]
    · by_cases h' : owner = slotOwner slot <;> simp [h, h']

/-- Each eviction frees one slot. -/
theorem size_evict_fold (slots : List (Fin 3 ×ₗ Bool ×ₗ String ×ₗ String)) (index : ScanIndex)
    (hnodup : (slots.map slotOwner).Nodup)
    (hmem : ∀ slot ∈ slots,
      index.codex_counting_tombstones.contains (slotOwner slot) = true) :
    (slots.foldl evict index).codex_counting_tombstones.size + slots.length =
      index.codex_counting_tombstones.size := by
  induction slots generalizing index with
  | nil => rfl
  | cons slot rest ih =>
    obtain ⟨hhead, htail⟩ := nodup_cons.mp hnodup
    have hsize : (evict index slot).codex_counting_tombstones.size + 1 =
        index.codex_counting_tombstones.size :=
      size_erase _ (hmem slot mem_cons_self)
    have hrest := ih (evict index slot) htail (fun slot' hslot' => by
      have hne : slotOwner slot' ≠ slotOwner slot := by
        intro heq
        exact hhead (heq ▸ mem_map_of_mem hslot')
      have hcontains := hmem slot' (mem_cons_of_mem _ hslot')
      unfold SortedMap.contains at hcontains ⊢
      rw [show (evict index slot).codex_counting_tombstones =
        index.codex_counting_tombstones.erase (slotOwner slot) from rfl, get?_erase,
        if_neg hne]
      exact hcontains)
    rw [foldl_cons, length_cons]
    omega

theorem contains_fold_record (retired_in : String) (retired : List (String × AckEvidence))
    (tombstones : SortedMap String CountingTombstone) (owner : String) :
    (retired.foldl (record_retired retired_in) tombstones).contains owner = true ↔
      tombstones.contains owner = true ∨ ∃ r ∈ retired, r.1 = owner := by
  induction retired generalizing tombstones with
  | nil => simp
  | cons r rest ih =>
    have hone : (record_retired retired_in tombstones r).contains owner = true ↔
        tombstones.contains owner = true ∨ r.1 = owner := by
      unfold SortedMap.contains
      rw [get?_record_retired]
      by_cases h : owner = r.1
      · simp [h]
      · simp [h, Ne.symm h]
    rw [foldl_cons, ih, hone]
    simp only [mem_cons, exists_eq_or_imp, or_assoc]

/-! ## One retirement -/

/-- The generation of the running walk. -/
def generation (index : ScanIndex) : String :=
  (index.traversal.map Traversal.census_window_end).getD ""

/-- What a retirement does: nothing, because there is no evidence to keep or
none that could select another version; nothing, because it is refused; or it
evicts some slots and records the evidence. -/
inductive Retires (index : ScanIndex) (key : String) : ScanIndex → Bool → Prop
  | unrecorded (h : ∀ entry, index.files.get? key = some entry →
      of_view [entry] = .None ∨
        ∀ r ∈ retired_evidence sha256 key entry, r.2 ≠ .LegacyAcked) : Retires index key index true
  | refused : Retires index key index false
  | recorded (entry : ScanIndexEntry)
    (slots : List (Fin 3 ×ₗ Bool ×ₗ String ×ₗ String))
    (hentry : index.files.get? key = some entry) (hsome : of_view [entry] ≠ .None)
    (hslots : List.Sublist slots (evictable active_cutover_unix_ms (generation index)
      (retired_evidence sha256 key entry) index.codex_counting_tombstones))
    (hroom : index.codex_counting_tombstones.size +
      ((retired_evidence sha256 key entry).filter
        (fun r => !index.codex_counting_tombstones.contains r.1)).length ≤
        MAX_COUNTING_TOMBSTONES + slots.length) :
    Retires index key
      { slots.foldl evict index with
        codex_counting_tombstones := (retired_evidence sha256 key entry).foldl
          (record_retired (generation index)) (slots.foldl evict index).codex_counting_tombstones }
      true

theorem tombstone_before_retire_step (index : ScanIndex) (key : String) :
    Retires sha256 index key (tombstone_before_retire sha256 index key).1
      (tombstone_before_retire sha256 index key).2 := by
  unfold tombstone_before_retire
  rcases hentry : index.files.get? key with _ | entry
  · exact .unrecorded (fun entry h => by rw [hentry] at h; cases h)
  simp only
  have hsame : ∀ entry', index.files.get? key = some entry' → entry' = entry := by
    intro entry' h
    exact Option.some.inj (h.symm.trans hentry)
  split_ifs with hnone hshort hall hlength
  · exact .unrecorded (fun entry' h => .inl (by rw [hsame entry' h]; exact hnone))
  · exact .recorded entry [] hentry hnone (nil_sublist _) (by simp only [length_nil]; omega)
  · refine .unrecorded (fun entry' h => .inr (fun r hr => ?_))
    rw [hsame entry' h] at hr
    simpa using all_eq_true.mp hall r hr
  · exact .refused
  · refine .recorded entry _ hentry hnone (take_sublist _ _) ?_
    rw [length_take, min_eq_left (by omega)]
    omega

variable {index' : ScanIndex} {key : String} {ok : Bool}

/-- A tombstone that is gone was in a class that may be evicted. -/
theorem evicted_class (h : Retires sha256 index key index' ok) {tombstone : CountingTombstone}
    (hbefore : index.codex_counting_tombstones.get? owner = some tombstone)
    (hafter : index'.codex_counting_tombstones.get? owner = none) :
    eviction_class active_cutover_unix_ms (generation index) tombstone ≠ none := by
  cases h with
  | unrecorded =>
    rw [hbefore] at hafter
    cases hafter
  | refused =>
    rw [hbefore] at hafter
    cases hafter
  | recorded entry slots _ _ hslots _ =>
    have hnot : (slots.foldl evict index).codex_counting_tombstones.contains owner ≠ true := by
      intro hcontains
      have := (contains_fold_record (generation index) (retired_evidence sha256 key entry)
        (slots.foldl evict index).codex_counting_tombstones owner).mpr (.inl hcontains)
      unfold SortedMap.contains at this
      rw [hafter] at this
      cases this
    have hmem : owner ∈ slots.map slotOwner := by
      by_contra hmem
      apply hnot
      unfold SortedMap.contains
      rw [get?_evict_fold, if_neg hmem, hbefore]
      rfl
    obtain ⟨slot, hslot, rfl⟩ := mem_map.mp hmem
    obtain ⟨-, tombstone', hget, hclass⟩ := mem_evictable (hslots.subset hslot)
    cases hbefore.symm.trans hget
    exact hclass

/-- Nothing was evicted. -/
def NoneEvicted (index index' : ScanIndex) : Prop :=
  ∀ owner, index.codex_counting_tombstones.contains owner = true →
    index'.codex_counting_tombstones.contains owner = true

/-- The entry that leaves makes an owner Legacy exactly when it leaves Legacy
evidence for it. -/
theorem entryMarks_iff_retired
    (h : owners.get? key = none) (entry : ScanIndexEntry) (owner : String) :
    EntryMarks sha256 owners owner (key, entry) ↔ of_view [entry] ≠ .None ∧
      (owner, AckEvidence.LegacyAcked) ∈ retired_evidence sha256 key entry := by
  unfold EntryMarks retired_evidence group_evidence
  rcases hproven : proven_owner entry with _ | proven
  · have hbinding : binding owners key entry = none := by
      unfold binding
      rw [hproven, h]
      rfl
    rw [hbinding]
    simp only [mem_map, Prod.mk.injEq, and_true, eq_comm]
  · rw [binding_of_proven hproven]
    simp only [mem_singleton, Prod.mk.injEq]
    constructor
    · rintro ⟨h1, h2, h3⟩
      exact ⟨h1, h2, h3.symm⟩
    · rintro ⟨h1, h2, h3⟩
      exact ⟨h1, h2, h3.symm⟩

/-- What the tombstones gain is what the entry that leaves gave. -/
theorem tombLegacy_retires
    (h : Retires sha256 index key index' true) (hnone : NoneEvicted index index')
    (hkey : owners.get? key = none) (owner : String) :
    TombLegacy index'.codex_counting_tombstones owner ↔
      TombLegacy index.codex_counting_tombstones owner ∨
        ∃ entry, index.files.get? key = some entry ∧
          EntryMarks sha256 owners owner (key, entry) := by
  cases h with
  | unrecorded hempty =>
    have hgives : ¬ ∃ entry, index.files.get? key = some entry ∧
        EntryMarks sha256 owners owner (key, entry) := by
      rintro ⟨entry, hentry, hmarks⟩
      obtain ⟨hsome, hretired⟩ := (entryMarks_iff_retired sha256 hkey entry owner).mp hmarks
      rcases hempty entry hentry with hnone | hall
      · exact hsome hnone
      · exact hall _ hretired rfl
    simp only [hgives, or_false]
  | recorded entry slots hentry hsome hslots _ =>
    have hslots_nil : slots = [] := by
      rcases slots with _ | ⟨slot, rest⟩
      · rfl
      · -- The first slot was a tombstone, and is no more.
        obtain ⟨hrewritten, tombstone, hget, -⟩ := mem_evictable
          (hslots.subset (mem_cons_self (a := slot) (l := rest)))
        have hafter := hnone (slotOwner slot) (by
          unfold SortedMap.contains
          rw [hget]
          rfl)
        simp only [contains_fold_record] at hafter
        rcases hafter with hkept | ⟨r, hr, heq⟩
        · unfold SortedMap.contains at hkept
          rw [get?_evict_fold] at hkept
          simp at hkept
        · exact absurd heq (hrewritten r hr)
    subst hslots_nil
    simp only [foldl_nil, tombLegacy_fold]
    constructor
    · rintro (hold | hnew)
      · exact .inl hold
      · exact .inr ⟨entry, hentry,
          (entryMarks_iff_retired sha256 hkey entry owner).mpr ⟨hsome, hnew⟩⟩
    · rintro (hold | ⟨entry', hentry', hmarks⟩)
      · exact .inl hold
      · cases hentry.symm.trans hentry'
        exact .inr ((entryMarks_iff_retired sha256 hkey entry owner).mp hmarks).2

theorem evict_fold_files (slots : List (Fin 3 ×ₗ Bool ×ₗ String ×ₗ String)) (index : ScanIndex) :
    (slots.foldl evict index).files = index.files := by
  induction slots generalizing index with
  | nil => rfl
  | cons slot rest ih => exact ih (evict index slot)

theorem retires_files (h : Retires sha256 index key index' ok) : index'.files = index.files := by
  cases h with
  | unrecorded => rfl
  | refused => rfl
  | recorded _ slots => exact evict_fold_files slots index

/-- The index without the entry of a key. -/
def drop_file_entry (index : ScanIndex) (key : String) : ScanIndex :=
  { index with files := index.files.erase key }

theorem ownerLegacy_dropped
    (h : Retires sha256 index key index' true) (hnone : NoneEvicted index index')
    (hkey : owners.get? key = none) (owner : String) :
    OwnerLegacy sha256 (drop_file_entry index' key) owners owner ↔
      OwnerLegacy sha256 index owners owner := by
  have htombs := tombLegacy_retires sha256 h hnone hkey owner
  have hfiles : ∀ path entry, (path, entry) ∈ (drop_file_entry index' key).files.entries ↔
      path ≠ key ∧ index.files.get? path = some entry := by
    intro path entry
    unfold drop_file_entry
    rw [mem_entries, get?_erase, retires_files sha256 h]
    by_cases hpath : path = key <;> simp [hpath]
  change (_ ∨ TombLegacy index'.codex_counting_tombstones owner) ↔
    (_ ∨ TombLegacy index.codex_counting_tombstones owner)
  rw [htombs]
  constructor
  · rintro (⟨⟨path, entry⟩, hmem, hmarks⟩ | htomb | ⟨entry, hentry, hmarks⟩)
    · exact .inl ⟨(path, entry),
        mem_entries.mpr ((hfiles path entry).mp hmem).2, hmarks⟩
    · exact .inr htomb
    · exact .inl ⟨(key, entry), mem_entries.mpr hentry, hmarks⟩
  · rintro (⟨⟨path, entry⟩, hmem, hmarks⟩ | htomb)
    · have hget := mem_entries.mp hmem
      by_cases hpath : path = key
      · subst hpath
        exact .inr (.inr ⟨entry, hget, hmarks⟩)
      · exact .inl ⟨(path, entry), (hfiles path entry).mpr ⟨hpath, hget⟩, hmarks⟩
    · exact .inr (.inl htomb)

/-- While the entry is still there, its tombstone says nothing new. -/
theorem ownerLegacy_recorded
    (h : Retires sha256 index key index' true) (hnone : NoneEvicted index index')
    (hkey : owners.get? key = none) (owner : String) :
    OwnerLegacy sha256 index' owners owner ↔ OwnerLegacy sha256 index owners owner := by
  have htombs := tombLegacy_retires sha256 h hnone hkey owner
  change (_ ∨ TombLegacy index'.codex_counting_tombstones owner) ↔
    (_ ∨ TombLegacy index.codex_counting_tombstones owner)
  rw [htombs, retires_files sha256 h]
  constructor
  · rintro (hfile | htomb | ⟨entry, hentry, hmarks⟩)
    · exact .inl hfile
    · exact .inr htomb
    · exact .inl ⟨(key, entry), mem_entries.mpr hentry, hmarks⟩
  · rintro (hfile | htomb)
    · exact .inl hfile
    · exact .inr (.inl htomb)

/-- Indexes whose owners agree on Legacy decide alike. -/
theorem moved_decides_alike {time : accumulator.Rfc3339}
    (h : OwnerLegacy sha256 index' owners owner ↔ OwnerLegacy sha256 index owners owner)
    (hpath : owners.get? path = some owner)
    (hfile : index'.files.get? path = index.files.get? path) (header : serde_json.Value)
    (cutover : Int64) :
    let before := prepare_moved_evidence sha256 index owners false
    let after := prepare_moved_evidence sha256 index' owners false
    decide time header ((after.codex_counting_moved_evidence.get? path).getD .None) cutover =
        decide time header ((before.codex_counting_moved_evidence.get? path).getD .None) cutover ∧
      decide time header (key_evidence path after) cutover =
        decide time header (key_evidence path before) cutover := by
  intro before after
  have hmoved : (after.codex_counting_moved_evidence.get? path).getD .None = .LegacyAcked ↔
      (before.codex_counting_moved_evidence.get? path).getD .None = .LegacyAcked := by
    rw [moved_legacy sha256 _ owners hpath, moved_legacy sha256 _ owners hpath]
    exact h
  have hfiles : after.files.get? path = before.files.get? path := hfile
  refine ⟨decide_of_legacy_iff hmoved header cutover, decide_of_legacy_iff ?_ header cutover⟩
  unfold key_evidence
  rw [combine_legacy, combine_legacy, hmoved, hfiles]

/-- The map keeps its cap. -/
theorem size_retires (h : Retires sha256 index key index' ok) :
    index'.codex_counting_tombstones.size ≤
      max index.codex_counting_tombstones.size MAX_COUNTING_TOMBSTONES := by
  cases h with
  | unrecorded => exact le_max_left _ _
  | refused => exact le_max_left _ _
  | recorded entry slots _ _ hslots hroom =>
    have hevict := size_evict_fold slots index
      ((hslots.map slotOwner).nodup (evictable_owners_nodup _ _ _ _)) (fun slot hslot => by
        obtain ⟨-, tombstone, hget, -⟩ := mem_evictable (hslots.subset hslot)
        unfold SortedMap.contains
        rw [hget]
        rfl)
    have hrecord := size_fold_record (generation index) (retired_evidence sha256 key entry)
      (slots.foldl evict index).codex_counting_tombstones
    -- An evicted owner is not written again, so no evicted slot is needed.
    have hsame : (retired_evidence sha256 key entry).filter
        (fun r => !(slots.foldl evict index).codex_counting_tombstones.contains r.1) =
        (retired_evidence sha256 key entry).filter
          (fun r => !index.codex_counting_tombstones.contains r.1) := by
      apply filter_congr
      intro r hr
      have hnot : r.1 ∉ slots.map slotOwner := by
        intro hmem
        obtain ⟨slot, hslot, heq⟩ := mem_map.mp hmem
        exact (mem_evictable (hslots.subset hslot)).1 r hr heq.symm
      unfold SortedMap.contains
      rw [get?_evict_fold, if_neg hnot]
    rw [hsame] at hrecord
    simp only
    apply le_max_of_le_right
    omega

/-- Retiring an entry without an eviction leaves the version of every owner
as it was before, with or without the tombstone; an eviction never takes
Legacy evidence of this generation that may be after the cutover; a refusal
changes no tombstone; and the map keeps its cap. -/
theorem retiring_keeps_the_counting_version (time : accumulator.Rfc3339) (index : ScanIndex)
    (key : String) :
    let result := tombstone_before_retire sha256 index key
    (result.2 = true → NoneEvicted index result.1 →
      ∀ owners : SortedMap String String, owners.get? key = none →
        ∀ path owner, owners.get? path = some owner →
          ∀ (header : serde_json.Value) (cutover : Int64),
            let after := prepare_moved_evidence sha256 (drop_file_entry result.1 key) owners false
            ∀ before ∈ [index, result.1].map
                (fun index => prepare_moved_evidence sha256 index owners false),
              decide time header
                  ((after.codex_counting_moved_evidence.get? path).getD .None) cutover =
                decide time header
                  ((before.codex_counting_moved_evidence.get? path).getD .None) cutover ∧
              decide time header (key_evidence path after) cutover =
                decide time header (key_evidence path before) cutover) ∧
    (∀ owner tombstone, index.codex_counting_tombstones.get? owner = some tombstone →
      result.1.codex_counting_tombstones.get? owner = none →
      ¬ (tombstone.evidence = .LegacyAcked ∧ tombstone.retired_in = generation index ∧
        ∀ created, tombstone.created_unix_ms = some created →
          ¬ created < active_cutover_unix_ms)) ∧
    (result.2 = false →
      result.1.codex_counting_tombstones = index.codex_counting_tombstones) ∧
    result.1.codex_counting_tombstones.size ≤
      max index.codex_counting_tombstones.size MAX_COUNTING_TOMBSTONES := by
  intro result
  have hstep : Retires sha256 index key result.1 result.2 :=
    tombstone_before_retire_step sha256 index key
  refine ⟨?_, ?_, ?_, size_retires sha256 hstep⟩
  · intro hok hnone owners hkey path owner hpath header cutover after before hbefore
    rw [hok] at hstep
    have hne : path ≠ key := by
      rintro rfl
      rw [hpath] at hkey
      cases hkey
    have hdropped := ownerLegacy_dropped sha256 hstep hnone hkey owner
    have hrecorded := ownerLegacy_recorded sha256 hstep hnone hkey owner
    have hfiles := retires_files sha256 hstep
    have hfile : (drop_file_entry result.1 key).files.get? path = index.files.get? path := by
      unfold drop_file_entry
      rw [get?_erase, if_neg hne, hfiles]
    simp only [map_cons, map_nil, mem_cons, not_mem_nil, or_false] at hbefore
    rcases hbefore with rfl | rfl
    · exact moved_decides_alike sha256 hdropped hpath hfile header cutover
    · exact moved_decides_alike sha256 (hdropped.trans hrecorded.symm) hpath
        (by rw [hfile, hfiles]) header cutover
  · rintro owner tombstone hbefore hafter ⟨hlegacy, hgeneration, hcreated⟩
    apply evicted_class sha256 hstep hbefore hafter
    unfold eviction_class
    have hknown : tombstone.created_unix_ms.any
        (fun created => created < active_cutover_unix_ms) = false := by
      rcases hc : tombstone.created_unix_ms with _ | created
      · rfl
      · simpa using hcreated created hc
    simp only [hlegacy, hgeneration, hknown, ne_eq, not_true_eq_false, if_false,
      Bool.false_eq_true]
  · intro hfalse
    rw [hfalse] at hstep
    generalize result.1 = index' at hstep
    cases hstep
    rfl

end

/-- An owner whose first file, read by Legacy, is retired when its second one is found. -/
def exampleOwner : String := String.ofList (replicate 64 'a')

def exampleIndex : ScanIndex :=
  { files := SortedMap.empty.insert "/a.jsonl"
      { last_snapshot_fingerprint := some "f", codex_counting_owner := some exampleOwner } }

/-- The second file is read by Legacy after the retirement as it was before. -/
example :
    let sha256 := fun (_ : List UInt8) (_ : Fin 32) => (0 : UInt8)
    let owners := SortedMap.empty.insert "/b.jsonl" exampleOwner
    let result := tombstone_before_retire sha256 exampleIndex "/a.jsonl"
    let after := prepare_moved_evidence sha256 (drop_file_entry result.1 "/a.jsonl") owners false
    result.2 = true ∧ result.1.codex_counting_tombstones.size = 1 ∧
      key_evidence "/b.jsonl" after = .LegacyAcked ∧
      key_evidence "/b.jsonl" (prepare_moved_evidence sha256 exampleIndex owners false) =
        .LegacyAcked := by
  decide +kernel

end ottto_service.codex_counting_version
