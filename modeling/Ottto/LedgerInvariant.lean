-- What every operation of the upload ledger keeps: the checks that the loader makes, in
-- every map at once, at every later reading of the clock.
import Ottto.PendingHeads
import Ottto.AckRetention

namespace ottto_service.snapshot_sync

open snapshots terminal_contract_retry reason_reoffer List Option SortedMap

/-! ## The invariant -/

namespace Durable

/-- The ledger as its loader asks for it. -/
structure Loadable (ns : String) (now : Nat) (d : Durable) : Prop where
  schema : d.schema_version = SNAPSHOT_UPLOAD_PROGRESS_SCHEMA_VERSION
  destination : d.destination_namespace_hash = ns
  accepted : ∀ fp, fp ∈ d.accepted_fingerprints ↔ d.accepted_body_witnesses.contains fp = true
  witnesses : ∀ fp body, d.accepted_body_witnesses.get? fp = some body →
    is_snapshot_fingerprint fp = true ∧ is_snapshot_fingerprint body = true
  contexts : ∀ fp context, d.accepted_body_contexts.get? fp = some context →
    is_snapshot_fingerprint context = true
  heads : ∀ key head, d.accepted_cache_heads.get? key = some head →
    is_snapshot_fingerprint key = true ∧ is_snapshot_fingerprint head = true
  pending : ∀ file pending, d.pending_cache_heads.get? file = some pending →
    pending_is_loadable file pending = true
  quarantined : ∀ fp record, d.quarantined_fingerprints.get? fp = some record →
    is_snapshot_fingerprint fp = true ∧ record_is_loadable now record = true
  refusals : ∀ fp refusal, d.permanent_rejections.get? fp = some refusal →
    is_snapshot_fingerprint fp = true ∧ is_snapshot_fingerprint refusal.body_witness = true

/-- What no check of the loader sees: the older revisions of a refusal, and the sessions of
the entities that wait for a head. -/
structure Bound (session_of : String → String) (d : Durable) : Prop where
  revisions : ∀ fp refusal, d.permanent_rejections.get? fp = some refusal →
    ∀ key revision, refusal.revisions.get? key = some revision →
      is_snapshot_fingerprint revision.body_witness = true
  sessions : ∀ file pending, d.pending_cache_heads.get? file = some pending →
    ∀ entity session, pending.entities.get? entity = some session → session = session_of entity

variable {ns : String} {session_of : String → String} {now : Nat} {d : Durable}

theorem Loadable.later {later : Nat} (hle : now ≤ later) (h : Loadable ns now d) :
    Loadable ns later d where
  schema := h.schema
  destination := h.destination
  accepted := h.accepted
  witnesses := h.witnesses
  contexts := h.contexts
  heads := h.heads
  pending := h.pending
  quarantined := fun fp record hget =>
    ⟨(h.quarantined fp record hget).1, loadable_mono hle (h.quarantined fp record hget).2⟩
  refusals := h.refusals

theorem Loadable.of_new : Loadable ns now { destination_namespace_hash := ns } where
  schema := rfl
  destination := rfl
  accepted := by simp [SortedMap.contains]
  witnesses := by simp
  contexts := by simp
  heads := by simp
  pending := by simp
  quarantined := by simp
  refusals := by simp

theorem Bound.of_new : Bound session_of { destination_namespace_hash := ns } where
  revisions := by simp
  sessions := by simp

/-! ## One map at a time -/

theorem Loadable.with_quarantined (h : Loadable ns now d)
    {quarantined : SortedMap String SnapshotQuarantineRecord}
    (hnew : ∀ fp record, quarantined.get? fp = some record →
      is_snapshot_fingerprint fp = true ∧ record_is_loadable now record = true) :
    Loadable ns now { d with quarantined_fingerprints := quarantined } :=
  { h with quarantined := hnew }

theorem Loadable.with_refusals (h : Loadable ns now d)
    {refusals : SortedMap String PermanentSnapshotRejection}
    (hnew : ∀ fp refusal, refusals.get? fp = some refusal →
      is_snapshot_fingerprint fp = true ∧ is_snapshot_fingerprint refusal.body_witness = true) :
    Loadable ns now { d with permanent_rejections := refusals } :=
  { h with refusals := hnew }

theorem Loadable.with_pending (h : Loadable ns now d)
    {heads : SortedMap String PendingCacheHeadFile}
    (hnew : ∀ file pending, heads.get? file = some pending →
      pending_is_loadable file pending = true) :
    Loadable ns now { d with pending_cache_heads := heads } :=
  { h with pending := hnew }

/-- The accepted entities and their bodies, kept or not together. -/
theorem Loadable.with_accepted (h : Loadable ns now d) {fps : Finset String}
    {witnesses contexts : SortedMap String String}
    (hfps : ∀ fp, fp ∈ fps ↔ witnesses.contains fp = true)
    (hwitnesses : ∀ fp body, witnesses.get? fp = some body →
      is_snapshot_fingerprint fp = true ∧ is_snapshot_fingerprint body = true)
    (hcontexts : ∀ fp context, contexts.get? fp = some context →
      d.accepted_body_contexts.get? fp = some context) :
    Loadable ns now { d with
      accepted_fingerprints := fps, accepted_body_witnesses := witnesses
      accepted_body_contexts := contexts } :=
  { h with
    accepted := hfps
    witnesses := hwitnesses
    contexts := fun fp context hget => h.contexts fp context (hcontexts fp context hget) }

/-! ## The loader's own checks -/

theorem size_eq_card {β : Type} {m : SortedMap String β} {fps : Finset String}
    (h : ∀ fp, fp ∈ fps ↔ m.contains fp = true) : m.size = fps.card := by
  have hfps : fps = m.keys.toFinset := by
    ext fp
    rw [h, List.mem_toFinset, mem_keys_iff]
    rfl
  rw [hfps, toFinset_card_of_nodup m.keys_nodup]
  simp [SortedMap.size, SortedMap.keys]

/-- With the contexts of bodies no longer accepted gone, the invariant is the loader's. -/
theorem Loadable.loads (h : Loadable ns now d) (hns : is_snapshot_fingerprint ns = true)
    (hcontexts : ∀ fp context, d.accepted_body_contexts.get? fp = some context →
      d.accepted_body_witnesses.contains fp = true) : d.is_loadable now ns = true := by
  have hkeys : ∀ fp ∈ d.accepted_body_witnesses.keys,
      is_snapshot_fingerprint fp = true ∧ fp ∈ d.accepted_fingerprints := by
    intro fp hmem
    rw [mem_keys_iff] at hmem
    obtain ⟨body, hbody⟩ := Option.isSome_iff_exists.mp hmem
    exact ⟨(h.witnesses fp body hbody).1, (h.accepted fp).mpr hmem⟩
  have hfps : ∀ fp ∈ d.accepted_fingerprints, is_snapshot_fingerprint fp = true := by
    intro fp hmem
    have hcontains := (h.accepted fp).mp hmem
    exact (hkeys fp (mem_keys_iff.mpr hcontains)).1
  unfold is_loadable
  simp only [Bool.and_eq_true, beq_iff_eq, decide_eq_true_eq, List.all_eq_true]
  refine ⟨⟨⟨⟨⟨⟨⟨⟨⟨⟨⟨⟨h.schema, h.destination⟩, by rw [h.destination]; exact hns⟩, hfps⟩,
    size_eq_card h.accepted⟩, hkeys⟩, ?_⟩, ?_⟩, ?_⟩, ?_⟩, ?_⟩, ?_⟩, ?_⟩
  · intro body hmem
    obtain ⟨e, he, rfl⟩ := mem_map.mp hmem
    exact (h.witnesses e.1 e.2 (mem_entries.mp he)).2
  · intro e he
    have hget := mem_entries.mp he
    exact ⟨hcontexts e.1 e.2 hget, h.contexts e.1 e.2 hget⟩
  · intro e he
    exact h.heads e.1 e.2 (mem_entries.mp he)
  · intro e he
    exact h.pending e.1 e.2 (mem_entries.mp he)
  · intro fp hmem
    obtain ⟨e, he, rfl⟩ := mem_map.mp hmem
    exact (h.quarantined e.1 e.2 (mem_entries.mp he)).1
  · intro e he
    exact h.refusals e.1 e.2 (mem_entries.mp he)
  · intro record hmem
    obtain ⟨e, he, rfl⟩ := mem_map.mp hmem
    exact (h.quarantined e.1 e.2 (mem_entries.mp he)).2

/-- What the loader accepts has the invariant. -/
theorem loadable_of_is_loadable (h : d.is_loadable now ns = true) : Loadable ns now d := by
  unfold is_loadable at h
  simp only [Bool.and_eq_true, beq_iff_eq, decide_eq_true_eq, List.all_eq_true] at h
  obtain ⟨⟨⟨⟨⟨⟨⟨⟨⟨⟨⟨⟨hschema, hdest⟩, -⟩, hfps⟩, hsize⟩, hkeys⟩, hbodies⟩, hcontexts⟩, hheads⟩,
    hpending⟩, hquarantine⟩, hrefusals⟩, hrecords⟩ := h
  have hsubset : d.accepted_body_witnesses.keys.toFinset ⊆ d.accepted_fingerprints := by
    intro fp hmem
    exact (hkeys fp (List.mem_toFinset.mp hmem)).2
  -- A subset with as many members is the whole set.
  have hequal : d.accepted_body_witnesses.keys.toFinset = d.accepted_fingerprints := by
    apply Finset.eq_of_subset_of_card_le hsubset
    rw [← hsize, toFinset_card_of_nodup (keys_nodup _)]
    simp [SortedMap.size, SortedMap.keys]
  constructor
  · exact hschema
  · exact hdest
  · intro fp
    rw [← hequal, List.mem_toFinset, mem_keys_iff]
    rfl
  · intro fp body hget
    have hmem := mem_entries.mpr hget
    exact ⟨(hkeys fp (mem_map.mpr ⟨_, hmem, rfl⟩)).1,
      hbodies body (mem_map.mpr ⟨_, hmem, rfl⟩)⟩
  · intro fp context hget
    exact (hcontexts (fp, context) (mem_entries.mpr hget)).2
  · intro key head hget
    exact hheads (key, head) (mem_entries.mpr hget)
  · intro file pending hget
    exact hpending (file, pending) (mem_entries.mpr hget)
  · intro fp record hget
    have hmem := mem_entries.mpr hget
    exact ⟨hquarantine fp (mem_map.mpr ⟨_, hmem, rfl⟩),
      hrecords record (mem_map.mpr ⟨_, hmem, rfl⟩)⟩
  · intro fp refusal hget
    exact hrefusals (fp, refusal) (mem_entries.mpr hget)

end Durable

namespace SnapshotUploadProgress

variable {ns : String} {session_of : String → String} {now : Nat} {s : SnapshotUploadProgress}

/-! ## Answers -/

variable {fingerprint body : String}

theorem quarantine_record_loadable (hbody : is_snapshot_fingerprint body = true) :
    record_is_loadable now (s.quarantine_record fingerprint body now) = true := by
  apply loadable_iff.mpr
  constructor
  · have hafter := quarantine_retry_after_le fingerprint now
    unfold quarantine_record snapshot_quarantine_deadline_is_bounded_at
    by_cases howed : s.owed_stale_body fingerprint body = true
    · simp [howed, hafter, MAX_SNAPSHOT_RECONSTRUCTION_FAILURES]
    · simp only [howed, Bool.false_eq_true, if_false, true_and]
      split_ifs with hcount
      · simpa using hcount
      · simp only [Bool.and_eq_true, decide_eq_true_eq]
        exact ⟨lt_of_le_of_ne (Nat.min_le_right _ _) hcount, hafter⟩
  · intro found hfound
    cases hfound
    exact hbody

variable {record : SnapshotQuarantineRecord}

theorem quarantine_as_loadable (h : s.toDurable.Loadable ns now)
    (hfp : is_snapshot_fingerprint fingerprint = true)
    (hrecord : record_is_loadable now record = true) :
    (s.quarantine_as fingerprint record).toDurable.Loadable ns now := by
  have hquarantined := @Durable.Loadable.with_quarantined _ _ _ h
    (s.quarantined_fingerprints.insert fingerprint record)
    (forall_insert ⟨hfp, hrecord⟩ h.quarantined)
  apply hquarantined.with_accepted
  · intro fp
    rw [Finset.mem_erase, h.accepted fp]
    simp only [SortedMap.contains, get?_erase]
    by_cases heq : fp = fingerprint <;> simp [heq]
  · exact fun fp body hget => h.witnesses fp body (get?_of_erase hget)
  · exact fun fp context hget => get?_of_erase hget

theorem quarantine_body_loadable (h : s.toDurable.Loadable ns now)
    (hfp : is_snapshot_fingerprint fingerprint = true)
    (hbody : is_snapshot_fingerprint body = true) :
    (s.quarantine_body fingerprint body now).toDurable.Loadable ns now :=
  quarantine_as_loadable h hfp (quarantine_record_loadable hbody)

theorem terminal_loadable
    (h : record_is_loadable now record = true) : record_is_loadable now record.terminal = true :=
  loadable_iff.mpr ⟨bounded_terminal, (loadable_iff.mp h).2⟩

theorem superseded_loadable
    (h : record_is_loadable now record = true) : record_is_loadable now record.superseded = true :=
  loadable_iff.mpr ⟨bounded_superseded (loadable_iff.mp h).1, (loadable_iff.mp h).2⟩

theorem quarantine_permanent_body_loadable (h : s.toDurable.Loadable ns now)
    {reason : String} (hfp : is_snapshot_fingerprint fingerprint = true)
    (hbody : is_snapshot_fingerprint body = true) :
    (s.quarantine_permanent_body fingerprint body reason now).toDurable.Loadable ns now := by
  have hrecord : record_is_loadable now (s.quarantine_record fingerprint body now).terminal = true :=
    terminal_loadable (quarantine_record_loadable hbody)
  apply (quarantine_as_loadable h hfp hrecord).with_refusals
  exact forall_insert ⟨hfp, hbody⟩ h.refusals

theorem unstored_record_loadable {stale_owed : Bool} (h : record_is_loadable now record = true)
    (howed : stale_owed = true → record.disposition = .RetryPending) :
    record_is_loadable now (s.unstored_record stale_owed fingerprint record now) = true := by
  obtain ⟨hbound, hbody⟩ := loadable_iff.mp h
  unfold unstored_record
  split
  · rename_i howes
    apply loadable_iff.mpr
    refine ⟨?_, hbody⟩
    unfold snapshot_quarantine_deadline_is_bounded_at at hbound ⊢
    rw [howed howes] at hbound
    exact hbound
  split
  · split
    · rename_i hpending
      apply loadable_iff.mpr
      refine ⟨?_, hbody⟩
      have hdelay : 2 ^ min (record.failed_reconstruction_count - 1) 1 ≤ 2 := by
        calc 2 ^ min (record.failed_reconstruction_count - 1) 1 ≤ 2 ^ 1 :=
              Nat.pow_le_pow_right (by omega) (Nat.min_le_right _ _)
          _ = 2 := rfl
      have hafter := u64_saturating_add_mono (le_refl now)
        (Nat.mul_le_mul_left SNAPSHOT_QUARANTINE_RETRY_SECONDS hdelay)
      simp only [snapshot_quarantine_deadline_is_bounded_at, hpending, Bool.and_eq_true,
        decide_eq_true_eq] at hbound ⊢
      exact ⟨hbound.1, hafter⟩
    · exact h
  · exact terminal_loadable h

theorem without_verdict_loadable (h : s.toDurable.Loadable ns now) :
    (s.without_verdict fingerprint body).toDurable.Loadable ns now := by
  apply h.with_refusals
  intro fp refusal hget
  split at hget
  · exact h.refusals fp refusal (get?_of_erase hget)
  · exact h.refusals fp refusal hget

/-- An owed stale refusal is not taken away, so its body stays owed. -/
theorem without_verdict_owed (howed : s.owed_stale_body fingerprint body = true) :
    (s.without_verdict fingerprint body).owed_stale_body fingerprint body = true := by
  simp only [without_verdict, howed, Bool.not_true, Bool.false_and, Bool.false_eq_true, if_false]
  exact howed

theorem quarantine_record_of_owed (howed : s.owed_stale_body fingerprint body = true) :
    (s.quarantine_record fingerprint body now).disposition = .RetryPending := by
  simp [quarantine_record, howed]

theorem hold_unstored_body_loadable (h : s.toDurable.Loadable ns now)
    (hfp : is_snapshot_fingerprint fingerprint = true)
    (hbody : is_snapshot_fingerprint body = true) :
    (s.hold_unstored_body fingerprint body now).toDurable.Loadable ns now := by
  apply quarantine_as_loadable (without_verdict_loadable h) hfp
  apply unstored_record_loadable (quarantine_record_loadable hbody)
  intro howed
  exact quarantine_record_of_owed (without_verdict_owed howed)

theorem quarantine_retryable_body_loadable (h : s.toDurable.Loadable ns now) {retry_after : Nat}
    (hfp : is_snapshot_fingerprint fingerprint = true) (hbody : is_snapshot_fingerprint body = true)
    (hafter : retry_after ≤ u64_saturating_add now (SNAPSHOT_QUARANTINE_RETRY_SECONDS * 2)) :
    (s.quarantine_retryable_body fingerprint body retry_after now).toDurable.Loadable ns now := by
  have hanswered : ({ s with
      active_reason_reoffers := s.active_reason_reoffers.erase fingerprint } :
        SnapshotUploadProgress).toDurable.Loadable ns now := h
  apply quarantine_as_loadable hanswered hfp
  apply exhaust_loadable
  apply loadable_iff.mpr
  constructor
  · apply bounded_retry _ hafter
    split <;> decide
  · intro found hfound
    cases hfound
    exact hbody

theorem refusal_after_ack_body {refusal left : PermanentSnapshotRejection}
    (h : refusal_after_ack refusal body = some left) :
    left.body_witness = refusal.body_witness ∨
      ∃ key, refusal.revisions.get? key = some left.toRefusal := by
  unfold refusal_after_ack at h
  dsimp only at h
  split at h
  · split at h
    · cases h
    · rename_i key remaining rest hentries
      cases h
      right
      have hmem : (key, remaining) ∈ (refusal.revisions.erase body).entries := by
        rw [hentries]
        exact mem_cons_self
      exact ⟨key, get?_of_erase (mem_entries.mp hmem)⟩
  · split at h
    · cases h
      exact .inl rfl
    · cases h

theorem get?_put_refusal {refusals : SortedMap String PermanentSnapshotRejection}
    {fingerprint fp : String} {refusal : Option PermanentSnapshotRejection} :
    (put_refusal refusals fingerprint refusal).get? fp =
      if fp = fingerprint then refusal else refusals.get? fp := by
  cases refusal with
  | none => exact get?_erase _ _ _
  | some refusal => exact get?_insert _ _ _ _

theorem record_body_loadable (h : s.toDurable.Loadable ns now)
    (hbound : s.toDurable.Bound session_of) (hfp : is_snapshot_fingerprint fingerprint = true)
    (hbody : is_snapshot_fingerprint body = true) :
    (s.record_body fingerprint body).toDurable.Loadable ns now := by
  have hquarantined := @Durable.Loadable.with_quarantined _ _ _ h
    (s.quarantined_fingerprints.erase fingerprint)
    (fun fp record hget => h.quarantined fp record (get?_of_erase hget))
  have hrefusals := @Durable.Loadable.with_refusals _ _ _ hquarantined
    (put_refusal s.permanent_rejections fingerprint ((s.permanent_rejections.get? fingerprint).bind
      (fun refusal => refusal_after_ack refusal body))) (by
      intro fp refusal hget
      rw [get?_put_refusal] at hget
      split at hget
      · rename_i heq
        obtain ⟨old, hold, hleft⟩ := bind_eq_some_iff.mp hget
        refine ⟨by rw [heq]; exact hfp, ?_⟩
        rcases refusal_after_ack_body hleft with hsame | ⟨key, hrevision⟩
        · rw [hsame]
          exact (h.refusals _ old hold).2
        · exact hbound.revisions _ old hold key _ hrevision
      · exact h.refusals fp refusal hget)
  apply hrefusals.with_accepted
  · intro fp
    rw [Finset.mem_insert, h.accepted fp]
    simp only [SortedMap.contains, get?_insert]
    by_cases heq : fp = fingerprint <;> simp [heq]
  · exact forall_insert ⟨hfp, hbody⟩ h.witnesses
  · exact fun fp context hget => get?_of_erase hget

/-! ## Quarantines rewritten where they stand -/

theorem get?_filterMap_some {f : String → SnapshotQuarantineRecord → SnapshotQuarantineRecord}
    {m : SortedMap String SnapshotQuarantineRecord} {fp : String} :
    (m.filterMap (fun fp record => some (f fp record))).get? fp = (m.get? fp).map (f fp) := by
  rw [get?_filterMap]
  cases m.get? fp <;> rfl

theorem rewritten_loadable (h : s.toDurable.Loadable ns now)
    {f : String → SnapshotQuarantineRecord → SnapshotQuarantineRecord}
    (hf : ∀ fp record, record_is_loadable now record = true →
      record_is_loadable now (f fp record) = true) :
    ({ s.toDurable with
      quarantined_fingerprints :=
        s.quarantined_fingerprints.filterMap (fun fp record => some (f fp record)) } :
      Durable).Loadable ns now := by
  apply h.with_quarantined
  intro fp record hget
  rw [get?_filterMap_some] at hget
  obtain ⟨old, hold, rfl⟩ := map_eq_some_iff.mp hget
  exact ⟨(h.quarantined fp old hold).1, hf fp old (h.quarantined fp old hold).2⟩

theorem map_quarantine_loadable (h : s.toDurable.Loadable ns now)
    {f : String → SnapshotQuarantineRecord → SnapshotQuarantineRecord}
    (hf : ∀ fp record, record_is_loadable now record = true →
      record_is_loadable now (f fp record) = true) :
    (s.map_quarantine f).toDurable.Loadable ns now := rewritten_loadable h hf

/-- Only a retry that is pending is paced. -/
theorem paced_loadable {fp : String}
    (h : record_is_loadable now record = true) (hpending : record.disposition = .RetryPending) :
    record_is_loadable now (s.paced fp record now) = true := by
  obtain ⟨hbound, hbody⟩ := loadable_iff.mp h
  have hafter := quarantine_retry_after_le fp now
  apply loadable_iff.mpr
  refine ⟨?_, hbody⟩
  simp only [snapshot_quarantine_deadline_is_bounded_at, paced, hpending, Bool.and_eq_true,
    decide_eq_true_eq] at hbound ⊢
  exact ⟨hbound.1, hafter⟩

theorem retain_current_quarantines_loadable (h : s.toDurable.Loadable ns now)
    {current : Finset String} :
    (s.retain_current_quarantines current).toDurable.Loadable ns now := by
  apply rewritten_loadable h
  intro fp record hrecord
  split
  · exact superseded_loadable hrecord
  · exact hrecord

theorem defer_held_quarantine_retries_loadable (h : s.toDurable.Loadable ns now)
    {offered : Finset String} {index : ScanIndex} :
    (s.defer_held_quarantine_retries offered index now).toDurable.Loadable ns now := by
  apply h.with_quarantined
  intro fp record hget
  rw [get?_filterMap_some] at hget
  obtain ⟨old, hold, rfl⟩ := map_eq_some_iff.mp hget
  refine ⟨(h.quarantined fp old hold).1, ?_⟩
  split
  · rename_i hheld
    apply paced_loadable (h.quarantined fp old hold).2
    have hretry := hheld.2
    simp only [is_held_retry, hold, any_some, Bool.and_eq_true, beq_iff_eq] at hretry
    exact hretry.2.2
  · exact (h.quarantined fp old hold).2

theorem finished_loadable (h : s.toDurable.Loadable ns now) :
    s.finished.toDurable.Loadable ns now := by
  apply h.with_quarantined
  intro fp record hget
  rw [get?_retain] at hget
  exact h.quarantined fp record (filter_eq_some_iff.mp hget).1

/-! ## The start of a cycle -/

theorem drop_accepted_loadable (h : s.toDurable.Loadable ns now) :
    s.drop_accepted.toDurable.Loadable ns now := by
  apply h.with_quarantined
  intro fp record hget
  rw [get?_filterKeys] at hget
  split at hget
  · exact h.quarantined fp record hget
  · cases hget

theorem restored_loadable {old : Option SnapshotQuarantineRecord}
    (hrecord : record_is_loadable now record = true)
    (hold : ∀ own ∈ old, record_is_loadable now own = true) :
    record_is_loadable now (restored old record).1 = true := by
  unfold restored
  split
  · exact hrecord
  · rename_i own
    split
    · exact merge_claims_loadable hrecord (hold own rfl)
    · exact hold own rfl

theorem restore_from_index_loadable {state : SnapshotUploadProgress × Bool}
    {e : String × SnapshotQuarantineRecord} (h : state.1.toDurable.Loadable ns now)
    (hfp : is_snapshot_fingerprint e.1 = true) (hrecord : record_is_loadable now e.2 = true) :
    (restore_from_index state e).1.toDurable.Loadable ns now := by
  unfold restore_from_index
  dsimp only
  split
  · exact h
  · apply h.with_quarantined
    intro fp record hget
    rw [get?_insert] at hget
    split at hget
    · cases hget
      rename_i heq
      refine ⟨by rw [heq]; exact hfp, restored_loadable hrecord ?_⟩
      intro own hown
      exact (h.quarantined _ own hown).2
    · exact h.quarantined fp record hget

theorem restore_all_loadable {entries : List (String × SnapshotQuarantineRecord)}
    {state : SnapshotUploadProgress × Bool} (h : state.1.toDurable.Loadable ns now)
    (hentries : ∀ e ∈ entries, is_snapshot_fingerprint e.1 = true ∧
      record_is_loadable now e.2 = true) :
    (entries.foldl restore_from_index state).1.toDurable.Loadable ns now := by
  induction entries generalizing state with
  | nil => exact h
  | cons e rest ih =>
    have he := hentries e mem_cons_self
    exact ih (restore_from_index_loadable h he.1 he.2)
      (fun e hmem => hentries e (mem_cons_of_mem _ hmem))

theorem merge_index_loadable (h : s.toDurable.Loadable ns now)
    {other : SortedMap String SnapshotQuarantineRecord}
    (hother : ∀ fp record, other.get? fp = some record → record_is_loadable now record = true) :
    (s.merge_index other).1.toDurable.Loadable ns now := by
  apply h.with_quarantined
  intro fp record hget
  rw [get?_merge_maps] at hget
  obtain ⟨old, hold, rfl⟩ := map_eq_some_iff.mp hget
  refine ⟨(h.quarantined fp old hold).1, ?_⟩
  split
  · rename_i found hfound
    exact merge_claims_loadable (h.quarantined fp old hold).2 (hother fp found hfound)
  · exact (h.quarantined fp old hold).2

/-- What an index brings to a cycle. -/
def IsIndexQuarantine (now : Nat) (index : SortedMap String SnapshotQuarantineRecord) : Prop :=
  ∀ fp record, index.get? fp = some record →
    is_snapshot_fingerprint fp = true ∧ record_is_loadable now record = true

theorem restore_quarantines_loadable (h : s.toDurable.Loadable ns now)
    {index : SortedMap String SnapshotQuarantineRecord} (hindex : IsIndexQuarantine now index) :
    (s.restore_quarantines index).1.toDurable.Loadable ns now := by
  have hown : s.reset_cycle.drop_accepted.toDurable.Loadable ns now :=
    drop_accepted_loadable (s := s.reset_cycle) h
  have hbrought := @restore_all_loadable _ _ index.entries
    (s.reset_cycle.drop_accepted, s.terminal_contract_retry_pending_save) hown
    (fun e he => hindex e.1 e.2 (mem_entries.mp he))
  have hmerged := merge_index_loadable hbrought (fun fp record hget => (hindex fp record hget).2)
  apply map_quarantine_loadable
  · apply map_quarantine_loadable
    · apply map_quarantine_loadable hmerged
      intro fp record hrecord
      split
      · exact terminal_loadable hrecord
      · exact hrecord
    · intro fp record hrecord
      split
      · exact terminal_loadable hrecord
      · exact hrecord
  · intro fp record hrecord
    split <;> exact hrecord

end SnapshotUploadProgress

end ottto_service.snapshot_sync
