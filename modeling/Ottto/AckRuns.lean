-- Recoveries of the ACK handoff that crash, and new ACKs between them: each of the two
-- files is saved as a whole, so a crash leaves what one of the saves wrote.
import Ottto.AckRecovery
import Ottto.LedgerRuns

namespace ottto_service.snapshots

/-! ## A save of the index -/

/-- What a save changes of an index: the server's verdicts and the generation. -/
def ScanIndex.SavedAs (index saved : ScanIndex) : Prop :=
  index.persistence_available = true ∧ ∃ accepted quarantined, saved = { index with
    accepted_snapshot_fingerprints := accepted
    quarantined_snapshot_fingerprints := quarantined
    generation := index.generation + 1 }

theorem ScanIndex.save_spec {index saved : ScanIndex} {current : Option ScanIndex} {now : Nat}
    (h : index.save current now = .ok saved) : index.SavedAs saved := by
  unfold save at h
  cases havailable : index.persistence_available with
  | false => simp [havailable, bind, Except.bind] at h
  | true =>
    refine ⟨havailable, ?_⟩
    simp only [havailable, Bool.not_true, Bool.false_eq_true, if_false, bind, Except.bind] at h
    cases current with
    | none =>
      dsimp only at h
      split at h
      · cases h
      split at h
      · cases h
      · cases h
        exact ⟨_, _, rfl⟩
    | some current =>
      -- Another writer, another reading of the held keys, or a full generation: no save.
      dsimp only at h
      split at h
      · cases h
      split at h
      · cases h
      split at h
      · cases h
      split at h
      · cases h
      · cases h
        exact ⟨_, _, rfl⟩

/-- A save over the index that was loaded ends, while the generation has room. -/
theorem ScanIndex.save_completes {index current : ScanIndex} {now : Nat}
    (havailable : index.persistence_available = true)
    (hcurrent : current.persistence_available = true)
    (hgeneration : current.generation = index.generation)
    (hholds : current.decode_holds = index.decode_holds) (hroom : index.generation + 1 ≤ u64_max) :
    ∃ saved, index.save (some current) now = .ok saved := by
  have hfull : ¬ index.generation + 1 > u64_max := Nat.not_lt.mpr hroom
  simp [save, havailable, hcurrent, hgeneration, hholds, hfull, bind, Except.bind]

end ottto_service.snapshots

namespace ottto_service.snapshot_sync

open snapshots List Option SnapshotUploadProgress SortedMap Evidence ScanIndex

namespace SnapshotUploadProgress

variable {s : SnapshotUploadProgress} {index : ScanIndex} {handoff : UploadAckRetirementHandoff}
  {fp : String}

/-! ## The recovery computes its outcome -/

theorem mem_exact_bodies {bodies : SortedMap String String} :
    fp ∈ s.exact_bodies bodies ↔
      ∃ body, bodies.get? fp = some body ∧ s.accepted_body_witnesses.get? fp = some body := by
  unfold exact_bodies
  rw [List.mem_toFinset, mem_keys_iff, get?_retain, isSome_iff_exists]
  simp only [filter_eq_some_iff, beq_iff_eq]

theorem mem_saved_handoff_retirements (hown : s.own_handoff index = some handoff) :
    fp ∈ s.saved_handoff_retirements index ↔
      (Evidence.of index).forgets s.accepted_body_witnesses handoff fp = true := by
  unfold saved_handoff_retirements
  rw [hown, forgets_iff]
  dsimp only [Evidence.of]
  split
  · rename_i hunknown
    simp [hunknown]
  · rename_i hknown
    rw [Finset.mem_sdiff, Finset.mem_filter, mem_exact_bodies]
    simp only [hknown, Bool.not_eq_true, true_and, and_assoc]

theorem saved_handoff_retirements_of_none (hown : s.own_handoff index = none) :
    s.saved_handoff_retirements index = ∅ := by
  unfold saved_handoff_retirements
  rw [hown]

theorem forget_acks_left (hown : s.own_handoff index = some handoff) :
    (s.forget_acks (s.saved_handoff_retirements index)).accepted_body_witnesses =
      (Evidence.of index).left s.accepted_body_witnesses handoff := by
  apply ext_get?
  intro fp
  rw [get?_left]
  simp only [forget_acks, get?_filterKeys, decide_eq_true_eq,
    mem_saved_handoff_retirements hown]
  split_ifs <;> rfl

theorem size_exact_le {accepted bodies : SortedMap String String} :
    (exact accepted bodies).size ≤ bodies.size := length_filter_le _ _

theorem exact_eq_of_size {accepted bodies : SortedMap String String}
    (h : bodies.size ≤ (exact accepted bodies).size) : exact accepted bodies = bodies := by
  apply ext_entries
  apply filter_eq_self.mpr
  exact length_filter_eq_length_iff.mp (Nat.le_antisymm (length_filter_le _ _) h)

theorem size_pos_iff {β : Type} {m : SortedMap String β} : 0 < m.size ↔ m.isEmpty = false := by
  unfold SortedMap.size SortedMap.isEmpty
  rw [length_pos_iff, isEmpty_eq_false_iff]

/-- The handoff is written again only where it changes, and then as the outcome has it. -/
theorem pruned_handoff_spec {accepted : SortedMap String String}
    (hleft : s.accepted_body_witnesses = (Evidence.of index).left accepted handoff) :
    (s.pruned_handoff handoff).getD (some handoff) = (Evidence.of index).owed accepted handoff := by
  unfold pruned_handoff Evidence.owed
  rw [← hleft]
  dsimp only
  have hbodies : s.still_exact handoff.bodies = exact s.accepted_body_witnesses handoff.bodies := rfl
  have hpending : s.still_exact handoff.pending_bodies =
      exact s.accepted_body_witnesses handoff.pending_bodies := rfl
  rw [hbodies, hpending]
  have hle := @size_exact_le s.accepted_body_witnesses handoff.bodies
  have hle' := @size_exact_le s.accepted_body_witnesses handoff.pending_bodies
  have hcount : (exact s.accepted_body_witnesses handoff.bodies).size +
      (exact s.accepted_body_witnesses handoff.pending_bodies).size > 0 ↔
      ((exact s.accepted_body_witnesses handoff.bodies).isEmpty &&
        (exact s.accepted_body_witnesses handoff.pending_bodies).isEmpty) = false := by
    rw [Bool.and_eq_false_iff, ← size_pos_iff, ← size_pos_iff]
    omega
  by_cases hsome : (exact s.accepted_body_witnesses handoff.bodies).size +
      (exact s.accepted_body_witnesses handoff.pending_bodies).size > 0
  · have hnonempty := hcount.mp hsome
    split
    · rename_i hsame
      -- Nothing is left out, so each of the two maps is as it was.
      have hkept : exact s.accepted_body_witnesses handoff.bodies = handoff.bodies :=
        exact_eq_of_size (by omega)
      have hkept' : exact s.accepted_body_witnesses handoff.pending_bodies =
          handoff.pending_bodies :=
        exact_eq_of_size (by omega)
      rw [hkept, hkept'] at hnonempty ⊢
      simp [nonempty_handoff, hnonempty]
    · simp [nonempty_handoff, hnonempty]
  · have hempty : ((exact s.accepted_body_witnesses handoff.bodies).isEmpty &&
        (exact s.accepted_body_witnesses handoff.pending_bodies).isEmpty) = true := by
      rw [← Bool.not_eq_false, ← hcount]
      exact hsome
    simp [nonempty_handoff, hempty, hsome]

end SnapshotUploadProgress

/-! ## Ledgers and indexes that load -/

/-- A ledger and an index that load as they are, with room for `saves` more saves. -/
structure Ready (ns : String) (session_of : String → String) (now saves : Nat) (d : Durable)
    (index : ScanIndex) : Prop where
  kept : d.Kept ns session_of now
  loads : d.is_loadable now ns = true
  available : index.persistence_available = true
  own : ∀ handoff ∈ index.upload_ack_retirement_handoff,
    handoff.destination_namespace_hash = ns ∧ 0 < handoff.committed_generation ∧
      handoff.committed_generation ≤ index.generation
  progress_room : d.generation + saves ≤ u64_max
  index_room : index.generation + saves ≤ u64_max

/-- What a crash may leave: files that load, and the same outcome still to come. -/
structure Leaves (ns : String) (session_of : String → String) (now saves : Nat) (e : Evidence)
    (held : Option UploadAckRetirementHandoff)
    (outcome : SortedMap String String × Option UploadAckRetirementHandoff) (disk : Disk) :
    Prop where
  files : ∃ d index, disk = ⟨some d, some index⟩ ∧ Ready ns session_of now saves d index ∧
    Evidence.of index = e ∧
    e.outcome d.accepted_body_witnesses index.upload_ack_retirement_handoff = outcome ∧
    ∀ next ∈ index.upload_ack_retirement_handoff, ∃ handoff ∈ held, Sub next handoff

namespace Ready

variable {ns : String} {session_of : String → String} {now saves : Nat} {d : Durable}
  {index : ScanIndex}

theorem fewer {fewer : Nat} (hle : fewer ≤ saves) (h : Ready ns session_of now saves d index) :
    Ready ns session_of now fewer d index :=
  { h with
    progress_room := (Nat.add_le_add_left hle _).trans h.progress_room
    index_room := (Nat.add_le_add_left hle _).trans h.index_room }

theorem later {later : Nat} (hle : now ≤ later) (h : Ready ns session_of now saves d index) :
    Ready ns session_of later saves d index :=
  { h with kept := h.kept.later hle, loads := Durable.is_loadable_later hle h.loads }

end Ready

namespace SnapshotUploadProgress

variable {ns : String} {session_of : String → String} {now : Nat} {s : SnapshotUploadProgress}
  {d : Durable}

/-- The save of the ledger that was loaded ends, while the generation has room. -/
theorem save_completes (hs : s.toDurable.Kept ns session_of now) (hd : d.Kept ns session_of now)
    (hgeneration : d.generation = s.generation) (hroom : s.generation + 1 ≤ u64_max) :
    ∃ saved, s.save (some d) = .ok saved ∧
      saved.accepted_body_witnesses = s.accepted_body_witnesses ∧
      saved.generation ≤ s.generation + 1 := by
  have hwriter : s.same_writer d = true := by
    simp only [same_writer, hd.loadable.schema, hgeneration, hd.loadable.destination,
      hs.loadable.destination, beq_self_eq_true, Bool.and_self]
  have hfull : ¬ s.generation + 1 > u64_max := Nat.not_lt.mpr hroom
  unfold save
  simp only [hwriter, Bool.not_true, Bool.false_eq_true, if_false]
  split
  · exact ⟨_, rfl, rfl, Nat.le_succ _⟩
  · refine ⟨{ (s.retain_contexts.merge_index d.quarantined_fingerprints).1 with
      generation := s.generation + 1 }, ?_, rfl, le_rfl⟩
    exact if_neg hfull

theorem own_handoff_of_ready {saves : Nat} {index : ScanIndex}
    (h : Ready ns session_of now saves d index) (hs : s.destination_namespace_hash = ns) :
    s.own_handoff index = index.upload_ack_retirement_handoff := by
  unfold own_handoff
  cases hhandoff : index.upload_ack_retirement_handoff with
  | none => rfl
  | some handoff =>
    obtain ⟨hdest, hcommitted, hgeneration⟩ := h.own handoff hhandoff
    simp [hdest, hs, hcommitted, hgeneration]

end SnapshotUploadProgress

namespace Recovering

open SnapshotUploadProgress

variable {ns : String} {session_of : String → String} {now saves : Nat} {d : Durable}
  {index : ScanIndex}

/-! ## One recovery -/

/-- The ledger of a start saved over the files that it loaded. -/
theorem save_progress_ready {r : Recovering}
    (hready : Ready ns session_of now (saves + 1) d index)
    (hdisk : r.disks = [⟨some d, some index⟩])
    (hs : r.progress.toDurable.Kept ns session_of now)
    (hgeneration : r.progress.generation = d.generation) :
    ∃ saved, r.save_progress = .ok { r with
        progress := saved, disks := [⟨some saved.toDurable, some index⟩, ⟨some d, some index⟩] } ∧
      saved.toDurable.Kept ns session_of now ∧
      saved.accepted_body_witnesses = r.progress.accepted_body_witnesses ∧
      Ready ns session_of now saves saved.toDurable index := by
  have hroom : r.progress.generation + 1 ≤ u64_max := by
    have := hready.progress_room
    omega
  obtain ⟨saved, hsaved, hsame, hnext⟩ :=
    save_completes hs hready.kept hgeneration.symm hroom
  have hns : is_snapshot_fingerprint ns = true := by
    have hloads := hready.loads
    unfold Durable.is_loadable at hloads
    simp only [Bool.and_eq_true, beq_iff_eq] at hloads
    obtain ⟨⟨⟨⟨⟨⟨⟨⟨⟨⟨⟨⟨-, hdest⟩, hns⟩, -⟩, -⟩, -⟩, -⟩, -⟩, -⟩, -⟩, -⟩, -⟩, -⟩ := hloads
    rwa [hdest] at hns
  obtain ⟨hkept, hloads⟩ := save_kept hs
    (fun found hfound => by cases hfound; exact hready.kept) hsaved hns
  refine ⟨saved, ?_, hkept, hsame, ?_⟩
  · unfold save_progress disk
    rw [hdisk]
    simp only [headD_cons, hsaved]
  · have hprogress := hready.progress_room
    have hindex := hready.index_room
    exact ⟨hkept, hloads, hready.available, hready.own, by omega, by omega⟩

/-- The index saved too: the recovery is over. -/
theorem save_index_leaves {r : Recovering} {handoff : UploadAckRetirementHandoff}
    (hready : Ready ns session_of now (saves + 1) d index)
    (hhandoff : index.upload_ack_retirement_handoff = some handoff) {saved : Durable}
    (hsaved : Ready ns session_of now saves saved index)
    (hleft : saved.accepted_body_witnesses =
      (Evidence.of index).left d.accepted_body_witnesses handoff)
    (hdisk : r.disk = ⟨some saved, some index⟩) (hindex : r.saved = index) :
    ∃ index', { r with saved := { r.saved with
          upload_ack_retirement_handoff :=
            (Evidence.of index).owed d.accepted_body_witnesses handoff } }.save_index now =
        .ok { r with saved := index', disks := ⟨some saved, some index'⟩ :: r.disks } ∧
      index'.upload_ack_retirement_handoff =
        (Evidence.of index).owed d.accepted_body_witnesses handoff ∧
      Leaves ns session_of now saves (Evidence.of index) (some handoff)
        ((Evidence.of index).outcome d.accepted_body_witnesses (some handoff))
        ⟨some saved, some index'⟩ := by
  subst hindex
  have hroom := hready.index_room
  obtain ⟨index', hindex'⟩ := @ScanIndex.save_completes
    { r.saved with
      upload_ack_retirement_handoff :=
        (Evidence.of r.saved).owed d.accepted_body_witnesses handoff }
    r.saved now hready.available hready.available rfl rfl (by
      change r.saved.generation + 1 ≤ u64_max
      omega)
  obtain ⟨-, accepted, quarantined, heq⟩ := save_spec hindex'
  have hsaved_handoff : index'.upload_ack_retirement_handoff =
      (Evidence.of r.saved).owed d.accepted_body_witnesses handoff := by rw [heq]
  have hevidence : Evidence.of index' = Evidence.of r.saved := by
    rw [heq]
    rfl
  refine ⟨index', ?_, hsaved_handoff, ⟨⟨saved, index', rfl, ?_, hevidence, ?_, ?_⟩⟩⟩
  · have hcurrent : ({ r with saved := { r.saved with
          upload_ack_retirement_handoff :=
            (Evidence.of r.saved).owed d.accepted_body_witnesses handoff } } : Recovering).disk =
        ⟨some saved, some r.saved⟩ := hdisk
    unfold save_index
    rw [hcurrent]
    simp only [hindex']
  · have hnext : index'.generation = r.saved.generation + 1 := by rw [heq]
    refine ⟨hsaved.kept, hsaved.loads, ?_, ?_, hsaved.progress_room, by omega⟩
    · rw [heq]
      exact hready.available
    · intro next howed
      rw [hsaved_handoff] at howed
      obtain rfl := nonempty_handoff_eq howed
      obtain ⟨hdest, hcommitted, hgeneration⟩ := hready.own handoff hhandoff
      exact ⟨hdest, hcommitted, hgeneration.trans (by omega)⟩
  · rw [hleft, hsaved_handoff]
    exact outcome_recovered
  · intro next hnext
    rw [hsaved_handoff] at hnext
    exact ⟨handoff, rfl, owed_sub hnext⟩

/-- A recovery ended with the outcome of the disk that it started on, and every disk that it left on
the way has the same outcome still to come. -/
structure Recovered (ns : String) (session_of : String → String) (now saves : Nat) (d : Durable)
    (index : ScanIndex) (held : Option UploadAckRetirementHandoff) (r : Recovering) : Prop where
  kept : r.progress.toDurable.Kept ns session_of now
  outcome : (r.progress.accepted_body_witnesses, r.saved.upload_ack_retirement_handoff) =
    (Evidence.of index).outcome d.accepted_body_witnesses held
  disks : r.disks ≠ []
  leaves : ∀ disk ∈ r.disks, Leaves ns session_of now saves (Evidence.of index) held
    ((Evidence.of index).outcome d.accepted_body_witnesses held) disk

variable {s : SnapshotUploadProgress} {held : Option UploadAckRetirementHandoff}
  {handoff : UploadAckRetirementHandoff}

/-- A disk of these ACKs has the outcome of the one that the recovery started on. -/
theorem leaves_ready {d' : Durable} (hheld : index.upload_ack_retirement_handoff = held)
    (hready : Ready ns session_of now saves d' index)
    (hsame : (Evidence.of index).outcome d'.accepted_body_witnesses held =
      (Evidence.of index).outcome d.accepted_body_witnesses held) :
    Leaves ns session_of now saves (Evidence.of index) held
      ((Evidence.of index).outcome d.accepted_body_witnesses held) ⟨some d', some index⟩ :=
  ⟨d', index, rfl, hready, rfl, by rw [hheld, hsame], fun next hnext =>
    ⟨next, by rw [← hheld]; exact hnext, .refl⟩⟩

/-- Without a handoff nothing is forgotten and nothing is saved. -/
theorem recover_nothing (hheld : index.upload_ack_retirement_handoff = none)
    (hready : Ready ns session_of now (saves + 1) d index)
    (hs : s.toDurable.Kept ns session_of now)
    (haccepted : s.accepted_body_witnesses = d.accepted_body_witnesses) :
    ∃ r, recover_ack_retirement_handoff ⟨s, index, [⟨some d, some index⟩]⟩ now = .ok r ∧
      Recovered ns session_of now saves d index none r := by
  have hforgotten : (s.forget_acks (s.saved_handoff_retirements index)).toDurable.Kept ns session_of
      now := forget_acks_kept hs
  have hown := own_handoff_of_ready hready hs.loadable.destination
  have hown' := own_handoff_of_ready hready hforgotten.loadable.destination
  rw [hheld] at hown hown'
  have hnone := saved_handoff_retirements_of_none hown
  have hremoved : s.accepted_body_witnesses.filterKeys
      (fun fp => decide (fp ∈ s.saved_handoff_retirements index)) = .empty := by
    apply ext_get?
    intro fp
    simp [get?_filterKeys, hnone]
  have hsame : (s.forget_acks (s.saved_handoff_retirements index)).accepted_body_witnesses =
      d.accepted_body_witnesses := by
    rw [← haccepted]
    apply ext_get?
    intro fp
    simp [forget_acks, get?_filterKeys, hnone]
  refine ⟨⟨s.forget_acks (s.saved_handoff_retirements index), index, [⟨some d, some index⟩]⟩, ?_,
    hforgotten, ?_, by simp, ?_⟩
  · unfold recover_ack_retirement_handoff
    simp only [hremoved, SortedMap.isEmpty, entries_empty, isEmpty_nil, if_true,
      bind, Except.bind, hown']
  · rw [hsame, hheld]
    rfl
  · intro disk hdisk
    rw [mem_singleton.mp hdisk]
    exact leaves_ready hheld (hready.fewer (Nat.le_succ _)) rfl

/-- With a handoff the ACKs go, and then what is left of the handoff is saved. -/
theorem recover_handoff (hheld : index.upload_ack_retirement_handoff = some handoff)
    (hready : Ready ns session_of now (saves + 1) d index)
    (hs : s.toDurable.Kept ns session_of now) (hgeneration : s.generation = d.generation)
    (haccepted : s.accepted_body_witnesses = d.accepted_body_witnesses) :
    ∃ r, recover_ack_retirement_handoff ⟨s, index, [⟨some d, some index⟩]⟩ now = .ok r ∧
      Recovered ns session_of now saves d index (some handoff) r := by
  have hforgotten : (s.forget_acks (s.saved_handoff_retirements index)).toDurable.Kept ns session_of
      now := forget_acks_kept hs
  have hown := own_handoff_of_ready hready hs.loadable.destination
  have hown' := own_handoff_of_ready hready hforgotten.loadable.destination
  rw [hheld] at hown hown'
  have hleft := forget_acks_left hown
  rw [haccepted] at hleft
  generalize htaken : s.forget_acks (s.saved_handoff_retirements index) = taken at *
  have htaken_generation : taken.generation = d.generation := by
    rw [← htaken]
    exact hgeneration
  obtain ⟨saved, hsave, hkept, hsaved_taken, hsaved⟩ := save_progress_ready
    (r := ⟨taken, index, [⟨some d, some index⟩]⟩) hready rfl hforgotten htaken_generation
  have hsaved_left := hsaved_taken.trans hleft
  have hsaved_own : saved.own_handoff index = some handoff := by
    rw [own_handoff_of_ready hready hkept.loadable.destination, hheld]
  obtain ⟨index', hsave_index, hcleared, hover⟩ := save_index_leaves
    (r := ⟨saved, index, [⟨some saved.toDurable, some index⟩, ⟨some d, some index⟩]⟩)
    hready hheld hsaved hsaved_left rfl rfl
  have hstart := leaves_ready (d := d) hheld (hready.fewer (Nat.le_succ _)) rfl
  have hbetween := leaves_ready (d := d) hheld hsaved (by
    rw [hsaved_left]
    exact outcome_forgotten)
  have howed := pruned_handoff_spec hleft
  have hsaved_owed := pruned_handoff_spec hsaved_left
  have hdone : Recovered ns session_of now saves d index (some handoff)
      ⟨saved, index', [⟨some saved.toDurable, some index'⟩, ⟨some saved.toDurable, some index⟩,
        ⟨some d, some index⟩]⟩ := by
    refine ⟨hkept, ?_, by simp, ?_⟩
    · rw [hsaved_left, hcleared]
      rfl
    · simp only [forall_mem_cons]
      exact ⟨hover, hbetween, hstart, by simp⟩
  unfold recover_ack_retirement_handoff
  simp only [htaken]
  by_cases hremoved : (s.accepted_body_witnesses.filterKeys
      (fun fp => decide (fp ∈ s.saved_handoff_retirements index))).isEmpty = true
  · simp only [hremoved, if_true, bind, Except.bind, hown']
    cases hpruned : taken.pruned_handoff handoff with
    | none =>
      rw [hpruned] at howed
      refine ⟨_, rfl, hforgotten, ?_, by simp, ?_⟩
      · rw [hleft, hheld]
        exact congrArg (Prod.mk _) howed
      · intro disk hdisk
        rw [mem_singleton.mp hdisk]
        exact hstart
    | some pruned =>
      rw [hpruned, getD_some] at howed
      simp only [hsave, howed, hsave_index]
      exact ⟨_, rfl, hdone⟩
  · simp only [hremoved, if_false, bind, Except.bind, hsave, hsaved_own, Bool.false_eq_true]
    cases hpruned : saved.pruned_handoff handoff with
    | none =>
      rw [hpruned] at hsaved_owed
      refine ⟨_, rfl, hkept, ?_, by simp, ?_⟩
      · rw [hsaved_left, hheld]
        exact congrArg (Prod.mk _) hsaved_owed
      · simp only [forall_mem_cons]
        exact ⟨hbetween, hstart, by simp⟩
    | some pruned =>
      rw [hpruned, getD_some] at hsaved_owed
      simp only [hsaved_owed, hsave_index]
      exact ⟨_, rfl, hdone⟩

theorem recover_spec (hready : Ready ns session_of now (saves + 1) d index)
    (hs : s.toDurable.Kept ns session_of now) (hgeneration : s.generation = d.generation)
    (haccepted : s.accepted_body_witnesses = d.accepted_body_witnesses) :
    ∃ r, recover_ack_retirement_handoff ⟨s, index, [⟨some d, some index⟩]⟩ now = .ok r ∧
      Recovered ns session_of now saves d index index.upload_ack_retirement_handoff r := by
  cases hheld : index.upload_ack_retirement_handoff with
  | none => exact recover_nothing hheld hready hs haccepted
  | some handoff => exact recover_handoff hheld hready hs hgeneration haccepted

end Recovering

/-! ## Crashes and new ACKs -/

/-- A start of the process. -/
structure Boot where
  now : Nat
  active_quarantine_witness : SnapshotQuarantineWitness
  ack_recovery : Bool

/-- What may stand between a save of the index and the recovery that ends: a recovery that
crashes after some of its saves, or an ACK that a start records and saves. -/
inductive RecoveryEvent where
  | crash (boot : Boot) (saves : Nat)
  | accept (boot : Boot) (fingerprint body : String)

def RecoveryEvent.boot : RecoveryEvent → Boot
  | .crash boot _ => boot
  | .accept boot _ _ => boot

namespace Disk

/-- The ledger and the index as a start loads them. -/
def boot (ns : String) (disk : Disk) (boot : Boot) : Recovering :=
  let (progress, left) := load_with_recovery disk.progress ns
    boot.active_quarantine_witness boot.ack_recovery boot.now
  { progress, saved := disk.index.getD {}, disks := [{ disk with progress := left }] }

def recovered (ns : String) (disk : Disk) (boot : Boot) : Except (List Disk) Recovering :=
  (disk.boot ns boot).recover_ack_retirement_handoff boot.now

/-- The disks of a recovery, the first one first. -/
def written : Except (List Disk) Recovering → List Disk
  | .ok r => r.disks.reverse
  | .error disks => disks.reverse

def step (ns : String) (disk : Disk) : RecoveryEvent → Disk
  | .crash boot saves =>
    let disks := written (disk.recovered ns boot)
    disks.getD saves (disks.getLastD disk)
  | .accept boot fingerprint body =>
    let r := disk.boot ns boot
    match { r with progress := r.progress.record_body fingerprint body }.save_progress with
    | .ok r => r.disk
    | .error disks => disks.headD disk

end Disk

/-- The ACK of an event, over what a recovery comes to. -/
def accepted_again (outcome : SortedMap String String × Option UploadAckRetirementHandoff) :
    RecoveryEvent → SortedMap String String × Option UploadAckRetirementHandoff
  | .crash _ _ => outcome
  | .accept _ fingerprint body =>
    (outcome.1.insert fingerprint body, outcome.2.bind (without fingerprint))

/-- The ACK of an event is of a body other than the one handed off. -/
def RecoveryEvent.Valid (held : Option UploadAckRetirementHandoff) : RecoveryEvent → Prop
  | .crash _ _ => True
  | .accept _ fingerprint body =>
    is_snapshot_fingerprint fingerprint = true ∧ is_snapshot_fingerprint body = true ∧
      ∀ handoff ∈ held, Differs handoff fingerprint body

/-- Starts at readings of a clock that does not run backwards, up to the last one. -/
def ValidStarts (held : Option UploadAckRetirementHandoff) (last : Boot) :
    Nat → List RecoveryEvent → Prop
  | now, [] => now ≤ last.now
  | now, e :: rest => now ≤ e.boot.now ∧ e.Valid held ∧ ValidStarts held last e.boot.now rest

namespace Disk

open SnapshotUploadProgress

variable {ns : String} {session_of : String → String} {now saves : Nat} {e : Evidence}
  {held : Option UploadAckRetirementHandoff}
  {outcome : SortedMap String String × Option UploadAckRetirementHandoff}

theorem boot_of_ready {d : Durable} {index : ScanIndex} {start : Boot}
    (h : Ready ns session_of start.now saves d index) :
    (⟨some d, some index⟩ : Disk).boot ns start =
      ⟨resume d start.active_quarantine_witness start.now start.ack_recovery, index,
        [⟨some d, some index⟩]⟩ := by
  simp only [boot, load_with_recovery, h.loads, if_true, getD_some]

variable {disk : Disk}

/-- Whatever a crash leaves, a recovery of it ends, with the same outcome. -/
theorem recovered_of_leaves {start : Boot}
    (h : Leaves ns session_of now (saves + 1) e held outcome disk) (hle : now ≤ start.now) :
    ∃ r, disk.recovered ns start = .ok r ∧ r.progress.toDurable.Kept ns session_of start.now ∧
      (r.progress.accepted_body_witnesses, r.saved.upload_ack_retirement_handoff) = outcome ∧
      r.disks ≠ [] ∧
      ∀ disk ∈ r.disks, Leaves ns session_of start.now saves e held outcome disk := by
  obtain ⟨d, index, rfl, hready, rfl, rfl, hsub⟩ := h
  have hnow := hready.later hle
  obtain ⟨r, hr, hkept, hcomes, hnonempty, hdisks⟩ := Recovering.recover_spec hnow
    (resume_kept hnow.kept) rfl rfl
  refine ⟨r, ?_, hkept, hcomes, hnonempty, ?_⟩
  · unfold recovered
    rw [boot_of_ready hnow]
    exact hr
  · intro disk hdisk
    obtain ⟨d', index', hfiles, hready', hevidence, houtcome, hsub'⟩ := hdisks disk hdisk
    refine ⟨d', index', hfiles, hready', hevidence, houtcome, ?_⟩
    intro next hnext
    obtain ⟨between, hbetween, hfirst⟩ := hsub' next hnext
    obtain ⟨handoff, hhandoff, hsecond⟩ := hsub between hbetween
    exact ⟨handoff, hhandoff, hfirst.trans hsecond⟩

theorem getD_getLastD_mem {disks : List Disk} {other : Disk} (n : Nat) (h : disks ≠ []) :
    disks.getD n (disks.getLastD other) ∈ disks := by
  rw [getD_eq_getElem?_getD]
  cases hn : disks[n]? with
  | some disk => exact mem_of_getElem? hn
  | none =>
    rw [getLastD_eq_getLast?, List.getLast?_eq_some_getLast h]
    exact getLast_mem h

theorem step_leaves {event : RecoveryEvent}
    (h : Leaves ns session_of now (saves + 1) e held outcome disk) (hle : now ≤ event.boot.now)
    (hevent : event.Valid held) :
    Leaves ns session_of event.boot.now saves e held (accepted_again outcome event)
      (disk.step ns event) := by
  cases event with
  | crash start n =>
    change now ≤ start.now at hle
    obtain ⟨r, hr, -, -, hnonempty, hdisks⟩ := recovered_of_leaves h hle
    apply hdisks
    change (written (disk.recovered ns start)).getD n ((written (disk.recovered ns start)).getLastD
      disk) ∈ r.disks
    rw [hr]
    exact mem_reverse.mp (getD_getLastD_mem n (reverse_ne_nil_iff.mpr hnonempty))
  | accept start fingerprint body =>
    change now ≤ start.now at hle
    obtain ⟨hfp, hbody, hdiffers⟩ := hevent
    obtain ⟨d, index, rfl, hready, rfl, rfl, hsub⟩ := h
    have hnow := hready.later hle
    have hresumed : (resume d start.active_quarantine_witness start.now
        start.ack_recovery).toDurable.Kept ns session_of start.now := resume_kept hnow.kept
    have hrecorded := record_body_kept hresumed hfp hbody
    obtain ⟨saved, hsave, -, hsame, hsaved⟩ := Recovering.save_progress_ready
      (r := ⟨(resume d start.active_quarantine_witness start.now start.ack_recovery).record_body
        fingerprint body, index, [⟨some d, some index⟩]⟩) hnow rfl hrecorded rfl
    have hstep : (⟨some d, some index⟩ : Disk).step ns (.accept start fingerprint body) =
        ⟨some saved.toDurable, some index⟩ := by
      simp only [step]
      rw [boot_of_ready hnow, hsave]
      rfl
    rw [hstep]
    refine ⟨saved.toDurable, index, rfl, hsaved, rfl, ?_, hsub⟩
    rw [hsame]
    apply outcome_insert
    intro next hnext
    obtain ⟨handoff, hhandoff, hnext_sub⟩ := hsub next hnext
    exact (hdiffers handoff hhandoff).of_sub hnext_sub

/-- After any crashes and new ACKs, a recovery ends with the outcome of the first files,
and the new ACKs written over it. -/
theorem run_recovers {events : List RecoveryEvent} {last : Boot}
    (h : Leaves ns session_of now (events.length + 1) e held outcome disk)
    (hstarts : ValidStarts held last now events) :
    ∃ r, (events.foldl (Disk.step ns) disk).recovered ns last = .ok r ∧
      r.progress.toDurable.Kept ns session_of last.now ∧
      (r.progress.accepted_body_witnesses, r.saved.upload_ack_retirement_handoff) =
        events.foldl accepted_again outcome := by
  induction events generalizing now disk outcome with
  | nil =>
    obtain ⟨r, hr, hkept, hcomes, -⟩ := recovered_of_leaves h hstarts
    exact ⟨r, hr, hkept, hcomes⟩
  | cons event rest ih =>
    obtain ⟨hle, hevent, hrest⟩ := hstarts
    exact ih (step_leaves h hle hevent) hrest

end Disk

/-! ## What a settled save forgets -/

/-- The saved index took over the accepted body: a file of it records exactly the accepted
bodies of its entities, and all of them as accepted. -/
def AdoptedBy (saved : ScanIndex) (accepted : SortedMap String String) (fp : String) : Prop :=
  ∃ key set entry, saved.file_snapshot_fingerprints.get? key = some set ∧ fp ∈ set ∧
    saved.files.get? key = some entry ∧ saved.decode_holds_file key = false ∧
    (∀ member ∈ set, accepted.contains member = true ∧
      saved.accepted_snapshot_fingerprint_recorded member = true) ∧
    entry.last_upload_body_witness = some (snapshot_file_upload_body_set_hex
      (set.image (fun member => (accepted.get? member).getD "")))

theorem adopted_by_of_mem {saved : ScanIndex} {accepted : SortedMap String String} {fp : String}
    (h : fp ∈ saved.adopted_upload_progress_acks accepted) : AdoptedBy saved accepted fp := by
  obtain ⟨key, set, hkept, hfp⟩ := mem_members.mp h
  rw [get?_retain] at hkept
  obtain ⟨hset, hadopts⟩ := filter_eq_some_iff.mp hkept
  simp only [adopts_file, Bool.and_eq_true, Bool.not_eq_true', decide_eq_true_eq,
    Option.any_eq_true, beq_iff_eq] at hadopts
  obtain ⟨⟨-, hheld⟩, witness, hwitness, hmembers, hexact⟩ := hadopts
  obtain ⟨entry, hentry, hlast⟩ := bind_eq_some_iff.mp hwitness
  exact ⟨key, set, entry, hset, hfp, hentry, hheld, hmembers, by rw [hlast, hexact]⟩

namespace SnapshotUploadProgress

variable {s : SnapshotUploadProgress} {previous scanned selected staged saved : ScanIndex}
  {scan_referenced : AckScanReferences} {locally_held census_absent : Finset String} {fp : String}

/-- A staged handoff is of this ledger, and hands off no obligation that is held, unknown,
or still referenced. -/
theorem stage_spec (h : s.stage_ack_retirement_handoff_with_scan previous selected scan_referenced
      locally_held census_absent = .ok staged) :
    ∃ held, staged = { selected with upload_ack_retirement_handoff := held } ∧
      ∀ handoff ∈ held, handoff.destination_namespace_hash = s.destination_namespace_hash ∧
        handoff.committed_generation = selected.generation + 1 ∧
        ∀ fp body, handoff.bodies.get? fp = some body →
          fp ∈ s.retirement_obligations previous ∪ census_absent ∧
            is_pending_retirement selected scan_referenced locally_held fp = false ∧
            fp ∉ selected.upload_progress_ack_incidence := by
  unfold stage_ack_retirement_handoff_with_scan at h
  dsimp only at h
  split at h
  · cases h
    exact ⟨none, rfl, by simp⟩
  split at h
  · cases h
  · cases h
    refine ⟨_, rfl, ?_⟩
    intro handoff hhandoff
    cases hhandoff
    refine ⟨rfl, rfl, ?_⟩
    intro fp body hget
    unfold bodies_of at hget
    rw [get?_filterKeys] at hget
    split at hget
    · rename_i hmem
      rw [decide_eq_true_eq, Finset.mem_filter] at hmem
      exact hmem
    · cases hget

/-- An obligation that the scan does not reference is not in its incidence. -/
theorem not_scanned_of_obligation (h : fp ∈ s.retirement_obligations previous)
    (hnot : fp ∉ s.ack_retirement_scan_references previous scanned) :
    fp ∉ scanned.upload_progress_ack_incidence := by
  intro hscanned
  apply hnot
  exact Finset.mem_filter.mpr ⟨hscanned, h⟩

theorem not_scanned_of_census {census_complete : Bool}
    (h : fp ∈ s.complete_census_ack_retirements scanned census_complete) :
    fp ∉ scanned.upload_progress_ack_incidence := by
  unfold complete_census_ack_retirements at h
  split at h
  · exact absurd h (Finset.notMem_empty fp)
  · exact (Finset.mem_sdiff.mp h).2

theorem committed_is_obligation (h : fp ∈ s.committed_incidence_retirements previous selected) :
    fp ∈ s.retirement_obligations previous ∧ fp ∉ selected.upload_progress_ack_incidence := by
  unfold committed_incidence_retirements at h
  split at h
  · exact absurd h (Finset.notMem_empty fp)
  · rename_i hknown
    rw [not_or] at hknown
    simp only [Finset.mem_filter, Finset.mem_sdiff] at h
    obtain ⟨⟨⟨hprevious, haccepted⟩, hselected⟩, -⟩ := h
    refine ⟨?_, hselected⟩
    unfold retirement_obligations
    rw [if_pos (Nat.pos_of_ne_zero hknown.1)]
    exact Finset.mem_union_right _ (Finset.mem_filter.mpr ⟨hprevious, haccepted⟩)

/-- A saved handoff forgets no entity that the saved index or the scan still has. -/
theorem saved_handoff_is_absent {census_complete : Bool}
    (hstage : s.stage_ack_retirement_handoff_with_scan previous selected
      (s.ack_retirement_scan_references previous scanned) locally_held
      (s.complete_census_ack_retirements scanned census_complete) = .ok staged)
    (hsaved : staged.SavedAs saved) (hfp : fp ∈ s.saved_handoff_retirements saved) :
    fp ∉ saved.upload_progress_ack_incidence ∧ fp ∉ scanned.upload_progress_ack_incidence := by
  obtain ⟨held, rfl, hheld⟩ := stage_spec hstage
  obtain ⟨-, accepted, quarantined, hsame⟩ := hsaved
  cases hown : s.own_handoff saved with
  | none =>
    rw [saved_handoff_retirements_of_none hown] at hfp
    exact absurd hfp (Finset.notMem_empty fp)
  | some handoff =>
    obtain ⟨-, ⟨body, hbody, -⟩, -, habsent⟩ :=
      forgets_iff.mp ((mem_saved_handoff_retirements hown).mp hfp)
    have hstaged : saved.upload_ack_retirement_handoff = held := by rw [hsame]
    have hhandoff : handoff ∈ held := by
      rw [← hstaged]
      exact (filter_eq_some_iff.mp hown).1
    obtain ⟨hcandidate, hpending, hselected⟩ := (hheld handoff hhandoff).2.2 fp body hbody
    have hnot : fp ∉ s.ack_retirement_scan_references previous scanned := by
      intro hreferenced
      simp [is_pending_retirement, hreferenced, hselected] at hpending
    refine ⟨habsent, ?_⟩
    rcases Finset.mem_union.mp hcandidate with hobligation | hcensus
    · exact not_scanned_of_obligation hobligation hnot
    · exact not_scanned_of_census hcensus

end SnapshotUploadProgress

theorem stage_selected_spec {s : SnapshotUploadProgress} {previous selected staged : ScanIndex}
    {scan_referenced : AckScanReferences} {plan : AckRetirementPlan}
    {locally_held census_absent : Finset String}
    (h : s.stage_selected_ack_retirement previous selected scan_referenced locally_held
      census_absent = .ok (staged, plan)) :
    s.stage_ack_retirement_handoff_with_scan previous selected scan_referenced locally_held
        census_absent = .ok staged ∧
      plan = s.committed_incidence_retirements previous staged \ scan_referenced := by
  unfold stage_selected_ack_retirement at h
  cases hstaged : s.stage_ack_retirement_handoff_with_scan previous selected scan_referenced
      locally_held census_absent with
  | error error =>
    rw [hstaged] at h
    cases h
  | ok index =>
    rw [hstaged] at h
    cases h
    exact ⟨rfl, rfl⟩

/-- The last body that the starts accepted for an entity. -/
def last_accepted (fp : String) : List RecoveryEvent → Option String
  | [] => none
  | .crash _ _ :: rest => last_accepted fp rest
  | .accept _ fingerprint body :: rest =>
    (last_accepted fp rest).or (if fingerprint = fp then some body else none)

theorem get?_accepted_again {events : List RecoveryEvent}
    {outcome : SortedMap String String × Option UploadAckRetirementHandoff} {fp : String} :
    (events.foldl accepted_again outcome).1.get? fp =
      (last_accepted fp events).or (outcome.1.get? fp) := by
  induction events generalizing outcome with
  | nil => rfl
  | cons event rest ih =>
    rw [foldl_cons, ih]
    cases event with
    | crash boot saves => rfl
    | accept boot fingerprint body =>
      simp only [accepted_again, last_accepted, get?_insert]
      cases last_accepted fp rest with
      | some found => rfl
      | none =>
        by_cases heq : fp = fingerprint
        · simp [heq]
        · simp [heq, Ne.symm heq]

/-- A settled save forgets an ACK only where its body is adopted or its entity is gone, and
a recovery ends the same however often it crashed: with what one start forgets and hands
on, under the bodies accepted since. -/
theorem an_ack_is_forgotten_only_when_it_is_safe {s : SnapshotUploadProgress}
    {previous scanned selected staged saved : ScanIndex} {current : Option ScanIndex}
    {plan : AckRetirementPlan} {locally_held : Finset String} {census_complete : Bool}
    {saved_at : Nat}
    (hacks : ∀ fp, fp ∈ s.accepted_fingerprints ↔ s.accepted_body_witnesses.contains fp = true)
    (hstage : s.stage_selected_ack_retirement previous selected
      (s.ack_retirement_scan_references previous scanned) locally_held
      (s.complete_census_ack_retirements scanned census_complete) = .ok (staged, plan))
    (hsave : staged.save current saved_at = .ok saved) :
    (∀ fp ∈ s.accepted_fingerprints,
      fp ∉ (s.retire_planned_acks_after_index_save saved (s.add_saved_handoff_retirements plan saved)
        locally_held).accepted_fingerprints →
      fp ∉ locally_held ∧ saved.decode_holds_entity fp = false ∧
        (AdoptedBy saved s.accepted_body_witnesses fp ∨
          saved.upload_progress_ack_incidence_unknown = false ∧
            fp ∉ saved.upload_progress_ack_incidence ∧
            fp ∉ scanned.upload_progress_ack_incidence)) ∧
    ∀ (session_of : String → String) (d : Durable) (now : Nat) (events : List RecoveryEvent)
      (first last : Boot),
      d.Kept s.destination_namespace_hash session_of now →
      d.is_loadable now s.destination_namespace_hash = true →
      d.generation + (events.length + 1) ≤ u64_max →
      saved.generation + (events.length + 1) ≤ u64_max →
      now ≤ first.now → ValidStarts saved.upload_ack_retirement_handoff last now events →
      ∃ r₀ r : Recovering,
        (⟨some d, some saved⟩ : Disk).recovered s.destination_namespace_hash first = .ok r₀ ∧
        (events.foldl (Disk.step s.destination_namespace_hash) ⟨some d, some saved⟩).recovered
          s.destination_namespace_hash last = .ok r ∧
        (∀ fp, r.progress.accepted_body_witnesses.get? fp =
          (last_accepted fp events).or (r₀.progress.accepted_body_witnesses.get? fp)) ∧
        (∀ fp, fp ∈ r.progress.accepted_fingerprints ↔
          (last_accepted fp events).isSome ∨ fp ∈ r₀.progress.accepted_fingerprints) ∧
        r.saved.upload_ack_retirement_handoff =
          (events.foldl accepted_again
            (r₀.progress.accepted_body_witnesses, r₀.saved.upload_ack_retirement_handoff)).2 := by
  obtain ⟨hstaged, rfl⟩ := stage_selected_spec hstage
  have hsaved := save_spec hsave
  constructor
  · intro fp haccepted hforgotten
    unfold retire_planned_acks_after_index_save
      retire_listed_acks_after_index_save at hforgotten
    split at hforgotten
    · exact absurd haccepted hforgotten
    obtain ⟨body, hbody⟩ := isSome_iff_exists.mp ((hacks fp).mp haccepted)
    -- The ACK was there, so it is the test of the entities that outlive the save.
    have houtlives : s.outlives_save saved (s.add_saved_handoff_retirements
        (s.committed_incidence_retirements previous staged \
          s.ack_retirement_scan_references previous scanned) saved) locally_held fp = false := by
      rw [Bool.eq_false_iff]
      intro hkept
      apply hforgotten
      apply Finset.mem_filter.mpr
      refine ⟨haccepted, ?_⟩
      rw [SortedMap.contains, get?_filterKeys, if_pos hkept, hbody]
      rfl
    unfold outlives_save at houtlives
    simp only [Bool.or_eq_false_iff, decide_eq_false_iff_not, Bool.not_eq_false', Bool.or_eq_true,
      decide_eq_true_eq, Bool.and_eq_true, Bool.not_eq_true'] at houtlives
    obtain ⟨⟨hheld, hdecoded⟩, hadopted | ⟨hknown, hretired⟩⟩ := houtlives
    · exact ⟨hheld, hdecoded, .inl (adopted_by_of_mem hadopted)⟩
    · refine ⟨hheld, hdecoded, .inr ⟨hknown, ?_⟩⟩
      rcases Finset.mem_union.mp hretired with hplanned | hhanded
      · obtain ⟨hcommitted, hnot⟩ := Finset.mem_sdiff.mp hplanned
        obtain ⟨hobligation, habsent⟩ :=
          committed_is_obligation hcommitted
        obtain ⟨-, accepted, quarantined, rfl⟩ := hsaved
        exact ⟨habsent, not_scanned_of_obligation hobligation hnot⟩
      · exact saved_handoff_is_absent hstaged hsaved hhanded
  · intro session_of d now events first last hkept hloads hprogress hindex hfirst hstarts
    obtain ⟨held, hselected, hheld⟩ := stage_spec hstaged
    obtain ⟨havailable, accepted, quarantined, hsame⟩ := hsaved
    have hhandoff : saved.upload_ack_retirement_handoff = held := by rw [hsame, hselected]
    have hgeneration : saved.generation = selected.generation + 1 := by rw [hsame, hselected]
    have hpersistent : saved.persistence_available = true := by rw [hsame, havailable]
    have hready : Ready s.destination_namespace_hash session_of now (events.length + 1) d saved := by
      refine ⟨hkept, hloads, hpersistent, ?_, hprogress, hindex⟩
      intro handoff hmem
      rw [hhandoff] at hmem
      obtain ⟨hdest, hcommitted, -⟩ := hheld handoff hmem
      exact ⟨hdest, by omega, by omega⟩
    have hstart : Leaves s.destination_namespace_hash session_of now (events.length + 1)
        (Evidence.of saved) saved.upload_ack_retirement_handoff
        ((Evidence.of saved).outcome d.accepted_body_witnesses saved.upload_ack_retirement_handoff)
        ⟨some d, some saved⟩ :=
      ⟨d, saved, rfl, hready, rfl, rfl, fun next hnext => ⟨next, hnext, .refl⟩⟩
    obtain ⟨r₀, hr₀, hkept₀, houtcome, -⟩ := Disk.recovered_of_leaves hstart hfirst
    obtain ⟨r, hr, hkeptᵣ, hcomes⟩ := Disk.run_recovers hstart hstarts
    rw [← houtcome] at hcomes
    have hacked : ∀ fp, r.progress.accepted_body_witnesses.get? fp =
        (last_accepted fp events).or (r₀.progress.accepted_body_witnesses.get? fp) := by
      intro fp
      exact (congrArg (fun outcome => outcome.1.get? fp) hcomes).trans get?_accepted_again
    refine ⟨r₀, r, hr₀, hr, hacked, ?_, congrArg Prod.snd hcomes⟩
    intro fp
    rw [hkeptᵣ.loadable.accepted, hkept₀.loadable.accepted, SortedMap.contains, SortedMap.contains,
      hacked, isSome_or, Bool.or_eq_true]

theorem stage_selected_completes {s : SnapshotUploadProgress} {previous selected : ScanIndex}
    {scan_referenced : AckScanReferences} {locally_held census_absent : Finset String}
    (hroom : selected.generation + 1 ≤ u64_max) :
    ∃ staged plan, s.stage_selected_ack_retirement previous selected scan_referenced locally_held
      census_absent = .ok (staged, plan) := by
  unfold stage_selected_ack_retirement
    stage_ack_retirement_handoff_with_scan
  dsimp only
  split
  · exact ⟨_, _, rfl⟩
  · rw [if_neg (Nat.not_lt.mpr hroom)]
    exact ⟨_, _, rfl⟩

/-- The file of an accepted entity is gone, and the recovery crashes between its saves. -/
theorem a_recovery_that_crashed_forgets_the_same :
    let digits (c : Char) := String.ofList (List.replicate 64 c)
    let witness : SnapshotQuarantineWitness := ⟨"v1", "", "", "2", 3, "", 1024⟩
    let s := (SnapshotUploadProgress.new (digits '0') witness).record_body (digits 'a') (digits 'b')
    let previous : ScanIndex := {
      generation := 1
      file_snapshot_fingerprints := SortedMap.empty.insert "a.jsonl" {digits 'a'} }
    let start : Boot := ⟨10, witness, false⟩
    ∃ staged plan saved r₀ r,
      s.stage_selected_ack_retirement previous { generation := 1 }
        (s.ack_retirement_scan_references previous {}) ∅
        (s.complete_census_ack_retirements {} false) = .ok (staged, plan) ∧
      staged.save (some { generation := 1 }) 10 = .ok saved ∧
      (⟨some s.toDurable, some saved⟩ : Disk).recovered (digits '0') start = .ok r₀ ∧
      ((⟨some s.toDurable, some saved⟩ : Disk).step (digits '0') (.crash start 1)).recovered
        (digits '0') start = .ok r ∧
      ∀ fp, fp ∈ r.progress.accepted_fingerprints ↔ fp ∈ r₀.progress.accepted_fingerprints := by
  intro digits witness s previous start
  have hns : is_snapshot_fingerprint (digits '0') = true := replicate_is_fingerprint rfl rfl
  have hkept : s.toDurable.Kept (digits '0') id 0 :=
    record_body_kept ⟨.of_new, .of_new⟩ (replicate_is_fingerprint rfl rfl)
      (replicate_is_fingerprint rfl rfl)
  have hloads : s.toDurable.is_loadable 0 (digits '0') = true :=
    hkept.loadable.loads hns (fun fp context hget => by cases hget)
  obtain ⟨staged, plan, hstage⟩ : ∃ staged plan, s.stage_selected_ack_retirement previous
      { generation := 1 } (s.ack_retirement_scan_references previous {}) ∅
      (s.complete_census_ack_retirements {} false) = .ok (staged, plan) :=
    stage_selected_completes (by decide)
  obtain ⟨held, hselected, -⟩ :=
    stage_spec (stage_selected_spec hstage).1
  obtain ⟨saved, hsave⟩ : ∃ saved, staged.save (some { generation := 1 }) 10 = .ok saved := by
    rw [hselected]
    have hroom : 1 + 1 ≤ u64_max := by decide
    exact save_completes rfl rfl rfl rfl hroom
  have hgeneration : saved.generation = 2 := by
    obtain ⟨-, accepted, quarantined, hsame⟩ := save_spec hsave
    rw [hsame, hselected]
  have hacks : ∀ fp, fp ∈ s.accepted_fingerprints ↔ s.accepted_body_witnesses.contains fp = true :=
    hkept.loadable.accepted
  obtain ⟨r₀, r, hr₀, hr, -, hfps, -⟩ :=
    (an_ack_is_forgotten_only_when_it_is_safe hacks hstage hsave).2 id s.toDurable 0
      [.crash start 1] start start hkept hloads (by decide) (by rw [hgeneration]; decide)
      (by decide) ⟨by decide, trivial, le_rfl⟩
  refine ⟨staged, plan, saved, r₀, r, hstage, hsave, hr₀, hr, ?_⟩
  intro fp
  rw [hfps]
  simp [last_accepted]

end ottto_service.snapshot_sync
