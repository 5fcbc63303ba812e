-- How much room the upload ledger keeps for ACKs that are still to come
-- (snapshot_sync/ack_retention.rs): the input of a page is cut down to what may be
-- acknowledged, so that no batch of it is ever stopped for want of a slot.
import Ottto.PendingHeads

namespace ottto_service.snapshot_sync

open snapshots List

/-- At most this many entities may wait for a save of the index. -/
def MAX_UNSETTLED_ACKS : Nat := 4096

def default_ack_capacity : Nat := MAX_UNSETTLED_ACKS

/-- Local backpressure. Counts only. -/
structure AckSettlementRequired where
  retained_ack_count : Nat
  retained_stale_ack_count : Nat
  capacity : Nat
  deferred_entity_count : Nat

/-- The ledger with the slots of its cycle, which no save writes. -/
structure AckLedger where
  progress : SnapshotUploadProgress
  ack_capacity : Nat := default_ack_capacity
  retained_stale_ack_count : Nat := 0

def fingerprints (items : List SnapshotItem) : Finset String :=
  (items.map SnapshotItem.snapshot_fingerprint).toFinset

/-- `items.retain` of the admission: what is not held and has no live slot takes one of
the slots for debt that remain, once for each entity. -/
def retain_admitted (held : Finset String) : Nat → Finset String → List SnapshotItem →
    List SnapshotItem
  | _, _, [] => []
  | remaining, admitted, item :: items =>
    let fp := item.snapshot_fingerprint
    if fp ∈ held ∨ fp ∈ admitted then item :: retain_admitted held remaining admitted items
    else if remaining = 0 then retain_admitted held remaining admitted items
    else item :: retain_admitted held (remaining - 1) (insert fp admitted) items

namespace AckLedger

variable (s : AckLedger)

def accepted : Finset String := s.progress.accepted_fingerprints

/-- The accepted entities that the index does not have: debt until its next save. -/
def unsettled (index : ScanIndex) : Finset String :=
  s.accepted \ index.upload_progress_ack_incidence

/-- The new input that the scan's incidence proves. -/
def live_input (items : List SnapshotItem) (live_index : ScanIndex) : Finset String :=
  (live_index.upload_progress_ack_incidence ∩ fingerprints items) \ s.accepted

/-- The items that are kept, the ledger with its slots, and what has to settle first. -/
def admit_upload_input_with_unsettled_limit (items : List SnapshotItem) (live_index : ScanIndex)
    (unsettled_limit : Nat) : List SnapshotItem × AckLedger × Option AckSettlementRequired :=
  let before := (fingerprints items).card
  let unsettled := s.unsettled live_index
  let live_input := s.live_input items live_index
  let held_live := s.accepted.card - unsettled.card
  let ledger := { s with
    retained_stale_ack_count := unsettled.card
    ack_capacity := u64_saturating_add (u64_saturating_add held_live live_input.card)
      unsettled_limit }
  let kept := retain_admitted (s.accepted ∪ live_input) (unsettled_limit - unsettled.card) ∅ items
  let after := (fingerprints kept).card
  (kept, ledger,
    if after < before then some {
      retained_ack_count := ledger.accepted.card
      retained_stale_ack_count := ledger.retained_stale_ack_count
      capacity := ledger.ack_capacity
      deferred_entity_count := before - after }
    else none)

/-- What a refused batch or re-offer answers. -/
def settlement (deferred_entity_count : Nat) : AckSettlementRequired :=
  { retained_ack_count := s.accepted.card
    retained_stale_ack_count := s.retained_stale_ack_count
    capacity := s.ack_capacity
    deferred_entity_count }

/-- A re-offer replaces ACKs that are held, and still stops at an overfull ledger. -/
def admit_ack_reoffers (probes : List SnapshotItem) : Except AckSettlementRequired Unit :=
  let offered := fingerprints probes
  let additional := (offered \ s.accepted).card
  if offered ≠ ∅ ∧ s.ack_capacity < u64_saturating_add s.accepted.card additional then
    .error (s.settlement offered.card)
  else .ok ()

def admit_ack_batch (new_acks : Nat) : Except AckSettlementRequired Unit :=
  if 0 < new_acks ∧ s.ack_capacity < u64_saturating_add s.accepted.card new_acks then
    .error (s.settlement new_acks)
  else .ok ()

end AckLedger

/-! ## A cycle of batches -/

/-- What the uploader does with the admitted items: a batch of entities, those that its
answer acknowledges with their bodies, or a forced re-offer of probes. -/
inductive AckStep
  | batch (entities : Finset String) (acks : List (String × String))
  | reoffer (probes : List SnapshotItem)

namespace AckStep

/-- The entities that a step sends. -/
def entities : AckStep → Finset String
  | batch entities _ => entities
  | reoffer probes => fingerprints probes

/-- An answer acknowledges what was sent. -/
def Answered : AckStep → Prop
  | batch entities acks => ∀ ack ∈ acks, ack.1 ∈ entities
  | reoffer _ => True

end AckStep

namespace AckLedger

/-- One entity's ACK. -/
def record (s : AckLedger) (ack : String × String) : AckLedger :=
  { s with progress := s.progress.record_body ack.1 ack.2 }

/-- The probes of a re-offer are no longer accepted. -/
def forget (s : AckLedger) (probes : List SnapshotItem) : AckLedger :=
  { s with progress := { s.progress with
    accepted_fingerprints := s.progress.accepted_fingerprints \ fingerprints probes
    accepted_body_witnesses :=
      s.progress.accepted_body_witnesses.filterKeys (fun fp => fp ∉ fingerprints probes) } }

/-- A batch is asked for before it is sent, and its answer is recorded. -/
def step (s : AckLedger) : AckStep → Except AckSettlementRequired AckLedger
  | .batch entities acks => do
    s.admit_ack_batch (entities \ s.accepted).card
    .ok (acks.foldl record s)
  | .reoffer probes => do
    s.admit_ack_reoffers probes
    .ok (s.forget probes)

def run (s : AckLedger) (steps : List AckStep) : Except AckSettlementRequired AckLedger :=
  steps.foldlM step s

/-! ## The items that are kept -/

/-- What the admission keeps is a choice of entities: those held, and as many more as
there are slots for debt. -/
theorem retain_admitted_spec (held : Finset String) (remaining : Nat) (admitted : Finset String)
    (items : List SnapshotItem) :
    ∃ fresh : Finset String, fresh.card ≤ remaining ∧
      retain_admitted held remaining admitted items =
        items.filter (fun item =>
          decide (item.snapshot_fingerprint ∈ held ∪ admitted ∪ fresh)) := by
  induction items generalizing remaining admitted with
  | nil => exact ⟨∅, Nat.zero_le _, rfl⟩
  | cons item items ih =>
    rw [retain_admitted]
    by_cases hkept : item.snapshot_fingerprint ∈ held ∨ item.snapshot_fingerprint ∈ admitted
    · obtain ⟨fresh, hcard, hrest⟩ := ih remaining admitted
      refine ⟨fresh, hcard, ?_⟩
      have hin : item.snapshot_fingerprint ∈ held ∪ admitted ∪ fresh :=
        Finset.mem_union_left _ (Finset.mem_union.mpr hkept)
      rw [if_pos hkept, hrest, filter_cons, if_pos (decide_eq_true hin)]
    rw [if_neg hkept]
    by_cases hfull : remaining = 0
    · -- No slot is left, and none comes free: the entity has none later either.
      obtain ⟨fresh, hcard, hrest⟩ := ih remaining admitted
      have hfresh : fresh = ∅ := Finset.card_eq_zero.mp (by omega)
      refine ⟨fresh, hcard, ?_⟩
      have hout : item.snapshot_fingerprint ∉ held ∪ admitted ∪ fresh := by
        rw [hfresh, Finset.union_empty, Finset.mem_union]
        exact hkept
      rw [if_pos hfull, hrest, filter_cons, if_neg (fun h => hout (of_decide_eq_true h))]
    · obtain ⟨fresh, hcard, hrest⟩ := ih (remaining - 1) (insert item.snapshot_fingerprint admitted)
      refine ⟨insert item.snapshot_fingerprint fresh, ?_, ?_⟩
      · have hinsert := Finset.card_insert_le item.snapshot_fingerprint fresh
        omega
      · have hsets : held ∪ insert item.snapshot_fingerprint admitted ∪ fresh =
            held ∪ admitted ∪ insert item.snapshot_fingerprint fresh := by
          rw [Finset.union_insert, Finset.insert_union, Finset.union_insert]
        have hin : item.snapshot_fingerprint ∈
            held ∪ admitted ∪ insert item.snapshot_fingerprint fresh :=
          Finset.mem_union_right _ (Finset.mem_insert_self _ _)
        rw [if_neg hfull, hrest, hsets, filter_cons, if_pos (decide_eq_true hin)]

theorem mem_fingerprints {items : List SnapshotItem} {fp : String} :
    fp ∈ fingerprints items ↔ ∃ item ∈ items, item.snapshot_fingerprint = fp := by
  simp [fingerprints]

theorem fingerprints_filter (items : List SnapshotItem) (chosen : Finset String) :
    fingerprints (items.filter (fun item => decide (item.snapshot_fingerprint ∈ chosen))) =
      fingerprints items ∩ chosen := by
  ext fp
  rw [Finset.mem_inter, mem_fingerprints, mem_fingerprints]
  constructor
  · rintro ⟨item, hitem, rfl⟩
    obtain ⟨hin, hchosen⟩ := mem_filter.mp hitem
    exact ⟨⟨item, hin, rfl⟩, of_decide_eq_true hchosen⟩
  · rintro ⟨⟨item, hin, rfl⟩, hchosen⟩
    exact ⟨item, mem_filter.mpr ⟨hin, decide_eq_true hchosen⟩, rfl⟩

/-! ## Room for every answer -/

/-- The ledger holds no entity but the reserved ones, and these have their slots: in all,
and as debt of the index. -/
structure Room (s : AckLedger) (index : ScanIndex) (limit : Nat) (reserved : Finset String) :
    Prop where
  held : s.accepted ⊆ reserved
  slots : min reserved.card u64_max ≤ s.ack_capacity
  debt : (reserved \ index.upload_progress_ack_incidence).card ≤ limit

theorem recorded_accepted (s : AckLedger) (acks : List (String × String)) :
    (acks.foldl record s).accepted = s.accepted ∪ (acks.map Prod.fst).toFinset := by
  induction acks generalizing s with
  | nil => rw [foldl_nil, map_nil, toFinset_nil, Finset.union_empty]
  | cons ack acks ih =>
    have hrecord : (s.record ack).accepted = insert ack.1 s.accepted := rfl
    rw [foldl_cons, ih, hrecord, map_cons, toFinset_cons, Finset.union_insert,
      Finset.insert_union]

theorem recorded_capacity (s : AckLedger) (acks : List (String × String)) :
    (acks.foldl record s).ack_capacity = s.ack_capacity := by
  induction acks generalizing s with
  | nil => rfl
  | cons ack acks ih =>
    rw [foldl_cons, ih]
    rfl

variable {s : AckLedger} {index : ScanIndex} {limit : Nat} {reserved : Finset String}

/-- Entities that have their slots fit beside what is held. -/
theorem Room.fits (h : Room s index limit reserved) {entities : Finset String}
    (hentities : entities ⊆ reserved) :
    ¬ s.ack_capacity < u64_saturating_add s.accepted.card (entities \ s.accepted).card := by
  have hunion : (s.accepted ∪ entities).card ≤ reserved.card :=
    Finset.card_le_card (Finset.union_subset h.held hentities)
  have hsplit : s.accepted.card + (entities \ s.accepted).card = (s.accepted ∪ entities).card := by
    rw [← Finset.union_sdiff_self_eq_union]
    exact (Finset.card_union_of_disjoint Finset.disjoint_sdiff).symm
  have hslots := h.slots
  unfold u64_saturating_add
  omega

theorem Room.step (h : Room s index limit reserved) {step : AckStep}
    (hentities : step.entities ⊆ reserved) (hanswered : step.Answered) :
    ∃ t, s.step step = .ok t ∧ t.ack_capacity = s.ack_capacity ∧ Room t index limit reserved := by
  cases step with
  | batch entities acks =>
    have hasked : s.admit_ack_batch (entities \ s.accepted).card = .ok () := by
      unfold admit_ack_batch
      rw [if_neg (fun hfull => h.fits hentities hfull.2)]
    refine ⟨acks.foldl record s, by rw [AckLedger.step, hasked]; rfl, recorded_capacity s acks,
      ?_, ?_, h.debt⟩
    · rw [recorded_accepted]
      apply Finset.union_subset h.held
      intro fp hfp
      obtain ⟨ack, hack, rfl⟩ := mem_map.mp (mem_toFinset.mp hfp)
      exact hentities (hanswered ack hack)
    · rw [recorded_capacity]
      exact h.slots
  | reoffer probes =>
    have hasked : s.admit_ack_reoffers probes = .ok () := by
      unfold admit_ack_reoffers
      dsimp only
      rw [if_neg (fun hfull => h.fits hentities hfull.2)]
    refine ⟨s.forget probes, by rw [AckLedger.step, hasked]; rfl, rfl, ?_, h.slots, h.debt⟩
    exact Finset.sdiff_subset.trans h.held

theorem Room.run (h : Room s index limit reserved) {steps : List AckStep}
    (hsteps : ∀ step ∈ steps, step.entities ⊆ reserved ∧ step.Answered) :
    ∃ t, s.run steps = .ok t ∧ t.ack_capacity = s.ack_capacity ∧ Room t index limit reserved := by
  induction steps generalizing s with
  | nil => exact ⟨s, rfl, rfl, h⟩
  | cons step steps ih =>
    obtain ⟨hstep, hrest⟩ := forall_mem_cons.mp hsteps
    obtain ⟨t, hok, hcapacity, ht⟩ := h.step hstep.1 hstep.2
    obtain ⟨last, hlast, hcap, hroom⟩ := ih ht hrest
    refine ⟨last, ?_, hcap.trans hcapacity, hroom⟩
    rw [AckLedger.run, foldlM_cons, hok]
    exact hlast

/-- The slots of an admission are those of the entities held, the live ones of the input
and as much new debt as the limit leaves. -/
theorem room_of_admission (s : AckLedger) (items : List SnapshotItem) (index : ScanIndex)
    {limit : Nat} (h : (s.unsettled index).card ≤ limit) {fresh : Finset String}
    (hfresh : fresh.card ≤ limit - (s.unsettled index).card) :
    Room (s.admit_upload_input_with_unsettled_limit items index limit).2.1 index limit
      (s.accepted ∪ s.live_input items index ∪ fresh) := by
  constructor
  · exact Finset.subset_union_left.trans Finset.subset_union_left
  · have hsub : (s.unsettled index).card ≤ s.accepted.card :=
      Finset.card_le_card Finset.sdiff_subset
    have hunion := Finset.card_union_le (s.accepted ∪ s.live_input items index) fresh
    have hlive := Finset.card_union_le s.accepted (s.live_input items index)
    have hcapacity : (s.admit_upload_input_with_unsettled_limit items index limit).2.1.ack_capacity =
        u64_saturating_add (u64_saturating_add (s.accepted.card - (s.unsettled index).card)
          (s.live_input items index).card) limit := rfl
    rw [hcapacity]
    unfold u64_saturating_add
    omega
  · have hsubset : (s.accepted ∪ s.live_input items index ∪ fresh) \
        index.upload_progress_ack_incidence ⊆ s.unsettled index ∪ fresh := by
      intro fp hfp
      obtain ⟨hin, hout⟩ := Finset.mem_sdiff.mp hfp
      rcases Finset.mem_union.mp hin with hin | hin
      · rcases Finset.mem_union.mp hin with hin | hin
        · exact Finset.mem_union_left _ (Finset.mem_sdiff.mpr ⟨hin, hout⟩)
        · exact absurd (Finset.mem_inter.mp (Finset.mem_sdiff.mp hin).1).1 hout
      · exact Finset.mem_union_right _ hin
    have hcard := (Finset.card_le_card hsubset).trans (Finset.card_union_le _ _)
    omega

/-- The admission keeps enough room: no order and no grouping of the batches of the kept
items is stopped, neither the ledger nor its debt outgrows its slots, and what is dropped
are whole entities that are new to the ledger and to the index, each counted once. -/
theorem admission_keeps_room (s : AckLedger) (items : List SnapshotItem) (index : ScanIndex)
    (limit : Nat) (h : (s.unsettled index).card ≤ limit) :
    let admission := s.admit_upload_input_with_unsettled_limit items index limit
    (∀ steps : List AckStep,
      (∀ step ∈ steps, step.entities ⊆ fingerprints admission.1 ∧ step.Answered) →
      ∃ t, admission.2.1.run steps = .ok t ∧ t.ack_capacity = admission.2.1.ack_capacity ∧
        (t.accepted.card ≤ u64_max → t.accepted.card ≤ t.ack_capacity) ∧
        (t.unsettled index).card ≤ limit) ∧
    (∃ chosen : Finset String, admission.1 =
      items.filter (fun item => decide (item.snapshot_fingerprint ∈ chosen))) ∧
    (∀ item ∈ items, item ∉ admission.1 → item.snapshot_fingerprint ∉ s.accepted ∧
      item.snapshot_fingerprint ∉ index.upload_progress_ack_incidence) ∧
    admission.2.2.elim 0 AckSettlementRequired.deferred_entity_count =
      (fingerprints items \ fingerprints admission.1).card ∧
    (admission.2.2 = none ↔ admission.1 = items) := by
  intro admission
  obtain ⟨fresh, hfresh, hkept⟩ := retain_admitted_spec (s.accepted ∪ s.live_input items index)
    (limit - (s.unsettled index).card) ∅ items
  rw [Finset.union_empty] at hkept
  have hfirst : admission.1 = items.filter (fun item => decide (item.snapshot_fingerprint ∈
    s.accepted ∪ s.live_input items index ∪ fresh)) := hkept
  have hprints := fingerprints_filter items (s.accepted ∪ s.live_input items index ∪ fresh)
  rw [← hfirst] at hprints
  have hsubset : fingerprints admission.1 ⊆ fingerprints items := by
    rw [hprints]
    exact Finset.inter_subset_left
  have hroom := room_of_admission s items index h hfresh
  have hcard := Finset.card_sdiff_of_subset hsubset
  have hle := Finset.card_le_card hsubset
  have hrequired : admission.2.2 =
      if (fingerprints admission.1).card < (fingerprints items).card then
        some (admission.2.1.settlement
          ((fingerprints items).card - (fingerprints admission.1).card))
      else none := rfl
  refine ⟨?_, ⟨_, hfirst⟩, ?_, ?_, ?_⟩
  · intro steps hsteps
    have hreserved : ∀ step ∈ steps, step.entities ⊆
        s.accepted ∪ s.live_input items index ∪ fresh ∧ step.Answered := by
      intro step hstep
      refine ⟨(hsteps step hstep).1.trans ?_, (hsteps step hstep).2⟩
      rw [hprints]
      exact Finset.inter_subset_right
    obtain ⟨t, hrun, hcapacity, ht⟩ := hroom.run hreserved
    refine ⟨t, hrun, hcapacity, ?_, ?_⟩
    · intro hmemory
      have hheld := Finset.card_le_card ht.held
      have hslots := ht.slots
      omega
    · exact (Finset.card_le_card (Finset.sdiff_subset_sdiff ht.held (Finset.Subset.refl _))).trans
        ht.debt
  · intro item hitem hdropped
    rw [hfirst] at hdropped
    have hout : item.snapshot_fingerprint ∉ s.accepted ∪ s.live_input items index ∪ fresh := by
      intro hin
      exact hdropped (mem_filter.mpr ⟨hitem, decide_eq_true hin⟩)
    rw [Finset.mem_union, Finset.mem_union, not_or, not_or] at hout
    refine ⟨hout.1.1, fun hlive => hout.1.2 ?_⟩
    exact Finset.mem_sdiff.mpr ⟨Finset.mem_inter.mpr ⟨hlive, mem_fingerprints.mpr ⟨item, hitem, rfl⟩⟩,
      hout.1.1⟩
  · rw [hrequired, hcard]
    split
    · rfl
    · show 0 = _
      omega
  · rw [hrequired]
    constructor
    · intro hnone
      have hall : (fingerprints items).card ≤ (fingerprints admission.1).card := by
        by_contra hless
        rw [if_pos (Nat.lt_of_not_le hless)] at hnone
        cases hnone
      have hsame := Finset.eq_of_subset_of_card_le hsubset hall
      rw [hfirst, filter_eq_self]
      intro item hitem
      have hin := mem_fingerprints.mpr ⟨item, hitem, rfl⟩
      rw [← hsame, hprints] at hin
      exact decide_eq_true (Finset.mem_inter.mp hin).2
    · intro hsame
      rw [hsame, if_neg (Nat.lt_irrefl _)]

/-- A ledger with one ACK that the index does not know, at a limit of two: one of the two
new entities gets the slot that is left. -/
theorem admission_keeps_room_of_two :
    let item (fp : String) : SnapshotItem := {
      snapshot_fingerprint := fp
      source_session_id := "s"
      source_file_fingerprint := none
      cache_observations := false
      cache_base_head_etag := none
      upload_body_witness := "w"
      probe_body_witness := "p" }
    let progress := (SnapshotUploadProgress.new "d"
      ⟨"c", "1", "1", "1", 1, "e", 1⟩).record_body "a" "w"
    let admission := (AckLedger.mk progress default_ack_capacity 0).admit_upload_input_with_unsettled_limit
      [item "b", item "c", item "b", item "a"] {} 2
    admission.1 = [item "b", item "b", item "a"] ∧
      admission.2.2.elim 0 AckSettlementRequired.deferred_entity_count =
        (fingerprints [item "b", item "c", item "b", item "a"] \ fingerprints admission.1).card := by
  intro item progress admission
  have hdebt : ((AckLedger.mk progress default_ack_capacity 0).unsettled {}).card ≤ 2 := by decide
  exact ⟨by decide, (admission_keeps_room _ _ {} 2 hdebt).2.2.2.1⟩

end AckLedger

end ottto_service.snapshot_sync
