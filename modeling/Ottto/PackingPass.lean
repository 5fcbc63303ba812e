-- The packing over the calls of a source pass (snapshot_sync.rs): each call partitions its
-- pending bodies into requests, and the catch-up of all of them shares one allowance.
import Ottto.PackingPartition

namespace ottto_service.snapshot_sync

open List

/-! ## The calls of a pass -/

/-- A call of the uploader: the ledger that it finds, and its input. -/
structure Invocation where
  progress : SnapshotUploadProgress
  items : List Body

/-- A call with its first requests. -/
structure PackedCall where
  progress : SnapshotUploadProgress
  items : List Body
  packed : Packed

def with_allowance (progress : SnapshotUploadProgress) (remaining_bytes : Nat) :
    SnapshotUploadProgress :=
  { progress with context_resend := { progress.context_resend with remaining_bytes } }

/-- The calls of a pass. Nothing between them gives the allowance back, and a call that
cannot serialize a body charges nothing. -/
def pass : Nat → List Invocation → List PackedCall
  | _, [] => []
  | remaining, call :: calls =>
    let progress := with_allowance call.progress remaining
    match pack_batches progress call.items with
    | .error _ => pass remaining calls
    | .ok packed => ⟨progress, call.items, packed⟩ :: pass packed.cycle.remaining_bytes calls

namespace PackedCall

variable (call : PackedCall)

/-- The bodies that go out, in the order of the requests. -/
def sent : List Member := call.packed.batches.flatten

def sent_ordinary : List Member := call.sent.filter (fun m => !is_catchup call.progress m)

def sent_catchup : List Member := call.sent.filter (is_catchup call.progress)

def ordinary_bytes : Nat := (call.sent_ordinary.map charged).sum

def catchup_bytes : Nat := (call.sent_catchup.map charged).sum

/-- All ordinary work of the pass is in this call, so that catch-up may go out behind it. -/
def ordinary_in_this_call : Bool :=
  call.progress.context_resend.ordinary_work_is_in
    (call.sent_ordinary.map (fun m => m.body.fingerprint)).toFinset

/-- The pending bodies go out once each, but for the catch-up that stays owed. -/
structure Partition : Prop where
  pending : ∃ pending : SortedMap String Member,
    pending_by_fingerprint call.progress call.items = .ok pending ∧
      (call.sent ++ call.packed.owed).Perm pending.values ∧
      (pending.values.map (fun m => m.body.fingerprint)).Nodup ∧
      ∀ fp, fp ∈ pending.values.map (fun m => m.body.fingerprint) ↔
        ∃ item ∈ call.items, item.fingerprint = fp ∧
          call.progress.contains_body item.fingerprint item.body_witness = false
  owed : ∀ m ∈ call.packed.owed, is_catchup call.progress m = true ∧
    (call.ordinary_in_this_call = false ∨ call.packed.cycle.remaining_bytes < charged m)
  requests : ∀ batch ∈ call.packed.batches, batch ≠ [] ∧ batch.length ≤ SNAPSHOT_BATCH_LIMIT ∧
    (1 < batch.length → array_length batch ≤ SNAPSHOT_BATCH_MAX_BYTES) ∧
    Uniform call.progress batch
  lanes : call.packed.batches.Pairwise (fun a b => ∀ x ∈ a, ∀ y ∈ b,
    is_catchup call.progress x = true → is_catchup call.progress y = true)
  family : ∀ root lane, (call.sent.filter
    (fun m => in_family root m && (is_catchup call.progress m == lane))).Pairwise
      (fun a b => Member.family_le root a b = true)

end PackedCall

/-! ## One call -/

/-- Catch-up stays owed when ordinary work is left for a later call, or for want of
allowance, of which there is even less at the end. -/
theorem admit_unit_owed (in_this_call : Bool) (cycle : Cycle) (unit : List Member) :
    ∀ m ∈ (admit_unit in_this_call cycle unit).2.1, in_this_call = false ∨
      (admit_unit in_this_call cycle unit).2.2.remaining_bytes < charged m := by
  induction unit generalizing cycle with
  | nil => simp [admit_unit]
  | cons first unit ih =>
    rw [admit_unit]
    cases hadmit : (if in_this_call then cycle.admit_catchup_bytes (charged first) else none) with
    | some admitted => exact ih admitted
    | none =>
      dsimp only
      refine forall_mem_cons.mpr ⟨?_, ih _⟩
      cases in_this_call with
      | false => exact .inl rfl
      | true =>
        right
        have hpaid := (admit_unit_spec true (cycle.defer first.body.fingerprint) unit).paid
        have hsame : (cycle.defer first.body.fingerprint).remaining_bytes = cycle.remaining_bytes := rfl
        rw [if_pos rfl, Cycle.admit_catchup_bytes] at hadmit
        split at hadmit
        · show (admit_unit true (cycle.defer first.body.fingerprint) unit).2.2.remaining_bytes <
            charged first
          omega
        · cases hadmit

theorem admit_units_owed (in_this_call : Bool) (cycle : Cycle) (units : List PackingUnit) :
    ∀ m ∈ (admit_units in_this_call cycle units).2.1, in_this_call = false ∨
      (admit_units in_this_call cycle units).2.2.remaining_bytes < charged m := by
  induction units generalizing cycle with
  | nil => simp [admit_units]
  | cons unit units ih =>
    rw [admit_units]
    intro m hm
    rcases mem_append.mp hm with hm | hm
    · have hpaid := (admit_units_spec in_this_call (admit_unit in_this_call cycle unit.1).2.2 units).paid
      rcases admit_unit_owed in_this_call cycle unit.1 m hm with hno | hless
      · exact .inl hno
      · right
        show (admit_units in_this_call (admit_unit in_this_call cycle unit.1).2.2
          units).2.2.remaining_bytes < charged m
        omega
    · exact ih _ m hm

section

variable (progress : SnapshotUploadProgress) (units : List PackingUnit)

theorem pack_units_ordinary : (pack_units progress units).batches.flatten.filter
    (fun m => !is_catchup progress m) = (ordinary_lane progress units).flatMap Prod.fst := by
  rw [pack_units_flatten, filter_append, filter_of_none
    (l := (catchup_admission progress units).1.flatten) (fun m hm => by simp [mem_sent_catchup hm]),
    append_nil]
  apply filter_eq_self.mpr
  intro m hm
  simp [mem_ordinary_lane hm]

theorem pack_units_catchup : (pack_units progress units).batches.flatten.filter
    (is_catchup progress) = (catchup_admission progress units).1.flatten := by
  rw [pack_units_flatten, filter_append, filter_of_none
    (l := (ordinary_lane progress units).flatMap Prod.fst) (fun m hm => mem_ordinary_lane hm),
    nil_append]
  apply filter_eq_self.mpr
  intro m hm
  exact mem_sent_catchup hm

end

variable {progress : SnapshotUploadProgress} {items : List Body} {packed : Packed}

theorem pack_batches_eq (h : pack_batches progress items = .ok packed) :
    ∃ pending, pending_by_fingerprint progress items = .ok pending ∧
      packed = pack_units progress (packing_units pending.values) := by
  obtain ⟨pending, hpending, hpacked⟩ := Results.bind_eq_ok.mp h
  exact ⟨pending, hpending, (Except.ok.inj hpacked).symm⟩

/-- A call partitions its pending bodies. -/
theorem call_partition (h : pack_batches progress items = .ok packed) :
    (PackedCall.mk progress items packed).Partition := by
  obtain ⟨pending, hpending, rfl⟩ := pack_batches_eq h
  have hlaws := packing_units_laws pending.values
  obtain ⟨hnodup, hmembers⟩ := pending_fingerprints hpending
  constructor
  · refine ⟨pending, hpending, ?_, hnodup, hmembers⟩
    exact (pack_units_perm progress _).trans (packing_units_perm pending.values)
  · intro m hm
    constructor
    · apply mem_catchup_lane
      exact (catchup_part progress _).perm.subset (mem_append_right _ hm)
    · have howed := admit_units_owed _ _ _ m hm
      unfold PackedCall.ordinary_in_this_call PackedCall.sent_ordinary PackedCall.sent
      dsimp only
      rw [pack_units_ordinary]
      exact howed
  · intro batch hbatch
    obtain ⟨group, hgroup, rfl⟩ := mem_map.mp hbatch
    obtain ⟨hfilled, hbounded, huniform⟩ := merged_uniform (lanes_laws hlaws) hgroup
    exact ⟨hfilled, hbounded.count, hbounded.array_length, huniform⟩
  · exact (pairwise_flatten.mp (pack_units_lanes progress _)).2
  · intro root lane
    exact pack_units_family hlaws (packing_units_keyed pending.values)
      (packing_units_family pending.values root) lane

/-- What a call charges: its ordinary bodies first, then the catch-up out of the rest. -/
theorem call_charges (h : pack_batches progress items = .ok packed) :
    (PackedCall.mk progress items packed).catchup_bytes + packed.cycle.remaining_bytes =
      progress.context_resend.remaining_bytes -
        min (PackedCall.mk progress items packed).ordinary_bytes u64_max := by
  obtain ⟨pending, -, rfl⟩ := pack_batches_eq h
  have hpaid := (catchup_part progress (packing_units pending.values)).paid
  unfold PackedCall.catchup_bytes PackedCall.ordinary_bytes PackedCall.sent_catchup
    PackedCall.sent_ordinary PackedCall.sent
  dsimp only
  rw [pack_units_catchup, pack_units_ordinary, pack_units_cycle, hpaid]
  unfold reserved_cycle Cycle.reserve_ordinary_bytes
  dsimp only
  rw [saturating_sum_eq _ (Nat.zero_le _), Nat.zero_add]

theorem charged_pos (m : Member) : 0 < charged m := by
  unfold charged u64_saturating_add
  have := two_le_max
  omega

theorem catchup_bytes_eq_zero {call : PackedCall} (h : call.catchup_bytes = 0) :
    call.sent_catchup = [] := by
  unfold PackedCall.catchup_bytes at h
  cases hsent : call.sent_catchup with
  | nil => rfl
  | cons m rest =>
    rw [hsent, map_cons, sum_cons] at h
    have := charged_pos m
    omega

/-! ## The allowance over a pass -/

/-- What a call takes of the allowance, or would take if there were enough. -/
def PackedCall.bytes (call : PackedCall) : Nat := call.ordinary_bytes + call.catchup_bytes

variable {remaining : Nat}

theorem pass_catchup (calls : List Invocation) :
    ((pass remaining calls).map PackedCall.catchup_bytes).sum ≤ remaining := by
  induction calls generalizing remaining with
  | nil => exact Nat.zero_le _
  | cons call calls ih =>
    rw [pass]
    cases hpack : pack_batches (with_allowance call.progress remaining) call.items with
    | error e => exact ih
    | ok packed =>
      have hcharges := call_charges hpack
      have hrest := @ih packed.cycle.remaining_bytes
      have hremaining : (with_allowance call.progress remaining).context_resend.remaining_bytes =
          remaining := rfl
      rw [hremaining] at hcharges
      dsimp only
      rw [map_cons, sum_cons]
      omega

/-- Catch-up goes out only while everything that the pass has charged fits. -/
theorem pass_fits (hword : remaining ≤ u64_max) (calls : List Invocation)
    {front back : List PackedCall} {call : PackedCall}
    (h : pass remaining calls = front ++ call :: back) (hcatchup : 0 < call.catchup_bytes) :
    ((front ++ [call]).map PackedCall.bytes).sum ≤ remaining := by
  induction calls generalizing remaining front with
  | nil => simp [pass] at h
  | cons first calls ih =>
    rw [pass] at h
    cases hpack : pack_batches (with_allowance first.progress remaining) first.items with
    | error e =>
      rw [hpack] at h
      exact ih hword h
    | ok packed =>
      rw [hpack] at h
      dsimp only at h
      have hcharges := call_charges hpack
      have hremaining : (with_allowance first.progress remaining).context_resend.remaining_bytes =
          remaining := rfl
      rw [hremaining] at hcharges
      cases front with
      | nil =>
        rw [nil_append] at h
        obtain ⟨rfl, -⟩ := cons_eq_cons.mp h
        rw [nil_append, map_singleton, sum_singleton, PackedCall.bytes]
        omega
      | cons head front =>
        rw [cons_append] at h
        obtain ⟨rfl, hrest⟩ := cons_eq_cons.mp h
        have hfits := ih (show packed.cycle.remaining_bytes ≤ u64_max by omega) hrest
        have hlast : call.catchup_bytes ≤ ((front ++ [call]).map PackedCall.bytes).sum := by
          rw [map_append, sum_append, map_singleton, sum_singleton,
            PackedCall.bytes]
          omega
        rw [cons_append, map_cons, sum_cons, PackedCall.bytes]
        omega

theorem pass_partition (calls : List Invocation) :
    ∀ call ∈ pass remaining calls, call.Partition := by
  induction calls generalizing remaining with
  | nil => simp [pass]
  | cons first calls ih =>
    rw [pass]
    cases hpack : pack_batches (with_allowance first.progress remaining) first.items with
    | error e => exact ih
    | ok packed => exact forall_mem_cons.mpr ⟨call_partition hpack, ih⟩

/-- Every call of a pass partitions its pending bodies into requests of one class and one
lane each, and the catch-up of the pass goes out of one allowance only: what of it the
ordinary bodies charged so far have left. -/
theorem packing_is_a_bounded_partition (allowance : UInt64) (calls : List Invocation) :
    (∀ call ∈ pass allowance.toNat calls, call.Partition) ∧
    ((pass allowance.toNat calls).map PackedCall.catchup_bytes).sum ≤ allowance.toNat ∧
    ∀ front call back, pass allowance.toNat calls = front ++ call :: back →
      call.sent_catchup ≠ [] →
        ((front ++ [call]).map PackedCall.bytes).sum ≤ allowance.toNat := by
  refine ⟨pass_partition calls, pass_catchup calls, ?_⟩
  intro front call back hpass hsent
  have hword : allowance.toNat ≤ u64_max := Nat.le_of_lt_succ allowance.toNat_lt
  apply pass_fits hword calls hpass
  by_contra hnone
  exact hsent (catchup_bytes_eq_zero (Nat.eq_zero_of_not_pos hnone))

/-- A unit that is all in one lane is packed alone. -/
theorem pack_catchup_unit {m : Member} (hm : is_catchup progress m = true) :
    (pack_units progress [([m], m.batch_class)]).owed =
        (admit_unit (progress.context_resend.ordinary_work_is_in ∅) progress.context_resend [m]).2.1 ∧
      (pack_units progress [([m], m.batch_class)]).cycle =
        (admit_unit (progress.context_resend.ordinary_work_is_in ∅) progress.context_resend [m]).2.2 ∧
      (pack_units progress [([m], m.batch_class)]).batches.flatten =
        (admit_unit (progress.context_resend.ordinary_work_is_in ∅) progress.context_resend [m]).1 := by
  have hlane : catchup_lane progress [([m], m.batch_class)] = [([m], m.batch_class)] := by
    simp [catchup_lane, lane_units, hm, sort_by_family_key]
  have hordinary : ordinary_lane progress [([m], m.batch_class)] = [] := by
    simp [ordinary_lane, lane_units, hm, sort_by_family_key]
  have hcall : ordinary_in_this_call progress [([m], m.batch_class)] =
      progress.context_resend.ordinary_work_is_in ∅ := by
    simp [ordinary_in_this_call, hordinary]
  have hcycle : reserved_cycle progress [([m], m.batch_class)] = progress.context_resend := by
    simp [reserved_cycle, hordinary, saturating_sum, Cycle.reserve_ordinary_bytes]
  have hadmission : catchup_admission progress [([m], m.batch_class)] =
      admit_units (progress.context_resend.ordinary_work_is_in ∅) progress.context_resend
        [([m], m.batch_class)] := by
    rw [catchup_admission, hlane, hcall, hcycle]
  rw [pack_units_owed, pack_units_cycle, pack_units_flatten, hordinary, hadmission]
  simp only [admit_units, flatMap_nil, nil_append, append_nil, true_and]
  cases (admit_unit (progress.context_resend.ordinary_work_is_in ∅) progress.context_resend [m]).1 with
  | nil => rfl
  | cons first rest => simp

theorem pack_ordinary_unit {m : Member} (hm : is_catchup progress m = false) :
    (pack_units progress [([m], m.batch_class)]).batches.flatten = [m] := by
  have hlane : catchup_lane progress [([m], m.batch_class)] = [] := by
    simp [catchup_lane, lane_units, hm, sort_by_family_key]
  have hordinary : ordinary_lane progress [([m], m.batch_class)] = [([m], m.batch_class)] := by
    simp [ordinary_lane, lane_units, hm, sort_by_family_key]
  rw [pack_units_flatten, hordinary, catchup_admission, hlane]
  rfl

/-- A catch-up body stays owed beside an allowance that would do for it, and ordinary
bodies of a later call come on top of catch-up that an earlier one let out. -/
theorem catchup_is_deferred_and_charged_in_turn :
    let ledger := SnapshotUploadProgress.new "d" ⟨"c", "1", "1", "1", 1, "e", 1⟩
    let cycle : Cycle := { resends := SortedMap.empty.insert "catchup" true }
    let catchup : Body := ⟨"catchup", "w", none, 0, none, some 10⟩
    let ordinary : Body := ⟨"ordinary", "w", none, 0, none, some SNAPSHOT_BATCH_MAX_BYTES⟩
    let blocked : Invocation :=
      ⟨{ ledger with context_resend := { cycle with bootstrap_blocks_catchup := true } }, [catchup]⟩
    let first : Invocation := ⟨{ ledger with context_resend := cycle }, [catchup]⟩
    let second : Invocation := ⟨{ ledger with context_resend := cycle }, [ordinary]⟩
    (∃ call ∈ pass SNAPSHOT_BATCH_MAX_BYTES [blocked], ∃ m ∈ call.packed.owed,
      charged m ≤ call.packed.cycle.remaining_bytes) ∧
    SNAPSHOT_BATCH_MAX_BYTES -
        ((pass SNAPSHOT_BATCH_MAX_BYTES [first, second]).map PackedCall.ordinary_bytes).sum <
      ((pass SNAPSHOT_BATCH_MAX_BYTES [first, second]).map PackedCall.catchup_bytes).sum := by
  intro ledger cycle catchup ordinary blocked first second
  constructor
  · have hpass : pass SNAPSHOT_BATCH_MAX_BYTES [blocked] =
        [⟨with_allowance blocked.progress SNAPSHOT_BATCH_MAX_BYTES, [catchup],
          pack_units (with_allowance blocked.progress SNAPSHOT_BATCH_MAX_BYTES)
            [([⟨catchup, 10⟩], 0)]⟩] := by rfl
    have hlane : is_catchup (with_allowance blocked.progress SNAPSHOT_BATCH_MAX_BYTES)
        ⟨catchup, 10⟩ = true := by decide
    obtain ⟨howed, hcycle, -⟩ := pack_catchup_unit hlane
    rw [hpass]
    refine ⟨_, mem_singleton.mpr rfl, ⟨catchup, 10⟩, ?_, ?_⟩
    · apply Eq.subst howed.symm
      show _ ∈ (admit_unit false _ [_]).2.1
      simp [admit_unit]
    · apply Eq.subst (congrArg Cycle.remaining_bytes hcycle).symm
      decide
  · have hlane : is_catchup (with_allowance first.progress SNAPSHOT_BATCH_MAX_BYTES)
        ⟨catchup, 10⟩ = true := by decide
    obtain ⟨-, hcycle, hsent⟩ := pack_catchup_unit hlane
    have hpass : pass SNAPSHOT_BATCH_MAX_BYTES [first, second] =
        [⟨with_allowance first.progress SNAPSHOT_BATCH_MAX_BYTES, [catchup],
          pack_units (with_allowance first.progress SNAPSHOT_BATCH_MAX_BYTES)
            [([⟨catchup, 10⟩], 0)]⟩,
         ⟨with_allowance second.progress (pack_units
            (with_allowance first.progress SNAPSHOT_BATCH_MAX_BYTES)
              [([⟨catchup, 10⟩], 0)]).cycle.remaining_bytes, [ordinary],
          pack_units (with_allowance second.progress (pack_units
            (with_allowance first.progress SNAPSHOT_BATCH_MAX_BYTES)
              [([⟨catchup, 10⟩], 0)]).cycle.remaining_bytes)
            [([⟨ordinary, SNAPSHOT_BATCH_MAX_BYTES⟩], 0)]⟩] := by rfl
    have hcatchup : (PackedCall.mk (with_allowance first.progress SNAPSHOT_BATCH_MAX_BYTES) [catchup]
        (pack_units (with_allowance first.progress SNAPSHOT_BATCH_MAX_BYTES)
          [([⟨catchup, 10⟩], 0)])).catchup_bytes = 13 := by
      rw [PackedCall.catchup_bytes, PackedCall.sent_catchup, PackedCall.sent]
      refine (congrArg (fun sent => ((List.filter _ sent).map charged).sum) hsent).trans ?_
      decide
    have hordinary (remaining : Nat) : (PackedCall.mk (with_allowance second.progress remaining)
        [ordinary] (pack_units (with_allowance second.progress remaining)
          [([⟨ordinary, SNAPSHOT_BATCH_MAX_BYTES⟩], 0)])).ordinary_bytes =
            SNAPSHOT_BATCH_MAX_BYTES + 3 := by
      have hother : is_catchup (with_allowance second.progress remaining)
          ⟨ordinary, SNAPSHOT_BATCH_MAX_BYTES⟩ = false := by rfl
      rw [PackedCall.ordinary_bytes, PackedCall.sent_ordinary, PackedCall.sent]
      refine (congrArg (fun sent => ((List.filter _ sent).map charged).sum)
        (pack_ordinary_unit hother)).trans ?_
      rfl
    rw [hpass]
    simp only [map_cons, sum_cons]
    rw [hcatchup, hordinary]
    omega

end ottto_service.snapshot_sync
