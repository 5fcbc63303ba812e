-- What the first requests of an upload hold (snapshot_sync.rs), and what the catch-up of a
-- pass takes of its allowance over all calls.
import Ottto.PackingLaws
import Ottto.Results

namespace ottto_service.snapshot_sync

open List Member SortedMap

/-! ## One request -/

/-- A unit of a lane: every body of it is in the lane. -/
structure LaneLaws (progress : SnapshotUploadProgress) (unit : LaneUnit) : Prop where
  laws : UnitLaws unit.2
  lane : ∀ m ∈ unit.2, is_catchup progress m = unit.1

/-- All bodies of a request are of one class, and in one lane. -/
structure Uniform (progress : SnapshotUploadProgress) (members : List Member) : Prop where
  one_class : OneClass members
  one_lane : ∀ a ∈ members, ∀ b ∈ members, is_catchup progress a = is_catchup progress b

theorem unit_bytes_eq (unit : LaneUnit) :
    unit_bytes unit = min (unit.2.map Member.bytes).sum u64_max := by
  rw [unit_bytes, saturating_sum_eq _ (Nat.zero_le _), Nat.zero_add]

/-- Sums that stop at the word's end are the sums, where all of them together stay below. -/
theorem sum_of_saturated {sums : List Nat}
    (h : (sums.map (fun sum => min sum u64_max)).sum < u64_max) :
    (sums.map (fun sum => min sum u64_max)).sum = sums.sum := by
  induction sums with
  | nil => rfl
  | cons sum sums ih =>
    rw [map_cons, sum_cons] at h ⊢
    rw [sum_cons, ih (by omega)]
    omega

theorem batch_bytes_eq (batch : List LaneUnit) :
    ((batch.flatMap Prod.snd).map Member.bytes).sum =
      (batch.map (fun unit => (unit.2.map Member.bytes).sum)).sum := by
  induction batch with
  | nil => rfl
  | cons unit batch ih =>
    rw [flatMap_cons, map_append, sum_append, ih, map_cons, sum_cons]

variable {progress : SnapshotUploadProgress}

/-- The class of a unit is that of its bodies. -/
theorem unit_class_spec {unit : LaneUnit}
    (h : LaneLaws progress unit) {c : Option UInt8 × Bool} (hc : unit_class unit = c) :
    ∀ m ∈ unit.2, some m.batch_class = c.1 ∧ is_catchup progress m = c.2 := by
  intro m hm
  subst hc
  refine ⟨?_, h.lane m hm⟩
  obtain ⟨first, rest, hunit⟩ := exists_cons_of_ne_nil h.laws.filled
  have hfirst : first ∈ unit.2 := by rw [hunit]; exact mem_cons_self
  unfold unit_class
  rw [hunit]
  simpa using h.laws.one_class m hm first hfirst

/-- The merge of the lanes makes bounded requests of one class and one lane. -/
theorem merged_laws {lanes : List LaneUnit} (h : ∀ unit ∈ lanes, LaneLaws progress unit) :
    ∀ batch ∈ greedy.groups joins_batch lanes, batch ≠ [] ∧
      (Bounded (batch.flatMap Prod.snd) ∧ ∃ c : Option UInt8 × Bool, ∀ unit ∈ batch,
        unit ∈ lanes ∧ unit_class unit = c) := by
  apply greedy.groups_all
  · intro unit hunit
    refine ⟨?_, unit_class unit, fun other hother => ?_⟩
    · simpa using (h unit hunit).laws.bounded
    · rw [mem_singleton.mp hother]
      exact ⟨hunit, rfl⟩
  · intro batch unit hunit hne ⟨_, c, hclass⟩ hjoins
    simp only [joins_batch, Bool.not_eq_true', Bool.or_eq_false_iff, decide_eq_false_iff_not,
      not_lt, ne_eq, Decidable.not_not] at hjoins
    obtain ⟨⟨hcount, hbytes⟩, hsame⟩ := hjoins
    refine ⟨⟨?_, .inr ?_⟩, c, ?_⟩
    · simpa using hcount
    · rw [saturating_sum_eq _ two_le_max, unit_bytes_eq] at hbytes
      have hsum := sum_le_of_saturating batch_max_lt (Nat.not_lt.mpr hbytes)
      have hunits : batch.map unit_bytes =
          (batch.map (fun unit => (unit.2.map Member.bytes).sum)).map (fun sum => min sum u64_max) := by
        rw [map_map]
        exact map_congr_left (fun unit _ => unit_bytes_eq unit)
      rw [hunits] at hsum
      have hlimit := batch_max_lt
      rw [sum_of_saturated (by omega)] at hsum
      rw [batch_bytes_eq, map_append, sum_append]
      simpa [Nat.add_assoc] using hsum
    · obtain ⟨last, hlast, hlastclass⟩ := Option.map_eq_some_iff.mp hsame
      intro other hother
      rcases mem_append.mp hother with hother | hother
      · exact hclass other hother
      · rw [mem_singleton.mp hother, ← hlastclass]
        exact ⟨hunit, (hclass last (mem_of_getLast? hlast)).2⟩

/-- The bodies of a request. -/
theorem merged_uniform {lanes batch : List LaneUnit}
    (h : ∀ unit ∈ lanes, LaneLaws progress unit)
    (hbatch : batch ∈ greedy.groups joins_batch lanes) :
    batch.flatMap Prod.snd ≠ [] ∧ Bounded (batch.flatMap Prod.snd) ∧
      Uniform progress (batch.flatMap Prod.snd) := by
  obtain ⟨hne, hbounded, c, hclass⟩ := merged_laws h batch hbatch
  have hmember : ∀ m ∈ batch.flatMap Prod.snd,
      some m.batch_class = c.1 ∧ is_catchup progress m = c.2 := by
    intro m hm
    obtain ⟨unit, hunit, hm⟩ := mem_flatMap.mp hm
    obtain ⟨hin, hc⟩ := hclass unit hunit
    exact unit_class_spec (h unit hin) hc m hm
  refine ⟨?_, hbounded, ?_, ?_⟩
  · obtain ⟨unit, rest, rfl⟩ := exists_cons_of_ne_nil hne
    intro hempty
    rw [flatMap_cons, append_eq_nil_iff] at hempty
    exact (h unit (hclass unit mem_cons_self).1).laws.filled hempty.1
  · intro a ha b hb
    exact Option.some.inj ((hmember a ha).1.trans (hmember b hb).1.symm)
  · intro a ha b hb
    exact (hmember a ha).2.trans (hmember b hb).2.symm

/-- The length of the bodies as one JSON array: brackets, bodies and commas. -/
def array_length (members : List Member) : Nat :=
  2 + (members.map Member.length).sum + (members.length - 1)

theorem Bounded.array_length {members : List Member} (h : Bounded members)
    (hmany : 1 < members.length) : array_length members ≤ SNAPSHOT_BATCH_MAX_BYTES := by
  have hbytes := h.bytes.resolve_left (Nat.not_le.mpr hmany)
  have hsum : ∀ members : List Member, (members.map Member.bytes).sum ≤ SNAPSHOT_BATCH_MAX_BYTES →
      (members.map Member.length).sum + members.length = (members.map Member.bytes).sum := by
    intro members
    induction members with
    | nil => intro _; rfl
    | cons m members ih =>
      intro hle
      have hlimit := batch_max_lt
      rw [map_cons, sum_cons] at hle
      have hrest := ih (by omega)
      have hone : m.bytes = m.length + 1 := by
        unfold Member.bytes u64_saturating_add at hle ⊢
        omega
      rw [map_cons, sum_cons, map_cons, sum_cons, length_cons]
      omega
  have hall := hsum members (by omega)
  unfold snapshot_sync.array_length
  omega

/-! ## The requests of a call -/

section

variable (progress : SnapshotUploadProgress) (units : List PackingUnit)

/-- The catch-up of a call: what goes out, what stays owed, and the cycle after it. -/
def catchup_admission : List (List Member) × List Member × Cycle :=
  admit_units (ordinary_in_this_call progress units) (reserved_cycle progress units)
    (catchup_lane progress units)

/-- The units in the order of the requests, with their lane. -/
def lanes : List LaneUnit :=
  (ordinary_lane progress units).map (fun unit => (false, unit.1)) ++
    (catchup_admission progress units).1.map (fun unit => (true, unit))

theorem pack_units_batches : (pack_units progress units).batches =
    (greedy.groups joins_batch (lanes progress units)).map (fun batch => batch.flatMap Prod.snd) :=
  rfl

theorem pack_units_owed :
    (pack_units progress units).owed = (catchup_admission progress units).2.1 := rfl

theorem pack_units_cycle :
    (pack_units progress units).cycle = (catchup_admission progress units).2.2 := rfl

/-- The requests hold the ordinary bodies first, then the catch-up that goes out. -/
theorem pack_units_flatten : (pack_units progress units).batches.flatten =
    (ordinary_lane progress units).flatMap Prod.fst ++
      (catchup_admission progress units).1.flatten := by
  rw [pack_units_batches, ← flatMap_def, greedy.groups_flatMap, lanes, flatMap_append,
    flatMap_map, flatMap_map, flatMap_id']

end

section

variable {progress : SnapshotUploadProgress} {units : List PackingUnit}

theorem sorted_lane_laws {p : Member → Bool} (h : ∀ unit ∈ units, UnitLaws unit.1) :
    ∀ unit ∈ sort_by_family_key (lane_units p units),
      UnitLaws unit.1 ∧ ∀ m ∈ unit.1, p m = true :=
  fun unit hunit => lane_units_laws h unit ((sort_by_family_key_perm _).mem_iff.mp hunit)

theorem catchup_part (progress : SnapshotUploadProgress) (units : List PackingUnit) :
    Admission (reserved_cycle progress units) (catchup_admission progress units).2.2
      ((catchup_lane progress units).flatMap Prod.fst)
      (catchup_admission progress units).1.flatten (catchup_admission progress units).2.1 :=
  admit_units_spec _ _ _

variable {m : Member}

theorem mem_catchup_lane (h : m ∈ (catchup_lane progress units).flatMap Prod.fst) :
    is_catchup progress m = true := by
  have hin := (List.Perm.flatMap_right Prod.fst (sort_by_family_key_perm _)).mem_iff.mp h
  rw [lane_units_flatMap] at hin
  exact (mem_filter.mp hin).2

theorem mem_ordinary_lane (h : m ∈ (ordinary_lane progress units).flatMap Prod.fst) :
    is_catchup progress m = false := by
  have hin := (List.Perm.flatMap_right Prod.fst (sort_by_family_key_perm _)).mem_iff.mp h
  rw [lane_units_flatMap] at hin
  simpa using (mem_filter.mp hin).2

theorem mem_sent_catchup (h : m ∈ (catchup_admission progress units).1.flatten) :
    is_catchup progress m = true :=
  mem_catchup_lane ((catchup_part progress units).part.subset h)

theorem lanes_laws (h : ∀ unit ∈ units, UnitLaws unit.1) :
    ∀ unit ∈ lanes progress units, LaneLaws progress unit := by
  intro unit hunit
  rcases mem_append.mp hunit with hunit | hunit
  · obtain ⟨ordinary, hordinary, rfl⟩ := mem_map.mp hunit
    obtain ⟨hlaws, hlane⟩ := sorted_lane_laws h ordinary hordinary
    exact ⟨hlaws, fun m hm => by simpa using hlane m hm⟩
  · obtain ⟨part, hpart, rfl⟩ := mem_map.mp hunit
    refine ⟨admit_units_laws (fun unit hunit => (sorted_lane_laws h unit hunit).1) part hpart, ?_⟩
    exact fun m hm => mem_sent_catchup (mem_flatten.mpr ⟨part, hpart, hm⟩)

/-- Every unit's bodies go out once or stay owed. -/
theorem pack_units_perm (progress : SnapshotUploadProgress) (units : List PackingUnit) :
    ((pack_units progress units).batches.flatten ++ (pack_units progress units).owed).Perm
      (units.flatMap Prod.fst) := by
  rw [pack_units_flatten, pack_units_owed, append_assoc]
  have hordinary := List.Perm.flatMap_right Prod.fst
    (sort_by_family_key_perm (lane_units (fun m => !is_catchup progress m) units))
  have hcatchup := List.Perm.flatMap_right Prod.fst
    (sort_by_family_key_perm (lane_units (is_catchup progress) units))
  rw [lane_units_flatMap] at hordinary hcatchup
  have hsent := (catchup_part progress units).perm.trans hcatchup
  refine (hordinary.append hsent).trans ?_
  refine perm_append_comm.trans ?_
  exact filter_append_perm (is_catchup progress) _

/-- In the requests the ordinary bodies come before the catch-up. -/
theorem pack_units_lanes (progress : SnapshotUploadProgress) (units : List PackingUnit) :
    (pack_units progress units).batches.flatten.Pairwise
      (fun a b => is_catchup progress a = true → is_catchup progress b = true) := by
  rw [pack_units_flatten]
  apply pairwise_append.mpr
  refine ⟨?_, ?_, ?_⟩
  · apply pairwise_of_forall_mem_list
    intro a ha b _ hcatchup
    rw [mem_ordinary_lane ha] at hcatchup
    cases hcatchup
  · apply pairwise_of_forall_mem_list
    intro a _ b hb _
    exact mem_sent_catchup hb
  · intro a _ b hb _
    exact mem_sent_catchup hb

theorem filter_of_none {α : Type} {p : α → Bool} {l : List α} (h : ∀ x ∈ l, p x = false) :
    l.filter p = [] := by
  apply filter_eq_nil_iff.mpr
  intro x hx
  simp [h x hx]

/-- A lane keeps a family in the order that the units have it in. -/
theorem lane_family {root : String} (h : ∀ unit ∈ units, UnitLaws unit.1)
    (hkeyed : FamilyKeyed units)
    (horder : ((units.flatMap Prod.fst).filter (in_family root)).Pairwise
      (fun a b => family_le root a b = true)) (p : Member → Bool) :
    (((sort_by_family_key (lane_units p units)).flatMap Prod.fst).filter (in_family root)).Pairwise
      (fun a b => family_le root a b = true) := by
  rw [sorted_family root (fun unit hunit => (lane_units_laws h unit hunit).1)
    (lane_units_keyed hkeyed), lane_units_flatMap, filter_filter]
  refine List.Pairwise.sublist ?_ horder
  rw [show (fun a => in_family root a && p a) = (fun a => p a && in_family root a) from
    funext (fun a => Bool.and_comm _ _), ← filter_filter]
  exact filter_sublist

/-- The bodies of a family that go out in one lane keep the family's order. -/
theorem pack_units_family {root : String} (h : ∀ unit ∈ units, UnitLaws unit.1)
    (hkeyed : FamilyKeyed units)
    (horder : ((units.flatMap Prod.fst).filter (in_family root)).Pairwise
      (fun a b => family_le root a b = true)) (lane : Bool) :
    ((pack_units progress units).batches.flatten.filter
      (fun m => in_family root m && (is_catchup progress m == lane))).Pairwise
        (fun a b => family_le root a b = true) := by
  rw [pack_units_flatten, filter_append]
  cases lane with
  | false =>
    rw [filter_of_none (l := (catchup_admission progress units).1.flatten)
      (fun m hm => by simp [mem_sent_catchup hm]), append_nil, ← filter_filter]
    refine List.Pairwise.sublist (filter_sublist.filter _) (lane_family h hkeyed horder _)
  | true =>
    rw [filter_of_none (l := (ordinary_lane progress units).flatMap Prod.fst)
      (fun m hm => by simp [mem_ordinary_lane hm]), nil_append, ← filter_filter]
    refine List.Pairwise.sublist ?_ (lane_family h hkeyed horder (is_catchup progress))
    exact (filter_sublist.trans (catchup_part progress units).part).filter _

end

/-! ## The pending bodies -/

/-- A pending body: one of the input, not settled, under its fingerprint. -/
structure IsPending (progress : SnapshotUploadProgress) (items : List Body) (fp : String)
    (m : Member) : Prop where
  fingerprint : m.body.fingerprint = fp
  offered : m.body ∈ items
  unsettled : progress.contains_body m.body.fingerprint m.body.body_witness = false
  length : m.body.json_length = some m.length

variable {pending : SortedMap String Member}

/-- What one item of the input does to the pending bodies. -/
theorem add_pending_cases {after : SortedMap String Member}
    {item : Body} (h : add_pending progress pending item = .ok after) :
    (after = pending ∧ (progress.contains_body item.fingerprint item.body_witness = true ∨
      pending.contains item.fingerprint = true)) ∨
    ∃ length, progress.contains_body item.fingerprint item.body_witness = false ∧
      item.json_length = some length ∧ after = pending.insert item.fingerprint ⟨item, length⟩ := by
  unfold add_pending at h
  cases hcontains : progress.contains_body item.fingerprint item.body_witness with
  | true =>
    rw [if_pos hcontains] at h
    exact .inl ⟨(Except.ok.inj h).symm, .inl rfl⟩
  | false =>
    rw [if_neg (by simp [hcontains])] at h
    by_cases hthere : pending.contains item.fingerprint = true
    · rw [if_pos hthere] at h
      exact .inl ⟨(Except.ok.inj h).symm, .inr hthere⟩
    · rw [if_neg hthere] at h
      cases hlength : item.json_length with
      | none => rw [hlength] at h; cases h
      | some length =>
        rw [hlength] at h
        exact .inr ⟨length, rfl, rfl, (Except.ok.inj h).symm⟩

variable {items : List Body}

theorem pending_sound (h : pending_by_fingerprint progress items = .ok pending)
    {fp : String} {m : Member}
    (hget : pending.get? fp = some m) : IsPending progress items fp m := by
  have hall : ∀ fp m, pending.get? fp = some m → IsPending progress items fp m := by
    apply Results.foldlM_invariant
      (fun pending : SortedMap String Member =>
        ∀ fp m, pending.get? fp = some m → IsPending progress items fp m) ?_ ?_ h
    · intro item hitem before after hbefore hstep
      rcases add_pending_cases hstep with ⟨rfl, -⟩ | ⟨length, hcontains, hlength, rfl⟩
      · exact hbefore
      · exact forall_insert ⟨rfl, hitem, hcontains, hlength⟩ hbefore
    · intro fp m hget
      simp at hget
  exact hall fp m hget

/-- Every item that is not settled has its fingerprint among the pending ones. -/
theorem pending_complete (h : pending_by_fingerprint progress items = .ok pending)
    {item : Body} (hitem : item ∈ items)
    (hcontains : progress.contains_body item.fingerprint item.body_witness = false) :
    (pending.get? item.fingerprint).isSome = true := by
  have hgrow : ∀ {start last : SortedMap String Member} {items : List Body},
      items.foldlM (add_pending progress) start = .ok last →
      (∀ fp, (start.get? fp).isSome = true → (last.get? fp).isSome = true) ∧
        ∀ item ∈ items, progress.contains_body item.fingerprint item.body_witness = false →
          (last.get? item.fingerprint).isSome = true := by
    intro start last items
    induction items generalizing start with
    | nil =>
      intro hrun
      cases hrun
      exact ⟨fun fp hfp => hfp, by simp⟩
    | cons first items ih =>
      intro hrun
      rw [foldlM_cons] at hrun
      obtain ⟨next, hnext, hrest⟩ := Results.bind_eq_ok.mp hrun
      obtain ⟨hkeep, hall⟩ := ih hrest
      rcases add_pending_cases hnext with ⟨rfl, hthere⟩ | ⟨length, -, -, rfl⟩
      · refine ⟨hkeep, forall_mem_cons.mpr ⟨fun hfirst => ?_, hall⟩⟩
        rcases hthere with hthere | hthere
        · rw [hthere] at hfirst
          cases hfirst
        · exact hkeep _ hthere
      · refine ⟨fun fp hfp => hkeep fp ?_, forall_mem_cons.mpr ⟨fun _ => hkeep _ (by simp), hall⟩⟩
        rw [get?_insert]
        split
        · rfl
        · exact hfp
  exact (hgrow h).2 item hitem hcontains

/-- The pending bodies of an input: one for each fingerprint that is not settled. -/
theorem pending_fingerprints (h : pending_by_fingerprint progress items = .ok pending) :
    (pending.values.map (fun m => m.body.fingerprint)).Nodup ∧
      ∀ fp, fp ∈ pending.values.map (fun m => m.body.fingerprint) ↔
        ∃ item ∈ items, item.fingerprint = fp ∧
          progress.contains_body item.fingerprint item.body_witness = false := by
  have hkeys : pending.values.map (fun m => m.body.fingerprint) = pending.keys := by
    unfold SortedMap.values SortedMap.keys
    rw [map_map]
    apply map_congr_left
    intro e he
    exact (pending_sound h (mem_entries.mp he)).fingerprint
  rw [hkeys]
  refine ⟨pending.keys_nodup, fun fp => ?_⟩
  rw [mem_keys_iff]
  constructor
  · intro hfp
    obtain ⟨m, hm⟩ := Option.isSome_iff_exists.mp hfp
    obtain ⟨hfp, hoffered, hunsettled, -⟩ := pending_sound h hm
    exact ⟨m.body, hoffered, hfp, hunsettled⟩
  · rintro ⟨item, hitem, rfl, hunsettled⟩
    exact pending_complete h hitem hunsettled

end ottto_service.snapshot_sync
