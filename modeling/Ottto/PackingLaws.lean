-- The requests of an upload are a bounded partition of the pending bodies
-- (snapshot_sync.rs): each is of one class and one lane, within the limits of a request,
-- and a literal family keeps its order.
import Ottto.Packing

namespace ottto_service.snapshot_sync

open List Member SortedMap

/-! ## Sums -/

theorem saturating_sum_eq (lengths : List Nat) {start : Nat} (h : start ≤ u64_max) :
    saturating_sum start lengths = min (start + lengths.sum) u64_max := by
  induction lengths generalizing start with
  | nil => simpa [saturating_sum] using h
  | cons length lengths ih =>
    have hnext : u64_saturating_add start length ≤ u64_max := Nat.min_le_right _ _
    have hrest := ih hnext
    unfold saturating_sum at hrest ⊢
    rw [foldl_cons, hrest, sum_cons]
    unfold u64_saturating_add
    omega

theorem two_le_max : 2 ≤ u64_max := by decide

theorem batch_max_lt : SNAPSHOT_BATCH_MAX_BYTES < u64_max := by decide

/-- A sum that stops at the limit is the sum itself. -/
theorem sum_le_of_saturating {a b limit : Nat} (hlimit : limit < u64_max)
    (h : ¬ limit < u64_saturating_add (min a u64_max) (min b u64_max)) : a + b ≤ limit := by
  unfold u64_saturating_add at h
  omega

/-! ## The limits of a request -/

/-- Few bodies, and more than one only within the bytes of a request. -/
structure Bounded (members : List Member) : Prop where
  count : members.length ≤ SNAPSHOT_BATCH_LIMIT
  bytes : members.length ≤ 1 ∨ 2 + (members.map Member.bytes).sum ≤ SNAPSHOT_BATCH_MAX_BYTES

theorem Bounded.one (m : Member) : Bounded [m] :=
  ⟨show 1 ≤ SNAPSHOT_BATCH_LIMIT by decide, .inl (Nat.le_refl 1)⟩

variable {part members : List Member}

theorem Bounded.sublist (h : Bounded members) (hsub : part.Sublist members) : Bounded part := by
  have hlength := hsub.length_le
  constructor
  · exact hlength.trans h.count
  · rcases h.bytes with hone | hbytes
    · exact .inl (hlength.trans hone)
    · have hsum := (hsub.map Member.bytes).sum_le_sum (fun _ _ => Nat.zero_le _)
      exact .inr (by omega)

def OneClass (members : List Member) : Prop :=
  ∀ a ∈ members, ∀ b ∈ members, a.batch_class = b.batch_class

theorem OneClass.sublist (h : OneClass members) (hsub : part.Sublist members) : OneClass part :=
  fun a ha b hb => h a (hsub.subset ha) b (hsub.subset hb)

theorem bytes_le_max (m : Member) : min m.bytes u64_max = m.bytes :=
  Nat.min_eq_left (Nat.min_le_right _ _)

/-- The groups of a family are bounded, and of one class each. -/
theorem literal_family_groups_bounded (members : List Member) :
    ∀ group ∈ literal_family_groups members, group ≠ [] ∧ Bounded group ∧ OneClass group := by
  apply greedy.groups_all
  · intro m _
    refine ⟨Bounded.one m, ?_⟩
    intro a ha b hb
    rw [mem_singleton.mp ha, mem_singleton.mp hb]
  · intro group m _ hne hgroup hjoins
    obtain ⟨⟨hcount, -⟩, hclass⟩ := hgroup
    simp only [joins_group, Bool.not_eq_true', Bool.or_eq_false_iff, decide_eq_false_iff_not] at hjoins
    obtain ⟨⟨hfull, hbytes⟩, hsame⟩ := hjoins
    rw [saturating_sum_eq _ two_le_max, ← bytes_le_max m] at hbytes
    have hsum := sum_le_of_saturating batch_max_lt hbytes
    refine ⟨⟨?_, .inr ?_⟩, ?_⟩
    · rw [length_append, length_singleton]
      omega
    · simp only [map_append, sum_append, map_cons, map_nil, sum_cons,
        sum_nil]
      omega
    · obtain ⟨first, rest, rfl⟩ := exists_cons_of_ne_nil hne
      have hfirst : first.batch_class = m.batch_class := by
        simpa using hsame
      have hall : ∀ a ∈ (first :: rest) ++ [m], a.batch_class = m.batch_class := by
        intro a ha
        rcases mem_append.mp ha with ha | ha
        · rw [hclass a ha first mem_cons_self, hfirst]
        · rw [mem_singleton.mp ha]
      intro a ha b hb
      rw [hall a ha, hall b hb]

/-! ## The order of a family -/

theorem family_le_total (root : String) (a b : Member) :
    (family_le root a b || family_le root b a) = true := by
  unfold family_le
  cases decide (a.body.session_id = some root) with
  | true => rfl
  | false =>
    cases decide (b.body.session_id = some root) with
    | true => rfl
    | false =>
      cases a.body.session_id with
      | none => rfl
      | some s =>
        cases b.body.session_id with
        | none => rfl
        | some t => simpa using le_total s t

theorem family_le_trans (root : String) (a b c : Member) (hab : family_le root a b = true)
    (hbc : family_le root b c = true) : family_le root a c = true := by
  unfold family_le at *
  cases ha : decide (a.body.session_id = some root) with
  | true => rfl
  | false =>
    rw [ha] at hab
    cases hb : decide (b.body.session_id = some root) with
    | true => rw [hb] at hab; cases hab
    | false =>
      rw [hb] at hab hbc
      cases hc : decide (c.body.session_id = some root) with
      | true => rw [hc] at hbc; cases hbc
      | false =>
        rw [hc] at hbc
        cases hs : a.body.session_id with
        | none => rfl
        | some s =>
          cases ht : b.body.session_id with
          | none => rw [hs, ht] at hab; cases hab
          | some t =>
            cases hu : c.body.session_id with
            | none => rw [ht, hu] at hbc; cases hbc
            | some u =>
              rw [hs, ht] at hab
              rw [ht, hu] at hbc
              exact decide_eq_true (le_trans (of_decide_eq_true hab) (of_decide_eq_true hbc))

/-! ## The units -/

def in_family (root : String) (m : Member) : Bool := m.body.literal_family == some root

/-- The families of the pending bodies, beside those that are there already. -/
theorem literal_families_get (pending : List Member) (root : String) :
    ((literal_families pending).get? root).getD [] = pending.filter (in_family root) := by
  have hfold : ∀ families : SortedMap String (List Member),
      ((pending.foldl push_member families).get? root).getD [] =
        (families.get? root).getD [] ++ pending.filter (in_family root) := by
    induction pending with
    | nil => simp
    | cons m pending ih =>
      intro families
      rw [foldl_cons, ih]
      cases hm : m.body.literal_family with
      | none => simp [push_member, in_family, hm]
      | some other =>
        by_cases hroot : root = other
        · subst hroot
          simp [push_member, in_family, hm]
        · have hne : ¬ other = root := fun h => hroot h.symm
          simp [push_member, in_family, hm, get?_insert, hroot, hne]
  simpa [literal_families] using hfold .empty

/-- Each body of a family is in the families once. -/
theorem literal_families_perm (pending : List Member) :
    ((literal_families pending).entries.flatMap Prod.snd).Perm
      (pending.filter (fun m => m.body.literal_family.isSome)) := by
  have hfold : ∀ families : SortedMap String (List Member),
      ((pending.foldl push_member families).entries.flatMap Prod.snd).Perm
        (families.entries.flatMap Prod.snd ++
          pending.filter (fun m => m.body.literal_family.isSome)) := by
    induction pending with
    | nil => intro families; simp
    | cons m pending ih =>
      intro families
      rw [foldl_cons]
      refine (ih _).trans ?_
      cases hm : m.body.literal_family with
      | none => simp [push_member, hm]
      | some root =>
        have hinsert := (families.entries_insert_perm root
          ((families.get? root).getD [] ++ [m])).flatMap_right Prod.snd
        have hold : (families.entries.flatMap Prod.snd).Perm
            ((families.get? root).getD [] ++ (families.erase root).entries.flatMap Prod.snd) := by
          cases hget : families.get? root with
          | none => rw [erase_of_absent hget]; simp
          | some old => exact (entries_perm_erase hget).flatMap_right Prod.snd
        have hfilter : (m :: pending).filter (fun m => m.body.literal_family.isSome) =
            m :: pending.filter (fun m => m.body.literal_family.isSome) := by
          simp [hm]
        rw [hfilter]
        have hpush : push_member families m =
            families.insert root ((families.get? root).getD [] ++ [m]) := by
          simp [push_member, hm]
        rw [hpush]
        refine (hinsert.append_right _).trans (.trans ?_ (hold.append_right _).symm)
        simp only [flatMap_cons, append_assoc, singleton_append]
        exact (perm_middle.symm.append_left _).trans (by simp) |>.trans (.refl _)
  simpa [literal_families] using hfold .empty

theorem family_units_flatMap (root : String) (members : List Member) :
    (family_units root members).flatMap Prod.fst = members.mergeSort (family_le root) := by
  unfold family_units
  cases hsorted : members.mergeSort (family_le root) with
  | nil => rfl
  | cons first rest =>
    dsimp only
    rw [flatMap_map, flatMap_id']
    exact greedy.groups_flatten _

/-! ## Units of the pending bodies -/

/-- What every unit keeps: it is not empty, its bodies are of one class and one family,
and they fit a request unless there is but one. -/
structure UnitLaws (members : List Member) : Prop where
  filled : members ≠ []
  bounded : Bounded members
  one_class : OneClass members
  one_family : ∀ a ∈ members, ∀ b ∈ members, a.body.literal_family = b.body.literal_family

theorem UnitLaws.sublist (h : UnitLaws members)
    (hsub : part.Sublist members) (hfilled : part ≠ []) : UnitLaws part :=
  ⟨hfilled, h.bounded.sublist hsub, h.one_class.sublist hsub,
    fun a ha b hb => h.one_family a (hsub.subset ha) b (hsub.subset hb)⟩

variable {root : String}

theorem family_member {pending : List Member}
    (h : (root, members) ∈ (literal_families pending).entries) {m : Member} (hm : m ∈ members) :
    m.body.literal_family = some root := by
  have hget := mem_entries.mp h
  have hfilter := literal_families_get pending root
  rw [hget, Option.getD_some] at hfilter
  rw [hfilter] at hm
  exact eq_of_beq (mem_filter.mp hm).2

theorem family_units_laws (h : ∀ m ∈ members, m.body.literal_family = some root) :
    ∀ unit ∈ family_units root members, UnitLaws unit.1 := by
  intro unit hunit
  have hflat := family_units_flatMap root members
  unfold family_units at hunit
  cases hsorted : members.mergeSort (family_le root) with
  | nil => rw [hsorted] at hunit; cases hunit
  | cons first rest =>
    rw [hsorted] at hunit
    obtain ⟨group, hgroup, rfl⟩ := mem_map.mp hunit
    obtain ⟨hfilled, hbounded, hclass⟩ := literal_family_groups_bounded _ group hgroup
    have hfamily : ∀ m ∈ group, m.body.literal_family = some root := by
      intro m hm
      have hin : m ∈ (literal_family_groups (first :: rest)).flatten :=
        mem_flatten.mpr ⟨group, hgroup, hm⟩
      unfold literal_family_groups at hin
      rw [greedy.groups_flatten, ← hsorted] at hin
      exact h m (mem_mergeSort.mp hin)
    exact ⟨hfilled, hbounded, hclass, fun a ha b hb => (hfamily a ha).trans (hfamily b hb).symm⟩

theorem packing_units_laws (pending : List Member) :
    ∀ unit ∈ packing_units pending, UnitLaws unit.1 := by
  intro unit hunit
  rcases mem_append.mp hunit with hunit | hunit
  · obtain ⟨m, -, rfl⟩ := mem_map.mp hunit
    have hself : ∀ a ∈ [m], a = m := fun a ha => mem_singleton.mp ha
    refine ⟨cons_ne_nil _ _, Bounded.one m, ?_, ?_⟩
    · intro a ha b hb
      rw [hself a ha, hself b hb]
    · intro a ha b hb
      rw [hself a ha, hself b hb]
  · obtain ⟨e, he, hunit⟩ := mem_flatMap.mp hunit
    exact family_units_laws (fun m hm => family_member he hm) unit hunit

/-- The units hold each pending body once. -/
theorem packing_units_perm (pending : List Member) :
    ((packing_units pending).flatMap Prod.fst).Perm pending := by
  have hsingles : ((pending.filter (fun m => m.body.literal_family.isNone)).map
      (fun m => ([m], m.batch_class))).flatMap Prod.fst =
        pending.filter (fun m => m.body.literal_family.isNone) := by
    rw [flatMap_map]
    exact flatMap_singleton' _
  have hfamilies : (((literal_families pending).entries.flatMap
      (fun e => family_units e.1 e.2)).flatMap Prod.fst).Perm
        ((literal_families pending).entries.flatMap Prod.snd) := by
    rw [flatMap_assoc]
    apply List.Perm.flatMap_left
    intro e _
    rw [family_units_flatMap]
    exact mergeSort_perm _ _
  have hsplit := filter_append_perm (fun m => m.body.literal_family.isNone) pending
  unfold packing_units
  rw [flatMap_append, hsingles]
  refine .trans (((hfamilies.trans (literal_families_perm pending)).append_left _)) ?_
  simpa using hsplit

/-! ## The lanes -/

theorem lane_units_flatMap (p : Member → Bool) (units : List PackingUnit) :
    (lane_units p units).flatMap Prod.fst = (units.flatMap Prod.fst).filter p := by
  induction units with
  | nil => rfl
  | cons unit units ih =>
    unfold lane_units at ih ⊢
    rw [map_cons, filter_cons, flatMap_cons, filter_append, ← ih]
    cases hempty : unit.1.filter p with
    | nil => simp
    | cons m rest => simp

variable {units : List PackingUnit}

theorem lane_units_laws {p : Member → Bool} (h : ∀ unit ∈ units, UnitLaws unit.1) :
    ∀ unit ∈ lane_units p units, UnitLaws unit.1 ∧ ∀ m ∈ unit.1, p m = true := by
  intro unit hunit
  obtain ⟨hunit, hfilled⟩ := mem_filter.mp hunit
  obtain ⟨whole, hwhole, rfl⟩ := mem_map.mp hunit
  have hne : whole.1.filter p ≠ [] := by
    intro hempty
    simp [hempty] at hfilled
  exact ⟨(h whole hwhole).sublist filter_sublist hne, fun m hm => (mem_filter.mp hm).2⟩

theorem sort_by_family_key_perm (units : List PackingUnit) :
    (sort_by_family_key units).Perm units := mergeSort_perm _ _

/-- The unit is of the family. -/
def unit_in_family (root : String) (unit : PackingUnit) : Bool :=
  unit.1.any (in_family root)

/-- The bodies of a family are those of its units. -/
theorem family_of_units (root : String) (h : ∀ unit ∈ units, UnitLaws unit.1) :
    (units.flatMap Prod.fst).filter (in_family root) =
      (units.filter (unit_in_family root)).flatMap Prod.fst := by
  induction units with
  | nil => rfl
  | cons unit units ih =>
    obtain ⟨hunit, hunits⟩ := forall_mem_cons.mp h
    rw [flatMap_cons, filter_append, ih hunits, filter_cons]
    by_cases hany : unit_in_family root unit = true
    · rw [if_pos hany, flatMap_cons]
      obtain ⟨a, ha, hroot⟩ := any_eq_true.mp hany
      have hall : unit.1.filter (in_family root) = unit.1 := by
        apply filter_eq_self.mpr
        intro b hb
        rw [in_family, hunit.one_family b hb a ha]
        exact hroot
      rw [hall]
    · rw [if_neg hany]
      have hnone : unit.1.filter (in_family root) = [] := by
        apply filter_eq_nil_iff.mpr
        intro b hb hroot
        exact hany (any_eq_true.mpr ⟨b, hb, hroot⟩)
      rw [hnone, nil_append]

/-- The units of a family are ordered by one key. -/
def FamilyKeyed (units : List PackingUnit) : Prop :=
  ∀ root, ∀ u ∈ units, ∀ v ∈ units, unit_in_family root u = true → unit_in_family root v = true →
    u.2 = v.2

/-- The sort by the family key leaves each family in its order. -/
theorem sorted_family (root : String)
    (h : ∀ unit ∈ units, UnitLaws unit.1) (hkeyed : FamilyKeyed units) :
    ((sort_by_family_key units).flatMap Prod.fst).filter (in_family root) =
      (units.flatMap Prod.fst).filter (in_family root) := by
  have hsorted : ∀ unit ∈ sort_by_family_key units, UnitLaws unit.1 :=
    fun unit hunit => h unit ((sort_by_family_key_perm units).mem_iff.mp hunit)
  rw [family_of_units root hsorted, family_of_units root h]
  congr 1
  apply greedy.mergeSort_filter_mem
  · intro a b c hab hbc
    exact decide_eq_true (UInt8.le_trans (of_decide_eq_true hab) (of_decide_eq_true hbc))
  · intro a b
    simpa using UInt8.le_total a.2 b.2
  · intro u hu v hv hfu hfv
    rw [hkeyed root u hu v hv hfu hfv]
    exact decide_eq_true (UInt8.le_refl v.2)

theorem lane_units_keyed {p : Member → Bool} (h : FamilyKeyed units) :
    FamilyKeyed (lane_units p units) := by
  have hwhole : ∀ root, ∀ u ∈ lane_units p units, unit_in_family root u = true →
      ∃ w ∈ units, unit_in_family root w = true ∧ w.2 = u.2 := by
    intro root u hu hfamily
    obtain ⟨hu, -⟩ := mem_filter.mp hu
    obtain ⟨w, hw, rfl⟩ := mem_map.mp hu
    obtain ⟨m, hm, hroot⟩ := any_eq_true.mp hfamily
    exact ⟨w, hw, any_eq_true.mpr ⟨m, (mem_filter.mp hm).1, hroot⟩, rfl⟩
  intro root u hu v hv hfu hfv
  obtain ⟨w, hw, hfw, hwu⟩ := hwhole root u hu hfu
  obtain ⟨x, hx, hfx, hxv⟩ := hwhole root v hv hfv
  rw [← hwu, ← hxv]
  exact h root w hw x hx hfw hfx

theorem family_units_key {u v : PackingUnit}
    (hu : u ∈ family_units root members) (hv : v ∈ family_units root members) : u.2 = v.2 := by
  unfold family_units at hu hv
  cases hsorted : members.mergeSort (family_le root) with
  | nil => rw [hsorted] at hu; cases hu
  | cons first rest =>
    rw [hsorted] at hu hv
    obtain ⟨_, -, rfl⟩ := mem_map.mp hu
    obtain ⟨_, -, rfl⟩ := mem_map.mp hv
    rfl

/-- A unit of a family comes of that family's members. -/
theorem packing_unit_of_family {pending : List Member} {unit : PackingUnit}
    (h : unit ∈ packing_units pending) (hfamily : unit_in_family root unit = true) :
    ∃ members, (root, members) ∈ (literal_families pending).entries ∧
      unit ∈ family_units root members := by
  obtain ⟨m, hm, hroot⟩ := any_eq_true.mp hfamily
  have hroot : m.body.literal_family = some root := eq_of_beq hroot
  rcases mem_append.mp h with h | h
  · obtain ⟨single, hsingle, rfl⟩ := mem_map.mp h
    rw [mem_singleton.mp hm] at hroot
    have hnone := (mem_filter.mp hsingle).2
    rw [hroot] at hnone
    cases hnone
  · obtain ⟨⟨other, members⟩, he, hunit⟩ := mem_flatMap.mp h
    have hin : m ∈ (family_units other members).flatMap Prod.fst :=
      mem_flatMap.mpr ⟨unit, hunit, hm⟩
    rw [family_units_flatMap] at hin
    have hother := family_member he (mem_mergeSort.mp hin)
    rw [hroot] at hother
    cases hother
    exact ⟨members, he, hunit⟩

theorem packing_units_keyed (pending : List Member) : FamilyKeyed (packing_units pending) := by
  intro root u hu v hv hfu hfv
  obtain ⟨members, hmembers, hu⟩ := packing_unit_of_family hu hfu
  obtain ⟨others, hothers, hv⟩ := packing_unit_of_family hv hfv
  have hsame : members = others := by
    have h := mem_entries.mp hmembers
    rw [mem_entries.mp hothers] at h
    exact (Option.some.inj h).symm
  subst hsame
  exact family_units_key hu hv

/-- No unit of another family is of this one. -/
theorem family_units_other {other : String}
    (h : ∀ m ∈ members, m.body.literal_family = some other) (hne : other ≠ root) :
    (family_units other members).filter (unit_in_family root) = [] := by
  apply filter_eq_nil_iff.mpr
  intro unit hunit hroot
  obtain ⟨m, hm, hroot⟩ := any_eq_true.mp hroot
  have hin : m ∈ (family_units other members).flatMap Prod.fst :=
    mem_flatMap.mpr ⟨unit, hunit, hm⟩
  rw [family_units_flatMap] at hin
  have hfamily := h m (mem_mergeSort.mp hin)
  rw [eq_of_beq hroot] at hfamily
  exact hne (Option.some.inj hfamily).symm

/-- The units of a family in a map of families: those of the one entry. -/
theorem units_of_families (root : String) {entries : List (String × List Member)}
    (hsorted : entries.Pairwise (fun a b => a.1 < b.1))
    (hmembers : ∀ e ∈ entries, ∀ m ∈ e.2, m.body.literal_family = some e.1) :
    ∃ members, (entries.flatMap (fun e => family_units e.1 e.2)).filter (unit_in_family root) =
      (family_units root members).filter (unit_in_family root) := by
  induction entries with
  | nil => exact ⟨[], by simp [family_units]⟩
  | cons e entries ih =>
    obtain ⟨hbelow, hsorted⟩ := pairwise_cons.mp hsorted
    obtain ⟨he, hmembers⟩ := forall_mem_cons.mp hmembers
    rw [flatMap_cons, filter_append]
    by_cases hroot : e.1 = root
    · have hrest : (entries.flatMap (fun e => family_units e.1 e.2)).filter
          (unit_in_family root) = [] := by
        rw [filter_flatMap]
        apply flatMap_eq_nil_iff.mpr
        intro other hin
        apply family_units_other (hmembers other hin)
        intro hsame
        have hlt := hbelow other hin
        rw [hroot, hsame] at hlt
        exact lt_irrefl _ hlt
      rw [hrest, append_nil, hroot]
      exact ⟨e.2, rfl⟩
    · rw [family_units_other he hroot, nil_append]
      exact ih hsorted hmembers

theorem packing_units_of_family (pending : List Member) (root : String) :
    ∃ members, (packing_units pending).filter (unit_in_family root) =
      (family_units root members).filter (unit_in_family root) := by
  have hsingles : ((pending.filter (fun m => m.body.literal_family.isNone)).map
      (fun m => ([m], m.batch_class))).filter (unit_in_family root) = [] := by
    apply filter_eq_nil_iff.mpr
    intro unit hunit hroot
    obtain ⟨m, hm, rfl⟩ := mem_map.mp hunit
    have hnone := (mem_filter.mp hm).2
    simp [unit_in_family, in_family] at hroot
    simp [hroot] at hnone
  unfold packing_units
  rw [filter_append, hsingles, nil_append]
  exact units_of_families root (literal_families pending).sorted
    (fun e he m hm => family_member he hm)

/-- A family's bodies come in the order of the family. -/
theorem packing_units_family (pending : List Member) (root : String) :
    (((packing_units pending).flatMap Prod.fst).filter (in_family root)).Pairwise
      (fun a b => family_le root a b = true) := by
  obtain ⟨members, hmembers⟩ := packing_units_of_family pending root
  rw [family_of_units root (packing_units_laws pending), hmembers]
  have hsub : (((family_units root members).filter (unit_in_family root)).flatMap Prod.fst).Sublist
      ((family_units root members).flatMap Prod.fst) := by
    rw [flatMap_def, flatMap_def]
    exact (filter_sublist.map Prod.fst).flatten
  rw [family_units_flatMap] at hsub
  exact (pairwise_mergeSort (family_le_trans root) (family_le_total root) members).sublist hsub

/-! ## The allowance -/

/-- The catch-up of a unit: what goes out and what stays owed, and what it is charged. -/
structure Admission (cycle after : Cycle) (unit sent owed : List Member) : Prop where
  perm : (sent ++ owed).Perm unit
  part : sent.Sublist unit
  paid : (sent.map charged).sum + after.remaining_bytes = cycle.remaining_bytes
  deferred : after.deferred = cycle.deferred ∪ (owed.map (fun m => m.body.fingerprint)).toFinset

theorem admit_unit_spec (in_this_call : Bool) (cycle : Cycle) (unit : List Member) :
    Admission cycle (admit_unit in_this_call cycle unit).2.2 unit
      (admit_unit in_this_call cycle unit).1 (admit_unit in_this_call cycle unit).2.1 := by
  induction unit generalizing cycle with
  | nil => exact ⟨.refl _, .refl _, by simp [admit_unit], by simp [admit_unit]⟩
  | cons m unit ih =>
    rw [admit_unit]
    cases hadmit : (if in_this_call then cycle.admit_catchup_bytes (charged m) else none) with
    | some admitted =>
      obtain ⟨hperm, hsent, hcharged, hdeferred⟩ := ih admitted
      have hpaid : charged m + admitted.remaining_bytes = cycle.remaining_bytes ∧
          admitted.deferred = cycle.deferred := by
        cases in_this_call with
        | false => simp at hadmit
        | true =>
          rw [if_pos rfl, Cycle.admit_catchup_bytes] at hadmit
          split at hadmit
          · cases hadmit
          · cases hadmit
            exact ⟨Nat.add_sub_cancel' (Nat.le_of_not_lt ‹_›), rfl⟩
      refine ⟨hperm.cons m, hsent.cons_cons m, ?_, ?_⟩
      · rw [map_cons, sum_cons, Nat.add_assoc, hcharged]
        exact hpaid.1
      · rw [hdeferred, hpaid.2]
    | none =>
      obtain ⟨hperm, hsent, hcharged, hdeferred⟩ := ih (cycle.defer m.body.fingerprint)
      refine ⟨perm_middle.trans (hperm.cons m), hsent.cons m, hcharged, ?_⟩
      rw [hdeferred]
      simp [Cycle.defer, Finset.insert_union]

/-- The catch-up of all units. -/
theorem admit_units_spec (in_this_call : Bool) (cycle : Cycle) (units : List PackingUnit) :
    Admission cycle (admit_units in_this_call cycle units).2.2 (units.flatMap Prod.fst)
      (admit_units in_this_call cycle units).1.flatten (admit_units in_this_call cycle units).2.1 := by
  induction units generalizing cycle with
  | nil => exact ⟨.refl _, .refl _, by simp [admit_units], by simp [admit_units]⟩
  | cons unit units ih =>
    rw [admit_units]
    obtain ⟨hperm, hsent, hcharged, hdeferred⟩ := admit_unit_spec in_this_call cycle unit.1
    obtain ⟨hperm', hsent', hcharged', hdeferred'⟩ :=
      ih (admit_unit in_this_call cycle unit.1).2.2
    have hflat : (if (admit_unit in_this_call cycle unit.1).1.isEmpty then
          (admit_units in_this_call (admit_unit in_this_call cycle unit.1).2.2 units).1
        else (admit_unit in_this_call cycle unit.1).1 ::
          (admit_units in_this_call (admit_unit in_this_call cycle unit.1).2.2 units).1).flatten =
        (admit_unit in_this_call cycle unit.1).1 ++
          (admit_units in_this_call (admit_unit in_this_call cycle unit.1).2.2 units).1.flatten := by
      cases (admit_unit in_this_call cycle unit.1).1 with
      | nil => rfl
      | cons m rest => rfl
    dsimp only
    rw [hflat, flatMap_cons]
    refine ⟨?_, hsent.append hsent', ?_, ?_⟩
    · refine .trans ?_ (hperm.append hperm')
      simp only [append_assoc]
      apply List.Perm.append_left
      rw [← append_assoc, ← append_assoc]
      exact perm_append_comm.append_right _
    · rw [map_append, sum_append, Nat.add_assoc, hcharged']
      exact hcharged
    · rw [hdeferred', hdeferred, map_append, toFinset_append, Finset.union_assoc]

/-- A unit that goes out is a part of a unit of the lane. -/
theorem admit_units_laws {in_this_call : Bool} {cycle : Cycle}
    (h : ∀ unit ∈ units, UnitLaws unit.1) :
    ∀ part ∈ (admit_units in_this_call cycle units).1, UnitLaws part := by
  induction units generalizing cycle with
  | nil => intro part hpart; cases hpart
  | cons unit units ih =>
    obtain ⟨hunit, hunits⟩ := forall_mem_cons.mp h
    intro part hpart
    rw [admit_units] at hpart
    dsimp only at hpart
    cases hempty : (admit_unit in_this_call cycle unit.1).1.isEmpty with
    | true =>
      rw [hempty, if_pos rfl] at hpart
      exact ih hunits part hpart
    | false =>
      rw [hempty, if_neg Bool.false_ne_true] at hpart
      rcases mem_cons.mp hpart with rfl | hpart
      · apply hunit.sublist (admit_unit_spec in_this_call cycle unit.1).part
        intro hnil
        simp [hnil] at hempty
      · exact ih hunits part hpart

end ottto_service.snapshot_sync
