-- Which values decode to an active re-offer schedule (snapshot_sync/reason_reoffer.rs):
-- objects within the limits that hold each required member once. Everything else but
-- null is a refusal that is never offered again.
import Ottto.ReofferDecode

namespace ottto_service.reason_reoffer

open Extension

open serde_json (Value Number)

/-! ## Limits of a value -/

mutual

/-- The nodes that a visit of a value counts: values and keys. -/
def nodes : Value → Nat
  | .array items => 1 + item_nodes items
  | .object fields => 1 + field_nodes fields
  | _ => 1

def item_nodes : List Value → Nat
  | [] => 0
  | item :: items => nodes item + item_nodes items

def field_nodes : List (String × Value) → Nat
  | [] => 0
  | (_, value) :: fields => 1 + nodes value + field_nodes fields

end

def short (s : String) : Bool := decide (s.utf8ByteSize ≤ MAX_TOKEN_BYTES)

def shallow (depth : Nat) : Bool := decide (depth ≤ MAX_DEPTH)

mutual

/-- No node of the value is too deep, no string and no key too long. -/
def fits (depth : Nat) : Value → Bool
  | .string s => shallow depth && short s
  | .array items => shallow depth && items_fit (depth + 1) items
  | .object fields => shallow depth && fields_fit (depth + 1) fields
  | _ => shallow depth

def items_fit (depth : Nat) : List Value → Bool
  | [] => true
  | item :: items => fits depth item && items_fit depth items

def fields_fit (depth : Nat) : List (String × Value) → Bool
  | [] => true
  | (key, value) :: fields =>
    (shallow depth && short key) && fits depth value && fields_fit depth fields

end

/-- A valid budget has its nodes within the limit. -/
def Bounded (budget : Budget) : Prop := budget.invalid = false → budget.nodes ≤ MAX_NODES

/-- The budget counts `n` nodes more, and stays valid where they fit. -/
structure Spends (budget after : Budget) (n : Nat) (ok : Bool) : Prop where
  valid : after.invalid = false ↔
    budget.invalid = false ∧ ok = true ∧ budget.nodes + n ≤ MAX_NODES
  nodes : after.invalid = false → after.nodes = budget.nodes + n

namespace Spends

variable {budget after last : Budget} {n m : Nat} {ok fit : Bool}

theorem bounded (h : Spends budget after n ok) : Bounded after := by
  intro hvalid
  rw [h.nodes hvalid]
  exact (h.valid.mp hvalid).2.2

theorem none (h : Bounded budget) : Spends budget budget 0 true :=
  ⟨⟨fun hvalid => ⟨hvalid, rfl, h hvalid⟩, fun h => h.1⟩, fun _ => rfl⟩

theorem trans (h : Spends budget after n ok) (h' : Spends after last m fit) :
    Spends budget last (n + m) (ok && fit) := by
  constructor
  · rw [h'.valid]
    constructor
    · rintro ⟨hvalid, hfit, hnodes⟩
      obtain ⟨hbudget, hok, -⟩ := h.valid.mp hvalid
      rw [h.nodes hvalid] at hnodes
      exact ⟨hbudget, by rw [hok, hfit]; rfl, by omega⟩
    · rintro ⟨hbudget, hall, hnodes⟩
      obtain ⟨hok, hfit⟩ := Bool.and_eq_true_iff.mp hall
      have hvalid := h.valid.mpr ⟨hbudget, hok, by omega⟩
      refine ⟨hvalid, hfit, ?_⟩
      rw [h.nodes hvalid]
      omega
  · intro hlast
    have hvalid := (h'.valid.mp hlast).1
    rw [h'.nodes hlast, h.nodes hvalid, Nat.add_assoc]

/-- Only a valid budget visits at all. -/
theorem guarded (h : Spends budget after n ok) :
    Spends budget (if budget.invalid then budget else after) n ok := by
  cases hbudget : budget.invalid with
  | true =>
    rw [if_pos rfl]
    exact ⟨by simp [hbudget], by simp [hbudget]⟩
  | false =>
    rw [if_neg Bool.false_ne_true]
    exact h

theorem visit (budget : Budget) (depth : Nat) :
    Spends budget (budget.visit depth) 1 (shallow depth) := by
  constructor
  · simp only [Budget.visit, shallow, Bool.or_eq_false_iff, decide_eq_false_iff_not, not_lt,
      decide_eq_true_eq]
    tauto
  · intro _
    rfl

theorem visit_str (budget : Budget) (depth : Nat) (s : String) :
    Spends budget (budget.visit_str depth s) 1 (shallow depth && short s) := by
  obtain ⟨hvalid, hnodes⟩ := visit budget depth
  unfold Budget.visit_str
  by_cases hlong : MAX_TOKEN_BYTES < s.utf8ByteSize
  · rw [if_pos hlong]
    have hshort : short s = false := decide_eq_false (Nat.not_le.mpr hlong)
    rw [hshort, Bool.and_false]
    exact ⟨by simp [Budget.disable], by simp [Budget.disable]⟩
  · rw [if_neg hlong]
    have hshort : short s = true := decide_eq_true (Nat.not_lt.mp hlong)
    rw [hshort, Bool.and_true]
    exact ⟨hvalid, hnodes⟩

end Spends

variable {budget : Budget}

theorem spends_values {items : List Value} {depth : Nat}
    (h : ∀ v ∈ items, ∀ depth budget, Bounded budget →
      Spends budget (skip_value depth budget v) (nodes v) (fits depth v))
    (hbudget : Bounded budget) :
    Spends budget (skip_values depth budget items) (item_nodes items) (items_fit depth items) := by
  induction items generalizing budget with
  | nil => exact Spends.none hbudget
  | cons item items ih =>
    obtain ⟨hitem, hitems⟩ := List.forall_mem_cons.mp h
    have hfirst := hitem depth budget hbudget
    exact hfirst.trans (ih hitems hfirst.bounded)

theorem spends_fields {fields : List (String × Value)} {depth : Nat}
    (h : ∀ m ∈ fields, ∀ depth budget, Bounded budget →
      Spends budget (skip_value depth budget m.2) (nodes m.2) (fits depth m.2))
    (hbudget : Bounded budget) :
    Spends budget (skip_fields depth budget fields) (field_nodes fields)
      (fields_fit depth fields) := by
  induction fields generalizing budget with
  | nil => exact Spends.none hbudget
  | cons m fields ih =>
    obtain ⟨hm, hfields⟩ := List.forall_mem_cons.mp h
    obtain ⟨key, value⟩ := m
    have hkey := (Spends.visit_str budget depth key).guarded
    have hvalue := hkey.trans (hm depth _ hkey.bounded)
    exact hvalue.trans (ih hfields hvalue.bounded)

/-- A value costs its nodes, and is disabled by what does not fit. -/
theorem spends (v : Value) (depth : Nat) (budget : Budget) (hbudget : Bounded budget) :
    Spends budget (skip_value depth budget v) (nodes v) (fits depth v) := by
  induction v using Value.induct generalizing depth budget with
  | null => exact (Spends.visit budget depth).guarded
  | bool b => exact (Spends.visit budget depth).guarded
  | number n => exact (Spends.visit budget depth).guarded
  | string s => exact (Spends.visit_str budget depth s).guarded
  | array items ih =>
    have hvisit := Spends.visit budget depth
    exact (hvisit.trans (spends_values ih hvisit.bounded)).guarded
  | object fields ih =>
    have hvisit := Spends.visit budget depth
    exact (hvisit.trans (spends_fields ih hvisit.bounded)).guarded

/-! ## Limits of a member -/

/-- The nodes in the value of a required member: what a scalar holds. -/
def scalar_nodes : Value → Nat
  | .array items => item_nodes items
  | .object fields => field_nodes fields
  | _ => 0

def scalar_fits : Value → Bool
  | .string s => short s
  | .array items => items_fit 2 items
  | .object fields => fields_fit 2 fields
  | _ => true

/-- What the decoder takes a required member for. -/
def scalar_of : Value → Scalar
  | .number n => .of_number n
  | .string s => if MAX_TOKEN_BYTES < s.utf8ByteSize then .Other else .of_str s
  | _ => .Other

theorem scalar_value_fst (budget : Budget) (v : Value) : (scalar_value budget v).1 = scalar_of v := by
  cases v with
  | string s =>
    simp only [scalar_value, scalar_of]
    split <;> rfl
  | null => rfl
  | bool b => rfl
  | number n => rfl
  | array items => rfl
  | object fields => rfl

theorem spends_scalar (v : Value) (hbudget : Bounded budget) :
    Spends budget (scalar_value budget v).2 (scalar_nodes v) (scalar_fits v) := by
  cases v with
  | null => exact Spends.none hbudget
  | bool b => exact Spends.none hbudget
  | number n => exact Spends.none hbudget
  | string s =>
    simp only [scalar_value, scalar_nodes, scalar_fits]
    by_cases hlong : MAX_TOKEN_BYTES < s.utf8ByteSize
    · have hshort : short s = false := decide_eq_false (Nat.not_le.mpr hlong)
      rw [if_pos hlong, hshort]
      exact ⟨by simp [Budget.disable], by simp [Budget.disable]⟩
    · have hshort : short s = true := decide_eq_true (Nat.not_lt.mp hlong)
      rw [if_neg hlong, hshort]
      exact Spends.none hbudget
  | array items => exact spends_values (fun v _ => spends v) hbudget
  | object fields => exact spends_fields (fun m _ => spends m.2) hbudget

/-- One of the three members that the decoder keeps. -/
def Key.required : Key → Bool
  | .Version | .Reason | .RetryAfter => true
  | _ => false

def member_nodes (m : String × Value) : Nat :=
  1 + (if (Key.read m.1).required then scalar_nodes m.2 else nodes m.2)

def member_fits (m : String × Value) : Bool :=
  short m.1 && (if (Key.read m.1).required then scalar_fits m.2 else fits 1 m.2)

theorem read_invalid {name : String} : Key.read name = .Invalid ↔ short name = false := by
  unfold Key.read short
  by_cases hlong : MAX_TOKEN_BYTES < name.utf8ByteSize
  · simp [hlong, Nat.not_le.mpr hlong]
  · simp only [hlong, if_false, Nat.not_lt.mp hlong, decide_true, Bool.true_eq_false, iff_false]
    split
    · simp
    split
    · simp
    split <;> simp

/-! ## The state after a member -/

/-- The budget and the count of the extension are within their limits. -/
structure Within (state : Extension) : Prop where
  bounded : Bounded state.budget
  members : state.budget.invalid = false → state.members ≤ MAX_MEMBERS

/-- The member leaves the extension valid. -/
def Admits (state : Extension) (m : String × Value) : Prop :=
  state.budget.invalid = false ∧ state.members + 1 ≤ MAX_MEMBERS ∧ member_fits m = true ∧
    state.budget.nodes + member_nodes m ≤ MAX_NODES ∧ state.slot (Key.read m.1) = none

theorem count_spends (state : Extension) :
    Spends state.budget state.count.budget 1 (decide (state.members + 1 ≤ MAX_MEMBERS)) := by
  have hvisit := Spends.visit state.budget 1
  unfold Extension.count
  dsimp only
  by_cases hmany : MAX_MEMBERS < state.members + 1
  · rw [if_pos hmany, decide_eq_false (Nat.not_le.mpr hmany)]
    exact ⟨by simp [Budget.disable], by simp [Budget.disable]⟩
  · rw [if_neg hmany, decide_eq_true (Nat.not_lt.mp hmany)]
    exact hvisit

@[simp] theorem slot_with_budget (state : Extension) (budget : Budget) (key : Key) :
    (state.with_budget budget).slot key = state.slot key := by
  cases key <;> rfl

@[simp] theorem slot_count (state : Extension) (key : Key) :
    state.count.slot key = state.slot key := by
  cases key <;> rfl

theorem slot_replace (state : Extension) {key : Key} (value : Scalar) (k : Key)
    (h : key.required = true) :
    (state.replace key value).slot k = if k = key then some value else state.slot k := by
  cases key <;> cases k <;> first | rfl | cases h

theorem replace_budget (state : Extension) (key : Key) (value : Scalar) :
    (state.replace key value).budget =
      if (state.slot key).isSome then state.budget.disable else state.budget := by
  cases key <;> rfl

theorem replace_members (state : Extension) (key : Key) (value : Scalar) :
    (state.replace key value).members = state.members := by
  cases key <;> rfl

theorem slot_unrequired (state : Extension) {key : Key} (h : key.required = false) :
    state.slot key = none := by
  cases key <;> first | rfl | cases h

/-- A member that is not required, under its key. -/
theorem member_value_other {state : Extension} {m : String × Value}
    (h : (Key.read m.1).required = false) :
    member_value state m = state.count.with_budget (skip_value 1
      (if short m.1 then state.count.budget else state.count.budget.disable) m.2) := by
  unfold member_value
  cases hkey : Key.read m.1 with
  | Unknown =>
    have hshort : short m.1 = true := by
      by_contra hlong
      have := read_invalid.mpr (Bool.eq_false_iff.mpr hlong)
      rw [hkey] at this
      cases this
    rw [if_pos hshort]
  | Invalid =>
    rw [if_neg (by simp [read_invalid.mp hkey])]
  | Version => rw [hkey] at h; cases h
  | Reason => rw [hkey] at h; cases h
  | RetryAfter => rw [hkey] at h; cases h

theorem member_value_required {state : Extension} {m : String × Value}
    (h : (Key.read m.1).required = true) :
    member_value state m =
      (state.count.with_budget (scalar_value state.count.budget m.2).2).replace (Key.read m.1)
        (scalar_of m.2) := by
  unfold member_value
  rw [← scalar_value_fst state.count.budget]
  cases hkey : Key.read m.1 with
  | Version => rfl
  | Reason => rfl
  | RetryAfter => rfl
  | Unknown => rw [hkey] at h; cases h
  | Invalid => rw [hkey] at h; cases h

theorem short_of_required {name : String} (h : (Key.read name).required = true) :
    short name = true := by
  by_contra hlong
  rw [read_invalid.mpr (Bool.eq_false_iff.mpr hlong)] at h
  cases h

theorem member_value_members (state : Extension) (m : String × Value) :
    (member_value state m).members = state.members + 1 := by
  cases hkey : (Key.read m.1).required with
  | true => rw [member_value_required hkey, replace_members]; rfl
  | false => rw [member_value_other hkey]; rfl

/-- A required member sets its slot, any other leaves the slots alone. -/
theorem member_value_slot (state : Extension) (m : String × Value) (k : Key) :
    (member_value state m).slot k =
      if (Key.read m.1).required = true ∧ k = Key.read m.1 then some (scalar_of m.2)
      else state.slot k := by
  cases hkey : (Key.read m.1).required with
  | true =>
    rw [member_value_required hkey, slot_replace _ _ _ hkey]
    simp
  | false =>
    rw [member_value_other hkey]
    simp

/-- The budget after a member: within the limits, and only where the member is new. -/
theorem member_value_spends (state : Extension) (m : String × Value) :
    ((member_value state m).budget.invalid = false ↔ Admits state m) ∧
      ((member_value state m).budget.invalid = false →
        (member_value state m).budget.nodes = state.budget.nodes + member_nodes m) := by
  have hcount := count_spends state
  cases hkey : (Key.read m.1).required with
  | true =>
    have hspends := hcount.trans (spends_scalar m.2 hcount.bounded)
    have hfits : member_fits m = scalar_fits m.2 := by
      simp [member_fits, hkey, short_of_required hkey]
    have hnodes : member_nodes m = 1 + scalar_nodes m.2 := by simp [member_nodes, hkey]
    rw [member_value_required hkey, replace_budget, slot_with_budget, slot_count,
      Admits, hfits, hnodes]
    cases hslot : state.slot (Key.read m.1) with
    | some found => simp [Budget.disable]
    | none =>
      simp only [Option.isSome_none, Bool.false_eq_true, if_false, with_budget, and_true]
      refine ⟨?_, hspends.nodes⟩
      rw [hspends.valid]
      simp only [Bool.and_eq_true, decide_eq_true_eq, and_assoc]
  | false =>
    have hnodes : member_nodes m = 1 + nodes m.2 := by simp [member_nodes, hkey]
    rw [member_value_other hkey, Admits, hnodes, slot_unrequired state hkey]
    cases hshort : short m.1 with
    | false =>
      have hfits : member_fits m = false := by simp [member_fits, hshort]
      have hdisabled : (skip_value 1 state.count.budget.disable m.2).invalid = true := by
        rw [skip_value_invalid rfl]
        rfl
      simp [with_budget, hdisabled, hfits]
    | true =>
      have hspends := hcount.trans (spends m.2 1 _ hcount.bounded)
      have hfits : member_fits m = fits 1 m.2 := by simp [member_fits, hkey, hshort]
      rw [if_pos rfl, hfits]
      simp only [with_budget, and_true]
      refine ⟨?_, hspends.nodes⟩
      rw [hspends.valid]
      simp only [Bool.and_eq_true, decide_eq_true_eq, and_assoc]

theorem within_member (state : Extension) (m : String × Value) :
    Within (member_value state m) := by
  obtain ⟨hvalid, hnodes⟩ := member_value_spends state m
  constructor
  · intro hafter
    rw [hnodes hafter]
    exact (hvalid.mp hafter).2.2.2.1
  · intro hafter
    rw [member_value_members]
    exact (hvalid.mp hafter).2.1

end ottto_service.reason_reoffer
