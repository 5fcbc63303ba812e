-- The token counters and exact costs of a usage row (usage.rs): the atomic
-- add, the monotone test and the delta. An add either moves all eight
-- counters or none of them.
import Ottto.Words

open Words

namespace ottto_service.usage

/-! ## The costs -/

structure UsageCosts where
  observed : Bool := false
  reported : Bool := false
  total : Option (BitVec 128) := none
  input : Option (BitVec 128) := none
  output : Option (BitVec 128) := none
  cache_read : Option (BitVec 128) := none
  cache_creation : Option (BitVec 128) := none
deriving DecidableEq, Inhabited

def add_complete_cost (left right : Option (BitVec 128)) : Option (BitVec 128) :=
  match left, right with
  | some left, some right => checked_add128 left right
  | _, _ => none

def cost_is_monotonic (current previous : Option (BitVec 128)) : Bool :=
  match current, previous with
  | some current, some previous => decide (previous ≤ current)
  | some _, none => true
  | none, none => true
  | none, some _ => false

/-- `current - previous` wraps in a release build; the callers check
`is_monotonic_after` first. -/
def cost_delta (current previous : Option (BitVec 128)) : Option (BitVec 128) :=
  current.map (fun current => current - previous.getD 0)

def UsageCosts.add (self other : UsageCosts) : UsageCosts :=
  if !other.observed then self
  else if !self.observed then other
  else if !(self.reported && other.reported) then
    { observed := self.observed, reported := false }
  else
    { observed := self.observed
      reported := true
      total := add_complete_cost self.total other.total
      input := add_complete_cost self.input other.input
      output := add_complete_cost self.output other.output
      cache_read := add_complete_cost self.cache_read other.cache_read
      cache_creation := add_complete_cost self.cache_creation other.cache_creation }

def UsageCosts.is_monotonic_after (self previous : UsageCosts) : Bool :=
  (!previous.observed || self.observed) && (!previous.reported || self.reported) &&
    cost_is_monotonic self.total previous.total && cost_is_monotonic self.input previous.input &&
    cost_is_monotonic self.output previous.output &&
    cost_is_monotonic self.cache_read previous.cache_read &&
    cost_is_monotonic self.cache_creation previous.cache_creation

def UsageCosts.delta_from (self previous : UsageCosts) : UsageCosts :=
  { observed := self.observed
    reported := self.reported
    total := cost_delta self.total previous.total
    input := cost_delta self.input previous.input
    output := cost_delta self.output previous.output
    cache_read := cost_delta self.cache_read previous.cache_read
    cache_creation := cost_delta self.cache_creation previous.cache_creation }

theorem add_complete_cost_comm (a b : Option (BitVec 128)) :
    add_complete_cost a b = add_complete_cost b a := by
  cases a <;> cases b <;> simp [add_complete_cost, checked_add128_comm]

theorem add_complete_cost_assoc (a b c : Option (BitVec 128)) :
    add_complete_cost (add_complete_cost a b) c = add_complete_cost a (add_complete_cost b c) := by
  rcases a with _ | a
  · rfl
  rcases b with _ | b
  · rfl
  rcases c with _ | c
  · simp only [add_complete_cost]
    cases checked_add128 a b <;> rfl
  have h := checked_add128_assoc a b c
  simp only [add_complete_cost]
  rcases hab : checked_add128 a b with _ | ab <;> rcases hbc : checked_add128 b c with _ | bc <;>
    simp_all

theorem add_complete_cost_right_comm (a b c : Option (BitVec 128)) :
    add_complete_cost (add_complete_cost a b) c = add_complete_cost (add_complete_cost a c) b := by
  rw [add_complete_cost_assoc, add_complete_cost_comm b c, ← add_complete_cost_assoc]

theorem UsageCosts.add_assoc (a b c : UsageCosts) : (a.add b).add c = a.add (b.add c) := by
  obtain ⟨ao, ar, _⟩ := a
  obtain ⟨bo, br, _⟩ := b
  obtain ⟨co, cr, _⟩ := c
  rcases ao <;> rcases bo <;> rcases co <;> rcases ar <;> rcases br <;> rcases cr
  all_goals first
    | rfl
    | simp [UsageCosts.add, add_complete_cost_assoc]

/-- Two costs may be added to a third in either order. -/
theorem UsageCosts.add_right_comm (a b c : UsageCosts) : (a.add b).add c = (a.add c).add b := by
  obtain ⟨ao, ar, _⟩ := a
  obtain ⟨bo, br, _⟩ := b
  obtain ⟨co, cr, _⟩ := c
  rcases ao <;> rcases bo <;> rcases co <;> rcases ar <;> rcases br <;> rcases cr
  all_goals first
    | rfl
    | (simp [UsageCosts.add, add_complete_cost_comm]; done)
    | (simp [UsageCosts.add]; refine ⟨?_, ?_, ?_, ?_, ?_⟩ <;> apply add_complete_cost_right_comm)

/-! ## The totals -/

structure UsageTotals where
  input_tokens : UInt64 := 0
  output_tokens : UInt64 := 0
  cache_read_tokens : UInt64 := 0
  cache_creation_5m_tokens : UInt64 := 0
  cache_creation_1h_tokens : UInt64 := 0
  reasoning_output_tokens : UInt64 := 0
  unattributed_total_tokens : UInt64 := 0
  request_count : UInt64 := 0
  costs : UsageCosts := {}
deriving DecidableEq, Inhabited

namespace UsageTotals

def total_tokens (self : UsageTotals) : UInt64 :=
  saturating_add (saturating_add (saturating_add (saturating_add (saturating_add
    self.input_tokens self.output_tokens) self.cache_read_tokens)
    self.cache_creation_5m_tokens) self.cache_creation_1h_tokens) self.unattributed_total_tokens

def is_zero (self : UsageTotals) : Bool :=
  self.total_tokens == 0 && self.reasoning_output_tokens == 0

/-- `none` is the returned `false`: the aggregate keeps its earlier value. -/
def add (self other : UsageTotals) : Option UsageTotals := do
  let input_tokens ← checked_add self.input_tokens other.input_tokens
  let output_tokens ← checked_add self.output_tokens other.output_tokens
  let cache_read_tokens ← checked_add self.cache_read_tokens other.cache_read_tokens
  let cache_creation_5m_tokens ←
    checked_add self.cache_creation_5m_tokens other.cache_creation_5m_tokens
  let cache_creation_1h_tokens ←
    checked_add self.cache_creation_1h_tokens other.cache_creation_1h_tokens
  let reasoning_output_tokens ←
    checked_add self.reasoning_output_tokens other.reasoning_output_tokens
  let unattributed_total_tokens ←
    checked_add self.unattributed_total_tokens other.unattributed_total_tokens
  let request_count ← checked_add self.request_count other.request_count
  some
    { input_tokens, output_tokens, cache_read_tokens, cache_creation_5m_tokens,
      cache_creation_1h_tokens, reasoning_output_tokens, unattributed_total_tokens,
      request_count, costs := self.costs.add other.costs }

def is_monotonic_after (self previous : UsageTotals) : Bool :=
  decide (previous.input_tokens ≤ self.input_tokens) &&
    decide (previous.output_tokens ≤ self.output_tokens) &&
    decide (previous.cache_read_tokens ≤ self.cache_read_tokens) &&
    decide (previous.cache_creation_5m_tokens ≤ self.cache_creation_5m_tokens) &&
    decide (previous.cache_creation_1h_tokens ≤ self.cache_creation_1h_tokens) &&
    decide (previous.reasoning_output_tokens ≤ self.reasoning_output_tokens) &&
    decide (previous.unattributed_total_tokens ≤ self.unattributed_total_tokens) &&
    decide (previous.request_count ≤ self.request_count) &&
    self.costs.is_monotonic_after previous.costs

/-- Each `-` wraps in a release build; the callers check
`is_monotonic_after` first. -/
def delta_from (self previous : UsageTotals) : UsageTotals :=
  { input_tokens := self.input_tokens - previous.input_tokens
    output_tokens := self.output_tokens - previous.output_tokens
    cache_read_tokens := self.cache_read_tokens - previous.cache_read_tokens
    cache_creation_5m_tokens := self.cache_creation_5m_tokens - previous.cache_creation_5m_tokens
    cache_creation_1h_tokens := self.cache_creation_1h_tokens - previous.cache_creation_1h_tokens
    reasoning_output_tokens := self.reasoning_output_tokens - previous.reasoning_output_tokens
    unattributed_total_tokens :=
      self.unattributed_total_tokens - previous.unattributed_total_tokens
    request_count := self.request_count - previous.request_count
    costs := self.costs.delta_from previous.costs }

end UsageTotals

/-! ## The eight counters -/

/-- The names of the counters that the wire carries. -/
inductive Counter
  | input_tokens
  | output_tokens
  | cache_read_tokens
  | cache_creation_5m_tokens
  | cache_creation_1h_tokens
  | reasoning_output_tokens
  | unattributed_total_tokens
  | request_count
deriving DecidableEq

instance : Fintype Counter where
  elems := {.input_tokens, .output_tokens, .cache_read_tokens, .cache_creation_5m_tokens,
    .cache_creation_1h_tokens, .reasoning_output_tokens, .unattributed_total_tokens,
    .request_count}
  complete := by intro c; cases c <;> decide

namespace UsageTotals

def counter (self : UsageTotals) : Counter → UInt64
  | .input_tokens => self.input_tokens
  | .output_tokens => self.output_tokens
  | .cache_read_tokens => self.cache_read_tokens
  | .cache_creation_5m_tokens => self.cache_creation_5m_tokens
  | .cache_creation_1h_tokens => self.cache_creation_1h_tokens
  | .reasoning_output_tokens => self.reasoning_output_tokens
  | .unattributed_total_tokens => self.unattributed_total_tokens
  | .request_count => self.request_count

/-- The value of a counter. -/
def count (self : UsageTotals) (c : Counter) : Nat := (self.counter c).toNat

/-- No counter of the sum passes `u64::MAX`. -/
def Fits (self other : UsageTotals) : Prop := ∀ c, self.count c + other.count c < 2 ^ 64

instance (a b : UsageTotals) : Decidable (Fits a b) :=
  inferInstanceAs (Decidable (∀ c, a.count c + b.count c < 2 ^ 64))

/-- The sum of every counter and of the costs, with no check. -/
def plus (self other : UsageTotals) : UsageTotals :=
  { input_tokens := self.input_tokens + other.input_tokens
    output_tokens := self.output_tokens + other.output_tokens
    cache_read_tokens := self.cache_read_tokens + other.cache_read_tokens
    cache_creation_5m_tokens := self.cache_creation_5m_tokens + other.cache_creation_5m_tokens
    cache_creation_1h_tokens := self.cache_creation_1h_tokens + other.cache_creation_1h_tokens
    reasoning_output_tokens := self.reasoning_output_tokens + other.reasoning_output_tokens
    unattributed_total_tokens :=
      self.unattributed_total_tokens + other.unattributed_total_tokens
    request_count := self.request_count + other.request_count
    costs := self.costs.add other.costs }

variable {a b : UsageTotals}

theorem ext_counter (h : ∀ c, a.counter c = b.counter c) (hc : a.costs = b.costs) : a = b := by
  cases a
  cases b
  have h1 := h .input_tokens
  have h2 := h .output_tokens
  have h3 := h .cache_read_tokens
  have h4 := h .cache_creation_5m_tokens
  have h5 := h .cache_creation_1h_tokens
  have h6 := h .reasoning_output_tokens
  have h7 := h .unattributed_total_tokens
  have h8 := h .request_count
  simp only [counter] at h1 h2 h3 h4 h5 h6 h7 h8 hc
  subst h1 h2 h3 h4 h5 h6 h7 h8 hc
  rfl

@[simp] theorem plus_counter (a b : UsageTotals) (c : Counter) :
    (a.plus b).counter c = a.counter c + b.counter c := by
  cases c <;> rfl

/-- The add is atomic: all counters fit and all of them move, or the add
is refused. -/
theorem add_eq (a b : UsageTotals) : a.add b = if Fits a b then some (a.plus b) else none := by
  by_cases h : Fits a b
  · rw [if_pos h]
    have hc : ∀ c, (a.counter c).toNat + (b.counter c).toNat < 2 ^ 64 := h
    have h1 := hc .input_tokens
    have h2 := hc .output_tokens
    have h3 := hc .cache_read_tokens
    have h4 := hc .cache_creation_5m_tokens
    have h5 := hc .cache_creation_1h_tokens
    have h6 := hc .reasoning_output_tokens
    have h7 := hc .unattributed_total_tokens
    have h8 := hc .request_count
    simp only [counter] at h1 h2 h3 h4 h5 h6 h7 h8
    simp [add, checked_add_of_lt, h1, h2, h3, h4, h5, h6, h7, h8, plus, -Nat.reducePow]
  · rw [if_neg h]
    have hc : ∃ c, ¬ (a.counter c).toNat + (b.counter c).toNat < 2 ^ 64 := not_forall.mp h
    obtain ⟨c, hc⟩ := hc
    cases c <;> simp only [counter] at hc <;>
      simp [add, checked_add_of_not_lt hc]

theorem add_eq_some {r : UsageTotals} : a.add b = some r ↔ Fits a b ∧ r = a.plus b := by
  rw [add_eq]
  split
  · rename_i h
    simp [h, eq_comm]
  · rename_i h
    simp [h]

theorem add_eq_none : a.add b = none ↔ ¬ Fits a b := by
  rw [add_eq]
  split <;> simp_all

theorem plus_count (h : Fits a b) (c : Counter) :
    (a.plus b).count c = a.count c + b.count c := by
  unfold count
  rw [plus_counter, toNat_add_of_lt (h c)]

@[simp] theorem default_count (c : Counter) : ({} : UsageTotals).count c = 0 := by
  cases c <;> rfl

theorem plus_assoc (a b c : UsageTotals) : (a.plus b).plus c = a.plus (b.plus c) := by
  apply ext_counter
  · intro k
    simp [UInt64.add_assoc]
  · exact UsageCosts.add_assoc _ _ _

theorem plus_right_comm (a b c : UsageTotals) : (a.plus b).plus c = (a.plus c).plus b := by
  apply ext_counter
  · intro k
    simp only [plus_counter]
    rw [UInt64.add_assoc, UInt64.add_comm (b.counter k), ← UInt64.add_assoc]
  · exact UsageCosts.add_right_comm _ _ _

end UsageTotals

end ottto_service.usage
