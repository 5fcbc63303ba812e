-- The order in which the records of a Claude response are appended does not decide how it
-- resolves (claude_response_records.rs).
import Ottto.ClaudeResolve

open Words

namespace ottto_service.claude_response_records

open usage accumulator List Option UsageTotals SortedMap Ordering

/-! ## The sort -/

section

variable {time : Rfc3339}

theorem usage_order_trans : Std.TransCmp claude_usage_deterministic_order :=
  inferInstanceAs (Std.TransCmp (compareLex (compareLex (compareLex (compareLex (compareLex
    (compareLex (compareLex (compareLex (compareLex (compareLex (compareLex (compareLex (compareLex
    (compareLex (compareOn input_tokens) (compareOn output_tokens))
    (compareOn cache_read_tokens)) (compareOn cache_creation_5m_tokens))
    (compareOn cache_creation_1h_tokens))
    (compareOn reasoning_output_tokens))
    (compareOn unattributed_total_tokens)) (compareOn request_count))
    (compareOn (fun usage : UsageTotals => usage.costs.observed)))
    (compareOn (fun usage : UsageTotals => usage.costs.reported)))
    (compareOn (fun usage : UsageTotals => usage.costs.total)))
    (compareOn (fun usage : UsageTotals => usage.costs.input)))
    (compareOn (fun usage : UsageTotals => usage.costs.output)))
    (compareOn (fun usage : UsageTotals => usage.costs.cache_read)))
    (compareOn (fun usage : UsageTotals => usage.costs.cache_creation))))

/-- Usages of one order are equal: the order reads every counter and cost. -/
theorem eq_of_usage_order {left right : UsageTotals}
    (h : claude_usage_deterministic_order left right = .eq) : left = right := by
  unfold claude_usage_deterministic_order at h
  simp only [then_eq_eq, Std.compare_eq_iff_eq] at h
  obtain ⟨⟨⟨⟨⟨⟨⟨⟨⟨⟨⟨⟨⟨⟨h1, h2⟩, h3⟩, h4⟩, h5⟩, h6⟩, h7⟩, h8⟩, h9⟩, h10⟩, h11⟩, h12⟩, h13⟩, h14⟩, h15⟩ := h
  have hcosts : left.costs = right.costs := by
    cases hleft : left.costs
    cases hright : right.costs
    simp_all
  cases left
  cases right
  simp_all

/-- What the sort reads of a record with a provider time. -/
def sort_key (time : Rfc3339) (record : PushedRecord) : Int × UsageTotals :=
  ((record.timestamp.bind time.parse).getD 0, record.usage)

def key_order (left right : Int × UsageTotals) : Ordering :=
  (compare left.1 right.1).then (claude_usage_deterministic_order left.2 right.2)

theorem key_order_trans : Std.TransCmp key_order := by
  have husage : Std.TransCmp (fun a b : Int × UsageTotals =>
      claude_usage_deterministic_order a.2 b.2) :=
    { eq_swap := usage_order_trans.eq_swap
      isLE_trans := usage_order_trans.isLE_trans }
  exact inferInstanceAs (Std.TransCmp (compareLex (compareOn Prod.fst) _))

theorem eq_of_key_order {left right : Int × UsageTotals} (h : key_order left right = .eq) :
    left = right := by
  unfold key_order at h
  rw [then_eq_eq] at h
  exact Prod.ext (Std.compare_eq_iff_eq.mp h.1) (eq_of_usage_order h.2)

/-- The order of two timed records: their keys, then their places. -/
def place_order (left right : (Int × UsageTotals) × UInt64) : Ordering :=
  (key_order left.1 right.1).then (compare left.2 right.2)

def place (time : Rfc3339) (record : ClaudeResponseRecord) : (Int × UsageTotals) × UInt64 :=
  (sort_key time record.toPushedRecord, record.physical_sequence)

theorem place_order_trans : Std.TransCmp place_order := by
  have hkey : Std.TransCmp (fun a b : (Int × UsageTotals) × UInt64 => key_order a.1 b.1) :=
    { eq_swap := key_order_trans.eq_swap
      isLE_trans := key_order_trans.isLE_trans }
  exact inferInstanceAs (Std.TransCmp (compareLex _
    (compareOn (fun place : (Int × UsageTotals) × UInt64 => place.2))))

theorem record_order_eq {left right : ClaudeResponseRecord}
    (hleft : (claude_response_provider_time time left).isSome = true)
    (hright : (claude_response_provider_time time right).isSome = true) :
    claude_response_record_order time left right = place_order (place time left) (place time right) := by
  obtain ⟨left_time, hleft⟩ := isSome_iff_exists.mp hleft
  obtain ⟨right_time, hright⟩ := isSome_iff_exists.mp hright
  have hleft' : left.timestamp.bind time.parse = some left_time := hleft
  have hright' : right.timestamp.bind time.parse = some right_time := hright
  unfold claude_response_record_order place_order key_order place sort_key
  rw [hleft, hright, hleft', hright']
  rfl

/-- Timed records are sorted by their keys. -/
theorem sort_records_spec {records : List ClaudeResponseRecord}
    (h : ∀ record ∈ records, (claude_response_provider_time time record).isSome = true) :
    (sort_records time records).Perm records ∧
      ((sort_records time records).map (fun record => sort_key time record.toPushedRecord)).Pairwise
        (fun a b => (key_order a b).isLE = true) := by
  have hcomplete : event_clock_complete time records = true := all_eq_true.mpr h
  unfold sort_records
  rw [if_pos hcomplete]
  refine ⟨perm_insertionSort _ _, ?_⟩
  let before := fun a b : (Int × UsageTotals) × UInt64 => place_order a b ≠ .gt
  have hbefore : ∀ {a b}, before a b ↔ (place_order a b).isLE = true := by
    intro a b
    exact ne_gt_iff_isLE
  have htrans : IsTrans _ before :=
    ⟨fun a b c hab hbc => hbefore.mpr
      (place_order_trans.isLE_trans (hbefore.mp hab) (hbefore.mp hbc))⟩
  have htotal : Std.Total before :=
    ⟨fun a b => by
      by_cases hab : place_order a b = .gt
      · right
        have hswap : place_order b a = .lt := by
          rw [place_order_trans.eq_swap, hab]
          rfl
        simp [before, hswap]
      · exact .inl hab⟩
  have hmapped : (records.insertionSort (fun left right =>
      claude_response_record_order time left right ≠ .gt)).map (place time) =
        (records.map (place time)).insertionSort before := by
    apply map_insertionSort
    intro a ha b hb
    rw [record_order_eq (h a ha) (h b hb)]
  have hsorted := pairwise_insertionSort before (records.map (place time))
  rw [← hmapped, pairwise_map] at hsorted
  rw [pairwise_map]
  refine hsorted.imp ?_
  intro a b hab
  cases hkeys : key_order (sort_key time a.toPushedRecord) (sort_key time b.toPushedRecord) with
  | lt => rfl
  | eq => rfl
  | gt =>
    have hplaces : place_order (place time a) (place time b) = .gt := by
      unfold place_order place
      rw [hkeys]
      rfl
    exact absurd hplaces hab

end

/-! ## What a record states -/

/-- The facts that a response may state once. -/
inductive Fact where
  | model
  | reasoning_effort
  | request_id
  | selector (field : String)
  | tool_use (id : String)

def PushedRecord.states (record : PushedRecord) : Fact → Option String
  | .model => record.model
  | .reasoning_effort => record.reasoning_effort
  | .request_id => record.request_id
  | .selector field => record.selector.context.get? field
  | .tool_use id => record.tool_uses.get? id

/-- No fact is stated in two ways. -/
def Agrees (current next : PushedRecord) : Prop :=
  ∀ fact value other, current.states fact = some value → next.states fact = some other → value = other

theorem merge_optional_eq_some {current next merged : Option String} :
    merge_optional_claude_field current next = some merged ↔
      (∀ value other, current = some value → next = some other → value = other) ∧
        merged = next.or current := by
  cases current with
  | none =>
    cases next <;> simp [merge_optional_claude_field, eq_comm]
  | some current =>
    cases next with
    | none => simp [merge_optional_claude_field, eq_comm]
    | some next =>
      unfold merge_optional_claude_field
      by_cases h : current = next
      · subst h
        simp [eq_comm]
      · simp [h]

theorem conflicts_eq_false {existing : SortedMap String String} {entry : String × String} :
    conflicts existing entry = false ↔
      ∀ value, existing.get? entry.1 = some value → value = entry.2 := by
  unfold conflicts
  cases existing.get? entry.1 with
  | none => simp
  | some value => simp

/-- No key of the maps has two values. -/
def MapsAgree (current next : SortedMap String String) : Prop :=
  ∀ key value other, current.get? key = some value → next.get? key = some other → value = other

theorem merge_selector_eq_some {current next merged : SelectorCapture} :
    merge_claude_response_selector current next = some merged ↔
      MapsAgree current.context next.context ∧ merged = current.merge next := by
  have hagree : next.context.entries.any (conflicts current.context) = false ↔
      MapsAgree current.context next.context := by
    rw [List.any_eq_false]
    constructor
    · intro h key value other hvalue hother
      have hnone := h (key, other) (mem_entries.mpr hother)
      exact conflicts_eq_false.mp (Bool.not_eq_true _ ▸ hnone) value hvalue
    · intro h entry hentry
      rw [Bool.not_eq_true, conflicts_eq_false]
      exact fun value hvalue => h entry.1 value entry.2 hvalue (mem_entries.mp hentry)
  unfold merge_claude_response_selector
  cases hany : next.context.entries.any (conflicts current.context) with
  | true =>
    rw [if_pos rfl, ← hagree, hany]
    simp
  | false =>
    rw [if_neg Bool.false_ne_true, ← hagree, hany]
    simp [eq_comm]

theorem conflicts_insert {existing : SortedMap String String} {use entry : String × String}
    (h : use.1 < entry.1) :
    conflicts (existing.insert use.1 use.2) entry = conflicts existing entry := by
  unfold conflicts
  rw [get?_insert_ne existing use.2 (ne_of_gt h)]

-- The keys rise, so an inserted use meets no later one.
theorem insert_uses_eq_some {uses : List (String × String)}
    (hsorted : uses.Pairwise (fun a b => a.1 < b.1)) {current merged : SortedMap String String} :
    uses.foldlM (fun current use =>
        if conflicts current use then none else some (current.insert use.1 use.2)) current =
          some merged ↔
      (∀ use ∈ uses, conflicts current use = false) ∧
        merged = uses.foldl (fun current use => current.insert use.1 use.2) current := by
  induction uses generalizing current with
  | nil =>
    constructor
    · intro h
      exact ⟨fun _ hmem => (not_mem_nil hmem).elim, (Option.some.inj h).symm⟩
    · exact fun h => congrArg some h.2.symm
  | cons use rest ih =>
    obtain ⟨hfirst, hrest⟩ := pairwise_cons.mp hsorted
    rw [foldlM_cons, foldl_cons]
    cases hconflict : conflicts current use with
    | true =>
      rw [if_pos rfl]
      simp [hconflict]
    | false =>
      rw [if_neg Bool.false_ne_true, bind_eq_bind, bind_some, ih hrest]
      have hkept : (∀ later ∈ rest, conflicts (current.insert use.1 use.2) later = false) ↔
          ∀ later ∈ rest, conflicts current later = false :=
        forall₂_congr (fun later hlater => by rw [conflicts_insert (hfirst later hlater)])
      rw [hkept]
      simp [hconflict]

theorem merge_tool_uses_eq_some {current next merged : SortedMap String String} :
    merge_claude_response_tool_uses current next = some merged ↔
      MapsAgree current next ∧ merged = current.extend next := by
  unfold merge_claude_response_tool_uses
  rw [insert_uses_eq_some next.sorted]
  refine and_congr ?_ .rfl
  constructor
  · intro h key value other hvalue hother
    exact conflicts_eq_false.mp (h (key, other) (mem_entries.mpr hother)) value hvalue
  · intro h entry hentry
    rw [conflicts_eq_false]
    exact fun value hvalue => h entry.1 value entry.2 hvalue (mem_entries.mp hentry)

/-! ## The merge of two records -/

/-- The larger of two contexts, when both are known. -/
def later_context (current next : Option UInt64) : Option UInt64 :=
  match next with
  | some next_context => some (current.elim next_context (max · next_context))
  | none => current

/-- Two records that agree, as one. -/
def merged (current next : ClaudeResponseRecord) : ClaudeResponseRecord :=
  { current with
    model := next.model.or current.model
    reasoning_effort := next.reasoning_effort.or current.reasoning_effort
    request_id := next.request_id.or current.request_id
    selector := current.selector.merge next.selector
    tool_uses := current.tool_uses.extend next.tool_uses
    cache_slot := next.cache_slot
    usage := next.usage
    computed_effective_input_context :=
      later_context current.computed_effective_input_context next.computed_effective_input_context
    timestamp := next.timestamp.or current.timestamp }

theorem agrees_iff {current next : PushedRecord} :
    Agrees current next ↔
      (∀ value other, current.model = some value → next.model = some other → value = other) ∧
      (∀ value other, current.reasoning_effort = some value → next.reasoning_effort = some other →
        value = other) ∧
      (∀ value other, current.request_id = some value → next.request_id = some other →
        value = other) ∧
      MapsAgree current.selector.context next.selector.context ∧
      MapsAgree current.tool_uses next.tool_uses := by
  constructor
  · intro h
    exact ⟨h .model, h .reasoning_effort, h .request_id, fun field => h (.selector field),
      fun id => h (.tool_use id)⟩
  · rintro ⟨hmodel, heffort, hid, hselector, huses⟩ fact
    cases fact with
    | model => exact hmodel
    | reasoning_effort => exact heffort
    | request_id => exact hid
    | selector field => exact hselector field
    | tool_use id => exact huses id

theorem merge_record_eq_some {current next result : ClaudeResponseRecord} :
    merge_claude_response_record current next = some result ↔
      claude_usage_is_progressive_after next.usage current.usage = true ∧
        Agrees current.toPushedRecord next.toPushedRecord ∧ result = merged current next := by
  unfold merge_claude_response_record
  cases hprogressive : claude_usage_is_progressive_after next.usage current.usage with
  | false => simp
  | true =>
    simp only [Bool.not_true, Bool.false_eq_true, if_false, true_and, agrees_iff,
      bind_eq_bind, bind_eq_some_iff, merge_optional_eq_some,
      merge_selector_eq_some, merge_tool_uses_eq_some]
    constructor
    · rintro ⟨model, ⟨hmodel, rfl⟩, effort, ⟨heffort, rfl⟩, id, ⟨hid, rfl⟩, selector,
        ⟨hselector, rfl⟩, uses, ⟨huses, rfl⟩, hresult⟩
      exact ⟨⟨hmodel, heffort, hid, hselector, huses⟩, (Option.some.inj hresult).symm⟩
    · rintro ⟨⟨hmodel, heffort, hid, hselector, huses⟩, rfl⟩
      exact ⟨_, ⟨hmodel, rfl⟩, _, ⟨heffort, rfl⟩, _, ⟨hid, rfl⟩, _, ⟨hselector, rfl⟩, _,
        ⟨huses, rfl⟩, rfl⟩

theorem merged_states {current next : ClaudeResponseRecord} (fact : Fact) :
    (merged current next).toPushedRecord.states fact =
      (next.toPushedRecord.states fact).or (current.toPushedRecord.states fact) := by
  cases fact with
  | model => rfl
  | reasoning_effort => rfl
  | request_id => rfl
  | selector field => exact get?_extend _ _ _
  | tool_use id => exact get?_extend _ _ _

end ottto_service.claude_response_records
