-- The keys, the counters and the costs of emitted rows: a row that is rebuilt from its key has
-- that key, and two rows of one key combine into one row with their sums.
import Ottto.LiteralEmit

namespace ottto_service.snapshots.wire

open usage accumulator List String
open claude_usage_ledger (strip_prefix_of)
open durable_tail_codec (HDigest.hex HDigest.HEX)

/-! ## Row keys -/

theorem strip_prefix_isSome (start text : String) :
    (strip_prefix_of start text).isSome = true ↔ start.toList <+: text.toList := by
  unfold strip_prefix_of
  split <;> simp_all

theorem hex_digit_not_o : ∀ n < 16, HDigest.HEX.getD n '0' ≠ 'o' ∧ HDigest.HEX.getD n '0' ≠ 's' := by
  decide

theorem mem_hex {bytes : List UInt8} {c : Char} (h : c ∈ (HDigest.hex bytes).toList) :
    c ≠ 'o' ∧ c ≠ 's' := by
  unfold HDigest.hex at h
  rw [toList_ofList, mem_flatMap] at h
  obtain ⟨byte, _, hc⟩ := h
  have hlow : (byte &&& 15).toNat < 16 := by
    rw [UInt8.toNat_and]
    exact lt_of_le_of_lt Nat.and_le_right (by decide)
  have hhigh : (byte >>> 4).toNat < 16 := by
    have hlt := byte.toNat_lt
    rw [UInt8.toNat_shiftRight]
    simp [Nat.shiftRight_eq_div_pow]
    omega
  rcases mem_cons.mp hc with rfl | hc
  · exact hex_digit_not_o _ hhigh
  · rw [mem_singleton] at hc
    rw [hc]
    exact hex_digit_not_o _ hlow

/-- A native selector hash is "base" or hexadecimal, so it is never taken for a marked one. -/
theorem selector_hash_unmarked (context : SortedMap String String) :
    ¬ COPY_UNPROVEN_PARTITION.toList <+: (selector_hash selector_digest context).toList := by
  intro h
  have ho : 'o' ∈ COPY_UNPROVEN_PARTITION.toList := by decide
  have hmem := h.subset ho
  unfold selector_hash at hmem
  split at hmem
  · revert hmem
    decide
  · unfold selector_digest at hmem
    rw [toList_ofList] at hmem
    exact (mem_hex (mem_of_mem_take hmem)).1 rfl

theorem selector_digest_ne_base (context : SortedMap String String) :
    selector_digest context ≠ "base" := by
  intro h
  have hs : 's' ∈ (selector_digest context).toList := by
    rw [h]
    decide
  unfold selector_digest at hs
  rw [toList_ofList] at hs
  exact (mem_hex (mem_of_mem_take hs)).2 rfl

/-- Two contexts have one hash only where their digests are one. -/
theorem selector_hash_inj {context other : SortedMap String String}
    (hdigest : selector_digest context = selector_digest other → context = other)
    (h : selector_hash selector_digest context = selector_hash selector_digest other) :
    context = other := by
  unfold selector_hash at h
  split_ifs at h with hempty hother hother
  · rw [SortedMap.isEmpty_iff.mp hempty, SortedMap.isEmpty_iff.mp hother]
  · exact absurd h.symm (selector_digest_ne_base other)
  · exact absurd h (selector_digest_ne_base context)
  · exact hdigest h

theorem marked_selector_hash (copy_unproven : Bool) (context : SortedMap String String) :
    (strip_prefix_of COPY_UNPROVEN_PARTITION (copy_unproven_selector_hash copy_unproven
      (selector_hash selector_digest context))).isSome = copy_unproven := by
  rw [Bool.eq_iff_iff, strip_prefix_isSome]
  unfold copy_unproven_selector_hash
  cases copy_unproven with
  | false => simp [selector_hash_unmarked]
  | true => simp [toList_append]

theorem copy_unproven_selector_hash_inj {copy_unproven other_unproven : Bool}
    {context other : SortedMap String String}
    (h : copy_unproven_selector_hash copy_unproven (selector_hash selector_digest context) =
      copy_unproven_selector_hash other_unproven (selector_hash selector_digest other)) :
    selector_hash selector_digest context = selector_hash selector_digest other := by
  have hmark : copy_unproven = other_unproven := by
    rw [← marked_selector_hash copy_unproven context, h, marked_selector_hash]
  subst hmark
  unfold copy_unproven_selector_hash at h
  cases copy_unproven with
  | false => exact h
  | true => exact String.append_right_inj _ |>.mp h

/-- The rows that may stand under a key. -/
structure KeyedBy (row_key : RowKey) (context : SortedMap String String)
    (reasoning_effort : Option String) : Prop where
  hash : ∃ copy_unproven, row_key.selector_hash =
    copy_unproven_selector_hash copy_unproven (selector_hash selector_digest context)
  effort : row_key.reasoning_effort = reasoning_effort

theorem keyed_by_row (row : SnapshotModelUsage) :
    KeyedBy (row_key_from_model_usage row) row.selector_context row.reasoning_effort :=
  ⟨⟨row.copy_unproven, rfl⟩, rfl⟩

/-- A row that is built from a key has that key. -/
theorem row_key_model_usage_from_row {row_key : RowKey} {row : BucketRowAccumulator}
    (h : KeyedBy row_key row.selector_context row.reasoning_effort) :
    row_key_from_model_usage (model_usage_from_row row_key row) = row_key := by
  obtain ⟨copy_unproven, hhash⟩ := h.hash
  have hmarked := marked_selector_hash copy_unproven row.selector_context
  rw [← hhash] at hmarked
  have heffort := h.effort
  unfold row_key_from_model_usage model_usage_from_row
  simp only
  rw [hmarked, ← hhash, ← heffort]

/-! ## Costs of rows -/

/-- The cost of a row in pico-dollars, zero when it has none. -/
def SnapshotModelUsage.picos (row : SnapshotModelUsage) : Nat := (row.cost_usd.map decimal_picos).getD 0

/-- The sum of the costs of wire rows. -/
def wire_picos (rows : List SnapshotModelUsage) : Nat := (rows.map (fun row => row.picos)).sum

/-- The sum of the costs over the rows of all hours. -/
def hours_picos (buckets : List SnapshotUsageBucket) : Nat :=
  (buckets.map (fun bucket => wire_picos bucket.model_usage)).sum

end ottto_service.snapshots.wire

namespace ottto_service.claude_request_money.emit

open Words usage accumulator snapshots.wire
open claude_request_money (SnapshotItem)

def micros_picos (micros : Option UInt64) : Nat :=
  (micros.map (fun micros => micros.toNat * 1000000)).getD 0

theorem decimal_picos_dollars (micros : UInt64) :
    decimal_picos (dollars micros) = micros.toNat * 1000000 := decimal_picos_string _

theorem picos_of_cost {row : SnapshotModelUsage} {micros : Option UInt64}
    (h : row.cost_usd = micros.map dollars) : row.picos = micros_picos micros := by
  unfold SnapshotModelUsage.picos micros_picos
  rw [h]
  cases micros with
  | none => rfl
  | some micros => simp [decimal_picos_dollars]

/-- The row of a grain. -/
def live_row_key (key : ClaudeLiveKey) (origin : Option ClaudeRequestUsageOrigin) : RowKey :=
  row_key_from_model_usage (grain_row key origin {} none)

@[simp] theorem row_key_grain_row (key : ClaudeLiveKey) (origin : Option ClaudeRequestUsageOrigin)
    (grain : ClaudeGrainSide) (account : Option String) :
    row_key_from_model_usage (grain_row key origin grain account) = live_row_key key origin := rfl

@[simp] theorem grain_row_count (key : ClaudeLiveKey) (origin : Option ClaudeRequestUsageOrigin)
    (grain : ClaudeGrainSide) (account : Option String) (c : Counter) :
    (grain_row key origin grain account).count c = grain.count c := by
  cases c <;> rfl

@[simp] theorem grain_row_cost (key : ClaudeLiveKey) (origin : Option ClaudeRequestUsageOrigin)
    (grain : ClaudeGrainSide) (account : Option String) :
    (grain_row key origin grain account).cost_usd = grain.cost.map dollars := rfl

/-- What two rows of one key combine into. -/
structure Combined (row_key : RowKey) (existing row combined : SnapshotModelUsage)
    (cost : Option UInt64) : Prop where
  key : row_key_from_model_usage combined = row_key
  count : ∀ c, combined.count c = existing.count c + row.count c
  cost : combined.cost_usd = cost.map dollars

theorem dollars_of_picos (micros : UInt64) :
    usd_picos_string (BitVec.ofNat 128 (micros.toNat * 1000000)).toNat = dollars micros := by
  have hlt := micros.toNat_lt
  unfold dollars
  rw [BitVec.toNat_ofNat, Nat.mod_eq_of_lt (by omega)]

theorem combined_cost (row_key : RowKey) (existing : SnapshotModelUsage) (usage : UsageTotals)
    (cost : Option UInt64) :
    (model_usage_from_row row_key (combined existing usage cost)).cost_usd = cost.map dollars := by
  cases cost with
  | none => rfl
  | some micros => exact congrArg some (dollars_of_picos micros)

theorem combine_spec {account : Option String} {row_key : RowKey}
    {existing row combined : SnapshotModelUsage} {cost : Option UInt64}
    (hkey : row_key_from_model_usage existing = row_key)
    (h : combine account row_key existing row cost = some combined) :
    Combined row_key existing row combined cost := by
  unfold combine at h
  obtain ⟨usage, hadd, rfl⟩ := Option.map_eq_some_iff.mp h
  obtain ⟨hfits, rfl⟩ := UsageTotals.add_eq_some.mp hadd
  refine ⟨?_, ?_, ?_⟩
  · have hkeyed := keyed_by_row existing
    rw [hkey] at hkeyed
    exact @row_key_model_usage_from_row row_key (combined existing
      ((usage_totals_from_model_usage existing).plus (usage_totals_from_model_usage row)) cost) hkeyed
  · intro c
    have hcount := UsageTotals.plus_count hfits c
    rw [usage_totals_from_model_usage_count, usage_totals_from_model_usage_count] at hcount
    rw [← hcount]
    cases c <;> rfl
  · exact combined_cost row_key existing _ cost

end ottto_service.claude_request_money.emit
