-- A rebuilt Claude item conserves the usage of its rows, or is left as it was
-- (snapshots/sources/claude/census/usage_ledger.rs).
import Ottto.ReportedUsage

namespace ottto_service.claude_reported_usage

open Words usage accumulator claude_usage_ledger List Option UsageTotals
open snapshots.wire hiding SnapshotItem

/-! ## One row -/

/-- The ledger whose totals and hours the sums are. -/
def Sums.ledger (self : Sums) : Ledger :=
  { accepted_usage_totals := self.totals, usage_buckets := self.buckets }

/-- The row's cost in pico-dollars, zero when it has none. -/
def exact_cost (row : ClaudeLocalOtelEvidence) : Nat :=
  (row.cost_usd_micros.map (fun micros => micros.toNat * 1000000)).getD 0

/-- No cost of 64 bits is too large. -/
theorem cost_picos_eq (row : ClaudeLocalOtelEvidence) :
    cost_picos row =
      row.cost_usd_micros.map (fun micros => BitVec.ofNat 128 (micros.toNat * 1000000)) := by
  unfold cost_picos
  cases row.cost_usd_micros with
  | none => rfl
  | some micros =>
    have hlt := micros.toNat_lt
    have hfits : micros.toNat * 1000000 < 2 ^ 128 := by omega
    rw [bind_some, map_some, if_pos hfits]

theorem add_cost_eq_some {sums next : Sums} {row : ClaudeLocalOtelEvidence}
    (h : sums.add_cost (cost_picos row) = some next) :
    next.totals = sums.totals ∧ next.buckets = sums.buckets ∧
      next.total_cost_picos.toNat = sums.total_cost_picos.toNat + exact_cost row ∧
      next.cost_complete = (sums.cost_complete && row.cost_usd_micros.isSome) := by
  rw [cost_picos_eq] at h
  unfold Sums.add_cost at h
  unfold exact_cost
  cases hcost : row.cost_usd_micros with
  | none =>
    rw [hcost] at h
    cases h
    simp
  | some micros =>
    rw [hcost] at h
    obtain ⟨total, htotal, rfl⟩ := map_eq_some_iff.mp h
    have hlt := micros.toNat_lt
    have hvalue : (BitVec.ofNat 128 (micros.toNat * 1000000)).toNat = micros.toNat * 1000000 := by
      rw [BitVec.toNat_ofNat, Nat.mod_eq_of_lt (by omega)]
    unfold checked_add128 at htotal
    split at htotal
    · next hroom =>
      cases htotal
      rw [hvalue] at hroom
      have hsum : (sums.total_cost_picos + BitVec.ofNat 128 (micros.toNat * 1000000)).toNat =
          sums.total_cost_picos.toNat + micros.toNat * 1000000 := by
        rw [BitVec.toNat_add, hvalue, Nat.mod_eq_of_lt hroom]
      refine ⟨rfl, rfl, hsum, ?_⟩
      rw [isSome_some, Bool.and_true]
    · cases htotal

/-- A row with room takes the usage as the accumulator's rows do. -/
theorem add_row_eq {rows : SortedMap RowKey BucketRowAccumulator} {row_key : RowKey}
    {row : BucketRowAccumulator}
    (h : ∀ existing, rows.get? row_key = some existing → existing.usage.Fits row.usage) :
    add_row rows row_key row = some (merge_row rows row_key row) := by
  unfold add_row merge_row
  cases hget : rows.get? row_key with
  | none => rfl
  | some existing =>
    have hadd := add_eq_some.mpr ⟨h existing hget, rfl⟩
    simp only [hadd, map_some, getD_some]

variable {out : Outside} {selector_digest : SortedMap String String → String} {item : SnapshotItem}

/-- What a row adds to the sums. -/
structure RowAdded (item : SnapshotItem) (row : ClaudeLocalOtelEvidence) (sums next : Sums)
    (reading : Reading) : Prop where
  read : read_row item row = some reading
  totals : ∀ c, next.totals.count c = sums.totals.count c + reading.usage.count c
  reconciled : next.ledger.Reconciled
  cost : next.total_cost_picos.toNat = sums.total_cost_picos.toNat + exact_cost row
  complete : next.cost_complete = (sums.cost_complete && row.cost_usd_micros.isSome)

/-- A row is added and handed to the sink, or it is refused and the sink is as it was: the hour
has room wherever the totals have. -/
theorem add_reported_row_spec {sums : Sums} (h : sums.ledger.Reconciled) (sink : RequestSink)
    (row : ClaudeLocalOtelEvidence) :
    (∃ next reading request, add_reported_row out selector_digest item sums sink row =
        (some next, sink.add request) ∧ RowAdded item row sums next reading ∧
        request.request_id = row.request_id ∧ request.usage = reading.usage) ∨
      add_reported_row out selector_digest item sums sink row = (none, sink) := by
  unfold add_reported_row
  cases hread : read_row item row with
  | none => exact .inr rfl
  | some reading =>
    cases hcost : sums.add_cost (cost_picos row) with
    | none => exact .inr rfl
    | some costed =>
      obtain ⟨htotals, hbuckets, hpicos, hcomplete⟩ := add_cost_eq_some hcost
      simp only
      cases hadd : costed.totals.add reading.usage with
      | none => exact .inr rfl
      | some totals =>
        simp only
        cases hhour : activity_bucket_from_timestamp out.time reading.timestamp with
        | none => exact .inr rfl
        | some hour =>
          obtain ⟨bucket_start, normalized_timestamp⟩ := hour
          left
          rw [htotals] at hadd
          obtain ⟨hfits, hplus⟩ := add_eq_some.mp hadd
          simp only [hbuckets]
          rw [add_row_eq]
          · refine ⟨_, reading, _, rfl, ⟨hread, ?_, ?_, hpicos, hcomplete⟩, rfl, rfl⟩
            · intro c
              simp only
              rw [hplus, plus_count hfits]
            · exact @Ledger.reconciled_enter_row out.time sums.ledger h totals
                { selector_context := _, selector_sources := _, usage := reading.usage
                  reasoning_effort := reading.effort } hadd bucket_start [normalized_timestamp] _
          · intro existing hexisting
            simp only [note_activity_at_rows] at hexisting
            cases hbucket : sums.buckets.get? bucket_start with
            | none =>
              rw [hbucket] at hexisting
              cases hexisting
            | some bucket =>
              rw [hbucket] at hexisting
              exact @Ledger.row_fits sums.ledger h _ bucket _ existing _ hbucket hexisting hfits

/-! ## All rows -/

/-- What the rows add to the sums. -/
structure RowsAdded (item : SnapshotItem) (rows : List ClaudeLocalOtelEvidence) (sums next : Sums)
    (readings : List Reading) : Prop where
  read : rows.mapM (read_row item) = some readings
  totals : ∀ c, next.totals.count c =
    sums.totals.count c + (readings.map (fun reading => reading.usage.count c)).sum
  reconciled : next.ledger.Reconciled
  cost : next.total_cost_picos.toNat =
    sums.total_cost_picos.toNat + (rows.map exact_cost).sum
  complete : next.cost_complete =
    (sums.cost_complete && rows.all (fun row => row.cost_usd_micros.isSome))

theorem RowAdded.rows_added {row : ClaudeLocalOtelEvidence} {rows : List ClaudeLocalOtelEvidence}
    {sums next last : Sums} {reading : Reading} {readings : List Reading}
    (h : RowAdded item row sums next reading) (hrest : RowsAdded item rows next last readings) :
    RowsAdded item (row :: rows) sums last (reading :: readings) where
  read := by simp [mapM_cons, h.read, hrest.read]
  totals c := by
    have hfirst := h.totals c
    have hlast := hrest.totals c
    rw [map_cons, sum_cons]
    omega
  reconciled := hrest.reconciled
  cost := by
    have hfirst := h.cost
    have hlast := hrest.cost
    rw [map_cons, sum_cons]
    omega
  complete := by rw [hrest.complete, h.complete, all_cons, Bool.and_assoc]

theorem RequestSink.add_append (sink : RequestSink) (request : Request) (handed : List Request) :
    (sink.add request).map (fun before => before ++ handed) =
      sink.map (fun before => before ++ request :: handed) := by
  cases sink with
  | none => rfl
  | some before => simp [RequestSink.add]

/-- Each row is added and handed on once, or the rows stop at one that is refused: those before it
were handed on. -/
theorem add_reported_rows_spec (rows : List ClaudeLocalOtelEvidence) {sums : Sums}
    (h : sums.ledger.Reconciled) (sink : RequestSink) :
    (∃ next readings handed, add_reported_rows out selector_digest item rows sums sink =
        (some next, sink.map (fun before => before ++ handed)) ∧
        RowsAdded item rows sums next readings ∧
        handed.map (fun request => request.request_id) = rows.map (fun row => row.request_id) ∧
        handed.map (fun request => request.usage) = readings.map (fun reading => reading.usage)) ∨
      ∃ before row after next handed, rows = before ++ row :: after ∧
        let stopped := sink.map (fun earlier => earlier ++ handed)
        add_reported_rows out selector_digest item rows sums sink = (none, stopped) ∧
        add_reported_rows out selector_digest item before sums sink = (some next, stopped) ∧
        add_reported_row out selector_digest item next stopped row = (none, stopped) ∧
        handed.map (fun request => request.request_id) =
          before.map (fun row => row.request_id) := by
  induction rows generalizing sums sink with
  | nil =>
    left
    refine ⟨sums, [], [], ?_, ⟨rfl, by simp, h, by simp, by simp⟩, rfl, rfl⟩
    simp [add_reported_rows]
  | cons row rows ih =>
    rw [add_reported_rows]
    rcases add_reported_row_spec h sink row with
      ⟨next, reading, request, hstep, hadded, hid, husage⟩ | hstep
    · rw [hstep]
      simp only
      rcases ih hadded.reconciled (sink.add request) with
        ⟨last, readings, handed, hrun, hrest, hids, husages⟩ |
        ⟨before, refused, after, reached, handed, rfl, hrun, hbefore, hrefused, hids⟩
      · left
        refine ⟨last, reading :: readings, request :: handed, ?_, hadded.rows_added hrest, ?_, ?_⟩
        · rw [hrun, sink.add_append]
        · simp [hid, hids]
        · simp [husage, husages]
      · right
        rw [sink.add_append] at hrun hbefore hrefused
        refine ⟨row :: before, refused, after, reached, request :: handed, rfl, hrun, ?_, hrefused,
          by simp [hid, hids]⟩
        rw [add_reported_rows, hstep]
        exact hbefore
    · right
      refine ⟨[], row, rows, sums, [], rfl, ?_⟩
      have hsink : sink.map (fun earlier => earlier ++ []) = sink := by simp
      rw [hsink, hstep]
      exact ⟨rfl, rfl, hstep, rfl⟩

end ottto_service.claude_reported_usage
