-- A rebuilt Claude item conserves the usage of its rows, and an item that is not rebuilt is left
-- as it was (snapshots/sources/claude/census/usage_ledger.rs).
import Ottto.ReportedSums

namespace ottto_service.claude_reported_usage

open Words usage accumulator claude_usage_ledger Bool List Option
open snapshots.wire hiding SnapshotItem

theorem wire_count_wire_rows (account : Option String)
    (rows : SortedMap RowKey BucketRowAccumulator) (c : Counter) :
    wire_count (wire_rows account rows) c = rowsCount rows c := by
  unfold wire_count wire_rows rowsCount SortedMap.sumValues SortedMap.sumEntries
  rw [List.map_map]
  congr 1

/-- The reading counts one request with the numbers of the row, at the row's cost. -/
structure Reports (row : ClaudeLocalOtelEvidence) (reading : Reading) : Prop where
  input_tokens : reading.usage.input_tokens = row.input_tokens
  output_tokens : reading.usage.output_tokens = row.output_tokens
  cache_read_tokens : reading.usage.cache_read_tokens = row.cache_read_tokens
  reasoning : claude_api_reasoning_matches row.reasoning_output_tokens
    reading.usage.reasoning_output_tokens = true
  request_count : reading.usage.request_count = 1
  cost : reading.usage.costs.total = cost_picos row

theorem priced_total (usage : UsageTotals) (cost : Option (BitVec 128)) :
    (priced usage cost).costs.total = cost := by
  cases cost <;> rfl

/-- With an occurrence in the transcript the numbers are those it was matched by. -/
theorem read_row_reports {item : SnapshotItem} {row : ClaudeLocalOtelEvidence} {reading : Reading}
    (h : read_row item row = some reading) : Reports row reading := by
  unfold read_row at h
  simp only [bind_eq_bind, bind_eq_some_iff] at h
  obtain ⟨_, _, _, _, _, _, _, _, _, _, h⟩ := h
  cases hoccurrence : item.claude_usage_occurrences.get? row.request_id with
  | none =>
    rw [hoccurrence] at h
    cases h
    exact ⟨rfl, rfl, rfl, by simp [claude_api_reasoning_matches, priced], rfl, priced_total _ _⟩
  | some occurrence =>
    rw [hoccurrence] at h
    simp only [ite_none_right_eq_some] at h
    obtain ⟨hmatches, hread⟩ := h
    unfold transcript_matches at hmatches
    simp only [and_eq_true, beq_iff_eq] at hmatches
    obtain ⟨⟨⟨⟨⟨hinput, houtput⟩, hcache⟩, hreasoning⟩, -⟩, -⟩ := hmatches
    cases hread
    exact ⟨hinput.symm, houtput.symm, hcache.symm, hreasoning, rfl, priced_total _ _⟩

theorem read_rows_report {item : SnapshotItem} {rows : List ClaudeLocalOtelEvidence}
    {readings : List Reading} (h : rows.mapM (read_row item) = some readings) :
    List.Forall₂ Reports rows readings := by
  induction rows generalizing readings with
  | nil =>
    cases h
    exact .nil
  | cons row rows ih =>
    simp only [mapM_cons, bind_eq_bind, bind_eq_some_iff] at h
    obtain ⟨reading, hread, rest, hrest, h⟩ := h
    cases h
    exact .cons (read_row_reports hread) (ih hrest)

theorem requests_of_reports {rows : List ClaudeLocalOtelEvidence} {readings : List Reading}
    (h : List.Forall₂ Reports rows readings) :
    (readings.map (fun reading => reading.usage.count .request_count)).sum = rows.length := by
  induction h with
  | nil => rfl
  | cons hreports _ ih =>
    rw [map_cons, sum_cons, ih, UsageTotals.count, UsageTotals.counter,
      hreports.request_count]
    simp [Nat.add_comm]

variable {out : Outside} {selector_digest : SortedMap String String → String} {item : SnapshotItem}

/-! ## What the rows cover -/

theorem rows_cover_iff {rows : List ClaudeLocalOtelEvidence}
    {excluded_request_hashes : Finset String}
    (h : rows_cover out item rows excluded_request_hashes = true) :
    rows ≠ [] ∧
      (∀ request_id ∈ item.claude_usage_request_ids.keys,
        request_hash out request_id ∉ excluded_request_hashes →
          ∃ row ∈ rows, row.request_id = request_id) ∧
      ∀ row ∈ rows, request_hash out row.request_id ∉ excluded_request_hashes := by
  unfold rows_cover at h
  simp only [and_eq_true, not_eq_true', isEmpty_eq_false_iff, List.all_eq_true,
    mem_filter, decide_eq_true_eq, List.any_eq_true, beq_iff_eq, List.any_eq_false] at h
  obtain ⟨⟨⟨⟨hrows, _⟩, _⟩, hcover⟩, hexcluded⟩ := h
  refine ⟨hrows, ?_, hexcluded⟩
  intro request_id hmem hkept
  exact hcover request_id ⟨hmem, hkept⟩

/-! ## What is written -/

theorem session_rows_ledger (sums : Sums) : session_rows sums.buckets = sums.ledger.session_rows :=
  rfl

theorem session_count {sums : Sums} (h : sums.ledger.Reconciled) (c : Counter) :
    rowsCount (session_rows sums.buckets) c = sums.totals.count c := by
  rw [session_rows_ledger, Ledger.rowsCount_session_rows h]
  rfl

theorem hours_count_written {sums : Sums} (h : sums.ledger.Reconciled) (account : Option String)
    (c : Counter) :
    hours_count (sums.buckets.entries.map (fun e =>
      { bucket_start := e.1
        model_usage := wire_rows account e.2.rows
        first_activity_at := e.2.first_activity_at
        last_activity_at := e.2.last_activity_at })) c = sums.totals.count c := by
  have htotals := h c
  unfold hours_count
  rw [List.map_map]
  simp only [Function.comp_def, wire_count_wire_rows]
  exact htotals.symm

/-- The rows of the session are not empty when a request was counted, so nothing is refused after
the rows. -/
theorem prepared_eq {sums : Sums} (h : sums.ledger.Reconciled)
    (hcounted : sums.totals.count .request_count ≠ 0) (account : Option String) :
    ∃ prepared, sums.prepared out account = some prepared ∧
      prepared.totals = sums.totals ∧
      (∀ c, wire_count prepared.model_usage c = sums.totals.count c) ∧
      (∀ c, hours_count prepared.usage_buckets c = sums.totals.count c) ∧
      prepared.cost = (if sums.cost_complete then
        some { total_cost_usd := some (usd_picos_string sums.total_cost_picos.toNat)
               evidence_source := "claude_code_api_request" } else none) := by
  unfold Sums.prepared
  have hsession : (session_rows sums.buckets).isEmpty = false := by
    rw [eq_false_iff]
    intro hempty
    rw [SortedMap.isEmpty_iff] at hempty
    have hcount := session_count h .request_count
    rw [hempty, rowsCount, SortedMap.sumValues_empty] at hcount
    omega
  rw [hsession, if_neg Bool.false_ne_true]
  refine ⟨_, rfl, rfl, ?_, hours_count_written h account, rfl⟩
  intro c
  rw [wire_count_wire_rows, session_count h]

theorem reconciled_start : ({} : Sums).ledger.Reconciled := Ledger.reconciled_empty

/-- The sums of all rows are written, whatever they are. -/
theorem prepared_of_rows_added {rows : List ClaudeLocalOtelEvidence} {next : Sums}
    {readings : List Reading} (hrows : rows ≠ []) (h : RowsAdded item rows {} next readings)
    (account : Option String) :
    ∃ prepared, next.prepared out account = some prepared ∧
      (∀ c, prepared.totals.count c = (readings.map (fun reading => reading.usage.count c)).sum) ∧
      prepared.totals.request_count.toNat = rows.length ∧
      (∀ c, wire_count prepared.model_usage c = prepared.totals.count c) ∧
      (∀ c, hours_count prepared.usage_buckets c = prepared.totals.count c) ∧
      (prepared.cost.isSome ↔ ∀ row ∈ rows, row.cost_usd_micros.isSome) ∧
      ∀ cost, prepared.cost = some cost →
        cost.total_cost_usd.map decimal_picos = some (rows.map exact_cost).sum := by
  have hcount : ∀ c, next.totals.count c =
      (readings.map (fun reading => reading.usage.count c)).sum := by
    intro c
    rw [h.totals c, UsageTotals.default_count, Nat.zero_add]
  have hrequests : next.totals.count .request_count = rows.length := by
    rw [hcount, requests_of_reports (read_rows_report h.read)]
  have hcounted : next.totals.count .request_count ≠ 0 := by
    rw [hrequests]
    exact fun hzero => hrows (length_eq_zero_iff.mp hzero)
  obtain ⟨prepared, hprepared, htotals, hsession, hhours, hcost⟩ :=
    @prepared_eq out _ h.reconciled hcounted account
  have hcomplete : next.cost_complete = rows.all (fun row => row.cost_usd_micros.isSome) := by
    rw [h.complete, Bool.true_and]
  have hpicos : next.total_cost_picos.toNat = (rows.map exact_cost).sum := by
    rw [h.cost]
    exact Nat.zero_add _
  refine ⟨prepared, hprepared, ?_, ?_, ?_, ?_, ?_, ?_⟩
  · intro c
    rw [htotals, hcount]
  · rw [htotals]
    exact hrequests
  · intro c
    rw [htotals, hsession]
  · intro c
    rw [htotals, hhours]
  · rw [hcost, hcomplete, ← List.all_eq_true]
    split <;> simp_all
  · intro cost hsome
    rw [hcost] at hsome
    split at hsome
    · cases hsome
      rw [map_some, decimal_picos_string, hpicos]
    · cases hsome

/-- A rebuilt item counts its rows and nothing else: in the session, in the hours and in the rows
of the session. An item that is not rebuilt is unchanged: its rows do not cover it and nothing was
handed on, or a row was refused and the requests of the rows before it were handed on. -/
theorem rebuild_conserves_usage_or_changes_nothing (out : Outside)
    (selector_digest : SortedMap String String → String) (item : SnapshotItem)
    (rows : List ClaudeLocalOtelEvidence) (excluded_request_hashes : Finset String)
    (sink : RequestSink) :
    let rebuilt := rebuild_claude_reported_usage out selector_digest item rows
      excluded_request_hashes sink
    (rebuilt.1 = true →
      (∃ readings handed, rows.mapM (read_row item) = some readings ∧
        List.Forall₂ Reports rows readings ∧
        (∀ c, rebuilt.2.1.count c =
          (readings.map (fun reading => reading.usage.count c)).sum) ∧
        rebuilt.2.2 = sink.map (fun earlier => earlier ++ handed) ∧
        handed.map (fun request => request.request_id) = rows.map (fun row => row.request_id) ∧
        handed.map (fun request => request.usage) =
          readings.map (fun reading => reading.usage)) ∧
      (∀ c, rebuilt.2.1.count c = hours_count rebuilt.2.1.usage_buckets c) ∧
      (∀ c, rebuilt.2.1.count c = wire_count rebuilt.2.1.model_usage c) ∧
      rebuilt.2.1.request_count.toNat = rows.length ∧
      (∀ request_id ∈ item.claude_usage_request_ids.keys,
        request_hash out request_id ∉ excluded_request_hashes →
          ∃ row ∈ rows, row.request_id = request_id) ∧
      (∀ row ∈ rows, request_hash out row.request_id ∉ excluded_request_hashes) ∧
      (rebuilt.2.1.cost.isSome ↔ ∀ row ∈ rows, row.cost_usd_micros.isSome) ∧
      ∀ cost, rebuilt.2.1.cost = some cost →
        cost.total_cost_usd.map decimal_picos = some (rows.map exact_cost).sum) ∧
    (rebuilt.1 = false →
      rebuilt.2.1 = item ∧
      (rows_cover out item rows excluded_request_hashes = false ∧ rebuilt.2.2 = sink ∨
        rows_cover out item rows excluded_request_hashes = true ∧
        ∃ before refused after sums handed, rows = before ++ refused :: after ∧
          add_reported_rows out selector_digest item before {} sink = (some sums, rebuilt.2.2) ∧
          (add_reported_row out selector_digest item sums rebuilt.2.2 refused).1 = none ∧
          rebuilt.2.2 = sink.map (fun earlier => earlier ++ handed) ∧
          handed.map (fun request => request.request_id) =
            before.map (fun row => row.request_id))) := by
  unfold rebuild_claude_reported_usage prepare_claude_reported_usage
  cases hcover : rows_cover out item rows excluded_request_hashes with
  | false =>
    rw [if_neg Bool.false_ne_true]
    exact ⟨fun h => (Bool.false_ne_true h).elim, fun _ => ⟨rfl, .inl ⟨rfl, rfl⟩⟩⟩
  | true =>
    rw [if_pos rfl]
    obtain ⟨hrows, howned, hexcluded⟩ := rows_cover_iff hcover
    rcases @add_reported_rows_spec out selector_digest item rows {} reconciled_start sink with
      ⟨next, readings, handed, hrun, hadded, hids, husages⟩ |
      ⟨before, refused, after, sums, handed, rfl, hrun, hbefore, hrefused, hids⟩
    · obtain ⟨prepared, hprepared, hcount, hrequests, hsession, hhours, hcost, hpicos⟩ :=
        @prepared_of_rows_added out item _ _ _ hrows hadded (rows_account rows)
      rw [hrun]
      simp only [hprepared]
      refine ⟨fun _ => ?_, fun h => (Bool.false_ne_true h.symm).elim⟩
      have hitem : ∀ c, (item.rebuilt out prepared).count c = prepared.totals.count c := by
        intro c
        cases c <;> rfl
      refine ⟨⟨readings, handed, hadded.read, read_rows_report hadded.read, ?_, rfl, hids, husages⟩, ?_, ?_, hrequests, howned,
        hexcluded, hcost, hpicos⟩
      · intro c
        rw [hitem, hcount]
      · intro c
        rw [hitem, ← hhours]
        rfl
      · intro c
        rw [hitem, ← hsession]
        rfl
    · rw [hrun]
      exact ⟨fun h => (Bool.false_ne_true h).elim, fun _ => ⟨rfl, .inr ⟨rfl, before, refused,
        after, sums, handed, rfl, hbefore, by rw [hrefused], rfl, hids⟩⟩⟩

/-! ## A refusal after a row was handed on -/

def hour_text (t : Int) : Option String := if t = 0 then some "hour" else none

def hour_value (text : String) : Option Int := if text = "hour" then some 0 else none

theorem hour_value_text (t : Int) (s : String) (h : hour_text t = some s) :
    hour_value s = some t := by
  unfold hour_text at h
  split at h
  · next hzero =>
    cases h
    rw [hzero]
    rfl
  · cases h

theorem zeros_length : (List.replicate 32 (0 : UInt8)).length = 32 := length_replicate

def one_hour : Outside where
  sha256 := fun _ => ⟨List.replicate 32 0, zeros_length⟩
  time := ⟨hour_value, hour_text, hour_value_text⟩

def one_request : SnapshotItem where
  source_session_id := "session"
  claude_usage_request_ids := SortedMap.empty.insert "first" ()
  claude_usage_occurrences := SortedMap.empty.insert "first" { timestamp := some "hour" }

def first_row : ClaudeLocalOtelEvidence where
  request_id := "first"
  cost_usd_micros := some 5

/-- Its cache creation is not its split. -/
def contradictory_row : ClaudeLocalOtelEvidence where
  request_id := "second"
  cache_creation_tokens := 3
  cache_creation_5m_tokens := 1

/-- The row before the refused one is in the sink. -/
theorem a_refused_rebuild_has_handed_a_request :
    ¬ ∀ (item : SnapshotItem) (rows : List ClaudeLocalOtelEvidence)
      (excluded_request_hashes : Finset String) (sink : RequestSink),
      (rows.map (fun row => row.request_id)).Nodup →
        (rebuild_claude_reported_usage one_hour (fun _ => "") item rows
          excluded_request_hashes sink).1 = false →
        (rebuild_claude_reported_usage one_hour (fun _ => "") item rows
          excluded_request_hashes sink).2.2 = sink := by
  intro h
  have hrefused := h one_request [first_row, contradictory_row] ∅ (some []) (by decide)
    (by decide +kernel)
  revert hrefused
  decide +kernel

/-- The first row alone is rebuilt. -/
example : (rebuild_claude_reported_usage one_hour (fun _ => "") one_request [first_row] ∅
    none).1 = true := by decide +kernel

end ottto_service.claude_reported_usage
