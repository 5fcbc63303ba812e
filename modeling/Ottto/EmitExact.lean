-- The literal emitter is atomic and exact: a refused body leaves the item as it was, and an
-- emitted one has the sums of its grains in the session, in the hours and in the session's rows.
import Ottto.EmitSums
import Ottto.ReportedRebuild

namespace SortedMap

variable {α β γ : Type} [LinearOrder α]

/-- A sum over the keys of a map may be taken over another map of the same keys. -/
theorem sum_over_keys {m : SortedMap α β} {n : SortedMap α γ} (measure : Option γ → Nat)
    (h : ∀ k, (m.get? k).isSome = (n.get? k).isSome) :
    (m.entries.map (fun e => measure (n.get? e.1))).sum = n.sumValues (fun v => measure (some v)) := by
  have hkeys : m.mapValues (fun _ => ()) = n.mapValues (fun _ => ()) := by
    apply ext_get?
    intro k
    rw [get?_mapValues, get?_mapValues]
    have hk := h k
    cases hm : m.get? k <;> cases hn : n.get? k <;> simp_all
  have hlist := congrArg (fun map => map.entries.map (fun e => measure (n.get? e.1))) hkeys
  simp only [mapValues, List.map_map, Function.comp_def] at hlist
  rw [hlist]
  unfold sumValues sumEntries
  congr 1
  apply List.map_congr_left
  rintro ⟨k, v⟩ he
  rw [mem_entries.mp he]

end SortedMap

namespace ottto_service.claude_request_money.emit

open Words usage accumulator snapshots.wire List SortedMap
open claude_request_money (SnapshotItem)

/-! ## The rows of the session -/

/-- A bucket row as the session takes it. -/
def session_entry (row : SnapshotModelUsage) : RowKey × BucketRowAccumulator :=
  (row_key_from_model_usage row,
    { selector_context := row.selector_context
      selector_sources := row.selector_sources
      usage := usage_totals_from_model_usage row
      reasoning_effort := row.reasoning_effort })

theorem listCount_session_entries (rows : List SnapshotModelUsage) (c : Counter) :
    Ledger.listCount (rows.map session_entry) c = wire_count rows c := by
  unfold Ledger.listCount SortedMap.sumEntries wire_count
  rw [map_map]
  simp only [Function.comp_def, session_entry, usage_totals_from_model_usage_count]

theorem session_rows_eq (buckets : List SnapshotUsageBucket) :
    session_rows buckets = ((buckets.flatMap (fun bucket => bucket.model_usage)).map
      session_entry).foldl (fun rows e => merge_session_row rows e.1 e.2) .empty := by
  unfold session_rows
  rw [foldl_map]
  rfl

theorem wire_count_flatMap (buckets : List SnapshotUsageBucket) (c : Counter) :
    wire_count (buckets.flatMap (fun bucket => bucket.model_usage)) c = hours_count buckets c := by
  induction buckets with
  | nil => rfl
  | cons bucket buckets ih =>
    unfold wire_count hours_count at ih ⊢
    rw [flatMap_cons, map_append, sum_append, ih, map_cons, sum_cons]
    rfl

theorem rowsCount_session_rows (buckets : List SnapshotUsageBucket)
    (h : ∀ c, hours_count buckets c < 2 ^ 64) (c : Counter) :
    rowsCount (session_rows buckets) c = hours_count buckets c := by
  rw [session_rows_eq, Ledger.rowsCount_session_fold, listCount_session_entries, wire_count_flatMap]
  · exact Nat.zero_add _
  · intro c
    rw [listCount_session_entries, wire_count_flatMap, rowsCount, sumValues_empty]
    simpa using h c

/-- What a merged row keeps of the row that it was opened with. -/
theorem keyed_merge_row {rows : SortedMap RowKey BucketRowAccumulator} {row_key : RowKey}
    {row : BucketRowAccumulator}
    (hrows : ∀ k existing, rows.get? k = some existing →
      KeyedBy k existing.selector_context existing.reasoning_effort)
    (hrow : KeyedBy row_key row.selector_context row.reasoning_effort) :
    ∀ k existing, (merge_session_row rows row_key row).get? k = some existing →
      KeyedBy k existing.selector_context existing.reasoning_effort := by
  intro k existing hget
  unfold merge_session_row merge_row at hget
  cases hold : rows.get? row_key with
  | none =>
    rw [hold, get?_insert] at hget
    split at hget
    · next heq =>
      cases hget
      rw [heq]
      exact hrow
    · exact hrows _ _ hget
  | some old =>
    rw [hold, get?_insert] at hget
    split at hget
    · next heq =>
      cases hget
      rw [heq]
      have hkept := hrows _ _ hold
      exact hkept
    · exact hrows _ _ hget

theorem merge_session_row_keys (rows : SortedMap RowKey BucketRowAccumulator) (row_key : RowKey)
    (row : BucketRowAccumulator) (k : RowKey) :
    ((merge_session_row rows row_key row).get? k).isSome =
      (decide (k = row_key) || (rows.get? k).isSome) := by
  unfold merge_session_row merge_row
  cases rows.get? row_key <;> simp only [get?_insert] <;> split <;> simp_all

theorem session_fold_keyed (list : List SnapshotModelUsage)
    (rows : SortedMap RowKey BucketRowAccumulator)
    (hrows : ∀ k existing, rows.get? k = some existing →
      KeyedBy k existing.selector_context existing.reasoning_effort) :
    (∀ k existing, ((list.map session_entry).foldl
        (fun rows e => merge_session_row rows e.1 e.2) rows).get? k = some existing →
          KeyedBy k existing.selector_context existing.reasoning_effort) ∧
      ∀ k, (((list.map session_entry).foldl
        (fun rows e => merge_session_row rows e.1 e.2) rows).get? k).isSome = true ↔
          (rows.get? k).isSome = true ∨ ∃ row ∈ list, row_key_from_model_usage row = k := by
  induction list generalizing rows with
  | nil => exact ⟨hrows, by simp⟩
  | cons row list ih =>
    rw [map_cons, foldl_cons]
    obtain ⟨hkeyed, hkeys⟩ := ih _ (@keyed_merge_row rows
      (session_entry row).1 (session_entry row).2 hrows (keyed_by_row row))
    refine ⟨hkeyed, ?_⟩
    intro k
    rw [hkeys, merge_session_row_keys]
    simp only [session_entry, Bool.or_eq_true, decide_eq_true_eq, mem_cons,
      exists_eq_or_imp, eq_comm (a := k)]
    tauto

variable {buckets : List SnapshotUsageBucket}

theorem session_rows_keyed {row_key : RowKey}
    {row : BucketRowAccumulator} (h : (session_rows buckets).get? row_key = some row) :
    KeyedBy row_key row.selector_context row.reasoning_effort := by
  rw [session_rows_eq] at h
  exact (session_fold_keyed _ _ (by simp)).1 _ _ h

theorem session_rows_keys (buckets : List SnapshotUsageBucket) (row_key : RowKey) :
    ((session_rows buckets).get? row_key).isSome = true ↔
      ∃ bucket ∈ buckets, ∃ row ∈ bucket.model_usage, row_key_from_model_usage row = row_key := by
  rw [session_rows_eq, (session_fold_keyed _ _ (by simp)).2]
  simp only [get?_empty, Option.isSome_none, Bool.false_eq_true, false_or,
    mem_flatMap]
  tauto

/-! ## What is written -/

variable {time : Rfc3339} {snapshot_fingerprint : SnapshotItem → String} {entity : ClaudeEntityBody}
  {grains : List (GrainKey × ClaudeGrainSide)} {staged : Staged}

theorem session_row_key {e : RowKey × BucketRowAccumulator}
    (h : e ∈ (session_rows buckets).entries) (row_costs : SortedMap RowKey (Option UInt64))
    (account : Option String) :
    row_key_from_model_usage (session_row row_costs account e) = e.1 ∧
      (session_row row_costs account e).picos = micros_picos ((row_costs.get? e.1).join) := by
  have hkey := row_key_model_usage_from_row (session_rows_keyed (mem_entries.mp h))
  refine ⟨hkey, ?_⟩
  apply picos_of_cost
  rw [← hkey]
  rfl

theorem hours_of_staged (measure : SnapshotModelUsage → Nat) :
    ((staged.buckets.entries.map (bucket_of time entity)).map
      (fun bucket => (bucket.model_usage.map measure).sum)).sum = staged.total measure := by
  rw [map_map]
  rfl

theorem mem_staged_rows {row : SnapshotModelUsage} :
    (∃ bucket ∈ staged.buckets.entries.map (bucket_of time entity), row ∈ bucket.model_usage) ↔
      ∃ bucket_start, row ∈ staged.rows bucket_start := by
  constructor
  · rintro ⟨bucket, hbucket, hrow⟩
    obtain ⟨⟨bucket_start, rows⟩, he, rfl⟩ := mem_map.mp hbucket
    refine ⟨bucket_start, ?_⟩
    unfold Staged.rows
    rw [mem_entries.mp he]
    exact hrow
  · rintro ⟨bucket_start, hrow⟩
    unfold Staged.rows at hrow
    cases hget : staged.buckets.get? bucket_start with
    | none =>
      rw [hget] at hrow
      cases hrow
    | some rows =>
      rw [hget] at hrow
      exact ⟨_, mem_map_of_mem (mem_entries.mpr hget), hrow⟩

/-- The rows of the session stand under the keys whose costs were kept. -/
theorem session_keys_staged (h : Sound grains staged) (row_key : RowKey) :
    ((session_rows (staged.buckets.entries.map (bucket_of time entity))).get? row_key).isSome =
      (staged.row_costs.get? row_key).isSome := by
  rw [Bool.eq_iff_iff, session_rows_keys, h.keyed]
  constructor
  · rintro ⟨bucket, hbucket, row, hrow, hkey⟩
    obtain ⟨bucket_start, hstaged⟩ := mem_staged_rows.mp ⟨bucket, hbucket, hrow⟩
    exact ⟨bucket_start, row, hstaged, hkey⟩
  · rintro ⟨bucket_start, row, hrow, hkey⟩
    obtain ⟨bucket, hbucket, hmem⟩ := mem_staged_rows.mpr ⟨bucket_start, hrow⟩
    exact ⟨bucket, hbucket, row, hmem, hkey⟩

theorem session_costs (h : Sound grains staged) (account : Option String) :
    wire_picos ((session_rows (staged.buckets.entries.map (bucket_of time entity))).entries.map
      (session_row staged.row_costs account)) = staged.row_costs.sumValues micros_picos := by
  have hsum := sum_over_keys (fun cost => micros_picos cost.join)
    (@session_keys_staged time entity grains staged h)
  rw [show staged.row_costs.sumValues micros_picos =
    staged.row_costs.sumValues (fun cost => micros_picos (some cost).join) from rfl, ← hsum]
  unfold wire_picos
  rw [map_map]
  congr 1
  apply map_congr_left
  intro e he
  exact (session_row_key he staged.row_costs account).2

theorem session_row_keys_nodup (buckets : List SnapshotUsageBucket)
    (row_costs : SortedMap RowKey (Option UInt64)) (account : Option String) :
    (((session_rows buckets).entries.map (session_row row_costs account)).map
      row_key_from_model_usage).Nodup := by
  have hkeys : ((session_rows buckets).entries.map (session_row row_costs account)).map
      row_key_from_model_usage = (session_rows buckets).keys := by
    rw [map_map]
    apply map_congr_left
    intro e he
    exact (session_row_key he row_costs account).1
  rw [hkeys]
  exact keys_nodup _

theorem session_row_count (row_costs : SortedMap RowKey (Option UInt64)) (account : Option String)
    (e : RowKey × BucketRowAccumulator) (c : Counter) :
    (session_row row_costs account e).count c = e.2.usage.count c := by
  cases c <;> rfl

theorem session_counts (buckets : List SnapshotUsageBucket)
    (row_costs : SortedMap RowKey (Option UInt64)) (account : Option String) (c : Counter) :
    wire_count ((session_rows buckets).entries.map (session_row row_costs account)) c =
      rowsCount (session_rows buckets) c := by
  unfold wire_count rowsCount SortedMap.sumValues SortedMap.sumEntries
  rw [map_map]
  simp only [Function.comp_def, session_row_count]

/-! ## Marked rows -/

theorem requests_sum (rows : List SnapshotModelUsage) (sum : UInt64)
    (h : sum.toNat + wire_count rows .request_count < 2 ^ 64) :
    (rows.foldl (fun requests row => requests + row.request_count) sum).toNat =
      sum.toNat + wire_count rows .request_count := by
  induction rows generalizing sum with
  | nil => rfl
  | cons row rows ih =>
    unfold wire_count at h ih ⊢
    rw [map_cons, sum_cons] at h ⊢
    have hadd : (sum + row.request_count).toNat = sum.toNat + row.count .request_count :=
      toNat_add_of_lt (by
        change sum.toNat + row.count .request_count < 2 ^ 64
        omega)
    rw [foldl_cons, ih _ (by omega), hadd]
    omega

theorem wire_count_filter_le (rows : List SnapshotModelUsage) (keep : SnapshotModelUsage → Bool)
    (c : Counter) : wire_count (rows.filter keep) c ≤ wire_count rows c := by
  unfold wire_count
  exact List.Sublist.sum_le_sum (filter_sublist.map _) (fun _ _ => Nat.zero_le _)

/-- The rows of all hours that are marked as unproven copies. -/
def marked_rows (buckets : List SnapshotUsageBucket) : List SnapshotModelUsage :=
  (buckets.flatMap (fun bucket => bucket.model_usage)).filter (fun row => row.copy_unproven)

theorem copy_unproven_counts_exact (h : hours_count buckets .request_count < 2 ^ 64) :
    (copy_unproven_counts buckets = none ↔ marked_rows buckets = []) ∧
      ∀ counts, copy_unproven_counts buckets = some counts →
        counts.rows = (marked_rows buckets).length ∧
          counts.requests.toNat = wire_count (marked_rows buckets) .request_count := by
  have hmarked : wire_count (marked_rows buckets) .request_count ≤
      hours_count buckets .request_count := by
    rw [← wire_count_flatMap]
    exact wire_count_filter_le _ _ _
  have hsum := requests_sum (marked_rows buckets) 0 (by
    rw [show (0 : UInt64).toNat = 0 from rfl]
    omega)
  unfold copy_unproven_counts
  simp only
  split
  · next hrows =>
    refine ⟨⟨fun hnone => (Option.some_ne_none _ hnone).elim, fun hempty => ?_⟩, ?_⟩
    · unfold marked_rows at hempty
      rw [hempty] at hrows
      cases hrows
    · intro counts hcounts
      cases hcounts
      refine ⟨rfl, ?_⟩
      simpa [marked_rows] using hsum
  · next hrows =>
    refine ⟨⟨fun _ => ?_, fun _ => rfl⟩, fun counts hcounts => by cases hcounts⟩
    unfold marked_rows
    exact length_eq_zero_iff.mp (by omega)

/-! ## The emitter -/

theorem counter_in_wire_numbers (tokens : ClaudeMoneyTokens) (requests : UInt64)
    (entity : ClaudeEntityBody) (c : Counter) :
    tokens.counter requests c ∈ wire_numbers tokens requests entity := by
  unfold wire_numbers
  cases c <;> simp [ClaudeMoneyTokens.counter]

theorem counter_le {tokens : ClaudeMoneyTokens} {requests : UInt64}
    (h : (wire_numbers tokens requests entity).any (fun n => decide (MAX < n.toNat)) = false)
    (c : Counter) : (tokens.counter requests c).toNat ≤ MAX := by
  have hle := any_eq_false.mp h _ (counter_in_wire_numbers tokens requests entity c)
  rw [decide_eq_true_eq] at hle
  omega

/-- A counter that the wire can carry was never saturated. -/
theorem Sound.counter (h : Sound grains staged) (c : Counter)
    (hle : (staged.tokens.counter staged.requests c).toNat ≤ MAX) :
    (staged.tokens.counter staged.requests c).toNat = grains_count grains c := by
  by_cases hc : c = .request_count
  · subst hc
    exact h.requests
  · have htokens := h.tokens c hc
    unfold MAX at hle
    omega

/-- The clocks leave the body alone. -/
theorem advanced_body (item : SnapshotItem) (summed : Bool) :
    let advanced := SnapshotItem.advanced time item entity summed
    (∀ c, advanced.count c = item.count c) ∧ advanced.usage_buckets = item.usage_buckets ∧
      advanced.model_usage = item.model_usage ∧
      advanced.copy_unproven_counts = item.copy_unproven_counts ∧ advanced.cost = item.cost := by
  unfold SnapshotItem.advanced
  simp only
  split
  · exact ⟨fun _ => rfl, rfl, rfl, rfl, rfl⟩
  · exact ⟨fun c => by cases c <;> rfl, rfl, rfl, rfl, rfl⟩

theorem written_counter (item : SnapshotItem) (summed : Bool) (c : Counter) :
    (SnapshotItem.written time snapshot_fingerprint item entity staged summed).count c =
      (staged.tokens.counter staged.requests c).toNat := by
  have hbody := (@advanced_body time entity (SnapshotItem.with_body time item entity staged) summed).1 c
  cases c <;> exact hbody

/-- The parts of a written item that the clocks leave alone. -/
theorem written_rows (item : SnapshotItem) (summed : Bool) :
    let written := SnapshotItem.written time snapshot_fingerprint item entity staged summed
    let usage_buckets := staged.buckets.entries.map (bucket_of time entity)
    written.usage_buckets = usage_buckets ∧
      written.model_usage = (session_rows usage_buckets).entries.map
        (session_row staged.row_costs (rows_account usage_buckets)) ∧
      written.copy_unproven_counts = copy_unproven_counts usage_buckets ∧
      written.cost = staged.cost.map (fun micros =>
        { total_cost_usd := some (dollars micros), evidence_source := "claude_code_api_request" }) := by
  exact (advanced_body (SnapshotItem.with_body time item entity staged) summed).2

/-- The cost of a session in pico-dollars, zero when it has none. -/
def session_picos (cost : Option SnapshotCost) : Nat :=
  ((cost.bind (fun cost => cost.total_cost_usd)).map decimal_picos).getD 0

theorem session_picos_of_micros (micros : Option UInt64) :
    session_picos (micros.map (fun micros => { total_cost_usd := some (dollars micros)
                                               evidence_source := "claude_code_api_request" })) =
      micros_picos micros := by
  unfold session_picos micros_picos
  cases micros with
  | none => rfl
  | some micros => simp [decimal_picos_dollars]

/-- What an emitted item says of the grains. -/
structure Exact (grains : List (GrainKey × ClaudeGrainSide)) (item : SnapshotItem) : Prop where
  session : ∀ c, item.count c = grains_count grains c
  bound : ∀ c, item.count c ≤ 2 ^ 53 - 1
  hours : ∀ c, hours_count item.usage_buckets c = grains_count grains c
  rows : ∀ c, wire_count item.model_usage c = grains_count grains c
  hour_keys : ∀ bucket ∈ item.usage_buckets,
    (bucket.model_usage.map row_key_from_model_usage).Nodup
  row_keys : (item.model_usage.map row_key_from_model_usage).Nodup
  marked : item.copy_unproven_counts = none ↔ marked_rows item.usage_buckets = []
  counts : ∀ counts, item.copy_unproven_counts = some counts →
    counts.rows = (marked_rows item.usage_buckets).length ∧
      counts.requests.toNat = wire_count (marked_rows item.usage_buckets) .request_count
  cost : session_picos item.cost = grains_picos grains
  priced : item.cost.isSome = grains.any (fun e => e.2.cost.isSome)
  /-- No row mixes a priced grain with an unpriced one. -/
  row_costs : Separate grains →
    hours_picos item.usage_buckets = grains_picos grains ∧
      wire_picos item.model_usage = grains_picos grains

theorem written_exact (item : SnapshotItem) (summed : Bool) (hsound : Sound grains staged)
    (hpriced : Separate grains → Priced grains staged)
    (hwire : (wire_numbers staged.tokens staged.requests entity).any
      (fun n => decide (MAX < n.toNat)) = false) :
    Exact grains (SnapshotItem.written time snapshot_fingerprint item entity staged summed) := by
  obtain ⟨hbuckets, hmodel, hcopies, hcost⟩ := @written_rows time snapshot_fingerprint entity
    staged item summed
  have hsession : ∀ c, (SnapshotItem.written time snapshot_fingerprint item entity staged
      summed).count c = grains_count grains c := by
    intro c
    rw [written_counter, hsound.counter c (counter_le hwire c)]
  have hbound : ∀ c, grains_count grains c ≤ MAX := by
    intro c
    rw [← hsound.counter c (counter_le hwire c)]
    exact counter_le hwire c
  have hhours : ∀ c, hours_count (staged.buckets.entries.map (bucket_of time entity)) c =
      grains_count grains c := by
    intro c
    rw [← hsound.total c]
    exact hours_of_staged (fun row => row.count c)
  have hroom : ∀ c, hours_count (staged.buckets.entries.map (bucket_of time entity)) c < 2 ^ 64 := by
    intro c
    have hle := hbound c
    rw [hhours]
    unfold MAX at hle
    omega
  obtain ⟨hmarked, hcounts⟩ := copy_unproven_counts_exact (hroom .request_count)
  refine ⟨hsession, ?_, ?_, ?_, ?_, ?_, ?_, ?_, ?_, ?_, ?_⟩
  · intro c
    rw [hsession]
    exact hbound c
  · rw [hbuckets]
    exact hhours
  · intro c
    rw [hmodel, session_counts, rowsCount_session_rows _ hroom, hhours]
  · rw [hbuckets]
    intro bucket hbucket
    obtain ⟨⟨bucket_start, rows⟩, he, rfl⟩ := mem_map.mp hbucket
    have hnodup := hsound.placed.nodup bucket_start
    unfold Staged.rows at hnodup
    rw [mem_entries.mp he] at hnodup
    exact hnodup
  · rw [hmodel]
    exact session_row_keys_nodup _ _ _
  · rw [hcopies, hbuckets]
    exact hmarked
  · rw [hcopies, hbuckets]
    exact hcounts
  · rw [hcost, session_picos_of_micros, hsound.cost]
  · rw [hcost, Option.isSome_map, hsound.priced]
  · intro hseparate
    have hcosts := hpriced hseparate
    rw [hbuckets, hmodel]
    refine ⟨?_, ?_⟩
    · rw [← hcosts.rows]
      exact hours_of_staged (fun row => row.picos)
    · rw [session_costs hsound, hcosts.row_costs]

theorem apply_spec (time : Rfc3339) (snapshot_fingerprint : SnapshotItem → String)
    (item : SnapshotItem) (entity : ClaudeEntityBody) (summed : Bool) :
    let applied := apply time snapshot_fingerprint item entity summed
    (applied.1 = false → applied.2 = item) ∧
      (applied.1 = true → Exact entity.grains.entries applied.2) := by
  unfold apply
  split
  · exact ⟨fun _ => rfl, fun h => (Bool.false_ne_true h).elim⟩
  · split
    · exact ⟨fun _ => rfl, fun h => (Bool.false_ne_true h).elim⟩
    · cases hstage : stage_grains (exact_session_account_hash item) {} entity.grains.entries with
      | none => exact ⟨fun _ => rfl, fun h => (Bool.false_ne_true h).elim⟩
      | some staged =>
        simp only
        split
        · exact ⟨fun _ => rfl, fun h => (Bool.false_ne_true h).elim⟩
        · next hwire =>
          obtain ⟨hsound, hpriced⟩ := stage_grains_spec Sound.start hstage
          rw [nil_append] at hsound hpriced
          refine ⟨fun h => (Bool.false_ne_true h.symm).elim, fun _ => ?_⟩
          exact written_exact item summed hsound (fun hseparate => hpriced hseparate Priced.start)
            (Bool.eq_false_iff.mpr hwire)

/-! ## When no row mixes prices -/

/-- The origins whose grains carry the cost of an API row. -/
def priced_origin (origin : Option ClaudeRequestUsageOrigin) : Bool :=
  origin == some .TelemetryMatched || origin == some .TelemetryReported

/-- The selector context of the grain's row. -/
def row_context (e : GrainKey × ClaudeGrainSide) : SortedMap String String :=
  (grain_row e.1.key e.1.origin e.2 none).selector_context

/-- The origin of each grain says whether it is priced. A transcript grain names none in its own
selectors, and no two contexts of the body share their digits. -/
structure OriginPriced (grains : List (GrainKey × ClaudeGrainSide)) : Prop where
  priced : ∀ e ∈ grains, e.2.cost.isSome = priced_origin e.1.origin
  unnamed : ∀ e ∈ grains, e.1.origin = none → e.1.key.selectors.get? "request_usage_origin" = none
  digests : ∀ e ∈ grains, ∀ other ∈ grains,
    selector_digest (row_context e) = selector_digest (row_context other) →
      row_context e = row_context other

theorem origin_name_injective : Function.Injective origin_name := by
  intro a b h
  cases a <;> cases b <;> first | rfl | (revert h; decide)

/-- A row names the origin of its grain. -/
theorem row_context_origin {e : GrainKey × ClaudeGrainSide}
    (h : e.1.origin = none → e.1.key.selectors.get? "request_usage_origin" = none) :
    (row_context e).get? "request_usage_origin" = e.1.origin.map origin_name := by
  have hkept : HOISTED_FIELDS.contains "request_usage_origin" = false := by decide
  unfold row_context grain_row
  simp only
  rw [get?_filterKeys, hkept, Bool.not_false, if_pos rfl]
  cases horigin : e.1.origin with
  | none => simp [origin_context, get?_erase, h horigin]
  | some origin => simp [origin_context]

/-- The origin tells the rows of priced grains from those of unpriced ones. -/
theorem OriginPriced.separate (h : OriginPriced grains) : Separate grains := by
  intro e he other hother hkey
  have hhash : selector_hash selector_digest (row_context e) =
      selector_hash selector_digest (row_context other) :=
    copy_unproven_selector_hash_inj (congrArg RowKey.selector_hash hkey)
  have hcontext := selector_hash_inj (h.digests e he other hother) hhash
  have horigin : e.1.origin = other.1.origin := by
    apply Option.map_injective origin_name_injective
    rw [← row_context_origin (h.unnamed e he), hcontext, row_context_origin (h.unnamed other hother)]
  rw [h.priced e he, h.priced other hother, horigin]

/-- The emitter refuses a body and leaves the item as it was, or it emits the body exactly. In a
body that is priced by origin no row loses its cost. -/
theorem apply_is_atomic_and_exact (time : Rfc3339) (snapshot_fingerprint : SnapshotItem → String)
    (item : SnapshotItem) (entity : ClaudeEntityBody) (summed : Bool) :
    let applied := apply time snapshot_fingerprint item entity summed
    (applied.1 = false → applied.2 = item) ∧
      (applied.1 = true → Exact entity.grains.entries applied.2) ∧
      (applied.1 = true → OriginPriced entity.grains.entries →
        hours_picos applied.2.usage_buckets = session_picos applied.2.cost ∧
          wire_picos applied.2.model_usage = session_picos applied.2.cost) := by
  intro applied
  obtain ⟨hrefused, hexact⟩ := apply_spec time snapshot_fingerprint item entity summed
  refine ⟨hrefused, hexact, fun happlied horigin => ?_⟩
  have hitem := hexact happlied
  rw [hitem.cost]
  exact hitem.row_costs horigin.separate

/-! ## A transcript that names an origin -/

def no_clock : Rfc3339 := .of_table []

def transcript_grain : GrainKey × ClaudeGrainSide :=
  ({ key :=
      { bucket_start := "hour"
        model := "model"
        selectors := SortedMap.empty.insert "request_usage_origin" "telemetry_matched" }
     origin := none
     account := none },
    { requests := 1, contributions := 1, unpriced := 1 })

def matched_grain : GrainKey × ClaudeGrainSide :=
  ({ key := { bucket_start := "hour", model := "model", selectors := .empty }
     origin := some .TelemetryMatched
     account := none },
    { requests := 1, contributions := 1, cost_micros := 5 })

def plain_grain : GrainKey × ClaudeGrainSide :=
  ({ transcript_grain.1 with key := { transcript_grain.1.key with selectors := .empty } },
    transcript_grain.2)

example : OriginPriced [plain_grain, matched_grain] where
  priced := by decide
  unnamed := by decide
  digests := by decide +kernel

def mixed_body : ClaudeEntityBody where
  grains := (SortedMap.empty.insert transcript_grain.1 transcript_grain.2).insert
    matched_grain.1 matched_grain.2

/-- The matched grain joins the row of the transcript grain, whose cost is unknown. -/
theorem a_row_of_mixed_prices_loses_its_cost :
    ¬ ∀ (item : SnapshotItem) (entity : ClaudeEntityBody),
      (∀ e ∈ entity.grains.entries, e.2.cost.isSome = priced_origin e.1.origin) →
        (apply no_clock (fun _ => "") item entity false).1 = true →
          hours_picos (apply no_clock (fun _ => "") item entity false).2.usage_buckets =
            session_picos (apply no_clock (fun _ => "") item entity false).2.cost := by
  intro h
  have hmixed := h {} mixed_body (by decide +kernel) (by decide +kernel)
  revert hmixed
  decide +kernel

end ottto_service.claude_request_money.emit
