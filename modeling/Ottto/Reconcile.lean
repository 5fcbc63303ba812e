-- The reconciliation law: the session totals are the sum of the rows, after
-- any admissions and refusals. So a row can never overflow where the totals
-- did not, in an hour or in the session.
import Ottto.Accumulator
import Ottto.Runs

open Words

namespace ottto_service.accumulator

open usage codex_usage_occurrence List Option Ledger SortedMap UsageBucketState UsageTotals

/-! ## The count of the rows -/

/-- The sum of one counter over the rows. -/
def rowsCount (rows : SortedMap RowKey BucketRowAccumulator) (c : Counter) : Nat :=
  rows.sumValues (fun row => row.usage.count c)

namespace Ledger

/-- The sum of one counter over all rows of all hours. -/
def counted (l : Ledger) (c : Counter) : Nat :=
  l.usage_buckets.sumValues (fun bucket => rowsCount bucket.rows c)

def Reconciled (l : Ledger) : Prop := ∀ c, l.accepted_usage_totals.count c = l.counted c

end Ledger

theorem fits_of_le {a b : UsageTotals} (bound : Counter → Nat)
    (h : ∀ c, a.count c ≤ bound c) (hb : ∀ c, bound c + b.count c < 2 ^ 64) : a.Fits b := by
  intro c
  have h1 := h c
  have h2 := hb c
  omega

/-- A row that takes a usage moves the sum by that usage, when the sum of the
rows has room for it. -/
theorem rowsCount_merge_row (rows : SortedMap RowKey BucketRowAccumulator) (k : RowKey)
    (row : BucketRowAccumulator) (h : ∀ c, rowsCount rows c + row.usage.count c < 2 ^ 64)
    (c : Counter) : rowsCount (merge_row rows k row) c = rowsCount rows c + row.usage.count c := by
  unfold merge_row
  rcases hget : rows.get? k with _ | existing
  · have hsum := rows.sumValues_insert (fun row => row.usage.count c) k row
    simp only [hget, map_none, getD_none] at hsum
    exact hsum
  · have hfits : existing.usage.Fits row.usage :=
      fits_of_le _ (fun c => rows.le_sumValues (fun row => row.usage.count c) hget) h
    have hadd : existing.usage.add row.usage = some (existing.usage.plus row.usage) :=
      add_eq_some.mpr ⟨hfits, rfl⟩
    have hsum := rows.sumValues_insert (fun row => row.usage.count c) k
      { existing with
        selector_sources := existing.selector_sources.extend row.selector_sources
        usage := (existing.usage.add row.usage).getD existing.usage }
    simp only [hget, hadd, map_some, getD_some, plus_count hfits] at hsum
    unfold rowsCount
    simp only [hadd, getD_some]
    omega

@[simp] theorem note_activity_at_rows (time : Rfc3339) (b : UsageBucketState) (t : String) :
    (b.note_activity_at time t).rows = b.rows := rfl

theorem note_activity_rows (time : Rfc3339) (activity : List String) (bucket : UsageBucketState) :
    (activity.foldl (note_activity_at time) bucket).rows = bucket.rows := by
  induction activity generalizing bucket with
  | nil => rfl
  | cons at_time rest ih =>
    rw [foldl_cons, ih, note_activity_at_rows]

namespace Ledger

variable (time : Rfc3339)

theorem rowsCount_bucket_le (l : Ledger) (b : String) (c : Counter) :
    rowsCount ((l.usage_buckets.get? b).getD {}).rows c ≤ l.counted c := by
  rcases hget : l.usage_buckets.get? b with _ | bucket
  · exact Nat.zero_le _
  · exact l.usage_buckets.le_sumValues (fun bucket => rowsCount bucket.rows c) hget

theorem counted_enter_row (l : Ledger) (b : String) (activity : List String) (k : RowKey)
    (row : BucketRowAccumulator) (h : ∀ c, l.counted c + row.usage.count c < 2 ^ 64)
    (c : Counter) :
    (l.enter_row time b activity k row).counted c = l.counted c + row.usage.count c := by
  have hroom : ∀ c, rowsCount ((l.usage_buckets.get? b).getD {}).rows c + row.usage.count c
      < 2 ^ 64 := by
    intro c
    have h1 := l.rowsCount_bucket_le b c
    have h2 := h c
    omega
  have hrows := rowsCount_merge_row _ k row hroom c
  have hsum := l.usage_buckets.sumValues_insert (fun bucket => rowsCount bucket.rows c) b
    { activity.foldl (note_activity_at time)
        ((l.usage_buckets.get? b).getD {}) with
      rows := merge_row ((l.usage_buckets.get? b).getD {}).rows k row }
  have hold : ((l.usage_buckets.get? b).map (fun bucket => rowsCount bucket.rows c)).getD 0 =
      rowsCount ((l.usage_buckets.get? b).getD {}).rows c := by
    cases l.usage_buckets.get? b <;> rfl
  unfold enter_row counted
  simp only [note_activity_rows]
  simp only at hsum
  rw [hold] at hsum
  omega

/-- Where the totals have room, each row has room. -/
theorem row_fits {l : Ledger} (h : l.Reconciled) {b : String} {bucket : UsageBucketState}
    {k : RowKey} {row : BucketRowAccumulator} {usage : UsageTotals}
    (hb : l.usage_buckets.get? b = some bucket) (hr : bucket.rows.get? k = some row)
    (hfits : l.accepted_usage_totals.Fits usage) : row.usage.Fits usage := by
  refine fits_of_le l.counted (fun c => ?_) (fun c => ?_)
  · have h1 := bucket.rows.le_sumValues (fun row => row.usage.count c) hr
    have h2 := l.usage_buckets.le_sumValues (fun bucket => rowsCount bucket.rows c) hb
    exact le_trans h1 h2
  · rw [← h c]
    exact hfits c

theorem reconciled_empty : ({} : Ledger).Reconciled := by
  intro c
  exact default_count c

/-- The step that both ways of publishing share. -/
theorem reconciled_enter_row {l : Ledger} (h : l.Reconciled) {totals : UsageTotals}
    {row : BucketRowAccumulator} (hadd : l.accepted_usage_totals.add row.usage = some totals)
    (b : String) (activity : List String) (k : RowKey) :
    ({ l with accepted_usage_totals := totals }.enter_row time b activity k row).Reconciled := by
  obtain ⟨hfits, rfl⟩ := add_eq_some.mp hadd
  have hroom : ∀ c, l.counted c + row.usage.count c < 2 ^ 64 := by
    intro c
    rw [← h c]
    exact hfits c
  intro c
  calc (l.accepted_usage_totals.plus row.usage).count c
      = l.accepted_usage_totals.count c + row.usage.count c := plus_count hfits c
    _ = l.counted c + row.usage.count c := by rw [h c]
    _ = _ := (counted_enter_row time
      { l with accepted_usage_totals := l.accepted_usage_totals.plus row.usage }
      b activity k row hroom c).symm

variable {l : Ledger}

theorem reconciled_add_placed (h : l.Reconciled) (placed : PlacedClaudeUsage)
    (usage : UsageTotals) (effort : Option String) :
    (l.add_placed_usage time placed usage effort).Reconciled := by
  unfold add_placed_usage
  split
  · exact h
  · split
    · exact h
    · rename_i hadd
      exact reconciled_enter_row time h hadd _ _ _

theorem reconciled_publish_row (h : l.Reconciled)
    (entry : (String ×ₗ RowKey) × PendingRow) : (publish_row time l entry).Reconciled := by
  unfold publish_row
  simp only
  split
  · exact h
  · rename_i hadd
    exact reconciled_enter_row time h hadd _ _ _

theorem reconciled_publish (h : l.Reconciled) (entries : List ((String ×ₗ RowKey) × PendingRow)) :
    (entries.foldl (publish_row time) l).Reconciled :=
  Run.invariant (f := publish_row time) Reconciled
    (fun _ entry hl => reconciled_publish_row time hl entry) h entries

/-! ## The rows of the session -/

/-- The sum of one counter over a list of rows. -/
def listCount (rows : List (RowKey × BucketRowAccumulator)) (c : Counter) : Nat :=
  SortedMap.sumEntries (fun row => row.usage.count c) rows

theorem listCount_cons (e : RowKey × BucketRowAccumulator)
    (rest : List (RowKey × BucketRowAccumulator)) (c : Counter) :
    listCount (e :: rest) c = e.2.usage.count c + listCount rest c :=
  sumEntries_cons _ e rest

theorem listCount_append (l₁ l₂ : List (RowKey × BucketRowAccumulator)) (c : Counter) :
    listCount (l₁ ++ l₂) c = listCount l₁ c + listCount l₂ c := by
  simp [listCount, SortedMap.sumEntries]

theorem listCount_bucket_rows (l : Ledger) (c : Counter) :
    listCount l.bucket_rows c = l.counted c := by
  unfold bucket_rows counted SortedMap.sumValues SortedMap.values
  generalize l.usage_buckets.entries = entries
  induction entries with
  | nil => rfl
  | cons e rest ih =>
    rw [map_cons, flatMap_cons, listCount_append, ih, sumEntries_cons]
    rfl

/-- The rows of the session keep the sum, as long as all rows together fit. -/
theorem rowsCount_session_fold (list : List (RowKey × BucketRowAccumulator))
    (rows : SortedMap RowKey BucketRowAccumulator)
    (h : ∀ c, rowsCount rows c + listCount list c < 2 ^ 64) (c : Counter) :
    rowsCount (list.foldl (fun rows e => merge_session_row rows e.1 e.2) rows) c =
      rowsCount rows c + listCount list c := by
  induction list generalizing rows with
  | nil => rfl
  | cons e rest ih =>
    have hmerge : ∀ c, rowsCount (merge_session_row rows e.1 e.2) c =
        rowsCount rows c + e.2.usage.count c := by
      intro c
      apply rowsCount_merge_row
      intro c
      have h1 := h c
      have h2 := listCount_cons e rest c
      omega
    rw [foldl_cons, ih, hmerge, listCount_cons]
    · omega
    · intro c
      have h1 := h c
      have h2 := listCount_cons e rest c
      have h3 := hmerge c
      omega

theorem counted_lt (h : l.Reconciled) (c : Counter) : l.counted c < 2 ^ 64 := by
  rw [← h c]
  exact (l.accepted_usage_totals.counter c).toNat_lt

theorem rowsCount_session_rows (h : l.Reconciled) (c : Counter) :
    rowsCount l.session_rows c = l.accepted_usage_totals.count c := by
  unfold session_rows
  rw [rowsCount_session_fold, listCount_bucket_rows, h c]
  · exact Nat.zero_add _
  · intro c
    rw [listCount_bucket_rows]
    have := counted_lt h c
    simpa [rowsCount] using this

/-- No add of the session fold is refused. -/
theorem session_row_fits (h : l.Reconciled)
    {before after : List (RowKey × BucketRowAccumulator)} {k : RowKey}
    {row existing : BucketRowAccumulator} (hsplit : l.bucket_rows = before ++ (k, row) :: after)
    (hget : (before.foldl (fun rows e => merge_session_row rows e.1 e.2) .empty).get? k =
      some existing) : existing.usage.Fits row.usage := by
  have hall : ∀ c, listCount before c + (row.usage.count c + listCount after c) < 2 ^ 64 := by
    intro c
    have hlt := counted_lt h c
    rw [← listCount_bucket_rows, hsplit, listCount_append, listCount_cons] at hlt
    exact hlt
  refine fits_of_le (listCount before) (fun c => ?_) (fun c => ?_)
  · have hfold := rowsCount_session_fold before .empty (fun c => by
      have := hall c
      simp only [rowsCount, sumValues_empty]
      omega) c
    have hle := le_sumValues (fun row => row.usage.count c) hget
    simp only [rowsCount, sumValues_empty, Nat.zero_add] at hfold
    rw [← hfold]
    exact hle
  · have := hall c
    omega

end Ledger

/-! ## Any admissions -/

/-- A call that may add usage. -/
inductive Admission
  | placed (placed : PlacedClaudeUsage) (usage : UsageTotals) (effort : Option String)
  | pending (pending : Pending)

def Ledger.accept (time : Rfc3339) (l : Ledger) : Admission → Ledger
  | .placed placed usage effort => l.add_placed_usage time placed usage effort
  | .pending pending => l.publish_codex_pending time pending

theorem Ledger.reconciled_accept (time : Rfc3339) {l : Ledger} (h : l.Reconciled) (a : Admission) :
    (l.accept time a).Reconciled := by
  cases a with
  | placed placed usage effort => exact reconciled_add_placed time h placed usage effort
  | pending pending => exact reconciled_publish time h pending.entries

theorem Ledger.reconciled_run (time : Rfc3339) (admissions : List Admission) :
    (run (Ledger.accept time) {} admissions).Reconciled :=
  Run.invariant Ledger.Reconciled (fun _ a h => reconciled_accept time h a)
    reconciled_empty admissions

/-- The totals are the sum of the rows; no row refuses what the totals took,
also in the middle of a publication; no row of the session refuses the row of
an hour; and the rows of the session sum to the totals. -/
theorem session_totals_reconcile_with_rows (time : Rfc3339) (admissions : List Admission) :
    let l := run (Ledger.accept time) {} admissions
    (∀ c, l.accepted_usage_totals.count c =
      l.usage_buckets.sumValues (fun bucket =>
        bucket.rows.sumValues (fun row => row.usage.count c))) ∧
    (∀ (published : List ((String ×ₗ RowKey) × PendingRow)) (bucket_start : String)
      (bucket : UsageBucketState) (row_key : RowKey) (row : BucketRowAccumulator)
      (usage : UsageTotals),
      let l := published.foldl (publish_row time) l
      l.usage_buckets.get? bucket_start = some bucket → bucket.rows.get? row_key = some row →
        (l.accepted_usage_totals.add usage).isSome → (row.usage.add usage).isSome) ∧
    (∀ (before after : List (RowKey × BucketRowAccumulator)) (row_key : RowKey)
      (row existing : BucketRowAccumulator), l.bucket_rows = before ++ (row_key, row) :: after →
      (before.foldl (fun rows e => merge_session_row rows e.1 e.2) .empty).get? row_key =
        some existing → (existing.usage.add row.usage).isSome) ∧
    (∀ c, l.session_rows.sumValues (fun row => row.usage.count c) =
      l.accepted_usage_totals.count c) := by
  have h := reconciled_run time admissions
  have isSome_iff : ∀ a b : UsageTotals, (a.add b).isSome ↔ a.Fits b := by
    intro a b
    rw [add_eq]
    split <;> simp_all
  refine ⟨h, ?_, ?_, rowsCount_session_rows h⟩
  · intro published bucket_start bucket row_key row usage l hb hr hadd
    rw [isSome_iff] at hadd ⊢
    exact row_fits (reconciled_publish time h published) hb hr hadd
  · intro before after row_key row existing hsplit hget
    rw [isSome_iff]
    exact session_row_fits h hsplit hget

end ottto_service.accumulator
