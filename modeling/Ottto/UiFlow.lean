-- The law of the UI usage: V2 loses none of it. The deltas of the UI lines
-- are the usage that was published, the usage that is staged and the three
-- receipts of usage that was not counted.
import Ottto.TurnMoney

open Words

namespace ottto_service.codex_usage_occurrence

open serde_json json_fields usage accumulator codex_counting_version List

/-! ## Six dimensions without a cap -/

/-- The counters that a dimension of `totals_t6` adds up. -/
def dimension : Fin 6 → List Counter :=
  ![[.input_tokens], [.cache_read_tokens], [.cache_creation_5m_tokens], [.output_tokens],
    [.reasoning_output_tokens], [.input_tokens, .output_tokens]]

/-- The sum of a count over the counters of a dimension. -/
def dimensionSum (f : Counter → Nat) (d : Fin 6) : Nat := ((dimension d).map f).sum

/-- `totals_t6` as exact numbers: the total has no cap. -/
def exact_t6 (usage : UsageTotals) (d : Fin 6) : Nat := dimensionSum usage.count d

theorem dimensionSum_add (f g : Counter → Nat) (d : Fin 6) :
    dimensionSum (fun c => f c + g c) d = dimensionSum f d + dimensionSum g d := by
  simp [dimensionSum, sum_map_add]

theorem exact_t6_of_count {a b : UsageTotals} {f : Counter → Nat}
    (h : ∀ c, a.count c = b.count c + f c) (d : Fin 6) :
    exact_t6 a d = exact_t6 b d + dimensionSum f d := by
  unfold exact_t6
  rw [← dimensionSum_add]
  congr 1
  funext c
  exact h c

theorem exact_t6_mono {a b : UsageTotals} (h : ∀ c, a.count c ≤ b.count c) (d : Fin 6) :
    exact_t6 a d ≤ exact_t6 b d :=
  sum_le_sum (fun c _ => h c)

variable {usage : UsageTotals} {d : Fin 6}

/-- An uncapped slot of `totals_t6` is exact. -/
theorem totals_t6_toNat (h : totals_t6 usage d ≠ u64Max) :
    (totals_t6 usage d).toNat = exact_t6 usage d := by
  have hcap : (totals_t6 usage d).toNat ≠ 2 ^ 64 - 1 := by
    intro heq
    apply h
    rw [← UInt64.toNat_inj, heq]
    rfl
  fin_cases d
  · simp [totals_t6, exact_t6, dimensionSum, dimension, UsageTotals.count, UsageTotals.counter]
  · simp [totals_t6, exact_t6, dimensionSum, dimension, UsageTotals.count, UsageTotals.counter]
  · simp [totals_t6, exact_t6, dimensionSum, dimension, UsageTotals.count, UsageTotals.counter]
  · simp [totals_t6, exact_t6, dimensionSum, dimension, UsageTotals.count, UsageTotals.counter]
  · simp [totals_t6, exact_t6, dimensionSum, dimension, UsageTotals.count, UsageTotals.counter]
  · have hvalue : totals_t6 usage 5 = saturating_add usage.input_tokens usage.output_tokens := rfl
    have hsum : exact_t6 usage 5 = usage.input_tokens.toNat + usage.output_tokens.toNat := by
      simp [exact_t6, dimensionSum, dimension, UsageTotals.count, UsageTotals.counter]
    simp only [Fin.reduceFinMk] at hcap ⊢
    rw [hvalue, saturating_add_toNat] at hcap ⊢
    omega

/-- A slot that did not reach the cap took exactly the value, and the value
is under the cap. -/
theorem add_t6_exact {sum value : T6} (h : add_t6 sum value d ≠ u64Max) :
    (add_t6 sum value d).toNat = (sum d).toNat + (value d).toNat ∧ value d ≠ u64Max ∧
      sum d ≠ u64Max := by
  have hcap : (add_t6 sum value d).toNat ≠ 2 ^ 64 - 1 := by
    intro heq
    apply h
    rw [← UInt64.toNat_inj, heq]
    rfl
  unfold add_t6 at *
  rw [saturating_add_toNat] at *
  refine ⟨by omega, ?_, ?_⟩
  · intro heq
    rw [heq, u64Max_toNat] at hcap
    omega
  · intro heq
    rw [heq, u64Max_toNat] at hcap
    omega

theorem foldl_add_t6_exact (rows : List PendingRow) (sum : T6)
    (h : rows.foldl (fun sum row => add_t6 sum (totals_t6 row.usage)) sum d ≠ u64Max) :
    (rows.foldl (fun sum row => add_t6 sum (totals_t6 row.usage)) sum d).toNat =
        (sum d).toNat + (rows.map (fun row => exact_t6 row.usage d)).sum ∧
      sum d ≠ u64Max := by
  induction rows generalizing sum with
  | nil => exact ⟨by simp, h⟩
  | cons row rest ih =>
    rw [foldl_cons] at h ⊢
    obtain ⟨hrest, hstep⟩ := ih _ h
    obtain ⟨hadd, hvalue, hsum⟩ := add_t6_exact hstep
    rw [hrest, hadd, totals_t6_toNat hvalue]
    simp only [map_cons, sum_cons]
    exact ⟨by omega, hsum⟩

/-! ## The staged rows -/

/-- The staged usage of a turn in one dimension. -/
def Pending.total (pending : Pending) (d : Fin 6) : Nat :=
  pending.sumValues (fun row => exact_t6 row.usage d)

/-- Each staged row stands for an event. -/
def Pending.Eventful (pending : Pending) : Prop :=
  ∀ k row, pending.get? k = some row → row.events ≠ 0

theorem stage_total {time : Rfc3339} {turn staged : BoundTurn} {bucket activity : String}
    {key : RowKey} {context sources : SortedMap String String}
    (h : turn.stage time bucket activity key context sources usage = some staged) (d : Fin 6) :
    Pending.total staged.pending d = Pending.total turn.pending d + exact_t6 usage d :=
  BoundTurn.stage_sum h (f := fun usage => exact_t6 usage d)
    (fun _ _ hfits => exact_t6_of_count (UsageTotals.plus_count hfits) d)

theorem saturating_add_ne_zero {a b : UInt64} (h : b ≠ 0) : saturating_add a b ≠ 0 := by
  intro heq
  have hnat : (saturating_add a b).toNat = 0 := by rw [heq]; rfl
  have hb : b.toNat ≠ 0 := fun hz => h (UInt64.toNat_inj.mp hz)
  rw [saturating_add_toNat] at hnat
  omega

theorem stage_eventful {time : Rfc3339} {turn staged : BoundTurn} {bucket activity : String}
    {key : RowKey} {context sources : SortedMap String String}
    (h : turn.stage time bucket activity key context sources usage = some staged)
    (hturn : Pending.Eventful turn.pending) : Pending.Eventful staged.pending := by
  have hinsert : ∀ row : PendingRow, row.events ≠ 0 →
      Pending.Eventful (turn.pending.insert (toLex (bucket, key)) row) := by
    exact fun row hrow => SortedMap.forall_insert hrow hturn
  have hone : (1 : UInt64) ≠ 0 := by decide
  obtain ⟨row, rfl, ⟨-, rfl⟩ | ⟨old, -, -, rfl⟩⟩ := BoundTurn.stage_cases h
  · exact hinsert _ hone
  · exact hinsert _ (saturating_add_ne_zero hone)

end ottto_service.codex_usage_occurrence

namespace ottto_service.accumulator

open serde_json json_fields usage codex_counting_version codex_usage_occurrence List Option Ledger
open SortedMap
open BoundTurn
open UsageTotals
open SnapshotAccumulator

/-! ## Publication that drops nothing -/

namespace Ledger

variable (time : Rfc3339)

/-- The drop count of the second is the drop count of the first, which no
saturation hides. -/
structure Keeps (l l' : Ledger) : Prop where
  same : l'.dropped_usage_record_count = l.dropped_usage_record_count
  uncapped : l.dropped_usage_record_count ≠ u64Max

theorem toNat_lt_note_dropped {l : Ledger} {events : UInt64} (h : events ≠ 0)
    (hcap : l.dropped_usage_record_count ≠ u64Max) :
    l.dropped_usage_record_count.toNat <
      (l.note_dropped_usage events).dropped_usage_record_count.toNat := by
  have hevents : events.toNat ≠ 0 := fun hz => h (UInt64.toNat_inj.mp hz)
  have hlt : l.dropped_usage_record_count.toNat ≠ 2 ^ 64 - 1 := by
    intro heq
    apply hcap
    rw [← UInt64.toNat_inj, heq]
    rfl
  have hbound := l.dropped_usage_record_count.toNat_lt
  unfold note_dropped_usage
  simp only [saturating_add_toNat]
  omega

theorem le_note_dropped (l : Ledger) (events : UInt64) :
    l.dropped_usage_record_count.toNat ≤
      (l.note_dropped_usage events).dropped_usage_record_count.toNat := by
  have hbound := l.dropped_usage_record_count.toNat_lt
  unfold note_dropped_usage
  simp only [saturating_add_toNat]
  omega

theorem le_dropped_publish_row (l : Ledger) (entry : (String ×ₗ RowKey) × PendingRow) :
    l.dropped_usage_record_count.toNat ≤
      (publish_row time l entry).dropped_usage_record_count.toNat := by
  unfold publish_row
  simp only
  split
  · exact le_note_dropped l _
  · exact le_refl _

theorem le_dropped_publish (entries : List ((String ×ₗ RowKey) × PendingRow)) (l : Ledger) :
    l.dropped_usage_record_count.toNat ≤
      (entries.foldl (publish_row time) l).dropped_usage_record_count.toNat := by
  induction entries generalizing l with
  | nil => exact le_refl _
  | cons entry rest ih => exact le_trans (le_dropped_publish_row time l entry) (ih _)

/-- Rows that were all accepted moved the totals by their sum. -/
theorem count_publish (entries : List ((String ×ₗ RowKey) × PendingRow)) (l : Ledger)
    (hevents : ∀ e ∈ entries, e.2.events ≠ 0) (h : l.Keeps (entries.foldl (publish_row time) l))
    (c : Counter) :
    (entries.foldl (publish_row time) l).accepted_usage_totals.count c =
      l.accepted_usage_totals.count c +
        SortedMap.sumEntries (fun row => row.usage.count c) entries := by
  induction entries generalizing l with
  | nil => rfl
  | cons entry rest ih =>
    rw [foldl_cons] at h ⊢
    have hmono := le_dropped_publish time rest (publish_row time l entry)
    have hsame : (rest.foldl (publish_row time)
        (publish_row time l entry)).dropped_usage_record_count.toNat =
        l.dropped_usage_record_count.toNat := by rw [h.same]
    rcases hadd : l.accepted_usage_totals.add entry.2.usage with _ | totals
    · have hrow : publish_row time l entry = l.note_dropped_usage entry.2.events := by
        unfold publish_row
        simp only [hadd]
      have hlt := toNat_lt_note_dropped (hevents entry mem_cons_self) h.uncapped
      rw [hrow] at hmono hsame
      omega
    · have hdropped : (publish_row time l entry).dropped_usage_record_count =
          l.dropped_usage_record_count := by
        unfold publish_row
        simp only [hadd]
        rfl
      have htotals : (publish_row time l entry).accepted_usage_totals = totals := by
        unfold publish_row
        simp only [hadd]
        rfl
      obtain ⟨hfits, rfl⟩ := add_eq_some.mp hadd
      rw [ih (publish_row time l entry) (fun e he => hevents e (mem_cons_of_mem _ he))
        ⟨by rw [hdropped]; exact h.same, by rw [hdropped]; exact h.uncapped⟩, htotals,
        plus_count hfits, sumEntries_cons]
      omega

theorem count_add_placed {l : Ledger} {placed : PlacedClaudeUsage} {usage : UsageTotals}
    {effort : Option String} (h : l.Keeps (l.add_placed_usage time placed usage effort))
    (c : Counter) :
    (l.add_placed_usage time placed usage effort).accepted_usage_totals.count c =
      l.accepted_usage_totals.count c + usage.count c := by
  have hone : (1 : UInt64) ≠ 0 := by decide
  have hlt := toNat_lt_note_dropped hone h.uncapped
  have hsame := congrArg UInt64.toNat h.same
  unfold add_placed_usage at hsame ⊢
  split
  · rename_i hnone
    simp only [hnone] at hsame
    omega
  · rename_i placement hsome
    simp only [hsome] at hsame
    split
    · rename_i hadd
      simp only [hadd] at hsame
      omega
    · rename_i totals hadd
      obtain ⟨hfits, rfl⟩ := add_eq_some.mp hadd
      exact plus_count hfits c

theorem le_dropped_add_placed (l : Ledger) (placed : PlacedClaudeUsage) (usage : UsageTotals)
    (effort : Option String) :
    l.dropped_usage_record_count.toNat ≤
      (l.add_placed_usage time placed usage effort).dropped_usage_record_count.toNat := by
  unfold add_placed_usage
  split
  · exact le_note_dropped l 1
  · split
    · exact le_note_dropped l 1
    · exact le_refl _

end Ledger

/-- Publication never lowers a total. -/
theorem Ledger.le_count_publish (time : Rfc3339)
    (entries : List ((String ×ₗ RowKey) × PendingRow)) (l : Ledger) (c : Counter) :
    l.accepted_usage_totals.count c ≤
      (entries.foldl (publish_row time) l).accepted_usage_totals.count c := by
  induction entries generalizing l with
  | nil => exact le_refl _
  | cons entry rest ih =>
    refine le_trans ?_ (ih _)
    unfold publish_row
    simp only
    split
    · exact le_refl _
    · rename_i totals hadd
      obtain ⟨hfits, rfl⟩ := add_eq_some.mp hadd
      have hcount := plus_count hfits c
      simp only [enter_row]
      omega

variable {R : Type}

theorem Ledger.le_count_publish_ui (outside : Outside R) (context : Context R)
    (l : Ledger) (call : UiCall) (timestamp : Option String) (delta : UsageTotals) (c : Counter) :
    l.accepted_usage_totals.count c ≤
      (context.publish_ui outside l call timestamp delta).accepted_usage_totals.count c := by
  unfold Context.publish_ui Context.published add_placed_usage
  simp only
  split
  · exact le_refl _
  · split
    · exact le_refl _
    · split
      · exact le_refl _
      · rename_i totals hadd
        obtain ⟨hfits, rfl⟩ := add_eq_some.mp hadd
        have hcount := plus_count hfits c
        simp only [enter_row]
        omega

/-! ## The places of the UI usage -/

/-- The sum of the three receipts in one dimension. -/
def receiptSum (receipts : T6 × T6 × T6) (d : Fin 6) : Nat :=
  (receipts.1 d).toNat + (receipts.2.1 d).toNat + (receipts.2.2 d).toNat

/-- No slot of a receipt stands at its cap. -/
def Uncapped (r : OccurrenceReducer) : Prop :=
  ∀ d, r.counters.receipts.1 d ≠ u64Max ∧ r.counters.receipts.2.1 d ≠ u64Max ∧
    r.counters.receipts.2.2 d ≠ u64Max

/-- The usage that the open turn has staged. -/
def stagedUsage (r : OccurrenceReducer) (d : Fin 6) : Nat :=
  match r.turn with
  | some turn => Pending.total turn.pending d
  | none => 0

/-- The staged usage and the receipts. -/
def held (r : OccurrenceReducer) (d : Fin 6) : Nat :=
  stagedUsage r d + receiptSum r.counters.receipts d

/-- The open turn is exclusive, and its rows stand for events. -/
structure GoodTurn (r : OccurrenceReducer) : Prop where
  exclusive : ∀ turn, r.turn = some turn → turn.Exclusive
  eventful : ∀ turn, r.turn = some turn → Pending.Eventful turn.pending

variable {r r' : OccurrenceReducer}

theorem stagedUsage_of_turn (h : r'.turn = r.turn) (d : Fin 6) :
    stagedUsage r' d = stagedUsage r d := by
  unfold stagedUsage
  rw [h]

theorem stagedUsage_some {turn : BoundTurn} (h : r.turn = some turn)
    (d : Fin 6) : stagedUsage r d = Pending.total turn.pending d := by
  unfold stagedUsage
  rw [h]

theorem GoodTurn.of_turn (h : GoodTurn r) (hturn : r'.turn = r.turn) :
    GoodTurn r' := by
  refine ⟨?_, ?_⟩
  · rw [hturn]
    exact h.exclusive
  · rw [hturn]
    exact h.eventful

theorem GoodTurn.of_empty
    (h : ∀ turn, r.turn = some turn → turn.Exclusive ∧ turn.pending = .empty) : GoodTurn r := by
  refine ⟨fun turn hturn => (h turn hturn).1, fun turn hturn k row hget => ?_⟩
  rw [(h turn hturn).2] at hget
  cases hget

theorem held_of_frames (h : r.Frames r') (d : Fin 6) :
    held r' d = held r d := by
  unfold held
  rw [stagedUsage_of_turn h.turn, h.receipts]

/-- The rows that a closure hands over are all that was staged. -/
theorem stagedUsage_of_rows (h : GoodTurn r) (d : Fin 6) :
    stagedUsage r d =
      ((r.turn.bind staged_rows).map (fun p => Pending.total p d)).getD 0 := by
  unfold stagedUsage
  rcases hturn : r.turn with _ | turn
  · rfl
  · simp only [bind_some, staged_rows]
    split
    · rfl
    · rename_i hchosen
      have hsource : turn.native = true ∨ turn.ui_published = true := by
        simp only [Bool.and_eq_true, Bool.not_eq_true', not_and, Bool.not_eq_false] at hchosen
        by_cases hnative : turn.native = true
        · exact .inl hnative
        · exact .inr (hchosen (by simpa using hnative))
      rw [(h.exclusive turn hturn).nothing_staged hsource]
      rfl

theorem total_eq_dimensionSum (pending : Pending) (d : Fin 6) :
    dimensionSum (fun c => pending.sumValues (fun row => row.usage.count c)) d =
      Pending.total pending d := by
  unfold Pending.total SortedMap.sumValues
  induction pending.entries with
  | nil => simp [dimensionSum]
  | cons e rest ih =>
    simp only [sumEntries_cons, dimensionSum_add, ih]
    rfl

variable {l : Ledger}

theorem exact_publish_pending (time : Rfc3339) {pending : Pending}
    (hevents : Pending.Eventful pending) (h : l.Keeps (l.publish_codex_pending time pending))
    (d : Fin 6) :
    exact_t6 (l.publish_codex_pending time pending).accepted_usage_totals d =
      exact_t6 l.accepted_usage_totals d + Pending.total pending d := by
  rw [← total_eq_dimensionSum]
  apply exact_t6_of_count
  intro c
  apply count_publish time pending.entries l _ h c
  rintro ⟨k, row⟩ hmem
  exact hevents k row (mem_entries.mp hmem)

variable {call : UiCall} {timestamp : Option String} {delta : UsageTotals}

theorem exact_publish_ui (outside : Outside R) {context : Context R}
    (hdelta : delta.is_zero = false)
    (h : l.Keeps (context.publish_ui outside l call timestamp delta)) (d : Fin 6) :
    exact_t6 (context.publish_ui outside l call timestamp delta).accepted_usage_totals d =
      exact_t6 l.accepted_usage_totals d + exact_t6 delta d := by
  unfold Context.publish_ui Context.published at h ⊢
  simp only [hdelta, Bool.false_eq_true, if_false] at h ⊢
  exact exact_t6_of_count (count_add_placed outside.time h) d

/-! ## The phases -/

theorem turn_step_held (time : Rfc3339) {value : Value}
    {pending : Option Pending} (hgood : GoodTurn r)
    (hstep : OccurrenceReducer.TurnStep r value r' pending)
    (hkeeps : l.Keeps (l.publish time pending)) :
    GoodTurn r' ∧ ∀ d, held r' d + exact_t6 (l.publish time pending).accepted_usage_totals d =
      held r d + exact_t6 l.accepted_usage_totals d := by
  -- A closed turn: what it handed over is what it had staged.
  have hclosed : pending = r.turn.bind staged_rows →
      r'.counters.receipts = r.counters.receipts → (∀ d, stagedUsage r' d = 0) →
      ∀ d, held r' d + exact_t6 (l.publish time pending).accepted_usage_totals d =
        held r d + exact_t6 l.accepted_usage_totals d := by
    intro hrows hreceipts hzero d
    have hstaged := stagedUsage_of_rows hgood d
    rw [← hrows] at hstaged
    unfold held
    rw [hreceipts, hzero d, hstaged]
    rcases hp : pending with _ | p
    · simp [Ledger.publish]
    · have hevents : Pending.Eventful p := by
        rw [hp] at hrows
        obtain ⟨turn, hturn, hturnRows⟩ := bind_eq_some_iff.mp hrows.symm
        have hsame : turn.pending = p := by
          unfold staged_rows at hturnRows
          split at hturnRows
          · exact Option.some.inj hturnRows
          · cases hturnRows
        rw [← hsame]
        exact hgood.eventful turn hturn
      rw [hp] at hkeeps
      have hexact := exact_publish_pending time hevents hkeeps d
      simp only [Ledger.publish, map_some, getD_some]
      omega
  cases hstep with
  | quiet hturn hreceipts =>
    refine ⟨hgood.of_turn hturn, fun d => ?_⟩
    unfold held
    rw [stagedUsage_of_turn hturn, hreceipts]
    rfl
  | closed _ hturn hreceipts hrows =>
    refine ⟨GoodTurn.of_empty (fun turn h => ?_), hclosed hrows hreceipts (fun d => ?_)⟩
    · rw [hturn] at h
      cases h
    · unfold stagedUsage
      rw [hturn]
  | bound _ id hturn hreceipts hrows =>
    refine ⟨GoodTurn.of_empty (fun turn h => ?_), hclosed hrows hreceipts (fun d => ?_)⟩
    · cases hturn.symm.trans h
      exact ⟨exclusive_opened id, rfl⟩
    · rw [stagedUsage_some hturn]
      rfl

theorem native_step_held {native : Option NativeRecord}
    {money : Option (NativeRecord × T6)} (hgood : GoodTurn r)
    (hstep : NativeStep r native r' money) (hcap : Uncapped r') :
    GoodTurn r' ∧ ∀ d, held r' d = held r d := by
  cases hstep with
  | ignored _ _ hframe => exact ⟨hgood.of_turn hframe.turn, held_of_frames hframe⟩
  | counted _ _ _ _ _ _ _ _ _ hframe =>
    exact ⟨hgood.of_turn hframe.turn, held_of_frames hframe⟩
  | first n turn r₀ _ _ _ hturn _ hunpublished _ h₀ hframe =>
    refine ⟨GoodTurn.of_empty (fun turn' h => ?_), fun d => ?_⟩
    · cases hframe.turn.symm.trans h
      exact ⟨⟨fun _ => hunpublished, fun _ => rfl⟩, rfl⟩
    · -- The staged rows move to the receipt, row by row.
      have hslot := (hcap d).2.1
      rw [hframe.receipts] at hslot
      obtain ⟨hsum, -⟩ := foldl_add_t6_exact turn.pending.values
        r₀.counters.ui_in_native_turn_not_counted_usage hslot
      have htotal : (turn.pending.values.map (fun row => exact_t6 row.usage d)).sum =
          Pending.total turn.pending d := by
        unfold Pending.total SortedMap.sumValues SortedMap.sumEntries SortedMap.values
        rw [List.map_map]
        rfl
      have hreceipts := h₀.receipts
      simp only [OccurrenceCounters.receipts, Prod.mk.injEq] at hreceipts
      obtain ⟨h1, h2, h3⟩ := hreceipts
      unfold held
      rw [stagedUsage_some hturn, stagedUsage_some hframe.turn, hframe.receipts]
      simp only [receiptSum, OccurrenceCounters.receipts, OccurrenceReducer.discard_staged]
      rw [hsum, htotal, h1, h2, h3]
      have hempty : Pending.total (SortedMap.empty : Pending) d = 0 := rfl
      omega

/-- An admission keeps the staged usage; a refused delta goes to a receipt. -/
theorem admission_held {b : Option Bool}
    (h : UiAdmission r delta r' b) (hcap : Uncapped r') (d : Fin 6) :
    held r' d = held r d + (if b = none then exact_t6 delta d else 0) := by
  unfold held
  rw [stagedUsage_of_turn h.turn_eq]
  cases h with
  | unbound => rfl
  | bound => rfl
  | repeated =>
    obtain ⟨hadd, hvalue, -⟩ := add_t6_exact (hcap d).1
    rw [totals_t6_toNat hvalue] at hadd
    simp only [receiptSum, OccurrenceCounters.receipts, OccurrenceReducer.gated, if_true]
    omega
  | base =>
    obtain ⟨hadd, hvalue, -⟩ := add_t6_exact (hcap d).2.2
    rw [totals_t6_toNat hvalue] at hadd
    simp only [receiptSum, OccurrenceCounters.receipts, OccurrenceReducer.gated, if_true]
    omega

theorem admitted_receipts {b : Bool}
    (h : UiAdmission r delta r' (some b)) : r'.counters.receipts = r.counters.receipts := by
  cases h <;> rfl

theorem held_of_admitted {b : Bool}
    (h : UiAdmission r delta r' (some b)) (d : Fin 6) : held r' d = held r d := by
  unfold held
  rw [stagedUsage_of_turn h.turn_eq, admitted_receipts h]

/-- The usage call of a line moves its delta to one of the places. -/
theorem ui_step_held {outside : Outside R} {context : Context R} {l' : Ledger}
    {delta : Option UsageTotals} {bound : Option Bool} (hgood : GoodTurn r)
    (hdelta : ∀ u, delta = some u → u.is_zero = false)
    (hstep : UiStep outside context l call timestamp r delta bound r' l') (hcap : Uncapped r')
    (hkeeps : l.Keeps l') :
    GoodTurn r' ∧ ∀ d, held r' d + exact_t6 l'.accepted_usage_totals d =
      held r d + exact_t6 l.accepted_usage_totals d +
        (delta.map (fun u => exact_t6 u d)).getD 0 := by
  cases hstep with
  | skipped => exact ⟨hgood, fun d => rfl⟩
  | refused delta _ hadmission =>
    refine ⟨hgood.of_turn hadmission.turn_eq, fun d => ?_⟩
    have hheld := admission_held hadmission hcap d
    simp only [if_true] at hheld
    simp only [map_some, getD_some]
    omega
  | unbound delta _ hadmission =>
    refine ⟨hgood.of_turn hadmission.turn_eq, fun d => ?_⟩
    rw [held_of_admitted hadmission, exact_publish_ui outside (hdelta delta rfl) hkeeps]
    simp only [map_some, getD_some]
    omega
  | direct delta _ _ hadmission =>
    refine ⟨hgood.of_turn hadmission.turn_eq, fun d => ?_⟩
    rw [held_of_admitted hadmission, exact_publish_ui outside (hdelta delta rfl) hkeeps]
    simp only [map_some, getD_some]
    omega
  | in_native delta r₁ _ hadmission =>
    refine ⟨hgood.of_turn hadmission.turn_eq, fun d => ?_⟩
    have hturn : (r₁.note_ui_in_native_turn delta).turn = r₁.turn := rfl
    have hheld := held_of_admitted hadmission d
    obtain ⟨hadd, hvalue, -⟩ := add_t6_exact (hcap d).2.1
    rw [totals_t6_toNat hvalue] at hadd
    unfold held at hheld ⊢
    rw [stagedUsage_of_turn hturn]
    simp only [receiptSum, OccurrenceCounters.receipts, OccurrenceReducer.note_ui_in_native_turn,
      map_some, getD_some] at hheld ⊢
    omega
  | dropped delta _ _ =>
    have hone : (1 : UInt64) ≠ 0 := by decide
    have hlt := toNat_lt_note_dropped hone hkeeps.uncapped
    rw [hkeeps.same] at hlt
    omega
  | staged delta r₁ turn staged p hadmission hturn hnative hui _ hstage =>
    obtain ⟨h1, h2⟩ := stage_flags hstage
    refine ⟨⟨fun turn' h => ?_, fun turn' h => ?_⟩, fun d => ?_⟩
    · cases h
      refine ⟨fun hn => ?_, fun hn => ?_⟩
      · rw [h1, hnative] at hn
        cases hn
      · rw [h1, h2, hnative, hui] at hn
        rcases hn with hn | hn <;> cases hn
    · cases h
      exact stage_eventful hstage (hgood.eventful turn hturn)
    · have hreceipts := admitted_receipts hadmission
      have hsame : ({ r₁ with turn := some staged } : OccurrenceReducer).counters.receipts =
          r.counters.receipts := hreceipts
      have hstaged : ({ r₁ with turn := some staged } : OccurrenceReducer).turn = some staged := rfl
      unfold held
      rw [hsame, stagedUsage_some hturn,
        stagedUsage_some hstaged, stage_total hstage]
      simp only [map_some, getD_some]
      omega
  | overflow delta r₁ turn p hadmission hturn hnative _ _ _ =>
    refine ⟨GoodTurn.of_empty (fun turn' h => ?_), fun d => ?_⟩
    · cases h
      refine ⟨⟨fun hn => ?_, fun _ => rfl⟩, rfl⟩
      rw [hnative] at hn
      cases hn
    · -- Neither the flush nor the delta after it dropped anything.
      have hflush : l.dropped_usage_record_count.toNat ≤
          (l.publish_codex_pending outside.time turn.pending).dropped_usage_record_count.toNat :=
        le_dropped_publish outside.time turn.pending.entries l
      have hadd : (l.publish_codex_pending outside.time
          turn.pending).dropped_usage_record_count.toNat ≤
          (context.publish_ui outside (l.publish_codex_pending outside.time turn.pending) call
            timestamp delta).dropped_usage_record_count.toNat := by
        unfold Context.publish_ui Context.published
        simp only [hdelta delta rfl, Bool.false_eq_true, if_false]
        exact le_dropped_add_placed outside.time _ _ _ _
      have hsame := congrArg UInt64.toNat hkeeps.same
      have hmid : (l.publish_codex_pending outside.time
          turn.pending).dropped_usage_record_count = l.dropped_usage_record_count := by
        rw [← UInt64.toNat_inj]
        omega
      have hkeeps₁ : l.Keeps (l.publish_codex_pending outside.time turn.pending) :=
        ⟨hmid, hkeeps.uncapped⟩
      have hkeeps₂ : (l.publish_codex_pending outside.time turn.pending).Keeps
          (context.publish_ui outside (l.publish_codex_pending outside.time turn.pending) call
            timestamp delta) :=
        ⟨by rw [hmid]; exact hkeeps.same, by rw [hmid]; exact hkeeps.uncapped⟩
      have hflushed : (r₁.flush_turn turn).counters.receipts = r₁.counters.receipts := rfl
      have hreceipts := hflushed.trans (admitted_receipts hadmission)
      have hstaged : stagedUsage (r₁.flush_turn turn) d = 0 := rfl
      unfold held
      rw [hreceipts, hstaged, stagedUsage_some hturn,
        exact_publish_ui outside (hdelta delta rfl) hkeeps₂,
        exact_publish_pending outside.time (hgood.eventful turn hturn) hkeeps₁]
      simp only [map_some, getD_some]
      omega

theorem ui_step_le {outside : Outside R} {context : Context R} {l' : Ledger}
    {delta : Option UsageTotals} {bound : Option Bool}
    (hstep : UiStep outside context l call timestamp r delta bound r' l')
    (c : Counter) : l.accepted_usage_totals.count c ≤ l'.accepted_usage_totals.count c := by
  cases hstep with
  | unbound => exact le_count_publish_ui outside context l call timestamp _ c
  | direct => exact le_count_publish_ui outside context l call timestamp _ c
  | overflow =>
    exact le_trans (le_count_publish outside.time _ l c)
      (le_count_publish_ui outside context _ call timestamp _ c)
  | _ => exact le_refl _

/-! ## The run -/

/-- The deltas of the UI lines that V2 took, and the usage that their
publication added to the totals. -/
structure UiFlow where
  admitted : Fin 6 → Nat := fun _ => 0
  published : Fin 6 → Nat := fun _ => 0

def UiFlow.publish (self : UiFlow) (before after : Ledger) : UiFlow :=
  { self with published := fun d => self.published d +
      (exact_t6 after.accepted_usage_totals d - exact_t6 before.accepted_usage_totals d) }

def UiFlow.accept (self : UiFlow) (delta : Option UsageTotals) : UiFlow :=
  { self with admitted := fun d => self.admitted d + (delta.map (fun u => exact_t6 u d)).getD 0 }

/-- A session with its UI flow. -/
structure Metered (R : Type) where
  acc : SnapshotAccumulator R
  flow : UiFlow := {}

namespace SnapshotAccumulator

variable {R : Type}

/-- The delta of the usage call of a line. -/
def line_delta (s : SnapshotAccumulator R) (line : Line R) : Option UsageTotals :=
  (line.ui s.toContext).bind s.ui_delta

theorem ui_delta_not_zero {s : SnapshotAccumulator R} {call : UiCall} {u : UsageTotals}
    (h : s.ui_delta call = some u) : u.is_zero = false := by
  unfold ui_delta at h
  split at h
  · cases h
  · simp only at h
    split at h
    · cases h
    · rename_i hzero
      cases h
      simpa using hzero

end SnapshotAccumulator

namespace Metered

variable {R : Type} (outside : Outside R)

def lifecycle (m : Metered R) (line : Line R) : Metered R :=
  let acc := m.acc.lifecycle outside line
  { acc, flow := m.flow.publish m.acc.toLedger acc.toLedger }

def native (m : Metered R) (line : Line R) : Metered R :=
  { m with acc := m.acc.native outside line }

/-- The Legacy path is not metered. -/
def count_ui (m : Metered R) (line : Line R) : Metered R :=
  let acc := m.acc.count_ui outside line
  if m.acc.v2.isSome then
    { acc, flow := (m.flow.accept (m.acc.line_delta line)).publish m.acc.toLedger acc.toLedger }
  else { m with acc }

def apply_codex_line (m : Metered R) (line : Line R) : Metered R :=
  ({ m with acc := m.acc.noted line }.lifecycle outside line |>.native outside line).count_ui
    outside line

theorem apply_codex_line_acc (m : Metered R) (line : Line R) :
    (m.apply_codex_line outside line).acc = m.acc.apply_codex_line outside line := by
  unfold apply_codex_line count_ui
  split <;> rfl

theorem run_acc (m : Metered R) (lines : List (Line R)) :
    (run (apply_codex_line outside) m lines).acc =
      run (SnapshotAccumulator.apply_codex_line outside) m.acc lines := by
  induction lines generalizing m with
  | nil => rfl
  | cons line rest ih =>
    rw [Run.cons, Run.cons, ih, apply_codex_line_acc]

/-- Every delta is somewhere. -/
structure Balanced (m : Metered R) : Prop where
  unselected : m.acc.v2 = none → ∀ d, m.flow.admitted d = 0 ∧ m.flow.published d = 0
  good : ∀ r, m.acc.v2 = some r → GoodTurn r
  balance : ∀ r, m.acc.v2 = some r → ∀ d, m.flow.admitted d = m.flow.published d + held r d

/-- A line that drops no UI usage and leaves no receipt at its cap. V2 drops
UI usage when a total would overflow or when the line has no time for an hour. -/
structure Undisturbed (s : SnapshotAccumulator R) (line : Line R) : Prop where
  closure : (s.noted line).toLedger.Keeps ((s.noted line).lifecycle outside line).toLedger
  usage : (((s.noted line).lifecycle outside line).native outside line).toLedger.Keeps
    (s.apply_codex_line outside line).toLedger
  native : ∀ r, (((s.noted line).lifecycle outside line).native outside line).v2 = some r →
    Uncapped r
  ui : ∀ r, (s.apply_codex_line outside line).v2 = some r → Uncapped r

variable {m : Metered R}

theorem balanced_lifecycle (h : m.Balanced) (line : Line R)
    (hkeeps : m.acc.toLedger.Keeps (m.acc.lifecycle outside line).toLedger) :
    (m.lifecycle outside line).Balanced := by
  unfold lifecycle
  rcases m.acc.lifecycle_cases outside line with ⟨r, hstarts⟩ | ⟨hbefore, hafter, hledger⟩
  · obtain ⟨r', pending, hstep, hv2, hledger⟩ :=
      lifecycle_step outside hstarts
    have hstart : GoodTurn r ∧ ∀ d, m.flow.admitted d = m.flow.published d + held r d := by
      cases hstarts with
      | running _ hrun => exact ⟨h.good _ hrun, h.balance _ hrun⟩
      | selected hnone _ =>
        refine ⟨GoodTurn.of_empty (fun turn hturn => by cases hturn), fun d => ?_⟩
        obtain ⟨h1, h2⟩ := h.unselected hnone d
        have hheld : held {} d = 0 := rfl
        rw [h1, h2, hheld]
    rw [hledger] at hkeeps
    obtain ⟨hgood', hheld⟩ := turn_step_held outside.time hstart.1 hstep hkeeps
    refine ⟨fun hnone => ?_, fun r'' hr => ?_, fun r'' hr d => ?_⟩
    · rw [hv2] at hnone
      cases hnone
    · cases hv2.symm.trans hr
      exact hgood'
    · cases hv2.symm.trans hr
      have h1 := hstart.2 d
      have h2 := hheld d
      have hle : exact_t6 m.acc.accepted_usage_totals d ≤
          exact_t6 (m.acc.toLedger.publish outside.time pending).accepted_usage_totals d := by
        apply exact_t6_mono
        intro c
        rcases pending with _ | p
        · exact le_refl _
        · exact le_count_publish outside.time p.entries m.acc.toLedger c
      simp only [UiFlow.publish, hledger]
      omega
  · refine ⟨fun _ d => ?_, fun r hr => ?_, fun r hr => ?_⟩
    · simp only [UiFlow.publish, hledger, Nat.sub_self, Nat.add_zero]
      exact h.unselected hbefore d
    · rw [hafter] at hr
      cases hr
    · rw [hafter] at hr
      cases hr

theorem balanced_native (h : m.Balanced) (line : Line R)
    (hcap : ∀ r, (m.acc.native outside line).v2 = some r → Uncapped r) :
    (m.native outside line).Balanced := by
  unfold native
  rcases hv2 : m.acc.v2 with _ | r
  · rw [native_of_no_v2 outside hv2]
    exact h
  rcases native_cases outside hv2 line with
    ⟨-, hsame⟩ | ⟨r', money, hstep, hv2', -⟩
  · rw [hsame]
    exact h
  · obtain ⟨hgood, hheld⟩ := native_step_held (h.good r hv2) hstep (hcap r' hv2')
    refine ⟨fun hnone => ?_, fun r'' hr => ?_, fun r'' hr d => ?_⟩
    · rw [hv2'] at hnone
      cases hnone
    · cases hv2'.symm.trans hr
      exact hgood
    · cases hv2'.symm.trans hr
      rw [hheld d]
      exact h.balance r hv2 d

theorem balanced_count_ui (h : m.Balanced) (line : Line R)
    (hkeeps : m.acc.toLedger.Keeps (m.acc.count_ui outside line).toLedger)
    (hcap : ∀ r, (m.acc.count_ui outside line).v2 = some r → Uncapped r) :
    (m.count_ui outside line).Balanced := by
  unfold count_ui
  rcases hv2 : m.acc.v2 with _ | r
  · have hnone := count_ui_of_no_v2 outside hv2 line
    refine ⟨fun _ => h.unselected hv2, fun r hr => ?_, fun r hr => ?_⟩
    · cases hnone.symm.trans hr
    · cases hnone.symm.trans hr
  simp only [isSome_some, if_true]
  rcases count_ui_cases outside hv2 line with
    ⟨hui, hsame⟩ | ⟨call, bound, r', hui, hv2', hstep, -⟩
  · have hdelta : m.acc.line_delta line = none := by
      unfold line_delta
      rw [hui]
      rfl
    rw [hsame, hdelta]
    refine ⟨fun hnone => ?_, h.good, fun r'' hr d => ?_⟩
    · cases hv2.symm.trans hnone
    · simpa [UiFlow.publish, UiFlow.accept] using h.balance r'' hr d
  · have hdelta : m.acc.line_delta line = m.acc.ui_delta call := by
      unfold line_delta
      rw [hui]
      rfl
    obtain ⟨hgood, hheld⟩ := ui_step_held (h.good r hv2)
      (fun u hu => ui_delta_not_zero hu) hstep (hcap r' hv2') hkeeps
    refine ⟨fun hnone => ?_, fun r'' hr => ?_, fun r'' hr d => ?_⟩
    · cases hv2'.symm.trans hnone
    · cases hv2'.symm.trans hr
      exact hgood
    · cases hv2'.symm.trans hr
      have h1 := h.balance r hv2 d
      have h2 := hheld d
      have hle := exact_t6_mono (ui_step_le hstep) d
      simp only [UiFlow.publish, UiFlow.accept, hdelta]
      omega

theorem balanced_apply (h : m.Balanced) {line : Line R}
    (hline : Undisturbed outside m.acc line) : (m.apply_codex_line outside line).Balanced := by
  have hnoted : Balanced { m with acc := m.acc.noted line } := ⟨h.unselected, h.good, h.balance⟩
  have hlife := balanced_lifecycle outside hnoted line hline.closure
  have hnative := balanced_native outside hlife line hline.native
  exact balanced_count_ui outside hnative line hline.usage hline.ui

/-- Each line of the run is undisturbed in the state it meets. -/
def AllUndisturbed (s : SnapshotAccumulator R) : List (Line R) → Prop
  | [] => True
  | line :: rest => Undisturbed outside s line ∧
      AllUndisturbed (s.apply_codex_line outside line) rest

theorem balanced_run (h : m.Balanced) {lines : List (Line R)}
    (hlines : AllUndisturbed outside m.acc lines) :
    (run (apply_codex_line outside) m lines).Balanced := by
  induction lines generalizing m with
  | nil => exact h
  | cons line rest ih =>
    obtain ⟨hline, hrest⟩ := hlines
    apply ih (balanced_apply outside h hline)
    rw [apply_codex_line_acc]
    exact hrest

/-- In a session that counts by V2 and drops nothing, the deltas of the UI
lines are published, staged, or on one of the three receipts. -/
theorem no_ui_usage_is_lost (context : Context R) (evidence : AckEvidence)
    (cutover : Option Int64) (lines : List (Line R))
    (hlines : AllUndisturbed outside (.fresh context (some (.new evidence cutover))) lines)
    (r : OccurrenceReducer)
    (hv2 : (run (SnapshotAccumulator.apply_codex_line outside)
      (.fresh context (some (.new evidence cutover))) lines).v2 = some r) (d : Fin 6) :
    let m := run (apply_codex_line outside)
      { acc := .fresh context (some (.new evidence cutover)) } lines
    m.flow.admitted d = m.flow.published d + stagedUsage r d +
      ((r.counters.ui_equal_total_repeat_usage d).toNat +
        (r.counters.ui_in_native_turn_not_counted_usage d).toNat +
        (r.counters.v2_cumulative_base_uncounted_usage d).toNat) := by
  intro m
  have hstart : Balanced (R := R) { acc := .fresh context (some (.new evidence cutover)) } := by
    have hnone : (SnapshotAccumulator.fresh context (some (.new evidence cutover))).v2 = none := rfl
    refine ⟨fun _ d => ⟨rfl, rfl⟩, fun r hr => ?_, fun r hr => ?_⟩
    · cases hnone.symm.trans hr
    · cases hnone.symm.trans hr
  have hbalanced : m.Balanced := balanced_run outside hstart hlines
  have hr : m.acc.v2 = some r := by
    rw [run_acc]
    exact hv2
  rw [hbalanced.balance r hr d, Nat.add_assoc]
  rfl

/-- Empty receipts are under their caps. -/
theorem uncapped_of_empty {s : SnapshotAccumulator R}
    (h : s.v2.map (fun r => r.counters.receipts) = some (T6.zero, T6.zero, T6.zero))
    (r : OccurrenceReducer) (hr : s.v2 = some r) : Uncapped r := by
  rw [hr, map_some, Option.some.injEq] at h
  intro d
  have hzero : T6.zero d ≠ u64Max := by
    change (0 : UInt64) ≠ u64Max
    decide
  rw [h]
  exact ⟨hzero, hzero, hzero⟩

theorem no_ui_usage_is_lost_in_t1 :
    let m := run (apply_codex_line exampleOutside)
      { acc := .fresh {} (some (.new .None (some 0))) }
      [exampleHeader, exampleEvent "task_started", exampleUi]
    m.flow.admitted 0 = m.flow.published 0 + 100 + (0 + 0 + 0) := by
  have hlines : AllUndisturbed exampleOutside (.fresh {} (some (.new .None (some 0))))
      [exampleHeader, exampleEvent "task_started", exampleUi] := by
    refine ⟨⟨⟨rfl, ?_⟩, ⟨rfl, ?_⟩, ?_, ?_⟩, ⟨⟨rfl, ?_⟩, ⟨rfl, ?_⟩, ?_, ?_⟩,
      ⟨⟨rfl, ?_⟩, ⟨rfl, ?_⟩, ?_, ?_⟩, trivial⟩
    all_goals first
      | exact uncapped_of_empty rfl
      | exact (by decide : (0 : UInt64) ≠ u64Max)
  exact no_ui_usage_is_lost exampleOutside {} .None (some 0) _ hlines _ rfl 0

end Metered

end ottto_service.accumulator
