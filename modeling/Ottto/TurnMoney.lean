-- The law of one money source: a bound turn never has both UI usage and
-- native usage published. A native discards the staged rows of its turn, and a
-- published turn refuses its natives.
import Ottto.ClosedTurns

open Words

namespace ottto_service.codex_usage_occurrence

open serde_json json_fields usage accumulator codex_counting_version BoundTurn

/-- The rows that the closure of the turn publishes. -/
def BoundTurn.staged_rows (turn : BoundTurn) : Option Pending :=
  if !turn.native && !turn.ui_published then some turn.pending else none

/-- One source, and nothing staged once it is chosen. -/
structure BoundTurn.Exclusive (turn : BoundTurn) : Prop where
  one_source : turn.native = true → turn.ui_published = false
  nothing_staged : turn.native = true ∨ turn.ui_published = true → turn.pending = .empty

theorem BoundTurn.exclusive_opened (id : String) : (BoundTurn.opened id).Exclusive := by
  refine ⟨fun h => ?_, fun h => ?_⟩
  · cases h
  · rfl

namespace OccurrenceReducer

section

variable (sha256 : List UInt8 → Fin 32 → UInt8)

theorem remember_closed_receipts (r : OccurrenceReducer) (id : String) :
    (r.remember_closed sha256 id).counters.receipts = r.counters.receipts := by
  unfold remember_closed
  simp only
  split <;> rfl

theorem close_receipts (r : OccurrenceReducer) (closing : Option String) :
    (r.close_codex_turn_content sha256 closing).1.counters.receipts = r.counters.receipts := by
  unfold close_codex_turn_content
  rcases r.turn with _ | turn
  · simp only
    split
    · exact remember_closed_receipts sha256 r _
    · rfl
  · simp only [remember_closed_receipts]
    split
    · unfold note_mismatch
      split
      · exact remember_closed_receipts sha256 _ _
      · rfl
    · rfl

theorem close_pending (r : OccurrenceReducer) (closing : Option String) :
    (r.close_codex_turn_content sha256 closing).2 = r.turn.bind staged_rows := by
  unfold close_codex_turn_content
  rcases r.turn with _ | turn
  · simp only
    split <;> rfl
  · rfl

theorem bind_receipts (r : OccurrenceReducer) (turn_id : Option String) :
    (r.bind_turn sha256 turn_id).counters.receipts = r.counters.receipts := by
  unfold bind_turn
  rcases turn_id with _ | id
  · rfl
  · simp only
    split <;> rfl

theorem bind_turn_cases (r : OccurrenceReducer) (turn_id : Option String) :
    (r.bind_turn sha256 turn_id).turn = none ∨
      ∃ id, turn_id = some id ∧ (r.bind_turn sha256 turn_id).turn = some (BoundTurn.opened id) := by
  unfold bind_turn
  rcases turn_id with _ | id
  · exact .inl rfl
  · simp only
    split
    · exact .inl rfl
    · exact .inl rfl
    · exact .inr ⟨id, rfl, rfl⟩

/-- A line that starts a turn. -/
def starts_turn (value : Value) : Bool :=
  decide (string_at value ["payload", "type"] = some "task_started")

/-- A line that starts or ends a turn. -/
def is_turn_event (value : Value) : Bool :=
  let event := string_at value ["payload", "type"]
  decide (event = some "task_started" ∨ event = some "task_complete" ∨
    event = some "turn_aborted")

/-- A turn event on the open turn: nothing, or the turn is closed, its staged
rows are handed over, and a start may bind a new one. -/
inductive TurnStep (r : OccurrenceReducer) (value : Value) :
    OccurrenceReducer → Option Pending → Prop
  | quiet (r' : OccurrenceReducer) (hturn : r'.turn = r.turn)
    (hreceipts : r'.counters.receipts = r.counters.receipts)
    (hquiet : is_turn_event value = false) : TurnStep r value r' none
  | closed (r' : OccurrenceReducer) (pending : Option Pending) (hturn : r'.turn = none)
    (hreceipts : r'.counters.receipts = r.counters.receipts)
    (hrows : pending = r.turn.bind staged_rows) (hevent : is_turn_event value = true) :
    TurnStep r value r' pending
  | bound (r' : OccurrenceReducer) (pending : Option Pending) (id : String)
    (hturn : r'.turn = some (BoundTurn.opened id))
    (hreceipts : r'.counters.receipts = r.counters.receipts)
    (hrows : pending = r.turn.bind staged_rows) (hstart : starts_turn value = true) :
    TurnStep r value r' pending

theorem turn_step (r : OccurrenceReducer) (value : Value) :
    TurnStep r value (r.turn_event sha256 value).1 (r.turn_event sha256 value).2 := by
  unfold turn_event
  simp only
  split_ifs with hstart hend
  · have hreceipts := (bind_receipts sha256 _ (bounded_turn_id
      (string_at value ["payload", "turn_id"]))).trans
      (close_receipts sha256 { r with line_ui := ui_t6_pair value } none)
    rcases bind_turn_cases sha256
      ({ r with line_ui := ui_t6_pair value }.close_codex_turn_content sha256 none).1
      (bounded_turn_id (string_at value ["payload", "turn_id"])) with hnone | ⟨id, -, hbound⟩
    · exact .closed _ _ hnone hreceipts (close_pending sha256 _ _)
        (by simp [is_turn_event, hstart])
    · exact .bound _ _ id hbound hreceipts (close_pending sha256 _ _)
        (by simpa [starts_turn] using hstart)
  · exact .closed _ _ (close_turn_none sha256 _ _) (close_receipts sha256 _ _)
      (close_pending sha256 _ _) (by simpa [is_turn_event] using .inr hend)
  · exact .quiet _ rfl rfl (by simpa [is_turn_event, hstart] using hend)

theorem is_turn_event_of_starts {value : Value} (h : starts_turn value = true) :
    is_turn_event value = true := by
  unfold starts_turn at h
  unfold is_turn_event
  simp only [decide_eq_true_eq] at h ⊢
  exact .inl h

end

end OccurrenceReducer

theorem BoundTurn.stage_flags {time : Rfc3339} {turn staged : BoundTurn} {bucket activity : String}
    {key : RowKey} {context sources : SortedMap String String} {usage : UsageTotals}
    (h : turn.stage time bucket activity key context sources usage = some staged) :
    staged.native = turn.native ∧ staged.ui_published = turn.ui_published := by
  obtain ⟨row, rfl, -⟩ := stage_cases h
  exact ⟨rfl, rfl⟩

/-- The staged rows grow by the usage, in every sum that adds up. -/
theorem BoundTurn.stage_sum {time : Rfc3339} {turn staged : BoundTurn} {bucket activity : String}
    {key : RowKey} {context sources : SortedMap String String} {usage : UsageTotals}
    (h : turn.stage time bucket activity key context sources usage = some staged)
    {f : UsageTotals → Nat} (hf : ∀ a b, a.Fits b → f (a.plus b) = f a + f b) :
    staged.pending.sumValues (fun row => f row.usage) =
      turn.pending.sumValues (fun row => f row.usage) + f usage := by
  obtain ⟨row, rfl, hrow⟩ := stage_cases h
  have hsum := turn.pending.sumValues_insert (fun row => f row.usage) (toLex (bucket, key)) row
  rcases hrow with ⟨hget, rfl⟩ | ⟨old, hget, hfits, rfl⟩
  · simpa [hget] using hsum
  · have hjoined := hf old.usage usage hfits
    simp only [hget, Option.map_some, Option.getD_some, PendingRow.merged] at hsum ⊢
    omega

end ottto_service.codex_usage_occurrence

namespace ottto_service.accumulator

open serde_json json_fields usage codex_counting_version codex_usage_occurrence Option BoundTurn
open OccurrenceReducer
open SnapshotAccumulator

/-- What is published: the totals and the rows. -/
def Ledger.money (l : Ledger) : UsageTotals × SortedMap String UsageBucketState :=
  (l.accepted_usage_totals, l.usage_buckets)

namespace SnapshotAccumulator

variable {R : Type} (outside : Outside R)

/-! ## The phases of the open turn -/

variable {s : SnapshotAccumulator R}

theorem lifecycle_step {line : Line R} {r : OccurrenceReducer} (h : s.Starts outside line r) :
    ∃ r' pending, OccurrenceReducer.TurnStep r line.value r' pending ∧
      (s.lifecycle outside line).v2 = some r' ∧
      (s.lifecycle outside line).toLedger = s.toLedger.publish outside.time pending := by
  obtain ⟨hv2, hledger⟩ := lifecycle_of_starts outside h
  exact ⟨_, _, r.turn_step outside.sha256 line.value, hv2, hledger⟩

variable {turn : BoundTurn}

/-- A native turn publishes nothing at its closure. -/
theorem lifecycle_of_native_turn
    (hturn : s.turn = some turn) (hnative : turn.native = true) (line : Line R) :
    (s.lifecycle outside line).toLedger = s.toLedger := by
  obtain ⟨r, hv2, hr⟩ := bind_eq_some_iff.mp hturn
  have hrows : r.turn.bind staged_rows = none := by
    rw [hr]
    simp [staged_rows, hnative]
  have hstarts : s.Starts outside line r := .running r hv2
  obtain ⟨r', pending, hstep, -, hledger⟩ := lifecycle_step outside hstarts
  rw [hledger]
  cases hstep with
  | quiet => rfl
  | closed _ _ _ hp =>
    rw [hp, hrows]
    rfl
  | bound _ _ _ _ hp =>
    rw [hp, hrows]
    rfl

/-- A turn whose UI usage is published takes no money from a native. -/
theorem native_of_published_turn
    (hturn : s.turn = some turn) (hpublished : turn.ui_published = true) (line : Line R) :
    (s.native outside line).toLedger = s.toLedger := by
  obtain ⟨r, hv2, hr⟩ := bind_eq_some_iff.mp hturn
  rcases native_cases outside hv2 line with ⟨-, hsame⟩ | ⟨r', money, hstep, -, hledger⟩
  · rw [hsame]
  · have hnone : money = none := by
      cases hstep with
      | ignored => rfl
      | counted _ turn' _ _ _ hturn' _ hunpublished =>
        cases hr.symm.trans hturn'
        rw [hpublished] at hunpublished
        cases hunpublished
      | first _ turn' _ _ _ _ hturn' _ hunpublished =>
        cases hr.symm.trans hturn'
        rw [hpublished] at hunpublished
        cases hunpublished
    rcases hledger with ⟨-, hsame⟩ | ⟨_, _, _, _, _, _, hsome, -⟩
    · exact hsame
    · rw [hnone] at hsome
      cases hsome

/-- A native of the open turn is accepted unless the UI usage of the turn is
published: the turn is native, and nothing is staged. -/
theorem native_of_open_turn (hturn : s.turn = some turn) (hunpublished : turn.ui_published = false)
    (hexclusive : turn.Exclusive) {line : Line R} {n : NativeRecord}
    (htype : string_eq_at line.value ["type"] "token_usage_record" = true)
    (hn : native_record line.value s.source_session_id = some n) (hid : n.turn_id = some turn.id) :
    ∃ turn', (s.native outside line).turn = some turn' ∧ turn'.id = turn.id ∧
      turn'.native = true ∧ turn'.pending = .empty := by
  obtain ⟨r, hv2, hr⟩ := bind_eq_some_iff.mp hturn
  rcases native_cases outside hv2 line with ⟨hother, -⟩ | ⟨r', money, hstep, hv2', -⟩
  · rw [htype] at hother
    cases hother
  have hturn' : (s.native outside line).turn = r'.turn := by
    unfold SnapshotAccumulator.turn
    rw [hv2']
    rfl
  rw [hturn']
  cases hstep with
  | ignored _ hwhy _ =>
    have hpublished := hwhy n turn hn hr hid
    rw [hunpublished] at hpublished
    cases hpublished
  | counted _ turn' _ _ _ hopen _ _ hcounts hframe =>
    cases hr.symm.trans hopen
    exact ⟨turn, hframe.turn.trans hr, rfl, hcounts, hexclusive.nothing_staged (.inl hcounts)⟩
  | first _ turn' _ _ _ _ hopen _ _ _ _ hframe =>
    cases hr.symm.trans hopen
    exact ⟨_, hframe.turn, rfl, rfl, rfl⟩

/-- A UI line of a native turn publishes nothing, and the turn stays native. -/
theorem count_ui_of_native_turn
    (hturn : s.turn = some turn) (hnative : turn.native = true) (line : Line R) :
    (s.count_ui outside line).toLedger = s.toLedger ∧
      (s.count_ui outside line).turn = some turn := by
  obtain ⟨r, hv2, hr⟩ := bind_eq_some_iff.mp hturn
  rcases count_ui_cases outside hv2 line with ⟨-, hsame⟩ | ⟨call, bound, r', -, hv2', hstep, -⟩
  · rw [hsame]
    exact ⟨rfl, hturn⟩
  have hturn' : r'.turn = some turn → (s.count_ui outside line).turn = some turn := by
    intro h
    unfold SnapshotAccumulator.turn
    rw [hv2']
    exact h
  have hnot : ∀ turn', r.turn = some turn' → turn'.native ≠ false := by
    intro turn' h
    cases hr.symm.trans h
    simp [hnative]
  generalize (s.count_ui outside line).toLedger = l' at hstep
  generalize s.ui_delta call = delta at hstep
  cases hstep with
  | skipped => exact ⟨rfl, hturn' hr⟩
  | refused _ _ hadmission => exact ⟨rfl, hturn' (hadmission.turn_eq.trans hr)⟩
  | unbound _ _ hadmission =>
    cases hadmission with
    | unbound _ hnone =>
      rw [hr] at hnone
      cases hnone
  | in_native _ _ _ hadmission => exact ⟨rfl, hturn' (hadmission.turn_eq.trans hr)⟩
  | direct _ _ turn' _ h hfalse => exact absurd hfalse (hnot turn' h)
  | staged _ _ turn' _ _ _ h hfalse => exact absurd hfalse (hnot turn' h)
  | dropped _ _ turn' _ h hfalse => exact absurd hfalse (hnot turn' h)
  | overflow _ _ turn' _ _ h hfalse => exact absurd hfalse (hnot turn' h)

end SnapshotAccumulator

/-! ## The bindings of a run -/

/-- The bindings of a run by number, and the ones whose UI usage or native
usage was published. -/
structure TurnLedger where
  bound : Nat := 0
  ui : List Nat := []
  native : List Nat := []

namespace TurnLedger

variable {R : Type}

/-- Money moved while a turn was open. -/
def moved (before after : SnapshotAccumulator R) : Bool :=
  before.turn.isSome && decide (before.toLedger.money ≠ after.toLedger.money)

def note_ui (self : TurnLedger) (before after : SnapshotAccumulator R) : TurnLedger :=
  if moved before after then { self with ui := self.bound :: self.ui } else self

def note_native (self : TurnLedger) (before after : SnapshotAccumulator R) : TurnLedger :=
  if moved before after then { self with native := self.bound :: self.native } else self

def note_binding (self : TurnLedger) (line : Line R) (after : SnapshotAccumulator R) :
    TurnLedger :=
  if starts_turn line.value && after.turn.isSome then
    { self with bound := self.bound + 1 }
  else self

/-- Only bindings made so far are noted, and none of them twice over. -/
structure Disjoint (t : TurnLedger) : Prop where
  ui_le : ∀ n ∈ t.ui, n ≤ t.bound
  native_le : ∀ n ∈ t.native, n ≤ t.bound
  one_source : ∀ n, ¬ (n ∈ t.ui ∧ n ∈ t.native)

theorem note_ui_bound (t : TurnLedger) (before after : SnapshotAccumulator R) :
    (t.note_ui before after).bound = t.bound := by
  unfold note_ui
  split <;> rfl

theorem note_ui_native (t : TurnLedger) (before after : SnapshotAccumulator R) :
    (t.note_ui before after).native = t.native := by
  unfold note_ui
  split <;> rfl

variable {t : TurnLedger} {before after : SnapshotAccumulator R}

theorem mem_note_ui {n : Nat} (h : n ∈ (t.note_ui before after).ui) :
    n ∈ t.ui ∨ (n = t.bound ∧ moved before after = true) := by
  unfold note_ui at h
  split at h
  · rename_i hmoved
    rcases List.mem_cons.mp h with rfl | h
    · exact .inr ⟨rfl, hmoved⟩
    · exact .inl h
  · exact .inl h

theorem Disjoint.note_ui (h : t.Disjoint)
    (hnot : moved before after = true → t.bound ∉ t.native) : (t.note_ui before after).Disjoint := by
  refine ⟨fun n hn => ?_, ?_, ?_⟩
  · rw [note_ui_bound]
    rcases mem_note_ui hn with hn | ⟨rfl, -⟩
    · exact h.ui_le n hn
    · exact le_refl _
  · rw [note_ui_bound, note_ui_native]
    exact h.native_le
  · rintro n ⟨hui, hnative⟩
    rw [note_ui_native] at hnative
    rcases mem_note_ui hui with hui | ⟨rfl, hmoved⟩
    · exact h.one_source n ⟨hui, hnative⟩
    · exact hnot hmoved hnative

theorem mem_note_native {n : Nat} (h : n ∈ (t.note_native before after).native) :
    n ∈ t.native ∨ (n = t.bound ∧ moved before after = true) := by
  unfold note_native at h
  split at h
  · rename_i hmoved
    rcases List.mem_cons.mp h with rfl | h
    · exact .inr ⟨rfl, hmoved⟩
    · exact .inl h
  · exact .inl h

theorem note_native_bound (t : TurnLedger) (before after : SnapshotAccumulator R) :
    (t.note_native before after).bound = t.bound := by
  unfold note_native
  split <;> rfl

theorem note_native_ui (t : TurnLedger) (before after : SnapshotAccumulator R) :
    (t.note_native before after).ui = t.ui := by
  unfold note_native
  split <;> rfl

theorem Disjoint.note_native (h : t.Disjoint)
    (hnot : moved before after = true → t.bound ∉ t.ui) : (t.note_native before after).Disjoint := by
  refine ⟨?_, fun n hn => ?_, ?_⟩
  · rw [note_native_bound, note_native_ui]
    exact h.ui_le
  · rw [note_native_bound]
    rcases mem_note_native hn with hn | ⟨rfl, -⟩
    · exact h.native_le n hn
    · exact le_refl _
  · rintro n ⟨hui, hnative⟩
    rw [note_native_ui] at hui
    rcases mem_note_native hnative with hnative | ⟨rfl, hmoved⟩
    · exact h.one_source n ⟨hui, hnative⟩
    · exact hnot hmoved hui

theorem Disjoint.note_binding (h : t.Disjoint) (line : Line R)
    (after : SnapshotAccumulator R) : (t.note_binding line after).Disjoint := by
  unfold TurnLedger.note_binding
  split
  · exact ⟨fun n hn => le_trans (h.ui_le n hn) (Nat.le_succ _),
      fun n hn => le_trans (h.native_le n hn) (Nat.le_succ _), h.one_source⟩
  · exact h

theorem not_moved
    (h : after.toLedger.money = before.toLedger.money) : moved before after ≠ true := by
  simp [moved, h]

theorem not_moved_of_no_turn (after : SnapshotAccumulator R) (h : before.turn = none) :
    moved before after ≠ true := by
  simp [moved, h]

end TurnLedger

/-- A session under watch. -/
structure Watched (R : Type) where
  acc : SnapshotAccumulator R
  turns : TurnLedger := {}

namespace Watched

variable {R : Type} (outside : Outside R)

def lifecycle (w : Watched R) (line : Line R) : Watched R :=
  let acc := w.acc.lifecycle outside line
  { acc, turns := (w.turns.note_ui w.acc acc).note_binding line acc }

def native (w : Watched R) (line : Line R) : Watched R :=
  let acc := w.acc.native outside line
  { acc, turns := w.turns.note_native w.acc acc }

def count_ui (w : Watched R) (line : Line R) : Watched R :=
  let acc := w.acc.count_ui outside line
  { acc, turns := w.turns.note_ui w.acc acc }

def apply_codex_line (w : Watched R) (line : Line R) : Watched R :=
  ({ w with acc := w.acc.noted line }.lifecycle outside line |>.native outside line).count_ui
    outside line

theorem run_acc (w : Watched R) (lines : List (Line R)) :
    (run (apply_codex_line outside) w lines).acc =
      run (SnapshotAccumulator.apply_codex_line outside) w.acc lines := by
  induction lines generalizing w with
  | nil => rfl
  | cons line rest ih => exact ih (w.apply_codex_line outside line)

/-- The open turn is exclusive, and its flags know what was published for its
binding. -/
structure Settled (turns : TurnLedger) (turn : BoundTurn) : Prop where
  exclusive : turn.Exclusive
  ui : turns.bound ∈ turns.ui → turn.ui_published = true
  native : turns.bound ∈ turns.native → turn.native = true

structure OneSource (w : Watched R) : Prop where
  disjoint : w.turns.Disjoint
  settled : ∀ turn, w.acc.turn = some turn → Settled w.turns turn

variable {s : SnapshotAccumulator R}

theorem turn_of_v2 {r : OccurrenceReducer} (h : s.v2 = some r) :
    s.turn = r.turn := by
  unfold SnapshotAccumulator.turn
  rw [h]
  rfl

theorem turn_of_no_v2 (h : s.v2 = none) : s.turn = none := by
  unfold SnapshotAccumulator.turn
  rw [h]
  rfl

theorem turn_of_starts {line : Line R} {r : OccurrenceReducer}
    (h : s.Starts outside line r) : s.turn = r.turn := by
  cases h with
  | running _ h => exact turn_of_v2 h
  | selected hnone _ => exact turn_of_no_v2 hnone

variable {w : Watched R}

theorem oneSource_lifecycle (h : w.OneSource) (line : Line R) :
    (w.lifecycle outside line).OneSource := by
  unfold lifecycle
  simp only
  rcases w.acc.lifecycle_cases outside line with ⟨r, hstarts⟩ | ⟨hbefore, hafter, hledger⟩
  · obtain ⟨r', pending, hstep, hv2, hledger⟩ :=
      lifecycle_step outside hstarts
    have hturn := turn_of_starts outside hstarts
    have hturn' := turn_of_v2 hv2
    -- Rows are handed over only by a turn that has no native.
    have hnot : pending = r.turn.bind staged_rows →
        TurnLedger.moved w.acc (w.acc.lifecycle outside line) = true →
        w.turns.bound ∉ w.turns.native := by
      intro hrows hmoved hmem
      rcases hr : r.turn with _ | turn
      · exact TurnLedger.not_moved_of_no_turn _ (hturn.trans hr) hmoved
      · have hnative := (h.settled turn (hturn.trans hr)).native hmem
        apply TurnLedger.not_moved _ hmoved
        rw [hledger, hrows, hr]
        simp [staged_rows, hnative, Ledger.publish]
    cases hstep with
    | quiet hsame _ hquiet =>
      have hstart : starts_turn line.value = false := by
        by_contra hstart
        rw [is_turn_event_of_starts (by simpa using hstart)] at hquiet
        cases hquiet
      have hmoved : TurnLedger.moved w.acc (w.acc.lifecycle outside line) ≠ true := by
        apply TurnLedger.not_moved
        rw [hledger]
        rfl
      refine ⟨(h.disjoint.note_ui (fun hm => absurd hm hmoved)).note_binding _ _, ?_⟩
      intro turn hopen
      have hsettled := h.settled turn (by rw [hturn, ← hsame, ← hturn', hopen])
      simpa [TurnLedger.note_binding, TurnLedger.note_ui, hstart, hmoved] using hsettled
    | closed _ hnone _ hrows =>
      refine ⟨(h.disjoint.note_ui (hnot hrows)).note_binding _ _, ?_⟩
      intro turn hopen
      rw [hturn', hnone] at hopen
      cases hopen
    | bound _ id hbound _ hrows hstart =>
      have hdisjoint := h.disjoint.note_ui (hnot hrows)
      refine ⟨hdisjoint.note_binding _ _, ?_⟩
      intro turn hopen
      have hopened : turn = BoundTurn.opened id := by
        rw [hturn', hbound] at hopen
        exact (Option.some.inj hopen).symm
      subst hopened
      have hbinding : ∀ t : TurnLedger,
          t.note_binding line (w.acc.lifecycle outside line) = { t with bound := t.bound + 1 } := by
        intro t
        unfold TurnLedger.note_binding
        rw [hopen, hstart]
        rfl
      rw [hbinding]
      -- The new binding has a number that no list holds.
      refine ⟨exclusive_opened id, fun hm => ?_, fun hm => ?_⟩
      · exact absurd (hdisjoint.ui_le _ hm) (Nat.not_succ_le_self _)
      · exact absurd (hdisjoint.native_le _ hm) (Nat.not_succ_le_self _)
  · have hmoved := TurnLedger.not_moved_of_no_turn (w.acc.lifecycle outside line)
      (turn_of_no_v2 hbefore)
    refine ⟨(h.disjoint.note_ui (fun hm => absurd hm hmoved)).note_binding _ _, ?_⟩
    intro turn hopen
    rw [turn_of_no_v2 hafter] at hopen
    cases hopen

theorem oneSource_native (h : w.OneSource) (line : Line R) :
    (w.native outside line).OneSource := by
  unfold native
  rcases hv2 : w.acc.v2 with _ | r
  · rw [native_of_no_v2 outside hv2]
    have hmoved := TurnLedger.not_moved_of_no_turn w.acc (turn_of_no_v2 hv2)
    refine ⟨h.disjoint.note_native (fun hm => absurd hm hmoved), ?_⟩
    intro turn hopen
    rw [turn_of_no_v2 hv2] at hopen
    cases hopen
  have hturn := turn_of_v2 hv2
  rcases native_cases outside hv2 line with
    ⟨-, hsame⟩ | ⟨r', money, hstep, hv2', hledger⟩
  · rw [hsame]
    have hmoved : TurnLedger.moved w.acc w.acc ≠ true := TurnLedger.not_moved rfl
    refine ⟨h.disjoint.note_native (fun hm => absurd hm hmoved), ?_⟩
    simpa [TurnLedger.note_native, hmoved] using h.settled
  have hturn' := turn_of_v2 hv2'
  -- An unpublished turn has no UI usage for its binding.
  have hnot : ∀ turn, r.turn = some turn → turn.ui_published = false →
      w.turns.bound ∉ w.turns.ui := by
    intro turn hopen hfalse hmem
    have htrue := (h.settled turn (hturn.trans hopen)).ui hmem
    rw [hfalse] at htrue
    cases htrue
  cases hstep with
  | ignored _ _ hframe =>
    have hmoved : TurnLedger.moved w.acc (w.acc.native outside line) ≠ true := by
      rcases hledger with ⟨-, hsame⟩ | ⟨_, _, _, _, _, _, hsome, -⟩
      · apply TurnLedger.not_moved
        rw [hsame]
      · cases hsome
    refine ⟨h.disjoint.note_native (fun hm => absurd hm hmoved), ?_⟩
    intro turn hopen
    have hsettled := h.settled turn (by rw [hturn, ← hframe.turn, ← hturn', hopen])
    simpa [TurnLedger.note_native, hmoved] using hsettled
  | counted n turn _ _ _ hopen _ hfalse hcounts hframe =>
    refine ⟨h.disjoint.note_native (fun _ => hnot turn hopen hfalse), ?_⟩
    intro turn' hopen'
    have hsame : turn' = turn := by
      rw [hturn', hframe.turn, hopen] at hopen'
      exact (Option.some.inj hopen').symm
    subst hsame
    have hsettled := h.settled turn' (hturn.trans hopen)
    refine ⟨hsettled.exclusive, fun hm => ?_, fun _ => hcounts⟩
    rw [TurnLedger.note_native_bound, TurnLedger.note_native_ui] at hm
    exact hsettled.ui hm
  | first n turn r₀ _ _ _ hopen _ hfalse _ h₀ hframe =>
    refine ⟨h.disjoint.note_native (fun _ => hnot turn hopen hfalse), ?_⟩
    intro turn' hopen'
    have hsame : turn' = { turn with native := true, staged_events := 0, pending := .empty } := by
      rw [hturn', hframe.turn] at hopen'
      exact (Option.some.inj hopen').symm
    subst hsame
    refine ⟨⟨fun _ => hfalse, fun _ => rfl⟩, fun hm => ?_, fun _ => rfl⟩
    rw [TurnLedger.note_native_bound, TurnLedger.note_native_ui] at hm
    exact absurd hm (hnot turn hopen hfalse)

theorem oneSource_count_ui (h : w.OneSource) (line : Line R) :
    (w.count_ui outside line).OneSource := by
  unfold count_ui
  rcases hv2 : w.acc.v2 with _ | r
  · have hmoved := TurnLedger.not_moved_of_no_turn (w.acc.count_ui outside line)
      (turn_of_no_v2 hv2)
    refine ⟨h.disjoint.note_ui (fun hm => absurd hm hmoved), ?_⟩
    intro turn hopen
    rw [turn_of_no_v2 (count_ui_of_no_v2 outside hv2 line)] at hopen
    cases hopen
  have hturn := turn_of_v2 hv2
  rcases count_ui_cases outside hv2 line with
    ⟨-, hsame⟩ | ⟨call, bound, r', -, hv2', hstep, -⟩
  · rw [hsame]
    have hmoved : TurnLedger.moved w.acc w.acc ≠ true := TurnLedger.not_moved rfl
    refine ⟨h.disjoint.note_ui (fun hm => absurd hm hmoved), ?_⟩
    simpa [TurnLedger.note_ui, hmoved] using h.settled
  have hturn' := turn_of_v2 hv2'
  -- No money moved, and the open turn kept its flags.
  have hkeep : (w.acc.count_ui outside line).toLedger.money = w.acc.toLedger.money →
      (∀ turn', r'.turn = some turn' → ∃ turn, r.turn = some turn ∧ turn'.Exclusive ∧
        turn'.native = turn.native ∧ turn'.ui_published = turn.ui_published) →
      OneSource { acc := w.acc.count_ui outside line
                  turns := w.turns.note_ui w.acc (w.acc.count_ui outside line) } := by
    intro hmoney hflags
    have hmoved := TurnLedger.not_moved hmoney
    refine ⟨h.disjoint.note_ui (fun hm => absurd hm hmoved), ?_⟩
    intro turn' hopen'
    obtain ⟨turn, hopen, hex, hnative, hui⟩ := hflags turn' (hturn'.symm.trans hopen')
    have hs := h.settled turn (hturn.trans hopen)
    have hsame : w.turns.note_ui w.acc (w.acc.count_ui outside line) = w.turns := if_neg hmoved
    rw [hsame]
    exact ⟨hex, fun hm => hui.trans (hs.ui hm), fun hm => hnative.trans (hs.native hm)⟩
  have hopened : ∀ turn, r.turn = some turn → turn.Exclusive :=
    fun turn hopen => (h.settled turn (hturn.trans hopen)).exclusive
  have hsameTurn : ∀ {r₁ : OccurrenceReducer}, r₁.turn = r.turn → ∀ turn', r₁.turn = some turn' →
      ∃ turn, r.turn = some turn ∧ turn'.Exclusive ∧ turn'.native = turn.native ∧
        turn'.ui_published = turn.ui_published := by
    intro r₁ heq turn' hopen'
    rw [heq] at hopen'
    exact ⟨turn', hopen', hopened turn' hopen', rfl, rfl⟩
  -- UI money is published only for a turn with no native, and marks it.
  have hpublish : ∀ turn turn', r.turn = some turn → turn.native = false →
      r'.turn = some turn' → turn'.Exclusive → turn'.native = false → turn'.ui_published = true →
      OneSource { acc := w.acc.count_ui outside line
                  turns := w.turns.note_ui w.acc (w.acc.count_ui outside line) } := by
    intro turn turn' hopen hfalse hopen' hex hnative hui
    have hnot : w.turns.bound ∉ w.turns.native := by
      intro hmem
      have htrue := (h.settled turn (hturn.trans hopen)).native hmem
      rw [hfalse] at htrue
      cases htrue
    refine ⟨h.disjoint.note_ui (fun _ => hnot), ?_⟩
    intro turn'' hopen''
    cases hopen'.symm.trans (hturn'.symm.trans hopen'')
    refine ⟨hex, fun _ => hui, fun hm => ?_⟩
    rw [TurnLedger.note_ui_bound, TurnLedger.note_ui_native] at hm
    exact absurd hm hnot
  generalize hl : (w.acc.count_ui outside line).toLedger = l' at hstep hkeep
  generalize w.acc.ui_delta call = delta at hstep
  cases hstep with
  | skipped => exact hkeep rfl (hsameTurn rfl)
  | refused _ _ hadmission => exact hkeep rfl (hsameTurn hadmission.turn_eq)
  | in_native _ _ _ hadmission => exact hkeep rfl (hsameTurn hadmission.turn_eq)
  | dropped _ _ _ hadmission => exact hkeep rfl (hsameTurn hadmission.turn_eq)
  | unbound _ _ hadmission =>
    have hnone : r.turn = none := by
      cases hadmission
      assumption
    have hmoved := TurnLedger.not_moved_of_no_turn (w.acc.count_ui outside line)
      (hturn.trans hnone)
    refine ⟨h.disjoint.note_ui (fun hm => absurd hm hmoved), ?_⟩
    intro turn hopen
    rw [hturn', hadmission.turn_eq, hnone] at hopen
    cases hopen
  | direct _ _ turn hadmission hopen hnative hui =>
    exact hpublish turn turn hopen hnative (hadmission.turn_eq.trans hopen) (hopened turn hopen)
      hnative hui
  | staged _ _ turn staged _ hadmission hopen hnative hui _ hstage =>
    apply hkeep rfl
    intro turn' hopen'
    cases hopen'
    obtain ⟨h1, h2⟩ := stage_flags hstage
    refine ⟨turn, hopen, ⟨fun hn => ?_, fun hn => ?_⟩, h1, h2⟩
    · rw [h1, hnative] at hn
      cases hn
    · rw [h1, h2, hnative, hui] at hn
      rcases hn with hn | hn <;> cases hn
  | overflow _ _ turn _ hadmission hopen hnative _ _ _ =>
    refine hpublish turn _ hopen hnative rfl ⟨fun hn => ?_, fun _ => rfl⟩ hnative rfl
    rw [hnative] at hn
    cases hn

theorem oneSource_apply (h : w.OneSource) (line : Line R) :
    (w.apply_codex_line outside line).OneSource := by
  apply oneSource_count_ui
  apply oneSource_native
  apply oneSource_lifecycle
  exact ⟨h.disjoint, h.settled⟩

/-- A session of any version from its first line. -/
theorem oneSource_run (context : Context R) (counting : Option CodexCounting)
    (hnew : ∀ c, counting = some c → c.reducer = none) (lines : List (Line R)) :
    (run (apply_codex_line outside) { acc := .fresh context counting } lines).OneSource := by
  apply Run.invariant OneSource (fun w line h => oneSource_apply outside h line)
  refine ⟨⟨?_, ?_, ?_⟩, fun turn hopen => ?_⟩
  · simp
  · simp
  · simp
  · obtain ⟨r, hv2, -⟩ := bind_eq_some_iff.mp hopen
    obtain ⟨c, hc, -, hr⟩ := v2_eq_some.mp hv2
    rw [hnew c hc] at hr
    cases hr

/-- No binding of a run has both UI usage and native usage published. At any
next line, a native of the open turn discards its staged rows unless the UI
usage of the turn is published, and then the native adds nothing; the UI
lines and the closure of a native turn publish nothing; and where the line
closes a turn, no native of that turn adds anything at any line after it. -/
theorem a_turn_has_one_money_source (context : Context R) (evidence : AckEvidence)
    (cutover : Option Int64) (lines : List (Line R)) (line : Line R) :
    let w := run (apply_codex_line outside)
      { acc := .fresh context (some (.new evidence cutover)) } lines
    let noted := w.acc.noted line
    let after_lifecycle := noted.lifecycle outside line
    let after_native := after_lifecycle.native outside line
    let after_ui := after_native.count_ui outside line
    w.acc = run (SnapshotAccumulator.apply_codex_line outside)
      (.fresh context (some (.new evidence cutover))) lines ∧
    (∀ n, ¬ (n ∈ w.turns.ui ∧ n ∈ w.turns.native)) ∧
    (∀ turn n, after_lifecycle.turn = some turn → turn.ui_published = false →
      string_eq_at line.value ["type"] "token_usage_record" = true →
      native_record line.value after_lifecycle.source_session_id = some n →
      n.turn_id = some turn.id →
      ∃ turn', after_native.turn = some turn' ∧ turn'.id = turn.id ∧ turn'.native = true ∧
        turn'.pending = .empty) ∧
    (∀ turn, after_lifecycle.turn = some turn → turn.ui_published = true →
      after_native.toLedger.money = after_lifecycle.toLedger.money) ∧
    (∀ turn, after_native.turn = some turn → turn.native = true →
      after_ui.toLedger.money = after_native.toLedger.money ∧ after_ui.turn = some turn) ∧
    (∀ turn, noted.turn = some turn → turn.native = true →
      after_lifecycle.toLedger.money = noted.toLedger.money) ∧
    (∀ r id, 0 < id.utf8ByteSize → id.utf8ByteSize ≤ MAX_TURN_ID_BYTES →
      noted.Starts outside line r → r.Closes line.value id →
      ∀ (after : List (Line R)) (later : Line R) (n : NativeRecord),
        let closed := run (SnapshotAccumulator.apply_codex_line outside) w.acc (line :: after)
        let before := (closed.noted later).lifecycle outside later
        native_record later.value before.source_session_id = some n → n.turn_id = some id →
          (before.native outside later).toLedger.money = before.toLedger.money) := by
  intro w noted after_lifecycle after_native after_ui
  have h : w.OneSource := oneSource_run outside context (some (.new evidence cutover))
    (fun c hc => by cases hc; rfl) lines
  have hnoted : OneSource { w with acc := noted } := ⟨h.disjoint, h.settled⟩
  have hlife := oneSource_lifecycle outside hnoted line
  refine ⟨run_acc outside _ lines, h.disjoint.one_source, ?_, ?_, ?_, ?_, ?_⟩
  · intro turn n hopen hunpublished htype hn hid
    exact SnapshotAccumulator.native_of_open_turn outside hopen hunpublished
      (hlife.settled turn hopen).exclusive htype hn hid
  · intro turn hopen hpublished
    exact congrArg Ledger.money
      (SnapshotAccumulator.native_of_published_turn outside hopen hpublished line)
  · intro turn hopen hnative
    obtain ⟨h1, h2⟩ := SnapshotAccumulator.count_ui_of_native_turn outside hopen hnative line
    exact ⟨congrArg Ledger.money h1, h2⟩
  · intro turn hopen hnative
    exact congrArg Ledger.money
      (SnapshotAccumulator.lifecycle_of_native_turn outside hopen hnative line)
  · intro r id hpos hle hstarts hcloses after later n closed before hn hid
    have hclosed := SnapshotAccumulator.finished_run outside hpos hle hstarts hcloses after
    have hbefore := SnapshotAccumulator.finished_lifecycle outside
      (SnapshotAccumulator.finished_noted outside hclosed later) later
    exact congrArg Ledger.money
      (SnapshotAccumulator.native_toLedger_of_finished outside hbefore hn hid)

end Watched

end ottto_service.accumulator
