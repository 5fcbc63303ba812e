-- The law of deferred publication: a turn without a native, whose UI lines
-- are staged and published at its closure, leaves the ledger that it would
-- have left if each admitted line had been published at once.
import Ottto.Entries
import Ottto.UiFlow

open Words

namespace ottto_service.codex_usage_occurrence

open usage accumulator

/-- The staged rows hold canonical times in order. -/
def BoundTurn.Timed (time : Rfc3339) (turn : BoundTurn) : Prop :=
  ∀ e ∈ turn.pending.entries, (stagedEntry e).Timed time

theorem BoundTurn.timed_of_empty {time : Rfc3339} {turn : BoundTurn} (h : turn.pending = .empty) :
    turn.Timed time := by
  intro e he
  rw [h] at he
  cases he

end ottto_service.codex_usage_occurrence

namespace ottto_service.accumulator

open serde_json json_fields usage codex_counting_version codex_usage_occurrence List Option Watched
open SortedMap
open UsageTotals
open Ledger
open BoundTurn
open OccurrenceReducer
open SnapshotAccumulator

/-! ## The entry of a placed usage -/

/-- A placed usage has a canonical time, and the effort of its key. -/
structure ClaudeRowPlacement.Placed (time : Rfc3339) (p : ClaudeRowPlacement)
    (effort : Option String) : Prop where
  canonical : time.Canonical p.normalized_timestamp
  effort : p.row_key.reasoning_effort = effort

variable {effort : Option String} {p : ClaudeRowPlacement}

theorem placement_placed {R : Type} {outside : Outside R} {context : Context R} {model : String}
    {selector : SelectorCapture} {timestamp : Option String}
    (h : context.placement outside model selector timestamp effort = some p) :
    p.Placed outside.time effort := by
  unfold Context.placement claude_row_placement at h
  simp only [bind_eq_bind, bind_eq_some_iff, Option.some.injEq] at h
  obtain ⟨at_time, -, ⟨bucket, normalized⟩, hbucket, rfl⟩ := h
  unfold activity_bucket_from_timestamp at hbucket
  simp only [bind_eq_bind, bind_eq_some_iff, Option.some.injEq,
    Prod.mk.injEq] at hbucket
  obtain ⟨parsed, -, _, -, _, hformat, -, rfl⟩ := hbucket
  exact ⟨⟨parsed, hformat⟩, rfl⟩

theorem placedEntry_timed {time : Rfc3339}
    (h : p.Placed time effort) (usage : UsageTotals) : (placedEntry p usage effort).Timed time :=
  ⟨h.canonical, h.canonical, le_refl _⟩

/-- Staging a placed usage is publishing it after the rows that are staged. -/
theorem stage_putAll {time : Rfc3339} {l : Ledger} (hl : l.Canonical time)
    {turn staged : BoundTurn} (hturn : turn.Timed time)
    (hp : p.Placed time effort) {usage : UsageTotals}
    (h : turn.stage time p.bucket p.normalized_timestamp p.row_key p.reduced_context
      p.reduced_sources usage = some staged) :
    staged.Timed time ∧ l.putAll time staged.pending.entries =
      (l.putAll time turn.pending.entries).put time (placedEntry p usage effort) := by
  obtain ⟨row, rfl, hrow⟩ := stage_cases h
  have he := placedEntry_timed hp usage
  -- The row is the entry of the usage, or the row of its key joined with it.
  have hjoin : (turn.pending.get? (toLex (p.bucket, p.row_key))).elim
      (stagedEntry (toLex (p.bucket, p.row_key), row) = placedEntry p usage effort)
      (fun old => stagedEntry (toLex (p.bucket, p.row_key), row) =
          (stagedEntry (toLex (p.bucket, p.row_key), old)).join time
            (placedEntry p usage effort)) := by
    rcases hrow with ⟨hget, rfl⟩ | ⟨old, hget, -, rfl⟩
    · simp only [hget, Option.elim]
      unfold stagedEntry placedEntry
      simp only [ofLex_toLex, hp.effort]
    · simp only [hget, Option.elim]
      rfl
  refine ⟨fun e hmem => ?_, ?_⟩
  · rcases mem_insertEntry hmem with rfl | hmem
    · rcases hget : turn.pending.get? (toLex (p.bucket, p.row_key)) with _ | old
      · simp only [hget, Option.elim] at hjoin
        rw [hjoin]
        exact he
      · simp only [hget, Option.elim] at hjoin
        rw [hjoin]
        exact Entry.join_timed (hturn _ (mem_entries.mpr hget)) he
    · exact hturn e hmem
  · apply putAll_insert hl turn.pending.sorted hturn he rfl rfl
    change SortedMap.lookupEntry _ turn.pending.entries |>.elim _ _ at hjoin
    cases hget : SortedMap.lookupEntry (toLex (p.bucket, p.row_key)) turn.pending.entries with
    | none => rwa [hget] at hjoin
    | some old => rwa [hget] at hjoin

namespace Ledger

/-- The ledger of a run: reconciled, with canonical times. -/
structure Sound (time : Rfc3339) (l : Ledger) : Prop where
  reconciled : l.Reconciled
  canonical : l.Canonical time

variable {time : Rfc3339}

theorem sound_empty : ({} : Ledger).Sound time := by
  refine ⟨reconciled_empty, fun b bucket hget => ?_⟩
  cases hget

variable {l : Ledger}

theorem sound_note_dropped (h : l.Sound time) (n : UInt64) :
    (l.note_dropped_usage n).Sound time := ⟨h.reconciled, h.canonical⟩

theorem sound_put (h : l.Sound time) {e : Entry} (he : e.Timed time)
    (hfits : l.accepted_usage_totals.Fits e.row.usage) : (l.put time e).Sound time :=
  ⟨put_reconciled _ h.reconciled hfits, put_canonical h.canonical he⟩

theorem sound_add_placed (h : l.Sound time) {placed : PlacedClaudeUsage}
    {effort : Option String} (hp : ∀ p, placed.placement = some p → p.Placed time effort)
    (usage : UsageTotals) : (l.add_placed_usage time placed usage effort).Sound time := by
  rcases hplace : placed.placement with _ | p
  · unfold add_placed_usage
    simp only [hplace]
    exact sound_note_dropped h 1
  · by_cases hfits : l.accepted_usage_totals.Fits usage
    · rw [add_placed_eq_put h.reconciled hplace hfits]
      exact sound_put h (placedEntry_timed (hp p hplace) usage) hfits
    · unfold add_placed_usage
      simp only [hplace, add_eq_none.mpr hfits]
      exact sound_note_dropped h 1

theorem sound_publish_row (h : l.Sound time)
    {entry : (String ×ₗ RowKey) × PendingRow} (he : (stagedEntry entry).Timed time) :
    (publish_row time l entry).Sound time := by
  by_cases hfits : l.accepted_usage_totals.Fits entry.2.usage
  · rw [publish_row_eq_put h.reconciled hfits]
    exact sound_put h he hfits
  · unfold publish_row
    simp only [add_eq_none.mpr hfits]
    exact sound_note_dropped h _

theorem sound_publish_pending (h : l.Sound time) {turn : BoundTurn}
    (hturn : turn.Timed time) : (l.publish_codex_pending time turn.pending).Sound time := by
  unfold publish_codex_pending
  unfold BoundTurn.Timed at hturn
  generalize turn.pending.entries = entries at hturn
  induction entries generalizing l with
  | nil => exact h
  | cons entry rest ih =>
    apply ih (sound_publish_row h (hturn entry mem_cons_self))
    intro e he
    exact hturn e (mem_cons_of_mem _ he)

theorem sound_published {R : Type} {outside : Outside R} (context : Context R)
    (h : l.Sound outside.time) (model : Option String) (usage : UsageTotals)
    (selector : SelectorCapture) (timestamp effort : Option String) :
    (context.published outside l model usage selector timestamp effort).Sound outside.time := by
  unfold Context.published
  split
  · exact h
  · exact sound_add_placed h (fun p hplace => placement_placed hplace) usage

/-- A dropped usage does not touch the rows. -/
theorem putAll_note_dropped (l : Ledger) (n : UInt64)
    (entries : List ((String ×ₗ RowKey) × PendingRow)) :
    (l.note_dropped_usage n).putAll time entries =
      (l.putAll time entries).note_dropped_usage n := by
  induction entries generalizing l with
  | nil => rfl
  | cons entry rest ih => exact ih (l.put time (stagedEntry entry))

end Ledger

/-! ## Every reachable state -/

namespace SnapshotAccumulator

variable {R : Type} (outside : Outside R)

/-- The ledger is sound, and so are the staged rows of the open turn. -/
structure Sound (s : SnapshotAccumulator R) : Prop where
  ledger : s.toLedger.Sound outside.time
  turn : ∀ turn, s.turn = some turn → turn.Timed outside.time

theorem sound_fresh (context : Context R) (evidence : AckEvidence) (cutover : Option Int64) :
    (fresh context (some (.new evidence cutover))).Sound outside :=
  ⟨sound_empty, fun turn hturn => by cases hturn⟩

variable {s : SnapshotAccumulator R}

theorem sound_noted (h : s.Sound outside) (line : Line R) :
    (s.noted line).Sound outside := ⟨h.ledger, h.turn⟩

/-- The rows that a closure publishes are those of the turn. -/
theorem sound_publish_rows (h : s.Sound outside) {r : OccurrenceReducer} (hturn : s.turn = r.turn) :
    (s.toLedger.publish outside.time (r.turn.bind staged_rows)).Sound outside.time := by
  rcases hr : r.turn with _ | turn
  · exact h.ledger
  · simp only [bind_some, staged_rows]
    split
    · exact sound_publish_pending h.ledger (h.turn turn (hturn.trans hr))
    · exact h.ledger

theorem sound_lifecycle (h : s.Sound outside) (line : Line R) :
    (s.lifecycle outside line).Sound outside := by
  rcases s.lifecycle_cases outside line with ⟨r, hstarts⟩ | ⟨-, hafter, hledger⟩
  · obtain ⟨r', pending, hstep, hv2, hledger⟩ := lifecycle_step outside hstarts
    have hturn := turn_of_starts outside hstarts
    have hturn' := turn_of_v2 hv2
    have hrows := sound_publish_rows outside h hturn
    refine ⟨?_, ?_⟩
    · rw [hledger]
      cases hstep with
      | quiet => exact h.ledger
      | closed _ _ _ hp => exact hp ▸ hrows
      | bound _ _ _ _ hp => exact hp ▸ hrows
    · intro turn hopen
      rw [hturn'] at hopen
      cases hstep with
      | quiet hsame => exact h.turn turn (by rw [hturn, ← hsame, hopen])
      | closed _ hnone =>
        rw [hnone] at hopen
        cases hopen
      | bound _ id hbound =>
        rw [hbound] at hopen
        cases hopen
        exact timed_of_empty rfl
  · refine ⟨hledger ▸ h.ledger, fun turn hopen => ?_⟩
    rw [turn_of_no_v2 hafter] at hopen
    cases hopen

theorem sound_native (h : s.Sound outside) (line : Line R) :
    (s.native outside line).Sound outside := by
  rcases hv2 : s.v2 with _ | r
  · rw [native_of_no_v2 outside hv2]
    exact h
  rcases native_cases outside hv2 line with ⟨-, hsame⟩ | ⟨r', money, hstep, hv2', hledger⟩
  · rw [hsame]
    exact h
  refine ⟨?_, fun turn hopen => ?_⟩
  · rcases hledger with ⟨-, hsame⟩ | ⟨_, _, _, _, _, _, -, hpublished⟩
    · rw [hsame]
      exact h.ledger
    · rw [hpublished]
      exact sound_published _ h.ledger _ _ _ _ _
  · rw [turn_of_v2 hv2'] at hopen
    cases hstep with
    | ignored _ _ hframe =>
      rw [hframe.turn] at hopen
      exact h.turn turn ((turn_of_v2 hv2).trans hopen)
    | counted _ _ _ _ _ _ _ _ _ hframe =>
      rw [hframe.turn] at hopen
      exact h.turn turn ((turn_of_v2 hv2).trans hopen)
    | first _ _ _ _ _ _ _ _ _ _ _ hframe =>
      rw [hframe.turn] at hopen
      cases hopen
      exact timed_of_empty rfl

theorem sound_count_ui (h : s.Sound outside) (line : Line R) :
    (s.count_ui outside line).Sound outside := by
  rcases hv2 : s.v2 with _ | r
  · refine ⟨?_, fun turn hopen => ?_⟩
    · rcases (count_ui_no_v2_cases outside hv2 line).2 with
        hsame | ⟨_, _, _, _, _, _, hpublished⟩
      · rw [hsame]
        exact h.ledger
      · rw [hpublished]
        exact sound_published _ h.ledger _ _ _ _ _
    · rw [turn_of_no_v2 (count_ui_of_no_v2 outside hv2 line)] at hopen
      cases hopen
  have hturn := turn_of_v2 hv2
  rcases count_ui_cases outside hv2 line with ⟨-, hsame⟩ | ⟨call, bound, r', -, hv2', hstep, -⟩
  · rw [hsame]
    exact h
  have hpublish : ∀ {l : Ledger} (delta : UsageTotals), l.Sound outside.time →
      (s.toContext.publish_ui outside l call line.timestamp delta).Sound outside.time :=
    fun delta hl => sound_published _ hl _ _ _ _ _
  have hkeep : ∀ {r₁ : OccurrenceReducer}, r₁.turn = r.turn → ∀ turn, r₁.turn = some turn →
      turn.Timed outside.time :=
    fun hsame turn hopen => h.turn turn (by rw [hturn, ← hsame, hopen])
  have hsound : (s.count_ui outside line).toLedger.Sound outside.time ∧
      ∀ turn, r'.turn = some turn → turn.Timed outside.time := by
    generalize (s.count_ui outside line).toLedger = l' at hstep
    generalize s.ui_delta call = delta at hstep
    cases hstep with
    | skipped => exact ⟨h.ledger, hkeep rfl⟩
    | refused _ _ hadmission => exact ⟨h.ledger, hkeep hadmission.turn_eq⟩
    | unbound delta _ hadmission => exact ⟨hpublish delta h.ledger, hkeep hadmission.turn_eq⟩
    | in_native _ _ _ hadmission => exact ⟨h.ledger, hkeep hadmission.turn_eq⟩
    | direct delta _ _ hadmission => exact ⟨hpublish delta h.ledger, hkeep hadmission.turn_eq⟩
    | staged _ _ turn staged p _ hopen _ _ hplace hstage =>
      refine ⟨h.ledger, fun turn' hopen' => ?_⟩
      cases hopen'
      exact (stage_putAll h.ledger.canonical (h.turn turn (hturn.trans hopen))
        (placement_placed hplace) hstage).1
    | dropped _ _ _ hadmission =>
      exact ⟨sound_note_dropped h.ledger 1, hkeep hadmission.turn_eq⟩
    | overflow delta _ turn _ _ hopen =>
      refine ⟨hpublish delta (sound_publish_pending h.ledger
        (h.turn turn (hturn.trans hopen))), fun turn' hopen' => ?_⟩
      cases hopen'
      exact timed_of_empty rfl
  refine ⟨hsound.1, fun turn hopen => hsound.2 turn ?_⟩
  rw [← turn_of_v2 hv2', hopen]

theorem sound_apply (h : s.Sound outside) (line : Line R) :
    (s.apply_codex_line outside line).Sound outside := by
  apply sound_count_ui
  apply sound_native
  apply sound_lifecycle
  exact sound_noted outside h line

theorem sound_run (context : Context R) (evidence : AckEvidence) (cutover : Option Int64)
    (lines : List (Line R)) :
    (run (apply_codex_line outside) (fresh context (some (.new evidence cutover)))
      lines).Sound outside :=
  Run.invariant (Sound outside) (fun _ line h => sound_apply outside h line)
    (sound_fresh outside context evidence cutover) lines

end SnapshotAccumulator

/-! ## Publication at once -/

namespace SnapshotAccumulator

variable {R : Type} (outside : Outside R)

/-- The ledger after the usage that the decision of a line admits is published
at once. -/
def publish_at_once (s : SnapshotAccumulator R) (l : Ledger) (line : Line R) : Ledger :=
  match line.ui s.toContext with
  | none => l
  | some call =>
    match s.decide_codex_usage call.model call.usage call.last_usage call.usage_event_identity
        call.implicit_request_count with
    | (_, none) => l
    | (s, some (resolved_model, delta, _)) =>
      ({ s with toLedger := l }.add_usage_with_selector outside (some resolved_model) delta
        call.selector line.timestamp call.effort).toLedger

/-- A total has no room for the usage that the decision of a line admits. -/
def overflows (s : SnapshotAccumulator R) (l : Ledger) (line : Line R) : Bool :=
  match line.ui s.toContext with
  | none => false
  | some call =>
    match s.decided call with
    | none => false
    | some (resolved_model, delta, _) =>
      (s.toContext.placement outside resolved_model call.selector line.timestamp
        call.effort).isSome && (l.accepted_usage_totals.add delta).isNone

theorem publish_at_once_eq {s : SnapshotAccumulator R} {r : OccurrenceReducer}
    (h : s.v2 = some r) (l : Ledger) {line : Line R} {call : UiCall}
    (hui : line.ui s.toContext = some call) :
    s.publish_at_once outside l line = match s.decided call with
      | none => l
      | some (resolved_model, delta, _) => s.toContext.published outside l (some resolved_model)
          delta call.selector line.timestamp call.effort := by
  unfold publish_at_once decided
  obtain ⟨s₁, -, hcontext, ⟨-, -, hdecide⟩ | ⟨delta, r₁, bound, -, -, -, hdecide⟩⟩ :=
    decide_codex_usage_cases h call
  · simp only [hui, hdecide]
  · simp only [hui, hdecide]
    rcases bound with _ | bound
    · rfl
    · simp only [map_some, add_usage_toLedger, hcontext, published_latest_model]

/-- A published delta that fits is an entry; one with no hour is dropped. -/
theorem publish_ui_of_placement {context : Context R} {l : Ledger} {call : UiCall}
    {timestamp : Option String} {delta : UsageTotals} (hdelta : delta.is_zero = false)
    (h : l.Reconciled) :
    (∀ p, context.ui_placement outside call timestamp = some p →
        l.accepted_usage_totals.Fits delta →
        context.publish_ui outside l call timestamp delta =
          l.put outside.time (placedEntry p delta call.effort)) ∧
      (context.ui_placement outside call timestamp = none →
        context.publish_ui outside l call timestamp delta = l.note_dropped_usage 1) := by
  unfold Context.ui_placement Context.publish_ui Context.published
  simp only [hdelta, Bool.false_eq_true, if_false, some_or, getD_some]
  refine ⟨fun p hplace hfits => ?_, fun hplace => ?_⟩
  · exact add_placed_eq_put h hplace hfits
  · unfold add_placed_usage
    simp only [hplace]

end SnapshotAccumulator

/-- A session, and the ledger that publication at once would leave since the
turn was bound. -/
structure Shadowed (R : Type) where
  acc : SnapshotAccumulator R
  immediate : Ledger
  overflowed : Bool := false

namespace Shadowed

variable {R : Type} (outside : Outside R)

/-- A line after its lifecycle. -/
def finish_line (w : Shadowed R) (line : Line R) : Shadowed R :=
  let acc := w.acc.native outside line
  { acc := acc.count_ui outside line
    immediate := acc.publish_at_once outside w.immediate line
    overflowed := w.overflowed || acc.overflows outside w.immediate line }

def apply_codex_line (w : Shadowed R) (line : Line R) : Shadowed R :=
  { w with acc := (w.acc.noted line).lifecycle outside line }.finish_line outside line

theorem run_acc (w : Shadowed R) (lines : List (Line R)) :
    (run (apply_codex_line outside) w lines).acc =
      run (SnapshotAccumulator.apply_codex_line outside) w.acc lines := by
  induction lines generalizing w with
  | nil => rfl
  | cons line rest ih => exact ih (w.apply_codex_line outside line)

/-- The line is no native of the turn. -/
def NoNative (id : String) (line : Line R) : Prop :=
  string_eq_at line.value ["type"] "token_usage_record" = true →
    ∀ session n, native_record line.value session = some n → n.turn_id ≠ some id

/-- The staged rows, put on the ledger, give the ledger of publication at
once, and all of them fit. -/
structure Follows (id : String) (w : Shadowed R) (turn : BoundTurn) : Prop where
  open_turn : w.acc.turn = some turn
  id_eq : turn.id = id
  no_native : turn.native = false
  nothing_staged : turn.ui_published = true → turn.pending = .empty
  sound : w.acc.Sound outside
  immediate_sound : w.immediate.Sound outside.time
  ledger : w.immediate = w.acc.toLedger.putAll outside.time turn.pending.entries
  room : ∀ c, w.immediate.accepted_usage_totals.count c =
    w.acc.toLedger.accepted_usage_totals.count c +
      turn.pending.sumValues (fun row => row.usage.count c)

variable {id : String} {s : SnapshotAccumulator R}

theorem follows_opened (h : s.Sound outside) (hturn : s.turn = some (BoundTurn.opened id)) :
    Follows outside id { acc := s, immediate := s.toLedger } (BoundTurn.opened id) where
  open_turn := hturn
  id_eq := rfl
  no_native := rfl
  nothing_staged := fun _ => rfl
  sound := h
  immediate_sound := h.ledger
  ledger := rfl
  room := fun _ => rfl

variable {w : Shadowed R} {turn : BoundTurn}

/-- A phase that moves neither the turn nor the ledger. -/
theorem Follows.of_frame (h : Follows outside id w turn) (hsound : s.Sound outside)
    (hturn : s.turn = w.acc.turn) (hledger : s.toLedger = w.acc.toLedger) :
    Follows outside id { w with acc := s } turn where
  open_turn := hturn.trans h.open_turn
  id_eq := h.id_eq
  no_native := h.no_native
  nothing_staged := h.nothing_staged
  sound := hsound
  immediate_sound := h.immediate_sound
  ledger := by
    simp only [hledger]
    exact h.ledger
  room := by
    simp only [hledger]
    exact h.room

variable {line : Line R}

theorem follows_lifecycle (h : Follows outside id w turn)
    (hquiet : is_turn_event line.value = false) :
    Follows outside id { w with acc := (w.acc.noted line).lifecycle outside line } turn := by
  obtain ⟨r, hv2, hr⟩ := bind_eq_some_iff.mp h.open_turn
  obtain ⟨r', pending, hstep, hv2', hledger⟩ :=
    lifecycle_step outside (s := w.acc.noted line) (.running r hv2)
  have hsound := sound_lifecycle outside
    (sound_noted outside h.sound line) line
  cases hstep with
  | quiet hturn =>
    refine h.of_frame outside hsound ?_ hledger
    rw [turn_of_v2 hv2', hturn, turn_of_v2 hv2]
  | closed _ _ _ _ hevent =>
    rw [hquiet] at hevent
    cases hevent
  | bound _ _ _ _ _ hstart =>
    rw [is_turn_event_of_starts hstart] at hquiet
    cases hquiet

theorem follows_native (h : Follows outside id w turn) (hnone : NoNative id line) :
    Follows outside id { w with acc := w.acc.native outside line } turn := by
  obtain ⟨r, hv2, hr⟩ := bind_eq_some_iff.mp h.open_turn
  have hsound := sound_native outside h.sound line
  by_cases htype : string_eq_at line.value ["type"] "token_usage_record" = true
  swap
  · have hsame : w.acc.native outside line = w.acc := by
      unfold SnapshotAccumulator.native
      simp only [htype, Bool.false_eq_true, if_false, ite_self]
    exact h.of_frame outside hsound (by rw [hsame]) (by rw [hsame])
  -- A native that the turn takes names the turn.
  have hother : ∀ n turn', native_record line.value w.acc.source_session_id = some n →
      r.turn = some turn' → n.turn_id ≠ some turn'.id := by
    intro n turn' hn hturn' hid
    cases hr.symm.trans hturn'
    rw [h.id_eq] at hid
    exact hnone htype _ n hn hid
  rcases native_cases outside hv2 line with
    ⟨-, hsame⟩ | ⟨r', money, hstep, hv2', hledger⟩
  · exact h.of_frame outside hsound (by rw [hsame]) (by rw [hsame])
  cases hstep with
  | ignored _ _ hframe =>
    refine h.of_frame outside hsound ?_ ?_
    · rw [turn_of_v2 hv2', hframe.turn, turn_of_v2 hv2]
    · rcases hledger with ⟨-, hsame⟩ | ⟨_, _, _, _, _, _, hsome, -⟩
      · exact hsame
      · cases hsome
  | counted n turn' _ _ hn hturn' hid => exact absurd hid (hother n turn' hn hturn')
  | first n turn' _ _ _ hn hturn' hid => exact absurd hid (hother n turn' hn hturn')

/-- The reference publishes what the decision admits, and it fits. -/
theorem publish_at_once_admitted {r : OccurrenceReducer}
    (h : s.v2 = some r) {l : Ledger} {call : UiCall}
    (hui : line.ui s.toContext = some call) {delta : UsageTotals} {bound : Bool}
    (hdecided : s.decided call = some (call.resolved_model s.toContext, delta, bound))
    (hroom : s.overflows outside l line = false) :
    s.publish_at_once outside l line = s.toContext.publish_ui outside l call line.timestamp delta ∧
      ∀ p, s.toContext.ui_placement outside call line.timestamp = some p →
        l.accepted_usage_totals.Fits delta := by
  refine ⟨?_, fun p hplace => ?_⟩
  · rw [publish_at_once_eq outside h l hui, hdecided]
    rfl
  · unfold Context.ui_placement at hplace
    unfold SnapshotAccumulator.overflows at hroom
    simp only [hui, hdecided, hplace, isSome_some, Bool.true_and] at hroom
    by_contra hnot
    rw [add_eq_none.mpr hnot] at hroom
    cases hroom

/-- The staged rows of the turn, published, give the reference. -/
theorem Follows.publish_rows (h : Follows outside id w turn) :
    w.acc.toLedger.publish_codex_pending outside.time turn.pending = w.immediate := by
  rw [h.ledger]
  refine (publish_eq_putAll turn.pending.entries h.sound.ledger.reconciled ?_).1
  intro c
  have hlt := (w.immediate.accepted_usage_totals.counter c).toNat_lt
  have hroom := h.room c
  unfold UsageTotals.count at hroom ⊢
  unfold SortedMap.sumValues at hroom
  omega

/-- A turn with nothing staged has the ledger of the reference. -/
theorem follows_of_published
    (hturn : w.acc.turn = some turn) (hid : turn.id = id) (hnative : turn.native = false)
    (hempty : turn.pending = .empty) (hsound : w.acc.Sound outside)
    (hledger : w.immediate = w.acc.toLedger) : Follows outside id w turn where
  open_turn := hturn
  id_eq := hid
  no_native := hnative
  nothing_staged := fun _ => hempty
  sound := hsound
  immediate_sound := hledger ▸ hsound.ledger
  ledger := by
    rw [hempty, hledger]
    rfl
  room := by
    intro c
    rw [hempty, hledger, sumValues_empty, Nat.add_zero]

theorem follows_count_ui (h : Follows outside id w turn) (line : Line R)
    (hroom : w.acc.overflows outside w.immediate line = false) :
    ∃ turn', Follows outside id
      { w with
        acc := w.acc.count_ui outside line
        immediate := w.acc.publish_at_once outside w.immediate line } turn' := by
  obtain ⟨r, hv2, hr⟩ := bind_eq_some_iff.mp h.open_turn
  have hsound := sound_count_ui outside h.sound line
  rcases count_ui_cases outside hv2 line with
    ⟨hui, hsame⟩ | ⟨call, bound, r', hui, hv2', hstep, hdecided⟩
  · have honce : w.acc.publish_at_once outside w.immediate line = w.immediate := by
      unfold publish_at_once
      rw [hui]
    rw [hsame, honce]
    exact ⟨turn, h⟩
  have hturn' := turn_of_v2 hv2'
  have hzero : ∀ u, w.acc.ui_delta call = some u → u.is_zero = false := fun _ hu =>
    ui_delta_not_zero hu
  have hskip : w.acc.decided call = none →
      w.acc.publish_at_once outside w.immediate line = w.immediate := by
    intro hnone
    rw [publish_at_once_eq outside hv2 w.immediate hui, hnone]
  have hadmitted := fun delta (hd : w.acc.decided call =
      some (call.resolved_model w.acc.toContext, delta, true)) =>
    publish_at_once_admitted outside hv2 hui hd hroom
  have hsame : ∀ turn', r.turn = some turn' → turn' = turn := by
    intro turn' hopen
    exact Option.some.inj (hopen.symm.trans hr)
  generalize hl' : (w.acc.count_ui outside line).toLedger = l' at hstep
  generalize w.acc.ui_delta call = delta at hstep hdecided hzero
  generalize honce : w.acc.publish_at_once outside w.immediate line = once at hskip hadmitted
  cases hstep with
  | skipped =>
    rw [hskip hdecided]
    exact ⟨turn, h.of_frame outside hsound (by rw [hturn', hr, h.open_turn]) hl'⟩
  | refused _ _ hadmission =>
    rw [hskip hdecided]
    exact ⟨turn, h.of_frame outside hsound (by rw [hturn', hadmission.turn_eq, hr, h.open_turn]) hl'⟩
  | unbound _ _ hadmission =>
    cases hadmission with
    | unbound _ hnone =>
      rw [hr] at hnone
      cases hnone
  | in_native _ _ turn' _ hopen hnative =>
    rw [hsame turn' hopen, h.no_native] at hnative
    cases hnative
  | direct delta r₁ turn' hadmission hopen _ hpublished =>
    cases hsame turn' hopen
    have hempty := h.nothing_staged hpublished
    have himmediate : w.immediate = w.acc.toLedger := by
      rw [h.ledger, hempty]
      rfl
    refine ⟨turn, follows_of_published outside ?_ h.id_eq h.no_native hempty hsound ?_⟩
    · rw [hturn', hadmission.turn_eq, hr]
    · simp only [hl', (hadmitted delta hdecided).1, himmediate]
  | staged delta r₁ turn' staged p _ hopen _ hpublished hplace hstage =>
    cases hsame turn' hopen
    obtain ⟨honce, hfits⟩ := hadmitted delta hdecided
    have hput := (publish_ui_of_placement outside (hzero delta rfl)
      h.immediate_sound.reconciled).1 p hplace (hfits p hplace)
    obtain ⟨htimed, hall⟩ := stage_putAll h.sound.ledger.canonical
      (h.sound.turn turn h.open_turn) (placement_placed hplace) hstage
    obtain ⟨hnative, hui⟩ := stage_flags hstage
    refine ⟨staged, hturn', (stage_id hstage).trans h.id_eq, hnative.trans h.no_native,
      fun hp => ?_, hsound, ?_, ?_, fun c => ?_⟩
    · rw [hui, hpublished] at hp
      cases hp
    · rw [honce]
      exact sound_published _ h.immediate_sound _ _ _ _ _
    · rw [honce, hput, hl', hall, h.ledger]
    · have hcount := put_count outside.time
        (e := placedEntry p delta call.effort) (hfits p hplace) c
      have hsum := stage_sum hstage (f := fun usage => usage.count c)
        (fun _ _ hab => plus_count hab c)
      have hroom := h.room c
      simp only [honce, hput, hl', placedEntry] at hcount ⊢
      omega
  | dropped delta r₁ turn' hadmission hopen _ _ hplace =>
    cases hsame turn' hopen
    have honce := (hadmitted delta hdecided).1
    rw [(publish_ui_of_placement outside (hzero delta rfl)
      h.immediate_sound.reconciled).2 hplace] at honce
    refine ⟨turn, ?_, h.id_eq, h.no_native, h.nothing_staged, hsound, ?_, ?_, ?_⟩
    · rw [hturn', hadmission.turn_eq, hr]
    · rw [honce]
      exact sound_note_dropped h.immediate_sound 1
    · simp only [honce, hl', putAll_note_dropped, h.ledger]
    · simp only [honce, hl']
      exact h.room
  | overflow delta r₁ turn' p _ hopen hnative _ _ _ =>
    cases hsame turn' hopen
    refine ⟨_, follows_of_published outside hturn' h.id_eq hnative rfl hsound ?_⟩
    simp only [hl', (hadmitted delta hdecided).1, h.publish_rows outside]

theorem follows_finish (h : Follows outside id w turn) (hnone : NoNative id line)
    (hroom : (w.finish_line outside line).overflowed = false) :
    ∃ turn', Follows outside id (w.finish_line outside line) turn' := by
  simp only [finish_line, Bool.or_eq_false_iff] at hroom
  obtain ⟨turn', h'⟩ := follows_count_ui outside (follows_native outside h hnone) line hroom.2
  exact ⟨turn', h'.open_turn, h'.id_eq, h'.no_native, h'.nothing_staged, h'.sound,
    h'.immediate_sound, h'.ledger, h'.room⟩

/-- An overflow is never forgotten. -/
theorem overflowed_run (lines : List (Line R))
    (h : (run (apply_codex_line outside) w lines).overflowed = false) : w.overflowed = false := by
  induction lines generalizing w with
  | nil => exact h
  | cons line rest ih =>
    have hnext := ih h
    simp only [apply_codex_line, finish_line, Bool.or_eq_false_iff] at hnext
    exact hnext.1

theorem follows_run (h : Follows outside id w turn) {lines : List (Line R)}
    (hquiet : ∀ line ∈ lines, is_turn_event line.value = false)
    (hnone : ∀ line ∈ lines, NoNative id line)
    (hroom : (run (apply_codex_line outside) w lines).overflowed = false) :
    ∃ turn', Follows outside id (run (apply_codex_line outside) w lines) turn' := by
  induction lines generalizing w turn with
  | nil => exact ⟨turn, h⟩
  | cons line rest ih =>
    obtain ⟨turn', h'⟩ := follows_finish outside
      (follows_lifecycle outside h (hquiet line mem_cons_self))
      (hnone line mem_cons_self) (overflowed_run outside rest hroom)
    exact ih h' (fun l hl => hquiet l (mem_cons_of_mem _ hl))
      (fun l hl => hnone l (mem_cons_of_mem _ hl)) hroom

/-- The closure of the turn publishes what is staged. -/
theorem Follows.closed (h : Follows outside id w turn) {closing : Line R}
    (hevent : is_turn_event closing.value = true) :
    ((w.acc.noted closing).lifecycle outside closing).toLedger = w.immediate := by
  obtain ⟨r, hv2, hr⟩ := bind_eq_some_iff.mp h.open_turn
  obtain ⟨r', pending, hstep, -, hledger⟩ :=
    lifecycle_step outside (s := w.acc.noted closing) (.running r hv2)
  have hrows : w.acc.toLedger.publish outside.time (r.turn.bind staged_rows) =
      w.immediate := by
    rw [hr]
    simp only [bind_some, staged_rows, h.no_native, Bool.not_false, Bool.true_and]
    by_cases hpublished : turn.ui_published = true
    · simp only [hpublished, Bool.not_true, Bool.false_eq_true, if_false]
      rw [h.ledger, h.nothing_staged hpublished]
      rfl
    · simp only [hpublished, Bool.not_false, if_true]
      exact h.publish_rows outside
  rw [hledger]
  cases hstep with
  | quiet _ _ hquiet =>
    rw [hevent] at hquiet
    cases hquiet
  | closed _ _ _ hp => exact hp ▸ hrows
  | bound _ _ _ _ hp => exact hp ▸ hrows

/-- A turn is bound, takes lines with no native of it, and is closed: if no
total overflows, the session totals and the rows are those of publication at
once, with or without a flush in the middle. -/
theorem deferred_publication_is_immediate (context : Context R) (evidence : AckEvidence)
    (cutover : Option Int64) (before : List (Line R)) (binding : Line R) (lines : List (Line R))
    (closing : Line R) (id : String)
    (hbound : (((run (SnapshotAccumulator.apply_codex_line outside)
      (.fresh context (some (.new evidence cutover))) before).noted binding).lifecycle outside
        binding).turn = some (BoundTurn.opened id))
    (hquiet : ∀ line ∈ lines, is_turn_event line.value = false)
    (hnone : ∀ line ∈ binding :: lines, NoNative id line)
    (hclosing : is_turn_event closing.value = true) :
    let s := run (SnapshotAccumulator.apply_codex_line outside)
      (.fresh context (some (.new evidence cutover))) before
    let opened := (s.noted binding).lifecycle outside binding
    let w := run (apply_codex_line outside)
      ({ acc := opened, immediate := opened.toLedger : Shadowed R }.finish_line outside binding) lines
    let closed := (w.acc.noted closing).lifecycle outside closing
    w.acc = run (SnapshotAccumulator.apply_codex_line outside)
      (.fresh context (some (.new evidence cutover))) (before ++ binding :: lines) ∧
    (w.overflowed = false →
      closed.toLedger.accepted_usage_totals = w.immediate.accepted_usage_totals ∧
      closed.toLedger.usage_buckets = w.immediate.usage_buckets) := by
  intro s opened w closed
  refine ⟨?_, fun hroom => ?_⟩
  · rw [run_acc, Run.append, Run.cons]
    rfl
  · have hsound : opened.Sound outside :=
      SnapshotAccumulator.sound_lifecycle outside (SnapshotAccumulator.sound_noted outside
        (SnapshotAccumulator.sound_run outside context evidence cutover before) binding) binding
    obtain ⟨turn, hfirst⟩ := follows_finish outside (follows_opened outside hsound hbound)
      (hnone binding mem_cons_self) (overflowed_run outside _ hroom)
    obtain ⟨turn', hrun⟩ := follows_run outside hfirst hquiet
      (fun l hl => hnone l (mem_cons_of_mem _ hl)) hroom
    have hclosed : closed.toLedger = w.immediate := hrun.closed outside hclosing
    rw [hclosed]
    exact ⟨rfl, rfl⟩

def laterUsage : UsageTotals := { input_tokens := 50, output_tokens := 5, request_count := 1 }

/-- A second UI line of the turn. -/
def laterUi : Line Unit :=
  exampleLine (.object [("type", .string "event_msg"),
    ("payload", .object [("type", .string "token_count")])])
    (some { model := some "gpt-5-mini", usage := laterUsage, last_usage := some laterUsage
            usage_event_identity := none, selector := {}, implicit_request_count := some 1
            effort := none })

/-- The turn `t1` with two UI lines, of two models. -/
def exampleShadow : Shadowed Unit :=
  let start := exampleEvent "task_started"
  let opened := ((run (SnapshotAccumulator.apply_codex_line exampleOutside)
    (.fresh {} (some (.new .None (some 0)))) [exampleHeader]).noted start).lifecycle
      exampleOutside start
  run (apply_codex_line exampleOutside)
    ({ acc := opened, immediate := opened.toLedger : Shadowed Unit }.finish_line exampleOutside
      start) [exampleUi, laterUi]

theorem publication_of_t1_is_immediate :
    let closed := (exampleShadow.acc.noted (exampleEvent "task_complete")).lifecycle exampleOutside
      (exampleEvent "task_complete")
    exampleShadow.immediate.accepted_usage_totals =
        { input_tokens := 150, output_tokens := 25, request_count := 2 } ∧
      closed.toLedger.accepted_usage_totals = exampleShadow.immediate.accepted_usage_totals ∧
      closed.toLedger.usage_buckets = exampleShadow.immediate.usage_buckets := by
  have hnone : ∀ line ∈ [exampleEvent "task_started", exampleUi, laterUi], NoNative "t1" line := by
    intro line hline htype
    simp only [mem_cons, not_mem_nil, or_false] at hline
    rcases hline with rfl | rfl | rfl
    · cases htype
    · cases htype
    · cases htype
  have hquiet : ∀ line ∈ [exampleUi, laterUi],
      is_turn_event line.value = false := by
    intro line hline
    simp only [mem_cons, not_mem_nil, or_false] at hline
    rcases hline with rfl | rfl
    · decide
    · decide
  exact ⟨rfl, (deferred_publication_is_immediate exampleOutside {} .None (some 0)
    [exampleHeader] (exampleEvent "task_started") [exampleUi, laterUi]
    (exampleEvent "task_complete") "t1" rfl hquiet hnone (by decide)).2 rfl⟩

end Shadowed

end ottto_service.accumulator
