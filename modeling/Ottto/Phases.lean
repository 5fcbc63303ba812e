-- The phases of one line under the counting V2, each as a step of the
-- reducer and of the ledger. The laws of the turns read a line only through
-- these.
import Ottto.Counting

open Words

namespace ottto_service.codex_usage_occurrence

open serde_json json_fields usage accumulator codex_counting_version

/-- The lifecycle of a line on the reducer, and the staged rows that it
publishes. -/
def OccurrenceReducer.turn_event (sha256 : List UInt8 → Fin 32 → UInt8) (r : OccurrenceReducer)
    (value : Value) : OccurrenceReducer × Option Pending :=
  let r := { r with line_ui := ui_t6_pair value }
  let event := string_at value ["payload", "type"]
  let turn_id := string_at value ["payload", "turn_id"]
  if event = some "task_started" then
    let (r, pending) := r.close_codex_turn_content sha256 none
    (r.bind_turn sha256 (bounded_turn_id turn_id), pending)
  else if event = some "task_complete" ∨ event = some "turn_aborted" then
    r.close_codex_turn_content sha256 turn_id
  else (r, none)

/-! ## What a native leaves alone -/

/-- The receipts of UI usage that V2 did not count. -/
def OccurrenceCounters.receipts (c : OccurrenceCounters) : T6 × T6 × T6 :=
  (c.ui_equal_total_repeat_usage, c.ui_in_native_turn_not_counted_usage,
    c.v2_cumulative_base_uncounted_usage)

/-- The second reducer has the turns and the UI receipts of the first. -/
structure OccurrenceReducer.Frames (r r' : OccurrenceReducer) : Prop where
  turn : r'.turn = r.turn
  closed_turns : r'.closed_turns = r.closed_turns
  closed_filter : r'.closed_filter = r.closed_filter
  receipts : r'.counters.receipts = r.counters.receipts

/-- A native on the reducer: ignored, counted in a native turn, or the first
of the open turn. -/
inductive NativeStep (r : OccurrenceReducer) (native : Option NativeRecord) :
    OccurrenceReducer → Option (NativeRecord × T6) → Prop
  | ignored (r' : OccurrenceReducer)
    (hwhy : ∀ n turn, native = some n → r.turn = some turn → n.turn_id = some turn.id →
      turn.ui_published = true) (h : r.Frames r') : NativeStep r native r' none
  | counted (n : NativeRecord) (turn : BoundTurn) (r' : OccurrenceReducer)
    (money : Option (NativeRecord × T6)) (hnative : native = some n) (hturn : r.turn = some turn)
    (hid : n.turn_id = some turn.id) (hpublished : turn.ui_published = false)
    (hcounts : turn.native = true) (h : r.Frames r') : NativeStep r native r' money
  | first (n : NativeRecord) (turn : BoundTurn) (r₀ r' : OccurrenceReducer)
    (money : Option (NativeRecord × T6)) (hnative : native = some n) (hturn : r.turn = some turn)
    (hid : n.turn_id = some turn.id) (hpublished : turn.ui_published = false)
    (hcounts : turn.native = false) (h₀ : r.Frames r₀) (h : (r₀.discard_staged turn).Frames r') :
    NativeStep r native r' money

namespace OccurrenceReducer

theorem note_native_receipts (r : OccurrenceReducer) (native : NativeRecord) :
    (r.note_native native).counters.receipts = r.counters.receipts := by
  unfold note_native
  simp only
  split <;> split <;> rfl

theorem frames_cover (r : OccurrenceReducer) (native : NativeRecord) :
    r.Frames (r.cover native).1 := by
  have hnote : r.Frames (r.note_native native) :=
    ⟨rfl, rfl, rfl, note_native_receipts r native⟩
  obtain ⟨h1, h2, h3, h4⟩ := hnote
  unfold cover
  simp only
  split
  · exact ⟨h1, h2, h3, h4⟩
  · split_ifs <;> exact ⟨h1, h2, h3, h4⟩

theorem frames_unbound_native (sha256 : List UInt8 → Fin 32 → UInt8) (r : OccurrenceReducer)
    (native : NativeRecord) : r.Frames (r.note_unbound_native sha256 native) := by
  refine ⟨rfl, rfl, rfl, ?_⟩
  unfold note_unbound_native
  simp only
  split <;> rfl

theorem Frames.trans {r₁ r₂ r₃ : OccurrenceReducer} (h : r₁.Frames r₂) (h' : r₂.Frames r₃) :
    r₁.Frames r₃ :=
  ⟨h'.turn.trans h.turn, h'.closed_turns.trans h.closed_turns,
    h'.closed_filter.trans h.closed_filter, h'.receipts.trans h.receipts⟩

/-- A native of another turn, or of none. -/
theorem settle_native_unbound (sha256 : List UInt8 → Fin 32 → UInt8) {r : OccurrenceReducer}
    {native : NativeRecord} (h : ∀ turn, r.turn = some turn → native.turn_id ≠ some turn.id)
    (money : T6) :
    r.settle_native sha256 native money = (r.note_unbound_native sha256 native, T6.zero) := by
  unfold settle_native
  have hnone : r.turn.filter (fun turn => decide (native.turn_id = some turn.id)) = none := by
    rw [Option.filter_eq_none_iff]
    intro turn hturn
    simpa using h turn hturn
  rw [hnone]

theorem settle_native_bound (sha256 : List UInt8 → Fin 32 → UInt8) {r : OccurrenceReducer}
    {native : NativeRecord} {turn : BoundTurn} (hturn : r.turn = some turn)
    (hid : native.turn_id = some turn.id) (money : T6) :
    r.settle_native sha256 native money =
      if turn.ui_published then
        ({ r with
           counters := { r.counters with
             native_after_ui_flush := r.counters.native_after_ui_flush + 1
             native_after_ui_flush_usage :=
               add_t6 r.counters.native_after_ui_flush_usage native.usage } }, T6.zero)
      else if turn.native then (r, money)
      else (r.discard_staged turn, money) := by
  unfold settle_native
  have hsome : r.turn.filter (fun turn => decide (native.turn_id = some turn.id)) = some turn := by
    rw [hturn, Option.filter_some, if_pos (by simpa using hid)]
  rw [hsome]

theorem native_step (sha256 : List UInt8 → Fin 32 → UInt8) (r : OccurrenceReducer)
    (native : Option NativeRecord) :
    NativeStep r native (r.note_codex_native_authority sha256 native).1
      (r.note_codex_native_authority sha256 native).2 := by
  unfold note_codex_native_authority
  rcases native with _ | n
  · exact .ignored _ (fun _ _ h => by cases h) ⟨rfl, rfl, rfl, rfl⟩
  simp only
  have hcover := frames_cover r n
  generalize r.cover n = covered at hcover
  obtain ⟨r₀, money⟩ := covered
  have hzero : T6.zero.is_zero = true := by decide
  have hframe : ∀ counters, counters.receipts = r₀.counters.receipts →
      r.Frames { r₀ with counters } :=
    fun _ h => ⟨hcover.turn, hcover.closed_turns, hcover.closed_filter, h.trans hcover.receipts⟩
  by_cases hbound : ∃ turn, r.turn = some turn ∧ n.turn_id = some turn.id
  · obtain ⟨turn, hturn, hid⟩ := hbound
    simp only [settle_native_bound sha256 (hcover.turn.trans hturn) hid]
    by_cases hpublished : turn.ui_published = true
    · simp only [hpublished, if_true, hzero]
      refine .ignored _ (fun _ turn' _ hturn' _ => ?_) (hframe _ rfl)
      cases hturn.symm.trans hturn'
      exact hpublished
    · simp only [hpublished, Bool.false_eq_true, if_false]
      simp only [Bool.not_eq_true] at hpublished
      by_cases hcounts : turn.native = true
      · simp only [hcounts, if_true]
        split
        · exact .counted n turn _ _ rfl hturn hid hpublished hcounts hcover
        · exact .counted n turn _ _ rfl hturn hid hpublished hcounts (hframe _ rfl)
      · simp only [hcounts, Bool.false_eq_true, if_false]
        simp only [Bool.not_eq_true] at hcounts
        split
        · exact .first n turn r₀ _ _ rfl hturn hid hpublished hcounts hcover ⟨rfl, rfl, rfl, rfl⟩
        · exact .first n turn r₀ _ _ rfl hturn hid hpublished hcounts hcover ⟨rfl, rfl, rfl, rfl⟩
  · have hnot : ∀ turn, r₀.turn = some turn → n.turn_id ≠ some turn.id := by
      intro turn hturn hid
      exact hbound ⟨turn, hcover.turn.symm.trans hturn, hid⟩
    simp only [settle_native_unbound sha256 hnot, hzero, if_true]
    refine .ignored _ (fun n' turn hn hturn hid => ?_)
      (hcover.trans (frames_unbound_native sha256 r₀ n))
    cases hn
    exact absurd ⟨turn, hturn, hid⟩ hbound

end OccurrenceReducer

end ottto_service.codex_usage_occurrence

namespace ottto_service.accumulator

open serde_json json_fields usage codex_counting_version codex_usage_occurrence CodexCounting

/-! ## Publication on the ledger -/

namespace Ledger

/-- The rows that a closure publishes, if any. -/
def publish (l : Ledger) (time : Rfc3339) (pending : Option Pending) : Ledger :=
  match pending with
  | some pending => l.publish_codex_pending time pending
  | none => l

end Ledger

namespace Context

variable {R : Type}

/-- The row of a usage at this point of the transcript. -/
def placement (self : Context R) (outside : Outside R) (model : String)
    (selector : SelectorCapture) (timestamp effort : Option String) : Option ClaudeRowPlacement :=
  claude_row_placement outside.time outside.selector_digest model self.current_selector selector
    effort timestamp self.fallback_bucket_timestamp

/-- The ledger after the usage is published at once. -/
def published (self : Context R) (outside : Outside R) (l : Ledger) (model : Option String)
    (usage : UsageTotals) (selector : SelectorCapture) (timestamp effort : Option String) :
    Ledger :=
  let resolved := (model.or self.latest_model).getD IMPLICIT_USAGE_MODEL
  if usage.is_zero then l
  else l.add_placed_usage outside.time
    { model := resolved, fell_back := model.isNone
      placement := self.placement outside resolved selector timestamp effort } usage effort

end Context

theorem claude_row_placement_fallback (time : Rfc3339)
    (selector_digest : SortedMap String String → String) (model : String)
    (base selector : SelectorCapture) (effort timestamp fallback : Option String) :
    claude_row_placement time selector_digest model base selector effort timestamp
        (if timestamp.isNone then fallback else none) =
      claude_row_placement time selector_digest model base selector effort timestamp fallback := by
  cases timestamp <;> rfl

namespace SnapshotAccumulator

variable {R : Type} (outside : Outside R)

theorem add_usage_toLedger (s : SnapshotAccumulator R) (model : Option String)
    (usage : UsageTotals) (selector : SelectorCapture) (timestamp effort : Option String) :
    (s.add_usage_with_selector outside model usage selector timestamp effort).toLedger =
      s.toContext.published outside s.toLedger model usage selector timestamp effort := by
  unfold add_usage_with_selector place_usage Context.published Context.placement
  by_cases hzero : usage.is_zero = true
  · simp only [hzero, if_true]
  · simp only [hzero, claude_row_placement_fallback, Bool.false_eq_true, if_false]
    rfl

@[simp] theorem add_usage_counting (s : SnapshotAccumulator R) (model : Option String)
    (usage : UsageTotals) (selector : SelectorCapture) (timestamp effort : Option String) :
    (s.add_usage_with_selector outside model usage selector timestamp effort).codex_counting =
      s.codex_counting := by
  unfold add_usage_with_selector place_usage
  split_ifs <;> rfl

/-! ## The reducer of a V2 session -/

/-- The reducer, when the session counts by V2. -/
def v2 (s : SnapshotAccumulator R) : Option OccurrenceReducer :=
  if s.codex_counting_v2 then s.codex_occurrence else none

variable {s : SnapshotAccumulator R}

theorem v2_congr {s' : SnapshotAccumulator R} (h : s.codex_counting = s'.codex_counting) :
    s.v2 = s'.v2 := by
  unfold v2 codex_counting_v2 codex_occurrence
  rw [h]

variable {r : OccurrenceReducer}

theorem v2_eq_some :
    s.v2 = some r ↔ ∃ counting, s.codex_counting = some counting ∧
      counting.version = some .V2 ∧ counting.reducer = some r := by
  unfold v2 codex_counting_v2 codex_occurrence
  rcases s.codex_counting with _ | counting
  · simp
  · simp

theorem occurrence_of_v2 (h : s.v2 = some r) :
    s.codex_occurrence = some r := by
  obtain ⟨counting, h1, -, h3⟩ := v2_eq_some.mp h
  simp [codex_occurrence, h1, h3]

theorem counting_v2_of_v2 (h : s.v2 = some r) : s.codex_counting_v2 = true := by
  obtain ⟨counting, h1, h2, -⟩ := v2_eq_some.mp h
  simp [codex_counting_v2, h1, h2]

theorem v2_with_occurrence (h : s.v2 = some r)
    (r' : OccurrenceReducer) : (s.with_occurrence r').v2 = some r' := by
  obtain ⟨counting, h1, h2, -⟩ := v2_eq_some.mp h
  exact v2_eq_some.mpr ⟨{ counting with reducer := some r' }, by simp [with_occurrence, h1], h2, rfl⟩

/-! ## The lifecycle -/

theorem close_codex_turn_v2 (h : s.v2 = some r) (closing : Option String) :
    (s.close_codex_turn outside closing true).v2 =
        some (r.close_codex_turn_content outside.sha256 closing).1 ∧
      (s.close_codex_turn outside closing true).toLedger =
        s.toLedger.publish outside.time (r.close_codex_turn_content outside.sha256 closing).2 := by
  unfold close_codex_turn
  simp only [occurrence_of_v2 h]
  rcases r.close_codex_turn_content outside.sha256 closing with ⟨r', _ | pending⟩
  · exact ⟨v2_with_occurrence h r', rfl⟩
  · exact ⟨(v2_congr rfl).trans (v2_with_occurrence h r'), rfl⟩

theorem observe_codex_turn_event_v2
    (value : Value) (h : s.v2 = some { r with line_ui := ui_t6_pair value }) :
    (s.observe_codex_turn_event outside value true).v2 =
        some (r.turn_event outside.sha256 value).1 ∧
      (s.observe_codex_turn_event outside value true).toLedger =
        s.toLedger.publish outside.time (r.turn_event outside.sha256 value).2 := by
  unfold observe_codex_turn_event OccurrenceReducer.turn_event
  simp only
  split_ifs with hstart hclose
  · obtain ⟨h1, h2⟩ := close_codex_turn_v2 outside h none
    unfold bind_codex_turn
    simp only [occurrence_of_v2 h1]
    exact ⟨v2_with_occurrence h1 _, h2⟩
  · exact close_codex_turn_v2 outside h _
  · exact ⟨h, rfl⟩

/-- The version of the session is decided at this line, for V2. -/
def Selected (s : SnapshotAccumulator R) (line : Line R) : Prop :=
  ∃ counting, s.codex_counting = some counting ∧ counting.version = none ∧
    (counting.fix_version outside.time line.value).version = some .V2

/-- The reducer that the lifecycle of a line starts from. -/
inductive Starts (s : SnapshotAccumulator R) (line : Line R) : OccurrenceReducer → Prop
  | running (r : OccurrenceReducer) (h : s.v2 = some r) : Starts s line r
  | selected (hnone : s.v2 = none) (h : s.Selected outside line) : Starts s line {}

theorem fix_version_decided {time : Rfc3339} {counting : CodexCounting}
    (h : counting.version ≠ none) (value : Value) : counting.fix_version time value = counting := by
  obtain ⟨version, hversion⟩ := Option.ne_none_iff_exists'.mp h
  simp [fix_version, hversion]

/-- A line of a V2 session is a turn event. -/
theorem lifecycle_of_starts {line : Line R} (h : s.Starts outside line r) :
    (s.lifecycle outside line).v2 = some (r.turn_event outside.sha256 line.value).1 ∧
      (s.lifecycle outside line).toLedger =
        s.toLedger.publish outside.time (r.turn_event outside.sha256 line.value).2 := by
  cases h with
  | running _ h =>
    obtain ⟨counting, hc, hv, hr⟩ := v2_eq_some.mp h
    have hsame : counting.fix_version outside.time line.value = counting :=
      fix_version_decided (by simp [hv]) line.value
    unfold lifecycle observe_codex_turn_lifecycle
    simp only [hc, hsame, hv, hr, ne_eq, not_true_eq_false, if_false]
    apply observe_codex_turn_event_v2
    exact v2_eq_some.mpr ⟨_, rfl, rfl, rfl⟩
  | selected _ h =>
    obtain ⟨counting, hc, hversion, hv⟩ := h
    have hfix : (counting.fix_version outside.time line.value).reducer = some {} := by
      unfold fix_version at hv ⊢
      simp only [hversion, Option.some.injEq] at hv ⊢
      rw [if_pos hv]
    unfold lifecycle observe_codex_turn_lifecycle
    simp only [hc, hv, hfix, ne_eq, not_true_eq_false, if_false]
    apply observe_codex_turn_event_v2
    exact v2_eq_some.mpr ⟨_, rfl, rfl, rfl⟩

/-- Every other line leaves the ledger, and no reducer of V2. -/
theorem lifecycle_cases (s : SnapshotAccumulator R) (line : Line R) :
    (∃ r, s.Starts outside line r) ∨
      s.v2 = none ∧ (s.lifecycle outside line).v2 = none ∧
        (s.lifecycle outside line).toLedger = s.toLedger := by
  rcases hs : s.v2 with _ | r
  swap
  · exact .inl ⟨r, .running r hs⟩
  by_cases hsel : s.Selected outside line
  · exact .inl ⟨{}, .selected hs hsel⟩
  refine .inr ⟨rfl, ?_⟩
  unfold lifecycle observe_codex_turn_lifecycle
  rcases hc : s.codex_counting with _ | counting
  · exact ⟨hs, rfl⟩
  simp only
  split_ifs with hv
  · exact ⟨if_neg (by simpa [codex_counting_v2, note_legacy_line] using hv), rfl⟩
  · simp only [ne_eq, not_not] at hv
    have hdecided : counting.version ≠ none := fun hnone => hsel ⟨counting, hc, hnone, hv⟩
    rw [fix_version_decided hdecided] at hv ⊢
    rcases hr : counting.reducer with _ | r
    · exact ⟨(v2_congr hc.symm).trans hs, rfl⟩
    · rw [v2_eq_some.mpr ⟨counting, hc, hv, hr⟩] at hs
      cases hs

theorem lifecycle_running (h : s.v2 = some r) (line : Line R) :
    (s.lifecycle outside line).v2 = some (r.turn_event outside.sha256 line.value).1 ∧
      (s.lifecycle outside line).toLedger =
        s.toLedger.publish outside.time (r.turn_event outside.sha256 line.value).2 :=
  lifecycle_of_starts outside (.running r h)

/-! ## Native records -/

theorem native_of_no_v2 (h : s.v2 = none) (line : Line R) :
    s.native outside line = s := by
  unfold native
  by_cases hv : s.codex_counting_v2 = true
  · have hr : s.codex_occurrence = none := by simpa [v2, hv] using h
    simp only [hv, admit_codex_native, hr, Bool.not_true, Bool.false_eq_true, ite_self]
  · simp only [hv, Bool.not_false, if_true]

/-- A native record of a V2 session: the reducer takes it, and the ledger
publishes the money that it has left. -/
theorem native_cases (h : s.v2 = some r) (line : Line R) :
    (string_eq_at line.value ["type"] "token_usage_record" = false ∧
        s.native outside line = s) ∨
      ∃ r' money, NativeStep r (native_record line.value s.source_session_id) r' money ∧
        (s.native outside line).v2 = some r' ∧
        (money = none ∧ (s.native outside line).toLedger = s.toLedger ∨
          ∃ native t6 model selector timestamp effort, money = some (native, t6) ∧
            (s.native outside line).toLedger = s.toContext.published outside s.toLedger model
              (native_money t6) selector timestamp effort) := by
  unfold native
  rw [counting_v2_of_v2 h]
  simp only [Bool.not_true, Bool.false_eq_true, if_false]
  split_ifs with htype
  · right
    unfold admit_codex_native
    simp only [occurrence_of_v2 h]
    have hstep := r.native_step outside.sha256 (native_record line.value s.source_session_id)
    generalize r.note_codex_native_authority outside.sha256
      (native_record line.value s.source_session_id) = noted at hstep
    obtain ⟨r', _ | ⟨native, t6⟩⟩ := noted
    · exact ⟨r', none, hstep, v2_with_occurrence h r', .inl ⟨rfl, rfl⟩⟩
    · refine ⟨r', some (native, t6), hstep, ?_, .inr ⟨native, t6, ?_⟩⟩
      · refine Eq.trans (v2_congr ?_) (v2_with_occurrence h r')
        simp
      · exact ⟨_, _, _, _, rfl, add_usage_toLedger outside (s.with_occurrence r') _ _ _ _ _⟩
  · exact .inl ⟨by simpa using htype, rfl⟩

/-! ## The UI lines -/

end SnapshotAccumulator

def UiCall.resolved_model {R : Type} (call : UiCall) (context : Context R) : String :=
  (call.model.or context.latest_model).getD IMPLICIT_USAGE_MODEL

namespace SnapshotAccumulator

variable {R : Type} (outside : Outside R)

/-- The delta of a UI line, unless it is zero or the line is an exact
duplicate. -/
def ui_delta (s : SnapshotAccumulator R) (call : UiCall) : Option UsageTotals :=
  match s.admit_codex_cumulative_usage call.model call.usage call.usage_event_identity with
  | (_, none) => none
  | (_, some (_, previous, reset)) =>
    let delta := (codex_ui_deltas call.usage call.last_usage previous reset
      call.implicit_request_count).1
    if delta.is_zero then none else some delta

end SnapshotAccumulator

namespace Context

variable {R : Type}

/-- The ledger after the delta of a UI line is published at once. -/
def publish_ui (self : Context R) (outside : Outside R) (l : Ledger) (call : UiCall)
    (timestamp : Option String) (delta : UsageTotals) : Ledger :=
  self.published outside l (some (call.resolved_model self)) delta call.selector timestamp
    call.effort

def ui_placement (self : Context R) (outside : Outside R) (call : UiCall)
    (timestamp : Option String) : Option ClaudeRowPlacement :=
  self.placement outside (call.resolved_model self) call.selector timestamp call.effort

end Context

end ottto_service.accumulator

namespace ottto_service.codex_usage_occurrence

open usage accumulator Option

/-- The reducer after the repeat gate saw a UI line. -/
def OccurrenceReducer.gated (r : OccurrenceReducer) (prev : Option UiTuple) (since : Bool)
    (counters : OccurrenceCounters) : OccurrenceReducer :=
  { r with line_ui := none, prev_ui := prev, native_since_prev_ui := since, counters := counters }

/-- What the reducer makes of the delta of a UI line: the reducer after, and
whether it admits the line, unbound or bound. -/
inductive UiAdmission (r : OccurrenceReducer) (delta : UsageTotals) :
    OccurrenceReducer → Option Bool → Prop
  | unbound (prev : Option UiTuple) (hturn : r.turn = none) :
    UiAdmission r delta
      (r.gated prev false { r.counters with
        ui_in_unbound_span := r.counters.ui_in_unbound_span + 1 }) (some false)
  | repeated (hturn : r.turn ≠ none) :
    UiAdmission r delta
      (r.gated r.prev_ui r.native_since_prev_ui { r.counters with
        ui_equal_total_repeat := r.counters.ui_equal_total_repeat + 1
        ui_equal_total_repeat_usage :=
          add_t6 r.counters.ui_equal_total_repeat_usage (totals_t6 delta) }) none
  | base (prev : Option UiTuple) (hturn : r.turn ≠ none) :
    UiAdmission r delta
      (r.gated prev false { r.counters with
        v2_cumulative_base_uncounted := r.counters.v2_cumulative_base_uncounted + 1
        v2_cumulative_base_uncounted_usage :=
          add_t6 r.counters.v2_cumulative_base_uncounted_usage (totals_t6 delta) }) none
  | bound (prev : Option UiTuple) (hturn : r.turn ≠ none) :
    UiAdmission r delta (r.gated prev false r.counters) (some true)

theorem UiAdmission.turn_eq {r r' : OccurrenceReducer} {delta : UsageTotals} {b : Option Bool}
    (h : UiAdmission r delta r' b) : r'.turn = r.turn := by
  cases h <;> rfl

/-- The admitted delta is the delta of the line, bound or not. -/
theorem OccurrenceReducer.admit_ui_cases (r : OccurrenceReducer) (tuple : Option UiTuple)
    (delta : UsageTotals) (bound_delta : Option UsageTotals)
    (hbound : ∀ d, bound_delta = some d → d = delta) :
    ∃ r' bound, UiAdmission r delta r' bound ∧
      { r with line_ui := none }.admit_ui tuple delta bound_delta =
        (r', bound.map (fun b => (delta, b))) := by
  unfold admit_ui
  rcases hturn : r.turn with _ | turn
  · exact ⟨_, _, .unbound tuple hturn, by simp [gated, note_ui, hturn]⟩
  have hne : r.turn ≠ none := by simp [hturn]
  unfold equal_total_repeat
  simp only
  split_ifs with hrepeat
  · exact ⟨_, _, .repeated hne, by simp [gated, hturn]⟩
  · generalize hf : bound_delta.filter (fun delta => !delta.is_zero) = filtered
    rcases filtered with _ | d
    · exact ⟨_, _, .base tuple hne, by simp only [gated, note_ui, hturn, map_none]⟩
    · have hd : d = delta := hbound d (eq_some_of_filter_eq_some hf)
      subst hd
      exact ⟨_, _, .bound tuple hne, by simp only [gated, note_ui, hturn, map_some]⟩

/-- A usage that is staged is a new row of the turn, or joins one that has
room for it. -/
theorem BoundTurn.stage_cases {time : Rfc3339} {turn staged : BoundTurn}
    {bucket activity : String} {key : RowKey} {context sources : SortedMap String String}
    {usage : UsageTotals}
    (h : turn.stage time bucket activity key context sources usage = some staged) :
    ∃ row, staged =
        { turn with
          pending := turn.pending.insert (toLex (bucket, key)) row
          staged_events := saturating_add turn.staged_events 1 } ∧
      ((turn.pending.get? (toLex (bucket, key)) = none ∧
          row = ⟨context, sources, usage, 1, activity, activity⟩) ∨
        ∃ old, turn.pending.get? (toLex (bucket, key)) = some old ∧ old.usage.Fits usage ∧
          row = old.merged time (old.selector_sources.extend sources) (old.usage.plus usage)
            activity) := by
  unfold stage at h
  rcases hget : turn.pending.get? (toLex (bucket, key)) with _ | old
  · simp only [hget] at h
    split at h
    · cases h
    · cases h
      exact ⟨_, rfl, .inl ⟨rfl, rfl⟩⟩
  · simp only [hget] at h
    split at h
    · cases h
    · obtain ⟨merged, hadd, rfl⟩ := map_eq_some_iff.mp h
      obtain ⟨hfits, rfl⟩ := UsageTotals.add_eq_some.mp hadd
      exact ⟨_, rfl, .inr ⟨old, rfl, hfits, rfl⟩⟩

end ottto_service.codex_usage_occurrence

namespace ottto_service.accumulator

open serde_json json_fields usage codex_counting_version codex_usage_occurrence Option
open SnapshotAccumulator

/-- What V2 makes of the usage call of a line: the delta of the line, whether
it is admitted, unbound or bound, and the reducer and the ledger after. -/
inductive UiStep {R : Type} (outside : Outside R) (context : Context R) (l : Ledger)
    (call : UiCall) (timestamp : Option String) (r : OccurrenceReducer) :
    Option UsageTotals → Option Bool → OccurrenceReducer → Ledger → Prop
  | skipped : UiStep outside context l call timestamp r none none r l
  | refused (delta : UsageTotals) (r' : OccurrenceReducer) (h : UiAdmission r delta r' none) :
    UiStep outside context l call timestamp r (some delta) none r' l
  | unbound (delta : UsageTotals) (r' : OccurrenceReducer)
    (h : UiAdmission r delta r' (some false)) :
    UiStep outside context l call timestamp r (some delta) (some false) r'
      (context.publish_ui outside l call timestamp delta)
  | in_native (delta : UsageTotals) (r' : OccurrenceReducer) (turn : BoundTurn)
    (h : UiAdmission r delta r' (some true)) (hturn : r.turn = some turn)
    (hnative : turn.native = true) :
    UiStep outside context l call timestamp r (some delta) (some true)
      (r'.note_ui_in_native_turn delta) l
  | direct (delta : UsageTotals) (r' : OccurrenceReducer) (turn : BoundTurn)
    (h : UiAdmission r delta r' (some true)) (hturn : r.turn = some turn)
    (hnative : turn.native = false) (hpublished : turn.ui_published = true) :
    UiStep outside context l call timestamp r (some delta) (some true) r'
      (context.publish_ui outside l call timestamp delta)
  | staged (delta : UsageTotals) (r' : OccurrenceReducer) (turn staged : BoundTurn)
    (p : ClaudeRowPlacement) (h : UiAdmission r delta r' (some true))
    (hturn : r.turn = some turn) (hnative : turn.native = false)
    (hpublished : turn.ui_published = false)
    (hplace : context.ui_placement outside call timestamp = some p)
    (hstage : turn.stage outside.time p.bucket p.normalized_timestamp p.row_key p.reduced_context
      p.reduced_sources delta = some staged) :
    UiStep outside context l call timestamp r (some delta) (some true)
      { r' with turn := some staged } l
  | dropped (delta : UsageTotals) (r' : OccurrenceReducer) (turn : BoundTurn)
    (h : UiAdmission r delta r' (some true)) (hturn : r.turn = some turn)
    (hnative : turn.native = false) (hpublished : turn.ui_published = false)
    (hplace : context.ui_placement outside call timestamp = none) :
    UiStep outside context l call timestamp r (some delta) (some true) r'
      (l.note_dropped_usage 1)
  | overflow (delta : UsageTotals) (r' : OccurrenceReducer) (turn : BoundTurn)
    (p : ClaudeRowPlacement) (h : UiAdmission r delta r' (some true))
    (hturn : r.turn = some turn) (hnative : turn.native = false)
    (hpublished : turn.ui_published = false)
    (hplace : context.ui_placement outside call timestamp = some p)
    (hstage : turn.stage outside.time p.bucket p.normalized_timestamp p.row_key p.reduced_context
      p.reduced_sources delta = none) :
    UiStep outside context l call timestamp r (some delta) (some true) (r'.flush_turn turn)
      (context.publish_ui outside (l.publish_codex_pending outside.time turn.pending) call
        timestamp delta)

theorem codex_ui_deltas_bound (usage : UsageTotals) (last previous : Option UsageTotals)
    (reset : Bool) (count : Option UInt64) (d : UsageTotals)
    (h : (codex_ui_deltas usage last previous reset count).2 = some d) :
    d = (codex_ui_deltas usage last previous reset count).1 := by
  rcases last with _ | last
  · rcases previous with _ | previous
    · cases h
    · cases reset
      · exact (Option.some.inj h).symm
      · cases h
  · exact (Option.some.inj h).symm

namespace SnapshotAccumulator

variable {R : Type} (outside : Outside R)

/-- The admission writes neither the counting nor the ledger. -/
theorem admit_codex_cumulative_usage_frame (s : SnapshotAccumulator R) (model : Option String)
    (usage : UsageTotals) (identity : Option String) :
    ∃ s₁ admitted, s.admit_codex_cumulative_usage model usage identity = (s₁, admitted) ∧
      s₁.toLedger = s.toLedger ∧ s₁.codex_counting = s.codex_counting ∧
      s₁.toContext = { s.toContext with
        latest_model := some ((model.or s.latest_model).getD IMPLICIT_USAGE_MODEL) } ∧
      ∀ resolved previous reset, admitted = some (resolved, previous, reset) →
        resolved = (model.or s.latest_model).getD IMPLICIT_USAGE_MODEL := by
  unfold admit_codex_cumulative_usage
  simp only
  split
  · exact ⟨_, _, rfl, rfl, rfl, rfl, fun _ _ _ h => by cases h⟩
  · exact ⟨_, _, rfl, rfl, rfl, rfl, fun _ _ _ h => by cases h; rfl⟩

variable {s : SnapshotAccumulator R} {r : OccurrenceReducer}

/-- Staging reads the row that publication would. -/
theorem stage_codex_ui_cases
    {turn : BoundTurn} (h : s.v2 = some r) (hturn : r.turn = some turn) (model : String)
    (usage : UsageTotals) (selector : SelectorCapture) (timestamp effort : Option String) :
    (s.toContext.placement outside model selector timestamp effort = none ∧
      s.stage_codex_ui outside model usage selector timestamp effort =
        (s.note_dropped_usage, .Dropped)) ∨
    ∃ p, s.toContext.placement outside model selector timestamp effort = some p ∧
      ((∃ staged, turn.stage outside.time p.bucket p.normalized_timestamp p.row_key
          p.reduced_context p.reduced_sources usage = some staged ∧
        s.stage_codex_ui outside model usage selector timestamp effort =
          (s.with_occurrence { r with turn := some staged }, .Staged)) ∨
      (turn.stage outside.time p.bucket p.normalized_timestamp p.row_key p.reduced_context
          p.reduced_sources usage = none ∧
        s.stage_codex_ui outside model usage selector timestamp effort = (s, .Overflow))) := by
  unfold stage_codex_ui Context.placement claude_row_placement
  simp only [occurrence_of_v2 h, hturn]
  rcases timestamp.or s.fallback_bucket_timestamp with _ | at_time
  · left
    simp
  rcases hbucket : activity_bucket_from_timestamp outside.time at_time with _ | ⟨bucket, activity⟩
  · left
    simp [hbucket]
  · right
    simp only [bind_eq_bind, bind_some, hbucket]
    refine ⟨_, rfl, ?_⟩
    split
    · rename_i hnone
      exact .inr ⟨hnone, rfl⟩
    · rename_i staged hsome
      exact .inl ⟨staged, hsome, rfl⟩

theorem flush_codex_turn_v2 {turn : BoundTurn} (h : s.v2 = some r) (hturn : r.turn = some turn) :
    (s.flush_codex_turn outside).v2 = some (r.flush_turn turn) ∧
      (s.flush_codex_turn outside).toLedger =
        s.toLedger.publish_codex_pending outside.time turn.pending ∧
      (s.flush_codex_turn outside).toContext = s.toContext := by
  unfold flush_codex_turn
  simp only [occurrence_of_v2 h, hturn]
  exact ⟨(v2_congr rfl).trans (v2_with_occurrence h _), rfl, rfl⟩

/-- A published delta does not read the model that ran before it. -/
theorem published_latest_model (context : Context R) (latest : Option String) (l : Ledger)
    (model : String) (usage : UsageTotals) (selector : SelectorCapture)
    (timestamp effort : Option String) :
    { context with latest_model := latest }.published outside l (some model) usage selector
        timestamp effort =
      context.published outside l (some model) usage selector timestamp effort := rfl

theorem count_bound_ui_step {s₁ : SnapshotAccumulator R} {r₁ : OccurrenceReducer}
    {call : UiCall} {delta : UsageTotals} (timestamp : Option String) (hcontext : s₁.toContext =
      { s.toContext with latest_model := some (call.resolved_model s.toContext) })
    (hledger : s₁.toLedger = s.toLedger) (hv2 : s₁.v2 = some r₁)
    (hadmission : UiAdmission r delta r₁ (some true)) :
    ∃ r', (s₁.count_bound_ui outside (call.resolved_model s.toContext) delta call.selector
        timestamp call.effort).1.v2 = some r' ∧
      UiStep outside s.toContext s.toLedger call timestamp r (some delta) (some true) r'
        (s₁.count_bound_ui outside (call.resolved_model s.toContext) delta call.selector
          timestamp call.effort).1.toLedger := by
  have hne : r.turn ≠ none := by
    cases hadmission
    assumption
  obtain ⟨turn, hturn⟩ := ne_none_iff_exists'.mp hne
  have hturn₁ : r₁.turn = some turn := hadmission.turn_eq.trans hturn
  unfold count_bound_ui
  simp only [occurrence_of_v2 hv2, hturn₁]
  split_ifs with hnative hpublished
  · refine ⟨_, v2_with_occurrence hv2 _, ?_⟩
    have hstep : UiStep outside s.toContext s.toLedger call timestamp r (some delta) (some true)
        (r₁.note_ui_in_native_turn delta) s.toLedger :=
      .in_native delta r₁ turn hadmission hturn hnative
    rw [← hledger] at hstep ⊢
    exact hstep
  · refine ⟨r₁, (v2_congr (add_usage_counting ..)).trans hv2, ?_⟩
    simp only [add_usage_toLedger, hcontext, hledger, published_latest_model]
    exact .direct delta r₁ turn hadmission hturn (by simpa using hnative) hpublished
  · simp only [Bool.not_eq_true] at hnative hpublished
    rcases stage_codex_ui_cases outside hv2 hturn₁ (call.resolved_model s.toContext) delta
      call.selector timestamp call.effort with
      ⟨hplace, hstage⟩ | ⟨p, hplace, ⟨staged, hs, hstage⟩ | ⟨hs, hstage⟩⟩
    · rw [hcontext] at hplace
      simp only [hstage]
      refine ⟨r₁, (v2_congr rfl).trans hv2, ?_⟩
      simp only [note_dropped_usage, hledger]
      exact .dropped delta r₁ turn hadmission hturn hnative hpublished hplace
    · rw [hcontext] at hplace
      simp only [hstage]
      refine ⟨_, v2_with_occurrence hv2 _, ?_⟩
      have hstep : UiStep outside s.toContext s.toLedger call timestamp r (some delta) (some true)
          { r₁ with turn := some staged } s.toLedger :=
        .staged delta r₁ turn staged p hadmission hturn hnative hpublished hplace hs
      rw [← hledger] at hstep ⊢
      exact hstep
    · rw [hcontext] at hplace
      simp only [hstage]
      obtain ⟨hflush, hflushLedger, hflushContext⟩ := flush_codex_turn_v2 outside hv2 hturn₁
      refine ⟨_, (v2_congr (add_usage_counting ..)).trans hflush, ?_⟩
      simp only [add_usage_toLedger, hflushContext, hflushLedger, hcontext, hledger,
        published_latest_model]
      exact .overflow delta r₁ turn p hadmission hturn hnative hpublished hplace hs

/-- The admission decision of a V2 session: no delta, or the reducer takes
the delta. It writes neither the ledger nor, but for the model, the context. -/
theorem decide_codex_usage_cases (h : s.v2 = some r) (call : UiCall) :
    ∃ s₁, s₁.toLedger = s.toLedger ∧
      s₁.toContext = { s.toContext with latest_model := some (call.resolved_model s.toContext) } ∧
      ((s.ui_delta call = none ∧ s₁.v2 = some r ∧
          s.decide_codex_usage call.model call.usage call.last_usage call.usage_event_identity
            call.implicit_request_count = (s₁, none)) ∨
        ∃ delta r₁ bound, s.ui_delta call = some delta ∧ UiAdmission r delta r₁ bound ∧
          s₁.v2 = some r₁ ∧
          s.decide_codex_usage call.model call.usage call.last_usage call.usage_event_identity
            call.implicit_request_count =
            (s₁, bound.map (fun b => (call.resolved_model s.toContext, delta, b)))) := by
  obtain ⟨s₁, admitted, hadmission, hledger, hcounting, hcontext, hmodel⟩ :=
    admit_codex_cumulative_usage_frame s call.model call.usage call.usage_event_identity
  have hv2 : s₁.v2 = some r := (v2_congr hcounting).trans h
  unfold decide_codex_usage ui_delta
  simp only [hadmission]
  rcases admitted with _ | ⟨resolved, previous, reset⟩
  · exact ⟨s₁, hledger, hcontext, .inl ⟨rfl, hv2, rfl⟩⟩
  have hresolved : resolved = call.resolved_model s.toContext := hmodel _ _ _ rfl
  subst hresolved
  have hbound := codex_ui_deltas_bound call.usage call.last_usage previous reset
    call.implicit_request_count
  rcases hdeltas : codex_ui_deltas call.usage call.last_usage previous reset
    call.implicit_request_count with ⟨delta, bound_delta⟩
  rw [hdeltas] at hbound
  simp only [hdeltas]
  by_cases hzero : delta.is_zero = true
  · simp only [hzero, if_true]
    exact ⟨s₁, hledger, hcontext, .inl ⟨trivial, hv2, rfl⟩⟩
  simp only [hzero, Bool.false_eq_true, if_false, occurrence_of_v2 hv2]
  obtain ⟨r₁, bound, hcases, hui⟩ := r.admit_ui_cases
    (r.take_ui_tuple call.last_usage call.usage).2 delta bound_delta hbound
  have hui' : (r.take_ui_tuple call.last_usage call.usage).1.admit_ui
      (r.take_ui_tuple call.last_usage call.usage).2 delta bound_delta =
      (r₁, bound.map (fun b => (delta, b))) := hui
  simp only [hui']
  refine ⟨s₁.with_occurrence r₁, hledger, hcontext,
    .inr ⟨delta, r₁, bound, rfl, hcases, v2_with_occurrence hv2 r₁, ?_⟩⟩
  cases bound <;> rfl

/-- What the admission decision returns. -/
def decided (s : SnapshotAccumulator R) (call : UiCall) : Option (String × UsageTotals × Bool) :=
  (s.decide_codex_usage call.model call.usage call.last_usage call.usage_event_identity
    call.implicit_request_count).2

theorem set_codex_v2_step (h : s.v2 = some r) (call : UiCall) (timestamp : Option String) :
    ∃ bound r', (s.set_codex_v2_cumulative_usage outside call.model call.usage call.last_usage
        call.usage_event_identity call.selector timestamp call.implicit_request_count
        call.effort).1.v2 = some r' ∧
      UiStep outside s.toContext s.toLedger call timestamp r (s.ui_delta call) bound r'
        (s.set_codex_v2_cumulative_usage outside call.model call.usage call.last_usage
          call.usage_event_identity call.selector timestamp call.implicit_request_count
          call.effort).1.toLedger ∧
      s.decided call = bound.bind (fun b => (s.ui_delta call).map
        (fun delta => (call.resolved_model s.toContext, delta, b))) := by
  unfold set_codex_v2_cumulative_usage decided
  obtain ⟨s₁, hledger, hcontext, ⟨hdelta, hv2, hdecide⟩ |
    ⟨delta, r₁, bound, hdelta, hcases, hv2, hdecide⟩⟩ := decide_codex_usage_cases h call
  · rw [hdecide, hdelta]
    refine ⟨none, r, hv2, ?_, rfl⟩
    simp only [hledger]
    exact .skipped
  rw [hdecide, hdelta]
  rcases bound with _ | _ | _
  · refine ⟨none, r₁, hv2, ?_, rfl⟩
    simp only [map_none, hledger]
    exact .refused delta r₁ hcases
  · refine ⟨some false, r₁, (v2_congr (add_usage_counting ..)).trans hv2, ?_, rfl⟩
    simp only [map_some, add_usage_toLedger, hledger, hcontext, published_latest_model]
    exact .unbound delta r₁ hcases
  · obtain ⟨r', hv2', hstep⟩ := count_bound_ui_step outside timestamp hcontext hledger hv2 hcases
    exact ⟨some true, r', hv2', hstep, rfl⟩

/-- The usage call of a line of a V2 session. -/
theorem count_ui_cases (h : s.v2 = some r) (line : Line R) :
    (line.ui s.toContext = none ∧ s.count_ui outside line = s) ∨
      ∃ call bound r', line.ui s.toContext = some call ∧ (s.count_ui outside line).v2 = some r' ∧
        UiStep outside s.toContext s.toLedger call line.timestamp r (s.ui_delta call) bound r'
          (s.count_ui outside line).toLedger ∧
        s.decided call = bound.bind (fun b => (s.ui_delta call).map
          (fun delta => (call.resolved_model s.toContext, delta, b))) := by
  unfold count_ui
  rcases hui : line.ui s.toContext with _ | call
  · exact .inl ⟨rfl, rfl⟩
  · obtain ⟨bound, r', hv2, hstep, hdecided⟩ := set_codex_v2_step outside h call line.timestamp
    refine .inr ⟨call, bound, r', rfl, ?_⟩
    simp only [set_cumulative_usage_with_selector, counting_v2_of_v2 h, if_true]
    exact ⟨(v2_congr rfl).trans hv2, hstep, hdecided⟩

theorem counting_v2_congr {s' : SnapshotAccumulator R}
    (h : s.codex_counting = s'.codex_counting) : s.codex_counting_v2 = s'.codex_counting_v2 := by
  unfold codex_counting_v2
  rw [h]

theorem v2_of_not_counting (h : s.codex_counting_v2 = false) :
    s.v2 = none := by
  unfold v2
  rw [h]
  rfl

theorem counting_v2_with_occurrence (s : SnapshotAccumulator R) (r : OccurrenceReducer) :
    (s.with_occurrence r).codex_counting_v2 = s.codex_counting_v2 := by
  unfold codex_counting_v2 with_occurrence
  rcases s.codex_counting with _ | counting <;> rfl

theorem codex_legacy_ui_repeat_frame (s : SnapshotAccumulator R) (last : Option UsageTotals)
    (total delta : UsageTotals) (may_drop : Bool) :
    (s.codex_legacy_ui_repeat last total delta may_drop).1.toLedger = s.toLedger ∧
      (s.codex_legacy_ui_repeat last total delta may_drop).1.codex_counting_v2 =
        s.codex_counting_v2 := by
  unfold codex_legacy_ui_repeat
  split
  · exact ⟨rfl, rfl⟩
  · cases may_drop
    · exact ⟨rfl, counting_v2_with_occurrence s _⟩
    · simp only [if_true]
      split <;> exact ⟨rfl, counting_v2_with_occurrence s _⟩

/-- The Legacy decision writes neither the ledger nor the version. -/
theorem decide_codex_legacy_usage_frame (s : SnapshotAccumulator R) (model : Option String)
    (usage : UsageTotals) (last : Option UsageTotals) (identity timestamp : Option String)
    (count : Option UInt64) :
    (s.decide_codex_legacy_usage outside model usage last identity timestamp count).1.toLedger =
        s.toLedger ∧
      (s.decide_codex_legacy_usage outside model usage last identity timestamp
        count).1.codex_counting_v2 = s.codex_counting_v2 := by
  obtain ⟨s₁, admitted, hadmission, hledger, hcounting, -, -⟩ :=
    admit_codex_cumulative_usage_frame s model usage identity
  have hv2 := counting_v2_congr hcounting
  unfold decide_codex_legacy_usage
  simp only [hadmission]
  rcases admitted with _ | ⟨resolved, previous, reset⟩
  · exact ⟨hledger, hv2⟩
  · simp only
    split
    · exact ⟨hledger, hv2⟩
    · have hframe := codex_legacy_ui_repeat_frame s₁ last usage
        (codex_legacy_delta usage last previous reset count)
        (dated_on_or_after outside.time timestamp CODEX_LEGACY_REPEAT_FROM_UNIX_SECONDS)
      split <;>
        · rename_i heq
          rw [heq] at hframe
          exact ⟨hframe.1.trans hledger, hframe.2.trans hv2⟩

/-- Outside V2 the usage of a line is published at once, or not at all. -/
theorem count_ui_no_v2_cases (h : s.v2 = none) (line : Line R) :
    (s.count_ui outside line).v2 = none ∧
      ((s.count_ui outside line).toLedger = s.toLedger ∨
        ∃ (context : Context R) (model : Option String) (usage : UsageTotals)
          (selector : SelectorCapture) (timestamp effort : Option String),
          (s.count_ui outside line).toLedger =
            context.published outside s.toLedger model usage selector timestamp effort) := by
  unfold count_ui
  rcases line.ui s.toContext with _ | call
  · exact ⟨h, .inl rfl⟩
  unfold set_cumulative_usage_with_selector
  by_cases hv : s.codex_counting_v2 = true
  · -- V2 without a reducer: the decision returns before any usage.
    have hr : s.codex_occurrence = none := by simpa [v2, hv] using h
    obtain ⟨s₁, admitted, hadmission, hledger, hcounting, -, -⟩ :=
      admit_codex_cumulative_usage_frame s call.model call.usage call.usage_event_identity
    have hr₁ : s₁.codex_occurrence = none := by
      unfold codex_occurrence at hr ⊢
      rw [hcounting]
      exact hr
    have hv2 : s₁.v2 = none := (v2_congr hcounting).trans h
    simp only [hv, if_true, set_codex_v2_cumulative_usage, decide_codex_usage, hadmission]
    rcases admitted with _ | ⟨resolved, previous, reset⟩
    · exact ⟨hv2, .inl hledger⟩
    · simp only [hr₁, ite_self]
      exact ⟨hv2, .inl hledger⟩
  · have hframe := decide_codex_legacy_usage_frame outside s call.model call.usage
      call.last_usage call.usage_event_identity line.timestamp call.implicit_request_count
    simp only [hv, Bool.false_eq_true, if_false] at hframe ⊢
    rcases hd : s.decide_codex_legacy_usage outside call.model call.usage call.last_usage
      call.usage_event_identity line.timestamp call.implicit_request_count with
      ⟨s₁, _ | ⟨model, delta⟩⟩
    · rw [hd] at hframe
      exact ⟨v2_of_not_counting hframe.2, .inl hframe.1⟩
    · rw [hd] at hframe
      refine ⟨(v2_congr (add_usage_counting ..)).trans (v2_of_not_counting hframe.2), .inr ?_⟩
      rw [← hframe.1]
      exact ⟨_, _, _, _, _, _, add_usage_toLedger outside s₁ _ _ _ _ _⟩

/-- Legacy counting never makes a session count by V2. -/
theorem count_ui_of_no_v2 (h : s.v2 = none) (line : Line R) :
    (s.count_ui outside line).v2 = none :=
  (count_ui_no_v2_cases outside h line).1

end SnapshotAccumulator

end ottto_service.accumulator
