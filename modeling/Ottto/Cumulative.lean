-- Codex sessions that report cumulative totals only (accumulator.rs, usage.rs): what a
-- legacy session publishes is the last total of each run of growing totals.
import Ottto.ClosedTurns
import Ottto.Reconcile

open Words

/-! ## A delta of totals that grow -/

namespace ottto_service.usage

/-- `current - previous.unwrap_or_default()` stays at or above zero. -/
def CostCovers (current previous : Option (BitVec 128)) : Prop :=
  ∀ cost ∈ current, previous.getD 0 ≤ cost

theorem covers_of_monotonic {current previous : Option (BitVec 128)}
    (h : cost_is_monotonic current previous = true) : CostCovers current previous := by
  intro cost hcost
  cases hcost
  cases previous with
  | none => exact Nat.zero_le _
  | some previous => exact of_decide_eq_true h

/-- No subtraction of `delta_from` underflows. -/
structure UsageTotals.Covers (usage previous : UsageTotals) : Prop where
  counters : ∀ c, previous.count c ≤ usage.count c
  total : CostCovers usage.costs.total previous.costs.total
  input : CostCovers usage.costs.input previous.costs.input
  output : CostCovers usage.costs.output previous.costs.output
  cache_read : CostCovers usage.costs.cache_read previous.costs.cache_read
  cache_creation : CostCovers usage.costs.cache_creation previous.costs.cache_creation

namespace UsageTotals

variable {usage previous : UsageTotals}

theorem covers_of_monotonic_after (h : usage.is_monotonic_after previous = true) :
    usage.Covers previous := by
  unfold is_monotonic_after UsageCosts.is_monotonic_after at h
  simp only [Bool.and_eq_true, decide_eq_true_eq] at h
  obtain ⟨⟨⟨⟨⟨⟨⟨⟨h1, h2⟩, h3⟩, h4⟩, h5⟩, h6⟩, h7⟩, h8⟩, ⟨⟨⟨⟨⟨_, _⟩, ht⟩, hi⟩, ho⟩, hr⟩, hc⟩ := h
  refine ⟨?_, covers_of_monotonic ht, covers_of_monotonic hi, covers_of_monotonic ho,
    covers_of_monotonic hr, covers_of_monotonic hc⟩
  intro c
  cases c <;> assumption

theorem delta_from_count (h : usage.Covers previous) (c : Counter) :
    (usage.delta_from previous).count c = usage.count c - previous.count c := by
  have hle := h.counters c
  cases c <;> exact toNat_sub_of_le hle

theorem total_tokens_zero (h : usage.total_tokens = 0) :
    usage.input_tokens.toNat = 0 ∧ usage.output_tokens.toNat = 0 ∧
      usage.cache_read_tokens.toNat = 0 ∧ usage.cache_creation_5m_tokens.toNat = 0 ∧
      usage.cache_creation_1h_tokens.toNat = 0 ∧ usage.unattributed_total_tokens.toNat = 0 := by
  have hsum := congrArg UInt64.toNat h
  unfold total_tokens at hsum
  simp only [saturating_add_toNat, UInt64.toNat_zero] at hsum
  omega

/-- A usage that counts as zero has no tokens; its request count is not read. -/
theorem count_of_is_zero (h : usage.is_zero = true) {c : Counter} (hc : c ≠ .request_count) :
    usage.count c = 0 := by
  unfold is_zero at h
  rw [Bool.and_eq_true, beq_iff_eq, beq_iff_eq] at h
  obtain ⟨h1, h2, h3, h4, h5, h6⟩ := total_tokens_zero h.1
  have h7 := congrArg UInt64.toNat h.2
  cases c <;> first | assumption | exact absurd rfl hc

end UsageTotals

end ottto_service.usage

namespace ottto_service.accumulator

open serde_json json_fields usage codex_counting_version codex_usage_occurrence Option
open Bool OccurrenceReducer SnapshotAccumulator UsageTotals

/-! ## A session of cumulative totals -/

/-- One call with no `last_token_usage`; `note` is what the lines before it leave. -/
structure CumulativeEvent (R : Type) where
  note : Context R → Context R
  model : Option String
  usage : UsageTotals
  usage_event_identity : Option String
  selector : SelectorCapture
  timestamp : Option String
  implicit_request_count : Option UInt64
  effort : Option String

/-- The totals of a session, an exact repeated event left out. -/
def occurrences {R : Type} : Option String → List (CumulativeEvent R) → List UsageTotals
  | _, [] => []
  | last, event :: rest =>
    if event.usage_event_identity.isSome ∧ event.usage_event_identity = last then
      occurrences last rest
    else event.usage :: occurrences (event.usage_event_identity.or last) rest

def grows (previous usage : UsageTotals) : Bool := usage.is_monotonic_after previous

/-- The sum of one counter over the last totals of the runs of growing totals. -/
def epoch_total (c : Counter) (totals : List UsageTotals) : Nat :=
  Run.lasts grows (fun usage => usage.count c) totals

namespace SnapshotAccumulator

variable {R : Type} (outside : Outside R)

def observe_cumulative (self : SnapshotAccumulator R) (event : CumulativeEvent R) :
    SnapshotAccumulator R × Option UsageTotals :=
  { self with toContext := event.note self.toContext }.set_cumulative_usage_with_selector outside
    event.model event.usage none event.usage_event_identity event.selector event.timestamp
    event.implicit_request_count event.effort

def apply_cumulative (self : SnapshotAccumulator R) (event : CumulativeEvent R) :
    SnapshotAccumulator R :=
  (self.observe_cumulative outside event).1

/-- The event has a time, or the session has one for it, and the time has an hour. -/
def bucketable (self : SnapshotAccumulator R) (event : CumulativeEvent R) : Bool :=
  (event.timestamp.or (event.note self.toContext).fallback_bucket_timestamp).any
    (fun time => (activity_bucket_from_timestamp outside.time time).isSome)

/-- Every usage that the session counts is bucketable, and no counter overflows. -/
def Admits (self : SnapshotAccumulator R) : List (CumulativeEvent R) → Prop
  | [] => True
  | event :: rest =>
    (∀ delta ∈ (self.observe_cumulative outside event).2,
      self.bucketable outside event = true ∧ self.accepted_usage_totals.Fits delta) ∧
    (self.apply_cumulative outside event).Admits rest

variable {outside} {self : SnapshotAccumulator R} {event : CumulativeEvent R}

/-! ## One event -/

theorem with_count_count {count : Option UInt64} {delta : UsageTotals} {c : Counter}
    (hc : c ≠ .request_count) : (with_count count delta).count c = delta.count c := by
  unfold with_count
  split
  · rfl
  · cases count with
    | none => rfl
    | some count => cases c <;> first | rfl | exact absurd rfl hc

/-- What an event reads of the session besides its usage. -/
def progress (self : SnapshotAccumulator R) :=
  (self.session_cumulative_usage, self.codex_last_usage_event_identity, self.codex_counting_v2)

/-- With no `last` there is no tuple to repeat. -/
theorem codex_legacy_ui_repeat_none {total delta : UsageTotals} {may_drop : Bool} :
    ∃ kept : SnapshotAccumulator R,
      self.codex_legacy_ui_repeat none total delta may_drop = (kept, false) ∧
        kept.toContext = self.toContext ∧ kept.toLedger = self.toLedger ∧
        kept.progress = self.progress := by
  unfold codex_legacy_ui_repeat
  cases hreducer : self.codex_occurrence with
  | none => exact ⟨self, rfl, rfl, rfl, rfl⟩
  | some reducer =>
    have htuple : reducer.take_ui_tuple none total = ({ reducer with line_ui := none }, none) := by
      unfold take_ui_tuple
      cases reducer.line_ui <;> rfl
    have hgate : ∀ gated : OccurrenceReducer,
        (if may_drop then gated.equal_total_repeat none delta else (gated, false)) =
          (gated, false) := by
      intro gated
      unfold equal_total_repeat
      cases may_drop <;> simp
    dsimp only
    rw [htuple]
    dsimp only
    rw [hgate]
    refine ⟨_, rfl, rfl, rfl, ?_⟩
    unfold progress
    rw [counting_v2_with_occurrence]
    rfl

/-- A placed usage that fits moves every counter of the session. -/
theorem add_usage_with_selector_spec {model : String} {usage : UsageTotals}
    {selector : SelectorCapture} {timestamp effort : Option String} (hzero : usage.is_zero = false)
    {time : String} (htime : timestamp.or self.fallback_bucket_timestamp = some time)
    (hbucket : (activity_bucket_from_timestamp outside.time time).isSome = true)
    (hfits : self.accepted_usage_totals.Fits usage) :
    let added := self.add_usage_with_selector outside (some model) usage selector timestamp effort
    added.accepted_usage_totals = self.accepted_usage_totals.plus usage ∧
      added.progress = self.progress := by
  obtain ⟨⟨bucket, normalized⟩, hplace⟩ := isSome_iff_exists.mp hbucket
  have htime' : timestamp.or (if timestamp.isNone = true then self.fallback_bucket_timestamp
      else none) = some time := by
    cases timestamp <;> exact htime
  have hadd : self.accepted_usage_totals.add usage = some (self.accepted_usage_totals.plus usage) :=
    add_eq_some.mpr ⟨hfits, rfl⟩
  have hplacement : ∀ selected : SelectorCapture, ∃ placement,
      claude_row_placement outside.time outside.selector_digest model self.current_selector
        selected effort timestamp (if timestamp.isNone = true then self.fallback_bucket_timestamp
          else none) = some placement := by
    intro selected
    unfold claude_row_placement
    rw [htime']
    simp only [bind_eq_bind, bind_some, hplace]
    exact ⟨_, rfl⟩
  obtain ⟨placement, hplacement⟩ := hplacement selector
  intro added
  have hadded : added = { self with
      latest_model := some model
      toLedger := self.toLedger.add_placed_usage outside.time
        { model, fell_back := false, placement := some placement } usage effort } := by
    show self.add_usage_with_selector outside (some model) usage selector timestamp effort = _
    unfold add_usage_with_selector place_usage
    rw [hzero]
    simp only [false_eq_true, if_false, isNone_some, some_or, getD_some]
    rw [← hplacement]
    rfl
  rw [hadded]
  refine ⟨?_, rfl⟩
  simp only [Ledger.add_placed_usage, hadd]
  rfl

/-- Whether `usage` is not monotonic after the last total. -/
def resets (self : SnapshotAccumulator R) (usage : UsageTotals) : Bool :=
  match self.session_cumulative_usage with
  | some previous => !usage.is_monotonic_after previous
  | none => false

theorem resets_eq {previous usage : UsageTotals}
    (hprevious : self.session_cumulative_usage = some previous) :
    self.resets usage = !grows previous usage := by
  unfold resets
  rw [hprevious]
  rfl

/-- The event repeats the last one by its identity. -/
def IsRepeat (self : SnapshotAccumulator R) (event : CumulativeEvent R) : Prop :=
  event.usage_event_identity.isSome ∧
    event.usage_event_identity = self.codex_last_usage_event_identity

/-- The session as the lines before an event leave it. -/
def noted_by (self : SnapshotAccumulator R) (event : CumulativeEvent R) : SnapshotAccumulator R :=
  { self with toContext := event.note self.toContext }

theorem admit_repeat {model identity : Option String} {usage : UsageTotals}
    (h : identity.isSome ∧ identity = self.codex_last_usage_event_identity) :
    ∃ kept, self.admit_codex_cumulative_usage model usage identity = (kept, none) ∧
      kept.toLedger = self.toLedger ∧ kept.progress = self.progress := by
  unfold admit_codex_cumulative_usage
  dsimp only
  rw [if_pos h]
  exact ⟨_, rfl, rfl, rfl⟩

theorem admit_occurrence {model identity : Option String} {usage : UsageTotals}
    (h : ¬ (identity.isSome ∧ identity = self.codex_last_usage_event_identity)) :
    ∃ kept resolved, self.admit_codex_cumulative_usage model usage identity =
        (kept, some (resolved, self.session_cumulative_usage, self.resets usage)) ∧
      kept.toLedger = self.toLedger ∧
      kept.fallback_bucket_timestamp = self.fallback_bucket_timestamp ∧
      kept.progress = (some usage, identity.or self.codex_last_usage_event_identity,
        self.codex_counting_v2) := by
  unfold admit_codex_cumulative_usage
  dsimp only
  rw [if_neg h]
  exact ⟨_, _, rfl, rfl, rfl, rfl⟩

/-- A total that `delta_from` is taken of covers the one before it. -/
theorem admitted_covers {model identity : Option String} {usage previous : UsageTotals}
    {kept : SnapshotAccumulator R} {resolved : String}
    (h : self.admit_codex_cumulative_usage model usage identity =
      (kept, some (resolved, some previous, false))) : usage.Covers previous := by
  by_cases hrepeat : identity.isSome ∧ identity = self.codex_last_usage_event_identity
  · obtain ⟨_, hadmitted, -⟩ := @admit_repeat R self model identity usage hrepeat
    rw [hadmitted] at h
    cases h
  · obtain ⟨_, _, hadmitted, -⟩ := @admit_occurrence R self model identity usage hrepeat
    rw [hadmitted, Prod.mk.injEq, Option.some.injEq, Prod.mk.injEq, Prod.mk.injEq] at h
    obtain ⟨-, -, hprevious, hreset⟩ := h
    rw [resets_eq hprevious, not_eq_false'] at hreset
    exact covers_of_monotonic_after hreset

/-- The delta of an event, before its request count is set. -/
def cumulative_delta (self : SnapshotAccumulator R) (usage : UsageTotals) : UsageTotals :=
  match self.session_cumulative_usage with
  | some previous => if self.resets usage then usage else usage.delta_from previous
  | none => usage

/-- An exact repeat leaves the session as it was. -/
theorem observe_repeat (hlegacy : self.codex_counting_v2 = false) (h : self.IsRepeat event) :
    (self.apply_cumulative outside event).toLedger = self.toLedger ∧
      (self.apply_cumulative outside event).progress = self.progress := by
  have hlegacy' : (self.noted_by event).codex_counting_v2 = false := hlegacy
  obtain ⟨kept, hadmitted, hledger, hprogress⟩ :=
    @admit_repeat R (self.noted_by event) event.model event.usage_event_identity event.usage h
  have hobserved : self.observe_cumulative outside event = (kept, none) := by
    show (self.noted_by event).set_cumulative_usage_with_selector outside _ _ _ _ _ _ _ _ = _
    unfold set_cumulative_usage_with_selector decide_codex_legacy_usage
    rw [hlegacy', if_neg Bool.false_ne_true, hadmitted]
  unfold apply_cumulative
  rw [hobserved]
  exact ⟨hledger, hprogress⟩

/-- Any other event becomes the last total, and adds its delta. -/
theorem observe_occurrence (hlegacy : self.codex_counting_v2 = false) (h : ¬ self.IsRepeat event)
    (hadmits : self.Admits outside [event]) {c : Counter} (hc : c ≠ .request_count) :
    (self.apply_cumulative outside event).progress =
        (some event.usage, event.usage_event_identity.or self.codex_last_usage_event_identity,
          false) ∧
      (self.apply_cumulative outside event).accepted_usage_totals.count c =
        self.accepted_usage_totals.count c + (self.cumulative_delta event.usage).count c := by
  have hlegacy' : (self.noted_by event).codex_counting_v2 = false := hlegacy
  obtain ⟨kept, resolved, hadmitted, hledger, hfallback, hprogress⟩ :=
    @admit_occurrence R (self.noted_by event) event.model event.usage_event_identity event.usage h
  have hprogress : kept.progress = (some event.usage,
      event.usage_event_identity.or self.codex_last_usage_event_identity, false) := by
    rw [hprogress, hlegacy']
    rfl
  let delta := codex_legacy_delta event.usage none self.session_cumulative_usage
    (self.resets event.usage) event.implicit_request_count
  have hdelta : delta.count c = (self.cumulative_delta event.usage).count c := by
    refine (with_count_count hc).trans ?_
    unfold cumulative_delta
    cases self.session_cumulative_usage <;> rfl
  obtain ⟨repeated, hrepeat, hcontext, hrepeat_ledger, hrepeat_progress⟩ :=
    @codex_legacy_ui_repeat_none R kept event.usage delta (dated_on_or_after outside.time
      event.timestamp CODEX_LEGACY_REPEAT_FROM_UNIX_SECONDS)
  have hadmitted : (self.noted_by event).admit_codex_cumulative_usage event.model event.usage
      event.usage_event_identity = (kept, some (resolved, self.session_cumulative_usage,
        self.resets event.usage)) := hadmitted
  by_cases hzero : delta.is_zero = true
  · have hobserved : self.observe_cumulative outside event = (kept, none) := by
      show (self.noted_by event).set_cumulative_usage_with_selector outside _ _ _ _ _ _ _ _ = _
      unfold set_cumulative_usage_with_selector decide_codex_legacy_usage
      rw [hlegacy', if_neg Bool.false_ne_true, hadmitted]
      dsimp only
      rw [if_pos hzero]
    unfold apply_cumulative
    rw [hobserved]
    refine ⟨hprogress, ?_⟩
    rw [← hdelta, count_of_is_zero hzero hc, Nat.add_zero]
    exact congrArg (fun ledger => ledger.accepted_usage_totals.count c) hledger
  · have hobserved : self.observe_cumulative outside event =
        (repeated.add_usage_with_selector outside (some resolved) delta event.selector
          event.timestamp event.effort, some delta) := by
      show (self.noted_by event).set_cumulative_usage_with_selector outside _ _ _ _ _ _ _ _ = _
      unfold set_cumulative_usage_with_selector decide_codex_legacy_usage
      rw [hlegacy', if_neg Bool.false_ne_true, hadmitted]
      dsimp only
      rw [if_neg hzero, hrepeat]
    have hrepeated : repeated.toLedger = self.toLedger := hrepeat_ledger.trans hledger
    obtain ⟨hbucketable, hfits⟩ := hadmits.1 delta (congrArg Prod.snd hobserved)
    simp only [bucketable, any_eq_true] at hbucketable
    obtain ⟨time, htime, hbucket⟩ := hbucketable
    have htime : event.timestamp.or repeated.fallback_bucket_timestamp = some time := by
      rw [hcontext, hfallback]
      exact htime
    obtain ⟨htotals, hadded⟩ := @add_usage_with_selector_spec R outside repeated resolved delta
      event.selector event.timestamp event.effort (not_eq_true _ ▸ hzero) time htime hbucket
      (hrepeated ▸ hfits)
    unfold apply_cumulative
    rw [hobserved]
    refine ⟨hadded.trans (hrepeat_progress.trans hprogress), ?_⟩
    rw [htotals, hrepeated, plus_count hfits, hdelta]

/-! ## A run of events -/

/-- With the last total added back, a delta is the new total and the runs it ends. -/
theorem cumulative_delta_count {usage : UsageTotals} {rest : List UsageTotals} {c : Counter} :
    (self.cumulative_delta usage).count c +
        self.session_cumulative_usage.elim 0 (fun previous => previous.count c) +
        epoch_total c (usage :: rest) =
      usage.count c + epoch_total c (self.session_cumulative_usage.toList ++ usage :: rest) := by
  unfold cumulative_delta
  cases hprevious : self.session_cumulative_usage with
  | none => rfl
  | some previous =>
    dsimp only [elim_some, toList_some, List.singleton_append]
    unfold epoch_total
    rw [resets_eq hprevious]
    cases hgrows : grows previous usage with
    | false =>
      rw [Bool.not_false, if_pos rfl, Run.lasts_of_break hgrows]
      omega
    | true =>
      have hcovers := covers_of_monotonic_after hgrows
      have hle := hcovers.counters c
      rw [Bool.not_true, if_neg Bool.false_ne_true, Run.lasts_of_related hgrows,
        delta_from_count hcovers]
      omega

theorem occurrences_repeat {rest : List (CumulativeEvent R)} (h : self.IsRepeat event) :
    occurrences self.codex_last_usage_event_identity (event :: rest) =
      occurrences self.codex_last_usage_event_identity rest :=
  if_pos h

theorem occurrences_cons {rest : List (CumulativeEvent R)} (h : ¬ self.IsRepeat event) :
    occurrences self.codex_last_usage_event_identity (event :: rest) = event.usage ::
      occurrences (event.usage_event_identity.or self.codex_last_usage_event_identity) rest :=
  if_neg h

/-- What a session publishes telescopes to the last totals of its runs. -/
theorem run_counts {c : Counter} (hc : c ≠ .request_count) (events : List (CumulativeEvent R)) :
    ∀ {self : SnapshotAccumulator R}, self.codex_counting_v2 = false → self.Admits outside events →
      (run (apply_cumulative outside) self events).accepted_usage_totals.count c +
          self.session_cumulative_usage.elim 0 (fun previous => previous.count c) =
        self.accepted_usage_totals.count c + epoch_total c (self.session_cumulative_usage.toList ++
          occurrences self.codex_last_usage_event_identity events) := by
  induction events with
  | nil =>
    intro self _ _
    cases self.session_cumulative_usage <;> simp [epoch_total, occurrences]
  | cons event rest ih =>
    intro self hlegacy hadmits
    rw [Run.cons]
    by_cases hrepeat : self.IsRepeat event
    · obtain ⟨hledger, hprogress⟩ := @observe_repeat R outside self event hlegacy hrepeat
      obtain ⟨hsession, hidentity, hversion⟩ : _ ∧ _ ∧ _ := by
        simpa only [progress, Prod.mk.injEq] using hprogress
      have hrest := ih (hversion.trans hlegacy) hadmits.2
      rw [hsession, hidentity, hledger] at hrest
      rw [hrest, occurrences_repeat hrepeat]
    · obtain ⟨hprogress, hcount⟩ :=
        @observe_occurrence R outside self event hlegacy hrepeat ⟨hadmits.1, trivial⟩ c hc
      obtain ⟨hsession, hidentity, hversion⟩ : _ ∧ _ ∧ _ := by
        simpa only [progress, Prod.mk.injEq] using hprogress
      have hrest := ih hversion hadmits.2
      rw [hsession, hidentity, hcount] at hrest
      have hdelta := @cumulative_delta_count R self event.usage
        (occurrences (event.usage_event_identity.or self.codex_last_usage_event_identity) rest) c
      rw [occurrences_cons hrepeat]
      dsimp only [elim_some, toList_some, List.singleton_append] at hrest
      omega

/-- The rows of a legacy session stay reconciled with its totals. -/
theorem reconciled_apply_cumulative
    (h : self.codex_counting_v2 = false ∧ self.toLedger.Reconciled) (event : CumulativeEvent R) :
    (self.apply_cumulative outside event).codex_counting_v2 = false ∧
      (self.apply_cumulative outside event).toLedger.Reconciled := by
  have hlegacy : (self.noted_by event).codex_counting_v2 = false := h.1
  obtain ⟨hledger, hversion⟩ := decide_codex_legacy_usage_frame outside (self.noted_by event)
    event.model event.usage none event.usage_event_identity event.timestamp
    event.implicit_request_count
  show ((self.noted_by event).set_cumulative_usage_with_selector outside event.model event.usage
      none event.usage_event_identity event.selector event.timestamp event.implicit_request_count
      event.effort).1.codex_counting_v2 = false ∧
    ((self.noted_by event).set_cumulative_usage_with_selector outside event.model event.usage
      none event.usage_event_identity event.selector event.timestamp event.implicit_request_count
      event.effort).1.toLedger.Reconciled
  unfold set_cumulative_usage_with_selector
  rw [hlegacy, if_neg Bool.false_ne_true]
  split
  · rename_i kept hdecided
    rw [hdecided] at hledger hversion
    exact ⟨hversion.trans hlegacy, hledger ▸ h.2⟩
  · rename_i kept resolved delta hdecided
    rw [hdecided] at hledger hversion
    have hkept : kept.toLedger.Reconciled := hledger ▸ h.2
    refine ⟨(counting_v2_congr (add_usage_counting outside kept _ _ _ _ _)).trans
      (hversion.trans hlegacy), ?_⟩
    rw [add_usage_toLedger]
    unfold Context.published
    split
    · exact hkept
    · exact Ledger.reconciled_add_placed _ hkept _ _ _

end SnapshotAccumulator

/-- In a legacy session of cumulative totals no delta underflows, and what is published of
each token counter is the sum of the last totals of the runs of growing totals. -/
theorem cumulative_counting_telescopes {R : Type} (outside : Outside R) (context : Context R)
    (counting : Option CodexCounting) (events : List (CumulativeEvent R))
    (hlegacy : (SnapshotAccumulator.fresh context counting).codex_counting_v2 = false)
    (hadmits : (SnapshotAccumulator.fresh context counting).Admits outside events) :
    (∀ before event after, events = before ++ event :: after →
      ∀ kept resolved previous, ((run (apply_cumulative outside)
          (SnapshotAccumulator.fresh context counting) before).noted_by
            event).admit_codex_cumulative_usage event.model event.usage
            event.usage_event_identity = (kept, some (resolved, some previous, false)) →
        event.usage.Covers previous) ∧
    ∀ c, c ≠ .request_count →
      let published := run (apply_cumulative outside)
        (SnapshotAccumulator.fresh context counting) events
      published.counted c = epoch_total c (occurrences none events) ∧
        published.accepted_usage_totals.count c = epoch_total c (occurrences none events) := by
  constructor
  · intro before event after _ kept resolved previous hadmitted
    exact admitted_covers hadmitted
  · intro c hc published
    have htotal : published.accepted_usage_totals.count c =
        epoch_total c (occurrences none events) := by
      have hcounts := run_counts hc events hlegacy hadmits
      have hzero : (SnapshotAccumulator.fresh context counting).accepted_usage_totals.count c = 0 :=
        default_count c
      rw [hzero, Nat.zero_add] at hcounts
      exact hcounts
    have hrows := Run.invariant (fun self : SnapshotAccumulator R =>
        self.codex_counting_v2 = false ∧ self.toLedger.Reconciled)
      (fun _ event h => @SnapshotAccumulator.reconciled_apply_cumulative R outside _ h event)
      ⟨hlegacy, Ledger.reconciled_empty⟩ events
    exact ⟨(hrows.2 c).symm.trans htotal, htotal⟩

def exampleTotal (input : UInt64) (identity : String) : CumulativeEvent Unit where
  note := id
  model := some "gpt-5"
  usage := { input_tokens := input, request_count := 1 }
  usage_event_identity := some identity
  selector := {}
  timestamp := some exampleHalf
  implicit_request_count := some 1
  effort := none

-- 100 grows to 150, which is repeated, and restarts at 30.
theorem a_restarted_session_counts_both_runs :
    (run (apply_cumulative exampleOutside) (.fresh {} none)
      [exampleTotal 100 "a", exampleTotal 150 "b", exampleTotal 150 "b",
        exampleTotal 30 "c"]).counted .input_tokens = 180 := by
  refine ((cumulative_counting_telescopes exampleOutside {} none
    [exampleTotal 100 "a", exampleTotal 150 "b", exampleTotal 150 "b", exampleTotal 30 "c"] rfl
    ⟨?_, ?_, ?_, ?_, trivial⟩).2 .input_tokens (by decide)).1.trans ?_
  all_goals decide

end ottto_service.accumulator
