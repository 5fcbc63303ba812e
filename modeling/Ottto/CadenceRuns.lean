-- Runs of a source's cadence (adaptive_collector.rs): the clock of its ordinary scans, and how busy
-- the continuation pages of a paused job can keep the thread.
import Ottto.Cadence

namespace ottto_service.adaptive_collector

open List

def remaining_after (interval : Duration) (elapsed : Option Duration) : Duration :=
  match elapsed with
  | some elapsed => if interval ≤ elapsed then 0 else interval - elapsed
  | none => 0

theorem remaining_none {interval elapsed : Nat} (h : interval ≤ elapsed) :
    remaining_after interval (some elapsed) = 0 := if_pos h

theorem remaining_pos {interval elapsed : Nat} (h : elapsed < interval) :
    0 < remaining_after interval (some elapsed) := by
  rw [remaining_after, if_neg (not_le.mpr h)]
  exact Nat.sub_pos_of_lt h

namespace SourceCadence

/-- `saturating_duration_since` gives zero for a scan after now. -/
def next_scan_after (self : SourceCadence) (now : Instant) : Duration :=
  if self.disabled then self.config.cold_interval
  else remaining_after self.ordinary_interval (self.last_scan_at.map (fun last_scan => now - last_scan))

/-! ## Runs -/

inductive Call
  | set_server_min_interval (interval : Option Duration)
  | set_disabled (disabled : Bool)
  | record_file_event (now : Instant)
  | record_backend_hint (now : Instant) (record_count_15m : UInt64)
      (last_data_is_newer_than_local_success reconciliation_enabled : Bool)
  | record_scan_success (now : Instant) (uploaded_count : UInt64)
  | record_scan_failure (now : Instant)
  | request_continuation (finished_at : Instant) (work : Duration)
  | clear_continuation

namespace Call

def about_continuation : Call → Bool
  | .request_continuation _ _ | .clear_continuation => true
  | _ => false

def is_scan : Call → Bool
  | .record_scan_success _ _ | .record_scan_failure _ => true
  | _ => false

/-- The minimum interval that the call asks for. -/
def directive : Call → Option Duration
  | .set_server_min_interval interval => interval
  | _ => none

end Call

def call (self : SourceCadence) : Call → SourceCadence
  | .set_server_min_interval interval => self.set_server_min_interval interval
  | .set_disabled disabled => self.set_disabled disabled
  | .record_file_event now => self.record_file_event now
  | .record_backend_hint now count newer enabled => self.record_backend_hint now count newer enabled
  | .record_scan_success now uploaded => self.record_scan_success now uploaded
  | .record_scan_failure now => self.record_scan_failure now
  | .request_continuation finished_at work => (self.request_continuation finished_at work).1
  | .clear_continuation => self.clear_continuation

def run (self : SourceCadence) (calls : List Call) : SourceCadence := calls.foldl call self

variable {self : SourceCadence} {c : Call}

/-! ## What one call keeps -/

theorem call_ordinary (h : c.about_continuation = false) :
    (self.call c).clear_continuation = self.clear_continuation.call c := by
  cases c with
  | request_continuation => cases h
  | clear_continuation => cases h
  | set_server_min_interval => rfl
  | set_disabled disabled =>
    simp only [call, set_disabled, clear_continuation]
    cases disabled <;> by_cases hstate : self.state = .Disabled <;> simp [hstate]
  | record_file_event now =>
    simp only [call, record_file_event, clear_continuation]
    by_cases hoff : self.disabled = true <;> simp [hoff]
  | record_backend_hint now count newer enabled =>
    simp only [call, record_backend_hint, set_disabled, clear_continuation]
    by_cases hstate : self.state = .Disabled <;> by_cases hnew : 0 < count ∨ newer = true <;>
      cases enabled <;> simp [hstate, hnew]
  | record_scan_success now uploaded =>
    simp only [call, record_scan_success, clear_continuation]
    by_cases hoff : self.disabled = true <;> by_cases hup : 0 < uploaded <;>
      simp only [hoff, hup, if_true, if_false, Bool.false_eq_true]
    split_ifs <;> first | rfl | contradiction
  | record_scan_failure now =>
    simp only [call, record_scan_failure, clear_continuation]
    by_cases hoff : self.disabled = true <;> simp [hoff]

theorem call_continuation (h : c.about_continuation = true) :
    (self.call c).clear_continuation = self.clear_continuation := by
  cases c <;> first | rfl | cases h

/-- A call that is no scan leaves the anchor and the configuration. -/
theorem call_anchor (h : c.is_scan = false) :
    (self.call c).last_scan_at = self.last_scan_at ∧ (self.call c).config = self.config ∧
      ((self.call c).server_min_interval = self.server_min_interval ∨
        (self.call c).server_min_interval = c.directive) := by
  cases c with
  | record_scan_success => cases h
  | record_scan_failure => cases h
  | set_server_min_interval => exact ⟨rfl, rfl, .inr rfl⟩
  | request_continuation => exact ⟨rfl, rfl, .inl rfl⟩
  | clear_continuation => exact ⟨rfl, rfl, .inl rfl⟩
  | set_disabled disabled =>
    simp only [call, set_disabled]
    split_ifs <;> exact ⟨rfl, rfl, .inl rfl⟩
  | record_file_event now =>
    simp only [call, record_file_event]
    split_ifs <;> exact ⟨rfl, rfl, .inl rfl⟩
  | record_backend_hint now count newer enabled =>
    simp only [call, record_backend_hint, set_disabled]
    split_ifs <;> exact ⟨rfl, rfl, .inl rfl⟩

/-- Only the calls about a continuation change the pending one. -/
theorem call_pending (h : c.about_continuation = false) :
    (self.call c).continuation = self.continuation := by
  cases c with
  | request_continuation => cases h
  | clear_continuation => cases h
  | set_server_min_interval => rfl
  | set_disabled disabled =>
    simp only [call, set_disabled]
    split_ifs <;> rfl
  | record_file_event now =>
    simp only [call, record_file_event]
    split_ifs <;> rfl
  | record_backend_hint now count newer enabled =>
    simp only [call, record_backend_hint, set_disabled]
    split_ifs <;> rfl
  | record_scan_success now uploaded =>
    simp only [call, record_scan_success]
    split_ifs <;> rfl
  | record_scan_failure now =>
    simp only [call, record_scan_failure]
    split_ifs <;> rfl

/-! ## What a run keeps -/

theorem run_ordinary (calls : List Call) : (self.run calls).clear_continuation =
    self.clear_continuation.run (calls.filter (fun c => !c.about_continuation)) := by
  induction calls generalizing self with
  | nil => rfl
  | cons c calls ih =>
    rw [run, foldl_cons, ← run, ih]
    cases h : c.about_continuation with
    | true => rw [filter_cons_of_neg (by simp [h]), call_continuation h]
    | false =>
      rw [filter_cons_of_pos (by simp [h]), call_ordinary h]
      rfl

theorem run_pending (calls : List Call) (h : ∀ c ∈ calls, c.about_continuation = false) :
    (self.run calls).continuation = self.continuation := by
  induction calls generalizing self with
  | nil => rfl
  | cons c calls ih =>
    rw [run, foldl_cons, ← run, ih fun other hother => h other (mem_cons_of_mem c hother),
      call_pending (h c mem_cons_self)]

/-- Every interval that the ordinary cadence can ask for is at most `bound`. -/
structure Bounded (self : SourceCadence) (bound : Duration) : Prop where
  hot : self.config.hot_min_interval ≤ bound
  warm : self.config.warm_interval ≤ bound
  idle : self.config.idle_interval ≤ bound
  cold : self.config.cold_interval ≤ bound
  failing : ∀ backoff ∈ self.config.failure_backoffs, backoff ≤ bound
  requested : ∀ interval, self.server_min_interval = some interval → interval ≤ bound

theorem Bounded.call {bound : Duration} (h : self.Bounded bound) (hscan : c.is_scan = false)
    (hdirective : ∀ interval, c.directive = some interval → interval ≤ bound) :
    (self.call c).Bounded bound := by
  obtain ⟨hhot, hwarm, hidle, hcold, hfailing, hrequested⟩ := h
  obtain ⟨-, hconfig, hserver⟩ := @call_anchor self c hscan
  refine ⟨hconfig ▸ hhot, hconfig ▸ hwarm, hconfig ▸ hidle, hconfig ▸ hcold, hconfig ▸ hfailing, ?_⟩
  intro interval hinterval
  rcases hserver with hserver | hserver
  · exact hrequested interval (hserver.symm.trans hinterval)
  · exact hdirective interval (hserver.symm.trans hinterval)

theorem run_anchor {bound : Duration} (calls : List Call) (h : self.Bounded bound)
    (hscans : ∀ c ∈ calls, c.is_scan = false)
    (hdirectives : ∀ c ∈ calls, ∀ interval, c.directive = some interval → interval ≤ bound) :
    (self.run calls).last_scan_at = self.last_scan_at ∧ (self.run calls).Bounded bound := by
  induction calls generalizing self with
  | nil => exact ⟨rfl, h⟩
  | cons c calls ih =>
    have hrest := ih (h.call (hscans c mem_cons_self) (hdirectives c mem_cons_self))
      (fun other hother => hscans other (mem_cons_of_mem c hother))
      (fun other hother => hdirectives other (mem_cons_of_mem c hother))
    rw [run, foldl_cons, ← run]
    exact ⟨hrest.1.trans (call_anchor (hscans c mem_cons_self)).1, hrest.2⟩

theorem Bounded.ordinary_interval {bound : Duration} (h : self.Bounded bound) :
    self.ordinary_interval ≤ bound := by
  obtain ⟨hhot, hwarm, hidle, hcold, hfailing, hrequested⟩ := h
  have hbackoff : self.failure_backoff ≤ bound := by
    unfold failure_backoff
    split
    · exact hfailing _ (head_mem self.config.some_backoff)
    · cases hget : self.config.failure_backoffs[self.consecutive_failures - 1]? with
      | none => exact hfailing _ (getLast_mem self.config.some_backoff)
      | some backoff => exact hfailing backoff (mem_of_getElem? hget)
  have htier : self.tier ≤ bound := by
    unfold tier
    split <;> assumption
  unfold SourceCadence.ordinary_interval
  split
  · exact hcold
  · cases hserver : self.server_min_interval with
    | none => exact htier
    | some requested => exact max_le htier (hrequested requested hserver)

variable (self)

/-- The ordinary schedule hangs on the last scan alone. Continuation requests never move it; and however
often the server repeats its directives between two scans, an enabled source is due once the longest
interval asked for has passed since the last one, and never before the directive in force has. -/
theorem the_schedule_hangs_on_the_last_scan (calls : List Call) (now : Instant) :
    (self.run calls).next_scan_after now =
        (self.run (calls.filter (fun c => !c.about_continuation))).next_scan_after now ∧
      (self.run calls).state = (self.run (calls.filter (fun c => !c.about_continuation))).state ∧
      ∀ bound last_scan, self.Bounded bound → self.last_scan_at = some last_scan →
        (∀ c ∈ calls, c.is_scan = false) →
        (∀ c ∈ calls, ∀ interval, c.directive = some interval → interval ≤ bound) →
        (self.run calls).disabled = false →
        (last_scan + bound ≤ now → (self.run calls).next_scan_after now = 0) ∧
        ∀ requested, (self.run calls).server_min_interval = some requested → last_scan ≤ now →
          now < last_scan + requested → 0 < (self.run calls).next_scan_after now := by
  have hsame : (self.run calls).clear_continuation =
      (self.run (calls.filter (fun c => !c.about_continuation))).clear_continuation := by
    rw [run_ordinary, run_ordinary, filter_filter]
    simp only [Bool.and_self]
  have hnext := congrArg (fun cadence => cadence.next_scan_after now) hsame
  have hstate := congrArg (fun cadence => cadence.state) hsame
  refine ⟨hnext, hstate, ?_⟩
  intro bound last_scan hbounded hlast hscans hdirectives henabled
  obtain ⟨hanchor, hbounded'⟩ := run_anchor calls hbounded hscans hdirectives
  have hinterval := hbounded'.ordinary_interval
  have hnext : (self.run calls).next_scan_after now =
      remaining_after (self.run calls).ordinary_interval (some (now - last_scan)) := by
    rw [next_scan_after, henabled, hanchor, hlast]
    rfl
  rw [hnext]
  refine ⟨fun hdue => remaining_none (hinterval.trans (Nat.le_sub_of_add_le' hdue)),
    fun requested hserver hle hlt => remaining_pos ?_⟩
  have hrequested : requested ≤ (self.run calls).ordinary_interval := by
    rw [SourceCadence.ordinary_interval, henabled, hserver]
    exact le_max_right _ _
  exact (Nat.sub_lt_left_of_lt_add hle hlt).trans_le hrequested

/-- A source scanned at time zero. -/
def example_cadence : SourceCadence where
  config := .cost_first (from_secs 300)
  state := .Idle
  last_scan_at := some 0

/-- A directive longer than the idle interval holds the scan back past that interval. -/
theorem the_schedule_hangs_on_the_last_scan_of_directive :
    example_cadence.config.idle_interval < from_secs 700 ∧
      0 < (example_cadence.run [.set_server_min_interval (some (from_secs 900))]).next_scan_after
        (from_secs 700) := by
  refine ⟨by decide, ((the_schedule_hangs_on_the_last_scan example_cadence _ (from_secs 700)).2.2
    (from_secs 3600) 0 ⟨?_, ?_, ?_, ?_, ?_, ?_⟩ rfl ?_ ?_ rfl).2 (from_secs 900) rfl ?_ ?_⟩
  all_goals simp [example_cadence, CadenceConfig.cost_first, from_secs, Call.is_scan, Call.directive]

/-! ## How busy the continuation pages are -/

/-- A page, its measured work, and the calls of others before the page after it. -/
structure Page where
  start : Nat
  work : Nat
  between : List Call

def Page.finished_at (page : Page) : Nat := page.start + page.work

/-- Pages of a paused job: each asks for a continuation, and the next starts no sooner than it is due. -/
def Paced (pacing : ContinuationPacing) : SourceCadence → Page → List Page → Prop
  | _, _, [] => True
  | self, page, next :: pages =>
    (∀ c ∈ page.between, c.about_continuation = false) ∧
      (∃ due, (((self.request_continuation page.finished_at page.work).1.run
        page.between).continuation_due pacing) = some due ∧ due ≤ next.start) ∧
      Paced pacing ((self.request_continuation page.finished_at page.work).1.run page.between) next pages

theorem eq_of_checked_mul {duration n product : Nat} (h : checked_mul duration n = some product) :
    product = duration * n := by
  unfold checked_mul at h
  split at h
  · exact (Option.some.inj h).symm
  · cases h

theorem eq_of_checked_add {instant duration sum : Nat} (h : checked_add instant duration = some sum) :
    sum = instant + duration := by
  unfold checked_add at h
  split at h
  · exact (Option.some.inj h).symm
  · cases h

/-- A continuation is due only when its page has been paid for in idle time. -/
theorem due_spec {self : SourceCadence} {pacing : ContinuationPacing} {due : Instant}
    (h : self.continuation_due pacing = some due) :
    ∃ request, self.continuation = some request ∧
      request.finished_at + request.work * pacing.idle_per_work ≤ due := by
  unfold continuation_due at h
  have hon : ¬ self.disabled = true := fun hoff => by
    rw [if_pos hoff] at h
    cases h
  rw [if_neg hon] at h
  simp only [Option.bind_eq_bind, Option.bind_eq_some_iff] at h
  obtain ⟨request, hrequest, last_scan, -, gap, hgap, due', hdue, ordinary_due, -, hbefore⟩ := h
  refine ⟨request, hrequest, ?_⟩
  have hgap := eq_of_checked_mul hgap
  have hdue := eq_of_checked_add hdue
  have heq : due' = due := by
    split at hbefore
    · exact Option.some.inj hbefore
    · cases hbefore
  -- A directive and a backoff only lengthen the gap.
  have hserver : gap ≤ (match self.server_min_interval with
      | some requested => max (max gap pacing.min_gap) requested
      | none => max gap pacing.min_gap) := by
    split
    · exact (le_max_left gap pacing.min_gap).trans (le_max_left _ _)
    · exact le_max_left gap pacing.min_gap
  rw [← heq, hdue, ← hgap]
  refine Nat.add_le_add (le_max_left _ _) ?_
  split
  · exact hserver.trans (le_max_left _ _)
  · exact hserver

/-- However the pages of a paused job and the calls between them fall, all the pages before the last
take together at most one part in `1 + idle_per_work` of the time from the first start to the last. -/
theorem pages_leave_the_thread_idle (pacing : ContinuationPacing) (first : Page) (pages : List Page)
    (h : Paced pacing self first pages) :
    first.start + (1 + pacing.idle_per_work) * (((first :: pages).dropLast.map Page.work).sum) ≤
      ((first :: pages).getLast (cons_ne_nil first pages)).start := by
  induction pages generalizing self first with
  | nil => simp
  | cons next pages ih =>
    obtain ⟨hbetween, ⟨due, hdue, hstart⟩, hrest⟩ := h
    have hsum := ih _ next hrest
    obtain ⟨request, hpending, hpaid⟩ := due_spec hdue
    rw [run_pending first.between hbetween] at hpending
    have hrequest : request = ⟨first.finished_at, first.work⟩ := by
      unfold request_continuation at hpending
      cases hoff : self.disabled with
      | true => simp [hoff] at hpending
      | false => simpa [hoff] using hpending.symm
    subst hrequest
    rw [dropLast_cons_cons, map_cons, sum_cons, getLast_cons_cons]
    have hnext : first.start + first.work + first.work * pacing.idle_per_work ≤ next.start :=
      hpaid.trans hstart
    calc first.start + (1 + pacing.idle_per_work) *
          (first.work + (((next :: pages).dropLast.map Page.work).sum))
        = first.start + first.work + first.work * pacing.idle_per_work +
            (1 + pacing.idle_per_work) * (((next :: pages).dropLast.map Page.work).sum) := by ring
      _ ≤ next.start + (1 + pacing.idle_per_work) * (((next :: pages).dropLast.map Page.work).sum) :=
          Nat.add_le_add_right hnext _
      _ ≤ ((next :: pages).getLast (cons_ne_nil next pages)).start := hsum

/-- A page of one second. -/
def example_page (start : Nat) : Page where
  start := start
  work := from_secs 1
  between := [.set_server_min_interval (some (from_secs 40))]

theorem pages_leave_the_thread_idle_of_two :
    Paced ⟨from_secs 30, 9⟩ example_cadence (example_page 1) [example_page (from_secs 60)] ∧
      1 + (1 + 9) * from_secs 1 ≤ from_secs 60 := by
  have hpaced : Paced ⟨from_secs 30, 9⟩ example_cadence (example_page 1) [example_page (from_secs 60)] :=
    ⟨by simp [example_page, Call.about_continuation], ⟨_, rfl, by decide +kernel⟩, trivial⟩
  exact ⟨hpaced, pages_leave_the_thread_idle example_cadence _ _ _ hpaced⟩

end SourceCadence

end ottto_service.adaptive_collector
