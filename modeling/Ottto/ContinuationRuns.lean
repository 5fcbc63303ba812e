-- Runs of ordinary cycles and continuation pages: a page runs only on the ticket
-- that the last ordinary finish granted, while it lives.
import Ottto.Continuation

namespace ottto_service.continuation

open adaptive_collector Option Bool Shared SourceCadence

variable {Digest Cursor : Type}

/-! ## The runs -/

/-- An ordinary Codex finish: what it mints its ticket from, what changes while it
finishes, and how it ends. -/
structure Finish (Digest Cursor : Type) where
  cursor : Option Cursor
  destination : Digest
  authority : Option Digest
  prepared_at : Option Instant
  changes : List (Change Digest)
  finished : Instant
  finished_ok : Bool

/-- `begin_page` is `run_page` up to its try of the lock, `rest_of_page` the rest:
ordinary cycles, which hold the lock, may fall between them. -/
inductive Event (Digest Cursor : Type) where
  | prepare
  | finish (finish : Finish Digest Cursor)
  | failure
  | settle_cycle (succeeded_with_codex : Bool)
  | discard_retained
  | change (change : Change Digest)
  | begin_page (started ordinary_deadline : Instant) (power : PlatformState)
  | rest_of_page (reads : PageReads Digest Cursor)

/-- `waiting` is the page between its precheck and the lock: its start and its
ordinary deadline. `granted` is the ticket of the last ordinary finish. -/
structure Watched (Digest Cursor : Type) where
  shared : Shared Digest Cursor := {}
  waiting : Option (Instant × Instant) := none
  granted : Option (ContinuationTicket Digest Cursor) := none

def Finish.ticket (self : Finish Digest Cursor) (shared : Shared Digest Cursor) :
    Option (ContinuationTicket Digest Cursor) :=
  ordinary_ticket self.cursor self.destination self.authority
    (shared.cadence.bind (lifetime_from self.prepared_at))

def Finish.apply (self : Finish Digest Cursor) (shared : Shared Digest Cursor) :
    Shared Digest Cursor :=
  (self.changes.foldl Shared.change shared).after_ordinary_codex_page (self.ticket shared)
    self.prepared_at self.finished self.finished_ok

/-- What an event makes of the state, and for a page that ends or calls the port,
its outcome and its call. -/
structure Stepped (Digest Cursor : Type) where
  watched : Watched Digest Cursor
  outcome : Option Outcome := none
  call : Option (PageCall Digest Cursor) := none

def Watched.step [DecidableEq Digest] (w : Watched Digest Cursor) : Event Digest Cursor → Stepped Digest Cursor
  | .prepare | .failure | .discard_retained => { watched := { w with shared := w.shared.clear } }
  | .settle_cycle succeeded => { watched := { w with shared := w.shared.settle_cycle succeeded } }
  | .change change => { watched := { w with shared := w.shared.change change } }
  | .finish finish =>
    { watched := { w with shared := finish.apply w.shared, granted := (finish.apply w.shared).slot } }
  | .begin_page started ordinary_deadline power =>
    match w.waiting with
    | some _ => { watched := w }
    | none =>
      match w.shared.run_page_precheck started power with
      | (shared, some outcome) => { watched := { w with shared }, outcome := some outcome }
      | (shared, none) =>
        { watched := { w with shared, waiting := some (started, ordinary_deadline) } }
  | .rest_of_page reads =>
    match w.waiting with
    | none => { watched := w }
    | some (started, ordinary_deadline) =>
      let (shared, outcome, call) := w.shared.run_page_locked started ordinary_deadline reads
      { watched := { w with shared, waiting := none }, outcome := some outcome, call }

def watch [DecidableEq Digest] (w : Watched Digest Cursor) (e : Event Digest Cursor) :
    Watched Digest Cursor :=
  (w.step e).watched

/-! ## What a step keeps -/

/-- The binding and the lifetime of two tickets agree. -/
structure ContinuationTicket.Same (t u : ContinuationTicket Digest Cursor) : Prop where
  destination : t.destination = u.destination
  authority : t.authority = u.authority
  issued : t.issued = u.issued
  expires : t.expires = u.expires

theorem ContinuationTicket.Same.trans {t u v : ContinuationTicket Digest Cursor} (h : t.Same u)
    (h' : u.Same v) : t.Same v :=
  ⟨h.destination.trans h'.destination, h.authority.trans h'.authority, h.issued.trans h'.issued,
    h.expires.trans h'.expires⟩

def Shared.requested (self : Shared Digest Cursor) : Prop :=
  ∃ cadence request, self.cadence = some cadence ∧ cadence.continuation = some request

/-- Neither a ticket nor a request. -/
structure Shared.Idle (s : Shared Digest Cursor) : Prop where
  slot : s.slot = none
  request : ¬s.requested

/-- Each state of a run: the slot's ticket is the last grant's, and no request stands
without it. -/
structure Lawful (w : Watched Digest Cursor) : Prop where
  slot : ∀ ticket, w.shared.slot = some ticket → ∃ grant, w.granted = some grant ∧ ticket.Same grant
  request : w.shared.slot = none → ¬w.shared.requested

namespace Shared

variable {s : Shared Digest Cursor}

theorem clear_idle (s : Shared Digest Cursor) : s.clear.Idle := by
  refine ⟨rfl, ?_⟩
  rintro ⟨cadence, request, hcadence, hrequest⟩
  obtain ⟨before, -, rfl⟩ := map_eq_some_iff.mp hcadence
  cases hrequest

theorem change_slot (s : Shared Digest Cursor) (c : Change Digest) : (s.change c).slot = s.slot := by
  cases c <;> rfl

/-- No change asks for a continuation. -/
theorem change_requested (s : Shared Digest Cursor) (c : Change Digest) :
    (s.change c).requested → s.requested := by
  have hkept : ∀ f : SourceCadence → SourceCadence, (∀ cadence, (f cadence).continuation = cadence.continuation) →
      ∀ shared : Shared Digest Cursor, shared.cadence = s.cadence.map f → shared.requested → s.requested := by
    rintro f hf shared hshared ⟨cadence, request, hcadence, hrequest⟩
    rw [hshared] at hcadence
    obtain ⟨before, hbefore, rfl⟩ := map_eq_some_iff.mp hcadence
    rw [hf] at hrequest
    exact ⟨before, request, hbefore, hrequest⟩
  have hdisabled : ∀ (disabled : Bool) (cadence : SourceCadence),
      (cadence.set_disabled disabled).continuation = cadence.continuation := by
    intro disabled cadence
    unfold set_disabled
    split_ifs <;> rfl
  cases c with
  | destination d => exact id
  | authority a => exact id
  | upload_backoff r => exact id
  | set_server_min_interval i => exact hkept (·.set_server_min_interval i) (fun _ => rfl) _ rfl
  | set_disabled d => exact hkept (·.set_disabled d) (hdisabled d) _ rfl
  | record_file_event now =>
    refine hkept _ (fun cadence => ?_) _ rfl
    unfold record_file_event
    split_ifs <;> rfl
  | record_backend_hint now records newer enabled =>
    refine hkept _ (fun cadence => ?_) _ rfl
    unfold record_backend_hint
    dsimp only
    split_ifs <;> exact hdisabled _ cadence
  | record_scan_success now uploaded =>
    refine hkept _ (fun cadence => ?_) _ rfl
    unfold record_scan_success
    split_ifs <;> rfl
  | record_scan_failure now =>
    refine hkept _ (fun cadence => ?_) _ rfl
    unfold record_scan_failure
    split_ifs <;> rfl
  | poison =>
    rintro ⟨cadence, request, hcadence, -⟩
    cases hcadence

theorem kept_ticket_eq {ticket : Option (ContinuationTicket Digest Cursor)} {started : Option Instant}
    {finished : Instant} {finished_ok : Bool} {kept : ContinuationTicket Digest Cursor × Duration}
    (h : kept_ticket ticket started finished finished_ok = some kept) : ticket = some kept.1 := by
  unfold kept_ticket at h
  cases finished_ok with
  | false => cases h
  | true =>
    simp only [Bool.not_true, false_eq_true, if_false, bind_eq_bind,
      bind_eq_some_iff] at h
    obtain ⟨granted, hgranted, start, -, work, -, hkept⟩ := h
    split_ifs at hkept
    cases hkept
    exact hgranted

/-- A finish grants its ticket or leaves nothing. -/
theorem after_ordinary_spec (s : Shared Digest Cursor)
    (ticket : Option (ContinuationTicket Digest Cursor)) (started : Option Instant)
    (finished : Instant) (finished_ok : Bool) :
    (s.after_ordinary_codex_page ticket started finished finished_ok).Idle ∨
      ∃ granted, ticket = some granted ∧
        (s.after_ordinary_codex_page ticket started finished finished_ok).slot = some granted := by
  unfold after_ordinary_codex_page
  cases hkept : kept_ticket ticket started finished finished_ok with
  | none => exact .inl (clear_idle s)
  | some kept =>
    dsimp only
    cases s.cadence.map (fun cadence => cadence.request_continuation finished kept.2) with
    | none => exact .inl (clear_idle s)
    | some requested =>
      cases hstands : requested.2 with
      | false =>
        left
        rw [← Prod.eta requested, hstands]
        apply clear_idle
      | true =>
        right
        rw [← Prod.eta requested, hstands]
        exact ⟨kept.1, kept_ticket_eq hkept, rfl⟩

/-- No failure, no backoff, and a request that is due. -/
structure Due (s : Shared Digest Cursor) (now : Instant) : Prop where
  state : ∃ cadence, s.cadence = some cadence ∧ cadence.state ≠ .Failing ∧
    ∃ due, cadence.continuation_due PACING = some due ∧ due ≤ now
  upload_backoff : s.upload_backoff = false

theorem check_due_none {now : Instant} (h : s.check_due now = none) : s.Due now := by
  unfold check_due page_due at h
  cases hcadence : s.cadence with
  | none =>
    rw [hcadence] at h
    cases h
  | some cadence =>
    rw [hcadence] at h
    dsimp only at h
    by_cases hfailing : cadence.state = .Failing
    · rw [if_pos hfailing] at h
      cases h
    · rw [if_neg hfailing] at h
      cases hbackoff : s.upload_backoff with
      | true =>
        rw [hbackoff, if_pos rfl] at h
        cases h
      | false =>
        rw [hbackoff, if_neg Bool.false_ne_true] at h
        cases hdue : cadence.continuation_due PACING with
        | none =>
          rw [hdue] at h
          cases h
        | some due =>
          rw [hdue] at h
          by_cases hnow : due ≤ now
          · exact ⟨⟨cadence, hcadence, hfailing, due, hdue, hnow⟩, hbackoff⟩
          · simp [hnow] at h

theorem check_due_some {now : Instant} {s' : Shared Digest Cursor} {outcome : Outcome}
    (h : s.check_due now = some (s', outcome)) : (s' = s ∧ outcome = .Skipped .NotDue) ∨ s'.Idle := by
  unfold check_due at h
  cases hdue : s.page_due now with
  | error reason =>
    rw [hdue] at h
    cases h
    exact .inr (clear_idle s)
  | ok due =>
    rw [hdue] at h
    cases due with
    | true => cases h
    | false =>
      cases h
      exact .inl ⟨rfl, rfl⟩

theorem precheck_spec (s : Shared Digest Cursor) (started : Instant) (power : PlatformState) :
    (s.run_page_precheck started power).1 = s ∧
      ((s.run_page_precheck started power).2 = none ∨
        (s.run_page_precheck started power).2 = some (.Skipped .NotDue) ∨ s.slot = none) ∨
    (s.run_page_precheck started power).1.Idle := by
  unfold run_page_precheck
  by_cases hslot : s.slot.isNone = true
  · rw [if_pos hslot]
    exact .inl ⟨rfl, .inr (.inr (isNone_iff_eq_none.mp hslot))⟩
  · rw [if_neg hslot]
    cases hdue : s.check_due started with
    | some ended =>
      rcases @check_due_some _ _ s _ ended.1 ended.2 hdue with ⟨hsame, houtcome⟩ | hidle
      · exact .inl ⟨hsame, .inr (.inl (congrArg some houtcome))⟩
      · exact .inr hidle
    | none =>
      split_ifs
      · exact .inr (clear_idle s)
      · exact .inl ⟨rfl, .inl rfl⟩

/-- A pause's ticket is kept, or nothing is. -/
theorem keep_pause_spec (s : Shared Digest Cursor) (next : ContinuationTicket Digest Cursor)
    (started finished : Instant) :
    ((s.keep_pause next started finished).1.slot = some next ∧
      (s.keep_pause next started finished).2 = .Paused) ∨
    (s.keep_pause next started finished).1.Idle := by
  unfold keep_pause
  cases checked_duration_since finished started with
  | none => exact .inr (clear_idle s)
  | some work =>
    dsimp only
    split_ifs
    · cases s.cadence.map (fun cadence => cadence.request_continuation finished work) with
      | none => exact .inr (clear_idle s)
      | some requested =>
        obtain ⟨cadence, stands⟩ := requested
        cases stands with
        | false => exact .inr (clear_idle _)
        | true => exact .inl ⟨rfl, rfl⟩
    · exact .inr (clear_idle s)

variable [DecidableEq Digest]

/-- The ticket of a call, checked under the lock. -/
structure Checked (s : Shared Digest Cursor) (call : PageCall Digest Cursor) : Prop where
  live : call.ticket.issued ≤ call.checked_at ∧ call.checked_at < call.ticket.expires
  authority : s.authority = some call.ticket.authority
  destination : s.destination = some call.ticket.destination

theorem run_ticket_spec (s : Shared Digest Cursor) (ticket : ContinuationTicket Digest Cursor)
    (started ordinary_deadline : Instant) (reads : PageReads Digest Cursor) :
    ((∃ cursor, (s.run_ticket ticket started ordinary_deadline reads).1.slot =
        some { ticket with cursor } ∧
        (s.run_ticket ticket started ordinary_deadline reads).2.1 = .Paused) ∨
      (s.run_ticket ticket started ordinary_deadline reads).1.Idle) ∧
    ∀ call, (s.run_ticket ticket started ordinary_deadline reads).2.2 = some call →
      call.ticket = ticket ∧ call.checked_at = reads.now ∧ s.Checked call := by
  unfold run_ticket
  by_cases hlive : ticket.valid_at reads.now = true
  · by_cases hauthority : s.authority = some ticket.authority
    · by_cases hdestination : s.destination = some ticket.destination
      · by_cases hqos : reads.background_qos = .Allowed
        · by_cases hready : reads.ready = true
          · simp only [hlive, hauthority, hdestination, hqos, hready, Bool.not_true, false_eq_true,
              if_false, ne_eq, not_true_eq_false]
            have hcall : ∀ {deadline : Instant} {ordinary : Option Duration}
                {call : PageCall Digest Cursor},
                some { ticket, checked_at := reads.now, deadline, ordinary } = some call →
                call.ticket = ticket ∧ call.checked_at = reads.now ∧ s.Checked call := by
              intro deadline ordinary call h
              cases h
              exact ⟨rfl, rfl, of_decide_eq_true hlive, hauthority, hdestination⟩
            cases hended : reads.ended.outcome with
            | mk outcome paused =>
              cases paused with
              | none => exact ⟨.inr (clear_idle _), fun call h => hcall h⟩
              | some cursor =>
                refine ⟨?_, fun call h => hcall h⟩
                rcases keep_pause_spec (reads.during.foldl change s) { ticket with cursor } started
                  reads.finished with ⟨hslot, hpaused⟩ | hidle
                · exact .inl ⟨cursor, hslot, hpaused⟩
                · exact .inr hidle
          · simp only [hlive, hauthority, hdestination, hqos, hready, Bool.not_true, false_eq_true,
              if_false, ne_eq, not_true_eq_false, Bool.not_false, if_true]
            exact ⟨.inr (clear_idle s), fun call h => by cases h⟩
        · simp only [hlive, hauthority, hdestination, hqos, Bool.not_true, false_eq_true, if_false,
            ne_eq, not_true_eq_false, not_false_eq_true, if_true]
          exact ⟨.inr (clear_idle s), fun call h => by cases h⟩
      · simp only [hlive, hauthority, hdestination, Bool.not_true, false_eq_true, if_false, ne_eq,
          not_true_eq_false, not_false_eq_true, if_true]
        exact ⟨.inr (clear_idle s), fun call h => by cases h⟩
    · simp only [hlive, hauthority, Bool.not_true, false_eq_true, if_false, ne_eq,
        not_false_eq_true, if_true]
      exact ⟨.inr (clear_idle s), fun call h => by cases h⟩
  · simp only [hlive, Bool.not_false, if_true]
    exact ⟨.inr (clear_idle s), fun call h => by cases h⟩

/-- A page from the lock on: it keeps its ticket's binding and lifetime, leaves
nothing, or changes nothing; and it calls the port on the ticket that stood. -/
theorem locked_spec (s : Shared Digest Cursor) (started ordinary_deadline : Instant)
    (reads : PageReads Digest Cursor) :
    ((∃ ticket kept, s.slot = some ticket ∧
        (s.run_page_locked started ordinary_deadline reads).1.slot = some kept ∧ kept.Same ticket ∧
        (s.run_page_locked started ordinary_deadline reads).2.1 = .Paused) ∨
      ((s.run_page_locked started ordinary_deadline reads).1 = s ∧
        ((s.run_page_locked started ordinary_deadline reads).2.1 = .Skipped .NotDue ∨ s.slot = none)) ∨
      (s.run_page_locked started ordinary_deadline reads).1.Idle) ∧
    ∀ call, (s.run_page_locked started ordinary_deadline reads).2.2 = some call →
      s.slot = some call.ticket ∧ s.Due call.checked_at ∧ s.Checked call := by
  unfold run_page_locked
  by_cases hlock : reads.lock = .WouldBlock
  · rw [if_pos hlock]
    exact ⟨.inr (.inr (clear_idle s)), fun call h => by cases h⟩
  · rw [if_neg hlock]
    cases hslot : s.slot with
    | none => exact ⟨.inr (.inl ⟨rfl, .inr rfl⟩), fun call h => by cases h⟩
    | some ticket =>
      cases hdue : s.check_due reads.now with
      | some ended =>
        refine ⟨.inr ?_, fun call h => by cases h⟩
        rcases @check_due_some _ _ s _ ended.1 ended.2 hdue with ⟨hsame, houtcome⟩ | hidle
        · exact .inl ⟨hsame, .inl houtcome⟩
        · exact .inr hidle
      | none =>
        obtain ⟨hend, hcall⟩ := run_ticket_spec { s with slot := none } ticket started ordinary_deadline
          reads
        constructor
        · rcases hend with ⟨cursor, hkept, hpaused⟩ | hidle
          · exact .inl ⟨ticket, _, rfl, hkept, ⟨rfl, rfl, rfl, rfl⟩, hpaused⟩
          · exact .inr (.inr hidle)
        · intro call h
          obtain ⟨hticket, hnow, hchecked⟩ := hcall call h
          refine ⟨congrArg some hticket.symm, ?_, ⟨hchecked.live, hchecked.authority, hchecked.destination⟩⟩
          rw [hnow]
          exact check_due_none hdue

end Shared

/-! ## Every state of a run -/

variable {w : Watched Digest Cursor}

theorem Shared.Idle.lawful (h : w.shared.Idle) : Lawful w := by
  refine ⟨fun ticket hslot => ?_, fun _ => h.request⟩
  cases h.slot.symm.trans hslot

theorem Lawful.start : Lawful ({} : Watched Digest Cursor) := by
  apply Shared.Idle.lawful
  refine ⟨rfl, ?_⟩
  rintro ⟨cadence, request, hcadence, hrequest⟩
  cases hcadence
  cases hrequest

theorem Lawful.of_same {w' : Watched Digest Cursor} (h : Lawful w) (hgranted : w'.granted = w.granted)
    (hshared : w'.shared = w.shared) : Lawful w' := by
  refine ⟨fun ticket hslot => ?_, fun hslot => ?_⟩
  · rw [hgranted]
    exact h.slot ticket (hshared ▸ hslot)
  · rw [hshared] at hslot ⊢
    exact h.request hslot

variable [DecidableEq Digest]

/-- What the start of a page makes of the state. -/
theorem step_begin_page (w : Watched Digest Cursor) (started ordinary_deadline : Instant)
    (power : PlatformState) :
    (w.step (.begin_page started ordinary_deadline power)).watched.granted = w.granted ∧
    (w.step (.begin_page started ordinary_deadline power)).call = none ∧
    (((w.step (.begin_page started ordinary_deadline power)).watched.shared =
        (w.shared.run_page_precheck started power).1 ∧
      (w.step (.begin_page started ordinary_deadline power)).outcome =
        (w.shared.run_page_precheck started power).2) ∨
    ((w.step (.begin_page started ordinary_deadline power)).watched.shared = w.shared ∧
      (w.step (.begin_page started ordinary_deadline power)).outcome = none)) := by
  unfold Watched.step
  cases w.waiting with
  | some waiting => exact ⟨rfl, rfl, .inr ⟨rfl, rfl⟩⟩
  | none =>
    dsimp only
    cases w.shared.run_page_precheck started power with
    | mk shared outcome => cases outcome <;> exact ⟨rfl, rfl, .inl ⟨rfl, rfl⟩⟩

/-- What the rest of a page makes of the state. -/
theorem step_rest_of_page (w : Watched Digest Cursor) (reads : PageReads Digest Cursor) :
    (w.step (.rest_of_page reads)).watched.granted = w.granted ∧
    ((∃ started ordinary_deadline,
      (w.step (.rest_of_page reads)).watched.shared =
        (w.shared.run_page_locked started ordinary_deadline reads).1 ∧
      (w.step (.rest_of_page reads)).outcome =
        some (w.shared.run_page_locked started ordinary_deadline reads).2.1 ∧
      (w.step (.rest_of_page reads)).call =
        (w.shared.run_page_locked started ordinary_deadline reads).2.2) ∨
    ((w.step (.rest_of_page reads)).watched.shared = w.shared ∧
      (w.step (.rest_of_page reads)).outcome = none ∧ (w.step (.rest_of_page reads)).call = none)) := by
  unfold Watched.step
  cases w.waiting with
  | none => exact ⟨rfl, .inr ⟨rfl, rfl, rfl⟩⟩
  | some waiting => exact ⟨rfl, .inl ⟨waiting.1, waiting.2, rfl, rfl, rfl⟩⟩

/-- One step keeps the law. -/
theorem Lawful.step (h : Lawful w) (e : Event Digest Cursor) : Lawful (watch w e) := by
  unfold watch
  cases e with
  | prepare => exact (clear_idle w.shared).lawful
  | failure => exact (clear_idle w.shared).lawful
  | discard_retained => exact (clear_idle w.shared).lawful
  | settle_cycle succeeded =>
    cases succeeded with
    | true => exact h
    | false => exact (clear_idle w.shared).lawful
  | change c =>
    refine ⟨fun ticket hslot => ?_, fun hslot hrequested => ?_⟩
    · exact h.slot ticket ((change_slot w.shared c).symm.trans hslot)
    · exact h.request ((change_slot w.shared c).symm.trans hslot)
        (change_requested w.shared c hrequested)
  | finish f =>
    rcases after_ordinary_spec (f.changes.foldl Shared.change w.shared) (f.ticket w.shared)
      f.prepared_at f.finished f.finished_ok with hidle | ⟨granted, -, hslot⟩
    · exact Shared.Idle.lawful (w := (w.step (.finish f)).watched) hidle
    · refine ⟨fun ticket hticket => ⟨ticket, hticket, ⟨rfl, rfl, rfl, rfl⟩⟩, fun hnone => ?_⟩
      cases hslot.symm.trans hnone
  | begin_page started ordinary_deadline power =>
    obtain ⟨hgranted, -, ⟨hshared, -⟩ | ⟨hshared, -⟩⟩ := step_begin_page w started ordinary_deadline power
    · rcases precheck_spec w.shared started power with ⟨hsame, -⟩ | hidle
      · exact h.of_same hgranted (hshared.trans hsame)
      · exact Shared.Idle.lawful (by rwa [hshared])
    · exact h.of_same hgranted hshared
  | rest_of_page reads =>
    obtain ⟨hgranted, ⟨started, ordinary_deadline, hshared, -, -⟩ | ⟨hshared, -, -⟩⟩ :=
      step_rest_of_page w reads
    · rcases (locked_spec w.shared started ordinary_deadline reads).1 with
        ⟨ticket, kept, hslot, hkept, hsame, -⟩ | ⟨hsame, -⟩ | hidle
      · obtain ⟨grant, hgrant, hof⟩ := h.slot ticket hslot
        rw [← hshared] at hkept
        refine ⟨fun other hother => ?_, fun hnone => by cases hkept.symm.trans hnone⟩
        cases hkept.symm.trans hother
        exact ⟨grant, hgranted.trans hgrant, hsame.trans hof⟩
      · exact h.of_same hgranted (hshared.trans hsame)
      · exact Shared.Idle.lawful (by rwa [hshared])
    · exact h.of_same hgranted hshared

theorem lawful_run (events : List (Event Digest Cursor)) : Lawful (run watch {} events) :=
  Run.invariant Lawful (fun _ e h => h.step e) .start events

/-- Nothing but an ordinary finish makes a ticket or a request. -/
theorem Shared.Idle.step (h : w.shared.Idle) (e : Event Digest Cursor)
    (hfinish : ∀ f, e = .finish f → (watch w e).shared.slot = none) : (watch w e).shared.Idle := by
  have hlawful := (Shared.Idle.lawful h).step e
  have hnone : (watch w e).shared.slot = none := by
    unfold watch
    cases e with
    | prepare => rfl
    | failure => rfl
    | discard_retained => rfl
    | settle_cycle succeeded =>
      cases succeeded with
      | true => exact h.slot
      | false => rfl
    | change c => exact (change_slot w.shared c).trans h.slot
    | finish f => exact hfinish f rfl
    | begin_page started ordinary_deadline power =>
      obtain ⟨-, -, ⟨hshared, -⟩ | ⟨hshared, -⟩⟩ := step_begin_page w started ordinary_deadline power
      · rcases precheck_spec w.shared started power with ⟨hsame, -⟩ | hidle
        · rw [hshared, hsame]
          exact h.slot
        · rw [hshared]
          exact hidle.slot
      · rw [hshared]
        exact h.slot
    | rest_of_page reads =>
      obtain ⟨-, ⟨started, ordinary_deadline, hshared, -, -⟩ | ⟨hshared, -, -⟩⟩ := step_rest_of_page w reads
      · rw [hshared]
        rcases (locked_spec w.shared started ordinary_deadline reads).1 with
          ⟨ticket, kept, hslot, -, -, -⟩ | ⟨hsame, -⟩ | hidle
        · cases h.slot.symm.trans hslot
        · rw [hsame]
          exact h.slot
        · exact hidle.slot
      · rw [hshared]
        exact h.slot
  exact ⟨hnone, hlawful.request hnone⟩

theorem Shared.Idle.run {rest : List (Event Digest Cursor)} (h : w.shared.Idle)
    (hfinish : ∀ before f after, rest = before ++ .finish f :: after →
      (watch (run watch w before) (.finish f)).shared.slot = none) : (run watch w rest).shared.Idle := by
  induction rest using List.reverseRecOn with
  | nil => exact h
  | append_singleton rest e ih =>
    rw [Run.snoc]
    have hbefore := ih (fun before f after heq => hfinish before f (after ++ [e]) (by rw [heq]; simp))
    refine hbefore.step e (fun f he => ?_)
    rw [he] at hfinish ⊢
    exact hfinish rest f [] rfl

/-! ## The law of continuation pages -/

/-- A page's call is on the last ordinary grant: its ticket has the grant's binding and
lifetime, it lives at the reading it is checked at, the host's destination and
authority are the ticket's, and neither a failure nor a backoff stands. -/
structure LiveGrant (w : Watched Digest Cursor) (call : PageCall Digest Cursor) : Prop where
  grant : ∃ grant, w.granted = some grant ∧ call.ticket.Same grant
  live : call.ticket.issued ≤ call.checked_at ∧ call.checked_at < call.ticket.expires
  destination : w.shared.destination = some call.ticket.destination
  authority : w.shared.authority = some call.ticket.authority
  state : ∃ cadence, w.shared.cadence = some cadence ∧ cadence.state ≠ .Failing
  upload_backoff : w.shared.upload_backoff = false

def Event.is_page : Event Digest Cursor → Bool
  | .begin_page .. | .rest_of_page .. => true
  | _ => false

/-- The ordinary finish that a ticket comes from. -/
theorem finish_grants (w : Watched Digest Cursor) (f : Finish Digest Cursor) :
    (watch w (.finish f)).granted = (watch w (.finish f)).shared.slot ∧
      ∀ granted, (watch w (.finish f)).granted = some granted → f.ticket w.shared = some granted := by
  refine ⟨rfl, fun granted hgranted => ?_⟩
  rcases after_ordinary_spec (f.changes.foldl Shared.change w.shared) (f.ticket w.shared)
    f.prepared_at f.finished f.finished_ok with hidle | ⟨other, hticket, hslot⟩
  · cases hidle.slot.symm.trans hgranted
  · rw [hticket, ← hslot]
    exact hgranted

theorem Lawful.call (h : Lawful w) {e : Event Digest Cursor} {call : PageCall Digest Cursor}
    (hcall : (w.step e).call = some call) : LiveGrant w call := by
  cases e with
  | rest_of_page reads =>
    obtain ⟨-, ⟨started, ordinary_deadline, -, -, hsame⟩ | ⟨-, -, hnone⟩⟩ := step_rest_of_page w reads
    · rw [hsame] at hcall
      obtain ⟨hslot, hdue, hchecked⟩ :=
        (locked_spec w.shared started ordinary_deadline reads).2 call hcall
      obtain ⟨cadence, hcadence, hfailing, -⟩ := hdue.state
      exact ⟨h.slot call.ticket hslot, hchecked.live, hchecked.destination, hchecked.authority,
        ⟨cadence, hcadence, hfailing⟩, hdue.upload_backoff⟩
    · cases hnone.symm.trans hcall
  | begin_page started ordinary_deadline power =>
    cases (step_begin_page w started ordinary_deadline power).2.1.symm.trans hcall
  | _ => cases hcall

/-- A page's end: it keeps the ticket that stood, or the state, or leaves nothing. -/
theorem Lawful.page (h : Lawful w) {e : Event Digest Cursor} (hpage : e.is_page = true) :
    (∀ kept, (watch w e).shared.slot = some kept →
      ∃ ticket, w.shared.slot = some ticket ∧ kept.Same ticket) ∧
    ∀ outcome, (w.step e).outcome = some outcome → outcome ≠ .Paused → outcome ≠ .Skipped .NotDue →
      (watch w e).shared.Idle := by
  have hidle : w.shared.slot = none → (watch w e).shared = w.shared → (watch w e).shared.Idle := by
    intro hslot hsame
    rw [hsame]
    exact ⟨hslot, h.request hslot⟩
  have hsame : (watch w e).shared = w.shared → ∀ kept, (watch w e).shared.slot = some kept →
      ∃ ticket, w.shared.slot = some ticket ∧ kept.Same ticket := by
    intro hsame kept hkept
    rw [hsame] at hkept
    exact ⟨kept, hkept, ⟨rfl, rfl, rfl, rfl⟩⟩
  have hnothing : (watch w e).shared.Idle → ∀ kept, (watch w e).shared.slot = some kept →
      ∃ ticket, w.shared.slot = some ticket ∧ kept.Same ticket := by
    intro hidle kept hkept
    cases hidle.slot.symm.trans hkept
  unfold watch at *
  cases e with
  | begin_page started ordinary_deadline power =>
    obtain ⟨-, -, ⟨hshared, houtcome⟩ | ⟨hshared, houtcome⟩⟩ :=
      step_begin_page w started ordinary_deadline power
    · rcases precheck_spec w.shared started power with ⟨hunmoved, hend⟩ | hended
      · refine ⟨hsame (hshared.trans hunmoved), fun outcome heq _ hdue => ?_⟩
        rw [houtcome] at heq
        rcases hend with hnone | hnotdue | hslot
        · cases hnone.symm.trans heq
        · exact absurd (Option.some.inj (hnotdue.symm.trans heq)).symm hdue
        · exact hidle hslot (hshared.trans hunmoved)
      · rw [← hshared] at hended
        exact ⟨hnothing hended, fun _ _ _ _ => hended⟩
    · exact ⟨hsame hshared, fun outcome heq => by cases houtcome.symm.trans heq⟩
  | rest_of_page reads =>
    obtain ⟨-, ⟨started, ordinary_deadline, hshared, houtcome, -⟩ | ⟨hshared, houtcome, -⟩⟩ :=
      step_rest_of_page w reads
    · rcases (locked_spec w.shared started ordinary_deadline reads).1 with
        ⟨ticket, kept, hslot, hkept, hof, hpaused⟩ | ⟨hunmoved, hend⟩ | hended
      · refine ⟨fun other hother => ?_, fun outcome heq hnot => ?_⟩
        · rw [hshared] at hother
          cases hkept.symm.trans hother
          exact ⟨ticket, hslot, hof⟩
        · rw [houtcome, hpaused] at heq
          exact absurd (Option.some.inj heq).symm hnot
      · refine ⟨hsame (hshared.trans hunmoved), fun outcome heq _ hdue => ?_⟩
        rw [houtcome] at heq
        rcases hend with hnotdue | hslot
        · rw [hnotdue] at heq
          exact absurd (Option.some.inj heq).symm hdue
        · exact hidle hslot (hshared.trans hunmoved)
      · rw [← hshared] at hended
        exact ⟨hnothing hended, fun _ _ _ _ => hended⟩
    · exact ⟨hsame hshared, fun outcome heq => by cases houtcome.symm.trans heq⟩
  | _ => cases hpage

/-- In every run, each page runs on the last ordinary grant while it lives, no page
extends it, and a page that neither paused nor came early leaves nothing until the
next ordinary finish grants a ticket. -/
theorem pages_run_on_a_live_ordinary_grant (before after : List (Event Digest Cursor))
    (e : Event Digest Cursor) :
    (∀ call, ((run watch {} before).step e).call = some call → LiveGrant (run watch {} before) call) ∧
    (∀ f, e = .finish f → ∀ granted, (run watch {} (before ++ [e])).granted = some granted →
      f.ticket (run watch {} before).shared = some granted) ∧
    (e.is_page = true → ∀ kept, (run watch {} (before ++ [e])).shared.slot = some kept →
      ∃ ticket, (run watch {} before).shared.slot = some ticket ∧ kept.Same ticket) ∧
    ∀ outcome, e.is_page = true → ((run watch {} before).step e).outcome = some outcome →
      outcome ≠ .Paused → outcome ≠ .Skipped .NotDue →
      (∀ first f rest, after = first ++ .finish f :: rest →
        (run watch {} (before ++ e :: first ++ [.finish f])).shared.slot = none) →
      (run watch {} (before ++ e :: after)).shared.Idle := by
  have hlawful := lawful_run before
  rw [Run.snoc]
  refine ⟨fun call hcall => hlawful.call hcall, fun f he granted hgranted => ?_,
    fun hpage => (hlawful.page hpage).1, fun outcome hpage houtcome hpaused hdue hfinish => ?_⟩
  · rw [he] at hgranted
    exact (finish_grants (run watch {} before) f).2 granted hgranted
  · rw [Run.append, Run.cons]
    refine Shared.Idle.run ((hlawful.page hpage).2 outcome houtcome hpaused hdue) ?_
    intro first f rest heq
    have hnone := hfinish first f rest heq
    rwa [Run.append, Run.append, Run.cons, Run.cons, Run.nil] at hnone

/-- An ordinary finish that pauses at its first cursor. -/
def example_finish : Finish Nat Nat where
  cursor := some 1
  destination := 7
  authority := some 9
  prepared_at := some (from_secs 0)
  changes := [.record_scan_success (from_secs 2) 1]
  finished := from_secs 2
  finished_ok := true

/-- A page of it, which pauses at the second cursor. -/
def example_reads : PageReads Nat Nat where
  lock := .Free
  now := from_secs 40
  background_qos := .Allowed
  ready := true
  ended := .Paused 2
  during := []
  finished := from_secs 41

/-- The page runs on the grant, and the ticket that it leaves ends with it. -/
example :
    let before := run watch {} [.change (.destination (some 7)), .change (.authority (some 9)),
      .finish example_finish, .begin_page (from_secs 40) (from_secs 60) .Allowed]
    let page := before.step (.rest_of_page example_reads)
    page.call.map (fun call => (call.ticket.cursor, call.deadline)) = some (1, from_secs 60) ∧
      page.watched.shared.slot.map (fun ticket => (ticket.cursor, ticket.expires)) =
        some (2, from_secs 300) := by
  decide

end ottto_service.continuation
