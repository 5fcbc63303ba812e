-- The batch loop of an upload ends (snapshot_sync.rs): each turn leaves less work, each call
-- is paid for by a body that leaves the queue, by a split or by a resend, and what a call
-- has closed never comes back.
import Ottto.PackingPass
import Ottto.UploadLoop

namespace ottto_service.snapshot_sync

open List Option UploadLoop

namespace UploadLoop

/-! ## What is left to do -/

/-- The fingerprints that are queued, batch by batch. -/
def queue (s : UploadLoop) : List String :=
  s.batches.flatMap (fun batch => fingerprints_of batch.1)

def splits_left (s : UploadLoop) : Nat := SNAPSHOT_ADAPTIVE_SPLIT_LIMIT - s.adaptive_splits

def resends_left (s : UploadLoop) : Nat := SNAPSHOT_INPLACE_RETRY_LIMIT - s.inplace_retry.resends

/-- What pays for a call: a queued body, a split or a resend. -/
def room (s : UploadLoop) : Nat := s.queue.length + s.splits_left + s.resends_left

/-- A split adds a batch, and pays for it twice. -/
def work (s : UploadLoop) : Nat :=
  s.queue.length + s.batches.length + 2 * s.splits_left + s.resends_left

/-- A later call does not send what an earlier one closed. -/
def Apart (earlier later : Call) : Prop := ∀ fp ∈ earlier.closed, fp ∉ later.sent

/-- The invariant: nothing is queued twice, and nothing that is closed is queued. -/
structure Sound (s : UploadLoop) : Prop where
  queued_once : s.queue.Nodup
  apart : s.calls.Pairwise Apart
  closed : ∀ call ∈ s.calls, ∀ fp ∈ call.closed, fp ∉ s.queue

/-! ## A failed attempt -/

/-- The next turn finds less to do, once `page` is out of the queue of `s`. -/
structure Goes (s : UploadLoop) (page : List Body) (next : UploadLoop) : Prop where
  queue : next.queue.Sublist (fingerprints_of page ++ s.queue)
  calls : next.calls = s.calls ∨ ∃ closed, next.calls = s.calls ++ [⟨fingerprints_of page, closed⟩] ∧
    ∀ fp ∈ closed, fp ∉ next.queue
  paid : next.calls.length + next.room ≤ s.calls.length + page.length + s.room
  less : next.work ≤ page.length + s.work

/-- The loop ends with at most one more call. -/
def Ends (s : UploadLoop) (page : List Body) (next : UploadLoop) : Prop :=
  next.calls = s.calls ∨ next.calls = s.calls ++ [⟨fingerprints_of page, []⟩]

/-- What an arm makes of a page. -/
def Takes (s : UploadLoop) (page : List Body) : UploadLoop × Option ResumableUploadResult → Prop
  | (next, none) => Goes s page next
  | (next, some _) => Ends s page next

section

variable {s : UploadLoop} {page : List Body}

@[simp] theorem close_queue (called : Bool) (closed : List Body) :
    (s.close called page closed).queue = s.queue := by
  unfold close
  split <;> rfl

@[simp] theorem close_room (called : Bool) (closed : List Body) :
    (s.close called page closed).room = s.room := by
  unfold close
  split <;> rfl

@[simp] theorem close_work (called : Bool) (closed : List Body) :
    (s.close called page closed).work = s.work := by
  unfold close
  split <;> rfl

theorem close_calls (s : UploadLoop) (page : List Body) (called : Bool) (closed : List Body) :
    (s.close called page closed).calls = s.calls ∨
      (s.close called page closed).calls =
        s.calls ++ [⟨fingerprints_of page, fingerprints_of closed⟩] := by
  unfold close
  cases called with
  | false => exact .inl rfl
  | true => exact .inr rfl

theorem close_length (s : UploadLoop) (page : List Body) (called : Bool) (closed : List Body) :
    (s.close called page closed).calls.length ≤ s.calls.length + 1 := by
  rcases close_calls s page called closed with h | h
  · simp [h]
  · simp [h]

theorem Ends.close (called : Bool) : Ends s page (s.close called page []) :=
  close_calls s page called []

@[simp] theorem push_front_calls (adaptive : Bool) : (s.push_front page adaptive).calls = s.calls := by
  unfold push_front
  split <;> rfl

@[simp] theorem push_front_queue (adaptive : Bool) :
    (s.push_front page adaptive).queue = fingerprints_of page ++ s.queue := by
  unfold push_front
  split
  case isTrue h => simp [isEmpty_iff.mp h, fingerprints_of]
  case isFalse => rfl

theorem push_front_batches (s : UploadLoop) (page : List Body) (adaptive : Bool) :
    (s.push_front page adaptive).batches.length ≤ s.batches.length + 1 := by
  unfold push_front
  split
  · omega
  · exact Nat.le_refl _

@[simp] theorem push_front_splits (adaptive : Bool) :
    (s.push_front page adaptive).splits_left = s.splits_left := by
  unfold push_front
  split <;> rfl

@[simp] theorem push_front_resends (adaptive : Bool) :
    (s.push_front page adaptive).resends_left = s.resends_left := by
  unfold push_front
  split <;> rfl

theorem fingerprints_length (page : List Body) : (fingerprints_of page).length = page.length :=
  length_map _

/-- Nothing of it differs but what the ledger and the counters say. -/
structure Same (s t : UploadLoop) : Prop where
  batches : t.batches = s.batches
  splits : t.adaptive_splits = s.adaptive_splits
  resends : t.inplace_retry = s.inplace_retry
  calls : t.calls = s.calls

variable {t : UploadLoop}

theorem Same.queue (same : Same s t) : t.queue = s.queue := by
  rw [UploadLoop.queue, same.batches, UploadLoop.queue]

theorem Same.splits_left (same : Same s t) : t.splits_left = s.splits_left := by
  rw [UploadLoop.splits_left, same.splits, UploadLoop.splits_left]

theorem Same.resends_left (same : Same s t) : t.resends_left = s.resends_left := by
  rw [UploadLoop.resends_left, same.resends, UploadLoop.resends_left]

theorem Same.room {t : UploadLoop} (same : Same s t) : t.room = s.room := by
  rw [UploadLoop.room, same.queue, same.splits_left, same.resends_left, UploadLoop.room]

theorem Same.work {t : UploadLoop} (same : Same s t) : t.work = s.work := by
  rw [UploadLoop.work, same.queue, same.batches, same.splits_left, same.resends_left,
    UploadLoop.work]

/-- Some bodies of the page are closed, and the others go back. -/
theorem Goes.of_rest {rest closed : List Body} (same : Same s t)
    (called adaptive : Bool) (hnodup : (fingerprints_of page ++ s.queue).Nodup)
    (hrest : rest.Sublist page)
    (hclosed : ∀ b ∈ closed, b ∈ page ∧ b.fingerprint ∉ fingerprints_of rest)
    (hless : rest.length < page.length) :
    Goes s page ((t.push_front rest adaptive).close called page closed) := by
  have hbatches := push_front_batches t rest adaptive
  have hcalls := close_calls (t.push_front rest adaptive) page called closed
  have hlength := close_length (t.push_front rest adaptive) page called closed
  rw [push_front_calls, same.calls] at hcalls hlength
  rw [same.batches] at hbatches
  constructor
  · rw [close_queue, push_front_queue, same.queue]
    exact .append_right (hrest.map Body.fingerprint) _
  · rcases hcalls with h | h
    · exact .inl h
    · refine .inr ⟨_, h, ?_⟩
      intro fp hfp
      obtain ⟨b, hb, rfl⟩ := mem_map.mp hfp
      obtain ⟨hin, hout⟩ := hclosed b hb
      have hdisjoint := (nodup_append.mp hnodup).2.2 b.fingerprint (mem_map_of_mem hin)
      rw [close_queue, push_front_queue, same.queue, mem_append]
      rintro (hfp | hfp)
      · exact hout hfp
      · exact hdisjoint b.fingerprint hfp rfl
  · rw [close_room, room, push_front_queue, push_front_splits, push_front_resends, same.queue,
      same.splits_left, same.resends_left, length_append, fingerprints_length, room]
    omega
  · rw [close_work, work, push_front_queue, push_front_splits, push_front_resends, same.queue,
      same.splits_left, same.resends_left, length_append, fingerprints_length, work]
    omega

/-- The whole page goes back, for a split or a resend. -/
theorem Goes.of_spent (called : Bool) (hcalls : t.calls = s.calls)
    (hqueue : t.queue = fingerprints_of page ++ s.queue)
    (hspent : t.splits_left + t.resends_left + 1 ≤ s.splits_left + s.resends_left)
    (hbatches : t.batches.length + 2 * t.splits_left + t.resends_left ≤
      s.batches.length + 2 * s.splits_left + s.resends_left) :
    Goes s page (t.close called page []) := by
  have hlength := close_length t page called []
  constructor
  · rw [close_queue, hqueue]
  · rcases close_calls t page called [] with h | h
    · exact .inl (h.trans hcalls)
    · exact .inr ⟨[], by rw [h, hcalls]; rfl, by simp⟩
  · rw [close_room, room, room, hqueue, length_append, fingerprints_length, ← hcalls]
    omega
  · rw [close_work, work, work, hqueue, length_append, fingerprints_length]
    omega

theorem quarantine_preflight_takes (called : Bool) (index : Nat) (reply : Reply)
    (hnodup : (fingerprints_of page ++ s.queue).Nodup) :
    Takes s page (s.quarantine_preflight called page index reply) := by
  unfold quarantine_preflight
  cases hpoison : page[index]? with
  | none => exact Ends.close called
  | some poison =>
    obtain ⟨hindex, rfl⟩ := List.getElem?_eq_some_iff.mp hpoison
    dsimp only
    split
    · exact Ends.close called
    · refine Goes.of_rest ?_ called false hnodup (eraseIdx_sublist _ _) ?_ ?_
      · exact ⟨rfl, rfl, rfl, rfl⟩
      · intro b hb
        rw [mem_singleton.mp hb]
        refine ⟨getElem_mem hindex, ?_⟩
        have hpage : (fingerprints_of page).Nodup := (nodup_append.mp hnodup).1
        have hbound : index < (fingerprints_of page).length := by
          rw [fingerprints_length]
          exact hindex
        have herase : fingerprints_of (page.eraseIdx index) =
            (fingerprints_of page).erase (fingerprints_of page)[index] := by
          rw [hpage.erase_getElem index hbound]
          exact (eraseIdx_map ..).symm
        have hpoison : page[index].fingerprint = (fingerprints_of page)[index] :=
          (getElem_map ..).symm
        rw [herase, hpoison]
        exact hpage.not_mem_erase
      · rw [length_eraseIdx_of_lt hindex]
        omega

/-- A settled page is closed as a whole. -/
theorem settle_goes (same : Same s t) (called : Bool)
    (hnodup : (fingerprints_of page ++ s.queue).Nodup) (hpage : page ≠ []) :
    Goes s page (t.close called page page) := by
  have hnone : t = t.push_front [] false := rfl
  rw [hnone]
  apply Goes.of_rest same called false hnodup (nil_sublist page)
  · intro b hb
    exact ⟨hb, by simp [fingerprints_of]⟩
  · exact length_pos_of_ne_nil hpage

variable {held : List Body}

theorem mapM_getElem_mem {indexes : List Nat}
    (h : indexes.mapM (fun index => page[index]?) = some held) :
    held.length = indexes.length ∧ ∀ b ∈ held, b ∈ page := by
  induction indexes generalizing held with
  | nil =>
    cases h
    simp
  | cons index indexes ih =>
    simp only [mapM_cons, bind_eq_bind, bind_eq_some_iff] at h
    obtain ⟨b, hb, rest, hrest, hheld⟩ := h
    cases hheld
    obtain ⟨hlength, hmem⟩ := ih hrest
    refine ⟨by simp [hlength], ?_⟩
    exact forall_mem_cons.mpr ⟨mem_of_getElem? hb, hmem⟩

/-- An answer that names items holds at least one body of the page. -/
theorem server_named_items_some {error : UploadError}
    (h : server_named_items error page = some held) : held ≠ [] ∧ ∀ b ∈ held, b ∈ page := by
  obtain ⟨named, -, hheld⟩ := bind_eq_some_iff.mp h
  obtain ⟨hlength, hmem⟩ := mapM_getElem_mem hheld
  refine ⟨?_, hmem⟩
  intro hnone
  apply named.some_named
  apply eq_nil_of_length_eq_zero
  rw [← hlength, hnone, length_nil]

theorem hold_named_takes (called : Bool) (error : UploadError) (reply : Reply)
    (hnodup : (fingerprints_of page ++ s.queue).Nodup) (hsome : held ≠ [])
    (hheld : ∀ b ∈ held, b ∈ page) : Takes s page (s.hold_named called page held error reply) := by
  unfold hold_named
  split
  · exact Ends.close called
  · dsimp only
    refine Goes.of_rest ?_ called false hnodup filter_sublist ?_ ?_
    · exact ⟨rfl, rfl, rfl, rfl⟩
    · intro b hb
      refine ⟨hheld b hb, ?_⟩
      intro hrest
      obtain ⟨c, hc, hsame⟩ := mem_map.mp hrest
      obtain ⟨hpage, hout⟩ := mem_filter.mp hc
      have hone := inj_on_of_nodup_map (nodup_append.mp hnodup).1 hpage (hheld b hb) hsame
      rw [hone] at hout
      simp [hb] at hout
    · obtain ⟨b, hb⟩ := exists_mem_of_ne_nil held hsome
      apply length_filter_lt_length_iff_exists.mpr
      exact ⟨b, hheld b hb, by simp [hb]⟩

/-- Two halves for one page: the split is spent. -/
theorem bisect_goes (called : Bool) (hsplits : s.adaptive_splits < SNAPSHOT_ADAPTIVE_SPLIT_LIMIT) :
    Goes s page (s.bisect called page) := by
  apply Goes.of_spent called
  · rfl
  · have hhalves : fingerprints_of (page.take (page.length / 2)) ++
        fingerprints_of (page.drop (page.length / 2)) = fingerprints_of page := by
      simp [fingerprints_of]
    rw [← hhalves, append_assoc]
    rfl
  · simp only [splits_left, resends_left]
    omega
  · simp only [splits_left, resends_left, length_cons]
    omega

theorem resend_goes (called adaptive : Bool) (wait : Nat)
    (hresends : s.inplace_retry.resends < SNAPSHOT_INPLACE_RETRY_LIMIT) :
    Goes s page (s.resend called page adaptive wait) := by
  apply Goes.of_spent called
  · rfl
  · rfl
  · simp only [splits_left, resends_left]
    omega
  · simp only [splits_left, resends_left, length_cons]
    omega

theorem admit_resends {budget : InplaceRetryBudget} {error : UploadError} {reply : Reply}
    {retry : Nat × Nat} (h : budget.admit error reply = some retry) :
    budget.resends < SNAPSHOT_INPLACE_RETRY_LIMIT := by
  unfold InplaceRetryBudget.admit at h
  split at h
  · cases h
  · omega

/-- Each arm of a failed attempt leaves less to do, or ends the loop. -/
theorem take_failure_takes (called adaptive : Bool) (error : UploadError) (reply : Reply)
    (hnodup : (fingerprints_of page ++ s.queue).Nodup) :
    Takes s page (s.take_failure called page adaptive error reply) := by
  unfold take_failure
  cases error.preflight_index with
  | some index => exact quarantine_preflight_takes called index reply hnodup
  | none =>
    cases hheld : server_named_items error page with
    | some held =>
      obtain ⟨hsome, hpage⟩ := server_named_items_some hheld
      exact hold_named_takes called error reply hnodup hsome hpage
    | none =>
      dsimp only
      split
      case isTrue h => exact bisect_goes called h.2.1
      case isFalse =>
        cases hadmit : s.inplace_retry.admit error reply with
        | some retry => exact resend_goes called adaptive retry.2 (admit_resends hadmit)
        | none =>
          cases error.shed with
          | some shed => exact Ends.close called
          | none => exact Ends.close called

end

/-! ## A turn -/

/-- What a turn does to the calls and to the queue. -/
structure Advance (s next : UploadLoop) : Prop where
  queue : next.queue.Sublist s.queue
  calls : next.calls = s.calls ∨ ∃ call, next.calls = s.calls ++ [call] ∧
    (∀ fp ∈ call.sent, fp ∈ s.queue) ∧ ∀ fp ∈ call.closed, fp ∉ next.queue
  paid : next.calls.length + next.room ≤ s.calls.length + s.room
  less : next.work < s.work

/-- The last turn makes one more call at most. -/
def Last (s next : UploadLoop) : Prop :=
  next.calls = s.calls ∨ ∃ call, next.calls = s.calls ++ [call] ∧ ∀ fp ∈ call.sent, fp ∈ s.queue

def Turns (s : UploadLoop) : UploadLoop × Option ResumableUploadResult → Prop
  | (next, none) => Advance s next
  | (next, some _) => Last s next

section

variable {s : UploadLoop} {popped page : List Body} {adaptive : Bool}
  {batches : List (List Body × Bool)}

/-- The queue of a loop with the popped batch taken out. -/
theorem popped_queue (h : s.batches = (popped, adaptive) :: batches) :
    s.queue = fingerprints_of popped ++ { s with batches }.queue := by
  rw [UploadLoop.queue, h]
  rfl

theorem popped_room (h : s.batches = (popped, adaptive) :: batches) :
    s.room = popped.length + { s with batches }.room := by
  rw [room, popped_queue h, length_append, fingerprints_length, room, ← Nat.add_assoc,
    ← Nat.add_assoc]
  rfl

theorem popped_work (h : s.batches = (popped, adaptive) :: batches) :
    s.work = popped.length + 1 + { s with batches }.work := by
  have hsame : s.splits_left = { s with batches }.splits_left ∧
      s.resends_left = { s with batches }.resends_left := ⟨rfl, rfl⟩
  rw [work, popped_queue h, length_append, fingerprints_length, h, length_cons, work,
    hsame.1, hsame.2]
  dsimp only
  omega

theorem Turns.of_takes {t : UploadLoop} (h : s.batches = (popped, adaptive) :: batches)
    (same : Same { s with batches } t) (hpage : page.Sublist popped)
    {taken : UploadLoop × Option ResumableUploadResult} (htaken : Takes t page taken) :
    Turns s taken := by
  have hqueue := popped_queue h
  have hsent : ∀ fp ∈ fingerprints_of page, fp ∈ s.queue := by
    intro fp hfp
    rw [hqueue]
    exact mem_append_left _ ((hpage.map Body.fingerprint).subset hfp)
  have hlength := hpage.length_le
  obtain ⟨next, result⟩ := taken
  cases result with
  | some result =>
    rcases htaken with hcalls | hcalls
    · exact .inl (hcalls.trans same.calls)
    · exact .inr ⟨_, by rw [hcalls, same.calls], hsent⟩
  | none =>
    obtain ⟨hsub, hcalls, hpaid, hless⟩ := htaken
    constructor
    · rw [hqueue]
      rw [same.queue] at hsub
      exact hsub.trans (.append_right (hpage.map Body.fingerprint) _)
    · rcases hcalls with hcalls | ⟨closed, hcalls, hclosed⟩
      · exact .inl (hcalls.trans same.calls)
      · exact .inr ⟨_, by rw [hcalls, same.calls], hsent, hclosed⟩
    · rw [same.room, same.calls] at hpaid
      rw [popped_room h]
      dsimp only at hpaid
      omega
    · rw [same.work] at hless
      rw [popped_work h]
      omega

/-- The page of a turn is what is still to be sent of the batch. -/
theorem turn_turns (reply : Reply) (hnodup : s.queue.Nodup) : Turns s (s.turn reply) := by
  unfold turn
  cases h : s.batches with
  | nil => exact .inl rfl
  | cons batch batches =>
    obtain ⟨popped, adaptive⟩ := batch
    have hpage := filter_sublist (p := fun b => !{ s with batches }.contains b) (l := popped)
    dsimp only
    split
    case isTrue =>
      refine ⟨?_, .inl rfl, ?_, ?_⟩
      · rw [popped_queue h]
        exact sublist_append_right _ _
      · rw [popped_room h]
        dsimp only
        omega
      · rw [popped_work h]
        omega
    case isFalse =>
      split
      case isTrue => exact .inl rfl
      case isFalse hsome _ =>
        have hnone : popped.filter (fun b => !{ s with batches }.contains b) ≠ [] :=
          fun he => hsome (isEmpty_iff.mpr he)
        have hqueued : (fingerprints_of (popped.filter (fun b => !{ s with batches }.contains b)) ++
            { s with batches }.queue).Nodup := by
          rw [popped_queue h] at hnodup
          exact hnodup.sublist (.append_right (hpage.map Body.fingerprint) _)
        cases hattempt : s.ledger.attempt_snapshot_page
            (popped.filter (fun b => !{ s with batches }.contains b)) reply with
        | mk called taken =>
          obtain ⟨ledger, outcome⟩ := taken
          dsimp only
          cases outcome with
          | error error =>
            refine Turns.of_takes h ?_ hpage (take_failure_takes called adaptive error reply ?_)
            · exact ⟨rfl, rfl, rfl, rfl⟩
            · exact hqueued
          | ok outcome =>
            cases outcome with
            | Disabled reason =>
              refine Turns.of_takes h ?_ hpage (Ends.close called)
              exact ⟨rfl, rfl, rfl, rfl⟩
            | Settled conflicted isolated =>
              refine Turns.of_takes h ?_ hpage (settle_goes ?_ called hqueued hnone)
              · exact ⟨rfl, rfl, rfl, rfl⟩
              · exact ⟨rfl, rfl, rfl, rfl⟩

end

/-! ## A run -/

theorem Sound.advance {s next : UploadLoop} (hs : Sound s) (h : Advance s next) : Sound next := by
  obtain ⟨hqueue, hcalls, -, -⟩ := h
  refine ⟨hs.queued_once.sublist hqueue, ?_, ?_⟩
  · rcases hcalls with hcalls | ⟨call, hcalls, hsent, -⟩
    · rw [hcalls]
      exact hs.apart
    · rw [hcalls]
      refine pairwise_append.mpr ⟨hs.apart, pairwise_singleton _ _, ?_⟩
      intro earlier hearlier later hlater fp hfp hagain
      rw [mem_singleton.mp hlater] at hagain
      exact hs.closed earlier hearlier fp hfp (hsent fp hagain)
  · intro earlier hearlier fp hfp hqueued
    rcases hcalls with hcalls | ⟨call, hcalls, -, hclosed⟩
    · rw [hcalls] at hearlier
      exact hs.closed earlier hearlier fp hfp (hqueue.subset hqueued)
    · rw [hcalls] at hearlier
      rcases mem_append.mp hearlier with hold | hnew
      · exact hs.closed earlier hold fp hfp (hqueue.subset hqueued)
      · rw [mem_singleton.mp hnew] at hfp
        exact hclosed fp hfp hqueued

theorem Sound.last {s next : UploadLoop} (hs : Sound s) (h : Last s next) :
    next.calls.Pairwise Apart ∧ next.calls.length ≤ s.calls.length + 1 := by
  rcases h with hcalls | ⟨call, hcalls, hsent⟩
  · rw [hcalls]
    exact ⟨hs.apart, Nat.le_succ _⟩
  · rw [hcalls]
    refine ⟨pairwise_append.mpr ⟨hs.apart, pairwise_singleton _ _, ?_⟩, by simp⟩
    intro earlier hearlier later hlater fp hfp hagain
    rw [mem_singleton.mp hlater] at hagain
    exact hs.closed earlier hearlier fp hfp (hsent fp hagain)

/-- The work bounds the turns, and the room bounds the calls. -/
theorem run_ends (replies : Nat → Reply) (fuel : Nat) {turns : Nat} {s : UploadLoop} (hs : Sound s)
    (hfuel : s.work < fuel) :
    ∃ last result, s.run replies fuel turns = some (last, result) ∧
      last.calls.Pairwise Apart ∧ last.calls.length ≤ s.calls.length + s.room + 1 := by
  induction fuel generalizing turns s with
  | zero => omega
  | succ fuel ih =>
    have hturn := turn_turns (replies turns) hs.queued_once
    rw [run]
    cases htaken : s.turn (replies turns) with
    | mk next result =>
      rw [htaken] at hturn
      cases result with
      | some result =>
        obtain ⟨hapart, hlength⟩ := hs.last hturn
        exact ⟨next, result, rfl, hapart, by omega⟩
      | none =>
        have hadvance : Advance s next := hturn
        have hless := hadvance.less
        have hpaid := hadvance.paid
        obtain ⟨last, result, hrun, hapart, hlength⟩ :=
          @ih (turns + 1) next (hs.advance hadvance) (by omega)
        exact ⟨last, result, hrun, hapart, by omega⟩

/-! ## A whole upload -/

/-- The loop before its first turn. -/
def at_start (ledger : AckLedger) (items : List Body) (budget : InplaceRetryBudget)
    (packed : Packed) : UploadLoop where
  items
  ledger
  batches := packed.batches.map (fun batch => (batch.map Member.body, false))
  inplace_retry := budget

theorem begin_upload_cases (ledger : AckLedger) (items : List Body) (budget : InplaceRetryBudget)
    (now : Nat) (prune_save_fails : Bool) :
    (∃ operation, begin_upload ledger items budget now prune_save_fails = .error operation) ∨
      ∃ packed charged,
        pack_batches (ledger.progress.against_input items now).1 items = .ok packed ∧
        begin_upload ledger items budget now prune_save_fails =
          .ok (at_start charged items budget packed) := by
  unfold begin_upload
  split
  · exact .inl ⟨_, rfl⟩
  · dsimp only
    split
    · exact .inl ⟨_, rfl⟩
    · cases hpacked : pack_batches (ledger.progress.against_input items now).1 items with
      | error operation => exact .inl ⟨operation, rfl⟩
      | ok packed => exact .inr ⟨packed, _, rfl, rfl⟩

theorem at_start_queue (ledger : AckLedger) (items : List Body) (budget : InplaceRetryBudget)
    (packed : Packed) : (at_start ledger items budget packed).queue =
      packed.batches.flatten.map (fun m => m.body.fingerprint) := by
  simp [queue, at_start, fingerprints_of, map_flatten, flatMap_def, Function.comp_def]

/-- The first batches hold each pending fingerprint once at most. -/
theorem at_start_sound (ledger : AckLedger) {progress : SnapshotUploadProgress} {items : List Body}
    {packed : Packed} (budget : InplaceRetryBudget)
    (h : pack_batches progress items = .ok packed) :
    ∃ pending, pending_by_fingerprint progress items = .ok pending ∧
      Sound (at_start ledger items budget packed) ∧
      (at_start ledger items budget packed).queue.length ≤ pending.size := by
  obtain ⟨pending, hpending, hperm, hnodup, -⟩ := (call_partition h).pending
  have hsent : (PackedCall.mk progress items packed).sent = packed.batches.flatten := rfl
  rw [hsent] at hperm
  refine ⟨pending, hpending, ⟨?_, .nil, by simp [at_start]⟩, ?_⟩
  · rw [at_start_queue]
    have hboth := (hperm.map (fun m => m.body.fingerprint)).nodup_iff.mpr hnodup
    rw [map_append] at hboth
    exact (nodup_append.mp hboth).1
  · have hlength := hperm.length_eq
    have hsize : pending.values.length = pending.size := length_map _
    rw [length_append] at hlength
    rw [at_start_queue, length_map]
    omega

end UploadLoop

/-- The loop ends for every input and against every server, with a bounded number of calls,
and a call never sends what an earlier one settled, held or quarantined. -/
theorem upload_loop_ends (ledger : AckLedger) (items : List Body) (budget : InplaceRetryBudget)
    (now : Nat) (prune_save_fails : Bool) (replies : Nat → Reply) :
    (∃ operation, begin_upload ledger items budget now prune_save_fails = .error operation) ∨
      ∃ loop last result fuel pending,
        begin_upload ledger items budget now prune_save_fails = .ok loop ∧
        pending_by_fingerprint (ledger.progress.against_input items now).1 items = .ok pending ∧
        loop.run replies fuel 0 = some (last, result) ∧
        last.calls.length ≤ pending.size + SNAPSHOT_ADAPTIVE_SPLIT_LIMIT +
          SNAPSHOT_INPLACE_RETRY_LIMIT + 1 ∧
        last.calls.Pairwise (fun earlier later => ∀ fp ∈ earlier.closed, fp ∉ later.sent) := by
  rcases begin_upload_cases ledger items budget now prune_save_fails with herror | hbegin
  · exact .inl herror
  · right
    obtain ⟨packed, charged, hpacked, hbegin⟩ := hbegin
    obtain ⟨pending, hpending, hsound, hsize⟩ := at_start_sound charged budget hpacked
    obtain ⟨last, result, hrun, hapart, hlength⟩ := run_ends replies _ hsound
      (Nat.lt_succ_self _)
    refine ⟨_, last, result, _, pending, hbegin, hpending, hrun, ?_, hapart⟩
    have hsplits : (at_start charged items budget packed).splits_left ≤
        SNAPSHOT_ADAPTIVE_SPLIT_LIMIT := Nat.sub_le _ _
    have hresends : (at_start charged items budget packed).resends_left ≤
        SNAPSHOT_INPLACE_RETRY_LIMIT := Nat.sub_le _ _
    have hcalls : (at_start charged items budget packed).calls.length = 0 := rfl
    rw [UploadLoop.room] at hlength
    omega

end ottto_service.snapshot_sync
