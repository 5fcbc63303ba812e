-- What a recovery of the ACK handoff comes to (snapshot_sync/ack_retention.rs): the ACKs
-- that stay and the handoff that stays with them, of any crash and any new ACK between.
import Ottto.AckRetention

namespace ottto_service.snapshot_sync

open snapshots Option SortedMap

/-! ## The outcome of a recovery -/

/-- What a recovery reads of the saved index beside its handoff. -/
structure Evidence where
  unknown : Bool
  holds : String → Bool
  incidence : Finset String

def Evidence.of (index : ScanIndex) : Evidence :=
  { unknown := index.upload_progress_ack_incidence_unknown
    holds := index.decode_holds_entity
    incidence := index.upload_progress_ack_incidence }

/-- The bodies that are accepted as they were handed off. -/
def exact (accepted bodies : SortedMap String String) : SortedMap String String :=
  bodies.retain (fun fp body => accepted.get? fp == some body)

/-- A handoff that hands off nothing is none. -/
def nonempty_handoff (handoff : UploadAckRetirementHandoff) : Option UploadAckRetirementHandoff :=
  if handoff.bodies.isEmpty && handoff.pending_bodies.isEmpty then none else some handoff

namespace Evidence

variable (e : Evidence) (accepted : SortedMap String String) (handoff : UploadAckRetirementHandoff)

def forgets (fp : String) : Bool :=
  !e.unknown && (handoff.bodies.get? fp).any (fun body => accepted.get? fp == some body) &&
    !e.holds fp && decide (fp ∉ e.incidence)

/-- The ACKs that stay. -/
def left : SortedMap String String := accepted.filterKeys (fun fp => !e.forgets accepted handoff fp)

/-- The handoff that stays. -/
def owed : Option UploadAckRetirementHandoff :=
  nonempty_handoff { handoff with
    bodies := exact (e.left accepted handoff) handoff.bodies
    pending_bodies := exact (e.left accepted handoff) handoff.pending_bodies }

def outcome : Option UploadAckRetirementHandoff →
    SortedMap String String × Option UploadAckRetirementHandoff
  | none => (accepted, none)
  | some handoff => (e.left accepted handoff, e.owed accepted handoff)

end Evidence

/-- The bodies of `next` are among those of `handoff`. -/
structure Sub (next handoff : UploadAckRetirementHandoff) : Prop where
  bodies : ∀ fp body, next.bodies.get? fp = some body → handoff.bodies.get? fp = some body
  pending : ∀ fp body, next.pending_bodies.get? fp = some body →
    handoff.pending_bodies.get? fp = some body

variable {handoff : UploadAckRetirementHandoff}

theorem Sub.refl : Sub handoff handoff :=
  ⟨fun _ _ h => h, fun _ _ h => h⟩

theorem Sub.trans {first second third : UploadAckRetirementHandoff} (h : Sub first second)
    (h' : Sub second third) : Sub first third :=
  ⟨fun fp body hget => h'.bodies fp body (h.bodies fp body hget),
    fun fp body hget => h'.pending fp body (h.pending fp body hget)⟩

theorem get?_exact {accepted bodies : SortedMap String String} {fp : String} :
    (exact accepted bodies).get? fp =
      (bodies.get? fp).filter (fun body => accepted.get? fp == some body) :=
  get?_retain _ _ _

theorem exact_exact {accepted bodies : SortedMap String String} :
    exact accepted (exact accepted bodies) = exact accepted bodies := by
  apply ext_get?
  intro fp
  rw [get?_exact, get?_exact, filter_filter]
  simp

theorem nonempty_handoff_eq {next : UploadAckRetirementHandoff}
    (h : nonempty_handoff handoff = some next) : next = handoff := by
  unfold nonempty_handoff at h
  split at h
  · cases h
  · exact (Option.some.inj h).symm

namespace Evidence

variable {e : Evidence} {accepted : SortedMap String String}
  {handoff next : UploadAckRetirementHandoff}

theorem get?_left {fp : String} : (e.left accepted handoff).get? fp =
    if e.forgets accepted handoff fp = true then none else accepted.get? fp := by
  unfold left
  rw [get?_filterKeys]
  cases e.forgets accepted handoff fp <;> rfl

theorem forgets_iff {fp : String} : e.forgets accepted handoff fp = true ↔
    e.unknown = false ∧
      (∃ body, handoff.bodies.get? fp = some body ∧ accepted.get? fp = some body) ∧
      e.holds fp = false ∧ fp ∉ e.incidence := by
  simp only [forgets, Bool.and_eq_true, any_eq_true, beq_iff_eq, Bool.not_eq_true',
    decide_eq_true_eq, and_assoc]

/-- A second recovery forgets nothing more. -/
theorem forgets_left (hsub : Sub next handoff) {fp : String} :
    e.forgets (e.left accepted handoff) next fp = false := by
  rw [Bool.eq_false_iff]
  intro hforgets
  obtain ⟨hknown, ⟨body, hbody, hexact⟩, hheld, habsent⟩ := forgets_iff.mp hforgets
  rw [get?_left] at hexact
  split at hexact
  · cases hexact
  · rename_i hkept
    apply hkept
    exact forgets_iff.mpr ⟨hknown, ⟨body, hsub.bodies fp body hbody, hexact⟩, hheld, habsent⟩

theorem left_left (hsub : Sub next handoff) :
    e.left (e.left accepted handoff) next = e.left accepted handoff := by
  apply ext_get?
  intro fp
  rw [get?_left, forgets_left hsub]
  rfl

theorem owed_sub (h : e.owed accepted handoff = some next) : Sub next handoff := by
  obtain rfl := nonempty_handoff_eq h
  constructor
  · intro fp body hget
    rw [get?_exact] at hget
    exact (filter_eq_some_iff.mp hget).1
  · intro fp body hget
    rw [get?_exact] at hget
    exact (filter_eq_some_iff.mp hget).1

/-- Once the ACKs are forgotten, a crash before the handoff is cleared changes nothing. -/
theorem outcome_forgotten :
    e.outcome (e.left accepted handoff) (some handoff) = e.outcome accepted (some handoff) := by
  simp only [outcome, owed, left_left Sub.refl]

/-- A recovery of what a recovery left is the same again. -/
theorem outcome_recovered :
    e.outcome (e.left accepted handoff) (e.owed accepted handoff) =
      e.outcome accepted (some handoff) := by
  cases howed : e.owed accepted handoff with
  | none => simp only [outcome, howed]
  | some next =>
    have hleft : e.left (e.left accepted handoff) next = e.left accepted handoff :=
      left_left (owed_sub howed)
    have hnext := nonempty_handoff_eq howed
    simp only [outcome, howed, hleft, Prod.mk.injEq, true_and]
    rw [← howed]
    unfold owed
    rw [hleft, hnext]
    simp only [exact_exact]

/-! ## A new ACK between -/

end Evidence

/-- The handoff without one entity. -/
def without (fp : String) (handoff : UploadAckRetirementHandoff) :
    Option UploadAckRetirementHandoff :=
  nonempty_handoff { handoff with
    bodies := handoff.bodies.erase fp, pending_bodies := handoff.pending_bodies.erase fp }

/-- An entity accepted again with another body than the one handed off. -/
structure Differs (handoff : UploadAckRetirementHandoff) (fp body : String) : Prop where
  bodies : handoff.bodies.get? fp ≠ some body
  pending : handoff.pending_bodies.get? fp ≠ some body

theorem Differs.of_sub {next : UploadAckRetirementHandoff} {fp body : String}
    (h : Differs handoff fp body) (hsub : Sub next handoff) : Differs next fp body :=
  ⟨fun hget => h.bodies (hsub.bodies fp body hget),
    fun hget => h.pending (hsub.pending fp body hget)⟩

theorem exact_insert {accepted bodies : SortedMap String String} {fp body : String}
    (h : bodies.get? fp ≠ some body) :
    exact (accepted.insert fp body) bodies = (exact accepted bodies).erase fp := by
  apply ext_get?
  intro other
  rw [get?_erase, get?_exact, get?_exact, get?_insert]
  split
  · rename_i heq
    subst heq
    rw [filter_eq_none_iff]
    intro found hfound hexact
    rw [beq_iff_eq, Option.some.injEq] at hexact
    exact h (by rw [hfound, hexact])
  · rfl

namespace Evidence

variable {e : Evidence} {accepted : SortedMap String String}
  {handoff : UploadAckRetirementHandoff} {fp body : String}

theorem left_insert (h : Differs handoff fp body) :
    e.left (accepted.insert fp body) handoff = (e.left accepted handoff).insert fp body := by
  apply ext_get?
  intro other
  rw [get?_insert, get?_left, get?_left, get?_insert]
  by_cases heq : other = fp
  · subst heq
    rw [if_pos rfl, if_pos rfl, if_neg]
    intro hforgets
    obtain ⟨-, ⟨found, hfound, hexact⟩, -⟩ := forgets_iff.mp hforgets
    rw [get?_insert_self, Option.some.injEq] at hexact
    rw [← hexact] at hfound
    exact h.bodies hfound
  · have hsame : e.forgets (accepted.insert fp body) handoff other =
        e.forgets accepted handoff other := by
      rw [Bool.eq_iff_iff, forgets_iff, forgets_iff, get?_insert_ne _ _ heq]
    rw [hsame, if_neg heq, if_neg heq]

/-- The new body stays, its entity is owed nothing, and no other is touched. -/
theorem outcome_insert {held : Option UploadAckRetirementHandoff}
    (h : ∀ handoff ∈ held, Differs handoff fp body) :
    e.outcome (accepted.insert fp body) held =
      ((e.outcome accepted held).1.insert fp body, (e.outcome accepted held).2.bind (without fp)) := by
  cases held with
  | none => rfl
  | some handoff =>
    have hdiffers := h handoff rfl
    simp only [outcome, left_insert hdiffers, Prod.mk.injEq, true_and]
    simp only [owed, left_insert hdiffers, exact_insert hdiffers.bodies,
      exact_insert hdiffers.pending]
    generalize exact (e.left accepted handoff) handoff.bodies = bodies
    generalize exact (e.left accepted handoff) handoff.pending_bodies = pending
    by_cases hempty : (bodies.isEmpty && pending.isEmpty) = true
    · simp only [nonempty_handoff, hempty, if_true, bind_none]
      rw [Bool.and_eq_true, SortedMap.isEmpty_iff, SortedMap.isEmpty_iff] at hempty
      obtain ⟨rfl, rfl⟩ := hempty
      rfl
    · rw [nonempty_handoff, nonempty_handoff, if_neg hempty]
      rfl

end Evidence

end ottto_service.snapshot_sync
