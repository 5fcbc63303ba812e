-- What the calls of a member say, without the proof that reads them
-- (codex_file_join.rs), and what one call that is not refused leaves behind.
import Ottto.JoinProof
import Ottto.Results

namespace ottto_service.codex_file_join

open serde_json json_fields accumulator sources.codex List Option Results

/-! ## The trace of a member -/

/-- A native usage record: the counter of its thread before and after it, and its turn. -/
structure Native where
  response : String
  usage : Tokens
  before : Tokens
  after : Tokens
  turn : Option String

structure Admission where
  identity : String
  tokens : Tokens
  turn : Option String
  v2 : Bool

def read_native (turn : Option String) (value : Value) : Option Native := do
  let payload ← value.get "payload"
  let response ← (payload.get "response_id").bind Value.as_str
  let usage ← (payload.get "usage").bind Tokens.read
  let after ← (payload.get "thread_token_usage").bind Tokens.read
  let before ← after.before usage
  some { response, usage, before, after, turn }

def read_admission (value : Value) (identity turn : Option String) (v2 : Bool) :
    Option Admission := do
  let identity ← identity
  let tokens ← (codex_last_usage_root value).bind Tokens.read
  some { identity, tokens, turn, v2 }

structure Trace where
  records : List Value := []
  turn : Option String := none
  natives : List Native := []
  admissions : List Admission := []
  /-- The admissions that were called for, read or not. -/
  admitted : Nat := 0

def Trace.step (self : Trace) : Event → Trace
  | .record value _ =>
    let turn := (turn_of value).or self.turn
    { self with
      records := self.records ++ [value]
      turn
      natives := self.natives ++ if is_native value then (read_native turn value).toList else [] }
  | .admission value _ identity turn v2 =>
    { self with
      admissions := self.admissions ++ (read_admission value identity turn v2).toList
      admitted := self.admitted + 1 }

def Member.trace (self : Member) : Trace := run Trace.step {} self.events

/-! ## The chain -/

/-- The counter after the natives. -/
def counter (natives : List Native) : Tokens := (natives.getLast?.map Native.after).getD .zero

/-- Each native begins where the one before it ended, and the first at zero. -/
structure GapFree (natives : List Native) : Prop where
  start : ∀ first ∈ natives.head?, first.before = .zero
  links : natives.IsChain (fun earlier later => later.before = earlier.after)
  adds : ∀ native ∈ natives, ∀ i,
    (native.before.values i).toNat + (native.usage.values i).toNat = (native.after.values i).toNat

theorem gap_free_nil : GapFree [] where
  start _ h := by cases h
  links := isChain_nil
  adds _ h := by cases h

@[simp] theorem counter_snoc (natives : List Native) (native : Native) :
    counter (natives ++ [native]) = native.after := by
  simp [counter]

theorem GapFree.snoc {natives : List Native} (h : GapFree natives) {native : Native}
    (hbefore : native.before = counter natives)
    (hadds : ∀ i, (native.before.values i).toNat + (native.usage.values i).toNat =
      (native.after.values i).toNat) : GapFree (natives ++ [native]) where
  start := by
    cases natives with
    | nil =>
      intro first hfirst
      cases hfirst
      exact hbefore
    | cons earliest rest => exact h.start
  links := by
    rw [isChain_append]
    refine ⟨h.links, isChain_singleton _, ?_⟩
    intro earlier hearlier later hlater
    cases hlater
    rw [hbefore, counter, mem_def.mp hearlier]
    rfl
  adds := by
    intro other hother
    rcases mem_append.mp hother with hold | hnew
    · exact h.adds other hold
    · rw [mem_singleton.mp hnew]
      exact hadds

/-- The usages of a gap-free chain add up to its last counter. -/
theorem GapFree.sum_usage {natives : List Native} (h : GapFree natives) (i : Fin 6) :
    (natives.map (fun native => (native.usage.values i).toNat)).sum =
      ((counter natives).values i).toNat := by
  induction natives using List.reverseRecOn with
  | nil => rfl
  | append_singleton natives native ih =>
    have hlinks := isChain_append.mp h.links
    have hkept : GapFree natives := by
      refine ⟨?_, hlinks.1, fun other hother => h.adds other (mem_append_left _ hother)⟩
      intro first hfirst
      apply h.start first
      rw [List.head?_append, mem_def.mp hfirst]
      rfl
    have hbefore : native.before = counter natives := by
      cases hlast : natives.getLast? with
      | none =>
        obtain rfl := List.getLast?_eq_none_iff.mp hlast
        exact h.start native rfl
      | some last =>
        rw [counter, hlast]
        exact hlinks.2.2 last hlast native rfl
    have hadds := h.adds native (mem_append_right _ mem_cons_self) i
    rw [map_append, sum_append, ih hkept, counter_snoc, ← hadds, hbefore]
    simp

/-! ## Readings that succeed -/

theorem before_eq_some {after usage before : Tokens} (h : after.before usage = some before)
    (i : Fin 6) :
    (before.values i).toNat + (usage.values i).toNat = (after.values i).toNat := by
  unfold Tokens.before at h
  split at h
  · rename_i hle
    cases h
    have hcovered := UInt64.le_iff_toNat_le.mp (hle i)
    show (after.values i - usage.values i).toNat + _ = _
    rw [Words.toNat_sub_of_le (hle i)]
    omega
  · cases h

theorem read_native_adds {turn : Option String} {value : Value} {native : Native}
    (h : read_native turn value = some native) :
    native.turn = turn ∧ ∀ i, (native.before.values i).toNat + (native.usage.values i).toNat =
      (native.after.values i).toNat := by
  unfold read_native at h
  simp only [bind_eq_bind, bind_eq_some_iff] at h
  obtain ⟨payload, -, response, -, usage, -, after, -, before, hbefore, hnative⟩ := h
  cases hnative
  exact ⟨rfl, before_eq_some hbefore⟩

/-! ## One call that is not refused -/

namespace StreamProof

variable {self next : StreamProof} {out : Outside} {value : Value}

theorem refuse_ne_none (self : StreamProof) (reason : JoinRefusal) :
    (self.refuse reason).refusal ≠ none := by
  unfold refuse
  cases h : self.refusal <;> simp [h]

/-- A call that is not refused went through. -/
theorem settle_with_ok {result : Except JoinRefusal StreamProof}
    (h : (self.settle_with result).refusal = none) : ∃ next, result = .ok next ∧
      self.settle_with result = next := by
  cases result with
  | ok next => exact ⟨next, rfl, rfl⟩
  | error reason => exact absurd h (self.refuse_ne_none reason)

theorem observe_header_ok (hgroup : self.independent = false) {first : Bool}
    (h : self.observe_header out value first = .ok next) : next = self := by
  unfold observe_header at h
  rw [hgroup] at h
  split at h
  · split at h
    · cases h
    · split at h
      · cases h
      · cases h
        rfl
  · split at h
    · cases h
    · cases h
      rfl

/-- The ordinal of a record: the next one in an ordinal member, and none elsewhere. -/
def OrdinalRead (first : Option UInt64) (value : Value) (member next : MemberState) : Prop :=
  match first with
  | some _ => ∃ ordinal, (value.get "ordinal").bind Value.as_u64 = some ordinal ∧
      member.next_ordinal = some ordinal ∧ next.next_ordinal = successor ordinal
  | none => value.get "ordinal" = none

theorem observe_ordinal_ok (h : self.observe_ordinal value = .ok next) :
    ∃ next_ordinal last_ordinal starts,
      next = { self with member := { self.member with next_ordinal, last_ordinal, starts } } ∧
        OrdinalRead (self.plans[self.position]?.bind MemberPlan.first) value self.member
          next.member := by
  unfold observe_ordinal at h
  unfold OrdinalRead
  cases hfirst : self.plans[self.position]?.bind MemberPlan.first with
  | none =>
    rw [hfirst] at h
    cases hordinal : value.get "ordinal" with
    | none =>
      rw [hordinal] at h
      cases h
      exact ⟨_, _, _, rfl, rfl⟩
    | some ordinal =>
      rw [hordinal] at h
      cases h
  | some first =>
    rw [hfirst] at h
    cases hordinal : value.get "ordinal" with
    | none =>
      rw [hordinal] at h
      cases h
    | some ordinal =>
      rw [hordinal] at h
      dsimp only [isSome_some] at h
      cases hread : ordinal.as_u64 with
      | none =>
        rw [hread] at h
        cases h
      | some n =>
        rw [hread] at h
        dsimp only at h
        split at h
        · cases h
        · rename_i hnext
          rw [not_not] at hnext
          cases h
          exact ⟨_, _, _, rfl, n, hread, hnext.symm, rfl⟩

/-- What a native that is not refused leaves. -/
structure NativeRead (proof next : StreamProof) (native : Native) : Prop where
  fresh : compact "r:" native.response ∉ proof.responses
  responses : next.responses = insert (compact "r:" native.response) proof.responses
  follows : native.before = proof.member.last_after.getD proof.chain
  last_after : next.member.last_after = some native.after
  balance : next.member.balance = settle proof.member.balance native.usage 1
  native_turns : next.native_turns = (proof.turn.elim proof.native_turns
    (fun turn => insert turn proof.native_turns))

theorem elim_ok {α : Type} {reason : JoinRefusal} {x : Option α} {a : α} :
    x.elim (.error reason) .ok = Except.ok a ↔ x = some a := by
  cases x <;> simp

theorem require_ok {condition : Bool} {reason : JoinRefusal} {u : Unit} :
    require condition reason = .ok u ↔ condition = true := by
  cases condition <;> simp [require]

theorem follow_chain_ok {before : Tokens} {u : Unit} (h : self.follow_chain before = .ok u) :
    before = self.member.last_after.getD self.chain := by
  unfold follow_chain at h
  split at h
  · rename_i previous hlast
    rw [hlast]
    exact (of_decide_eq_true (require_ok.mp h)).symm
  · rename_i hlast
    rw [hlast]
    exact of_decide_eq_true (require_ok.mp h)

theorem observe_native_ok (h : self.observe_native value = .ok next) (turn : Option String) :
    ∃ native member responses native_turns, read_native turn value = some native ∧
      next = { self with responses, native_turns, member } ∧
      member.records = self.member.records ∧
      member.next_ordinal = self.member.next_ordinal ∧ NativeRead self next native := by
  unfold observe_native at h
  simp only [bind_eq_ok, elim_ok, require_ok] at h
  obtain ⟨payload, hpayload, thread, -, -, -, response, hresponse, usage, husage, after, hafter,
    before, hbefore, -, hfresh, _, hfollows, hnext⟩ := h
  obtain ⟨hresponse, -⟩ := filter_eq_some_iff.mp hresponse
  cases hnext
  refine ⟨{ response, usage, before, after, turn }, _, _, _, ?_, rfl, rfl, rfl, ?_⟩
  · unfold read_native
    simp only [hpayload, hresponse, husage, hafter, hbefore, bind_eq_bind, bind_some]
  · refine ⟨of_decide_eq_true hfresh, rfl, follow_chain_ok hfollows, rfl, rfl, ?_⟩
    cases self.turn <;> rfl

/-- What a record that is not refused leaves, in a group that is not independent. -/
structure RecordRead (proof next : StreamProof) (value : Value) : Prop where
  independent : next.independent = proof.independent
  plans : next.plans = proof.plans
  position : next.position = proof.position
  chain : next.chain = proof.chain
  ui : next.ui = proof.ui
  ui_turns : next.ui_turns = proof.ui_turns
  unbound_ui : next.unbound_ui = proof.unbound_ui
  records : next.member.records = proof.member.records + 1
  turn : next.turn = ((turn_of value).map (compact "t:")).or proof.turn
  ordinal : OrdinalRead (proof.plans[proof.position]?.bind MemberPlan.first) value proof.member
    next.member
  native : is_native value = true → ∀ turn, ∃ native, read_native turn value = some native ∧
    NativeRead { proof with turn := next.turn } next native
  other : is_native value = false → next.responses = proof.responses ∧
    next.member.last_after = proof.member.last_after ∧
    next.member.balance = proof.member.balance ∧ next.native_turns = proof.native_turns

theorem observe_record_ok (hgroup : self.independent = false)
    (h : self.observe_record out value = .ok next) : RecordRead self next value := by
  unfold observe_record at h
  simp only [bind_eq_ok] at h
  obtain ⟨headed, hheaded, h⟩ := h
  have hheaded := observe_header_ok (by exact hgroup) hheaded
  subst hheaded
  rw [if_neg (by rw [hgroup]; exact Bool.false_ne_true)] at h
  obtain ⟨placed, hplaced, h⟩ := bind_eq_ok.mp h
  obtain ⟨next_ordinal, last_ordinal, starts, rfl, hordinal⟩ := observe_ordinal_ok hplaced
  have hturn : self.running_turn value = ((turn_of value).map (compact "t:")).or self.turn := by
    unfold running_turn
    cases turn_of value <;> rfl
  unfold observe_usage at h
  dsimp only at h
  cases hnative : is_native value with
  | true =>
    rw [hnative, if_pos rfl] at h
    obtain ⟨_, member, responses, native_turns, -, hnext, hrecords, hnext_ordinal, -⟩ :=
      observe_native_ok h none
    subst hnext
    refine ⟨rfl, rfl, rfl, rfl, rfl, rfl, rfl, hrecords, hturn, ?_, ?_,
      fun hother => by rw [hnative] at hother; cases hother⟩
    · unfold OrdinalRead at hordinal ⊢
      dsimp only at hordinal ⊢
      rw [hnext_ordinal]
      exact hordinal
    · intro _ turn
      obtain ⟨native, _, _, _, hread, -, -, -, hleft⟩ := observe_native_ok h turn
      exact ⟨native, hread, hleft.fresh, hleft.responses, hleft.follows, hleft.last_after,
        hleft.balance, hleft.native_turns⟩
  | false =>
    rw [hnative, if_neg Bool.false_ne_true] at h
    cases h
    exact ⟨rfl, rfl, rfl, rfl, rfl, rfl, rfl, rfl, hturn, hordinal, (fun hother => by rw [hnative] at hother; cases hother),
      fun _ => ⟨rfl, rfl, rfl, rfl⟩⟩

/-- What an admission that is not refused leaves, in a group that is not independent. -/
structure AdmissionRead (proof next : StreamProof) (admission : Admission) : Prop where
  independent : next.independent = proof.independent
  plans : next.plans = proof.plans
  position : next.position = proof.position
  chain : next.chain = proof.chain
  responses : next.responses = proof.responses
  native_turns : next.native_turns = proof.native_turns
  records : next.member.records = proof.member.records
  turn : next.turn = proof.turn
  next_ordinal : next.member.next_ordinal = proof.member.next_ordinal
  last_after : next.member.last_after = proof.member.last_after
  fresh : compact "u:" admission.identity ∉ proof.ui
  ui : next.ui = insert (compact "u:" admission.identity) proof.ui
  balance : next.member.balance = if admission.v2 then proof.member.balance
    else settle proof.member.balance admission.tokens (-1)
  ui_turns : next.ui_turns = if admission.v2 then
    admission.turn.elim proof.ui_turns (fun turn => insert (compact "t:" turn) proof.ui_turns)
    else proof.ui_turns
  unbound_ui : next.unbound_ui = (proof.unbound_ui || (admission.v2 && admission.turn.isNone))

theorem admit_ok (hgroup : self.independent = false) {from_last : Bool}
    {identity turn : Option String}
    (h : self.admit_usage value from_last identity turn = .ok next) :
    ∃ admission, read_admission value identity turn self.v2 = some admission ∧
      AdmissionRead self next admission := by
  unfold admit_usage at h
  dsimp only at h
  split at h
  · cases h
  · cases identity with
    | none => cases h
    | some identity =>
      dsimp only at h
      split at h
      · cases h
      · rename_i hfresh
        rw [if_neg (by rw [hgroup]; exact Bool.false_ne_true)] at h
        cases htokens : (codex_last_usage_root value).bind Tokens.read with
        | none =>
          rw [htokens] at h
          cases h
        | some tokens =>
          rw [htokens] at h
          dsimp only at h
          refine ⟨{ identity, tokens, turn, v2 := self.v2 }, ?_, ?_⟩
          · unfold read_admission
            simp only [htokens, bind_eq_bind, bind_some]
          · split at h
            · rename_i hversion
              cases h
              unfold admit_bound
              cases turn with
              | none =>
                exact ⟨rfl, rfl, rfl, rfl, rfl, rfl, rfl, rfl, rfl, rfl, hfresh, rfl,
                  (if_pos hversion).symm, (if_pos hversion).symm, by simp [hversion]⟩
              | some turn =>
                exact ⟨rfl, rfl, rfl, rfl, rfl, rfl, rfl, rfl, rfl, rfl, hfresh, rfl,
                  (if_pos hversion).symm, (if_pos hversion).symm, by simp⟩
            · rename_i hversion
              cases h
              exact ⟨rfl, rfl, rfl, rfl, rfl, rfl, rfl, rfl, rfl, rfl, hfresh, rfl,
                (if_neg hversion).symm, (if_neg hversion).symm, by simp [admit_legacy, hversion]⟩

/-! ## A refusal stays -/

theorem step_of_refused (out : Outside) (h : self.refusal ≠ none) (event : Event) :
    (self.step out event).refusal = self.refusal := by
  have hsome : self.refusal.isSome = true := isSome_iff_ne_none.mpr h
  cases event with
  | record value offset =>
    show ((self.set_record_start offset).observe out value).refusal = _
    unfold observe
    rw [if_pos (by exact hsome)]
    rfl
  | admission value from_last identity turn v2 =>
    show ((self.decide_v2 v2).admitted_usage value from_last identity turn).refusal = _
    unfold admitted_usage
    rw [if_pos (by exact hsome)]
    rfl

theorem run_of_refused (out : Outside) (h : self.refusal ≠ none) (events : List Event) :
    (run (step out) self events).refusal = self.refusal := by
  induction events generalizing self with
  | nil => rfl
  | cons event rest ih =>
    have hstep := step_of_refused out h event
    rw [Run.cons, ih (by rw [hstep]; exact h), hstep]

theorem refuse_of_refused (h : self.refusal ≠ none) (reason : JoinRefusal) :
    (self.refuse reason).refusal = self.refusal := by
  unfold refuse
  rw [if_neg (by rw [isNone_iff_eq_none]; exact h)]

theorem begin_of_refused (h : self.refusal ≠ none) (position : Nat) :
    (self.begin_member position).refusal = self.refusal := by
  unfold begin_member
  dsimp only
  split
  · rfl
  · split
    · rfl
    · rw [refuse_of_refused (by exact h)]

theorem stream_of_refused (out : Outside) (h : self.refusal ≠ none) (position : Nat)
    (events : List Event) : (self.stream out position events).refusal = self.refusal := by
  have hbegin := begin_of_refused h position
  unfold stream
  rw [run_of_refused out (by rw [hbegin]; exact h), hbegin]

theorem close_of_refused (h : self.refusal ≠ none) (member : Member) :
    (self.close member).refusal = self.refusal := by
  unfold close end_member
  split
  · rfl
  · rw [if_pos (by exact isSome_iff_ne_none.mpr h)]
    rfl

theorem members_of_refused (out : Outside) (h : self.refusal ≠ none) (position : Nat)
    (members : List Member) : (self.members out position members).refusal = self.refusal := by
  induction members generalizing self position with
  | nil => rfl
  | cons member rest ih =>
    have hstream := stream_of_refused out h position member.events
    have hclose := @close_of_refused (self.stream out position member.events)
      (by rw [hstream]; exact h) member
    unfold members
    rw [ih (by rw [hclose, hstream]; exact h), hclose, hstream]

/-! ## What every call keeps -/

/-- The member holds usage, or something shaped like it. -/
def in_use (member : MemberState) : Prop :=
  member.usage_shaped = true ∨ 0 < member.natives ∨ 0 < member.admissions

/-- What no call of a member takes back. -/
structure Grows (proof next : StreamProof) : Prop where
  plans : next.plans = proof.plans
  position : next.position = proof.position
  independent : next.independent = proof.independent
  unbound_ui : proof.unbound_ui = true → next.unbound_ui = true
  in_use : in_use proof.member → in_use next.member
  refusal : next.refusal = proof.refusal ∨ ∃ reason, next.refusal = some (reason, proof.position)

namespace Grows

variable {later : StreamProof}

theorem refl (proof : StreamProof) : Grows proof proof := ⟨rfl, rfl, rfl, id, id, .inl rfl⟩

theorem trans (h : Grows self next) (h' : Grows next later) : Grows self later :=
  ⟨h'.plans.trans h.plans, h'.position.trans h.position, h'.independent.trans h.independent,
    fun hui => h'.unbound_ui (h.unbound_ui hui), fun hused => h'.in_use (h.in_use hused), by
      rcases h'.refusal with hsame | ⟨reason, hreason⟩
      · rw [hsame]
        exact h.refusal
      · exact .inr ⟨reason, by rw [hreason, h.position]⟩⟩

theorem refuse (self : StreamProof) (reason : JoinRefusal) : Grows self (self.refuse reason) := by
  unfold StreamProof.refuse
  split
  · exact ⟨rfl, rfl, rfl, id, id, .inr ⟨reason, rfl⟩⟩
  · exact refl self

theorem settle_with {result : Except JoinRefusal StreamProof}
    (h : ∀ next, result = .ok next → Grows self next) : Grows self (self.settle_with result) := by
  cases result with
  | ok next => exact h next rfl
  | error reason => exact refuse self reason

theorem observe_header {first : Bool} (h : self.observe_header out value first = .ok next) :
    Grows self next := by
  unfold StreamProof.observe_header at h
  split at h
  · split at h
    · cases h
    · split at h
      · cases h
      · split at h
        · unfold observe_placement at h
          split at h
          · cases h
          · obtain ⟨placement, -, h⟩ := bind_eq_ok.mp h
            dsimp only at h
            split at h
            · cases h
            · cases h
              exact ⟨rfl, rfl, rfl, id, id, .inl rfl⟩
        · cases h
          exact refl _
  · split at h
    · cases h
    · cases h
      exact refl _

theorem observe_usage (h : self.observe_usage value = .ok next) : Grows self next := by
  unfold StreamProof.observe_usage at h
  dsimp only at h
  have hshaped : ∀ {shaped : Bool} {member : MemberState},
      StreamProof.in_use member →
        StreamProof.in_use { member with usage_shaped := member.usage_shaped || shaped } := by
    intro shaped member hused
    rcases hused with hold | hmore
    · exact .inl (by rw [hold]; rfl)
    · exact .inr hmore
  split at h
  · unfold observe_native at h
    simp only [bind_eq_ok] at h
    obtain ⟨_, -, _, -, _, -, _, -, _, -, _, -, _, -, _, -, _, -, h⟩ := h
    cases h
    exact ⟨rfl, rfl, rfl, id, fun _ => .inr (.inl (Nat.succ_pos _)), .inl rfl⟩
  · cases h
    exact ⟨rfl, rfl, rfl, id, hshaped, .inl rfl⟩

theorem observe_record (h : self.observe_record out value = .ok next) : Grows self next := by
  unfold StreamProof.observe_record at h
  obtain ⟨headed, hheaded, h⟩ := bind_eq_ok.mp h
  have hcounted : Grows self headed := by
    refine Grows.trans ?_ (Grows.observe_header hheaded)
    exact ⟨rfl, rfl, rfl, id, id, .inl rfl⟩
  split at h
  · cases h
    exact hcounted
  · obtain ⟨placed, hplaced, h⟩ := bind_eq_ok.mp h
    obtain ⟨_, _, _, rfl, -⟩ := observe_ordinal_ok hplaced
    refine hcounted.trans (Grows.trans ?_ (Grows.observe_usage h))
    exact ⟨rfl, rfl, rfl, id, id, .inl rfl⟩

theorem admit_usage {from_last : Bool} {identity turn : Option String}
    (h : self.admit_usage value from_last identity turn = .ok next) : Grows self next := by
  have hcounted : ∀ {member : MemberState},
      StreamProof.in_use { member with admissions := member.admissions + 1 } :=
    .inr (.inr (Nat.succ_pos _))
  unfold StreamProof.admit_usage at h
  dsimp only at h
  split at h
  · cases h
  · split at h
    · cases h
    · split at h
      · cases h
      · split at h
        · split at h
          · cases h
          · cases h
            exact ⟨rfl, rfl, rfl, id, fun _ => hcounted, .inl rfl⟩
        · split at h
          · cases h
          · split at h
            · cases h
              unfold admit_bound
              cases turn with
              | none => exact ⟨rfl, rfl, rfl, fun _ => rfl, fun _ => hcounted, .inl rfl⟩
              | some turn => exact ⟨rfl, rfl, rfl, id, fun _ => hcounted, .inl rfl⟩
            · cases h
              exact ⟨rfl, rfl, rfl, id, fun _ => .inr (.inr (Nat.succ_pos _)), .inl rfl⟩

theorem step (self : StreamProof) (out : Outside) (event : Event) :
    Grows self (self.step out event) := by
  cases event with
  | record value offset =>
    refine @Grows.trans self (self.set_record_start offset) _ ⟨rfl, rfl, rfl, id, id, .inl rfl⟩ ?_
    show Grows _ ((self.set_record_start offset).observe out value)
    unfold observe
    split
    · exact refl _
    · exact settle_with (fun next => observe_record)
  | admission value from_last identity turn v2 =>
    refine @Grows.trans self (self.decide_v2 v2) _ ⟨rfl, rfl, rfl, id, id, .inl rfl⟩ ?_
    show Grows _ ((self.decide_v2 v2).admitted_usage value from_last identity turn)
    unfold admitted_usage
    split
    · exact refl _
    · exact settle_with (fun next => admit_usage)

theorem run (self : StreamProof) (out : Outside) (events : List Event) :
    Grows self (run (StreamProof.step out) self events) := by
  induction events generalizing self with
  | nil => exact refl self
  | cons event rest ih => exact (step self out event).trans (ih _)

end Grows

theorem begin_member_kept (self : StreamProof) (position : Nat) :
    (self.begin_member position).plans = self.plans ∧
      (self.begin_member position).position = position ∧
      (self.begin_member position).independent = self.independent := by
  unfold begin_member
  dsimp only
  split
  · exact ⟨rfl, rfl, rfl⟩
  · split
    · exact ⟨rfl, rfl, rfl⟩
    · have hrefuse := Grows.refuse
        { self with
          position
          member := { next_ordinal := self.plans[position]?.bind MemberPlan.first }
          turn := none } .HistoryBase
      exact ⟨hrefuse.plans, hrefuse.position, hrefuse.independent⟩

theorem stream_kept (self : StreamProof) (out : Outside) (position : Nat) (events : List Event) :
    (self.stream out position events).plans = self.plans ∧
      (self.stream out position events).position = position ∧
      (self.stream out position events).independent = self.independent := by
  obtain ⟨hplans, hposition, hindependent⟩ := self.begin_member_kept position
  have hgrown := Grows.run (self.begin_member position) out events
  exact ⟨hgrown.plans.trans hplans, hgrown.position.trans hposition,
    hgrown.independent.trans hindependent⟩

end StreamProof

end ottto_service.codex_file_join
