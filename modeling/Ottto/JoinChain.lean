-- A joined group is admitted as one gap-free counter chain (codex_file_join.rs): what a
-- replay that ends without a refusal has read.
import Ottto.JoinTrace

namespace ottto_service.codex_file_join

open serde_json json_fields accumulator sources.codex List Option StreamProof SortedMap

/-! ## The balance -/

theorem get_settle (balance : SortedMap Tokens Int) (tokens other : Tokens) (change : Int) :
    ((StreamProof.settle balance tokens change).get? other).getD 0 =
      (balance.get? other).getD 0 + if other = tokens then change else 0 := by
  unfold StreamProof.settle
  dsimp only
  by_cases hsame : other = tokens
  · subst hsame
    rw [if_pos rfl]
    split
    · rename_i hzero
      rw [get?_erase, if_pos rfl, hzero]
      rfl
    · rw [get?_insert_self]
      rfl
  · rw [if_neg hsame, add_zero]
    split
    · rw [get?_erase, if_neg hsame]
    · rw [get?_insert_ne _ _ hsame]

/-- The natives of a tuple less its admissions under the legacy count. -/
def owed (trace : Trace) (tokens : Tokens) : Int :=
  (trace.natives.map Native.usage).count tokens -
    ((trace.admissions.filter (fun admission => !admission.v2)).map Admission.tokens).count tokens

/-! ## A state and what was read -/

/-- The ordinals of an ordinal member count on from its first one. -/
def Ordinals (first : Option UInt64) (records : List Value) : Prop :=
  match first with
  | some first => ∀ i record, records[i]? = some record →
      ∃ ordinal, (record.get "ordinal").bind Value.as_u64 = some ordinal ∧
        ordinal.toNat = first.toNat + i
  | none => ∀ record ∈ records, record.get "ordinal" = none

/-- What a proof that has not refused holds of the natives and admissions it was given. -/
structure Holds (natives : List Native) (admissions : List Admission) (proof : StreamProof) :
    Prop where
  independent : proof.independent = false
  chain : GapFree natives
  counter : proof.member.last_after.getD proof.chain = counter natives
  responses : ∀ native ∈ natives, compact "r:" native.response ∈ proof.responses
  distinct_responses : (natives.map Native.response).Nodup
  identities : ∀ admission ∈ admissions, compact "u:" admission.identity ∈ proof.ui
  distinct_identities : (admissions.map Admission.identity).Nodup
  native_turns : ∀ x ∈ proof.native_turns, ∃ native ∈ natives, ∃ turn,
    native.turn = some turn ∧ compact "t:" turn = x
  ui_turns : ∀ admission ∈ admissions, admission.v2 = true →
    (∃ turn, admission.turn = some turn ∧ compact "t:" turn ∈ proof.ui_turns) ∨
      proof.unbound_ui = true

/-- What it holds of the member it is reading. -/
structure Reads (first : Option UInt64) (trace : Trace) (proof : StreamProof) : Prop where
  plan : proof.plans[proof.position]?.bind MemberPlan.first = first
  turn : proof.turn = trace.turn.map (compact "t:")
  balance : ∀ tokens, (proof.member.balance.get? tokens).getD 0 = owed trace tokens
  ordinals : Ordinals first trace.records
  next_ordinal : ∀ n first', first = some first' → proof.member.next_ordinal = some n →
    n.toNat = first'.toNat + trace.records.length
  natives_read : trace.natives.length = (trace.records.filter is_native).length
  admissions_read : trace.admissions.length = trace.admitted

section

variable {out : Outside} {proof next : StreamProof} {natives : List Native}
  {admissions : List Admission} {value : Value}

theorem Holds.native (h : Holds natives admissions proof)
    (hread : StreamProof.RecordRead proof next value) {native : Native}
    (hturn : read_native native.turn value = some native)
    (hleft : StreamProof.NativeRead { proof with turn := next.turn } next native)
    (hnext : next.turn = native.turn.map (compact "t:")) :
    Holds (natives ++ [native]) admissions next where
  independent := hread.independent.trans h.independent
  chain := h.chain.snoc (hleft.follows.trans h.counter) (read_native_adds hturn).2
  counter := by
    rw [counter_snoc, hleft.last_after]
    rfl
  responses := by
    intro other hother
    rw [hleft.responses, Finset.mem_insert]
    rcases mem_append.mp hother with hold | hnew
    · exact .inr (h.responses other hold)
    · exact .inl (by rw [mem_singleton.mp hnew])
  distinct_responses := by
    rw [map_append, nodup_append]
    refine ⟨h.distinct_responses, nodup_singleton _, ?_⟩
    intro old hold new hnew hsame
    obtain ⟨other, hother, rfl⟩ := mem_map.mp hold
    obtain rfl := mem_singleton.mp hnew
    apply hleft.fresh
    rw [← hsame]
    exact h.responses other hother
  identities := by
    rw [hread.ui]
    exact h.identities
  distinct_identities := h.distinct_identities
  native_turns := by
    intro x hx
    rw [hleft.native_turns] at hx
    have hold : x ∈ proof.native_turns → ∃ other ∈ natives ++ [native], ∃ turn,
        other.turn = some turn ∧ compact "t:" turn = x := by
      intro hmem
      obtain ⟨other, hother, hfound⟩ := h.native_turns x hmem
      exact ⟨other, mem_append_left _ hother, hfound⟩
    cases hnative_turn : native.turn with
    | none =>
      rw [hnative_turn] at hnext
      simp only [hnext, map_none, elim_none] at hx
      exact hold hx
    | some turn =>
      rw [hnative_turn] at hnext
      simp only [hnext, map_some, elim_some, Finset.mem_insert] at hx
      rcases hx with rfl | hx
      · exact ⟨native, mem_append_right _ mem_cons_self, turn, hnative_turn, rfl⟩
      · exact hold hx
  ui_turns := by
    rw [hread.ui_turns, hread.unbound_ui]
    exact h.ui_turns

theorem Holds.other (h : Holds natives admissions proof)
    (hread : StreamProof.RecordRead proof next value) (hother : is_native value = false) :
    Holds natives admissions next := by
  obtain ⟨hresponses, hlast, -, hturns⟩ := hread.other hother
  exact
    { h with
      independent := hread.independent.trans h.independent
      counter := by rw [hlast, hread.chain, h.counter]
      responses := by rw [hresponses]; exact h.responses
      identities := by rw [hread.ui]; exact h.identities
      native_turns := by rw [hturns]; exact h.native_turns
      ui_turns := by rw [hread.ui_turns, hread.unbound_ui]; exact h.ui_turns }

theorem Holds.admission (h : Holds natives admissions proof) {admission : Admission}
    (hread : StreamProof.AdmissionRead proof next admission) :
    Holds natives (admissions ++ [admission]) next where
  independent := hread.independent.trans h.independent
  chain := h.chain
  counter := by rw [hread.last_after, hread.chain, h.counter]
  responses := by rw [hread.responses]; exact h.responses
  distinct_responses := h.distinct_responses
  identities := by
    intro other hother
    rw [hread.ui, Finset.mem_insert]
    rcases mem_append.mp hother with hold | hnew
    · exact .inr (h.identities other hold)
    · exact .inl (by rw [mem_singleton.mp hnew])
  distinct_identities := by
    rw [map_append, nodup_append]
    refine ⟨h.distinct_identities, nodup_singleton _, ?_⟩
    intro old hold new hnew hsame
    obtain ⟨other, hother, rfl⟩ := mem_map.mp hold
    obtain rfl := mem_singleton.mp hnew
    apply hread.fresh
    rw [← hsame]
    exact h.identities other hother
  native_turns := by rw [hread.native_turns]; exact h.native_turns
  ui_turns := by
    intro other hother hv2
    rw [hread.ui_turns, hread.unbound_ui]
    rcases mem_append.mp hother with hold | hnew
    · rcases h.ui_turns other hold hv2 with ⟨turn, hturn, hmem⟩ | hunbound
      · refine .inl ⟨turn, hturn, ?_⟩
        split
        · cases admission.turn with
          | none => exact hmem
          | some _ => exact Finset.mem_insert_of_mem hmem
        · exact hmem
      · exact .inr (by rw [hunbound, Bool.true_or])
    · obtain rfl := mem_singleton.mp hnew
      cases hturn : other.turn with
      | none => exact .inr (by rw [hv2]; simp)
      | some turn =>
        refine .inl ⟨turn, rfl, ?_⟩
        rw [if_pos hv2]
        exact Finset.mem_insert_self _ _

variable {first : Option UInt64}

theorem Ordinals.snoc {records : List Value} (h : Ordinals first records) (hnew : match first with
      | some first => ∃ ordinal, (value.get "ordinal").bind Value.as_u64 = some ordinal ∧
          ordinal.toNat = first.toNat + records.length
      | none => value.get "ordinal" = none) : Ordinals first (records ++ [value]) := by
  cases first with
  | none =>
    intro record hrecord
    rcases mem_append.mp hrecord with hold | hlast
    · exact h record hold
    · rw [mem_singleton.mp hlast]
      exact hnew
  | some first =>
    intro i record hrecord
    rcases Nat.lt_trichotomy i records.length with hlt | rfl | hgt
    · rw [getElem?_append_left hlt] at hrecord
      exact h i record hrecord
    · rw [getElem?_concat_length] at hrecord
      cases hrecord
      exact hnew
    · rw [getElem?_eq_none (by rw [length_append]; exact hgt)] at hrecord
      cases hrecord

theorem successor_toNat {n next : UInt64} (h : StreamProof.successor n = some next) :
    next.toNat = n.toNat + 1 := by
  unfold StreamProof.successor at h
  split at h
  · rename_i hlt
    cases h
    exact Nat.mod_eq_of_lt hlt
  · cases h

variable {trace : Trace}

/-- The ordinal of the next record, and the next ordinal after it. -/
theorem Reads.ordinal (h : Reads first trace proof)
    (hread : StreamProof.RecordRead proof next value) :
    Ordinals first (trace.records ++ [value]) ∧
      ∀ n first', first = some first' → next.member.next_ordinal = some n →
        n.toNat = first'.toNat + (trace.records ++ [value]).length := by
  have hordinal := hread.ordinal
  rw [h.plan] at hordinal
  cases first with
  | none =>
    refine ⟨h.ordinals.snoc hordinal, ?_⟩
    intro n first' hnone
    cases hnone
  | some first =>
    obtain ⟨ordinal, hvalue, hexpected, hsuccessor⟩ := hordinal
    have hplace := h.next_ordinal ordinal first rfl hexpected
    refine ⟨h.ordinals.snoc ⟨ordinal, hvalue, hplace⟩, ?_⟩
    rintro n first' hfirst hn
    cases hfirst
    rw [hsuccessor] at hn
    rw [successor_toNat hn, hplace, length_append]
    rfl

theorem count_snoc (tokens other : Tokens) (l : List Tokens) :
    ((l ++ [other]).count tokens : Int) = l.count tokens + if tokens = other then 1 else 0 := by
  by_cases hsame : tokens = other
  · simp [hsame]
  · simp [hsame, Ne.symm hsame]

/-- The proof follows the trace of its member, behind what the members before it gave. -/
structure Follows (first : Option UInt64) (natives : List Native) (admissions : List Admission)
    (trace : Trace) (proof : StreamProof) : Prop where
  holds : Holds (natives ++ trace.natives) (admissions ++ trace.admissions) proof
  reads : Reads first trace proof

theorem Follows.set_record_start
    (h : Follows first natives admissions trace proof) (offset : UInt64) :
    Follows first natives admissions trace (proof.set_record_start offset) :=
  ⟨⟨h.holds.independent, h.holds.chain, h.holds.counter, h.holds.responses,
      h.holds.distinct_responses, h.holds.identities, h.holds.distinct_identities,
      h.holds.native_turns, h.holds.ui_turns⟩,
    ⟨h.reads.plan, h.reads.turn, h.reads.balance, h.reads.ordinals, h.reads.next_ordinal,
      h.reads.natives_read, h.reads.admissions_read⟩⟩

theorem Follows.decide_v2 (h : Follows first natives admissions trace proof) (v2 : Bool) :
    Follows first natives admissions trace (proof.decide_v2 v2) :=
  ⟨⟨h.holds.independent, h.holds.chain, h.holds.counter, h.holds.responses,
      h.holds.distinct_responses, h.holds.identities, h.holds.distinct_identities,
      h.holds.native_turns, h.holds.ui_turns⟩,
    ⟨h.reads.plan, h.reads.turn, h.reads.balance, h.reads.ordinals, h.reads.next_ordinal,
      h.reads.natives_read, h.reads.admissions_read⟩⟩

theorem Follows.record (h : Follows first natives admissions trace proof)
    (hread : StreamProof.RecordRead proof next value) (offset : UInt64) :
    Follows first natives admissions (trace.step (.record value offset)) next := by
  obtain ⟨hordinals, hnext_ordinal⟩ := h.reads.ordinal hread
  have hplan : next.plans[next.position]?.bind MemberPlan.first = first := by
    rw [hread.plans, hread.position]
    exact h.reads.plan
  have hturn : next.turn = ((turn_of value).or trace.turn).map (compact "t:") := by
    rw [hread.turn, h.reads.turn]
    cases turn_of value <;> rfl
  cases hnative : is_native value with
  | false =>
    obtain ⟨-, -, hbalance, -⟩ := hread.other hnative
    have hnatives : (trace.step (.record value offset)).natives = trace.natives := by
      simp [Trace.step, hnative]
    refine ⟨?_, hplan, hturn, ?_, hordinals, hnext_ordinal, ?_, h.reads.admissions_read⟩
    · rw [hnatives]
      exact h.holds.other hread hnative
    · intro tokens
      rw [hbalance, h.reads.balance]
      unfold owed
      rw [hnatives]
      rfl
    · rw [hnatives, h.reads.natives_read]
      simp [Trace.step, hnative]
  | true =>
    obtain ⟨native, hvalue, hleft⟩ := hread.native hnative ((turn_of value).or trace.turn)
    have hnatives : (trace.step (.record value offset)).natives = trace.natives ++ [native] := by
      simp [Trace.step, hnative, hvalue]
    obtain ⟨hnative_turn, -⟩ := read_native_adds hvalue
    refine ⟨?_, hplan, hturn, ?_, hordinals, hnext_ordinal, ?_, h.reads.admissions_read⟩
    · rw [hnatives, ← append_assoc]
      apply h.holds.native hread _ hleft
      · rw [hturn, hnative_turn]
      · rw [hnative_turn]
        exact hvalue
    · intro tokens
      have hbalance := h.reads.balance tokens
      rw [hleft.balance, get_settle, hbalance]
      unfold owed
      rw [hnatives, map_append, map_singleton, count_snoc]
      show _ = _ - (((trace.admissions.filter _).map _).count tokens : Int)
      omega
    · rw [hnatives, length_append, h.reads.natives_read]
      simp [Trace.step, hnative]

theorem Follows.admission {first : Option UInt64} {trace : Trace}
    (h : Follows first natives admissions trace proof) {from_last : Bool}
    {identity turn : Option String} {admission : Admission}
    (hvalue : read_admission value identity turn proof.v2 = some admission)
    (hread : StreamProof.AdmissionRead proof next admission) :
    Follows first natives admissions
      (trace.step (.admission value from_last identity turn proof.v2)) next := by
  have hadmissions : (trace.step (.admission value from_last identity turn proof.v2)).admissions =
      trace.admissions ++ [admission] := by
    simp [Trace.step, hvalue]
  refine ⟨?_, ?_, ?_, ?_, h.reads.ordinals, ?_, h.reads.natives_read, ?_⟩
  · rw [hadmissions, ← append_assoc]
    exact h.holds.admission hread
  · rw [hread.plans, hread.position]
    exact h.reads.plan
  · rw [hread.turn]
    exact h.reads.turn
  · intro tokens
    have hbalance := h.reads.balance tokens
    rw [hread.balance]
    unfold owed at hbalance ⊢
    rw [hadmissions, filter_append]
    show _ = (((trace.natives.map _).count tokens : Nat) : Int) - _
    cases hv2 : admission.v2 with
    | true => simpa [hv2] using hbalance
    | false =>
      rw [if_neg Bool.false_ne_true, get_settle, hbalance]
      simp only [filter_cons, hv2, Bool.not_false, if_true, filter_nil, map_append,
        map_singleton, count_snoc]
      split <;> omega
  · intro n first' hfirst hn
    rw [hread.next_ordinal] at hn
    exact h.reads.next_ordinal n first' hfirst hn
  · rw [hadmissions, length_append, h.reads.admissions_read]
    rfl

theorem Follows.step (h : Follows first natives admissions trace proof) (event : Event)
    (hnext : (proof.step out event).refusal = none) :
    Follows first natives admissions (trace.step event) (proof.step out event) := by
  have hrefusal : proof.refusal = none := by
    by_contra hrefused
    rw [step_of_refused out hrefused] at hnext
    exact hrefused hnext
  cases event with
  | record value offset =>
    have hstart := h.set_record_start offset
    change ((proof.set_record_start offset).observe out value).refusal = none at hnext
    show Follows _ _ _ _ ((proof.set_record_start offset).observe out value)
    unfold StreamProof.observe at hnext ⊢
    have hopen : (proof.set_record_start offset).refusal.isSome = false := by
      show proof.refusal.isSome = false
      rw [hrefusal]
      rfl
    rw [if_neg (by rw [hopen]; exact Bool.false_ne_true)] at hnext ⊢
    obtain ⟨next, hread, hsettled⟩ := settle_with_ok hnext
    rw [hsettled]
    exact hstart.record (observe_record_ok hstart.holds.independent hread) offset
  | admission value from_last identity turn v2 =>
    have hdecided := h.decide_v2 v2
    change ((proof.decide_v2 v2).admitted_usage value from_last identity turn).refusal = none at hnext
    show Follows _ _ _ _ ((proof.decide_v2 v2).admitted_usage value from_last identity turn)
    unfold admitted_usage at hnext ⊢
    have hopen : (proof.decide_v2 v2).refusal.isSome = false := by
      show proof.refusal.isSome = false
      rw [hrefusal]
      rfl
    rw [if_neg (by rw [hopen]; exact Bool.false_ne_true)] at hnext ⊢
    obtain ⟨next, hread, hsettled⟩ := settle_with_ok hnext
    rw [hsettled]
    obtain ⟨admission, hvalue, hleft⟩ := admit_ok hdecided.holds.independent hread
    exact @Follows.admission _ _ _ _ value first trace hdecided from_last identity turn admission
      hvalue hleft

theorem Follows.run (h : Follows first natives admissions trace proof) (events : List Event)
    (hnext : (run (StreamProof.step out) proof events).refusal = none) :
    Follows first natives admissions (run Trace.step trace events)
      (run (StreamProof.step out) proof events) := by
  induction events generalizing trace proof with
  | nil => exact h
  | cons event rest ih =>
    apply ih _ hnext
    apply h.step
    by_contra hrefused
    rw [Run.cons, run_of_refused out hrefused] at hnext
    exact hrefused hnext

/-- What a proof holds between two members. -/
structure Between (natives : List Native) (admissions : List Admission) (proof : StreamProof) :
    Prop where
  holds : Holds natives admissions { proof with member := {} }

theorem Between.begin_member (h : Between natives admissions proof) (position : Nat)
    (hnext : (proof.begin_member position).refusal = none) :
    Follows (proof.plans[position]?.bind MemberPlan.first) natives admissions {}
      (proof.begin_member position) := by
  have hbegun : proof.begin_member position =
      { proof with
        position
        member := { next_ordinal := proof.plans[position]?.bind MemberPlan.first }
        turn := none } := by
    unfold StreamProof.begin_member at hnext ⊢
    dsimp only at hnext ⊢
    split
    · rfl
    · split
      · rfl
      · rename_i hplan hbound
        rw [hplan] at hnext
        dsimp only at hnext
        rw [if_neg hbound] at hnext
        exact absurd hnext (StreamProof.refuse_ne_none _ _)
  rw [hbegun]
  refine ⟨?_, ?_⟩
  · rw [append_nil, append_nil]
    exact ⟨h.holds.independent, h.holds.chain, h.holds.counter, h.holds.responses,
      h.holds.distinct_responses, h.holds.identities, h.holds.distinct_identities,
      h.holds.native_turns, h.holds.ui_turns⟩
  · refine ⟨rfl, rfl, fun _ => rfl, ?_, ?_, rfl, rfl⟩
    · cases proof.plans[position]?.bind MemberPlan.first with
      | none => exact fun _ hrecord => by cases hrecord
      | some first => exact fun _ _ hrecord => by cases hrecord
    · intro n first hfirst hn
      rw [hfirst] at hn
      cases hn
      rfl

theorem settled_values {balance : SortedMap Tokens Int}
    (h : balance.values.any (fun balance => balance < 0) = false) (tokens : Tokens) :
    0 ≤ (balance.get? tokens).getD 0 := by
  rw [List.any_eq_false] at h
  cases hvalue : balance.get? tokens with
  | none => exact le_refl 0
  | some owed =>
    have hmem : owed ∈ balance.values :=
      mem_map_of_mem (f := Prod.snd) (mem_entries.mpr hvalue)
    have hnonneg := h owed hmem
    rw [decide_eq_true_eq] at hnonneg
    exact Int.not_lt.mp hnonneg

/-- A member that ends without a refusal owes nothing under the legacy count. -/
theorem Follows.close (h : Follows first natives admissions trace proof) (member : Member)
    (hnext : (proof.close member).refusal = none) :
    Between (natives ++ trace.natives) (admissions ++ trace.admissions) (proof.close member) ∧
      (proof.close member).v2 = member.v2 ∧ (proof.close member).plans = proof.plans ∧
      (member.v2 = false → ∀ tokens, 0 ≤ owed trace tokens) := by
  have hopen : proof.refusal = none := by
    by_contra hrefused
    rw [close_of_refused hrefused] at hnext
    exact hrefused hnext
  unfold StreamProof.close end_member at hnext ⊢
  have hgroup : (proof.decide_v2 member.v2).independent = false := h.holds.independent
  have hunrefused : (proof.decide_v2 member.v2).refusal = none := hopen
  rw [if_neg (by rw [hgroup]; exact Bool.false_ne_true),
    if_neg (by rw [hunrefused]; exact Bool.false_ne_true)] at hnext ⊢
  dsimp only at hnext ⊢
  split at hnext
  · exact absurd hnext (refuse_ne_none _ _)
  · rename_i hstub
    rw [if_neg hstub]
    split at hnext
    · exact absurd hnext (refuse_ne_none _ _)
    · rename_i hbalanced
      rw [if_neg hbalanced]
      refine ⟨⟨?_⟩, rfl, rfl, ?_⟩
      · exact ⟨h.holds.independent, h.holds.chain, h.holds.counter, h.holds.responses,
          h.holds.distinct_responses, h.holds.identities, h.holds.distinct_identities,
          h.holds.native_turns, h.holds.ui_turns⟩
      · intro hlegacy tokens
        have hv2 : (proof.decide_v2 member.v2).v2 = false := hlegacy
        rw [hv2, Bool.not_false, Bool.true_and, Bool.not_eq_true] at hbalanced
        rw [← h.reads.balance tokens]
        exact settled_values hbalanced tokens

end

/-! ## The group -/

/-- The tuples admitted in a member under the legacy count. -/
def Trace.legacy (self : Trace) : List Tokens :=
  (self.admissions.filter (fun admission => !admission.v2)).map Admission.tokens

/-- What a member without a refusal gave: all its natives and admissions were read, its
ordinals count on, and under the legacy count its natives back its admissions. -/
structure MemberAdmitted (first : Option UInt64) (member : Member) : Prop where
  natives_read : member.trace.natives.length = (member.trace.records.filter is_native).length
  admissions_read : member.trace.admissions.length = member.trace.admitted
  ordinals : Ordinals first member.trace.records
  backed : member.v2 = false →
    (member.trace.legacy : Multiset Tokens) ≤ (member.trace.natives.map Native.usage : List Tokens)

abbrev natives (members : List Member) : List Native :=
  members.flatMap (fun member => member.trace.natives)

abbrev admissions (members : List Member) : List Admission :=
  members.flatMap (fun member => member.trace.admissions)

theorem members_admitted {out : Outside} {proof : StreamProof} {before : List Native}
    {passed : List Admission} (h : Between before passed proof) (position : Nat)
    (members : List Member) (hnext : (proof.members out position members).refusal = none) :
    Between (before ++ natives members) (passed ++ admissions members)
        (proof.members out position members) ∧
      (∀ i member, members[i]? = some member →
        MemberAdmitted (proof.plans[position + i]?.bind MemberPlan.first) member) ∧
      (proof.members out position members).v2 =
        ((members.getLast?.map Member.v2).getD proof.v2) := by
  induction members generalizing proof position before passed with
  | nil =>
    refine ⟨?_, ?_, rfl⟩
    · rw [natives, admissions, flatMap_nil, flatMap_nil, append_nil, append_nil]
      exact h
    · intro i member hmember
      cases hmember
  | cons member rest ih =>
    unfold StreamProof.members at hnext ⊢
    have hclosed : ((proof.stream out position member.events).close member).refusal = none := by
      by_contra hrefused
      rw [members_of_refused out hrefused] at hnext
      exact hrefused hnext
    have hstream : (proof.stream out position member.events).refusal = none := by
      by_contra hrefused
      rw [close_of_refused hrefused] at hclosed
      exact hrefused hclosed
    have hbegun : (proof.begin_member position).refusal = none := by
      by_contra hrefused
      unfold StreamProof.stream at hstream
      rw [run_of_refused out hrefused] at hstream
      exact hrefused hstream
    have hfollows : Follows (proof.plans[position]?.bind MemberPlan.first) before passed
        member.trace (proof.stream out position member.events) :=
      (h.begin_member position hbegun).run member.events hstream
    obtain ⟨hbetween, hv2, hplans, hbacked⟩ := hfollows.close member hclosed
    obtain ⟨hafter, hmembers, hversion⟩ := ih hbetween (position + 1) hnext
    refine ⟨?_, ?_, ?_⟩
    · rw [append_assoc, append_assoc] at hafter
      exact hafter
    · intro i other hother
      cases i with
      | zero =>
        cases hother
        refine ⟨hfollows.reads.natives_read, hfollows.reads.admissions_read,
          hfollows.reads.ordinals, ?_⟩
        intro hlegacy
        rw [Multiset.le_iff_count]
        intro tokens
        have howed := hbacked hlegacy tokens
        rw [Multiset.coe_count, Multiset.coe_count]
        exact_mod_cast sub_nonneg.mp howed
      | succ i =>
        have hadmitted := hmembers i other hother
        rw [hplans, (proof.stream_kept out position member.events).1,
          show position + 1 + i = position + (i + 1) by omega] at hadmitted
        exact hadmitted
    · rw [hversion, hv2]
      cases rest with
      | nil => rfl
      | cons next more =>
        rw [getLast?_cons_cons]
        cases hlast : (next :: more).getLast? with
        | none => simp at hlast
        | some last => rfl

/-- Every admission and every member's end was read under one counting version. -/
def InMode (v2 : Bool) (members : List Member) : Prop :=
  ∀ member ∈ members, member.v2 = v2 ∧ ∀ admission ∈ member.trace.admissions, admission.v2 = v2

/-- What an admitted group is, the turns of its admissions apart. -/
structure Admitted (plans : List MemberPlan) (members : List Member) : Prop where
  chain : GapFree (natives members)
  responses : ((natives members).map Native.response).Nodup
  identities : ((admissions members).map Admission.identity).Nodup
  total : ∀ i, ((natives members).map (fun native => (native.usage.values i).toNat)).sum =
    ((counter (natives members)).values i).toNat
  files : ∀ (i : Nat) (member : Member), members[i]? = some member →
    MemberAdmitted (plans[i]?.bind MemberPlan.first) member
  legacy : InMode false members → ∀ i,
    ((admissions members).map (fun admission => (admission.tokens.values i).toNat)).sum ≤
      ((counter (natives members)).values i).toNat

/-- The turn of each admission is one in which a native was read. -/
def TurnsBacked (members : List Member) : Prop :=
  ∀ admission ∈ admissions members, ∃ native ∈ natives members,
    native.turn.isSome = true ∧ native.turn = admission.turn

/-- No admission in a turn without natives has the compact id of a turn that has one. -/
def TurnsApart (members : List Member) : Prop :=
  ∀ admission ∈ admissions members, ∀ native ∈ natives members, ∀ turn other,
    admission.turn = some turn → native.turn = some other → compact "t:" turn = compact "t:" other →
      ∃ native ∈ natives members, native.turn = some turn

/-- What is asked of a group that is admitted. -/
def Claimed (plans : List MemberPlan) (members : List Member) : Prop :=
  Admitted plans members ∧ (InMode true members → TurnsBacked members)

section

variable {members : List Member}

theorem sum_le_of_backed {tokens usages : List Tokens}
    (h : (tokens : Multiset Tokens) ≤ (usages : Multiset Tokens)) (i : Fin 6) :
    (tokens.map (fun tokens => (tokens.values i).toNat)).sum ≤
      (usages.map (fun tokens => (tokens.values i).toNat)).sum := by
  obtain ⟨rest, hrest⟩ := Multiset.le_iff_exists_add.mp h
  have hsums := congrArg
    (fun tokens => (tokens.map (fun tokens : Tokens => (tokens.values i).toNat)).sum) hrest
  simp only [Multiset.map_coe, Multiset.sum_coe, Multiset.map_add, Multiset.sum_add] at hsums
  omega

/-- Under the legacy count a member admits no more than its natives hold. -/
theorem member_sum_le {first : Option UInt64} {member : Member}
    (h : MemberAdmitted first member) (hv2 : member.v2 = false)
    (hlegacy : ∀ admission ∈ member.trace.admissions, admission.v2 = false) (i : Fin 6) :
    (member.trace.admissions.map (fun admission => (admission.tokens.values i).toNat)).sum ≤
      (member.trace.natives.map (fun native => (native.usage.values i).toNat)).sum := by
  have hall : member.trace.admissions.filter (fun admission => !admission.v2) =
      member.trace.admissions := by
    rw [filter_eq_self]
    intro admission hadmission
    rw [hlegacy admission hadmission]
    rfl
  have hsum := sum_le_of_backed (h.backed hv2) i
  unfold Trace.legacy at hsum
  rw [hall, List.map_map, List.map_map] at hsum
  exact hsum

theorem legacy_sum_le {plan : Nat → Option UInt64} (hmode : InMode false members)
    (h : ∀ (i : Nat) (member :
    Member), members[i]? = some member → MemberAdmitted (plan i) member) (i : Fin 6) :
    ((admissions members).map (fun admission => (admission.tokens.values i).toNat)).sum ≤
      ((natives members).map (fun native => (native.usage.values i).toNat)).sum := by
  induction members generalizing plan with
  | nil => exact le_refl _
  | cons member rest ih =>
    obtain ⟨hv2, hlegacy⟩ := hmode member mem_cons_self
    have hfirst := member_sum_le (h 0 member rfl) hv2 hlegacy i
    have hrest := ih (fun other hother => hmode other (mem_cons_of_mem _ hother))
      (fun j other hother => h (j + 1) other hother)
    rw [admissions, natives, flatMap_cons, flatMap_cons, map_append, map_append,
      sum_append, sum_append]
    exact Nat.add_le_add hfirst hrest

theorem between_new (owner : String) (v2 : Bool) (plans : List MemberPlan) :
    Between [] [] (StreamProof.new owner v2 plans) where
  holds :=
    { independent := rfl
      chain := gap_free_nil
      counter := rfl
      responses := fun _ hmem => by cases hmem
      distinct_responses := nodup_nil
      identities := fun _ hmem => by cases hmem
      distinct_identities := nodup_nil
      native_turns := fun x hmem => absurd hmem (Finset.notMem_empty x)
      ui_turns := fun _ hmem => by cases hmem }

/-- The end of the group backs the compact turns of its admissions. -/
theorem finish_group_ok {proof : StreamProof} (h : proof.finish_group.refusal = none) :
    proof.refusal = none ∧ (proof.v2 = true →
      proof.unbound_ui = false ∧ proof.ui_turns ⊆ proof.native_turns) := by
  unfold finish_group at h
  split at h
  · rename_i hskip
    refine ⟨h, ?_⟩
    intro hv2
    rw [h, hv2] at hskip
    simp at hskip
  · split at h
    · exact absurd h (refuse_ne_none _ _)
    · rename_i hbound
      split at h
      · exact absurd h (refuse_ne_none _ _)
      · rename_i hsubset
        exact ⟨h, fun _ => ⟨Bool.not_eq_true _ ▸ hbound, not_not.mp hsubset⟩⟩

/-- A group without a refusal is one gap-free counter chain, with each response and each usage
event once, each member's ordinals in a row, and every legacy admission backed by a native of
its member. Its V2 admissions stand in turns with natives if and only if no turn without one
shares its compact id with a turn that has one. -/
theorem admitted_group_is_one_chain (out : Outside) (owner : String) (v2 : Bool)
    (plans : List MemberPlan) (members : List Member)
    (h : ((StreamProof.new owner v2 plans).replay out members).refusal = none) :
    Claimed plans members ↔ (InMode true members → TurnsApart members) := by
  obtain ⟨hrefusal, hturns⟩ := finish_group_ok h
  obtain ⟨hbetween, hmembers, hversion⟩ :=
    members_admitted (between_new owner v2 plans) 0 members hrefusal
  rw [nil_append, nil_append] at hbetween
  have hholds := hbetween.holds
  have hplaces : ∀ (i : Nat) (member : Member), members[i]? = some member →
      MemberAdmitted (plans[i]?.bind MemberPlan.first) member := by
    intro i member hmember
    have hadmitted := hmembers i member hmember
    rw [Nat.zero_add] at hadmitted
    exact hadmitted
  have hadmitted : Admitted plans members :=
    { chain := hholds.chain
      responses := hholds.distinct_responses
      identities := hholds.distinct_identities
      total := hholds.chain.sum_usage
      files := hplaces
      legacy := by
        intro hmode i
        rw [← hholds.chain.sum_usage i]
        exact legacy_sum_le hmode hplaces i }
  constructor
  · rintro ⟨-, hbacked⟩ hmode admission hadmission native hnative turn other hturn hother hsame
    obtain ⟨backing, hbacking, -, hequal⟩ := hbacked hmode admission hadmission
    exact ⟨backing, hbacking, hequal.trans hturn⟩
  · intro hapart
    refine ⟨hadmitted, ?_⟩
    intro hmode admission hadmission
    obtain ⟨member, hmember, hin⟩ := mem_flatMap.mp hadmission
    have hv2 : ((StreamProof.new owner v2 plans).members out 0 members).v2 = true := by
      rw [hversion]
      cases hlast : members.getLast? with
      | none =>
        rw [getLast?_eq_none_iff.mp hlast] at hmember
        cases hmember
      | some last => exact (hmode last (mem_of_getLast? hlast)).1
    obtain ⟨hbound, hsubset⟩ := hturns hv2
    have hui := hholds.ui_turns admission hadmission ((hmode member hmember).2 admission hin)
    rcases hui with ⟨turn, hturn, hmem⟩ | hunbound
    · obtain ⟨native, hnative, other, hother, hsame⟩ := hholds.native_turns _ (hsubset hmem)
      obtain ⟨backing, hbacking, hbacked⟩ :=
        hapart hmode admission hadmission native hnative turn other hturn hother hsame.symm
      exact ⟨backing, hbacking, by rw [hbacked]; rfl, hbacked.trans hturn.symm⟩
    · cases hunbound.symm.trans hbound

end

/-! ## Two turns of one compact id -/

def example_outside : Outside where
  time := .of_table []
  to_string _ := ""

def example_usage (tokens : UInt64) : Value :=
  .object [("input_tokens", .number (.PosInt tokens)), ("cached_input_tokens", .number (.PosInt 0)),
    ("output_tokens", .number (.PosInt 0)), ("reasoning_output_tokens", .number (.PosInt 0)),
    ("total_tokens", .number (.PosInt tokens))]

def example_header : Value :=
  .object [("type", .string "session_meta"), ("payload", .object [("id", .string "thread-1")])]

def example_turn (turn : String) : Value :=
  .object [("type", .string "turn_context"), ("payload", .object [("turn_id", .string turn)])]

def example_native : Value :=
  .object [("type", .string "token_usage_record"), ("payload", .object [
    ("thread_id", .string "thread-1"), ("response_id", .string "resp-1"),
    ("usage", example_usage 5), ("thread_token_usage", example_usage 5)])]

def example_ui : Value :=
  .object [("type", .string "event_msg"), ("payload", .object [("type", .string "token_count"),
    ("info", .object [("last_token_usage", example_usage 5)])])]

/-- One file: a native in one turn, and an admission in another. -/
def example_member (native_turn ui_turn : String) (v2 : Bool) : Member where
  events := [.record example_header 0, .record (example_turn native_turn) 100,
    .record example_native 200, .record (example_turn ui_turn) 300, .record example_ui 400,
    .admission example_ui true (some "event-1") (some ui_turn) v2]
  end_ := 500
  v2

/-- A file whose admission is in the turn of its native. -/
theorem one_backed_file_is_one_chain :
    let member := example_member "turn-1" "turn-1" true
    ((StreamProof.new "thread-1" false [{}]).replay example_outside [member]).refusal = none ∧
      (Claimed [{}] [member] ↔ (InMode true [member] → TurnsApart [member])) :=
  ⟨by decide +kernel,
    admitted_group_is_one_chain example_outside "thread-1" false [{}] _ (by decide +kernel)⟩

def native_turn : String := "019aa4c0-51e2-7b36-bc57-4cae415e1d9d"

/-- Another turn, with the same first eight bytes of its digest. -/
def colliding_turn : String := "019aa4c0-51e2-7b36-fd83-59be8e435b86"

/-- A turn without a native is admitted under V2 behind a turn of the same compact id. -/
theorem a_colliding_turn_is_admitted :
    ((StreamProof.new "thread-1" false [{}]).replay example_outside
        [example_member native_turn colliding_turn true]).refusal = none ∧
      ¬ Claimed [{}] [example_member native_turn colliding_turn true] := by
  refine ⟨by decide +kernel, ?_⟩
  rintro ⟨-, hturns⟩
  have hmode : InMode true [example_member native_turn colliding_turn true] := by
    unfold InMode
    decide +kernel
  have hadmissions : (admissions [example_member native_turn colliding_turn true]).map
      Admission.turn = [some colliding_turn] := by decide +kernel
  have hnatives : (natives [example_member native_turn colliding_turn true]).map
      Native.turn = [some native_turn] := by decide +kernel
  obtain ⟨admission, hadmission, hturn⟩ := mem_map.mp
    (hadmissions ▸ mem_cons_self : some colliding_turn ∈ (admissions _).map Admission.turn)
  obtain ⟨native, hnative, -, hequal⟩ := hturns hmode admission hadmission
  have hother : native.turn ∈ [some native_turn] := hnatives ▸ mem_map_of_mem hnative
  rw [mem_singleton.mp hother, hturn] at hequal
  exact absurd hequal (by decide +kernel)

end ottto_service.codex_file_join
