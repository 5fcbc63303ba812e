-- A refusal that appending does not cure stays (codex_file_join.rs): the canonical order of
-- a group from its headers, and the replay of a group whose last file has grown.
import Ottto.JoinChain

namespace ottto_service.codex_file_join

open serde_json json_fields accumulator sources.codex List Option Results StreamProof

/-! ## The plan of a group -/

structure MemberHeader where
  digest : String
  size : UInt64
  created : Option Int
  ordinal : Option UInt64
  history_base : Option (Option String × Option UInt64 × Option UInt64)
  forked : Bool
  subagent_start : Bool
  created_thread : Bool
  classification : Option String × Option String
  names : List String
deriving Inhabited

structure GroupPlan where
  order : List Nat
  plans : List MemberPlan
  ordinal : Bool

/-- `None` stands before every time, and the key breaks a tie. -/
def chronological (headers : List MemberHeader) (keys : List String) (a b : Nat) : Bool :=
  match (headers.getD a default).created, (headers.getD b default).created with
  | none, some _ => true
  | some _, none => false
  | none, none => decide (keys.getD a "" ≤ keys.getD b "")
  | some left, some right =>
    decide (left < right) || (left == right && decide (keys.getD a "" ≤ keys.getD b ""))

/-- A later origin restarts the ordinals, and every origin but the last one is a stub. -/
def plan_origin (headers : List MemberHeader) (order : List Nat) (main : Nat)
    (plans : List MemberPlan) (origin : Nat) : Except JoinRefusal (List MemberPlan) :=
  let header := headers.getD origin default
  if header.ordinal ≠ some 0 ∨ header.forked ∨ header.subagent_start ∨
      header.classification ≠ (headers.getD main default).classification then .error .OrdinalRestart
  else
    .ok (plans.modify (order.idxOf origin) (fun plan => { plan with stub := decide (origin ≠ main) }))

/-- A continuation binds to the one member that its base names, read before it. -/
def plan_member (headers : List MemberHeader) (order : List Nat) (plans : List MemberPlan)
    (place : Nat × Nat) : Except JoinRefusal (List MemberPlan) :=
  let (member, at_) := place
  let header := headers.getD member default
  let plans := plans.modify at_ (fun plan => { plan with first := header.ordinal })
  match header.history_base with
  | none => .ok plans
  | some base =>
    if header.forked ∨ header.subagent_start then .error .HistoryBase
    else
      match base with
      | (some thread, some end_, some offset) =>
        let named := (List.range headers.length).filter (fun other =>
          decide (other ≠ member) && (headers.getD other default).names.contains thread)
        match named with
        | [predecessor] =>
          if header.ordinal ≠ some end_ ∨ at_ ≤ order.idxOf predecessor then .error .HistoryBase
          else
            let bound := plans.modify at_ (fun plan =>
              { plan with binding := some (order.idxOf predecessor, end_, offset) })
            .ok (bound.modify (order.idxOf predecessor) (fun plan =>
              { plan with watch := plan.watch ++ [end_] }))
        | [] => .error .MissingPredecessor
        | _ => .error .AmbiguousPredecessor
      | _ => .error .HistoryBase

/-- The plan of members whose order is known. -/
def plan_ordered (headers : List MemberHeader) (ordinal : Bool) (order : List Nat) :
    Except JoinRefusal GroupPlan :=
  match order.head? with
  | none => .error .Corrupt
  | some first =>
    let first := headers.getD first default
    if first.forked || first.subagent_start then .error .ForkedFromOtherSession
    else
      match first.history_base with
      | some (thread, _, _) =>
        let named := thread.map (fun thread =>
          headers.any (fun header => header.names.contains thread))
        .error (if named = some false then .MissingPredecessor else .HistoryBase)
      | none =>
        let plans := List.replicate headers.length ({} : MemberPlan)
        if !ordinal then
          if headers.any (fun header =>
              header.forked || header.subagent_start || header.history_base.isSome) then
            .error .HistoryBase
          else .ok { order, plans, ordinal }
        else do
          let origins := order.filter (fun member =>
            (headers.getD member default).history_base.isNone)
          let main := origins.getLastD 0
          let plans ← origins.foldlM (plan_origin headers order main) plans
          let plans ← order.zipIdx.foldlM (plan_member headers order) plans
          .ok { order, plans, ordinal }

/-- The position of a member is its place in the order. -/
def plan_group (headers : List MemberHeader) (keys : List String) : Except JoinRefusal GroupPlan :=
  let ordinal := headers.head?.any (fun header => header.ordinal.isSome)
  if ¬ (headers.map (fun header => (header.digest, header.size))).Nodup then .error .CandidateCopy
  else if headers.any (fun header => header.ordinal.isSome != ordinal) then .error .MixedOrdinal
  else if headers.any MemberHeader.created_thread then .error .CreatedThreadGroup
  else plan_ordered headers ordinal
    ((List.range headers.length).insertionSort (fun a b => chronological headers keys a b))

/-! ## The last member is no stub -/

/-- The plan at a position is no stub. -/
def NoStub (plans : List MemberPlan) (position : Nat) : Prop :=
  ∀ plan, plans[position]? = some plan → plan.stub = false

theorem no_stub_modify {plans : List MemberPlan} {position : Nat} (h : NoStub plans position)
    (other : Nat) {change : MemberPlan → MemberPlan}
    (hkept : other = position → ∀ plan, plan.stub = false → (change plan).stub = false) :
    NoStub (plans.modify other change) position := by
  intro plan hplan
  rw [getElem?_modify] at hplan
  obtain ⟨old, hold, hnew⟩ := map_eq_some_iff.mp hplan
  have hstub := h old hold
  split at hnew
  · rename_i hsame
    rw [← hnew]
    exact hkept hsame old hstub
  · rw [← hnew]
    exact hstub

variable {headers : List MemberHeader} {order : List Nat}

theorem no_stub_origins {origins : List Nat}
    {main position : Nat} {plans planned : List MemberPlan} (h : NoStub plans position)
    (hmain : ∀ origin ∈ origins, order.idxOf origin = position → origin = main)
    (hplanned : origins.foldlM (plan_origin headers order main) plans = .ok planned) :
    NoStub planned position := by
  apply foldlM_invariant (fun plans => NoStub plans position) _ h hplanned
  intro origin horigin plans next hplans hnext
  unfold plan_origin at hnext
  dsimp only at hnext
  split at hnext
  · cases hnext
  · cases hnext
    apply no_stub_modify hplans
    intro hsame _ _
    exact decide_eq_false (not_not.mpr (hmain origin horigin hsame))

theorem no_stub_members {places : List (Nat × Nat)}
    {position : Nat} {plans planned : List MemberPlan} (h : NoStub plans position)
    (hplanned : places.foldlM (plan_member headers order) plans = .ok planned) :
    NoStub planned position := by
  apply foldlM_invariant (fun plans => NoStub plans position) _ h hplanned
  rintro ⟨member, at_⟩ - plans next hplans hnext
  have hfirst := @no_stub_modify _ _ hplans at_
    (fun plan => { plan with first := (headers.getD member default).ordinal })
    (fun _ _ hstub => hstub)
  unfold plan_member at hnext
  dsimp only at hnext
  split at hnext
  · cases hnext
    exact hfirst
  · split at hnext
    · cases hnext
    · split at hnext
      · split at hnext
        · split at hnext
          · cases hnext
          · cases hnext
            apply no_stub_modify (no_stub_modify hfirst _ _)
            · exact fun _ _ hstub => hstub
            · exact fun _ _ hstub => hstub
        · cases hnext
        · cases hnext
      · cases hnext

/-- The last member of an order, where it passes a filter, is the last that does. -/
theorem last_of_filter {test : Nat → Bool} {member : Nat}
    (hmember : member ∈ order.filter test) (hlast : order.idxOf member = order.length - 1) :
    member = (order.filter test).getLastD 0 := by
  obtain ⟨hin, htest⟩ := mem_filter.mp hmember
  have hlt := idxOf_lt_length_iff.mpr hin
  obtain ⟨before, last, rfl⟩ : ∃ before last, order = before ++ [last] :=
    ⟨order.dropLast, order.getLast (ne_nil_of_mem hin),
      (dropLast_concat_getLast (ne_nil_of_mem hin)).symm⟩
  have hplace := getElem?_idxOf hin
  rw [hlast, length_append, length_singleton, Nat.add_sub_cancel,
    getElem?_concat_length] at hplace
  cases hplace
  rw [filter_append, filter_cons_of_pos htest, filter_nil,
    getLastD_concat]

/-- The last origin is the main one, so a stub is never the last member. -/
theorem last_member_no_stub {keys : List String} {plan : GroupPlan}
    (h : plan_group headers keys = .ok plan) : NoStub plan.plans (headers.length - 1) := by
  have hdefault : NoStub (List.replicate headers.length ({} : MemberPlan)) (headers.length - 1) := by
    intro plan hplan
    rw [getElem?_replicate] at hplan
    split at hplan
    · cases hplan
      rfl
    · cases hplan
  unfold plan_group plan_ordered at h
  dsimp only at h
  split at h
  · cases h
  · split at h
    · cases h
    · split at h
      · cases h
      · split at h
        · cases h
        · split at h
          · cases h
          · split at h
            · cases h
            · split at h
              · split at h
                · cases h
                · cases h
                  exact hdefault
              · obtain ⟨origins, horigins, h⟩ := bind_eq_ok.mp h
                obtain ⟨plans, hplans, h⟩ := bind_eq_ok.mp h
                cases h
                apply no_stub_members _ hplans
                apply no_stub_origins hdefault _ horigins
                intro origin horigin hplace
                apply last_of_filter horigin
                rw [hplace, length_insertionSort, length_range]

/-! ## Growth of the last member -/

/-- The proof that a group of `n` members is opened with. -/
inductive Opened (n : Nat) : StreamProof → Prop where
  | joined (owner : String) (v2 : Bool) {headers : List MemberHeader} {keys : List String}
      {plan : GroupPlan} (planned : plan_group headers keys = .ok plan)
      (members : headers.length = n) : Opened n (.new owner v2 plan.plans)
  | independent (owner : String) : Opened n (.new_independent owner n)

namespace StreamProof

variable {self : StreamProof} {out : Outside}

theorem members_snoc (self : StreamProof) (out : Outside) (position : Nat) (before : List Member)
    (last : Member) :
    self.members out position (before ++ [last]) =
      ((self.members out position before).stream out (position + before.length)
        last.events).close last := by
  induction before generalizing self position with
  | nil => rfl
  | cons member rest ih =>
    show (((self.stream out position member.events).close member).members out (position + 1)
      (rest ++ [last])) = _
    rw [ih, length_cons, show position + 1 + rest.length = position + (rest.length + 1) by omega]
    rfl

theorem close_kept (self : StreamProof) (member : Member) :
    (self.close member).plans = self.plans ∧ (self.close member).position = self.position ∧
      (self.close member).unbound_ui = self.unbound_ui ∧ (self.close member).v2 = member.v2 := by
  have hrefuse : ∀ (proof : StreamProof) (reason : JoinRefusal),
      (proof.refuse reason).plans = proof.plans ∧ (proof.refuse reason).position = proof.position ∧
        (proof.refuse reason).unbound_ui = proof.unbound_ui ∧ (proof.refuse reason).v2 = proof.v2 := by
    intro proof reason
    unfold refuse
    split <;> exact ⟨rfl, rfl, rfl, rfl⟩
  unfold close end_member
  dsimp only
  split
  · exact ⟨rfl, rfl, rfl, rfl⟩
  · split
    · exact ⟨rfl, rfl, rfl, rfl⟩
    · split
      · exact hrefuse _ _
      · split
        · exact hrefuse _ _
        · exact ⟨rfl, rfl, rfl, rfl⟩

theorem members_plans (self : StreamProof) (out : Outside) (position : Nat)
    (members : List Member) : (self.members out position members).plans = self.plans := by
  induction members generalizing self position with
  | nil => rfl
  | cons member rest ih =>
    have hclose := (self.stream out position member.events).close_kept member
    unfold StreamProof.members
    rw [ih, hclose.1, (self.stream_kept out position member.events).1]

theorem ui_refusal_curable (member : MemberState) : (ui_refusal member).append_curable = true := by
  unfold ui_refusal
  split
  · rfl
  · split <;> rfl

variable {reason : JoinRefusal} {position : Nat}

/-- A first refusal is raised at the position that is read. -/
theorem refuse_at {first : JoinRefusal}
    (h : (self.refuse reason).refusal = some (first, position)) (hopen : self.refusal = none) :
    first = reason ∧ position = self.position := by
  unfold refuse at h
  rw [hopen] at h
  cases h
  exact ⟨rfl, rfl⟩

/-- The end of a member refuses at its position: as a stub, or in a way that growth may cure. -/
theorem close_refusal {member : Member} (hopen : self.refusal = none)
    (h : (self.close member).refusal = some (reason, position)) :
    position = self.position ∧
      (reason.append_curable = true ∨ ¬ NoStub self.plans self.position) := by
  unfold close end_member at h
  dsimp only at h
  split at h
  · rw [show (self.decide_v2 member.v2).refusal = self.refusal from rfl, hopen] at h
    cases h
  · split at h
    · rw [show (self.decide_v2 member.v2).refusal = self.refusal from rfl, hopen] at h
      cases h
    · split at h
      · rename_i hstub
        obtain ⟨rfl, rfl⟩ := refuse_at h hopen
        refine ⟨rfl, .inr ?_⟩
        intro hno_stub
        rw [Bool.and_eq_true, Option.any_eq_true] at hstub
        obtain ⟨⟨plan, hplan, hstub⟩, -⟩ := hstub
        rw [hno_stub plan hplan] at hstub
        cases hstub
      · split at h
        · obtain ⟨rfl, rfl⟩ := refuse_at h hopen
          exact ⟨rfl, .inl (ui_refusal_curable _)⟩
        · rw [show (self.decide_v2 member.v2).refusal = self.refusal from rfl, hopen] at h
          cases h

/-- The end of a group refuses as V2, at the last position. -/
theorem finish_group_refusal (hopen : self.refusal = none)
    (h : self.finish_group.refusal = some (reason, position)) :
    position = self.position ∧ self.v2 = true ∧
      (reason = .V2UnboundUi ∧ self.unbound_ui = true ∨ reason = .V2UiOnlyTurn) := by
  unfold finish_group at h
  split at h
  · rw [hopen] at h
    cases h
  · rename_i hv2
    have hv2 : self.v2 = true := by
      rw [not_or, Bool.not_eq_true', Bool.not_eq_false] at hv2
      exact hv2.2
    split at h
    · rename_i hunbound
      obtain ⟨rfl, rfl⟩ := refuse_at h hopen
      exact ⟨rfl, hv2, .inl ⟨rfl, hunbound⟩⟩
    · split at h
      · obtain ⟨rfl, rfl⟩ := refuse_at h hopen
        exact ⟨rfl, hv2, .inr rfl⟩
      · rw [hopen] at h
        cases h

theorem finish_of_refused (h : self.refusal ≠ none) : self.finish_group.refusal = self.refusal := by
  unfold finish_group
  rw [if_pos (.inl (isSome_iff_ne_none.mpr h))]

/-- An unbound admission refuses a V2 group, at its last position if not before. -/
theorem finish_unbound (hv2 : self.v2 = true) (hunbound : self.unbound_ui = true)
    (hrefusal : ∀ reason position, self.refusal = some (reason, position) →
      position = self.position) :
    ∃ reason, self.finish_group.refusal = some (reason, self.position) := by
  cases hrefused : self.refusal with
  | some first =>
    obtain ⟨reason, position⟩ := first
    have hposition := hrefusal reason position hrefused
    refine ⟨reason, ?_⟩
    rw [finish_of_refused (by rw [hrefused]; exact some_ne_none _), hrefused, hposition]
  | none =>
    refine ⟨.V2UnboundUi, ?_⟩
    unfold finish_group
    rw [if_neg (by simp [hrefused, hv2]), if_pos hunbound]
    unfold refuse
    rw [hrefused]
    rfl

/-- A member's calls, and more of them. -/
theorem stream_append (self : StreamProof) (out : Outside) (position : Nat)
    (events more : List Event) :
    self.stream out position (events ++ more) =
      run (step out) (self.stream out position events) more :=
  Run.append _ _ _

end StreamProof

/-- The plan of the last member of an opened group is no stub. -/
theorem Opened.no_stub {n : Nat} {proof : StreamProof} (h : Opened n proof) :
    NoStub proof.plans (n - 1) := by
  cases h with
  | joined owner v2 planned members =>
    rw [← members]
    exact last_member_no_stub planned
  | independent owner =>
    intro plan hplan
    have hdefault : plan ∈ List.replicate n ({} : MemberPlan) := mem_of_getElem? hplan
    rw [eq_of_mem_replicate hdefault]

/-- The last file of a refused group has grown. A refusal that growth is not said to cure, or
one before the last member, stays as it is; one that only the end of the group raised leaves a
refusal in the last member. -/
theorem incurable_refusal_is_final (out : Outside) {proof : StreamProof} {before : List Member}
    {last : Member} (hopened : Opened (before.length + 1) proof) {reason : JoinRefusal}
    {position : Nat}
    (hrefused : (proof.replay out (before ++ [last])).refusal = some (reason, position))
    (hfinal : reason.append_curable = false ∨ position ≠ before.length) (more : List Event)
    (end_ : UInt64) :
    let grown := { last with events := last.events ++ more, end_ }
    (proof.replay out (before ++ [grown])).refusal = some (reason, position) ∨
      ((proof.members out 0 (before ++ [last])).refusal = none ∧
        ∃ reason', (proof.replay out (before ++ [grown])).refusal = some (reason', before.length)) := by
  intro grown
  unfold StreamProof.replay at hrefused ⊢
  rw [members_snoc, Nat.zero_add] at hrefused ⊢
  rw [members_snoc, Nat.zero_add]
  have hgrown : (proof.members out 0 before).stream out before.length grown.events =
      run (StreamProof.step out)
        ((proof.members out 0 before).stream out before.length last.events) more :=
    stream_append _ _ _ _ _
  rw [hgrown]
  have hkept := (proof.members out 0 before).stream_kept out before.length last.events
  generalize hstream : (proof.members out 0 before).stream out before.length last.events = streamed
    at hrefused hkept ⊢
  obtain ⟨hplans, hposition, -⟩ := hkept
  have hgrows := StreamProof.Grows.run streamed out more
  by_cases hopen : streamed.refusal = none
  · -- The refusal is raised at the end: of the last member, or of the group.
    cases hclosed : (streamed.close last).refusal with
    | some first =>
      obtain ⟨first, place⟩ := first
      have hsame : (streamed.close last).finish_group.refusal = some (first, place) := by
        rw [finish_of_refused (by rw [hclosed]; exact some_ne_none _), hclosed]
      rw [hsame] at hrefused
      cases hrefused
      obtain ⟨hplace, hcause⟩ := close_refusal hopen hclosed
      rw [hplace, hposition] at hfinal
      have hno_stub : NoStub streamed.plans streamed.position := by
        rw [hplans, members_plans, hposition]
        exact hopened.no_stub
      rcases hcause with hcurable | hstub
      · rw [hcurable] at hfinal
        simp at hfinal
      · exact absurd hno_stub hstub
    | none =>
      obtain ⟨hplace, hv2, hcause⟩ := finish_group_refusal hclosed hrefused
      obtain ⟨-, hclosed_position, hclosed_unbound, hclosed_v2⟩ := streamed.close_kept last
      rw [hclosed_position, hposition] at hplace
      have hunbound : streamed.unbound_ui = true := by
        rcases hcause with ⟨-, hunbound⟩ | rfl
        · exact hclosed_unbound.symm.trans hunbound
        · rw [hplace] at hfinal
          simp [JoinRefusal.append_curable] at hfinal
      refine .inr ⟨rfl, ?_⟩
      obtain ⟨-, hgrown_position, hgrown_unbound, hgrown_v2⟩ :=
        (run (StreamProof.step out) streamed more).close_kept grown
      obtain ⟨reason', hreason'⟩ := @StreamProof.finish_unbound
        ((run (StreamProof.step out) streamed more).close grown)
        (hgrown_v2.trans (hclosed_v2.symm.trans hv2))
        (hgrown_unbound.trans (hgrows.unbound_ui hunbound))
        (by
          intro reason place hplace
          by_cases hmore : (run (StreamProof.step out) streamed more).refusal = none
          · rw [hgrown_position]
            exact (close_refusal hmore hplace).1
          · rw [close_of_refused hmore] at hplace
            rw [hgrown_position, hgrows.position]
            rcases hgrows.refusal with hsame | ⟨reason', hreason'⟩
            · rw [hsame, hopen] at hplace
              cases hplace
            · rw [hreason'] at hplace
              exact (congrArg Prod.snd (Option.some.inj hplace)).symm)
      refine ⟨reason', ?_⟩
      rw [hreason', hgrown_position, hgrows.position, hposition]
  · -- The refusal is raised before the end of the last member's first records.
    left
    have hclose := close_of_refused hopen last
    have hrun := run_of_refused out hopen more
    have hgrown_close := @StreamProof.close_of_refused
      (run (StreamProof.step out) streamed more) (by rw [hrun]; exact hopen) grown
    rw [finish_of_refused (by rw [hclose]; exact hopen), hclose] at hrefused
    rw [finish_of_refused (by rw [hgrown_close, hrun]; exact hopen), hgrown_close, hrun,
      hrefused]

def example_file : MemberHeader where
  digest := "d1"
  size := 500
  created := some 1796119200000000000
  ordinal := none
  history_base := none
  forked := false
  subagent_start := false
  created_thread := false
  classification := (none, none)
  names := ["thread-2"]

/-- A file of another thread stays refused as it grows. -/
theorem a_foreign_file_stays_refused :
    let last : Member := { events := [.record example_header 0], end_ := 100, v2 := false }
    let grown := { last with events := last.events ++ [.record example_native 100], end_ := 200 }
    ∃ plan, plan_group [example_file] ["a.jsonl"] = .ok plan ∧
      let proof := StreamProof.new "thread-2" false plan.plans
      (proof.replay example_outside [last]).refusal = some (.Overlap, 0) ∧
        ((proof.replay example_outside [grown]).refusal = some (.Overlap, 0) ∨
          ((proof.members example_outside 0 [last]).refusal = none ∧
            ∃ reason', (proof.replay example_outside [grown]).refusal = some (reason', 0))) := by
  intro last grown
  obtain ⟨plan, hplan⟩ : ∃ plan, plan_group [example_file] ["a.jsonl"] = .ok plan := ⟨_, rfl⟩
  have hrefused : ((StreamProof.new "thread-2" false plan.plans).replay example_outside
      [last]).refusal = some (.Overlap, 0) := by
    cases hplan
    decide +kernel
  exact ⟨plan, hplan, hrefused, @incurable_refusal_is_final example_outside _ [] last
    (.joined "thread-2" false hplan rfl) .Overlap 0 hrefused (.inl rfl)
    [.record example_native 100] 200⟩

end ottto_service.codex_file_join
