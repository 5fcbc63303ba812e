-- A Claude response resolves alike for every order of its records
-- (claude_response_records.rs): the keys of the sorted records decide the usages and the
-- instants, and the facts of the records are combined in any order.
import Ottto.ClaudeOrder
import Ottto.Cumulative

open Words

namespace ottto_service.claude_response_records

open usage accumulator List Option UsageTotals

/-! ## The facts of a list -/

def States (records : List PushedRecord) (fact : Fact) (value : String) : Prop :=
  ∃ record ∈ records, record.states fact = some value

/-- No fact has two values in the list. -/
def Consistent (records : List PushedRecord) : Prop :=
  ∀ fact value other, States records fact value → States records fact other → value = other

theorem later_comm (left right : Option UInt64) :
    later_context left right = later_context right left := by
  have hmax : ∀ a b : UInt64, max a b = max b a := by
    intro a b
    apply UInt64.toNat.inj
    rw [max_toNat, max_toNat, max_comm]
  cases left <;> cases right <;> simp [later_context, hmax]

theorem later_assoc (first second third : Option UInt64) :
    later_context (later_context first second) third =
      later_context first (later_context second third) := by
  have hmax : ∀ a b c : UInt64, max (max a b) c = max a (max b c) := by
    intro a b c
    apply UInt64.toNat.inj
    simp only [max_toNat, max_assoc]
  cases first <;> cases second <;> cases third <;> simp [later_context, hmax]

@[simp] theorem later_none (context : Option UInt64) : later_context context none = context := rfl

/-- The largest context that a record of the list states. -/
def contexts (records : List PushedRecord) : Option UInt64 :=
  records.foldr (fun record context =>
    later_context record.computed_effective_input_context context) none

theorem contexts_append (left right : List PushedRecord) :
    contexts (left ++ right) = later_context (contexts left) (contexts right) := by
  induction left with
  | nil =>
    rw [nil_append, later_comm]
    rfl
  | cons record rest ih =>
    show later_context _ (contexts (rest ++ right)) = later_context (later_context _ _) _
    rw [ih, later_assoc]
    rfl

/-- Two lists with the same facts and the same largest context. -/
structure SameFacts (left right : List PushedRecord) : Prop where
  states : ∀ fact value, States left fact value ↔ States right fact value
  context : contexts left = contexts right

namespace SameFacts

variable {left right other : List PushedRecord}

theorem refl (records : List PushedRecord) : SameFacts records records := ⟨fun _ _ => .rfl, rfl⟩

theorem symm (h : SameFacts left right) : SameFacts right left :=
  ⟨fun fact value => (h.states fact value).symm, h.context.symm⟩

theorem trans (h : SameFacts left right) (h' : SameFacts right other) : SameFacts left other :=
  ⟨fun fact value => (h.states fact value).trans (h'.states fact value), h.context.trans h'.context⟩

theorem of_perm (h : left.Perm right) : SameFacts left right where
  states fact value := by
    unfold States
    simp only [h.mem_iff]
  context := by
    induction h with
    | nil => rfl
    | cons record _ ih => exact congrArg (later_context _) ih
    | swap first second rest =>
      show later_context _ (later_context _ _) = later_context _ (later_context _ _)
      rw [← later_assoc, later_comm second.computed_effective_input_context, later_assoc]
    | trans _ _ ih ih' => exact ih.trans ih'

theorem append_right (h : SameFacts left right) (rest : List PushedRecord) :
    SameFacts (left ++ rest) (right ++ rest) where
  states fact value := by
    have hstates := h.states fact value
    unfold States at hstates ⊢
    simp only [mem_append, or_and_right, exists_or, hstates]
  context := by rw [contexts_append, contexts_append, h.context]

theorem append_left (h : SameFacts left right) (before : List PushedRecord) :
    SameFacts (before ++ left) (before ++ right) where
  states fact value := by
    have hstates := h.states fact value
    unfold States at hstates ⊢
    simp only [mem_append, or_and_right, exists_or, hstates]
  context := by rw [contexts_append, contexts_append, h.context]

theorem consistent (h : SameFacts left right) (hleft : Consistent left) : Consistent right :=
  fun fact value other hvalue hother =>
    hleft fact value other ((h.states fact value).mpr hvalue) ((h.states fact other).mpr hother)

end SameFacts

theorem states_single {record : PushedRecord} {fact : Fact} {value : String} :
    States [record] fact value ↔ record.states fact = some value := by
  simp [States]

/-- A record states each of its facts once. -/
theorem consistent_single (record : PushedRecord) : Consistent [record] := by
  intro fact value other hvalue hother
  rw [states_single] at hvalue hother
  exact Option.some.inj (hvalue.symm.trans hother)

/-- Records with the same facts are read alike. -/
theorem single_facts {left right : PushedRecord} (h : SameFacts [left] [right]) (fact : Fact) :
    left.states fact = right.states fact := by
  apply Option.ext
  intro value
  rw [← states_single, ← states_single, h.states]

/-- Two merged records state what both did. -/
theorem merged_facts {current next : ClaudeResponseRecord}
    (h : Agrees current.toPushedRecord next.toPushedRecord) :
    SameFacts [current.toPushedRecord, next.toPushedRecord]
      [(merged current next).toPushedRecord] where
  states fact value := by
    rw [states_single, merged_states]
    unfold States
    simp only [mem_cons, not_mem_nil, or_false, exists_eq_or_imp, exists_eq_left]
    constructor
    · rintro (hcurrent | hnext)
      · cases hnext : next.toPushedRecord.states fact with
        | none => rw [none_or, hcurrent]
        | some other => rw [some_or, h fact value other hcurrent hnext]
      · rw [hnext, some_or]
    · cases hnext : next.toPushedRecord.states fact with
      | none => exact fun hcurrent => .inl (by simpa using hcurrent)
      | some other => exact fun hother => .inr (by simpa using hother)
  context := rfl

theorem agrees_of_consistent {current next : PushedRecord} {rest : List PushedRecord}
    (h : Consistent (current :: next :: rest)) : Agrees current next := by
  intro fact value other hvalue hother
  apply h fact value other
  · exact ⟨current, mem_cons_self, hvalue⟩
  · exact ⟨next, mem_cons_of_mem _ mem_cons_self, hother⟩

theorem consistent_tail {record : PushedRecord} {rest : List PushedRecord}
    (h : Consistent (record :: rest)) : Consistent rest := by
  rintro fact value other ⟨first, hfirst, hvalue⟩ ⟨second, hsecond, hother⟩
  exact h fact value other ⟨first, mem_cons_of_mem _ hfirst, hvalue⟩
    ⟨second, mem_cons_of_mem _ hsecond, hother⟩

/-! ## The keys of a list -/

/-- The merge, as the keys see it. -/
def merge_keys (current next : Int × UsageTotals) : Option (Int × UsageTotals) :=
  if claude_usage_is_progressive_after next.2 current.2 then some next else none

def collapse_keys (canonical : List (Int × UsageTotals)) (last : Int × UsageTotals) :
    List (Int × UsageTotals) → Option (List (Int × UsageTotals))
  | [] => some (canonical ++ [last])
  | key :: rest =>
    if last.1 = key.1 then (merge_keys last key).bind (fun last => collapse_keys canonical last rest)
    else collapse_keys (canonical ++ [last]) key rest

/-- The keys of the first canonical record and of the aggregate. -/
def resolve_keys : List (Int × UsageTotals) → Option ((Int × UsageTotals) × (Int × UsageTotals))
  | [] => none
  | first :: rest => (collapse_keys [] first rest).bind (fun canonical =>
    match canonical with
    | [] => none
    | first :: rest => (rest.foldlM merge_keys first).map (fun merged => (first, merged)))

theorem progressive_refl (usage : UsageTotals) :
    claude_usage_is_progressive_after usage usage = true := by
  have hcost : ∀ cost, cost_is_monotonic cost cost = true := by
    intro cost
    cases cost <;> simp [cost_is_monotonic]
  simp [claude_usage_is_progressive_after, is_monotonic_after,
    UsageCosts.is_monotonic_after, hcost]

theorem cost_monotonic_trans {first second third : Option (BitVec 128)}
    (h : cost_is_monotonic second first = true) (h' : cost_is_monotonic third second = true) :
    cost_is_monotonic third first = true := by
  cases first with
  | none => cases third <;> rfl
  | some first =>
    cases second with
    | none => cases h
    | some second =>
      cases third with
      | none => cases h'
      | some third =>
        exact decide_eq_true (BitVec.le_trans (of_decide_eq_true h) (of_decide_eq_true h'))

theorem progressive_trans {first second third : UsageTotals}
    (h : claude_usage_is_progressive_after second first = true)
    (h' : claude_usage_is_progressive_after third second = true) :
    claude_usage_is_progressive_after third first = true := by
  have hflag : ∀ {a b c : Bool}, (!a || b) = true → (!b || c) = true → (!a || c) = true := by decide
  unfold claude_usage_is_progressive_after is_monotonic_after
    UsageCosts.is_monotonic_after at h h' ⊢
  simp only [Bool.and_eq_true, decide_eq_true_eq] at h h' ⊢
  obtain ⟨⟨⟨⟨⟨⟨⟨⟨h1, h2⟩, h3⟩, h4⟩, h5⟩, h6⟩, h7⟩, h8⟩, ⟨⟨⟨⟨⟨ho, hr⟩, ht⟩, hi⟩, hu⟩, hc⟩, hw⟩ := h
  obtain ⟨⟨⟨⟨⟨⟨⟨⟨k1, k2⟩, k3⟩, k4⟩, k5⟩, k6⟩, k7⟩, k8⟩, ⟨⟨⟨⟨⟨ko, kr⟩, kt⟩, ki⟩, ku⟩, kc⟩, kw⟩ := h'
  refine ⟨⟨⟨⟨⟨⟨⟨⟨?_, ?_⟩, ?_⟩, ?_⟩, ?_⟩, ?_⟩, ?_⟩, ?_⟩,
    ⟨⟨⟨⟨⟨hflag ho ko, hflag hr kr⟩, cost_monotonic_trans ht kt⟩, cost_monotonic_trans hi ki⟩,
      cost_monotonic_trans hu ku⟩, cost_monotonic_trans hc kc⟩, cost_monotonic_trans hw kw⟩
  all_goals
    apply UInt64.le_trans <;> assumption

/-- A key of the list that no key of it passes. -/
def Tops (top : Int × UsageTotals) (keys : List (Int × UsageTotals)) : Prop :=
  top ∈ keys ∧ ∀ key ∈ keys, claude_usage_is_progressive_after top.2 key.2 = true

theorem tops_of_merge {first : Int × UsageTotals} {rest : List (Int × UsageTotals)}
    {top : Int × UsageTotals} (h : rest.foldlM merge_keys first = some top) :
    Tops top (first :: rest) := by
  induction rest generalizing first with
  | nil =>
    obtain rfl : first = top := Option.some.inj h
    simp [Tops, progressive_refl]
  | cons next rest ih =>
    obtain ⟨merged, hmerged, hrest⟩ := bind_eq_some_iff.mp h
    unfold merge_keys at hmerged
    split at hmerged
    · rename_i hprogressive
      obtain rfl : next = merged := Option.some.inj hmerged
      obtain ⟨hmem, htop⟩ := ih hrest
      refine ⟨mem_cons_of_mem _ hmem, ?_⟩
      intro key hkey
      rcases mem_cons.mp hkey with rfl | hkey
      · exact progressive_trans hprogressive (htop next mem_cons_self)
      · exact htop key hkey
    · cases hmerged

/-- Collapsing keeps keys of the list, and one that is not passed by each. -/
theorem collapse_keys_spec {canonical rest result : List (Int × UsageTotals)}
    {last : Int × UsageTotals} (h : collapse_keys canonical last rest = some result) :
    (∀ key ∈ result, key ∈ canonical ++ last :: rest) ∧
      ∀ key ∈ canonical ++ last :: rest, ∃ kept ∈ result,
        claude_usage_is_progressive_after kept.2 key.2 = true := by
  induction rest generalizing canonical last with
  | nil =>
    obtain rfl : canonical ++ [last] = result := Option.some.inj h
    exact ⟨fun _ hkey => hkey, fun key hkey => ⟨key, hkey, progressive_refl _⟩⟩
  | cons key rest ih =>
    unfold collapse_keys at h
    split at h
    · obtain ⟨merged, hmerged, hrest⟩ := bind_eq_some_iff.mp h
      unfold merge_keys at hmerged
      split at hmerged
      · rename_i hprogressive
        obtain rfl : key = merged := Option.some.inj hmerged
        obtain ⟨hsub, hkept⟩ := ih hrest
        constructor
        · intro kept hmem
          have hin := hsub kept hmem
          simp only [mem_append, mem_cons] at hin ⊢
          tauto
        · intro other hother
          rw [mem_append, mem_cons] at hother
          rcases hother with hbefore | rfl | hafter
          · exact hkept other (mem_append_left _ hbefore)
          · obtain ⟨kept, hmem, htop⟩ :=
              hkept key (mem_append_right _ mem_cons_self)
            exact ⟨kept, hmem, progressive_trans hprogressive htop⟩
          · exact hkept other (mem_append_right _ hafter)
      · cases hmerged
    · have hih := ih h
      rwa [append_assoc] at hih

theorem tops_of_resolve {keys : List (Int × UsageTotals)} {first top : Int × UsageTotals}
    (h : resolve_keys keys = some (first, top)) : Tops top keys := by
  cases keys with
  | nil => cases h
  | cons key rest =>
    obtain ⟨canonical, hcanonical, hmerged⟩ := bind_eq_some_iff.mp h
    cases canonical with
    | nil => cases hmerged
    | cons earliest later =>
      obtain ⟨merged, hfold, hpair⟩ := map_eq_some_iff.mp hmerged
      obtain rfl : merged = top := congrArg Prod.snd hpair
      obtain ⟨hmem, htop⟩ := tops_of_merge hfold
      obtain ⟨hsub, hkept⟩ := collapse_keys_spec hcanonical
      refine ⟨hsub _ hmem, ?_⟩
      intro other hother
      obtain ⟨kept, hkept, hprogressive⟩ := hkept other hother
      exact progressive_trans hprogressive (htop kept hkept)

/-! ## The records and their keys -/

section

variable {time : Rfc3339}

/-- Every timestamp of the list is read. -/
def Timed (time : Rfc3339) (records : List PushedRecord) : Prop :=
  ∀ record ∈ records, (record.timestamp.bind time.parse).isSome = true

abbrev bare (records : List ClaudeResponseRecord) : List PushedRecord :=
  records.map ClaudeResponseRecord.toPushedRecord

abbrev keys (time : Rfc3339) (records : List ClaudeResponseRecord) : List (Int × UsageTotals) :=
  (bare records).map (sort_key time)

theorem merged_timed {current next : ClaudeResponseRecord} (h : Timed time (bare [next])) :
    Timed time (bare [merged current next]) ∧
      sort_key time (merged current next).toPushedRecord = sort_key time next.toPushedRecord := by
  have hnext : (next.timestamp.bind time.parse).isSome = true := h _ mem_cons_self
  have htimestamp : (merged current next).timestamp = next.timestamp := by
    show next.timestamp.or current.timestamp = next.timestamp
    cases hstamp : next.timestamp with
    | none =>
      rw [hstamp] at hnext
      cases hnext
    | some stamp => rfl
  constructor
  · intro record hrecord
    obtain rfl := mem_singleton.mp hrecord
    rw [htimestamp]
    exact hnext
  · unfold sort_key
    rw [htimestamp]
    rfl

theorem merge_keys_eq_some {current next top : Int × UsageTotals} :
    merge_keys current next = some top ↔
      claude_usage_is_progressive_after next.2 current.2 = true ∧ next = top := by
  unfold merge_keys
  split <;> simp_all

/-- Records merge exactly when their keys do and they agree. -/
theorem merge_record_spec {current next : ClaudeResponseRecord} (h : Timed time (bare [next]))
    (result : ClaudeResponseRecord) :
    merge_claude_response_record current next = some result ↔
      merge_keys (sort_key time current.toPushedRecord) (sort_key time next.toPushedRecord) =
          some (sort_key time result.toPushedRecord) ∧
        Agrees current.toPushedRecord next.toPushedRecord ∧ result = merged current next := by
  rw [merge_record_eq_some, merge_keys_eq_some]
  constructor
  · rintro ⟨hprogressive, hagrees, rfl⟩
    exact ⟨⟨hprogressive, (merged_timed h).2.symm⟩, hagrees, rfl⟩
  · rintro ⟨⟨hprogressive, -⟩, hagrees, rfl⟩
    exact ⟨hprogressive, hagrees, rfl⟩

theorem share_time_eq {left right : ClaudeResponseRecord} (hleft : Timed time (bare [left]))
    (hright : Timed time (bare [right])) :
    claude_response_records_share_provider_time time left right = true ↔
      (sort_key time left.toPushedRecord).1 = (sort_key time right.toPushedRecord).1 := by
  obtain ⟨left_time, hleft⟩ := isSome_iff_exists.mp (hleft _ mem_cons_self)
  obtain ⟨right_time, hright⟩ := isSome_iff_exists.mp (hright _ mem_cons_self)
  unfold claude_response_records_share_provider_time claude_response_provider_time sort_key
  rw [hleft, hright]
  simp

theorem timed_append {left right : List PushedRecord} :
    Timed time (left ++ right) ↔ Timed time left ∧ Timed time right :=
  forall_mem_append

theorem timed_cons {record : PushedRecord} {rest : List PushedRecord} :
    Timed time (record :: rest) ↔ Timed time [record] ∧ Timed time rest := by
  rw [← singleton_append, timed_append]

variable {rest : List ClaudeResponseRecord}

/-- A merge in front of a list keeps what the list states. -/
theorem front_facts {current next : ClaudeResponseRecord}
    (h : Agrees current.toPushedRecord next.toPushedRecord) :
    SameFacts (bare (current :: next :: rest)) (bare (merged current next :: rest)) :=
  (merged_facts h).append_right (bare rest)

theorem collapse_spec {canonical result : List ClaudeResponseRecord}
    {last : ClaudeResponseRecord} (htimed : Timed time (bare (canonical ++ last :: rest)))
    (h : collapse time canonical last rest = some result) :
    SameFacts (bare (canonical ++ last :: rest)) (bare result) ∧ Timed time (bare result) ∧
      collapse_keys (keys time canonical) (sort_key time last.toPushedRecord) (keys time rest) =
        some (keys time result) := by
  induction rest generalizing canonical last with
  | nil =>
    obtain rfl : canonical ++ [last] = result := Option.some.inj h
    refine ⟨.refl _, htimed, ?_⟩
    simp [collapse_keys]
  | cons record rest ih =>
    have hparts := htimed
    rw [bare, map_append, timed_append] at hparts
    obtain ⟨hcanonical, hafter⟩ := hparts
    obtain ⟨hlast, hlater⟩ := timed_cons.mp hafter
    obtain ⟨hrecord, hrest⟩ := timed_cons.mp hlater
    have hshare := share_time_eq hlast hrecord
    unfold collapse at h
    show _ ∧ _ ∧ collapse_keys _ _ (sort_key time record.toPushedRecord :: keys time rest) = _
    unfold collapse_keys
    split at h
    · rename_i hsame
      rw [if_pos (hshare.mp hsame)]
      obtain ⟨top, hmerge, hcollapse⟩ := bind_eq_some_iff.mp h
      obtain ⟨hkeys, hagrees, rfl⟩ := (merge_record_spec hrecord top).mp hmerge
      have htop : Timed time (bare (canonical ++ merged last record :: rest)) := by
        unfold bare
        rw [map_append, timed_append, map_cons, timed_cons]
        exact ⟨hcanonical, (merged_timed hrecord).1, hrest⟩
      obtain ⟨hfacts, hresult, hcollapsed⟩ := ih htop hcollapse
      rw [hkeys, bind_some]
      refine ⟨?_, hresult, hcollapsed⟩
      apply SameFacts.trans _ hfacts
      unfold bare
      rw [map_append, map_append]
      exact (front_facts hagrees).append_left _
    · rename_i hother
      rw [if_neg (mt hshare.mpr hother)]
      have hnext : Timed time (bare ((canonical ++ [last]) ++ record :: rest)) := by
        rw [append_assoc]
        exact htimed
      obtain ⟨hfacts, hresult, hcollapsed⟩ := ih hnext h
      rw [append_assoc] at hfacts
      refine ⟨hfacts, hresult, ?_⟩
      rwa [keys, bare, map_append, map_append] at hcollapsed

/-- Consistent records collapse when their keys do. -/
theorem collapse_comes_through {canonical : List ClaudeResponseRecord}
    {last : ClaudeResponseRecord} (htimed : Timed time (bare (last :: rest)))
    (hconsistent : Consistent (bare (last :: rest))) {result : List (Int × UsageTotals)}
    (h : collapse_keys (keys time canonical) (sort_key time last.toPushedRecord) (keys time rest) =
      some result) :
    (collapse time canonical last rest).isSome = true := by
  induction rest generalizing canonical last with
  | nil => rfl
  | cons record rest ih =>
    obtain ⟨hlast, hlater⟩ := timed_cons.mp htimed
    obtain ⟨hrecord, hrest⟩ := timed_cons.mp hlater
    have hshare := share_time_eq hlast hrecord
    change collapse_keys _ _ (sort_key time record.toPushedRecord :: keys time rest) = _ at h
    unfold collapse_keys at h
    unfold collapse
    split at h
    · rename_i hsame
      rw [if_pos (hshare.mpr hsame)]
      obtain ⟨top, hmerge, hcollapse⟩ := bind_eq_some_iff.mp h
      have hagrees : Agrees last.toPushedRecord record.toPushedRecord :=
        agrees_of_consistent hconsistent
      obtain ⟨hprogressive, rfl⟩ := merge_keys_eq_some.mp hmerge
      have hmerged := merge_record_eq_some.mpr ⟨hprogressive, hagrees, rfl⟩
      obtain ⟨htop, hkey⟩ := @merged_timed time last record hrecord
      rw [hmerged]
      apply ih
      · exact timed_cons.mpr ⟨htop, hrest⟩
      · exact (front_facts hagrees).consistent hconsistent
      · rw [hkey]
        exact hcollapse
    · rename_i hother
      rw [if_neg (mt hshare.mp hother)]
      apply ih
      · exact timed_cons.mpr ⟨hrecord, hrest⟩
      · exact consistent_tail hconsistent
      · rw [keys, bare, map_append, map_append]
        exact h

variable {first : ClaudeResponseRecord}

theorem fold_spec {result : ClaudeResponseRecord} (htimed : Timed time (bare (first :: rest)))
    (h : rest.foldlM merge_claude_response_record first = some result) :
    SameFacts (bare (first :: rest)) (bare [result]) ∧ Timed time (bare [result]) ∧
      (keys time rest).foldlM merge_keys (sort_key time first.toPushedRecord) =
        some (sort_key time result.toPushedRecord) := by
  induction rest generalizing first with
  | nil =>
    obtain rfl : first = result := Option.some.inj h
    exact ⟨.refl _, htimed, rfl⟩
  | cons record rest ih =>
    obtain ⟨-, hlater⟩ := timed_cons.mp htimed
    obtain ⟨hrecord, hrest⟩ := timed_cons.mp hlater
    obtain ⟨top, hmerge, hfold⟩ := bind_eq_some_iff.mp h
    obtain ⟨hkeys, hagrees, rfl⟩ := (merge_record_spec hrecord top).mp hmerge
    obtain ⟨hfacts, hresult, hfolded⟩ :=
      ih (timed_cons.mpr ⟨(merged_timed hrecord).1, hrest⟩) hfold
    refine ⟨(front_facts hagrees).trans hfacts, hresult, ?_⟩
    show (sort_key time record.toPushedRecord :: keys time rest).foldlM _ _ = _
    rw [foldlM_cons, hkeys]
    exact hfolded

/-- Consistent records merge when their keys do. -/
theorem fold_comes_through
    (htimed : Timed time (bare (first :: rest))) (hconsistent : Consistent (bare (first :: rest)))
    {result : Int × UsageTotals}
    (h : (keys time rest).foldlM merge_keys (sort_key time first.toPushedRecord) = some result) :
    (rest.foldlM merge_claude_response_record first).isSome = true := by
  induction rest generalizing first with
  | nil => rfl
  | cons record rest ih =>
    obtain ⟨-, hlater⟩ := timed_cons.mp htimed
    obtain ⟨hrecord, hrest⟩ := timed_cons.mp hlater
    change (sort_key time record.toPushedRecord :: keys time rest).foldlM _ _ = _ at h
    rw [foldlM_cons] at h ⊢
    obtain ⟨top, hmerge, hfold⟩ := bind_eq_some_iff.mp h
    have hagrees : Agrees first.toPushedRecord record.toPushedRecord :=
      agrees_of_consistent hconsistent
    obtain ⟨hprogressive, rfl⟩ := merge_keys_eq_some.mp hmerge
    have hmerged := merge_record_eq_some.mpr ⟨hprogressive, hagrees, rfl⟩
    obtain ⟨htop, hkey⟩ := @merged_timed time first record hrecord
    rw [hmerged]
    apply ih
    · exact timed_cons.mpr ⟨htop, hrest⟩
    · exact (front_facts hagrees).consistent hconsistent
    · rw [hkey]
      exact hfold

/-! ## The resolution of a list -/

/-- The first canonical record and the aggregate. -/
def resolve_records (time : Rfc3339) (records : List ClaudeResponseRecord) :
    Option (ClaudeResponseRecord × ClaudeResponseRecord) :=
  (canonical_records time (sort_records time records)).bind merge_canonical

variable {records : List ClaudeResponseRecord}

theorem provider_timed (h : Timed time (bare records)) :
    ∀ record ∈ records, (claude_response_provider_time time record).isSome = true :=
  fun record hrecord => h record.toPushedRecord (mem_map_of_mem hrecord)

theorem sorted_perm (h : Timed time (bare records)) :
    (bare (sort_records time records)).Perm (bare records) :=
  (sort_records_spec (provider_timed h)).1.map _

theorem sorted_timed (h : Timed time (bare records)) :
    Timed time (bare (sort_records time records)) :=
  fun record hrecord => h record ((sorted_perm h).mem_iff.mp hrecord)

variable {left right : List ClaudeResponseRecord}

/-- The same records have the same sorted keys. -/
theorem sorted_keys_eq (hleft : Timed time (bare left))
    (hright : Timed time (bare right)) (hperm : (bare left).Perm (bare right)) :
    keys time (sort_records time left) = keys time (sort_records time right) := by
  have hkeys : ∀ records, Timed time (bare records) →
      (keys time (sort_records time records)).Pairwise (fun a b => (key_order a b).isLE = true) := by
    intro records htimed
    rw [keys, bare, List.map_map]
    exact (sort_records_spec (provider_timed htimed)).2
  apply List.Perm.eq_of_pairwise _ (hkeys left hleft) (hkeys right hright)
  · exact ((sorted_perm hleft).trans (hperm.trans (sorted_perm hright).symm)).map _
  · intro a b _ _ hab hba
    apply eq_of_key_order
    exact key_order_trans.isLE_antisymm hab hba

variable {aggregate : ClaudeResponseRecord}

theorem resolve_records_spec (htimed : Timed time (bare records))
    (h : resolve_records time records = some (first, aggregate)) :
    SameFacts (bare records) (bare [aggregate]) ∧ Timed time (bare [first]) ∧
      Timed time (bare [aggregate]) ∧
      resolve_keys (keys time (sort_records time records)) =
        some (sort_key time first.toPushedRecord, sort_key time aggregate.toPushedRecord) := by
  have hsorted := SameFacts.of_perm (sorted_perm htimed).symm
  have hsorted_timed := sorted_timed htimed
  unfold resolve_records at h
  generalize sort_records time records = sorted at h hsorted hsorted_timed
  obtain ⟨canonical, hcanonical, hmerged⟩ := bind_eq_some_iff.mp h
  cases sorted with
  | nil =>
    obtain rfl : [] = canonical := Option.some.inj hcanonical
    cases hmerged
  | cons head rest =>
    obtain ⟨hfacts, hcanonical_timed, hcollapsed⟩ := collapse_spec hsorted_timed hcanonical
    cases canonical with
    | nil => cases hmerged
    | cons earliest later =>
      obtain ⟨merged, hfold, hpair⟩ := map_eq_some_iff.mp hmerged
      obtain ⟨rfl, rfl⟩ := Prod.mk.inj hpair
      obtain ⟨hfolded, haggregate, hkey⟩ := fold_spec hcanonical_timed hfold
      refine ⟨hsorted.trans (hfacts.trans hfolded), (timed_cons.mp hcanonical_timed).1,
        haggregate, ?_⟩
      show (collapse_keys (keys time []) _ (keys time rest)).bind _ = _
      rw [hcollapsed, bind_some]
      show ((keys time later).foldlM merge_keys (sort_key time earliest.toPushedRecord)).map _ = _
      rw [hkey]
      rfl

/-- Consistent records resolve when their keys do. -/
theorem resolve_comes_through
    (htimed : Timed time (bare records)) (hconsistent : Consistent (bare records))
    {result : (Int × UsageTotals) × (Int × UsageTotals)}
    (h : resolve_keys (keys time (sort_records time records)) = some result) :
    (resolve_records time records).isSome = true := by
  have hsorted_timed := sorted_timed htimed
  have hsorted := (SameFacts.of_perm (sorted_perm htimed).symm).consistent hconsistent
  unfold resolve_records
  generalize sort_records time records = sorted at h hsorted hsorted_timed
  cases sorted with
  | nil => cases h
  | cons head rest =>
    change (collapse_keys (keys time []) _ (keys time rest)).bind _ = _ at h
    obtain ⟨canonical_keys, hcanonical, hmerged⟩ := bind_eq_some_iff.mp h
    obtain ⟨canonical, hcollapse⟩ :=
      isSome_iff_exists.mp (collapse_comes_through hsorted_timed hsorted hcanonical)
    obtain ⟨hfacts, hcanonical_timed, hcollapsed⟩ := collapse_spec hsorted_timed hcollapse
    cases hcanonical.symm.trans hcollapsed
    show ((collapse time [] head rest).bind merge_canonical).isSome = true
    rw [hcollapse, bind_some]
    cases canonical with
    | nil => cases hmerged
    | cons earliest later =>
      obtain ⟨top, hfold, -⟩ := map_eq_some_iff.mp hmerged
      show ((later.foldlM merge_claude_response_record earliest).map _).isSome = true
      rw [isSome_map]
      exact fold_comes_through hcanonical_timed (hfacts.consistent hsorted) hfold

/-- Permuted records resolve together. -/
theorem resolves_permuted (hleft : Timed time (bare left)) (hperm : (bare left).Perm (bare right))
    (h : (resolve_records time left).isSome = true) :
    (resolve_records time right).isSome = true := by
  have hright : Timed time (bare right) := fun record hrecord =>
    hleft record (hperm.mem_iff.mpr hrecord)
  obtain ⟨⟨first, aggregate⟩, hresolved⟩ := isSome_iff_exists.mp h
  obtain ⟨hfacts, -, -, hkeys⟩ := resolve_records_spec hleft hresolved
  rw [sorted_keys_eq hleft hright hperm] at hkeys
  apply resolve_comes_through hright _ hkeys
  apply ((SameFacts.of_perm hperm.symm).trans hfacts).symm.consistent
  exact consistent_single aggregate.toPushedRecord

/-! ## Responses of two books -/

/-- What two resolutions of the same records share. -/
structure SameResolution (time : Rfc3339) (left right : ResolvedClaudeResponse) : Prop where
  usage : left.usage = right.usage
  model : left.model = right.model
  reasoning_effort : left.reasoning_effort = right.reasoning_effort
  request_id : left.request_id = right.request_id
  selector : left.selector.context = right.selector.context
  tool_uses : left.tool_uses = right.tool_uses
  context : left.computed_effective_input_context = right.computed_effective_input_context
  first_instant : left.first_timestamp.bind time.parse = right.first_timestamp.bind time.parse
  terminal_instant :
    left.terminal_timestamp.bind time.parse = right.terminal_timestamp.bind time.parse

/-- The component-wise maximum: one of the usages, that no other passes in a counter or a cost. -/
structure Maximum (usage : UsageTotals) (usages : List UsageTotals) : Prop where
  attained : usage ∈ usages
  counters : ∀ other ∈ usages, ∀ c, other.count c ≤ usage.count c
  costs : ∀ other ∈ usages, usage.costs.is_monotonic_after other.costs = true

/-- What the last step of `resolve_classified` keeps of the records. -/
def resolved (self : ClaudeResponseObservation) (complete : Bool)
    (first aggregate : ClaudeResponseRecord) : ResolvedClaudeResponse :=
  { cache_slot := aggregate.cache_slot
    sequence := self.sequence
    usage := aggregate.usage
    model := aggregate.model
    selector := aggregate.selector
    reasoning_effort := aggregate.reasoning_effort
    request_id := aggregate.request_id
    first_timestamp := first.timestamp
    terminal_timestamp := aggregate.timestamp
    event_clock_complete := complete
    desktop_request := self.desktop_request
    preceding_user_timestamp := self.preceding_user_timestamp
    computed_effective_input_context := aggregate.computed_effective_input_context
    tool_uses := aggregate.tool_uses }

/-- A response that decodes resolves as its records do. -/
theorem resolve_classified_eq {self : ClaudeResponseObservation} {selectors : ClaudeSelectorTable}
    (hlimit : self.record_limit_exceeded = false)
    (hdecoded : decode_records self.records selectors = some records) :
    self.resolve_classified time selectors =
      match resolve_records time records with
      | none => .error .Conflict
      | some (first, aggregate) =>
        .ok (resolved self (event_clock_complete time records) first aggregate) := by
  unfold ClaudeResponseObservation.resolve_classified resolve_records
  rw [hlimit, hdecoded]
  rfl

theorem instant_eq {left right : ClaudeResponseRecord} (hleft : Timed time (bare [left]))
    (hright : Timed time (bare [right]))
    (h : sort_key time left.toPushedRecord = sort_key time right.toPushedRecord) :
    left.timestamp.bind time.parse = right.timestamp.bind time.parse := by
  obtain ⟨left_time, hleft⟩ := isSome_iff_exists.mp (hleft _ mem_cons_self)
  obtain ⟨right_time, hright⟩ := isSome_iff_exists.mp (hright _ mem_cons_self)
  have hinstant := congrArg Prod.fst h
  unfold sort_key at hinstant
  rw [hleft, hright] at hinstant ⊢
  exact congrArg some hinstant

theorem resolves_alike (hleft : Timed time (bare left)) (hperm : (bare left).Perm (bare right))
    {first' aggregate' : ClaudeResponseRecord}
    (h : resolve_records time left = some (first, aggregate))
    (h' : resolve_records time right = some (first', aggregate'))
    (self self' : ClaudeResponseObservation) (complete complete' : Bool) :
    SameResolution time (resolved self complete first aggregate)
      (resolved self' complete' first' aggregate') := by
  have hright : Timed time (bare right) := fun record hrecord =>
    hleft record (hperm.mem_iff.mpr hrecord)
  obtain ⟨hfacts, hfirst, hlast, hkeys⟩ := resolve_records_spec hleft h
  obtain ⟨hfacts', hfirst', hlast', hkeys'⟩ := resolve_records_spec hright h'
  rw [← sorted_keys_eq hleft hright hperm, hkeys] at hkeys'
  obtain ⟨hfirst_key, hlast_key⟩ := Prod.mk.inj (Option.some.inj hkeys')
  have hsame : SameFacts [aggregate.toPushedRecord] [aggregate'.toPushedRecord] :=
    hfacts.symm.trans ((SameFacts.of_perm hperm).trans hfacts')
  have hfact := single_facts hsame
  exact
    { usage := congrArg Prod.snd hlast_key
      model := hfact .model
      reasoning_effort := hfact .reasoning_effort
      request_id := hfact .request_id
      selector := SortedMap.ext_get? (fun field => hfact (.selector field))
      tool_uses := SortedMap.ext_get? (fun id => hfact (.tool_use id))
      context := hsame.context
      first_instant := instant_eq hfirst hfirst' hfirst_key
      terminal_instant := instant_eq hlast hlast' hlast_key }

theorem counters_of_progressive {usage other : UsageTotals}
    (h : claude_usage_is_progressive_after usage other = true) :
    (∀ c, other.count c ≤ usage.count c) ∧ usage.costs.is_monotonic_after other.costs = true := by
  constructor
  · exact (covers_of_monotonic_after h).counters
  · unfold claude_usage_is_progressive_after is_monotonic_after at h
    rw [Bool.and_eq_true] at h
    exact h.2

theorem resolved_maximum (htimed : Timed time (bare records))
    (h : resolve_records time records = some (first, aggregate)) :
    Maximum aggregate.usage ((bare records).map PushedRecord.usage) := by
  obtain ⟨-, -, -, hkeys⟩ := resolve_records_spec htimed h
  obtain ⟨hmem, htop⟩ := tops_of_resolve hkeys
  have hperm := (sorted_perm htimed).map (sort_key time)
  have htops : ∀ usage ∈ (bare records).map PushedRecord.usage,
      claude_usage_is_progressive_after aggregate.usage usage = true := by
    intro usage husage
    obtain ⟨record, hrecord, rfl⟩ := mem_map.mp husage
    apply htop (sort_key time record)
    exact hperm.mem_iff.mpr (mem_map_of_mem hrecord)
  refine ⟨?_, ?_, ?_⟩
  · obtain ⟨record, hrecord, hkey⟩ := mem_map.mp (hperm.mem_iff.mp hmem)
    exact mem_map.mpr ⟨record, hrecord, congrArg Prod.snd hkey⟩
  · exact fun usage husage => (counters_of_progressive (htops usage husage)).1
  · exact fun usage husage => (counters_of_progressive (htops usage husage)).2

end

namespace ClaudeResponseBook

/-- No response of an observed book is over its record limit. -/
theorem within_limit (lines : List Line) :
    ∀ response ∈ (run observe {} lines).responses, response.record_limit_exceeded = false := by
  apply Run.invariant
    (fun book : ClaudeResponseBook =>
      ∀ response ∈ book.responses, response.record_limit_exceeded = false)
  · intro book line h
    unfold observe
    dsimp only
    split
    · rename_i slot _
      intro response hresponse
      obtain ⟨place, hplace⟩ := mem_iff_getElem?.mp hresponse
      rw [List.getElem?_modify] at hplace
      obtain ⟨held, hheld, hpushed⟩ := map_eq_some_iff.mp hplace
      have hkept := h held (mem_of_getElem? hheld)
      split at hpushed <;> (rw [← hpushed]; exact hkept)
    · unfold insert
      split
      · intro response hresponse
        rcases mem_append.mp hresponse with hheld | hnew
        · exact h response hheld
        · rw [mem_singleton.mp hnew]
          rfl
      · exact h
  · intro response hresponse
    cases hresponse

theorem bare_placed (records : List PushedRecord) : bare (placed records) = records := by
  unfold bare placed
  conv_rhs => rw [← List.zipIdx_map_fst 0 records]
  rw [List.map_map]
  rfl

/-- A retained response resolves as the records of its key. -/
theorem resolve_eq (time : Rfc3339) {lines : List Line} {key : String}
    {response : ClaudeResponseObservation}
    (h : (run observe {} lines).response key = some response) :
    response.resolve_classified time (run observe {} lines).selectors =
      match resolve_records time (placed (records_of lines key)) with
      | none => .error .Conflict
      | some (first, aggregate) =>
        .ok (resolved response (event_clock_complete time (placed (records_of lines key))) first
          aggregate) := by
  obtain ⟨slot, hslot, hat⟩ := bind_eq_some_iff.mp h
  rw [slot_eq (retains_run lines)] at hslot
  obtain ⟨held, hheld, hencodes⟩ := (retains_run lines).responses key slot hslot
  rw [hat] at hheld
  cases hheld
  exact resolve_classified_eq (within_limit lines _ (mem_of_getElem? hat)) hencodes.decoded

/-- Two books hold the same timed records of a response, in any two orders. Their responses
conflict together; and when they resolve they resolve alike, to the component-wise maximum of
the usages. -/
theorem resolution_ignores_append_order (time : Rfc3339) {lines lines' : List Line}
    {key key' : String} {response response' : ClaudeResponseObservation}
    (hresponse : (run observe {} lines).response key = some response)
    (hresponse' : (run observe {} lines').response key' = some response')
    (hperm : (records_of lines key).Perm (records_of lines' key'))
    (htimed : ∀ record ∈ records_of lines key,
      (record.timestamp.bind time.parse).isSome = true) :
    let outcome := response.resolve_classified time (run observe {} lines).selectors
    let outcome' := response'.resolve_classified time (run observe {} lines').selectors
    (outcome = .error .Conflict ↔ outcome' = .error .Conflict) ∧
      ∀ resolution, outcome = .ok resolution →
        (∃ resolution', outcome' = .ok resolution' ∧
          SameResolution time resolution resolution') ∧
        Maximum resolution.usage ((records_of lines key).map PushedRecord.usage) := by
  intro outcome outcome'
  have hleft : Timed time (bare (placed (records_of lines key))) := by
    rw [bare_placed]
    exact htimed
  have hplaced : (bare (placed (records_of lines key))).Perm
      (bare (placed (records_of lines' key'))) := by
    rw [bare_placed, bare_placed]
    exact hperm
  have hright : Timed time (bare (placed (records_of lines' key'))) := fun record hrecord =>
    hleft record (hplaced.mem_iff.mpr hrecord)
  have houtcome := resolve_eq time hresponse
  have houtcome' := resolve_eq time hresponse'
  have hforward := resolves_permuted hleft hplaced
  have hbackward := resolves_permuted hright hplaced.symm
  cases hrecords : resolve_records time (placed (records_of lines key)) with
  | none =>
    rw [hrecords] at houtcome
    have hnone : resolve_records time (placed (records_of lines' key')) = none := by
      rw [← not_isSome_iff_eq_none]
      intro hsome
      rw [hrecords] at hbackward
      exact Bool.false_ne_true (hbackward hsome)
    rw [hnone] at houtcome'
    refine ⟨iff_of_true houtcome houtcome', ?_⟩
    intro resolution hresolution
    cases houtcome.symm.trans hresolution
  | some pair =>
    obtain ⟨first, aggregate⟩ := pair
    rw [hrecords] at houtcome hforward
    obtain ⟨⟨first', aggregate'⟩, hrecords'⟩ := isSome_iff_exists.mp (hforward rfl)
    rw [hrecords'] at houtcome'
    constructor
    · constructor
      · exact fun hconflict => by cases houtcome.symm.trans hconflict
      · exact fun hconflict => by cases houtcome'.symm.trans hconflict
    · intro resolution hresolution
      cases houtcome.symm.trans hresolution
      constructor
      · exact ⟨_, houtcome', resolves_alike hleft hplaced hrecords hrecords' _ _ _ _⟩
      · have hmaximum := resolved_maximum hleft hrecords
        rw [bare_placed] at hmaximum
        exact hmaximum

/-- A line of one response: its instant, its output and one fact. -/
def example_line (timestamp : String) (output : UInt64) (model request_id : Option String) : Line where
  key := "msg_1"
  record :=
    { usage := { output_tokens := output }
      model
      selector := {}
      reasoning_effort := none
      request_id
      timestamp := some timestamp
      computed_effective_input_context := none
      tool_uses := .empty
      cache_slot :=
        { request_ref := request_id.getD ""
          occurred_at := timestamp
          model
          effort := none
          prompt_tokens := none
          cache_read_tokens := none
          cache_creation_tokens := none
          uncached_tokens := none
          output_tokens := some output } }
  sequence := 0
  preceding_user_timestamp := none
  desktop_request := false

def example_lines : List Line :=
  [example_line exampleHour 2 (some "claude-opus-4") none,
    example_line exampleHalf 7 none (some "req_1")]

/-- The terminal record may be appended first: the response resolves to its usage. -/
theorem the_terminal_record_may_come_first :
    ∃ response response',
      (run observe {} example_lines).response "msg_1" = some response ∧
        (run observe {} example_lines.reverse).response "msg_1" = some response' ∧
        let outcome := response.resolve_classified exampleTime
          (run observe {} example_lines).selectors
        let outcome' := response'.resolve_classified exampleTime
          (run observe {} example_lines.reverse).selectors
        (∃ resolution, outcome = .ok resolution ∧ resolution.usage.output_tokens = 7) ∧
          (outcome = .error .Conflict ↔ outcome' = .error .Conflict) ∧
          ∀ resolution, outcome = .ok resolution →
            (∃ resolution', outcome' = .ok resolution' ∧
              SameResolution exampleTime resolution resolution') ∧
            Maximum resolution.usage
              ((records_of example_lines "msg_1").map PushedRecord.usage) :=
  ⟨_, _, rfl, rfl, ⟨_, rfl, rfl⟩, @resolution_ignores_append_order exampleTime example_lines
    example_lines.reverse "msg_1" "msg_1" _ _ rfl rfl (.swap _ _ _) (by decide)⟩

end ClaudeResponseBook

end ottto_service.claude_response_records
