-- The probe order of a group without ordinals finds the counter chain of its members where there is
-- one (codex_file_join.rs).
import Ottto.JoinPlan

namespace ottto_service.codex_file_join

open serde_json json_fields List Option

/-! ## The probe order -/

/-- The first native's `before` of one probed record, if it is one. -/
def probe_before (value : Value) : Option Tokens :=
  if string_eq_at value ["type"] "token_usage_record" then do
    let payload ← value.get "payload"
    let usage ← (payload.get "usage").bind Tokens.read
    let after ← (payload.get "thread_token_usage").bind Tokens.read
    after.before usage
  else none

/-- One member up to its first native record. -/
def probe (records : List Value) : Option Tokens := records.findSome? probe_before

/-- `None` stands before every probe. -/
def probe_le : Option Tokens → Option Tokens → Bool
  | none, _ => true
  | some _, none => false
  | some a, some b => decide (a ≤ b)

def probe_of (probes : List (Option Tokens)) (member : Nat) : Option Tokens := probes.getD member none

def order_by_probes (chronological : List Nat) (probes : List (Option Tokens)) :
    Except JoinRefusal (List Nat) :=
  let order := chronological.filter (fun member => (probe_of probes member).isNone)
  let usage := (chronological.filter (fun member => (probe_of probes member).isSome)).insertionSort
    (fun a b => probe_le (probe_of probes a) (probe_of probes b))
  if (usage.zip usage.tail).any (fun pair => probe_of probes pair.1 == probe_of probes pair.2) then
    .error .EqualBeforeTie
  else .ok (order ++ usage)

/-! ## The order of counters -/

theorem numbers_le {a b : List Nat} (h : List.Forall₂ (· ≤ ·) a b) : a ≤ b := by
  have hcases : a < b ∨ a = b := by
    induction h with
    | nil => exact .inr rfl
    | cons hle _ ih =>
      rcases Nat.lt_or_eq_of_le hle with hlt | rfl
      · exact .inl (List.Lex.rel hlt)
      · rcases ih with hlt | rfl
        · exact .inl (List.Lex.cons hlt)
        · exact .inr rfl
  exact hcases.elim le_of_lt le_of_eq

/-- What is covered in every counter stands first in the order of the sort. -/
theorem tokens_le {a b : Tokens} (h : ∀ i, (a.values i).toNat ≤ (b.values i).toNat) : a ≤ b := by
  have hnumbers : a.numbers ≤ b.numbers := by
    apply numbers_le
    simp only [Tokens.numbers, ofFn_succ, ofFn_zero, forall₂_cons, forall₂_nil_left_iff]
    exact ⟨h _, h _, h _, h _, h _, h _, trivial⟩
  exact hnumbers

/-! ## The chain -/

/-- Every counter before the one is at most that before the other. -/
def Native.Precedes (earlier later : Native) : Prop :=
  ∀ i, (earlier.before.values i).toNat ≤ (later.before.values i).toNat

instance : Trans Native.Precedes Native.Precedes Native.Precedes where
  trans hab hbc i := (hab i).trans (hbc i)

/-- The counters of a chain only grow. -/
theorem GapFree.grows {natives : List Native} (h : GapFree natives) :
    natives.Pairwise Native.Precedes := by
  have hchain : natives.IsChain Native.Precedes := by
    refine h.links.imp_of_mem_imp (fun earlier later hearlier _ hlink i => ?_)
    have hadds := h.adds earlier hearlier i
    rw [hlink]
    omega
  exact hchain.pairwise

/-- The natives of the members in their order are one counter chain, and every native record of a
member was read. -/
structure Chain (members : List Member) : Prop where
  gap_free : GapFree (natives members)
  read : ∀ member ∈ members, member.trace.natives.length = (member.trace.records.filter is_native).length

/-- A group that the proof does not refuse is such a chain. -/
theorem chain_of_replay (out : Outside) (owner : String) (v2 : Bool) (plans : List MemberPlan)
    (members : List Member) (h : ((StreamProof.new owner v2 plans).replay out members).refusal = none) :
    Chain members := by
  obtain ⟨hrefusal, -⟩ := finish_group_ok h
  obtain ⟨hbetween, hmembers, -⟩ := members_admitted (between_new owner v2 plans) 0 members hrefusal
  rw [nil_append] at hbetween
  refine ⟨hbetween.holds.chain, fun member hmember => ?_⟩
  obtain ⟨i, hi, rfl⟩ := getElem_of_mem hmember
  exact (hmembers i _ (List.getElem?_eq_getElem hi)).natives_read

theorem probe_of_native {turn : Option String} {value : Value} {native : Native}
    (hnative : is_native value = true) (h : read_native turn value = some native) :
    probe_before value = some native.before := by
  unfold read_native at h
  simp only [bind_eq_bind, bind_eq_some_iff] at h
  obtain ⟨payload, hpayload, response, -, usage, husage, after, hafter, before, hbefore, hnative'⟩ := h
  cases hnative'
  unfold probe_before
  refine (if_pos hnative).trans ?_
  simp only [bind_eq_bind, bind_eq_some_iff]
  exact ⟨payload, hpayload, usage, husage, after, hafter, hbefore⟩

/-- The natives that were read are those of the first native records. -/
theorem read_until_first (events : List Event) :
    let trace := run Trace.step {} events
    trace.natives.length ≤ (trace.records.filter is_native).length ∧
      (trace.natives.length = (trace.records.filter is_native).length →
        trace.natives.map (fun native => some native.before) =
          (trace.records.filter is_native).map probe_before) := by
  apply Run.invariant (fun trace : Trace =>
    trace.natives.length ≤ (trace.records.filter is_native).length ∧
      (trace.natives.length = (trace.records.filter is_native).length →
        trace.natives.map (fun native => some native.before) =
          (trace.records.filter is_native).map probe_before))
  · rintro trace event ⟨hle, hmap⟩
    cases event with
    | admission value from_last identity turn v2 => exact ⟨hle, hmap⟩
    | record value offset =>
      simp only [Trace.step, filter_append, length_append, map_append]
      by_cases hnative : is_native value = true
      · rw [if_pos hnative, filter_cons_of_pos hnative]
        cases hread : read_native ((turn_of value).or trace.turn) value with
        | none =>
          refine ⟨by simp; omega, fun hlength => ?_⟩
          simp only [toList_none, length_nil, length_cons, filter_nil] at hlength
          omega
        | some native =>
          refine ⟨by simpa using hle, fun hlength => ?_⟩
          have hsame := hmap (by simpa using hlength)
          simp [hsame, probe_of_native hnative hread]
      · rw [if_neg hnative, filter_cons_of_neg hnative]
        simpa using ⟨hle, hmap⟩
  · exact ⟨le_refl _, fun _ => rfl⟩

theorem probe_of_read {member : Member}
    (h : member.trace.natives.length = (member.trace.records.filter is_native).length) :
    probe member.trace.records = member.trace.natives.head?.map Native.before := by
  have hmap := (read_until_first member.events).2 h
  have hfilter : ∀ records : List Value, probe records =
      ((records.filter is_native).map probe_before).findSome? id := by
    intro records
    induction records with
    | nil => rfl
    | cons record records ih =>
      unfold probe at ih ⊢
      by_cases hnative : is_native record = true
      · rw [filter_cons_of_pos hnative, List.findSome?_cons, map_cons, List.findSome?_cons, ih]
        rfl
      · have hnone : probe_before record = none := if_neg hnative
        rw [filter_cons_of_neg hnative, List.findSome?_cons, hnone, ih]
  change member.trace.natives.map (fun native => some native.before) =
    (member.trace.records.filter is_native).map probe_before at hmap
  rw [hfilter, ← hmap]
  cases member.trace.natives with
  | nil => rfl
  | cons native natives => rfl

/-! ## The order that the probes give -/

theorem probe_le_total (a b : Option Tokens) : probe_le a b = true ∨ probe_le b a = true := by
  cases a <;> cases b <;> simp [probe_le, le_total]

theorem probe_le_trans {a b c : Option Tokens} (hab : probe_le a b = true) (hbc : probe_le b c = true) :
    probe_le a c = true := by
  cases a <;> cases b <;> cases c <;> simp_all [probe_le]
  exact le_trans hab hbc

theorem probe_le_antisymm {a b : Option Tokens} (hab : probe_le a b = true) (hba : probe_le b a = true) :
    a = b := by
  cases a <;> cases b <;> simp_all [probe_le]
  exact le_antisymm hab hba

/-- Two neighbours of the list have one probe. -/
def tied (probe : Nat → Option Tokens) (usage : List Nat) : Bool :=
  (usage.zip usage.tail).any (fun pair => probe pair.1 == probe pair.2)

theorem tied_false {probe : Nat → Option Tokens} {usage : List Nat} :
    tied probe usage = false ↔ usage.IsChain (fun a b => probe a ≠ probe b) := by
  induction usage with
  | nil => simp [tied]
  | cons a usage ih =>
    cases usage with
    | nil => simp [tied]
    | cons b usage =>
      have hsplit : tied probe (a :: b :: usage) = (probe a == probe b || tied probe (b :: usage)) := rfl
      rw [hsplit, isChain_cons_cons, ← ih, Bool.or_eq_false_iff, beq_eq_false_iff_ne]

def Below (probe : Nat → Option Tokens) (a b : Nat) : Prop :=
  probe_le (probe a) (probe b) = true ∧ probe a ≠ probe b

instance (probe : Nat → Option Tokens) : Trans (Below probe) (Below probe) (Below probe) where
  trans hab hbc :=
    ⟨probe_le_trans hab.1 hbc.1, fun heq => hab.2 (probe_le_antisymm hab.1 (heq ▸ hbc.1))⟩

/-- In a sorted list equal probes are neighbours. -/
theorem tied_of_sorted {probe : Nat → Option Tokens} {usage : List Nat}
    (h : usage.Pairwise (fun a b => probe_le (probe a) (probe b) = true)) :
    tied probe usage = false ↔ (usage.map probe).Nodup := by
  rw [tied_false]
  constructor
  · intro hchain
    have hstrict : usage.IsChain (Below probe) :=
      isChain_iff_getElem.mpr (fun i hi => ⟨h.isChain.getElem i hi, hchain.getElem i hi⟩)
    exact pairwise_map.mpr (hstrict.pairwise.imp (fun hbelow => hbelow.2))
  · intro hnodup
    exact (pairwise_map.mp hnodup).isChain

/-- The members of a chain, each by its first native, are in the order of the sort. -/
theorem Chain.probes_grow {order : List Nat} {files : Nat → Member} {probes : List (Option Tokens)}
    (h : Chain (order.map files))
    (hprobes : ∀ member ∈ order, probe_of probes member = probe (files member).trace.records ∧
      (probe_of probes member).isSome = true) :
    order.Pairwise (fun a b => probe_le (probe_of probes a) (probe_of probes b) = true) := by
  have hgrows := h.gap_free.grows
  rw [natives, flatMap_map, pairwise_flatMap] at hgrows
  have hfirst : ∀ member ∈ order, ∃ native ∈ (files member).trace.natives,
      probe_of probes member = some native.before := by
    intro member hmember
    obtain ⟨hprobe, hsome⟩ := hprobes member hmember
    rw [probe_of_read (h.read _ (mem_map_of_mem hmember))] at hprobe
    cases hhead : (files member).trace.natives.head? with
    | none => simp [hprobe, hhead] at hsome
    | some native => exact ⟨native, mem_of_head? hhead, by rw [hprobe, hhead]; rfl⟩
  refine hgrows.2.imp_of_mem (fun {a b} ha hb hab => ?_)
  obtain ⟨earlier, hearlier, hprobe_a⟩ := hfirst a ha
  obtain ⟨later, hlater, hprobe_b⟩ := hfirst b hb
  rw [hprobe_a, hprobe_b]
  exact decide_eq_true (tokens_le (hab earlier hearlier later hlater))

/-- The probes find the order of a chain, unless two members begin at one counter. -/
theorem order_of_chain {chronological order : List Nat} {files : Nat → Member}
    {probes : List (Option Tokens)}
    (hprobes : ∀ member ∈ chronological, probe_of probes member = probe (files member).trace.records)
    (horder : order.Perm (chronological.filter (fun member => (probe_of probes member).isSome)))
    (h : Chain (order.map files)) :
    order_by_probes chronological probes =
      if (order.map (probe_of probes)).Nodup then
        .ok (chronological.filter (fun member => (probe_of probes member).isNone) ++ order)
      else .error .EqualBeforeTie := by
  have hread : ∀ member ∈ order, probe_of probes member = probe (files member).trace.records ∧
      (probe_of probes member).isSome = true := by
    intro member hmember
    obtain ⟨hin, hsome⟩ := mem_filter.mp (horder.mem_iff.mp hmember)
    exact ⟨hprobes member hin, hsome⟩
  have hgrow := h.probes_grow hread
  have hsort := perm_insertionSort
    (fun a b => probe_le (probe_of probes a) (probe_of probes b) = true)
    (chronological.filter (fun member => (probe_of probes member).isSome))
  have hsorted : ((chronological.filter (fun member => (probe_of probes member).isSome)).insertionSort
      (fun a b => probe_le (probe_of probes a) (probe_of probes b) = true)).Pairwise
        (fun a b => probe_le (probe_of probes a) (probe_of probes b) = true) := by
    have htotal : Std.Total (fun a b : Nat => probe_le (probe_of probes a) (probe_of probes b) = true) :=
      ⟨fun a b => probe_le_total _ _⟩
    have htrans : IsTrans Nat (fun a b => probe_le (probe_of probes a) (probe_of probes b) = true) :=
      ⟨fun a b c => probe_le_trans⟩
    exact pairwise_insertionSort _ _
  unfold order_by_probes
  dsimp only
  generalize (chronological.filter (fun member => (probe_of probes member).isSome)).insertionSort
    (fun a b => probe_le (probe_of probes a) (probe_of probes b) = true) = usage at hsort hsorted
  have hperm := hsort.trans horder.symm
  have htied := tied_of_sorted hsorted
  have hnodup : (usage.map (probe_of probes)).Nodup ↔ (order.map (probe_of probes)).Nodup :=
    (hperm.map _).nodup_iff
  rw [hnodup] at htied
  change (if tied (probe_of probes) usage = true then _ else _) = _
  by_cases hdistinct : (order.map (probe_of probes)).Nodup
  · have hsame : usage = order := by
      refine List.Perm.eq_of_pairwise ?_ hsorted hgrow hperm
      intro a b ha hb hab hba
      exact inj_on_of_nodup_map hdistinct (hperm.mem_iff.mp ha) hb (probe_le_antisymm hab hba)
    rw [htied.mpr hdistinct, if_pos hdistinct, hsame]
    rfl
  · have hequal : tied (probe_of probes) usage = true := by
      rw [← Bool.not_eq_false]
      exact fun hfalse => hdistinct (htied.mp hfalse)
    rw [hequal, if_neg hdistinct]
    rfl

/-- The canonical order is a function of the set of members, a returned plan is one of a group, and the
probes find a chain that the proof follows. -/
theorem canonical_order_finds_the_chain :
    (∀ members others : List Listed, (members.map Prod.snd).Nodup → members.Perm others →
      planned members = planned others) ∧
    (∀ headers keys plan, plan_group headers keys = .ok plan →
      plan.order.Perm (List.range headers.length) ∧ BoundEarlier plan.plans ∧
        (plan.ordinal = true →
          ∃! i, IsOrigin headers plan.order i ∧ (stubs plan.plans)[i]? = some false)) ∧
    (∀ out owner v2 plans members,
      ((StreamProof.new owner v2 plans).replay out members).refusal = none → Chain members) ∧
    ∀ (chronological order : List Nat) (files : Nat → Member) (probes : List (Option Tokens)),
      (∀ member ∈ chronological, probe_of probes member = probe (files member).trace.records) →
      order.Perm (chronological.filter (fun member => (probe_of probes member).isSome)) →
      Chain (order.map files) →
        order_by_probes chronological probes =
          if (order.map (probe_of probes)).Nodup then
            .ok (chronological.filter (fun member => (probe_of probes member).isNone) ++ order)
          else .error .EqualBeforeTie :=
  ⟨fun _ _ hkeys h => planned_of_perm hkeys h, fun _ _ _ h => plan_spec h, chain_of_replay,
    fun _ _ _ _ hprobes horder h => order_of_chain hprobes horder h⟩

/-- A native whose thread has counted the five tokens of another one. -/
def example_later : Value :=
  .object [("type", .string "token_usage_record"), ("payload", .object [
    ("usage", example_usage 3), ("thread_token_usage", example_usage 8)])]

def origin_file : MemberHeader :=
  { example_file with ordinal := some 0, names := ["thread-1"] }

/-- A file that goes on where record 7 of the first one ends. -/
def continued_file : MemberHeader :=
  { example_file with
    digest := "d2", created := some 1796119201000000000, ordinal := some 7
    history_base := some (some "thread-1", some 7, some 300) }

/-- The continuation is read after its origin and bound to it, and the origin watches for its end. -/
example :
    let plan := (plan_group [continued_file, origin_file] ["a.jsonl", "b.jsonl"]).toOption
    plan.map GroupPlan.order = some [1, 0] ∧
      plan.map (fun plan => plan.plans.map MemberPlan.binding) = some [none, some (0, 7, 300)] ∧
      plan.map (fun plan => plan.plans.map MemberPlan.watch) = some [[7], []] := by
  decide +kernel

/-- Of two files in the wrong order, the probes put the one that counts from zero first. -/
example : (order_by_probes [0, 1] [probe [example_ui, example_later], probe [example_native]]).toOption =
    some [1, 0] := by
  decide +kernel

end ottto_service.codex_file_join
