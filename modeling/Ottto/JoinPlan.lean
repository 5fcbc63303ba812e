-- The canonical order of a group of Codex files depends on the set of its members only, and finds the
-- counter chain where there is one (codex_file_join.rs).
import Ottto.JoinFinal

namespace ottto_service.codex_file_join

open List Option

/-! ## The members in their order -/

/-- A member of a group: its header and its index key. -/
abbrev Listed := MemberHeader × String

/-- `None` stands before every time, and the key breaks a tie. -/
def earlier (a b : Listed) : Bool :=
  match a.1.created, b.1.created with
  | none, some _ => true
  | some _, none => false
  | none, none => decide (a.2 ≤ b.2)
  | some left, some right => decide (left < right) || (left == right && decide (a.2 ≤ b.2))

def listed (headers : List MemberHeader) (keys : List String) (i : Nat) : Listed :=
  (headers.getD i default, keys.getD i "")

theorem chronological_eq (headers : List MemberHeader) (keys : List String) (a b : Nat) :
    chronological headers keys a b = earlier (listed headers keys a) (listed headers keys b) := rfl

def time : Option Int → WithBot Int
  | none => ⊥
  | some created => created

/-- Where a member stands: its time, then its key. -/
def place (member : Listed) : WithBot Int ×ₗ String := toLex (time member.1.created, member.2)

theorem earlier_iff (a b : Listed) : earlier a b = true ↔ place a ≤ place b := by
  unfold earlier place
  rw [Prod.Lex.toLex_le_toLex]
  cases ha : a.1.created <;> cases hb : b.1.created <;> simp [time]

instance : Std.Total (fun a b : Listed => earlier a b = true) where
  total a b := by
    simp only [earlier_iff]
    exact le_total _ _

instance : IsTrans Listed (fun a b => earlier a b = true) where
  trans a b c := by
    simp only [earlier_iff]
    exact le_trans

def sorted (members : List Listed) : List Listed := members.insertionSort (fun a b => earlier a b = true)

theorem sorted_perm (members : List Listed) : (sorted members).Perm members :=
  perm_insertionSort _ members

theorem pairwise_sorted (members : List Listed) :
    (sorted members).Pairwise (fun a b => earlier a b = true) :=
  pairwise_insertionSort _ members

variable {members : List Listed}

/-- Members with different keys have one order only. -/
theorem sorted_eq_of_perm {others : List Listed} (hkeys : (members.map Prod.snd).Nodup)
    (h : members.Perm others) : sorted members = sorted others := by
  refine List.Perm.eq_of_pairwise ?_ (pairwise_sorted members) (pairwise_sorted others)
    (((sorted_perm members).trans h).trans (sorted_perm others).symm)
  intro a b ha hb hab hba
  have hplace := le_antisymm ((earlier_iff a b).mp hab) ((earlier_iff b a).mp hba)
  have hkey : a.2 = b.2 := congrArg (fun p => (ofLex p).2) hplace
  have hmem_a := (sorted_perm members).mem_iff.mp ha
  have hmem_b := h.mem_iff.mpr ((sorted_perm others).mem_iff.mp hb)
  exact inj_on_of_nodup_map hkeys hmem_a hmem_b hkey

/-! ## A plan once the order is known -/

/-- The members of `headers`, read in the order, are those of `sorted`. -/
structure Relabelled (headers sorted : List MemberHeader) (order : List Nat) : Prop where
  members : headers.Perm sorted
  places : order.Perm (List.range headers.length)
  same : ∀ i < headers.length, headers.getD (order.getD i 0) default = sorted.getD i default

theorem foldlM_congr {α β ε : Type} {f g : β → α → Except ε β} {items : List α}
    (h : ∀ a ∈ items, ∀ b, f b a = g b a) (b : β) : items.foldlM f b = items.foldlM g b := by
  induction items generalizing b with
  | nil => rfl
  | cons a items ih =>
    rw [foldlM_cons, foldlM_cons, h a mem_cons_self]
    congr 1
    funext next
    exact ih (fun c hc => h c (mem_cons_of_mem a hc)) next

namespace Relabelled

variable {headers sorted : List MemberHeader} {order : List Nat}

theorem length (h : Relabelled headers sorted order) : sorted.length = headers.length :=
  h.members.length_eq.symm

theorem order_length (h : Relabelled headers sorted order) : order.length = headers.length := by
  rw [h.places.length_eq, length_range]

theorem order_nodup (h : Relabelled headers sorted order) : order.Nodup :=
  h.places.nodup_iff.mpr nodup_range

/-- The member at a place. -/
def at_ (order : List Nat) (i : Nat) : Nat := order.getD i 0

theorem order_eq (h : Relabelled headers sorted order) :
    order = (List.range headers.length).map (at_ order) := by
  apply ext_getElem
  · simp [h.order_length]
  · intro i hi hi'
    simp [at_, getD_eq_getElem?_getD, getElem?_eq_getElem hi]

variable {i : Nat}

theorem idxOf_at (h : Relabelled headers sorted order) (hi : i < headers.length) :
    order.idxOf (at_ order i) = i := by
  have hlt : i < order.length := by rw [h.order_length]; exact hi
  rw [at_, getD_eq_getElem?_getD, getElem?_eq_getElem hlt, getD_some]
  exact List.Nodup.idxOf_getElem h.order_nodup i hlt

theorem idxOf_range {n : Nat} (hi : i < n) : (List.range n).idxOf i = i := by
  have hlt : i < (List.range n).length := by simpa using hi
  have hplace := List.Nodup.idxOf_getElem nodup_range i hlt
  rwa [getElem_range] at hplace

theorem at_inj (h : Relabelled headers sorted order) {j : Nat} (hi : i < headers.length)
    (hj : j < headers.length) : at_ order i = at_ order j ↔ i = j := by
  constructor
  · intro heq
    rw [← h.idxOf_at hi, heq, h.idxOf_at hj]
  · rintro rfl
    rfl

theorem header_at (h : Relabelled headers sorted order) (hi : i < headers.length) :
    headers.getD (at_ order i) default = sorted.getD i default := h.same i hi

theorem plan_origin_at (h : Relabelled headers sorted order) {main : Nat}
    (hmain : main < headers.length) (hi : i < headers.length) (plans : List MemberPlan) :
    plan_origin headers order (at_ order main) plans (at_ order i) =
      plan_origin sorted (List.range headers.length) main plans i := by
  have hne : decide (at_ order i ≠ at_ order main) = decide (i ≠ main) := by
    rw [decide_eq_decide, ne_eq, ne_eq, h.at_inj hi hmain]
  unfold plan_origin
  rw [h.header_at hi, h.header_at hmain, h.idxOf_at hi, idxOf_range hi, hne]

theorem filter_range (h : Relabelled headers sorted order) (p : Nat → Bool) :
    ((List.range headers.length).filter p).Perm
      (((List.range headers.length).filter (p ∘ at_ order)).map (at_ order)) := by
  have hfilter : order.filter p = ((List.range headers.length).map (at_ order)).filter p :=
    congrArg (List.filter p) h.order_eq
  rw [List.filter_map] at hfilter
  exact (h.places.symm.filter p).trans (List.Perm.of_eq hfilter)

/-- The members that a name stands for, but for the one that names it. -/
theorem named_at (h : Relabelled headers sorted order) (hi : i < headers.length) (thread : String) :
    ((List.range headers.length).filter (fun other =>
        decide (other ≠ at_ order i) && (headers.getD other default).names.contains thread)).Perm
      (((List.range sorted.length).filter (fun other =>
        decide (other ≠ i) && (sorted.getD other default).names.contains thread)).map (at_ order)) := by
  refine (h.filter_range _).trans (List.Perm.of_eq ?_)
  rw [h.length]
  congr 1
  apply filter_congr
  intro other hother
  have hlt := mem_range.mp hother
  simp only [Function.comp_apply, h.header_at hlt, ne_eq, h.at_inj hlt hi]

theorem plan_member_at (h : Relabelled headers sorted order) (hi : i < headers.length)
    (plans : List MemberPlan) :
    plan_member headers order plans (at_ order i, i) =
      plan_member sorted (List.range headers.length) plans (i, i) := by
  unfold plan_member
  dsimp only
  rw [h.header_at hi]
  cases hbase : (sorted.getD i default).history_base with
  | none => rfl
  | some base =>
    dsimp only
    split
    · rfl
    · obtain ⟨thread, end_, offset⟩ := base
      cases thread with
      | none => rfl
      | some thread =>
        cases end_ with
        | none => rfl
        | some end_ =>
          cases offset with
          | none => rfl
          | some offset =>
            have hnamed := h.named_at hi thread
            dsimp only
            revert hnamed
            generalize hmine : (List.range headers.length).filter (fun other =>
              decide (other ≠ at_ order i) && (headers.getD other default).names.contains thread) = mine
            generalize hothers : (List.range sorted.length).filter (fun other =>
              decide (other ≠ i) && (sorted.getD other default).names.contains thread) = others
            intro hnamed
            match others, hothers with
            | [], _ =>
              rw [map_nil, perm_nil] at hnamed
              rw [hnamed]
            | [other], hothers =>
              rw [map_cons, map_nil, perm_singleton] at hnamed
              have hlt : other < headers.length := by
                have hmem : other ∈ (List.range sorted.length).filter (fun other =>
                    decide (other ≠ i) && (sorted.getD other default).names.contains thread) := by
                  rw [hothers]
                  exact mem_singleton_self other
                rw [← h.length]
                exact mem_range.mp (mem_filter.mp hmem).1
              rw [hnamed]
              dsimp only
              rw [h.idxOf_at hlt, idxOf_range hlt]
            | other :: second :: more, _ =>
              match mine, hnamed with
              | [], hnamed => simp at hnamed
              | [only], hnamed => simp at hnamed
              | _ :: _ :: _, _ => rfl

theorem zipIdx_range {n : Nat} {place : Nat × Nat} (h : place ∈ (List.range n).zipIdx) :
    place.1 < n ∧ place = (place.1, place.1) := by
  obtain ⟨i, at_⟩ := place
  obtain ⟨-, hlt, heq⟩ := mem_zipIdx h
  simp only [length_range, Nat.zero_add, Nat.sub_zero, getElem_range] at hlt heq
  exact ⟨heq ▸ hlt, by rw [heq]⟩

theorem origins_at (h : Relabelled headers sorted order) :
    order.filter (fun member => (headers.getD member default).history_base.isNone) =
      ((List.range headers.length).filter (fun member =>
        (sorted.getD member default).history_base.isNone)).map (at_ order) := by
  have hfilter := congrArg
    (List.filter (fun member => (headers.getD member default).history_base.isNone)) h.order_eq
  rw [List.filter_map] at hfilter
  rw [hfilter]
  congr 1
  apply filter_congr
  intro member hmember
  simp only [Function.comp_apply, h.header_at (mem_range.mp hmember)]

theorem last_map (f : Nat → Nat) {l : List Nat} (h : l ≠ []) :
    (l.map f).getLastD 0 = f (l.getLastD 0) := by
  rw [getLastD_eq_getLast?, getLastD_eq_getLast?, getLast?_map,
    getLast?_eq_some_getLast h]
  rfl

theorem last_mem {l : List Nat} (h : l ≠ []) : l.getLastD 0 ∈ l := by
  rw [getLastD_eq_getLast?, getLast?_eq_some_getLast h]
  exact getLast_mem h

/-- The plan of the members is the plan of their sorted list, for the order they were given in. -/
theorem plan_ordered_at (h : Relabelled headers sorted order) (ordinal : Bool) :
    plan_ordered headers ordinal order =
      (plan_ordered sorted ordinal (List.range headers.length)).map (fun plan =>
        { plan with order := order }) := by
  have hhead : order.head? = (List.range headers.length).head?.map (at_ order) :=
    (congrArg List.head? h.order_eq).trans head?_map
  unfold plan_ordered
  rw [hhead]
  cases hfirst : (List.range headers.length).head? with
  | none => rfl
  | some first =>
    have hmem := mem_of_head? hfirst
    have hlt : first < headers.length := mem_range.mp hmem
    simp only [map_some]
    rw [h.header_at hlt]
    split
    · rfl
    · cases hbase : (sorted.getD first default).history_base with
      | some base =>
        have hany : ∀ p : MemberHeader → Bool, headers.any p = sorted.any p := fun p =>
          h.members.any_eq
        simp only [hany]
        rfl
      | none =>
        cases ordinal with
        | false =>
          simp only [h.members.any_eq, Bool.not_false, if_true]
          split
          · rfl
          · simp only [h.length]
            rfl
        | true =>
          simp only [Bool.not_true, Bool.false_eq_true, if_false]
          rw [h.origins_at, h.length]
          have horigins : (List.range headers.length).filter (fun member =>
              (sorted.getD member default).history_base.isNone) ≠ [] :=
            ne_nil_of_mem (mem_filter.mpr ⟨hmem, by rw [hbase]; rfl⟩)
          have hinside : ∀ member ∈ (List.range headers.length).filter (fun member =>
              (sorted.getD member default).history_base.isNone), member < headers.length :=
            fun member hmember => mem_range.mp (mem_filter.mp hmember).1
          generalize (List.range headers.length).filter (fun member =>
            (sorted.getD member default).history_base.isNone) = origins at horigins hinside
          have hmain := last_map (at_ order) horigins
          have hmain_lt := hinside _ (last_mem horigins)
          rw [hmain, foldlM_map, foldlM_congr (fun origin horigin plans =>
            h.plan_origin_at hmain_lt (hinside origin horigin) plans)]
          have hplaces : ∀ plans, order.zipIdx.foldlM (plan_member headers order) plans =
              (List.range headers.length).zipIdx.foldlM
                (plan_member sorted (List.range headers.length)) plans := by
            intro plans
            have hzip : order.zipIdx = (List.range headers.length).zipIdx.map (Prod.map (at_ order) id) :=
              (congrArg (fun order => List.zipIdx order) h.order_eq).trans zipIdx_map
            rw [hzip, foldlM_map]
            apply foldlM_congr
            intro place hplace plans
            obtain ⟨hlt, heq⟩ := zipIdx_range hplace
            rw [heq]
            exact h.plan_member_at hlt plans
          simp only [hplaces]
          cases origins.foldlM (plan_origin sorted (List.range headers.length) (origins.getLastD 0))
            (List.replicate headers.length ({} : MemberPlan)) with
          | error reason => rfl
          | ok plans =>
            dsimp only [Bind.bind, Except.bind]
            cases (List.range headers.length).zipIdx.foldlM
              (plan_member sorted (List.range headers.length)) plans <;> rfl

end Relabelled

/-! ## The plan of a set of members -/

/-- The members in the planned order, with their plans. -/
def planned (members : List Listed) : Except JoinRefusal (List Listed × List MemberPlan × Bool) :=
  (plan_group (members.map Prod.fst) (members.map Prod.snd)).map (fun plan =>
    (plan.order.map (listed (members.map Prod.fst) (members.map Prod.snd)), plan.plans, plan.ordinal))

/-- Some members have an ordinal and some have none. -/
theorem mixed_iff (headers : List MemberHeader) :
    headers.any (fun header => header.ordinal.isSome !=
      headers.head?.any (fun header => header.ordinal.isSome)) = true ↔
      ∃ a ∈ headers, ∃ b ∈ headers, a.ordinal.isSome ≠ b.ordinal.isSome := by
  cases headers with
  | nil => simp
  | cons first rest =>
    simp only [head?_cons, Option.any_some, List.any_eq_true, bne_iff_ne]
    constructor
    · rintro ⟨a, ha, hne⟩
      exact ⟨a, ha, first, mem_cons_self, hne⟩
    · rintro ⟨a, ha, b, hb, hne⟩
      by_cases hsame : a.ordinal.isSome = first.ordinal.isSome
      · exact ⟨b, hb, fun hb => hne (hsame.trans hb.symm)⟩
      · exact ⟨a, ha, hsame⟩

theorem listed_of_lt {i : Nat} (h : i < members.length) :
    listed (members.map Prod.fst) (members.map Prod.snd) i = members[i] := by
  simp [listed, getD_eq_getElem?_getD, h]

theorem map_listed (members : List Listed) :
    (List.range members.length).map (listed (members.map Prod.fst) (members.map Prod.snd)) = members := by
  apply ext_getElem
  · simp
  · intro i hi hi'
    rw [getElem_map, getElem_range, listed_of_lt hi']

/-- The order of the members, read as members, is their sorted list. -/
theorem order_listed (members : List Listed) :
    ((List.range members.length).insertionSort (fun a b =>
      chronological (members.map Prod.fst) (members.map Prod.snd) a b = true)).map
        (listed (members.map Prod.fst) (members.map Prod.snd)) = sorted members := by
  have hmap := map_insertionSort
    (fun a b => chronological (members.map Prod.fst) (members.map Prod.snd) a b = true)
    (fun a b : Listed => earlier a b = true)
    (listed (members.map Prod.fst) (members.map Prod.snd)) (List.range members.length)
    (fun a _ b _ => .rfl)
  rw [hmap, map_listed]
  rfl

/-- Sorted members stay where they are. -/
theorem order_of_sorted (h : members.Pairwise (fun a b => earlier a b = true)) :
    (List.range members.length).insertionSort (fun a b =>
      chronological (members.map Prod.fst) (members.map Prod.snd) a b = true) =
        List.range members.length := by
  apply List.Pairwise.insertionSort_eq
  rw [pairwise_iff_getElem] at h ⊢
  intro i j hi hj hij
  rw [length_range] at hi hj
  rw [getElem_range, getElem_range, chronological_eq, listed_of_lt hi, listed_of_lt hj]
  exact h i j hi hj hij

theorem relabelled_sorted (members : List Listed) :
    Relabelled (members.map Prod.fst) ((sorted members).map Prod.fst)
      ((List.range members.length).insertionSort (fun a b =>
        chronological (members.map Prod.fst) (members.map Prod.snd) a b = true)) := by
  have horder := order_listed members
  refine ⟨((sorted_perm members).map Prod.fst).symm, ?_, fun i hi => ?_⟩
  · rw [length_map]
    exact perm_insertionSort _ _
  · have hlength : (sorted members).length = members.length := (sorted_perm members).length_eq
    rw [length_map] at hi
    revert horder
    generalize (List.range members.length).insertionSort (fun a b =>
      chronological (members.map Prod.fst) (members.map Prod.snd) a b = true) = order
    intro horder
    have hplace := congrArg (fun l => (l[i]?).map Prod.fst) horder
    have hsome : (sorted members)[i]? = some (sorted members)[i] := getElem?_eq_getElem (by omega)
    rw [getElem?_map, hsome] at hplace
    cases horder_i : order[i]? with
    | none => simp [horder_i] at hplace
    | some member =>
      rw [horder_i] at hplace
      have hfst : (listed (members.map Prod.fst) (members.map Prod.snd) member).1 = (sorted members)[i].1 :=
        Option.some.inj hplace
      have hat : order.getD i 0 = member := by
        rw [getD_eq_getElem?_getD, horder_i]
        rfl
      rw [hat]
      refine hfst.trans ?_
      rw [getD_eq_getElem?_getD, getElem?_map, hsome]
      rfl

variable {headers : List MemberHeader} {order : List Nat} {plan : GroupPlan}

theorem plan_ordered_order {ordinal : Bool} (h : plan_ordered headers ordinal order = .ok plan) :
    plan.order = order := by
  unfold plan_ordered at h
  split at h
  · cases h
  · dsimp only at h
    split at h
    · cases h
    · split at h
      · cases h
      · split at h
        · split at h
          · cases h
          · cases h
            rfl
        · obtain ⟨origins, -, h⟩ := Results.bind_eq_ok.mp h
          obtain ⟨plans, -, h⟩ := Results.bind_eq_ok.mp h
          cases h
          rfl

theorem flag_eq {others : List MemberHeader} (h : headers.Perm others)
    (hsame : ∀ a ∈ headers, ∀ b ∈ headers, a.ordinal.isSome = b.ordinal.isSome) :
    headers.head?.any (fun header => header.ordinal.isSome) =
      others.head?.any (fun header => header.ordinal.isSome) := by
  cases headers with
  | nil => rw [nil_perm.mp h]
  | cons first rest =>
    cases others with
    | nil => simp at h
    | cons first' rest' =>
      exact hsame first mem_cons_self first' (h.mem_iff.mpr mem_cons_self)

/-- The sorted members are planned as the members are. -/
theorem planned_sorted (members : List Listed) : planned members = planned (sorted members) := by
  have hperm := (sorted_perm members).map Prod.fst
  have hlength : (sorted members).length = members.length := (sorted_perm members).length_eq
  have hcopy : (((sorted members).map Prod.fst).map (fun header => (header.digest, header.size))).Nodup ↔
      ((members.map Prod.fst).map (fun header => (header.digest, header.size))).Nodup :=
    (hperm.map _).nodup_iff
  have hmixed := mixed_iff (members.map Prod.fst)
  have hmixed' := mixed_iff ((sorted members).map Prod.fst)
  simp only [hperm.mem_iff] at hmixed'
  unfold planned
  simp only [plan_group]
  rw [length_map, length_map, order_of_sorted (pairwise_sorted members)]
  by_cases hunique : ((members.map Prod.fst).map (fun header => (header.digest, header.size))).Nodup
  · rw [if_neg (not_not.mpr hunique), if_neg (not_not.mpr (hcopy.mpr hunique))]
    by_cases hmix : ∃ a ∈ members.map Prod.fst, ∃ b ∈ members.map Prod.fst,
        a.ordinal.isSome ≠ b.ordinal.isSome
    · rw [if_pos (hmixed.mpr hmix), if_pos (hmixed'.mpr hmix)]
      rfl
    · have hflag := flag_eq hperm.symm (fun a ha b hb => by
        by_contra hne
        exact hmix ⟨a, ha, b, hb, hne⟩)
      rw [if_neg (fun h => hmix (hmixed.mp h)), if_neg (fun h => hmix (hmixed'.mp h)), hperm.any_eq, hflag]
      split
      · rfl
      · rw [(relabelled_sorted members).plan_ordered_at, length_map, hlength]
        cases hplan : plan_ordered ((sorted members).map Prod.fst)
            (((sorted members).map Prod.fst).head?.any (fun header => header.ordinal.isSome))
            (List.range members.length) with
        | error reason => rfl
        | ok plan =>
          have horder := plan_ordered_order hplan
          have hsorted := map_listed (sorted members)
          rw [hlength] at hsorted
          simp only [Except.map, order_listed, horder, hsorted]
  · rw [if_pos hunique, if_pos (fun h => hunique (hcopy.mp h))]
    rfl

/-- The order, the plans and the refusal are functions of the set of members. -/
theorem planned_of_perm {others : List Listed} (hkeys : (members.map Prod.snd).Nodup)
    (h : members.Perm others) : planned members = planned others := by
  rw [planned_sorted members, planned_sorted others, sorted_eq_of_perm hkeys h]

/-! ## What a plan promises -/

theorem plan_group_ok {keys : List String} (h : plan_group headers keys = .ok plan) :
    plan_ordered headers (headers.head?.any (fun header => header.ordinal.isSome))
      ((List.range headers.length).insertionSort (fun a b => chronological headers keys a b)) = .ok plan := by
  unfold plan_group at h
  dsimp only at h
  split at h
  · cases h
  · split at h
    · cases h
    · split at h
      · cases h
      · exact h

/-- Every binding names an earlier place. -/
def BoundEarlier (plans : List MemberPlan) : Prop :=
  ∀ (i : Nat) (plan : MemberPlan), plans[i]? = some plan →
    ∀ binding, plan.binding = some binding → binding.1 < i

variable {plans : List MemberPlan}

theorem BoundEarlier.modify (h : BoundEarlier plans) (i : Nat) (change : MemberPlan → MemberPlan)
    (hchange : ∀ plan binding, (change plan).binding = some binding →
      plan.binding = some binding ∨ binding.1 < i) : BoundEarlier (plans.modify i change) := by
  intro j plan hplan binding hbinding
  rw [getElem?_modify] at hplan
  obtain ⟨old, hold, hnew⟩ := map_eq_some_iff.mp hplan
  split at hnew
  · rename_i hsame
    rw [← hnew] at hbinding
    rcases hchange old binding hbinding with hkept | hlt
    · exact h j old hold binding hkept
    · exact hsame ▸ hlt
  · exact h j old hold binding (hnew ▸ hbinding)

variable {next : List MemberPlan}

theorem bound_earlier_origin {main origin : Nat} (h : BoundEarlier plans)
    (hnext : plan_origin headers order main plans origin = .ok next) : BoundEarlier next := by
  unfold plan_origin at hnext
  dsimp only at hnext
  split at hnext
  · cases hnext
  · cases hnext
    exact h.modify _ _ (fun plan binding hbinding => .inl hbinding)

def with_first (first : Option UInt64) (plan : MemberPlan) : MemberPlan := { plan with first := first }

def with_binding (binding : Nat × UInt64 × UInt64) (plan : MemberPlan) : MemberPlan :=
  { plan with binding := some binding }

def with_watch (end_ : UInt64) (plan : MemberPlan) : MemberPlan :=
  { plan with watch := plan.watch ++ [end_] }

/-- What a member's plan comes to: its ordinal, and where it continues another its binding, with the
end that the other then watches for. -/
inductive MemberPlanned (order : List Nat) (plans : List MemberPlan) (at_ : Nat) (first : Option UInt64) :
    List MemberPlan → Prop
  | origin : MemberPlanned order plans at_ first (plans.modify at_ (with_first first))
  | bound (predecessor : Nat) (end_ offset : UInt64) (h : order.idxOf predecessor < at_) :
    MemberPlanned order plans at_ first
      (((plans.modify at_ (with_first first)).modify at_
        (with_binding (order.idxOf predecessor, end_, offset))).modify
          (order.idxOf predecessor) (with_watch end_))

theorem plan_member_ok {place : Nat × Nat} (hnext : plan_member headers order plans place = .ok next) :
    MemberPlanned order plans place.2 (headers.getD place.1 default).ordinal next := by
  obtain ⟨member, at_⟩ := place
  unfold plan_member at hnext
  dsimp only at hnext
  split at hnext
  · cases hnext
    exact .origin
  · split at hnext
    · cases hnext
    · split at hnext
      · split at hnext
        · rename_i end_ offset _ _ predecessor _
          split at hnext
          · cases hnext
          · rename_i hplace
            cases hnext
            exact .bound predecessor end_ offset (not_le.mp (fun hle => hplace (.inr hle)))
        · cases hnext
        · cases hnext
      · cases hnext

theorem bound_earlier_member {at_ : Nat} {first : Option UInt64} (h : BoundEarlier plans)
    (hnext : MemberPlanned order plans at_ first next) : BoundEarlier next := by
  cases hnext with
  | origin => exact h.modify at_ (with_first first) (fun plan binding hbinding => .inl hbinding)
  | bound predecessor end_ offset hlt =>
    have hfirst := h.modify at_ (with_first first) (fun plan binding hbinding => .inl hbinding)
    have hbound := hfirst.modify at_ (with_binding (order.idxOf predecessor, end_, offset))
      (fun plan binding hbinding => .inr (by
        cases hbinding
        exact hlt))
    exact hbound.modify (order.idxOf predecessor) (with_watch end_)
      (fun plan binding hbinding => .inl hbinding)

/-- The stubs of the plans, place by place. -/
def stubs (plans : List MemberPlan) : List Bool := plans.map MemberPlan.stub

theorem stubs_modify (plans : List MemberPlan) (i : Nat) (change : MemberPlan → MemberPlan)
    (h : ∀ plan, (change plan).stub = plan.stub) : stubs (plans.modify i change) = stubs plans := by
  apply List.ext_getElem?
  intro j
  simp only [stubs, List.getElem?_map, List.getElem?_modify]
  cases plans[j]? with
  | none => rfl
  | some plan => by_cases hsame : i = j <;> simp [hsame, h]

theorem stubs_member {at_ : Nat} {first : Option UInt64} (hnext : MemberPlanned order plans at_ first next) :
    stubs next = stubs plans := by
  cases hnext with
  | origin => exact stubs_modify plans at_ (with_first first) (fun _ => rfl)
  | bound predecessor end_ offset hlt =>
    rw [stubs_modify _ _ (with_watch end_) (fun _ => rfl),
      stubs_modify _ _ (with_binding (order.idxOf predecessor, end_, offset)) (fun _ => rfl),
      stubs_modify _ _ (with_first first) (fun _ => rfl)]

/-- Each origin's place says whether it is the main one. -/
theorem stubs_origins {origins : List Nat} {main : Nat} {planned : List MemberPlan}
    (hplanned : origins.foldlM (plan_origin headers order main) plans = .ok planned) (i : Nat) :
    (stubs planned)[i]? = ((stubs plans)[i]?).map (fun stub =>
      match (origins.filter (fun origin => decide (order.idxOf origin = i))).getLast? with
      | some origin => decide (origin ≠ main)
      | none => stub) := by
  induction origins generalizing plans with
  | nil =>
    cases hplanned
    simp
  | cons origin origins ih =>
    rw [List.foldlM_cons] at hplanned
    obtain ⟨next, hnext, hrest⟩ := Results.bind_eq_ok.mp hplanned
    rw [ih hrest]
    unfold plan_origin at hnext
    dsimp only at hnext
    split at hnext
    · cases hnext
    · cases hnext
      simp only [stubs, List.getElem?_map, List.getElem?_modify, Option.map_map]
      cases plans[i]? with
      | none => rfl
      | some plan =>
        by_cases hplace : order.idxOf origin = i
        · simp only [Option.map_some, Function.comp_apply, hplace, if_true, List.filter_cons, decide_true,
            List.getLast?_cons]
          cases (origins.filter (fun origin => decide (order.idxOf origin = i))).getLast? <;> rfl
        · simp [hplace]

/-- The member at a place is no continuation of another. -/
def IsOrigin (headers : List MemberHeader) (order : List Nat) (i : Nat) : Prop :=
  ∃ member, order[i]? = some member ∧ (headers.getD member default).history_base = none

/-- Of the origins of an ordinal group one is no stub. -/
theorem one_main {planned : List MemberPlan}
    (hnodup : order.Nodup) {first : Nat} (hfirst : first ∈ order)
    (hbase : (headers.getD first default).history_base = none)
    (hplans : stubs plans = List.replicate order.length false)
    (hplanned : (order.filter (fun member => (headers.getD member default).history_base.isNone)).foldlM
      (plan_origin headers order ((order.filter (fun member =>
        (headers.getD member default).history_base.isNone)).getLastD 0)) plans = .ok planned) :
    ∃! i, IsOrigin headers order i ∧ (stubs planned)[i]? = some false := by
  have hstubs := stubs_origins hplanned
  have horigin : ∀ member, member ∈ order.filter (fun member =>
      (headers.getD member default).history_base.isNone) ↔
        member ∈ order ∧ (headers.getD member default).history_base = none := by
    intro member
    rw [List.mem_filter, Option.isNone_iff_eq_none]
  generalize order.filter (fun member => (headers.getD member default).history_base.isNone) = origins
    at hstubs horigin
  have hne : origins ≠ [] := List.ne_nil_of_mem ((horigin first).mpr ⟨hfirst, hbase⟩)
  obtain ⟨hmain, hmain_base⟩ := (horigin _).mp (Relabelled.last_mem hne)
  generalize origins.getLastD 0 = main at hstubs hmain hmain_base
  -- At an origin's place the stub says whether it is the main one.
  have hat : ∀ i member : Nat, order[i]? = some member → (headers.getD member default).history_base = none →
      (stubs planned)[i]? = some (decide (member ≠ main)) := by
    intro i member hmember hmember_base
    obtain ⟨hi, hget⟩ := List.getElem?_eq_some_iff.mp hmember
    have hidx : order.idxOf member = i := by
      rw [← hget]
      exact hnodup.idxOf_getElem i hi
    have hmem : member ∈ origins.filter (fun origin => decide (order.idxOf origin = i)) :=
      List.mem_filter.mpr ⟨(horigin member).mpr ⟨List.mem_of_getElem? hmember, hmember_base⟩,
        decide_eq_true hidx⟩
    obtain ⟨last, hlast⟩ : ∃ last,
        (origins.filter (fun origin => decide (order.idxOf origin = i))).getLast? = some last :=
      ⟨_, List.getLast?_eq_some_getLast (List.ne_nil_of_mem hmem)⟩
    have hsame : last = member := by
      obtain ⟨hin, hplace⟩ := List.mem_filter.mp (List.mem_of_getLast? hlast)
      have hlast_at := List.getElem?_idxOf ((horigin last).mp hin).1
      rw [of_decide_eq_true hplace, hmember] at hlast_at
      exact (Option.some.inj hlast_at).symm
    rw [hstubs, hplans, List.getElem?_replicate, if_pos hi, hlast, hsame]
    rfl
  refine ⟨order.idxOf main, ⟨⟨main, List.getElem?_idxOf hmain, hmain_base⟩, ?_⟩, ?_⟩
  · rw [hat _ main (List.getElem?_idxOf hmain) hmain_base]
    simp
  · rintro i ⟨⟨member, hmember, hmember_base⟩, hstub⟩
    rw [hat i member hmember hmember_base] at hstub
    have hmem_eq : member = main := by simpa using hstub
    obtain ⟨hi, hget⟩ := List.getElem?_eq_some_iff.mp hmember
    rw [← hmem_eq, ← hget]
    exact (hnodup.idxOf_getElem i hi).symm

/-- The order is a permutation, each binding names an earlier place, and of an ordinal group's origins
one is no stub. -/
theorem plan_spec {keys : List String} (h : plan_group headers keys = .ok plan) :
    plan.order.Perm (List.range headers.length) ∧ BoundEarlier plan.plans ∧
      (plan.ordinal = true →
        ∃! i, IsOrigin headers plan.order i ∧ (stubs plan.plans)[i]? = some false) := by
  have hplan := plan_group_ok h
  have hplaces := List.perm_insertionSort (fun a b => chronological headers keys a b = true)
    (List.range headers.length)
  generalize (List.range headers.length).insertionSort (fun a b => chronological headers keys a b = true)
    = order at hplan hplaces
  generalize headers.head?.any (fun header => header.ordinal.isSome) = ordinal at hplan
  have horder := plan_ordered_order hplan
  refine ⟨horder ▸ hplaces, ?_⟩
  have hnodup : order.Nodup := hplaces.nodup_iff.mpr List.nodup_range
  have hlength : order.length = headers.length := by rw [hplaces.length_eq, List.length_range]
  have hnone : BoundEarlier (List.replicate headers.length ({} : MemberPlan)) := by
    intro i plan hplan binding hbinding
    rw [List.getElem?_replicate] at hplan
    split at hplan
    · cases hplan
      cases hbinding
    · cases hplan
  unfold plan_ordered at hplan
  split at hplan
  · cases hplan
  · rename_i first hfirst
    dsimp only at hplan
    split at hplan
    · cases hplan
    · split at hplan
      · cases hplan
      · rename_i hbase
        split at hplan
        · rename_i hlegacy
          split at hplan
          · cases hplan
          · cases hplan
            exact ⟨hnone, fun hordinal => absurd hlegacy (by simp_all)⟩
        · obtain ⟨origins, horigins, hplan⟩ := Results.bind_eq_ok.mp hplan
          obtain ⟨plans, hplans, hplan⟩ := Results.bind_eq_ok.mp hplan
          cases hplan
          have hmain := one_main hnodup (List.mem_of_head? hfirst) hbase
            (by simp [stubs, hlength]) horigins
          have hearlier : BoundEarlier origins :=
            Results.foldlM_invariant BoundEarlier
              (fun origin _ plans next hplans hnext => bound_earlier_origin hplans hnext) hnone horigins
          obtain ⟨hbound, hstubs⟩ : BoundEarlier plans ∧ stubs plans = stubs origins :=
            Results.foldlM_invariant (fun plans => BoundEarlier plans ∧ stubs plans = stubs origins)
              (fun place _ plans next hplans hnext =>
                ⟨bound_earlier_member hplans.1 (plan_member_ok hnext),
                  (stubs_member (plan_member_ok hnext)).trans hplans.2⟩) ⟨hearlier, rfl⟩ hplans
          refine ⟨hbound, fun _ => ?_⟩
          simp only [hstubs]
          exact hmain

end ottto_service.codex_file_join
