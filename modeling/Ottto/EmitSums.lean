-- The sums of the staged grains: counters, the cost of the session, and the costs of the rows.
import Ottto.EmitStage

namespace ottto_service.claude_request_money.emit

open Words usage accumulator snapshots.wire List Option SortedMap
open claude_request_money (SnapshotItem)

/-! ## Counters and the session's cost -/

/-- The cost of a grain in pico-dollars, zero when it has none. -/
def grain_picos (e : GrainKey × ClaudeGrainSide) : Nat := micros_picos e.2.cost

/-- The total cost of the priced grains. -/
def grains_picos (grains : List (GrainKey × ClaudeGrainSide)) : Nat := (grains.map grain_picos).sum

theorem grains_count_snoc (done : List (GrainKey × ClaudeGrainSide))
    (e : GrainKey × ClaudeGrainSide) (c : Counter) :
    grains_count (done ++ [e]) c = grains_count done c + e.2.count c := by
  simp [grains_count]

theorem grains_picos_snoc (done : List (GrainKey × ClaudeGrainSide))
    (e : GrainKey × ClaudeGrainSide) :
    grains_picos (done ++ [e]) = grains_picos done + grain_picos e := by
  simp [grains_picos]

theorem checked_add_toNat {a b c : UInt64} (h : checked_add a b = some c) :
    c.toNat = a.toNat + b.toNat := by
  unfold checked_add at h
  split at h
  · next hlt =>
    cases h
    exact toNat_add_of_lt hlt
  · cases h

theorem add_session_cost_spec {cost own next : Option UInt64}
    (h : add_session_cost cost own = some next) :
    micros_picos next = micros_picos cost + micros_picos own ∧
      next.isSome = (cost.isSome || own.isSome) := by
  unfold add_session_cost at h
  cases own with
  | none =>
    cases h
    simp [micros_picos]
  | some own =>
    obtain ⟨sum, hsum, rfl⟩ := map_eq_some_iff.mp h
    have hvalue := checked_add_toNat hsum
    cases cost <;> simp [micros_picos] at hvalue ⊢ <;> omega

theorem add_row_cost_spec {prior cost next : Option UInt64}
    (h : add_row_cost prior cost = some next) (hboth : prior.isSome = cost.isSome) :
    micros_picos next = micros_picos prior + micros_picos cost ∧ next.isSome = cost.isSome := by
  unfold add_row_cost at h
  cases prior with
  | none =>
    cases cost with
    | none =>
      cases h
      exact ⟨rfl, rfl⟩
    | some cost => cases hboth
  | some prior =>
    cases cost with
    | none => cases hboth
    | some cost =>
      obtain ⟨sum, hsum, rfl⟩ := map_eq_some_iff.mp h
      have hvalue := checked_add_toNat hsum
      simp only [micros_picos, map_some, getD_some, isSome_some, and_true]
      omega

/-- What the grains so far come to, whatever their costs. -/
structure Sound (done : List (GrainKey × ClaudeGrainSide)) (staged : Staged) : Prop where
  placed : Placed staged
  tokens : ∀ c, c ≠ .request_count → (staged.tokens.counter staged.requests c).toNat =
    min (grains_count done c) (2 ^ 64 - 1)
  requests : staged.requests.toNat = grains_count done .request_count
  total : ∀ c, staged.total (fun row => row.count c) = grains_count done c
  keyed : ∀ row_key, (staged.row_costs.get? row_key).isSome = true ↔
    ∃ bucket_start, ∃ row ∈ staged.rows bucket_start, row_key_from_model_usage row = row_key
  cost : micros_picos staged.cost = grains_picos done
  priced : staged.cost.isSome = done.any (fun e => e.2.cost.isSome)

variable {account : Option String} {staged next : Staged} {e : GrainKey × ClaudeGrainSide}
  {row_cost : Option UInt64} {done : List (GrainKey × ClaudeGrainSide)}

theorem GrainStaged.place_kept (h : GrainStaged account staged e next row_cost)
    (hplaced : Placed staged) : Placed next := by
  rcases h.place with ⟨position, prior, cost, existing, combined, hjoined⟩ | hopened
  · exact hjoined.place hplaced
  · exact hopened.place hplaced

theorem GrainStaged.total_count (h : GrainStaged account staged e next row_cost)
    (hplaced : Placed staged) (c : Counter) :
    next.total (fun row => row.count c) = staged.total (fun row => row.count c) + e.2.count c := by
  rcases h.place with ⟨position, prior, cost, existing, combined, hjoined⟩ | hopened
  · have htotal := hjoined.total (fun row => row.count c)
    have hcount := (hjoined.spec hplaced).count c
    rw [grain_row_count] at hcount
    omega
  · have htotal := hopened.total (fun row => row.count c)
    rw [grain_row_count] at htotal
    exact htotal

/-- The keys of the rows gain the key of the grain. -/
theorem GrainStaged.keys (h : GrainStaged account staged e next row_cost) (hplaced : Placed staged)
    (row_key : RowKey) :
    (∃ bucket_start, ∃ row ∈ next.rows bucket_start, row_key_from_model_usage row = row_key) ↔
      row_key = entry_row_key e ∨
        ∃ bucket_start, ∃ row ∈ staged.rows bucket_start,
          row_key_from_model_usage row = row_key := by
  rcases h.place with ⟨position, prior, cost, existing, combined, hjoined⟩ | hopened
  · have hkey := (hjoined.existing_key hplaced).1
    have hspec := hjoined.spec hplaced
    obtain ⟨hlt, hat⟩ := List.getElem?_eq_some_iff.mp hjoined.row
    have hmap : ((staged.rows e.1.key.bucket_start).set position combined).map
        row_key_from_model_usage =
          (staged.rows e.1.key.bucket_start).map row_key_from_model_usage := by
      rw [List.map_set, hspec.key, ← hkey, ← hat]
      exact (List.map_set ..).symm.trans (by rw [List.set_getElem_self])
    have hmem : ∀ bucket_start, (∃ row ∈ next.rows bucket_start,
        row_key_from_model_usage row = row_key) ↔ ∃ row ∈ staged.rows bucket_start,
          row_key_from_model_usage row = row_key := by
      intro bucket_start
      rw [← List.mem_map, ← List.mem_map, rows_of_insert hjoined.buckets]
      split
      · next heq => rw [heq, hmap]
      · rfl
    simp only [hmem]
    constructor
    · exact .inr
    · rintro (rfl | hrow)
      · exact ⟨_, existing, List.mem_of_getElem? hjoined.row, hkey⟩
      · exact hrow
  · simp only [rows_of_insert hopened.buckets]
    constructor
    · rintro ⟨bucket_start, row, hrow, hrow_key⟩
      split at hrow
      · rcases List.mem_append.mp hrow with hrow | hrow
        · exact .inr ⟨_, row, hrow, hrow_key⟩
        · rw [List.mem_singleton] at hrow
          rw [← hrow_key, hrow]
          exact .inl rfl
      · exact .inr ⟨_, row, hrow, hrow_key⟩
    · rintro (rfl | ⟨bucket_start, row, hrow, hrow_key⟩)
      · refine ⟨e.1.key.bucket_start, _, ?_, row_key_grain_row e.1.key e.1.origin e.2 account⟩
        simp
      · refine ⟨bucket_start, row, ?_, hrow_key⟩
        split
        · next heq =>
          rw [heq] at hrow
          exact List.mem_append_left _ hrow
        · exact hrow

theorem Sound.start : Sound [] {} where
  placed := by constructor <;> simp [Staged.rows]
  tokens := by
    intro c hc
    cases c <;> simp_all [grains_count, ClaudeMoneyTokens.counter]
  requests := rfl
  total _ := rfl
  keyed := by simp [Staged.rows]
  cost := rfl
  priced := rfl

/-- Another grain. -/
theorem Sound.step (hsound : Sound done staged) (h : GrainStaged account staged e next row_cost) :
    Sound (done ++ [e]) next where
  placed := h.place_kept hsound.placed
  tokens := by
    intro c hc
    have htokens := hsound.tokens c hc
    rw [grains_count_snoc, h.tokens]
    unfold ClaudeGrainSide.count
    cases c <;> first
      | exact absurd rfl hc
      | (simp only [ClaudeMoneyTokens.counter, ClaudeMoneyTokens.add] at htokens ⊢
         rw [saturating_add_toNat]
         omega)
  requests := by
    rw [checked_add_toNat h.requests, hsound.requests, grains_count_snoc]
    rfl
  total c := by
    rw [h.total_count hsound.placed c, hsound.total, grains_count_snoc]
  keyed row_key := by
    rw [h.keys hsound.placed, ← hsound.keyed, h.row_costs, get?_insert]
    split <;> simp_all
  cost := by
    rw [(add_session_cost_spec h.cost).1, hsound.cost, grains_picos_snoc]
    rfl
  priced := by
    rw [(add_session_cost_spec h.cost).2, hsound.priced]
    simp

/-! ## The costs of rows -/

/-- No priced grain and unpriced grain have one row key. -/
def Separate (grains : List (GrainKey × ClaudeGrainSide)) : Prop :=
  ∀ e ∈ grains, ∀ other ∈ grains, entry_row_key e = entry_row_key other →
    e.2.cost.isSome = other.2.cost.isSome

/-- What the costs of the rows come to. -/
structure Priced (done : List (GrainKey × ClaudeGrainSide)) (staged : Staged) : Prop where
  placed : ∀ place position cost, staged.positions.get? place = some (position, cost) →
    ∃ e ∈ done, entry_row_key e = (ofLex place).2 ∧ e.2.cost.isSome = cost.isSome
  keyed : ∀ row_key cost, staged.row_costs.get? row_key = some cost →
    ∃ e ∈ done, entry_row_key e = row_key ∧ e.2.cost.isSome = cost.isSome
  rows : staged.total (fun row => row.picos) = grains_picos done
  row_costs : staged.row_costs.sumValues micros_picos = grains_picos done

theorem Priced.start : Priced [] {} where
  placed := by simp
  keyed := by simp
  rows := rfl
  row_costs := rfl

/-- The cost of a key takes the cost of its grain. -/
theorem GrainStaged.row_cost_spec (h : GrainStaged account staged e next row_cost)
    (hseparate : Separate (done ++ [e])) (hpriced : Priced done staged) :
    row_cost.isSome = e.2.cost.isSome ∧
      micros_picos row_cost =
        ((staged.row_costs.get? (entry_row_key e)).map micros_picos).getD 0 + grain_picos e := by
  rcases h.row_cost with ⟨hnone, rfl⟩ | ⟨prior, hprior, hsum⟩
  · rw [hnone]
    simp [grain_picos]
  · obtain ⟨earlier, hearlier, hkey, hsome⟩ := hpriced.keyed _ _ hprior
    have hsame := hseparate earlier (mem_append_left _ hearlier) e (by simp) hkey
    obtain ⟨hpicos, hcost⟩ := add_row_cost_spec hsum (by rw [← hsome, hsame])
    rw [hprior]
    exact ⟨hcost, hpicos⟩

theorem GrainStaged.rows_picos (h : GrainStaged account staged e next row_cost)
    (hseparate : Separate (done ++ [e])) (hplaced : Placed staged) (hpriced : Priced done staged) :
    next.total (fun row => row.picos) = staged.total (fun row => row.picos) + grain_picos e ∧
      ∀ place position cost, next.positions.get? place = some (position, cost) →
        (ofLex place).2 = entry_row_key e ∧ cost.isSome = e.2.cost.isSome ∨
          ∃ position, staged.positions.get? place = some (position, cost) := by
  rcases h.place with ⟨position, prior, cost, existing, combined, hjoined⟩ | hopened
  · obtain ⟨earlier, hearlier, hkey, hsome⟩ := hpriced.placed _ _ _ hjoined.at_key
    have hsame := hseparate earlier (mem_append_left _ hearlier) e (by simp) hkey
    obtain ⟨hpicos, hcost⟩ := add_row_cost_spec hjoined.cost_sum (by rw [← hsome, hsame])
    have htotal := hjoined.total (fun row => row.picos)
    have hexisting := picos_of_cost (hjoined.existing_key hplaced).2
    have hcombined := picos_of_cost (hjoined.spec hplaced).cost
    refine ⟨?_, ?_⟩
    · unfold grain_picos
      omega
    · intro place place_position place_cost hget
      rw [hjoined.positions, get?_insert] at hget
      split at hget
      · next heq =>
        cases hget
        rw [heq]
        exact .inl ⟨rfl, hcost⟩
      · exact .inr ⟨_, hget⟩
  · refine ⟨?_, ?_⟩
    · rw [hopened.total, picos_of_cost (grain_row_cost e.1.key e.1.origin e.2 account)]
      rfl
    · intro place place_position place_cost hget
      rw [hopened.positions, get?_insert] at hget
      split at hget
      · next heq =>
        cases hget
        rw [heq]
        exact .inl ⟨rfl, rfl⟩
      · exact .inr ⟨_, hget⟩

theorem Priced.step (hpriced : Priced done staged) (hplaced : Placed staged)
    (hseparate : Separate (done ++ [e])) (h : GrainStaged account staged e next row_cost) :
    Priced (done ++ [e]) next := by
  obtain ⟨hsome, hpicos⟩ := h.row_cost_spec hseparate hpriced
  obtain ⟨hrows, hplaces⟩ := h.rows_picos hseparate hplaced hpriced
  refine ⟨?_, ?_, ?_, ?_⟩
  · intro place position cost hget
    rcases hplaces _ _ _ hget with ⟨hkey, hcost⟩ | ⟨earlier_position, hearlier⟩
    · exact ⟨e, by simp, hkey.symm, hcost.symm⟩
    · obtain ⟨earlier, hmem, hearlier_key, hearlier_cost⟩ := hpriced.placed _ _ _ hearlier
      exact ⟨earlier, mem_append_left _ hmem, hearlier_key, hearlier_cost⟩
  · intro row_key cost hget
    rw [h.row_costs, get?_insert] at hget
    split at hget
    · next heq =>
      cases hget
      exact ⟨e, by simp, heq.symm, hsome.symm⟩
    · obtain ⟨earlier, hmem, hearlier_key, hearlier_cost⟩ := hpriced.keyed _ _ hget
      exact ⟨earlier, mem_append_left _ hmem, hearlier_key, hearlier_cost⟩
  · rw [hrows, hpriced.rows, grains_picos_snoc]
  · have hsum := staged.row_costs.sumValues_insert micros_picos (entry_row_key e) row_cost
    rw [h.row_costs, grains_picos_snoc, ← hpriced.row_costs]
    omega

/-! ## All grains -/

theorem Separate.sublist {grains some_grains : List (GrainKey × ClaudeGrainSide)}
    (h : Separate grains) (hsub : some_grains ⊆ grains) : Separate some_grains :=
  fun e he other hother => h e (hsub he) other (hsub hother)

theorem stage_grains_spec {grains : List (GrainKey × ClaudeGrainSide)}
    (hsound : Sound done staged) (h : stage_grains account staged grains = some next) :
    Sound (done ++ grains) next ∧
      (Separate (done ++ grains) → Priced done staged → Priced (done ++ grains) next) := by
  induction grains generalizing done staged with
  | nil =>
    cases h
    rw [append_nil]
    exact ⟨hsound, fun _ hpriced => hpriced⟩
  | cons e grains ih =>
    unfold stage_grains at h ih
    rw [foldlM_cons, bind_eq_bind, bind_eq_some_iff] at h
    obtain ⟨middle, hstep, hrest⟩ := h
    obtain ⟨row_cost, hstaged⟩ := stage_grain_spec hstep
    have happend : done ++ e :: grains = (done ++ [e]) ++ grains := by simp
    obtain ⟨hlast, hcosts⟩ := ih (hsound.step hstaged) hrest
    rw [happend]
    refine ⟨hlast, fun hseparate hpriced => hcosts hseparate ?_⟩
    exact hpriced.step hsound.placed (hseparate.sublist (by simp)) hstaged

end ottto_service.claude_request_money.emit
