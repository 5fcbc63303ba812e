-- What staging the grains of a body comes to: each row stands once in its hour under its key, and
-- the rows, the session and the costs have the sums of the grains.
import Ottto.EmitRows

namespace ottto_service.claude_request_money.emit

open Words usage accumulator snapshots.wire List Option SortedMap
open claude_request_money (SnapshotItem)

/-! ## One grain -/

/-- The key of a grain's row. -/
def entry_row_key (e : GrainKey × ClaudeGrainSide) : RowKey := live_row_key e.1.key e.1.origin

namespace Staged

/-- The rows of an hour. -/
def rows (staged : Staged) (bucket_start : String) : List SnapshotModelUsage :=
  (staged.buckets.get? bucket_start).getD []

/-- The sum of a measure over all rows. -/
def total (staged : Staged) (measure : SnapshotModelUsage → Nat) : Nat :=
  staged.buckets.sumValues (fun rows => (rows.map measure).sum)

end Staged

/-- The grain joins a row of its key. -/
structure Joined (account : Option String) (staged : Staged) (e : GrainKey × ClaudeGrainSide)
    (next : Staged) (position : Nat) (prior cost : Option UInt64)
    (existing combined : SnapshotModelUsage) : Prop where
  at_key : staged.positions.get? (toLex (e.1.key.bucket_start, entry_row_key e)) =
    some (position, prior)
  row : (staged.rows e.1.key.bucket_start)[position]? = some existing
  cost_sum : add_row_cost prior e.2.cost = some cost
  combine : combine account (entry_row_key e) existing
    (grain_row e.1.key e.1.origin e.2 account) cost = some combined
  buckets : next.buckets = staged.buckets.insert e.1.key.bucket_start
    ((staged.rows e.1.key.bucket_start).set position combined)
  positions : next.positions =
    staged.positions.insert (toLex (e.1.key.bucket_start, entry_row_key e)) (position, cost)

/-- The grain opens a row. -/
structure Opened (account : Option String) (staged : Staged) (e : GrainKey × ClaudeGrainSide)
    (next : Staged) : Prop where
  at_key : staged.positions.get? (toLex (e.1.key.bucket_start, entry_row_key e)) = none
  buckets : next.buckets = staged.buckets.insert e.1.key.bucket_start
    (staged.rows e.1.key.bucket_start ++ [grain_row e.1.key e.1.origin e.2 account])
  positions : next.positions =
    staged.positions.insert (toLex (e.1.key.bucket_start, entry_row_key e))
      ((staged.rows e.1.key.bucket_start).length, e.2.cost)

/-- What staging one grain leaves. -/
structure GrainStaged (account : Option String) (staged : Staged) (e : GrainKey × ClaudeGrainSide)
    (next : Staged) (row_cost : Option UInt64) : Prop where
  tokens : next.tokens = staged.tokens.add e.2.tokens
  requests : checked_add staged.requests e.2.requests = some next.requests
  cost : add_session_cost staged.cost e.2.cost = some next.cost
  row_costs : next.row_costs = staged.row_costs.insert (entry_row_key e) row_cost
  row_cost : (staged.row_costs.get? (entry_row_key e) = none ∧ row_cost = e.2.cost) ∨
    ∃ prior, staged.row_costs.get? (entry_row_key e) = some prior ∧
      add_row_cost prior e.2.cost = some row_cost
  place : (∃ position prior cost existing combined,
    Joined account staged e next position prior cost existing combined) ∨
      Opened account staged e next

theorem stage_grain_spec {account : Option String} {staged next : Staged}
    {e : GrainKey × ClaudeGrainSide} (h : stage_grain account staged e = some next) :
    ∃ row_cost, GrainStaged account staged e next row_cost := by
  obtain ⟨⟨key, origin, partition⟩, grain⟩ := e
  unfold stage_grain at h
  simp only [bind_eq_bind, bind_eq_some_iff, row_key_grain_row] at h
  obtain ⟨requests, hrequests, cost, hcost, row_cost, hrow_cost, h⟩ := h
  have hrow : (staged.row_costs.get? (live_row_key key origin) = none ∧ row_cost = grain.cost) ∨
      ∃ prior, staged.row_costs.get? (live_row_key key origin) = some prior ∧
        add_row_cost prior grain.cost = some row_cost := by
    cases hprior : staged.row_costs.get? (live_row_key key origin) with
    | none =>
      rw [hprior] at hrow_cost
      cases hrow_cost
      exact .inl ⟨rfl, rfl⟩
    | some prior =>
      rw [hprior] at hrow_cost
      exact .inr ⟨prior, rfl, hrow_cost⟩
  refine ⟨row_cost, ?_⟩
  cases hposition : staged.positions.get? (toLex (key.bucket_start, live_row_key key origin)) with
  | none =>
    rw [hposition] at h
    cases h
    exact ⟨rfl, hrequests, hcost, rfl, hrow, .inr ⟨hposition, rfl, rfl⟩⟩
  | some place =>
    obtain ⟨position, prior⟩ := place
    rw [hposition] at h
    simp only [bind_eq_some_iff] at h
    obtain ⟨existing, hexisting, row_sum, hsum, combined, hcombined, h⟩ := h
    cases h
    exact ⟨rfl, hrequests, hcost, rfl, hrow, .inl ⟨position, prior, row_sum, existing, combined,
      hposition, hexisting, hsum, hcombined, rfl, rfl⟩⟩

/-! ## The places of rows -/

/-- Each row of an hour stands at the one place of its key, with its cost. -/
structure Placed (staged : Staged) : Prop where
  placed : ∀ bucket_start row_key position cost,
    staged.positions.get? (toLex (bucket_start, row_key)) = some (position, cost) →
      ∃ row, (staged.rows bucket_start)[position]? = some row ∧
        row_key_from_model_usage row = row_key ∧ row.cost_usd = cost.map dollars
  listed : ∀ bucket_start position row, (staged.rows bucket_start)[position]? = some row →
    ∃ cost, staged.positions.get? (toLex (bucket_start, row_key_from_model_usage row)) =
      some (position, cost)

/-- No two rows of an hour have one key. -/
theorem Placed.nodup {staged : Staged} (h : Placed staged) (bucket_start : String) :
    ((staged.rows bucket_start).map row_key_from_model_usage).Nodup := by
  rw [nodup_iff_injective_get]
  rintro ⟨i, hi⟩ ⟨j, hj⟩ hij
  rw [length_map] at hi hj
  simp only [get_eq_getElem, getElem_map] at hij
  obtain ⟨cost, hfirst⟩ := h.listed bucket_start i _ (getElem?_eq_getElem hi)
  obtain ⟨cost', hsecond⟩ := h.listed bucket_start j _ (getElem?_eq_getElem hj)
  rw [hij, hsecond] at hfirst
  cases hfirst
  rfl

theorem rows_of_insert {staged next : Staged} {bucket_start : String}
    {list : List SnapshotModelUsage} (h : next.buckets = staged.buckets.insert bucket_start list)
    (other : String) :
    next.rows other = if other = bucket_start then list else staged.rows other := by
  unfold Staged.rows
  rw [h, get?_insert]
  split <;> rfl

theorem total_of_insert {staged next : Staged} {bucket_start : String}
    {list : List SnapshotModelUsage} (h : next.buckets = staged.buckets.insert bucket_start list)
    (measure : SnapshotModelUsage → Nat) :
    next.total measure + ((staged.rows bucket_start).map measure).sum =
      staged.total measure + (list.map measure).sum := by
  have hsum := staged.buckets.sumValues_insert (fun rows => (rows.map measure).sum) bucket_start list
  unfold Staged.total Staged.rows
  rw [h, ← hsum]
  cases staged.buckets.get? bucket_start <;> rfl

theorem sum_map_set {measure : SnapshotModelUsage → Nat} {rows : List SnapshotModelUsage}
    {position : Nat} {existing : SnapshotModelUsage} (combined : SnapshotModelUsage)
    (h : rows[position]? = some existing) :
    ((rows.set position combined).map measure).sum + measure existing =
      (rows.map measure).sum + measure combined := by
  induction rows generalizing position with
  | nil => simp at h
  | cons row rows ih =>
    cases position with
    | zero =>
      simp only [getElem?_cons_zero, Option.some.injEq] at h
      subst h
      simp only [set_cons_zero, map_cons, sum_cons]
      omega
    | succ position =>
      have hrest := ih (by simpa using h)
      simp only [set_cons_succ, map_cons, sum_cons]
      omega

variable {account : Option String} {staged next : Staged} {e : GrainKey × ClaudeGrainSide}

theorem Joined.total {position : Nat} {prior cost : Option UInt64}
    {existing combined : SnapshotModelUsage}
    (h : Joined account staged e next position prior cost existing combined)
    (measure : SnapshotModelUsage → Nat) :
    next.total measure + measure existing = staged.total measure + measure combined := by
  have hinsert := total_of_insert h.buckets measure
  have hset := @sum_map_set measure _ _ _ combined h.row
  omega

theorem Opened.total (h : Opened account staged e next) (measure : SnapshotModelUsage → Nat) :
    next.total measure =
      staged.total measure + measure (grain_row e.1.key e.1.origin e.2 account) := by
  have hinsert := total_of_insert h.buckets measure
  rw [map_append, sum_append, map_singleton, sum_singleton] at hinsert
  omega

variable {position : Nat} {prior cost : Option UInt64} {existing combined : SnapshotModelUsage}

/-- The row that a grain joins has its key and the cost of its place. -/
theorem Joined.existing_key (hplaced : Placed staged)
    (h : Joined account staged e next position prior cost existing combined) :
    row_key_from_model_usage existing = entry_row_key e ∧ existing.cost_usd = prior.map dollars := by
  obtain ⟨row, hrow, hkey, hcost⟩ := hplaced.placed _ _ _ _ h.at_key
  rw [h.row] at hrow
  cases hrow
  exact ⟨hkey, hcost⟩

theorem Joined.spec (hplaced : Placed staged)
    (h : Joined account staged e next position prior cost existing combined) :
    Combined (entry_row_key e) existing (grain_row e.1.key e.1.origin e.2 account) combined cost :=
  combine_spec (h.existing_key hplaced).1 h.combine

/-- A row is written at the place of its key: over the row of that key, or behind all rows. -/
theorem Placed.write {bucket_start : String} {row_key : RowKey} {rows : List SnapshotModelUsage}
    {row : SnapshotModelUsage} (hplaced : Placed staged)
    (hbuckets : next.buckets = staged.buckets.insert bucket_start rows)
    (hpositions : next.positions =
      staged.positions.insert (toLex (bucket_start, row_key)) (position, cost))
    (hrow : rows[position]? = some row) (hkey : row_key_from_model_usage row = row_key)
    (hcost : row.cost_usd = cost.map dollars)
    (hothers : ∀ place, place ≠ position → rows[place]? = (staged.rows bucket_start)[place]?)
    (hsame : ∀ place other, (staged.rows bucket_start)[place]? = some other →
      (row_key_from_model_usage other = row_key ↔ place = position)) : Placed next := by
  constructor
  · intro bucket other_key place place_cost hget
    rw [hpositions, get?_insert] at hget
    rw [rows_of_insert hbuckets]
    split at hget
    · next heq =>
      cases hget
      cases (toLex.injective heq)
      rw [if_pos rfl]
      exact ⟨row, hrow, hkey, hcost⟩
    · next hne =>
      obtain ⟨other, hother, hother_key, hother_cost⟩ := hplaced.placed _ _ _ _ hget
      split
      · next heq =>
        subst heq
        refine ⟨other, ?_, hother_key, hother_cost⟩
        rw [hothers place]
        · exact hother
        · intro hplace
          rw [hother_key.symm.trans ((hsame place other hother).mpr hplace)] at hne
          exact hne rfl
      · exact ⟨other, hother, hother_key, hother_cost⟩
  · intro bucket place other hother
    rw [rows_of_insert hbuckets] at hother
    rw [hpositions, get?_insert]
    split at hother
    · next heq =>
      subst heq
      by_cases hplace : place = position
      · rw [hplace, hrow] at hother
        cases hother
        rw [hkey, hplace, if_pos rfl]
        exact ⟨cost, rfl⟩
      · rw [hothers place hplace] at hother
        rw [if_neg]
        · exact hplaced.listed _ _ _ hother
        · intro heq
          exact hplace ((hsame place other hother).mp (Prod.mk.inj (toLex.injective heq)).2)
    · next hne =>
      rw [if_neg (fun heq => hne (Prod.mk.inj (toLex.injective heq)).1)]
      exact hplaced.listed _ _ _ hother

theorem Joined.place (hplaced : Placed staged)
    (h : Joined account staged e next position prior cost existing combined) : Placed next := by
  have hspec := h.spec hplaced
  have hlt := (List.getElem?_eq_some_iff.mp h.row).1
  refine hplaced.write h.buckets h.positions (List.getElem?_set_self hlt) hspec.key hspec.cost
    (fun place hne => List.getElem?_set_ne hne.symm) (fun place other hother => ⟨?_, ?_⟩)
  · intro hkey
    obtain ⟨row_cost, hlisted⟩ := hplaced.listed _ _ _ hother
    rw [hkey, h.at_key] at hlisted
    cases hlisted
    rfl
  · rintro rfl
    cases h.row.symm.trans hother
    exact (h.existing_key hplaced).1

theorem Opened.place (hplaced : Placed staged) (h : Opened account staged e next) : Placed next := by
  refine hplaced.write h.buckets h.positions List.getElem?_concat_length
    (row_key_grain_row _ _ _ _) rfl (fun place hne => ?_) (fun place other hother => ⟨?_, ?_⟩)
  · rw [List.getElem?_append]
    split
    · rfl
    · rw [List.getElem?_eq_none (by simp; omega), List.getElem?_eq_none (by omega)]
  · intro hkey
    obtain ⟨row_cost, hlisted⟩ := hplaced.listed _ _ _ hother
    rw [hkey, h.at_key] at hlisted
    cases hlisted
  · rintro rfl
    rw [List.getElem?_eq_none (le_refl _)] at hother
    cases hother

end ottto_service.claude_request_money.emit
