-- The current account of an item, whatever the order its requests are folded in
-- (snapshots/claude_request_identity.rs).
import Ottto.AccountDisplay

open Words

namespace ottto_service.snapshots.claude_request_identity

open usage accumulator List Option SortedMap Grouping
open claude_request_money (AuthorityKey AccountPartition)

/-! ## Calls -/

/-- One call of `add_at`. -/
structure Call where
  bucket_start : String
  row_key : RowKey
  usage : UsageTotals
  identity : IdentityRef
  transcript_at : Option String

namespace Call

def row (self : Call) : String × RowKey := (self.bucket_start, self.row_key)

/-- The key that the call is counted under, as long as its row has room for it. -/
def key (self : Call) : AccountPartition :=
  match self.identity with
  | .Tagged key => if key.login.all wire_login_is_valid then some key else none
  | _ => none

variable (time : Rfc3339)

def instant (self : Call) : Option Int := self.transcript_at.bind time.parse

/-- Its time did not parse. -/
def unread (self : Call) : Bool := self.transcript_at.isSome && (self.instant time).isNone

def note (self : Call) : Option Note :=
  (self.instant time).map (fun instant => ⟨instant, (self.bucket_start, self.row_key, self.key)⟩)

end Call

def Grouping.added (time : Rfc3339) (self : Grouping) (call : Call) : Grouping :=
  self.add_at time call.bucket_start call.row_key call.usage call.identity call.transcript_at

/-- The money of a request that a row's field counts. -/
def reported_cost (usage : UsageTotals) (m : Money) : Nat :=
  if usage.costs.observed && usage.costs.reported then ((usage_cost usage m).getD 0).toNat else 0

def counted (calls : List Call) (c : Counter) : Nat := (calls.map (fun call => call.usage.count c)).sum

def charged (calls : List Call) (m : Money) : Nat :=
  (calls.map (fun call => reported_cost call.usage m)).sum

def at_row (calls : List Call) (row : String × RowKey) : List Call :=
  calls.filter (fun call => decide (call.row = row))

def of_key (calls : List Call) (key : AccountPartition) : List Call :=
  calls.filter (fun call => decide (call.key = key))

/-- No row, key, count or cost of the calls passes its limit. -/
structure WithinLimits (max_groups : Nat) (calls : List Call) : Prop where
  rows : (calls.map Call.row).toFinset.card ≤ max_groups
  keys : ∀ row, ((at_row calls row).filterMap Call.key).toFinset.card ≤ MAX_AUTHORITY_KEYS
  counts : ∀ row c, counted (at_row calls row) c < 2 ^ 64
  costs : ∀ row m, charged (at_row calls row) m < 2 ^ 128

variable {max_groups : Nat} {calls calls' more : List Call} {call : Call} {row : String × RowKey}

variable {α : Type}

theorem sum_map_append_le (f : α → Nat) (l l' : List α) :
    (l.map f).sum ≤ ((l ++ l').map f).sum := by
  rw [map_append, sum_append]
  exact Nat.le_add_right _ _

theorem sum_map_filter_le (f : α → Nat) (p : α → Bool) (l : List α) :
    ((l.filter p).map f).sum ≤ (l.map f).sum := by
  induction l with
  | nil => simp
  | cons a l ih =>
    rw [filter_cons]
    split_ifs
    · simp only [map_cons, sum_cons]
      omega
    · simp only [map_cons, sum_cons]
      omega

theorem at_row_append : at_row (calls ++ more) row = at_row calls row ++ at_row more row :=
  filter_append ..

theorem WithinLimits.before (h : WithinLimits max_groups (calls ++ more)) :
    WithinLimits max_groups calls := by
  refine ⟨?_, ?_, ?_, ?_⟩
  · refine le_trans (Finset.card_le_card ?_) h.rows
    intro row hrow
    simp only [List.mem_toFinset, map_append, mem_append] at hrow ⊢
    exact .inl hrow
  · intro row
    refine le_trans (Finset.card_le_card ?_) (h.keys row)
    intro key hkey
    rw [at_row_append, filterMap_append]
    simp only [List.mem_toFinset, mem_append] at hkey ⊢
    exact .inl hkey
  · intro row c
    refine lt_of_le_of_lt ?_ (h.counts row c)
    rw [at_row_append]
    exact sum_map_append_le _ _ _
  · intro row m
    refine lt_of_le_of_lt ?_ (h.costs row m)
    rw [at_row_append]
    exact sum_map_append_le _ _ _

theorem at_row_perm (hperm : calls'.Perm calls) : (at_row calls' row).Perm (at_row calls row) :=
  hperm.filter _

theorem WithinLimits.perm (h : WithinLimits max_groups calls) (hperm : calls'.Perm calls) :
    WithinLimits max_groups calls' := by
  refine ⟨?_, ?_, ?_, ?_⟩
  · rw [toFinset_eq_of_perm _ _ (hperm.map Call.row)]
    exact h.rows
  · intro row
    rw [toFinset_eq_of_perm _ _ ((at_row_perm hperm).filterMap Call.key)]
    exact h.keys row
  · intro row c
    have hsum := ((@at_row_perm _ _ row hperm).map (fun call => call.usage.count c)).sum_eq
    exact lt_of_eq_of_lt hsum (h.counts row c)
  · intro row m
    have hsum :=
      ((@at_row_perm _ _ row hperm).map (fun call => reported_cost call.usage m)).sum_eq
    exact lt_of_eq_of_lt hsum (h.costs row m)

/-! ## Amounts -/

/-- The amounts are the sums over the calls. -/
structure Totals (calls : List Call) (amounts : Amounts) : Prop where
  counts : ∀ c, (amounts.counts c).toNat = counted calls c
  costs : ∀ m, ((amounts.costs m).getD 0).toNat = charged calls m

theorem totals_empty : Totals [] {} := ⟨fun _ => rfl, fun _ => rfl⟩

variable {amounts : Amounts}

theorem Totals.last_at (h : Totals calls amounts) (last_at : Option Int) :
    Totals calls { amounts with last_at } := ⟨h.counts, h.costs⟩

theorem all_some_eq {ι : Type} [Fintype ι] [Inhabited α] {results : ι → Option α} {values : ι → α}
    (h : ∀ i, results i = some (values i)) : all_some results = some values := by
  unfold all_some
  simp [h]

theorem add_cost_eq {reported : Bool} {cost value : Option (BitVec 128)}
    (h : (cost.getD 0).toNat + (if reported then (value.getD 0).toNat else 0) < 2 ^ 128) :
    ∃ sum, add_cost reported cost value = some sum ∧
      (sum.getD 0).toNat =
        (cost.getD 0).toNat + (if reported then (value.getD 0).toNat else 0) := by
  cases value with
  | none => exact ⟨cost, rfl, by simp⟩
  | some value =>
    cases reported with
    | false => exact ⟨cost, rfl, by simp⟩
    | true =>
      refine ⟨some (cost.getD 0 + value), ?_, toNat_add128_of_lt h⟩
      exact congrArg (Option.map some) (if_pos h)

theorem Totals.add (h : Totals calls amounts) (hcounts : ∀ c, counted (calls ++ [call]) c < 2 ^ 64)
    (hcosts : ∀ m, charged (calls ++ [call]) m < 2 ^ 128) :
    ∃ sum, amounts.add call.usage = some sum ∧ Totals (calls ++ [call]) sum := by
  have hcounted : ∀ c, counted (calls ++ [call]) c = counted calls c + call.usage.count c := by
    intro c
    simp [counted]
  have hcharged : ∀ m, charged (calls ++ [call]) m = charged calls m + reported_cost call.usage m := by
    intro m
    simp [charged]
  have hfit : ∀ c, (amounts.counts c).toNat + (call.usage.counter c).toNat < 2 ^ 64 := by
    intro c
    have hlt := hcounts c
    rw [hcounted c, ← h.counts c] at hlt
    exact hlt
  have hcount_sum : all_some (fun c => checked_add (amounts.counts c) (call.usage.counter c)) =
      some (fun c => amounts.counts c + call.usage.counter c) :=
    all_some_eq (fun c => checked_add_of_lt (hfit c))
  have hcounts_ok : ∀ c, (amounts.counts c + call.usage.counter c).toNat =
      counted (calls ++ [call]) c := by
    intro c
    rw [toNat_add_of_lt (hfit c), hcounted c, h.counts c]
    rfl
  unfold Amounts.add
  rw [hcount_sum]
  cases hobserved : call.usage.costs.observed with
  | false =>
    refine ⟨_, rfl, hcounts_ok, fun m => ?_⟩
    rw [hcharged m, ← h.costs m]
    simp [reported_cost, hobserved]
  | true =>
    have hreported : ∀ m, reported_cost call.usage m =
        if call.usage.costs.reported then ((usage_cost call.usage m).getD 0).toNat else 0 := by
      intro m
      simp [reported_cost, hobserved]
    have hsum : ∀ m, ∃ sum, add_cost call.usage.costs.reported (amounts.costs m)
        (usage_cost call.usage m) = some sum ∧ (sum.getD 0).toNat = charged (calls ++ [call]) m := by
      intro m
      have hlt := hcosts m
      rw [hcharged m, ← h.costs m, hreported m] at hlt
      obtain ⟨sum, hadd, hvalue⟩ := add_cost_eq hlt
      exact ⟨sum, hadd, by rw [hvalue, hcharged m, h.costs m, hreported m]⟩
    choose sums hadd hvalue using hsum
    have hcosts_sum := all_some_eq hadd
    refine ⟨{ amounts with
      counts := fun c => amounts.counts c + call.usage.counter c, costs := sums, observed := true,
      poisoned := fun m => amounts.poisoned m ||
        !(call.usage.costs.reported && (usage_cost call.usage m).isSome) }, ?_, hcounts_ok, hvalue⟩
    simp [hcosts_sum]

/-! ## One row -/

/-- A row's group is made of the calls of the row. -/
structure GroupOf (calls : List Call) (group : RowGroup) : Prop where
  total : Totals calls group.total
  absent : ∀ key, (∀ call ∈ calls, call.key ≠ key) → group.by_key.get? key = none
  present : ∀ key, (∃ call ∈ calls, call.key = key) →
    ∃ amounts, group.by_key.get? key = some amounts ∧ Totals (of_key calls key) amounts

theorem groupOf_empty : GroupOf [] {} := ⟨totals_empty, fun _ _ => rfl, by simp⟩

variable {group : RowGroup}

theorem GroupOf.mem_keys_iff (h : GroupOf calls group) {key : AuthorityKey} :
    key ∈ group.keys ↔ key ∈ calls.filterMap Call.key := by
  have hkey : key ∈ group.keys ↔ (group.by_key.get? (some key)).isSome := by
    rw [← SortedMap.mem_keys_iff]
    simp [RowGroup.keys]
  rw [hkey, mem_filterMap]
  by_cases hsome : ∃ call ∈ calls, call.key = some key
  · obtain ⟨amounts, hget, -⟩ := h.present _ hsome
    exact iff_of_true (by simp [hget]) hsome
  · have hnone := h.absent (some key) (fun call hcall heq => hsome ⟨call, hcall, heq⟩)
    exact iff_of_false (by simp [hnone]) hsome

theorem keys_nodup (group : RowGroup) : group.keys.Nodup := by
  refine (group.by_key.keys_nodup).filterMap ?_
  rintro a b c ha hb
  simp only [id] at ha hb
  rw [mem_def.mp ha, mem_def.mp hb]

/-- While there is room for the keys of a row, a call is counted under its own. -/
theorem GroupOf.admitted (h : GroupOf calls group)
    (hroom : ((calls ++ [call]).filterMap Call.key).toFinset.card ≤ MAX_AUTHORITY_KEYS)
    (total : Amounts) :
    ∃ refused truncated, RowGroup.admit { group with total } call.identity =
      (call.key, ⟨total, group.by_key, refused, truncated⟩) := by
  unfold RowGroup.admit Call.key
  cases hidentity : call.identity with
  | Missing => exact ⟨group.refused, group.truncated, rfl⟩
  | Refused refusal => exact ⟨true, group.truncated, rfl⟩
  | Tagged key =>
    dsimp only
    cases hvalid : key.login.all wire_login_is_valid with
    | false => exact ⟨true, group.truncated, rfl⟩
    | true =>
      have hkey : call.key = some key := by simp [Call.key, hidentity, hvalid]
      have hfit : key ∈ group.keys ∨ group.keys.length < MAX_AUTHORITY_KEYS := by
        by_cases hknown : key ∈ group.keys
        · exact .inl hknown
        · right
          have hsub : insert key group.keys.toFinset ⊆
              ((calls ++ [call]).filterMap Call.key).toFinset := by
            intro other hother
            rw [filterMap_append, List.mem_toFinset, mem_append]
            rcases Finset.mem_insert.mp hother with rfl | hother
            · right
              simp [hkey]
            · left
              exact h.mem_keys_iff.mp (List.mem_toFinset.mp hother)
          have hcard := Finset.card_le_card hsub
          rw [Finset.card_insert_of_notMem (by simpa using hknown),
            toFinset_card_of_nodup (keys_nodup group)] at hcard
          omega
      refine ⟨group.refused, group.truncated, ?_⟩
      have hkeys : RowGroup.keys { group with total } = group.keys := rfl
      rw [hkeys, if_neg (by simp), if_pos hfit, if_pos rfl]

/-- The sums of a row and of the call's key there. -/
theorem GroupOf.insert (h : GroupOf calls group) {total : Amounts}
    {refused truncated : Bool} (htotal : Totals (calls ++ [call]) total)
    (hamounts : Totals (of_key (calls ++ [call]) call.key) amounts) :
    GroupOf (calls ++ [call])
      ⟨total, group.by_key.insert call.key amounts, refused, truncated⟩ := by
  refine ⟨htotal, ?_, ?_⟩
  · intro key hkey
    rw [get?_insert, if_neg (hkey call (by simp)).symm]
    exact h.absent key (fun c hc => hkey c (mem_append_left _ hc))
  · intro key hkey
    rw [get?_insert]
    by_cases hsame : key = call.key
    · rw [if_pos hsame, hsame]
      exact ⟨amounts, rfl, hamounts⟩
    · rw [if_neg hsame]
      have hold : ∃ c ∈ calls, c.key = key := by
        obtain ⟨c, hc, hck⟩ := hkey
        rcases mem_append.mp hc with hc | hc
        · exact ⟨c, hc, hck⟩
        · rw [mem_singleton.mp hc] at hck
          exact absurd hck.symm hsame
      obtain ⟨old, hget, hsum⟩ := h.present key hold
      refine ⟨old, hget, ?_⟩
      have hother : of_key (calls ++ [call]) key = of_key calls key := by
        simp [of_key, filter_append, Ne.symm hsame]
      rw [hother]
      exact hsum

/-- The call's own key, before the call. -/
theorem GroupOf.key_totals (h : GroupOf calls group) (key : AccountPartition) :
    Totals (of_key calls key) ((group.by_key.get? key).getD {}) := by
  by_cases hsome : ∃ call ∈ calls, call.key = key
  · obtain ⟨amounts, hget, hsum⟩ := h.present key hsome
    rw [hget]
    exact hsum
  · have hall : ∀ call ∈ calls, call.key ≠ key := fun call hcall heq => hsome ⟨call, hcall, heq⟩
    rw [h.absent key hall]
    have hempty : of_key calls key = [] := by
      simpa [of_key] using hall
    rw [hempty]
    exact totals_empty

/-! ## One call -/

theorem get_put (self : Grouping) (row row' : String × RowKey) (group : RowGroup) :
    (self.put row.1 row.2 group).get row'.1 row'.2 =
      if row' = row then some group else self.get row'.1 row'.2 := by
  unfold Grouping.put Grouping.get
  rw [get?_insert]
  by_cases hhour : row'.1 = row.1
  · rw [if_pos hhour, bind_some, get?_insert]
    by_cases hrow : row'.2 = row.2
    · rw [if_pos hrow, if_pos (Prod.ext hhour hrow)]
    · rw [if_neg hrow, if_neg (fun heq => hrow (congrArg Prod.snd heq)), hhour]
      cases self.groups.get? row.1 <;> rfl
  · rw [if_neg hhour, if_neg (fun heq => hhour (congrArg Prod.fst heq))]

/-- A note does not look at the times that did not parse. -/
theorem noted_unordered (n : Note) (self : LatestRequests) (unordered : Bool) :
    LatestRequests.noted { self with unordered } n = { self.noted n with unordered } := by
  obtain ⟨at_instant, ties, ties_overflowed, -⟩ := self
  unfold LatestRequests.noted LatestRequests.note LatestRequests.replace LatestRequests.gather
    LatestRequests.push
  cases at_instant with
  | none =>
    dsimp only
    split
    · rfl
    · split <;> rfl
  | some newest =>
    dsimp only
    split_ifs
    · rfl
    · split
      · rfl
      · split <;> rfl
    · rfl
    · rfl
    · rfl

theorem run_unordered (notes : List Note) (self : LatestRequests) (unordered : Bool) :
    notes.foldl LatestRequests.noted { self with unordered } =
      { notes.foldl LatestRequests.noted self with unordered } := by
  induction notes generalizing self with
  | nil => rfl
  | cons n notes ih => rw [foldl_cons, noted_unordered, ih, foldl_cons]

variable {time : Rfc3339} {self : Grouping}

/-- The rows of a grouping after some calls that pass no limit. -/
structure RowsOf (calls : List Call) (grouping : Grouping) : Prop where
  failed : grouping.failed = none
  count : grouping.group_count = (calls.map Call.row).toFinset.card
  absent : ∀ row, row ∉ calls.map Call.row → grouping.get row.1 row.2 = none
  present : ∀ row, row ∈ calls.map Call.row →
    ∃ group, grouping.get row.1 row.2 = some group ∧ GroupOf (at_row calls row) group

theorem rowsOf_new : RowsOf [] (Grouping.new max_groups) := by
  refine ⟨rfl, rfl, fun _ _ => rfl, ?_⟩
  intro row hrow
  cases hrow

/-- The row of a call, made or found. -/
theorem RowsOf.ensure (h : RowsOf calls self) (hmax : self.max_groups = max_groups)
    (hlimit : ((calls ++ [call]).map Call.row).toFinset.card ≤ max_groups) :
    ∃ group next, self.ensure call.bucket_start call.row_key = some (group, next) ∧
      GroupOf (at_row calls call.row) group ∧ next.failed = none ∧ next.latest = self.latest ∧
      next.max_groups = max_groups ∧
      next.group_count = ((calls ++ [call]).map Call.row).toFinset.card ∧
      ∀ row, row ≠ call.row → next.get row.1 row.2 = self.get row.1 row.2 := by
  have hrows : ((calls ++ [call]).map Call.row).toFinset =
      insert call.row (calls.map Call.row).toFinset := by
    ext row
    simp
  unfold Grouping.ensure
  by_cases hknown : call.row ∈ calls.map Call.row
  · obtain ⟨group, hget, hgroup⟩ := h.present _ hknown
    have hget' : self.get call.bucket_start call.row_key = some group := hget
    rw [hget']
    refine ⟨group, self, rfl, hgroup, h.failed, rfl, hmax, ?_, fun _ _ => rfl⟩
    rw [hrows, Finset.insert_eq_of_mem (mem_toFinset.mpr hknown)]
    exact h.count
  · have hget : self.get call.bucket_start call.row_key = none := h.absent _ hknown
    rw [hget]
    have hcard : (insert call.row (calls.map Call.row).toFinset).card =
        (calls.map Call.row).toFinset.card + 1 :=
      Finset.card_insert_of_notMem (fun hmem => hknown (mem_toFinset.mp hmem))
    rw [hrows, hcard] at hlimit
    have hcount := h.count
    have hroom : ¬ self.group_count = self.max_groups := by omega
    rw [if_neg hroom]
    have hempty : at_row calls call.row = [] := by
      rw [at_row, filter_eq_nil_iff]
      intro c hc heq
      exact hknown (mem_map.mpr ⟨c, hc, of_decide_eq_true heq⟩)
    refine ⟨_, _, rfl, ?_, h.failed, rfl, hmax, ?_, ?_⟩
    · rw [hempty]
      exact groupOf_empty
    · rw [hrows, hcard, ← hcount]
      rfl
    · intro row hrow
      exact (get_put _ call.row row {}).trans (if_neg hrow)

theorem note_key_latest (identity : IdentityRef) : (self.note_key identity).latest = self.latest := by
  unfold note_key
  split
  · split_ifs <;> rfl
  · rfl

theorem note_key_same (identity : IdentityRef) : (self.note_key identity).failed = self.failed ∧
    (self.note_key identity).max_groups = self.max_groups ∧
    (self.note_key identity).group_count = self.group_count ∧
    (self.note_key identity).groups = self.groups := by
  unfold note_key
  split
  · split_ifs <;> exact ⟨rfl, rfl, rfl, rfl⟩
  · exact ⟨rfl, rfl, rfl, rfl⟩

theorem at_row_snoc_self : at_row (calls ++ [call]) call.row = at_row calls call.row ++ [call] := by
  simp [at_row]

theorem at_row_snoc_ne (h : row ≠ call.row) : at_row (calls ++ [call]) row = at_row calls row := by
  simp [at_row, h.symm]

theorem of_key_snoc_self : of_key (calls ++ [call]) call.key = of_key calls call.key ++ [call] := by
  simp [of_key, filter_append]

/-- One more call within the limits. -/
theorem RowsOf.added (h : RowsOf calls self) (hmax : self.max_groups = max_groups)
    (hlimits : WithinLimits max_groups (calls ++ [call])) :
    RowsOf (calls ++ [call]) (self.added time call) ∧
      (self.added time call).max_groups = max_groups ∧
      (self.added time call).latest = (call.note time).toList.foldl LatestRequests.noted
        { self.latest with unordered := self.latest.unordered || call.unread time } := by
  have hstarted : RowsOf calls (self.note_unread (call.unread time)) :=
    ⟨h.failed, h.count, h.absent, h.present⟩
  obtain ⟨group, next, hensure, hgroup, hfailed, hlatest, hnext_max, hcount, hothers⟩ :=
    @RowsOf.ensure _ _ call _ hstarted hmax hlimits.rows
  obtain ⟨total, hadd, htotal⟩ := @Totals.add _ call _ hgroup.total
    (fun c => @at_row_snoc_self calls call ▸ hlimits.counts call.row c)
    (fun m => @at_row_snoc_self calls call ▸ hlimits.costs call.row m)
  obtain ⟨refused, truncated, hadmit⟩ := @GroupOf.admitted _ call _ hgroup
    (@at_row_snoc_self calls call ▸ hlimits.keys call.row)
    { total with last_at := later total.last_at (call.instant time) }
  have hsub : ∀ {f : Call → Nat} (calls : List Call), ((of_key calls call.key).map f).sum ≤
      (calls.map f).sum := fun calls => sum_map_filter_le _ _ calls
  obtain ⟨amounts, hamounts_add, hamounts⟩ := @Totals.add _ call _ (hgroup.key_totals call.key)
    (fun c => by
      rw [← of_key_snoc_self, ← at_row_snoc_self]
      exact lt_of_le_of_lt (hsub _) (hlimits.counts call.row c))
    (fun m => by
      rw [← of_key_snoc_self, ← at_row_snoc_self]
      exact lt_of_le_of_lt (hsub _) (hlimits.costs call.row m))
  rw [← of_key_snoc_self] at hamounts
  have hnew := @GroupOf.insert _ _ _ _ hgroup _ refused truncated
    (htotal.last_at (later total.last_at (call.instant time)))
    (hamounts.last_at (later amounts.last_at (call.instant time)))
  obtain ⟨hkey_failed, hkey_max, hkey_count, hkey_groups⟩ := @note_key_same next call.identity
  have hkey_latest := @note_key_latest next call.identity
  obtain ⟨put, hput, hcalled⟩ : ∃ put, put = (next.note_key call.identity).put call.bucket_start
      call.row_key ⟨{ total with last_at := later total.last_at (call.instant time) },
        group.by_key.insert call.key
          { amounts with last_at := later amounts.last_at (call.instant time) }, refused, truncated⟩ ∧
      self.added time call = (call.instant time).elim put (fun instant =>
        { put with latest := put.latest.note instant call.bucket_start call.row_key call.key }) := by
    refine ⟨_, rfl, ?_⟩
    have hunread : (call.transcript_at.isSome && (call.transcript_at.bind time.parse).isNone) =
        call.unread time := rfl
    have hopen : self.failed.isSome = false := by
      rw [h.failed]
      rfl
    unfold Grouping.added add_at
    rw [hopen, if_neg Bool.false_ne_true]
    dsimp only
    rw [hunread, hensure]
    dsimp only
    rw [hadd]
    dsimp only
    rw [show later total.last_at (call.transcript_at.bind time.parse) =
      later total.last_at (call.instant time) from rfl, hadmit]
    rw [hamounts_add]
    unfold Call.instant
    cases call.transcript_at.bind time.parse <;> rfl
  have hrows : RowsOf (calls ++ [call]) put := by
    have hold : ∀ row, row ≠ call.row → put.get row.1 row.2 = self.get row.1 row.2 := by
      intro row hrow
      have hget : put.get row.1 row.2 = (next.note_key call.identity).get row.1 row.2 := by
        rw [hput]
        exact (get_put _ call.row row _).trans (if_neg hrow)
      have hnext : (next.note_key call.identity).get row.1 row.2 = next.get row.1 row.2 := by
        unfold Grouping.get
        rw [hkey_groups]
      exact (hget.trans hnext).trans (hothers row hrow)
    refine ⟨?_, ?_, ?_, ?_⟩
    · rw [hput]
      exact hkey_failed.trans hfailed
    · rw [hput]
      exact hkey_count.trans hcount
    · intro row hrow
      simp only [map_append, map_cons, map_nil, mem_append, mem_singleton,
        not_or] at hrow
      rw [hold row hrow.2]
      exact h.absent row hrow.1
    · intro row hrow
      by_cases hself : row = call.row
      · rw [hself, at_row_snoc_self, hput]
        exact ⟨_, (get_put _ call.row call.row _).trans (if_pos rfl), hnew⟩
      · rw [hold row hself, at_row_snoc_ne hself]
        apply h.present row
        simpa [hself] using hrow
  have hmax_put : put.max_groups = max_groups := by
    rw [hput]
    exact hkey_max.trans hnext_max
  have hlatest_put : put.latest =
      { self.latest with unordered := self.latest.unordered || call.unread time } := by
    rw [hput]
    exact hkey_latest.trans hlatest
  rw [hcalled]
  unfold Call.note
  cases call.instant time with
  | none => exact ⟨hrows, hmax_put, hlatest_put⟩
  | some instant =>
    refine ⟨⟨hrows.failed, hrows.count, hrows.absent, hrows.present⟩, hmax_put, ?_⟩
    rw [hlatest_put]
    rfl

/-! ## A run of calls -/

/-- The grouping that the calls leave. -/
def grouped (time : Rfc3339) (max_groups : Nat) (calls : List Call) : Grouping :=
  calls.foldl (Grouping.added time) (Grouping.new max_groups)

/-- The notes that the calls make. -/
def notes_of (time : Rfc3339) (calls : List Call) : List Note := calls.filterMap (Call.note time)

theorem run_rows (h : RowsOf calls self) (hmax : self.max_groups = max_groups)
    (hlimits : WithinLimits max_groups (calls ++ more)) :
    RowsOf (calls ++ more) (more.foldl (Grouping.added time) self) ∧
      (more.foldl (Grouping.added time) self).latest =
        (notes_of time more).foldl LatestRequests.noted
          { self.latest with unordered := self.latest.unordered || more.any (Call.unread time) } := by
  induction more generalizing calls self with
  | nil => simpa [notes_of] using h
  | cons call more ih =>
    rw [append_cons] at hlimits
    obtain ⟨hnext, hnext_max, hlatest⟩ := @RowsOf.added _ _ _ time _ h hmax hlimits.before
    obtain ⟨hrows, hrun⟩ := ih hnext hnext_max hlimits
    refine ⟨by simpa using hrows, ?_⟩
    rw [foldl_cons, hrun, hlatest, run_unordered, run_unordered, run_unordered]
    unfold notes_of
    cases hnote : call.note time with
    | none =>
      rw [filterMap_cons_none hnote]
      simp [Bool.or_assoc, run_unordered]
    | some n =>
      rw [filterMap_cons_some hnote]
      simp [Bool.or_assoc, run_unordered, noted_unordered]

theorem grouped_rows (hlimits : WithinLimits max_groups calls) :
    RowsOf calls (grouped time max_groups calls) ∧
      (grouped time max_groups calls).latest = (notes_of time calls).foldl LatestRequests.noted
        { unordered := calls.any (Call.unread time) } := by
  have hrun := @run_rows _ _ calls time _ rowsOf_new rfl hlimits
  simpa [grouped, Grouping.new] using hrun

/-! ## The current account -/

/-- Some request of the tie's row was counted under the key with usage. -/
def Carried (calls : List Call) (tie : Tie) (key : AuthorityKey) : Prop :=
  ∃ call ∈ calls, call.row = (tie.1, tie.2.1) ∧ call.key = some key ∧ ∃ c, call.usage.count c ≠ 0

theorem Totals.unused_iff (h : Totals calls amounts) :
    amounts.is_unused = true ↔ ∀ call ∈ calls, ∀ c, call.usage.count c = 0 := by
  have hzero : ∀ c, amounts.counts c = 0 ↔ ∀ call ∈ calls, call.usage.count c = 0 := by
    intro c
    rw [← UInt64.toNat_inj, h.counts c]
    simp [counted, sum_eq_zero_iff]
  unfold Amounts.is_unused
  simp only [hzero, decide_eq_true_eq]
  exact ⟨fun hall call hcall c => hall c call hcall, fun hall c call hcall => hall call hcall c⟩

theorem RowsOf.carries_iff (h : RowsOf calls self) (tie : Tie) (key : AuthorityKey) :
    self.carries tie key = true ↔ Carried calls tie key := by
  unfold Grouping.carries Carried
  by_cases hrow : (tie.1, tie.2.1) ∈ calls.map Call.row
  · obtain ⟨group, hget, hgroup⟩ := h.present _ hrow
    rw [hget, bind_some]
    by_cases hkey : ∃ call ∈ at_row calls (tie.1, tie.2.1), call.key = some key
    · obtain ⟨amounts, hamounts, hsum⟩ := hgroup.present _ hkey
      rw [hamounts, any_some, Bool.not_eq_true', ← Bool.not_eq_true, hsum.unused_iff]
      simp only [of_key, at_row, mem_filter, decide_eq_true_eq]
      push Not
      constructor
      · rintro ⟨call, ⟨⟨hcall, hrow⟩, hck⟩, c, hused⟩
        exact ⟨call, hcall, hrow, hck, c, hused⟩
      · rintro ⟨call, hcall, hrow, hck, c, hused⟩
        exact ⟨call, ⟨⟨hcall, hrow⟩, hck⟩, c, hused⟩
    · rw [hgroup.absent _ (fun call hcall heq => hkey ⟨call, hcall, heq⟩)]
      refine iff_of_false (by simp) ?_
      rintro ⟨call, hcall, hcall_row, hck, -⟩
      exact hkey ⟨call, mem_filter.mpr ⟨hcall, decide_eq_true hcall_row⟩, hck⟩
  · have hget : self.get tie.1 tie.2.1 = none := h.absent _ hrow
    rw [hget]
    refine iff_of_false (by simp) ?_
    rintro ⟨call, hcall, hcall_row, -⟩
    exact hrow (mem_map.mpr ⟨call, hcall, hcall_row⟩)

theorem mem_newest_triples {triple : AccountTriple} :
    triple ∈ self.newest_triples.keys ↔ ∃ tie ∈ self.latest.ties, self.newest_triple tie = triple := by
  have hfold : ∀ (ties : List Tie) (triples : SortedMap AccountTriple Unit),
      ((ties.foldl (fun triples tie => triples.insert (self.newest_triple tie) ()) triples).get?
        triple).isSome ↔ (triples.get? triple).isSome ∨ ∃ tie ∈ ties, self.newest_triple tie = triple := by
    intro ties
    induction ties with
    | nil => simp
    | cons tie ties ih =>
      intro triples
      rw [foldl_cons, ih, get?_insert]
      by_cases hsame : triple = self.newest_triple tie
      · simp [← hsame]
      · have hother : self.newest_triple tie ≠ triple := Ne.symm hsame
        simp [hsame, hother]
  rw [mem_keys_iff, newest_triples, hfold]
  simp

/-- The same newest requests in the same rows make the same current account. -/
theorem current_account_congr {other : Grouping} (withheld : Bool)
    (hunordered : other.latest.unordered = self.latest.unordered)
    (hat : other.latest.at_instant = self.latest.at_instant)
    (hoverflowed : other.latest.ties_overflowed = self.latest.ties_overflowed)
    (hties : self.latest.ties_overflowed = false →
      other.latest.ties.toFinset = self.latest.ties.toFinset)
    (hcarries : ∀ tie key, other.carries tie key = self.carries tie key) :
    other.current_account withheld = self.current_account withheld := by
  unfold current_account
  rw [hunordered, hat, hoverflowed]
  cases hover : self.latest.ties_overflowed with
  | true => rfl
  | false =>
    have hsame : other.newest_triple = self.newest_triple := by
      funext tie
      unfold newest_triple
      rw [show other.carries tie = self.carries tie from funext (hcarries tie)]
    have hmem : ∀ tie, tie ∈ other.latest.ties ↔ tie ∈ self.latest.ties := by
      intro tie
      rw [← List.mem_toFinset, hties hover, List.mem_toFinset]
    have htriples : other.newest_triples = self.newest_triples := by
      ext triple
      have hkeys : triple ∈ other.newest_triples.keys ↔ triple ∈ self.newest_triples.keys := by
        simp only [mem_newest_triples, hsame, hmem]
      rw [mem_keys_iff, mem_keys_iff] at hkeys
      cases hleft : other.newest_triples.get? triple <;>
        cases hright : self.newest_triples.get? triple <;> simp_all
    rw [htriples]

/-- What the latest requests of a grouping are, in any order of the calls. -/
theorem grouped_kept (hlimits : WithinLimits max_groups calls) (hsource : OneSource (notes_of time calls)) :
    Kept (notes_of time calls) (grouped time max_groups calls).latest ∧
      (grouped time max_groups calls).latest.unordered = calls.any (Call.unread time) := by
  rw [(grouped_rows hlimits).2]
  refine ⟨kept_of_run hsource _, ?_⟩
  have hrun := run_unordered (notes_of time calls) {} (calls.any (Call.unread time))
  rw [hrun]

theorem carried_perm (hperm : calls'.Perm calls) (tie : Tie) (key : AuthorityKey) :
    Carried calls' tie key ↔ Carried calls tie key := by
  unfold Carried
  simp only [hperm.mem_iff]

theorem current_account_perm (hlimits : WithinLimits max_groups calls)
    (hsource : OneSource (notes_of time calls)) (hperm : calls'.Perm calls) (withheld : Bool) :
    (grouped time max_groups calls').latest.at_instant =
        (grouped time max_groups calls).latest.at_instant ∧
      (grouped time max_groups calls').current_account withheld =
        (grouped time max_groups calls).current_account withheld := by
  have hnotes : (notes_of time calls').Perm (notes_of time calls) := hperm.filterMap _
  have hlimits' := hlimits.perm hperm
  obtain ⟨hkept, hunordered⟩ := grouped_kept hlimits hsource
  obtain ⟨hkept', hunordered'⟩ := grouped_kept hlimits' (hsource.perm hnotes)
  have hkept' := hkept'.of_perm hnotes
  have hat := hkept'.stands.unique hkept.stands
  have hover : (grouped time max_groups calls').latest.ties_overflowed =
      (grouped time max_groups calls).latest.ties_overflowed := by
    rw [Bool.eq_iff_iff, hkept.overflowed, hkept'.overflowed]
  refine ⟨hat, current_account_congr withheld ?_ hat hover ?_ ?_⟩
  · rw [hunordered, hunordered', Bool.eq_iff_iff, List.any_eq_true, List.any_eq_true]
    simp only [hperm.mem_iff]
  · intro hcalm
    rw [(hkept.ties hcalm).2, (hkept'.ties (hover.trans hcalm)).2]
  · intro tie key
    rw [Bool.eq_iff_iff, (grouped_rows hlimits).1.carries_iff, (grouped_rows hlimits').1.carries_iff]
    exact carried_perm hperm tie key

/-- Every newest request carries the login, organization and subscription, and its row still has
usage of its key. -/
def NewestCarry (time : Rfc3339) (calls : List Call) (triple : AccountTriple) : Prop :=
  triple.account.isSome ∧ ∀ tie ∈ newest_ties (notes_of time calls), ∃ key, tie.2.2 = some key ∧
    Carried calls tie key ∧ account_triple (some key) tie.2.1 = triple

/-- The newest requests are in order and few enough to be told apart. -/
structure Ordered (time : Rfc3339) (calls : List Call) : Prop where
  read : ∀ call ∈ calls, call.unread time = false
  some : ∃ n, n ∈ notes_of time calls
  few : (newest_ties (notes_of time calls)).card ≤ MAX_LATEST_TIES

variable {triple : AccountTriple}

theorem ordered_iff (hkept : Kept (notes_of time calls) self.latest)
    (hunordered : self.latest.unordered = calls.any (Call.unread time)) :
    Ordered time calls ↔ (self.latest.unordered || self.latest.at_instant.isNone) = false ∧
      self.latest.ties_overflowed = false := by
  have hat : self.latest.at_instant.isNone = true ↔ ¬ ∃ n, n ∈ notes_of time calls := by
    rw [isNone_iff_eq_none]
    constructor
    · intro hnone hsome
      obtain ⟨n, hn⟩ := hsome
      rw [hkept.stands.empty hnone] at hn
      cases hn
    · intro hnone
      rw [eq_none_iff_forall_ne_some]
      intro t ht
      obtain ⟨⟨n, hn, -⟩, -⟩ := hkept.stands.newest t ht
      exact hnone ⟨n, hn⟩
  rw [Bool.or_eq_false_iff, hunordered, List.any_eq_false, ← Bool.not_eq_true, hat,
    ← Bool.not_eq_true (self.latest.ties_overflowed), hkept.overflowed]
  constructor
  · rintro ⟨hread, hsome, hfew⟩
    exact ⟨⟨fun call hcall => Bool.eq_false_iff.mp (hread call hcall), not_not.mpr hsome⟩,
      not_lt.mpr hfew⟩
  · rintro ⟨⟨hread, hsome⟩, hfew⟩
    exact ⟨fun call hcall => Bool.eq_false_iff.mpr (hread call hcall), not_not.mp hsome,
      not_lt.mp hfew⟩

/-- A newest request carries the account when its triple is that of the account. -/
theorem newest_carry_iff (hrows : RowsOf calls self)
    (hties : ∀ tie, tie ∈ self.latest.ties ↔ tie ∈ newest_ties (notes_of time calls)) :
    NewestCarry time calls triple ↔
      triple.account.isSome ∧ ∀ tie ∈ self.latest.ties, self.newest_triple tie = triple := by
  unfold NewestCarry
  simp only [← hties]
  refine and_congr_right (fun hlogin => forall₂_congr (fun tie htie => ?_))
  unfold newest_triple
  constructor
  · rintro ⟨key, hkey, hcarried, htriple⟩
    rw [hkey, filter_some, (hrows.carries_iff tie key).mpr hcarried, if_pos rfl]
    exact htriple
  · intro htriple
    cases hkept_key : tie.2.2.filter (self.carries tie) with
    | none =>
      rw [hkept_key] at htriple
      rw [← htriple] at hlogin
      cases hlogin
    | some key =>
      obtain ⟨hkey, hcarries⟩ := filter_eq_some_iff.mp hkept_key
      rw [hkept_key] at htriple
      exact ⟨key, hkey, (hrows.carries_iff tie key).mp hcarries, htriple⟩

theorem newest_triples_singleton_iff (hexists : ∃ tie, tie ∈ self.latest.ties) :
    self.newest_triples.keys = [triple] ↔
      ∀ tie ∈ self.latest.ties, self.newest_triple tie = triple := by
  constructor
  · intro hkeys tie htie
    have hmem := mem_newest_triples.mpr ⟨tie, htie, rfl⟩
    rw [hkeys] at hmem
    exact mem_singleton.mp hmem
  · intro hall
    have hmem : ∀ other, other ∈ self.newest_triples.keys ↔ other = triple := by
      intro other
      rw [mem_newest_triples]
      constructor
      · rintro ⟨tie, htie, rfl⟩
        exact hall tie htie
      · rintro rfl
        obtain ⟨tie, htie⟩ := hexists
        exact ⟨tie, htie, hall tie htie⟩
    have hperm : self.newest_triples.keys.Perm [triple] :=
      (perm_ext_iff_of_nodup self.newest_triples.keys_nodup (nodup_singleton _)).mpr
        (by simpa using hmem)
    exact perm_singleton.mp hperm

/-- In order and few, the newest requests show one account when they have one triple with a login. -/
theorem current_account_of_ordered
    (hread : (self.latest.unordered || self.latest.at_instant.isNone) = false)
    (hfew : self.latest.ties_overflowed = false) :
    self.current_account false = .ok triple ↔
      triple.account.isSome ∧ self.newest_triples.keys = [triple] := by
  unfold current_account
  rw [if_neg Bool.false_ne_true, hread, if_neg Bool.false_ne_true, hfew, if_neg Bool.false_ne_true]
  constructor
  · intro hok
    split_ifs at hok with hunnamed
    have hnamed : ∀ other ∈ self.newest_triples.keys, other.account.isSome := by
      simpa [isSome_iff_ne_none] using hunnamed
    split at hok
    · rename_i only honly
      cases hok
      exact ⟨hnamed triple (by simp [honly]), honly⟩
    · cases hok
  · rintro ⟨hlogin, honly⟩
    rw [honly]
    have hnamed : ([triple].any (fun triple => triple.account.isNone)) = false := by
      simpa using hlogin
    rw [hnamed, if_neg Bool.false_ne_true]

/-- One account is known exactly when all newest requests carry it. -/
theorem current_account_ok_iff (hlimits : WithinLimits max_groups calls)
    (hsource : OneSource (notes_of time calls)) (withheld : Bool) (triple : AccountTriple) :
    (grouped time max_groups calls).current_account withheld = .ok triple ↔
      withheld = false ∧ Ordered time calls ∧ NewestCarry time calls triple := by
  obtain ⟨hkept, hunordered⟩ := grouped_kept hlimits hsource
  have hrows := (@grouped_rows _ _ time hlimits).1
  generalize grouped time max_groups calls = self at hkept hunordered hrows
  cases withheld with
  | true => simp [current_account]
  | false =>
    by_cases hgood : Ordered time calls
    · obtain ⟨hread, hfew⟩ := (ordered_iff hkept hunordered).mp hgood
      have hties : ∀ tie, tie ∈ self.latest.ties ↔ tie ∈ newest_ties (notes_of time calls) := by
        intro tie
        rw [← (hkept.ties hfew).2, List.mem_toFinset]
      have hexists : ∃ tie, tie ∈ self.latest.ties := by
        obtain ⟨n, hn⟩ := hgood.some
        obtain ⟨top, htop⟩ := exists_newest (ne_nil_of_mem hn)
        exact ⟨top.tie, (hties top.tie).mpr (mem_newest_ties.mpr ⟨top, htop, rfl⟩)⟩
      rw [current_account_of_ordered hread hfew, newest_triples_singleton_iff hexists,
        ← newest_carry_iff hrows hties]
      simp [hgood]
    · refine iff_of_false ?_ (fun h => hgood h.2.1)
      rw [ordered_iff hkept hunordered] at hgood
      unfold current_account
      cases hread : (self.latest.unordered || self.latest.at_instant.isNone) with
      | true => simp
      | false =>
        cases hover : self.latest.ties_overflowed with
        | true => simp
        | false => exact absurd ⟨hread, hover⟩ hgood

/-- The account that is shown as the current one. -/
def Shows (current : ActiveSessionCurrentAccount) (triple : AccountTriple) : Prop :=
  current.status = CURRENT_KNOWN ∧ current.account_identifier_hash = triple.account ∧
    current.organization_identifier_hash = triple.organization ∧
    current.subscription_product = triple.subscription

theorem shows_iff (latest_request_at : Option String) (current : Except String AccountTriple)
    (triple : AccountTriple) :
    Shows (shown_account latest_request_at current) triple ↔ current = .ok triple := by
  cases current with
  | error reason =>
    refine iff_of_false ?_ (by simp)
    rintro ⟨hknown, -⟩
    have hunknown : CURRENT_UNKNOWN ≠ CURRENT_KNOWN := by decide
    exact hunknown hknown
  | ok shown =>
    unfold Shows shown_account
    constructor
    · rintro ⟨-, haccount, horganization, hsubscription⟩
      cases shown
      cases triple
      simp_all
    · rintro ⟨⟩
      exact ⟨rfl, rfl, rfl, rfl⟩

/-- Whatever the order of the notes, the newest time and its distinct requests are kept, or that they
are too many; whatever the order of the calls, the same current account is shown, and one is known
exactly when all newest requests carry it. -/
theorem current_account_has_no_order :
    (∀ notes notes' : List Note, OneSource notes → notes'.Perm notes →
      Kept notes (notes'.foldl LatestRequests.noted {})) ∧
    ∀ (time : Rfc3339) (max_groups : Nat) (calls calls' : List Call) (withheld : Bool),
      WithinLimits max_groups calls → OneSource (notes_of time calls) → calls'.Perm calls →
        (account_display time (grouped time max_groups calls') withheld).current =
            (account_display time (grouped time max_groups calls) withheld).current ∧
          ∀ triple, Shows (account_display time (grouped time max_groups calls') withheld).current
              triple ↔
            withheld = false ∧ Ordered time calls ∧ NewestCarry time calls triple := by
  refine ⟨fun notes notes' hsource hperm => ?_, ?_⟩
  · exact (kept_of_run (hsource.perm hperm) false).of_perm hperm
  · intro time max_groups calls calls' withheld hlimits hsource hperm
    obtain ⟨hat, hcurrent⟩ := current_account_perm hlimits hsource hperm withheld
    have hsame : (account_display time (grouped time max_groups calls') withheld).current =
        (account_display time (grouped time max_groups calls) withheld).current := by
      unfold account_display
      rw [hat, hcurrent]
    refine ⟨hsame, fun triple => ?_⟩
    rw [hsame]
    exact (shows_iff _ _ _).trans (current_account_ok_iff hlimits hsource withheld triple)

/-- Calls that are few in all. -/
theorem withinLimits_of_all (hrows : (calls.map Call.row).toFinset.card ≤ max_groups)
    (hfew : calls.length ≤ MAX_AUTHORITY_KEYS) (hcounts : ∀ c, counted calls c < 2 ^ 64)
    (hcosts : ∀ m, charged calls m < 2 ^ 128) : WithinLimits max_groups calls := by
  refine ⟨hrows, ?_, ?_, ?_⟩
  · intro row
    calc ((at_row calls row).filterMap Call.key).toFinset.card
        ≤ ((at_row calls row).filterMap Call.key).length := toFinset_card_le _
      _ ≤ (at_row calls row).length := length_filterMap_le _ _
      _ ≤ calls.length := length_filter_le _ _
      _ ≤ MAX_AUTHORITY_KEYS := hfew
  · intro row c
    exact lt_of_le_of_lt (sum_map_filter_le _ _ calls) (hcounts c)
  · intro row m
    exact lt_of_le_of_lt (sum_map_filter_le _ _ calls) (hcosts m)

/-- Accounts that were not carried are of one source. -/
theorem oneSource_of_own {notes : List Note}
    (h : notes.all (fun n => n.tie.2.2.all (fun key => key.account_source.isNone)) = true) :
    OneSource notes := by
  have hnone : ∀ n ∈ notes, ∀ key, n.tie.2.2 = some key → key.account_source = none := by
    intro n hn key hkey
    have hall := all_eq_true.mp h n hn
    rw [hkey] at hall
    simpa using hall
  intro n key hn hkey m hm old hold _
  rw [hnone m hm old hold, hnone n hn.1 key hkey]

/-! ## Five models at one instant, and an account source that stays -/

def early : String := "2026-12-01T10:00:00Z"

def late : String := "2026-12-01T10:30:00Z"

def two_instants : Rfc3339 := .of_table [(early, 1796119200000000000), (late, 1796121000000000000)]

def account_key (login : String) (account_source : Option wire.AccountSource) : AuthorityKey :=
  ⟨some login, none, "telemetry_login", account_source⟩

def one_request (model : String) (key : AuthorityKey) (transcript_at : String) : Call where
  bucket_start := early
  row_key := ⟨model, "", none, none, none, none, none, none, none⟩
  usage := { request_count := 1 }
  identity := .Tagged key
  transcript_at := some transcript_at

/-- Requests of five models at one instant, all of one account. -/
def five_models : List Call :=
  ["a", "b", "c", "d", "e"].map (fun model => one_request model (account_key "aaaaaaaa" none) late)

/-- An early request of a carried account. -/
def carried_request : Call := one_request "a" (account_key "aaaaaaaa" (some .CarriedForward)) early

def own_request : Call := one_request "a" (account_key "bbbbbbbb" none) late

/-- All newest requests carry one account, and none is known. In one of the two orders of the other
calls the newest key keeps the account source of the older one. -/
theorem the_newest_account_is_not_always_known :
    (account_display two_instants (grouped two_instants 8 five_models) false).current.status =
        CURRENT_UNKNOWN ∧
      (account_display two_instants (grouped two_instants 8 [own_request, carried_request])
        false).current.account_identifier_hash = some "bbbbbbbb" ∧
      (account_display two_instants (grouped two_instants 8 [carried_request, own_request])
        false).current.account_identifier_hash = none := by
  decide +kernel

def early_request : Call := one_request "a" (account_key "aaaaaaaa" none) early

theorem two_requests_within_limits : WithinLimits 8 [early_request, own_request] :=
  withinLimits_of_all (by decide +kernel) (by decide) (by decide +kernel) (by decide +kernel)

theorem two_requests_of_one_source : OneSource (notes_of two_instants [early_request, own_request]) :=
  oneSource_of_own (by decide +kernel)

/-- The later of two requests decides, in either order. -/
theorem current_account_has_no_order_two :
    Kept (notes_of two_instants [early_request, own_request])
        ((notes_of two_instants [own_request, early_request]).foldl LatestRequests.noted {}) ∧
      (Shows (account_display two_instants (grouped two_instants 8 [own_request, early_request])
          false).current ⟨some "bbbbbbbb", none, none⟩ ↔
        false = false ∧ Ordered two_instants [early_request, own_request] ∧
          NewestCarry two_instants [early_request, own_request] ⟨some "bbbbbbbb", none, none⟩) := by
  have hswap : [own_request, early_request].Perm [early_request, own_request] := .swap _ _ _
  obtain ⟨hnotes, hcalls⟩ := current_account_has_no_order
  refine ⟨hnotes _ _ two_requests_of_one_source (hswap.filterMap _), ?_⟩
  exact (hcalls two_instants 8 _ _ false two_requests_within_limits two_requests_of_one_source
    hswap).2 _

end ottto_service.snapshots.claude_request_identity
