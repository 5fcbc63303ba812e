-- The sections a credential was last read with (quota_credit_model.rs): an
-- exact store of the last observation of each section, with a bound on how
-- many sections it holds.
import Ottto.SortedMap
import Ottto.Recency
import Ottto.Words
import Mathlib.Data.List.MinMax

namespace ottto_service.quota_credit_model

open List SortedMap Recency

/-! ## Balances -/

inductive AgentCreditBalanceStatus where
  | Ok | Low | Exhausted | Unlimited | Unsupported | Stale | Error | Unknown
deriving DecidableEq, Repr

inductive AgentQuotaWindowFreshness where
  | Fresh | Stale | Unsupported | Error | Unknown
deriving DecidableEq, Repr

inductive AgentCreditBalanceUnit where
  | Credits | Usd | Tokens | Resets | Unknown
deriving DecidableEq, Repr

inductive CreditBalanceKind where
  | UsageCredits | PlanCredits | SavedResets | OneTimeCredit | WorkspaceAllowance | Unknown
deriving DecidableEq, Repr

inductive CreditGrantsState where
  | Complete | Capped | Partial | Unavailable | NotSupported
deriving DecidableEq, Repr

inductive CreditGrantsUnavailableCause where
  | Reader
deriving DecidableEq, Repr

inductive CreditGrantType where
  | RateLimitReset | Credit | Unknown
deriving DecidableEq, Repr

inductive CreditGrantStatus where
  | Available | Redeeming | Redeemed | Paused | Unknown
deriving DecidableEq, Repr

structure AgentCreditGrant where
  grant_key : String
  grant_type : CreditGrantType := .Unknown
  status : CreditGrantStatus := .Unknown
  granted_at : Option String := none
  starts_at : Option String := none
  expires_at : Option String := none
  resets_included : Option UInt64 := none
  resets_left : Option UInt64 := none
  clears : Option (List String) := none
  title : Option String := none
  usable_now : Option Bool := none
deriving DecidableEq, Repr

structure AgentCreditBalance where
  name : String
  status : AgentCreditBalanceStatus := .Unknown
  freshness : AgentQuotaWindowFreshness := .Unknown
  unit : AgentCreditBalanceUnit := .Unknown
  account_label : Option String := none
  account_identifier_hash : Option String := none
  organization_identifier_hash : Option String := none
  remaining : Option UInt64 := none
  used : Option UInt64 := none
  quota : Option UInt64 := none
  unlimited : Option Bool := none
  updated_at : Option String := none
  currency : Option String := none
  resets_at : Option String := none
  used_percent : Option UInt8 := none
  enabled : Option Bool := none
  spend_control_reached : Option Bool := none
  rate_limit_reached_type : Option String := none
  limit_id : Option String := none
  observed_at : Option String := none
  expires_at : Option String := none
  disabled_reason : Option String := none
  grant_count : Option UInt64 := none
  grants : Option (List AgentCreditGrant) := none
  grants_state : Option CreditGrantsState := none
  grants_observed_at : Option String := none
  kind : Option CreditBalanceKind := none
  title : Option String := none
  next_expires_at : Option String := none
  latest_granted_at : Option String := none
  eligible : Option Bool := none
  at_limit : Option Bool := none
  ineligible_reason : Option String := none
  cooldown_until : Option String := none
  grants_unavailable_cause : Option CreditGrantsUnavailableCause := none
deriving DecidableEq, Repr

/-- The grant-list part of a balance. -/
structure GrantListSection where
  grant_count : Option UInt64
  grants : List AgentCreditGrant
  grants_state : CreditGrantsState
  grants_observed_at : Option String
  next_expires_at : Option String
  latest_granted_at : Option String
deriving DecidableEq, Repr

/-- The observed list of `balance`, if it carries one. -/
def GrantListSection.from_balance (balance : AgentCreditBalance) : Option GrantListSection := do
  let grants ← balance.grants
  let grants_state ← balance.grants_state
  some
    { grant_count := balance.grant_count, grants, grants_state
      grants_observed_at := balance.grants_observed_at
      next_expires_at := balance.next_expires_at
      latest_granted_at := balance.latest_granted_at }

/-! ## The cache -/

/-- The credential-identity hash a section was read under. -/
abbrev BindingKey := String

inductive CreditSection where
  | GrantList | UsageCredits | OneTimeCredits | SavedResets
deriving DecidableEq, Repr

def CreditSection.rank : CreditSection → Nat
  | .GrantList => 0
  | .UsageCredits => 1
  | .OneTimeCredits => 2
  | .SavedResets => 3

instance : LinearOrder CreditSection :=
  LinearOrder.lift' CreditSection.rank (by intro a b; cases a <;> cases b <;> decide)

inductive CachedSection where
  | Balances (balances : List AgentCreditBalance)
  | GrantList (provider_count : UInt64) (list : GrantListSection)
deriving DecidableEq, Repr

structure CacheEntry where
  cached : CachedSection
  stored_seq : UInt64
deriving DecidableEq, Repr

structure CreditModelDiagnostic where
  code : String
  field : String
deriving DecidableEq, Repr

def SECTION_CACHE_MAX_ENTRIES : Nat := 64

abbrev CacheKey := BindingKey ×ₗ CreditSection

structure SectionCache where
  entries : SortedMap CacheKey CacheEntry := .empty
  next_seq : UInt64 := 0
  diagnostics : List CreditModelDiagnostic := []

namespace SectionCache

/-- The key `min_by_key` finds: the first entry with the lowest number. -/
def oldest (self : SectionCache) : Option CacheKey :=
  (self.entries.entries.argmin (fun e => e.2.stored_seq.toNat)).map Prod.fst

/-- The loop that brings the cache back to its bound; each turn removes one
entry, so it ends within as many turns as there are entries. -/
def evict : Nat → SectionCache → SectionCache
  | 0, self => self
  | turns + 1, self =>
    if self.entries.size > SECTION_CACHE_MAX_ENTRIES then
      match self.oldest with
      | none => self
      | some key =>
        evict turns
          { self with
            entries := self.entries.erase key
            diagnostics :=
              if self.diagnostics.length < SECTION_CACHE_MAX_ENTRIES then
                self.diagnostics ++ [⟨"section_cache_evicted", "section_cache"⟩]
              else self.diagnostics }
    else self

/-- The number is a `u64`, and the one after `u64::MAX` is 0. -/
def insert (self : SectionCache) (binding : BindingKey) (credit_section : CreditSection)
    (value : CachedSection) : SectionCache :=
  let stored : SectionCache :=
    { self with
      entries := self.entries.insert (toLex (binding, credit_section)) ⟨value, self.next_seq + 1⟩
      next_seq := self.next_seq + 1 }
  evict stored.entries.size stored

/-- `updated_at` is never carried over. -/
def without_updated_at (balance : AgentCreditBalance) : AgentCreditBalance :=
  { balance with updated_at := none }

/-- The grant-list section holds only lists, so balances under it are dropped. -/
def observe_balances (self : SectionCache) (binding : BindingKey) (credit_section : CreditSection)
    (balances : List AgentCreditBalance) : SectionCache :=
  if credit_section = .GrantList then self
  else self.insert binding credit_section (.Balances (balances.map without_updated_at))

def resend_balances (self : SectionCache) (binding : BindingKey) (credit_section : CreditSection) :
    Option (List AgentCreditBalance) :=
  match self.entries.get? (toLex (binding, credit_section)) with
  | some ⟨.Balances balances, _⟩ => some balances
  | _ => none

/-- A list-less balance is not recorded. -/
def observe_grant_list (self : SectionCache) (binding : BindingKey) (provider_count : UInt64)
    (balance : AgentCreditBalance) : SectionCache :=
  match GrantListSection.from_balance balance with
  | some list => self.insert binding .GrantList (.GrantList provider_count list)
  | none => self

/-- The cached list, only while the count is the one it was read with. -/
def grant_list_for_count (self : SectionCache) (binding : BindingKey) (provider_count : UInt64) :
    Option GrantListSection :=
  match self.entries.get? (toLex (binding, .GrantList)) with
  | some ⟨.GrantList cached list, _⟩ => if cached = provider_count then some list else none
  | _ => none

def take_diagnostics (self : SectionCache) : List CreditModelDiagnostic × SectionCache :=
  (self.diagnostics, { self with diagnostics := [] })

end SectionCache

/-! ## Call sequences -/

/-- One call on the cache. -/
inductive Call where
  | observe_balances (binding : BindingKey) (credit_section : CreditSection)
      (balances : List AgentCreditBalance)
  | observe_grant_list (binding : BindingKey) (provider_count : UInt64)
      (balance : AgentCreditBalance)
  | resend_balances (binding : BindingKey) (credit_section : CreditSection)
  | grant_list_for_count (binding : BindingKey) (provider_count : UInt64)
  | take_diagnostics
deriving DecidableEq, Repr

def SectionCache.call (self : SectionCache) : Call → SectionCache
  | .observe_balances binding credit_section balances =>
    self.observe_balances binding credit_section balances
  | .observe_grant_list binding count balance => self.observe_grant_list binding count balance
  | .resend_balances _ _ => self
  | .grant_list_for_count _ _ => self
  | .take_diagnostics => self.take_diagnostics.2

/-- What a call stores, if anything, and under which key. -/
def Call.stored : Call → Option (CacheKey × CachedSection)
  | .observe_balances binding credit_section balances =>
    if credit_section = .GrantList then none
    else some (toLex (binding, credit_section),
      .Balances (balances.map SectionCache.without_updated_at))
  | .observe_grant_list binding count balance =>
    (GrantListSection.from_balance balance).map
      (fun list => (toLex (binding, .GrantList), .GrantList count list))
  | _ => none

/-- How many keys besides `key` the calls store. -/
def othersStored (key : CacheKey) (calls : List Call) : Nat :=
  (((calls.filterMap Call.stored).map Prod.fst).toFinset.erase key).card

/-- How many sections the calls store. -/
def stores (calls : List Call) : Nat := (calls.filterMap Call.stored).length

/-! ## The bound -/

namespace SectionCache

variable {self : SectionCache}

theorem contains_of_oldest {key : CacheKey} (h : self.oldest = some key) :
    self.entries.contains key = true := by
  obtain ⟨⟨_, e⟩, hmin, rfl⟩ := Option.map_eq_some_iff.mp h
  exact Option.isSome_iff_exists.mpr ⟨e, mem_entries.mp (argmin_mem hmin)⟩

/-- Each turn removes an entry, whatever the numbers are. -/
theorem evict_size (turns : Nat) : ∀ {self : SectionCache},
    self.entries.size ≤ turns + SECTION_CACHE_MAX_ENTRIES →
    (evict turns self).entries.size ≤ SECTION_CACHE_MAX_ENTRIES := by
  induction turns with
  | zero =>
    intro self h
    rwa [Nat.zero_add] at h
  | succ turns ih =>
    intro self h
    rw [evict]
    split
    · rename_i hover
      cases holdest : self.oldest with
      | none =>
        have hnil : self.entries.entries = [] :=
          argmin_eq_none.mp (Option.map_eq_none_iff.mp holdest)
        rw [SortedMap.size, hnil] at hover
        cases hover
      | some key =>
        have hsize := self.entries.size_erase (contains_of_oldest holdest)
        exact ih (show (self.entries.erase key).size ≤ _ by omega)
    · rename_i hroom
      exact not_lt.mp hroom

/-- No turn changes the number. -/
theorem evict_next_seq (turns : Nat) : ∀ self : SectionCache,
    (evict turns self).next_seq = self.next_seq := by
  induction turns with
  | zero => exact fun _ => rfl
  | succ turns ih =>
    intro self
    rw [evict]
    split
    · cases self.oldest with
      | none => rfl
      | some key => exact ih _
    · rfl

/-- A call is one insertion, or it leaves the entries and the number alone. -/
theorem call_cases (self : SectionCache) (c : Call) :
    c.stored = none ∧ (self.call c).entries = self.entries ∧
        (self.call c).next_seq = self.next_seq ∨
      ∃ binding credit_section value,
        c.stored = some (toLex (binding, credit_section), value) ∧
          self.call c = self.insert binding credit_section value := by
  cases c with
  | observe_balances binding credit_section balances =>
    unfold SectionCache.call SectionCache.observe_balances Call.stored
    by_cases hsection : credit_section = .GrantList
    · exact .inl (by simp [hsection])
    · simp only [if_neg hsection]
      exact .inr ⟨_, _, _, rfl, rfl⟩
  | observe_grant_list binding count balance =>
    simp only [SectionCache.call, SectionCache.observe_grant_list, Call.stored]
    cases GrantListSection.from_balance balance with
    | none => exact .inl ⟨rfl, rfl, rfl⟩
    | some list => exact .inr ⟨_, _, _, rfl, rfl⟩
  | resend_balances binding credit_section => exact .inl ⟨rfl, rfl, rfl⟩
  | grant_list_for_count binding count => exact .inl ⟨rfl, rfl, rfl⟩
  | take_diagnostics => exact .inl ⟨rfl, rfl, rfl⟩

/-- The cache never outgrows its bound. -/
theorem size_le (calls : List Call) :
    (run SectionCache.call {} calls).entries.size ≤ SECTION_CACHE_MAX_ENTRIES := by
  induction calls using List.reverseRecOn with
  | nil => exact Nat.zero_le _
  | append_singleton calls c ih =>
    rw [Run.snoc]
    rcases call_cases (run SectionCache.call {} calls) c with
      ⟨-, hentries, -⟩ | ⟨binding, credit_section, value, -, hcall⟩
    · rwa [hentries]
    · rw [hcall]
      exact evict_size _ (Nat.le_add_right _ _)

end SectionCache

/-! ## The cache as a list of last observations -/

namespace SectionCache

/-- The entries of the cache, the latest first. -/
structure Holds (c : SectionCache) (l : List (CacheKey × CacheEntry)) : Prop where
  entries : ∀ k e, c.entries.get? k = some e ↔ (k, e) ∈ l
  falling : l.Pairwise (fun a b => b.2.stored_seq.toNat < a.2.stored_seq.toNat)
  numbered : ∀ a ∈ l, a.2.stored_seq.toNat ≤ c.next_seq.toNat
  distinct : Recency.Distinct l

variable {self : SectionCache} {l : List (CacheKey × CacheEntry)}

theorem Holds.size (h : self.Holds l) :
    self.entries.size = l.length := by
  have hnodup : self.entries.entries.Nodup := by
    apply self.entries.sorted.imp
    rintro a b hab rfl
    exact lt_irrefl _ hab
  have hl : l.Nodup := List.Nodup.of_map _ h.distinct
  have hperm : self.entries.entries.Perm l := by
    rw [perm_ext_iff_of_nodup hnodup hl]
    rintro ⟨k, e⟩
    rw [mem_entries, h.entries]
  exact hperm.length_eq

theorem Holds.empty : Holds {} [] :=
  ⟨fun k e => by simp, .nil, by simp, distinct_nil⟩

/-- The lowest number is that of the entry stored first. -/
theorem Holds.oldest {last : CacheKey × CacheEntry} (h : self.Holds (l ++ [last])) :
    self.oldest = some last.1 := by
  unfold SectionCache.oldest
  have hmem : last ∈ self.entries.entries := by
    rw [mem_entries, h.entries]
    simp
  cases hmin : self.entries.entries.argmin (fun e => e.2.stored_seq.toNat) with
  | none =>
    rw [argmin_eq_none] at hmin
    rw [hmin] at hmem
    cases hmem
  | some found =>
    have hfound : found ∈ l ++ [last] := by
      have := argmin_mem hmin
      rwa [mem_entries, h.entries] at this
    have hle := le_of_mem_argmin hmem hmin
    rcases mem_append.mp hfound with hfront | hlast
    · have hlt := (pairwise_append.mp h.falling).2.2 found hfront last (by simp)
      omega
    · rw [mem_singleton.mp hlast]
      rfl

theorem Holds.erase {last : CacheKey × CacheEntry} (h : self.Holds (l ++ [last]))
    (diagnostics : List CreditModelDiagnostic) :
    Holds { self with entries := self.entries.erase last.1, diagnostics } l := by
  have hnot : last.1 ∉ l.map Prod.fst := by
    have hdistinct := h.distinct
    unfold Recency.Distinct at hdistinct
    rw [map_append] at hdistinct
    intro hmem
    exact (nodup_append.mp hdistinct).2.2 _ hmem last.1 (by simp) rfl
  refine ⟨?_, (pairwise_append.mp h.falling).1, ?_, ?_⟩
  · intro k e
    show (self.entries.erase last.1).get? k = some e ↔ _
    rw [get?_erase]
    by_cases hk : k = last.1
    · rw [if_pos hk]
      constructor
      · intro hnone
        cases hnone
      · intro hmem
        exact absurd (hk ▸ mem_map_of_mem hmem) hnot
    · rw [if_neg hk, h.entries, mem_append, mem_singleton]
      constructor
      · rintro (hmem | rfl)
        · exact hmem
        · exact absurd rfl hk
      · exact .inl
  · intro a ha
    exact h.numbered a (mem_append_left _ ha)
  · exact h.distinct.sublist ((sublist_append_left l [last]).map Prod.fst)

/-- The loop drops the entries past the bound, the oldest of them first. -/
theorem evict_holds (turns : Nat) : ∀ {self : SectionCache} {l : List (CacheKey × CacheEntry)},
    self.Holds l → l.length ≤ turns →
    (evict turns self).Holds (l.take SECTION_CACHE_MAX_ENTRIES) := by
  induction turns with
  | zero =>
    intro self l h hlength
    rw [eq_nil_of_length_eq_zero (Nat.le_zero.mp hlength)] at h ⊢
    exact h
  | succ turns ih =>
    intro self l h hlength
    rw [evict, h.size]
    by_cases hover : l.length > SECTION_CACHE_MAX_ENTRIES
    · rw [if_pos hover]
      obtain ⟨front, last, rfl⟩ : ∃ front last, l = front ++ [last] := by
        have hne : l ≠ [] := by
          rintro rfl
          simp at hover
        exact ⟨l.dropLast, l.getLast hne, (dropLast_append_getLast hne).symm⟩
      rw [length_append, length_singleton] at hover hlength
      rw [h.oldest, take_append_of_le_length (by omega)]
      exact ih (h.erase _) (by omega)
    · rw [if_neg hover, take_of_length_le (by omega)]
      exact h

/-- The number given is above every other one, as long as it does not wrap. -/
theorem insert_holds (h : self.Holds l) (hroom : self.next_seq.toNat + 1 < 2 ^ 64)
    (binding : BindingKey) (credit_section : CreditSection) (value : CachedSection) :
    (self.insert binding credit_section value).Holds
      (Recency.storeWithin SECTION_CACHE_MAX_ENTRIES l
        (toLex (binding, credit_section), ⟨value, self.next_seq + 1⟩)) := by
  unfold SectionCache.insert Recency.storeWithin
  generalize hkey : (toLex (binding, credit_section) : CacheKey) = key
  have hnext : (self.next_seq + 1).toNat = self.next_seq.toNat + 1 := Words.toNat_add_of_lt hroom
  have hstored : Holds
      { self with
        entries := self.entries.insert key ⟨value, self.next_seq + 1⟩
        next_seq := self.next_seq + 1 }
      (Recency.store l (key, ⟨value, self.next_seq + 1⟩)) := by
    refine ⟨?_, ?_, ?_, distinct_store h.distinct _⟩
    · intro k e
      show (self.entries.insert key _).get? k = some e ↔ _
      rw [get?_insert, Recency.store, mem_cons, mem_filter]
      by_cases hk : k = key
      · subst hk
        simp [eq_comm]
      · simp [hk, h.entries]
    · refine pairwise_cons.mpr ⟨?_, h.falling.filter _⟩
      intro a ha
      exact hnext ▸ Nat.lt_succ_of_le (h.numbered a (mem_filter.mp ha).1)
    · intro a ha
      rcases mem_cons.mp ha with rfl | ha
      · exact le_rfl
      · exact hnext ▸ Nat.le_succ_of_le (h.numbered a (mem_filter.mp ha).1)
  exact evict_holds _ hstored (le_of_eq hstored.size.symm)

/-- Below 2^64 stores the number is how many there were, and what is cached is what the last
observations are. -/
theorem run_holds (calls : List Call) (hstores : stores calls < 2 ^ 64) :
    (run SectionCache.call {} calls).next_seq.toNat = stores calls ∧
    ∃ l, (run SectionCache.call {} calls).Holds l ∧
      l.map (Prod.map id CacheEntry.cached) =
        run (Recency.storeWithin SECTION_CACHE_MAX_ENTRIES) [] (calls.filterMap Call.stored) := by
  induction calls using List.reverseRecOn with
  | nil => exact ⟨rfl, [], Holds.empty, rfl⟩
  | append_singleton calls c ih =>
    unfold stores at hstores ih ⊢
    rw [filterMap_append] at hstores ⊢
    rw [Run.snoc]
    rcases call_cases (run SectionCache.call {} calls) c with
      ⟨hnone, hentries, hnumber⟩ | ⟨binding, credit_section, value, hstored, hcall⟩
    · rw [filterMap_cons_none hnone, filterMap_nil, append_nil] at hstores ⊢
      obtain ⟨hnext, l, hl, hmap⟩ := ih hstores
      exact ⟨by rw [hnumber, hnext], l,
        ⟨by rw [hentries]; exact hl.entries, hl.falling, by rw [hnumber]; exact hl.numbered,
          hl.distinct⟩, hmap⟩
    · rw [filterMap_cons_some hstored, filterMap_nil] at hstores ⊢
      rw [length_append, length_singleton] at hstores ⊢
      obtain ⟨hnext, l, hl, hmap⟩ := ih (by omega)
      rw [← hnext] at hstores
      have hone := Words.toNat_add_of_lt (b := 1) hstores
      rw [hcall, Run.snoc, ← hmap]
      refine ⟨?_, _, insert_holds hl hstores _ _ _, map_storeWithin _ _ _ _⟩
      rw [SectionCache.insert, evict_next_seq, ← hnext]
      exact hone

/-- What is cached under a key. -/
def cachedAt (self : SectionCache) (key : CacheKey) : Option CachedSection :=
  (self.entries.get? key).map CacheEntry.cached

theorem cachedAt_eq_some {calls : List Call} (hstores : stores calls < 2 ^ 64) (key : CacheKey) (value : CachedSection) :
    (run SectionCache.call {} calls).cachedAt key = some value ↔
      (key, value) ∈
        run (Recency.storeWithin SECTION_CACHE_MAX_ENTRIES) [] (calls.filterMap Call.stored) := by
  obtain ⟨-, l, hl, hmap⟩ := run_holds calls hstores
  rw [← hmap, cachedAt, Option.map_eq_some_iff]
  constructor
  · rintro ⟨e, hget, rfl⟩
    exact mem_map.mpr ⟨(key, e), (hl.entries _ _).mp hget, rfl⟩
  · intro hmem
    obtain ⟨⟨k, e⟩, he, heq⟩ := mem_map.mp hmem
    cases heq
    exact ⟨e, (hl.entries _ _).mpr he, rfl⟩

theorem cachedAt_never_stored {calls : List Call} {key : CacheKey} (hstores : stores calls < 2 ^ 64)
    (h : ∀ c ∈ calls, ∀ value, c.stored ≠ some (key, value)) :
    (run SectionCache.call {} calls).cachedAt key = none := by
  apply Option.eq_none_iff_forall_ne_some.mpr
  intro value hvalue
  rw [cachedAt_eq_some hstores, run_storeWithin] at hvalue
  refine run_store_absent (k := key) ?_
    (mem_map_of_mem (f := Prod.fst) (mem_of_mem_take hvalue))
  intro hmem
  obtain ⟨⟨k, v⟩, hstored, rfl⟩ := mem_map.mp hmem
  obtain ⟨c, hc, hcv⟩ := mem_filterMap.mp hstored
  exact h c hc v hcv

theorem cachedAt_last_stored {before after : List Call} {c : Call} {key : CacheKey}
    {value : CachedSection} (hstores : stores (before ++ c :: after) < 2 ^ 64)
    (hc : c.stored = some (key, value))
    (h : ∀ d ∈ after, ∀ other, d.stored ≠ some (key, other)) :
    (run SectionCache.call {} (before ++ c :: after)).cachedAt key =
      if othersStored key after < SECTION_CACHE_MAX_ENTRIES then some value else none := by
  have habsent : key ∉ (after.filterMap Call.stored).map Prod.fst := by
    intro hmem
    obtain ⟨⟨k, v⟩, hstored, rfl⟩ := mem_map.mp hmem
    obtain ⟨d, hd, hdv⟩ := mem_filterMap.mp hstored
    exact h d hd v hdv
  have hothers : othersStored key after =
      ((after.filterMap Call.stored).map Prod.fst).toFinset.card := by
    unfold othersStored
    rw [Finset.erase_eq_of_notMem]
    rwa [mem_toFinset]
  have hkept := kept_iff SECTION_CACHE_MAX_ENTRIES (before.filterMap Call.stored)
    (after.filterMap Call.stored) (key, value)
  ext v
  rw [cachedAt_eq_some hstores, filterMap_append, filterMap_cons_some hc,
    hkept v habsent, hothers]
  by_cases hroom : ((after.filterMap Call.stored).map Prod.fst).toFinset.card <
      SECTION_CACHE_MAX_ENTRIES
  · simp [hroom, eq_comm]
  · simp [hroom]

end SectionCache

/-! ## The history a section is read back from -/

/-- What `observed` finds in the latest call it finds something in, with the
calls after that one. -/
def latest {α : Type} (observed : Call → Option α) : List Call → Option (α × List Call)
  | [] => none
  | c :: calls =>
    match latest observed calls with
    | some found => some found
    | none => (observed c).map (fun a => (a, calls))

theorem latest_eq_none {α : Type} {observed : Call → Option α} {calls : List Call}
    (h : latest observed calls = none) : ∀ c ∈ calls, observed c = none := by
  induction calls with
  | nil => simp
  | cons c calls ih =>
    unfold latest at h
    cases hlater : latest observed calls with
    | some found => simp [hlater] at h
    | none =>
      simp only [hlater, Option.map_eq_none_iff] at h
      intro d hd
      rcases mem_cons.mp hd with rfl | hd
      · exact h
      · exact ih hlater d hd

theorem latest_eq_some {α : Type} {observed : Call → Option α} {calls after : List Call} {a : α}
    (h : latest observed calls = some (a, after)) :
    ∃ before c, calls = before ++ c :: after ∧ observed c = some a ∧
      ∀ d ∈ after, observed d = none := by
  induction calls with
  | nil => simp [latest] at h
  | cons c calls ih =>
    unfold latest at h
    cases hlater : latest observed calls with
    | some found =>
      simp only [hlater] at h
      obtain ⟨before, d, rfl, hd, hafter⟩ := ih (hlater.trans h)
      exact ⟨c :: before, d, rfl, hd, hafter⟩
    | none =>
      simp only [hlater, Option.map_eq_some_iff, Prod.mk.injEq] at h
      obtain ⟨a', ha', rfl, rfl⟩ := h
      exact ⟨[], c, rfl, ha', latest_eq_none hlater⟩

/-- The balances a call observes for a section of a binding. -/
def Call.balancesOf (binding : BindingKey) (credit_section : CreditSection) :
    Call → Option (List AgentCreditBalance)
  | .observe_balances b s balances =>
    if b = binding ∧ s = credit_section then some balances else none
  | _ => none

/-- The list a call observes for a binding, with its count. -/
def Call.listOf (binding : BindingKey) : Call → Option (UInt64 × GrantListSection)
  | .observe_grant_list b count balance =>
    if b = binding then (GrantListSection.from_balance balance).map (fun list => (count, list))
    else none
  | _ => none

theorem stored_of_balancesOf {binding : BindingKey} {credit_section : CreditSection}
    (hsection : credit_section ≠ .GrantList) (c : Call) (value : CachedSection) :
    c.stored = some (toLex (binding, credit_section), value) ↔
      ∃ balances, c.balancesOf binding credit_section = some balances ∧
        value = .Balances (balances.map SectionCache.without_updated_at) := by
  cases c with
  | observe_balances b s balances =>
    by_cases hs : s = .GrantList
    · subst hs
      simp [Call.stored, Call.balancesOf, hsection.symm]
    · by_cases hkey : b = binding ∧ s = credit_section
      · obtain ⟨rfl, rfl⟩ := hkey
        simp [Call.stored, Call.balancesOf, hs, eq_comm]
      · simp only [Call.stored, Call.balancesOf, if_neg hs, if_neg hkey]
        simp only [Option.some.injEq, Prod.mk.injEq, toLex_inj, reduceCtorEq, false_and,
          exists_false, iff_false]
        exact fun h => hkey h.1
  | observe_grant_list b count balance =>
    simp only [Call.stored, Call.balancesOf, Option.map_eq_some_iff, Prod.mk.injEq, toLex_inj,
      reduceCtorEq, false_and, exists_false, iff_false]
    rintro ⟨list, -, ⟨-, rfl⟩, -⟩
    exact hsection rfl
  | resend_balances b s => simp [Call.stored, Call.balancesOf]
  | grant_list_for_count b n => simp [Call.stored, Call.balancesOf]
  | take_diagnostics => simp [Call.stored, Call.balancesOf]

theorem stored_of_listOf (binding : BindingKey) (c : Call) (value : CachedSection) :
    c.stored = some (toLex (binding, .GrantList), value) ↔
      ∃ found, c.listOf binding = some found ∧ value = .GrantList found.1 found.2 := by
  cases c with
  | observe_balances b s balances =>
    by_cases hs : s = .GrantList
    · simp [Call.stored, Call.listOf, hs]
    · simp [Call.stored, Call.listOf, hs]
  | observe_grant_list b count balance =>
    by_cases hb : b = binding
    · subst hb
      cases hlist : GrantListSection.from_balance balance with
      | none => simp [Call.stored, Call.listOf, hlist]
      | some list => simp [Call.stored, Call.listOf, hlist, eq_comm]
    · simp [Call.stored, Call.listOf, hb]
  | resend_balances b s => simp [Call.stored, Call.listOf]
  | grant_list_for_count b n => simp [Call.stored, Call.listOf]
  | take_diagnostics => simp [Call.stored, Call.listOf]

/-- A section that `observed` reads off its calls is cached as its latest observation. -/
theorem cachedAt_latest {α : Type} {observed : Call → Option α} {key : CacheKey}
    {section_of : α → CachedSection} {calls : List Call} (hstores : stores calls < 2 ^ 64)
    (hstored : ∀ c value, c.stored = some (key, value) ↔
      ∃ a, observed c = some a ∧ value = section_of a) :
    (run SectionCache.call {} calls).cachedAt key =
      match latest observed calls with
      | some (a, after) =>
        if othersStored key after < SECTION_CACHE_MAX_ENTRIES then some (section_of a) else none
      | none => none := by
  cases hlatest : latest observed calls with
  | none =>
    apply SectionCache.cachedAt_never_stored hstores
    intro c hc value hvalue
    obtain ⟨a, ha, -⟩ := (hstored c value).mp hvalue
    rw [latest_eq_none hlatest c hc] at ha
    cases ha
  | some found =>
    obtain ⟨a, after⟩ := found
    obtain ⟨before, c, rfl, hc, hafter⟩ := latest_eq_some hlatest
    apply SectionCache.cachedAt_last_stored hstores
    · exact (hstored c _).mpr ⟨a, hc, rfl⟩
    · intro d hd value hvalue
      obtain ⟨later, hlater, -⟩ := (hstored d value).mp hvalue
      rw [hafter d hd] at hlater
      cases hlater

/-! ## What the cache returns -/

theorem resend_balances_eq (self : SectionCache) (binding : BindingKey)
    (credit_section : CreditSection) :
    self.resend_balances binding credit_section =
      match self.cachedAt (toLex (binding, credit_section)) with
      | some (.Balances balances) => some balances
      | _ => none := by
  unfold SectionCache.resend_balances SectionCache.cachedAt
  rcases self.entries.get? (toLex (binding, credit_section)) with _ | ⟨_ | _, seq⟩ <;> rfl

theorem grant_list_for_count_eq (self : SectionCache) (binding : BindingKey) (n : UInt64) :
    self.grant_list_for_count binding n =
      match self.cachedAt (toLex (binding, .GrantList)) with
      | some (.GrantList count list) => if count = n then some list else none
      | _ => none := by
  unfold SectionCache.grant_list_for_count SectionCache.cachedAt
  rcases self.entries.get? (toLex (binding, .GrantList)) with _ | ⟨_ | _, seq⟩ <;> rfl

/-- After any calls the cache is within its bound. As long as they store fewer
than 2^64 sections, each section is read back from the latest observation of
that section of that binding alone, until 64 other sections were stored after
it. No balances are kept under the grant-list section, which holds lists only. -/
theorem the_last_observation_is_kept (calls : List Call) :
    (run SectionCache.call {} calls).entries.size ≤ 64 ∧
      (stores calls < 2 ^ 64 →
      (∀ binding credit_section,
        (run SectionCache.call {} calls).resend_balances binding credit_section =
          if credit_section = .GrantList then none
          else
            match latest (Call.balancesOf binding credit_section) calls with
            | some (balances, after) =>
              if othersStored (toLex (binding, credit_section)) after < 64 then
                some (balances.map SectionCache.without_updated_at)
              else none
            | none => none) ∧
      ∀ binding n,
        (run SectionCache.call {} calls).grant_list_for_count binding n =
          match latest (Call.listOf binding) calls with
          | some ((count, list), after) =>
            if count = n ∧ othersStored (toLex (binding, .GrantList)) after < 64 then some list
            else none
          | none => none) := by
  refine ⟨SectionCache.size_le calls, fun hstores => ⟨?_, ?_⟩⟩
  · intro binding credit_section
    rw [resend_balances_eq]
    by_cases hsection : credit_section = .GrantList
    · subst hsection
      rw [if_pos rfl, cachedAt_latest hstores (stored_of_listOf binding)]
      rcases latest (Call.listOf binding) calls with _ | ⟨⟨count, list⟩, after⟩
      · rfl
      · dsimp only
        split
        · rename_i hfound
          split at hfound <;> cases hfound
        · rfl
    · rw [if_neg hsection, cachedAt_latest hstores (stored_of_balancesOf hsection)]
      rcases latest (Call.balancesOf binding credit_section) calls with _ | ⟨balances, after⟩
      · rfl
      · by_cases hroom :
          othersStored (toLex (binding, credit_section)) after < SECTION_CACHE_MAX_ENTRIES
        · simp only [if_pos hroom]
          exact (if_pos hroom).symm
        · simp only [if_neg hroom]
          exact (if_neg hroom).symm
  · intro binding n
    rw [grant_list_for_count_eq, cachedAt_latest hstores (stored_of_listOf binding)]
    rcases latest (Call.listOf binding) calls with _ | ⟨⟨count, list⟩, after⟩
    · rfl
    · by_cases hroom : othersStored (toLex (binding, .GrantList)) after < SECTION_CACHE_MAX_ENTRIES
      · have hroom' : othersStored (toLex (binding, .GrantList)) after < 64 := hroom
        simp only [if_pos hroom, hroom', and_true]
      · have hroom' : ¬ othersStored (toLex (binding, .GrantList)) after < 64 := hroom
        simp only [if_neg hroom, hroom', and_false, if_false]

/-- The second observation of the section is the one that is sent again. -/
theorem the_last_observation_is_kept_of_two :
    let calls : List Call := [.observe_balances "account-a" .UsageCredits [{ name := "first" }],
      .observe_balances "account-b" .UsageCredits [],
      .observe_balances "account-a" .UsageCredits [{ name := "second", updated_at := some "now" }]]
    stores calls = 3 ∧
      (run SectionCache.call {} calls).resend_balances "account-a" .UsageCredits =
        some [{ name := "second" }] := by
  intro calls
  have hstores : stores calls = 3 := rfl
  exact ⟨hstores, ((the_last_observation_is_kept calls).2 (by rw [hstores]; decide)).1 _ _⟩

/-- Balances observed under the grant-list section are not read back, although
nothing else was stored after them. -/
theorem balances_under_the_grant_list_are_dropped :
    let balances : List AgentCreditBalance := [{ name := "reset_credits" }]
    let calls : List Call := [.observe_balances "account-a" .GrantList balances]
    latest (Call.balancesOf "account-a" .GrantList) calls = some (balances, []) ∧
      othersStored (toLex ("account-a", .GrantList)) [] = 0 ∧
      (run SectionCache.call {} calls).resend_balances "account-a" .GrantList = none := by
  refine ⟨rfl, rfl, rfl⟩

end ottto_service.quota_credit_model
