-- The requests of an item grouped by hour, row and key, and the current account and the account
-- history shown for them (snapshots/claude_request_identity.rs, `Grouping` and `account_display`).
import Ottto.LatestRequests

open Words

namespace ottto_service.snapshots.claude_request_identity

open usage accumulator
open claude_request_money (AuthorityKey AccountPartition account_rank account_rank_injective)

/-! ## Amounts -/

/-- The five money fields of a row. -/
inductive Money
  | total
  | input
  | output
  | cache_read
  | cache_creation
deriving DecidableEq

instance : Fintype Money where
  elems := {.total, .input, .output, .cache_read, .cache_creation}
  complete := by intro m; cases m <;> decide

def usage_cost (usage : UsageTotals) : Money → Option (BitVec 128)
  | .total => usage.costs.total
  | .input => usage.costs.input
  | .output => usage.costs.output
  | .cache_read => usage.costs.cache_read
  | .cache_creation => usage.costs.cache_creation

/-- An array of results, when none of them is a failure. -/
def all_some {ι α : Type} [Fintype ι] [Inhabited α] (results : ι → Option α) : Option (ι → α) :=
  if ∀ i, (results i).isSome then some (fun i => (results i).getD default) else none

def later (a b : Option Int) : Option Int :=
  match a, b with
  | some a, some b => some (max a b)
  | some a, none => some a
  | none, b => b

structure Amounts where
  counts : Counter → UInt64 := fun _ => 0
  costs : Money → Option (BitVec 128) := fun _ => none
  observed : Bool := false
  /-- Observed but unreported or partial money. -/
  poisoned : Money → Bool := fun _ => false
  /-- Some request carried no observed money at all. -/
  cost_missing : Bool := false
  last_at : Option Int := none

/-- One money field of a row after one of a request. -/
def add_cost (reported : Bool) (cost value : Option (BitVec 128)) : Option (Option (BitVec 128)) :=
  match value with
  | some value =>
    if reported then (checked_add128 (cost.getD 0) value).map some else some cost
  | none => some cost

namespace Amounts

/-- `none` where a count or a cost passes its word; what a failed add leaves is not read again. -/
def add (self : Amounts) (usage : UsageTotals) : Option Amounts := do
  let counts ← all_some (fun c => checked_add (self.counts c) (usage.counter c))
  if !usage.costs.observed then
    some { self with counts, cost_missing := true }
  else
    let costs ← all_some
      (fun m => add_cost usage.costs.reported (self.costs m) (usage_cost usage m))
    some
      { self with
        counts, costs
        observed := true
        poisoned := fun m =>
          self.poisoned m || !(usage.costs.reported && (usage_cost usage m).isSome) }

/-- `counts == [0; 8]`. -/
def is_unused (self : Amounts) : Bool := decide (∀ c, self.counts c = 0)

end Amounts

/-! ## Groups -/

inductive Refusal
  | ConflictingDuplicate
  | ForeignOwner
  | InvalidEvidence
  | ContradictoryOrg
  | BadClock
  | UntrustedFlip
  | IncompleteEvidence

inductive IdentityRef
  | Tagged (key : AuthorityKey)
  | Missing
  | Refused (refusal : Refusal)

inductive Ineligible
  | RowsNotReproduced
  | MoneyNotMicroExact

def MAX_AUTHORITY_KEYS : Nat := 32

/-- Between 8 and 128 lowercase hexadecimal digits. -/
def wire_login_is_valid (login : String) : Bool :=
  decide (8 ≤ login.utf8ByteSize) && decide (login.utf8ByteSize ≤ 128) &&
    login.toList.all (fun c => c.isDigit || (decide ('a' ≤ c) && decide (c ≤ 'f')))

scoped instance partitionOrder : LinearOrder AccountPartition :=
  LinearOrder.lift' account_rank account_rank_injective

structure RowGroup where
  total : Amounts := {}
  by_key : SortedMap AccountPartition Amounts := .empty
  refused : Bool := false
  truncated : Bool := false

/-- The keys of a row. -/
def RowGroup.keys (self : RowGroup) : List AuthorityKey := self.by_key.keys.filterMap id

structure Grouping where
  groups : SortedMap String (SortedMap RowKey RowGroup) := .empty
  group_count : Nat := 0
  max_groups : Nat
  keys : Finset AuthorityKey := ∅
  keys_over_cap : Bool := false
  failed : Option Ineligible := none
  latest : LatestRequests := {}

/-- The key that a request is counted under, with the row it is counted in. -/
def RowGroup.admit (self : RowGroup) (identity : IdentityRef) : AccountPartition × RowGroup :=
  match identity with
  | .Tagged key =>
    -- A login that is not lowercase hexadecimal is refused, never changed.
    if !key.login.all wire_login_is_valid then (none, { self with refused := true })
    else if key ∈ self.keys ∨ self.keys.length < MAX_AUTHORITY_KEYS then (some key, self)
    else (none, { self with truncated := true, refused := true })
  | .Missing => (none, self)
  | .Refused _ => (none, { self with refused := true })

namespace Grouping

def new (max_groups : Nat) : Grouping := { max_groups }

def get (self : Grouping) (bucket_start : String) (row_key : RowKey) : Option RowGroup :=
  (self.groups.get? bucket_start).bind (fun rows => rows.get? row_key)

def put (self : Grouping) (bucket_start : String) (row_key : RowKey) (group : RowGroup) : Grouping :=
  { self with
    groups := self.groups.insert bucket_start
      (((self.groups.get? bucket_start).getD .empty).insert row_key group) }

def fail (self : Grouping) : Grouping := { self with failed := some .RowsNotReproduced }

/-- The row that a request is counted in, if there is room for it. -/
def ensure (self : Grouping) (bucket_start : String) (row_key : RowKey) :
    Option (RowGroup × Grouping) :=
  match self.get bucket_start row_key with
  | some group => some (group, self)
  | none =>
    if self.group_count = self.max_groups then none
    else some ({}, ({ self with group_count := self.group_count + 1 }).put bucket_start row_key {})

/-- The keys of the whole item, up to the cap. -/
def note_key (self : Grouping) (identity : IdentityRef) : Grouping :=
  match identity with
  | .Tagged key =>
    if !key.login.all wire_login_is_valid || self.keys_over_cap || decide (key ∈ self.keys) then self
    else if self.keys.card = MAX_AUTHORITY_KEYS then { self with keys_over_cap := true }
    else { self with keys := insert key self.keys }
  | _ => self

/-- A time that does not parse leaves the requests without an order. -/
def note_unread (self : Grouping) (unread : Bool) : Grouping :=
  { self with latest := { self.latest with unordered := self.latest.unordered || unread } }

variable (time : Rfc3339)

def add_at (self : Grouping) (bucket_start : String) (row_key : RowKey) (usage : UsageTotals)
    (identity : IdentityRef) (transcript_at : Option String) : Grouping :=
  if self.failed.isSome then self
  else
    let instant := transcript_at.bind time.parse
    let self := self.note_unread (transcript_at.isSome && instant.isNone)
    match self.ensure bucket_start row_key with
    | none => self.fail
    | some (group, self) =>
      match group.total.add usage with
      | none => self.fail
      | some total =>
        let self := self.note_key identity
        let (key, group) :=
          RowGroup.admit
            { group with total := { total with last_at := later total.last_at instant } } identity
        match ((group.by_key.get? key).getD {}).add usage with
        | none => (self.put bucket_start row_key group).fail
        | some amounts =>
          let amounts := { amounts with last_at := later amounts.last_at instant }
          let self :=
            self.put bucket_start row_key { group with by_key := group.by_key.insert key amounts }
          match instant with
          | none => self
          | some instant =>
            { self with latest := self.latest.note instant bucket_start row_key key }

def rows (self : Grouping) : List (RowKey × RowGroup) :=
  self.groups.values.flatMap (fun rows => rows.entries)

end Grouping

/-! ## The account display -/

/-- An account, a workspace and a subscription. -/
structure AccountTriple where
  account : Option String
  organization : Option String
  subscription : Option String
deriving DecidableEq

def AccountTriple.fields (self : AccountTriple) : WithBot String ×ₗ WithBot String ×ₗ WithBot String :=
  toLex (noneFirst self.account, toLex (noneFirst self.organization, noneFirst self.subscription))

theorem AccountTriple.fields_injective : Function.Injective AccountTriple.fields := by
  intro a b h
  cases a
  cases b
  simpa [AccountTriple.fields, noneFirst_injective.eq_iff] using h

instance : LinearOrder AccountTriple :=
  LinearOrder.lift' AccountTriple.fields AccountTriple.fields_injective

def account_triple (key : AccountPartition) (row_key : RowKey) : AccountTriple where
  account := key.bind (fun key => key.login)
  organization := key.bind (fun key => key.org)
  subscription := row_key.subscription_product

structure ActiveSessionCurrentAccount where
  status : String
  account_identifier_hash : Option String
  organization_identifier_hash : Option String
  subscription_product : Option String
  latest_request_at : Option String
  unknown_reason : Option String

structure ActiveSessionAccountUse where
  account_identifier_hash : Option String
  organization_identifier_hash : Option String
  subscription_product : Option String
  input_tokens : UInt64
  output_tokens : UInt64
  cache_read_tokens : UInt64
  cache_creation_5m_tokens : UInt64
  cache_creation_1h_tokens : UInt64
  request_count : UInt64
  last_used_at : Option String
  current : Bool

structure AccountDisplay where
  current : ActiveSessionCurrentAccount
  history : List ActiveSessionAccountUse

def CURRENT_KNOWN : String := "known"
def CURRENT_UNKNOWN : String := "unknown"
def LATEST_UNIDENTIFIED : String := "latest_request_unidentified"
def LATEST_CONFLICTING : String := "conflicting_latest_requests"
def ORDER_UNAVAILABLE : String := "request_order_unavailable"
def IDENTITY_WITHHELD : String := "identity_withheld"

namespace Grouping

/-- The uses of each account, workspace and subscription. -/
def uses (grouping : Grouping) (withheld : Bool) :
    SortedMap AccountTriple ((Counter → UInt64) × Option Int) :=
  let entries := grouping.rows.flatMap (fun row =>
    (if withheld then [(none, row.2.total)] else row.2.by_key.entries).map
      (fun entry => (account_triple entry.1 row.1, entry.2)))
  entries.foldl (fun uses entry =>
    if entry.2.is_unused then uses
    else
      let (counts, last_at) := (uses.get? entry.1).getD (fun _ => 0, none)
      uses.insert entry.1
        (fun c => saturating_add (counts c) (entry.2.counts c), later last_at entry.2.last_at)) .empty

/-- The newest request's row still carries its key. -/
def carries (grouping : Grouping) (tie : Tie) (key : AuthorityKey) : Bool :=
  (((grouping.get tie.1 tie.2.1).bind (fun group => group.by_key.get? (some key))).any
    (fun amounts => !amounts.is_unused))

def newest_triple (grouping : Grouping) (tie : Tie) : AccountTriple :=
  account_triple (tie.2.2.filter (grouping.carries tie)) tie.2.1

def newest_triples (grouping : Grouping) : SortedMap AccountTriple Unit :=
  grouping.latest.ties.foldl (fun triples tie => triples.insert (grouping.newest_triple tie) ()) .empty

def current_account (grouping : Grouping) (withheld : Bool) : Except String AccountTriple :=
  if withheld then .error IDENTITY_WITHHELD
  else if grouping.latest.unordered || grouping.latest.at_instant.isNone then .error ORDER_UNAVAILABLE
  else if grouping.latest.ties_overflowed then .error LATEST_CONFLICTING
  else if grouping.newest_triples.keys.any (fun triple => triple.account.isNone) then
    .error LATEST_UNIDENTIFIED
  else
    match grouping.newest_triples.keys with
    | [triple] => .ok triple
    | _ => .error LATEST_CONFLICTING

end Grouping

variable (time : Rfc3339)

def display_time (instant : Option Int) : Option String := instant.bind time.format

def shown_account (latest_request_at : Option String) (current : Except String AccountTriple) :
    ActiveSessionCurrentAccount :=
  match current with
  | .ok triple =>
    { status := CURRENT_KNOWN
      account_identifier_hash := triple.account
      organization_identifier_hash := triple.organization
      subscription_product := triple.subscription
      latest_request_at
      unknown_reason := none }
  | .error reason =>
    { status := CURRENT_UNKNOWN
      account_identifier_hash := none
      organization_identifier_hash := none
      subscription_product := none
      latest_request_at
      unknown_reason := some reason }

def shown_use (current : Except String AccountTriple)
    (used : AccountTriple × (Counter → UInt64) × Option Int) : ActiveSessionAccountUse where
  account_identifier_hash := used.1.account
  organization_identifier_hash := used.1.organization
  subscription_product := used.1.subscription
  input_tokens := used.2.1 .input_tokens
  output_tokens := used.2.1 .output_tokens
  cache_read_tokens := used.2.1 .cache_read_tokens
  cache_creation_5m_tokens := used.2.1 .cache_creation_5m_tokens
  cache_creation_1h_tokens := used.2.1 .cache_creation_1h_tokens
  request_count := used.2.1 .request_count
  last_used_at := display_time time used.2.2
  current := decide (current.toOption = some used.1)

/-- The newest use first, uses without a time last. -/
def newest_first (left right : Option Int) : Bool :=
  match left, right with
  | some left, some right => decide (right ≤ left)
  | some _, none => true
  | none, some _ => false
  | none, none => true

def account_display (grouping : Grouping) (withheld : Bool) : AccountDisplay where
  current := shown_account (display_time time grouping.latest.at_instant)
    (grouping.current_account withheld)
  history := ((grouping.uses withheld).entries.insertionSort
    (fun left right => newest_first left.2.2 right.2.2 = true)).map
      (shown_use time (grouping.current_account withheld))

end ottto_service.snapshots.claude_request_identity
