-- The body of a Claude session that the request-owned emitter reads
-- (snapshots/claude_request_money.rs, body.rs and e2.rs): grains of usage by hour, selectors,
-- origin and account, and how bodies are merged.
import Ottto.SnapshotWire

namespace ottto_service.claude_request_money

open Words usage accumulator

/-! ## Tokens -/

/-- The tokens of one unit or slice. `reasoning` is part of `output`. -/
structure ClaudeMoneyTokens where
  input : UInt64 := 0
  output : UInt64 := 0
  cache_read : UInt64 := 0
  cache_5m : UInt64 := 0
  cache_1h : UInt64 := 0
  unattributed : UInt64 := 0
  reasoning : UInt64 := 0

def ClaudeMoneyTokens.add (self other : ClaudeMoneyTokens) : ClaudeMoneyTokens where
  input := saturating_add self.input other.input
  output := saturating_add self.output other.output
  cache_read := saturating_add self.cache_read other.cache_read
  cache_5m := saturating_add self.cache_5m other.cache_5m
  cache_1h := saturating_add self.cache_1h other.cache_1h
  unattributed := saturating_add self.unattributed other.unattributed
  reasoning := saturating_add self.reasoning other.reasoning

/-! ## Grains -/

/-- `request_usage_origin` of a grain; a transcript grain has none. -/
inductive ClaudeRequestUsageOrigin where
  | TelemetryMatched
  | TelemetryReported
  | TelemetryUnpriced
deriving DecidableEq

/-- A live bucket row: the start of the hour, the model and the pricing selectors. -/
structure ClaudeLiveKey where
  bucket_start : String
  model : String
  selectors : SortedMap String String

structure AuthorityKey where
  login : Option String
  org : Option String
  basis : String
  account_source : Option snapshots.wire.AccountSource
deriving DecidableEq

abbrev AccountPartition : Type := Option AuthorityKey

/-- The key of a grain. -/
structure GrainKey where
  key : ClaudeLiveKey
  origin : Option ClaudeRequestUsageOrigin
  account : AccountPartition

def origin_rank : Option ClaudeRequestUsageOrigin → Nat
  | none => 0
  | some .TelemetryMatched => 1
  | some .TelemetryReported => 2
  | some .TelemetryUnpriced => 3

def source_rank : Option snapshots.wire.AccountSource → Nat
  | none => 0
  | some .CarriedForward => 1
  | some .CarriedBackward => 2

/-- The fields of an account in the order that the derived `Ord` compares them. -/
def AuthorityKey.fields (key : AuthorityKey) :
    WithBot String ×ₗ WithBot String ×ₗ String ×ₗ Nat :=
  toLex (noneFirst key.login, toLex (noneFirst key.org,
    toLex (key.basis, source_rank key.account_source)))

/-- No account comes before every account. -/
def account_rank : AccountPartition → WithBot (WithBot String ×ₗ WithBot String ×ₗ String ×ₗ Nat)
  | none => ⊥
  | some key => key.fields

def GrainKey.fields (self : GrainKey) : String ×ₗ String ×ₗ List (String ×ₗ String) ×ₗ Nat ×ₗ
    WithBot (WithBot String ×ₗ WithBot String ×ₗ String ×ₗ Nat) :=
  toLex (self.key.bucket_start, toLex (self.key.model,
    toLex (self.key.selectors.entries.map toLex,
      toLex (origin_rank self.origin, account_rank self.account))))

theorem origin_rank_injective : Function.Injective origin_rank := by
  intro a b h
  rcases a with _ | _ | _ | _ <;> rcases b with _ | _ | _ | _ <;> simp_all [origin_rank]

theorem source_rank_injective : Function.Injective source_rank := by
  intro a b h
  rcases a with _ | _ | _ <;> rcases b with _ | _ | _ <;> simp_all [source_rank]

theorem AuthorityKey.fields_injective : Function.Injective AuthorityKey.fields := by
  intro a b h
  cases a
  cases b
  simpa [AuthorityKey.fields, noneFirst_injective.eq_iff, source_rank_injective.eq_iff] using h

theorem account_rank_injective : Function.Injective account_rank := by
  intro a b h
  cases a with
  | none =>
    cases b with
    | none => rfl
    | some b => exact absurd h.symm (WithBot.coe_ne_bot)
  | some a =>
    cases b with
    | none => exact absurd h (WithBot.coe_ne_bot)
    | some b => exact congrArg some (AuthorityKey.fields_injective (WithBot.coe_injective h))

theorem GrainKey.fields_injective : Function.Injective GrainKey.fields := by
  rintro ⟨⟨hour, model, selectors⟩, origin, account⟩ ⟨⟨hour', model', selectors'⟩, origin', account'⟩ h
  obtain ⟨hhour, h⟩ := Prod.mk.inj (toLex.injective h)
  obtain ⟨hmodel, h⟩ := Prod.mk.inj (toLex.injective h)
  obtain ⟨hselectors, h⟩ := Prod.mk.inj (toLex.injective h)
  obtain ⟨horigin, haccount⟩ := Prod.mk.inj (toLex.injective h)
  obtain rfl : hour = hour' := hhour
  obtain rfl : model = model' := hmodel
  obtain rfl := SortedMap.ext_entries (List.map_injective_iff.mpr toLex.injective hselectors)
  obtain rfl := origin_rank_injective horigin
  obtain rfl := account_rank_injective haccount
  rfl

instance : LinearOrder GrainKey := LinearOrder.lift' GrainKey.fields GrainKey.fields_injective

/-- One side of a grain slice. -/
structure ClaudeGrainSide where
  tokens : ClaudeMoneyTokens := {}
  requests : UInt64 := 0
  cost_micros : UInt64 := 0
  /-- Contributions without a cost. -/
  unpriced : UInt64 := 0
  contributions : UInt64 := 0
  last_own_at : Option Int := none

/-- The side's own money, when every contribution carries one. -/
def ClaudeGrainSide.cost (self : ClaudeGrainSide) : Option UInt64 :=
  if 0 < self.contributions ∧ self.unpriced = 0 then some self.cost_micros else none

/-! ## Bodies -/

/-- Which placement asked for the missing identity grain. -/
inductive IdentityCaller where
  | Request
  | Carry
  | UnprovenCopy

/-- Where the key or the account of a request was found instead. -/
inductive GrainNearMiss where
  | OtherAccount
  | OtherKey
  | Absent

inductive CertificateFailure where
  | UnplaceableUsage
  | CopyRestoration
  | IdlessRestoration
  | HeldPrefixRemoval
  | AmbiguousDuplicate
  | IdentityGrain (caller : IdentityCaller) (near : GrainNearMiss)
  | IdentityCost
  | IdentityUsage

def CertificateFailure.hold_reason : CertificateFailure → String
  | .UnplaceableUsage => "uncertified_by=unplaceable_usage"
  | .CopyRestoration => "uncertified_by=copy_restoration"
  | .IdlessRestoration => "uncertified_by=idless_restoration"
  | .HeldPrefixRemoval => "uncertified_by=held_prefix_removal"
  | .AmbiguousDuplicate => "uncertified_by=ambiguous_duplicate"
  | .IdentityGrain .Request .OtherAccount => "uncertified_by=identity_grain.request.other_account"
  | .IdentityGrain .Request .OtherKey => "uncertified_by=identity_grain.request.other_key"
  | .IdentityGrain .Request .Absent => "uncertified_by=identity_grain.request.absent"
  | .IdentityGrain .Carry .OtherAccount => "uncertified_by=identity_grain.carry.other_account"
  | .IdentityGrain .Carry .OtherKey => "uncertified_by=identity_grain.carry.other_key"
  | .IdentityGrain .Carry .Absent => "uncertified_by=identity_grain.carry.absent"
  | .IdentityGrain .UnprovenCopy .OtherAccount =>
    "uncertified_by=identity_grain.copy.other_account"
  | .IdentityGrain .UnprovenCopy .OtherKey => "uncertified_by=identity_grain.copy.other_key"
  | .IdentityGrain .UnprovenCopy .Absent => "uncertified_by=identity_grain.copy.absent"
  | .IdentityCost => "uncertified_by=identity_cost"
  | .IdentityUsage => "uncertified_by=identity_usage"

structure ClaudeEntityBody where
  grains : SortedMap GrainKey ClaudeGrainSide := .empty
  bucket_activity : SortedMap String (Int × Int) := .empty
  removed : ClaudeMoneyTokens := {}
  removed_requests : UInt64 := 0
  telemetry_owned_complete : Bool := false
  resolver_conflicts : UInt64 := 0
  held : Bool := false
  certificate_ok : Bool := true
  certificate_failure : Option CertificateFailure := none
  clock_incomplete : Bool := false
  identity_over_cap : Bool := false
  live_maps_initialized : Bool := false
  activity_unix : UInt64 := 0
  activity_nanos : Int := 0

def COPY_UNPROVEN_KEY : String := "__ottto_copy_unproven"

/-- `a.max(b)` of options: nothing is below everything. -/
def later : Option Int → Option Int → Option Int
  | some a, some b => some (max a b)
  | some a, none => some a
  | none, b => b

namespace ClaudeEntityBody

def merge_grain (into grain : ClaudeGrainSide) : ClaudeGrainSide where
  tokens := into.tokens.add grain.tokens
  requests := saturating_add into.requests grain.requests
  cost_micros := saturating_add into.cost_micros grain.cost_micros
  unpriced := saturating_add into.unpriced grain.unpriced
  contributions := saturating_add into.contributions grain.contributions
  last_own_at := later into.last_own_at grain.last_own_at

/-- A grain is merged into the slot of its key. -/
def absorb_grain (grains : SortedMap GrainKey ClaudeGrainSide)
    (entry : GrainKey × ClaudeGrainSide) : SortedMap GrainKey ClaudeGrainSide :=
  grains.insert entry.1 (merge_grain ((grains.get? entry.1).getD {}) entry.2)

def note_activity (self : ClaudeEntityBody) (bucket : String) (first last : Int) :
    ClaudeEntityBody :=
  { self with
    live_maps_initialized := true
    bucket_activity := self.bucket_activity.insert bucket
      (match self.bucket_activity.get? bucket with
        | some bounds => (min bounds.1 first, max bounds.2 last)
        | none => (first, last))
    activity_nanos := max self.activity_nanos last }

/-- Each grain moves to the account that its own is placed at. -/
def map_accounts (self : ClaudeEntityBody) (place : AccountPartition → AccountPartition) :
    ClaudeEntityBody :=
  { self with
    live_maps_initialized := self.live_maps_initialized || !self.grains.isEmpty
    grains := self.grains.entries.foldl (fun grains e =>
      absorb_grain grains ({ e.1 with account := place e.1.account }, e.2)) .empty }

/-- An undecidable session collapses into one account. -/
def repartition (self : ClaudeEntityBody) (account : AccountPartition) : ClaudeEntityBody :=
  self.map_accounts (fun _ => account)

/-- The shares of no account take this one. -/
def inherit_missing (self : ClaudeEntityBody) (account : AccountPartition) : ClaudeEntityBody :=
  if account.isSome && self.grains.keys.any (fun key => key.account.isNone) then
    self.map_accounts (fun own => own.or account)
  else self

def absorb_grains (self other : ClaudeEntityBody) : ClaudeEntityBody :=
  let self := { self with
    live_maps_initialized := self.live_maps_initialized ||
      (!other.grains.isEmpty || !other.bucket_activity.isEmpty)
    grains := other.grains.entries.foldl absorb_grain self.grains }
  other.bucket_activity.entries.foldl
    (fun self e => self.note_activity e.1 e.2.1 e.2.2) self

/-- Path twins of one session sum into the body that is emitted. -/
def sum (self other : ClaudeEntityBody) : ClaudeEntityBody :=
  let self := self.absorb_grains other
  { self with
    removed := self.removed.add other.removed
    removed_requests := saturating_add self.removed_requests other.removed_requests
    resolver_conflicts := saturating_add self.resolver_conflicts other.resolver_conflicts
    held := self.held || other.held
    certificate_ok := self.certificate_ok && other.certificate_ok
    certificate_failure := self.certificate_failure.or other.certificate_failure
    clock_incomplete := self.clock_incomplete || other.clock_incomplete
    identity_over_cap := self.identity_over_cap || other.identity_over_cap
    activity_unix := max self.activity_unix other.activity_unix
    activity_nanos := max self.activity_nanos other.activity_nanos }

end ClaudeEntityBody

/-! ## The counters of a grain -/

def ClaudeMoneyTokens.counter (self : ClaudeMoneyTokens) (requests : UInt64) : Counter → UInt64
  | .input_tokens => self.input
  | .output_tokens => self.output
  | .cache_read_tokens => self.cache_read
  | .cache_creation_5m_tokens => self.cache_5m
  | .cache_creation_1h_tokens => self.cache_1h
  | .reasoning_output_tokens => self.reasoning
  | .unattributed_total_tokens => self.unattributed
  | .request_count => requests

def ClaudeGrainSide.count (self : ClaudeGrainSide) (c : Counter) : Nat :=
  (self.tokens.counter self.requests c).toNat

/-- The sum of a counter over grains. -/
def grains_count (grains : List (GrainKey × ClaudeGrainSide)) (c : Counter) : Nat :=
  (grains.map (fun e => e.2.count c)).sum

theorem merge_grain_count (into grain : ClaudeGrainSide) (c : Counter) :
    (ClaudeEntityBody.merge_grain into grain).count c =
      min (into.count c + grain.count c) (2 ^ 64 - 1) := by
  cases c <;> exact saturating_add_toNat _ _

end ottto_service.claude_request_money
