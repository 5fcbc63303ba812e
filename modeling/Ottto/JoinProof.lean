-- The proof of a joined Codex file group (codex_file_join.rs): the native records of its
-- members as one counter chain, each admission of the parser against them, and the first
-- refusal.
import Ottto.CodexRecord
import Ottto.Runs

namespace ottto_service.codex_file_join

open serde_json json_fields accumulator sources.codex

/-! ## Tokens -/

/-- `[u64; 6]`: input, cached input, cache writes, output, reasoning output and total. -/
structure Tokens where
  values : Fin 6 → UInt64

namespace Tokens

def zero : Tokens := ⟨fun _ => 0⟩

def numbers (self : Tokens) : List Nat := List.ofFn (fun i => (self.values i).toNat)

theorem numbers_injective : Function.Injective numbers := by
  intro a b h
  have hvalues : a.values = b.values := by
    funext i
    exact UInt64.toNat.inj (congrFun (List.ofFn_injective h) i)
  cases a
  exact congrArg Tokens.mk hvalues

instance numberOrder : LinearOrder Tokens := LinearOrder.lift' numbers numbers_injective

def read (value : Value) : Option Tokens := do
  let input_tokens ← (← value.get "input_tokens").as_u64
  let cached_input_tokens ← (← value.get "cached_input_tokens").as_u64
  let cache_write_input_tokens ←
    match value.get "cache_write_input_tokens" with
    | none => some 0
    | some tokens => tokens.as_u64
  let output_tokens ← (← value.get "output_tokens").as_u64
  let reasoning_output_tokens ← (← value.get "reasoning_output_tokens").as_u64
  let total_tokens ← (← value.get "total_tokens").as_u64
  some ⟨![input_tokens, cached_input_tokens, cache_write_input_tokens, output_tokens,
    reasoning_output_tokens, total_tokens]⟩

def before (self delta : Tokens) : Option Tokens :=
  if ∀ i, delta.values i ≤ self.values i then some ⟨fun i => self.values i - delta.values i⟩
  else none

def covers (self other : Tokens) : Bool := decide (∀ i, other.values i ≤ self.values i)

end Tokens

/-! ## Refusals and plans -/

inductive JoinRefusal where
  | Overlap
  | Gap
  | Corrupt
  | CumulativeOnly
  | UiShape
  | UiOnlyMember
  | UiUnmatched
  | UiRepeatUnproven
  | OrdinalRestart
  | HistoryBase
  | AmbiguousPredecessor
  | ForkedFromOtherSession
  | CreatedThreadGroup
  | MixedOrdinal
  | EqualBeforeTie
  | CandidateCopy
  | V2UiOnlyTurn
  | V2UnboundUi
  | MissingPredecessor
deriving DecidableEq

def JoinRefusal.append_curable : JoinRefusal → Bool
  | .Gap | .UiOnlyMember | .UiUnmatched | .UiRepeatUnproven | .V2UiOnlyTurn => true
  | _ => false

/-- The first eight bytes of a SHA-256. -/
def compact (tag value : String) : UInt64 :=
  ((Sha256.digest (tag ++ value).toUTF8.toList).take 8).foldl
    (fun word byte => (word <<< 8) ||| byte.toUInt64) 0

structure MemberPlan where
  first : Option UInt64 := none
  watch : List UInt64 := []
  binding : Option (Nat × UInt64 × UInt64) := none
  stub : Bool := false

structure MemberSeen where
  last : Option UInt64
  end_ : UInt64
  starts : List (UInt64 × UInt64)

/-- The counters are natural numbers: no file holds `2 ^ 63` records. -/
structure MemberState where
  records : Nat := 0
  natives : Nat := 0
  admissions : Nat := 0
  last_after : Option Tokens := none
  balance : SortedMap Tokens Int := .empty
  repeat_ : SortedMap Tokens Nat := .empty
  last_admitted : Option Tokens := none
  native_since_admit : Bool := false
  usage_shaped : Bool := false
  next_ordinal : Option UInt64 := none
  last_ordinal : Option UInt64 := none
  starts : List (UInt64 × UInt64) := []

/-! ## What a record is -/

def is_native (value : Value) : Bool := string_eq_at value ["type"] "token_usage_record"

/-- The turn that a record names. -/
def turn_of (value : Value) : Option String :=
  (string_at value ["turn_context", "payload", "turn_id"]).or
    (string_at value ["payload", "turn_id"])

/-! ## Independent members -/

/-- Code that is not of this component: the times and the texts of values. -/
structure Outside where
  time : Rfc3339
  to_string : Value → String

def independent_member_placement (certified raw : Option (String × String)) :
    Except JoinRefusal (Option (String × String)) :=
  if certified.any (fun certified => some certified ≠ raw) then .error .Overlap else .ok raw

def independent_fork_references_prefix (value header : Value) (owner : String) : Bool :=
  let base := resolve_codex_identity_option (codex_identity_at header ["history_base", "thread_id"])
  string_eq_at header ["history_mode"] "paginated" &&
    (codex_paginated_fork_creation_header value header || base == some owner)

abbrev Placement := Option (String × String)

abbrev Classification := Option String × Option String × Option String

/-! ## The proof -/

structure StreamProof where
  owner : String
  v2 : Bool
  independent : Bool := false
  independent_placement : Option Placement := none
  independent_classification : Option Classification := none
  plans : List MemberPlan
  seen : List MemberSeen := []
  position : Nat := 0
  member : MemberState := {}
  responses : Finset UInt64 := ∅
  ui : Finset UInt64 := ∅
  chain : Tokens := .zero
  refusal : Option (JoinRefusal × Nat) := none
  record_start : UInt64 := 0
  turn : Option UInt64 := none
  native_turns : Finset UInt64 := ∅
  ui_turns : Finset UInt64 := ∅
  unbound_ui : Bool := false

namespace StreamProof

def new (owner : String) (v2 : Bool) (plans : List MemberPlan) : StreamProof :=
  { owner, v2, plans }

def new_independent (owner : String) (members : Nat) : StreamProof :=
  { new owner false (List.replicate members {}) with independent := true }

def refuse (self : StreamProof) (reason : JoinRefusal) : StreamProof :=
  if self.refusal.isNone then { self with refusal := some (reason, self.position) } else self

def set_record_start (self : StreamProof) (offset : UInt64) : StreamProof :=
  { self with record_start := offset }

/-- `checked_add(1)` -/
def successor (n : UInt64) : Option UInt64 := if n.toNat + 1 < 2 ^ 64 then some (n + 1) else none

def bound (seen : MemberSeen) (end_ offset : UInt64) : Bool :=
  seen.starts.contains (end_, offset) ||
    (seen.last.bind successor == some end_ && seen.end_ == offset)

def begin_member (self : StreamProof) (position : Nat) : StreamProof :=
  let self :=
    { self with
      position
      member := { next_ordinal := self.plans[position]?.bind MemberPlan.first }
      turn := none }
  match self.plans[position]?.bind MemberPlan.binding with
  | none => self
  | some (predecessor, end_, offset) =>
    if self.seen[predecessor]?.any (fun seen => bound seen end_ offset) then self
    else self.refuse .HistoryBase

/-! ## A record -/

/-- The header of an independent member. -/
def observe_placement (out : Outside) (self : StreamProof) (value header : Value) :
    Except JoinRefusal StreamProof :=
  if ((header.get "forked_from_id").any (fun v => !v.is_null) &&
        ! independent_fork_references_prefix value header self.owner) ||
      (header.get "subagent_history_start_ordinal").any (fun v => !v.is_null) ||
      string_eq_at header ["thread_source"] "agent_created_thread" then
    .error .ForkedFromOtherSession
  else do
    let placement ← independent_member_placement
      ((codex_creator_header_evidence out.time value header).bind (fun e => do
        some (← e.account_identifier_hash, ← e.provider_workspace_hash)))
      (codex_raw_creator_pair header)
    let classification : Classification :=
      (string_at header ["thread_source"], (header.get "source").map out.to_string,
        ((header.get "forked_from_id").filter (fun v => !v.is_null)).map out.to_string)
    if self.independent_placement.any (fun prior => prior ≠ placement) ||
        self.independent_classification.any (fun prior => prior ≠ classification) then
      .error .Overlap
    else
      .ok
        { self with
          independent_placement := some placement
          independent_classification := some classification }

/-- A header stands on the first record of a member, and nowhere else. -/
def observe_header (out : Outside) (self : StreamProof) (value : Value) (first : Bool) :
    Except JoinRefusal StreamProof :=
  match codex_session_meta_payload value with
  | some header =>
    if !first then .error .Corrupt
    else if resolve_codex_identity_option (codex_identity_at header ["id"]) ≠ some self.owner then
      .error .Overlap
    else if self.independent then self.observe_placement out value header
    else .ok self
  | none => if first then .error .Corrupt else .ok self

def observe_ordinal (self : StreamProof) (value : Value) : Except JoinRefusal StreamProof :=
  match (self.plans[self.position]?.bind MemberPlan.first).isSome, value.get "ordinal" with
  | true, none => .error .Corrupt
  | true, some ordinal =>
    match ordinal.as_u64 with
    | none => .error .Corrupt
    | some ordinal =>
      if some ordinal ≠ self.member.next_ordinal then .error .Corrupt
      else
        let watched := self.plans[self.position]?.any (fun plan => plan.watch.contains ordinal)
        .ok
          { self with
            member :=
              { self.member with
                next_ordinal := successor ordinal
                last_ordinal := some ordinal
                starts :=
                  if watched then self.member.starts ++ [(ordinal, self.record_start)]
                  else self.member.starts } }
  | false, some _ => .error .MixedOrdinal
  | false, none => .ok self

/-- The entry of the balance after a change, dropped when it is zero. -/
def settle (balance : SortedMap Tokens Int) (tokens : Tokens) (change : Int) :
    SortedMap Tokens Int :=
  let settled := (balance.get? tokens).getD 0 + change
  if settled = 0 then balance.erase tokens else balance.insert tokens settled

def require (condition : Bool) (reason : JoinRefusal) : Except JoinRefusal Unit :=
  if condition then .ok () else .error reason

/-- A counter that is not monotone inside one member is a reset. -/
def follow_chain (self : StreamProof) (before : Tokens) : Except JoinRefusal Unit :=
  match self.member.last_after with
  | some previous => require (previous = before) .Gap
  | none =>
    require (before = self.chain) (if before.covers self.chain then .Gap else .Overlap)

def observe_native (self : StreamProof) (value : Value) : Except JoinRefusal StreamProof := do
  let payload ← (value.get "payload").elim (.error .Corrupt) .ok
  let thread ← ((payload.get "thread_id").bind Value.as_str).elim (.error .Corrupt) .ok
  require (resolve_codex_identity thread = self.owner) .Overlap
  let response ← (((payload.get "response_id").bind Value.as_str).filter
    (fun response => response ≠ "" ∧ response.utf8ByteSize ≤ 256)).elim (.error .Corrupt) .ok
  let usage ← ((payload.get "usage").bind Tokens.read).elim (.error .Corrupt) .ok
  let after ← ((payload.get "thread_token_usage").bind Tokens.read).elim (.error .Corrupt) .ok
  let before ← (after.before usage).elim (.error .Corrupt) .ok
  require (compact "r:" response ∉ self.responses) .Overlap
  self.follow_chain before
  .ok
    { self with
      responses := insert (compact "r:" response) self.responses
      native_turns :=
        match self.turn with
        | some turn => insert turn self.native_turns
        | none => self.native_turns
      member :=
        { self.member with
          last_after := some after
          natives := self.member.natives + 1
          native_since_admit := true
          balance := settle self.member.balance usage 1 } }

def running_turn (self : StreamProof) (value : Value) : Option UInt64 :=
  match turn_of value with
  | some turn => some (compact "t:" turn)
  | none => self.turn

def observe_usage (self : StreamProof) (value : Value) : Except JoinRefusal StreamProof :=
  let shaped := is_native value || (codex_total_usage value).any (fun usage => !usage.is_zero) ||
    (codex_last_usage value).any (fun usage => !usage.is_zero)
  let self :=
    { self with
      turn := self.running_turn value
      member := { self.member with usage_shaped := self.member.usage_shaped || shaped } }
  if is_native value then self.observe_native value else .ok self

def observe_record (out : Outside) (self : StreamProof) (value : Value) :
    Except JoinRefusal StreamProof := do
  let first := self.member.records = 0
  let self :=
    { self with member := { self.member with records := self.member.records + 1 } }
  let self ← self.observe_header out value first
  if self.independent then .ok self
  else do
    let self ← self.observe_ordinal value
    self.observe_usage value

/-- What a refused record changed before its refusal is never read again. -/
def settle_with (self : StreamProof) : Except JoinRefusal StreamProof → StreamProof
  | .ok next => next
  | .error reason => self.refuse reason

def observe (out : Outside) (self : StreamProof) (value : Value) : StreamProof :=
  if self.refusal.isSome then self else self.settle_with (self.observe_record out value)

/-! ## An admission -/

def decide_v2 (self : StreamProof) (v2 : Bool) : StreamProof := { self with v2 }

def admit_bound (self : StreamProof) (turn : Option String) : StreamProof :=
  match turn with
  | some turn => { self with ui_turns := insert (compact "t:" turn) self.ui_turns }
  | none => { self with unbound_ui := true }

def admit_legacy (self : StreamProof) (tokens : Tokens) : StreamProof :=
  let repeated := self.member.last_admitted = some tokens ∧ !self.member.native_since_admit
  { self with
    member :=
      { self.member with
        balance := settle self.member.balance tokens (-1)
        repeat_ :=
          if repeated then
            self.member.repeat_.insert tokens ((self.member.repeat_.get? tokens).getD 0 + 1)
          else self.member.repeat_
        last_admitted := some tokens
        native_since_admit := false } }

/-- The source's name for it is a tactic of Lean. -/
def admit_usage (self : StreamProof) (value : Value) (from_last : Bool)
    (identity turn : Option String) : Except JoinRefusal StreamProof :=
  let self :=
    { self with member := { self.member with admissions := self.member.admissions + 1 } }
  if !from_last then .error .CumulativeOnly
  else
    match identity with
    | none => .error .UiShape
    | some identity =>
      if compact "u:" identity ∈ self.ui then .error .Overlap
      else
        let self := { self with ui := insert (compact "u:" identity) self.ui }
        if self.independent then if self.v2 then .error .V2UnboundUi else .ok self
        else
          match (codex_last_usage_root value).bind Tokens.read with
          | none => .error .UiShape
          | some tokens =>
            if self.v2 then .ok (self.admit_bound turn) else .ok (self.admit_legacy tokens)

def admitted_usage (self : StreamProof) (value : Value) (from_last : Bool)
    (identity turn : Option String) : StreamProof :=
  if self.refusal.isSome then self
  else self.settle_with (self.admit_usage value from_last identity turn)

/-! ## The end of a member and of the group -/

def ui_refusal (member : MemberState) : JoinRefusal :=
  if member.natives = 0 then .UiOnlyMember
  else if (member.balance.entries.filter (fun e => e.2 < 0)).all (fun e =>
      e.2.natAbs ≤ (member.repeat_.get? e.1).getD 0) then .UiRepeatUnproven
  else .UiUnmatched

def end_member (self : StreamProof) (end_ : UInt64) : StreamProof :=
  if self.independent then self
  else if self.refusal.isSome then self
  else
    let member := self.member
    let self := { self with member := {} }
    let stub := self.plans[self.position]?.any MemberPlan.stub
    if stub && (member.usage_shaped || 0 < member.natives || 0 < member.admissions) then
      self.refuse .OrdinalRestart
    else if !self.v2 && member.balance.values.any (fun balance => balance < 0) then
      self.refuse (ui_refusal member)
    else
      { self with
        chain := member.last_after.getD self.chain
        seen := self.seen ++ [{ last := member.last_ordinal, end_, starts := member.starts }] }

def finish_group (self : StreamProof) : StreamProof :=
  if self.refusal.isSome ∨ !self.v2 then self
  else if self.unbound_ui then self.refuse .V2UnboundUi
  else if ¬ self.ui_turns ⊆ self.native_turns then self.refuse .V2UiOnlyTurn
  else self

end StreamProof

/-! ## The replay of a group -/

/-- One call of the replay: a record at its offset, or an admission of the parser with the
counting version that it was made under. -/
inductive Event where
  | record (value : Value) (offset : UInt64)
  | admission (value : Value) (from_last : Bool) (identity turn : Option String) (v2 : Bool)

/-- One file of the group: its calls, and what its end is read under. -/
structure Member where
  events : List Event
  end_ : UInt64
  v2 : Bool

def StreamProof.step (out : Outside) (self : StreamProof) : Event → StreamProof
  | .record value offset => (self.set_record_start offset).observe out value
  | .admission value from_last identity turn v2 =>
    (self.decide_v2 v2).admitted_usage value from_last identity turn

/-- The state of the proof before the member's end. -/
def StreamProof.stream (out : Outside) (self : StreamProof) (position : Nat)
    (events : List Event) : StreamProof :=
  run (StreamProof.step out) (self.begin_member position) events

def StreamProof.close (self : StreamProof) (member : Member) : StreamProof :=
  (self.decide_v2 member.v2).end_member member.end_

/-- The members from canonical position `position` on. -/
def StreamProof.members (out : Outside) (self : StreamProof) (position : Nat) :
    List Member → StreamProof
  | [] => self
  | member :: rest =>
    ((self.stream out position member.events).close member).members out (position + 1) rest

def StreamProof.replay (out : Outside) (self : StreamProof) (members : List Member) : StreamProof :=
  (self.members out 0 members).finish_group

end ottto_service.codex_file_join
