-- The responses of one Claude file that are held as a copy: what reading them does to the fold, and
-- the ranges of their sequence numbers (snapshots/claude_request_money/e2.rs).
import Ottto.CopyRemovals
import Ottto.FileFold
import Ottto.Ranges

namespace ottto_service.claude_context_file_birth

inductive ClaudeBirthScope where
  | NotObserved
  | Subagent
  | RootUnknownBirth
  | Root (birth : Int)

structure ClaudeFileBirth where
  scope : ClaudeBirthScope := .NotObserved

/-- `birth.checked_sub(slack)` is over `i128`. -/
def before_birth (at_ birth slack : Int) : Option Bool :=
  if -(2 ^ 127) ≤ birth - slack ∧ birth - slack < 2 ^ 127 then some (decide (at_ < birth - slack))
  else none

namespace ClaudeFileBirth

def copied_with_slack (self : ClaudeFileBirth) (at_ : Option Int) (slack : Int) : Option Bool :=
  match self.scope with
  | .Root birth => at_.bind (fun at_ => before_birth at_ birth slack)
  | _ => none

def birth_nanos (self : ClaudeFileBirth) : Option Int :=
  match self.scope with
  | .Root birth => some birth
  | _ => none

end ClaudeFileBirth

end ottto_service.claude_context_file_birth

namespace ottto_service.claude_request_money

open Words usage accumulator claude_context_file_birth List Ranges UInt64
open scoped claude_copy_removals

def SLACK : Int := 2000000000

/-! ## Grains -/

def ClaudeMoneyTokens.from_usage (usage : UsageTotals) : ClaudeMoneyTokens where
  input := usage.input_tokens
  output := usage.output_tokens
  cache_read := usage.cache_read_tokens
  cache_5m := usage.cache_creation_5m_tokens
  cache_1h := usage.cache_creation_1h_tokens
  unattributed := usage.unattributed_total_tokens
  reasoning := usage.reasoning_output_tokens

def ClaudeGrainSide.add (self : ClaudeGrainSide) (tokens : ClaudeMoneyTokens) (requests : UInt64)
    (cost : Option UInt64) : ClaudeGrainSide where
  tokens := self.tokens.add tokens
  requests := saturating_add self.requests requests
  cost_micros := saturating_add self.cost_micros (cost.getD 0)
  unpriced := if cost.isNone then self.unpriced + 1 else self.unpriced
  contributions := self.contributions + 1
  last_own_at := self.last_own_at

namespace ClaudeEntityBody

/-- The first failure stays. -/
def fail_certificate (self : ClaudeEntityBody) (reason : CertificateFailure) : ClaudeEntityBody :=
  { self with
    certificate_ok := false
    certificate_failure := self.certificate_failure.or (some reason) }

def add (self : ClaudeEntityBody) (key : ClaudeLiveKey) (tokens : ClaudeMoneyTokens)
    (requests : UInt64) (cost : Option UInt64) (origin : Option ClaudeRequestUsageOrigin)
    (at_ : Option Int) (account : AccountPartition) : ClaudeEntityBody :=
  let self := { self with live_maps_initialized := true }
  let self := match at_ with
    | some at_ => self.note_activity key.bucket_start at_ at_
    | none => self
  let slot : GrainKey := { key, origin, account }
  let grain := ((self.grains.get? slot).getD {}).add tokens requests cost
  { self with
    grains := self.grains.insert slot { grain with last_own_at := later grain.last_own_at at_ } }

end ClaudeEntityBody

/-- A native placement as the key of a grain, with the billing fields and the effort that the
literal emitter hoists. -/
def live_key (model bucket : String) (context : SortedMap String String) (row_key : RowKey)
    (effort : Option String) : ClaudeLiveKey :=
  let context := row_key.billing_fields.foldl (fun context field =>
    match field.2 with
    | some value => context.insert field.1 value
    | none => context) context
  { bucket_start := bucket
    model
    selectors := match effort with
      | some effort => context.insert "reasoning_effort" effort
      | none => context }

/-! ## The runs of the markers -/

/-- `split` is not read here. -/
structure AccountRun where
  position : UInt64
  account : AccountPartition
  /-- The first usage after the marker, and whether it is a copy. -/
  copied : Option (UInt64 × Bool) := none

/-- The accounts of a file with the runs of its markers. -/
structure ReadAccounts extends RequestAccounts where
  runs : List AccountRun := []
  first_retained : Option UInt64 := none

namespace ReadAccounts

/-- The runs up to a response. -/
def runs_to (self : ReadAccounts) (sequence : UInt64) : List AccountRun :=
  self.runs.takeWhile (fun run => decide (run.position ≤ sequence))

def account (self : ReadAccounts) (sequence : UInt64) : AccountPartition :=
  let fallback := if self.root_fallback_pending then none else self.fallback
  if self.unhealthy_no_fallback then none
  else if self.subagent then self.starting.or fallback
  else (((self.runs_to sequence).reverse.findSome? (fun run => run.account)).or self.starting).or
    fallback

/-- The runs that no usage followed yet, as far as the response, take it. -/
def observe (self : ReadAccounts) (sequence : UInt64) (copied : Bool) : ReadAccounts :=
  let noted := self.runs.takeWhile (fun run => run.copied.isSome)
  let open_runs := self.runs.dropWhile (fun run => run.copied.isSome)
  let reached := open_runs.takeWhile (fun run => decide (run.position ≤ sequence))
  { self with
    runs := noted ++ reached.map (fun run => { run with copied := some (sequence, copied) }) ++
      open_runs.drop reached.length
    first_retained := if copied then self.first_retained else self.first_retained.or (some sequence) }

/-- The marker that governs a response, when it is one of a copied request. -/
def copied_marker_position (self : ReadAccounts) (sequence : UInt64) : Option UInt64 :=
  let runs := self.runs_to sequence
  ((runs.reverse.find? (fun run => run.account.isSome)).filter
    (fun run => run.copied.any (fun copied => copied.2))).bind
      (fun _ => runs.getLast?.map (fun run => run.position))

end ReadAccounts

/-! ## Reading a response -/

/-- A fold while its file is read: its own money with what is staged until the copy is decided. -/
structure ReadFold where
  entity : ClaudeEntityBody := {}
  money_birth : ClaudeFileBirth := {}
  accounts : Option ReadAccounts := none
  own_requests : UInt64 := 0
  model_fallbacks : SortedMap UInt64 String := .empty
  /-- Held responses, as half-open sequence ranges. -/
  skipped : List (UInt64 × UInt64) := []
  copy : Option ClaudeEntityBody := none
  idless_copy : Option ClaudeEntityBody := none
  idless_inherited : Option (SortedMap UInt64 ClaudeEntityBody) := none
  first_idless : Option UInt64 := none
  prefix_inherited : Option (SortedMap UInt64 ClaudeEntityBody) := none
  copied : UInt64 := 0
  first_own : Option UInt64 := none
  first_own_at : Option Int := none
  disclosed : UInt64 := 0
  responses : UInt64 := 0

/-- What the native finalizer knows of one response. -/
structure Response where
  sequence : UInt64
  has_request_id : Bool
  usage : UsageTotals
  at_ : Option Int
  placed : Option PlacedClaudeUsage
  effort : Option String

namespace ReadFold

def disclose (self : ReadFold) (responses : UInt64) : ReadFold :=
  { self with disclosed := self.disclosed + responses }

/-- The response is of the copied prefix: unknown without a birth or a time. -/
def is_copied (self : ReadFold) (response : Response) : Option Bool :=
  self.money_birth.copied_with_slack response.at_ SLACK

def note_response (self : ReadFold) (response : Response) : ReadFold :=
  let self := { self with responses := self.responses + 1 }
  if self.is_copied response = some false ∧ self.first_own = none then
    { self with first_own := some response.sequence, first_own_at := response.at_ }
  else self

def note_model (self : ReadFold) (sequence : UInt64) (placed : PlacedClaudeUsage) : ReadFold :=
  if placed.fell_back then
    { self with model_fallbacks := self.model_fallbacks.insert sequence placed.model }
  else self

/-- The accounts see a placed response, then say its own account. -/
def note_account (self : ReadFold) (response : Response) : ReadFold × AccountPartition :=
  let accounts := self.accounts.map (fun accounts =>
    accounts.observe response.sequence (self.is_copied response == some true))
  let first_idless :=
    if response.has_request_id then self.first_idless else self.first_idless.or (some response.sequence)
  ({ self with accounts, first_idless },
    accounts.bind (fun accounts => accounts.account response.sequence))

/-- A copy without a request id waits under its marker. -/
def stage_idless (self : ReadFold) (position : Option UInt64)
    (add : ClaudeEntityBody → ClaudeEntityBody) : ReadFold :=
  match position with
  | some position =>
    let staged := self.idless_inherited.getD .empty
    { self with
      idless_inherited :=
        some (staged.insert position (add ((staged.get? position).getD {}))) }
  | none => { self with idless_copy := some (add (self.idless_copy.getD {})) }

def stage_prefix (self : ReadFold) (position : Option UInt64)
    (add : ClaudeEntityBody → ClaudeEntityBody) : ReadFold :=
  match position with
  | some position =>
    let staged := self.prefix_inherited.getD .empty
    { self with
      prefix_inherited :=
        some (staged.insert position (add ((staged.get? position).getD {}))) }
  | none => { self with entity := add self.entity }

/-- The last range takes the next sequence number, or a new range opens. -/
def append_skipped (skipped : List (UInt64 × UInt64)) (sequence : UInt64) : List (UInt64 × UInt64) :=
  Ranges.push skipped sequence (sequence + 1)

def marker_position (self : ReadFold) (sequence : UInt64) : Option UInt64 :=
  self.accounts.bind (fun accounts => accounts.copied_marker_position sequence)

/-- A response of the copied prefix is removed, and with a request id it is skipped. -/
def observe_copy (self : ReadFold) (response : Response)
    (add : ClaudeEntityBody → ClaudeEntityBody) : ReadFold :=
  let self := { self with
    copied := self.copied + 1
    entity := { self.entity with
      removed := self.entity.removed.add (.from_usage response.usage)
      removed_requests := self.entity.removed_requests + response.usage.request_count } }
  if response.has_request_id then
    { self with
      skipped := append_skipped self.skipped response.sequence
      copy := some (add (self.copy.getD {})) }
  else self.stage_idless (self.marker_position response.sequence) add

def observe_placed (self : ReadFold) (response : Response) (placed : PlacedClaudeUsage)
    (placement : ClaudeRowPlacement) : ReadFold :=
  let key := live_key placed.model placement.bucket placement.reduced_context placement.row_key
    response.effort
  let (self, account) := self.note_account response
  let tokens := ClaudeMoneyTokens.from_usage response.usage
  let requests := response.usage.request_count
  let add := fun into : ClaudeEntityBody =>
    into.add key tokens requests none none response.at_ account
  match self.is_copied response with
  | some true => self.observe_copy response add
  | some false =>
    let self := { self with own_requests := self.own_requests + requests }
    self.stage_prefix (self.marker_position response.sequence) add
  | none =>
    let self := if self.money_birth.birth_nanos.isSome then self.disclose 1 else self
    self.stage_prefix (self.marker_position response.sequence) add

def observe_response (self : ReadFold) (response : Response) : ReadFold :=
  let self := self.note_response response
  match response.placed with
  | none => self
  | some placed =>
    let self := self.note_model response.sequence placed
    match placed.placement with
    | none =>
      { self with entity := self.entity.fail_certificate .UnplaceableUsage }.disclose 1
    | some placement => self.observe_placed response placed placement

/-! ## The skipped ranges -/

def is_skipped (self : ReadFold) (sequence : UInt64) : Bool :=
  ((self.skipped.dropWhile (fun range => decide (range.2 ≤ sequence))).head?).any
    (fun range => decide (range.1 ≤ sequence))

def skip (self : ReadFold) (sequence : UInt64) : ReadFold :=
  let (before, after) := split_at self.skipped sequence
  { self with skipped := before ++ (sequence, sequence + 1) :: after }

def unskip (self : ReadFold) (sequence : UInt64) : ReadFold :=
  let (before, after) := split_at self.skipped sequence
  match after with
  | [] => self
  | (start, stop) :: after =>
    if sequence < start then self
    else
      match decide (start < sequence), decide (sequence + 1 < stop) with
      | false, false => { self with skipped := before ++ after }
      | true, false => { self with skipped := before ++ (start, sequence) :: after }
      | false, true => { self with skipped := before ++ (sequence + 1, stop) :: after }
      | true, true =>
        { self with skipped := before ++ (start, sequence) :: (sequence + 1, stop) :: after }

/-! ## What a response does to the ranges -/

variable {fold : ReadFold} {response : Response} {sequence : UInt64}

/-- The response is held: it is a copy that has a request id and a place. -/
def appends (self : ReadFold) (response : Response) : Prop :=
  self.is_copied response = some true ∧ response.has_request_id = true ∧
    ∃ placed placement, response.placed = some placed ∧ placed.placement = some placement

@[simp] theorem note_response_skipped : (fold.note_response response).skipped = fold.skipped := by
  unfold note_response
  dsimp only
  split <;> rfl

@[simp] theorem note_response_birth : (fold.note_response response).money_birth = fold.money_birth := by
  unfold note_response
  dsimp only
  split <;> rfl

@[simp] theorem note_model_skipped (placed : PlacedClaudeUsage) :
    (fold.note_model sequence placed).skipped = fold.skipped := by
  unfold note_model
  split <;> rfl

@[simp] theorem note_model_birth (placed : PlacedClaudeUsage) :
    (fold.note_model sequence placed).money_birth = fold.money_birth := by
  unfold note_model
  split <;> rfl

section Staging

variable (position : Option UInt64) (add : ClaudeEntityBody → ClaudeEntityBody)

@[simp] theorem stage_idless_skipped : (fold.stage_idless position add).skipped = fold.skipped := by
  cases position <;> rfl

@[simp] theorem stage_idless_birth :
    (fold.stage_idless position add).money_birth = fold.money_birth := by
  cases position <;> rfl

@[simp] theorem stage_prefix_skipped : (fold.stage_prefix position add).skipped = fold.skipped := by
  cases position <;> rfl

@[simp] theorem stage_prefix_birth :
    (fold.stage_prefix position add).money_birth = fold.money_birth := by
  cases position <;> rfl

@[simp] theorem observe_copy_birth : (fold.observe_copy response add).money_birth = fold.money_birth := by
  unfold observe_copy
  split
  · rfl
  · rw [stage_idless_birth]

theorem observe_copy_skipped : (fold.observe_copy response add).skipped =
    if response.has_request_id then append_skipped fold.skipped response.sequence
    else fold.skipped := by
  unfold observe_copy
  split
  · rfl
  · rw [stage_idless_skipped]

end Staging

theorem observe_placed_birth (placed : PlacedClaudeUsage) (placement : ClaudeRowPlacement) :
    (fold.observe_placed response placed placement).money_birth = fold.money_birth := by
  unfold observe_placed note_account
  dsimp only
  split
  · simp
  · simp
  · split <;> simp [disclose]

theorem observe_placed_skipped (placed : PlacedClaudeUsage) (placement : ClaudeRowPlacement) :
    (fold.observe_placed response placed placement).skipped =
      if fold.is_copied response = some true ∧ response.has_request_id = true then
        append_skipped fold.skipped response.sequence
      else fold.skipped := by
  unfold observe_placed note_account
  dsimp only
  have hcopied : ∀ accounts first_idless,
      ({ fold with accounts, first_idless } : ReadFold).is_copied response =
        fold.is_copied response := fun _ _ => rfl
  rw [hcopied]
  cases h : fold.is_copied response with
  | none =>
    dsimp only
    split <;> simp [disclose]
  | some copied =>
    cases copied with
    | false => simp
    | true => simp [observe_copy_skipped]

theorem observe_response_birth : (fold.observe_response response).money_birth = fold.money_birth := by
  unfold observe_response
  cases response.placed with
  | none => rw [note_response_birth]
  | some placed =>
    dsimp only
    cases placed.placement with
    | none => simp [disclose]
    | some placement => simp [observe_placed_birth]

/-- A response is appended to the ranges, or they stay. -/
theorem observe_response_skipped :
    (fold.appends response ∧
      (fold.observe_response response).skipped = append_skipped fold.skipped response.sequence) ∨
    (¬ fold.appends response ∧ (fold.observe_response response).skipped = fold.skipped) := by
  unfold observe_response appends
  cases hplaced : response.placed with
  | none => simp
  | some placed =>
    dsimp only
    cases hplacement : placed.placement with
    | none => simp [disclose, hplacement]
    | some placement =>
      rw [observe_placed_skipped]
      have hcopied : ((fold.note_response response).note_model response.sequence placed).is_copied
          response = fold.is_copied response := by
        unfold is_copied
        rw [note_model_birth, note_response_birth]
      rw [hcopied, note_model_skipped, note_response_skipped]
      by_cases hheld : fold.is_copied response = some true ∧ response.has_request_id = true
      · left
        rw [if_pos hheld]
        exact ⟨⟨hheld.1, hheld.2, placed, placement, rfl, hplacement⟩, rfl⟩
      · right
        rw [if_neg hheld]
        exact ⟨fun happends => hheld ⟨happends.1, happends.2.1⟩, rfl⟩

/-! ## Runs -/

theorem next_word (h : sequence < u64Max) : Ranges.Next sequence (sequence + 1) := by
  have hlt : sequence.toNat < 2 ^ 64 - 1 := by
    exact lt_iff_toNat_lt.mp h
  intro x
  rw [lt_iff_toNat_lt, le_iff_toNat_le, UInt64.toNat_add]
  simp only [toNat_one]
  omega

def observe_all (self : ReadFold) (responses : List Response) : ReadFold :=
  responses.foldl observe_response self

/-- The sequence numbers that reading the responses appends. -/
def Appended (self : ReadFold) (responses : List Response) (sequence : UInt64) : Prop :=
  ∃ response ∈ responses, self.appends response ∧ response.sequence = sequence

/-- The order of the responses of a file, whose numbers stay below the last one. -/
def Rising (responses : List Response) : Prop :=
  responses.Pairwise (fun a b => a.sequence < b.sequence) ∧ ∀ r ∈ responses, r.sequence < u64Max

theorem appends_congr {other : ReadFold} (h : other.money_birth = fold.money_birth) :
    other.appends response ↔ fold.appends response := by
  unfold appends is_copied
  rw [h]

/-- Reading a file appends the held responses to ranges that end before its first. -/
theorem observe_all_spec {responses : List Response} (hrising : Rising responses)
    (h : Ranges.Ordered fold.skipped)
    (habove : ∀ r ∈ fold.skipped, ∀ response ∈ responses, r.2 ≤ response.sequence) :
    Ranges.Ordered (fold.observe_all responses).skipped ∧
      ∀ s, Ranges.Covers (fold.observe_all responses).skipped s ↔
        Ranges.Covers fold.skipped s ∨ fold.Appended responses s := by
  induction responses generalizing fold with
  | nil => exact ⟨h, fun s => by simp [observe_all, Appended]⟩
  | cons response rest ih =>
    obtain ⟨hpairwise, hbelow⟩ := hrising
    obtain ⟨hfirst, hrest⟩ := pairwise_cons.mp hpairwise
    have hnext := next_word (hbelow response mem_cons_self)
    have hrising_rest : Rising rest := ⟨hrest, fun r hr => hbelow r (mem_cons_of_mem _ hr)⟩
    have hends : ∀ r ∈ fold.skipped, r.2 ≤ response.sequence :=
      fun r hr => habove r hr response mem_cons_self
    have happended : ∀ s, fold.Appended (response :: rest) s ↔
        (fold.appends response ∧ response.sequence = s) ∨
          (fold.observe_response response).Appended rest s := by
      intro s
      simp only [Appended, mem_cons, exists_eq_or_imp, appends_congr observe_response_birth]
    have hrun : fold.observe_all (response :: rest) =
        (fold.observe_response response).observe_all rest := rfl
    rw [hrun]
    rcases @observe_response_skipped fold response with
      ⟨hheld, hskipped⟩ | ⟨hnot, hskipped⟩
    · obtain ⟨hordered, hcovers⟩ := h.push hnext hends
      have hlast := push_ends hnext hends
      have hnow : Ranges.Ordered (fold.observe_response response).skipped := by
        rw [hskipped]
        exact hordered
      obtain ⟨hordered_rest, hcovers_rest⟩ := ih hrising_rest hnow (by
        intro r hr later hlater
        rw [hskipped] at hr
        exact (hlast r hr).trans (not_lt.mp (fun hlt =>
          absurd (hfirst later hlater) (not_lt_of_ge ((hnext _).mp hlt)))))
      refine ⟨hordered_rest, fun s => ?_⟩
      rw [hcovers_rest, hskipped, happended]
      unfold append_skipped
      rw [hcovers, or_assoc]
      simp [hheld, eq_comm]
    · have hnow : Ranges.Ordered (fold.observe_response response).skipped := by
        rw [hskipped]
        exact h
      obtain ⟨hordered_rest, hcovers_rest⟩ := ih hrising_rest hnow (by
        intro r hr later hlater
        rw [hskipped] at hr
        exact habove r hr later (mem_cons_of_mem _ hlater))
      refine ⟨hordered_rest, fun s => ?_⟩
      rw [hcovers_rest, hskipped, happended]
      simp [hnot]

/-- One step on the ranges after the file is read. -/
inductive Edit where
  | skip (sequence : UInt64)
  | unskip (sequence : UInt64)

def edit (self : ReadFold) : Edit → ReadFold
  | .skip sequence => self.skip sequence
  | .unskip sequence => self.unskip sequence

def edit_all (self : ReadFold) (edits : List Edit) : ReadFold := edits.foldl edit self

/-- Only what is not skipped, and has a number after it, is skipped. -/
def Allowed (self : ReadFold) : List Edit → Prop
  | [] => True
  | .skip sequence :: rest =>
    self.is_skipped sequence = false ∧ sequence < u64Max ∧ (self.skip sequence).Allowed rest
  | .unskip sequence :: rest => (self.unskip sequence).Allowed rest

/-- A set of sequence numbers after the edits. -/
def Held (held : UInt64 → Prop) : List Edit → UInt64 → Prop
  | [], s => held s
  | .skip sequence :: rest, s => Held (fun s => held s ∨ s = sequence) rest s
  | .unskip sequence :: rest, s => Held (fun s => held s ∧ s ≠ sequence) rest s

theorem Held.congr {held held' : UInt64 → Prop} (h : ∀ s, held s ↔ held' s) (edits : List Edit)
    (s : UInt64) : Held held edits s ↔ Held held' edits s := by
  have heq : held = held' := funext (fun s => propext (h s))
  rw [heq]

theorem is_skipped_iff (h : Ranges.Ordered fold.skipped) (s : UInt64) :
    fold.is_skipped s = true ↔ Ranges.Covers fold.skipped s := (h.covers_iff s).symm

theorem skip_spec (h : Ranges.Ordered fold.skipped) (hbelow : sequence < u64Max)
    (hfree : fold.is_skipped sequence = false) : Ranges.Ordered (fold.skip sequence).skipped ∧
      ∀ s, Ranges.Covers (fold.skip sequence).skipped s ↔
        Ranges.Covers fold.skipped s ∨ s = sequence := by
  have hnext := next_word hbelow
  have hout : ¬ Ranges.Covers fold.skipped sequence := by
    rw [← is_skipped_iff h, hfree]
    exact Bool.false_ne_true
  exact ⟨h.insert hnext hout, covers_insert hnext⟩

/-- What is left of the range that held the sequence number. -/
theorem unskip_eq {before after : List (UInt64 × UInt64)} {start stop : UInt64}
    (hsplit : split_at fold.skipped sequence = (before, (start, stop) :: after))
    (hstart : ¬ sequence < start) : (fold.unskip sequence).skipped =
      before ++ (Ranges.without (start, stop) sequence (sequence + 1) ++ after) := by
  unfold unskip Ranges.without
  rw [hsplit]
  dsimp only
  rw [if_neg hstart]
  by_cases h1 : start < sequence <;> by_cases h2 : sequence + 1 < stop <;> simp [h1, h2]

theorem unskip_spec (h : Ranges.Ordered fold.skipped) (sequence : UInt64) :
    Ranges.Ordered (fold.unskip sequence).skipped ∧
      ∀ s, Ranges.Covers (fold.unskip sequence).skipped s ↔
        Ranges.Covers fold.skipped s ∧ s ≠ sequence := by
  have hmiss : ¬ Ranges.Covers fold.skipped sequence → ∀ s,
      Ranges.Covers fold.skipped s ↔ Ranges.Covers fold.skipped s ∧ s ≠ sequence := by
    intro hout s
    exact ⟨fun hs => ⟨hs, fun heq => hout (heq ▸ hs)⟩, fun hs => hs.1⟩
  have hcovers := h.covers_iff sequence
  have happend := split_at_append fold.skipped sequence
  cases hsplit : split_at fold.skipped sequence with
  | mk before after =>
    rw [hsplit] at hcovers happend
    cases after with
    | nil =>
      have hsame : (fold.unskip sequence).skipped = fold.skipped := by
        unfold unskip
        rw [hsplit]
      rw [hsame]
      exact ⟨h, hmiss (by simp [hcovers])⟩
    | cons range after =>
      obtain ⟨start, stop⟩ := range
      by_cases hstart : sequence < start
      · have hsame : (fold.unskip sequence).skipped = fold.skipped := by
          unfold unskip
          rw [hsplit]
          simp [hstart]
        rw [hsame]
        exact ⟨h, hmiss (by simp [hcovers, hstart])⟩
      · have hstop : sequence < stop := by
          refine h.ends_after (s := sequence) (start, stop) ?_
          rw [hsplit]
          exact mem_cons_self
        have hbelow : sequence < u64Max := by
          rw [lt_iff_toNat_lt, u64Max_toNat]
          have hlt := lt_iff_toNat_lt.mp hstop
          have hmax := stop.toNat_lt
          omega
        have hnext := next_word hbelow
        rw [unskip_eq hsplit hstart]
        rw [← happend] at h ⊢
        exact ⟨h.take_out hnext (not_lt.mp hstart) hstop,
          h.covers_take_out hnext (not_lt.mp hstart) hstop⟩

/-- Edits keep the ranges in order, and the set they make is the one that the edits name. -/
theorem edit_all_spec {edits : List Edit} (h : Ranges.Ordered fold.skipped)
    (hallowed : fold.Allowed edits) : Ranges.Ordered (fold.edit_all edits).skipped ∧
      ∀ s, Ranges.Covers (fold.edit_all edits).skipped s ↔
        Held (Ranges.Covers fold.skipped) edits s := by
  induction edits generalizing fold with
  | nil => exact ⟨h, fun s => .rfl⟩
  | cons first rest ih =>
    cases first with
    | skip sequence =>
      obtain ⟨hfree, hbelow, hrest⟩ := hallowed
      obtain ⟨hordered, hcovers⟩ := skip_spec h hbelow hfree
      obtain ⟨hordered_rest, hcovers_rest⟩ := ih hordered hrest
      exact ⟨hordered_rest, fun s => (hcovers_rest s).trans (Held.congr hcovers rest s)⟩
    | unskip sequence =>
      obtain ⟨hordered, hcovers⟩ := unskip_spec h sequence
      obtain ⟨hordered_rest, hcovers_rest⟩ := ih hordered hallowed
      exact ⟨hordered_rest, fun s => (hcovers_rest s).trans (Held.congr hcovers rest s)⟩

/-- A fold before its first response, as `FileFold::new` and `set_identity` leave it. -/
def new (money_birth : ClaudeFileBirth) (accounts : Option ReadAccounts) : ReadFold :=
  { money_birth, accounts }

/-- The ranges of a file are ordered, apart and filled after every run, and a response is skipped
exactly when it was appended or skipped and not unskipped since. -/
theorem skipped_is_exact (money_birth : ClaudeFileBirth) (accounts : Option ReadAccounts)
    {responses : List Response} (hrising : Rising responses) {edits : List Edit}
    (hallowed : ((new money_birth accounts).observe_all responses).Allowed edits) :
    let fold := ((new money_birth accounts).observe_all responses).edit_all edits
    (fold.skipped.Pairwise (fun a b => a.1 < b.1) ∧
      fold.skipped.Pairwise (fun a b => a.2 ≤ b.1) ∧ ∀ range ∈ fold.skipped, range.1 < range.2) ∧
    ∀ s, fold.is_skipped s = true ↔
      Held ((new money_birth accounts).Appended responses) edits s := by
  intro fold
  obtain ⟨hread, hread_covers⟩ := @observe_all_spec (new money_birth accounts) _ hrising
    ordered_nil (fun r hr => by cases hr)
  obtain ⟨hordered, hcovers⟩ := edit_all_spec hread hallowed
  have hstarts : fold.skipped.Pairwise (fun a b => a.1 < b.1) := by
    refine hordered.apart.imp_of_mem ?_
    intro a b ha _ hab
    exact (hordered.filled a ha).trans_le hab
  refine ⟨⟨hstarts, hordered.apart, hordered.filled⟩, fun s => ?_⟩
  rw [is_skipped_iff hordered, hcovers]
  apply Held.congr
  intro s
  rw [hread_covers]
  exact or_iff_right not_covers_nil

/-- Two held responses of a file that was born at second 10. -/
def held_responses : List Response :=
  [3, 4].map (fun sequence =>
    { sequence
      has_request_id := true
      usage := {}
      at_ := some 0
      placed := some
        { model := "m"
          fell_back := false
          placement := some
            { bucket := "b"
              normalized_timestamp := "t"
              row_key :=
                { model := "m", selector_hash := "base", reasoning_effort := none, auth_mode := none,
                  billing_channel := none, billing_provider := none, gateway_provider := none,
                  model_provider := none, subscription_product := none }
              reduced_context := .empty
              reduced_sources := .empty } }
      effort := none })

/-- The first is unskipped and another number is skipped. -/
theorem skipped_is_exact_held :
    let fold := ((new { scope := .Root 10000000000 } none).observe_all held_responses).edit_all
      [.unskip 3, .skip 9]
    (fold.skipped.Pairwise (fun a b => a.1 < b.1) ∧
      fold.skipped.Pairwise (fun a b => a.2 ≤ b.1) ∧ ∀ range ∈ fold.skipped, range.1 < range.2) ∧
    ∀ s, fold.is_skipped s = true ↔ Held
      ((new { scope := .Root 10000000000 } none).Appended held_responses) [.unskip 3, .skip 9] s :=
  skipped_is_exact { scope := .Root 10000000000 } none (by unfold Rising; decide) (by
    refine ⟨?_, ?_, trivial⟩ <;> decide)

/-- The last number of all has none after it: its range is empty. -/
theorem the_last_number_is_not_held :
    (new {} none).is_skipped u64Max = false ∧
      ((new {} none).edit_all [.skip u64Max]).is_skipped u64Max = false ∧
      ((new {} none).edit_all [.skip u64Max]).skipped = [(u64Max, 0)] ∧
      Held (fun _ => False) [.skip u64Max] u64Max :=
  ⟨by decide, by decide, by decide, .inr rfl⟩

end ReadFold

end ottto_service.claude_request_money
