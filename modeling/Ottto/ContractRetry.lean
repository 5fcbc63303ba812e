-- The contract-retry budget of a refused body (snapshots/terminal_contract_retry.rs):
-- copies of its record merge like a maximum, and a spent budget is not revived by a
-- copy that knows less.
import Mathlib.Data.Prod.Lex
import Ottto.Quarantine

namespace ottto_service.terminal_contract_retry

open snapshots Option Function

/-! ## The budget of a record -/

/-- The record has a budget of its own. -/
def carries_claims (record : SnapshotQuarantineRecord) : Prop :=
  record.contract_retry_claims.isSome = true

/-- The two records are of one body, as far as either knows it. -/
def same_body (record other : SnapshotQuarantineRecord) : Prop :=
  record.upload_body_witness = other.upload_body_witness ∨ record.upload_body_witness = none ∨
    other.upload_body_witness = none

/-- The contract and the claims spent under it, ordered by contract first. -/
def budget (record : SnapshotQuarantineRecord) : Nat ×ₗ Nat :=
  toLex (record.reconstruction_contract, record.contract_retry_claims.getD 0)

/-- A body that is given up waits for nothing. -/
def settled (record : SnapshotQuarantineRecord) : Prop :=
  record.disposition = .UnprovenTerminal → record.retry_after_unix_seconds = 0

section

variable {record other : SnapshotQuarantineRecord} {previous : Option Nat} {claims : Nat}

@[simp] theorem take_cooldown_contract :
    (take_cooldown previous claims record other).reconstruction_contract =
      record.reconstruction_contract := by
  unfold take_cooldown
  split <;> rfl

@[simp] theorem take_cooldown_claims :
    (take_cooldown previous claims record other).contract_retry_claims =
      record.contract_retry_claims := by
  unfold take_cooldown
  split <;> rfl

@[simp] theorem take_cooldown_disposition :
    (take_cooldown previous claims record other).disposition = record.disposition := by
  unfold take_cooldown
  split <;> rfl

@[simp] theorem take_verdict_contract :
    (take_verdict previous claims record other).reconstruction_contract =
      record.reconstruction_contract := by
  unfold take_verdict
  split <;> rfl

@[simp] theorem take_verdict_claims :
    (take_verdict previous claims record other).contract_retry_claims =
      record.contract_retry_claims := by
  unfold take_verdict
  split <;> rfl

/-- A verdict gives a body up, or leaves it as it was. -/
theorem take_verdict_disposition :
    (take_verdict previous claims record other).disposition = .UnprovenTerminal ∨
      (take_verdict previous claims record other).disposition = record.disposition := by
  unfold take_verdict
  split
  · next h => exact .inl h.2.1
  · exact .inr rfl

/-! ## One merge -/

/-- What a merge under one contract leaves. -/
def merged (record other : SnapshotQuarantineRecord) (claims : Nat) : SnapshotQuarantineRecord :=
  let previous := record.contract_retry_claims
  take_verdict previous claims
    (take_cooldown previous claims
      { record with
        upload_body_witness := record.upload_body_witness.or other.upload_body_witness
        contract_retry_claims := some (max (previous.getD 0) claims) } other) other

theorem not_foreign (h : same_body record other) :
    ¬(record.upload_body_witness.isSome ∧ other.upload_body_witness.isSome ∧
      record.upload_body_witness ≠ other.upload_body_witness) := by
  rintro ⟨hrecord, hother, hne⟩
  rcases h with h | h | h
  · exact hne h
  · simp [h] at hrecord
  · simp [h] at hother

/-- An older contract is replaced. -/
theorem merge_claims_newer (hsame : same_body record other) (hother : carries_claims other)
    (h : record.reconstruction_contract < other.reconstruction_contract) :
    merge_claims record other =
      (if record.disposition = .SupersededTerminal then other.superseded else other, true) := by
  obtain ⟨claims, hclaims⟩ := isSome_iff_exists.mp hother
  unfold merge_claims
  rw [hclaims]
  simp only [not_foreign hsame, if_false, h, if_true]

/-- A newer contract stays. -/
theorem merge_claims_older (hsame : same_body record other) (hother : carries_claims other)
    (h : other.reconstruction_contract < record.reconstruction_contract) :
    merge_claims record other = (record, false) := by
  obtain ⟨claims, hclaims⟩ := isSome_iff_exists.mp hother
  unfold merge_claims
  rw [hclaims]
  simp only [not_foreign hsame, if_false, Nat.lt_asymm h, Nat.ne_of_gt h, ne_eq,
    not_false_eq_true, if_true]

theorem merge_claims_equal (hsame : same_body record other)
    (hother : other.contract_retry_claims = some claims)
    (h : record.reconstruction_contract = other.reconstruction_contract) :
    merge_claims record other =
      (merged record other claims, decide (merged record other claims ≠ record)) := by
  unfold merge_claims merged
  rw [hother]
  simp only [not_foreign hsame, if_false, h, Nat.lt_irrefl, ne_eq, not_true_eq_false]

theorem merged_disposition :
    (merged record other claims).disposition = .UnprovenTerminal ∨
      (merged record other claims).disposition = record.disposition := by
  unfold merged
  have h := @take_verdict_disposition
    (take_cooldown record.contract_retry_claims claims
      { record with
        upload_body_witness := record.upload_body_witness.or other.upload_body_witness
        contract_retry_claims := some (max (record.contract_retry_claims.getD 0) claims) } other)
    other record.contract_retry_claims claims
  rwa [take_cooldown_disposition] at h

theorem carries_claims_merge (hsame : same_body record other) (hrecord : carries_claims record)
    (hother : carries_claims other) : carries_claims (merge_claims record other).1 := by
  rcases Nat.lt_trichotomy record.reconstruction_contract other.reconstruction_contract with
    h | h | h
  · rw [merge_claims_newer hsame hother h]
    dsimp only
    split
    · exact hother
    · exact hother
  · obtain ⟨claims, hclaims⟩ := isSome_iff_exists.mp hother
    rw [merge_claims_equal hsame hclaims h]
    simp [carries_claims, merged]
  · rw [merge_claims_older hsame hother h]
    exact hrecord

theorem max_same_contract (contract m n : Nat) :
    max (toLex (contract, m)) (toLex (contract, n)) = toLex (contract, max m n) := by
  rcases Nat.le_total m n with hle | hle
  · have h : toLex (contract, m) ≤ toLex (contract, n) :=
      Prod.Lex.toLex_le_toLex.mpr (.inr ⟨rfl, hle⟩)
    rw [max_eq_right hle, max_eq_right h]
  · have h : toLex (contract, n) ≤ toLex (contract, m) :=
      Prod.Lex.toLex_le_toLex.mpr (.inr ⟨rfl, hle⟩)
    rw [max_eq_left hle, max_eq_left h]

/-- A merge leaves the greater of the two budgets. -/
theorem budget_merge (hsame : same_body record other) (hother : carries_claims other) :
    budget (merge_claims record other).1 = max (budget record) (budget other) := by
  rcases Nat.lt_trichotomy record.reconstruction_contract other.reconstruction_contract with
    h | h | h
  · have hlt : budget record ≤ budget other := Prod.Lex.toLex_le_toLex.mpr (.inl h)
    rw [merge_claims_newer hsame hother h, max_eq_right hlt]
    dsimp only
    split <;> rfl
  · obtain ⟨claims, hclaims⟩ := isSome_iff_exists.mp hother
    rw [merge_claims_equal hsame hclaims h]
    simp only [budget, merged, take_verdict_contract, take_cooldown_contract, take_verdict_claims,
      take_cooldown_claims, getD_some, hclaims, ← h]
    exact (max_same_contract _ _ _).symm
  · have hlt : budget other ≤ budget record := Prod.Lex.toLex_le_toLex.mpr (.inl h)
    rw [merge_claims_older hsame hother h, max_eq_left hlt]

/-- A superseded body stays superseded. -/
theorem merged_superseded (h : record.disposition = .SupersededTerminal) :
    (merged record other claims).disposition = .SupersededTerminal := by
  unfold merged take_verdict
  dsimp only
  rw [take_cooldown_disposition, h]
  simp

/-- A claim that is no older gives the body up. -/
theorem merged_verdict
    (hclaims : record.contract_retry_claims.all (fun n => decide (n ≤ claims)) = true)
    (hother : other.disposition = .UnprovenTerminal)
    (h : record.disposition ≠ .SupersededTerminal) :
    (merged record other claims).disposition = .UnprovenTerminal ∧
      (merged record other claims).retry_after_unix_seconds = 0 ∧
      (merged record other claims).failed_reconstruction_count =
        other.failed_reconstruction_count := by
  unfold merged take_verdict
  dsimp only
  rw [take_cooldown_disposition, if_pos ⟨hclaims, hother, h⟩]
  exact ⟨hother, rfl, rfl⟩

/-- A copy that was merged knows the claims and the body of the other: a second
merge under its contract finds nothing to change. -/
theorem merged_again
    (hclaims : ∃ n, record.contract_retry_claims = some n ∧ claims ≤ n ∧
      (n ≤ claims → other.disposition = .UnprovenTerminal →
        record.disposition ≠ .SupersededTerminal →
        record.disposition = .UnprovenTerminal ∧ record.retry_after_unix_seconds = 0 ∧
          record.failed_reconstruction_count = other.failed_reconstruction_count))
    (hbody : record.upload_body_witness.or other.upload_body_witness =
      record.upload_body_witness) : merged record other claims = record := by
  obtain ⟨n, hn, hle, hverdict⟩ := hclaims
  have hcooldown : ¬(n < claims) := Nat.not_lt.mpr hle
  have hsame : { record with
      upload_body_witness := record.upload_body_witness.or other.upload_body_witness
      contract_retry_claims := some (max (record.contract_retry_claims.getD 0) claims) } =
      record := by
    rw [hbody, hn, getD_some, max_eq_left hle, ← hn]
  unfold merged
  dsimp only
  rw [hsame, hn]
  simp only [take_cooldown, all_some, hcooldown, decide_false, Bool.false_eq_true,
    false_and, if_false, take_verdict, decide_eq_true_eq]
  split
  · next h =>
    obtain ⟨hterminal, hzero, hfailures⟩ := hverdict h.1 h.2.1 h.2.2
    rw [h.2.1, ← hterminal, ← hfailures, ← hzero]
  · rfl

/-- Merging the same copy again changes nothing. -/
theorem merge_claims_again (hsame : same_body record other) (hother : carries_claims other)
    (hsettled : settled other) :
    merge_claims (merge_claims record other).1 other = ((merge_claims record other).1, false) := by
  obtain ⟨claims, hclaims⟩ := isSome_iff_exists.mp hother
  -- a merged copy is of the body of the other, and a second merge leaves it
  have finish : ∀ copy : SnapshotQuarantineRecord, same_body copy other →
      copy.reconstruction_contract = other.reconstruction_contract →
      merged copy other claims = copy → merge_claims copy other = (copy, false) := by
    intro copy hcopy hcontract hmerged
    rw [merge_claims_equal hcopy hclaims hcontract, hmerged]
    simp
  rcases Nat.lt_trichotomy record.reconstruction_contract other.reconstruction_contract with
    h | h | h
  · rw [merge_claims_newer hsame hother h]
    dsimp only
    split
    · apply finish other.superseded (.inl rfl) rfl
      apply @merged_again other.superseded other claims ⟨claims, hclaims, le_rfl, ?_⟩ Option.or_self
      intro _ _ hne
      exact absurd rfl hne
    · apply finish other (.inl rfl) rfl
      apply merged_again ⟨claims, hclaims, le_rfl, ?_⟩ Option.or_self
      intro _ hterminal _
      exact ⟨hterminal, hsettled hterminal, rfl⟩
  · rw [merge_claims_equal hsame hclaims h]
    have hbody : (merged record other claims).upload_body_witness =
        record.upload_body_witness.or other.upload_body_witness := by
      simp [merged]
    have hcontract : (merged record other claims).reconstruction_contract =
        other.reconstruction_contract := by
      simpa [merged] using h
    apply finish _ _ hcontract
    · apply merged_again
      · refine ⟨max (record.contract_retry_claims.getD 0) claims, by simp [merged],
          le_max_right _ _, ?_⟩
        intro hle hterminal hne
        refine merged_verdict ?_ hterminal (fun hrecord => hne (merged_superseded hrecord))
        rw [all_eq_true]
        intro n hn
        rw [hn, getD_some] at hle
        exact decide_eq_true (le_trans (le_max_left n claims) hle)
      · rw [hbody, Option.or_assoc, Option.or_self]
    · rcases hsame with hsame | hsame | hsame
      · left; rw [hbody, hsame, Option.or_self]
      · left; rw [hbody, hsame, none_or]
      · exact .inr (.inr hsame)
  · rw [merge_claims_older hsame hother h]
    exact merge_claims_older hsame hother h

theorem same_body_symm (h : same_body record other) : same_body other record := by
  rcases h with h | h | h
  · exact .inl h.symm
  · exact .inr (.inr h)
  · exact .inr (.inl h)

/-- A merge under one contract never makes a given-up body pending. -/
theorem merge_claims_disposition (hsame : same_body record other) (hother : carries_claims other)
    (hle : other.reconstruction_contract ≤ record.reconstruction_contract) :
    (merge_claims record other).1.disposition = .UnprovenTerminal ∨
      (merge_claims record other).1.disposition = record.disposition := by
  obtain ⟨claims, hclaims⟩ := isSome_iff_exists.mp hother
  rcases Nat.lt_or_eq_of_le hle with h | h
  · rw [merge_claims_older hsame hother h]
    exact .inr rfl
  · rw [merge_claims_equal hsame hclaims h.symm]
    exact merged_disposition

end

/-! ## Copies of one body -/

section

variable {ι : Type} [DecidableEq ι]

/-- The index and the upload ledger each hold copies of a record, and merge them
again and again. -/
inductive Step (ι : Type)
  | Merge (copy source : ι)
  | Exhaust (copy : ι)

def step (copies : ι → SnapshotQuarantineRecord) : Step ι → ι → SnapshotQuarantineRecord
  | .Merge copy source =>
    Function.update copies copy (merge_claims (copies copy) (copies source)).1
  | .Exhaust copy => Function.update copies copy (exhaust (copies copy)).1

def run (copies : ι → SnapshotQuarantineRecord) (steps : List (Step ι)) :
    ι → SnapshotQuarantineRecord := steps.foldl step copies

/-- The copies that merged, directly or through others, with one that was known. -/
def informed (known : ι → Prop) : Step ι → ι → Prop
  | .Merge copy source => fun i => known i ∨ (i = copy ∧ known source)
  | .Exhaust _ => known

def informed_by (known : ι → Prop) (steps : List (Step ι)) : ι → Prop := steps.foldl informed known

/-- Copies of one body, none under a contract above `contract`. -/
structure Copies (body : Option String) (contract : Nat)
    (copies : ι → SnapshotQuarantineRecord) : Prop where
  carries (i : ι) : carries_claims (copies i)
  body (i : ι) : (copies i).upload_body_witness = body ∨ (copies i).upload_body_witness = none
  contract_le (i : ι) : (copies i).reconstruction_contract ≤ contract

omit [DecidableEq ι] in
theorem Copies.same {body : Option String} {contract : Nat}
    {copies : ι → SnapshotQuarantineRecord} (h : Copies body contract copies) (i j : ι) :
    same_body (copies i) (copies j) := by
  rcases h.body i with hi | hi
  · rcases h.body j with hj | hj
    · exact .inl (hi.trans hj.symm)
    · exact .inr (.inr hj)
  · exact .inr (.inl hi)

variable {body : Option String} {contract : Nat} {copies : ι → SnapshotQuarantineRecord}

theorem exhaust_fields (record : SnapshotQuarantineRecord) :
    budget (exhaust record).1 = budget record ∧
      (carries_claims (exhaust record).1 ↔ carries_claims record) := by
  unfold exhaust
  split <;> exact ⟨rfl, .rfl⟩

theorem exhaust_contract (record : SnapshotQuarantineRecord) :
    (exhaust record).1.reconstruction_contract = record.reconstruction_contract := by
  unfold exhaust
  split <;> rfl

variable {record : SnapshotQuarantineRecord}

theorem contract_le_max {other : SnapshotQuarantineRecord} (hsame : same_body record other)
    (hother : carries_claims other) (hrecord_le : record.reconstruction_contract ≤ contract)
    (hother_le : other.reconstruction_contract ≤ contract) :
    (merge_claims record other).1.reconstruction_contract ≤ contract := by
  have hmax := budget_merge hsame hother
  rcases max_choice (budget record) (budget other) with h | h
  · rw [h] at hmax
    have hfst : (merge_claims record other).1.reconstruction_contract =
        record.reconstruction_contract := congrArg (fun b => (ofLex b).1) hmax
    omega
  · rw [h] at hmax
    have hfst : (merge_claims record other).1.reconstruction_contract =
        other.reconstruction_contract := congrArg (fun b => (ofLex b).1) hmax
    omega

theorem Copies.step (h : Copies body contract copies) (s : Step ι) :
    Copies body contract (step copies s) := by
  cases s with
  | Merge copy source =>
    constructor
    all_goals intro i; by_cases hi : i = copy
    · subst hi
      simpa [terminal_contract_retry.step] using
        carries_claims_merge (h.same i source) (h.carries i) (h.carries source)
    · simpa [terminal_contract_retry.step, hi] using h.carries i
    · subst hi
      simp only [terminal_contract_retry.step, update_self]
      rcases @merge_claims_body (copies i) (copies source) with hb | hb
      · rw [hb]; exact h.body i
      · rw [hb]; exact h.body source
    · simpa [terminal_contract_retry.step, hi] using h.body i
    · subst hi
      simpa [terminal_contract_retry.step] using
        contract_le_max (h.same i source) (h.carries source) (h.contract_le i)
          (h.contract_le source)
    · simpa [terminal_contract_retry.step, hi] using h.contract_le i
  | Exhaust copy =>
    constructor
    all_goals intro i; by_cases hi : i = copy
    · subst hi
      simpa [terminal_contract_retry.step] using (exhaust_fields (copies i)).2.mpr (h.carries i)
    · simpa [terminal_contract_retry.step, hi] using h.carries i
    · subst hi
      simpa [terminal_contract_retry.step] using h.body i
    · simpa [terminal_contract_retry.step, hi] using h.body i
    · subst hi
      simpa [terminal_contract_retry.step, exhaust_contract] using h.contract_le i
    · simpa [terminal_contract_retry.step, hi] using h.contract_le i

/-- The copy's budget under `contract` is spent. -/
def spent (contract : Nat) (record : SnapshotQuarantineRecord) : Prop :=
  record.reconstruction_contract = contract ∧
    ∃ claims, record.contract_retry_claims = some claims ∧ MAX_CLAIMS ≤ claims

theorem spent_iff (hcarries : carries_claims record)
    (hle : record.reconstruction_contract ≤ contract) :
    spent contract record ↔ toLex (contract, MAX_CLAIMS) ≤ budget record := by
  obtain ⟨claims, hclaims⟩ := isSome_iff_exists.mp hcarries
  rw [budget, Prod.Lex.toLex_le_toLex, hclaims]
  constructor
  · rintro ⟨hcontract, found, hfound, hmax⟩
    cases hclaims.symm.trans hfound
    exact .inr ⟨hcontract.symm, hmax⟩
  · rintro (h | ⟨h, hmax⟩)
    · exact absurd h (Nat.not_lt.mpr hle)
    · exact ⟨h.symm, claims, hclaims, hmax⟩

/-- A step tells a copy of a spent budget, or leaves it spent. -/
theorem spent_step (h : Copies body contract copies) {known : ι → Prop}
    (hknown : ∀ i, known i → spent contract (copies i)) (s : Step ι) (i : ι)
    (hi : informed known s i) : spent contract (step copies s i) := by
  have hafter := h.step s
  rw [spent_iff (hafter.carries i) (hafter.contract_le i)]
  have before : ∀ j, known j → toLex (contract, MAX_CLAIMS) ≤ budget (copies j) :=
    fun j hj => (spent_iff (h.carries j) (h.contract_le j)).mp (hknown j hj)
  cases s with
  | Merge copy source =>
    by_cases hcopy : i = copy
    · subst hcopy
      have hmax := budget_merge (h.same i source) (h.carries source)
      simp only [step, update_self, hmax]
      rcases hi with hi | ⟨-, hi⟩
      · exact le_max_of_le_left (before i hi)
      · exact le_max_of_le_right (before source hi)
    · simp only [step, update_of_ne hcopy]
      rcases hi with hi | ⟨hi, -⟩
      · exact before i hi
      · exact absurd hi hcopy
  | Exhaust copy =>
    by_cases hcopy : i = copy
    · subst hcopy
      simp only [step, update_self, (exhaust_fields _).1]
      exact before i hi
    · simp only [step, update_of_ne hcopy]
      exact before i hi

theorem Copies.run (h : Copies body contract copies) (steps : List (Step ι)) :
    Copies body contract (run copies steps) := by
  induction steps generalizing copies with
  | nil => exact h
  | cons s steps ih => exact ih (h.step s)

/-- Each copy that was told of a spent budget knows it. -/
theorem spent_run (h : Copies body contract copies) {known : ι → Prop}
    (hknown : ∀ i, known i → spent contract (copies i)) (steps : List (Step ι)) (i : ι)
    (hi : informed_by known steps i) : spent contract (run copies steps i) := by
  induction steps generalizing copies known with
  | nil => exact hknown i hi
  | cons s steps ih => exact ih (h.step s) (spent_step h hknown s) hi

/-- A spent copy is given up by `exhaust`. -/
theorem exhaust_spent (h : spent contract record) :
    (exhaust record).1.disposition ≠ .RetryPending := by
  obtain ⟨-, claims, hclaims, hmax⟩ := h
  unfold exhaust is_exhausted
  rw [hclaims]
  cases hd : record.disposition with
  | RetryPending => simp [hmax, SnapshotQuarantineRecord.terminal]
  | UnprovenTerminal => simp [hd]
  | SupersededTerminal => simp [hd]

/-- A spent copy that is not pending. -/
def given_up (contract : Nat) (record : SnapshotQuarantineRecord) : Prop :=
  spent contract record ∧ record.disposition ≠ .RetryPending

/-- No later merge makes a given-up copy pending again. -/
theorem given_up_step (h : Copies body contract copies) {i : ι}
    (hi : given_up contract (copies i)) (s : Step ι) : given_up contract (step copies s i) := by
  refine ⟨@spent_step _ _ _ _ _ h (fun j => j = i) (fun j hj => hj ▸ hi.1) s i ?_, ?_⟩
  · cases s with
    | Merge => exact .inl rfl
    | Exhaust => rfl
  · cases s with
    | Merge copy source =>
      by_cases hcopy : i = copy
      · subst hcopy
        simp only [step, update_self]
        have hle : (copies source).reconstruction_contract ≤
            (copies i).reconstruction_contract := hi.1.1 ▸ h.contract_le source
        rcases merge_claims_disposition (h.same i source) (h.carries source) hle with hd | hd
        · rw [hd]; exact nofun
        · rw [hd]; exact hi.2
      · simpa only [step, update_of_ne hcopy] using hi.2
    | Exhaust copy =>
      by_cases hcopy : i = copy
      · subst hcopy
        simp only [step, update_self]
        exact exhaust_spent hi.1
      · simpa only [step, update_of_ne hcopy] using hi.2

theorem given_up_run (h : Copies body contract copies) {i : ι}
    (hi : given_up contract (copies i)) (steps : List (Step ι)) :
    given_up contract (run copies steps i) := by
  induction steps generalizing copies with
  | nil => exact hi
  | cons s steps ih => exact ih (h.step s) (given_up_step h hi s)

theorem run_append (copies : ι → SnapshotQuarantineRecord) (before after : List (Step ι)) :
    run copies (before ++ after) = run (run copies before) after :=
  List.foldl_append

end

/-- What the loader accepts is settled. -/
theorem settled_of_bounded {now : Nat} {record : SnapshotQuarantineRecord}
    (h : snapshot_quarantine_deadline_is_bounded_at record now = true) : settled record := by
  intro hterminal
  unfold snapshot_quarantine_deadline_is_bounded_at at h
  rw [hterminal] at h
  simp only [Bool.and_eq_true, beq_iff_eq] at h
  exact h.2

/-! ## The law of the budgets -/

/-- Copies merge like a maximum, in either direction and as often as one likes; a
budget that one copy knows to be spent stays spent in every copy it reached. -/
theorem merge_is_the_maximum_and_revives_nothing :
    (∀ record other : SnapshotQuarantineRecord, carries_claims record → carries_claims other →
      same_body record other →
      budget (merge_claims record other).1 = max (budget record) (budget other) ∧
        budget (merge_claims other record).1 = max (budget record) (budget other) ∧
        budget record ≤ budget (merge_claims record other).1 ∧
        (settled other → merge_claims (merge_claims record other).1 other =
          ((merge_claims record other).1, false))) ∧
    (∀ (ι : Type) [DecidableEq ι] (body : Option String) (contract : Nat)
      (copies : ι → SnapshotQuarantineRecord) (known : ι) (before after : List (Step ι)) (i : ι),
      Copies body contract copies → spent contract (copies known) →
      informed_by (fun j => j = known) before i →
      given_up contract (run copies (before ++ .Exhaust i :: after) i)) ∧
    ∀ (now : Nat) (record other : SnapshotQuarantineRecord),
      snapshot_quarantine_deadline_is_bounded_at record now = true →
      snapshot_quarantine_deadline_is_bounded_at other now = true →
      settled other ∧
        snapshot_quarantine_deadline_is_bounded_at (merge_claims record other).1 now = true := by
  refine ⟨?_, ?_, fun now record other hrecord hother =>
    ⟨settled_of_bounded hother, merge_claims_bounded hrecord hother⟩⟩
  · intro record other hrecord hother hsame
    have hmax := budget_merge hsame hother
    refine ⟨hmax, ?_, ?_, merge_claims_again hsame hother⟩
    · rw [budget_merge (same_body_symm hsame) hrecord, max_comm]
    · rw [hmax]
      exact le_max_left _ _
  · intro ι _ body contract copies known before after i hcopies hknown hi
    have hstart : ∀ j, j = known → spent contract (copies j) := fun j hj => hj ▸ hknown
    have hspent := spent_run hcopies hstart before i hi
    have htold : ∀ j, j = i → spent contract (run copies before j) := fun j hj => hj ▸ hspent
    have hbefore := hcopies.run before
    have hafter := hbefore.step (.Exhaust i)
    rw [run_append]
    apply given_up_run hafter
    refine ⟨spent_step hbefore htold (.Exhaust i) i rfl, ?_⟩
    simp only [step, update_self]
    exact exhaust_spent hspent

/-- The spent budget of the first copy reaches the second, which gives up and stays so after it
merges with a third that still has a claim left. -/
example :
    let witness : SnapshotQuarantineWitness := ⟨"c", "1", "1", "1", 1, "a", 0⟩
    let copies : Fin 3 → SnapshotQuarantineRecord :=
      ![⟨1, some 2, witness, 60, none, 1, .RetryPending⟩,
        ⟨1, some 0, witness, 30, none, 1, .RetryPending⟩,
        ⟨1, some 1, witness, 90, none, 2, .RetryPending⟩]
    (run copies [.Merge 1 0, .Exhaust 1, .Merge 1 2] 1).disposition = .UnprovenTerminal ∧
      (run copies [.Exhaust 1, .Merge 1 2] 1).disposition = .RetryPending := by
  decide

/-- A given-up body with a deadline is copied as it is, and its deadline goes with
the second merge. -/
theorem an_open_deadline_is_cleared_by_the_second_merge :
    ¬ ∀ record other : SnapshotQuarantineRecord, carries_claims record → carries_claims other →
      same_body record other →
      (merge_claims (merge_claims record other).1 other).1 = (merge_claims record other).1 := by
  intro h
  let witness : SnapshotQuarantineWitness := ⟨"c", "1", "1", "1", 1, "a", 0⟩
  have hagain := h ⟨0, some 0, witness, 0, none, 3, .RetryPending⟩
    ⟨1, some 2, witness, 5, none, 4, .UnprovenTerminal⟩ rfl rfl (.inl rfl)
  revert hagain
  decide

end ottto_service.terminal_contract_retry
