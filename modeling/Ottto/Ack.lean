-- ACK receipts (snapshots/state_v2/ack.rs): the receipt of a progress save is
-- written before the progress file is replaced, and recovery finishes the save
-- that a crash cut between the two.
import Ottto.Runs
import Ottto.Results

namespace ottto_service.state_v2.ack

open Results Option

/-! ## Receipts -/

inductive Source where
  | Claude | Codex | Pi
deriving DecidableEq, Repr

structure Binding where
  source : Source
  namespace_hash : String
deriving DecidableEq, Repr

structure Identity where
  format : Nat
  db_id : String
  binding : Binding
  fence_generation : Nat
deriving DecidableEq, Repr

structure Scope where
  identity : Identity
  generation : Nat
deriving DecidableEq, Repr

/-- A hold with its reason, or an error that is passed on. -/
inductive AckError where
  | hold (reason : String)
  | json
  | utf8
  | next
deriving DecidableEq, Repr

def require (ok : Bool) (reason : String) : Except AckError Unit :=
  if ok then .ok () else .error (.hold reason)

def Scope.check (self current : Scope) : Except AckError Unit := do
  let _ ← require (self.identity == current.identity) "identity"
  require
    (decide (self.identity.fence_generation ≤ self.generation) &&
      decide (self.generation ≤ current.generation)) "generation"

def FORMAT : Nat := 1

/-- `u64::checked_add`. -/
def checked_add (a b : Nat) : Option Nat := if a + b < 2 ^ 64 then some (a + b) else none

def as_bytes (s : String) : List UInt8 := s.toByteArray.data.toList

def from_utf8 (bytes : List UInt8) : Except AckError String :=
  match String.fromUTF8? ⟨bytes.toArray⟩ with
  | some text => .ok text
  | none => .error .utf8

/-- The ledger that stands for a missing one: a generation of zero. -/
def MARKER : String := "\x7b\"generation\":0\x7d"

/-- What the receipts rest on: a digest without collisions, and the reader of
the generation of a ledger. -/
structure Outside where
  sha256 : List UInt8 → List UInt8
  sha256_injective : Function.Injective sha256
  progress_generation : List UInt8 → Option Nat
  generation_of_marker : progress_generation (as_bytes MARKER) = some 0

structure Receipt where
  version : Nat
  scope : Scope
  previous_generation : Nat
  previous_digest : Option (List UInt8)
  generation : Nat
  digest : List UInt8
  progress : String
deriving DecidableEq, Repr

/-- What a receipt file holds: a receipt as `serde_json` wrote it, or bytes
that are no receipt. -/
inductive ReceiptFile where
  | written (receipt : Receipt)
  | damaged
deriving DecidableEq, Repr

/-- The files of one owner, and the committed generation of its database. -/
structure Disk where
  receipt : Option ReceiptFile := none
  progress : Option (List UInt8) := none
  db_generation : Nat := 0
deriving DecidableEq, Repr

structure ProgressSeal where
  digest : List UInt8
  generation : Option Nat

/-- `db_path` is whether the owner has a database beside its index. -/
structure ProgressRecovery where
  scope : Scope
  db_path : Bool
deriving DecidableEq, Repr

/-- The digest of a ledger. -/
def Outside.digest (out : Outside) (bytes : List UInt8) : List UInt8 :=
  out.sha256 (as_bytes "ottto.state-v2.ack-progress.v1" ++ 0 :: bytes)

def ProgressSeal.new (out : Outside) (bytes : List UInt8) : ProgressSeal :=
  ⟨out.digest bytes, out.progress_generation bytes⟩

/-- The generation of the progress file; a missing one has generation zero. -/
def generationOf (out : Outside) : Option (List UInt8) → Option Nat
  | none => some 0
  | some bytes => out.progress_generation bytes

def json {α : Type} : Option α → Except AckError α
  | some a => .ok a
  | none => .error .json

namespace ProgressRecovery

variable (out : Outside) (self : ProgressRecovery)

def current_scope (disk : Disk) : Except AckError Scope :=
  if self.db_path then do
    let scope := { self.scope with generation := disk.db_generation }
    let _ ← self.scope.check scope
    .ok scope
  else .ok self.scope

/-- The digest is compared first: the generation of bytes that are not the
sealed ones is never read. -/
def checked (scope : Scope) (disk : Disk) : Except AckError Receipt :=
  match disk.receipt with
  | none => .error (.hold "unbound")
  | some .damaged => .error (.hold "receipt")
  | some (.written receipt) => do
    let _ ← require (receipt.version == 1) "version"
    let _ ← receipt.scope.check scope
    let progress := ProgressSeal.new out (as_bytes receipt.progress)
    let _ ← require (receipt.digest == progress.digest) "receipt"
    let generation ← json progress.generation
    let _ ← require
      (generation == receipt.generation &&
        (receipt.previous_generation == receipt.generation ||
          checked_add receipt.previous_generation 1 == some receipt.generation)) "receipt"
    .ok receipt

def receipt (disk : Disk) : Except AckError Receipt := do
  let scope ← self.current_scope disk
  checked out scope disk

def write (disk : Disk) (receipt : Receipt) : Disk :=
  { disk with receipt := some (.written receipt) }

def adopt (disk : Disk) (progress : Option (List UInt8)) : Except AckError Disk := do
  let bytes := progress.getD (as_bytes MARKER)
  let generation ← json (out.progress_generation bytes)
  if disk.receipt.isSome then do
    let receipt ← checked out self.scope disk
    let _ ← require
      (receipt.scope == self.scope && receipt.generation == generation &&
        receipt.digest == out.digest bytes) "already_bound"
    .ok disk
  else do
    let text ← from_utf8 bytes
    .ok (write disk
      { version := 1
        scope := self.scope
        previous_generation := generation
        previous_digest := progress.map out.digest
        generation
        digest := out.digest bytes
        progress := text })

/-- The import seals the ledger it read under the same lock. -/
def seal_import (disk : Disk) : Except AckError Disk := do
  let _ ← require
    (self.scope.identity.format == FORMAT &&
      decide (self.scope.identity.fence_generation ≤ self.scope.generation)) "generation"
  self.adopt out disk disk.progress

def recover (disk : Disk) : Except AckError Disk := do
  let receipt ← self.receipt out disk
  if disk.progress.map out.digest = some receipt.digest then .ok disk
  else do
    let _ ← require (disk.progress.map out.digest == receipt.previous_digest) "progress"
    let generation ← json (generationOf out disk.progress)
    let _ ← require (generation == receipt.previous_generation) "progress"
    if receipt.generation = 0 ∧ receipt.previous_digest = none then .ok disk
    else .ok { disk with progress := some (as_bytes receipt.progress) }

def sealed (disk : Disk) (previous : Option ProgressSeal) : Except AckError Scope := do
  let scope ← self.current_scope disk
  let receipt ← checked out scope disk
  let _ ← require
    (previous.map ProgressSeal.digest == some receipt.digest ||
      (receipt.generation == 0 && receipt.previous_digest.isNone && previous.isNone)) "progress"
  .ok scope

/-- The new receipt, and the bytes the progress file is replaced with. -/
def before_progress_save (disk : Disk) (previous : Option ProgressSeal)
    (next : Except AckError (List UInt8)) : Except AckError (Disk × List UInt8) := do
  let scope ← self.sealed out disk previous
  let previous_generation ← json (match previous with
    | none => some 0
    | some previous => previous.generation)
  let next ← next
  let generation ← json (out.progress_generation next)
  let _ ← require (checked_add previous_generation 1 == some generation) "progress_generation"
  let text ← from_utf8 next
  .ok (write disk
    { version := 1
      scope
      previous_generation
      previous_digest := previous.map ProgressSeal.digest
      generation
      digest := out.digest next
      progress := text }, next)

end ProgressRecovery

/-! ## Runs with crashes -/

/-- The files, and the bytes of a save whose receipt is written and whose
progress file is not replaced yet. -/
structure State where
  disk : Disk
  pending : Option (List UInt8) := none

/-- What one owner does, one file write at a time. `crash` is also a write that
fails; the database commits on its own. -/
inductive Step where
  | adopt
  | save (next : Except AckError (List UInt8))
  | replace
  | recover
  | crash
  | commit (generation : Nat)

/-- The owner holds the progress lock over a whole save, so nothing else runs
between its two writes. -/
def step (out : Outside) (self : ProgressRecovery) (s : State) : Step → State
  | .adopt =>
    match s.pending, self.seal_import out s.disk with
    | none, .ok disk => { s with disk }
    | _, _ => s
  | .save next =>
    match s.pending,
      self.before_progress_save out s.disk (s.disk.progress.map (ProgressSeal.new out)) next with
    | none, .ok (disk, bytes) => ⟨disk, some bytes⟩
    | _, _ => s
  | .replace =>
    match s.pending with
    | some bytes => ⟨{ s.disk with progress := some bytes }, none⟩
    | none => s
  | .recover =>
    match s.pending, self.recover out s.disk with
    | none, .ok disk => { s with disk }
    | _, _ => s
  | .crash => { s with pending := none }
  | .commit generation =>
    { s with disk :=
        { s.disk with db_generation := max s.disk.db_generation generation } }

/-! ## What the checks accept -/

theorem require_eq_ok {ok : Bool} {reason : String} {u : Unit} :
    require ok reason = .ok u ↔ ok = true := by
  unfold require
  cases ok <;> simp

theorem json_eq_ok {α : Type} {x : Option α} {a : α} : json x = .ok a ↔ x = some a := by
  cases x <;> simp [json]

theorem checked_add_eq_some {a b c : Nat} (h : checked_add a b = some c) : c = a + b := by
  unfold checked_add at h
  split at h
  · exact (Option.some.inj h).symm
  · cases h

theorem as_bytes_of_from_utf8 {bytes : List UInt8} {text : String}
    (h : from_utf8 bytes = .ok text) : as_bytes text = bytes := by
  unfold from_utf8 String.fromUTF8? at h
  by_cases hvalid : (⟨bytes.toArray⟩ : ByteArray).IsValidUTF8
  · rw [dif_pos hvalid] at h
    cases h
    rfl
  · rw [dif_neg hvalid] at h
    cases h

theorem digest_injective (out : Outside) : Function.Injective out.digest := by
  intro a b h
  have happend := out.sha256_injective h
  exact List.cons.inj (List.append_cancel_left happend) |>.2

/-- The digest of the progress file is that of these bytes only when the file
holds them. -/
theorem digest_eq_iff (out : Outside) (progress : Option (List UInt8)) (bytes : List UInt8) :
    progress.map out.digest = some (out.digest bytes) ↔ progress = some bytes := by
  cases progress with
  | none => simp
  | some held => simp [(digest_injective out).eq_iff]

/-! ## The receipt on disk -/

section

variable {out : Outside} {self : ProgressRecovery}

def ProgressRecovery.reached (self : ProgressRecovery) (disk : Disk) : Nat :=
  if self.db_path then disk.db_generation else self.scope.generation

/-- The owner's scope is not behind its fence, nor ahead of its database. -/
structure InScope (owner : ProgressRecovery) (disk : Disk) : Prop where
  fenced : owner.scope.identity.fence_generation ≤ owner.scope.generation
  behind : owner.scope.generation ≤ owner.reached disk

/-- What a receipt promises on its own. -/
structure Sealed (out : Outside) (owner : ProgressRecovery) (disk : Disk) (r : Receipt) : Prop where
  version : r.version = 1
  identity : r.scope.identity = owner.scope.identity
  fenced : r.scope.identity.fence_generation ≤ r.scope.generation
  behind : r.scope.generation ≤ owner.reached disk
  digest : r.digest = out.digest (as_bytes r.progress)
  generation : out.progress_generation (as_bytes r.progress) = some r.generation
  succession : r.previous_generation = r.generation ∨
    checked_add r.previous_generation 1 = some r.generation

/-- The progress file is the predecessor the receipt names. -/
def Names (out : Outside) (r : Receipt) (progress : Option (List UInt8)) : Prop :=
  progress.map out.digest = r.previous_digest ∧
    generationOf out progress = some r.previous_generation

/-- An adopted missing ledger: a binding, and no progress. -/
def IsMarker (r : Receipt) : Prop := r.generation = 0 ∧ r.previous_digest = none

instance (r : Receipt) : Decidable (IsMarker r) :=
  inferInstanceAs (Decidable (r.generation = 0 ∧ r.previous_digest = none))

structure Bound (out : Outside) (owner : ProgressRecovery) (disk : Disk) (r : Receipt) : Prop where
  written : disk.receipt = some (.written r)
  isSealed : Sealed out owner disk r
  progress : disk.progress = some (as_bytes r.progress) ∨ Names out r disk.progress

variable {disk disk' : Disk} {r : Receipt}

/-- A receipt stays valid while the generation it is read at does not fall. -/
theorem Sealed.mono (h : Sealed out self disk r)
    (hreached : self.reached disk ≤ self.reached disk') : Sealed out self disk' r :=
  { version := h.version
    identity := h.identity
    fenced := h.fenced
    behind := le_trans h.behind hreached
    digest := h.digest
    generation := h.generation
    succession := h.succession }

theorem InScope.mono (h : InScope self disk)
    (hreached : self.reached disk ≤ self.reached disk') : InScope self disk' :=
  ⟨h.fenced, le_trans h.behind hreached⟩

theorem check_ok {a b : Scope} (hidentity : a.identity = b.identity)
    (hfenced : a.identity.fence_generation ≤ a.generation) (hbehind : a.generation ≤ b.generation) :
    a.check b = .ok () := by
  simp only [Scope.check, require, hidentity, beq_self_eq_true, if_true]
  rw [hidentity] at hfenced
  simp [hfenced, hbehind]
  rfl

theorem current_scope_ok (h : InScope self disk) :
    self.current_scope disk = .ok { self.scope with generation := self.reached disk } := by
  have hbehind := h.behind
  unfold ProgressRecovery.current_scope
  unfold ProgressRecovery.reached at hbehind ⊢
  by_cases hdb : self.db_path = true
  · rw [if_pos hdb] at hbehind
    simp only [if_pos hdb]
    rw [check_ok (a := self.scope) (b := ⟨self.scope.identity, disk.db_generation⟩) rfl h.fenced
      hbehind]
    rfl
  · simp only [if_neg hdb]

theorem checked_ok (h : Bound out self disk r) :
    ProgressRecovery.checked out { self.scope with generation := self.reached disk } disk =
      .ok r := by
  unfold ProgressRecovery.checked
  rw [h.written]
  have hsealed := h.isSealed
  have hsuccession : (r.previous_generation == r.generation ||
      checked_add r.previous_generation 1 == some r.generation) = true := by
    simpa using hsealed.succession
  simp only [ProgressSeal.new]
  rw [hsealed.version, check_ok (b := ⟨self.scope.identity, self.reached disk⟩) hsealed.identity
    hsealed.fenced hsealed.behind, ← hsealed.digest, hsealed.generation, hsuccession]
  simp [require, json, bind, Except.bind]

/-- Recovery finishes the save of the receipt, unless the progress file holds it
already or the receipt is a marker. -/
theorem recover_eq (hscope : InScope self disk) (h : Bound out self disk r) :
    self.recover out disk =
      .ok (if disk.progress = some (as_bytes r.progress) ∨ IsMarker r then disk
        else { disk with progress := some (as_bytes r.progress) }) := by
  have hreceipt : self.receipt out disk = .ok r := by
    unfold ProgressRecovery.receipt
    rw [current_scope_ok hscope]
    exact checked_ok h
  unfold ProgressRecovery.recover
  rw [hreceipt]
  show (if disk.progress.map out.digest = some r.digest then _ else _) = _
  have hsame : disk.progress.map out.digest = some r.digest ↔
      disk.progress = some (as_bytes r.progress) := by
    rw [h.isSealed.digest, digest_eq_iff]
  by_cases hheld : disk.progress = some (as_bytes r.progress)
  · rw [if_pos (hsame.mpr hheld), if_pos (.inl hheld)]
  · rw [if_neg (mt hsame.mp hheld)]
    obtain ⟨hdigest, hgeneration⟩ := h.progress.resolve_left hheld
    simp only [hdigest, hgeneration, json, beq_self_eq_true, require, if_true, bind, Except.bind]
    by_cases hmarker : IsMarker r
    · rw [if_pos (Or.inr hmarker)]
      exact if_pos hmarker
    · have hneither : ¬ (disk.progress = some (as_bytes r.progress) ∨ IsMarker r) := by
        rintro (hheld' | hmarker')
        · exact hheld hheld'
        · exact hmarker hmarker'
      rw [if_neg hneither]
      exact if_neg hmarker

/-- What a successful save needs and writes. -/
theorem before_progress_save_ok {bytes : List UInt8}
    {next : Except AckError (List UInt8)} (hscope : InScope self disk) (h : Bound out self disk r)
    (hsave : self.before_progress_save out disk (disk.progress.map (ProgressSeal.new out)) next =
      .ok (disk', bytes)) :
    (disk.progress = some (as_bytes r.progress) ∨ (IsMarker r ∧ disk.progress = none)) ∧
      ∃ r', disk' = ProgressRecovery.write disk r' ∧ as_bytes r'.progress = bytes ∧
        Sealed out self disk r' ∧ Names out r' disk.progress ∧
        checked_add r'.previous_generation 1 = some r'.generation := by
  have hdigests : (disk.progress.map (ProgressSeal.new out)).map ProgressSeal.digest =
      disk.progress.map out.digest := by
    cases disk.progress <;> rfl
  unfold ProgressRecovery.before_progress_save at hsave
  obtain ⟨scope, hsealed, hsave⟩ := bind_eq_ok.mp hsave
  obtain ⟨previous_generation, hprevious, hsave⟩ := bind_eq_ok.mp hsave
  obtain ⟨next, _, hsave⟩ := bind_eq_ok.mp hsave
  obtain ⟨generation, hgeneration, hsave⟩ := bind_eq_ok.mp hsave
  obtain ⟨_, hnext, hsave⟩ := bind_eq_ok.mp hsave
  obtain ⟨text, htext, hsave⟩ := bind_eq_ok.mp hsave
  cases hsave
  have hbytes := as_bytes_of_from_utf8 htext
  have hnext := beq_iff_eq.mp (require_eq_ok.mp hnext)
  unfold ProgressRecovery.sealed at hsealed
  rw [current_scope_ok hscope] at hsealed
  simp only [bind, Except.bind, checked_ok h] at hsealed
  obtain ⟨_, hheld, hscope_eq⟩ := bind_eq_ok.mp hsealed
  cases hscope_eq
  rw [require_eq_ok, hdigests] at hheld
  refine ⟨?_, _, rfl, hbytes, ?_, ?_, hnext⟩
  · simp only [Bool.or_eq_true, beq_iff_eq, Bool.and_eq_true, h.isSealed.digest, digest_eq_iff,
      isNone_iff_eq_none, map_eq_none_iff] at hheld
    rcases hheld with hheld | ⟨⟨hzero, hnone⟩, hmissing⟩
    · exact .inl hheld
    · exact .inr ⟨⟨hzero, hnone⟩, hmissing⟩
  · exact
      { version := rfl
        identity := rfl
        fenced := le_trans hscope.fenced hscope.behind
        behind := le_rfl
        digest := by rw [hbytes]
        generation := by rw [hbytes]; exact json_eq_ok.mp hgeneration
        succession := .inr hnext }
  · refine ⟨hdigests.symm, ?_⟩
    cases hprogress : disk.progress with
    | none =>
      rw [hprogress] at hprevious
      exact json_eq_ok.mp hprevious
    | some held =>
      rw [hprogress] at hprevious
      exact json_eq_ok.mp hprevious

/-- A save moves the generation of the receipt by exactly one. -/
theorem save_generation {bytes : List UInt8}
    {next : Except AckError (List UInt8)} {r' : Receipt} (hscope : InScope self disk)
    (h : Bound out self disk r)
    (hsave : self.before_progress_save out disk (disk.progress.map (ProgressSeal.new out)) next =
      .ok (disk', bytes)) (hr' : disk'.receipt = some (.written r')) :
    r'.generation = r.generation + 1 := by
  obtain ⟨hheld, r'', rfl, -, -, hnames, hnext⟩ := before_progress_save_ok hscope h hsave
  obtain rfl : r'' = r' := by
    have hwritten : some (ReceiptFile.written r'') = some (.written r') := hr'
    simpa using hwritten
  rw [checked_add_eq_some hnext]
  -- the file the receipt was sealed over has the generation of the last receipt
  have hprevious : some r''.previous_generation = some r.generation := by
    rw [← hnames.2]
    rcases hheld with hheld | ⟨hmarker, hmissing⟩
    · rw [hheld]
      exact h.isSealed.generation
    · rw [hmissing, hmarker.1]
      rfl
  rw [Option.some.inj hprevious]

theorem seal_import_unbound (hreceipt : disk.receipt = none)
    (h : self.seal_import out disk = .ok disk')
    (hreached : self.scope.generation ≤ self.reached disk) :
    InScope self disk' ∧ ∃ r, Bound out self disk' r := by
  unfold ProgressRecovery.seal_import at h
  obtain ⟨_, hfence, h⟩ := bind_eq_ok.mp h
  have hfence := require_eq_ok.mp hfence
  simp only [Bool.and_eq_true, beq_iff_eq, decide_eq_true_eq] at hfence
  unfold ProgressRecovery.adopt at h
  obtain ⟨generation, hgeneration, h⟩ := bind_eq_ok.mp h
  rw [hreceipt] at h
  obtain ⟨text, htext, h⟩ := bind_eq_ok.mp h
  cases h
  have hbytes := as_bytes_of_from_utf8 htext
  have hgeneration := json_eq_ok.mp hgeneration
  refine ⟨⟨hfence.2, hreached⟩, _, rfl, ?_, ?_⟩
  · exact
      { version := rfl
        identity := rfl
        fenced := hfence.2
        behind := hreached
        digest := by rw [hbytes]
        generation := by rw [hbytes]; exact hgeneration
        succession := .inl rfl }
  · cases hprogress : disk.progress with
    | some held =>
      left
      rw [hprogress] at hbytes
      show disk.progress = some (as_bytes text)
      rw [hbytes, hprogress]
      rfl
    | none =>
      right
      rw [hprogress] at hgeneration
      have hzero : some generation = some 0 := hgeneration.symm.trans out.generation_of_marker
      refine ⟨?_, ?_⟩
      · show disk.progress.map out.digest = none
        rw [hprogress]
        rfl
      · show generationOf out disk.progress = some generation
        rw [hprogress, hzero]
        rfl

/-! ## Every run -/

/-- Before the first adoption there is nothing to recover; after it, the
progress file stands at the receipt or at its predecessor, and a save that is
under way writes what the receipt seals. -/
inductive Inv (out : Outside) (owner : ProgressRecovery) (s : State) : Prop
  | unbound (receipt : s.disk.receipt = none) (pending : s.pending = none)
      (behind : owner.scope.generation ≤ owner.reached s.disk)
  | bound (r : Receipt) (scope : InScope owner s.disk) (receipt : Bound out owner s.disk r)
      (pending : ∀ bytes, s.pending = some bytes → bytes = as_bytes r.progress)

theorem reached_le_commit (self : ProgressRecovery) (disk : Disk) (generation : Nat) :
    self.reached disk ≤
      self.reached { disk with db_generation := max disk.db_generation generation } := by
  unfold ProgressRecovery.reached
  split
  · exact le_max_left _ _
  · exact le_rfl

theorem seal_import_bound (hr : disk.receipt = some (.written r))
    (h : self.seal_import out disk = .ok disk') : disk' = disk := by
  unfold ProgressRecovery.seal_import at h
  obtain ⟨_, -, h⟩ := bind_eq_ok.mp h
  unfold ProgressRecovery.adopt at h
  obtain ⟨_, -, h⟩ := bind_eq_ok.mp h
  rw [hr] at h
  obtain ⟨_, -, h⟩ := bind_eq_ok.mp h
  obtain ⟨_, -, h⟩ := bind_eq_ok.mp h
  exact (Except.ok.inj h).symm

/-- Without a receipt nothing is read as sealed. -/
theorem checked_unbound {scope : Scope} (h : disk.receipt = none) (r : Receipt) :
    ProgressRecovery.checked out scope disk ≠ .ok r := by
  unfold ProgressRecovery.checked
  rw [h]
  intro heq
  cases heq

theorem save_unbound (h : disk.receipt = none) (previous : Option ProgressSeal)
    (next : Except AckError (List UInt8)) (saved : Disk × List UInt8) :
    self.before_progress_save out disk previous next ≠ .ok saved := by
  intro hsave
  obtain ⟨_, hsealed, -⟩ := bind_eq_ok.mp hsave
  obtain ⟨_, -, hsealed⟩ := bind_eq_ok.mp hsealed
  obtain ⟨r, hchecked, -⟩ := bind_eq_ok.mp hsealed
  exact checked_unbound h r hchecked

theorem recover_unbound (h : disk.receipt = none) (disk' : Disk) :
    self.recover out disk ≠ .ok disk' := by
  intro hrecover
  obtain ⟨_, hreceipt, -⟩ := bind_eq_ok.mp hrecover
  obtain ⟨_, -, hreceipt⟩ := bind_eq_ok.mp hreceipt
  exact checked_unbound h _ hreceipt

/-- The receipt still stands after recovery, over the bytes it seals. -/
theorem bound_recovered (h : Bound out self disk r) :
    Bound out self (if disk.progress = some (as_bytes r.progress) ∨ IsMarker r then disk
      else { disk with progress := some (as_bytes r.progress) }) r := by
  split
  · exact h
  · exact ⟨h.written, h.isSealed.mono le_rfl, .inl rfl⟩

theorem inScope_recovered (r : Receipt) (h : InScope self disk) :
    InScope self (if disk.progress = some (as_bytes r.progress) ∨ IsMarker r then disk
      else { disk with progress := some (as_bytes r.progress) }) := by
  split
  · exact h
  · exact h.mono le_rfl

theorem step_unbound {s : State} (hreceipt : s.disk.receipt = none) (hpending : s.pending = none)
    (hbehind : self.scope.generation ≤ self.reached s.disk) (a : Step) :
    Inv out self (step out self s a) := by
  have hsame : Inv out self s := .unbound hreceipt hpending hbehind
  cases a with
  | adopt =>
    cases hseal : self.seal_import out s.disk with
    | error e => simpa only [step, hpending, hseal] using hsame
    | ok disk =>
      obtain ⟨hscope, r, hbound⟩ := seal_import_unbound hreceipt hseal hbehind
      simp only [step, hpending, hseal]
      exact .bound r hscope hbound (by rintro bytes ⟨⟩)
  | save next =>
    cases hsave : self.before_progress_save out s.disk
        (s.disk.progress.map (ProgressSeal.new out)) next with
    | error e => simpa only [step, hpending, hsave] using hsame
    | ok saved => exact absurd hsave (save_unbound hreceipt _ _ _)
  | replace => simpa only [step, hpending] using hsame
  | recover =>
    cases hrecover : self.recover out s.disk with
    | error e => simpa only [step, hpending, hrecover] using hsame
    | ok disk => exact absurd hrecover (recover_unbound hreceipt _)
  | crash => exact .unbound hreceipt rfl hbehind
  | commit generation =>
    exact .unbound hreceipt hpending (le_trans hbehind (reached_le_commit _ _ _))

/-- What one step does to the receipt, once there is one: a save that succeeds
moves its generation by one, and every other step leaves it. -/
theorem step_bound {s : State} (hscope : InScope self s.disk) (hbound : Bound out self s.disk r)
    (hpending : ∀ bytes, s.pending = some bytes → bytes = as_bytes r.progress) (a : Step) :
    ∃ r', InScope self (step out self s a).disk ∧ Bound out self (step out self s a).disk r' ∧
      (∀ bytes, (step out self s a).pending = some bytes → bytes = as_bytes r'.progress) ∧
      (r' = r ∨ ∃ next, a = .save next ∧ r'.generation = r.generation + 1) := by
  have hsame : ∀ t : State, t = s → ∃ r', InScope self t.disk ∧ Bound out self t.disk r' ∧
      (∀ bytes, t.pending = some bytes → bytes = as_bytes r'.progress) ∧
      (r' = r ∨ ∃ next, a = .save next ∧ r'.generation = r.generation + 1) := by
    rintro t rfl
    exact ⟨r, hscope, hbound, hpending, .inl rfl⟩
  cases a with
  | adopt =>
    apply hsame
    cases hnone : s.pending with
    | some bytes => simp only [step, hnone]
    | none =>
      cases hseal : self.seal_import out s.disk with
      | error e => simp only [step, hnone, hseal]
      | ok disk =>
        obtain rfl := seal_import_bound hbound.written hseal
        simp only [step, hnone, hseal]
        rw [← hnone]
  | save next =>
    cases hnone : s.pending with
    | some bytes => exact hsame _ (by simp only [step, hnone])
    | none =>
      cases hsave : self.before_progress_save out s.disk
          (s.disk.progress.map (ProgressSeal.new out)) next with
      | error e => exact hsame _ (by simp only [step, hnone, hsave])
      | ok saved =>
        obtain ⟨disk, bytes⟩ := saved
        simp only [step, hnone, hsave]
        obtain ⟨-, r', hdisk, hbytes, hsealed, hnames, -⟩ :=
          before_progress_save_ok hscope hbound hsave
        have hwritten : disk.receipt = some (.written r') := by rw [hdisk]; rfl
        refine ⟨r', ?_, ⟨hwritten, ?_, ?_⟩, ?_, .inr ⟨next, rfl, ?_⟩⟩
        · rw [hdisk]
          exact hscope.mono le_rfl
        · rw [hdisk]
          exact hsealed.mono le_rfl
        · rw [hdisk]
          exact .inr hnames
        · intro held hheld
          rw [hbytes]
          exact (Option.some.inj hheld).symm
        · exact save_generation hscope hbound hsave hwritten
  | replace =>
    cases hsome : s.pending with
    | none => exact hsame _ (by simp only [step, hsome])
    | some bytes =>
      obtain rfl := hpending bytes hsome
      simp only [step, hsome]
      exact ⟨r, hscope.mono le_rfl,
        ⟨hbound.written, hbound.isSealed.mono le_rfl, .inl rfl⟩, by rintro held ⟨⟩, .inl rfl⟩
  | recover =>
    cases hnone : s.pending with
    | some bytes => exact hsame _ (by simp only [step, hnone])
    | none =>
      simp only [step, hnone, recover_eq hscope hbound]
      exact ⟨r, inScope_recovered r hscope, bound_recovered hbound, by rintro held ⟨⟩, .inl rfl⟩
  | crash => exact ⟨r, hscope, hbound, by rintro held ⟨⟩, .inl rfl⟩
  | commit generation =>
    have hreached := reached_le_commit self s.disk generation
    exact ⟨r, hscope.mono hreached,
      ⟨hbound.written, hbound.isSealed.mono hreached, hbound.progress⟩, hpending, .inl rfl⟩

theorem run_inv (disk : Disk) (hunbound : disk.receipt = none)
    (hbehind : self.scope.generation ≤ self.reached disk) (steps : List Step) :
    Inv out self (run (step out self) ⟨disk, none⟩ steps) := by
  apply Run.invariant (Inv out self)
  · intro s a hs
    cases hs with
    | unbound hreceipt hpending hbehind => exact step_unbound hreceipt hpending hbehind a
    | bound r hscope hbound hpending =>
      obtain ⟨r', hscope', hbound', hpending', -⟩ := step_bound hscope hbound hpending a
      exact .bound r' hscope' hbound' hpending'
  · exact .unbound hunbound rfl hbehind

/-- A marker names no predecessor, so its progress file is missing until a save. -/
theorem marker_progress (h : Bound out self disk r) (hmarker : IsMarker r)
    (hheld : disk.progress ≠ some (as_bytes r.progress)) : disk.progress = none := by
  have hnames := (h.progress.resolve_left hheld).1
  rw [hmarker.2] at hnames
  exact map_eq_none_iff.mp hnames

theorem recover_spec (hscope : InScope self disk) (h : Bound out self disk r) :
    ∃ disk', self.recover out disk = .ok disk' ∧ disk'.receipt = some (.written r) ∧
      (disk'.progress = some (as_bytes r.progress) ∨ (IsMarker r ∧ disk'.progress = none)) ∧
      self.recover out disk' = .ok disk' := by
  refine ⟨_, recover_eq hscope h, (bound_recovered h).written, ?_, ?_⟩
  · by_cases hheld : disk.progress = some (as_bytes r.progress)
    · exact .inl (by rw [if_pos (.inl hheld), hheld])
    · by_cases hmarker : IsMarker r
      · right
        rw [if_pos (.inr hmarker)]
        exact ⟨hmarker, marker_progress h hmarker hheld⟩
      · left
        rw [if_neg (by rintro (h' | h') <;> contradiction)]
  · rw [recover_eq (inScope_recovered r hscope) (bound_recovered h)]
    congr 1
    by_cases hdone : disk.progress = some (as_bytes r.progress) ∨ IsMarker r
    · simp only [if_pos hdone]
    · simp only [if_neg hdone]
      exact if_pos (.inl trivial)

end

/-- In every state a run with crashes reaches after the ledger was adopted: the
progress file holds what the receipt seals or its predecessor; recovery succeeds,
finishes the last sealed save and changes nothing the second time, and only an
adopted missing ledger stays missing; a receipt stays, and a save that is sealed
moves its generation by exactly one. -/
theorem recovery_finishes_the_last_save (out : Outside) (self : ProgressRecovery) (disk : Disk)
    (hunbound : disk.receipt = none) (hbehind : self.scope.generation ≤ self.reached disk)
    (steps : List Step) (f : ReceiptFile)
    (hreceipt : (run (step out self) ⟨disk, none⟩ steps).disk.receipt = some f) :
    let s := run (step out self) ⟨disk, none⟩ steps
    ∃ r, f = .written r ∧
      (s.disk.progress = some (as_bytes r.progress) ∨
        s.disk.progress.map out.digest = r.previous_digest) ∧
      (∃ disk', self.recover out s.disk = .ok disk' ∧ disk'.receipt = some (.written r) ∧
        (disk'.progress = some (as_bytes r.progress) ∨
          (r.generation = 0 ∧ r.previous_digest = none) ∧ disk'.progress = none) ∧
        self.recover out disk' = .ok disk') ∧
      (∀ a, ∃ r', (step out self s a).disk.receipt = some (.written r') ∧
        (r' = r ∨ ∃ next, a = .save next ∧ r'.generation = r.generation + 1)) ∧
      ∀ next disk' bytes,
        self.before_progress_save out s.disk (s.disk.progress.map (ProgressSeal.new out)) next =
          .ok (disk', bytes) →
        ∃ r', disk'.receipt = some (.written r') ∧ as_bytes r'.progress = bytes ∧
          r'.generation = r.generation + 1 := by
  intro s
  cases @run_inv out self disk hunbound hbehind steps with
  | unbound hnone _ _ => cases hnone.symm.trans hreceipt
  | bound r hscope hbound hpending =>
    refine ⟨r, ?_, ?_, recover_spec hscope hbound, ?_, ?_⟩
    · exact Option.some.inj (hreceipt.symm.trans hbound.written)
    · exact hbound.progress.imp id And.left
    · intro a
      obtain ⟨r', -, hbound', -, hmoved⟩ := step_bound hscope hbound hpending a
      exact ⟨r', hbound'.written, hmoved⟩
    · intro next disk' bytes hsave
      obtain ⟨-, r', hdisk, hbytes, -⟩ := before_progress_save_ok hscope hbound hsave
      have hwritten : disk'.receipt = some (.written r') := by rw [hdisk]; rfl
      exact ⟨r', hwritten, hbytes, save_generation hscope hbound hsave hwritten⟩

/-- A digest that keeps the bytes, and a reader of two ledgers. -/
def exampleOutside : Outside where
  sha256 := id
  sha256_injective := Function.injective_id
  progress_generation bytes :=
    if bytes = as_bytes MARKER then some 0
    else if bytes = as_bytes "\x7b\"generation\":1\x7d" then some 1
    else none
  generation_of_marker := if_pos rfl

def exampleOwner : ProgressRecovery where
  scope := ⟨⟨FORMAT, "db", ⟨.Claude, "namespace"⟩, 0⟩, 0⟩
  db_path := false

/-- The receipt of the first save is written and the progress file is not. -/
theorem a_cut_save_is_recovered :
    let next := as_bytes "\x7b\"generation\":1\x7d"
    let s := run (step exampleOutside exampleOwner) ⟨{}, none⟩ [.adopt, .save (.ok next), .crash]
    s.disk.progress = none ∧ ∃ disk', exampleOwner.recover exampleOutside s.disk = .ok disk' ∧
      disk'.progress = some next := by
  have hreceipt : ∃ r, (run (step exampleOutside exampleOwner) ⟨{}, none⟩
      [.adopt, .save (.ok (as_bytes "\x7b\"generation\":1\x7d")), .crash]).disk.receipt =
      some (.written r) ∧ as_bytes r.progress = as_bytes "\x7b\"generation\":1\x7d" ∧
        r.generation = 1 := by
    exact ⟨_, rfl, rfl, rfl⟩
  obtain ⟨r, hreceipt, hbytes, hone⟩ := hreceipt
  obtain ⟨r', hr', -, ⟨disk', hrecover, -, hprogress, -⟩, -⟩ :=
    recovery_finishes_the_last_save exampleOutside exampleOwner {} rfl (by decide) _ _ hreceipt
  obtain rfl : r = r' := by simpa using hr'
  refine ⟨rfl, disk', hrecover, ?_⟩
  rcases hprogress with hprogress | ⟨⟨hzero, -⟩, -⟩
  · rw [hprogress, hbytes]
  · rw [hone] at hzero
    cases hzero

/-- Recovery holds before anything is adopted, and after a missing ledger was
adopted it leaves the progress file missing. -/
theorem a_missing_ledger_is_not_replaced :
    exampleOwner.recover exampleOutside {} = .error (.hold "unbound") ∧
      let s := run (step exampleOutside exampleOwner) ⟨{}, none⟩ [.adopt]
      (∃ r, s.disk.receipt = some (.written r) ∧ as_bytes r.progress = as_bytes MARKER) ∧
        exampleOwner.recover exampleOutside s.disk = .ok s.disk ∧ s.disk.progress = none := by
  exact ⟨rfl, ⟨_, rfl, rfl⟩, rfl, rfl⟩

end ottto_service.state_v2.ack
