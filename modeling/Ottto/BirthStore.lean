-- The births of Claude files (snapshots/claude_request_money/birth_store.rs):
-- per session the least birth seen, the path that holds it, and the birth of
-- each path with the generation that a move retires.
import Ottto.Runs
import Ottto.SortedVec
import Ottto.TailCodec
import Ottto.Words

namespace ottto_service.claude_money_birth_store

open Words SortedVec
open durable_tail_codec.Durable (as_bytes to_le_bytes from_le_bytes)

def ABSENT_RETENTION_SECONDS : UInt64 := 30 * 24 * 60 * 60

/-! ## Keys -/

/-- `[u8; 16]`. -/
def LocationKey : Type := { bytes : List UInt8 // bytes.length = 16 }

namespace LocationKey

theorem numbers_injective :
    Function.Injective (fun key : LocationKey => key.1.map UInt8.toNat) := by
  intro a b h
  exact Subtype.ext (List.map_injective_iff.mpr (fun _ _ => UInt8.toNat_inj.mp) h)

/-- Keys compare byte by byte. -/
instance byteOrder : LinearOrder LocationKey :=
  LinearOrder.lift' (fun key => key.1.map UInt8.toNat) numbers_injective

end LocationKey

/-- A SHA-256 digest. -/
abbrev Digest : Type := { bytes : List UInt8 // bytes.length = 32 }

structure Outside where
  sha256 : List UInt8 → Digest

variable (out : Outside)

theorem prefix_length (digest : Digest) : (digest.1.take 16).length = 16 := by
  rw [List.length_take, digest.2]
  rfl

def key (domain : String) (value : String) : LocationKey :=
  ⟨(out.sha256 (as_bytes domain ++ as_bytes value)).1.take 16, prefix_length _⟩

def location_key (path : String) : LocationKey := key out "claude-money-path-v1\x00" path

def session_key (session : String) : LocationKey := key out "claude-money-session-v1\x00" session

/-! ## The opened object -/

/-- An object of zero is unknown. -/
structure BirthIdentity where
  object : UInt64 := 0
  size : UInt32 := 0
deriving DecidableEq

structure ClaudeOpenedBirth where
  birth : UInt64
  device : UInt64
  inode : UInt64
  size : UInt64

/-- Wire generations are 31 bits: the low bit of the word tags an identity. -/
def MAX_GENERATION : UInt64 := 2147483647

namespace BirthIdentity

/-- `BirthIdentity::object` -/
def object_of (device inode : UInt64) : UInt64 :=
  if inode = 0 then 0
  else
    let digest := UInt64.ofNat (from_le_bytes ((out.sha256 (as_bytes "claude-money-object-v1\x00" ++
      to_le_bytes 8 device.toNat ++ to_le_bytes 8 inode.toNat)).1.take 8))
    if digest = 0 then 1 else digest

def from_opened (opened : ClaudeOpenedBirth) : BirthIdentity :=
  if opened.size.toNat < 2 ^ 32 then
    ⟨object_of out opened.device opened.inode, UInt32.ofNat opened.size.toNat⟩
  else {}

def covers (self : BirthIdentity) (current : ClaudeOpenedBirth) : Bool :=
  self.object != 0 && decide (current.size.toNat < 2 ^ 32) &&
    self.object == object_of out current.device current.inode &&
    decide (self.size.toNat ≤ current.size.toNat)

end BirthIdentity

/-! ## The table -/

/-- The birth is zero when a move has retired the path. -/
structure Observation where
  birth : UInt64
  generation : UInt64
  opened : BirthIdentity
deriving DecidableEq

structure Session where
  owner : LocationKey
  cutoff : UInt64
  absent : UInt64
  paths : List (LocationKey × Observation)
deriving DecidableEq

structure MoneyMarks where
  version : UInt16 := 0
  paths : List (LocationKey × UInt8) := []
deriving DecidableEq

/-- The staged paths are a vector of keys alone. -/
structure BirthStore where
  sessions : List (LocationKey × Session) := []
  staged : List (LocationKey × Unit) := []
  marks : MoneyMarks := {}
deriving DecidableEq

namespace BirthStore

variable (self : BirthStore)

/-- Replace a path's marks; zero forgets it. -/
def set_money_marks (path : String) (marks : UInt8) : BirthStore :=
  if marks = 0 ∧ self.marks.paths = [] then self
  else
    let key := location_key out path
    match binary_search self.marks.paths key with
    | .ok i =>
      if marks = 0 then
        { self with marks := { self.marks with paths := self.marks.paths.eraseIdx i } }
      else
        { self with marks := { self.marks with paths := self.marks.paths.set i (key, marks) } }
    | .error i =>
      if marks = 0 then self
      else
        { self with marks := { self.marks with paths := self.marks.paths.insertIdx i (key, marks) } }

/-- The caller sorts the keys that it passes, for the search of each. -/
def retain_money_marks (live : List LocationKey) : BirthStore :=
  { self with marks :=
    { self.marks with paths := self.marks.paths.filter (fun m => live.contains m.1) } }

def get (session : String) : Option Session :=
  match binary_search self.sessions (session_key out session) with
  | .ok i => some (self.sessions.get i).2
  | .error _ => none

def observed_birth (session path : String) : Option Int := do
  let s ← self.get out session
  match binary_search s.paths (location_key out path) with
  | .ok i => if (s.paths.get i).2.birth != 0 then some (s.paths.get i).2.birth.toNat else none
  | .error _ => none

def session_effective_cutoff (session : String) : Option Int := do
  let s ← self.get out session
  some s.cutoff.toNat

end BirthStore

/-! ## Observations -/

/-- `u64::try_from(birth)` -/
def u64_try_from (birth : Int) : Option UInt64 :=
  if 0 ≤ birth ∧ birth < 2 ^ 64 then some (UInt64.ofNat birth.toNat) else none

/-- The least birth of a path, which a retired path has lost. -/
def observe_path (paths : List (LocationKey × Observation)) (pk : LocationKey) (birth : UInt64) :
    List (LocationKey × Observation) :=
  match binary_search paths pk with
  | .ok j =>
    let o := (paths.get j).2
    let least := if o.birth = 0 then birth else if birth < o.birth then birth else o.birth
    paths.set j (pk, { o with birth := least })
  | .error j => paths.insertIdx j (pk, ⟨birth, 0, {}⟩)

/-- The arm of `record_observation` for a session that the table has. -/
def Session.observe (s : Session) (pk : LocationKey) (birth : UInt64) : Session :=
  let paths := observe_path s.paths pk birth
  -- `unwrap`: the path is there now
  let observed := match binary_search paths pk with
    | .ok j => (paths.get j).2.birth
    | .error _ => 0
  if observed < s.cutoff then { owner := pk, cutoff := observed, absent := 0, paths }
  else { s with absent := 0, paths }

/-- The second half of `record_opened`, on the session of the path. -/
def Session.note_opened (s : Session) (pk : LocationKey) (remembered : Bool) (birth : Int)
    (opened : ClaudeOpenedBirth) : Session :=
  match binary_search s.paths pk with
  | .error _ => s
  | .ok j =>
    let o := (s.paths.get j).2
    if !remembered && decide ((o.birth.toNat : Int) = birth) then
      { s with paths := s.paths.set j (pk, { o with opened := BirthIdentity.from_opened out opened }) }
    else if o.opened.covers out opened then
      let size := if opened.size.toNat < 2 ^ 32 then UInt32.ofNat opened.size.toNat else 4294967295
      { s with paths := s.paths.set j (pk, { o with opened := { o.opened with size } }) }
    else s

/-- `record_proven_move`, on the session of the path. -/
def Session.proven_move (s : Session) (source target : LocationKey) : Option Session :=
  if s.owner ≠ source then none
  else match binary_search s.paths target with
    | .error _ => none
    | .ok destination =>
      if (s.paths.get destination).2.birth = 0 then none
      else if source = target then some s
      else match binary_search s.paths source with
        | .error _ => none
        | .ok i =>
          let generation := (s.paths.get i).2.generation.toNat + 1
          if generation ≤ MAX_GENERATION.toNat then
            some { s with
              owner := target
              absent := 0
              paths := s.paths.set i (source, ⟨0, UInt64.ofNat generation, {}⟩) }
          else none

namespace BirthStore

variable (self : BirthStore)

/-- Only a physical birth belongs here, never an inherited cutoff. -/
def record_observation (session path : String) (birth : Int) : BirthStore :=
  match u64_try_from birth with
  | none => self
  | some birth =>
    if birth = 0 then self
    else
      let sk := session_key out session
      let pk := location_key out path
      match binary_search self.sessions sk with
      | .ok i =>
        { self with sessions := self.sessions.set i (sk, (self.sessions.get i).2.observe pk birth) }
      | .error i =>
        let first : Session := ⟨pk, birth, 0, [(pk, ⟨birth, 0, {}⟩)]⟩
        { self with sessions := self.sessions.insertIdx i (sk, first) }

/-- The identity at birth is remembered, and never bound to a replacement. -/
def record_opened (session path : String) (birth : Int) (opened : ClaudeOpenedBirth) :
    BirthStore :=
  let remembered := (self.observed_birth out session path).isSome
  let recorded := self.record_observation out session path birth
  let sk := session_key out session
  match binary_search recorded.sessions sk with
  | .error _ => recorded
  | .ok i =>
    let s := (recorded.sessions.get i).2.note_opened out (location_key out path) remembered birth opened
    { recorded with sessions := recorded.sessions.set i (sk, s) }

/-- A page's paths are staged once. -/
def stage (pk : LocationKey) : BirthStore :=
  match binary_search self.staged pk with
  | .error i => { self with staged := self.staged.insertIdx i (pk, ()) }
  | .ok _ => self

def stage_opened (session path : String) (opened : Option ClaudeOpenedBirth) : BirthStore :=
  let recorded := match opened.filter (fun o => o.birth != 0) with
    | some opened => self.record_opened out session path opened.birth.toNat opened
    | none => self
  recorded.stage (location_key out path)

/-! ## Moves -/

/-- Validation alone, before any generation is retired. -/
def can_record_discovered_move (session source target : String) (opened : ClaudeOpenedBirth) :
    Bool :=
  match self.get out session with
  | none => false
  | some s =>
    match s.paths.find? (fun o => o.1 == location_key out source) with
    | none => false
    | some old =>
      s.owner == location_key out source && old.2.birth != 0 && old.2.birth == opened.birth &&
        old.2.opened.covers out opened && decide (old.2.generation < MAX_GENERATION) &&
        (match s.paths.find? (fun o => o.1 == location_key out target) with
          | none => true
          | some o => o.2.birth == opened.birth && o.2.opened.covers out opened)

/-- The caller proves a move of the current owner. -/
def record_proven_move (session : String) (source : LocationKey) (target : String) :
    BirthStore × Bool :=
  let sk := session_key out session
  match binary_search self.sessions sk with
  | .error _ => (self, false)
  | .ok i =>
    match (self.sessions.get i).2.proven_move source (location_key out target) with
    | none => (self, false)
    | some s => ({ self with sessions := self.sessions.set i (sk, s) }, true)

def record_discovered_move (session source target : String) (opened : ClaudeOpenedBirth) :
    BirthStore × Bool :=
  if self.can_record_discovered_move out session source target opened then
    (self.record_opened out session target opened.birth.toNat opened).record_proven_move out session
      (location_key out source) target
  else (self, false)

/-! ## Restoring, pruning, loading -/

/-- One observation of an older table. -/
def preserve_path (paths : List (LocationKey × Observation)) (old : LocationKey × Observation) :
    List (LocationKey × Observation) :=
  match binary_search paths old.1 with
  | .ok j =>
    let current := (paths.get j).2
    if current.generation < old.2.generation then paths.set j old
    else if old.2.generation = current.generation ∧ old.2.birth ≠ 0 ∧ current.birth ≠ 0 then
      let birth := if old.2.birth < current.birth then old.2.birth else current.birth
      let opened := if current.opened.object = old.2.opened.object then
          { current.opened with size := if current.opened.size < old.2.opened.size
              then old.2.opened.size else current.opened.size }
        else current.opened
      paths.set j (old.1, { current with birth, opened })
    else paths
  | .error j => paths.insertIdx j old

def preserve_session (sessions : List (LocationKey × Session)) (old : LocationKey × Session) :
    List (LocationKey × Session) :=
  match binary_search sessions old.1 with
  | .error i => sessions.insertIdx i old
  | .ok i =>
    let s := (sessions.get i).2
    let paths := old.2.paths.foldl preserve_path s.paths
    let s := if old.2.cutoff < s.cutoff then
        { s with paths, owner := old.2.owner, cutoff := old.2.cutoff }
      else { s with paths }
    sessions.set i (old.1, s)

def preserve_mark (paths : List (LocationKey × UInt8)) (old : LocationKey × UInt8) :
    List (LocationKey × UInt8) :=
  match binary_search paths old.1 with
  | .error i => paths.insertIdx i old
  | .ok _ => paths

/-- Observations survive the restoration of a partial save. -/
def preserve_missing_from (previous : BirthStore) : BirthStore where
  sessions := previous.sessions.foldl preserve_session self.sessions
  staged := self.staged
  marks := {
    version := if self.marks.version < previous.marks.version then previous.marks.version
      else self.marks.version
    paths := previous.marks.paths.foldl preserve_mark self.marks.paths }

/-- Whole sessions are absent, not paths. The keys of the indexed sessions
are sorted for the search of each. -/
def prune (now : UInt64) (indexed : List (String × String)) : BirthStore :=
  let live := indexed.map (fun i => session_key out i.1)
  let marked := self.sessions.map (fun s =>
    if live.contains s.1 then (s.1, { s.2 with absent := 0 })
    else if s.2.absent = 0 then (s.1, { s.2 with absent := if now = 0 then 1 else now })
    else s)
  { self with sessions := marked.filter (fun s => s.2.absent == 0 ||
      decide (saturating_sub now s.2.absent < ABSENT_RETENTION_SECONDS)) }

/-- What the loader asks of a session. -/
def valid_session (s : Session) : Bool :=
  s.cutoff != 0 && !s.paths.isEmpty && windows_ordered s.paths &&
    s.paths.all (fun o => !(o.2.birth == 0 && o.2.generation == 0)) &&
    s.paths.any (fun o => o.1 == s.owner && o.2.birth != 0)

/-- A table that is malformed or unordered is discarded as a unit. -/
def valid : Option BirthStore :=
  if windows_ordered self.sessions && windows_ordered self.marks.paths &&
      self.marks.paths.all (fun m => m.2 != 0) && self.sessions.all (fun s => valid_session s.2) then
    some self
  else none

end BirthStore

end ottto_service.claude_money_birth_store
