-- Shared evidence (snapshots/state_v2/interning.rs, mapper.rs, sqlite/references.rs):
-- records refer to interned request sets, and each set counts its references.
import Ottto.SortedMap
import Ottto.Results
import Ottto.CanonicalJson

namespace ottto_service.state_v2

open serde_json Results List Option SortedMap

/-! ## Rows -/

def VALUE_BYTES : Nat := 64 * 1024 * 1024

/-- What the rows rest on: the JSON text of a value, its length, the digest of
a row and the commitment of a set. -/
structure RowCodec where
  Text : Type
  textEq : DecidableEq Text
  Digest : Type
  digestEq : DecidableEq Digest
  to_vec : Value → Text
  to_vec_injective : Function.Injective to_vec
  len : Text → Nat
  digest : Text → Digest
  digest_injective : Function.Injective digest
  commitment : Text → Digest

instance (codec : RowCodec) : DecidableEq codec.Text := codec.textEq

instance (codec : RowCodec) : DecidableEq codec.Digest := codec.digestEq

/-- A request set: its commitment, its count and the pair it holds. -/
structure SetRow (codec : RowCodec) where
  commitment : codec.Digest
  refs : Nat
  value : Value

/-- The record rows, the request sets and the next set number. -/
structure Store (codec : RowCodec) (Key : Type) [LinearOrder Key] where
  records : SortedMap Key Value := .empty
  sets : SortedMap Nat (SetRow codec) := .empty
  next_request_set_id : Option Nat := none

def ensure (ok : Bool) (message : String) : Except String Unit :=
  if ok then .ok () else .error message

def context {α : Type} (value : Option α) (message : String) : Except String α :=
  match value with
  | some a => .ok a
  | none => .error message

/-! ## References in a record -/

/-- Shared-evidence kinds: the field that holds the references, and the class. -/
def SHARED : List (String × String × String) :=
  [("account_window", "r", "account"),
    ("usage.pending", "member_request_id_hashes", "requests"),
    ("proof.usage", "legacy_excluded_request_id_hashes", "requests"),
    ("file.census", "b", "census")]

def shared (kind : String) : Option (String × String) :=
  (SHARED.find? (fun row => row.1 == kind)).map Prod.snd

/-- `{"$request_set": id}`. -/
def reference (id : Nat) : Value :=
  .object [("$request_set", .number (.PosInt (UInt64.ofNat id)))]

/-- The number an object with this one member refers to. -/
def id_of (value : Value) : Option Nat :=
  match value with
  | .object [(key, member)] =>
    if key = "$request_set" then (member.as_u64).map UInt64.toNat else none
  | _ => none

def evidence_values (kind : String) (value : Value) : List Value :=
  if kind = "file.census" then (value.get "b").toList
  else
    match shared kind with
    | some (field, _) =>
      match value.get field with
      | some (.object members) => members.map Prod.snd
      | _ => []
    | none => []

def ref_ids (kind : String) (value : Value) : Except String (List Nat) :=
  (evidence_values kind value).mapM (fun v => context (id_of v) "state_v2_shared_reference")

def references (kind : String) (value : Value) : Except String (List Nat) :=
  if (shared kind).isNone then .ok [] else ref_ids kind value

/-! ## Request sets -/

section

variable {codec : RowCodec} {Key : Type} [LinearOrder Key]

/-- The pair a set holds. -/
def evidence (class_name : String) (value : Value) : Value := .array [.string class_name, value]

namespace Store

variable (self : Store codec Key)

/-- The number comes from the high water, which a store with sets must have. -/
def allocate (existing : Bool) : Except String (Nat × Store codec Key) := do
  let id ← (match self.next_request_set_id with
    | some id => .ok id
    | none => if existing then .error "state_v2_high_water_missing" else .ok 1)
  let _ ← ensure (decide (0 < id ∧ id < 2 ^ 63)) "state_v2_ordinal_exhausted"
  let _ ← ensure (self.sets.get? id).isNone "state_v2_high_water_reused"
  .ok (id, { self with next_request_set_id := some (id + 1) })

/-- The sets with this commitment are read in the order of their numbers, and
compared byte for byte. -/
def candidate (json : codec.Text) : Option Nat :=
  (self.sets.entries.find? (fun e =>
    e.2.commitment == codec.commitment json && codec.to_vec e.2.value == json)).map Prod.fst

/-- The set of the evidence, and whether it is new. A new one holds its first
reference. -/
def resolve (class_name : String) (value : Value) :
    Except String ((Nat × Bool) × Store codec Key) := do
  let json := codec.to_vec (evidence class_name value)
  let _ ← ensure (decide (codec.len json ≤ VALUE_BYTES)) "state_v2_value_admission"
  match self.candidate json with
  | some id => .ok ((id, false), self)
  | none => do
    let (id, self) ← self.allocate !self.sets.isEmpty
    let row := { commitment := codec.commitment json, refs := 1, value := evidence class_name value }
    .ok ((id, true), { self with sets := self.sets.insert id row })

/-- The evidence of a set, if it is of the expected class. -/
def read_set (expected : String) (id : Nat) : Except String Value := do
  let row ← context (self.sets.get? id) "state_v2_reference_missing"
  match row.value with
  | .array [.string class_name, value] =>
    if class_name = expected then .ok value else .error "state_v2_shared_class"
  | _ => .error "state_v2_value_codec"

/-- A count that reaches zero takes its set with it. -/
def adjust_refs (id : Nat) (delta : Int) : Except String (Store codec Key) := do
  let row ← context (self.sets.get? id) "state_v2_reference_missing"
  let next := (row.refs : Int) + delta
  let _ ← ensure (decide (0 ≤ next ∧ next < 2 ^ 63)) "state_v2_reference_count"
  if next = 0 then .ok { self with sets := self.sets.erase id }
  else if delta ≠ 0 then
    .ok { self with sets := self.sets.insert id { row with refs := next.toNat } }
  else .ok self

end Store

/-- The change of each count, by the number of the set. -/
def deltas (old new : List Nat) : SortedMap Nat Int :=
  let add := fun (sign : Int) (counts : SortedMap Nat Int) (id : Nat) =>
    counts.insert id ((counts.get? id).getD 0 + sign)
  new.foldl (add 1) (old.foldl (add (-1)) .empty)

namespace Store

variable (self : Store codec Key)

def diff_refs (old new : List Nat) : Except String (Store codec Key) :=
  (deltas old new).entries.foldlM
    (fun s e => if e.2 ≠ 0 then s.adjust_refs e.1 e.2 else .ok s) self

end Store

/-! ## Evidence projection -/

/-- The first member with the key is the member: a map holds a key once. -/
def setMember (key : String) (value : Value) : List (String × Value) → List (String × Value)
  | [] => []
  | (k, v) :: rest => if k = key then (k, value) :: rest else (k, v) :: setMember key value rest

/-- The values `shared_json` replaces: the field of a census, the members of
the field of any other kind. -/
def projected (kind field : String) (json : Value) : Except String (List Value) :=
  match json.get field with
  | none => .ok []
  | some value =>
    if kind = "file.census" then .ok [value]
    else
      match value with
      | .object members => .ok (members.map Prod.snd)
      | _ => .error "state_v2_evidence_map"

/-- The record with these values in their place. -/
def replaced (kind field : String) (json : Value) (values : List Value) : Value :=
  match json, json.get field with
  | .object members, some value =>
    if kind = "file.census" then .object (setMember field (values.headD value) members)
    else
      match value with
      | .object inner =>
        .object (setMember field (.object (List.zipWith (fun m v => (m.1, v)) inner values)) members)
      | _ => json
  | _, _ => json

/-- The sets of the values in order, those that are new, and the store with them. -/
def acquire_all (class_name : String) :
    List Value → Store codec Key → Except String ((List Nat × List Nat) × Store codec Key)
  | [], s => .ok (([], []), s)
  | value :: values, s => do
    let ((id, new), s) ← s.resolve class_name value
    let ((refs, created), s) ← acquire_all class_name values s
    .ok ((id :: refs, if new then id :: created else created), s)

/-- The stored form of a record with its references and the sets made for it. -/
def acquire (s : Store codec Key) (kind : String) (json : Value) :
    Except String ((Value × List Nat × List Nat) × Store codec Key) :=
  match shared kind, json with
  | some (field, class_name), .object _ => do
    let values ← projected kind field json
    let ((refs, created), s) ← acquire_all class_name values s
    .ok ((replaced kind field json (refs.map reference), refs, created), s)
  | _, _ => .ok ((json, [], []), s)

/-- The record as it was put, from its stored form. -/
def restore (s : Store codec Key) (kind : String) (json : Value) : Except String Value :=
  match shared kind, json with
  | some (field, class_name), .object _ => do
    let values ← projected kind field json
    let values ← values.mapM (fun value => do
      let id ← context (id_of value) "state_v2_shared_reference"
      s.read_set class_name id)
    .ok (replaced kind field json values)
  | _, _ => .ok json

/-! ## Records -/

/-- The digest of a stored row. -/
def row_digest (codec : RowCodec) (value : Value) : codec.Digest := codec.digest (codec.to_vec value)

namespace Store

variable (self : Store codec Key) (kindOf : Key → String)

/-- The digest of the row, to the row with the references of the new value. A
set made here holds its first reference already, which counts as an old one. -/
def put (key : Key) (value : Value) : Except String (Store codec Key) := do
  let kind := kindOf key
  let _ ← ensure (decide (codec.len (codec.to_vec value) ≤ VALUE_BYTES)) "state_v2_value_admission"
  let old := self.records.get? key
  if (shared kind).isNone ∧ old.map (row_digest codec) = some (row_digest codec value) then
    .ok self
  else do
    let ((json, refs, created), s) ← acquire self kind value
    if old.map (row_digest codec) = some (row_digest codec json) ∧ created = [] then .ok s
    else do
      let old_refs ← (match old with
        | some old => references kind old
        | none => .ok [])
      let s ← s.diff_refs (created ++ old_refs) refs
      let _ ← ensure (decide (codec.len (codec.to_vec json) ≤ VALUE_BYTES)) "state_v2_value_admission"
      .ok { s with records := s.records.insert key json }

def remove (key : Key) : Except String (Store codec Key) :=
  match self.records.get? key with
  | none => .ok self
  | some old => do
    let refs ← references (kindOf key) old
    let s ← self.diff_refs refs []
    .ok { s with records := s.records.erase key }

/-- The counts the record rows ask for. -/
def expected_counts : Except String (SortedMap Nat Nat) :=
  self.records.entries.foldlM
    (fun counts e => do
      let refs ← references (kindOf e.1) e.2
      .ok (refs.foldl (fun counts id => counts.insert id ((counts.get? id).getD 0 + 1)) counts))
    .empty

def verify_counts : Except String Unit := do
  let expected ← self.expected_counts kindOf
  let actual := self.sets.mapValues SetRow.refs
  ensure (decide (actual.entries = expected.entries)) "state_v2_reference_drift"

end Store

end

/-! ## Reading and writing the evidence of a record -/

theorem get_setMember {key : String} {members : List (String × Value)} {old : Value}
    (h : (Value.object members).get key = some old) (value : Value) :
    (Value.object (setMember key value members)).get key = some value := by
  induction members with
  | nil => simp [Value.get] at h
  | cons m members ih =>
    obtain ⟨k, v⟩ := m
    by_cases hk : k = key
    · simp [setMember, Value.get, hk]
    · have hrest : (Value.object members).get key = some old := by
        simpa [Value.get, hk] using h
      simpa [setMember, Value.get, hk] using ih hrest

theorem setMember_setMember (key : String) (v w : Value) (members : List (String × Value)) :
    setMember key w (setMember key v members) = setMember key w members := by
  induction members with
  | nil => rfl
  | cons m members ih =>
    obtain ⟨k, u⟩ := m
    by_cases hk : k = key
    · simp [setMember, hk]
    · simp [setMember, hk, ih]

theorem setMember_get {key : String} {members : List (String × Value)} {value : Value}
    (h : (Value.object members).get key = some value) : setMember key value members = members := by
  induction members with
  | nil => rfl
  | cons m members ih =>
    obtain ⟨k, v⟩ := m
    by_cases hk : k = key
    · have hv : v = value := by simpa [Value.get, hk] using h
      simp [setMember, hk, hv]
    · have hrest : (Value.object members).get key = some value := by
        simpa [Value.get, hk] using h
      simp [setMember, hk, ih hrest]

variable {kind field : String} {json : Value} {values : List Value}

/-- What `projected` finds, by the shape of the record. -/
theorem projected_cases (h : projected kind field json = .ok values) :
    (json.get field = none ∧ values = []) ∨
      ∃ members old, json = .object members ∧ json.get field = some old ∧
        ((kind = "file.census" ∧ values = [old]) ∨
          (kind ≠ "file.census" ∧ ∃ inner, old = .object inner ∧ values = inner.map Prod.snd)) := by
  unfold projected at h
  cases hget : json.get field with
  | none =>
    rw [hget] at h
    exact .inl ⟨rfl, (Except.ok.inj h).symm⟩
  | some old =>
    right
    rw [hget] at h
    cases json with
    | object members =>
      refine ⟨members, old, rfl, rfl, ?_⟩
      by_cases hkind : kind = "file.census"
      · simp only [if_pos hkind] at h
        exact .inl ⟨hkind, (Except.ok.inj h).symm⟩
      · simp only [if_neg hkind] at h
        cases old with
        | object inner => exact .inr ⟨hkind, inner, rfl, (Except.ok.inj h).symm⟩
        | _ => cases h
    | _ => simp [Value.get] at hget

theorem zipWith_snd {inner : List (String × Value)} (h : values.length = inner.length) :
    (List.zipWith (fun m v => (m.1, v)) inner values).map Prod.snd = values := by
  induction inner generalizing values with
  | nil => simpa [eq_comm] using h
  | cons m inner ih =>
    cases values with
    | nil => simp at h
    | cons v values => simpa using ih (by simpa using h)

variable {others : List Value}

theorem zipWith_zipWith {inner : List (String × Value)} (h : values.length = inner.length) :
    List.zipWith (fun m v => (m.1, v)) (List.zipWith (fun m v => (m.1, v)) inner values) others =
      List.zipWith (fun m v => (m.1, v)) inner others := by
  induction inner generalizing values others with
  | nil => simp
  | cons m inner ih =>
    cases values with
    | nil => simp at h
    | cons v values =>
      cases others with
      | nil => simp
      | cons w others => simpa using ih (by simpa using h)

theorem zipWith_self (inner : List (String × Value)) :
    List.zipWith (fun m v => (m.1, v)) inner (inner.map Prod.snd) = inner := by
  induction inner with
  | nil => rfl
  | cons m inner ih => simp [ih]

theorem replaced_none (h : json.get field = none)
    (values : List Value) : replaced kind field json values = json := by
  unfold replaced
  rw [h]
  cases json <;> rfl

/-- The values that were put in place are found in their place. -/
theorem projected_replaced
    (h : projected kind field json = .ok values) (hlength : others.length = values.length) :
    projected kind field (replaced kind field json others) = .ok others := by
  rcases projected_cases h with ⟨hget, rfl⟩ | ⟨members, old, rfl, hget, hshape⟩
  · obtain rfl := length_eq_zero_iff.mp hlength
    rw [replaced_none hget, h]
  · rcases hshape with ⟨hkind, rfl⟩ | ⟨hkind, inner, rfl, rfl⟩
    · obtain ⟨v, rfl⟩ := length_eq_one_iff.mp hlength
      unfold replaced
      rw [hget]
      simp only [if_pos hkind, headD_cons]
      unfold projected
      rw [get_setMember hget]
      simp only [if_pos hkind]
    · unfold replaced
      rw [hget]
      simp only [if_neg hkind]
      unfold projected
      rw [get_setMember hget]
      simp only [if_neg hkind]
      rw [zipWith_snd (by simpa using hlength)]

theorem replaced_projected
    (h : projected kind field json = .ok values) : replaced kind field json values = json := by
  rcases projected_cases h with ⟨hget, rfl⟩ | ⟨members, old, rfl, hget, hshape⟩
  · exact replaced_none hget []
  · unfold replaced
    rw [hget]
    rcases hshape with ⟨hkind, rfl⟩ | ⟨hkind, inner, rfl, rfl⟩
    · simp only [if_pos hkind, headD_cons, setMember_get hget]
    · simp only [if_neg hkind, zipWith_self, setMember_get hget]

theorem replaced_replaced {last : List Value}
    (h : projected kind field json = .ok values) (hothers : others.length = values.length)
    (hlast : last.length = values.length) :
    replaced kind field (replaced kind field json others) last = replaced kind field json last := by
  rcases projected_cases h with ⟨hget, rfl⟩ | ⟨members, old, rfl, hget, hshape⟩
  · rw [replaced_none hget others]
  · rcases hshape with ⟨hkind, rfl⟩ | ⟨hkind, inner, rfl, rfl⟩
    · obtain ⟨v, rfl⟩ := length_eq_one_iff.mp hothers
      obtain ⟨w, rfl⟩ := length_eq_one_iff.mp hlast
      have hset := get_setMember hget v
      simp only [replaced, hget, if_pos hkind, headD_cons, hset, setMember_setMember]
    · have hset := get_setMember hget
        (.object (List.zipWith (fun m v => (m.1, v)) inner others))
      simp only [replaced, hget, if_neg hkind, hset, setMember_setMember]
      rw [zipWith_zipWith (by simpa using hothers)]

theorem replaced_object (kind field : String) (members : List (String × Value))
    (values : List Value) :
    ∃ members', replaced kind field (.object members) values = .object members' := by
  unfold replaced
  cases (Value.object members).get field with
  | none => exact ⟨members, rfl⟩
  | some value =>
    by_cases hkind : kind = "file.census"
    · simp only [if_pos hkind]
      exact ⟨_, rfl⟩
    · simp only [if_neg hkind]
      cases value <;> exact ⟨_, rfl⟩

variable {class_name : String}

theorem shared_census (h : shared "file.census" = some (field, class_name)) : field = "b" := by
  exact (Prod.mk.inj (Option.some.inj h)).1.symm

/-- The references of a record are the values in the place of its evidence. -/
theorem evidence_values_eq (hshared : shared kind = some (field, class_name))
    (h : projected kind field json = .ok values) : evidence_values kind json = values := by
  unfold evidence_values
  by_cases hkind : kind = "file.census"
  · subst hkind
    obtain rfl := shared_census hshared
    rcases projected_cases h with ⟨hget, rfl⟩ | ⟨members, old, rfl, hget, hshape⟩
    · rw [hget]
      rfl
    · rcases hshape with ⟨-, rfl⟩ | ⟨hkind, -⟩
      · rw [hget]
        rfl
      · exact absurd rfl hkind
  · rw [if_neg hkind, hshared]
    rcases projected_cases h with ⟨hget, rfl⟩ | ⟨members, old, rfl, hget, hshape⟩
    · simp only [hget]
    · rcases hshape with ⟨hcensus, -⟩ | ⟨-, inner, rfl, rfl⟩
      · exact absurd hcensus hkind
      · simp only [hget]

theorem id_of_reference {id : Nat} (h : id < 2 ^ 63) : id_of (reference id) = some id := by
  unfold id_of reference
  simp only [if_true, Value.as_u64, map_some, UInt64.toNat_ofNat']
  rw [Nat.mod_eq_of_lt (by omega)]

theorem references_of_ids {ids : List Nat}
    (hshared : shared kind = some (field, class_name)) (hids : ∀ id ∈ ids, id < 2 ^ 63)
    (h : projected kind field json = .ok (ids.map reference)) :
    references kind json = .ok ids := by
  unfold references ref_ids
  rw [hshared, evidence_values_eq hshared h]
  apply mapM_ok
  rw [forall₂_map_left_iff, forall₂_same]
  intro id hid
  rw [id_of_reference (hids id hid)]
  rfl

/-! ## What interning adds -/

section

variable {codec : RowCodec} {Key : Type} [LinearOrder Key]

variable {message : String}

theorem ensure_eq_ok {ok : Bool} {u : Unit} :
    ensure ok message = .ok u ↔ ok = true := by
  unfold ensure
  cases ok <;> simp

theorem context_eq_ok {α : Type} {x : Option α} {a : α} :
    context x message = .ok a ↔ x = some a := by
  cases x <;> simp [context]

/-- The number the next set gets. -/
def Store.high (s : Store codec Key) : Nat := s.next_request_set_id.getD 1

/-- What a set holds. -/
def Store.content (s : Store codec Key) (id : Nat) : Option Value :=
  (s.sets.get? id).map SetRow.value

/-- Every set has a number that was given. -/
def Store.Numbered (s : Store codec Key) : Prop :=
  ∀ id row, s.sets.get? id = some row → id < 2 ^ 63 ∧ id < s.high

/-- `s'` is `s` with new sets, each with its first reference. -/
structure Grows (s s' : Store codec Key) (created : List Nat) : Prop where
  records : s'.records = s.records
  kept : ∀ id row, s.sets.get? id = some row → s'.sets.get? id = some row
  fresh : ∀ id ∈ created, s.sets.get? id = none ∧ s.high ≤ id
  first : ∀ id ∈ created, ∃ row, s'.sets.get? id = some row ∧ row.refs = 1
  known : ∀ id row, s'.sets.get? id = some row → s.sets.get? id = some row ∨ id ∈ created
  nodup : created.Nodup
  high : s.high ≤ s'.high
  numbered : s.Numbered → s'.Numbered
  unchanged : created = [] → s' = s

theorem Grows.refl (s : Store codec Key) : Grows s s [] where
  records := rfl
  kept := fun _ _ h => h
  fresh := by simp
  first := by simp
  known := fun _ _ h => .inl h
  nodup := nodup_nil
  high := le_rfl
  numbered := id
  unchanged := fun _ => rfl

theorem Grows.trans {s s' s'' : Store codec Key} {created created' : List Nat}
    (h : Grows s s' created) (h' : Grows s' s'' created') : Grows s s'' (created ++ created') where
  records := h'.records.trans h.records
  kept := fun id row hrow => h'.kept id row (h.kept id row hrow)
  fresh := by
    intro id hid
    rcases mem_append.mp hid with hid | hid
    · exact h.fresh id hid
    · refine ⟨?_, le_trans h.high (h'.fresh id hid).2⟩
      cases hget : s.sets.get? id with
      | none => rfl
      | some row =>
        have hkept := h.kept id row hget
        rw [(h'.fresh id hid).1] at hkept
        cases hkept
  first := by
    intro id hid
    rcases mem_append.mp hid with hid | hid
    · obtain ⟨row, hrow, hone⟩ := h.first id hid
      exact ⟨row, h'.kept id row hrow, hone⟩
    · exact h'.first id hid
  known := by
    intro id row hrow
    rcases h'.known id row hrow with hrow | hid
    · rcases h.known id row hrow with hrow | hid
      · exact .inl hrow
      · exact .inr (mem_append_left _ hid)
    · exact .inr (mem_append_right _ hid)
  nodup := by
    refine nodup_append.mpr ⟨h.nodup, h'.nodup, ?_⟩
    rintro a ha b hb rfl
    obtain ⟨row, hrow, -⟩ := h.first a ha
    rw [(h'.fresh a hb).1] at hrow
    cases hrow
  high := le_trans h.high h'.high
  numbered := fun hs => h'.numbered (h.numbered hs)
  unchanged := by
    intro hnil
    obtain ⟨h1, h2⟩ := append_eq_nil_iff.mp hnil
    rw [h'.unchanged h2, h.unchanged h1]

variable {s : Store codec Key} {id : Nat}

theorem candidate_spec {value : Value}
    (h : s.candidate (codec.to_vec value) = some id) : s.content id = some value := by
  obtain ⟨e, hfind, rfl⟩ := map_eq_some_iff.mp h
  have hsame := List.find?_some hfind
  simp only [Bool.and_eq_true, beq_iff_eq] at hsame
  have hget : s.sets.get? e.1 = some e.2 := mem_entries.mp (mem_of_find?_eq_some hfind)
  unfold Store.content
  rw [hget, map_some, codec.to_vec_injective hsame.2]

variable {s' : Store codec Key}

theorem allocate_spec {existing : Bool} (h : s.allocate existing = .ok (id, s')) :
    id = s.high ∧ id < 2 ^ 63 ∧ s.sets.get? id = none ∧
      s' = { s with next_request_set_id := some (id + 1) } := by
  obtain ⟨found, hfound, h⟩ := bind_eq_ok.mp h
  obtain ⟨_, hbound, h⟩ := bind_eq_ok.mp h
  obtain ⟨_, hfree, h⟩ := bind_eq_ok.mp h
  cases h
  have hbound := of_decide_eq_true (ensure_eq_ok.mp hbound)
  refine ⟨?_, hbound.2, isNone_iff_eq_none.mp (ensure_eq_ok.mp hfree), rfl⟩
  unfold Store.high
  cases hnext : s.next_request_set_id with
  | some next =>
    rw [hnext] at hfound
    exact (Except.ok.inj hfound).symm
  | none =>
    rw [hnext] at hfound
    cases existing with
    | true => cases hfound
    | false => exact (Except.ok.inj hfound).symm

/-- A set is found, or made with the next number. -/
theorem resolve_spec {class_name : String} {value : Value}
    {new : Bool} (h : s.resolve class_name value = .ok ((id, new), s')) :
    Grows s s' (if new then [id] else []) ∧ s'.content id = some (evidence class_name value) := by
  obtain ⟨_, -, h⟩ := bind_eq_ok.mp h
  cases hcandidate : s.candidate (codec.to_vec (evidence class_name value)) with
  | some found =>
    simp only [hcandidate] at h
    obtain ⟨hid, rfl⟩ := Prod.mk.inj (Except.ok.inj h)
    cases hid
    exact ⟨Grows.refl s, candidate_spec hcandidate⟩
  | none =>
    simp only [hcandidate] at h
    obtain ⟨⟨found, s1⟩, hallocate, h⟩ := bind_eq_ok.mp h
    obtain ⟨hid, rfl⟩ := Prod.mk.inj (Except.ok.inj h)
    cases hid
    obtain ⟨hhigh, hbound, hfree, rfl⟩ := allocate_spec hallocate
    refine ⟨?_, by simp [Store.content]⟩
    exact
      { records := rfl
        kept := by
          intro id row hrow
          have hne : id ≠ found := by
            rintro rfl
            rw [hfree] at hrow
            cases hrow
          rwa [get?_insert_ne _ _ hne]
        fresh := by
          intro id hid
          obtain rfl := mem_singleton.mp hid
          exact ⟨hfree, hhigh ▸ le_rfl⟩
        first := by
          intro id hid
          obtain rfl := mem_singleton.mp hid
          exact ⟨_, get?_insert_self _ _ _, rfl⟩
        known := by
          intro id row hrow
          rw [get?_insert] at hrow
          by_cases hne : id = found
          · exact .inr (mem_singleton.mpr hne)
          · rw [if_neg hne] at hrow
            exact .inl hrow
        nodup := nodup_singleton _
        high := by
          show s.high ≤ found + 1
          omega
        numbered := by
          intro hs id row hrow
          rw [get?_insert] at hrow
          show id < 2 ^ 63 ∧ id < found + 1
          by_cases hne : id = found
          · omega
          · rw [if_neg hne] at hrow
            have := hs id row hrow
            omega
        unchanged := by simp }

variable {refs created : List Nat}

theorem acquire_all_spec {class_name : String} {values : List Value}
    (h : acquire_all class_name values s = .ok ((refs, created), s')) :
    Grows s s' created ∧
      List.Forall₂ (fun id value => s'.content id = some (evidence class_name value)) refs values := by
  induction values generalizing s refs created with
  | nil =>
    obtain ⟨hlists, rfl⟩ := Prod.mk.inj (Except.ok.inj h)
    cases hlists
    exact ⟨Grows.refl s, .nil⟩
  | cons value values ih =>
    obtain ⟨⟨⟨id, new⟩, s1⟩, hresolve, h⟩ := bind_eq_ok.mp h
    obtain ⟨⟨⟨refs', created'⟩, s2⟩, hrest, h⟩ := bind_eq_ok.mp h
    obtain ⟨hlists, rfl⟩ := Prod.mk.inj (Except.ok.inj h)
    cases hlists
    obtain ⟨hgrows, hcontent⟩ := resolve_spec hresolve
    obtain ⟨hgrows', hcontents⟩ := ih hrest
    have hcreated : (if new then id :: created' else created') =
        (if new then [id] else []) ++ created' := by
      cases new <;> rfl
    rw [hcreated]
    refine ⟨hgrows.trans hgrows', .cons ?_ hcontents⟩
    obtain ⟨row, hrow, hvalue⟩ := map_eq_some_iff.mp hcontent
    unfold Store.content
    rw [hgrows'.kept id row hrow, map_some, hvalue]

variable {kind : String} {json : Value}

/-- The sets a record refers to hold its evidence, so the record is restored. -/
theorem acquire_spec {value : Value} (hnumbered : s.Numbered)
    (h : acquire s kind value = .ok ((json, refs, created), s')) :
    Grows s s' created ∧ references kind json = .ok refs ∧
      (∀ id ∈ refs, (s'.content id).isSome) ∧
      ∀ t : Store codec Key, (∀ id ∈ refs, t.content id = s'.content id) →
        restore t kind json = .ok value := by
  have hplain : ∀ {kind : String} {value : Value}, (shared kind = none ∨ ∀ m, value ≠ .object m) →
      acquire s kind value = .ok ((value, [], []), s) ∧ references kind value = .ok [] ∧
        ∀ t : Store codec Key, restore t kind value = .ok value := by
    intro kind value hcase
    unfold acquire restore references
    cases hshared : shared kind with
    | none => exact ⟨rfl, rfl, fun _ => rfl⟩
    | some found =>
      have hvalue := hcase.resolve_left (by rw [hshared]; simp)
      have hnone : ref_ids kind value = .ok [] := by
        unfold ref_ids evidence_values
        rw [hshared]
        cases value with
        | object m => exact absurd rfl (hvalue m)
        | _ => (simp [Value.get]; rfl)
      cases value with
      | object m => exact absurd rfl (hvalue m)
      | _ => exact ⟨rfl, hnone, fun _ => rfl⟩
  by_cases hcase : shared kind = none ∨ ∀ m, value ≠ .object m
  · obtain ⟨hacquire, hrefs, hrestore⟩ := hplain hcase
    rw [hacquire] at h
    obtain ⟨hparts, rfl⟩ := Prod.mk.inj (Except.ok.inj h)
    obtain ⟨rfl, hlists⟩ := Prod.mk.inj hparts
    cases hlists
    exact ⟨Grows.refl s, hrefs, by simp, fun t _ => hrestore t⟩
  · push Not at hcase
    obtain ⟨hsome, members, rfl⟩ := hcase
    obtain ⟨⟨field, class_name⟩, hshared⟩ := ne_none_iff_exists'.mp hsome
    unfold acquire at h
    rw [hshared] at h
    obtain ⟨values, hprojected, h⟩ := bind_eq_ok.mp h
    obtain ⟨⟨⟨refs', created'⟩, s1⟩, hall, h⟩ := bind_eq_ok.mp h
    obtain ⟨hparts, rfl⟩ := Prod.mk.inj (Except.ok.inj h)
    obtain ⟨rfl, hlists⟩ := Prod.mk.inj hparts
    obtain ⟨rfl, rfl⟩ := Prod.mk.inj hlists
    obtain ⟨hgrows, hcontents⟩ := acquire_all_spec hall
    have hlength : (refs'.map reference).length = values.length := by
      rw [length_map]
      exact hcontents.length_eq
    have hpresent : ∀ id ∈ refs', (s1.content id).isSome := by
      have hboth : List.Forall₂ (fun id value => (s1.content id).isSome ∧
          s1.content id = some (evidence class_name value)) refs' values :=
        hcontents.imp (fun id value hcontent => ⟨by rw [hcontent]; rfl, hcontent⟩)
      exact ((forall₂_and_left _ _).mp hboth).1
    have hbound : ∀ id ∈ refs', id < 2 ^ 63 := by
      intro id hid
      obtain ⟨value, hvalue⟩ := isSome_iff_exists.mp (hpresent id hid)
      obtain ⟨row, hrow, -⟩ := map_eq_some_iff.mp hvalue
      exact (hgrows.numbered hnumbered id row hrow).1
    have hplaced := projected_replaced hprojected hlength
    refine ⟨hgrows, references_of_ids hshared hbound hplaced, hpresent, ?_⟩
    intro t ht
    obtain ⟨members', hmembers'⟩ := replaced_object kind field members (refs'.map reference)
    unfold restore
    rw [hmembers'] at hplaced ⊢
    rw [hshared]
    have hread : (refs'.map reference).mapM (fun value => do
        let id ← context (id_of value) "state_v2_shared_reference"
        t.read_set class_name id) = .ok values := by
      apply mapM_ok
      rw [forall₂_map_left_iff]
      refine ((forall₂_and_left _ _).mpr ⟨fun _ hid => hid, hcontents⟩).imp ?_
      rintro id value ⟨hid, hcontent⟩
      rw [id_of_reference (hbound id hid)]
      obtain ⟨row, hrow, hvalue⟩ := map_eq_some_iff.mp ((ht id hid).trans hcontent)
      simp only [context, bind, Except.bind, Store.read_set, hrow, hvalue, evidence, if_true]
    simp only [hplaced, bind, Except.bind] at hread ⊢
    rw [hread]
    simp only
    rw [← hmembers', replaced_replaced hprojected hlength rfl, replaced_projected hprojected]

/-! ## Counts -/

theorem get?_foldl_add (sign : Int) (ids : List Nat) (counts : SortedMap Nat Int) (id : Nat) :
    (ids.foldl (fun c i => c.insert i ((c.get? i).getD 0 + sign)) counts).get? id =
      if id ∈ ids then some ((counts.get? id).getD 0 + sign * ids.count id) else counts.get? id := by
  induction ids generalizing counts with
  | nil => simp
  | cons i ids ih =>
    rw [foldl_cons, ih, get?_insert]
    by_cases hi : id = i
    · subst hi
      by_cases hmem : id ∈ ids
      · simp only [hmem, if_true, mem_cons_self, getD_some, count_cons_self,
          Nat.cast_add, Nat.cast_one, mul_add, mul_one]
        congr 1
        omega
      · simp only [hmem, if_false, if_true, mem_cons_self, count_cons_self,
          count_eq_zero_of_not_mem hmem, Nat.cast_zero, Nat.cast_one, zero_add, mul_one]
    · have hcount : (i :: ids).count id = ids.count id := count_cons_of_ne (Ne.symm hi)
      simp only [mem_cons, hi, false_or, if_false, hcount]

/-- The change of a count is the references that come less those that go. -/
theorem get?_deltas (old new : List Nat) (id : Nat) :
    ((deltas old new).get? id).getD 0 = (new.count id : Int) - old.count id := by
  unfold deltas
  rw [get?_foldl_add, get?_foldl_add]
  by_cases hnew : id ∈ new
  · by_cases hold : id ∈ old
    · simp only [hnew, hold, if_true, get?_empty, getD_none, getD_some]
      omega
    · simp only [hnew, hold, if_true, if_false, get?_empty, getD_none,
        getD_some, count_eq_zero_of_not_mem hold]
      omega
  · by_cases hold : id ∈ old
    · simp only [hnew, hold, if_true, if_false, get?_empty, getD_none,
        getD_some, count_eq_zero_of_not_mem hnew]
      omega
    · simp only [hnew, hold, if_false, get?_empty, getD_none,
        count_eq_zero_of_not_mem hnew, count_eq_zero_of_not_mem hold]
      omega

/-- A set before and after its count changed by `delta`. -/
def Adjusted (before : Option (SetRow codec)) (delta : Int) (after : Option (SetRow codec)) : Prop :=
  if delta = 0 then after = before
  else ∃ row, before = some row ∧ 0 ≤ (row.refs : Int) + delta ∧
    after = if (row.refs : Int) + delta = 0 then none
      else some { row with refs := ((row.refs : Int) + delta).toNat }

variable {delta : Int}

theorem adjust_refs_spec (hdelta : delta ≠ 0) (h : s.adjust_refs id delta = .ok s') :
    s'.records = s.records ∧ s'.next_request_set_id = s.next_request_set_id ∧
      Adjusted (s.sets.get? id) delta (s'.sets.get? id) ∧
      ∀ other, other ≠ id → s'.sets.get? other = s.sets.get? other := by
  obtain ⟨row, hrow, h⟩ := bind_eq_ok.mp h
  obtain ⟨_, hbound, h⟩ := bind_eq_ok.mp h
  have hrow := context_eq_ok.mp hrow
  have hbound := of_decide_eq_true (ensure_eq_ok.mp hbound)
  unfold Adjusted
  rw [if_neg hdelta]
  by_cases hzero : (row.refs : Int) + delta = 0
  · rw [if_pos hzero] at h
    cases h
    refine ⟨rfl, rfl, ⟨row, hrow, hbound.1, ?_⟩, ?_⟩
    · rw [if_pos hzero, get?_erase, if_pos rfl]
    · intro other hother
      rw [get?_erase, if_neg hother]
  · rw [if_neg hzero, if_pos hdelta] at h
    cases h
    refine ⟨rfl, rfl, ⟨row, hrow, hbound.1, ?_⟩, ?_⟩
    · rw [if_neg hzero, get?_insert_self]
    · intro other hother
      exact get?_insert_ne _ _ hother

theorem foldlM_adjust {entries : List (Nat × Int)}
    (hsorted : entries.Pairwise (fun a b => a.1 < b.1))
    (h : entries.foldlM (fun s e => if e.2 ≠ 0 then s.adjust_refs e.1 e.2 else .ok s) s = .ok s') :
    s'.records = s.records ∧ s'.next_request_set_id = s.next_request_set_id ∧
      ∀ id, Adjusted (s.sets.get? id) ((SortedMap.lookupEntry id entries).getD 0)
        (s'.sets.get? id) := by
  induction entries generalizing s with
  | nil =>
    cases h
    exact ⟨rfl, rfl, fun id => by simp [Adjusted, SortedMap.lookupEntry]⟩
  | cons e entries ih =>
    rw [foldlM_cons] at h
    obtain ⟨s1, hstep, hrest⟩ := bind_eq_ok.mp h
    obtain ⟨hhead, htail⟩ := pairwise_cons.mp hsorted
    obtain ⟨hrecords, hnext, hsets⟩ := ih htail hrest
    have habsent : SortedMap.lookupEntry e.1 entries = none :=
      lookupEntry_eq_none_of_lt hhead
    have hself := hsets e.1
    rw [habsent, getD_none, Adjusted, if_pos rfl] at hself
    by_cases hzero : e.2 = 0
    · rw [if_neg (not_not.mpr hzero)] at hstep
      cases hstep
      refine ⟨hrecords, hnext, ?_⟩
      intro id
      by_cases hid : id = e.1
      · subst hid
        simpa [SortedMap.lookupEntry, hzero, Adjusted] using hself
      · have hother := hsets id
        simpa [SortedMap.lookupEntry, hid] using hother
    · rw [if_pos hzero] at hstep
      obtain ⟨hrecords', hnext', hadjusted, hothers⟩ := adjust_refs_spec hzero hstep
      refine ⟨hrecords.trans hrecords', hnext.trans hnext', ?_⟩
      intro id
      by_cases hid : id = e.1
      · subst hid
        rw [hself]
        simpa [SortedMap.lookupEntry] using hadjusted
      · have hother := hsets id
        rw [hothers id hid] at hother
        simpa [SortedMap.lookupEntry, hid] using hother

/-- Every count moves by the references that come less those that go. -/
theorem diff_refs_spec {old new : List Nat} (h : s.diff_refs old new = .ok s') :
    s'.records = s.records ∧ s'.next_request_set_id = s.next_request_set_id ∧
      ∀ id, Adjusted (s.sets.get? id) ((new.count id : Int) - old.count id) (s'.sets.get? id) := by
  obtain ⟨hrecords, hnext, hsets⟩ := foldlM_adjust (deltas old new).sorted h
  refine ⟨hrecords, hnext, fun id => ?_⟩
  rw [← get?_deltas]
  exact hsets id

/-! ## The store and what was put -/

/-- A count as its row: a set without references has none. -/
def rowOf (count : Nat) : Option Nat := if count = 0 then none else some count

theorem Adjusted.count {before after : Option (SetRow codec)} {n m : Nat}
    (h : Adjusted before delta after) (hbefore : before.map SetRow.refs = rowOf n)
    (hm : (m : Int) = n + delta) : after.map SetRow.refs = rowOf m := by
  unfold Adjusted at h
  by_cases hdelta : delta = 0
  · rw [if_pos hdelta] at h
    have hnm : m = n := by omega
    rw [h, hbefore, hnm]
  · rw [if_neg hdelta] at h
    obtain ⟨row, rfl, -, rfl⟩ := h
    have hrefs : row.refs = n := by
      by_cases hn : n = 0
      · simp [rowOf, hn] at hbefore
      · simpa [rowOf, hn] using hbefore
    rw [hrefs, ← hm]
    by_cases hzero : m = 0
    · simp [rowOf, hzero]
    · simp [rowOf, hzero]

theorem Adjusted.value {before after : Option (SetRow codec)}
    (h : Adjusted before delta after) (hafter : after.isSome) :
    after.map SetRow.value = before.map SetRow.value := by
  unfold Adjusted at h
  by_cases hdelta : delta = 0
  · rw [if_pos hdelta] at h
    rw [h]
  · rw [if_neg hdelta] at h
    obtain ⟨row, rfl, -, rfl⟩ := h
    by_cases hzero : (row.refs : Int) + delta = 0
    · rw [if_pos hzero] at hafter
      cases hafter
    · rw [if_neg hzero]
      rfl

/-- The references of one record to a set. -/
def refCount (kindOf : Key → String) (id : Nat) (key : Key) (json : Value) : Nat :=
  match references (kindOf key) json with
  | .ok ids => ids.count id
  | .error _ => 0

omit [LinearOrder Key] in
theorem refCount_of_references {kindOf : Key → String} {key : Key} {json : Value} {ids : List Nat}
    (h : references (kindOf key) json = .ok ids) (id : Nat) :
    refCount kindOf id key json = ids.count id := by
  unfold refCount
  rw [h]

/-- The references of all the records to a set. -/
def Store.referenced (s : Store codec Key) (kindOf : Key → String) (id : Nat) : Nat :=
  s.records.total (refCount kindOf id)

variable {t : Store codec Key}

theorem read_set_congr (h : t.content id = s.content id)
    (expected : String) : t.read_set expected id = s.read_set expected id := by
  unfold Store.content at h
  unfold Store.read_set
  cases hs : s.sets.get? id with
  | none =>
    rw [hs] at h
    rw [map_eq_none_iff.mp h]
  | some row =>
    rw [hs] at h
    obtain ⟨row', hrow', hvalue⟩ := map_eq_some_iff.mp h
    rw [hrow']
    simp only [context, bind, Except.bind, hvalue]

variable {ids : List Nat}

theorem mapM_ids_congr {values : List Value}
    {f g : Nat → Except String Value} (hfg : ∀ id ∈ ids, f id = g id)
    (h : values.mapM (fun v => context (id_of v) message) = .ok ids) :
    values.mapM (fun v => do
      let id ← context (id_of v) message
      f id) = values.mapM (fun v => do
      let id ← context (id_of v) message
      g id) := by
  induction values generalizing ids with
  | nil => rfl
  | cons v values ih =>
    rw [mapM_cons] at h
    obtain ⟨id, hid, h⟩ := bind_eq_ok.mp h
    obtain ⟨rest, hrest, h⟩ := bind_eq_ok.mp h
    cases h
    have htail := ih (fun i hi => hfg i (mem_cons_of_mem id hi)) hrest
    have hhead := hfg id mem_cons_self
    rw [mapM_cons, mapM_cons, htail, hid]
    simp only [bind, Except.bind, hhead]

/-- A record is restored from what the sets it refers to hold. -/
theorem restore_congr
    (hrefs : references kind json = .ok ids) (h : ∀ id ∈ ids, t.content id = s.content id) :
    restore t kind json = restore s kind json := by
  unfold restore
  cases hshared : shared kind with
  | none => rfl
  | some found =>
    obtain ⟨field, class_name⟩ := found
    cases json with
    | object members =>
      cases hprojected : projected kind field (.object members) with
      | error e => simp only [hprojected, bind, Except.bind]
      | ok values =>
        unfold references ref_ids at hrefs
        rw [hshared, evidence_values_eq hshared hprojected] at hrefs
        have hread := mapM_ids_congr (fun id hid => read_set_congr (h id hid) class_name) hrefs
        simp only [hprojected, bind, Except.bind] at hread ⊢
        rw [hread]
    | _ => rfl

/-- The records are those that were put last, each with its references in place
of its evidence, and each set has one reference for each that a record holds. -/
structure Consistent (kindOf : Key → String) (s : Store codec Key) (last : SortedMap Key Value) :
    Prop where
  numbered : s.Numbered
  restored : ∀ key json, s.records.get? key = some json →
    (∃ ids, references (kindOf key) json = .ok ids) ∧
      ∃ value, last.get? key = some value ∧ restore s (kindOf key) json = .ok value
  present : ∀ key, (s.records.get? key).isSome = (last.get? key).isSome
  counted : ∀ id, (s.sets.get? id).map SetRow.refs = rowOf (s.referenced kindOf id)

variable {kindOf : Key → String} {last : SortedMap Key Value}

theorem Consistent.empty : Consistent kindOf ({} : Store codec Key) .empty where
  numbered := by
    intro id row hrow
    cases hrow
  restored := by
    intro key json hjson
    cases hjson
  present := fun _ => rfl
  counted := fun _ => rfl

variable {key : Key}

/-- A set a record refers to exists. -/
theorem present_of_referenced
    (hcounted : ∀ id, (s.sets.get? id).map SetRow.refs = rowOf (s.referenced kindOf id))
    (hjson : s.records.get? key = some json)
    (hrefs : references (kindOf key) json = .ok ids) (hid : id ∈ ids) :
    (s.sets.get? id).isSome := by
  have hle := le_total (refCount kindOf id) hjson
  rw [refCount_of_references hrefs] at hle
  have hpos := count_pos_iff.mpr hid
  have hne : s.referenced kindOf id ≠ 0 := by
    unfold Store.referenced
    omega
  have hrow := hcounted id
  rw [rowOf, if_neg hne] at hrow
  obtain ⟨row, hrow, -⟩ := map_eq_some_iff.mp hrow
  rw [hrow]
  rfl

variable {old_refs : List Nat}

/-- The references of the row a call replaces. -/
theorem count_old_refs (h : (match s.records.get? key with
      | some old => references (kindOf key) old
      | none => .ok []) = .ok old_refs) (id : Nat) :
    ((s.records.get? key).map (refCount kindOf id key)).getD 0 = old_refs.count id := by
  cases hget : s.records.get? key with
  | none =>
    rw [hget] at h
    cases h
    rfl
  | some old =>
    rw [hget] at h
    rw [map_some, getD_some, refCount_of_references h]

/-- The counts of the sets after interning. -/
theorem Grows.count (h : Grows s s' created)
    {n : Nat} (hcount : (s.sets.get? id).map SetRow.refs = rowOf n) :
    (s'.sets.get? id).map SetRow.refs = rowOf (n + created.count id) := by
  by_cases hid : id ∈ created
  · obtain ⟨row, hrow, hone⟩ := h.first id hid
    have hzero : n = 0 := by
      rw [(h.fresh id hid).1] at hcount
      by_contra hn
      simp [rowOf, hn] at hcount
    rw [hrow, count_eq_one_of_mem h.nodup hid, hzero, map_some, hone]
    rfl
  · rw [count_eq_zero_of_not_mem hid, Nat.add_zero, ← hcount]
    cases hget : s.sets.get? id with
    | some row => rw [h.kept id row hget]
    | none =>
      cases hget' : s'.sets.get? id with
      | none => rfl
      | some row =>
        rcases h.known id row hget' with hrow | hmem
        · rw [hget] at hrow
          cases hrow
        · exact absurd hmem hid

theorem Grows.content (h : Grows s s' created)
    (hid : (s.sets.get? id).isSome) : s'.content id = s.content id := by
  obtain ⟨row, hrow⟩ := isSome_iff_exists.mp hid
  unfold Store.content
  rw [hrow, h.kept id row hrow]

/-- Counts that moved keep their numbers and what they hold. -/
theorem numbered_of_adjusted {delta : Nat → Int}
    (hnext : s'.next_request_set_id = s.next_request_set_id)
    (hsets : ∀ id, Adjusted (s.sets.get? id) (delta id) (s'.sets.get? id)) (h : s.Numbered) :
    s'.Numbered := by
  intro id row hrow
  have hvalue := (hsets id).value (by rw [hrow]; rfl)
  rw [hrow] at hvalue
  obtain ⟨row', hrow', -⟩ := map_eq_some_iff.mp hvalue.symm
  have := h id row' hrow'
  unfold Store.high at this ⊢
  rwa [hnext]

/-- What a call does to the store: it interns, moves the counts and writes one row. -/
structure Rewritten (kindOf : Key → String) (s s1 : Store codec Key) (created old_refs refs : List Nat)
    (t : Store codec Key) : Prop where
  grows : Grows s s1 created
  next : t.next_request_set_id = s1.next_request_set_id
  sets : ∀ id, Adjusted (s1.sets.get? id)
    ((refs.count id : Int) - (created ++ old_refs).count id) (t.sets.get? id)
  moved : ∀ id, t.referenced kindOf id + old_refs.count id = s.referenced kindOf id + refs.count id

variable {s1 : Store codec Key}

theorem Rewritten.counted
    (h : Rewritten kindOf s s1 created old_refs refs t) (hs : Consistent kindOf s last) (id : Nat) :
    (t.sets.get? id).map SetRow.refs = rowOf (t.referenced kindOf id) := by
  apply (h.sets id).count (h.grows.count (hs.counted id))
  have hmoved := h.moved id
  rw [count_append]
  omega

/-- A set a record refers to after the call holds what it held once interned. -/
theorem Rewritten.content
    (h : Rewritten kindOf s s1 created old_refs refs t) (hs : Consistent kindOf s last)
    (hjson : t.records.get? key = some json)
    (hrefs : references (kindOf key) json = .ok ids) (hid : id ∈ ids) :
    t.content id = s1.content id :=
  (h.sets id).value (present_of_referenced (h.counted hs) hjson hrefs hid)

/-- A record the call does not write is restored as before. -/
theorem Rewritten.restored
    (h : Rewritten kindOf s s1 created old_refs refs t) (hs : Consistent kindOf s last)
    (hjson : t.records.get? key = some json) (hold : s.records.get? key = some json) :
    (∃ ids, references (kindOf key) json = .ok ids) ∧
      ∃ value, last.get? key = some value ∧ restore t (kindOf key) json = .ok value := by
  obtain ⟨⟨ids, hids⟩, value, hvalue, hrestore⟩ := hs.restored key json hold
  refine ⟨⟨ids, hids⟩, value, hvalue, ?_⟩
  rw [← hrestore]
  apply restore_congr hids
  intro id hid
  rw [h.content hs hjson hids hid]
  exact h.grows.content (present_of_referenced hs.counted hold hids hid)

theorem Rewritten.numbered
    (h : Rewritten kindOf s s1 created old_refs refs t) (hs : s.Numbered) : t.Numbered :=
  numbered_of_adjusted h.next h.sets (h.grows.numbered hs)

/-- Between two states of a run no number goes to another set. -/
structure Evolves (s t : Store codec Key) : Prop where
  high : s.high ≤ t.high
  same : ∀ id value, t.content id = some value → s.content id = some value ∨ s.high ≤ id

theorem Evolves.refl (s : Store codec Key) : Evolves s s := ⟨le_rfl, fun _ _ h => .inl h⟩

theorem Evolves.trans {s t u : Store codec Key} (h : Evolves s t) (h' : Evolves t u) :
    Evolves s u where
  high := le_trans h.high h'.high
  same := by
    intro id value hvalue
    rcases h'.same id value hvalue with hvalue | hhigh
    · exact h.same id value hvalue
    · exact .inr (le_trans h.high hhigh)

theorem Rewritten.evolves
    (h : Rewritten kindOf s s1 created old_refs refs t) : Evolves s t where
  high := by
    have hhigh := h.grows.high
    unfold Store.high at hhigh ⊢
    rwa [h.next]
  same := by
    intro id value hvalue
    obtain ⟨row, hrow, -⟩ := map_eq_some_iff.mp hvalue
    have hsame : t.content id = s1.content id := (h.sets id).value (by rw [hrow]; rfl)
    rw [hsame] at hvalue
    obtain ⟨row, hrow, rfl⟩ := map_eq_some_iff.mp hvalue
    rcases h.grows.known id row hrow with hrow | hid
    · left
      unfold Store.content
      rw [hrow]
      rfl
    · exact .inr (h.grows.fresh id hid).2

theorem row_digest_injective {a b : Value} (h : row_digest codec a = row_digest codec b) : a = b :=
  codec.to_vec_injective (codec.digest_injective h)

theorem acquire_plain (h : (shared kind).isNone = true)
    (value : Value) : restore s kind value = .ok value := by
  unfold restore
  rw [isNone_iff_eq_none.mp h]

/-- A record that is stored as it would be again is left as it is. -/
theorem Consistent.again (hs : Consistent kindOf s last)
    {value : Value} (hjson : s.records.get? key = some json)
    (hvalue : restore s (kindOf key) json = .ok value) :
    Consistent kindOf s (last.insert key value) where
  numbered := hs.numbered
  restored := by
    intro key' json' hjson'
    by_cases hkey : key' = key
    · subst hkey
      rw [hjson] at hjson'
      cases hjson'
      exact ⟨(hs.restored key' json hjson).1, value, get?_insert_self _ _ _, hvalue⟩
    · rw [get?_insert_ne _ _ hkey]
      exact hs.restored key' json' hjson'
  present := by
    intro key'
    rw [get?_insert]
    by_cases hkey : key' = key
    · rw [if_pos hkey, hkey, hjson]
      rfl
    · rw [if_neg hkey]
      exact hs.present key'
  counted := hs.counted

theorem put_spec {value : Value} (hs : Consistent kindOf s last)
    (h : s.put kindOf key value = .ok t) :
    Consistent kindOf t (last.insert key value) ∧ Evolves s t := by
  obtain ⟨_, -, h⟩ := bind_eq_ok.mp h
  by_cases hearly : (shared (kindOf key)).isNone = true ∧
      (s.records.get? key).map (row_digest codec) = some (row_digest codec value)
  · -- the row is not shared and holds the value
    rw [if_pos hearly] at h
    cases h
    obtain ⟨json, hjson, hdigest⟩ := map_eq_some_iff.mp hearly.2
    obtain rfl := row_digest_injective hdigest
    exact ⟨hs.again hjson (acquire_plain hearly.1 json), Evolves.refl s⟩
  · rw [if_neg hearly] at h
    obtain ⟨⟨⟨json, refs, created⟩, s1⟩, hacquire, h⟩ := bind_eq_ok.mp h
    obtain ⟨hgrows, hrefs, -, hrestore⟩ := acquire_spec hs.numbered hacquire
    simp only at h
    by_cases hsame : (s.records.get? key).map (row_digest codec) = some (row_digest codec json) ∧
        created = []
    · -- the stored form is the same, and no set was made for it
      rw [if_pos hsame] at h
      obtain rfl := Except.ok.inj h
      obtain ⟨json', hjson, hdigest⟩ := map_eq_some_iff.mp hsame.1
      obtain rfl := row_digest_injective hdigest
      obtain rfl := hgrows.unchanged hsame.2
      exact ⟨hs.again hjson (hrestore s1 (fun _ _ => rfl)), Evolves.refl s1⟩
    · rw [if_neg hsame] at h
      obtain ⟨old_refs, hold, h⟩ := bind_eq_ok.mp h
      obtain ⟨s2, hdiff, h⟩ := bind_eq_ok.mp h
      obtain ⟨_, -, h⟩ := bind_eq_ok.mp h
      cases h
      obtain ⟨hrecords, hnext, hsets⟩ := diff_refs_spec hdiff
      have hrecords : s2.records = s.records := hrecords.trans hgrows.records
      have hrewritten : Rewritten kindOf s s1 created old_refs refs
          { s2 with records := s2.records.insert key json } :=
        { grows := hgrows
          next := hnext
          sets := hsets
          moved := by
            intro id
            have htotal := s.records.total_insert (refCount kindOf id) key json
            rw [count_old_refs hold, refCount_of_references hrefs] at htotal
            simp only [hrecords]
            exact htotal }
      refine ⟨?_, hrewritten.evolves⟩
      exact
        { numbered := hrewritten.numbered hs.numbered
          restored := by
            intro key' json' hjson'
            by_cases hkey : key' = key
            · subst hkey
              have hself := hjson'
              simp only [get?_insert_self] at hjson'
              cases hjson'
              refine ⟨⟨refs, hrefs⟩, value, get?_insert_self _ _ _, ?_⟩
              exact hrestore _ (fun id hid => hrewritten.content hs hself hrefs hid)
            · have hold' := hjson'
              simp only [hrecords, get?_insert_ne _ _ hkey] at hold'
              rw [get?_insert_ne _ _ hkey]
              exact hrewritten.restored hs hjson' hold'
          present := by
            intro key'
            simp only [get?_insert, hrecords]
            by_cases hkey : key' = key
            · rw [if_pos hkey, if_pos hkey]
              rfl
            · rw [if_neg hkey, if_neg hkey]
              exact hs.present key'
          counted := hrewritten.counted hs }

theorem remove_spec (hs : Consistent kindOf s last)
    (h : s.remove kindOf key = .ok t) : Consistent kindOf t (last.erase key) ∧ Evolves s t := by
  unfold Store.remove at h
  cases hget : s.records.get? key with
  | none =>
    rw [hget] at h
    cases h
    have habsent : last.erase key = last := by
      ext key' : 1
      rw [get?_erase]
      split
      · rename_i hkey
        have hpresent := hs.present key
        rw [hget] at hpresent
        rw [hkey]
        exact (not_isSome_iff_eq_none.mp (by rw [← hpresent]; simp)).symm
      · rfl
    rw [habsent]
    exact ⟨hs, Evolves.refl s⟩
  | some old =>
    rw [hget] at h
    obtain ⟨refs, hrefs, h⟩ := bind_eq_ok.mp h
    obtain ⟨s1, hdiff, h⟩ := bind_eq_ok.mp h
    cases h
    obtain ⟨hrecords, hnext, hsets⟩ := diff_refs_spec hdiff
    have hrewritten : Rewritten kindOf s s [] refs [] { s1 with records := s1.records.erase key } :=
      { grows := Grows.refl s
        next := hnext
        sets := hsets
        moved := by
          intro id
          have htotal := s.records.total_erase (refCount kindOf id) key
          rw [hget, map_some, getD_some, refCount_of_references hrefs] at htotal
          simp only [hrecords]
          exact htotal }
    refine ⟨?_, hrewritten.evolves⟩
    exact
      { numbered := hrewritten.numbered hs.numbered
        restored := by
          intro key' json' hjson'
          have hold' := hjson'
          simp only [hrecords, get?_erase] at hold'
          by_cases hkey : key' = key
          · rw [if_pos hkey] at hold'
            cases hold'
          · rw [if_neg hkey] at hold'
            rw [get?_erase, if_neg hkey]
            exact hrewritten.restored hs hjson' hold'
        present := by
          intro key'
          simp only [get?_erase, hrecords]
          by_cases hkey : key' = key
          · rw [if_pos hkey, if_pos hkey]
          · rw [if_neg hkey, if_neg hkey]
            exact hs.present key'
        counted := hrewritten.counted hs }

/-! ## The audit of the counts -/

theorem get?_foldl_one (ids : List Nat) {counts : SortedMap Nat Nat} {id n : Nat}
    (h : counts.get? id = rowOf n) :
    (ids.foldl (fun c i => c.insert i ((c.get? i).getD 0 + 1)) counts).get? id =
      rowOf (n + ids.count id) := by
  induction ids generalizing counts n with
  | nil => simpa using h
  | cons i ids ih =>
    rw [foldl_cons]
    by_cases hi : id = i
    · subst hi
      have hcount : (counts.get? id).getD 0 = n := by
        rw [h, rowOf]
        by_cases hn : n = 0
        · simp [hn]
        · simp [hn]
      have hnext : (counts.insert id ((counts.get? id).getD 0 + 1)).get? id = rowOf (n + 1) := by
        rw [get?_insert_self, hcount, rowOf, if_neg (Nat.succ_ne_zero n)]
      rw [ih hnext, count_cons_self]
      congr 1
      omega
    · have hother : (counts.insert i ((counts.get? i).getD 0 + 1)).get? id = rowOf n := by
        rw [get?_insert_ne _ _ hi, h]
      rw [ih hother, count_cons_of_ne (Ne.symm hi)]

omit [LinearOrder Key] in
theorem foldlM_counts {entries : List (Key × Value)}
    (h : ∀ e ∈ entries, ∃ ids, references (kindOf e.1) e.2 = .ok ids) (counts : SortedMap Nat Nat) :
    ∃ counts', entries.foldlM (fun counts e => do
        let refs ← references (kindOf e.1) e.2
        .ok (refs.foldl (fun counts id => counts.insert id ((counts.get? id).getD 0 + 1)) counts))
        counts = (.ok counts' : Except String _) ∧
      ∀ id n, counts.get? id = rowOf n →
        counts'.get? id = rowOf (n + (entries.map (fun e => refCount kindOf id e.1 e.2)).sum) := by
  induction entries generalizing counts with
  | nil => exact ⟨counts, rfl, fun id n hn => by simpa using hn⟩
  | cons e entries ih =>
    obtain ⟨ids, hids⟩ := h e mem_cons_self
    obtain ⟨counts', hfold, hcounts⟩ := ih (fun e' he' => h e' (mem_cons_of_mem e he'))
      (ids.foldl (fun counts id => counts.insert id ((counts.get? id).getD 0 + 1)) counts)
    refine ⟨counts', ?_, ?_⟩
    · rw [foldlM_cons, hids]
      exact hfold
    · intro id n hn
      rw [hcounts id _ (get?_foldl_one ids hn), map_cons, sum_cons,
        refCount_of_references hids, Nat.add_assoc]

/-- The audit finds no drift in a consistent store. -/
theorem Consistent.verify_counts (hs : Consistent kindOf s last) :
    s.verify_counts kindOf = .ok () := by
  have hrefs : ∀ e ∈ s.records.entries, ∃ ids, references (kindOf e.1) e.2 = .ok ids :=
    fun e he => (hs.restored e.1 e.2 (mem_entries.mp he)).1
  obtain ⟨expected, hexpected, hcounts⟩ := foldlM_counts hrefs .empty
  have hsame : s.sets.mapValues SetRow.refs = expected := by
    ext id : 1
    rw [get?_mapValues, hs.counted id, hcounts id 0 rfl, Nat.zero_add]
    rfl
  refine bind_eq_ok.mpr ⟨expected, hexpected, ?_⟩
  rw [hsame]
  exact ensure_eq_ok.mpr (decide_eq_true rfl)

/-! ## Runs -/

inductive Call (Key : Type)
  | put (key : Key) (value : Value)
  | remove (key : Key)

def Store.call (kindOf : Key → String) (s : Store codec Key) : Call Key → Except String (Store codec Key)
  | .put key value => s.put kindOf key value
  | .remove key => s.remove kindOf key

/-- The record each key was given last. -/
def latest (last : SortedMap Key Value) : Call Key → SortedMap Key Value
  | .put key value => last.insert key value
  | .remove key => last.erase key

theorem call_spec {c : Call Key} (hs : Consistent kindOf s last)
    (h : s.call kindOf c = .ok t) : Consistent kindOf t (latest last c) ∧ Evolves s t := by
  cases c with
  | put key value => exact put_spec hs h
  | remove key => exact remove_spec hs h

theorem calls_spec {calls : List (Call Key)} (hs : Consistent kindOf s last)
    (h : calls.foldlM (Store.call kindOf) s = .ok t) :
    Consistent kindOf t (calls.foldl latest last) ∧ Evolves s t := by
  induction calls generalizing s last with
  | nil =>
    obtain rfl := Except.ok.inj h
    exact ⟨hs, Evolves.refl s⟩
  | cons c calls ih =>
    obtain ⟨s1, hcall, hrest⟩ := bind_eq_ok.mp h
    obtain ⟨hs1, hevolves⟩ := call_spec hs hcall
    obtain ⟨ht, hevolves'⟩ := ih hs1 hrest
    exact ⟨ht, hevolves.trans hevolves'⟩

/-- After any calls: the audit passes; a set has as many references as its count
says, and at least one; a record refers to sets that exist, and reads as it was
put last; and later calls give no number a second time. -/
theorem reference_counts_never_drift (codec : RowCodec) (kindOf : Key → String)
    (before after : List (Call Key)) (s t : Store codec Key)
    (hbefore : before.foldlM (Store.call kindOf) {} = .ok s)
    (hafter : after.foldlM (Store.call kindOf) s = .ok t) :
    s.verify_counts kindOf = .ok () ∧
      (∀ id row, s.sets.get? id = some row → row.refs = s.referenced kindOf id ∧ 0 < row.refs) ∧
      (∀ key json, s.records.get? key = some json →
        (∃ ids, references (kindOf key) json = .ok ids ∧ ∀ id ∈ ids, (s.sets.get? id).isSome) ∧
        ∃ value, (before.foldl latest .empty).get? key = some value ∧
          restore s (kindOf key) json = .ok value) ∧
      (∀ key, (s.records.get? key).isSome = ((before.foldl latest .empty).get? key).isSome) ∧
      (∀ id row, s.sets.get? id = some row → id < s.high) ∧ s.high ≤ t.high ∧
      ∀ id value, id < s.high → t.content id = some value → s.content id = some value := by
  obtain ⟨hs, -⟩ := calls_spec Consistent.empty hbefore
  obtain ⟨-, hevolves⟩ := calls_spec hs hafter
  refine ⟨hs.verify_counts, ?_, ?_, hs.present, ?_, hevolves.high, ?_⟩
  · intro id row hrow
    have hcounted := hs.counted id
    rw [hrow, rowOf] at hcounted
    by_cases hzero : s.referenced kindOf id = 0
    · rw [if_pos hzero] at hcounted
      cases hcounted
    · rw [if_neg hzero] at hcounted
      have hrefs : row.refs = s.referenced kindOf id := Option.some.inj hcounted
      exact ⟨hrefs, by omega⟩
  · intro key json hjson
    obtain ⟨⟨ids, hids⟩, hvalue⟩ := hs.restored key json hjson
    exact ⟨⟨ids, hids, fun id hid => present_of_referenced hs.counted hjson hids hid⟩, hvalue⟩
  · intro id row hrow
    exact (hs.numbered id row hrow).2
  · intro id value hid hvalue
    rcases hevolves.same id value hvalue with hsame | hhigh
    · exact hsame
    · omega

end

/-- A codec that holds a text by the value it says, with the length of the text
and no two digests alike. -/
def exactCodec : RowCodec where
  Text := Value
  textEq := inferInstance
  Digest := Value
  digestEq := inferInstance
  to_vec := id
  to_vec_injective := Function.injective_id
  len := fun text => (canonical_json.utf8 (canonical_json.plain text)).length
  digest := id
  digest_injective := Function.injective_id
  commitment := id

/-- A window with two references to one set, then one to another set. -/
theorem a_released_set_keeps_its_number :
    ∃ s t : Store exactCodec Nat,
      [Call.put 0 (.object [("r", .object [("a", .string "x"), ("b", .string "x")])])].foldlM
        (Store.call (fun _ => "account_window")) {} = .ok s ∧
      [Call.put 0 (.object [("r", .object [("a", .string "y")])])].foldlM
        (Store.call (fun _ => "account_window")) s = .ok t ∧
      s.high = 2 ∧ t.sets.keys = [2] ∧
      s.verify_counts (fun _ => "account_window") = .ok () ∧
      ∀ id value, id < s.high → t.content id = some value → s.content id = some value := by
  have hs : (([Call.put 0 (.object [("r", .object [("a", .string "x"), ("b", .string "x")])])].foldlM
      (Store.call (fun _ => "account_window")) ({} : Store exactCodec Nat)).toOption.map
        Store.high) = some 2 := by decide
  have ht : (([Call.put 0 (.object [("r", .object [("a", .string "x"), ("b", .string "x")])]),
      .put 0 (.object [("r", .object [("a", .string "y")])])].foldlM
      (Store.call (fun _ => "account_window")) ({} : Store exactCodec Nat)).toOption.map
        (fun t => t.sets.keys)) = some [2] := by decide
  obtain ⟨s, hs, hhigh⟩ := map_eq_some_iff.mp hs
  obtain ⟨t, ht, hkeys⟩ := map_eq_some_iff.mp ht
  have hs := toOption_eq_some.mp hs
  have ht := toOption_eq_some.mp ht
  have hafter : [Call.put 0 (.object [("r", .object [("a", .string "y")])])].foldlM
      (Store.call (fun _ => "account_window")) s = .ok t := by
    rw [← singleton_append, foldlM_append, hs] at ht
    exact ht
  have hall := reference_counts_never_drift exactCodec (fun _ => "account_window") _ _ s t hs hafter
  exact ⟨s, t, hs, hafter, hhigh, hkeys, hall.1, hall.2.2.2.2.2.2⟩

end ottto_service.state_v2
