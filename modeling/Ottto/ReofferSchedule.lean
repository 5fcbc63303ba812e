-- A stored re-offer schedule decodes to what was stored (snapshot_sync/reason_reoffer.rs).
-- A value that no writer stored decodes to an active schedule only where it holds each
-- required member once, and to a refusal that is never offered again otherwise.
import Ottto.ReofferLimits
import Mathlib.Data.List.Nodup

namespace ottto_service.reason_reoffer

open serde_json List Scalar

/-! ## A run of the members -/

/-- The required members of an object, as often as they are written. -/
def required_keys (fields : List (String × Value)) : List Key :=
  (fields.map (fun m => Key.read m.1)).filter Key.required

/-- What the members from here on have to meet for the extension to stay valid. -/
structure Admitted (state : Extension) (fields : List (String × Value)) : Prop where
  valid : state.budget.invalid = false
  members : state.members + fields.length ≤ MAX_MEMBERS
  fits : ∀ m ∈ fields, member_fits m = true
  nodes : state.budget.nodes + (fields.map member_nodes).sum ≤ MAX_NODES
  once : (required_keys fields).Nodup
  fresh : ∀ key ∈ required_keys fields, state.slot key = none

theorem required_keys_cons (m : String × Value) (fields : List (String × Value)) :
    required_keys (m :: fields) =
      if (Key.read m.1).required then Key.read m.1 :: required_keys fields
      else required_keys fields := by
  unfold required_keys
  rw [map_cons, filter_cons]

variable {state : Extension} {fields : List (String × Value)}

/-- One member first, then the others in the state that it leaves. -/
theorem admitted_cons {m : String × Value} :
    Admitted state (m :: fields) ↔ Admits state m ∧ Admitted (member_value state m) fields := by
  obtain ⟨hvalid, hnodes⟩ := member_value_spends state m
  have hmembers := member_value_members state m
  constructor
  · rintro ⟨hstate, hcount, hfits, hsum, honce, hfresh⟩
    rw [length_cons] at hcount
    rw [map_cons, sum_cons] at hsum
    rw [required_keys_cons] at honce hfresh
    have hslot : state.slot (Key.read m.1) = none := by
      cases hkey : (Key.read m.1).required with
      | true =>
        rw [if_pos hkey] at hfresh
        exact hfresh _ mem_cons_self
      | false => exact slot_unrequired state hkey
    have hadmits : Admits state m :=
      ⟨hstate, by omega, hfits m mem_cons_self, by omega, hslot⟩
    refine ⟨hadmits, hvalid.mpr hadmits, by omega,
      fun other hother => hfits other (mem_cons_of_mem _ hother), ?_, ?_, ?_⟩
    · rw [hnodes (hvalid.mpr hadmits)]
      omega
    · split at honce
      · exact (nodup_cons.mp honce).2
      · exact honce
    · intro key hin
      rw [member_value_slot]
      split at honce
      case isTrue hkey =>
        rw [if_pos hkey] at hfresh
        have hother : ¬ ((Key.read m.1).required = true ∧ key = Key.read m.1) := by
          rintro ⟨-, rfl⟩
          exact (nodup_cons.mp honce).1 hin
        rw [if_neg hother]
        exact hfresh key (mem_cons_of_mem _ hin)
      case isFalse hkey =>
        rw [if_neg hkey] at hfresh
        rw [if_neg (fun h => hkey h.1)]
        exact hfresh key hin
  · rintro ⟨hadmits, hafter, hcount, hfits, hsum, honce, hfresh⟩
    obtain ⟨hstate, -, hfit, -, hslot⟩ := hadmits
    rw [hnodes hafter] at hsum
    have hseen : (Key.read m.1).required = true → Key.read m.1 ∉ required_keys fields := by
      intro hkey hin
      have hnone := hfresh _ hin
      rw [member_value_slot, if_pos ⟨hkey, rfl⟩] at hnone
      cases hnone
    have hkept : ∀ key ∈ required_keys fields, state.slot key = none := by
      intro key hin
      have hnone := hfresh key hin
      rw [member_value_slot] at hnone
      split at hnone
      · cases hnone
      · exact hnone
    refine ⟨hstate, by rw [length_cons]; omega, forall_mem_cons.mpr ⟨hfit, hfits⟩, ?_, ?_, ?_⟩
    · rw [map_cons, sum_cons]
      omega
    · rw [required_keys_cons]
      split
      · exact nodup_cons.mpr ⟨hseen ‹_›, honce⟩
      · exact honce
    · rw [required_keys_cons]
      split
      · exact forall_mem_cons.mpr ⟨hslot, hkept⟩
      · exact hkept

theorem run_valid (fields : List (String × Value)) (h : Within state) :
    (fields.foldl member_value state).budget.invalid = false ↔ Admitted state fields := by
  induction fields generalizing state with
  | nil =>
    constructor
    · intro hvalid
      exact ⟨hvalid, h.members hvalid, nofun, h.bounded hvalid, nodup_nil, nofun⟩
    · intro hadmitted
      exact hadmitted.valid
  | cons m fields ih =>
    rw [foldl_cons, ih (within_member state m), admitted_cons]
    constructor
    · intro hafter
      exact ⟨(member_value_spends state m).1.mp hafter.valid, hafter⟩
    · exact And.right

/-! ## The slots after a run -/

/-- The values of an object under a name, in their order. -/
def values (fields : List (String × Value)) (name : String) : List Value :=
  (fields.filter (fun m => decide (m.1 = name))).map Prod.snd

/-- The name of a required member. -/
def Key.name : Key → String
  | .Version => "version"
  | .Reason => "reason"
  | .RetryAfter => "retry_after_unix_seconds"
  | _ => ""

variable {key : Key}

theorem read_name (h : key.required = true) (name : String) :
    Key.read name = key ↔ name = key.name := by
  constructor
  · intro hread
    unfold Key.read at hread
    split at hread
    · subst hread; cases h
    split at hread
    case isTrue hname => subst hread; exact hname
    split at hread
    case isTrue hname => subst hread; exact hname
    split at hread
    case isTrue hname => subst hread; exact hname
    subst hread
    cases h
  · rintro rfl
    cases key with
    | Version => decide
    | Reason => decide
    | RetryAfter => decide
    | Unknown => cases h
    | Invalid => cases h

theorem values_cons (h : key.required = true) (m : String × Value)
    (fields : List (String × Value)) :
    values (m :: fields) key.name =
      if Key.read m.1 = key then m.2 :: values fields key.name else values fields key.name := by
  unfold values
  rw [filter_cons]
  by_cases hkey : Key.read m.1 = key
  · rw [if_pos hkey, if_pos (decide_eq_true ((read_name h _).mp hkey)), map_cons]
  · rw [if_neg hkey, if_neg (fun hname => hkey ((read_name h _).mpr (of_decide_eq_true hname)))]

theorem count_required (h : key.required = true) (fields : List (String × Value)) :
    (required_keys fields).count key = (values fields key.name).length := by
  induction fields with
  | nil => rfl
  | cons m fields ih =>
    rw [required_keys_cons, values_cons h]
    by_cases hkey : Key.read m.1 = key
    · rw [hkey, if_pos h, if_pos rfl, count_cons_self, ih, length_cons]
    · split
      · rw [count_cons_of_ne hkey, ih]
      · exact ih

/-- A slot holds the last of the member's values. -/
theorem run_slot (h : key.required = true) (fields : List (String × Value)) (state : Extension) :
    (fields.foldl member_value state).slot key =
      ((values fields key.name).getLast?.map scalar_of).or (state.slot key) := by
  induction fields generalizing state with
  | nil => rfl
  | cons m fields ih =>
    rw [foldl_cons, ih, member_value_slot, values_cons h]
    by_cases hkey : Key.read m.1 = key
    · rw [if_pos ⟨by rw [hkey]; exact h, hkey.symm⟩, if_pos hkey, getLast?_cons]
      cases (values fields key.name).getLast? with
      | none => rfl
      | some found => rfl
    · rw [if_neg (fun hboth => hkey hboth.2.symm), if_neg hkey]

/-! ## Active schedules -/

/-- The object is within the limits of the decoder. -/
structure Limits (fields : List (String × Value)) : Prop where
  members : fields.length ≤ MAX_MEMBERS
  fits : ∀ m ∈ fields, member_fits m = true
  nodes : (fields.map member_nodes).sum ≤ MAX_NODES

/-- An unsigned integer of JSON, whichever integer it is handed over as. -/
def Unsigned (n : UInt64) (v : Value) : Prop :=
  v = .number (.PosInt n) ∨ ∃ i : Int64, 0 ≤ i ∧ i.toUInt64 = n ∧ v = .number (.NegInt i)

/-- The object is an active schedule: each of its required members is there once, with
the version, the reason and a deadline. -/
structure Schedule (fields : List (String × Value)) (reason : String) (retry_after : Nat) :
    Prop where
  limits : Limits fields
  version : ∃ version, values fields "version" = [version] ∧ Unsigned EXTENSION_VERSION version
  reason : values fields "reason" = [.string reason]
  retry_after : ∃ n deadline, values fields "retry_after_unix_seconds" = [deadline] ∧
    Unsigned n deadline ∧ n.toNat = retry_after

theorem within_new : Within {} := ⟨fun _ => Nat.zero_le _, fun _ => Nat.zero_le _⟩

theorem once_iff (fields : List (String × Value)) :
    (required_keys fields).Nodup ↔
      ∀ key : Key, key.required = true → (values fields key.name).length ≤ 1 := by
  rw [nodup_iff_count_le_one]
  constructor
  · intro h key hkey
    rw [← count_required hkey]
    exact h key
  · intro h key
    cases hkey : key.required with
    | true =>
      rw [count_required hkey]
      exact h key hkey
    | false =>
      have habsent : key ∉ required_keys fields := by
        intro hin
        have hrequired := (mem_filter.mp hin).2
        rw [hkey] at hrequired
        cases hrequired
      rw [count_eq_zero_of_not_mem habsent]
      exact Nat.zero_le 1

/-- The extension is read as valid within the limits, with no required member twice. -/
theorem decoded_valid (fields : List (String × Value)) :
    (fields.foldl member_value {}).budget.invalid = false ↔
      Limits fields ∧
        ∀ key : Key, key.required = true → (values fields key.name).length ≤ 1 := by
  rw [run_valid fields within_new, ← once_iff]
  constructor
  · rintro ⟨-, hmembers, hfits, hnodes, honce, -⟩
    exact ⟨⟨by omega, hfits, by simpa using hnodes⟩, honce⟩
  · rintro ⟨⟨hmembers, hfits, hnodes⟩, honce⟩
    exact ⟨rfl, by simpa using hmembers, hfits, by simpa using hnodes, honce,
      fun key _ => by cases key <;> rfl⟩

theorem decoded_slot (h : key.required = true) (fields : List (String × Value)) :
    (fields.foldl member_value {}).slot key =
      (values fields key.name).getLast?.map scalar_of := by
  rw [run_slot h, show Extension.slot {} key = none by cases key <;> rfl, Option.or_none]

theorem scalar_of_u64 (n : UInt64) (v : Value) : scalar_of v = .U64 n ↔ Unsigned n v := by
  unfold Unsigned
  cases v with
  | number number =>
    cases number with
    | PosInt m => simp [scalar_of, of_number]
    | NegInt i =>
      by_cases hneg : 0 ≤ i
      · simp [scalar_of, of_number, hneg]
      · simp [scalar_of, of_number, hneg]
    | Float x => simp [scalar_of, of_number]
  | string s =>
    simp only [scalar_of, of_str]
    repeat' split
    all_goals simp
  | null => simp [scalar_of]
  | bool b => simp [scalar_of]
  | array items => simp [scalar_of]
  | object fields => simp [scalar_of]

/-- The wire form of a token. -/
def Token.wire : Token → String
  | .OriginalPair => ORIGINAL_PAIR_CANDIDATE_UNPROVED
  | .LegacyOther => LEGACY_OTHER
  | .Classified => CLASSIFIED

theorem scalar_of_token (token : Token) (v : Value) :
    scalar_of v = .Token token ↔ v = .string token.wire := by
  cases v with
  | string s =>
    constructor
    · intro h
      simp only [scalar_of, of_str] at h
      split at h
      · cases h
      split at h
      case isTrue hs => cases h; rw [hs]; rfl
      split at h
      case isTrue hs => cases h; rw [hs]; rfl
      split at h
      case isTrue hs => cases h; rw [hs]; rfl
      cases h
    · intro h
      cases h
      cases token <;> decide
  | number number =>
    cases number with
    | NegInt i =>
      simp only [scalar_of, of_number]
      split <;> simp
    | PosInt n => simp [scalar_of, of_number]
    | Float x => simp [scalar_of, of_number]
  | null => simp [scalar_of]
  | bool b => simp [scalar_of]
  | array items => simp [scalar_of]
  | object fields => simp [scalar_of]

/-- The refusal that a token makes of a deadline. -/
def Token.active : Token → Nat → Option RefusalReoffer
  | .OriginalPair, retry_after => some (.OriginalPair retry_after)
  | .LegacyOther, retry_after => some (.LegacyOther retry_after)
  | .Classified, _ => none

variable {token : Token} {retry_after : Nat}

theorem Token.active_inj {found : Token} {n : Nat} {active : RefusalReoffer}
    (h : token.active retry_after = some active) (hfound : found.active n = some active) :
    found = token ∧ n = retry_after := by
  cases token <;> cases found <;> cases h <;> cases hfound <;> exact ⟨rfl, rfl⟩

/-- What the reader asks of an extension to make an active refusal of it. -/
structure Asked (state : Extension) (token : Token) (n : UInt64) : Prop where
  valid : state.budget.invalid = false
  version : state.slot .Version = some (.U64 EXTENSION_VERSION)
  reason : state.slot .Reason = some (.Token token)
  retry_after : state.slot .RetryAfter = some (.U64 n)

theorem parsed_asked {n : UInt64} (h : Asked state token n)
    {active : RefusalReoffer} (hactive : token.active n.toNat = some active) :
    parsed state = some active := by
  obtain ⟨hvalid, hversion, hreason, hretry⟩ := h
  unfold Extension.slot at hversion hreason hretry
  dsimp only at hversion hreason hretry
  unfold parsed
  rw [hvalid, hversion, hreason, hretry]
  cases token with
  | OriginalPair => exact hactive
  | LegacyOther => exact hactive
  | Classified => cases hactive

/-- Whatever does not hold what is asked for is a refusal that is never offered again. -/
theorem parsed_cases (state : Extension) :
    parsed state = disabled ∨
      ∃ token n active, Asked state token n ∧ Token.active token n.toNat = some active ∧
        parsed state = some active := by
  obtain ⟨⟨nodes, invalid⟩, members, version, reason, retry_after⟩ := state
  cases invalid with
  | true => exact .inl rfl
  | false =>
    rcases version with _ | version | _ | _
    · exact .inl rfl
    · rcases reason with _ | _ | token | _
      · exact .inl rfl
      · exact .inl rfl
      · by_cases hversion : version = EXTENSION_VERSION
        · subst hversion
          cases token with
          | OriginalPair =>
            rcases retry_after with _ | n | _ | _
            · exact .inl rfl
            · exact .inr ⟨.OriginalPair, n, _, ⟨rfl, rfl, rfl, rfl⟩, rfl, rfl⟩
            · exact .inl rfl
            · exact .inl rfl
          | LegacyOther =>
            rcases retry_after with _ | n | _ | _
            · exact .inl rfl
            · exact .inr ⟨.LegacyOther, n, _, ⟨rfl, rfl, rfl, rfl⟩, rfl, rfl⟩
            · exact .inl rfl
            · exact .inl rfl
          | Classified =>
            cases retry_after with
            | none => exact .inl rfl
            | some retry_after => exact .inl rfl
        · exact .inl (if_neg hversion)
      · exact .inl rfl
    · exact .inl rfl
    · exact .inl rfl

/-- The reader asks for a valid extension, the version, the token and the deadline. -/
theorem parsed_active {active : RefusalReoffer} (h : token.active retry_after = some active) :
    parsed state = some active ↔
      state.budget.invalid = false ∧ state.slot .Version = some (.U64 EXTENSION_VERSION) ∧
        state.slot .Reason = some (.Token token) ∧
        ∃ n : UInt64, state.slot .RetryAfter = some (.U64 n) ∧ n.toNat = retry_after := by
  constructor
  · intro hparsed
    rcases parsed_cases state with hdisabled | ⟨found, n, other, hasked, hother, hactive⟩
    · rw [hdisabled] at hparsed
      cases hparsed
      cases token <;> cases h
    · rw [hactive] at hparsed
      cases hparsed
      obtain ⟨rfl, rfl⟩ := Token.active_inj h hother
      exact ⟨hasked.valid, hasked.version, hasked.reason, n, hasked.retry_after, rfl⟩
  · rintro ⟨hvalid, hversion, hreason, n, hretry, rfl⟩
    exact parsed_asked ⟨hvalid, hversion, hreason, hretry⟩ h

theorem values_once {vs : List Value} {v : Value} (hlast : vs.getLast? = some v)
    (hlen : vs.length ≤ 1) : vs = [v] := by
  match vs, hlen with
  | [], _ => cases hlast
  | [w], _ =>
    rw [getLast?_singleton] at hlast
    rw [Option.some.inj hlast]

/-- A slot is set by one member, which is then the only one of its name. -/
theorem slot_once (h : key.required = true)
    (honce : (values fields key.name).length ≤ 1) (read : Scalar) :
    (fields.foldl member_value {}).slot key = some read ↔
      ∃ v, values fields key.name = [v] ∧ scalar_of v = read := by
  rw [decoded_slot h]
  constructor
  · intro hslot
    obtain ⟨v, hlast, hread⟩ := Option.map_eq_some_iff.mp hslot
    exact ⟨v, values_once hlast honce, hread⟩
  · rintro ⟨v, hvalues, hread⟩
    rw [hvalues, getLast?_singleton, Option.map_some, hread]

theorem object_active {active : RefusalReoffer} (h : token.active retry_after = some active) :
    decoded (.object fields) = some active ↔ Schedule fields token.wire retry_after := by
  rw [decoded, parsed_active h, decoded_valid]
  constructor
  · rintro ⟨⟨hlimits, honce⟩, hversion, hreason, n, hretry, hdeadline⟩
    rw [slot_once rfl (honce .Version rfl)] at hversion
    rw [slot_once rfl (honce .Reason rfl)] at hreason
    rw [slot_once rfl (honce .RetryAfter rfl)] at hretry
    obtain ⟨version, hversions, hversion⟩ := hversion
    obtain ⟨reason, hreasons, hreason⟩ := hreason
    obtain ⟨deadline, hdeadlines, hretry⟩ := hretry
    rw [(scalar_of_token token reason).mp hreason] at hreasons
    exact ⟨hlimits, ⟨version, hversions, (scalar_of_u64 _ _).mp hversion⟩, hreasons,
      n, deadline, hdeadlines, (scalar_of_u64 _ _).mp hretry, hdeadline⟩
  · rintro ⟨hlimits, ⟨version, hversions, hversion⟩, hreasons, n, deadline, hdeadlines, hretry, hdeadline⟩
    have honce : ∀ key : Key, key.required = true → (values fields key.name).length ≤ 1 := by
      intro key hkey
      cases key with
      | Version => exact Nat.le_of_eq (congrArg List.length hversions)
      | Reason => exact Nat.le_of_eq (congrArg List.length hreasons)
      | RetryAfter => exact Nat.le_of_eq (congrArg List.length hdeadlines)
      | Unknown => cases hkey
      | Invalid => cases hkey
    refine ⟨⟨hlimits, honce⟩, ?_, ?_, n, ?_, hdeadline⟩
    · exact (slot_once rfl (honce .Version rfl) _).mpr
        ⟨version, hversions, (scalar_of_u64 _ _).mpr hversion⟩
    · exact (slot_once rfl (honce .Reason rfl) _).mpr
        ⟨_, hreasons, (scalar_of_token token _).mpr rfl⟩
    · exact (slot_once rfl (honce .RetryAfter rfl) _).mpr
        ⟨deadline, hdeadlines, (scalar_of_u64 _ _).mpr hretry⟩

/-- The value is an active schedule for a reason. -/
def Active (reason : String) (retry_after : Nat) (v : Value) : Prop :=
  ∃ fields, v = .object fields ∧ Schedule fields reason retry_after

theorem decoded_active {token : Token} {retry_after : Nat} {active : RefusalReoffer}
    (h : token.active retry_after = some active) (v : Value) :
    decoded v = some active ↔ Active token.wire retry_after v := by
  have hdisabled : disabled ≠ some active := by
    rw [← h]
    cases token <;> exact nofun
  cases v with
  | object fields =>
    rw [object_active h]
    constructor
    · exact fun hschedule => ⟨fields, rfl, hschedule⟩
    · rintro ⟨others, hfields, hschedule⟩
      cases hfields
      exact hschedule
  | null => exact ⟨nofun, nofun⟩
  | bool b => exact ⟨fun heq => absurd heq hdisabled, nofun⟩
  | number n => exact ⟨fun heq => absurd heq hdisabled, nofun⟩
  | string s => exact ⟨fun heq => absurd heq hdisabled, nofun⟩
  | array items => exact ⟨fun heq => absurd heq hdisabled, nofun⟩

theorem parsed_present (state : Extension) : parsed state ≠ none := by
  rcases parsed_cases state with hdisabled | ⟨token, n, active, hasked, hactive, hparsed⟩
  · rw [hdisabled]
    exact nofun
  · rw [hparsed]
    exact nofun

theorem decoded_none (v : Value) : decoded v = none ↔ v = .null := by
  cases v with
  | null => exact ⟨fun _ => rfl, fun _ => rfl⟩
  | object fields => exact ⟨fun h => absurd h (parsed_present _), nofun⟩
  | bool b => exact ⟨nofun, nofun⟩
  | number n => exact ⟨nofun, nofun⟩
  | string s => exact ⟨nofun, nofun⟩
  | array items => exact ⟨nofun, nofun⟩

/-- What is neither absent nor an active schedule is a refusal without a retry. -/
theorem decoded_classified (v : Value) :
    decoded v = some .Classified ↔
      v ≠ .null ∧ ∀ retry_after, ¬ Active ORIGINAL_PAIR_CANDIDATE_UNPROVED retry_after v ∧
        ¬ Active LEGACY_OTHER retry_after v := by
  constructor
  · intro hclassified
    have hnull : v ≠ .null := fun h => by rw [(decoded_none v).mpr h] at hclassified; cases hclassified
    refine ⟨hnull, fun retry_after => ⟨fun hactive => ?_, fun hactive => ?_⟩⟩
    · have hpair := (@decoded_active .OriginalPair _ _ rfl v).mpr hactive
      rw [hclassified] at hpair
      cases hpair
    · have hlegacy := (@decoded_active .LegacyOther _ _ rfl v).mpr hactive
      rw [hclassified] at hlegacy
      cases hlegacy
  · rintro ⟨hnull, hinactive⟩
    cases hdecoded : decoded v with
    | none => exact absurd ((decoded_none v).mp hdecoded) hnull
    | some reoffer =>
      cases reoffer with
      | Classified => rfl
      | OriginalPair retry_after =>
        exact absurd ((@decoded_active .OriginalPair _ _ rfl v).mp hdecoded)
          (hinactive retry_after).1
      | LegacyOther retry_after =>
        exact absurd ((@decoded_active .LegacyOther _ _ rfl v).mp hdecoded)
          (hinactive retry_after).2

/-! ## The round trip -/

/-- A deadline of the source: a `u64`. -/
def Stored (reoffer : Option RefusalReoffer) : Prop :=
  ∀ retry_after, reoffer.bind RefusalReoffer.retry_after = some retry_after →
    retry_after < 2 ^ 64

/-- The object that is written for an active schedule. -/
def written (reason : String) (deadline : UInt64) : List (String × Value) :=
  [("version", .number (.PosInt EXTENSION_VERSION)), ("reason", .string reason),
    ("retry_after_unix_seconds", .number (.PosInt deadline))]

theorem written_schedule (token : Token) (deadline : UInt64) :
    Schedule (written token.wire deadline) token.wire deadline.toNat := by
  refine ⟨⟨?_, ?_, ?_⟩, ⟨_, rfl, .inl rfl⟩, rfl, deadline, _, rfl, .inl rfl, rfl⟩
  · show 3 ≤ MAX_MEMBERS
    decide
  · have hshort : short "retry_after_unix_seconds" = true := by decide
    intro m hm
    fin_cases hm
    · decide
    · cases token <;> decide
    · exact Bool.and_eq_true_iff.mpr ⟨hshort, rfl⟩
  · show 3 ≤ MAX_NODES
    decide

/-- The value of what is written for a record. -/
def serialized : Option RefusalReoffer → Value
  | none => .null
  | some (.OriginalPair retry_after) =>
    .object (written ORIGINAL_PAIR_CANDIDATE_UNPROVED (UInt64.ofNat retry_after))
  | some (.LegacyOther retry_after) => .object (written LEGACY_OTHER (UInt64.ofNat retry_after))
  | some .Classified =>
    .object [("version", .number (.PosInt EXTENSION_VERSION)), ("reason", .string CLASSIFIED)]

theorem decoded_serialized {reoffer : Option RefusalReoffer} (h : Stored reoffer) :
    decoded (serialized reoffer) = reoffer := by
  cases reoffer with
  | none => rfl
  | some reoffer =>
    cases reoffer with
    | Classified => decide
    | OriginalPair retry_after =>
      have hdeadline : (UInt64.ofNat retry_after).toNat = retry_after :=
        UInt64.toNat_ofNat_of_lt' (h retry_after rfl)
      have hschedule := written_schedule .OriginalPair (UInt64.ofNat retry_after)
      rw [hdeadline] at hschedule
      exact (@decoded_active .OriginalPair _ _ rfl _).mpr ⟨_, rfl, hschedule⟩
    | LegacyOther retry_after =>
      have hdeadline : (UInt64.ofNat retry_after).toNat = retry_after :=
        UInt64.toNat_ofNat_of_lt' (h retry_after rfl)
      have hschedule := written_schedule .LegacyOther (UInt64.ofNat retry_after)
      rw [hdeadline] at hschedule
      exact (@decoded_active .LegacyOther _ _ rfl _).mpr ⟨_, rfl, hschedule⟩

variable (float : List Char → Option UInt64)

theorem decimal_read (n : UInt64) : (decimal n).read float = some (.PosInt n) := by
  unfold NumberText.read decimal
  simp only [readNumber_decimal]

/-- What is written holds no literal that cannot be read. -/
theorem serialize_read (reoffer : Option RefusalReoffer) :
    readable float (serialize reoffer) = true ∧ value float (serialize reoffer) = serialized reoffer := by
  have hversion : (plain "version" (by decide)).read = some "version" := by decide
  have hreason : (plain "reason" (by decide)).read = some "reason" := by decide
  have hretry : (plain "retry_after_unix_seconds" (by decide)).read =
      some "retry_after_unix_seconds" := by decide
  have hpair : (plain ORIGINAL_PAIR_CANDIDATE_UNPROVED (by decide)).read =
      some ORIGINAL_PAIR_CANDIDATE_UNPROVED := by decide
  have hlegacy : (plain LEGACY_OTHER (by decide)).read = some LEGACY_OTHER := by decide
  have hclassified : (plain CLASSIFIED (by decide)).read = some CLASSIFIED := by decide
  have hkey : ∀ key : Key, key.required = true → Key.read key.name = key :=
    fun key h => (read_name h _).mpr rfl
  have hversions := hkey .Version rfl
  have hreasons := hkey .Reason rfl
  have hretries := hkey .RetryAfter rfl
  unfold Key.name at hversions hreasons hretries
  rcases reoffer with _ | retry_after | retry_after | _
  · exact ⟨rfl, rfl⟩
  all_goals
    simp [serialize, serialized, written, readable, extension_reads, member_reads, scalar_reads,
      value, member_values, StringText.text, decimal_read, hversion, hreason, hretry, hpair, hlegacy,
      hclassified, hversions, hreasons, hretries]

/-! ## Damage -/

theorem value_null (t : Text) : value float t = .null ↔ t = .null := by
  cases t <;> simp [value]

/-- Damage stays in its member, as far as its literals can be read. Then the decoder takes exactly
the text and does not fail, an active schedule comes of an object that holds each of its members
once, and what was written reads back. A literal that the decoder reads and that cannot be read
fails it, and the ledger with it. -/
theorem decoder_isolates_damage (t : Text) (rest : Stream) :
    ((∃ reoffer, deserialize float (events t ++ rest) = some (reoffer, rest) ∧
      (reoffer = none ↔ t = .null) ∧
      (∀ retry_after, reoffer = some (.OriginalPair retry_after) ↔
        Active ORIGINAL_PAIR_CANDIDATE_UNPROVED retry_after (value float t)) ∧
      (∀ retry_after, reoffer = some (.LegacyOther retry_after) ↔
        Active LEGACY_OTHER retry_after (value float t)) ∧
      (reoffer = some .Classified ↔
        t ≠ .null ∧ ∀ retry_after,
          ¬ Active ORIGINAL_PAIR_CANDIDATE_UNPROVED retry_after (value float t) ∧
            ¬ Active LEGACY_OTHER retry_after (value float t))) ↔ readable float t = true) ∧
    ∀ reoffer, Stored reoffer →
      deserialize float (events (serialize reoffer) ++ rest) = some (reoffer, rest) := by
  refine ⟨?_, fun reoffer hstored => ?_⟩
  · rw [deserialize_events]
    cases readable float t with
    | false =>
      refine ⟨?_, nofun⟩
      rintro ⟨reoffer, hread, -⟩
      cases hread
    | true =>
      refine iff_of_true ⟨decoded (value float t), rfl, ?_,
        fun retry_after => @decoded_active .OriginalPair _ _ rfl _,
        fun retry_after => @decoded_active .LegacyOther _ _ rfl _, ?_⟩ rfl
      · rw [decoded_none, value_null]
      · rw [decoded_classified, Ne, value_null]
  · obtain ⟨hreadable, hvalue⟩ := serialize_read float reoffer
    rw [deserialize_events, if_pos hreadable, hvalue, decoded_serialized hstored]

/-- A later member with half of a surrogate pair. -/
def half_a_pair : Text :=
  .object [(plain "later" (by decide), .string ⟨"\\ud800".toList, by decide⟩)]

/-- The member is damaged, and the decoder fails the ledger. -/
theorem a_damaged_member_fails_the_ledger :
    ¬ ∀ (float : List Char → Option UInt64) (t : Text) (rest : Stream),
      ∃ reoffer, deserialize float (events t ++ rest) = some (reoffer, rest) := by
  intro h
  obtain ⟨reoffer, hread⟩ := h (fun _ => none) half_a_pair []
  rw [deserialize_events] at hread
  have hunreadable : readable (fun _ => none) half_a_pair = false := by decide
  cases hread

/-- A number outside of `f64` fails it as well. -/
example : readable (fun _ => none) (.number ⟨"1e400".toList, by decide⟩) = false := by decide

end ottto_service.reason_reoffer
