-- The head codec of a Tail file is exact (snapshots/state_v2/tail.rs): a head is
-- written wherever its shape allows one, and the bytes of a canonical head are
-- those of what they decode to.
import Ottto.TailHead

namespace ottto_service.state_v2.tail

open Results List Option Takes UInt8
open durable_tail_codec.Durable (to_le_bytes from_le_bytes as_bytes from_utf8 to_le_bytes_length)

/-! ## What is written -/

/-- A Tail head may hold a reduction; any other head holds none. -/
theorem check_shape_eq_ok {representation : Representation} {has_reduction : Bool} {u : Unit} :
    check_shape representation has_reduction = .ok u ↔
      (has_reduction = false ∨ representation = .Tail) := by
  unfold check_shape
  rw [ensure_eq_ok]
  simp

theorem encode_inventory_ok {facts : InventoryFacts}
    (h : (as_bytes facts.owner).length < 2 ^ 32) : ∃ bytes, encode_inventory facts = .ok bytes := by
  exact ⟨_, bind_eq_ok.mpr ⟨(), ensure_eq_ok.mpr (decide_eq_true h), rfl⟩⟩

theorem encode_head_ok_iff {revision : UInt32} {t : MembershipTable} {common : Common}
    {reduction : Option Bytes}
    (howner : ∀ facts ∈ common.inventory, (as_bytes facts.owner).length < 2 ^ 32) :
    (∃ bytes, encode_head revision t common reduction = .ok bytes) ↔
      (reduction = none ∨ common.representation = .Tail) := by
  constructor
  · rintro ⟨bytes, h⟩
    obtain ⟨_, hshape, -⟩ := bind_eq_ok.mp h
    rcases check_shape_eq_ok.mp hshape with hnone | htail
    · exact .inl (isSome_eq_false_iff.mp hnone |> isNone_iff_eq_none.mp)
    · exact .inr htail
  · intro h
    have hshape : check_shape common.representation reduction.isSome = .ok () := by
      apply check_shape_eq_ok.mpr
      rcases h with rfl | h
      · exact .inl rfl
      · exact .inr h
    obtain ⟨representation, debt, next_revision_id, inventory⟩ := common
    cases inventory with
    | none => exact ⟨_, bind_eq_ok.mpr ⟨(), hshape, bind_eq_ok.mpr ⟨[], rfl, rfl⟩⟩⟩
    | some facts =>
      obtain ⟨bytes, hbytes⟩ := encode_inventory_ok (howner facts rfl)
      exact ⟨_, bind_eq_ok.mpr ⟨(), hshape, bind_eq_ok.mpr ⟨bytes, hbytes, rfl⟩⟩⟩

/-! ## What is read

Each reader, where it succeeds, took the bytes that its value is written as. -/

namespace Reader

variable {α β : Type}

variable {input rest : Bytes}

theorem bind_ok {read : Reader α} {next : α → Reader β} {y : β} :
    (read >>= next) input = .ok (y, rest) ↔
      ∃ x mid, read input = .ok (x, mid) ∧ next x mid = .ok (y, rest) := by
  show (read input >>= fun r => next r.1 r.2) = _ ↔ _
  rw [bind_eq_ok]
  constructor
  · rintro ⟨⟨x, mid⟩, h, h'⟩
    exact ⟨x, mid, h, h'⟩
  · rintro ⟨x, mid, h, h'⟩
    exact ⟨(x, mid), h, h'⟩

theorem pure_ok {x y : α} :
    (pure x : Reader α) input = .ok (y, rest) ↔ x = y ∧ input = rest := by
  show Except.ok (x, input) = Except.ok (y, rest) ↔ _
  simp

variable {bytes : Bytes}

theorem take_ok {n : Nat} (h : take n input = .ok (bytes, rest)) :
    bytes.length = n ∧ input = bytes ++ rest := by
  unfold take at h
  split at h
  · next hle =>
    cases h
    exact ⟨by rw [length_take]; omega, (take_append_drop n input).symm⟩
  · cases h

theorem byte_ok {b : UInt8} (h : byte input = .ok (b, rest)) :
    input = b :: rest := by
  obtain ⟨bytes, mid, htake, hpure⟩ := bind_ok.mp h
  obtain ⟨rfl, rfl⟩ := pure_ok.mp hpure
  obtain ⟨hlen, rfl⟩ := take_ok htake
  obtain ⟨b, rfl⟩ := length_eq_one_iff.mp hlen
  rfl

theorem to_le_bytes_from_le_bytes (bytes : Bytes) :
    to_le_bytes bytes.length (from_le_bytes bytes) = bytes := by
  induction bytes with
  | nil => rfl
  | cons b rest ih =>
    have hb : b.toNat < 256 := b.toNat_lt
    have hmod : (b.toNat + 256 * from_le_bytes rest) % 256 = b.toNat := by omega
    have hdiv : (b.toNat + 256 * from_le_bytes rest) / 256 = from_le_bytes rest := by omega
    rw [length_cons, to_le_bytes, from_le_bytes, hmod, hdiv, ih, UInt8.ofNat_toNat]

theorem from_le_bytes_lt (bytes : Bytes) : from_le_bytes bytes < 256 ^ bytes.length := by
  induction bytes with
  | nil => exact Nat.one_pos
  | cons b rest ih =>
    have hb : b.toNat < 256 := b.toNat_lt
    rw [from_le_bytes, length_cons, Nat.pow_succ]
    omega

theorem to_be_bytes_from_be_bytes {width : Nat} (h : bytes.length = width) :
    to_be_bytes width (from_be_bytes bytes) = bytes := by
  have hlen : bytes.reverse.length = width := by rw [length_reverse, h]
  unfold to_be_bytes from_be_bytes
  rw [← hlen, to_le_bytes_from_le_bytes, reverse_reverse]

theorem from_be_bytes_lt {width : Nat} (h : bytes.length = width) :
    from_be_bytes bytes < 256 ^ width := by
  have hlt := from_le_bytes_lt bytes.reverse
  rwa [length_reverse, h] at hlt

theorem u32_ok {n : UInt32} (h : u32 input = .ok (n, rest)) :
    input = u32_bytes n ++ rest := by
  obtain ⟨bytes, mid, htake, hpure⟩ := bind_ok.mp h
  obtain ⟨rfl, rfl⟩ := pure_ok.mp hpure
  obtain ⟨hlen, rfl⟩ := take_ok htake
  have hlt : from_be_bytes bytes < 2 ^ 32 := from_be_bytes_lt hlen
  rw [u32_bytes, UInt32.toNat_ofNat', Nat.mod_eq_of_lt hlt, to_be_bytes_from_be_bytes hlen]

theorem u64_ok {n : UInt64} (h : u64 input = .ok (n, rest)) :
    input = u64_bytes n ++ rest := by
  obtain ⟨bytes, mid, htake, hpure⟩ := bind_ok.mp h
  obtain ⟨rfl, rfl⟩ := pure_ok.mp hpure
  obtain ⟨hlen, rfl⟩ := take_ok htake
  have hlt : from_be_bytes bytes < 2 ^ 64 := from_be_bytes_lt hlen
  rw [u64_bytes, UInt64.toNat_ofNat', Nat.mod_eq_of_lt hlt, to_be_bytes_from_be_bytes hlen]

theorem i64_ok {n : Int64} (h : i64 input = .ok (n, rest)) :
    input = i64_bytes n ++ rest := by
  obtain ⟨bits, mid, hbits, h⟩ := bind_ok.mp h
  obtain ⟨rfl, rfl⟩ := pure_ok.mp h
  rw [i64_bytes, UInt64.toUInt64_toInt64]
  exact u64_ok hbits

theorem code_ok {b max : UInt8} (h : code max input = .ok (b, rest)) :
    input = b :: rest ∧ b ≤ max := by
  obtain ⟨value, mid, hbyte, h⟩ := bind_ok.mp h
  split at h
  · next hle =>
    obtain ⟨rfl, rfl⟩ := pure_ok.mp h
    exact ⟨byte_ok hbyte, hle⟩
  · cases h

end Reader

open Reader

theorem as_bytes_of_from_utf8 {bytes : Bytes} {text : String} (h : from_utf8 bytes = some text) :
    as_bytes text = bytes := by
  unfold from_utf8 String.fromUTF8? at h
  split at h
  · cases h
    rfl
  · cases h

theorem code_of_known {code : UInt8} {shape : Shape} (h : Shape.known code = some shape) :
    shape.code = code := by
  have hfound := find?_some h
  simpa using hfound

variable {b : UInt8}

theorem index_of_get {c : Collection} (h : Collection.ALL[b.toNat]? = some c) :
    UInt8.ofNat c.index = b := by
  obtain ⟨hlt, rfl⟩ := List.getElem?_eq_some_iff.mp h
  have hindex : ∀ i : Fin 15, (Collection.ALL.get i).index = i.val := by decide
  have hget : (Collection.ALL[b.toNat]).index = b.toNat := hindex ⟨b.toNat, hlt⟩
  rw [hget, UInt8.ofNat_toNat]

variable {input rest : Bytes}

theorem decode_entry_ok {e : Collection × Membership}
    (h : decode_entry input = .ok (e, rest)) : input = entry_bytes e.1 e.2 ++ rest := by
  obtain ⟨collection, after, hcollection, h⟩ := bind_ok.mp h
  obtain ⟨shape, behind, hshape, h⟩ := bind_ok.mp h
  cases hknown : Collection.ALL[collection.toNat]? with
  | none => rw [hknown] at h; cases h
  | some known =>
    cases hknown_shape : Shape.known shape with
    | none => rw [hknown, hknown_shape] at h; cases h
    | some known_shape =>
      rw [hknown, hknown_shape] at h
      obtain ⟨elements_per_page, r₁, h₁, h⟩ := bind_ok.mp h
      obtain ⟨elements, r₂, h₂, h⟩ := bind_ok.mp h
      obtain ⟨pages, r₃, h₃, h⟩ := bind_ok.mp h
      obtain ⟨commit, r₄, h₄, h⟩ := bind_ok.mp h
      obtain ⟨rfl, rfl⟩ := pure_ok.mp h
      obtain ⟨hlen, hinput⟩ := take_ok h₄
      have hlt : from_be_bytes commit < 2 ^ 256 := from_be_bytes_lt hlen
      have hcommit : to_be_bytes 32 (BitVec.ofNat 256 (from_be_bytes commit)).toNat = commit := by
        rw [BitVec.toNat_ofNat, Nat.mod_eq_of_lt hlt, to_be_bytes_from_be_bytes hlen]
      rw [byte_ok hcollection, byte_ok hshape, u32_ok h₁, u64_ok h₂, u64_ok h₃, hinput]
      simp only [entry_bytes, index_of_get hknown, code_of_known hknown_shape, hcommit,
        append_assoc, cons_append]

theorem decode_table_ok {n : Nat} {found t : MembershipTable}
    (h : decode_table n found input = .ok (t, rest)) :
    ∃ entries : List (Collection × Membership), entries.length = n ∧
      input = entries.flatMap (fun e => entry_bytes e.1 e.2) ++ rest ∧
      t = entries.foldl (fun t e => t.insert e.1 e.2) found := by
  induction n generalizing found input with
  | zero =>
    obtain ⟨rfl, rfl⟩ := pure_ok.mp h
    exact ⟨[], rfl, rfl, rfl⟩
  | succ n ih =>
    obtain ⟨e, mid, he, h⟩ := bind_ok.mp h
    obtain ⟨entries, hlen, rfl, rfl⟩ := ih h
    refine ⟨e :: entries, by rw [length_cons, hlen], ?_, rfl⟩
    rw [decode_entry_ok he, flatMap_cons, append_assoc]

theorem decode_representation_ok {r : Representation}
    (h : decode_representation input = .ok (r, rest)) : input = r.code :: rest := by
  obtain ⟨value, mid, hvalue, h⟩ := bind_ok.mp h
  rw [(code_ok hvalue).1]
  split at h
  · obtain ⟨rfl, rfl⟩ := pure_ok.mp h; rfl
  · obtain ⟨rfl, rfl⟩ := pure_ok.mp h; rfl
  · obtain ⟨rfl, rfl⟩ := pure_ok.mp h; rfl
  · cases h

theorem code_le_one (h : b ≤ 1) : b = 0 ∨ b = 1 := by
  have hle : b.toNat ≤ 1 := h
  rcases Nat.le_one_iff_eq_zero_or_eq_one.mp hle with h | h
  · exact .inl (UInt8.toNat_inj.mp h)
  · exact .inr (UInt8.toNat_inj.mp h)

/-- A value behind its flag is written back, where nothing stands behind a flag
that is not set. -/
theorem unflagged {γ : Type} {x absent : γ} (hle : b ≤ 1) (hzero : b = 0 → x = absent) :
    flag (if b = 1 then some x else none).isSome = b ∧
      (if b = 1 then some x else none).getD absent = x := by
  rcases code_le_one hle with rfl | rfl
  · exact ⟨rfl, (hzero rfl).symm⟩
  · exact ⟨rfl, rfl⟩

theorem flag_of_code (h : b ≤ 1) : flag (decide (b = 1)) = b := by
  rcases code_le_one h with rfl | rfl <;> rfl

theorem code_le_two (h : b ≤ 2) : b = 0 ∨ b = 1 ∨ b = 2 := by
  have hle : b.toNat ≤ 2 := h
  have hcases : b.toNat = 0 ∨ b.toNat = 1 ∨ b.toNat = 2 := by omega
  rcases hcases with h | h | h
  · exact .inl (UInt8.toNat_inj.mp h)
  · exact .inr (.inl (UInt8.toNat_inj.mp h))
  · exact .inr (.inr (UInt8.toNat_inj.mp h))

theorem decode_debt_ok {debt : DebtSummary} (h : decode_debt input = .ok (debt, rest)) :
    ∃ (earliest : UInt8) (at_ms : UInt64) (tail : Bytes),
      input = earliest :: (u64_bytes at_ms ++ (tail ++ rest)) ∧ tail.length = 6 ∧
      ((earliest = 0 → at_ms = 0) → debt_bytes debt = earliest :: (u64_bytes at_ms ++ tail)) := by
  obtain ⟨earliest, r₁, h₁, h⟩ := bind_ok.mp h
  obtain ⟨at_ms, r₂, h₂, h⟩ := bind_ok.mp h
  obtain ⟨lower_bound, r₃, h₃, h⟩ := bind_ok.mp h
  obtain ⟨reason_bits, r₄, h₄, h⟩ := bind_ok.mp h
  obtain ⟨disposition, r₅, h₅, h⟩ := bind_ok.mp h
  obtain ⟨rfl, rfl⟩ := pure_ok.mp h
  refine ⟨earliest, at_ms, lower_bound :: (u32_bytes reason_bits ++ [disposition]), ?_, ?_, ?_⟩
  · rw [(code_ok h₁).1, u64_ok h₂, (code_ok h₃).1, u32_ok h₄, (code_ok h₅).1]
    simp
  · simp [u32_bytes, to_be_bytes_length]
  · intro hzero
    obtain ⟨hflag, hvalue⟩ := unflagged (code_ok h₁).2 hzero
    unfold debt_bytes
    dsimp only
    rw [hflag, hvalue, flag_of_code (code_ok h₃).2]
    rcases code_le_two (code_ok h₅).2 with rfl | rfl | rfl <;> simp [NoUploadRequired.code]

theorem decode_inventory_ok {facts : InventoryFacts}
    (h : decode_inventory input = .ok (facts, rest)) :
    ∃ (created : UInt8) (at_ms : Int64) (tail : Bytes),
      input = created :: (i64_bytes at_ms ++ (tail ++ rest)) ∧
      ((created = 0 → at_ms = 0) →
        encode_inventory facts = .ok (created :: (i64_bytes at_ms ++ tail))) := by
  obtain ⟨created, r₁, h₁, h⟩ := bind_ok.mp h
  obtain ⟨at_ms, r₂, h₂, h⟩ := bind_ok.mp h
  obtain ⟨device, r₃, h₃, h⟩ := bind_ok.mp h
  obtain ⟨inode, r₄, h₄, h⟩ := bind_ok.mp h
  obtain ⟨length, r₅, h₅, h⟩ := bind_ok.mp h
  obtain ⟨seconds, r₆, h₆, h⟩ := bind_ok.mp h
  obtain ⟨nanos, r₇, h₇, h⟩ := bind_ok.mp h
  obtain ⟨read_bytes, r₈, h₈, h⟩ := bind_ok.mp h
  obtain ⟨len, r₉, h₉, h⟩ := bind_ok.mp h
  obtain ⟨bytes, r₁₀, h₁₀, h⟩ := bind_ok.mp h
  cases hutf8 : from_utf8 bytes with
  | none => rw [hutf8] at h; cases h
  | some owner =>
    rw [hutf8] at h
    obtain ⟨rfl, rfl⟩ := pure_ok.mp h
    have howner := as_bytes_of_from_utf8 hutf8
    obtain ⟨hlen, hinput⟩ := take_ok h₁₀
    have hlt : bytes.length < 2 ^ 32 := hlen ▸ len.toNat_lt
    refine ⟨created, at_ms, u64_bytes device ++ (u64_bytes inode ++ (u64_bytes length ++
      (i64_bytes seconds ++ (i64_bytes nanos ++ (u64_bytes read_bytes ++
      (u32_bytes len ++ bytes)))))), ?_, ?_⟩
    · rw [(code_ok h₁).1, i64_ok h₂, u64_ok h₃, u64_ok h₄, u64_ok h₅, i64_ok h₆, i64_ok h₇,
        u64_ok h₈, u32_ok h₉, hinput]
      simp
    · intro hzero
      obtain ⟨hflag, hvalue⟩ := unflagged (code_ok h₁).2 hzero
      refine bind_eq_ok.mpr ⟨(), ensure_eq_ok.mpr (decide_eq_true (howner ▸ hlt)), ?_⟩
      dsimp only
      rw [hflag, hvalue, howner, hlen]
      simp [u32_bytes]

/-! ## Canonical bytes -/

/-- An entry of the table is this long. -/
def ENTRY_BYTES : Nat := 54

/-- Where entry `i` of the table starts. -/
def entry_at (i : Nat) : Nat := 5 + ENTRY_BYTES * i

/-- Where the common body starts: behind the revision, the count and the table. -/
def common_at (bytes : Bytes) : Nat := entry_at (bytes.getD 4 0).toNat

/-- The eight bytes from a position on are zero. -/
def zero_at (bytes : Bytes) (position : Nat) : Prop := ∀ i < 8, bytes.getD (position + i) 0 = 0

/-- The bytes that a head may be written as: the collections of its table ascend,
and what stands behind an unset flag is zero. -/
structure Canonical (bytes : Bytes) : Prop where
  ascending (i : Nat) : i + 1 < (bytes.getD 4 0).toNat →
    bytes.getD (entry_at i) 0 < bytes.getD (entry_at (i + 1)) 0
  earliest : bytes.getD (common_at bytes + 10) 0 = 0 → zero_at bytes (common_at bytes + 11)
  created : bytes.getD (common_at bytes + 25) 0 &&& HAS_INVENTORY ≠ 0 →
    bytes.getD (common_at bytes + 26) 0 = 0 → zero_at bytes (common_at bytes + 27)

theorem getD_append (front back : Bytes) (i n : Nat) (h : front.length = n) :
    (front ++ back).getD (n + i) 0 = back.getD i 0 := by
  subst h
  rw [getD_eq_getElem?_getD, getElem?_append_right (Nat.le_add_right _ _),
    Nat.add_sub_cancel_left, getD_eq_getElem?_getD]

theorem getD_append_left {front back : Bytes} {i : Nat} (h : i < front.length) :
    (front ++ back).getD i 0 = front.getD i 0 := by
  simp [getD_eq_getElem?_getD, getElem?_append_left h]

theorem u64_bytes_zero {n : UInt64} (h : ∀ i < 8, (u64_bytes n).getD i 0 = 0) : n = 0 := by
  have hlen : (u64_bytes n).length = 8 := to_be_bytes_length 8 _
  have hzero : u64_bytes n = u64_bytes 0 := by
    apply ext_getElem
    · rw [hlen]; rfl
    · intro i hi _
      have hat := h i (by omega)
      have hreplicate : u64_bytes 0 = List.replicate 8 0 := by decide
      simp only [hreplicate, getElem_replicate]
      rwa [getD_eq_getElem?_getD, getElem?_eq_getElem hi, getD_some] at hat
  have hread := Takes.u64 n []
  rw [hzero, Takes.u64 0 []] at hread
  exact (Prod.mk.inj (Except.ok.inj hread)).1.symm

theorem entry_bytes_length (c : Collection) (e : Membership) :
    (entry_bytes c e).length = ENTRY_BYTES := by
  simp [entry_bytes, u32_bytes, u64_bytes, to_be_bytes_length, ENTRY_BYTES]

theorem table_bytes_length (entries : List (Collection × Membership)) :
    (entries.flatMap (fun e => entry_bytes e.1 e.2)).length = ENTRY_BYTES * entries.length := by
  induction entries with
  | nil => rfl
  | cons e entries ih =>
    rw [flatMap_cons, length_append, entry_bytes_length, ih, length_cons,
      Nat.mul_succ, Nat.add_comm]

/-- Each entry of the table starts with its collection. -/
theorem entry_first (entries : List (Collection × Membership)) (rest : Bytes) (i : Nat)
    (h : i < entries.length) :
    (entries.flatMap (fun e => entry_bytes e.1 e.2) ++ rest).getD (ENTRY_BYTES * i) 0 =
      UInt8.ofNat entries[i].1.index := by
  induction entries generalizing i with
  | nil => exact absurd h (Nat.not_lt_zero i)
  | cons e entries ih =>
    rw [flatMap_cons, append_assoc]
    cases i with
    | zero => rfl
    | succ i =>
      rw [Nat.mul_succ, Nat.add_comm, getD_append _ _ _ _ (entry_bytes_length _ _)]
      exact ih i (Nat.lt_of_succ_lt_succ h)

theorem index_lt_of_byte_lt {c c' : Collection}
    (h : UInt8.ofNat c.index < UInt8.ofNat c'.index) : c < c' := by
  have hindex : ∀ c : Collection, (UInt8.ofNat c.index).toNat = c.index := by
    intro c
    cases c <;> rfl
  have hlt : (UInt8.ofNat c.index).toNat < (UInt8.ofNat c'.index).toNat := h
  rwa [hindex, hindex] at hlt

/-- A table whose entries ascend is written as it was read. -/
theorem table_of_ascending {entries : List (Collection × Membership)}
    (h : ∀ i (hi : i + 1 < entries.length),
      (entries.get ⟨i, Nat.lt_of_succ_lt hi⟩).1 < (entries.get ⟨i + 1, hi⟩).1) :
    (entries.foldl (fun t e => t.insert e.1 e.2) (SortedMap.empty : MembershipTable)).entries =
      entries := by
  have hsorted : entries.Pairwise (fun a b => a.1 < b.1) := by
    have hchain : entries.IsChain (fun a b => a.1 < b.1) :=
      isChain_iff_getElem.mpr h
    exact hchain.pairwise
  exact congrArg SortedMap.entries (table_entries ⟨entries, hsorted⟩)

theorem parts_of_code (h : b ≤ HAS_REDUCTION ||| HAS_INVENTORY) :
    flag (decide (b &&& HAS_REDUCTION ≠ 0)) * HAS_REDUCTION +
      flag (decide (b &&& HAS_INVENTORY ≠ 0)) * HAS_INVENTORY = b := by
  have hle : b.toNat ≤ 3 := h
  have hcases : b.toNat = 0 ∨ b.toNat = 1 ∨ b.toNat = 2 ∨ b.toNat = 3 := by omega
  rcases hcases with h | h | h | h
  · rw [show b = 0 from UInt8.toNat_inj.mp h]; rfl
  · rw [show b = 1 from UInt8.toNat_inj.mp h]; rfl
  · rw [show b = 2 from UInt8.toNat_inj.mp h]; rfl
  · rw [show b = 3 from UInt8.toNat_inj.mp h]; rfl

/-- What follows the parts byte of an accepted head. -/
theorem decode_parts_ok {parts : UInt8} {inventory : Option InventoryFacts}
    (h : (if parts &&& HAS_INVENTORY ≠ 0 then some <$> decode_inventory else pure none : Reader _)
      input = .ok (inventory, rest))
    (hzero : parts &&& HAS_INVENTORY ≠ 0 → input.getD 0 0 = 0 → ∀ i < 8, input.getD (1 + i) 0 = 0) :
    inventory.isSome = decide (parts &&& HAS_INVENTORY ≠ 0) ∧
      ∃ bytes, input = bytes ++ rest ∧
        ((inventory = none ∧ bytes = []) ∨
          ∃ facts, inventory = some facts ∧ encode_inventory facts = .ok bytes) := by
  by_cases hparts : parts &&& HAS_INVENTORY ≠ 0
  · rw [if_pos hparts, map_eq_pure_bind] at h
    obtain ⟨facts, mid, hfacts, h⟩ := bind_ok.mp h
    obtain ⟨rfl, rfl⟩ := pure_ok.mp h
    obtain ⟨created, at_ms, tail, rfl, hencode⟩ := decode_inventory_ok hfacts
    refine ⟨by simp [hparts], created :: (i64_bytes at_ms ++ tail), by simp, .inr ⟨facts, rfl, ?_⟩⟩
    apply hencode
    intro hcreated
    have hat : at_ms.toUInt64 = 0 := by
      apply u64_bytes_zero
      intro i hi
      have hbyte := hzero hparts hcreated i hi
      have hlen : i < (u64_bytes at_ms.toUInt64).length := by
        rwa [u64_bytes, to_be_bytes_length]
      have htail := getD_append [created] (i64_bytes at_ms ++ (tail ++ mid)) i 1 rfl
      rw [singleton_append] at htail
      rwa [htail, i64_bytes, getD_append_left hlen] at hbyte
    show at_ms.toUInt64.toInt64 = 0
    rw [hat]
    rfl
  · rw [if_neg hparts] at h
    obtain ⟨rfl, rfl⟩ := pure_ok.mp h
    exact ⟨by simp [hparts], [], rfl, .inl ⟨rfl, rfl⟩⟩

/-- A head up to its common body: the revision, and a table of these entries. -/
structure Laid (bytes : Bytes) (revision : UInt32) (count : UInt8)
    (entries : List (Collection × Membership)) (body : Bytes) : Prop where
  bytes : bytes = u32_bytes revision ++
    count :: (entries.flatMap (fun e => entry_bytes e.1 e.2) ++ body)
  length : entries.length = count.toNat

namespace Laid

variable {bytes body : Bytes} {revision : UInt32} {count : UInt8}
  {entries : List (Collection × Membership)}

theorem count_at (h : Laid bytes revision count entries body) : bytes.getD 4 0 = count := by
  rw [h.bytes]
  exact getD_append _ _ 0 4 (to_be_bytes_length 4 _)

theorem behind (h : Laid bytes revision count entries body) (k : Nat) :
    bytes.getD (5 + k) 0 = (entries.flatMap (fun e => entry_bytes e.1 e.2) ++ body).getD k 0 := by
  rw [h.bytes, ← singleton_append, ← append_assoc]
  exact getD_append _ _ k 5 (by simp [u32_bytes, to_be_bytes_length])

theorem body_at (h : Laid bytes revision count entries body) (k : Nat) :
    bytes.getD (common_at bytes + k) 0 = body.getD k 0 := by
  rw [common_at, h.count_at, entry_at, Nat.add_assoc, h.behind]
  exact getD_append _ _ k _ (by rw [table_bytes_length, h.length])

/-- The entries of a canonical head ascend, so the table is written as it was read. -/
theorem table (h : Laid bytes revision count entries body) (hcanonical : Canonical bytes) :
    (entries.foldl (fun t e => t.insert e.1 e.2) (SortedMap.empty : MembershipTable)).entries =
      entries := by
  apply table_of_ascending
  intro i hi
  apply index_lt_of_byte_lt
  have hlt := hcanonical.ascending i (by rw [h.count_at, ← h.length]; exact hi)
  rw [entry_at, entry_at, h.behind, h.behind, entry_first _ _ _ (Nat.lt_of_succ_lt hi),
    entry_first _ _ _ hi] at hlt
  exact hlt

end Laid

/-- Behind the unset flag of a canonical debt stands zero. -/
theorem earliest_zero {bytes tail rest : Bytes} {earliest : UInt8} {at_ms : UInt64}
    (hcanonical : Canonical bytes) (hten : ∀ k, bytes.getD (common_at bytes + (10 + k)) 0 =
      ((earliest :: (u64_bytes at_ms ++ tail)) ++ rest).getD k 0) (hzero : earliest = 0) :
    at_ms = 0 := by
  apply u64_bytes_zero
  intro i hi
  have hat := hcanonical.earliest ((hten 0).trans hzero) i hi
  have hlen : i < (u64_bytes at_ms).length := by rwa [u64_bytes, to_be_bytes_length]
  rw [show common_at bytes + 11 + i = common_at bytes + (10 + (1 + i)) by omega, hten,
    cons_append, ← singleton_append, getD_append _ _ i 1 rfl, append_assoc,
    getD_append_left hlen] at hat
  exact hat

/-- Behind the unset flag of a canonical inventory stands zero. -/
theorem created_zero {bytes rest : Bytes} {parts : UInt8} (hcanonical : Canonical bytes)
    (hparts : ∀ k, bytes.getD (common_at bytes + (25 + k)) 0 = (parts :: rest).getD k 0)
    (hset : parts &&& HAS_INVENTORY ≠ 0) (hzero : rest.getD 0 0 = 0) :
    ∀ i < 8, rest.getD (1 + i) 0 = 0 := by
  intro i hi
  have hpart := hparts 0
  have hcreated := hparts 1
  have hat := hcanonical.created (hpart.symm ▸ hset) (hcreated.trans hzero) i hi
  rw [show common_at bytes + 27 + i = common_at bytes + (25 + (1 + (1 + i))) by omega,
    hparts, ← singleton_append, getD_append _ _ (1 + i) 1 rfl] at hat
  exact hat

/-- The bytes of a canonical head are what its decoded parts are written as. -/
theorem encode_decode_head {bytes : Bytes} {d : Decoded} (h : decode_head bytes = .ok d)
    (hcanonical : Canonical bytes) :
    encode_head d.revision d.table d.common d.reduction = .ok bytes := by
  obtain ⟨⟨⟨_, t, common, has_reduction⟩, rest⟩, hcommon, h⟩ := bind_eq_ok.mp h
  obtain ⟨_, hshape, h⟩ := bind_eq_ok.mp h
  obtain ⟨_, hrest, h⟩ := bind_eq_ok.mp h
  cases h
  -- what each part of the common reader took
  obtain ⟨revision, r₁, hrevision, hcommon⟩ := bind_ok.mp hcommon
  obtain ⟨count, r₂, hcount, hcommon⟩ := bind_ok.mp hcommon
  obtain ⟨_, r₃, htable, hcommon⟩ := bind_ok.mp hcommon
  obtain ⟨envelope, r₄, henvelope, hcommon⟩ := bind_ok.mp hcommon
  split at hcommon
  · next henvelope_eq =>
    obtain ⟨representation, r₅, hrepresentation, hcommon⟩ := bind_ok.mp hcommon
    obtain ⟨next_revision_id, r₆, hnext, hcommon⟩ := bind_ok.mp hcommon
    obtain ⟨debt, r₇, hdebt, hcommon⟩ := bind_ok.mp hcommon
    obtain ⟨parts, r₈, hparts, hcommon⟩ := bind_ok.mp hcommon
    obtain ⟨inventory, r₉, hinventory, hcommon⟩ := bind_ok.mp hcommon
    obtain ⟨htuple, rfl⟩ := pure_ok.mp hcommon
    simp only [Prod.mk.injEq] at htuple
    obtain ⟨rfl, rfl, rfl, rfl⟩ := htuple
    obtain ⟨entries, hlen, hr₂, rfl⟩ := decode_table_ok htable
    obtain ⟨earliest, at_ms, tail, hr₆, htail, hdebt_bytes⟩ := decode_debt_ok hdebt
    have hlaid : Laid bytes revision count entries r₃ :=
      ⟨by rw [u32_ok hrevision, byte_ok hcount, hr₂], hlen⟩
    have hr₃ : r₃ = (envelope :: representation.code :: u64_bytes next_revision_id) ++
        ((earliest :: (u64_bytes at_ms ++ tail)) ++ parts :: r₈) := by
      rw [(code_ok henvelope).1, decode_representation_ok hrepresentation, u64_ok hnext, hr₆,
        (code_ok hparts).1]
      simp
    have hten : ∀ k, bytes.getD (common_at bytes + (10 + k)) 0 =
        ((earliest :: (u64_bytes at_ms ++ tail)) ++ parts :: r₈).getD k 0 := by
      intro k
      rw [hlaid.body_at, hr₃]
      exact getD_append _ _ k 10 (by simp [u64_bytes, to_be_bytes_length])
    have hparts_at : ∀ k, bytes.getD (common_at bytes + (25 + k)) 0 = (parts :: r₈).getD k 0 := by
      intro k
      rw [show 25 + k = 10 + (15 + k) by omega, hten]
      exact getD_append _ _ k 15 (by simp [u64_bytes, to_be_bytes_length, htail])
    obtain ⟨hsome, inventory_bytes, hr₈, hfacts⟩ := decode_parts_ok hinventory
      (created_zero hcanonical hparts_at)
    have htable_entries := hlaid.table hcanonical
    have hsize : UInt8.ofNat (entries.foldl (fun t e => t.insert e.1 e.2)
        (SortedMap.empty : MembershipTable)).size = count := by
      rw [SortedMap.size, htable_entries, hlen, UInt8.ofNat_toNat]
    have hreduction : (if decide (parts &&& HAS_REDUCTION ≠ 0) = true then some r₉
        else none).isSome = decide (parts &&& HAS_REDUCTION ≠ 0) := by
      split
      · next hset => exact hset.symm
      · next hunset => exact (Bool.eq_false_iff.mpr hunset).symm
    have hbody_bytes : (if decide (parts &&& HAS_REDUCTION ≠ 0) = true then some r₉
        else none).getD [] = r₉ := by
      have hends := ensure_eq_ok.mp hrest
      by_cases hset : decide (parts &&& HAS_REDUCTION ≠ 0) = true
      · rw [if_pos hset]; rfl
      · rw [if_neg hset] at hends ⊢
        exact (isEmpty_iff.mp hends).symm
    have hparts_eq := parts_of_code (code_ok hparts).2
    rw [← hsome] at hparts_eq
    refine bind_eq_ok.mpr ⟨(), ?_, bind_eq_ok.mpr ⟨inventory_bytes, ?_, ?_⟩⟩
    · dsimp only
      rw [hreduction]
      exact hshape
    · dsimp only
      rcases hfacts with ⟨rfl, rfl⟩ | ⟨facts, rfl, hencode⟩
      · rfl
      · exact hencode
    · dsimp only
      rw [hreduction, hbody_bytes, hsize, htable_entries, hparts_eq, hlaid.bytes,
        hdebt_bytes (earliest_zero hcanonical hten), hr₃, hr₈, ← henvelope_eq]
      simp
  · cases hcommon

/-- The head codec is exact: a head is written wherever its shape allows one, it is
read back as it was, and canonical bytes are those of what they decode to. -/
theorem head_codec_is_exact :
    (∀ (revision : UInt32) (t : MembershipTable) (common : Common) (reduction : Option Bytes),
      (∀ facts ∈ common.inventory, (as_bytes facts.owner).length < 2 ^ 32) →
      ((∃ bytes, encode_head revision t common reduction = .ok bytes) ↔
        (reduction = none ∨ common.representation = .Tail))) ∧
    (∀ (revision : UInt32) (t : MembershipTable) (common : Common) (reduction : Option Bytes)
      (bytes : Bytes), encode_head revision t common reduction = .ok bytes →
      decode_head bytes = .ok ⟨revision, t, common, reduction⟩) ∧
    ∀ (bytes : Bytes) (d : Decoded), decode_head bytes = .ok d → Canonical bytes →
      encode_head d.revision d.table d.common d.reduction = .ok bytes :=
  ⟨fun _ _ _ _ howner => encode_head_ok_iff howner, fun _ _ _ _ _ h => decode_encode_head h,
    fun _ _ h hcanonical => encode_decode_head h hcanonical⟩

end ottto_service.state_v2.tail
