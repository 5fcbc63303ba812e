-- What the durable tail writes it reads back (durable_tail_codec.rs): a body
-- that was written decodes to its value, less the fields that are never
-- stored.
import Ottto.TailTypes

namespace ottto_service.durable_tail_codec

open Option Enc BitVec HDigest UInt64 SortedMap

/-! ## Writing -/

/-- Whenever `put` is accepted it appends `bytes`, and then `P` holds. -/
def Puts (put : Enc → Except Refuse Enc) (bytes : List UInt8) (P : Prop) : Prop :=
  ∀ e e' : Enc, e.Fits → put e = .ok e' → (e' = e.append bytes ∧ e'.Fits) ∧ P

namespace Puts

variable {put put' : Enc → Except Refuse Enc} {bytes bytes' : List UInt8} {P Q : Prop}

theorem imp (h : Puts put bytes P) (hPQ : P → Q) : Puts put bytes Q := by
  intro e e' hfits hput
  obtain ⟨hwrote, hP⟩ := h e e' hfits hput
  exact ⟨hwrote, hPQ hP⟩

theorem bind (h : Puts put bytes P) (h' : Puts put' bytes' Q) :
    Puts (fun e => (put e).bind put') (bytes ++ bytes') (P ∧ Q) := by
  intro e e' hfits hput
  cases hfirst : put e with
  | error r =>
    simp only [hfirst] at hput
    cases hput
  | ok e₁ =>
    simp only [hfirst] at hput
    obtain ⟨⟨rfl, hfits₁⟩, hP⟩ := h e e₁ hfits hfirst
    obtain ⟨⟨rfl, hfits'⟩, hQ⟩ := h' _ e' hfits₁ hput
    exact ⟨⟨append_append e bytes bytes', hfits'⟩, hP, hQ⟩

theorem nothing : Puts Except.ok [] True := by
  intro e e' hfits hput
  cases hput
  exact ⟨⟨(append_nil e).symm, hfits⟩, trivial⟩

theorem raw (bytes : List UInt8) : Puts (fun e => e.raw bytes) bytes True :=
  fun _ _ _ hput => ⟨raw_ok hput, trivial⟩

theorem varint (value : UInt64) :
    Puts (fun e => e.varint value) (varint_loop 10 value) True := raw _

theorem refused {r : Refuse} : Puts (fun _ => .error r) bytes P := by
  intro e e' _ hput
  cases hput

end Puts

/-- Wherever `v` is accepted it takes the same bytes, and they read as `w`. -/
def RoundTrip {α : Type} (T : Durable α) (v w : α) : Prop :=
  ∃ bytes, Puts (T.put v) bytes (∀ a : List UInt8, Reads (T.take : Dec a → _) bytes w)

namespace Durable

variable {α β γ κ ν : Type}

/-! ## Numbers and labels -/

theorem through_varint_trips {widen : α → UInt64} {try_from : UInt64 → Option α} {v : α}
    (h : try_from (widen v) = some v) : RoundTrip (through_varint widen try_from) v v := by
  refine ⟨varint_loop 10 (widen v), (Puts.varint (widen v)).imp ?_⟩
  intro _ a d hpre
  obtain ⟨d', hvarint, hpos⟩ := Reads.varint (widen v) d hpre
  refine ⟨d', ?_, hpos⟩
  simp only [through_varint, scalar, hvarint, bind_eq_bind, bind_some, h]

theorem u64_trips (v : UInt64) : RoundTrip u64 v v := through_varint_trips rfl

theorem usize_trips (v : UInt64) : RoundTrip usize v v := through_varint_trips rfl

theorem u8_trips (v : UInt8) : RoundTrip u8 v v := by
  apply through_varint_trips
  rw [if_pos (by rw [UInt8.toNat_toUInt64]; exact v.toNat_lt), UInt8.toUInt8_toUInt64]

theorem u16_trips (v : UInt16) : RoundTrip u16 v v := by
  apply through_varint_trips
  rw [if_pos (by rw [UInt16.toNat_toUInt64]; exact v.toNat_lt), UInt16.toUInt16_toUInt64]

theorem u32_trips (v : UInt32) : RoundTrip u32 v v := by
  apply through_varint_trips
  rw [if_pos (by rw [UInt32.toNat_toUInt64]; exact v.toNat_lt), UInt32.toUInt32_toUInt64]

theorem non_zero_u64_trips (v : { n : UInt64 // n ≠ 0 }) : RoundTrip non_zero_u64 v v := by
  apply through_varint_trips
  rw [dif_pos v.2]

/-- Shifting the sign through the word leaves it in every bit. -/
theorem sign_mask (x : BitVec 64) :
    x.sshiftRight 63 = if x.msb then BitVec.allOnes 64 else 0#64 := by
  ext i hi
  rw [getElem_sshiftRight]
  by_cases h0 : i = 0
  · subst h0
    cases hm : x.msb <;> simp [msb_eq_getLsbD_last] at hm ⊢ <;> exact hm
  · have hover : ¬ (63 + i < 64) := by omega
    cases hm : x.msb <;> simp [hover, -BitVec.reduceAllOnes]

-- The sign goes to the lowest bit; the other bits move up by one, inverted
-- where the sign is set.
theorem zig_zag (x : BitVec 64) :
    (((x <<< 1) ^^^ x.sshiftRight 63) >>> 1) ^^^
      -(((x <<< 1) ^^^ x.sshiftRight 63) &&& 1#64) = x := by
  rw [sign_mask]
  cases hm : x.msb with
  | false =>
    have hlow : (x <<< 1) &&& 1#64 = 0#64 := by
      ext i hi
      by_cases h0 : i = 0 <;> simp [h0]
    simp only [Bool.false_eq_true, if_false, xor_zero, hlow, neg_zero]
    ext i hi
    by_cases h63 : i = 63
    · subst h63
      simp [msb_eq_getLsbD_last] at hm ⊢
      exact hm
    · have hbelow : 1 + i < 64 := by omega
      simp [hbelow]
  | true =>
    have hlow : ((x <<< 1) ^^^ BitVec.allOnes 64) &&& 1#64 = 1#64 := by
      ext i hi
      by_cases h0 : i = 0 <;> simp [h0]
    simp only [if_true, hlow, neg_one_eq_allOnes]
    ext i hi
    by_cases h63 : i = 63
    · subst h63
      simp [msb_eq_getLsbD_last] at hm ⊢
      exact hm
    · have hbelow : 1 + i < 64 := by omega
      simp [hbelow, -BitVec.reduceAllOnes]

theorem word_signed_signed_word (v : Int64) : word_signed (signed_word v) = v := by
  unfold word_signed signed_word
  apply Int64.toBitVec_inj.mp
  rw [Int64.toBitVec_xor, toBitVec_toInt64, Int64.toBitVec_neg, toBitVec_toInt64]
  simp only [UInt64.toBitVec_shiftRight, UInt64.toBitVec_and, Int64.toBitVec_toUInt64,
    Int64.toBitVec_xor, Int64.toBitVec_shiftLeft, Int64.toBitVec_shiftRight]
  exact zig_zag v.toBitVec

theorem i64_trips (v : Int64) : RoundTrip i64 v v := by
  apply through_varint_trips
  rw [word_signed_signed_word]

theorem i32_trips (v : Int32) : RoundTrip i32 v v := by
  apply through_varint_trips
  unfold i32_try_from
  rw [word_signed_signed_word, Int32.toInt_toInt64, if_pos ⟨v.le_toInt, v.toInt_lt⟩,
    Int32.toInt32_toInt64]

theorem to_le_bytes_length (n v : Nat) : (to_le_bytes n v).length = n := by
  induction n generalizing v with
  | zero => rfl
  | succ n ih => rw [to_le_bytes, List.length_cons, ih]

theorem from_le_bytes_to_le_bytes (n v : Nat) (h : v < 256 ^ n) :
    from_le_bytes (to_le_bytes n v) = v := by
  induction n generalizing v with
  | zero =>
    have hzero : v = 0 := by simpa using h
    rw [hzero]
    rfl
  | succ n ih =>
    have hdiv : v / 256 < 256 ^ n := by
      apply Nat.div_lt_of_lt_mul
      rw [Nat.pow_succ, Nat.mul_comm] at h
      exact h
    rw [to_le_bytes, from_le_bytes, ih _ hdiv, UInt8.toNat_ofNat']
    omega

theorem u128_trips (v : BitVec 128) : RoundTrip u128 v v := by
  refine ⟨to_le_bytes 16 v.toNat, (Puts.raw _).imp ?_⟩
  intro _ a d hpre
  obtain ⟨d', hraw, hpos⟩ := Dec.raw_reads hpre
  refine ⟨d', ?_, hpos⟩
  rw [to_le_bytes_length] at hraw
  have hvalue : from_le_bytes (to_le_bytes 16 v.toNat) = v.toNat :=
    from_le_bytes_to_le_bytes 16 v.toNat v.isLt
  simp only [u128, scalar, hraw, bind_eq_bind, bind_some, hvalue,
    ofNat_toNat, setWidth_eq]

theorem i128_trips (v : BitVec 128) : RoundTrip i128 v v := u128_trips v

theorem bool_trips (v : Bool) : RoundTrip bool v v := by
  refine ⟨[if v then 1 else 0], (Puts.raw _).imp ?_⟩
  intro _ a d hpre
  obtain ⟨d', hbyte, hpos⟩ := Dec.byte_reads hpre
  refine ⟨d', ?_, hpos⟩
  simp only [bool, scalar, hbyte, bind_eq_bind, bind_some]
  cases v <;> rfl

theorem unit_trips (v : Unit) : RoundTrip unit v v :=
  ⟨[], Puts.nothing.imp (fun _ _ => Reads.pure v)⟩

theorem static_str_trips (v : String) : RoundTrip static_str v v := by
  cases hindex : STATIC_LABELS.findIdx? (fun label => label == v) with
  | none =>
    refine ⟨[], ?_⟩
    intro e e' _ hput
    simp only [static_str, scalar, hindex] at hput
    cases hput
  | some index =>
    obtain ⟨hlt, hlabel, -⟩ := List.findIdx?_eq_some_iff_getElem.mp hindex
    have hword : (UInt64.ofNat index).toNat = index := by
      have hshort : index < 8 := hlt
      rw [toNat_ofNat']
      omega
    refine ⟨varint_loop 10 (UInt64.ofNat index), ?_⟩
    intro e e' hfits hput
    simp only [static_str, scalar, hindex] at hput
    refine ⟨varint_ok hput, ?_⟩
    intro a d hpre
    obtain ⟨d', hvarint, hpos⟩ := Reads.varint _ d hpre
    refine ⟨d', ?_, hpos⟩
    have hfound : STATIC_LABELS[index]? = some v := by
      rw [List.getElem?_eq_getElem hlt, eq_of_beq hlabel]
    simp only [static_str, scalar, hvarint, bind_eq_bind, bind_some, hword, hfound]

/-! ## Text -/

theorem string_trips (v : String) : RoundTrip string v v := by
  refine ⟨varint_loop 10 (UInt64.ofNat (as_bytes v).length) ++ as_bytes v, ?_⟩
  intro e e' hfits hput
  obtain ⟨⟨hwrote, hfits'⟩, -⟩ := ((Puts.varint _).bind (Puts.raw (as_bytes v))) e e' hfits hput
  refine ⟨⟨hwrote, hfits'⟩, ?_⟩
  have hword : (as_bytes v).length < 2 ^ 64 := by
    have hlen := hfits'.word
    rw [hwrote, append_len, List.length_append] at hlen
    omega
  intro a d hpre
  obtain ⟨d', hread, hpos⟩ := Reads.len_prefixed hword d hpre
  refine ⟨d', ?_, hpos⟩
  simp only [string, hread, bind_eq_bind, bind_some, from_utf8_as_bytes]

theorem path_buf_trips (v w : PathBuf) : RoundTrip path_buf v w := ⟨[], Puts.refused⟩

/-! ## Sequences and products -/

variable {T : Durable α} {f : α → α}

theorem option_trips (h : ∀ x, RoundTrip T x (f x)) (v : Option α) :
    RoundTrip T.option v (v.map f) := by
  cases v with
  | none =>
    refine ⟨[0], (Puts.raw _).imp ?_⟩
    intro _ a d hpre
    obtain ⟨d', hbyte, hpos⟩ := Dec.byte_reads hpre
    refine ⟨d', ?_, hpos⟩
    simp [option, hbyte]
  | some x =>
    obtain ⟨bytes, hbytes⟩ := h x
    refine ⟨[1] ++ bytes, ((Puts.raw [1]).bind hbytes).imp ?_⟩
    rintro ⟨-, hreads⟩ a d hpre
    obtain ⟨d₁, hbyte, hpos⟩ := Dec.byte_reads hpre
    obtain ⟨d₂, htake, hpos'⟩ := hreads a d₁ (Dec.rest_after hpre hpos)
    refine ⟨d₂, ?_, ?_⟩
    · simp [option, hbyte, htake]
    · rw [hpos', hpos, List.length_append, List.length_singleton]
      omega

theorem boxed_trips {v w : α} (h : RoundTrip T v w) : RoundTrip T.boxed v w := h

variable {A : Durable α} {B : Durable β}

theorem pair_trips {v w : α × β} (hA : RoundTrip A v.1 w.1)
    (hB : RoundTrip B v.2 w.2) : RoundTrip (A.pair B) v w := by
  obtain ⟨front, hfront⟩ := hA
  obtain ⟨back, hback⟩ := hB
  refine ⟨front ++ back, (hfront.bind hback).imp ?_⟩
  rintro ⟨hA, hB⟩ a
  exact Reads.bind (k := fun x d => (B.take d).bind (fun r => some ((x, r.1), r.2))) (hA a)
    ((hB a).then_some (fun y => (w.1, y)))

theorem triple_trips {C : Durable γ} {v w : α × β × γ}
    (hA : RoundTrip A v.1 w.1) (hB : RoundTrip B v.2.1 w.2.1) (hC : RoundTrip C v.2.2 w.2.2) :
    RoundTrip (A.triple B C) v w := by
  obtain ⟨front, hfront⟩ := hA
  obtain ⟨middle, hmiddle⟩ := hB
  obtain ⟨back, hback⟩ := hC
  refine ⟨front ++ (middle ++ back), (hfront.bind (hmiddle.bind hback)).imp ?_⟩
  rintro ⟨hA, hB, hC⟩ a
  exact Reads.bind
    (k := fun x d => (B.take d).bind (fun r => (C.take r.2).bind
      (fun r' => some ((x, r.1, r'.1), r'.2)))) (hA a)
    (Reads.bind (k := fun y d => (C.take d).bind (fun r => some ((w.1, y, r.1), r.2))) (hB a)
      ((hC a).then_some (fun z => (w.1, w.2.1, z))))

/-- The items one after the other, without their number. -/
theorem items_trip (h : ∀ x, RoundTrip T x (f x)) (items : List α) :
    ∃ bytes, Puts (put_items T.put items) bytes
      (∀ a : List UInt8, Reads (take_items T.take items.length : Dec a → _) bytes (items.map f)) := by
  induction items with
  | nil => exact ⟨[], Puts.nothing.imp (fun _ _ => Reads.pure [])⟩
  | cons x items ih =>
    obtain ⟨front, hfront⟩ := h x
    obtain ⟨back, hback⟩ := ih
    refine ⟨front ++ back, (hfront.bind hback).imp ?_⟩
    rintro ⟨hx, hitems⟩ a
    exact Reads.bind
      (k := fun y d => (take_items T.take items.length d).bind (fun r => some (y :: r.1, r.2)))
      (hx a) ((hitems a).then_some (fun rest => f x :: rest))

theorem put_items_len {put : α → Enc → Except Refuse Enc} (h : WritesAByte put) (items : List α) :
    ∀ e e', put_items put items e = .ok e' → e.len + items.length ≤ e'.len := by
  induction items with
  | nil =>
    intro e e' hput
    cases hput
    exact le_rfl
  | cons x items ih =>
    intro e e' hput
    rw [put_items] at hput
    cases hfirst : put x e with
    | error r =>
      rw [hfirst] at hput
      cases hput
    | ok e₁ =>
      rw [hfirst] at hput
      have hone := h x e e₁ hfirst
      have hrest := ih e₁ e' hput
      rw [List.length_cons]
      omega

-- A length that is counted in bytes fits in a word, and what it counts is
-- still there when it is read.
theorem seq_trips (h : ∀ x, RoundTrip T x (f x)) (hbyte : WritesAByte T.put) (items : List α) :
    ∃ bytes, Puts (put_seq T.put items) (varint_loop 10 (UInt64.ofNat items.length) ++ bytes)
      (items.length < 2 ^ 64 ∧ items.length ≤ bytes.length ∧
        ∀ a : List UInt8, Reads (take_items T.take items.length : Dec a → _) bytes (items.map f)) := by
  obtain ⟨bytes, hbytes⟩ := items_trip h items
  refine ⟨bytes, ?_⟩
  intro e e' hfits hput
  obtain ⟨⟨hwrote, hfits'⟩, -, hreads⟩ := ((Puts.varint _).bind hbytes) e e' hfits hput
  have hlength : items.length ≤ bytes.length := by
    cases hlen : e.varint (UInt64.ofNat items.length) with
    | error r =>
      rw [put_seq, hlen] at hput
      cases hput
    | ok e₁ =>
      rw [put_seq, hlen] at hput
      obtain ⟨rfl, -⟩ := varint_ok hlen
      have hcount := put_items_len hbyte items _ e' hput
      rw [hwrote, ← append_append, append_len _ bytes] at hcount
      omega
  have hword : items.length < 2 ^ 64 := by
    have hlen := hfits'.word
    rw [hwrote, append_len, List.length_append] at hlen
    omega
  exact ⟨⟨hwrote, hfits'⟩, hword, hlength, hreads⟩

theorem vec_trips (h : ∀ x, RoundTrip T x (f x))
    (hbyte : WritesAByte T.put) (v : List α) : RoundTrip T.vec v (v.map f) := by
  obtain ⟨bytes, hbytes⟩ := seq_trips h hbyte v
  refine ⟨_, hbytes.imp ?_⟩
  rintro ⟨hword, hlength, hreads⟩ a d hpre
  obtain ⟨d₁, hlen, hpos, hrest⟩ := Reads.take_len hword hlength hpre
  obtain ⟨d₂, hitems, hpos'⟩ := hreads a d₁ hrest
  refine ⟨d₂, ?_, ?_⟩
  · simp only [vec, take_seq, hlen, bind_eq_bind, bind_some, hitems]
  · rw [hpos', hpos, List.length_append]
    omega

variable {n : Nat}

theorem vector_toList_map (f : α → α) (v : Vector α n) :
    try_into n (v.toList.map f) = some (v.map f) := by
  unfold try_into
  rw [dif_pos (by simp)]
  congr 1
  apply Vector.toArray_inj.mp
  apply Array.toList_inj.mp
  simp only [Vector.toArray_map, Array.toList_map]
  rfl

theorem array_trips (h : ∀ x, RoundTrip T x (f x))
    (v : Vector α n) : RoundTrip (T.array n) v (v.map f) := by
  obtain ⟨bytes, hbytes⟩ := items_trip h v.toList
  refine ⟨bytes, hbytes.imp ?_⟩
  intro hreads a d hpre
  obtain ⟨d', hitems, hpos⟩ := hreads a d hpre
  rw [Vector.length_toList] at hitems
  refine ⟨d', ?_, hpos⟩
  simp only [array, hitems, bind_eq_bind, bind_some, vector_toList_map]

theorem grown_trips (h : ∀ x, RoundTrip T x (f x))
    (hn : n < 2 ^ 64) (pad : α) (v : Vector α n) : RoundTrip (T.grown n pad) v (v.map f) := by
  obtain ⟨bytes, hbytes⟩ := items_trip h v.toList
  refine ⟨_, ((Puts.varint (UInt64.ofNat n)).bind hbytes).imp ?_⟩
  rintro ⟨-, hreads⟩ a d hpre
  have hword : (UInt64.ofNat n).toNat = n := by
    rw [toNat_ofNat', Nat.mod_eq_of_lt hn]
  obtain ⟨d₁, hvarint, hpos⟩ := Reads.varint _ d ((List.prefix_append _ _).trans hpre)
  obtain ⟨d₂, hitems, hpos'⟩ := hreads a d₁ (Dec.rest_after hpre hpos)
  rw [Vector.length_toList] at hitems
  have hfull : resize_with n pad (v.toList.map f) = v.toList.map f := by
    unfold resize_with
    simp
  refine ⟨d₂, ?_, ?_⟩
  · simp only [grown, grown_len, hvarint, bind_eq_bind, bind_some, hword, le_refl,
      if_true, hitems, hfull, vector_toList_map]
  · rw [hpos', hpos, List.length_append]
    omega

/-! ## Sets and maps -/

theorem put_entries_eq (key : κ → Enc → Except Refuse Enc) (value : ν → Enc → Except Refuse Enc)
    (K : Durable κ) (V : Durable ν) (hK : K.put = key) (hV : V.put = value)
    (entries : List (κ × ν)) (e : Enc) :
    put_entries key value entries e = put_items (K.pair V).put entries e := by
  subst hK hV
  induction entries generalizing e with
  | nil => rfl
  | cons entry entries ih =>
    obtain ⟨k, v⟩ := entry
    simp only [put_entries, put_items, pair, bind, Except.bind]
    cases hk : K.put k e with
    | error r => rfl
    | ok e₁ =>
      simp only
      cases hv : V.put v e₁ with
      | error r => rfl
      | ok e₂ => exact ih e₂

theorem pair_take_some {a : List UInt8} {d d' : Dec a} {x : α}
    {y : β} (h : (A.pair B).take d = some ((x, y), d')) :
    ∃ d₁, A.take d = some (x, d₁) ∧ B.take d₁ = some (y, d') := by
  simp only [pair, bind_eq_bind, bind_eq_some_iff] at h
  obtain ⟨⟨x', d₁⟩, hx, ⟨y', d₂⟩, hy, heq⟩ := h
  cases heq
  exact ⟨d₁, hx, hy⟩

-- Entries that come in rising order are all new, and each goes last.
theorem take_entries_of_items [LinearOrder κ] {a : List UInt8} {K : Durable κ} {V : Durable ν}
    (n : Nat) : ∀ (d d' : Dec a) (entries : List (κ × ν)) (out : SortedMap κ ν)
      (hsorted : (out.entries ++ entries).Pairwise (fun x y => x.1 < y.1)),
      take_items (K.pair V).take n d = some (entries, d') →
      take_entries K.take V.take n out d = some (⟨out.entries ++ entries, hsorted⟩, d') := by
  induction n with
  | zero =>
    intro d d' entries out hsorted h
    cases h
    rw [take_entries]
    simp
  | succ n ih =>
    intro d d' entries out hsorted h
    simp only [take_items, bind_eq_bind, bind_eq_some_iff, Option.some.injEq,
      Prod.mk.injEq] at h
    obtain ⟨⟨⟨k, v⟩, d₂⟩, hpair, ⟨rest, d₃⟩, hrest, rfl, rfl⟩ := h
    obtain ⟨d₁, hk, hv⟩ := pair_take_some hpair
    have habove : ∀ e ∈ out.entries, e.1 < k := by
      intro e he
      exact (List.pairwise_append.mp hsorted).2.2 e he (k, v) (by simp)
    have hnew : out.contains k = false := by
      rw [SortedMap.contains, isSome_eq_false_iff, isNone_iff_eq_none]
      cases hget : out.get? k with
      | none => rfl
      | some w => exact absurd (habove _ (mem_entries.mpr hget)) (lt_irrefl k)
    have hinsert := out.entries_insert_of_lt v habove
    have hsorted' : ((out.insert k v).entries ++ rest).Pairwise (fun x y => x.1 < y.1) := by
      rw [hinsert, List.append_assoc]
      exact hsorted
    have hloop := ih d₂ d₃ rest (out.insert k v) hsorted' hrest
    simp only [take_entries, hk, hv, bind_eq_bind, bind_some, hnew,
      Bool.false_eq_true, if_false, hloop]
    congr 2
    apply ext_entries
    show (out.insert k v).entries ++ rest = out.entries ++ (k, v) :: rest
    rw [hinsert, List.append_assoc]
    rfl

theorem btree_map_trips [LinearOrder κ] {K : DurableKey κ} {V : Durable ν} {f : ν → ν}
    (hK : ∀ k, RoundTrip K.toDurable k k) (hV : ∀ v, RoundTrip V v (f v))
    (hbyte : WritesAByte (K.toDurable.pair V).put) (m : SortedMap κ ν) :
    RoundTrip (btree_map K V) m (m.mapValues f) := by
  have hentry : ∀ entry : κ × ν,
      RoundTrip (K.toDurable.pair V) entry (entry.1, f entry.2) := by
    intro entry
    exact pair_trips (hK entry.1) (hV entry.2)
  obtain ⟨bytes, hbytes⟩ := seq_trips hentry hbyte m.entries
  refine ⟨varint_loop 10 (UInt64.ofNat m.entries.length) ++ bytes, ?_⟩
  have hput : (btree_map K V).put m = put_seq (K.toDurable.pair V).put m.entries := by
    funext e
    simp only [btree_map, put_map, put_seq, SortedMap.size,
      put_entries_eq K.put V.put K.toDurable V rfl rfl]
  rw [hput]
  refine hbytes.imp ?_
  rintro ⟨hword, hlength, hreads⟩ a d hpre
  obtain ⟨d₁, hlen, hpos, hrest⟩ := Reads.take_len hword hlength hpre
  obtain ⟨d₂, hitems, hpos'⟩ := hreads a d₁ hrest
  refine ⟨d₂, ?_, ?_⟩
  · simp only [btree_map, take_map, hlen, bind_eq_bind, bind_some]
    exact take_entries_of_items _ d₁ d₂ _ SortedMap.empty (m.mapValues f).sorted hitems
  · rw [hpos', hpos, List.length_append]
    omega

/-- A set writes what a map to nothing writes. -/
theorem put_keys_eq (T : Durable α) (entries : List (α × Unit)) (e : Enc) :
    put_items T.put (entries.map Prod.fst) e = put_items (T.pair unit).put entries e := by
  induction entries generalizing e with
  | nil => rfl
  | cons entry entries ih =>
    simp only [List.map_cons, put_items, pair, bind, Except.bind]
    cases hput : T.put entry.1 e with
    | error r => rfl
    | ok e₁ => exact ih e₁

theorem btree_set_trips [LinearOrder α] {T : DurableKey α} (hT : ∀ x, RoundTrip T.toDurable x x)
    (hbyte : WritesAByte T.put) (s : BTreeSet α) : RoundTrip (btree_set T) s s := by
  have hentry : WritesAByte (T.toDurable.pair unit).put := by
    intro v e e' hput
    apply hbyte v.1 e e'
    simp only [pair, bind, Except.bind] at hput
    cases hfirst : T.put v.1 e with
    | error r =>
      rw [hfirst] at hput
      cases hput
    | ok e₁ =>
      rw [hfirst] at hput
      exact hput
  obtain ⟨bytes, hbytes⟩ := btree_map_trips (f := id) hT unit_trips hentry s
  refine ⟨bytes, ?_⟩
  have hput : (btree_set T).put s = (btree_map T unit).put s := by
    funext e
    simp only [btree_set, btree_map, put_map, put_seq, SortedMap.size, SortedMap.keys,
      List.length_map, put_keys_eq, put_entries_eq T.put unit.put T.toDurable unit rfl rfl]
  rw [hput]
  have hsame : s.mapValues id = s := by
    apply ext_entries
    simp [SortedMap.mapValues]
  rw [hsame] at hbytes
  exact hbytes

end Durable

/-! ## Digests -/

namespace HDigest

open Durable

variable {α κ ν : Type}

theorem digest32_trips (v : Vector UInt8 32) (path : String) :
    RoundTrip (durable_field.H digest32 path) v v := by
  refine ⟨v.toList, (Puts.raw v.toList).imp ?_⟩
  intro _ a d hpre
  obtain ⟨d', hraw, hpos⟩ := Dec.raw_reads hpre
  rw [Vector.length_toList] at hraw
  have hback := vector_toList_map id v
  rw [List.map_id, Vector.map_id] at hback
  refine ⟨d', ?_, hpos⟩
  simp only [durable_field.H, digest32, hraw, bind_eq_bind, bind_some, hback]

theorem hex64_trips (v : String) (path : String) : RoundTrip (durable_field.H hex64 path) v v := by
  by_cases hlength : (as_bytes v).length = 64
  · cases hunhex : unhex (as_bytes v) with
    | none =>
      refine ⟨[], ?_⟩
      intro e e' _ hput
      simp only [durable_field.H, hex64, hlength, ne_eq, not_true_eq_false, if_false,
        hunhex] at hput
      cases hput
    | some bytes =>
      obtain ⟨htext, hcount⟩ := hex_unhex (as_bytes v) bytes (by omega) hunhex
      have hthirtytwo : bytes.length = 32 := by omega
      refine ⟨bytes, ?_⟩
      intro e e' hfits hput
      simp only [durable_field.H, hex64, hlength, ne_eq, not_true_eq_false, if_false,
        hunhex] at hput
      refine ⟨raw_ok hput, ?_⟩
      intro a d hpre
      obtain ⟨d', hraw, hpos⟩ := Dec.raw_reads hpre
      rw [hthirtytwo] at hraw
      refine ⟨d', ?_, hpos⟩
      simp only [durable_field.H, hex64, hraw, bind_eq_bind, bind_some,
        as_bytes_injective htext]
  · refine ⟨[], ?_⟩
    intro e e' _ hput
    simp only [durable_field.H, hex64, ne_eq, hlength, not_false_eq_true, if_true] at hput
    cases hput

variable {path : String}

theorem option_trips {T : HDigest α} {f : α → α}
    (h : ∀ x, RoundTrip (durable_field.H T path) x (f x)) (v : Option α) :
    RoundTrip (durable_field.H T.option path) v (v.map f) := by
  cases v with
  | none =>
    refine ⟨varint_loop 10 0, (Puts.varint 0).imp ?_⟩
    intro _ a d hpre
    obtain ⟨d', hvarint, hpos⟩ := Reads.varint 0 d hpre
    refine ⟨d', ?_, hpos⟩
    simp [durable_field.H, option, hvarint]
  | some x =>
    obtain ⟨bytes, hbytes⟩ := h x
    refine ⟨varint_loop 10 1 ++ bytes, ((Puts.varint 1).bind hbytes).imp ?_⟩
    rintro ⟨-, hreads⟩ a d hpre
    obtain ⟨d₁, hvarint, hpos⟩ := Reads.varint 1 d ((List.prefix_append _ _).trans hpre)
    obtain ⟨d₂, htake, hpos'⟩ := hreads a d₁ (Dec.rest_after hpre hpos)
    have htake : T.take_h d₁ = some (f x, d₂) := htake
    refine ⟨d₂, ?_, ?_⟩
    · simp [durable_field.H, option, hvarint, htake]
    · rw [hpos', hpos, List.length_append]
      omega

-- An `H` container is the plain container of its `H` fields.
theorem owned_vec_trips {T : HDigest α} {f : α → α}
    (h : ∀ x, RoundTrip (durable_field.H T path) x (f x))
    (hbyte : WritesAByte (durable_field.H T path).put) (v : List α) :
    RoundTrip (durable_field.H T.owned_vec path) v (v.map f) := vec_trips h hbyte v

theorem btree_map_trips [LinearOrder κ] {K : HDigestKey κ} {V : Durable ν} {f : ν → ν}
    (hK : ∀ k, RoundTrip (durable_field.H K.toHDigest path) k k)
    (hV : ∀ v, RoundTrip V v (f v))
    (hbyte : WritesAByte ((durable_field.H K.toHDigest path).pair V).put) (m : SortedMap κ ν) :
    RoundTrip (durable_field.H (btree_map K V) path) m (m.mapValues f) := by
  have h := Durable.btree_map_trips (K := durable_field.key_H K path) hK hV hbyte m
  exact h

theorem btree_set_trips [LinearOrder α] {T : HDigestKey α}
    (hT : ∀ x, RoundTrip (durable_field.H T.toHDigest path) x x)
    (hbyte : WritesAByte (durable_field.H T.toHDigest path).put) (s : BTreeSet α) :
    RoundTrip (durable_field.H (btree_set T) path) s s := by
  have h := Durable.btree_set_trips (T := durable_field.key_H T path) hT hbyte s
  exact h

end HDigest

/-! ## Fields and variants -/

section macros

variable {α β γ : Type}

theorem skipped_trips (default v : α) : RoundTrip (durable_field.skipped default) v default :=
  ⟨[], Puts.nothing.imp (fun _ _ => Reads.pure default)⟩

/-- Whether its value is empty or was moved, an `E` field takes no bytes. -/
theorem E_trips (T : DurableEmpty α) (path : String) (v : α) :
    RoundTrip (durable_field.E T path) v T.default := by
  refine ⟨[], ?_⟩
  intro e e' hfits hput
  simp only [durable_field.E] at hput
  split at hput
  · cases hput
  · cases hput
    exact ⟨⟨(append_nil e).symm, hfits⟩, fun a => Reads.pure T.default⟩

theorem struct_trips (parts : α ≃ β) {T : Durable β} {v : α} {w : β} (h : RoundTrip T (parts v) w) :
    RoundTrip (durable_struct parts T) v (parts.symm w) := by
  obtain ⟨bytes, hbytes⟩ := h
  exact ⟨bytes, hbytes.imp (fun hreads a => (hreads a).map parts.symm)⟩

/-- The tag written is one of the enum's own, and its arm reads the fields back. -/
def ArmsTrip (tags : List UInt64) (T : Arms α) (v w : α) : Prop :=
  ∃ (tag : UInt64) (bytes : List UInt8), Puts (T.put v) (varint_loop 10 tag ++ bytes)
    (tag ∈ tags ∧ ∀ a : List UInt8, Reads (T.take tag : Dec a → _) bytes w)

theorem arm_trips {tags : List UInt64} {tag : UInt64} (hfresh : tag ∉ tags) (decode_only : Bool)
    {body : Durable β} {rest : Arms γ} {f : β → β} {g : γ → γ}
    (hbody : ∀ v, RoundTrip body v (f v)) (hrest : ∀ v, ArmsTrip tags rest v (g v)) (v : β ⊕ γ) :
    ArmsTrip (tag :: tags) (arm tag decode_only body rest) v (v.map f g) := by
  cases v with
  | inl x =>
    obtain ⟨bytes, hbytes⟩ := hbody x
    refine ⟨tag, bytes, ?_⟩
    cases decode_only with
    | true =>
      intro e e' _ hput
      cases hput
    | false =>
      refine ((Puts.varint tag).bind hbytes).imp ?_
      rintro ⟨-, hreads⟩
      refine ⟨List.mem_cons_self, ?_⟩
      intro a d hpre
      obtain ⟨d', hread, hpos⟩ := (hreads a).map (Sum.inl : β → β ⊕ γ) d hpre
      refine ⟨d', ?_, hpos⟩
      simp only [arm, if_true]
      exact hread
  | inr y =>
    obtain ⟨tag', bytes, hbytes⟩ := hrest y
    refine ⟨tag', bytes, hbytes.imp ?_⟩
    rintro ⟨hmem, hreads⟩
    refine ⟨List.mem_cons_of_mem _ hmem, ?_⟩
    intro a d hpre
    have hother : tag' ≠ tag := fun h => hfresh (h ▸ hmem)
    obtain ⟨d', hread, hpos⟩ := (hreads a).map (Sum.inr : γ → β ⊕ γ) d hpre
    refine ⟨d', ?_, hpos⟩
    simp only [arm, if_neg hother]
    exact hread

theorem enum_trips (parts : α ≃ β) {tags : List UInt64} {T : Arms β} {v : α} {w : β}
    (h : ArmsTrip tags T (parts v) w) : RoundTrip (durable_enum parts T) v (parts.symm w) := by
  obtain ⟨tag, bytes, hbytes⟩ := h
  refine ⟨_, hbytes.imp ?_⟩
  rintro ⟨-, hreads⟩ a d hpre
  obtain ⟨d₁, hvarint, hpos⟩ := Reads.varint tag d ((List.prefix_append _ _).trans hpre)
  obtain ⟨d₂, htake, hpos'⟩ := hreads a d₁ (Dec.rest_after hpre hpos)
  refine ⟨d₂, ?_, ?_⟩
  · simp only [durable_enum, hvarint, bind_eq_bind, bind_some, htake,
      map_some]
  · rw [hpos', hpos, List.length_append]
    omega

end macros

/-! ## The impls written by hand -/

theorem retired_trips {α : Type} {T : Durable α} {neutral w : α} (h : RoundTrip T neutral w)
    (v : Unit) : RoundTrip (retired T neutral) v v := by
  obtain ⟨bytes, hbytes⟩ := h
  exact ⟨bytes, hbytes.imp (fun hreads a => (hreads a).map (fun _ => ()))⟩

theorem retired_overflow_trips (v : Unit) : RoundTrip retired_overflow v v := by
  obtain ⟨bytes, hbytes⟩ := Durable.bool_trips false
  refine ⟨bytes, hbytes.imp ?_⟩
  intro hreads a d hpre
  obtain ⟨d', htake, hpos⟩ := hreads a d hpre
  refine ⟨d', ?_, hpos⟩
  simp [retired_overflow, Durable.scalar, htake]

theorem string_entry_writes : WritesAByte (Durable.string.pair Durable.string).put := by
  intro v e e' hput
  simp only [Durable.pair, Durable.string, len_prefixed, bind, Except.bind] at hput
  cases hlen : e.varint (UInt64.ofNat (Durable.as_bytes v.1).length) with
  | error r =>
    rw [hlen] at hput
    cases hput
  | ok e₁ =>
    simp only [hlen] at hput
    cases htext : e₁.raw (Durable.as_bytes v.1) with
    | error r =>
      rw [htext] at hput
      cases hput
    | ok e₂ =>
      simp only [htext] at hput
      cases hlen' : e₂.varint (UInt64.ofNat (Durable.as_bytes v.2).length) with
      | error r =>
        rw [hlen'] at hput
        cases hput
      | ok e₃ =>
        simp only [hlen'] at hput
        have hpos := Dec.varint_loop_length_pos (UInt64.ofNat (Durable.as_bytes v.1).length)
        obtain ⟨rfl, -⟩ := varint_ok hlen
        obtain ⟨rfl, -⟩ := raw_ok htext
        obtain ⟨rfl, -⟩ := varint_ok hlen'
        obtain ⟨rfl, -⟩ := raw_ok hput
        simp only [append_len]
        omega

theorem string_map_trips (m : SortedMap String String) : RoundTrip string_map m m := by
  have h := Durable.btree_map_trips (f := id) (K := DurableKey.string) Durable.string_trips
    Durable.string_trips string_entry_writes m
  have hsame : m.mapValues id = m := by
    apply ext_entries
    simp [SortedMap.mapValues]
  rwa [hsame] at h

theorem selector_capture_trips (v : SortedMap String String × SortedMap String String) :
    RoundTrip selector_capture v v := by
  obtain ⟨bytes, hbytes⟩ := Durable.pair_trips (v := v) (string_map_trips v.1)
    (string_map_trips v.2)
  refine ⟨bytes, ?_⟩
  intro e e' hfits hput
  simp only [selector_capture] at hput
  split at hput
  · cases hput
  · exact hbytes e e' hfits hput

/-! ## Every type -/

theorem HKeyTy.trips : {α : Type} → (t : HKeyTy α) → (v : α) → (path : String) →
    RoundTrip (durable_field.H t.key.toHDigest path) v v
  | _, .hex64, v, path => hex64_trips v path
  | _, .digest32, v, path => digest32_trips v path
  | _, .option t, v, path => by
    have h := option_trips (f := id) (fun x => t.trips x path) v
    rwa [map_id] at h

mutual

theorem KeyTy.trips : {α : Type} → (t : KeyTy α) → (v : α) → RoundTrip t.key.toDurable v v
  | _, .u8, v => Durable.u8_trips v
  | _, .u16, v => Durable.u16_trips v
  | _, .u32, v => Durable.u32_trips v
  | _, .u64, v => Durable.u64_trips v
  | _, .usize, v => Durable.usize_trips v
  | _, .i32, v => Durable.i32_trips v
  | _, .i64, v => Durable.i64_trips v
  | _, .i128, v => Durable.i128_trips v
  | _, .u128, v => Durable.u128_trips v
  | _, .bool, v => Durable.bool_trips v
  | _, .unit, v => Durable.unit_trips v
  | _, .non_zero_u64, v => Durable.non_zero_u64_trips v
  | _, .static_str, v => Durable.static_str_trips v
  | _, .string, v => Durable.string_trips v
  | _, .option t, v => by
    have h := Durable.option_trips (f := id) (fun x => t.trips x) v
    rwa [map_id] at h
  | _, .pair t u, v => Durable.pair_trips (t.trips v.1) (u.trips v.2)
  | _, .triple t u w, v => Durable.triple_trips (t.trips v.1) (u.trips v.2.1) (w.trips v.2.2)
  | _, .durable_struct name parts fields, v => by
    have h := struct_trips parts (fields.trips name (parts v))
    rwa [Equiv.symm_apply_apply] at h

theorem KeyFields.trips : {α : Type} → (t : KeyFields α) → (name : String) → (v : α) →
    RoundTrip (t.key name).toDurable v v
  | _, .nil, _, v => Durable.unit_trips v
  | _, .stored _ _ t rest, name, v => Durable.pair_trips (t.trips v.1) (rest.trips name v.2)
  | _, .H _ t rest, name, v => Durable.pair_trips (t.trips v.1 _) (rest.trips name v.2)

end

mutual

theorem Ty.trips : {α : Type} → (t : Ty α) → t.ElementsWrite → (v : α) →
    RoundTrip t.durable v (t.kept v)
  | _, .key t, _, v => t.trips v
  | _, .path_buf, _, v => Durable.path_buf_trips v v
  | _, .option t, h, v => Durable.option_trips (t.trips h) v
  | _, .boxed t, h, v => Durable.boxed_trips (t.trips h v)
  | _, .vec t, h, v => Durable.vec_trips (t.trips h.2) h.1 v
  | _, .vec_deque t, h, v => Durable.vec_trips (t.trips h.2) h.1 v
  | _, .owned_vec t, h, v => Durable.vec_trips (t.trips h.2) h.1 v
  | _, .array t _, h, v => Durable.array_trips (t.trips h) v
  | _, .btree_set _ t, h, v => Durable.btree_set_trips t.trips h v
  | _, .btree_map _ k t, h, v => Durable.btree_map_trips k.trips (t.trips h.2) h.1 v
  | _, .owned_map _ k t, h, v => Durable.btree_map_trips k.trips (t.trips h.2) h.1 v
  | _, .pair t u, h, v => Durable.pair_trips (t.trips h.1 v.1) (u.trips h.2 v.2)
  | _, .triple t u w, h, v =>
    Durable.triple_trips (t.trips h.1 v.1) (u.trips h.2.1 v.2.1) (w.trips h.2.2 v.2.2)
  | _, .durable_struct name parts fields, h, v => struct_trips parts (fields.trips h name (parts v))
  | _, .durable_enum name parts variants, h, v => enum_trips parts (variants.trips h name (parts v))
  | _, .retired t neutral, h, v => retired_trips (t.trips h neutral) v
  | _, .retired_overflow, _, v => retired_overflow_trips v
  | _, .selector_capture, _, v => selector_capture_trips v

theorem HTy.trips : {α : Type} → (t : HTy α) → t.ElementsWrite → (v : α) → (path : String) →
    RoundTrip (durable_field.H t.digest path) v (t.kept v)
  | _, .key t, _, v, path => t.trips v path
  | _, .option t, h, v, path => option_trips (fun x => t.trips h x path) v
  | _, .owned_vec t, h, v, path =>
    owned_vec_trips (fun x => t.trips h.2 x path) (h.1 path) v
  | _, .btree_set _ t, h, v, path => btree_set_trips (fun x => t.trips x path) (h path) v
  | _, .btree_map _ k t, h, v, path =>
    btree_map_trips (fun x => k.trips x path) (t.trips h.2) (h.1 path) v

theorem Fields.trips : {α : Type} → (t : Fields α) → t.ElementsWrite → (name : String) → (v : α) →
    RoundTrip (t.durable name) v (t.kept v)
  | _, .nil, _, _, v => Durable.unit_trips v
  | _, .stored _ _ t rest, h, name, v =>
    Durable.pair_trips (t.trips h.1 v.1) (rest.trips h.2 name v.2)
  | _, .H _ t rest, h, name, v =>
    Durable.pair_trips (t.trips h.1 v.1 _) (rest.trips h.2 name v.2)
  | _, .G _ t _ fits default rest, h, name, v =>
    Durable.pair_trips (Durable.grown_trips (t.trips h.1) fits default v.1)
      (rest.trips h.2 name v.2)
  | _, .X _ default rest, h, name, v =>
    Durable.pair_trips (skipped_trips default v.1) (rest.trips h name v.2)
  | _, .E _ t rest, h, name, v => Durable.pair_trips (E_trips t _ v.1) (rest.trips h name v.2)
  | _, .I _ default rest, h, name, v =>
    Durable.pair_trips (skipped_trips default v.1) (rest.trips h name v.2)

theorem Variants.trips : {tags : List UInt64} → {α : Type} → (t : Variants tags α) →
    t.ElementsWrite → (name : String) → (v : α) → ArmsTrip tags (t.arms name) v (t.kept v)
  | _, _, .nil, _, _, v => nomatch v
  | _, _, .cons _ _ decode_only fields rest fresh, h, name, v =>
    arm_trips fresh decode_only (fields.trips h.1 _) (rest.trips h.2 name) v

end

/-- A body that was written within its limit decodes to the value it was
written from, with the fields that are never stored at their defaults, and to
its last byte. -/
theorem what_is_written_is_read_back {α : Type} (t : Ty α) (helements : t.ElementsWrite) (v : α)
    (limit : Nat) (bytes : List UInt8)
    (hwritten : count_write limit (t.durable.put v) = .ok bytes) :
    bytes.length ≤ limit ∧
      ∃ d : Dec bytes, t.durable.take (Dec.new bytes) = some (t.kept v, d) ∧
        d.pos = bytes.length ∧ d.finish = some () := by
  obtain ⟨body, hbody⟩ := t.trips helements v
  have hput : ∀ e e', e.Fits → t.durable.put v e = .ok e' → e' = e.append body ∧ e'.Fits :=
    fun e e' hfits h => (hbody e e' hfits h).1
  obtain ⟨rfl, hlimit⟩ := count_write_ok hput hwritten
  refine ⟨hlimit, ?_⟩
  -- the counting pass has run, so the bytes read back
  have hreads : ∀ a : List UInt8, Reads (t.durable.take : Dec a → _) bytes (t.kept v) := by
    cases hcount : t.durable.put v (Enc.count limit) with
    | error r =>
      rw [count_write, hcount] at hwritten
      cases hwritten
    | ok e => exact (hbody _ e (count_fits limit) hcount).2
  obtain ⟨d, htake, hpos⟩ := hreads bytes (Dec.new bytes) (List.prefix_refl _)
  have hend : d.pos = bytes.length := by
    rw [hpos]
    exact Nat.zero_add _
  exact ⟨d, htake, hend, if_pos hend⟩

/-- A stored number, a title that is never stored and a count that must be empty. -/
def exampleFields : Fields (UInt64 × Option String × UInt64 × Unit) :=
  .stored .N "request" (.key .u64) (.X "title" none (.E "pending" .u64 .nil))

def exampleRecord : Ty (List (UInt64 × Option String × UInt64 × Unit)) :=
  .vec (.durable_struct "Opening" (Equiv.refl _) exampleFields)

theorem exampleRecord_elements_write : exampleRecord.ElementsWrite := by
  refine ⟨?_, trivial, trivial⟩
  intro v e e' hput
  simp only [Ty.durable, Fields.durable, exampleFields, durable_struct, Durable.pair,
    durable_field.skipped, durable_field.E, KeyTy.key, DurableKey.u64, DurableKey.scalar,
    Durable.u64, Durable.through_varint, Durable.scalar, Durable.unit, bind, Except.bind,
    Equiv.refl_apply, id] at hput
  cases hfirst : e.varint v.1 with
  | error r =>
    rw [hfirst] at hput
    cases hput
  | ok e₁ =>
    rw [hfirst] at hput
    have hsame : e' = e₁ := by
      by_cases hrefused : (!e₁.field_moved ("Opening" ++ "." ++ "pending") &&
          !DurableEmpty.u64.durable_empty v.2.2.1) = true
      · simp only [hrefused, if_true] at hput
        cases hput
      · simp only [hrefused] at hput
        cases hput
        rfl
    obtain ⟨rfl, -⟩ := varint_ok hfirst
    have hpos := Dec.varint_loop_length_pos v.1
    rw [hsame, append_len]
    omega

theorem example_is_read_back :
    count_write 3 (exampleRecord.durable.put [(300, some "title", 0, ())]) = .ok [1, 0xac, 2] ∧
      ∃ d : Dec [1, 0xac, 2],
        exampleRecord.durable.take (Dec.new [1, 0xac, 2]) = some ([(300, none, 0, ())], d) ∧
          d.pos = 3 ∧ d.finish = some () :=
  ⟨rfl, (what_is_written_is_read_back exampleRecord exampleRecord_elements_write
    [(300, some "title", 0, ())] 3 [1, 0xac, 2] rfl).2⟩

end ottto_service.durable_tail_codec
