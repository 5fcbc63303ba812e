-- The byte level of the durable-tail codec: the encoder that counts a record
-- body and then writes it, the decoder over one body, and the varint that
-- both sides share.
import Mathlib.Tactic

namespace ottto_service.durable_tail_codec

open List Option UInt64

/-- Why a value was not encoded. -/
inductive Refuse where
  | NonEmpty (path : String)
  | UnknownLabel
  | TooLarge
  | WriteFailed
  | NotDigest (path : String)
deriving DecidableEq, Repr

/-! ## The encoder -/

/-- `Write` owns the bytes of the `Vec` it writes to. -/
inductive Sink where
  | Write (out : List UInt8) (len limit : Nat)
  | Count (len limit : Nat)
deriving DecidableEq, Repr

structure Enc where
  sink : Sink
  moved_field : Option String
deriving DecidableEq, Repr

/-- `usize::checked_add`, on a 64-bit target. -/
def checked_add (a b : Nat) : Option Nat := if a + b < 2 ^ 64 then some (a + b) else none

namespace Enc

def writer (out : List UInt8) (exact_len : Nat) : Enc := ⟨.Write out 0 exact_len, none⟩

def count (limit : Nat) : Enc := ⟨.Count 0 limit, none⟩

def field_moved (e : Enc) (path : String) : Bool := e.moved_field == some path

/-- Only a count sink has a counted length. -/
def counted (e : Enc) : Nat :=
  match e.sink with
  | .Count len _ => len
  | .Write _ _ _ => 0

/-- Only a writer has an emitted length; overrun and underrun both refuse. -/
def finish_written (e : Enc) : Except Refuse Nat :=
  match e.sink with
  | .Write _ len limit => if len = limit then .ok len else .error .WriteFailed
  | .Count _ _ => .error .WriteFailed

def raw (e : Enc) (bytes : List UInt8) : Except Refuse Enc :=
  match e.sink with
  | .Write out len limit =>
    match checked_add len bytes.length with
    | none => .error .TooLarge
    | some stop =>
      if stop > limit then .error .TooLarge
      else .ok { e with sink := .Write (out ++ bytes) stop limit }
  | .Count len limit =>
    match checked_add len bytes.length with
    | none => .error .TooLarge
    | some len => if len > limit then .error .TooLarge else .ok { e with sink := .Count len limit }

/-- The bytes put in `buf`, which has `slots` slots left. -/
def varint_loop : Nat → UInt64 → List UInt8
  | 0, _ => []
  | slots + 1, value =>
    let byte := (value &&& 0x7f).toUInt8
    let value := value >>> 7
    if value = 0 then [byte] else (byte ||| 0x80) :: varint_loop slots value

def varint (e : Enc) (value : UInt64) : Except Refuse Enc := e.raw (varint_loop 10 value)

def len_prefixed (e : Enc) (bytes : List UInt8) : Except Refuse Enc := do
  let e ← e.varint (UInt64.ofNat bytes.length)
  e.raw bytes

/-- What a writer has written. -/
def out (e : Enc) : List UInt8 :=
  match e.sink with
  | .Write out _ _ => out
  | .Count _ _ => []

/-- Count and emit through the same walk. -/
def count_write (limit : Nat) (put : Enc → Except Refuse Enc) : Except Refuse (List UInt8) := do
  let counting ← put (count limit)
  let writing ← put (writer [] counting.counted)
  let _ ← writing.finish_written
  .ok writing.out

end Enc

/-! ## The decoder -/

/-- The borrowed slice is a parameter of the type, as its lifetime is in the
source: no decoder step changes it. `Err(Corrupt)` carries nothing and is
`none`. The source's field `at` is a keyword here. -/
structure Dec (bytes : List UInt8) where
  pos : Nat
  within : pos ≤ bytes.length

namespace Dec

variable {bytes : List UInt8}

def new (bytes : List UInt8) : Dec bytes := ⟨0, Nat.zero_le _⟩

/-- A slice is never longer than `isize::MAX`, so the checked addition fails
only where the slice ends first. -/
def raw (d : Dec bytes) (len : Nat) : Option (List UInt8 × Dec bytes) :=
  if h : d.pos + len ≤ bytes.length then
    some ((bytes.drop d.pos).take len, ⟨d.pos + len, h⟩)
  else none

/-- `self.raw(1)?[0]` -/
def byte (d : Dec bytes) : Option (UInt8 × Dec bytes) := do
  let (slice, d) ← d.raw 1
  let byte ← slice[0]?
  some (byte, d)

/-- The loop over `(0..64).step_by(7)`, which has ten steps. -/
def varint_from : Nat → Nat → UInt64 → Dec bytes → Option (UInt64 × Dec bytes)
  | 0, _, _, _ => none
  | steps + 1, shift, value, d => do
    let (byte, d) ← d.byte
    let bits := (byte &&& 0x7f).toUInt64
    if shift = 63 ∧ bits > 1 then none
    else
      let value := value ||| (bits <<< UInt64.ofNat shift)
      if byte &&& 0x80 = 0 then some (value, d) else varint_from steps (shift + 7) value d

def varint (d : Dec bytes) : Option (UInt64 × Dec bytes) := varint_from 10 0 0 d

def remaining (d : Dec bytes) : Nat := bytes.length - d.pos

/-- A length that must fit in what is left. -/
def take_len (d : Dec bytes) : Option (Nat × Dec bytes) := do
  let (len, d) ← d.varint
  if len.toNat > d.remaining then none else some (len.toNat, d)

def len_prefixed (d : Dec bytes) : Option (List UInt8 × Dec bytes) := do
  let (len, d) ← d.take_len
  d.raw len

/-- Every byte in the body must be consumed. -/
def finish (d : Dec bytes) : Option Unit := if d.pos = bytes.length then some () else none

end Dec

/-! ## What an encoder that accepted its bytes holds -/

namespace Enc

def len (e : Enc) : Nat :=
  match e.sink with
  | .Write _ len _ => len
  | .Count len _ => len

def limit (e : Enc) : Nat :=
  match e.sink with
  | .Write _ _ limit => limit
  | .Count _ limit => limit

def append (e : Enc) (bytes : List UInt8) : Enc :=
  match e.sink with
  | .Write out len limit => { e with sink := .Write (out ++ bytes) (len + bytes.length) limit }
  | .Count len limit => { e with sink := .Count (len + bytes.length) limit }

structure Fits (e : Enc) : Prop where
  limit : e.len ≤ e.limit
  word : e.len < 2 ^ 64

theorem count_fits (limit : Nat) : (count limit).Fits :=
  ⟨Nat.zero_le _, Nat.two_pow_pos 64⟩

theorem writer_fits (out : List UInt8) (limit : Nat) : (writer out limit).Fits :=
  ⟨Nat.zero_le _, Nat.two_pow_pos 64⟩

@[simp] theorem append_nil (e : Enc) : e.append [] = e := by
  obtain ⟨sink, moved⟩ := e
  cases sink <;> simp [append]

@[simp] theorem append_append (e : Enc) (a b : List UInt8) :
    (e.append a).append b = e.append (a ++ b) := by
  obtain ⟨sink, moved⟩ := e
  cases sink <;> simp [append, Nat.add_assoc]

@[simp] theorem append_len (e : Enc) (bytes : List UInt8) :
    (e.append bytes).len = e.len + bytes.length := by
  obtain ⟨sink, moved⟩ := e
  cases sink <;> rfl

theorem raw_ok {e e' : Enc} {bytes : List UInt8} (h : e.raw bytes = .ok e') :
    e' = e.append bytes ∧ e'.Fits := by
  obtain ⟨sink, moved⟩ := e
  unfold raw checked_add at h
  cases sink with
  | Write out len limit =>
    by_cases hword : len + bytes.length < 2 ^ 64
    · simp only [hword, if_true] at h
      split at h
      · cases h
      · rename_i hlimit
        cases h
        exact ⟨rfl, ⟨not_lt.mp hlimit, hword⟩⟩
    · simp only [hword, if_false] at h
      cases h
  | Count len limit =>
    by_cases hword : len + bytes.length < 2 ^ 64
    · simp only [hword, if_true] at h
      split at h
      · cases h
      · rename_i hlimit
        cases h
        exact ⟨rfl, ⟨not_lt.mp hlimit, hword⟩⟩
    · simp only [hword, if_false] at h
      cases h

theorem varint_ok {e e' : Enc} {value : UInt64} (h : e.varint value = .ok e') :
    e' = e.append (varint_loop 10 value) ∧ e'.Fits := raw_ok h

end Enc

/-! ## Reading back -/

namespace Dec

variable {a : List UInt8}

/-- What is left of the body. -/
def rest (d : Dec a) : List UInt8 := a.drop d.pos

theorem rest_length (d : Dec a) : d.rest.length = d.remaining := by
  simp [rest, remaining]

variable {d : Dec a}

theorem rest_after {d' : Dec a} {front back : List UInt8} (h : front ++ back <+: d.rest)
    (hpos : d'.pos = d.pos + front.length) : back <+: d'.rest := by
  obtain ⟨tail, ht⟩ := h
  refine ⟨tail, ?_⟩
  unfold rest at ht ⊢
  rw [hpos, ← drop_drop, ← ht, append_assoc, drop_left]

theorem raw_reads {bytes : List UInt8} (h : bytes <+: d.rest) :
    ∃ d' : Dec a, d.raw bytes.length = some (bytes, d') ∧ d'.pos = d.pos + bytes.length := by
  have hlen : bytes.length ≤ a.length - d.pos := by
    have := h.length_le
    rwa [rest_length] at this
  have hfits : d.pos + bytes.length ≤ a.length := by
    have := d.within
    omega
  refine ⟨⟨d.pos + bytes.length, hfits⟩, ?_, rfl⟩
  unfold raw
  rw [dif_pos hfits]
  have htake : (a.drop d.pos).take bytes.length = bytes := (prefix_iff_eq_take.mp h).symm
  rw [htake]

theorem byte_reads {b : UInt8} {tail : List UInt8} (h : b :: tail <+: d.rest) :
    ∃ d' : Dec a, d.byte = some (b, d') ∧ d'.pos = d.pos + 1 := by
  have hone : [b] <+: d.rest := (prefix_append [b] tail).trans h
  obtain ⟨d', hraw, hpos⟩ := raw_reads hone
  have hraw : d.raw 1 = some ([b], d') := hraw
  refine ⟨d', ?_, hpos⟩
  unfold byte
  rw [hraw]
  rfl

theorem low_bits (v : UInt64) : (v &&& 0x7f).toUInt8 = UInt8.ofNat (v.toNat % 128) := by
  have hand : (v &&& 0x7f).toNat = v.toNat % 128 := by
    rw [UInt64.toNat_and]
    exact Nat.and_two_pow_sub_one_eq_mod v.toNat 7
  apply UInt8.toNat_inj.mp
  rw [toNat_toUInt8, hand, UInt8.toNat_ofNat']

theorem continued_byte : ∀ n < 128,
    (UInt8.ofNat n ||| 0x80) &&& 0x7f = UInt8.ofNat n ∧
    (UInt8.ofNat n ||| 0x80) &&& 0x80 ≠ 0 := by decide

theorem last_byte : ∀ n < 128,
    UInt8.ofNat n &&& 0x7f = UInt8.ofNat n ∧ UInt8.ofNat n &&& 0x80 = 0 := by decide

variable {shift : Nat}

/-- `value |= bits << shift` adds the bits above what the value holds. -/
theorem or_shifted {value bits : UInt64} (hshift : shift < 64)
    (hvalue : value.toNat < 2 ^ shift) (hbits : bits.toNat * 2 ^ shift < 2 ^ 64) :
    (value ||| (bits <<< UInt64.ofNat shift)).toNat = value.toNat + bits.toNat * 2 ^ shift := by
  have hamount : (UInt64.ofNat shift).toNat % 64 = shift := by
    rw [toNat_ofNat']
    omega
  have hmoved : (bits <<< UInt64.ofNat shift).toNat = 2 ^ shift * bits.toNat := by
    rw [UInt64.toNat_shiftLeft, hamount, Nat.shiftLeft_eq, Nat.mod_eq_of_lt hbits, Nat.mul_comm]
  rw [UInt64.toNat_or, hmoved, Nat.or_comm, ← Nat.two_pow_add_eq_or_of_lt hvalue]
  ring

theorem shifted_out (v : UInt64) : (v >>> 7).toNat = v.toNat / 128 := by
  rw [UInt64.toNat_shiftRight]
  exact Nat.shiftRight_eq_div_pow v.toNat 7

/-- One step of the loop, on the next byte of the body. -/
theorem varint_from_step {d' : Dec a} {b : UInt8} (h : d.byte = some (b, d')) (steps shift : Nat)
    (value : UInt64) (hlast : ¬ (shift = 63 ∧ (b &&& 0x7f).toUInt64 > 1)) :
    varint_from (steps + 1) shift value d =
      if b &&& 0x80 = 0 then some (value ||| ((b &&& 0x7f).toUInt64 <<< UInt64.ofNat shift), d')
      else varint_from steps (shift + 7)
        (value ||| ((b &&& 0x7f).toUInt64 <<< UInt64.ofNat shift)) d' := by
  rw [varint_from, h]
  simp only [bind_eq_bind, bind_some, if_neg hlast]

theorem low_bits_toNat {n : Nat} (h : n < 128) : (UInt8.ofNat n).toUInt64.toNat = n := by
  rw [UInt8.toNat_toUInt64, UInt8.toNat_ofNat']
  omega

/-- Only the tenth byte has a bound of its own: one bit is left for it. -/
theorem within_last_bit {n : Nat} (hn : n < 128) (hfits : n * 2 ^ shift < 2 ^ 64) :
    ¬ (shift = 63 ∧ (UInt8.ofNat n).toUInt64 > 1) := by
  rintro ⟨rfl, hbits⟩
  have hbits : 1 < (UInt8.ofNat n).toUInt64.toNat := lt_iff_toNat_lt.mp hbits
  rw [low_bits_toNat hn] at hbits
  omega

theorem or_low_bits {value v : UInt64} (hshift : shift < 64)
    (hvalue : value.toNat < 2 ^ shift) (hfits : v.toNat % 128 * 2 ^ shift < 2 ^ 64) :
    (value ||| ((UInt8.ofNat (v.toNat % 128)).toUInt64 <<< UInt64.ofNat shift)).toNat =
      value.toNat + v.toNat % 128 * 2 ^ shift := by
  have hn : v.toNat % 128 < 128 := Nat.mod_lt _ (by decide)
  rw [or_shifted hshift hvalue (by rwa [low_bits_toNat hn]), low_bits_toNat hn]

-- The induction is on the steps left: a value that still has `64 - shift`
-- bits to give ends before the steps do.
theorem varint_from_reads (steps : Nat) : ∀ (shift : Nat) (value v : UInt64) (d : Dec a),
    shift + 7 * steps = 70 → shift < 64 → value.toNat < 2 ^ shift → v.toNat * 2 ^ shift < 2 ^ 64 →
    Enc.varint_loop steps v <+: d.rest →
    ∃ (w : UInt64) (d' : Dec a), varint_from steps shift value d = some (w, d') ∧
      w.toNat = value.toNat + v.toNat * 2 ^ shift ∧
      d'.pos = d.pos + (Enc.varint_loop steps v).length := by
  induction steps with
  | zero =>
    intro shift value v d hsteps hshift
    omega
  | succ steps ih =>
    intro shift value v d hsteps hshift hvalue hfits hpre
    have hn : v.toNat % 128 < 128 := Nat.mod_lt _ (by decide)
    have hlow : v.toNat % 128 * 2 ^ shift < 2 ^ 64 :=
      lt_of_le_of_lt (Nat.mul_le_mul_right _ (Nat.mod_le _ _)) hfits
    have hsum := or_low_bits hshift hvalue hlow
    have hsplit : v.toNat = v.toNat % 128 + v.toNat / 128 * 128 := by omega
    rw [Enc.varint_loop] at hpre ⊢
    simp only [low_bits] at hpre ⊢
    by_cases hzero : v >>> 7 = 0
    · rw [if_pos hzero] at hpre ⊢
      obtain ⟨d', hbyte, hpos⟩ := byte_reads hpre
      obtain ⟨hbits, hstop⟩ := last_byte _ hn
      have hsmall : v.toNat / 128 = 0 := by
        rw [← shifted_out, hzero]
        rfl
      refine ⟨_, d', ?_, hsum.trans ?_, hpos⟩
      · rw [varint_from_step hbyte _ _ _ (by rw [hbits]; exact within_last_bit hn hlow), hbits,
          if_pos hstop]
      · rw [show v.toNat % 128 = v.toNat by omega]
    · rw [if_neg hzero] at hpre ⊢
      obtain ⟨d', hbyte, hpos⟩ := byte_reads hpre
      obtain ⟨hbits, hstop⟩ := continued_byte _ hn
      have hlarge : v.toNat / 128 ≠ 0 := by
        intro h0
        rw [← shifted_out] at h0
        exact hzero (UInt64.toNat_inj.mp h0)
      have hpow : 2 ^ (shift + 7) = 128 * 2 ^ shift := by rw [Nat.pow_add]; ring
      have hnext : v.toNat / 128 * 2 ^ (shift + 7) < 2 ^ 64 := by
        refine lt_of_le_of_lt ?_ hfits
        rw [hpow, ← Nat.mul_assoc]
        exact Nat.mul_le_mul_right _ (Nat.div_mul_le_self _ _)
      have hroom : shift + 7 < 64 := by
        by_contra hover
        have hbig : 2 ^ 64 ≤ 2 ^ (shift + 7) := Nat.pow_le_pow_right (by decide) (not_lt.mp hover)
        have hone : 2 ^ (shift + 7) ≤ v.toNat / 128 * 2 ^ (shift + 7) :=
          Nat.le_mul_of_pos_left _ (Nat.pos_of_ne_zero hlarge)
        omega
      have hheld : (value ||| ((UInt8.ofNat (v.toNat % 128)).toUInt64 <<< UInt64.ofNat shift)).toNat
          < 2 ^ (shift + 7) := by
        rw [hsum, hpow]
        nlinarith [Nat.two_pow_pos shift]
      have hcons : [UInt8.ofNat (v.toNat % 128) ||| 0x80] ++ Enc.varint_loop steps (v >>> 7)
          <+: d.rest := hpre
      obtain ⟨w, d'', hloop, hw, hpos'⟩ := ih (shift + 7) _ (v >>> 7) d' (by omega) hroom hheld
        (by rwa [shifted_out]) (rest_after hcons hpos)
      refine ⟨w, d'', ?_, ?_, ?_⟩
      · rw [varint_from_step hbyte _ _ _ (by rw [hbits]; exact within_last_bit hn hlow), hbits,
          if_neg hstop, hloop]
      · rw [hw, hsum, shifted_out, hpow]
        nlinarith
      · rw [hpos', hpos, length_cons]
        omega

theorem varint_loop_length_pos (v : UInt64) : 0 < (Enc.varint_loop 10 v).length := by
  rw [Enc.varint_loop]
  split_ifs <;> simp

end Dec

/-- `read` finds `bytes` at its position, returns `w` and stops behind them. -/
def Reads {a : List UInt8} {α : Type} (read : Dec a → Option (α × Dec a)) (bytes : List UInt8)
    (w : α) : Prop :=
  ∀ d : Dec a, bytes <+: d.rest →
    ∃ d' : Dec a, read d = some (w, d') ∧ d'.pos = d.pos + bytes.length

namespace Reads

variable {a : List UInt8} {α β : Type} {read : Dec a → Option (α × Dec a)}
  {k : α → Dec a → Option (β × Dec a)}

theorem pure (w : α) : Reads (fun d : Dec a => some (w, d)) [] w := by
  intro d _
  exact ⟨d, rfl, rfl⟩

variable {x : α}

/-- Two reads, the second one told what the first one found. -/
theorem bind {front back : List UInt8} {y : β} (h : Reads read front x) (h' : Reads (k x) back y) :
    Reads (fun d => (read d).bind (fun r => k r.1 r.2)) (front ++ back) y := by
  intro d hpre
  obtain ⟨d₁, hread, hpos⟩ := h d ((prefix_append front back).trans hpre)
  obtain ⟨d₂, hnext, hpos'⟩ := h' d₁ (Dec.rest_after hpre hpos)
  refine ⟨d₂, ?_, ?_⟩
  · simp only [hread]
    exact hnext
  · rw [hpos', hpos, length_append]
    omega

variable {bytes : List UInt8}

theorem map (h : Reads read bytes x) (f : α → β) :
    Reads (fun d => (read d).map (fun r => (f r.1, r.2))) bytes (f x) := by
  intro d hpre
  obtain ⟨d', hread, hpos⟩ := h d hpre
  exact ⟨d', by simp only [hread, map_some], hpos⟩

theorem then_some (h : Reads read bytes x) (f : α → β) :
    Reads (fun d => (read d).bind (fun r => some (f r.1, r.2))) bytes (f x) := by
  intro d hpre
  obtain ⟨d', hread, hpos⟩ := h d hpre
  exact ⟨d', by simp only [hread, bind_some], hpos⟩

theorem varint (v : UInt64) : Reads (Dec.varint : Dec a → _) (Enc.varint_loop 10 v) v := by
  intro d hpre
  obtain ⟨w, d', hloop, hw, hpos⟩ := Dec.varint_from_reads 10 0 0 v d (by decide) (by decide)
    (by decide) (by have := v.toNat_lt; omega) hpre
  refine ⟨d', ?_, hpos⟩
  have hsame : w = v := by
    apply UInt64.toNat_inj.mp
    rw [hw, UInt64.toNat_zero]
    omega
  rw [← hsame]
  exact hloop

/-- A length is accepted when what it counts is still there. -/
theorem take_len {d : Dec a} {len : Nat} {back : List UInt8} (hword : len < 2 ^ 64)
    (hback : len ≤ back.length)
    (hpre : Enc.varint_loop 10 (UInt64.ofNat len) ++ back <+: d.rest) :
    ∃ d' : Dec a, d.take_len = some (len, d') ∧
      d'.pos = d.pos + (Enc.varint_loop 10 (UInt64.ofNat len)).length ∧ back <+: d'.rest := by
  obtain ⟨d', hvarint, hpos⟩ := varint (UInt64.ofNat len) d ((prefix_append _ back).trans hpre)
  have hrest : back <+: d'.rest := Dec.rest_after hpre hpos
  have hleft : back.length ≤ d'.remaining := by
    rw [← Dec.rest_length]
    exact hrest.length_le
  have hlen : (UInt64.ofNat len).toNat = len := by
    rw [toNat_ofNat', Nat.mod_eq_of_lt hword]
  refine ⟨d', ?_, hpos, hrest⟩
  unfold Dec.take_len
  rw [hvarint]
  simp only [bind_eq_bind, bind_some, hlen]
  rw [if_neg (by omega)]

theorem len_prefixed (hword : bytes.length < 2 ^ 64) :
    Reads (Dec.len_prefixed : Dec a → _)
      (Enc.varint_loop 10 (UInt64.ofNat bytes.length) ++ bytes) bytes := by
  intro d hpre
  obtain ⟨d₁, hlen, hpos, hrest⟩ := take_len hword le_rfl hpre
  obtain ⟨d₂, hraw, hpos'⟩ := Dec.raw_reads hrest
  refine ⟨d₂, ?_, ?_⟩
  · unfold Dec.len_prefixed
    rw [hlen]
    exact hraw
  · rw [hpos', hpos, length_append]
    omega

end Reads

/-! ## One pass counts what the other writes -/

theorem Enc.count_write_ok {limit : Nat} {put : Enc → Except Refuse Enc} {bytes out : List UInt8}
    (hput : ∀ e e', e.Fits → put e = .ok e' → e' = e.append bytes ∧ e'.Fits)
    (h : Enc.count_write limit put = .ok out) : out = bytes ∧ bytes.length ≤ limit := by
  unfold count_write at h
  cases hcount : put (count limit) with
  | error r => rw [hcount] at h; cases h
  | ok counting =>
    rw [hcount] at h
    obtain ⟨rfl, hfits⟩ := hput _ _ (count_fits limit) hcount
    cases hwrite : put (writer [] ((count limit).append bytes).counted) with
    | error r => simp only [bind, Except.bind, hwrite] at h; cases h
    | ok writing =>
      obtain ⟨rfl, -⟩ := hput _ _ (writer_fits _ _) hwrite
      simp only [bind, Except.bind, hwrite] at h
      refine ⟨?_, ?_⟩
      · simpa [finish_written, writer, append, Enc.out, count, counted] using h.symm
      · simpa [Enc.len, Enc.limit, count, append] using hfits.limit

end ottto_service.durable_tail_codec
