-- The checked and saturating arithmetic of Rust's unsigned words, with the
-- value of each result as a natural number. Nothing here is about one
-- program.
import Mathlib.Tactic

namespace Words

open Option

/-! ## `u64` -/

/-- `u64::MAX`. -/
def u64Max : UInt64 := 18446744073709551615

def checked_add (a b : UInt64) : Option UInt64 :=
  if a.toNat + b.toNat < 2 ^ 64 then some (a + b) else none

def saturating_add (a b : UInt64) : UInt64 :=
  if a.toNat + b.toNat < 2 ^ 64 then a + b else u64Max

def saturating_sub (a b : UInt64) : UInt64 :=
  if b.toNat ≤ a.toNat then a - b else 0

variable {a b : UInt64}

theorem toNat_add_of_lt (h : a.toNat + b.toNat < 2 ^ 64) :
    (a + b).toNat = a.toNat + b.toNat := by
  rw [UInt64.toNat_add, Nat.mod_eq_of_lt h]

theorem toNat_sub_of_le (h : b.toNat ≤ a.toNat) :
    (a - b).toNat = a.toNat - b.toNat :=
  UInt64.toNat_sub_of_le a b (UInt64.le_iff_toNat_le.mpr h)

theorem checked_add_of_lt (h : a.toNat + b.toNat < 2 ^ 64) :
    checked_add a b = some (a + b) := if_pos h

theorem checked_add_of_not_lt (h : ¬ a.toNat + b.toNat < 2 ^ 64) :
    checked_add a b = none := if_neg h

@[simp] theorem u64Max_toNat : u64Max.toNat = 2 ^ 64 - 1 := rfl

theorem saturating_add_toNat (a b : UInt64) :
    (saturating_add a b).toNat = min (a.toNat + b.toNat) (2 ^ 64 - 1) := by
  unfold saturating_add
  split
  · rename_i h
    rw [toNat_add_of_lt h]
    omega
  · rw [u64Max_toNat]
    omega

theorem saturating_sub_toNat (a b : UInt64) :
    (saturating_sub a b).toNat = a.toNat - b.toNat := by
  unfold saturating_sub
  split
  · rename_i h
    exact toNat_sub_of_le h
  · rename_i h
    simp only [UInt64.toNat_zero]
    omega

theorem max_toNat (a b : UInt64) : (max a b).toNat = max a.toNat b.toNat := by
  change (if a ≤ b then b else a).toNat = _
  split
  · rename_i h
    rw [max_eq_right (UInt64.le_iff_toNat_le.mp h)]
  · rename_i h
    rw [max_eq_left (Nat.le_of_not_le (mt UInt64.le_iff_toNat_le.mpr h))]

theorem or_and_distrib_right (a b c : UInt64) : (a ||| b) &&& c = (a &&& c) ||| (b &&& c) := by
  rw [← UInt64.toBitVec_inj]
  ext i
  simp [Bool.and_or_distrib_right]

/-! ## `u128` -/

def checked_add128 (a b : BitVec 128) : Option (BitVec 128) :=
  if a.toNat + b.toNat < 2 ^ 128 then some (a + b) else none

theorem checked_add128_comm (a b : BitVec 128) : checked_add128 a b = checked_add128 b a := by
  unfold checked_add128
  rw [Nat.add_comm, BitVec.add_comm]

theorem toNat_add128_of_lt {a b : BitVec 128} (h : a.toNat + b.toNat < 2 ^ 128) :
    (a + b).toNat = a.toNat + b.toNat := by
  rw [BitVec.toNat_add, Nat.mod_eq_of_lt h]

/-- A sum of three that overflows at either bracket overflows at the other. -/
theorem checked_add128_assoc (a b c : BitVec 128) :
    (checked_add128 a b).bind (checked_add128 · c) =
      (checked_add128 b c).bind (checked_add128 a ·) := by
  unfold checked_add128
  by_cases hab : a.toNat + b.toNat < 2 ^ 128
  · by_cases hbc : b.toNat + c.toNat < 2 ^ 128
    · simp only [hab, hbc, if_true, bind_some, toNat_add128_of_lt hab,
        toNat_add128_of_lt hbc, BitVec.add_assoc, Nat.add_assoc]
    · simp only [hab, hbc, if_true, if_false, bind_some, bind_none,
        toNat_add128_of_lt hab, ite_eq_right_iff, reduceCtorEq, imp_false]
      omega
  · by_cases hbc : b.toNat + c.toNat < 2 ^ 128
    · simp only [hab, hbc, if_true, if_false, bind_some, bind_none,
        toNat_add128_of_lt hbc]
      rw [if_neg (by omega)]
    · simp only [hab, hbc, if_false, bind_none]

end Words
