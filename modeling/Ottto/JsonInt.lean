-- An `i64` as a JSON number: what is written is read back.
import Ottto.LedgerOwners

namespace ottto_service.claude_request_identity.accepted

open serde_json

def of_i64 (n : Int64) : Value :=
  if 0 ≤ n.toInt then .number (.PosInt n.toUInt64) else .number (.NegInt n)

def read_i64 (value : Value) : Option Int64 :=
  match value with
  | .number n => n.as_i64
  | _ => none

theorem toUInt64_toNat (n : Int64) (h : 0 ≤ n.toInt) : (n.toUInt64.toNat : Int) = n.toInt := by
  have hbits : n.toUInt64.toNat = n.toBitVec.toNat := rfl
  have hint : n.toInt = n.toBitVec.toInt := rfl
  rw [hbits, hint, BitVec.toInt_eq_toNat_of_msb]
  rw [hint] at h
  exact BitVec.msb_eq_false_iff_two_mul_lt.mpr (by
    have := BitVec.toInt_eq_toNat_cond n.toBitVec
    have hlt := n.toBitVec.isLt
    split_ifs at this <;> omega)

theorem read_of_i64 (n : Int64) : read_i64 (of_i64 n) = some n := by
  unfold of_i64
  split_ifs with h
  · have hn := toUInt64_toNat n h
    have hlt := Int64.toInt_lt n
    simp only [read_i64, Number.as_i64]
    rw [if_pos (by omega)]
    apply congrArg some
    apply Int64.toInt_inj.mp
    rw [Int64.toInt_ofNat_of_lt (by omega)]
    exact hn
  · rfl

end ottto_service.claude_request_identity.accepted
