import Mathlib.Algebra.Order.Ring.Nat

/-!
# Two fields in one word

A word is put together from a low field of `n` bits and a high field above it, and taken apart with a mask
and a shift.
-/

namespace QuadStor.Lib.Fields

variable {w n m : Nat} {lo hi x : BitVec w}

def join (n : Nat) (lo hi : BitVec w) : BitVec w := lo ||| hi <<< n

theorem toNat_join (hlo : lo.toNat < 2 ^ n) (hhi : hi.toNat * 2 ^ n < 2 ^ w) :
    (join n lo hi).toNat = hi.toNat * 2 ^ n + lo.toNat := by
  rw [join, BitVec.toNat_or, BitVec.toNat_shiftLeft, Nat.shiftLeft_eq, Nat.mod_eq_of_lt hhi, Nat.mul_comm, Nat.or_comm]
  exact (Nat.two_pow_add_eq_or_of_lt hlo _).symm

theorem toNat_and_mask (hn : n ≤ w) : (x &&& BitVec.ofNat w (2 ^ n - 1)).toNat = x.toNat % 2 ^ n := by
  have hpos : 0 < 2 ^ n := Nat.two_pow_pos n
  have hpow : 2 ^ n ≤ 2 ^ w := Nat.pow_le_pow_right (by decide) hn
  rw [BitVec.toNat_and, BitVec.toNat_ofNat, Nat.mod_eq_of_lt (by omega), Nat.and_two_pow_sub_one_eq_mod]

theorem join_and_mask (hn : n ≤ w) (hlo : lo.toNat < 2 ^ n) (hhi : hi.toNat * 2 ^ n < 2 ^ w) :
    join n lo hi &&& BitVec.ofNat w (2 ^ n - 1) = lo := by
  apply BitVec.eq_of_toNat_eq
  rw [toNat_and_mask hn, toNat_join hlo hhi, Nat.add_comm, Nat.add_mul_mod_self_right, Nat.mod_eq_of_lt hlo]

theorem join_ushiftRight (hlo : lo.toNat < 2 ^ n) (hhi : hi.toNat * 2 ^ n < 2 ^ w) : join n lo hi >>> n = hi := by
  apply BitVec.eq_of_toNat_eq
  rw [BitVec.toNat_ushiftRight, Nat.shiftRight_eq_div_pow, toNat_join hlo hhi, Nat.add_comm,
    Nat.add_mul_div_right _ _ (Nat.two_pow_pos n), Nat.div_eq_of_lt hlo, Nat.zero_add]

theorem join_and_mask_ushiftRight (hn : n ≤ w) : join n (x &&& BitVec.ofNat w (2 ^ n - 1)) (x >>> n) = x := by
  have hlo : (x &&& BitVec.ofNat w (2 ^ n - 1)).toNat < 2 ^ n := by
    rw [toNat_and_mask hn]
    exact Nat.mod_lt _ (Nat.two_pow_pos n)
  have hhi : (x >>> n).toNat * 2 ^ n < 2 ^ w := by
    rw [BitVec.toNat_ushiftRight, Nat.shiftRight_eq_div_pow]
    exact Nat.lt_of_le_of_lt (Nat.div_mul_le_self _ _) x.isLt
  apply BitVec.eq_of_toNat_eq
  rw [toNat_join hlo hhi, toNat_and_mask hn, BitVec.toNat_ushiftRight, Nat.shiftRight_eq_div_pow]
  exact Nat.div_add_mod' _ _

theorem setWidth_setWidth (hx : x.toNat < 2 ^ m) : (x.setWidth m).setWidth w = x := by
  apply BitVec.eq_of_toNat_eq
  rw [BitVec.toNat_setWidth, BitVec.toNat_setWidth, Nat.mod_eq_of_lt hx, Nat.mod_eq_of_lt x.isLt]

theorem toNat_setWidth_lt (y : BitVec m) : (y.setWidth w).toNat < 2 ^ m := by
  rw [BitVec.toNat_setWidth]
  exact Nat.lt_of_le_of_lt (Nat.mod_le _ _) y.isLt

theorem setWidth_ne_zero {y : BitVec m} (hm : m ≤ w) (hy : y ≠ 0) : y.setWidth w ≠ 0 := by
  intro h
  apply hy
  apply BitVec.eq_of_toNat_eq
  rw [← BitVec.toNat_setWidth_of_le (b := y) hm, h]
  rfl

end QuadStor.Lib.Fields
