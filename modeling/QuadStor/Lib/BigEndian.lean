import Mathlib.Algebra.Order.Ring.Nat
import Mathlib.Data.UInt

/-!
# Numbers in big-endian bytes
-/

namespace QuadStor.Lib

open List

/-- `htobe16`, `htobe32` and `htobe64`, by the number of bytes -/
def toBytes : Nat → Nat → List UInt8
  | 0, _ => []
  | width + 1, n => toBytes width (n / 256) ++ [UInt8.ofNat n]

def ofBytes (bytes : List UInt8) : Nat := bytes.foldl (fun n b => n * 256 + b.toNat) 0

@[simp] theorem length_toBytes (width n : Nat) : (toBytes width n).length = width := by
  induction width generalizing n with
  | zero => rfl
  | succ width ih => simp [toBytes, ih]

theorem ofBytes_toBytes (width n : Nat) : ofBytes (toBytes width n) = n % 256 ^ width := by
  induction width generalizing n with
  | zero => simp [toBytes, ofBytes, Nat.mod_one]
  | succ width ih =>
    have hlast : ofBytes (toBytes width (n / 256) ++ [UInt8.ofNat n]) =
        ofBytes (toBytes width (n / 256)) * 256 + n % 256 := by
      simp [ofBytes]
    rw [toBytes, hlast, ih, Nat.pow_succ', Nat.mod_mul, Nat.mul_comm, Nat.add_comm]

theorem toBytes_eq_iff {width m n : Nat} : toBytes width m = toBytes width n ↔ m % 256 ^ width = n % 256 ^ width := by
  constructor
  · intro h
    rw [← ofBytes_toBytes, h, ofBytes_toBytes]
  · induction width generalizing m n with
    | zero => intro _; rfl
    | succ width ih =>
      intro h
      rw [Nat.pow_succ', Nat.mod_mul, Nat.mod_mul] at h
      have hlow : m % 256 = n % 256 := by omega
      rw [toBytes, toBytes, ih (m := m / 256) (n := n / 256) (by omega)]
      congr 2
      rw [← UInt8.toNat_inj]
      simpa using hlow

theorem ofBytes_append_singleton (bytes : List UInt8) (b : UInt8) :
    ofBytes (bytes ++ [b]) = ofBytes bytes * 256 + b.toNat := by
  simp [ofBytes]

theorem toBytes_ofBytes (bytes : List UInt8) : toBytes bytes.length (ofBytes bytes) = bytes := by
  induction bytes using reverseRecOn with
  | nil => rfl
  | append_singleton bytes b ih =>
    have hb := b.toNat_lt
    have hquot : (ofBytes bytes * 256 + b.toNat) / 256 = ofBytes bytes := by omega
    have hlast : UInt8.ofNat (ofBytes bytes * 256 + b.toNat) = b := by
      rw [← UInt8.toNat_inj, UInt8.toNat_ofNat']
      omega
    rw [length_append, length_singleton, ofBytes_append_singleton, toBytes, hquot, hlast, ih]

theorem ofBytes_lt (bytes : List UInt8) : ofBytes bytes < 256 ^ bytes.length := by
  induction bytes using reverseRecOn with
  | nil => simp [ofBytes]
  | append_singleton bytes b ih =>
    have hb := b.toNat_lt
    rw [ofBytes_append_singleton, length_append, length_singleton, Nat.pow_succ]
    omega

/-- A number that is small for its width has zeros in front. -/
theorem toBytes_add_of_lt {width n : Nat} (h : n < 256 ^ width) (k : Nat) :
    toBytes (k + width) n = List.replicate k 0 ++ toBytes width n := by
  induction width generalizing n with
  | zero =>
    obtain rfl : n = 0 := by simpa using h
    induction k with
    | zero => rfl
    | succ k ih =>
      rw [Nat.add_zero] at ih
      simp [toBytes, ih, replicate_succ']
  | succ width ih =>
    rw [← Nat.add_assoc, toBytes, ih (n := n / 256) (by omega), toBytes, append_assoc]

/-- An unsigned integer of `width` bytes as the host keeps it in memory -/
def hostBytes (width n : Nat) : List UInt8 := (toBytes width n).reverse

/-- `htobe16`, `htobe32` and `htobe64` as the numbers the host computes with -/
def htobe (width n : Nat) : Nat := ofBytes (hostBytes width n)

@[simp] theorem length_hostBytes (width n : Nat) : (hostBytes width n).length = width := by
  simp [hostBytes]

/-- A swapped number in a field that is `k` bytes wider than it -/
theorem hostBytes_htobe_add (k width n : Nat) :
    hostBytes (k + width) (htobe width n) = toBytes width n ++ List.replicate k 0 := by
  have hlt : htobe width n < 256 ^ width := by simpa [htobe] using ofBytes_lt (hostBytes width n)
  have hback : toBytes width (htobe width n) = hostBytes width n := by
    simpa [htobe] using toBytes_ofBytes (hostBytes width n)
  rw [hostBytes, toBytes_add_of_lt hlt, hback]
  simp [hostBytes]

@[simp] theorem hostBytes_htobe (width n : Nat) : hostBytes width (htobe width n) = toBytes width n := by
  simpa using hostBytes_htobe_add 0 width n

theorem ofBytes_append_zeros (bytes : List UInt8) (k : Nat) :
    ofBytes (bytes ++ List.replicate k 0) = ofBytes bytes * 256 ^ k := by
  induction k with
  | zero => simp
  | succ k ih =>
    rw [replicate_succ', ← append_assoc, ofBytes_append_singleton, ih, Nat.pow_succ, Nat.mul_assoc]
    simp

end QuadStor.Lib
