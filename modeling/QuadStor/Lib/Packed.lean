import Mathlib.Logic.Function.Basic
import Mathlib.Tactic.SplitIfs

/-!
# Fields of one width in an array of words

Fields of `width` bits are laid out one after the other in words of 64 bits, so that a field can go over the end of a
word.
-/

namespace QuadStor.Lib.Packed

open Function

abbrev Words := Nat → BitVec 64

def bit (words : Words) (k : Nat) : Bool := (words (k / 64)).getLsbD (k % 64)

def mask (n : Nat) : BitVec 64 := (1#64 <<< n) - 1#64

def get (width : Nat) (words : Words) (ix : Nat) : BitVec 64 :=
  let bits := ix * width
  let idx := bits / 64
  let offset := bits % 64
  let v := words idx >>> offset
  if offset ≠ 0 ∧ 64 < offset + width then
    let vbits := 64 - offset
    let v := v &&& mask vbits
    let v1 := words (idx + 1) &&& mask (width - (64 - offset))
    v ||| (v1 <<< vbits)
  else v &&& mask width

def set (width : Nat) (words : Words) (ix : Nat) (val : BitVec 64) : Words :=
  let bits := ix * width
  let idx := bits / 64
  let offset := bits % 64
  if offset ≠ 0 ∧ 64 < offset + width then
    let vbits := 64 - offset
    let v := (words idx &&& ~~~(mask vbits <<< offset)) ||| ((val &&& mask vbits) <<< offset)
    let v1 := (words (idx + 1) &&& ~~~mask (width - (64 - offset))) ||| (val >>> vbits)
    update (update words (idx + 1) v1) idx v
  else
    update words idx ((words idx &&& ~~~(mask width <<< offset)) ||| (val <<< offset))

variable {width ix jx k t n : Nat} {words : Words} {val : BitVec 64}

theorem getLsbD_mask (hn : n < 64) (i : Nat) : (mask n).getLsbD i = decide (i < n) := by
  have hpow : 2 ^ n < 2 ^ 64 := Nat.pow_lt_pow_right (by decide) hn
  have hpos : 0 < 2 ^ n := Nat.two_pow_pos n
  have hnat : (mask n).toNat = 2 ^ n - 1 := by
    simp only [mask, BitVec.toNat_sub, BitVec.toNat_shiftLeft, BitVec.toNat_ofNat, Nat.shiftLeft_eq]
    omega
  rw [BitVec.getLsbD, hnat, Nat.testBit_two_pow_sub_one]

def Fits (width : Nat) (val : BitVec 64) : Prop := ∀ t, width ≤ t → val.getLsbD t = false

theorem bit_low (h : k % 64 + t < 64) : bit words (k + t) = (words (k / 64)).getLsbD (k % 64 + t) := by
  have hdiv : (k + t) / 64 = k / 64 := by omega
  have hmod : (k + t) % 64 = k % 64 + t := by omega
  rw [bit, hdiv, hmod]

theorem bit_high (h : 64 ≤ k % 64 + t) (ht : t < 64) :
    bit words (k + t) = (words (k / 64 + 1)).getLsbD (k % 64 + t - 64) := by
  have hdiv : (k + t) / 64 = k / 64 + 1 := by omega
  have hmod : (k + t) % 64 = k % 64 + t - 64 := by omega
  rw [bit, hdiv, hmod]

theorem getLsbD_get (hwidth : width < 64) (ht : t < 64) :
    (get width words ix).getLsbD t = (decide (t < width) && bit words (ix * width + t)) := by
  simp only [get]
  split_ifs with hover
  · simp only [BitVec.getLsbD_or, BitVec.getLsbD_and, BitVec.getLsbD_shiftLeft, BitVec.getLsbD_ushiftRight,
      getLsbD_mask (show 64 - ix * width % 64 < 64 by omega),
      getLsbD_mask (show width - (64 - ix * width % 64) < 64 by omega), decide_eq_true ht, Bool.true_and]
    by_cases hlow : t < 64 - ix * width % 64
    · rw [bit_low (by omega)]
      simp [hlow, show t < width by omega]
    · rw [bit_high (by omega) ht, show ix * width % 64 + t - 64 = t - (64 - ix * width % 64) by omega]
      have hiff : t - (64 - ix * width % 64) < width - (64 - ix * width % 64) ↔ t < width := by omega
      simp [hlow, hiff, Bool.and_comm]
  · simp only [BitVec.getLsbD_and, BitVec.getLsbD_ushiftRight, getLsbD_mask hwidth]
    by_cases hlt : t < width
    · rw [bit_low (by omega), Bool.and_comm]
    · simp [hlt]

theorem getLsbD_replace {off b : Nat} {old v : BitVec 64} (hn : n < 64) (hv : Fits n v) (hb : b < 64) :
    ((old &&& ~~~(mask n <<< off)) ||| (v <<< off)).getLsbD b =
      if off ≤ b ∧ b < off + n then v.getLsbD (b - off) else old.getLsbD b := by
  simp only [BitVec.getLsbD_or, BitVec.getLsbD_and, BitVec.getLsbD_not, BitVec.getLsbD_shiftLeft, getLsbD_mask hn,
    decide_eq_true hb, Bool.true_and]
  by_cases hoff : b < off
  · rw [if_neg (by omega)]
    simp [hoff]
  · by_cases hin : b - off < n
    · rw [if_pos (by omega)]
      simp [hoff, hin]
    · rw [if_neg (by omega), hv (b - off) (Nat.not_lt.mp hin)]
      simp [hoff, hin]

theorem fits_and_mask (hn : n < 64) : Fits n (val &&& mask n) := by
  intro t ht
  rw [BitVec.getLsbD_and, getLsbD_mask hn, decide_eq_false (Nat.not_lt.mpr ht), Bool.and_false]

theorem Fits.ushiftRight (h : Fits width val) : Fits (width - n) (val >>> n) := by
  intro t ht
  rw [BitVec.getLsbD_ushiftRight]
  exact h _ (by omega)

section

variable (hwidth : width < 64) (hval : Fits width val)
include hwidth hval

theorem bit_set : bit (set width words ix val) k =
      if ix * width ≤ k ∧ k < ix * width + width then val.getLsbD (k - ix * width) else bit words k := by
  have hk : k % 64 < 64 := Nat.mod_lt _ (by decide)
  simp only [set]
  generalize ix * width = n
  by_cases hover : n % 64 ≠ 0 ∧ 64 < n % 64 + width
  · -- the field goes on in the next word
    obtain ⟨hne, hgt⟩ := hover
    have hlow : 64 - n % 64 < 64 := by omega
    have hhigh : width - (64 - n % 64) < 64 := by omega
    rw [if_pos ⟨hne, hgt⟩]
    by_cases hidx : k / 64 = n / 64
    · rw [bit, hidx, update_self, getLsbD_replace hlow (fits_and_mask hlow) hk]
      by_cases hin : n ≤ k ∧ k < n + width
      · rw [if_pos (by omega), if_pos hin, BitVec.getLsbD_and, getLsbD_mask hlow, decide_eq_true (by omega),
          Bool.and_true, show k % 64 - n % 64 = k - n by omega]
      · rw [if_neg (by omega), if_neg hin, bit, hidx]
    · by_cases hnext : k / 64 = n / 64 + 1
      · have hreplace : ((words (n / 64 + 1) &&& ~~~(mask (width - (64 - n % 64)) <<< 0)) |||
            ((val >>> (64 - n % 64)) <<< 0)).getLsbD (k % 64) = _ := getLsbD_replace hhigh hval.ushiftRight hk
        rw [BitVec.shiftLeft_zero, BitVec.shiftLeft_zero] at hreplace
        rw [bit, hnext, update_of_ne (by omega), update_self, hreplace]
        by_cases hin : n ≤ k ∧ k < n + width
        · rw [if_pos (by omega), if_pos hin, BitVec.getLsbD_ushiftRight,
            show 64 - n % 64 + (k % 64 - 0) = k - n by omega]
        · rw [if_neg (by omega), if_neg hin, bit, hnext]
      · rw [bit, update_of_ne hidx, update_of_ne hnext, if_neg (by omega), bit]
  · rw [if_neg hover]
    by_cases hidx : k / 64 = n / 64
    · rw [bit, hidx, update_self, getLsbD_replace hwidth hval hk]
      by_cases hin : n ≤ k ∧ k < n + width
      · rw [if_pos (by omega), if_pos hin, show k % 64 - n % 64 = k - n by omega]
      · rw [if_neg (by omega), if_neg hin, bit, hidx]
    · rw [bit, update_of_ne hidx, if_neg (by omega), bit]

theorem get_set_self : get width (set width words ix val) ix = val := by
  refine BitVec.eq_of_getLsbD_eq fun t ht => ?_
  rw [getLsbD_get hwidth ht, bit_set hwidth hval]
  by_cases hlt : t < width
  · rw [if_pos ⟨Nat.le_add_right _ _, Nat.add_lt_add_left hlt _⟩, Nat.add_sub_cancel_left, decide_eq_true hlt,
      Bool.true_and]
  · rw [decide_eq_false hlt, Bool.false_and, hval t (Nat.not_lt.mp hlt)]

theorem get_set_ne (hne : jx ≠ ix) : get width (set width words ix val) jx = get width words jx := by
  refine BitVec.eq_of_getLsbD_eq fun t ht => ?_
  rw [getLsbD_get hwidth ht, getLsbD_get hwidth ht, bit_set hwidth hval]
  by_cases hlt : t < width
  · rw [if_neg]
    rintro ⟨hle, hup⟩
    obtain hlow | hhigh := Nat.lt_or_gt_of_ne hne
    · have := Nat.mul_le_mul_right width (Nat.succ_le_of_lt hlow)
      rw [Nat.succ_mul] at this
      omega
    · have := Nat.mul_le_mul_right width (Nat.succ_le_of_lt hhigh)
      rw [Nat.succ_mul] at this
      omega
  · rw [decide_eq_false hlt, Bool.false_and, Bool.false_and]

end

theorem bit_word (ht : t < 64) : bit words (64 * k + t) = (words k).getLsbD t := by
  have hdiv : (64 * k + t) / 64 = k := by omega
  have hmod : (64 * k + t) % 64 = t := by omega
  rw [bit, hdiv, hmod]

theorem set_above (hwidth : width < 64) (hval : Fits width val) (h : ix * width + width ≤ 64 * k) :
    set width words ix val k = words k := by
  refine BitVec.eq_of_getLsbD_eq fun t ht => ?_
  rw [← bit_word ht, ← bit_word ht, bit_set hwidth hval, if_neg (by omega)]

theorem get_congr {words' : Words} (hwidth : width < 64) (h : ix * width + width ≤ 64 * k)
    (hwords : ∀ i, i < k → words' i = words i) : get width words' ix = get width words ix := by
  refine BitVec.eq_of_getLsbD_eq fun t ht => ?_
  rw [getLsbD_get hwidth ht, getLsbD_get hwidth ht]
  by_cases hlt : t < width
  · rw [bit, bit, hwords _ (by omega)]
  · rw [decide_eq_false hlt, Bool.false_and, Bool.false_and]

end QuadStor.Lib.Packed
