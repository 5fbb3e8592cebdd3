import Mathlib.Algebra.BigOperators.Intervals
import Mathlib.Algebra.BigOperators.Ring.Finset
import Mathlib.Algebra.Order.BigOperators.Group.Finset
import Mathlib.Data.BitVec

/-!
# The counters of free indexes

Indexes come in subgroups of 512, and subgroups in groups of 64. Each has a 16-bit counter of its indexes that are
not marked in the full map.
-/

namespace QuadStor.Bint

open List Function

structure FreeIndexes where
  full : Nat → Bool
  subgroup : Nat → BitVec 16
  group : Nat → BitVec 16

namespace FreeIndexes

/-- `group_incr_free_indexes`, `group_decr_free_indexes` and the counters of a new subgroup -/
def add (x : FreeIndexes) (s : Nat) (v : BitVec 16) : FreeIndexes :=
  { x with
    subgroup := update x.subgroup s (x.subgroup s + v)
    group := update x.group (s / 64) (x.group (s / 64) + v) }

def bintMarkIndexFull (x : FreeIndexes) (id : Nat) : FreeIndexes :=
  if x.full id then x else add { x with full := update x.full id true } (id / 512) (-1)

def bintUnmarkIndexFull (x : FreeIndexes) (id : Nat) : FreeIndexes :=
  if x.full id then add { x with full := update x.full id false } (id / 512) 1 else x

/-- The counter of a subgroup is zero once it is allocated, and that of a group before its first subgroup; a takeover
sets it to zero. -/
def reset (x : FreeIndexes) (s : Nat) : FreeIndexes :=
  { x with
    subgroup := update x.subgroup s 0
    group := if s % 64 = 0 then update x.group (s / 64) 0 else x.group }

variable (maxIndexes : Nat)

def subgroupMax (s : Nat) : Nat := min 512 (maxIndexes - 512 * s)

def subgroups : Nat := (maxIndexes + 511) / 512

def bintSubgroupLoadInit (s : Nat) (x : FreeIndexes) : FreeIndexes :=
  (List.range (subgroupMax maxIndexes s)).foldl (fun x i => if x.full (512 * s + i) then x else x.add s 1) x

/-- `bint_subgroup_new`; the indexes that `filled` names are filled with reserved blocks. -/
def bintSubgroupNew (filled : Nat → Bool) (s : Nat) (x : FreeIndexes) : FreeIndexes :=
  (List.range (subgroupMax maxIndexes s)).foldl
    (fun x i => if filled (512 * s + i) then x.bintMarkIndexFull (512 * s + i) else x) (x.add s (subgroupMax maxIndexes s))

/-- Every subgroup is counted anew, as it is when a disk is loaded. -/
def bintHaTakeover (x : FreeIndexes) : FreeIndexes :=
  (List.range (subgroups maxIndexes)).foldl (fun x s => bintSubgroupLoadInit maxIndexes s (x.reset s)) x

inductive Start where
  | create (filled : Nat → Bool)
  | load (full : Nat → Bool)

inductive Op where
  | mark (id : Fin maxIndexes)
  | unmark (id : Fin maxIndexes)
  /-- a free, which unmarks the index unless that was done before -/
  | free (id : Fin maxIndexes) (unmark : Bool)
  | takeover

def start : Start → FreeIndexes
  | .create filled =>
    (List.range (subgroups maxIndexes)).foldl (fun x s => bintSubgroupNew maxIndexes filled s (x.reset s))
      ⟨fun _ => false, 0, 0⟩
  | .load full => bintHaTakeover maxIndexes ⟨full, 0, 0⟩

def exec (x : FreeIndexes) : Op maxIndexes → FreeIndexes
  | .mark id => x.bintMarkIndexFull id
  | .unmark id => x.bintUnmarkIndexFull id
  | .free id unmark => if unmark then x.bintUnmarkIndexFull id else x
  | .takeover => x.bintHaTakeover maxIndexes

def clear (full : Nat → Bool) (s : Nat) : Nat :=
  ((Finset.range (subgroupMax maxIndexes s)).filter fun i => full (512 * s + i) = false).card

structure Counted (k : Nat) (x : FreeIndexes) : Prop where
  subgroup : ∀ s < k, x.subgroup s = clear maxIndexes x.full s
  group : ∀ g, 64 * g < k →
    x.group g = ∑ s ∈ Finset.Ico (64 * g) (min (64 * g + 64) k), (clear maxIndexes x.full s : BitVec 16)

variable {maxIndexes} {x : FreeIndexes} {k s id : Nat}

theorem natCast_clear (full : Nat → Bool) : (clear maxIndexes full s : BitVec 16) =
      ∑ i ∈ Finset.range (subgroupMax maxIndexes s), if full (512 * s + i) = false then 1 else 0 :=
  Finset.natCast_card_filter _ _

theorem sum_indexes (hid : id < maxIndexes) (d : BitVec 16) :
    (∑ i ∈ Finset.range (subgroupMax maxIndexes s), if 512 * s + i = id then d else 0) =
      if s = id / 512 then d else 0 := by
  split_ifs with hs
  · have hmem : id % 512 ∈ Finset.range (subgroupMax maxIndexes s) := by
      simp only [Finset.mem_range, subgroupMax]
      omega
    rw [Finset.sum_eq_single_of_mem _ hmem fun i _ hi => if_neg (by omega), if_pos (by omega)]
  · refine Finset.sum_eq_zero fun i hi => if_neg ?_
    simp only [Finset.mem_range, subgroupMax] at hi
    omega

theorem clear_update (hid : id < maxIndexes) (b : Bool) (hb : x.full id = !b) :
    (clear maxIndexes (update x.full id b) s : BitVec 16) =
      clear maxIndexes x.full s + if s = id / 512 then (if b then -1 else 1) else 0 := by
  rw [natCast_clear, natCast_clear, ← sum_indexes hid, ← Finset.sum_add_distrib]
  refine Finset.sum_congr rfl fun i _ => ?_
  by_cases hi : 512 * s + i = id
  · rw [hi]
    cases b <;> simp [hb]
  · simp [hi]

section

variable (h : Counted maxIndexes k x) (hid : id < maxIndexes) (hk : id / 512 < k)
include h hid hk

theorem Counted.update (b : Bool) (hb : x.full id = !b) :
    Counted maxIndexes k (add { x with full := update x.full id b } (id / 512) (if b then -1 else 1)) where
  subgroup s hs := by
    have hs := h.subgroup s hs
    simp only [add, clear_update hid b hb, update_apply]
    split_ifs with heq <;> simp_all
  group g hg := by
    have hmem : id / 512 ∈ Finset.Ico (64 * g) (min (64 * g + 64) k) ↔ g = id / 512 / 64 := by
      rw [Finset.mem_Ico]
      omega
    simp only [add, clear_update hid b hb, Finset.sum_add_distrib, ← h.group g hg, Finset.sum_ite_eq', hmem,
      update_apply]
    split_ifs with heq <;> simp [heq]

theorem Counted.mark : Counted maxIndexes k (x.bintMarkIndexFull id) := by
  unfold bintMarkIndexFull
  split_ifs with hfull
  · exact h
  · exact h.update hid hk true (Bool.eq_false_iff.mpr hfull)

theorem Counted.unmark : Counted maxIndexes k (x.bintUnmarkIndexFull id) := by
  unfold bintUnmarkIndexFull
  split_ifs with hfull
  · exact h.update hid hk false hfull
  · exact h

end

theorem Counted.succ (h : Counted maxIndexes k x) :
    Counted maxIndexes (k + 1) ((x.reset k).add k (clear maxIndexes x.full k)) where
  subgroup s hs := by
    by_cases heq : s = k
    · simp [add, reset, heq]
    · simpa [add, reset, heq] using h.subgroup s (by omega)
  group g hg := by
    by_cases heq : g = k / 64
    · have hsum : (x.reset k).group g = ∑ s ∈ Finset.Ico (64 * g) k, (clear maxIndexes x.full s : BitVec 16) := by
        by_cases hk : k % 64 = 0
        · rw [show 64 * g = k by omega, Finset.Ico_self]
          simp [reset, hk, heq]
        · simpa [reset, hk, show min (64 * g + 64) k = k by omega] using h.group g (by omega)
      rw [show min (64 * g + 64) (k + 1) = k + 1 by omega, Finset.sum_Ico_succ_top (by omega)]
      simp only [add, heq, update_self] at hsum ⊢
      rw [hsum]
      rfl
    · have hreset : (x.reset k).group g = x.group g := by
        simp only [reset]
        split_ifs
        · exact update_of_ne heq _ _
        · rfl
      rw [show min (64 * g + 64) (k + 1) = min (64 * g + 64) k by omega]
      simp only [add, update_of_ne heq, hreset]
      exact h.group g (by omega)

theorem add_add (v w : BitVec 16) : (x.add s v).add s w = x.add s (v + w) := by
  simp [add, BitVec.add_assoc]

theorem bintSubgroupLoadInit_eq : bintSubgroupLoadInit maxIndexes s x = x.add s (clear maxIndexes x.full s) := by
  rw [natCast_clear, bintSubgroupLoadInit]
  generalize subgroupMax maxIndexes s = n
  induction n with
  | zero => simp [add]
  | succ n ih =>
    rw [range_succ, foldl_append, ih, Finset.sum_range_succ, ← add_add, foldl_cons, foldl_nil]
    cases h : x.full (512 * s + n) <;> simp [add, h]

theorem Counted.takeover : Counted maxIndexes (subgroups maxIndexes) (x.bintHaTakeover maxIndexes) := by
  unfold bintHaTakeover
  generalize subgroups maxIndexes = k
  induction k with
  | zero => exact ⟨nofun, nofun⟩
  | succ k ih =>
    rw [range_succ, foldl_append, foldl_cons, foldl_nil, bintSubgroupLoadInit_eq]
    exact ih.succ

theorem full_bintMarkIndexFull {id' : Nat} (hne : id' ≠ id) : (x.bintMarkIndexFull id).full id' = x.full id' := by
  unfold bintMarkIndexFull
  split_ifs
  · rfl
  · exact update_of_ne hne _ _

theorem counted_create (filled : Nat → Bool) (k : Nat) :
    let x := (List.range k).foldl (fun x s => bintSubgroupNew maxIndexes filled s (x.reset s)) ⟨fun _ => false, 0, 0⟩
    Counted maxIndexes k x ∧ ∀ id, k ≤ id / 512 → x.full id = false := by
  induction k with
  | zero => exact ⟨⟨nofun, nofun⟩, fun _ _ => rfl⟩
  | succ k ih =>
    simp only [range_succ, foldl_append, foldl_cons, foldl_nil]
    generalize (List.range k).foldl _ _ = x at ih ⊢
    obtain ⟨hcounted, hfull⟩ := ih
    have hclear : clear maxIndexes x.full k = subgroupMax maxIndexes k := by
      rw [clear, Finset.filter_true_of_mem fun i _ => hfull _ (by omega), Finset.card_range]
    refine foldlRecOn (motive := fun y => Counted maxIndexes (k + 1) y ∧ ∀ id, k + 1 ≤ id / 512 → y.full id = false)
      _ _ ⟨hclear ▸ hcounted.succ, fun id hid => hfull id (by omega)⟩ fun y hy i hi => ?_
    rw [mem_range, subgroupMax] at hi
    split_ifs
    · exact ⟨hy.1.mark (by omega) (by omega), fun id hid => (full_bintMarkIndexFull (by omega)).trans (hy.2 id hid)⟩
    · exact hy

theorem subgroup_lt (hid : id < maxIndexes) : id / 512 < subgroups maxIndexes := by
  unfold subgroups
  omega

theorem Counted.exec (h : Counted maxIndexes (subgroups maxIndexes) x) (op : Op maxIndexes) :
    Counted maxIndexes (subgroups maxIndexes) (x.exec maxIndexes op) := by
  cases op with
  | mark id => exact h.mark id.2 (subgroup_lt id.2)
  | unmark id => exact h.unmark id.2 (subgroup_lt id.2)
  | free id unmark =>
    cases unmark with
    | true => exact h.unmark id.2 (subgroup_lt id.2)
    | false => exact h
  | takeover => exact .takeover

theorem counted_run (a : Start) (ops : List (Op maxIndexes)) :
    Counted maxIndexes (subgroups maxIndexes) (ops.foldl (exec maxIndexes) (start maxIndexes a)) := by
  refine foldlRecOn _ _ ?_ fun x h op _ => h.exec op
  cases a with
  | create filled => exact (counted_create filled _).1
  | load full => exact .takeover

theorem clear_le (full : Nat → Bool) (s : Nat) : clear maxIndexes full s ≤ 512 :=
  (Finset.card_filter_le _ _).trans (by simp [subgroupMax])

theorem toNat_of_eq {v : BitVec 16} {n : Nat} (h : v = n) (hn : n < 2 ^ 16) : v.toNat = n := by
  rw [h]
  exact Nat.mod_eq_of_lt hn

/-- After any operations on a disk that was created or loaded, a subgroup's counter is the number of its unmarked
indexes, and a group's the sum over its subgroups. -/
theorem free_indexes_exact (maxIndexes : Nat) (a : Start) (ops : List (Op maxIndexes)) :
    let x := ops.foldl (exec maxIndexes) (start maxIndexes a)
    (∀ s < subgroups maxIndexes, (x.subgroup s).toNat = clear maxIndexes x.full s) ∧
      ∀ g, 64 * g < subgroups maxIndexes → (x.group g).toNat =
        ∑ s ∈ Finset.Ico (64 * g) (min (64 * g + 64) (subgroups maxIndexes)), (x.subgroup s).toNat := by
  have hcounted := counted_run a ops
  intro x
  have hsub : ∀ s < subgroups maxIndexes, (x.subgroup s).toNat = clear maxIndexes x.full s := fun s hs =>
    toNat_of_eq (hcounted.subgroup s hs) ((clear_le _ _).trans_lt (by decide))
  refine ⟨hsub, fun g hg => ?_⟩
  -- a group has at most 64 times 512 indexes, which 16 bits can count
  have hsum : ∑ s ∈ Finset.Ico (64 * g) (min (64 * g + 64) (subgroups maxIndexes)), clear maxIndexes x.full s ≤
      64 * 512 := by
    refine (Finset.sum_le_sum fun s _ => clear_le x.full s).trans ?_
    rw [Finset.sum_const_nat (m := 512) fun _ _ => rfl, Nat.card_Ico]
    exact Nat.mul_le_mul_right _ (by omega)
  rw [Finset.sum_congr rfl fun s hs => hsub s (by simp at hs; omega)]
  refine toNat_of_eq ?_ (hsum.trans_lt (by decide))
  rw [hcounted.group g hg, Nat.cast_sum]

end FreeIndexes
end QuadStor.Bint
