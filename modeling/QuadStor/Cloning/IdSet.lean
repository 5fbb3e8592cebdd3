import QuadStor.Cloning.Bitmaps
import Mathlib.Data.List.Induction

/-!
# The bitmaps as a set of map ids
-/

namespace QuadStor.Cloning

open List Function

inductive BitOp where
  | set (n : Nat)
  | test (n : Nat)
deriving DecidableEq, Repr

def BitOp.id : BitOp → Nat
  | .set n => n
  | .test n => n

def Bitmaps.apply (b : Bitmaps) : BitOp → Bitmaps
  | .set n => (b.locate n).1.setBit (b.locate n).2 n
  | .test n => (b.locate n).1

def Bitmaps.test (b : Bitmaps) (n : Nat) : Bool := (b.locate n).1.bitIsSet (b.locate n).2 n

def bitmapsAfter (ops : List BitOp) : Bitmaps := ops.foldl Bitmaps.apply .empty

structure ActsAsSet (ops : List BitOp) (n : Nat) : Prop where
  test : (bitmapsAfter ops).test n = true ↔ .set n ∈ ops
  apart : ∀ m < 2 ^ 32, amapBitmapGroupOffset n = amapBitmapGroupOffset m →
    amapToBitmapOffset n = amapToBitmapOffset m → n = m
  once : (∃ bmap, (bitmapsAfter ops).Has n bmap) → ((bitmapsAfter ops).locate n).1 = bitmapsAfter ops

/-- No offset is below the one that is located first in its group. -/
def FirstIsLeast (ops : List BitOp) : Prop :=
  ∀ op ∈ ops, ∀ first ∈ ops.find? (groupId ·.id = groupId op.id),
    amapBitmapGroupOffset first.id ≤ amapBitmapGroupOffset op.id

structure Tracks (ops : List BitOp) (b : Bitmaps) : Prop where
  has : ∀ op ∈ ops, ∃ bmap, b.Has op.id bmap
  first : ∀ g, (b.list g).head?.map Prod.fst = (ops.find? (groupId ·.id = g)).map fun op => amapBitmapGroupOffset op.id

variable {ops : List BitOp} {b : Bitmaps} {op : BitOp} {n r : Nat}

theorem locate_of_none (hfind : findBmap (amapBitmapGroupOffset n) (b.list (groupId n)) = none) :
    b.locate n = ({ list := update b.list (groupId n)
                      (insertBmap (amapBitmapGroupOffset n) b.next (b.list (groupId n)))
                    bits := update b.bits b.next fun _ => false
                    next := b.next + 1 }, b.next) := by
  rw [Bitmaps.locate, hfind]

theorem locate_of_some (hfind : findBmap (amapBitmapGroupOffset n) (b.list (groupId n)) = some r) :
    b.locate n = (b, r) := by
  rw [Bitmaps.locate, hfind]

theorem head?_insertBmap {o : Nat} {l : List (Nat × Nat)} : (insertBmap o r l).head? = some (l.head?.getD (o, r)) := by
  cases l with
  | nil => rfl
  | cons y rest =>
    rw [insertBmap]
    split_ifs <;> rfl

theorem Tracks.locate (ht : Tracks ops b) (op : BitOp) : Tracks (ops ++ [op]) (b.locate op.id).1 := by
  cases hfind : findBmap (amapBitmapGroupOffset op.id) (b.list (groupId op.id)) with
  | some r =>
    rw [locate_of_some hfind]
    refine ⟨forall_mem_append.2 ⟨ht.has, forall_mem_singleton.2 ⟨r, findBmap_mem hfind⟩⟩, fun g => ?_⟩
    · rw [ht.first, find?_append]
      cases hf : ops.find? (groupId ·.id = g) with
      | some q => rfl
      | none =>
        have hnil : b.list g = [] := by simpa [hf] using ht.first g
        have hg : groupId op.id ≠ g := by
          rintro rfl
          simp [hnil, findBmap] at hfind
        simp [hg]
  | none =>
    rw [locate_of_none hfind]
    refine ⟨forall_mem_append.2 ⟨fun q hq => ?_, forall_mem_singleton.2 ?_⟩, fun g => ?_⟩
    · obtain ⟨r, hr⟩ := ht.has q hq
      exact ⟨r, mem_update_insertBmap.2 (.inr hr)⟩
    · exact ⟨_, mem_update_insertBmap.2 (.inl ⟨rfl, rfl⟩)⟩
    · by_cases hg : g = groupId op.id
      · subst hg
        have hfirst := ht.first (groupId op.id)
        simp only [update_self, head?_insertBmap, find?_append]
        cases hl : b.list (groupId op.id) <;> cases hf : ops.find? (groupId ·.id = groupId op.id) <;>
          simp_all
      · simp [update_of_ne hg, ht.first, find?_append, Ne.symm hg]

theorem bitmapsAfter_append : bitmapsAfter (ops ++ [op]) = (bitmapsAfter ops).apply op := by
  simp [bitmapsAfter]

theorem tracks_bitmapsAfter (ops : List BitOp) : Tracks ops (bitmapsAfter ops) := by
  induction ops using reverseRecOn with
  | nil => constructor <;> simp [bitmapsAfter, Bitmaps.empty]
  | append_singleton done op ih =>
    rw [bitmapsAfter_append]
    cases op with
    | set n => exact { ih.locate (.set n) with }
    | test n => exact ih.locate (.test n)

theorem firstIsLeast_of_once (h : ∀ op ∈ ops, ((bitmapsAfter ops).locate op.id).1 = bitmapsAfter ops) :
    FirstIsLeast ops := by
  intro op hop first hfirst
  by_contra hlt
  have hhead := (tracks_bitmapsAfter ops).first (groupId op.id)
  rw [hfirst] at hhead
  obtain ⟨x, hx, hxo⟩ := Option.map_eq_some_iff.mp hhead
  obtain ⟨rest, hl⟩ := head?_eq_some_iff.mp hx
  have hfind : findBmap (amapBitmapGroupOffset op.id) ((bitmapsAfter ops).list (groupId op.id)) = none := by
    have hxo : x.1 = amapBitmapGroupOffset first.id := hxo
    rw [hl, findBmap, if_neg (by omega), if_pos (by omega)]
  have hnext := congrArg Bitmaps.next (h op hop)
  rw [locate_of_none hfind] at hnext
  exact absurd hnext (Nat.succ_ne_self _)

theorem ordered_of_firstIsLeast (h : FirstIsLeast (ops ++ [op])) : (bitmapsAfter ops).Ordered op.id := by
  intro x hx
  have hfirst := (tracks_bitmapsAfter ops).first (groupId op.id)
  rw [hx] at hfirst
  obtain ⟨q, hq, hqx⟩ := Option.map_eq_some_iff.mp hfirst.symm
  rw [hqx.symm]
  exact h op (by simp) q (by simp [hq])

theorem sets_bitmapsAfter (hleast : FirstIsLeast ops) (hids : ∀ op ∈ ops, op.id < 2 ^ 32) :
    (bitmapsAfter ops).Ok ∧ ∀ m < 2 ^ 32, (bitmapsAfter ops).IsSet m ↔ .set m ∈ ops := by
  induction ops using reverseRecOn with
  | nil => exact ⟨Bitmaps.ok_empty, fun m _ => iff_of_false Bitmaps.not_isSet_empty (by simp)⟩
  | append_singleton done op ih =>
    have hdone : FirstIsLeast done := fun q hq first hfirst =>
      hleast q (mem_append_left _ hq) first (by simp [Option.mem_def.mp hfirst])
    obtain ⟨hok, hsets⟩ := ih hdone fun q hq => hids q (mem_append_left _ hq)
    obtain ⟨hok', hhas, hset, -⟩ := hok.locate (ordered_of_firstIsLeast hleast)
    rw [bitmapsAfter_append]
    cases op with
    | set n =>
      refine ⟨hok'.setBit, fun m hm => ?_⟩
      exact (Bitmaps.isSet_setBit hok' hhas (hids (.set n) (by simp)) hm).trans
        (by rw [hset, hsets m hm]; simp [BitOp.id, or_comm])
    | test n => exact ⟨hok', fun m hm => (hset m).trans (by simp [hsets m hm])⟩

/-- The bitmaps behave as the set of the ids that were set, just if no offset was located that is below the first one of
its group. -/
theorem bitmaps_act_as_set_iff (ops : List BitOp) (hids : ∀ op ∈ ops, op.id < 2 ^ 32) :
    (∀ n < 2 ^ 32, ActsAsSet ops n) ↔ FirstIsLeast ops := by
  constructor
  · intro h
    exact firstIsLeast_of_once fun op hop => (h op.id (hids op hop)).once ((tracks_bitmapsAfter ops).has op hop)
  · intro hleast n hn
    obtain ⟨hok, hsets⟩ := sets_bitmapsAfter hleast hids
    have hapart : ∀ m < 2 ^ 32, amapBitmapGroupOffset n = amapBitmapGroupOffset m →
        amapToBitmapOffset n = amapToBitmapOffset m → n = m := fun m hm => eq_of_offsets hn hm
    cases hfind : findBmap (amapBitmapGroupOffset n) ((bitmapsAfter ops).list (groupId n)) with
    | some r =>
      refine ⟨?_, hapart, fun _ => by rw [locate_of_some hfind]⟩
      rw [Bitmaps.test, locate_of_some hfind, hok.bitIsSet_iff (findBmap_mem hfind), hsets n hn]
    | none =>
      have hnew : ¬∃ r, (bitmapsAfter ops).Has n r := by
        rintro ⟨r, hr⟩
        simp [findBmap_of_mem (hok.sorted _) hr] at hfind
      refine ⟨iff_of_false ?_ fun hmem => ?_, hapart, fun h => absurd h hnew⟩
      · simp [Bitmaps.test, locate_of_none hfind, Bitmaps.bitIsSet]
      · obtain ⟨r, hr, -⟩ := (hsets n hn).mpr hmem
        exact hnew ⟨r, hr⟩

theorem bitmaps_act_as_set_two :
    FirstIsLeast [.set 0, .test 40000] ∧ ActsAsSet [.set 0, .test 40000] 40000 := by
  have hleast : FirstIsLeast [.set 0, .test 40000] := by unfold FirstIsLeast; decide
  exact ⟨hleast, (bitmaps_act_as_set_iff _ (by simp [BitOp.id])).2 hleast 40000 (by decide)⟩

theorem set_bit_forgotten : ¬ActsAsSet [.set 40000, .set 0] 0 := fun h => by
  have htest := h.test.mpr (by simp)
  revert htest
  decide

end QuadStor.Cloning
