import Mathlib.Data.List.Nodup
import Mathlib.Algebra.Order.Ring.Nat

/-!
# Lists made of pieces of one size
-/

namespace QuadStor.Lib

open List

variable {α : Type*} {f : Nat → List α} {c n b : Nat} {k : α → Nat} {l : List α}

theorem flatMap_range_add (f : Nat → List α) (m n : Nat) :
    (range (m + n)).flatMap f = (range m).flatMap f ++ (range n).flatMap fun k => f (m + k) := by
  rw [range_add, flatMap_append, flatMap_map]

theorem flatMap_range_succ (f : Nat → List α) (n : Nat) :
    (range (n + 1)).flatMap f = (range n).flatMap f ++ f n := by
  simp [range_succ]

theorem length_flatMap_range (h : ∀ k, (f k).length = c) (n : Nat) : ((range n).flatMap f).length = n * c := by
  induction n with
  | zero => simp
  | succ n ih => rw [flatMap_range_succ, length_append, ih, h, Nat.succ_mul]

theorem take_drop_flatMap_range (h : ∀ k, (f k).length = c) {d t : Nat} (hle : d + t ≤ n) :
    (((range n).flatMap f).drop (d * c)).take (t * c) = (range t).flatMap fun k => f (d + k) := by
  obtain ⟨r, rfl⟩ := Nat.exists_eq_add_of_le hle
  rw [Nat.add_assoc, flatMap_range_add f d, drop_left' (length_flatMap_range h d), flatMap_range_add]
  exact take_left' (length_flatMap_range (fun k => h (d + k)) t)

theorem flatMap_range_mul (f : Nat → List α) (m n : Nat) :
    ((range n).flatMap fun i => (range m).flatMap fun j => f (m * i + j)) =
      (range (m * n)).flatMap f := by
  induction n with
  | zero => simp
  | succ n ih => rw [flatMap_range_succ, ih, Nat.mul_succ, flatMap_range_add]

theorem flatMap_range_take_drop : ∀ {n : Nat}, l.length = n * c →
    ((range n).flatMap fun j => (l.drop (j * c)).take c) = l := by
  intro n hlen
  have hpart : ∀ m, ((range m).flatMap fun j => (l.drop (j * c)).take c) = l.take (m * c) := by
    intro m
    induction m with
    | zero => simp
    | succ m ih => rw [flatMap_range_succ, ih, Nat.succ_mul, take_add]
  rw [hpart, ← hlen, take_length]

theorem eq_iff_pieces {m : List α} (hl : l.length = n * c) (hm : m.length = n * c) :
    l = m ↔ ∀ k, k < n → (l.drop (k * c)).take c = (m.drop (k * c)).take c := by
  refine ⟨fun h k _ => by rw [h], fun h => ?_⟩
  rw [← flatMap_range_take_drop hl, ← flatMap_range_take_drop hm]
  exact flatMap_congr fun k hk => h k (mem_range.mp hk)

theorem nodup_flatMap_range (hnodup : ∀ i, i < n → (f i).Nodup)
    (hkey : ∀ i x, i < n → x ∈ f i → k x = b + i) : ((range n).flatMap f).Nodup := by
  refine nodup_flatMap.mpr ⟨fun i hi => hnodup i (mem_range.mp hi), ?_⟩
  refine nodup_range.imp_of_mem fun {i j} hi hj hne => ?_
  intro x hxi hxj
  have := (hkey i x (mem_range.mp hi) hxi).symm.trans (hkey j x (mem_range.mp hj) hxj)
  omega

theorem nodup_filterMap_range {g : Nat → Option α}
    (hkey : ∀ i x, g i = some x → k x = b + i) : ((range n).filterMap g).Nodup := by
  refine List.Nodup.filterMap (fun i j x hi hj => ?_) nodup_range
  have := (hkey i x hi).symm.trans (hkey j x hj)
  omega

end QuadStor.Lib
