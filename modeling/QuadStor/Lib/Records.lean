import Mathlib.Data.List.Basic

/-!
# Records that say how long they are

A reader sees a head of `size` elements, which tells it how many more belong to the record, and goes on after those.
-/

namespace QuadStor.Lib

open List

variable {α : Type*} (size : Nat) (extra : List α → Nat) {l : List α}

def walkFrom : Nat → List α → List (List α)
  | 0, _ => []
  | fuel + 1, l =>
    if l.length < size then []
    else l.take size :: walkFrom fuel (l.drop (size + extra (l.take size)))

/-- The heads that the reader sees; it stops when less than a head is left. -/
def walk (l : List α) : List (List α) := walkFrom size extra l.length l

variable {size extra}

theorem walkFrom_nil (hsize : 0 < size) (fuel : Nat) : walkFrom size extra fuel [] = [] := by
  cases fuel <;> simp [walkFrom, hsize]

theorem walkFrom_eq (hsize : 0 < size) {fuel fuel' : Nat} (h : l.length ≤ fuel)
    (h' : l.length ≤ fuel') : walkFrom size extra fuel l = walkFrom size extra fuel' l := by
  induction fuel generalizing l fuel' with
  | zero =>
    obtain rfl : l = [] := length_eq_zero_iff.1 (by omega)
    rw [walkFrom_nil hsize, walkFrom_nil hsize]
  | succ fuel ih =>
    cases fuel' with
    | zero =>
      obtain rfl : l = [] := length_eq_zero_iff.1 (by omega)
      rw [walkFrom_nil hsize, walkFrom_nil hsize]
    | succ fuel' =>
      rw [walkFrom, walkFrom]
      split
      · rfl
      · have hrest := length_drop (i := size + extra (l.take size)) (l := l)
        congr 1
        apply ih
        · omega
        · omega

theorem walk_short (h : l.length < size) : walk size extra l = [] := by
  cases hl : l.length with
  | zero => simp [walk, hl, walkFrom]
  | succ k => rw [walk, hl, walkFrom, if_pos h]

theorem walk_append (hsize : 0 < size) {head rest : List α} (h : head.length = size) :
    walk size extra (head ++ rest) = head :: walk size extra (rest.drop (extra head)) := by
  have htake : (head ++ rest).take size = head := take_left' h
  have hdrop : (head ++ rest).drop (size + extra head) = rest.drop (extra head) := by
    rw [← drop_drop, drop_left' h]
  obtain ⟨k, hk⟩ : ∃ k, (head ++ rest).length = k + 1 :=
    Nat.exists_eq_succ_of_ne_zero (by rw [length_append]; omega)
  have hlen : rest.length ≤ k := by
    rw [length_append] at hk
    omega
  have hlong : ¬ (head ++ rest).length < size := by
    rw [length_append]
    omega
  rw [walk, hk, walkFrom, if_neg hlong, htake, hdrop, walk]
  congr 1
  apply walkFrom_eq hsize _ (Nat.le_refl _)
  rw [length_drop]
  omega

theorem walk_append_overlong (hsize : 0 < size) {head rest : List α} (h : head.length = size)
    (hextra : rest.length ≤ extra head) : walk size extra (head ++ rest) = [head] := by
  rw [walk_append hsize h, drop_eq_nil_of_le hextra, walk_short (by simpa using hsize)]

end QuadStor.Lib
