
/-!
# Sweeps

A sweep goes over a list of items once and handles one after the other. What is said of it is said of the
state each item finds.
-/

namespace QuadStor.Lib.Sweep

open List

variable {σ ι α : Type} {step : σ → ι → σ} {s : σ} {l : List ι} {i j k : Nat} {x : ι}

def before (step : σ → ι → σ) (s : σ) (l : List ι) (k : Nat) : σ := (l.take k).foldl step s

@[simp] theorem before_zero : before step s l 0 = s := rfl

@[simp] theorem before_length : before step s l l.length = l.foldl step s := by rw [before, take_length]

theorem before_succ (h : l[k]? = some x) : before step s l (k + 1) = step (before step s l k) x := by
  simp [before, take_add_one, h, foldl_append]

theorem before_succ_none (h : l[k]? = none) : before step s l (k + 1) = before step s l k := by
  simp [before, take_add_one, h]

theorem before_frame (view : σ → α) (hle : i ≤ j)
    (h : ∀ k x, i ≤ k → k < j → l[k]? = some x → view (step (before step s l k) x) = view (before step s l k)) :
    view (before step s l j) = view (before step s l i) := by
  induction hle with
  | refl => rfl
  | @step j hle ih =>
    rw [← ih fun k x hlow hhigh => h k x hlow (Nat.lt_succ_of_lt hhigh)]
    cases hx : l[j]? with
    | none => rw [before_succ_none hx]
    | some x => rw [before_succ hx, h j x hle (Nat.lt_succ_self j) hx]

theorem before_invariant {I : σ → Prop} (init : I s) (step' : ∀ t x, x ∈ l → I t → I (step t x)) :
    I (before step s l k) := by
  induction k with
  | zero => exact init
  | succ k ih =>
    cases hx : l[k]? with
    | none => rwa [before_succ_none hx]
    | some x =>
      rw [before_succ hx]
      exact step' _ x (mem_of_getElem? hx) ih

theorem forall_iff {P Q : Nat → Prop} (h : ∀ k, (∀ j, j < k → P j) → (P k ↔ Q k)) : (∀ k, P k) ↔ ∀ k, Q k := by
  constructor
  · intro hP k
    exact (h k fun j _ => hP j).mp (hP k)
  · intro hQ k
    induction k using Nat.strongRecOn with
    | ind k ih => exact (h k ih).mpr (hQ k)

end QuadStor.Lib.Sweep
