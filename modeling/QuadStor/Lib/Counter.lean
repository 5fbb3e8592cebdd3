import Mathlib.Order.Basic

/-!
# Replayed increments of a capped counter

A counter up to `cap` takes increments, and claims, which make a zero counter one and leave any other alone.
-/

namespace QuadStor.Lib.Counter

open List

inductive Op where
  | incr
  | claim
  deriving DecidableEq, Repr

variable {cap n m : Nat} {op : Op} {ops p q : List Op}

def step (cap n : Nat) : Op → Nat
  | .incr => if n = cap then n else n + 1
  | .claim => if n = cap ∨ n ≠ 0 then n else n + 1

def apply (cap : Nat) (ops : List Op) (n : Nat) : Nat := ops.foldl (step cap) n

def wantStep (n : Nat) : Op → Nat
  | .incr => n + 1
  | .claim => max n 1

def want (ops : List Op) (n : Nat) : Nat := ops.foldl wantStep n

@[simp] theorem want_cons : want (op :: ops) n = want ops (wantStep n op) := rfl

@[simp] theorem apply_cons : apply cap (op :: ops) n = apply cap ops (step cap n op) := rfl

theorem apply_append : apply cap (p ++ q) n = apply cap q (apply cap p n) := foldl_append

theorem want_append : want (p ++ q) n = want q (want p n) := foldl_append

theorem le_wantStep : n ≤ wantStep n op := by
  cases op with
  | incr => exact Nat.le_succ n
  | claim => exact Nat.le_max_left n 1

theorem le_want : n ≤ want ops n := by
  induction ops generalizing n with
  | nil => exact Nat.le_refl n
  | cons op rest ih => exact Nat.le_trans le_wantStep ih

theorem want_mono (h : n ≤ m) : want ops n ≤ want ops m := by
  induction ops generalizing n m with
  | nil => exact h
  | cons op rest ih =>
    refine ih ?_
    cases op with
    | incr => exact Nat.succ_le_succ h
    | claim =>
      simp only [wantStep]
      omega

theorem want_of_pos (h : 0 < n) : want ops n = n + ops.count .incr := by
  induction ops generalizing n with
  | nil => rfl
  | cons op rest ih =>
    cases op with
    | incr =>
      rw [want_cons, wantStep, ih (Nat.succ_pos n), count_cons_self]
      omega
    | claim =>
      rw [want_cons, wantStep, Nat.max_eq_left h, ih h, count_cons_of_ne (by decide)]

theorem want_pos (h : .incr ∈ ops) : 0 < want ops n := by
  induction ops generalizing n with
  | nil => cases h
  | cons op rest ih =>
    cases op with
    | incr => exact Nat.lt_of_lt_of_le (Nat.succ_pos n) le_want
    | claim => exact ih ((mem_cons.mp h).resolve_left (by decide))

variable (hcap : 0 < cap)
include hcap

theorem step_eq_min (h : n ≤ cap) : step cap n op = min cap (wantStep n op) := by
  cases op with
  | incr | claim =>
    simp only [step, wantStep]
    split_ifs <;> omega

theorem apply_eq_min (h : n ≤ cap) : apply cap ops n = min cap (want ops n) := by
  induction ops generalizing n with
  | nil => exact (Nat.min_eq_right h).symm
  | cons op rest ih =>
    rw [apply_cons, want_cons, step_eq_min hcap h, ih (Nat.min_le_left _ _)]
    rcases Nat.le_total (wantStep n op) cap with hle | hle
    · rw [Nat.min_eq_right hle]
    · rw [Nat.min_eq_left hle, Nat.min_eq_left le_want, Nat.min_eq_left (Nat.le_trans hle le_want)]

theorem apply_claims (h : ∀ op ∈ p, op = .claim) : apply cap p (apply cap p n) = apply cap p n := by
  have hfix : ∀ {m : Nat} {p : List Op}, (∀ op ∈ p, op = .claim) → m ≠ 0 → apply cap p m = m := by
    intro m p hp hm
    induction p with
    | nil => rfl
    | cons op rest ih =>
      obtain rfl := hp op mem_cons_self
      rw [apply_cons, step, if_pos (.inr hm)]
      exact ih fun op hop => hp op (mem_cons_of_mem _ hop)
  cases p with
  | nil => rfl
  | cons op rest =>
    have hrest : ∀ op ∈ rest, op = .claim := fun op hop => h op (mem_cons_of_mem _ hop)
    have hpos : step cap n op ≠ 0 := by
      obtain rfl := h op mem_cons_self
      simp only [step]
      split_ifs <;> omega
    have happly : apply cap (op :: rest) n = step cap n op := hfix hrest hpos
    rw [happly]
    exact hfix h hpos

theorem apply_twice (h : n ≤ cap) : apply cap (p ++ q) (apply cap p n) = apply cap (p ++ q) n ↔
      (.incr ∈ p → cap ≤ want (p ++ q) n) := by
  constructor
  · intro heq hincr
    by_contra hlt
    have hp : want p n ≤ want (p ++ q) n := by
      rw [want_append]
      exact le_want
    have hpos : 0 < want p n := want_pos hincr
    have hcount := count_pos_iff.mpr hincr
    have hpart : apply cap p n = want p n := by
      rw [apply_eq_min hcap h, Nat.min_eq_right (by omega)]
    rw [hpart, apply_eq_min hcap (by omega), apply_eq_min hcap h, want_of_pos hpos, want_append,
      want_of_pos hpos, count_append] at heq
    rw [want_append, want_of_pos hpos] at hlt
    omega
  · intro hall
    by_cases hincr : .incr ∈ p
    · have hfull := hall hincr
      have hpart : n ≤ apply cap p n ∧ apply cap p n ≤ cap := by
        rw [apply_eq_min hcap h]
        exact ⟨Nat.le_min.mpr ⟨h, le_want⟩, Nat.min_le_left _ _⟩
      have honce : apply cap (p ++ q) n = cap := by rw [apply_eq_min hcap h, Nat.min_eq_left hfull]
      have htwice : apply cap (p ++ q) (apply cap p n) = cap := by
        rw [apply_eq_min hcap hpart.2, Nat.min_eq_left (Nat.le_trans hfull (want_mono hpart.1))]
      rw [honce, htwice]
    · have hclaims : ∀ op ∈ p, op = .claim := by
        intro op hop
        cases op with
        | incr => exact absurd hop hincr
        | claim => rfl
      rw [apply_append, apply_append, apply_claims hcap hclaims]

end QuadStor.Lib.Counter
