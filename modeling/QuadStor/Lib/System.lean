import Mathlib.Logic.Basic

/-!
# Labelled transition systems

An invariant holds in every reachable state, and restricting the steps of a system only removes runs.
-/

namespace QuadStor.Lib

universe u v w

/-- A system is a set of initial states and a step relation whose labels name what was done. -/
structure System (σ : Type u) (α : Type v) where
  init : σ → Prop
  step : σ → α → σ → Prop

namespace System

variable {σ : Type u} {α : Type v} {M : System σ α} {I : σ → Prop} {ok : σ → α → Prop} {s t : σ}

inductive Reachable (M : System σ α) : σ → Prop where
  | init {s : σ} : M.init s → Reachable M s
  | step {s t : σ} {a : α} : Reachable M s → M.step s a t → Reachable M t

/-- The runs of `M` whose steps all meet `ok` in the state they are taken from -/
def restrict (M : System σ α) (ok : σ → α → Prop) : System σ α where
  init := M.init
  step s a t := ok s a ∧ M.step s a t

structure Invariant (M : System σ α) (I : σ → Prop) : Prop where
  init : ∀ {s}, M.init s → I s
  step : ∀ {s a t}, I s → M.step s a t → I t

theorem Invariant.reachable (h : M.Invariant I) (hs : M.Reachable s) : I s := by
  induction hs with
  | init hi => exact h.init hi
  | step _ hst ih => exact h.step ih hst

theorem Reachable.of_restrict (hs : (M.restrict ok).Reachable s) : M.Reachable s := by
  induction hs with
  | init hi => exact .init hi
  | step _ hst ih => exact .step ih hst.2

theorem Reachable.translate {τ : Type w} {β : Type*} {N : System τ β} {f : σ → τ} {g : α → β}
    (hinit : ∀ {s}, M.init s → N.init (f s)) (hstep : ∀ {s a t}, M.step s a t → N.step (f s) (g a) (f t))
    (hs : M.Reachable s) : N.Reachable (f s) := by
  induction hs with
  | init hi => exact .init (hinit hi)
  | step _ hst ih => exact .step ih (hstep hst)

/-- Each action of the list is `allowed` in the state that `run` has led to. -/
def Along (allowed : σ → α → Prop) (run : σ → α → σ) : σ → List α → Prop
  | _, [] => True
  | s, a :: rest => allowed s a ∧ Along allowed run (run s a) rest

instance instDecidableAlong {allowed : σ → α → Prop} {run : σ → α → σ}
    [∀ s a, Decidable (allowed s a)] :
    (s : σ) → (actions : List α) → Decidable (Along allowed run s actions)
  | _, [] => .isTrue trivial
  | s, a :: rest =>
    have : Decidable (Along allowed run (run s a) rest) := instDecidableAlong (run s a) rest
    inferInstanceAs (Decidable (allowed s a ∧ Along allowed run (run s a) rest))

theorem Reachable.foldl {allowed : σ → α → Prop} {run : σ → α → σ}
    (hstep : ∀ {s a}, allowed s a → M.step s a (run s a)) {actions : List α}
    (hs : M.Reachable s) (hall : Along allowed run s actions) : M.Reachable (actions.foldl run s) := by
  induction actions generalizing s with
  | nil => exact hs
  | cons a rest ih => exact ih (.step hs (hstep hall.1)) hall.2

/-- The state that a partial step function leads to, or the same one where the action cannot be taken -/
def runOf (exec : σ → α → Option σ) (s : σ) (a : α) : σ := (exec s a).getD s

theorem of_guard {p : Prop} [Decidable p] (h : (if p then some s else none) = some t) : p ∧ s = t := by
  simpa using h

theorem of_guard_not {p : Prop} [Decidable p] (h : (if p then none else some s) = some t) : ¬p ∧ s = t := by
  simpa using h

theorem exec_runOf {exec : σ → α → Option σ} {a : α} (h : (exec s a).isSome) : exec s a = some (runOf exec s a) := by
  obtain ⟨t, ht⟩ := Option.isSome_iff_exists.mp h
  simp [runOf, ht]

end System

end QuadStor.Lib
