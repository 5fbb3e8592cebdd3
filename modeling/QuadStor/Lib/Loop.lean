
/-!
# Counted loops that can stop

A loop `for (i = 0; i < n; i++)` whose body can stop: what holds of every loop that came to its end, and when a loop
comes to its end.
-/

namespace QuadStor.Lib

universe u v

variable {ε : Type u} {σ τ : Type v} {I : Nat → σ → Prop} {n : Nat}

theorem bind_ok {x : Except ε σ} {k : σ → Except ε τ} {b : τ} : x >>= k = .ok b ↔ ∃ a, x = .ok a ∧ k a = .ok b := by
  cases x with
  | error e | ok a => simp [bind, Except.bind]

def loop (n : Nat) (f : σ → Nat → Except ε σ) (s : σ) : Except ε σ := (List.range n).foldlM f s

variable {f : σ → Nat → Except ε σ} {s t : σ}

theorem loop_succ (n : Nat) : loop (n + 1) f s = loop n f s >>= fun t => f t n := by
  simp only [loop, List.range_succ, List.foldlM_append, List.foldlM_cons, List.foldlM_nil]
  exact congrArg _ (funext fun t => bind_pure _)

theorem loop_succ_ok : loop (n + 1) f s = .ok t ↔ ∃ u, loop n f s = .ok u ∧ f u n = .ok t := by
  rw [loop_succ, bind_ok]

/-- `I i` is what holds before pass `i`. -/
theorem loop_ok (h : loop n f s = .ok t) (init : I 0 s)
    (step : ∀ i u v, i < n → I i u → f u i = .ok v → I (i + 1) v) : I n t := by
  induction n generalizing t with
  | zero => cases h; exact init
  | succ n ih =>
    obtain ⟨u, hu, hv⟩ := loop_succ_ok.1 h
    exact step n u t (Nat.lt_succ_self n) (ih hu fun i u v hi => step i u v (Nat.lt_succ_of_lt hi)) hv

theorem loop_total (init : I 0 s) (step : ∀ i u v, i < n → I i u → f u i = .ok v → I (i + 1) v)
    (progress : ∀ i u, i < n → I i u → ∃ v, f u i = .ok v) : ∃ t, loop n f s = .ok t ∧ I n t := by
  induction n with
  | zero => exact ⟨s, rfl, init⟩
  | succ n ih =>
    obtain ⟨u, hu, hI⟩ := ih (fun i u v hi => step i u v (Nat.lt_succ_of_lt hi))
      fun i u hi => progress i u (Nat.lt_succ_of_lt hi)
    obtain ⟨v, hv⟩ := progress n u (Nat.lt_succ_self n) hI
    exact ⟨v, loop_succ_ok.2 ⟨u, hu, hv⟩, step n u v (Nat.lt_succ_self n) hI hv⟩

end QuadStor.Lib
