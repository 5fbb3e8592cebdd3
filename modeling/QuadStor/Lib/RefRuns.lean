import Mathlib.Logic.Function.Basic

/-!
# Reference-counted runs of slots

Slots come in rows of any index type, and a run is an interval of slots of one row. `Store` is the abstract allocator:
how many references each run has.
-/

namespace QuadStor.Lib

open Function

universe u

/-- The slots `start`, ..., `start + len - 1` of row `row`. -/
structure Run (κ : Type u) where
  row : κ
  start : Nat
  len : Nat
  deriving DecidableEq, Repr

namespace Run

variable {κ : Type u}

def Has (r : Run κ) (k : κ) (i : Nat) : Prop := k = r.row ∧ r.start ≤ i ∧ i < r.start + r.len

instance [DecidableEq κ] (r : Run κ) (k : κ) (i : Nat) : Decidable (r.Has k i) :=
  inferInstanceAs (Decidable (_ ∧ _ ∧ _))

def Disjoint (r r' : Run κ) : Prop := ∀ k i, r.Has k i → ¬r'.Has k i

theorem has_start {r : Run κ} (h : 0 < r.len) : r.Has r.row r.start := ⟨rfl, Nat.le_refl _, by omega⟩

end Run

abbrev Store (κ : Type u) := Run κ → Nat

namespace Store

variable {κ : Type u}

def Live (σ : Store κ) (r : Run κ) : Prop := 0 < σ r

end Store

def assign {κ : Type u} [DecidableEq κ] (cnt : κ → Nat → Nat) (r : Run κ) (n : Nat) : κ → Nat → Nat :=
  fun k i => if r.Has k i then n else cnt k i

/-- The counters `cnt` show the runs of `σ`; the slots in `fixed` are set aside. -/
structure Represents {κ : Type u} (fixed : κ → Nat → Prop) (cnt : κ → Nat → Nat) (σ : Store κ) : Prop where
  len_pos : ∀ {r}, σ.Live r → 0 < r.len
  disjoint : ∀ {r r'}, σ.Live r → σ.Live r' → r ≠ r' → r.Disjoint r'
  count : ∀ {r k i}, σ.Live r → r.Has k i → cnt k i = σ r
  owned : ∀ {k i}, cnt k i ≠ 0 → fixed k i ∨ ∃ r, σ.Live r ∧ r.Has k i
  fixed_ne_zero : ∀ {k i}, fixed k i → cnt k i ≠ 0
  not_fixed : ∀ {r k i}, σ.Live r → r.Has k i → ¬fixed k i

namespace Represents

variable {κ : Type u} {fixed : κ → Nat → Prop} {cnt : κ → Nat → Nat} {σ : Store κ} {r : Run κ}

section

variable (h : Represents fixed cnt σ)
include h

theorem disjoint_of_zero (hz : ∀ k i, r.Has k i → cnt k i = 0) {r' : Run κ} (hr' : σ.Live r') : r.Disjoint r' := by
  intro k i hi hi'
  have hc := h.count hr' hi'
  rw [hz k i hi] at hc
  exact absurd hc (Nat.ne_of_lt hr')

theorem not_live_of_zero (hlen : 0 < r.len) (hz : ∀ k i, r.Has k i → cnt k i = 0) : σ r = 0 := by
  by_contra hne
  exact h.disjoint_of_zero hz (Nat.pos_of_ne_zero hne) _ _ (Run.has_start hlen) (Run.has_start hlen)

theorem not_fixed_of_zero (hz : ∀ k i, r.Has k i → cnt k i = 0) {k : κ} {i : Nat} (hi : r.Has k i) : ¬fixed k i :=
  fun hf => h.fixed_ne_zero hf (hz k i hi)

theorem assign [DecidableEq κ] (n : Nat) (hlen : 0 < r.len) (hdisj : ∀ {r'}, σ.Live r' → r ≠ r' → r.Disjoint r')
    (hfix : ∀ {k i}, r.Has k i → ¬fixed k i) : Represents fixed (Lib.assign cnt r n) (update σ r n) := by
  have live_of_ne : ∀ {r'}, r' ≠ r → Store.Live (update σ r n) r' → σ.Live r' := by
    intro r' hne hlive
    simpa [Store.Live, update_of_ne hne] using hlive
  refine ⟨?_, ?_, ?_, ?_, ?_, ?_⟩
  · intro r' hlive
    by_cases hr : r' = r
    · rw [hr]; exact hlen
    · exact h.len_pos (live_of_ne hr hlive)
  · intro r₁ r₂ h₁ h₂ hne
    by_cases hr₁ : r₁ = r
    · subst hr₁
      exact hdisj (live_of_ne (Ne.symm hne) h₂) hne
    · by_cases hr₂ : r₂ = r
      · subst hr₂
        intro k i hi₁ hi₂
        exact hdisj (live_of_ne hr₁ h₁) (Ne.symm hne) k i hi₂ hi₁
      · exact h.disjoint (live_of_ne hr₁ h₁) (live_of_ne hr₂ h₂) hne
  · intro r' k i hlive hi
    by_cases hr : r' = r
    · subst hr
      simp [Lib.assign, hi]
    · have hlive' := live_of_ne hr hlive
      have hnot : ¬r.Has k i := fun hk => hdisj hlive' (Ne.symm hr) k i hk hi
      simpa [Lib.assign, hnot, update_of_ne hr] using h.count hlive' hi
  · intro k i hne
    by_cases hi : r.Has k i
    · have hn : 0 < n := by
        simp only [Lib.assign, hi, if_true] at hne
        omega
      exact .inr ⟨r, by simpa [Store.Live] using hn, hi⟩
    · simp only [Lib.assign, hi, if_false] at hne
      rcases h.owned hne with hf | ⟨r', hlive, hi'⟩
      · exact .inl hf
      · have hr : r' ≠ r := fun he => hi (he ▸ hi')
        refine .inr ⟨r', ?_, hi'⟩
        simpa [Store.Live, update_of_ne hr] using hlive
  · intro k i hf
    have hi : ¬r.Has k i := fun hi => hfix hi hf
    simpa [Lib.assign, hi] using h.fixed_ne_zero hf
  · intro r' k i hlive hi
    by_cases hr : r' = r
    · exact hfix (hr ▸ hi)
    · exact h.not_fixed (live_of_ne hr hlive) hi

theorem alloc [DecidableEq κ] {n : Nat} (hlen : 0 < r.len) (hz : ∀ k i, r.Has k i → cnt k i = 0) :
    Represents fixed (Lib.assign cnt r n) (update σ r n) :=
  h.assign n hlen (fun hr' _ => h.disjoint_of_zero hz hr') (h.not_fixed_of_zero hz)

theorem recount [DecidableEq κ] {n : Nat} (hr : σ.Live r) :
    Represents fixed (Lib.assign cnt r n) (update σ r n) :=
  h.assign n (h.len_pos hr) (fun hr' hne => h.disjoint hr hr' hne) (h.not_fixed hr)

end

end Represents

end QuadStor.Lib
