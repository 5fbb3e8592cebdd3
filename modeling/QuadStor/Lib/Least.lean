
/-!
# The least of a sequence, with 0 for none

A loop over a sequence of numbers remembers a place and its number, and moves on to a smaller number.
-/

namespace QuadStor.Lib

open List

structure Least (l : List Nat) (j t : Nat) : Prop where
  get : l[j]? = some t
  last : t = 0 → j + 1 = l.length
  le : ∀ {i u}, l[i]? = some u → t ≤ u ∨ ∃ q, i ≤ q ∧ q < j ∧ l[q]? = some 0

namespace Least

variable {l : List Nat} {i j t u : Nat}

theorem lt_length (h : Least l j t) : j < l.length := (List.getElem?_eq_some_iff.mp h.get).1

theorem first (t : Nat) : Least [t] 0 t := by
  refine ⟨rfl, fun _ => rfl, ?_⟩
  intro i u hi
  obtain ⟨hlt, rfl⟩ := List.getElem?_eq_some_iff.mp hi
  obtain rfl : i = 0 := by simpa using hlt
  exact .inl (Nat.le_refl _)

theorem keep (h : Least l j t) (hne : t ≠ 0) (hle : t ≤ u) : Least (l ++ [u]) j t := by
  refine ⟨?_, fun ht => absurd ht hne, ?_⟩
  · rw [getElem?_append_left h.lt_length]
    exact h.get
  · intro i v hi
    rcases Nat.lt_or_ge i l.length with hlt | hge
    · rw [getElem?_append_left hlt] at hi
      rcases h.le hi with hv | ⟨q, hiq, hqj, hq⟩
      · exact .inl hv
      · exact .inr ⟨q, hiq, hqj, by rw [getElem?_append_left (Nat.lt_trans hqj h.lt_length), hq]⟩
    · rw [getElem?_append_right hge] at hi
      obtain ⟨_, rfl⟩ := List.getElem?_eq_some_iff.mp hi
      exact .inl (by simpa using hle)

theorem take (h : Least l j t) (htake : t = 0 ∨ u < t) : Least (l ++ [u]) l.length u := by
  refine ⟨by simp, fun _ => by simp, ?_⟩
  intro i v hi
  rcases Nat.lt_or_ge i l.length with hlt | hge
  · rw [getElem?_append_left hlt] at hi
    rcases htake with rfl | hut
    · have hlast := h.last rfl
      refine .inr ⟨j, by omega, h.lt_length, ?_⟩
      rw [getElem?_append_left h.lt_length]
      exact h.get
    · rcases h.le hi with hv | ⟨q, hiq, hqj, hq⟩
      · exact .inl (Nat.le_trans (Nat.le_of_lt hut) hv)
      · have hql : q < l.length := Nat.lt_trans hqj h.lt_length
        exact .inr ⟨q, hiq, hql, by rw [getElem?_append_left hql, hq]⟩
  · rw [getElem?_append_right hge] at hi
    obtain ⟨_, rfl⟩ := List.getElem?_eq_some_iff.mp hi
    exact .inl (by simp)

end Least

end QuadStor.Lib
