import QuadStor.Delete.Basic
import QuadStor.Lib.Chunks

/-!
# The walk through one table
-/

namespace QuadStor.Delete

open Lib

variable {env : Env} {start t i n m : Nat} {a : Amap} {x y z : Table} {s s' : Deleting} {last : Bool}

@[simp] theorem Table.setAmap_self (c : Cached Amap) : (x.setAmap i c).amap i = c := by simp [setAmap]

theorem Table.setAmap_ne {j : Nat} (c : Cached Amap) (h : j ≠ i) : (x.setAmap i c).amap j = x.amap j := by
  simp [setAmap, h]

structure Loaded (start t i : Nat) (x y : Table) : Prop where
  block : y.block = x.block
  content : ∀ j, (y.amap j).content = (x.amap j).content
  below : ∀ j, t * 695 + j < startAmapId start → y.amap j = x.amap j
  later : ∀ j, i ≤ j → y.amap j = x.amap j
  inMemory : ∀ j, j < i → startAmapId start ≤ t * 695 + j → (y.amap j).state ≠ .onDisk

theorem Loaded.refl : Loaded start t 0 x x := ⟨rfl, fun _ => rfl, fun _ _ => rfl, fun _ _ => rfl, by simp⟩

section

variable (h : Loaded start t i x y)
include h

theorem Loaded.keep
    (hi : startAmapId start ≤ t * 695 + i → (y.amap i).state ≠ .onDisk) : Loaded start t (i + 1) x y where
  block := h.block
  content := h.content
  below := h.below
  later j hj := h.later j (by omega)
  inMemory j hj hs := by
    obtain hj | rfl := Nat.lt_succ_iff_lt_or_eq.mp hj
    · exact h.inMemory j hj hs
    · exact hi hs

theorem Loaded.read (ha : y.amap i = .onDisk a) (hs : startAmapId start ≤ t * 695 + i) :
    Loaded start t (i + 1) x (y.setAmap i (.reading a)) where
  block := h.block
  content j := by
    by_cases hj : j = i
    · subst hj
      rw [← h.content, ha, Table.setAmap_self]
      rfl
    · rw [Table.setAmap_ne _ hj, h.content]
  below j hj := by rw [Table.setAmap_ne _ (by rintro rfl; omega), h.below j hj]
  later j hj := by rw [Table.setAmap_ne _ (by omega), h.later j (by omega)]
  inMemory j hj hs := by
    obtain hj | rfl := Nat.lt_succ_iff_lt_or_eq.mp hj
    · rw [Table.setAmap_ne _ (by omega)]
      exact h.inMemory j hj hs
    · simp [Cached.state]

theorem loadStep_loaded (hz : loadStep env start t y i = .ok z) :
    Loaded start t (i + 1) x z := by
  simp only [loadStep] at hz
  split at hz
  · cases hz
    exact h.keep fun hs => absurd hs (by omega)
  · split at hz
    · rename_i a ha
      split at hz <;> cases hz
      exact h.read ha (by omega)
    · rename_i hne
      cases hz
      refine h.keep fun _ => ?_
      cases hc : y.amap i with
      | onDisk a => exact absurd hc (hne a)
      | _ => simp [Cached.state]

end

theorem loadStep_total (henv : env.Undisturbed) (i : Nat) : ∃ z, loadStep env start t y i = .ok z := by
  simp only [loadStep, henv.amapLoad, if_true]
  split
  · exact ⟨_, rfl⟩
  · split <;> exact ⟨_, rfl⟩

theorem Amap.freed_of_isEmpty (h : a.isEmpty = true) : a.freed m = [] := by
  simp only [isEmpty, List.all_eq_true, beq_iff_eq] at h
  simp only [freed, List.filterMap_eq_nil_iff]
  intro e he
  simp [h e he]

theorem amapDelete_block : (amapDelete env m a).1.block = a.block := by
  unfold amapDelete
  split_ifs <;> rfl

theorem amapDelete_freed (h : (amapDelete env m a).2.2 = false) : (amapDelete env m a).2.1 = a.freed m := by
  unfold amapDelete at h ⊢
  split_ifs at h ⊢ with he
  · exact (Amap.freed_of_isEmpty he).symm
  · simp only

theorem amapDelete_error (henv : env.Undisturbed) : (amapDelete env m a).2.2 = false := by
  unfold amapDelete
  simp only [henv.amapClear]
  split_ifs <;> simp_all

def Table.freedData (x : Table) (t i : Nat) : List Freed := ((x.amap i).content.map (Amap.freed (t * 695 + i))).getD []

structure Deleted (x : Table) (t i : Nat) (s : Deleting) : Prop where
  block : s.table.block = x.block
  later : ∀ j, i ≤ j → s.table.amap j = x.amap j
  blocks : ∀ j, (s.table.amap j).content.map Amap.block = (x.amap j).content.map Amap.block
  freed : s.error = false → s.freed = (List.range i).flatMap (x.freedData t)
  inMemory : ∀ j, j < i → (x.amap j).state ≠ .onDisk

theorem Deleting.wait_ok (h : s.wait env m last = .ok s') : ∃ k, s' = { s with done := k } := by
  simp only [wait] at h
  split_ifs at h <;> cases h
  · exact ⟨0, rfl⟩
  · exact ⟨s.done, rfl⟩

theorem Deleted.skip (h : Deleted x t i s) (hi : s.table.amap i = .missing) : Deleted x t (i + 1) s where
  block := h.block
  later j hj := h.later j (by omega)
  blocks := h.blocks
  freed he := by
    rw [flatMap_range_succ, ← h.freed he, Table.freedData, ← h.later i le_rfl, hi]
    simp [Cached.content]
  inMemory j hj := by
    obtain hj | rfl := Nat.lt_succ_iff_lt_or_eq.mp hj
    · exact h.inMemory j hj
    · simp [← h.later j le_rfl, hi, Cached.state]

theorem Deleted.delete (h : Deleted x t i s) (ha : (s.table.amap i).content = some a)
    (hm : (s.table.amap i).state ≠ .onDisk) (hs : s.delete env t i last a = .ok s') : Deleted x t (i + 1) s' := by
  have hx := h.later i le_rfl
  simp only [Deleting.delete] at hs
  split_ifs at hs
  obtain ⟨k, rfl⟩ := Deleting.wait_ok hs
  refine ⟨h.block, fun j hj => ?_, fun j => ?_, fun he => ?_, fun j hj => ?_⟩
  · rw [Table.setAmap_ne _ (by omega)]
    exact h.later j (by omega)
  · by_cases hj : j = i
    · subst hj
      rw [Table.setAmap_self, ← h.blocks, ha]
      exact congrArg some amapDelete_block
    · rw [Table.setAmap_ne _ hj]
      exact h.blocks j
  · obtain ⟨he, hd⟩ := Bool.or_eq_false_iff.mp he
    rw [flatMap_range_succ, ← h.freed he, amapDelete_freed hd, Table.freedData, ← hx, ha, Option.map_some,
      Option.getD_some]
  · obtain hj | rfl := Nat.lt_succ_iff_lt_or_eq.mp hj
    · exact h.inMemory j hj
    · rwa [← hx]

theorem deleteStep_deleted (hn : startAmapId start < t * 695 + n) (h : Deleted x t i s)
    (hs : deleteStep env start t n s i = .ok s') : Deleted x t (i + 1) s' := by
  simp only [deleteStep] at hs
  rw [if_neg (by omega)] at hs
  cases hc : s.table.amap i with
  | missing =>
    simp only [hc] at hs
    cases hs
    exact h.skip hc
  | onDisk a => simp [hc] at hs
  | reading a | loaded a =>
    simp only [hc] at hs
    exact h.delete (by rw [hc]; rfl) (by simp [hc, Cached.state]) hs

variable (henv : env.Undisturbed)
include henv

theorem Deleting.delete_total (he : s.error = false) : ∃ s', s.delete env t i last a = .ok s' := by
  simp only [delete, henv.amapError, wait, henv.exitAmap, he, amapDelete_error henv]
  by_cases hd : s.done + 1 = 51 <;> simp [hd]

theorem Deleting.delete_error (hs : s.delete env t i last a = .ok s') : s'.error = s.error := by
  simp only [delete, henv.amapError, Bool.false_eq_true, if_false] at hs
  obtain ⟨k, rfl⟩ := wait_ok hs
  simp [amapDelete_error henv]

theorem deleteStep_total (hi : (s.table.amap i).state ≠ .onDisk) (he : s.error = false) :
    ∃ s', deleteStep env start t n s i = .ok s' := by
  simp only [deleteStep]
  split
  · exact ⟨s, rfl⟩
  · cases hc : s.table.amap i with
    | missing => exact ⟨s, rfl⟩
    | onDisk a => simp [hc, Cached.state] at hi
    | reading a | loaded a => exact Deleting.delete_total henv he

theorem deleteStep_error (hs : deleteStep env start t n s i = .ok s') : s'.error = s.error := by
  simp only [deleteStep] at hs
  split at hs
  · cases hs
    rfl
  · cases hc : s.table.amap i with
    | missing =>
      simp only [hc] at hs
      cases hs
      rfl
    | onDisk a => simp [hc] at hs
    | reading a | loaded a =>
      simp only [hc] at hs
      exact Deleting.delete_error henv hs

end QuadStor.Delete
