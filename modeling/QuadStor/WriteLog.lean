import Mathlib.Tactic.Cases

/-!
# The pages of the write log

A start reads the pages of all disks and puts those in use in the order of their transactions.
-/

namespace QuadStor

open List

/-- `MAX_LOG_PAGES`, for each disk -/
def maxLogPages : Nat := 16384

def v2LogEntries : Nat := 170

variable {π : Type} (start : π → Nat)

def logPageInsert : List π → π → List π
  | [], p => [p]
  | q :: rest, p => if start q < start p then q :: logPageInsert rest p else p :: q :: rest

/-- `bint_check_write_logs` over the pages of all disks; a page without a transaction id is left out. -/
def checkWriteLogs (pages : List π) : List π :=
  pages.foldl (fun acc p => if start p = 0 then acc else logPageInsert start acc p) []

variable {start} {x y : π} {l pages : List π}

theorem mem_logPageInsert : y ∈ logPageInsert start l x ↔ y = x ∨ y ∈ l := by
  induction l with
  | nil => simp [logPageInsert]
  | cons z rest ih =>
    simp only [logPageInsert]
    split
    · simp only [mem_cons, ih]
      exact or_left_comm
    · simp

theorem pairwise_logPageInsert (hl : l.Pairwise fun a b => start a < start b)
    (hne : ∀ y ∈ l, start y ≠ start x) : (logPageInsert start l x).Pairwise fun a b => start a < start b := by
  induction l with
  | nil => simp [logPageInsert]
  | cons z rest ih =>
    obtain ⟨hz, hrest⟩ := pairwise_cons.mp hl
    have hzx := hne z mem_cons_self
    simp only [logPageInsert]
    split
    · refine pairwise_cons.mpr ⟨fun y hy => ?_, ih hrest fun y hy => hne y (mem_cons_of_mem _ hy)⟩
      obtain rfl | hy := mem_logPageInsert.1 hy
      · assumption
      · exact hz y hy
    · have hlt : start x < start z := by omega
      exact pairwise_cons.mpr ⟨forall_mem_cons.2 ⟨hlt, fun y hy => Nat.lt_trans hlt (hz y hy)⟩, hl⟩

theorem foldl_logPageInsert (rest : List π) : ∀ {acc : List π},
    acc.Pairwise (fun a b => start a < start b) → (∀ a ∈ acc, ∀ b ∈ rest, start b ≠ 0 → start a ≠ start b) →
    rest.Pairwise (fun a b => start b ≠ 0 → start a ≠ start b) →
    (rest.foldl (fun acc p => if start p = 0 then acc else logPageInsert start acc p) acc).Pairwise
      fun a b => start a < start b := by
  induction rest with
  | nil => exact fun hacc _ _ => hacc
  | cons p rest ih =>
    intro acc hacc hne hrest
    obtain ⟨hp, hrest⟩ := pairwise_cons.mp hrest
    rw [foldl_cons]
    by_cases h0 : start p = 0
    · rw [if_pos h0]
      exact ih hacc (fun a ha b hb => hne a ha b (mem_cons_of_mem _ hb)) hrest
    · rw [if_neg h0]
      refine ih (pairwise_logPageInsert hacc fun y hy => hne y hy p mem_cons_self h0) (fun a ha b hb => ?_) hrest
      obtain rfl | ha := mem_logPageInsert.1 ha
      · exact hp b hb
      · exact hne a ha b (mem_cons_of_mem _ hb)

theorem mem_checkWriteLogs : x ∈ checkWriteLogs start pages ↔ x ∈ pages ∧ start x ≠ 0 := by
  have hfold : ∀ (l acc : List π), x ∈ l.foldl (fun acc p => if start p = 0 then acc else logPageInsert start acc p) acc ↔
      x ∈ l ∧ start x ≠ 0 ∨ x ∈ acc := by
    intro l
    induction l with
    | nil => simp
    | cons p rest ih =>
      intro acc
      grind [mem_logPageInsert]
  simp [checkWriteLogs, hfold]

end QuadStor
