import Mathlib.Tactic.Cases
import QuadStor.Lib.MachineInt

/-!
# The blocks and pages of a virtual disk

Blocks have 512 or 4096 bytes, pages always 4096. An address map has the entries of some pages, a table those of some
maps, and the tables are kept in groups.
-/

namespace QuadStor

open Lib

/-- `tdisk->lba_shift`: blocks of 512 bytes, or of 4096 bytes (`LBA_SHIFT`) -/
inductive LbaShift where
  | sector
  | page
  deriving DecidableEq, Repr

@[simp] def LbaShift.bits : LbaShift → Nat
  | .sector => 9
  | .page => 12

structure Geometry where
  endLba : Nat
  legacy : Bool

/-- The source returns an `int`. Only the range lock uses its sign. -/
def transferLengthToPglistCnt (lbaShift transferLength : Nat) : Nat :=
  if lbaShift = 12 then transferLength
  else
    let size := u32 (transferLength * 2 ^ lbaShift)
    if size % 4096 ≠ 0 then size / 4096 + 1 else size / 4096

theorem pglistCnt_legacy (n : Nat) : transferLengthToPglistCnt 9 n = (n * 512 % 2 ^ 32 + 4095) / 4096 := by
  rw [transferLengthToPglistCnt, if_neg (by decide)]
  by_cases hpart : u32 (n * 2 ^ 9) % 4096 ≠ 0
  · simp only [if_pos hpart]
    unfold u32 at hpart ⊢
    omega
  · simp only [if_neg hpart]
    unfold u32 at hpart ⊢
    omega

namespace Geometry

variable (g : Geometry) (lba n : Nat)

def lbaShift : Nat := if g.legacy then LbaShift.sector.bits else LbaShift.page.bits

def lbaDiff : Nat := if g.legacy then lba % 8 else 0

def lbaReal : Nat := if g.legacy then lba / 8 else lba

/-- The sum has 64 bits in the source. It cannot wrap for an `lba` on the disk. -/
def reachedEom (transferLength : Nat) : Bool := g.endLba ≤ lba || g.endLba < lba + transferLength

def perPage : Nat := if g.legacy then 8 else 1

theorem cases :
    g.legacy = true ∧ g.lbaShift = 9 ∧ g.perPage = 8 ∧ (∀ n, g.lbaDiff n = n % 8) ∧ (∀ n, g.lbaReal n = n / 8) ∨
      g.legacy = false ∧ g.lbaShift = 12 ∧ g.perPage = 1 ∧ (∀ n, g.lbaDiff n = 0) ∧ ∀ n, g.lbaReal n = n := by
  cases hl : g.legacy with
  | true | false => simp [lbaShift, perPage, lbaDiff, lbaReal, hl]

theorem lbaShift_congr {g g' : Geometry} (h : g.legacy = g'.legacy) : g.lbaShift = g'.lbaShift := by
  rw [lbaShift, h, lbaShift]

theorem lbaReal_congr {g g' : Geometry} {lba : Nat} (h : g.legacy = g'.legacy) : g.lbaReal lba = g'.lbaReal lba := by
  rw [lbaReal, h, lbaReal]

theorem perPage_mul : g.perPage * 2 ^ g.lbaShift = 4096 := by
  obtain ⟨-, hshift, hper, -⟩ | ⟨-, hshift, hper, -⟩ := g.cases
  all_goals simp [hshift, hper]

theorem mul_perPage : n * g.perPage * 2 ^ g.lbaShift = n * 4096 := by
  rw [Nat.mul_assoc, perPage_mul]

theorem lbaReal_mul {g : Geometry} {n : Nat} (h : g.legacy = true → n % 8 = 0) : g.lbaReal n * 4096 = n * 2 ^ g.lbaShift := by
  obtain ⟨hl, hshift, -, -, hreal⟩ | ⟨-, hshift, -, -, hreal⟩ := g.cases
  · have := h hl
    rw [hshift, hreal]
    omega
  · rw [hshift, hreal]
    rfl

theorem perPage_pos : 0 < g.perPage := by
  unfold perPage
  split <;> decide

theorem lbaReal_eq : g.lbaReal lba = lba / g.perPage := by
  cases h : g.legacy <;> simp [perPage, lbaReal, h]

theorem lbaDiff_eq : g.lbaDiff lba = lba % g.perPage := by
  cases h : g.legacy <;> simp [perPage, lbaDiff, h, Nat.mod_one]

theorem lbaDiff_lt : g.lbaDiff lba < g.perPage := by
  rw [lbaDiff_eq]
  exact Nat.mod_lt _ g.perPage_pos

theorem perPage_mul_lbaReal_add : g.perPage * g.lbaReal lba + g.lbaDiff lba = lba := by
  rw [lbaReal_eq, lbaDiff_eq]
  exact Nat.div_add_mod lba g.perPage

theorem lbaDiff_mul_lt : (g.lbaDiff lba + 1) * 2 ^ g.lbaShift ≤ 4096 := by
  rw [← g.perPage_mul]
  exact Nat.mul_le_mul_right _ (g.lbaDiff_lt lba)

theorem lbaReal_mul_add : g.lbaReal lba * 4096 + g.lbaDiff lba * 2 ^ g.lbaShift = lba * 2 ^ g.lbaShift := by
  rw [← mul_perPage, ← Nat.add_mul, Nat.mul_comm (g.lbaReal lba), perPage_mul_lbaReal_add]

end Geometry

/-! ## Address maps -/

def lbasPerAmap : Nat := 654

def amapsPerAmapTable : Nat := 695

def amapTablePerGroup : Nat := 512

def lbasPerAmapTable : Nat := lbasPerAmap * amapsPerAmapTable

def amapId (lba : Nat) : Nat := lba / lbasPerAmap

def amapTableId (lba : Nat) : Nat := lba / lbasPerAmapTable

def tableId (amapId : Nat) : Nat := amapId / amapsPerAmapTable

theorem tableId_amapId (lba : Nat) : tableId (amapId lba) = amapTableId lba :=
  Nat.div_div_eq_div_mul lba lbasPerAmap amapsPerAmapTable

end QuadStor
