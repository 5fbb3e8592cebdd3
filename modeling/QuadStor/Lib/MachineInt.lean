import Mathlib.Tactic.NormNum

/-!
# Fixed-width C integers over `Nat` and `Int`

Unsigned types are naturals reduced modulo their width; a conversion to `int` reads the low 32 bits as a two's
complement number.
-/

namespace QuadStor.Lib

def u16 (n : Nat) : Nat := n % 2 ^ 16

def u32 (n : Nat) : Nat := n % 2 ^ 32

def u64 (n : Nat) : Nat := n % 2 ^ 64

def s32 (n : Nat) : Int :=
  if n % 2 ^ 32 < 2 ^ 31 then (n % 2 ^ 32 : Nat) else (n % 2 ^ 32 : Nat) - 2 ^ 32

/-- `base + off` as C computes it for a `uint64_t` base and an `int` offset. -/
def addInt64 (base : Nat) (off : Int) : Nat := ((base + off) % 2 ^ 64).toNat

theorem u32_eq_of_lt {n : Nat} (h : n < 2 ^ 32) : u32 n = n := Nat.mod_eq_of_lt h

theorem s32_eq_of_lt {n : Nat} (h : n < 2 ^ 31) : s32 n = n := by
  have h' : n % 2 ^ 32 = n := Nat.mod_eq_of_lt (by omega)
  simp only [s32, h', h, if_true]

theorem addInt64_natCast {base n : Nat} (h : base + n < 2 ^ 64) : addInt64 base (n : Int) = base + n := by
  unfold addInt64
  omega

end QuadStor.Lib
