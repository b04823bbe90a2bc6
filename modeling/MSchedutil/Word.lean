import Mathlib.Tactic.Linarith
import Mathlib.Tactic.Ring

/-! Machine words as natural numbers: reduction to 32 and 64 bits, wrapping
subtraction, and the signed reading of a 64-bit word. -/

namespace Word

def u32 (n : Nat) : Nat := n % 2 ^ 32

def u64 (n : Nat) : Nat := n % 2 ^ 64

/-- Subtraction of unsigned 32-bit words, wrapping below zero. -/
def sub32 (a b : Nat) : Nat := u32 (a + (2 ^ 32 - u32 b))

/-- Subtraction of unsigned 64-bit words, wrapping below zero. -/
def sub64 (a b : Nat) : Nat := u64 (a + (2 ^ 64 - u64 b))

/-- The signed reading of a 64-bit word. -/
def s64 (n : Nat) : Int := if u64 n < 2 ^ 63 then u64 n else (u64 n : Int) - 2 ^ 64

/-- The 64-bit word of a signed value. -/
def ofInt64 (x : Int) : Nat := (x % 2 ^ 64).toNat

theorem u32_lt (n : Nat) : u32 n < 2 ^ 32 := Nat.mod_lt _ (by norm_num)

theorem u64_lt (n : Nat) : u64 n < 2 ^ 64 := Nat.mod_lt _ (by norm_num)

theorem u32_of_lt {n : Nat} (h : n < 2 ^ 32) : u32 n = n := Nat.mod_eq_of_lt h

theorem u64_of_lt {n : Nat} (h : n < 2 ^ 64) : u64 n = n := Nat.mod_eq_of_lt h

theorem u32_le (n : Nat) : u32 n ≤ n := Nat.mod_le _ _

theorem u64_le (n : Nat) : u64 n ≤ n := Nat.mod_le _ _

theorem sub32_of_le {a b : Nat} (hab : b ≤ a) (ha : a < 2 ^ 32) : sub32 a b = a - b := by
  unfold sub32 u32
  omega

theorem sub64_of_le {a b : Nat} (hab : b ≤ a) (ha : a < 2 ^ 64) : sub64 a b = a - b := by
  unfold sub64 u64
  omega

theorem s64_of_lt {n : Nat} (h : n < 2 ^ 63) : s64 n = n := by
  unfold s64 u64
  have hn : n % 2 ^ 64 = n := Nat.mod_eq_of_lt (by omega)
  rw [hn, if_pos h]

theorem s64_nonneg_iff (n : Nat) : 0 ≤ s64 n ↔ u64 n < 2 ^ 63 := by
  have hlt := u64_lt n
  unfold s64
  split <;> omega

end Word
