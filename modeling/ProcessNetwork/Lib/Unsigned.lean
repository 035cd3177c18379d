import Mathlib.Tactic

/-!
# Unsigned arithmetic

Sums and products modulo `2 ^ 32` or `2 ^ 64`, and differences that wrap.
-/

namespace ProcessNetwork

/-- `unsigned` arithmetic: the value modulo `2 ^ 32`. -/
def u32 (n : Nat) : Nat := n % 2 ^ 32

theorem u32_of_lt {n : Nat} (h : n < 2 ^ 32) : u32 n = n := Nat.mod_eq_of_lt h

/-- `unsigned` subtraction. -/
def sub32 (a b : Nat) : Nat := u32 (a + 2 ^ 32 - b)

theorem sub32_of_le {a b : Nat} (h : b ≤ a) (ha : a < 2 ^ 32) : sub32 a b = a - b := by
  unfold sub32 u32
  omega

/-- `unsigned long` arithmetic. -/
def u64 (n : Nat) : Nat := n % 2 ^ 64

theorem u64_of_lt {n : Nat} (h : n < 2 ^ 64) : u64 n = n := Nat.mod_eq_of_lt h

/-- `unsigned long` subtraction. -/
def sub64 (a b : Nat) : Nat := u64 (a + 2 ^ 64 - b)

theorem sub64_of_le {a b : Nat} (h : b ≤ a) (ha : a < 2 ^ 64) : sub64 a b = a - b := by
  rw [sub64, u64, show a + 2 ^ 64 - b = a - b + 2 ^ 64 by omega, Nat.add_mod_right, Nat.mod_eq_of_lt (by omega)]

end ProcessNetwork
