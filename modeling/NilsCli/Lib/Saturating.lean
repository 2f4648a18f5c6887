import Mathlib.Data.Int.Basic
import Mathlib.Order.Lattice
import Mathlib.Tactic.Linarith

/-!
# Saturating machine arithmetic

Counters and clocks of fixed width that stop at their bounds instead of wrapping.
-/

namespace Lib

/-- The largest unsigned 32-bit value. -/
def u32Max : Nat := 2 ^ 32 - 1

def u32Succ (n : Nat) : Nat := if n < u32Max then n + 1 else n

theorem le_u32Succ (n : Nat) : n ≤ u32Succ n := by
  unfold u32Succ; split <;> omega

theorem u32Succ_le (n : Nat) : u32Succ n ≤ n + 1 := by
  unfold u32Succ; split <;> omega

/-- The largest unsigned 64-bit value. -/
def u64Max : Nat := 2 ^ 64 - 1

def u64Succ (n : Nat) : Nat := if n < u64Max then n + 1 else n

theorem le_u64Succ (n : Nat) : n ≤ u64Succ n := by
  unfold u64Succ; split <;> omega

/-- A counter below its bound is not its own successor. -/
theorem lt_u64Succ_iff {n : Nat} : n < u64Succ n ↔ n < u64Max := by
  unfold u64Succ; split <;> omega

def u64Add (a b : Nat) : Nat := min (a + b) u64Max

/-- The bounds of a signed 64-bit value. -/
def i64Max : Int := 2 ^ 63 - 1

def i64Min : Int := -(2 ^ 63)

/-- The signed 64-bit value nearest to `x`. -/
def i64Clamp (x : Int) : Int := max i64Min (min i64Max x)

/-- `a.saturating_add(b)` of signed 64-bit values. -/
def i64Add (a b : Int) : Int := i64Clamp (a + b)

/-- `a.saturating_sub(b)` of signed 64-bit values. -/
def i64Sub (a b : Int) : Int := i64Clamp (a - b)

theorem i64Clamp_mono {x y : Int} (h : x ≤ y) : i64Clamp x ≤ i64Clamp y := by
  unfold i64Clamp i64Min i64Max; omega

theorem i64Add_mono_left {a b : Int} (c : Int) (h : a ≤ b) : i64Add a c ≤ i64Add b c :=
  i64Clamp_mono (by omega)

end Lib
