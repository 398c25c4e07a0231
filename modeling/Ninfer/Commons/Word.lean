import Mathlib

/-!
# Unsigned 32-bit arithmetic on natural numbers

The counters of the modelled code are `std::uint32_t`. They are natural numbers here, and the
operations that can wrap are the ones below; the lemmas say when they do not.

## Main definitions

* `U32.add`, `U32.sub`: addition and subtraction modulo `2 ^ 32`

## Main results

* `U32.add_eq`, `U32.sub_eq`: without overflow they are the operations of `ℕ`
-/

namespace Ninfer.U32

/-- The number of values of `std::uint32_t`. -/
def size : Nat := 2 ^ 32

/-- `a + b` on `std::uint32_t`. -/
def add (a b : Nat) : Nat := (a + b) % size

/-- `a - b` on `std::uint32_t`. -/
def sub (a b : Nat) : Nat := (a + (size - b)) % size

theorem lt_size {a : Nat} (h : a < 2 ^ 32) : a < size := by
  unfold size
  exact h

theorem add_eq {a b : Nat} (h : a + b < size) : add a b = a + b := by
  unfold add
  exact Nat.mod_eq_of_lt h

theorem sub_eq {a b : Nat} (hb : b ≤ a) (ha : a < size) : sub a b = a - b := by
  unfold sub
  rw [show a + (size - b) = (a - b) + size by omega, Nat.add_mod_right]
  exact Nat.mod_eq_of_lt (by omega)

end Ninfer.U32
