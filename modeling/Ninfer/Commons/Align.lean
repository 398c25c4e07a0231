import Mathlib

/-!
# Alignment

Rounding a position up to a multiple of an alignment, on natural numbers, and the mask arithmetic
on 64-bit words that computes it when the alignment is a power of two.

## Main definitions

* `U64.size`, `U64.complement`: the number of 64-bit words, and the bitwise complement of one
* `roundUp`: the first multiple of the alignment at or after a position

## Main results

* `U64.land_complement`: `value & ~(alignment - 1)` clears the remainder
* `roundUp_le`: the rounded position is the first one
* `roundUp_lt_iff`: when the sum that is rounded down overflows
* `roundUp_add`: rounding commutes with moving by a multiple of the alignment
-/

namespace Ninfer

namespace U64

/-- The number of values of a 64-bit word. -/
def size : Nat := 2 ^ 64

/-- `~a` on 64-bit words. -/
def complement (a : Nat) : Nat := size - 1 - a

theorem complement_eq {k : Nat} (hk : k ≤ 64) :
    complement (2 ^ k - 1) = (2 ^ (64 - k) - 1) * 2 ^ k := by
  have hpos : 0 < 2 ^ k := Nat.two_pow_pos k
  unfold complement size
  rw [Nat.sub_one_mul, ← Nat.pow_add, Nat.sub_add_cancel hk]
  omega

/-- Clearing the low `k` bits of a word rounds it down to a multiple of `2 ^ k`. -/
theorem land_complement {k a : Nat} (hk : k ≤ 64) (ha : a < size) :
    a &&& complement (2 ^ k - 1) = a / 2 ^ k * 2 ^ k := by
  rw [complement_eq hk]
  apply Nat.eq_of_testBit_eq
  intro i
  rw [Nat.testBit_and, Nat.testBit_mul_two_pow, Nat.testBit_mul_two_pow,
    Nat.testBit_two_pow_sub_one, Nat.testBit_div_two_pow]
  by_cases hi : k ≤ i
  · rw [Nat.sub_add_cancel hi]
    -- above the word both sides are clear
    by_cases hi64 : i < 64
    · simp [hi, show i - k < 64 - k by omega]
    · have : a.testBit i = false :=
        Nat.testBit_lt_two_pow (Nat.lt_of_lt_of_le ha (Nat.pow_le_pow_right (by omega) (by omega)))
      simp [this]
  · simp [hi]

end U64

/-- The first multiple of `alignment` at or after `position`. -/
def roundUp (position alignment : Nat) : Nat :=
  (position + (alignment - 1)) / alignment * alignment

section RoundUp

variable {position alignment : Nat}

theorem dvd_roundUp (position alignment : Nat) : alignment ∣ roundUp position alignment :=
  Nat.dvd_mul_left _ _

theorem le_roundUp (position : Nat) (h : 0 < alignment) :
    position ≤ roundUp position alignment := by
  have hlt := Nat.lt_div_mul_add (a := position + (alignment - 1)) h
  unfold roundUp
  omega

/-- A multiple of the alignment at or after the position is at or after the rounded position. -/
theorem roundUp_le {m : Nat} (h : 0 < alignment) (hm : alignment ∣ m) (hle : position ≤ m) :
    roundUp position alignment ≤ m := by
  obtain ⟨c, rfl⟩ := hm
  unfold roundUp
  rw [Nat.mul_comm alignment c]
  apply Nat.mul_le_mul_right
  apply Nat.le_of_lt_succ
  apply (Nat.div_lt_iff_lt_mul h).mpr
  rw [Nat.succ_mul, Nat.mul_comm c alignment]
  omega

theorem roundUp_of_dvd (h : 0 < alignment) (hd : alignment ∣ position) :
    roundUp position alignment = position :=
  Nat.le_antisymm (roundUp_le h hd (Nat.le_refl _)) (le_roundUp _ h)

/-- A bound that the alignment divides is above the rounded position exactly when it is above the
sum that is rounded down. -/
theorem roundUp_lt_iff {limit : Nat} (h : 0 < alignment) (hd : alignment ∣ limit) :
    roundUp position alignment < limit ↔ position + (alignment - 1) < limit := by
  constructor
  · intro hlt
    obtain ⟨c, rfl⟩ := hd
    obtain ⟨d, hround⟩ := dvd_roundUp position alignment
    have hup := le_roundUp position h
    rw [hround] at hlt hup
    have hdc : d + 1 ≤ c := Nat.lt_of_mul_lt_mul_left hlt
    have hmul : alignment * (d + 1) ≤ alignment * c := Nat.mul_le_mul_left alignment hdc
    rw [Nat.mul_succ] at hmul
    omega
  · intro hlt
    exact Nat.lt_of_le_of_lt (Nat.div_mul_le_self _ _) hlt

/-- Rounding an address whose base is aligned is rounding the offset from the base. -/
theorem roundUp_add {base : Nat} (h : 0 < alignment) (hb : alignment ∣ base) :
    roundUp (base + position) alignment = base + roundUp position alignment := by
  obtain ⟨c, rfl⟩ := hb
  unfold roundUp
  rw [Nat.add_assoc, Nat.mul_add_div h, Nat.add_mul, Nat.mul_comm alignment c]

end RoundUp

end Ninfer
