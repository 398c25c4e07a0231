import Mathlib

/-!
# Words as bit strings

The bits of words of a fixed width, the most significant first, and sequences of words as the
concatenation of their bits. Cutting the same bits into words of another width is a regrouping.

## Main definitions

* `bits w v`: the low `w` bits of `v`, the most significant first
* `wordBits w l`: the bits of a sequence of words of width `w`

## Main results

* `bits_add`, `bits_join`: a word is its high bits followed by its low bits
* `bits_eq_iff`: bits determine the word up to its width
* `wordBits_injective`: bits determine the sequence of words
-/

namespace Ninfer

/-- The low `w` bits of `v`, the most significant first. -/
def bits : Nat → Nat → List Bool
  | 0, _ => []
  | w + 1, v => v.testBit w :: bits w v

/-- The bits of a sequence of words of width `w`. -/
def wordBits (w : Nat) (l : List Nat) : List Bool := l.flatMap (bits w)

section Bits

variable {w : Nat} {u v : Nat}

@[simp] theorem bits_zero (v : Nat) : bits 0 v = [] := rfl

@[simp] theorem length_bits (w v : Nat) : (bits w v).length = w := by
  induction w with
  | zero => rfl
  | succ w ih => simp [bits, ih]

/-- Words have the same bits if they agree below the width. -/
theorem bits_eq_iff_testBit : bits w u = bits w v ↔ ∀ i < w, u.testBit i = v.testBit i := by
  induction w with
  | zero => simp
  | succ w ih =>
    rw [bits, bits, List.cons.injEq, ih]
    constructor
    · rintro ⟨hfirst, hrest⟩ i hi
      rcases Nat.lt_succ_iff_lt_or_eq.mp hi with hi | rfl
      · exact hrest i hi
      · exact hfirst
    · intro h
      exact ⟨h w (Nat.lt_succ_self w), fun i hi => h i (Nat.lt_succ_of_lt hi)⟩

theorem bits_eq_iff : bits w u = bits w v ↔ u % 2 ^ w = v % 2 ^ w := by
  rw [bits_eq_iff_testBit]
  constructor
  · intro h
    apply Nat.eq_of_testBit_eq
    intro i
    rw [Nat.testBit_mod_two_pow, Nat.testBit_mod_two_pow]
    by_cases hi : i < w
    · rw [h i hi]
    · simp [hi]
  · intro h i hi
    have hu := Nat.testBit_mod_two_pow u w i
    have hv := Nat.testBit_mod_two_pow v w i
    rw [h] at hu
    simpa [hi] using hu.symm.trans hv

/-- A word is its high bits followed by its low bits. -/
theorem bits_add (a b v : Nat) : bits (a + b) v = bits a (v / 2 ^ b) ++ bits b v := by
  induction a with
  | zero => simp
  | succ a ih =>
    rw [Nat.succ_add, bits, bits, ih, Nat.testBit_div_two_pow, List.cons_append]

theorem bits_mod (w v : Nat) : bits w (v % 2 ^ w) = bits w v :=
  bits_eq_iff.mpr (Nat.mod_mod _ _)

/-- Two words beside each other. -/
theorem bits_join {a b u v : Nat} (hv : v < 2 ^ b) :
    bits (a + b) (u * 2 ^ b + v) = bits a u ++ bits b v := by
  have hhigh : (u * 2 ^ b + v) / 2 ^ b = u := by
    rw [Nat.add_comm, Nat.add_mul_div_right _ _ (Nat.two_pow_pos b), Nat.div_eq_of_lt hv,
      Nat.zero_add]
  have hlow : bits b (u * 2 ^ b + v) = bits b v := by
    rw [bits_eq_iff, Nat.mul_comm, Nat.mul_add_mod]
  rw [bits_add, hhigh, hlow]

end Bits

section WordBits

variable {w : Nat} {l m : List Nat}

@[simp] theorem wordBits_nil (w : Nat) : wordBits w [] = [] := rfl

@[simp] theorem wordBits_cons (w v : Nat) (l : List Nat) :
    wordBits w (v :: l) = bits w v ++ wordBits w l := rfl

@[simp] theorem wordBits_append (w : Nat) (l m : List Nat) :
    wordBits w (l ++ m) = wordBits w l ++ wordBits w m :=
  List.flatMap_append

@[simp] theorem length_wordBits (w : Nat) (l : List Nat) :
    (wordBits w l).length = l.length * w := by
  induction l with
  | nil => simp
  | cons v l ih => simp [ih, Nat.succ_mul, Nat.add_comm]

/-- Sequences of words with the same bits are the same, if their words fit the width. -/
theorem wordBits_injective (hw : 0 < w) (hl : ∀ v ∈ l, v < 2 ^ w) (hm : ∀ v ∈ m, v < 2 ^ w)
    (h : wordBits w l = wordBits w m) : l = m := by
  induction l generalizing m with
  | nil =>
    have hlength := congrArg List.length h
    rw [length_wordBits, length_wordBits, List.length_nil, Nat.zero_mul] at hlength
    have hzero : m.length = 0 := by
      rcases Nat.mul_eq_zero.mp hlength.symm with hzero | hzero
      · exact hzero
      · omega
    exact (List.length_eq_zero_iff.mp hzero).symm
  | cons u l ih =>
    cases m with
    | nil =>
      have hlength := congrArg List.length h
      rw [length_wordBits, length_wordBits, List.length_nil, Nat.zero_mul, List.length_cons,
        Nat.succ_mul] at hlength
      omega
    | cons v m =>
      rw [wordBits_cons, wordBits_cons] at h
      obtain ⟨hfirst, hrest⟩ := List.append_inj h (by simp)
      rw [bits_eq_iff, Nat.mod_eq_of_lt (hl u List.mem_cons_self),
        Nat.mod_eq_of_lt (hm v List.mem_cons_self)] at hfirst
      rw [hfirst, ih (fun x hx => hl x (List.mem_cons_of_mem _ hx))
        (fun x hx => hm x (List.mem_cons_of_mem _ hx)) hrest]

end WordBits

end Ninfer
