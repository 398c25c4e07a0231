import Mathlib

/-!
# Shared references

Objects of a given size are kept alive by references, listed with repetitions. What is alive takes
the sum of the sizes of the objects that are listed, each counted once.

## Main definitions

* `footprint size refs`: the size of the objects with a reference

## Main results

* `footprint_congr`: the footprint depends on which objects have a reference, not on how many
* `footprint_cons`, `footprint_of_drop`: what a first reference adds and the last one takes away
-/

namespace Ninfer

variable {α : Type} [DecidableEq α] {size size' : α → Nat} {refs refs' : List α} {a : α}

/-- The size of the objects with a reference. -/
def footprint (size : α → Nat) (refs : List α) : Nat := ∑ a ∈ refs.toFinset, size a

theorem footprint_congr (h : ∀ a, a ∈ refs ↔ a ∈ refs') : footprint size refs = footprint size refs' := by
  have hset : refs.toFinset = refs'.toFinset := by
    ext a
    rw [List.mem_toFinset, List.mem_toFinset, h]
  rw [footprint, hset, footprint]

/-- Sizes that agree on the objects with a reference. -/
theorem footprint_size_congr (h : ∀ a ∈ refs, size a = size' a) :
    footprint size refs = footprint size' refs :=
  Finset.sum_congr rfl fun a ha => h a (List.mem_toFinset.mp ha)

theorem footprint_cons (h : a ∉ refs) : footprint size (a :: refs) = size a + footprint size refs := by
  unfold footprint
  rw [List.toFinset_cons, Finset.sum_insert (by rwa [List.mem_toFinset])]

/-- A reference is dropped: the objects with a reference stay the same, or the last reference to
the object is gone. -/
theorem footprint_of_drop (h : ∀ b, b ∈ refs ↔ b = a ∨ b ∈ refs') :
    footprint size refs = (if a ∈ refs' then 0 else size a) + footprint size refs' := by
  split_ifs with ha
  · rw [Nat.zero_add]
    refine footprint_congr fun b => ?_
    rw [h]
    constructor
    · rintro (rfl | hb)
      · exact ha
      · exact hb
    · exact Or.inr
  · rw [← footprint_cons ha]
    refine footprint_congr fun b => ?_
    rw [h, List.mem_cons]

end Ninfer
