import Mathlib

/-!
# Tables written entry by entry

Entries are written into a table, each at its own index. An entry is found there afterwards, unless
another one with another value has the same index.

## Main results

* `getElem?_foldl_set`: an entry is found
-/

namespace Ninfer

variable {ε β : Type} (index : ε → Nat) (value : ε → β) {entries : List ε} {table : List β}

theorem length_foldl_set : (entries.foldl (fun table e => table.set (index e) (value e)) table).length =
    table.length := by
  induction entries generalizing table with
  | nil => rfl
  | cons e entries ih => rw [List.foldl_cons, ih, List.length_set]

/-- A value that is there stays, if only this value is written at its index. -/
theorem getElem?_foldl_set_of_some {j : Nat} {b : β} (h : ∀ e ∈ entries, index e = j → value e = b)
    (hold : table[j]? = some b) :
    (entries.foldl (fun table e => table.set (index e) (value e)) table)[j]? = some b := by
  induction entries generalizing table with
  | nil => exact hold
  | cons e entries ih =>
    obtain ⟨he, hentries⟩ := List.forall_mem_cons.mp h
    rw [List.foldl_cons]
    refine ih hentries ?_
    by_cases hj : index e = j
    · obtain ⟨hlt, -⟩ := List.getElem?_eq_some_iff.mp hold
      rw [hj, List.getElem?_set_self hlt, he hj]
    · rw [List.getElem?_set_ne hj, hold]

/-- **An entry is found**, if no other value is written at its index. -/
theorem getElem?_foldl_set {e : ε} (he : e ∈ entries)
    (h : ∀ e' ∈ entries, index e' = index e → value e' = value e) (hlt : index e < table.length) :
    (entries.foldl (fun table e => table.set (index e) (value e)) table)[index e]? =
      some (value e) := by
  induction entries generalizing table with
  | nil => exact nomatch he
  | cons first entries ih =>
    obtain ⟨hfirst, hentries⟩ := List.forall_mem_cons.mp h
    rw [List.foldl_cons]
    rcases List.mem_cons.mp he with rfl | he
    · exact getElem?_foldl_set_of_some index value hentries (List.getElem?_set_self hlt)
    · exact ih he hentries (by rwa [List.length_set])

end Ninfer
