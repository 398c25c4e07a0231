import Mathlib

/-!
# Overwriting part of a list

A list with a stretch of it replaced in place: what a sequence of writes at successive positions
makes of a file, and what reading a stretch of a buffer gives after writes to it.

## Main definitions

* `splice`: a list overwritten from a position on
* `slice`, `setSlice`: the items between two positions, read and replaced

## Main results

* `splice_cons`: overwriting item by item
* `take_splice`, `drop_splice`: what lies before and after the stretch is kept
* `getElem?_setSlice`, `slice_setSlice_self`, `slice_setSlice_of_disjoint`: what a buffer holds
  after a write
-/

namespace Ninfer

variable {α : Type} {l data : List α} {start n : Nat}

/-- The list with `data` written over it from the position `start` on. -/
def splice (l : List α) (start : Nat) (data : List α) : List α :=
  l.take start ++ (data ++ l.drop (start + data.length))

theorem splice_nil : splice l start [] = l := List.take_append_drop start l

theorem splice_zero (l data : List α) : splice l 0 data = data ++ l.drop data.length := by
  unfold splice
  rw [List.take_zero, List.nil_append, Nat.zero_add]

theorem length_splice (h : start + data.length ≤ l.length) :
    (splice l start data).length = l.length := by
  unfold splice
  rw [List.length_append, List.length_append, List.length_take, List.length_drop]
  omega

theorem splice_cons {a : α} (h : start < l.length) :
    splice (l.set start a) (start + 1) data = splice l start (a :: data) := by
  have htake : (l.set start a).take (start + 1) = l.take start ++ [a] := by
    rw [List.take_succ_eq_append_getElem (by rwa [List.length_set]), List.getElem_set_self,
      List.take_set_of_le (Nat.le_refl start)]
  have hdrop : (l.set start a).drop (start + 1 + data.length) =
      l.drop (start + (a :: data).length) := by
    rw [List.drop_set_of_lt (by omega), List.length_cons]
    congr 1
    omega
  unfold splice
  rw [htake, hdrop, List.append_assoc]
  rfl

theorem take_splice (hn : n ≤ start) (h : start ≤ l.length) :
    (splice l start data).take n = l.take n := by
  unfold splice
  rw [List.take_append_of_le_length (by rw [List.length_take]; omega), List.take_take,
    Nat.min_eq_left hn]

theorem drop_splice (h : start + data.length ≤ l.length) (hn : start + data.length ≤ n) :
    (splice l start data).drop n = l.drop n := by
  unfold splice
  rw [← List.append_assoc]
  have hlength : (l.take start ++ data).length = start + data.length := by
    rw [List.length_append, List.length_take]
    omega
  obtain ⟨m, rfl⟩ := Nat.exists_eq_add_of_le hn
  rw [← hlength, List.drop_length_add_append, List.drop_drop]

/-- A list overwritten with what it holds there. -/
theorem splice_self (h : l.take (start + data.length) = l.take start ++ data) :
    splice l start data = l := by
  unfold splice
  rw [← List.append_assoc, ← h, List.take_append_drop]

/-- The items from the position `first` up to the position `last`. -/
def slice (l : List α) (first last : Nat) : List α := (l.drop first).take (last - first)

/-- The list with the items from `first` up to `last` replaced, by fewer or more if need be. -/
def setSlice (l : List α) (first last : Nat) (data : List α) : List α :=
  l.take first ++ (data ++ l.drop (max first last))

section Slices

variable {first last from' to' i : Nat}

theorem length_slice (h : last ≤ l.length) : (slice l first last).length = last - first := by
  unfold slice
  rw [List.length_take, List.length_drop]
  omega

theorem getElem?_slice (l : List α) (first last i : Nat) :
    (slice l first last)[i]? = if i < last - first then l[first + i]? else none := by
  unfold slice
  rw [List.getElem?_take, List.getElem?_drop]

/-- A list is the slice of all of it. -/
theorem slice_all (l : List α) : slice l 0 l.length = l := by
  unfold slice
  rw [List.drop_zero, Nat.sub_zero, List.take_length]

/-- Two slices, the second from where the first ends. -/
theorem slice_append_slice (l : List α) (hfirst : first ≤ i) (hlast : i ≤ last) :
    slice l first i ++ slice l i last = slice l first last := by
  have hrest : l.drop i = (l.drop first).drop (i - first) := by
    rw [List.drop_drop, Nat.add_sub_cancel' hfirst]
  have hcount : last - first = (i - first) + (last - i) := by omega
  unfold slice
  rw [hrest, hcount, List.take_add]

theorem setSlice_eq_splice (h : last = first + data.length) :
    setSlice l first last data = splice l first data := by
  unfold setSlice splice
  rw [h, Nat.max_eq_right (Nat.le_add_right _ _)]

theorem length_setSlice (hdata : last = first + data.length) (h : last ≤ l.length) :
    (setSlice l first last data).length = l.length := by
  rw [setSlice_eq_splice hdata]
  exact length_splice (hdata ▸ h)

/-- A write over the second of three parts. -/
theorem setSlice_append {before old after : List α} (hbefore : before.length = first)
    (hold : first + old.length = last) :
    setSlice (before ++ (old ++ after)) first last data = before ++ (data ++ after) := by
  have hskip : last = (before ++ old).length := by
    rw [List.length_append, hbefore, hold]
  unfold setSlice
  rw [List.take_left' hbefore, Nat.max_eq_right (by omega), ← List.append_assoc before old after,
    List.drop_left' hskip.symm]

/-- What stands at a position after a write of the length of its stretch. -/
theorem getElem?_setSlice (hdata : last = first + data.length) (h : last ≤ l.length) (i : Nat) :
    (setSlice l first last data)[i]? =
      if first ≤ i ∧ i < last then data[i - first]? else l[i]? := by
  rw [setSlice_eq_splice hdata]
  unfold splice
  have htake : (l.take first).length = first := by rw [List.length_take]; omega
  rw [List.getElem?_append, htake]
  by_cases hbefore : i < first
  · rw [if_pos hbefore, if_neg (by omega), List.getElem?_take, if_pos hbefore]
  · rw [if_neg hbefore, List.getElem?_append]
    by_cases hwithin : i < last
    · rw [if_pos (by omega), if_pos ⟨by omega, hwithin⟩]
    · rw [if_neg (by omega), if_neg (by omega), List.getElem?_drop]
      congr 1
      omega

/-- The stretch written last reads as what was written. -/
theorem slice_setSlice_self (hdata : last = first + data.length) (h : last ≤ l.length) :
    slice (setSlice l first last data) first last = data := by
  apply List.ext_getElem?
  intro i
  rw [getElem?_slice, getElem?_setSlice hdata h]
  by_cases hi : i < last - first
  · rw [if_pos hi, if_pos ⟨by omega, by omega⟩, Nat.add_sub_cancel_left]
  · rw [if_neg hi, List.getElem?_eq_none (by omega)]

/-- A write elsewhere leaves a stretch as it is. -/
theorem slice_setSlice_of_disjoint (hdata : last = first + data.length) (h : last ≤ l.length)
    (hdisjoint : to' ≤ first ∨ last ≤ from') :
    slice (setSlice l first last data) from' to' = slice l from' to' := by
  apply List.ext_getElem?
  intro i
  rw [getElem?_slice, getElem?_slice, getElem?_setSlice hdata h]
  by_cases hi : i < to' - from'
  · rw [if_pos hi, if_pos hi, if_neg (by omega)]
  · rw [if_neg hi, if_neg hi]

end Slices

end Ninfer
