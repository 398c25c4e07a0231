import Mathlib

/-!
# Searching a sorted list

`std::lower_bound`: the first position of a sorted list whose element is not below a value. The
position cuts the list: what is in front of it is below the value, what is behind it is not.

## Main definitions

* `lowerBound`: the position found

## Main results

* `lt_of_lt_lowerBound`, `le_of_lowerBound_le`: the two sides of the cut
* `lowerBound_le_lowerBound`: a larger value is found further behind
* `lowerBound_eq_length`: above all elements nothing is found
-/

namespace Ninfer

variable {α : Type*} [LinearOrder α]

/-- The position `std::lower_bound` returns, on a list that is sorted. -/
def lowerBound (l : List α) (v : α) : Nat := l.findIdx fun a => decide (v ≤ a)

variable {l : List α} {v w : α} {i : Nat}

theorem lowerBound_le_length (l : List α) (v : α) : lowerBound l v ≤ l.length :=
  List.findIdx_le_length

theorem lt_of_lt_lowerBound (hi : i < l.length) (hlt : i < lowerBound l v) : l[i] < v := by
  have hnot := List.not_of_lt_findIdx hlt
  simpa using hnot

/-- What is behind the cut is not below the value, since the list is sorted. -/
theorem le_of_lowerBound_le (hs : l.Pairwise (· ≤ ·)) (hi : i < l.length)
    (hle : lowerBound l v ≤ i) : v ≤ l[i] := by
  have hfound : lowerBound l v < l.length := hle.trans_lt hi
  have hv : v ≤ l[lowerBound l v] := of_decide_eq_true (List.findIdx_getElem (w := hfound))
  rcases Nat.eq_or_lt_of_le hle with heq | hlt
  · simpa [heq] using hv
  · exact hv.trans (List.pairwise_iff_getElem.mp hs _ _ hfound hi hlt)

theorem lt_lowerBound_iff (hs : l.Pairwise (· ≤ ·)) (hi : i < l.length) :
    i < lowerBound l v ↔ l[i] < v := by
  constructor
  · exact fun h => lt_of_lt_lowerBound hi h
  · intro h
    by_contra hle
    exact absurd (le_of_lowerBound_le hs hi (Nat.le_of_not_lt hle)) (not_le_of_gt h)

theorem lowerBound_le_iff (hs : l.Pairwise (· ≤ ·)) (hi : i < l.length) :
    lowerBound l v ≤ i ↔ v ≤ l[i] := by
  rw [← not_lt, lt_lowerBound_iff hs hi, not_lt]

theorem lowerBound_le_lowerBound (hs : l.Pairwise (· ≤ ·)) (h : v ≤ w) :
    lowerBound l v ≤ lowerBound l w := by
  by_contra hlt
  rw [not_le] at hlt
  have hi := hlt.trans_le (lowerBound_le_length l v)
  -- the element found for the larger value would be below the smaller one
  have hbelow := lt_of_lt_lowerBound hi hlt
  have habove := le_of_lowerBound_le hs hi (Nat.le_refl _)
  exact absurd (h.trans habove) (not_le_of_gt hbelow)

theorem lowerBound_eq_length (h : ∀ a ∈ l, a < v) : lowerBound l v = l.length := by
  rw [lowerBound, List.findIdx_eq_length]
  intro a ha
  simpa using h a ha

/-- The search in what is behind a position, as the search of a sorted list from there on. -/
theorem lowerBound_drop (hs : l.Pairwise (· ≤ ·)) (h : v ≤ w) :
    lowerBound l v + lowerBound (l.drop (lowerBound l v)) w = lowerBound l w := by
  set n := lowerBound l v with hn
  have hle : n ≤ lowerBound l w := lowerBound_le_lowerBound hs h
  have hlen : lowerBound l w ≤ l.length := lowerBound_le_length l w
  suffices hdrop : lowerBound (l.drop n) w = lowerBound l w - n by omega
  have hsdrop : (l.drop n).Pairwise (· ≤ ·) := hs.sublist (List.drop_sublist n l)
  apply Nat.le_antisymm
  · by_contra hlt
    rw [not_le] at hlt
    -- the cut of the whole list stops the search behind `n` as well
    have hi := hlt.trans_le (lowerBound_le_length (l.drop n) w)
    have hbelow := lt_of_lt_lowerBound hi hlt
    rw [List.getElem_drop] at hbelow
    rw [List.length_drop] at hi
    have habove : w ≤ l[n + (lowerBound l w - n)] :=
      le_of_lowerBound_le hs (by omega) (by omega)
    exact absurd habove (not_le_of_gt hbelow)
  · by_contra hlt
    rw [not_le] at hlt
    have hi : lowerBound (l.drop n) w < (l.drop n).length := by
      rw [List.length_drop]
      omega
    have habove := le_of_lowerBound_le hsdrop hi (Nat.le_refl _)
    rw [List.getElem_drop] at habove
    rw [List.length_drop] at hi
    have hbelow : l[n + lowerBound (l.drop n) w] < w := lt_of_lt_lowerBound (by omega) (by omega)
    exact absurd habove (not_le_of_gt hbelow)

end Ninfer
