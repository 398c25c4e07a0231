import Mathlib

/-!
# The largest elements of a list

`topK k xs` lists the `k` largest elements of `xs` in descending order. A selection may be made in
parts: what is not among the largest of a part is not among the largest of the whole, so that a
part may be replaced by its own selection. A least element pads a part without being selected.

## Main definitions

* `topK`: the largest elements
* `Padded`: a list that is another one but for its least elements

## Main results

* `topK_flatten`: a selection from selections
* `Padded.topK_eq`: least elements are never selected while others are left
-/

namespace Ninfer

variable {α β : Type*} [LinearOrder α] [LinearOrder β]

/-- The `k` largest elements, the largest first. -/
def topK (k : Nat) (xs : List α) : List α :=
  (xs.insertionSort (· ≥ ·)).take k

section Selection

variable {k : Nat} {xs ys s : List α}

theorem sorted_topK (k : Nat) (xs : List α) : (topK k xs).SortedGE :=
  (List.sortedGE_insertionSort.pairwise.sublist (List.take_sublist _ _)).sortedGE

/-- A sorted rearrangement of a list starts with its largest elements. -/
theorem take_eq_topK (hs : s.SortedGE) (hp : s.Perm xs) : s.take k = topK k xs := by
  rw [topK, (hp.trans (List.perm_insertionSort _ xs).symm).eq_of_sortedGE hs
    List.sortedGE_insertionSort]

theorem topK_perm (h : xs.Perm ys) : topK k xs = topK k ys :=
  take_eq_topK List.sortedGE_insertionSort ((List.perm_insertionSort _ xs).trans h)

theorem topK_eq_self (hs : s.SortedGE) (hk : s.length ≤ k) : topK k s = s := by
  rw [← take_eq_topK hs (List.Perm.refl s), List.take_of_length_le hk]

/-! ## Selections in parts -/

/-- An insertion looks no further than the first `k` elements for the first `k` of its result. -/
theorem take_orderedInsert_take (x : α) (k : Nat) (s : List α) :
    ((s.take k).orderedInsert (· ≥ ·) x).take k = (s.orderedInsert (· ≥ ·) x).take k := by
  induction s generalizing k with
  | nil => simp
  | cons y s ih =>
    cases k with
    | zero => simp
    | succ k =>
      rw [List.take_succ_cons, List.orderedInsert_cons, List.orderedInsert_cons]
      split_ifs with h
      · -- `x` goes first, and `y` with `k - 1` more elements follow
        rw [List.take_succ_cons, List.take_succ_cons]
        cases k with
        | zero => rfl
        | succ k => simp [List.take_take]
      · rw [List.take_succ_cons, List.take_succ_cons, ih]

theorem take_foldr_orderedInsert (ys s : List α) (k : Nat) :
    (ys.foldr (List.orderedInsert (· ≥ ·)) (s.take k)).take k =
      (ys.foldr (List.orderedInsert (· ≥ ·)) s).take k := by
  induction ys with
  | nil => simp [List.take_take]
  | cons y ys ih =>
    rw [List.foldr_cons, List.foldr_cons, ← take_orderedInsert_take, ih,
      take_orderedInsert_take]

theorem topK_append (k : Nat) (ys xs : List α) : topK k (ys ++ xs) =
    (ys.foldr (List.orderedInsert (· ≥ ·)) (xs.insertionSort (· ≥ ·))).take k := by
  rw [topK, List.insertionSort, List.foldr_append]

@[simp] theorem topK_append_topK (k : Nat) (ys xs : List α) :
    topK k (ys ++ topK k xs) = topK k (ys ++ xs) := by
  rw [topK_append, topK_append, (sorted_topK k xs).pairwise.insertionSort_eq, topK,
    take_foldr_orderedInsert]

@[simp] theorem topK_topK_append (k : Nat) (xs ys : List α) :
    topK k (topK k xs ++ ys) = topK k (xs ++ ys) := by
  rw [topK_perm List.perm_append_comm, topK_append_topK, topK_perm List.perm_append_comm]

/-- **A selection from selections** is the selection from everything. -/
theorem topK_flatten (k : Nat) (xss : List (List α)) :
    topK k (xss.map (topK k)).flatten = topK k xss.flatten := by
  induction xss with
  | nil => rfl
  | cons xs xss ih =>
    rw [List.map_cons, List.flatten_cons, List.flatten_cons, topK_topK_append,
      ← topK_append_topK, ih, topK_append_topK]

theorem topK_cons (k : Nat) (x : α) (xs : List α) :
    topK k (x :: xs) = ((topK k xs).orderedInsert (· ≥ ·) x).take k := by
  rw [topK, topK, List.insertionSort_cons, take_orderedInsert_take]

end Selection

/-! ## Padding -/

section Padding

variable {k : Nat} {b : α} {xs ys zs : List α}

/-- `ys` is `xs` but for least elements. -/
def Padded (b : α) (xs ys : List α) : Prop :=
  (xs.filter (· ≠ b)).Perm (ys.filter (· ≠ b))

@[refl] theorem Padded.refl (b : α) (xs : List α) : Padded b xs xs :=
  List.Perm.refl _

theorem Padded.symm (h : Padded b xs ys) : Padded b ys xs :=
  List.Perm.symm h

theorem Padded.trans (h : Padded b xs ys) (h' : Padded b ys zs) : Padded b xs zs :=
  List.Perm.trans h h'

theorem Padded.of_perm (h : xs.Perm ys) : Padded b xs ys :=
  h.filter _

theorem Padded.append {xs' ys' : List α} (h : Padded b xs ys) (h' : Padded b xs' ys') :
    Padded b (xs ++ xs') (ys ++ ys') := by
  unfold Padded
  rw [List.filter_append, List.filter_append]
  exact List.Perm.append h h'

theorem padded_append_replicate (b : α) (xs : List α) (n : Nat) :
    Padded b (xs ++ List.replicate n b) xs := by
  simp [Padded]

theorem padded_filter (b : α) (xs : List α) : Padded b (xs.filter (· ≠ b)) xs := by
  simp [Padded, List.filter_filter]

theorem Padded.flatten {xss yss : List (List α)} (h : List.Forall₂ (Padded b) xss yss) :
    Padded b xss.flatten yss.flatten := by
  induction h with
  | nil => exact .refl b _
  | cons hhead _ ih => exact hhead.append ih

/-- Least elements at the end of a list that is long enough are not selected. -/
theorem topK_append_replicate (hb : ∀ x ∈ xs, b ≤ x) (hk : k ≤ xs.length) (n : Nat) :
    topK k (xs ++ List.replicate n b) = topK k xs := by
  have hsort := List.perm_insertionSort (· ≥ ·) xs
  rw [← take_eq_topK (s := xs.insertionSort (· ≥ ·) ++ List.replicate n b) _
    (hsort.append_right _), List.take_append_of_le_length]
  · rfl
  · rw [List.length_insertionSort]
    exact hk
  · refine (List.pairwise_append.mpr ⟨List.sortedGE_insertionSort.pairwise, ?_, ?_⟩).sortedGE
    · exact List.pairwise_replicate.mpr (Or.inr le_rfl)
    · intro x hx y hy
      rw [List.eq_of_mem_replicate hy]
      exact hb x (hsort.mem_iff.mp hx)

theorem perm_filter_append_replicate (b : α) (xs : List α) :
    ∃ n, xs.Perm (xs.filter (· ≠ b) ++ List.replicate n b) := by
  refine ⟨(xs.filter fun x => !decide (x ≠ b)).length, ?_⟩
  have hrest : xs.filter (fun x => !decide (x ≠ b)) =
      List.replicate (xs.filter fun x => !decide (x ≠ b)).length b := by
    refine List.eq_replicate_iff.mpr ⟨rfl, fun x hx => ?_⟩
    simpa using (List.mem_filter.mp hx).2
  rw [← hrest]
  exact (List.filter_append_perm _ xs).symm

/-- **Padding is not selected**: lists that differ in least elements only, and are long enough,
have the same selection. -/
theorem Padded.topK_eq (h : Padded b xs ys) (hxs : ∀ x ∈ xs, b ≤ x) (hys : ∀ y ∈ ys, b ≤ y)
    (hx : k ≤ xs.length) (hy : k ≤ ys.length) : topK k xs = topK k ys := by
  obtain ⟨n, hn⟩ := perm_filter_append_replicate b xs
  obtain ⟨m, hm⟩ := perm_filter_append_replicate b ys
  -- both selections are that of the two lists with the least elements of the other one
  have hperm : (xs ++ List.replicate m b).Perm (ys ++ List.replicate n b) := by
    refine (hn.append_right _).trans (List.Perm.trans ?_ (hm.append_right _).symm)
    rw [List.append_assoc, List.append_assoc]
    exact List.Perm.append h List.perm_append_comm
  rw [← topK_append_replicate hxs hx m, topK_perm hperm, topK_append_replicate hys hy n]

end Padding

end Ninfer
