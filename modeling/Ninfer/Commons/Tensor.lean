import Mathlib

/-!
# Tensors in row-major order

A tensor as its dimensions and its elements in row-major order, the position of an index, and the
two operations that rearrange a tensor without touching its elements: reading the same elements
under other dimensions, and permuting the axes.

## Main definitions

* `Tensor`: dimensions and elements, as many as the dimensions ask for
* `positionAt`, `indexAt`: the position of an index and the index of a position
* `Tensor.reshape`, `Tensor.flat`, `Tensor.permute`: the operations

## Main results

* `indexAt_positionAt`, `positionAt_indexAt`: indices and positions correspond
* `Tensor.elem_permute`: the element at a permuted index is the element at the index
* `Tensor.permute_permute`: permuting the axes back gives the tensor back
-/

namespace Ninfer

/-- An index within the dimensions. -/
abbrev InBounds (index shape : List Nat) : Prop := List.Forall₂ (· < ·) index shape

/-- The position of an index in row-major order. -/
def positionAt : List Nat → List Nat → Nat
  | _ :: shape, i :: index => i * shape.prod + positionAt shape index
  | _, _ => 0

/-- The index of a position in row-major order. -/
def indexAt : List Nat → Nat → List Nat
  | [], _ => []
  | _ :: shape, p => p / shape.prod :: indexAt shape (p % shape.prod)

section Positions

variable {shape index : List Nat} {p : Nat}

theorem positionAt_cons (d i : Nat) (shape index : List Nat) :
    positionAt (d :: shape) (i :: index) = i * shape.prod + positionAt shape index := rfl

theorem positionAt_lt (h : InBounds index shape) : positionAt shape index < shape.prod := by
  induction h with
  | nil => exact Nat.zero_lt_one
  | @cons i d index shape hi hrest ih =>
    -- the last index of this axis still leaves room for a whole slice
    have hslice : (i + 1) * shape.prod ≤ d * shape.prod := Nat.mul_le_mul_right _ hi
    rw [positionAt_cons, List.prod_cons]
    rw [Nat.succ_mul] at hslice
    omega

theorem indexAt_positionAt (h : InBounds index shape) :
    indexAt shape (positionAt shape index) = index := by
  induction h with
  | nil => rfl
  | @cons i d index shape hi hrest ih =>
    have hlt := positionAt_lt hrest
    have hpos : 0 < shape.prod := Nat.zero_lt_of_lt hlt
    have hdiv : (i * shape.prod + positionAt shape index) / shape.prod = i := by
      rw [Nat.mul_comm, Nat.mul_add_div hpos, Nat.div_eq_of_lt hlt, Nat.add_zero]
    have hmod :
        (i * shape.prod + positionAt shape index) % shape.prod = positionAt shape index := by
      rw [Nat.mul_comm, Nat.mul_add_mod, Nat.mod_eq_of_lt hlt]
    rw [positionAt_cons, indexAt, hdiv, hmod, ih]

theorem inBounds_indexAt (h : p < shape.prod) : InBounds (indexAt shape p) shape := by
  induction shape generalizing p with
  | nil => exact .nil
  | cons d shape ih =>
    rw [List.prod_cons] at h
    have hpos : 0 < shape.prod := Nat.pos_of_ne_zero fun hzero => by simp [hzero] at h
    exact .cons (Nat.div_lt_of_lt_mul (by rwa [Nat.mul_comm])) (ih (Nat.mod_lt p hpos))

theorem positionAt_indexAt (h : p < shape.prod) : positionAt shape (indexAt shape p) = p := by
  induction shape generalizing p with
  | nil =>
    rw [List.prod_nil] at h
    exact (Nat.lt_one_iff.mp h).symm
  | cons d shape ih =>
    rw [List.prod_cons] at h
    have hpos : 0 < shape.prod := Nat.pos_of_ne_zero fun hzero => by simp [hzero] at h
    rw [indexAt, positionAt_cons, ih (Nat.mod_lt p hpos), Nat.mul_comm]
    exact Nat.div_add_mod p shape.prod

end Positions

/-- The entries of a list along axes. -/
def selectAxes (axes l : List Nat) : List Nat := axes.map fun axis => l.getD axis 0

/-- Where each axis went. -/
def inverseAxes (axes : List Nat) : List Nat :=
  (List.range axes.length).map fun axis => axes.idxOf axis

section Axes

variable {axes l shape index : List Nat}

theorem map_getD_range (l : List Nat) : ((List.range l.length).map fun i => l.getD i 0) = l := by
  apply List.ext_getElem
  · simp
  · intro i hi _
    simp only [List.length_map, List.length_range] at hi
    simp [List.getElem?_eq_getElem hi]

theorem selectAxes_inverseAxes (haxes : axes.Perm (List.range axes.length))
    (hl : l.length = axes.length) : selectAxes (inverseAxes axes) (selectAxes axes l) = l := by
  unfold selectAxes inverseAxes
  rw [List.map_map, ← hl]
  refine Eq.trans (List.map_congr_left ?_) (map_getD_range l)
  intro axis haxis
  rw [hl] at haxis
  -- an axis is found where it stands
  have hmem : axis ∈ axes := haxes.mem_iff.mpr haxis
  have hlt := List.idxOf_lt_length_of_mem hmem
  simp only [Function.comp_apply]
  rw [List.getD_eq_getElem _ 0 (by rwa [List.length_map]), List.getElem_map,
    List.getElem_idxOf hlt]

theorem inBounds_selectAxes (haxes : ∀ axis ∈ axes, axis < shape.length)
    (h : InBounds index shape) :
    InBounds (selectAxes axes index) (selectAxes axes shape) := by
  unfold InBounds selectAxes
  rw [List.forall₂_map_left_iff, List.forall₂_map_right_iff, List.forall₂_same]
  intro axis haxis
  have hshape := haxes axis haxis
  have hindex : axis < index.length := by rwa [h.length_eq]
  rw [List.getD_eq_getElem _ 0 hshape, List.getD_eq_getElem _ 0 hindex]
  exact h.get hindex hshape

end Axes

/-- A tensor: its dimensions, and its elements in row-major order. -/
@[ext] structure Tensor (α : Type) where
  shape : List Nat
  data : List α
  length_data : data.length = shape.prod

namespace Tensor

variable {α : Type} {t u : Tensor α} {shape index axes : List Nat}

/-- The element at an index. -/
def elem (t : Tensor α) (index : List Nat) : Option α := t.data[positionAt t.shape index]?

/-- The tensor without axes. -/
def scalar (a : α) : Tensor α := ⟨[], [a], rfl⟩

/-- The tensor with one element everywhere. -/
def full (shape : List Nat) (a : α) : Tensor α :=
  ⟨shape, List.replicate shape.prod a, List.length_replicate⟩

/-- The same elements under other dimensions, if there are as many. -/
def reshape (shape : List Nat) (t : Tensor α) : Option (Tensor α) :=
  if h : t.data.length = shape.prod then some ⟨shape, t.data, h⟩ else none

/-- The tensor with one axis. -/
def ofList (data : List α) : Tensor α := ⟨[data.length], data, List.prod_singleton.symm⟩

/-- The same elements along one axis. -/
def flat (t : Tensor α) : Tensor α := ofList t.data

/-- The tensor with its axes permuted, its elements again in row-major order. -/
def permute [Inhabited α] (axes : List Nat) (t : Tensor α) : Tensor α where
  shape := selectAxes axes t.shape
  data := (List.range (selectAxes axes t.shape).prod).map fun p =>
    let index := selectAxes (inverseAxes axes) (indexAt (selectAxes axes t.shape) p)
    t.data.getD (positionAt t.shape index) default
  length_data := by rw [List.length_map, List.length_range]

@[simp] theorem shape_ofList (data : List α) : (ofList data).shape = [data.length] := rfl

@[simp] theorem data_ofList (data : List α) : (ofList data).data = data := rfl

@[simp] theorem shape_flat (t : Tensor α) : t.flat.shape = [t.data.length] := rfl

@[simp] theorem data_flat (t : Tensor α) : t.flat.data = t.data := rfl

@[simp] theorem shape_permute [Inhabited α] (axes : List Nat) (t : Tensor α) :
    (t.permute axes).shape = selectAxes axes t.shape := rfl

theorem reshape_eq_some : t.reshape shape = some u ↔ u.shape = shape ∧ u.data = t.data := by
  unfold reshape
  constructor
  · intro h
    split at h
    · cases h
      exact ⟨rfl, rfl⟩
    · cases h
  · rintro ⟨rfl, hdata⟩
    rw [dif_pos (by rw [← hdata, u.length_data])]
    congr 1
    exact Tensor.ext rfl hdata.symm

/-- A tensor is determined by its dimensions and its elements. -/
theorem ext_elem (hshape : t.shape = u.shape)
    (h : ∀ index, InBounds index t.shape → t.elem index = u.elem index) : t = u := by
  refine Tensor.ext hshape (List.ext_getElem? fun p => ?_)
  by_cases hp : p < t.shape.prod
  · have helem := h _ (inBounds_indexAt hp)
    unfold elem at helem
    rwa [← hshape, positionAt_indexAt hp] at helem
  · have ht : t.data.length ≤ p := by rw [t.length_data]; omega
    have hu : u.data.length ≤ p := by rw [u.length_data, ← hshape]; omega
    rw [List.getElem?_eq_none ht, List.getElem?_eq_none hu]

theorem elem_eq_getD [Inhabited α] (h : InBounds index t.shape) :
    t.elem index = some (t.data.getD (positionAt t.shape index) default) := by
  have hlt : positionAt t.shape index < t.data.length := by
    rw [t.length_data]
    exact positionAt_lt h
  unfold elem
  rw [List.getElem?_eq_getElem hlt, List.getD_eq_getElem _ _ hlt]

/-- The element at a permuted index is the element at the index. -/
theorem elem_permute [Inhabited α] (haxes : axes.Perm (List.range t.shape.length))
    (h : InBounds index t.shape) :
    (t.permute axes).elem (selectAxes axes index) = t.elem index := by
  have hlength : axes.length = t.shape.length := by simpa using haxes.length_eq
  have hbounds : ∀ axis ∈ axes, axis < t.shape.length := fun axis haxis =>
    List.mem_range.mp (haxes.mem_iff.mp haxis)
  have hselect := inBounds_selectAxes hbounds h
  have hlt := positionAt_lt hselect
  rw [elem_eq_getD h]
  simp only [elem, permute, List.getElem?_map, List.getElem?_range hlt, Option.map_some]
  -- the position of the permuted index leads back to the index
  rw [indexAt_positionAt hselect,
    selectAxes_inverseAxes (by rwa [hlength]) (h.length_eq.trans hlength.symm)]

/-- Permuting the axes back gives the tensor back. -/
theorem permute_permute [Inhabited α] {axes' : List Nat}
    (haxes : axes.Perm (List.range t.shape.length))
    (haxes' : axes'.Perm (List.range t.shape.length))
    (h : ∀ l : List Nat, l.length = t.shape.length → selectAxes axes' (selectAxes axes l) = l) :
    (t.permute axes).permute axes' = t := by
  have hlength : (t.permute axes).shape.length = t.shape.length := by
    simpa [selectAxes] using haxes.length_eq
  have hshape : ((t.permute axes).permute axes').shape = t.shape := h t.shape rfl
  refine ext_elem hshape fun index hindex => ?_
  rw [hshape] at hindex
  have hbounds : InBounds (selectAxes axes index) (t.permute axes).shape :=
    inBounds_selectAxes (fun axis haxis => List.mem_range.mp (haxes.mem_iff.mp haxis)) hindex
  have haxes'' : axes'.Perm (List.range (t.permute axes).shape.length) := by rwa [hlength]
  have houter := elem_permute haxes'' hbounds
  rw [h index hindex.length_eq, elem_permute haxes hindex] at houter
  exact houter

end Tensor

end Ninfer
