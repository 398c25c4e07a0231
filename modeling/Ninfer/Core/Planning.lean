import Ninfer.Core.Layout

/-!
# Planning a sequence of regions

What a sequence of placements into a `LayoutBuilder` takes, when every region is aligned alike: the
builder is filled up to the next multiple of the alignment, and a planner moves that mark by a
size of its own, wherever it starts. It returns as long as the mark stays below the range of
`std::size_t`.

## Main definitions

* `tensorBytes`: the room a tensor takes, padding included
* `LayoutBuilder.filled`: the mark up to which a builder is filled
* `Plans`: a planner moves the mark by a size

## Main results

* `plans_bind`: sizes add up
* `plans_add`, `plans_addTensor`: what a region and a tensor take
* `finish_eq_filled`: the allocation ends at the mark
-/

namespace Ninfer.Core

/-- A shape a planner may place without looking at its size: the extents of a shape of rank four
are smaller, so that no product leaves the range of `std::int64_t`. -/
def SmallShape : List Nat → Prop
  | [a] => 0 < a ∧ a ≤ 2 ^ 18
  | [a, b] => (0 < a ∧ a ≤ 2 ^ 18) ∧ 0 < b ∧ b ≤ 2 ^ 18
  | [a, b, c] => (0 < a ∧ a ≤ 2 ^ 18) ∧ (0 < b ∧ b ≤ 2 ^ 18) ∧ 0 < c ∧ c ≤ 2 ^ 18
  | [a, b, c, d] => (0 < a ∧ a ≤ 2 ^ 8) ∧ (0 < b ∧ b ≤ 2 ^ 16) ∧ (0 < c ∧ c ≤ 2 ^ 16) ∧
      0 < d ∧ d ≤ 2 ^ 16
  | _ => False

/-- The room a tensor takes. -/
def tensorBytes (dtype : DType) (shape : List Nat) : Nat :=
  roundUp (shape.prod * dtypeSize dtype) kArenaAlign

section Tensors

/-- Rank four, as `normalize_shape` makes it. -/
def padded (shape : List Nat) : List Nat := shape ++ List.replicate (4 - shape.length) 1

theorem prod_padded (shape : List Nat) : (padded shape).prod = shape.prod := by
  simp [padded]

theorem SmallShape.pos {shape : List Nat} (h : SmallShape shape) : ∀ d ∈ shape, 0 < d := by
  match shape, h with
  | [a], h => simpa using h.1
  | [a, b], h => simpa using ⟨h.1.1, h.2.1⟩
  | [a, b, c], h => simpa using ⟨h.1.1, h.2.1.1, h.2.2.1⟩
  | [a, b, c, d], h => simpa using ⟨h.1.1, h.2.1.1, h.2.2.1.1, h.2.2.2.1⟩

theorem SmallShape.rank {shape : List Nat} (h : SmallShape shape) :
    shape.length ≠ 0 ∧ shape.length ≤ 4 := by
  match shape, h with
  | [a], h => simp
  | [a, b], h => simp
  | [a, b, c], h => simp
  | [a, b, c, d], h => simp

theorem SmallShape.prod_le {shape : List Nat} (h : SmallShape shape) : shape.prod ≤ 2 ^ 56 := by
  match shape, h with
  | [a], h =>
    have ha : a ≤ 2 ^ 18 := h.2
    simp only [List.prod_cons, List.prod_nil, Nat.mul_one]
    omega
  | [a, b], h =>
    have hab : a * b ≤ 2 ^ 18 * 2 ^ 18 := Nat.mul_le_mul h.1.2 h.2.2
    simp only [List.prod_cons, List.prod_nil, Nat.mul_one]
    omega
  | [a, b, c], h =>
    have hbc : b * c ≤ 2 ^ 18 * 2 ^ 18 := Nat.mul_le_mul h.2.1.2 h.2.2.2
    have habc : a * (b * c) ≤ 2 ^ 18 * (2 ^ 18 * 2 ^ 18) := Nat.mul_le_mul h.1.2 hbc
    simp only [List.prod_cons, List.prod_nil, Nat.mul_one]
    omega
  | [a, b, c, d], h =>
    have hcd : c * d ≤ 2 ^ 16 * 2 ^ 16 := Nat.mul_le_mul h.2.2.1.2 h.2.2.2.2
    have hbcd : b * (c * d) ≤ 2 ^ 16 * (2 ^ 16 * 2 ^ 16) := Nat.mul_le_mul h.2.1.2 hcd
    have habcd : a * (b * (c * d)) ≤ 2 ^ 8 * (2 ^ 16 * (2 ^ 16 * 2 ^ 16)) :=
      Nat.mul_le_mul h.1.2 hbcd
    simp only [List.prod_cons, List.prod_nil, Nat.mul_one]
    omega

theorem padded_pos {shape : List Nat} (h : ∀ d ∈ shape, 0 < d) : ∀ d ∈ padded shape, 0 < d := by
  intro d hd
  rcases List.mem_append.mp hd with hd | hd
  · exact h d hd
  · rw [List.eq_of_mem_replicate hd]
    decide

theorem dtypeSize_le (dtype : DType) : dtypeSize dtype ≤ 8 := by
  cases dtype <;> decide

theorem prod_pos {dims : List Nat} (h : ∀ d ∈ dims, 0 < d) : 0 < dims.prod := by
  induction dims with
  | nil => decide
  | cons d dims ih =>
    rw [List.prod_cons]
    exact Nat.mul_pos (h d List.mem_cons_self) (ih fun x hx => h x (List.mem_cons_of_mem _ hx))

theorem checkedMulI64_ofNat {a b : Nat} (hb : 0 < b) (h : a * b < 2 ^ 63) :
    checkedMulI64 a b = .ok (Int.ofNat (a * b)) := by
  have hle : (a : Int) ≤ int64Max / b := by
    apply Int.le_ediv_of_mul_le (by omega)
    unfold int64Max
    have : ((a * b : Nat) : Int) < ((2 ^ 63 : Nat) : Int) := Int.ofNat_lt.mpr h
    rw [Int.natCast_mul] at this
    omega
  unfold checkedMulI64
  rw [check_of (by omega), check_of (Or.inr hle)]
  show Except.ok ((a : Int) * b) = _
  rw [← Int.natCast_mul]
  rfl

/-- The strides of a contiguous tensor are computed as long as its size fits. -/
theorem exists_contiguousStrides {stride : Nat} {dims : List Nat} (hpos : ∀ d ∈ dims, 0 < d)
    (h : stride * dims.prod < 2 ^ 63) :
    ∃ nb, contiguousStrides stride (dims.map Int.ofNat) = .ok nb := by
  induction dims generalizing stride with
  | nil => exact ⟨[], rfl⟩
  | cons d dims ih =>
    cases dims with
    | nil => exact ⟨[(stride : Int)], rfl⟩
    | cons d' dims =>
      rw [List.prod_cons, ← Nat.mul_assoc] at h
      have hrest : ∀ x ∈ d' :: dims, 0 < x := fun x hx => hpos x (List.mem_cons_of_mem _ hx)
      have hle : stride * d ≤ stride * d * (d' :: dims).prod :=
        Nat.le_mul_of_pos_right _ (prod_pos hrest)
      obtain ⟨nb, hnb⟩ := ih hrest h
      refine ⟨(stride : Int) :: nb, ?_⟩
      refine bind_of_eq_ok (checkedMulI64_ofNat (hpos d List.mem_cons_self) (by omega)) ?_
      exact bind_of_eq_ok hnb rfl

theorem shapeNumel_ofNat {total : Nat} {dims : List Nat} (hpos : ∀ d ∈ dims, 0 < d)
    (h : total * dims.prod < 2 ^ 63) :
    (dims.map Int.ofNat).foldlM (fun total dim => do
      check (0 < dim) (.invalidArgument "tensor dimensions must be positive")
      checkedMulI64 total dim) (total : Int) = .ok (Int.ofNat (total * dims.prod)) := by
  induction dims generalizing total with
  | nil =>
    rw [List.prod_nil, Nat.mul_one]
    rfl
  | cons d dims ih =>
    have hd : 0 < d := hpos d List.mem_cons_self
    have hrest : ∀ x ∈ dims, 0 < x := fun x hx => hpos x (List.mem_cons_of_mem _ hx)
    rw [List.prod_cons, ← Nat.mul_assoc] at h ⊢
    have hle : total * d ≤ total * d * dims.prod :=
      Nat.le_mul_of_pos_right _ (prod_pos hrest)
    rw [List.map_cons, List.foldlM_cons]
    apply bind_eq_ok.mpr
    refine ⟨Int.ofNat (total * d), ?_, ih hrest h⟩
    apply check_bind_eq_ok.mpr
    refine ⟨Int.ofNat_lt.mpr hd, ?_⟩
    exact checkedMulI64_ofNat hd (by omega)

theorem normalizeShape_ofNat {shape : List Nat} (h : SmallShape shape) :
    normalizeShape (shape.map Int.ofNat) = .ok ((padded shape).map Int.ofNat) := by
  unfold normalizeShape
  rw [check_of (by simpa using h.rank)]
  apply check_bind_eq_ok.mpr
  refine ⟨?_, ?_⟩
  · intro d hd
    obtain ⟨n, hn, rfl⟩ := List.mem_map.mp hd
    exact Int.ofNat_lt.mpr (h.pos n hn)
  · simp only [padded, List.map_append, List.map_replicate, List.length_map]
    rfl

/-- A tensor of a small shape is constructed, and its size is the product. -/
theorem exists_tensor {shape : List Nat} (dtype : DType) (h : SmallShape shape) :
    ∃ t, Tensor.new 0 dtype (shape.map Int.ofNat) = .ok t ∧
      t.bytes = .ok (shape.prod * dtypeSize dtype) := by
  have hprod := h.prod_le
  have hsize := dtypeSize_le dtype
  have hpos := padded_pos h.pos
  have hbytes : dtypeSize dtype * (padded shape).prod ≤ 8 * 2 ^ 56 := by
    rw [prod_padded]
    exact Nat.mul_le_mul hsize hprod
  have hstrides : dtypeSize dtype * (padded shape).prod < 2 ^ 63 := by omega
  obtain ⟨nb, hnb⟩ := exists_contiguousStrides hpos hstrides
  refine ⟨⟨0, dtype, (padded shape).map Int.ofNat, nb⟩, ?_, ?_⟩
  · refine bind_of_eq_ok (normalizeShape_ofNat h) ?_
    exact bind_of_eq_ok hnb rfl
  · apply bind_eq_ok.mpr
    refine ⟨Int.ofNat (1 * (padded shape).prod), ?_, ?_⟩
    · apply shapeNumel_ofNat hpos
      rw [prod_padded, Nat.one_mul]
      omega
    rw [Nat.one_mul, prod_padded]
    have hwide : shape.prod ≤ (U64.size - 1) / dtypeSize dtype := by
      apply (Nat.le_div_iff_mul_le (dtypeSize_pos dtype)).mpr
      have : shape.prod * dtypeSize dtype ≤ 2 ^ 56 * 8 := Nat.mul_le_mul hprod hsize
      unfold U64.size
      omega
    apply check_bind_eq_ok.mpr
    refine ⟨⟨Int.natCast_nonneg _, ?_⟩, ?_⟩
    · show shape.prod ≤ _
      unfold U64.size
      omega
    apply check_bind_eq_ok.mpr
    exact ⟨hwide, rfl⟩

end Tensors

/-- The mark up to which a builder is filled: where its next region goes. -/
def LayoutBuilder.filled (b : LayoutBuilder) : Nat := roundUp b.cursor kArenaAlign

/-- What a builder keeps while nothing is taken back. -/
structure LayoutBuilder.Growing (b : LayoutBuilder) : Prop where
  peak_eq : b.peak = b.cursor
  lt : b.cursor < U64.size

/-- A planner takes `size` bytes, wherever it starts, and returns if they fit. -/
structure Plans {α : Type} (c : Call LayoutBuilder α) (size : Nat) : Prop where
  exact {b b' : LayoutBuilder} {a : α} : b.Growing → c b = .ok a b' →
    b'.Growing ∧ b'.filled = b.filled + size
  total {b : LayoutBuilder} : b.Growing → b.filled + size < U64.size → ∃ a b', c b = .ok a b'

section Plans

variable {α β : Type} {c : Call LayoutBuilder α} {f : α → Call LayoutBuilder β} {m n : Nat}

theorem Plans.of_eq (h : Plans c m) (hn : n = m) : Plans c n := hn ▸ h

theorem plans_pure (a : α) : Plans (pure a) 0 where
  exact hb h := by
    cases h
    exact ⟨hb, (Nat.add_zero _).symm⟩
  total _ _ := ⟨a, _, rfl⟩

theorem plans_bind (hc : Plans c m) (hf : ∀ a, Plans (f a) n) : Plans (c >>= f) (m + n) where
  exact {b b' r} hb h := by
    cases hrun : c b with
    | error e s =>
      rw [Call.bind_of_error hrun] at h
      cases h
    | ok a s =>
      rw [Call.bind_of_ok hrun] at h
      obtain ⟨hs, hsize⟩ := hc.exact hb hrun
      obtain ⟨hb', hsize'⟩ := (hf a).exact hs h
      exact ⟨hb', by omega⟩
  total {b} hb h := by
    obtain ⟨a, s, hrun⟩ := hc.total hb (by omega)
    obtain ⟨hs, hsize⟩ := hc.exact hb hrun
    obtain ⟨r, b', hrest⟩ := (hf a).total hs (by omega)
    exact ⟨r, b', by rw [Call.bind_of_ok hrun, hrest]⟩

/-- A planner followed by steps that take nothing. -/
theorem plans_bind_pure {g : α → β} (hc : Plans c m) :
    Plans (c >>= fun a => pure (g a)) m := by
  have h := plans_bind hc fun a => plans_pure (g a)
  rwa [Nat.add_zero] at h

theorem plans_map {g : α → β} (hc : Plans c m) : Plans (g <$> c) m :=
  plans_bind_pure hc

/-- A step that takes nothing and whose value is known. -/
theorem plans_ofExcept_bind {x : Except Exception α} {a : α} (hx : x = .ok a)
    (hf : Plans (f a) n) : Plans (Call.ofExcept x >>= f) n where
  exact hb h := by
    rw [Call.bind_of_ok (Call.ofExcept_of_ok hx _)] at h
    exact hf.exact hb h
  total hb h := by
    obtain ⟨r, b', hrun⟩ := hf.total hb h
    exact ⟨r, b', by rw [Call.bind_of_ok (Call.ofExcept_of_ok hx _), hrun]⟩

theorem alignUp_of_lt {value : Nat} (label : String)
    (h : roundUp value kArenaAlign < U64.size) :
    alignUp value kArenaAlign label = .ok (roundUp value kArenaAlign) := by
  have hpow : isPowerOfTwo kArenaAlign := by decide
  have hsum : value + (kArenaAlign - 1) < U64.size :=
    (roundUp_lt_iff (by decide) (by decide)).mp h
  apply check_bind_eq_ok.mpr
  refine ⟨hpow, ?_⟩
  apply bind_eq_ok.mpr
  refine ⟨value + (kArenaAlign - 1), ?_, ?_⟩
  · apply check_bind_eq_ok.mpr
    exact ⟨by omega, rfl⟩
  · exact congrArg Except.ok (land_complement_eq_roundUp hpow hsum)

theorem checkedAdd_of_lt {a b : Nat} (label : String) (h : a + b < U64.size) :
    checkedAdd a b label = .ok (a + b) := by
  apply check_bind_eq_ok.mpr
  exact ⟨by omega, rfl⟩

theorem LayoutBuilder.add_eq_ok {b b' : LayoutBuilder} {bytes alignment : Nat} {label : String}
    {r : LayoutRegion} : add bytes alignment label b = .ok r b' ↔
      bytes ≠ 0 ∧ ∃ offset cursor, alignUp b.cursor alignment label = .ok offset ∧
        checkedAdd offset bytes label = .ok cursor ∧ r = ⟨offset, bytes, alignment⟩ ∧
        b' = ⟨cursor, max b.peak cursor⟩ := by
  by_cases hbytes : bytes ≠ 0
  · unfold add
    rw [Call.bind_of_ok (Call.ofExcept_of_ok (check_of hbytes) b)]
    show (Call.ofExcept (alignUp b.cursor alignment label) >>= _) b = _ ↔ _
    cases haligned : alignUp b.cursor alignment label with
    | error e => simp [bind, EStateM.bind, Call.ofExcept]
    | ok offset =>
      rw [Call.bind_of_ok (Call.ofExcept_of_ok rfl b)]
      cases hsum : checkedAdd offset bytes label with
      | error e => simp [bind, EStateM.bind, Call.ofExcept, hsum]
      | ok cursor =>
        rw [Call.bind_of_ok (Call.ofExcept_of_ok rfl b)]
        constructor
        · intro h
          cases h
          exact ⟨hbytes, offset, cursor, rfl, hsum, rfl, rfl⟩
        · rintro ⟨-, offset', cursor', hoffset, hcursor, rfl, rfl⟩
          cases hoffset
          rw [hsum] at hcursor
          cases hcursor
          rfl
  · unfold add
    simp [check, hbytes, bind, EStateM.bind, Call.ofExcept]

/-- A region takes its size, rounded up. -/
theorem plans_add {bytes : Nat} (label : String) (hbytes : bytes ≠ 0) :
    Plans (LayoutBuilder.add bytes kArenaAlign label) (roundUp bytes kArenaAlign) where
  exact {b b' r} hb h := by
    obtain ⟨-, offset, cursor, haligned, hsum, -, rfl⟩ := LayoutBuilder.add_eq_ok.mp h
    obtain ⟨-, rfl, hlt⟩ := alignUp_eq_ok hb.lt haligned
    obtain ⟨rfl, hsumLt⟩ := checkedAdd_eq_ok hlt hsum
    have hle : b.cursor ≤ roundUp b.cursor kArenaAlign := le_roundUp _ (by decide)
    refine ⟨⟨?_, hsumLt⟩, roundUp_add (by decide) (dvd_roundUp _ _)⟩
    rw [hb.peak_eq]
    exact Nat.max_eq_right (by omega)
  total {b} hb h := by
    have hle : bytes ≤ roundUp bytes kArenaAlign := le_roundUp _ (by decide)
    unfold LayoutBuilder.filled at h
    have haligned := alignUp_of_lt label (show roundUp b.cursor kArenaAlign < _ by omega)
    have hsum := checkedAdd_of_lt label
      (show roundUp b.cursor kArenaAlign + bytes < _ by omega)
    exact ⟨_, _, LayoutBuilder.add_eq_ok.mpr ⟨hbytes, _, _, haligned, hsum, rfl, rfl⟩⟩

/-- A tensor takes its size, rounded up. -/
theorem plans_addTensor {dtype : DType} {shape : List Nat} (label : String)
    (h : SmallShape shape) :
    Plans (LayoutBuilder.addTensor dtype (shape.map Int.ofNat) kArenaAlign label)
      (tensorBytes dtype shape) := by
  obtain ⟨t, ht, hbytes⟩ := exists_tensor dtype h
  have hpos := Tensor.bytes_pos hbytes
  apply plans_ofExcept_bind ht
  apply plans_ofExcept_bind hbytes
  exact plans_bind_pure (plans_add label (by omega))

theorem growing_fresh : LayoutBuilder.fresh.Growing := ⟨rfl, by decide⟩

@[simp] theorem filled_fresh : LayoutBuilder.fresh.filled = 0 := rfl

/-- The allocation ends at the mark. -/
theorem finish_eq_filled {b : LayoutBuilder} (label : String) (hb : b.Growing)
    (h : b.filled < U64.size) : b.finish kArenaAlign label = .ok b.filled := by
  unfold LayoutBuilder.finish
  rw [hb.peak_eq]
  exact alignUp_of_lt label h

theorem filled_of_finish {b : LayoutBuilder} {label : String} {bytes : Nat} (hb : b.Growing)
    (h : b.finish kArenaAlign label = .ok bytes) : bytes = b.filled ∧ bytes < U64.size := by
  unfold LayoutBuilder.finish at h
  rw [hb.peak_eq] at h
  obtain ⟨-, hbytes, hlt⟩ := alignUp_eq_ok hb.lt h
  exact ⟨hbytes, hlt⟩

end Plans

end Ninfer.Core
