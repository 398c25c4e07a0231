import Ninfer.Commons.Align
import Ninfer.Commons.Call

/-!
# Checked layouts

`core/layout.cpp` with the parts of `core/tensor.cpp` and `core/dtype.cpp` it uses: tensors and
their byte sizes, alignment of offsets, and the two builders that place regions one after another
without any storage behind them. Sizes are `std::size_t`, natural numbers here, with the overflow
checks of the source.

## Main definitions

* `Tensor.new`, `Tensor.bytes`: a contiguous tensor and its size
* `alignUp`: the checked alignment of an offset
* `LayoutBuilder.add`, `LayoutBuilder.finish`: the regions of a persistent allocation
* `WorkspaceLayoutBuilder.allocBytes`, `WorkspaceLayoutBuilder.alloc`: the dry run of a workspace

## Main results

* `alignUp_eq_ok`: an alignment that does not throw rounds up to a power of two
* `Tensor.bytes_pos`: a tensor is never empty
* `WorkspaceLayoutBuilder.place_eq_ok`: where an accepted allocation is placed
-/

namespace Ninfer.Core

/-- `DType`. -/
inductive DType
  | bf16
  | fp32
  | i32
  | u8
  | i64
  | i8
  | fp16
  | fp8E4m3fn
  deriving DecidableEq, Repr

/-- `dtype_size`. -/
def dtypeSize : DType → Nat
  | .bf16 => 2
  | .fp32 => 4
  | .i32 => 4
  | .u8 => 1
  | .i64 => 8
  | .i8 => 1
  | .fp16 => 2
  | .fp8E4m3fn => 1

theorem dtypeSize_pos (dtype : DType) : 0 < dtypeSize dtype := by
  cases dtype <;> decide

/-- `std::numeric_limits<std::int64_t>::max()`. -/
def int64Max : Int := 2 ^ 63 - 1

/-- `checked_mul_i64`. -/
def checkedMulI64 (a b : Int) : Except Exception Int := do
  check (0 ≤ a ∧ 0 ≤ b) (.invalidArgument "tensor dimensions must be positive")
  check (b = 0 ∨ a ≤ int64Max / b) (.overflowError "tensor size overflows int64")
  return a * b

/-- `normalize_shape`: the dimensions of a shape, padded with ones to rank four. -/
def normalizeShape (shape : List Int) : Except Exception (List Int) := do
  check (shape.length ≠ 0 ∧ shape.length ≤ 4) (.invalidArgument "tensor rank must be in [1,4]")
  check (∀ dim ∈ shape, 0 < dim) (.invalidArgument "tensor dimensions must be positive")
  return shape ++ List.replicate (4 - shape.length) 1

/-- `shape_numel`. -/
def shapeNumel (shape : List Int) : Except Exception Int :=
  shape.foldlM (fun total dim => do
    check (0 < dim) (.invalidArgument "tensor dimensions must be positive")
    checkedMulI64 total dim) 1

/-- The loop of `set_contiguous_strides`: the strides from the dimension whose stride is given. -/
def contiguousStrides : Int → List Int → Except Exception (List Int)
  | _, [] => .ok []
  | stride, [_] => .ok [stride]
  | stride, dim :: dims => do
    let next ← checkedMulI64 stride dim
    let strides ← contiguousStrides next dims
    return stride :: strides

/-- `Tensor`: a view of device memory; the address `0` is the null pointer. -/
structure Tensor where
  data : Nat
  dtype : DType
  ne : List Int
  nb : List Int
  deriving DecidableEq, Repr

namespace Tensor

/-- The constructor of a contiguous tensor. -/
def new (data : Nat) (dtype : DType) (shape : List Int) : Except Exception Tensor := do
  let ne ← normalizeShape shape
  let nb ← contiguousStrides (dtypeSize dtype) ne
  return ⟨data, dtype, ne, nb⟩

/-- `Tensor::bytes`. -/
def bytes (t : Tensor) : Except Exception Nat := do
  let elements ← shapeNumel t.ne
  check (0 ≤ elements ∧ elements.toNat ≤ U64.size - 1)
    (.overflowError "tensor element count overflows size_t")
  check (elements.toNat ≤ (U64.size - 1) / dtypeSize t.dtype)
    (.overflowError "tensor byte size overflows size_t")
  return elements.toNat * dtypeSize t.dtype

theorem checkedMulI64_eq_ok {a b c : Int} (h : checkedMulI64 a b = .ok c) : c = a * b := by
  obtain ⟨-, h⟩ := check_bind_eq_ok.mp h
  obtain ⟨-, h⟩ := check_bind_eq_ok.mp h
  cases h
  rfl

theorem shapeNumel_pos {shape : List Int} {total n : Int} (htotal : 0 < total)
    (h : shape.foldlM (fun total dim => do
      check (0 < dim) (.invalidArgument "tensor dimensions must be positive")
      checkedMulI64 total dim) total = .ok n) : 0 < n := by
  induction shape generalizing total with
  | nil =>
    cases h
    exact htotal
  | cons dim dims ih =>
    rw [List.foldlM_cons] at h
    obtain ⟨product, hproduct, h⟩ := bind_eq_ok.mp h
    obtain ⟨hdim, hproduct⟩ := check_bind_eq_ok.mp hproduct
    rw [checkedMulI64_eq_ok hproduct] at h
    exact ih (Int.mul_pos htotal hdim) h

theorem bytes_pos {t : Tensor} {n : Nat} (h : t.bytes = .ok n) : 0 < n := by
  obtain ⟨elements, helements, h⟩ := bind_eq_ok.mp h
  obtain ⟨-, h⟩ := check_bind_eq_ok.mp h
  obtain ⟨-, h⟩ := check_bind_eq_ok.mp h
  cases h
  have hpos : 0 < elements := shapeNumel_pos Int.one_pos helements
  exact Nat.mul_pos (by omega) (dtypeSize_pos _)

/-- The address of a tensor decides neither whether its constructor throws nor its extents. -/
theorem new_data {data : Nat} {dtype : DType} {shape : List Int} {t : Tensor}
    (h : new data dtype shape = .ok t) (address : Nat) :
    new address dtype shape = .ok { t with data := address } := by
  obtain ⟨ne, hne, h⟩ := bind_eq_ok.mp h
  obtain ⟨nb, hnb, h⟩ := bind_eq_ok.mp h
  cases h
  refine bind_of_eq_ok hne ?_
  exact bind_of_eq_ok hnb rfl

end Tensor

/-- `is_power_of_two`. -/
def isPowerOfTwo (value : Nat) : Prop := value ≠ 0 ∧ value &&& (value - 1) = 0

instance (value : Nat) : Decidable (isPowerOfTwo value) :=
  inferInstanceAs (Decidable (_ ∧ _))

theorem isPowerOfTwo_iff {value : Nat} : isPowerOfTwo value ↔ ∃ k, value = 2 ^ k :=
  Nat.ne_zero_and_sub_one_eq_zero_iff_isPowerOfTwo

theorem isPowerOfTwo.pos {value : Nat} (h : isPowerOfTwo value) : 0 < value :=
  Nat.pos_of_ne_zero h.1

/-- Of two powers of two the smaller divides the larger. -/
theorem isPowerOfTwo.dvd {a b : Nat} (ha : isPowerOfTwo a) (hb : isPowerOfTwo b) (h : a ≤ b) :
    a ∣ b := by
  obtain ⟨k, rfl⟩ := isPowerOfTwo_iff.mp ha
  obtain ⟨l, rfl⟩ := isPowerOfTwo_iff.mp hb
  exact Nat.pow_dvd_pow 2 ((Nat.pow_le_pow_iff_right (by decide)).mp h)

/-- `checked_add`. -/
def checkedAdd (a b : Nat) (label : String) : Except Exception Nat := do
  check (b ≤ U64.size - 1 - a) (.overflowError (label ++ " size overflow"))
  return a + b

/-- `align_up`. -/
def alignUp (value alignment : Nat) (label : String) : Except Exception Nat := do
  check (isPowerOfTwo alignment)
    (.invalidArgument (label ++ " alignment must be a power of two"))
  let mask := alignment - 1
  let sum ← checkedAdd value mask label
  return sum &&& U64.complement mask

theorem checkedAdd_eq_ok {a b c : Nat} {label : String} (ha : a < U64.size)
    (h : checkedAdd a b label = .ok c) : c = a + b ∧ c < U64.size := by
  obtain ⟨hle, h⟩ := check_bind_eq_ok.mp h
  cases h
  exact ⟨rfl, by omega⟩

/-- Masking the sum of a position and `alignment - 1` rounds the position up. -/
theorem land_complement_eq_roundUp {value alignment : Nat} (h : isPowerOfTwo alignment)
    (hlt : value + (alignment - 1) < U64.size) :
    (value + (alignment - 1)) &&& U64.complement (alignment - 1) = roundUp value alignment := by
  obtain ⟨k, rfl⟩ := isPowerOfTwo_iff.mp h
  have hk : k ≤ 64 := by
    have hle : 2 ^ k ≤ 2 ^ 64 := by
      have := Nat.two_pow_pos k
      unfold U64.size at hlt
      omega
    exact (Nat.pow_le_pow_iff_right (by decide)).mp hle
  exact U64.land_complement hk hlt

theorem alignUp_lt {value alignment aligned : Nat} {label : String}
    (h : alignUp value alignment label = .ok aligned) : aligned < U64.size := by
  obtain ⟨-, h⟩ := check_bind_eq_ok.mp h
  obtain ⟨sum, -, h⟩ := bind_eq_ok.mp h
  cases h
  have hle : sum &&& U64.complement (alignment - 1) ≤ U64.complement (alignment - 1) :=
    Nat.and_le_right
  unfold U64.complement U64.size at *
  omega

theorem alignUp_eq_ok {value alignment aligned : Nat} {label : String} (hvalue : value < U64.size)
    (h : alignUp value alignment label = .ok aligned) :
    isPowerOfTwo alignment ∧ aligned = roundUp value alignment ∧ aligned < U64.size := by
  obtain ⟨hpow, h⟩ := check_bind_eq_ok.mp h
  obtain ⟨sum, hsum, h⟩ := bind_eq_ok.mp h
  obtain ⟨rfl, hlt⟩ := checkedAdd_eq_ok hvalue hsum
  cases h
  rw [land_complement_eq_roundUp hpow hlt]
  refine ⟨hpow, rfl, ?_⟩
  exact Nat.lt_of_le_of_lt (Nat.div_mul_le_self _ _) hlt

/-- `DeviceSpan`; the address `0` is the null pointer. -/
structure DeviceSpan where
  data : Nat
  bytes : Nat
  deriving DecidableEq, Repr

/-- `LayoutRegion`. -/
structure LayoutRegion where
  offset : Nat
  bytes : Nat
  alignment : Nat
  deriving DecidableEq, Repr

/-- `TensorRegion`. -/
structure TensorRegion where
  region : LayoutRegion
  dtype : DType
  shape : List Int
  deriving DecidableEq, Repr

/-- `kArenaAlign`, the alignment every planner gives its regions. -/
def kArenaAlign : Nat := 256

/-- `LayoutBuilder`. -/
structure LayoutBuilder where
  cursor : Nat
  peak : Nat
  deriving DecidableEq, Repr

namespace LayoutBuilder

/-- The builder as constructed. -/
def fresh : LayoutBuilder := ⟨0, 0⟩

/-- `LayoutBuilder::add`. The cursor is stored after both checks. -/
def add (bytes alignment : Nat) (label : String) : Call LayoutBuilder LayoutRegion := do
  Call.ofExcept (check (bytes ≠ 0) (.invalidArgument (label ++ " must not be empty")))
  let builder ← get
  let offset ← Call.ofExcept (alignUp builder.cursor alignment label)
  let cursor ← Call.ofExcept (checkedAdd offset bytes label)
  set (LayoutBuilder.mk cursor (max builder.peak cursor))
  return ⟨offset, bytes, alignment⟩

/-- `LayoutBuilder::add_tensor`. -/
def addTensor (dtype : DType) (shape : List Int) (alignment : Nat) (label : String) :
    Call LayoutBuilder TensorRegion := do
  let tensor ← Call.ofExcept (Tensor.new 0 dtype shape)
  let bytes ← Call.ofExcept tensor.bytes
  let region ← add bytes alignment label
  return ⟨region, dtype, tensor.ne⟩

/-- `LayoutBuilder::finish`. -/
def finish (builder : LayoutBuilder) (alignment : Nat) (label : String) : Except Exception Nat :=
  alignUp builder.peak alignment label

end LayoutBuilder

/-- `WorkspaceLayoutBuilder`. -/
structure WorkspaceLayoutBuilder where
  cursor : Nat
  peak : Nat
  deriving DecidableEq, Repr

namespace WorkspaceLayoutBuilder

/-- The builder as constructed. -/
def fresh : WorkspaceLayoutBuilder := ⟨0, 0⟩

/-- The placement that `alloc` and `alloc_bytes` share. The aligned cursor is stored before the
size is added, so it stays when that addition throws. -/
def place (size : Except Exception Nat) (alignment : Nat) : Call WorkspaceLayoutBuilder Nat :=
  fun builder =>
    match alignUp builder.cursor alignment "workspace layout" with
    | .error e => .error e builder
    | .ok aligned =>
      match size >>= fun bytes =>
          checkedAdd aligned bytes "workspace layout" >>= fun cursor => .ok (bytes, cursor) with
      | .error e => .error e { builder with cursor := aligned }
      | .ok (bytes, cursor) => .ok bytes ⟨cursor, max builder.peak cursor⟩

/-- `WorkspaceLayoutBuilder::alloc`. -/
def alloc (dtype : DType) (shape : List Int) (alignment : Nat) :
    Call WorkspaceLayoutBuilder Tensor := do
  let tensor ← Call.ofExcept (Tensor.new 0 dtype shape)
  let _ ← place tensor.bytes alignment
  return tensor

/-- `WorkspaceLayoutBuilder::alloc_bytes`. -/
def allocBytes (bytes alignment : Nat) : Call WorkspaceLayoutBuilder DeviceSpan :=
  if bytes = 0 then pure ⟨0, 0⟩
  else do
    let _ ← place (.ok bytes) alignment
    return ⟨0, bytes⟩

/-- `WorkspaceLayoutBuilder::peak_bytes`. -/
def peakBytes (builder : WorkspaceLayoutBuilder) (alignment : Nat) : Except Exception Nat :=
  alignUp builder.peak alignment "workspace layout"

/-- What the destructor of an owning scope does, with the cursor it saved. -/
def restore (saved : Nat) (builder : WorkspaceLayoutBuilder) : WorkspaceLayoutBuilder :=
  { builder with cursor := saved }

variable {builder builder' : WorkspaceLayoutBuilder}

theorem place_eq_ok {size : Except Exception Nat} {alignment bytes : Nat}
    (hcursor : builder.cursor < U64.size)
    (h : place size alignment builder = .ok bytes builder') :
    size = .ok bytes ∧ isPowerOfTwo alignment ∧
      builder'.cursor = roundUp builder.cursor alignment + bytes ∧
      builder'.cursor < U64.size ∧ builder'.peak = max builder.peak builder'.cursor := by
  unfold place at h
  cases haligned : alignUp builder.cursor alignment "workspace layout" with
  | error e =>
    rw [haligned] at h
    cases h
  | ok aligned =>
    obtain ⟨hpow, rfl, hlt⟩ := alignUp_eq_ok hcursor haligned
    cases hsize : size with
    | error e =>
      rw [haligned, hsize] at h
      cases h
    | ok n =>
      cases hsum : checkedAdd (roundUp builder.cursor alignment) n "workspace layout" with
      | error e =>
        simp only [haligned, hsize, hsum, bind, Except.bind] at h
        cases h
      | ok sum =>
        obtain ⟨rfl, hsumLt⟩ := checkedAdd_eq_ok hlt hsum
        simp only [haligned, hsize, hsum, bind, Except.bind] at h
        cases h
        exact ⟨rfl, hpow, rfl, hsumLt, rfl⟩

/-- The peak a builder reports is at least the peak it has seen. -/
theorem peak_le_peakBytes {alignment bytes : Nat} (hpeak : builder.peak < U64.size)
    (h : builder.peakBytes alignment = .ok bytes) : builder.peak ≤ bytes := by
  obtain ⟨hpow, rfl, -⟩ := alignUp_eq_ok hpeak h
  exact le_roundUp _ hpow.pos

end WorkspaceLayoutBuilder

end Ninfer.Core
