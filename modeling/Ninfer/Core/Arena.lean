import Ninfer.Core.Layout

/-!
# The device arena

`DeviceArena` of `core/arena.cu`: allocations are placed one after another in a storage of fixed
capacity, each at an aligned address, and scopes take the offset back. Addresses are
`std::uintptr_t`, natural numbers here, with the overflow checks of the source.

## Main definitions

* `DeviceStorage`: a range of the address space
* `DeviceArena.borrow`: the arena over a storage
* `DeviceArena.allocBytes`, `DeviceArena.alloc`: the allocations
* `DeviceArena.restore`: the destructor of a scope, which only ever lowers the offset

## Main results

* `DeviceArena.allocBytes_of_fits`: over an aligned storage an allocation whose end, computed on
  offsets, is within the capacity does not throw and is placed there
-/

namespace Ninfer.Core

/-- A range of device memory: it does not wrap around the address space. -/
structure DeviceStorage extends DeviceSpan where
  end_le : data + bytes ≤ U64.size

/-- `DeviceArena`. Whether the arena owns its storage is left out: only its destructor reads it. -/
structure DeviceArena where
  base : Nat
  cap : Nat
  off : Nat
  peak : Nat
  deriving DecidableEq, Repr

/-- `checked_add_uintptr`. -/
def checkedAddUintptr (a b : Nat) : Except Exception Nat := do
  check (b ≤ U64.size - 1 - a) (.overflowError "arena address arithmetic overflow")
  return a + b

/-- `align_up_addr`. -/
def alignUpAddr (addr align : Nat) : Except Exception Nat := do
  let mask := align - 1
  let withMask ← checkedAddUintptr addr mask
  return withMask &&& U64.complement mask

namespace DeviceArena

/-- The arena over borrowed storage. -/
def borrow (storage : DeviceSpan) : Except Exception DeviceArena := do
  check (storage.data ≠ 0 ∧ storage.bytes ≠ 0)
    (.invalidArgument "borrowed DeviceArena storage must be non-empty")
  return ⟨storage.data, storage.bytes, 0, 0⟩

/-- Where `alloc_bytes` places an allocation, and the arena after it. -/
def place (arena : DeviceArena) (bytes align : Nat) :
    Except Exception (DeviceSpan × DeviceArena) := do
  check (arena.base ≠ 0) (.runtimeError "DeviceArena has no backing allocation")
  check (isPowerOfTwo align)
    (.invalidArgument "arena alignment must be a nonzero power of two")
  check (bytes ≠ 0) (.invalidArgument "arena allocation must be nonzero")
  let currentAddr ← checkedAddUintptr arena.base arena.off
  let alignedAddr ← alignUpAddr currentAddr align
  let alignedOffset := alignedAddr - arena.base
  check (alignedOffset ≤ U64.size - 1)
    (.overflowError "arena aligned offset overflows size_t")
  check (bytes ≤ U64.size - 1 - alignedOffset)
    (.overflowError "arena allocation end offset overflows size_t")
  let stop := alignedOffset + bytes
  check (stop ≤ arena.cap) .badAlloc
  return (⟨arena.base + alignedOffset, bytes⟩,
    { arena with off := stop, peak := max arena.peak stop })

/-- `DeviceArena::alloc_bytes`. It changes the arena only when it returns. -/
def allocBytes (bytes align : Nat) : Call DeviceArena DeviceSpan := fun arena =>
  match arena.place bytes align with
  | .ok (span, arena') => .ok span arena'
  | .error e => .error e arena

/-- `DeviceArena::alloc`. -/
def alloc (dtype : DType) (shape : List Int) (align : Nat) : Call DeviceArena Tensor := do
  let view ← Call.ofExcept (Tensor.new 0 dtype shape)
  let bytes ← Call.ofExcept view.bytes
  let storage ← allocBytes bytes align
  Call.ofExcept (Tensor.new storage.data dtype shape)

/-- What the destructor of an owning scope does, with the offset it saved. -/
def restore (saved : Nat) (arena : DeviceArena) : DeviceArena :=
  if saved ≤ arena.off then { arena with off := saved } else arena

section Place

variable {arena : DeviceArena} {bytes align : Nat}

theorem checkedAddUintptr_of_lt {a b : Nat} (h : a + b < U64.size) :
    checkedAddUintptr a b = .ok (a + b) := by
  apply check_bind_eq_ok.mpr
  exact ⟨by omega, rfl⟩

theorem alignUpAddr_of_lt {addr : Nat} (hpow : isPowerOfTwo align) (halign : align ≤ U64.size)
    (h : roundUp addr align < U64.size) : alignUpAddr addr align = .ok (roundUp addr align) := by
  -- an aligned address below the end of the address space leaves room for the mask
  have hdvd : align ∣ U64.size := hpow.dvd (isPowerOfTwo_iff.mpr ⟨64, rfl⟩) halign
  have hlt : addr + (align - 1) < U64.size := (roundUp_lt_iff hpow.pos hdvd).mp h
  refine bind_of_eq_ok (checkedAddUintptr_of_lt hlt) ?_
  rw [land_complement_eq_roundUp hpow hlt]
  rfl

/-- Over storage aligned to `align`, aligning the address is aligning the offset: the allocation
ends where the offsets say, and no overflow check of the address arithmetic fires. -/
theorem allocBytes_of_fits (hbase : arena.base ≠ 0) (hend : arena.base + arena.cap ≤ U64.size)
    (hpow : isPowerOfTwo align) (hdvd : align ∣ arena.base) (hbytes : bytes ≠ 0)
    (hfits : roundUp arena.off align + bytes ≤ arena.cap) :
    allocBytes bytes align arena =
      .ok ⟨arena.base + roundUp arena.off align, bytes⟩
        { arena with
          off := roundUp arena.off align + bytes
          peak := max arena.peak (roundUp arena.off align + bytes) } := by
  have hoff := le_roundUp arena.off hpow.pos
  have haligned : roundUp (arena.base + arena.off) align = arena.base + roundUp arena.off align :=
    roundUp_add hpow.pos hdvd
  have halign : align ≤ U64.size := by
    have := Nat.le_of_dvd (Nat.pos_of_ne_zero hbase) hdvd
    omega
  have hplace : arena.place bytes align =
      .ok (⟨arena.base + roundUp arena.off align, bytes⟩,
        { arena with
          off := roundUp arena.off align + bytes
          peak := max arena.peak (roundUp arena.off align + bytes) }) := by
    apply check_bind_eq_ok.mpr
    refine ⟨hbase, ?_⟩
    apply check_bind_eq_ok.mpr
    refine ⟨hpow, ?_⟩
    apply check_bind_eq_ok.mpr
    refine ⟨hbytes, ?_⟩
    refine bind_of_eq_ok (checkedAddUintptr_of_lt (by omega)) ?_
    refine bind_of_eq_ok (alignUpAddr_of_lt hpow halign (by omega)) ?_
    rw [haligned, Nat.add_sub_cancel_left]
    apply check_bind_eq_ok.mpr
    refine ⟨by omega, ?_⟩
    apply check_bind_eq_ok.mpr
    refine ⟨by omega, ?_⟩
    apply check_bind_eq_ok.mpr
    exact ⟨hfits, rfl⟩
  unfold allocBytes
  rw [hplace]

end Place

end DeviceArena

end Ninfer.Core
