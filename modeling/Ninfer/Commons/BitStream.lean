import Ninfer.Commons.Chunks

/-!
# Fields in a stream of bits

Fields of a fixed number of bits written one after the other, the least significant bit first,
and the stream cut into bytes. A field whose width divides eight lies within one byte, and comes
back by a shift and a mask.

## Main definitions

* `bitsValue`, `lowBits`: numbers and their bits, the least significant first
* `streamBytes`: the bytes of a stream

## Main results

* `testBit_streamBytes`: the bits of the bytes are those of the stream
* `field_streamBytes`: reading a field of a stream
-/

namespace Ninfer

/-- The number of bits, the least significant first. -/
def bitsValue : List Bool → Nat
  | [] => 0
  | b :: bits => b.toNat + 2 * bitsValue bits

/-- The low `w` bits of a number, the least significant first. -/
def lowBits (w n : Nat) : List Bool := (List.range w).map n.testBit

/-- The bytes of a stream of bits. -/
def streamBytes (stream : List Bool) : List UInt8 :=
  (chunks 8 stream).map fun bits => UInt8.ofNat (bitsValue bits)

section Bits

variable {w n i : Nat} {bits stream : List Bool}

theorem testBit_bitsValue (bits : List Bool) (i : Nat) :
    (bitsValue bits).testBit i = bits.getD i false := by
  induction bits generalizing i with
  | nil => simp [bitsValue]
  | cons b bits ih =>
    cases i with
    | zero =>
      rw [bitsValue, Nat.testBit_zero, List.getD_cons_zero]
      cases b <;> simp
    | succ i =>
      have hb : b.toNat ≤ 1 := Bool.toNat_le b
      have hrest : (b.toNat + 2 * bitsValue bits) / 2 = bitsValue bits := by omega
      rw [bitsValue, Nat.testBit_succ, hrest, ih, List.getD_cons_succ]

theorem bitsValue_lt (bits : List Bool) : bitsValue bits < 2 ^ bits.length := by
  induction bits with
  | nil => exact Nat.zero_lt_one
  | cons b bits ih =>
    have hb : b.toNat ≤ 1 := Bool.toNat_le b
    rw [bitsValue, List.length_cons, Nat.pow_succ]
    omega

@[simp] theorem length_lowBits (w n : Nat) : (lowBits w n).length = w := by simp [lowBits]

theorem getElem?_lowBits (h : i < w) : (lowBits w n)[i]? = some (n.testBit i) := by
  simp [lowBits, h]

@[simp] theorem length_streamBytes (stream : List Bool) :
    (streamBytes stream).length = stream.length / 8 := by
  simp [streamBytes]

/-- The bits of the bytes are those of the stream. -/
theorem testBit_streamBytes (hstream : 8 ∣ stream.length) {p : Nat} (hp : p < stream.length) :
    ((streamBytes stream).getD (p / 8) 0).toNat.testBit (p % 8) = stream.getD p false := by
  obtain ⟨m, hm⟩ := hstream
  have hbyte : p / 8 < stream.length / 8 := by omega
  have hgroup : (p / 8 + 1) * 8 ≤ stream.length := by omega
  have hlength : (chunkAt 8 stream (p / 8)).length = 8 := length_chunkAt hgroup
  have hlt := bitsValue_lt (chunkAt 8 stream (p / 8))
  rw [hlength] at hlt
  have hget : (streamBytes stream).getD (p / 8) 0 =
      UInt8.ofNat (bitsValue (chunkAt 8 stream (p / 8))) := by
    rw [List.getD_eq_getElem?_getD, streamBytes, List.getElem?_map, getElem?_chunks hbyte]
    rfl
  rw [hget, UInt8.toNat_ofNat', Nat.mod_eq_of_lt hlt, testBit_bitsValue]
  -- within its byte the bit stands where it stands in the stream
  rw [List.getD_eq_getElem?_getD, List.getD_eq_getElem?_getD, chunkAt, List.getElem?_take,
    if_pos (Nat.mod_lt p (by decide)), List.getElem?_drop, Nat.mul_comm, Nat.div_add_mod]

end Bits

section Fields

variable {w j : Nat} {fields : List Nat}

theorem length_flatMap_lowBits (w : Nat) (fields : List Nat) :
    (fields.flatMap (lowBits w)).length = fields.length * w := by
  rw [List.flatMap_def, length_flatten_of (w := w), List.length_map]
  intro row hrow
  obtain ⟨n, -, rfl⟩ := List.mem_map.mp hrow
  exact length_lowBits w n

theorem getD_flatMap_lowBits {i : Nat} (hj : j < fields.length) (hi : i < w) :
    (fields.flatMap (lowBits w)).getD (j * w + i) false = (fields.getD j 0).testBit i := by
  have hrow : chunkAt w (fields.flatMap (lowBits w)) j = lowBits w (fields.getD j 0) := by
    refine chunkAt_flatMap (fun n _ => length_lowBits w n) ?_
    rw [List.getElem?_eq_getElem hj, List.getD_eq_getElem _ _ hj]
  have hbit := congrArg (fun bits => bits[i]?) hrow
  simp only [chunkAt, List.getElem?_take, if_pos hi, List.getElem?_drop, getElem?_lowBits hi]
    at hbit
  rw [List.getD_eq_getElem?_getD, hbit, Option.getD_some]

/-- Reading a field: it lies within one byte. -/
theorem field_streamBytes (hw : w ∣ 8) (hfields : 8 ∣ fields.length * w)
    (hj : j < fields.length) (hvalue : fields.getD j 0 < 2 ^ w) :
    (((streamBytes (fields.flatMap (lowBits w))).getD (j * w / 8) 0).toNat >>> (j * w % 8)) &&&
      (1 <<< w - 1) = fields.getD j 0 := by
  obtain ⟨m, hm⟩ := hw
  have hwpos : 0 < w := Nat.pos_of_ne_zero fun h => by simp [h] at hm
  have hlength := length_flatMap_lowBits w fields
  have hrow : (j + 1) * w ≤ fields.length * w := Nat.mul_le_mul_right w hj
  rw [Nat.succ_mul] at hrow
  -- the start of the field within its byte is a multiple of the width
  have hstart : j * w % 8 + w ≤ 8 := by
    have hmod : j * w % (m * w) = (j % m) * w := Nat.mul_mod_mul_right w j m
    have height : m * w = 8 := by rw [Nat.mul_comm, ← hm]
    have hpos : 0 < m := Nat.pos_of_ne_zero fun h => by simp [h] at hm
    have hlt : (j % m + 1) * w ≤ m * w := Nat.mul_le_mul_right w (Nat.mod_lt j hpos)
    rw [height] at hmod hlt
    rw [Nat.succ_mul] at hlt
    omega
  apply Nat.eq_of_testBit_eq
  intro i
  rw [Nat.testBit_and, Nat.testBit_shiftRight, Nat.one_shiftLeft, Nat.testBit_two_pow_sub_one]
  by_cases hi : i < w
  · have hdiv : (j * w + i) / 8 = j * w / 8 := by omega
    have hmod : (j * w + i) % 8 = j * w % 8 + i := by omega
    have hwhole : 8 ∣ (fields.flatMap (lowBits w)).length := by rwa [hlength]
    have hinside : j * w + i < (fields.flatMap (lowBits w)).length := by omega
    have hbit := testBit_streamBytes hwhole hinside
    rw [hdiv, hmod, getD_flatMap_lowBits hj hi] at hbit
    rw [hbit]
    simp [hi]
  · have hzero : (fields.getD j 0).testBit i = false := by
      apply Nat.testBit_lt_two_pow
      exact Nat.lt_of_lt_of_le hvalue (Nat.pow_le_pow_right (by decide) (by omega))
    rw [hzero]
    simp [hi]

end Fields

end Ninfer
