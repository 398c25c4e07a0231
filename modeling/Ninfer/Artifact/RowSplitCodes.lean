import Ninfer.Artifact.RowSplit
import Ninfer.Commons.BitStream

/-!
# Packing and unpacking groups of codes

A group of codes is packed into bytes of its own in each plane, whatever the number of groups
packed at a time, and both ways of unpacking compute each group from its own bytes. Unpacking a
packed group gives its codes.

## Main definitions

* `Grouped`: the bits and the group sizes of the registered formats
* `groupCodes`: the codes of the bytes of a group

## Main results

* `unpackCodes_ok`: planes are unpacked group by group
* `eagerDequantizer_ok`: the dequantizers unpack the same codes
* `groupCodes_packed`: a packed group is unpacked to its codes
-/

namespace Ninfer.Artifact.Tools

/-- The bits and group sizes of the grouped formats. -/
def Grouped (bits groupSize : Nat) : Prop :=
  (bits = 4 ∧ groupSize = 64) ∨ (bits = 5 ∧ groupSize = 64) ∨ (bits = 6 ∧ groupSize = 64) ∨
    (bits = 8 ∧ groupSize = 32)

/-- The low nibbles of the bytes of a group. -/
def lowGroup (base : List UInt8) : List Nat :=
  base.flatMap fun byte => [byte.toNat &&& 0x0F, byte.toNat >>> 4 &&& 0x0F]

/-- The bits above the low nibbles of the bytes of a group. -/
def upperGroup (bits groupSize : Nat) (high : List UInt8) : List Nat :=
  (List.range groupSize).map fun j =>
    (high.getD (j * (bits - 4) / 8) 0).toNat >>> (j * (bits - 4) % 8) &&& (1 <<< (bits - 4) - 1)

/-- The unsigned codes of the bytes of a group. -/
def unsignedGroup (bits groupSize : Nat) (base high : List UInt8) : List Nat :=
  if bits = 4 then lowGroup base
  else List.zipWith (fun low upper => low ||| upper <<< 4) (lowGroup base)
    (upperGroup bits groupSize high)

/-- The codes of the bytes of a group. -/
def groupCodes (bits groupSize : Nat) (base high : List UInt8) : List (BitVec 8) :=
  if bits = 8 then base.map UInt8.toBitVec
  else (unsignedGroup bits groupSize base high).map fun unsigned =>
    BitVec.ofInt 8 (signedCode (1 <<< (bits - 1)) (1 <<< bits) unsigned)

/-! ## Unpacking -/

section Unpacking

variable {α : Type} {bits groupSize n k rows width : Nat} {data : List α} {base high : List UInt8}
  {planes : RowPlanes}

theorem reshapeRows_of (h : data.length = rows * width) :
    reshapeRows rows width data = .ok ((List.range rows).map (chunkAt width data)) := by
  unfold reshapeRows ensure
  rw [if_pos h]
  rfl

theorem selectColumns_of {indices : List Nat} (h : ∀ i ∈ indices, i < width)
    (rows : List (List UInt8)) :
    selectColumns width indices rows =
      .ok (rows.map fun row => indices.map fun i => row.getD i 0) := by
  unfold selectColumns ensure
  rw [if_pos h]
  rfl

theorem interleave_map (row : List UInt8) :
    interleave (row.map fun byte => byte.toNat &&& 0x0F)
      (row.map fun byte => byte.toNat >>> 4 &&& 0x0F) = lowGroup row := by
  unfold interleave lowGroup
  rw [List.zip_map', List.flatMap_map]

theorem lowG64_of {groups : Nat} (h : base.length = groups * 32) :
    lowG64 base groups =
      .ok ((List.range groups).map fun i => lowGroup (chunkAt 32 base i)) := by
  unfold lowG64
  rw [reshapeRows_of h, ok_bind, List.map_map]
  rfl

/-- The byte indices of a group are within its bytes. -/
theorem upperCodes_of {groups highBytes mask : Nat} (hbits : bits ≠ 4 ∧ bits ≠ 8)
    (hbytes : ∀ j < groupSize, j * (bits - 4) / 8 < highBytes)
    (hmask : mask = 1 <<< (bits - 4) - 1) (h : high.length = groups * highBytes) :
    upperCodes highBytes mask (highIndices bits groupSize).1 (highIndices bits groupSize).2 groups
        high =
      .ok ((List.range groups).map fun i =>
        upperGroup bits groupSize (chunkAt highBytes high i)) := by
  have hindices : ∀ i ∈ (highIndices bits groupSize).1, i < highBytes := by
    intro i hi
    rw [highIndices, if_neg (by omega)] at hi
    simp only [List.map_map, List.mem_map, List.mem_range, Function.comp_apply] at hi
    obtain ⟨j, hj, rfl⟩ := hi
    exact hbytes j hj
  unfold upperCodes
  rw [reshapeRows_of h, ok_bind, selectColumns_of hindices, ok_bind, List.map_map, List.map_map]
  refine congrArg Except.ok (List.map_congr_left fun i _ => ?_)
  -- one group: the byte and the shift of each code
  simp only [Function.comp_apply, highIndices, if_neg (show ¬(bits = 4 ∨ bits = 8) by omega)]
  rw [List.map_map, List.map_map, List.map_map, List.zipWith_map, List.zipWith_self]
  unfold upperGroup
  rw [hmask]
  rfl

theorem joinCodes_map (f g : Nat → List Nat) (l : List Nat) :
    joinCodes (l.map f) (l.map g) =
      l.map fun i => List.zipWith (fun low upper => low ||| upper <<< 4) (f i) (g i) := by
  unfold joinCodes
  rw [List.zipWith_map, List.zipWith_self]

/-- The planes have the bytes that the geometry asks for. -/
structure RowPlanes.Fit (planes : RowPlanes) (g : RowSplitGeometry) : Prop where
  base : planes.base.data.length = g.n * g.groupsPerRow * g.baseBytesPerGroup
  high : planes.high.data.length = g.n * g.groupsPerRow * g.highBytesPerGroup
  scale : planes.scale.data.length = g.n * g.groupsPerRow * 2

/-- The codes of group `i` of the planes. -/
def RowPlanes.group (planes : RowPlanes) (bits groupSize : Nat) (g : RowSplitGeometry) (i : Nat) :
    List (BitVec 8) :=
  groupCodes bits groupSize (chunkAt g.baseBytesPerGroup planes.base.data i)
    (chunkAt g.highBytesPerGroup planes.high.data i)

theorem baseBytesPerGroup_eq {g : RowSplitGeometry} (hg : g = quantGeometry bits groupSize n k) :
    g.baseBytesPerGroup = if bits = 8 then groupSize else groupSize / 2 := by
  subst hg
  rfl

variable {g : RowSplitGeometry} (hformat : Grouped bits groupSize)
  (hg : g = quantGeometry bits groupSize n k)

include hformat hg

/-- The bytes above the low nibbles of a group hold all its codes. -/
theorem index_lt_highBytes (hbits : bits ≠ 4 ∧ bits ≠ 8) {j : Nat} (hj : j < groupSize) :
    j * (bits - 4) / 8 < g.highBytesPerGroup := by
  have hbytes : g.highBytesPerGroup = groupSize * (bits - 4) / 8 := by
    subst hg
    exact if_neg (by omega)
  rw [hbytes]
  rcases hformat with ⟨rfl, rfl⟩ | ⟨rfl, rfl⟩ | ⟨rfl, rfl⟩ | ⟨rfl, rfl⟩ <;> omega

/-- A group has as many codes as its size says. -/
theorem length_groupCodes (hbase : base.length = g.baseBytesPerGroup) :
    (groupCodes bits groupSize base high).length = groupSize := by
  rw [baseBytesPerGroup_eq hg] at hbase
  have hlow : (lowGroup base).length = base.length * 2 := by
    unfold lowGroup
    rw [List.flatMap_def, length_flatten_of (w := 2), List.length_map]
    intro row hrow
    obtain ⟨byte, -, rfl⟩ := List.mem_map.mp hrow
    rfl
  have hupper : (upperGroup bits groupSize high).length = groupSize := by simp [upperGroup]
  unfold groupCodes unsignedGroup
  split_ifs with h8 h4
  · rw [if_pos h8] at hbase
    rw [List.length_map, hbase]
  · rw [if_neg h8] at hbase
    rw [List.length_map, hlow]
    rcases hformat with ⟨rfl, rfl⟩ | ⟨rfl, rfl⟩ | ⟨rfl, rfl⟩ | ⟨rfl, rfl⟩ <;> omega
  · rw [if_neg h8] at hbase
    rw [List.length_map, List.length_zipWith, hlow, hupper]
    rcases hformat with ⟨rfl, rfl⟩ | ⟨rfl, rfl⟩ | ⟨rfl, rfl⟩ | ⟨rfl, rfl⟩ <;> omega

theorem length_group (hfit : planes.Fit g) {i : Nat} (hi : i < g.n * g.groupsPerRow) :
    (planes.group bits groupSize g i).length = groupSize := by
  refine length_groupCodes hformat hg (length_chunkAt ?_)
  rw [hfit.base]
  exact Nat.mul_le_mul_right _ hi

theorem unpackUnsigned_of (hbits : bits ≠ 8) (hfit : planes.Fit g) :
    unpackUnsigned planes.base.data planes.high.data bits groupSize g =
      .ok ((List.range (g.n * g.groupsPerRow)).map fun i =>
        unsignedGroup bits groupSize (chunkAt g.baseBytesPerGroup planes.base.data i)
          (chunkAt g.highBytesPerGroup planes.high.data i)) := by
  unfold unpackUnsigned
  dsimp only
  rw [reshapeRows_of hfit.base, ok_bind, List.map_map]
  simp only [Function.comp_def, interleave_map]
  by_cases h4 : bits = 4
  · rw [if_pos h4]
    refine congrArg Except.ok (List.map_congr_left fun i _ => ?_)
    rw [unsignedGroup, if_pos h4]
  · rw [if_neg h4, upperCodes_of ⟨h4, hbits⟩
      (fun j hj => index_lt_highBytes hformat hg ⟨h4, hbits⟩ hj) rfl hfit.high, ok_bind,
      joinCodes_map]
    refine congrArg Except.ok (List.map_congr_left fun i _ => ?_)
    rw [unsignedGroup, if_neg h4]

/-- Planes are unpacked group by group. -/
theorem unpackCodes_ok (hfit : planes.Fit g) : ∃ scales codes,
    unpackCodes planes bits groupSize g = .ok (scales, codes) ∧
      scales.shape = [g.n, g.groupsPerRow] ∧ scales.data = leWords 2 planes.scale.data ∧
      codes.shape = [g.n, g.groupsPerRow, groupSize] ∧
      codes.data =
        (List.range (g.n * g.groupsPerRow)).flatMap (planes.group bits groupSize g) := by
  have hscales : (leWords 2 planes.scale.data).length = [g.n, g.groupsPerRow].prod := by
    rw [leWords, List.length_map, length_chunks, hfit.scale, Nat.mul_div_cancel _ (by decide)]
    simp
  have hcodes : ((List.range (g.n * g.groupsPerRow)).flatMap
      (planes.group bits groupSize g)).length = [g.n, g.groupsPerRow, groupSize].prod := by
    rw [List.flatMap_def, length_flatten_of (w := groupSize), List.length_map, List.length_range]
    · simp [Nat.mul_assoc]
    · intro row hrow
      obtain ⟨i, hi, rfl⟩ := List.mem_map.mp hrow
      exact length_group hformat hg hfit (List.mem_range.mp hi)
  refine ⟨⟨_, _, hscales⟩, ⟨_, _, hcodes⟩, ?_, rfl, rfl, rfl, rfl⟩
  unfold unpackCodes
  rw [bind_eq_ok]
  refine ⟨⟨_, _, hscales⟩, reshapeTo_eq_ok.mpr ⟨rfl, rfl⟩, ?_⟩
  split_ifs with h8
  · refine bind_eq_ok.mpr ⟨⟨_, _, hcodes⟩, reshapeTo_eq_ok.mpr ⟨rfl, ?_⟩, rfl⟩
    -- a code for each byte
    have hgroup : planes.group bits groupSize g = fun i =>
        (chunkAt g.baseBytesPerGroup planes.base.data i).map UInt8.toBitVec := by
      funext i
      rw [RowPlanes.group, groupCodes, if_pos h8]
    dsimp only
    rw [Tensor.data_ofList, hgroup, ← List.map_flatMap, flatMap_chunkAt hfit.base]
  · rw [bind_eq_ok]
    refine ⟨_, unpackUnsigned_of hformat hg h8 hfit, ?_⟩
    refine bind_eq_ok.mpr ⟨⟨_, _, hcodes⟩, reshapeTo_eq_ok.mpr ⟨rfl, ?_⟩, rfl⟩
    dsimp only
    rw [Tensor.data_ofList, List.map_map, List.map_flatten, List.map_map, List.flatMap_def]
    congr 1
    refine List.map_congr_left fun i _ => ?_
    simp only [Function.comp_apply, List.map_map, RowPlanes.group, groupCodes, if_neg h8]
    rfl

omit hg in
/-- An unsigned code is below the modulus of its format. -/
theorem unsignedGroup_lt (hbits : bits ≠ 8) {unsigned : Nat}
    (h : unsigned ∈ unsignedGroup bits groupSize base high) : unsigned < 64 := by
  have hlow : ∀ low ∈ lowGroup base, low < 16 := by
    intro low hlow
    obtain ⟨byte, -, hbyte⟩ := List.mem_flatMap.mp hlow
    have hmask : ∀ v, v &&& 0x0F < 16 := fun v => Nat.lt_succ_of_le Nat.and_le_right
    simp only [List.mem_cons, List.not_mem_nil, or_false] at hbyte
    rcases hbyte with rfl | rfl
    · exact hmask _
    · exact hmask _
  have hupper : ∀ upper ∈ upperGroup bits groupSize high, upper < 4 := by
    intro upper hupper
    obtain ⟨j, -, rfl⟩ := List.mem_map.mp hupper
    refine Nat.lt_of_le_of_lt Nat.and_le_right ?_
    rcases hformat with ⟨rfl, -⟩ | ⟨rfl, -⟩ | ⟨rfl, -⟩ | ⟨rfl, -⟩
    · decide
    · decide
    · decide
    · exact absurd rfl hbits
  unfold unsignedGroup at h
  split_ifs at h
  · have := hlow unsigned h
    omega
  · rw [← List.map_uncurry_zip_eq_zipWith] at h
    obtain ⟨pair, hpair, rfl⟩ := List.mem_map.mp h
    have hmem := List.of_mem_zip hpair
    have hfirst := hlow pair.1 hmem.1
    have hsecond := hupper pair.2 hmem.2
    have hshift : pair.2 <<< 4 < 2 ^ 6 := by
      rw [Nat.shiftLeft_eq]
      omega
    exact Nat.or_lt_two_pow (by omega) hshift

omit hg in
/-- A code of a group is the integer its unsigned code stands for. -/
theorem map_toInt_groupCodes (hbits : bits ≠ 8) :
    (groupCodes bits groupSize base high).map BitVec.toInt =
      (unsignedGroup bits groupSize base high).map
        (signedCode (1 <<< (bits - 1)) (1 <<< bits)) := by
  rw [groupCodes, if_neg hbits, List.map_map]
  refine List.map_congr_left fun unsigned hmem => ?_
  have hlt := unsignedGroup_lt hformat hbits hmem
  have hmodulus : 1 <<< bits ≤ 64 := by
    rcases hformat with ⟨rfl, -⟩ | ⟨rfl, -⟩ | ⟨rfl, -⟩ | ⟨rfl, -⟩
    · decide
    · decide
    · decide
    · exact absurd rfl hbits
  rw [Function.comp_apply]
  generalize 1 <<< bits = modulus at hmodulus
  apply BitVec.toInt_ofInt_eq_self (by decide)
  · unfold signedCode
    split_ifs <;> omega
  · unfold signedCode
    split_ifs <;> omega

/-- The dequantizers unpack the same codes. -/
theorem eagerDequantizer_ok (hfit : planes.Fit g) :
    eagerDequantizer planes bits groupSize =
      .ok ((List.range (g.n * g.groupsPerRow)).map fun i =>
          (planes.group bits groupSize g i).map BitVec.toInt,
        leWords 2 planes.scale.data) := by
  have hgroups : (leWords 2 planes.scale.data).length = g.n * g.groupsPerRow := by
    rw [leWords, List.length_map, length_chunks, hfit.scale, Nat.mul_div_cancel _ (by decide)]
  have hbytes := baseBytesPerGroup_eq hg
  have hbase := hfit.base
  rw [hbytes] at hbase
  -- what is left in each case is the group as the dequantizer computes it
  have hcodes : ∀ h : bits ≠ 8, (List.range (g.n * g.groupsPerRow)).map (fun i =>
        (unsignedGroup bits groupSize (chunkAt g.baseBytesPerGroup planes.base.data i)
          (chunkAt g.highBytesPerGroup planes.high.data i)).map
            (signedCode (1 <<< (bits - 1)) (1 <<< bits))) =
      (List.range (g.n * g.groupsPerRow)).map fun i =>
        (planes.group bits groupSize g i).map BitVec.toInt := by
    intro h
    refine List.map_congr_left fun i _ => ?_
    rw [RowPlanes.group, map_toInt_groupCodes hformat h]
  have hupper : bits ≠ 4 ∧ bits ≠ 8 → ∀ mask, mask = 1 <<< (bits - 4) - 1 →
      upperCodes g.highBytesPerGroup mask (highIndices bits groupSize).1
          (highIndices bits groupSize).2 (g.n * g.groupsPerRow) planes.high.data =
        .ok ((List.range (g.n * g.groupsPerRow)).map fun i =>
          upperGroup bits groupSize (chunkAt g.highBytesPerGroup planes.high.data i)) :=
    fun h mask hmask => upperCodes_of h (fun j hj => index_lt_highBytes hformat hg h hj) hmask
      hfit.high
  have hhighBytes : g.highBytesPerGroup =
      if bits = 4 ∨ bits = 8 then 0 else groupSize * (bits - 4) / 8 := by
    subst hg
    rfl
  unfold eagerDequantizer
  dsimp only
  rcases hformat with ⟨rfl, rfl⟩ | ⟨rfl, rfl⟩ | ⟨rfl, rfl⟩ | ⟨rfl, rfl⟩
  · rw [if_pos rfl, ← hcodes (by decide), dequant4]
    rw [hgroups, lowG64_of hbase, ok_bind, List.map_map, hbytes]
    rfl
  · rw [if_neg (by decide), if_pos rfl, ← hcodes (by decide), dequant5, dequantHigh]
    dsimp only
    have hwidth : g.highBytesPerGroup = 8 := hhighBytes
    have hcase := hupper (by decide) 1 rfl
    rw [hwidth] at hcase
    rw [hgroups, hcase, ok_bind, lowG64_of hbase, ok_bind, joinCodes_map, List.map_map, hbytes,
      hwidth]
    rfl
  · rw [if_neg (by decide), if_neg (by decide), if_pos rfl, ← hcodes (by decide), dequant6,
      dequantHigh]
    dsimp only
    have hwidth : g.highBytesPerGroup = 16 := hhighBytes
    have hcase := hupper (by decide) 3 rfl
    rw [hwidth] at hcase
    rw [hgroups, hcase, ok_bind, lowG64_of hbase, ok_bind, joinCodes_map, List.map_map, hbytes,
      hwidth]
    rfl
  · rw [if_neg (by decide), if_neg (by decide), if_neg (by decide), dequant8, hgroups]
    rw [if_pos rfl] at hbase hbytes
    have hwhole : (planes.base.data.map fun byte => byte.toBitVec.toInt).length =
        g.n * g.groupsPerRow * (planes.base.data.length / (g.n * g.groupsPerRow)) := by
      rw [List.length_map, hbase, Nat.mul_div_cancel' (Nat.dvd_mul_right _ _)]
    rw [reshapeRows_of hwhole, ok_bind]
    refine congrArg (fun rows => Except.ok (rows, leWords 2 planes.scale.data)) ?_
    refine List.map_congr_left fun i hi => ?_
    -- there is a group, so the width is the size of a group
    have hpos : 0 < g.n * g.groupsPerRow := Nat.zero_lt_of_lt (List.mem_range.mp hi)
    rw [hbase, Nat.mul_div_cancel_left 32 hpos, RowPlanes.group, groupCodes, if_pos rfl, hbytes,
      List.map_map]
    unfold chunkAt
    rw [← List.map_drop, ← List.map_take]
    rfl

end Unpacking

/-! ## Packing -/

section Packing

variable {bits groupSize : Nat} {code : BitVec 8} {group : List (BitVec 8)}

/-- Filling rows some at a time fills each. -/
theorem inChunks_eq_map {α β : Type} {chunk : Nat} (hchunk : 0 < chunk) (f : α → β)
    (rows : List α) : inChunks chunk f rows = rows.map f := by
  -- the rows filled after `m` turns
  have hturns : ∀ m, (List.range' 0 m chunk).flatMap (fun first =>
      slice rows first (min rows.length (first + chunk))) =
        slice rows 0 (min rows.length (m * chunk)) := by
    intro m
    induction m with
    | zero => simp [slice]
    | succ m ih =>
      rw [List.range'_concat, List.flatMap_append, ih, List.flatMap_singleton, Nat.zero_add,
        Nat.mul_comm chunk m, Nat.succ_mul]
      rcases Nat.le_total (m * chunk) rows.length with h | h
      · rw [Nat.min_eq_right h]
        exact slice_append_slice rows (Nat.zero_le _) (by omega)
      · have hrest : rows.drop (m * chunk) = [] := List.drop_eq_nil_of_le h
        have hempty : slice rows (m * chunk) (min rows.length (m * chunk + chunk)) = [] := by
          unfold slice
          rw [hrest, List.take_nil]
        rw [hempty, Nat.min_eq_left h, Nat.min_eq_left (by omega), List.append_nil]
  have hcount : rows.length ≤ (rows.length + chunk - 1) / chunk * chunk := by
    have h := Nat.div_add_mod (rows.length + chunk - 1) chunk
    have hmod := Nat.mod_lt (rows.length + chunk - 1) hchunk
    rw [Nat.mul_comm] at h
    omega
  unfold inChunks
  rw [← List.map_flatMap, hturns, Nat.min_eq_left hcount, slice_all]

theorem lowNibble_lt (code : BitVec 8) : lowNibble code < 16 := by
  unfold lowNibble
  rw [BitVec.toNat_and]
  exact Nat.lt_succ_of_le Nat.and_le_right

theorem upperBits_lt (bits : Nat) (code : BitVec 8) : upperBits bits code < 2 ^ (bits - 4) := by
  unfold upperBits
  dsimp only
  rw [BitVec.toNat_and, BitVec.toNat_ofNat, Nat.one_shiftLeft]
  have hpos := Nat.two_pow_pos (bits - 4)
  have hmask := Nat.mod_le (2 ^ (bits - 4) - 1) (2 ^ 32)
  exact Nat.lt_of_le_of_lt Nat.and_le_right (by omega)

/-- A code is the number its two parts stand for. -/
theorem signedCode_parts : ∀ bits ∈ [4, 5, 6], ∀ code : BitVec 8,
    -2 ^ (bits - 1) ≤ code.toInt → code.toInt < 2 ^ (bits - 1) →
      BitVec.ofInt 8 (signedCode (1 <<< (bits - 1)) (1 <<< bits)
        (lowNibble code ||| upperBits bits code <<< 4)) = code := by
  decide +kernel

/-- The two nibbles of a byte. -/
theorem nibbles_of_pair {even odd : Nat} (heven : even < 16) (hodd : odd < 16) :
    (UInt8.ofNat (even ||| odd <<< 4)).toNat &&& 0x0F = even ∧
      (UInt8.ofNat (even ||| odd <<< 4)).toNat >>> 4 &&& 0x0F = odd := by
  have hjoin : even ||| odd <<< 4 = odd * 16 + even := by
    rw [Nat.lor_comm, ← Nat.shiftLeft_add_eq_or_of_lt (i := 4) (b := even) heven,
      Nat.shiftLeft_eq]
  have hbyte : (UInt8.ofNat (even ||| odd <<< 4)).toNat = odd * 16 + even := by
    rw [UInt8.toNat_ofNat', hjoin]
    omega
  have hmask : ∀ v, v &&& 0x0F = v % 16 := fun v => Nat.and_two_pow_sub_one_eq_mod v 4
  rw [hbyte, hmask, hmask, Nat.shiftRight_eq_div_pow]
  omega

theorem evens_cons {α : Type} (a : α) (l : List α) : evens (a :: l) = a :: odds l := by
  cases l with
  | nil => rfl
  | cons b l => rfl

theorem odds_cons {α : Type} (a : α) (l : List α) : odds (a :: l) = evens l := rfl

/-- The low nibbles of a packed group. -/
theorem lowGroup_pack (h : ∃ m, group.length = 2 * m) :
    lowGroup (List.zipWith (fun even odd => UInt8.ofNat (even ||| odd <<< 4))
      (evens (group.map lowNibble)) (odds (group.map lowNibble))) = group.map lowNibble := by
  obtain ⟨m, hm⟩ := h
  -- by induction on the pairs of codes
  induction m generalizing group with
  | zero =>
    rw [Nat.mul_zero, List.length_eq_zero_iff] at hm
    subst hm
    rfl
  | succ m ih =>
    cases group with
    | nil => simp at hm
    | cons first rest =>
      cases rest with
      | nil =>
        simp only [List.length_cons, List.length_nil] at hm
        omega
      | cons second rest =>
        have hrest : rest.length = 2 * m := by
          simp only [List.length_cons] at hm
          omega
        have hpair := nibbles_of_pair (lowNibble_lt first) (lowNibble_lt second)
        have ih := ih hrest
        unfold lowGroup at ih ⊢
        rw [List.map_cons, List.map_cons, evens_cons, odds_cons, odds_cons, evens_cons,
          List.zipWith_cons_cons, List.flatMap_cons, ih, hpair.1, hpair.2]
        rfl

/-- The sum of weighted bits. -/
theorem sum_bitWeights {byte : List Bool} (h : byte.length = 8) :
    (List.zipWith (· * ·) (byte.map Bool.toNat) ((List.range 8).map fun i => 1 <<< i)).sum =
      bitsValue byte := by
  rcases byte with _ | ⟨b₀, _ | ⟨b₁, _ | ⟨b₂, _ | ⟨b₃, _ | ⟨b₄, _ | ⟨b₅, _ | ⟨b₆, _ | ⟨b₇, _ |
    ⟨b₈, byte⟩⟩⟩⟩⟩⟩⟩⟩⟩
  all_goals simp at h
  have hweights : ((List.range 8).map fun i => 1 <<< i) = [1, 2, 4, 8, 16, 32, 64, 128] := by
    decide
  rw [hweights]
  simp only [List.map_cons, List.map_nil, List.zipWith_cons_cons, List.zipWith_nil_right,
    List.sum_cons, List.sum_nil, bitsValue]
  ring

/-- The packed upper bits of a group are a stream of fields. -/
theorem packHigh_eq (bits : Nat) (group : List (BitVec 8)) :
    ((chunks 8 ((group.map (upperBits bits)).flatMap fun code =>
      (List.range (bits - 4)).map fun shift => code >>> shift &&& 1)).map fun byte =>
        UInt8.ofNat (List.zipWith (· * ·) byte ((List.range 8).map fun i => 1 <<< i)).sum) =
      streamBytes ((group.map (upperBits bits)).flatMap (lowBits (bits - 4))) := by
  have hbit : ∀ code shift : Nat, code >>> shift &&& 1 = (code.testBit shift).toNat := by
    intro code shift
    rw [Nat.and_one_is_mod, Nat.toNat_testBit, Nat.shiftRight_eq_div_pow]
  have hstream : ((group.map (upperBits bits)).flatMap fun code =>
      (List.range (bits - 4)).map fun shift => code >>> shift &&& 1) =
        ((group.map (upperBits bits)).flatMap (lowBits (bits - 4))).map Bool.toNat := by
    rw [List.map_flatMap]
    refine List.flatMap_congr fun code _ => ?_
    simp only [lowBits, List.map_map, Function.comp_def, hbit]
  have hrows : ∀ stream : List Bool, chunks 8 (stream.map Bool.toNat) =
      (chunks 8 stream).map (List.map Bool.toNat) := by
    intro stream
    simp only [chunks, List.length_map, List.map_map, Function.comp_def, chunkAt, List.map_take,
      List.map_drop]
    rfl
  rw [hstream, hrows, List.map_map]
  refine List.map_congr_left fun byte hbyte => ?_
  rw [Function.comp_apply, sum_bitWeights (length_of_mem_chunks hbyte)]

/-- The upper bits of a packed group. -/
theorem upperGroup_pack (hbits : bits - 4 ∣ 8) (hwhole : 8 ∣ groupSize * (bits - 4))
    (hgroup : group.length = groupSize) :
    upperGroup bits groupSize
        (streamBytes ((group.map (upperBits bits)).flatMap (lowBits (bits - 4)))) =
      group.map (upperBits bits) := by
  have hfields : (group.map (upperBits bits)).length = groupSize := by
    rw [List.length_map, hgroup]
  apply List.ext_getElem
  · simp [upperGroup, hgroup]
  · intro j hj hj'
    have hcode : j < group.length := by rwa [List.length_map] at hj'
    have hvalue : (group.map (upperBits bits)).getD j 0 < 2 ^ (bits - 4) := by
      rw [List.getD_eq_getElem _ _ hj', List.getElem_map]
      exact upperBits_lt bits _
    have hfield := field_streamBytes hbits (by rwa [hfields]) hj' hvalue
    simp only [upperGroup, List.getElem_map, List.getElem_range]
    rw [hfield, List.getD_eq_getElem _ _ hj', List.getElem_map]

/-- The bytes of a group in the plane of low nibbles. -/
def packedBase (bits : Nat) (group : List (BitVec 8)) : List UInt8 :=
  if bits = 8 then group.map UInt8.ofBitVec
  else List.zipWith (fun even odd => UInt8.ofNat (even ||| odd <<< 4))
    (evens (group.map lowNibble)) (odds (group.map lowNibble))

/-- The bytes of a group in the plane of the bits above them. -/
def packedHigh (bits : Nat) (group : List (BitVec 8)) : List UInt8 :=
  if bits = 4 ∨ bits = 8 then []
  else streamBytes ((group.map (upperBits bits)).flatMap (lowBits (bits - 4)))

/-- Groups are packed one by one. -/
theorem packCodes_eq (bits groupSize : Nat) (codes : List (List (BitVec 8))) :
    packCodes bits groupSize codes =
      (codes.map (packedBase bits), codes.map (packedHigh bits)) := by
  have hpos : ∀ m, 0 < max 1 m := fun m => Nat.lt_of_lt_of_le Nat.zero_lt_one (Nat.le_max_left 1 m)
  unfold packCodes packLowNibbles packHighBits
  dsimp only
  split_ifs with h8 h4
  · refine Prod.ext (List.map_congr_left fun group _ => ?_) (List.map_congr_left fun group _ => ?_)
    · rw [packedBase, if_pos h8]
    · rw [packedHigh, if_pos (Or.inr h8)]
  · rw [inChunks_eq_map (hpos _)]
    refine Prod.ext (List.map_congr_left fun group _ => ?_) (List.map_congr_left fun group _ => ?_)
    · rw [packedBase, if_neg h8]
    · rw [packedHigh, if_pos (Or.inl h4)]
  · rw [inChunks_eq_map (hpos _), inChunks_eq_map (hpos _)]
    refine Prod.ext (List.map_congr_left fun group _ => ?_) (List.map_congr_left fun group _ => ?_)
    · rw [packedBase, if_neg h8]
    · rw [packedHigh, if_neg (by omega), packHigh_eq]

theorem length_evens {α : Type} {l : List α} {m : Nat} (h : l.length = 2 * m) :
    (evens l).length = m ∧ (odds l).length = m := by
  induction m generalizing l with
  | zero =>
    rw [Nat.mul_zero, List.length_eq_zero_iff] at h
    subst h
    exact ⟨rfl, rfl⟩
  | succ m ih =>
    cases l with
    | nil => simp at h
    | cons a l =>
      cases l with
      | nil =>
        simp only [List.length_cons, List.length_nil] at h
        omega
      | cons b l =>
        have hrest : l.length = 2 * m := by
          simp only [List.length_cons] at h
          omega
        rw [evens_cons, odds_cons, odds_cons, evens_cons, List.length_cons, List.length_cons,
          (ih hrest).1, (ih hrest).2]
        exact ⟨rfl, rfl⟩

variable {n k : Nat} {g : RowSplitGeometry} (hformat : Grouped bits groupSize)

include hformat

theorem length_packedBase (hg : g = quantGeometry bits groupSize n k)
    (hgroup : group.length = groupSize) :
    (packedBase bits group).length = g.baseBytesPerGroup := by
  rw [baseBytesPerGroup_eq hg]
  unfold packedBase
  split_ifs with h8
  · rw [List.length_map, hgroup]
  · have hpairs : (group.map lowNibble).length = 2 * (groupSize / 2) := by
      rw [List.length_map, hgroup]
      rcases hformat with ⟨rfl, rfl⟩ | ⟨rfl, rfl⟩ | ⟨rfl, rfl⟩ | ⟨rfl, rfl⟩ <;> rfl
    rw [List.length_zipWith, (length_evens hpairs).1, (length_evens hpairs).2, Nat.min_self]

omit hformat in
theorem length_packedHigh (hg : g = quantGeometry bits groupSize n k)
    (hgroup : group.length = groupSize) :
    (packedHigh bits group).length = g.highBytesPerGroup := by
  have hbytes : g.highBytesPerGroup =
      if bits = 4 ∨ bits = 8 then 0 else groupSize * (bits - 4) / 8 := by
    subst hg
    rfl
  rw [hbytes]
  unfold packedHigh
  split_ifs with h
  · rfl
  · rw [length_streamBytes, length_flatMap_lowBits, List.length_map, hgroup]

/-- A packed group is unpacked to its codes. -/
theorem groupCodes_packed (hgroup : group.length = groupSize)
    (hrange : bits ≠ 8 → ∀ code ∈ group,
      -2 ^ (bits - 1) ≤ code.toInt ∧ code.toInt < 2 ^ (bits - 1)) :
    groupCodes bits groupSize (packedBase bits group) (packedHigh bits group) = group := by
  by_cases h8 : bits = 8
  · rw [groupCodes, packedBase, if_pos h8, if_pos h8, List.map_map]
    exact List.map_id group
  have heven : ∃ m, group.length = 2 * m := by
    refine ⟨groupSize / 2, ?_⟩
    rw [hgroup]
    rcases hformat with ⟨rfl, rfl⟩ | ⟨rfl, rfl⟩ | ⟨rfl, rfl⟩ | ⟨rfl, rfl⟩ <;> rfl
  have hbits : bits ∈ [4, 5, 6] := by
    rcases hformat with ⟨rfl, -⟩ | ⟨rfl, -⟩ | ⟨rfl, -⟩ | ⟨rfl, -⟩
    · decide
    · decide
    · decide
    · exact absurd rfl h8
  -- the unsigned code of each of the codes
  have hunsigned : unsignedGroup bits groupSize (packedBase bits group) (packedHigh bits group) =
      group.map fun code => lowNibble code ||| upperBits bits code <<< 4 := by
    rw [unsignedGroup, packedBase, if_neg h8, lowGroup_pack heven]
    split_ifs with h4
    · refine List.map_congr_left fun code _ => ?_
      have hzero : upperBits bits code = 0 := by
        have h := upperBits_lt bits code
        subst h4
        omega
      rw [hzero, Nat.zero_shiftLeft, Nat.or_zero]
    · have hwidth : bits - 4 ∣ 8 ∧ 8 ∣ groupSize * (bits - 4) := by
        rcases hformat with ⟨rfl, rfl⟩ | ⟨rfl, rfl⟩ | ⟨rfl, rfl⟩ | ⟨rfl, rfl⟩
        · exact absurd rfl h4
        · decide
        · decide
        · exact absurd rfl h8
      rw [packedHigh, if_neg (by omega), upperGroup_pack hwidth.1 hwidth.2 hgroup,
        List.zipWith_map, List.zipWith_self]
  rw [groupCodes, if_neg h8, hunsigned, List.map_map]
  refine Eq.trans (List.map_congr_left fun code hcode => ?_) (List.map_id group)
  obtain ⟨hmin, hmax⟩ := hrange h8 code hcode
  exact signedCode_parts bits hbits code hmin hmax

end Packing

end Ninfer.Artifact.Tools
