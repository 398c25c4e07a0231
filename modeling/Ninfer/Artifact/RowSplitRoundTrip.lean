import Ninfer.Artifact.RowSplitCodes

/-!
# Row-split payloads keep their codes and their rows

Codes and scales of the registered grouped formats come back from their payload, and the eager
dequantizers find the same codes in its planes. The planes of a payload do not overlap and the
bytes outside them are zero. Rows taken out of a payload, in any order and any number of times,
make up a payload that decodes to these rows.

## Main definitions

* `wholePlanes`: the planes of a payload
* `Chosen`: planes made of chosen rows of other planes

## Main results

* `placePlanes_spec`: where the planes are and what is outside them
* `decode_chosen`: chosen rows decode to the rows of the decoded whole
-/

namespace Ninfer.Artifact.Tools

section Geometry

variable {name : String} {bits groupSize n k : Nat} {qmin qmax : Int} {g : RowSplitGeometry}

/-- What is registered of a grouped format. -/
theorem quantFormats_spec
    (h : (NumericFormat.quant name bits groupSize, qmin, qmax) ∈ quantFormats) :
    (∀ what, groupedFormat name what = .ok (.quant name bits groupSize, bits, groupSize)) ∧
      Grouped bits groupSize ∧
      (bits ≠ 8 → -2 ^ (bits - 1) ≤ qmin ∧ qmax < 2 ^ (bits - 1)) := by
  simp only [quantFormats, List.mem_cons, List.not_mem_nil, or_false, Prod.mk.injEq,
    NumericFormat.quant.injEq] at h
  rcases h with ⟨⟨rfl, rfl, rfl⟩, rfl, rfl⟩ | ⟨⟨rfl, rfl, rfl⟩, rfl, rfl⟩ |
    ⟨⟨rfl, rfl, rfl⟩, rfl, rfl⟩ | ⟨⟨rfl, rfl, rfl⟩, rfl, rfl⟩
  · exact ⟨fun _ => rfl, .inl ⟨rfl, rfl⟩, fun _ => by decide⟩
  · exact ⟨fun _ => rfl, .inr (.inl ⟨rfl, rfl⟩), fun _ => by decide⟩
  · exact ⟨fun _ => rfl, .inr (.inr (.inl ⟨rfl, rfl⟩)), fun _ => by decide⟩
  · exact ⟨fun _ => rfl, .inr (.inr (.inr ⟨rfl, rfl⟩)), fun h => absurd rfl h⟩

/-- The geometry of a shape. -/
theorem rowSplitGeometry_eq_ok {shape : List Int} :
    rowSplitGeometry (.quant name bits groupSize) shape = .ok g ↔
      ∃ n k : Nat, 0 < n ∧ 0 < k ∧ shape = [(n : Int), (k : Int)] ∧
        g = quantGeometry bits groupSize n k := by
  simp only [rowSplitGeometry]
  rw [bind_eq_ok]
  constructor
  · rintro ⟨dims, hdims, h⟩
    obtain ⟨hpos, hrank, rfl⟩ := shape_checked_iff.mp hdims
    obtain ⟨n, k, rfl⟩ := List.length_eq_two.mp (hrank 2 rfl)
    have hn := hpos n (by simp)
    have hk := hpos k (by simp)
    cases h
    refine ⟨n.toNat, k.toNat, by omega, by omega, ?_, rfl⟩
    rw [Int.toNat_of_nonneg (by omega), Int.toNat_of_nonneg (by omega)]
  · rintro ⟨n, k, hn, hk, rfl, rfl⟩
    refine ⟨[n, k], shape_checked_iff.mpr ⟨?_, ?_, rfl⟩, rfl⟩
    · intro dim hdim
      simp only [List.mem_cons, List.not_mem_nil, or_false] at hdim
      rcases hdim with rfl | rfl
      · omega
      · omega
    · rintro r ⟨⟩
      rfl

/-- The planes of a geometry follow one another. -/
theorem quantGeometry_offsets (hg : g = quantGeometry bits groupSize n k) :
    g.baseBytes ≤ g.highOffset ∧ g.highOffset + g.highBytes ≤ g.scaleOffset ∧
      g.payloadBytes = g.scaleOffset + g.scaleBytes := by
  subst hg
  refine ⟨le_roundUp _ (by decide), ?_, rfl⟩
  exact Nat.add_le_add_left (le_roundUp _ (by decide)) _

/-- A plane is its rows, and a row its groups. -/
theorem quantGeometry_rows (hg : g = quantGeometry bits groupSize n k) :
    (g.baseRowBytes = g.groupsPerRow * g.baseBytesPerGroup ∧
      g.highRowBytes = g.groupsPerRow * g.highBytesPerGroup ∧
      g.scaleRowBytes = g.groupsPerRow * 2) ∧
    g.baseBytes = g.n * g.baseRowBytes ∧ g.highBytes = g.n * g.highRowBytes ∧
      g.scaleBytes = g.n * g.scaleRowBytes ∧ g.baseOffset = 0 := by
  subst hg
  exact ⟨⟨rfl, rfl, rfl⟩, rfl, rfl, rfl, rfl⟩

end Geometry

/-! ## The planes of a payload -/

section Planes

variable {bits groupSize n k : Nat} {g : RowSplitGeometry} {base high scale : List UInt8}
  {payload : Payload}

/-- **The planes of a payload do not overlap, and the bytes outside them are zero.** -/
theorem placePlanes_spec (hg : g = quantGeometry bits groupSize n k)
    (hbase : base.length = g.baseBytes) (hhigh : high.length = g.highBytes)
    (hscale : scale.length = g.scaleBytes) :
    (placePlanes g base high scale).length = g.payloadBytes ∧
      slice (placePlanes g base high scale) 0 g.baseBytes = base ∧
      slice (placePlanes g base high scale) g.highOffset (g.highOffset + g.highBytes) = high ∧
      slice (placePlanes g base high scale) g.scaleOffset (g.scaleOffset + g.scaleBytes) =
        scale ∧
      ∀ i < g.payloadBytes, g.baseBytes ≤ i → (i < g.highOffset ∨ g.highOffset + g.highBytes ≤ i) →
        i < g.scaleOffset → (placePlanes g base high scale)[i]? = some 0 := by
  obtain ⟨hfirst, hsecond, hthird⟩ := quantGeometry_offsets hg
  -- the buffer after each of the writes
  let zeros : List UInt8 := List.replicate g.payloadBytes 0
  let first := setSlice zeros 0 g.baseBytes base
  let second := if g.highBytes = 0 then first
    else setSlice first g.highOffset (g.highOffset + g.highBytes) high
  have hzeros : zeros.length = g.payloadBytes := List.length_replicate
  have hfirstEnd : g.baseBytes = 0 + base.length := by omega
  have hfirstLength : first.length = g.payloadBytes := by
    rw [length_setSlice hfirstEnd (by omega), hzeros]
  have hsecondEnd : g.highOffset + g.highBytes = g.highOffset + high.length := by omega
  have hsecondLength : second.length = g.payloadBytes := by
    simp only [second]
    split_ifs with h
    · exact hfirstLength
    · rw [length_setSlice hsecondEnd (by omega), hfirstLength]
  have hthirdEnd : g.scaleOffset + g.scaleBytes = g.scaleOffset + scale.length := by omega
  have hplaced : placePlanes g base high scale =
      setSlice second g.scaleOffset (g.scaleOffset + g.scaleBytes) scale := rfl
  rw [hplaced]
  refine ⟨?_, ?_, ?_, ?_, ?_⟩
  · rw [length_setSlice hthirdEnd (by omega), hsecondLength]
  · rw [slice_setSlice_of_disjoint hthirdEnd (by omega) (by omega)]
    simp only [second]
    split_ifs with h
    · exact slice_setSlice_self hfirstEnd (by omega)
    · rw [slice_setSlice_of_disjoint hsecondEnd (by omega) (by omega)]
      exact slice_setSlice_self hfirstEnd (by omega)
  · rw [slice_setSlice_of_disjoint hthirdEnd (by omega) (by omega)]
    simp only [second]
    split_ifs with h
    · -- without bytes above the low nibbles the plane is empty
      have hempty : high = [] := List.length_eq_zero_iff.mp (by omega)
      rw [hempty, h, Nat.add_zero]
      unfold slice
      rw [Nat.sub_self, List.take_zero]
    · exact slice_setSlice_self hsecondEnd (by omega)
  · exact slice_setSlice_self hthirdEnd (by omega)
  · intro i hi hafter hbetween hbefore
    rw [getElem?_setSlice hthirdEnd (by omega), if_neg (by omega)]
    have hfirstZero : first[i]? = some 0 := by
      rw [getElem?_setSlice hfirstEnd (by omega), if_neg (by omega), List.getElem?_replicate,
        if_pos hi]
    simp only [second]
    split_ifs with h
    · exact hfirstZero
    · rw [getElem?_setSlice hsecondEnd (by omega), if_neg (by omega), hfirstZero]

/-- The planes of a payload. -/
def wholePlanes (g : RowSplitGeometry) (data : List UInt8) : RowPlanes where
  base := .tensor (Tensor.ofList (slice data 0 g.baseBytes))
  high := .tensor (Tensor.ofList (slice data g.highOffset (g.highOffset + g.highBytes)))
  scale := .tensor (Tensor.ofList (slice data g.scaleOffset (g.scaleOffset + g.scaleBytes)))
  rows := g.n

/-- The planes of a payload of the right length have their bytes. -/
theorem wholePlanes_fit (hg : g = quantGeometry bits groupSize n k) {data : List UInt8}
    (h : data.length = g.payloadBytes) : (wholePlanes g data).Fit g := by
  obtain ⟨hfirst, hsecond, hthird⟩ := quantGeometry_offsets hg
  obtain ⟨⟨hbaseRow, hhighRow, hscaleRow⟩, hbase, hhigh, hscale, -⟩ := quantGeometry_rows hg
  refine ⟨?_, ?_, ?_⟩
  · simp only [wholePlanes, Payload.data, Tensor.data_ofList]
    rw [length_slice (by omega), Nat.sub_zero, hbase, hbaseRow, Nat.mul_assoc]
  · simp only [wholePlanes, Payload.data, Tensor.data_ofList]
    rw [length_slice (by omega), Nat.add_sub_cancel_left, hhigh, hhighRow, Nat.mul_assoc]
  · simp only [wholePlanes, Payload.data, Tensor.data_ofList]
    rw [length_slice (by omega), Nat.add_sub_cancel_left, hscale, hscaleRow, Nat.mul_assoc]

/-- A range of rows of a payload. -/
theorem splitRowPlanes_of (hlength : payloadLength payload = .ok g.payloadBytes)
    {rowCount : Option Int} {first count : Nat}
    (hrows : rowCount.getD (g.n - (first : Int)) = count) (hcount : 0 < count)
    (hrange : first + count ≤ g.n) :
    splitRowPlanes payload g first rowCount = .ok
      ⟨payload.slice (g.baseOffset + first * g.baseRowBytes)
          (g.baseOffset + first * g.baseRowBytes + count * g.baseRowBytes),
        payload.slice (g.highOffset + first * g.highRowBytes)
          (g.highOffset + first * g.highRowBytes + count * g.highRowBytes),
        payload.slice (g.scaleOffset + first * g.scaleRowBytes)
          (g.scaleOffset + first * g.scaleRowBytes + count * g.scaleRowBytes), count⟩ := by
  unfold splitRowPlanes
  rw [hlength, ok_bind, ensure_bind_of rfl]
  dsimp only
  rw [hrows, ensure_bind_of ⟨by omega, by omega, by omega⟩]
  rfl

/-- All rows of a payload. -/
theorem splitRowPlanes_whole (hg : g = quantGeometry bits groupSize n k) (hn : 0 < n)
    (hlength : payloadLength payload = .ok g.payloadBytes) :
    splitRowPlanes payload g 0 none = .ok
      ⟨payload.slice 0 g.baseBytes,
        payload.slice g.highOffset (g.highOffset + g.highBytes),
        payload.slice g.scaleOffset (g.scaleOffset + g.scaleBytes), g.n⟩ := by
  obtain ⟨-, hbase, hhigh, hscale, hoffset⟩ := quantGeometry_rows hg
  have hrows : g.n = n := by rw [hg]; rfl
  have hcount : (none : Option Int).getD (g.n - ((0 : Nat) : Int)) = (g.n : Nat) := by simp
  have hwhole := splitRowPlanes_of hlength hcount (by omega) (by omega)
  rw [hoffset, ← hbase, ← hhigh, ← hscale] at hwhole
  simpa using hwhole

/-- A payload of the right length is decoded from its planes. -/
theorem planesOnDevice_payload (hg : g = quantGeometry bits groupSize n k) (hn : 0 < n)
    (hlength : payloadLength payload = .ok g.payloadBytes) :
    planesOnDevice (.payload payload) g = .ok (wholePlanes g payload.data) := by
  have hdata : payloadLength (.tensor (Tensor.ofList payload.data)) = .ok g.payloadBytes := by
    rw [payloadLength_ofList, payloadLength_eq_ok hlength]
  unfold planesOnDevice
  dsimp only
  rw [hlength, ok_bind, ensure_bind_of rfl, splitRowPlanes_whole hg hn hdata]
  rfl

end Planes

/-! ## Assembling planes -/

section Assembling

variable {name : String} {bits groupSize n k : Nat} {qmin qmax : Int} {g : RowSplitGeometry}
  {planes : RowPlanes}

/-- Planes of one kind, each along one axis. -/
structure RowPlanes.Uniform (planes : RowPlanes) : Prop where
  kinds : planes.high.isTensor = planes.base.isTensor ∧
    planes.scale.isTensor = planes.base.isTensor
  base : planeLength planes.base = .ok planes.base.data.length
  high : planeLength planes.high = .ok planes.high.data.length
  scale : planeLength planes.scale = .ok planes.scale.data.length

theorem uniform_tensors (base high scale : List UInt8) (rows : Int) :
    RowPlanes.Uniform ⟨.tensor (Tensor.ofList base), .tensor (Tensor.ofList high),
      .tensor (Tensor.ofList scale), rows⟩ :=
  ⟨⟨rfl, rfl⟩, rfl, rfl, rfl⟩

/-- Planes of the right lengths are assembled. -/
theorem assembleRowPlanes_of
    (hformat : (NumericFormat.quant name bits groupSize, qmin, qmax) ∈ quantFormats)
    (hg : g = quantGeometry bits groupSize n k) (hn : 0 < n) (hk : 0 < k)
    (hrows : planes.rows = n) (huniform : planes.Uniform)
    (hbase : planes.base.data.length = g.baseBytes)
    (hhigh : planes.high.data.length = g.highBytes)
    (hscale : planes.scale.data.length = g.scaleBytes) : ∃ assembled,
    assembleRowPlanes planes name k = .ok assembled ∧
      assembled.data =
        placePlanes g planes.base.data planes.high.data planes.scale.data ∧
      payloadLength assembled = .ok g.payloadBytes := by
  obtain ⟨hgrouped, -, -⟩ := quantFormats_spec hformat
  have hgeometry : rowSplitGeometry (.quant name bits groupSize) [planes.rows, (k : Int)] =
      .ok g := rowSplitGeometry_eq_ok.mpr ⟨n, k, hn, hk, by rw [hrows], hg⟩
  have hvalid : validatePlanes planes g = .ok () := by
    have hcount : planes.rows = (g.n : Int) := by rw [hrows, hg]; rfl
    unfold validatePlanes
    rw [ensure_bind_of hcount, huniform.base, huniform.high, huniform.scale, ok_bind, ok_bind,
      ok_bind]
    unfold ensure
    rw [if_pos (by rw [hbase, hhigh, hscale])]
  have hlength := (placePlanes_spec hg hbase hhigh hscale).1
  unfold assembleRowPlanes
  rw [hgrouped, ok_bind]
  dsimp only
  rw [lifted_eq_ok.mpr hgeometry, ok_bind, hvalid, ok_bind, ensure_bind_of huniform.kinds]
  cases planes.base.isTensor with
  | true => exact ⟨_, rfl, rfl, by rw [if_pos rfl, payloadLength_ofList, hlength]⟩
  | false => exact ⟨_, rfl, rfl, congrArg Except.ok hlength⟩

/-- Assembled planes are found again. -/
theorem wholePlanes_assembled (hg : g = quantGeometry bits groupSize n k)
    (hbase : planes.base.data.length = g.baseBytes)
    (hhigh : planes.high.data.length = g.highBytes)
    (hscale : planes.scale.data.length = g.scaleBytes) :
    (wholePlanes g
        (placePlanes g planes.base.data planes.high.data planes.scale.data)).base.data =
          planes.base.data ∧
      (wholePlanes g
        (placePlanes g planes.base.data planes.high.data planes.scale.data)).high.data =
          planes.high.data ∧
      (wholePlanes g
        (placePlanes g planes.base.data planes.high.data planes.scale.data)).scale.data =
          planes.scale.data := by
  obtain ⟨-, hfirst, hsecond, hthird, -⟩ := placePlanes_spec hg hbase hhigh hscale
  exact ⟨hfirst, hsecond, hthird⟩

/-- A payload of the right length is unpacked group by group. -/
theorem decodeRowSplitCodes_ok {payload : Payload}
    (hformat : (NumericFormat.quant name bits groupSize, qmin, qmax) ∈ quantFormats)
    (hg : g = quantGeometry bits groupSize n k) (hn : 0 < n) (hk : 0 < k)
    (hlength : payloadLength payload = .ok g.payloadBytes) : ∃ scales codes,
    decodeRowSplitCodes (.payload payload) name [(n : Int), (k : Int)] = .ok (scales, codes) ∧
      scales.shape = [g.n, g.groupsPerRow] ∧
      scales.data = leWords 2 (wholePlanes g payload.data).scale.data ∧
      codes.shape = [g.n, g.groupsPerRow, groupSize] ∧
      codes.data = (List.range (g.n * g.groupsPerRow)).flatMap
        ((wholePlanes g payload.data).group bits groupSize g) := by
  obtain ⟨hgrouped, hbits, -⟩ := quantFormats_spec hformat
  have hgeometry : rowSplitGeometry (.quant name bits groupSize) [(n : Int), (k : Int)] = .ok g :=
    rowSplitGeometry_eq_ok.mpr ⟨n, k, hn, hk, rfl, hg⟩
  have hfit := wholePlanes_fit hg (payloadLength_eq_ok hlength).symm
  obtain ⟨scales, codes, hunpack, hrest⟩ := unpackCodes_ok hbits hg hfit
  refine ⟨scales, codes, ?_, hrest⟩
  unfold decodeRowSplitCodes
  rw [hgrouped, ok_bind]
  dsimp only
  rw [lifted_eq_ok.mpr hgeometry, ok_bind, planesOnDevice_payload hg hn hlength, ok_bind, hunpack]

end Assembling

/-! ## Encoding -/

section Encoding

variable {name : String} {bits groupSize n k : Nat} {qmin qmax : Int} {g : RowSplitGeometry}
  {codes : Tensor (BitVec 8)} {scales : Tensor (BitVec (8 * 2))}

/-- The planes that codes and scales are encoded to. -/
def encodedPlanes (bits groupSize : Nat) (g : RowSplitGeometry) (codes : Tensor (BitVec 8))
    (scales : Tensor (BitVec (8 * 2))) : RowPlanes where
  base := .tensor (Tensor.ofList ((chunks groupSize codes.data).flatMap (packedBase bits)))
  high := .tensor (Tensor.ofList ((chunks groupSize codes.data).flatMap (packedHigh bits)))
  scale := .tensor (Tensor.ofList (scales.data.flatMap fun word => leBytes 2 word.toNat))
  rows := g.n

/-- The groups of the codes. -/
theorem chunks_codes (hbits : Grouped bits groupSize)
    (hcodes : codes.shape = [g.n, g.groupsPerRow, groupSize]) :
    (chunks groupSize codes.data).length = g.n * g.groupsPerRow ∧
      codes.data.length = g.n * g.groupsPerRow * groupSize := by
  have hpos : 0 < groupSize := by
    rcases hbits with ⟨-, rfl⟩ | ⟨-, rfl⟩ | ⟨-, rfl⟩ | ⟨-, rfl⟩ <;> decide
  have hlength : codes.data.length = g.n * g.groupsPerRow * groupSize := by
    rw [codes.length_data, hcodes]
    simp [Nat.mul_assoc]
  refine ⟨?_, hlength⟩
  rw [length_chunks, hlength, Nat.mul_div_cancel _ hpos]

theorem encodedPlanes_lengths (hbits : Grouped bits groupSize)
    (hg : g = quantGeometry bits groupSize n k)
    (hcodes : codes.shape = [g.n, g.groupsPerRow, groupSize])
    (hscales : scales.shape = [g.n, g.groupsPerRow]) :
    (encodedPlanes bits groupSize g codes scales).base.data.length = g.baseBytes ∧
      (encodedPlanes bits groupSize g codes scales).high.data.length = g.highBytes ∧
      (encodedPlanes bits groupSize g codes scales).scale.data.length = g.scaleBytes := by
  obtain ⟨⟨hbaseRow, hhighRow, hscaleRow⟩, hbase, hhigh, hscale, -⟩ := quantGeometry_rows hg
  have hcount := (chunks_codes hbits hcodes).1
  simp only [encodedPlanes, Payload.data, Tensor.data_ofList]
  refine ⟨?_, ?_, ?_⟩
  · rw [List.flatMap_def, length_flatten_of (w := g.baseBytesPerGroup), List.length_map, hcount,
      hbase, hbaseRow, Nat.mul_assoc]
    intro row hrow
    obtain ⟨group, hgroup, rfl⟩ := List.mem_map.mp hrow
    exact length_packedBase hbits hg (length_of_mem_chunks hgroup)
  · rw [List.flatMap_def, length_flatten_of (w := g.highBytesPerGroup), List.length_map, hcount,
      hhigh, hhighRow, Nat.mul_assoc]
    intro row hrow
    obtain ⟨group, hgroup, rfl⟩ := List.mem_map.mp hrow
    exact length_packedHigh hg (length_of_mem_chunks hgroup)
  · rw [length_wordBytes, scales.length_data, hscales, hscale, hscaleRow]
    simp [Nat.mul_assoc]

/-- Codes and scales of the right dimensions are encoded to their planes. -/
theorem encodeRowSplit_ok
    (hformat : (NumericFormat.quant name bits groupSize, qmin, qmax) ∈ quantFormats)
    (hg : g = quantGeometry bits groupSize n k) (hn : 0 < n) (hk : 0 < k)
    (hcodes : codes.shape = [g.n, g.groupsPerRow, groupSize])
    (hscales : scales.shape = [g.n, g.groupsPerRow]) :
    encodeRowSplit codes scales name [(n : Int), (k : Int)] =
      .ok (placePlanes g (encodedPlanes bits groupSize g codes scales).base.data
        (encodedPlanes bits groupSize g codes scales).high.data
        (encodedPlanes bits groupSize g codes scales).scale.data) := by
  obtain ⟨hgrouped, hbits, -⟩ := quantFormats_spec hformat
  have hgeometry : rowSplitGeometry (.quant name bits groupSize) [(n : Int), (k : Int)] = .ok g :=
    rowSplitGeometry_eq_ok.mpr ⟨n, k, hn, hk, rfl, hg⟩
  obtain ⟨hbase, hhigh, hscale⟩ := encodedPlanes_lengths hbits hg hcodes hscales
  have hrows : (encodedPlanes bits groupSize g codes scales).rows = n := by
    simp only [encodedPlanes]
    rw [hg]
    rfl
  have hcolumns : (g.k : Int) = k := by rw [hg]; rfl
  obtain ⟨assembled, hassembled, hdata, -⟩ := assembleRowPlanes_of hformat hg hn hk hrows
    (uniform_tensors _ _ _ _) hbase hhigh hscale
  have hplanes : RowPlanes.mk
      (.tensor (Tensor.ofList ((chunks groupSize codes.data).map (packedBase bits)).flatten))
      (.tensor (Tensor.ofList ((chunks groupSize codes.data).map (packedHigh bits)).flatten))
      (.tensor (Tensor.ofList (scales.data.flatMap fun word => leBytes 2 word.toNat))) g.n =
        encodedPlanes bits groupSize g codes scales := by
    simp only [encodedPlanes, List.flatMap_def]
  unfold encodeRowSplit
  rw [hgrouped, ok_bind]
  dsimp only
  rw [lifted_eq_ok.mpr hgeometry, ok_bind, ensure_bind_of hcodes, ensure_bind_of hscales,
    packCodes_eq]
  dsimp only
  rw [hplanes, hcolumns, hassembled, ok_bind, hdata]
  rfl

/-- The planes of encoded codes hold the codes of each group. -/
theorem group_encodedPlanes (hbits : Grouped bits groupSize)
    (hg : g = quantGeometry bits groupSize n k)
    (hcodes : codes.shape = [g.n, g.groupsPerRow, groupSize])
    (hrange : bits ≠ 8 → ∀ code ∈ codes.data,
      -2 ^ (bits - 1) ≤ code.toInt ∧ code.toInt < 2 ^ (bits - 1))
    {planes : RowPlanes}
    (hbase : planes.base.data = (encodedPlanes bits groupSize g codes scales).base.data)
    (hhigh : planes.high.data = (encodedPlanes bits groupSize g codes scales).high.data)
    {i : Nat} (hi : i < g.n * g.groupsPerRow) :
    planes.group bits groupSize g i = chunkAt groupSize codes.data i := by
  obtain ⟨hcount, hlength⟩ := chunks_codes hbits hcodes
  have hpos : 0 < groupSize := by
    rcases hbits with ⟨-, rfl⟩ | ⟨-, rfl⟩ | ⟨-, rfl⟩ | ⟨-, rfl⟩ <;> decide
  have hget : (chunks groupSize codes.data)[i]? = some (chunkAt groupSize codes.data i) := by
    refine getElem?_chunks ?_
    rwa [hlength, Nat.mul_div_cancel _ hpos]
  have hgroup : (chunkAt groupSize codes.data i).length = groupSize := by
    refine length_chunkAt ?_
    rw [hlength]
    exact Nat.mul_le_mul_right _ hi
  rw [RowPlanes.group, hbase, hhigh]
  simp only [encodedPlanes, Payload.data, Tensor.data_ofList]
  rw [chunkAt_flatMap (fun group h => length_packedBase hbits hg (length_of_mem_chunks h)) hget,
    chunkAt_flatMap (fun group h => length_packedHigh hg (length_of_mem_chunks h)) hget]
  refine groupCodes_packed hbits hgroup fun h8 code hcode => ?_
  exact hrange h8 code (List.mem_of_mem_drop (List.mem_of_mem_take hcode))

/-- **Row-split payloads round-trip.** For each registered grouped format and every shape, codes
within the range of the format and any scale words are encoded to a payload that decodes to them.
The eager dequantizer of the format finds the same codes and scales in its planes, the three
planes follow one another within the payload, and every byte outside them is zero. -/
theorem rowSplit_roundTrip
    (hformat : (NumericFormat.quant name bits groupSize, qmin, qmax) ∈ quantFormats)
    {shape : List Int} (hgeometry : rowSplitGeometry (.quant name bits groupSize) shape = .ok g)
    (hcodes : codes.shape = [g.n, g.groupsPerRow, groupSize])
    (hscales : scales.shape = [g.n, g.groupsPerRow])
    (hrange : ∀ code ∈ codes.data, qmin ≤ code.toInt ∧ code.toInt ≤ qmax) : ∃ raw,
    encodeRowSplit codes scales name shape = .ok raw ∧ raw.length = g.payloadBytes ∧
      decodeRowSplitCodes (.payload (.bytes raw)) name shape = .ok (scales, codes) ∧
      (∃ planes, planesOnDevice (.payload (.bytes raw)) g = .ok planes ∧
        eagerDequantizer planes bits groupSize =
          .ok ((chunks groupSize codes.data).map (List.map BitVec.toInt), scales.data)) ∧
      g.baseBytes ≤ g.highOffset ∧ g.highOffset + g.highBytes ≤ g.scaleOffset ∧
      g.scaleOffset + g.scaleBytes = g.payloadBytes ∧
      ∀ i < g.payloadBytes, g.baseBytes ≤ i → (i < g.highOffset ∨ g.highOffset + g.highBytes ≤ i) →
        i < g.scaleOffset → raw[i]? = some 0 := by
  obtain ⟨-, hbits, hbounds⟩ := quantFormats_spec hformat
  obtain ⟨n, k, hn, hk, rfl, hg⟩ := rowSplitGeometry_eq_ok.mp hgeometry
  obtain ⟨hbase, hhigh, hscale⟩ := encodedPlanes_lengths hbits hg hcodes hscales
  obtain ⟨hfirst, hsecond, hthird⟩ := quantGeometry_offsets hg
  obtain ⟨hlength, -, -, -, hzero⟩ := placePlanes_spec hg hbase hhigh hscale
  obtain ⟨hwholeBase, hwholeHigh, hwholeScale⟩ := wholePlanes_assembled hg hbase hhigh hscale
  obtain ⟨hcount, hcodesLength⟩ := chunks_codes hbits hcodes
  have hpayload : payloadLength (.bytes (placePlanes g
      (encodedPlanes bits groupSize g codes scales).base.data
      (encodedPlanes bits groupSize g codes scales).high.data
      (encodedPlanes bits groupSize g codes scales).scale.data)) = .ok g.payloadBytes :=
    congrArg Except.ok hlength
  have hrange' : bits ≠ 8 → ∀ code ∈ codes.data,
      -2 ^ (bits - 1) ≤ code.toInt ∧ code.toInt < 2 ^ (bits - 1) := by
    intro h8 code hcode
    obtain ⟨hmin, hmax⟩ := hrange code hcode
    exact ⟨le_trans (hbounds h8).1 hmin, lt_of_le_of_lt hmax (hbounds h8).2⟩
  -- every group of the planes is a group of the codes
  have hgroups : ∀ i < g.n * g.groupsPerRow,
      (wholePlanes g (placePlanes g (encodedPlanes bits groupSize g codes scales).base.data
        (encodedPlanes bits groupSize g codes scales).high.data
        (encodedPlanes bits groupSize g codes scales).scale.data)).group bits groupSize g i =
          chunkAt groupSize codes.data i := fun i hi =>
    group_encodedPlanes hbits hg hcodes hrange' hwholeBase hwholeHigh hi
  have hscaleWords : leWords 2 (wholePlanes g
      (placePlanes g (encodedPlanes bits groupSize g codes scales).base.data
        (encodedPlanes bits groupSize g codes scales).high.data
        (encodedPlanes bits groupSize g codes scales).scale.data)).scale.data = scales.data := by
    rw [hwholeScale]
    exact leWords_leBytes (by decide) scales.data
  refine ⟨_, encodeRowSplit_ok hformat hg hn hk hcodes hscales, hlength, ?_, ?_, hfirst, hsecond,
    hthird.symm, hzero⟩
  · obtain ⟨scales', codes', hdecode, hscalesShape, hscalesData, hcodesShape, hcodesData⟩ :=
      decodeRowSplitCodes_ok hformat hg hn hk hpayload
    have hscalesEq : scales' = scales :=
      Tensor.ext (hscalesShape.trans hscales.symm) (hscalesData.trans hscaleWords)
    have hcodesEq : codes' = codes := by
      refine Tensor.ext (hcodesShape.trans hcodes.symm) (hcodesData.trans ?_)
      refine Eq.trans (List.flatMap_congr fun i hi => hgroups i (List.mem_range.mp hi)) ?_
      exact flatMap_chunkAt hcodesLength
    rw [hdecode, hscalesEq, hcodesEq]
  · refine ⟨_, planesOnDevice_payload hg hn hpayload, ?_⟩
    have hfit := wholePlanes_fit hg hlength
    rw [Payload.data, eagerDequantizer_ok hbits hg hfit, hscaleWords]
    refine congrArg (fun rows => Except.ok (rows, scales.data)) ?_
    have hpos : 0 < groupSize := by
      rcases hbits with ⟨-, rfl⟩ | ⟨-, rfl⟩ | ⟨-, rfl⟩ | ⟨-, rfl⟩ <;> decide
    unfold chunks
    rw [hcodesLength, Nat.mul_div_cancel _ hpos, List.map_map]
    refine List.map_congr_left fun i hi => ?_
    rw [hgroups i (List.mem_range.mp hi), Function.comp_apply]

/-- A row of 128 codes of five bits, all of them the least. -/
theorem rowSplit_roundTrip_least : ∃ raw,
    encodeRowSplit (Tensor.full [1, 2, 64] (-16#8)) (Tensor.full [1, 2] 1#16) "Q5G64_F16S"
      [1, 65] = .ok raw ∧
    decodeRowSplitCodes (.payload (.bytes raw)) "Q5G64_F16S" [1, 65] =
      .ok (Tensor.full [1, 2] 1#16, Tensor.full [1, 2, 64] (-16#8)) := by
  have hgeometry : rowSplitGeometry (.quant "Q5G64_F16S" 5 64) [1, 65] =
      .ok (quantGeometry 5 64 1 65) := by
    decide
  have hrange : ∀ code ∈ (Tensor.full [1, 2, 64] (-16#8)).data,
      -16 ≤ code.toInt ∧ code.toInt ≤ 15 := by
    intro code hcode
    rw [List.eq_of_mem_replicate hcode]
    decide
  have hformat : (NumericFormat.quant "Q5G64_F16S" 5 64, -16, 15) ∈ quantFormats := by decide
  have hscales : (Tensor.full [1, 2] (1#16)).shape = [1, 2] := rfl
  obtain ⟨raw, hencode, -, hdecode, -⟩ :=
    rowSplit_roundTrip hformat hgeometry rfl hscales hrange
  exact ⟨raw, hencode, hdecode⟩

end Encoding

/-! ## Rows -/

section Rows

variable {name : String} {bits groupSize n k : Nat} {qmin qmax : Int} {g : RowSplitGeometry}
  {payload : Payload} {rows : List Nat}

/-- The planes hold the chosen rows of the planes of `whole`, one after the other. -/
structure Chosen (g : RowSplitGeometry) (whole planes : RowPlanes) (rows : List Nat) : Prop where
  base : planes.base.data = rows.flatMap (chunkAt g.baseRowBytes whole.base.data)
  high : planes.high.data = rows.flatMap (chunkAt g.highRowBytes whole.high.data)
  scale : planes.scale.data = rows.flatMap (chunkAt g.scaleRowBytes whole.scale.data)
  count : planes.rows = rows.length
  uniform : planes.Uniform

/-- The planes, assembled, decode to the chosen rows of the scales and codes. -/
def DecodesRows (name : String) (groupSize : Nat) (g : RowSplitGeometry) (planes : RowPlanes)
    (rows : List Nat) (scales : Tensor (BitVec (8 * 2))) (codes : Tensor (BitVec 8)) : Prop :=
  ∃ assembled scales' codes', assembleRowPlanes planes name g.k = .ok assembled ∧
    decodeRowSplitCodes (.payload assembled) name [(rows.length : Int), (g.k : Int)] =
      .ok (scales', codes') ∧
    scales'.shape = [rows.length, g.groupsPerRow] ∧
    scales'.data = rows.flatMap (chunkAt g.groupsPerRow scales.data) ∧
    codes'.shape = [rows.length, g.groupsPerRow, groupSize] ∧
    codes'.data = rows.flatMap (chunkAt (g.groupsPerRow * groupSize) codes.data)

theorem length_chosen {w : Nat} {plane : List UInt8} (hplane : plane.length = n * w)
    (hrows : ∀ r ∈ rows, r < n) : (rows.flatMap (chunkAt w plane)).length = rows.length * w := by
  rw [List.flatMap_def, length_flatten_of (w := w), List.length_map]
  intro row hrow
  obtain ⟨r, hr, rfl⟩ := List.mem_map.mp hrow
  refine length_chunkAt ?_
  rw [hplane]
  exact Nat.mul_le_mul_right w (hrows r hr)

/-- A group of the chosen rows is a group of the row it was chosen from. -/
theorem chunkAt_chosen {w m : Nat} {plane : List UInt8} (hplane : plane.length = n * (m * w))
    (hrows : ∀ r ∈ rows, r < n) {i r j : Nat} (hr : rows[i]? = some r) (hj : j < m) :
    chunkAt w (rows.flatMap (chunkAt (m * w) plane)) (i * m + j) = chunkAt w plane (r * m + j) := by
  have hrow : chunkAt (m * w) (rows.flatMap (chunkAt (m * w) plane)) i =
      chunkAt (m * w) plane r := by
    refine chunkAt_flatMap (fun r' hr' => length_chunkAt ?_) hr
    rw [hplane]
    exact Nat.mul_le_mul_right _ (hrows r' hr')
  rw [← chunkAt_chunkAt w _ hj, hrow, chunkAt_chunkAt w _ hj]

/-- Words are read one group of bytes at a time. -/
theorem leWords_eq_flatMap {w m : Nat} {l : List UInt8} (hw : 0 < w) (h : l.length = m * w) :
    leWords w l =
      (List.range m).flatMap fun i => [BitVec.ofNat (8 * w) (leWord (chunkAt w l i))] := by
  unfold leWords chunks
  rw [h, Nat.mul_div_cancel m hw, List.map_map, ← List.map_eq_flatMap]
  rfl

/-- The words of chosen rows are the chosen rows of the words. -/
theorem leWords_chosen {w m : Nat} {plane : List UInt8} (hw : 0 < w)
    (hplane : plane.length = n * (m * w)) (hrows : ∀ r ∈ rows, r < n) :
    leWords w (rows.flatMap (chunkAt (m * w) plane)) =
      rows.flatMap (chunkAt m (leWords w plane)) := by
  let word : Nat → List (BitVec (8 * w)) := fun i =>
    [BitVec.ofNat (8 * w) (leWord (chunkAt w plane i))]
  have hchosen : (rows.flatMap (chunkAt (m * w) plane)).length = rows.length * m * w := by
    rw [length_chosen hplane hrows, Nat.mul_assoc]
  have hwhole : leWords w plane = (List.range (n * m)).flatMap word :=
    leWords_eq_flatMap hw (by rw [hplane, Nat.mul_assoc])
  rw [leWords_eq_flatMap hw hchosen, hwhole, flatMap_chosen (G := word)]
  · refine List.flatMap_congr fun r hr => ?_
    have hrow := chunkAt_groups (w := 1) (m := m) (fun i _ => rfl) (hrows r hr) (G := word)
    rw [Nat.mul_one] at hrow
    exact hrow.symm
  · intro i r hr j hj
    rw [chunkAt_chosen hplane hrows hr hj]

/-- **Chosen rows decode to the rows of the decoded whole.** -/
theorem decode_chosen
    (hformat : (NumericFormat.quant name bits groupSize, qmin, qmax) ∈ quantFormats)
    (hg : g = quantGeometry bits groupSize n k) (hn : 0 < n) (hk : 0 < k)
    (hlength : payloadLength payload = .ok g.payloadBytes) {planes : RowPlanes}
    (hnonempty : rows ≠ []) (hrows : ∀ r ∈ rows, r < n)
    (hchosen : Chosen g (wholePlanes g payload.data) planes rows)
    {scales : Tensor (BitVec (8 * 2))} {codes : Tensor (BitVec 8)}
    (hdecode : decodeRowSplitCodes (.payload payload) name [(n : Int), (k : Int)] =
      .ok (scales, codes)) : DecodesRows name groupSize g planes rows scales codes := by
  obtain ⟨-, hbits, -⟩ := quantFormats_spec hformat
  -- the geometry of the chosen rows: the same groups in each row
  have hm : 0 < rows.length := List.length_pos_iff.mpr hnonempty
  let g' := quantGeometry bits groupSize rows.length k
  have hg' : g' = quantGeometry bits groupSize rows.length k := rfl
  have hcolumns : g'.groupsPerRow = g.groupsPerRow ∧
      g'.baseBytesPerGroup = g.baseBytesPerGroup ∧ g'.highBytesPerGroup = g.highBytesPerGroup := by
    subst hg
    exact ⟨rfl, rfl, rfl⟩
  have hgn : g.n = n := by rw [hg]; rfl
  have hgn' : g'.n = rows.length := rfl
  have hgk : g.k = k := by rw [hg]; rfl
  obtain ⟨hgroups, hbaseGroup, hhighGroup⟩ := hcolumns
  obtain ⟨⟨hbaseRow, hhighRow, hscaleRow⟩, -, -, -, -⟩ := quantGeometry_rows hg
  obtain ⟨⟨hbaseRow', hhighRow', hscaleRow'⟩, hbase', hhigh', hscale', -⟩ := quantGeometry_rows hg'
  have hfit := wholePlanes_fit hg (payloadLength_eq_ok hlength).symm
  have hbasePlane := hfit.base
  have hhighPlane := hfit.high
  have hscalePlane := hfit.scale
  rw [hgn, Nat.mul_assoc] at hbasePlane hhighPlane hscalePlane
  -- the lengths of the planes of the chosen rows
  have hbaseLength : planes.base.data.length = g'.baseBytes := by
    rw [hchosen.base, hbaseRow, length_chosen hbasePlane hrows, hbase', hbaseRow', hgroups,
      hbaseGroup, hgn']
  have hhighLength : planes.high.data.length = g'.highBytes := by
    rw [hchosen.high, hhighRow, length_chosen hhighPlane hrows, hhigh', hhighRow', hgroups,
      hhighGroup, hgn']
  have hscaleLength : planes.scale.data.length = g'.scaleBytes := by
    rw [hchosen.scale, hscaleRow, length_chosen hscalePlane hrows, hscale', hscaleRow', hgroups,
      hgn']
  obtain ⟨assembled, hassembled, hdata, hassembledLength⟩ := assembleRowPlanes_of hformat hg' hm hk
    hchosen.count hchosen.uniform hbaseLength hhighLength hscaleLength
  obtain ⟨hwholeBase, hwholeHigh, hwholeScale⟩ :=
    wholePlanes_assembled hg' hbaseLength hhighLength hscaleLength
  obtain ⟨scales', codes', hdecode', hscalesShape', hscalesData', hcodesShape', hcodesData'⟩ :=
    decodeRowSplitCodes_ok hformat hg' hm hk hassembledLength
  obtain ⟨scales₀, codes₀, hdecode₀, -, hscalesData, -, hcodesData⟩ :=
    decodeRowSplitCodes_ok hformat hg hn hk hlength
  rw [hdecode] at hdecode₀
  cases hdecode₀
  rw [hdata] at hscalesData' hcodesData'
  rw [hgn', hgroups] at hscalesShape' hcodesShape' hcodesData'
  rw [DecodesRows, hgk]
  refine ⟨assembled, scales', codes', hassembled, hdecode', hscalesShape', ?_, hcodesShape', ?_⟩
  · rw [hscalesData', hwholeScale, hchosen.scale, hscaleRow,
      leWords_chosen (by decide) hscalePlane hrows, ← hscalesData]
  · rw [hcodesData', hcodesData, hgn]
    have hlengths : ∀ i < n * g.groupsPerRow,
        ((wholePlanes g payload.data).group bits groupSize g i).length = groupSize := by
      intro i hi
      exact length_group hbits hg hfit (by rwa [hgn])
    rw [flatMap_chosen (G := (wholePlanes g payload.data).group bits groupSize g)]
    · refine List.flatMap_congr fun r hr => ?_
      rw [chunkAt_groups hlengths (hrows r hr)]
    · intro i r hr j hj
      rw [RowPlanes.group, RowPlanes.group, hwholeBase, hwholeHigh, hchosen.base, hchosen.high,
        hbaseRow, hhighRow, hbaseGroup, hhighGroup, chunkAt_chosen hbasePlane hrows hr hj,
        chunkAt_chosen hhighPlane hrows hr hj]

theorem flatMap_chunkAt_range {α : Type} (w : Nat) (l : List α) (first count : Nat) :
    (List.range' first count).flatMap (chunkAt w l) =
      slice l (first * w) (first * w + count * w) := by
  induction count with
  | zero => simp [slice]
  | succ count ih =>
    have hlast : chunkAt w l (first + count) =
        slice l (first * w + count * w) (first * w + (count + 1) * w) := by
      unfold chunkAt slice
      rw [Nat.add_mul, Nat.succ_mul]
      congr 1
      omega
    rw [List.range'_1_concat, List.flatMap_append, ih, List.flatMap_singleton, hlast]
    exact slice_append_slice l (by omega) (by rw [Nat.succ_mul]; omega)

/-- A slice of a plane is a slice of the payload. -/
theorem slice_slice {α : Type} (l : List α) {first last i j : Nat} (h : first + j ≤ last) :
    slice (slice l first last) i j = slice l (first + i) (first + j) := by
  unfold slice
  rw [List.drop_take, List.drop_drop, List.take_take]
  congr 1
  omega

theorem payload_slice_data (payload : Payload) (first last : Nat) :
    (payload.slice first last).data = slice payload.data first last := by
  cases payload <;> rfl

theorem payload_slice_isTensor (payload : Payload) (first last : Nat) :
    (payload.slice first last).isTensor = payload.isTensor := by
  cases payload <;> rfl

theorem planeLength_slice (payload : Payload) (first last : Nat) :
    planeLength (payload.slice first last) =
      .ok (payload.slice first last).data.length := by
  cases payload <;> rfl

/-- A range of rows is split off. -/
theorem splitRowPlanes_chosen (hg : g = quantGeometry bits groupSize n k)
    (hlength : payloadLength payload = .ok g.payloadBytes) {first count : Nat}
    (hcount : 0 < count) (hrange : first + count ≤ n) : ∃ planes,
    splitRowPlanes payload g first (some count) = .ok planes ∧
      Chosen g (wholePlanes g payload.data) planes (List.range' first count) := by
  obtain ⟨-, hbase, hhigh, hscale, hoffset⟩ := quantGeometry_rows hg
  have hgn : g.n = n := by rw [hg]; rfl
  have hrows : (some (count : Int)).getD (g.n - (first : Int)) = count := rfl
  have hsplit := splitRowPlanes_of hlength hrows hcount (by rwa [hgn])
  -- the rows of a plane are a slice of it
  have hrowsEnd : ∀ w, first * w + count * w ≤ n * w := by
    intro w
    rw [← Nat.add_mul]
    exact Nat.mul_le_mul_right w hrange
  refine ⟨_, hsplit, ?_, ?_, ?_, ?_, ?_⟩
  · rw [payload_slice_data, flatMap_chunkAt_range, hoffset, Nat.zero_add]
    simp only [wholePlanes, Payload.data, Tensor.data_ofList]
    rw [slice_slice _ (by rw [hbase, hgn, Nat.zero_add]; exact hrowsEnd _), Nat.zero_add,
      Nat.zero_add]
  · rw [payload_slice_data, flatMap_chunkAt_range]
    simp only [wholePlanes, Payload.data, Tensor.data_ofList]
    rw [slice_slice _ (by rw [hhigh, hgn]; exact Nat.add_le_add_left (hrowsEnd _) _),
      Nat.add_assoc]
  · rw [payload_slice_data, flatMap_chunkAt_range]
    simp only [wholePlanes, Payload.data, Tensor.data_ofList]
    rw [slice_slice _ (by rw [hscale, hgn]; exact Nat.add_le_add_left (hrowsEnd _) _),
      Nat.add_assoc]
  · rw [List.length_range']
  · exact ⟨⟨by rw [payload_slice_isTensor, payload_slice_isTensor],
      by rw [payload_slice_isTensor, payload_slice_isTensor]⟩, planeLength_slice _ _ _,
      planeLength_slice _ _ _, planeLength_slice _ _ _⟩

/-- Rows of no bytes. -/
theorem flatMap_chunkAt_zero (rows : List Nat) (plane : List UInt8) :
    rows.flatMap (chunkAt 0 plane) = [] := by
  simp [chunkAt]

theorem gather_of {w : Nat} {plane : List UInt8} (hplane : plane.length = n * w)
    (hrows : ∀ r ∈ rows, r < n) :
    gather n (rows.map Int.ofNat) plane w =
      .ok (.tensor (Tensor.ofList (rows.flatMap (chunkAt w plane)))) := by
  unfold gather
  split_ifs with hw
  · rw [hw, flatMap_chunkAt_zero]
  · have hindices : ∀ i ∈ rows.map Int.ofNat,
        0 ≤ i ∧ i < (((List.range n).map (chunkAt w plane)).length : Int) := by
      intro i hi
      obtain ⟨r, hr, rfl⟩ := List.mem_map.mp hi
      rw [List.length_map, List.length_range]
      exact ⟨Int.natCast_nonneg r, Int.ofNat_lt.mpr (hrows r hr)⟩
    have hselected : (rows.map Int.ofNat).map (fun i =>
        ((List.range n).map (chunkAt w plane)).getD i.toNat []) = rows.map (chunkAt w plane) := by
      rw [List.map_map]
      refine List.map_congr_left fun r hr => ?_
      have hlt := hrows r hr
      simp [hlt]
    rw [reshapeRows_of hplane, ok_bind]
    unfold selectRows
    rw [ensure_bind_of hindices, hselected]
    rfl

theorem gatherBytes_of (rows : List Nat) (plane : List UInt8) (w : Nat) :
    gatherBytes (rows.map Int.ofNat) plane w = .bytes (rows.flatMap (chunkAt w plane)) := by
  unfold gatherBytes
  split_ifs with hw
  · rw [hw, flatMap_chunkAt_zero]
  · rw [List.flatMap_map]
    congr 1
    refine List.flatMap_congr fun r _ => ?_
    rw [Int.ofNat_eq_natCast, Int.toNat_natCast]
    unfold slice chunkAt
    rw [Nat.succ_mul, Nat.add_sub_cancel_left]

/-- The row indices that a caller may pass for a list of rows. -/
def Selects (selection : RowIndices) (rows : List Nat) : Prop :=
  selection = .sequence (rows.map Int.ofNat) ∨
    selection = .tensor (Tensor.ofList (rows.map Int.ofNat))

theorem sequenceRows_of (hnonempty : rows ≠ []) (hrows : ∀ r ∈ rows, r < n) :
    sequenceRows (rows.map Int.ofNat) n = .ok (rows.map Int.ofNat) := by
  have hvalid : ∀ row ∈ rows.map Int.ofNat, 0 ≤ row ∧ row < (n : Int) := by
    intro row hrow
    obtain ⟨r, hr, rfl⟩ := List.mem_map.mp hrow
    exact ⟨Int.natCast_nonneg r, Int.ofNat_lt.mpr (hrows r hr)⟩
  have hany : rows.map Int.ofNat ≠ [] := fun h => hnonempty (List.map_eq_nil_iff.mp h)
  unfold sequenceRows
  rw [ensure_bind_of hvalid, ensure_bind_of hany]
  rfl

theorem indices_of {selection : RowIndices} (h : Selects selection rows) (hnonempty : rows ≠ [])
    (hrows : ∀ r ∈ rows, r < n) :
    tensorIndices selection n = .ok (rows.map Int.ofNat) ∧
      byteIndices selection n = .ok (rows.map Int.ofNat) := by
  have hany : rows.map Int.ofNat ≠ [] := fun h => hnonempty (List.map_eq_nil_iff.mp h)
  rcases h with rfl | rfl
  · exact ⟨sequenceRows_of hnonempty hrows, sequenceRows_of hnonempty hrows⟩
  · constructor
    · unfold tensorIndices
      dsimp only
      rw [ensure_bind_of ⟨rfl, hany⟩]
      rfl
    · unfold byteIndices
      dsimp only
      have haxis : (Tensor.ofList (rows.map Int.ofNat)).shape.length = 1 := rfl
      rw [ensure_bind_of (by simp), ensure_bind_of (Or.inl haxis), Tensor.data_ofList,
        sequenceRows_of hnonempty hrows]

/-- Chosen rows are gathered, from a tensor as from bytes. -/
theorem gatherRowPlanes_chosen (hg : g = quantGeometry bits groupSize n k) (hn : 0 < n)
    (hlength : payloadLength payload = .ok g.payloadBytes) (hnonempty : rows ≠ [])
    (hrows : ∀ r ∈ rows, r < n) {selection : RowIndices} (hselection : Selects selection rows) :
    ∃ planes, gatherRowPlanes payload g selection = .ok planes ∧
      Chosen g (wholePlanes g payload.data) planes rows := by
  obtain ⟨⟨hbaseRow, hhighRow, hscaleRow⟩, -, -, -, -⟩ := quantGeometry_rows hg
  have hgn : g.n = n := by rw [hg]; rfl
  have hfit := wholePlanes_fit hg (payloadLength_eq_ok hlength).symm
  have hbase : (wholePlanes g payload.data).base.data.length = n * g.baseRowBytes := by
    rw [hfit.base, hgn, hbaseRow, Nat.mul_assoc]
  have hhigh : (wholePlanes g payload.data).high.data.length = n * g.highRowBytes := by
    rw [hfit.high, hgn, hhighRow, Nat.mul_assoc]
  have hscale : (wholePlanes g payload.data).scale.data.length = n * g.scaleRowBytes := by
    rw [hfit.scale, hgn, hscaleRow, Nat.mul_assoc]
  have hbaseData : (payload.slice 0 g.baseBytes).data = (wholePlanes g payload.data).base.data :=
    payload_slice_data _ _ _
  have hhighData : (payload.slice g.highOffset (g.highOffset + g.highBytes)).data =
      (wholePlanes g payload.data).high.data := payload_slice_data _ _ _
  have hscaleData : (payload.slice g.scaleOffset (g.scaleOffset + g.scaleBytes)).data =
      (wholePlanes g payload.data).scale.data := payload_slice_data _ _ _
  obtain ⟨htensor, hbytes⟩ := indices_of hselection hnonempty hrows
  have hcount : ((rows.map Int.ofNat).length : Int) = rows.length := by rw [List.length_map]
  unfold gatherRowPlanes
  rw [splitRowPlanes_whole hg hn hlength, ok_bind, hgn]
  dsimp only
  rw [hbaseData, hhighData, hscaleData]
  split_ifs
  · rw [htensor, ok_bind, gather_of hbase hrows, gather_of hhigh hrows, gather_of hscale hrows,
      ok_bind, ok_bind, ok_bind, hcount]
    exact ⟨_, rfl, rfl, rfl, rfl, rfl, uniform_tensors _ _ _ _⟩
  · rw [hbytes, ok_bind, gatherBytes_of, gatherBytes_of, gatherBytes_of, hcount]
    exact ⟨_, rfl, rfl, rfl, rfl, rfl, ⟨⟨rfl, rfl⟩, rfl, rfl, rfl⟩⟩

/-- A payload that decodes has the right length. -/
theorem payloadLength_of_decode
    (hformat : (NumericFormat.quant name bits groupSize, qmin, qmax) ∈ quantFormats)
    {shape : List Int} (hgeometry : rowSplitGeometry (.quant name bits groupSize) shape = .ok g)
    {result : Tensor (BitVec (8 * 2)) × Tensor (BitVec 8)}
    (hdecode : decodeRowSplitCodes (.payload payload) name shape = .ok result) :
    payloadLength payload = .ok g.payloadBytes := by
  obtain ⟨hgrouped, -, -⟩ := quantFormats_spec hformat
  unfold decodeRowSplitCodes at hdecode
  rw [hgrouped, ok_bind] at hdecode
  dsimp only at hdecode
  rw [lifted_eq_ok.mpr hgeometry, ok_bind, bind_eq_ok] at hdecode
  obtain ⟨planes, hplanes, -⟩ := hdecode
  unfold planesOnDevice at hplanes
  dsimp only at hplanes
  rw [bind_eq_ok] at hplanes
  obtain ⟨length, hlength, hplanes⟩ := hplanes
  rw [ensure_bind_eq_ok] at hplanes
  rw [hlength, hplanes.1]

/-- **Rows of a row-split payload.** For a payload of a registered grouped format that decodes,
gathering any non-empty list of its rows, repeated or out of order, from a tensor or from bytes,
and splitting off any range of rows give planes whose assembly decodes to exactly these rows of
the decoded scales and codes, in that order. -/
theorem rowSplit_rows
    (hformat : (NumericFormat.quant name bits groupSize, qmin, qmax) ∈ quantFormats)
    {shape : List Int} (hgeometry : rowSplitGeometry (.quant name bits groupSize) shape = .ok g)
    {scales : Tensor (BitVec (8 * 2))} {codes : Tensor (BitVec 8)}
    (hdecode : decodeRowSplitCodes (.payload payload) name shape = .ok (scales, codes)) :
    (∀ rows : List Nat, rows ≠ [] → (∀ r ∈ rows, r < g.n) →
      ∀ selection, Selects selection rows → ∃ planes,
        gatherRowPlanes payload g selection = .ok planes ∧
          DecodesRows name groupSize g planes rows scales codes) ∧
    ∀ first count : Nat, 0 < count → first + count ≤ g.n → ∃ planes,
      splitRowPlanes payload g first (some count) = .ok planes ∧
        DecodesRows name groupSize g planes (List.range' first count) scales codes := by
  have hlength := payloadLength_of_decode hformat hgeometry hdecode
  obtain ⟨n, k, hn, hk, rfl, hg⟩ := rowSplitGeometry_eq_ok.mp hgeometry
  have hgn : g.n = n := by rw [hg]; rfl
  rw [hgn]
  constructor
  · intro rows hnonempty hrows selection hselection
    obtain ⟨planes, hgather, hchosen⟩ :=
      gatherRowPlanes_chosen hg hn hlength hnonempty hrows hselection
    exact ⟨planes, hgather,
      decode_chosen hformat hg hn hk hlength hnonempty hrows hchosen hdecode⟩
  · intro first count hcount hrange
    obtain ⟨planes, hsplit, hchosen⟩ := splitRowPlanes_chosen hg hlength hcount hrange
    -- A range is the selection of its rows in order.
    have hnonempty : List.range' first count ≠ [] := by
      intro h
      have hzero := congrArg List.length h
      rw [List.length_range'] at hzero
      simp only [List.length_nil] at hzero
      omega
    have hrows : ∀ r ∈ List.range' first count, r < n := by
      intro r hr
      rw [List.mem_range'_1] at hr
      omega
    exact ⟨planes, hsplit,
      decode_chosen hformat hg hn hk hlength hnonempty hrows hchosen hdecode⟩

/-- A payload of two rows that counts its bytes. -/
def countingPayload : List UInt8 :=
  (List.range (quantGeometry 6 64 2 65).payloadBytes).map UInt8.ofNat

/-- Two rows that differ, one of them taken twice. -/
theorem rowSplit_rows_counting : ∃ scales codes planes,
    gatherRowPlanes (.bytes countingPayload) (quantGeometry 6 64 2 65) (.sequence [1, 0, 1]) =
      .ok planes ∧
    DecodesRows "Q6G64_F16S" 64 (quantGeometry 6 64 2 65) planes [1, 0, 1] scales codes := by
  have hformat : (NumericFormat.quant "Q6G64_F16S" 6 64, -32, 31) ∈ quantFormats := by decide
  have hgeometry : rowSplitGeometry (.quant "Q6G64_F16S" 6 64) [2, 65] =
      .ok (quantGeometry 6 64 2 65) := by
    decide
  have hlength : payloadLength (.bytes countingPayload) =
      .ok (quantGeometry 6 64 2 65).payloadBytes := by
    simp [countingPayload, payloadLength]
  obtain ⟨scales, codes, hdecode, -⟩ := decodeRowSplitCodes_ok (n := 2) (k := 65) hformat rfl
    Nat.zero_lt_two (by decide) hlength
  obtain ⟨planes, hgather, hrows⟩ := (rowSplit_rows hformat hgeometry hdecode).1 [1, 0, 1]
    (by decide) (by decide) _ (Or.inl rfl)
  exact ⟨scales, codes, planes, hgather, hrows⟩

end Rows

end Ninfer.Artifact.Tools
