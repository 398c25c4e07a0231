import Ninfer.Commons.TopK

/-!
# Candidates of a sampler

A candidate is a logit with the token it belongs to. A higher logit wins, and the lower token among
equal ones, where the two zeros are equal. The keys of the multi-block route pack a candidate into
64 bits that compare in the same way, from which the candidate is read again.

## Main definitions

* `Logit`, `Candidate`: what is selected from
* `samplingBetter`: the order of candidates
* `samplingSortKey`, `samplingKeyFloat`, `samplingKeyIndex`: the keys

## Main results

* `samplingBetter_iff`: the keys are in the order of the candidates
* `samplingKeyFloat_key`, `samplingKeyIndex_key`: a key has its candidate
-/

namespace Ninfer.Sampling

/-! ## Logits -/

/-- An FP32 value that is not a NaN, by its bits. -/
structure Logit where
  bits : BitVec 32
  ordered : (bits &&& 0x7fffffff#32).toNat ≤ 0x7f800000
  deriving DecidableEq

namespace Logit

variable (x y : Logit)

/-- The sign bit. -/
def negative : Bool := x.bits.msb

/-- The bits without the sign. -/
def magnitude : Nat := (x.bits &&& 0x7fffffff#32).toNat

/-- The place of a value among all values: the zeros have the same one. -/
def rank : Int := if x.negative then -(x.magnitude : Int) else x.magnitude

/-- `v > bv` on floats. -/
def gt : Bool := decide (y.rank < x.rank)

/-- `v == bv` on floats. -/
def eq : Bool := decide (x.rank = y.rank)

/-- `0.0f`. -/
def zero : Logit := ⟨0#32, by decide⟩

/-- `-CUDART_INF_F`. -/
def negInf : Logit := ⟨0xff800000#32, by decide⟩

theorem toNat_bits : x.bits.toNat = (if x.negative then 2 ^ 31 else 0) + x.magnitude := by
  have hmask : (0x7fffffff#32).toNat = 2 ^ 31 - 1 := by decide
  unfold negative magnitude
  rw [BitVec.toNat_and, hmask, Nat.and_two_pow_sub_one_eq_mod, BitVec.msb_eq_decide]
  have hlt := x.bits.isLt
  by_cases h : 2 ^ (32 - 1) ≤ x.bits.toNat
  · rw [decide_eq_true h, if_pos rfl]
    omega
  · rw [decide_eq_false h, if_neg (by decide)]
    omega

theorem magnitude_le : x.magnitude ≤ 0x7f800000 := x.ordered

theorem rank_negInf : negInf.rank = -0x7f800000 := by decide

/-- No value is below negative infinity. -/
theorem rank_negInf_le : negInf.rank ≤ x.rank := by
  have := x.magnitude_le
  rw [rank_negInf]
  unfold rank
  split_ifs <;> omega

theorem rank_zero : zero.rank = 0 := by decide

theorem rank_eq_zero : x.rank = 0 ↔ x.magnitude = 0 := by
  unfold rank
  split_ifs <;> omega

/-- The value with a positive sign if it is a zero. -/
def canonical : Logit := if x.eq zero then zero else x

theorem canonical_eq : x.canonical.eq x = true := by
  unfold canonical
  split_ifs with h
  · rw [eq, decide_eq_true_iff] at h ⊢
    exact h.symm
  · exact decide_eq_true rfl

end Logit

/-! ## Keys -/

/-- `INT_MAX`, the token of no candidate. -/
def intMax : Nat := 2 ^ 31 - 1

/-- `sampling_ordered_float`. -/
def samplingOrderedFloat (v : Logit) : BitVec 32 :=
  let bits := (if v.eq .zero then Logit.zero else v).bits
  if bits &&& 0x80000000#32 ≠ 0 then ~~~bits else bits ^^^ 0x80000000#32

/-- `sampling_sort_key`. -/
def samplingSortKey (v : Logit) (idx : Nat) : BitVec 64 :=
  if idx = intMax then 0#64
  else (samplingOrderedFloat v).setWidth 64 <<< 32 |||
    (0xffffffff#32 - BitVec.ofNat 32 idx).setWidth 64

/-- `sampling_key_float`: the bits of the value. -/
def samplingKeyFloat (key : BitVec 64) : BitVec 32 :=
  let ordered := (key >>> 32).setWidth 32
  if ordered &&& 0x80000000#32 ≠ 0 then ordered ^^^ 0x80000000#32 else ~~~ordered

/-- `sampling_key_index`. -/
def samplingKeyIndex (key : BitVec 64) : Nat :=
  if key = 0#64 then intMax else (0xffffffff#32 - key.setWidth 32).toNat

section Bits

variable (b : BitVec 32)

theorem toNat_signBit : (0x80000000#32).toNat = 2 ^ 31 := by decide

theorem and_signBit : b &&& 0x80000000#32 ≠ 0 ↔ 2 ^ 31 ≤ b.toNat := by
  have hlt := b.isLt
  have hpos : 0 < 2 ^ 31 := by decide
  rw [ne_eq, ← BitVec.toNat_inj, BitVec.toNat_and, toNat_signBit, Nat.and_two_pow,
    Nat.testBit_eq_decide_div_mod_eq]
  by_cases h : 2 ^ 31 ≤ b.toNat
  · have hdiv : b.toNat / 2 ^ 31 % 2 = 1 := by omega
    rw [decide_eq_true hdiv]
    exact ⟨fun _ => h, fun _ => by decide⟩
  · have hdiv : ¬b.toNat / 2 ^ 31 % 2 = 1 := by omega
    rw [decide_eq_false hdiv]
    exact ⟨fun hne => absurd rfl hne, fun hle => absurd hle h⟩

theorem toNat_xor_signBit : (b ^^^ 0x80000000#32).toNat =
    if 2 ^ 31 ≤ b.toNat then b.toNat - 2 ^ 31 else b.toNat + 2 ^ 31 := by
  have hlt := b.isLt
  rw [BitVec.toNat_xor, toNat_signBit]
  have hdiv : (b.toNat ^^^ 2 ^ 31) / 2 ^ 31 = b.toNat / 2 ^ 31 ^^^ 1 := by
    rw [Nat.xor_div_two_pow, Nat.div_self (by decide)]
  have hmod : (b.toNat ^^^ 2 ^ 31) % 2 ^ 31 = b.toNat % 2 ^ 31 := by
    rw [Nat.xor_mod_two_pow, Nat.mod_self, Nat.xor_zero]
  have hsplit := Nat.div_add_mod (b.toNat ^^^ 2 ^ 31) (2 ^ 31)
  rw [hdiv, hmod] at hsplit
  split_ifs with h
  · have hone : b.toNat / 2 ^ 31 = 1 := by omega
    rw [hone, Nat.xor_self] at hsplit
    omega
  · have hzero : b.toNat / 2 ^ 31 = 0 := by omega
    rw [hzero, Nat.zero_xor] at hsplit
    omega

end Bits

section Keys

variable (v : Logit) {idx : Nat}

/-- The bits of a value, in the order of the ranks. -/
def orderedBits (bits : BitVec 32) : BitVec 32 :=
  if bits &&& 0x80000000#32 ≠ 0 then ~~~bits else bits ^^^ 0x80000000#32

theorem samplingOrderedFloat_eq : samplingOrderedFloat v = orderedBits v.canonical.bits := rfl

theorem toNat_orderedBits (hzero : v.rank = 0 → v.negative = false) :
    ((orderedBits v.bits).toNat : Int) =
      if 0 ≤ v.rank then 2 ^ 31 + v.rank else 2 ^ 31 - 1 + v.rank := by
  have hbits := v.toNat_bits
  have hmag := v.magnitude_le
  rw [Logit.rank_eq_zero] at hzero
  unfold orderedBits
  cases hneg : v.negative with
  | true =>
    rw [hneg, if_pos rfl] at hbits
    have hpos : v.magnitude ≠ 0 := fun h => nomatch (hzero h).symm.trans hneg
    have hrank : v.rank = -(v.magnitude : Int) := if_pos hneg
    rw [if_pos ((and_signBit _).mpr (by omega)), BitVec.toNat_not, hrank, if_neg (by omega)]
    omega
  | false =>
    rw [hneg, if_neg (by decide)] at hbits
    have hrank : v.rank = v.magnitude := if_neg (by simp [hneg])
    have hsign : ¬2 ^ 31 ≤ v.bits.toNat := by omega
    rw [if_neg (fun h => hsign ((and_signBit _).mp h)), toNat_xor_signBit, if_neg hsign, hrank,
      if_pos (by omega)]
    omega

/-- The rank, moved to the unsigned numbers. -/
theorem toNat_samplingOrderedFloat : ((samplingOrderedFloat v).toNat : Int) =
    if 0 ≤ v.rank then 2 ^ 31 + v.rank else 2 ^ 31 - 1 + v.rank := by
  have hrank : v.canonical.rank = v.rank := of_decide_eq_true v.canonical_eq
  rw [samplingOrderedFloat_eq, toNat_orderedBits, hrank]
  -- the only zero that is left is the positive one
  intro h
  rw [hrank] at h
  have hzero : v.canonical = .zero := if_pos (decide_eq_true h)
  rw [hzero]
  rfl

/-- A key is the place of its value, and the token counted from the end below it. -/
theorem toNat_samplingSortKey (hidx : idx < intMax) : (samplingSortKey v idx).toNat =
    (samplingOrderedFloat v).toNat * 2 ^ 32 + (2 ^ 32 - 1 - idx) := by
  have hord := (samplingOrderedFloat v).isLt
  have hmax : intMax = 2 ^ 31 - 1 := rfl
  have hlow : (0xffffffff#32 - BitVec.ofNat 32 idx).toNat = 2 ^ 32 - 1 - idx := by
    rw [BitVec.toNat_sub, BitVec.toNat_ofNat]
    have hmask : (0xffffffff#32).toNat = 2 ^ 32 - 1 := by decide
    rw [hmask]
    omega
  rw [samplingSortKey, if_neg (by omega), BitVec.toNat_or, BitVec.toNat_shiftLeft,
    BitVec.toNat_setWidth, BitVec.toNat_setWidth, hlow, Nat.mod_eq_of_lt (by omega),
    Nat.mod_eq_of_lt (b := 2 ^ 64) (by omega), Nat.shiftLeft_eq,
    Nat.mod_eq_of_lt (b := 2 ^ 64) (by omega), Nat.mul_comm, ← Nat.two_pow_add_eq_or_of_lt (by omega)]

theorem samplingSortKey_pos (hidx : idx < intMax) : 0 < (samplingSortKey v idx).toNat := by
  have hmax : intMax = 2 ^ 31 - 1 := rfl
  rw [toNat_samplingSortKey v hidx]
  omega

/-- A key has the value of its candidate; a negative zero has become a positive one. -/
theorem samplingKeyFloat_key (hidx : idx < intMax) :
    samplingKeyFloat (samplingSortKey v idx) = v.canonical.bits := by
  have hmax : intMax = 2 ^ 31 - 1 := rfl
  have hhigh : (samplingSortKey v idx >>> 32).setWidth 32 = samplingOrderedFloat v := by
    apply BitVec.eq_of_toNat_eq
    rw [BitVec.toNat_setWidth, BitVec.toNat_ushiftRight, toNat_samplingSortKey v hidx,
      Nat.shiftRight_eq_div_pow]
    have := (samplingOrderedFloat v).isLt
    omega
  have hinv : ∀ bits : BitVec 32,
      (if orderedBits bits &&& 0x80000000#32 ≠ 0 then orderedBits bits ^^^ 0x80000000#32
        else ~~~orderedBits bits) = bits := by
    intro bits
    have hlt := bits.isLt
    unfold orderedBits
    by_cases h : 2 ^ 31 ≤ bits.toNat
    · rw [if_pos ((and_signBit _).mpr h), if_neg, BitVec.not_not]
      rw [and_signBit, BitVec.toNat_not]
      omega
    · rw [if_neg (fun hand => h ((and_signBit _).mp hand)), if_pos]
      · rw [BitVec.xor_assoc, BitVec.xor_self, BitVec.xor_zero]
      · rw [and_signBit, toNat_xor_signBit, if_neg h]
        omega
  unfold samplingKeyFloat
  rw [hhigh, samplingOrderedFloat_eq]
  exact hinv _

theorem samplingKeyIndex_key (hidx : idx < intMax) :
    samplingKeyIndex (samplingSortKey v idx) = idx := by
  have hmax : intMax = 2 ^ 31 - 1 := rfl
  have hmask : (0xffffffff#32).toNat = 2 ^ 32 - 1 := by decide
  have hne : samplingSortKey v idx ≠ 0#64 := fun h => by
    have := samplingSortKey_pos v hidx
    rw [h] at this
    exact absurd this (by decide)
  rw [samplingKeyIndex, if_neg hne, BitVec.toNat_sub, BitVec.toNat_setWidth,
    toNat_samplingSortKey v hidx, hmask]
  omega

end Keys

/-! ## Candidates -/

/-- A logit and its token. `INT_MAX` is the token of the candidate that stands for none. -/
structure Candidate where
  val : Logit
  idx : Nat
  idx_le : idx ≤ intMax
  none_val : idx = intMax → val = .negInf
  deriving DecidableEq

/-- The candidate that stands for none. -/
def Candidate.none : Candidate := ⟨.negInf, intMax, le_rfl, fun _ => rfl⟩

/-- `sampling_better`. -/
def samplingBetter (c best : Candidate) : Bool :=
  c.val.gt best.val || (c.val.eq best.val && decide (c.idx < best.idx))

/-- The key of a candidate. -/
def Candidate.key (c : Candidate) : Nat := (samplingSortKey c.val c.idx).toNat

theorem Candidate.key_none : Candidate.none.key = 0 := by decide

theorem Candidate.eq_none {c : Candidate} (h : c.idx = intMax) : c = .none := by
  obtain ⟨val, idx, hle, hnone⟩ := c
  obtain rfl : idx = intMax := h
  obtain rfl : val = .negInf := hnone rfl
  rfl

theorem Candidate.key_pos {c : Candidate} (h : c ≠ .none) : 0 < c.key := by
  refine samplingSortKey_pos c.val (lt_of_le_of_ne c.idx_le fun heq => h (eq_none heq))

/-- **The keys are in the order of the candidates.** -/
theorem samplingBetter_iff (c best : Candidate) :
    samplingBetter c best = true ↔ best.key < c.key := by
  have hmax : intMax = 2 ^ 31 - 1 := rfl
  rw [samplingBetter, Bool.or_eq_true, Bool.and_eq_true, Logit.gt, Logit.eq, decide_eq_true_iff,
    decide_eq_true_iff, decide_eq_true_iff]
  by_cases hc : c = .none
  · subst hc
    rw [Candidate.key_none]
    have hlow := best.val.rank_negInf_le
    have hidx := best.idx_le
    change best.val.rank < Logit.negInf.rank ∨ _ ∧ intMax < best.idx ↔ _
    omega
  by_cases hbest : best = .none
  · subst hbest
    rw [Candidate.key_none]
    have hlow := c.val.rank_negInf_le
    have hidx : c.idx < intMax := lt_of_le_of_ne c.idx_le fun heq => hc (Candidate.eq_none heq)
    change Logit.negInf.rank < c.val.rank ∨ c.val.rank = Logit.negInf.rank ∧ c.idx < intMax ↔ _
    refine ⟨fun _ => Candidate.key_pos hc, fun _ => ?_⟩
    omega
  · have hi : c.idx < intMax := lt_of_le_of_ne c.idx_le fun heq => hc (Candidate.eq_none heq)
    have hj : best.idx < intMax :=
      lt_of_le_of_ne best.idx_le fun heq => hbest (Candidate.eq_none heq)
    have hv := toNat_samplingOrderedFloat c.val
    have hw := toNat_samplingOrderedFloat best.val
    unfold Candidate.key
    rw [toNat_samplingSortKey _ hi, toNat_samplingSortKey _ hj]
    split_ifs at hv hw <;> omega

end Ninfer.Sampling
