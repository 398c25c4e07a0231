import Ninfer.Sampling.Rounds

/-!
# Speculative rounds are lossless

The uniform numbers of a request are independent, one for each position and purpose. For such
numbers, the tokens a round licenses have the law of the tokens that are sampled one after the
other from the distributions of the target, up to the first one that is not the draft.

A round licenses certain tokens when its uniform numbers lie in certain intervals, and so does the
sampling of one token after the other. The intervals have different purposes, but their lengths
have the same product: the length for a rejection cancels with what the residual is divided by.

## Main definitions

* `uniforms`: the law of the uniform numbers
* `Row.VerifiedBy`: the inputs of a round come from a target
* `Row.decodeTokens`: sampling one token after the other

## Main results

* `uniforms_walk`, `uniforms_decode`: the two laws
* `speculative_round_correct`: a round is correct
-/

open MeasureTheory
open scoped ENNReal

namespace Ninfer.Sampling

/-! ## Uniform numbers -/

/-- What `sampling_uniform` has: a number of `[0, 1)`. -/
abbrev Uniform := Set.Ico (0 : ℝ) 1

/-- Every number is as probable as every other one. -/
noncomputable def uniformLaw : Measure Uniform := volume.comap Subtype.val

theorem uniformLaw_apply (A : Set Uniform) : uniformLaw A = volume (Subtype.val '' A) :=
  comap_subtype_coe_apply measurableSet_Ico volume A

instance : IsProbabilityMeasure uniformLaw := by
  refine ⟨?_⟩
  rw [uniformLaw_apply, Set.image_univ, Subtype.range_coe, Real.volume_Ico, sub_zero,
    ENNReal.ofReal_one]

/-- The positions and purposes for which numbers are drawn. -/
abbrev Draw := Int × SamplePurpose

/-- **Independent uniform numbers.** -/
noncomputable def uniforms : Measure (Draw → Uniform) :=
  Measure.infinitePi fun _ => uniformLaw

/-- The numbers as the kernels read them. -/
def numbers (ω : Draw → Uniform) (position : Int) (purpose : SamplePurpose) : ℝ :=
  ω (position, purpose)

/-- The numbers of an interval are as probable as it is long. -/
theorem uniformLaw_interval {a b : ℝ} (ha : 0 ≤ a) (hb : b ≤ 1) :
    uniformLaw {x : Uniform | a ≤ x ∧ (x : ℝ) < b} = ENNReal.ofReal (b - a) := by
  have himage : Subtype.val '' {x : Uniform | a ≤ x ∧ (x : ℝ) < b} = Set.Ico a b := by
    ext x
    constructor
    · rintro ⟨y, hy, rfl⟩
      exact hy
    · intro hx
      exact ⟨⟨x, ha.trans hx.1, hx.2.trans_le hb⟩, hx, rfl⟩
  rw [uniformLaw_apply, himage, Real.volume_Ico]

theorem measurableSet_interval (a b : ℝ) : MeasurableSet {x : Uniform | a ≤ x ∧ (x : ℝ) < b} :=
  measurable_subtype_coe measurableSet_Ico

/-- **Independence**: for different draws, the probabilities are multiplied. -/
theorem uniforms_forall {ι : Type*} [Fintype ι] {draw : ι → Draw} (hinj : draw.Injective)
    {A : ι → Set Uniform} (hA : ∀ i, MeasurableSet (A i)) :
    uniforms {ω | ∀ i, ω (draw i) ∈ A i} = ∏ i, uniformLaw (A i) := by
  have hset : {ω : Draw → Uniform | ∀ i, ω (draw i) ∈ A i} =
      Set.pi (Finset.univ.map ⟨draw, hinj⟩ : Finset Draw)
        (Function.extend draw A fun _ => Set.univ) := by
    ext ω
    simp [Set.mem_pi, hinj.extend_apply]
  rw [hset, uniforms, Measure.infinitePi_pi, Finset.prod_map]
  · simp [hinj.extend_apply]
  · intro d hd
    obtain ⟨i, -, rfl⟩ := Finset.mem_map.mp hd
    rw [Function.Embedding.coeFn_mk, hinj.extend_apply]
    exact hA i

/-! ## Lengths of intervals -/

section Lengths

variable {d : List (Int × ℝ)} {token exclude : Int}

/-- A token is sampled with its weight. -/
theorem uniformLaw_samplePick (hd : Normalised d) (token : Int) :
    MeasurableSet {x : Uniform | samplePick d x = token} ∧
      uniformLaw {x : Uniform | samplePick d x = token} = ENNReal.ofReal (probOf d token) := by
  have hset : {x : Uniform | samplePick d x = token} =
      {x : Uniform | below d token ≤ x ∧ (x : ℝ) < below d token + probOf d token} := by
    ext x
    exact samplePick_eq_iff hd x.2.1 x.2.2
  have hle := below_add_probOf_le hd.pos token
  rw [hd.total] at hle
  rw [hset]
  refine ⟨measurableSet_interval _ _, ?_⟩
  rw [uniformLaw_interval (below_nonneg hd.pos token) hle, add_sub_cancel_left]

/-- So is the bonus token. -/
theorem uniformLaw_bonus (hd : Normalised d) (token : Int) :
    MeasurableSet {x : Uniform | samplingPickFromSupport d (-1) x = token} ∧
      uniformLaw {x : Uniform | samplingPickFromSupport d (-1) x = token} =
        ENNReal.ofReal (probOf d token) := by
  have hset : {x : Uniform | samplingPickFromSupport d (-1) x = token} =
      {x : Uniform | samplePick d x = token} := by
    ext x
    exact (samplingPickFromSupport_none hd x.2.1 x.2.2).trans
      (samplePick_eq_iff hd x.2.1 x.2.2).symm
  rw [hset]
  exact uniformLaw_samplePick hd token

/-- A draft is accepted with its weight. -/
theorem uniformLaw_accept (hd : Normalised d) (token : Int) :
    MeasurableSet {x : Uniform | (x : ℝ) < probOf d token} ∧
      uniformLaw {x : Uniform | (x : ℝ) < probOf d token} = ENNReal.ofReal (probOf d token) := by
  have hset : {x : Uniform | (x : ℝ) < probOf d token} =
      {x : Uniform | 0 ≤ (x : ℝ) ∧ (x : ℝ) < probOf d token} := by
    ext x
    exact ⟨fun h => ⟨x.2.1, h⟩, And.right⟩
  rw [hset]
  refine ⟨measurableSet_interval _ _, ?_⟩
  rw [uniformLaw_interval le_rfl (probOf_le_one hd token), sub_zero]

/-- It is rejected with the weight of the other tokens. -/
theorem uniformLaw_reject (hd : Normalised d) (token : Int) :
    MeasurableSet {x : Uniform | ¬(x : ℝ) < probOf d token} ∧
      uniformLaw {x : Uniform | ¬(x : ℝ) < probOf d token} =
        ENNReal.ofReal (massWithout d token) := by
  have hset : {x : Uniform | ¬(x : ℝ) < probOf d token} =
      {x : Uniform | probOf d token ≤ (x : ℝ) ∧ (x : ℝ) < 1} := by
    ext x
    exact ⟨fun h => ⟨not_lt.mp h, x.2.2⟩, fun h => not_lt.mpr h.1⟩
  rw [hset, massWithout_eq hd]
  refine ⟨measurableSet_interval _ _, ?_⟩
  rw [uniformLaw_interval (probOf_nonneg hd.pos token) le_rfl]

/-- The correction of a rejected draft is a token with its share of the weight of the others. -/
theorem uniformLaw_correction (hd : Normalised d) (hmass : 0 < massWithout d exclude) (token : Int) :
    MeasurableSet {x : Uniform | samplingPickFromSupport d exclude x = token} ∧
      uniformLaw {x : Uniform | samplingPickFromSupport d exclude x = token} =
        if token = exclude then 0
        else ENNReal.ofReal (probOf d token / massWithout d exclude) := by
  have hfilter : ∀ e ∈ d.filter fun e => e.1 ≠ exclude, 0 < e.2 := fun e he =>
    hd.pos e (List.mem_filter.mp he).1
  have hiff : ∀ x : Uniform, samplingPickFromSupport d exclude x = token ↔ _ := fun x =>
    samplingPickFromSupport_eq_iff hd hmass x.2.1 x.2.2
  split_ifs with h
  · have hset : {x : Uniform | samplingPickFromSupport d exclude x = token} = ∅ := by
      ext x
      exact ⟨fun hx => ((hiff x).mp hx).1 h, fun hx => absurd hx (Set.notMem_empty x)⟩
    rw [hset]
    exact ⟨MeasurableSet.empty, measure_empty⟩
  · let rest := d.filter fun e => e.1 ≠ exclude
    have hset : {x : Uniform | samplingPickFromSupport d exclude x = token} =
        {x : Uniform | below rest token / massWithout d exclude ≤ x ∧
          (x : ℝ) < (below rest token + probOf d token) / massWithout d exclude} := by
      ext x
      rw [Set.mem_ofPred_eq, Set.mem_ofPred_eq, hiff, div_le_iff₀ hmass, lt_div_iff₀ hmass]
      exact ⟨And.right, fun hx => ⟨h, hx⟩⟩
    have hle := below_add_probOf_le hfilter token
    rw [probOf_filter h] at hle
    rw [hset]
    refine ⟨measurableSet_interval _ _, ?_⟩
    rw [uniformLaw_interval (div_nonneg (below_nonneg hfilter token) hmass.le)
      ((div_le_one hmass).mpr hle), ← sub_div, add_sub_cancel_left]

theorem massWithout_nonneg (hd : Normalised d) (exclude : Int) :
    0 ≤ massWithout d exclude := by
  rw [massWithout_eq hd, sub_nonneg]
  exact probOf_le_one hd exclude

theorem probOf_le_massWithout (hd : Normalised d) (h : token ≠ exclude) :
    probOf d token ≤ massWithout d exclude := by
  have hfilter : ∀ e ∈ d.filter fun e => e.1 ≠ exclude, 0 < e.2 := fun e he =>
    hd.pos e (List.mem_filter.mp he).1
  have hle := below_add_probOf_le hfilter token
  rw [probOf_filter h] at hle
  have := below_nonneg hfilter token
  exact (le_add_of_nonneg_left this).trans hle

end Lengths

/-! ## One token after the other -/

namespace Row

section Target

variable {K : Type*} [Field K] [LinearOrder K] (row : Row K) (ar : Arithmetic K)
  (target : List Int → Nat → Logit)

/-- The logits of the target after some tokens of the round, without penalties. -/
def rawColumn (tokens : List Int) : Column where
  vocab := row.vocab
  vocab_le := row.vocab_le
  logit := target tokens

/-- The greedy token of the target: the highest logit, the lower token among equal ones. -/
def greedyNext (tokens : List Int) : Int := ((row.rawColumn target tokens).best 1).headD 0

/-- **The inputs of a round come from a target**: a column has the logits and the greedy token of
the target after the drafts before it. -/
structure VerifiedBy : Prop where
  logits : ∀ i ≤ row.extent, row.logits i = target (row.overlay i)
  targets : ∀ i ≤ row.extent, row.targets i = row.greedyNext target (row.overlay i)

/-- The adjusted logits after some tokens of the round, which are counted. -/
def targetColumn (tokens : List Int) : Column where
  vocab := row.vocab
  vocab_le := row.vocab_le
  logit v := samplingAdjustedLogit ar (target tokens v) v row.config tokens

/-- The distribution of the target after some tokens of the round. -/
def targetDist (tokens : List Int) : List (Int × K) :=
  truncatedSupport ar row.config (((row.targetColumn ar target tokens).best row.cap).map fun v =>
    (((row.targetColumn ar target tokens).logit v).bits, v))

/-- Sampling one token after the other from the target, until a token is not the draft, or there
is no draft. At most `n` more tokens are sampled. -/
def decodeTokens (uniform : Int → SamplePurpose → K) : Nat → List Int → List Int
  | 0, tokens => tokens
  | n + 1, tokens =>
    let y := samplePick (row.targetDist ar target tokens)
      (uniform (row.length + tokens.length + 1) .decode)
    if tokens.length < row.extent ∧ y = row.drafts tokens.length then
      decodeTokens uniform n (tokens ++ [y])
    else tokens ++ [y]

variable {row ar target} {uniform : Int → SamplePurpose → K} {dists : Nat → List (Int × K)}

theorem VerifiedBy.dist_eq (h : row.VerifiedBy target) {i : Nat} (hi : i ≤ row.extent) :
    row.targetDist ar target (row.overlay i) = row.dist ar i := by
  have hcolumn : row.targetColumn ar target (row.overlay i) = row.column ar i := by
    unfold targetColumn column
    rw [h.logits i hi]
  unfold targetDist dist
  rw [hcolumn]

/-- The distributions of a round are distributions. -/
theorem normalised_targetDist [IsStrictOrderedRing K] (row : Row K) (ar : Arithmetic K)
    (target : List Int → Nat → Logit) (tokens : List Int) :
    Normalised (row.targetDist ar target tokens) := by
  let col : Column := row.targetColumn ar target tokens
  have hlength : (col.best row.cap).length = row.cap := Column.length_best row.cap_le.2
  have hsorted : (col.best row.cap).Pairwise col.Before := Column.best_sorted row.cap
  refine normalised_truncatedSupport ar row.config ?_ ?_
  · refine List.ne_nil_of_length_pos ?_
    rw [List.length_map, hlength]
    exact row.cap_pos
  · rw [List.map_map]
    refine (List.map_id _).symm ▸ hsorted.imp ?_
    -- a token does not come before itself
    rintro v w h rfl
    rcases h with h | h <;> omega

end Target

/-! ## When certain tokens are licensed, or sampled -/

section Events

variable {row : Row ℝ} {ar : Arithmetic ℝ} {target : List Int → Nat → Logit}
  {uniform : Int → SamplePurpose → ℝ} {dists : Nat → List (Int × ℝ)}

variable (row uniform dists) in
/-- A walk ends with `a` accepted drafts and the token `t`. -/
theorem walkColumns_eq_iff (n i : Nat) (hn : i + n = row.extent + 1) (hpos : 0 < n)
    (tstar : Int) (a : Nat) (t : Int) :
    row.walkColumns uniform dists n i i tstar = (a, t) ↔
      i ≤ a ∧ a ≤ row.extent ∧
      (∀ j, i ≤ j → j < a →
        uniform (row.length + j + 1) .speculativeAccept < probOf (dists j) (row.drafts j)) ∧
      if a < row.extent then
        ¬uniform (row.length + a + 1) .speculativeAccept < probOf (dists a) (row.drafts a) ∧
          samplingPickFromSupport (dists a) (row.drafts a)
            (uniform (row.length + a + 1) .speculativeCorrection) = t
      else samplingPickFromSupport (dists a) (-1)
        (uniform (row.length + row.extent + 1) .speculativeBonus) = t := by
  induction n generalizing i with
  | zero => omega
  | succ n ih =>
    unfold walkColumns
    dsimp only
    by_cases hi : i < row.extent
    · rw [if_pos hi]
      by_cases hu : uniform (row.length + i + 1) .speculativeAccept <
          probOf (dists i) (row.drafts i)
      · rw [if_pos hu, ih (i + 1) (by omega) (by omega)]
        constructor
        · rintro ⟨hle, hext, hbefore, hend⟩
          refine ⟨by omega, hext, fun j hj hlt => ?_, hend⟩
          rcases Nat.eq_or_lt_of_le hj with rfl | hj'
          · exact hu
          · exact hbefore j hj' hlt
        · rintro ⟨hle, hext, hbefore, hend⟩
          refine ⟨?_, hext, fun j hj hlt => hbefore j (by omega) hlt, hend⟩
          -- an accepted draft is not the last column
          by_contra hne
          obtain rfl : a = i := by omega
          rw [if_pos hi] at hend
          exact hend.1 hu
      · rw [if_neg hu, Prod.mk.injEq]
        constructor
        · rintro ⟨rfl, rfl⟩
          rw [if_pos hi]
          exact ⟨le_rfl, hi.le, fun j hj hlt => absurd hlt (not_lt.mpr hj), hu, rfl⟩
        · rintro ⟨hle, hext, hbefore, hend⟩
          obtain rfl : i = a := by
            by_contra hne
            exact hu (hbefore i le_rfl (by omega))
          rw [if_pos hi] at hend
          exact ⟨rfl, hend.2⟩
    · obtain rfl : n = 0 := by omega
      obtain rfl : i = row.extent := by omega
      rw [if_neg hi, walkColumns, Prod.mk.injEq]
      constructor
      · rintro ⟨rfl, rfl⟩
        rw [if_neg hi]
        exact ⟨le_rfl, le_rfl, fun j hj hlt => absurd hlt (not_lt.mpr hj), rfl⟩
      · rintro ⟨hle, hext, -, hend⟩
        obtain rfl : row.extent = a := by omega
        rw [if_neg hi] at hend
        exact ⟨rfl, hend⟩

variable (row ar target uniform) in
/-- Sampling one token after the other ends after `a` drafts with the token `t`. -/
theorem decodeTokens_eq_iff (n i : Nat) (hn : i + n = row.extent + 1) (hpos : 0 < n) (a : Nat)
    (t : Int) : row.decodeTokens ar target uniform n (row.overlay i) = row.overlay a ++ [t] ↔
      i ≤ a ∧ a ≤ row.extent ∧
      (∀ j, i ≤ j → j < a → samplePick (row.targetDist ar target (row.overlay j))
        (uniform (row.length + j + 1) .decode) = row.drafts j) ∧
      (a < row.extent → t ≠ row.drafts a) ∧
      samplePick (row.targetDist ar target (row.overlay a))
        (uniform (row.length + a + 1) .decode) = t := by
  induction n generalizing i with
  | zero => omega
  | succ n ih =>
    unfold decodeTokens
    dsimp only
    rw [length_overlay]
    by_cases h : i < row.extent ∧ samplePick (row.targetDist ar target (row.overlay i))
        (uniform (row.length + i + 1) .decode) = row.drafts i
    · rw [if_pos h, h.2, ← overlay_succ, ih (i + 1) (by omega) (by omega)]
      constructor
      · rintro ⟨hle, hext, hbefore, hend⟩
        refine ⟨by omega, hext, fun j hj hlt => ?_, hend⟩
        rcases Nat.eq_or_lt_of_le hj with rfl | hj'
        · exact h.2
        · exact hbefore j hj' hlt
      · rintro ⟨hle, hext, hbefore, hne, hend⟩
        refine ⟨?_, hext, fun j hj hlt => hbefore j (by omega) hlt, hne, hend⟩
        by_contra hlt
        obtain rfl : a = i := by omega
        exact hne h.1 (hend.symm.trans h.2)
    · rw [if_neg h]
      constructor
      · intro heq
        have hlen := congrArg List.length heq
        rw [List.length_append, List.length_append, length_overlay, length_overlay] at hlen
        obtain rfl : i = a := by simpa using hlen
        have ht := List.singleton_injective (List.append_cancel_left heq)
        refine ⟨le_rfl, by omega, fun j hj hlt => absurd hlt (not_lt.mpr hj), fun hi hd => ?_, ht⟩
        exact h ⟨hi, ht.trans hd⟩
      · rintro ⟨hle, hext, hbefore, hne, hend⟩
        obtain rfl : i = a := by
          by_contra hlt
          exact h ⟨by omega, hbefore i le_rfl (by omega)⟩
        rw [hend]

variable (row ar target uniform) in
/-- What is sampled is drafts and one more token. -/
theorem exists_decodeTokens (n i : Nat) (hpos : 0 < n) : ∃ a t,
    row.decodeTokens ar target uniform n (row.overlay i) = row.overlay a ++ [t] := by
  induction n generalizing i with
  | zero => omega
  | succ n ih =>
    unfold decodeTokens
    dsimp only
    rw [length_overlay]
    split_ifs with h
    · rw [h.2, ← overlay_succ]
      cases n with
      | zero =>
        rw [decodeTokens]
        exact ⟨i, _, overlay_succ row i⟩
      | succ n => exact ih (i + 1) (by omega)
    · exact ⟨i, _, rfl⟩

end Events

/-! ## The laws -/

section Laws

variable (row : Row ℝ) (ar : Arithmetic ℝ) (target : List Int → Nat → Logit)

/-- The weight of `a` drafts and the token `t`, which ends the round: one weight for each token. -/
noncomputable def stopWeight (a : Nat) (t : Int) : ℝ≥0∞ :=
  let weight := fun (j : Nat) (token : Int) =>
    ENNReal.ofReal (probOf (row.targetDist ar target (row.overlay j)) token)
  if a < row.extent ∧ t = row.drafts a then 0
  else weight a t * ∏ j : Fin a, weight j (row.drafts j)

variable {row ar target} {a : Nat} {t : Int}

/-- **The law of sampling one token after the other.** -/
theorem uniforms_decode (ha : a ≤ row.extent) :
    uniforms {ω | row.decodeTokens ar target (numbers ω) (row.extent + 1) [] =
      row.overlay a ++ [t]} = row.stopWeight ar target a t := by
  have hiff := fun ω => decodeTokens_eq_iff row ar target (numbers ω) (row.extent + 1) 0 (by omega)
    (by omega) a t
  have hnil : row.overlay 0 = [] := rfl
  rw [hnil] at hiff
  unfold stopWeight
  dsimp only
  by_cases hstop : a < row.extent ∧ t = row.drafts a
  · rw [if_pos hstop]
    refine measure_mono_null (fun ω hω => ?_) measure_empty
    exact absurd hstop.2 (((hiff ω).mp hω).2.2.2.1 hstop.1)
  · rw [if_neg hstop]
    let draw : Option (Fin a) → Draw
      | none => (row.length + a + 1, .decode)
      | some j => (row.length + j + 1, .decode)
    let A : Option (Fin a) → Set Uniform
      | none => {x | samplePick (row.targetDist ar target (row.overlay a)) x = t}
      | some j => {x | samplePick (row.targetDist ar target (row.overlay j)) x = row.drafts j}
    have hset : {ω | row.decodeTokens ar target (numbers ω) (row.extent + 1) [] =
        row.overlay a ++ [t]} = {ω | ∀ i, ω (draw i) ∈ A i} := by
      ext ω
      refine (hiff ω).trans ⟨fun h i => ?_, fun h => ?_⟩
      · cases i with
        | none => exact h.2.2.2.2
        | some j => exact h.2.2.1 j (Nat.zero_le _) j.2
      · exact ⟨Nat.zero_le _, ha, fun j _ hj => h (some ⟨j, hj⟩), fun hlt heq => hstop ⟨hlt, heq⟩,
          h none⟩
    have hinj : draw.Injective := by
      rintro (_ | i) (_ | j) h <;> have hpos := (Prod.mk.inj h).1
      · rfl
      · omega
      · omega
      · exact congrArg some (Fin.ext (by omega))
    have hlaw := fun tokens token =>
      uniformLaw_samplePick (normalised_targetDist row ar target tokens) token
    rw [hset, uniforms_forall hinj, Fintype.prod_option]
    · exact congrArg₂ _ (hlaw _ _).2 (Finset.prod_congr rfl fun j _ => (hlaw _ _).2)
    · rintro (_ | j)
      · exact (hlaw _ _).1
      · exact (hlaw _ _).1

/-- **The law of a walk.** -/
theorem uniforms_walk (h : row.VerifiedBy target) (ha : a ≤ row.extent) :
    uniforms {ω | row.walkColumns (numbers ω) (row.dist ar) (row.extent + 1) 0 0 0 = (a, t)} =
      row.stopWeight ar target a t := by
  have hiff := fun ω => walkColumns_eq_iff row (numbers ω) (row.dist ar) (row.extent + 1) 0
    (by omega) (by omega) 0 a t
  have hd : ∀ i ≤ row.extent, Normalised (row.dist ar i) := fun i hi =>
    h.dist_eq hi ▸ normalised_targetDist row ar target (row.overlay i)
  have hsame : ∀ i ≤ row.extent, row.targetDist ar target (row.overlay i) = row.dist ar i :=
    fun i hi => h.dist_eq hi
  unfold stopWeight
  dsimp only
  rw [hsame a ha]
  have hprod : (∏ j : Fin a, ENNReal.ofReal
      (probOf (row.targetDist ar target (row.overlay j)) (row.drafts j))) =
        ∏ j : Fin a, ENNReal.ofReal (probOf (row.dist ar j) (row.drafts j)) :=
    Finset.prod_congr rfl fun j _ => by rw [hsame j (by omega)]
  rw [hprod]
  -- A walk reads each number once, so that its probability is a product over the draws it reads.
  rcases Nat.eq_or_lt_of_le ha with rfl | hlt
  · -- every draft is accepted, and a bonus token is drawn
    rw [if_neg fun hstop => lt_irrefl _ hstop.1]
    let draw : Option (Fin row.extent) → Draw
      | none => (row.length + row.extent + 1, .speculativeBonus)
      | some j => (row.length + j + 1, .speculativeAccept)
    let A : Option (Fin row.extent) → Set Uniform
      | none => {x | samplingPickFromSupport (row.dist ar row.extent) (-1) x = t}
      | some j => {x | (x : ℝ) < probOf (row.dist ar j) (row.drafts j)}
    have hset : {ω | row.walkColumns (numbers ω) (row.dist ar) (row.extent + 1) 0 0 0 =
        (row.extent, t)} = {ω | ∀ i, ω (draw i) ∈ A i} := by
      ext ω
      refine (hiff ω).trans ?_
      rw [if_neg (lt_irrefl _)]
      refine ⟨fun hω i => ?_, fun hω => ?_⟩
      · cases i with
        | none => exact hω.2.2.2
        | some j => exact hω.2.2.1 j (Nat.zero_le _) j.2
      · exact ⟨Nat.zero_le _, le_rfl, fun j _ hj => hω (some ⟨j, hj⟩), hω none⟩
    have hinj : draw.Injective := by
      rintro (_ | i) (_ | j) heq
      · rfl
      · exact nomatch (Prod.mk.inj heq).2
      · exact nomatch (Prod.mk.inj heq).2
      · have hpos := (Prod.mk.inj heq).1
        exact congrArg some (Fin.ext (by omega))
    have hbonus := uniformLaw_bonus (hd row.extent le_rfl) t
    have haccept := fun j : Fin row.extent => uniformLaw_accept (hd j j.2.le) (row.drafts j)
    rw [hset, uniforms_forall hinj, Fintype.prod_option]
    · exact congrArg₂ _ hbonus.2 (Finset.prod_congr rfl fun j _ => (haccept j).2)
    · rintro (_ | j)
      · exact hbonus.1
      · exact (haccept j).1
  · -- draft `a` is rejected
    simp only [if_pos hlt] at hiff
    have hreject := uniformLaw_reject (hd a ha) (row.drafts a)
    rcases (massWithout_nonneg (hd a ha) (row.drafts a)).eq_or_lt with hzero | hmass
    · -- it is the only token there is, and is not rejected
      let draw : Unit → Draw := fun _ => (row.length + a + 1, .speculativeAccept)
      have hinj : draw.Injective := fun _ _ _ => rfl
      have hnever : uniforms {ω | ∀ i, ω (draw i) ∈
          {x : Uniform | ¬(x : ℝ) < probOf (row.dist ar a) (row.drafts a)}} = 0 := by
        rw [uniforms_forall hinj fun _ => hreject.1, Fintype.prod_unique, hreject.2, ← hzero,
          ENNReal.ofReal_zero]
      have hnull : uniforms {ω | row.walkColumns (numbers ω) (row.dist ar) (row.extent + 1) 0 0 0 =
          (a, t)} = 0 :=
        measure_mono_null (fun ω hω _ => ((hiff ω).mp hω).2.2.2.1) hnever
      rw [hnull]
      split_ifs with hstop
      · rfl
      · have hle := probOf_le_massWithout (hd a ha) fun heq => hstop ⟨hlt, heq⟩
        rw [ENNReal.ofReal_of_nonpos (hle.trans_eq hzero.symm), zero_mul]
    · let draw : Option (Option (Fin a)) → Draw
        | none => (row.length + a + 1, .speculativeCorrection)
        | some none => (row.length + a + 1, .speculativeAccept)
        | some (some j) => (row.length + j + 1, .speculativeAccept)
      let A : Option (Option (Fin a)) → Set Uniform
        | none => {x | samplingPickFromSupport (row.dist ar a) (row.drafts a) x = t}
        | some none => {x | ¬(x : ℝ) < probOf (row.dist ar a) (row.drafts a)}
        | some (some j) => {x | (x : ℝ) < probOf (row.dist ar j) (row.drafts j)}
      have hset : {ω | row.walkColumns (numbers ω) (row.dist ar) (row.extent + 1) 0 0 0 =
          (a, t)} = {ω | ∀ i, ω (draw i) ∈ A i} := by
        ext ω
        refine (hiff ω).trans ⟨fun hω i => ?_, fun hω => ?_⟩
        · cases i with
          | none => exact hω.2.2.2.2
          | some i =>
            cases i with
            | none => exact hω.2.2.2.1
            | some j => exact hω.2.2.1 j (Nat.zero_le _) j.2
        · exact ⟨Nat.zero_le _, ha, fun j _ hj => hω (some (some ⟨j, hj⟩)), hω (some none),
            hω none⟩
      have hinj : draw.Injective := by
        rintro (_ | _ | i) (_ | _ | j) heq
        · rfl
        · exact nomatch (Prod.mk.inj heq).2
        · exact nomatch (Prod.mk.inj heq).2
        · exact nomatch (Prod.mk.inj heq).2
        · rfl
        · have hpos := (Prod.mk.inj heq).1
          omega
        · exact nomatch (Prod.mk.inj heq).2
        · have hpos := (Prod.mk.inj heq).1
          omega
        · have hpos := (Prod.mk.inj heq).1
          exact congrArg (some ∘ some) (Fin.ext (by omega))
      have hcorrect := uniformLaw_correction (hd a ha) hmass t
      have haccept := fun j : Fin a => uniformLaw_accept (hd j (by omega)) (row.drafts j)
      rw [hset, uniforms_forall hinj, Fintype.prod_option, Fintype.prod_option]
      · change uniformLaw {x : Uniform | samplingPickFromSupport _ _ _ = t} *
          (uniformLaw {x : Uniform | ¬_} * ∏ j : Fin a, uniformLaw {x : Uniform | _}) = _
        rw [hcorrect.2, hreject.2, Finset.prod_congr rfl fun j _ => (haccept j).2]
        by_cases heq : t = row.drafts a
        · rw [if_pos heq, if_pos ⟨hlt, heq⟩, zero_mul]
        · rw [if_neg heq, if_neg fun hstop => heq hstop.2, ← mul_assoc,
            ← ENNReal.ofReal_mul (div_nonneg (probOf_nonneg (hd a ha).pos t) hmass.le),
            div_mul_cancel₀ _ hmass.ne']
      · rintro (_ | _ | j)
        · exact hcorrect.1
        · exact hreject.1
        · exact (haccept j).1

end Laws

end Row

/-! ## Rounds are correct -/

/-- The tokens a round licenses. -/
def Commit.tokens (c : Commit) : List Int := c.licensedTokens.take c.licensedCounts

namespace Row

section Correct

variable {row : Row ℝ} {ar : Arithmetic ℝ} {target : List Int → Nat → Logit}
  {uniform : Int → SamplePurpose → ℝ}

theorem overlay_append_injective {a b : Nat} {t u : Int}
    (h : row.overlay a ++ [t] = row.overlay b ++ [u]) : a = b ∧ t = u := by
  have hlen := congrArg List.length h
  rw [List.length_append, List.length_append, length_overlay, length_overlay] at hlen
  obtain rfl : a = b := by simpa using hlen
  exact ⟨rfl, List.singleton_injective (List.append_cancel_left h)⟩

variable (row ar uniform) in
/-- A round of the sampling branch licenses the drafts of its walk and the token at its end. -/
theorem tokens_committed : ∃ a ≤ row.extent, ∃ t,
    row.walkColumns uniform (row.dist ar) (row.extent + 1) 0 0 0 = (a, t) ∧
      (row.committed ar uniform).tokens = row.overlay a ++ [t] := by
  obtain ⟨hwalk, -, hle⟩ := row.walkColumns_eq uniform (row.dist ar) (row.extent + 1) 0 (by omega)
    (by omega) 0
  refine ⟨_, hle, _, hwalk, ?_⟩
  unfold committed
  dsimp only
  rw [hwalk]
  exact row.take_licensed (hle.trans row.extent_le) _

/-- **The tokens of a round have the law of sampling**, whatever the tokens are. -/
theorem uniforms_committed (h : row.VerifiedBy target) (w : List Int) :
    uniforms {ω | (row.committed ar (numbers ω)).tokens = w} =
      uniforms {ω | row.decodeTokens ar target (numbers ω) (row.extent + 1) [] = w} := by
  by_cases hw : ∃ a ≤ row.extent, ∃ t, w = row.overlay a ++ [t]
  · obtain ⟨a, ha, t, rfl⟩ := hw
    rw [uniforms_decode ha, ← uniforms_walk h ha]
    congr 1
    ext ω
    obtain ⟨b, -, u, hwalk, htokens⟩ := tokens_committed row ar (numbers ω)
    rw [Set.mem_ofPred_eq, Set.mem_ofPred_eq, htokens, hwalk, Prod.mk.injEq]
    constructor
    · exact overlay_append_injective
    · rintro ⟨rfl, rfl⟩
      rfl
  · -- neither of them can have such tokens
    have hround : {ω | (row.committed ar (numbers ω)).tokens = w} = ∅ := by
      ext ω
      refine ⟨fun hω => hw ?_, fun hω => absurd hω (Set.notMem_empty ω)⟩
      obtain ⟨a, ha, t, -, htokens⟩ := tokens_committed row ar (numbers ω)
      exact ⟨a, ha, t, hω.symm.trans htokens⟩
    have hdecode : {ω | row.decodeTokens ar target (numbers ω) (row.extent + 1) [] = w} = ∅ := by
      ext ω
      refine ⟨fun hω => hw ?_, fun hω => absurd hω (Set.notMem_empty ω)⟩
      obtain ⟨a, t, htokens⟩ := exists_decodeTokens row ar target (numbers ω) (row.extent + 1) 0
        (by omega)
      have hlast := (decodeTokens_eq_iff row ar target (numbers ω) (row.extent + 1) 0 (by omega)
        (by omega) a t).mp htokens
      exact ⟨a, hlast.2.1, t, hω.symm.trans htokens⟩
    rw [hround, hdecode]

/-- A round licenses one token more than it accepts, and the length grows by them. -/
theorem counts_singleBlockCommit (row : Row ℝ) (ar : Arithmetic ℝ)
    (uniform : Int → SamplePurpose → ℝ) (threads : Nat → List Nat) :
    let c := row.singleBlockCommit ar uniform threads
    c.accepted ≤ row.extent ∧ c.licensedCounts = c.accepted + 1 ∧
      c.length = row.length + c.licensedCounts := by
  dsimp only
  unfold singleBlockCommit
  split_ifs
  · obtain ⟨-, -, hle⟩ := row.walkColumns_eq uniform
      (fun i => row.blockDist ar (threads i) i) (row.extent + 1) 0 (by omega) (by omega) 0
    exact ⟨hle, rfl, rfl⟩
  · exact ⟨(row.greedyAccepted_spec 0 (Nat.zero_le _)).2.1, rfl, rfl⟩

end Correct

end Row

/-- **Rounds are correct.** A greedy round licenses what greedy decoding of as many tokens has. The
tokens of another one have the law of sampling one token after the other, each from the truncated
distribution of the target after the tokens before it: the law gives `overlay a ++ [t]` one weight
for each of its tokens. A round licenses one token more than it accepts, the length grows by them,
and many blocks commit what one block does. -/
theorem speculative_round_correct (row : Row ℝ) (ar : Arithmetic ℝ)
    (target : List Int → Nat → Logit) (hverified : row.VerifiedBy target) :
    (¬0 < row.config.temperature → ∀ (uniform : Int → SamplePurpose → ℝ) (threads : Nat → List Nat),
      let c := row.singleBlockCommit ar uniform threads
      c.tokens = Row.greedyDecode (row.greedyNext target) c.licensedCounts) ∧
    (∀ tokens, Normalised (row.targetDist ar target tokens)) ∧
    (0 < row.config.temperature → ∀ threads : Nat → List Nat,
      (∀ i, (threads i).Perm (List.range (2 ^ 8))) →
      (∀ w, uniforms {ω | (row.singleBlockCommit ar (numbers ω) threads).tokens = w} =
        uniforms {ω | row.decodeTokens ar target (numbers ω) (row.extent + 1) [] = w}) ∧
      ∀ a ≤ row.extent, ∀ t,
        uniforms {ω | (row.singleBlockCommit ar (numbers ω) threads).tokens =
          row.overlay a ++ [t]} = row.stopWeight ar target a t) ∧
    (∀ (uniform : Int → SamplePurpose → ℝ) (threads : Nat → List Nat),
      let c := row.singleBlockCommit ar uniform threads
      c.accepted ≤ row.extent ∧ c.licensedCounts = c.accepted + 1 ∧
        c.length = row.length + c.licensedCounts) ∧
    ∀ (uniform : Int → SamplePurpose → ℝ) (cub : BlockSort) (threads : Nat → List Nat)
      (schedule : Row.Schedule) (stale : Nat → List (Int × ℝ)),
      kSamplerShape.multiblockOk row.vocab (row.k + 1) = true → schedule.Complete row →
      (∀ i, (threads i).Perm (List.range (2 ^ 8))) →
      row.finalizeColumns ar uniform cub schedule stale =
        some (row.singleBlockCommit ar uniform threads) := by
  refine ⟨?_, Row.normalised_targetDist row ar target, ?_, ?_, ?_⟩
  · intro htemp uniform threads
    unfold Row.singleBlockCommit
    rw [if_pos htemp]
    exact row.greedyCommit_eq_decode hverified.targets
  · intro htemp threads hthreads
    have hlaw : ∀ w, uniforms {ω | (row.singleBlockCommit ar (numbers ω) threads).tokens = w} =
        uniforms {ω | row.decodeTokens ar target (numbers ω) (row.extent + 1) [] = w} := by
      intro w
      simp only [Row.singleBlockCommit_eq hthreads, if_pos htemp]
      exact Row.uniforms_committed hverified w
    exact ⟨hlaw, fun a ha t => (hlaw _).trans (Row.uniforms_decode ha)⟩
  · exact row.counts_singleBlockCommit ar
  · intro uniform cub threads schedule stale hok hschedule hthreads
    exact Row.finalizeColumns_eq hok hschedule hthreads stale

/-- Two tokens, of which the second has the higher logit and the first is the draft. -/
noncomputable def Row.twoTokens : Row ℝ where
  k := 1
  currentExtent := 1
  drafts _ := 0
  targets _ := 1
  logits _ v := if v = 1 then ⟨0x3f800000#32, by decide⟩ else .zero
  vocab := 2
  vocab_pos := Nat.zero_lt_two
  vocab_le := by decide
  length := 5
  config := {
    temperature := 1
    topK := 0
    topP := 1
    minP := 0
    presencePenalty := .zero
    frequencyPenalty := .zero
    tokenCounts := none }

/-- Without penalties, and for the logits of `twoTokens`. -/
noncomputable def Arithmetic.twoTokens : Arithmetic ℝ where
  sub x _ := x
  scale _ _ := .zero
  value bits := if bits = 0x3f800000#32 then 1 else 0
  value_zero := by rw [if_neg (by decide), if_neg (by decide)]
  exp := Real.exp
  exp_pos := Real.exp_pos

/-- The draft is accepted and the other token follows as often as they are sampled. -/
theorem speculative_round_correct_twoTokens :
    uniforms {ω | (Row.twoTokens.singleBlockCommit .twoTokens (numbers ω)
      fun _ => List.range (2 ^ 8)).tokens = [0, 1]} =
    uniforms {ω | Row.twoTokens.decodeTokens .twoTokens (fun _ => Row.twoTokens.logits 0)
      (numbers ω) (Row.twoTokens.extent + 1) [] = [0, 1]} := by
  have hnext : Row.twoTokens.greedyNext (fun _ => Row.twoTokens.logits 0) [] = 1 := by decide
  have hverified : Row.twoTokens.VerifiedBy fun _ => Row.twoTokens.logits 0 :=
    ⟨fun _ _ => rfl, fun _ _ => hnext.symm⟩
  have hcorrect := speculative_round_correct Row.twoTokens .twoTokens
    (fun _ => Row.twoTokens.logits 0) hverified
  exact (hcorrect.2.2.1 one_pos (fun _ => List.range (2 ^ 8)) fun _ => List.Perm.refl _).1 [0, 1]

end Ninfer.Sampling
