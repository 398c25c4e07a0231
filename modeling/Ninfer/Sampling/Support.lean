import Ninfer.Sampling.Routes

/-!
# Truncated distributions

The candidates of a column are given weights, of which the filters keep a prefix; what is kept is
normalised to a distribution. A token is picked by the inverse of its cumulative distribution,
possibly with one token left out.

The arithmetic of the weights is exact: it is that of an ordered field.

## Main definitions

* `Arithmetic`, `SamplingConfig`: what a distribution is computed with
* `samplingAdjustedLogit`: the penalties of a token
* `samplingNormalizeSupport`, `truncatedSupport`: the distribution of a list of candidates
* `samplingPickFromSupport`, `samplePick`: a pick for a uniform number

## Main results

* `normalised_truncatedSupport`: weights are positive, and sum up to one
* `samplingPickFromSupport_eq_iff`, `samplePick_eq_iff`: a token is picked for the numbers of an
  interval, as long as its weight
-/

namespace Ninfer.Sampling

variable {K : Type*} [Field K]

/-- The arithmetic of a sampler: that of the penalties on floats, and the exact one of the
weights. -/
structure Arithmetic (K : Type*) [Field K] [LinearOrder K] where
  /-- `x - y` on floats. -/
  sub : Logit → Logit → Logit
  /-- `y * static_cast<float>(cnt)`. -/
  scale : Logit → Int → Logit
  /-- The value of a float. -/
  value : BitVec 32 → K
  value_zero : value 0x80000000#32 = value 0#32
  exp : K → K
  exp_pos : ∀ x, 0 < exp x

/-- `SamplingConfig`. -/
structure SamplingConfig (K : Type*) where
  temperature : K
  topK : Int
  topP : K
  minP : K
  presencePenalty : Logit
  frequencyPenalty : Logit
  tokenCounts : Option (Int → Int)

/-! ## Penalties -/

section Penalties

variable [LinearOrder K]

/-- `sampling_adjusted_logit`. -/
def samplingAdjustedLogit (ar : Arithmetic K) (raw : Logit) (v : Int) (c : SamplingConfig K)
    (overlay : List Int) : Logit :=
  if c.presencePenalty.eq .zero && c.frequencyPenalty.eq .zero then raw
  else
    let cnt : Int := (match c.tokenCounts with
      | some counts => counts v
      | none => 0) + overlay.count v
    let x := if 0 < cnt then ar.sub raw c.presencePenalty else raw
    if c.frequencyPenalty.eq .zero then x else ar.sub x (ar.scale c.frequencyPenalty cnt)

/-- The counts after the tokens of a list have been added one by one. -/
def addCounts (counts : Int → Int) (tokens : List Int) : Int → Int :=
  tokens.foldl (fun counts token => Function.update counts token (counts token + 1)) counts

end Penalties

/-! ## Normalisation -/

section Normalisation

variable [LinearOrder K]

/-- How many weights the filters keep, the loop of `sampling_normalize_support`. -/
def supportLength (minPThresh topPTarget : K) (topPActive : Bool) : List K → K → Nat
  | [], _ => 0
  | e :: rest, cum =>
    if 0 ≤ minPThresh ∧ e < minPThresh then 0
    else if topPActive ∧ topPTarget ≤ cum + e then 1
    else supportLength minPThresh topPTarget topPActive rest (cum + e) + 1

/-- `sampling_normalize_support`: the weights that are kept, normalised. -/
def samplingNormalizeSupport (ar : Arithmetic K) (cfg : SamplingConfig K) (vals : List K) :
    List K :=
  let invTemp := 1 / cfg.temperature
  let m := vals.headD 0 * invTemp
  let prob := vals.map fun v => ar.exp (v * invTemp - m)
  let sum := prob.sum
  let e0 := prob.headD 0
  let minPThresh := if 0 < cfg.minP then cfg.minP * e0 else -1
  let topPActive := decide (cfg.topP < 1)
  let topPTarget := cfg.topP * sum
  let support := max 1 (supportLength minPThresh topPTarget topPActive prob 0)
  let kept := prob.take support
  let inv := 1 / kept.sum
  kept.map fun e => e * inv

/-- The distribution on the tokens of a list of candidates, in their order. -/
def truncatedSupport (ar : Arithmetic K) (cfg : SamplingConfig K)
    (candidates : List (BitVec 32 × Nat)) : List (Int × K) :=
  (candidates.map fun c => (c.2 : Int)).zip
    (samplingNormalizeSupport ar cfg (candidates.map fun c => ar.value c.1))

/-- A distribution: each token has a positive weight, and all weights make up one. -/
structure Normalised (d : List (Int × K)) : Prop where
  pos : ∀ e ∈ d, 0 < e.2
  total : (d.map (·.2)).sum = 1
  nodup : (d.map (·.1)).Nodup
  nonneg : ∀ e ∈ d, 0 ≤ e.1

variable [IsStrictOrderedRing K]

theorem sum_pos_of_forall {xs : List K} (hne : xs ≠ []) (hpos : ∀ x ∈ xs, 0 < x) : 0 < xs.sum :=
  List.sum_pos xs hpos hne

/-- What is kept is positive, sums up to one, and is not longer than the candidates. -/
theorem samplingNormalizeSupport_spec (ar : Arithmetic K) (cfg : SamplingConfig K) {vals : List K}
    (hne : vals ≠ []) : (∀ p ∈ samplingNormalizeSupport ar cfg vals, 0 < p) ∧
      (samplingNormalizeSupport ar cfg vals).sum = 1 ∧
      (samplingNormalizeSupport ar cfg vals).length ≤ vals.length := by
  unfold samplingNormalizeSupport
  dsimp only
  generalize hprob : vals.map (fun v => ar.exp (v * (1 / cfg.temperature) -
    vals.headD 0 * (1 / cfg.temperature))) = prob
  generalize hsupport : max 1 (supportLength _ _ _ prob 0) = support
  have hlength : prob.length = vals.length := by rw [← hprob, List.length_map]
  have hkept : ∀ e ∈ prob.take support, 0 < e := by
    intro e he
    have hmem := List.mem_of_mem_take he
    rw [← hprob] at hmem
    obtain ⟨v, -, rfl⟩ := List.mem_map.mp hmem
    exact ar.exp_pos _
  have hsome : prob.take support ≠ [] := by
    have hone : 1 ≤ support := by rw [← hsupport]; exact le_max_left _ _
    have hpos := List.length_pos_iff.mpr hne
    refine List.ne_nil_of_length_pos ?_
    rw [List.length_take]
    omega
  have hsum := sum_pos_of_forall hsome hkept
  refine ⟨?_, ?_, ?_⟩
  · intro p hp
    obtain ⟨e, he, rfl⟩ := List.mem_map.mp hp
    exact mul_pos (hkept e he) (one_div_pos.mpr hsum)
  · rw [List.sum_map_mul_right, List.map_id', mul_one_div_cancel hsum.ne']
  · rw [List.length_map, List.length_take, hlength]
    exact min_le_right _ _

theorem map_fst_zip_sublist {α β : Type*} (as : List α) (bs : List β) :
    ((as.zip bs).map (·.1)).Sublist as := by
  induction as generalizing bs with
  | nil => exact List.Sublist.refl _
  | cons a as ih =>
    cases bs with
    | nil => exact List.nil_sublist _
    | cons b bs => exact (ih bs).cons_cons a

/-- **The truncated distribution is one.** -/
theorem normalised_truncatedSupport (ar : Arithmetic K) (cfg : SamplingConfig K)
    {candidates : List (BitVec 32 × Nat)} (hne : candidates ≠ [])
    (hnodup : (candidates.map (·.2)).Nodup) :
    Normalised (truncatedSupport ar cfg candidates) := by
  have hvals : candidates.map (fun c => ar.value c.1) ≠ [] := by simpa using hne
  obtain ⟨hpos, hsum, hlen⟩ := samplingNormalizeSupport_spec ar cfg hvals
  rw [List.length_map] at hlen
  have hsnd : (truncatedSupport ar cfg candidates).map (·.2) =
      samplingNormalizeSupport ar cfg (candidates.map fun c => ar.value c.1) :=
    List.map_snd_zip (by rw [List.length_map]; exact hlen)
  have hfst : ((truncatedSupport ar cfg candidates).map (·.1)).Sublist
      (candidates.map fun c => (c.2 : Int)) := map_fst_zip_sublist _ _
  refine ⟨fun e he => hpos _ ?_, ?_, ?_, fun e he => ?_⟩
  · rw [← hsnd]
    exact List.mem_map_of_mem he
  · rw [hsnd, hsum]
  · refine List.Nodup.sublist hfst ?_
    have hcast : (candidates.map fun c => (c.2 : Int)) = (candidates.map (·.2)).map Int.ofNat := by
      rw [List.map_map]
      rfl
    rw [hcast]
    exact hnodup.map fun _ _ h => Int.ofNat.inj h
  · obtain ⟨c, -, hc⟩ := List.mem_map.mp (hfst.subset (List.mem_map_of_mem he))
    rw [← hc]
    exact Int.natCast_nonneg _

end Normalisation

/-! ## Weights -/

section Weights

/-- The weight of a token: `pd` of the acceptance loop. -/
def probOf (d : List (Int × K)) (token : Int) : K :=
  match d.find? fun e => e.1 = token with
  | some e => e.2
  | none => 0

/-- The total weight of the tokens other than `exclude`. -/
def massWithout (d : List (Int × K)) (exclude : Int) : K :=
  ((d.filter fun e => e.1 ≠ exclude).map (·.2)).sum

/-- The weight before a token. -/
def below : List (Int × K) → Int → K
  | [], _ => 0
  | (idx, p) :: rest, token => if idx = token then 0 else p + below rest token

variable {d : List (Int × K)} {exclude token idx : Int} {p : K}

@[simp] theorem probOf_nil : probOf ([] : List (Int × K)) token = 0 := rfl

theorem probOf_cons : probOf ((idx, p) :: d) token = if idx = token then p else probOf d token := by
  unfold probOf
  rw [List.find?_cons]
  by_cases h : idx = token
  · simp [h]
  · simp [h]

theorem probOf_of_not_mem (h : token ∉ d.map (·.1)) : probOf d token = 0 := by
  induction d with
  | nil => rfl
  | cons e d ih =>
    obtain ⟨idx, p⟩ := e
    rw [List.map_cons, List.mem_cons, not_or] at h
    rw [probOf_cons, if_neg (Ne.symm h.1), ih h.2]

/-- Without the excluded token, its weight is missing from the whole. -/
theorem massWithout_add_probOf (hnodup : (d.map (·.1)).Nodup) (exclude : Int) :
    massWithout d exclude + probOf d exclude = (d.map (·.2)).sum := by
  induction d with
  | nil => simp [massWithout]
  | cons e d ih =>
    obtain ⟨idx, p⟩ := e
    rw [List.map_cons, List.nodup_cons] at hnodup
    have hrest := ih hnodup.2
    unfold massWithout at hrest ⊢
    rw [probOf_cons, List.map_cons, List.sum_cons, List.filter_cons]
    by_cases h : idx = exclude
    · have hnot := probOf_of_not_mem (h ▸ hnodup.1)
      rw [hnot, add_zero] at hrest
      rw [if_neg (by simp [h]), if_pos h, hrest, add_comm]
    · rw [if_pos (by simp [h]), if_neg h, List.map_cons, List.sum_cons, add_assoc, hrest]

theorem probOf_filter (hne : token ≠ exclude) :
    probOf (d.filter fun e => e.1 ≠ exclude) token = probOf d token := by
  induction d with
  | nil => rfl
  | cons e d ih =>
    obtain ⟨idx, p⟩ := e
    rw [List.filter_cons, probOf_cons]
    by_cases h : idx = exclude
    · rw [if_neg (by simp [h]), if_neg (fun ht => hne (ht.symm.trans h)), ih]
    · rw [if_pos (by simp [h]), probOf_cons, ih]

end Weights

/-! ## Picks -/

section Picks

variable [LinearOrder K]

/-- The second loop of `sampling_pick_from_support`. -/
def pickLoop (exclude : Int) (goal : K) : List (Int × K) → K → Int → Int
  | [], _, picked => picked
  | (idx, p) :: rest, acc, picked =>
    if idx = exclude then pickLoop exclude goal rest acc picked
    else if goal < acc + p then idx
    else pickLoop exclude goal rest (acc + p) idx

/-- `sampling_pick_from_support`. -/
def samplingPickFromSupport (d : List (Int × K)) (exclude : Int) (u : K) : Int :=
  let mass := massWithout d exclude
  if mass ≤ 0 then (d.map (·.1)).headD 0 else pickLoop exclude (u * mass) d 0 (-1)

/-- The loop of `sample_row_kernel`. -/
def sampleLoop (u : K) : List (Int × K) → K → Int → Int
  | [], _, picked => picked
  | (idx, p) :: rest, acc, picked =>
    if u < acc + p then idx else sampleLoop u rest (acc + p) picked

/-- The pick of `sample_row_kernel`. -/
def samplePick (d : List (Int × K)) (u : K) : Int :=
  sampleLoop u d 0 ((d.map (·.1)).getLastD 0)

variable {d : List (Int × K)} {exclude token : Int} {goal acc u : K}

theorem massWithout_eq (hd : Normalised d) (exclude : Int) :
    massWithout d exclude = 1 - probOf d exclude := by
  rw [eq_sub_iff_add_eq, massWithout_add_probOf hd.nodup, hd.total]

theorem probOf_nonneg (hpos : ∀ e ∈ d, 0 < e.2) (token : Int) : 0 ≤ probOf d token := by
  unfold probOf
  split
  · next e h => exact (hpos e (List.mem_of_find?_eq_some h)).le
  · exact le_rfl

/-- A pick skips the excluded token. -/
theorem pickLoop_filter (exclude : Int) (goal : K) (d : List (Int × K)) (acc : K) (picked : Int) :
    pickLoop exclude goal d acc picked =
      pickLoop exclude goal (d.filter fun e => e.1 ≠ exclude) acc picked := by
  induction d generalizing acc picked with
  | nil => rfl
  | cons e d ih =>
    obtain ⟨idx, p⟩ := e
    rw [pickLoop, List.filter_cons]
    by_cases h : idx = exclude
    · rw [if_pos h, if_neg (by simp [h]), ih]
    · have hkeep : decide (idx ≠ exclude) = true := decide_eq_true h
      rw [if_neg h, if_pos hkeep, pickLoop, if_neg h, ih]

theorem sampleLoop_eq (hex : exclude ∉ d.map (·.1)) (hlt : goal < acc + (d.map (·.2)).sum)
    (picked picked' : Int) :
    sampleLoop goal d acc picked = pickLoop exclude goal d acc picked' ∨ d = [] := by
  induction d generalizing acc picked' with
  | nil => exact Or.inr rfl
  | cons e d ih =>
    obtain ⟨idx, p⟩ := e
    rw [List.map_cons, List.mem_cons, not_or] at hex
    rw [List.map_cons, List.sum_cons, ← add_assoc] at hlt
    left
    rw [sampleLoop, pickLoop, if_neg (Ne.symm hex.1)]
    by_cases hgoal : goal < acc + p
    · rw [if_pos hgoal, if_pos hgoal]
    · rw [if_neg hgoal, if_neg hgoal]
      rcases ih hex.2 hlt idx with h | rfl
      · exact h
      · rw [List.map_nil, List.sum_nil, add_zero] at hlt
        exact absurd hlt hgoal

variable [IsStrictOrderedRing K]

theorem below_nonneg (hpos : ∀ e ∈ d, 0 < e.2) (token : Int) : 0 ≤ below d token := by
  induction d with
  | nil => exact le_rfl
  | cons e d ih =>
    obtain ⟨idx, p⟩ := e
    rw [below]
    split_ifs
    · exact le_rfl
    · exact add_nonneg (hpos _ List.mem_cons_self).le
        (ih fun e he => hpos e (List.mem_cons_of_mem _ he))

/-- What is before a token and the token itself are part of the whole. -/
theorem below_add_probOf_le (hpos : ∀ e ∈ d, 0 < e.2) (token : Int) :
    below d token + probOf d token ≤ (d.map (·.2)).sum := by
  induction d with
  | nil => simp [below]
  | cons e d ih =>
    obtain ⟨idx, p⟩ := e
    have hrest := ih fun e he => hpos e (List.mem_cons_of_mem _ he)
    have hsum : 0 ≤ (d.map (·.2)).sum := by
      refine List.sum_nonneg fun x hx => ?_
      obtain ⟨e, he, rfl⟩ := List.mem_map.mp hx
      exact (hpos e (List.mem_cons_of_mem _ he)).le
    rw [below, probOf_cons, List.map_cons, List.sum_cons]
    split_ifs
    · rw [zero_add]
      exact le_add_of_nonneg_right hsum
    · rw [add_assoc]
      exact add_le_add_right hrest p

/-- **Inverse of the cumulative distribution**: a token is picked for the goals of an interval. -/
theorem pickLoop_eq_iff (hpos : ∀ e ∈ d, 0 < e.2) (hnodup : (d.map (·.1)).Nodup)
    (hex : exclude ∉ d.map (·.1)) (hle : acc ≤ goal) (hlt : goal < acc + (d.map (·.2)).sum)
    (picked : Int) : pickLoop exclude goal d acc picked = token ↔
      acc + below d token ≤ goal ∧ goal < acc + below d token + probOf d token := by
  induction d generalizing acc picked with
  | nil =>
    rw [List.map_nil, List.sum_nil, add_zero] at hlt
    exact absurd hlt (not_lt.mpr hle)
  | cons e d ih =>
    obtain ⟨idx, p⟩ := e
    rw [List.map_cons, List.nodup_cons] at hnodup
    rw [List.map_cons, List.mem_cons, not_or] at hex
    rw [List.map_cons, List.sum_cons, ← add_assoc] at hlt
    have hrest := fun e he => hpos e (List.mem_cons_of_mem (idx, p) he)
    rw [pickLoop, if_neg (Ne.symm hex.1), below, probOf_cons]
    by_cases hgoal : goal < acc + p
    · rw [if_pos hgoal]
      by_cases h : idx = token
      · rw [if_pos h, if_pos h, add_zero]
        exact ⟨fun _ => ⟨hle, hgoal⟩, fun _ => h⟩
      · rw [if_neg h, if_neg h]
        refine ⟨fun heq => absurd heq h, fun hin => ?_⟩
        have := below_nonneg hrest token
        linarith [hin.1]
    · rw [if_neg hgoal, ih hrest hnodup.2 hex.2 (not_lt.mp hgoal) hlt]
      by_cases h : idx = token
      · -- the token has been passed
        rw [if_pos h, if_pos h, probOf_of_not_mem (h ▸ hnodup.1), add_zero, add_zero]
        exact ⟨fun hin => absurd hin.2 (not_lt.mpr hin.1), fun hin => absurd hin.2 hgoal⟩
      · rw [if_neg h, if_neg h, ← add_assoc]

/-- A token is picked instead of the excluded one for the numbers of an interval, which is as long
as its share of what is left. -/
theorem samplingPickFromSupport_eq_iff (hd : Normalised d) (hmass : 0 < massWithout d exclude)
    (hu : 0 ≤ u) (hu' : u < 1) : samplingPickFromSupport d exclude u = token ↔
      token ≠ exclude ∧
      below (d.filter fun e => e.1 ≠ exclude) token ≤ u * massWithout d exclude ∧
      u * massWithout d exclude <
        below (d.filter fun e => e.1 ≠ exclude) token + probOf d token := by
  have hnodup : ((d.filter fun e => e.1 ≠ exclude).map (·.1)).Nodup :=
    hd.nodup.sublist (List.filter_sublist.map _)
  have hex : exclude ∉ (d.filter fun e => e.1 ≠ exclude).map (·.1) := by
    intro h
    obtain ⟨e, he, heq⟩ := List.mem_map.mp h
    simpa [heq] using (List.mem_filter.mp he).2
  have hpos : ∀ e ∈ d.filter fun e => e.1 ≠ exclude, 0 < e.2 := fun e he =>
    hd.pos e (List.mem_filter.mp he).1
  have hgoal : u * massWithout d exclude < massWithout d exclude := by
    have := mul_lt_mul_of_pos_right hu' hmass
    rwa [one_mul] at this
  unfold samplingPickFromSupport
  dsimp only
  rw [if_neg (not_le.mpr hmass), pickLoop_filter,
    pickLoop_eq_iff hpos hnodup hex (mul_nonneg hu hmass.le) (by rwa [zero_add]), zero_add]
  by_cases h : token = exclude
  · have hzero : probOf (d.filter fun e => e.1 ≠ exclude) token = 0 :=
      probOf_of_not_mem (h ▸ hex)
    rw [hzero, add_zero]
    exact ⟨fun hin => absurd hin.2 (not_lt.mpr hin.1), fun hin => absurd h hin.1⟩
  · rw [probOf_filter h]
    exact ⟨fun hin => ⟨h, hin⟩, And.right⟩

/-- Without an excluded token, the weight of a token is its share. -/
theorem samplingPickFromSupport_none (hd : Normalised d) (hu : 0 ≤ u) (hu' : u < 1) :
    samplingPickFromSupport d (-1) u = token ↔
      below d token ≤ u ∧ u < below d token + probOf d token := by
  have hfilter : (d.filter fun e => e.1 ≠ -1) = d := by
    refine List.filter_eq_self.mpr fun e he => ?_
    have := hd.nonneg e he
    exact decide_eq_true (by omega)
  have hmass : massWithout d (-1) = 1 := by
    rw [massWithout, hfilter, hd.total]
  rw [samplingPickFromSupport_eq_iff hd (by rw [hmass]; exact one_pos) hu hu', hmass, mul_one,
    hfilter]
  refine ⟨And.right, fun hin => ⟨?_, hin⟩⟩
  -- a token that is not in the distribution has no weight
  rintro rfl
  have hzero : probOf d (-1) = 0 := by
    refine probOf_of_not_mem fun h => ?_
    obtain ⟨e, he, heq⟩ := List.mem_map.mp h
    have := hd.nonneg e he
    omega
  rw [hzero, add_zero] at hin
  exact absurd hin.2 (not_lt.mpr hin.1)

/-- The kernel that samples one token picks it for the numbers of an interval of its weight. -/
theorem samplePick_eq_iff (hd : Normalised d) (hu : 0 ≤ u) (hu' : u < 1) :
    samplePick d u = token ↔ below d token ≤ u ∧ u < below d token + probOf d token := by
  have hex : (-1 : Int) ∉ d.map (·.1) := by
    intro h
    obtain ⟨e, he, heq⟩ := List.mem_map.mp h
    have := hd.nonneg e he
    omega
  have hlt : u < 0 + (d.map (·.2)).sum := by rwa [hd.total, zero_add]
  rcases sampleLoop_eq hex hlt ((d.map (·.1)).getLastD 0) (-1) with h | h
  · rw [samplePick, h, pickLoop_eq_iff hd.pos hd.nodup hex hu hlt, zero_add]
  · have htotal := hd.total
    rw [h] at htotal
    simp at htotal

theorem probOf_le_one (hd : Normalised d) (token : Int) : probOf d token ≤ 1 := by
  have hle := below_add_probOf_le hd.pos token
  rw [hd.total] at hle
  linarith [below_nonneg hd.pos token]

end Picks

end Ninfer.Sampling
