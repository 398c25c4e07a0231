import Ninfer.Sampling.Support

/-!
# Speculative rounds

A round verifies the drafts of a row with the logits of the target: the drafts it accepts are
licensed, and with them one token of the target, in the place of the first draft that is rejected
or after all of them. One block does this for a small vocabulary, many blocks for a large one, of
which the last that has a distribution ready walks through the columns.

## Main definitions

* `Row`: the inputs of a round
* `greedyCommit`, `singleBlockCommit`, `finalizeColumns`: the branches and the two kernels
* `speculativeAcceptGreedyDrafts`: the launch
* `greedyDecode`: greedy decoding, one token after the other

## Main results

* `finalizeColumns_eq`: both kernels commit the same
* `speculativeAcceptGreedyDrafts_eq`: so does the launch, whichever it takes
* `greedyCommit_eq_decode`: the greedy branch licenses what greedy decoding has
-/

namespace Ninfer.Sampling

variable {K : Type*}

/-- `SamplePurpose`. -/
inductive SamplePurpose where
  | prefill
  | decode
  | speculativeAccept
  | speculativeCorrection
  | speculativeBonus
  deriving DecidableEq

/-- The inputs of one row of a round. `targets` and `logits` have a column for each draft and one
more. -/
structure Row (K : Type*) where
  k : Nat
  currentExtent : Int
  drafts : Nat → Int
  targets : Nat → Int
  logits : Nat → Nat → Logit
  vocab : Nat
  vocab_pos : 0 < vocab
  vocab_le : vocab ≤ intMax
  length : Int
  config : SamplingConfig K

/-- What a round writes. -/
structure Commit where
  licensedTokens : List Int
  licensedCounts : Nat
  accepted : Nat
  anchor : Int
  length : Int
  tokenCounts : Option (Int → Int)

namespace Row

variable (row : Row K)

/-- `extent`, clamped to the drafts there are. -/
def extent : Nat :=
  (if row.currentExtent < 0 then 0
    else if (row.k : Int) < row.currentExtent then (row.k : Int) else row.currentExtent).toNat

theorem extent_le : row.extent ≤ row.k := by
  unfold extent
  split_ifs <;> omega

/-- The drafts before column `i`, the overlay of its penalties. -/
def overlay (i : Nat) : List Int := (List.range i).map row.drafts

@[simp] theorem length_overlay (i : Nat) : (row.overlay i).length = i := by
  simp [overlay]

theorem overlay_succ (i : Nat) : row.overlay (i + 1) = row.overlay i ++ [row.drafts i] := by
  simp [overlay, List.range_succ]

/-- How many candidates a column has. -/
def cap : Nat := samplingCandidateCap row.config.topK row.vocab

/-- The tokens that are licensed: the accepted drafts, the token of the target, and zeros. -/
def licensed (a : Nat) (tstar : Int) : List Int :=
  (List.range (row.k + 1)).map fun i =>
    if i = a then tstar else if i < a then row.drafts i else 0

theorem take_licensed {a : Nat} (ha : a ≤ row.k) (tstar : Int) :
    (row.licensed a tstar).take (a + 1) = row.overlay a ++ [tstar] := by
  rw [licensed, ← List.map_take, List.take_range, min_eq_left (by omega), List.range_succ,
    List.map_append, List.map_singleton, if_pos rfl, overlay]
  congr 1
  refine List.map_congr_left fun i hi => ?_
  have hlt := List.mem_range.mp hi
  rw [if_neg (by omega), if_pos hlt]

/-! ## The greedy branch -/

/-- `while (a < extent && row_targets[a] == row_drafts[a]) { ++a; }`. -/
def greedyAccepted (a : Nat) : Nat :=
  if a < row.extent ∧ row.targets a = row.drafts a then greedyAccepted (a + 1) else a
termination_by row.extent - a

/-- The greedy branch of both kernels. -/
def greedyCommit : Commit :=
  let a := row.greedyAccepted 0
  let tStar := row.targets a
  { licensedTokens := row.licensed a tStar
    licensedCounts := a + 1
    accepted := a
    anchor := tStar
    length := row.length + (a + 1 : Nat)
    tokenCounts := row.config.tokenCounts }

theorem cap_le : row.cap ≤ kSamplerCandidateCap ∧ row.cap ≤ row.vocab :=
  samplingCandidateCap_le _ _

theorem cap_pos : 0 < row.cap := by
  have hpos := row.vocab_pos
  have hcap : 0 < kSamplerCandidateCap := by decide
  unfold cap samplingCandidateCap
  dsimp only
  split_ifs <;> omega

/-! ## Greedy decoding -/

/-- Greedy decoding: one token of the target after the other. -/
def greedyDecode (next : List Int → Int) : Nat → List Int
  | 0 => []
  | n + 1 => greedyDecode next n ++ [next (greedyDecode next n)]

/-- The drafts before the first mismatch, and what is there. -/
theorem greedyAccepted_spec (a : Nat) (ha : a ≤ row.extent) :
    a ≤ row.greedyAccepted a ∧ row.greedyAccepted a ≤ row.extent ∧
      ∀ j, a ≤ j → j < row.greedyAccepted a → row.targets j = row.drafts j := by
  induction a using greedyAccepted.induct row with
  | case1 a h ih =>
    obtain ⟨hle, hext, hmatch⟩ := ih h.1
    rw [greedyAccepted, if_pos h]
    refine ⟨by omega, hext, fun j hj hlt => ?_⟩
    rcases Nat.eq_or_lt_of_le hj with rfl | hj'
    · exact h.2
    · exact hmatch j hj' hlt
  | case2 a h =>
    rw [greedyAccepted, if_neg h]
    exact ⟨le_rfl, ha, fun j hj hlt => absurd hlt (not_lt.mpr hj)⟩

/-- **The greedy branch licenses what greedy decoding has** with the same target. -/
theorem greedyCommit_eq_decode {next : List Int → Int}
    (hnext : ∀ i ≤ row.extent, row.targets i = next (row.overlay i)) :
    row.greedyCommit.licensedTokens.take row.greedyCommit.licensedCounts =
      greedyDecode next row.greedyCommit.licensedCounts := by
  obtain ⟨-, hext, hmatch⟩ := row.greedyAccepted_spec 0 (Nat.zero_le _)
  have hdecode : ∀ j ≤ row.greedyAccepted 0, greedyDecode next j = row.overlay j := by
    intro j
    induction j with
    | zero => exact fun _ => rfl
    | succ j ih =>
      intro hj
      rw [greedyDecode, ih (by omega), ← hnext j (by omega), hmatch j (Nat.zero_le j) (by omega),
        overlay_succ]
  unfold greedyCommit
  dsimp only
  rw [take_licensed _ (hext.trans row.extent_le), greedyDecode, hdecode _ le_rfl, ← hnext _ hext]

/-! ## One block -/

variable [Field K] [LinearOrder K]

/-- The adjusted logits of a column. -/
def column (ar : Arithmetic K) (i : Nat) : Column where
  vocab := row.vocab
  vocab_le := row.vocab_le
  logit v := samplingAdjustedLogit ar (row.logits i v) v row.config (row.overlay i)

/-- `a_sh`, `tstar_sh` and `done_sh`. -/
structure Acceptance where
  a : Nat := 0
  tstar : Int := 0
  done : Bool := false

/-- What the first thread makes of the distribution of column `i`. -/
def acceptColumn (uniform : Int → SamplePurpose → K) (dist : List (Int × K)) (i : Nat)
    (st : Acceptance) : Acceptance :=
  if i < row.extent then
    let d := row.drafts i
    let pd := probOf dist d
    let u := uniform (row.length + i + 1) .speculativeAccept
    if u < pd then { st with a := i + 1 }
    else
      let ur := uniform (row.length + i + 1) .speculativeCorrection
      { st with tstar := samplingPickFromSupport dist d ur, done := true }
  else
    let u := uniform (row.length + row.extent + 1) .speculativeBonus
    { st with tstar := samplingPickFromSupport dist (-1) u, done := true }

/-- The loop over the columns from `i` on, of which `n` are left. -/
def acceptLoop (uniform : Int → SamplePurpose → K) (dists : Nat → List (Int × K)) :
    Nat → Nat → Acceptance → Acceptance
  | 0, _, st => st
  | n + 1, i, st =>
    let st := if st.done then st else row.acceptColumn uniform (dists i) i st
    if st.done then st else acceptLoop uniform dists n (i + 1) st

/-- The distribution of a column, by the route of its vocabulary. `threads` is the order in which
the threads of the block run. -/
def blockDist (ar : Arithmetic K) (threads : List Nat) (i : Nat) : List (Int × K) :=
  let candidates :=
    if row.vocab ≤ kSamplerTileItems then
      samplingBuildTruncatedSmall threads 8 (row.column ar i) row.cap
    else samplingBuildTruncatedBlockFast 256 kSamplerFastCandidates (row.column ar i) row.cap
  truncatedSupport ar row.config (candidates.map fun c => (c.val.bits, c.idx))

/-- What the end of the sampling branch of both kernels writes. -/
def sampledCommit (a : Nat) (tstar : Int) : Commit :=
  let tokens := row.licensed a tstar
  let produced := a + 1
  { licensedTokens := tokens
    licensedCounts := produced
    accepted := a
    anchor := tstar
    length := row.length + (produced : Nat)
    tokenCounts := row.config.tokenCounts.map fun counts =>
      addCounts counts (tokens.take produced) }

/-- `speculative_accept_greedy_drafts_kernel`, but for the shapes it leaves to many blocks. -/
def singleBlockCommit (ar : Arithmetic K) (uniform : Int → SamplePurpose → K)
    (threads : Nat → List Nat) : Commit :=
  if ¬0 < row.config.temperature then row.greedyCommit
  else
    let st := row.acceptLoop uniform (fun i => row.blockDist ar (threads i) i) (row.extent + 1) 0 {}
    row.sampledCommit st.a st.tstar

/-! ## Many blocks -/

/-- The walk of the last block through the columns from `i` on, of which `n` are left. -/
def walkColumns (uniform : Int → SamplePurpose → K) (dists : Nat → List (Int × K)) :
    Nat → Nat → Nat → Int → Nat × Int
  | 0, _, a, tstar => (a, tstar)
  | n + 1, i, a, tstar =>
    if i < row.extent then
      let d := row.drafts i
      let pd := probOf (dists i) d
      let u := uniform (row.length + i + 1) .speculativeAccept
      if u < pd then walkColumns uniform dists n (i + 1) (i + 1) tstar
      else
        let ur := uniform (row.length + i + 1) .speculativeCorrection
        (a, samplingPickFromSupport (dists i) d ur)
    else
      let u := uniform (row.length + row.extent + 1) .speculativeBonus
      walkColumns uniform dists n (i + 1) a (samplingPickFromSupport (dists i) (-1) u)

/-- How the blocks of the launches run: the order of the partial blocks and of the groups of a
column, what the workspace holds for it before, and the order in which the columns are ready. -/
structure Schedule where
  partials : Nat → List Nat
  groups : Nat → List Nat
  workspace : Nat → Workspace
  columns : List Nat

/-- `dist_idx` and `dist_prob`, `speculative_finalize_count`, and what has been committed. -/
structure Finalizing (K : Type*) where
  dists : Nat → List (Int × K)
  finalizeCount : Nat := 0
  committed : Option Commit := none

/-- The last group of a column: it stores the distribution of the column, and commits the round if
all other columns are ready. -/
def finalizeColumn (ar : Arithmetic K) (uniform : Int → SamplePurpose → K) (cub : BlockSort)
    (schedule : Schedule) (st : Finalizing K) (i : Nat) : Finalizing K :=
  match samplingMultiBlock kSamplerShape cub (row.column ar i) row.cap (schedule.partials i)
    (schedule.groups i) (schedule.workspace i) with
  | none => st
  | some candidates =>
    let dists := Function.update st.dists i (truncatedSupport ar row.config candidates)
    if st.finalizeCount + 1 = row.extent + 1 then
      let walked := row.walkColumns uniform dists (row.extent + 1) 0 0 0
      { dists := dists
        finalizeCount := 0
        committed := some (row.sampledCommit walked.1 walked.2) }
    else { st with dists := dists, finalizeCount := st.finalizeCount + 1 }

/-- `speculative_sampling_partial_topk_kernel` and `speculative_sampling_group_finalize_kernel`. -/
def finalizeColumns (ar : Arithmetic K) (uniform : Int → SamplePurpose → K) (cub : BlockSort)
    (schedule : Schedule) (stale : Nat → List (Int × K)) : Option Commit :=
  if row.vocab ≤ kSamplerTileItems then none
  else if ¬0 < row.config.temperature then some row.greedyCommit
  else
    (schedule.columns.foldl (row.finalizeColumn ar uniform cub schedule)
      { dists := stale }).committed

/-- `speculative_accept_greedy_drafts_launch`, for one row. -/
def speculativeAcceptGreedyDrafts (ar : Arithmetic K) (uniform : Int → SamplePurpose → K)
    (cub : BlockSort) (threads : Nat → List Nat) (schedule : Schedule)
    (stale : Nat → List (Int × K)) : Option Commit :=
  if kSamplerShape.multiblockOk row.vocab (row.k + 1) then
    row.finalizeColumns ar uniform cub schedule stale
  else some (row.singleBlockCommit ar uniform threads)

/-- The blocks of a schedule are those of the launches, each of them once. -/
structure Schedule.Complete (schedule : Schedule) : Prop where
  partials : ∀ i ≤ row.extent,
    (schedule.partials i).Perm (List.range (kSamplerShape.partialBlocks row.vocab))
  groups : ∀ i ≤ row.extent, (schedule.groups i).Perm
    (List.range (kSamplerShape.groupCount (kSamplerShape.partialBlocks row.vocab)))
  columns : schedule.columns.Perm (List.range (row.extent + 1))

end Row

/-! ## Both kernels commit the same -/

namespace Row

variable [Field K] [LinearOrder K] {row : Row K} {ar : Arithmetic K} {uniform : Int → SamplePurpose → K}

/-- The distribution of a column: that of its best candidates. -/
def dist (row : Row K) (ar : Arithmetic K) (i : Nat) : List (Int × K) :=
  truncatedSupport ar row.config
    (((row.column ar i).best row.cap).map fun v => (((row.column ar i).logit v).bits, v))

/-- The sign of a zero does not change its value. -/
theorem value_canonical (ar : Arithmetic K) (x : Logit) :
    ar.value x.canonical.bits = ar.value x.bits := by
  unfold Logit.canonical
  split_ifs with h
  · have hmag := (Logit.rank_eq_zero x).mp ((of_decide_eq_true h).trans Logit.rank_zero)
    have hbits := x.toNat_bits
    rw [hmag, add_zero] at hbits
    split_ifs at hbits with hneg
    · rw [show x.bits = 0x80000000#32 from BitVec.eq_of_toNat_eq hbits, ar.value_zero]
      rfl
    · rw [show x.bits = 0#32 from BitVec.eq_of_toNat_eq hbits]
      rfl
  · rfl

theorem blockDist_eq {threads : List Nat} (hthreads : threads.Perm (List.range (2 ^ 8)))
    (i : Nat) : row.blockDist ar threads i = row.dist ar i := by
  obtain ⟨hcap, hvocab⟩ := row.cap_le
  have hread : (((row.column ar i).best row.cap).map (row.column ar i).load).map
      (fun c => (c.val.bits, c.idx)) =
        ((row.column ar i).best row.cap).map fun v => (((row.column ar i).logit v).bits, v) := by
    rw [List.map_map]
    refine List.map_congr_left fun v hv => ?_
    obtain ⟨hval, hidx⟩ := Column.load_of_lt (Column.best_lt hv)
    rw [Function.comp_apply, hval, hidx]
  unfold blockDist dist
  dsimp only
  split_ifs with h
  · rw [samplingBuildTruncatedSmall_eq hthreads h hvocab, hread]
  · have hfast : row.cap ≤ kSamplerFastCandidates := hcap
    rw [samplingBuildTruncatedBlockFast_eq (by decide) hfast hvocab, hread]

theorem truncatedSupport_canonical (i : Nat) :
    truncatedSupport ar row.config (((row.column ar i).best row.cap).map fun v =>
      (((row.column ar i).logit v).canonical.bits, v)) = row.dist ar i := by
  unfold dist truncatedSupport
  rw [List.map_map, List.map_map, List.map_map, List.map_map]
  congr 2
  exact List.map_congr_left fun v _ => value_canonical ar _

/-- The walk of many blocks ends as the loop of one block. -/
theorem walkColumns_eq (row : Row K) (uniform : Int → SamplePurpose → K)
    (dists : Nat → List (Int × K)) (n i : Nat) (hn : i + n = row.extent + 1)
    (hpos : 0 < n) (tstar : Int) :
    let st := row.acceptLoop uniform dists n i { a := i, tstar := tstar, done := false }
    row.walkColumns uniform dists n i i tstar = (st.a, st.tstar) ∧ st.done = true ∧
      st.a ≤ row.extent := by
  induction n generalizing i with
  | zero => omega
  | succ n ih =>
    unfold walkColumns acceptLoop acceptColumn
    dsimp only
    rw [if_neg Bool.false_ne_true]
    by_cases hi : i < row.extent
    · rw [if_pos hi, if_pos hi]
      by_cases hu : uniform (row.length + i + 1) .speculativeAccept < probOf (dists i) (row.drafts i)
      · rw [if_pos hu, if_pos hu]
        dsimp only
        rw [if_neg Bool.false_ne_true]
        exact ih (i + 1) (by omega) (by omega)
      · rw [if_neg hu, if_neg hu]
        dsimp only
        rw [if_pos rfl]
        exact ⟨rfl, rfl, hi.le⟩
    · -- the bonus column is the last one
      obtain rfl : n = 0 := by omega
      rw [if_neg hi, if_neg hi]
      dsimp only
      rw [if_pos rfl, walkColumns]
      have hlast : i ≤ row.extent := by omega
      exact ⟨rfl, rfl, hlast⟩

theorem walkColumns_congr {dists dists' : Nat → List (Int × K)} (n i a : Nat) (tstar : Int)
    (hn : i + n = row.extent + 1) (h : ∀ j ≤ row.extent, dists j = dists' j) :
    row.walkColumns uniform dists n i a tstar = row.walkColumns uniform dists' n i a tstar := by
  induction n generalizing i a tstar with
  | zero => rfl
  | succ n ih =>
    unfold walkColumns
    dsimp only
    rw [h i (by omega), ih (i + 1) (i + 1) tstar (by omega), ih (i + 1) a _ (by omega)]

/-- What a round of the sampling branch commits. -/
def committed (row : Row K) (ar : Arithmetic K) (uniform : Int → SamplePurpose → K) : Commit :=
  let walked := row.walkColumns uniform (row.dist ar) (row.extent + 1) 0 0 0
  row.sampledCommit walked.1 walked.2

theorem singleBlockCommit_eq {threads : Nat → List Nat}
    (hthreads : ∀ i, (threads i).Perm (List.range (2 ^ 8))) :
    row.singleBlockCommit ar uniform threads =
      if 0 < row.config.temperature then row.committed ar uniform else row.greedyCommit := by
  have hdists : (fun i => row.blockDist ar (threads i) i) = row.dist ar :=
    funext fun i => blockDist_eq (hthreads i) i
  unfold singleBlockCommit committed
  dsimp only
  rw [hdists]
  obtain ⟨hwalk, -, -⟩ := row.walkColumns_eq uniform (row.dist ar) (row.extent + 1) 0 (by omega)
    (by omega) 0
  rw [hwalk]
  split_ifs <;> rfl

/-- **Both kernels commit the same**: many blocks end as one block would have, whatever the order
of their partial selections, of their groups and of their columns is. -/
theorem finalizeColumns_eq {cub : BlockSort} {schedule : Schedule} {threads : Nat → List Nat}
    (hok : kSamplerShape.multiblockOk row.vocab (row.k + 1) = true)
    (hschedule : schedule.Complete row) (hthreads : ∀ i, (threads i).Perm (List.range (2 ^ 8)))
    (stale : Nat → List (Int × K)) : row.finalizeColumns ar uniform cub schedule stale =
      some (row.singleBlockCommit ar uniform threads) := by
  obtain ⟨hcap, hvocab⟩ := row.cap_le
  have hlarge : ¬row.vocab ≤ kSamplerTileItems := not_le.mpr (of_decide_eq_true hok).1
  rw [singleBlockCommit_eq hthreads, finalizeColumns, if_neg hlarge]
  by_cases htemp : 0 < row.config.temperature
  swap
  · rw [if_pos htemp, if_neg htemp]
  rw [if_neg (not_not.mpr htemp), if_pos htemp]
  have hstep : ∀ (st : Finalizing K), ∀ i ≤ row.extent,
      row.finalizeColumn ar uniform cub schedule st i =
        let dists := Function.update st.dists i (row.dist ar i)
        if st.finalizeCount + 1 = row.extent + 1 then
          let walked := row.walkColumns uniform dists (row.extent + 1) 0 0 0
          { dists := dists
            finalizeCount := 0
            committed := some (row.sampledCommit walked.1 walked.2) }
        else { st with dists := dists, finalizeCount := st.finalizeCount + 1 } := by
    intro st i hi
    have hcandidates := samplingMultiBlock_eq cub (row.column ar i) hok hcap hvocab
      (hschedule.partials i hi) (hschedule.groups i hi) (schedule.workspace i)
    unfold finalizeColumn
    rw [hcandidates]
    dsimp only
    rw [truncatedSupport_canonical]
  -- `seen` are the columns that are ready
  have hrun : ∀ (rest seen : List Nat) (st : Finalizing K),
      (∀ i ∈ seen, st.dists i = row.dist ar i) → st.finalizeCount = seen.length → rest ≠ [] →
      (seen ++ rest).Perm (List.range (row.extent + 1)) →
      (rest.foldl (row.finalizeColumn ar uniform cub schedule) st).committed =
        some (row.committed ar uniform) := by
    intro rest
    induction rest with
    | nil => exact fun _ _ _ _ hne => absurd rfl hne
    | cons i rest ih =>
      intro seen st hdists hcount _ hperm
      have hlen := hperm.length_eq
      rw [List.length_append, List.length_cons, List.length_range] at hlen
      have hi : i ≤ row.extent := by
        have hmem := hperm.mem_iff.mp (List.mem_append_right seen List.mem_cons_self)
        have := List.mem_range.mp hmem
        omega
      have hready : ∀ j ∈ i :: seen,
          Function.update st.dists i (row.dist ar i) j = row.dist ar j := by
        intro j hj
        rw [Function.update_apply]
        split_ifs with h
        · rw [h]
        · exact hdists j ((List.mem_cons.mp hj).resolve_left h)
      rw [List.foldl_cons, hstep st i hi]
      dsimp only
      cases rest with
      | nil =>
        rw [List.length_nil] at hlen
        rw [hcount, if_pos hlen, List.foldl_nil]
        dsimp only
        unfold committed
        dsimp only
        rw [walkColumns_congr _ _ _ _ (by omega) fun j hj => hready j ?_]
        have hmem := hperm.mem_iff.mpr (List.mem_range.mpr (Nat.lt_succ_of_le hj))
        simpa [or_comm] using hmem
      | cons i' rest =>
        rw [List.length_cons] at hlen
        rw [hcount, if_neg (by omega)]
        refine ih (i :: seen) _ hready rfl (by simp) ?_
        exact List.perm_middle.symm.trans hperm
  have hne : schedule.columns ≠ [] := fun h => by
    have := hschedule.columns.length_eq
    rw [h, List.length_range, List.length_nil] at this
    omega
  exact hrun schedule.columns [] _ nofun rfl hne hschedule.columns

/-- The launch commits what one block does, whichever kernels the size of the vocabulary takes. -/
theorem speculativeAcceptGreedyDrafts_eq {cub : BlockSort} {schedule : Schedule}
    {threads : Nat → List Nat} (hschedule : schedule.Complete row)
    (hthreads : ∀ i, (threads i).Perm (List.range (2 ^ 8))) (stale : Nat → List (Int × K)) :
    row.speculativeAcceptGreedyDrafts ar uniform cub threads schedule stale =
      some (row.singleBlockCommit ar uniform threads) := by
  unfold speculativeAcceptGreedyDrafts
  split_ifs with hok
  · exact finalizeColumns_eq hok hschedule hthreads stale
  · rfl

end Row

end Ninfer.Sampling
