import Ninfer.Qwen.Layouts

/-!
# Planned graph profiles

`variant.cpp` of the two targets: the intervals of execution frontiers that a decode round is
captured for, which leave no frontier out.

## Main definitions

* `graphProfilesThrough`: the intervals that end at preferred frontiers
* `mtpGraphProfiles27b`, `mtpGraphProfiles35b`, `dflashGraphProfiles`: the lists of the targets
* `Consecutive`: intervals that follow one another

## Main results

* `graphProfilesThrough_consecutive`: the intervals follow one another up to the last frontier
-/

namespace Ninfer.Qwen.Layouts

/-! ## The intervals -/

/-- The loop of `graph_profiles_through`, from `begin`. -/
def graphProfilesFrom (maxFrontier start : Nat) : List Nat → List GraphExecutionProfile
  | [] => if start ≤ maxFrontier then [⟨start, maxFrontier, 0⟩] else []
  | preferredEnd :: preferredEnds =>
    if maxFrontier < start then []
    else
      let last := Nat.min preferredEnd maxFrontier
      if last = maxFrontier then [⟨start, last, 0⟩]
      else ⟨start, last, 0⟩ :: graphProfilesFrom maxFrontier (last + 1) preferredEnds

/-- `graph_profiles_through`. -/
def graphProfilesThrough (maxFrontier : Nat) (preferredEnds : List Nat) :
    List GraphExecutionProfile :=
  graphProfilesFrom maxFrontier 0 preferredEnds

/-- `std::sort`, `std::unique` and `erase`. -/
def sortUnique (ends : List Nat) : List Nat := (ends.insertionSort (· ≤ ·)).destutter (· ≠ ·)

/-- The calls of `add_shifted` in a loop. -/
def addShifted (offset : Nat) (visibleEnds : List Nat) : List Nat :=
  visibleEnds.filterMap fun visibleEnd =>
    if offset ≤ visibleEnd then some (visibleEnd - offset) else none

/-- The ends of the visible windows that the lists of a drafting backend start from. -/
def visibleEnds : List Nat := [128, 512, 2048, 4096, 8198, 16390, 32768]

/-- The ends that the 27B target adds for a draft window. -/
def verifyEnds (draftWindow : Nat) : List Nat :=
  if draftWindow = 3 then addShifted (draftWindow + 1) [1029]
  else if draftWindow = 4 then addShifted (draftWindow + 1) [128, 512, 1029]
  else if draftWindow = 5 then addShifted (draftWindow + 1) [128, 160, 2054, 8198]
  else []

/-- `mtp_graph_profiles`, of the 27B target. -/
def mtpGraphProfiles27b (capacity draftWindow : Nat) : List GraphExecutionProfile :=
  if draftWindow = 0 ∨ capacity = 0 then []
  else graphProfilesThrough (capacity - 1)
    (sortUnique (addShifted (2 * draftWindow) visibleEnds ++ verifyEnds draftWindow))

/-- `mtp_graph_profiles`, of the 35B target. -/
def mtpGraphProfiles35b (capacity draftWindow : Nat) : List GraphExecutionProfile :=
  if draftWindow = 0 ∨ capacity = 0 then []
  else graphProfilesThrough (capacity - 1) (sortUnique (addShifted (2 * draftWindow) visibleEnds))

/-- The ends of `dflash_base_profiles`. -/
def dflashEnds (draftWindow : Nat) : List Nat :=
  [96, 127, 511, 1023, 2047, 4095, 8191, 16383, 32767, 65536, 131072, 196608] ++
    addShifted (draftWindow + 1) visibleEnds ++
      (if 6 ≤ draftWindow ∧ draftWindow ≤ 15 then
        addShifted (draftWindow + 1) [if draftWindow ≤ 11 then 512 else 1024] else [])

/-- `dflash_base_profiles`. -/
def dflashBaseProfiles (capacity draftWindow : Nat) : List GraphExecutionProfile :=
  if draftWindow = 0 ∨ capacity = 0 then []
  else graphProfilesThrough (capacity - 1) (sortUnique (dflashEnds draftWindow))

/-- `dflash_target_uses_chunked_small_t`. -/
def dflashTargetUsesChunkedSmallT (draftWindow batchSize maxVisibleKeys : Nat) : Bool :=
  let tokens := draftWindow + 1
  if tokens ≤ 6 then false
  else if 1 < batchSize then true
  else decide ((if tokens ≤ 12 then 512 else 1024) < maxVisibleKeys)

/-- `dflash_graph_profiles`, of the 35B target. -/
def dflashGraphProfiles (capacity draftWindow batchSize : Nat) : List GraphExecutionProfile :=
  (dflashBaseProfiles capacity draftWindow).map fun profile =>
    let targetMax := Nat.min capacity (profile.max + draftWindow + 1)
    let chunked := dflashTargetUsesChunkedSmallT draftWindow batchSize targetMax
    { profile with
      topologyClass := (if chunked then 2 else 0) ||| (if 96 < profile.max then 1 else 0) }

/-! ## Coverage -/

/-- Intervals that follow one another from `start` to `maxFrontier`. -/
structure Consecutive (start maxFrontier : Nat) (profiles : List GraphExecutionProfile) :
    Prop where
  first : profiles.head?.map (·.min) = some start
  last : profiles.getLast?.map (·.max) = some maxFrontier
  ordered : ∀ profile ∈ profiles, profile.min ≤ profile.max
  chain : profiles.IsChain fun previous profile => profile.min = previous.max + 1

variable {start maxFrontier capacity draftWindow : Nat} {profiles : List GraphExecutionProfile}

theorem consecutive_singleton (h : start ≤ maxFrontier) :
    Consecutive start maxFrontier [⟨start, maxFrontier, 0⟩] where
  first := rfl
  last := rfl
  ordered := by simpa using h
  chain := List.isChain_singleton _

theorem Consecutive.cons {profile : GraphExecutionProfile} (hmin : profile.min = start)
    (hle : profile.min ≤ profile.max) (h : Consecutive (profile.max + 1) maxFrontier profiles) :
    Consecutive start maxFrontier (profile :: profiles) where
  first := congrArg some hmin
  last := by
    cases profiles with
    | nil => exact absurd h.first (by simp)
    | cons next rest => rw [List.getLast?_cons_cons]; exact h.last
  ordered := List.forall_mem_cons.mpr ⟨hle, h.ordered⟩
  chain := by
    refine List.isChain_cons.mpr ⟨fun next hnext => ?_, h.chain⟩
    have hfirst := h.first
    rw [hnext] at hfirst
    exact Option.some.inj hfirst

theorem sortUnique_pairwise (ends : List Nat) : (sortUnique ends).Pairwise (· < ·) := by
  have hsorted : (ends.insertionSort (· ≤ ·)).Pairwise (· ≤ ·) :=
    List.pairwise_insertionSort (· ≤ ·) ends
  have hle : (sortUnique ends).Pairwise (· ≤ ·) := hsorted.sublist (List.destutter_sublist _ _)
  have hne : (sortUnique ends).IsChain (· ≠ ·) := List.isChain_destutter _ _
  -- sorted and without equal neighbours
  refine List.isChain_iff_pairwise.mp ?_
  exact List.isChain_iff_getElem.mpr fun i hi =>
    lt_of_le_of_ne (List.isChain_iff_getElem.mp hle.isChain i hi)
      (List.isChain_iff_getElem.mp hne i hi)

/-- The loop cuts the frontiers at any preferred ends that increase. -/
theorem graphProfilesFrom_consecutive {ends : List Nat} (hstart : start ≤ maxFrontier)
    (hends : ends.Pairwise (· < ·)) (hfrom : ∀ last ∈ ends, start ≤ last) :
    Consecutive start maxFrontier (graphProfilesFrom maxFrontier start ends) := by
  induction ends generalizing start with
  | nil =>
    rw [graphProfilesFrom, if_pos hstart]
    exact consecutive_singleton hstart
  | cons preferred ends ih =>
    obtain ⟨hlt, hends⟩ := List.pairwise_cons.mp hends
    have hfirst := hfrom preferred (List.mem_cons_self ..)
    unfold graphProfilesFrom
    rw [if_neg (by omega)]
    dsimp only
    split_ifs with hlast
    · rw [hlast]
      exact consecutive_singleton hstart
    · -- the end is below the largest frontier, so it stays as it is
      have hnext : preferred + 1 ≤ maxFrontier := by
        by_contra hge
        exact hlast (Nat.min_eq_right (by omega))
      have hmin : Nat.min preferred maxFrontier = preferred := Nat.min_eq_left (by omega)
      rw [hmin]
      exact Consecutive.cons rfl hfirst (ih hnext hends fun last hl => hlt last hl)

/-- **The intervals leave no frontier out**, whatever ends the list starts from. -/
theorem graphProfilesThrough_consecutive (maxFrontier : Nat) (ends : List Nat) :
    Consecutive 0 maxFrontier (graphProfilesThrough maxFrontier (sortUnique ends)) :=
  graphProfilesFrom_consecutive (Nat.zero_le _) (sortUnique_pairwise ends) fun _ _ => Nat.zero_le _

end Ninfer.Qwen.Layouts
