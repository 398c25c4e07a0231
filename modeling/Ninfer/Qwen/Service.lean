import Ninfer.Qwen.Advancing

/-!
# Service work

The planner projects how many steps a prefill takes: one for each chunk of the suffix, one more for
each media item it uses, and one more for a checkpoint inside the prompt. The program cuts the
chunks while it runs, at the starts of the uses and at the checkpoint. This module bounds the steps
that a staged prefill still takes and compares the bound with the projection.

## Main definitions

* `Prefill.stepsLeft`: a bound on the steps that a staged prefill still takes

## Main results

* `Fed.stepsLeft_lt`: a step that does not end the prefill lowers the bound
* `StagedFrom.stepsLeft_le`: at the start the bound is within the projection
-/

namespace Ninfer.Qwen

/-- The places after the cursor where the use of a media item starts. -/
def Prefill.usesAfter (staged : Prefill) : Nat :=
  ((staged.visionPlan.map (·.uses)).getD []).countP fun use => staged.cursor < use.start

/-- Whether the checkpoint to capture lies between the cursor and the end of the prompt. -/
def Prefill.captureAfter (staged : Prefill) : Nat :=
  if staged.rewriteCheckpointCapture.any fun spec =>
    staged.cursor < spec.frontier ∧ spec.frontier < staged.promptTokens then 1 else 0

variable {n : Nat} (cfg : Config n)

/-- A bound on the steps that a staged prefill still takes. -/
def Prefill.stepsLeft (staged : Prefill) : Nat :=
  if staged.cursor < staged.promptTokens then
    1 + (staged.promptTokens - staged.cursor - 1) / cfg.prefillChunk +
      (staged.usesAfter + staged.captureAfter)
  else 1

variable {cfg} {staged staged' : Prefill}

theorem Prefill.stepsLeft_pos (cfg : Config n) (staged : Prefill) :
    0 < staged.stepsLeft cfg := by
  unfold Prefill.stepsLeft
  split_ifs
  · exact Nat.add_pos_left (Nat.add_pos_left Nat.one_pos _) _
  · exact Nat.one_pos

/-! ## A step -/

theorem Prefill.usesAfter_mono (hplan : staged'.visionPlan = staged.visionPlan)
    (hle : staged.cursor ≤ staged'.cursor) : staged'.usesAfter ≤ staged.usesAfter := by
  unfold Prefill.usesAfter
  rw [hplan]
  refine List.countP_mono_left fun use _ h => ?_
  simp only [decide_eq_true_eq] at h ⊢
  omega

theorem Prefill.captureAfter_mono
    (hcapture : staged'.rewriteCheckpointCapture = staged.rewriteCheckpointCapture)
    (hsize : staged'.promptTokens = staged.promptTokens) (hle : staged.cursor ≤ staged'.cursor) :
    staged'.captureAfter ≤ staged.captureAfter := by
  unfold Prefill.captureAfter
  rw [hcapture, hsize]
  cases staged.rewriteCheckpointCapture with
  | none => exact Nat.le_refl _
  | some spec =>
    simp only [Option.any_some, decide_eq_true_eq]
    split_ifs <;> omega

/-- A cursor that reaches the start of a use leaves one fewer of them. -/
theorem Prefill.usesAfter_lt (hplan : staged'.visionPlan = staged.visionPlan)
    (hlt : staged.cursor < staged'.cursor) {plan : VisionPrefillPlan}
    (hp : plan ∈ staged.visionPlan) {use : VisionUseSpan} (hu : use ∈ plan.uses)
    (hstart : use.start = staged'.cursor) : staged'.usesAfter < staged.usesAfter := by
  unfold Prefill.usesAfter
  rw [hplan, Option.mem_def.mp hp]
  simp only [Option.map_some, Option.getD_some]
  obtain ⟨before, after, huses⟩ := List.append_of_mem hu
  have hmono : ∀ uses : List VisionUseSpan,
      uses.countP (fun use => staged'.cursor < use.start) ≤
        uses.countP fun use => staged.cursor < use.start := by
    intro uses
    refine List.countP_mono_left fun use _ h => ?_
    simp only [decide_eq_true_eq] at h ⊢
    omega
  have hbefore := hmono before
  have hafter := hmono after
  rw [huses, List.countP_append, List.countP_append, List.countP_cons, List.countP_cons,
    if_neg (by simp [hstart]), if_pos (by simp [hstart, hlt])]
  omega

/-- **A step that does not end the prefill** lowers the bound. -/
theorem Fed.stepsLeft_lt {x y : Lane} {len : Nat} (hf : Fed cfg x staged len false y staged')
    (hmore : staged'.cursor < staged'.promptTokens) :
    staged'.stepsLeft cfg < staged.stepsLeft cfg := by
  have hchunk := cfg.prefillChunk_pos
  have hcursor := hf.cursor
  have hsize := hf.promptTokens
  have hpos := hf.moves rfl
  have huses := Prefill.usesAfter_mono hf.plan (by omega)
  have hcapture := Prefill.captureAfter_mono hf.capture hsize (by omega)
  have hdiv : (staged'.promptTokens - staged'.cursor - 1) / cfg.prefillChunk ≤
      (staged.promptTokens - staged.cursor - 1) / cfg.prefillChunk :=
    Nat.div_le_div_right (by omega)
  unfold Prefill.stepsLeft
  rw [if_pos hmore, if_pos (show staged.cursor < staged.promptTokens by omega)]
  rcases hf.cut with hend | hfull | ⟨spec, hspec, hstop⟩ | ⟨plan, hplan, use, huse, hstop⟩
  · omega
  · have hsub : staged.promptTokens - staged.cursor - 1 =
        staged'.promptTokens - staged'.cursor - 1 + cfg.prefillChunk := by omega
    rw [hsub, Nat.add_div_right _ hchunk]
    omega
  · have hnow : staged.captureAfter = 1 := by
      unfold Prefill.captureAfter
      rw [Option.mem_def.mp hspec, Option.any_some, if_pos (decide_eq_true (by omega))]
    have hthen : staged'.captureAfter = 0 := by
      unfold Prefill.captureAfter
      rw [hf.capture, Option.mem_def.mp hspec, Option.any_some,
        if_neg (by rw [decide_eq_true_eq]; omega)]
    omega
  · have := Prefill.usesAfter_lt hf.plan (by omega) hplan huse (hstop.trans hcursor.symm)
    omega

/-! ## The start -/

/-- **The projection bounds the steps of a prefill.** -/
theorem StagedFrom.stepsLeft_le (cfg : Config n) {x z : Lane} {prompt : PreparedPromptData}
    {plan : RequestPlan} (hs : StagedFrom x prompt plan z staged)
    (hsize : plan.summary.promptTokens = prompt.size) :
    staged.stepsLeft cfg ≤ plan.prefillUnits cfg := by
  have hcursor := hs.cursor.trans hs.base
  have hprompt := hs.promptTokens
  have huses : staged.usesAfter ≤ (plan.vision.map (·.uses.length)).getD 0 := by
    unfold Prefill.usesAfter
    rw [hs.vision]
    cases plan.vision with
    | none => exact Nat.le_refl _
    | some vision => exact List.countP_le_length
  have hcapture : staged.captureAfter ≤
      if plan.rewriteCheckpointCapture.any (·.frontier < plan.summary.promptTokens) then 1 else 0 := by
    unfold Prefill.captureAfter
    rw [hs.capture, hsize, ← hprompt]
    cases plan.rewriteCheckpointCapture with
    | none => exact Nat.le_refl _
    | some spec =>
      simp only [Option.any_some, decide_eq_true_eq]
      split_ifs <;> omega
  unfold Prefill.stepsLeft RequestPlan.prefillUnits prefillUnits
  dsimp only
  rw [hsize, ← hprompt, ← hcursor]
  split_ifs with hmore hzero hzero
  · omega
  · unfold RequestPlan.prefillSplits
    omega
  · omega
  · omega

end Ninfer.Qwen
