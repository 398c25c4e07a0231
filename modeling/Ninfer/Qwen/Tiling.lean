import Ninfer.Qwen.Chunks
import Ninfer.Qwen.Safety

/-!
# Prefill steps tile the prompt

In every run, from the start of a request on, the steps of its prefill make one chunk after the
other, whatever the other lanes do in between. The chunks tile the prompt from the reuse base on.

## Main definitions

* `Action.Touches`: the actions on a lane
* `Prefills`: the runs since a prefill has started, with the chunks it has made
* `PrefillTiling`: what the chunks of a prefill are

## Main results

* `Action.frame`: the other actions leave a lane alone
* `prefill_steps_tile`: **the chunks tile the prompt**
-/

namespace Ninfer.Qwen

variable {n : Nat} {cfg : Config n}

/-! ## The actions on other lanes -/

/-- The action is one on the lane. -/
def Action.Touches (l : Fin n) : Action n → Prop
  | .start m .. | .advance m _ | .resolvePrefill m _ | .abort m | .evict m => m = l
  | .decode rows => l ∈ rows.map Prod.fst
  | .resolve rows => l ∈ rows.map Prod.fst

section Frame

variable {s s' : System n} {l : Fin n}

/-- **An action on other lanes** leaves the lane alone. -/
theorem Action.frame (hs : SysInv cfg s) {action : Action n} (he : action.Enabled cfg s)
    (hother : ¬action.Touches l) (hrun : action.run cfg s = .ok () s') :
    s'.program.lanes l = s.program.lanes l := by
  cases action with
  | start m prompt options base plan transient sampled =>
    have hm : l ≠ m := fun heq => hother heq.symm
    rcases start_spec hs he with ⟨p₁, _, step, _, hok, -, -, -, -, hlanes, -, hp, -⟩ | ⟨_, herror, -⟩
    · cases hok.symm.trans hrun
      rw [hp, show (advanced m p₁ step).lanes l = p₁.lanes l from Function.update_of_ne hm ..,
        hlanes l hm]
    · exact nomatch herror.symm.trans hrun
  | advance m sampled =>
    have hm : l ≠ m := fun heq => hother heq.symm
    rcases advance_spec hs he sampled with ⟨_, step, _, hok, -, -, -, -, hp, -⟩ | ⟨_, herror, -⟩
    · cases hok.symm.trans hrun
      rw [hp]
      exact Function.update_of_ne hm ..
    · exact nomatch herror.symm.trans hrun
  | resolvePrefill m terminal =>
    obtain ⟨_, hok, -, -, hstep, -⟩ := resolvePrefill_spec hs he
    cases hok.symm.trans hrun
    exact hstep.lanes l fun heq => hother heq.symm
  | decode rows =>
    rcases decode_spec hs he with ⟨_, hok, -, -, hstep, -⟩ | ⟨_, herror, -⟩
    · cases hok.symm.trans hrun
      exact hstep.lanes l hother
    · exact nomatch herror.symm.trans hrun
  | resolve rows =>
    obtain ⟨_, hok, -, hstep, -⟩ := resolve_spec hs he
    cases hok.symm.trans hrun
    exact hstep.lanes l hother
  | abort m =>
    cases (abort_spec hs he).1.symm.trans hrun
    exact Function.update_of_ne (fun heq => hother heq.symm) ..
  | evict m =>
    have hok : (Action.evict m).run cfg s =
        .ok () { s with program := evictRetainedLane m s.program } := rfl
    cases hok.symm.trans hrun
    show (evictRetainedLane m s.program).lanes l = _
    unfold evictRetainedLane
    split_ifs
    · exact Function.update_of_ne (fun heq => hother heq.symm) ..
    · rfl

end Frame

/-! ## The chunks of a prefill -/

/-- What the chunks of a prefill are, for the frontier of the checkpoint to capture: the visual
tokens of a chunk belong to its item, the items are encoded in increasing order, the embeddings of
the item of a chunk were encoded last before the chunk was executed, and no chunk passes the
frontier. -/
structure ChunksOk (p : PreparedPromptData) (capture : Option RewriteCheckpointSpec)
    (chunks : List StepChunk) : Prop where
  tokens : ∀ c ∈ chunks, ∀ (k : Nat) (item : VisionItem) (i : Nat), p.visionItems[k]? = some item →
    i ∈ item.scatterIndices → c.first ≤ i → i < c.stop → c.item = some k
  sorted : (chunks.flatMap (·.encoded)).Pairwise (· < ·)
  uses : ∀ (j : Nat) (c : StepChunk), chunks[j]? = some c → ∀ k ∈ c.item,
    ((chunks.take (j + 1)).flatMap (·.encoded)).getLast? = some k
  stops : ∀ spec ∈ capture, ∀ c ∈ chunks, c.first < spec.frontier → c.stop ≤ spec.frontier

namespace ChunksOk

variable {p : PreparedPromptData} {capture : Option RewriteCheckpointSpec}
  {chunks : List StepChunk}

theorem nil : ChunksOk p capture [] :=
  ⟨nofun, List.Pairwise.nil, nofun, fun _ _ _ hc => (nomatch hc)⟩

/-- One more chunk, for the prefill as it is after the others. -/
theorem append (h : ChunksOk p capture chunks) {staged : Prefill} {c : StepChunk}
    (hc : c.Ok staged) (hitems : staged.prompt.visionItems = p.visionItems)
    (hactive : (chunks.flatMap (·.encoded)).getLast? = activeOf staged.vision)
    (hstops : ∀ spec ∈ capture, c.first < spec.frontier → c.stop ≤ spec.frontier) :
    ChunksOk p capture (chunks ++ [c]) ∧
      ((chunks ++ [c]).flatMap (·.encoded)).getLast? =
        ((activeOf staged.vision).toList ++ c.encoded).getLast? := by
  have hencoded : (chunks ++ [c]).flatMap (·.encoded) =
      chunks.flatMap (·.encoded) ++ c.encoded := by
    rw [List.flatMap_append, List.flatMap_singleton]
  have hlast : ((chunks ++ [c]).flatMap (·.encoded)).getLast? =
      ((activeOf staged.vision).toList ++ c.encoded).getLast? := by
    rw [hencoded, getLast?_append_of_getLast, hactive]
  refine ⟨⟨?_, ?_, ?_, ?_⟩, hlast⟩
  · intro d hd k item i hk hi
    rcases List.mem_append.mp hd with hd | hd
    · exact h.tokens d hd k item i hk hi
    · rw [List.mem_singleton.mp hd]
      exact hc.tokens k item i (hitems ▸ hk) hi
  · rw [hencoded]
    exact pairwise_append_of_getLast h.sorted (hactive.symm ▸ hc.sorted)
  · intro j d hd k hk
    by_cases hj : j < chunks.length
    · rw [List.getElem?_append_left hj] at hd
      rw [List.take_append_of_le_length hj]
      exact h.uses j d hd k hk
    · have hlen := (List.getElem?_eq_some_iff.mp hd).1
      rw [List.length_append, List.length_singleton] at hlen
      have hj' : j = chunks.length := by omega
      subst hj'
      rw [List.getElem?_append_right (Nat.le_refl _), Nat.sub_self] at hd
      cases hd
      rw [List.take_of_length_le (by simp), hlast]
      exact hc.uses k hk
  · intro spec hspec d hd
    rcases List.mem_append.mp hd with hd | hd
    · exact h.stops spec hspec d hd
    · rw [List.mem_singleton.mp hd]
      exact hstops spec hspec

/-- A later chunk does not use an earlier item. -/
theorem item_le (h : ChunksOk p capture chunks) {j j' : Nat} {c c' : StepChunk} {k k' : Nat}
    (hj : chunks[j]? = some c) (hj' : chunks[j']? = some c') (hle : j ≤ j') (hk : c.item = some k)
    (hk' : c'.item = some k') : k ≤ k' := by
  have hlast := h.uses j c hj k hk
  have hlast' := h.uses j' c' hj' k' hk'
  have hsub : ((chunks.take (j' + 1)).flatMap (·.encoded)).Pairwise (· < ·) := by
    have hsorted := h.sorted
    rw [← List.take_append_drop (j' + 1) chunks, List.flatMap_append] at hsorted
    exact (List.pairwise_append.mp hsorted).1
  have hmem : k ∈ (chunks.take (j' + 1)).flatMap (·.encoded) := by
    have htake : (chunks.take (j' + 1)).take (j + 1) = chunks.take (j + 1) := by
      rw [List.take_take, Nat.min_eq_left (by omega)]
    rw [← List.take_append_drop (j + 1) (chunks.take (j' + 1)), htake, List.flatMap_append]
    exact List.mem_append_left _ (List.mem_of_getLast? hlast)
  obtain ⟨init, hinit⟩ := List.getLast?_eq_some_iff.mp hlast'
  rw [hinit] at hsub hmem
  rcases List.mem_append.mp hmem with hmem | hmem
  · exact ((List.pairwise_append.mp hsub).2.2 k hmem k' (List.mem_singleton.mpr rfl)).le
  · exact (List.mem_singleton.mp hmem).le

end ChunksOk

/-! ## The steps of one prefill -/

section Steps

variable {l : Fin n} {h : KvHeap n} {x : Lane} {staged : Prefill} {budget : Nat}
  {p : PreparedPromptData} {plan : RequestPlan} {chunks : List StepChunk}

/-- A staged prefill of the prompt `p` that has made the chunks. -/
structure Traced (p : PreparedPromptData) (plan : RequestPlan) (staged : Prefill)
    (chunks : List StepChunk) : Prop where
  promptTokens : staged.promptTokens = p.size
  items : staged.prompt.visionItems = p.visionItems
  capture : staged.rewriteCheckpointCapture = plan.rewriteCheckpointCapture
  clean : pendingOf staged.vision = []
  tiles : Tiles plan.reuseBase chunks staged.cursor
  active : (chunks.flatMap (·.encoded)).getLast? = activeOf staged.vision
  ok : ChunksOk p plan.rewriteCheckpointCapture chunks

/-- The chunks of a prefill that has ended. -/
structure WholePrompt (p : PreparedPromptData) (plan : RequestPlan) (chunks : List StepChunk) :
    Prop where
  tiles : Tiles plan.reuseBase chunks p.size
  ok : ChunksOk p plan.rewriteCheckpointCapture chunks

/-- Where a prefill is that has made the chunks. -/
def PrefillAt (p : PreparedPromptData) (plan : RequestPlan) (x : Lane)
    (chunks : List StepChunk) : Prop :=
  (∃ staged, x.prefill = some staged ∧ staged.cursor < p.size ∧ Traced p plan staged chunks) ∨
    x.prefill = none ∧ WholePrompt p plan chunks

/-- **One step**: its chunk follows the others. -/
theorem Traced.step (ht : Traced p plan staged chunks)
    (hl : PrefillingLane cfg h l x staged budget) {ropeDelta : Int} {sampled : Sampled}
    {result : PrefillAdvance} (hok : advanceLane cfg x staged ropeDelta sampled = .ok result)
    (ho : AdvanceOutcome cfg h l x staged budget sampled result) :
    ∃ c, stepChunk cfg staged = .ok c ∧ (c.isSome ↔ staged.cursor < staged.promptTokens) ∧
      PrefillAt p plan result.lane (chunks ++ c.toList) := by
  obtain ⟨c, hc, hsome, hprocessed, hchunk, hlater⟩ := advanceLane_chunk hl ht.clean hok
  refine ⟨c, hc, hsome, ?_⟩
  -- The chunk of the step, after those before.
  have hall : Tiles plan.reuseBase (chunks ++ c.toList) (staged.cursor + result.processed) ∧
      ((∀ spec ∈ plan.rewriteCheckpointCapture, staged.cursor < spec.frontier →
          staged.cursor + result.processed ≤ spec.frontier) →
        ChunksOk p plan.rewriteCheckpointCapture (chunks ++ c.toList) ∧
        ∀ chunk ∈ c, ((chunks ++ c.toList).flatMap (·.encoded)).getLast? =
          ((activeOf staged.vision).toList ++ chunk.encoded).getLast?) := by
    cases c with
    | none =>
      rw [hprocessed, Option.toList_none, List.append_nil]
      exact ⟨ht.tiles, fun _ => ⟨ht.ok, fun _ hc => (nomatch hc)⟩⟩
    | some chunk =>
      have hchunk := hchunk chunk rfl
      have hstop : chunk.stop = staged.cursor + result.processed := by
        rw [hprocessed, StepChunk.stop, hchunk.first]
        rfl
      rw [Option.toList_some, ← hstop]
      refine ⟨ht.tiles.append (.singleton hchunk.first hchunk.pos), fun hstops => ?_⟩
      obtain ⟨hok', hlast⟩ := ht.ok.append hchunk ht.items ht.active (hchunk.first ▸ hstops)
      exact ⟨hok', fun _ hc => by cases hc; exact hlast⟩
  obtain ⟨htiles, hrest⟩ := hall
  cases ho with
  | more staged' _ prefill advanced lane fed =>
    obtain ⟨hok', hlast⟩ := hrest fun spec hspec => fed.stops spec (ht.capture ▸ hspec)
    have hlt : staged'.cursor < p.size := by
      have hle := lane.cursor_le
      have hne : staged'.cursor ≠ staged.promptTokens := fun heq => nomatch fed.ends.mpr heq
      rw [fed.promptTokens] at hle
      rw [← ht.promptTokens]
      omega
    obtain ⟨payloads, hprompt⟩ := fed.prompt
    obtain ⟨chunk, rfl⟩ : ∃ chunk, c = some chunk := by
      refine Option.isSome_iff_exists.mp (hsome.mpr ?_)
      have hcursor := fed.cursor
      have hsize := ht.promptTokens
      omega
    obtain ⟨hclean, hactive⟩ := hlater staged' prefill chunk rfl
    refine Or.inl ⟨staged', prefill, hlt, ?_⟩
    exact
      { promptTokens := fed.promptTokens.trans ht.promptTokens
        items := by
          rw [hprompt]
          exact ht.items
        capture := fed.capture.trans ht.capture
        clean := hclean
        tiles := fed.cursor ▸ htiles
        active := (hlast chunk rfl).trans hactive.symm
        ok := hok' }
  | done y staged' r _ _ _ _ _ fed _ lane =>
    obtain ⟨hok', -⟩ := hrest fun spec hspec => fed.stops spec (ht.capture ▸ hspec)
    have hend := fed.ends.mp rfl
    refine Or.inr ⟨lane.prefill, ?_, hok'⟩
    rw [← ht.promptTokens, ← hend, fed.cursor]
    exact htiles

end Steps

/-! ## The calls of the program -/

section Calls

variable {l : Fin n} {s s' : Program n} {p : PreparedPromptData} {plan : RequestPlan}
  {transient : TransientRegion} {sampled : Sampled} {r : PrefillStep}

/-- What `advance_prefill` has done when it returns. -/
theorem advancePrefill_eq_ok (h : advancePrefill cfg l sampled s = .ok r s') :
    ∃ staged step, (s.lanes l).prefill = some staged ∧
      advanceLane cfg (s.lanes l) staged s.ropeDelta sampled = .ok step ∧
      s' = advanced l s step := by
  unfold advancePrefill at h
  split at h
  next staged _ hprefill =>
    split at h
    · cases h
    next step hstep =>
      rw [bind_eq_ok] at hstep
      obtain ⟨_, -, hstep⟩ := hstep
      cases h
      exact ⟨staged, step, hprefill, hstep, rfl⟩
  · cases h

/-- **A step of the program** makes the chunk of its prefill. -/
theorem advancePrefill_prefillAt {staged : Prefill} {budget : Nat} {chunks : List StepChunk}
    (ht : Traced p plan staged chunks) (hprefill : (s.lanes l).prefill = some staged)
    (hl : PrefillingLane cfg s.pools.heap l (s.lanes l) staged budget)
    (hdelta : staged.base = staged.promptTokens → s.ropeDelta = staged.prompt.ropeDelta)
    (h : advancePrefill cfg l sampled s = .ok r s') :
    ∃ c, stepChunk cfg staged = .ok c ∧ (c.isSome ↔ staged.cursor < staged.promptTokens) ∧
      PrefillAt p plan (s'.lanes l) (chunks ++ c.toList) := by
  obtain ⟨staged', step, hprefill', hstep, rfl⟩ := advancePrefill_eq_ok h
  obtain rfl : staged' = staged := Option.some.inj (hprefill'.symm.trans hprefill)
  rw [show (advanced l s step).lanes l = step.lane from Function.update_self ..]
  rcases advanceLane_spec hl hdelta sampled with ⟨step', hok, -, ho⟩ | herror
  · obtain rfl : step = step' := Except.ok.inj (hstep.symm.trans hok)
    exact ht.step hl hstep ho
  · exact nomatch herror.symm.trans hstep

/-- What the first step has done when `start_prefill_lane` returns. -/
theorem startPrefillLane_eq_ok {s₁ : Program n}
    (hvalid : validateStart (s.lanes l) p plan transient = .ok ())
    (hstage : stagePrefill cfg l p plan transient s = .ok () s₁)
    (h : startPrefillLane cfg l p plan transient sampled s = .ok r s') :
    advancePrefill cfg l sampled s₁ = .ok r s' := by
  rw [startPrefillLane_of_staged hvalid hstage] at h
  unfold Call.handle at h
  split at h
  next _ _ hok => rw [hok, h]
  next => cases h

/-- The session of a staged prefill has encoded nothing. -/
theorem stagePrefill_vision (h : stagePrefill cfg l p plan transient s = .ok () s')
    {staged : Prefill} (hprefill : (s'.lanes l).prefill = some staged) :
    pendingOf staged.vision = [] ∧ activeOf staged.vision = none := by
  unfold stagePrefill at h
  split at h
  · cases h
  next x _ =>
    split at h
    · cases h
    next bundle pools _ =>
      split at h
      · cases h
      next z hz =>
        cases h
        rw [show ((({ s with pools := pools } : Program n).setLane l z).lanes l) = z from
          Function.update_self ..] at hprefill
        unfold stageLane at hz
        simp only [bind_eq_ok] at hz
        obtain ⟨_, -, _, -, _, -, session, hsession, hz⟩ := hz
        cases hz
        cases hprefill
        unfold createSession VisionPrefillSession.create at hsession
        split at hsession
        · cases hsession
          exact ⟨rfl, rfl⟩
        · split_ifs at hsession
          · cases hsession
          · cases hsession
          · cases hsession
            exact ⟨rfl, rfl⟩

end Calls

/-! ## The runs of a prefill -/

/-- The runs since a prefill of the prompt `p` has started on the lane `l` with the plan, and the
chunks that its steps have made. Other actions than those on the lane may come in between. -/
inductive Prefills (cfg : Config n) (l : Fin n) (p : PreparedPromptData) (plan : RequestPlan) :
    System n → List StepChunk → Prop
  | started {s s' : System n} {s₁ : Program n} {staged : Prefill} {c : Option StepChunk}
      {options : ExecutionOptions} {base : RequestBasePlan} {transient : TransientRegion}
      {sampled : Sampled} (reached : Reachable cfg s)
      (enabled : (Action.start l p options base plan transient sampled).Enabled cfg s)
      (run : (Action.start l p options base plan transient sampled).run cfg s = .ok () s')
      (stage : stagePrefill cfg l p plan transient s.program = .ok () s₁)
      (prefill : (s₁.lanes l).prefill = some staged) (chunk : stepChunk cfg staged = .ok c) :
      Prefills cfg l p plan s' c.toList
  | advanced {s s' : System n} {staged : Prefill} {c : Option StepChunk}
      {chunks : List StepChunk} {sampled : Sampled} (before : Prefills cfg l p plan s chunks)
      (enabled : (Action.advance l sampled).Enabled cfg s)
      (run : (Action.advance l sampled).run cfg s = .ok () s')
      (prefill : (s.program.lanes l).prefill = some staged) (chunk : stepChunk cfg staged = .ok c) :
      Prefills cfg l p plan s' (chunks ++ c.toList)
  | other {s s' : System n} {chunks : List StepChunk} {action : Action n}
      (before : Prefills cfg l p plan s chunks) (enabled : action.Enabled cfg s)
      (others : ¬action.Touches l) (run : action.run cfg s = .ok () s') :
      Prefills cfg l p plan s' chunks

section Runs

variable {s s' : System n} {l : Fin n} {p : PreparedPromptData} {plan : RequestPlan}
  {chunks : List StepChunk} {sampled : Sampled}

theorem Prefills.reachable (h : Prefills cfg l p plan s chunks) : Reachable cfg s := by
  induction h with
  | started reached enabled run => exact reached.tail (.returned enabled run)
  | advanced _ enabled run _ _ ih => exact ih.tail (.returned enabled run)
  | other _ enabled _ run ih => exact ih.tail (.returned enabled run)

/-- **The first step** of a prefill. -/
theorem start_prefillAt {options : ExecutionOptions} {base : RequestBasePlan}
    {transient : TransientRegion} (hs : SysInv cfg s)
    (he : (Action.start l p options base plan transient sampled).Enabled cfg s)
    (hrun : (Action.start l p options base plan transient sampled).run cfg s = .ok () s') :
    ∃ s₁ staged c, stagePrefill cfg l p plan transient s.program = .ok () s₁ ∧
      (s₁.lanes l).prefill = some staged ∧ stepChunk cfg staged = .ok c ∧
      PrefillAt p plan (s'.program.lanes l) c.toList := by
  obtain ⟨hidle, hprep, hbase, hplan, hadmits, htransient⟩ := he
  have ha := planRequestBase_spec hbase
  have hp := planRequestForLane_spec hplan
  obtain ⟨s₁, staged, hstage, -, hrope, -, hstaged, hl⟩ :=
    stagePrefill_spec hs.kv (hs.free hidle).1 hprep ha hp htransient hadmits
  obtain ⟨payloads, hprompt⟩ := hstaged.payloads
  obtain ⟨hclean, hactive⟩ := stagePrefill_vision hstage hstaged.prefill
  have ht : Traced p plan staged [] :=
    { promptTokens := hstaged.promptTokens
      items := by rw [hprompt]
      capture := hstaged.capture
      clean := hclean
      tiles := by
        rw [hstaged.cursor, hstaged.base]
        rfl
      active := hactive.symm
      ok := .nil }
  have hdelta : staged.base = staged.promptTokens → s₁.ropeDelta = staged.prompt.ropeDelta := by
    intro _
    rw [hrope, hprompt]
  cases hcall : startPrefillLane cfg l p plan transient sampled s.program with
  | ok r p' =>
    have hready := (accountReady_occupy (s := s) (l := l) ha hp hstaged).covers
    have hpos := Prefill.stepsLeft_pos cfg staged
    cases (start_run_ok options base hcall (by omega)).symm.trans hrun
    obtain ⟨c, hc, -, hat⟩ := advancePrefill_prefillAt ht hstaged.prefill hl hdelta
      (startPrefillLane_eq_ok (validateStart_spec hprep ha hp htransient) hstage hcall)
    exact ⟨s₁, staged, c, hstage, hstaged.prefill, hc, hat⟩
  | error e p' =>
    have hinner : (onProgram (startPrefillLane cfg l p plan transient sampled) >>=
        resolvePrefillStep l) (s.occupy cfg l plan) = _ :=
      Call.bind_of_error (onProgram_of_error hcall)
    have herror : (Action.start l p options base plan transient sampled).run cfg s =
        .error e (({ s.occupy cfg l plan with program := p' } : System n).abandon l) := by
      show ((onProgram (startPrefillLane cfg l p plan transient sampled) >>=
        resolvePrefillStep l).handle _) (s.occupy cfg l plan) = _
      simp only [Call.handle, hinner]
    cases herror.symm.trans hrun

/-- The checkpoint to capture lies after the reuse base. -/
theorem start_capture {options : ExecutionOptions} {base : RequestBasePlan}
    {transient : TransientRegion} (hs : SysInv cfg s)
    (he : (Action.start l p options base plan transient sampled).Enabled cfg s) :
    ∀ spec ∈ plan.rewriteCheckpointCapture,
      plan.reuseBase < spec.frontier ∧ spec.frontier ≤ p.size := by
  obtain ⟨hidle, hprep, hbase, hplan, hadmits, htransient⟩ := he
  obtain ⟨s₁, staged, -, -, -, -, hstaged, hl⟩ := stagePrefill_spec hs.kv (hs.free hidle).1 hprep
    (planRequestBase_spec hbase) (planRequestForLane_spec hplan) htransient hadmits
  intro spec hspec
  have hin := hl.capture spec (hstaged.capture.symm ▸ hspec)
  rw [hstaged.base, hstaged.promptTokens] at hin
  exact hin

/-- **A later step** of a prefill. -/
theorem advance_prefillAt {staged : Prefill} (hs : SysInv cfg s)
    (he : (Action.advance l sampled).Enabled cfg s)
    (hrun : (Action.advance l sampled).run cfg s = .ok () s')
    (hprefill : (s.program.lanes l).prefill = some staged) (ht : Traced p plan staged chunks) :
    ∃ c, stepChunk cfg staged = .ok c ∧ (c.isSome ↔ staged.cursor < staged.promptTokens) ∧
      PrefillAt p plan (s'.program.lanes l) (chunks ++ c.toList) := by
  obtain ⟨staged', hprefill', hadvanced, hl, -⟩ := hs.prefillingLane he
  obtain rfl : staged' = staged := Option.some.inj (hprefill'.symm.trans hprefill)
  have hbase : staged'.base ≠ staged'.promptTokens := by
    have := hl.cursor_le
    omega
  cases hcall : advancePrefillLane cfg l sampled s.program with
  | ok r p' =>
    cases (advance_run_ok hcall (hs.remaining_pos (Or.inl he))).symm.trans hrun
    exact advancePrefill_prefillAt ht hprefill hl (fun heq => absurd heq hbase) hcall
  | error e p' =>
    have herror : (Action.advance l sampled).run cfg s = .error e { s with program := p' } :=
      Call.bind_of_error (onProgram_of_error hcall)
    exact nomatch herror.symm.trans hrun

theorem Prefills.capture (h : Prefills cfg l p plan s chunks) :
    ∀ spec ∈ plan.rewriteCheckpointCapture,
      plan.reuseBase < spec.frontier ∧ spec.frontier ≤ p.size := by
  induction h with
  | started reached enabled _ _ _ _ => exact start_capture reached.inv enabled
  | advanced _ _ _ _ _ ih => exact ih
  | other _ _ _ _ ih => exact ih

/-- **Where a prefill is** in every run. -/
theorem Prefills.prefillAt (h : Prefills cfg l p plan s chunks) :
    PrefillAt p plan (s.program.lanes l) chunks := by
  induction h with
  | started reached enabled run stage prefill chunk =>
    obtain ⟨s₁, staged, c, hstage, hprefill, hc, hat⟩ := start_prefillAt reached.inv enabled run
    cases hstage.symm.trans stage
    cases hprefill.symm.trans prefill
    cases hc.symm.trans chunk
    exact hat
  | @advanced s s' staged _ _ _ before enabled run prefill chunk ih =>
    rcases ih with ⟨staged', hprefill', -, ht⟩ | ⟨hnone, -⟩
    · cases prefill.symm.trans hprefill'
      obtain ⟨c, hc, -, hat⟩ := advance_prefillAt before.reachable.inv enabled run prefill ht
      cases hc.symm.trans chunk
      exact hat
    · exact nomatch hnone.symm.trans prefill
  | other before enabled others run ih =>
    rw [Action.frame before.reachable.inv enabled others run]
    exact ih

end Runs

/-! ## The tiling -/

/-- What the chunks of a prefill from `base` on are when they have reached the token `stop`. -/
structure PrefillTiling (p : PreparedPromptData) (plan : RequestPlan) (x : Lane)
    (chunks : List StepChunk) (stop : Nat) : Prop where
  /-- They are not empty and follow each other from the reuse base on. -/
  tiles : Tiles plan.reuseBase chunks stop
  more : ∀ staged, x.prefill = some staged → stop = staged.cursor ∧ stop < p.size
  whole : x.prefill = none → stop = p.size
  /-- A chunk uses at most one item: all its visual tokens belong to it. -/
  tokens : ∀ c ∈ chunks, ∀ (k : Nat) (item : VisionItem) (i : Nat), p.visionItems[k]? = some item →
    i ∈ item.scatterIndices → c.first ≤ i → i < c.stop → c.item = some k
  /-- No item is encoded again, and none after a later one. -/
  increasing : (chunks.flatMap (·.encoded)).Pairwise (· < ·)
  ordered : ∀ (j j' : Nat) (c c' : StepChunk), chunks[j]? = some c → chunks[j']? = some c' →
    j ≤ j' → ∀ k ∈ c.item, ∀ k' ∈ c'.item, k ≤ k'
  /-- The item of a chunk is the one encoded last before the chunk was executed. -/
  uses : ∀ (j : Nat) (c : StepChunk), chunks[j]? = some c → ∀ k ∈ c.item,
    ((chunks.take (j + 1)).flatMap (·.encoded)).getLast? = some k
  /-- An item is encoded before each of its tokens is executed. -/
  encoded : ∀ (k : Nat) (item : VisionItem) (i : Nat), p.visionItems[k]? = some item →
    i ∈ item.scatterIndices → plan.reuseBase ≤ i → i < stop →
    ∃ (j : Nat) (c : StepChunk), chunks[j]? = some c ∧ c.first ≤ i ∧ i < c.stop ∧
      c.item = some k ∧ k ∈ (chunks.take (j + 1)).flatMap (·.encoded)
  /-- The frontier of the checkpoint to capture lies in the tokens to prefill. -/
  capture : ∀ spec ∈ plan.rewriteCheckpointCapture,
    plan.reuseBase < spec.frontier ∧ spec.frontier ≤ p.size
  /-- One chunk ends at this frontier, as soon as it is reached. -/
  checkpoint : ∀ spec ∈ plan.rewriteCheckpointCapture, spec.frontier ≤ stop →
    (chunks.filter fun c : StepChunk => c.stop = spec.frontier).length = 1

theorem ChunksOk.tiling {p : PreparedPromptData} {plan : RequestPlan} {x : Lane}
    {chunks : List StepChunk} {stop : Nat} (h : ChunksOk p plan.rewriteCheckpointCapture chunks)
    (htiles : Tiles plan.reuseBase chunks stop)
    (hmore : ∀ staged, x.prefill = some staged → stop = staged.cursor ∧ stop < p.size)
    (hwhole : x.prefill = none → stop = p.size)
    (hcapture : ∀ spec ∈ plan.rewriteCheckpointCapture,
      plan.reuseBase < spec.frontier ∧ spec.frontier ≤ p.size) :
    PrefillTiling p plan x chunks stop where
  tiles := htiles
  more := hmore
  whole := hwhole
  tokens := h.tokens
  increasing := h.sorted
  ordered := fun _ _ _ _ hj hj' hle _ hk _ hk' => h.item_le hj hj' hle hk hk'
  uses := h.uses
  encoded := by
    intro k item i hk hi hle hlt
    obtain ⟨j, c, hc, hfirst, hstop⟩ := htiles.covers i hle hlt
    have hitem := h.tokens c (List.mem_of_getElem? hc) k item i hk hi hfirst hstop
    exact ⟨j, c, hc, hfirst, hstop, hitem, List.mem_of_getLast? (h.uses j c hc k hitem)⟩
  capture := hcapture
  checkpoint := fun spec hspec hle =>
    htiles.exactly_once (hcapture spec hspec).1 hle (h.stops spec hspec)

/-- **Prefill steps tile the prompt.** Every start of a request that returns begins a prefill; in
every run, whatever the other lanes do, its chunks tile the prompt from the reuse base to where it
is, and to the end of the prompt once it has ended; a step of a prefill that has not ended makes one
more chunk. No call throws but for a token outside the token domain. -/
theorem prefill_steps_tile (l : Fin n) (p : PreparedPromptData) (plan : RequestPlan) :
    (∀ (s s' : System n) (options : ExecutionOptions) (base : RequestBasePlan)
      (transient : TransientRegion) (sampled : Sampled), Reachable cfg s →
      (Action.start l p options base plan transient sampled).Enabled cfg s →
      (Action.start l p options base plan transient sampled).run cfg s = .ok () s' →
      ∃ chunks, Prefills cfg l p plan s' chunks) ∧
    (∀ (s : System n) (chunks : List StepChunk), Prefills cfg l p plan s chunks →
      (∃ stop, PrefillTiling p plan (s.program.lanes l) chunks stop) ∧
      ∀ (s' : System n) (sampled : Sampled), (Action.advance l sampled).Enabled cfg s →
        (Action.advance l sampled).run cfg s = .ok () s' →
        ∃ c, Prefills cfg l p plan s' (chunks ++ [c])) ∧
    ∀ (s t : System n) (action : Action n) (e : Exception), Reachable cfg s →
      action.Enabled cfg s → action.run cfg s = .error e t → e = tokenDomainError := by
  refine ⟨?_, fun s chunks h => ⟨?_, ?_⟩, fun s t action e hr he hrun => hr.inv.error he hrun⟩
  · intro s s' options base transient sampled hr he hrun
    obtain ⟨s₁, staged, c, hstage, hprefill, hc, -⟩ := start_prefillAt hr.inv he hrun
    exact ⟨c.toList, .started hr he hrun hstage hprefill hc⟩
  · rcases h.prefillAt with ⟨staged, hprefill, hlt, ht⟩ | ⟨hnone, hall⟩
    · refine ⟨staged.cursor, ht.ok.tiling ht.tiles (fun staged' hprefill' => ?_) (fun hnone => ?_)
        h.capture⟩
      · cases hprefill.symm.trans hprefill'
        exact ⟨rfl, hlt⟩
      · exact nomatch hnone.symm.trans hprefill
    · exact ⟨p.size, hall.ok.tiling hall.tiles (fun _ h => nomatch hnone.symm.trans h)
        (fun _ => rfl) h.capture⟩
  · intro s' sampled he hrun
    obtain ⟨staged, hprefill, -⟩ := h.reachable.inv.prefillingLane he
    -- The lane has a staged prefill, so that the steps have not reached the end.
    rcases h.prefillAt with ⟨staged', hprefill', hlt, ht⟩ | ⟨hnone, -⟩
    · cases hprefill.symm.trans hprefill'
      obtain ⟨c, hc, hsome, -⟩ := advance_prefillAt h.reachable.inv he hrun hprefill ht
      obtain ⟨chunk, rfl⟩ := Option.isSome_iff_exists.mp (hsome.mpr (ht.promptTokens ▸ hlt))
      exact ⟨chunk, h.advanced he hrun hprefill hc⟩
    · exact nomatch hnone.symm.trans hprefill

/-! ## A run to evaluate -/

/-- The third turn is prefilled on an empty lane, and its first chunk is executed. -/
def chunkRun : System 1 :=
  (System.init tinyConfig).serve tinyConfig ⟨0, Nat.zero_lt_one⟩ thirdPrompt ⟨6, true, none⟩
    ⟨true, 4096, 4096⟩ ⟨9, fun _ => 0⟩

/-- Its second chunk is the last one. -/
def chunksRun : System 1 :=
  chunkRun.perform tinyConfig (.advance ⟨0, Nat.zero_lt_one⟩ ⟨9, fun _ => 0⟩)

theorem prefill_steps_tile_chunksRun : ∃ plan chunks c,
    PrefillTiling thirdPrompt plan (chunkRun.program.lanes 0) chunks 8 ∧
    PrefillTiling thirdPrompt plan (chunksRun.program.lanes 0) (chunks ++ [c]) 12 := by
  obtain ⟨hphase, hcursor, hbusy, hended⟩ : (chunkRun.slots 0).phase = .prefilling ∧
      (chunkRun.program.lanes 0).prefill.map (·.cursor) = some 8 ∧
      (chunksRun.slots 0).phase ≠ .idle ∧ (chunksRun.program.lanes 0).prefill.isNone = true := by
    decide +kernel
  have hne : (chunkRun.slots 0).phase ≠ .idle := by
    rw [hphase]
    decide
  unfold chunkRun at hne
  obtain ⟨base, plan, he, hrun⟩ := Reachable.serve_started .refl rfl prepared_thirdPrompt hne
  obtain ⟨hstarts, htiles, -⟩ := @prefill_steps_tile 1 tinyConfig 0 thirdPrompt plan
  obtain ⟨chunks, hchunks⟩ := hstarts (System.init tinyConfig) chunkRun _ base _ _ .refl he hrun
  obtain ⟨⟨stop, hfirst⟩, hadvance⟩ := htiles _ _ hchunks
  have hadvanced : (Action.advance 0 ⟨9, fun _ => 0⟩).run tinyConfig chunkRun = .ok () chunksRun :=
    hchunks.reachable.performed hphase hbusy
  obtain ⟨c, hc⟩ := hadvance chunksRun ⟨9, fun _ => 0⟩ hphase hadvanced
  obtain ⟨⟨stop', hlast⟩, -⟩ := htiles _ _ hc
  obtain ⟨staged, hstaged, hstop⟩ := Option.map_eq_some_iff.mp hcursor
  obtain rfl : stop = 8 := (hfirst.more staged hstaged).1.trans hstop
  obtain rfl : stop' = 12 := hlast.whole (Option.isNone_iff_eq_none.mp hended)
  exact ⟨plan, chunks, c, hfirst, hlast⟩

end Ninfer.Qwen
