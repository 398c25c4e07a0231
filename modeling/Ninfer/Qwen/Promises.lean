import Ninfer.Executor.Progress
import Ninfer.Qwen.Generated
import Ninfer.Qwen.Tiling

/-!
# The promises of the target

The executor relies on two promises of its target: the exceptions of the target are its own, and a
request with nothing to prefill is complete with its first step. The program keeps both in every
reachable state, so that over this target no error of the executor's own bookkeeping is reached.

## Main definitions

* `Answered`: how the program answers the calls of the executor

## Main results

* `Reachable.start_complete`: a request with nothing to prefill is complete with its first step
* `answered_reliable`: the answers keep the promises
* `ownership_errors_unreachable`: the executor never loses track of a prefill
-/

namespace Ninfer.Qwen

variable {n : Nat} {cfg : Config n} {s s' : System n}

/-- **A request with nothing to prefill** is complete with its first step: its chunks, of which
there are none, tile the prompt from the reuse base to its end. -/
theorem Reachable.start_complete {l : Fin n} {prompt : PreparedPromptData} {options : ExecutionOptions}
    {base : RequestBasePlan} {plan : RequestPlan} {transient : TransientRegion} {sampled : Sampled}
    (hr : Reachable cfg s)
    (he : (Action.start l prompt options base plan transient sampled).Enabled cfg s)
    (hrun : (Action.start l prompt options base plan transient sampled).run cfg s = .ok () s')
    (hnone : ¬plan.summary.NeedsPrefill) : (s'.slots l).phase = .firstToken := by
  obtain ⟨hround, phase, hphase, hslots⟩ := start_slots hrun
  have hslot : (s'.slots l).phase = phase := by
    rw [hslots, Function.update_self]
  rcases hphase with rfl | rfl
  · -- A staged prefill would have some of the prompt left.
    have hr' : Reachable cfg s' := hr.tail (.returned he hrun)
    obtain ⟨staged, hprefill, -⟩ := hr'.inv.prefillingLane hslot
    obtain ⟨_, _, _, -, -, -, hat⟩ := start_prefillAt hr.inv he hrun
    obtain ⟨-, -, hbase, hplan, -, -⟩ := he
    rcases hat with ⟨staged', hprefill', hlt, ht⟩ | ⟨hempty, -⟩
    · have hp := planRequestForLane_spec hplan
      have hle : plan.reuseBase ≤ staged'.cursor := ht.tiles.le
      rw [Executor.RequestPlanSummary.NeedsPrefill, hp.reusable, hp.promptTokens,
        (planRequestBase_spec hbase).promptTokens] at hnone
      omega
    · cases hprefill.symm.trans hempty
  · exact hslot

/-- How the program answers: a call of the executor that starts a prefill, resolves it or decodes is
an action in a reachable state, and throws what that throws; the other answers concern neither. -/
inductive Answered (cfg : Config n) : Answers Executor.State Executor.Oracle
  | started {l : Fin n} {t t' : System n} {state : Executor.State} {id : Nat}
      {prompt options base plan transient} {sampled : Sampled}
      {first : Executor.PrefillStepResult} (reach : Reachable cfg t)
      (enabled : (Action.start l prompt options base plan transient sampled).Enabled cfg t)
      (run : (Action.start l prompt options base plan transient sampled).run cfg t = .ok () t')
      (admitted : (state.reqs id).job.admitted = some plan.summary)
      (complete : first.complete = decide ((t'.slots l).phase = .firstToken)) :
      Answered cfg _ (.startPrefillLane l id) state (.ok first)
  | threw {t t' : System n} {action : Action n} {e : Exception} {β : Type}
      {q : Executor.Oracle β} {state : Executor.State} {answer : β} (reach : Reachable cfg t)
      (enabled : action.Enabled cfg t) (run : action.run cfg t = .error e t')
      (raised : q.raised answer = some (.std e)) (first : q.firstStep answer = none) :
      Answered cfg β q state answer
  | silent {β : Type} {q : Executor.Oracle β} {state : Executor.State} {answer : β}
      (raised : q.raised answer = none) (first : q.firstStep answer = none) :
      Answered cfg β q state answer

/-- **The program keeps the promises** that the executor relies on. -/
theorem answered_reliable : Executor.Reliable (Answered cfg) := by
  intro β q state answer h
  cases h with
  | started reach enabled run admitted complete =>
    refine ⟨fun e he => ?_, fun id first hfirst plan hplan hnone => ?_⟩
    · cases he
    · obtain ⟨rfl, rfl⟩ := Prod.mk.inj (Option.some.inj hfirst)
      obtain rfl := Option.some.inj (admitted.symm.trans hplan)
      rw [complete, decide_eq_true_eq]
      exact reach.start_complete enabled run hnone
  | threw reach enabled run raised first =>
    refine ⟨fun e he => ?_, fun id step hfirst => ?_⟩
    · obtain rfl := Option.some.inj (raised.symm.trans he)
      rw [reach.inv.error enabled run]
      decide
    · cases first.symm.trans hfirst
  | silent raised first =>
    exact ⟨fun e he => (by cases raised.symm.trans he), fun _ _ h => (by cases first.symm.trans h)⟩

theorem answered_stable (maxOutstanding : Nat) :
    (Answered cfg).Stable (Executor.CallerStep maxOutstanding) := by
  intro β q state state' answer hs h
  cases h with
  | started reach enabled run admitted complete =>
    exact .started reach enabled run (by rw [← hs.job]; exact admitted) complete
  | threw reach enabled run raised first => exact .threw reach enabled run raised first
  | silent raised first => exact .silent raised first

/-- **The executor never loses track of a prefill** over this target. -/
theorem ownership_errors_unreachable (o : Executor.Options) {c : Executor.Config}
    (h : Executor.ReachableIn (Answered cfg) o c) :
    ∀ e ∈ Executor.ownershipErrors, c.1 ≠ .label (.failing e) := by
  intro e he hc
  obtain ⟨w, state⟩ := c
  obtain rfl : w = .label (.failing e) := hc
  have hpre : Executor.boundaryPre (Answered cfg) o (.failing e) state :=
    Executor.reachable_owned (answered_stable _) h
  exact hpre.2 answered_reliable he

end Ninfer.Qwen
