import Ninfer.Executor.Frames

/-!
# Who owns the prefill

Of the requests in the slots at most one has not decoded yet. It is the one that `prefill_lane_`
names, and the transient region is laid out for its plan. Between the action that gives the region
up and the one that empties the slot or makes its request ready, this slot is an exception, a hole
in the assertion; at the boundaries of the worker's loops there is none.

## Main definitions

* `Owned`: the assertion, with its hole
* `Released`: the lane of the hole has given up the prefill
* `ReadyLanes`: what the lanes of a decode round hold
* `Along`: programs that throw no error of ownership

## Main results

* `resolvePrefillStep_owned`, `runPrefillStep_owned`, `runDecodeRound_owned`: the actions keep the
  assertion
-/

namespace Ninfer.Executor

open Prog (readState writeState atomically query attempt forEach mapEach catching)

variable {A : Answers State Oracle} {o : Options} {f : Focus} {s s' s'' : State} {id lane : Nat}
  {hole : Option Nat} {α β : Type}

/-! ## The assertion -/

/-- The slots and the prefill. The lane of the hole may hold a request that is neither ready nor
prefilled. -/
structure Owned (hole : Option Nat) (s : State) : Prop where
  budget : ∀ lane id, s.slots lane = some id → (s.reqs id).job.budget.isSome = true
  staged : ∀ lane id, s.slots lane = some id → (s.reqs id).job.decodeReady = false →
    hole ≠ some lane → s.schedule.prefillLane = some lane
  owner : ∀ lane, s.schedule.prefillLane = some lane →
    ∃ id, s.slots lane = some id ∧ (s.reqs id).job.decodeReady = false
  idle : s.schedule.prefillLane = none → s.schedule.requestMemory = {}
  region : ∀ lane id, s.schedule.prefillLane = some lane → s.slots lane = some id →
    ∃ plan, (s.reqs id).job.admitted = some plan ∧ s.schedule.requestMemory =
      RequestMemory.activate {} plan.transientBytes plan.transientAlignment
  fresh : ∀ id, (s.reqs id).job.decodeReady = true →
    (s.reqs id).done = true ∨ ∃ lane, s.slots lane = some id

theorem owned_init : Owned none {} where
  budget := nofun
  staged := nofun
  owner := nofun
  idle := fun _ => rfl
  region := nofun
  fresh := nofun

/-- What is calm keeps the assertion. -/
theorem Owned.calm (h : Owned hole s) (hc : Calm s s') : Owned hole s' where
  budget := fun lane id hslot => (hc.job id).budget (h.budget lane id (hc.slots ▸ hslot))
  staged := fun lane id hslot hready hne => by
    rw [(hc.job id).decodeReady] at hready
    rw [hc.prefillLane]
    exact h.staged lane id (hc.slots ▸ hslot) hready hne
  owner := fun lane hlane => by
    obtain ⟨id, hslot, hready⟩ := h.owner lane (hc.prefillLane ▸ hlane)
    exact ⟨id, hc.slots ▸ hslot, (hc.job id).decodeReady.trans hready⟩
  idle := fun hnone => hc.requestMemory.trans (h.idle (hc.prefillLane ▸ hnone))
  region := fun lane id hlane hslot => by
    rw [(hc.job id).admitted, hc.requestMemory]
    exact h.region lane id (hc.prefillLane ▸ hlane) (hc.slots ▸ hslot)
  fresh := fun id hready => by
    rw [(hc.job id).decodeReady] at hready
    rw [hc.slots]
    exact (h.fresh id hready).imp_left (hc.done id)

theorem Owned.rely (h : Owned hole s) (hr : Rely o s s') : Owned hole s' := h.calm (calm_of_rely hr)

/-- A hole can be opened. -/
theorem Owned.open (h : Owned none s) (lane : Nat) : Owned (some lane) s :=
  { h with staged := fun l id hslot hready _ => h.staged l id hslot hready nofun }

/-- The hole is none if its lane is the one that is prefilled. -/
theorem Owned.close (h : Owned (some lane) s) (hlane : s.schedule.prefillLane = some lane) :
    Owned none s where
  budget := h.budget
  staged := fun l id hslot hready _ => by
    rcases eq_or_ne lane l with rfl | hne
    · exact hlane
    · exact h.staged l id hslot hready fun he => hne (Option.some.inj he)
  owner := h.owner
  idle := h.idle
  region := h.region
  fresh := h.fresh

/-- When the prefill has no owner and there is no hole, every request in a slot is ready. -/
theorem Owned.ready (h : Owned none s) (hnone : s.schedule.prefillLane = none)
    (hslot : s.slots lane = some id) : (s.reqs id).job.decodeReady = true := by
  by_contra hready
  have hlane := h.staged lane id hslot (by simpa using hready) nofun
  rw [hnone] at hlane
  cases hlane

/-- A request in a slot is ready and has a budget, or it is the one that is prefilled. -/
theorem Owned.slot (h : Owned none s) (hslot : s.slots lane = some id) :
    ((s.reqs id).job.decodeReady = true ∧ (s.reqs id).job.budget.isSome = true) ∨
      s.schedule.prefillLane = some lane := by
  by_cases hready : (s.reqs id).job.decodeReady = true
  · exact Or.inl ⟨hready, h.budget lane id hslot⟩
  · exact Or.inr (h.staged lane id hslot (by simpa using hready) nofun)

/-- The prefill has an owner exactly when one slot is not ready. -/
theorem Owned.prefillLane_iff (h : Owned none s) :
    s.schedule.prefillLane.isSome = true ↔
      ∃! lane, ∃ id, s.slots lane = some id ∧ (s.reqs id).job.decodeReady = false := by
  have hiff : ∀ lane, (∃ id, s.slots lane = some id ∧ (s.reqs id).job.decodeReady = false) ↔
      s.schedule.prefillLane = some lane := fun lane =>
    ⟨fun ⟨id, hslot, hready⟩ => h.staged lane id hslot hready nofun, h.owner lane⟩
  rw [Option.isSome_iff_exists]
  constructor
  · rintro ⟨lane, hlane⟩
    exact ⟨lane, (hiff lane).mpr hlane, fun l hl =>
      Option.some.inj (((hiff l).mp hl).symm.trans hlane)⟩
  · rintro ⟨lane, hlane, -⟩
    exact ⟨lane, (hiff lane).mp hlane⟩

/-- The lane of the hole does not own the prefill. -/
structure Released (lane : Nat) (s : State) : Prop where
  owned : Owned (some lane) s
  free : s.schedule.prefillLane ≠ some lane

theorem Released.calm (h : Released lane s) (hc : Calm s s') : Released lane s' :=
  ⟨h.owned.calm hc, hc.prefillLane ▸ h.free⟩

/-- A lane that holds no prefill is emptied. -/
theorem Released.remove (h : Released lane s)
    (hdone : ∀ id, s.slots lane = some id → (s.reqs id).done = true) :
    Owned none ((s.setSlot lane none).invalidateLanePlans lane) := by
  have hold : ∀ {l i : Nat}, (s.setSlot lane none).slots l = some i → s.slots l = some i :=
    slots_of_cleared
  refine ⟨fun l id hslot => h.owned.budget l id (hold hslot), fun l id hslot hready _ => ?_,
    fun l hlane => ?_, h.owned.idle, fun l id hlane hslot => h.owned.region l id hlane (hold hslot),
    fun id hready => ?_⟩
  · refine h.owned.staged l id (hold hslot) hready fun he => ?_
    obtain rfl := Option.some.inj he
    cases (setSlot_slots_self s lane none).symm.trans hslot
  · obtain ⟨id, hslot, hready⟩ := h.owned.owner l hlane
    have hne : l ≠ lane := fun he => h.free (he ▸ hlane)
    exact ⟨id, (setSlot_slots_of_ne s none hne).trans hslot, hready⟩
  · rcases h.owned.fresh id hready with hd | ⟨l, hslot⟩
    · exact Or.inl hd
    · rcases eq_or_ne l lane with rfl | hne
      · exact Or.inl (hdone id hslot)
      · exact Or.inr ⟨l, (setSlot_slots_of_ne s none hne).trans hslot⟩

/-- The request of a lane that holds no prefill becomes ready. -/
theorem Released.makeReady (h : Released lane s) (hw : Work o f s) (hslot : s.slots lane = some id) :
    Owned none (s.updateJob id fun j => { j with decodeReady := true }) := by
  generalize hs' : (s.updateJob id fun j => { j with decodeReady := true }) = s'
  have hslots : s'.slots = s.slots := by rw [← hs']; rfl
  have hschedule : s'.schedule = s.schedule := by rw [← hs']; rfl
  have hself : s'.reqs id = { s.reqs id with job := { (s.reqs id).job with decodeReady := true } } := by
    rw [← hs']
    exact State.setReq_reqs_self ..
  have hne : ∀ i, i ≠ id → s'.reqs i = s.reqs i := fun i hi => by
    rw [← hs']
    exact State.setReq_reqs_of_ne _ _ _ hi
  -- No other lane holds this request.
  have hother : ∀ {l i : Nat}, s.slots l = some i → l ≠ lane → i ≠ id := by
    intro l i hl hl' hi
    rw [hi] at hl
    exact hl' (Option.some.inj ((hw.lanes l id hl).2.symm.trans (hw.lanes lane id hslot).2))
  refine ⟨fun l i hl => ?_, fun l i hl hready _ => ?_, fun l hl => ?_, fun hnone => ?_,
    fun l i hlane hl => ?_, fun i hready => ?_⟩
  · rw [hslots] at hl
    rcases eq_or_ne i id with rfl | hi
    · rw [hself]
      exact h.owned.budget l i hl
    · rw [hne i hi]
      exact h.owned.budget l i hl
  · rw [hslots] at hl
    have hi : i ≠ id := by
      rintro rfl
      rw [hself] at hready
      cases hready
    rw [hne i hi] at hready
    rw [hschedule]
    refine h.owned.staged l i hl hready fun he => hi ?_
    obtain rfl := Option.some.inj he
    exact Option.some.inj (hl.symm.trans hslot)
  · rw [hschedule] at hl
    obtain ⟨i, hi, hready⟩ := h.owned.owner l hl
    refine ⟨i, hslots ▸ hi, ?_⟩
    rw [hne i (hother hi fun he => h.free (he ▸ hl))]
    exact hready
  · rw [hschedule] at hnone ⊢
    exact h.owned.idle hnone
  · rw [hschedule] at hlane ⊢
    rw [hslots] at hl
    rw [hne i (hother hl fun he => h.free (he ▸ hlane))]
    exact h.owned.region l i hlane hl
  · rw [hslots]
    rcases eq_or_ne i id with rfl | hi
    · exact Or.inr ⟨lane, hslot⟩
    · rw [hne i hi] at hready ⊢
      exact h.owned.fresh i hready

/-! ## Programs that throw no error of ownership -/

/-- A program of the worker among the callers, with the answers of a contract. What it throws is
excused. -/
abbrev Along (A : Answers State Oracle) (o : Options) (p : Worker α) (Q : α → State → Prop)
    (s : State) : Prop :=
  p.WpIn A (Rely o) (fun _ _ => True) Q (fun e _ => Excused A e) s

/-- A calm program keeps what it specifies, and is calm from the start to the end. -/
theorem Spec.calm {p : Worker α} {Q : α → State → Prop} {X : Failure → State → Prop}
    (h : Spec o p Q X s) (hp : IsCalm A p) : Along A o p (fun a s' => Q a s' ∧ Calm s s') s := by
  have hfree : p.WpIn A (Rely o) (fun _ _ => True) Q X s :=
    h.contract (fun _ => trivial) fun _ => trivial
  exact (hfree.and_always Calm.refl Calm.trans calm_of_rely hp).mono (fun _ _ h => h)
    fun _ _ h => h.2.1

/-- Two specifications of one program. -/
theorem Spec.along {p : Worker α} {Q Q' : α → State → Prop} {X : Failure → State → Prop}
    (h : Spec o p Q X s) (h' : Along A o p Q' s) : Along A o p (fun a s' => Q a s' ∧ Q' a s') s := by
  have hfree : p.WpIn A (Rely o) (fun _ _ => True) Q X s :=
    h.contract (fun _ => trivial) fun _ => trivial
  exact (hfree.and h').mono (fun _ _ h => h) fun _ _ h => h.2

theorem along_read {g : State → α} {k : α → Worker β} {Q : β → State → Prop}
    {X : Failure → State → Prop}
    (h : ∀ s', Rely o s s' → (k (g s')).WpIn A (Rely o) (fun _ _ => True) Q X s') :
    (readState g >>= k).WpIn A (Rely o) (fun _ _ => True) Q X s :=
  fun s' hr => ⟨trivial, h s' hr⟩

theorem along_query {q : Oracle α} {k : α → Worker β} {Q : β → State → Prop}
    (h : ∀ a, Along A o (k a) Q s) : Along A o (query q >>= k) Q s :=
  fun a _ => h a

theorem along_grows {p : Worker α} {Q : α → State → Prop} (h : Along A o p Q s)
    (hp : IsGrowing A p) : Along A o p (fun a s' => Q a s' ∧ Grows s s') s :=
  (h.and_always Grows.refl Grows.trans (fun hr => (calm_of_rely hr).grows) hp).mono
    (fun _ _ h => h) fun _ _ h => h.1

theorem along_calm {p : Worker α} {Q : α → State → Prop} (h : Along A o p Q s) (hp : IsCalm A p) :
    Along A o p (fun a s' => Q a s' ∧ Calm s s') s :=
  (h.and_always Calm.refl Calm.trans calm_of_rely hp).mono (fun _ _ h => h) fun _ _ h => h.1

/-- A unit has been counted, and all else is calm. -/
structure Counted (s s' : State) : Prop where
  calm : Calm s { s' with schedule := { s'.schedule with gpuUnits := s.schedule.gpuUnits } }
  unit : s.schedule.gpuUnits < s'.schedule.gpuUnits

theorem Owned.counted (h : Owned hole s) (hc : Counted s s') : Owned hole s' :=
  { h.calm hc.calm with }

theorem raised_excused {q : Oracle (Except Failure α)} (hq : ∀ e, q.raised (.error e) = some e)
    {e : Failure} (h : A _ q s (.error e)) : Excused A e :=
  fun hA => (hA _ q s _ h).1 e (hq e)

/-- A call of the target on the GPU is counted, and answered as the contract says. -/
theorem gpuUnit_counted {q : Oracle (Except Failure α)} (hq : ∀ e, q.raised (.error e) = some e) :
    Along A o (gpuUnit q) (fun a s' => A _ q s' (.ok a) ∧ Counted s s') s := by
  refine Prog.wp_seq (Q := fun _ => Counted s) (Prog.wp_writeState fun s₁ hrely => ?_) fun _ s₁ hc => ?_
  · have hc := calm_of_rely hrely
    exact ⟨trivial, { hc with gpuUnits := rfl }, Nat.lt_succ_of_le hc.gpuUnits.ge⟩
  · exact Prog.wp_attempt (fun _ h => ⟨h, hc⟩) fun _ h => raised_excused hq h

/-! ## The end of a prefill -/

theorem clearPrefillLane_owned (h : Owned (some lane) s) :
    Along A o (clearPrefillLane lane) (fun _ => Released lane) s := by
  refine Prog.wp_writeState fun s₁ hrely => ⟨trivial, ?_⟩
  have h := h.rely hrely
  split
  next hlane =>
    refine ⟨⟨h.budget, fun l id hslot hready hne => ?_, nofun, fun _ => rfl, nofun, h.fresh⟩, nofun⟩
    exact absurd (hlane.symm.trans (h.staged l id hslot hready hne)) hne
  next hlane => exact ⟨h, hlane⟩

/-- The lane gives up the prefill, and the slots stay. -/
theorem clearPrefillLane_released (hw : Work o f s) (h : Owned (some lane) s) :
    Along A o (clearPrefillLane lane)
      (fun _ s' => (Work o f s' ∧ s'.slots = s.slots) ∧ Released lane s') s := by
  have hspec : Spec o (clearPrefillLane lane) (fun _ s' => Work o f s' ∧ s'.slots = s.slots)
      (fun _ _ => True) s :=
    (clearPrefillLane_spec hw).mono (fun _ _ h => ⟨h.1, h.2.slots⟩) fun _ _ h => h
  exact Spec.along hspec (clearPrefillLane_owned h)

theorem removeCompletedSlot_owned (h : Released lane s)
    (hdone : ∀ id, s.slots lane = some id → (s.reqs id).done = true) :
    Along A o (removeCompletedSlot lane) (fun _ => Owned none) s := by
  refine Prog.wp_writeState fun s₁ hrely => ⟨trivial, ?_⟩
  have hc := calm_of_rely hrely
  refine (h.calm hc).remove fun id hslot => hc.done id (hdone id ?_)
  rw [← hc.slots, hslot]

/-- The end of a request that is cancelled in its slot. -/
theorem cancelSlot_owned (hw : Work o {} s) (hslot : s.slots lane = some id) (h : Released lane s) :
    Along A o (completeCancelled id >>= fun _ => removeCompletedSlot lane)
      (fun _ s' => Owned none s' ∧ Grows s s' ∧ (s'.reqs id).done = true) s := by
  refine Prog.wp_seq ((completeCancelled_spec hw (held_of_slot hslot)).calm completeCancelled_calm)
    fun _ s₁ h₁ => ?_
  refine (along_grows (removeCompletedSlot_owned (h.calm h₁.2) fun i hi => ?_)
    (removeCompletedSlot_growing lane)).mono
    (fun _ _ h' => ⟨h'.1, h₁.2.grows.trans h'.2, h'.2.done id h₁.1.done⟩) fun _ _ h => h
  rw [h₁.2.slots, hslot] at hi
  rw [← Option.some.inj hi]
  exact h₁.1.done

/-- **`resolve_prefill_step` closes the hole**, whether the prefill is cancelled, complete or goes
on. -/
theorem resolvePrefillStep_owned (hw : Work o {} s) (hslot : s.slots lane = some id)
    (h : Owned (some lane) s) {step : PrefillStepResult}
    (hstep : step.complete = false → s.schedule.prefillLane = some lane) (cancelAtBoundary : Bool) :
    Along A o (resolvePrefillStep id step cancelAtBoundary) (fun _ => Owned none) s := by
  refine Prog.wp_seq ((consumeServiceWork_spec hw rfl (held_of_slot hslot) 1).calm
    (consumeServiceWork_calm 1)) fun _ s₁ h₁ => along_read fun s₂ hrely => ?_
  have hrest := (h₁.1.rely hrely).rests
  have hc := h₁.2.trans (calm_of_rely hrely)
  have h := h.calm hc
  rw [(hrest.work.lanes lane id (hrest.slot hslot)).2]
  refine Prog.wp_ite (fun _ => ?_) fun _ => Prog.wp_ite (fun _ => ?_) fun hpart => ?_
  · refine Prog.wp_seq (clearPrefillLane_released hrest.work h) fun _ s₃ h₃ =>
      along_query fun _ => ?_
    exact (cancelSlot_owned h₃.1.1 (h₃.1.2 ▸ hrest.slot hslot) h₃.2).mono (fun _ _ h => h.1)
      fun _ _ h => h
  · refine Prog.wp_seq (clearPrefillLane_released hrest.work h) fun _ s₃ h₃ => ?_
    obtain ⟨⟨hw₃, hslots₃⟩, hrel⟩ := h₃
    have hslot₃ : s₃.slots lane = some id := hslots₃ ▸ hrest.slot hslot
    split
    · refine Prog.wp_seq ((resolveRound_spec hw₃ hslot₃ _ false).calm (resolveRound_calm _ false))
        fun finished s₄ h₄ => ?_
      obtain ⟨hdone, hc₄⟩ := h₄
      have hslot₄ : s₄.slots lane = some id := hc₄.slots ▸ hslot₃
      cases finished with
      | true =>
        have hdone : Completed o [] id s₃ s₄ := hdone
        refine removeCompletedSlot_owned (hrel.calm hc₄) fun i hi => ?_
        rw [← Option.some.inj (hslot₄.symm.trans hi)]
        exact hdone.done
      | false =>
        have hk : Keeps o {} id s₃ s₄ := hdone
        refine Prog.wp_ite nofun fun _ => Prog.wp_writeState fun s₅ hrely => ⟨trivial, ?_⟩
        have hc₅ := calm_of_rely hrely
        exact ((hrel.calm hc₄).calm hc₅).makeReady (hk.work.rely hrely) (hc₅.slots ▸ hslot₄)
    · exact excused (by decide)
  · exact h.close (hc.prefillLane.trans (hstep (by simpa using hpart)))

/-- **A prefill step keeps the assertion**, and finds the prefill it is due. -/
theorem runPrefillStep_owned (hw : Work o {} s) (h : Owned none s)
    (hsome : s.schedule.prefillLane.isSome = true) :
    Along A o runPrefillStep
      (fun _ s' => Owned none s' ∧ s.schedule.gpuUnits < s'.schedule.gpuUnits) s := by
  refine along_read fun s₁ hrely => ?_
  have hc₁ := calm_of_rely hrely
  have hw := hw.rely hrely
  have h := h.calm hc₁
  rw [← hc₁.prefillLane] at hsome
  split
  next hnone =>
    rw [hnone] at hsome
    cases hsome
  next lane hlane =>
  refine along_read fun s₂ hrely => ?_
  have hc₂ := calm_of_rely hrely
  have hw := hw.rely hrely
  have h := h.calm hc₂
  have hlane₂ := hc₂.prefillLane.trans hlane
  obtain ⟨id, hslot, hready⟩ := h.owner lane hlane₂
  split
  next hnone => cases hnone.symm.trans hslot
  next i hi =>
  obtain rfl := Option.some.inj (hi.symm.trans hslot)
  refine along_read fun s₃ hrely => ?_
  have hrest := hw.rests.rely hrely
  have hc := calm_of_rely hrely
  have h := h.calm hc
  refine Prog.wp_ite (fun hr => ?_) fun _ => ?_
  · rw [(hc.job i).decodeReady, hready] at hr
    cases hr
  refine Prog.wp_seq ((gpuUnit_spec _ hrest.work).along (gpuUnit_counted fun _ => rfl))
    fun step s₄ h₄ => along_read fun s₅ hrely => ?_
  obtain ⟨hrest₄, -, hcount⟩ := h₄
  have hrest := (hrest.trans hrest₄).rely hrely
  have hc₅ := calm_of_rely hrely
  have hlane₅ := hc₅.prefillLane.trans (hcount.calm.prefillLane.trans (hc.prefillLane.trans hlane₂))
  refine (along_grows (resolvePrefillStep_owned hrest.work (hrest.slot hi)
    (((h.counted hcount).calm hc₅).open lane) (fun _ => hlane₅) _)
    (resolvePrefillStep_growing step _)).mono (fun _ s' h => ⟨h.1, ?_⟩) fun _ _ h => h
  calc s.schedule.gpuUnits = s₃.schedule.gpuUnits := ((hc₁.trans hc₂).trans hc).gpuUnits.symm
    _ < s₄.schedule.gpuUnits := hcount.unit
    _ ≤ s'.schedule.gpuUnits := (hc₅.grows.trans h.2).gpuUnits

/-- **Cancelling the active requests keeps the assertion.** It has completed one, or it is calm. -/
theorem cancelActiveRequests_owned (hw : Work o {} s) (h : Owned none s) (n : Nat)
    (cancelledAtBoundary : List Nat) :
    Along A o (cancelActiveRequests n cancelledAtBoundary)
      (fun _ s' => Owned none s' ∧ Grows s s' ∧ (Progressed s s' ∨ Calm s s')) s := by
  refine Prog.WpIn.mono (Prog.wp_forEach (I := fun _ s' => Work o {} s' ∧ Owned none s' ∧
    Grows s s' ∧ (Progressed s s' ∨ Calm s s')) (fun lane _ s₁ h => ?_)
    ⟨hw, h, .refl s, Or.inr (.refl s)⟩) (fun _ _ h => h.2) fun _ _ h => h
  obtain ⟨hw, h, hall, hsince⟩ := h
  refine along_read fun s₂ hrely => ?_
  have hc := calm_of_rely hrely
  have hw := hw.rely hrely
  have h := h.calm hc
  have hall := hall.trans hc.grows
  have hsince : Progressed s s₂ ∨ Calm s s₂ := hsince.imp (·.grows hc.grows) (·.trans hc)
  split
  · exact ⟨hw, h, hall, hsince⟩
  next id hslot =>
  refine Prog.wp_ite (fun _ => along_query fun _ => ?_) fun _ => ⟨hw, h, hall, hsince⟩
  refine Prog.wp_seq (along_grows (clearPrefillLane_released hw (h.open lane))
    (clearPrefillLane_growing lane)) fun _ s₃ h₃ => ?_
  obtain ⟨⟨⟨hw₃, hslots₃⟩, hrel⟩, hgrows⟩ := h₃
  have hslot₃ : s₃.slots lane = some id := hslots₃ ▸ hslot
  refine ((cancelSlot_spec hw₃ hslot₃).along (cancelSlot_owned hw₃ hslot₃ hrel)).mono
    (fun _ s₄ h₄ => ?_) fun _ _ h => h
  obtain ⟨hw₄, h, hgrows', hdone⟩ := h₄
  have hopen := (hw₃.held rfl (held_of_slot hslot₃)).2
  have hstep : Progressed s s₄ := (hall.trans hgrows).progressed (Or.inr ⟨id, hopen, hdone⟩)
  exact ⟨hw₄, h, (hall.trans hgrows).trans hgrows', Or.inl hstep⟩

/-! ## Decode rounds -/

/-- The lanes hold ready requests, or nothing. -/
def ReadyLanes (lanes : List Nat) (s : State) : Prop :=
  ∀ lane ∈ lanes, ∀ id, s.slots lane = some id → (s.reqs id).job.decodeReady = true

theorem ReadyLanes.calm {lanes : List Nat} (h : ReadyLanes lanes s) (hc : Calm s s') :
    ReadyLanes lanes s' := fun lane hmem id hslot => by
  rw [(hc.job id).decodeReady]
  exact h lane hmem id (hc.slots ▸ hslot)

theorem ReadyLanes.counted {lanes : List Nat} (h : ReadyLanes lanes s) (hc : Counted s s') :
    ReadyLanes lanes s' := fun lane hmem id hslot => by
  rw [(hc.calm.job id).decodeReady]
  exact h lane hmem id (hc.calm.slots ▸ hslot)

/-- A lane with a ready request does not own the prefill. -/
theorem Owned.released (h : Owned none s) {lanes : List Nat} (hlanes : ReadyLanes lanes s)
    (hmem : lane ∈ lanes) : Released lane s := by
  refine ⟨h.open lane, fun hlane => ?_⟩
  obtain ⟨id, hslot, hready⟩ := h.owner lane hlane
  rw [hlanes lane hmem id hslot] at hready
  cases hready

/-- The members of the next round, before their budgets are looked at. -/
def roundMembers (s : State) (n : Nat) : List (Nat × Option GenerationBudget) :=
  (List.range n).filterMap fun lane =>
    match s.slots lane with
    | none => none
    | some id => if (s.reqs id).job.decodeReady then some (lane, (s.reqs id).job.budget) else none

theorem mem_roundMembers {n : Nat} {m : Nat × Option GenerationBudget} :
    m ∈ roundMembers s n ↔ m.1 < n ∧ ∃ id, s.slots m.1 = some id ∧
      (s.reqs id).job.decodeReady = true ∧ (s.reqs id).job.budget = m.2 := by
  obtain ⟨lane, budget⟩ := m
  rw [roundMembers, List.mem_filterMap]
  constructor
  · rintro ⟨l, hl, hsome⟩
    split at hsome
    · cases hsome
    next id hslot =>
      split_ifs at hsome with hready
      obtain ⟨rfl, rfl⟩ := Prod.mk.inj (Option.some.inj hsome)
      exact ⟨List.mem_range.mp hl, id, hslot, hready, rfl⟩
  · rintro ⟨hl, id, hslot, hready, rfl⟩
    refine ⟨lane, List.mem_range.mpr hl, ?_⟩
    simp only at hslot
    simp [hslot, hready]

/-- **Every request that decodes has a budget**, and the members of a round are ready. Without an
owner of the prefill, every request in a slot is a member. -/
theorem buildRoundMembership_owned (h : Owned none s) (n : Nat) :
    Along A o (buildRoundMembership n)
      (fun membership s' => Calm s s' ∧ ReadyLanes (membership.map (·.1)) s' ∧
        ∀ lane < n, ∀ id, s'.slots lane = some id → (s'.reqs id).job.decodeReady = true →
          membership ≠ []) s := by
  refine along_read fun s₁ hrely => ?_
  have h := h.rely hrely
  refine Prog.wp_ite (fun hnone => ?_) fun _ => ⟨calm_of_rely hrely, fun lane hlane => ?_, ?_⟩
  · obtain ⟨m, hm, hbudget⟩ := List.any_eq_true.mp hnone
    obtain ⟨-, id, hslot, -, heq⟩ := mem_roundMembers.mp hm
    rw [← heq, Option.isNone_iff_eq_none] at hbudget
    have hsome := h.budget m.1 id hslot
    rw [hbudget] at hsome
    cases hsome
  · intro id hslot
    rw [List.map_map] at hlane
    obtain ⟨m, hm, rfl⟩ := List.mem_map.mp hlane
    obtain ⟨-, i, hi, hready, -⟩ := mem_roundMembers.mp hm
    rwa [Option.some.inj (hslot.symm.trans hi)]
  · intro lane hl id hslot hready hempty
    have hmem : (lane, (s₁.reqs id).job.budget) ∈ roundMembers s₁ n :=
      mem_roundMembers.mpr ⟨hl, id, hslot, hready, rfl⟩
    have hnil : roundMembers s₁ n = [] := List.map_eq_nil_iff.mp hempty
    rw [hnil] at hmem
    cases hmem

/-- The decision about a row is for its lane. -/
theorem decideRow_lane (round : BatchedGeneratedRound) (row : Nat × Nat × Bool) (s : State) :
    Along A o (decideRow round row) (fun decision _ => decision.lane = row.2.1) s := by
  obtain ⟨index, lane, cancelled⟩ := row
  refine along_read fun s₁ _ => ?_
  split
  · trivial
  refine Prog.wp_ite (fun _ => excused (by decide)) fun _ => Prog.wp_ite (fun _ => ?_) fun _ => ?_
  · exact Prog.wp_seq ((previewTerminal_calm _).wpIn s₁) fun _ _ _ => rfl
  refine along_read fun s₂ _ => ?_
  split
  · trivial
  refine Prog.wp_seq ((preview_calm _ _ _).wpIn s₂) fun decision s₃ _ => ?_
  exact Prog.wp_ite (fun _ => excused (by decide)) fun _ => rfl

/-- The commit of one row of a round. -/
theorem commitRow_owned (hw : Work o {} s) (h : Owned none s) {lanes : List Nat}
    (hlanes : ReadyLanes lanes s) {row : RowDecision} (hmem : row.lane ∈ lanes) :
    Along A o (commitRow row) (fun _ s' => Owned none s' ∧ ReadyLanes lanes s') s := by
  refine along_read fun s₁ hrely => ?_
  have hc := calm_of_rely hrely
  have hw := hw.rely hrely
  have h := h.calm hc
  have hlanes := hlanes.calm hc
  split
  · trivial
  next id hslot =>
  have hh : Held {} s₁ id := held_of_slot hslot
  refine Prog.wp_seq ((advanceRow_spec hw hh row).calm (advanceRow_calm row)) fun _ s₂ h₂ => ?_
  refine Prog.wp_seq ((commitPreview_spec (X := fun _ _ => True) h₂.1.work rfl (h₂.1.held hh)).calm
    commitPreview_calm) fun output s₃ h₃ => ?_
  have hk₃ := h₂.1.trans h₃.1
  refine Prog.wp_seq ((appendOutput_spec (X := fun _ _ => True) hk₃.work (hk₃.held hh) output).calm
    (appendOutput_calm output)) fun _ s₄ h₄ => ?_
  have hk₄ := hk₃.trans h₄.1
  have hc₄ := (h₂.2.trans h₃.2).trans h₄.2
  refine Prog.wp_ite (fun _ => ?_) fun _ => ⟨h.calm hc₄, hlanes.calm hc₄⟩
  refine Prog.wp_seq ((completeSuccess_spec (X := fun _ _ => True) hk₄.work (hk₄.held hh)
    row.reason).calm (completeSuccess_calm row.reason)) fun _ s₅ h₅ => ?_
  have hc₅ := hc₄.trans h₅.2
  refine Prog.wp_writeState fun s₆ hrely => ⟨trivial, ?_, ?_⟩
  · have hc₆ := hc₅.trans (calm_of_rely hrely)
    refine ((h.calm hc₆).released (hlanes.calm hc₆) hmem).remove fun i hi => ?_
    rw [hc₆.slots, hslot] at hi
    rw [← Option.some.inj hi]
    exact (h₅.1.rely hrely).done
  · exact fun l hl i hi => hlanes.calm (hc₅.trans (calm_of_rely hrely)) l hl i (slots_of_cleared hi)

/-- **A decode round keeps the assertion.** -/
theorem runDecodeRound_owned (hw : Work o {} s) (h : Owned none s) {membership : List (Nat × Nat)}
    (hlanes : ReadyLanes (membership.map (·.1)) s) :
    Along A o (runDecodeRound membership)
      (fun _ s' => Owned none s' ∧ s.schedule.gpuUnits < s'.schedule.gpuUnits) s := by
  refine Prog.wp_seq ((gpuUnit_spec _ hw).along (gpuUnit_counted fun _ => rfl)) fun round s₁ h₁ => ?_
  obtain ⟨hrest, -, hcount⟩ := h₁
  have hcount' : ReadyLanes (membership.map (·.1)) s₁ := hlanes.counted hcount
  generalize membership.map (·.1) = lanes at hcount'
  have hloads : Spec o (mapEach lanes loadCancelled) (fun _ => Work o {}) (fun _ => Work o {}) s₁ := by
    refine Prog.wp_mapEach (fun lane s hw => read_seq hw fun s' hrely => ?_) hrest.work
    split
    · trivial
    · exact hw.rely hrely
  refine Prog.wp_seq (hloads.calm (Prog.always_mapEach loadCancelled_calm lanes)) fun cancelled s₂ h₂ =>
    Prog.wp_ite (fun _ => excused (by decide)) fun _ => ?_
  have hrows : Spec o (mapEach ((List.range lanes.length).zip (lanes.zip cancelled)) (decideRow round))
      (fun _ => Work o {}) (fun _ => Work o {}) s₂ :=
    Prog.wp_mapEach (fun row s hw => decideRow_spec hw round row) h₂.1
  have hnamed : Along A o (mapEach ((List.range lanes.length).zip (lanes.zip cancelled))
      (decideRow round)) (fun rows _ => True ∧ ∀ row ∈ rows, row.lane ∈ lanes) s₂ := by
    refine Prog.wp_mapEach_forall (I := fun _ => True) (fun row hmem s _ => ?_) trivial
    refine (decideRow_lane round row s).mono (fun decision _ hlane => ⟨trivial, ?_⟩) fun _ _ h => h
    rw [hlane]
    exact (List.of_mem_zip (List.of_mem_zip hmem).2).1
  refine Prog.wp_seq (((hrows.calm (Prog.always_mapEach (decideRow_calm round) _)).and hnamed).mono
    (fun _ _ h => h) fun _ _ h => h.1) fun rows s₃ h₃ => ?_
  obtain ⟨⟨hw₃, hc₃⟩, -, hnames⟩ := h₃
  have hc := h₂.2.trans hc₃
  refine (Prog.wp_bind _ _ _).mpr (Prog.wp_attempt (fun _ _ => ?_) fun _ he =>
    raised_excused (fun _ => rfl) he)
  refine (along_grows (Prog.WpIn.mono (Prog.wp_forEach (I := fun rows s => Work o {} s ∧
    (Owned none s ∧ ReadyLanes lanes s) ∧ ∀ row ∈ rows, row.lane ∈ lanes) (fun row rows s h => ?_)
    ⟨hw₃, ⟨(h.counted hcount).calm hc, hcount'.calm hc⟩, hnames⟩) (fun _ _ h => h.2.1.1)
    fun _ _ h => h) (Prog.always_forEach commitRow_growing rows)).mono (fun _ s' h => ⟨h.1, ?_⟩)
    fun _ _ h => h
  swap
  · calc s.schedule.gpuUnits < s₁.schedule.gpuUnits := hcount.unit
      _ ≤ s'.schedule.gpuUnits := (hc.grows.trans h.2).gpuUnits
  obtain ⟨hw, ⟨h, hlanes⟩, hnames⟩ := h
  obtain ⟨hrow, hrows⟩ := List.forall_mem_cons.mp hnames
  exact ((commitRow_spec hw row).along (commitRow_owned hw h hlanes hrow)).mono
    (fun _ _ h => ⟨h.1, h.2, hrows⟩) fun _ _ h => h

end Ninfer.Executor
