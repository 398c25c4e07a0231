import Ninfer.Executor.Ownership

/-!
# The prefill is handed over

An admission begins when the prefill has no owner. If the plan of the request needs a prefill, its
lane becomes the owner together with its region; if not, the target must be done with the first
step. An exception in between leaves through the handler, and ends the engine.

## Main definitions

* `Staged`: the lane of an admission owns the prefill, or its plan needs none
* `ownedPre`: what holds at a label of the worker

## Main results

* `admitPlannedRequest_owned`, `tryAdmitOnce_owned`: admission keeps the assertion
-/

namespace Ninfer.Executor

open Prog (readState writeState atomically query attempt forEach mapEach catching)

variable {A : Answers State Oracle} {o : Options} {f : Focus} {s s' : State} {id lane : Nat}

/-! ## Admission of one request -/

/-- The lane of an admission owns the prefill, or its plan needs none. -/
def Staged (id lane : Nat) (s : State) : Prop :=
  s.schedule.prefillLane = some lane ∨
    ∃ plan, (s.reqs id).job.admitted = some plan ∧ ¬plan.NeedsPrefill

theorem Staged.counted (h : Staged id lane s) (hc : Counted s s') : Staged id lane s' := by
  rcases h with h | ⟨plan, hplan, hneeds⟩
  · exact Or.inl (hc.calm.prefillLane.trans h)
  · exact Or.inr ⟨plan, (hc.calm.job id).admitted.trans hplan, hneeds⟩

/-- A request that is open and in no slot has not decoded. -/
theorem Owned.not_ready {hole : Option Nat} (h : Owned hole s) (hd : (s.reqs id).done = false)
    (hout : ∀ lane, s.slots lane ≠ some id) : (s.reqs id).job.decodeReady = false := by
  by_contra hready
  rcases h.fresh id (by simpa using hready) with hd' | ⟨lane, hslot⟩
  · rw [hd] at hd'
    cases hd'
  · exact hout lane hslot

/-- A request goes into a free slot, which is the hole then. -/
theorem Owned.occupy (h : Owned none s) (hnone : s.schedule.prefillLane = none)
    (hfree : s.slots lane = none) (hd : (s.reqs id).done = false)
    (hout : ∀ lane, s.slots lane ≠ some id) {g : Job → Job}
    (hbudget : ∀ j, (g j).budget.isSome = true) :
    Owned (some lane) (((s.updateJob id g).setSlot lane (some id)).invalidateLanePlans lane) := by
  generalize hs' : ((s.updateJob id g).setSlot lane (some id)).invalidateLanePlans lane = s'
  have hslot : s'.slots lane = some id := by
    rw [← hs']
    exact setSlot_slots_self ..
  have hslots : ∀ l, l ≠ lane → s'.slots l = s.slots l := fun l hl => by
    rw [← hs']
    exact setSlot_slots_of_ne (s.updateJob id g) (some id) hl
  have hself : s'.reqs id = { s.reqs id with job := g (s.reqs id).job } := by
    rw [← hs']
    exact State.setReq_reqs_self ..
  have hne : ∀ i, i ≠ id → s'.reqs i = s.reqs i := fun i hi => by
    rw [← hs']
    exact State.setReq_reqs_of_ne _ _ _ hi
  have hlane : s'.schedule.prefillLane = none := by rw [← hs', ← hnone]; rfl
  have hmemory : s'.schedule.requestMemory = s.schedule.requestMemory := by rw [← hs']; rfl
  -- A slot holds the new request, or what it held.
  have hcases : ∀ {l i : Nat}, s'.slots l = some i → l = lane ∧ i = id ∨
      i ≠ id ∧ s.slots l = some i := by
    intro l i hl
    rcases eq_or_ne l lane with rfl | hne
    · exact Or.inl ⟨rfl, Option.some.inj (hl.symm.trans hslot)⟩
    · rw [hslots l hne] at hl
      refine Or.inr ⟨?_, hl⟩
      rintro rfl
      exact hout l hl
  refine ⟨fun l i hl => ?_, fun l i hl hr hhole => ?_, fun l hl => ?_, fun _ => ?_,
    fun l _ hl => ?_, fun i hr => ?_⟩
  · rcases hcases hl with ⟨rfl, rfl⟩ | ⟨hi, hl⟩
    · rw [hself]
      exact hbudget _
    · rw [hne i hi]
      exact h.budget l i hl
  · rcases hcases hl with ⟨rfl, rfl⟩ | ⟨hi, hl⟩
    · exact absurd rfl hhole
    · rw [hne i hi, h.ready hnone hl] at hr
      cases hr
  · rw [hlane] at hl
    cases hl
  · rw [hmemory]
    exact h.idle hnone
  · rw [hlane] at hl
    cases hl
  · rcases eq_or_ne i id with rfl | hi
    · exact Or.inr ⟨lane, hslot⟩
    · rw [hne i hi] at hr ⊢
      refine (h.fresh i hr).imp_right fun ⟨l, hl⟩ => ⟨l, ?_⟩
      rw [hslots l fun he => ?_]
      · exact hl
      · rw [he, hfree] at hl
        cases hl

/-- The lane in the hole becomes the owner of the prefill, with the region of its plan. -/
theorem Owned.stage (h : Owned (some lane) s) (hslot : s.slots lane = some id)
    (hready : (s.reqs id).job.decodeReady = false) {plan : RequestPlanSummary}
    (hplan : (s.reqs id).job.admitted = some plan) (hnone : s.schedule.prefillLane = none) :
    Owned none { s with schedule := { s.schedule with
      requestMemory := s.schedule.requestMemory.activate plan.transientBytes plan.transientAlignment
      prefillLane := some lane } } where
  budget := h.budget
  staged := fun l i hl hr _ => by
    rcases eq_or_ne lane l with rfl | hne
    · rfl
    · have hlane := h.staged l i hl hr fun he => hne (Option.some.inj he)
      rw [hnone] at hlane
      cases hlane
  owner := fun l hl => by
    obtain rfl := Option.some.inj hl
    exact ⟨id, hslot, hready⟩
  idle := nofun
  region := fun l i hl hi => by
    obtain rfl := Option.some.inj hl
    obtain rfl := Option.some.inj (hslot.symm.trans hi)
    exact ⟨plan, hplan, rfl⟩
  fresh := h.fresh

/-- A request in the worker's hands goes into a free slot, and takes over the prefill if its plan
needs one. -/
theorem occupyLane_owned (hw : Work o { hand := [id] } s) (h : Owned none s)
    (hnone : s.schedule.prefillLane = none) (hfree : s.slots lane = none)
    (backfillClass : BackfillClass) (backfillEpoch : Nat) (summary : RequestPlanSummary) :
    Along A o (occupyLane id lane backfillClass backfillEpoch summary)
      (fun _ s' => Owned (some lane) s' ∧ Staged id lane s') s := by
  refine Prog.wp_ite (fun _ => trivial) fun _ => ?_
  refine Prog.wp_seq (Q := fun _ s' => Owned (some lane) s' ∧ s'.slots lane = some id ∧
    (s'.reqs id).job.decodeReady = false ∧ (s'.reqs id).job.admitted = some summary ∧
      s'.schedule.prefillLane = none) (Prog.wp_writeState fun s₁ hrely => ⟨trivial, ?_⟩)
    fun _ s₂ h₂ => ?_
  · have hc := calm_of_rely hrely
    have hw := hw.rely hrely
    have h := h.calm hc
    have hd := (hw.held rfl (Or.inl List.mem_cons_self)).2
    -- The request is in the worker's hands, hence in no slot.
    have hout : ∀ lane, s₁.slots lane ≠ some id := by
      intro lane hslot
      have hle := hw.places_le id
      have hpos := slotCount_pos (hw.lanes lane id hslot).1 hslot
      simp only [places, count_cons_ite, if_true] at hle
      omega
    have hnone₁ := hc.prefillLane.trans hnone
    have hfree₁ : s₁.slots lane = none := by rw [hc.slots, hfree]
    refine ⟨?_, setSlot_slots_self .., ?_, ?_, hnone₁⟩
    · exact h.occupy hnone₁ hfree₁ hd hout fun _ => rfl
    · refine (congrArg (·.job.decodeReady) (State.setReq_reqs_self ..)).trans ?_
      exact h.not_ready hd hout
    · exact congrArg (·.job.admitted) (State.setReq_reqs_self ..)
  obtain ⟨h, hslot, hready, hplan, hnone⟩ := h₂
  refine Prog.wp_ite (fun _ => ?_) fun hneeds => ⟨h, Or.inr ⟨summary, hplan, hneeds⟩⟩
  refine (Prog.wp_bind _ _ _).mpr (Prog.wp_attempt (fun _ _ => ?_) fun _ he =>
    raised_excused (fun _ => rfl) he)
  refine Prog.wp_writeState fun s₃ hrely => ⟨trivial, ?_, Or.inl rfl⟩
  have hc := calm_of_rely hrely
  refine ((h.calm hc).stage (hc.slots ▸ hslot) ?_ ?_ (hc.prefillLane.trans hnone)).open lane
  · rw [(hc.job id).decodeReady, hready]
  · rw [(hc.job id).admitted, hplan]

/-- The target starts a request that owns the prefill, or has nothing to prefill. -/
theorem startTarget_owned (hw : Work o {} s) (hslot : s.slots lane = some id)
    (h : Owned (some lane) s) (hstaged : Staged id lane s) :
    Along A o (startTarget id lane)
      (fun _ s' => Owned none s' ∧ s.schedule.gpuUnits < s'.schedule.gpuUnits) s := by
  refine Prog.wp_seq ((gpuUnit_spec _ hw).along (gpuUnit_counted fun _ => rfl)) fun first s₁ h₁ => ?_
  obtain ⟨hrest, hanswer, hcount⟩ := h₁
  have h := h.counted hcount
  have hstaged := hstaged.counted hcount
  refine along_read fun s₂ hrely => ?_
  have hc := calm_of_rely hrely
  refine Prog.wp_ite (fun hlost => ?_) fun hkept => along_read fun s₃ hrely₃ => ?_
  · -- A target that keeps its promises is done when there is nothing to prefill.
    intro hA
    rcases hstaged with hlane | ⟨plan, hplan, hneeds⟩
    · exact absurd (hc.prefillLane.trans hlane) hlost.2
    · have hcomplete := (hA _ _ _ _ hanswer).2 id first rfl plan hplan hneeds
      rw [hlost.1] at hcomplete
      cases hcomplete
  · have hrest := (hrest.rely hrely).rely hrely₃
    have hc₃ := calm_of_rely hrely₃
    have hlane : first.complete = false → s₃.schedule.prefillLane = some lane := fun hpart => by
      rw [hc₃.prefillLane]
      by_contra hne
      exact hkept ⟨hpart, hne⟩
    refine (along_grows (resolvePrefillStep_owned hrest.work (hrest.slot hslot) ((h.calm hc).calm hc₃)
      hlane _) (resolvePrefillStep_growing first _)).mono (fun _ s' h => ⟨h.1, ?_⟩) fun _ _ h => h
    calc s.schedule.gpuUnits < s₁.schedule.gpuUnits := hcount.unit
      _ ≤ s'.schedule.gpuUnits := ((hc.trans hc₃).grows.trans h.2).gpuUnits

/-- The handler of `admit_planned_request` rethrows what it is given. -/
theorem abandonAdmission_excused (targetStarted : Bool) {e : Failure} (he : Excused A e)
    {Q : Unit → State → Prop} : Along A o (abandonAdmission id lane targetStarted e) Q s := by
  refine Prog.wp_seq (Q := fun _ _ => True) (Prog.wp_ite (fun _ _ _ => trivial) fun _ => trivial)
    fun _ s₁ _ => ?_
  refine Prog.wp_seq (Q := fun _ _ => True) (Prog.wp_writeState fun _ _ => ⟨trivial, trivial⟩)
    fun _ s₂ _ => ?_
  refine Prog.wp_seq (Q := fun _ _ => True) (Prog.wp_writeState fun _ _ => ⟨trivial, trivial⟩)
    fun _ s₃ _ => ?_
  exact Prog.wp_seq ((completeError_calm e).wpIn s₃) fun _ _ _ => he

/-- What an admission leaves: it has run a unit on the GPU, or all is calm. -/
structure Admitted (ran : Prop) (s₀ s : State) : Prop where
  owned : Owned none s
  calm : ¬ran → Calm s₀ s
  unit : ran → s₀.schedule.gpuUnits < s.schedule.gpuUnits

theorem Owned.admitted (h : Owned none s) (hc : Calm s s') {ran : Prop} (hran : ¬ran) :
    Admitted ran s s' :=
  ⟨h.calm hc, fun _ => hc, fun hr => absurd hr hran⟩

theorem Admitted.after {ran : Prop} {s₁ : State} (hc : Calm s s₁) (h : Admitted ran s₁ s') :
    Admitted ran s s' :=
  ⟨h.owned, fun hr => hc.trans (h.calm hr), fun hr => hc.grows.gpuUnits.trans_lt (h.unit hr)⟩

/-- A queued request leaves the queue with an error. -/
theorem removePendingError_admitted {s₁ : State} (h : Owned none s) (hc : Calm s s₁)
    (error : Failure) :
    Along A o (removePendingError id error)
      (fun progress => Admitted (progress = .ranGpuUnit) s) s₁ := by
  have hkind : Along A o (removePendingError id error) (fun progress _ => progress ≠ .ranGpuUnit) s₁ := by
    refine Prog.wp_seq (erasePending_calm.wpIn s₁) fun _ s₂ _ => Prog.wp_ite (fun _ => ?_) nofun
    refine Prog.wp_seq (clearProtectionIfHead_calm.wpIn s₂) fun _ s₃ _ => ?_
    exact Prog.wp_seq ((completeError_calm error).wpIn s₃) fun _ _ _ => nofun
  exact (along_calm hkind (removePendingError_calm error)).mono
    (fun _ _ h' => h.admitted (hc.trans h'.2) h'.1) fun _ _ h => h

/-- A queued request leaves the queue as cancelled. -/
theorem removePendingCancelled_admitted {s₁ : State} (h : Owned none s) (hc : Calm s s₁)
    (isCandidate : Bool) :
    Along A o (removePendingCancelled id isCandidate)
      (fun progress => Admitted (progress = .ranGpuUnit) s) s₁ := by
  have hkind : Along A o (removePendingCancelled id isCandidate)
      (fun progress _ => progress ≠ .ranGpuUnit) s₁ := by
    refine Prog.wp_seq (erasePending_calm.wpIn s₁) fun _ s₂ _ => Prog.wp_ite (fun _ => ?_) nofun
    refine Prog.wp_ite (fun _ => ?_) fun _ => ?_
    · exact Prog.wp_seq (completeCancelled_calm.wpIn s₂) fun _ _ _ => nofun
    · refine Prog.wp_seq (clearProtectionIfHead_calm.wpIn s₂) fun _ s₃ _ => ?_
      exact Prog.wp_seq (completeCancelled_calm.wpIn s₃) fun _ _ _ => nofun
  exact (along_calm hkind (removePendingCancelled_calm isCandidate)).mono
    (fun _ _ h' => h.admitted (hc.trans h'.2) h'.1) fun _ _ h => h

/-- **The admission of a request keeps the assertion.** -/
theorem admitPlannedRequest_owned (hw : Work o {} s) (ha : (s.reqs id).phase = .accepted)
    {choice : LaneChoice} {backfillClass : BackfillClass} {backfillEpoch : Nat}
    (hadm : Admissible o id choice backfillClass backfillEpoch s) (h : Owned none s)
    (hnone : s.schedule.prefillLane = none) (n : Nat) :
    Along A o (admitPlannedRequest n id choice backfillClass backfillEpoch)
      (fun progress => Admitted (progress = .ranGpuUnit) s) s := by
  refine along_query fun late => Prog.wp_ite (fun _ => ?_) fun _ => along_read fun s₁ hrely => ?_
  · exact removePendingError_admitted h (.refl s) _
  have hwait := hw.waits.rely hrely
  have hc := calm_of_rely hrely
  refine Prog.wp_ite (fun _ => ?_) fun _ => along_read fun s₂ hrely => ?_
  · exact removePendingCancelled_admitted h hc false
  have hwait := hwait.rely hrely
  have hc := hc.trans (calm_of_rely hrely)
  split
  · exact excused (by decide)
  next summary hplan =>
  have hcredit := hadm.credit summary (by rw [← hwait.job]; exact hplan)
  refine Prog.wp_seq ((makeFeasible_spec (X := fun _ _ => True) hwait.work n choice).calm
    (makeFeasible_calm n choice)) fun feasible s₃ h₃ =>
    Prog.wp_ite (fun _ => excused (by decide)) fun _ => ?_
  obtain ⟨hwait₃, hc₃⟩ := h₃
  have hplans := writePlan_spec (X := fun _ _ => True) hwait₃.work
    (hwait₃.accepted id (hwait.accepted id ha))
    (g := fun _ j => { j with lanePlans := Function.update j.lanePlans choice.lane none })
    fun _ _ => ⟨rfl, rfl⟩
  refine Prog.wp_seq (hplans.calm (calm_writeJob fun _ _ => ⟨rfl, fun h => h, rfl⟩)) fun _ s₄ h₄ => ?_
  obtain ⟨hk, hc₄⟩ := h₄
  refine Prog.wp_seq ((erasePending_spec (X := fun _ _ => True) hk.work).calm erasePending_calm)
    fun erased s₅ h₅ => ?_
  obtain ⟨he, hc₅⟩ := h₅
  have hc := hc.trans (hc₃.trans (hc₄.trans hc₅))
  cases erased with
  | false => exact Prog.wp_ite nofun fun _ => h.admitted hc nofun
  | true =>
    refine Prog.wp_ite (fun _ => ?_) nofun
    have hw₅ := (he.taken rfl).1
    refine Prog.wp_seq ((releasePlanningState_spec (X := fun _ _ => True) hw₅ rfl
      (Or.inl List.mem_cons_self)).calm releasePlanningState_calm) fun _ s₆ h₆ => ?_
    obtain ⟨hk₆, hc₆⟩ := h₆
    have hc := hc.trans hc₆
    have hprot : s₆.schedule.protection = s.schedule.protection := by
      rw [hk₆.touches.schedule, he.quiet.schedule, hk.touches.schedule, hwait₃.protection,
        hwait.protection]
    refine Prog.wp_seq ((spendTemporalCredit_spec (X := fun _ _ => True) hk₆.work
      (hcredit.keep hprot)).calm
      (spendTemporalCredit_calm _ _ _)) fun _ s₇ h₇ => ?_
    refine Prog.wp_seq ((clearProtectionIfHead_spec (X := fun _ _ => True) h₇.1.1).calm
      clearProtectionIfHead_calm) fun _ s₈ h₈ => ?_
    have hc := hc.trans (h₇.2.trans h₈.2)
    -- Nothing since the choice of the lane has touched the slots.
    have hfree : Free o s₈ choice := ⟨hadm.free.1, by rw [hc.slots]; exact hadm.free.2⟩
    have hoccupy := (occupyLane_spec h₈.1.1 hfree backfillClass backfillEpoch summary).along
      (occupyLane_owned (A := A) h₈.1.1 (h.calm hc) (hc.prefillLane.trans hnone) hfree.2 backfillClass
        backfillEpoch summary)
    refine Prog.wp_seq ((Prog.wp_handle _ _ _).mpr ((along_grows hoccupy (occupyLane_growing _ _ _
      _)).mono (fun _ _ h => h) fun e s' he => abandonAdmission_excused false he)) fun _ s₉ h₉ => ?_
    obtain ⟨⟨⟨hw₉, hslot₉⟩, hown, hstaged⟩, hgrows⟩ := h₉
    refine Prog.wp_seq ((Prog.wp_handle _ _ _).mpr ((startTarget_owned hw₉ hslot₉ hown hstaged).mono
      (fun _ _ h => h) fun e s' he => abandonAdmission_excused true he)) fun _ s' h => ?_
    exact ⟨h.1, fun hne => absurd rfl hne, fun _ => (hc.grows.trans hgrows).gpuUnits.trans_lt h.2⟩

/-! ## One turn of `try_admit_one` -/

/-- The loop over the candidates behind a protected head. -/
theorem backfill_owned {active : List ActiveAdmissionSnapshot} {frontierDistance : Nat} :
    ∀ {candidates : List Nat} {control : Bool} {s : State}, Work o {} s →
      (∀ c ∈ candidates, (s.reqs c).phase = .accepted) → Owned none s →
      s.schedule.prefillLane = none →
      Along A o (backfill o active frontierDistance candidates control)
        (fun progress => Admitted (progress = .ranGpuUnit) s) s := by
  intro candidates
  induction candidates with
  | nil =>
    intro control s _ _ h _
    exact h.admitted (.refl s) (by cases control <;> rintro ⟨⟩)
  | cons candidate rest ih =>
    intro control s hw hacc h hnone
    have ha := hacc candidate List.mem_cons_self
    have hrec : ∀ {control : Bool} {s₁ : State}, Work o {} s₁ → StayAccepted s s₁ → Calm s s₁ →
        Along A o (backfill o active frontierDistance rest control)
          (fun progress => Admitted (progress = .ranGpuUnit) s) s₁ := fun hw₁ hstay hc =>
      (ih hw₁ (fun c hmem => hstay c (hacc c (List.mem_cons_of_mem _ hmem))) (h.calm hc)
        (hc.prefillLane.trans hnone)).mono (fun _ _ h' => h'.after hc) fun _ _ h => h
    refine Prog.wp_seq ((Spec.stayAccepted hw (examine_spec (X := fun _ _ => True) hw ha true)).calm
      (examine_calm o true)) fun examined s₁ h₁ => ?_
    obtain ⟨⟨⟨hrest, hfree⟩, hstay⟩, hc⟩ := h₁
    split
    · exact hrec hrest.work hstay hc
    · exact hrec hrest.work hstay hc
    next base choice =>
    refine along_read fun s₂ hrely => ?_
    have hrest₂ := hrest.rely hrely
    have hstay₂ : StayAccepted s s₂ := hstay.rely hrest.work.inv hrely
    have hfree₂ : Free o s₂ choice := (hfree base choice rfl).rely hrely
    have hc₂ := hc.trans (calm_of_rely hrely)
    have hadmit : ∀ {backfillClass : BackfillClass} {epoch : Nat},
        Admissible o candidate choice backfillClass epoch s₂ →
        Along A o (admitPlannedRequest o.maxConcurrency candidate choice backfillClass epoch)
          (fun progress => Admitted (progress = .ranGpuUnit) s) s₂ := fun hadm =>
      (admitPlannedRequest_owned hrest₂.work (hstay₂ _ ha) hadm (h.calm hc₂)
        (hc₂.prefillLane.trans hnone) _).mono (fun _ _ h' => h'.after hc₂) fun _ _ h => h
    split
    next plan protection hseen =>
      obtain ⟨hplan, hprot⟩ := Prod.mk.inj hseen
      refine Prog.wp_ite (fun _ => ?_) fun _ => Prog.wp_ite (fun hcredit => ?_) fun _ => ?_
      · exact hadmit ⟨hfree₂, fun _ _ => (by rintro ⟨⟩)⟩
      · exact hadmit (.temporal hfree₂ hplan hprot hcredit.2)
      · exact hrec hrest₂.work hstay₂ hc₂
    · trivial

/-- **One turn of `try_admit_one` keeps the assertion.** -/
theorem tryAdmitOnce_owned (hw : Work o {} s) (h : Owned none s)
    (hnone : s.schedule.prefillLane = none) (control : Bool) :
    Along A o (tryAdmitOnce o control)
      (fun next => Admitted (next = AdmitNext.finished .ranGpuUnit) s) s := by
  have settle : ∀ {s' : State}, Calm s s' →
      Admitted (AdmitNext.finished (.ofControl control) = .finished .ranGpuUnit) s s' := fun hc =>
    h.admitted hc (by cases control <;> nofun)
  -- The result of an admission is that of the turn.
  have finish : ∀ {p : Worker AdmissionProgress} {s₁ : State}, Calm s s₁ →
      Along A o p (fun progress => Admitted (progress = .ranGpuUnit) s₁) s₁ →
      Along A o (p >>= fun progress => pure (AdmitNext.finished progress))
        (fun next => Admitted (next = AdmitNext.finished .ranGpuUnit) s) s₁ := fun hc hp =>
    Prog.wp_seq hp fun progress s' h' => by
      have h' := h'.after hc
      exact ⟨h'.owned, fun hne => h'.calm fun he => hne (congrArg AdmitNext.finished he),
        fun he => h'.unit (AdmitNext.finished.inj he)⟩
  refine along_read fun s₁ hrely => ?_
  have hw := hw.rely hrely
  have hc := calm_of_rely hrely
  split
  · refine Prog.wp_seq (Q := fun _ => Calm s) (Prog.wp_writeState fun s₂ hrely => ⟨trivial, ?_⟩)
      fun _ _ hc => settle hc
    exact (hc.trans (calm_of_rely hrely)).trans (calm_schedule rfl rfl rfl)
  next head rest hqueue =>
  have hacc : ∀ c ∈ head :: rest, (s₁.reqs c).phase = .accepted := fun c hmem =>
    (hw.pending rfl (hqueue ▸ hmem)).1
  refine Prog.wp_seq (Spec.calm (Spec.stayAccepted (X := fun _ _ => True) (Q := fun _ => Work o {}) hw
    (schedule_spec hw (fun s => ?_) fun _ _ _ hw _ => hw)) (Prog.always_writeState fun s => ?_))
    fun _ s₂ h₂ => ?_
  · split
    · exact ⟨_, rfl⟩
    · split_ifs
      · exact ⟨_, rfl⟩
      · exact ⟨_, rfl⟩
  · split
    · exact .refl s
    · split
      · exact calm_schedule rfl rfl rfl
      · exact .refl s
  obtain ⟨⟨hw₂, hstay₂⟩, hc₂⟩ := h₂
  have hc := hc.trans hc₂
  have hhead := hstay₂ head (hacc head List.mem_cons_self)
  refine Prog.wp_seq ((Spec.stayAccepted hw₂ (examine_spec (X := fun _ _ => True) hw₂ hhead
    false)).calm (examine_calm o false)) fun examined s₃ h₃ => ?_
  obtain ⟨⟨⟨hrest, hfree⟩, hstay₃⟩, hc₃⟩ := h₃
  have hc := hc.trans hc₃
  split
  · exact h.admitted hc nofun
  next base choice =>
    have hadm : Admissible o head choice .none 0 s₃ := ⟨hfree base choice rfl, fun _ _ => nofun⟩
    exact finish hc (admitPlannedRequest_owned hrest.work (hstay₃ head hhead) hadm (h.calm hc)
      (hc.prefillLane.trans hnone) _)
  next base =>
  refine Prog.wp_seq ((Spec.stayAccepted hrest.work (activeAdmissionSet_spec hrest.work _)).calm
    (activeAdmissionSet_calm _)) fun active s₄ h₄ =>
    Prog.wp_ite (fun _ => excused (by decide)) fun _ => ?_
  obtain ⟨⟨hw₄, hstay₄⟩, hc₄⟩ := h₄
  refine Prog.wp_seq ((Spec.stayAccepted hw₄ (protectHead_spec hw₄ head base active)).calm
    (protectHead_calm o head base active)) fun protection s₅ h₅ => ?_
  obtain ⟨⟨hw₅, hstay₅⟩, hc₅⟩ := h₅
  have hc := hc.trans (hc₄.trans hc₅)
  refine Prog.wp_ite (fun _ => settle hc) fun _ => ?_
  refine finish hc (backfill_owned hw₅ (fun c hmem => ?_) (h.calm hc) (hc.prefillLane.trans hnone))
  exact hstay₅ c (hstay₄ c (hstay₃ c (hstay₂ c (hacc c (List.mem_cons_of_mem _ hmem)))))

/-! ## The blocks -/

/-- What holds at a label of the worker. -/
def ownedPre (A : Answers State Oracle) : Label → State → Prop
  | .top _, s => Owned none s
  | .admitting _ membership _, s =>
    Owned none s ∧ s.schedule.prefillLane = none ∧ ReadyLanes (membership.map (·.1)) s
  | .failing e, _ => Excused A e
  | .returned, _ => True

/-- What has happened since `s₀` at a label of the worker, when a slot was occupied then. -/
def progressPre (s₀ : State) : Label → State → Prop
  | .top _, s => Progressed s₀ s
  | .admitting _ membership _, s => Grows s₀ s ∧ (membership = [] → Progressed s₀ s)
  | .failing _, _ => True
  | .returned, _ => True

/-- What is left of an iteration leads on, with the members of its round. -/
def Leads (A : Answers State Oracle) (membership : List (Nat × Nat)) (s : State) (l : Label)
    (s' : State) : Prop :=
  ownedPre A l s' ∧
    ∀ s₀, Grows s₀ s → (membership = [] → Progressed s₀ s) → progressPre s₀ l s'

theorem Leads.after {membership : List (Nat × Nat)} {s₁ : State} {l : Label} (hc : Calm s s₁)
    (h : Leads A membership s₁ l s') : Leads A membership s l s' :=
  ⟨h.1, fun s₀ hg hp => h.2 s₀ (hg.trans hc.grows) fun he => (hp he).grows hc.grows⟩

theorem decodeOrIdle_owned (hw : Work o {} s) (h : Owned none s) {membership : List (Nat × Nat)}
    (hlanes : ReadyLanes (membership.map (·.1)) s) (previousUnitWasDecode : Bool) :
    Along A o (decodeOrIdle previousUnitWasDecode membership) (Leads A membership s) s :=
  Prog.wp_ite (fun hnone => ⟨h, fun _ _ hp => hp (List.isEmpty_iff.mp hnone)⟩) fun _ =>
    Prog.wp_seq (runDecodeRound_owned hw h hlanes) fun _ _ h =>
      ⟨h.1, fun _ hg _ => Or.inl (hg.gpuUnits.trans_lt h.2)⟩

/-- A slot is occupied. -/
def Occupied (s : State) : Prop := ∃ lane id, s.slots lane = some id

theorem Occupied.calm (h : Occupied s) (hc : Calm s s') : Occupied s' := by
  obtain ⟨lane, id, hslot⟩ := h
  exact ⟨lane, id, hc.slots ▸ hslot⟩

theorem iteration_owned (hw : Work o {} s) (h : Owned none s) (previousUnitWasDecode : Bool) :
    Along A o (iteration o previousUnitWasDecode)
      (fun l s' => ownedPre A l s' ∧ (Occupied s → progressPre s l s')) s := by
  refine Prog.wp_seq ((expirePendingRequests_spec (X := fun _ _ => True) hw).calm
    expirePendingRequests_calm) fun havePending s₁ h₁ => along_read fun s₂ hrely => ?_
  have hw := h₁.1.rely hrely
  have hc₂ := h₁.2.trans (calm_of_rely hrely)
  refine Prog.wp_seq ((cancelActiveRequests_spec hw _ _).along
    (cancelActiveRequests_owned hw (h.calm hc₂) _ _)) fun _ s₃ h₃ => ?_
  obtain ⟨hw, h, hgrows, hsince⟩ := h₃
  refine Prog.wp_seq ((buildRoundMembership_spec hw _).along (buildRoundMembership_owned h _))
    fun membership s₄ h₄ => along_read fun s₅ hrely => ?_
  obtain ⟨hw, hc₄, hlanes, hmember⟩ := h₄
  have hc₅ := hc₄.trans (calm_of_rely hrely)
  have hw₅ := hw.rely hrely
  have h₅ := h.calm hc₅
  have hlanes₅ := hlanes.calm (calm_of_rely hrely)
  have hall : Grows s s₅ := hc₂.grows.trans (hgrows.trans hc₅.grows)
  -- A request has been completed, or a slot is still occupied.
  have hnext : Occupied s → Progressed s s₅ ∨ Occupied s₄ := fun hocc => by
    rcases hsince with hp | hc₃
    · exact Or.inl (hc₂.grows.progressed (hp.grows hc₅.grows))
    · exact Or.inr (hocc.calm ((hc₂.trans hc₃).trans hc₄))
  refine Prog.wp_ite (fun hsome => Prog.wp_ite (fun _ => ?_) fun _ => ?_) fun hnone => ?_
  · exact Prog.wp_seq (runDecodeRound_owned hw₅ h₅ hlanes₅) fun _ _ h =>
      ⟨h.1, fun _ => Or.inl (hall.gpuUnits.trans_lt h.2)⟩
  · exact Prog.wp_seq (runPrefillStep_owned hw₅ h₅ hsome) fun _ _ h =>
      ⟨h.1, fun _ => Or.inl (hall.gpuUnits.trans_lt h.2)⟩
  have hnone₅ : s₅.schedule.prefillLane = none := by simpa using hnone
  -- Without an owner of the prefill, every occupied slot is a member of the round.
  have hidle : Occupied s → membership = [] → Progressed s s₅ := fun hocc hempty => by
    rcases hnext hocc with hp | ⟨lane, id, hslot⟩
    · exact hp
    · have hnone₄ : s₄.schedule.prefillLane = none := by
        rw [← hnone₅, (calm_of_rely hrely).prefillLane]
      exact absurd hempty (hmember lane (hw.lanes lane id hslot).1 id hslot
        ((h.calm hc₄).ready hnone₄ hslot))
  refine Prog.wp_ite (fun _ => ⟨⟨h₅, hnone₅, hlanes₅⟩, fun hocc => ⟨hall, hidle hocc⟩⟩) fun _ => ?_
  exact (decodeOrIdle_owned hw₅ h₅ hlanes₅ _).mono
    (fun _ _ h => ⟨h.1, fun hocc => h.2 s hall (hidle hocc)⟩) fun _ _ h => h

theorem admission_owned (hw : Work o {} s) (h : Owned none s)
    (hnone : s.schedule.prefillLane = none) {membership : List (Nat × Nat)}
    (hlanes : ReadyLanes (membership.map (·.1)) s) (previousUnitWasDecode control : Bool) :
    Along A o (admission o previousUnitWasDecode membership control) (Leads A membership s) s := by
  refine Prog.wp_seq ((tryAdmitOnce_spec hw control).along (tryAdmitOnce_owned hw h hnone control))
    fun next s₁ h₁ => ?_
  obtain ⟨hw₁, h₁⟩ := h₁
  split
  · have hc := h₁.calm nofun
    exact ⟨⟨h₁.owned, hc.prefillLane.trans hnone, hlanes.calm hc⟩, fun s₀ hg hp =>
      ⟨hg.trans hc.grows, fun he => (hp he).grows hc.grows⟩⟩
  · exact ⟨h₁.owned, fun s₀ hg _ => Or.inl (hg.gpuUnits.trans_lt (h₁.unit rfl))⟩
  next progress hne =>
  have hc := h₁.calm fun he => hne (AdmitNext.finished.inj he)
  refine Prog.wp_ite (fun hidle => ⟨h₁.owned, fun s₀ _ hp => (hp hidle.2).grows hc.grows⟩) fun _ => ?_
  exact (decodeOrIdle_owned hw₁ h₁.owned (hlanes.calm hc) _).mono (fun _ _ h => h.after hc)
    fun _ _ h => h

end Ninfer.Executor
