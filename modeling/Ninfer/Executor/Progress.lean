import Ninfer.Executor.Handover

/-!
# The worker makes progress

An iteration that begins with an occupied slot runs a unit on the GPU, completes a request, or ends
the engine; and the loop of `try_admit_one` goes around only when a request has left the queue. The
errors of an executor that has lost track of a prefill are never thrown.

## Main definitions

* `ReachableIn`: the runs in which the target keeps a contract
* `Passes`: the worker goes from a label to another one

## Main results

* `tryAdmitOnce_progress`: a turn that is to be repeated has completed a request
* `reachable_owned`: the assertion holds at every boundary
* `prefill_ownership`: who owns the prefill at a boundary, and that the worker does not spin
-/

namespace Ninfer.Executor

open Prog (readState writeState atomically query attempt forEach mapEach catching)

variable {A : Answers State Oracle} {o : Options} {s s' : State} {id lane : Nat}

/-! ## Turns of `try_admit_one` -/

/-- A request that is open, and in no slot. -/
structure Queued (o : Options) (id : Nat) (s : State) : Prop where
  work : Work o {} s
  accepted : (s.reqs id).phase = .accepted
  out : ∀ lane, s.slots lane ≠ some id

theorem Queued.rely (h : Queued o id s) (hr : Rely o s s') : Queued o id s' where
  work := h.work.rely hr
  accepted := (stayAccepted_of_rely h.work.inv hr).2 id h.accepted
  out := fun lane => by
    rw [(quiet_of_rely hr).slots]
    exact h.out lane

/-- It is done, or still in the queue. -/
theorem Queued.mem_pending (h : Queued o id s) : (s.reqs id).done = true ∨ id ∈ s.pending := by
  by_contra hn
  obtain ⟨hd, hmem⟩ := not_or.mp hn
  have hone := h.work.placed id ⟨h.accepted, Or.inl (by simpa using hd)⟩
  have hslots : slotCount o.maxConcurrency s id = 0 :=
    Finset.sum_eq_zero fun lane _ => if_neg (h.out lane)
  rw [places, List.count_eq_zero.mpr hmem, hslots] at hone
  cases hone

theorem Queued.rests (h : Queued o id s) (hrest : Rests o s s') (hstay : StayAccepted s s') :
    Queued o id s' :=
  ⟨hrest.work, hstay id h.accepted, fun lane => by rw [hrest.slots]; exact h.out lane⟩

/-- `erase_pending` takes the request, or it is done. -/
theorem erasePending_queued (h : Queued o id s) :
    Along A o (erasePending id) (fun erased s' =>
      ((erased = true → Work o { hand := [id] } s' ∧ (s'.reqs id).job.output = {}) ∧
        (erased = false → (s'.reqs id).done = true)) ∧ Calm s s') s := by
  have hout : Along A o (erasePending id) (fun erased s' => erased = false → (s'.reqs id).done = true)
      s := by
    refine Prog.wp_atomically fun s₁ hrely => ⟨trivial, ?_⟩
    have hmem := (h.rely hrely).mem_pending
    split_ifs with hin
    · exact nofun
    · exact fun _ => hmem.resolve_right hin
  have hspec := (erasePending_spec (X := fun _ _ => True) h.work).along hout
  exact (along_calm hspec erasePending_calm).mono
    (fun _ _ h' => ⟨⟨h'.1.1.taken, h'.1.2⟩, h'.2⟩) fun _ _ h => h

/-- A request in the worker's hands is completed with an error. -/
theorem failHand_done (hw : Work o { hand := [id] } s) (error : Failure) :
    Along A o (completeError id error >>= fun _ => pure AdmissionProgress.controlProgress)
      (fun _ s' => (s'.reqs id).done = true) s :=
  Prog.wp_seq ((completeError_spec (X := fun _ _ => True) hw (Or.inl List.mem_cons_self) error).calm
    (completeError_calm error)) fun _ _ h => h.1.done

/-- A request in the worker's hands is cancelled. -/
theorem cancelHand_done (hw : Work o { hand := [id] } s) :
    Along A o (completeCancelled id >>= fun _ => pure AdmissionProgress.controlProgress)
      (fun _ s' => (s'.reqs id).done = true) s :=
  Prog.wp_seq ((completeCancelled_spec hw (Or.inl List.mem_cons_self)).calm completeCancelled_calm)
    fun _ _ h => h.1.done

/-- A queued request that is removed with an error is completed. -/
theorem removePendingError_done (h : Queued o id s) (error : Failure) :
    Along A o (removePendingError id error) (fun _ s' => (s'.reqs id).done = true) s := by
  refine Prog.wp_seq (erasePending_queued h) fun erased s₁ h₁ => ?_
  obtain ⟨⟨htaken, habsent⟩, -⟩ := h₁
  refine Prog.wp_ite (fun he => ?_) fun he => habsent (by simpa using he)
  refine Prog.wp_seq ((clearProtectionIfHead_spec (X := fun _ _ => True) (htaken he).1).calm
    clearProtectionIfHead_calm) fun _ s₂ h₂ => ?_
  exact failHand_done h₂.1.1 error

/-- A queued request that is removed as cancelled is completed. -/
theorem removePendingCancelled_done (h : Queued o id s) (isCandidate : Bool) :
    Along A o (removePendingCancelled id isCandidate) (fun _ s' => (s'.reqs id).done = true) s := by
  refine Prog.wp_seq (erasePending_queued h) fun erased s₁ h₁ => ?_
  obtain ⟨⟨htaken, habsent⟩, -⟩ := h₁
  refine Prog.wp_ite (fun he => Prog.wp_ite (fun _ => ?_) fun _ => ?_)
    fun he => habsent (by simpa using he)
  · exact cancelHand_done (htaken he).1
  · refine Prog.wp_seq ((clearProtectionIfHead_spec (X := fun _ _ => True) (htaken he).1).calm
      clearProtectionIfHead_calm) fun _ s₂ h₂ => ?_
    exact cancelHand_done h₂.1.1

/-- A request that the checks of `try_admit_one` remove is completed. -/
theorem examine_done (h : Queued o id s) (isCandidate : Bool) :
    Along A o (examine o id isCandidate)
      (fun examined s' => (∃ progress, examined = .removed progress) → (s'.reqs id).done = true) s := by
  have removed : ∀ {s₁ : State} (e : Failure), Queued o id s₁ →
      Along A o (removePendingError id e >>= fun _ => pure (Examined.removed .controlProgress))
        (fun examined s' => (∃ progress, examined = .removed progress) → (s'.reqs id).done = true) s₁ :=
    fun e h₁ => Prog.wp_seq (removePendingError_done h₁ e) fun _ _ hd => fun _ => hd
  refine along_read fun s₁ hrely => ?_
  have h := h.rely hrely
  refine Prog.wp_ite (fun _ => ?_) fun _ => along_query fun late =>
    Prog.wp_ite (fun _ => removed _ h) fun _ => ?_
  · exact Prog.wp_seq (removePendingCancelled_done h isCandidate) fun _ _ hd => fun _ => hd
  have hbase : Spec o (catching (ensureBasePlan id)) (fun _ s' => Rests o s₁ s' ∧ StayAccepted s₁ s')
      (fun _ _ => True) s₁ :=
    Spec.stayAccepted h.work ((Prog.wp_catching _ _).mpr (ensureBasePlan_spec h.work h.accepted))
  refine Prog.wp_seq (hbase.calm (Prog.always_catching ensureBasePlan_calm)) fun base s₂ h₂ => ?_
  have h := h.rests h₂.1.1 h₂.1.2
  split
  · exact removed _ h
  refine Prog.wp_ite (fun _ => ?_) fun _ => removed _ h
  have hlane : Spec o (catching (findAdmissionLane o.maxConcurrency id))
      (fun _ s' => Rests o s₂ s' ∧ StayAccepted s₂ s') (fun _ _ => True) s₂ :=
    Spec.stayAccepted h.work ((Prog.wp_catching _ _).mpr ((findAdmissionLane_spec h.work
      h.accepted).mono (fun _ _ h => h.1) fun _ _ h => h))
  refine Prog.wp_seq (hlane.calm (Prog.always_catching (findAdmissionLane_calm _))) fun lane s₃ h₃ => ?_
  split
  · exact removed _ (h.rests h₃.1.1 h₃.1.2)
  · rintro ⟨_, he⟩
    cases he

/-- **A turn of `try_admit_one` that is to be repeated has completed a request.** -/
theorem tryAdmitOnce_progress (hw : Work o {} s) (control : Bool) :
    (tryAdmitOnce o control).WpIn A (Rely o) (fun _ _ => True)
      (fun next s' => (∃ control', next = .again control') → Progressed s s') (fun _ _ => True) s := by
  -- Every other turn is the last one.
  have last : ∀ (p : Worker AdmissionProgress) (s₁ : State),
      (p >>= fun progress => pure (AdmitNext.finished progress)).WpIn A (Rely o) (fun _ _ => True)
        (fun next s' => (∃ control', next = .again control') → Progressed s s') (fun _ _ => True) s₁ :=
    fun p s₁ => Prog.wp_seq (Prog.wp_true p s₁) fun _ _ _ => nofun
  refine along_read fun s₁ hrely => ?_
  have hw := hw.rely hrely
  split
  · exact Prog.wp_seq (Prog.wp_true _ s₁) fun _ _ _ => nofun
  next head rest hqueue =>
  have hmem : head ∈ s₁.pending := by
    rw [hqueue]
    exact List.mem_cons_self
  obtain ⟨hacc, hopen⟩ := hw.pending rfl hmem
  rw [(quiet_of_rely hrely).done] at hopen
  have hout : ∀ lane, s₁.slots lane ≠ some head := fun lane hslot =>
    hw.held_not_pending (held_of_slot hslot) hmem
  have hqueued : ∀ {s₂ : State}, Rely o s₁ s₂ → Queued o head s₂ := fun hrely =>
    (⟨hw, hacc, hout⟩ : Queued o head s₁).rely hrely
  refine Prog.wp_seq (Q := fun _ => Queued o head) (Prog.wp_writeState fun s₂ hrely =>
    ⟨trivial, ?_⟩) fun _ s₂ h₂ => ?_
  · have hq := hqueued hrely
    split
    · exact hq
    · split_ifs
      · exact ⟨{ hq.work with inv := { hq.work.inv with } }, hq.accepted, hq.out⟩
      · exact hq
  refine Prog.wp_seq ((examine_done h₂ false).mono (fun _ _ h => h) fun _ _ _ => trivial)
    fun examined s₃ h₃ => ?_
  split
  · exact fun _ => Or.inr ⟨head, hopen, h₃ ⟨_, rfl⟩⟩
  · exact last _ s₃
  · refine Prog.wp_seq (Prog.wp_true _ s₃) fun active s₄ _ => Prog.wp_ite (fun _ => trivial) fun _ => ?_
    refine Prog.wp_seq (Prog.wp_true _ s₄) fun protection s₅ _ => Prog.wp_ite (fun _ => nofun) fun _ => ?_
    exact last _ s₅

/-- The loop of `try_admit_one` is at its boundary. -/
def Label.Admitting : Label → Prop
  | .admitting .. => True
  | _ => False

/-- An admission that goes around has completed a request. -/
theorem admission_progress (hw : Work o {} s) (previousUnitWasDecode : Bool)
    (membership : List (Nat × Nat)) (control : Bool) :
    (admission o previousUnitWasDecode membership control).WpIn A (Rely o) (fun _ _ => True)
      (fun l s' => l.Admitting → Progressed s s') (fun _ _ => True) s := by
  refine Prog.wp_seq (tryAdmitOnce_progress hw control) fun next s₁ h => ?_
  split
  · exact fun _ => h ⟨_, rfl⟩
  · exact nofun
  · refine Prog.wp_ite (fun _ => nofun) fun _ => Prog.wp_ite (fun _ => nofun) fun _ => ?_
    exact Prog.wp_seq (Prog.wp_true _ s₁) fun _ _ _ => nofun

/-! ## Blocks -/

/-- The worker is at the top of its loop. -/
def Label.Top : Label → Prop
  | .top _ => True
  | _ => False

/-- What a block does from a boundary of the worker's loops: at the next one the assertion holds
again, and there is progress. -/
structure BlockProgress (A : Answers State Oracle) (l : Label) (s : State) (l' : Label)
    (s' : State) : Prop where
  owned : ownedPre A l' s'
  top : l.Top → Occupied s → progressPre s l' s'
  onward : ¬l.Top → ∀ s₀, progressPre s₀ l s → progressPre s₀ l' s'
  again : l.Admitting → l'.Admitting → Progressed s s'

/-- An occupied slot keeps the worker from waiting. -/
theorem not_blocked (hw : Work o {} s) (hocc : Occupied s) :
    wakeup o.maxConcurrency s ≠ .blocked := by
  obtain ⟨lane, id, hslot⟩ := hocc
  unfold wakeup
  split_ifs with hstop hempty
  · nofun
  · simp only [Bool.and_eq_true, List.all_eq_true, List.mem_range] at hempty
    have hnone := hempty.2 lane (hw.lanes lane id hslot).1
    rw [hslot] at hnone
    cases hnone
  · nofun

/-- **Every block of the worker makes progress.** -/
theorem workerLoop_progress (l : Label) (p : Worker Label) (s : State)
    (hl : workerLoop o l = some p) (hw : blockPre o l s) (h : ownedPre A l s) :
    p.WpIn A (Rely o) (fun _ _ => True) (BlockProgress A l s) (fun _ _ => True) s := by
  cases l with
  | top previousUnitWasDecode =>
    obtain rfl := Option.some.inj hl
    refine along_read fun s₁ hrely => ?_
    have hc := calm_of_rely hrely
    have hw : Work o {} s₁ := Work.rely hw hrely
    have h : Owned none s₁ := Owned.calm h hc
    have since : ∀ {l' : Label} {s' : State}, progressPre s₁ l' s' → progressPre s l' s' := by
      intro l' s' hp
      cases l' with
      | top => exact hc.grows.progressed hp
      | admitting => exact ⟨hc.grows.trans hp.1, fun he => hc.grows.progressed (hp.2 he)⟩
      | failing => trivial
      | returned => trivial
    split
    next hblocked =>
      exact ⟨h, fun _ hocc => absurd hblocked (not_blocked hw (hocc.calm hc)),
        fun hn => absurd trivial hn,
        nofun⟩
    · exact ⟨excused (by decide), fun _ _ => trivial, fun hn => absurd trivial hn, nofun⟩
    · refine (Prog.wp_handle _ _ _).mpr ((iteration_owned hw h _).mono (fun l' s' h' => ?_)
        fun e s' he => ?_)
      · exact ⟨h'.1, fun _ hocc => since (h'.2 (hocc.calm hc)), fun hn => absurd trivial hn, nofun⟩
      · exact ⟨he, fun _ _ => trivial, fun hn => absurd trivial hn, nofun⟩
  | admitting previousUnitWasDecode membership control =>
    obtain rfl := Option.some.inj hl
    have hw : Work o {} s := hw
    refine (Prog.wp_handle _ _ _).mpr (((admission_owned hw h.1 h.2.1 h.2.2 _ control).and
      (admission_progress hw previousUnitWasDecode membership control)).mono (fun l' s' h' => ?_)
      fun e s' he => ?_)
    · exact ⟨h'.1.1, nofun, fun _ s₀ hp => h'.1.2 s₀ hp.1 hp.2, fun _ => h'.2⟩
    · exact ⟨he.1, nofun, fun _ _ _ => trivial, nofun⟩
  | failing error =>
    obtain rfl := Option.some.inj hl
    exact Prog.wp_seq (Prog.wp_true _ s) fun _ _ _ =>
      ⟨trivial, nofun, fun _ _ _ => trivial, nofun⟩
  | returned => cases hl

/-! ## Runs -/

/-- The configurations of the runs in which the answers are those of a contract. -/
def ReachableIn (A : Answers State Oracle) (o : Options) (c : Config) : Prop :=
  Relation.ReflTransGen (MachineStepIn A (workerLoop o) (CallerStep o.maxOutstanding)) Config.init c

theorem promised_stable (maxOutstanding : Nat) : Promised.Stable (CallerStep maxOutstanding) := by
  refine fun β q s s' answer hs h => ⟨h.1, fun id first hq plan hplan => ?_⟩
  rw [← hs.job id] at hplan
  exact h.2 id first hq plan hplan

/-- What holds at a label of the worker. -/
def boundaryPre (A : Answers State Oracle) (o : Options) (l : Label) (s : State) : Prop :=
  blockPre o l s ∧ ownedPre A l s

theorem boundaryPre_caller (l : Label) (hs : CallerStep o.maxOutstanding s s')
    (h : boundaryPre A o l s) : boundaryPre A o l s' := by
  have hc : Calm s s' := calm_of_rely (.single hs)
  refine ⟨blockPre_caller l hs h.1, ?_⟩
  cases l with
  | top => exact Owned.calm h.2 hc
  | admitting =>
    obtain ⟨howned, hnone, hlanes⟩ := h.2
    exact ⟨howned.calm hc, hc.prefillLane.trans hnone, hlanes.calm hc⟩
  | failing => exact h.2
  | returned => trivial

/-- What has happened since an iteration has begun, at a label of the worker. -/
theorem progressPre_caller {s₀ : State} (l : Label) (hs : CallerStep o.maxOutstanding s s')
    (h : progressPre s₀ l s) : progressPre s₀ l s' := by
  have hg : Grows s s' := (calm_of_rely (.single hs)).grows
  cases l with
  | top => exact Progressed.grows h hg
  | admitting => exact ⟨h.1.trans hg, fun he => (h.2 he).grows hg⟩
  | failing => trivial
  | returned => trivial

/-- **Every block leads from a boundary to the next.** -/
theorem workerLoop_boundary (l : Label) (p : Worker Label) (s : State) (hl : workerLoop o l = some p)
    (h : boundaryPre A o l s) : p.WpIn A (Rely o) (fun _ _ => True)
      (fun l' s' => boundaryPre A o l' s' ∧ BlockProgress A l s l' s') (fun _ _ => True) s := by
  have hblock : p.WpIn A (Rely o) (fun _ _ => True) (blockPre o) (fun _ _ => True) s :=
    (workerLoop_spec l p s hl h.1).contract (fun _ => trivial) fun _ => trivial
  exact (hblock.and (workerLoop_progress l p s hl h.1 h.2)).mono
    (fun _ _ h' => ⟨⟨h'.1, h'.2.owned⟩, h'.2⟩) fun _ _ _ => trivial

theorem boundaryPre_init : boundaryPre A o (.top false) {} := ⟨work_init o, owned_init⟩

/-- **The assertion holds along every interleaving.** -/
theorem reachable_owned {c : Config} (hA : A.Stable (CallerStep o.maxOutstanding))
    (h : ReachableIn A o c) :
    GoodIn A (CallerStep o.maxOutstanding) (fun _ _ => True) (boundaryPre A o) c := by
  refine machine_goodIn (c := Config.init) hA (fun l => boundaryPre_caller l) (fun l p s hl h' => ?_)
    boundaryPre_init h
  exact (workerLoop_boundary l p s hl h').mono (fun _ _ h => h.1) fun _ _ h => h

/-- The worker goes from a label to another one, without a stop in between. -/
def Passes (o : Options) (stop : Label → Prop) (l : Label) (s : State) (l' : Label) (s' : State) :
    Prop :=
  ∃ p, workerLoop o l = some p ∧ Relation.ReflTransGen
    (StepUntil anyAnswer (workerLoop o) (CallerStep o.maxOutstanding) stop) (.run p, s) (.label l', s')

/-- **An iteration that begins with an occupied slot makes progress.** -/
theorem iteration_progress {previousUnitWasDecode : Bool}
    (h : Reachable o (.label (.top previousUnitWasDecode), s)) (hocc : Occupied s)
    {previousUnitWasDecode' : Bool}
    (hp : Passes o Label.Top (.top previousUnitWasDecode) s (.top previousUnitWasDecode') s') :
    Progressed s s' := by
  obtain ⟨p, hl, hrun⟩ := hp
  have hpre : boundaryPre anyAnswer o (.top previousUnitWasDecode) s :=
    reachable_owned (Answers.stable_any _) h
  have hgood := @machine_goodUntil _ _ _ _ _ _ _ (fun _ _ => True)
    (fun l s' => boundaryPre anyAnswer o l s' ∧ progressPre s l s') (.run p, s) _
    (Answers.stable_any _) (fun l _ _ hs h => ⟨boundaryPre_caller l hs h.1, progressPre_caller l hs h.2⟩)
    _ (fun l p s₁ hn hl h => ?_) ?_ hrun
  · exact hgood.2
  · exact (workerLoop_boundary l p s₁ hl h.1).mono (fun _ _ h' => ⟨h'.1, h'.2.onward hn s h.2⟩)
      fun _ _ h => h
  · exact (workerLoop_boundary _ p s hl hpre).mono (fun _ _ h' => ⟨h'.1, h'.2.top trivial hocc⟩)
      fun _ _ h => h

/-- **The loop of `try_admit_one` makes progress** whenever it goes around. -/
theorem admitting_progress {previousUnitWasDecode control : Bool} {membership : List (Nat × Nat)}
    (h : Reachable o (.label (.admitting previousUnitWasDecode membership control), s)) {l' : Label}
    (hl' : l'.Admitting)
    (hp : Passes o (fun _ => True) (.admitting previousUnitWasDecode membership control) s l' s') :
    Progressed s s' := by
  obtain ⟨p, hl, hrun⟩ := hp
  have hpre : boundaryPre anyAnswer o (.admitting previousUnitWasDecode membership control) s :=
    reachable_owned (Answers.stable_any _) h
  have hgood := @machine_goodUntil _ _ _ _ _ _ _ (fun _ _ => True)
    (fun l s' => l.Admitting → Progressed s s') (.run p, s) _ (Answers.stable_any _)
    (fun l _ _ hs h ha => (h ha).grows (calm_of_rely (.single hs)).grows)
    _ (fun l p s₁ hn => absurd trivial hn) ?_ hrun
  · exact hgood hl'
  · exact (workerLoop_boundary _ p s hl hpre).mono (fun _ _ h' => h'.2.again trivial) fun _ _ h => h

theorem RequestMemory.activate_activeBytes (memory : RequestMemory) (bytes alignment : Nat) :
    (memory.activate bytes alignment).activeBytes = bytes := by
  rw [RequestMemory.activate]
  split_ifs with h
  · exact h.symm
  · rfl

/-- **Prefill ownership and the worker's progress.** At every boundary of `worker_loop` an occupied
slot holds a request that is ready to decode and has a budget, or it is the one `prefill_lane_`
names; `prefill_lane_` is set exactly when one slot is not ready; and the region is in use only
then, with the bytes of the plan of the request in that slot. When the target keeps its promises, no
error of ownership ends the engine. An iteration that begins with an occupied slot and comes back to
the boundary has run a unit on the GPU or completed a request, and so has every turn of
`try_admit_one` that is repeated. -/
theorem prefill_ownership (o : Options) :
    (∀ previousUnitWasDecode s, Reachable o (.label (.top previousUnitWasDecode), s) →
      (∀ lane id, s.slots lane = some id →
        ((s.reqs id).job.decodeReady = true ∧ (s.reqs id).job.budget.isSome = true) ∨
          s.schedule.prefillLane = some lane) ∧
      (s.schedule.prefillLane.isSome = true ↔
        ∃! lane, ∃ id, s.slots lane = some id ∧ (s.reqs id).job.decodeReady = false) ∧
      (s.schedule.requestMemory.activeBytes ≠ 0 → s.schedule.prefillLane.isSome = true) ∧
      (∀ lane, s.schedule.prefillLane = some lane → ∃ id plan, s.slots lane = some id ∧
        (s.reqs id).job.decodeReady = false ∧ (s.reqs id).job.admitted = some plan ∧
        s.schedule.requestMemory.activeBytes = plan.transientBytes)) ∧
    (∀ c, ReachableIn Promised o c → ∀ e ∈ ownershipErrors, c.1 ≠ .label (.failing e)) ∧
    (∀ previousUnitWasDecode s, Reachable o (.label (.top previousUnitWasDecode), s) →
      (∃ lane id, s.slots lane = some id) → ∀ previousUnitWasDecode' s',
      Passes o Label.Top (.top previousUnitWasDecode) s (.top previousUnitWasDecode') s' →
        Progressed s s') ∧
    (∀ previousUnitWasDecode membership control s,
      Reachable o (.label (.admitting previousUnitWasDecode membership control), s) →
      ∀ l' s', l'.Admitting →
      Passes o (fun _ => True) (.admitting previousUnitWasDecode membership control) s l' s' →
        Progressed s s') := by
  refine ⟨fun b s h => ?_, fun c h e he hc => ?_, fun b s h hocc b' s' hp =>
    iteration_progress h hocc hp, fun b m ctl s h l' s' hl' hp => admitting_progress h hl' hp⟩
  · have hpre : boundaryPre anyAnswer o (.top b) s := reachable_owned (Answers.stable_any _) h
    have howned : Owned none s := hpre.2
    refine ⟨fun lane id hslot => howned.slot hslot, howned.prefillLane_iff, fun hbytes => ?_,
      fun lane hlane => ?_⟩
    · by_contra hnone
      rw [howned.idle (by simpa using hnone)] at hbytes
      exact hbytes rfl
    · obtain ⟨id, hslot, hready⟩ := howned.owner lane hlane
      obtain ⟨plan, hplan, hmemory⟩ := howned.region lane id hlane hslot
      refine ⟨id, plan, hslot, hready, hplan, ?_⟩
      rw [hmemory, RequestMemory.activate_activeBytes]
  · obtain ⟨w, s⟩ := c
    obtain rfl : w = .label (.failing e) := hc
    have hpre : boundaryPre Promised o (.failing e) s := reachable_owned (promised_stable _) h
    exact hpre.2 (fun _ _ _ _ h => h) he

/-- A target that takes several steps for a prefill, with 64 bytes for it. -/
def slowTarget : ∀ {β : Type}, Oracle β → β
  | _, .planRequestForLane _ _ => .ok { smallPlan with transientBytes := 64 }
  | _, .startPrefillLane _ _ => .ok {}
  | _, q => smallTarget q

/-- The worker has admitted the request and run the first step of its prefill. -/
def stagedOne : Config := workerSteps smallEngine slowTarget 43 (.label (.top false), queuedOne)

theorem stagedOne_reachable : Reachable smallEngine stagedOne :=
  queuedOne_reachable.workerSteps slowTarget 43

/-- The one slot owns the prefill then, with the bytes of its plan. -/
theorem prefill_ownership_staged :
    stagedOne.2.schedule.prefillLane = some 0 ∧ stagedOne.2.schedule.requestMemory.activeBytes = 64 ∧
      ∃! lane, ∃ id, stagedOne.2.slots lane = some id ∧
        (stagedOne.2.reqs id).job.decodeReady = false := by
  have h := (prefill_ownership smallEngine).1 false stagedOne.2 stagedOne_reachable
  exact ⟨by decide, by decide, h.2.1.mp (by decide)⟩

end Ninfer.Executor
