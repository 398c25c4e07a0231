import Ninfer.Executor.Trace

/-!
# Prefill and decode alternate

`worker_loop` remembers one flag between its iterations, whether the previous unit on the GPU was a
decode round. What it is for: a prefill does not follow a prefill while a request waits to decode, a
decode round does not follow a decode round while a prefill is under way, nor while a request is
queued, unless an admission was tried in between.

The flag is right about the history at every label. An iteration reads it before any unit runs; an
admission keeps the history as it was until the target starts, and the request it starts is not
ready to decode.

## Main definitions

* `RoundFacts`, `notedPre`: what the flag and the members of a round say about the history
* `Recorded`: the runs with their history

## Main results

* `iteration_noted`, `admission_noted`: the blocks keep the history lawful
* `units_alternate`: prefill and decode alternate in every run
-/

namespace Ninfer.Executor

open Prog (readState writeState atomically query attempt forEach mapEach catching)

variable {o : Options} {s s' s'' : State} {t : History} {id lane : Nat} {α : Type}

/-! ## An iteration of the loop -/

theorem runPrefillStep_noted (ht : PassOver t) (hI : Alternates t) (ha : Allowed o t .prefill s) :
    Noted o runPrefillStep (fun _ _ t' => decodedLast t' = false) s t := by
  refine noted_read ht hI fun s₁ hr₁ => ?_
  split
  · trivial
  refine noted_read ht hI fun s₂ hr₂ => ?_
  split
  · trivial
  refine noted_read ht hI fun s₃ hr₃ => Prog.wpNoted_ite (fun _ => trivial) fun _ => ?_
  have hview : SameView s s₃ :=
    (sameView_of_rely hr₁).trans ((sameView_of_rely hr₂).trans (sameView_of_rely hr₃))
  refine (gpuUnit_noted rfl (fun step => ?_) ht hI (hview.allowed ha)).mono (fun _ _ t' h => ?_)
    fun _ _ _ _ => trivial
  · exact Prog.asks_bind (Prog.asks_readState _) fun _ => resolvePrefillStep_unitFree step _
  · rw [h]
    rfl

theorem runDecodeRound_noted (membership : List (Nat × Nat)) (ht : PassOver t) (hI : Alternates t)
    (ha : Allowed o t .decode s) :
    Noted o (runDecodeRound membership) (fun _ _ t' => decodedLast t' = true) s t := by
  refine (gpuUnit_noted rfl (fun round => ?_) ht hI ha).mono (fun _ _ t' h => ?_)
    fun _ _ _ _ => trivial
  · refine Prog.asks_bind (Prog.asks_mapEach (fun _ => loadCancelled_unitFree) _) fun _ =>
      Prog.asks_ite trivial ?_
    refine Prog.asks_bind (Prog.asks_mapEach (decideRow_unitFree round) _) fun rows => ?_
    exact Prog.asks_bind (Prog.asks_attempt rfl) fun _ => Prog.asks_forEach commitRow_unitFree rows
  · rw [h]
    rfl

/-- The expiry pass of an iteration notes what it leaves in the queue. -/
theorem expirePendingRequests_noted (hI : Alternates t) :
    Noted o expirePendingRequests (fun havePending _ t' => ∃ pending,
      t' = .expired pending :: .expiring :: .iteration :: t ∧ havePending = !pending.isEmpty) s
      (.iteration :: t) := by
  have hclock : Alternates (.expiring :: .iteration :: t) :=
    (hI.event (by simp)).event (by simp)
  refine Prog.wpNoted_seq (Q := fun _ _ t' => t' = .expiring :: .iteration :: t)
    ⟨hclock, fun late _ => rfl⟩ fun late s₁ t₁ h₁ => ?_
  obtain rfl := h₁
  refine Prog.wpNoted_seq (Q := fun removed s' t' =>
    t' = .expired s'.pending :: .expiring :: .iteration :: t ∧ removed.2.2 = !s'.pending.isEmpty)
    (fun s₂ _ => ⟨hclock.event (by simp), rfl, rfl⟩) fun removed s₂ t₂ h₂ => ?_
  obtain ⟨rfl, hleft⟩ := h₂
  have hpass : PassOver (.expired s₂.pending :: .expiring :: .iteration :: t) := trivial
  -- What follows the critical section returns whether it has left anything in the queue.
  refine (noted_of_unitFree (Q := fun havePending _ => havePending = !s₂.pending.isEmpty)
    (G := fun _ _ => True) (X := fun _ _ => True) ?_ ?_ hpass (hclock.event (by simp))).mono
    (fun _ _ _ h => ⟨_, h.2, h.1⟩) fun _ _ _ h => h
  · refine Prog.asks_bind (Prog.asks_writeState _) fun _ => ?_
    refine Prog.asks_bind (Prog.asks_forEach (fun _ => completeCancelled_unitFree) _) fun _ => ?_
    exact Prog.asks_bind (Prog.asks_forEach (fun _ => completeError_unitFree _) _) fun _ => trivial
  · refine Prog.wp_seq (Q := fun _ _ => True) (Prog.wp_writeState fun _ _ => ⟨trivial, trivial⟩)
      fun _ s₃ _ => ?_
    refine Prog.wp_seq (Prog.wp_true _ s₃) fun _ s₄ _ => ?_
    exact Prog.wp_seq (Prog.wp_true _ s₄) fun _ _ _ => hleft

/-- The members of a round are the lanes that are ready. -/
theorem buildRoundMembership_ready (s : State) (n : Nat) :
    (buildRoundMembership n).WpIn anyAnswer (Rely o) (fun _ _ => True)
      (fun membership s' => membership = [] → readyLanes n s' = []) (fun _ _ => True) s := by
  refine along_read fun s₁ _ => Prog.wp_ite (fun _ => trivial) fun _ hempty => ?_
  have hnil : roundMembers s₁ n = [] := List.map_eq_nil_iff.mp hempty
  refine readyLanes_eq_nil.mpr fun lane hlane id hslot => ?_
  by_contra hready
  have hmem : (lane, (s₁.reqs id).job.budget) ∈ roundMembers s₁ n :=
    mem_roundMembers.mpr ⟨hlane, id, hslot, by simpa using hready, rfl⟩
  simp [hnil] at hmem

/-- What the flag of the loop and the members of a round say about the history. -/
structure RoundFacts (o : Options) (previousUnitWasDecode : Bool) (membership : List (Nat × Nat))
    (s : State) (t : History) : Prop where
  flag : previousUnitWasDecode = decodedLast t
  ready : membership = [] → readyLanes o.maxConcurrency s = []

theorem RoundFacts.kept {previousUnitWasDecode : Bool} {membership : List (Nat × Nat)}
    (h : RoundFacts o previousUnitWasDecode membership s t) (hv : SameView s s') :
    RoundFacts o previousUnitWasDecode membership s' t :=
  ⟨h.flag, fun hempty => (hv.readyLanes _).trans (h.ready hempty)⟩

/-- After another unit a decode round may start. -/
theorem RoundFacts.allowed_decode {membership : List (Nat × Nat)}
    (h : RoundFacts o false membership s t) : Allowed o t .decode s := by
  intro v hv
  have hkind : v.kind ≠ .decode := fun hd => by
    have hlast := (decodedLast_eq_true hv).mpr hd
    rw [← h.flag] at hlast
    cases hlast
  exact ⟨fun _ hu => (by cases hu), fun hd => absurd hd hkind, fun hd => absurd hd hkind⟩

/-- Without a member, or after a decode round, a prefill may start. -/
theorem RoundFacts.allowed_prefill {previousUnitWasDecode : Bool} {membership : List (Nat × Nat)}
    (h : RoundFacts o previousUnitWasDecode membership s t)
    (hm : membership = [] ∨ previousUnitWasDecode = true) : Allowed o t .prefill s := by
  intro v hv
  refine ⟨fun hp _ => ?_, fun _ hu => (by cases hu), fun _ hu => (by cases hu)⟩
  rcases hm with hempty | hflag
  · exact h.ready hempty
  · rw [h.flag, decodedLast_eq_true hv, hp] at hflag
    cases hflag

/-- What the notes of a run say at a label of the worker. -/
def notedPre (o : Options) : Label → State → History → Prop
  | .top previousUnitWasDecode, _, t => previousUnitWasDecode = decodedLast t
  | .admitting previousUnitWasDecode membership _, s, t =>
    RoundFacts o previousUnitWasDecode membership s t ∧
      (membership = [] ∨ previousUnitWasDecode = true)
  | .failing _, _, _ => True
  | .returned, _, _ => True

theorem decodeOrIdle_noted {previousUnitWasDecode : Bool} {membership : List (Nat × Nat)}
    (h : RoundFacts o previousUnitWasDecode membership s t) (ht : PassOver t) (hI : Alternates t)
    (ha : membership ≠ [] → Allowed o t .decode s) :
    Noted o (decodeOrIdle previousUnitWasDecode membership) (notedPre o) s t := by
  refine Prog.wpNoted_ite (fun _ => h.flag) fun hne => ?_
  refine Prog.wpNoted_seq (runDecodeRound_noted membership ht hI (ha (by simpa using hne)))
    fun _ _ _ h' => h'.symm

/-- **An iteration keeps the history lawful.** -/
theorem iteration_noted {previousUnitWasDecode : Bool} (hI : Alternates t)
    (hflag : previousUnitWasDecode = decodedLast t) :
    Noted o (iteration o previousUnitWasDecode) (notedPre o) s (.iteration :: t) := by
  refine Prog.wpNoted_seq (expirePendingRequests_noted hI) fun havePending s₁ t₁ h₁ => ?_
  obtain ⟨pending, rfl, hleft⟩ := h₁
  generalize ht₁ : (.expired pending :: .expiring :: .iteration :: t : History) = t₁
  have ht : PassOver t₁ := by rw [← ht₁]; trivial
  have hlast : lastUnit t₁ = lastUnit t := by rw [← ht₁]; rfl
  have hqueue : queueLeft t₁ = pending := by rw [← ht₁]; rfl
  have hI₁ : Alternates t₁ := by
    rw [← ht₁]
    exact ((hI.event (by simp)).event (by simp)).event (by simp)
  refine noted_read ht hI₁ fun s₂ _ => ?_
  refine Prog.wpNoted_seq (noted_true (cancelActiveRequests_unitFree _ _) ht hI₁ s₂)
    fun _ s₃ t₃ h₃ => ?_
  obtain rfl := h₃
  refine Prog.wpNoted_seq (noted_of_unitFree (buildRoundMembership_unitFree _)
    (buildRoundMembership_ready s₃ o.maxConcurrency) ht hI₁) fun membership s₄ t₄ h₄ => ?_
  obtain ⟨hready, rfl⟩ := h₄
  refine noted_read ht hI₁ fun s₅ hrely => ?_
  have hfacts : RoundFacts o previousUnitWasDecode membership s₅ t₄ :=
    RoundFacts.kept ⟨hflag.trans (by rw [decodedLast, decodedLast, hlast]), hready⟩
      (sameView_of_rely hrely)
  refine Prog.wpNoted_ite (fun hsome => Prog.wpNoted_ite (fun hcase => ?_) fun hcase => ?_)
    fun hnone => ?_
  · -- The prefill waits for one round.
    obtain ⟨-, rfl⟩ := hcase
    exact Prog.wpNoted_seq (runDecodeRound_noted membership ht hI₁ hfacts.allowed_decode)
      fun _ _ _ h => h.symm
  · refine Prog.wpNoted_seq (runPrefillStep_noted ht hI₁ (hfacts.allowed_prefill ?_))
      fun _ _ _ h => h.symm
    by_contra hn
    rw [not_or] at hn
    exact hcase ⟨hn.1, by simpa using hn.2⟩
  have hnone₅ : s₅.schedule.prefillLane = none := by simpa using hnone
  refine Prog.wpNoted_ite (fun htry => ⟨hfacts, htry.2⟩) fun hskip => ?_
  refine decodeOrIdle_noted hfacts ht hI₁ fun hne => ?_
  -- After a decode round, the queue is empty when no admission is tried.
  intro v hv
  refine ⟨fun _ hu => (by cases hu), fun _ _ => hnone₅, fun hd _ hq => ?_⟩
  have hprevious : previousUnitWasDecode = true := by
    rw [hfacts.flag, decodedLast_eq_true hv]
    exact hd
  rw [hqueue] at hq
  refine absurd ⟨?_, Or.inr hprevious⟩ hskip
  rw [hleft]
  simpa using hq

/-! ## Admission -/

/-- A prefill may start: the last unit was a decode round, or no request waits to decode. -/
def MayPrefill (o : Options) (s : State) (t : History) : Prop :=
  decodedLast t = true ∨ readyLanes o.maxConcurrency s = []

theorem MayPrefill.kept (h : MayPrefill o s t) (hv : SameView s s') : MayPrefill o s' t :=
  h.imp_right fun hready => (hv.readyLanes _).trans hready

theorem MayPrefill.allowed (h : MayPrefill o s t) : Allowed o t .prefill s := by
  intro v hv
  refine ⟨fun hp _ => h.resolve_left fun hd => ?_, fun _ hu => (by cases hu),
    fun _ hu => (by cases hu)⟩
  rw [decodedLast_eq_true hv, hp] at hd
  cases hd

/-- What an admission leaves: it has run a prefill, or nothing that is noted has changed. -/
structure Tried (ran : Prop) (s₀ : State) (t₀ : History) (s : State) (t : History) : Prop where
  unit : ran → decodedLast t = false
  calm : ¬ran → Calm s₀ s ∧ t = t₀

theorem Tried.after {ran : Prop} {s₁ : State} {t' : History} (hc : Calm s s₁)
    (h : Tried ran s₁ t s' t') : Tried ran s t s' t' :=
  ⟨h.unit, fun hr => ⟨hc.trans (h.calm hr).1, (h.calm hr).2⟩⟩

/-- A queued request leaves the queue with an error. -/
theorem removePendingError_tried (error : Failure) (ht : PassOver t) (hI : Alternates t)
    (s : State) :
    Noted o (removePendingError id error)
      (fun progress => Tried (progress = .ranGpuUnit) s t) s t := by
  have hkind : (removePendingError id error).WpIn anyAnswer (Rely o) (fun _ _ => True)
      (fun progress _ => progress ≠ .ranGpuUnit) (fun _ _ => True) s := by
    refine Prog.wp_seq (Prog.wp_true _ s) fun _ s₁ _ => Prog.wp_ite (fun _ => ?_) fun _ => ?_
    · refine Prog.wp_seq (Prog.wp_true _ s₁) fun _ s₂ _ => ?_
      exact Prog.wp_seq (Prog.wp_true _ s₂) fun _ _ _ => AdmissionProgress.noConfusion
    · exact AdmissionProgress.noConfusion
  exact (noted_calm (removePendingError_unitFree error) (removePendingError_calm error) hkind ht
    hI).mono (fun _ _ _ h => ⟨fun hr => absurd hr h.1, fun _ => h.2⟩) fun _ _ _ h => h

/-- A queued request leaves the queue as cancelled. -/
theorem removePendingCancelled_tried (isCandidate : Bool) (ht : PassOver t) (hI : Alternates t)
    (s : State) :
    Noted o (removePendingCancelled id isCandidate)
      (fun progress => Tried (progress = .ranGpuUnit) s t) s t := by
  have hdone : ∀ s : State, (completeCancelled id >>= fun _ =>
      pure AdmissionProgress.controlProgress).WpIn anyAnswer (Rely o) (fun _ _ => True)
        (fun progress _ => progress ≠ .ranGpuUnit) (fun _ _ => True) s := fun s =>
    Prog.wp_seq (Prog.wp_true _ s) fun _ _ _ => AdmissionProgress.noConfusion
  have hkind : (removePendingCancelled id isCandidate).WpIn anyAnswer (Rely o) (fun _ _ => True)
      (fun progress _ => progress ≠ .ranGpuUnit) (fun _ _ => True) s := by
    refine Prog.wp_seq (Prog.wp_true _ s) fun _ s₁ _ => Prog.wp_ite (fun _ => ?_) fun _ => ?_
    · exact Prog.wp_ite (fun _ => hdone s₁) fun _ =>
        Prog.wp_seq (Prog.wp_true _ s₁) fun _ s₂ _ => hdone s₂
    · exact AdmissionProgress.noConfusion
  exact (noted_calm (removePendingCancelled_unitFree _) (removePendingCancelled_calm _) hkind ht
    hI).mono (fun _ _ _ h => ⟨fun hr => absurd hr h.1, fun _ => h.2⟩) fun _ _ _ h => h

/-- A request that is given a lane is not ready to decode. -/
theorem occupyLane_ready (hw : Work o { hand := [id] } s) (h : Owned none s) {n : Nat}
    (hready : readyLanes n s = []) (backfillClass : BackfillClass) (backfillEpoch : Nat)
    (summary : RequestPlanSummary) :
    (occupyLane id lane backfillClass backfillEpoch summary).WpIn anyAnswer (Rely o)
      (fun _ _ => True) (fun _ s' => readyLanes n s' = []) (fun _ _ => True) s := by
  refine Prog.wp_ite (fun _ => trivial) fun _ => ?_
  refine Prog.wp_seq (Q := fun _ s' => readyLanes n s' = []) (Prog.wp_writeState fun s₁ hrely =>
    ⟨trivial, ?_⟩) fun _ s₂ h₂ => Prog.wp_ite (fun _ => ?_) fun _ => h₂
  · have hview := sameView_of_rely hrely
    have hw₁ := hw.rely hrely
    have hd := (hw₁.held rfl (Or.inl List.mem_cons_self)).2
    -- The request is in the worker's hands, hence in no slot, and has not decoded.
    have hout : ∀ lane, s₁.slots lane ≠ some id := fun lane hslot => by
      have hle := hw₁.places_le id
      have hpos := slotCount_pos (hw₁.lanes lane id hslot).1 hslot
      simp only [places, count_cons_ite, if_true] at hle
      omega
    have hid := (h.rely hrely).not_ready hd hout
    have hold := readyLanes_eq_nil.mp ((hview.readyLanes n).trans hready)
    refine readyLanes_eq_nil.mpr fun l hl i hslot => ?_
    refine (State.setReq_proj s₁ id _ (·.job.decodeReady) (by rfl) i).trans ?_
    rcases eq_or_ne l lane with rfl | hne
    · obtain rfl := Option.some.inj ((setSlot_slots_self _ l (some id)).symm.trans hslot)
      exact hid
    · exact hold l hl i ((setSlot_slots_of_ne _ (some id) hne).symm.trans hslot)
  · refine (Prog.wp_bind _ _ _).mpr (Prog.wp_attempt (fun _ _ => ?_) fun _ _ => trivial)
    refine Prog.wp_writeState fun s₃ hrely => ⟨trivial, ?_⟩
    have hview : SameView s₂ s₃ := sameView_of_rely hrely
    exact (hview.readyLanes n).trans h₂

/-- The handler of an admission only throws. -/
theorem abandonAdmission_throws (targetStarted : Bool) (error : Failure) {Q : Unit → State → Prop}
    (s : State) : (abandonAdmission id lane targetStarted error).WpIn anyAnswer (Rely o)
      (fun _ _ => True) Q (fun _ _ => True) s := by
  refine Prog.wp_seq (Prog.wp_true _ s) fun _ s₁ _ => ?_
  refine Prog.wp_seq (Prog.wp_true _ s₁) fun _ s₂ _ => ?_
  refine Prog.wp_seq (Prog.wp_true _ s₂) fun _ s₃ _ => ?_
  exact Prog.wp_seq (Prog.wp_true _ s₃) fun _ _ _ => trivial

/-- **The start of the target** is a prefill. -/
theorem startTarget_noted (ht : PassOver t) (hI : Alternates t) (hmay : MayPrefill o s t) :
    Noted o ((startTarget id lane).handle (abandonAdmission id lane true))
      (fun _ _ t' => decodedLast t' = false) s t := by
  have hrest : ∀ first : PrefillStepResult, UnitFree (readState (·.schedule.prefillLane) >>= fun
      prefillLane => if first.complete = false ∧ prefillLane ≠ some lane then
        .throw (logicError "partial prefill did not retain its execution owner")
      else readState (fun s => (s.reqs id).cancelled) >>= fun cancelAtBoundary =>
        resolvePrefillStep id first cancelAtBoundary) := fun first =>
    Prog.asks_bind (Prog.asks_readState _) fun _ => Prog.asks_ite trivial
      (Prog.asks_bind (Prog.asks_readState _) fun _ => resolvePrefillStep_unitFree first _)
  refine (Prog.wpNoted_handle _ _).mpr ((gpuUnit_noted rfl hrest ht hI hmay.allowed).mono
    (fun _ _ t' h => ?_) fun e s' t' h => ?_)
  · rw [h]
    rfl
  · rw [h]
    exact (noted_of_unitFree (Q := fun _ _ => False) (abandonAdmission_unitFree true e)
      (abandonAdmission_throws true e s') (show PassOver (.unit _ :: t) from trivial)
      (hI.unit hmay.allowed)).mono (fun _ _ _ h => h.1.elim) fun _ _ _ h => h

/-- **The admission of a request keeps the history lawful.** -/
theorem admitPlannedRequest_noted (hw : Work o {} s) (ha : (s.reqs id).phase = .accepted)
    {choice : LaneChoice} {backfillClass : BackfillClass} {backfillEpoch : Nat}
    (hadm : Admissible o id choice backfillClass backfillEpoch s) (h : Owned none s)
    (ht : PassOver t) (hI : Alternates t) (hmay : MayPrefill o s t) (n : Nat) :
    Noted o (admitPlannedRequest n id choice backfillClass backfillEpoch)
      (fun progress => Tried (progress = .ranGpuUnit) s t) s t := by
  refine Prog.wpNoted_seq (Q := fun _ s' t' => s' = s ∧ t' = t)
    ⟨by rw [notes_ask ht _ s rfl]; exact hI, fun late _ => ⟨rfl, notes_ask ht _ s rfl⟩⟩
    fun late s₀ t₀ h₀ => ?_
  obtain ⟨rfl, rfl⟩ := h₀
  refine Prog.wpNoted_ite (fun _ => removePendingError_tried _ ht hI s₀) fun _ =>
    noted_read ht hI fun s₁ hrely => ?_
  have hwait := hw.waits.rely hrely
  have hc := calm_of_rely hrely
  refine Prog.wpNoted_ite (fun _ => ?_) fun _ => noted_read ht hI fun s₂ hrely => ?_
  · exact (removePendingCancelled_tried false ht hI s₁).mono (fun _ _ _ h => h.after hc)
      fun _ _ _ h => h
  have hwait := hwait.rely hrely
  have hc := hc.trans (calm_of_rely hrely)
  split
  · trivial
  next summary hplan =>
  have hcredit := hadm.credit summary (by rw [← hwait.job]; exact hplan)
  refine Prog.wpNoted_seq (noted_calm (makeFeasible_unitFree n choice) (makeFeasible_calm n choice)
    (makeFeasible_spec (X := fun _ _ => True) hwait.work n choice) ht hI) fun feasible s₃ t₃ h₃ =>
    Prog.wpNoted_ite (fun _ => trivial) fun _ => ?_
  obtain ⟨hwait₃, hc₃, rfl⟩ := h₃
  have hplans := writePlan_spec (X := fun _ _ => True) hwait₃.work
    (hwait₃.accepted id (hwait.accepted id ha))
    (g := fun _ j => { j with lanePlans := Function.update j.lanePlans choice.lane none })
    fun _ _ => ⟨rfl, rfl⟩
  refine Prog.wpNoted_seq (noted_calm (Prog.asks_writeState _)
    (calm_writeJob fun _ _ => ⟨rfl, fun h => h, rfl⟩) hplans ht hI) fun _ s₄ t₄ h₄ => ?_
  obtain ⟨hk, hc₄, rfl⟩ := h₄
  refine Prog.wpNoted_seq (noted_calm (Prog.asks_atomically _) erasePending_calm
    (erasePending_spec (X := fun _ _ => True) hk.work) ht hI) fun erased s₅ t₅ h₅ => ?_
  obtain ⟨he, hc₅, rfl⟩ := h₅
  have hc := hc.trans (hc₃.trans (hc₄.trans hc₅))
  refine Prog.wpNoted_ite (fun htaken => ?_) fun _ =>
    ⟨AdmissionProgress.noConfusion, fun _ => ⟨hc, rfl⟩⟩
  have hw₅ := (he.taken htaken).1
  refine Prog.wpNoted_seq (noted_calm (Prog.asks_writeState _) releasePlanningState_calm
    (releasePlanningState_spec (X := fun _ _ => True) hw₅ rfl (Or.inl List.mem_cons_self)) ht hI)
    fun _ s₆ t₆ h₆ => ?_
  obtain ⟨hk₆, hc₆, rfl⟩ := h₆
  have hprot : s₆.schedule.protection = s₀.schedule.protection := by
    rw [hk₆.touches.schedule, he.quiet.schedule, hk.touches.schedule, hwait₃.protection,
      hwait.protection]
  refine Prog.wpNoted_seq (noted_calm (spendTemporalCredit_unitFree _ _ _)
    (spendTemporalCredit_calm _ _ _)
    (spendTemporalCredit_spec (X := fun _ _ => True) hk₆.work (hcredit.keep hprot)) ht hI)
    fun _ s₇ t₇ h₇ => ?_
  obtain ⟨⟨hw₇, -⟩, hc₇, rfl⟩ := h₇
  refine Prog.wpNoted_seq (noted_calm (Prog.asks_writeState _) clearProtectionIfHead_calm
    (clearProtectionIfHead_spec (X := fun _ _ => True) hw₇) ht hI) fun _ s₈ t₈ h₈ => ?_
  obtain ⟨⟨hw₈, -⟩, hc₈, rfl⟩ := h₈
  have hc := hc.trans (hc₆.trans (hc₇.trans hc₈))
  -- Up to here no unit has run; the slot is taken before the target starts its prefill.
  have hoccupy : Noted o ((occupyLane id choice.lane backfillClass backfillEpoch summary).handle
      (abandonAdmission id choice.lane false)) (fun _ s' t' => MayPrefill o s' t₈ ∧ t' = t₈)
      s₈ t₈ := by
    refine noted_of_unitFree (G := fun _ _ => True) (X := fun _ _ => True)
      (Prog.asks_handle (occupyLane_unitFree _ _ _) (abandonAdmission_unitFree false)) ?_ ht hI
    refine (Prog.wp_handle _ _ _).mpr (Prog.WpIn.mono (X := fun _ _ => True) ?_ (fun _ _ h => h)
      fun e s' _ => abandonAdmission_throws false e s')
    rcases hmay.kept hc.sameView with hlast | hready
    · exact (Prog.wp_true _ s₈).mono (fun _ _ _ => Or.inl hlast) fun _ _ h => h
    · exact (occupyLane_ready hw₈ (h.calm hc) hready _ _ _).mono (fun _ _ h => Or.inr h)
        fun _ _ h => h
  refine Prog.wpNoted_seq hoccupy fun _ s₉ t₉ h₉ => ?_
  obtain ⟨hmay₉, rfl⟩ := h₉
  exact Prog.wpNoted_seq (startTarget_noted ht hI hmay₉) fun _ s' t' hlast =>
    ⟨fun _ => hlast, fun hne => absurd rfl hne⟩

/-- The loop over the candidates behind a protected head. -/
theorem backfill_noted {active : List ActiveAdmissionSnapshot} {frontierDistance : Nat}
    (ht : PassOver t) (hI : Alternates t) :
    ∀ {candidates : List Nat} {control : Bool} {s : State}, Work o {} s →
      (∀ c ∈ candidates, (s.reqs c).phase = .accepted) → Owned none s → MayPrefill o s t →
      Noted o (backfill o active frontierDistance candidates control)
        (fun progress => Tried (progress = .ranGpuUnit) s t) s t := by
  intro candidates
  induction candidates with
  | nil =>
    intro control s _ _ _ _
    refine ⟨fun hran => ?_, fun _ => ⟨.refl s, rfl⟩⟩
    cases control <;> cases hran
  | cons candidate rest ih =>
    intro control s hw hacc h hmay
    have ha := hacc candidate List.mem_cons_self
    have hrec : ∀ {control : Bool} {s₁ : State}, Work o {} s₁ → StayAccepted s s₁ → Calm s s₁ →
        Noted o (backfill o active frontierDistance rest control)
          (fun progress => Tried (progress = .ranGpuUnit) s t) s₁ t := fun hw₁ hstay hc =>
      (ih hw₁ (fun c hmem => hstay c (hacc c (List.mem_cons_of_mem _ hmem))) (h.calm hc)
        (hmay.kept hc.sameView)).mono (fun _ _ _ h' => h'.after hc) fun _ _ _ h => h
    refine Prog.wpNoted_seq (noted_calm (examine_unitFree o true) (examine_calm o true)
      (Spec.stayAccepted hw (examine_spec (X := fun _ _ => True) hw ha true)) ht hI)
      fun examined s₁ t₁ h₁ => ?_
    obtain ⟨⟨⟨hrest, hfree⟩, hstay⟩, hc, rfl⟩ := h₁
    split
    · exact hrec hrest.work hstay hc
    · exact hrec hrest.work hstay hc
    next base choice =>
    refine noted_read ht hI fun s₂ hrely => ?_
    have hrest₂ := hrest.rely hrely
    have hstay₂ : StayAccepted s s₂ := hstay.rely hrest.work.inv hrely
    have hfree₂ : Free o s₂ choice := (hfree base choice rfl).rely hrely
    have hc₂ := hc.trans (calm_of_rely hrely)
    have hadmit : ∀ {backfillClass : BackfillClass} {epoch : Nat},
        Admissible o candidate choice backfillClass epoch s₂ →
        Noted o (admitPlannedRequest o.maxConcurrency candidate choice backfillClass epoch)
          (fun progress => Tried (progress = .ranGpuUnit) s t₁) s₂ t₁ := fun hadm =>
      (admitPlannedRequest_noted hrest₂.work (hstay₂ _ ha) hadm (h.calm hc₂) ht hI
        (hmay.kept hc₂.sameView) _).mono (fun _ _ _ h' => h'.after hc₂) fun _ _ _ h => h
    split
    next plan protection hseen =>
      obtain ⟨hplan, hprot⟩ := Prod.mk.inj hseen
      refine Prog.wpNoted_ite (fun _ => ?_) fun _ =>
        Prog.wpNoted_ite (fun hcredit => ?_) fun _ => ?_
      · exact hadmit ⟨hfree₂, fun _ _ hclass => (by cases hclass)⟩
      · exact hadmit (.temporal hfree₂ hplan hprot hcredit.2)
      · exact hrec hrest₂.work hstay₂ hc₂
    · trivial

/-- **One turn of `try_admit_one` keeps the history lawful.** -/
theorem tryAdmitOnce_noted (hw : Work o {} s) (h : Owned none s) (ht : PassOver t)
    (hI : Alternates t) (hmay : MayPrefill o s t) (control : Bool) :
    Noted o (tryAdmitOnce o control)
      (fun next => Tried (next = AdmitNext.finished .ranGpuUnit) s t) s t := by
  have settle : ∀ {s' : State}, Calm s s' →
      Tried (AdmitNext.finished (.ofControl control) = .finished .ranGpuUnit) s t s' t := by
    intro s' hc
    refine ⟨fun hran => ?_, fun _ => ⟨hc, rfl⟩⟩
    cases control <;> cases hran
  -- The result of an admission is that of the turn.
  have finish : ∀ {p : Worker AdmissionProgress} {s₁ : State}, Calm s s₁ →
      Noted o p (fun progress => Tried (progress = .ranGpuUnit) s₁ t) s₁ t →
      Noted o (p >>= fun progress => pure (AdmitNext.finished progress))
        (fun next => Tried (next = AdmitNext.finished .ranGpuUnit) s t) s₁ t := fun hc hp =>
    Prog.wpNoted_seq hp fun progress s' t' h' => by
      have h' := h'.after hc
      exact ⟨fun he => h'.unit (AdmitNext.finished.inj he),
        fun hne => h'.calm fun he => hne (congrArg AdmitNext.finished he)⟩
  refine noted_read ht hI fun s₁ hrely => ?_
  have hw := hw.rely hrely
  have hc := calm_of_rely hrely
  split
  · refine Prog.wpNoted_seq (Q := fun _ s' t' => Calm s s' ∧ t' = t) (fun s₂ hrely => ?_)
      fun _ _ _ h' => ?_
    · rw [notes_act ht]
      exact ⟨hI, (hc.trans (calm_of_rely hrely)).trans (calm_schedule rfl rfl rfl), rfl⟩
    · obtain ⟨hc, rfl⟩ := h'
      exact settle hc
  next head rest hqueue =>
  have hacc : ∀ c ∈ head :: rest, (s₁.reqs c).phase = .accepted := fun c hmem =>
    (hw.pending rfl (hqueue ▸ hmem)).1
  refine Prog.wpNoted_seq (noted_calm (Prog.asks_writeState _) (Prog.always_writeState fun s => ?_)
    (Spec.stayAccepted (X := fun _ _ => True) (Q := fun _ => Work o {}) hw
      (schedule_spec hw (fun s => ?_) fun _ _ _ hw _ => hw)) ht hI) fun _ s₂ t₂ h₂ => ?_
  · split
    · exact .refl s
    · split
      · exact calm_schedule rfl rfl rfl
      · exact .refl s
  · split
    · exact ⟨_, rfl⟩
    · split_ifs
      · exact ⟨_, rfl⟩
      · exact ⟨_, rfl⟩
  obtain ⟨⟨hw₂, hstay₂⟩, hc₂, rfl⟩ := h₂
  have hc := hc.trans hc₂
  have hhead := hstay₂ head (hacc head List.mem_cons_self)
  refine Prog.wpNoted_seq (noted_calm (examine_unitFree o false) (examine_calm o false)
    (Spec.stayAccepted hw₂ (examine_spec (X := fun _ _ => True) hw₂ hhead false)) ht hI)
    fun examined s₃ t₃ h₃ => ?_
  obtain ⟨⟨⟨hrest, hfree⟩, hstay₃⟩, hc₃, rfl⟩ := h₃
  have hc := hc.trans hc₃
  split
  · exact ⟨fun hran => (by cases hran), fun _ => ⟨hc, rfl⟩⟩
  next base choice =>
    have hadm : Admissible o head choice .none 0 s₃ :=
      ⟨hfree base choice rfl, fun _ _ hclass => (by cases hclass)⟩
    exact finish hc (admitPlannedRequest_noted hrest.work (hstay₃ head hhead) hadm (h.calm hc) ht hI
      (hmay.kept hc.sameView) _)
  next base =>
  refine Prog.wpNoted_seq (noted_calm (activeAdmissionSet_unitFree _) (activeAdmissionSet_calm _)
    (Spec.stayAccepted hrest.work (activeAdmissionSet_spec hrest.work _)) ht hI)
    fun active s₄ t₄ h₄ => Prog.wpNoted_ite (fun _ => trivial) fun _ => ?_
  obtain ⟨⟨hw₄, hstay₄⟩, hc₄, rfl⟩ := h₄
  refine Prog.wpNoted_seq (noted_calm (protectHead_unitFree o head base active)
    (protectHead_calm o head base active)
    (Spec.stayAccepted hw₄ (protectHead_spec hw₄ head base active)) ht hI)
    fun protection s₅ t₅ h₅ => ?_
  obtain ⟨⟨hw₅, hstay₅⟩, hc₅, rfl⟩ := h₅
  have hc := hc.trans (hc₄.trans hc₅)
  refine Prog.wpNoted_ite (fun _ => settle hc) fun _ => ?_
  refine finish hc (backfill_noted ht hI hw₅ (fun c hmem => ?_) (h.calm hc) (hmay.kept hc.sameView))
  exact hstay₅ c (hstay₄ c (hstay₃ c (hstay₂ c (hacc c (List.mem_cons_of_mem _ hmem)))))

/-- **A turn of the admission keeps the history lawful.** -/
theorem admission_noted (hw : Work o {} s) (h : Owned none s)
    (hnone : s.schedule.prefillLane = none) {previousUnitWasDecode : Bool}
    {membership : List (Nat × Nat)} (hI : Alternates t)
    (hfacts : RoundFacts o previousUnitWasDecode membership s t)
    (hm : membership = [] ∨ previousUnitWasDecode = true) (control : Bool) :
    Noted o (admission o previousUnitWasDecode membership control) (notedPre o) s
      (.admission :: t) := by
  have ht : PassOver (.admission :: t) := trivial
  have hI₁ : Alternates (.admission :: t) := hI.event (by simp)
  have hfacts₁ : RoundFacts o previousUnitWasDecode membership s (.admission :: t) :=
    ⟨hfacts.flag, hfacts.ready⟩
  have hmay : MayPrefill o s (.admission :: t) := by
    rcases hm with hempty | hflag
    · exact Or.inr (hfacts.ready hempty)
    · exact Or.inl (hfacts₁.flag.symm.trans hflag)
  refine Prog.wpNoted_seq (tryAdmitOnce_noted hw h ht hI₁ hmay control) fun next s₁ t₁ h₁ => ?_
  split
  · obtain ⟨hc, rfl⟩ := h₁.calm fun he => (by cases he)
    exact ⟨hfacts₁.kept hc.sameView, hm⟩
  · exact (h₁.unit rfl).symm
  next progress hne =>
  obtain ⟨hc, rfl⟩ := h₁.calm fun he => hne (AdmitNext.finished.inj he)
  have hfacts₂ := hfacts₁.kept hc.sameView
  refine Prog.wpNoted_ite (fun _ => hfacts₂.flag) fun _ => ?_
  refine decodeOrIdle_noted hfacts₂ ht hI₁ fun _ v hv => ?_
  exact ⟨fun _ hu => (by cases hu), fun _ _ => hc.prefillLane.trans hnone, fun _ _ _ => rfl⟩

/-! ## Runs -/

/-- The runs with their history. -/
def Recorded (o : Options) (c : Config) (t : History) : Prop :=
  Relation.ReflTransGen
    (HistoryStep (notes o) anyAnswer (workerLoop o) (CallerStep o.maxOutstanding))
    (Config.init, []) (c, t)

/-- A recorded run is a run. -/
theorem Recorded.reachable {c : Config} (h : Recorded o c t) : Reachable o c :=
  machineSteps_of_history h

/-- Every run can be recorded. -/
theorem Reachable.recorded {c : Config} (h : Reachable o c) : ∃ t, Recorded o c t :=
  exists_history h []

/-- **Every block keeps the history lawful.** -/
theorem workerLoop_noted (l : Label) (p : Worker Label) (hl : workerLoop o l = some p)
    (hI : Alternates t) (hb : boundaryPre anyAnswer o l s) (h : notedPre o l s t) :
    Alternates ((notes o).enter l s t) ∧ Noted o p (notedPre o) s ((notes o).enter l s t) := by
  cases l with
  | top previousUnitWasDecode =>
    obtain rfl := Option.some.inj hl
    have hI₁ : Alternates (.iteration :: t) := hI.event (by simp)
    refine ⟨hI₁, Prog.wpNoted_seq (Q := fun _ _ t' => t' = .iteration :: t)
      (fun s₁ _ => ⟨hI₁, rfl⟩) fun status s₁ t₁ h₁ => ?_⟩
    obtain rfl := h₁
    cases status with
    | blocked => exact h
    | stopping => trivial
    | ready =>
      exact (Prog.wpNoted_handle _ _).mpr ((iteration_noted hI h).mono (fun _ _ _ h => h)
        fun _ _ _ _ => trivial)
  | admitting previousUnitWasDecode membership control =>
    obtain rfl := Option.some.inj hl
    obtain ⟨hfacts, hm⟩ := h
    obtain ⟨howned, hnone, -⟩ := hb.2
    exact ⟨hI.event (by simp), (Prog.wpNoted_handle _ _).mpr ((admission_noted hb.1 howned hnone hI
      hfacts hm control).mono (fun _ _ _ h => h) fun _ _ _ _ => trivial)⟩
  | failing error =>
    obtain rfl := Option.some.inj hl
    have hI₁ : Alternates (.failure :: t) := hI.event (by simp)
    refine ⟨hI₁, Prog.wpNoted_seq (noted_true (failAll_unitFree _ error) (t := .failure :: t)
      trivial hI₁ s) fun _ _ _ _ => ?_⟩
    trivial
  | returned => cases hl

theorem notedPre_kept (l : Label) (hv : SameView s s') (h : notedPre o l s t) :
    notedPre o l s' t := by
  cases l with
  | top => exact h
  | admitting => exact ⟨h.1.kept hv, h.2⟩
  | failing => trivial
  | returned => trivial

/-- The history of every run is lawful. -/
theorem Recorded.alternates {c : Config} (h : Recorded o c t) : Alternates t := by
  have hgood : GoodNoted (notes o) anyAnswer (CallerStep o.maxOutstanding) Alternates
      (fun l s t => boundaryPre anyAnswer o l s ∧ notedPre o l s t) (c, t) := by
    refine history_good (c := (Config.init, [])) (Answers.stable_any _) notes_stable
      (fun l t s s' hs h => ?_) (fun l p s t hl hI h => ?_) ⟨alternates_nil, boundaryPre_init, rfl⟩ h
    · exact ⟨boundaryPre_caller l hs h.1, notedPre_kept l (sameView_of_rely (.single hs)) h.2⟩
    · obtain ⟨henter, hblock⟩ := workerLoop_noted l p hl hI h.1 h.2
      refine ⟨henter, (hblock.and_wpIn (workerLoop_boundary l p s hl h.1)).mono
        (fun _ _ _ h' => ⟨h'.2.1, h'.1⟩) fun _ _ _ _ => trivial⟩
  exact hgood.lawful

/-- **Prefill and decode alternate.** In every run of the worker, whatever the callers and the
target do: of two units on the GPU with none in between, both are prefills only if no slot is ready
to decode when the second starts; both are decode rounds only if no lane is prefilled then, and if
besides the expiry pass of the iteration has left nothing in the queue or `try_admit_one` has been
called in between. Every run of the executor has such a history. -/
theorem units_alternate (o : Options) :
    (∀ c, Reachable o c → ∃ t, Recorded o c t) ∧
    ∀ c t, Recorded o c t → Reachable o c ∧
      ∀ newer u older, t = newer ++ .unit u :: older → ∀ v, lastUnit older = some v →
        (v.kind = .prefill → u.kind = .prefill → u.readyLanes = []) ∧
        (v.kind = .decode → u.kind = .decode → u.prefillLane = none) ∧
        (v.kind = .decode → u.kind = .decode → queueLeft older ≠ [] →
          admissionTried older = true) := by
  refine ⟨fun c h => h.recorded, fun c t h => ⟨h.reachable, fun newer u older ht v hv => ?_⟩⟩
  obtain ⟨hprefill, hdecode, hqueued⟩ := h.alternates newer u older ht v hv
  exact ⟨hprefill, hdecode, hqueued⟩

/-! ## A recorded run -/

/-- One step of the worker with its history, for given answers of the oracle. -/
def recordStep (o : Options) (answers : ∀ {β : Type}, Oracle β → β) :
    Config × History → Config × History
  | ((.label l, s), t) =>
    match workerLoop o l with
    | some p => ((.run p, s), (notes o).enter l s t)
    | none => ((.label l, s), t)
  | ((.run (.act f k), s), t) => ((.run (k (f s).1), (f s).2), (notes o).act s (f s).2 t)
  | ((.run (.ask q k), s), t) => ((.run (k (answers q)), s), (notes o).ask q s t)
  | ((.run (.ret l), s), t) => ((.label l, s), t)
  | c => c

theorem Recorded.step {c : Config × History} (h : Recorded o c.1 c.2)
    (answers : ∀ {β : Type}, Oracle β → β) :
    Recorded o (recordStep o answers c).1 (recordStep o answers c).2 := by
  unfold recordStep
  split
  · split
    next hl => exact h.tail (.enter hl)
    · exact h
  · exact h.tail .act
  · exact h.tail (.ask _ trivial)
  · exact h.tail .goto
  · exact h

/-- The worker makes `n` steps. -/
def recordSteps (o : Options) (answers : ∀ {β : Type}, Oracle β → β) :
    Nat → Config × History → Config × History
  | 0, c => c
  | n + 1, c => recordSteps o answers n (recordStep o answers c)

theorem Recorded.steps (answers : ∀ {β : Type}, Oracle β → β) (n : Nat) {c : Config × History}
    (h : Recorded o c.1 c.2) :
    Recorded o (recordSteps o answers n c).1 (recordSteps o answers n c).2 := by
  induction n generalizing c with
  | zero => exact h
  | succ n ih => exact ih (h.step answers)

/-- A target that decodes several rounds for each request. -/
def longTarget : ∀ {β : Type}, Oracle β → β
  | _, .planRequestBase _ =>
    .ok { smallPlan with effectiveOutputTokens := 4, serviceWorkQuanta := 8 }
  | _, .planRequestForLane _ _ =>
    .ok { smallPlan with effectiveOutputTokens := 4, serviceWorkQuanta := 8 }
  | _, .decodeBatch _ _ => .ok { tokens := [7] }
  | _, .decodeRound _ _ _ => .ok (⟨1, .none⟩, [])
  | _, q => smallTarget q

/-- Two requests in the queue of an engine that runs one. -/
def queuedTwo : State := State.enqueue (State.reserve queuedOne) 2

theorem queuedTwo_recorded : Recorded smallEngine (.label (.top false), queuedTwo) [] := by
  have hfirst : Recorded smallEngine (.label (.top false), State.reserve {}) [] :=
    .single (.env (.reserve ⟨rfl, rfl⟩ (by decide)))
  have hone : Recorded smallEngine (.label (.top false), queuedOne) [] :=
    hfirst.tail (.env (.enqueue rfl ⟨rfl, rfl⟩))
  have hsecond : Recorded smallEngine (.label (.top false), State.reserve queuedOne) [] :=
    hone.tail (.env (.reserve ⟨rfl, rfl⟩ (by decide)))
  exact hsecond.tail (.env (.enqueue rfl ⟨rfl, rfl⟩))

/-- The first request has been prefilled, and has decoded in two rounds. -/
def twoRounds : Config × History :=
  recordSteps smallEngine longTarget 105 ((.label (.top false), queuedTwo), [])

/-- Between the two rounds an admission was tried for the second request, which is still queued. -/
theorem units_alternate_queued : ∃ u older v, twoRounds.2 = .unit u :: older ∧
    lastUnit older = some v ∧ v.kind = .decode ∧ u.kind = .decode ∧ queueLeft older = [2] ∧
      admissionTried older = true := by
  have hrun : Recorded smallEngine twoRounds.1 twoRounds.2 :=
    queuedTwo_recorded.steps longTarget 105
  have hlast : twoRounds.2 = .unit ⟨.decode, none, [0]⟩ :: twoRounds.2.tail := by decide
  have hfirst : lastUnit twoRounds.2.tail = some ⟨.decode, none, [0]⟩ := by decide
  have h := ((units_alternate smallEngine).2 twoRounds.1 twoRounds.2 hrun).2 [] _ _ hlast _ hfirst
  exact ⟨_, _, _, hlast, hfirst, rfl, rfl, by decide, h.2.2 rfl rfl (by decide)⟩

end Ninfer.Executor
