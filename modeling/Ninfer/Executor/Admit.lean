import Ninfer.Executor.Actions

/-!
# Admission

`try_admit_one`: a queued request is removed with an error, or moves from the queue through the
worker's hands into a slot. On the way only the check of the temporal credit could leave it behind,
and that check cannot fail, since nothing spends the credit between the choice of a candidate and
its admission.

## Main definitions

* `Admissible`: a lane is free for a request, and the temporal credit covers it

## Main results

* `examine_spec`: the checks of a queued request, and the lane they choose
* `admitPlannedRequest_spec`: the admission of a request loses nothing
* `tryAdmitOnce_spec`: one turn of `try_admit_one` keeps the assertion
-/

namespace Ninfer.Executor

variable {o : Options} {f : Focus} {s s' s'' : State} {id lane : Nat} {hand : List Nat}
  {X : Failure → State → Prop}

/-! ## Accepted requests stay accepted -/

/-- No request stops being accepted. -/
def StayAccepted (s s' : State) : Prop :=
  ∀ i, (s.reqs i).phase = .accepted → (s'.reqs i).phase = .accepted

theorem CallerStep.stayAccepted (hi : Inv o.maxOutstanding s)
    (h : CallerStep o.maxOutstanding s s') : StayAccepted s s' := by
  have rejected : ∀ (g : Request → Request) (id : Nat), (s.reqs id).phase ≠ .accepted →
      StayAccepted s ((s.updateReq id g).giveBack id) := by
    intro g id hn i ha
    have hne : i ≠ id := by
      rintro rfl
      exact hn ha
    rw [State.updateReq, giveBack_reqs, State.setReq_reqs_of_ne _ _ _ hne]
    exact ha
  have changed : ∀ (r : Request) (id : Nat), (s.reqs id).phase ≠ .accepted ∨ r.phase = .accepted →
      StayAccepted s (s.setReq id r) := by
    intro r id hr i ha
    rcases eq_or_ne i id with rfl | hne
    · rw [State.setReq_reqs_self]
      exact hr.resolve_left fun hn => hn ha
    · rw [State.setReq_reqs_of_ne _ _ _ hne]
      exact ha
  cases h with
  | reserve =>
    have hidle : (s.reqs s.nextRequestId).phase = .idle := (hi.ids _).mpr (Or.inr (le_refl _))
    exact changed _ _ (Or.inl (by simp [hidle]))
  | sessionFails h => exact changed _ _ (Or.inl (by simp [h]))
  | enqueue h => exact changed _ _ (Or.inr rfl)
  | consumer h hstep => exact changed _ _ (Or.inr (hstep.same.1.trans h))
  | releaseReserved h => exact rejected _ _ (by simp [h])
  | refuse h => exact rejected _ _ (by simp [h])
  | @releaseCapacity id h =>
    intro i ha
    rw [State.updateReq, giveBack_reqs]
    exact (s.setReq_proj id _ (·.phase) (by rfl) i).trans ha
  | stop => exact fun _ h => h

theorem stayAccepted_of_rely (hi : Inv o.maxOutstanding s) (h : Rely o s s') :
    Inv o.maxOutstanding s' ∧ StayAccepted s s' := by
  induction h with
  | refl => exact ⟨hi, fun _ h => h⟩
  | tail _ hs ih => exact ⟨ih.1.caller hs, fun i ha => hs.stayAccepted ih.1 i (ih.2 i ha)⟩

theorem StayAccepted.rely {s₁ : State} (hstay : StayAccepted s₁ s) (hi : Inv o.maxOutstanding s)
    (h : Rely o s s') : StayAccepted s₁ s' :=
  fun i ha => (stayAccepted_of_rely hi h).2 i (hstay i ha)

theorem Spec.stayAccepted {α : Type} {p : Worker α} {Q : α → State → Prop} (hw : Work o f s)
    (h : Spec o p Q X s) : Spec o p (fun a s' => Q a s' ∧ StayAccepted s s') X s := by
  refine (Prog.WpIn.frame
    (T := fun s s' => Inv o.maxOutstanding s → Inv o.maxOutstanding s' ∧ StayAccepted s s')
    (fun _ hi => ⟨hi, fun _ ha => ha⟩) (fun h h' hi => ?_) (fun hr hi => stayAccepted_of_rely hi hr)
    (fun hg _ => ⟨hg.inv, fun i ha => (hg.phase i).trans ha⟩) h).mono
    (fun _ _ h' => ⟨h'.1, (h'.2 hw.inv).2⟩) fun _ _ h' => h'.1
  obtain ⟨hi', hs⟩ := h hi
  obtain ⟨hi'', hs'⟩ := h' hi'
  exact ⟨hi'', fun i ha => hs' i (hs i ha)⟩

/-! ## Leaving the queue -/

theorem clearProtectionIfHead_spec (hw : Work o f s) :
    Spec o (clearProtectionIfHead id)
      (fun _ s' => Work o f s' ∧ Quiet s { s' with schedule := s.schedule }) X s := by
  refine schedule_spec hw (fun s => ?_) fun s' schedule hrely hw' _ =>
    ⟨hw', { quiet_of_rely hrely with schedule := rfl }⟩
  split
  · exact ⟨_, rfl⟩
  · split_ifs
    · exact ⟨_, rfl⟩
    · exact ⟨_, rfl⟩

/-- What `erase_pending` leaves: the request in the worker's hands, or nothing changed. -/
structure Erased (o : Options) (id : Nat) (s₀ : State) (erased : Bool) (s : State) : Prop where
  quiet : Quiet s₀ s
  taken : erased = true → Work o { hand := [id] } s ∧ (s.reqs id).job.output = {}
  absent : erased = false → Work o {} s

theorem erasePending_spec (hw : Work o {} s) : Spec o (erasePending id) (Erased o id s) X s := by
  refine Prog.wp_atomically fun s₁ hrely => ?_
  have hw := hw.rely hrely
  have hq := quiet_of_rely hrely
  split_ifs with hmem
  · have hinv : Inv o.maxOutstanding { s₁ with pending := s₁.pending.erase id } := { hw.inv with }
    refine ⟨guarantee_of_reqs hinv rfl (fun h => h) fun i h => List.mem_of_mem_erase h,
      { hq with }, fun _ => ⟨?_, hw.queued id hmem⟩, nofun⟩
    refine hw.move hinv rfl (fun i => ?_) (fun i h => List.mem_of_mem_erase h) hw.lanes
    have hpos := List.count_pos_iff.mpr hmem
    change (s₁.pending.erase id).count i + slotCount _ s₁ i + [id].count i =
      s₁.pending.count i + slotCount _ s₁ i + [].count i
    rw [count_cons_ite]
    rcases eq_or_ne i id with rfl | hne
    · rw [List.count_erase_self, if_pos rfl]
      omega
    · rw [List.count_erase_of_ne hne, if_neg hne, Nat.add_zero]
  · exact ⟨guarantee_refl hw, hq, nofun, fun _ => hw⟩

/-- A queued request is removed with an error. -/
theorem removePendingError_spec (hw : Work o {} s) (error : Failure) :
    Spec o (removePendingError id error) (fun _ => Rests o s) X s := by
  refine Prog.wp_seq (erasePending_spec hw) fun erased s₁ h => ?_
  cases erased with
  | false => exact ⟨h.absent rfl, h.quiet.slots⟩
  | true =>
    refine Prog.wp_seq (clearProtectionIfHead_spec (h.taken rfl).1) fun _ s₂ h' => ?_
    refine Prog.wp_seq (completeError_spec h'.1 (Or.inl List.mem_cons_self) error) fun _ s₃ hc => ?_
    exact ⟨hc.drop, hc.keeps.touches.slots.trans (h'.2.slots.trans h.quiet.slots)⟩

/-- A cancelled request is removed from the queue. Its session is unused, so this does not throw. -/
theorem removePendingCancelled_spec (hw : Work o {} s) (isCandidate : Bool) :
    Spec o (removePendingCancelled id isCandidate) (fun _ => Rests o s) X s := by
  refine Prog.wp_seq (erasePending_spec hw) fun erased s₁ h => ?_
  cases erased with
  | false => exact ⟨h.absent rfl, h.quiet.slots⟩
  | true =>
    obtain ⟨hw₁, hout⟩ := h.taken rfl
    have hcancel : ∀ s₂, Work o { hand := [id] } s₂ → (s₂.reqs id).job.output = {} →
        s₂.slots = s.slots → Spec o (completeCancelled id >>= fun _ =>
          pure AdmissionProgress.controlProgress) (fun _ => Rests o s) X s₂ := by
      intro s₂ hw₂ hout₂ hslots
      refine Prog.wp_seq ((completeCancelled_spec hw₂ (Or.inl List.mem_cons_self)).mono
        (fun _ _ h => h) fun _ _ h => absurd hout₂ h.2) fun _ s₃ hc => ?_
      exact ⟨hc.drop, hc.keeps.touches.slots.trans hslots⟩
    refine Prog.wp_ite (fun _ => Prog.wp_ite (fun _ => ?_) fun _ => ?_) nofun
    · exact hcancel s₁ hw₁ hout h.quiet.slots
    · refine Prog.wp_seq (clearProtectionIfHead_spec hw₁) fun _ s₂ h' => ?_
      refine hcancel s₂ h'.1 ?_ (h'.2.slots.trans h.quiet.slots)
      rw [← hout]
      exact congrArg Job.output (h'.2.job id)

/-! ## Plans and lanes -/

/-- Writing a part of a job that neither the queue nor the lanes rest on. -/
theorem writePlan_spec {g : State → Job → Job} (hw : Work o {} s) (ha : (s.reqs id).phase = .accepted)
    (hg : ∀ s j, (g s j).output = j.output ∧ (g s j).lane = j.lane) :
    Spec o (Prog.writeState fun s => s.updateJob id (g s)) (fun _ => Keeps o {} id s) X s := by
  refine Prog.wp_writeState fun s₁ hrely => ?_
  have hk := (hw.keeps id).rely hrely
  have ha := (stayAccepted_of_rely hw.inv hrely).2 id ha
  have hwork : Work o {} (s₁.updateJob id (g s₁)) := hk.work.updateJob ha
    (fun _ => (hg _ _).1) fun lane hslot => (hg _ _).2.trans (hk.work.lanes lane id hslot).2
  exact ⟨guarantee_setReq hwork.inv rfl ⟨rfl, rfl⟩ ⟨rfl, rfl⟩ fun h => ⟨h, rfl, rfl⟩, hwork,
    hk.touches.trans (touches_setReq rfl rfl rfl (hg _ _).2)⟩

theorem ensureBasePlan_spec (hw : Work o {} s) (ha : (s.reqs id).phase = .accepted) :
    Spec o (ensureBasePlan id) (fun _ => Rests o s) (fun _ => Rests o s) s := by
  refine read_seq hw fun s₁ hrely => ?_
  have hrest := hw.rests.rely hrely
  have ha := (stayAccepted_of_rely hw.inv hrely).2 id ha
  refine Prog.wp_seq (Q := fun _ => Rests o s) ?_ fun summary s₂ h => Prog.wp_ite (fun _ => h) fun _ => h
  unfold basePlan
  split
  · exact hrest
  · refine attempt_seq (fun summary => ?_) fun _ => hrest
    refine Prog.wp_seq (writePlan_spec hrest.work ha fun _ _ => ⟨rfl, rfl⟩) fun _ s₂ h => ?_
    exact hrest.trans h.rests

theorem ensureLanePlan_spec (hw : Work o {} s) (ha : (s.reqs id).phase = .accepted) :
    Spec o (ensureLanePlan id lane) (fun _ => Rests o s) (fun _ => Rests o s) s := by
  refine read_seq hw fun s₁ hrely => ?_
  have hrest := hw.rests.rely hrely
  have ha := (stayAccepted_of_rely hw.inv hrely).2 id ha
  refine Prog.wp_ite (fun _ => hrest) fun _ => ?_
  refine Prog.wp_seq (Spec.stayAccepted hrest.work
    (writePlan_spec hrest.work ha (by exact fun _ _ => ⟨rfl, rfl⟩))) fun _ s₂ h => ?_
  have hrest₂ := hrest.trans h.1.rests
  refine attempt_seq (fun plan => ?_) fun _ => hrest₂
  exact Prog.WpIn.mono (writePlan_spec hrest₂.work (h.2 id ha) fun _ _ => ⟨rfl, rfl⟩)
    (fun _ _ h => hrest₂.trans h.rests) fun _ _ h => h

/-- A lane that is free. -/
def Free (o : Options) (s : State) (choice : LaneChoice) : Prop :=
  choice.lane < o.maxConcurrency ∧ s.slots choice.lane = none

theorem Free.rely {choice : LaneChoice} (hfree : Free o s choice) (h : Rely o s s') :
    Free o s' choice := by
  rw [Free, (quiet_of_rely h).slots]
  exact hfree

/-- The loops of `find_admission_lane` choose free lanes. -/
theorem selectLane_spec {feasible : Nat → Oracle Bool} {evictRetained : Bool} :
    ∀ {lanes : List Nat} {selected : Option (LaneChoice × Nat)} {s : State}, Work o {} s →
      (s.reqs id).phase = .accepted → (∀ lane ∈ lanes, lane < o.maxConcurrency) →
      (∀ choice ∈ selected, Free o s choice.1) →
      Spec o (selectLane id feasible evictRetained lanes selected)
        (fun selected s' => Rests o s s' ∧ ∀ choice ∈ selected, Free o s' choice.1)
        (fun _ => Rests o s) s
  | [], selected, s, hw, _, _, hsel => ⟨hw.rests, hsel⟩
  | lane :: lanes, selected, s, hw, ha, hlanes, hsel => by
    have hrec : ∀ {selected : Option (LaneChoice × Nat)} {s₁ : State}, Rests o s s₁ →
        StayAccepted s s₁ → (∀ choice ∈ selected, Free o s₁ choice.1) →
        Spec o (selectLane id feasible evictRetained lanes selected)
          (fun selected s' => Rests o s s' ∧ ∀ choice ∈ selected, Free o s' choice.1)
          (fun _ => Rests o s) s₁ := fun hrest hacc hsel' =>
      (selectLane_spec hrest.work (hacc id ha) (fun l h => hlanes l (List.mem_cons_of_mem _ h))
        hsel').mono (fun _ _ h => ⟨hrest.trans h.1, h.2⟩) fun _ _ h => hrest.trans h
    have hfree : ∀ {s₁ : State}, Rests o s s₁ → ∀ choice ∈ selected, Free o s₁ choice.1 := by
      intro s₁ hrest choice hmem
      rw [Free, hrest.slots]
      exact hsel choice hmem
    refine read_seq hw fun s₁ hrely => ?_
    have hrest := hw.rests.rely hrely
    have hacc := (stayAccepted_of_rely hw.inv hrely).2
    split
    · exact hrec hrest hacc (hfree hrest)
    next hnone =>
    refine Prog.wp_seq (Spec.stayAccepted hrest.work ((ensureLanePlan_spec hrest.work
      (hacc id ha)).mono (fun _ _ h => h) fun _ _ h => hrest.trans h)) fun _ s₂ h => ?_
    refine read_seq h.1.work fun s₃ hrely => ?_
    have hrest₃ := hrest.trans (h.1.rely hrely)
    have hacc₃ : StayAccepted s s₃ := fun i hi =>
      (stayAccepted_of_rely h.1.work.inv hrely).2 i (h.2 i (hacc i hi))
    split
    · trivial
    refine query_seq fun admits => hrec hrest₃ hacc₃ fun choice hmem => ?_
    split_ifs at hmem
    · obtain rfl := Option.some.inj hmem
      refine ⟨hlanes lane List.mem_cons_self, ?_⟩
      rw [hrest₃.slots, ← hrest.slots]
      exact hnone
    · exact hfree hrest₃ choice hmem

theorem findAdmissionLane_spec (hw : Work o {} s) (ha : (s.reqs id).phase = .accepted) :
    Spec o (findAdmissionLane o.maxConcurrency id)
      (fun choice s' => Rests o s s' ∧ ∀ c ∈ choice, Free o s' c) (fun _ => Rests o s) s := by
  refine Prog.wp_seq ((selectLane_spec hw ha (fun _ h => List.mem_range.mp h) (by simp)).stayAccepted hw)
    fun direct s₁ h => ?_
  obtain ⟨⟨hrest, hfree⟩, hacc⟩ := h
  split
  next choice _ =>
    refine ⟨hrest, fun c hc => ?_⟩
    obtain rfl := Option.some.inj hc
    exact hfree _ rfl
  · refine Prog.wp_seq ((selectLane_spec hrest.work (hacc id ha) (fun _ h => List.mem_range.mp h)
      (by simp)).mono (fun _ _ h => h) fun _ _ h => hrest.trans h) fun evicting s₂ h => ?_
    refine ⟨hrest.trans h.1, fun c hc => ?_⟩
    obtain ⟨choice, hmem, rfl⟩ := Option.mem_map.mp hc
    exact h.2 choice hmem

/-- What the checks of a queued request leave: a lane they have chosen is free. -/
def Examines (o : Options) (s₀ : State) (examined : Examined) (s : State) : Prop :=
  Rests o s₀ s ∧ ∀ base choice, examined = .planned base (some choice) → Free o s choice

/-- **The checks of a queued request** keep the assertion, and do not throw. -/
theorem examine_spec (hw : Work o {} s) (ha : (s.reqs id).phase = .accepted) (isCandidate : Bool) :
    Spec o (examine o id isCandidate) (Examines o s) X s := by
  have removed : ∀ {s₁ : State} (e : Failure), Rests o s s₁ →
      Spec o (removePendingError id e >>= fun _ => pure (Examined.removed .controlProgress))
        (Examines o s) X s₁ := fun e hrest =>
    Prog.wp_seq (removePendingError_spec hrest.work e) fun _ _ h => ⟨hrest.trans h, nofun⟩
  refine read_seq hw fun s₁ hrely => ?_
  have hrest := hw.rests.rely hrely
  have ha := (stayAccepted_of_rely hw.inv hrely).2 id ha
  refine Prog.wp_ite (fun _ => ?_) fun _ => query_seq fun late => Prog.wp_ite (fun _ => ?_) fun _ => ?_
  · exact Prog.wp_seq (removePendingCancelled_spec hrest.work isCandidate) fun _ _ h =>
      ⟨hrest.trans h, nofun⟩
  · exact removed _ hrest
  refine Prog.wp_seq (Q := fun _ s' => Rests o s₁ s' ∧ StayAccepted s₁ s') (Spec.stayAccepted hrest.work
    ((Prog.wp_catching _ _).mpr (ensureBasePlan_spec hrest.work ha))) fun base s₂ h => ?_
  have hrest₂ := hrest.trans h.1
  split
  · exact removed _ hrest₂
  refine Prog.wp_ite (fun _ => ?_) fun _ => removed _ hrest₂
  refine Prog.wp_seq (Q := fun lane s' => Rests o s₂ s' ∧ ∀ c, lane = .ok (some c) → Free o s' c)
    ((Prog.wp_catching _ _).mpr ?_) fun lane s₃ h => ?_
  · exact (findAdmissionLane_spec hrest₂.work (h.2 id ha)).mono
      (fun lane _ h => ⟨h.1, fun c hc => h.2 c (by simpa using hc)⟩) fun _ _ h => ⟨h, nofun⟩
  have hrest₃ := hrest₂.trans h.1
  split
  · exact removed _ hrest₃
  · refine ⟨hrest₃, fun base choice hc => h.2 choice ?_⟩
    cases hc
    rfl

/-! ## Admission of one request -/

/-- The lanes, jobs and the protection are as they were; plans may have been invalidated. -/
structure Waits (o : Options) (s₀ s : State) : Prop where
  work : Work o {} s
  slots : s.slots = s₀.slots
  job : ∀ i, (s.reqs i).job = (s₀.reqs i).job
  protection : s.schedule.protection = s₀.schedule.protection
  accepted : StayAccepted s₀ s

theorem Work.waits (hw : Work o {} s) : Waits o s s := ⟨hw, rfl, fun _ => rfl, rfl, fun _ h => h⟩

theorem Waits.rely {s₀ : State} (h : Waits o s₀ s) (hr : Rely o s s') : Waits o s₀ s' where
  work := h.work.rely hr
  slots := (quiet_of_rely hr).slots.trans h.slots
  job := fun i => ((quiet_of_rely hr).job i).trans (h.job i)
  protection := by rw [(quiet_of_rely hr).schedule, h.protection]
  accepted := fun i ha => (stayAccepted_of_rely h.work.inv hr).2 i (h.accepted i ha)

theorem evictRetainedLanes_spec {s₀ : State} : ∀ {lanes : List Nat} {s : State}, Waits o s₀ s →
    Spec o (evictRetainedLanes lane id lanes) (fun _ => Waits o s₀) X s
  | [], _, h => h
  | retainedLane :: lanes, s, h => by
    refine query_seq fun admits => Prog.wp_ite (fun _ => h) fun _ => ?_
    refine read_seq h.work fun s₁ hrely => query_seq fun retained => ?_
    have h := h.rely hrely
    refine Prog.wp_ite (fun _ => query_seq fun _ => ?_) fun _ => evictRetainedLanes_spec h
    refine Prog.wp_seq (Q := fun _ => Waits o s₀) (schedule_spec h.work (fun s => ⟨_, rfl⟩)
      fun s₂ schedule hrely hw heq => ?_) fun _ s₂ h => evictRetainedLanes_spec h
    have h := h.rely hrely
    refine ⟨hw, h.slots, h.job, ?_, h.accepted⟩
    rw [← heq]
    exact h.protection

theorem makeFeasible_spec (hw : Work o {} s) (n : Nat) (choice : LaneChoice) :
    Spec o (makeFeasible n id choice) (fun _ => Waits o s) X s :=
  Prog.wp_ite (fun _ => Prog.wp_seq (evictRetainedLanes_spec hw.waits) fun _ _ h => fun _ _ => h)
    fun _ => hw.waits

/-- The temporal credit covers the work of an admission. -/
def CreditCovers (s : State) (backfillClass : BackfillClass) (backfillEpoch work : Nat) : Prop :=
  backfillClass = .temporal → ∃ protection, s.schedule.protection = some protection ∧
    protection.epochId = backfillEpoch ∧ work ≤ protection.temporalCredit

theorem CreditCovers.keep {backfillClass : BackfillClass} {backfillEpoch work : Nat}
    (h : CreditCovers s backfillClass backfillEpoch work)
    (hprot : s'.schedule.protection = s.schedule.protection) :
    CreditCovers s' backfillClass backfillEpoch work := by
  rw [CreditCovers, hprot]
  exact h

/-- Nothing has spent the credit in the meantime, so that the check does not throw. -/
theorem spendTemporalCredit_spec (hw : Work o f s) {backfillClass : BackfillClass}
    {backfillEpoch work : Nat} (hc : CreditCovers s backfillClass backfillEpoch work) :
    Spec o (spendTemporalCredit backfillClass backfillEpoch work)
      (fun _ s' => Work o f s' ∧ s'.slots = s.slots) X s := by
  refine Prog.wp_ite (fun hclass => ?_) fun _ => ⟨hw, rfl⟩
  obtain ⟨protection, hp, hepoch, hwork⟩ := hc hclass
  refine Prog.wp_seq (Q := fun spent s' => spent = true ∧ Work o f s' ∧ s'.slots = s.slots)
    (Prog.wp_atomically fun s₁ hrely => ?_) ?_
  · have hw := hw.rely hrely
    have hq := quiet_of_rely hrely
    rw [hq.schedule, hp]
    simp only
    rw [if_neg (by omega)]
    have hwork' : ∀ schedule, Work o f { s₁ with schedule := schedule } := fun _ =>
      { hw with inv := { hw.inv with } }
    exact ⟨guarantee_of_reqs (hwork' _).inv rfl (fun h => h) fun _ h => h, rfl, hwork' _, hq.slots⟩
  · rintro _ s₁ ⟨rfl, h⟩
    exact h

/-- A request in the worker's hands goes into a free slot. -/
theorem occupyLane_spec (hw : Work o { hand := [id] } s) {choice : LaneChoice}
    (hfree : Free o s choice) (backfillClass : BackfillClass) (backfillEpoch : Nat)
    (summary : RequestPlanSummary) :
    Spec o (occupyLane id choice.lane backfillClass backfillEpoch summary)
      (fun _ s' => Work o {} s' ∧ s'.slots choice.lane = some id)
      (fun _ s' => Work o {} s' ∧ s'.slots choice.lane = some id) s := by
  refine Prog.wp_ite (fun _ => trivial) fun _ => ?_
  refine Prog.wp_seq (Q := fun _ s' => Work o {} s' ∧ s'.slots choice.lane = some id)
    (Prog.wp_writeState fun s₁ hrely => ?_) fun _ s₂ h => ?_
  · have hw := hw.rely hrely
    have hnone : s₁.slots choice.lane = none := (hfree.rely hrely).2
    have hh : Held { hand := [id] } s₁ id := Or.inl List.mem_cons_self
    have ha := (hw.held rfl hh).1
    -- The request is in the worker's hands, hence in no slot.
    have hout : ∀ lane, s₁.slots lane ≠ some id := by
      intro lane hslot
      have hle := hw.places_le id
      have hpos := slotCount_pos (hw.lanes lane id hslot).1 hslot
      simp only [places, count_cons_ite, if_true] at hle
      omega
    generalize hg : (fun j : Job => { j with
      budget := some ⟨summary.effectiveOutputTokens, summary.effectiveLimitReason⟩
      lane := some choice.lane
      admissionResources := summary.admission
      remainingServiceWork := summary.serviceWorkQuanta
      backfillEpoch := backfillEpoch
      backfillClass := backfillClass
      admitted := some summary }) = g
    have hlane : ∀ j, (g j).lane = some choice.lane := fun j => by rw [← hg]
    have hw₂ : Work o { hand := [id] } (s₁.updateJob id g) := hw.updateJob ha
      (fun hmem => absurd hmem (hw.held_not_pending hh)) fun lane h => absurd h (hout lane)
    have hinv : Inv o.maxOutstanding
        (((s₁.updateJob id g).setSlot choice.lane (some id)).invalidateLanePlans choice.lane) :=
      { hw₂.inv with }
    refine ⟨guarantee_setReq hinv rfl ⟨rfl, rfl⟩ ⟨rfl, rfl⟩ fun h => ⟨h, rfl, rfl⟩,
      hw₂.move hinv rfl (fun i => ?_) (fun _ h => h) fun l i h => ?_, setSlot_slots_self ..⟩
    · have hcount := slotCount_setSlot (s := s₁.updateJob id g) hfree.1 (some id) i
      change s₁.pending.count i + slotCount _ ((s₁.updateJob id g).setSlot choice.lane (some id)) i +
        [].count i = s₁.pending.count i + slotCount _ (s₁.updateJob id g) i + [id].count i
      rw [show (s₁.updateJob id g).slots choice.lane = none from hnone] at hcount
      have hsome : (some id = some i) = (i = id) := by simp [eq_comm]
      simp only [hsome, reduceCtorEq, if_false] at hcount
      rw [count_cons_ite, List.count_nil]
      omega
    · rcases eq_or_ne l choice.lane with rfl | hne
      · have hi : i = id := Option.some.inj ((setSlot_slots_self ..).symm.trans h).symm
        refine ⟨hfree.1, ?_⟩
        rw [hi]
        rw [State.updateJob, State.updateReq, State.setReq_reqs_self]
        exact hlane _
      · exact hw₂.lanes l i ((setSlot_slots_of_ne _ _ hne).symm.trans h)
  · refine Prog.wp_ite (fun _ => ?_) fun _ => h
    refine attempt_seq (fun _ => ?_) fun _ => h
    refine schedule_spec h.1 (fun s => ⟨_, rfl⟩) fun s₃ _ hrely hw _ => ⟨hw, ?_⟩
    exact (congrFun (quiet_of_rely hrely).slots _).trans h.2

/-- The handler completes the request, and rethrows. -/
theorem abandonAdmission_spec (hw : Work o {} s) (hslot : s.slots lane = some id)
    (targetStarted : Bool) (error : Failure) {Q : Unit → State → Prop} :
    Spec o (abandonAdmission id lane targetStarted error) Q (fun _ => Work o {}) s := by
  refine Prog.wp_seq (Q := fun _ => Rests o s)
    (Prog.wp_ite (fun _ _ _ => hw.rests) fun _ => hw.rests) fun _ s₁ hrest => ?_
  refine Prog.wp_seq (clearPrefillLane_spec hrest.work) fun _ s₂ h => ?_
  refine Prog.wp_seq (Q := fun _ => Work o { hand := [id] })
    (Prog.wp_writeState fun s₃ hrely => ?_) fun _ s₃ hw => ?_
  · have hw := h.1.rely hrely
    have hslot' : s₃.slots lane = some id := by
      rw [(quiet_of_rely hrely).slots, ← hrest.slot hslot]
      exact congrFun h.2.slots lane
    have hinv : Inv o.maxOutstanding ((s₃.setSlot lane none).invalidateLanePlans lane) :=
      { hw.inv with }
    exact ⟨guarantee_of_reqs hinv rfl (fun h => h) fun _ h => h,
      hw.takeSlot hslot' hinv rfl rfl rfl⟩
  · exact Prog.wp_seq (completeError_spec hw (Or.inl List.mem_cons_self) error) fun _ _ h => h.drop

theorem startTarget_spec (hw : Work o {} s) (hslot : s.slots lane = some id) :
    Spec o (startTarget id lane) (fun _ => Work o {}) (fun _ => Rests o s) s := by
  refine Prog.wp_seq (gpuUnit_spec _ hw) fun first s₀ hrest => ?_
  refine read_seq hrest.work fun s₁ hrely => ?_
  have hrest := hrest.rely hrely
  refine Prog.wp_ite (fun _ => hrest) fun _ => read_seq hrest.work fun s₂ hrely => ?_
  have hrest := hrest.rely hrely
  exact (resolvePrefillStep_spec hrest.work (hrest.slot hslot) first _).mono (fun _ _ h => h)
    fun _ _ h => hrest.trans h

/-- The lane of an admission is free, and the credit covers the plan for it. -/
structure Admissible (o : Options) (id : Nat) (choice : LaneChoice) (backfillClass : BackfillClass)
    (backfillEpoch : Nat) (s : State) : Prop where
  free : Free o s choice
  credit : ∀ plan, (s.reqs id).job.lanePlans choice.lane = some plan →
    CreditCovers s backfillClass backfillEpoch plan.serviceWorkQuanta

/-- A temporal backfill is admissible when the credit of the protection covers its plan. -/
theorem Admissible.temporal {choice : LaneChoice} {plan : RequestPlanSummary}
    {protection : AdmissionProtection} (hfree : Free o s choice)
    (hplan : (s.reqs id).job.lanePlans choice.lane = some plan)
    (hprot : s.schedule.protection = some protection)
    (hwork : plan.serviceWorkQuanta ≤ protection.temporalCredit) :
    Admissible o id choice .temporal protection.epochId s := by
  refine ⟨hfree, fun plan' hp _ => ⟨protection, hprot, rfl, ?_⟩⟩
  obtain rfl := Option.some.inj (hplan.symm.trans hp)
  exact hwork

/-- **The admission of a request loses nothing**: afterwards it is in a slot, done, or still in the
queue. -/
theorem admitPlannedRequest_spec (hw : Work o {} s) (ha : (s.reqs id).phase = .accepted)
    {choice : LaneChoice} {backfillClass : BackfillClass} {backfillEpoch : Nat}
    (hadm : Admissible o id choice backfillClass backfillEpoch s) (n : Nat) :
    Spec o (admitPlannedRequest n id choice backfillClass backfillEpoch) (fun _ => Work o {})
      (fun _ => Work o {}) s := by
  refine query_seq fun late => Prog.wp_ite (fun _ => ?_) fun _ => ?_
  · exact (removePendingError_spec hw _).mono (fun _ _ h => h.work) fun _ _ h => h
  refine read_seq hw fun s₁ hrely => ?_
  have hwait := hw.waits.rely hrely
  refine Prog.wp_ite (fun _ => ?_) fun _ => read_seq hwait.work fun s₂ hrely => ?_
  · exact (removePendingCancelled_spec hwait.work false).mono (fun _ _ h => h.work) fun _ _ h => h
  have hwait := hwait.rely hrely
  split
  · exact hwait.work
  next summary hplan =>
  have hcredit := hadm.credit summary (by rw [← hwait.job]; exact hplan)
  refine Prog.wp_seq (makeFeasible_spec hwait.work n choice) fun feasible s₃ h => ?_
  refine Prog.wp_ite (fun _ => h.work) fun _ => ?_
  refine Prog.wp_seq (writePlan_spec h.work (h.accepted id (hwait.accepted id ha))
    (by exact fun _ _ => ⟨rfl, rfl⟩)) fun _ s₄ hk => ?_
  refine Prog.wp_seq (erasePending_spec hk.work) fun erased s₅ he => ?_
  cases erased with
  | false => exact he.absent rfl
  | true =>
    refine Prog.wp_ite (fun _ => ?_) nofun
    have hw₅ := (he.taken rfl).1
    refine Prog.wp_seq (releasePlanningState_spec hw₅ rfl (Or.inl List.mem_cons_self))
      fun _ s₆ hk₆ => ?_
    -- Since the lane was chosen, neither the slots nor the protection have changed.
    have hslots : s₆.slots = s.slots := by
      rw [hk₆.touches.slots, he.quiet.slots, hk.touches.slots, h.slots, hwait.slots]
    have hprot : s₆.schedule.protection = s.schedule.protection := by
      rw [hk₆.touches.schedule, he.quiet.schedule, hk.touches.schedule, h.protection,
        hwait.protection]
    refine Prog.wp_seq (spendTemporalCredit_spec hk₆.work (hcredit.keep hprot)) fun _ s₇ h₇ => ?_
    refine Prog.wp_seq (clearProtectionIfHead_spec h₇.1) fun _ s₈ h₈ => ?_
    have hfree : Free o s₈ choice := by
      refine ⟨hadm.free.1, ?_⟩
      rw [show s₈.slots = s₇.slots from h₈.2.slots, h₇.2, hslots]
      exact hadm.free.2
    refine Prog.wp_seq ((Prog.wp_handle _ _ _).mpr ((occupyLane_spec h₈.1 hfree backfillClass
      backfillEpoch summary).mono (fun _ _ h => h) fun e s' h => ?_)) fun _ s₉ h₉ => ?_
    · exact abandonAdmission_spec h.1 h.2 false e
    refine Prog.wp_seq ((Prog.wp_handle _ _ _).mpr ((startTarget_spec h₉.1 h₉.2).mono
      (fun _ _ h => h) fun e s' h => ?_)) fun _ s' h => h
    exact abandonAdmission_spec h.work (h.slot h₉.2) true e

/-! ## One turn of `try_admit_one` -/

theorem activeAdmissionSet_spec (hw : Work o {} s) (n : Nat) :
    Spec o (activeAdmissionSet n) (fun _ => Work o {}) (fun _ => Work o {}) s := by
  refine read_seq hw fun s₁ hrely => ?_
  exact Prog.wp_ite (fun _ => hw.rely hrely) fun _ => hw.rely hrely

theorem protectHead_spec (hw : Work o {} s) (head : Nat) (base : RequestPlanSummary)
    (active : List ActiveAdmissionSnapshot) :
    Spec o (protectHead o head base active) (fun _ => Work o {}) (fun _ => Work o {}) s := by
  refine read_seq hw fun s₁ hrely => ?_
  have hw := hw.rely hrely
  refine Prog.wp_seq (Q := fun _ => Work o {}) ?_ fun protection s₂ hw => ?_
  · unfold currentProtection
    split
    · exact hw
    · refine Prog.wp_seq (Q := fun _ => Work o {}) (Prog.wp_atomically fun s₂ hrely => ?_)
        fun epoch s₂ hw => ?_
      · have hw := hw.rely hrely
        have hw' : ∀ schedule, Work o {} { s₂ with schedule := schedule } := fun _ =>
          { hw with inv := { hw.inv with } }
        exact ⟨guarantee_of_reqs (hw' _).inv rfl (fun h => h) fun _ h => h, hw' _⟩
      · split
        · exact hw
        · exact hw
  · exact Prog.wp_seq (Q := fun _ => Work o {})
      (schedule_spec hw (fun s => ⟨_, rfl⟩) fun _ _ _ hw _ => hw) fun _ _ hw => hw

/-- The loop over the candidates behind a protected head. -/
theorem backfill_spec {active : List ActiveAdmissionSnapshot} {frontierDistance : Nat} :
    ∀ {candidates : List Nat} {control : Bool} {s : State}, Work o {} s →
      (∀ c ∈ candidates, (s.reqs c).phase = .accepted) →
      Spec o (backfill o active frontierDistance candidates control) (fun _ => Work o {})
        (fun _ => Work o {}) s
  | [], control, s, hw, _ => hw
  | candidate :: rest, control, s, hw, hacc => by
    have ha := hacc candidate List.mem_cons_self
    have hrec : ∀ {control : Bool} {s₁ : State}, Work o {} s₁ → StayAccepted s s₁ →
        Spec o (backfill o active frontierDistance rest control) (fun _ => Work o {})
          (fun _ => Work o {}) s₁ := fun hw₁ hstay =>
      backfill_spec hw₁ fun c hc => hstay c (hacc c (List.mem_cons_of_mem _ hc))
    refine Prog.wp_seq (Spec.stayAccepted hw (examine_spec hw ha true)) fun examined s₁ h => ?_
    obtain ⟨⟨hrest, hfree⟩, hstay⟩ := h
    split
    · exact hrec hrest.work hstay
    · exact hrec hrest.work hstay
    next base choice =>
    refine read_seq hrest.work fun s₂ hrely => ?_
    have hrest₂ := hrest.rely hrely
    have hstay₂ : StayAccepted s s₂ := hstay.rely hrest.work.inv hrely
    have hfree₂ : Free o s₂ choice := (hfree base choice rfl).rely hrely
    split
    next plan protection hseen =>
      obtain ⟨hplan, hprot⟩ := Prod.mk.inj hseen
      refine Prog.wp_ite (fun _ => ?_) fun _ => Prog.wp_ite (fun hcredit => ?_) fun _ => ?_
      · have hadm : Admissible o candidate choice .persistent protection.epochId s₂ :=
          ⟨hfree₂, fun _ _ => nofun⟩
        exact admitPlannedRequest_spec hrest₂.work (hstay₂ _ ha) hadm _
      · exact admitPlannedRequest_spec hrest₂.work (hstay₂ _ ha)
          (.temporal hfree₂ hplan hprot hcredit.2) _
      · exact hrec hrest₂.work hstay₂
    · trivial

/-- **One turn of `try_admit_one` keeps the assertion.** -/
theorem tryAdmitOnce_spec (hw : Work o {} s) (control : Bool) :
    Spec o (tryAdmitOnce o control) (fun _ => Work o {}) (fun _ => Work o {}) s := by
  refine read_seq hw fun s₁ hrely => ?_
  have hw := hw.rely hrely
  split
  · exact Prog.wp_seq (Q := fun _ => Work o {})
      (schedule_spec hw (fun s => ⟨_, rfl⟩) fun _ _ _ hw _ => hw) fun _ _ hw => hw
  next head rest hqueue =>
  have hacc : ∀ c ∈ head :: rest, (s₁.reqs c).phase = .accepted := fun c hc =>
    (hw.pending rfl (hqueue ▸ hc)).1
  refine Prog.wp_seq (Spec.stayAccepted (Q := fun _ => Work o {}) hw (schedule_spec hw (fun s => ?_)
    fun _ _ _ hw _ => hw)) fun _ s₂ h => ?_
  · split
    · exact ⟨_, rfl⟩
    · split_ifs
      · exact ⟨_, rfl⟩
      · exact ⟨_, rfl⟩
  obtain ⟨hw₂, hstay₂⟩ := h
  have hhead := hstay₂ head (hacc head List.mem_cons_self)
  refine Prog.wp_seq (Spec.stayAccepted hw₂ (examine_spec hw₂ hhead false)) fun examined s₃ h => ?_
  obtain ⟨⟨hrest, hfree⟩, hstay₃⟩ := h
  split
  · exact hrest.work
  next base choice =>
    have hadm : Admissible o head choice .none 0 s₃ := ⟨hfree base choice rfl, fun _ _ => nofun⟩
    exact Prog.wp_seq (admitPlannedRequest_spec hrest.work (hstay₃ head hhead) hadm _)
      fun _ _ h => h
  next base =>
  refine Prog.wp_seq (Spec.stayAccepted hrest.work (activeAdmissionSet_spec hrest.work _))
    fun active s₄ h₄ => Prog.wp_ite (fun _ => h₄.1) fun _ => ?_
  refine Prog.wp_seq (Spec.stayAccepted h₄.1 (protectHead_spec h₄.1 head base active))
    fun protection s₅ h₅ => Prog.wp_ite (fun _ => h₅.1) fun _ => ?_
  refine Prog.wp_seq (backfill_spec h₅.1 fun c hc => ?_) fun _ _ h => h
  exact h₅.2 c (h₄.2 c (hstay₃ c (hstay₂ c (hacc c (List.mem_cons_of_mem _ hc)))))

end Ninfer.Executor
