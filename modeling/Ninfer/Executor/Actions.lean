import Ninfer.Executor.Completion

/-!
# The worker's actions

What the worker does to the requests it already runs, and to those whose deadline has passed:
`cancel_active_requests`, `expire_pending_requests`, a prefill step, a decode round and `fail_all`.
Between two actions every open request has exactly one place. Inside one it may be in the worker's
hands; whatever happens there, also when an exception leaves the action, it is put back or
completed.

## Main definitions

* `Rests`: the assertion between two actions, with the slots as they were

## Main results

* `Work.move`, `Work.remove`: a request changes its place, and a completed one leaves it
* `expirePendingRequests_spec`, `cancelActiveRequests_spec`, `runPrefillStep_spec`,
  `runDecodeRound_spec`: the actions keep the assertion, also when they throw
* `failAll_spec`: after `fail_all` every accepted request is done
-/

namespace Ninfer.Executor

variable {o : Options} {f : Focus} {s s' s'' : State} {id lane : Nat} {hand : List Nat}
  {X : Failure → State → Prop}

/-! ## Places -/

/-- The requests change their places, and each keeps the number of them. -/
theorem Work.move (hw : Work o { hand := hand } s) {hand' : List Nat}
    (hinv : Inv o.maxOutstanding s') (hreqs : s'.reqs = s.reqs)
    (hplaces : ∀ i, places o.maxConcurrency s' hand' i = places o.maxConcurrency s hand i)
    (hpending : ∀ i ∈ s'.pending, i ∈ s.pending)
    (hlanes : ∀ lane i, s'.slots lane = some i →
      lane < o.maxConcurrency ∧ (s.reqs i).job.lane = some lane) :
    Work o { hand := hand' } s' := by
  have hplaced : ∀ i, Placed s' { hand := hand' } i ↔ Placed s { hand := hand } i := fun i => by
    rw [Placed, Placed, hreqs]
  refine ⟨hinv, fun i h => ?_, fun i h => ?_, fun i h => ?_, fun lane i h => ?_, ?_, ?_⟩
  · exact (hplaces i).trans (hw.placed i ((hplaced i).mp h))
  · exact (hplaces i).trans (hw.unplaced i (mt (hplaced i).mpr h))
  · rw [hreqs]
    exact hw.queued i (hpending i h)
  · rw [hreqs]
    exact hlanes lane i h
  · rw [hreqs]
    exact hw.text
  · rw [hreqs]
    exact fun i h => { hw.settled i h with }

/-- A request that is done leaves its place. -/
theorem Work.remove (hw : Work o { hand := hand, removing := some id } s) {hand' : List Nat}
    (hd : (s.reqs id).done = true) (hinv : Inv o.maxOutstanding s') (hreqs : s'.reqs = s.reqs)
    (hplaces : ∀ i, places o.maxConcurrency s' hand' i + (if i = id then 1 else 0) =
      places o.maxConcurrency s hand i)
    (hpending : s'.pending = s.pending)
    (hlanes : ∀ lane i, s'.slots lane = some i → s.slots lane = some i) :
    Work o { hand := hand' } s' := by
  refine ⟨hinv, fun i h => ?_, fun i h => ?_, fun i h => ?_, fun lane i h => ?_, ?_, ?_⟩
  · rw [Placed, hreqs] at h
    have hne : i ≠ id := by
      rintro rfl
      rcases h.2 with h' | h'
      · exact absurd (hd.symm.trans h') (by rintro ⟨⟩)
      · cases h'
    have hold := hw.placed i ⟨h.1, Or.inl (h.2.resolve_right (by rintro ⟨⟩))⟩
    have hnew := hplaces i
    rw [if_neg hne] at hnew
    exact hnew.trans hold
  · have hnew := hplaces i
    rcases eq_or_ne i id with rfl | hne
    · have hle := hw.places_le i
      rw [if_pos rfl] at hnew
      change places o.maxConcurrency s hand i ≤ 1 at hle
      change places o.maxConcurrency s' hand' i = 0
      omega
    · rw [if_neg hne] at hnew
      refine hnew.trans (hw.unplaced i fun hp => h ⟨?_, Or.inl ?_⟩)
      · rw [hreqs]
        exact hp.1
      · rw [hreqs]
        rcases hp.2 with h' | h'
        · exact h'
        · exact absurd (Option.some.inj h') hne.symm
  · rw [hreqs]
    exact hw.queued i (hpending ▸ h)
  · rw [hreqs]
    exact hw.lanes lane i (hlanes lane i h)
  · rw [hreqs]
    exact hw.text
  · rw [hreqs]
    exact fun i h => { hw.settled i h with }

theorem setSlot_slots_self (s : State) (lane : Nat) (slot : Option Nat) :
    (s.setSlot lane slot).slots lane = slot :=
  Function.update_self ..

theorem setSlot_slots_of_ne (s : State) {lane l : Nat} (slot : Option Nat) (h : l ≠ lane) :
    (s.setSlot lane slot).slots l = s.slots l :=
  Function.update_of_ne h ..

/-- The slot of one lane changes. -/
theorem slotCount_setSlot {n : Nat} (hl : lane < n) (slot : Option Nat) (i : Nat) :
    slotCount n (s.setSlot lane slot) i + (if s.slots lane = some i then 1 else 0) =
      slotCount n s i + (if slot = some i then 1 else 0) := by
  have hmem := Finset.mem_range.mpr hl
  have hrest : ∑ l ∈ (Finset.range n).erase lane,
      (if (s.setSlot lane slot).slots l = some i then 1 else 0) =
      ∑ l ∈ (Finset.range n).erase lane, if s.slots l = some i then 1 else 0 :=
    Finset.sum_congr rfl fun l h => by rw [setSlot_slots_of_ne s slot (Finset.ne_of_mem_erase h)]
  have hnew := Finset.add_sum_erase _
    (fun l => if (s.setSlot lane slot).slots l = some i then 1 else 0) hmem
  have hold := Finset.add_sum_erase _ (fun l => if s.slots l = some i then 1 else 0) hmem
  simp only [setSlot_slots_self] at hnew
  unfold slotCount
  omega

/-- An empty slot holds nothing. -/
theorem slots_of_cleared {l i : Nat} (h : (s.setSlot lane none).slots l = some i) :
    s.slots l = some i := by
  rcases eq_or_ne l lane with rfl | hne
  · rw [setSlot_slots_self] at h
    cases h
  · rwa [setSlot_slots_of_ne s none hne] at h

/-- The places after the slot of `id` has been cleared. -/
theorem places_cleared (hw : Work o f s) (hslot : s.slots lane = some id)
    (hpending : s'.pending = s.pending) (hslots : s'.slots = (s.setSlot lane none).slots) (i : Nat) :
    places o.maxConcurrency s' hand i + (if i = id then 1 else 0) =
      places o.maxConcurrency s hand i := by
  have hcount := slotCount_setSlot (s := s) (hw.lanes lane id hslot).1 none i
  rw [hslot] at hcount
  have hsome : (some id = some i) = (i = id) := by simp [eq_comm]
  simp only [hsome, reduceCtorEq, if_false] at hcount
  unfold places
  rw [hpending, show slotCount o.maxConcurrency s' i =
    slotCount o.maxConcurrency (s.setSlot lane none) i by rw [slotCount, hslots, slotCount]]
  omega

theorem count_cons_ite (a : Nat) (l : List Nat) (i : Nat) :
    (a :: l).count i = l.count i + if i = a then 1 else 0 := by
  rw [List.count_cons]
  refine congrArg (l.count i + ·) (if_congr ?_ rfl rfl)
  rw [beq_iff_eq, eq_comm]

/-- A request that is done leaves its slot. -/
theorem Work.clearSlot (hw : Work o { hand := hand, removing := some id } s)
    (hd : (s.reqs id).done = true) (hslot : s.slots lane = some id)
    (hinv : Inv o.maxOutstanding s') (hreqs : s'.reqs = s.reqs) (hpending : s'.pending = s.pending)
    (hslots : s'.slots = (s.setSlot lane none).slots) : Work o { hand := hand } s' := by
  refine hw.remove hd hinv hreqs (places_cleared hw hslot hpending hslots) hpending fun l i h => ?_
  rw [hslots] at h
  exact slots_of_cleared h

/-- An open request is taken out of its slot, into the worker's hands. -/
theorem Work.takeSlot (hw : Work o {} s) (hslot : s.slots lane = some id)
    (hinv : Inv o.maxOutstanding s') (hreqs : s'.reqs = s.reqs) (hpending : s'.pending = s.pending)
    (hslots : s'.slots = (s.setSlot lane none).slots) : Work o { hand := [id] } s' := by
  refine hw.move hinv hreqs (fun i => ?_) (fun i h => hpending ▸ h) fun l i h => ?_
  · have h : places o.maxConcurrency s' [] i + _ = _ := places_cleared hw hslot hpending hslots i
    rw [← h]
    simp only [places, count_cons_ite, List.count_nil]
    omega
  · rw [hslots] at h
    exact hw.lanes l i (slots_of_cleared h)

/-- A request that is done leaves the worker's hands. -/
theorem Completed.drop {s₀ : State} (h : Completed o (id :: hand) id s₀ s) :
    Work o { hand := hand } s := by
  refine h.keeps.work.remove h.done h.keeps.work.inv rfl (fun i => ?_) rfl fun _ _ h => h
  simp only [places, count_cons_ite]
  omega

/-! ## Functions on one lane -/

/-- The assertion between two actions, with the slots as they were. -/
structure Rests (o : Options) (s₀ s : State) : Prop where
  work : Work o {} s
  slots : s.slots = s₀.slots

theorem Work.rests (hw : Work o {} s) : Rests o s s := ⟨hw, rfl⟩

theorem Rests.trans (h : Rests o s s') (h' : Rests o s' s'') : Rests o s s'' :=
  ⟨h'.work, h'.slots.trans h.slots⟩

theorem Keeps.rests {s₀ : State} (h : Keeps o {} id s₀ s) : Rests o s₀ s :=
  ⟨h.work, h.touches.slots⟩

theorem Rests.rely {s₀ : State} (h : Rests o s₀ s) (hr : Rely o s s') : Rests o s₀ s' :=
  ⟨h.work.rely hr, (quiet_of_rely hr).slots.trans h.slots⟩

theorem Rests.slot {s₀ : State} (h : Rests o s₀ s) (hslot : s₀.slots lane = some id) :
    s.slots lane = some id := by
  rw [h.slots, hslot]

theorem held_of_slot (h : s.slots lane = some id) : Held f s id := Or.inr ⟨lane, h⟩

/-- Writing the schedule. -/
theorem schedule_spec (hw : Work o f s) {g : State → State}
    (hg : ∀ s, ∃ schedule, g s = { s with schedule := schedule }) {Q : Unit → State → Prop}
    (h : ∀ s' schedule, Rely o s s' → Work o f { s' with schedule := schedule } →
      g s' = { s' with schedule := schedule } → Q () { s' with schedule := schedule }) :
    Spec o (Prog.writeState g) Q X s := by
  refine Prog.wp_writeState fun s' hrely => ?_
  obtain ⟨schedule, hs⟩ := hg s'
  have hw' := hw.rely hrely
  have hwork : Work o f { s' with schedule := schedule } :=
    { hw' with inv := { hw'.inv with } }
  rw [hs]
  exact ⟨guarantee_of_reqs hwork.inv rfl (fun h => h) fun _ h => h, h s' schedule hrely hwork hs⟩

/-- A call of the target on the GPU. -/
theorem gpuUnit_spec {α : Type} (q : Oracle (Except Failure α)) (hw : Work o {} s) :
    Spec o (gpuUnit q) (fun _ => Rests o s) (fun _ => Rests o s) s := by
  refine Prog.wp_seq (Q := fun _ => Rests o s) (schedule_spec hw (fun s => ⟨_, rfl⟩)
    fun s' _ hrely hw' _ => ⟨hw', (quiet_of_rely hrely).slots⟩) fun _ s₁ h => ?_
  exact Prog.wp_attempt (fun _ _ => h) fun _ _ => h

theorem clearPrefillLane_spec (hw : Work o f s) :
    Spec o (clearPrefillLane lane) (fun _ s' => Work o f s' ∧ Quiet s { s' with schedule := s.schedule })
      X s := by
  refine schedule_spec hw (fun s => ?_) fun s' schedule hrely hw' _ => ⟨hw', ?_⟩
  · split_ifs
    · exact ⟨_, rfl⟩
    · exact ⟨_, rfl⟩
  · exact { quiet_of_rely hrely with schedule := rfl }

/-- `remove_completed_slot`. -/
theorem removeCompletedSlot_spec {s₀ : State} (h : Completed o [] id s₀ s)
    (hslot : s.slots lane = some id) :
    Spec o (removeCompletedSlot lane) (fun _ => Work o {}) X s := by
  refine Prog.wp_writeState fun s' hrely => ?_
  have h' := h.rely hrely
  have hslot' : s'.slots lane = some id := by rw [(quiet_of_rely hrely).slots, hslot]
  have hinv : Inv o.maxOutstanding ((s'.setSlot lane none).invalidateLanePlans lane) :=
    { h'.keeps.work.inv with }
  exact ⟨guarantee_of_reqs hinv rfl (fun h => h) fun _ h => h,
    h'.keeps.work.clearSlot h'.done hslot' hinv rfl rfl rfl⟩

/-- `GenerationBudget::commit` aborts, or writes the budget. -/
theorem commitBudget_spec (hw : Work o f s) (hr : f.removing = none) (hh : Held f s id)
    (tokens : Nat) : Spec o (commitBudget id tokens) (fun _ => Keeps o f id s) X s := by
  refine Prog.wp_seq (Q := fun _ => Keeps o f id s) (Prog.wp_atomically fun s' hrely => ?_)
    fun committed s' hk => Prog.wp_ite (fun _ => hk) fun _ => trivial
  have hk := (hw.keeps id).rely hrely
  have hh' := hk.held hh
  have hwork : ∀ b, Work o f (s'.updateJob id fun j => { j with budget := b }) := fun b =>
    hk.work.updateJob (hk.work.held hr hh').1
      (fun hmem => absurd hmem (hk.work.held_not_pending hh'))
      fun lane hslot => (hk.work.lanes lane id hslot).2
  split
  · exact ⟨guarantee_refl hk.work, hk⟩
  · split_ifs
    · exact ⟨guarantee_refl hk.work, hk⟩
    · exact ⟨guarantee_setReq (hwork _).inv rfl ⟨rfl, rfl⟩ ⟨rfl, rfl⟩ fun h => ⟨h, rfl, rfl⟩,
        hwork _, hk.touches.trans (touches_setReq rfl rfl rfl rfl)⟩

theorem consumeServiceWork_spec (hw : Work o f s) (hr : f.removing = none) (hh : Held f s id)
    (work : Nat) :
    Spec o (consumeServiceWork id work) (fun _ => Keeps o f id s) (fun _ => Keeps o f id s) s := by
  refine read_seq hw fun s' hrely => ?_
  have hk := (hw.keeps id).rely hrely
  refine Prog.wp_ite (fun _ => hk) fun _ => ?_
  exact Prog.WpIn.mono (updateJob_spec hk.work hr (hk.held hh) fun _ _ => rfl)
    (fun _ _ h => hk.trans h) fun _ _ h => h

/-- `resolve_round`: the request is done exactly when the round was its last. -/
theorem resolveRound_spec (hw : Work o {} s) (hslot : s.slots lane = some id) (token : TokenId)
    (cancelAtBoundary : Bool) :
    Spec o (resolveRound id token cancelAtBoundary)
      (fun finished s' => if finished then Completed o [] id s s' else Keeps o {} id s s')
      (fun _ => Keeps o {} id s) s := by
  have hh : Held {} s id := held_of_slot hslot
  refine read_seq hw fun s₁ hrely => ?_
  have hk := (hw.keeps id).rely hrely
  rw [(hk.work.lanes lane id (hk.rests.slot hslot)).2]
  refine Prog.wp_ite (fun _ => ?_) fun _ => ?_
  · refine hk.seq ((previewTerminal_spec hk.work rfl (hk.held hh)).mono (fun _ _ h => h)
      fun _ _ h => hk.trans h.1) fun _ s₂ hk => query_seq fun _ => ?_
    refine hk.seq (commitPreview_spec hk.work rfl (hk.held hh)) fun output s₃ hk => ?_
    refine hk.seq (appendOutput_spec hk.work (hk.held hh) output) fun _ s₄ hk => ?_
    refine Prog.wp_seq (completeSuccess_spec hk.work (hk.held hh) .cancelled) fun _ s₅ h => ?_
    exact Completed.trans hk.touches h
  · refine read_seq hk.work fun s₂ hrely => ?_
    have hk := hk.rely hrely
    split
    · trivial
    refine hk.seq ((preview_spec hk.work rfl (hk.held hh)).mono (fun _ _ h => h)
      fun _ _ h => hk.trans h) fun decision s₃ hk => Prog.wp_ite (fun _ => hk) fun _ => ?_
    refine hk.seq (updateJob_spec hk.work rfl (hk.held hh) fun _ _ => rfl) fun _ s₄ hk => ?_
    refine attempt_seq (fun _ => ?_) fun _ => hk
    refine hk.seq (commitBudget_spec hk.work rfl (hk.held hh) 1) fun _ s₅ hk => ?_
    refine hk.seq (commitPreview_spec hk.work rfl (hk.held hh)) fun output s₆ hk => ?_
    refine hk.seq (appendOutput_spec hk.work (hk.held hh) output) fun _ s₇ hk => ?_
    refine Prog.wp_ite (fun _ => ?_) fun _ => hk
    refine Prog.wp_seq (completeSuccess_spec hk.work (hk.held hh) _) fun _ s₈ h => ?_
    exact Completed.trans hk.touches h

/-- The end of a request that is cancelled in its slot. -/
theorem cancelSlot_spec (hw : Work o {} s) (hslot : s.slots lane = some id) :
    Spec o (completeCancelled id >>= fun _ => removeCompletedSlot lane) (fun _ => Work o {})
      (fun _ => Rests o s) s := by
  refine Prog.wp_seq ((completeCancelled_spec hw (held_of_slot hslot)).mono (fun _ _ h => h)
    fun _ _ h => h.1.rests) fun _ s' h => ?_
  exact removeCompletedSlot_spec h (by rw [h.keeps.touches.slots, hslot])

/-! ## Prefill -/

/-- `resolve_prefill_step`. When it throws, the request is open and in its slot. -/
theorem resolvePrefillStep_spec (hw : Work o {} s) (hslot : s.slots lane = some id)
    (step : PrefillStepResult) (cancelAtBoundary : Bool) :
    Spec o (resolvePrefillStep id step cancelAtBoundary) (fun _ => Work o {})
      (fun _ => Rests o s) s := by
  have hh : Held {} s id := held_of_slot hslot
  have hk := hw.keeps id
  refine hk.seq ((consumeServiceWork_spec hw rfl hh 1).mono (fun _ _ h => h)
    fun _ _ h => h.rests) fun _ s₁ hk => read_seq hk.work fun s₂ hrely => ?_
  have hrest := (hk.rely hrely).rests
  rw [(hrest.work.lanes lane id (hrest.slot hslot)).2]
  -- Clearing the prefill lane leaves the slots alone.
  have hclear : Spec o (clearPrefillLane lane) (fun _ => Rests o s) (fun _ => Rests o s) s₂ :=
    (clearPrefillLane_spec hrest.work).mono
      (fun _ _ h => ⟨h.1, h.2.slots.trans hrest.slots⟩) fun _ _ h => h
  refine Prog.wp_ite (fun _ => ?_) fun _ => Prog.wp_ite (fun _ => ?_) fun _ => hrest.work
  · refine Prog.wp_seq hclear fun _ s₃ hrest => query_seq fun _ => ?_
    exact (cancelSlot_spec hrest.work (hrest.slot hslot)).mono (fun _ _ h => h)
      fun _ _ h => hrest.trans h
  · refine Prog.wp_seq hclear fun _ s₃ hrest => ?_
    split
    · refine Prog.wp_seq ((resolveRound_spec hrest.work (hrest.slot hslot) _ false).mono
        (fun _ _ h => h) fun _ _ h => hrest.trans h.rests) fun finished s₄ h => ?_
      cases finished with
      | true =>
        have h : Completed o [] id s₃ s₄ := h
        exact removeCompletedSlot_spec h (by rw [h.keeps.touches.slots, hrest.slot hslot])
      | false =>
        have hk : Keeps o {} id s₃ s₄ := h
        refine Prog.wp_ite nofun fun _ => ?_
        exact Prog.WpIn.mono (updateJob_spec hk.work rfl
          (held_of_slot (hk.rests.slot (hrest.slot hslot))) fun _ _ => rfl) (fun _ _ h => h.work)
          fun _ _ h => h
    · exact hrest

/-- **A prefill step keeps the assertion.** -/
theorem runPrefillStep_spec (hw : Work o {} s) :
    Spec o runPrefillStep (fun _ => Work o {}) (fun _ => Work o {}) s := by
  refine read_seq hw fun s₁ hrely => ?_
  have hw := hw.rely hrely
  split
  · exact hw
  next lane _ =>
  refine read_seq hw fun s₂ hrely => ?_
  have hw := hw.rely hrely
  split
  · exact hw
  next id hslot =>
  refine read_seq hw fun s₃ hrely => ?_
  have hrest := hw.rests.rely hrely
  refine Prog.wp_ite (fun _ => hrest.work) fun _ => ?_
  refine Prog.wp_seq ((gpuUnit_spec _ hrest.work).mono (fun _ _ h => hrest.trans h)
    fun _ _ h => h.work) fun step s₄ hrest => ?_
  refine read_seq hrest.work fun s₅ hrely => ?_
  have hrest := hrest.rely hrely
  exact (resolvePrefillStep_spec hrest.work (hrest.slot hslot) step _).mono (fun _ _ h => h)
    fun _ _ h => h.work

/-! ## Cancellation and expiry -/

/-- **Cancelling the active requests keeps the assertion.** -/
theorem cancelActiveRequests_spec (hw : Work o {} s) (n : Nat) (cancelledAtBoundary : List Nat) :
    Spec o (cancelActiveRequests n cancelledAtBoundary) (fun _ => Work o {}) (fun _ => Work o {}) s := by
  refine Prog.wp_forEach (I := fun _ => Work o {}) (fun lane _ s hw => ?_) hw
  refine read_seq hw fun s₁ hrely => ?_
  have hrest := hw.rests.rely hrely
  split
  · exact hrest.work
  next id hslot =>
  refine Prog.wp_ite (fun _ => query_seq fun _ => ?_) fun _ => hrest.work
  refine Prog.wp_seq (clearPrefillLane_spec hrest.work) fun _ s₂ h => ?_
  exact (cancelSlot_spec h.1 (by rw [← hslot]; exact congrFun h.2.slots lane)).mono
    (fun _ _ h => h) fun _ _ h => h.work

theorem count_filter_ite (p : Nat → Bool) (l : List Nat) (i : Nat) :
    (l.filter p).count i = if p i then l.count i else 0 := by
  cases hp : p i with
  | true => exact List.count_filter hp
  | false =>
    refine List.count_eq_zero.mpr fun hmem => ?_
    rw [(List.mem_filter.mp hmem).2] at hp
    cases hp

/-- A request in the worker's hands is there once. -/
theorem Work.hand_nodup (hw : Work o { hand := id :: hand } s) : id ∉ hand := by
  intro hmem
  have hle := hw.places_le id
  have hpos := List.count_pos_iff.mpr hmem
  simp only [places, count_cons_ite, if_true] at hle
  omega

/-- The requests in the worker's hands are cancelled, one after the other. Their sessions are
unused, so that none of them is left behind by an exception. -/
theorem cancelHand_spec (rest : List Nat) {as : List Nat}
    (hw : Work o { hand := as ++ rest } s) (hout : ∀ i ∈ as, (s.reqs i).job.output = {}) :
    Spec o (Prog.forEach as completeCancelled) (fun _ => Work o { hand := rest }) X s := by
  refine (Prog.wp_forEach (I := fun as s =>
    Work o { hand := as ++ rest } s ∧ ∀ i ∈ as, (s.reqs i).job.output = {})
    (fun id as s h => ?_) ⟨hw, hout⟩).mono (fun _ _ h => h.1) fun _ _ h => h
  have hmem : id ∈ id :: as := List.mem_cons_self
  refine (completeCancelled_spec h.1 (Or.inl List.mem_cons_self)).mono (fun _ s' hc => ?_)
    fun _ _ hx => absurd (h.2 id hmem) hx.2
  refine ⟨hc.drop, fun i hi => ?_⟩
  have hne : i ≠ id := by
    rintro rfl
    exact h.1.hand_nodup (List.mem_append_left rest hi)
  rw [hc.keeps.touches.job i hne]
  exact h.2 i (List.mem_cons_of_mem id hi)

/-- The requests in the worker's hands are completed with an error, one after the other. -/
theorem failHand_spec {as : List Nat} (hw : Work o { hand := as } s) (error : Failure) :
    Spec o (Prog.forEach as fun id => completeError id error) (fun _ => Rests o s) X s := by
  refine (Prog.wp_forEach (I := fun as s' => Work o { hand := as } s' ∧ s'.slots = s.slots)
    (fun id as s' h => ?_) ⟨hw, rfl⟩).mono (fun _ _ h => ⟨h.1, h.2⟩) fun _ _ h => h
  exact (completeError_spec h.1 (Or.inl List.mem_cons_self) error).mono
    (fun _ _ hc => ⟨hc.drop, hc.keeps.touches.slots.trans h.2⟩) fun _ _ hx => hx

/-- **Expiry keeps the assertion**, and it does not throw. -/
theorem expirePendingRequests_spec (hw : Work o {} s) :
    Spec o expirePendingRequests (fun _ => Work o {}) X s := by
  refine query_seq fun late => ?_
  refine Prog.wp_seq (Q := fun removed s' =>
    Work o { hand := removed.1 ++ removed.2.1 } s' ∧
      ∀ i ∈ removed.1, (s'.reqs i).job.output = {}) (Prog.wp_atomically fun s₁ hrely => ?_) ?_
  · have hw := hw.rely hrely
    have hinv : ∀ pending, Inv o.maxOutstanding { s₁ with pending := pending } :=
      fun _ => { hw.inv with }
    refine ⟨guarantee_of_reqs (hinv _) rfl (fun h => h) fun i h => List.mem_of_mem_filter h,
      hw.move (hinv _) rfl (fun i => ?_) (fun i h => List.mem_of_mem_filter h) hw.lanes,
      fun i h => hw.queued i (List.mem_of_mem_filter h)⟩
    change (List.filter _ s₁.pending).count i + slotCount _ s₁ i + List.count i (_ ++ _) =
      s₁.pending.count i + slotCount _ s₁ i + 0
    rw [List.count_append]
    simp only [count_filter_ite]
    cases (s₁.reqs i).cancelled <;> cases late i <;> simp <;> omega
  rintro ⟨cancelled, expired, left⟩ s₂ ⟨hw, hout⟩
  refine Prog.wp_seq (Q := fun _ s' => Work o { hand := cancelled ++ expired } s' ∧
    ∀ i ∈ cancelled, (s'.reqs i).job.output = {}) (schedule_spec hw (fun s => ?_)
      fun s₃ schedule hrely hw' _ => ⟨hw', fun i hi => ?_⟩) ?_
  · split
    · exact ⟨_, rfl⟩
    · split_ifs
      · exact ⟨_, rfl⟩
      · exact ⟨_, rfl⟩
  · rw [← hout i hi]
    exact congrArg Job.output ((quiet_of_rely hrely).job i)
  rintro - s₃ ⟨hw, hout⟩
  refine Prog.wp_seq (cancelHand_spec expired hw hout) fun _ s₄ hw => ?_
  exact Prog.wp_seq (failHand_spec hw _) fun _ _ h => h.work

/-! ## Decode rounds -/

theorem buildRoundMembership_spec (hw : Work o {} s) (n : Nat) :
    Spec o (buildRoundMembership n) (fun _ => Work o {}) (fun _ => Work o {}) s := by
  refine read_seq hw fun s' hrely => ?_
  exact Prog.wp_ite (fun _ => hw.rely hrely) fun _ => hw.rely hrely

/-- The decision about one row stores a preview at most. -/
theorem decideRow_spec (hw : Work o {} s) (round : BatchedGeneratedRound) (row : Nat × Nat × Bool) :
    Spec o (decideRow round row) (fun _ => Work o {}) (fun _ => Work o {}) s := by
  obtain ⟨index, lane, cancelled⟩ := row
  refine read_seq hw fun s₁ hrely => ?_
  have hw := hw.rely hrely
  split
  · trivial
  next id hslot =>
  refine Prog.wp_ite (fun _ => hw) fun _ => Prog.wp_ite (fun _ => ?_) fun _ => ?_
  · refine Prog.wp_seq ((previewTerminal_spec hw rfl (held_of_slot hslot)).mono (fun _ _ h => h)
      fun _ _ h => h.1.work) fun _ _ h => h.work
  · refine read_seq hw fun s₂ hrely => ?_
    have hrest := hw.rests.rely hrely
    split
    · trivial
    refine Prog.wp_seq ((preview_spec hrest.work rfl (held_of_slot (hrest.slot hslot))).mono
      (fun _ _ h => h) fun _ _ h => h.work) fun decision s₃ h => ?_
    exact Prog.wp_ite (fun _ => h.work) fun _ => h.work

theorem advanceRow_spec (hw : Work o {} s) (hh : Held {} s id) (row : RowDecision) :
    Spec o (advanceRow id row) (fun _ => Keeps o {} id s) (fun _ => Keeps o {} id s) s := by
  have hk := hw.keeps id
  refine Prog.wp_ite (fun _ => hk) fun _ => ?_
  refine hk.seq (updateJob_spec hw rfl hh fun _ _ => rfl) fun _ s₁ hk => ?_
  refine hk.seq (commitBudget_spec hk.work rfl (hk.held hh) _) fun _ s₂ hk => ?_
  exact (consumeServiceWork_spec hk.work rfl (hk.held hh) _).mono (fun _ _ h => hk.trans h)
    fun _ _ h => hk.trans h

/-- The commit of one row. -/
theorem commitRow_spec (hw : Work o {} s) (row : RowDecision) :
    Spec o (commitRow row) (fun _ => Work o {}) (fun _ => Work o {}) s := by
  refine read_seq hw fun s₁ hrely => ?_
  have hw := hw.rely hrely
  split
  · trivial
  next id hslot =>
  have hh : Held {} s₁ id := held_of_slot hslot
  refine (hw.keeps id).seq ((advanceRow_spec hw hh row).mono (fun _ _ h => h)
    fun _ _ h => h.work) fun _ s₂ hk => ?_
  refine hk.seq (commitPreview_spec hk.work rfl (hk.held hh)) fun output s₃ hk => ?_
  refine hk.seq (appendOutput_spec hk.work (hk.held hh) output) fun _ s₄ hk => ?_
  refine Prog.wp_ite (fun _ => ?_) fun _ => hk.work
  refine Prog.wp_seq (completeSuccess_spec hk.work (hk.held hh) row.reason) fun _ s₅ h => ?_
  refine removeCompletedSlot_spec h ?_
  rw [h.keeps.touches.slots, hk.touches.slots, hslot]

/-- **A decode round keeps the assertion.** -/
theorem runDecodeRound_spec (hw : Work o {} s) (membership : List (Nat × Nat)) :
    Spec o (runDecodeRound membership) (fun _ => Work o {}) (fun _ => Work o {}) s := by
  refine Prog.wp_seq ((gpuUnit_spec _ hw).mono (fun _ _ h => h.work) fun _ _ h => h.work)
    fun round s hw => ?_
  refine Prog.wp_seq (Prog.wp_mapEach (fun lane s hw => ?_) hw) fun cancelled s₁ hw => ?_
  · refine read_seq hw fun s' hrely => ?_
    split
    · trivial
    · exact hw.rely hrely
  refine Prog.wp_ite (fun _ => hw) fun _ => ?_
  refine Prog.wp_seq (Prog.wp_mapEach (fun row s hw => decideRow_spec hw round row) hw)
    fun rows s₂ hw => ?_
  refine attempt_seq (fun _ => ?_) fun _ => hw
  exact Prog.wp_forEach (I := fun _ => Work o {}) (fun row _ s hw => commitRow_spec hw row) hw

/-! ## The end of the engine -/

/-- Once `fail_all` has begun, nothing enters the queue any more. -/
def Closed (s s' : State) : Prop :=
  s.failed = true → s'.failed = true ∧ ∀ i ∈ s'.pending, i ∈ s.pending

theorem Closed.trans (h : Closed s s') (h' : Closed s' s'') : Closed s s'' := fun hf => by
  obtain ⟨hf', hp⟩ := h hf
  obtain ⟨hf'', hp'⟩ := h' hf'
  exact ⟨hf'', fun i hi => hp i (hp' i hi)⟩

theorem CallerStep.closed (h : CallerStep o.maxOutstanding s s') : Closed s s' := by
  intro hf
  cases h with
  | enqueue _ hopen =>
    rw [hf] at hopen
    cases hopen.2
  | _ => exact ⟨hf, fun _ hi => hi⟩

theorem closed_of_rely (h : Rely o s s') : Closed s s' := by
  induction h with
  | refl => exact fun hf => ⟨hf, fun _ hi => hi⟩
  | tail _ hs ih => exact ih.trans hs.closed

theorem Spec.closed {α : Type} {p : Worker α} {Q : α → State → Prop} (h : Spec o p Q X s) :
    Spec o p (fun a s' => Q a s' ∧ Closed s s') (fun e s' => X e s' ∧ Closed s s') s :=
  Prog.WpIn.frame (fun _ hf => ⟨hf, fun _ hi => hi⟩) (fun h h' => h.trans h') closed_of_rely
    (fun hg hf => ⟨hg.failed hf, hg.pending⟩) h

/-- The engine has ended: nothing is queued or running, and nothing will be. -/
structure Ended (o : Options) (s : State) : Prop where
  work : Work o {} s
  failed : s.failed = true
  pending : s.pending = []
  slots : ∀ lane, s.slots lane = none

theorem Ended.rely (h : Ended o s) (hr : Rely o s s') : Ended o s' := by
  obtain ⟨hf, hp⟩ := closed_of_rely hr h.failed
  refine ⟨h.work.rely hr, hf, ?_, fun lane => ?_⟩
  · refine List.eq_nil_iff_forall_not_mem.mpr fun i hi => ?_
    have := hp i hi
    rw [h.pending] at this
    cases this
  · rw [(quiet_of_rely hr).slots]
    exact h.slots lane

/-- **Every accepted request of an engine that has ended is done.** -/
theorem Ended.done (h : Ended o s) (ha : (s.reqs id).phase = .accepted) :
    (s.reqs id).done = true := by
  by_contra hd
  have hone := h.work.placed id ⟨ha, Or.inl (by simpa using hd)⟩
  simp [places, slotCount, h.pending, h.slots] at hone

/-- `fail_all` at one slot. -/
theorem failSlot_spec (hw : Work o { hand := hand } s) (error : Failure) :
    Spec o (failSlot error lane) (fun _ s' => Work o { hand := hand } s' ∧
      ∀ l i, s'.slots l = some i → l ≠ lane ∧ s.slots l = some i) X s := by
  refine read_seq hw fun s₁ hrely => ?_
  have hw := hw.rely hrely
  have hslots := (quiet_of_rely hrely).slots
  split
  next hnone =>
    refine ⟨hw, fun l i h => ⟨?_, hslots ▸ h⟩⟩
    rintro rfl
    rw [hnone] at h
    cases h
  next id hslot =>
    refine query_seq fun _ => ?_
    refine Prog.wp_seq (completeError_spec hw (held_of_slot hslot) error) fun _ s₂ h =>
      Prog.wp_writeState fun s₃ hrely => ?_
    have h := h.rely hrely
    have hslots' := h.keeps.touches.slots
    have hinv : Inv o.maxOutstanding (s₃.setSlot lane none) := { h.keeps.work.inv with }
    refine ⟨guarantee_of_reqs hinv rfl (fun h => h) fun _ h => h,
      h.keeps.work.clearSlot h.done (by rw [hslots', hslot]) hinv rfl rfl rfl, fun l i hl => ⟨?_, ?_⟩⟩
    · rintro rfl
      rw [setSlot_slots_self] at hl
      cases hl
    · rw [← hslots, ← hslots']
      exact slots_of_cleared hl

/-- **`fail_all` ends the engine.** -/
theorem failAll_spec (hw : Work o {} s) (error : Failure) :
    Spec o (failAll o.maxConcurrency error) (fun _ => Ended o) X s := by
  refine Prog.wp_seq (Q := fun pending s' =>
    Work o { hand := pending } s' ∧ s'.failed = true ∧ s'.pending = [])
    (Prog.wp_atomically fun s₁ hrely => ?_) ?_
  · have hw := hw.rely hrely
    have hinv : Inv o.maxOutstanding { s₁ with failed := true, pending := [] } := { hw.inv with }
    refine ⟨guarantee_of_reqs hinv rfl (fun _ => rfl) nofun,
      hw.move hinv rfl (fun i => ?_) nofun hw.lanes, rfl, rfl⟩
    change [].count i + slotCount _ s₁ i + s₁.pending.count i =
      s₁.pending.count i + slotCount _ s₁ i + [].count i
    simp only [List.count_nil]
    omega
  rintro pending s₁ ⟨hw, hfailed, hempty⟩
  -- What is left keeps the queue closed, so that it is enough to follow the slots.
  have hrest : Spec o (resetSchedule >>= fun _ =>
      Prog.forEach (List.range o.maxConcurrency) (failSlot error) >>= fun _ =>
        Prog.forEach pending fun id => completeError id error)
      (fun _ s' => Work o {} s' ∧ ∀ lane, s'.slots lane = none) X s₁ := by
    refine Prog.wp_seq (Q := fun _ => Work o { hand := pending })
      (schedule_spec hw (fun s => ⟨_, rfl⟩) fun _ _ _ hw _ => hw) fun _ s₂ hw => ?_
    refine Prog.wp_seq (Prog.wp_forEach (I := fun as s' => Work o { hand := pending } s' ∧
      ∀ lane i, s'.slots lane = some i → lane ∈ as) (fun lane as s' h => ?_)
      ⟨hw, fun lane i h => List.mem_range.mpr (hw.lanes lane i h).1⟩) fun _ s₃ h => ?_
    · refine (failSlot_spec h.1 error).mono (fun _ s'' h' => ⟨h'.1, fun l i hl => ?_⟩) fun _ _ h => h
      obtain ⟨hne, hl⟩ := h'.2 l i hl
      exact (List.mem_cons.mp (h.2 l i hl)).resolve_left hne
    · refine (failHand_spec h.1 error).mono (fun _ s₄ hr => ⟨hr.work, fun lane => ?_⟩) fun _ _ h => h
      rw [hr.slots]
      exact Option.eq_none_iff_forall_ne_some.mpr fun i hi => absurd (h.2 lane i hi) List.not_mem_nil
  refine hrest.closed.mono (fun _ s₂ h => ?_) fun _ _ h => h.1
  obtain ⟨⟨hw, hslots⟩, hclosed⟩ := h
  obtain ⟨hf, hp⟩ := hclosed hfailed
  refine ⟨hw, hf, List.eq_nil_iff_forall_not_mem.mpr fun i hi => ?_, hslots⟩
  have := hp i hi
  rw [hempty] at this
  cases this

end Ninfer.Executor
