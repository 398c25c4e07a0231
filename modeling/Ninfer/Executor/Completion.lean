import Ninfer.Executor.Invariant

/-!
# Completing a request

The worker's functions on one request: its output session, `append_output`, and the three ways to
complete it. A request that is completed is in a slot or in the worker's hands; afterwards it is
done and still there, and nothing is owed for it.

## Main definitions

* `Rely`, `Guarantee`: what the callers do, and what the worker does, to what others rely on
* `Quiet`, `Touches`: the parts of the state that a stretch of execution leaves alone
* `Held`: a request the worker may complete

## Main results

* `Work.rely`: the worker's assertion survives what the callers do
* `completeError_spec`, `completeSuccess_spec`, `completeCancelled_spec`: the completions
* `appendOutput_spec`: output is appended to open requests only
-/

namespace Ninfer.Executor

variable {o : Options} {f : Focus} {s s' s'' : State} {id : Nat}

/-- What the callers may do between two actions of the worker. -/
def Rely (o : Options) : State → State → Prop :=
  Relation.ReflTransGen (CallerStep o.maxOutstanding)

/-- What an action of the worker does: the invariant holds after it, a request that is done stays
done with the outcome it has, and nothing enters the queue. The callers' own places are not the
worker's to change. -/
structure Guarantee (o : Options) (s s' : State) : Prop where
  inv : Inv o.maxOutstanding s'
  phase : ∀ i, (s'.reqs i).phase = (s.reqs i).phase
  consumer : ∀ i, (s'.reqs i).consumer = (s.reqs i).consumer
  outcome : ∀ i, (s.reqs i).done = true →
    (s'.reqs i).done = true ∧ (s'.reqs i).result = (s.reqs i).result ∧
      (s'.reqs i).error = (s.reqs i).error
  failed : s.failed = true → s'.failed = true
  pending : ∀ i ∈ s'.pending, i ∈ s.pending

/-- The callers leave the worker's data and the outcome of every request alone. -/
structure Quiet (s s' : State) : Prop where
  slots : s'.slots = s.slots
  schedule : s'.schedule = s.schedule
  job : ∀ i, (s'.reqs i).job = (s.reqs i).job
  done : ∀ i, (s'.reqs i).done = (s.reqs i).done
  outcome : ∀ i, (s'.reqs i).result = (s.reqs i).result ∧ (s'.reqs i).error = (s.reqs i).error
  text : ∀ i, (s'.reqs i).content = (s.reqs i).content ∧
    (s'.reqs i).reasoning = (s.reqs i).reasoning ∧ (s'.reqs i).published = (s.reqs i).published

theorem Quiet.refl (s : State) : Quiet s s :=
  ⟨rfl, rfl, fun _ => rfl, fun _ => rfl, fun _ => ⟨rfl, rfl⟩, fun _ => ⟨rfl, rfl, rfl⟩⟩

theorem Quiet.trans (h : Quiet s s') (h' : Quiet s' s'') : Quiet s s'' where
  slots := h'.slots.trans h.slots
  schedule := h'.schedule.trans h.schedule
  job := fun i => (h'.job i).trans (h.job i)
  done := fun i => (h'.done i).trans (h.done i)
  outcome := fun i => ⟨(h'.outcome i).1.trans (h.outcome i).1, (h'.outcome i).2.trans (h.outcome i).2⟩
  text := fun i => ⟨(h'.text i).1.trans (h.text i).1, (h'.text i).2.1.trans (h.text i).2.1,
    (h'.text i).2.2.trans (h.text i).2.2⟩

/-- A change of one request that keeps what `Quiet` lists. -/
theorem quiet_setReq {r : Request} (hslots : s'.slots = s.slots)
    (hschedule : s'.schedule = s.schedule) (hreqs : s'.reqs = (s.setReq id r).reqs)
    (h : r.job = (s.reqs id).job ∧ r.done = (s.reqs id).done ∧ r.result = (s.reqs id).result ∧
      r.error = (s.reqs id).error ∧ r.content = (s.reqs id).content ∧
      r.reasoning = (s.reqs id).reasoning ∧ r.published = (s.reqs id).published) : Quiet s s' := by
  obtain ⟨hjob, hdone, hres, herr, hcont, hreas, hpub⟩ := h
  refine ⟨hslots, hschedule, fun i => ?_, fun i => ?_, fun i => ⟨?_, ?_⟩, fun i => ⟨?_, ?_, ?_⟩⟩ <;>
    rw [hreqs]
  · exact s.setReq_proj id r (·.job) hjob i
  · exact s.setReq_proj id r (·.done) hdone i
  · exact s.setReq_proj id r (·.result) hres i
  · exact s.setReq_proj id r (·.error) herr i
  · exact s.setReq_proj id r (·.content) hcont i
  · exact s.setReq_proj id r (·.reasoning) hreas i
  · exact s.setReq_proj id r (·.published) hpub i

theorem CallerStep.quiet (h : CallerStep o.maxOutstanding s s') : Quiet s s' := by
  cases h with
  | reserve => exact quiet_setReq rfl rfl rfl ⟨rfl, rfl, rfl, rfl, rfl, rfl, rfl⟩
  | sessionFails => exact quiet_setReq rfl rfl rfl ⟨rfl, rfl, rfl, rfl, rfl, rfl, rfl⟩
  | enqueue => exact quiet_setReq rfl rfl rfl ⟨rfl, rfl, rfl, rfl, rfl, rfl, rfl⟩
  | releaseReserved => exact quiet_setReq rfl rfl (giveBack_reqs ..) ⟨rfl, rfl, rfl, rfl, rfl, rfl, rfl⟩
  | refuse => exact quiet_setReq rfl rfl (giveBack_reqs ..) ⟨rfl, rfl, rfl, rfl, rfl, rfl, rfl⟩
  | releaseCapacity =>
    exact quiet_setReq rfl rfl (giveBack_reqs ..) ⟨rfl, rfl, rfl, rfl, rfl, rfl, rfl⟩
  | consumer _ hstep =>
    obtain ⟨-, hjob, hcont, hreas, hres, herr, hdone, hpub, -⟩ := hstep.same
    exact quiet_setReq rfl rfl rfl ⟨hjob, hdone, hres, herr, hcont, hreas, hpub⟩
  | stop => exact { Quiet.refl s with }

theorem quiet_of_rely (h : Rely o s s') : Quiet s s' := by
  induction h with
  | refl => exact Quiet.refl s
  | tail _ hs ih => exact ih.trans hs.quiet

/-- **The worker's assertion survives what the callers do.** -/
theorem Work.rely (hw : Work o f s) (h : Rely o s s') : Work o f s' := by
  induction h with
  | refl => exact hw
  | tail _ hs ih => exact ih.caller hs

/-- A stretch of execution on behalf of the request `id`: the slots, the schedule and the other
requests' jobs are as they were. -/
structure Touches (id : Nat) (s s' : State) : Prop where
  slots : s'.slots = s.slots
  schedule : s'.schedule = s.schedule
  job : ∀ i, i ≠ id → (s'.reqs i).job = (s.reqs i).job
  lane : (s'.reqs id).job.lane = (s.reqs id).job.lane

theorem Touches.refl (id : Nat) (s : State) : Touches id s s := ⟨rfl, rfl, fun _ _ => rfl, rfl⟩

theorem Touches.trans (h : Touches id s s') (h' : Touches id s' s'') : Touches id s s'' where
  slots := h'.slots.trans h.slots
  schedule := h'.schedule.trans h.schedule
  job := fun i hi => (h'.job i hi).trans (h.job i hi)
  lane := h'.lane.trans h.lane

theorem Quiet.touches (h : Quiet s s') (id : Nat) : Touches id s s' :=
  ⟨h.slots, h.schedule, fun i _ => h.job i, by rw [h.job]⟩

theorem touches_setReq {r : Request} (hslots : s'.slots = s.slots)
    (hschedule : s'.schedule = s.schedule) (hreqs : s'.reqs = (s.setReq id r).reqs)
    (hlane : r.job.lane = (s.reqs id).job.lane) : Touches id s s' where
  slots := hslots
  schedule := hschedule
  job := fun i hi => by rw [hreqs, State.setReq_reqs_of_ne _ _ _ hi]
  lane := by rw [hreqs, State.setReq_reqs_self, hlane]

/-! ## Requests the worker holds -/

/-- The request `id` is in the worker's hands or in a slot. -/
def Held (f : Focus) (s : State) (id : Nat) : Prop :=
  id ∈ f.hand ∨ ∃ lane, s.slots lane = some id

theorem Held.of_slots (h : Held f s id) (hs : s'.slots = s.slots) : Held f s' id := by
  rcases h with h | ⟨lane, hslot⟩
  · exact Or.inl h
  · exact Or.inr ⟨lane, hs ▸ hslot⟩

theorem slotCount_pos {n lane : Nat} (hl : lane < n) (h : s.slots lane = some id) :
    0 < slotCount n s id := by
  unfold slotCount
  refine Finset.sum_pos' (fun _ _ => Nat.zero_le _) ⟨lane, Finset.mem_range.mpr hl, ?_⟩
  rw [if_pos h]
  exact Nat.one_pos

/-- A request with a place is accepted, and open unless it is to be removed. -/
theorem Work.placed_of_pos (hw : Work o f s) (h : 0 < places o.maxConcurrency s f.hand id) :
    Placed s f id := by
  by_contra hn
  have hzero := hw.unplaced id hn
  omega

theorem Work.places_of_held (hw : Work o f s) (h : Held f s id) :
    0 < slotCount o.maxConcurrency s id + f.hand.count id := by
  rcases h with h | ⟨lane, hslot⟩
  · have := List.count_pos_iff.mpr h
    omega
  · have := slotCount_pos (hw.lanes lane id hslot).1 hslot
    omega

theorem Work.placed_of_held (hw : Work o f s) (h : Held f s id) : Placed s f id := by
  refine hw.placed_of_pos ?_
  have := hw.places_of_held h
  unfold places
  omega

theorem Placed.open (h : Placed s f id) (hr : f.removing = none) :
    (s.reqs id).phase = .accepted ∧ (s.reqs id).done = false := by
  refine ⟨h.1, ?_⟩
  rcases h.2 with h' | h'
  · exact h'
  · rw [hr] at h'
    cases h'

/-- A request that is held is accepted and open. -/
theorem Work.held (hw : Work o f s) (hr : f.removing = none) (h : Held f s id) :
    (s.reqs id).phase = .accepted ∧ (s.reqs id).done = false :=
  (hw.placed_of_held h).open hr

/-- Requests in the queue are accepted and open. -/
theorem Work.pending (hw : Work o f s) (hr : f.removing = none) (h : id ∈ s.pending) :
    (s.reqs id).phase = .accepted ∧ (s.reqs id).done = false := by
  refine (hw.placed_of_pos ?_).open hr
  have := List.count_pos_iff.mpr h
  unfold places
  omega

theorem Work.places_le (hw : Work o f s) (id : Nat) :
    places o.maxConcurrency s f.hand id ≤ 1 := by
  by_cases hp : Placed s f id
  · exact (hw.placed id hp).le
  · exact (hw.unplaced id hp).le.trans (Nat.zero_le _)

/-- The queue, the slots and the hands do not share a request. -/
theorem Work.held_not_pending (hw : Work o f s) (h : Held f s id) : id ∉ s.pending := by
  intro hmem
  have hpos := List.count_pos_iff.mpr hmem
  have hle := hw.places_le id
  have := hw.places_of_held h
  unfold places at hle
  omega

/-! ## Actions -/

/-- An action that leaves the requests alone, and adds nothing to the queue. -/
theorem guarantee_of_reqs (hinv : Inv o.maxOutstanding s') (hreqs : s'.reqs = s.reqs)
    (hfailed : s.failed = true → s'.failed = true) (hpending : ∀ i ∈ s'.pending, i ∈ s.pending) :
    Guarantee o s s' :=
  ⟨hinv, fun _ => by rw [hreqs], fun _ => by rw [hreqs], fun _ h => by rw [hreqs]; exact ⟨h, rfl, rfl⟩,
    hfailed, hpending⟩

theorem guarantee_refl (hw : Work o f s) : Guarantee o s s :=
  guarantee_of_reqs hw.inv rfl (fun h => h) fun _ h => h

theorem guarantee_setReq {r : Request} (hinv : Inv o.maxOutstanding s')
    (hreqs : s'.reqs = (s.setReq id r).reqs) (hrest : s'.failed = s.failed ∧ s'.pending = s.pending)
    (hown : r.phase = (s.reqs id).phase ∧ r.consumer = (s.reqs id).consumer)
    (h : (s.reqs id).done = true →
      r.done = true ∧ r.result = (s.reqs id).result ∧ r.error = (s.reqs id).error) :
    Guarantee o s s' := by
  refine ⟨hinv, fun i => ?_, fun i => ?_, fun i hi => ?_, fun hf => hrest.1.trans hf,
    fun i hi => hrest.2 ▸ hi⟩
  · rw [hreqs]
    exact s.setReq_proj id r (·.phase) hown.1 i
  · rw [hreqs]
    exact s.setReq_proj id r (·.consumer) hown.2 i
  · rw [hreqs]
    rcases eq_or_ne i id with rfl | hne
    · rw [State.setReq_reqs_self]
      exact h hi
    · rw [State.setReq_reqs_of_ne _ _ _ hne]
      exact ⟨hi, rfl, rfl⟩

/-- What only the worker reads is free, as far as the queue and the lanes do not rest on it. -/
theorem Work.updateJob (hw : Work o f s) (ha : (s.reqs id).phase = .accepted)
    {g : Job → Job}
    (hp : id ∈ s.pending → (g (s.reqs id).job).output = (s.reqs id).job.output)
    (hl : ∀ lane, s.slots lane = some id → (g (s.reqs id).job).lane = some lane) :
    Work o f (s.updateJob id g) := by
  have hself : (s.updateJob id g).reqs id = { s.reqs id with job := g (s.reqs id).job } :=
    State.setReq_reqs_self ..
  have hne : ∀ i, i ≠ id → (s.updateJob id g).reqs i = s.reqs i := fun i hi =>
    State.setReq_reqs_of_ne _ _ _ hi
  have hplaced : ∀ i, Placed (s.updateJob id g) f i ↔ Placed s f i := by
    intro i
    rcases eq_or_ne i id with rfl | hi
    · rw [Placed, Placed, hself]
    · rw [Placed, Placed, hne i hi]
  refine ⟨hw.inv.updateJob ha g, fun i h => hw.placed i ((hplaced i).mp h),
    fun i h => hw.unplaced i (mt (hplaced i).mpr h), fun i h => ?_, fun lane i h => ?_,
    fun i hd hm => ?_, fun i hd => ?_⟩
  · rcases eq_or_ne i id with rfl | hi
    · rw [hself]
      exact (hp h).trans (hw.queued i h)
    · rw [hne i hi]
      exact hw.queued i h
  · rcases eq_or_ne i id with rfl | hi
    · rw [hself]
      exact ⟨(hw.lanes lane i h).1, hl lane h⟩
    · rw [hne i hi]
      exact hw.lanes lane i h
  · rcases eq_or_ne i id with rfl | hi
    · rw [hself] at hd ⊢
      exact hw.text i hd hm
    · rw [hne i hi] at hd ⊢
      exact hw.text i hd hm
  · rcases eq_or_ne i id with rfl | hi
    · rw [hself] at hd ⊢
      exact { hw.settled i hd with }
    · rw [hne i hi] at hd ⊢
      exact hw.settled i hd

/-- A program of the worker among the callers. -/
abbrev Spec (o : Options) {α : Type} (p : Worker α) (Q : α → State → Prop)
    (X : Failure → State → Prop) (s : State) : Prop :=
  p.Wp (Rely o) (Guarantee o) Q X s

/-- The assertion holds, and only the request `id` has been touched since `s₀`. -/
structure Keeps (o : Options) (f : Focus) (id : Nat) (s₀ s : State) : Prop where
  work : Work o f s
  touches : Touches id s₀ s

theorem Work.keeps (hw : Work o f s) (id : Nat) : Keeps o f id s s := ⟨hw, .refl id s⟩

theorem Keeps.trans {f' : Focus} {s₀ : State} (h : Keeps o f id s₀ s) (h' : Keeps o f' id s s') :
    Keeps o f' id s₀ s' :=
  ⟨h'.work, h.touches.trans h'.touches⟩

theorem Keeps.rely {s₀ : State} (h : Keeps o f id s₀ s) (hr : Rely o s s') : Keeps o f id s₀ s' :=
  ⟨h.work.rely hr, h.touches.trans ((quiet_of_rely hr).touches id)⟩

theorem Keeps.held {s₀ : State} (h : Keeps o f id s₀ s) {f' : Focus} {i : Nat}
    (hh : Held f' s₀ i) : Held f' s i :=
  hh.of_slots h.touches.slots

variable {X : Failure → State → Prop}

/-- Reading the state, and going on. -/
theorem read_seq {α β : Type} {g : State → α} {k : α → Worker β} {Q : β → State → Prop}
    (hw : Work o f s) (h : ∀ s', Rely o s s' → Spec o (k (g s')) Q X s') :
    Spec o (Prog.readState g >>= k) Q X s :=
  fun s' hr => ⟨guarantee_refl (hw.rely hr), h s' hr⟩

/-- A call that may throw, and going on. -/
theorem attempt_seq {α β : Type} {q : Oracle (Except Failure α)} {k : α → Worker β}
    {Q : β → State → Prop} (hok : ∀ a, Spec o (k a) Q X s) (herr : ∀ e, X e s) :
    Spec o (Prog.attempt q >>= k) Q X s :=
  (Prog.wp_bind _ _ s).mpr (Prog.wp_attempt (fun a _ => hok a) fun e _ => herr e)

theorem query_seq {α β : Type} {q : Oracle α} {k : α → Worker β} {Q : β → State → Prop}
    (h : ∀ a, Spec o (k a) Q X s) : Spec o (Prog.query q >>= k) Q X s :=
  fun a _ => h a

/-- Going on from a function that concerns the request `id`. -/
theorem Keeps.seq {s₀ : State} {α β : Type} {p : Worker α} {k : α → Worker β} {f' : Focus}
    {Q : β → State → Prop} (hk : Keeps o f id s₀ s) (hp : Spec o p (fun _ => Keeps o f' id s) X s)
    (h : ∀ a s', Keeps o f' id s₀ s' → Spec o (k a) Q X s') : Spec o (p >>= k) Q X s :=
  Prog.wp_seq hp fun a s' hs => h a s' (hk.trans hs)

/-- Writing the worker's part of a request that is held. -/
theorem updateJob_spec {g : State → Job → Job} (hw : Work o f s) (hr : f.removing = none)
    (hh : Held f s id) (hl : ∀ s j, (g s j).lane = j.lane) :
    Spec o (Prog.writeState fun s => s.updateJob id (g s)) (fun _ => Keeps o f id s) X s := by
  refine Prog.wp_writeState fun s' hrely => ?_
  have hw' := hw.rely hrely
  have hq := quiet_of_rely hrely
  have hh' : Held f s' id := hh.of_slots hq.slots
  have ha := (hw'.held hr hh').1
  have hwork : Work o f (s'.updateJob id (g s')) :=
    hw'.updateJob ha (fun hmem => absurd hmem (hw'.held_not_pending hh'))
      fun lane hslot => (hl _ _).trans (hw'.lanes lane id hslot).2
  refine ⟨guarantee_setReq hwork.inv rfl ⟨rfl, rfl⟩ ⟨rfl, rfl⟩ fun h => ⟨h, rfl, rfl⟩, hwork, ?_⟩
  exact (hq.touches id).trans (touches_setReq rfl rfl rfl (hl _ _))

/-! ## Output sessions -/

theorem storePreview_spec (hw : Work o f s) (hr : f.removing = none) (hh : Held f s id)
    (output : List OutputDelta) (terminal : Bool) :
    Spec o (storePreview id output terminal) (fun _ => Keeps o f id s) X s :=
  updateJob_spec hw hr hh fun _ _ => rfl

theorem preview_spec {tokens : List TokenId} {budgetRemaining : Nat} {limitReason : FinishReason}
    (hw : Work o f s) (hr : f.removing = none) (hh : Held f s id) :
    Spec o (preview id tokens budgetRemaining limitReason) (fun _ => Keeps o f id s)
      (fun _ => Keeps o f id s) s := by
  unfold preview
  refine read_seq hw fun s' hrely => ?_
  have hk := (hw.keeps id).rely hrely
  split_ifs
  · exact hk
  · exact hk
  · exact hk
  · exact hk
  · exact hk
  · refine attempt_seq (fun decoded => ?_) fun _ => hk
    exact Prog.wp_seq (storePreview_spec hk.work hr (hk.held hh) _ _) fun _ _ h => hk.trans h

/-- A session that has not been used can always be closed. -/
theorem previewTerminal_spec (hw : Work o f s) (hr : f.removing = none) (hh : Held f s id) :
    Spec o (previewTerminal id .cancelled) (fun _ => Keeps o f id s)
      (fun _ s' => Keeps o f id s s' ∧ (s.reqs id).job.output ≠ {}) s := by
  unfold previewTerminal
  refine read_seq hw fun s' hrely => ?_
  have hk := (hw.keeps id).rely hrely
  rw [(quiet_of_rely hrely).job]
  split_ifs with h₁ h₂ h₃ h₄
  · exact ⟨hk, fun h => by simp [h] at h₁⟩
  · exact ⟨hk, fun h => by simp [h] at h₂⟩
  · simp at h₃
  · exact (storePreview_spec hk.work hr (hk.held hh) [] true).mono (fun _ _ h => hk.trans h)
      fun _ _ h => h
  · refine attempt_seq (fun output => ?_) fun _ => ⟨hk, fun h => by simp [h] at h₄⟩
    exact (storePreview_spec hk.work hr (hk.held hh) output true).mono
      (fun _ _ h => hk.trans h) fun _ _ h => h

theorem commitPreview_spec (hw : Work o f s) (hr : f.removing = none) (hh : Held f s id) :
    Spec o (commitPreview id) (fun _ => Keeps o f id s) X s := by
  unfold commitPreview
  refine Prog.wp_seq (Q := fun _ => Keeps o f id s) (Prog.wp_atomically fun s' hrely => ?_)
    fun committed s' hk => ?_
  · have hk := (hw.keeps id).rely hrely
    have hh' := hk.held hh
    dsimp only
    split_ifs
    · have ha := (hk.work.held hr hh').1
      have hwork : Work o f (s'.updateJob id fun j => { j with
          output := { unused := false, terminal := (s'.reqs id).job.output.previewTerminal } }) :=
        hk.work.updateJob ha (fun hmem => absurd hmem (hk.work.held_not_pending hh'))
          fun lane hslot => (hk.work.lanes lane id hslot).2
      exact ⟨guarantee_setReq hwork.inv rfl ⟨rfl, rfl⟩ ⟨rfl, rfl⟩ fun h => ⟨h, rfl, rfl⟩, hwork,
        hk.touches.trans (touches_setReq rfl rfl rfl rfl)⟩
    · exact ⟨guarantee_refl hk.work, hk⟩
  · cases committed with
    | none => trivial
    | some output => exact hk

/-! ## Completions -/

/-- The exceptions of two assertions differ at one request only. -/
structure Refocus (id : Nat) (f f' : Focus) : Prop where
  hand : f'.hand = f.hand
  removing : ∀ i, i ≠ id → (f'.removing = some i ↔ f.removing = some i)
  moved : ∀ i, i ≠ id → (f'.moved = some i ↔ f.moved = some i)
  completing : ∀ i, i ≠ id → (f'.completing = some i ↔ f.completing = some i)
  returning : ∀ i, i ≠ id → (f'.returning = some i ↔ f.returning = some i)

/-- A change of one request under other exceptions for it. -/
theorem Work.change {f' : Focus} {r : Request} (hw : Work o f s) (hf : Refocus id f f')
    (hinv : Inv o.maxOutstanding s') (hpending : s'.pending = s.pending)
    (hslots : s'.slots = s.slots) (hreqs : s'.reqs = (s.setReq id r).reqs)
    (hjob : id ∉ s.pending ∧ r.job.lane = (s.reqs id).job.lane)
    (hplaced : (r.phase = .accepted ∧ (r.done = false ∨ f'.removing = some id)) ↔ Placed s f id)
    (htext : r.done = false → f'.moved ≠ some id → TextKept r)
    (hsettled : r.done = true → Settled f' id r) : Work o f' s' := by
  have hself : s'.reqs id = r := by rw [hreqs, State.setReq_reqs_self]
  have hne : ∀ i, i ≠ id → s'.reqs i = s.reqs i := fun i hi => by
    rw [hreqs, State.setReq_reqs_of_ne _ _ _ hi]
  have hplaced' : ∀ i, Placed s' f' i ↔ Placed s f i := by
    intro i
    rcases eq_or_ne i id with rfl | hi
    · rw [← hplaced, Placed, hself]
    · rw [Placed, Placed, hne i hi, hf.removing i hi]
  have hplaces : ∀ i, places o.maxConcurrency s' f'.hand i =
      places o.maxConcurrency s f.hand i := fun i => by
    rw [places, places, slotCount, slotCount, hpending, hslots, hf.hand]
  refine ⟨hinv, fun i h => ?_, fun i h => ?_, fun i h => ?_, fun lane i h => ?_,
    fun i hd hm => ?_, fun i hd => ?_⟩
  · rw [hplaces]
    exact hw.placed i ((hplaced' i).mp h)
  · rw [hplaces]
    exact hw.unplaced i (mt (hplaced' i).mpr h)
  · rw [hpending] at h
    rcases eq_or_ne i id with rfl | hi
    · exact absurd h hjob.1
    · rw [hne i hi]
      exact hw.queued i h
  · rw [hslots] at h
    rcases eq_or_ne i id with rfl | hi
    · rw [hself, hjob.2]
      exact hw.lanes lane i h
    · rw [hne i hi]
      exact hw.lanes lane i h
  · rcases eq_or_ne i id with rfl | hi
    · rw [hself] at hd ⊢
      exact htext hd hm
    · rw [hne i hi] at hd ⊢
      exact hw.text i hd (mt (hf.moved i hi).mpr hm)
  · rcases eq_or_ne i id with rfl | hi
    · rw [hself] at hd ⊢
      exact hsettled hd
    · rw [hne i hi] at hd ⊢
      have hset := hw.settled i hd
      exact ⟨fun hc => hset.taken (mt (hf.completing i hi).mpr hc),
        fun hc => hset.returned (mt (hf.returning i hi).mpr hc),
        fun hc => hset.due ((hf.returning i hi).mp hc)⟩

theorem channelText_append (channel : OutputChannel) (l l' : List OutputDelta) :
    channelText channel (l ++ l') = channelText channel l ++ channelText channel l' := by
  simp [channelText]

/-- Output is appended to an open request: it is published, and among its events. -/
theorem ReqInv.append {r : Request} (h : ReqInv r) (ha : r.phase = .accepted)
    (hd : r.done = false) (output : List OutputDelta) :
    ReqInv { r with
      content := r.content ++ channelText .content output
      reasoning := r.reasoning ++ channelText .reasoning output
      events := r.events ++ output
      published := r.published ++ output } where
  untouched := fun hn => absurd ha hn
  outcome := by
    refine ⟨h.outcome.undecided, h.outcome.decided, fun res hres => ?_⟩
    rw [(h.outcome.undecided hd).1] at hres
    cases hres
  capacity := { h.capacity with }
  stream := by
    refine ⟨fun hpc => ?_, fun hsink hclean => ?_, fun he => ?_, h.stream.waited, h.stream.returned,
      h.stream.rethrown⟩
    · obtain ⟨hdel, hev, hout⟩ := h.stream.holding hpc
      exact ⟨hdel, by rw [hev], hout⟩
    · rw [← List.append_assoc, h.stream.stream hsink hclean]
    · have := (h.stream.ended he).1
      rw [hd] at this
      cases this

theorem appendOutput_spec {hand : List Nat} (hw : Work o { hand := hand } s)
    (hh : Held { hand := hand } s id) (output : List OutputDelta) :
    Spec o (appendOutput id output) (fun _ => Keeps o { hand := hand } id s) X s := by
  unfold appendOutput
  split_ifs
  · exact hw.keeps id
  · refine Prog.wp_writeState fun s' hrely => ?_
    have hk := (hw.keeps id).rely hrely
    have hh' := hk.held hh
    obtain ⟨ha, hd⟩ := hk.work.held rfl hh'
    have hinv := hk.work.inv.setReq (by simp [ha]) ((hk.work.inv.reqs id).append ha hd output)
      (by simp [ha]) rfl
    refine ⟨guarantee_setReq hinv rfl ⟨rfl, rfl⟩ ⟨rfl, rfl⟩ fun h => ⟨h, rfl, rfl⟩, ?_,
      hk.touches.trans (touches_setReq rfl rfl rfl rfl)⟩
    refine hk.work.change ⟨rfl, fun _ _ => Iff.rfl, fun _ _ => Iff.rfl, fun _ _ => Iff.rfl,
      fun _ _ => Iff.rfl⟩ hinv rfl rfl rfl ⟨hk.work.held_not_pending hh', rfl⟩ Iff.rfl
      (fun _ hm => ?_) fun hd' => ?_
    · obtain ⟨hcont, hreas⟩ := hk.work.text id hd hm
      simp only [TextKept, channelText_append, hcont, hreas, and_self]
    · rw [hd] at hd'
      cases hd'

/-- An open request is given its outcome. -/
theorem ReqInv.complete {r : Request} (h : ReqInv r) (ha : r.phase = .accepted)
    (hd : r.done = false) {result : Option GenerationResult} {error : Option Failure}
    (hone : (result.isSome ∧ error = none) ∨ (result = none ∧ error.isSome))
    (htext : ∀ res, result = some res → res.content = channelText .content r.published ∧
      res.reasoning = channelText .reasoning r.published) :
    ReqInv { r with result := result, error := error, done := true } where
  untouched := fun hn => absurd ha hn
  outcome := ⟨nofun, fun _ => hone, htext⟩
  capacity := { h.capacity with taken := fun hc => ⟨rfl, (h.capacity.taken hc).2⟩ }
  stream := by
    -- Nobody has seen the end of an open request.
    have hopen : r.consumer.outcome = none := by
      by_contra hne
      exact absurd ((h.stream.ended (Or.inr hne)).1.symm.trans hd) nofun
    refine ⟨h.stream.holding, h.stream.stream, fun he => ⟨rfl, (h.stream.ended he).2⟩,
      h.stream.waited, fun res hres => ?_, fun e he => ?_⟩
    · exact absurd (hopen.symm.trans hres) nofun
    · exact absurd (hopen.symm.trans he) nofun

/-- The request `id` is done, and still where it was. -/
structure Completed (o : Options) (hand : List Nat) (id : Nat) (s₀ s : State) : Prop where
  keeps : Keeps o { hand := hand, removing := some id } id s₀ s
  done : (s.reqs id).done = true

variable {hand : List Nat}

theorem Completed.rely {s₀ : State} (h : Completed o hand id s₀ s) (hr : Rely o s s') :
    Completed o hand id s₀ s' :=
  ⟨h.keeps.rely hr, ((quiet_of_rely hr).done id).trans h.done⟩

theorem Completed.trans {s₀ : State} (h : Touches id s₀ s) (h' : Completed o hand id s s') :
    Completed o hand id s₀ s' :=
  ⟨⟨h'.keeps.work, h.trans h'.keeps.touches⟩, h'.done⟩

theorem ReqInv.giveBack {r : Request} (hr : ReqInv r) (ha : r.phase = .accepted)
    (hcap : r.capacityReleased = true) (hunits : r.unitsReturned = 0)
    (hpc : r.consumer.pc ≠ .releasing) : ReqInv { r with unitsReturned := r.unitsReturned + 1 } where
  untouched := fun hn => absurd ha hn
  outcome := { hr.outcome with }
  capacity := by
    refine ⟨hr.capacity.taken, hr.capacity.released, fun h => absurd h hpc, fun hp => ?_,
      fun hp => ?_, fun _ => ⟨by simp [hunits], fun _ => hcap⟩⟩
    · rcases hp with hp | hp | hp <;> cases ha.symm.trans hp
    · cases ha.symm.trans hp
  stream := { hr.stream with }

/-- `release_reserved_capacity`, after `mark_completed` has taken the unit. -/
theorem releaseReservedCapacity_spec
    (hw : Work o { hand := hand, removing := some id, returning := some id } s)
    (hh : Held { hand := hand } s id) (hd : (s.reqs id).done = true) :
    Spec o (releaseReservedCapacity id) (fun _ => Completed o hand id s) X s := by
  refine Prog.wp_writeState fun s' hrely => ?_
  have hw' := hw.rely hrely
  have hq := quiet_of_rely hrely
  have hh' : Held { hand := hand, removing := some id, returning := some id } s' id :=
    hh.of_slots hq.slots
  have ha := (hw'.placed_of_held hh').1
  have hd' : (s'.reqs id).done = true := (hq.done id).trans hd
  obtain ⟨hcap, hunits, hgone⟩ := (hw'.settled id hd').due rfl
  have hr := (hw'.inv.reqs id).giveBack ha hcap hunits (by simp [hgone])
  have hinv := hw'.inv.giveBack (by simp [ha]) hunits hr (by simp [ha])
  have hreqs := giveBack_reqs s' id (s'.reqs id)
  rw [show s'.setReq id (s'.reqs id) = s' by simp [State.setReq]] at hinv hreqs
  refine ⟨guarantee_setReq hinv hreqs ⟨rfl, rfl⟩ ⟨rfl, rfl⟩ fun h => ⟨h, rfl, rfl⟩,
    ⟨?_, (hq.touches id).trans (touches_setReq rfl rfl hreqs rfl)⟩, ?_⟩
  · refine hw'.change ⟨rfl, fun _ _ => Iff.rfl, fun _ _ => Iff.rfl, fun _ _ => Iff.rfl, ?_⟩ hinv rfl
      rfl hreqs ⟨hw'.held_not_pending hh', rfl⟩ Iff.rfl (fun hn => ?_) fun _ => ⟨?_, ?_, by rintro ⟨⟩⟩
    · simp +contextual [eq_comm]
    · exact absurd (hd'.symm.trans hn) (by rintro ⟨⟩)
    · exact fun _ => (hw'.settled id hd').taken (by rintro ⟨⟩)
    · exact fun _ _ => Or.inl (by simp [hunits])
  · rw [hreqs, State.setReq_reqs_self]
    exact hd'

/-- `mark_completed` takes the unit of a request whose consumer is gone. -/
theorem ReqInv.take {r : Request} (hr : ReqInv r) (ha : r.phase = .accepted) (hd : r.done = true)
    (hcons : r.consumerReleased = true) (hcap : r.capacityReleased = false) :
    ReqInv { r with capacityReleased := true } ∧ r.unitsReturned = 0 ∧ r.consumer.pc = .gone := by
  have hunits : r.unitsReturned = 0 := by
    obtain ⟨hle, hone⟩ := hr.capacity.accepted ha
    by_contra hne
    rw [hone (by omega)] at hcap
    cases hcap
  have hgone : r.consumer.pc = .gone := by
    have hrel := hr.capacity.released
    rw [hcons] at hrel
    cases hpc : r.consumer.pc with
    | gone => rfl
    | releasing =>
      rw [(hr.capacity.releasing hpc).1] at hcap
      cases hcap
    | _ =>
      rw [hpc] at hrel
      cases hrel
  refine ⟨⟨fun hn => absurd ha hn, { hr.outcome with }, ?_, { hr.stream with }⟩, hunits, hgone⟩
  refine ⟨fun _ => ⟨hd, hcons⟩, hr.capacity.released, fun hpc => ?_, hr.capacity.submitting,
    hr.capacity.failed, fun _ => ⟨hunits.le.trans (Nat.zero_le _), fun _ => rfl⟩⟩
  exact absurd (hgone.symm.trans hpc) nofun

/-- The end of a completion: afterwards nothing is owed for the request. -/
theorem afterCompletion_spec
    (hw : Work o { hand := hand, removing := some id, completing := some id } s)
    (hh : Held { hand := hand } s id) (hd : (s.reqs id).done = true) :
    Spec o (afterCompletion id true) (fun _ => Completed o hand id s) X s := by
  rw [afterCompletion, if_pos rfl]
  refine Prog.wp_seq (Q := fun release s' =>
    (release = true → Keeps o { hand := hand, removing := some id, returning := some id } id s s' ∧
      (s'.reqs id).done = true) ∧
    (release = false → Completed o hand id s s')) (Prog.wp_atomically fun s' hrely => ?_)
    fun release s' h => ?_
  · have hk := (hw.keeps id).rely hrely
    have hh' : Held { hand := hand, removing := some id, completing := some id } s' id :=
      hk.held hh
    have ha := (hk.work.placed_of_held hh').1
    have hd' : (s'.reqs id).done = true := ((quiet_of_rely hrely).done id).trans hd
    have hset := hk.work.settled id hd'
    have hpend := hk.work.held_not_pending hh'
    split_ifs with htake
    · simp only [Bool.and_eq_true, Bool.not_eq_true'] at htake
      obtain ⟨hr, hunits, hgone⟩ := (hk.work.inv.reqs id).take ha hd' htake.1 htake.2
      have hinv := hk.work.inv.setReq (by simp [ha]) hr (by simp [ha]) rfl
      refine ⟨guarantee_setReq hinv rfl ⟨rfl, rfl⟩ ⟨rfl, rfl⟩ fun h => ⟨h, rfl, rfl⟩,
        fun _ => ⟨⟨?_, hk.touches.trans (touches_setReq rfl rfl rfl rfl)⟩, ?_⟩, nofun⟩
      · refine hk.work.change ⟨rfl, fun _ _ => Iff.rfl, fun _ _ => Iff.rfl, ?_, ?_⟩ hinv rfl rfl rfl
          ⟨hpend, rfl⟩ Iff.rfl (fun hn => ?_) fun _ =>
          ⟨fun _ _ => rfl, fun h => absurd rfl h, fun _ => ⟨rfl, hunits, hgone⟩⟩
        · simp +contextual [eq_comm]
        · simp +contextual [eq_comm]
        · exact absurd (hd'.symm.trans hn) nofun
      · exact (congrArg Request.done (State.setReq_reqs_self ..)).trans hd'
    · -- Either the consumer has not released the request, or it has taken the unit itself.
      have hcap : (s'.reqs id).consumerReleased = true → (s'.reqs id).capacityReleased = true := by
        intro hc
        simpa [hc] using htake
      refine ⟨guarantee_refl hk.work, nofun, fun _ => ⟨⟨?_, hk.touches⟩, hd'⟩⟩
      refine hk.work.change (r := s'.reqs id) ⟨rfl, fun _ _ => Iff.rfl, fun _ _ => Iff.rfl, ?_,
        fun _ _ => Iff.rfl⟩ hk.work.inv rfl rfl (by simp [State.setReq]) ⟨hpend, rfl⟩ Iff.rfl
        (fun hn => ?_) fun _ => ⟨fun _ => hcap, hset.returned, nofun⟩
      · simp +contextual [eq_comm]
      · exact absurd (hd'.symm.trans hn) nofun
  · cases release with
    | false => exact h.2 rfl
    | true =>
      obtain ⟨hk, hd'⟩ := h.1 rfl
      exact (releaseReservedCapacity_spec hk.work (hk.held hh) hd').mono
        (fun _ _ h' => .trans hk.touches h') fun _ _ h' => h'

/-- The critical section of a completion, and what follows it. -/
theorem storeOutcome_spec {g : Request → Request} (moved : Option Nat)
    (hw : Work o { hand := hand, moved := moved } s) (hmoved : moved = none ∨ moved = some id)
    (hh : Held { hand := hand } s id)
    (hg : ∀ r, r.published = (s.reqs id).published → ReqInv r → r.phase = .accepted →
      r.done = false → ∃ result error, g r = { r with result := result, error := error, done := true } ∧
        ReqInv { r with result := result, error := error, done := true }) :
    Spec o (Prog.atomically (fun s =>
        if (s.reqs id).done then (false, s) else (true, s.updateReq id g)) >>= afterCompletion id)
      (fun _ => Completed o hand id s) X s := by
  refine Prog.wp_seq (Q := fun stored s' => stored = true ∧
    Keeps o { hand := hand, removing := some id, completing := some id } id s s' ∧
      (s'.reqs id).done = true) (Prog.wp_atomically fun s' hrely => ?_) ?_
  · have hk := (hw.keeps id).rely hrely
    have hq := quiet_of_rely hrely
    have hh' : Held { hand := hand, moved := moved } s' id := hk.held hh
    obtain ⟨ha, hd⟩ := hk.work.held rfl hh'
    have hr := hk.work.inv.reqs id
    obtain ⟨result, error, hgr, hr'⟩ := hg (s'.reqs id) (hq.text id).2.2 hr ha hd
    have hinv := hk.work.inv.setReq (by simp [ha]) hr' (by simp [ha]) rfl
    rw [if_neg (by simp [hd]), State.updateReq, hgr]
    refine ⟨guarantee_setReq hinv rfl ⟨rfl, rfl⟩ ⟨rfl, rfl⟩ fun h => ?_, rfl,
      ⟨?_, hk.touches.trans (touches_setReq rfl rfl rfl rfl)⟩, ?_⟩
    · exact absurd (hd.symm.trans h) (by rintro ⟨⟩)
    · refine hk.work.change ⟨rfl, ?_, ?_, ?_, fun _ _ => Iff.rfl⟩ hinv rfl rfl rfl
        ⟨hk.work.held_not_pending hh', rfl⟩ ⟨fun _ => ⟨ha, Or.inl hd⟩, fun _ => ⟨ha, Or.inr rfl⟩⟩
        (by rintro ⟨⟩) fun _ => ⟨fun h => absurd rfl h, fun _ hc => ?_, by rintro ⟨⟩⟩
      · simp +contextual [eq_comm]
      · rcases hmoved with rfl | rfl <;> simp +contextual [eq_comm]
      · simp +contextual [eq_comm]
      · -- The unit of an open request has not been taken.
        rw [(hr.capacity.taken hc).1] at hd
        cases hd
    · exact congrArg Request.done (State.setReq_reqs_self ..)
  · rintro _ s' ⟨rfl, hk, hd⟩
    exact (afterCompletion_spec hk.work (hk.held hh) hd).mono
      (fun _ _ h' => .trans hk.touches h') fun _ _ h' => h'

theorem releasePlanningState_spec (hw : Work o f s) (hr : f.removing = none) (hh : Held f s id) :
    Spec o (releasePlanningState id) (fun _ => Keeps o f id s) X s :=
  updateJob_spec hw hr hh fun _ _ => rfl

/-- **`complete_error` completes the request.** -/
theorem completeError_spec (hw : Work o { hand := hand } s) (hh : Held { hand := hand } s id)
    (error : Failure) :
    Spec o (completeError id error) (fun _ => Completed o hand id s) X s := by
  refine Prog.wp_seq (releasePlanningState_spec hw rfl hh) fun _ s' hk => ?_
  refine (storeOutcome_spec none hk.work (Or.inl rfl) (hk.held hh)
    fun r _ hr ha hd => ⟨r.result, some error, rfl, ?_⟩).mono
    (fun _ _ h => .trans hk.touches h) fun _ _ h => h
  have hnone := (hr.outcome.undecided hd).1
  refine hr.complete ha hd (Or.inr ⟨hnone, rfl⟩) fun res hres => ?_
  rw [hnone] at hres
  cases hres

/-- **`complete_success` completes the request**, with the texts that were published. -/
theorem completeSuccess_spec (hw : Work o { hand := hand } s) (hh : Held { hand := hand } s id)
    (reason : FinishReason) :
    Spec o (completeSuccess id reason) (fun _ => Completed o hand id s) X s := by
  refine Prog.wp_seq (releasePlanningState_spec hw rfl hh) fun _ s' hk => ?_
  refine Prog.wp_seq (Q := fun result s'' =>
    Keeps o { hand := hand, moved := some id } id s s'' ∧
      result.content = channelText .content (s''.reqs id).published ∧
      result.reasoning = channelText .reasoning (s''.reqs id).published)
    (Prog.wp_atomically fun s₁ hrely => ?_) ?_
  · have hk' := hk.rely hrely
    have hh' := hk'.held hh
    obtain ⟨ha, hd⟩ := hk'.work.held rfl hh'
    have hr := hk'.work.inv.reqs id
    have hr' : ReqInv { s₁.reqs id with
        content := "", reasoning := "", job := { (s₁.reqs id).job with generated := [] } } :=
      ⟨fun hn => absurd ha hn, { hr.outcome with }, { hr.capacity with }, { hr.stream with }⟩
    have hinv := hk'.work.inv.setReq (by simp [ha]) hr' (by simp [ha]) rfl
    obtain ⟨hcont, hreas⟩ := hk'.work.text id hd nofun
    refine ⟨guarantee_setReq hinv rfl ⟨rfl, rfl⟩ ⟨rfl, rfl⟩ fun h => ⟨h, rfl, rfl⟩,
      ⟨?_, hk'.touches.trans (touches_setReq rfl rfl rfl rfl)⟩, ?_, ?_⟩
    · refine hk'.work.change ⟨rfl, fun _ _ => Iff.rfl, ?_, fun _ _ => Iff.rfl, fun _ _ => Iff.rfl⟩
        hinv rfl rfl rfl ⟨hk'.work.held_not_pending hh', rfl⟩ Iff.rfl (fun _ h => absurd rfl h)
        fun h => ?_
      · simp +contextual [eq_comm]
      · exact absurd (hd.symm.trans h) nofun
    · exact hcont.trans (by rw [State.updateReq, State.setReq_reqs_self])
    · exact hreas.trans (by rw [State.updateReq, State.setReq_reqs_self])
  · rintro result s'' ⟨hk', hcont, hreas⟩
    refine (storeOutcome_spec (some id) hk'.work (Or.inr rfl) (hk'.held hh)
      fun r hpub hr ha hd => ⟨some result, r.error, rfl, ?_⟩).mono
      (fun _ _ h => .trans hk'.touches h) fun _ _ h => h
    refine hr.complete ha hd (Or.inl ⟨rfl, (hr.outcome.undecided hd).2⟩) fun res hres => ?_
    obtain rfl := Option.some.inj hres
    rw [hpub]
    exact ⟨hcont, hreas⟩

/-- **`complete_cancelled` completes the request**; it can throw only when its session was used. -/
theorem completeCancelled_spec (hw : Work o { hand := hand } s) (hh : Held { hand := hand } s id) :
    Spec o (completeCancelled id) (fun _ => Completed o hand id s)
      (fun _ s' => Keeps o { hand := hand } id s s' ∧ (s.reqs id).job.output ≠ {}) s := by
  refine Prog.wp_seq (previewTerminal_spec hw rfl hh) fun _ s₁ hk => ?_
  refine Prog.wp_seq (commitPreview_spec hk.work rfl (hk.held hh)) fun output s₂ hk' => ?_
  have hk₂ := hk.trans hk'
  refine Prog.wp_seq (appendOutput_spec hk'.work (hk₂.held hh) output) fun _ s₃ hk'' => ?_
  have hk₃ := hk₂.trans hk''
  exact (completeSuccess_spec hk''.work (hk₃.held hh) .cancelled).mono
    (fun _ _ h => .trans hk₃.touches h) fun _ _ h => h

end Ninfer.Executor
