import Ninfer.Media.Runs

/-!
# Flights come to an end

A waiter needs nobody but the workers, the builders and the producer of its flight. From every
state of every run they can finish the flight: the tasks that run end, the queue moves, and its
producer finds space in it. A builder is taken to return or to throw.

## Main definitions

* `Serves`: a step in which no caller acts and no submission is refused

## Main results

* `Inv.exists_marked`, `Inv.drain`: a task that runs can end, and the queue can be emptied
* `Inv.can_finish`: every flight can be finished
-/

namespace Ninfer.Media

variable {κ ε : Type} {limits : Limits} {s t u : State κ ε} {f : Nat} {flight flight' : Flight κ ε}

/-- No flight is refused by a change of one that leaves it at another stage. -/
theorem refused_of_set (hflights : t.flights = s.flights.set f flight')
    (hstage : flight'.stage ≠ .refused) (g : Nat) (other : Flight κ ε) (hat : t.At g other .refused) :
    s.At g other .refused := by
  obtain ⟨hget, hrefused⟩ := hat
  rw [hflights, List.getElem?_set] at hget
  split_ifs at hget with hfg hbound
  · cases hget
    exact absurd hrefused hstage
  · exact ⟨hget, hrefused⟩

/-- The stages of a task that a worker runs. -/
def Stage.isActive (stage : Stage) : Bool :=
  stage ∈ [Stage.building, .built, .checked, .settled, .marked]

/-- The tasks that run, after one flight has changed. -/
theorem active_set (hf : f < s.flights.length) (hflights : t.flights = s.flights.set f flight') :
    t.active = s.active - (if s.flights[f].stage.isActive then 1 else 0) +
      (if flight'.stage.isActive then 1 else 0) := by
  unfold State.active
  rw [hflights, List.countP_set hf]
  rfl

/-- A finished flight is not in flight. -/
theorem Inv.not_inflight (h : Inv limits s) (hat : s.At f flight .finished) (key : κ) :
    (key, f) ∉ s.inflight := by
  intro hmem
  obtain ⟨other, hget, -, hlive⟩ := (h.flying.inflight key f).mp hmem
  cases hat.1.symm.trans hget
  exact hlive hat.2

variable [DecidableEq κ]

/-- A step of a worker, of a builder that ends, or of a producer that submits. -/
structure Serves (limits : Limits) (s t : State κ ε) : Prop where
  step : Step limits s t
  entering : t.entering = s.entering
  passed : t.passed = s.passed
  held : t.held = s.held
  reservations : t.reservations = s.reservations
  refused : ∀ f flight, t.At f flight .refused → s.At f flight .refused

/-- Steps that serve flights. -/
def Served (limits : Limits) : State κ ε → State κ ε → Prop := Relation.ReflTransGen (Serves limits)

theorem Served.inv (h : Served limits s t) (hinv : Inv limits s) : Inv limits t := by
  induction h with
  | refl => exact hinv
  | tail _ step ih => exact step.step.inv ih

/-! ## Tasks -/

/-- One flight has moved to a stage, and the queue is as it was. -/
structure Moved (limits : Limits) (f : Nat) (stage : Stage) (s t : State κ ε) : Prop where
  served : Served limits s t
  queue : t.queue = s.queue
  flights : ∃ flight, t.flights = s.flights.set f flight ∧ flight.stage = stage

theorem Moved.trans {stage stage' : Stage} (h : Moved limits f stage s t)
    (h' : Moved limits f stage' t u) : Moved limits f stage' s u := by
  obtain ⟨flight, hflights, -⟩ := h.flights
  obtain ⟨flight', hflights', hstage⟩ := h'.flights
  refine ⟨h.served.trans h'.served, h'.queue.trans h.queue, flight', ?_, hstage⟩
  rw [hflights', hflights, List.set_set]

theorem Moved.at {stage : Stage} (h : Moved limits f stage s t) (hf : f < s.flights.length) :
    ∃ flight, t.At f flight stage := by
  obtain ⟨flight, hflights, hstage⟩ := h.flights
  exact ⟨flight, by rw [hflights, List.getElem?_set_self hf], hstage⟩

theorem Moved.of_step {stage : Stage} (step : Step limits s t)
    (hflights : t.flights = s.flights.set f flight') (hstage : flight'.stage = stage)
    (hrefused : stage ≠ .refused) (hqueue : t.queue = s.queue) (hentering : t.entering = s.entering)
    (hpassed : t.passed = s.passed) (hheld : t.held = s.held)
    (hreservations : t.reservations = s.reservations) : Moved limits f stage s t :=
  ⟨.single ⟨step, hentering, hpassed, hheld, hreservations,
    refused_of_set hflights (hstage ▸ hrefused)⟩, hqueue, flight', hflights, hstage⟩

section Tasks

variable [Inhabited ε]

/-- A task leaves its `try` block. -/
theorem Inv.exists_settled (h : Inv limits s) (here : s.flights[f]? = some flight)
    (hstage : flight.stage ∈ [Stage.building, .built, .checked]) :
    ∃ t, Moved limits f .settled s t := by
  simp only [List.mem_cons, List.not_mem_nil, or_false] at hstage
  rcases hstage with hstage | hstage | hstage
  · exact ⟨_, .of_step (.threw f flight default ⟨here, hstage⟩) rfl rfl nofun rfl rfl rfl rfl rfl⟩
  · exact ⟨_, .of_step (.checkThrew f flight default ⟨here, hstage⟩) rfl rfl nofun rfl rfl rfl rfl rfl⟩
  · obtain ⟨payload, filled⟩ := (h.flying.sound f flight here).filled hstage
    have hkey : flight.key ∉ s.keys :=
      h.flying.absent f flight here (by simp [hstage, Stage.isEarly])
    have hflight : ∃ flight' ∈ s.flights,
        flight'.payload = some (Entry.mk payload flight.bytes).payload :=
      ⟨flight, List.mem_of_getElem? here, filled⟩
    obtain ⟨-, -, -, hshelved⟩ := retain_spec h.books h.account h.alive hkey hflight
    have step : Step limits s _ := .retain f flight payload ⟨here, hstage⟩ filled
    generalize s.retain limits.capacityBytes flight.key ⟨payload, flight.bytes⟩ = t at hshelved step
    have hset : (t.setFlight f { flight with stage := .settled }).flights =
        s.flights.set f { flight with stage := .settled } := by
      rw [hshelved.eq]
      rfl
    refine ⟨_, .of_step step hset rfl nofun ?_ ?_ ?_ ?_ ?_⟩
    all_goals
      rw [hshelved.eq]
      rfl

/-- A task that runs marks its flight. -/
theorem Inv.exists_marked (h : Inv limits s) (here : s.flights[f]? = some flight)
    (hstage : flight.stage ∈ [Stage.building, .built, .checked, .settled]) :
    ∃ t, Moved limits f .marked s t := by
  have hf : f < s.flights.length := (List.getElem?_eq_some_iff.mp here).1
  have hmark : ∀ {s : State κ ε} {flight : Flight κ ε}, s.At f flight .settled →
      ∃ t, Moved limits f .marked s t := fun hat =>
    ⟨_, .of_step (.mark f _ hat) rfl rfl nofun rfl rfl rfl rfl rfl⟩
  by_cases hsettled : flight.stage = .settled
  · exact hmark ⟨here, hsettled⟩
  · obtain ⟨t, ht⟩ := h.exists_settled here (by simpa [hsettled] using hstage)
    obtain ⟨flight', hat⟩ := ht.at hf
    obtain ⟨u, hu⟩ := hmark hat
    exact ⟨u, ht.trans hu⟩

/-- A task that runs ends. -/
theorem Inv.exists_finished (h : Inv limits s) (here : s.flights[f]? = some flight)
    (hstage : flight.stage.isActive = true) : ∃ t, Moved limits f .finished s t := by
  have hf : f < s.flights.length := (List.getElem?_eq_some_iff.mp here).1
  have herase : ∀ {s : State κ ε} {flight : Flight κ ε}, s.At f flight .marked →
      ∃ t, Moved limits f .finished s t := fun hat =>
    ⟨_, .of_step (.erase f _ (Or.inl hat)) rfl rfl nofun rfl rfl rfl rfl rfl⟩
  by_cases hmarked : flight.stage = .marked
  · exact herase ⟨here, hmarked⟩
  · obtain ⟨t, ht⟩ := h.exists_marked here (by simpa [Stage.isActive, hmarked] using hstage)
    obtain ⟨flight', hat⟩ := ht.at hf
    obtain ⟨u, hu⟩ := herase hat
    exact ⟨u, ht.trans hu⟩

end Tasks

/-! ## The queue -/

/-- The flights that neither run nor stand in the front of the queue are as they were. -/
def Untouched (front : List Nat) (s t : State κ ε) : Prop :=
  ∀ (g : Nat) (flight : Flight κ ε), s.flights[g]? = some flight → flight.stage.isActive = false →
    g ∉ front → t.flights[g]? = some flight

section Queue

/-- The first task of the queue starts when no task runs. -/
theorem Inv.exists_building (h : Inv limits s) {rest : List Nat} (hzero : s.active = 0)
    (hqueue : s.queue = f :: rest) :
    ∃ t flight', Served limits s t ∧ t.queue = rest ∧ t.flights = s.flights.set f flight' ∧
      flight'.stage = .building := by
  obtain ⟨flight, here⟩ := (h.flying.queue f).mp (hqueue ▸ List.mem_cons_self)
  have hfree : s.active < limits.threads := hzero ▸ limits.threads_pos
  have step : Step limits s _ := .take f flight rest here hqueue hfree
  exact ⟨_, _, .single ⟨step, rfl, rfl, rfl, rfl, refused_of_set rfl nofun⟩, rfl, rfl, rfl⟩

variable [Inhabited ε]

/-- The tasks that run can end. -/
theorem Inv.drain_active (h : Inv limits s) :
    ∃ t, Served limits s t ∧ t.queue = s.queue ∧ t.active = 0 ∧ Untouched [] s t := by
  -- Induction on the number of tasks that run.
  obtain ⟨n, hn⟩ : ∃ n, s.active = n := ⟨_, rfl⟩
  induction n generalizing s with
  | zero => exact ⟨s, .refl, rfl, hn, fun _ _ hget _ _ => hget⟩
  | succ n ih =>
    have hpos : 0 < s.active := by omega
    obtain ⟨flight, hmem, hstage⟩ := List.countP_pos_iff.mp hpos
    have hactive : flight.stage.isActive = true := hstage
    obtain ⟨f, here⟩ := List.mem_iff_getElem?.mp hmem
    obtain ⟨t, ht⟩ := h.exists_finished here hactive
    obtain ⟨flight', hflights, hstage⟩ := ht.flights
    obtain ⟨hf, hself⟩ := List.getElem?_eq_some_iff.mp here
    have hcount : t.active = n := by
      rw [active_set hf hflights, hself, hstage, if_pos hactive]
      show s.active - 1 + 0 = n
      omega
    obtain ⟨u, hserved, hqueue, hzero, hsame⟩ := ih (ht.served.inv h) hcount
    refine ⟨u, ht.served.trans hserved, hqueue.trans ht.queue, hzero, fun g other hget hidle hnot => ?_⟩
    have hgf : f ≠ g := by
      rintro rfl
      cases here.symm.trans hget
      exact Bool.noConfusion (hidle.symm.trans hactive)
    refine hsame g other ?_ hidle hnot
    rw [hflights, List.getElem?_set_ne hgf, hget]

/-- The front of the queue can be served. -/
theorem Inv.drain (h : Inv limits s) {front rest : List Nat} (hqueue : s.queue = front ++ rest) :
    ∃ t, Served limits s t ∧ t.queue = rest ∧ t.active = 0 ∧ Untouched front s t := by
  induction front generalizing s with
  | nil =>
    obtain ⟨t, hserved, hsame, hzero, huntouched⟩ := h.drain_active
    exact ⟨t, hserved, hsame.trans hqueue, hzero, huntouched⟩
  | cons f front ih =>
    obtain ⟨t, hserved, hsame, hzero, huntouched⟩ := h.drain_active
    have ht := hserved.inv h
    obtain ⟨u, flight', hserved', hqueue', hflights, hstage⟩ :=
      ht.exists_building hzero (hsame.trans hqueue)
    obtain ⟨v, hserved'', hqueue'', hzero', huntouched'⟩ := ih (hserved'.inv ht) hqueue'
    refine ⟨v, (hserved.trans hserved').trans hserved'', hqueue'', hzero',
      fun g other hget hidle hnot => ?_⟩
    rw [List.mem_cons, not_or] at hnot
    refine huntouched' g other ?_ hidle hnot.2
    rw [hflights, List.getElem?_set_ne (Ne.symm hnot.1)]
    exact huntouched g other hget hidle List.not_mem_nil

end Queue

/-! ## Flights -/

section Finish

variable [Inhabited ε]

/-- A flight whose task is first in the queue can be finished. -/
theorem Inv.finish_first (h : Inv limits s) {rest : List Nat} (hzero : s.active = 0)
    (hqueue : s.queue = f :: rest) : ∃ t flight', Served limits s t ∧ t.At f flight' .finished := by
  obtain ⟨flight, here, -⟩ := (h.flying.queue f).mp (hqueue ▸ List.mem_cons_self)
  have hf : f < s.flights.length := (List.getElem?_eq_some_iff.mp here).1
  obtain ⟨t, flight', hserved, -, hflights, hstage⟩ := h.exists_building hzero hqueue
  have hget : t.flights[f]? = some flight' := by rw [hflights, List.getElem?_set_self hf]
  have hactive : flight'.stage.isActive = true := by
    rw [hstage]
    rfl
  obtain ⟨u, hu⟩ := (hserved.inv h).exists_finished hget hactive
  obtain ⟨flight'', hat⟩ := hu.at (List.getElem?_eq_some_iff.mp hget).1
  exact ⟨u, flight'', hserved.trans hu.served, hat⟩

/-- **A flight can be finished** from every state, and nobody but the workers, the builders and
its producer has to act. -/
theorem Inv.can_finish (h : Inv limits s) (here : s.flights[f]? = some flight) :
    ∃ t flight', Served limits s t ∧ t.At f flight' .finished := by
  have hf : f < s.flights.length := (List.getElem?_eq_some_iff.mp here).1
  have hrun : flight.stage.isActive = true → ∃ t flight', Served limits s t ∧
      t.At f flight' .finished := by
    intro hactive
    obtain ⟨t, ht⟩ := h.exists_finished here hactive
    obtain ⟨flight', hat⟩ := ht.at hf
    exact ⟨t, flight', ht.served, hat⟩
  have herase : ∀ {s : State κ ε} {flight : Flight κ ε}, s.At f flight .unwound →
      ∃ t flight', Served limits s t ∧ t.At f flight' .finished := by
    intro s flight hat
    have ht : Moved limits f .finished s _ :=
      .of_step (.erase f flight (Or.inr hat)) rfl rfl nofun rfl rfl rfl rfl rfl
    obtain ⟨flight', hat'⟩ := ht.at (List.getElem?_eq_some_iff.mp hat.1).1
    exact ⟨_, flight', ht.served, hat'⟩
  cases hstage : flight.stage with
  | submitting =>
    -- The queue is emptied, and the task is the only one in it.
    obtain ⟨t, hserved, hqueue, hzero, huntouched⟩ := h.drain (List.append_nil s.queue).symm
    have hidle : f ∉ s.queue := by
      intro hmem
      obtain ⟨other, hget, hqueued⟩ := (h.flying.queue f).mp hmem
      cases here.symm.trans hget
      cases hstage.symm.trans hqueued
    have hget : t.flights[f]? = some flight :=
      huntouched f flight here (by rw [hstage]; rfl) hidle
    have hspace : t.queue.length < limits.queueCapacity := by
      rw [hqueue]
      exact limits.queueCapacity_pos
    have step : Step limits t _ := .enqueue f flight ⟨hget, hstage⟩ hspace
    have hserved' : Served limits t _ :=
      .single ⟨step, rfl, rfl, rfl, rfl, refused_of_set rfl nofun⟩
    have hinv := hserved'.inv (hserved.inv h)
    obtain ⟨hft, hself⟩ := List.getElem?_eq_some_iff.mp hget
    have hzero' : ((({ t with queue := t.queue ++ [f] } : State κ ε).setFlight f
        { flight with stage := .queued })).active = 0 := by
      rw [active_set hft rfl, hself, hzero, hstage]
      rfl
    have hqueue' : (({ t with queue := t.queue ++ [f] } : State κ ε).setFlight f
        { flight with stage := .queued }).queue = [f] := by
      show t.queue ++ [f] = [f]
      rw [hqueue, List.nil_append]
    obtain ⟨u, flight', hserved'', hat⟩ := hinv.finish_first hzero' hqueue'
    exact ⟨u, flight', (hserved.trans hserved').trans hserved'', hat⟩
  | refused =>
    have ht : Moved limits f .unwound s _ :=
      .of_step (.unwind f flight ⟨here, hstage⟩) rfl rfl nofun rfl rfl rfl rfl rfl
    obtain ⟨flight', hat⟩ := ht.at hf
    obtain ⟨u, flight'', hserved, hat'⟩ := herase hat
    exact ⟨u, flight'', ht.served.trans hserved, hat'⟩
  | queued =>
    -- The tasks before it in the queue are served first.
    have hmem : f ∈ s.queue := (h.flying.queue f).mpr ⟨flight, here, hstage⟩
    obtain ⟨front, rest, hqueue⟩ := List.append_of_mem hmem
    obtain ⟨t, hserved, hqueue', hzero, -⟩ := h.drain hqueue
    obtain ⟨u, flight', hserved', hat⟩ := (hserved.inv h).finish_first hzero hqueue'
    exact ⟨u, flight', hserved.trans hserved', hat⟩
  | building => exact hrun (by rw [hstage]; rfl)
  | built => exact hrun (by rw [hstage]; rfl)
  | checked => exact hrun (by rw [hstage]; rfl)
  | settled => exact hrun (by rw [hstage]; rfl)
  | marked => exact hrun (by rw [hstage]; rfl)
  | unwound => exact herase ⟨here, hstage⟩
  | finished => exact ⟨s, flight, .refl, here, hstage⟩

end Finish

/-! ## The cache in every run -/

/-- A finished flight stays finished, in every run. -/
theorem finished_of_run (run : Relation.ReflTransGen (Step limits) s t)
    (hat : s.At f flight .finished) : ∃ flight', t.At f flight' .finished := by
  induction run with
  | refl => exact ⟨flight, hat⟩
  | tail _ step ih =>
    obtain ⟨old, hget, hstage⟩ := ih
    obtain ⟨new, hget', hfollows⟩ := step.follows hget
    exact ⟨new, hget', hfollows.finished hstage⟩

/-- A flight leaves `inflight` when it is done, and it is finished then. -/
theorem Inv.leaves (h : Inv limits s) (step : Step limits s t) {key : κ}
    (hmem : (key, f) ∈ s.inflight) (hgone : (key, f) ∉ t.inflight) :
    ∃ flight flight', s.flights[f]? = some flight ∧ flight.done = true ∧ t.At f flight' .finished := by
  obtain ⟨flight, hget, hkey, -⟩ := (h.flying.inflight key f).mp hmem
  obtain ⟨flight', hget', hfollows⟩ := step.follows hget
  have hfinished : flight'.stage = .finished := by
    by_contra hlive
    exact hgone (((step.inv h).flying.inflight key f).mpr
      ⟨flight', hget', hfollows.key.trans hkey, hlive⟩)
  refine ⟨flight, flight', hget, ?_, hget', hfinished⟩
  rw [(h.flying.sound f flight hget).done]
  exact hfollows.last hfinished

/-- **The cache, over every run and every order of its critical sections.** Its order lists the
ready keys, each once; the retained bytes are those of the entries, and what is live is the payloads
with a reference and the reservations, both within their limits; a key has one flight at a time,
which leaves `inflight` once and done; every call past its control check has been counted or is
before its critical section; no guard has called `terminate`; and every flight can still be finished
by the workers, the builders and its producer alone, done and out of `inflight`. -/
theorem Reachable.coherent [Inhabited ε] (h : Reachable limits s) :
    (s.lru.Nodup ∧ s.keys.Nodup ∧ ∀ key, key ∈ s.lru ↔ key ∈ s.keys) ∧
    (s.retainedBytes = (s.ready.map fun entry => entry.2.bytes).sum ∧
      s.retainedBytes ≤ limits.capacityBytes) ∧
    (s.live = footprint s.bytesOf s.refs + s.reservations.sum ∧ s.live ≤ limits.liveBytes) ∧
    (∀ (f g : Nat) (flight other : Flight κ ε), s.flights[f]? = some flight →
      s.flights[g]? = some other → flight.key = other.key → flight.stage ≠ .finished →
      other.stage ≠ .finished → f = g) ∧
    (∀ (t : State κ ε) (key : κ) (f : Nat), Step limits s t → (key, f) ∈ s.inflight →
      (key, f) ∉ t.inflight →
      (∃ flight, s.flights[f]? = some flight ∧ flight.done = true) ∧
        ∀ u, Relation.ReflTransGen (Step limits) t u → ∀ key', (key', f) ∉ u.inflight) ∧
    s.hits + s.misses + s.singleflightWaits + s.entering.length = s.passed ∧
    s.terminated = false ∧
    ∀ (f : Nat) (flight : Flight κ ε), s.flights[f]? = some flight →
      ∃ t flight', Served limits s t ∧ t.At f flight' .finished ∧ flight'.done = true ∧
        ∀ key, (key, f) ∉ t.inflight := by
  have hinv := h.inv
  refine ⟨⟨hinv.books.lru, hinv.books.keys, hinv.books.mem⟩, ⟨hinv.books.retained, hinv.books.le⟩,
    ⟨hinv.account.live, hinv.account.le⟩, ?_, ?_, hinv.counted, hinv.alive, ?_⟩
  · intro f g flight other hf hg hkey hlive hlive'
    exact hinv.flying.unique hf hg hkey hlive hlive'
  -- A key leaves the table when its flight ends, and an ended flight does not come back.
  · intro t key f step hmem hgone
    obtain ⟨flight, flight', hget, hdone, hat⟩ := hinv.leaves step hmem hgone
    refine ⟨⟨flight, hget, hdone⟩, fun u run key' => ?_⟩
    obtain ⟨last, hlast⟩ := finished_of_run run hat
    have hu : Reachable limits u := (h.tail step).trans run
    exact hu.inv.not_inflight hlast key'
  · intro f flight hget
    obtain ⟨t, flight', hserved, hat⟩ := hinv.can_finish hget
    have ht := hserved.inv hinv
    refine ⟨t, flight', hserved, hat, ?_, ht.not_inflight hat⟩
    rw [(ht.flying.sound f flight' hat.1).done, hat.2]
    rfl

/-- A small cache. -/
def sampleLimits : Limits where
  capacityBytes := 8
  liveBytes := 16
  threads := 1
  queueCapacity := 1
  threads_pos := Nat.one_pos
  queueCapacity_pos := Nat.one_pos

/-- A payload of four bytes has been built and published under a key. -/
def sampleState : State Nat Nat where
  lru := [7]
  ready := [(7, ⟨0, 4⟩)]
  inflight := [(7, 0)]
  retainedBytes := 4
  misses := 1
  live := 4
  flights := [{ key := 7, stage := .settled, payload := some 0, bytes := 4 }]
  payloads := [4]
  passed := 1

theorem sampleState_reachable : Reachable sampleLimits sampleState := by
  let key : Flight Nat Nat := { key := 7 }
  have h₁ : Reachable sampleLimits ({ entering := [7], passed := 1 } : State Nat Nat) :=
    .tail .refl (.enter 7)
  have h₂ : Reachable sampleLimits ({
      inflight := [(7, 0)], misses := 1, passed := 1, flights := [key] } : State Nat Nat) :=
    .tail h₁ (.produce 7 (by decide) rfl rfl)
  have h₃ : Reachable sampleLimits ({
      inflight := [(7, 0)], misses := 1, passed := 1, queue := [0],
      flights := [{ key with stage := .queued }] } : State Nat Nat) :=
    .tail h₂ (.enqueue 0 key ⟨rfl, rfl⟩ (by decide))
  have h₄ : Reachable sampleLimits ({
      inflight := [(7, 0)], misses := 1, passed := 1,
      flights := [{ key with stage := .building }] } : State Nat Nat) :=
    .tail h₃ (.take 0 { key with stage := .queued } [] ⟨rfl, rfl⟩ rfl (by decide))
  have h₅ : Reachable sampleLimits ({
      inflight := [(7, 0)], misses := 1, passed := 1, live := 4, payloads := [4], held := [0],
      flights := [{ key with stage := .building }] } : State Nat Nat) :=
    .tail (.tail h₄ (.reserve 4 (by decide) (by decide))) (.construct 4 (by decide))
  have h₆ : Reachable sampleLimits ({
      inflight := [(7, 0)], misses := 1, passed := 1, live := 4, payloads := [4],
      flights := [{ key with stage := .built, payload := some 0 }] } : State Nat Nat) :=
    .tail h₅ (.returned 0 { key with stage := .building } 0 ⟨rfl, rfl⟩ (by decide))
  have h₇ : Reachable sampleLimits ({
      inflight := [(7, 0)], misses := 1, passed := 1, live := 4, payloads := [4],
      flights := [{ key with stage := .checked, payload := some 0, bytes := 4 }] } : State Nat Nat) :=
    .tail h₆ (.check 0 { key with stage := .built, payload := some 0 } 0 ⟨rfl, rfl⟩ rfl)
  exact .tail h₇ (.retain 0 { key with stage := .checked, payload := some 0, bytes := 4 } 0
    ⟨rfl, rfl⟩ rfl)

theorem sampleState_coherent : sampleState.terminated = false ∧
    sampleState.retainedBytes = (sampleState.ready.map fun entry => entry.2.bytes).sum ∧
    sampleState.live = footprint sampleState.bytesOf sampleState.refs :=
  have h := Reachable.coherent sampleState_reachable
  ⟨h.2.2.2.2.2.2.1, h.2.1.1, h.2.2.1.1⟩

end Ninfer.Media
