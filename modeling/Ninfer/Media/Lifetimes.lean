import Ninfer.Media.Processor

/-!
# Builders and permits of a request

A builder refers to the frame of the request that is its producer. The request keeps what it has
started in its list of pending items, and an item leaves the list only when its flight is done;
so past the media phase nothing of it runs. The permit is released where the media phase ends, on
every path.

## Main definitions

* `Phase.owned`: the flights a request still has to await
* `Request.Balanced`: the permit of a request, by phase
* `System.Inv`: the invariant of the system

## Main results

* `Transition.inv`: a transition keeps the invariant
* `System.Reachable.no_builder_outlives`: past the media phase the flights of a request are done and
  its permit is released
-/

namespace Ninfer.Media

variable {κ : Type} {cfg : Settings κ} {s t : System κ}

/-- The flight of an item, for its producer. -/
def Pending.produced : Pending κ → Option Nat
  | .producer _ f => some f
  | _ => none

/-- The flights a request has started and not awaited. -/
def Phase.owned (phase : Phase κ) : List Nat :=
  (match phase with
    | .submitting _ f _ _ => [f]
    | _ => []) ++ phase.pending.filterMap Pending.produced

/-- The phases between `acquire_request` and the end of the media phase. -/
def Phase.isMedia : Phase κ → Bool
  | .rendering | .starting .. | .entering .. | .submitting .. | .awaiting .. | .draining .. => true
  | _ => false

/-- The phases past the media phase, or of a call that has thrown. -/
def Phase.isOver : Phase κ → Bool
  | .finishing | .returned | .threw _ => true
  | _ => false

/-- The permit is held in the media phase, and it has been acquired at most once. -/
structure Request.Balanced (req : Request κ) : Prop where
  permit : req.permit = req.phase.isMedia
  count : req.acquired = req.released + req.permit.toNat
  once : req.acquired ≤ 1
  before : req.phase = .arriving → req.acquired = 0

/-- A flight is done, if there is one. -/
def System.IsDone (s : System κ) (f : Nat) : Prop :=
  ∀ flight, s.cache.flights[f]? = some flight → flight.stage.isDone = true

/-- The invariant of the system. -/
structure System.Inv (cfg : Settings κ) (s : System κ) : Prop where
  cache : Media.Inv cfg.limits s.cache
  length : s.producers.length = s.cache.flights.length
  valid : ∀ f r : Nat, s.producers[f]? = some r → r < s.requests.length
  owned : ∀ (f r : Nat) (req : Request κ), s.producers[f]? = some r → s.requests[r]? = some req →
    f ∈ req.phase.owned ∨ s.IsDone f
  balanced : ∀ (r : Nat) (req : Request κ), s.requests[r]? = some req → req.Balanced
  gate : s.active = s.requests.countP fun req => req.permit
  alive : s.terminated = false

theorem System.inv_init (cfg : Settings κ) : ({} : System κ).Inv cfg where
  cache := Media.inv_init cfg.limits
  length := rfl
  valid := by simp
  owned := by simp
  balanced := by simp
  gate := rfl
  alive := rfl

/-! ## Requests -/

section Requests

variable {r : Nat} {req req' : Request κ}

/-- A request moves within the media phase. -/
theorem Request.Balanced.media (h : req.Balanced) (hphase : req.phase.isMedia = true)
    (hphase' : req'.phase.isMedia = true) (hpermit : req'.permit = req.permit)
    (hacquired : req'.acquired = req.acquired) (hreleased : req'.released = req.released) :
    req'.Balanced where
  permit := by rw [hpermit, h.permit, hphase, hphase']
  count := by rw [hacquired, hreleased, hpermit, h.count]
  once := hacquired ▸ h.once
  before := by
    intro harriving
    rw [harriving] at hphase'
    cases hphase'

/-- A request keeps its phase and its permit. -/
theorem Request.Balanced.congr (h : req.Balanced) (hphase : req'.phase = req.phase)
    (hpermit : req'.permit = req.permit) (hacquired : req'.acquired = req.acquired)
    (hreleased : req'.released = req.released) : req'.Balanced where
  permit := by rw [hpermit, hphase, h.permit]
  count := by rw [hacquired, hreleased, hpermit, h.count]
  once := hacquired ▸ h.once
  before := fun harriving => hacquired.trans (h.before (hphase ▸ harriving))

theorem countP_set_eq {α : Type} {p : α → Bool} {l : List α} {i : Nat} {a b : α}
    (here : l[i]? = some a) :
    (l.set i b).countP p + (p a).toNat = l.countP p + (p b).toNat := by
  obtain ⟨hi, rfl⟩ := List.getElem?_eq_some_iff.mp here
  have hpos : p l[i] = true → 0 < l.countP p := fun hp =>
    List.countP_pos_iff.mpr ⟨_, List.getElem_mem hi, hp⟩
  rw [List.countP_set hi]
  cases ha : p l[i] <;> cases hb : p b <;> simp_all

/-- What is found in a list after one of its elements has changed. -/
theorem getElem?_set_cases {α : Type} {l : List α} {i j : Nat} {a b x : α} (here : l[i]? = some a)
    (h : (l.set i b)[j]? = some x) : j = i ∧ x = b ∨ j ≠ i ∧ l[j]? = some x := by
  have hi : i < l.length := (List.getElem?_eq_some_iff.mp here).1
  by_cases hji : j = i
  · subst hji
    rw [List.getElem?_set_self hi] at h
    exact Or.inl ⟨rfl, (Option.some_inj.mp h).symm⟩
  · rw [List.getElem?_set_ne (Ne.symm hji)] at h
    exact Or.inr ⟨hji, h⟩

/-- One request has changed, and the gate with it. -/
theorem System.Inv.update (h : s.Inv cfg) (here : s.requests[r]? = some req)
    (hrequests : t.requests = s.requests.set r req') (hcache : t.cache = s.cache)
    (hproducers : t.producers = s.producers)
    (howned : ∀ f ∈ req.phase.owned, f ∈ req'.phase.owned ∨ s.IsDone f)
    (hbalanced : req'.Balanced) (hactive : t.active + req.permit.toNat = s.active + req'.permit.toNat)
    (halive : t.terminated = false) : t.Inv cfg := by
  have hget : ∀ (q : Nat) (req₀ : Request κ), t.requests[q]? = some req₀ →
      q = r ∧ req₀ = req' ∨ q ≠ r ∧ s.requests[q]? = some req₀ := by
    intro q req₀ hq
    rw [hrequests] at hq
    exact getElem?_set_cases here hq
  have hdone : ∀ f, s.IsDone f → t.IsDone f := fun f hf flight hflight =>
    hf flight (hcache ▸ hflight)
  refine ⟨hcache ▸ h.cache, by rw [hproducers, hcache, h.length], fun f q hf => ?_,
    fun f q req₀ hf hq => ?_, fun q req₀ hq => ?_, ?_, halive⟩
  · rw [hrequests, List.length_set]
    exact h.valid f q (hproducers ▸ hf)
  · rw [hproducers] at hf
    rcases hget q req₀ hq with ⟨rfl, rfl⟩ | ⟨-, hq⟩
    · rcases h.owned f q req hf here with howns | hover
      · exact (howned f howns).imp_right (hdone f)
      · exact Or.inr (hdone f hover)
    · exact (h.owned f q req₀ hf hq).imp_right (hdone f)
  · rcases hget q req₀ hq with ⟨-, rfl⟩ | ⟨-, hq⟩
    · exact hbalanced
    · exact h.balanced q req₀ hq
  · have hcount := countP_set_eq (p := fun req => req.permit) (b := req') here
    have hgate := h.gate
    rw [hrequests]
    omega

/-- A request changes and keeps its permit. -/
theorem System.Inv.setRequest (h : s.Inv cfg) (here : s.requests[r]? = some req)
    (howned : ∀ f ∈ req.phase.owned, f ∈ req'.phase.owned ∨ s.IsDone f)
    (hbalanced : req'.Balanced) (hpermit : req'.permit = req.permit) :
    (s.setRequest r req').Inv cfg :=
  h.update here rfl rfl rfl howned hbalanced (by rw [hpermit]; rfl) h.alive

/-- The request that leaves the media phase gives its permit back. -/
theorem System.Inv.release (h : s.Inv cfg) (here : s.requests[r]? = some req)
    (hmedia : req.phase.isMedia = true) (howned : ∀ f ∈ req.phase.owned, s.IsDone f)
    (hover : req'.phase.isOver = true) (hpermit : req'.permit = req.permit)
    (hacquired : req'.acquired = req.acquired) (hreleased : req'.released = req.released) :
    (s.release r req').Inv cfg := by
  have hbalanced := h.balanced r req here
  have hheld : req.permit = true := hbalanced.permit.trans hmedia
  have hpos : 0 < s.active := by
    rw [h.gate]
    exact List.countP_pos_iff.mpr ⟨req, List.mem_of_getElem? here, hheld⟩
  have hcount := hbalanced.count
  rw [hheld] at hcount
  unfold System.release
  rw [hpermit, hheld, if_pos rfl, if_neg (Nat.ne_of_gt hpos)]
  refine h.update here rfl rfl rfl (fun f hf => Or.inr (howned f hf)) ⟨?_, ?_, ?_, ?_⟩ ?_ h.alive
  · show false = req'.phase.isMedia
    cases hphase : req'.phase <;> rw [hphase] at hover <;> first | rfl | cases hover
  · show req'.acquired = req'.released + 1 + 0
    rw [hacquired, hreleased]
    exact hcount
  · show req'.acquired ≤ 1
    exact hacquired ▸ hbalanced.once
  · intro harriving
    rw [show req'.phase = .arriving from harriving] at hover
    cases hover
  · show s.active - 1 + req.permit.toNat = s.active + 0
    rw [hheld]
    show s.active - 1 + 1 = s.active + 0
    omega

/-- Past the media phase the permit is gone, and the destructor does nothing. -/
theorem System.Inv.finish (h : s.Inv cfg) (here : s.requests[r]? = some req)
    (hphase : req.phase = .finishing) (hover : req'.phase.isOver = true)
    (hpermit : req'.permit = req.permit) (hacquired : req'.acquired = req.acquired)
    (hreleased : req'.released = req.released) : (s.release r req').Inv cfg := by
  have hbalanced := h.balanced r req here
  have hfree : req.permit = false := by
    rw [hbalanced.permit, hphase]
    rfl
  unfold System.release
  rw [hpermit, hfree, if_neg Bool.false_ne_true]
  refine h.setRequest here (fun f hf => ?_) ⟨?_, ?_, ?_, ?_⟩ hpermit
  · rw [hphase] at hf
    cases hf
  · rw [hpermit, hfree]
    cases hphase' : req'.phase <;> rw [hphase'] at hover <;> first | rfl | cases hover
  · rw [hacquired, hreleased, hpermit, hbalanced.count]
  · exact hacquired ▸ hbalanced.once
  · intro harriving
    rw [harriving] at hover
    cases hover

end Requests

/-- A flight that `await` has found done. -/
theorem System.isDone_of_outcome (h : s.Inv cfg) {item : Pending κ} {f : Nat}
    {found : Option Failure} (hf : item.produced = some f) (done : s.outcome item = some found) :
    s.IsDone f := by
  cases item with
  | hit => cases hf
  | waiter => cases hf
  | producer key g =>
    cases hf
    intro flight here
    have hdone : flight.done = true := by
      simp only [System.outcome, Pending.flight, here] at done
      split_ifs at done with hdone
      exact hdone
    rw [← (h.cache.flying.sound f flight here).done, hdone]

/-- The item at the front leaves the list of pending items once its flight is done. -/
theorem System.Inv.dropItem (h : s.Inv cfg) {item : Pending κ} {pending : List (Pending κ)}
    {found : Option Failure} (done : s.outcome item = some found) (f : Nat)
    (hf : f ∈ (item :: pending).filterMap Pending.produced) :
    f ∈ pending.filterMap Pending.produced ∨ s.IsDone f := by
  rw [List.filterMap_cons] at hf
  split at hf
  case h_1 => exact Or.inl hf
  case h_2 g hg =>
    rcases List.mem_cons.mp hf with rfl | hf
    · exact Or.inr (System.isDone_of_outcome h hg done)
    · exact Or.inl hf

/-! ## The cache -/

section Cache

variable [DecidableEq κ] {a : Action κ Failure} {cache : State κ Failure}

/-- What is done stays done. -/
theorem System.IsDone.acts {f : Nat} (h : s.IsDone f) (hf : f < s.cache.flights.length)
    (act : s.cache.act cfg.limits a = some cache) : (s.setCache cache).IsDone f := by
  intro flight' here'
  obtain ⟨flight, here⟩ : ∃ flight, s.cache.flights[f]? = some flight :=
    ⟨_, List.getElem?_eq_getElem hf⟩
  obtain ⟨next, hnext, hfollows⟩ := (Step.of_act act).follows here
  cases hnext.symm.trans here'
  exact (hfollows.done (h flight here)).1

theorem System.IsDone.of_acts {f : Nat} (h : s.IsDone f)
    (act : s.cache.act cfg.limits a = some cache) (ha : ∀ key, a ≠ .produce key) :
    (s.setCache cache).IsDone f := by
  intro flight here
  have hlt : f < cache.flights.length := (List.getElem?_eq_some_iff.mp here).1
  rw [act_length act ha] at hlt
  exact h.acts hlt act flight here

/-- An action that starts no flight keeps the invariant. -/
theorem System.Inv.acts (h : s.Inv cfg) (act : s.cache.act cfg.limits a = some cache)
    (ha : ∀ key, a ≠ .produce key) : (s.setCache cache).Inv cfg := by
  refine ⟨(Step.of_act act).inv h.cache, ?_, h.valid, fun f r req hf hr => ?_, h.balanced, h.gate,
    h.alive⟩
  · show s.producers.length = cache.flights.length
    rw [act_length act ha, h.length]
  · exact (h.owned f r req hf hr).imp_right fun hdone => hdone.of_acts act ha

/-- A request becomes the producer of a new flight. -/
theorem System.Inv.produce (h : s.Inv cfg) {r : Nat} {req : Request κ} {key : κ} {rest : List κ}
    {pending : List (Pending κ)} (here : s.requests[r]? = some req)
    (phase : req.phase = .entering key rest pending)
    (act : s.cache.act cfg.limits (.produce key) = some cache) :
    (({ s.setCache cache with producers := s.producers ++ [r] } : System κ).setRequest r
      { req with phase := .submitting key s.cache.flights.length rest pending }).Inv cfg := by
  have hr : r < s.requests.length := (List.getElem?_eq_some_iff.mp here).1
  have hflights : cache.flights = s.cache.flights ++ [{ key := key }] := by
    cases act_flights act with
    | new key' label flights =>
      cases label
      exact flights
    | same label => exact absurd rfl (label key)
    | set _ _ _ label => exact absurd rfl (label key)
  have hold : ∀ (f q : Nat), (s.producers ++ [r])[f]? = some q →
      s.producers[f]? = some q ∨ f = s.cache.flights.length ∧ q = r := by
    intro f q hf
    rw [List.getElem?_append] at hf
    split_ifs at hf with hlt
    · exact Or.inl hf
    · rw [List.getElem?_singleton] at hf
      split_ifs at hf with hzero
      have hlength := h.length
      exact Or.inr ⟨by omega, (Option.some_inj.mp hf).symm⟩
  have hbalanced := h.balanced r req here
  refine ⟨(Step.of_act act).inv h.cache, ?_, fun f q hf => ?_, fun f q req₀ hf hq => ?_,
    fun q req₀ hq => ?_, ?_, h.alive⟩
  · show (s.producers ++ [r]).length = cache.flights.length
    rw [hflights, List.length_append, List.length_append, h.length]
    rfl
  · show q < (s.requests.set r _).length
    rw [List.length_set]
    rcases hold f q hf with hf | ⟨-, rfl⟩
    · exact h.valid f q hf
    · exact hr
  · rcases hold f q hf with hproducer | ⟨rfl, rfl⟩
    · have hlt : f < s.cache.flights.length := by
        rw [← h.length]
        exact (List.getElem?_eq_some_iff.mp hproducer).1
      rcases getElem?_set_cases here hq with ⟨rfl, rfl⟩ | ⟨-, hq⟩
      · refine (h.owned f q req hproducer here).imp (fun howns => ?_) fun hdone =>
          hdone.acts hlt act
        rw [phase] at howns
        exact List.mem_cons_of_mem _ howns
      · exact (h.owned f q req₀ hproducer hq).imp_right fun hdone => hdone.acts hlt act
    · rcases getElem?_set_cases here hq with ⟨-, rfl⟩ | ⟨hne, -⟩
      · exact Or.inl List.mem_cons_self
      · exact absurd rfl hne
  · rcases getElem?_set_cases here hq with ⟨-, rfl⟩ | ⟨-, hq⟩
    · exact hbalanced.media (by rw [phase]; rfl) rfl rfl rfl rfl
    · exact h.balanced q req₀ hq
  · have hcount := countP_set_eq (p := fun req => req.permit)
      (b := { req with phase := .submitting key s.cache.flights.length rest pending }) here
    have hgate := h.gate
    show s.active = (s.requests.set r _).countP _
    dsimp only at hcount ⊢
    omega

end Cache

/-! ## Transitions -/

section Transitions

variable [DecidableEq κ] {event : Event κ}

/-- **A transition keeps the invariant.** -/
theorem Transition.inv (h : s.Inv cfg) (step : Transition cfg s event t) : t.Inv cfg := by
  cases step with
  | arrive parts =>
    refine ⟨h.cache, h.length, fun f r hf => ?_, fun f r req hf hr => ?_, fun r req hr => ?_, ?_,
      h.alive⟩
    · show r < (s.requests ++ [_]).length
      rw [List.length_append]
      exact Nat.lt_add_right _ (h.valid f r hf)
    · have hr' : (s.requests ++ [{ parts := parts }])[r]? = some req := hr
      rw [List.getElem?_append_left (h.valid f r hf)] at hr'
      exact h.owned f r req hf hr'
    · have hmem : req ∈ s.requests ++ [{ parts := parts }] := List.mem_of_getElem? hr
      rcases List.mem_append.mp hmem with hmem | hmem
      · obtain ⟨q, hq⟩ := List.mem_iff_getElem?.mp hmem
        exact h.balanced q req hq
      · cases List.mem_singleton.mp hmem
        exact ⟨rfl, rfl, Nat.zero_le _, fun _ => rfl⟩
    · show s.active = (s.requests ++ [({ parts := parts } : Request κ)]).countP _
      rw [List.countP_append, h.gate]
      rfl
  | cancel r req here =>
    exact h.setRequest here (fun f hf => Or.inl hf)
      ((h.balanced r req here).congr rfl rfl rfl rfl) rfl
  | expire r req here =>
    exact h.setRequest here (fun f hf => Or.inl hf)
      ((h.balanced r req here).congr rfl rfl rfl rfl) rfl
  | reject r req e here phase why =>
    have hbalanced := h.balanced r req here
    have hfree : req.permit = false := by
      rw [hbalanced.permit, phase]
      rfl
    refine h.setRequest here (fun f hf => ?_) ⟨hfree, hbalanced.count, hbalanced.once, nofun⟩ rfl
    rw [phase] at hf
    cases hf
  -- The gate counts the permits held: this is the only event that takes one.
  | acquire r req here phase free =>
    have hbalanced := h.balanced r req here
    have hfree : req.permit = false := by
      rw [hbalanced.permit, phase]
      rfl
    have hzero := hbalanced.before phase
    have hcount := hbalanced.count
    rw [hfree] at hcount
    refine h.update here rfl rfl rfl (fun f hf => ?_) ⟨rfl, ?_, ?_, nofun⟩ ?_ h.alive
    · rw [phase] at hf
      cases hf
    · show req.acquired + 1 = req.released + 1
      rw [hcount]
      rfl
    · show req.acquired + 1 ≤ 1
      omega
    · rw [hfree]
      rfl
  | render r req here phase =>
    refine h.setRequest here (fun f hf => ?_)
      ((h.balanced r req here).media (by rw [phase]; rfl) rfl rfl rfl rfl) rfl
    rw [phase] at hf
    cases hf
  | renderThrew r req here phase =>
    refine h.release here (by rw [phase]; rfl) (fun f hf => ?_) rfl rfl rfl rfl
    rw [phase] at hf
    cases hf
  | start r req key rest pending cache here phase running timely act =>
    refine (h.acts act nofun).setRequest here (fun f hf => Or.inl ?_)
      ((h.balanced r req here).media (by rw [phase]; rfl) rfl rfl rfl rfl) rfl
    rw [phase] at hf
    exact hf
  | startThrew r req e key rest pending here phase why =>
    refine h.setRequest here (fun f hf => Or.inl ?_)
      ((h.balanced r req here).media (by rw [phase]; rfl) rfl rfl rfl rfl) rfl
    rw [phase] at hf
    exact hf
  | hit r req key rest pending entry cache here phase found act =>
    refine (h.acts act nofun).setRequest here (fun f hf => Or.inl ?_)
      ((h.balanced r req here).media (by rw [phase]; rfl) rfl rfl rfl rfl) rfl
    rw [phase] at hf
    show f ∈ (pending ++ [Pending.hit key entry.payload]).filterMap Pending.produced
    rw [List.filterMap_append]
    exact List.mem_append_left _ hf
  | join r g req key rest pending cache here phase act =>
    refine (h.acts act nofun).setRequest here (fun f hf => Or.inl ?_)
      ((h.balanced r req here).media (by rw [phase]; rfl) rfl rfl rfl rfl) rfl
    rw [phase] at hf
    show f ∈ (pending ++ [Pending.waiter key g]).filterMap Pending.produced
    rw [List.filterMap_append]
    exact List.mem_append_left _ hf
  | produce r req key rest pending cache here phase act => exact h.produce here phase act
  | submit r req key g rest pending cache here phase act =>
    refine (h.acts act nofun).setRequest here (fun f hf => Or.inl ?_)
      ((h.balanced r req here).media (by rw [phase]; rfl) rfl rfl rfl rfl) rfl
    rw [phase] at hf
    show f ∈ (pending ++ [Pending.producer key g]).filterMap Pending.produced
    rw [List.filterMap_append]
    rcases List.mem_cons.mp hf with rfl | hf
    · exact List.mem_append_right _ List.mem_cons_self
    · exact List.mem_append_left _ hf
  | refuse r req e key f rest pending cache here phase why act => exact h.acts act nofun
  | unwind r req key f rest pending cache here phase act => exact h.acts act nofun
  | rethrow r req e key g rest pending cache here phase act thrown =>
    refine (h.acts act nofun).setRequest here (fun f hf => ?_)
      ((h.balanced r req here).media (by rw [phase]; rfl) rfl rfl rfl rfl) rfl
    rw [phase] at hf
    rcases List.mem_cons.mp hf with rfl | hf
    · -- The handler has marked the flight.
      have hdone : s.IsDone f := System.isDone_of_outcome h rfl thrown
      exact Or.inr (hdone.of_acts act nofun)
    · exact Or.inl hf
  | started r req pending here phase =>
    refine h.setRequest here (fun f hf => Or.inl ?_)
      ((h.balanced r req here).media (by rw [phase]; rfl) rfl rfl rfl rfl) rfl
    rw [phase] at hf
    exact hf
  | awaitThrew r req e item pending here phase clear why =>
    refine h.setRequest here (fun f hf => Or.inl ?_)
      ((h.balanced r req here).media (by rw [phase]; rfl) rfl rfl rfl rfl) rfl
    rw [phase] at hf
    exact hf
  -- The item that is dropped has no flight, or one that has ended.
  | accept r req item pending cache here phase clear ok act =>
    have hinv : (s.setCache cache).Inv cfg ∧ ∀ f, s.IsDone f → (s.setCache cache).IsDone f := by
      cases hflight : item.flight with
      | none =>
        rw [hflight] at act
        cases act
        exact ⟨h, fun _ hdone => hdone⟩
      | some g =>
        rw [hflight] at act
        have hact : s.cache.act cfg.limits (.await g) = some cache := act
        exact ⟨h.acts hact nofun, fun _ hdone => hdone.of_acts hact nofun⟩
    have hsame : (req.accept cfg r item.key).permit = req.permit ∧
        (req.accept cfg r item.key).acquired = req.acquired ∧
        (req.accept cfg r item.key).released = req.released := by
      unfold Request.accept
      dsimp only
      split_ifs <;> exact ⟨rfl, rfl, rfl⟩
    refine hinv.1.setRequest here (fun f hf => ?_)
      ((h.balanced r req here).media (by rw [phase]; rfl) rfl hsame.1 hsame.2.1 hsame.2.2) hsame.1
    rw [phase] at hf
    exact (h.dropItem ok f hf).imp_right (hinv.2 f)
  | misaligned r req item pending here phase clear ok =>
    refine h.setRequest here (fun f hf => ?_)
      ((h.balanced r req here).media (by rw [phase]; rfl) rfl rfl rfl rfl) rfl
    rw [phase] at hf
    exact h.dropItem ok f hf
  | receive r req e item pending here phase clear thrown =>
    refine h.setRequest here (fun f hf => Or.inl ?_)
      ((h.balanced r req here).media (by rw [phase]; rfl) rfl rfl rfl rfl) rfl
    rw [phase] at hf
    exact hf
  | skip r req item pending found here phase done =>
    have howned : req.phase.isMedia = true ∧
        req.phase.owned = (item :: pending).filterMap Pending.produced := by
      rcases phase with phase | ⟨phase, -⟩ <;> rw [phase] <;> exact ⟨rfl, rfl⟩
    refine h.setRequest here (fun f hf => ?_)
      ((h.balanced r req here).media howned.1 rfl rfl rfl rfl) rfl
    rw [howned.2] at hf
    exact h.dropItem done f hf
  | settle r req here phase =>
    refine h.release here (by rw [phase]; rfl) (fun f hf => ?_) ?_ rfl rfl rfl
    · rw [phase] at hf
      cases hf
    · cases req.error <;> rfl
  | mismatch r req here phase clear =>
    refine h.release here (by rw [phase]; rfl) (fun f hf => ?_) rfl rfl rfl rfl
    rw [phase] at hf
    cases hf
  | finish r req here phase => exact h.finish here phase rfl rfl rfl rfl
  | finishThrew r req e here phase why => exact h.finish here phase rfl rfl rfl rfl
  | claim f r flight req building producer here first fits =>
    exact h.setRequest here (fun f hf => Or.inl hf)
      ((h.balanced r req here).congr rfl rfl rfl rfl) rfl
  | claimThrew f r flight req cache building producer here first exceeds act =>
    exact (h.acts act nofun).setRequest here (fun f hf => Or.inl hf)
      ((h.balanced r req here).congr rfl rfl rfl rfl) rfl
  | task a cache may act =>
    refine h.acts act fun key label => ?_
    rw [label] at may
    cases may

theorem System.Reachable.inv (h : s.Reachable cfg) : s.Inv cfg := by
  induction h with
  | refl => exact System.inv_init cfg
  | tail _ step ih =>
    obtain ⟨event, step⟩ := step
    exact step.inv ih

/-- **No builder outlives its request**, in every run: when `process` is past its media phase, or
has thrown, every flight it produced is done, and its task is neither queued nor before the end of
its builder. The permit has been released as often as it was acquired, at most once, and the gate
counts the permits that are held. -/
theorem System.Reachable.no_builder_outlives (h : s.Reachable cfg) {r : Nat} {req : Request κ}
    (here : s.requests[r]? = some req) (gone : req.phase.isOver = true) :
    (∀ (f : Nat) (flight : Flight κ Failure), s.producers[f]? = some r →
      s.cache.flights[f]? = some flight →
      flight.done = true ∧ flight.stage ∈ [Stage.marked, .unwound, .finished] ∧ f ∉ s.cache.queue) ∧
    req.permit = false ∧ req.released = req.acquired ∧ req.acquired ≤ 1 ∧
    s.active = (s.requests.countP fun req => req.permit) ∧ s.terminated = false := by
  have hinv := h.inv
  have hbalanced := hinv.balanced r req here
  have hfree : req.permit = false := by
    rw [hbalanced.permit]
    cases hphase : req.phase <;> rw [hphase] at gone <;> first | rfl | cases gone
  have hempty : req.phase.owned = [] := by
    cases hphase : req.phase <;> rw [hphase] at gone <;> first | rfl | cases gone
  have hcount := hbalanced.count
  rw [hfree] at hcount
  refine ⟨fun f flight hf hget => ?_, hfree, hcount.symm, hbalanced.once, hinv.gate, hinv.alive⟩
  -- What a request still has to wait for is empty once it is over.
  have hdone : flight.stage.isDone = true := by
    rcases hinv.owned f r req hf here with hmem | hdone
    · rw [hempty] at hmem
      cases hmem
    · exact hdone flight hget
  refine ⟨?_, of_decide_eq_true hdone, fun hmem => ?_⟩
  · rw [(hinv.cache.flying.sound f flight hget).done, hdone]
  · obtain ⟨other, hget', hqueued⟩ := (hinv.cache.flying.queue f).mp hmem
    cases hget.symm.trans hget'
    rw [hqueued] at hdone
    cases hdone

end Transitions

/-- One worker, a small cache, and room for two requests. -/
def sampleSettings : Settings Nat where
  limits := {
    capacityBytes := 8
    liveBytes := 16
    threads := 1
    queueCapacity := 1
    threads_pos := Nat.one_pos
    queueCapacity_pos := Nat.one_pos }
  maximum := 2
  maxRawPatches := 16
  maxVisionTokens := 4
  extent := fun _ => ⟨4, 1⟩

/-- A request is cancelled while the builder of its only item runs. -/
def cancelledRun : List (Event Nat) :=
  [.arrive [7], .acquire 0, .render 0, .start 0, .produce 0, .submit 0, .started 0, .task (.take 0),
    .cancel 0, .awaitThrew 0 (.cancelled 0), .task (.threw 0 (.cancelled 0)), .task (.mark 0),
    .skip 0, .settle 0]

/-- The state at the end of a run from the start. -/
def endOf (cfg : Settings Nat) (events : List (Event Nat)) : System Nat :=
  (System.run cfg events {}).getD {}

theorem endOf_cancelledRun_reachable :
    (endOf sampleSettings cancelledRun).Reachable sampleSettings := by
  have hrun : System.run sampleSettings cancelledRun {} = some (endOf sampleSettings cancelledRun) := by
    decide +kernel
  exact System.run_transitions hrun

/-- The request that has been cancelled. -/
def cancelledRequest : Request Nat where
  parts := [7]
  phase := .threw (.cancelled 0)
  cancelled := true
  stop := true
  error := some (.cancelled 0)
  acquired := 1
  released := 1

theorem cancelledRun_no_builder_outlives :
    (endOf sampleSettings cancelledRun).requests = [cancelledRequest] ∧
    (endOf sampleSettings cancelledRun).producers = [0] ∧
    (∀ (f : Nat) (flight : Flight Nat Failure),
      (endOf sampleSettings cancelledRun).producers[f]? = some 0 →
      (endOf sampleSettings cancelledRun).cache.flights[f]? = some flight → flight.done = true) ∧
    cancelledRequest.released = cancelledRequest.acquired := by
  have hrequests : (endOf sampleSettings cancelledRun).requests = [cancelledRequest] := by
    decide +kernel
  have here : (endOf sampleSettings cancelledRun).requests[0]? = some cancelledRequest := by
    rw [hrequests]
    rfl
  have h := System.Reachable.no_builder_outlives endOf_cancelledRun_reachable here rfl
  exact ⟨hrequests, by decide +kernel, fun f flight hf hget => (h.1 f flight hf hget).1, h.2.2.1⟩

end Ninfer.Media
