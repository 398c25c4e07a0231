import Ninfer.Media.Invariant

/-!
# Runs of the media cache

Every critical section keeps the invariant, so it holds in every state of every run.

## Main results

* `Step.inv`: a critical section keeps the invariant
* `Reachable.inv`: the invariant holds in every run
* `Step.flights`, `Step.follows`: what a step does to the flights
-/

namespace Ninfer.Media

variable {κ ε : Type} {limits : Limits} {s t : State κ ε}

/-! ## Flights -/

section Flights

variable {f : Nat} {flight flight' : Flight κ ε}

/-- A flight changes, and stays where it was among the keys in flight and in the queue. -/
theorem Inv.setFlight (h : Inv limits s) (here : s.flights[f]? = some flight)
    (hkey : flight'.key = flight.key) (hsound : flight'.Sound)
    (hpayload : flight'.payload = flight.payload)
    (hfinished : flight'.stage = .finished ↔ flight.stage = .finished)
    (hqueued : flight'.stage = .queued ↔ flight.stage = .queued)
    (hearly : flight'.stage.isEarly = true → flight.stage.isEarly = true) :
    Inv limits (s.setFlight f flight') where
  books := h.books.frame rfl rfl rfl
  account := h.account.setFlight here hpayload
  flying := h.flying.setFlight here rfl rfl rfl hkey hsound hfinished hqueued hearly
    fun _ hk => Or.inl hk
  counted := h.counted
  alive := h.alive

/-- The moves of a flight that leave the queue and the keys in flight alone. -/
def Stage.Moves (stage stage' : Stage) : Prop :=
  stage ∉ [Stage.queued, .finished] ∧
    stage' ∉ [Stage.submitting, .queued, .building, .finished] ∧
    (stage'.isEarly = true → stage.isEarly = true) ∧ (stage.isDone = true → stage'.isDone = true)

instance (stage stage' : Stage) : Decidable (stage.Moves stage') :=
  inferInstanceAs (Decidable (_ ∧ _))

/-- A flight moves to a stage, with its fields as that stage has them. -/
theorem Inv.advance (h : Inv limits s) {stage : Stage} (stage' : Stage) (here : s.At f flight stage)
    (hmove : stage.Moves stage') (hstage : flight'.stage = stage') (hkey : flight'.key = flight.key)
    (hpayload : flight'.payload = flight.payload) (hdone : flight'.done = (stage'.isDone || flight.done))
    (hfilled : stage' = .checked → ∃ payload, flight.payload = some payload) :
    Inv limits (s.setFlight f flight') := by
  obtain ⟨hget, rfl⟩ := here
  obtain ⟨hfrom, hto, hearly, hmono⟩ := hmove
  subst hstage
  have hsound := h.flying.sound f flight hget
  simp only [List.mem_cons, List.not_mem_nil, or_false, not_or] at hfrom hto
  refine h.setFlight hget hkey ⟨?_, fun hempty => ?_, fun hchecked => ?_⟩ hpayload
    (iff_of_false hto.2.2.2 hfrom.2) (iff_of_false hto.2.1 hfrom.1) hearly
  · rw [hdone, hsound.done]
    cases hfin : flight.stage.isDone with
    | false => exact Bool.or_false _
    | true => rw [hmono hfin, Bool.or_true]
  · simp only [List.mem_cons, List.not_mem_nil, or_false] at hempty
    tauto
  · rw [hpayload]
    exact hfilled hchecked

/-- A task enters the queue. -/
theorem Inv.enqueue (h : Inv limits s) (here : s.At f flight .submitting) :
    Inv limits (({ s with queue := s.queue ++ [f] } : State κ ε).setFlight f
      { flight with stage := .queued }) := by
  obtain ⟨hget, hstage⟩ := here
  have hsound := h.flying.sound f flight hget
  have hnot : f ∉ s.queue := by
    intro hmem
    obtain ⟨other, hget', hqueued⟩ := (h.flying.queue f).mp hmem
    cases hget.symm.trans hget'
    rw [hstage] at hqueued
    cases hqueued
  refine ⟨h.books.frame rfl rfl rfl, ?_, ?_, h.counted, h.alive⟩
  · have haccount : Account limits.liveBytes { s with queue := s.queue ++ [f] } :=
      h.account.frame (fun _ => Iff.rfl) rfl rfl rfl
    exact haccount.setFlight hget rfl
  · refine h.flying.change hget rfl rfl ⟨?_, ?_, nofun⟩ h.flying.keys (fun key g => ?_) ?_
      (fun g => ?_) ?_ ?_ ?_
    · rw [hsound.done, hstage]
      rfl
    · intro _
      exact hsound.empty (by simp [hstage])
    · exact (and_iff_left fun _ hfin => by cases hfin).symm
    · intro _
      rw [hstage]
      exact fun hfin => by cases hfin
    · show g ∈ s.queue ++ [f] ↔ _
      rw [List.mem_append, List.mem_singleton]
      split_ifs with hgf
      · exact iff_of_true (Or.inr hgf) rfl
      · exact or_iff_left hgf
    · exact List.nodup_append_comm.mp (List.nodup_cons.mpr ⟨hnot, h.flying.queueNodup⟩)
    · intro _
      exact h.flying.absent f flight hget (by simp [hstage, Stage.isEarly])
    · intro g other _ hg hearly
      exact h.flying.absent g other hg hearly

/-- A worker takes the first task. -/
theorem Inv.take (h : Inv limits s) {rest : List Nat} (here : s.At f flight .queued)
    (first : s.queue = f :: rest) :
    Inv limits (({ s with queue := rest } : State κ ε).setFlight f
      { flight with stage := .building }) := by
  obtain ⟨hget, hstage⟩ := here
  have hsound := h.flying.sound f flight hget
  have hnodup := h.flying.queueNodup
  rw [first] at hnodup
  obtain ⟨hnot, hrest⟩ := List.nodup_cons.mp hnodup
  refine ⟨h.books.frame rfl rfl rfl, ?_, ?_, h.counted, h.alive⟩
  · have haccount : Account limits.liveBytes { s with queue := rest } :=
      h.account.frame (fun _ => Iff.rfl) rfl rfl rfl
    exact haccount.setFlight hget rfl
  · refine h.flying.change hget rfl rfl ⟨?_, ?_, nofun⟩ h.flying.keys (fun key g => ?_) ?_
      (fun g => ?_) hrest ?_ ?_
    · rw [hsound.done, hstage]
      rfl
    · intro _
      exact hsound.empty (by simp [hstage])
    · exact (and_iff_left fun _ hfin => by cases hfin).symm
    · intro _
      rw [hstage]
      exact fun hfin => by cases hfin
    · show g ∈ rest ↔ _
      rw [first, List.mem_cons]
      split_ifs with hgf
      · subst hgf
        exact iff_of_false hnot nofun
      · exact (or_iff_right hgf).symm
    · intro _
      exact h.flying.absent f flight hget (by simp [hstage, Stage.isEarly])
    · intro g other _ hg hearly
      exact h.flying.absent g other hg hearly

/-- The builder hands its payload to the task. -/
theorem Inv.returned (h : Inv limits s) {payload : Nat} (here : s.At f flight .building)
    (owned : payload ∈ s.held) :
    Inv limits ((s.unhold payload).setFlight f
      { flight with stage := .built, payload := some payload }) := by
  obtain ⟨hget, hstage⟩ := here
  have hsound := h.flying.sound f flight hget
  have hempty : flight.payload = none := hsound.empty (by simp [hstage])
  refine ⟨h.books.frame rfl rfl rfl, h.account.frame (fun p => ?_) rfl rfl rfl, ?_, h.counted,
    h.alive⟩
  · rw [State.mem_refs, State.mem_refs, exists_mem_of_get hget fun x => x.payload = some p, hempty,
      (List.perm_cons_erase owned).mem_iff, List.mem_cons]
    have hset : (∃ x ∈ s.flights.set f { flight with stage := .built, payload := some payload },
        x.payload = some p) ↔ payload = p ∨
          ∃ g, g ≠ f ∧ ∃ x, s.flights[g]? = some x ∧ x.payload = some p := by
      rw [exists_mem_set hget fun x => x.payload = some p, Option.some_inj]
    refine or_congr_right (Iff.trans (or_congr_left hset) ?_)
    show (payload = p ∨ _) ∨ p ∈ s.held.erase payload ↔ _
    have hnone : none = some p ↔ False := iff_of_false nofun id
    rw [hnone, false_or, eq_comm, or_assoc, or_left_comm]
  · refine h.flying.setFlight hget rfl rfl rfl rfl ⟨?_, by simp, nofun⟩ ?_ ?_ ?_ fun _ hk => Or.inl hk
    · rw [hsound.done, hstage]
      rfl
    · rw [hstage]
      exact iff_of_false nofun nofun
    · rw [hstage]
      exact iff_of_false nofun nofun
    · rw [hstage]
      exact fun _ => rfl

end Flights

section Cache

variable [DecidableEq κ] {f : Nat} {flight : Flight κ ε} {payload : Nat}

/-- The task offers its payload to the cache. -/
theorem Inv.retain (h : Inv limits s) (here : s.At f flight .checked)
    (filled : flight.payload = some payload) :
    Inv limits ((s.retain limits.capacityBytes flight.key ⟨payload, flight.bytes⟩).setFlight f
      { flight with stage := .settled }) := by
  obtain ⟨hget, hstage⟩ := here
  have hsound := h.flying.sound f flight hget
  have hkey : flight.key ∉ s.keys :=
    h.flying.absent f flight hget (by simp [hstage, Stage.isEarly])
  have hflight : ∃ flight' ∈ s.flights,
      flight'.payload = some (Entry.mk payload flight.bytes).payload :=
    ⟨flight, List.mem_of_getElem? hget, filled⟩
  obtain ⟨hbooks, haccount, halive, hshelved⟩ :=
    retain_spec h.books h.account h.alive hkey hflight
  generalize s.retain limits.capacityBytes flight.key ⟨payload, flight.bytes⟩ = t
    at hbooks haccount halive hshelved ⊢
  have hflights : t.flights = s.flights := by rw [hshelved.eq]
  have hinflight : t.inflight = s.inflight := by rw [hshelved.eq]
  have hqueue : t.queue = s.queue := by rw [hshelved.eq]
  have hget' : t.flights[f]? = some flight := by rw [hflights, hget]
  have hset : (t.setFlight f { flight with stage := .settled }).flights =
      s.flights.set f { flight with stage := .settled } := by
    rw [← hflights]
    rfl
  refine ⟨hbooks.frame rfl rfl rfl, haccount.setFlight hget' rfl, ?_, ?_, halive⟩
  · refine h.flying.setFlight hget hset hinflight hqueue rfl ⟨?_, by simp, nofun⟩ ?_ ?_ nofun ?_
    · rw [hsound.done, hstage]
      rfl
    · rw [hstage]
      exact iff_of_false nofun nofun
    · rw [hstage]
      exact iff_of_false nofun nofun
    · intro k hk
      rcases hshelved.keys k hk with hk | hk
      · refine Or.inr ⟨List.mem_singleton.mp hk, rfl, ?_⟩
        rw [hstage]
        exact nofun
      · exact Or.inl hk
  · show t.hits + t.misses + t.singleflightWaits + t.entering.length = t.passed
    rw [hshelved.eq]
    exact h.counted

/-- The key leaves `inflight`. -/
theorem Inv.erase (h : Inv limits s) (here : s.At f flight .marked ∨ s.At f flight .unwound) :
    Inv limits ((s.eraseInflight flight.key).setFlight f { flight with stage := .finished }) := by
  have hget : s.flights[f]? = some flight := by
    rcases here with here | here <;> exact here.1
  have hdone : flight.stage = .marked ∨ flight.stage = .unwound := by
    rcases here with here | here
    · exact Or.inl here.2
    · exact Or.inr here.2
  have hlive : flight.stage ≠ .finished := by
    rcases hdone with hdone | hdone <;> rw [hdone] <;> exact nofun
  have hsound := h.flying.sound f flight hget
  refine ⟨h.books.frame rfl rfl rfl, ?_, ?_, h.counted, h.alive⟩
  · have haccount : Account limits.liveBytes (s.eraseInflight flight.key) :=
      h.account.frame (fun _ => Iff.rfl) rfl rfl rfl
    exact haccount.setFlight hget rfl
  · refine h.flying.change hget rfl rfl ⟨?_, by simp, nofun⟩ ?_ (fun key g => ?_) (absurd rfl)
      (fun g => ?_) h.flying.queueNodup nofun
      (fun g other _ hg hearly => h.flying.absent g other hg hearly)
    · rw [hsound.done]
      rcases hdone with hdone | hdone <;> rw [hdone] <;> rfl
    · exact h.flying.keys.sublist ((List.filter_sublist (l := s.inflight)).map Prod.fst)
    · -- A pair with this key is the flight itself.
      show (key, g) ∈ s.inflight.filter (fun e => e.1 ≠ flight.key) ↔ _
      rw [List.mem_filter]
      refine and_congr_right fun hmem => ?_
      obtain ⟨other, hget', hkey, hlive'⟩ := (h.flying.inflight key g).mp hmem
      constructor
      · intro hne hgf
        subst hgf
        cases hget.symm.trans hget'
        exact absurd hkey.symm (of_decide_eq_true hne)
      · intro hne
        refine decide_eq_true fun heq => ?_
        exact hne (h.flying.unique hget' hget (hkey.trans heq) hlive' hlive) rfl
    · show g ∈ s.queue ↔ _
      split_ifs with hgf
      · subst hgf
        refine iff_of_false (fun hmem => ?_) nofun
        obtain ⟨other, hget', hqueued⟩ := (h.flying.queue g).mp hmem
        cases hget.symm.trans hget'
        rw [hqueued] at hdone
        rcases hdone with hdone | hdone <;> cases hdone
      · exact Iff.rfl

/-- A ready entry moves to the front, and its payload is copied. -/
theorem Inv.hit (h : Inv limits s) {key : κ} {entry : Entry} (call : key ∈ s.entering)
    (found : s.ready.lookup key = some entry) : Inv limits (s.hit key entry) := by
  have hmem : (key, entry) ∈ s.ready := mem_of_lookup found
  have hlru : key ∈ s.lru := (h.books.mem key).mpr (List.mem_map_of_mem hmem)
  have hperm : (key :: s.lru.erase key).Perm s.lru := (List.perm_cons_erase hlru).symm
  refine ⟨⟨h.books.keys, ?_, fun k => ?_, h.books.retained, h.books.le⟩, ?_,
    h.flying.frame rfl rfl rfl fun _ hk => hk, ?_, h.alive⟩
  · exact hperm.nodup_iff.mpr h.books.lru
  · exact hperm.mem_iff.trans (h.books.mem k)
  · refine h.account.frame (fun p => ?_) rfl rfl rfl
    rw [State.mem_refs, State.mem_refs]
    constructor
    · rintro (hp | hp | hp)
      · exact Or.inl hp
      · exact Or.inr (Or.inl hp)
      · rcases List.mem_cons.mp hp with rfl | hp
        · exact Or.inl ⟨(key, entry), hmem, rfl⟩
        · exact Or.inr (Or.inr hp)
    · rintro (hp | hp | hp)
      · exact Or.inl hp
      · exact Or.inr (Or.inl hp)
      · exact Or.inr (Or.inr (List.mem_cons_of_mem _ hp))
  · have hcounted := h.counted
    have hlength := List.length_erase_of_mem call
    have hpos := List.length_pos_of_mem call
    show s.hits + 1 + s.misses + s.singleflightWaits + (s.entering.erase key).length = s.passed
    omega

/-- A call becomes the producer of a new flight. -/
theorem Inv.produce (h : Inv limits s) {key : κ} (call : key ∈ s.entering)
    (missing : s.ready.lookup key = none) (first : s.inflight.lookup key = none) :
    Inv limits (s.produce key) := by
  have hkey : key ∉ s.keys := not_mem_of_lookup missing
  have hfirst := not_mem_of_lookup first
  have hget : ∀ (g : Nat) (other : Flight κ ε), (s.produce key).flights[g]? = some other ↔
      s.flights[g]? = some other ∨ g = s.flights.length ∧ other = { key := key } := by
    intro g other
    show (s.flights ++ [{ key := key }])[g]? = some other ↔ _
    rw [List.getElem?_append]
    split_ifs with hg
    · exact (or_iff_left fun hlast => by omega).symm
    · rw [List.getElem?_eq_none (Nat.le_of_not_lt hg), List.getElem?_singleton]
      split_ifs with hzero
      · rw [Option.some_inj]
        constructor
        · intro heq
          exact Or.inr ⟨by omega, heq.symm⟩
        · rintro (hnone | ⟨-, heq⟩)
          · cases hnone
          · exact heq.symm
      · refine iff_of_false nofun ?_
        rintro (hnone | ⟨hlast, -⟩)
        · cases hnone
        · omega
  refine ⟨h.books.frame rfl rfl rfl, ?_, ?_, ?_, h.alive⟩
  · refine h.account.frame (fun p => ?_) rfl rfl rfl
    rw [State.mem_refs, State.mem_refs]
    refine or_congr_right (or_congr_left ?_)
    show (∃ x ∈ s.flights ++ [{ key := key }], x.payload = some p) ↔ _
    constructor
    · rintro ⟨x, hx, hp⟩
      rcases List.mem_append.mp hx with hx | hx
      · exact ⟨x, hx, hp⟩
      · cases List.mem_singleton.mp hx
        cases hp
    · rintro ⟨x, hx, hp⟩
      exact ⟨x, List.mem_append_left _ hx, hp⟩
  · refine ⟨List.nodup_cons.mpr ⟨hfirst, h.flying.keys⟩, fun k g => ?_, fun g other hg => ?_,
      fun g => ?_, h.flying.queueNodup, fun g other hg hearly => ?_⟩
    · show (k, g) ∈ (key, s.flights.length) :: s.inflight ↔ _
      rw [List.mem_cons, h.flying.inflight, Prod.mk.injEq]
      constructor
      · rintro (⟨rfl, rfl⟩ | ⟨other, hg, hk, hlive⟩)
        · exact ⟨_, (hget _ _).mpr (Or.inr ⟨rfl, rfl⟩), rfl, nofun⟩
        · exact ⟨other, (hget g other).mpr (Or.inl hg), hk, hlive⟩
      · rintro ⟨other, hg, hk, hlive⟩
        rcases (hget g other).mp hg with hg | ⟨rfl, rfl⟩
        · exact Or.inr ⟨other, hg, hk, hlive⟩
        · exact Or.inl ⟨hk.symm, rfl⟩
    · rcases (hget g other).mp hg with hg | ⟨-, rfl⟩
      · exact h.flying.sound g other hg
      · exact ⟨rfl, fun _ => rfl, nofun⟩
    · show g ∈ s.queue ↔ _
      rw [h.flying.queue]
      constructor
      · rintro ⟨other, hg, hstage⟩
        exact ⟨other, (hget g other).mpr (Or.inl hg), hstage⟩
      · rintro ⟨other, hg, hstage⟩
        rcases (hget g other).mp hg with hg | ⟨-, rfl⟩
        · exact ⟨other, hg, hstage⟩
        · cases hstage
    · rcases (hget g other).mp hg with hg | ⟨-, rfl⟩
      · exact h.flying.absent g other hg hearly
      · exact hkey
  · have hcounted := h.counted
    have hlength := List.length_erase_of_mem call
    have hpos := List.length_pos_of_mem call
    show s.hits + (s.misses + 1) + s.singleflightWaits + (s.entering.erase key).length = s.passed
    omega

end Cache

/-! ## References -/

section References

variable {payload : Nat}

theorem or_front {a b c d : Prop} : a ∨ b ∨ c ∨ d ↔ c ∨ a ∨ b ∨ d := by tauto

/-- A payload that has a reference gets another. -/
theorem Inv.hold (h : Inv limits s) (hmem : payload ∈ s.refs) : Inv limits (s.hold payload) := by
  refine ⟨h.books.frame rfl rfl rfl, h.account.frame (fun p => ?_) rfl rfl rfl,
    h.flying.frame rfl rfl rfl fun _ hk => hk, h.counted, h.alive⟩
  rw [State.mem_refs] at hmem ⊢
  rw [State.mem_refs]
  show _ ∨ _ ∨ p ∈ payload :: s.held ↔ _
  rw [List.mem_cons]
  constructor
  · rintro (hp | hp | rfl | hp)
    · exact Or.inl hp
    · exact Or.inr (Or.inl hp)
    · exact hmem
    · exact Or.inr (Or.inr hp)
  · rintro (hp | hp | hp)
    · exact Or.inl hp
    · exact Or.inr (Or.inl hp)
    · exact Or.inr (Or.inr (Or.inr hp))

/-- A reference is gone, and its payload is released when it was the last. -/
theorem Inv.unref (h : Inv limits s) (hrefs : ∀ p, p ∈ s.refs ↔ p = payload ∨ p ∈ t.refs)
    (hbooks : Books limits.capacityBytes t) (hflying : Flying t)
    (hcounted : t.hits + t.misses + t.singleflightWaits + t.entering.length = t.passed)
    (hpayloads : t.payloads = s.payloads) (hlive : t.live = s.live)
    (hreservations : t.reservations = s.reservations) (halive : t.terminated = s.terminated) :
    Inv limits (t.unref payload) := by
  have hbytes : t.bytesOf = s.bytesOf := by
    funext p
    rw [State.bytesOf, State.bytesOf, hpayloads]
  have hvalid : ∀ p ∈ t.refs, p < t.payloads.length := by
    intro p hp
    rw [hpayloads]
    exact h.account.valid p ((hrefs p).mpr (Or.inr hp))
  have hfoot : t.live = footprint t.bytesOf (payload :: t.refs) + t.reservations.sum := by
    rw [hlive, h.account.live, hreservations, hbytes]
    congr 1
    exact footprint_congr fun p => (hrefs p).trans List.mem_cons.symm
  obtain ⟨haccount, halive', heq⟩ :=
    unref_spec (halive.trans h.alive) hvalid hfoot (hlive ▸ h.account.le)
  refine ⟨?_, haccount, ?_, ?_, halive'⟩
  · rw [heq]
    exact hbooks.frame rfl rfl rfl
  · rw [heq]
    exact hflying.frame rfl rfl rfl fun _ hk => hk
  · rw [heq]
    exact hcounted

/-- A reference outside the cache is dropped. -/
theorem Inv.drop (h : Inv limits s) (owned : payload ∈ s.held) :
    Inv limits ((s.unhold payload).unref payload) := by
  refine h.unref (fun p => ?_) (h.books.frame rfl rfl rfl)
    (h.flying.frame rfl rfl rfl fun _ hk => hk) h.counted rfl rfl rfl rfl
  rw [State.mem_refs, State.mem_refs, (List.perm_cons_erase owned).mem_iff, List.mem_cons]
  show _ ↔ p = payload ∨ (∃ entry ∈ s.ready, entry.2.payload = p) ∨
    (∃ flight ∈ s.flights, flight.payload = some p) ∨ p ∈ s.held.erase payload
  exact or_front

/-- The last reference to a finished flight is dropped. -/
theorem Inv.forget (h : Inv limits s) {f : Nat} {flight : Flight κ ε}
    (here : s.At f flight .finished) (result : flight.payload = some payload) :
    Inv limits ((s.setFlight f { flight with payload := none }).unref payload) := by
  obtain ⟨hget, hstage⟩ := here
  have hsound := h.flying.sound f flight hget
  refine h.unref (fun p => ?_) (h.books.frame rfl rfl rfl) ?_ h.counted rfl rfl rfl rfl
  · rw [State.mem_refs, State.mem_refs, exists_mem_of_get hget fun x => x.payload = some p, result,
      Option.some_inj]
    have hset : (∃ x ∈ s.flights.set f { flight with payload := none }, x.payload = some p) ↔
        ∃ g, g ≠ f ∧ ∃ x, s.flights[g]? = some x ∧ x.payload = some p := by
      rw [exists_mem_set hget fun x => x.payload = some p]
      exact or_iff_right nofun
    show _ ↔ p = payload ∨ (∃ entry ∈ s.ready, entry.2.payload = p) ∨
      (∃ x ∈ s.flights.set f { flight with payload := none }, x.payload = some p) ∨ p ∈ s.held
    rw [hset, @eq_comm _ payload p, or_assoc]
    exact or_left_comm
  · refine h.flying.setFlight hget rfl rfl rfl rfl ⟨?_, fun _ => rfl, ?_⟩ Iff.rfl Iff.rfl id
      fun _ hk => Or.inl hk
    · exact hsound.done
    · intro hchecked
      cases hstage.symm.trans hchecked

end References

/-! ## The account -/

section Account

theorem Inv.reserve (h : Inv limits s) {bytes : Nat} (fits : s.live + bytes ≤ limits.liveBytes) :
    Inv limits (s.reserve bytes) := by
  refine ⟨h.books.frame rfl rfl rfl, ⟨h.account.valid, ?_, fits⟩,
    h.flying.frame rfl rfl rfl fun _ hk => hk, h.counted, h.alive⟩
  have hlive := h.account.live
  show s.live + bytes = footprint s.bytesOf s.refs + (bytes :: s.reservations).sum
  rw [List.sum_cons]
  omega

/-- A payload is constructed: its reservation is now its own bytes. -/
theorem Inv.construct (h : Inv limits s) {bytes : Nat} (reserved : bytes ∈ s.reservations) :
    Inv limits (s.construct bytes) := by
  refine ⟨h.books.frame rfl rfl rfl, ?_, h.flying.frame rfl rfl rfl fun _ hk => hk, h.counted,
    h.alive⟩
  have hrefs : ∀ p, p ∈ (s.construct bytes).refs ↔ p ∈ s.payloads.length :: s.refs := by
    intro p
    rw [List.mem_cons, State.mem_refs, State.mem_refs]
    show (∃ entry ∈ s.ready, entry.2.payload = p) ∨
      (∃ flight ∈ s.flights, flight.payload = some p) ∨ p ∈ s.payloads.length :: s.held ↔ _
    rw [List.mem_cons]
    exact or_front
  have hnew : s.payloads.length ∉ s.refs := fun hmem =>
    Nat.lt_irrefl _ (h.account.valid _ hmem)
  have hold : ∀ p ∈ s.refs, (s.construct bytes).bytesOf p = s.bytesOf p := by
    intro p hp
    show (s.payloads ++ [bytes]).getD p 0 = s.payloads.getD p 0
    rw [List.getD_eq_getElem?_getD, List.getD_eq_getElem?_getD,
      List.getElem?_append_left (h.account.valid p hp)]
  have hself : (s.construct bytes).bytesOf s.payloads.length = bytes := by
    show (s.payloads ++ [bytes]).getD s.payloads.length 0 = bytes
    simp
  refine ⟨fun p hp => ?_, ?_, h.account.le⟩
  · show p < (s.payloads ++ [bytes]).length
    rw [List.length_append, List.length_singleton]
    rcases List.mem_cons.mp ((hrefs p).mp hp) with rfl | hp
    · omega
    · have hlt := h.account.valid p hp
      omega
  · have hsum := (List.perm_cons_erase reserved).sum_eq
    have hlive := h.account.live
    rw [List.sum_cons] at hsum
    rw [footprint_congr hrefs, footprint_cons hnew, hself, footprint_size_congr hold]
    show s.live = bytes + footprint s.bytesOf s.refs + (s.reservations.erase bytes).sum
    omega

theorem Inv.abandon (h : Inv limits s) {bytes : Nat} (reserved : bytes ∈ s.reservations) :
    Inv limits (s.abandon bytes) := by
  have hsum := (List.perm_cons_erase reserved).sum_eq
  have hlive := h.account.live
  have hle := h.account.le
  rw [List.sum_cons] at hsum
  unfold State.abandon State.release
  dsimp only
  rw [if_neg (by omega)]
  refine ⟨h.books.frame rfl rfl rfl, ⟨h.account.valid, ?_, ?_⟩,
    h.flying.frame rfl rfl rfl fun _ hk => hk, h.counted, h.alive⟩
  · show s.live - bytes = footprint s.bytesOf s.refs + (s.reservations.erase bytes).sum
    omega
  · show s.live - bytes ≤ limits.liveBytes
    omega

end Account

/-! ## Steps -/

section Steps

variable [DecidableEq κ]

/-- **A critical section keeps the invariant.** -/
theorem Step.inv (h : Inv limits s) (step : Step limits s t) : Inv limits t := by
  cases step with
  | enter key =>
    refine ⟨h.books.frame rfl rfl rfl, h.account.frame (fun _ => Iff.rfl) rfl rfl rfl,
      h.flying.frame rfl rfl rfl fun _ hk => hk, ?_, h.alive⟩
    have hcounted := h.counted
    show s.hits + s.misses + s.singleflightWaits + (s.entering.length + 1) = s.passed + 1
    omega
  | hit key entry call found => exact h.hit call found
  | join key f call missing found =>
    refine ⟨h.books.frame rfl rfl rfl, h.account.frame (fun _ => Iff.rfl) rfl rfl rfl,
      h.flying.frame rfl rfl rfl fun _ hk => hk, ?_, h.alive⟩
    have hcounted := h.counted
    have hlength := List.length_erase_of_mem call
    have hpos := List.length_pos_of_mem call
    show s.hits + s.misses + (s.singleflightWaits + 1) + (s.entering.erase key).length = s.passed
    omega
  | produce key call missing first => exact h.produce call missing first
  | enqueue f flight here space => exact h.enqueue here
  | refuse f flight e here =>
    exact h.advance .refused here (by decide) rfl rfl rfl rfl nofun
  | unwind f flight here =>
    exact h.advance .unwound here (by decide) rfl rfl rfl rfl nofun
  | take f flight rest here first free => exact h.take here first
  | returned f flight payload here owned => exact h.returned here owned
  | returnedEmpty f flight here =>
    exact h.advance .built here (by decide) rfl rfl rfl rfl nofun
  | threw f flight e here =>
    exact h.advance .settled here (by decide) rfl rfl rfl rfl nofun
  | check f flight payload here filled =>
    exact h.advance .checked here (by decide) rfl rfl rfl rfl (fun _ => ⟨payload, filled⟩)
  | checkThrew f flight e here =>
    exact h.advance .settled here (by decide) rfl rfl rfl rfl nofun
  | retain f flight payload here filled => exact h.retain here filled
  | mark f flight here =>
    exact h.advance .marked here (by decide) rfl rfl rfl rfl nofun
  | erase f flight here => exact h.erase here
  | await f flight payload here done ok result =>
    exact h.hold (State.mem_refs.mpr (Or.inr (Or.inl ⟨flight, List.mem_of_getElem? here, result⟩)))
  | forget f flight payload here result => exact h.forget here result
  | copy payload owned => exact h.hold (State.mem_refs.mpr (Or.inr (Or.inr owned)))
  | drop payload owned => exact h.drop owned
  | reserve bytes small fits => exact h.reserve (by omega)
  | evict =>
    obtain ⟨hbooks, haccount, halive, hshelved⟩ := evictOne_spec h.books h.account h.alive
    refine ⟨hbooks, haccount, ?_, ?_, halive⟩
    · refine h.flying.frame ?_ ?_ ?_ fun k hk => (hshelved.keys k hk).resolve_left List.not_mem_nil
      all_goals rw [hshelved.eq]
    · rw [hshelved.eq]
      exact h.counted
  | construct bytes reserved => exact h.construct reserved
  | abandon bytes reserved => exact h.abandon reserved

/-- **The invariant holds in every run.** -/
theorem Reachable.inv (h : Reachable limits s) : Inv limits s := by
  induction h with
  | refl => exact inv_init limits
  | tail _ step ih => exact step.inv ih

end Steps

/-! ## What a step does to a flight -/

section Changes

@[simp]
theorem State.unref_flights (s : State κ ε) (payload : Nat) :
    (s.unref payload).flights = s.flights := by
  unfold State.unref State.release
  split_ifs <;> rfl

/-- The life of one flight, in a step: it keeps its key, its end is final, and it is finished only
when it is done. -/
structure Flight.Follows (flight flight' : Flight κ ε) : Prop where
  key : flight'.key = flight.key
  done : flight.stage.isDone = true → flight'.stage.isDone = true ∧ flight'.error = flight.error
  finished : flight.stage = .finished → flight'.stage = .finished
  last : flight'.stage = .finished → flight.stage.isDone = true

theorem Flight.Follows.refl (flight : Flight κ ε) : flight.Follows flight :=
  ⟨rfl, fun h => ⟨h, rfl⟩, id, fun h => by rw [h]; rfl⟩

/-- A flight that is not done follows any stage but the last. -/
theorem Flight.Follows.of_open {flight flight' : Flight κ ε} {stage : Stage}
    (hstage : flight.stage = stage) (hopen : stage.isDone = false) (hkey : flight'.key = flight.key)
    (hlast : flight'.stage ≠ .finished) : flight.Follows flight' := by
  subst hstage
  refine ⟨hkey, fun h => ?_, fun h => ?_, fun h => absurd h hlast⟩
  · exact Bool.noConfusion (hopen.symm.trans h)
  · rw [h] at hopen
    cases hopen

variable [DecidableEq κ]

@[simp]
theorem State.evictOne_flights (s : State κ ε) : s.evictOne.2.flights = s.flights := by
  unfold State.evictOne
  split
  · rfl
  · split
    · rfl
    · split_ifs
      · rfl
      · exact State.unref_flights ..

@[simp]
theorem State.makeRoom_flights (capacity bytes n : Nat) (s : State κ ε) :
    (s.makeRoom capacity bytes n).flights = s.flights := by
  induction n generalizing s with
  | zero => rfl
  | succ n ih =>
    unfold State.makeRoom
    split_ifs
    · rw [ih, State.evictOne_flights]
    · rfl
    · rfl

@[simp]
theorem State.retain_flights (s : State κ ε) (capacity : Nat) (key : κ) (entry : Entry) :
    (s.retain capacity key entry).flights = s.flights := by
  unfold State.retain
  dsimp only
  split_ifs
  · exact State.makeRoom_flights ..
  · exact State.makeRoom_flights ..
  · rfl

/-- **What a step does to the flights**: nothing, a change of one of them, or one more. -/
theorem Step.flights (step : Step limits s t) :
    t.flights = s.flights ∨
      (∃ f flight flight', s.flights[f]? = some flight ∧ t.flights = s.flights.set f flight' ∧
        flight.Follows flight') ∨
      ∃ key, t.flights = s.flights ++ [{ key := key }] := by
  cases step with
  | enter => exact Or.inl rfl
  | hit => exact Or.inl rfl
  | join => exact Or.inl rfl
  | produce key => exact Or.inr (Or.inr ⟨key, rfl⟩)
  | enqueue f flight here =>
    exact Or.inr (Or.inl ⟨f, flight, _, here.1, rfl, .of_open here.2 rfl rfl nofun⟩)
  | refuse f flight e here =>
    exact Or.inr (Or.inl ⟨f, flight, _, here.1, rfl, .of_open here.2 rfl rfl nofun⟩)
  | unwind f flight here =>
    exact Or.inr (Or.inl ⟨f, flight, _, here.1, rfl, .of_open here.2 rfl rfl nofun⟩)
  | take f flight rest here =>
    exact Or.inr (Or.inl ⟨f, flight, _, here.1, rfl, .of_open here.2 rfl rfl nofun⟩)
  | returned f flight payload here =>
    exact Or.inr (Or.inl ⟨f, flight, _, here.1, rfl, .of_open here.2 rfl rfl nofun⟩)
  | returnedEmpty f flight here =>
    exact Or.inr (Or.inl ⟨f, flight, _, here.1, rfl, .of_open here.2 rfl rfl nofun⟩)
  | threw f flight e here =>
    exact Or.inr (Or.inl ⟨f, flight, _, here.1, rfl, .of_open here.2 rfl rfl nofun⟩)
  | check f flight payload here =>
    exact Or.inr (Or.inl ⟨f, flight, _, here.1, rfl, .of_open here.2 rfl rfl nofun⟩)
  | checkThrew f flight e here =>
    exact Or.inr (Or.inl ⟨f, flight, _, here.1, rfl, .of_open here.2 rfl rfl nofun⟩)
  | retain f flight payload here =>
    refine Or.inr (Or.inl ⟨f, flight, { flight with stage := .settled }, here.1, ?_,
      .of_open here.2 rfl rfl nofun⟩)
    show (s.retain _ _ _).flights.set f _ = _
    rw [State.retain_flights]
  | mark f flight here =>
    exact Or.inr (Or.inl ⟨f, flight, _, here.1, rfl, .of_open here.2 rfl rfl nofun⟩)
  | erase f flight here =>
    have hdone : flight.stage.isDone = true := by
      rcases here with here | here <;> rw [here.2] <;> rfl
    have hget : s.flights[f]? = some flight := by
      rcases here with here | here <;> exact here.1
    exact Or.inr (Or.inl ⟨f, flight, _, hget, rfl, rfl, fun _ => ⟨rfl, rfl⟩, fun _ => rfl,
      fun _ => hdone⟩)
  | await => exact Or.inl rfl
  | forget f flight payload here =>
    refine Or.inr (Or.inl ⟨f, flight, { flight with payload := none }, here.1,
      State.unref_flights .., rfl, fun h => ⟨h, rfl⟩, id, fun h => ?_⟩)
    rw [here.2]
    rfl
  | copy => exact Or.inl rfl
  | drop => exact Or.inl (State.unref_flights ..)
  | reserve => exact Or.inl rfl
  | evict => exact Or.inl (State.evictOne_flights s)
  | construct => exact Or.inl rfl
  | abandon =>
    refine Or.inl ?_
    unfold State.abandon State.release
    split_ifs <;> rfl

/-- A flight keeps its place, and follows its life. -/
theorem Step.follows {f : Nat} {flight : Flight κ ε} (step : Step limits s t)
    (here : s.flights[f]? = some flight) :
    ∃ flight', t.flights[f]? = some flight' ∧ flight.Follows flight' := by
  have hf : f < s.flights.length := (List.getElem?_eq_some_iff.mp here).1
  rcases step.flights with hsame | ⟨g, old, new, hget, hset, hfollows⟩ | ⟨key, hnew⟩
  · exact ⟨flight, by rw [hsame, here], .refl flight⟩
  · by_cases hgf : g = f
    · subst hgf
      cases here.symm.trans hget
      exact ⟨new, by rw [hset, List.getElem?_set_self hf], hfollows⟩
    · exact ⟨flight, by rw [hset, List.getElem?_set_ne hgf, here], .refl flight⟩
  · exact ⟨flight, by rw [hnew, List.getElem?_append_left hf, here], .refl flight⟩

end Changes

end Ninfer.Media
