import Ninfer.Commons.Refs
import Ninfer.Media.Cache

/-!
# The invariant of the media cache

Three groups of facts, each about its own part of the state: the books of the cache, the memory
account, and the flights. A critical section changes few of them, and every change of a flight goes
through one lemma.

## Main definitions

* `Books`: the entries, their order and their bytes
* `Account`: what is live, and the references it stands for
* `Flying`: the flights, the keys in flight and the queue
* `Inv`: all of them

## Main results

* `evictOne_spec`, `retain_spec`: what an eviction and a publication keep
* `Flying.change`, `Flying.setFlight`: what a change of one flight keeps
-/

namespace Ninfer.Media

variable {κ ε : Type}

/-- The keys of the ready entries. -/
def State.keys (s : State κ ε) : List κ := s.ready.map Prod.fst

/-- The books of the cache: its order lists each key once, and the retained bytes are those of the
entries. -/
structure Books (capacity : Nat) (s : State κ ε) : Prop where
  keys : s.keys.Nodup
  lru : s.lru.Nodup
  mem : ∀ key, key ∈ s.lru ↔ key ∈ s.keys
  retained : s.retainedBytes = (s.ready.map fun entry => entry.2.bytes).sum
  le : s.retainedBytes ≤ capacity

/-- The memory account: what is live is the bytes of the payloads with a reference, and the
reservations. -/
structure Account (limit : Nat) (s : State κ ε) : Prop where
  valid : ∀ payload ∈ s.refs, payload < s.payloads.length
  live : s.live = footprint s.bytesOf s.refs + s.reservations.sum
  le : s.live ≤ limit

/-- The stages in which `done` has been set. -/
def Stage.isDone (stage : Stage) : Bool := stage ∈ [Stage.marked, .unwound, .finished]

/-- The stages before the payload of a flight may enter the cache. -/
def Stage.isEarly (stage : Stage) : Bool :=
  stage ∈ [Stage.submitting, .queued, .building, .built, .checked]

/-- What the stage of a flight says of its fields. -/
structure Flight.Sound (flight : Flight κ ε) : Prop where
  done : flight.done = flight.stage.isDone
  empty : flight.stage ∈ [Stage.submitting, .queued, .building] → flight.payload = none
  filled : flight.stage = .checked → ∃ payload, flight.payload = some payload

/-- The flights: a key is in flight until its flight is finished, and it is not ready before its
payload was built. -/
structure Flying (s : State κ ε) : Prop where
  keys : (s.inflight.map Prod.fst).Nodup
  inflight : ∀ key f, (key, f) ∈ s.inflight ↔
    ∃ flight, s.flights[f]? = some flight ∧ flight.key = key ∧ flight.stage ≠ .finished
  sound : ∀ (f : Nat) (flight : Flight κ ε), s.flights[f]? = some flight → flight.Sound
  queue : ∀ f, f ∈ s.queue ↔ ∃ flight, s.At f flight .queued
  queueNodup : s.queue.Nodup
  absent : ∀ (f : Nat) (flight : Flight κ ε), s.flights[f]? = some flight →
    flight.stage.isEarly = true → flight.key ∉ s.keys

/-- The invariant of the cache. -/
structure Inv (limits : Limits) (s : State κ ε) : Prop where
  books : Books limits.capacityBytes s
  account : Account limits.liveBytes s
  flying : Flying s
  counted : s.hits + s.misses + s.singleflightWaits + s.entering.length = s.passed
  alive : s.terminated = false

theorem inv_init (limits : Limits) : Inv limits ({} : State κ ε) where
  books := ⟨List.nodup_nil, List.nodup_nil, fun _ => Iff.rfl, rfl, Nat.zero_le _⟩
  account := ⟨nofun, rfl, Nat.zero_le _⟩
  flying := ⟨List.nodup_nil, fun _ _ => ⟨nofun, by simp⟩, by simp, by simp [State.At],
    List.nodup_nil, by simp⟩
  counted := rfl
  alive := rfl

/-! ## Frames -/

section Frames

variable {capacity limit : Nat} {s t : State κ ε}

/-- The books read the entries, their order and the retained bytes. -/
theorem Books.frame (h : Books capacity s) (hready : t.ready = s.ready) (hlru : t.lru = s.lru)
    (hretained : t.retainedBytes = s.retainedBytes) : Books capacity t := by
  obtain ⟨h₁, h₂, h₃, h₄, h₅⟩ := h
  have hkeys : t.keys = s.keys := by rw [State.keys, hready, State.keys]
  exact ⟨hkeys ▸ h₁, hlru ▸ h₂, fun key => by rw [hlru, hkeys, h₃], by rw [hretained, h₄, hready],
    hretained ▸ h₅⟩

/-- The account reads which payloads have a reference. -/
theorem Account.frame (h : Account limit s) (hrefs : ∀ p, p ∈ t.refs ↔ p ∈ s.refs)
    (hpayloads : t.payloads = s.payloads) (hlive : t.live = s.live)
    (hreservations : t.reservations = s.reservations) : Account limit t where
  valid payload hp := by
    rw [hpayloads]
    exact h.valid payload ((hrefs payload).mp hp)
  live := by
    have hbytes : t.bytesOf = s.bytesOf := by
      funext p
      rw [State.bytesOf, State.bytesOf, hpayloads]
    rw [hlive, h.live, hreservations, hbytes, footprint_congr hrefs]
  le := hlive ▸ h.le

/-- The flights read the ready keys only where they must be absent. -/
theorem Flying.frame (h : Flying s) (hflights : t.flights = s.flights)
    (hinflight : t.inflight = s.inflight) (hqueue : t.queue = s.queue)
    (hkeys : ∀ key ∈ t.keys, key ∈ s.keys) : Flying t where
  keys := hinflight ▸ h.keys
  inflight := by
    rw [hinflight, hflights]
    exact h.inflight
  sound := hflights ▸ h.sound
  queue := by
    unfold State.At
    rw [hqueue, hflights]
    exact h.queue
  queueNodup := hqueue ▸ h.queueNodup
  absent f flight hf hearly hmem := h.absent f flight (hflights ▸ hf) hearly (hkeys _ hmem)

end Frames

/-! ## References -/

section References

variable {limit : Nat} {s t : State κ ε} {payload : Nat}

theorem State.mem_refs {p : Nat} : p ∈ s.refs ↔
    (∃ entry ∈ s.ready, entry.2.payload = p) ∨ (∃ flight ∈ s.flights, flight.payload = some p) ∨
      p ∈ s.held := by
  simp only [State.refs, List.mem_append, List.mem_map, List.mem_filterMap, or_assoc]

/-- `MemoryAccount::release` of what is reserved for a reference that was the last. -/
theorem unref_spec (halive : t.terminated = false) (hvalid : ∀ p ∈ t.refs, p < t.payloads.length)
    (hlive : t.live = footprint t.bytesOf (payload :: t.refs) + t.reservations.sum)
    (hle : t.live ≤ limit) :
    Account limit (t.unref payload) ∧ (t.unref payload).terminated = false ∧
      t.unref payload = { t with live := (t.unref payload).live } := by
  rw [footprint_of_drop fun b => List.mem_cons] at hlive
  unfold State.unref
  by_cases hmem : payload ∈ t.refs
  · rw [if_pos hmem] at hlive ⊢
    rw [Nat.zero_add] at hlive
    exact ⟨⟨hvalid, hlive, hle⟩, halive, rfl⟩
  · rw [if_neg hmem] at hlive ⊢
    unfold State.release
    rw [if_neg (by omega)]
    refine ⟨⟨hvalid, ?_, ?_⟩, halive, rfl⟩
    · show t.live - t.bytesOf payload = footprint t.bytesOf t.refs + t.reservations.sum
      omega
    · show t.live - t.bytesOf payload ≤ limit
      omega

end References

/-! ## Evictions -/

section Lookup

variable {κ β : Type} [DecidableEq κ] {table : List (κ × β)} {key : κ} {b : β}

theorem mem_of_lookup (h : table.lookup key = some b) : (key, b) ∈ table := by
  obtain ⟨l₁, l₂, rfl, -⟩ := List.lookup_eq_some_iff.mp h
  simp

theorem not_mem_of_lookup (h : table.lookup key = none) : key ∉ table.map Prod.fst := by
  intro hmem
  obtain ⟨e, he, rfl⟩ := List.mem_map.mp hmem
  simpa using List.lookup_eq_none_iff.mp h e he

/-- A table with distinct keys is one of its entries and the others. -/
theorem perm_of_lookup (hkeys : (table.map Prod.fst).Nodup) (h : table.lookup key = some b) :
    table.Perm ((key, b) :: table.filter fun e => e.1 ≠ key) := by
  induction table with
  | nil => cases h
  | cons e table ih =>
    obtain ⟨k, v⟩ := e
    obtain ⟨hnot, hrest⟩ := List.nodup_cons.mp hkeys
    rw [List.lookup_cons] at h
    by_cases hk : k = key
    · subst hk
      have hv : v = b := by simpa using h
      have hall : table.filter (fun x => x.1 ≠ k) = table := by
        apply List.filter_eq_self.mpr
        intro x hx
        exact decide_eq_true fun heq => hnot (List.mem_map.mpr ⟨x, hx, heq⟩)
      rw [List.filter_cons_of_neg (by simp), hall, ← hv]
    · have hlookup : table.lookup key = some b := by
        have hne : (key == k) = false := by simpa using Ne.symm hk
        simpa [hne] using h
      rw [List.filter_cons_of_pos (by simpa using hk)]
      exact ((ih hrest hlookup).cons (k, v)).trans (List.Perm.swap ..)

end Lookup

section Evictions

variable {capacity limit : Nat} {s : State κ ε}

/-- What evictions and publications leave alone; the keys they publish are listed. -/
structure Shelved (new : List κ) (s t : State κ ε) : Prop where
  eq : t = { s with
    lru := t.lru
    ready := t.ready
    retainedBytes := t.retainedBytes
    evictions := t.evictions
    oversizeBypasses := t.oversizeBypasses
    live := t.live }
  keys : ∀ key ∈ t.keys, key ∈ new ∨ key ∈ s.keys

theorem Shelved.refl (s : State κ ε) : Shelved [] s s := ⟨rfl, fun _ h => Or.inr h⟩

theorem Shelved.trans {new : List κ} {t u : State κ ε} (h : Shelved [] s t) (h' : Shelved new t u) :
    Shelved new s u := by
  constructor
  · rw [h'.eq, h.eq]
  · intro key hkey
    rcases h'.keys key hkey with hnew | hkey
    · exact Or.inl hnew
    · exact Or.inr ((h.keys key hkey).resolve_left List.not_mem_nil)

variable [DecidableEq κ]

/-- The books after the last entry in the order has left. -/
theorem Books.removeEntry (h : Books capacity s) {key : κ} {entry : Entry}
    (hlast : s.lru.getLast? = some key) (hentry : s.ready.lookup key = some entry) :
    Books capacity (s.removeEntry key entry) := by
  have hperm := perm_of_lookup h.keys hentry
  have hlru : s.lru = s.lru.dropLast ++ [key] :=
    (List.dropLast_append_getLast? key hlast).symm
  have hnodup := h.lru
  rw [hlru, List.nodup_append] at hnodup
  have hkeys : (s.removeEntry key entry).keys = s.keys.filter fun k => k ≠ key := by
    show (s.ready.filter fun e => e.1 ≠ key).map Prod.fst = _
    rw [State.keys, List.filter_map]
    rfl
  have hsum := (hperm.map fun e => e.2.bytes).sum_eq
  rw [List.map_cons, List.sum_cons] at hsum
  have hretained := h.retained
  refine ⟨?_, hnodup.1, fun k => ?_, ?_, ?_⟩
  · rw [hkeys]
    exact h.keys.filter _
  · rw [hkeys, List.mem_filter, ← h.mem]
    have hiff : k ∈ s.lru ↔ k ∈ s.lru.dropLast ∨ k = key := by
      conv_lhs => rw [hlru]
      simp
    rw [hiff]
    show k ∈ s.lru.dropLast ↔ _
    constructor
    · intro hk
      exact ⟨Or.inl hk, decide_eq_true (hnodup.2.2 k hk key (List.mem_singleton_self key))⟩
    · rintro ⟨hk | hk, hne⟩
      · exact hk
      · exact absurd hk (of_decide_eq_true hne)
  · show s.retainedBytes - entry.bytes = _
    rw [hretained, hsum, Nat.add_sub_cancel_left]
    rfl
  · have hle := h.le
    show s.retainedBytes - entry.bytes ≤ capacity
    omega

/-- **An eviction** keeps the books and the account, and finds its entry. -/
theorem evictOne_spec (hb : Books capacity s) (ha : Account limit s) (halive : s.terminated = false) :
    Books capacity s.evictOne.2 ∧ Account limit s.evictOne.2 ∧ s.evictOne.2.terminated = false ∧
      Shelved [] s s.evictOne.2 := by
  unfold State.evictOne
  cases hlast : s.lru.getLast? with
  | none => exact ⟨hb, ha, halive, .refl s⟩
  | some key =>
    have hkey : key ∈ s.keys := (hb.mem key).mp (List.mem_of_getLast? hlast)
    dsimp only
    cases hentry : s.ready.lookup key with
    | none => exact absurd hkey (not_mem_of_lookup hentry)
    | some entry =>
      have hperm := perm_of_lookup hb.keys hentry
      have hsum := (hperm.map fun e => e.2.bytes).sum_eq
      rw [List.map_cons, List.sum_cons, ← hb.retained] at hsum
      dsimp only at hsum ⊢
      rw [if_neg (by omega)]
      have hrefs : ∀ p, p ∈ s.refs ↔ p ∈ entry.payload :: (s.removeEntry key entry).refs := by
        intro p
        rw [List.mem_cons, State.mem_refs, State.mem_refs]
        have hmem : (∃ e ∈ s.ready, e.2.payload = p) ↔
            p = entry.payload ∨ ∃ e ∈ (s.removeEntry key entry).ready, e.2.payload = p := by
          constructor
          · rintro ⟨e, he, rfl⟩
            rcases List.mem_cons.mp (hperm.mem_iff.mp he) with rfl | he
            · exact Or.inl rfl
            · exact Or.inr ⟨e, he, rfl⟩
          · rintro (rfl | ⟨e, he, rfl⟩)
            · exact ⟨_, mem_of_lookup hentry, rfl⟩
            · exact ⟨e, (List.mem_filter.mp he).1, rfl⟩
        rw [hmem, or_assoc]
        rfl
      have hlive : (s.removeEntry key entry).live =
          footprint s.bytesOf (entry.payload :: (s.removeEntry key entry).refs) +
            s.reservations.sum := by
        rw [← footprint_congr hrefs]
        exact ha.live
      have hvalid : ∀ p ∈ (s.removeEntry key entry).refs, p < s.payloads.length :=
        fun p hp => ha.valid p ((hrefs p).mpr (List.mem_cons_of_mem _ hp))
      obtain ⟨haccount, halive', heq⟩ :=
        unref_spec (show (s.removeEntry key entry).terminated = false from halive) hvalid hlive ha.le
      have hbooks := hb.removeEntry hlast hentry
      dsimp only
      refine ⟨?_, haccount, halive', ?_, ?_⟩
      · rw [heq]
        exact hbooks.frame rfl rfl rfl
      · rw [heq]
        rfl
      · intro k hk
        rw [heq] at hk
        obtain ⟨e, he, rfl⟩ := List.mem_map.mp hk
        exact Or.inr (List.mem_map_of_mem (List.mem_filter.mp he).1)

theorem makeRoom_spec (bytes n : Nat) (hb : Books capacity s) (ha : Account limit s)
    (halive : s.terminated = false) :
    Books capacity (s.makeRoom capacity bytes n) ∧ Account limit (s.makeRoom capacity bytes n) ∧
      (s.makeRoom capacity bytes n).terminated = false ∧
      Shelved [] s (s.makeRoom capacity bytes n) := by
  induction n generalizing s with
  | zero => exact ⟨hb, ha, halive, .refl s⟩
  | succ n ih =>
    unfold State.makeRoom
    split
    · split
      · obtain ⟨hb', ha', halive', hshelved⟩ := evictOne_spec hb ha halive
        obtain ⟨hb'', ha'', halive'', hshelved'⟩ := ih hb' ha' halive'
        exact ⟨hb'', ha'', halive'', hshelved.trans hshelved'⟩
      · exact ⟨hb, ha, halive, .refl s⟩
    · exact ⟨hb, ha, halive, .refl s⟩

/-- The books after a payload has entered the cache under a new key. -/
theorem Books.publish (h : Books capacity s) {key : κ} {entry : Entry} (hkey : key ∉ s.keys)
    (hroom : s.retainedBytes + entry.bytes ≤ capacity) :
    (s.publish key entry).ready = (key, entry) :: s.ready ∧
      Books capacity (s.publish key entry) := by
  have hready : (s.publish key entry).ready = (key, entry) :: s.ready := by
    show State.emplace s.ready key entry = _
    unfold State.emplace
    rw [if_neg]
    intro hsome
    obtain ⟨found, hfound⟩ := Option.isSome_iff_exists.mp hsome
    exact hkey (List.mem_map.mpr ⟨_, mem_of_lookup hfound, rfl⟩)
  have hkeys : (s.publish key entry).keys = key :: s.keys := by
    rw [State.keys, hready]
    rfl
  refine ⟨hready, ?_, ?_, fun k => ?_, ?_, hroom⟩
  · rw [hkeys]
    exact List.nodup_cons.mpr ⟨hkey, h.keys⟩
  · exact List.nodup_cons.mpr ⟨fun hmem => hkey ((h.mem key).mp hmem), h.lru⟩
  · rw [hkeys, List.mem_cons, ← h.mem]
    exact List.mem_cons
  · rw [hready, List.map_cons, List.sum_cons, ← h.retained]
    exact Nat.add_comm ..

/-- **The publication** of a payload that a flight holds, under a key that is not ready. -/
theorem retain_spec {key : κ} {entry : Entry} (hb : Books capacity s) (ha : Account limit s)
    (halive : s.terminated = false) (hkey : key ∉ s.keys)
    (hflight : ∃ flight ∈ s.flights, flight.payload = some entry.payload) :
    Books capacity (s.retain capacity key entry) ∧ Account limit (s.retain capacity key entry) ∧
      (s.retain capacity key entry).terminated = false ∧
      Shelved [key] s (s.retain capacity key entry) := by
  have hbypass : ∀ t : State κ ε, Books capacity t → Account limit t → t.terminated = false →
      Shelved [] s t → Books capacity { t with oversizeBypasses := t.oversizeBypasses + 1 } ∧
        Account limit { t with oversizeBypasses := t.oversizeBypasses + 1 } ∧
        t.terminated = false ∧
        Shelved [key] s { t with oversizeBypasses := t.oversizeBypasses + 1 } := by
    intro t hb' ha' halive' hshelved
    exact ⟨hb'.frame rfl rfl rfl, ha'.frame (fun _ => Iff.rfl) rfl rfl rfl, halive',
      hshelved.trans ⟨rfl, fun _ hk => Or.inr hk⟩⟩
  unfold State.retain
  split
  case isFalse => exact hbypass s hb ha halive (.refl s)
  case isTrue hfits =>
    obtain ⟨hb', ha', halive', hshelved⟩ := makeRoom_spec entry.bytes s.lru.length hb ha halive
    dsimp only
    split
    case isFalse => exact hbypass _ hb' ha' halive' hshelved
    case isTrue hroom =>
      generalize s.makeRoom capacity entry.bytes s.lru.length = t at hb' ha' halive' hshelved hroom ⊢
      have hnew : key ∉ t.keys := fun hmem =>
        hkey ((hshelved.keys key hmem).resolve_left List.not_mem_nil)
      obtain ⟨hready, hbooks⟩ :=
        hb'.publish hnew (show t.retainedBytes + entry.bytes ≤ capacity by omega)
      have hheld : ∃ flight ∈ t.flights, flight.payload = some entry.payload := by
        rw [hshelved.eq]
        exact hflight
      refine ⟨hbooks, ha'.frame (fun p => ?_) rfl rfl rfl, halive', hshelved.trans ⟨rfl, ?_⟩⟩
      · -- The entry is one more reference to a payload that the flight keeps alive.
        rw [State.mem_refs, State.mem_refs, hready]
        constructor
        · rintro (⟨e, he, rfl⟩ | hp)
          · rcases List.mem_cons.mp he with rfl | he
            · exact Or.inr (Or.inl hheld)
            · exact Or.inl ⟨e, he, rfl⟩
          · exact Or.inr hp
        · rintro (⟨e, he, rfl⟩ | hp)
          · exact Or.inl ⟨e, List.mem_cons_of_mem _ he, rfl⟩
          · exact Or.inr hp
      · intro k hk
        rw [State.keys, hready] at hk
        rcases List.mem_cons.mp hk with rfl | hk
        · exact Or.inl List.mem_cons_self
        · exact Or.inr hk

end Evictions

/-! ## Flights -/

section Flights

variable {limits : Limits} {limit : Nat} {s t : State κ ε} {f : Nat} {flight flight' : Flight κ ε}

/-- Two flights of one key, neither of them finished, are one. -/
theorem Flying.unique (h : Flying s) {g : Nat} {other : Flight κ ε}
    (hf : s.flights[f]? = some flight) (hg : s.flights[g]? = some other)
    (hkey : flight.key = other.key) (hstage : flight.stage ≠ .finished)
    (hstage' : other.stage ≠ .finished) : f = g := by
  have hmem := (h.inflight flight.key f).mpr ⟨flight, hf, rfl, hstage⟩
  have hmem' := (h.inflight flight.key g).mpr ⟨other, hg, hkey.symm, hstage'⟩
  have hpair := List.inj_on_of_nodup_map h.keys hmem hmem' rfl
  exact congrArg Prod.snd hpair

/-- The flights after one of them has changed. -/
theorem Flying.change (h : Flying s) (here : s.flights[f]? = some flight)
    (hflights : t.flights = s.flights.set f flight') (hkey : flight'.key = flight.key)
    (hsound : flight'.Sound) (hnodup : (t.inflight.map Prod.fst).Nodup)
    (hinflight : ∀ key g, (key, g) ∈ t.inflight ↔
      (key, g) ∈ s.inflight ∧ (g = f → flight'.stage ≠ .finished))
    (hlive : flight'.stage ≠ .finished → flight.stage ≠ .finished)
    (hqueue : ∀ g, g ∈ t.queue ↔ if g = f then flight'.stage = .queued else g ∈ s.queue)
    (hqueueNodup : t.queue.Nodup)
    (hearly : flight'.stage.isEarly = true → flight.key ∉ t.keys)
    (habsent : ∀ (g : Nat) (other : Flight κ ε), g ≠ f → s.flights[g]? = some other →
      other.stage.isEarly = true → other.key ∉ t.keys) : Flying t := by
  have hbound : f < s.flights.length := (List.getElem?_eq_some_iff.mp here).1
  have hself : t.flights[f]? = some flight' := by
    rw [hflights, List.getElem?_set_self hbound]
  have hother : ∀ g, g ≠ f → t.flights[g]? = s.flights[g]? := fun g hg => by
    rw [hflights, List.getElem?_set_ne (Ne.symm hg)]
  refine ⟨hnodup, fun key g => ?_, fun g other hg => ?_, fun g => ?_, hqueueNodup,
    fun g other hg hstage => ?_⟩
  · rw [hinflight, h.inflight]
    by_cases hgf : g = f
    · subst hgf
      rw [hself, here]
      constructor
      · rintro ⟨⟨_, ⟨⟩, hk, -⟩, hstage⟩
        exact ⟨flight', rfl, hkey.trans hk, hstage rfl⟩
      · rintro ⟨_, ⟨⟩, hk, hstage⟩
        exact ⟨⟨flight, rfl, hkey.symm.trans hk, hlive hstage⟩, fun _ => hstage⟩
    · rw [hother g hgf]
      exact and_iff_left fun heq => absurd heq hgf
  · by_cases hgf : g = f
    · subst hgf
      cases hself.symm.trans hg
      exact hsound
    · exact h.sound g other (hother g hgf ▸ hg)
  · rw [hqueue]
    unfold State.At
    by_cases hgf : g = f
    · subst hgf
      rw [if_pos rfl, hself]
      constructor
      · intro hstage
        exact ⟨flight', rfl, hstage⟩
      · rintro ⟨_, ⟨⟩, hstage⟩
        exact hstage
    · rw [if_neg hgf, hother g hgf]
      exact h.queue g
  · by_cases hgf : g = f
    · subst hgf
      cases hself.symm.trans hg
      rw [hkey]
      exact hearly hstage
    · exact habsent g other hgf (hother g hgf ▸ hg) hstage

/-- The flights after one of them has changed and stayed where it was among the keys in flight and
in the queue. Its own key may have become ready, when it is not early any more. -/
theorem Flying.setFlight (h : Flying s) (here : s.flights[f]? = some flight)
    (hflights : t.flights = s.flights.set f flight') (hinflight : t.inflight = s.inflight)
    (hqueue : t.queue = s.queue) (hkey : flight'.key = flight.key) (hsound : flight'.Sound)
    (hfinished : flight'.stage = .finished ↔ flight.stage = .finished)
    (hqueued : flight'.stage = .queued ↔ flight.stage = .queued)
    (hearly : flight'.stage.isEarly = true → flight.stage.isEarly = true)
    (hkeys : ∀ k ∈ t.keys, k ∈ s.keys ∨
      k = flight.key ∧ flight'.stage.isEarly = false ∧ flight.stage ≠ .finished) : Flying t := by
  refine h.change here hflights hkey hsound (hinflight ▸ h.keys) (fun key g => ?_)
    (fun hstage hdone => hstage (hfinished.mpr hdone)) (fun g => ?_) (hqueue ▸ h.queueNodup)
    (fun hstage hmem => ?_) (fun g other hgf hg hstage hmem => ?_)
  · rw [hinflight]
    refine (and_iff_left_of_imp fun hmem hgf hstage => ?_).symm
    subst hgf
    obtain ⟨_, hget, -, hlive⟩ := (h.inflight key g).mp hmem
    cases here.symm.trans hget
    exact hlive (hfinished.mp hstage)
  · rw [hqueue, h.queue]
    split_ifs with hgf
    · subst hgf
      rw [hqueued]
      constructor
      · rintro ⟨_, hget, hstage⟩
        cases here.symm.trans hget
        exact hstage
      · intro hstage
        exact ⟨flight, here, hstage⟩
    · exact Iff.rfl
  · rcases hkeys _ hmem with hmem | ⟨-, hlate, -⟩
    · exact h.absent f flight here (hearly hstage) hmem
    · exact Bool.noConfusion (hlate.symm.trans hstage)
  · rcases hkeys _ hmem with hmem | ⟨hkey', -, hlive⟩
    · exact h.absent g other hg hstage hmem
    · refine hgf (h.unique hg here hkey' (fun hdone => ?_) hlive)
      rw [hdone] at hstage
      cases hstage

end Flights

/-! ## The references of flights -/

section FlightRefs

variable {limit : Nat} {s t : State κ ε} {f : Nat} {flight flight' : Flight κ ε}

theorem exists_mem_set {α : Type} {l : List α} {i : Nat} {a b : α} (here : l[i]? = some a)
    (P : α → Prop) :
    (∃ x ∈ l.set i b, P x) ↔ P b ∨ ∃ j, j ≠ i ∧ ∃ x, l[j]? = some x ∧ P x := by
  have hbound : i < l.length := (List.getElem?_eq_some_iff.mp here).1
  constructor
  · rintro ⟨x, hx, hp⟩
    obtain ⟨j, hj⟩ := List.mem_iff_getElem?.mp hx
    by_cases hji : j = i
    · subst hji
      rw [List.getElem?_set_self hbound] at hj
      cases hj
      exact Or.inl hp
    · rw [List.getElem?_set_ne (Ne.symm hji)] at hj
      exact Or.inr ⟨j, hji, x, hj, hp⟩
  · rintro (hp | ⟨j, hji, x, hj, hp⟩)
    · exact ⟨b, List.mem_set hbound b, hp⟩
    · exact ⟨x, List.mem_iff_getElem?.mpr ⟨j, (List.getElem?_set_ne (Ne.symm hji)).trans hj⟩, hp⟩

/-- A reference in a flight is one of a given flight, or of another. -/
theorem exists_mem_of_get {α : Type} {l : List α} {i : Nat} {a : α} (here : l[i]? = some a)
    (P : α → Prop) : (∃ x ∈ l, P x) ↔ P a ∨ ∃ j, j ≠ i ∧ ∃ x, l[j]? = some x ∧ P x := by
  obtain ⟨hbound, rfl⟩ := List.getElem?_eq_some_iff.mp here
  conv_lhs => rw [← List.set_getElem_self hbound]
  exact exists_mem_set here P

/-- The account reads the payload of a flight that changes. -/
theorem Account.setFlight (h : Account limit s) (here : s.flights[f]? = some flight)
    (hpayload : flight'.payload = flight.payload) : Account limit (s.setFlight f flight') := by
  refine h.frame (fun p => ?_) rfl rfl rfl
  rw [State.mem_refs, State.mem_refs, exists_mem_of_get here fun x => x.payload = some p, ← hpayload]
  exact or_congr_right (or_congr_left (exists_mem_set here fun x => x.payload = some p))

end FlightRefs

end Ninfer.Media
