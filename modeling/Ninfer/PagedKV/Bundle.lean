import Ninfer.PagedKV.Operations

/-!
# Bundles are atomic

`reserve_paged_kv_bundle` and `resize_paged_kv_bundle` check a list of changes over several pools
and then apply them one by one. The checks are made in the state before the first change. They
carry over to the later ones since the changes name different pools, and an exchange with one pool
leaves the checks of the others as they were.

## Main definitions

* `ValidReservations`, `ValidResizes`: what the validation loops have established
* `Resized`: what a change of a resize asks for

## Main results

* `applyReservations_spec`, `applyResizes_spec`: after validation no call of the apply loop throws,
  and every listed change is made
* `reservePagedKVBundle_spec`, `resizePagedKVBundle_spec`: both operations make every change or
  leave the heap as it was
-/

namespace Ninfer.PagedKV

variable {ι α : Type} [DecidableEq ι] [DecidableEq α] [Fintype α]
  {specs : ι → PagedKVPoolSpec} {h : Heap ι α}

/-! ## Reservations -/

/-- The addresses at which a bundle constructs its allocations: raw storage, one for each. -/
def FreshTargets (h : Heap ι α) (reservations : List (PagedKVReservation ι α)) : Prop :=
  (reservations.map (·.target)).Nodup ∧ ∀ r ∈ reservations, (h.allocs r.target).pool = none

instance (h : Heap ι α) (reservations : List (PagedKVReservation ι α)) :
    Decidable (FreshTargets h reservations) :=
  inferInstanceAs (Decidable (_ ∧ _))

/-- Reservations of different pools, each of which can be made, at different free addresses. -/
def ValidReservations (h : Heap ι α) : List (ι × Nat × α) → Prop
  | [] => True
  | (p, pages, target) :: rs =>
    (h.pools p).canReserve pages = true ∧ (h.allocs target).pool = none ∧
      (∀ r ∈ rs, r.1 ≠ p ∧ r.2.2 ≠ target) ∧ ValidReservations h rs

omit [Fintype α] in
/-- Reservations of other pools at other addresses stay valid. -/
theorem ValidReservations.frame {p : ι} {pool : PagedKVPool} {a : α} {x : PagedKVAllocation ι} :
    ∀ {rs : List (ι × Nat × α)}, ValidReservations h rs → (∀ r ∈ rs, r.1 ≠ p ∧ r.2.2 ≠ a) →
      ValidReservations (h.put p pool a x) rs
  | [], _, _ => trivial
  | (q, pages, target) :: rs, ⟨hc, hd, hne, hrest⟩, hout => by
    obtain ⟨hq, ht⟩ := hout (q, pages, target) (List.mem_cons_self ..)
    refine ⟨?_, ?_, hne, hrest.frame fun r hr => hout r (List.mem_cons_of_mem _ hr)⟩
    · rwa [Heap.put_pools_of_ne _ hq]
    · rwa [Heap.put_allocs_of_ne _ ht]

/-- **The apply loop of a reservation** returns and makes every reservation, each in its own pool
and at its own address, and changes nothing else. -/
theorem applyReservations_spec :
    ∀ {rs : List (ι × Nat × α)} {h : Heap ι α}, HeapInv specs h → ValidReservations h rs →
      ∃ h', applyReservations rs h = .ok () h' ∧ HeapInv specs h' ∧
        (∀ r ∈ rs, h'.allocs r.2.2 = { pool := some r.1, pageEntitlement := r.2.1 } ∧
          h'.pools r.1 = (h.pools r.1).addEntitlement r.2.1) ∧
        (∀ a, a ∉ rs.map (·.2.2) → h'.allocs a = h.allocs a) ∧
        ∀ p, p ∉ rs.map (·.1) → h'.pools p = h.pools p
  | [], h, hi, _ => ⟨h, rfl, hi, by simp, fun _ _ => rfl, fun _ _ => rfl⟩
  | (p, pages, target) :: rs, h, hi, ⟨hc, hd, hne, hrest⟩ => by
    have hi₁ := hi.exchange (exchange_reserve hi hc hd)
    obtain ⟨h', hok, hi', hmade, hallocs, hpools⟩ :=
      applyReservations_spec hi₁ (hrest.frame hne)
    have hp : p ∉ rs.map (·.1) := fun hm => by
      obtain ⟨r, hr, hrp⟩ := List.mem_map.mp hm
      exact (hne r hr).1 hrp
    have ht : target ∉ rs.map (·.2.2) := fun hm => by
      obtain ⟨r, hr, hrt⟩ := List.mem_map.mp hm
      exact (hne r hr).2 hrt
    refine ⟨h', ?_, hi', ?_, ?_, ?_⟩
    · simp only [applyReservations, bind, EStateM.bind, reserve, hc, if_true, Call.handle, hok]
    · intro r hr
      rcases List.mem_cons.mp hr with rfl | hr
      · exact ⟨by rw [hallocs _ ht, Heap.put_allocs], by rw [hpools _ hp, Heap.put_pools]⟩
      · have := hmade r hr
        rwa [Heap.put_pools_of_ne _ (hne r hr).1] at this
    · intro a ha
      simp only [List.map_cons, List.mem_cons, not_or] at ha
      rw [hallocs a ha.2, Heap.put_allocs_of_ne _ ha.1]
    · intro q hq
      simp only [List.map_cons, List.mem_cons, not_or] at hq
      rw [hpools q hq.2, Heap.put_pools_of_ne _ hq.1]

omit [DecidableEq α] [Fintype α] in
/-- What `validate_distinct_pools` returns: the reservations as given, of pools not seen before
and all different. -/
theorem validateDistinctPools_spec :
    ∀ {rs : List (PagedKVReservation ι α)} {seen : List ι} {named : List (ι × Nat × α)},
      validateDistinctPools seen rs = .ok named →
      rs = named.map (fun n => ⟨some n.1, n.2.1, n.2.2⟩) ∧ (∀ n ∈ named, n.1 ∉ seen) ∧
        (named.map (·.1)).Nodup
  | [], seen, named, hv => by
    cases hv
    simp
  | r :: rs, seen, named, hv => by
    unfold validateDistinctPools at hv
    cases hp : r.pool with
    | none => simp [hp] at hv
    | some p =>
      simp only [hp] at hv
      split_ifs at hv with hz hs
      cases hrest : validateDistinctPools (p :: seen) rs with
      | error e =>
        rw [hrest] at hv
        cases hv
      | ok rest =>
        rw [hrest] at hv
        cases hv
        obtain ⟨rfl, hout, hnodup⟩ := validateDistinctPools_spec hrest
        refine ⟨?_, ?_, ?_⟩
        · cases r
          simp_all
        · intro n hn
          rcases List.mem_cons.mp hn with rfl | hn
          · exact hs
          · exact fun hm => hout n hn (List.mem_cons_of_mem _ hm)
        · refine List.nodup_cons.mpr ⟨fun hm => ?_, hnodup⟩
          obtain ⟨n, hn, hnp⟩ := List.mem_map.mp hm
          exact hout n hn (hnp ▸ List.mem_cons_self ..)

omit [DecidableEq ι] [DecidableEq α] [Fintype α] in
theorem validReservations_of_nodup :
    ∀ {named : List (ι × Nat × α)}, (named.map (·.1)).Nodup → (named.map (·.2.2)).Nodup →
      (∀ n ∈ named, (h.pools n.1).canReserve n.2.1 = true ∧ (h.allocs n.2.2).pool = none) →
      ValidReservations h named
  | [], _, _, _ => trivial
  | n :: named, hp, ht, hn => by
    rw [List.map_cons, List.nodup_cons] at hp ht
    obtain ⟨hc, hd⟩ := hn n (List.mem_cons_self ..)
    refine ⟨hc, hd, fun r hr => ⟨fun heq => hp.1 ?_, fun heq => ht.1 ?_⟩,
      validReservations_of_nodup hp.2 ht.2 fun r hr => hn r (List.mem_cons_of_mem _ hr)⟩
    · exact heq ▸ List.mem_map_of_mem hr
    · exact heq ▸ List.mem_map_of_mem hr

omit [DecidableEq α] [Fintype α] in
/-- What the checks of `reserve_paged_kv_bundle` establish. -/
theorem validateReservations_spec {rs : List (PagedKVReservation ι α)}
    {named : List (ι × Nat × α)} (hf : FreshTargets h rs)
    (hv : validateReservations rs h = .ok named) :
    rs = named.map (fun n => ⟨some n.1, n.2.1, n.2.2⟩) ∧ ValidReservations h named := by
  unfold validateReservations at hv
  cases hd : validateDistinctPools [] rs with
  | error e => simp [hd] at hv
  | ok named' =>
    simp only [hd] at hv
    split_ifs at hv with hall
    cases hv
    obtain ⟨hrs, -, hnodup⟩ := validateDistinctPools_spec hd
    subst hrs
    refine ⟨rfl, validReservations_of_nodup hnodup ?_ fun n hn => ⟨?_, ?_⟩⟩
    · simpa [Function.comp_def] using hf.1
    · exact List.all_eq_true.mp hall n hn
    · exact hf.2 _ (List.mem_map_of_mem hn)

/-! ## Resizes -/

/-- The allocation as a change of a resize asks for it: its first pages, and the entitlement. -/
def Resized (x : PagedKVAllocation ι) (mapped entitlement : Nat) : PagedKVAllocation ι :=
  (x.withPages (x.pageIds.take mapped)).withEntitlement entitlement

/-- Changes of allocations of different pools, each of which passes the checks. -/
def ValidResizes (h : Heap ι α) : List (α × Nat × Nat) → Prop
  | [] => True
  | (a, mapped, entitlement) :: changes =>
    ∃ p, (h.allocs a).pool = some p ∧ mapped ≤ (h.allocs a).pageIds.length ∧
      mapped ≤ entitlement ∧
      (h.pools p).canReplaceEntitlement (h.allocs a).pageEntitlement entitlement = true ∧
      (∀ c ∈ changes, (h.allocs c.1).pool ≠ some p) ∧ ValidResizes h changes

omit [Fintype α] in
/-- Changes of allocations of other pools stay valid. -/
theorem ValidResizes.frame {p : ι} {pool : PagedKVPool} {a : α} {x : PagedKVAllocation ι}
    (ha : (h.allocs a).pool = some p) :
    ∀ {cs : List (α × Nat × Nat)}, ValidResizes h cs → (∀ c ∈ cs, (h.allocs c.1).pool ≠ some p) →
      ValidResizes (h.put p pool a x) cs
  | [], _, _ => trivial
  | (b, mapped, entitlement) :: cs, ⟨q, hb, hm, hle, hc, hne, hrest⟩, hout => by
    have hother : ∀ c, (h.allocs c).pool ≠ some p → (h.put p pool a x).allocs c = h.allocs c := by
      intro c hcp
      have hca : c ≠ a := fun heq => hcp (heq ▸ ha)
      exact Heap.put_allocs_of_ne _ hca ..
    have hbp := hout (b, mapped, entitlement) (List.mem_cons_self ..)
    have hq : q ≠ p := fun heq => hbp (heq ▸ hb)
    have hrest' : ∀ c ∈ cs, (h.allocs c.1).pool ≠ some p := fun c hc =>
      hout c (List.mem_cons_of_mem _ hc)
    refine ⟨q, ?_, ?_, hle, ?_, ?_, hrest.frame ha hrest'⟩
    · rwa [hother b hbp]
    · rwa [hother b hbp]
    · rwa [hother b hbp, Heap.put_pools_of_ne _ hq]
    · intro c hcs
      rw [hother c.1 (hrest' c hcs)]
      exact hne c hcs

/-- **One change of a resize**: after the trim the entitlement still fits, since trimming changes
neither the entitlement nor the total. -/
theorem resize_spec (hi : HeapInv specs h) {p : ι} {a : α} (ha : (h.allocs a).pool = some p)
    {mapped entitlement : Nat} (hm : mapped ≤ (h.allocs a).pageIds.length)
    (hle : mapped ≤ entitlement)
    (hc : (h.pools p).canReplaceEntitlement (h.allocs a).pageEntitlement entitlement = true) :
    ∃ h₁ pool', trimPages a mapped h = .ok () h₁ ∧
      setPageEntitlement a entitlement h₁ =
        .ok () (h.put p pool' a (Resized (h.allocs a) mapped entitlement)) ∧
      pool'.rowInUse = (h.pools p).rowInUse ∧
      HeapInv specs (h.put p pool' a (Resized (h.allocs a) mapped entitlement)) := by
  obtain ⟨pool₁, htrim, hent, hrow, he⟩ := trimPages_spec hi ha hm
  have hi₁ := hi.exchange he
  have hc₁ : pool₁.canReplaceEntitlement (h.allocs a).pageEntitlement entitlement = true := by
    rw [← hc, PagedKVPool.canReplaceEntitlement, PagedKVPool.canReplaceEntitlement, hent, he.spec]
  have hm₁ : (((h.allocs a).withPages ((h.allocs a).pageIds.take mapped)).pageIds).length ≤
      entitlement := by
    rw [PagedKVAllocation.withPages_pageIds, List.length_take]
    exact (Nat.min_le_left _ _).trans hle
  obtain ⟨hset, he₂⟩ := setPageEntitlement_spec hi₁ (a := a) (p := p)
    (by rw [Heap.put_allocs]; exact ha) entitlement (by rw [Heap.put_allocs]; exact hm₁)
    (by rw [Heap.put_allocs, Heap.put_pools]; exact hc₁)
  have hi₂ := hi₁.exchange he₂
  rw [Heap.put_put] at hset hi₂
  simp only [Heap.put_allocs, Heap.put_pools] at hset hi₂
  exact ⟨_, _, htrim, hset, hrow, hi₂⟩

/-- **The apply loop of a resize** returns and makes every change, and changes nothing else. -/
theorem applyResizes_spec :
    ∀ {cs : List (α × Nat × Nat)} {h : Heap ι α}, HeapInv specs h → ValidResizes h cs →
      ∃ h', applyResizes cs h = .ok () h' ∧ HeapInv specs h' ∧
        (∀ c ∈ cs, c.2.1 ≤ (h.allocs c.1).pageIds.length ∧
          h'.allocs c.1 = Resized (h.allocs c.1) c.2.1 c.2.2) ∧
        (∀ a, a ∉ cs.map (·.1) → h'.allocs a = h.allocs a) ∧
        (∀ p, (∀ c ∈ cs, (h.allocs c.1).pool ≠ some p) → h'.pools p = h.pools p) ∧
        ∀ p, (h'.pools p).rowInUse = (h.pools p).rowInUse
  | [], h, hi, _ => ⟨h, rfl, hi, by simp, fun _ _ => rfl, fun _ _ => rfl, fun _ => rfl⟩
  | (a, mapped, entitlement) :: cs, h, hi, ⟨p, ha, hm, hle, hc, hne, hrest⟩ => by
    obtain ⟨h₁, pool', htrim, hset, hrow, hi₂⟩ := resize_spec hi ha hm hle hc
    set h₂ := h.put p pool' a (Resized (h.allocs a) mapped entitlement)
    obtain ⟨h', hok, hi', hmade, hallocs, hpools, hrows⟩ :=
      applyResizes_spec hi₂ (hrest.frame ha hne)
    have hother : ∀ c ∈ cs, h₂.allocs c.1 = h.allocs c.1 := by
      intro c hcs
      have hca : c.1 ≠ a := fun heq => hne c hcs (heq ▸ ha)
      exact Heap.put_allocs_of_ne _ hca ..
    have hnot : a ∉ cs.map (·.1) := fun hmem => by
      obtain ⟨c, hcs, rfl⟩ := List.mem_map.mp hmem
      exact hne c hcs ha
    refine ⟨h', ?_, hi', ?_, ?_, ?_, ?_⟩
    · simp only [applyResizes, bind, EStateM.bind, htrim, hset, hok]
    · intro c hcs
      rcases List.mem_cons.mp hcs with rfl | hcs
      · exact ⟨hm, by rw [hallocs _ hnot, Heap.put_allocs]⟩
      · have := hmade c hcs
        rwa [hother c hcs] at this
    · intro b hb
      simp only [List.map_cons, List.mem_cons, not_or] at hb
      rw [hallocs b hb.2, Heap.put_allocs_of_ne _ hb.1]
    · intro q hq
      have hqp : q ≠ p := fun heq => hq _ (List.mem_cons_self ..) (heq ▸ ha)
      rw [hpools q fun c hcs => hother c hcs ▸ hq c (List.mem_cons_of_mem _ hcs),
        Heap.put_pools_of_ne _ hqp]
    · intro q
      rw [hrows q]
      by_cases hqp : q = p
      · subst hqp
        rw [Heap.put_pools, hrow]
      · rw [Heap.put_pools_of_ne _ hqp]

omit [DecidableEq α] [Fintype α] in
/-- What the validation loop of `resize_paged_kv_bundle` establishes: the changes as given, of
allocations of pools not seen before and all different. -/
theorem validateResizes_spec :
    ∀ {cs : List (PagedKVResize α)} {seen : List ι} {named : List (α × Nat × Nat)},
      validateResizes h seen cs = .ok named →
      cs = named.map (fun n => ⟨some n.1, n.2.1, n.2.2⟩) ∧
        (∀ n ∈ named, ∀ p ∈ seen, (h.allocs n.1).pool ≠ some p) ∧ ValidResizes h named
  | [], seen, named, hv => by
    cases hv
    simp [ValidResizes]
  | c :: cs, seen, named, hv => by
    unfold validateResizes at hv
    cases hca : c.allocation with
    | none => simp [hca] at hv
    | some a =>
      cases hp : (h.allocs a).pool with
      | none => simp [hca, hp] at hv
      | some p =>
        simp only [hca, hp] at hv
        split_ifs at hv with hext hseen hrep
        cases hrest : validateResizes h (p :: seen) cs with
        | error e =>
          rw [hrest] at hv
          cases hv
        | ok rest =>
          rw [hrest] at hv
          cases hv
          obtain ⟨rfl, hout, hvalid⟩ := validateResizes_spec hrest
          obtain ⟨hmapped, hent⟩ := not_or.mp hext
          refine ⟨?_, ?_, p, hp, Nat.not_lt.mp hmapped, Nat.not_lt.mp hent, hrep, ?_, hvalid⟩
          · cases c
            simp_all
          · intro n hn q hq heq
            rcases List.mem_cons.mp hn with rfl | hn
            · rw [hp] at heq
              cases heq
              exact hseen hq
            · exact hout n hn q (List.mem_cons_of_mem _ hq) heq
          · exact fun n hn => hout n hn p (List.mem_cons_self ..)

/-! ## The two operations -/

/-- The reservations `rs` made from `h` to `h'`, and nothing else. -/
structure ReservationsMade (rs : List (PagedKVReservation ι α)) (h h' : Heap ι α) : Prop where
  allocs : ∀ r ∈ rs, h'.allocs r.target = { pool := r.pool, pageEntitlement := r.pageEntitlement }
  pools : ∀ r ∈ rs, ∀ p, r.pool = some p →
    h'.pools p = (h.pools p).addEntitlement r.pageEntitlement
  other_allocs : ∀ a, a ∉ rs.map (·.target) → h'.allocs a = h.allocs a
  other_pools : ∀ p, some p ∉ rs.map (·.pool) → h'.pools p = h.pools p

/-- The changes `cs` made from `h` to `h'`, and nothing else: each named allocation keeps its pool,
its row and its first pages. The pools' free lists and counters follow from the books. -/
structure ResizesMade (cs : List (PagedKVResize α)) (h h' : Heap ι α) : Prop where
  allocs : ∀ c ∈ cs, ∀ a, c.allocation = some a →
    c.mappedPages ≤ (h.allocs a).pageIds.length ∧
      h'.allocs a = { h.allocs a with
        pageIds := (h.allocs a).pageIds.take c.mappedPages
        pageEntitlement := c.pageEntitlement }
  other_allocs : ∀ a, some a ∉ cs.map (·.allocation) → h'.allocs a = h.allocs a
  other_pools : ∀ p, (∀ a, some a ∈ cs.map (·.allocation) → (h.allocs a).pool ≠ some p) →
    h'.pools p = h.pools p
  rows : ∀ p, (h'.pools p).rowInUse = (h.pools p).rowInUse

/-- **A bundle that passes its checks is reserved**: no call of the apply loop throws. -/
theorem reservePagedKVBundle_of_valid (hi : HeapInv specs h)
    {rs : List (PagedKVReservation ι α)} {named : List (ι × Nat × α)} (hf : FreshTargets h rs)
    (hv : validateReservations rs h = .ok named) :
    ∃ h', applyReservations named h = .ok () h' ∧ reservePagedKVBundle rs h = .ok () h' ∧
      HeapInv specs h' ∧ ReservationsMade rs h h' := by
  obtain ⟨rfl, hvalid⟩ := validateReservations_spec hf hv
  obtain ⟨h', hok, hi', hmade, hallocs, hpools⟩ := applyReservations_spec hi hvalid
  refine ⟨h', hok, by simp only [reservePagedKVBundle, hv, hok], hi', ?_, ?_, ?_, ?_⟩
  · intro r hr
    obtain ⟨n, hn, rfl⟩ := List.mem_map.mp hr
    exact (hmade n hn).1
  · intro r hr p hp
    obtain ⟨n, hn, rfl⟩ := List.mem_map.mp hr
    cases hp
    exact (hmade n hn).2
  · intro a ha
    exact hallocs a fun hm => ha (by simpa [Function.comp_def] using hm)
  · intro p hp
    exact hpools p fun hm => hp (by simpa [Function.comp_def] using hm)

omit [Fintype α] in
/-- What the checks throw is thrown, with the heap as it was. -/
theorem reservePagedKVBundle_of_invalid {rs : List (PagedKVReservation ι α)} {e : Exception}
    (hv : validateReservations rs h = .error e) : reservePagedKVBundle rs h = .error e h := by
  simp only [reservePagedKVBundle, hv]

theorem reservePagedKVBundle_spec (hi : HeapInv specs h) {rs : List (PagedKVReservation ι α)}
    (hf : FreshTargets h rs) :
    (∃ h', reservePagedKVBundle rs h = .ok () h' ∧ HeapInv specs h' ∧ ReservationsMade rs h h') ∨
      ∃ e, validateReservations rs h = .error e ∧ reservePagedKVBundle rs h = .error e h := by
  cases hv : validateReservations rs h with
  | error e => exact Or.inr ⟨e, rfl, reservePagedKVBundle_of_invalid hv⟩
  | ok named =>
    obtain ⟨h', -, hok, hmade⟩ := reservePagedKVBundle_of_valid hi hf hv
    exact Or.inl ⟨h', hok, hmade⟩

/-- **Changes that pass their checks are made**: no call of the apply loop throws. -/
theorem resizePagedKVBundle_of_valid (hi : HeapInv specs h) {cs : List (PagedKVResize α)}
    {named : List (α × Nat × Nat)} (hv : validateResizes h [] cs = .ok named) :
    ∃ h', applyResizes named h = .ok () h' ∧ resizePagedKVBundle cs h = .ok () h' ∧
      HeapInv specs h' ∧ ResizesMade cs h h' := by
  obtain ⟨rfl, -, hvalid⟩ := validateResizes_spec hv
  obtain ⟨h', hok, hi', hmade, hallocs, hpools, hrows⟩ := applyResizes_spec hi hvalid
  refine ⟨h', hok, by simp only [resizePagedKVBundle, hv, hok], hi', ?_, ?_, ?_, hrows⟩
  · intro c hc a ha
    obtain ⟨n, hn, rfl⟩ := List.mem_map.mp hc
    cases ha
    exact hmade n hn
  · intro a ha
    exact hallocs a fun hm => ha (by simpa [Function.comp_def] using hm)
  · intro p hp
    exact hpools p fun n hn => hp n.1 (List.mem_map.mpr ⟨_, List.mem_map_of_mem hn, rfl⟩)

omit [Fintype α] in
/-- What the checks throw is thrown, with the heap as it was. -/
theorem resizePagedKVBundle_of_invalid {cs : List (PagedKVResize α)} {e : Exception}
    (hv : validateResizes h [] cs = .error e) : resizePagedKVBundle cs h = .error e h := by
  simp only [resizePagedKVBundle, hv]

theorem resizePagedKVBundle_spec (hi : HeapInv specs h) (cs : List (PagedKVResize α)) :
    (∃ h', resizePagedKVBundle cs h = .ok () h' ∧ HeapInv specs h' ∧ ResizesMade cs h h') ∨
      ∃ e, validateResizes h [] cs = .error e ∧ resizePagedKVBundle cs h = .error e h := by
  cases hv : validateResizes h [] cs with
  | error e => exact Or.inr ⟨e, rfl, resizePagedKVBundle_of_invalid hv⟩
  | ok named =>
    obtain ⟨h', -, hok, hmade⟩ := resizePagedKVBundle_of_valid hi hv
    exact Or.inl ⟨h', hok, hmade⟩

end Ninfer.PagedKV
