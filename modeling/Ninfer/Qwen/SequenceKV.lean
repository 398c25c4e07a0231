import Ninfer.Qwen.Lane

/-!
# The KV bundle of a lane

`program_impl.h`: a lane owns an allocation of the text cache and, with a speculative backend, one
of the backend's cache, both bound to the block-table row of the lane while a request runs. The
operations below act on the two allocations together. They change no other lane's allocations, and
what they do to the lane's own is said by how many pages are mapped and entitled and which row is
bound.

## Main definitions

* `reserveSequenceKv`, `resizeSequenceKvEntitlement`, `bindSequenceKv`, `unbindSequenceKv`,
  `trimSequenceKv`, `releaseSequenceGrowthEntitlement`, `resetKv`
* `AllocView`, `BundleView`, `Owns`: what a lane's allocations look like
* `KvInv`: the heap's invariant, with every allocation in its own pool and row

## Main results

* the specification of each operation, ending in `_spec`
-/

namespace Ninfer.Qwen

open PagedKV

variable {n : Nat} (cfg : Config n)

/-- The heap of a program. -/
abbrev KvHeap (n : Nat) := Heap Cache (Fin n × Cache)

/-- Destroying `sequence.kv`: the allocations go back to their pools. -/
def resetKv (l : Fin n) (h : KvHeap n) : KvHeap n := release (l, .backend) (release (l, .text) h)

/-- `reserve_sequence_kv`. The allocations are constructed in place. -/
def reserveSequenceKv (l : Fin n) (kv : Option SequenceKVBundle) (textPages backendPages : Nat) :
    Call (KvHeap n) SequenceKVBundle := fun h =>
  if kv.isSome then .error (.logicError "sequence already owns a KV allocation bundle") h
  else if textPages = 0 ∨ cfg.hasBackend ≠ decide (backendPages ≠ 0) then
    .error (.invalidArgument "KV allocation entitlement does not match the active backend") h
  else
    (do reservePagedKVBundle
          (if cfg.hasBackend then
            [⟨some .text, textPages, (l, .text)⟩, ⟨some .backend, backendPages, (l, .backend)⟩]
          else [⟨some .text, textPages, (l, .text)⟩])
        pure ⟨cfg.hasBackend⟩ : Call (KvHeap n) SequenceKVBundle) h

/-- `resize_sequence_kv_entitlement`. -/
def resizeSequenceKvEntitlement (l : Fin n) (kv : Option SequenceKVBundle)
    (textPages backendPages : Nat) : Call (KvHeap n) Unit := fun h =>
  match kv with
  | none => .error (.invalidArgument "KV resize entitlement does not match the sequence bundle") h
  | some bundle =>
    if textPages = 0 ∨ bundle.backend ≠ decide (backendPages ≠ 0) then
      .error (.invalidArgument "KV resize entitlement does not match the sequence bundle") h
    else
      resizePagedKVBundle
        (if bundle.backend then
          [⟨some (l, .text), (h.allocs (l, .text)).mappedPageCount, textPages⟩,
            ⟨some (l, .backend), (h.allocs (l, .backend)).mappedPageCount, backendPages⟩]
        else [⟨some (l, .text), (h.allocs (l, .text)).mappedPageCount, textPages⟩]) h

/-- `unbind_sequence_kv`. -/
def unbindSequenceKv (l : Fin n) (kv : Option SequenceKVBundle) (h : KvHeap n) : KvHeap n :=
  match kv with
  | none => h
  | some bundle =>
    unbindRow (l, .text) (if bundle.backend then unbindRow (l, .backend) h else h)

/-- `bind_sequence_kv`. When the backend allocation cannot be bound, the text allocation is unbound
again. -/
def bindSequenceKv (l : Fin n) (kv : Option SequenceKVBundle) : Call (KvHeap n) Unit := fun h =>
  match kv with
  | none => .error (.logicError "KV allocation bundle is unavailable or already bound") h
  | some bundle =>
    if 0 ≤ (h.allocs (l, .text)).boundRow ∨
        (bundle.backend ∧ 0 ≤ (h.allocs (l, .backend)).boundRow) then
      .error (.logicError "KV allocation bundle is unavailable or already bound") h
    else
      (do bindRow (l, .text) (l : Nat)
          Call.handle (if bundle.backend then bindRow (l, .backend) (l : Nat) else pure ())
            fun e h' => .error e (unbindRow (l, .text)
              (if 0 ≤ (h'.allocs (l, .backend)).boundRow then unbindRow (l, .backend) h' else h')) :
        Call (KvHeap n) Unit) h

/-- The `materialize_tokens` calls of `materialize_sequence_kv`: one cache grows when the tokens do
not fit its mapped pages. -/
def growTo (a : Fin n × Cache) (tokens : Nat) : Call (KvHeap n) Unit := fun h =>
  if (h.allocs a).mappedTokenCapacity < tokens then materializeTokens a tokens h else .ok () h

/-- `trim_sequence_kv`. -/
def trimSequenceKv (l : Fin n) (kv : Option SequenceKVBundle) (mainTokens backendTokens : Nat) :
    Call (KvHeap n) Unit := fun h =>
  match kv with
  | none => .error (.logicError "KV trim request is outside the sequence bundle") h
  | some bundle =>
    if cfg.capacity < mainTokens ∨ mainTokens < backendTokens then
      .error (.logicError "KV trim request is outside the sequence bundle") h
    else if backendTokens ≠ 0 ∧ !bundle.backend then
      .error (.logicError "backend KV trim requested without an allocation") h
    else
      (do trimTokens (l, .text) mainTokens
          if bundle.backend then trimTokens (l, .backend) backendTokens else pure () :
        Call (KvHeap n) Unit) h

/-- `release_sequence_growth_entitlement`. -/
def releaseSequenceGrowthEntitlement (l : Fin n) (kv : Option SequenceKVBundle) (h : KvHeap n) :
    KvHeap n :=
  match kv with
  | none => h
  | some bundle =>
    let h' := cancelUnmappedEntitlement (l, .text) h
    if bundle.backend then cancelUnmappedEntitlement (l, .backend) h' else h'

/-! ## Views -/

/-- What an allocation looks like: how many pages are mapped and entitled, and the row. -/
structure AllocView where
  mapped : Nat
  entitled : Nat
  row : Int
  deriving DecidableEq, Repr

/-- The views of the two allocations of a lane; without a backend the second one says nothing. -/
structure BundleView where
  text : AllocView
  backend : AllocView
  deriving DecidableEq, Repr

/-- The allocation at `a` is alive in its pool and looks like `v`. -/
structure Owns (h : KvHeap n) (a : Fin n × Cache) (v : AllocView) : Prop where
  pool : (h.allocs a).pool = some a.2
  mapped : (h.allocs a).pageIds.length = v.mapped
  entitled : (h.allocs a).pageEntitlement = v.entitled
  row : (h.allocs a).boundRow = v.row

/-- The lane's bundle looks like `v`. -/
structure OwnsBundle (h : KvHeap n) (l : Fin n) (v : BundleView) : Prop where
  text : Owns h (l, .text) v.text
  backend : cfg.hasBackend = true → Owns h (l, .backend) v.backend
  none : cfg.hasBackend = false → h.allocs (l, .backend) = {}

/-- The lane owns nothing. -/
def OwnsNothing (h : KvHeap n) (l : Fin n) : Prop := ∀ c, h.allocs (l, c) = {}

/-- The invariant of a program's heap: the books balance, and the allocation of a lane in a cache
belongs to the pool of that cache and is bound to the row of the lane, if at all. -/
structure KvInv (h : KvHeap n) : Prop where
  heap : HeapInv cfg.pools h
  pool : ∀ a : Fin n × Cache, (h.allocs a).pool = none ∨ (h.allocs a).pool = some a.2
  row : ∀ a : Fin n × Cache, (h.allocs a).boundRow = -1 ∨ (h.allocs a).boundRow = (a.1 : Nat)

/-- No other lane's allocations have changed. -/
def OnlyLane (l : Fin n) (h h' : KvHeap n) : Prop :=
  ∀ m, m ≠ l → ∀ c, h'.allocs (m, c) = h.allocs (m, c)

variable {cfg} {h : KvHeap n} {l : Fin n} {a : Fin n × Cache} {v : AllocView}

theorem kvInv_init : KvInv cfg (Heap.init cfg.pools) where
  heap := heapInv_init cfg.pools
  pool := fun _ => Or.inl rfl
  row := fun _ => Or.inl rfl

theorem OnlyLane.refl (l : Fin n) (h : KvHeap n) : OnlyLane l h h := fun _ _ _ => rfl

theorem OnlyLane.trans {h₁ h₂ h₃ : KvHeap n} (h₁₂ : OnlyLane l h₁ h₂) (h₂₃ : OnlyLane l h₂ h₃) :
    OnlyLane l h₁ h₃ :=
  fun m hm c => (h₂₃ m hm c).trans (h₁₂ m hm c)

/-- An exchange with the pool of the cache keeps the invariant of the program's heap. -/
theorem KvInv.put (hi : KvInv cfg h) {pool' : PagedKVPool} {x' : PagedKVAllocation Cache}
    (he : HeapInv cfg.pools (h.put a.2 pool' a x')) (hp : x'.pool = none ∨ x'.pool = some a.2)
    (hr : x'.boundRow = -1 ∨ x'.boundRow = (a.1 : Nat)) : KvInv cfg (h.put a.2 pool' a x') where
  heap := he
  pool := by
    intro b
    by_cases hb : b = a
    · subst hb
      rw [Heap.put_allocs]
      exact hp
    · rw [Heap.put_allocs_of_ne _ hb]
      exact hi.pool b
  row := by
    intro b
    by_cases hb : b = a
    · subst hb
      rw [Heap.put_allocs]
      exact hr
    · rw [Heap.put_allocs_of_ne _ hb]
      exact hi.row b

theorem Owns.congr {h' : KvHeap n} (ho : Owns h a v) (heq : h'.allocs a = h.allocs a) :
    Owns h' a v :=
  ⟨heq ▸ ho.pool, heq ▸ ho.mapped, heq ▸ ho.entitled, heq ▸ ho.row⟩

theorem OwnsBundle.congr {h' : KvHeap n} {v : BundleView} (ho : OwnsBundle cfg h l v)
    (heq : ∀ c, h'.allocs (l, c) = h.allocs (l, c)) : OwnsBundle cfg h' l v where
  text := ho.text.congr (heq .text)
  backend := fun hb => (ho.backend hb).congr (heq .backend)
  none := fun hb => (heq .backend).trans (ho.none hb)

/-! ## One allocation -/

/-- One allocation has become what `v'` says, and no other one has changed. -/
structure Became (cfg : Config n) (a : Fin n × Cache) (h h' : KvHeap n) (v' : AllocView) :
    Prop where
  inv : KvInv cfg h'
  owns : Owns h' a v'
  frame : ∀ b, b ≠ a → h'.allocs b = h.allocs b

theorem Became.only {h' : KvHeap n} {v' : AllocView} (hb : Became cfg a h h' v') :
    OnlyLane a.1 h h' :=
  fun m hm c => hb.frame (m, c) fun heq => hm (by rw [← heq])

/-- An exchange of a live allocation with its pool. -/
theorem became_put (hi : KvInv cfg h) {pool' : PagedKVPool} {x' : PagedKVAllocation Cache}
    (he : Exchange a.2 (h.pools a.2) (h.allocs a) pool' x') {v' : AllocView}
    (hp : x'.pool = some a.2) (hm : x'.pageIds.length = v'.mapped)
    (hent : x'.pageEntitlement = v'.entitled) (hr : x'.boundRow = v'.row)
    (hrow : v'.row = -1 ∨ v'.row = (a.1 : Nat)) :
    Became cfg a h (h.put a.2 pool' a x') v' where
  inv := hi.put (hi.heap.exchange he) (Or.inr hp) (hr ▸ hrow)
  owns := by
    constructor <;> rw [Heap.put_allocs] <;> assumption
  frame := fun b hb => Heap.put_allocs_of_ne _ hb ..

theorem Owns.row_mem (hi : KvInv cfg h) (ho : Owns h a v) :
    v.row = -1 ∨ v.row = (a.1 : Nat) :=
  ho.row ▸ hi.row a

/-- The tokens fit `pages` pages when their number is at most that of the pages' tokens. -/
theorem pagesForTokens_le_iff {tokens pages : Nat} :
    pagesForTokens tokens ≤ pages ↔ tokens ≤ pages * kPagedKVPageSize := by
  unfold pagesForTokens kPagedKVPageSize
  split_ifs with h
  · omega
  · omega

theorem pagesForTokens_mono {m n : Nat} (h : m ≤ n) : pagesForTokens m ≤ pagesForTokens n :=
  pagesForTokens_le_iff.mpr (h.trans (pagesForTokens_le_iff.mp (Nat.le_refl _)))

theorem pagesForTokens_pos {m : Nat} (h : 0 < m) : 0 < pagesForTokens m := by
  unfold pagesForTokens
  rw [if_neg (by omega)]
  exact Nat.lt_of_lt_of_le Nat.one_pos (Nat.le_add_right ..)

theorem le_pagesForTokens (tokens : Nat) : tokens ≤ pagesForTokens tokens * kPagedKVPageSize :=
  pagesForTokens_le_iff.mp (Nat.le_refl _)

/-- An entitlement small enough that its tokens can be counted. -/
def Countable (v : AllocView) : Prop := v.entitled * kPagedKVPageSize < U32.size

/-- **Growing** inside the entitlement returns, with the pages the tokens need mapped. -/
theorem growTo_spec (hi : KvInv cfg h) (ho : Owns h a v) (hc : Countable v) {tokens : Nat}
    (hfit : pagesForTokens tokens ≤ v.entitled) :
    ∃ h', growTo a tokens h = .ok () h' ∧
      Became cfg a h h' { v with mapped := max v.mapped (pagesForTokens tokens) } := by
  have hrow := ho.row_mem hi
  have hm := hi.heap.mapped_le a
  rw [ho.mapped, ho.entitled] at hm
  have hcap : (h.allocs a).mappedTokenCapacity = v.mapped * kPagedKVPageSize := by
    unfold PagedKVAllocation.mappedTokenCapacity PagedKVAllocation.mappedPageCount
    rw [ho.mapped]
    refine Nat.mod_eq_of_lt (lt_of_le_of_lt ?_ hc)
    exact Nat.mul_le_mul_right _ hm
  unfold growTo
  rw [hcap]
  split_ifs with hlt
  · have hle : v.mapped ≤ pagesForTokens tokens := by
      by_contra hgt
      have := pagesForTokens_le_iff.mp (Nat.le_of_lt (Nat.not_le.mp hgt))
      omega
    have hlo : (h.allocs a).pageIds.length ≤ pagesForTokens tokens := ho.mapped ▸ hle
    have hhi : pagesForTokens tokens ≤ (h.allocs a).pageEntitlement := ho.entitled ▸ hfit
    obtain ⟨acquired, pool', hok, hlen, -, he⟩ := materializePages_spec hi.heap ho.pool hlo hhi
    refine ⟨_, hok, became_put hi he ho.pool ?_ ho.entitled ho.row hrow⟩
    rw [PagedKVAllocation.withPages_pageIds, List.length_append, hlen, Nat.max_eq_right hle]
  · refine ⟨h, rfl, hi, ?_, fun _ _ => rfl⟩
    have hle : pagesForTokens tokens ≤ v.mapped := pagesForTokens_le_iff.mpr (Nat.not_lt.mp hlt)
    rw [Nat.max_eq_left hle]
    exact ho

/-- **Trimming** to tokens whose pages are mapped. -/
theorem trimTokens_spec (hi : KvInv cfg h) (ho : Owns h a v) {tokens : Nat}
    (hle : pagesForTokens tokens ≤ v.mapped) :
    ∃ h', trimTokens a tokens h = .ok () h' ∧
      Became cfg a h h' { v with mapped := pagesForTokens tokens } := by
  have hrow := ho.row_mem hi
  have hlo : pagesForTokens tokens ≤ (h.allocs a).pageIds.length := ho.mapped ▸ hle
  obtain ⟨pool', hok, -, -, he⟩ := trimPages_spec hi.heap ho.pool hlo
  refine ⟨_, hok, became_put hi he ho.pool ?_ ho.entitled ho.row hrow⟩
  rw [PagedKVAllocation.withPages_pageIds, List.length_take, ho.mapped, Nat.min_eq_left hle]

/-- The row of a lane is free in a cache when the lane's allocation there is not bound. -/
theorem KvInv.row_free (hi : KvInv cfg h) (hu : (h.allocs a).boundRow = -1) :
    (h.pools a.2).rowInUse.getD a.1 false = false := by
  have hlt : (a.1 : Nat) < (h.pools a.2).spec.tableRows := by
    rw [hi.heap.spec, cfg.tableRows]
    exact a.1.isLt
  rw [Bool.eq_false_iff, ne_eq, hi.heap.row_iff hlt]
  rintro ⟨b, ⟨hp, hr⟩, -⟩
  have hb₁ : b.1 = a.1 := by
    rcases hi.row b with hb | hb
    · omega
    · exact Fin.ext (by omega)
  have hb₂ : b.2 = a.2 := by
    rcases hi.pool b with hb | hb
    · rw [hb] at hp
      cases hp
    · rw [hb] at hp
      exact Option.some.inj hp
  have : b = a := Prod.ext hb₁ hb₂
  subst this
  omega

/-- **Binding** an unbound allocation to the row of its lane. -/
theorem bindRow_became (hi : KvInv cfg h) (ho : Owns h a v) (hu : v.row = -1) :
    ∃ h', bindRow a ((a.1 : Nat) : Int) h = .ok () h' ∧
      Became cfg a h h' { v with row := (a.1 : Nat) } := by
  have hrow : (h.allocs a).boundRow = -1 := ho.row.trans hu
  have hlt : (a.1 : Nat) < (h.pools a.2).spec.tableRows := by
    rw [hi.heap.spec, cfg.tableRows]
    exact a.1.isLt
  obtain ⟨pool', hok, -, he⟩ := bindRow_spec hi.heap ho.pool (by omega) hlt (hi.row_free hrow)
  exact ⟨_, hok, became_put hi he ho.pool ho.mapped ho.entitled rfl (Or.inr rfl)⟩

/-- **Unbinding.** -/
theorem unbindRow_became (hi : KvInv cfg h) (ho : Owns h a v) :
    Became cfg a h (unbindRow a h) { v with row := -1 } := by
  obtain ⟨pool', heq, -, he⟩ := unbindRow_spec hi.heap ho.pool
  rw [heq]
  exact became_put hi he ho.pool ho.mapped ho.entitled rfl (Or.inl rfl)

/-- **Giving up the unmapped entitlement.** -/
theorem cancelUnmappedEntitlement_became (hi : KvInv cfg h) (ho : Owns h a v) :
    Became cfg a h (cancelUnmappedEntitlement a h) { v with entitled := v.mapped } := by
  have hrow := ho.row_mem hi
  have hm := hi.heap.mapped_le a
  have hle := (hi.heap.books a.2).entitled_le
  have hold := hi.heap.entitled_of_owner a ho.pool
  have hfit : (h.pools a.2).entitledPages - (h.allocs a).pageEntitlement +
      (h.allocs a).pageIds.length ≤ (h.pools a.2).spec.pageGroupCount := by omega
  have he := exchange_replace hi.heap ho.pool (Nat.le_refl _) hfit
  unfold cancelUnmappedEntitlement
  rw [ho.pool]
  exact became_put hi he ho.pool ho.mapped ho.mapped ho.row hrow

/-- **Releasing** leaves the default object. -/
theorem release_became (hi : KvInv cfg h) (a : Fin n × Cache) :
    KvInv cfg (release a h) ∧ (release a h).allocs a = {} ∧
      ∀ b, b ≠ a → (release a h).allocs b = h.allocs b := by
  rcases hi.pool a with hd | ha
  · rw [release_dead hd]
    exact ⟨hi, (hi.heap.alloc a).dead hd, fun _ _ => rfl⟩
  · obtain ⟨pool', heq, -, hi'⟩ := release_spec hi.heap ha
    rw [heq]
    refine ⟨hi.put hi' (Or.inl rfl) (Or.inl rfl), Heap.put_allocs .., fun b hb => ?_⟩
    exact Heap.put_allocs_of_ne _ hb ..

/-- The entitlement an allocation holds in the pool of its cache. -/
theorem KvInv.entitledShare_eq (hi : KvInv cfg h) (l : Fin n) (c : Cache) :
    entitledShare c (h.allocs (l, c)) = (h.allocs (l, c)).pageEntitlement := by
  unfold entitledShare
  rcases hi.pool (l, c) with hd | ha
  · rw [(hi.heap.alloc _).dead hd]
    rfl
  · exact if_pos ha

/-- **The balance of one lane**: what its entitlement grows by, the pool's total grows by. -/
theorem KvInv.entitled_balance {h' : KvHeap n} (hi : KvInv cfg h) (hi' : KvInv cfg h')
    (hon : OnlyLane l h h') (c : Cache) :
    (h'.pools c).entitledPages + (h.allocs (l, c)).pageEntitlement =
      (h.pools c).entitledPages + (h'.allocs (l, c)).pageEntitlement := by
  have others : ∑ b ∈ Finset.univ.erase (l, c), entitledShare c (h'.allocs b) =
      ∑ b ∈ Finset.univ.erase (l, c), entitledShare c (h.allocs b) := by
    refine Finset.sum_congr rfl fun b hb => ?_
    have hne := Finset.ne_of_mem_erase hb
    by_cases hl : b.1 = l
    · -- The other allocation of the lane belongs to the other pool.
      have hc : b.2 ≠ c := fun hc => hne (Prod.ext hl hc)
      have hzero : ∀ {h : KvHeap n}, KvInv cfg h → entitledShare c (h.allocs b) = 0 := by
        intro h hi
        refine if_neg fun hp => ?_
        rcases hi.pool b with hd | ha
        · rw [hd] at hp
          cases hp
        · rw [ha] at hp
          exact hc (Option.some.inj hp)
      rw [hzero hi, hzero hi']
    · rw [hon b.1 hl b.2]
  rw [(hi.heap.books c).entitled, (hi'.heap.books c).entitled, outstanding_eq_add _ _ (l, c),
    outstanding_eq_add _ h.allocs (l, c), others, hi.entitledShare_eq, hi'.entitledShare_eq]
  omega

/-! ## The bundle -/

/-- The bundle of the lane has become what `v'` says, and no other lane's has changed. -/
structure BundleBecame (cfg : Config n) (l : Fin n) (h h' : KvHeap n) (v' : BundleView) : Prop where
  inv : KvInv cfg h'
  owns : OwnsBundle cfg h' l v'
  only : OnlyLane l h h'

variable {w : BundleView}

/-- The bundle a program with the configured backend gives its lanes. -/
def Config.bundle (cfg : Config n) : SequenceKVBundle := ⟨cfg.hasBackend⟩

theorem Config.bundle_of_true (hbk : cfg.hasBackend = true) : cfg.bundle = ⟨true⟩ := by
  rw [Config.bundle, hbk]

theorem Config.bundle_of_false (hbk : cfg.hasBackend = false) : cfg.bundle = ⟨false⟩ := by
  rw [Config.bundle, hbk]

theorem backend_ne_text (l : Fin n) : ((l, .backend) : Fin n × Cache) ≠ (l, .text) := by
  simp

theorem BundleBecame.trans {h₁ h₂ : KvHeap n} {w₁ w₂ : BundleView}
    (hb₁ : BundleBecame cfg l h h₁ w₁) (hb₂ : BundleBecame cfg l h₁ h₂ w₂) :
    BundleBecame cfg l h h₂ w₂ :=
  ⟨hb₂.inv, hb₂.owns, hb₁.only.trans hb₂.only⟩

/-- The text allocation changes and then, with a backend, the backend allocation. -/
theorem bundleBecame_of {h₁ h₂ : KvHeap n} {t b : AllocView} (ho : OwnsBundle cfg h l w)
    (ht : Became cfg (l, .text) h h₁ t)
    (hb : cfg.hasBackend = true → Became cfg (l, .backend) h₁ h₂ b)
    (hn : cfg.hasBackend = false → h₂ = h₁) : BundleBecame cfg l h h₂ ⟨t, b⟩ := by
  cases hbk : cfg.hasBackend with
  | true =>
    have hb := hb hbk
    refine ⟨hb.inv, ⟨?_, fun _ => hb.owns, fun hf => ?_⟩, ht.only.trans hb.only⟩
    · exact ht.owns.congr (hb.frame _ (backend_ne_text l).symm)
    · rw [hbk] at hf
      cases hf
  | false =>
    obtain rfl := hn hbk
    refine ⟨ht.inv, ⟨ht.owns, fun hf => ?_, fun _ => ?_⟩, ht.only⟩
    · rw [hbk] at hf
      cases hf
    · rw [ht.frame _ (backend_ne_text l)]
      exact ho.none hbk

/-- The backend allocation after the text allocation has changed. -/
theorem OwnsBundle.backend_of {h₁ : KvHeap n} {t : AllocView} (ho : OwnsBundle cfg h l w)
    (ht : Became cfg (l, .text) h h₁ t) (hbk : cfg.hasBackend = true) :
    Owns h₁ (l, .backend) w.backend :=
  (ho.backend hbk).congr (ht.frame _ (backend_ne_text l))

/-- Either there is a backend, or the lane's bundle has no backend allocation. -/
theorem absurd_backend {p : Prop} (hbk : cfg.hasBackend = true) (hf : cfg.hasBackend = false) : p :=
  absurd (hbk.symm.trans hf) (by simp)

/-- **`trim_sequence_kv`** keeps the pages of the tokens asked for. -/
theorem trimSequenceKv_spec (hi : KvInv cfg h) (ho : OwnsBundle cfg h l w) {main back : Nat}
    (hcap : main ≤ cfg.capacity) (hle : back ≤ main) (hnone : cfg.hasBackend = false → back = 0)
    (ht : pagesForTokens main ≤ w.text.mapped)
    (hb : cfg.hasBackend = true → pagesForTokens back ≤ w.backend.mapped) :
    ∃ h', trimSequenceKv cfg l (some cfg.bundle) main back h = .ok () h' ∧
      BundleBecame cfg l h h' ⟨{ w.text with mapped := pagesForTokens main },
        { w.backend with mapped := pagesForTokens back }⟩ := by
  obtain ⟨h₁, hok₁, hb₁⟩ := trimTokens_spec hi ho.text ht
  rcases Bool.eq_false_or_eq_true cfg.hasBackend with hbk | hbk
  · obtain ⟨h₂, hok₂, hb₂⟩ := trimTokens_spec hb₁.inv (ho.backend_of hb₁ hbk) (hb hbk)
    refine ⟨h₂, ?_, bundleBecame_of ho hb₁ (fun _ => hb₂) (absurd_backend hbk)⟩
    rw [Config.bundle_of_true hbk]
    simp only [trimSequenceKv, bind, EStateM.bind, if_true, hok₁]
    rw [if_neg (by omega), if_neg (by simp)]
    exact hok₂
  · refine ⟨h₁, ?_, bundleBecame_of ho hb₁ (fun ht => absurd_backend ht hbk) fun _ => rfl⟩
    rw [Config.bundle_of_false hbk]
    simp only [trimSequenceKv, bind, EStateM.bind, hok₁]
    rw [if_neg (by omega), if_neg (by simp [hnone hbk])]
    rfl

/-- **`bind_sequence_kv`** binds an unbound bundle to the row of the lane. -/
theorem bindSequenceKv_spec (hi : KvInv cfg h) (ho : OwnsBundle cfg h l w)
    (ht : w.text.row = -1) (hb : cfg.hasBackend = true → w.backend.row = -1) :
    ∃ h', bindSequenceKv l (some cfg.bundle) h = .ok () h' ∧
      BundleBecame cfg l h h' ⟨{ w.text with row := (l : Nat) },
        { w.backend with row := (l : Nat) }⟩ := by
  obtain ⟨h₁, hok₁, hb₁⟩ := bindRow_became hi ho.text ht
  have hrow := ho.text.row
  rcases Bool.eq_false_or_eq_true cfg.hasBackend with hbk | hbk
  · have hbrow := (ho.backend hbk).row
    have hbv := hb hbk
    obtain ⟨h₂, hok₂, hb₂⟩ := bindRow_became hb₁.inv (ho.backend_of hb₁ hbk) hbv
    refine ⟨h₂, ?_, bundleBecame_of ho hb₁ (fun _ => hb₂) (absurd_backend hbk)⟩
    rw [Config.bundle_of_true hbk]
    simp only [bindSequenceKv, bind, EStateM.bind, true_and, if_true]
    rw [if_neg (by omega), hok₁]
    simp only [Call.handle, hok₂]
  · refine ⟨h₁, ?_, bundleBecame_of ho hb₁ (fun ht => absurd_backend ht hbk) fun _ => rfl⟩
    rw [Config.bundle_of_false hbk]
    simp only [bindSequenceKv, bind, EStateM.bind, Bool.false_eq_true, false_and, or_false]
    rw [if_neg (by omega), hok₁]
    rfl

/-- **`unbind_sequence_kv`** unbinds both allocations. -/
theorem unbindSequenceKv_spec (hi : KvInv cfg h) (ho : OwnsBundle cfg h l w) :
    BundleBecame cfg l h (unbindSequenceKv l (some cfg.bundle) h)
      ⟨{ w.text with row := -1 }, { w.backend with row := -1 }⟩ := by
  rcases Bool.eq_false_or_eq_true cfg.hasBackend with hbk | hbk
  · have hb₁ := unbindRow_became hi (ho.backend hbk)
    have hb₂ := unbindRow_became hb₁.inv (ho.text.congr (hb₁.frame _ (backend_ne_text l).symm))
    rw [Config.bundle_of_true hbk]
    refine ⟨hb₂.inv, ⟨hb₂.owns, fun _ => ?_, absurd_backend hbk⟩, hb₁.only.trans hb₂.only⟩
    exact hb₁.owns.congr (hb₂.frame _ (backend_ne_text l))
  · have hb₁ := unbindRow_became hi ho.text
    rw [Config.bundle_of_false hbk]
    exact bundleBecame_of ho hb₁ (fun ht => absurd_backend ht hbk) fun _ => rfl

/-- **`release_sequence_growth_entitlement`** leaves the mapped pages entitled. -/
theorem releaseSequenceGrowthEntitlement_spec (hi : KvInv cfg h) (ho : OwnsBundle cfg h l w) :
    BundleBecame cfg l h (releaseSequenceGrowthEntitlement l (some cfg.bundle) h)
      ⟨{ w.text with entitled := w.text.mapped }, { w.backend with entitled := w.backend.mapped }⟩ := by
  have hb₁ := cancelUnmappedEntitlement_became hi ho.text
  rcases Bool.eq_false_or_eq_true cfg.hasBackend with hbk | hbk
  · rw [Config.bundle_of_true hbk]
    exact bundleBecame_of ho hb₁
      (fun _ => cancelUnmappedEntitlement_became hb₁.inv (ho.backend_of hb₁ hbk))
      (absurd_backend hbk)
  · rw [Config.bundle_of_false hbk]
    exact bundleBecame_of ho hb₁ (fun ht => absurd_backend ht hbk) fun _ => rfl

/-- **Destroying the bundle** leaves the lane without allocations. -/
theorem resetKv_spec (hi : KvInv cfg h) (l : Fin n) :
    KvInv cfg (resetKv l h) ∧ OwnsNothing (resetKv l h) l ∧ OnlyLane l h (resetKv l h) := by
  obtain ⟨hi₁, hd₁, hf₁⟩ := release_became hi (l, .text)
  obtain ⟨hi₂, hd₂, hf₂⟩ := release_became hi₁ (l, .backend)
  refine ⟨hi₂, ?_, ?_⟩
  · intro c
    cases c with
    | text => exact (hf₂ _ (backend_ne_text l).symm).trans hd₁
    | backend => exact hd₂
  · intro m hm c
    have hne : ∀ c', ((m, c) : Fin n × Cache) ≠ (l, c') := by
      intro c' heq
      exact hm (congrArg Prod.fst heq)
    exact (hf₂ _ (hne _)).trans (hf₁ _ (hne _))

/-- What a pool can give a lane that gives up what it has there: the test of `can_admit_lane`. -/
def CanReplace (h : KvHeap n) (l : Fin n) (c : Cache) (pages : Nat) : Prop :=
  (h.pools c).canReplaceEntitlement (h.allocs (l, c)).pageEntitlement pages = true

/-- The test reads the lane's entitlement and the pool's total, and these move together. -/
theorem CanReplace.of_onlyLane {h' : KvHeap n} {c : Cache} {pages : Nat}
    (hr : CanReplace h l c pages) (hi : KvInv cfg h) (hi' : KvInv cfg h')
    (hon : OnlyLane l h h') : CanReplace h' l c pages := by
  have hbal := hi.entitled_balance hi' hon c
  unfold CanReplace at hr ⊢
  rw [canReplaceEntitlement_iff (hi.heap.books c), hi.heap.spec] at hr
  rw [canReplaceEntitlement_iff (hi'.heap.books c), hi'.heap.spec]
  omega

/-- A lane that owns nothing can reserve what it could have replaced. -/
theorem CanReplace.canReserve {c : Cache} {pages : Nat} (hr : CanReplace h l c pages)
    (hi : KvInv cfg h) (hn : OwnsNothing h l) (hp : pages ≠ 0) :
    (h.pools c).canReserve pages = true := by
  unfold CanReplace at hr
  rw [canReplaceEntitlement_iff (hi.heap.books c), hn c] at hr
  rw [canReserve_iff (hi.heap.books c)]
  exact ⟨hp, hr.2.1, by simpa using hr.2.2⟩

/-- The allocations of a lane after a heap call on it keep the invariant of rows and pools. -/
theorem kvInv_of_onlyLane {h' : KvHeap n} (hi : KvInv cfg h) (hh : HeapInv cfg.pools h')
    (hon : OnlyLane l h h')
    (hl : ∀ c, ((h'.allocs (l, c)).pool = none ∨ (h'.allocs (l, c)).pool = some c) ∧
      ((h'.allocs (l, c)).boundRow = -1 ∨ (h'.allocs (l, c)).boundRow = (l : Nat))) :
    KvInv cfg h' where
  heap := hh
  pool := by
    rintro ⟨m, c⟩
    by_cases hm : m = l
    · exact hm ▸ (hl c).1
    · rw [hon m hm c]
      exact hi.pool (m, c)
  row := by
    rintro ⟨m, c⟩
    by_cases hm : m = l
    · exact hm ▸ (hl c).2
    · rw [hon m hm c]
      exact hi.row (m, c)

theorem owns_of_reserved {h' : KvHeap n} {pages : Nat}
    (heq : h'.allocs a = { pool := some a.2, pageEntitlement := pages }) :
    Owns h' a ⟨0, pages, -1⟩ := by
  constructor <;> simp [heq]

/-- **`reserve_sequence_kv`** gives a lane that owns nothing the pages asked for. -/
theorem reserveSequenceKv_spec (hi : KvInv cfg h) (hn : OwnsNothing h l) {text back : Nat}
    (ht : text ≠ 0) (hb : cfg.hasBackend = decide (back ≠ 0))
    (hct : CanReplace h l .text text)
    (hcb : cfg.hasBackend = true → CanReplace h l .backend back) :
    ∃ h', reserveSequenceKv cfg l none text back h = .ok cfg.bundle h' ∧
      BundleBecame cfg l h h' ⟨⟨0, text, -1⟩, ⟨0, back, -1⟩⟩ := by
  have hrt := hct.canReserve hi hn ht
  unfold reserveSequenceKv
  rw [if_neg (by simp), if_neg (by simp [ht, hb])]
  -- With a backend both reservations are one bundle, else there is only that of the text cache.
  rcases Bool.eq_false_or_eq_true cfg.hasBackend with hbk | hbk
  · have hz : back ≠ 0 := by simpa [hbk] using hb
    have hrb := (hcb hbk).canReserve hi hn hz
    have hv : validateReservations [⟨some .text, text, (l, .text)⟩, ⟨some .backend, back, (l, .backend)⟩]
        h = .ok [(Cache.text, text, (l, .text)), (Cache.backend, back, (l, .backend))] := by
      simp [validateReservations, validateDistinctPools, ht, hz, hrt, hrb, Except.map]
    have hf : FreshTargets h [⟨some .text, text, (l, .text)⟩, ⟨some .backend, back, (l, .backend)⟩] := by
      refine ⟨by simp, ?_⟩
      intro r hr
      simp only [List.mem_cons, List.not_mem_nil, or_false] at hr
      rcases hr with rfl | rfl
      · rw [hn .text]
      · rw [hn .backend]
    rcases reservePagedKVBundle_spec hi.heap hf with ⟨h', hok, hh, hmade⟩ | ⟨e, he, -⟩
    · have hat := hmade.allocs _ (List.mem_cons_self ..)
      have hab := hmade.allocs _ (List.mem_cons_of_mem _ (List.mem_cons_self ..))
      have hon : OnlyLane l h h' := by
        intro m hm c
        refine hmade.other_allocs (m, c) ?_
        simp [hm]
      refine ⟨h', ?_, kvInv_of_onlyLane hi hh hon ?_, 
        ⟨owns_of_reserved hat, fun _ => owns_of_reserved hab, absurd_backend hbk⟩, hon⟩
      · simp only [if_true, bind, EStateM.bind, hok, hbk, Config.bundle]
        rfl
      · intro c
        cases c
        · rw [hat]
          simp
        · rw [hab]
          simp
    · rw [hv] at he
      cases he
  · have hv : validateReservations [⟨some .text, text, (l, .text)⟩] h =
        .ok [(Cache.text, text, (l, .text))] := by
      simp [validateReservations, validateDistinctPools, ht, hrt, Except.map]
    have hf : FreshTargets h [⟨some .text, text, (l, .text)⟩] := by
      refine ⟨by simp, ?_⟩
      intro r hr
      rw [List.mem_singleton] at hr
      subst hr
      rw [hn .text]
    rcases reservePagedKVBundle_spec hi.heap hf with ⟨h', hok, hh, hmade⟩ | ⟨e, he, -⟩
    · have hat := hmade.allocs _ (List.mem_cons_self ..)
      have hab : h'.allocs (l, .backend) = h.allocs (l, .backend) :=
        hmade.other_allocs _ (by simp)
      have hon : OnlyLane l h h' := by
        intro m hm c
        refine hmade.other_allocs (m, c) ?_
        simp [hm]
      refine ⟨h', ?_, kvInv_of_onlyLane hi hh hon ?_, 
        ⟨owns_of_reserved hat, fun hf => absurd_backend hf hbk, fun _ => hab.trans (hn .backend)⟩,
        hon⟩
      · simp only [Bool.false_eq_true, if_false, bind, EStateM.bind, hok, hbk, Config.bundle]
        rfl
      · intro c
        cases c
        · rw [hat]
          simp
        · rw [hab, hn .backend]
          simp
    · rw [hv] at he
      cases he

theorem Owns.resized {h' : KvHeap n} {pages : Nat} (ho : Owns h a v)
    (heq : h'.allocs a = { h.allocs a with
      pageIds := (h.allocs a).pageIds.take (h.allocs a).pageIds.length
      pageEntitlement := pages }) : Owns h' a { v with entitled := pages } where
  pool := by rw [heq]; exact ho.pool
  mapped := by rw [heq, List.take_length]; exact ho.mapped
  entitled := by rw [heq]
  row := by rw [heq]; exact ho.row

/-- One change of `resize_sequence_kv_entitlement` passes the checks of the bundle. -/
theorem validateResizes_cons (ho : Owns h a v) {pages : Nat} (hle : v.mapped ≤ pages)
    (hc : CanReplace h a.1 a.2 pages) {seen : List Cache} (hs : a.2 ∉ seen)
    (rest : List (PagedKVResize (Fin n × Cache))) :
    validateResizes h seen (⟨some a, (h.allocs a).mappedPageCount, pages⟩ :: rest) =
      (validateResizes h (a.2 :: seen) rest).map ((a, v.mapped, pages) :: ·) := by
  have hm : (h.allocs a).mappedPageCount = v.mapped := ho.mapped
  rw [validateResizes]
  simp only [ho.pool, hm, Nat.lt_irrefl, false_or, if_neg (Nat.not_lt.mpr hle), if_neg hs]
  exact if_pos hc

/-- **`resize_sequence_kv_entitlement`** changes the entitlements of the bundle. -/
theorem resizeSequenceKvEntitlement_spec (hi : KvInv cfg h) (ho : OwnsBundle cfg h l w)
    {text back : Nat} (ht : text ≠ 0) (hb : cfg.hasBackend = decide (back ≠ 0))
    (hlt : w.text.mapped ≤ text) (hlb : cfg.hasBackend = true → w.backend.mapped ≤ back)
    (hct : CanReplace h l .text text)
    (hcb : cfg.hasBackend = true → CanReplace h l .backend back) :
    ∃ h', resizeSequenceKvEntitlement l (some cfg.bundle) text back h = .ok () h' ∧
      BundleBecame cfg l h h' ⟨{ w.text with entitled := text },
        { w.backend with entitled := back }⟩ := by
  have hpool : ∀ {h' : KvHeap n} {c : Cache} {v : AllocView}, Owns h' (l, c) v →
      ((h'.allocs (l, c)).pool = none ∨ (h'.allocs (l, c)).pool = some c) :=
    fun ho => Or.inr ho.pool
  rcases Bool.eq_false_or_eq_true cfg.hasBackend with hbk | hbk
  · have hz : back ≠ 0 := by simpa [hbk] using hb
    have hob := ho.backend hbk
    obtain ⟨changes, hchanges⟩ : ∃ changes, changes =
      [(⟨some (l, .text), (h.allocs (l, .text)).mappedPageCount, text⟩ : PagedKVResize (Fin n × Cache)),
        ⟨some (l, .backend), (h.allocs (l, .backend)).mappedPageCount, back⟩] := ⟨_, rfl⟩
    have hv : ∃ named, validateResizes h [] changes = .ok named := by
      rw [hchanges, validateResizes_cons ho.text hlt hct (by simp),
        validateResizes_cons hob (hlb hbk) (hcb hbk) (by simp)]
      exact ⟨_, rfl⟩
    obtain ⟨named, hv⟩ := hv
    -- The bundle throws only what its validation throws, and that has passed.
    rcases resizePagedKVBundle_spec hi.heap changes with ⟨h', hok, hh, hmade⟩ | ⟨e, he, -⟩
    · have hat := ho.text.resized (hmade.allocs _ (by rw [hchanges]; exact List.mem_cons_self ..) _ rfl).2
      have hab := hob.resized (hmade.allocs _
        (by rw [hchanges]; exact List.mem_cons_of_mem _ (List.mem_cons_self ..)) _ rfl).2
      have hon : OnlyLane l h h' := by
        intro m hm c
        refine hmade.other_allocs (m, c) ?_
        simp [hchanges, hm]
      refine ⟨h', ?_, kvInv_of_onlyLane hi hh hon ?_, ⟨hat, fun _ => hab, absurd_backend hbk⟩, hon⟩
      · rw [Config.bundle_of_true hbk]
        simp only [resizeSequenceKvEntitlement, ht, if_true]
        rw [← hchanges]
        simpa [hz] using hok
      · intro c
        cases c
        · exact ⟨hpool hat, hat.row ▸ ho.text.row ▸ hi.row (l, .text)⟩
        · exact ⟨hpool hab, hab.row ▸ hob.row ▸ hi.row (l, .backend)⟩
    · rw [hv] at he
      cases he
  · obtain ⟨changes, hchanges⟩ : ∃ changes, changes =
      [(⟨some (l, .text), (h.allocs (l, .text)).mappedPageCount, text⟩ :
        PagedKVResize (Fin n × Cache))] :=
      ⟨_, rfl⟩
    have hz : back = 0 := by simpa [hbk] using hb
    have hv : ∃ named, validateResizes h [] changes = .ok named := by
      rw [hchanges, validateResizes_cons ho.text hlt hct (by simp)]
      exact ⟨_, rfl⟩
    obtain ⟨named, hv⟩ := hv
    rcases resizePagedKVBundle_spec hi.heap changes with ⟨h', hok, hh, hmade⟩ | ⟨e, he, -⟩
    · have hat := ho.text.resized (hmade.allocs _ (by rw [hchanges]; exact List.mem_cons_self ..) _ rfl).2
      have hab : h'.allocs (l, .backend) = h.allocs (l, .backend) :=
        hmade.other_allocs _ (by simp [hchanges])
      have hon : OnlyLane l h h' := by
        intro m hm c
        refine hmade.other_allocs (m, c) ?_
        simp [hchanges, hm]
      refine ⟨h', ?_, kvInv_of_onlyLane hi hh hon ?_, ⟨hat, fun hf => absurd_backend hf hbk,
        fun _ => hab.trans (ho.none hbk)⟩, hon⟩
      · rw [Config.bundle_of_false hbk]
        simp only [resizeSequenceKvEntitlement, ht, hz, Bool.false_eq_true, if_false]
        rw [← hchanges]
        simpa using hok
      · intro c
        cases c
        · exact ⟨hpool hat, hat.row ▸ ho.text.row ▸ hi.row (l, .text)⟩
        · rw [hab]
          exact ⟨hi.pool (l, .backend), hi.row (l, .backend)⟩
    · rw [hv] at he
      cases he

end Ninfer.Qwen
