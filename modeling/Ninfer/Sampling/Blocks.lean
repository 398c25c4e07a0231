import Ninfer.Commons.Bitonic
import Ninfer.Commons.Ranges
import Ninfer.Sampling.Candidates

/-!
# Selection in one block

A column of logits is reduced to its best candidates by one block: a small column is sorted in a
tile, one thread for each token; in a large one every thread keeps the best candidates of the
tokens it visits, and the first thread merges what the threads have kept.

## Main definitions

* `Column`, `Column.best`: a column, and the tokens that are to be selected
* `samplingCandidateCap`: how many
* `samplingBuildTruncatedSmall`, `samplingBuildTruncatedBlockFast`: the two routes

## Main results

* `Column.eq_best`: a list of candidates with the right keys is the right list
* `samplingBuildTruncatedSmall_eq`, `samplingBuildTruncatedBlockFast_eq`: the routes select the
  best candidates
-/

namespace Ninfer.Sampling

/-- `kSamplerFastCandidates`: what a thread keeps. -/
def kSamplerFastCandidates : Nat := 20

/-- `kSamplerCandidateCap`. -/
def kSamplerCandidateCap : Nat := kSamplerFastCandidates

/-! ## Columns -/

/-- The logits of a vocabulary. -/
structure Column where
  vocab : Nat
  vocab_le : vocab ≤ intMax
  logit : Nat → Logit

namespace Column

variable (col : Column)

/-- What a thread loads for an index: the candidate of the token, or the one for none. -/
def load (v : Nat) : Candidate :=
  if h : v < col.vocab then
    { val := col.logit v
      idx := v
      idx_le := (h.trans_le col.vocab_le).le
      none_val := fun heq => absurd heq (h.trans_le col.vocab_le).ne }
  else .none

/-- Token `v` is selected before token `w`: its logit is higher, or equal and `v` is lower. -/
def Before (v w : Nat) : Prop :=
  (col.logit w).rank < (col.logit v).rank ∨
    (col.logit v).rank = (col.logit w).rank ∧ v < w

instance (v w : Nat) : Decidable (col.Before v w) := by
  unfold Before
  infer_instance

/-- The tokens to be selected: the first `cap` ones. -/
def best (cap : Nat) : List Nat :=
  ((List.range col.vocab).insertionSort fun v w => ¬col.Before w v).take cap

/-- The key of a token. -/
def key (v : Nat) : Nat := (samplingSortKey (col.logit v) v).toNat

/-- The keys of the vocabulary. -/
def keys : List Nat := (List.range col.vocab).map col.key

variable {col} {v w cap : Nat}

theorem load_of_lt (h : v < col.vocab) :
    (col.load v).val = col.logit v ∧ (col.load v).idx = v := by
  simp [load, h]

theorem load_of_le (h : col.vocab ≤ v) : col.load v = .none := by
  rw [load, dif_neg (not_lt.mpr h)]

theorem key_load (h : v < col.vocab) : (col.load v).key = col.key v := by
  rw [Candidate.key, (load_of_lt h).1, (load_of_lt h).2, key]

theorem lt_intMax (h : v < col.vocab) : v < intMax := h.trans_le col.vocab_le

theorem key_pos (h : v < col.vocab) : 0 < col.key v :=
  samplingSortKey_pos _ (lt_intMax h)

theorem length_keys : col.keys.length = col.vocab := by
  simp [keys]

/-- The keys are in the order of the tokens. -/
theorem before_iff (hv : v < col.vocab) (hw : w < col.vocab) :
    col.Before v w ↔ col.key w < col.key v := by
  rw [← key_load hv, ← key_load hw, ← samplingBetter_iff, samplingBetter, Bool.or_eq_true,
    Bool.and_eq_true, Logit.gt, Logit.eq, decide_eq_true_iff, decide_eq_true_iff,
    decide_eq_true_iff, (load_of_lt hv).1, (load_of_lt hv).2, (load_of_lt hw).1, (load_of_lt hw).2]
  rfl

theorem key_injOn (hv : v < col.vocab) (hw : w < col.vocab) (h : col.key v = col.key w) :
    v = w := by
  have hidx := samplingKeyIndex_key (col.logit v) (lt_intMax hv)
  rw [BitVec.eq_of_toNat_eq h, samplingKeyIndex_key _ (lt_intMax hw)] at hidx
  exact hidx.symm

/-- The selected tokens have the largest keys. -/
theorem keys_best (cap : Nat) : (col.best cap).map col.key = topK cap col.keys := by
  rw [best, List.map_take, topK, keys,
    List.map_insertionSort (r := fun v w => ¬col.Before w v) (s := (· ≥ ·))]
  intro v hv w hw
  rw [before_iff (List.mem_range.mp hw) (List.mem_range.mp hv), not_lt]

theorem best_lt (h : v ∈ col.best cap) : v < col.vocab :=
  List.mem_range.mp ((List.perm_insertionSort _ _).mem_iff.mp (List.mem_of_mem_take h))

theorem length_best (hcap : cap ≤ col.vocab) : (col.best cap).length = cap := by
  simp [best, List.length_insertionSort, hcap]

/-- The selected tokens are in order, so that no token is selected twice. -/
theorem best_sorted (cap : Nat) : (col.best cap).Pairwise col.Before := by
  have hnodup : (col.best cap).Nodup :=
    ((List.perm_insertionSort _ _).nodup_iff.mpr List.nodup_range).sublist (List.take_sublist _ _)
  have hsorted := (sorted_topK cap col.keys).pairwise
  rw [← keys_best, List.pairwise_map] at hsorted
  refine (hsorted.and hnodup).imp_of_mem fun {v w} hv hw h => ?_
  rw [before_iff (best_lt hv) (best_lt hw)]
  exact lt_of_le_of_ne h.1 fun heq => h.2 (key_injOn (best_lt hv) (best_lt hw) heq.symm)

/-- No other token comes before a selected one. -/
theorem best_before (hv : v ∈ col.best cap) (hw : w < col.vocab) (hnot : w ∉ col.best cap) :
    col.Before v w := by
  have hsplit := List.take_append_drop cap
    ((List.range col.vocab).insertionSort fun v w => ¬col.Before w v)
  have hperm := List.perm_insertionSort (fun v w => ¬col.Before w v) (List.range col.vocab)
  have hmem := hperm.mem_iff.mpr (List.mem_range.mpr hw)
  have hsorted : (((List.range col.vocab).insertionSort fun v w => ¬col.Before w v).map
      col.key).SortedGE := by
    have := sorted_topK col.vocab col.keys
    rw [← keys_best, best, List.take_of_length_le (by simp [List.length_insertionSort])] at this
    exact this
  rw [← hsplit] at hmem hsorted
  rcases List.mem_append.mp hmem with h | h
  · exact absurd h hnot
  · rw [List.map_append] at hsorted
    have hle := (List.pairwise_append.mp hsorted.pairwise).2.2 _ (List.mem_map_of_mem hv) _
      (List.mem_map_of_mem h)
    rw [before_iff (best_lt hv) hw]
    refine lt_of_le_of_ne hle fun heq => hnot ?_
    rwa [key_injOn hw (best_lt hv) heq]

/-- Candidates of the column with the largest keys are those of the selected tokens. -/
theorem eq_best {out : List Candidate} (hkeys : out.map Candidate.key = topK cap col.keys)
    (hload : ∀ c ∈ out, c = .none ∨ ∃ v < col.vocab, c = col.load v) :
    out = (col.best cap).map col.load := by
  -- a candidate is read off its key
  have hread : ∀ v < col.vocab,
      col.load (samplingKeyIndex (BitVec.ofNat 64 (col.key v))) = col.load v := by
    intro v hv
    rw [key, BitVec.ofNat_toNat, BitVec.setWidth_eq, samplingKeyIndex_key _ (lt_intMax hv)]
  have hpos : ∀ c ∈ out, 0 < c.key := by
    intro c hc
    have hmem : c.key ∈ (col.best cap).map col.key := by
      rw [keys_best, ← hkeys]
      exact List.mem_map_of_mem hc
    obtain ⟨v, hv, heq⟩ := List.mem_map.mp hmem
    rw [← heq]
    exact key_pos (best_lt hv)
  have hout : out = (out.map Candidate.key).map fun k =>
      col.load (samplingKeyIndex (BitVec.ofNat 64 k)) := by
    rw [List.map_map]
    refine (List.map_id out).symm.trans (List.map_congr_left fun c hc => ?_)
    rcases hload c hc with rfl | ⟨v, hv, rfl⟩
    · exact absurd (hpos _ hc) (by rw [Candidate.key_none]; omega)
    · rw [Function.comp_apply, key_load hv, hread v hv]
      rfl
  rw [hout, hkeys, ← keys_best, List.map_map]
  exact List.map_congr_left fun v hv => hread v (best_lt hv)

end Column

/-- `sampling_candidate_cap`. -/
def samplingCandidateCap (topK : Int) (vocab : Nat) : Nat :=
  let cap := if 0 < topK ∧ topK < kSamplerCandidateCap then topK.toNat else kSamplerCandidateCap
  if vocab < cap then vocab else cap

theorem samplingCandidateCap_le (topK : Int) (vocab : Nat) :
    samplingCandidateCap topK vocab ≤ kSamplerCandidateCap ∧
      samplingCandidateCap topK vocab ≤ vocab := by
  unfold samplingCandidateCap
  dsimp only
  split_ifs <;> omega

/-! ## A tile -/

section Small

/-- `sampling_sort_tile_desc` on a tile of `2 ^ m` items; `threads` is the order in which the
threads of the block run between two barriers. -/
def samplingSortTileDesc (threads : List Nat) (m : Nat) (tile : Nat → Candidate) :
    Nat → Candidate :=
  Bitonic.network samplingBetter threads m tile

/-- The selection of `sampling_build_truncated_small`. -/
def samplingBuildTruncatedSmall (threads : List Nat) (m : Nat) (col : Column) (cap : Nat) :
    List Candidate :=
  (List.range cap).map (samplingSortTileDesc threads m col.load)

variable {threads : List Nat} {m cap : Nat} {col : Column}

/-- The keys of a tile: those of the vocabulary, and that of no candidate behind them. -/
theorem keys_tile (hvocab : col.vocab ≤ 2 ^ m) :
    ((List.range (2 ^ m)).map col.load).map Candidate.key =
      col.keys ++ List.replicate (2 ^ m - col.vocab) 0 := by
  obtain ⟨n, hn⟩ := Nat.exists_eq_add_of_le hvocab
  rw [hn, List.range_add, List.map_append, List.map_append, Nat.add_sub_cancel_left, List.map_map,
    List.map_map, List.map_map]
  congr 1
  · exact List.map_congr_left fun v hv => Column.key_load (List.mem_range.mp hv)
  · refine List.eq_replicate_iff.mpr ⟨by simp, fun k hk => ?_⟩
    obtain ⟨i, -, rfl⟩ := List.mem_map.mp hk
    rw [Function.comp_apply, Function.comp_apply, Column.load_of_le (by omega), Candidate.key_none]

/-- **The tile route** selects the best candidates. -/
theorem samplingBuildTruncatedSmall_eq (hthreads : threads.Perm (List.range (2 ^ m)))
    (hvocab : col.vocab ≤ 2 ^ m) (hcap : cap ≤ col.vocab) :
    samplingBuildTruncatedSmall threads m col cap = (col.best cap).map col.load := by
  have hlt : ∀ i ∈ threads, i < 2 ^ m := fun i hi =>
    List.mem_range.mp (hthreads.mem_iff.mp hi)
  have hperm := Bitonic.network_perm samplingBetter col.load (le_refl m) hlt
  have hsorted := Bitonic.network_sorted (a := col.load) samplingBetter_iff hthreads
  have htake : samplingBuildTruncatedSmall threads m col cap =
      ((List.range (2 ^ m)).map (samplingSortTileDesc threads m col.load)).take cap := by
    rw [← List.map_take, List.take_range, min_eq_left (hcap.trans hvocab)]
    rfl
  refine Column.eq_best ?_ fun c hc => ?_
  · rw [htake, List.map_take]
    unfold samplingSortTileDesc
    rw [take_eq_topK hsorted (hperm.map _), keys_tile hvocab]
    exact topK_append_replicate (fun _ _ => Nat.zero_le _) (by rw [Column.length_keys]; exact hcap) _
  · rw [htake] at hc
    obtain ⟨v, -, rfl⟩ := List.mem_map.mp (hperm.mem_iff.mp (List.mem_of_mem_take hc))
    rcases Nat.lt_or_ge v col.vocab with h | h
    · exact Or.inr ⟨v, h, rfl⟩
    · exact Or.inl (Column.load_of_le h)

end Small

/-! ## Bounded insertion -/

section Insertion

/-- The loop of `sampling_insert_candidate`: what is worse moves down by one place. -/
def samplingInsertAt (a : Nat → Candidate) (c : Candidate) : Nat → Nat → Candidate
  | 0 => Function.update a 0 c
  | pos + 1 =>
    if samplingBetter c (a pos) then samplingInsertAt (Function.update a (pos + 1) (a pos)) c pos
    else Function.update a (pos + 1) c

/-- `sampling_insert_candidate`. -/
def samplingInsertCandidate (a : Nat → Candidate) (cap : Nat) (c : Candidate) : Nat → Candidate :=
  if cap = 0 ∨ samplingBetter c (a (cap - 1)) = false then a
  else samplingInsertAt a c (cap - 1)

/-- The keys of the first `n` candidates. -/
def window (n : Nat) (a : Nat → Candidate) : List Nat :=
  (List.range n).map fun j => (a j).key

variable {a : Nat → Candidate} {c : Candidate} {pos cap n : Nat}

theorem window_succ (n : Nat) (a : Nat → Candidate) :
    window (n + 1) a = window n a ++ [(a n).key] := by
  simp [window, List.range_succ]

theorem length_window (n : Nat) (a : Nat → Candidate) : (window n a).length = n := by
  simp [window]

theorem window_none (n : Nat) : window n (fun _ => .none) = List.replicate n 0 := by
  refine List.eq_replicate_iff.mpr ⟨length_window _ _, fun k hk => ?_⟩
  obtain ⟨j, -, rfl⟩ := List.mem_map.mp hk
  exact Candidate.key_none

theorem window_update_of_le (hle : n ≤ pos) : window n (Function.update a pos c) = window n a := by
  refine List.map_congr_left fun j hj => ?_
  have hne : j ≠ pos := by
    have := List.mem_range.mp hj
    omega
  rw [Function.update_of_ne hne]

theorem samplingInsertAt_of_lt {j : Nat} (hj : pos < j) : samplingInsertAt a c pos j = a j := by
  induction pos generalizing a with
  | zero => exact Function.update_of_ne (show j ≠ 0 by omega) c a
  | succ pos ih =>
    rw [samplingInsertAt]
    split_ifs with h
    · rw [ih (by omega), Function.update_of_ne (by omega)]
    · exact Function.update_of_ne (show j ≠ pos + 1 by omega) c a

/-- An element that is at least the last one of a list goes before it. -/
theorem orderedInsert_append_of_le {x y : Nat} (s : List Nat) (h : y ≤ x) :
    (s ++ [y]).orderedInsert (· ≥ ·) x = s.orderedInsert (· ≥ ·) x ++ [y] := by
  induction s with
  | nil => simp [h]
  | cons z s ih =>
    rw [List.cons_append, List.orderedInsert_cons, List.orderedInsert_cons, ih]
    split_ifs <;> rfl

/-- An element that is at most everything in a list goes to its end. -/
theorem orderedInsert_of_forall_le {x : Nat} {s : List Nat} (hs : s.SortedGE)
    (h : ∀ y ∈ s, x ≤ y) : s.orderedInsert (· ≥ ·) x = s ++ [x] := by
  refine List.Perm.eq_of_sortedGE (hs.pairwise.orderedInsert x).sortedGE
    (List.pairwise_append.mpr ⟨hs.pairwise, List.pairwise_singleton _ _, ?_⟩).sortedGE ?_
  · intro y hy z hz
    rw [List.mem_singleton.mp hz]
    exact h y hy
  · exact (List.perm_orderedInsert _ x s).trans (List.perm_append_singleton x s).symm

/-- The last element of a sorted window is the least one. -/
theorem le_of_mem_window {k : Nat} (hs : (window (n + 1) a).SortedGE)
    (hk : k ∈ window (n + 1) a) : (a n).key ≤ k := by
  rw [window_succ] at hs hk
  rcases List.mem_append.mp hk with h | h
  · exact (List.pairwise_append.mp hs.pairwise).2.2 _ h _ (List.mem_singleton_self _)
  · exact (List.mem_singleton.mp h).ge

theorem sorted_window_of_succ (hs : (window (n + 1) a).SortedGE) : (window n a).SortedGE := by
  rw [window_succ] at hs
  exact (List.pairwise_append.mp hs.pairwise).1.sortedGE

theorem window_samplingInsertAt (hs : (window pos a).SortedGE) :
    window (pos + 1) (samplingInsertAt a c pos) =
      (window pos a).orderedInsert (· ≥ ·) c.key := by
  induction pos generalizing a with
  | zero => simp [window, samplingInsertAt]
  | succ pos ih =>
    rw [window_succ, samplingInsertAt]
    split_ifs with h
    · have hlt := (samplingBetter_iff _ _).mp h
      have hsame : window pos (Function.update a (pos + 1) (a pos)) = window pos a :=
        window_update_of_le (by omega)
      rw [ih (by rw [hsame]; exact sorted_window_of_succ hs), hsame,
        samplingInsertAt_of_lt (by omega), Function.update_self, window_succ,
        orderedInsert_append_of_le _ hlt.le]
    · have hle := not_lt.mp fun hlt => h ((samplingBetter_iff _ _).mpr hlt)
      rw [window_update_of_le le_rfl, Function.update_self, orderedInsert_of_forall_le hs]
      exact fun k hk => hle.trans (le_of_mem_window hs hk)

/-- **An insertion keeps the best candidates**: the list with the new one, cut to its length. -/
theorem window_samplingInsertCandidate (hs : (window cap a).SortedGE) :
    window cap (samplingInsertCandidate a cap c) =
      ((window cap a).orderedInsert (· ≥ ·) c.key).take cap := by
  cases cap with
  | zero => rfl
  | succ n =>
    have hlen := length_window (n + 1) a
    unfold samplingInsertCandidate
    rw [Nat.add_sub_cancel]
    cases h : samplingBetter c (a n) with
    | true =>
      have hlt := (samplingBetter_iff _ _).mp h
      rw [if_neg (by simp), window_samplingInsertAt (sorted_window_of_succ hs), window_succ,
        orderedInsert_append_of_le _ hlt.le, List.take_left']
      rw [List.orderedInsert_length, length_window]
    | false =>
      have hle := not_lt.mp fun hlt => nomatch h.symm.trans ((samplingBetter_iff _ _).mpr hlt)
      rw [if_pos (Or.inr rfl), orderedInsert_of_forall_le hs, List.take_left' hlen]
      exact fun k hk => hle.trans (le_of_mem_window hs hk)

theorem samplingInsertCandidate_of_le {j : Nat} (hj : cap ≤ j) :
    samplingInsertCandidate a cap c j = a j := by
  unfold samplingInsertCandidate
  split_ifs with h
  · rfl
  · exact samplingInsertAt_of_lt (by omega)

/-- An insertion makes up no candidate. -/
theorem samplingInsertCandidate_mem (a : Nat → Candidate) (cap : Nat) (c : Candidate) (j : Nat) :
    samplingInsertCandidate a cap c j = c ∨ ∃ i, samplingInsertCandidate a cap c j = a i := by
  have hat : ∀ (pos : Nat) (a : Nat → Candidate), samplingInsertAt a c pos j = c ∨
      ∃ i, samplingInsertAt a c pos j = a i := by
    intro pos
    induction pos with
    | zero =>
      intro a
      rw [samplingInsertAt, Function.update_apply]
      split_ifs
      · exact Or.inl rfl
      · exact Or.inr ⟨j, rfl⟩
    | succ pos ih =>
      intro a
      rw [samplingInsertAt]
      split_ifs
      · rcases ih (Function.update a (pos + 1) (a pos)) with h | ⟨i, h⟩
        · exact Or.inl h
        · rw [h, Function.update_apply]
          split_ifs
          · exact Or.inr ⟨pos, rfl⟩
          · exact Or.inr ⟨i, rfl⟩
      · rw [Function.update_apply]
        split_ifs
        · exact Or.inl rfl
        · exact Or.inr ⟨j, rfl⟩
  unfold samplingInsertCandidate
  split_ifs
  · exact Or.inr ⟨j, rfl⟩
  · exact hat _ a

/-- Candidates are inserted one after the other. -/
def insertAll (cap : Nat) (a : Nat → Candidate) (cs : List Candidate) : Nat → Candidate :=
  cs.foldl (fun a c => samplingInsertCandidate a cap c) a

/-- The best candidates of a sequence are kept. -/
theorem window_insertAll (cap : Nat) (cs : List Candidate) :
    window cap (insertAll cap (fun _ => .none) cs) =
      topK cap (cs.map Candidate.key ++ List.replicate cap 0) := by
  have hrun : ∀ (cs : List Candidate) (a : Nat → Candidate), (window cap a).SortedGE →
      window cap (insertAll cap a cs) = topK cap (cs.map Candidate.key ++ window cap a) := by
    intro cs
    induction cs with
    | nil =>
      intro a hs
      exact (topK_eq_self hs (length_window _ _).le).symm
    | cons c cs ih =>
      intro a hs
      have hstep := window_samplingInsertCandidate (c := c) hs
      have hself : window cap a = topK cap (window cap a) :=
        (topK_eq_self hs (length_window _ _).le).symm
      rw [hself, ← topK_cons] at hstep
      have hnext := ih (samplingInsertCandidate a cap c) (by rw [hstep]; exact sorted_topK _ _)
      rw [insertAll, List.foldl_cons, ← insertAll, hnext, hstep, topK_append_topK]
      exact topK_perm List.perm_middle
  have hnone : (window cap fun _ => Candidate.none).SortedGE := by
    rw [window_none, List.sortedGE_iff_pairwise]
    exact List.pairwise_replicate.mpr (Or.inr le_rfl)
  rw [hrun cs _ hnone, window_none]

theorem insertAll_of_le {j : Nat} (hj : cap ≤ j) (cs : List Candidate) :
    insertAll cap a cs j = a j := by
  induction cs generalizing a with
  | nil => rfl
  | cons c cs ih =>
    rw [insertAll, List.foldl_cons, ← insertAll, ih, samplingInsertCandidate_of_le hj]

theorem insertAll_mem {p : Candidate → Prop} (ha : ∀ j, p (a j)) {cs : List Candidate}
    (hcs : ∀ c ∈ cs, p c) (j : Nat) : p (insertAll cap a cs j) := by
  induction cs generalizing a with
  | nil => exact ha j
  | cons c cs ih =>
    rw [insertAll, List.foldl_cons, ← insertAll]
    refine ih (fun i => ?_) fun c hc => hcs c (List.mem_cons_of_mem _ hc)
    rcases samplingInsertCandidate_mem a cap c i with h | ⟨k, h⟩
    · rw [h]
      exact hcs c List.mem_cons_self
    · rw [h]
      exact ha k

end Insertion

/-! ## Threads that keep their best candidates -/

section Fast

/-- What thread `tid` keeps: the candidates of the tokens it visits are inserted. -/
def localCandidates (col : Column) (cap block tid : Nat) : Nat → Candidate :=
  (strided block col.vocab tid).foldl (fun a v => samplingInsertCandidate a cap (col.load v))
    fun _ => .none

/-- The storage that the threads merge in: `fast` places for each of them. -/
def mergeStorage (col : Column) (cap block fast : Nat) (p : Nat) : Candidate :=
  localCandidates col cap block (p / fast) (p % fast)

/-- The selection of `sampling_build_truncated_block_fast`. -/
def samplingBuildTruncatedBlockFast (block fast : Nat) (col : Column) (cap : Nat) :
    List Candidate :=
  let cand := (List.range (block * fast)).foldl
    (fun a p =>
      let c := mergeStorage col cap block fast p
      if c.idx = intMax then a else samplingInsertCandidate a cap c)
    fun _ => .none
  (List.range cap).map cand

variable {block fast cap : Nat} {col : Column}

theorem localCandidates_eq (col : Column) (cap block tid : Nat) :
    localCandidates col cap block tid =
      insertAll cap (fun _ => .none) ((strided block col.vocab tid).map col.load) := by
  rw [insertAll, List.foldl_map]
  rfl

theorem load_cases (col : Column) (v : Nat) :
    col.load v = .none ∨ ∃ w < col.vocab, col.load v = col.load w := by
  rcases Nat.lt_or_ge v col.vocab with h | h
  · exact Or.inr ⟨v, h, rfl⟩
  · exact Or.inl (Column.load_of_le h)

theorem mergeStorage_cases (col : Column) (cap block fast p : Nat) :
    mergeStorage col cap block fast p = .none ∨
      ∃ v < col.vocab, mergeStorage col cap block fast p = col.load v := by
  rw [mergeStorage, localCandidates_eq]
  refine insertAll_mem (p := fun c => c = .none ∨ ∃ v < col.vocab, c = col.load v)
    (fun _ => Or.inl rfl) (fun c hc => ?_) _
  obtain ⟨v, -, rfl⟩ := List.mem_map.mp hc
  exact load_cases col v

/-- The keys a thread keeps, and the places it leaves. -/
theorem keys_localCandidates (hfast : cap ≤ fast) (hblock : 0 < block) (tid : Nat) :
    (List.range fast).map (fun j => (localCandidates col cap block tid j).key) =
      topK cap ((strided block col.vocab tid).map col.key ++ List.replicate cap 0) ++
        List.replicate (fast - cap) 0 := by
  obtain ⟨n, rfl⟩ := Nat.exists_eq_add_of_le hfast
  have hkeys : ((strided block col.vocab tid).map col.load).map Candidate.key =
      (strided block col.vocab tid).map col.key := by
    rw [List.map_map]
    exact List.map_congr_left fun v hv => Column.key_load ((mem_strided hblock).mp hv).2.1
  rw [List.range_add, List.map_append, Nat.add_sub_cancel_left, localCandidates_eq]
  congr 1
  · rw [← hkeys]
    exact window_insertAll cap _
  · refine List.eq_replicate_iff.mpr ⟨by simp, fun k hk => ?_⟩
    obtain ⟨i, hi, rfl⟩ := List.mem_map.mp hk
    obtain ⟨j, -, rfl⟩ := List.mem_map.mp hi
    rw [insertAll_of_le (by omega), Candidate.key_none]

/-- **The insertion route** selects the best candidates, for every number of threads. -/
theorem samplingBuildTruncatedBlockFast_eq (hblock : 0 < block) (hfast : cap ≤ fast)
    (hcap : cap ≤ col.vocab) :
    samplingBuildTruncatedBlockFast block fast col cap = (col.best cap).map col.load := by
  let merged : List Candidate := (List.range (block * fast)).map (mergeStorage col cap block fast)
  let kept : List Candidate := merged.filter fun c => c.idx ≠ intMax
  have hout : samplingBuildTruncatedBlockFast block fast col cap =
      (List.range cap).map (insertAll cap (fun _ => .none) kept) := by
    have hfold : ∀ (ps : List Nat) (a : Nat → Candidate), ps.foldl (fun a p =>
        if (mergeStorage col cap block fast p).idx = intMax then a
        else samplingInsertCandidate a cap (mergeStorage col cap block fast p)) a =
          insertAll cap a ((ps.map (mergeStorage col cap block fast)).filter
            fun c => c.idx ≠ intMax) := by
      intro ps
      induction ps with
      | nil => exact fun _ => rfl
      | cons p ps ih =>
        intro a
        rw [List.foldl_cons, List.map_cons, List.filter_cons, ih]
        by_cases h : (mergeStorage col cap block fast p).idx = intMax
        · rw [if_pos h, if_neg (by simpa using h)]
        · rw [if_neg h, if_pos (by simpa using h), insertAll, insertAll, List.foldl_cons]
    unfold samplingBuildTruncatedBlockFast
    dsimp only
    rw [hfold]
  -- everything that has been merged, but for places without a candidate
  have hkept : kept.map Candidate.key = (merged.map Candidate.key).filter (· ≠ 0) := by
    rw [List.filter_map]
    congr 1
    refine List.filter_congr fun c hc => ?_
    rw [Function.comp_apply, decide_eq_decide]
    refine not_congr ⟨fun h => ?_, fun h => ?_⟩
    · rw [Candidate.eq_none h, Candidate.key_none]
    · by_contra hne
      have := Candidate.key_pos (c := c) fun heq => hne (by rw [heq]; rfl)
      omega
  have hmerged : merged.map Candidate.key = (List.range block).flatMap fun tid =>
      (List.range fast).map fun j => (localCandidates col cap block tid j).key := by
    rw [List.map_map]
    exact map_range_mul block fast fun tid j => (localCandidates col cap block tid j).key
  let parts : List (List Nat) := (List.range block).map fun tid =>
    (strided block col.vocab tid).map col.key ++ List.replicate cap 0
  have hparts : Padded 0 (merged.map Candidate.key) (parts.map (topK cap)).flatten := by
    rw [hmerged, List.flatMap_def]
    refine Padded.flatten ?_
    rw [List.forall₂_map_left_iff, List.map_map, List.forall₂_map_right_iff]
    refine List.forall₂_same.mpr fun tid _ => ?_
    rw [keys_localCandidates hfast hblock]
    exact padded_append_replicate 0 _ _
  have hall : Padded 0 parts.flatten col.keys := by
    have hstrip : Padded 0 parts.flatten
        ((List.range block).map fun tid => (strided block col.vocab tid).map col.key).flatten := by
      refine Padded.flatten ?_
      rw [List.forall₂_map_left_iff, List.forall₂_map_right_iff]
      exact List.forall₂_same.mpr fun tid _ => padded_append_replicate 0 _ _
    refine hstrip.trans (Padded.of_perm ?_)
    rw [← List.flatMap_def, ← List.map_flatMap]
    exact (strided_perm hblock col.vocab).map _
  have hzero : ∀ {xs : List Nat}, ∀ x ∈ xs, 0 ≤ x := fun x _ => Nat.zero_le x
  refine Column.eq_best ?_ fun c hc => ?_
  · calc (samplingBuildTruncatedBlockFast block fast col cap).map Candidate.key
        = window cap (insertAll cap (fun _ => .none) kept) := by
          rw [hout, List.map_map]
          rfl
      _ = topK cap (kept.map Candidate.key ++ List.replicate cap 0) := window_insertAll cap kept
      _ = topK cap ((parts.map (topK cap)).flatten ++ List.replicate cap 0) := by
          refine Padded.topK_eq (b := 0) ?_ hzero hzero (by simp) (by simp)
          rw [hkept]
          exact ((padded_filter 0 _).trans hparts).append (.refl 0 _)
      _ = topK cap (parts.flatten ++ List.replicate cap 0) := by
          rw [← topK_topK_append, topK_flatten, topK_topK_append]
      _ = topK cap col.keys := by
          refine Padded.topK_eq (b := 0) ?_ hzero hzero (by simp)
            (by rw [Column.length_keys]; exact hcap)
          exact (padded_append_replicate 0 _ _).trans hall
  · rw [hout] at hc
    obtain ⟨j, -, rfl⟩ := List.mem_map.mp hc
    refine insertAll_mem (p := fun c => c = .none ∨ ∃ v < col.vocab, c = col.load v)
      (fun _ => Or.inl rfl) (fun c hc => ?_) _
    obtain ⟨p, -, rfl⟩ := List.mem_map.mp (List.mem_filter.mp hc).1
    exact mergeStorage_cases col cap block fast p

end Fast

end Ninfer.Sampling
