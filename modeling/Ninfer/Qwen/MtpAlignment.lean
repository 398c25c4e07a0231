import Ninfer.Commons.Call
import Ninfer.Commons.LowerBound
import Ninfer.Commons.Word

/-!
# Alignment of the draft head

`mtp_alignment.h`: while the prompt is prefilled in chunks, the draft head reads the embedding of
the token behind each position. A chunk is given the embeddings of the positions from its second
one on, and the position behind its last one; behind the prompt there is none, and the last column
of the last chunk takes the generated token. Visual embeddings are scattered into the columns of a
chunk by their positions in the prompt.

## Main definitions

* `planMtpAlignmentWindow`: the window of a chunk
* `shiftedVisualOverlap`: the visual embeddings of a window, and the columns they go to
* `alignPrompt`: the windows and overlaps of the chunks of a prompt
* `scatterings`: what is scattered, and to where

## Main results

* `shiftedVisualOverlap_spec`: the embeddings of one window
* `alignPrompt_spec`: the windows of a prompt, and what is scattered into them
* `draftHead_aligned`: **every visual embedding behind the start is scattered once, to its column**
-/

namespace Ninfer.Qwen

/-- `MtpAlignmentWindow`. -/
structure MtpAlignmentWindow where
  hiddenBegin : Nat
  positionBegin : Nat
  shiftedEmbeddingBegin : Nat
  columns : Nat
  finalColumnUsesGeneratedToken : Bool
  deriving DecidableEq, Repr

/-- `plan_mtp_alignment_window`. -/
def planMtpAlignmentWindow (promptTokens chunkBegin columns : Nat) :
    Except Exception MtpAlignmentWindow := do
  check (¬(columns = 0 ∨ promptTokens ≤ chunkBegin ∨ U32.sub promptTokens chunkBegin < columns))
    (.invalidArgument "MTP alignment window is outside the prompt")
  check (chunkBegin ≠ U32.size - 1)
    (.overflowError "MTP shifted embedding position exceeds uint32")
  return {
    hiddenBegin := chunkBegin
    positionBegin := chunkBegin
    shiftedEmbeddingBegin := U32.add chunkBegin 1
    columns := columns
    finalColumnUsesGeneratedToken := decide (columns = U32.sub promptTokens chunkBegin) }

/-- `MtpVisualOverlap`. -/
structure MtpVisualOverlap where
  sourceBegin : Nat
  destinationColumns : List Int
  deriving DecidableEq, Repr

/-- `static_cast<std::int32_t>` of a `std::uint32_t`. -/
def i32OfU32 (a : Nat) : Int := if a < 2 ^ 31 then a else (a : Int) - 2 ^ 32

/-- `shifted_visual_overlap`. -/
def shiftedVisualOverlap (scatterIndices : List Int) (promptTokens : Nat)
    (window : MtpAlignmentWindow) : Except Exception MtpVisualOverlap := do
  check (scatterIndices.Pairwise (· ≤ ·) ∧ scatterIndices.IsChain (· ≠ ·))
    (.invalidArgument "MTP visual scatter indices must be sorted and unique")
  check (∀ first ∈ scatterIndices.head?, 0 ≤ first)
    (.invalidArgument "MTP visual scatter index is negative")
  check (¬(window.columns = 0 ∨ promptTokens < window.shiftedEmbeddingBegin ∨
      U32.sub promptTokens window.hiddenBegin < window.columns ∨
      window.shiftedEmbeddingBegin ≠ U32.add window.hiddenBegin 1))
    (.invalidArgument "MTP visual overlap received an invalid alignment window")
  if scatterIndices.isEmpty ∨ promptTokens ≤ window.shiftedEmbeddingBegin then
    return ⟨0, []⟩
  let rawEnd := window.shiftedEmbeddingBegin + window.columns
  let shiftedEnd := min promptTokens rawEnd
  let first := lowerBound scatterIndices (i32OfU32 window.shiftedEmbeddingBegin)
  -- the second search starts where the first one ended
  let last := first + lowerBound (scatterIndices.drop first) (i32OfU32 shiftedEnd)
  return {
    sourceBegin := first
    destinationColumns := ((scatterIndices.take last).drop first).map
      (· - i32OfU32 window.shiftedEmbeddingBegin) }

/-- The windows and overlaps of consecutive chunks of a prompt, from the position `chunkBegin`
on. -/
def alignPrompt (scatterIndices : List Int) (promptTokens : Nat) :
    Nat → List Nat → Except Exception (List (MtpAlignmentWindow × MtpVisualOverlap))
  | _, [] => .ok []
  | chunkBegin, columns :: chunks => do
    let window ← planMtpAlignmentWindow promptTokens chunkBegin columns
    let overlap ← shiftedVisualOverlap scatterIndices promptTokens window
    let rest ← alignPrompt scatterIndices promptTokens (chunkBegin + columns) chunks
    return (window, overlap) :: rest

/-- A visual embedding on its way into a column of a window: its position in the list of
indices, which is its rank behind the start of the overlap. -/
structure Scattering where
  window : MtpAlignmentWindow
  column : Int
  source : Nat
  deriving DecidableEq, Repr

/-- What a chunk scatters, in order. -/
def chunkScatterings (step : MtpAlignmentWindow × MtpVisualOverlap) : List Scattering :=
  (step.2.destinationColumns.zipIdx step.2.sourceBegin).map fun (column, source) =>
    ⟨step.1, column, source⟩

/-- What the chunks scatter, in order. -/
def scatterings (steps : List (MtpAlignmentWindow × MtpVisualOverlap)) : List Scattering :=
  steps.flatMap chunkScatterings

/-! ## One chunk -/

section Chunk

variable {scatterIndices : List Int} {promptTokens chunkBegin columns : Nat}

/-- The window a chunk of the prompt gets. -/
def chunkWindow (promptTokens chunkBegin columns : Nat) : MtpAlignmentWindow where
  hiddenBegin := chunkBegin
  positionBegin := chunkBegin
  shiftedEmbeddingBegin := chunkBegin + 1
  columns := columns
  finalColumnUsesGeneratedToken := decide (chunkBegin + columns = promptTokens)

theorem planMtpAlignmentWindow_eq_ok (hprompt : promptTokens < 2 ^ 31) (hcolumns : 0 < columns)
    (hend : chunkBegin + columns ≤ promptTokens) :
    planMtpAlignmentWindow promptTokens chunkBegin columns =
      .ok (chunkWindow promptTokens chunkBegin columns) := by
  have hsub : U32.sub promptTokens chunkBegin = promptTokens - chunkBegin :=
    U32.sub_eq (by omega) (by unfold U32.size; omega)
  have hadd : U32.add chunkBegin 1 = chunkBegin + 1 := U32.add_eq (by unfold U32.size; omega)
  have hfinal : (columns = promptTokens - chunkBegin) = (chunkBegin + columns = promptTokens) := by
    apply propext
    omega
  unfold planMtpAlignmentWindow
  rw [hsub, hadd]
  apply check_bind_eq_ok.mpr
  refine ⟨by omega, ?_⟩
  apply check_bind_eq_ok.mpr
  refine ⟨by unfold U32.size; omega, ?_⟩
  simp only [hfinal]
  rfl

/-- The positions in the list of indices that a chunk scatters from. -/
def chunkSources (scatterIndices : List Int) (promptTokens chunkBegin columns : Nat) : List Nat :=
  List.range' (lowerBound scatterIndices (chunkBegin + 1))
    (lowerBound scatterIndices (min promptTokens (chunkBegin + 1 + columns)) -
      lowerBound scatterIndices (chunkBegin + 1))

theorem i32OfU32_eq {a : Nat} (h : a < 2 ^ 31) : i32OfU32 a = a := if_pos h

/-- **The embeddings of one window**: those of the positions from the second one of the chunk to
the one behind its last, each to the column in front of it. -/
theorem shiftedVisualOverlap_spec (hsorted : scatterIndices.Pairwise (· < ·))
    (hrange : ∀ v ∈ scatterIndices, 0 ≤ v ∧ v < promptTokens) (hprompt : promptTokens < 2 ^ 31)
    (hcolumns : 0 < columns) (hend : chunkBegin + columns ≤ promptTokens) :
    ∃ overlap,
      shiftedVisualOverlap scatterIndices promptTokens
        (chunkWindow promptTokens chunkBegin columns) = .ok overlap ∧
      chunkScatterings (chunkWindow promptTokens chunkBegin columns, overlap) =
        (chunkSources scatterIndices promptTokens chunkBegin columns).map fun i =>
          ⟨chunkWindow promptTokens chunkBegin columns,
            scatterIndices.getD i 0 - (chunkBegin + 1), i⟩ := by
  have hle : scatterIndices.Pairwise (· ≤ ·) := hsorted.imp fun h => h.le
  have hchain : scatterIndices.IsChain (· ≠ ·) := (hsorted.imp fun h => h.ne).isChain
  have hsub : U32.sub promptTokens chunkBegin = promptTokens - chunkBegin :=
    U32.sub_eq (by omega) (by unfold U32.size; omega)
  have hadd : U32.add chunkBegin 1 = chunkBegin + 1 := U32.add_eq (by unfold U32.size; omega)
  set window := chunkWindow promptTokens chunkBegin columns with hwindow
  set first := lowerBound scatterIndices ((chunkBegin : Int) + 1) with hfirst
  set last := lowerBound scatterIndices
    (min (promptTokens : Int) ((chunkBegin : Int) + 1 + columns)) with hlast
  have hfirstLast : first ≤ last := lowerBound_le_lowerBound hle (by omega)
  have hlastLength : last ≤ scatterIndices.length := lowerBound_le_length _ _
  have hsources : chunkSources scatterIndices promptTokens chunkBegin columns =
      List.range' first (last - first) := rfl
  rw [hsources]
  by_cases hnone : scatterIndices.isEmpty ∨ promptTokens ≤ chunkBegin + 1
  · -- nothing is behind the first position of the chunk
    have hequal : last - first = 0 := by
      have hall : first = scatterIndices.length := by
        rcases hnone with hempty | hshort
        · rw [List.isEmpty_iff] at hempty
          subst hempty
          rfl
        · refine lowerBound_eq_length fun v hv => ?_
          have := (hrange v hv).2
          omega
      omega
    refine ⟨⟨0, []⟩, ?_, ?_⟩
    · apply check_bind_eq_ok.mpr
      refine ⟨⟨hle, hchain⟩, ?_⟩
      apply check_bind_eq_ok.mpr
      refine ⟨fun v hv => (hrange v (List.mem_of_mem_head? hv)).1, ?_⟩
      apply check_bind_eq_ok.mpr
      refine ⟨?_, if_pos hnone⟩
      simp only [hwindow, chunkWindow, hsub, hadd]
      omega
    · rw [hequal]
      rfl
  · -- both searches stay in the list
    rw [not_or] at hnone
    have hdestination : first + lowerBound (scatterIndices.drop first)
        (i32OfU32 (min promptTokens (chunkBegin + 1 + columns))) = last := by
      have hbound : min promptTokens (chunkBegin + 1 + columns) < 2 ^ 31 := by omega
      rw [i32OfU32_eq hbound, hfirst, lowerBound_drop hle (by omega), hlast]
      congr 1
      omega
    have hshift : i32OfU32 window.shiftedEmbeddingBegin = (chunkBegin : Int) + 1 := by
      have hbound : chunkBegin + 1 < 2 ^ 31 := by omega
      rw [hwindow, chunkWindow, i32OfU32_eq hbound]
      push_cast
      rfl
    refine ⟨⟨first, ((scatterIndices.take last).drop first).map (· - ((chunkBegin : Int) + 1))⟩,
      ?_, ?_⟩
    · apply check_bind_eq_ok.mpr
      refine ⟨⟨hle, hchain⟩, ?_⟩
      apply check_bind_eq_ok.mpr
      refine ⟨fun v hv => (hrange v (List.mem_of_mem_head? hv)).1, ?_⟩
      apply check_bind_eq_ok.mpr
      refine ⟨?_, ?_⟩
      · simp only [hwindow, chunkWindow, hsub, hadd]
        omega
      · rw [if_neg (by simp only [hwindow, chunkWindow]; exact not_or.mpr hnone)]
        simp only [hshift, ← hfirst]
        rw [show window.shiftedEmbeddingBegin + window.columns = chunkBegin + 1 + columns from rfl,
          hdestination]
        rfl
    · apply List.ext_getElem
      · simp [chunkScatterings]
        omega
      · intro i hi _
        simp [chunkScatterings] at hi ⊢
        rw [List.getElem?_eq_getElem (by omega)]
        rfl

/-- **Where a chunk scatters to**: to the column in front of the index, which is one of its own. -/
theorem chunkSources_column (hsorted : scatterIndices.Pairwise (· < ·)) {i : Nat}
    (hi : i ∈ chunkSources scatterIndices promptTokens chunkBegin columns) :
    ∃ hlt : i < scatterIndices.length,
      (chunkBegin : Int) < scatterIndices[i] ∧ scatterIndices[i] ≤ chunkBegin + columns := by
  have hle : scatterIndices.Pairwise (· ≤ ·) := hsorted.imp fun h => h.le
  rw [chunkSources, List.mem_range'_1] at hi
  obtain ⟨hfirst, hlast⟩ := hi
  have hbehind : i < lowerBound scatterIndices
      (min (promptTokens : Int) ((chunkBegin : Int) + 1 + columns)) := by omega
  have hlt := hbehind.trans_le (lowerBound_le_length _ _)
  have habove := (lowerBound_le_iff hle hlt).mp hfirst
  have hbelow := (lt_lowerBound_iff hle hlt).mp hbehind
  exact ⟨hlt, by omega, by omega⟩

end Chunk

/-! ## The chunks of a prompt -/

section Prompt

variable {scatterIndices : List Int} {promptTokens : Nat} {chunks : List Nat}

/-- The windows of consecutive chunks. -/
def chunkWindows (promptTokens : Nat) : Nat → List Nat → List MtpAlignmentWindow
  | _, [] => []
  | chunkBegin, columns :: chunks =>
    chunkWindow promptTokens chunkBegin columns ::
      chunkWindows promptTokens (chunkBegin + columns) chunks

/-- The positions in the list of indices from the first index behind `start` on. -/
def sourcesBehind (scatterIndices : List Int) (start : Nat) : List Nat :=
  List.range' (lowerBound scatterIndices (start + 1))
    (scatterIndices.length - lowerBound scatterIndices (start + 1))

/-- The positions are those of the indices behind `start`. -/
theorem sourcesBehind_eq_filter (hsorted : scatterIndices.Pairwise (· < ·)) (start : Nat) :
    sourcesBehind scatterIndices start =
      (List.range scatterIndices.length).filter fun i =>
        decide ((start : Int) < scatterIndices.getD i 0) := by
  have hle : scatterIndices.Pairwise (· ≤ ·) := hsorted.imp fun h => h.le
  set first := lowerBound scatterIndices ((start : Int) + 1) with hfirst
  have hlength : first ≤ scatterIndices.length := lowerBound_le_length _ _
  have hbehind : ∀ i, i < scatterIndices.length →
      (decide ((start : Int) < scatterIndices.getD i 0) = true ↔ first ≤ i) := by
    intro i hi
    rw [List.getD_eq_getElem _ _ hi, decide_eq_true_iff, hfirst, lowerBound_le_iff hle hi]
    omega
  -- the list of positions is cut at the first index behind the start
  have hcut : List.range scatterIndices.length =
      List.range first ++ List.range' first (scatterIndices.length - first) := by
    have happend := List.range'_append_1 (s := 0) (m := first) (n := scatterIndices.length - first)
    rw [Nat.zero_add, Nat.add_sub_cancel' hlength] at happend
    rw [List.range_eq_range', List.range_eq_range', happend]
  have hfront : (List.range first).filter
      (fun i => decide ((start : Int) < scatterIndices.getD i 0)) = [] := by
    rw [List.filter_eq_nil_iff]
    intro i hi
    rw [List.mem_range] at hi
    rw [hbehind i (by omega)]
    omega
  have hback : (List.range' first (scatterIndices.length - first)).filter
      (fun i => decide ((start : Int) < scatterIndices.getD i 0)) =
        List.range' first (scatterIndices.length - first) := by
    rw [List.filter_eq_self]
    intro i hi
    rw [List.mem_range'_1] at hi
    exact (hbehind i (by omega)).mpr hi.1
  rw [hcut, List.filter_append, hfront, hback]
  rfl

/-- The positions of a chunk and those behind it. -/
theorem chunkSources_append (hsorted : scatterIndices.Pairwise (· < ·))
    (hrange : ∀ v ∈ scatterIndices, v < promptTokens) (chunkBegin columns : Nat)
    (hend : chunkBegin + columns ≤ promptTokens) :
    chunkSources scatterIndices promptTokens chunkBegin columns ++
        sourcesBehind scatterIndices (chunkBegin + columns) =
      sourcesBehind scatterIndices chunkBegin := by
  have hle : scatterIndices.Pairwise (· ≤ ·) := hsorted.imp fun h => h.le
  -- clamping at the end of the prompt loses no index
  have hclamp : lowerBound scatterIndices
      (min (promptTokens : Int) ((chunkBegin : Int) + 1 + columns)) =
        lowerBound scatterIndices (((chunkBegin + columns : Nat) : Int) + 1) := by
    rcases Nat.lt_or_ge (chunkBegin + columns) promptTokens with hlt | hge
    · congr 1
      omega
    · rw [lowerBound_eq_length fun v hv => ?_, lowerBound_eq_length fun v hv => ?_]
      · have := hrange v hv
        omega
      · have := hrange v hv
        omega
  have hfirst : lowerBound scatterIndices ((chunkBegin : Int) + 1) ≤
      lowerBound scatterIndices (((chunkBegin + columns : Nat) : Int) + 1) :=
    lowerBound_le_lowerBound hle (by omega)
  have hlength := lowerBound_le_length scatterIndices (((chunkBegin + columns : Nat) : Int) + 1)
  unfold chunkSources sourcesBehind
  rw [hclamp]
  set first := lowerBound scatterIndices ((chunkBegin : Int) + 1)
  set last := lowerBound scatterIndices (((chunkBegin + columns : Nat) : Int) + 1)
  have hsplit : List.range' first (last - first) ++
      List.range' (first + (last - first)) (scatterIndices.length - last) =
        List.range' first ((last - first) + (scatterIndices.length - last)) :=
    List.range'_append_1
  rw [show first + (last - first) = last by omega,
    show (last - first) + (scatterIndices.length - last) = scatterIndices.length - first by omega]
    at hsplit
  exact hsplit

/-- **The windows of a prompt, and what is scattered into them.** No chunk throws; the positions
scattered from are those of all indices behind the start, in order; and each goes to the column in
front of its index, which is one of its window. -/
theorem alignPrompt_spec (hsorted : scatterIndices.Pairwise (· < ·))
    (hrange : ∀ v ∈ scatterIndices, 0 ≤ v ∧ v < promptTokens) (hprompt : promptTokens < 2 ^ 31)
    (hpos : ∀ columns ∈ chunks, 0 < columns) {start : Nat}
    (htile : start + chunks.sum = promptTokens) :
    ∃ steps, alignPrompt scatterIndices promptTokens start chunks = .ok steps ∧
      steps.map Prod.fst = chunkWindows promptTokens start chunks ∧
      (scatterings steps).map Scattering.source = sourcesBehind scatterIndices start ∧
      ∀ s ∈ scatterings steps, s.window ∈ chunkWindows promptTokens start chunks ∧
        scatterIndices[s.source]? = some (s.window.hiddenBegin + s.column + 1) ∧
        0 ≤ s.column ∧ s.column < s.window.columns := by
  induction chunks generalizing start with
  | nil =>
    refine ⟨[], rfl, rfl, ?_, fun s hs => nomatch hs⟩
    -- no index is behind the end of the prompt
    have hlength : lowerBound scatterIndices ((start : Int) + 1) = scatterIndices.length := by
      refine lowerBound_eq_length fun v hv => ?_
      have := (hrange v hv).2
      rw [List.sum_nil] at htile
      omega
    rw [sourcesBehind, hlength, Nat.sub_self]
    rfl
  | cons columns chunks ih =>
    obtain ⟨hcolumns, hrest⟩ := List.forall_mem_cons.mp hpos
    rw [List.sum_cons] at htile
    have hend : start + columns ≤ promptTokens := by omega
    obtain ⟨overlap, hoverlap, hchunk⟩ :=
      shiftedVisualOverlap_spec hsorted hrange hprompt hcolumns hend
    have htile' : start + columns + chunks.sum = promptTokens := by omega
    obtain ⟨steps, hsteps, hwindows, hsources, hplaces⟩ := ih hrest htile'
    set window := chunkWindow promptTokens start columns with hwindow
    refine ⟨(window, overlap) :: steps, ?_, ?_, ?_, ?_⟩
    · rw [alignPrompt, planMtpAlignmentWindow_eq_ok hprompt hcolumns hend]
      show (shiftedVisualOverlap scatterIndices promptTokens window >>= _) = _
      rw [hoverlap]
      show (alignPrompt scatterIndices promptTokens (start + columns) chunks >>= _) = _
      rw [hsteps]
      rfl
    · rw [List.map_cons, hwindows]
      rfl
    · rw [scatterings, List.flatMap_cons, List.map_append, hchunk, List.map_map]
      have hids : (Scattering.source ∘ fun i =>
          (⟨window, scatterIndices.getD i 0 - (start + 1), i⟩ : Scattering)) = id := rfl
      rw [hids, List.map_id]
      exact (congrArg _ hsources).trans
        (chunkSources_append hsorted (fun v hv => (hrange v hv).2) start columns hend)
    · intro s hs
      rw [scatterings, List.flatMap_cons, List.mem_append] at hs
      rcases hs with hs | hs
      · rw [hchunk] at hs
        obtain ⟨i, hi, rfl⟩ := List.mem_map.mp hs
        obtain ⟨hlt, habove, hbelow⟩ := chunkSources_column hsorted hi
        refine ⟨List.mem_cons_self, ?_⟩
        simp only [hwindow, chunkWindow, List.getD_eq_getElem _ _ hlt,
          List.getElem?_eq_getElem hlt, Option.some.injEq]
        omega
      · obtain ⟨hmem, hplace⟩ := hplaces s hs
        exact ⟨List.mem_cons_of_mem _ hmem, hplace⟩

theorem length_chunkWindows (promptTokens start : Nat) (chunks : List Nat) :
    (chunkWindows promptTokens start chunks).length = chunks.length := by
  induction chunks generalizing start with
  | nil => rfl
  | cons columns chunks ih => simp [chunkWindows, ih]

/-- Where the window of a chunk lies. -/
theorem getElem?_chunkWindows (promptTokens start : Nat) (chunks : List Nat) (k : Nat) :
    (chunkWindows promptTokens start chunks)[k]? =
      chunks[k]?.map (chunkWindow promptTokens (start + (chunks.take k).sum)) := by
  induction chunks generalizing start k with
  | nil => rfl
  | cons columns chunks ih =>
    cases k with
    | zero => simp [chunkWindows]
    | succ k =>
      rw [chunkWindows, List.getElem?_cons_succ, ih, List.getElem?_cons_succ, List.take_succ_cons,
        List.sum_cons, Nat.add_assoc]

/-- Only the last chunk ends at the end of the prompt. -/
theorem sum_take_eq_iff (hpos : ∀ columns ∈ chunks, 0 < columns) {k : Nat} (hk : k < chunks.length) :
    (chunks.take k).sum + chunks[k] = chunks.sum ↔ k + 1 = chunks.length := by
  have hsum : (chunks.take k).sum + chunks[k] + (chunks.drop (k + 1)).sum = chunks.sum := by
    conv_rhs => rw [← List.take_append_drop k chunks, List.sum_append,
      List.drop_eq_getElem_cons hk, List.sum_cons]
    omega
  constructor
  · intro hend
    by_contra hne
    have hnext : k + 1 < chunks.length := by omega
    -- the chunk behind this one would be empty
    rw [List.drop_eq_getElem_cons hnext, List.sum_cons] at hsum
    have := hpos _ (List.getElem_mem hnext)
    omega
  · intro hlast
    rw [hlast, List.drop_length, List.sum_nil] at hsum
    omega

/-- What the alignment of a prompt is, from `start` on: its windows are the chunks; the visual
indices behind the start, and no others, are scattered once each, from their own positions, to the
columns in front of them; and the last column of the prompt, which takes the generated token,
receives none. -/
structure DraftHeadAligned (scatterIndices : List Int) (start : Nat) (chunks : List Nat)
    (steps : List (MtpAlignmentWindow × MtpVisualOverlap)) : Prop where
  length : steps.length = chunks.length
  windows : ∀ k window overlap, steps[k]? = some (window, overlap) →
    window.hiddenBegin = start + (chunks.take k).sum ∧ chunks[k]? = some window.columns
  scattered : (scatterings steps).map Scattering.source =
    (List.range scatterIndices.length).filter fun i => decide ((start : Int) < scatterIndices.getD i 0)
  chunk : ∀ s ∈ scatterings steps, s.window ∈ steps.map Prod.fst
  column : ∀ s ∈ scatterings steps,
    scatterIndices[s.source]? = some (s.window.hiddenBegin + s.column + 1)
  inside : ∀ s ∈ scatterings steps, 0 ≤ s.column ∧ s.column < s.window.columns
  final : ∀ k window overlap, steps[k]? = some (window, overlap) →
    (window.finalColumnUsesGeneratedToken = true ↔ k + 1 = steps.length)
  generated : ∀ s ∈ scatterings steps, s.window.finalColumnUsesGeneratedToken = true →
    s.column + 1 ≠ s.window.columns

/-- **Every visual embedding behind the start is scattered once, to its column.** -/
theorem draftHead_aligned {start : Nat} (hprompt : promptTokens < 2 ^ 31)
    (hpos : ∀ columns ∈ chunks, 0 < columns) (htile : start + chunks.sum = promptTokens)
    (hsorted : scatterIndices.Pairwise (· < ·))
    (hrange : ∀ v ∈ scatterIndices, 0 ≤ v ∧ v < promptTokens) :
    ∃ steps, alignPrompt scatterIndices promptTokens start chunks = .ok steps ∧
      DraftHeadAligned scatterIndices start chunks steps := by
  obtain ⟨steps, hsteps, hwindows, hsources, hplaces⟩ :=
    alignPrompt_spec hsorted hrange hprompt hpos htile
  have hlength : steps.length = chunks.length := by
    rw [← List.length_map (f := Prod.fst), hwindows, length_chunkWindows]
  -- the window of a chunk, from its place
  have hwindow : ∀ k window overlap, steps[k]? = some (window, overlap) →
      ∃ hk : k < chunks.length,
        window = chunkWindow promptTokens (start + (chunks.take k).sum) chunks[k] := by
    intro k window overlap hget
    have hk : k < chunks.length := by
      rw [← hlength]
      exact (List.getElem?_eq_some_iff.mp hget).1
    have hmap : (steps.map Prod.fst)[k]? = some window := by
      rw [List.getElem?_map, hget]
      rfl
    rw [hwindows, getElem?_chunkWindows, List.getElem?_eq_getElem hk] at hmap
    exact ⟨hk, (Option.some.inj hmap).symm⟩
  refine ⟨steps, hsteps, hlength, ?_, ?_, ?_, ?_, ?_, ?_, ?_⟩
  · intro k window overlap hget
    obtain ⟨hk, rfl⟩ := hwindow k window overlap hget
    exact ⟨rfl, List.getElem?_eq_getElem hk⟩
  · rw [hsources, sourcesBehind_eq_filter hsorted]
  · intro s hs
    rw [hwindows]
    exact (hplaces s hs).1
  · exact fun s hs => (hplaces s hs).2.1
  · exact fun s hs => (hplaces s hs).2.2
  · intro k window overlap hget
    obtain ⟨hk, rfl⟩ := hwindow k window overlap hget
    rw [hlength, ← sum_take_eq_iff hpos hk]
    simp only [chunkWindow, decide_eq_true_eq]
    omega
  · intro s hs hfinal
    obtain ⟨hmem, hcolumn, -⟩ := hplaces s hs
    obtain ⟨k, hk⟩ := List.getElem?_of_mem hmem
    rw [getElem?_chunkWindows] at hk
    obtain ⟨columns, -, hw⟩ := Option.map_eq_some_iff.mp hk
    -- the index behind the last column would be behind the prompt
    have hbound := (hrange _ (List.mem_of_getElem? hcolumn)).2
    rw [← hw] at hfinal hbound ⊢
    simp only [chunkWindow, decide_eq_true_eq] at hfinal hbound ⊢
    omega

/-- A prompt of eight tokens in chunks of four and three behind the first one, with visual tokens
at the start, across the boundary of the chunks and at the end. -/
theorem draftHead_aligned_eight : ∃ steps, alignPrompt [1, 4, 5, 7] 8 1 [4, 3] = .ok steps ∧
    steps.map (fun step => (step.2.sourceBegin, step.2.destinationColumns)) =
      [(1, [2, 3]), (3, [1])] ∧
    DraftHeadAligned [1, 4, 5, 7] 1 [4, 3] steps := by
  obtain ⟨steps, hsteps, haligned⟩ := @draftHead_aligned [1, 4, 5, 7] 8 [4, 3] 1 (by decide)
    (by decide) rfl (by decide) (by decide)
  refine ⟨steps, hsteps, ?_, haligned⟩
  have hrun : alignPrompt [1, 4, 5, 7] 8 1 [4, 3] =
      .ok [(⟨1, 1, 2, 4, false⟩, ⟨1, [2, 3]⟩), (⟨5, 5, 6, 3, true⟩, ⟨3, [1]⟩)] := by
    decide
  obtain rfl := Except.ok.inj (hrun.symm.trans hsteps)
  rfl

end Prompt

end Ninfer.Qwen
