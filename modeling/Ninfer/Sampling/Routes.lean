import Ninfer.Sampling.Groups

/-!
# The routes of the sampler agree

Whichever route reduces a column, the candidates are those of the tokens with the highest logits,
the lower token first among equal ones.

## Main results

* `topk_routes_agree`: the three routes have the same candidates
-/

namespace Ninfer.Sampling

/-- **The routes agree.** The selected tokens are as many as the cap says, in descending order,
and no other token comes before one of them. The tile route has their candidates for every size of
the tile that holds the vocabulary, the insertion route for every number of threads, and the
multi-block route for every split over blocks and groups; each has them for every order in which
its threads or blocks run. The last one has lost the sign of a zero, which compares equal. -/
theorem topk_routes_agree (col : Column) (topK : Int) :
    let cap : Nat := samplingCandidateCap topK col.vocab
    let best : List Nat := col.best cap
    (best.length = cap ∧ (∀ v ∈ best, v < col.vocab) ∧ best.Pairwise col.Before ∧
      ∀ v ∈ best, ∀ w < col.vocab, w ∉ best → col.Before v w) ∧
    (∀ (m : Nat) (threads : List Nat), threads.Perm (List.range (2 ^ m)) → col.vocab ≤ 2 ^ m →
      samplingBuildTruncatedSmall threads m col cap = best.map col.load) ∧
    (∀ block : Nat, 0 < block →
      samplingBuildTruncatedBlockFast block kSamplerFastCandidates col cap = best.map col.load) ∧
    (∀ (sh : Shape) (cub : BlockSort) (cols : Nat) (partials groups : List Nat) (ws : Workspace),
      sh.multiblockOk col.vocab cols = true →
      partials.Perm (List.range (sh.partialBlocks col.vocab)) →
      groups.Perm (List.range (sh.groupCount (sh.partialBlocks col.vocab))) →
      samplingMultiBlock sh cub col cap partials groups ws =
        some (best.map fun v => ((col.logit v).canonical.bits, v))) ∧
    ∀ v < col.vocab, (col.load v).val = col.logit v ∧ (col.load v).idx = v ∧
      (col.logit v).canonical.eq (col.logit v) = true := by
  intro cap best
  -- Each route is proved equal to the same selection, not to the other routes.
  obtain ⟨hcap, hvocab⟩ := samplingCandidateCap_le topK col.vocab
  refine ⟨⟨Column.length_best hvocab, fun v hv => Column.best_lt hv, Column.best_sorted cap,
    fun v hv w hw hnot => Column.best_before hv hw hnot⟩, ?_, ?_, ?_, ?_⟩
  · intro m threads hthreads hm
    exact samplingBuildTruncatedSmall_eq hthreads hm hvocab
  · intro block hblock
    exact samplingBuildTruncatedBlockFast_eq hblock hcap hvocab
  · intro sh cub cols partials groups ws hok hpartials hgroups
    exact samplingMultiBlock_eq cub col hok hcap hvocab hpartials hgroups ws
  · intro v hv
    exact ⟨(Column.load_of_lt hv).1, (Column.load_of_lt hv).2, (col.logit v).canonical_eq⟩

/-- Four tokens, of which the first and the third have the same logit. -/
def tiedColumn : Column where
  vocab := 4
  vocab_le := by decide
  logit v := if v = 1 then ⟨0x40400000#32, by decide⟩ else if v = 3 then .zero
    else ⟨0x40000000#32, by decide⟩

/-- So many tokens that their forty tiles are merged in two groups. -/
def wideColumn : Column where
  vocab := 20000
  vocab_le := by decide
  logit := tiedColumn.logit

/-- The routes of one block select the same two tokens of four, and those of many blocks have the
best ones of a wide column, although the last blocks run first. -/
theorem topk_routes_agree_columns :
    samplingBuildTruncatedSmall [2, 0, 3, 1] 2 tiedColumn 2 = [1, 0].map tiedColumn.load ∧
      samplingBuildTruncatedBlockFast 3 kSamplerFastCandidates tiedColumn 2 =
        [1, 0].map tiedColumn.load ∧
      samplingMultiBlock kSamplerShape .insertion wideColumn 20 (List.range 40).reverse [1, 0]
          (fun _ _ => 0) =
        some ((wideColumn.best 20).map fun v => ((wideColumn.logit v).canonical.bits, v)) := by
  have hbest : tiedColumn.best 2 = [1, 0] := by decide +kernel
  obtain ⟨-, htile, hfast, -, -⟩ := topk_routes_agree tiedColumn 2
  obtain ⟨-, -, -, hblocks, -⟩ := topk_routes_agree wideColumn 20
  refine ⟨?_, ?_, ?_⟩
  · rw [← hbest]
    exact htile 2 [2, 0, 3, 1] (by decide) (by decide)
  · rw [← hbest]
    exact hfast 3 (by decide)
  · exact hblocks kSamplerShape .insertion 4 _ _ _ (by decide) (List.reverse_perm _) (by decide)

/-- A vocabulary of this size is selected from in many blocks, one of half a million tokens is not. -/
example : kSamplerShape.multiblockOk 151936 4 = true ∧
    kSamplerShape.multiblockOk 500000 4 = false := by decide

end Ninfer.Sampling
