import Ninfer.Qwen.Staging

/-!
# Advancing a prefill

From a staged prefill every step of `advance_prefill` passes its checks, moves the cursor, and
writes to mapped pages only, until the last one samples the first token. The only exception a step
may throw is that for a sampled token outside the token domain.

## Main definitions

* `givenEntry`: what a prefill gives the model for a token
* `SpanWithin`: a span of KV rows inside the tokens of the two caches
* `tokenDomainError`: the exception of `validate_licensed_tokens`

## Main results

* `bridgeLane_spec`, `chunkLane_spec`, `exactHitLane_spec`, `finishLane_spec`: the parts of a step
* `advancePrefill_spec`: a step of a prefill
* `startPrefillLane_spec`: its first step, from a plan for the lane
-/

namespace Ninfer.Qwen

open PagedKV

variable {n : Nat} {cfg : Config n} {l : Fin n} {h : KvHeap n} {x : Lane} {staged : Prefill}
  {budget : Nat}

/-! ## Entries -/

/-- The entry of the prompt token at `i`. -/
def PreparedPromptData.entryAt (prompt : PreparedPromptData) (i : Nat) : Entry :=
  Qwen.entryAt prompt.tokenIds prompt.tokenTypes prompt.positions prompt.visionItems i

/-- What a prefill from `base` gives the model for the prompt token at `i`. -/
def givenEntry (prompt : PreparedPromptData) (base i : Nat) : Entry :=
  { prompt.entryAt i with position := givenPosition prompt base i }

/-- A text chunk gives a token of a suffix without visual tokens everything but its position. -/
theorem textEntry_eq {prompt : PreparedPromptData} {base i : Nat}
    (htypes : ∀ item ∈ prompt.visionItems, ∀ i ∈ item.scatterIndices,
      prompt.tokenTypes.getD i 0 = item.modality.code)
    (hs : suffixHasVisual prompt base = false) (hi : base ≤ i) :
    textEntry prompt i = givenEntry prompt base i := by
  have htype : prompt.tokenTypes.getD i 0 = 0 := by
    by_contra hne
    rw [suffixHasVisual_iff.mpr ⟨i, hi, hne⟩] at hs
    cases hs
  have hitem : itemAt prompt.visionItems i = none := by
    refine itemAt_eq_none fun k item hk hmem => ?_
    have := htypes item (List.mem_of_getElem? hk) i hmem
    rw [htype] at this
    exact item.modality.code_ne_zero this.symm
  have hposition : givenPosition prompt base i = .same i := by
    unfold givenPosition
    rw [hs]
    rfl
  simp only [textEntry, givenEntry, PreparedPromptData.entryAt, entryAt, htype, hitem, hposition]

/-- A multimodal chunk gives a token its entry in the prompt. -/
theorem visionEntry_eq {prompt : PreparedPromptData} {base i : Nat} {plan : VisionPrefillPlan}
    {chunk : VisionChunk} (hs : suffixHasVisual prompt base = true)
    (hitem : chunk.itemAt prompt plan i = itemAt prompt.visionItems i) :
    visionEntry prompt plan chunk i = givenEntry prompt base i := by
  have hposition : givenPosition prompt base i = prompt.positionAt i := if_pos hs
  simp only [visionEntry, givenEntry, PreparedPromptData.entryAt, entryAt, hitem, hposition]

/-! ## Writes -/

/-- A span of KV rows inside the first `text` and `back` tokens of the two caches. -/
def SpanWithin (cfg : Config n) (text back : Nat) (span : KvSpan) : Prop :=
  match span.cache with
  | .text => span.first + span.count ≤ text
  | .backend => cfg.hasBackend = true ∧ span.first + span.count ≤ back

/-- **A write within the tokens of a bound lane** is one to mapped pages. -/
theorem Bound.mapped {text back tokens : Nat} (hb : Bound cfg h l x text back)
    (hf : Fits cfg x.reserved tokens) (hi : KvInv cfg h) {span : KvSpan}
    (hw : SpanWithin cfg text back span) :
    span.first + span.count ≤ (h.allocs (l, span.cache)).mappedTokenCapacity := by
  obtain ⟨w, hw', -, -, het, heb, hmt, hmb⟩ := hb.owns
  have hcapacity : ∀ {c : Cache} {v : AllocView}, Owns h (l, c) v → v.entitled = x.reserved c →
      (h.allocs (l, c)).mappedTokenCapacity = v.mapped * kPagedKVPageSize := by
    intro c v ho he
    have hle := hi.heap.mapped_le (l, c)
    have hc := hf.countable c v.mapped v.row
    rw [ho.mapped, ho.entitled] at hle
    unfold PagedKVAllocation.mappedTokenCapacity PagedKVAllocation.mappedPageCount
    rw [ho.mapped]
    unfold Countable at hc
    refine Nat.mod_eq_of_lt (lt_of_le_of_lt (Nat.mul_le_mul_right _ hle) ?_)
    rw [he]
    exact hc
  unfold SpanWithin at hw
  cases hc : span.cache with
  | text =>
    rw [hc] at hw
    rw [hcapacity hw'.text het]
    exact (Nat.le_trans hw (le_pagesForTokens text)).trans (Nat.mul_le_mul_right _ hmt)
  | backend =>
    rw [hc] at hw
    obtain ⟨hbk, hw⟩ := hw
    rw [hcapacity (hw'.backend hbk) heb]
    exact (Nat.le_trans hw (le_pagesForTokens back)).trans (Nat.mul_le_mul_right _ (hmb hbk))

theorem hasBackend_of_mtp (hb : cfg.backend = .mtp) : cfg.hasBackend = true := by
  simp [Config.hasBackend, hb]

theorem hasBackend_of_dflash (hb : cfg.backend = .dflash) : cfg.hasBackend = true := by
  simp [Config.hasBackend, hb]

/-- The prompt fits what is materialized of the backend's cache. -/
theorem Underway.size_le (hu : Underway cfg h l x staged budget) :
    staged.promptTokens ≤ cfg.capacity ∧ (cfg.hasBackend = true → staged.promptTokens ≤
      backendMaterialized cfg staged.promptTokens staged.initialMtpExtent) := by
  have hcap := hu.fits.capacity
  refine ⟨by omega, fun hbk => ?_⟩
  unfold backendMaterialized
  cases hb : cfg.backend with
  | none => simp [Config.hasBackend, hb] at hbk
  | mtp =>
    dsimp only
    omega
  | dflash => exact Nat.le_refl _

/-- The draft steps that close a prefill stay within what is materialized. -/
theorem Underway.closingDrafts_within (hu : Underway cfg h l x staged budget)
    (hb : cfg.backend = .mtp) :
    ∀ span ∈ closingDrafts staged.promptTokens staged.initialMtpExtent,
      SpanWithin cfg staged.promptTokens
        (backendMaterialized cfg staged.promptTokens staged.initialMtpExtent) span := by
  have hcap := hu.fits.capacity
  have hextent := hu.extent
  rw [initialMtpExtent, if_pos hb] at hextent
  intro span hs
  unfold closingDrafts at hs
  split_ifs at hs with hz
  · cases hs
  · rw [List.mem_singleton] at hs
    subst hs
    refine ⟨hasBackend_of_mtp hb, ?_⟩
    simp only [backendMaterialized, hb, if_neg hz]
    split_ifs at hextent <;> omega

/-- The rows a chunk writes stay within what is materialized. -/
theorem Underway.chunkSpans_within (hu : Underway cfg h l x staged budget) {len : Nat}
    (hle : staged.cursor + len ≤ staged.promptTokens) (finalized : Bool) :
    ∀ span ∈ chunkSpans cfg staged len finalized, SpanWithin cfg staged.promptTokens
      (backendMaterialized cfg staged.promptTokens staged.initialMtpExtent) span := by
  have hmaterialized := hu.size_le.2
  have hchunk : cfg.hasBackend = true → SpanWithin cfg staged.promptTokens
      (backendMaterialized cfg staged.promptTokens staged.initialMtpExtent)
      ⟨.backend, staged.cursor, len⟩ :=
    fun hbk => ⟨hbk, hle.trans (hmaterialized hbk)⟩
  intro span hs
  unfold chunkSpans at hs
  rw [List.singleton_append, List.mem_cons] at hs
  rcases hs with rfl | hs
  · exact hle
  cases hb : cfg.backend with
  | none =>
    rw [hb] at hs
    cases hs
  | mtp =>
    simp only [hb] at hs
    rw [List.singleton_append, List.mem_cons] at hs
    rcases hs with rfl | hs
    · exact hchunk (hasBackend_of_mtp hb)
    · split_ifs at hs
      · exact hu.closingDrafts_within hb span hs
      · cases hs
  | dflash =>
    simp only [hb] at hs
    rw [List.mem_singleton] at hs
    subst hs
    exact hchunk (hasBackend_of_dflash hb)

/-! ## The bridge -/

/-- The session of a bridge that needs the embedding of the first suffix token. -/
theorem bridgeSession_spec (hl : PrefillingLane cfg h l x staged budget)
    (hcursor : staged.cursor = staged.base) (hmore : staged.base < staged.promptTokens) :
    ∃ session, bridgeSession cfg staged = .ok session ∧
      SessionAt cfg { staged with vision := session, mtpBridge := .none } := by
  cases hl.session with
  | text vision plan suffix =>
    refine ⟨none, ?_, .text rfl plan suffix⟩
    rw [bridgeSession, vision, plan]
  | media session plan vision planned suffix backend inv =>
    simp only [bridgeSession, vision, planned]
    split_ifs with htype
    · exact ⟨some session, rfl, .media session plan rfl rfl suffix backend inv⟩
    · rw [hcursor] at inv
      have hlt : staged.base < staged.prompt.size := hl.size.symm ▸ hmore
      obtain ⟨chunk, session', hok, hpos, hle, -, -, hitems, inv'⟩ :=
        prepareChunk_spec inv Nat.one_pos hlt
      obtain ⟨item, hitem, hspan⟩ := hl.prepared.covered htype
      have hmem := mem_scatterIndices.mpr hspan
      obtain ⟨k, hk⟩ := List.mem_iff_getElem?.mp hitem
      have hat : chunk.itemAt staged.prompt plan staged.base =
          some (item, item.scatterIndices.idxOf staged.base) := by
        rw [hitems _ (Nat.le_refl _) (by omega)]
        exact itemAt_of_mem inv.placed hk hmem
      refine ⟨some session', ?_,
        .media session' plan rfl rfl suffix backend (hcursor.symm ▸ inv')⟩
      rw [hok]
      have hsome : chunk.item.isSome = true := by
        cases hi : chunk.item with
        | none => simp [VisionChunk.itemAt, hi] at hat
        | some => rfl
      show (check _ _ >>= fun _ => check _ _ >>= fun _ => _) = _
      rw [check_bind_eq_ok, check_bind_eq_ok]
      refine ⟨hsome, ?_, rfl⟩
      rw [hat, hl.types item hitem _ hmem]
      simp

/-- **The bridge before the suffix** is built, if there is one to build. -/
theorem bridgeLane_spec (hl : PrefillingLane cfg h l x staged budget) :
    ∃ valid session bridge spans, bridgeLane cfg x staged = .ok ({ x with mtpKvValid := valid },
        { staged with vision := session, mtpBridge := bridge }, spans) ∧
      bridge ≠ .beforeSuffix ∧
      PrefillingLane cfg h l { x with mtpKvValid := valid }
        { staged with vision := session, mtpBridge := bridge } budget ∧
      ∀ span ∈ spans, SpanWithin cfg staged.promptTokens
        (backendMaterialized cfg staged.promptTokens staged.initialMtpExtent) span := by
  have hstay : staged.mtpBridge ≠ .beforeSuffix → ∃ valid session bridge spans,
      bridgeLane cfg x staged = .ok ({ x with mtpKvValid := valid },
        { staged with vision := session, mtpBridge := bridge }, spans) ∧
      bridge ≠ .beforeSuffix ∧
      PrefillingLane cfg h l { x with mtpKvValid := valid }
        { staged with vision := session, mtpBridge := bridge } budget ∧
      ∀ span ∈ spans, SpanWithin cfg staged.promptTokens
        (backendMaterialized cfg staged.promptTokens staged.initialMtpExtent) span := by
    intro hne
    refine ⟨x.mtpKvValid, staged.vision, staged.mtpBridge, [], ?_, hne, hl, by simp⟩
    rw [bridgeLane, if_pos hne]
  cases hl.bridge with
  | none bridge => exact hstay (by simp [bridge])
  | hit bridge => exact hstay (by simp [bridge])
  | after bridge => exact hstay (by simp [bridge])
  | before bridge mtp cursor pos more reached =>
    obtain ⟨session, hok, hsession⟩ := bridgeSession_spec hl cursor more
    have hsize := hl.size
    refine ⟨staged.base, session, .none, [⟨.backend, staged.base - 1, 1⟩], ?_, (by rintro ⟨⟩), ?_, ?_⟩
    · rw [bridgeLane, if_neg (by simp [bridge])]
      simp only [bind_eq_ok]
      refine ⟨(), check_of ⟨cursor, by omega, by omega⟩, (),
        check_of ⟨by omega, hl.prepared.positions_length⟩, session, hok, rfl⟩
    · exact
        { hl with
          bound := hl.bound.congr rfl rfl
          sized := { hl.sized with }
          bridge := .none rfl ⟨fun _ => cursor.symm, fun hb => by cases mtp.symm.trans hb⟩
            (cursor.symm ▸ more)
          session := hsession }
    · intro span hs
      rw [List.mem_singleton] at hs
      subst hs
      have hle := hl.size_le.2 (hasBackend_of_mtp mtp)
      exact ⟨hasBackend_of_mtp mtp, by dsimp only; omega⟩

/-! ## A chunk -/

/-- A chunk does not pass the checkpoint to capture. -/
theorem chunkLength_stops (nominal : Nat) {cursor : Nat} {capture : Option RewriteCheckpointSpec}
    {spec : RewriteCheckpointSpec} (hs : capture = some spec) (hlt : cursor < spec.frontier) :
    cursor + chunkLength cursor nominal capture ≤ spec.frontier := by
  subst hs
  unfold chunkLength
  dsimp only
  split_ifs <;> omega

theorem chunkLength_spec (cursor : Nat) {nominal : Nat} (hn : 0 < nominal)
    (capture : Option RewriteCheckpointSpec) :
    0 < chunkLength cursor nominal capture ∧ chunkLength cursor nominal capture ≤ nominal := by
  unfold chunkLength
  split
  · split_ifs <;> omega
  · omega

/-- Where a chunk may end before its nominal length: at the checkpoint to capture, or before the use
of a media item. -/
def Prefill.StopsAt (staged : Prefill) (i : Nat) : Prop :=
  (∃ spec ∈ staged.rewriteCheckpointCapture, spec.frontier = i) ∨
    ∃ plan ∈ staged.visionPlan, ∃ use ∈ plan.uses, use.start = i

theorem chunkLength_end {cursor nominal : Nat} (capture : Option RewriteCheckpointSpec) :
    chunkLength cursor nominal capture = nominal ∨
      ∃ spec ∈ capture, spec.frontier = cursor + chunkLength cursor nominal capture := by
  unfold chunkLength
  split
  · rename_i spec
    split_ifs with hcut
    · exact Or.inr ⟨spec, rfl, by omega⟩
    · exact Or.inl rfl
  · exact Or.inl rfl

/-- The session after a chunk, at a later cursor. -/
theorem SessionAt.advance {vision : Option VisionPrefillSession} {cursor : Nat}
    {given : List (Nat × Position)} (hs : SessionAt cfg { staged with vision := vision })
    (hle : staged.cursor ≤ cursor) :
    SessionAt cfg { staged with
      prompt := (releaseChunk staged.prompt vision).1
      vision := (releaseChunk staged.prompt vision).2
      cursor := cursor
      given := given } := by
  cases hs with
  | text none plan suffix =>
    cases vision with
    | none => exact .text rfl plan suffix
    | some => cases none
  | media session plan some planned suffix backend inv =>
    cases vision with
    | none => cases some
    | some session' =>
      cases some
      exact .media _ plan rfl planned suffix backend (inv.release.mono hle)

/-- **What a chunk gives the model**: the tokens from the cursor on, at the positions the prefill
gives. -/
theorem runChunk_spec (hl : PrefillingLane cfg h l x staged budget) {nominal : Nat}
    (hn : 0 < nominal) (hle : nominal ≤ staged.promptTokens - staged.cursor) :
    ∃ len chunk, runChunk cfg staged nominal = .ok chunk ∧ 0 < len ∧
      len ≤ chunkLength staged.cursor nominal staged.rewriteCheckpointCapture ∧
      (len = nominal ∨ staged.StopsAt (staged.cursor + len)) ∧
      chunk.entries =
        (List.range' staged.cursor len).map (givenEntry staged.prompt staged.base) ∧
      chunk.ropeDelta =
        (if suffixHasVisual staged.prompt staged.base then staged.prompt.ropeDelta else 0) ∧
      SessionAt cfg { staged with vision := chunk.vision } := by
  have hsize := hl.size
  have hbase := hl.base_le
  obtain ⟨hpos, hcut⟩ := chunkLength_spec staged.cursor hn
    staged.rewriteCheckpointCapture
  have hlt : staged.cursor < staged.prompt.size := by omega
  have hend : chunkLength staged.cursor nominal staged.rewriteCheckpointCapture = nominal ∨
      staged.StopsAt (staged.cursor +
        chunkLength staged.cursor nominal staged.rewriteCheckpointCapture) :=
    (chunkLength_end staged.rewriteCheckpointCapture).imp_right Or.inl
  cases hl.session with
  | text vision plan suffix =>
    refine ⟨_, _, by rw [runChunk, vision, plan], hpos, Nat.le_refl _, hend, ?_, ?_,
      .text rfl plan suffix⟩
    · refine List.map_congr_left fun i hi => textEntry_eq hl.types suffix ?_
      rw [List.mem_range'_1] at hi
      omega
    · rw [suffix]
      rfl
  | media session plan vision planned suffix backend inv =>
    obtain ⟨chunk, session', hok, hlen, hlenle, -, hstop, hitems, inv'⟩ :=
      prepareChunk_spec inv hpos hlt
    have hend' : chunk.length = nominal ∨ staged.StopsAt (staged.cursor + chunk.length) := by
      rcases hstop with heq | ⟨use, hu, hstart⟩
      · have hfull : chunk.length =
            chunkLength staged.cursor nominal staged.rewriteCheckpointCapture := by omega
        rw [hfull]
        exact hend
      · exact Or.inr (Or.inr ⟨plan, planned, use, hu, hstart⟩)
    refine ⟨chunk.length, ⟨(List.range' staged.cursor chunk.length).map
      (visionEntry staged.prompt plan chunk), staged.prompt.ropeDelta, some session'⟩, ?_, hlen,
      hlenle, hend', ?_, ?_, .media session' plan rfl planned suffix backend inv'⟩
    · rw [runChunk, vision, planned]
      dsimp only
      rw [check_bind_eq_ok]
      refine ⟨backend, ?_⟩
      rw [hok]
      rfl
    · refine List.map_congr_left fun i hi => visionEntry_eq suffix ?_
      rw [List.mem_range'_1] at hi
      exact hitems i hi.1 hi.2
    · rw [suffix]
      rfl

/-- The device after `len` prompt tokens from the cursor on. -/
def fedDevice (d : LaneDevice) (staged : Prefill) (len : Nat) (finalized : Bool) : LaneDevice :=
  let fed := chunkDevice d staged
    ((List.range' staged.cursor len).map (givenEntry staged.prompt staged.base))
  if finalized then { fed.1 with tailHidden := fed.2 } else fed.1

/-- What one part of a step feeds the device: `len` prompt tokens from the cursor on, or none. -/
structure Fed (cfg : Config n) (x : Lane) (staged : Prefill) (len : Nat) (finalized : Bool)
    (y : Lane) (staged' : Prefill) : Prop where
  cursor : staged'.cursor = staged.cursor + len
  base : staged'.base = staged.base
  promptTokens : staged'.promptTokens = staged.promptTokens
  prompt : ∃ payloads, staged'.prompt = { staged.prompt with mediaPayloads := payloads }
  capture : staged'.rewriteCheckpointCapture = staged.rewriteCheckpointCapture
  plan : staged'.visionPlan = staged.visionPlan
  moves : finalized = false → 0 < len
  cut : staged.cursor + len = staged.promptTokens ∨ len = cfg.prefillChunk ∨
    staged.StopsAt (staged.cursor + len)
  stops : ∀ spec ∈ staged.rewriteCheckpointCapture, staged.cursor < spec.frontier →
    staged.cursor + len ≤ spec.frontier
  ends : finalized = true ↔ staged'.cursor = staged.promptTokens
  device : y.device = if len = 0 then x.device else fedDevice x.device staged len finalized
  checkpoint : y.rewriteCheckpoint = x.rewriteCheckpoint
  reserved : y.reserved = x.reserved

/-- One part of a step, which processes `step.processed` prompt tokens from the cursor on. -/
structure Chunked (cfg : Config n) (h : KvHeap n) (l : Fin n) (x : Lane) (staged : Prefill)
    (budget : Nat) (step : Advanced) : Prop where
  underway : Underway cfg h l step.lane step.staged budget
  reached : BackendAt cfg step.lane step.staged.cursor
  session : SessionAt cfg step.staged
  bridge : step.staged.mtpBridge = staged.mtpBridge
  pos : 0 < step.processed
  ropeDelta : step.ropeDelta =
    if suffixHasVisual staged.prompt staged.base then staged.prompt.ropeDelta else 0
  spans : ∀ span ∈ step.spans, SpanWithin cfg staged.promptTokens
    (backendMaterialized cfg staged.promptTokens staged.initialMtpExtent) span
  fed : Fed cfg x staged step.processed step.finalized step.lane step.staged

theorem releaseChunk_payloads (prompt : PreparedPromptData) (vision : Option VisionPrefillSession) :
    ∃ payloads, (releaseChunk prompt vision).1 = { prompt with mediaPayloads := payloads } := by
  cases vision with
  | none => exact ⟨prompt.mediaPayloads, rfl⟩
  | some session => exact ⟨_, rfl⟩

/-- Releasing payloads keeps a prompt prepared: a session has media. -/
theorem SessionAt.prepared {vision : Option VisionPrefillSession} (hprep : Prepared staged.prompt)
    (hs : SessionAt cfg { staged with vision := vision }) :
    Prepared (releaseChunk staged.prompt vision).1 := by
  cases hs with
  | text none plan suffix =>
    cases vision with
    | none => exact hprep
    | some => cases none
  | media session plan some planned suffix backend inv =>
    cases vision with
    | none => cases some
    | some session' =>
      refine hprep.payloads ?_ _
      obtain ⟨i, -, hne⟩ := suffixHasVisual_iff.mp suffix
      obtain ⟨item, hi, -⟩ := hprep.covered hne
      cases hitems : staged.prompt.visionItems with
      | nil =>
        rw [hitems] at hi
        cases hi
      | cons => simp [PreparedPromptData.hasMedia, hitems]

/-- The positions given so far, with those of a chunk. -/
theorem given_append {prompt : PreparedPromptData} {base cursor len : Nat} (hle : base ≤ cursor) :
    (List.range' base (cursor - base)).map (fun i => (i, givenPosition prompt base i)) ++
        (List.range' cursor len).zip
          (((List.range' cursor len).map (givenEntry prompt base)).map (·.position)) =
      (List.range' base (cursor + len - base)).map fun i => (i, givenPosition prompt base i) := by
  have hzip : (List.range' cursor len).zip
      (((List.range' cursor len).map (givenEntry prompt base)).map (·.position)) =
      (List.range' cursor len).map fun i => (i, givenPosition prompt base i) := by
    rw [List.map_map, ← List.map_prod_left_eq_zip]
    rfl
  have hrange : List.range' base (cursor - base) ++ List.range' cursor len =
      List.range' base (cursor + len - base) := by
    have happ := List.range'_append_1 (s := base) (m := cursor - base) (n := len)
    rw [Nat.add_sub_cancel' hle] at happ
    rw [happ]
    congr 1
    omega
  rw [hzip, ← List.map_append, hrange]

/-- **A chunk** moves the cursor. -/
theorem chunkLane_spec (hl : PrefillingLane cfg h l x staged budget)
    (hmore : staged.cursor < staged.promptTokens) :
    ∃ step, chunkLane cfg x staged = .ok step ∧ Chunked cfg h l x staged budget step := by
  have hchunk := cfg.prefillChunk_pos
  have hmtp : staged.prepareMtp = true ↔ cfg.backend = .mtp := by
    rw [hl.prepareMtp, decide_eq_true_eq]
  have hnominal : 0 < min cfg.prefillChunk (staged.promptTokens - staged.cursor) := by omega
  obtain ⟨len, chunk, hrun, hpos, hcut, hend, hentries, hrope, hsession⟩ :=
    runChunk_spec hl hnominal (Nat.min_le_right ..)
  have hle := hcut.trans (chunkLength_spec _ hnominal staged.rewriteCheckpointCapture).2
  have hlen : chunk.entries.length = len := by rw [hentries, List.length_map, List.length_range']
  -- A chunk that is cut short by a checkpoint or an item is not the last one.
  have hfinal : (decide (staged.cursor + min cfg.prefillChunk (staged.promptTokens - staged.cursor) =
        staged.promptTokens) &&
      decide (chunk.entries.length =
        min cfg.prefillChunk (staged.promptTokens - staged.cursor))) = true ↔
      staged.cursor + len = staged.promptTokens := by
    rw [hlen, Bool.and_eq_true, decide_eq_true_eq, decide_eq_true_eq]
    omega
  obtain ⟨payloads, hprompt⟩ := releaseChunk_payloads staged.prompt chunk.vision
  have hbackend := hl.size_le.2
  apply Exists.intro
  apply And.intro
  · unfold chunkLane
    simp only [bind_eq_ok]
    refine ⟨chunk, hrun, (), check_of ?_, (), check_of ?_, (), check_of ?_, rfl⟩
    · omega
    · rw [hfinal, hlen]
      omega
    · rw [hfinal, hlen]
      exact id
  · exact
      { underway :=
          { hl.toUnderway with
            prepared := hsession.prepared hl.prepared
            types := by rw [hprompt]; exact hl.types
            size := by rw [hprompt]; exact hl.size
            sized := { hl.sized with }
            ledger := by rw [hprompt]; exact hl.ledger
            identity := by rw [hprompt]; exact hl.identity
            ropeDelta := by rw [hprompt]; exact hl.ropeDelta
            base_le := hl.base_le.trans (Nat.le_add_right ..)
            cursor_le := by dsimp only; omega
            textKvValid := rfl
            given := by
              dsimp only
              rw [hl.given, hprompt, hlen, hentries, given_append hl.base_le]
              rfl
            bound := hl.bound.congr rfl rfl }
        reached := ⟨fun hb => if_pos (hmtp.mpr hb), fun hb => if_pos hb⟩
        session := hsession.advance (Nat.le_add_right ..)
        bridge := rfl
        pos := hlen ▸ hpos
        ropeDelta := hrope
        spans := hl.chunkSpans_within (by omega) _
        fed :=
          { cursor := rfl
            base := rfl
            promptTokens := rfl
            prompt := ⟨payloads, hprompt⟩
            capture := rfl
            plan := rfl
            moves := fun _ => hlen ▸ hpos
            cut := by
              dsimp only
              rw [hlen]
              rcases hend with hfull | hstop
              · omega
              · exact Or.inr (Or.inr hstop)
            stops := by
              intro spec hs hlt
              have := chunkLength_stops (min cfg.prefillChunk
                (staged.promptTokens - staged.cursor)) hs hlt
              dsimp only
              omega
            ends := by
              dsimp only
              rw [hfinal, hlen]
            device := by
              dsimp only [fedDevice]
              rw [hlen, if_neg (show ¬len = 0 by omega), ← hentries]
            checkpoint := rfl
            reserved := rfl } }

/-! ## The end of a prefill -/

/-- **A prompt that is resident as a whole** needs its draft state only. -/
theorem exactHitLane_spec (hl : PrefillingLane cfg h l x staged budget)
    (hall : ¬staged.cursor < staged.promptTokens) (hbridge : staged.mtpBridge ≠ .beforeSuffix)
    (ropeDelta : Int) :
    ∃ valid bridge spans, exactHitLane x staged ropeDelta =
        .ok ⟨{ x with mtpKvValid := valid }, { staged with mtpBridge := bridge }, ropeDelta, spans, 0,
          true⟩ ∧
      staged.base = staged.promptTokens ∧
      Underway cfg h l { x with mtpKvValid := valid } { staged with mtpBridge := bridge } budget ∧
      BackendAt cfg { x with mtpKvValid := valid } staged.promptTokens ∧
      ∀ span ∈ spans, SpanWithin cfg staged.promptTokens
        (backendMaterialized cfg staged.promptTokens staged.initialMtpExtent) span := by
  have hunderway : ∀ valid bridge,
      Underway cfg h l { x with mtpKvValid := valid } { staged with mtpBridge := bridge } budget :=
    fun _ _ => { hl.toUnderway with sized := { hl.sized with }, bound := hl.bound.congr rfl rfl }
  have hprepare := hl.prepareMtp
  have hpos := hl.size_pos
  cases hl.bridge with
  | none _ _ more => exact absurd more hall
  | before bridge => exact absurd bridge hbridge
  | hit bridge ordinary reached cursor all tail =>
    have hfalse : staged.prepareMtp = false := by rw [hprepare, decide_eq_false ordinary]
    refine ⟨x.mtpKvValid, staged.mtpBridge, [], ?_, all, hunderway _ _, ?_, by simp⟩
    · rw [exactHitLane, check_bind_eq_ok]
      exact ⟨tail, if_neg (by simp [hfalse])⟩
    · rw [cursor, all] at reached
      exact reached
  | after bridge mtp cursor all tail =>
    have htrue : staged.prepareMtp = true := by rw [hprepare, decide_eq_true mtp]
    have hle := hl.size_le.2 (hasBackend_of_mtp mtp)
    refine ⟨staged.promptTokens, .none, ⟨.backend, staged.promptTokens - 1, 1⟩ ::
      closingDrafts staged.promptTokens staged.initialMtpExtent, ?_, all, hunderway _ _,
      ⟨fun _ => rfl, fun hb => nomatch mtp.symm.trans hb⟩, ?_⟩
    · rw [exactHitLane, check_bind_eq_ok]
      refine ⟨tail, ?_⟩
      rw [if_pos htrue, check_bind_eq_ok, check_bind_eq_ok]
      exact ⟨bridge, ⟨by rw [hl.size]; omega, hl.prepared.positions_length⟩, rfl⟩
    · intro span hs
      rw [List.mem_cons] at hs
      rcases hs with rfl | hs
      · exact ⟨hasBackend_of_mtp mtp, by dsimp only; omega⟩
      · exact hl.closingDrafts_within mtp span hs

/-- The exception for a token outside the token domain. -/
def tokenDomainError : Exception :=
  .runtimeError "target returned a token outside the 248077-token domain"

theorem validateLicensedTokens_cases (tokens : List TokenId) :
    validateLicensedTokens tokens = .ok () ∨
      validateLicensedTokens tokens = .error tokenDomainError := by
  unfold validateLicensedTokens check
  split_ifs
  · exact Or.inl rfl
  · exact Or.inr rfl

/-- The identity of a lane after generated tokens. -/
theorem Sized.generated {size : Nat} (hs : Sized cfg x size) (count : Nat) (hle : size ≤ 262145)
    (hc : count ≤ 16) : x.prefixIdentity.appendGenerated x.ropeDelta count = .ok
      ⟨x.prefixIdentity.tokenTypes ++ List.replicate count 0,
        x.prefixIdentity.positions ++
          ResidentPrefixIdentity.generatedPositions size x.ropeDelta count,
        x.prefixIdentity.visionItems⟩ := by
  have hcap := cfg.capacity_le
  have hrope := hs.rope
  have htypes : x.prefixIdentity.size = size := hs.types
  have := ResidentPrefixIdentity.appendGenerated_spec (show -262144 ≤ x.ropeDelta by omega) hrope.2
    count x.prefixIdentity (by rw [htypes]; omega)
  rw [htypes] at this
  exact this

/-- The checkpoint of a prefill that has ended. -/
def finishedCheckpoint (x : Lane) (staged : Prefill) : RewriteCheckpoint :=
  match staged.rewriteCheckpointCapture with
  | none => x.rewriteCheckpoint
  | some spec => ⟨true, spec.kind, spec.frontier⟩

theorem Underway.captureCheckpoint (hu : Underway cfg h l x staged budget)
    (hreached : BackendAt cfg x staged.promptTokens) :
    captureCheckpoint cfg x staged = .ok (finishedCheckpoint x staged) := by
  unfold Qwen.captureCheckpoint finishedCheckpoint
  cases hspec : staged.rewriteCheckpointCapture with
  | none => rfl
  | some spec =>
    have hin := hu.capture spec hspec
    dsimp only
    rw [check_bind_eq_ok, check_bind_eq_ok, check_bind_eq_ok]
    refine ⟨⟨by omega, hin.2⟩, fun hb => ⟨?_, ?_⟩, fun hb => ⟨?_, ?_⟩, rfl⟩
    · rw [hu.prepareMtp, decide_eq_true hb]
    · rw [hreached.1 hb]
      omega
    · rw [hu.bound.kv]
      exact hasBackend_of_dflash hb
    · rw [hreached.2 hb]
      exact hin.2

/-- The lane `z` is the lane `x` after the first token of its request. -/
structure Finished (x : Lane) (staged : Prefill) (sampled : Sampled) (z : Lane) : Prop where
  device : z.device = x.device
  ledger : z.ledger = x.ledger ++ [sampled.token]
  types : z.prefixIdentity.tokenTypes = x.prefixIdentity.tokenTypes ++ [0]
  positions : z.prefixIdentity.positions =
    x.prefixIdentity.positions ++ [.same (staged.promptTokens + x.ropeDelta)]
  items : z.prefixIdentity.visionItems = x.prefixIdentity.visionItems
  ropeDelta : z.ropeDelta = x.ropeDelta
  checkpoint : z.rewriteCheckpoint = finishedCheckpoint x staged
  promptTokens : z.pending.promptTokens = staged.promptTokens
  reserved : z.reserved = x.reserved

/-- **The first token** of a request, unless it is outside the token domain. -/
theorem finishLane_spec (hu : Underway cfg h l x staged budget)
    (hreached : BackendAt cfg x staged.promptTokens) (sampled : Sampled) :
    (∃ z, finishLane cfg x staged sampled = .ok z ∧ StartLane cfg h l z budget ∧
        Finished x staged sampled z) ∨
      finishLane cfg x staged sampled = .error tokenDomainError := by
  have hcap := hu.fits.capacity
  have hcaple := cfg.capacity_le
  have hmtp : staged.prepareMtp = true ↔ cfg.backend = .mtp := by
    rw [hu.prepareMtp, decide_eq_true_eq]
  have hidentity := hu.sized.generated 1 (by omega) (by omega)
  rcases validateLicensedTokens_cases [sampled.token] with hvalid | hvalid
  · have hcheckpoint := hu.captureCheckpoint hreached
    left
    apply Exists.intro
    apply And.intro
    · unfold finishLane
      simp only [bind_eq_ok]
      refine ⟨(), hvalid, (), check_of hu.sized.ledger, _, hidentity, (), check_of ?_, (),
        check_of ?_, _, hcheckpoint, rfl⟩
      · exact fun hp => hreached.1 (hmtp.mp hp)
      · exact fun hp => hreached.2 hp.2
    · refine ⟨?_, rfl, rfl, rfl, rfl, rfl, rfl, rfl, rfl, rfl⟩
      exact
        { lifecycle := rfl, pending := ⟨_, rfl⟩, prefill := rfl, retained := hu.retained
          size_pos := hu.size_pos
          sized :=
            { ledger := by simp [hu.sized.ledger]
              types := by simp [hu.sized.types]
              positions := by
                simp [hu.sized.positions, ResidentPrefixIdentity.generatedPositions]
              placed := hu.sized.placed.mono (Nat.le_succ _)
              rope := hu.sized.rope, dflash := hu.sized.dflash }
          textKvValid := rfl, backend := hreached, tail := rfl
          drafts := fun hb => (if_pos (hmtp.mpr hb)).trans hu.extent
          checkpoint := by
            intro hv
            show 0 < (finishedCheckpoint x staged).frontier ∧
              (finishedCheckpoint x staged).frontier ≤ staged.promptTokens
            change (finishedCheckpoint x staged).valid = true at hv
            unfold finishedCheckpoint at hv ⊢
            cases hspec : staged.rewriteCheckpointCapture with
            | none =>
              rw [hspec] at hv
              have hin := hu.checkpoint hv
              exact ⟨hin.1, hin.2.trans (hu.base_le.trans hu.cursor_le)⟩
            | some spec =>
              have hin := hu.capture spec hspec
              exact ⟨by dsimp only; omega, hin.2⟩
          fits := hu.fits
          bound := (hu.bound.mono (Nat.le_refl _) hu.size_le.2).congr rfl rfl }
  · right
    unfold finishLane
    rw [hvalid]
    rfl

/-! ## A step -/

/-- What a step of a prefill leaves: the prefill goes on, or the first token is there. -/
inductive AdvanceOutcome (cfg : Config n) (h : KvHeap n) (l : Fin n) (x : Lane) (staged : Prefill)
    (budget : Nat) (sampled : Sampled) (step : PrefillAdvance) : Prop
  | more (staged' : Prefill) (record : step.record = none)
      (prefill : step.lane.prefill = some staged') (advanced : staged'.base < staged'.cursor)
      (lane : PrefillingLane cfg h l step.lane staged' budget)
      (fed : Fed cfg x staged step.processed false step.lane staged') :
      AdvanceOutcome cfg h l x staged budget sampled step
  | done (y : Lane) (staged' : Prefill) (r : PrefillRecord) (record : step.record = some r)
      (ok : r.Ok) (prompt : r.prompt = staged'.prompt) (base : r.base = staged.base)
      (underway : Underway cfg h l y staged' budget)
      (fed : Fed cfg x staged step.processed true y staged')
      (finished : Finished y staged' sampled step.lane)
      (lane : StartLane cfg h l step.lane budget) :
      AdvanceOutcome cfg h l x staged budget sampled step

/-- The bridge feeds the text model nothing. -/
theorem Fed.of_bridge {valid : Nat} {session : Option VisionPrefillSession} {bridge : MtpBridgeMode}
    {len : Nat} {finalized : Bool} {y : Lane} {staged' : Prefill}
    (hf : Fed cfg { x with mtpKvValid := valid }
      { staged with vision := session, mtpBridge := bridge } len finalized y staged') :
    Fed cfg x staged len finalized y staged' :=
  ⟨hf.cursor, hf.base, hf.promptTokens, hf.prompt, hf.capture, hf.plan, hf.moves, hf.cut, hf.stops,
    hf.ends,
    hf.device, hf.checkpoint, hf.reserved⟩

/-- The record of a prefill that has ended. -/
theorem Underway.recordOk (hu : Underway cfg h l x staged budget)
    (hcursor : staged.cursor = staged.promptTokens) {device : Int}
    (hdevice : device = if staged.base = staged.promptTokens ∨
      suffixHasVisual staged.prompt staged.base = true then staged.prompt.ropeDelta else 0) :
    PrefillRecord.Ok ⟨staged.prompt, staged.base, staged.given, x.ropeDelta, device⟩ where
  prepared := hu.prepared
  size_pos := hu.size.symm ▸ hu.size_pos
  base_le := by
    have := hu.base_le
    have := hu.size
    dsimp only
    omega
  given := by
    dsimp only
    rw [hu.given, hcursor, hu.size]
  ropeDelta := hu.ropeDelta
  device := by
    dsimp only
    rw [hdevice, hu.size]

/-- What the chunk of a step, or the exact hit, leaves. -/
structure Advances (cfg : Config n) (h : KvHeap n) (l : Fin n) (x : Lane) (staged : Prefill)
    (budget : Nat) (step : Advanced) : Prop where
  underway : Underway cfg h l step.lane step.staged budget
  reached : BackendAt cfg step.lane step.staged.cursor
  session : SessionAt cfg step.staged
  more : step.finalized = false → step.staged.mtpBridge = .none ∧ staged.base < step.staged.cursor
  ropeDelta : step.finalized = true → step.ropeDelta =
    if staged.base = staged.promptTokens ∨ suffixHasVisual staged.prompt staged.base = true
    then staged.prompt.ropeDelta else 0
  spans : ∀ span ∈ step.spans, SpanWithin cfg staged.promptTokens
    (backendMaterialized cfg staged.promptTokens staged.initialMtpExtent) span
  fed : Fed cfg x staged step.processed step.finalized step.lane step.staged

theorem stepLane_spec (hl : PrefillingLane cfg h l x staged budget)
    (hbridge : staged.mtpBridge ≠ .beforeSuffix) {ropeDelta : Int}
    (hdelta : staged.base = staged.promptTokens → ropeDelta = staged.prompt.ropeDelta) :
    ∃ step, stepLane cfg x staged ropeDelta = .ok step ∧ Advances cfg h l x staged budget step := by
  unfold stepLane
  by_cases hmore : staged.cursor < staged.promptTokens
  · rw [if_pos hmore]
    obtain ⟨step, hstep, hc⟩ := chunkLane_spec hl hmore
    have hbase := hl.base_le
    have hnone : staged.mtpBridge = .none := by
      cases hl.bridge with
      | none bridge => exact bridge
      | hit bridge => exact bridge
      | before bridge => exact absurd bridge hbridge
      | after _ _ cursor all => omega
    refine ⟨step, hstep, hc.underway, hc.reached, hc.session, fun _ => ⟨hc.bridge.trans hnone, ?_⟩,
      fun _ => ?_, hc.spans, hc.fed⟩
    · have := hc.fed.cursor
      have := hc.pos
      omega
    · have hneq : staged.base ≠ staged.promptTokens := by omega
      rw [hc.ropeDelta]
      simp only [hneq, false_or]
  · rw [if_neg hmore]
    obtain ⟨valid, bridge, spans, hstep, hall, hu, hreached, hspans⟩ :=
      exactHitLane_spec hl hmore hbridge ropeDelta
    have hcursor : staged.cursor = staged.promptTokens := by
      have := hl.cursor_le
      omega
    refine ⟨_, hstep, hu, hcursor.symm ▸ hreached, ?_, nofun, fun _ => ?_, hspans, ?_⟩
    · cases hl.session with
      | text vision plan suffix => exact .text vision plan suffix
      | media session plan vision planned suffix backend inv =>
        exact .media session plan vision planned suffix backend inv
    · dsimp only
      rw [if_pos (Or.inl hall), hdelta hall]
    · exact
        { cursor := rfl, base := rfl, promptTokens := rfl, prompt := ⟨_, rfl⟩, capture := rfl
          plan := rfl, moves := nofun, cut := Or.inl hcursor, stops := fun _ _ hlt => hlt.le
          ends := ⟨fun _ => hcursor, fun _ => rfl⟩, device := rfl, checkpoint := rfl
          reserved := rfl }

theorem concludeLane_spec {step : Advanced} (ha : Advances cfg h l x staged budget step)
    (bridge : List KvSpan) (sampled : Sampled) :
    (∃ result, concludeLane cfg step bridge sampled = .ok result ∧
        result.spans = bridge ++ step.spans ∧
        AdvanceOutcome cfg h l x staged budget sampled result) ∨
      concludeLane cfg step bridge sampled = .error tokenDomainError := by
  have hfed := ha.fed
  obtain ⟨payloads, hprompt⟩ := hfed.prompt
  unfold concludeLane
  by_cases hfin : step.finalized = true
  · rw [if_pos hfin]
    have hend := hfed.ends.mp hfin
    have hreached : BackendAt cfg step.lane step.staged.promptTokens := by
      rw [hfed.promptTokens, ← hend]
      exact ha.reached
    have hok : PrefillRecord.Ok ⟨step.staged.prompt, step.staged.base, step.staged.given,
        step.lane.ropeDelta, step.ropeDelta⟩ := by
      refine ha.underway.recordOk (hend.trans hfed.promptTokens.symm) ?_
      rw [ha.ropeDelta hfin, hprompt, hfed.base, hfed.promptTokens]
      rfl
    rw [hfin] at hfed
    rcases finishLane_spec ha.underway hreached sampled with ⟨z, hz, hstart, hfinished⟩ | herror
    · left
      rw [hz]
      refine ⟨_, rfl, rfl, ?_⟩
      rw [← hfinished.ropeDelta] at hok
      exact .done step.lane step.staged _ rfl hok rfl hfed.base ha.underway hfed hfinished hstart
    · right
      rw [herror]
      rfl
  · rw [if_neg hfin]
    have hfalse : step.finalized = false := by simpa using hfin
    obtain ⟨hnone, hlt⟩ := ha.more hfalse
    have hmore : step.staged.cursor < step.staged.promptTokens := by
      have h₁ := ha.underway.cursor_le
      have h₂ : step.staged.cursor ≠ staged.promptTokens := fun heq => hfin (hfed.ends.mpr heq)
      rw [hfed.promptTokens] at h₁ ⊢
      omega
    rw [hfalse] at hfed
    left
    refine ⟨_, rfl, rfl, .more step.staged rfl rfl (by rw [hfed.base]; exact hlt) ?_
      ⟨hfed.cursor, hfed.base, hfed.promptTokens, hfed.prompt, hfed.capture, hfed.plan, hfed.moves,
        hfed.cut, hfed.stops, hfed.ends,
        hfed.device, hfed.checkpoint, hfed.reserved⟩⟩
    exact
      { ha.underway with
        sized := { ha.underway.sized with }
        bound := ha.underway.bound.congr rfl rfl
        bridge := .none hnone ha.reached hmore
        session := ha.session }

/-- **A step of a prefill** passes its checks; it throws only for a token outside the domain. -/
theorem advanceLane_spec (hl : PrefillingLane cfg h l x staged budget) {ropeDelta : Int}
    (hdelta : staged.base = staged.promptTokens → ropeDelta = staged.prompt.ropeDelta)
    (sampled : Sampled) :
    (∃ step, advanceLane cfg x staged ropeDelta sampled = .ok step ∧
        (∀ span ∈ step.spans, SpanWithin cfg staged.promptTokens
          (backendMaterialized cfg staged.promptTokens staged.initialMtpExtent) span) ∧
        AdvanceOutcome cfg h l x staged budget sampled step) ∨
      advanceLane cfg x staged ropeDelta sampled = .error tokenDomainError := by
  obtain ⟨valid, session, bridge, spans, hbridge, hne, hl', hspans⟩ := bridgeLane_spec hl
  obtain ⟨step, hstep, ha⟩ := stepLane_spec hl' hne hdelta
  have heq : advanceLane cfg x staged ropeDelta sampled = concludeLane cfg step spans sampled := by
    unfold advanceLane
    rw [hbridge]
    show (stepLane cfg _ _ ropeDelta >>= fun step => concludeLane cfg step spans sampled) = _
    rw [hstep]
    rfl
  have ha' : Advances cfg h l x staged budget step :=
    ⟨ha.underway, ha.reached, ha.session, ha.more, ha.ropeDelta, ha.spans, ha.fed.of_bridge⟩
  rw [heq]
  rcases concludeLane_spec ha' spans sampled with ⟨result, hok, hresult, houtcome⟩ | herror
  · left
    refine ⟨result, hok, ?_, houtcome⟩
    intro span hs
    rw [hresult] at hs
    rcases List.mem_append.mp hs with hs | hs
    · exact hspans span hs
    · exact ha.spans span hs
  · exact Or.inr herror

/-! ## The program -/

variable {s : Program n}

/-- The views of a bound lane are there. -/
theorem Bound.checkViews {text back : Nat}
    (hb : Bound cfg s.pools.heap l (s.lanes l) text back) : checkViews cfg l s = .ok () := by
  obtain ⟨w, ho, hrt, hrb, -⟩ := hb.owns
  unfold Qwen.checkViews
  rw [check_bind_eq_ok, check_bind_eq_ok, check_bind_eq_ok]
  refine ⟨by rw [hb.kv]; rfl, ?_, fun hm => ?_, check_of fun hm => ?_⟩
  · rw [ho.text.row, hrt]
    exact Int.natCast_nonneg _
  · rw [hb.kv]
    exact hasBackend_of_mtp hm
  · rw [(ho.backend (hasBackend_of_mtp hm)).row, hrb]
    exact Int.natCast_nonneg _

/-- The state after a step of a prefill. -/
def advanced (l : Fin n) (s : Program n) (step : PrefillAdvance) : Program n :=
  { (s.record l step.spans).setLane l step.lane with
    ropeDelta := step.ropeDelta
    prefills := s.prefills ++ step.record.toList }

theorem AdvanceOutcome.recordOk {sampled : Sampled} {step : PrefillAdvance}
    (ho : AdvanceOutcome cfg h l x staged budget sampled step) :
    ∀ r ∈ step.record.toList, PrefillRecord.Ok r := by
  cases ho with
  | more _ record =>
    rw [record]
    exact nofun
  | done _ _ r record ok =>
    rw [record]
    intro r' hr
    rw [Option.toList_some, List.mem_singleton] at hr
    exact hr ▸ ok

/-- **`advance_prefill`** of a lane that is being prefilled. -/
theorem advancePrefill_spec (hi : KvInv cfg s.pools.heap)
    (hprefill : (s.lanes l).prefill = some staged)
    (hl : PrefillingLane cfg s.pools.heap l (s.lanes l) staged budget)
    (hdelta : staged.base = staged.promptTokens → s.ropeDelta = staged.prompt.ropeDelta)
    (sampled : Sampled) :
    (∃ step, advancePrefill cfg l sampled s =
          .ok ⟨step.processed, if step.record.isSome then some sampled.token else none⟩
            (advanced l s step) ∧
        Stepped cfg l s (advanced l s step) ∧
        AdvanceOutcome cfg s.pools.heap l (s.lanes l) staged budget sampled step) ∨
      advancePrefill cfg l sampled s = .error tokenDomainError (clearLane l s) := by
  have hviews : (do checkViews cfg l s; advanceLane cfg (s.lanes l) staged s.ropeDelta sampled) =
      advanceLane cfg (s.lanes l) staged s.ropeDelta sampled := by
    rw [hl.bound.checkViews]
    rfl
  simp only [advancePrefill, hl.lifecycle, hprefill, hviews]
  rcases advanceLane_spec hl hdelta sampled with ⟨step, hok, hspans, houtcome⟩ | herror
  · left
    rw [hok]
    refine ⟨step, rfl, ?_, houtcome⟩
    exact
      { inv := hi, only := OnlyLane.refl _ _
        lanes := fun m hm => Function.update_of_ne hm .., egress := rfl
        calls := fun _ => Or.inl
        writes := by
          intro write hw
          rcases List.mem_append.mp hw with hw | hw
          · exact Or.inl hw
          · obtain ⟨span, hs, rfl⟩ := List.mem_map.mp hw
            exact Or.inr (hl.bound.mapped hl.fits hi (hspans span hs))
        prefills := by
          intro r hr
          rcases List.mem_append.mp hr with hr | hr
          · exact Or.inl hr
          · exact Or.inr (houtcome.recordOk r hr) }
  · right
    rw [herror]

/-- `start_prefill_lane` after its checks and its staging. -/
theorem startPrefillLane_of_staged {prompt : PreparedPromptData} {plan : RequestPlan}
    {transient : TransientRegion} {s₁ : Program n}
    (hvalid : validateStart (s.lanes l) prompt plan transient = .ok ())
    (hstage : stagePrefill cfg l prompt plan transient s = .ok () s₁) (sampled : Sampled) :
    startPrefillLane cfg l prompt plan transient sampled s =
      (advancePrefill cfg l sampled).handle (fun e s => .error e (clearLane l s)) s₁ := by
  unfold startPrefillLane
  simp only [bind, EStateM.bind, get, getThe, MonadStateOf.get, EStateM.get, Call.ofExcept, hvalid,
    Call.handle, hstage]

/-- **`start_prefill_lane`** of a plan made for the lane: it passes every check, and throws only for
a token outside the domain. -/
theorem startPrefillLane_spec {prompt : PreparedPromptData} {options : ExecutionOptions}
    {base : RequestBasePlan} {plan : RequestPlan} {transient : TransientRegion}
    (hi : KvInv cfg s.pools.heap) (hf : FreeLane cfg s.pools.heap l (s.lanes l))
    (hprep : Prepared prompt) (ha : Accepted cfg prompt options base)
    (hp : PlanOk cfg (s.lanes l) prompt base plan) (ht : Satisfies plan transient)
    (hadmits : canAdmitLane cfg s l plan = true) (sampled : Sampled) :
    ∃ s₁ staged, stagePrefill cfg l prompt plan transient s = .ok () s₁ ∧ Stepped cfg l s s₁ ∧
      s₁.prefills = s.prefills ∧ StagedFrom (s.lanes l) prompt plan (s₁.lanes l) staged ∧
      PrefillingLane cfg s₁.pools.heap l (s₁.lanes l) staged plan.summary.effectiveOutputTokens ∧
      ((∃ step, startPrefillLane cfg l prompt plan transient sampled s =
            .ok ⟨step.processed, if step.record.isSome then some sampled.token else none⟩
              (advanced l s₁ step) ∧
          Stepped cfg l s (advanced l s₁ step) ∧
          AdvanceOutcome cfg s₁.pools.heap l (s₁.lanes l) staged
            plan.summary.effectiveOutputTokens sampled step) ∨
        startPrefillLane cfg l prompt plan transient sampled s =
          .error tokenDomainError (clearLane l (clearLane l s₁))) := by
  obtain ⟨s₁, staged, hstage, hstepped, hrope, hprefills, hstaged, hl⟩ :=
    stagePrefill_spec hi hf hprep ha hp ht hadmits
  have hdelta : staged.prompt.ropeDelta = prompt.ropeDelta := by
    obtain ⟨payloads, hprompt⟩ := hstaged.payloads
    rw [hprompt]
  have heq := startPrefillLane_of_staged (validateStart_spec hprep ha hp ht) hstage sampled
  refine ⟨s₁, staged, hstage, hstepped, hprefills, hstaged, hl, ?_⟩
  rw [heq]
  rcases advancePrefill_spec hstepped.inv hstaged.prefill hl (fun _ => hrope.trans hdelta.symm)
    sampled with
    ⟨step, hok, hstep, houtcome⟩ | herror
  · left
    refine ⟨step, ?_, hstepped.trans hstep, houtcome⟩
    simp only [Call.handle, hok]
  · right
    simp only [Call.handle, herror]

end Ninfer.Qwen
