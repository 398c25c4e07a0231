import Ninfer.Qwen.Advancing

/-!
# The chunk of a prefill step

What one step of `advance_prefill` chooses: the tokens of its chunk, the media item whose embeddings
they are given, and the items encoded for them. A list of such chunks tiles a part of the prompt.

## Main definitions

* `StepChunk`, `stepChunk`: the chunk of a step
* `Tiles`: chunks that follow each other from one token to another
* `Encodes`: what becomes of a vision session

## Main results

* `Tiles.exactly_once`: chunks that do not pass a frontier end at it exactly once
* `advanceLane_chunk`: **the chunk of a step of a prefill**
-/

namespace Ninfer.Qwen

variable {n : Nat} {cfg : Config n}

/-- The chunk of a prefill step: its first token and how many there are, the item whose embeddings
it is given, and the items that the step encodes. -/
structure StepChunk where
  first : Nat
  length : Nat
  item : Option Nat
  encoded : List Nat
  deriving DecidableEq, Repr

/-- The token after a chunk. -/
def StepChunk.stop (c : StepChunk) : Nat := c.first + c.length

/-- The vision session after the bridge of a step. -/
def bridgedSession (cfg : Config n) (staged : Prefill) :
    Except Exception (Option VisionPrefillSession) :=
  if staged.mtpBridge ≠ .beforeSuffix then .ok staged.vision else bridgeSession cfg staged

/-- The chunk of a step with the session `vision`. -/
def chunkWith (cfg : Config n) (staged : Prefill) (vision : Option VisionPrefillSession) :
    Except Exception StepChunk :=
  let nominal := min cfg.prefillChunk (staged.promptTokens - staged.cursor)
  let len := chunkLength staged.cursor nominal staged.rewriteCheckpointCapture
  match vision, staged.visionPlan with
  | some session, some plan => do
    let (chunk, session) ← prepareChunk cfg.outHidden staged.prompt plan staged.transient session
      staged.cursor len
    .ok ⟨staged.cursor, chunk.length, chunk.item, session.encodedPayloadsPendingRelease⟩
  | _, _ => .ok ⟨staged.cursor, len, none, []⟩

/-- The chunk of a step of a prefill, if there is a token left. -/
def stepChunk (cfg : Config n) (staged : Prefill) : Except Exception (Option StepChunk) := do
  let vision ← bridgedSession cfg staged
  if staged.cursor < staged.promptTokens then (chunkWith cfg staged vision).map some
  else .ok none

/-! ## Tilings -/

/-- The chunks follow each other from the token `first` to the token `stop`, and none is empty. -/
def Tiles : Nat → List StepChunk → Nat → Prop
  | first, [], stop => first = stop
  | first, c :: chunks, stop => c.first = first ∧ 0 < c.length ∧ Tiles c.stop chunks stop

namespace Tiles

variable {first stop stop' : Nat} {chunks more : List StepChunk} {c : StepChunk}

theorem append : ∀ {chunks : List StepChunk} {first : Nat}, Tiles first chunks stop →
    Tiles stop more stop' → Tiles first (chunks ++ more) stop'
  | [], _, h, h' => by
    cases h
    exact h'
  | _ :: _, _, ⟨hfirst, hpos, h⟩, h' => ⟨hfirst, hpos, h.append h'⟩

theorem singleton (hfirst : c.first = first) (hpos : 0 < c.length) : Tiles first [c] c.stop :=
  ⟨hfirst, hpos, rfl⟩

theorem pos : ∀ {chunks : List StepChunk} {first : Nat}, Tiles first chunks stop →
    ∀ c ∈ chunks, 0 < c.length
  | [], _, _ => nofun
  | _ :: _, _, ⟨_, hpos, h⟩ => List.forall_mem_cons.mpr ⟨hpos, h.pos⟩

theorem le : ∀ {chunks : List StepChunk} {first : Nat}, Tiles first chunks stop → first ≤ stop
  | [], _, h => Nat.le_of_eq h
  | c :: chunks, _, ⟨hfirst, hpos, h⟩ => by
    have := h.le
    unfold StepChunk.stop at this
    omega

/-- A chunk lies after the first token. -/
theorem first_le : ∀ {chunks : List StepChunk} {first : Nat}, Tiles first chunks stop →
    ∀ c ∈ chunks, first ≤ c.first
  | [], _, _ => nofun
  | c :: chunks, _, ⟨hfirst, hpos, h⟩ => by
    refine List.forall_mem_cons.mpr ⟨hfirst.ge, fun d hd => ?_⟩
    have := h.first_le d hd
    unfold StepChunk.stop at this
    omega

/-- **Chunks cover every token** between their ends. -/
theorem covers : ∀ {chunks : List StepChunk} {first : Nat}, Tiles first chunks stop → ∀ i,
    first ≤ i → i < stop → ∃ (j : Nat) (c : StepChunk), chunks[j]? = some c ∧ c.first ≤ i ∧ i < c.stop
  | [], _, h, i, hle, hlt => by
    cases h
    omega
  | c :: chunks, _, ⟨hfirst, hpos, h⟩, i, hle, hlt => by
    by_cases hi : i < c.stop
    · exact ⟨0, c, rfl, by omega, hi⟩
    · obtain ⟨j, d, hd, hrange⟩ := h.covers i (Nat.not_lt.mp hi) hlt
      exact ⟨j + 1, d, hd, hrange⟩

/-- **Chunks that do not pass a frontier** end at it exactly once. -/
theorem exactly_once {frontier : Nat} : ∀ {chunks : List StepChunk} {first : Nat},
    Tiles first chunks stop → first < frontier → frontier ≤ stop →
    (∀ c ∈ chunks, c.first < frontier → c.stop ≤ frontier) →
    (chunks.filter fun c : StepChunk => c.stop = frontier).length = 1
  | [], _, h, hlt, hle, _ => by
    cases h
    omega
  | c :: chunks, _, ⟨hfirst, hpos, h⟩, hlt, hle, hstops => by
    have hc := hstops c (List.mem_cons_self ..) (by omega)
    by_cases heq : c.stop = frontier
    · -- The later chunks start at the frontier.
      have hnone : chunks.filter (fun c : StepChunk => c.stop = frontier) = [] := by
        rw [List.filter_eq_nil_iff]
        intro d hd hstop
        have hlater := h.first_le d hd
        have hlength := h.pos d hd
        have hstop : d.stop = frontier := of_decide_eq_true hstop
        unfold StepChunk.stop at *
        omega
      rw [List.filter_cons_of_pos (by simpa using heq), hnone, List.length_singleton]
    · rw [List.filter_cons_of_neg (by simpa using heq)]
      exact h.exactly_once (by omega) hle fun d hd => hstops d (List.mem_cons_of_mem _ hd)

end Tiles

/-! ## Sessions -/

theorem pairwise_append_of_getLast {l m : List Nat} (hl : l.Pairwise (· < ·))
    (hm : (l.getLast?.toList ++ m).Pairwise (· < ·)) : (l ++ m).Pairwise (· < ·) := by
  rcases List.eq_nil_or_concat l with rfl | ⟨init, b, rfl⟩
  · exact hm
  · rw [List.concat_eq_append] at *
    rw [List.getLast?_concat, Option.toList_some] at hm
    obtain ⟨-, hm', hb⟩ := List.pairwise_append.mp hm
    refine List.pairwise_append.mpr ⟨hl, hm', fun a ha c hc => ?_⟩
    have hbc := hb b (List.mem_singleton.mpr rfl) c hc
    rcases List.mem_append.mp ha with ha | ha
    · exact ((List.pairwise_append.mp hl).2.2 a ha b (List.mem_singleton.mpr rfl)).trans hbc
    · rwa [List.mem_singleton.mp ha]

theorem getLast?_append_of_getLast (l m : List Nat) :
    (l ++ m).getLast? = (l.getLast?.toList ++ m).getLast? := by
  rw [List.getLast?_append, List.getLast?_append]
  cases l.getLast? <;> rfl

/-- The item whose embeddings are in the transient region. -/
def activeOf (vision : Option VisionPrefillSession) : Option Nat := vision.bind (·.activeItem)

/-- The items encoded since the last release. -/
def pendingOf (vision : Option VisionPrefillSession) : List Nat :=
  (vision.map (·.encodedPayloadsPendingRelease)).getD []

/-- What becomes of a session: it encodes items, in increasing order, and the last one is in the
transient region. -/
def Encodes (vision vision' : Option VisionPrefillSession) : Prop :=
  ∃ encoded, pendingOf vision' = pendingOf vision ++ encoded ∧
    ((activeOf vision).toList ++ encoded).Pairwise (· < ·) ∧
    activeOf vision' = ((activeOf vision).toList ++ encoded).getLast?

theorem Encodes.refl (vision : Option VisionPrefillSession) : Encodes vision vision := by
  refine ⟨[], (List.append_nil _).symm, ?_, ?_⟩
  · cases activeOf vision <;> simp
  · cases activeOf vision <;> rfl

theorem Encodes.trans {v v' v'' : Option VisionPrefillSession} (h : Encodes v v')
    (h' : Encodes v' v'') : Encodes v v'' := by
  obtain ⟨encoded, hpending, hsorted, hactive⟩ := h
  obtain ⟨more, hpending', hsorted', hactive'⟩ := h'
  rw [hactive] at hsorted' hactive'
  refine ⟨encoded ++ more, ?_, ?_, ?_⟩
  · rw [hpending', hpending, List.append_assoc]
  · rw [← List.append_assoc]
    exact pairwise_append_of_getLast hsorted hsorted'
  · rw [hactive', ← List.append_assoc, ← getLast?_append_of_getLast]

section Session

variable {outHidden : Nat} {prompt : PreparedPromptData} {plan : VisionPrefillPlan}
  {transient : TransientRegion} {session session' : VisionPrefillSession}

theorem prepareItem_encodes {index : Nat}
    (h : prepareItem outHidden prompt plan transient session index = .ok session') :
    Encodes (some session) (some session') ∧ session'.activeItem = some index := by
  unfold prepareItem at h
  split at h
  next control source payload _ _ _ =>
    split_ifs at h with _ _ hsame hback _
    · cases h
      exact ⟨.refl _, hsame⟩
    · cases h
      refine ⟨⟨[index], rfl, ?_, ?_⟩, rfl⟩
      · cases ha : session.activeItem with
        | none => simp [activeOf, ha]
        | some active =>
          have hlt : active < index := by
            by_contra hle
            refine hback ?_
            rw [ha]
            simpa using hle
          simp [activeOf, ha, hlt]
      · simp [activeOf]
  next => cases h

theorem prepareChunk_encodes {start nominal : Nat} {chunk : VisionChunk}
    (h : prepareChunk outHidden prompt plan transient session start nominal =
      .ok (chunk, session')) :
    Encodes (some session) (some session') ∧ ∀ k ∈ chunk.item, session'.activeItem = some k := by
  unfold prepareChunk at h
  dsimp only at h
  split_ifs at h
  split at h
  · cases h
    exact ⟨.refl _, nofun⟩
  next use _ =>
    split at h
    · cases h
    next session'' hitem =>
      cases h
      obtain ⟨hencodes, hactive⟩ := prepareItem_encodes hitem
      refine ⟨hencodes, fun k hk => ?_⟩
      cases hk
      exact hactive

theorem bridgedSession_encodes {staged : Prefill} {vision : Option VisionPrefillSession}
    (h : bridgedSession cfg staged = .ok vision) : Encodes staged.vision vision := by
  unfold bridgedSession at h
  split_ifs at h
  · cases h
    exact .refl _
  · unfold bridgeSession at h
    split at h
    next session plan hvision _ =>
      rw [hvision]
      split_ifs at h
      · cases h
        exact .refl _
      · rw [bind_eq_ok] at h
        obtain ⟨⟨chunk, session'⟩, hchunk, h⟩ := h
        dsimp only at h
        rw [check_bind_eq_ok, check_bind_eq_ok] at h
        obtain ⟨-, -, h⟩ := h
        cases h
        exact (prepareChunk_encodes hchunk).1
    · cases h
      exact .refl _

end Session

/-! ## A step -/

/-- What the chunk of a step is, for the prefill that the step starts from: it begins at the cursor,
all its visual tokens belong to its item, and the embeddings of its item were encoded last. -/
structure StepChunk.Ok (staged : Prefill) (c : StepChunk) : Prop where
  first : c.first = staged.cursor
  pos : 0 < c.length
  tokens : ∀ (k : Nat) (item : VisionItem) (i : Nat), staged.prompt.visionItems[k]? = some item →
    i ∈ item.scatterIndices → c.first ≤ i → i < c.stop → c.item = some k
  sorted : ((activeOf staged.vision).toList ++ c.encoded).Pairwise (· < ·)
  uses : ∀ k ∈ c.item, ((activeOf staged.vision).toList ++ c.encoded).getLast? = some k

section Step

variable {l : Fin n} {h : KvHeap n} {x : Lane} {staged : Prefill} {budget : Nat}

/-- The token behind an embedding is a token of the item. -/
theorem item_of_itemAt {chunk : VisionChunk} {prompt : PreparedPromptData}
    {plan : VisionPrefillPlan} {size k i : Nat} {item : VisionItem}
    (hplaced : WellPlaced prompt.visionItems size) (hk : prompt.visionItems[k]? = some item)
    (hi : i ∈ item.scatterIndices)
    (hat : chunk.itemAt prompt plan i = itemAt prompt.visionItems i) : chunk.item = some k := by
  rw [itemAt_of_mem hplaced hk hi] at hat
  unfold VisionChunk.itemAt at hat
  rw [Option.bind_eq_some_iff] at hat
  obtain ⟨k', hk', hat⟩ := hat
  split at hat
  next control item' _ hitem' =>
    split_ifs at hat with hmem
    obtain rfl : item' = item := (Prod.mk.inj (Option.some.inj hat)).1
    rw [hk', hplaced.unique hk hitem' hi hi]
  next => cases hat

/-- The chunk functions of the schedule choose the chunk. -/
theorem runChunk_chunk (hl : PrefillingLane cfg h l x staged budget)
    (hmore : staged.cursor < staged.promptTokens) {chunk : Chunk}
    (hrun : runChunk cfg staged
      (min cfg.prefillChunk (staged.promptTokens - staged.cursor)) = .ok chunk) :
    ∃ c, chunkWith cfg staged staged.vision = .ok c ∧ c.first = staged.cursor ∧
      c.length = chunk.entries.length ∧ c.encoded = pendingOf chunk.vision ∧
      Encodes staged.vision chunk.vision ∧ (∀ k ∈ c.item, activeOf chunk.vision = some k) ∧
      ∀ (k : Nat) (item : VisionItem) (i : Nat), staged.prompt.visionItems[k]? = some item →
        i ∈ item.scatterIndices → c.first ≤ i → i < c.stop → c.item = some k := by
  have hchunk := cfg.prefillChunk_pos
  have hpos : 0 < min cfg.prefillChunk (staged.promptTokens - staged.cursor) := by omega
  have hlen := (chunkLength_spec staged.cursor hpos
    staged.rewriteCheckpointCapture).1
  have hsize := hl.size
  cases hl.session with
  | text vision plan suffix =>
    rw [runChunk, vision, plan] at hrun
    cases hrun
    have hwith : chunkWith cfg staged staged.vision = .ok ⟨staged.cursor,
        chunkLength staged.cursor (min cfg.prefillChunk (staged.promptTokens - staged.cursor))
          staged.rewriteCheckpointCapture, none, []⟩ := by
      unfold chunkWith
      rw [vision, plan]
    refine ⟨_, hwith, rfl, ?_, rfl, vision ▸ .refl _,
      fun k hk => (by cases hk), ?_⟩
    · rw [List.length_map, List.length_range']
    · -- There is no visual token after the base.
      intro k item i hk hi hle _
      exfalso
      have hcode := hl.types item (List.mem_of_getElem? hk) i hi
      have hvisual : suffixHasVisual staged.prompt staged.base = true :=
        suffixHasVisual_iff.mpr ⟨i, hl.base_le.trans hle, by
          rw [hcode]
          exact item.modality.code_ne_zero⟩
      rw [suffix] at hvisual
      cases hvisual
  | media session plan vision planned suffix backend inv =>
    obtain ⟨vc, session', hok, -, -, -, -, hitems, -⟩ := prepareChunk_spec inv hlen
      (show staged.cursor < staged.prompt.size by omega)
    rw [runChunk, vision, planned] at hrun
    dsimp only at hrun
    rw [check_bind_eq_ok, hok] at hrun
    obtain ⟨-, hrun⟩ := hrun
    cases hrun
    obtain ⟨hencodes, hactive⟩ := prepareChunk_encodes hok
    refine ⟨⟨staged.cursor, vc.length, vc.item, session'.encodedPayloadsPendingRelease⟩, ?_, rfl, ?_,
      rfl, vision ▸ hencodes, hactive, ?_⟩
    · unfold chunkWith
      rw [vision, planned]
      dsimp only
      rw [hok]
      rfl
    · rw [List.length_map, List.length_range']
    · intro k item i hk hi hle hlt
      exact item_of_itemAt inv.placed hk hi (hitems i hle hlt)

theorem releaseChunk_active (prompt : PreparedPromptData) (vision : Option VisionPrefillSession) :
    activeOf (releaseChunk prompt vision).2 = activeOf vision ∧
      pendingOf (releaseChunk prompt vision).2 = [] := by
  cases vision with
  | none => exact ⟨rfl, rfl⟩
  | some => exact ⟨rfl, rfl⟩

/-- The bridge of a step leaves the prefill as it is but for its session. -/
theorem bridgeLane_session {x' : Lane} {staged' : Prefill} {spans : List KvSpan}
    (hb : bridgeLane cfg x staged = .ok (x', staged', spans)) :
    ∃ vision bridge, bridgedSession cfg staged = .ok vision ∧
      staged' = { staged with vision := vision, mtpBridge := bridge } := by
  unfold bridgeLane at hb
  unfold bridgedSession
  split_ifs at hb ⊢ with hbridge
  · cases hb
    exact ⟨staged.vision, staged.mtpBridge, rfl, rfl⟩
  · rw [check_bind_eq_ok] at hb
    obtain ⟨-, hb⟩ := hb
    rw [check_bind_eq_ok] at hb
    obtain ⟨-, hb⟩ := hb
    rw [bind_eq_ok] at hb
    obtain ⟨vision, hvision, hb⟩ := hb
    cases hb
    exact ⟨vision, .none, hvision, rfl⟩

theorem exactHitLane_processed {ropeDelta : Int} {step : Advanced}
    (hstep : exactHitLane x staged ropeDelta = .ok step) : step.processed = 0 := by
  unfold exactHitLane at hstep
  rw [check_bind_eq_ok] at hstep
  obtain ⟨-, hstep⟩ := hstep
  split_ifs at hstep
  · rw [check_bind_eq_ok, check_bind_eq_ok] at hstep
    obtain ⟨-, -, hstep⟩ := hstep
    cases hstep
    rfl
  · cases hstep
    rfl

/-- What a chunk leaves of the prefill. -/
theorem chunkLane_session {step : Advanced} (hstep : chunkLane cfg x staged = .ok step) :
    ∃ chunk, runChunk cfg staged
        (min cfg.prefillChunk (staged.promptTokens - staged.cursor)) = .ok chunk ∧
      step.processed = chunk.entries.length ∧ 0 < step.processed ∧
      step.staged.vision = (releaseChunk staged.prompt chunk.vision).2 := by
  unfold chunkLane at hstep
  dsimp only at hstep
  rw [bind_eq_ok] at hstep
  obtain ⟨chunk, hrun, hstep⟩ := hstep
  rw [check_bind_eq_ok, check_bind_eq_ok, check_bind_eq_ok] at hstep
  obtain ⟨hlen, -, -, hstep⟩ := hstep
  cases hstep
  exact ⟨chunk, hrun, rfl, Nat.pos_of_ne_zero hlen.1, rfl⟩

/-- The prefill after a step that does not end it. -/
theorem concludeLane_prefill {step : Advanced} {bridge : List KvSpan} {sampled : Sampled}
    {result : PrefillAdvance} (hok : concludeLane cfg step bridge sampled = .ok result) :
    result.processed = step.processed ∧
      ∀ staged', result.lane.prefill = some staged' → staged' = step.staged := by
  unfold concludeLane at hok
  split_ifs at hok
  · rw [bind_eq_ok] at hok
    obtain ⟨y, hy, hok⟩ := hok
    cases hok
    refine ⟨rfl, fun staged' hprefill => ?_⟩
    unfold finishLane at hy
    simp only [bind_eq_ok] at hy
    obtain ⟨_, -, _, -, _, -, _, -, _, -, _, -, hy⟩ := hy
    cases hy
    cases hprefill
  · cases hok
    exact ⟨rfl, fun staged' hprefill => (Option.some.inj hprefill).symm⟩

/-- **The chunk of a step of a prefill**, whose session has nothing to release: there is one exactly
when a token is left, and it has the tokens that the step processes. -/
theorem advanceLane_chunk (hl : PrefillingLane cfg h l x staged budget)
    (hclean : pendingOf staged.vision = []) {ropeDelta : Int} {sampled : Sampled}
    {result : PrefillAdvance} (hok : advanceLane cfg x staged ropeDelta sampled = .ok result) :
    ∃ c, stepChunk cfg staged = .ok c ∧ (c.isSome ↔ staged.cursor < staged.promptTokens) ∧
      result.processed = (c.map (·.length)).getD 0 ∧ (∀ chunk ∈ c, chunk.Ok staged) ∧
      ∀ staged', result.lane.prefill = some staged' → ∀ chunk ∈ c,
        pendingOf staged'.vision = [] ∧
          activeOf staged'.vision = ((activeOf staged.vision).toList ++ chunk.encoded).getLast? := by
  obtain ⟨valid, vision, bridge, spans, hbridge, -, hl', -⟩ := bridgeLane_spec hl
  obtain ⟨vision', bridge', hbridged, hstaged⟩ := bridgeLane_session hbridge
  obtain rfl : vision' = vision := (congrArg Prefill.vision hstaged).symm
  unfold advanceLane at hok
  rw [hbridge] at hok
  change (stepLane cfg _ _ ropeDelta >>= fun step => concludeLane cfg step spans sampled) = _ at hok
  rw [bind_eq_ok] at hok
  obtain ⟨step, hstep, hconclude⟩ := hok
  obtain ⟨hprocessed, hprefill⟩ := concludeLane_prefill hconclude
  unfold stepLane at hstep
  unfold stepChunk
  rw [hbridged]
  change ∃ c, (if staged.cursor < staged.promptTokens then _ else _) = _ ∧ _
  by_cases hmore : staged.cursor < staged.promptTokens
  · rw [if_pos hmore] at hstep ⊢
    obtain ⟨chunk, hrun, hlen, hmoved, hvision⟩ := chunkLane_session hstep
    obtain ⟨c, hc, hfirst, hlength, hencoded, hencodes, hactive, htokens⟩ :=
      runChunk_chunk hl' hmore hrun
    have hboth := (bridgedSession_encodes hbridged).trans hencodes
    obtain ⟨encoded, hpending, hsorted, hlast⟩ := hboth
    rw [hclean, List.nil_append, ← hencoded] at hpending
    subst hpending
    have hpos : 0 < c.length := by omega
    refine ⟨some c, ?_, iff_of_true rfl hmore, ?_, ?_, ?_⟩
    · rw [show chunkWith cfg staged vision' = .ok c from hc]
      rfl
    · rw [hprocessed, hlen, ← hlength]
      rfl
    · rintro _ ⟨⟩
      exact ⟨hfirst, hpos, htokens, hsorted, fun k hk => hlast ▸ hactive k hk⟩
    · rintro staged' hstaged' _ ⟨⟩
      rw [hprefill staged' hstaged', hvision]
      obtain ⟨hkept, hreleased⟩ := releaseChunk_active staged.prompt chunk.vision
      exact ⟨hreleased, hkept.trans hlast⟩
  · rw [if_neg hmore] at hstep ⊢
    refine ⟨none, rfl, iff_of_false (fun hc => (nomatch hc)) hmore, ?_,
      fun _ hc => (nomatch hc), fun _ _ _ hc => (nomatch hc)⟩
    rw [hprocessed, exactHitLane_processed hstep]
    rfl

end Step

end Ninfer.Qwen
