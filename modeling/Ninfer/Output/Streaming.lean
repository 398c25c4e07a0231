import Ninfer.Output.Buffers

/-!
# Sessions follow the reference

A session that has accepted some tokens holds what the reference computes from them, however the
tokens came in rounds. A preview of a round returns what the reference says about the tokens so far
and those of the round, and it throws exactly when they cannot be decoded.

## Main definitions

* `Decoded`: the state and the output of a session after some tokens
* `Yields`: a preview is what the reference says

## Main results

* `feedTokenBytes_spec`: one token
* `previewFrom_spec`, `decodable_of_previewFrom`: one round
* `Setting.referenceFrom_append_of_ne`, `referenceFrom_append_of_eq`: the reference, round by round
-/

namespace Ninfer.Output

open Executor (FinishReason OutputDecision)

namespace Setting

variable {σ : Setting} {tokens : List TokenId}

theorem bytes_snoc (tokens : List TokenId) (token : TokenId) :
    σ.bytes (tokens ++ [token]) = σ.bytes tokens ++ σ.tokenBytes token := by
  rw [bytes, List.flatMap_append, List.flatMap_singleton]
  rfl

theorem text_of_scans {text rest : Bytes} (h : Scans (σ.bytes tokens) text rest) :
    σ.text tokens = text ∧ σ.incomplete tokens = rest := by
  have hsize : σ.size tokens = text.length := by
    rw [size, h.size]
  rw [Setting.text, incomplete, hsize, h.eq]
  exact ⟨List.take_left, List.drop_left⟩

theorem reasoningTokens_snoc (tokens : List TokenId) (token : TokenId) :
    σ.reasoningTokens (tokens ++ [token]) =
      σ.reasoningTokens tokens + if σ.inReasoning tokens then 1 else 0 := by
  rw [reasoningTokens, reasoningTokens, List.length_append, List.length_singleton, List.range_succ,
    List.countP_append, List.countP_singleton, List.take_left]
  congr 1
  refine List.countP_congr fun k hk => ?_
  rw [List.take_append_of_le_length (List.mem_range.mp hk).le]

/-- No stop string cuts the output exactly when none occurs in the text of its channel. -/
theorem cut_eq_none_iff (hp : σ.policy.Merged) : σ.cut tokens = none ↔
    ∀ c, ∀ pat ∈ σ.policy.texts c, ¬pat <:+: σ.released tokens c := by
  have hne : ∀ stop ∈ σ.policy.strings, stop.text ≠ [] := fun stop hs => (hp stop hs).1
  constructor
  · intro h c pat hm
    obtain ⟨stop, hs, hc, rfl⟩ := StopPolicy.mem_texts.mp hm
    have hspec := fun c => earliest_spec c (σ.released tokens c) hne
    rw [cut, cutOf] at h
    cases hr : earliest σ.policy.strings .reasoning (σ.released tokens .reasoning) with
    | some found =>
      rw [hr] at h
      cases h
    | none =>
      rw [hr] at h
      have h : earliest σ.policy.strings .content (σ.released tokens .content) = none := h
      have hreasoning := hspec .reasoning
      have hcontent := hspec .content
      rw [hr] at hreasoning
      rw [h] at hcontent
      cases c with
      | reasoning => exact hreasoning stop hs hc
      | content => exact hcontent stop hs hc
  · intro h
    have hnone : ∀ c, earliest σ.policy.strings c (σ.released tokens c) = none := fun c =>
      earliest_eq_none hne fun stop hs hc =>
        h c _ (StopPolicy.mem_texts.mpr ⟨stop, hs, hc, rfl⟩)
    rw [cut, cutOf, hnone, hnone]

/-! ### The reference, token by token -/

section Step

variable {limitReason : FinishReason} {budget : Nat} {seen : List TokenId} {token : TokenId}

theorem stops_snoc : σ.stops (seen ++ [token]) =
    ((σ.cut (seen ++ [token])).isSome || decide (token ∈ σ.policy.tokenIds)) := by
  rw [stops, List.getLast?_concat]
  rfl

theorem referenceFrom_of_cut {stop : StopString} {i : Nat}
    (hcut : σ.cut (seen ++ [token]) = some (stop, i)) :
    σ.referenceFrom limitReason budget seen (token :: tokens) =
      ⟨publishedAtCut (σ.released (seen ++ [token])) stop i, (seen ++ [token]).length, .stopString,
        σ.reasoningTokens (seen ++ [token])⟩ := by
  rw [referenceFrom, finishes, stops_snoc, hcut]
  refine (if_pos rfl).trans ?_
  rw [finish, hcut]

variable (hcut : σ.cut (seen ++ [token]) = none)

include hcut

theorem referenceFrom_of_stopToken (hstop : token ∈ σ.policy.tokenIds) :
    σ.referenceFrom limitReason budget seen (token :: tokens) =
      ⟨σ.final (if σ.policy.publishStopToken then seen ++ [token] else seen),
        (seen ++ [token]).length, .stopToken, σ.reasoningTokens (seen ++ [token])⟩ := by
  rw [referenceFrom, finishes, stops_snoc, hcut, decide_eq_true hstop]
  refine (if_pos rfl).trans ?_
  rw [finish, hcut]
  exact if_pos hstop

variable (hstop : token ∉ σ.policy.tokenIds)

include hstop

theorem stops_eq_false : σ.stops (seen ++ [token]) = false := by
  rw [stops_snoc, hcut, decide_eq_false hstop]
  rfl

theorem referenceFrom_of_limit (hlen : (seen ++ [token]).length = budget) :
    σ.referenceFrom limitReason budget seen (token :: tokens) =
      ⟨σ.final (seen ++ [token]), (seen ++ [token]).length, limitReason,
        σ.reasoningTokens (seen ++ [token])⟩ := by
  rw [referenceFrom, finishes, stops_eq_false hcut hstop, decide_eq_true hlen]
  refine (if_pos rfl).trans ?_
  rw [finish, hcut]
  exact if_neg hstop

theorem referenceFrom_of_next (hlen : (seen ++ [token]).length ≠ budget) :
    σ.referenceFrom limitReason budget seen (token :: tokens) =
      σ.referenceFrom limitReason budget (seen ++ [token]) tokens := by
  rw [referenceFrom, finishes, stops_eq_false hcut hstop, decide_eq_false hlen]
  exact if_neg (by decide)

end Step

end Setting

/-- The state of the decoder and the output of a session, after some tokens. -/
structure Decoded (σ : Setting) (prior : PublishedOutput) (tokens : List TokenId)
    (state : DecoderState) (emitted : PublishedOutput) : Prop where
  scans : Scans (σ.bytes tokens) (σ.text tokens) state.utf8Pending
  buffers : Buffers σ.policy σ.startsInReasoning prior (σ.text tokens) state emitted
  terminal : state.terminal = false
  reasoningTokens : state.reasoningTokens = σ.reasoningTokens tokens

/-! ## One token -/

section Token

variable {σ : Setting} {prior emitted : PublishedOutput} {tokens : List TokenId} {token : TokenId}
  {state : DecoderState} (hD : Decoded σ prior tokens state emitted)

include hD

/-- Counting a token changes nothing else. -/
theorem Decoded.countReasoning (token : TokenId) :
    Buffers σ.policy σ.startsInReasoning prior (σ.text tokens)
        (OutputSession.countReasoning state) emitted ∧
      (OutputSession.countReasoning state).utf8Pending = state.utf8Pending ∧
      (OutputSession.countReasoning state).terminal = false ∧
      (OutputSession.countReasoning state).reasoningTokens =
        σ.reasoningTokens (tokens ++ [token]) := by
  have hB := hD.buffers
  rw [Setting.reasoningTokens_snoc, ← hD.reasoningTokens, Setting.inReasoning, ← hB.inReasoning,
    OutputSession.countReasoning]
  split_ifs
  · exact ⟨⟨hB.inReasoning, hB.marker, hB.strip, hB.decoded, hB.wellFormed, hB.opened,
      hB.reasoning, hB.closed, hB.content⟩, rfl, hD.terminal, rfl⟩
  · exact ⟨hB, rfl, hD.terminal, rfl⟩

/-- **One token**: the state follows the tokens, and the match is the cut. -/
theorem feedTokenBytes_spec (hp : σ.policy.Merged) (hcut : σ.cut tokens = none)
    (hs : σ.Scannable (tokens ++ [token])) (committedTokens : Nat) :
    ∃ f', feedTokenBytes σ.policy committedTokens true (σ.tokenBytes token)
        { state := OutputSession.countReasoning state, emitted := emitted } = .ok f' ∧
      Decoded σ prior (tokens ++ [token]) f'.state f'.emitted ∧
      Matched σ.policy prior (σ.released (tokens ++ [token])) committedTokens f'.best := by
  obtain ⟨hB, hpending, hterminal, hcount⟩ := hD.countReasoning token
  obtain ⟨text, rest, hscan⟩ := hs
  obtain ⟨htext, -⟩ := Setting.text_of_scans hscan
  rw [Setting.bytes_snoc] at hscan
  obtain ⟨x, rfl, hx⟩ := hD.scans.of_append hscan
  have hsize := hx.size
  rw [← hpending] at hsize
  rw [feedTokenBytes]
  dsimp only
  by_cases hnil : x.length = 0
  · -- No character is complete, and no text is released.
    obtain rfl := List.length_eq_zero_iff.mp hnil
    rw [List.append_nil] at htext hscan
    refine ⟨_, bind_eq_ok.mpr ⟨0, hsize, if_pos rfl⟩, ⟨?_, ?_, hterminal, hcount⟩, ?_⟩
    · rw [Setting.bytes_snoc, htext, hpending]
      refine ⟨?_, hscan.text, ?_⟩
      · rw [hD.scans.eq, List.append_assoc]
      · rw [hx.eq]
        exact hx.rest
    · rw [htext]
      exact ⟨hB.inReasoning, hB.marker, hB.strip, hB.decoded, hB.wellFormed, hB.opened,
        hB.reasoning, hB.closed, hB.content⟩
    · have hreleased : σ.released (tokens ++ [token]) = σ.released tokens := by
        funext c
        rw [Setting.released, htext]
        rfl
      rw [Matched, hreleased, show cutOf σ.policy (σ.released tokens) = none from hcut]
  · obtain ⟨f', hok, hB', hsame, hmatch⟩ := feedDecodedText_spec
      (f := { state := { OutputSession.countReasoning state with utf8Pending := rest }
              emitted := emitted })
      hp ⟨hB.inReasoning, hB.marker, hB.strip, hB.decoded, hB.wellFormed, hB.opened,
        hB.reasoning, hB.closed, hB.content⟩
      hD.scans.text hx.text committedTokens true rfl
      fun _ => (Setting.cut_eq_none_iff hp).mp hcut
    have hbind : feedTokenBytes σ.policy committedTokens true (σ.tokenBytes token)
        { state := OutputSession.countReasoning state, emitted := emitted } = .ok f' := by
      refine bind_eq_ok.mpr ⟨x.length, hsize, ?_⟩
      rw [if_neg hnil]
      dsimp only
      rw [hpending, hx.eq, List.take_left, List.drop_left]
      exact hok
    refine ⟨f', hbind, ⟨?_, ?_, ?_, ?_⟩, ?_⟩
    · rw [Setting.bytes_snoc, htext, hsame.utf8Pending]
      exact hscan
    · rw [htext]
      exact hB'
    · exact hsame.terminal.trans hterminal
    · exact hsame.reasoningTokens.trans hcount
    · have hreleased : σ.released (tokens ++ [token]) =
          releasedText σ.startsInReasoning (σ.text tokens ++ x) := by
        funext c
        rw [Setting.released, htext]
      rw [hreleased]
      exact hmatch rfl

/-- A token is fed only when the bytes can be scanned. -/
theorem scannable_of_feedTokenBytes {committedTokens : Nat} {f' : Feeding}
    (h : feedTokenBytes σ.policy committedTokens true (σ.tokenBytes token)
      { state := OutputSession.countReasoning state, emitted := emitted } = .ok f') :
    σ.Scannable (tokens ++ [token]) := by
  obtain ⟨-, hpending, -, -⟩ := hD.countReasoning token
  obtain ⟨size, hsize, -⟩ := bind_eq_ok.mp h
  dsimp only at hsize
  rw [hpending] at hsize
  obtain ⟨x, rest, hx, -⟩ := validUtf8PrefixSize_eq_ok_iff.mp hsize
  refine ⟨σ.text tokens ++ x, rest, ?_⟩
  rw [Setting.bytes_snoc]
  exact hD.scans.append hx

end Token

/-! ## One round -/

theorem Buffered.published_eq {policy : StopPolicy} {channel : OutputChannel}
    {text published pending : Bytes} (hb : Buffered policy channel text published pending) :
    published = text.take (text.length - stopHoldSize text channel policy) := by
  have hpending := hb.kept.unique (kept_stopHoldSize text channel policy)
  have heq := hb.eq.trans (List.take_append_drop
    (text.length - stopHoldSize text channel policy) text).symm
  rw [hpending] at heq
  exact List.append_cancel_right heq

theorem Decoded.textOf {σ : Setting} {prior emitted : PublishedOutput} {tokens : List TokenId}
    {state : DecoderState} (hD : Decoded σ prior tokens state emitted) (c : OutputChannel) :
    textOf c (prior ++ emitted) = σ.publishedSoFar tokens c := by
  have hB := hD.buffers
  rw [Setting.publishedSoFar, Setting.inReasoning]
  cases c with
  | content =>
    rw [if_neg fun h => nomatch h.1]
    exact hB.content.published_eq
  | reasoning =>
    cases h : stillReasoning σ.startsInReasoning (σ.text tokens) with
    | false =>
      rw [if_pos ⟨rfl, rfl⟩]
      exact hB.closed h
    | true =>
      rw [if_neg (by decide)]
      exact (hB.reasoning h).published_eq

/-- A preview is what the reference says; `before` tokens were accepted in the rounds before. -/
structure Yields (prior : PublishedOutput) (before : Nat) (outcome : Outcome)
    (decision : OutputDecision) (state : DecoderState) (output : PublishedOutput) : Prop where
  accepted : before + decision.acceptedTokens = outcome.acceptedTokens
  reason : decision.finishReason = outcome.finishReason
  reasoningTokens : state.reasoningTokens = outcome.reasoningTokens
  wellFormed : WellFormed prior output
  texts : ∀ c, textOf c (prior ++ output) = outcome.published c
  terminal : state.terminal = decision.finished

/-- What is decoded with is what the session has. -/
structure OutputSession.DecodesWith (s : OutputSession) (σ : Setting) : Prop where
  tokenizer : s.tokenizer = σ.tokenizer
  policy : s.policy = σ.policy
  preserveSpecial : s.preserveSpecial = σ.preserveSpecial

section Round

variable {σ : Setting} {prior : PublishedOutput} {s : OutputSession} (hset : s.DecodesWith σ)
  (hp : σ.policy.Merged) {limitReason : FinishReason} (hlimit : limitReason ≠ .none)
  {budget before : Nat}

include hset

theorem tokenBytes_of_ok {token : TokenId} {bytes : Bytes}
    (h : s.tokenizer.decodeTokenBytes token (!s.preserveSpecial) = .ok bytes) :
    σ.tokenBytes token = bytes := by
  rw [Setting.tokenBytes, ← hset.tokenizer, ← hset.preserveSpecial, h]

include hp hlimit

variable (before) in
omit hset hlimit in
/-- At the end of the output what was kept back is published. -/
theorem yields_flushed {tokens accepted : List TokenId} {emitted : PublishedOutput}
    {state : DecoderState} {reason : FinishReason} {count : Nat}
    (hB : Buffers σ.policy σ.startsInReasoning prior (σ.text tokens) state emitted)
    (hscan : Scans (σ.bytes tokens) (σ.text tokens) state.utf8Pending)
    (htokens : state.reasoningTokens = σ.reasoningTokens accepted)
    (hcount : before + count = accepted.length) (hreason : reason ≠ .none) :
    ∃ state' output, terminalize σ.policy count state emitted = .ok (state', output) ∧
      Yields prior before
        ⟨σ.final tokens, accepted.length, reason, σ.reasoningTokens accepted⟩ ⟨count, reason⟩ state'
        output := by
  obtain ⟨state', output, hok, hterminal, hflushed⟩ := terminalize_spec hp hscan.text count hB
  refine ⟨state', output, hok, hcount, rfl, hflushed.reasoningTokens.trans htokens,
    hflushed.wellFormed, fun c => ?_, ?_⟩
  · rw [hflushed.texts c]
    dsimp only
    rw [Setting.final, (Setting.text_of_scans hscan).2]
  · rw [hterminal]
    exact (decide_eq_true hreason).symm

variable (budget before) in
/-- **One round**: a preview of tokens that can be decoded returns what the reference says. -/
theorem previewFrom_spec : ∀ (tokens seen : List TokenId) (count : Nat) (state : DecoderState)
    (output : PublishedOutput), seen.length = before + count → count + tokens.length ≤ budget →
    count < budget → Decoded σ prior seen state output → σ.cut seen = none →
    σ.Decodable seen tokens →
    ∃ decision state' output',
      s.previewFrom budget limitReason count state output tokens = .ok (decision, state', output') ∧
      Yields prior before (σ.referenceFrom limitReason (before + budget) seen tokens) decision state'
        output' ∧
      (decision.finished = false → Decoded σ prior (seen ++ tokens) state' output' ∧
        σ.cut (seen ++ tokens) = none ∧ decision.acceptedTokens = count + tokens.length) := by
  intro tokens
  induction tokens with
  | nil =>
    intro seen count state output hlen _ hlt hD hcut _
    refine ⟨⟨count, .none⟩, state, output, if_neg (by omega), ⟨hlen.symm, rfl, hD.reasoningTokens,
      hD.buffers.wellFormed, hD.textOf, hD.terminal⟩, fun _ => ?_⟩
    rw [List.append_nil]
    exact ⟨hD, hcut, rfl⟩
  | cons token tokens ih =>
    intro seen count state output hlen hle hlt hD hcut hdec
    obtain ⟨hvalid, ⟨bytes, hbytes⟩, hscan, hrest⟩ := hdec
    rw [← hset.tokenizer] at hvalid hbytes
    rw [← hset.preserveSpecial] at hbytes
    obtain rfl := tokenBytes_of_ok hset hbytes
    obtain ⟨f, hfeed, hD', hmatch⟩ := feedTokenBytes_spec hD hp hcut hscan (count + 1)
    rw [← hset.policy] at hfeed
    have hlen' : (seen ++ [token]).length = before + (count + 1) := by
      rw [List.length_append, List.length_singleton]
      omega
    cases hcut' : σ.cut (seen ++ [token]) with
    | some cut =>
      obtain ⟨stop, i⟩ := cut
      rw [Matched, show cutOf σ.policy (σ.released (seen ++ [token])) = some (stop, i) from hcut']
        at hmatch
      obtain ⟨found, hbest, hcommitted, hwell, htexts⟩ := hmatch
      rw [OutputSession.previewFrom, if_neg (by rw [hvalid]; decide),
        Setting.referenceFrom_of_cut hcut']
      refine ⟨⟨found.committedTokens, .stopString⟩, terminalState f.state, found.output,
        bind_eq_ok.mpr ⟨_, hbytes, bind_eq_ok.mpr ⟨f, hfeed, by rw [hbest]⟩⟩, ?_,
        (by rintro ⟨⟩)⟩
      exact ⟨by rw [hcommitted, hlen'], rfl, hD'.reasoningTokens, hwell, htexts, rfl⟩
    | none =>
      rw [Matched, show cutOf σ.policy (σ.released (seen ++ [token])) = none from hcut'] at hmatch
      by_cases hstop : token ∈ σ.policy.tokenIds
      · rw [OutputSession.previewFrom, if_neg (by rw [hvalid]; decide),
          Setting.referenceFrom_of_stopToken hcut' hstop]
        -- A hidden stop token is taken back, but it stays counted.
        obtain ⟨state', output', hok, hyields⟩ : ∃ state' output',
            OutputSession.terminalizeAtToken s.policy (count + 1) f
                (OutputSession.countReasoning state) output = .ok (state', output') ∧
            Yields prior before
              ⟨σ.final (if σ.policy.publishStopToken then seen ++ [token] else seen),
                (seen ++ [token]).length, .stopToken, σ.reasoningTokens (seen ++ [token])⟩
              ⟨count + 1, .stopToken⟩ state' output' := by
          rw [OutputSession.terminalizeAtToken, hset.policy]
          split_ifs
          · exact yields_flushed hp before hD'.buffers hD'.scans hD'.reasoningTokens hlen'.symm
              (by decide)
          · obtain ⟨hB, hpending, -, hcount⟩ := hD.countReasoning token
            exact yields_flushed hp before hB (by rw [hpending]; exact hD.scans) hcount hlen'.symm
              (by decide)
        refine ⟨_, state', output', bind_eq_ok.mpr ⟨_, hbytes, bind_eq_ok.mpr
          ⟨f, hfeed, ?_⟩⟩, hyields, by rintro ⟨⟩⟩
        rw [hmatch]
        dsimp only
        rw [if_pos (by rw [hset.policy]; exact hstop), hok]
      · have hnext : ∀ {r}, s.previewFrom budget limitReason (count + 1) f.state f.emitted tokens =
            .ok r →
            s.previewFrom budget limitReason count state output (token :: tokens) = .ok r := by
          intro r hr
          rw [OutputSession.previewFrom, if_neg (by rw [hvalid]; decide)]
          refine bind_eq_ok.mpr ⟨_, hbytes, bind_eq_ok.mpr ⟨f, hfeed, ?_⟩⟩
          rw [hmatch]
          dsimp only
          rw [if_neg (by rw [hset.policy]; exact hstop)]
          exact hr
        by_cases hlast : count + 1 = budget
        · -- The budget is spent, and no token is left.
          obtain rfl : tokens = [] := by
            rw [List.length_cons] at hle
            exact List.length_eq_zero_iff.mp (by omega)
          rw [Setting.referenceFrom_of_limit hcut' hstop (by omega)]
          obtain ⟨state', output', hok, hyields⟩ := yields_flushed hp before hD'.buffers
            hD'.scans hD'.reasoningTokens hlen'.symm hlimit
          refine ⟨_, state', output', hnext ?_, hyields, ?_⟩
          · rw [OutputSession.previewFrom, if_pos hlast, hset.policy, hok]
          · exact fun h => absurd (of_decide_eq_false h) (not_not.mpr hlimit)
        · rw [Setting.referenceFrom_of_next hcut' hstop (by omega)]
          obtain ⟨decision, state', output', hok, hyields, hopen⟩ := ih
            (seen ++ [token]) (count + 1) f.state f.emitted hlen'
            (by rw [List.length_cons] at hle; omega) (by omega) hD' hcut'
            (hrest (Setting.stops_eq_false hcut' hstop))
          refine ⟨decision, state', output', hnext hok, hyields, fun h => ?_⟩
          obtain ⟨hD'', hcut'', haccepted⟩ := hopen h
          rw [List.append_assoc, List.singleton_append] at hD'' hcut''
          refine ⟨hD'', hcut'', ?_⟩
          rw [haccepted, List.length_cons]
          omega

omit hlimit in
/-- A round is previewed only when its tokens can be decoded. -/
theorem decodable_of_previewFrom : ∀ (tokens seen : List TokenId) {count : Nat}
    {state : DecoderState} {output : PublishedOutput} {r}, Decoded σ prior seen state output →
    σ.cut seen = none → s.previewFrom budget limitReason count state output tokens = .ok r →
    σ.Decodable seen tokens
  | [], _, _, _, _, _, _, _, _ => trivial
  | token :: tokens, seen, count, state, output, r, hD, hcut, h => by
    have hvalid : s.tokenizer.isValidToken token = true := by
      cases hvalid : s.tokenizer.isValidToken token with
      | true => rfl
      | false =>
        rw [OutputSession.previewFrom, if_pos hvalid] at h
        exact nomatch h
    rw [OutputSession.previewFrom, if_neg (by rw [hvalid]; decide)] at h
    obtain ⟨bytes, hbytes, h⟩ := bind_eq_ok.mp h
    obtain rfl := tokenBytes_of_ok hset hbytes
    obtain ⟨f, hfeed, h⟩ := bind_eq_ok.mp h
    rw [hset.policy] at hfeed h
    have hscan := scannable_of_feedTokenBytes hD hfeed
    rw [hset.tokenizer] at hvalid hbytes
    rw [hset.preserveSpecial] at hbytes
    refine ⟨hvalid, ⟨_, hbytes⟩, hscan, fun hgoes => ?_⟩
    obtain ⟨f', hfeed', hD', hmatch⟩ := feedTokenBytes_spec hD hp hcut hscan (count + 1)
    obtain rfl := Except.ok.inj (hfeed.symm.trans hfeed')
    rw [Setting.stops_snoc, Bool.or_eq_false_iff, Option.isSome_eq_false_iff,
      Option.isNone_iff_eq_none] at hgoes
    rw [Matched, show cutOf σ.policy (σ.released (seen ++ [token])) = none from hgoes.1] at hmatch
    rw [hmatch] at h
    dsimp only at h
    rw [if_neg (of_decide_eq_false hgoes.2)] at h
    exact decodable_of_previewFrom tokens (seen ++ [token]) hD' hgoes.1 h

end Round

/-! ## The reference, round by round -/

namespace Setting

variable {σ : Setting} {limitReason : FinishReason} {budget : Nat}

/-- Tokens none of which stops the output. -/
def Goes (σ : Setting) (seen : List TokenId) : List TokenId → Prop
  | [] => True
  | token :: tokens => σ.stops (seen ++ [token]) = false ∧ Goes σ (seen ++ [token]) tokens

theorem finish_reason_ne (hlimit : limitReason ≠ .none) (seen : List TokenId) (token : TokenId) :
    (σ.finish seen token limitReason).finishReason ≠ .none := by
  rw [finish]
  split
  · exact nofun
  · by_cases hstop : token ∈ σ.policy.tokenIds
    · rw [if_pos hstop]
      exact nofun
    · rw [if_neg hstop]
      exact hlimit

section Append

variable (hlimit : limitReason ≠ .none)

include hlimit

omit hlimit in
/-- The reference of more tokens, once the output has ended. -/
theorem referenceFrom_append_of_ne : ∀ {seen : List TokenId} (tokens more : List TokenId),
    (σ.referenceFrom limitReason budget seen tokens).finishReason ≠ .none →
    σ.referenceFrom limitReason budget seen (tokens ++ more) =
      σ.referenceFrom limitReason budget seen tokens
  | _, [], _, h => absurd rfl h
  | seen, token :: tokens, more, h => by
    rw [List.cons_append, referenceFrom, referenceFrom]
    rw [referenceFrom] at h
    split_ifs at h ⊢ with hfinishes
    · rfl
    · exact referenceFrom_append_of_ne tokens more h

/-- The reference of more tokens, while the output goes on. -/
theorem referenceFrom_append_of_eq : ∀ {seen : List TokenId} (tokens more : List TokenId),
    (σ.referenceFrom limitReason budget seen tokens).finishReason = .none →
    σ.referenceFrom limitReason budget seen (tokens ++ more) =
        σ.referenceFrom limitReason budget (seen ++ tokens) more ∧ σ.Goes seen tokens
  | seen, [], more, _ => by
    rw [List.append_nil]
    exact ⟨rfl, trivial⟩
  | seen, token :: tokens, more, h => by
    rw [referenceFrom] at h
    rw [List.cons_append, referenceFrom]
    split_ifs at h ⊢ with hfinishes
    · exact absurd h (finish_reason_ne hlimit seen token)
    · obtain ⟨heq, hgoes⟩ := referenceFrom_append_of_eq tokens more h
      rw [List.append_assoc, List.singleton_append] at heq
      rw [finishes, Bool.not_eq_true, Bool.or_eq_false_iff] at hfinishes
      exact ⟨heq, hfinishes.1, hgoes⟩

omit hlimit in
/-- Tokens none of which stops the output end it only when the budget is spent. -/
theorem length_of_goes : ∀ {seen : List TokenId} (tokens : List TokenId), σ.Goes seen tokens →
    seen.length + tokens.length ≤ budget →
    (σ.referenceFrom limitReason budget seen tokens).finishReason ≠ .none →
    seen.length + tokens.length = budget
  | _, [], _, _, h => absurd rfl h
  | seen, token :: tokens, hgoes, hle, h => by
    rw [referenceFrom, finishes, hgoes.1, Bool.false_or] at h
    have hlen : (seen ++ [token]).length = seen.length + 1 := List.length_append
    rw [List.length_cons] at hle ⊢
    split_ifs at h with hlast
    · have := of_decide_eq_true hlast
      omega
    · have := length_of_goes tokens hgoes.2 (by omega) h
      omega

end Append

/-- Tokens can be decoded when the first of them can, and the others unless one of the first stops
the output. -/
theorem Decodable.append : ∀ {seen : List TokenId} (tokens : List TokenId) {more : List TokenId},
    σ.Decodable seen tokens → (σ.Goes seen tokens → σ.Decodable (seen ++ tokens) more) →
    σ.Decodable seen (tokens ++ more)
  | seen, [], more, _, hmore => by
    have h := hmore trivial
    rwa [List.append_nil] at h
  | seen, token :: tokens, more, hdec, hmore => by
    obtain ⟨hvalid, hbytes, hscan, hrest⟩ := hdec
    refine ⟨hvalid, hbytes, hscan, fun hgoes => Decodable.append tokens (hrest hgoes) fun h => ?_⟩
    have h := hmore ⟨hgoes, h⟩
    rwa [← List.singleton_append, ← List.append_assoc] at h

end Setting

end Ninfer.Output
