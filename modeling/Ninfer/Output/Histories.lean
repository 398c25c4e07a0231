import Ninfer.Output.Streaming

/-!
# Histories of a session

A session between two rounds holds the decoded text of the tokens it has accepted, along every
history of previews and commits. The rounds of a request then come to what the reference says, and
the same tokens come to the same output in any other rounds.

## Main definitions

* `OutputSession.Holds`: a session between two rounds

## Main results

* `OutputSession.preview_eq_ok_iff`, `OutputSession.Holds.preview_iff`: when a preview returns
* `OutputSession.Holds.commit`: a turn and its commit
* `OutputSession.Reached.holds`: along a history
* `OutputSession.Holds.run`: the rounds of a request
* `OutputSession.Holds.run_singletons`: rounds of one token
-/

namespace Ninfer.Output

open Executor (FinishReason OutputDecision)

theorem WellFormed.shift {prior emitted : PublishedOutput} (hw : WellFormed prior emitted) :
    WellFormed (prior ++ emitted) [] :=
  ⟨nofun, List.nil_sublist _, by rw [List.append_nil]; exact hw.ordered⟩

/-- After a commit, what was emitted is part of what was published before. -/
theorem Decoded.shift {σ : Setting} {prior emitted : PublishedOutput} {tokens : List TokenId}
    {state : DecoderState} (hD : Decoded σ prior tokens state emitted) :
    Decoded σ (prior ++ emitted) tokens state [] := by
  have hB := hD.buffers
  have hnil : prior ++ emitted ++ [] = prior ++ emitted := List.append_nil _
  refine ⟨hD.scans, ⟨hB.inReasoning, hB.marker, hB.strip, hB.decoded, hB.wellFormed.shift, ?_, ?_, ?_,
    ?_⟩, hD.terminal, hD.reasoningTokens⟩
  · rw [hnil]
    exact hB.opened
  · rw [hnil]
    exact hB.reasoning
  · rw [hnil]
    exact hB.closed
  · rw [hnil]
    exact hB.content

/-- A session between two rounds, after some tokens. -/
structure OutputSession.Holds (s : OutputSession) (σ : Setting) (prior : PublishedOutput)
    (tokens : List TokenId) : Prop where
  setting : s.DecodesWith σ
  merged : σ.policy.Merged
  previewed : s.previewed = none
  decoded : s.state.terminal = false → Decoded σ prior tokens s.state [] ∧ σ.cut tokens = none

/-- Nothing was decoded. -/
theorem buffers_nil (policy : StopPolicy) (starts : Bool) :
    Buffers policy starts [] [] { inReasoning := starts } [] where
  inReasoning := (Bool.and_true starts).symm
  marker := by cases starts <;> rfl
  strip := by cases starts <;> rfl
  decoded := by cases starts <;> rfl
  wellFormed := ⟨nofun, List.nil_sublist _, List.Pairwise.nil⟩
  opened := fun _ _ => nofun
  reasoning := by
    cases starts
    · exact nofun
    · exact fun _ => Buffered.nil _ _
  closed := by
    cases starts
    · exact fun _ => rfl
    · exact nofun
  content := by
    cases starts
    · exact Buffered.nil _ _
    · exact Buffered.nil _ _

theorem makeOutputSession_holds {tokenizer : Tokenizer} {callerStop : StopPolicy}
    {output : OutputOptions} {starts : Bool} {s : OutputSession}
    (h : makeOutputSession tokenizer callerStop output starts = .ok s) :
    s.Holds s.setting [] [] ∧ s.state.terminal = false := by
  obtain ⟨policy, hmerge, h⟩ := bind_eq_ok.mp h
  have hmerged := mergeStopPolicy_merged hmerge
  obtain rfl := Except.ok.inj h
  have hscan : Scans [] [] [] := ⟨rfl, Utf8.nil, Or.inl rfl⟩
  refine ⟨⟨⟨rfl, rfl, rfl⟩, hmerged, rfl, fun _ => ⟨⟨hscan, buffers_nil _ _, rfl, rfl⟩, ?_⟩⟩, rfl⟩
  refine (Setting.cut_eq_none_iff hmerged).mpr fun c pat hm hocc => (hmerged.utf8 hm).1 ?_
  refine List.infix_nil.mp (hocc.trans ?_)
  cases hstarts : (starts && !output.raw) with
  | false => cases c <;> exact List.infix_rfl
  | true => cases c <;> exact List.infix_rfl

/-! ## Previews -/

namespace OutputSession

variable {s s' : OutputSession} {tokens : List TokenId} {budget : Nat} {limitReason : FinishReason}
  {decision : OutputDecision}

/-- When `preview` returns, and what. -/
theorem preview_eq_ok_iff : s.preview tokens budget limitReason = .ok (decision, s') ↔
    s.state.terminal = false ∧ s.previewed = none ∧ tokens ≠ [] ∧ tokens.length ≤ budget ∧
      (limitReason = .outputLimit ∨ limitReason = .contextCapacity) ∧
      ∃ state output, s.previewFrom budget limitReason 0 s.state [] tokens =
          .ok (decision, state, output) ∧
        s' = { s with previewed := some (state, output) } := by
  unfold preview
  rw [check_bind_eq_ok, check_bind_eq_ok, check_bind_eq_ok, check_bind_eq_ok, check_bind_eq_ok]
  refine and_congr_right fun _ => and_congr_right fun _ => and_congr_right fun _ =>
    and_congr_right fun _ => and_congr_right fun _ => ?_
  constructor
  · intro h
    obtain ⟨⟨decision', state, output⟩, hfrom, h⟩ := bind_eq_ok.mp h
    obtain ⟨rfl, rfl⟩ := Prod.mk.inj (Except.ok.inj h)
    exact ⟨state, output, hfrom, rfl⟩
  · rintro ⟨state, output, hfrom, rfl⟩
    exact bind_eq_ok.mpr ⟨_, hfrom, rfl⟩

theorem previewTerminal_eq_ok {reason : FinishReason}
    (h : s.previewTerminal reason = .ok (decision, s')) :
    s.state.terminal = false ∧ ∃ state output, terminalize s.policy 0 s.state [] =
      .ok (state, output) ∧ s' = { s with previewed := some (state, output) } := by
  unfold previewTerminal at h
  obtain ⟨hterminal, h⟩ := check_bind_eq_ok.mp h
  obtain ⟨-, h⟩ := check_bind_eq_ok.mp h
  obtain ⟨-, h⟩ := check_bind_eq_ok.mp h
  obtain ⟨⟨state, output⟩, hend, h⟩ := bind_eq_ok.mp h
  obtain ⟨-, rfl⟩ := Prod.mk.inj (Except.ok.inj h)
  exact ⟨hterminal, state, output, hend, rfl⟩

variable {σ : Setting} {prior : PublishedOutput} {seen : List TokenId}

theorem limit_ne (h : limitReason = .outputLimit ∨ limitReason = .contextCapacity) :
    limitReason ≠ .none := by
  rcases h with rfl | rfl
  · exact nofun
  · exact nofun

/-- **A preview returns exactly when the tokens of the round can be decoded.** -/
theorem Holds.preview_iff (hs : s.Holds σ prior seen) (hterminal : s.state.terminal = false)
    (hne : tokens ≠ []) (hle : tokens.length ≤ budget)
    (hlimit : limitReason = .outputLimit ∨ limitReason = .contextCapacity) :
    (∃ r, s.preview tokens budget limitReason = .ok r) ↔ σ.Decodable seen tokens := by
  obtain ⟨hD, hcut⟩ := hs.decoded hterminal
  constructor
  · rintro ⟨⟨decision, s'⟩, h⟩
    obtain ⟨-, -, -, -, -, state, output, hfrom, -⟩ := preview_eq_ok_iff.mp h
    exact decodable_of_previewFrom hs.setting hs.merged tokens seen hD hcut hfrom
  · intro hdec
    have hpos := List.length_pos_iff.mpr hne
    obtain ⟨decision, state, output, hfrom, -⟩ := previewFrom_spec hs.setting hs.merged
      (limit_ne hlimit) budget seen.length tokens seen 0 s.state [] rfl (by omega) (by omega) hD
      hcut hdec
    exact ⟨_, preview_eq_ok_iff.mpr
      ⟨hterminal, hs.previewed, hne, hle, hlimit, state, output, hfrom, rfl⟩⟩

/-- A preview that returned is what the reference says about the tokens so far. -/
theorem Holds.preview (hs : s.Holds σ prior seen)
    (h : s.preview tokens budget limitReason = .ok (decision, s')) :
    ∃ state output, s'.commitPreview = some (output, { s with state := state, previewed := none }) ∧
      Yields prior seen.length
        (σ.referenceFrom limitReason (seen.length + budget) seen tokens) decision state output ∧
      (decision.finished = false → Decoded σ prior (seen ++ tokens) state output ∧
        σ.cut (seen ++ tokens) = none ∧ decision.acceptedTokens = tokens.length) := by
  obtain ⟨hterminal, -, hne, hle, hlimit, state, output, hfrom, rfl⟩ := preview_eq_ok_iff.mp h
  obtain ⟨hD, hcut⟩ := hs.decoded hterminal
  have hpos := List.length_pos_iff.mpr hne
  obtain ⟨decision', state', output', hfrom', hyields, hopen⟩ := previewFrom_spec hs.setting
    hs.merged (limit_ne hlimit) budget seen.length tokens seen 0 s.state [] rfl (by omega) (by omega)
    hD hcut
    (decodable_of_previewFrom hs.setting hs.merged tokens seen hD hcut hfrom)
  obtain ⟨rfl, hrest⟩ := Prod.mk.inj (Except.ok.inj (hfrom'.symm.trans hfrom))
  obtain ⟨rfl, rfl⟩ := Prod.mk.inj hrest
  refine ⟨_, _, rfl, hyields, fun hgoes => ?_⟩
  obtain ⟨hD', hcut', haccepted⟩ := hopen hgoes
  exact ⟨hD', hcut', haccepted.trans (Nat.zero_add _)⟩

/-- **A turn and its commit.** The deltas can be published, and the session holds the text of the
tokens accepted so far, or is at its end. -/
theorem Holds.commit {s'' : OutputSession} {t : Turn} {output : PublishedOutput}
    (hs : s.Holds σ prior seen) (h : s.turn t = .ok (decision, s'))
    (hcommit : s'.commitPreview = some (output, s'')) :
    WellFormed prior output ∧ s''.Holds σ (prior ++ output) (seen ++ t.accepted decision) := by
  cases t with
  | round tokens budget limitReason =>
    obtain ⟨state, output', hcommit', hyields, hopen⟩ := hs.preview h
    obtain ⟨rfl, rfl⟩ := Prod.mk.inj (Option.some.inj (hcommit'.symm.trans hcommit))
    refine ⟨hyields.wellFormed, ⟨hs.setting.1, hs.setting.2, hs.setting.3⟩, hs.merged, rfl,
      fun hterminal => ?_⟩
    obtain ⟨hD, hcut, haccepted⟩ := hopen (hyields.terminal.symm.trans hterminal)
    have hall : Turn.accepted decision (.round tokens budget limitReason) = tokens := by
      rw [Turn.accepted, haccepted, List.take_length]
    rw [hall]
    exact ⟨hD.shift, hcut⟩
  | terminal reason =>
    obtain ⟨hterminal, state, output', hend, rfl⟩ := previewTerminal_eq_ok h
    obtain ⟨rfl, rfl⟩ := Prod.mk.inj (Option.some.inj hcommit)
    obtain ⟨hD, -⟩ := hs.decoded hterminal
    rw [hs.setting.policy] at hend
    obtain ⟨state', output'', hend', hlast, hflushed⟩ :=
      terminalize_spec hs.merged hD.scans.text 0 hD.buffers
    obtain ⟨rfl, rfl⟩ := Prod.mk.inj (Except.ok.inj (hend'.symm.trans hend))
    refine ⟨hflushed.wellFormed, ⟨hs.setting.1, hs.setting.2, hs.setting.3⟩, hs.merged, rfl,
      fun hopen => ?_⟩
    exact nomatch hlast.symm.trans hopen

/-- **Along a history** the session holds the text of its tokens, and every commit can be
published. -/
theorem Reached.holds {first : OutputSession} {commits : List PublishedOutput}
    (hfirst : first.Holds σ [] []) (h : Reached first seen commits s) :
    s.Holds σ commits.flatten seen ∧ Ordered commits.flatten ∧
      ∀ output ∈ commits, ∃ prior, WellFormed prior output := by
  induction h with
  | start => exact ⟨hfirst, List.Pairwise.nil, nofun⟩
  | @commit seen commits s t decision s' output s'' _ hturn hcommit ih =>
    obtain ⟨hs, -, hall⟩ := ih
    obtain ⟨hwell, hs'⟩ := hs.commit hturn hcommit
    rw [List.flatten_append, List.flatten_singleton]
    refine ⟨hs', hwell.ordered, fun o hm => ?_⟩
    rcases List.mem_append.mp hm with hm | hm
    · exact hall o hm
    · rw [List.mem_singleton.mp hm]
      exact ⟨_, hwell⟩

/-! ## The rounds of a request -/

/-- What the rounds come to, after what was published before. -/
structure Follows (prior : PublishedOutput) (before : Nat) (outcome : Outcome) (result : Rounds) :
    Prop where
  published : ∀ c, textOf c (prior ++ result.commits.flatten) = outcome.published c
  accepted : before + result.acceptedTokens = outcome.acceptedTokens
  reason : result.finishReason = outcome.finishReason
  reasoningTokens : result.session.reasoningTokens = outcome.reasoningTokens

/-- **The rounds of a request come to what the reference says** about their tokens. -/
theorem Holds.run : ∀ {rounds : List (List TokenId)} {s : OutputSession} {prior : PublishedOutput}
    {seen : List TokenId} {budget : Nat} {result : Rounds}, s.Holds σ prior seen →
    s.state.terminal = false → s.run limitReason budget rounds = .ok result →
    Follows prior seen.length
        (σ.referenceFrom limitReason (seen.length + budget) seen rounds.flatten) result ∧
      σ.Decodable seen (rounds.flatten.take budget)
  | [], s, prior, seen, budget, result, hs, hterminal, h => by
    obtain rfl := Except.ok.inj h
    obtain ⟨hD, -⟩ := hs.decoded hterminal
    refine ⟨⟨hD.textOf, rfl, rfl, hD.reasoningTokens⟩, ?_⟩
    rw [List.flatten_nil, List.take_nil]
    trivial
  | round :: rounds, s, prior, seen, budget, result, hs, hterminal, h => by
    rw [OutputSession.run] at h
    split at h
    · exact nomatch h
    · next decision s' hpreview =>
      obtain ⟨-, -, hne, hle, hlimit, -⟩ := preview_eq_ok_iff.mp hpreview
      have hdec := (hs.preview_iff hterminal hne hle hlimit).mp ⟨_, hpreview⟩
      -- One round is what the reference does with the tokens of the round.
      obtain ⟨state, output, hcommit, hyields, hopen⟩ := hs.preview hpreview
      rw [hcommit] at h
      dsimp only at h
      cases hfinished : decision.finished with
      | true =>
        rw [hfinished, if_pos rfl] at h
        obtain rfl := Except.ok.inj h
        have hreason : (σ.referenceFrom limitReason (seen.length + budget) seen round).finishReason ≠
            .none := hyields.reason ▸ of_decide_eq_true hfinished
        rw [List.flatten_cons, Setting.referenceFrom_append_of_ne round rounds.flatten hreason]
        refine ⟨⟨fun c => ?_, hyields.accepted, hyields.reason, hyields.reasoningTokens⟩, ?_⟩
        · rw [List.flatten_singleton]
          exact hyields.texts c
        · -- Either a token of the round stops the output, or the budget is spent.
          rw [List.take_append, List.take_of_length_le hle]
          refine hdec.append _ fun hgoes => ?_
          have hlen := Setting.length_of_goes round hgoes (by omega) hreason
          rw [show budget - round.length = 0 by omega, List.take_zero]
          trivial
      | false =>
        rw [hfinished, if_neg (by decide)] at h
        -- The session now holds for the longer prefix, and the reference goes on from there.
        obtain ⟨hD, hcut, haccepted⟩ := hopen hfinished
        have hreason : (σ.referenceFrom limitReason (seen.length + budget) seen round).finishReason =
            .none := by
          rw [← hyields.reason]
          exact not_not.mp (of_decide_eq_false hfinished)
        have hs' : Holds { s with state := state, previewed := none } σ (prior ++ output)
            (seen ++ round) :=
          ⟨⟨hs.setting.1, hs.setting.2, hs.setting.3⟩, hs.merged, rfl, fun _ => ⟨hD.shift, hcut⟩⟩
        split at h
        · exact nomatch h
        · next rest hrun =>
          obtain rfl := Except.ok.inj h
          obtain ⟨hfollows, hdec'⟩ := Holds.run hs' hD.terminal hrun
          have hlen : (seen ++ round).length + (budget - decision.acceptedTokens) =
              seen.length + budget := by
            rw [List.length_append]
            omega
          rw [hlen] at hfollows
          obtain ⟨heq, -⟩ := Setting.referenceFrom_append_of_eq (limit_ne hlimit) round
            rounds.flatten hreason
          rw [List.flatten_cons, heq]
          refine ⟨⟨fun c => ?_, ?_, hfollows.reason, hfollows.reasoningTokens⟩, ?_⟩
          · rw [← hfollows.published c, List.flatten_cons, List.append_assoc]
          · rw [← hfollows.accepted, List.length_append, haccepted, Nat.add_assoc]
          · rw [List.take_append, List.take_of_length_le hle, ← haccepted]
            exact hdec.append _ fun _ => hdec'

/-- **Rounds of one token** can be previewed when the tokens can be decoded up to the budget. -/
theorem Holds.run_singletons
    (hlimit : limitReason = .outputLimit ∨ limitReason = .contextCapacity) :
    ∀ {tokens : List TokenId} {s : OutputSession} {prior : PublishedOutput} {seen : List TokenId}
      {budget : Nat}, s.Holds σ prior seen → s.state.terminal = false → 0 < budget →
    σ.Decodable seen (tokens.take budget) →
    ∃ result, s.run limitReason budget (tokens.map fun token => [token]) = .ok result
  | [], s, _, _, _, _, _, _, _ => ⟨_, rfl⟩
  | token :: tokens, s, prior, seen, budget + 1, hs, hterminal, _, hdec => by
    obtain ⟨hvalid, hbytes, hscan, hrest⟩ := hdec
    have hone : σ.Decodable seen [token] := ⟨hvalid, hbytes, hscan, fun _ => trivial⟩
    have hle : [token].length ≤ budget + 1 := Nat.le_add_left _ _
    obtain ⟨⟨decision, s'⟩, hpreview⟩ :=
      (hs.preview_iff hterminal (List.cons_ne_nil token []) hle hlimit).mpr hone
    obtain ⟨state, output, hcommit, hyields, hopen⟩ := hs.preview hpreview
    rw [List.map_cons, OutputSession.run, hpreview]
    dsimp only
    rw [hcommit]
    dsimp only
    cases hfinished : decision.finished with
    | true => exact ⟨_, rfl⟩
    | false =>
      obtain ⟨hD, hcut, haccepted⟩ := hopen hfinished
      have hreason : (σ.referenceFrom limitReason (seen.length + (budget + 1)) seen
          [token]).finishReason = .none := by
        rw [← hyields.reason]
        exact not_not.mp (of_decide_eq_false hfinished)
      obtain ⟨-, hgoes, -⟩ := Setting.referenceFrom_append_of_eq (limit_ne hlimit) [token] [] hreason
      -- The budget is not spent, as the output would have ended.
      have hpos : 0 < budget := by
        by_contra hzero
        have hlast : (seen ++ [token]).length = seen.length + (budget + 1) := by
          rw [List.length_append, List.length_singleton]
          omega
        rw [Setting.referenceFrom, Setting.finishes, decide_eq_true hlast, Bool.or_true] at hreason
        exact Setting.finish_reason_ne (limit_ne hlimit) seen token hreason
      have hs' : Holds { s with state := state, previewed := none } σ (prior ++ output)
          (seen ++ [token]) :=
        ⟨⟨hs.setting.1, hs.setting.2, hs.setting.3⟩, hs.merged, rfl, fun _ => ⟨hD.shift, hcut⟩⟩
      obtain ⟨result, hrun⟩ := Holds.run_singletons hlimit hs' hD.terminal hpos (hrest hgoes)
      rw [haccepted]
      dsimp only [List.length_singleton]
      rw [if_neg (by decide), Nat.add_sub_cancel, hrun]
      exact ⟨_, rfl⟩

end OutputSession

end Ninfer.Output
