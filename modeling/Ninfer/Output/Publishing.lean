import Ninfer.Output.Histories

/-!
# What a session publishes

The published output of a request, for any tokens, stop policy, start channel and budget.

## Main results

* `published_eq_reference`: the output is the decoded text, cut at the first stop string
* `run_eq_singletons`: it does not depend on the rounds the tokens come in
* `preview_returns_iff`: a preview throws exactly when the bytes of the tokens cannot be scanned
* `commits_wellFormed`: the deltas of a commit are texts, at most two, and in order
-/

namespace Ninfer.Output

open Executor (FinishReason OutputDecision)

/-! ## The reference -/

namespace Setting

variable {σ : Setting}

/-- No stop string occurs in the text of its channel. -/
def Clear (σ : Setting) (tokens : List TokenId) : Prop :=
  ∀ stop ∈ σ.policy.strings, ¬stop.text <:+: σ.released tokens stop.channel

theorem clear_iff (hp : σ.policy.Merged) {tokens : List TokenId} :
    σ.Clear tokens ↔ σ.cut tokens = none := by
  rw [cut_eq_none_iff hp]
  constructor
  · intro h c pat hm
    obtain ⟨stop, hs, rfl, rfl⟩ := StopPolicy.mem_texts.mp hm
    exact h stop hs
  · exact fun h stop hs => h _ _ (StopPolicy.mem_texts.mpr ⟨stop, hs, rfl, rfl⟩)

/-- The tokens whose text is published at the end: not those of a hidden stop token. -/
def counted (σ : Setting) (reason : FinishReason) (accepted : List TokenId) : List TokenId :=
  if reason = .stopToken ∧ σ.policy.publishStopToken = false then accepted.dropLast else accepted

/-- What the reference says about the tokens it accepts. -/
theorem referenceFrom_spec (limitReason : FinishReason) (budget : Nat) :
    ∀ {seen : List TokenId} (tokens : List TokenId),
    (tokens ≠ [] → limitReason = .outputLimit ∨ limitReason = .contextCapacity) →
    σ.cut seen = none →
    let outcome := σ.referenceFrom limitReason budget seen tokens
    let accepted := (seen ++ tokens).take outcome.acceptedTokens
    seen.length ≤ outcome.acceptedTokens ∧ accepted.length = outcome.acceptedTokens ∧
      (∀ k, seen.length ≤ k → k < outcome.acceptedTokens →
        σ.cut ((seen ++ tokens).take k) = none) ∧
      ((outcome.finishReason = .stopString ∧ ∃ stop i, σ.cut accepted = some (stop, i) ∧
          outcome.published = publishedAtCut (σ.released accepted) stop i) ∨
        (outcome.finishReason ≠ .stopString ∧ σ.cut accepted = none ∧
          outcome.published = if outcome.finishReason = .none then σ.publishedSoFar accepted
            else σ.final (σ.counted outcome.finishReason accepted)))
  | seen, [], _, hcut => by
    dsimp only [referenceFrom]
    rw [List.append_nil, List.take_length]
    exact ⟨Nat.le_refl _, rfl, fun k h₁ h₂ => absurd h₂ (by omega), Or.inr ⟨nofun, hcut, rfl⟩⟩
  | seen, token :: tokens, hlimit, hcut => by
    have hlen : (seen ++ [token]).length = seen.length + 1 := List.length_append
    have hsplit : seen ++ token :: tokens = seen ++ [token] ++ tokens := by
      rw [List.append_assoc, List.singleton_append]
    have htake : (seen ++ token :: tokens).take (seen ++ [token]).length = seen ++ [token] := by
      rw [hsplit, List.take_left]
    have hbefore : ∀ k, seen.length ≤ k → k < (seen ++ [token]).length →
        σ.cut ((seen ++ token :: tokens).take k) = none := by
      intro k h₁ h₂
      rw [show k = seen.length by omega, List.take_left]
      exact hcut
    cases hcut' : σ.cut (seen ++ [token]) with
    | some cut =>
      obtain ⟨stop, i⟩ := cut
      rw [referenceFrom_of_cut hcut']
      dsimp only
      rw [htake]
      exact ⟨by omega, rfl, hbefore, Or.inl ⟨rfl, stop, i, hcut', rfl⟩⟩
    | none =>
      by_cases hstop : token ∈ σ.policy.tokenIds
      · rw [referenceFrom_of_stopToken hcut' hstop]
        dsimp only
        rw [htake]
        refine ⟨by omega, rfl, hbefore, Or.inr ⟨nofun, hcut', ?_⟩⟩
        rw [if_neg (show ¬FinishReason.stopToken = .none by decide), counted, List.dropLast_concat]
        cases σ.policy.publishStopToken <;> rfl
      · by_cases hlast : (seen ++ [token]).length = budget
        · have hvalid := hlimit (List.cons_ne_nil _ _)
          rw [referenceFrom_of_limit hcut' hstop hlast]
          dsimp only
          rw [htake]
          refine ⟨by omega, rfl, hbefore, Or.inr ⟨?_, hcut', ?_⟩⟩
          · rcases hvalid with rfl | rfl <;> decide
          · rcases hvalid with rfl | rfl <;> rfl
        · rw [referenceFrom_of_next hcut' hstop hlast, hsplit]
          obtain ⟨hle, hacc, hclear, hends⟩ := referenceFrom_spec _ _ tokens
            (fun _ => hlimit (List.cons_ne_nil _ _)) hcut'
          refine ⟨by omega, hacc, fun k h₁ h₂ => ?_, hends⟩
          by_cases hk : k = seen.length
          · rw [hk, List.append_assoc, List.take_left]
            exact hcut
          · exact hclear k (by omega) h₂

/-- The stop string that cuts the output is the first of its channel, and one in the reasoning goes
before those in the content. -/
theorem cuts_of_cut (hp : σ.policy.Merged) {tokens : List TokenId} {stop : StopString} {i : Nat}
    (h : σ.cut tokens = some (stop, i)) :
    Cuts σ.policy.strings stop.channel (σ.released tokens stop.channel) stop i ∧
      (stop.channel = .content → ∀ other ∈ σ.policy.strings, other.channel = .reasoning →
        ¬other.text <:+: σ.released tokens .reasoning) := by
  have hne : ∀ stop ∈ σ.policy.strings, stop.text ≠ [] := fun stop hs => (hp stop hs).1
  rw [cut, cutOf] at h
  cases hr : earliest σ.policy.strings .reasoning (σ.released tokens .reasoning) with
  | some found =>
    rw [hr] at h
    obtain rfl := Option.some.inj h
    have hcuts := earliest_cuts hne hr
    rw [hcuts.ofChannel]
    exact ⟨hcuts, by rintro ⟨⟩⟩
  | none =>
    rw [hr] at h
    have hspec := earliest_spec .reasoning (σ.released tokens .reasoning) hne
    rw [hr] at hspec
    have hcuts := earliest_cuts hne (show earliest _ .content _ = _ from h)
    rw [hcuts.ofChannel]
    exact ⟨hcuts, fun _ => hspec⟩

/-- No stop string occurs in the text in front of a cut. -/
theorem not_infix_of_cut (hp : σ.policy.Merged) {tokens : List TokenId} {stop : StopString}
    {i : Nat} (h : σ.cut tokens = some (stop, i)) {other : StopString}
    (hm : other ∈ σ.policy.strings) :
    ¬other.text <:+:
      publishedAtCut (σ.released tokens) { stop with includeInOutput := false } i other.channel := by
  obtain ⟨hcuts, hreasoning⟩ := cuts_of_cut hp h
  have hne := (hp other hm).1
  rw [publishedAtCut]
  by_cases hsame : other.channel = stop.channel
  · rw [if_pos hsame, if_neg Bool.false_ne_true, List.append_nil, hsame]
    intro hocc
    -- An occurrence in front of the cut would be an earlier one.
    obtain ⟨j, hj⟩ := infix_iff_exists_drop.mp hocc
    have hle := length_add_le_of_prefix_drop hne hj
    have hpos := List.length_pos_iff.mpr hne
    rw [List.length_take] at hle
    refine hcuts.first other hm hsame j (by omega) (hj.trans ?_)
    rw [List.drop_take]
    exact List.take_prefix _ _
  · rw [if_neg hsame]
    cases hchannel : other.channel with
    | reasoning =>
      refine hreasoning ?_ other hm hchannel
      cases hc : stop.channel with
      | content => rfl
      | reasoning => exact absurd (hchannel.trans hc.symm) hsame
    | content => exact fun hocc => hne (List.infix_nil.mp hocc)

/-- The bytes of the tokens that the reference accepts can be scanned. -/
theorem scannable_accepted {limitReason : FinishReason} {budget : Nat} :
    ∀ {seen : List TokenId} (tokens : List TokenId), (tokens ≠ [] → seen.length < budget) →
    σ.Scannable seen → σ.Decodable seen (tokens.take (budget - seen.length)) →
    σ.Scannable ((seen ++ tokens).take
      (σ.referenceFrom limitReason budget seen tokens).acceptedTokens)
  | seen, [], _, hseen, _ => by
    rw [referenceFrom, List.append_nil, List.take_length]
    exact hseen
  | seen, token :: tokens, hlt, _, hdec => by
    have hlen : (seen ++ [token]).length = seen.length + 1 := List.length_append
    obtain ⟨room, hroom⟩ : ∃ room, budget = seen.length + 1 + room :=
      Nat.exists_eq_add_of_le (hlt (List.cons_ne_nil _ _))
    rw [show budget - seen.length = room + 1 by omega, List.take_succ_cons] at hdec
    obtain ⟨-, -, hscan, hrest⟩ := hdec
    rw [referenceFrom, List.append_cons seen token tokens]
    split_ifs with hends
    · rw [finish_accepted, List.take_left]
      exact hscan
    · -- the output goes on behind the token, with room in the budget
      simp only [finishes, Bool.or_eq_true, decide_eq_true_eq, not_or, Bool.not_eq_true] at hends
      refine scannable_accepted tokens (fun _ => by omega) hscan ?_
      rw [show budget - (seen ++ [token]).length = room by omega]
      exact hrest hends.1

/-- Nothing is kept back: no incomplete character, and no start of the marker. -/
def Complete (σ : Setting) (tokens : List TokenId) : Prop :=
  σ.incomplete tokens = [] ∧ keptMarker σ.startsInReasoning (σ.text tokens) = []

theorem final_eq_released {tokens : List TokenId} (h : σ.Complete tokens) (c : OutputChannel) :
    σ.final tokens c = σ.released tokens c := by
  rw [final, if_pos h.1, List.append_nil, released, releasedText, h.2, List.length_nil,
    Nat.sub_zero, List.take_length]

theorem publishedSoFar_prefix (tokens : List TokenId) (c : OutputChannel) :
    σ.publishedSoFar tokens c <+: σ.released tokens c := by
  rw [publishedSoFar]
  split_ifs
  · exact List.prefix_rfl
  · exact List.take_prefix _ _

end Setting

/-! ## A tokenizer of single bytes -/

/-- Each token is a byte, and `x` ends the text. -/
def byteTokenizer : Tokenizer where
  isValidToken token := decide (0 ≤ token ∧ token < 256)
  isSpecialToken _ := false
  tokenBytes token := .ok [UInt8.ofNat token.toNat]
  defaultStopTokenIds := [120]

/-- The session of a request that starts in the given channel, with the given stop strings. -/
def byteSession (starts : Bool) (strings : List StopString) : OutputSession where
  tokenizer := byteTokenizer
  policy := { tokenIds := [120], strings := strings }
  preserveSpecial := false
  state := { inReasoning := starts }

theorem makeOutputSession_plain :
    makeOutputSession byteTokenizer {} {} false = .ok (byteSession false []) :=
  rfl

/-- The content stops at `bc`. -/
theorem makeOutputSession_stop :
    makeOutputSession byteTokenizer { strings := [⟨[98, 99], .content, false⟩] } {} false =
      .ok (byteSession false [⟨[98, 99], .content, false⟩]) :=
  rfl

/-- Thinking, with the content stopped at `bc`. -/
abbrev thinkingSession : OutputSession := byteSession true [⟨[98, 99], .content, false⟩]

theorem makeOutputSession_thinking : makeOutputSession byteTokenizer
    { strings := [⟨[98, 99], .content, false⟩] } {} true = .ok thinkingSession :=
  rfl

/-- The stop string arrives in two rounds. -/
theorem run_stop : ∃ result, (byteSession false [⟨[98, 99], .content, false⟩]).run .outputLimit 5
      [[97, 98], [99]] = .ok result ∧
    result.finishReason = .stopString ∧ textOf .content result.commits.flatten = [97] :=
  ⟨_, rfl, rfl, by decide⟩

/-! ## The output of a request -/

variable {tokenizer : Tokenizer} {callerStop : StopPolicy} {output : OutputOptions} {starts : Bool}
  {first s : OutputSession} {limitReason : FinishReason} {budget : Nat}
  {rounds : List (List TokenId)} {result : OutputSession.Rounds} {tokens : List TokenId}
  {commits : List PublishedOutput}
  (hs : makeOutputSession tokenizer callerStop output starts = .ok s)
  (hrun : s.run limitReason budget rounds = .ok result)
  (hfirst : makeOutputSession tokenizer callerStop output starts = .ok first)
  (hreached : OutputSession.Reached first tokens commits s)

section Request

include hs hrun

theorem follows_reference :
    OutputSession.Follows [] 0 (s.setting.reference limitReason budget rounds.flatten) result ∧
      s.setting.Decodable [] (rounds.flatten.take budget) := by
  obtain ⟨hholds, hterminal⟩ := makeOutputSession_holds hs
  have h := hholds.run hterminal hrun
  rwa [List.length_nil, Nat.zero_add] at h

omit hs in
/-- Rounds that ran have a valid limit, and each has room in the budget. -/
theorem limit_of_run : rounds = [] ∨
    ((limitReason = .outputLimit ∨ limitReason = .contextCapacity) ∧ 0 < budget) := by
  cases rounds with
  | nil => exact Or.inl rfl
  | cons round rounds =>
    rw [OutputSession.run] at hrun
    split at hrun
    · cases hrun
    · next decision s' hpreview =>
      obtain ⟨-, -, hne, hle, hlimit, -⟩ := OutputSession.preview_eq_ok_iff.mp hpreview
      exact Or.inr ⟨hlimit, Nat.lt_of_lt_of_le (List.length_pos_iff.mpr hne) hle⟩

/-- **The published output is the decoded text, cut at the first stop string.** A session ends with
the first token after which a stop string occurs in the text that is certain of its channel. -/
theorem published_eq_reference :
    let σ : Setting := s.setting
    let accepted := rounds.flatten.take result.acceptedTokens
    let published := fun c => textOf c result.commits.flatten
    accepted.length = result.acceptedTokens ∧
      Scans (σ.bytes accepted) (σ.text accepted) (σ.incomplete accepted) ∧
      (∀ k < result.acceptedTokens, σ.Clear (rounds.flatten.take k)) ∧
      ((result.finishReason = .stopString ∧ ∃ stop i,
          Cuts σ.policy.strings stop.channel (σ.released accepted stop.channel) stop i ∧
          (stop.channel = .content → ∀ other ∈ σ.policy.strings, other.channel = .reasoning →
            ¬other.text <:+: σ.released accepted .reasoning) ∧
          published = publishedAtCut (σ.released accepted) stop i ∧
          ∀ other ∈ σ.policy.strings, ¬other.text <:+:
            publishedAtCut (σ.released accepted) { stop with includeInOutput := false } i
              other.channel) ∨
        (result.finishReason ≠ .stopString ∧ σ.Clear accepted ∧
          published = (if result.finishReason = .none then σ.publishedSoFar accepted
            else σ.final (σ.counted result.finishReason accepted)) ∧
          (result.finishReason = .none ∨ σ.Complete (σ.counted result.finishReason accepted) →
            ∀ stop ∈ σ.policy.strings, ¬stop.text <:+: published stop.channel))) := by
  intro σ accepted published
  obtain ⟨hholds, -⟩ := makeOutputSession_holds hs
  have hp := hholds.merged
  obtain ⟨hfollows, hdec⟩ := follows_reference hs hrun
  have hstart : σ.cut [] = none := (hholds.decoded (makeOutputSession_holds hs).2).2
  have hlimit : rounds.flatten ≠ [] →
      limitReason = .outputLimit ∨ limitReason = .contextCapacity := by
    intro hne
    rcases limit_of_run hrun with rfl | h
    · exact absurd rfl hne
    · exact h.1
  -- The reference is one scan of all tokens: it ends at a cut, or with a clear text.
  obtain ⟨-, hlen, hclear, hends⟩ := Setting.referenceFrom_spec limitReason
    budget rounds.flatten hlimit hstart
  have hacc : (σ.referenceFrom limitReason budget [] rounds.flatten).acceptedTokens =
      result.acceptedTokens := hfollows.accepted.symm.trans (Nat.zero_add _)
  have hpub : (σ.referenceFrom limitReason budget [] rounds.flatten).published = published :=
    funext fun c => (hfollows.published c).symm
  have hreason : (σ.referenceFrom limitReason budget [] rounds.flatten).finishReason =
      result.finishReason := hfollows.reason.symm
  rw [List.nil_append, hacc] at hlen hclear hends
  rw [hpub, hreason] at hends
  have hclear : ∀ k < result.acceptedTokens, σ.Clear (rounds.flatten.take k) := fun k hk =>
    (Setting.clear_iff hp).mpr (hclear k (Nat.zero_le _) hk)
  have hscans : Scans (σ.bytes accepted) (σ.text accepted) (σ.incomplete accepted) := by
    have hroom : rounds.flatten ≠ [] → 0 < budget := by
      intro hne
      rcases limit_of_run hrun with rfl | h
      · exact absurd rfl hne
      · exact h.2
    have hscannable : σ.Scannable (([] ++ rounds.flatten).take
        (σ.referenceFrom limitReason budget [] rounds.flatten).acceptedTokens) :=
      Setting.scannable_accepted _ hroom ⟨[], [], rfl, Utf8.nil, Or.inl rfl⟩ hdec
    rw [List.nil_append, hacc] at hscannable
    obtain ⟨text, rest, h⟩ := hscannable
    obtain ⟨htext, hrest⟩ := Setting.text_of_scans h
    rw [htext, hrest]
    exact h
  refine ⟨hlen, hscans, hclear, ?_⟩
  rcases hends with ⟨hstop, stop, i, hcut, heq⟩ | ⟨hgoes, hcut, heq⟩
  · obtain ⟨hcuts, hfirst⟩ := Setting.cuts_of_cut hp hcut
    exact Or.inl ⟨hstop, stop, i, hcuts, hfirst, heq, fun other hm =>
      Setting.not_infix_of_cut hp hcut hm⟩
  · have haccepted := (Setting.clear_iff hp).mpr hcut
    refine Or.inr ⟨hgoes, haccepted, heq, fun hcomplete stop hm hocc => ?_⟩
    rw [heq] at hocc
    by_cases hnone : result.finishReason = .none
    · rw [if_pos hnone] at hocc
      exact haccepted stop hm (hocc.trans (Setting.publishedSoFar_prefix _ _).isInfix)
    · rw [if_neg hnone, Setting.final_eq_released (hcomplete.resolve_left hnone)] at hocc
      -- The text of a hidden stop token is not there, and the tokens before it are clear.
      have hcounted : σ.Clear (σ.counted result.finishReason accepted) := by
        rw [Setting.counted]
        split_ifs
        · have hlast : accepted.dropLast = rounds.flatten.take (result.acceptedTokens - 1) := by
            rw [List.dropLast_eq_take, hlen, List.take_take, Nat.min_eq_left (Nat.sub_le _ _)]
          rw [hlast]
          by_cases hzero : result.acceptedTokens = 0
          · rw [hzero]
            exact (Setting.clear_iff hp).mpr hstart
          · exact hclear _ (by omega)
        · exact haccepted
      exact hcounted stop hm hocc

end Request

theorem published_eq_reference_stop : ∃ result,
    (byteSession false [⟨[98, 99], .content, false⟩]).run .outputLimit 5 [[97, 98], [99]] =
      .ok result ∧
    ∀ k < result.acceptedTokens,
      (byteSession false [⟨[98, 99], .content, false⟩]).setting.Clear ([97, 98, 99].take k) := by
  obtain ⟨result, hrun, -⟩ := run_stop
  exact ⟨result, hrun, (published_eq_reference makeOutputSession_stop hrun).2.2.1⟩

/-- The text of a hidden stop token is not published, though no stop string occurs. And when the
budget ends in a start of the marker, that start is published, though it is a stop string. -/
theorem published_ne_text :
    (∃ s result, makeOutputSession byteTokenizer {} {} false = .ok s ∧
      s.run .outputLimit 5 [[97, 120]] = .ok result ∧ s.policy.strings = [] ∧
      textOf .content result.commits.flatten = [97] ∧
      s.setting.final [97, 120] .content = [97, 120]) ∧
    ∃ s result, makeOutputSession byteTokenizer
        { strings := [⟨[60, 47], .reasoning, false⟩] } {} true = .ok s ∧
      s.run .outputLimit 2 [[60, 47]] = .ok result ∧
      s.policy.strings = [⟨[60, 47], .reasoning, false⟩] ∧ result.finishReason = .outputLimit ∧
      textOf .reasoning result.commits.flatten = [60, 47] :=
  ⟨⟨byteSession false [], _, rfl, rfl, rfl, by decide, by decide⟩,
    ⟨byteSession true [⟨[60, 47], .reasoning, false⟩], _, rfl, rfl, rfl, rfl, by decide⟩⟩

section Request

include hs hrun

/-- **The output does not depend on the rounds.** Rounds of one token come to the same. -/
theorem run_eq_singletons :
    ∃ result', s.run limitReason budget (rounds.flatten.map fun token => [token]) = .ok result' ∧
      (∀ c, textOf c result.commits.flatten = textOf c result'.commits.flatten) ∧
      result.finishReason = result'.finishReason ∧
      result.acceptedTokens = result'.acceptedTokens ∧
      result.session.reasoningTokens = result'.session.reasoningTokens := by
  obtain ⟨hholds, hterminal⟩ := makeOutputSession_holds hs
  obtain ⟨hfollows, hdec⟩ := follows_reference hs hrun
  obtain ⟨result', hrun'⟩ : ∃ result',
      s.run limitReason budget (rounds.flatten.map fun token => [token]) = .ok result' := by
    rcases limit_of_run hrun with rfl | ⟨hlimit, hpos⟩
    · exact ⟨_, rfl⟩
    · exact hholds.run_singletons hlimit hterminal hpos hdec
  obtain ⟨hfollows', -⟩ := follows_reference hs hrun'
  -- Both runs follow the reference of the same tokens.
  have hflat : (rounds.flatten.map fun token => [token]).flatten = rounds.flatten := by
    rw [← List.flatMap_def, List.flatMap_singleton']
  rw [hflat] at hfollows'
  refine ⟨result', hrun', fun c => ?_, ?_, ?_, ?_⟩
  · exact (hfollows.published c).trans (hfollows'.published c).symm
  · exact hfollows.reason.trans hfollows'.reason.symm
  · exact Nat.add_left_cancel (hfollows.accepted.trans hfollows'.accepted.symm)
  · exact hfollows.reasoningTokens.trans hfollows'.reasoningTokens.symm

end Request

theorem run_eq_singletons_stop : ∃ result result',
    (byteSession false [⟨[98, 99], .content, false⟩]).run .outputLimit 5 [[97, 98], [99]] =
      .ok result ∧
    (byteSession false [⟨[98, 99], .content, false⟩]).run .outputLimit 5 [[97], [98], [99]] =
      .ok result' ∧
    result.finishReason = .stopString ∧ result.acceptedTokens = result'.acceptedTokens := by
  obtain ⟨result, hrun, hreason, -⟩ := run_stop
  obtain ⟨result', hrun', -, -, haccepted, -⟩ := run_eq_singletons makeOutputSession_stop hrun
  exact ⟨result, result', hrun, hrun', hreason, haccepted⟩

/-! ## Previews and commits -/

section History

include hfirst hreached

/-- **A preview returns exactly when the bytes of the tokens can be scanned**, up to the first token
that stops the output. -/
theorem preview_returns_iff {round : List TokenId} {budget : Nat} {limitReason : FinishReason}
    (hopen : s.state.terminal = false) (hne : round ≠ []) (hle : round.length ≤ budget)
    (hlimit : limitReason = .outputLimit ∨ limitReason = .contextCapacity) :
    (∃ r, s.preview round budget limitReason = .ok r) ↔ first.setting.Decodable tokens round :=
  (hreached.holds (makeOutputSession_holds hfirst).1).1.preview_iff hopen hne hle hlimit

end History

/-- The first byte of a character is committed, and nothing of it is published yet. -/
theorem reached_split : ∃ s, OutputSession.Reached thinkingSession [195] [[]] s ∧
    s.state.terminal = false ∧ ∃ r, s.preview [169] 4 .outputLimit = .ok r := by
  obtain ⟨s, t, hround, hcommit, hopen, hreturns⟩ : ∃ s t,
      thinkingSession.turn (.round [195] 5 .outputLimit) = .ok (⟨1, .none⟩, s) ∧
      s.commitPreview = some ([], t) ∧ t.state.terminal = false ∧
      ∃ r, t.preview [169] 4 .outputLimit = .ok r :=
    ⟨_, _, rfl, rfl, rfl, _, rfl⟩
  exact ⟨t, .commit .start hround hcommit, hopen, hreturns⟩

theorem preview_returns_iff_split : thinkingSession.setting.Decodable [195] [169] := by
  obtain ⟨s, hreached, hopen, hreturns⟩ := reached_split
  exact (preview_returns_iff makeOutputSession_thinking hreached hopen (by decide) (by decide)
    (Or.inl rfl)).mp hreturns

/-- A byte that no character starts with is a token of the vocabulary, and its preview throws. -/
theorem preview_throws :
    byteTokenizer.isValidToken 128 = true ∧
      OutputSession.Reached (byteSession false []) [] [] (byteSession false []) ∧
      (byteSession false []).preview [128] 1 .outputLimit =
        .error (.invalidArgument "invalid UTF-8 leading byte in generated token stream") :=
  ⟨by decide, .start, rfl⟩

section History

include hfirst hreached

/-- **The deltas of a commit are texts, at most two, and in order.** No preview throws for want of
room: a round whose tokens can be decoded is previewed, and so is the end of the output. -/
theorem commits_wellFormed :
    (∀ output ∈ commits, output.length ≤ 2 ∧
      ∀ delta ∈ output, delta.text ≠ [] ∧ Utf8 delta.text) ∧
      Ordered commits.flatten ∧
      (s.state.terminal = false →
        (∀ round budget limitReason, round ≠ [] → round.length ≤ budget →
          limitReason = .outputLimit ∨ limitReason = .contextCapacity →
          first.setting.Decodable tokens round →
          ∃ r, s.preview round budget limitReason = .ok r) ∧
        ∀ reason, reason ≠ .none → reason ≠ .stopString → reason ≠ .stopToken →
          ∃ r, s.previewTerminal reason = .ok r) := by
  obtain ⟨hholds, hordered, hall⟩ := hreached.holds (makeOutputSession_holds hfirst).1
  refine ⟨fun output hm => ?_, hordered, fun hopen => ⟨?_, ?_⟩⟩
  · obtain ⟨prior, hwell⟩ := hall output hm
    refine ⟨?_, hwell.texts⟩
    have hlen := hwell.channels.length_le
    rwa [List.length_map] at hlen
  · intro round budget limitReason hne hle hlimit hdec
    exact (hholds.preview_iff hopen hne hle hlimit).mpr hdec
  · intro reason h₁ h₂ h₃
    obtain ⟨hD, -⟩ := hholds.decoded hopen
    obtain ⟨state', output', hend, -⟩ :=
      terminalize_spec hholds.merged hD.scans.text 0 hD.buffers
    rw [← hholds.setting.policy] at hend
    unfold OutputSession.previewTerminal
    refine ⟨_, check_bind_eq_ok.mpr ⟨hopen, check_bind_eq_ok.mpr ⟨hholds.previewed,
      check_bind_eq_ok.mpr ⟨⟨h₁, h₂, h₃⟩, bind_eq_ok.mpr ⟨_, hend, rfl⟩⟩⟩⟩⟩

end History

/-- The two bytes of a character come in two rounds, the second of which ends the thinking, and the
stop string comes in the third. -/
theorem reached_thinking : ∃ s, OutputSession.Reached thinkingSession
    ([195] ++ [169, 60, 47, 116, 104, 105, 110, 107, 62, 122] ++ [98, 99])
    [[], [⟨.reasoning, [195, 169]⟩, ⟨.content, [122]⟩], []] s ∧ s.state.terminal = true := by
  obtain ⟨s₁, t₁, s₂, t₂, s₃, t₃, hround₁, hcommit₁, hround₂, hcommit₂, hround₃, hcommit₃, hend⟩ :
      ∃ s₁ t₁ s₂ t₂ s₃ t₃,
        thinkingSession.turn (.round [195] 20 .outputLimit) = .ok (⟨1, .none⟩, s₁) ∧
        s₁.commitPreview = some ([], t₁) ∧
        t₁.turn (.round [169, 60, 47, 116, 104, 105, 110, 107, 62, 122] 19 .outputLimit) =
          .ok (⟨10, .none⟩, s₂) ∧
        s₂.commitPreview = some ([⟨.reasoning, [195, 169]⟩, ⟨.content, [122]⟩], t₂) ∧
        t₂.turn (.round [98, 99] 9 .outputLimit) = .ok (⟨2, .stopString⟩, s₃) ∧
        s₃.commitPreview = some ([], t₃) ∧ t₃.state.terminal = true :=
    ⟨_, _, _, _, _, _, rfl, rfl, rfl, rfl, rfl, rfl, rfl⟩
  exact ⟨t₃, .commit (.commit (.commit .start hround₁ hcommit₁) hround₂ hcommit₂) hround₃ hcommit₃,
    hend⟩

theorem commits_wellFormed_thinking :
    Ordered [⟨.reasoning, [195, 169]⟩, ⟨.content, [122]⟩] ∧ Utf8 [195, 169] := by
  obtain ⟨s, hreached, -⟩ := reached_thinking
  obtain ⟨hall, hordered, -⟩ := commits_wellFormed makeOutputSession_thinking hreached
  obtain ⟨-, htexts⟩ := hall [⟨.reasoning, [195, 169]⟩, ⟨.content, [122]⟩] (by decide)
  exact ⟨hordered, (htexts ⟨.reasoning, [195, 169]⟩ (by decide)).2⟩

end Ninfer.Output
