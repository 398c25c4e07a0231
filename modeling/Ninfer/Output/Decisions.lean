import Ninfer.Output.Histories

/-!
# What a preview decides

The decision about a round of generated tokens, in terms of the budget that is left: how many tokens
may be accepted, and which reasons end the output at which count.

## Main definitions

* `OutputSession.Decides`: a decision about a round that the caller may act on
* `OutputSession.Open`: a session of a request that goes on

## Main results

* `Setting.referenceFrom_withinBudget`: how the outcome of a request stands to its budget
* `OutputSession.Open.decides`: every preview of an open session decides so, and its commit leaves an
  open session or the outcome that the reference gives
* `OutputSession.Open.previewTerminal`: an open session can be ended between two rounds
* `OutputSession.Open.preview_error`: a preview within the budget fails in the decoding only
-/

namespace Ninfer.Output

open Executor (FinishReason OutputDecision)

/-! ## The reference and the budget -/

namespace Setting

variable {σ : Setting} {limitReason : FinishReason} {budget : Nat}

/-- How an outcome of some tokens, after others, stands to the budget. -/
structure WithinBudget (limitReason : FinishReason) (budget before tokens : Nat)
    (outcome : Outcome) : Prop where
  accepted_le : outcome.acceptedTokens ≤ before + tokens
  accepted_pos : tokens ≠ 0 → before < outcome.acceptedTokens
  goes : outcome.finishReason = .none →
    outcome.acceptedTokens = before + tokens ∧ before + tokens < budget
  reason : outcome.finishReason = .none ∨ outcome.finishReason = .stopToken ∨
    outcome.finishReason = .stopString ∨ outcome.finishReason = limitReason
  limit : outcome.finishReason = limitReason → outcome.acceptedTokens = budget

/-- The end of the output with its last token: the limit is the reason only at the budget. -/
theorem finish_withinBudget (hlimit : limitReason = .outputLimit ∨ limitReason = .contextCapacity)
    {seen : List TokenId} {token : TokenId} (more : Nat)
    (hends : σ.finishes (seen ++ [token]) budget = true) :
    WithinBudget limitReason budget seen.length (more + 1) (σ.finish seen token limitReason) := by
  have hne := OutputSession.limit_ne hlimit
  have hlen : (seen ++ [token]).length = seen.length + 1 := List.length_append
  have hstops : limitReason ≠ .stopString ∧ limitReason ≠ .stopToken := by
    rcases hlimit with rfl | rfl <;> simp
  unfold finish
  dsimp only
  cases hcut : σ.cut (seen ++ [token]) with
  | some found =>
    exact ⟨by simp only [hlen]; omega, fun _ => by simp only [hlen]; omega, fun h => (by cases h),
      Or.inr (Or.inr (Or.inl rfl)), fun h => absurd h.symm hstops.1⟩
  | none =>
    by_cases hstop : token ∈ σ.policy.tokenIds
    · simp only [if_pos hstop]
      exact ⟨by simp only [hlen]; omega, fun _ => by simp only [hlen]; omega,
        fun h => (by cases h), Or.inr (Or.inl rfl), fun h => absurd h.symm hstops.2⟩
    · -- Nothing stops the output, so the token is the last of the budget.
      have hlast : (seen ++ [token]).length = budget := by
        simpa [finishes, stops, hcut, hstop] using hends
      simp only [if_neg hstop]
      exact ⟨by simp only [hlen]; omega, fun _ => by simp only [hlen]; omega,
        fun h => absurd h hne, Or.inr (Or.inr (Or.inr rfl)), fun _ => hlast⟩

/-- **The outcome of some tokens stays within the budget.** -/
theorem referenceFrom_withinBudget
    (hlimit : limitReason = .outputLimit ∨ limitReason = .contextCapacity) :
    ∀ {seen : List TokenId} (tokens : List TokenId), seen.length < budget →
    WithinBudget limitReason budget seen.length tokens.length
      (σ.referenceFrom limitReason budget seen tokens)
  | seen, [], hlt =>
    ⟨Nat.le_refl _, fun h => absurd rfl h, fun _ => ⟨rfl, hlt⟩, Or.inl rfl,
      fun h => absurd h.symm (OutputSession.limit_ne hlimit)⟩
  | seen, token :: tokens, hlt => by
    rw [referenceFrom, List.length_cons]
    split_ifs with hends
    · exact finish_withinBudget hlimit tokens.length hends
    · have hlen : (seen ++ [token]).length = seen.length + 1 := List.length_append
      have hmore : (seen ++ [token]).length < budget := by
        have : (seen ++ [token]).length ≠ budget := by
          intro heq
          simp [finishes, heq] at hends
        omega
      have ih := referenceFrom_withinBudget hlimit tokens hmore
      rw [hlen] at ih
      -- The tokens before include this one.
      refine ⟨by have := ih.accepted_le; omega, fun _ => ?_, fun h => ?_, ih.reason, ih.limit⟩
      · rcases tokens with _ | ⟨next, rest⟩
        · have hall := ih.goes rfl
          omega
        · have := ih.accepted_pos (by simp)
          omega
      · have := ih.goes h
        omega

/-- The tokens before are accepted. -/
theorem referenceFrom_accepted_ge : ∀ {seen : List TokenId} (tokens : List TokenId),
    seen.length ≤ (σ.referenceFrom limitReason budget seen tokens).acceptedTokens
  | _, [] => Nat.le_refl _
  | seen, token :: tokens => by
    have hlen : (seen ++ [token]).length = seen.length + 1 := List.length_append
    have ih := @referenceFrom_accepted_ge (seen ++ [token]) tokens
    rw [referenceFrom]
    split_ifs
    · rw [finish_accepted, hlen]
      exact Nat.le_succ _
    · omega

/-- The outcome of some tokens is that of the tokens that are accepted. -/
theorem referenceFrom_take : ∀ {seen : List TokenId} (tokens : List TokenId),
    σ.referenceFrom limitReason budget seen (tokens.take
        ((σ.referenceFrom limitReason budget seen tokens).acceptedTokens - seen.length)) =
      σ.referenceFrom limitReason budget seen tokens
  | _, [] => by rw [List.take_nil]
  | seen, token :: tokens => by
    have hlen : (seen ++ [token]).length = seen.length + 1 := List.length_append
    have ih := @referenceFrom_take (seen ++ [token]) tokens
    conv_rhs => rw [referenceFrom]
    rw [referenceFrom]
    split_ifs with hends
    · rw [finish_accepted, hlen, Nat.add_sub_cancel_left, List.take_succ_cons, referenceFrom,
        if_pos hends]
    · have hle : (seen ++ [token]).length ≤
          (σ.referenceFrom limitReason budget (seen ++ [token]) tokens).acceptedTokens :=
        referenceFrom_accepted_ge tokens
      rw [hlen] at ih hle
      obtain ⟨k, hk⟩ := Nat.exists_eq_add_of_le hle
      rw [hk] at ih ⊢
      rw [show seen.length + 1 + k - seen.length = k + 1 by omega, List.take_succ_cons,
        referenceFrom, if_neg hends]
      rwa [Nat.add_sub_cancel_left] at ih

end Setting

/-! ## Decisions -/

namespace OutputSession

variable {s s' : OutputSession} {σ : Setting} {prior : PublishedOutput} {tokens seen : List TokenId}
  {budget total : Nat} {limitReason : FinishReason} {decision : OutputDecision}

/-- A decision about a round, for the budget that is left. -/
structure Decides (tokens : List TokenId) (budget : Nat) (limitReason : FinishReason)
    (decision : OutputDecision) : Prop where
  accepted_pos : 0 < decision.acceptedTokens
  accepted_le : decision.acceptedTokens ≤ tokens.length
  goes : decision.finished = false →
    decision.acceptedTokens = tokens.length ∧ tokens.length < budget
  reason : decision.finished = true → decision.finishReason = .stopToken ∨
    decision.finishReason = .stopString ∨ decision.finishReason = limitReason
  limit : decision.finishReason = limitReason → decision.acceptedTokens = budget

/-- The session of a request for `total` tokens that has accepted some tokens and goes on. -/
structure Open (s : OutputSession) (σ : Setting) (limitReason : FinishReason) (total : Nat)
    (prior : PublishedOutput) (seen : List TokenId) : Prop where
  terminal : s.state.terminal = false
  holds : s.Holds σ prior seen
  goes : (σ.reference limitReason total seen).finishReason = .none

theorem makeOutputSession_open {tokenizer : Tokenizer} {callerStop : StopPolicy}
    {output : OutputOptions} {starts : Bool}
    (h : makeOutputSession tokenizer callerStop output starts = .ok s) :
    s.Open s.setting limitReason total [] [] := by
  obtain ⟨hholds, hterminal⟩ := makeOutputSession_holds h
  exact ⟨hterminal, hholds, rfl⟩

/-- What the reference says of a request whose round has ended the output. -/
structure Concludes (σ : Setting) (limitReason : FinishReason) (total : Nat)
    (published : PublishedOutput) (tokens : List TokenId) (reason : FinishReason)
    (s : OutputSession) : Prop where
  published : ∀ c, textOf c published = (σ.reference limitReason total tokens).published c
  accepted : (σ.reference limitReason total tokens).acceptedTokens = tokens.length
  reason : (σ.reference limitReason total tokens).finishReason = reason
  reasoningTokens : (σ.reference limitReason total tokens).reasoningTokens = s.reasoningTokens

/-- **A preview decides** in terms of the budget. It can be committed, and the session stays open or
the output is what the reference says. -/
theorem Open.decides (hs : s.Open σ limitReason total prior seen)
    (hbudget : seen.length + budget = total)
    (h : s.preview tokens budget limitReason = .ok (decision, s')) :
    Decides tokens budget limitReason decision ∧
      ∃ output s'', s'.commitPreview = some (output, s'') ∧
        (decision.finished = false →
          s''.Open σ limitReason total (prior ++ output) (seen ++ tokens)) ∧
        (decision.finished = true → Concludes σ limitReason total (prior ++ output)
          (seen ++ tokens.take decision.acceptedTokens) decision.finishReason s'') := by
  obtain ⟨-, -, hne, hle, hlimit, -⟩ := preview_eq_ok_iff.mp h
  have hpos := List.length_pos_iff.mpr hne
  have hlimit' := limit_ne hlimit
  obtain ⟨state, output, hcommit, hyields, hopen⟩ := hs.holds.preview h
  rw [hbudget] at hyields
  have hwithin : Setting.WithinBudget limitReason total seen.length tokens.length
      (σ.referenceFrom limitReason total seen tokens) :=
    Setting.referenceFrom_withinBudget hlimit tokens (by omega)
  have haccepted := hyields.accepted
  have hreason := hyields.reason
  -- The reference of all tokens goes on from the tokens accepted before.
  have hfrom : ∀ more, σ.reference limitReason total (seen ++ more) =
      σ.referenceFrom limitReason total seen more := by
    intro more
    exact (Setting.referenceFrom_append_of_eq hlimit' seen more hs.goes).1
  refine ⟨⟨?_, ?_, fun hgoes => ?_, fun hends => ?_, fun hlast => ?_⟩, output, _, hcommit,
    fun hgoes => ?_, fun hends => ?_⟩
  · have := hwithin.accepted_pos (by omega)
    omega
  · have := hwithin.accepted_le
    omega
  · have hnone : decision.finishReason = .none := not_not.mp (of_decide_eq_false hgoes)
    have := hwithin.goes (hreason.symm.trans hnone)
    omega
  · have hsome : decision.finishReason ≠ .none := of_decide_eq_true hends
    rw [hreason] at hsome ⊢
    exact hwithin.reason.resolve_left hsome
  · have := hwithin.limit (hreason.symm.trans hlast)
    omega
  · obtain ⟨hD, hcut, -⟩ := hopen hgoes
    have hnone : decision.finishReason = .none := not_not.mp (of_decide_eq_false hgoes)
    refine ⟨hD.terminal, ⟨⟨hs.holds.setting.1, hs.holds.setting.2, hs.holds.setting.3⟩,
      hs.holds.merged, rfl, fun _ => ⟨hD.shift, hcut⟩⟩, ?_⟩
    rw [hfrom, ← hreason, hnone]
  · have htake : σ.referenceFrom limitReason total seen (tokens.take
        ((σ.referenceFrom limitReason total seen tokens).acceptedTokens - seen.length)) =
        σ.referenceFrom limitReason total seen tokens := Setting.referenceFrom_take tokens
    rw [← haccepted, Nat.add_sub_cancel_left] at htake
    have hlen : (tokens.take decision.acceptedTokens).length = decision.acceptedTokens := by
      have := hwithin.accepted_le
      rw [List.length_take]
      omega
    refine ⟨fun c => ?_, ?_, ?_, ?_⟩
    · rw [hfrom, htake, hyields.texts c]
    · rw [hfrom, htake, List.length_append, hlen, haccepted]
    · rw [hfrom, htake, hreason]
    · rw [hfrom, htake]
      exact hyields.reasoningTokens.symm

/-- **The end between two rounds**: the preview returns, and its commit publishes the rest of the
text. -/
theorem Open.previewTerminal (hs : s.Open σ limitReason total prior seen) {reason : FinishReason}
    (hreason : reason ≠ .none ∧ reason ≠ .stopString ∧ reason ≠ .stopToken) :
    ∃ s' output s'', s.previewTerminal reason = .ok (⟨0, reason⟩, s') ∧
      s'.commitPreview = some (output, s'') ∧
      ∀ c, textOf c (prior ++ output) = σ.final seen c := by
  obtain ⟨hD, -⟩ := hs.holds.decoded hs.terminal
  obtain ⟨state, output, hend, hyields⟩ := yields_flushed hs.holds.merged seen.length hD.buffers
    hD.scans hD.reasoningTokens (Nat.add_zero _) hreason.1
  rw [← hs.holds.setting.policy] at hend
  refine ⟨{ s with previewed := some (state, output) }, output, _, ?_, rfl, hyields.texts⟩
  unfold OutputSession.previewTerminal
  rw [check_bind_eq_ok, check_bind_eq_ok, check_bind_eq_ok]
  refine ⟨hs.terminal, hs.holds.previewed, hreason, ?_⟩
  rw [hend]
  rfl

/-- **A preview within the budget** fails only where the tokens cannot be decoded: none of its own
checks does. -/
theorem Open.preview_error (hs : s.Open σ limitReason total prior seen) (hne : tokens ≠ [])
    (hle : tokens.length ≤ budget)
    (hlimit : limitReason = .outputLimit ∨ limitReason = .contextCapacity) {e : Exception}
    (h : s.preview tokens budget limitReason = .error e) :
    s.previewFrom budget limitReason 0 s.state [] tokens = .error e := by
  unfold preview at h
  rw [check_of hs.terminal, check_of hs.holds.previewed, check_of hne, check_of hle,
    check_of hlimit] at h
  cases hfrom : s.previewFrom budget limitReason 0 s.state [] tokens with
  | error e' =>
    rw [hfrom] at h
    have he : (.error e' : Except Exception (OutputDecision × OutputSession)) = .error e := h
    rw [Except.error.inj he]
  | ok result =>
    rw [hfrom] at h
    cases h

end OutputSession

end Ninfer.Output
