import Ninfer.Chat.Template
import Ninfer.Commons.Check

/-!
# Rewrite checkpoints are stable

A conversation continues with an assistant turn. The text of the prompt up to its rewrite
checkpoint is then the start of the text of every continuation: no turn before the checkpoint is
rendered in another way for what follows.

## Main definitions

* `renderBefore`: the text before a turn
* `OpensFirst`: the first assistant turn after the last query
* `renderedReasoning`: the reasoning of a turn that continues a conversation

## Main results

* `renderTurn_append`: turns are rendered as in the continuation
* `renderTurns_opens`: where the checkpoint is
* `rewrite_checkpoint_stable`: the text up to the checkpoint stays
-/

namespace Ninfer.Chat

open Output (Bytes)
open Qwen (RewriteCheckpointKind)

/-- The opener of an assistant turn. -/
def opener : Bytes := lit "<|im_start|>assistant\n"

variable {parse : Bytes → Except Exception Json} {semantics : ChatTemplateSemantics}
  {options : ChatRenderOptions} {messages : List ChatMessage} {q i : Nat} {st st' : Rendering}
  {turns : List (ChatMessage × Nat)} {message assistant : ChatMessage}
  {rest : List ChatMessage}

/-! ## One turn -/

section Turn

@[simp] theorem Rendering.append_rendered (st : Rendering) (text : Bytes) :
    (st.append text).rendered = st.rendered ++ text := rfl

@[simp] theorem Rendering.append_rewriteCheckpoint (st : Rendering) (text : Bytes) :
    (st.append text).rewriteCheckpoint = st.rewriteCheckpoint := rfl

/-- The checkpoint after the opener of an assistant turn. -/
def Rendering.opened (preserve : Bool) (q i : Nat) (st : Rendering) :
    Option RewriteCheckpointByteSpec :=
  if preserve = false ∧ st.rewriteCheckpoint = none ∧ q < i then
    some ⟨.turnClosure, (st.rendered ++ opener).length⟩
  else st.rewriteCheckpoint

/-- What an assistant turn does: it starts with the opener, goes on with the reasoning if that is
kept, and may set the checkpoint after the opener. -/
theorem renderAssistant_eq_ok {content : Bytes}
    (h : renderAssistant parse semantics options q message i content st = .ok st') :
    let preserve := preserveThinking semantics options
    let reasoning := (assistantParts semantics message content).reasoning
    (∃ text, st'.rendered = st.rendered ++ opener ++
      (if preserve ∨ q < i then lit "<think>\n" ++ reasoning ++ lit "\n</think>\n\n" else []) ++
        text) ∧
      st'.counts = st.counts ∧ st'.rewriteCheckpoint = st.opened preserve q i := by
  unfold renderAssistant at h
  obtain ⟨calls, -, h⟩ := bind_eq_ok.mp h
  have h := Except.ok.inj h
  rw [Rendering.append_rewriteCheckpoint] at h
  subst h
  unfold Rendering.opened
  dsimp only
  refine ⟨⟨(assistantParts semantics message content).content ++ calls ++ lit "<|im_end|>\n", ?_⟩,
    ?_, ?_⟩
  · split_ifs <;> simp [Rendering.mark, opener]
  · split_ifs <;> rfl
  · split_ifs <;> rfl

/-- The counters after the media of a message. -/
def countsAfter (options : ChatRenderOptions) (counts : MediaCounts) (message : ChatMessage) :
    MediaCounts :=
  (message.renderedContent options.addVisionId counts).2

/-- **What one turn does**: it adds text, counts media, and an assistant turn may set the
checkpoint after its opener. -/
theorem renderTurn_eq_ok {turn : ChatMessage × Nat}
    (h : renderTurn parse semantics options messages q st turn = .ok st') :
    st.rendered <+: st'.rendered ∧
      st'.counts = (if turn.2 < messageBegin messages then st.counts
        else countsAfter options st.counts turn.1) ∧
      st'.rewriteCheckpoint =
        if turn.1.role = .assistant ∧ messageBegin messages ≤ turn.2 then
          st.opened (preserveThinking semantics options) q turn.2
        else st.rewriteCheckpoint := by
  unfold renderTurn at h
  dsimp only at h
  by_cases hbegin : turn.2 < messageBegin messages
  · rw [if_pos hbegin] at h
    obtain rfl := Except.ok.inj h
    rw [if_pos hbegin, if_neg fun hle => absurd hle.2 (not_le.mpr hbegin)]
    exact ⟨List.prefix_rfl, rfl, rfl⟩
  · rw [if_neg hbegin] at h ⊢
    cases hrole : turn.1.role with
    | system =>
      rw [hrole] at h
      obtain ⟨-, -, h⟩ := bind_eq_ok.mp h
      obtain rfl := Except.ok.inj h
      exact ⟨List.prefix_append _ _, rfl, rfl⟩
    | developer =>
      rw [hrole] at h
      obtain ⟨-, -, h⟩ := bind_eq_ok.mp h
      obtain rfl := Except.ok.inj h
      exact ⟨List.prefix_append _ _, rfl, rfl⟩
    | user =>
      rw [hrole] at h
      obtain rfl := Except.ok.inj h
      exact ⟨List.prefix_append _ _, rfl, rfl⟩
    | tool =>
      rw [hrole] at h
      obtain rfl := Except.ok.inj h
      exact ⟨List.prefix_append _ _, rfl, rfl⟩
    | assistant =>
      rw [hrole] at h
      obtain ⟨⟨text, htext⟩, hcounts, hcheckpoint⟩ := renderAssistant_eq_ok h
      rw [if_pos ⟨rfl, not_lt.mp hbegin⟩]
      refine ⟨?_, hcounts, hcheckpoint⟩
      rw [htext, List.append_assoc, List.append_assoc]
      exact List.prefix_append _ _

/-- An assistant turn starts with the opener, and with its reasoning if that is kept. -/
theorem renderTurn_assistant (hrole : message.role = .assistant)
    (hbegin : messageBegin messages ≤ i)
    (h : renderTurn parse semantics options messages q st (message, i) = .ok st') :
    st.rendered ++ opener ++
      (if preserveThinking semantics options ∨ q < i then
        lit "<think>\n" ++
          (assistantParts semantics message (trimAsciiWhitespace
            (message.renderedContent options.addVisionId st.counts).1)).reasoning ++
          lit "\n</think>\n\n"
      else []) <+: st'.rendered := by
  unfold renderTurn at h
  dsimp only at h
  rw [if_neg (not_lt.mpr hbegin), hrole] at h
  obtain ⟨⟨text, htext⟩, -⟩ := renderAssistant_eq_ok h
  rw [htext]
  exact List.prefix_append _ _

end Turn

/-! ## Turns of a continuation -/

section Continuation

theorem messageBegin_append (hne : messages ≠ []) (more : List ChatMessage) :
    messageBegin (messages ++ more) = messageBegin messages := by
  cases messages with
  | nil => exact absurd rfl hne
  | cons message messages => rfl

theorem messageBegin_le (messages : List ChatMessage) : messageBegin messages ≤ 1 := by
  unfold messageBegin
  split_ifs <;> omega

/-- A tool turn does not see what follows: an assistant turn closes its group, and so does the
end. -/
theorem renderTool_append (hi : i < messages.length) (hrole : assistant.role = .assistant)
    (content : Bytes) : renderTool (messages ++ assistant :: rest) i content =
      renderTool messages i content := by
  have hbefore : (messages ++ assistant :: rest)[i - 1]? = messages[i - 1]? :=
    List.getElem?_append_left (by omega)
  have hcloses : (i + 1 = (messages ++ assistant :: rest).length ∨
      ((messages ++ assistant :: rest)[i + 1]?).any (·.role != .tool)) ↔
      (i + 1 = messages.length ∨ (messages[i + 1]?).any (·.role != .tool)) := by
    rw [List.length_append, List.length_cons]
    rcases Nat.lt_or_eq_of_le (Nat.succ_le_of_lt hi) with hlt | heq
    · rw [List.getElem?_append_left hlt]
      exact ⟨Or.imp_left (by omega), Or.imp_left (by omega)⟩
    · refine ⟨fun _ => Or.inl heq, fun _ => Or.inr ?_⟩
      rw [List.getElem?_append_right (by omega), show i + 1 - messages.length = 0 by omega]
      simp [hrole]
  unfold renderTool
  dsimp only
  rw [hbefore, if_congr hcloses rfl rfl]

/-- **A turn is rendered as in the continuation**, unless it is an assistant turn whose reasoning
may be dropped there. -/
theorem renderTurn_append {q' : Nat} (hi : i < messages.length)
    (hrole : assistant.role = .assistant)
    (hkeep : message.role = .assistant →
      preserveThinking semantics options = true ∨ ¬q < i ∧ ¬q' < i) :
    renderTurn parse semantics options (messages ++ assistant :: rest) q' st (message, i) =
      renderTurn parse semantics options messages q st (message, i) := by
  have hne : messages ≠ [] := List.ne_nil_of_length_pos (by omega)
  unfold renderTurn
  rw [messageBegin_append hne]
  dsimp only
  refine if_congr Iff.rfl rfl ?_
  cases hmessage : message.role with
  | system => rfl
  | developer => rfl
  | user => rfl
  | tool =>
    dsimp only
    rw [renderTool_append hi hrole]
  | assistant =>
    dsimp only
    unfold renderAssistant
    rcases hkeep hmessage with hpreserve | ⟨hq, hq'⟩
    · simp only [hpreserve, Bool.true_eq_false, false_and, if_false, true_or, if_true]
    · simp only [hq, hq', and_false, or_false, if_false]

/-- The last query of a continuation is that of the conversation, or a later turn. -/
theorem lastRealUserQuery_append (h : lastRealUserQuery messages = .ok q)
    (more : List ChatMessage) : ∃ q', lastRealUserQuery (messages ++ more) = .ok q' ∧
      (q' = q ∨ messages.length ≤ q') := by
  unfold lastRealUserQuery at h ⊢
  rw [List.zipIdx_append, List.reverse_append, List.find?_append]
  cases hmore : (more.zipIdx (0 + messages.length)).reverse.find? (·.1.isUserQuery) with
  | none =>
    rw [Option.none_or]
    exact ⟨q, h, Or.inl rfl⟩
  | some turn =>
    refine ⟨turn.2, rfl, Or.inr ?_⟩
    have hmem := List.mem_reverse.mp (List.mem_of_find?_eq_some hmore)
    have := List.le_snd_of_mem_zipIdx hmem
    omega

theorem renderStart_append {start : Nat × Rendering}
    (h : renderStart parse semantics options messages = .ok start) (more : List ChatMessage) :
    ∃ q', renderStart parse semantics options (messages ++ more) = .ok (q', start.2) ∧
      (q' = start.1 ∨ messages.length ≤ q') := by
  unfold renderStart at h ⊢
  obtain ⟨hne, h⟩ := check_bind_eq_ok.mp h
  obtain ⟨instructions, hinstructions, h⟩ := bind_eq_ok.mp h
  obtain ⟨leading, hleading, h⟩ := bind_eq_ok.mp h
  obtain ⟨system, hsystem, h⟩ := bind_eq_ok.mp h
  obtain ⟨q, hq, h⟩ := bind_eq_ok.mp h
  obtain rfl := Except.ok.inj h
  obtain ⟨q', hq', hle⟩ := lastRealUserQuery_append hq more
  refine ⟨q', ?_, hle⟩
  have hleading' : leadingInstruction (messages ++ more) = .ok leading := by
    rw [← hleading]
    cases messages with
    | nil => exact absurd rfl hne
    | cons message messages => rfl
  rw [hinstructions, hleading', messageBegin_append hne, hq']
  refine check_bind_eq_ok.mpr ⟨List.append_ne_nil_of_left_ne_nil hne more, ?_⟩
  exact bind_eq_ok.mpr ⟨_, rfl, bind_eq_ok.mpr ⟨_, rfl,
    bind_eq_ok.mpr ⟨_, hsystem, rfl⟩⟩⟩

end Continuation

/-! ## The loop -/

section Loop

/-- **What the loop does**: it adds text, and counts the media of its turns. -/
theorem renderTurns_eq_ok
    (h : renderTurns parse semantics options messages q st turns = .ok st') :
    st.rendered <+: st'.rendered ∧
      (preserveThinking semantics options = true ∨ st.rewriteCheckpoint ≠ none →
        st'.rewriteCheckpoint = st.rewriteCheckpoint) := by
  induction turns generalizing st with
  | nil =>
    obtain rfl := Except.ok.inj h
    exact ⟨List.prefix_rfl, fun _ => rfl⟩
  | cons turn turns ih =>
    obtain ⟨mid, hturn, hturns⟩ := bind_eq_ok.mp h
    obtain ⟨hadds, -, hcheckpoint⟩ := renderTurn_eq_ok hturn
    obtain ⟨hadds', hcheckpoint'⟩ := ih hturns
    refine ⟨hadds.trans hadds', fun hkept => ?_⟩
    have hmid : mid.rewriteCheckpoint = st.rewriteCheckpoint := by
      rw [hcheckpoint]
      unfold Rendering.opened
      rcases hkept with hpreserve | hset
      · simp [hpreserve]
      · simp [hset]
    rw [hcheckpoint' (by rw [hmid]; exact hkept), hmid]

/-- A run over turns that are rendered as in the continuation. -/
theorem renderTurns_append (hrole : assistant.role = .assistant) {q' : Nat}
    (hi : ∀ turn ∈ turns, turn.2 < messages.length)
    (hkeep : ∀ turn ∈ turns, turn.1.role = .assistant →
      preserveThinking semantics options = true ∨ ¬q < turn.2 ∧ ¬q' < turn.2) :
    renderTurns parse semantics options (messages ++ assistant :: rest) q' st turns =
      renderTurns parse semantics options messages q st turns := by
  induction turns generalizing st with
  | nil => rfl
  | cons turn turns ih =>
    unfold renderTurns
    rw [List.foldlM_cons, List.foldlM_cons, renderTurn_append (hi turn List.mem_cons_self) hrole
      (hkeep turn List.mem_cons_self)]
    congr 1
    funext mid
    exact ih (fun t ht => hi t (List.mem_cons_of_mem _ ht))
      fun t ht => hkeep t (List.mem_cons_of_mem _ ht)

theorem renderTurns_split {before after : List (ChatMessage × Nat)}
    (h : renderTurns parse semantics options messages q st (before ++ after) = .ok st') :
    ∃ mid, renderTurns parse semantics options messages q st before = .ok mid ∧
      renderTurns parse semantics options messages q mid after = .ok st' := by
  unfold renderTurns at h ⊢
  rw [List.foldlM_append] at h
  exact bind_eq_ok.mp h

/-- **Where the checkpoint is**: after the opener of the first assistant turn behind the last query,
if there is one. -/
theorem renderTurns_opens (hpreserve : preserveThinking semantics options = false)
    (hbegin : messageBegin messages ≤ q + 1) (hnone : st.rewriteCheckpoint = none)
    (h : renderTurns parse semantics options messages q st turns = .ok st') :
    (st'.rewriteCheckpoint = none ∧ ∀ turn ∈ turns, turn.1.role = .assistant → ¬q < turn.2) ∨
      ∃ before turn after mid, turns = before ++ turn :: after ∧
        (∀ turn ∈ before, turn.1.role = .assistant → ¬q < turn.2) ∧
        turn.1.role = .assistant ∧ q < turn.2 ∧
        renderTurns parse semantics options messages q st before = .ok mid ∧
        mid.rendered ++ opener <+: st'.rendered ∧
        st'.rewriteCheckpoint = some ⟨.turnClosure, (mid.rendered ++ opener).length⟩ := by
  induction turns generalizing st with
  | nil =>
    obtain rfl := Except.ok.inj h
    exact Or.inl ⟨hnone, nofun⟩
  | cons turn turns ih =>
    obtain ⟨next, hturn, hturns⟩ := bind_eq_ok.mp h
    obtain ⟨-, -, hcheckpoint⟩ := renderTurn_eq_ok hturn
    by_cases hopens : turn.1.role = .assistant ∧ q < turn.2
    · -- the checkpoint is set, and stays
      have hle : messageBegin messages ≤ turn.2 := by omega
      rw [if_pos ⟨hopens.1, hle⟩, Rendering.opened, if_pos ⟨hpreserve, hnone, hopens.2⟩]
        at hcheckpoint
      obtain ⟨hadds, hkept⟩ := renderTurns_eq_ok hturns
      have hopener := renderTurn_assistant hopens.1 hle hturn
      refine Or.inr ⟨[], turn, turns, st, rfl, nofun, hopens.1, hopens.2, rfl, ?_, ?_⟩
      · exact ((List.prefix_append _ _).trans hopener).trans hadds
      · rw [hkept (Or.inr (by rw [hcheckpoint]; exact Option.some_ne_none _)), hcheckpoint]
    · have hnext : next.rewriteCheckpoint = none := by
        rw [hcheckpoint]
        unfold Rendering.opened
        split_ifs with h₁ h₂
        · exact absurd ⟨h₁.1, h₂.2.2⟩ hopens
        · exact hnone
        · exact hnone
      have hturn' : turn.1.role = .assistant → ¬q < turn.2 := fun hrole hlt =>
        hopens ⟨hrole, hlt⟩
      rcases ih hnext hturns with ⟨hnone', hall⟩ | ⟨before, opens, after, mid, rfl, hbefore, hrest⟩
      · exact Or.inl ⟨hnone', List.forall_mem_cons.mpr ⟨hturn', hall⟩⟩
      · obtain ⟨hrole, hlt, hmid, hopener, hspec⟩ := hrest
        refine Or.inr ⟨turn :: before, opens, after, mid, rfl,
          List.forall_mem_cons.mpr ⟨hturn', hbefore⟩, hrole, hlt, ?_, hopener, hspec⟩
        exact bind_eq_ok.mpr ⟨next, hturn, hmid⟩

/-- The counters after the media of a conversation. -/
def mediaCounts (options : ChatRenderOptions) (messages : List ChatMessage) : MediaCounts :=
  (messages.drop (messageBegin messages)).foldl (countsAfter options) {}

theorem renderTurns_counts (more : List ChatMessage) (k : Nat)
    (h : renderTurns parse semantics options messages q st (more.zipIdx k) = .ok st') :
    st'.counts = (more.drop (messageBegin messages - k)).foldl (countsAfter options) st.counts := by
  induction more generalizing k st with
  | nil =>
    obtain rfl := Except.ok.inj h
    rw [List.drop_nil, List.foldl_nil]
  | cons message more ih =>
    obtain ⟨mid, hturn, hturns⟩ := bind_eq_ok.mp h
    obtain ⟨-, hcounts, -⟩ := renderTurn_eq_ok hturn
    dsimp only at hcounts
    rw [ih _ hturns, hcounts]
    split_ifs with hk
    · rw [show messageBegin messages - k = messageBegin messages - (k + 1) + 1 by omega,
        List.drop_succ_cons]
    · rw [show messageBegin messages - (k + 1) = 0 by omega,
        show messageBegin messages - k = 0 by omega]
      rfl

end Loop

/-! ## Checkpoints -/

/-- The reasoning of an assistant turn that continues a conversation. -/
def renderedReasoning (semantics : ChatTemplateSemantics) (options : ChatRenderOptions)
    (messages : List ChatMessage) (assistant : ChatMessage) : Bytes :=
  let out := assistant.renderedContent options.addVisionId (mediaCounts options messages)
  (assistantParts semantics assistant (trimAsciiWhitespace out.1)).reasoning

/-- The text before turn `i`. -/
def renderBefore (parse : Bytes → Except Exception Json) (semantics : ChatTemplateSemantics)
    (options : ChatRenderOptions) (messages : List ChatMessage) (i : Nat) :
    Except Exception Bytes := do
  let start ← renderStart parse semantics options messages
  let st ← renderTurns parse semantics options messages start.1 start.2 (messages.zipIdx.take i)
  .ok st.rendered

/-- Turn `i` is the first assistant turn behind the last query, where the generation prompt is one
too. The text before it is `before`. -/
structure OpensFirst (parse : Bytes → Except Exception Json) (semantics : ChatTemplateSemantics)
    (options : ChatRenderOptions) (messages : List ChatMessage) (i : Nat) (before : Bytes) :
    Prop where
  opens : i = messages.length ∧ options.addGenerationPrompt = true ∨
    ∃ message, messages[i]? = some message ∧ message.role = .assistant
  first : ∃ q, lastRealUserQuery messages = .ok q ∧ q < i ∧
    ∀ j message, messages[j]? = some message → q < j → j < i → message.role ≠ .assistant
  rendered : renderBefore parse semantics options messages i = .ok before

section Stable

/-- The query is a turn of the conversation. -/
theorem lastRealUserQuery_lt (h : lastRealUserQuery messages = .ok q) : q < messages.length := by
  unfold lastRealUserQuery at h
  split at h
  · rename_i turn i hfind
    obtain rfl := Except.ok.inj h
    have hmem := List.mem_reverse.mp (List.mem_of_find?_eq_some hfind)
    exact (List.snd_lt_of_mem_zipIdx hmem).trans_eq (Nat.add_zero _)
  · exact nomatch h

/-- What a rendering starts with. -/
theorem renderStart_eq_ok {start : Nat × Rendering}
    (h : renderStart parse semantics options messages = .ok start) :
    messages ≠ [] ∧ start.2.counts = {} ∧ start.2.rewriteCheckpoint = none ∧
      lastRealUserQuery messages = .ok start.1 := by
  unfold renderStart at h
  obtain ⟨hne, h⟩ := check_bind_eq_ok.mp h
  obtain ⟨instructions, -, h⟩ := bind_eq_ok.mp h
  obtain ⟨leading, -, h⟩ := bind_eq_ok.mp h
  obtain ⟨system, -, h⟩ := bind_eq_ok.mp h
  obtain ⟨q, hq, h⟩ := bind_eq_ok.mp h
  obtain rfl := Except.ok.inj h
  exact ⟨hne, rfl, rfl, hq⟩

/-- What a returned rendering consists of. -/
theorem render_eq_ok {result : RenderedChat}
    (h : render parse semantics options messages = .ok result) : ∃ start st,
      renderStart parse semantics options messages = .ok start ∧
      renderTurns parse semantics options messages start.1 start.2 messages.zipIdx = .ok st ∧
      result.text = (renderGeneration semantics options st).rendered ∧
      result.rewriteCheckpoint = (renderGeneration semantics options st).rewriteCheckpoint := by
  obtain ⟨start, hstart, h⟩ := bind_eq_ok.mp h
  obtain ⟨st, hturns, h⟩ := bind_eq_ok.mp h
  obtain rfl := Except.ok.inj h
  exact ⟨start, st, hstart, hturns, rfl, rfl⟩

/-- The generation prompt adds text, and may set a checkpoint. -/
theorem renderGeneration_adds (st : Rendering) :
    st.rendered <+: (renderGeneration semantics options st).rendered := by
  unfold renderGeneration
  dsimp only
  by_cases hgen : options.addGenerationPrompt = false
  · rw [if_pos hgen]
  · rw [if_neg hgen]
    split_ifs <;>
    · simp only [Rendering.mark, Rendering.append_rendered, List.append_assoc]
      exact List.prefix_append _ _

/-- A generation prompt is an opener, after which a checkpoint is set if there is none. -/
theorem renderGeneration_closure (hpreserve : preserveThinking semantics options = false)
    (hgen : options.addGenerationPrompt = true) (st : Rendering) :
    let st' := renderGeneration semantics options st
    st.rendered ++ opener <+: st'.rendered ∧
      st'.rewriteCheckpoint =
        if st.rewriteCheckpoint = none then some ⟨.turnClosure, (st.rendered ++ opener).length⟩
        else st.rewriteCheckpoint := by
  unfold renderGeneration
  dsimp only
  rw [if_neg (by rw [hgen]; exact Bool.true_eq_false_eq_False), hpreserve]
  simp only [Bool.false_eq_true, if_false, true_and, Rendering.append_rewriteCheckpoint]
  split_ifs <;> exact ⟨List.prefix_append _ _, rfl⟩

/-- The prologue of a response. -/
def prologue (options : ChatRenderOptions) : Bytes :=
  if options.enableThinking then lit "<think>\n" else lit "<think>\n\n</think>\n\n"

/-- If thinking is preserved, the checkpoint is at the end of the prologue. -/
theorem renderGeneration_replay (hpreserve : preserveThinking semantics options = true)
    (hgen : options.addGenerationPrompt = true) (st : Rendering) :
    let st' := renderGeneration semantics options st
    st'.rendered = st.rendered ++ opener ++ prologue options ∧
      st'.rewriteCheckpoint = some ⟨.responseReplay, st'.rendered.length⟩ := by
  unfold renderGeneration prologue
  dsimp only
  rw [if_neg (by rw [hgen]; exact Bool.true_eq_false_eq_False), hpreserve]
  simp only [if_true, Bool.true_eq_false, false_and, if_false]
  split_ifs <;> exact ⟨rfl, rfl⟩

/-- A continuation that is rendered goes on from the text of the conversation. -/
theorem render_append {start : Nat × Rendering} {before : List (ChatMessage × Nat)}
    {turn : ChatMessage × Nat} {after : List (ChatMessage × Nat)} {mid : Rendering}
    {extended : RenderedChat} (hrole : assistant.role = .assistant)
    (hstart : renderStart parse semantics options messages = .ok start)
    (hsplit : messages.zipIdx ++ (assistant :: rest).zipIdx messages.length =
      before ++ turn :: after)
    (hlen : ∀ turn ∈ before, turn.2 < messages.length)
    (hkeep : ∀ turn ∈ before, turn.1.role = .assistant →
      preserveThinking semantics options = true ∨ ¬start.1 < turn.2)
    (hmid : renderTurns parse semantics options messages start.1 start.2 before = .ok mid)
    (hturn : turn.1.role = .assistant) (hbegin : messageBegin messages ≤ turn.2)
    (h : render parse semantics options (messages ++ assistant :: rest) = .ok extended) :
    mid.rendered ++ opener ++
      (if preserveThinking semantics options then
        lit "<think>\n" ++
          (assistantParts semantics turn.1 (trimAsciiWhitespace
            (turn.1.renderedContent options.addVisionId mid.counts).1)).reasoning ++
          lit "\n</think>\n\n"
      else []) <+: extended.text := by
  obtain ⟨start', st, hstart', hturns, htext, -⟩ := render_eq_ok h
  obtain ⟨q', hq', hlast⟩ := renderStart_append hstart (assistant :: rest)
  obtain rfl := Except.ok.inj (hq'.symm.trans hstart')
  have hne := (renderStart_eq_ok hstart).1
  rw [List.zipIdx_append, Nat.zero_add, hsplit] at hturns
  obtain ⟨mid', hmid', hturns⟩ := renderTurns_split hturns
  obtain ⟨next, hnext, hrest⟩ := bind_eq_ok.mp hturns
  dsimp only at hmid'
  rw [renderTurns_append hrole hlen fun turn hm ha => (hkeep turn hm ha).imp_right fun hq =>
    ⟨hq, ?_⟩, hmid] at hmid'
  swap
  · -- the last query of the continuation is not before its turns
    have := hlen turn hm
    rcases hlast with heq | hle
    · rw [heq]
      exact hq
    · omega
  obtain rfl := Except.ok.inj hmid'
  have hopener := renderTurn_assistant hturn (by rw [messageBegin_append hne]; exact hbegin) hnext
  have hafter : next.rendered <+: extended.text := by
    rw [htext]
    exact (renderTurns_eq_ok hrest).1.trans (renderGeneration_adds st)
  refine List.IsPrefix.trans ?_ (hopener.trans hafter)
  split_ifs with h₁ h₂ h₂
  · exact List.prefix_rfl
  · exact absurd (Or.inl h₁) h₂
  · rw [List.append_nil]
    exact List.prefix_append _ _
  · exact List.prefix_rfl

/-- Where a turn of the conversation stands. -/
theorem zipIdx_split {before after : List (ChatMessage × Nat)} {turn : ChatMessage × Nat}
    (h : messages.zipIdx = before ++ turn :: after) :
    turn.2 = before.length ∧ messages[turn.2]? = some turn.1 ∧
      before = messages.zipIdx.take turn.2 := by
  have hget : messages.zipIdx[before.length]? = some turn := by
    rw [h, List.getElem?_append_right (le_refl _), Nat.sub_self]
    rfl
  have hpair := hget
  rw [List.getElem?_zipIdx, Option.map_eq_some_iff] at hpair
  obtain ⟨message, hmessage, hturn⟩ := hpair
  rw [← hturn, Nat.zero_add]
  exact ⟨rfl, hmessage, by rw [h, List.take_left' rfl]⟩

/-- **The text before the first assistant turn stays**, and so does its opener. -/
theorem OpensFirst.extends {before : Bytes} {extended : RenderedChat}
    (h : OpensFirst parse semantics options messages i before)
    (hpreserve : preserveThinking semantics options = false) (hrole : assistant.role = .assistant)
    (hextended : render parse semantics options (messages ++ assistant :: rest) = .ok extended) :
    before ++ opener <+: extended.text := by
  obtain ⟨start, hstart, hbefore⟩ := bind_eq_ok.mp h.rendered
  obtain ⟨mid, hmid, hbefore⟩ := bind_eq_ok.mp hbefore
  obtain rfl := Except.ok.inj hbefore
  obtain ⟨q, hq, hlt, hfirst⟩ := h.first
  obtain rfl : start.1 = q := by
    have hlast := (renderStart_eq_ok hstart).2.2.2
    exact Except.ok.inj (hlast.symm.trans hq)
  have hmem : ∀ turn ∈ messages.zipIdx.take i, turn.2 < i ∧ messages[turn.2]? = some turn.1 := by
    intro turn hm
    obtain ⟨j, hj⟩ := List.mem_iff_getElem?.mp hm
    rw [List.getElem?_take] at hj
    split_ifs at hj with hji
    · rw [List.getElem?_zipIdx, Option.map_eq_some_iff] at hj
      obtain ⟨message, hmessage, rfl⟩ := hj
      rw [Nat.zero_add]
      exact ⟨hji, hmessage⟩
  have hsplit : ∃ turn after, messages.zipIdx ++ (assistant :: rest).zipIdx messages.length =
      messages.zipIdx.take i ++ turn :: after ∧ turn.1.role = .assistant ∧ turn.2 = i := by
    rcases h.opens with ⟨rfl, -⟩ | ⟨message, hmessage, hassistant⟩
    · refine ⟨(assistant, messages.length), rest.zipIdx (messages.length + 1), ?_, hrole, rfl⟩
      rw [List.take_of_length_le (by simp), List.zipIdx_cons]
    · obtain ⟨hi, hget⟩ := List.getElem?_eq_some_iff.mp hmessage
      have hdrop : messages.zipIdx.drop i = (message, i) :: messages.zipIdx.drop (i + 1) := by
        rw [List.drop_eq_getElem_cons (by simpa using hi), List.getElem_zipIdx, hget, Nat.zero_add]
      refine ⟨(message, i), messages.zipIdx.drop (i + 1) ++
        (assistant :: rest).zipIdx messages.length, ?_, hassistant, rfl⟩
      rw [← List.cons_append, ← hdrop, ← List.append_assoc, List.take_append_drop]
  obtain ⟨turn, after, hsplit, hassistant, hi⟩ := hsplit
  have hopener := render_append hrole hstart hsplit
    (fun turn hm => (List.getElem?_eq_some_iff.mp (hmem turn hm).2).1)
    (fun turn hm ha => Or.inr fun hq => hfirst _ _ (hmem turn hm).2 hq (hmem turn hm).1 ha)
    hmid hassistant
    (by have := messageBegin_le messages; omega) hextended
  rw [hpreserve, if_neg Bool.false_ne_true, List.append_nil] at hopener
  exact hopener

/-- **Where the checkpoint of a turn closure is.** -/
theorem render_opensFirst {result : RenderedChat} {spec : RewriteCheckpointByteSpec}
    (hpreserve : preserveThinking semantics options = false)
    (hrender : render parse semantics options messages = .ok result)
    (hspec : result.rewriteCheckpoint = some spec) : spec.kind = .turnClosure ∧
      ∃ i before, OpensFirst parse semantics options messages i before ∧
        before ++ opener <+: result.text ∧ spec.offset = (before ++ opener).length := by
  obtain ⟨start, st, hstart, hturns, htext, hcheckpoint⟩ := render_eq_ok hrender
  obtain ⟨hne, -, hnone, hlast⟩ := renderStart_eq_ok hstart
  have hlength := lastRealUserQuery_lt hlast
  have hbegin : messageBegin messages ≤ start.1 + 1 :=
    (messageBegin_le messages).trans (Nat.le_add_left 1 _)
  have hbefore : ∀ {i : Nat} {mid : Rendering},
      renderTurns parse semantics options messages start.1 start.2 (messages.zipIdx.take i) =
        .ok mid → renderBefore parse semantics options messages i = .ok mid.rendered :=
    fun hmid => bind_eq_ok.mpr ⟨start, hstart, bind_eq_ok.mpr ⟨_, hmid, rfl⟩⟩
  have hmem : ∀ {i j : Nat} {message : ChatMessage}, messages[j]? = some message → j < i →
      (message, j) ∈ messages.zipIdx.take i := by
    intro i j message hmessage hj
    refine List.mem_iff_getElem?.mpr ⟨j, ?_⟩
    rw [List.getElem?_take_of_lt hj, List.getElem?_zipIdx, hmessage, Option.map_some, Nat.zero_add]
  rcases renderTurns_opens hpreserve hbegin hnone hturns with
    ⟨hst, hall⟩ | ⟨before, turn, after, mid, hsplit, hfirst, hrole, hlt, hmid, hopener, hst⟩
  · -- no assistant turn: the generation prompt is the first one
    have hall' : messages.zipIdx.take messages.length = messages.zipIdx :=
      List.take_of_length_le (by simp)
    cases hgen : options.addGenerationPrompt with
    | false =>
      rw [hcheckpoint, renderGeneration, if_pos hgen, hst] at hspec
      exact nomatch hspec
    | true =>
      obtain ⟨hopener, hmark⟩ := renderGeneration_closure hpreserve hgen st
      rw [hcheckpoint, hmark, if_pos hst] at hspec
      obtain rfl := Option.some.inj hspec
      refine ⟨rfl, messages.length, st.rendered, ⟨Or.inl ⟨rfl, hgen⟩,
        ⟨start.1, hlast, hlength, ?_⟩, hbefore (by rw [hall']; exact hturns)⟩, ?_, rfl⟩
      · intro j message hmessage hq hj hrole
        exact hall _ (List.mem_of_mem_take (hmem hmessage hj)) hrole hq
      · rw [htext]
        exact hopener
  · obtain ⟨hi, hget, htake⟩ := zipIdx_split hsplit
    have hkept : (renderGeneration semantics options st).rewriteCheckpoint =
        st.rewriteCheckpoint := by
      cases hgen : options.addGenerationPrompt with
      | false => rw [renderGeneration, if_pos hgen]
      | true =>
        rw [(renderGeneration_closure hpreserve hgen st).2,
          if_neg (by rw [hst]; exact Option.some_ne_none _)]
    rw [hcheckpoint, hkept, hst] at hspec
    obtain rfl := Option.some.inj hspec
    refine ⟨rfl, turn.2, mid.rendered, ⟨Or.inr ⟨_, hget, hrole⟩, ⟨start.1, hlast, hlt, ?_⟩,
      hbefore (by rw [← htake]; exact hmid)⟩, ?_, rfl⟩
    · intro j message hmessage hq hj hassistant
      refine hfirst (message, j) ?_ hassistant hq
      rw [htake]
      exact hmem hmessage hj
    · rw [htext]
      exact hopener.trans (renderGeneration_adds st)

/-- **Where the checkpoint of a response replay is**, and what it keeps. -/
theorem render_replay {result : RenderedChat} {spec : RewriteCheckpointByteSpec}
    (hpreserve : preserveThinking semantics options = true)
    (hrender : render parse semantics options messages = .ok result)
    (hspec : result.rewriteCheckpoint = some spec) :
    spec = ⟨.responseReplay, result.text.length⟩ ∧ ∃ before,
      renderBefore parse semantics options messages messages.length = .ok before ∧
        result.text = before ++ opener ++ prologue options := by
  obtain ⟨start, st, hstart, hturns, htext, hcheckpoint⟩ := render_eq_ok hrender
  have hall : messages.zipIdx.take messages.length = messages.zipIdx :=
    List.take_of_length_le (by simp)
  have hnone : st.rewriteCheckpoint = none := by
    rw [(renderTurns_eq_ok hturns).2 (Or.inl hpreserve), (renderStart_eq_ok hstart).2.2.1]
  cases hgen : options.addGenerationPrompt with
  | false =>
    rw [hcheckpoint, renderGeneration, if_pos hgen, hnone] at hspec
    exact nomatch hspec
  | true =>
    obtain ⟨hrendered, hmark⟩ := renderGeneration_replay hpreserve hgen st
    rw [hcheckpoint, hmark, ← htext] at hspec
    refine ⟨(Option.some.inj hspec).symm, st.rendered, ?_, htext.trans hrendered⟩
    unfold renderBefore
    rw [hall]
    exact bind_eq_ok.mpr ⟨start, hstart, bind_eq_ok.mpr ⟨st, hturns, rfl⟩⟩

/-- A continuation starts with the prologue, if its reasoning is empty where there is none. -/
theorem render_replay_extends {before : Bytes} {extended : RenderedChat}
    (hpreserve : preserveThinking semantics options = true)
    (hbefore : renderBefore parse semantics options messages messages.length = .ok before)
    (hrole : assistant.role = .assistant)
    (hextended : render parse semantics options (messages ++ assistant :: rest) = .ok extended)
    (hreasoning : options.enableThinking = false →
      renderedReasoning semantics options messages assistant = []) :
    before ++ opener ++ prologue options <+: extended.text := by
  obtain ⟨start, hstart, hbefore⟩ := bind_eq_ok.mp hbefore
  obtain ⟨mid, hmid, hbefore⟩ := bind_eq_ok.mp hbefore
  obtain rfl := Except.ok.inj hbefore
  rw [List.take_of_length_le (by simp)] at hmid
  have hcounts := renderTurns_counts messages 0 hmid
  rw [(renderStart_eq_ok hstart).2.1, Nat.sub_zero] at hcounts
  have hidx : ∀ turn ∈ messages.zipIdx, turn.2 < messages.length := fun turn hm =>
    (List.snd_lt_of_mem_zipIdx hm).trans_eq (Nat.add_zero _)
  have hbegin : messageBegin messages ≤ messages.length :=
    (messageBegin_le messages).trans (List.length_pos_iff.mpr (renderStart_eq_ok hstart).1)
  have hsplit : messages.zipIdx ++ (assistant :: rest).zipIdx messages.length =
      messages.zipIdx ++ (assistant, messages.length) :: rest.zipIdx (messages.length + 1) := by
    rw [List.zipIdx_cons]
  have hopener := render_append hrole hstart hsplit hidx (fun _ _ _ => Or.inl hpreserve) hmid hrole
    hbegin hextended
  rw [hpreserve, if_pos rfl, hcounts] at hopener
  refine List.IsPrefix.trans ?_ hopener
  rw [List.prefix_append_right_inj]
  unfold prologue
  cases hthinking : options.enableThinking with
  | true =>
    rw [if_pos rfl, List.append_assoc]
    exact List.prefix_append _ _
  | false =>
    have hempty := hreasoning hthinking
    unfold renderedReasoning mediaCounts at hempty
    rw [if_neg Bool.false_ne_true, hempty, List.append_nil]
    exact (show lit "<think>\n\n</think>\n\n" = lit "<think>\n" ++ lit "\n</think>\n\n" by decide) ▸
      List.prefix_rfl

/-- **Rewrite checkpoints are stable.** The text up to the checkpoint is the start of the text of
every continuation by an assistant turn and any further turns; if the checkpoint keeps the
generation prompt of a conversation without thinking, for turns without reasoning. A checkpoint of
a turn closure is behind the opener of the first assistant turn after the last query, one of a
response replay is at the end of the text. -/
theorem rewrite_checkpoint_stable {result : RenderedChat} {spec : RewriteCheckpointByteSpec}
    (hrender : render parse semantics options messages = .ok result)
    (hspec : result.rewriteCheckpoint = some spec) :
    (∀ (assistant : ChatMessage) (rest : List ChatMessage) (extended : RenderedChat),
      assistant.role = .assistant →
      render parse semantics options (messages ++ assistant :: rest) = .ok extended →
      (spec.kind = .responseReplay → options.enableThinking = false →
        renderedReasoning semantics options messages assistant = []) →
      spec.offset ≤ result.text.length ∧ result.text.take spec.offset <+: extended.text) ∧
    (spec.kind = .turnClosure → ∃ i before,
      OpensFirst parse semantics options messages i before ∧
        result.text.take spec.offset = before ++ opener) ∧
    (spec.kind = .responseReplay → spec.offset = result.text.length) := by
  cases hpreserve : preserveThinking semantics options with
  | false =>
    -- Old reasoning is dropped: the checkpoint is where the first reply after the query opens.
    obtain ⟨hkind, i, before, hfirst, hopener, hoffset⟩ :=
      render_opensFirst hpreserve hrender hspec
    have htake : result.text.take spec.offset = before ++ opener := by
      rw [hoffset]
      exact (List.prefix_iff_eq_take.mp hopener).symm
    refine ⟨fun assistant rest extended hrole hextended _ => ⟨?_, ?_⟩,
      fun _ => ⟨i, before, hfirst, htake⟩, fun hreplay => ?_⟩
    · rw [hoffset]
      exact hopener.length_le
    · rw [htake]
      exact hfirst.extends hpreserve hrole hextended
    · rw [hkind] at hreplay
      exact nomatch hreplay
  | true =>
    -- Reasoning is kept: the checkpoint is the end of the text.
    obtain ⟨rfl, before, hbefore, htext⟩ := render_replay hpreserve hrender hspec
    refine ⟨fun assistant rest extended hrole hextended hreasoning => ⟨le_rfl, ?_⟩,
      fun hclosure => (nomatch hclosure), fun _ => rfl⟩
    dsimp only
    rw [List.take_length, htext]
    exact render_replay_extends hpreserve hbefore hrole hextended (hreasoning rfl)

end Stable

/-! ## A conversation -/

/-- A query, and its answer. -/
def answered : List ChatMessage := [{ role := .user }, { role := .assistant }]

/-- A library for conversations without tools. -/
def noJson (_ : Bytes) : Except Exception Json := .ok .null

/-- If thinking is preserved, the checkpoint is behind the answer, not in it. -/
theorem checkpoint_not_opensFirst : ¬∀ (parse : Bytes → Except Exception Json)
    (semantics : ChatTemplateSemantics) (options : ChatRenderOptions) (messages : List ChatMessage)
    (result : RenderedChat) (spec : RewriteCheckpointByteSpec),
    render parse semantics options messages = .ok result →
    result.rewriteCheckpoint = some spec →
    ∃ i before, OpensFirst parse semantics options messages i before ∧
      result.text.take spec.offset = before ++ opener := by
  intro h
  let options : ChatRenderOptions := { preserveThinking := some true }
  have hvalue : (render noJson .thinkingToggle options answered).toOption.map
      (fun result => (result.text.length, result.rewriteCheckpoint)) =
        some (110, some ⟨.responseReplay, 110⟩) := by decide
  have hlength : (renderBefore noJson .thinkingToggle options answered 1).toOption.map
      (·.length) = some 28 := by decide
  cases hrender : render noJson .thinkingToggle options answered with
  | error e =>
    rw [hrender] at hvalue
    exact nomatch hvalue
  | ok result =>
    rw [hrender] at hvalue
    obtain ⟨htext, hspec⟩ := Prod.mk.inj (Option.some.inj hvalue)
    obtain ⟨i, before, ⟨hopens, ⟨q, hq, hlt, hfirst⟩, hbefore⟩, htake⟩ :=
      h _ _ _ _ _ _ hrender hspec
    have hquery : lastRealUserQuery answered = .ok 0 := by decide
    obtain rfl : 0 = q := Except.ok.inj (hquery.symm.trans hq)
    -- the answer is the first assistant turn
    obtain rfl : i = 1 := by
      by_contra hne
      exact hfirst 1 { role := .assistant } rfl (by decide) (by omega) rfl
    rw [hbefore] at hlength
    have hbefore' : before.length = 28 := Option.some.inj hlength
    have hsame := congrArg List.length htake
    rw [List.length_take, List.length_append, htext, hbefore'] at hsame
    exact absurd hsame (by decide)

/-- The next question does not change what is before the answer. -/
theorem rewrite_checkpoint_stable_answered : ∃ result spec extended,
    render noJson .thinkingToggle {} answered = .ok result ∧
    result.rewriteCheckpoint = some spec ∧ spec.offset = 50 ∧
    render noJson .thinkingToggle {} (answered ++ [{ role := .assistant }, { role := .user }]) =
      .ok extended ∧
    result.text.take spec.offset <+: extended.text := by
  have hvalue : (render noJson .thinkingToggle {} answered).toOption.bind (·.rewriteCheckpoint) =
      some ⟨.turnClosure, 50⟩ := by decide
  obtain ⟨extended, hextended⟩ := exists_ok_of_isOk (show (render noJson .thinkingToggle {}
    (answered ++ [{ role := .assistant }, { role := .user }])).isOk = true by decide)
  cases hrender : render noJson .thinkingToggle {} answered with
  | error e =>
    rw [hrender] at hvalue
    exact nomatch hvalue
  | ok result =>
    rw [hrender] at hvalue
    have hspec : result.rewriteCheckpoint = some ⟨.turnClosure, 50⟩ := hvalue
    have hstable := (rewrite_checkpoint_stable hrender hspec).1 _ _ _ rfl hextended nofun
    exact ⟨result, _, extended, rfl, hspec, rfl, hextended, hstable.2⟩

end Ninfer.Chat
