import Ninfer.Chat.Boundary
import Ninfer.Tokenizer.Scan

/-!
# Rewrite checkpoints in tokens

`targets/qwen3_6/impl/frontend/processor.cpp`: the offset of a rewrite checkpoint in a rendered text
becomes a number of tokens, those of the text in front of it. BPE does not keep the tokens of a text
when the text goes on. A checkpoint is where it does, since the scan for added tokens stops there: no
added token reaches over the newline of the opener, and one starts with the reasoning behind it.

## Main definitions

* `encodeRenderedChat`: the tokens of a rendered text and of its checkpoint
* `AtThink`: a text cut behind a newline and in front of `<think>`

## Main results

* `AtThink.substitute`: the expansion of the placeholders keeps the cut
* `AtThink.encode`: the tokens of the front part are the first of all tokens
* `encodeRenderedChat_exact`: a checkpoint is a prefix of the tokens
-/

namespace Ninfer.Frontend

open Output (Bytes)
open Qwen (TokenId VisionItem RewriteCheckpointSpec)
open Chat
open Tokenizer (AddedToken CodepointClasses KeepsNonempty Scans)

/-- `EncodedChat`. -/
structure EncodedChat where
  inputIds : List Int
  rewriteCheckpoint : Option RewriteCheckpointSpec := none
  deriving DecidableEq, Repr

/-- `encode_rendered_chat`. -/
def encodeRenderedChat (u : CodepointClasses) (normalizeNfc : Bytes → Except Exception Bytes)
    (t : Tokenizer) (rendered : RenderedChat) : Except Exception EncodedChat := do
  let inputIds ← t.encode u normalizeNfc rendered.text
  match rendered.rewriteCheckpoint with
  | none => .ok ⟨inputIds, none⟩
  | some spec => do
    check (spec.offset ≤ rendered.text.length)
      (.logicError "rewrite checkpoint byte offset exceeds rendered chat")
    let front ← t.encode u normalizeNfc (rendered.text.take spec.offset)
    check (front ≠ [] ∧ front.length ≤ inputIds.length ∧ front <+: inputIds)
      (.logicError "rewrite checkpoint is not an exact token prefix")
    check (front.length < 2 ^ 32)
      (.overflowError "rewrite checkpoint token frontier exceeds uint32")
    .ok ⟨inputIds, some ⟨spec.kind, front.length⟩⟩

/-! ## A text cut in front of the reasoning -/

/-- A text cut behind a newline and in front of `<think>`. -/
def AtThink (front rest : Bytes) : Prop :=
  (∃ before, front = before ++ [0x0a]) ∧ ∃ after, rest = lit "<think>" ++ after

theorem atThink_opener (before after : Bytes) :
    AtThink (before ++ opener) (lit "<think>" ++ after) :=
  ⟨⟨before ++ lit "<|im_start|>assistant", by rw [opener_eq, List.append_assoc]⟩, after, rfl⟩

theorem lit_think_eq : lit "<think>" = [0x3c, 0x74, 0x68, 0x69, 0x6e, 0x6b, 0x3e] := by decide

/-- No pad starts in `<think>`. -/
theorem free_think (after : Bytes) :
    padMarking.Free (lit "<think>").length (lit "<think>" ++ after) := by
  intro j hj
  cases hmark : padMarking.mark ((lit "<think>" ++ after).drop j) with
  | none => rfl
  | some m =>
    obtain ⟨tail, hpad⟩ : ∃ tail, pad m = 0x3c :: 0x7c :: tail := by
      cases m
      · exact ⟨lit "image_pad|>", by decide⟩
      · exact ⟨lit "video_pad|>", by decide⟩
    have hstarts := mark_eq_some_iff.mp hmark
    -- A pad starts with two characters that do not follow each other in `<think>`.
    rw [hpad, lit_think_eq] at hstarts
    rw [lit_think_eq] at hj
    have hj : j < 7 := hj
    interval_cases j <;> simp at hstarts

/-- **The expansion of the placeholders keeps the cut.** -/
theorem AtThink.substitute {front rest : Bytes} (h : AtThink front rest) (texts : List Bytes) :
    ∃ texts', padMarking.substitute texts (front ++ rest) =
        padMarking.substitute texts front ++ padMarking.substitute texts' rest ∧
      AtThink (padMarking.substitute texts front) (padMarking.substitute texts' rest) := by
  obtain ⟨⟨before, rfl⟩, after, rfl⟩ := h
  refine ⟨texts.drop (pads (before ++ [0x0a])).length, Marking.substitute_append _ ?_, ?_, ?_⟩
  · exact not_inside_of_newline before _
  · -- The newline is not part of a pad, and no pad is as short as that.
    have hinside : ¬padMarking.Inside (before ++ [0x0a]) before.length := by
      have h := not_inside_at_newline before []
      rwa [List.append_nil] at h
    have hnewline : pads [0x0a] = [] := by decide
    rw [Marking.substitute_append _ hinside, Marking.substitute_of_marks_nil _ hnewline]
    exact ⟨_, rfl⟩
  · rw [Marking.substitute_of_free _ (free_think after), List.take_left, List.drop_left]
    exact ⟨_, rfl⟩

/-! ## The tokens of the front part -/

variable {u : CodepointClasses} {normalizeNfc : Bytes → Except Exception Bytes} {t : Tokenizer}

/-- **The tokens of the front part** are the first of all tokens, and there is one. -/
theorem AtThink.encode (ht : t.Sound)
    (hthink : ∃ token ∈ t.addedTokens, token.content = lit "<think>")
    (hnewline : ∀ token ∈ t.addedTokens, (0x0a : UInt8) ∉ token.content)
    (hnfc : KeepsNonempty normalizeNfc) {front rest : Bytes} (h : AtThink front rest) {ids : List Int}
    (hids : t.encode u normalizeNfc (front ++ rest) = .ok ids) :
    ∃ before, t.encode u normalizeNfc front = .ok before ∧ before ≠ [] ∧ before <+: ids := by
  obtain ⟨⟨before, rfl⟩, after, rfl⟩ := h
  obtain ⟨think, hmem, hcontent⟩ := hthink
  -- The scan finds a token at the cut, if not `<think>` then another one.
  cases hmatch : t.matchToken (lit "<think>" ++ after) with
  | none =>
    rw [lit_think_eq, List.cons_append, Tokenizer.matchToken_cons, List.find?_eq_none] at hmatch
    refine absurd ?_ (hmatch think ?_)
    · rw [hcontent, List.isPrefixOf_iff_prefix, ← List.cons_append, ← lit_think_eq]
      exact List.prefix_append _ _
    · rw [List.mem_filter, hcontent]
      exact ⟨hmem, by decide⟩
  | some token =>
    obtain ⟨-, behind, hbehind⟩ := Tokenizer.matchToken_eq_some hmatch
    rw [← hbehind] at hids hmatch
    have hscans := Tokenizer.scans_of_newline ht hnewline before (token.content ++ behind)
    rw [Tokenizer.encode_append ht hscans hmatch rfl] at hids
    obtain ⟨first, hfirst, hids⟩ := bind_eq_ok.mp hids
    obtain ⟨last, -, hids⟩ := bind_eq_ok.mp hids
    obtain rfl := Except.ok.inj hids
    refine ⟨first, hfirst, Tokenizer.encode_ne_nil hnfc ?_ hfirst, ?_⟩
    · exact List.append_ne_nil_of_right_ne_nil _ (List.cons_ne_nil _ _)
    · rw [List.append_assoc]
      exact List.prefix_append _ _

/-- A text with its checkpoint in front of the reasoning or at its end. -/
def CheckpointAt (rendered : RenderedChat) : Prop :=
  ∀ spec, rendered.rewriteCheckpoint = some spec → ∃ front rest,
    rendered.text = front ++ rest ∧ AtThink front rest ∧
      (spec.offset = front.length ∨ spec.offset = rendered.text.length)

variable {parse : Bytes → Except Exception Json} {semantics : ChatTemplateSemantics}
  {options : ChatRenderOptions} {messages : List ChatMessage} {chat result : RenderedChat}

theorem render_checkpointAt (hrender : render parse semantics options messages = .ok chat) :
    CheckpointAt chat := by
  intro spec hspec
  rcases render_checkpoint hrender hspec with ⟨before, after, htext, hoffset⟩ |
    ⟨hoffset, before, after, htext⟩
  · exact ⟨_, _, htext, atThink_opener before after, .inl hoffset⟩
  · exact ⟨_, _, htext, atThink_opener before after, .inr hoffset⟩

/-- The checkpoint stays in front of the reasoning or at the end. -/
theorem expandPlaceholders_checkpointAt {items : List VisionItem}
    (hrender : render parse semantics options messages = .ok chat)
    (hitems : ∀ item ∈ items, Expandable item) (h : expandPlaceholders chat items = .ok result) :
    CheckpointAt result := by
  obtain ⟨-, rfl⟩ := expandPlaceholders_eq_ok hitems (fun _ => render_outside hrender) h
  intro spec hspec
  obtain ⟨spec, hchat, rfl⟩ := Option.map_eq_some_iff.mp hspec
  obtain ⟨front, rest, hsplit, hat, hoffset⟩ := render_checkpointAt hrender spec hchat
  obtain ⟨texts, hsubstitute, hat'⟩ := hat.substitute (items.map expansion)
  refine ⟨_, _, by rw [hsplit, hsubstitute], hat', ?_⟩
  rcases hoffset with hoffset | hoffset
  · exact .inl (by rw [hoffset, hsplit, List.take_left])
  · exact .inr (by rw [hoffset, List.take_length])

/-- **Where a checkpoint is, the tokens in front of it** are the first of all tokens. -/
theorem CheckpointAt.encode (hat : CheckpointAt result) (ht : t.Sound)
    (hthink : ∃ token ∈ t.addedTokens, token.content = lit "<think>")
    (hnewline : ∀ token ∈ t.addedTokens, (0x0a : UInt8) ∉ token.content)
    (hnfc : KeepsNonempty normalizeNfc) {spec : RewriteCheckpointByteSpec}
    (hspec : result.rewriteCheckpoint = some spec) {ids : List Int}
    (hids : t.encode u normalizeNfc result.text = .ok ids) :
    spec.offset ≤ result.text.length ∧ ∃ front,
      t.encode u normalizeNfc (result.text.take spec.offset) = .ok front ∧ front ≠ [] ∧
        front <+: ids := by
  obtain ⟨front, rest, htext, hcut, hoffset | hoffset⟩ := hat spec hspec
  · rw [htext] at hids ⊢
    rw [hoffset, List.take_left]
    exact ⟨(List.prefix_append _ _).length_le, hcut.encode ht hthink hnewline hnfc hids⟩
  · rw [hoffset, List.take_length]
    refine ⟨Nat.le_refl _, ids, hids, Tokenizer.encode_ne_nil hnfc ?_ hids, List.prefix_rfl⟩
    obtain ⟨⟨before, rfl⟩, -⟩ := hcut
    rw [htext, List.append_assoc]
    exact List.append_ne_nil_of_right_ne_nil _ (List.cons_ne_nil _ _)

/-- **Rewrite checkpoints are exact prefixes of the tokens.** For a tokenizer with `<think>` as an
added token and no newline in one, the tokens in front of the checkpoint of a rendered text, with its
placeholders expanded or not, are the first of all its tokens. Encoding the text fails if the
tokenizer does, or if the tokens in front of the checkpoint do not fit `uint32`. A text is encoded
around any token that the scan finds. -/
theorem encodeRenderedChat_exact {read : Bytes → Except String Json}
    {resources : Tokenizer.TokenizerResources} (hmake : Tokenizer.make read resources = .ok t)
    (hthink : ∃ token ∈ t.addedTokens, token.content = lit "<think>")
    (hnewline : ∀ token ∈ t.addedTokens, (0x0a : UInt8) ∉ token.content)
    (hnfc : KeepsNonempty normalizeNfc)
    (hrender : render parse semantics options messages = .ok chat)
    (hresult : result = chat ∨ ∃ items : List VisionItem, (∀ item ∈ items, Expandable item) ∧
      expandPlaceholders chat items = .ok result) (u : CodepointClasses) :
    (∀ spec ids, result.rewriteCheckpoint = some spec →
      t.encode u normalizeNfc result.text = .ok ids →
      spec.offset ≤ result.text.length ∧ ∃ front,
        t.encode u normalizeNfc (result.text.take spec.offset) = .ok front ∧ front ≠ [] ∧
          front <+: ids) ∧
    (∀ e, encodeRenderedChat u normalizeNfc t result = .error e →
      t.encode u normalizeNfc result.text = .error e ∨
        e = .overflowError "rewrite checkpoint token frontier exceeds uint32") ∧
    ∀ (a s b : Bytes) (token : AddedToken), Scans t (a ++ (s ++ b)) a.length →
      t.matchToken (s ++ b) = some token → token.content = s →
      t.encode u normalizeNfc (a ++ (s ++ b)) =
        t.encode u normalizeNfc a >>= fun before => t.encode u normalizeNfc b >>= fun after =>
          .ok (before ++ [token.id] ++ after) := by
  have ht := Tokenizer.make_sound hmake
  have hat : CheckpointAt result := by
    rcases hresult with rfl | ⟨items, hitems, hexpand⟩
    · exact render_checkpointAt hrender
    · exact expandPlaceholders_checkpointAt hrender hitems hexpand
  refine ⟨fun spec ids hspec hids => hat.encode ht hthink hnewline hnfc hspec hids, fun e he => ?_,
    fun a s b token hscans htoken hcontent => Tokenizer.encode_append ht hscans htoken hcontent⟩
  cases hids : t.encode u normalizeNfc result.text with
  | error e' =>
    rw [encodeRenderedChat, hids] at he
    exact .inl (congrArg _ (Except.error.inj he))
  | ok ids =>
    rw [encodeRenderedChat, hids, ok_bind] at he
    cases hspec : result.rewriteCheckpoint with
    | none =>
      rw [hspec] at he
      exact nomatch he
    | some spec =>
      obtain ⟨hoffset, front, hfront, hne, hstarts⟩ :=
        hat.encode ht hthink hnewline hnfc hspec hids
      rw [hspec] at he
      dsimp only at he
      rw [check_of hoffset, ok_bind, hfront, ok_bind,
        check_of ⟨hne, hstarts.length_le, hstarts⟩, ok_bind] at he
      -- What is left is the width of the frontier.
      by_cases hfits : front.length < 2 ^ 32
      · rw [check_of hfits] at he
        exact nomatch he
      · rw [check, if_neg hfits] at he
        exact .inr (Except.error.inj he).symm

/-- The text of a conversation with an answer. -/
def answeredText : String :=
  "<|im_start|>user\n<|im_end|>\n<|im_start|>assistant\n<think>\n\n</think>\n\n<|im_end|>\n" ++
    "<|im_start|>assistant\n<think>\n"

/-- A conversation with an answer, and its tokens. -/
theorem encodeRenderedChat_exact_answered : ∃ (t : Tokenizer) (chat : RenderedChat)
    (spec : RewriteCheckpointByteSpec) (ids front : List Int),
    render noJson .thinkingToggle {} answered = .ok chat ∧ chat.rewriteCheckpoint = some spec ∧
    t.encode Tokenizer.sampleClasses .ok chat.text = .ok ids ∧
    t.encode Tokenizer.sampleClasses .ok (chat.text.take spec.offset) = .ok front ∧
    front ≠ [] ∧ front <+: ids := by
  obtain ⟨t, hmake, hbytes, hadded⟩ := Tokenizer.exists_byteTokenizer
  have hcontent : ∀ token ∈ t.addedTokens, token.content = lit "<think>" := by
    intro token htoken
    have hmem := List.mem_map_of_mem (f := AddedToken.content) htoken
    rw [hadded] at hmem
    exact (List.mem_singleton.mp hmem).trans (by decide)
  obtain ⟨think, hthink⟩ : ∃ token, token ∈ t.addedTokens :=
    List.exists_mem_of_ne_nil _ fun hnil => by
      rw [hnil] at hadded
      exact nomatch hadded
  have hvalue : (render noJson .thinkingToggle {} answered).toOption =
      some ⟨lit answeredText, some ⟨.turnClosure, 50⟩⟩ := by decide +kernel
  cases hrender : render noJson .thinkingToggle {} answered with
  | error e =>
    rw [hrender] at hvalue
    exact nomatch hvalue
  | ok chat =>
    rw [hrender] at hvalue
    obtain rfl := Option.some.inj hvalue
    obtain ⟨ids, -, hids, -⟩ := Tokenizer.exists_encode (Tokenizer.make_sound hmake) hbytes
      (show Tokenizer.KeepsUtf8 .ok from fun text h => ⟨text, rfl, h⟩) Tokenizer.sampleClasses {}
      answeredText.toList
    obtain ⟨-, front, hfront, hne, hstarts⟩ := (encodeRenderedChat_exact hmake
      ⟨think, hthink, hcontent think hthink⟩
      (fun token htoken => by rw [hcontent token htoken]; decide)
      (fun text normalized hne h => Except.ok.inj h ▸ hne) hrender (.inl rfl)
      Tokenizer.sampleClasses).1 _ ids rfl hids
    exact ⟨t, _, _, ids, front, rfl, rfl, hids, hfront, hne, hstarts⟩

end Ninfer.Frontend
