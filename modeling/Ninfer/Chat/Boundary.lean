import Ninfer.Chat.Checkpoint
import Ninfer.Chat.Placeholders

/-!
# Where a rewrite checkpoint is in a text

A checkpoint is in front of the reasoning of a turn, behind the newline of its opener, or it is at
the end of the text. No pad has a newline in it, so that the checkpoint of a rendered text is never
inside a pad, and the expansion of the placeholders does not meet it there.

## Main definitions

* `BeforeThink`: a place between an opener and the reasoning behind it

## Main results

* `render_checkpoint`: where the checkpoint of a rendered text is
* `render_outside`: it is not inside a pad
* `expandPlaceholders_exact`: the expansion of the placeholders
-/

namespace Ninfer.Chat

open Output (Bytes)
open Qwen (PromptModality VisionItem RewriteCheckpointKind)

variable {parse : Bytes → Except Exception Json} {semantics : ChatTemplateSemantics}
  {options : ChatRenderOptions} {messages : List ChatMessage} {q : Nat} {st st' : Rendering}

/-! ## The place of a checkpoint -/

/-- A place between an opener and the reasoning behind it. -/
def BeforeThink (text : Bytes) (offset : Nat) : Prop :=
  ∃ before after, text = before ++ opener ++ (lit "<think>" ++ after) ∧
    offset = (before ++ opener).length

theorem BeforeThink.of_append {text : Bytes} {offset : Nat} (h : BeforeThink text offset)
    {text' : Bytes} (hadds : text <+: text') : BeforeThink text' offset := by
  obtain ⟨before, after, rfl, rfl⟩ := h
  obtain ⟨more, rfl⟩ := hadds
  exact ⟨before, after ++ more, by simp only [List.append_assoc], rfl⟩

/-- The checkpoint, if there is one, is in front of the reasoning of a turn. -/
def Placed (st : Rendering) : Prop :=
  ∀ spec, st.rewriteCheckpoint = some spec →
    spec.kind = .turnClosure ∧ BeforeThink st.rendered spec.offset

theorem lit_think : lit "<think>\n" = lit "<think>" ++ lit "\n" := by decide

theorem lit_think_close : lit "<think>\n\n</think>\n\n" = lit "<think>" ++ lit "\n\n</think>\n\n" := by
  decide

/-- **One turn** leaves the checkpoint where it is, or sets it in front of its reasoning. -/
theorem renderTurn_placed {turn : ChatMessage × Nat} (hplaced : Placed st)
    (h : renderTurn parse semantics options messages q st turn = .ok st') : Placed st' := by
  obtain ⟨hadds, -, hcheckpoint⟩ := renderTurn_eq_ok h
  intro spec hspec
  rw [hcheckpoint] at hspec
  have hkept : st.rewriteCheckpoint = some spec →
      spec.kind = .turnClosure ∧ BeforeThink st'.rendered spec.offset := fun hold =>
    ⟨(hplaced spec hold).1, (hplaced spec hold).2.of_append hadds⟩
  unfold Rendering.opened at hspec
  split_ifs at hspec with hassistant hopens
  · obtain rfl := Option.some.inj hspec
    have hopener := renderTurn_assistant hassistant.1 hassistant.2
      (show renderTurn parse semantics options messages _ _ (turn.1, turn.2) = _ from h)
    rw [if_pos (Or.inr hopens.2.2)] at hopener
    obtain ⟨more, hmore⟩ := hopener
    refine ⟨rfl, st.rendered, ?_⟩
    rw [← hmore, lit_think]
    exact ⟨_, by simp only [List.append_assoc]; rfl, rfl⟩
  · exact hkept hspec
  · exact hkept hspec

theorem renderTurns_placed {turns : List (ChatMessage × Nat)} (hplaced : Placed st)
    (h : renderTurns parse semantics options messages q st turns = .ok st') : Placed st' := by
  induction turns generalizing st with
  | nil =>
    obtain rfl := Except.ok.inj h
    exact hplaced
  | cons turn turns ih =>
    obtain ⟨mid, hturn, hturns⟩ := bind_eq_ok.mp h
    exact ih (renderTurn_placed hplaced hturn) hturns

/-- The prologue starts with the reasoning. -/
theorem prologue_eq (options : ChatRenderOptions) :
    ∃ after, prologue options = lit "<think>" ++ after := by
  unfold prologue
  split_ifs
  · exact ⟨_, lit_think⟩
  · exact ⟨_, lit_think_close⟩

/-- **Where the checkpoint of a rendered text is.** -/
theorem render_checkpoint {result : RenderedChat} {spec : RewriteCheckpointByteSpec}
    (hrender : render parse semantics options messages = .ok result)
    (hspec : result.rewriteCheckpoint = some spec) :
    BeforeThink result.text spec.offset ∨ spec.offset = result.text.length ∧
      ∃ before after, result.text = before ++ opener ++ (lit "<think>" ++ after) := by
  cases hpreserve : preserveThinking semantics options with
  | true =>
    obtain ⟨rfl, before, -, htext⟩ := render_replay hpreserve hrender hspec
    obtain ⟨after, hafter⟩ := prologue_eq options
    exact Or.inr ⟨rfl, before, after, by rw [htext, hafter]⟩
  | false =>
    obtain ⟨start, st, hstart, hturns, htext, hcheckpoint⟩ := render_eq_ok hrender
    have hnone := (renderStart_eq_ok hstart).2.2.1
    have hplaced : Placed st :=
      renderTurns_placed (fun spec hspec => by rw [hnone] at hspec; exact nomatch hspec) hturns
    rw [hcheckpoint] at hspec
    rw [htext]
    refine Or.inl ?_
    cases hgen : options.addGenerationPrompt with
    | false =>
      rw [renderGeneration, if_pos hgen] at hspec ⊢
      exact (hplaced spec hspec).2
    | true =>
      rw [(renderGeneration_closure hpreserve hgen st).2] at hspec
      split_ifs at hspec with hfirst
      · -- The generation prompt is the first opener behind the last query.
        obtain rfl := Option.some.inj hspec
        obtain ⟨after, hafter⟩ := prologue_eq options
        refine ⟨st.rendered, after, ?_, rfl⟩
        rw [← hafter, renderGeneration, if_neg (by rw [hgen]; exact Bool.true_eq_false_eq_False),
          hpreserve]
        simp only [Bool.false_eq_true, if_false, true_and, Rendering.append_rewriteCheckpoint,
          if_pos hfirst, prologue]
        split_ifs <;> rfl
      · exact ((hplaced spec hspec).2.of_append (renderGeneration_adds st))

/-! ## Pads -/

/-- A pad has no newline in it. -/
theorem getElem?_ne_newline {text : Bytes} {i k : Nat} {m : PromptModality}
    (hmark : padMarking.mark (text.drop i) = some m) (hle : i ≤ k) (hlt : k < i + padMarking.width) :
    text[k]? ≠ some 0x0a := by
  intro hget
  obtain ⟨-, -, -, hnewline⟩ := pad_eq_cons m
  obtain ⟨rest, hrest⟩ := mark_eq_some_iff.mp hmark
  have hwidth : padMarking.width = (pad m).length := (length_pad m).symm
  rw [hwidth] at hlt
  have hpad : (pad m)[k - i]? = some 0x0a := by
    rw [← hget, ← @List.getElem?_append_left _ _ rest _ (by omega), hrest, List.getElem?_drop]
    congr 1
    omega
  exact hnewline (List.mem_of_getElem? hpad)

theorem getElem?_newline (before after : Bytes) :
    (before ++ [0x0a] ++ after)[before.length]? = some 0x0a := by
  rw [List.append_assoc, List.getElem?_append_right (Nat.le_refl _), Nat.sub_self]
  rfl

/-- No pad covers the place behind a newline. -/
theorem not_inside_of_newline (before after : Bytes) :
    ¬padMarking.Inside (before ++ [0x0a] ++ after) (before ++ [0x0a]).length := by
  rintro ⟨i, m, hmark, hlt, hgt⟩
  rw [List.length_append, List.length_singleton] at hlt hgt
  exact getElem?_ne_newline hmark (by omega) (by omega) (getElem?_newline before after)

/-- No pad covers the place in front of a newline. -/
theorem not_inside_at_newline (before after : Bytes) :
    ¬padMarking.Inside (before ++ [0x0a] ++ after) before.length := by
  rintro ⟨i, m, hmark, hlt, hgt⟩
  exact getElem?_ne_newline hmark (by omega) (by omega) (getElem?_newline before after)

theorem not_inside_length (text : Bytes) : ¬padMarking.Inside text text.length := by
  rintro ⟨i, m, hmark, hlt, hgt⟩
  have hle := padMarking.length_le hmark
  rw [List.length_drop] at hle
  omega

theorem opener_eq : opener = lit "<|im_start|>assistant" ++ [0x0a] := by decide

/-- **The checkpoint of a rendered text is not inside a pad.** -/
theorem render_outside {result : RenderedChat} {spec : RewriteCheckpointByteSpec}
    (hrender : render parse semantics options messages = .ok result)
    (hspec : result.rewriteCheckpoint = some spec) :
    spec.offset ≤ result.text.length ∧ ¬padMarking.Inside result.text spec.offset := by
  rcases render_checkpoint hrender hspec with ⟨before, after, htext, hoffset⟩ | ⟨hoffset, -⟩
  · refine ⟨?_, ?_⟩
    · rw [htext, hoffset]
      exact (List.prefix_append _ _).length_le
    · have hplace := not_inside_of_newline (before ++ lit "<|im_start|>assistant")
        (lit "<think>" ++ after)
      rw [htext, hoffset]
      rwa [List.append_assoc before, ← opener_eq] at hplace
  · rw [hoffset]
    exact ⟨Nat.le_refl _, not_inside_length _⟩

/-! ## The expansion -/

section Expansion

variable {items : List VisionItem} {rendered : RenderedChat}

/-- **The expansion of the placeholders**, with the pads of a text those of the items or not. -/
theorem expandPlaceholders_spec (hitems : ∀ item ∈ items, Expandable item)
    (hcheckpoint : ∀ spec, rendered.rewriteCheckpoint = some spec →
      spec.offset ≤ rendered.text.length ∧ ¬padMarking.Inside rendered.text spec.offset) :
    (pads rendered.text = items.map (·.modality) →
      expandPlaceholders rendered items =
        .ok ⟨padMarking.substitute (items.map expansion) rendered.text,
          rendered.rewriteCheckpoint.map fun spec =>
            { spec with offset :=
              (padMarking.substitute (items.map expansion)
                (rendered.text.take spec.offset)).length }⟩) ∧
    (pads rendered.text ≠ items.map (·.modality) →
      ∃ what, expandPlaceholders rendered items = .error (.invalidArgument what)) := by
  have hstart : expandPlaceholders rendered items =
      expandFrom ⟨⟨[] ++ rendered.text, rendered.rewriteCheckpoint⟩, ([] : Bytes).length⟩ items := rfl
  have hspec := @expandFrom_spec [] rendered.text items hitems rendered.rewriteCheckpoint (by
      intro spec hspec
      obtain ⟨hle, hinside⟩ := hcheckpoint spec hspec
      exact ⟨by simpa using hle, hinside⟩)
  -- Nothing has been edited in front, so every offset counts from the start.
  have hoffset : ∀ offset, finalOffset [] rendered.text (items.map expansion) offset =
      (padMarking.substitute (items.map expansion) (rendered.text.take offset)).length := by
    intro offset
    cases offset with
    | zero => rfl
    | succ offset =>
      rw [finalOffset, List.length_nil, if_neg (Nat.not_succ_le_zero offset)]
      exact Nat.zero_add _
  simp only [hoffset, List.nil_append, List.length_nil] at hspec hstart
  rwa [← hstart] at hspec

/-- What is expanded had the pads of the items. -/
theorem expandPlaceholders_eq_ok (hitems : ∀ item ∈ items, Expandable item)
    (hcheckpoint : ∀ spec, rendered.rewriteCheckpoint = some spec →
      spec.offset ≤ rendered.text.length ∧ ¬padMarking.Inside rendered.text spec.offset)
    {result : RenderedChat} (h : expandPlaceholders rendered items = .ok result) :
    pads rendered.text = items.map (·.modality) ∧
      result = ⟨padMarking.substitute (items.map expansion) rendered.text,
        rendered.rewriteCheckpoint.map fun spec =>
          { spec with offset :=
            (padMarking.substitute (items.map expansion)
              (rendered.text.take spec.offset)).length }⟩ := by
  obtain ⟨hok, herror⟩ := expandPlaceholders_spec hitems hcheckpoint
  have hpads : pads rendered.text = items.map (·.modality) := by
    by_contra hpads
    obtain ⟨what, hwhat⟩ := herror hpads
    rw [hwhat] at h
    exact nomatch h
  rw [hok hpads] at h
  exact ⟨hpads, (Except.ok.inj h).symm⟩

end Expansion

/-- **The expansion of the placeholders is exact.** It succeeds if the pads of the text are those of
the items in their order. Then each pad is replaced by what its item expands to, nothing else is
changed, and the checkpoint is behind the expansion of what it was behind before. The checkpoint of a
rendered text is not inside a pad. -/
theorem expandPlaceholders_exact {items : List VisionItem}
    (hitems : ∀ item ∈ items, Expandable item) {rendered : RenderedChat}
    (hcheckpoint : ∀ spec, rendered.rewriteCheckpoint = some spec →
      spec.offset ≤ rendered.text.length ∧ ¬padMarking.Inside rendered.text spec.offset) :
    ((∃ result, expandPlaceholders rendered items = .ok result) ↔
      pads rendered.text = items.map (·.modality)) ∧
    (∀ result, expandPlaceholders rendered items = .ok result →
      ∃ texts, items.mapM placeholder = .ok texts ∧
        result.text = padMarking.substitute texts rendered.text ∧
        result.rewriteCheckpoint = rendered.rewriteCheckpoint.map fun spec =>
          { spec with
            offset := (padMarking.substitute texts (rendered.text.take spec.offset)).length }) ∧
    (∀ what, expandPlaceholders rendered items ≠ .error (.logicError what)) ∧
    ∀ (parse : Bytes → Except Exception Json) (semantics : ChatTemplateSemantics)
      (options : ChatRenderOptions) (messages : List ChatMessage) (chat : RenderedChat)
      (spec : RewriteCheckpointByteSpec), render parse semantics options messages = .ok chat →
      chat.rewriteCheckpoint = some spec →
      spec.offset ≤ chat.text.length ∧ ¬padMarking.Inside chat.text spec.offset := by
  obtain ⟨hok, herror⟩ := expandPlaceholders_spec hitems hcheckpoint
  refine ⟨⟨fun ⟨result, hresult⟩ => (expandPlaceholders_eq_ok hitems hcheckpoint hresult).1,
    fun hpads => ⟨_, hok hpads⟩⟩, fun result hresult => ?_, fun what hwhat => ?_,
    fun _ _ _ _ _ _ => render_outside⟩
  · obtain ⟨-, rfl⟩ := expandPlaceholders_eq_ok hitems hcheckpoint hresult
    exact ⟨items.map expansion, mapM_eq_ok fun item hitem => placeholder_eq_ok
      (hitems item hitem), rfl, rfl⟩
  · by_cases hpads : pads rendered.text = items.map (·.modality)
    · rw [hok hpads] at hwhat
      exact nomatch hwhat
    · obtain ⟨what', hwhat'⟩ := herror hpads
      rw [hwhat'] at hwhat
      exact nomatch hwhat

/-- An image of eight patches, and a video of two frames with as many. -/
def pairOfItems : List VisionItem :=
  [⟨.image, ⟨1, 2, 4⟩, 0, 8, [], [], []⟩, ⟨.video, ⟨2, 2, 4⟩, 8, 16, [], [1 / 4, 5 / 4], []⟩]

theorem pairOfItems_expandable : ∀ item ∈ pairOfItems, Expandable item := by
  intro item hitem
  rcases List.mem_cons.mp hitem with rfl | hitem
  · exact ⟨by decide, by decide, nofun⟩
  · obtain rfl := List.mem_singleton.mp hitem
    exact ⟨by decide, by decide, fun _ => rfl⟩

/-- A checkpoint between the pads of a text. -/
theorem expandPlaceholders_exact_pair : ∃ result texts,
    expandPlaceholders ⟨lit "a<|image_pad|>b\nc<|video_pad|>", some ⟨.turnClosure, 16⟩⟩
      pairOfItems = .ok result ∧
    pairOfItems.mapM placeholder = .ok texts ∧
    result.text = padMarking.substitute texts (lit "a<|image_pad|>b\nc<|video_pad|>") ∧
    result.rewriteCheckpoint = some ⟨.turnClosure, 29⟩ := by
  have hexact := @expandPlaceholders_exact pairOfItems pairOfItems_expandable
    ⟨lit "a<|image_pad|>b\nc<|video_pad|>", some ⟨.turnClosure, 16⟩⟩ (by
      intro spec hspec
      obtain rfl := Option.some.inj hspec
      exact ⟨by decide, not_inside_of_newline (lit "a<|image_pad|>b") (lit "c<|video_pad|>")⟩)
  obtain ⟨result, hresult⟩ := hexact.1.mpr (by decide)
  obtain ⟨texts, htexts, htext, hcheckpoint⟩ := hexact.2.1 result hresult
  refine ⟨result, texts, hresult, htexts, htext, ?_⟩
  have hknown : pairOfItems.mapM placeholder = .ok (pairOfItems.map expansion) :=
    mapM_eq_ok fun item hitem => placeholder_eq_ok (pairOfItems_expandable item hitem)
  obtain rfl := Except.ok.inj (htexts.symm.trans hknown)
  rw [hcheckpoint]
  decide

end Ninfer.Chat
