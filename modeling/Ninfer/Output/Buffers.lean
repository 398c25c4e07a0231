import Ninfer.Output.Feeding

/-!
# The buffers of the decoder

The state of the decoder after a decoded text. Each flag and each buffer is a function of that text,
and what was published of a channel is its text, but for what is kept back. Feeding more text keeps
this, finds a stop string exactly when one cuts the texts, and at the end of the output nothing is
kept back any more.

## Main definitions

* `Buffers`: the state and the output after a decoded text
* `Matched`: the match of a token is the cut of the texts

## Main results

* `feedDecodedText_spec`: more text is decoded
* `terminalize_spec`: the output ends
-/

namespace Ninfer.Output

/-- The state of the decoder and the output of a session, after a decoded text. -/
structure Buffers (policy : StopPolicy) (starts : Bool) (prior : PublishedOutput) (text : Bytes)
    (state : DecoderState) (emitted : PublishedOutput) : Prop where
  inReasoning : state.inReasoning = stillReasoning starts text
  marker : state.thinkMarkerPending = keptMarker starts text
  strip : state.stripContentLeading = stripping starts text
  decoded : state.decodedBytes =
    (releasedText starts text .reasoning).length + (releasedText starts text .content).length
  wellFormed : WellFormed prior emitted
  opened : stillReasoning starts text = true → Open .reasoning (prior ++ emitted)
  reasoning : stillReasoning starts text = true →
    Buffered policy .reasoning (releasedText starts text .reasoning)
      (textOf .reasoning (prior ++ emitted)) (state.stopPending .reasoning)
  closed : stillReasoning starts text = false →
    textOf .reasoning (prior ++ emitted) = releasedText starts text .reasoning
  content : Buffered policy .content (releasedText starts text .content)
    (textOf .content (prior ++ emitted)) (state.stopPending .content)

/-- The best match of a token is the cut of the texts. -/
def Matched (policy : StopPolicy) (prior : PublishedOutput) (texts : OutputChannel → Bytes)
    (committedTokens : Nat) (best : Option StopMatch) : Prop :=
  match cutOf policy texts with
  | none => best = none
  | some (stop, i) => ∃ found, best = some found ∧ found.committedTokens = committedTokens ∧
    WellFormed prior found.output ∧
    ∀ c, textOf c (prior ++ found.output) = publishedAtCut texts stop i c

section Cut

variable {policy : StopPolicy} {prior emitted : PublishedOutput} {texts : OutputChannel → Bytes}
  {offset committedTokens : Nat} {best : Option StopMatch} (hp : policy.Merged)

include hp

theorem earliest_nil (channel : OutputChannel) : earliest policy.strings channel [] = none :=
  earliest_eq_none (fun stop hs => (hp stop hs).1) fun stop hs _ h =>
    (hp stop hs).1 (List.infix_nil.mp h)

/-- A match in the reasoning. -/
theorem matched_reasoning {stop : StopString} {i : Nat} {found : StopMatch}
    (hcut : earliest policy.strings .reasoning (texts .reasoning) = some (stop, i))
    (hof : MatchOf prior emitted .reasoning (texts .reasoning) offset committedTokens stop i found)
    (hcontent : textOf .content (prior ++ emitted) = []) :
    Matched policy prior texts committedTokens (some found) := by
  have hc := (earliest_cuts (fun s hs => (hp s hs).1) hcut).ofChannel
  rw [Matched, cutOf, hcut]
  refine ⟨found, rfl, hof.committed, hof.wellFormed, fun c => ?_⟩
  rw [hof.texts c, publishedAtCut, hc]
  cases c with
  | reasoning => rfl
  | content => exact hcontent

/-- A match in the content, or none. -/
theorem matched_content
    (hclear : earliest policy.strings .reasoning (texts .reasoning) = none)
    (hmatch : match earliest policy.strings .content (texts .content) with
      | none => best = none
      | some (stop, i) => ∃ found, best = some found ∧
        MatchOf prior emitted .content (texts .content) offset committedTokens stop i found)
    (hreasoning : textOf .reasoning (prior ++ emitted) = texts .reasoning) :
    Matched policy prior texts committedTokens best := by
  rw [Matched, cutOf, hclear]
  dsimp only
  cases hcut : earliest policy.strings .content (texts .content) with
  | none => rwa [hcut] at hmatch
  | some cut =>
    obtain ⟨stop, i⟩ := cut
    rw [hcut] at hmatch
    obtain ⟨found, rfl, hof⟩ := hmatch
    have hc := (earliest_cuts (fun s hs => (hp s hs).1) hcut).ofChannel
    refine ⟨found, rfl, hof.committed, hof.wellFormed, fun c => ?_⟩
    rw [hof.texts c, publishedAtCut, hc]
    cases c with
    | reasoning => exact hreasoning
    | content => rfl

end Cut

/-! ## More text -/

section Decoded

variable {policy : StopPolicy} {starts : Bool} {prior : PublishedOutput} {text x : Bytes}
  {f : Feeding}

theorem stripping_eq (h : stillReasoning starts text = false) :
    stripping starts text = (starts && (releasedText starts text .content).isEmpty) := by
  rw [stripping]
  cases starts with
  | false => rfl
  | true =>
    cases hfind : find kThinkClose text with
    | none =>
      rw [stillReasoning, hfind] at h
      cases h
    | some marker => rfl

theorem stripping_append (h : stillReasoning starts text = false) (x : Bytes) :
    stripping starts (text ++ x) =
      (stripping starts text && (x.dropWhile isSpace).isEmpty) := by
  obtain ⟨hstill, -, hcontent⟩ := releasedText_after x h
  rw [stripping_eq hstill, hcontent, stripping_eq h]
  cases starts with
  | false => rfl
  | true =>
    cases releasedText true text .content with
    | nil => rfl
    | cons a content => rfl

theorem stripping_of_reasoning (h : stillReasoning starts text = true) :
    stripping starts text = false := by
  rw [stripping, (stillReasoning_eq_true_iff.mp h).2, Option.isSome_none, Bool.and_false,
    Bool.false_and]

theorem keptMarker_after (h : stillReasoning starts text = false) : keptMarker starts text = [] := by
  rw [keptMarker, h]
  rfl

variable (policy starts prior text x f) in
/-- More text is fed: the buffers follow it, and the match is the cut of the texts. -/
abbrev FeedsText (committedTokens : Nat) (matching : Bool) : Prop :=
  ∃ f', feedDecodedText policy committedTokens matching x f = .ok f' ∧
    Buffers policy starts prior (text ++ x) f'.state f'.emitted ∧ SameTokens f.state f'.state ∧
    (matching = true →
      Matched policy prior (releasedText starts (text ++ x)) committedTokens f'.best)

variable (hp : policy.Merged) (hB : Buffers policy starts prior text f.state f.emitted)
  (ht : Utf8 text) (hx : Utf8 x) (committedTokens : Nat) (matching : Bool) (hbest : f.best = none)
  (hclear : matching = true → ∀ c, ∀ pat ∈ policy.texts c, ¬pat <:+: releasedText starts text c)

include hp hB ht hx hbest hclear

/-- Behind the marker. -/
theorem feedDecodedText_after (h : stillReasoning starts text = false) :
    FeedsText policy starts prior text x f committedTokens matching := by
  obtain ⟨hstill, hreasoning, hcontent⟩ := releasedText_after x h
  have hin : f.state.inReasoning = false := hB.inReasoning.trans h
  rw [FeedsText, feedDecodedText, if_pos hin, feedContent_eq, hB.strip]
  have hy : Utf8 (if stripping starts text = true then x.dropWhile isSpace else x) := by
    split_ifs
    · exact utf8_dropWhile_isSpace hx
    · exact hx
  obtain ⟨f', hok, hfed, -, hmatch⟩ := feedChannel_spec
    (f := { f with
      state := { f.state with
        stripContentLeading := stripping starts text && (x.dropWhile isSpace).isEmpty } })
    hp hB.wellFormed (open_content _) hB.content (utf8_releasedText _ ht _) hy committedTokens matching
    hB.decoded (fun hm => hclear hm .content) fun _ found hf => (nomatch hbest.symm.trans hf)
  have hstate := hfed.state
  refine ⟨f', hok, ⟨?_, ?_, ?_, ?_, hfed.wellFormed, ?_, ?_, fun _ => ?_, ?_⟩,
    ⟨hfed.sameTokens.1, hfed.sameTokens.2, hfed.sameTokens.3⟩, fun hm => ?_⟩
  · rw [hstate, hstill]
    exact hin
  · rw [hstate, keptMarker_after hstill]
    exact hB.marker.trans (keptMarker_after h)
  · rw [hstate, stripping_append h]
  · rw [hstate, hreasoning, hcontent, List.length_append, ← Nat.add_assoc, ← hB.decoded]
  · exact fun hr => nomatch hstill.symm.trans hr
  · exact fun hr => nomatch hstill.symm.trans hr
  · rw [hreasoning, hfed.others .reasoning (by decide)]
    exact hB.closed h
  · rw [hcontent]
    exact hfed.buffered
  · have hmatch := hmatch hm hbest
    rw [← hcontent] at hmatch
    refine matched_content hp ?_ hmatch ((hB.closed h).trans hreasoning.symm)
    rw [hreasoning]
    exact earliest_eq_none (fun stop hs => (hp stop hs).1) fun stop hs hc =>
      hclear hm .reasoning _ (StopPolicy.mem_texts.mpr ⟨stop, hs, hc, rfl⟩)

section Reasoning

variable (h : stillReasoning starts text = true)

include h

omit hx in
/-- In reasoning, the text in front of the marker or of a start of it goes to the reasoning. -/
theorem feedReasoning_spec (pending : Bytes) {y : Bytes} (hy : Utf8 y) :
    ∃ f', feedChannel policy committedTokens matching .reasoning y
        { f with
          state := { f.state with thinkMarkerPending := pending } } = .ok f' ∧
      Fed policy prior .reasoning (releasedText starts text .reasoning) y
        { f with state := { f.state with thinkMarkerPending := pending } } f' ∧
      (matching = true →
        match earliest policy.strings .reasoning (releasedText starts text .reasoning ++ y) with
        | none => f'.best = none
        | some (stop, i) => ∃ found, f'.best = some found ∧
          MatchOf prior f.emitted .reasoning (releasedText starts text .reasoning ++ y) 0
            committedTokens stop i found) := by
  have hd : f.state.decodedBytes = 0 + (releasedText starts text .reasoning).length := by
    rw [hB.decoded, (releasedText_reasoning h).2, List.length_nil]
    omega
  obtain ⟨f', hok, hfed, -, hmatch⟩ := feedChannel_spec
    (f := { f with
      state := { f.state with thinkMarkerPending := pending } })
    hp hB.wellFormed (hB.opened h) (hB.reasoning h) (utf8_releasedText _ ht _) hy committedTokens
    matching hd (fun hm => hclear hm .reasoning) fun _ found hf => (nomatch hbest.symm.trans hf)
  exact ⟨f', hok, hfed, fun hm => hmatch hm hbest⟩

/-- Before the marker. -/
theorem feedDecodedText_before (hfind : find kThinkClose (keptMarker starts text ++ x) = none) :
    FeedsText policy starts prior text x f committedTokens matching := by
  obtain ⟨hstill, hmarker, hreasoning, hcontent⟩ := releasedText_before x h hfind
  have hold := (releasedText_reasoning h).2
  have hin : ¬f.state.inReasoning = false := by
    rw [hB.inReasoning, h]
    decide
  have hy : Utf8 ((keptMarker starts text ++ x).take ((keptMarker starts text ++ x).length -
      longestSuffixPrefix (keptMarker starts text ++ x) kThinkClose true)) := by
    refine utf8_of_append_left (utf8_releasedText starts ht .reasoning) ?_
    rw [← hreasoning]
    exact utf8_releasedText _ (ht.append hx) _
  obtain ⟨f', hok, hfed, hmatch⟩ :=
    feedReasoning_spec hp hB ht committedTokens matching hbest hclear h
      (keptMarker starts text ++ x) hy
  rw [FeedsText, feedDecodedText, if_neg hin, hB.marker]
  dsimp only
  rw [hfind]
  have hstate := hfed.state
  have hpending : f'.state.stopPending .content = f.state.stopPending .content :=
    hfed.pending_of_ne (by decide)
  refine ⟨_, bind_eq_ok.mpr ⟨f', hok, rfl⟩, ⟨?_, hmarker.symm, ?_, ?_, hfed.wellFormed,
    fun _ => hfed.opened, fun _ => ?_, ?_, ?_⟩,
    ⟨hfed.sameTokens.1, hfed.sameTokens.2, hfed.sameTokens.3⟩, fun hm => ?_⟩
  · rw [hstate, hstill]
    exact hB.inReasoning.trans h
  · rw [hstate, stripping_of_reasoning hstill]
    exact hB.strip.trans (stripping_of_reasoning h)
  · rw [hstate, hreasoning, hcontent]
    dsimp only
    rw [hB.decoded, hold]
    simp only [List.length_append, List.length_nil]
    omega
  · rw [hreasoning]
    exact hfed.buffered
  · exact fun hr => nomatch hstill.symm.trans hr
  · rw [hcontent, ← hold, hfed.others .content (by decide)]
    dsimp only
    rw [hpending]
    exact hB.content
  -- Nothing of the content is released yet, so that a match is one in the reasoning.
  · have hmatch := hmatch hm
    rw [← hreasoning] at hmatch
    cases hcut : earliest policy.strings .reasoning (releasedText starts (text ++ x) .reasoning) with
    | none =>
      rw [hcut] at hmatch
      rw [Matched, cutOf, hcut, hcontent, earliest_nil hp]
      exact hmatch
    | some cut =>
      obtain ⟨stop, i⟩ := cut
      rw [hcut] at hmatch
      obtain ⟨found, hfound, hof⟩ := hmatch
      dsimp only
      rw [hfound]
      refine matched_reasoning hp hcut hof ?_
      have heq := hB.content.eq
      rw [hold] at heq
      exact (List.append_eq_nil_iff.mp heq).1

/-- At the marker. -/
theorem feedDecodedText_marker {marker : Nat}
    (hfind : find kThinkClose (keptMarker starts text ++ x) = some marker) :
    FeedsText policy starts prior text x f committedTokens matching := by
  obtain ⟨hstill, hreasoning, hcontent⟩ := releasedText_marker x h hfind
  have hold := (releasedText_reasoning h).2
  have hin : ¬f.state.inReasoning = false := by
    rw [hB.inReasoning, h]
    decide
  have hutf8 : ∀ c, Utf8 (releasedText starts (text ++ x) c) := utf8_releasedText _ (ht.append hx)
  have hy : Utf8 ((keptMarker starts text ++ x).take marker) := by
    refine utf8_of_append_left (utf8_releasedText starts ht .reasoning) ?_
    rw [← hreasoning]
    exact hutf8 _
  obtain ⟨f₁, hok₁, hfed₁, hmatch₁⟩ :=
    feedReasoning_spec hp hB ht committedTokens matching hbest hclear h
      (keptMarker starts text ++ x) hy
  have hstate₁ := hfed₁.state
  have hb₁ := hfed₁.buffered
  rw [← hreasoning] at hb₁ hmatch₁
  obtain ⟨emitted, hclose, hwe, -, hte, hoe⟩ :=
    closeChannel_spec hp hfed₁.wellFormed hfed₁.opened hb₁ (hutf8 _)
  -- No content was published before.
  have hempty : textOf .content (prior ++ f.emitted) = [] ∧ f.state.stopPending .content = [] := by
    have heq := hB.content.eq
    rw [hold] at heq
    exact List.append_eq_nil_iff.mp heq
  have hnone : textOf .content (prior ++ emitted) = [] :=
    (hoe .content (by decide)).trans ((hfed₁.others .content (by decide)).trans hempty.1)
  have hd : f₁.state.decodedBytes =
      (releasedText starts (text ++ x) .reasoning).length + ([] : Bytes).length := by
    rw [hstate₁, hreasoning, List.length_append, List.length_nil]
    dsimp only
    rw [hB.decoded, hold]
    rfl
  -- A match in the reasoning lies before the content.
  have hbefore : matching = true → ∀ found, f₁.best = some found →
      found.committedTokens = committedTokens ∧
        found.byteCut < (releasedText starts (text ++ x) .reasoning).length := by
    intro hm found hfound
    have hmatch := hmatch₁ hm
    cases hcut : earliest policy.strings .reasoning
        (releasedText starts (text ++ x) .reasoning) with
    | none =>
      rw [hcut] at hmatch
      exact nomatch hmatch.symm.trans hfound
    | some cut =>
      obtain ⟨stop, i⟩ := cut
      rw [hcut] at hmatch
      obtain ⟨found', hfound', hof⟩ := hmatch
      obtain rfl := Option.some.inj (hfound'.symm.trans hfound)
      have hcuts := earliest_cuts (fun s hs => (hp s hs).1) hcut
      have hne := (hp stop hcuts.mem).1
      have hle := length_add_le_of_prefix_drop hne hcuts.occurs
      have hpos := List.length_pos_iff.mpr hne
      exact ⟨hof.committed, by rw [hof.byteCut]; omega⟩
  let f₂ : Feeding :=
    { f₁ with
      state := { f₁.state with
        stopPending := Function.update f₁.state.stopPending .reasoning []
        thinkMarkerPending := []
        inReasoning := false
        stripContentLeading := true }
      emitted := emitted }
  let behind := ((keptMarker starts text ++ x).drop (marker + kThinkClose.length)).dropWhile isSpace
  have hb₂ : Buffered policy .content [] (textOf .content (prior ++ emitted))
      (f₂.state.stopPending .content) := by
    have hne : OutputChannel.content ≠ .reasoning := by decide
    have hpending : f₂.state.stopPending .content = [] :=
      (Function.update_of_ne hne [] f₁.state.stopPending).trans
        ((hfed₁.pending_of_ne hne).trans hempty.2)
    rw [hnone, hpending]
    exact Buffered.nil _ _
  have hcontent : releasedText starts (text ++ x) .content = behind := hcontent
  have hbehind : Utf8 behind := hcontent ▸ hutf8 .content
  obtain ⟨f₃, hok₃, hfed₃, hsame₃, hmatch₃⟩ := feedChannel_spec
    (f := { f₂ with state := { f₂.state with stripContentLeading := true && behind.isEmpty } })
    hp hwe (open_content _) hb₂ Utf8.nil hbehind committedTokens matching hd
    (fun _ pat hm hocc => (hp.utf8 hm).1 (List.infix_nil.mp hocc)) hbefore
  rw [FeedsText, feedDecodedText, if_neg hin, hB.marker]
  dsimp only
  rw [hfind]
  refine ⟨f₃, bind_eq_ok.mpr ⟨f₁, hok₁, bind_eq_ok.mpr ⟨_, hclose, ?_⟩⟩,
    ⟨?_, ?_, ?_, ?_, hfed₃.wellFormed, ?_, ?_, fun _ => ?_, ?_⟩,
    ⟨hfed₃.sameTokens.1.trans hfed₁.sameTokens.1, hfed₃.sameTokens.2.trans hfed₁.sameTokens.2,
      hfed₃.sameTokens.3.trans hfed₁.sameTokens.3⟩, fun hm => ?_⟩
  · rw [feedContent_eq]
    exact hok₃
  · rw [hfed₃.state, hstill]
  · rw [hfed₃.state, keptMarker_after hstill]
  · rw [hfed₃.state, stripping_eq hstill, hcontent, (stillReasoning_eq_true_iff.mp h).1]
  · rw [hfed₃.state, hcontent]
    exact congrArg (· + behind.length) hd
  · exact fun hr => nomatch hstill.symm.trans hr
  · exact fun hr => nomatch hstill.symm.trans hr
  · rw [hfed₃.others .reasoning (by decide)]
    exact hte
  · rw [hcontent]
    exact hfed₃.buffered
  · have hmatch := hmatch₁ hm
    cases hcut : earliest policy.strings .reasoning
        (releasedText starts (text ++ x) .reasoning) with
    | none =>
      rw [hcut] at hmatch
      have hmatch₃ := hmatch₃ hm hmatch
      rw [List.nil_append, ← hcontent] at hmatch₃
      exact matched_content hp hcut hmatch₃ hte
    | some cut =>
      obtain ⟨stop, i⟩ := cut
      rw [hcut] at hmatch
      obtain ⟨found, hfound, hof⟩ := hmatch
      rw [(hsame₃ (Or.inr (by rw [hfound]; rfl))).trans hfound]
      exact matched_reasoning hp hcut hof hempty.1

end Reasoning

/-- **More text is decoded**: the buffers follow it, and the match is the cut of the texts. -/
theorem feedDecodedText_spec :
    FeedsText policy starts prior text x f committedTokens matching := by
  cases h : stillReasoning starts text with
  | false =>
    exact feedDecodedText_after hp hB ht hx committedTokens matching hbest hclear h
  | true =>
    cases hfind : find kThinkClose (keptMarker starts text ++ x) with
    | none => exact feedDecodedText_before hp hB ht hx committedTokens matching hbest hclear h hfind
    | some marker =>
      exact feedDecodedText_marker hp hB ht hx committedTokens matching hbest hclear h hfind

end Decoded

/-! ## The end of the output -/

theorem releasedText_eq_channelText {starts : Bool} {text : Bytes}
    (h : stillReasoning starts text = false) (channel : OutputChannel) :
    releasedText starts text channel = channelText starts text channel := by
  rw [releasedText, keptMarker_after h, List.length_nil, Nat.sub_zero, List.take_length]

theorem channelText_reasoning {starts : Bool} {text : Bytes}
    (h : stillReasoning starts text = true) :
    channelText starts text .reasoning = text ∧ channelText starts text .content = [] := by
  obtain ⟨rfl, hnone⟩ := stillReasoning_eq_true_iff.mp h
  constructor
  · rw [channelText, if_pos rfl, hnone, Option.getD_none, List.take_length]
  · rw [channelText, if_pos rfl, hnone]

theorem utf8_kReplacement : Utf8 kReplacement :=
  ⟨[Char.ofNat 0xfffd], by decide⟩

/-- What the end of the output leaves: nothing is kept back. -/
structure Flushed (starts : Bool) (prior : PublishedOutput) (text : Bytes) (state : DecoderState)
    (state' : DecoderState) (emitted' : PublishedOutput) : Prop where
  reasoningTokens : state'.reasoningTokens = state.reasoningTokens
  wellFormed : WellFormed prior emitted'
  texts : ∀ c, textOf c (prior ++ emitted') = channelText starts text c

section Terminal

variable {policy : StopPolicy} {starts : Bool} {prior : PublishedOutput} {text : Bytes}
  (hp : policy.Merged) (ht : Utf8 text) (committedTokens : Nat)

include hp ht

/-- The incomplete character becomes the replacement character. -/
theorem flushUtf8_spec {f : Feeding} (hB : Buffers policy starts prior text f.state f.emitted)
    (hbest : f.best = none) :
    ∃ f', flushUtf8 policy committedTokens f = .ok f' ∧
      Buffers policy starts prior
        (text ++ if f.state.utf8Pending = [] then [] else kReplacement) f'.state f'.emitted ∧
      f'.state.reasoningTokens = f.state.reasoningTokens := by
  rw [flushUtf8]
  by_cases hnil : f.state.utf8Pending = []
  · rw [if_pos hnil, if_pos hnil, List.append_nil]
    exact ⟨f, rfl, hB, rfl⟩
  · rw [if_neg hnil, if_neg hnil]
    obtain ⟨f', hok, hB', hsame, -⟩ := feedDecodedText_spec
      (f := { f with state := { f.state with utf8Pending := [] } }) hp ⟨hB.inReasoning, hB.marker,
        hB.strip, hB.decoded, hB.wellFormed, hB.opened, hB.reasoning, hB.closed, hB.content⟩
      ht utf8_kReplacement committedTokens false hbest nofun
    exact ⟨f', hok, hB', hsame.reasoningTokens⟩

/-- The open channel publishes what it kept back. -/
theorem flushChannel_spec {f : Feeding} (hB : Buffers policy starts prior text f.state f.emitted) :
    ∃ f', flushChannel policy committedTokens f = .ok f' ∧
      Flushed starts prior text f.state f'.state f'.emitted := by
  rw [flushChannel]
  cases h : stillReasoning starts text with
  | true =>
    rw [if_pos (hB.inReasoning.trans h), hB.marker]
    obtain ⟨hreasoning, hcontent⟩ := channelText_reasoning h
    have hmarker : Utf8 (keptMarker starts text) := by
      refine utf8_of_append_left (utf8_releasedText starts ht .reasoning) ?_
      rw [releasedText_append_keptMarker h]
      exact ht
    have hempty : textOf .content (prior ++ f.emitted) = [] := by
      have heq := hB.content.eq
      rw [(releasedText_reasoning h).2] at heq
      exact (List.append_eq_nil_iff.mp heq).1
    have hd : f.state.decodedBytes = 0 + (releasedText starts text .reasoning).length := by
      rw [hB.decoded, (releasedText_reasoning h).2, List.length_nil]
      omega
    obtain ⟨f₁, hok, hfed, -⟩ := feedChannel_spec hp hB.wellFormed (hB.opened h) (hB.reasoning h)
      (utf8_releasedText _ ht _) hmarker committedTokens false hd nofun nofun
    have hb := hfed.buffered
    rw [releasedText_append_keptMarker h] at hb
    obtain ⟨emitted, hclose, hwe, -, hte, hoe⟩ := closeChannel_spec
      (f := { f₁ with state := { f₁.state with thinkMarkerPending := [] } })
      hp hfed.wellFormed hfed.opened hb ht
    refine ⟨_, bind_eq_ok.mpr ⟨f₁, hok, hclose⟩, hfed.sameTokens.reasoningTokens, hwe,
      fun c => ?_⟩
    cases c with
    | reasoning =>
      rw [hreasoning]
      exact hte
    | content =>
      rw [hcontent, ← hempty, ← hfed.others .content (by decide)]
      exact hoe .content (by decide)
  | false =>
    rw [if_neg (by rw [hB.inReasoning, h]; decide)]
    obtain ⟨emitted, hclose, hwe, -, hte, hoe⟩ := closeChannel_spec hp hB.wellFormed
      (open_content _) hB.content (utf8_releasedText _ ht _)
    refine ⟨_, hclose, rfl, hwe, fun c => ?_⟩
    rw [← releasedText_eq_channelText h]
    cases c with
    | reasoning => exact (hoe .reasoning (by decide)).trans (hB.closed h)
    | content => exact hte

/-- **The output ends**: everything that was kept back is published. -/
theorem terminalize_spec {state : DecoderState} {emitted : PublishedOutput}
    (hB : Buffers policy starts prior text state emitted) :
    ∃ state' emitted', terminalize policy committedTokens state emitted = .ok (state', emitted') ∧
      state'.terminal = true ∧
      Flushed starts prior (text ++ if state.utf8Pending = [] then [] else kReplacement) state
        state' emitted' := by
  obtain ⟨f₁, hok₁, hB₁, htokens₁⟩ :=
    flushUtf8_spec (f := { state := state, emitted := emitted }) hp ht committedTokens hB rfl
  have htext : Utf8 (text ++ if state.utf8Pending = [] then [] else kReplacement) := by
    split_ifs
    · rw [List.append_nil]
      exact ht
    · exact ht.append utf8_kReplacement
  obtain ⟨f₂, hok₂, htokens₂, hwell, htexts⟩ := flushChannel_spec hp htext committedTokens hB₁
  exact ⟨_, _, bind_eq_ok.mpr ⟨f₁, hok₁, bind_eq_ok.mpr ⟨f₂, hok₂, rfl⟩⟩, rfl,
    htokens₂.trans htokens₁, hwell, htexts⟩

end Terminal

end Ninfer.Output
