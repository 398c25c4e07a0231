import Ninfer.Serve.Grammar

/-!
# The filter publishes the parsed content

`ToolCallStreamFilter` keeps back whatever may be the start of a tool call, with the whitespace
before it. It decides this chunk by chunk, and `parse_qwen_tool_call_output` decides it once, from
the whole text. What the filter has emitted is a start of what the parser calls the content, and
after `finish` it is the content.

## Main definitions

* `Filters text out f`: the filter has emitted `out` of a text and holds the rest of it
* `Content text parsed`: what the content of a text is

## Main results

* `ToolCallStreamFilter.feed_filters`: one more chunk
* `filter_publishes_content`: every way of cutting a text into chunks publishes the parsed content
* `sink_sends_content`: a client is sent the content of the outcome
-/

namespace Ninfer.Serve

open Output (Bytes OutputChannel OutputDelta isSpace)
open Chat (ToolCall lit trimAsciiWhitespace)

/-! ## What is held back -/

theorem take_length_rtrimAscii {text : Bytes} {n : Nat} :
    text.take (rtrimAscii (text.take n)).length = rtrimAscii (text.take n) :=
  (List.prefix_iff_eq_take.mp ((rtrimAscii_isPrefixOf _).trans (List.take_prefix _ _))).symm

theorem rtrimAscii_length_le (text : Bytes) (n : Nat) : (rtrimAscii (text.take n)).length ≤ n :=
  (rtrimAscii_isPrefixOf _).length_le.trans (List.length_take_le _ _)

theorem kToolOpen_ne_nil : kToolOpen ≠ [] := by decide

/-- `longest_suffix_prefix` is at least as long as every proper start of the marker at the end of
the text. -/
theorem le_longestSuffixPrefix {text marker : Bytes} {k : Nat} (hk : k < marker.length)
    (h : marker.take k <:+ text) : k ≤ longestSuffixPrefix text marker := by
  have hlen := h.length_le
  rw [List.length_take, Nat.min_eq_left hk.le] at hlen
  obtain ⟨-, -, -, hmax⟩ := Output.suffixPrefixFrom_spec text marker true
    (min text.length (marker.length - 1)) (by omega) (by omega)
  exact hmax k (by omega) hk h

/-- The filter has emitted `out` of a text, and holds the rest of it. As long as the text has no
marker, what is held covers every start of one, and what was emitted does not end in whitespace. -/
structure Filters (text out : Bytes) (f : ToolCallStreamFilter) : Prop where
  split : out ++ (f.pending ++ f.toolRegion) = text
  count : f.emittedBytes = out.length
  unfinished : f.finished = false
  before : f.sawToolMarker = false → f.toolRegion = [] ∧ Covers [kToolOpen] f.pending text ∧
    ¬kToolOpen <:+: text ∧ rtrimAscii out = out
  behind : f.sawToolMarker = true → f.pending = [] ∧
    ∃ first, find kToolOpen text = some first ∧ out = rtrimAscii (text.take first)

theorem Filters.start : Filters [] [] {} where
  split := rfl
  count := rfl
  unfinished := rfl
  before := fun _ => ⟨rfl, Covers.nil _, by decide, rfl⟩
  behind := nofun

variable {text out : Bytes} {f : ToolCallStreamFilter}

/-- What is behind the marker changes nothing in front of it. -/
theorem Filters.behind_append (h : Filters text out f) (hsaw : f.sawToolMarker = true) (x : Bytes) :
    ∃ first, find kToolOpen (text ++ x) = some first ∧
      out = rtrimAscii ((text ++ x).take first) := by
  obtain ⟨-, first, hfound, hout⟩ := h.behind hsaw
  refine ⟨first, find_append_of_some kToolOpen_ne_nil hfound x, ?_⟩
  have hle := length_add_le_of_prefix_drop kToolOpen_ne_nil (find_eq_some hfound).1
  rw [List.take_append_of_le_length (by omega), hout]

/-- The whole text has its first marker where what is held and the next chunk have it. -/
theorem Filters.find_append (h : Filters text out f) (hsaw : f.sawToolMarker = false) (x : Bytes) :
    find kToolOpen (text ++ x) = (find kToolOpen (f.pending ++ x)).map (out.length + ·) := by
  obtain ⟨hregion, hcovers, hnone, -⟩ := h.before hsaw
  have hlen : text.length - f.pending.length = out.length := by
    rw [← h.split, hregion, List.append_nil, List.length_append]
    omega
  rw [hcovers.find_append (List.mem_singleton_self _) kToolOpen_ne_nil hnone, hlen]

/-- **One more chunk.** -/
theorem ToolCallStreamFilter.feed_filters (h : Filters text out f) (x : Bytes) :
    ∃ visible f', f.feed x = .ok (visible, f') ∧ Filters (text ++ x) (out ++ visible) f' := by
  unfold ToolCallStreamFilter.feed
  rw [if_neg (by rw [h.unfinished]; decide)]
  split_ifs with hx hsaw
  · refine ⟨[], f, rfl, ?_⟩
    rw [hx, List.append_nil, List.append_nil]
    exact h
  · -- Behind the marker everything is kept.
    obtain ⟨hpending, -⟩ := h.behind hsaw
    refine ⟨[], _, rfl, ?_⟩
    rw [List.append_nil]
    exact {
      split := by
        dsimp only
        rw [← h.split]
        simp only [List.append_assoc]
      count := h.count
      unfinished := h.unfinished
      before := fun hno => absurd (hsaw.symm.trans hno) (by decide)
      behind := fun _ => ⟨hpending, h.behind_append hsaw x⟩ }
  · replace hsaw : f.sawToolMarker = false := Bool.eq_false_iff.mpr hsaw
    obtain ⟨hregion, hcovers, hnone, htrim⟩ := h.before hsaw
    have hwhole : text ++ x = out ++ (f.pending ++ x) := by
      rw [← h.split, hregion, List.append_nil, List.append_assoc]
    have hfind := h.find_append hsaw x
    dsimp only
    cases hmarker : find kToolOpen (f.pending ++ x) with
    | some marker =>
      -- The marker is complete: what is in front of it goes out without its whitespace.
      rw [hmarker, Option.map_some] at hfind
      refine ⟨_, _, rfl, ?_⟩
      exact {
        split := by
          dsimp only
          rw [List.nil_append, List.append_assoc, List.take_append_drop, hwhole]
        count := by
          dsimp only
          rw [h.count, List.length_append]
        unfinished := h.unfinished
        before := by rintro ⟨⟩
        behind := fun _ => by
          refine ⟨rfl, _, hfind, ?_⟩
          rw [hwhole, List.take_length_add_append, rtrimAscii_append htrim,
            take_length_rtrimAscii] }
    | none =>
      -- No marker yet: what may be the start of one is kept, with the whitespace before it.
      rw [hmarker, Option.map_none] at hfind
      set held := longestSuffixPrefix (f.pending ++ x) kToolOpen
      have hle := rtrimAscii_length_le (f.pending ++ x) ((f.pending ++ x).length - held)
      have hcovers' := (hcovers.append x).shrink
        (List.drop_suffix (rtrimAscii ((f.pending ++ x).take
          ((f.pending ++ x).length - held))).length _) (by
          intro pat hm k hk hs
          obtain rfl := List.mem_singleton.mp hm
          have := le_longestSuffixPrefix hk hs
          have := hs.length_le
          rw [List.length_take, Nat.min_eq_left hk.le] at this
          rw [List.length_drop]
          omega)
      refine ⟨_, _, rfl, ?_⟩
      exact {
        split := by
          dsimp only
          rw [hregion, List.append_nil, List.append_assoc, List.take_append_drop, hwhole]
        count := by
          dsimp only
          rw [h.count]
          exact List.length_append.symm
        unfinished := h.unfinished
        before := fun _ => ⟨hregion, hcovers', (find_eq_none_iff kToolOpen_ne_nil).mp hfind, by
          rw [take_length_rtrimAscii, rtrimAscii_append htrim, rtrimAscii_rtrimAscii]⟩
        behind := fun hsaw' => absurd (hsaw.symm.trans hsaw') (by decide) }

/-- **Any number of chunks.** -/
theorem ToolCallStreamFilter.feedAll_filters (h : Filters text out f) (chunks : List Bytes) :
    ∃ outs f', f.feedAll chunks = .ok (outs, f') ∧
      Filters (text ++ chunks.flatten) (out ++ outs.flatten) f' := by
  induction chunks generalizing text out f with
  | nil =>
    refine ⟨[], f, rfl, ?_⟩
    simp only [List.flatten_nil, List.append_nil]
    exact h
  | cons chunk chunks ih =>
    obtain ⟨visible, f₁, hfeed, h₁⟩ := feed_filters h chunk
    obtain ⟨outs, f₂, hall, h₂⟩ := ih h₁
    refine ⟨visible :: outs, f₂, ?_, ?_⟩
    · rw [feedAll, hfeed]
      dsimp only [bind, Except.bind]
      rw [hall]
    · rw [List.flatten_cons, List.flatten_cons, ← List.append_assoc, ← List.append_assoc]
      exact h₂

/-! ## What the parser calls the content -/

section Content

variable {parse : Bytes → Except Exception Json} {newToolCallId : Nat → Bytes}
  {maxToolNameLength : Nat} {parsed : ParsedToolCallOutput}

/-- The content of a text: all of it, or what is before the first marker. -/
inductive Content (text : Bytes) (parsed : ParsedToolCallOutput) : Prop
  | whole (flag : parsed.isToolCallResponse = false) (content : parsed.content = text)
  | before (flag : parsed.isToolCallResponse = true) (first : Nat)
      (found : find kToolOpen text = some first)
      (content : parsed.content = rtrimAscii (text.take first))

theorem content_of_parse
    (h : parseQwenToolCallOutput parse newToolCallId text maxToolNameLength = .ok parsed) :
    Content text parsed := by
  unfold parseQwenToolCallOutput at h
  split at h
  · obtain rfl := Except.ok.inj h
    exact .whole rfl rfl
  · next first hfirst =>
    obtain ⟨calls, -, h⟩ := bind_eq_ok.mp h
    split at h
    · obtain rfl := Except.ok.inj h
      exact .whole rfl rfl
    · obtain rfl := Except.ok.inj h
      exact .whole rfl rfl
    · obtain rfl := Except.ok.inj h
      exact .before rfl first hfirst rfl

/-- **Nothing is left, nothing is lost.** -/
theorem Filters.finish (h : Filters text out f) (hc : Content text parsed) :
    ∃ tail f', f.finish parsed.isToolCallResponse = .ok (tail, f') ∧
      out ++ tail = parsed.content ∧ f'.emittedBytes = parsed.content.length := by
  unfold ToolCallStreamFilter.finish
  rw [if_neg (by rw [h.unfinished]; decide)]
  cases hc with
  | whole flag content =>
    rw [flag, if_neg (by decide)]
    refine ⟨_, _, rfl, by rw [h.split, content], ?_⟩
    dsimp only
    rw [content, ← h.split, h.count]
    exact List.length_append.symm
  | before flag first found content =>
    rw [flag, if_pos rfl]
    -- A text with a marker has been seen to have one.
    have hsaw : f.sawToolMarker = true := by
      by_contra hno
      obtain ⟨-, -, hnone, -⟩ := h.before (Bool.eq_false_iff.mpr hno)
      rw [(find_eq_none_iff kToolOpen_ne_nil).mpr hnone] at found
      exact nomatch found
    obtain ⟨-, first', found', hout⟩ := h.behind hsaw
    obtain rfl : first = first' := Option.some.inj (found.symm.trans found')
    refine ⟨_, _, rfl, ?_, ?_⟩
    · rw [List.append_nil, content, hout]
    · dsimp only
      rw [h.count, content, hout]

end Content

/-- **The filter publishes the parsed content.** However a text is cut into chunks, the filter takes
them all, and the parser returns on the whole text. What the filter emits for the chunks and at the
end is what the parser returns as the content, and at no moment has anything else been emitted. -/
theorem filter_publishes_content (parse : Bytes → Except Exception Json)
    (newToolCallId : Nat → Bytes) (maxToolNameLength : Nat) (chunks : List Bytes) :
    (Utf8 chunks.flatten → ∃ parsed,
      parseQwenToolCallOutput parse newToolCallId chunks.flatten maxToolNameLength = .ok parsed) ∧
    ∃ outs f, ToolCallStreamFilter.feedAll {} chunks = .ok (outs, f) ∧
      ∀ parsed, parseQwenToolCallOutput parse newToolCallId chunks.flatten maxToolNameLength =
        .ok parsed →
      Content chunks.flatten parsed ∧
      ∃ tail f', f.finish parsed.isToolCallResponse = .ok (tail, f') ∧
        outs.flatten ++ tail = parsed.content ∧
        (∀ k, (outs.take k).flatten <+: parsed.content) ∧
        f'.emittedBytes = parsed.content.length := by
  refine ⟨parse_of_utf8 parse newToolCallId maxToolNameLength, ?_⟩
  obtain ⟨outs, f, hall, hfilters⟩ := ToolCallStreamFilter.feedAll_filters Filters.start chunks
  refine ⟨outs, f, hall, fun parsed hparsed => ?_⟩
  rw [List.nil_append, List.nil_append] at hfilters
  have hcontent := content_of_parse hparsed
  obtain ⟨tail, f', hfinish, hout, hcount⟩ := hfilters.finish hcontent
  refine ⟨hcontent, tail, f', hfinish, hout, fun k => ?_, hcount⟩
  -- What has been emitted is only ever added to.
  refine ((List.take_prefix k outs).flatten).trans ?_
  rw [← hout]
  exact List.prefix_append _ _

/-- A call that is cut inside its marker. -/
def cutCall : List Bytes :=
  [lit "Hi \n<tool_", lit "call><function=f></function></tool_", lit "call>"]

theorem filter_publishes_content_cutCall : ∃ outs f tail f',
    ToolCallStreamFilter.feedAll {} cutCall = .ok (outs, f) ∧ f.finish true = .ok (tail, f') ∧
      outs.flatten ++ tail = lit "Hi" := by
  obtain ⟨-, outs, f, hall, h⟩ :=
    filter_publishes_content (fun _ => .error .badAlloc) (fun _ => []) 64 cutCall
  obtain ⟨-, tail, f', hfinish, hout, -⟩ := h ⟨true, lit "Hi", [⟨[], lit "f", lit "\x7b\x7d"⟩]⟩
    (by decide +kernel)
  exact ⟨outs, f, tail, f', hall, hfinish, hout⟩

/-! ## What a client is sent -/

/-- The text of the content channel. -/
def contentText (deltas : List OutputDelta) : Bytes :=
  (deltas.filter fun delta => delta.channel == .content).flatMap OutputDelta.text

/-- The sink has sent what its filter has emitted, and counted it. -/
structure Sends (deltas : List OutputDelta) (sink : ServiceOutputSink) : Prop where
  filters : Filters (contentText deltas) sink.onContent.flatten sink.toolFilter
  filterToolCalls : sink.filterToolCalls = true
  contentBytes : sink.contentBytes = sink.onContent.flatten.length

theorem ServiceOutputSink.publishContent_eq (sink : ServiceOutputSink) (text : Bytes) :
    (sink.publishContent text).onContent.flatten = sink.onContent.flatten ++ text ∧
      (sink.publishContent text).contentBytes = sink.contentBytes + text.length ∧
      (sink.publishContent text).toolFilter = sink.toolFilter ∧
      (sink.publishContent text).filterToolCalls = sink.filterToolCalls := by
  unfold publishContent
  split_ifs with h
  · simp [h]
  · simp

theorem contentText_concat (deltas : List OutputDelta) (delta : OutputDelta) :
    contentText (deltas ++ [delta]) =
      contentText deltas ++ if delta.channel = .content then delta.text else [] := by
  unfold contentText
  rw [List.filter_append, List.flatMap_append]
  split_ifs with h <;> simp [h]

/-- One more delta. -/
theorem ServiceOutputSink.publish_sends {deltas : List OutputDelta} {sink : ServiceOutputSink}
    (h : Sends deltas sink) (delta : OutputDelta) :
    ∃ sink', sink.publish delta = .ok sink' ∧ Sends (deltas ++ [delta]) sink' := by
  obtain ⟨hfilters, hflag, hbytes⟩ := h
  unfold publish
  by_cases htext : delta.text = []
  · rw [if_pos htext]
    have hsame : contentText (deltas ++ [delta]) = contentText deltas := by
      rw [contentText_concat, htext, ite_self, List.append_nil]
    exact ⟨sink, rfl, hsame ▸ hfilters, hflag, hbytes⟩
  · rw [if_neg htext]
    cases hchannel : delta.channel with
    | reasoning =>
      have hsame : contentText (deltas ++ [delta]) = contentText deltas := by
        rw [contentText_concat, if_neg (by rw [hchannel]; decide), List.append_nil]
      exact ⟨_, rfl, hsame ▸ hfilters, hflag, hbytes⟩
    | content =>
      dsimp only
      obtain ⟨visible, f', hfeed, hfilters'⟩ :=
        ToolCallStreamFilter.feed_filters hfilters delta.text
      rw [if_pos hflag, hfeed]
      dsimp only [bind, Except.bind]
      obtain ⟨hcontent, hcount, hfilter, hflag'⟩ :=
        publishContent_eq { sink with toolFilter := f' } visible
      refine ⟨_, rfl, ?_, hflag'.trans hflag, ?_⟩
      · rw [contentText_concat, if_pos hchannel, hcontent, hfilter]
        exact hfilters'
      · rw [hcontent, hcount, List.length_append]
        exact congrArg (· + visible.length) hbytes

theorem ServiceOutputSink.publishAll_sends {deltas : List OutputDelta} {sink : ServiceOutputSink}
    (h : Sends deltas sink) (more : List OutputDelta) :
    ∃ sink', more.foldlM publish sink = .ok sink' ∧ Sends (deltas ++ more) sink' := by
  induction more generalizing deltas sink with
  | nil =>
    refine ⟨sink, rfl, ?_⟩
    rw [List.append_nil]
    exact h
  | cons delta more ih =>
    obtain ⟨sink₁, hone, h₁⟩ := publish_sends h delta
    obtain ⟨sink₂, hall, h₂⟩ := ih h₁
    refine ⟨sink₂, ?_, ?_⟩
    · rw [List.foldlM_cons, hone]
      exact hall
    · rw [List.append_cons]
      exact h₂

/-- **A client is sent the content of the outcome**, and `finish` returns its length. -/
theorem sink_sends_content (parse : Bytes → Except Exception Json) (newToolCallId : Nat → Bytes)
    (maxToolNameLength : Nat) (deltas : List OutputDelta) :
    ∃ sink, deltas.foldlM ServiceOutputSink.publish { filterToolCalls := true } = .ok sink ∧
      ∀ parsed, parseQwenToolCallOutput parse newToolCallId (contentText deltas)
        maxToolNameLength = .ok parsed →
      ∃ sink', sink.finish parsed.isToolCallResponse = .ok (parsed.content.length, sink') ∧
        sink'.onContent.flatten = parsed.content := by
  have hstart : Sends [] { filterToolCalls := true } := ⟨Filters.start, rfl, rfl⟩
  obtain ⟨sink, hall, hfilters, hflag, hbytes⟩ := ServiceOutputSink.publishAll_sends hstart deltas
  refine ⟨sink, hall, fun parsed hparsed => ?_⟩
  obtain ⟨tail, f', hfinish, hout, -⟩ := hfilters.finish (content_of_parse hparsed)
  obtain ⟨hcontent, hcount, -, -⟩ :=
    ServiceOutputSink.publishContent_eq { sink with toolFilter := f' } tail
  unfold ServiceOutputSink.finish
  rw [if_pos hflag, hfinish]
  dsimp only [bind, Except.bind]
  refine ⟨_, ?_, hcontent.trans hout⟩
  rw [hcount, ← hout, List.length_append, ← hbytes]

/-- A reasoning delta, and a call that is cut inside its marker. -/
def cutDeltas : List OutputDelta :=
  ⟨.reasoning, lit "Call f."⟩ :: cutCall.map fun text => ⟨.content, text⟩

theorem sink_sends_content_cutDeltas : ∃ sink sink',
    cutDeltas.foldlM ServiceOutputSink.publish { filterToolCalls := true } = .ok sink ∧
      sink.finish true = .ok (2, sink') ∧ sink'.onContent.flatten = lit "Hi" := by
  obtain ⟨sink, hall, h⟩ :=
    sink_sends_content (fun _ => .error .badAlloc) (fun _ => []) 64 cutDeltas
  obtain ⟨sink', hfinish, hsent⟩ := h ⟨true, lit "Hi", [⟨[], lit "f", lit "\x7b\x7d"⟩]⟩
    (by decide +kernel)
  exact ⟨sink, sink', hall, hfinish, hsent⟩

end Ninfer.Serve
