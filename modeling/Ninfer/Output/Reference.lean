import Ninfer.Output.Scanning
import Ninfer.Output.Session

/-!
# The text of a session, from the whole of its tokens

What a session publishes, as a function of the list of its tokens. The text of a channel is read off
the bytes of all tokens, with no buffer: the complete characters, cut at the first `</think>` when
the output starts in reasoning, without the white space in front of the content. The output ends
with the first token after which a stop string occurs in the text of its channel, at a stop token,
or when the budget is spent.

## Main definitions

* `channelText`, `releasedText`: the text of a channel, and the part of it that is certain while more
  text may follow
* `Setting`: what a session decodes with
* `earliest`, `cutOf`: the stop string that cuts the output
* `Setting.reference`: what a session publishes

## Main results

* `releasedText_after`, `releasedText_marker`, `releasedText_before`: how the texts grow
* `utf8_releasedText`: they are texts
-/

namespace Ninfer.Output

open Executor (FinishReason OutputDecision)

/-! ## The channels of a text -/

/-- Whether a text that may start in reasoning is still there. -/
def stillReasoning (starts : Bool) (text : Bytes) : Bool :=
  starts && (find kThinkClose text).isNone

/-- The text of a channel. -/
def channelText (starts : Bool) (text : Bytes) : OutputChannel → Bytes
  | .reasoning => if starts then text.take ((find kThinkClose text).getD text.length) else []
  | .content =>
    if starts then
      match find kThinkClose text with
      | none => []
      | some marker => (text.drop (marker + kThinkClose.length)).dropWhile isSpace
    else text

/-- The start of a marker at the end of a text that is still in reasoning. -/
def keptMarker (starts : Bool) (text : Bytes) : Bytes :=
  if stillReasoning starts text then
    text.drop (text.length - longestSuffixPrefix text kThinkClose true)
  else []

/-- The text of a channel that is certain, while more text may follow. -/
def releasedText (starts : Bool) (text : Bytes) (channel : OutputChannel) : Bytes :=
  channelText starts (text.take (text.length - (keptMarker starts text).length)) channel

/-- Whether the white space in front of the content is not yet behind. -/
def stripping (starts : Bool) (text : Bytes) : Bool :=
  starts && (find kThinkClose text).isSome && (releasedText starts text .content).isEmpty

theorem kThinkClose_ne_nil : kThinkClose ≠ [] := by decide

theorem stillReasoning_eq_true_iff {starts : Bool} {text : Bytes} :
    stillReasoning starts text = true ↔ starts = true ∧ find kThinkClose text = none := by
  rw [stillReasoning, Bool.and_eq_true, Option.isNone_iff_eq_none]

section Released

variable {starts : Bool} {text : Bytes}

theorem kept_keptMarker (h : stillReasoning starts text = true) :
    Kept [kThinkClose] (keptMarker starts text) text := by
  rw [keptMarker, if_pos h]
  obtain ⟨-, hnone⟩ := stillReasoning_eq_true_iff.mp h
  exact kept_longestSuffixPrefix ((find_eq_none_iff kThinkClose_ne_nil).mp hnone)

theorem releasedText_of_not_starts (channel : OutputChannel) :
    releasedText false text channel = channelText false text channel := by
  rw [releasedText, keptMarker, stillReasoning, Bool.false_and, if_neg Bool.false_ne_true,
    List.length_nil, Nat.sub_zero, List.take_length]

theorem releasedText_of_marker {marker : Nat} (h : find kThinkClose text = some marker)
    (channel : OutputChannel) : releasedText true text channel = channelText true text channel := by
  rw [releasedText, keptMarker, stillReasoning, h, Option.isNone_some, Bool.and_false,
    if_neg Bool.false_ne_true, List.length_nil, Nat.sub_zero, List.take_length]

section Reasoning

variable (h : stillReasoning starts text = true)

include h

/-- In reasoning, all of the text is released but the start of a marker. -/
theorem releasedText_reasoning :
    releasedText starts text .reasoning =
        text.take (text.length - (keptMarker starts text).length) ∧
      releasedText starts text .content = [] := by
  obtain ⟨rfl, hnone⟩ := stillReasoning_eq_true_iff.mp h
  have hshort : find kThinkClose
      (text.take (text.length - (keptMarker true text).length)) = none := by
    refine (find_eq_none_iff kThinkClose_ne_nil).mpr fun hocc => ?_
    refine (find_eq_none_iff kThinkClose_ne_nil).mp hnone (hocc.trans ?_)
    exact (List.take_prefix _ _).isInfix
  constructor
  · rw [releasedText, channelText, if_pos rfl, hshort, Option.getD_none, List.take_length]
  · rw [releasedText, channelText, if_pos rfl, hshort]

theorem releasedText_append_keptMarker :
    releasedText starts text .reasoning ++ keptMarker starts text = text := by
  rw [(releasedText_reasoning h).1]
  have heq := List.suffix_iff_eq_drop.mp (kept_keptMarker h).suffix
  exact (congrArg (_ ++ ·) heq).trans (List.take_append_drop _ _)

end Reasoning

/-! ## More text -/

variable (x : Bytes)

/-- **Behind the marker** all text goes to the content, but for the white space in front. -/
theorem releasedText_after (h : stillReasoning starts text = false) :
    stillReasoning starts (text ++ x) = false ∧
      releasedText starts (text ++ x) .reasoning = releasedText starts text .reasoning ∧
      releasedText starts (text ++ x) .content = releasedText starts text .content ++
        (if stripping starts text then x.dropWhile isSpace else x) := by
  cases starts with
  | false =>
    refine ⟨rfl, ?_, ?_⟩
    · rw [releasedText_of_not_starts, releasedText_of_not_starts]
      rfl
    · rw [releasedText_of_not_starts, releasedText_of_not_starts]
      rfl
  | true =>
    cases hfind : find kThinkClose text with
    | none =>
      rw [stillReasoning, hfind] at h
      exact nomatch h
    | some marker =>
      have hfind' := find_append_of_some kThinkClose_ne_nil hfind x
      have hle := length_add_le_of_prefix_drop kThinkClose_ne_nil (find_eq_some hfind).1
      refine ⟨?_, ?_, ?_⟩
      · rw [stillReasoning, hfind']
        rfl
      · rw [releasedText_of_marker hfind, releasedText_of_marker hfind', channelText, channelText,
          hfind, hfind']
        exact List.take_append_of_le_length (by rw [Option.getD_some]; omega)
      · rw [stripping, releasedText_of_marker hfind, releasedText_of_marker hfind', channelText,
          channelText, hfind, hfind', if_pos rfl, if_pos rfl]
        dsimp only
        rw [List.drop_append_of_le_length hle, List.dropWhile_append, Bool.true_and,
          Option.isSome_some, Bool.true_and]
        split_ifs with hempty
        · rw [List.isEmpty_iff.mp hempty, List.nil_append]
        · rfl

section Before

variable (h : stillReasoning starts text = true)

include h

theorem find_append_keptMarker : find kThinkClose (text ++ x) =
    (find kThinkClose (keptMarker starts text ++ x)).map
      (text.length - (keptMarker starts text).length + ·) := by
  obtain ⟨-, hnone⟩ := stillReasoning_eq_true_iff.mp h
  exact (kept_keptMarker h).find_append (List.mem_singleton_self _) kThinkClose_ne_nil
    ((find_eq_none_iff kThinkClose_ne_nil).mp hnone) x

/-- The text behind what was released is the start of a marker and what follows it. -/
theorem append_eq_released : text ++ x =
    releasedText starts text .reasoning ++ (keptMarker starts text ++ x) := by
  rw [← List.append_assoc, releasedText_append_keptMarker h]

theorem length_released : (releasedText starts text .reasoning).length =
    text.length - (keptMarker starts text).length := by
  rw [(releasedText_reasoning h).1, List.length_take]
  omega

/-- **At the marker** the text before it goes to the reasoning, and the text behind it to the
content. -/
theorem releasedText_marker {marker : Nat}
    (hm : find kThinkClose (keptMarker starts text ++ x) = some marker) :
    stillReasoning starts (text ++ x) = false ∧
      releasedText starts (text ++ x) .reasoning = releasedText starts text .reasoning ++
        (keptMarker starts text ++ x).take marker ∧
      releasedText starts (text ++ x) .content =
        ((keptMarker starts text ++ x).drop (marker + kThinkClose.length)).dropWhile isSpace := by
  have hfind := find_append_keptMarker x h
  rw [hm, Option.map_some, ← length_released h] at hfind
  obtain ⟨rfl, -⟩ := stillReasoning_eq_true_iff.mp h
  refine ⟨?_, ?_, ?_⟩
  · rw [stillReasoning, hfind]
    rfl
  · rw [releasedText_of_marker hfind, channelText, if_pos rfl, hfind, Option.getD_some,
      append_eq_released x h, List.take_length_add_append]
  · rw [releasedText_of_marker hfind, channelText, if_pos rfl, hfind, append_eq_released x h]
    dsimp only
    rw [Nat.add_assoc, List.drop_length_add_append]

/-- **Before the marker** all text goes to the reasoning, but for the start of a marker. -/
theorem releasedText_before
    (hm : find kThinkClose (keptMarker starts text ++ x) = none) :
    let pending := keptMarker starts text ++ x
    let safe := pending.length - longestSuffixPrefix pending kThinkClose true
    stillReasoning starts (text ++ x) = true ∧
      keptMarker starts (text ++ x) = pending.drop safe ∧
      releasedText starts (text ++ x) .reasoning =
        releasedText starts text .reasoning ++ pending.take safe ∧
      releasedText starts (text ++ x) .content = [] := by
  intro pending safe
  have hfind := find_append_keptMarker x h
  rw [hm, Option.map_none] at hfind
  have hstill : stillReasoning starts (text ++ x) = true :=
    stillReasoning_eq_true_iff.mpr ⟨(stillReasoning_eq_true_iff.mp h).1, hfind⟩
  -- What is kept of the pending text is what is kept of the whole text.
  have hkept : Kept [kThinkClose] (pending.drop safe) (text ++ x) :=
    ((kept_keptMarker h).append x).kept
      (kept_longestSuffixPrefix ((find_eq_none_iff kThinkClose_ne_nil).mp hm))
  have hmarker := (kept_keptMarker hstill).unique hkept
  refine ⟨hstill, hmarker, ?_, (releasedText_reasoning hstill).2⟩
  have heq := (releasedText_append_keptMarker hstill).trans (append_eq_released x h)
  rw [hmarker] at heq
  refine List.append_cancel_right (heq.trans ?_)
  rw [List.append_assoc, List.take_append_drop]

end Before

end Released

/-! ## They are texts -/

/-- What follows a text in a text is a text. -/
theorem utf8_of_append_left {u v : Bytes} (hu : Utf8 u) (h : Utf8 (u ++ v)) : Utf8 v := by
  have hs : Scans u u [] := ⟨(List.append_nil u).symm, hu, Or.inl rfl⟩
  have hs' : Scans (u ++ v) (u ++ v) [] := ⟨(List.append_nil _).symm, h, Or.inl rfl⟩
  obtain ⟨w, hw, hscan⟩ := hs.of_append hs'
  rw [List.append_cancel_left hw]
  exact hscan.text

theorem utf8_dropWhile_isSpace {text : Bytes} (h : Utf8 text) :
    Utf8 (text.dropWhile isSpace) := by
  rw [← List.takeWhile_append_dropWhile (p := isSpace) (l := text)] at h
  refine utf8_of_append_left (Utf8.of_ascii fun byte hb => ?_) h
  have hspace := List.all_eq_true.mp List.all_takeWhile byte hb
  rw [isSpace, Bool.or_eq_true, Bool.and_eq_true, beq_iff_eq, decide_eq_true_iff,
    decide_eq_true_iff] at hspace
  omega

theorem utf8_kThinkClose : Utf8 kThinkClose := Utf8.of_ascii (by simp [kThinkClose])

/-- A start of a text is a boundary. -/
theorem boundary_of_prefix {u v : Bytes} (h : u <+: v) (hv : Utf8 v) : Boundary u := by
  intro byte hm
  refine hv.boundary byte ?_
  obtain ⟨w, rfl⟩ := h
  cases u with
  | nil => exact nomatch hm
  | cons a u => exact hm

/-- A text is cut in front of an occurrence of a text. -/
theorem utf8_take_of_prefix_drop {text pat : Bytes} {i : Nat} (h : Utf8 text) (hpat : Utf8 pat)
    (hne : pat ≠ []) (hocc : pat <+: text.drop i) : Utf8 (text.take i) ∧ Utf8 (text.drop i) := by
  refine Utf8.split (by rw [List.take_append_drop]; exact h) ?_
  obtain ⟨w, hw⟩ := hocc
  intro byte hm
  refine hpat.boundary byte ?_
  rw [← hw] at hm
  cases pat with
  | nil => exact absurd rfl hne
  | cons a pat => exact hm

/-- A text is cut in front of what is kept back of it. -/
theorem utf8_of_kept {pats : List Bytes} {kept text : Bytes} (hk : Kept pats kept text)
    (hpats : ∀ pat ∈ pats, Utf8 pat) {released : Bytes} (h : released ++ kept = text)
    (ht : Utf8 text) : Utf8 released ∧ Utf8 kept := by
  refine Utf8.split (h ▸ ht) ?_
  by_cases hnil : kept = []
  · rw [hnil]
    exact boundary_nil
  · obtain ⟨pat, hm, -, hpre⟩ := hk.start hnil
    exact boundary_of_prefix hpre (hpats pat hm)

theorem utf8_releasedText (starts : Bool) {text : Bytes} (h : Utf8 text) (channel : OutputChannel) :
    Utf8 (releasedText starts text channel) := by
  cases hstill : stillReasoning starts text with
  | true =>
    cases channel with
    | reasoning =>
      exact (utf8_of_kept (kept_keptMarker hstill)
        (fun pat hm => List.mem_singleton.mp hm ▸ utf8_kThinkClose)
        (releasedText_append_keptMarker hstill) h).1
    | content =>
      rw [(releasedText_reasoning hstill).2]
      exact Utf8.nil
  | false =>
    cases starts with
    | false =>
      rw [releasedText_of_not_starts]
      cases channel with
      | reasoning => exact Utf8.nil
      | content => exact h
    | true =>
      cases hfind : find kThinkClose text with
      | none =>
        rw [stillReasoning, hfind] at hstill
        exact nomatch hstill
      | some marker =>
        have hocc := (find_eq_some hfind).1
        obtain ⟨hbefore, hbehind⟩ :=
          utf8_take_of_prefix_drop h utf8_kThinkClose kThinkClose_ne_nil hocc
        rw [releasedText_of_marker hfind]
        cases channel with
        | reasoning =>
          rw [channelText, if_pos rfl, hfind]
          exact hbefore
        | content =>
          rw [channelText, if_pos rfl, hfind]
          obtain ⟨rest, hrest⟩ := hocc
          have hdrop : text.drop (marker + kThinkClose.length) = rest := by
            rw [← List.drop_drop, ← hrest, List.drop_left]
          dsimp only
          rw [hdrop]
          exact utf8_dropWhile_isSpace (utf8_of_append_left utf8_kThinkClose (hrest ▸ hbehind))

/-! ## Stop strings -/

/-- The stop string that cuts the text of a channel and where: the earliest occurrence, and the
first declared string of those that occur there. -/
def earliest (strings : List StopString) (channel : OutputChannel) (text : Bytes) :
    Option (StopString × Nat) :=
  strings.foldl (fun best stop =>
    if stop.channel = channel then
      match find stop.text text, best with
      | none, best => best
      | some i, none => some (stop, i)
      | some i, some best => if i < best.2 then some (stop, i) else some best
    else best) none

/-- `stop` cuts the text of a channel at `i`: it occurs there, no other string occurs before, and no
string declared before it occurs there. -/
structure Cuts (strings : List StopString) (channel : OutputChannel) (text : Bytes)
    (stop : StopString) (i : Nat) : Prop where
  ofChannel : stop.channel = channel
  occurs : stop.text <+: text.drop i
  first : ∀ other ∈ strings, other.channel = channel → ∀ j < i, ¬other.text <+: text.drop j
  declared : ∃ before after, strings = before ++ stop :: after ∧
    ∀ other ∈ before, other.channel = channel → ¬other.text <+: text.drop i

section Earliest

variable {strings : List StopString} {channel : OutputChannel} {text : Bytes}

theorem earliest_snoc (stop : StopString) : earliest (strings ++ [stop]) channel text =
    if stop.channel = channel then
      match find stop.text text, earliest strings channel text with
      | none, best => best
      | some i, none => some (stop, i)
      | some i, some best => if i < best.2 then some (stop, i) else some best
    else earliest strings channel text := by
  rw [earliest, List.foldl_append]
  rfl

/-- What a search over the strings has found. -/
theorem earliest_spec (channel : OutputChannel) (text : Bytes) (hne : ∀ stop ∈ strings, stop.text ≠ []) :
    match earliest strings channel text with
    | none => ∀ stop ∈ strings, stop.channel = channel → ¬stop.text <:+: text
    | some (stop, i) => Cuts strings channel text stop i := by
  induction strings using List.reverseRecOn with
  | nil => exact nofun
  | append_singleton strings stop ih =>
    have hstop := hne stop (List.mem_append_right _ (List.mem_singleton_self _))
    specialize ih fun s hs => hne s (List.mem_append_left _ hs)
    have hmem : ∀ {P : StopString → Prop}, (∀ s ∈ strings, P s) → P stop →
        ∀ s ∈ strings ++ [stop], P s := by
      intro P h hs s hm
      rcases List.mem_append.mp hm with hm | hm
      · exact h s hm
      · exact List.mem_singleton.mp hm ▸ hs
    -- A cut stays when the next string does not occur before it.
    have hkeep : ∀ {best i}, Cuts strings channel text best i →
        (stop.channel = channel → ∀ j < i, ¬stop.text <+: text.drop j) →
        Cuts (strings ++ [stop]) channel text best i := by
      intro best i h hlater
      obtain ⟨before, after, heq, hbefore⟩ := h.declared
      refine ⟨h.ofChannel, h.occurs, hmem h.first hlater, before, after ++ [stop], ?_, hbefore⟩
      rw [heq, List.append_assoc, List.cons_append]
    rw [earliest_snoc]
    by_cases hc : stop.channel = channel
    · rw [if_pos hc]
      cases hfind : find stop.text text with
      | none =>
        have hnot := find_eq_none (show find stop.text text = none from hfind)
        cases hbest : earliest strings channel text with
        | none =>
          rw [hbest] at ih
          exact hmem ih fun _ => (find_eq_none_iff hstop).mp hfind
        | some best =>
          rw [hbest] at ih
          exact hkeep ih fun _ j _ => hnot j hstop
      | some i =>
        obtain ⟨hocc, hfirst⟩ := find_eq_some hfind
        cases hbest : earliest strings channel text with
        | none =>
          rw [hbest] at ih
          have hnone : ∀ s ∈ strings, s.channel = channel → ∀ j, ¬s.text <+: text.drop j :=
            fun s hs hsc j h => ih s hs hsc (infix_iff_exists_drop.mpr ⟨j, h⟩)
          exact ⟨hc, hocc, hmem (fun s hs hsc j _ => hnone s hs hsc j) fun _ => hfirst,
            strings, [], rfl, fun s hs hsc => hnone s hs hsc i⟩
        | some best =>
          rw [hbest] at ih
          dsimp only
          split_ifs with hlt
          · exact ⟨hc, hocc,
              hmem (fun s hs hsc j hj => ih.first s hs hsc j (hj.trans hlt)) fun _ => hfirst,
              strings, [], rfl, fun s hs hsc => ih.first s hs hsc i hlt⟩
          · exact hkeep ih fun _ j hj => hfirst j (by omega)
    · rw [if_neg hc]
      cases hbest : earliest strings channel text with
      | none =>
        rw [hbest] at ih
        exact hmem ih fun h => absurd h hc
      | some best =>
        rw [hbest] at ih
        exact hkeep ih fun h => absurd h hc

theorem earliest_cuts (hne : ∀ stop ∈ strings, stop.text ≠ []) {stop : StopString} {i : Nat}
    (h : earliest strings channel text = some (stop, i)) : Cuts strings channel text stop i := by
  have hspec := earliest_spec channel text hne
  rwa [h] at hspec

theorem Cuts.mem {stop : StopString} {i : Nat} (h : Cuts strings channel text stop i) :
    stop ∈ strings := by
  obtain ⟨before, after, heq, -⟩ := h.declared
  rw [heq]
  exact List.mem_append_right _ (List.mem_cons_self ..)

theorem earliest_eq_none (hne : ∀ stop ∈ strings, stop.text ≠ [])
    (h : ∀ stop ∈ strings, stop.channel = channel → ¬stop.text <:+: text) :
    earliest strings channel text = none := by
  have hspec := earliest_spec channel text hne
  cases hbest : earliest strings channel text with
  | none => rfl
  | some best =>
    rw [hbest] at hspec
    exact absurd (infix_iff_exists_drop.mpr ⟨_, hspec.occurs⟩) (h _ hspec.mem hspec.ofChannel)

end Earliest

/-- The stop string that cuts the texts of the channels. The text of the reasoning stands before
that of the content. -/
def cutOf (policy : StopPolicy) (texts : OutputChannel → Bytes) : Option (StopString × Nat) :=
  match earliest policy.strings .reasoning (texts .reasoning) with
  | some found => some found
  | none => earliest policy.strings .content (texts .content)

/-- What is published of the texts of the channels when a stop string cuts them. -/
def publishedAtCut (texts : OutputChannel → Bytes) (stop : StopString) (i : Nat)
    (channel : OutputChannel) : Bytes :=
  if channel = stop.channel then
    (texts channel).take i ++ if stop.includeInOutput then stop.text else []
  else if channel = .reasoning then texts channel
  else []

/-! ## The reference -/

/-- What a session decodes with. -/
structure Setting where
  tokenizer : Tokenizer
  policy : StopPolicy
  preserveSpecial : Bool
  startsInReasoning : Bool

/-- The setting of a session that has decoded nothing yet. -/
def OutputSession.setting (s : OutputSession) : Setting where
  tokenizer := s.tokenizer
  policy := s.policy
  preserveSpecial := s.preserveSpecial
  startsInReasoning := s.state.inReasoning

/-- What comes of a request. -/
structure Outcome where
  published : OutputChannel → Bytes
  acceptedTokens : Nat
  finishReason : FinishReason
  reasoningTokens : Nat

namespace Setting

variable (σ : Setting)

/-- The bytes of a token. -/
def tokenBytes (token : TokenId) : Bytes :=
  match σ.tokenizer.decodeTokenBytes token !σ.preserveSpecial with
  | .ok bytes => bytes
  | .error _ => []

/-- The bytes of the tokens. -/
def bytes (tokens : List TokenId) : Bytes := tokens.flatMap σ.tokenBytes

/-- How many of the bytes are complete characters. -/
def size (tokens : List TokenId) : Nat :=
  match validUtf8PrefixSize (σ.bytes tokens) with
  | .ok size => size
  | .error _ => 0

/-- The complete characters. -/
def text (tokens : List TokenId) : Bytes := (σ.bytes tokens).take (σ.size tokens)

/-- The character that is not complete. -/
def incomplete (tokens : List TokenId) : Bytes := (σ.bytes tokens).drop (σ.size tokens)

/-- The text of a channel that is certain after the tokens. -/
def released (tokens : List TokenId) (channel : OutputChannel) : Bytes :=
  releasedText σ.startsInReasoning (σ.text tokens) channel

/-- The text of a channel when no more tokens follow. -/
def final (tokens : List TokenId) (channel : OutputChannel) : Bytes :=
  channelText σ.startsInReasoning
    (σ.text tokens ++ if σ.incomplete tokens = [] then [] else kReplacement) channel

/-- Whether the next token starts in reasoning. -/
def inReasoning (tokens : List TokenId) : Bool :=
  stillReasoning σ.startsInReasoning (σ.text tokens)

/-- How many of the tokens started in reasoning. -/
def reasoningTokens (tokens : List TokenId) : Nat :=
  (List.range tokens.length).countP fun k => σ.inReasoning (tokens.take k)

/-- The stop string that cuts the output. -/
def cut (tokens : List TokenId) : Option (StopString × Nat) :=
  cutOf σ.policy (σ.released tokens)

/-- What is published of the text of a channel while the output goes on: a start of a stop string is
kept back, but not at the marker. -/
def publishedSoFar (tokens : List TokenId) (channel : OutputChannel) : Bytes :=
  let text := σ.released tokens channel
  if channel = .reasoning ∧ σ.inReasoning tokens = false then text
  else text.take (text.length - stopHoldSize text channel σ.policy)

/-- Whether the last of the tokens stops the output. -/
def stops (tokens : List TokenId) : Bool :=
  (σ.cut tokens).isSome || tokens.getLast?.any (· ∈ σ.policy.tokenIds)

/-- Whether the output ends with the last of the tokens. -/
def finishes (tokens : List TokenId) (budget : Nat) : Bool :=
  σ.stops tokens || decide (tokens.length = budget)

/-- The bytes of the tokens are complete characters, and at most one that is not complete. -/
def Scannable (tokens : List TokenId) : Prop := ∃ text rest, Scans (σ.bytes tokens) text rest

/-- Tokens that can be decoded: up to the first one that stops the output, each is a token of the
vocabulary with bytes, and the bytes so far can be scanned. -/
def Decodable (seen : List TokenId) : List TokenId → Prop
  | [] => True
  | token :: tokens =>
    σ.tokenizer.isValidToken token = true ∧
      (∃ bytes, σ.tokenizer.decodeTokenBytes token (!σ.preserveSpecial) = .ok bytes) ∧
      σ.Scannable (seen ++ [token]) ∧
      (σ.stops (seen ++ [token]) = false → Decodable (seen ++ [token]) tokens)

/-- The end of the output with a token. -/
def finish (before : List TokenId) (token : TokenId) (limitReason : FinishReason) : Outcome :=
  let tokens := before ++ [token]
  match σ.cut tokens with
  | some (stop, i) =>
    ⟨publishedAtCut (σ.released tokens) stop i, tokens.length, .stopString, σ.reasoningTokens tokens⟩
  | none =>
    if token ∈ σ.policy.tokenIds then
      ⟨σ.final (if σ.policy.publishStopToken then tokens else before), tokens.length, .stopToken,
        σ.reasoningTokens tokens⟩
    else ⟨σ.final tokens, tokens.length, limitReason, σ.reasoningTokens tokens⟩

/-- The end of the output with the first token that finishes it, after some that do not. -/
def referenceFrom (limitReason : FinishReason) (budget : Nat) (before : List TokenId) :
    List TokenId → Outcome
  | [] => ⟨σ.publishedSoFar before, before.length, .none, σ.reasoningTokens before⟩
  | token :: tokens =>
    if σ.finishes (before ++ [token]) budget then σ.finish before token limitReason
    else referenceFrom limitReason budget (before ++ [token]) tokens

/-- What a session publishes, read off the whole of its tokens. -/
def reference (limitReason : FinishReason) (budget : Nat) (tokens : List TokenId) : Outcome :=
  σ.referenceFrom limitReason budget [] tokens

theorem finish_accepted (seen : List TokenId) (token : TokenId) (limitReason : FinishReason) :
    (σ.finish seen token limitReason).acceptedTokens = (seen ++ [token]).length := by
  unfold finish
  dsimp only
  split
  · rfl
  · split_ifs <;> rfl

end Setting

end Ninfer.Output
