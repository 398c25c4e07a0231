import Ninfer.Output.Reference

/-!
# Feeding the decoder

What the feeding functions of the decoder do to its buffers and to the output, in terms of the texts
of `Output/Reference.lean`. The text of a channel is what was published of it and what is kept back;
a stop string is found in what is kept back and what arrives exactly where it first occurs in the
text of its channel.

`prior` stands for the deltas of the commits before, so that the statements speak of the output of a
session as a whole.

## Main definitions

* `WellFormed prior emitted`: deltas that can be published
* `Buffered`: the buffer of one channel

## Main results

* `appendDelta_spec`: the output has room for a delta
-/

namespace Ninfer.Output

/-! ## Deltas -/

/-- The texts of a channel, concatenated. -/
def textOf (channel : OutputChannel) (output : PublishedOutput) : Bytes :=
  output.flatMap fun delta => if delta.channel = channel then delta.text else []

theorem textOf_append (channel : OutputChannel) (output more : PublishedOutput) :
    textOf channel (output ++ more) = textOf channel output ++ textOf channel more :=
  List.flatMap_append

theorem textOf_singleton (channel : OutputChannel) (delta : OutputDelta) :
    textOf channel [delta] = if delta.channel = channel then delta.text else [] :=
  List.flatMap_singleton ..

/-- There is no reasoning after content. -/
def Ordered (output : PublishedOutput) : Prop :=
  output.Pairwise fun a b => a.channel = .content → b.channel = .content

/-- Deltas that can be published after those of the commits before. -/
structure WellFormed (prior emitted : PublishedOutput) : Prop where
  texts : ∀ delta ∈ emitted, delta.text ≠ [] ∧ Utf8 delta.text
  channels : (emitted.map OutputDelta.channel).Sublist [.reasoning, .content]
  ordered : Ordered (prior ++ emitted)

/-- A channel can still be published on. -/
def Open (channel : OutputChannel) (output : PublishedOutput) : Prop :=
  channel = .reasoning → ∀ delta ∈ output, delta.channel = .reasoning

theorem open_content (output : PublishedOutput) : Open .content output := nofun

section Append

variable {prior emitted : PublishedOutput} {channel : OutputChannel} {text : Bytes}

/-- When the last delta is on another channel, it is the only one, and the next is content. -/
theorem WellFormed.length_le_one {last : OutputDelta} (hw : WellFormed prior (emitted ++ [last]))
    (hopen : Open channel (prior ++ (emitted ++ [last]))) (hne : last.channel ≠ channel) :
    emitted = [] ∧ channel = .content := by
  have hmem : last ∈ prior ++ (emitted ++ [last]) :=
    List.mem_append_right _ (List.mem_append_right _ (List.mem_singleton_self _))
  have hc : channel = .content := by
    cases channel with
    | content => rfl
    | reasoning => exact absurd (hopen rfl last hmem) hne
  refine ⟨?_, hc⟩
  have hlast : last.channel = .reasoning := by
    cases h : last.channel with
    | reasoning => rfl
    | content => exact absurd (h.trans hc.symm) hne
  have hsub := hw.channels
  rw [List.map_append, List.map_singleton, hlast] at hsub
  -- A sublist of the two channels that ends with the first of them is that one.
  match emitted, hsub with
  | [], _ => rfl
  | [⟨.content, _⟩], h =>
    have hsub : List.Sublist [OutputChannel.content, .reasoning] [.reasoning, .content] := h
    exact absurd hsub (by decide)
  | [⟨.reasoning, _⟩], h =>
    have hsub : List.Sublist [OutputChannel.reasoning, .reasoning] [.reasoning, .content] := h
    exact absurd hsub (by decide)
  | _ :: _ :: _, h =>
    have hlen := h.length_le
    simp only [List.length_append, List.length_map, List.length_cons, List.length_nil] at hlen
    omega

theorem ordered_snoc {output : PublishedOutput} (h : Ordered output)
    (hopen : Open channel output) : Ordered (output ++ [⟨channel, text⟩]) := by
  refine List.pairwise_append.mpr ⟨h, List.pairwise_singleton _ _, fun a ha b hb hac => ?_⟩
  obtain rfl := List.mem_singleton.mp hb
  cases channel with
  | content => rfl
  | reasoning => exact absurd ((hopen rfl a ha).symm.trans hac) (by decide)

theorem open_snoc {output : PublishedOutput} (hopen : Open channel output) :
    Open channel (output ++ [⟨channel, text⟩]) := by
  intro hc delta hm
  rcases List.mem_append.mp hm with hm | hm
  · exact hopen hc delta hm
  · rw [List.mem_singleton.mp hm]
    exact hc

/-- **The output has room for a delta** on a channel that is open. -/
theorem appendDelta_spec (hw : WellFormed prior emitted) (hopen : Open channel (prior ++ emitted))
    (ht : Utf8 text) : ∃ emitted', appendDelta emitted channel text = .ok emitted' ∧
      WellFormed prior emitted' ∧ Open channel (prior ++ emitted') ∧
      ∀ c, textOf c emitted' = textOf c emitted ++ if c = channel then text else [] := by
  rw [appendDelta]
  by_cases hnil : text = []
  · rw [if_pos hnil]
    refine ⟨emitted, rfl, hw, hopen, fun c => ?_⟩
    rw [hnil, ite_self, List.append_nil]
  rw [if_neg hnil]
  have hnew : ∀ c, textOf c (emitted ++ [⟨channel, text⟩]) =
      textOf c emitted ++ if c = channel then text else [] := by
    intro c
    rw [textOf_append, textOf_singleton]
    simp only [eq_comm]
  have htexts : ∀ delta ∈ emitted ++ [⟨channel, text⟩], delta.text ≠ [] ∧ Utf8 delta.text := by
    intro delta hm
    rcases List.mem_append.mp hm with hm | hm
    · exact hw.texts delta hm
    · rw [List.mem_singleton.mp hm]
      exact ⟨hnil, ht⟩
  have hsnoc : (emitted.map OutputDelta.channel ++ [channel]).Sublist [.reasoning, .content] →
      WellFormed prior (emitted ++ [⟨channel, text⟩]) := by
    intro hsub
    refine ⟨htexts, by rw [List.map_append]; exact hsub, ?_⟩
    rw [← List.append_assoc]
    exact ordered_snoc hw.ordered hopen
  rcases List.eq_nil_or_concat emitted with rfl | ⟨init, last, rfl⟩
  · refine ⟨_, rfl, hsnoc ?_, ?_, hnew⟩
    · cases channel <;> decide
    · rw [List.append_nil] at hopen
      exact open_snoc hopen
  · rw [List.concat_eq_append] at *
    rw [List.getLast?_concat]
    dsimp only
    -- A text of the last channel is added to its delta; another one is the second delta.
    by_cases hc : last.channel = channel
    · rw [if_pos hc, List.dropLast_concat]
      refine ⟨_, rfl, ⟨?_, ?_, ?_⟩, ?_, fun c => ?_⟩
      · intro delta hm
        rcases List.mem_append.mp hm with hm | hm
        · exact hw.texts delta (List.mem_append_left _ hm)
        · rw [List.mem_singleton.mp hm]
          have hlast := hw.texts last (List.mem_append_right _ (List.mem_singleton_self _))
          exact ⟨List.append_ne_nil_of_left_ne_nil hlast.1 _, hlast.2.append ht⟩
      · have hsub := hw.channels
        rw [List.map_append, List.map_singleton, hc] at hsub
        rw [List.map_append]
        exact hsub
      · have hord := hw.ordered
        rw [← List.append_assoc] at hord hopen ⊢
        exact ordered_snoc (List.pairwise_append.mp hord).1
          fun hr delta hm => hopen hr delta (List.mem_append_left _ hm)
      · rw [← List.append_assoc] at hopen ⊢
        exact open_snoc fun hr delta hm => hopen hr delta (List.mem_append_left _ hm)
      · rw [textOf_append, textOf_append, textOf_singleton, textOf_singleton, List.append_assoc, hc]
        by_cases hcc : channel = c
        · rw [if_pos hcc, if_pos hcc, if_pos hcc.symm]
        · rw [if_neg hcc, if_neg hcc, if_neg (Ne.symm hcc), List.append_nil,
            List.append_nil, List.append_nil]
    · obtain ⟨rfl, rfl⟩ := hw.length_le_one hopen hc
      rw [if_neg hc]
      refine ⟨_, rfl, hsnoc ?_, ?_, hnew⟩
      · have hlast : last.channel = .reasoning := by
          cases h : last.channel with
          | reasoning => rfl
          | content => exact absurd h hc
        rw [List.nil_append, List.map_singleton, hlast]
        decide
      · exact open_content _

end Append

/-! ## One channel -/

/-- The buffer of a channel: the text is what was published and what is kept back. -/
structure Buffered (policy : StopPolicy) (channel : OutputChannel) (text published pending : Bytes) :
    Prop where
  eq : published ++ pending = text
  kept : Kept (policy.texts channel) pending text

theorem StopPolicy.Merged.utf8 {policy : StopPolicy} (h : policy.Merged)
    {channel : OutputChannel} {text : Bytes} (hm : text ∈ policy.texts channel) :
    text ≠ [] ∧ Utf8 text := by
  obtain ⟨stop, hstop, -, rfl⟩ := StopPolicy.mem_texts.mp hm
  exact h stop hstop

section Channel

variable {policy : StopPolicy} {channel : OutputChannel} {text published pending : Bytes}

theorem Buffered.nil (policy : StopPolicy) (channel : OutputChannel) :
    Buffered policy channel [] [] [] :=
  ⟨rfl, Kept.nil _⟩

theorem Buffered.utf8 (hb : Buffered policy channel text published pending) (hp : policy.Merged)
    (ht : Utf8 text) : Utf8 published ∧ Utf8 pending :=
  utf8_of_kept hb.kept (fun _ hm => (hp.utf8 hm).2) hb.eq ht

/-- More text arrives, and all but the longest start of a stop string is published. -/
theorem Buffered.append (hb : Buffered policy channel text published pending) (x : Bytes) :
    let combined := pending ++ x
    let size := combined.length - stopHoldSize combined channel policy
    Buffered policy channel (text ++ x) (published ++ combined.take size) (combined.drop size) := by
  intro combined size
  refine ⟨?_, (hb.kept.append x).kept (kept_stopHoldSize combined channel policy)⟩
  rw [List.append_assoc, List.take_append_drop, ← List.append_assoc, hb.eq]

/-- What is published of more text is a text. -/
theorem Buffered.utf8_take (hb : Buffered policy channel text published pending)
    (hp : policy.Merged) {x : Bytes} (ht : Utf8 text) (hx : Utf8 x) :
    Utf8 ((pending ++ x).take
      ((pending ++ x).length - stopHoldSize (pending ++ x) channel policy)) :=
  utf8_of_append_left (hb.utf8 hp ht).1 ((hb.append x).utf8 hp (ht.append hx)).1

/-- A stop string that is found in what is kept back and what arrives is found where it first occurs
in the text. -/
theorem Buffered.find (hb : Buffered policy channel text published pending) (hp : policy.Merged)
    {pat : Bytes} (hm : pat ∈ policy.texts channel) (hnot : ¬pat <:+: text) (x : Bytes) :
    find pat (text ++ x) = (find pat (pending ++ x)).map (published.length + ·) := by
  have hlen : text.length - pending.length = published.length := by
    rw [← hb.eq, List.length_append]
    omega
  rw [hb.kept.find_append hm (hp.utf8 hm).1 hnot x, hlen]

/-- The text up to a place in what arrives is what was published, and what is in front of it. -/
theorem Buffered.take (hb : Buffered policy channel text published pending) (x : Bytes) (i : Nat) :
    (text ++ x).take (published.length + i) = published ++ (pending ++ x).take i := by
  rw [← hb.eq, List.append_assoc, List.take_length_add_append]

/-- The place in the output where what is kept back starts. -/
theorem Buffered.combinedStart (hb : Buffered policy channel text published pending)
    {decodedBytes offset : Nat} (hd : decodedBytes = offset + text.length) :
    decodedBytes - pending.length = offset + published.length := by
  have hlen := congrArg List.length hb.eq
  rw [List.length_append] at hlen
  omega

end Channel

/-! ## Matching -/

/-- A match whose output is cut at `i` of the text of a channel. -/
structure MatchOf (prior emitted : PublishedOutput) (channel : OutputChannel) (text : Bytes)
    (offset committedTokens : Nat) (stop : StopString) (i : Nat) (found : StopMatch) : Prop where
  committed : found.committedTokens = committedTokens
  byteCut : found.byteCut = offset + i
  wellFormed : WellFormed prior found.output
  texts : ∀ c, textOf c (prior ++ found.output) =
    if c = channel then text.take i ++ if stop.includeInOutput then stop.text else []
    else textOf c (prior ++ emitted)

section Matching

variable {policy : StopPolicy} {channel : OutputChannel} {text pending x : Bytes}
  {prior emitted : PublishedOutput} {offset combinedStart : Nat}
  (hp : policy.Merged) (hw : WellFormed prior emitted) (hopen : Open channel (prior ++ emitted))
  (hb : Buffered policy channel text (textOf channel (prior ++ emitted)) pending)
  (ht : Utf8 text) (hx : Utf8 x)
  (hstart : combinedStart = offset + (textOf channel (prior ++ emitted)).length)

include hp hw hopen hb ht hx hstart

/-- The candidate of a stop string. -/
theorem candidateOutput_spec (committedTokens : Nat) {stop : StopString}
    (hm : stop ∈ policy.strings) {i : Nat}
    (hfind : find stop.text (pending ++ x) = some i) (order : Nat) :
    ∃ candidate, candidateOutput emitted channel ((pending ++ x).take i) stop = .ok candidate ∧
      MatchOf prior emitted channel (text ++ x) offset committedTokens stop
        ((textOf channel (prior ++ emitted)).length + i)
        ⟨committedTokens, combinedStart + i, order, candidate⟩ := by
  obtain ⟨hne, hstop⟩ := hp stop hm
  have hbefore : Utf8 ((pending ++ x).take i) :=
    (utf8_take_of_prefix_drop ((hb.utf8 hp ht).2.append hx) hstop hne (find_eq_some hfind).1).1
  obtain ⟨cut, hcut, hwcut, hocut, htcut⟩ := appendDelta_spec hw hopen hbefore
  have hbyte : combinedStart + i = offset + ((textOf channel (prior ++ emitted)).length + i) := by
    omega
  have htexts : ∀ c, textOf c (prior ++ cut) =
      if c = channel then (text ++ x).take ((textOf channel (prior ++ emitted)).length + i)
      else textOf c (prior ++ emitted) := by
    intro c
    rw [textOf_append, htcut c, ← List.append_assoc, ← textOf_append, hb.take]
    split_ifs with hc
    · rw [hc]
    · rw [List.append_nil]
  rw [candidateOutput, hcut]
  dsimp only
  by_cases hincl : stop.includeInOutput = true
  · obtain ⟨all, hall, hwall, -, htall⟩ := appendDelta_spec hwcut hocut hstop
    rw [if_pos hincl]
    refine ⟨all, hall, rfl, hbyte, hwall, fun c => ?_⟩
    rw [textOf_append, htall c, ← List.append_assoc, ← textOf_append, htexts c, if_pos hincl]
    split_ifs with hc
    · rfl
    · rw [List.append_nil]
  · rw [if_neg hincl]
    refine ⟨cut, rfl, rfl, hbyte, hwcut, fun c => ?_⟩
    rw [htexts c, if_neg hincl, List.append_nil]

/-- **The matching loop** finds the earliest stop string of the channel. -/
theorem matchStop_foldlM (committedTokens : Nat) (hclear : ∀ pat ∈ policy.texts channel, ¬pat <:+: text)
    {strings : List StopString} (hsub : ∀ stop ∈ strings, stop ∈ policy.strings) :
    ∃ best, strings.zipIdx.foldlM
        (matchStop channel (pending ++ x) combinedStart committedTokens emitted) none = .ok best ∧
      match earliest strings channel (text ++ x) with
      | none => best = none
      | some (stop, i) => ∃ found, best = some found ∧ found.declarationOrder < strings.length ∧
        MatchOf prior emitted channel (text ++ x) offset committedTokens stop i found := by
  induction strings using List.reverseRecOn with
  | nil => exact ⟨none, rfl, rfl⟩
  | append_singleton strings stop ih =>
    obtain ⟨best, hbest, hmatch⟩ := ih fun s hs => hsub s (List.mem_append_left _ hs)
    have hstop := hsub stop (List.mem_append_right _ (List.mem_singleton_self _))
    have hfold : (strings ++ [stop]).zipIdx.foldlM
        (matchStop channel (pending ++ x) combinedStart committedTokens emitted) none =
        matchStop channel (pending ++ x) combinedStart committedTokens emitted best
          (stop, strings.length) := by
      rw [List.zipIdx_append, List.foldlM_append, hbest, Nat.zero_add]
      exact bind_pure (m := Except Exception) _
    -- A match that was found before has a smaller declaration order.
    have hweaken : ∀ {found : StopMatch}, found.declarationOrder < strings.length →
        found.declarationOrder < (strings ++ [stop]).length := by
      intro found h
      rw [List.length_append]
      omega
    rw [hfold, earliest_snoc, matchStop]
    by_cases hc : stop.channel = channel
    · have hmem : stop.text ∈ policy.texts channel := StopPolicy.mem_texts.mpr ⟨stop, hstop, hc, rfl⟩
      rw [if_neg (not_not.mpr hc), if_pos hc, hb.find hp hmem (hclear _ hmem) x]
      cases hfind : find stop.text (pending ++ x) with
      | none =>
        refine ⟨best, rfl, ?_⟩
        dsimp only [Option.map_none]
        cases hprev : earliest strings channel (text ++ x) with
        | none => rwa [hprev] at hmatch
        | some prev =>
          rw [hprev] at hmatch
          obtain ⟨found, heq, hlt, hof⟩ := hmatch
          exact ⟨found, heq, hweaken hlt, hof⟩
      | some i =>
        obtain ⟨candidate, hcand, hof⟩ := candidateOutput_spec
          hp hw hopen hb ht hx hstart committedTokens hstop hfind strings.length
        have hlast : strings.length < (strings ++ [stop]).length := by
          rw [List.length_append]
          exact Nat.lt_succ_self _
        dsimp only [Option.map_some]
        cases hprev : earliest strings channel (text ++ x) with
        | none =>
          rw [hprev] at hmatch
          rw [hmatch, show stopMatchPrecedes _ _ _ none = true from rfl, if_neg (by decide), hcand]
          exact ⟨_, rfl, _, rfl, hlast, hof⟩
        | some prev =>
          rw [hprev] at hmatch
          obtain ⟨found, rfl, hlt, hfound⟩ := hmatch
          have hprecedes : stopMatchPrecedes committedTokens (combinedStart + i) strings.length
              (some found) =
              decide ((textOf channel (prior ++ emitted)).length + i < prev.2) := by
            rw [stopMatchPrecedes, hfound.committed, hfound.byteCut, if_neg (not_not.mpr rfl), hstart]
            split_ifs with hcut
            · exact decide_eq_decide.mpr (by omega)
            · exact decide_eq_decide.mpr (by omega)
          rw [hprecedes]
          dsimp only
          by_cases hbefore : (textOf channel (prior ++ emitted)).length + i < prev.2
          · rw [decide_eq_true hbefore, if_neg (by decide), if_pos hbefore, hcand]
            exact ⟨_, rfl, _, rfl, hlast, hof⟩
          · rw [decide_eq_false hbefore, if_pos rfl, if_neg hbefore]
            exact ⟨_, rfl, found, rfl, hweaken hlt, hfound⟩
    · rw [if_pos hc, if_neg hc]
      refine ⟨best, rfl, ?_⟩
      cases hprev : earliest strings channel (text ++ x) with
      | none => rwa [hprev] at hmatch
      | some prev =>
        rw [hprev] at hmatch
        obtain ⟨found, heq, hlt, hof⟩ := hmatch
        exact ⟨found, heq, hweaken hlt, hof⟩

end Matching

/-- A match that lies before the text stays. -/
theorem matchStop_foldlM_of_before {channel : OutputChannel} {combined : Bytes}
    {combinedStart : Nat} {emitted : PublishedOutput} {found : StopMatch}
    (h : found.byteCut < combinedStart) : ∀ declarations : List (StopString × Nat),
    declarations.foldlM (matchStop channel combined combinedStart found.committedTokens emitted)
      (some found) = .ok (some found)
  | [] => rfl
  | (stop, order) :: declarations => by
    have hstep : matchStop channel combined combinedStart found.committedTokens emitted (some found)
        (stop, order) = .ok (some found) := by
      rw [matchStop]
      split_ifs
      · rfl
      · split
        · rfl
        · next i _ =>
          refine if_pos ?_
          rw [stopMatchPrecedes, if_neg (not_not.mpr rfl), if_pos (by omega)]
          exact decide_eq_false (by omega)
    rw [List.foldlM_cons, hstep]
    exact matchStop_foldlM_of_before h declarations

/-- What `feed_channel` leaves of the buffers and of the output. -/
structure Fed (policy : StopPolicy) (prior : PublishedOutput) (channel : OutputChannel)
    (text x : Bytes) (f f' : Feeding) : Prop where
  state : f'.state =
    { f.state with
      stopPending := Function.update f.state.stopPending channel (f'.state.stopPending channel)
      decodedBytes := f.state.decodedBytes + x.length }
  buffered : Buffered policy channel (text ++ x) (textOf channel (prior ++ f'.emitted))
    (f'.state.stopPending channel)
  wellFormed : WellFormed prior f'.emitted
  opened : Open channel (prior ++ f'.emitted)
  others : ∀ c ≠ channel, textOf c (prior ++ f'.emitted) = textOf c (prior ++ f.emitted)

/-- The fields of the state that text does not change. -/
structure SameTokens (state state' : DecoderState) : Prop where
  utf8Pending : state'.utf8Pending = state.utf8Pending
  terminal : state'.terminal = state.terminal
  reasoningTokens : state'.reasoningTokens = state.reasoningTokens

section Fed

variable {policy : StopPolicy} {prior : PublishedOutput} {channel : OutputChannel} {text x : Bytes}
  {f f' : Feeding} (h : Fed policy prior channel text x f f')

include h

theorem Fed.pending_of_ne {c : OutputChannel} (hc : c ≠ channel) :
    f'.state.stopPending c = f.state.stopPending c :=
  (congrFun (congrArg DecoderState.stopPending h.state) c).trans (Function.update_of_ne hc _ _)

theorem Fed.sameTokens : SameTokens f.state f'.state where
  utf8Pending := by rw [h.state]
  terminal := by rw [h.state]
  reasoningTokens := by rw [h.state]

end Fed

section FeedChannel

variable {policy : StopPolicy} {channel : OutputChannel} {text x : Bytes}
  {prior : PublishedOutput} {f : Feeding}
  (hp : policy.Merged) (hw : WellFormed prior f.emitted) (hopen : Open channel (prior ++ f.emitted))
  (hb : Buffered policy channel text (textOf channel (prior ++ f.emitted))
    (f.state.stopPending channel))
  (ht : Utf8 text) (hx : Utf8 x)

include hp hw hopen hb ht hx

/-- What arrives goes through the buffer of its channel, whatever the matching loop returns. -/
theorem feedChannel_of_matchStops (committedTokens : Nat) (matching : Bool)
    (best : Option StopMatch)
    (hmatch : x ≠ [] → matchStops policy committedTokens matching channel
      (f.state.stopPending channel ++ x)
      (f.state.decodedBytes - (f.state.stopPending channel).length) f = .ok best)
    (hnil : x = [] → best = f.best) :
    ∃ f', feedChannel policy committedTokens matching channel x f = .ok f' ∧ f'.best = best ∧
      Fed policy prior channel text x f f' := by
  by_cases hempty : x = []
  · subst hempty
    refine ⟨f, if_pos rfl, (hnil rfl).symm, ?_, ?_, hw, hopen, fun _ _ => rfl⟩
    · rw [Function.update_eq_self]
      rfl
    · rw [List.append_nil]
      exact hb
  · obtain ⟨emitted, hemit, hwe, hoe, hte⟩ :=
      appendDelta_spec hw hopen (hb.utf8_take hp ht hx)
    rw [feedChannel, if_neg hempty]
    refine ⟨_, bind_eq_ok.mpr ⟨best, hmatch hempty,
      bind_eq_ok.mpr ⟨emitted, hemit, rfl⟩⟩, rfl, ?_, ?_, hwe, hoe, fun c hc => ?_⟩
    · dsimp only
      rw [Function.update_self]
    · dsimp only
      rw [Function.update_self, textOf_append, hte channel, if_pos rfl, ← List.append_assoc,
        ← textOf_append]
      exact hb.append x
    · rw [textOf_append, hte c, if_neg hc, List.append_nil, ← textOf_append]

/-- **`feed_channel`** finds the earliest stop string of the text of its channel, unless there is a
match before. -/
theorem feedChannel_spec (committedTokens : Nat) (matching : Bool) {offset : Nat}
    (hd : f.state.decodedBytes = offset + text.length)
    (hclear : matching = true → ∀ pat ∈ policy.texts channel, ¬pat <:+: text)
    (hbest : matching = true → ∀ found, f.best = some found →
      found.committedTokens = committedTokens ∧ found.byteCut < offset) :
    ∃ f', feedChannel policy committedTokens matching channel x f = .ok f' ∧
      Fed policy prior channel text x f f' ∧
      (matching = false ∨ f.best.isSome = true → f'.best = f.best) ∧
      (matching = true → f.best = none →
        match earliest policy.strings channel (text ++ x) with
        | none => f'.best = none
        | some (stop, i) => ∃ found, f'.best = some found ∧
          MatchOf prior f.emitted channel (text ++ x) offset committedTokens stop i found) := by
  have hstart := hb.combinedStart hd
  cases matching with
  | false =>
    obtain ⟨f', hok, heq, hfed⟩ := feedChannel_of_matchStops hp hw hopen hb ht hx committedTokens
      false f.best (fun _ => rfl) fun _ => rfl
    exact ⟨f', hok, hfed, fun _ => heq, nofun⟩
  | true =>
    cases hbefore : f.best with
    | some found =>
      obtain ⟨hcommitted, hlt⟩ := hbest rfl found hbefore
      have hfold : matchStops policy committedTokens true channel
          (f.state.stopPending channel ++ x)
          (f.state.decodedBytes - (f.state.stopPending channel).length) f = .ok (some found) := by
        rw [matchStops, if_pos rfl, hstart, hbefore, ← hcommitted]
        exact matchStop_foldlM_of_before (by omega) _
      obtain ⟨f', hok, heq, hfed⟩ := feedChannel_of_matchStops hp hw hopen hb ht hx committedTokens
        true (some found) (fun _ => hfold) fun _ => hbefore.symm
      exact ⟨f', hok, hfed, fun _ => heq, nofun⟩
    | none =>
      obtain ⟨best, hfold, hmatch⟩ := matchStop_foldlM hp hw hopen hb ht hx hstart committedTokens
        (hclear rfl) fun _ hs => hs
      have hnil : x = [] → best = f.best := by
        -- Nothing arrives, and the text before has no stop string.
        intro hnil
        have hnone : earliest policy.strings channel (text ++ x) = none := by
          refine earliest_eq_none (fun stop hs => (hp stop hs).1) fun stop hs hc => ?_
          rw [hnil, List.append_nil]
          exact hclear rfl _ (StopPolicy.mem_texts.mpr ⟨stop, hs, hc, rfl⟩)
        rw [hnone] at hmatch
        rw [hmatch, hbefore]
      obtain ⟨f', hok, rfl, hfed⟩ := feedChannel_of_matchStops hp hw hopen hb ht hx committedTokens
        true best (fun _ => by rw [matchStops, if_pos rfl, hbefore]; exact hfold) hnil
      refine ⟨f', hok, hfed, ?_, fun _ _ => ?_⟩
      · rintro (h | h)
        · exact nomatch h
        · exact nomatch h
      cases hcut : earliest policy.strings channel (text ++ x) with
      | none => rwa [hcut] at hmatch
      | some cut =>
        rw [hcut] at hmatch
        obtain ⟨found, heq, -, hof⟩ := hmatch
        exact ⟨found, heq, hof⟩

end FeedChannel

/-- `close_channel` publishes what is kept back. -/
theorem closeChannel_spec {policy : StopPolicy} {channel : OutputChannel} {text : Bytes}
    {prior : PublishedOutput} {f : Feeding} (hp : policy.Merged) (hw : WellFormed prior f.emitted)
    (hopen : Open channel (prior ++ f.emitted))
    (hb : Buffered policy channel text (textOf channel (prior ++ f.emitted))
      (f.state.stopPending channel))
    (ht : Utf8 text) :
    ∃ emitted, closeChannel channel f = .ok
        { f with
          state := { f.state with stopPending := Function.update f.state.stopPending channel [] }
          emitted := emitted } ∧
      WellFormed prior emitted ∧ Open channel (prior ++ emitted) ∧
      textOf channel (prior ++ emitted) = text ∧
      ∀ c ≠ channel, textOf c (prior ++ emitted) = textOf c (prior ++ f.emitted) := by
  obtain ⟨emitted, hemit, hwe, hoe, hte⟩ := appendDelta_spec hw hopen (hb.utf8 hp ht).2
  refine ⟨emitted, bind_eq_ok.mpr ⟨emitted, hemit, rfl⟩, hwe, hoe, ?_, fun c hc => ?_⟩
  · rw [textOf_append, hte channel, if_pos rfl, ← List.append_assoc, ← textOf_append]
    exact hb.eq
  · rw [textOf_append, hte c, if_neg hc, List.append_nil, ← textOf_append]

theorem feedContent_eq (policy : StopPolicy) (committedTokens : Nat) (matching : Bool) (x : Bytes)
    (f : Feeding) : feedContent policy committedTokens matching x f =
      feedChannel policy committedTokens matching .content
        (if f.state.stripContentLeading then x.dropWhile isSpace else x)
        { f with
          state :=
            { f.state with
              stripContentLeading :=
                f.state.stripContentLeading && (x.dropWhile isSpace).isEmpty } } := by
  obtain ⟨⟨_, _, _, _, strip, _, _, _⟩, _, _⟩ := f
  cases strip with
  | true => rfl
  | false => rfl

end Ninfer.Output
