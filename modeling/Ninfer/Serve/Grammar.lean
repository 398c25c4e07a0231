import Ninfer.Serve.ToolCalls
import Ninfer.Output.Reference

/-!
# The grammar of a tool call

What the pieces of the grammar find in a text, and what they find in a text that a piece was put
into. A text is parsed without an exception: the names, keys and values of its calls are cut out of
it at ASCII bytes, and so they are texts again, which `dump` accepts.

## Main results

* `tagName_eq_some`, `cutAt_eq_some`: what is found in a text
* `tagName_append`, `cutAt_append`: a tag that was put into a text is found there
* `decodeUtf8_of_utf8`: a text has characters
* `parse_of_utf8`: the parser returns on every text
-/

namespace Ninfer.Serve

open Output (Bytes isSpace utf8_of_append_left utf8_dropWhile_isSpace)
open Chat (lit trimAsciiWhitespace ToolCall)

/-! ## White space -/

theorem rtrimAscii_isPrefixOf (text : Bytes) : rtrimAscii text <+: text := List.rdropWhile_prefix _ _

theorem rtrimAscii_rtrimAscii (text : Bytes) : rtrimAscii (rtrimAscii text) = rtrimAscii text :=
  List.rdropWhile_idempotent _ _

/-- Behind a text that does not end in whitespace, only the rest is trimmed. -/
theorem rtrimAscii_append {u : Bytes} (hu : rtrimAscii u = u) (v : Bytes) :
    rtrimAscii (u ++ v) = u ++ rtrimAscii v := by
  unfold rtrimAscii List.rdropWhile at hu ⊢
  rw [List.reverse_append, List.dropWhile_append]
  split_ifs with hv
  · rw [hu, List.isEmpty_iff.mp hv, List.reverse_nil, List.append_nil]
  · rw [List.reverse_append, List.reverse_reverse]

/-! ## Tags -/

variable {opening closing text name rest u v : Bytes}

/-- A tag and its name, at the start of a text. -/
theorem tagName_eq_some (h : tagName opening text = some (name, rest)) :
    text = opening ++ (name ++ 0x3e :: rest) := by
  unfold tagName at h
  split_ifs at h with hopen
  obtain ⟨named, rfl⟩ := List.isPrefixOf_iff_prefix.mp (Bool.not_eq_false _ ▸ hopen)
  dsimp only at h
  rw [List.drop_left] at h
  split at h
  · cases h
  · next nameEnd hfind =>
    split_ifs at h with hzero
    obtain ⟨rfl, rfl⟩ := Prod.mk.inj (Option.some.inj h)
    obtain ⟨⟨w, hw⟩, -⟩ := find_eq_some hfind
    rw [← List.drop_drop, ← hw]
    conv_lhs => rw [← List.take_append_drop nameEnd named, ← hw]
    rfl

theorem tagName_append (opening : Bytes) (hname : name ≠ []) (hgt : (0x3e : UInt8) ∉ name)
    (rest : Bytes) : tagName opening (opening ++ (name ++ 0x3e :: rest)) = some (name, rest) := by
  have hfind : find [0x3e] (name ++ 0x3e :: rest) = some name.length :=
    find_append_pattern List.not_mem_nil (fun h => hgt (h.subset (List.mem_singleton_self _))) rest
  unfold tagName
  rw [if_neg (by
    rw [Bool.not_eq_false]
    exact List.isPrefixOf_iff_prefix.mpr (List.prefix_append _ _))]
  dsimp only
  rw [List.drop_left, hfind]
  dsimp only
  rw [if_neg (fun h => hname (List.length_eq_zero_iff.mp h)), List.take_left, ← List.drop_drop,
    List.drop_left]
  rfl

/-- The text before a closing tag, and the rest behind it. -/
theorem cutAt_eq_some (h : cutAt closing text = some (u, v)) : text = u ++ (closing ++ v) := by
  obtain ⟨i, hi, heq⟩ := Option.map_eq_some_iff.mp h
  obtain ⟨rfl, rfl⟩ := Prod.mk.inj heq
  obtain ⟨⟨w, hw⟩, -⟩ := find_eq_some hi
  rw [← List.drop_drop, ← hw, List.drop_left]
  conv_lhs => rw [← List.take_append_drop i text, ← hw]

theorem cutAt_append {c : UInt8} {tail : Bytes} (hc : c ∉ tail) (hu : ¬c :: tail <:+: u)
    (v : Bytes) : cutAt (c :: tail) (u ++ (c :: tail ++ v)) = some (u, v) := by
  unfold cutAt
  rw [find_append_pattern hc hu, Option.map_some, List.take_left, ← List.drop_drop, List.drop_left,
    List.drop_left]

/-! ## Characters -/

/-- The bytes of a text are decoded to it. -/
theorem decodeUtf8_utf8 (value : String) : decodeUtf8 (utf8 value.toList) = some value := by
  have hbytes : (utf8 value.toList).toByteArray = value.toByteArray := String.utf8Encode_toList
  have hvalid : value.toByteArray.IsValidUTF8 := value.isValidUTF8
  unfold decodeUtf8 String.fromUTF8?
  rw [hbytes, dif_pos hvalid]
  rfl

theorem decodeUtf8_of_utf8 (h : Utf8 u) : ∃ value, decodeUtf8 u = some value := by
  obtain ⟨chars, rfl⟩ := h
  refine ⟨String.ofList chars, ?_⟩
  rw [← decodeUtf8_utf8, String.toList_ofList]
  rfl

/-! ## Texts are cut into texts -/

/-- An ASCII byte starts a character. -/
theorem boundary_cons {byte : UInt8} (h : byte.toNat < 128) (rest : Bytes) :
    Boundary (byte :: rest) := by
  intro b hb
  obtain rfl := Option.some.inj hb
  rw [isContinuation, beq_eq_false_iff_ne]
  omega

theorem isSpace_lt {byte : UInt8} (h : isSpace byte = true) : byte.toNat < 128 := by
  rw [isSpace, Bool.or_eq_true, Bool.and_eq_true, beq_iff_eq, decide_eq_true_iff,
    decide_eq_true_iff] at h
  omega

theorem utf8_skipWs (h : Utf8 text) : Utf8 (skipWs text) := utf8_dropWhile_isSpace h

theorem utf8_trim (h : Utf8 text) : Utf8 (trimAsciiWhitespace text) := by
  have hdrop := utf8_dropWhile_isSpace h
  rw [← List.rdropWhile_append_rtakeWhile (p := isSpace) (l := text.dropWhile isSpace)] at hdrop
  refine (hdrop.split ?_).1
  -- What was trimmed is white space.
  intro byte hb
  have hspace := List.mem_rtakeWhile_imp (List.mem_of_mem_head? hb)
  exact boundary_cons (isSpace_lt hspace) [] byte rfl

theorem utf8_tagName (ho : Utf8 opening) (ht : Utf8 text)
    (h : tagName opening text = some (name, rest)) : Utf8 name ∧ Utf8 rest := by
  rw [tagName_eq_some h] at ht
  obtain ⟨hname, hrest⟩ := (utf8_of_append_left ho ht).split (boundary_cons (by decide) rest)
  exact ⟨hname, utf8_of_append_left (u := [0x3e]) (Utf8.of_ascii (by simp)) hrest⟩

theorem utf8_cutAt {c : UInt8} {tail : Bytes} (hc : c.toNat < 128) (htail : Utf8 (c :: tail))
    (ht : Utf8 text) (h : cutAt (c :: tail) text = some (u, v)) : Utf8 u ∧ Utf8 v := by
  rw [cutAt_eq_some h] at ht
  obtain ⟨hu, hv⟩ := ht.split (boundary_cons hc (tail ++ v))
  exact ⟨hu, utf8_of_append_left htail hv⟩

/-! ## Arguments -/

/-- The arguments of a call whose keys and values are texts. -/
def Arguments.Texts (args : Arguments) : Prop :=
  ∀ member ∈ args, Utf8 member.1 ∧ ∀ raw, member.2 = .text raw → Utf8 raw

theorem texts_assign {key : Bytes} {value : Argument} (hkey : Utf8 key)
    (hvalue : ∀ raw, value = .text raw → Utf8 raw) {args : Arguments} (h : Arguments.Texts args) :
    Arguments.Texts (assign key value args) := by
  induction args with
  | nil =>
    intro member hm
    obtain rfl := List.mem_singleton.mp hm
    exact ⟨hkey, hvalue⟩
  | cons first args ih =>
    obtain ⟨hfirst, hargs⟩ := List.forall_mem_cons.mp h
    unfold assign
    split_ifs
    · exact List.forall_mem_cons.mpr ⟨⟨hkey, hvalue⟩, hargs⟩
    · exact List.forall_mem_cons.mpr ⟨hfirst, ih hargs⟩

/-- **Texts are dumped.** -/
theorem dumpArguments_of_texts {args : Arguments} (h : Arguments.Texts args) :
    ∃ text, dumpArguments args = .ok text := by
  have hmembers : ∃ members, args.mapM memberDocument = some members := by
    induction args with
    | nil => exact ⟨[], rfl⟩
    | cons first args ih =>
      obtain ⟨⟨hkey, hvalue⟩, hargs⟩ := List.forall_mem_cons.mp h
      obtain ⟨key, hdecode⟩ := decodeUtf8_of_utf8 hkey
      obtain ⟨members, hmembers⟩ := ih hargs
      have hdocument : ∃ value, first.2.document = some value := by
        cases hfirst : first.2 with
        | json value => exact ⟨value, rfl⟩
        | text raw =>
          obtain ⟨value, hraw⟩ := decodeUtf8_of_utf8 (hvalue raw hfirst)
          exact ⟨.str value, by rw [Argument.document, hraw, Option.map_some]⟩
      obtain ⟨value, hdocument⟩ := hdocument
      exact ⟨(key, value) :: members, by simp [memberDocument, hdecode, hdocument, hmembers]⟩
  obtain ⟨members, hmembers⟩ := hmembers
  unfold dumpArguments
  rw [hmembers]
  exact ⟨_, rfl⟩

/-! ## Every text is parsed -/

section Parsing

variable {parse : Bytes → Except Exception Json}

theorem texts_parseParameter {inner : Bytes} {args args' : Arguments} (hi : Utf8 inner)
    (ha : Arguments.Texts args) (h : parseParameter parse inner args = some (args', rest)) :
    Arguments.Texts args' ∧ Utf8 rest := by
  obtain ⟨⟨key, inner'⟩, htag, h⟩ := Option.bind_eq_some_iff.mp h
  obtain ⟨⟨value, rest'⟩, hcut, h⟩ := Option.bind_eq_some_iff.mp h
  obtain ⟨rfl, rfl⟩ := Prod.mk.inj (Option.some.inj h)
  obtain ⟨hkey, hinner⟩ := utf8_tagName ⟨_, rfl⟩ hi htag
  obtain ⟨hvalue, hrest⟩ := utf8_cutAt (by decide) ⟨"</parameter>".toList, rfl⟩ hinner hcut
  refine ⟨texts_assign hkey (fun raw hraw => ?_) ha, hrest⟩
  unfold argumentOf at hraw
  split at hraw
  · exact nomatch hraw
  · obtain rfl := Argument.text.inj hraw
    exact utf8_trim hvalue

theorem texts_parseParameters {turns : Nat} {params : Bytes} {args args' : Arguments}
    (hp : Utf8 params) (ha : Arguments.Texts args)
    (h : parseParameters parse turns params args = some args') : Arguments.Texts args' := by
  induction turns generalizing params args with
  | zero => exact nomatch h
  | succ turns ih =>
    unfold parseParameters at h
    dsimp only at h
    split_ifs at h
    · obtain rfl := Option.some.inj h
      exact ha
    · split at h
      · exact nomatch h
      · next args₁ params₁ hone =>
        obtain ⟨hargs, hparams⟩ := texts_parseParameter (utf8_skipWs hp) ha hone
        exact ih hparams hargs h

theorem texts_parseOneToolCall {block : Bytes} {maxNameLength : Nat} {args : Arguments}
    (hb : Utf8 block) (h : parseOneToolCall parse block maxNameLength = some (name, args)) :
    Arguments.Texts args := by
  obtain ⟨⟨name', block₁⟩, htag, h⟩ := Option.bind_eq_some_iff.mp h
  obtain ⟨-, -, h⟩ := Option.bind_eq_some_iff.mp h
  obtain ⟨⟨params, block₂⟩, hcut, h⟩ := Option.bind_eq_some_iff.mp h
  obtain ⟨args', hparams, h⟩ := Option.bind_eq_some_iff.mp h
  obtain ⟨-, -, h⟩ := Option.bind_eq_some_iff.mp h
  obtain ⟨-, rfl⟩ := Prod.mk.inj (Option.some.inj h)
  obtain ⟨-, hblock⟩ := utf8_tagName ⟨_, rfl⟩ (utf8_skipWs hb) htag
  obtain ⟨hp, -⟩ := utf8_cutAt (by decide) ⟨"</function>".toList, rfl⟩ hblock hcut
  exact texts_parseParameters hp (List.forall_mem_nil _) hparams

theorem parseCalls_of_utf8 (newToolCallId : Nat → Bytes) (maxNameLength turns : Nat) {text : Bytes}
    (calls : List ToolCall) (h : Utf8 text) :
    ∃ out, parseCalls parse newToolCallId maxNameLength turns text calls = .ok out := by
  induction turns generalizing text calls with
  | zero => exact ⟨none, rfl⟩
  | succ turns ih =>
    unfold parseCalls
    dsimp only
    split_ifs with hnil hopen
    · exact ⟨_, rfl⟩
    · exact ⟨_, rfl⟩
    · split
      · exact ⟨_, rfl⟩
      · next block text' hcut =>
        obtain ⟨w, hw⟩ := List.isPrefixOf_iff_prefix.mp (Bool.not_eq_false _ ▸ hopen)
        have hdrop : Utf8 ((skipWs text).drop kToolOpen.length) := by
          have hskip := utf8_skipWs h
          rw [← hw] at hskip ⊢
          rw [List.drop_left]
          exact utf8_of_append_left ⟨_, rfl⟩ hskip
        obtain ⟨hblock, htext⟩ := utf8_cutAt (by decide) ⟨"</tool_call>".toList, rfl⟩ hdrop hcut
        split
        · exact ⟨_, rfl⟩
        · next name args hone =>
          obtain ⟨argumentsJson, hdump⟩ :=
            dumpArguments_of_texts (texts_parseOneToolCall hblock hone)
          rw [hdump]
          exact ih _ htext

/-- **The parser returns on every text.** -/
theorem parse_of_utf8 (parse : Bytes → Except Exception Json) (newToolCallId : Nat → Bytes)
    (maxToolNameLength : Nat) {text : Bytes} (h : Utf8 text) :
    ∃ parsed, parseQwenToolCallOutput parse newToolCallId text maxToolNameLength = .ok parsed := by
  unfold parseQwenToolCallOutput
  split
  · exact ⟨_, rfl⟩
  · next first hfind =>
    have hdrop : Utf8 (text.drop first) := by
      obtain ⟨⟨w, hw⟩, -⟩ := find_eq_some hfind
      rw [← List.take_append_drop first text, ← hw] at h
      rw [← hw]
      exact (h.split (boundary_cons (by decide) _)).2
    obtain ⟨out, hcalls⟩ := parseCalls_of_utf8 newToolCallId maxToolNameLength (text.length + 1) []
      hdrop
    rw [hcalls]
    dsimp only [bind, Except.bind]
    split <;> exact ⟨_, rfl⟩

end Parsing

end Ninfer.Serve
