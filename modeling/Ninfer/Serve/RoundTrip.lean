import Ninfer.Serve.Grammar

/-!
# Rendered tool calls are parsed back

The chat template prints the calls of an assistant turn behind its text, and the parser of generated
text reads such calls. They are two grammars of one markup: what is printed is cut at the first
closing tag, trimmed, and parsed as JSON where that is possible. A call survives when nothing in it
looks like a closing tag, and no text in it like JSON.

## Main definitions

* `Renderable parse maxNameLength call members`: a call that can be printed
* `printedCalls`: the calls of an assistant turn, as they stand behind its text
* `SameCall`: calls with equal names and JSON-equal arguments

## Main results

* `parseParameters_rendered`, `parseOneToolCall_rendered`, `parseCalls_rendered`
* `parse_printedCalls`: what is printed is parsed back
-/

namespace Ninfer.Serve

open Output (Bytes isSpace)
open Chat (ToolCall ChatTemplateSemantics ChatMessage ChatRenderOptions Rendering lit
  trimAsciiWhitespace parameterText tojsonText renderParameter renderToolCall renderToolCalls
  renderAssistant assistantParts)

/-! ## What is printed -/

/-- The calls of an assistant turn, as `render` prints them behind its text. -/
def printedCalls (parse : Bytes → Except Exception Json) (semantics : ChatTemplateSemantics)
    (text : Bytes) (calls : List ToolCall) : Except Exception Bytes :=
  renderToolCalls parse semantics.effort
    (if trimAsciiWhitespace text ≠ [] then lit "\n\n" else []) calls

/-- A call that can be printed: a valid name, and as its arguments an object whose keys are
distinct, not empty and without `>`. A string in it is not itself a document and has no white space
around it, and no value in it contains a closing tag. `dump` and `parse` are inverse on its
documents. -/
structure Renderable (parse : Bytes → Except Exception Json) (maxNameLength : Nat)
    (call : ToolCall) (members : List (String × Json)) : Prop where
  name : validFunctionName call.name maxNameLength = true
  arguments : call.argumentsJson ≠ []
  parsed : parse call.argumentsJson = .ok (.obj members)
  distinct : (members.map Prod.fst).Nodup
  key_ne_nil : ∀ member ∈ members, utf8 member.1.toList ≠ []
  key : ∀ member ∈ members, (0x3e : UInt8) ∉ utf8 member.1.toList
  string : ∀ key value, (key, .str value) ∈ members →
    ∀ document, parse (utf8 value.toList) ≠ .ok document
  document : ∀ member ∈ members, (∀ value, member.2 ≠ .str value) →
    parse (tojsonText member.2) = .ok member.2
  trimmed : ∀ member ∈ members,
    trimAsciiWhitespace (parameterText member.2) = parameterText member.2
  closing : ∀ member ∈ members, ∀ tag ∈ [kParamClose, kFunctionClose, kToolClose],
    ¬tag <:+: parameterText member.2
  dumped : parse (utf8 ((Json.obj members).sorted.dumps [','] [':'])) =
    .ok (Json.obj members).sorted

/-- Calls with equal names and JSON-equal arguments. -/
def SameCall (parse : Bytes → Except Exception Json) (call' call : ToolCall) : Prop :=
  call'.name = call.name ∧ ∃ value' value, parse call'.argumentsJson = .ok value' ∧
    parse call.argumentsJson = .ok value ∧ value'.Equal value

/-- No key ends in a closing tag without its `>`, which the end of the parameter's tag would
complete. -/
def KeysClosed (members : List (String × Json)) : Prop :=
  ∀ member ∈ members, ¬lit "</function" <:+ utf8 member.1.toList ∧
    ¬lit "</tool_call" <:+ utf8 member.1.toList

/-! ## Closing tags in what is printed -/

/-- A tag that ends in an item the text in front does not have: without it, it is an end of that
text. -/
theorem suffix_of_infix_concat {a : UInt8} {body w : Bytes} (hw : a ∉ w)
    (h : body ++ [a] <:+: w ++ [a]) : body <:+ w := by
  obtain ⟨s, t, h⟩ := h
  cases List.eq_nil_or_concat t with
  | inl ht =>
    rw [ht, List.append_nil, ← List.append_assoc] at h
    exact ⟨s, List.append_cancel_right h⟩
  | inr ht =>
    obtain ⟨t, b, rfl⟩ := ht
    -- The item would occur in front of the last place.
    have hconcat : s ++ (body ++ [a]) ++ t ++ [b] = w ++ [a] := by
      rw [← h]
      simp
    have hfront : s ++ (body ++ [a]) ++ t = w := List.append_inj_left' hconcat rfl
    exact absurd (by rw [← hfront]; simp) hw

/-- An end of a text does not reach across an item it does not have. -/
theorem suffix_of_append_cons {a : UInt8} {body u v : Bytes} (ha : a ∉ body)
    (h : body <:+ u ++ a :: v) : body <:+ v := by
  rcases List.suffix_or_suffix_of_suffix h (List.suffix_append u (a :: v)) with hs | hs
  · rcases List.suffix_cons_iff.mp hs with heq | hs
    · exact absurd (heq ▸ List.mem_cons_self) ha
    · exact hs
  · exact absurd (hs.subset List.mem_cons_self) ha

variable {parse : Bytes → Except Exception Json} {maxNameLength : Nat} {call : ToolCall}
  {members : List (String × Json)}

theorem renderParameter_eq (member : String × Json) :
    renderParameter member = (kParamOpen ++ (utf8 member.1.toList ++ [0x3e])) ++ 0x0a ::
      (parameterText member.2 ++ 0x0a :: (kParamClose ++ 0x0a :: [])) := by
  unfold renderParameter
  have hopen : lit "<parameter=" = kParamOpen := rfl
  have hgt : lit ">\n" = [0x3e, 0x0a] := by decide
  have hclose : lit "\n</parameter>\n" = 0x0a :: (kParamClose ++ [0x0a]) := by decide
  rw [hopen, hgt, hclose]
  simp

/-- No closing tag of a call occurs in a printed parameter. -/
theorem not_infix_renderParameter {body : Bytes} {member : String × Json} {rest : Bytes}
    (hbody : (0x3d : UInt8) ∉ body ∧ (0x0a : UInt8) ∉ body ++ [0x3e])
    (hopen : ¬body ++ [0x3e] <:+: kParamClose) (hempty : ¬body ++ [0x3e] <:+: rest)
    (hkey : (0x3e : UInt8) ∉ utf8 member.1.toList) (hend : ¬body <:+ utf8 member.1.toList)
    (hvalue : ¬body ++ [0x3e] <:+: parameterText member.2) :
    ¬body ++ [0x3e] <:+: renderParameter member ++ rest := by
  have hassoc : renderParameter member ++ rest =
      (kParamOpen ++ (utf8 member.1.toList ++ [0x3e])) ++ 0x0a ::
        (parameterText member.2 ++ 0x0a :: (kParamClose ++ 0x0a :: rest)) := by
    rw [renderParameter_eq]
    simp
  rw [hassoc, infix_append_cons_iff hbody.2, infix_append_cons_iff hbody.2,
    infix_append_cons_iff hbody.2]
  rintro (h | h | h | h)
  · -- The tag would end where the tag of the parameter does.
    rw [← List.append_assoc] at h
    have hsuffix := suffix_of_infix_concat (by
      rw [List.mem_append, not_or]
      exact ⟨by decide, hkey⟩) h
    have heq : kParamOpen = lit "<parameter" ++ [0x3d] := by decide
    rw [heq, List.append_assoc, List.singleton_append] at hsuffix
    exact hend (suffix_of_append_cons hbody.1 hsuffix)
  · exact hvalue h
  · exact hopen h
  · exact hempty h

/-- No closing tag of a call occurs in its printed parameters, or in what follows them. -/
theorem not_infix_parameters {body rest : Bytes}
    (hbody : (0x3d : UInt8) ∉ body ∧ (0x0a : UInt8) ∉ body ++ [0x3e])
    (hopen : ¬body ++ [0x3e] <:+: kParamClose) (hempty : ¬body ++ [0x3e] <:+: rest)
    (hmembers : ∀ member ∈ members, (0x3e : UInt8) ∉ utf8 member.1.toList ∧
      ¬body <:+ utf8 member.1.toList ∧ ¬body ++ [0x3e] <:+: parameterText member.2) :
    ¬body ++ [0x3e] <:+: members.flatMap renderParameter ++ rest := by
  induction members with
  | nil => exact hempty
  | cons member members ih =>
    obtain ⟨⟨hkey, hend, hvalue⟩, hrest⟩ := List.forall_mem_cons.mp hmembers
    rw [List.flatMap_cons, List.append_assoc]
    exact not_infix_renderParameter hbody hopen (ih hrest) hkey hend hvalue

theorem kFunctionClose_eq : kFunctionClose = lit "</function" ++ [0x3e] := by decide

theorem kToolClose_eq : kToolClose = lit "</tool_call" ++ [0x3e] := by decide

namespace Renderable

theorem not_infix_kFunctionClose (h : Renderable parse maxNameLength call members)
    (hkeys : KeysClosed members) : ¬kFunctionClose <:+: members.flatMap renderParameter := by
  rw [← List.append_nil (members.flatMap renderParameter), kFunctionClose_eq]
  refine not_infix_parameters (by decide) (by decide) (by decide) fun member hm => ?_
  refine ⟨h.key member hm, (hkeys member hm).1, ?_⟩
  rw [← kFunctionClose_eq]
  exact h.closing member hm _ (by simp)

theorem not_infix_kToolClose (h : Renderable parse maxNameLength call members)
    (hkeys : KeysClosed members) :
    ¬kToolClose <:+: members.flatMap renderParameter ++ (kFunctionClose ++ [0x0a]) := by
  rw [kToolClose_eq]
  refine not_infix_parameters (by decide) (by decide) (by decide) fun member hm => ?_
  refine ⟨h.key member hm, (hkeys member hm).2, ?_⟩
  rw [← kToolClose_eq]
  exact h.closing member hm _ (by simp)

/-- A valid name has neither `<` nor `>` nor white space. -/
theorem name_bytes (h : Renderable parse maxNameLength call members) :
    call.name ≠ [] ∧ (0x3e : UInt8) ∉ call.name ∧ (0x3c : UInt8) ∉ call.name := by
  have hname := h.name
  unfold validFunctionName at hname
  rw [Bool.and_eq_true, Bool.and_eq_true, List.all_eq_true] at hname
  obtain ⟨⟨hne, -⟩, hall⟩ := hname
  refine ⟨of_decide_eq_true hne, fun hm => ?_, fun hm => ?_⟩
  · exact absurd (hall _ hm) (by decide)
  · exact absurd (hall _ hm) (by decide)

end Renderable

/-! ## Parameters -/

theorem skipWs_cons {byte : UInt8} (h : isSpace byte = true) (rest : Bytes) :
    skipWs (byte :: rest) = skipWs rest := List.dropWhile_cons_of_pos h

theorem skipWs_of_not {byte : UInt8} (h : ¬isSpace byte = true) (rest : Bytes) :
    skipWs (byte :: rest) = byte :: rest := List.dropWhile_cons_of_neg h

/-- White space around a text that has none around it is trimmed away. -/
theorem trim_newlines {text : Bytes} (h : trimAsciiWhitespace text = text) :
    trimAsciiWhitespace (0x0a :: (text ++ [0x0a])) = text := by
  unfold trimAsciiWhitespace at h ⊢
  rw [List.dropWhile_cons_of_pos (by decide)]
  cases text with
  | nil => decide
  | cons byte text =>
    have hstart : ¬isSpace byte = true := by
      intro hspace
      have hlen := congrArg List.length h
      have hle := (List.rdropWhile_prefix isSpace
        ((byte :: text).dropWhile isSpace)).length_le
      rw [List.dropWhile_cons_of_pos hspace] at hlen hle
      have hle' := (List.dropWhile_suffix isSpace (l := text)).length_le
      rw [List.length_cons] at hlen
      omega
    rw [List.cons_append, List.dropWhile_cons_of_neg hstart, ← List.cons_append,
      List.rdropWhile_concat_pos _ _ _ (by decide)]
    rw [List.dropWhile_cons_of_neg hstart] at h
    exact h

/-- The value of a printed parameter, as the parser holds it. -/
def argument : Json → Argument
  | .str value => .text (utf8 value.toList)
  | value => .json value

theorem argumentOf_parameterText (h : Renderable parse maxNameLength call members)
    {member : String × Json} (hm : member ∈ members) :
    argumentOf parse (parameterText member.2) = argument member.2 := by
  obtain ⟨key, value⟩ := member
  by_cases hstr : ∃ text, value = .str text
  · obtain ⟨text, rfl⟩ := hstr
    have hno := h.string key text hm
    simp only [parameterText, argumentOf, argument]
    cases hparse : parse (utf8 text.toList) with
    | ok document => exact absurd hparse (hno document)
    | error e => rfl
  · have hdocument := h.document _ hm (fun text htext => hstr ⟨text, htext⟩)
    have htext : parameterText value = tojsonText value := by
      cases value with
      | str text => exact absurd ⟨text, rfl⟩ hstr
      | _ => rfl
    simp only [htext, argumentOf] at hdocument ⊢
    rw [hdocument]
    cases value with
    | str text => exact absurd ⟨text, rfl⟩ hstr
    | _ => rfl

theorem argument_document (value : Json) : (argument value).document = some value := by
  cases value with
  | str text => simp only [argument, Argument.document, decodeUtf8_utf8, Option.map_some]
  | _ => rfl

/-- A member of the arguments, as the parser holds it. -/
def memberArgument (member : String × Json) : Bytes × Argument :=
  (utf8 member.1.toList, argument member.2)

theorem assign_of_not_mem {key : Bytes} {value : Argument} {args : Arguments}
    (h : key ∉ args.map Prod.fst) : assign key value args = args ++ [(key, value)] := by
  induction args with
  | nil => rfl
  | cons first args ih =>
    rw [List.map_cons, List.mem_cons, not_or] at h
    rw [assign, if_neg (Ne.symm h.1), ih h.2, List.cons_append]

theorem utf8_injective {a b : String} (h : utf8 a.toList = utf8 b.toList) : a = b := by
  have hdecode := congrArg decodeUtf8 h
  rw [decodeUtf8_utf8, decodeUtf8_utf8] at hdecode
  exact Option.some.inj hdecode

/-- One printed parameter is parsed. -/
theorem parseParameter_rendered (h : Renderable parse maxNameLength call members)
    {member : String × Json} (hm : member ∈ members) (args : Arguments) (rest : Bytes) :
    parseParameter parse (renderParameter member ++ rest) args =
      some (assign (utf8 member.1.toList) (argument member.2) args, 0x0a :: rest) := by
  have hshape : renderParameter member ++ rest = kParamOpen ++ (utf8 member.1.toList ++ 0x3e ::
      (0x0a :: (parameterText member.2 ++ [0x0a]) ++ (kParamClose ++ 0x0a :: rest))) := by
    rw [renderParameter_eq]
    simp
  have hclose : kParamClose = 0x3c :: kParamClose.tail := by decide
  -- The value is cut at the closing tag that was printed behind it.
  have hvalue : ¬kParamClose <:+: 0x0a :: (parameterText member.2 ++ [0x0a]) := by
    rw [← List.nil_append (0x0a :: _), infix_append_cons_iff (by decide),
      infix_append_cons_iff (by decide)]
    rintro (hnil | hvalue | hnil)
    · exact absurd (List.infix_nil.mp hnil) (by decide)
    · exact h.closing member hm _ (by simp) hvalue
    · exact absurd (List.infix_nil.mp hnil) (by decide)
  have hcut : cutAt kParamClose (0x0a :: (parameterText member.2 ++ [0x0a]) ++
      (kParamClose ++ 0x0a :: rest)) =
      some (0x0a :: (parameterText member.2 ++ [0x0a]), 0x0a :: rest) := by
    rw [hclose] at hvalue ⊢
    exact cutAt_append (by decide) hvalue _
  unfold parseParameter
  rw [hshape, tagName_append kParamOpen (h.key_ne_nil member hm) (h.key member hm)]
  dsimp only [bind, Option.bind]
  rw [hcut]
  dsimp only [pure]
  rw [trim_newlines (h.trimmed member hm), argumentOf_parameterText h hm]

/-- **The printed parameters are parsed.** -/
theorem parseParameters_rendered (h : Renderable parse maxNameLength call members)
    {done todo : List (String × Json)} (hsplit : members = done ++ todo) {turns : Nat}
    (hturns : todo.length < turns) :
    parseParameters parse turns (0x0a :: todo.flatMap renderParameter) (done.map memberArgument) =
      some (members.map memberArgument) := by
  induction todo generalizing done turns with
  | nil =>
    obtain ⟨turns, rfl⟩ := Nat.exists_eq_succ_of_ne_zero (Nat.ne_of_gt (Nat.zero_lt_of_lt hturns))
    rw [hsplit, List.append_nil]
    rfl
  | cons member todo ih =>
    obtain ⟨turns, rfl⟩ := Nat.exists_eq_succ_of_ne_zero (Nat.ne_of_gt (Nat.zero_lt_of_lt hturns))
    have hm : member ∈ members := by
      rw [hsplit]
      exact List.mem_append_right _ List.mem_cons_self
    have hopen : kParamOpen = 0x3c :: kParamOpen.tail := by decide
    have hskip : skipWs (0x0a :: (member :: todo).flatMap renderParameter) =
        renderParameter member ++ todo.flatMap renderParameter := by
      rw [List.flatMap_cons, skipWs_cons (by decide), renderParameter_eq, hopen]
      exact skipWs_of_not (by decide) _
    have hne : renderParameter member ++ todo.flatMap renderParameter ≠ [] := by
      rw [renderParameter_eq, hopen]
      exact List.cons_ne_nil _ _
    -- The key of a later parameter is not one of an earlier one.
    have hfresh : utf8 member.1.toList ∉ (done.map memberArgument).map Prod.fst := by
      rw [List.map_map]
      intro hkey
      obtain ⟨other, hother, hsame⟩ := List.mem_map.mp hkey
      have hdistinct := h.distinct
      rw [hsplit, List.map_append, List.map_cons] at hdistinct
      have hdisjoint := (List.nodup_append.mp hdistinct).2.2
      refine hdisjoint _ (List.mem_map_of_mem hother) _ List.mem_cons_self ?_
      exact utf8_injective hsame
    unfold parseParameters
    dsimp only
    rw [hskip, if_neg hne, parseParameter_rendered h hm, assign_of_not_mem hfresh]
    dsimp only
    have hdone : done.map memberArgument ++ [(utf8 member.1.toList, argument member.2)] =
        (done ++ [member]).map memberArgument := by
      rw [List.map_append]
      rfl
    rw [hdone]
    refine ih ?_ (by rw [List.length_cons] at hturns; omega)
    rw [hsplit, List.append_assoc]
    rfl

/-- Every parameter is printed with at least one byte. -/
theorem length_le_flatMap_renderParameter (members : List (String × Json)) :
    members.length ≤ (members.flatMap renderParameter).length := by
  induction members with
  | nil => exact Nat.zero_le _
  | cons member members ih =>
    rw [List.flatMap_cons, List.length_append, renderParameter_eq, List.length_append,
      List.length_cons, List.length_cons]
    omega

theorem dumpArguments_rendered (members : List (String × Json)) :
    dumpArguments (members.map memberArgument) =
      .ok (utf8 ((Json.obj members).sorted.dumps [','] [':'])) := by
  have hmembers : (members.map memberArgument).mapM memberDocument = some members := by
    induction members with
    | nil => rfl
    | cons member members ih =>
      simp [memberDocument, memberArgument, decodeUtf8_utf8, argument_document] at ih ⊢
      rw [ih]
      rfl
  unfold dumpArguments
  rw [hmembers]

/-! ## Calls -/

/-- The text between the tags of a call. -/
def callBlock (name : Bytes) (members : List (String × Json)) : Bytes :=
  0x0a :: (kFunctionOpen ++ (name ++ 0x3e :: (0x0a :: members.flatMap renderParameter ++
    (kFunctionClose ++ [0x0a]))))

theorem renderToolCall_eq (h : Renderable parse maxNameLength call members)
    (allowEmptyArguments : Bool) : renderToolCall parse allowEmptyArguments call =
      .ok (kToolOpen ++ (callBlock call.name members ++ kToolClose)) := by
  unfold renderToolCall
  rw [if_neg (fun hempty => h.arguments hempty.2), h.parsed]
  dsimp only [bind, Except.bind]
  have hopen : lit "<tool_call>\n<function=" = kToolOpen ++ 0x0a :: kFunctionOpen := by decide
  have hgt : lit ">\n" = [0x3e, 0x0a] := by decide
  have hclose : lit "</function>\n</tool_call>" = kFunctionClose ++ 0x0a :: kToolClose := by decide
  rw [hopen, hgt, hclose]
  simp [callBlock]

/-- **A printed call is parsed.** -/
theorem parseOneToolCall_rendered (h : Renderable parse maxNameLength call members)
    (hkeys : KeysClosed members) :
    parseOneToolCall parse (callBlock call.name members) maxNameLength =
      some (call.name, members.map memberArgument) := by
  obtain ⟨hne, hgt, -⟩ := h.name_bytes
  have hopen : kFunctionOpen = 0x3c :: kFunctionOpen.tail := by decide
  have hclose : kFunctionClose = 0x3c :: kFunctionClose.tail := by decide
  have hskip : skipWs (callBlock call.name members) = kFunctionOpen ++ (call.name ++ 0x3e ::
      (0x0a :: members.flatMap renderParameter ++ (kFunctionClose ++ [0x0a]))) := by
    unfold callBlock
    rw [skipWs_cons (by decide), hopen]
    exact skipWs_of_not (by decide) _
  have hparams : ¬kFunctionClose <:+: 0x0a :: members.flatMap renderParameter := by
    rw [← List.nil_append (0x0a :: _), infix_append_cons_iff (by decide)]
    rintro (hnil | hparams)
    · exact absurd (List.infix_nil.mp hnil) (by decide)
    · exact h.not_infix_kFunctionClose hkeys hparams
  have hcut : cutAt kFunctionClose (0x0a :: members.flatMap renderParameter ++
      (kFunctionClose ++ [0x0a])) = some (0x0a :: members.flatMap renderParameter, [0x0a]) := by
    rw [hclose] at hparams ⊢
    exact cutAt_append (by decide) hparams _
  have hturns : members.length < (0x0a :: members.flatMap renderParameter).length + 1 := by
    have hle := length_le_flatMap_renderParameter members
    rw [List.length_cons]
    omega
  have hall := parseParameters_rendered h (List.nil_append members).symm hturns
  unfold parseOneToolCall
  rw [hskip, tagName_append kFunctionOpen hne hgt]
  dsimp only [bind, Option.bind]
  rw [hcut]
  dsimp only
  rw [List.map_nil] at hall
  rw [hall, h.name]
  rfl

/-- No closing tag occurs between the tags of a call. -/
theorem not_infix_callBlock (h : Renderable parse maxNameLength call members)
    (hkeys : KeysClosed members) : ¬kToolClose <:+: callBlock call.name members := by
  obtain ⟨-, hgt, hlt⟩ := h.name_bytes
  have hshape : callBlock call.name members = [] ++ 0x0a ::
      ((kFunctionOpen ++ call.name ++ [0x3e]) ++ 0x0a :: (members.flatMap renderParameter ++
        (kFunctionClose ++ [0x0a]))) := by
    unfold callBlock
    simp
  rw [hshape, infix_append_cons_iff (by decide), infix_append_cons_iff (by decide)]
  rintro (hnil | hname | hrest)
  · exact absurd (List.infix_nil.mp hnil) (by decide)
  · -- A name has no `<`.
    rw [kToolClose_eq] at hname
    have hsuffix := suffix_of_infix_concat (by
      rw [List.mem_append, not_or]
      exact ⟨by decide, hgt⟩) hname
    have heq : kFunctionOpen = lit "<function" ++ [0x3d] := by decide
    rw [heq, List.append_assoc, List.singleton_append] at hsuffix
    exact hlt ((suffix_of_append_cons (by decide) hsuffix).subset (by decide))
  · exact h.not_infix_kToolClose hkeys hrest

/-- **The printed calls are parsed.** -/
theorem parseCalls_rendered (newToolCallId : Nat → Bytes) (effort : Bool) {calls : List ToolCall}
    (hcalls : ∀ call ∈ calls, ∃ members, Renderable parse maxNameLength call members ∧
      KeysClosed members) (separator : Bytes) (hsep : ∀ byte ∈ separator, isSpace byte = true)
    (done : List ToolCall) :
    ∃ rendered out, renderToolCalls parse effort separator calls = .ok rendered ∧
      List.Forall₂ (SameCall parse) out calls ∧ calls.length ≤ rendered.length ∧
      ∀ turns, calls.length < turns →
        parseCalls parse newToolCallId maxNameLength turns rendered done =
          .ok (some (done ++ out)) := by
  induction calls generalizing separator done with
  | nil =>
    refine ⟨[], [], rfl, .nil, Nat.le_refl _, fun turns hturns => ?_⟩
    obtain ⟨turns, rfl⟩ := Nat.exists_eq_succ_of_ne_zero (Nat.ne_of_gt (Nat.zero_lt_of_lt hturns))
    rw [List.append_nil]
    rfl
  | cons call calls ih =>
    obtain ⟨⟨members, hcall, hkeys⟩, hrest⟩ := List.forall_mem_cons.mp hcalls
    set argumentsJson := utf8 ((Json.obj members).sorted.dumps [','] [':']) with hjson
    set call' : ToolCall := ⟨newToolCallId done.length, call.name, argumentsJson⟩ with hcall'
    obtain ⟨rendered, out, hrender, hsame, hlen, hparse⟩ :=
      ih hrest (lit "\n") (fun byte hb => by rw [List.mem_singleton.mp hb]; rfl) (done ++ [call'])
    set text := kToolOpen ++ (callBlock call.name members ++ kToolClose) with htext
    refine ⟨separator ++ text ++ rendered, call' :: out, ?_, ?_, ?_, fun turns hturns => ?_⟩
    · rw [renderToolCalls, renderToolCall_eq hcall]
      dsimp only [bind, Except.bind]
      rw [hrender]
    · exact .cons ⟨rfl, _, _, hcall.dumped, hcall.parsed, Json.equal_sorted _⟩ hsame
    · have hpos : 0 < text.length := by
        rw [htext, List.length_append]
        have : 0 < kToolOpen.length := by decide
        omega
      rw [List.length_append, List.length_append, List.length_cons]
      omega
    · obtain ⟨turns, rfl⟩ :=
        Nat.exists_eq_succ_of_ne_zero (Nat.ne_of_gt (Nat.zero_lt_of_lt hturns))
      have hopen : kToolOpen = 0x3c :: kToolOpen.tail := by decide
      have hclose : kToolClose = 0x3c :: kToolClose.tail := by decide
      -- The separator is blank: the parser is at the marker of the call.
      have hskip : skipWs (separator ++ text ++ rendered) =
          kToolOpen ++ (callBlock call.name members ++ (kToolClose ++ rendered)) := by
        have hdrop : skipWs separator = [] := List.dropWhile_eq_nil_iff.mpr hsep
        have hstay : skipWs (text ++ rendered) = text ++ rendered := by
          rw [htext, hopen]
          exact skipWs_of_not (by decide) _
        unfold skipWs at hdrop hstay ⊢
        rw [List.append_assoc, List.dropWhile_append, hdrop, List.isEmpty_nil, if_pos rfl, hstay,
          htext]
        simp only [List.append_assoc]
      have hne : kToolOpen ++ (callBlock call.name members ++ (kToolClose ++ rendered)) ≠ [] := by
        rw [hopen]
        exact List.cons_ne_nil _ _
      -- Nothing inside the call reads as the closing marker.
      have hcut : cutAt kToolClose (callBlock call.name members ++ (kToolClose ++ rendered)) =
          some (callBlock call.name members, rendered) := by
        have hno := not_infix_callBlock hcall hkeys
        rw [hclose] at hno ⊢
        exact cutAt_append (by decide) hno _
      unfold parseCalls
      dsimp only
      rw [hskip, if_neg hne, if_neg (by
        rw [Bool.not_eq_false]
        exact List.isPrefixOf_iff_prefix.mpr (List.prefix_append _ _)), List.drop_left, hcut]
      dsimp only
      rw [parseOneToolCall_rendered hcall hkeys]
      dsimp only
      rw [dumpArguments_rendered]
      dsimp only [bind, Except.bind]
      rw [List.length_cons] at hturns
      rw [hparse turns (by omega), List.append_assoc, List.singleton_append]

/-- Calls are printed behind their separator, the first one with its marker. -/
theorem renderToolCalls_separator (effort : Bool) {calls : List ToolCall} {rendered : Bytes}
    (hne : calls ≠ []) (hcalls : ∀ call ∈ calls, ∃ members,
      Renderable parse maxNameLength call members ∧ KeysClosed members)
    (h : renderToolCalls parse effort [] calls = .ok rendered) :
    kToolOpen <+: rendered ∧
      ∀ separator, renderToolCalls parse effort separator calls = .ok (separator ++ rendered) := by
  cases calls with
  | nil => exact absurd rfl hne
  | cons call calls =>
    obtain ⟨members, hcall, -⟩ := hcalls call List.mem_cons_self
    unfold renderToolCalls at h
    rw [renderToolCall_eq hcall] at h
    obtain ⟨_, htext, h⟩ := bind_eq_ok.mp h
    obtain rfl := Except.ok.inj htext
    obtain ⟨rest, hrest, h⟩ := bind_eq_ok.mp h
    obtain rfl := Except.ok.inj h
    refine ⟨⟨callBlock call.name members ++ kToolClose ++ rest, by simp⟩, fun separator => ?_⟩
    unfold renderToolCalls
    rw [renderToolCall_eq hcall]
    dsimp only [bind, Except.bind]
    rw [hrest]
    simp

/-- Separators do not complete a marker. -/
theorem not_infix_separator {text separator : Bytes} (h : ¬kToolOpen <:+: text)
    (hsep : separator = lit "\n\n" ∨ separator = []) : ¬kToolOpen <:+: text ++ separator := by
  rcases hsep with rfl | rfl
  · have heq : lit "\n\n" = [0x0a, 0x0a] := by decide
    rw [heq, infix_append_cons_iff (by decide)]
    rintro (htext | hline)
    · exact h htext
    · exact absurd hline (by decide)
  · rw [List.append_nil]
    exact h

/-- **Rendered tool calls are parsed back.** A text without a marker and without white space at its
end, with the calls that the chat template prints behind it, is parsed to that text and those calls:
the same names in the same order, with JSON-equal arguments. -/
theorem parse_printedCalls (parse : Bytes → Except Exception Json) (newToolCallId : Nat → Bytes)
    (maxToolNameLength : Nat) (semantics : ChatTemplateSemantics) (text : Bytes)
    (calls : List ToolCall) (hmarker : ¬kToolOpen <:+: text) (htrim : rtrimAscii text = text)
    (hne : calls ≠ [])
    (hcalls : ∀ call ∈ calls, ∃ members, Renderable parse maxToolNameLength call members ∧
      KeysClosed members) :
    ∃ rendered parsed, printedCalls parse semantics text calls = .ok rendered ∧
      parseQwenToolCallOutput parse newToolCallId (text ++ rendered) maxToolNameLength =
        .ok parsed ∧
      parsed.isToolCallResponse = true ∧ parsed.content = text ∧
      List.Forall₂ (SameCall parse) parsed.toolCalls calls := by
  obtain ⟨rendered, out, hrender, hsame, hlen, hparse⟩ :=
    parseCalls_rendered newToolCallId semantics.effort hcalls [] (List.forall_mem_nil _) []
  obtain ⟨hopen, hprint⟩ := renderToolCalls_separator semantics.effort hne hcalls hrender
  set separator : Bytes := if trimAsciiWhitespace text ≠ [] then lit "\n\n" else [] with hseparator
  have hsep : separator = lit "\n\n" ∨ separator = [] := by
    rw [hseparator]
    split_ifs
    · exact .inl rfl
    · exact .inr rfl
  have hspace : rtrimAscii separator = [] := by
    rcases hsep with h | h <;> rw [h] <;> decide
  -- The first marker is the one of the first call.
  have hfind : find kToolOpen (text ++ (separator ++ rendered)) =
      some (text ++ separator).length := by
    obtain ⟨rest, hrest⟩ := hopen
    have hcons : kToolOpen = 0x3c :: kToolOpen.tail := by decide
    have hno := not_infix_separator hmarker hsep
    rw [← List.append_assoc, ← hrest]
    rw [hcons] at hno ⊢
    exact find_append_pattern (by decide) hno _
  have hturns : calls.length < (text ++ (separator ++ rendered)).length + 1 := by
    simp only [List.length_append]
    omega
  refine ⟨separator ++ rendered, ⟨true, text, out⟩, hprint separator, ?_, rfl, rfl, hsame⟩
  unfold parseQwenToolCallOutput
  rw [hfind]
  dsimp only
  rw [← List.append_assoc, List.drop_left, List.take_left, List.append_assoc,
    hparse _ hturns, List.nil_append]
  dsimp only [bind, Except.bind]
  cases out with
  | nil =>
    cases hsame
    exact absurd rfl hne
  | cons first out =>
    dsimp only
    rw [rtrimAscii_append htrim, hspace, List.append_nil]

/-- A parser that knows two documents: `{"city":"Paris","days":2}` and `2`. -/
def forecastParse (text : Bytes) : Except Exception Json :=
  if text = lit "\x7b\"city\":\"Paris\",\"days\":2\x7d" then
    .ok (.obj [("city", .str "Paris"), ("days", .int 2)])
  else if text = lit "2" then .ok (.int 2)
  else .error (.invalidArgument "parse error")

/-- A call with a text and a number. -/
def forecastCall : ToolCall where
  id := lit "call_1"
  name := lit "forecast"
  argumentsJson := lit "\x7b\"city\":\"Paris\",\"days\":2\x7d"

theorem renderable_forecastCall :
    Renderable forecastParse 64 forecastCall [("city", .str "Paris"), ("days", .int 2)] where
  name := by decide +kernel
  arguments := by decide +kernel
  parsed := rfl
  distinct := by decide
  key_ne_nil := List.forall_mem_cons.mpr ⟨by decide, List.forall_mem_singleton.mpr (by decide)⟩
  key := List.forall_mem_cons.mpr ⟨by decide, List.forall_mem_singleton.mpr (by decide)⟩
  string := by
    intro key value hm document hparse
    rcases List.mem_cons.mp hm with heq | hm
    · obtain rfl := Json.str.inj (Prod.mk.inj heq).2
      exact nomatch (show (.error (.invalidArgument "parse error") : Except Exception Json) =
        .ok document from hparse)
    · exact nomatch (Prod.mk.inj (List.mem_singleton.mp hm)).2
  document := List.forall_mem_cons.mpr ⟨fun h => absurd rfl (h "Paris"),
    List.forall_mem_singleton.mpr fun _ => rfl⟩
  trimmed := List.forall_mem_cons.mpr ⟨by decide, List.forall_mem_singleton.mpr (by decide)⟩
  closing := List.forall_mem_cons.mpr ⟨by decide, List.forall_mem_singleton.mpr (by decide)⟩
  dumped := rfl

/-- Calls are parsed back behind a text. -/
theorem parse_printedCalls_forecast : ∃ rendered parsed,
    printedCalls forecastParse .thinkingToggle (lit "Let me see.") [forecastCall] = .ok rendered ∧
      parseQwenToolCallOutput forecastParse (fun _ => lit "call_2") (lit "Let me see." ++ rendered)
        64 = .ok parsed ∧
      parsed.isToolCallResponse = true ∧ parsed.content = lit "Let me see." ∧
      List.Forall₂ (SameCall forecastParse) parsed.toolCalls [forecastCall] :=
  parse_printedCalls forecastParse (fun _ => lit "call_2") 64 .thinkingToggle (lit "Let me see.")
    [forecastCall] (by decide) (by decide) (List.cons_ne_nil _ _)
    (List.forall_mem_singleton.mpr ⟨_, renderable_forecastCall, by
      refine List.forall_mem_cons.mpr ⟨?_, List.forall_mem_singleton.mpr ?_⟩ <;> decide⟩)

/-! ## A key that closes the call -/

/-- A parser that knows two documents: `{"</tool_call":2}` and `2`. -/
def closingKeyParse (text : Bytes) : Except Exception Json :=
  if text = lit "\x7b\"</tool_call\":2\x7d" then .ok (.obj [("</tool_call", .int 2)])
  else if text = lit "2" then .ok (.int 2)
  else .error (.invalidArgument "parse error")

/-- A call whose key ends like a closing tag. -/
def closingKeyCall : ToolCall where
  id := lit "call_1"
  name := lit "f"
  argumentsJson := lit "\x7b\"</tool_call\":2\x7d"

/-- The tag `<parameter=</tool_call>` closes the call, and what is printed is parsed as a text. -/
theorem printedCalls_closingKey :
    Renderable closingKeyParse 64 closingKeyCall [("</tool_call", .int 2)] ∧
      ¬kToolOpen <:+: [] ∧ rtrimAscii [] = [] ∧
      ∃ rendered, printedCalls closingKeyParse .thinkingToggle [] [closingKeyCall] = .ok rendered ∧
        parseQwenToolCallOutput closingKeyParse (fun _ => []) rendered 64 =
          .ok { isToolCallResponse := false, content := rendered, toolCalls := [] } := by
  refine ⟨?_, by decide, by decide, _, rfl, by decide +kernel⟩
  exact {
    name := by decide +kernel
    arguments := by decide +kernel
    parsed := rfl
    distinct := by decide
    key_ne_nil := List.forall_mem_singleton.mpr (by decide)
    key := List.forall_mem_singleton.mpr (by decide)
    string := fun key value hm => nomatch (Prod.mk.inj (List.mem_singleton.mp hm)).2
    document := List.forall_mem_singleton.mpr fun _ => rfl
    trimmed := List.forall_mem_singleton.mpr (by decide)
    closing := List.forall_mem_singleton.mpr (by decide)
    dumped := rfl }

end Ninfer.Serve
