import Ninfer.Output.Decoder

/-!
# Scanning and searching

What the functions of the decoder on byte strings compute: `valid_utf8_prefix_size` cuts a text from
an incomplete end, `longest_suffix_prefix` and `stop_hold_size` keep back what covers every start of
the strings they are asked for.

## Main definitions

* `Incomplete bytes`: fewer bytes than the lead byte announces
* `Scans bytes text rest`: a text, followed by an incomplete character

## Main results

* `validUtf8PrefixSize_eq_ok_iff`: what the scan returns
* `Scans.append`: a scan can be continued
* `kept_longestSuffixPrefix`, `kept_stopHoldSize`: what is kept back is the longest start
* `mergeStopPolicy_merged`: the stop strings of a session are texts
-/

namespace Ninfer.Output

/-! ## Bits -/

theorem and_mask (a k : Nat) : a &&& (2 ^ k - 1) = a % 2 ^ k := Nat.and_two_pow_sub_one_eq_mod a k

theorem shift_or (a b : Nat) : (a <<< 6) ||| (b &&& 0x3f) = a * 64 + b % 64 := by
  have hb : b &&& 0x3f = b % 64 := and_mask b 6
  rw [hb, ← Nat.shiftLeft_add_eq_or_of_lt (by omega : b % 64 < 2 ^ 6), Nat.shiftLeft_eq]

theorem leadByte_eq (lead : Nat) : leadByte lead =
    if lead ≤ 0x7f then some (1, lead, 0)
    else if 0xc2 ≤ lead ∧ lead ≤ 0xdf then some (2, lead % 32, 0x80)
    else if 0xe0 ≤ lead ∧ lead ≤ 0xef then some (3, lead % 16, 0x800)
    else if 0xf0 ≤ lead ∧ lead ≤ 0xf4 then some (4, lead % 8, 0x10000)
    else none := by
  have h₅ : lead &&& 0x1f = lead % 32 := and_mask lead 5
  have h₄ : lead &&& 0x0f = lead % 16 := and_mask lead 4
  have h₃ : lead &&& 0x07 = lead % 8 := and_mask lead 3
  rw [leadByte, h₅, h₄, h₃]

theorem isContinuation_iff (byte : UInt8) :
    isContinuation byte = true ↔ byte.toNat &&& 0xc0 = 0x80 := by
  have hall : ∀ n : Fin 256, (n.val / 64 == 2) = true ↔ n.val &&& 0xc0 = 0x80 := by
    decide +kernel
  exact hall ⟨byte.toNat, byte.toNat_lt⟩

theorem continuation_cons (codepoint : Nat) (byte : UInt8) (bytes : Bytes) :
    continuation codepoint (byte :: bytes) =
      if isContinuation byte = true then continuation (codepoint * 64 + byte.toNat % 64) bytes
      else .error (.invalidArgument "invalid UTF-8 continuation byte in generated token stream") := by
  rw [continuation, shift_or]
  by_cases h : isContinuation byte = true
  · rw [if_pos h, if_neg (not_not.mpr ((isContinuation_iff byte).mp h))]
  · rw [if_neg h, if_pos fun heq => h ((isContinuation_iff byte).mpr heq)]

/-! ## One sequence -/

/-- The four shapes of an encoded character. -/
inductive Encoded (c : Char) : Bytes → Prop
  | one (a : UInt8) (value : a.toNat = c.val.toNat) (le : c.val.toNat ≤ 0x7f) : Encoded c [a]
  | two (a b : UInt8) (lead : a.toNat = c.val.toNat / 64 + 0xc0)
      (second : b.toNat = c.val.toNat % 64 + 0x80) (ge : 0x80 ≤ c.val.toNat)
      (le : c.val.toNat ≤ 0x7ff) : Encoded c [a, b]
  | three (a b d : UInt8) (lead : a.toNat = c.val.toNat / 4096 + 0xe0)
      (second : b.toNat = c.val.toNat / 64 % 64 + 0x80) (third : d.toNat = c.val.toNat % 64 + 0x80)
      (ge : 0x800 ≤ c.val.toNat) (le : c.val.toNat ≤ 0xffff) : Encoded c [a, b, d]
  | four (a b d e : UInt8) (lead : a.toNat = c.val.toNat / 262144 + 0xf0)
      (second : b.toNat = c.val.toNat / 4096 % 64 + 0x80)
      (third : d.toNat = c.val.toNat / 64 % 64 + 0x80) (fourth : e.toNat = c.val.toNat % 64 + 0x80)
      (ge : 0x10000 ≤ c.val.toNat) : Encoded c [a, b, d, e]

theorem char_lt (c : Char) : c.val.toNat < 0x110000 := by
  rcases c.valid with h | h
  · exact h.trans (by decide)
  · exact h.2

theorem encoded (c : Char) : Encoded c (String.utf8EncodeChar c) := by
  have hlt := char_lt c
  unfold String.utf8EncodeChar
  dsimp only
  split_ifs with h₁ h₂ h₃
  · refine .one _ ?_ h₁
    rw [UInt8.toNat_ofNat']
    omega
  · refine .two _ _ ?_ ?_ (by omega) h₂ <;>
    · rw [UInt8.toNat_ofNat']
      omega
  · refine .three _ _ _ ?_ ?_ ?_ (by omega) h₃ <;>
    · rw [UInt8.toNat_ofNat']
      omega
  · refine .four _ _ _ _ ?_ ?_ ?_ ?_ (by omega) <;>
    · rw [UInt8.toNat_ofNat']
      omega

/-- The shape determines the bytes. -/
theorem Encoded.eq {c : Char} {bytes : Bytes} (h : Encoded c bytes) :
    bytes = String.utf8EncodeChar c := by
  have hlt := char_lt c
  have hbyte : ∀ {a : UInt8} {k : Nat}, a.toNat = k → a = UInt8.ofNat k := by
    intro a k hk
    rw [← hk, UInt8.ofNat_toNat]
  unfold String.utf8EncodeChar
  cases h with
  | one a value le => rw [if_pos le, hbyte value]
  | two a b lead second ge le =>
    rw [if_neg (by omega), if_pos le, hbyte lead, hbyte second,
      Nat.mod_eq_of_lt (a := c.val.toNat / 64) (by omega)]
  | three a b d lead second third ge le =>
    rw [if_neg (by omega), if_neg (by omega), if_pos le, hbyte lead, hbyte second, hbyte third,
      Nat.mod_eq_of_lt (a := c.val.toNat / 4096) (by omega)]
  | four a b d e lead second third fourth ge =>
    rw [if_neg (by omega), if_neg (by omega), if_neg (by omega), hbyte lead, hbyte second,
      hbyte third, hbyte fourth, Nat.mod_eq_of_lt (a := c.val.toNat / 262144) (by omega)]

/-- **A character at the start is found.** -/
theorem sequenceSize_char (c : Char) (rest : Bytes) :
    sequenceSize (String.utf8EncodeChar c ++ rest) = .ok (some (String.utf8EncodeChar c).length) := by
  have hlt := char_lt c
  have hvalid := c.valid
  have hcont : ∀ {b : UInt8} {k : Nat}, b.toNat = k % 64 + 0x80 → isContinuation b = true := by
    intro b k hb
    rw [isContinuation, beq_iff_eq]
    omega
  have hscalar : ¬(0xd800 ≤ c.val.toNat ∧ c.val.toNat ≤ 0xdfff) := by
    rcases hvalid with h | h
    · have : c.val.toNat < 0xd800 := h
      omega
    · have : 0xdfff < c.val.toNat := h.1
      omega
  generalize hbytes : String.utf8EncodeChar c = bytes
  have henc : Encoded c bytes := hbytes ▸ encoded c
  cases henc with
  | one a value le =>
    have hlead : leadByte a.toNat = some (1, a.toNat, 0) := by
      rw [leadByte_eq, if_pos (by omega)]
    simp only [List.singleton_append, sequenceSize, hlead]
    rw [if_neg (by omega), Nat.sub_self, List.take_zero, continuation]
    dsimp only
    rw [if_neg (by omega)]
    rfl
  | two a b lead second ge le =>
    have hlead : leadByte a.toNat = some (2, a.toNat % 32, 0x80) := by
      rw [leadByte_eq, if_neg (by omega), if_pos (by omega)]
    simp only [List.cons_append, List.nil_append, sequenceSize, hlead, List.length_cons]
    rw [if_neg (by omega), show (2 : Nat) - 1 = 1 from rfl, List.take_succ_cons, List.take_zero,
      continuation_cons, if_pos (hcont second), continuation]
    dsimp only
    rw [if_neg (by omega)]
    rfl
  | three a b d lead second third ge le =>
    have hlead : leadByte a.toNat = some (3, a.toNat % 16, 0x800) := by
      rw [leadByte_eq, if_neg (by omega), if_neg (by omega), if_pos (by omega)]
    simp only [List.cons_append, List.nil_append, sequenceSize, hlead, List.length_cons]
    rw [if_neg (by omega), show (3 : Nat) - 1 = 2 from rfl, List.take_succ_cons,
      List.take_succ_cons, List.take_zero, continuation_cons, if_pos (hcont second),
      continuation_cons, if_pos (hcont third), continuation]
    dsimp only
    rw [if_neg (by omega)]
    rfl
  | four a b d e lead second third fourth ge =>
    have hlead : leadByte a.toNat = some (4, a.toNat % 8, 0x10000) := by
      rw [leadByte_eq, if_neg (by omega), if_neg (by omega), if_neg (by omega), if_pos (by omega)]
    simp only [List.cons_append, List.nil_append, sequenceSize, hlead, List.length_cons]
    rw [if_neg (by omega), show (4 : Nat) - 1 = 3 from rfl, List.take_succ_cons,
      List.take_succ_cons, List.take_succ_cons, List.take_zero, continuation_cons,
      if_pos (hcont second), continuation_cons, if_pos (hcont third), continuation_cons,
      if_pos (hcont fourth), continuation]
    dsimp only
    rw [if_neg (by omega)]
    rfl

/-- **What is found is a character.** -/
theorem char_of_sequenceSize {bytes : Bytes} {n : Nat} (h : sequenceSize bytes = .ok (some n)) :
    ∃ c rest, bytes = String.utf8EncodeChar c ++ rest ∧ n = (String.utf8EncodeChar c).length := by
  cases bytes with
  | nil => cases h
  | cons a bytes =>
    have hcont : ∀ {b : UInt8}, isContinuation b = true → b.toNat = b.toNat % 64 + 0x80 := by
      intro b hb
      rw [isContinuation, beq_iff_eq] at hb
      omega
    -- A code point that passes the last test is a character, with the bytes of its shape.
    have hchar : ∀ {codepoint minimum : Nat}, ¬(codepoint < minimum ∨
        (0xd800 ≤ codepoint ∧ codepoint ≤ 0xdfff) ∨ 0x10ffff < codepoint) →
        ∃ c : Char, c.val.toNat = codepoint ∧ minimum ≤ codepoint := by
      intro codepoint minimum hok
      have hvalid : codepoint.isValidChar := by
        by_cases hlow : codepoint < 0xd800
        · exact Or.inl hlow
        · exact Or.inr ⟨by omega, by omega⟩
      obtain ⟨c, hc⟩ := exists_char hvalid
      exact ⟨c, hc, by omega⟩
    rw [sequenceSize, leadByte_eq] at h
    by_cases h₁ : a.toNat ≤ 0x7f
    · rw [if_pos h₁] at h
      dsimp only at h
      rw [if_neg (by omega), Nat.sub_self, List.take_zero, continuation] at h
      dsimp only at h
      split_ifs at h with hok
      obtain rfl := Option.some.inj (Except.ok.inj h)
      obtain ⟨c, hc, -⟩ := hchar hok
      have henc := (Encoded.one (c := c) a hc.symm (by omega)).eq
      exact ⟨c, bytes, by rw [← henc]; rfl, by rw [← henc]; rfl⟩
    rw [if_neg h₁] at h
    by_cases h₂ : 0xc2 ≤ a.toNat ∧ a.toNat ≤ 0xdf
    · rw [if_pos h₂] at h
      dsimp only at h
      rcases bytes with _ | ⟨b, bytes⟩
      · cases h
      rw [if_neg (by rw [List.length_cons]; omega), show (2 : Nat) - 1 = 1 from rfl,
        List.take_succ_cons, List.take_zero, continuation_cons] at h
      split_ifs at h with hb
      rw [continuation] at h
      dsimp only at h
      split_ifs at h with hok
      obtain rfl := Option.some.inj (Except.ok.inj h)
      obtain ⟨c, hc, hmin⟩ := hchar hok
      have := hcont hb
      have henc := (Encoded.two (c := c) a b (by omega) (by omega) (by omega) (by omega)).eq
      exact ⟨c, bytes, by rw [← henc]; rfl, by rw [← henc]; rfl⟩
    rw [if_neg h₂] at h
    by_cases h₃ : 0xe0 ≤ a.toNat ∧ a.toNat ≤ 0xef
    · rw [if_pos h₃] at h
      dsimp only at h
      rcases bytes with _ | ⟨b, _ | ⟨d, bytes⟩⟩
      · cases h
      · cases h
      rw [if_neg (by simp only [List.length_cons]; omega), show (3 : Nat) - 1 = 2 from rfl,
        List.take_succ_cons, List.take_succ_cons, List.take_zero, continuation_cons] at h
      split_ifs at h with hb
      rw [continuation_cons] at h
      split_ifs at h with hd
      rw [continuation] at h
      dsimp only at h
      split_ifs at h with hok
      obtain rfl := Option.some.inj (Except.ok.inj h)
      obtain ⟨c, hc, hmin⟩ := hchar hok
      have := hcont hb
      have := hcont hd
      have henc := (Encoded.three (c := c) a b d (by omega) (by omega) (by omega) (by omega)
        (by omega)).eq
      exact ⟨c, bytes, by rw [← henc]; rfl, by rw [← henc]; rfl⟩
    rw [if_neg h₃] at h
    by_cases h₄ : 0xf0 ≤ a.toNat ∧ a.toNat ≤ 0xf4
    · rw [if_pos h₄] at h
      dsimp only at h
      rcases bytes with _ | ⟨b, _ | ⟨d, _ | ⟨e, bytes⟩⟩⟩
      · cases h
      · cases h
      · cases h
      rw [if_neg (by simp only [List.length_cons]; omega), show (4 : Nat) - 1 = 3 from rfl,
        List.take_succ_cons, List.take_succ_cons, List.take_succ_cons, List.take_zero,
        continuation_cons] at h
      split_ifs at h with hb
      rw [continuation_cons] at h
      split_ifs at h with hd
      rw [continuation_cons] at h
      split_ifs at h with he
      rw [continuation] at h
      dsimp only at h
      split_ifs at h with hok
      obtain rfl := Option.some.inj (Except.ok.inj h)
      obtain ⟨c, hc, hmin⟩ := hchar hok
      have := hcont hb
      have := hcont hd
      have := hcont he
      have henc := (Encoded.four (c := c) a b d e (by omega) (by omega) (by omega) (by omega)
        (by omega)).eq
      exact ⟨c, bytes, by rw [← henc]; rfl, by rw [← henc]; rfl⟩
    · rw [if_neg h₄] at h
      cases h

/-! ## The scan -/

/-- A character that is not complete: fewer bytes than its lead byte announces. -/
def Incomplete (bytes : Bytes) : Prop :=
  bytes = [] ∨ ∃ lead rest length bits minimum, bytes = lead :: rest ∧
    leadByte lead.toNat = some (length, bits, minimum) ∧ bytes.length < length

theorem sequenceSize_eq_none_iff {bytes : Bytes} :
    sequenceSize bytes = .ok none ↔ Incomplete bytes := by
  cases bytes with
  | nil => exact ⟨fun _ => Or.inl rfl, fun _ => rfl⟩
  | cons lead rest =>
    constructor
    · intro h
      rw [sequenceSize] at h
      split at h
      · exact nomatch h
      · next length bits minimum hlead =>
        split_ifs at h with hshort
        · exact Or.inr ⟨lead, rest, length, bits, minimum, rfl, hlead, hshort⟩
        · split at h
          · exact nomatch h
          · split_ifs at h
            exact nomatch h
    · rintro (h | ⟨lead', rest', length, bits, minimum, heq, hlead, hshort⟩)
      · exact nomatch h
      · obtain ⟨rfl, rfl⟩ := List.cons.inj heq
        rw [sequenceSize, hlead]
        exact if_pos hshort

/-- A byte string scans: it is a text, followed by a character that is not complete. -/
structure Scans (bytes text rest : Bytes) : Prop where
  eq : bytes = text ++ rest
  text : Utf8 text
  rest : Incomplete rest

theorem length_utf8EncodeChar_pos (c : Char) : 0 < (String.utf8EncodeChar c).length := by
  obtain ⟨lead, rest, hc, -⟩ := utf8EncodeChar_bytes c
  rw [hc]
  exact Nat.succ_pos _

/-- A scan over a text goes on behind it. -/
theorem scanUtf8_append {text : Bytes} (ht : Utf8 text) : ∀ {turns : Nat} (rest : Bytes),
    (text ++ rest).length ≤ turns → ∃ turns', rest.length ≤ turns' ∧
      scanUtf8 turns (text ++ rest) =
        match scanUtf8 turns' rest with
        | .error e => .error e
        | .ok size => .ok (text.length + size) := by
  obtain ⟨chars, rfl⟩ := ht
  induction chars with
  | nil =>
    intro turns rest hle
    refine ⟨turns, hle, ?_⟩
    cases h : scanUtf8 turns rest <;> simp [h]
  | cons c chars ih =>
    intro turns rest hle
    have hpos := length_utf8EncodeChar_pos c
    rw [List.flatMap_cons, List.append_assoc] at hle ⊢
    rw [List.length_append] at hle
    obtain ⟨turns, rfl⟩ : ∃ t, turns = t + 1 := ⟨turns - 1, by omega⟩
    obtain ⟨turns', hturns, hscan⟩ := @ih turns rest (by omega)
    refine ⟨turns', hturns, ?_⟩
    rw [scanUtf8, sequenceSize_char]
    dsimp only
    rw [List.drop_left, hscan]
    cases scanUtf8 turns' rest with
    | error e => rfl
    | ok size =>
      dsimp only
      rw [List.length_append, Nat.add_assoc]

theorem scanUtf8_incomplete {rest : Bytes} (hr : Incomplete rest) (turns : Nat) :
    scanUtf8 turns rest = .ok 0 := by
  cases turns with
  | zero => rfl
  | succ turns => rw [scanUtf8, sequenceSize_eq_none_iff.mpr hr]

theorem scans_of_scanUtf8 : ∀ {turns : Nat} {bytes : Bytes} {size : Nat}, bytes.length ≤ turns →
    scanUtf8 turns bytes = .ok size → Scans bytes (bytes.take size) (bytes.drop size) ∧
      size ≤ bytes.length
  | 0, bytes, size, hle, h => by
    obtain rfl := List.length_eq_zero_iff.mp (Nat.le_zero.mp hle)
    obtain rfl := Except.ok.inj h
    exact ⟨⟨rfl, Utf8.nil, Or.inl rfl⟩, Nat.le_refl _⟩
  | turns + 1, bytes, size, hle, h => by
    rw [scanUtf8] at h
    split at h
    · exact nomatch h
    · next hnone =>
      obtain rfl := Except.ok.inj h
      exact ⟨⟨rfl, Utf8.nil, sequenceSize_eq_none_iff.mp hnone⟩, Nat.zero_le _⟩
    · next length hsome =>
      obtain ⟨c, rest, rfl, rfl⟩ := char_of_sequenceSize hsome
      have hpos := length_utf8EncodeChar_pos c
      rw [List.length_append] at hle
      rw [List.drop_left] at h
      split at h
      · exact nomatch h
      · next size' hscan =>
        obtain rfl := Except.ok.inj h
        obtain ⟨hs, hsize⟩ := scans_of_scanUtf8 (by omega) hscan
        rw [List.take_length_add_append, List.drop_length_add_append, List.length_append]
        refine ⟨⟨?_, (Utf8.char c).append hs.text, hs.rest⟩, by omega⟩
        rw [List.append_assoc, ← hs.eq]

/-- **`valid_utf8_prefix_size`** cuts a text from a character that is not complete, and throws when
the bytes are no such thing. -/
theorem validUtf8PrefixSize_eq_ok_iff {bytes : Bytes} {size : Nat} :
    validUtf8PrefixSize bytes = .ok size ↔
      ∃ text rest, Scans bytes text rest ∧ size = text.length := by
  constructor
  · intro h
    obtain ⟨hs, hle⟩ := scans_of_scanUtf8 (Nat.le_refl _) h
    exact ⟨_, _, hs, by rw [List.length_take, Nat.min_eq_left hle]⟩
  · rintro ⟨text, rest, ⟨rfl, htext, hrest⟩, rfl⟩
    obtain ⟨turns, -, hscan⟩ := scanUtf8_append htext rest (Nat.le_refl _)
    rw [validUtf8PrefixSize, hscan, scanUtf8_incomplete hrest]
    rfl

theorem Scans.size {bytes text rest : Bytes} (hs : Scans bytes text rest) :
    validUtf8PrefixSize bytes = .ok text.length :=
  validUtf8PrefixSize_eq_ok_iff.mpr ⟨text, rest, hs, rfl⟩

/-- There is only one way to scan a byte string. -/
theorem Scans.unique {bytes text rest text' rest' : Bytes} (hs : Scans bytes text rest)
    (hs' : Scans bytes text' rest') : text = text' ∧ rest = rest' := by
  have hlen : text.length = text'.length := Except.ok.inj (hs.size.symm.trans hs'.size)
  exact List.append_inj (hs.eq.symm.trans hs'.eq) hlen

section Continued

variable {bytes text rest more text' rest' : Bytes} (hs : Scans bytes text rest)

include hs

/-- **A scan is continued** with what was not complete. -/
theorem Scans.append (h : Scans (rest ++ more) text' rest') :
    Scans (bytes ++ more) (text ++ text') rest' := by
  refine ⟨?_, hs.text.append h.text, h.rest⟩
  rw [hs.eq, List.append_assoc, h.eq, List.append_assoc]

/-- A longer byte string that scans has such a continuation. -/
theorem Scans.of_append (h : Scans (bytes ++ more) text' rest') :
    ∃ text'', text' = text ++ text'' ∧ Scans (rest ++ more) text'' rest' := by
  have hsize := h.size
  rw [hs.eq, List.append_assoc, validUtf8PrefixSize] at hsize
  obtain ⟨turns, hturns, hscan⟩ := scanUtf8_append hs.text (rest ++ more) (Nat.le_refl _)
  rw [hscan] at hsize
  split at hsize
  · exact nomatch hsize
  · next size hok =>
    obtain ⟨hcont, -⟩ := scans_of_scanUtf8 hturns hok
    obtain ⟨rfl, rfl⟩ := h.unique (hs.append hcont)
    exact ⟨_, rfl, hcont⟩

end Continued

/-! ## What is kept back -/

theorem suffixPrefixFrom_spec (text marker : Bytes) (allowComplete : Bool) : ∀ size,
    size ≤ text.length → size ≤ marker.length →
    marker.take (suffixPrefixFrom text marker allowComplete size) <:+ text ∧
      suffixPrefixFrom text marker allowComplete size ≤ size ∧
      (allowComplete = false → 0 < suffixPrefixFrom text marker allowComplete size →
        suffixPrefixFrom text marker allowComplete size ≠ marker.length) ∧
      ∀ k ≤ size, k < marker.length → marker.take k <:+ text →
        k ≤ suffixPrefixFrom text marker allowComplete size
  | 0, _, _ =>
    ⟨List.nil_suffix, Nat.le_refl _, fun _ h => absurd h (Nat.lt_irrefl _), fun _ hk _ _ => hk⟩
  | size + 1, ht, hm => by
    obtain ⟨h₁, h₂, h₃, h₄⟩ :=
      suffixPrefixFrom_spec text marker allowComplete size (by omega) (by omega)
    rw [suffixPrefixFrom]
    split_ifs with hskip hsame
    · exact ⟨h₁, by omega, h₃, fun k hk hlt hsuffix => h₄ k (by omega) hlt hsuffix⟩
    · refine ⟨?_, Nat.le_refl _, fun hc _ hlen => hskip ⟨?_, hlen⟩, fun k hk _ _ => hk⟩
      · rw [← hsame]
        exact List.drop_suffix _ _
      · rw [hc]
        rfl
    · refine ⟨h₁, by omega, h₃, fun k hk hlt hsuffix => ?_⟩
      by_cases hlast : k = size + 1
      · -- A suffix of this length would have been found.
        subst hlast
        exfalso
        apply hsame
        have hlen : (marker.take (size + 1)).length = size + 1 := by
          rw [List.length_take, Nat.min_eq_left hm]
        have heq := List.suffix_iff_eq_drop.mp hsuffix
        rw [hlen] at heq
        exact heq.symm
      · exact h₄ k (by omega) hlt hsuffix

/-- `longest_suffix_prefix` returns the longest start of the marker at the end of the text. -/
theorem longestSuffixPrefix_spec (text marker : Bytes) (allowComplete : Bool) :
    marker.take (longestSuffixPrefix text marker allowComplete) <:+ text ∧
      longestSuffixPrefix text marker allowComplete ≤ text.length ∧
      longestSuffixPrefix text marker allowComplete ≤ marker.length ∧
      (allowComplete = false → 0 < longestSuffixPrefix text marker allowComplete →
        longestSuffixPrefix text marker allowComplete ≠ marker.length) ∧
      ∀ k < marker.length, marker.take k <:+ text →
        k ≤ longestSuffixPrefix text marker allowComplete := by
  obtain ⟨h₁, h₂, h₃, h₄⟩ := suffixPrefixFrom_spec text marker allowComplete
    (min text.length marker.length) (Nat.min_le_left _ _) (Nat.min_le_right _ _)
  refine ⟨h₁, h₂.trans (Nat.min_le_left _ _), h₂.trans (Nat.min_le_right _ _), h₃,
    fun k hk hsuffix => ?_⟩
  refine h₄ k ?_ hk hsuffix
  have hlen := hsuffix.length_le
  rw [List.length_take, Nat.min_eq_left hk.le] at hlen
  omega

theorem drop_eq_of_take_suffix {text marker : Bytes} {k : Nat} (hk : k ≤ marker.length)
    (h : marker.take k <:+ text) : text.drop (text.length - k) = marker.take k := by
  have heq := List.suffix_iff_eq_drop.mp h
  rw [List.length_take, Nat.min_eq_left hk] at heq
  exact heq.symm

theorem length_drop_sub {text : Bytes} {k : Nat} (hk : k ≤ text.length) :
    (text.drop (text.length - k)).length = k := by
  rw [List.length_drop]
  omega

/-- A text without the marker keeps back the longest start of it. -/
theorem kept_longestSuffixPrefix {text marker : Bytes} (h : ¬marker <:+: text) :
    Kept [marker] (text.drop (text.length - longestSuffixPrefix text marker true)) text := by
  obtain ⟨hsuffix, hle, hle', -, hmax⟩ := longestSuffixPrefix_spec text marker true
  have hlt : longestSuffixPrefix text marker true < marker.length := by
    refine Nat.lt_of_le_of_ne hle' fun heq => h ?_
    rw [heq, List.take_length] at hsuffix
    exact hsuffix.isInfix
  refine ⟨⟨List.drop_suffix _ _, fun pat hm k hk hpat => ?_⟩, fun _ => ?_⟩
  · obtain rfl := List.mem_singleton.mp hm
    rw [length_drop_sub hle]
    exact hmax k hk hpat
  · refine ⟨marker, List.mem_singleton_self _, ?_, ?_⟩
    · rw [length_drop_sub hle]
      exact hlt
    · rw [drop_eq_of_take_suffix hle' hsuffix]
      exact List.take_prefix _ _

/-- The strings of a channel. -/
def StopPolicy.texts (policy : StopPolicy) (channel : OutputChannel) : List Bytes :=
  (policy.strings.filter fun stop => stop.channel = channel).map StopString.text

theorem StopPolicy.mem_texts {policy : StopPolicy} {channel : OutputChannel} {text : Bytes} :
    text ∈ policy.texts channel ↔
      ∃ stop ∈ policy.strings, stop.channel = channel ∧ stop.text = text := by
  rw [texts, List.mem_map]
  constructor
  · rintro ⟨stop, hm, rfl⟩
    obtain ⟨hm, hc⟩ := List.mem_filter.mp hm
    exact ⟨stop, hm, of_decide_eq_true hc, rfl⟩
  · rintro ⟨stop, hm, hc, rfl⟩
    exact ⟨stop, List.mem_filter.mpr ⟨hm, decide_eq_true hc⟩, rfl⟩

/-- The loop of `stop_hold_size`: the strings it has seen reach no further than its result, and the
result is that of one of them. -/
theorem stopHold_foldl (text : Bytes) (channel : OutputChannel) :
    ∀ (strings : List StopString) (hold : Nat), hold ≤ text.length →
      let result := strings.foldl (fun hold stop => if stop.channel ≠ channel then hold
        else max hold (longestSuffixPrefix text stop.text false)) hold
      hold ≤ result ∧ result ≤ text.length ∧
        (hold < result → ∃ stop ∈ strings, stop.channel = channel ∧
          result < stop.text.length ∧ stop.text.take result <:+ text) ∧
        ∀ stop ∈ strings, stop.channel = channel →
          ∀ k < stop.text.length, stop.text.take k <:+ text → k ≤ result
  | [], hold, hle => ⟨Nat.le_refl _, hle, fun h => absurd h (Nat.lt_irrefl _), nofun⟩
  | stop :: strings, hold, hle => by
    obtain ⟨hpre, hlen, hlen', hne, hmax⟩ := longestSuffixPrefix_spec text stop.text false
    rw [List.foldl_cons]
    by_cases hc : stop.channel = channel
    · rw [if_neg (not_not.mpr hc)]
      obtain ⟨h₁, h₂, h₃, h₄⟩ := stopHold_foldl text channel strings
        (max hold (longestSuffixPrefix text stop.text false)) (Nat.max_le.mpr ⟨hle, hlen⟩)
      refine ⟨(Nat.le_max_left _ _).trans h₁, h₂, fun hlt => ?_, fun s hm hs k hk hsuffix => ?_⟩
      · -- Either a later string reaches further, or the result is that of this one.
        rcases Nat.lt_or_ge (max hold (longestSuffixPrefix text stop.text false)) _ with hlt' | hge
        · obtain ⟨s, hm, hs⟩ := h₃ hlt'
          exact ⟨s, List.mem_cons_of_mem _ hm, hs⟩
        · have hpos := Nat.lt_of_lt_of_le (Nat.zero_lt_of_lt hlt) hge
          have hres := Nat.le_antisymm hge h₁
          rw [hres] at hlt ⊢
          rw [Nat.max_eq_right (by omega)] at hpos ⊢
          exact ⟨stop, List.mem_cons_self .., hc, Nat.lt_of_le_of_ne hlen' (hne rfl hpos), hpre⟩
      · rcases List.mem_cons.mp hm with rfl | hm
        · exact (hmax k hk hsuffix).trans ((Nat.le_max_right _ _).trans h₁)
        · exact h₄ s hm hs k hk hsuffix
    · rw [if_pos hc]
      obtain ⟨h₁, h₂, h₃, h₄⟩ := stopHold_foldl text channel strings hold hle
      refine ⟨h₁, h₂, fun hlt => ?_, fun s hm hs => ?_⟩
      · obtain ⟨s, hm, hs⟩ := h₃ hlt
        exact ⟨s, List.mem_cons_of_mem _ hm, hs⟩
      · refine h₄ s ((List.mem_cons.mp hm).resolve_left fun heq => hc ?_) hs
        rw [← heq]
        exact hs

theorem stopHoldSize_le (text : Bytes) (channel : OutputChannel) (policy : StopPolicy) :
    stopHoldSize text channel policy ≤ text.length :=
  (stopHold_foldl text channel policy.strings 0 (Nat.zero_le _)).2.1

/-- **A channel keeps back the longest start of its stop strings.** -/
theorem kept_stopHoldSize (text : Bytes) (channel : OutputChannel) (policy : StopPolicy) :
    Kept (policy.texts channel) (text.drop (text.length - stopHoldSize text channel policy))
      text := by
  obtain ⟨-, hle, hstart, hmax⟩ := stopHold_foldl text channel policy.strings 0 (Nat.zero_le _)
  have hlen := length_drop_sub (stopHoldSize_le text channel policy)
  refine ⟨⟨List.drop_suffix _ _, fun pat hm k hk hpat => ?_⟩, fun hne => ?_⟩
  · obtain ⟨stop, hstop, hc, rfl⟩ := StopPolicy.mem_texts.mp hm
    rw [hlen]
    exact hmax stop hstop hc k hk hpat
  · have hpos := List.length_pos_iff.mpr hne
    rw [hlen] at hpos
    obtain ⟨stop, hm, hc, hlt, hsuffix⟩ := hstart hpos
    refine ⟨stop.text, StopPolicy.mem_texts.mpr ⟨stop, hm, hc, rfl⟩, by rw [hlen]; exact hlt, ?_⟩
    rw [stopHoldSize, drop_eq_of_take_suffix hlt.le hsuffix]
    exact List.take_prefix _ _

/-! ## Stop strings -/

theorem three_bytes (a b c : Nat) :
    ((a &&& 0xf) <<< 12 ||| (b &&& 0x3f) <<< 6 ||| (c &&& 0x3f)) =
      a % 16 * 4096 + b % 64 * 64 + c % 64 := by
  have ha : a &&& 0xf = a % 16 := and_mask a 4
  have hb : b &&& 0x3f = b % 64 := and_mask b 6
  have hc : c &&& 0x3f = c % 64 := and_mask c 6
  have hlow : (b % 64) <<< 6 ||| c % 64 = b % 64 * 64 + c % 64 := by
    rw [← Nat.shiftLeft_add_eq_or_of_lt (by omega : c % 64 < 2 ^ 6), Nat.shiftLeft_eq]
  have hhigh : (a % 16) <<< 12 ||| (b % 64 * 64 + c % 64) =
      a % 16 * 4096 + (b % 64 * 64 + c % 64) := by
    rw [← Nat.shiftLeft_add_eq_or_of_lt (by omega : b % 64 * 64 + c % 64 < 2 ^ 12),
      Nat.shiftLeft_eq]
  rw [ha, hb, hc, Nat.or_assoc, hlow, hhigh, Nat.add_assoc]

theorem char_of_utf8procIterate {bytes : Bytes} {n : Nat} (h : utf8procIterate bytes = some n) :
    ∃ c rest, bytes = String.utf8EncodeChar c ++ rest ∧ n = (String.utf8EncodeChar c).length := by
  have hcont : ∀ {b : UInt8}, isContinuation b = true → b.toNat = b.toNat % 64 + 0x80 := by
    intro b hb
    rw [isContinuation, beq_iff_eq] at hb
    omega
  cases bytes with
  | nil => cases h
  | cons a bytes =>
    unfold utf8procIterate at h
    dsimp only at h
    split_ifs at h with h₁ h₂ h₃ h₄
    · obtain rfl := Option.some.inj h
      obtain ⟨c, hc⟩ := exists_char (n := a.toNat) (Or.inl (h₁.trans (by decide)))
      have henc := (Encoded.one (c := c) a hc.symm (by omega)).eq
      exact ⟨c, bytes, by rw [← henc]; rfl, by rw [← henc]; rfl⟩
    · split at h
      · next b bytes =>
        split_ifs at h with hb
        obtain rfl := Option.some.inj h
        have := hcont hb
        have hlt : a.toNat % 32 * 64 + b.toNat % 64 < 0xd800 := by omega
        obtain ⟨c, hc⟩ := exists_char (Or.inl hlt)
        have henc := (Encoded.two (c := c) a b (by omega) (by omega) (by omega) (by omega)).eq
        exact ⟨c, bytes, by rw [← henc]; rfl, by rw [← henc]; rfl⟩
      · cases h
    · split at h
      · next b d bytes =>
        rw [three_bytes] at h
        split_ifs at h with hbad
        obtain rfl := Option.some.inj h
        simp only [not_or, Bool.not_eq_false, not_and, Nat.not_lt] at hbad
        obtain ⟨hb, hd, hsurrogate, hmin⟩ := hbad
        have := hcont hb
        have := hcont hd
        have hvalid : (a.toNat % 16 * 4096 + b.toNat % 64 * 64 + d.toNat % 64).isValidChar := by
          by_cases hed : a.toNat = 0xed
          · have := hsurrogate hed
            exact Or.inl (by omega)
          · by_cases hlow : a.toNat % 16 * 4096 + b.toNat % 64 * 64 + d.toNat % 64 < 0xd800
            · exact Or.inl hlow
            · exact Or.inr ⟨by omega, by omega⟩
        obtain ⟨c, hc⟩ := exists_char hvalid
        have henc := (Encoded.three (c := c) a b d (by omega) (by omega) (by omega) (by omega)
          (by omega)).eq
        exact ⟨c, bytes, by rw [← henc]; rfl, by rw [← henc]; rfl⟩
      · cases h
    · split at h
      · next b d e bytes =>
        split_ifs at h with hbad
        obtain rfl := Option.some.inj h
        simp only [not_or, Bool.not_eq_false, not_and, Nat.not_lt] at hbad
        obtain ⟨hb, hd, he, hlow, hhigh⟩ := hbad
        have := hcont hb
        have := hcont hd
        have := hcont he
        have hvalid : (a.toNat % 8 * 262144 + b.toNat % 64 * 4096 + d.toNat % 64 * 64 +
            e.toNat % 64).isValidChar :=
          Or.inr ⟨by omega, by omega⟩
        obtain ⟨c, hc⟩ := exists_char hvalid
        have henc := (Encoded.four (c := c) a b d e (by omega) (by omega) (by omega) (by omega)
          (by omega)).eq
        exact ⟨c, bytes, by rw [← henc]; rfl, by rw [← henc]; rfl⟩
      · cases h

theorem utf8_of_checkUtf8 {context : String} : ∀ {turns : Nat} {bytes : Bytes},
    bytes.length ≤ turns → checkUtf8 context turns bytes = .ok () → Utf8 bytes
  | _, [], _, _ => Utf8.nil
  | turns + 1, a :: bytes, hle, h => by
    rw [checkUtf8] at h
    · split at h
      · exact nomatch h
      · next length hsome =>
        obtain ⟨c, rest, heq, rfl⟩ := char_of_utf8procIterate hsome
        have hpos := length_utf8EncodeChar_pos c
        rw [heq] at h hle ⊢
        rw [List.drop_left] at h
        rw [List.length_append] at hle
        exact (Utf8.char c).append (utf8_of_checkUtf8 (by omega) h)
    · exact nofun

/-- A stop policy that `merge_stop_policy` can return: its strings are texts, and not empty. -/
def StopPolicy.Merged (policy : StopPolicy) : Prop :=
  ∀ stop ∈ policy.strings, stop.text ≠ [] ∧ Utf8 stop.text

/-- **The strings of a merged policy are texts.** -/
theorem mergeStopPolicy_merged {tokenizer : Tokenizer} {caller policy : StopPolicy}
    (h : mergeStopPolicy tokenizer caller = .ok policy) : policy.Merged := by
  have hfold : ∀ (strings merged : List StopString) {result : List StopString},
      (∀ stop ∈ merged, stop.text ≠ [] ∧ Utf8 stop.text) →
      strings.foldlM appendStopString merged = .ok result →
      ∀ stop ∈ result, stop.text ≠ [] ∧ Utf8 stop.text := by
    intro strings
    induction strings with
    | nil =>
      intro merged result hm hok
      obtain rfl := Except.ok.inj hok
      exact hm
    | cons stop strings ih =>
      intro merged result hm hok
      rw [List.foldlM_cons] at hok
      obtain ⟨merged', happend, hrest⟩ := bind_eq_ok.mp hok
      refine ih merged' ?_ hrest
      rw [appendStopString] at happend
      by_cases hempty : stop.text = []
      · rw [if_pos hempty] at happend
        exact nomatch happend
      · rw [if_neg hempty] at happend
        split at happend
        · exact nomatch happend
        · next hcheck =>
          obtain rfl := Except.ok.inj happend
          intro s hs
          split_ifs at hs
          · exact hm s hs
          · rcases List.mem_append.mp hs with hs | hs
            · exact hm s hs
            · obtain rfl := List.mem_singleton.mp hs
              exact ⟨hempty, utf8_of_checkUtf8 (Nat.le_refl _) hcheck⟩
  unfold mergeStopPolicy at h
  obtain ⟨tokens, -, h⟩ := bind_eq_ok.mp h
  obtain ⟨strings, hstrings, h⟩ := bind_eq_ok.mp h
  obtain rfl := Except.ok.inj h
  exact hfold caller.strings [] nofun hstrings

end Ninfer.Output
