import Ninfer.Commons.Json
import Ninfer.Commons.Utf8
import Ninfer.Tokenizer.Words
import Ninfer.Output.Scanning

/-!
# The code points of a text

`utf8_codepoints` reads the characters of a text one by one, and finds each of them at the place
where its encoding starts.

## Main definitions

* `spansOf offset chars`: the characters of a text, with their places
* `points`, `encodePoints`: characters as code points, and the text of code points

## Main results

* `utf8procIterate_char`, `codepoint_char`: one character
* `utf8Codepoints_utf8`: a text
* `spanEndOffset_spansOf`, `drop_spansOf`: places in a text
-/

namespace Ninfer.Tokenizer

open Output (Bytes Encoded encoded char_lt and_mask three_bytes utf8procIterate
  length_utf8EncodeChar_pos)

/-! ## One character -/

theorem four_bytes (a b c d : Nat) :
    ((a &&& 0x7) <<< 18 ||| (b &&& 0x3f) <<< 12 ||| (c &&& 0x3f) <<< 6 ||| (d &&& 0x3f)) =
      a % 8 * 262144 + b % 64 * 4096 + c % 64 * 64 + d % 64 := by
  have ha : a &&& 0x7 = a % 8 := and_mask a 3
  have hb : b &&& 0x3f = b % 64 := and_mask b 6
  have hc : c &&& 0x3f = c % 64 := and_mask c 6
  have hd : d &&& 0x3f = d % 64 := and_mask d 6
  have hlow : (c % 64) <<< 6 ||| d % 64 = c % 64 * 64 + d % 64 := by
    rw [← Nat.shiftLeft_add_eq_or_of_lt (by omega : d % 64 < 2 ^ 6), Nat.shiftLeft_eq]
  have hmiddle : (b % 64) <<< 12 ||| (c % 64 * 64 + d % 64) =
      b % 64 * 4096 + (c % 64 * 64 + d % 64) := by
    rw [← Nat.shiftLeft_add_eq_or_of_lt (by omega : c % 64 * 64 + d % 64 < 2 ^ 12),
      Nat.shiftLeft_eq]
  have hhigh : (a % 8) <<< 18 ||| (b % 64 * 4096 + (c % 64 * 64 + d % 64)) =
      a % 8 * 262144 + (b % 64 * 4096 + (c % 64 * 64 + d % 64)) := by
    rw [← Nat.shiftLeft_add_eq_or_of_lt
      (by omega : b % 64 * 4096 + (c % 64 * 64 + d % 64) < 2 ^ 18), Nat.shiftLeft_eq]
  rw [ha, hb, hc, hd, Nat.or_assoc, Nat.or_assoc, hlow, hmiddle, hhigh]
  omega

theorem not_surrogate (c : Char) : ¬(0xd800 ≤ c.val.toNat ∧ c.val.toNat ≤ 0xdfff) := by
  rcases c.valid with h | h
  · change c.val.toNat < 0xd800 at h
    omega
  · have := h.1
    change 0xdfff < c.val.toNat at this
    omega

/-- **A character at the start is read.** -/
theorem utf8procIterate_char (c : Char) (rest : Bytes) :
    utf8procIterate (String.utf8EncodeChar c ++ rest) = some (String.utf8EncodeChar c).length := by
  have hlt := char_lt c
  have hscalar := not_surrogate c
  have hcont : ∀ {b : UInt8} {k : Nat}, b.toNat = k % 64 + 0x80 → isContinuation b = true := by
    intro b k hb
    rw [isContinuation, beq_iff_eq]
    omega
  have h := encoded c
  generalize String.utf8EncodeChar c = bytes at h ⊢
  cases h with
  | one a value le =>
    unfold utf8procIterate
    dsimp only [List.cons_append, List.nil_append]
    rw [if_pos (by omega)]
    rfl
  | two a b lead second ge le =>
    unfold utf8procIterate
    dsimp only [List.cons_append, List.nil_append]
    rw [if_neg (by omega), if_neg (by omega), if_pos (by omega), if_pos (hcont second)]
    rfl
  | three a b d lead second third ge le =>
    unfold utf8procIterate
    dsimp only [List.cons_append, List.nil_append]
    rw [if_neg (by omega), if_neg (by omega), if_neg (by omega), if_pos (by omega), three_bytes,
      hcont second, hcont third, if_neg (by
        simp only [Bool.true_eq_false, false_or, not_or, not_and, Nat.not_lt]
        constructor
        · intro hed
          omega
        · omega)]
    rfl
  | four a b d e lead second third fourth ge =>
    unfold utf8procIterate
    dsimp only [List.cons_append, List.nil_append]
    rw [if_neg (by omega), if_neg (by omega), if_neg (by omega), if_neg (by omega), hcont second,
      hcont third, hcont fourth, if_neg (by
        simp only [Bool.true_eq_false, false_or, not_or, not_and, Nat.not_lt]
        constructor
        · intro hed
          omega
        · intro hed
          omega)]
    rfl

theorem codepoint_char (c : Char) : codepoint (String.utf8EncodeChar c) = c.val.toNat := by
  have hlt := char_lt c
  have h := encoded c
  generalize String.utf8EncodeChar c = bytes at h ⊢
  cases h with
  | one a value le => exact value
  | two a b lead second ge le =>
    have ha : a.toNat &&& 0x1f = a.toNat % 32 := and_mask a.toNat 5
    have hb : b.toNat &&& 0x3f = b.toNat % 64 := and_mask b.toNat 6
    rw [codepoint, ha, hb, ← Nat.shiftLeft_add_eq_or_of_lt (by omega : b.toNat % 64 < 2 ^ 6),
      Nat.shiftLeft_eq]
    omega
  | three a b d lead second third ge le =>
    rw [codepoint, three_bytes]
    omega
  | four a b d e lead second third fourth ge =>
    rw [codepoint, four_bytes]
    omega

/-- An ASCII character is one byte, and any other starts with a byte that is not ASCII. -/
theorem utf8EncodeChar_lead (c : Char) :
    (c.val.toNat < 128 ∧ ∃ a : UInt8, String.utf8EncodeChar c = [a] ∧ a.toNat = c.val.toNat) ∨
      (128 ≤ c.val.toNat ∧ ∃ (a : UInt8) (rest : Bytes), String.utf8EncodeChar c = a :: rest ∧
        128 ≤ a.toNat) := by
  have h := encoded c
  generalize String.utf8EncodeChar c = bytes at h ⊢
  cases h with
  | one a value le => exact .inl ⟨by omega, a, rfl, value⟩
  | two a b lead second ge le => exact .inr ⟨ge, a, _, rfl, by omega⟩
  | three a b d lead second third ge le => exact .inr ⟨by omega, a, _, rfl, by omega⟩
  | four a b d e lead second third fourth ge => exact .inr ⟨by omega, a, _, rfl, by omega⟩

/-- **A text starts with one character only.** -/
theorem utf8EncodeChar_append_inj {c d : Char} {x y : Bytes}
    (h : String.utf8EncodeChar c ++ x = String.utf8EncodeChar d ++ y) : c = d ∧ x = y := by
  have hc := utf8procIterate_char c x
  have hd := utf8procIterate_char d y
  rw [h, hd] at hc
  obtain ⟨henc, hrest⟩ := List.append_inj h (Option.some.inj hc).symm
  refine ⟨Char.ext (UInt32.toNat_inj.mp ?_), hrest⟩
  rw [← codepoint_char, henc, codepoint_char]

/-! ## A text -/

theorem utf8_cons (c : Char) (chars : List Char) :
    utf8 (c :: chars) = String.utf8EncodeChar c ++ utf8 chars := List.flatMap_cons

theorem utf8_append (a b : List Char) : utf8 (a ++ b) = utf8 a ++ utf8 b := List.flatMap_append

/-- What is behind a text in a text is one. -/
theorem utf8_of_append {chars : List Char} {rest : Bytes} (h : Utf8 (utf8 chars ++ rest)) :
    Utf8 rest := by
  obtain ⟨whole, hwhole⟩ : ∃ whole, utf8 chars ++ rest = utf8 whole := h
  induction chars generalizing whole with
  | nil => exact ⟨whole, hwhole⟩
  | cons c chars ih =>
    rw [utf8_cons, List.append_assoc] at hwhole
    cases whole with
    | nil =>
      have hnil := (List.append_eq_nil_iff.mp hwhole).1
      exact absurd hnil (List.ne_nil_of_length_pos (length_utf8EncodeChar_pos c))
    | cons d whole =>
      rw [utf8_cons] at hwhole
      exact ih whole (utf8EncodeChar_append_inj hwhole).2

/-- The characters of a text, with their places. -/
def spansOf : Nat → List Char → List CodepointSpan
  | _, [] => []
  | offset, c :: chars =>
    ⟨c.val.toNat, offset, (String.utf8EncodeChar c).length⟩ ::
      spansOf (offset + (String.utf8EncodeChar c).length) chars

/-- Characters as code points. -/
def points (chars : List Char) : List Nat := chars.map fun c => c.val.toNat

/-- The text of code points. -/
def encodePoints (cps : List Nat) : Bytes :=
  cps.flatMap fun cp => String.utf8EncodeChar (Char.ofNat cp)

theorem encodePoints_points (chars : List Char) : encodePoints (points chars) = utf8 chars := by
  unfold encodePoints points utf8
  rw [List.flatMap_map]
  congr 1
  funext c
  exact congrArg String.utf8EncodeChar (Char.ofNat_toNat c)

theorem length_spansOf (offset : Nat) (chars : List Char) :
    (spansOf offset chars).length = chars.length := by
  induction chars generalizing offset with
  | nil => rfl
  | cons c chars ih => exact congrArg (· + 1) (ih _)

theorem map_value_spansOf (offset : Nat) (chars : List Char) :
    (spansOf offset chars).map CodepointSpan.value = points chars := by
  induction chars generalizing offset with
  | nil => rfl
  | cons c chars ih => exact congrArg (c.val.toNat :: ·) (ih _)

theorem length_le_utf8 (chars : List Char) : chars.length ≤ (utf8 chars).length := by
  induction chars with
  | nil => exact Nat.zero_le _
  | cons c chars ih =>
    have hpos := length_utf8EncodeChar_pos c
    rw [utf8_cons, List.length_append, List.length_cons]
    omega

/-- **The code points of a text.** -/
theorem utf8Codepoints_utf8 (chars : List Char) (context : String) :
    utf8Codepoints (utf8 chars) context = .ok (spansOf 0 chars) := by
  have hfrom : ∀ (chars : List Char) (turns offset : Nat), chars.length ≤ turns →
      codepointsFrom context turns offset (utf8 chars) = .ok (spansOf offset chars) := by
    intro chars
    induction chars with
    | nil =>
      intro turns offset _
      unfold codepointsFrom utf8
      rfl
    | cons c chars ih =>
      intro turns offset hturns
      obtain ⟨turns, rfl⟩ := Nat.exists_eq_add_of_le' (Nat.le_trans (Nat.le_add_left 1 _) hturns)
      rw [List.length_cons] at hturns
      have hread := utf8procIterate_char c (utf8 chars)
      rw [utf8_cons]
      obtain ⟨a, rest, hcons⟩ := List.exists_cons_of_length_pos (length_utf8EncodeChar_pos c)
      rw [hcons, List.cons_append] at hread ⊢
      unfold codepointsFrom
      rw [hread, ← List.cons_append, ← hcons]
      dsimp only
      rw [List.drop_left, List.take_left, codepoint_char, ih turns _ (by omega)]
      rfl
  exact hfrom chars _ 0 (length_le_utf8 chars)

/-- The rest of the spans. -/
theorem drop_spansOf (offset : Nat) (chars : List Char) (n : Nat) :
    (spansOf offset chars).drop n =
      spansOf (offset + (utf8 (chars.take n)).length) (chars.drop n) := by
  induction chars generalizing offset n with
  | nil => simp [spansOf]
  | cons c chars ih =>
    cases n with
    | zero => rfl
    | succ n =>
      rw [spansOf, List.drop_succ_cons, ih, List.take_succ_cons, List.drop_succ_cons, utf8_cons,
        List.length_append, Nat.add_assoc]

/-- Where the first `n` characters of the rest of a text end. -/
theorem spanEndOffset_spansOf {text : Bytes} {offset : Nat} {chars : List Char}
    (htext : text.drop offset = utf8 chars) (hle : offset ≤ text.length) (n : Nat) :
    spanEndOffset text (spansOf offset chars) n = offset + (utf8 (chars.take n)).length := by
  have hdrop := drop_spansOf offset chars n
  unfold spanEndOffset
  rw [← List.head?_drop, hdrop]
  cases hrest : chars.drop n with
  | nil =>
    have hlen := congrArg List.length htext
    rw [List.length_drop] at hlen
    rw [List.take_of_length_le (by rw [List.drop_eq_nil_iff] at hrest; omega)]
    show text.length = _
    omega
  | cons c rest => rfl

end Ninfer.Tokenizer
