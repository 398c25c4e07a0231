import Ninfer.Acquire.Fetch
import Ninfer.Commons.BitString

/-!
# Base64 text

`decode_base64` of `acquire.cpp`, which shifts sextets into a word of 32 bits that is never cleared
and takes bytes out of it, and the standard encoding of bytes as base64 text.

## Main definitions

* `table`, `Decoder.step`, `decodeBase64`: the decoder
* `sextets`: the values of the alphabet characters of a text
* `WellFormed`: alphabet characters, then padding, with whitespace anywhere
* `encodeBase64`: the standard text of bytes, with or without padding

## Main results

* `Decodes.push`: what the word holds after one more sextet
* `decodeBase64_eq_ok_iff`: which texts are accepted, and their bytes
* `decodeBase64_encodeBase64`: the standard text of bytes is decoded to them
-/

namespace Ninfer.Acquire

/-- `table`, with `-1` for what is not in the alphabet. -/
def table (c : UInt8) : Int :=
  if 65 ≤ c.toNat ∧ c.toNat ≤ 90 then c.toNat - 65
  else if 97 ≤ c.toNat ∧ c.toNat ≤ 122 then 26 + (c.toNat - 97)
  else if 48 ≤ c.toNat ∧ c.toNat ≤ 57 then 52 + (c.toNat - 48)
  else if c.toNat = 43 then 62
  else if c.toNat = 47 then 63
  else -1

/-- The whitespace the decoder passes over. -/
def isBlank (c : UInt8) : Bool := c = 32 || c = 10 || c = 13 || c = 9

/-- The variables of the loop of `decode_base64`. -/
structure Decoder where
  out : List UInt8
  bits : BitVec 32
  count : Nat
  padded : Bool
  deriving DecidableEq, Repr

namespace Decoder

/-- The variables before the first character. -/
def start : Decoder := ⟨[], 0, 0, false⟩

/-- A sextet goes into the word, and a byte comes out when there are eight bits. -/
def push (d : Decoder) (sextet : Nat) : Decoder :=
  let bits := (d.bits <<< 6) ||| BitVec.ofNat 32 sextet
  let count := d.count + 6
  if 8 ≤ count then
    { d with
      out := d.out ++ [UInt8.ofNat ((bits >>> (count - 8)) &&& 0xff).toNat]
      bits := bits
      count := count - 8 }
  else { d with bits := bits, count := count }

/-- The body of the loop. -/
def step (d : Decoder) (c : UInt8) : Except Failure Decoder :=
  if c = 61 then .ok { d with padded := true }
  else if isBlank c then .ok d
  else if d.padded ∨ table c < 0 then .error (.invalidArgument "malformed base64 media data")
  else .ok (d.push (table c).toNat)

end Decoder

/-- `decode_base64`. -/
def decodeBase64 (text : List UInt8) : Except Failure (List UInt8) := do
  let d ← text.foldlM Decoder.step .start
  if 6 ≤ d.count then throw (.invalidArgument "malformed base64 media padding")
  return d.out

/-- A character of the alphabet. -/
def InAlphabet (c : UInt8) : Prop := 0 ≤ table c

instance (c : UInt8) : Decidable (InAlphabet c) := inferInstanceAs (Decidable (_ ≤ _))

/-- The values of the alphabet characters of a text. -/
def sextets (text : List UInt8) : List Nat :=
  (text.filter InAlphabet).map fun c => (table c).toNat

/-- Padding: `=` and whitespace. -/
def Padding (text : List UInt8) : Prop := ∀ c ∈ text, c = 61 ∨ isBlank c

/-- Alphabet and whitespace characters, then padding. -/
def WellFormed (text : List UInt8) : Prop :=
  ∃ body tail, text = body ++ tail ∧ (∀ c ∈ body, InAlphabet c ∨ isBlank c) ∧ Padding tail

/-- The bits of a sequence of bytes. -/
def byteBits (bytes : List UInt8) : List Bool := wordBits 8 (bytes.map UInt8.toNat)

section Characters

variable {c : UInt8}

theorem table_lt (c : UInt8) : table c < 64 := by
  have := c.toNat_lt
  unfold table
  split_ifs <;> omega

theorem InAlphabet.ne_pad (h : InAlphabet c) : c ≠ 61 := by
  rintro rfl
  revert h
  decide

theorem InAlphabet.not_blank (h : InAlphabet c) : isBlank c = false := by
  cases hblank : isBlank c with
  | false => rfl
  | true =>
    simp only [isBlank, Bool.or_eq_true, decide_eq_true_eq] at hblank
    rcases hblank with ((rfl | rfl) | rfl) | rfl <;> exact absurd h (by decide)

@[simp] theorem sextets_nil : sextets [] = [] := rfl

theorem sextets_append (text rest : List UInt8) :
    sextets (text ++ rest) = sextets text ++ sextets rest := by
  simp [sextets]

theorem sextets_of_alphabet (h : InAlphabet c) : sextets [c] = [(table c).toNat] := by
  simp [sextets, h]

theorem sextets_of_not (h : ¬InAlphabet c) : sextets [c] = [] := by
  simp [sextets, h]

/-- Padding has no sextets. -/
theorem Padding.sextets {text : List UInt8} (h : Padding text) : sextets text = [] := by
  have hnone : ∀ c ∈ text, ¬InAlphabet c := by
    intro c hc halphabet
    rcases h c hc with rfl | hblank
    · exact halphabet.ne_pad rfl
    · rw [halphabet.not_blank] at hblank
      cases hblank
  unfold Acquire.sextets
  rw [List.filter_eq_nil_iff.mpr (by simpa using hnone), List.map_nil]

end Characters

/-! ## The word of the decoder -/

/-- The bytes that came out and the bits left in the word are the bits of the sextets so far. -/
structure Decodes (d : Decoder) (read : List Nat) : Prop where
  count_eq : d.count = 6 * read.length % 8
  bits_eq : byteBits d.out ++ bits d.count d.bits.toNat = wordBits 6 read

namespace Decodes

variable {d : Decoder} {read : List Nat} {v : Nat}

theorem start : Decodes .start [] := ⟨rfl, rfl⟩

/-- The low bits of the word after a sextet are the bits left before and those of the sextet. What
was shifted further up does not matter. -/
theorem bits_shifted (word : BitVec 32) {count : Nat} (hcount : count < 8) (hv : v < 64) :
    bits (count + 6) ((word <<< 6) ||| BitVec.ofNat 32 v).toNat =
      bits count word.toNat ++ bits 6 v := by
  have hword (i : Nat) : ((word <<< 6) ||| BitVec.ofNat 32 v).toNat.testBit i =
      ((decide (i < 32) && (decide (6 ≤ i) && word.toNat.testBit (i - 6))) ||
        (decide (i < 32) && v.testBit i)) := by
    rw [BitVec.toNat_or, Nat.testBit_or, BitVec.toNat_shiftLeft, Nat.testBit_mod_two_pow,
      Nat.testBit_shiftLeft, BitVec.toNat_ofNat, Nat.testBit_mod_two_pow]
  have hhigh (i : Nat) (hi : 6 ≤ i) : v.testBit i = false := by
    have hpow : 2 ^ 6 ≤ 2 ^ i := Nat.pow_le_pow_right (by decide) hi
    exact Nat.testBit_lt_two_pow (by omega)
  have hleft : bits count (((word <<< 6) ||| BitVec.ofNat 32 v).toNat / 2 ^ 6) =
      bits count word.toNat := by
    rw [bits_eq_iff_testBit]
    intro i hi
    rw [Nat.testBit_div_two_pow, hword, hhigh (i + 6) (by omega)]
    simp [show i + 6 < 32 by omega]
  have hsextet : bits 6 ((word <<< 6) ||| BitVec.ofNat 32 v).toNat = bits 6 v := by
    rw [bits_eq_iff_testBit]
    intro i hi
    rw [hword]
    simp [show i < 32 by omega, show ¬6 ≤ i by omega]
  rw [bits_add, hleft, hsextet]

theorem push (h : Decodes d read) (hv : v < 64) : Decodes (d.push v) (read ++ [v]) := by
  have hcount : d.count < 8 := by
    rw [h.count_eq]
    exact Nat.mod_lt _ (by omega)
  have hshifted := bits_shifted d.bits hcount hv
  have hread : wordBits 6 (read ++ [v]) =
      byteBits d.out ++ bits (d.count + 6) ((d.bits <<< 6) ||| BitVec.ofNat 32 v).toNat := by
    rw [hshifted, ← List.append_assoc, h.bits_eq, wordBits_append, wordBits_cons, wordBits_nil,
      List.append_nil]
  unfold Decoder.push
  dsimp only
  split_ifs with hfull
  · refine ⟨?_, ?_⟩
    · dsimp only
      rw [List.length_append, List.length_singleton, h.count_eq]
      have := h.count_eq
      omega
    · -- the byte that comes out is the first eight of the bits in the word
      obtain ⟨left, hleft⟩ : ∃ left, d.count + 6 = 8 + left := ⟨d.count + 6 - 8, by omega⟩
      have hbyte : (UInt8.ofNat ((((d.bits <<< 6) ||| BitVec.ofNat 32 v) >>> left) &&&
          0xff).toNat).toNat % 2 ^ 8 =
          ((d.bits <<< 6) ||| BitVec.ofNat 32 v).toNat / 2 ^ left % 2 ^ 8 := by
        rw [BitVec.toNat_and, BitVec.toNat_ushiftRight, Nat.shiftRight_eq_div_pow]
        rw [show (0xff : BitVec 32).toNat = 2 ^ 8 - 1 from rfl, Nat.and_two_pow_sub_one_eq_mod]
        simp
      rw [hread, hleft, bits_add, byteBits, List.map_append, wordBits_append]
      rw [show 8 + left - 8 = left by omega]
      rw [← bits_eq_iff] at hbyte
      simp only [List.map_cons, List.map_nil, wordBits_cons, wordBits_nil, List.append_nil,
        List.append_assoc, hbyte, byteBits]
  · refine ⟨?_, hread.symm⟩
    dsimp only
    rw [List.length_append, List.length_singleton]
    have := h.count_eq
    omega

end Decodes

/-! ## The loop -/

namespace Decoder

variable {d d' : Decoder} {c : UInt8} {text : List UInt8}

theorem push_padded (d : Decoder) (v : Nat) : (d.push v).padded = d.padded := by
  unfold push
  dsimp only
  split_ifs <;> rfl

theorem step_pad (d : Decoder) : d.step 61 = .ok { d with padded := true } := by
  unfold step
  rw [if_pos rfl]

theorem step_blank (h : isBlank c) : d.step c = .ok d := by
  have hne : c ≠ 61 := by
    rintro rfl
    cases h
  unfold step
  rw [if_neg hne, if_pos h]

theorem step_alphabet (h : InAlphabet c) (hd : d.padded = false) :
    d.step c = .ok (d.push (table c).toNat) := by
  have hvalue : ¬table c < 0 := not_lt.mpr h
  unfold step
  rw [if_neg h.ne_pad, if_neg (by simp [h.not_blank]), if_neg (by simp [hd, hvalue])]

/-- What a character that was accepted is. -/
theorem step_cases (h : d.step c = .ok d') :
    (c = 61 ∧ d' = { d with padded := true }) ∨ (isBlank c ∧ d' = d) ∨
      (InAlphabet c ∧ d.padded = false ∧ d' = d.push (table c).toNat) := by
  unfold step at h
  split_ifs at h with hpad hblank hbad
  · cases h
    exact Or.inl ⟨hpad, rfl⟩
  · cases h
    exact Or.inr (Or.inl ⟨hblank, rfl⟩)
  · cases h
    rw [not_or, not_lt, Bool.not_eq_true] at hbad
    exact Or.inr (Or.inr ⟨hbad.2, hbad.1, rfl⟩)

/-- Padding leaves the word as it is. -/
theorem fold_padding (h : Padding text) (d : Decoder) :
    ∃ padded, text.foldlM step d = .ok { d with padded := padded } := by
  induction text generalizing d with
  | nil => exact ⟨d.padded, rfl⟩
  | cons c text ih =>
    have hrest : Padding text := fun x hx => h x (List.mem_cons_of_mem _ hx)
    rw [List.foldlM_cons]
    rcases h c List.mem_cons_self with rfl | hblank
    · rw [step_pad]
      exact ih hrest { d with padded := true }
    · rw [step_blank hblank]
      exact ih hrest d

/-- Before any padding the sextets go into the word one after another. -/
theorem fold_body {read : List Nat} (h : ∀ c ∈ text, InAlphabet c ∨ isBlank c)
    (hd : d.padded = false) (hread : Decodes d read) :
    ∃ d', text.foldlM step d = .ok d' ∧ Decodes d' (read ++ sextets text) := by
  -- by induction on the text, whatever was read before
  induction text generalizing d read with
  | nil => exact ⟨d, rfl, by simpa using hread⟩
  | cons c text ih =>
    have hrest : ∀ c ∈ text, InAlphabet c ∨ isBlank c :=
      fun x hx => h x (List.mem_cons_of_mem _ hx)
    rw [List.foldlM_cons, ← List.singleton_append, sextets_append]
    rcases h c List.mem_cons_self with halphabet | hblank
    · rw [step_alphabet halphabet hd, sextets_of_alphabet halphabet, ← List.append_assoc]
      have hlt : (table c).toNat < 64 := by
        have := table_lt c
        omega
      exact ih hrest ((push_padded _ _).trans hd) (hread.push hlt)
    · have hnot : ¬InAlphabet c := by
        intro halphabet
        rw [halphabet.not_blank] at hblank
        cases hblank
      rw [step_blank hblank, sextets_of_not hnot]
      exact ih hrest hd hread

/-- What was accepted is well formed, and after the first `=` it is padding. -/
theorem wellFormed_of_fold (h : text.foldlM step d = .ok d') :
    if d.padded then Padding text else WellFormed text := by
  induction text generalizing d with
  | nil =>
    have hnil : Padding [] := by
      intro c hc
      cases hc
    split_ifs
    · exact hnil
    · refine ⟨[], [], rfl, ?_, hnil⟩
      intro c hc
      cases hc
  | cons c text ih =>
    rw [List.foldlM_cons] at h
    cases hstep : d.step c with
    | error e =>
      rw [hstep] at h
      cases h
    | ok d₁ =>
      rw [hstep] at h
      have hrest := ih h
      rcases step_cases hstep with ⟨rfl, rfl⟩ | ⟨hblank, rfl⟩ | ⟨halphabet, hpadded, rfl⟩
      · have hpadding : Padding (61 :: text) := by
          intro x hx
          rcases List.mem_cons.mp hx with rfl | hx
          · exact Or.inl rfl
          · exact hrest x hx
        split_ifs
        · exact hpadding
        · refine ⟨[], 61 :: text, rfl, ?_, hpadding⟩
          intro x hx
          cases hx
      · split_ifs at hrest ⊢
        · intro x hx
          rcases List.mem_cons.mp hx with rfl | hx
          · exact Or.inr hblank
          · exact hrest x hx
        · obtain ⟨body, tail, rfl, hbody, htail⟩ := hrest
          refine ⟨c :: body, tail, rfl, ?_, htail⟩
          intro x hx
          rcases List.mem_cons.mp hx with rfl | hx
          · exact Or.inr hblank
          · exact hbody x hx
      · rw [push_padded, hpadded] at hrest
        rw [hpadded]
        obtain ⟨body, tail, rfl, hbody, htail⟩ := hrest
        refine ⟨c :: body, tail, rfl, ?_, htail⟩
        intro x hx
        rcases List.mem_cons.mp hx with rfl | hx
        · exact Or.inl halphabet
        · exact hbody x hx

end Decoder

/-! ## The bytes of a text -/

section Decode

variable {text out : List UInt8}

theorem byteBits_injective {a b : List UInt8} (h : byteBits a = byteBits b) : a = b := by
  have hlt (bytes : List UInt8) : ∀ v ∈ bytes.map UInt8.toNat, v < 2 ^ 8 := by
    intro v hv
    obtain ⟨c, -, rfl⟩ := List.mem_map.mp hv
    exact c.toNat_lt
  exact List.map_injective_iff.mpr (fun _ _ => UInt8.toNat_inj.mp)
    (wordBits_injective (by decide) (hlt a) (hlt b) h)

theorem length_byteBits (bytes : List UInt8) : (byteBits bytes).length = bytes.length * 8 := by
  simp [byteBits]

/-- The loop over a well-formed text reads its sextets. -/
theorem fold_of_wellFormed (h : WellFormed text) :
    ∃ d, text.foldlM Decoder.step .start = .ok d ∧ Decodes d (sextets text) := by
  obtain ⟨body, tail, rfl, hbody, htail⟩ := h
  obtain ⟨d, hd, hread⟩ := Decoder.fold_body hbody rfl Decodes.start
  obtain ⟨padded, hpadded⟩ := Decoder.fold_padding htail d
  refine ⟨{ d with padded := padded }, ?_, ?_⟩
  · rw [List.foldlM_append, hd]
    exact hpadded
  · rw [sextets_append, htail.sextets, List.append_nil]
    exact ⟨hread.count_eq, hread.bits_eq⟩

/-- What a text decodes to: the bits of the sextets, cut into bytes, as many as are complete. -/
theorem decodeBase64_sound (h : decodeBase64 text = .ok out) :
    (WellFormed text ∧ (sextets text).length % 4 ≠ 1) ∧
      out.length = 6 * (sextets text).length / 8 ∧
      byteBits out = (wordBits 6 (sextets text)).take (out.length * 8) := by
  unfold decodeBase64 at h
  cases hfold : text.foldlM Decoder.step .start with
  | error e =>
    rw [hfold] at h
    cases h
  | ok d =>
    have hwell : WellFormed text := Decoder.wellFormed_of_fold hfold
    obtain ⟨d', hd', hread⟩ := fold_of_wellFormed hwell
    rw [hfold] at hd' h
    cases hd'
    simp only [bind, Except.bind] at h
    split_ifs at h with hcount
    cases h
    have hlength := congrArg List.length hread.bits_eq
    rw [List.length_append, length_byteBits, length_bits, length_wordBits] at hlength
    have hcountEq := hread.count_eq
    refine ⟨⟨hwell, by omega⟩, by omega, ?_⟩
    rw [← hread.bits_eq, List.take_append_of_le_length (length_byteBits _).ge,
      List.take_of_length_le (length_byteBits _).le]

/-- A well-formed text of which no single character is left over is accepted. -/
theorem exists_decodeBase64 (h : WellFormed text ∧ (sextets text).length % 4 ≠ 1) :
    ∃ out, decodeBase64 text = .ok out := by
  obtain ⟨d, hfold, hread⟩ := fold_of_wellFormed h.1
  have hcount := hread.count_eq
  have hmod := h.2
  have hfew : ¬6 ≤ d.count := by
    have hcases : (sextets text).length % 4 = 0 ∨ (sextets text).length % 4 = 2 ∨
        (sextets text).length % 4 = 3 := by omega
    rcases hcases with hcase | hcase | hcase <;> omega
  refine ⟨d.out, ?_⟩
  unfold decodeBase64
  rw [hfold]
  simp only [bind, Except.bind]
  rw [if_neg hfew]
  rfl

/-- **Which texts are accepted, and what they decode to.** -/
theorem decodeBase64_eq_ok_iff : decodeBase64 text = .ok out ↔
    (WellFormed text ∧ (sextets text).length % 4 ≠ 1) ∧
      out.length = 6 * (sextets text).length / 8 ∧
      byteBits out = (wordBits 6 (sextets text)).take (out.length * 8) := by
  constructor
  · exact decodeBase64_sound
  · rintro ⟨hwell, hlength, hbits⟩
    obtain ⟨bytes, hbytes⟩ := exists_decodeBase64 hwell
    obtain ⟨-, hlength', hbits'⟩ := decodeBase64_sound hbytes
    have hout : out = bytes := by
      apply byteBits_injective
      rw [hbits, hbits', hlength, hlength']
    rw [hout, hbytes]

end Decode

/-! ## The standard text -/

/-- The standard alphabet. -/
def alphabet (v : Nat) : UInt8 :=
  if v < 26 then UInt8.ofNat (65 + v)
  else if v < 52 then UInt8.ofNat (97 + (v - 26))
  else if v < 62 then UInt8.ofNat (48 + (v - 52))
  else if v = 62 then 43
  else 47

/-- The standard base64 text of a sequence of bytes: four characters for three bytes, and the last
group filled up with `=` or cut short. -/
def encodeBase64 (pad : Bool) : List UInt8 → List UInt8
  | [] => []
  | [a] =>
    [alphabet (a.toNat / 4), alphabet (a.toNat % 4 * 16)] ++ if pad then [61, 61] else []
  | [a, b] =>
    [alphabet (a.toNat / 4), alphabet (a.toNat % 4 * 16 + b.toNat / 16),
      alphabet (b.toNat % 16 * 4)] ++ if pad then [61] else []
  | a :: b :: c :: rest =>
    alphabet (a.toNat / 4) :: alphabet (a.toNat % 4 * 16 + b.toNat / 16) ::
      alphabet (b.toNat % 16 * 4 + c.toNat / 64) :: alphabet (c.toNat % 64) ::
      encodeBase64 pad rest

section Encode

theorem table_alphabet {v : Nat} (hv : v < 64) : table (alphabet v) = v := by
  have hnat (n : Nat) (hn : n < 256) : (UInt8.ofNat n).toNat = n := UInt8.toNat_ofNat_of_lt' hn
  unfold alphabet
  -- the five ranges of the alphabet are the five of the table
  split_ifs with hupper hlower hdigit hplus
  · rw [table, hnat _ (by omega), if_pos (by omega)]
    omega
  · rw [table, hnat _ (by omega), if_neg (by omega), if_pos (by omega)]
    omega
  · rw [table, hnat _ (by omega), if_neg (by omega), if_neg (by omega), if_pos (by omega)]
    omega
  · rw [hplus]
    rfl
  · rw [show v = 63 by omega]
    rfl

theorem sextets_alphabet {values : List Nat} (h : ∀ v ∈ values, v < 64) :
    sextets (values.map alphabet) = values := by
  induction values with
  | nil => rfl
  | cons v values ih =>
    have hv := table_alphabet (h v List.mem_cons_self)
    have halphabet : InAlphabet (alphabet v) := by
      unfold InAlphabet
      omega
    rw [List.map_cons, ← List.singleton_append, sextets_append, sextets_of_alphabet halphabet,
      ih fun x hx => h x (List.mem_cons_of_mem _ hx), hv]
    rfl

/-- Three bytes are four sextets. -/
theorem wordBits_group {a b c : Nat} (hb : b < 256) (hc : c < 256) :
    wordBits 6 [a / 4, a % 4 * 16 + b / 16, b % 16 * 4 + c / 64, c % 64] =
      wordBits 8 [a, b, c] := by
  have h₁ : bits 8 a = bits 6 (a / 4) ++ bits 2 a := bits_add 6 2 a
  have h₂ : bits 6 (a % 4 * 16 + b / 16) = bits 2 a ++ bits 4 (b / 16) := by
    rw [← bits_mod 2 a]
    exact bits_join (a := 2) (b := 4) (by omega)
  have h₃ : bits 8 b = bits 4 (b / 16) ++ bits 4 b := bits_add 4 4 b
  have h₄ : bits 6 (b % 16 * 4 + c / 64) = bits 4 b ++ bits 2 (c / 64) := by
    rw [← bits_mod 4 b]
    exact bits_join (a := 4) (b := 2) (by omega)
  have h₅ : bits 8 c = bits 2 (c / 64) ++ bits 6 c := bits_add 2 6 c
  have h₆ : bits 6 (c % 64) = bits 6 c := bits_mod 6 c
  simp only [wordBits_cons, wordBits_nil, h₁, h₂, h₃, h₄, h₅, h₆, List.append_assoc,
    List.append_nil]

/-- The standard text: the alphabet for sextets that hold the bits of the bytes and zeros, and
nothing after it but `=`. -/
theorem encodeBase64_eq (pad : Bool) (bytes : List UInt8) :
    ∃ values tail zeros, encodeBase64 pad bytes = values.map alphabet ++ tail ∧
      (∀ v ∈ values, v < 64) ∧ (∀ c ∈ tail, c = 61) ∧
      values.length = (4 * bytes.length + 2) / 3 ∧
      wordBits 6 values = byteBits bytes ++ zeros ∧
      (values.map alphabet ++ tail).length ≤ 4 * ((bytes.length + 2) / 3) := by
  induction bytes using encodeBase64.induct with
  | case1 => exact ⟨[], [], [], rfl, by simp, by simp, rfl, rfl, by simp⟩
  | case2 a =>
    have ha := a.toNat_lt
    refine ⟨[a.toNat / 4, a.toNat % 4 * 16], if pad then [61, 61] else [], bits 4 0, rfl, ?_, ?_,
      by simp, ?_, ?_⟩
    · intro v hv
      simp only [List.mem_cons, List.not_mem_nil, or_false] at hv
      omega
    · cases pad <;> simp
    · have h₁ : bits 8 a.toNat = bits 6 (a.toNat / 4) ++ bits 2 a.toNat := bits_add 6 2 _
      have h₂ : bits 6 (a.toNat % 4 * 16) = bits 2 a.toNat ++ bits 4 0 := by
        have hjoin := bits_join (a := 2) (b := 4) (u := a.toNat % 4) (v := 0) (by decide)
        rw [Nat.add_zero] at hjoin
        rw [← bits_mod 2 a.toNat]
        exact hjoin
      simp [byteBits, h₁, h₂]
    · cases pad <;> simp
  | case3 a b =>
    have ha := a.toNat_lt
    have hb := b.toNat_lt
    refine ⟨[a.toNat / 4, a.toNat % 4 * 16 + b.toNat / 16, b.toNat % 16 * 4],
      if pad then [61] else [], bits 2 0, rfl, ?_, ?_, by simp, ?_, ?_⟩
    · intro v hv
      simp only [List.mem_cons, List.not_mem_nil, or_false] at hv
      omega
    · cases pad <;> simp
    · have hgroup := wordBits_group (a := a.toNat) (b := b.toNat) (c := 0) hb (by decide)
      have h₅ : bits 8 0 = bits 2 0 ++ bits 6 0 := rfl
      simp only [Nat.zero_div, Nat.zero_mod, Nat.add_zero, wordBits_cons, wordBits_nil, h₅,
        List.append_nil, ← List.append_assoc, List.append_left_inj] at hgroup
      simp [byteBits, ← List.append_assoc, hgroup]
    · cases pad <;> simp
  -- Three bytes give four sextets, and the rest follows.
  | case4 a b c rest ih =>
    have ha := a.toNat_lt
    have hb := b.toNat_lt
    have hc := c.toNat_lt
    obtain ⟨values, tail, zeros, htext, hlt, htail, hlength, hbits, hle⟩ := ih
    refine ⟨a.toNat / 4 :: (a.toNat % 4 * 16 + b.toNat / 16) ::
      (b.toNat % 16 * 4 + c.toNat / 64) :: c.toNat % 64 :: values, tail, zeros, ?_, ?_, htail,
      ?_, ?_, ?_⟩
    · rw [encodeBase64, htext]
      rfl
    · intro v hv
      simp only [List.mem_cons] at hv
      rcases hv with rfl | rfl | rfl | rfl | hv
      · omega
      · omega
      · omega
      · omega
      · exact hlt v hv
    · simp only [List.length_cons, hlength]
      omega
    · have hgroup := wordBits_group (a := a.toNat) hb hc
      simp only [wordBits_cons, wordBits_nil, List.append_nil] at hgroup
      simp only [wordBits_cons, byteBits, List.map_cons, hbits, ← List.append_assoc]
      simp only [← List.append_assoc] at hgroup
      rw [hgroup]
    · simp only [List.map_cons, List.cons_append, List.length_cons] at hle ⊢
      omega

theorem length_encodeBase64_le (pad : Bool) (bytes : List UInt8) :
    (encodeBase64 pad bytes).length ≤ 4 * ((bytes.length + 2) / 3) := by
  obtain ⟨values, tail, zeros, htext, -, -, -, -, hle⟩ := encodeBase64_eq pad bytes
  rw [htext]
  exact hle

/-- **The standard text of bytes decodes to them**, with or without padding. -/
theorem decodeBase64_encodeBase64 (pad : Bool) (bytes : List UInt8) :
    decodeBase64 (encodeBase64 pad bytes) = .ok bytes := by
  obtain ⟨values, tail, zeros, htext, hlt, htail, hlength, hbits, -⟩ := encodeBase64_eq pad bytes
  have hpadding : Padding tail := fun c hc => Or.inl (htail c hc)
  have hsextets : sextets (encodeBase64 pad bytes) = values := by
    rw [htext, sextets_append, sextets_alphabet hlt, hpadding.sextets, List.append_nil]
  apply decodeBase64_eq_ok_iff.mpr
  rw [hsextets, hlength]
  refine ⟨⟨⟨values.map alphabet, tail, htext, ?_, hpadding⟩, by omega⟩, by omega, ?_⟩
  · intro c hc
    obtain ⟨v, hv, rfl⟩ := List.mem_map.mp hc
    have htable := table_alphabet (hlt v hv)
    left
    unfold InAlphabet
    omega
  · rw [hbits, List.take_append_of_le_length (length_byteBits _).ge,
      List.take_of_length_le (length_byteBits _).le]

end Encode

end Ninfer.Acquire
