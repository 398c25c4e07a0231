import Mathlib

/-!
# UTF-8 texts as byte strings

A byte string is a text when it is the encoding of a list of characters. Between two characters a
text can be cut, and the next byte tells such a place: it is not a continuation byte.

## Main definitions

* `Utf8 bytes`: the byte string is a text
* `isContinuation`: a byte that continues a character
* `Boundary bytes`: the byte string does not start with a continuation byte

## Main results

* `Utf8.append`, `Utf8.boundary`
* `Utf8.split`: a text is cut at a boundary into two texts
-/

namespace Ninfer

/-- A byte string that encodes characters. -/
def Utf8 (bytes : List UInt8) : Prop := ∃ chars : List Char, bytes = chars.flatMap String.utf8EncodeChar

/-- A byte that continues a character: `(byte & 0xc0) == 0x80`. -/
def isContinuation (byte : UInt8) : Bool := byte.toNat / 64 == 2

/-- The byte string does not start inside a character. -/
def Boundary (bytes : List UInt8) : Prop := ∀ byte ∈ bytes.head?, isContinuation byte = false

/-! ## One character -/

/-- A Unicode scalar value is a character. -/
theorem exists_char {n : Nat} (h : n.isValidChar) : ∃ c : Char, c.val.toNat = n :=
  ⟨Char.ofNatAux n h, rfl⟩

/-- The first byte of a character is not a continuation byte, and the others are. -/
theorem utf8EncodeChar_bytes (c : Char) : ∃ lead rest, String.utf8EncodeChar c = lead :: rest ∧
    isContinuation lead = false ∧ ∀ byte ∈ rest, isContinuation byte = true := by
  have hv := c.valid
  have hlt : c.val.toNat < 1114112 := by
    rcases hv with h | h
    · exact h.trans (by decide)
    · exact h.2
  unfold String.utf8EncodeChar
  dsimp only
  split_ifs with h₁ h₂ h₃
  · refine ⟨_, _, rfl, ?_, nofun⟩
    rw [isContinuation, UInt8.toNat_ofNat', beq_eq_false_iff_ne]
    omega
  · refine ⟨_, _, rfl, ?_, fun byte hm => ?_⟩
    · rw [isContinuation, UInt8.toNat_ofNat', beq_eq_false_iff_ne]
      omega
    · obtain rfl := List.mem_singleton.mp hm
      rw [isContinuation, UInt8.toNat_ofNat', beq_iff_eq]
      omega
  · refine ⟨_, _, rfl, ?_, fun byte hm => ?_⟩
    · rw [isContinuation, UInt8.toNat_ofNat', beq_eq_false_iff_ne]
      omega
    · simp only [List.mem_cons, List.not_mem_nil, or_false] at hm
      rcases hm with rfl | rfl <;>
      · rw [isContinuation, UInt8.toNat_ofNat', beq_iff_eq]
        omega
  · refine ⟨_, _, rfl, ?_, fun byte hm => ?_⟩
    · rw [isContinuation, UInt8.toNat_ofNat', beq_eq_false_iff_ne]
      omega
    · simp only [List.mem_cons, List.not_mem_nil, or_false] at hm
      rcases hm with rfl | rfl | rfl <;>
      · rw [isContinuation, UInt8.toNat_ofNat', beq_iff_eq]
        omega

/-! ## Texts -/

variable {u v : List UInt8}

theorem Utf8.nil : Utf8 [] := ⟨[], rfl⟩

theorem Utf8.char (c : Char) : Utf8 (String.utf8EncodeChar c) := ⟨[c], by simp⟩

theorem Utf8.append (hu : Utf8 u) (hv : Utf8 v) : Utf8 (u ++ v) := by
  obtain ⟨cs, rfl⟩ := hu
  obtain ⟨ds, rfl⟩ := hv
  exact ⟨cs ++ ds, by rw [List.flatMap_append]⟩

theorem Utf8.of_ascii (h : ∀ byte ∈ u, byte.toNat < 128) : Utf8 u := by
  induction u with
  | nil => exact Utf8.nil
  | cons byte u ih =>
    have hbyte := h byte (List.mem_cons_self ..)
    have hchar : Utf8 [byte] := by
      obtain ⟨c, hc⟩ := exists_char (Or.inl (hbyte.trans (by decide)))
      refine ⟨[c], ?_⟩
      rw [List.flatMap_singleton, String.utf8EncodeChar, hc, if_pos (by omega), UInt8.ofNat_toNat]
    exact hchar.append (ih fun b hb => h b (List.mem_cons_of_mem _ hb))

theorem boundary_nil : Boundary [] := nofun

theorem Utf8.boundary (hu : Utf8 u) : Boundary u := by
  obtain ⟨cs, rfl⟩ := hu
  cases cs with
  | nil => exact boundary_nil
  | cons c cs =>
    obtain ⟨lead, rest, hc, hlead, -⟩ := utf8EncodeChar_bytes c
    intro byte hm
    rw [List.flatMap_cons, hc] at hm
    obtain rfl := Option.some.inj hm
    exact hlead

/-- **A text is cut at a boundary into two texts.** -/
theorem Utf8.split (h : Utf8 (u ++ v)) (hb : Boundary v) : Utf8 u ∧ Utf8 v := by
  obtain ⟨cs, hcs⟩ := h
  induction cs generalizing u with
  | nil =>
    obtain ⟨rfl, rfl⟩ := List.append_eq_nil_iff.mp hcs
    exact ⟨Utf8.nil, Utf8.nil⟩
  | cons c cs ih =>
    rw [List.flatMap_cons] at hcs
    obtain ⟨lead, rest, hc, -, hrest⟩ := utf8EncodeChar_bytes c
    rcases List.append_eq_append_iff.mp hcs with ⟨w, hw, hv⟩ | ⟨w, hw, hv⟩
    · -- The cut lies in the first character: before it, or before a continuation byte.
      cases u with
      | nil => exact ⟨Utf8.nil, ⟨c :: cs, by rw [List.flatMap_cons, ← hcs]; rfl⟩⟩
      | cons a u =>
        cases w with
        | nil =>
          rw [List.append_nil] at hw
          rw [List.nil_append] at hv
          exact ⟨hw ▸ Utf8.char c, ⟨cs, hv⟩⟩
        | cons b w =>
          have hmem : b ∈ rest := by
            rw [hc, List.cons_append] at hw
            rw [(List.cons.inj hw).2]
            exact List.mem_append_right _ (List.mem_cons_self ..)
          have hcont := hrest b hmem
          rw [hb b (by rw [hv]; rfl)] at hcont
          exact nomatch hcont
    · obtain ⟨h₁, h₂⟩ := ih hv.symm
      exact ⟨hw ▸ (Utf8.char c).append h₁, h₂⟩

end Ninfer
