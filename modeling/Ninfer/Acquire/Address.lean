import Mathlib

/-!
# The addresses a media URL may lead to

The address filter of `acquire.cpp`. An address is in memory in network byte order; the host is
little-endian, so the 32-bit word the host reads has the last byte of the address on top, and
`ntohl` turns it around.

Beside it stand the address blocks the filter is for, as sets of numbers: the dotted quad
`a.b.c.d` is the number `((a * 256 + b) * 256 + c) * 256 + d`, and a block is a prefix of it.

## Main definitions

* `Quad`, `In6`, `SockAddr`: four bytes of an address, an IPv6 address, and a socket address
* `privateIpv4`, `privateAddress`: the filter
* `Block`, `SpecialIpv4`, `Internal`, `PublicIpv4`: the blocks

## Main results

* `privateIpv4_iff`: what the filter refuses of IPv4, as blocks
* `internal_iff_of_passed`, `privateAddress_iff_of_public`: where the filter and the blocks differ
-/

namespace Ninfer.Acquire

/-- Four bytes of an address in the order in which they are stored. -/
structure Quad where
  (b0 b1 b2 b3 : BitVec 8)
  deriving DecidableEq, Repr

/-- The 32-bit word a little-endian host reads. -/
def Quad.word (q : Quad) : BitVec 32 := q.b3 ++ q.b2 ++ q.b1 ++ q.b0

/-- `ntohl`, and `htonl`. -/
def ntohl (a : BitVec 32) : BitVec 32 :=
  a.extractLsb' 0 8 ++ a.extractLsb' 8 8 ++ a.extractLsb' 16 8 ++ a.extractLsb' 24 8

/-- `in6_addr`: the words `s6_addr32[0]` to `s6_addr32[3]`. -/
structure In6 where
  (q0 q1 q2 q3 : Quad)
  deriving DecidableEq, Repr

/-- A socket address by its family. -/
inductive SockAddr
  | inet (sin : Quad)
  | inet6 (sin6 : In6)
  | other (family : Nat)
  deriving DecidableEq, Repr

/-! ## The filter -/

/-- `private_ipv4`, on the word in network byte order. -/
def privateIpv4 (address : BitVec 32) : Bool :=
  let a := ntohl address
  a >>> 24 == 0 || a >>> 24 == 10 || a >>> 24 == 127 || a >>> 16 == 0xa9fe ||
    a >>> 20 == 0xac1 || a >>> 16 == 0xc0a8 || a >>> 22 == 0x0191 ||
    a >>> 17 == 0x633f || decide (a >>> 24 ≥ 224)

/-- `IN6_IS_ADDR_UNSPECIFIED`. -/
def in6IsAddrUnspecified (a : In6) : Bool :=
  a.q0.word == 0 && a.q1.word == 0 && a.q2.word == 0 && a.q3.word == 0

/-- `IN6_IS_ADDR_LOOPBACK`. -/
def in6IsAddrLoopback (a : In6) : Bool :=
  a.q0.word == 0 && a.q1.word == 0 && a.q2.word == 0 && a.q3.word == ntohl 1

/-- `IN6_IS_ADDR_LINKLOCAL`. -/
def in6IsAddrLinklocal (a : In6) : Bool :=
  a.q0.word &&& ntohl 0xffc00000 == ntohl 0xfe800000

/-- `IN6_IS_ADDR_MULTICAST`. -/
def in6IsAddrMulticast (a : In6) : Bool := a.q0.b0 == 0xff

/-- `IN6_IS_ADDR_V4MAPPED`. -/
def in6IsAddrV4mapped (a : In6) : Bool :=
  a.q0.word == 0 && a.q1.word == 0 && a.q2.word == ntohl 0xffff

/-- `private_address`. -/
def privateAddress : SockAddr → Bool
  | .inet sin => privateIpv4 sin.word
  | .inet6 a =>
    if in6IsAddrUnspecified a || in6IsAddrLoopback a || in6IsAddrLinklocal a ||
        in6IsAddrMulticast a || a.q0.b0 &&& 0xfe == 0xfc then true
    else if in6IsAddrV4mapped a then privateIpv4 a.q3.word
    else false
  | .other _ => true

/-! ## The blocks -/

/-- The dotted quad as a number. -/
def Quad.value (q : Quad) : Nat :=
  ((q.b0.toNat * 256 + q.b1.toNat) * 256 + q.b2.toNat) * 256 + q.b3.toNat

/-- The 128 bits of an IPv6 address as a number. -/
def In6.value (a : In6) : Nat :=
  ((a.q0.value * 2 ^ 32 + a.q1.value) * 2 ^ 32 + a.q2.value) * 2 ^ 32 + a.q3.value

/-- The numbers of `width` bits with the same first `len` bits as `base`. -/
def Block (width base len : Nat) : Set Nat :=
  fun n => n / 2 ^ (width - len) = base / 2 ^ (width - len)

/-- The IPv4 block `a.b.c.d/len`. -/
def ipv4Block (a b c d len : Nat) : Set Nat :=
  Block 32 (((a * 256 + b) * 256 + c) * 256 + d) len

instance (width base len n : Nat) : Decidable (n ∈ Block width base len) :=
  inferInstanceAs (Decidable (n / 2 ^ (width - len) = base / 2 ^ (width - len)))

instance (a b c d len n : Nat) : Decidable (n ∈ ipv4Block a b c d len) :=
  inferInstanceAs (Decidable (n ∈ Block 32 (((a * 256 + b) * 256 + c) * 256 + d) len))

/-- The IPv4 blocks that are not public. -/
def SpecialIpv4 (n : Nat) : Prop :=
  n ∈ ipv4Block 0 0 0 0 8 ∨ n ∈ ipv4Block 10 0 0 0 8 ∨ n ∈ ipv4Block 100 64 0 0 10 ∨
    n ∈ ipv4Block 127 0 0 0 8 ∨ n ∈ ipv4Block 169 254 0 0 16 ∨ n ∈ ipv4Block 172 16 0 0 12 ∨
    n ∈ ipv4Block 192 168 0 0 16 ∨ n ∈ ipv4Block 198 18 0 0 15 ∨ n ∈ ipv4Block 224 0 0 0 3

/-- The IPv6 addresses that are unspecified, loopback, link-local (`fe80::/10`), multicast
(`ff00::/8`) or unique-local (`fc00::/7`). -/
def SpecialIpv6 (n : Nat) : Prop :=
  n = 0 ∨ n = 1 ∨ n ∈ Block 128 (0xfe80 * 2 ^ 112) 10 ∨ n ∈ Block 128 (0xff00 * 2 ^ 112) 8 ∨
    n ∈ Block 128 (0xfc00 * 2 ^ 112) 7

/-- The IPv4-mapped IPv6 addresses, `::ffff:0:0/96`. -/
def Mapped (n : Nat) : Prop := n ∈ Block 128 (0xffff * 2 ^ 32) 96

/-- The address is the IPv4 address `q`, or the IPv6 address it is mapped to. -/
def SockAddr.IsIpv4 (s : SockAddr) (q : Quad) : Prop :=
  s = .inet q ∨ ∃ a : In6, s = .inet6 a ∧ Mapped a.value ∧ a.q3 = q

/-- The addresses no connection may be made to. An address of another family is one, since it
is no address of the internet at all. -/
def Internal (s : SockAddr) : Prop :=
  (∃ q, s.IsIpv4 q ∧ SpecialIpv4 q.value) ∨ (∃ a : In6, s = .inet6 a ∧ SpecialIpv6 a.value) ∨
    ∃ family, s = .other family

/-- A public IPv4 address, native or mapped. -/
def PublicIpv4 (s : SockAddr) : Prop := ∃ q, s.IsIpv4 q ∧ ¬SpecialIpv4 q.value

/-- The address is an IPv4 address of a block, native or mapped. -/
def SockAddr.InIpv4 (s : SockAddr) (block : Set Nat) : Prop := ∃ q, s.IsIpv4 q ∧ q.value ∈ block

/-! ## Words as numbers -/

theorem Quad.value_lt (q : Quad) : q.value < 2 ^ 32 := by
  unfold value
  omega

theorem ntohl_word (q : Quad) : ntohl q.word = q.b0 ++ q.b1 ++ q.b2 ++ q.b3 := by
  unfold ntohl Quad.word
  ext i hi
  simp only [BitVec.getElem_append, BitVec.getElem_extractLsb', BitVec.getLsbD_append]
  grind

theorem toNat_append_byte {w : Nat} (x : BitVec w) (y : BitVec 8) :
    (x ++ y).toNat = x.toNat * 256 + y.toNat := by
  rw [BitVec.toNat_append, ← Nat.shiftLeft_add_eq_or_of_lt y.isLt, Nat.shiftLeft_eq]

/-- What `ntohl` makes of the word is the dotted quad. -/
theorem toNat_ntohl_word (q : Quad) : (ntohl q.word).toNat = q.value := by
  rw [ntohl_word, toNat_append_byte, toNat_append_byte, toNat_append_byte]
  rfl

theorem ntohl_ntohl (a : BitVec 32) : ntohl (ntohl a) = a := by
  unfold ntohl
  ext i hi
  simp only [BitVec.getElem_append, BitVec.getElem_extractLsb', BitVec.getLsbD_append]
  grind

theorem ntohl_and (a b : BitVec 32) : ntohl (a &&& b) = ntohl a &&& ntohl b := by
  unfold ntohl
  ext i hi
  simp only [BitVec.getElem_append, BitVec.getElem_extractLsb', BitVec.getElem_and, BitVec.getLsbD_and]
  grind

/-- A shifted word against a constant, as a prefix of the number. -/
theorem ushiftRight_beq (q : Quad) (k : Nat) (c : BitVec 32) :
    (ntohl q.word >>> k == c) = decide (q.value / 2 ^ k = c.toNat) := by
  rw [Bool.eq_iff_iff, beq_iff_eq, decide_eq_true_iff, ← toNat_ntohl_word,
    ← BitVec.toNat_inj, BitVec.toNat_ushiftRight, Nat.shiftRight_eq_div_pow]

theorem word_beq (q : Quad) (c : BitVec 32) :
    (q.word == ntohl c) = decide (q.value = c.toNat) := by
  rw [Bool.eq_iff_iff, beq_iff_eq, decide_eq_true_iff, ← toNat_ntohl_word, BitVec.toNat_inj]
  constructor
  · intro h
    rw [h, ntohl_ntohl]
  · intro h
    rw [← h, ntohl_ntohl]

/-- A word under a mask of leading bits. -/
theorem word_and_beq (q : Quad) {k : Nat} {c mask : BitVec 32}
    (hmask : mask = BitVec.allOnes 32 <<< k) (hc : 2 ^ k ∣ c.toNat) :
    (q.word &&& ntohl mask == ntohl c) = decide (q.value / 2 ^ k = c.toNat / 2 ^ k) := by
  have hword : q.word &&& ntohl mask = ntohl (ntohl q.word &&& mask) := by
    rw [ntohl_and, ntohl_ntohl]
  have hval : (ntohl q.word &&& mask).toNat = q.value / 2 ^ k * 2 ^ k := by
    rw [hmask, ← BitVec.shiftLeft_ushiftRight, BitVec.toNat_shiftLeft, BitVec.toNat_ushiftRight,
      toNat_ntohl_word, Nat.shiftLeft_eq, Nat.shiftRight_eq_div_pow]
    apply Nat.mod_eq_of_lt
    exact Nat.lt_of_le_of_lt (Nat.div_mul_le_self ..) q.value_lt
  rw [Bool.eq_iff_iff, beq_iff_eq, decide_eq_true_iff, hword]
  constructor
  · intro h
    have h' : ntohl q.word &&& mask = c := by rw [← ntohl_ntohl (_ &&& _), h, ntohl_ntohl]
    rw [← h', hval, Nat.mul_div_cancel _ (Nat.two_pow_pos k)]
  · intro h
    congr 1
    apply BitVec.eq_of_toNat_eq
    rw [hval, h, Nat.div_mul_cancel hc]

/-! ## What the filter refuses -/

theorem mem_block {width base len n : Nat} :
    n ∈ Block width base len ↔ n / 2 ^ (width - len) = base / 2 ^ (width - len) := Iff.rfl

/-- The IPv4 filter as blocks: the tests of the source in their order. -/
theorem privateIpv4_iff (q : Quad) :
    privateIpv4 q.word = true ↔
      q.value ∈ ipv4Block 0 0 0 0 8 ∨ q.value ∈ ipv4Block 10 0 0 0 8 ∨
        q.value ∈ ipv4Block 127 0 0 0 8 ∨ q.value ∈ ipv4Block 169 254 0 0 16 ∨
        q.value ∈ ipv4Block 172 16 0 0 12 ∨ q.value ∈ ipv4Block 192 168 0 0 16 ∨
        q.value ∈ ipv4Block 100 64 0 0 10 ∨ q.value ∈ ipv4Block 198 126 0 0 15 ∨
        q.value ∈ ipv4Block 224 0 0 0 3 := by
  have hlt := q.value_lt
  have hge : decide (ntohl q.word >>> 24 ≥ 224) = decide (q.value / 2 ^ 24 ≥ 224) := by
    rw [Bool.eq_iff_iff, decide_eq_true_iff, decide_eq_true_iff, ge_iff_le, BitVec.le_def,
      BitVec.toNat_ushiftRight, toNat_ntohl_word, Nat.shiftRight_eq_div_pow]
    rfl
  unfold privateIpv4
  simp only [ushiftRight_beq, hge, Bool.or_eq_true, decide_eq_true_iff, or_assoc, ipv4Block,
    mem_block]
  simp only [BitVec.reduceToNat, Nat.reducePow, Nat.reduceSub, Nat.reduceMul, Nat.reduceAdd,
    Nat.reduceDiv]
  omega

theorem in6IsAddrUnspecified_iff (a : In6) : in6IsAddrUnspecified a = true ↔ a.value = 0 := by
  have hzero (q : Quad) : (q.word == 0) = decide (q.value = 0) := word_beq q 0
  unfold in6IsAddrUnspecified In6.value
  simp only [hzero, Bool.and_eq_true, decide_eq_true_iff]
  omega

theorem in6IsAddrLoopback_iff (a : In6) : in6IsAddrLoopback a = true ↔ a.value = 1 := by
  have hzero (q : Quad) : (q.word == 0) = decide (q.value = 0) := word_beq q 0
  unfold in6IsAddrLoopback In6.value
  simp only [hzero, word_beq, Bool.and_eq_true, decide_eq_true_iff, BitVec.reduceToNat]
  have := a.q3.value_lt
  omega

theorem in6IsAddrV4mapped_iff (a : In6) : in6IsAddrV4mapped a = true ↔ Mapped a.value := by
  have hzero (q : Quad) : (q.word == 0) = decide (q.value = 0) := word_beq q 0
  unfold in6IsAddrV4mapped Mapped In6.value
  simp only [hzero, word_beq, Bool.and_eq_true, decide_eq_true_iff, BitVec.reduceToNat, mem_block]
  have h1 := a.q1.value_lt
  have h2 := a.q2.value_lt
  have h3 := a.q3.value_lt
  omega

theorem in6IsAddrLinklocal_iff (a : In6) :
    in6IsAddrLinklocal a = true ↔ a.value ∈ Block 128 (0xfe80 * 2 ^ 112) 10 := by
  have hmask : (0xffc00000 : BitVec 32) = BitVec.allOnes 32 <<< 22 := rfl
  unfold in6IsAddrLinklocal In6.value
  rw [word_and_beq a.q0 hmask (by decide), decide_eq_true_iff, mem_block]
  have h1 := a.q1.value_lt
  have h2 := a.q2.value_lt
  have h3 := a.q3.value_lt
  simp only [BitVec.reduceToNat, Nat.reducePow, Nat.reduceSub, Nat.reduceMul, Nat.reduceDiv]
  omega

theorem uniqueLocal_iff (a : In6) :
    (a.q0.b0 &&& 0xfe == 0xfc) = true ↔ a.value ∈ Block 128 (0xfc00 * 2 ^ 112) 7 := by
  have hbyte : ∀ b : BitVec 8, (b &&& 0xfe == 0xfc) = true ↔ b.toNat / 2 = 0x7e := by decide
  rw [hbyte, mem_block]
  unfold In6.value
  have h0 : a.q0.b0.toNat = a.q0.value / 2 ^ 24 := by
    unfold Quad.value
    omega
  have h1 := a.q1.value_lt
  have h2 := a.q2.value_lt
  have h3 := a.q3.value_lt
  simp only [Nat.reducePow, Nat.reduceSub, Nat.reduceMul, Nat.reduceDiv] at *
  omega

theorem in6IsAddrMulticast_iff (a : In6) :
    in6IsAddrMulticast a = true ↔ a.value ∈ Block 128 (0xff00 * 2 ^ 112) 8 := by
  have hbyte : (a.q0.b0 == 0xff) = true ↔ a.q0.b0.toNat = 0xff := by
    rw [beq_iff_eq, ← BitVec.toNat_inj]
    rfl
  unfold in6IsAddrMulticast In6.value
  rw [hbyte, mem_block]
  have h0 : a.q0.b0.toNat = a.q0.value / 2 ^ 24 := by
    unfold Quad.value
    omega
  have h1 := a.q1.value_lt
  have h2 := a.q2.value_lt
  have h3 := a.q3.value_lt
  simp only [Nat.reducePow, Nat.reduceSub, Nat.reduceMul, Nat.reduceDiv] at *
  omega

/-- The IPv6 filter: the special addresses, and what the IPv4 filter refuses of the mapped ones. -/
theorem privateAddress_inet6 (a : In6) :
    privateAddress (.inet6 a) = true ↔
      SpecialIpv6 a.value ∨ Mapped a.value ∧ privateIpv4 a.q3.word = true := by
  have hspecial : (in6IsAddrUnspecified a || in6IsAddrLoopback a || in6IsAddrLinklocal a ||
      in6IsAddrMulticast a || a.q0.b0 &&& 0xfe == 0xfc) = true ↔ SpecialIpv6 a.value := by
    unfold SpecialIpv6
    simp only [Bool.or_eq_true, or_assoc]
    rw [in6IsAddrUnspecified_iff, in6IsAddrLoopback_iff, in6IsAddrLinklocal_iff,
      in6IsAddrMulticast_iff, uniqueLocal_iff]
  rw [← in6IsAddrV4mapped_iff, ← hspecial]
  unfold privateAddress
  dsimp only
  split_ifs with hspec hmap
  · exact ⟨fun _ => Or.inl hspec, fun _ => rfl⟩
  · exact ⟨fun hpriv => Or.inr ⟨hmap, hpriv⟩, fun h => (h.resolve_left hspec).2⟩
  · exact ⟨fun h => (nomatch h), fun h => absurd (h.resolve_left hspec).1 hmap⟩

/-! ## Where the filter and the blocks differ -/

theorem not_specialIpv6_of_mapped {n : Nat} (h : Mapped n) : ¬SpecialIpv6 n := by
  unfold Mapped at h
  unfold SpecialIpv6
  simp only [mem_block, Nat.reducePow, Nat.reduceSub, Nat.reduceMul, Nat.reduceDiv] at *
  omega

namespace SockAddr.IsIpv4

variable {s : SockAddr} {q q' : Quad}

theorem unique (h : s.IsIpv4 q) (h' : s.IsIpv4 q') : q = q' := by
  rcases h with rfl | ⟨a, rfl, -, rfl⟩
  · rcases h' with h' | ⟨a', h', -⟩
    · exact SockAddr.inet.inj h'
    · cases h'
  · rcases h' with h' | ⟨a', h', -, rfl⟩
    · cases h'
    · cases h'
      rfl

theorem privateAddress_iff (h : s.IsIpv4 q) :
    privateAddress s = true ↔ privateIpv4 q.word = true := by
  rcases h with rfl | ⟨a, rfl, hmap, rfl⟩
  · rfl
  · rw [privateAddress_inet6]
    constructor
    · rintro (hspec | ⟨-, hpriv⟩)
      · exact absurd hspec (not_specialIpv6_of_mapped hmap)
      · exact hpriv
    · exact fun hpriv => Or.inr ⟨hmap, hpriv⟩

theorem internal_iff (h : s.IsIpv4 q) : Internal s ↔ SpecialIpv4 q.value := by
  constructor
  · rintro (⟨q', h', hspec⟩ | ⟨a, rfl, hspec⟩ | ⟨family, rfl⟩)
    · rwa [h.unique h']
    · rcases h with h | ⟨a', h, hmap, -⟩
      · cases h
      · cases h
        exact absurd hspec (not_specialIpv6_of_mapped hmap)
    · rcases h with h | ⟨a', h, -⟩ <;> cases h
  · exact fun hspec => Or.inl ⟨q, h, hspec⟩

theorem publicIpv4_iff (h : s.IsIpv4 q) : PublicIpv4 s ↔ ¬SpecialIpv4 q.value := by
  constructor
  · rintro ⟨q', h', hpub⟩
    rwa [h.unique h']
  · exact fun hpub => ⟨q, h, hpub⟩

theorem inIpv4_iff (h : s.IsIpv4 q) {block : Set Nat} : s.InIpv4 block ↔ q.value ∈ block := by
  constructor
  · rintro ⟨q', h', hblock⟩
    rwa [h.unique h']
  · exact fun hblock => ⟨q, h, hblock⟩

end SockAddr.IsIpv4

/-- What is no IPv4 address is refused when it is internal. -/
theorem privateAddress_iff_internal {s : SockAddr} (h : ∀ q, ¬s.IsIpv4 q) :
    privateAddress s = true ↔ Internal s := by
  cases s with
  | inet q => exact absurd (Or.inl rfl) (h q)
  | other family => exact ⟨fun _ => Or.inr (Or.inr ⟨family, rfl⟩), fun _ => rfl⟩
  | inet6 a =>
    have hmap : ¬Mapped a.value := fun hmap => h a.q3 (Or.inr ⟨a, rfl, hmap, rfl⟩)
    rw [privateAddress_inet6]
    constructor
    · rintro (hspec | ⟨hmap', -⟩)
      · exact Or.inr (Or.inl ⟨a, rfl, hspec⟩)
      · exact absurd hmap' hmap
    · rintro (⟨q, hq, -⟩ | ⟨a', ha', hspec⟩ | ⟨family, hfam⟩)
      · exact absurd hq (h q)
      · cases ha'
        exact Or.inl hspec
      · cases hfam

/-- **What the filter lets pass is internal in one block**: it does not have `198.18.0.0/15`. -/
theorem internal_iff_of_passed {s : SockAddr} (h : privateAddress s = false) :
    Internal s ↔ s.InIpv4 (ipv4Block 198 18 0 0 15) := by
  rw [← Bool.not_eq_true] at h
  by_cases hv4 : ∃ q, s.IsIpv4 q
  · obtain ⟨q, hq⟩ := hv4
    rw [hq.privateAddress_iff, privateIpv4_iff] at h
    rw [hq.internal_iff, hq.inIpv4_iff]
    unfold SpecialIpv4
    grind
  · rw [not_exists] at hv4
    rw [privateAddress_iff_internal hv4] at h
    exact ⟨fun hint => absurd hint h, fun ⟨q, hq, _⟩ => absurd hq (hv4 q)⟩

/-- **The filter refuses one block of public addresses**: it has `198.126.0.0/15` instead. -/
theorem privateAddress_iff_of_public {s : SockAddr} (h : PublicIpv4 s) :
    privateAddress s = true ↔ s.InIpv4 (ipv4Block 198 126 0 0 15) := by
  obtain ⟨q, hq, hpub⟩ := h
  rw [hq.privateAddress_iff, privateIpv4_iff, hq.inIpv4_iff]
  unfold SpecialIpv4 at hpub
  grind

/-- The two blocks: an internal one, and a public one. -/
theorem internal_of_inIpv4 {s : SockAddr} (h : s.InIpv4 (ipv4Block 198 18 0 0 15)) : Internal s := by
  obtain ⟨q, hq, hblock⟩ := h
  rw [hq.internal_iff]
  unfold SpecialIpv4
  simp only [hblock, true_or, or_true]

theorem publicIpv4_of_inIpv4 {s : SockAddr} (h : s.InIpv4 (ipv4Block 198 126 0 0 15)) :
    PublicIpv4 s := by
  obtain ⟨q, hq, hblock⟩ := h
  rw [hq.publicIpv4_iff]
  unfold SpecialIpv4
  simp only [ipv4Block, mem_block, Nat.reducePow, Nat.reduceSub, Nat.reduceMul, Nat.reduceAdd,
    Nat.reduceDiv] at *
  omega

end Ninfer.Acquire
