import Ninfer.Qwen.Affine

/-!
# The greatest feasible KV capacity

An automatic policy asks for the quotient of the free bytes by the stride, and gets the greatest
number of page groups that fits. The sum of that quotient and the smallest number is the one
operation on the way that is not checked: for a stride of a few bytes it can pass the end of 64 bits,
and the request is refused.

## Main definitions

* `SequenceCapacityCurve.bytes`: the bytes of a number of page groups
* `ResolvesAutomatic`, `ResolvesExplicit`: a policy gets what it asks for
* `Unwrapped`: the sum stays within 64 bits

## Main results

* `resolveKvCapacity_eq_ok_iff`: when a policy is resolved, and to what
* `resolves_iff`: a policy gets what it asks for exactly when the sum stays within 64 bits
-/

namespace Ninfer.Qwen.Layouts

namespace SequenceCapacityCurve

variable {curve : SequenceCapacityCurve} {pages expected : Nat}

/-- The bytes of a number of page groups, on the line. -/
def bytes (curve : SequenceCapacityCurve) (pages : Nat) : Nat :=
  curve.minimumDeviceReservationBytes +
    (pages - curve.minimumMainPageGroups) * curve.bytesPerAdditionalMainPageGroup

/-- The members are words of their types. -/
structure Words (curve : SequenceCapacityCurve) : Prop where
  pages : curve.maximumMainPageGroups ≤ uint32Max
  minimum : curve.minimumDeviceReservationBytes < U64.size
  stride : curve.bytesPerAdditionalMainPageGroup < U64.size

theorem validate_eq_ok_iff : curve.validate = .ok () ↔
    (curve.mainPageTokens ≠ 0 ∧ curve.minimumMainPageGroups ≠ 0 ∧
      curve.minimumMainPageGroups ≤ curve.maximumMainPageGroups ∧
      curve.minimumDeviceReservationBytes ≠ 0) ∧
    (curve.minimumMainPageGroups < curve.maximumMainPageGroups →
      curve.bytesPerAdditionalMainPageGroup ≠ 0) := by
  unfold validate
  rw [check_bind_eq_ok]
  refine and_congr_right fun _ => ⟨fun h => ?_, fun h => check_of h⟩
  unfold check at h
  split_ifs at h with hstride
  exact hstride

/-- A number of page groups is reserved when it is on the curve and its bytes are a word. -/
theorem reservationBytes_eq_ok_iff (hvalid : curve.validate = .ok ()) (hwords : curve.Words) :
    curve.reservationBytes pages = .ok expected ↔ curve.minimumMainPageGroups ≤ pages ∧
      pages ≤ curve.maximumMainPageGroups ∧ expected = curve.bytes pages ∧
      curve.bytes pages < U64.size := by
  constructor
  · intro h
    obtain ⟨hle, hle', rfl, hlt⟩ := reservationBytes_eq_ok hwords.minimum h
    exact ⟨hle, hle', rfl, hlt⟩
  · rintro ⟨hle, hle', rfl, hlt⟩
    have hproduct : (pages - curve.minimumMainPageGroups) * curve.bytesPerAdditionalMainPageGroup <
        U64.size := Nat.lt_of_le_of_lt (Nat.le_add_left ..) hlt
    refine bind_eq_ok.mpr ⟨(), hvalid, check_bind_eq_ok.mpr ⟨⟨hle, hle'⟩, ?_⟩⟩
    refine bind_eq_ok.mpr ⟨_, check_bind_eq_ok.mpr ⟨?_, rfl⟩, ?_⟩
    · rcases Nat.eq_zero_or_pos curve.bytesPerAdditionalMainPageGroup with hzero | hpos
      · exact Or.inl hzero
      · refine Or.inr ((Nat.le_div_iff_mul_le hpos).mpr ?_)
        omega
    · exact (checkedAdd_eq_ok hwords.minimum).mpr ⟨rfl, hlt⟩

/-- The tokens of a number of page groups on the curve. -/
theorem resolvedTokens_eq_ok (hvalid : curve.validate = .ok ())
    (hmax : curve.maximumMainPageGroups * curve.mainPageTokens ≤ uint32Max)
    (hle : curve.minimumMainPageGroups ≤ pages) (hle' : pages ≤ curve.maximumMainPageGroups) :
    curve.resolvedTokens pages = .ok (pages * curve.mainPageTokens) := by
  refine bind_eq_ok.mpr ⟨(), hvalid, check_bind_eq_ok.mpr ⟨⟨hle, hle'⟩, ?_⟩⟩
  exact check_bind_eq_ok.mpr ⟨Nat.le_trans (Nat.mul_le_mul_right _ hle') hmax, rfl⟩

/-- The page groups of an explicit capacity: the tokens by the page size, rounded up. -/
theorem explicitPageGroups_eq_ok_iff {tokens : Nat} (hvalid : curve.validate = .ok ())
    (htokens : tokens ≤ uint32Max) : curve.explicitPageGroups tokens = .ok pages ↔
      tokens ≠ 0 ∧ pages = (tokens + curve.mainPageTokens - 1) / curve.mainPageTokens := by
  have hpage : 0 < curve.mainPageTokens := Nat.pos_of_ne_zero (validate_eq_ok_iff.mp hvalid).1.1
  unfold explicitPageGroups
  rw [check_bind_eq_ok]
  refine and_congr_right fun hne => ?_
  dsimp only
  have hceil : (tokens + curve.mainPageTokens - 1) / curve.mainPageTokens =
      1 + (tokens - 1) / curve.mainPageTokens := by
    have hsum : tokens + curve.mainPageTokens - 1 = tokens - 1 + curve.mainPageTokens := by omega
    rw [hsum, Nat.add_div_right _ hpage, Nat.add_comm]
  have hsmall : 1 + (tokens - 1) / curve.mainPageTokens ≤ uint32Max := by
    have hle := Nat.div_le_self (tokens - 1) curve.mainPageTokens
    omega
  rw [check_bind_eq_ok, hceil]
  constructor
  · rintro ⟨-, h⟩
    exact (Except.ok.inj h).symm
  · rintro rfl
    exact ⟨hsmall, rfl⟩

end SequenceCapacityCurve

/-- `planned_slack_bytes`. -/
def KvCapacityResolution.plannedSlackBytes (r : KvCapacityResolution) : Nat :=
  r.availableAfterWeightsBytes - r.runtimeReservationBytes

variable {curve : SequenceCapacityCurve} {policy : KvCapacityPolicy} {available : Nat}

/-- When a policy is resolved, and to what. -/
theorem resolveKvCapacity_eq_ok_iff (hvalid : curve.validate = .ok ()) (hwords : curve.Words)
    (hmax : curve.maximumMainPageGroups * curve.mainPageTokens ≤ uint32Max)
    {r : KvCapacityResolution} : resolveKvCapacity policy curve available = .ok r ↔
      ∃ pages budget, requestedPages policy curve available = .ok (pages, budget) ∧
        curve.minimumMainPageGroups ≤ pages ∧ pages ≤ curve.maximumMainPageGroups ∧
        curve.bytes pages < U64.size ∧ curve.bytes pages ≤ budget ∧
        r = ⟨pages, curve.maximumMainPageGroups, pages * curve.mainPageTokens,
          curve.minimumDeviceReservationBytes, curve.bytesPerAdditionalMainPageGroup,
          curve.bytes pages, available⟩ := by
  constructor
  · intro h
    obtain ⟨⟨⟩, -, h⟩ := bind_eq_ok.mp h
    obtain ⟨⟨pages, budget⟩, hrequested, h⟩ := bind_eq_ok.mp h
    obtain ⟨reservation, hreservation, h⟩ := bind_eq_ok.mp h
    obtain ⟨hle, hle', rfl, hlt⟩ :=
      (SequenceCapacityCurve.reservationBytes_eq_ok_iff hvalid hwords).mp hreservation
    obtain ⟨hfits, h⟩ := check_bind_eq_ok.mp h
    obtain ⟨tokens, htokens, h⟩ := bind_eq_ok.mp h
    cases (SequenceCapacityCurve.resolvedTokens_eq_ok hvalid hmax hle hle').symm.trans htokens
    exact ⟨pages, budget, hrequested, hle, hle', hlt, hfits, (Except.ok.inj h).symm⟩
  · rintro ⟨pages, budget, hrequested, hle, hle', hlt, hfits, rfl⟩
    have hreservation :=
      (SequenceCapacityCurve.reservationBytes_eq_ok_iff hvalid hwords).mpr ⟨hle, hle', rfl, hlt⟩
    refine bind_eq_ok.mpr ⟨(), hvalid, bind_eq_ok.mpr ⟨_, hrequested, ?_⟩⟩
    refine bind_eq_ok.mpr ⟨_, hreservation, check_bind_eq_ok.mpr ⟨hfits, ?_⟩⟩
    exact bind_eq_ok.mpr
      ⟨_, SequenceCapacityCurve.resolvedTokens_eq_ok hvalid hmax hle hle', rfl⟩

/-! ## Automatic capacity -/

/-- The greatest number of a range that fits, when the smallest does. -/
theorem exists_greatest {lower upper budget : Nat} {cost : Nat → Nat} (hrange : lower ≤ upper)
    (hlower : cost lower ≤ budget) : ∃ n, lower ≤ n ∧ n ≤ upper ∧ cost n ≤ budget ∧
      ∀ more, n < more → more ≤ upper → budget < cost more := by
  induction upper with
  | zero => exact ⟨lower, Nat.le_refl _, hrange, hlower, fun more h h' => by omega⟩
  | succ upper ih =>
    by_cases hfits : cost (upper + 1) ≤ budget
    · exact ⟨upper + 1, hrange, Nat.le_refl _, hfits, fun more h h' => by omega⟩
    · have hne : lower ≠ upper + 1 := by
        rintro rfl
        exact hfits hlower
      obtain ⟨n, hle, hle', hcost, hgreatest⟩ := ih (by omega)
      refine ⟨n, hle, Nat.le_succ_of_le hle', hcost, fun more hmore hmore' => ?_⟩
      rcases Nat.lt_or_eq_of_le hmore' with hlt | rfl
      · exact hgreatest more hmore (Nat.le_of_lt_succ hlt)
      · exact Nat.lt_of_not_le hfits

/-- The number of page groups an automatic policy asks for, and its budget. -/
theorem requestedPages_automatic_eq_ok_iff {headroom pages budget : Nat} :
    requestedPages (.automatic headroom) curve available = .ok (pages, budget) ↔
      headroom + curve.minimumDeviceReservationBytes ≤ available ∧ budget = available - headroom ∧
      pages = if curve.minimumMainPageGroups < curve.maximumMainPageGroups then
          min ((curve.minimumMainPageGroups +
              (available - headroom - curve.minimumDeviceReservationBytes) /
                curve.bytesPerAdditionalMainPageGroup) % U64.size) curve.maximumMainPageGroups
        else curve.minimumMainPageGroups := by
  show (check _ _ >>= fun _ => _) = _ ↔ _
  rw [check_bind_eq_ok]
  dsimp only
  rw [check_bind_eq_ok]
  split_ifs with hexpandable
  · constructor
    · rintro ⟨hheadroom, hminimum, h⟩
      cases h
      exact ⟨by omega, rfl, rfl⟩
    · rintro ⟨hfits, rfl, rfl⟩
      exact ⟨by omega, by omega, rfl⟩
  · constructor
    · rintro ⟨hheadroom, hminimum, h⟩
      cases h
      exact ⟨by omega, rfl, rfl⟩
    · rintro ⟨hfits, rfl, rfl⟩
      exact ⟨by omega, by omega, rfl⟩

/-- An automatic policy gets the greatest number of page groups that fits, and is resolved whenever
the smallest fits; the products and sums on the way are words. -/
structure ResolvesAutomatic (curve : SequenceCapacityCurve) (headroom available : Nat) : Prop where
  succeeds : (∃ r, resolveKvCapacity (.automatic headroom) curve available = .ok r) ↔
    headroom + curve.minimumDeviceReservationBytes ≤ available
  greatest : ∀ r, resolveKvCapacity (.automatic headroom) curve available = .ok r →
    curve.minimumMainPageGroups ≤ r.mainPageGroups ∧
    r.mainPageGroups ≤ curve.maximumMainPageGroups ∧
    curve.bytes r.mainPageGroups + headroom ≤ available ∧
    ∀ pages, r.mainPageGroups < pages → pages ≤ curve.maximumMainPageGroups →
      available < curve.bytes pages + headroom
  slack : ∀ r, resolveKvCapacity (.automatic headroom) curve available = .ok r →
    r.plannedSlackBytes + r.runtimeReservationBytes = available
  words : ∀ r, resolveKvCapacity (.automatic headroom) curve available = .ok r →
    curve.bytes r.mainPageGroups < U64.size ∧
      r.mainPageGroups * curve.mainPageTokens < U64.size ∧
      (curve.minimumMainPageGroups < curve.maximumMainPageGroups →
        curve.minimumMainPageGroups +
          (available - headroom - curve.minimumDeviceReservationBytes) /
            curve.bytesPerAdditionalMainPageGroup < U64.size)

/-- The sum of the smallest number and the quotient is a word. -/
def Unwrapped (curve : SequenceCapacityCurve) (headroom available : Nat) : Prop :=
  curve.minimumMainPageGroups < curve.maximumMainPageGroups →
    headroom + curve.minimumDeviceReservationBytes ≤ available →
      curve.minimumMainPageGroups +
        (available - headroom - curve.minimumDeviceReservationBytes) /
          curve.bytesPerAdditionalMainPageGroup < U64.size

section Automatic

variable {headroom : Nat}

/-- What an automatic policy is resolved to, when the sum is a word. -/
theorem resolveKvCapacity_automatic_eq_ok_iff (hvalid : curve.validate = .ok ())
    (hwords : curve.Words) (hmax : curve.maximumMainPageGroups * curve.mainPageTokens ≤ uint32Max)
    (havailable : available < U64.size) (hunwrapped : Unwrapped curve headroom available)
    {r : KvCapacityResolution} :
    resolveKvCapacity (.automatic headroom) curve available = .ok r ↔
      headroom + curve.minimumDeviceReservationBytes ≤ available ∧
        ∃ pages, curve.minimumMainPageGroups ≤ pages ∧ pages ≤ curve.maximumMainPageGroups ∧
          curve.bytes pages + headroom ≤ available ∧
          (∀ more, pages < more → more ≤ curve.maximumMainPageGroups →
            available < curve.bytes more + headroom) ∧
          r = ⟨pages, curve.maximumMainPageGroups, pages * curve.mainPageTokens,
            curve.minimumDeviceReservationBytes, curve.bytesPerAdditionalMainPageGroup,
            curve.bytes pages, available⟩ := by
  obtain ⟨⟨-, -, hrange, -⟩, hstride⟩ := SequenceCapacityCurve.validate_eq_ok_iff.mp hvalid
  rw [resolveKvCapacity_eq_ok_iff hvalid hwords hmax]
  constructor
  · rintro ⟨pages, budget, hrequested, hle, hle', -, hfits, rfl⟩
    obtain ⟨hminimum, rfl, hpages⟩ := requestedPages_automatic_eq_ok_iff.mp hrequested
    refine ⟨hminimum, pages, hle, hle', by omega, fun more hmore hmore' => ?_, rfl⟩
    -- More page groups than the quotient take more than the budget.
    have hexpandable : curve.minimumMainPageGroups < curve.maximumMainPageGroups := by omega
    have hword := hunwrapped hexpandable hminimum
    have hpos : 0 < curve.bytesPerAdditionalMainPageGroup :=
      Nat.pos_of_ne_zero (hstride hexpandable)
    rw [if_pos hexpandable, Nat.mod_eq_of_lt hword] at hpages
    have hquotient : (available - headroom - curve.minimumDeviceReservationBytes) /
        curve.bytesPerAdditionalMainPageGroup < more - curve.minimumMainPageGroups := by omega
    have hproduct := (Nat.div_lt_iff_lt_mul hpos).mp hquotient
    unfold SequenceCapacityCurve.bytes
    omega
  · rintro ⟨hminimum, pages, hle, hle', hfits, hgreatest, rfl⟩
    refine ⟨pages, available - headroom, requestedPages_automatic_eq_ok_iff.mpr
      ⟨hminimum, rfl, ?_⟩, hle, hle', by omega, by omega, rfl⟩
    split_ifs with hexpandable
    · have hword := hunwrapped hexpandable hminimum
      have hpos : 0 < curve.bytesPerAdditionalMainPageGroup :=
        Nat.pos_of_ne_zero (hstride hexpandable)
      rw [Nat.mod_eq_of_lt hword]
      have hlower : pages - curve.minimumMainPageGroups ≤
          (available - headroom - curve.minimumDeviceReservationBytes) /
            curve.bytesPerAdditionalMainPageGroup := by
        refine (Nat.le_div_iff_mul_le hpos).mpr ?_
        unfold SequenceCapacityCurve.bytes at hfits
        omega
      by_contra hne
      have hmore : pages < curve.maximumMainPageGroups := by omega
      have hless := hgreatest (pages + 1) (Nat.lt_succ_self pages) hmore
      have hupper : pages + 1 - curve.minimumMainPageGroups ≤
          (available - headroom - curve.minimumDeviceReservationBytes) /
            curve.bytesPerAdditionalMainPageGroup := by omega
      have hproduct := (Nat.le_div_iff_mul_le hpos).mp hupper
      unfold SequenceCapacityCurve.bytes at hless
      omega
    · omega

/-- A sum that is not a word makes a policy fail which has room for the smallest number. -/
theorem resolveKvCapacity_wraps (hvalid : curve.validate = .ok ()) (hwords : curve.Words)
    (hmax : curve.maximumMainPageGroups * curve.mainPageTokens ≤ uint32Max)
    (havailable : available < U64.size) (hwraps : ¬ Unwrapped curve headroom available) :
    headroom + curve.minimumDeviceReservationBytes ≤ available ∧
      ¬ ∃ r, resolveKvCapacity (.automatic headroom) curve available = .ok r := by
  unfold Unwrapped at hwraps
  push Not at hwraps
  obtain ⟨hexpandable, hminimum, hword⟩ := hwraps
  refine ⟨hminimum, ?_⟩
  rintro ⟨r, hr⟩
  obtain ⟨pages, budget, hrequested, hle, -⟩ :=
    (resolveKvCapacity_eq_ok_iff hvalid hwords hmax).mp hr
  obtain ⟨-, -, hpages⟩ := requestedPages_automatic_eq_ok_iff.mp hrequested
  have hquotient := Nat.div_le_self (available - headroom - curve.minimumDeviceReservationBytes)
    curve.bytesPerAdditionalMainPageGroup
  have hpagesWord := hwords.pages
  have hsmall : uint32Max < U64.size := by
    unfold uint32Max U64.size
    omega
  -- The remainder is below the smallest number of the curve.
  generalize U64.size = size at *
  rw [if_pos hexpandable, Nat.mod_eq_sub_mod hword, Nat.mod_eq_of_lt (by omega)] at hpages
  omega

theorem resolvesAutomatic_iff (hvalid : curve.validate = .ok ()) (hwords : curve.Words)
    (hmax : curve.maximumMainPageGroups * curve.mainPageTokens ≤ uint32Max)
    (havailable : available < U64.size) :
    ResolvesAutomatic curve headroom available ↔ Unwrapped curve headroom available := by
  constructor
  · intro h
    by_contra hwraps
    obtain ⟨hminimum, hfails⟩ := resolveKvCapacity_wraps hvalid hwords hmax havailable hwraps
    exact hfails (h.succeeds.mpr hminimum)
  · intro hunwrapped
    obtain ⟨⟨-, -, hrange, -⟩, hstride⟩ := SequenceCapacityCurve.validate_eq_ok_iff.mp hvalid
    have hiff := fun r => resolveKvCapacity_automatic_eq_ok_iff hvalid hwords hmax havailable
      hunwrapped (r := r)
    refine ⟨⟨?_, ?_⟩, fun r hr => ?_, fun r hr => ?_, fun r hr => ?_⟩
    · rintro ⟨r, hr⟩
      exact ((hiff r).mp hr).1
    · intro hminimum
      obtain ⟨pages, hle, hle', hfits, hgreatest⟩ :
          ∃ pages, curve.minimumMainPageGroups ≤ pages ∧ pages ≤ curve.maximumMainPageGroups ∧
            curve.bytes pages + headroom ≤ available ∧
            ∀ more, pages < more → more ≤ curve.maximumMainPageGroups →
              available < curve.bytes more + headroom := by
        refine exists_greatest hrange ?_
        unfold SequenceCapacityCurve.bytes
        rw [Nat.sub_self, Nat.zero_mul]
        omega
      exact ⟨_, (hiff _).mpr ⟨hminimum, pages, hle, hle', hfits, hgreatest, rfl⟩⟩
    · obtain ⟨-, pages, hle, hle', hfits, hgreatest, rfl⟩ := (hiff r).mp hr
      exact ⟨hle, hle', hfits, hgreatest⟩
    · obtain ⟨-, pages, -, -, hfits, -, rfl⟩ := (hiff r).mp hr
      show available - curve.bytes pages + curve.bytes pages = available
      omega
    · obtain ⟨hminimum, pages, hle, hle', hfits, -, rfl⟩ := (hiff r).mp hr
      have htokens := Nat.le_trans (Nat.mul_le_mul_right curve.mainPageTokens hle') hmax
      have hsmall : uint32Max < U64.size := by
        unfold uint32Max U64.size
        omega
      have hbytes : curve.bytes pages ≤ available := by omega
      exact ⟨Nat.lt_of_le_of_lt hbytes havailable, Nat.lt_of_le_of_lt htokens hsmall,
        fun hexpandable => hunwrapped hexpandable hminimum⟩

end Automatic

/-! ## Explicit capacity -/

/-- The page groups that hold a number of tokens. -/
def SequenceCapacityCurve.pagesFor (curve : SequenceCapacityCurve) (tokens : Nat) : Nat :=
  (tokens + curve.mainPageTokens - 1) / curve.mainPageTokens

/-- An explicit policy gets the page groups that hold its tokens, exactly when they are on the curve
and fit. -/
structure ResolvesExplicit (curve : SequenceCapacityCurve) (tokens available : Nat) : Prop where
  succeeds : (∃ r, resolveKvCapacity (.explicit tokens 0) curve available = .ok r) ↔
    curve.minimumMainPageGroups ≤ curve.pagesFor tokens ∧
      curve.pagesFor tokens ≤ curve.maximumMainPageGroups ∧
      curve.bytes (curve.pagesFor tokens) ≤ available
  exact : ∀ r, resolveKvCapacity (.explicit tokens 0) curve available = .ok r →
    r.mainPageGroups = curve.pagesFor tokens
  slack : ∀ r, resolveKvCapacity (.explicit tokens 0) curve available = .ok r →
    r.plannedSlackBytes + r.runtimeReservationBytes = available
  words : ∀ r, resolveKvCapacity (.explicit tokens 0) curve available = .ok r →
    curve.bytes r.mainPageGroups < U64.size ∧ r.mainPageGroups * curve.mainPageTokens < U64.size

theorem requestedPages_explicit_eq_ok_iff {tokens pages budget : Nat}
    (hvalid : curve.validate = .ok ()) (htokens : tokens ≤ uint32Max) :
    requestedPages (.explicit tokens 0) curve available = .ok (pages, budget) ↔
      tokens ≠ 0 ∧ pages = curve.pagesFor tokens ∧ budget = available := by
  have hpages : curve.explicitPageGroups tokens = .ok pages ↔ _ :=
    SequenceCapacityCurve.explicitPageGroups_eq_ok_iff hvalid htokens
  show (check _ _ >>= fun _ => _) = _ ↔ _
  rw [check_bind_eq_ok]
  constructor
  · rintro ⟨-, h⟩
    obtain ⟨pages', hpages', h⟩ := bind_eq_ok.mp h
    cases h
    obtain ⟨hne, hcount⟩ := hpages.mp hpages'
    exact ⟨hne, hcount, rfl⟩
  · rintro ⟨hne, hcount, rfl⟩
    exact ⟨rfl, bind_eq_ok.mpr ⟨pages, hpages.mpr ⟨hne, hcount⟩, rfl⟩⟩

theorem resolvesExplicit (hvalid : curve.validate = .ok ()) (hwords : curve.Words)
    (hmax : curve.maximumMainPageGroups * curve.mainPageTokens ≤ uint32Max)
    (havailable : available < U64.size) {tokens : Nat} (htokens : tokens ≤ uint32Max) :
    ResolvesExplicit curve tokens available := by
  obtain ⟨⟨hpage, hminimum, -, -⟩, -⟩ := SequenceCapacityCurve.validate_eq_ok_iff.mp hvalid
  have hiff : ∀ r, resolveKvCapacity (.explicit tokens 0) curve available = .ok r →
      curve.minimumMainPageGroups ≤ curve.pagesFor tokens ∧
        curve.pagesFor tokens ≤ curve.maximumMainPageGroups ∧
        curve.bytes (curve.pagesFor tokens) ≤ available ∧
        r = ⟨curve.pagesFor tokens, curve.maximumMainPageGroups,
          curve.pagesFor tokens * curve.mainPageTokens, curve.minimumDeviceReservationBytes,
          curve.bytesPerAdditionalMainPageGroup, curve.bytes (curve.pagesFor tokens), available⟩ := by
    intro r hr
    obtain ⟨pages, budget, hrequested, hle, hle', -, hfits, rfl⟩ :=
      (resolveKvCapacity_eq_ok_iff hvalid hwords hmax).mp hr
    obtain ⟨-, rfl, rfl⟩ := (requestedPages_explicit_eq_ok_iff hvalid htokens).mp hrequested
    exact ⟨hle, hle', hfits, rfl⟩
  refine ⟨⟨?_, ?_⟩, fun r hr => ?_, fun r hr => ?_, fun r hr => ?_⟩
  · rintro ⟨r, hr⟩
    obtain ⟨hle, hle', hfits, -⟩ := hiff r hr
    exact ⟨hle, hle', hfits⟩
  · rintro ⟨hle, hle', hfits⟩
    have hne : tokens ≠ 0 := by
      rintro rfl
      have hzero : curve.pagesFor 0 = 0 := Nat.div_eq_of_lt (by omega)
      omega
    exact ⟨_, (resolveKvCapacity_eq_ok_iff hvalid hwords hmax).mpr ⟨_, _,
      (requestedPages_explicit_eq_ok_iff hvalid htokens).mpr ⟨hne, rfl, rfl⟩, hle, hle',
      Nat.lt_of_le_of_lt hfits havailable, hfits, rfl⟩⟩
  · obtain ⟨-, -, -, rfl⟩ := hiff r hr
    rfl
  · obtain ⟨-, -, hfits, rfl⟩ := hiff r hr
    show available - curve.bytes (curve.pagesFor tokens) + curve.bytes (curve.pagesFor tokens) =
      available
    omega
  · obtain ⟨-, hle', hfits, rfl⟩ := hiff r hr
    have hproduct := Nat.le_trans (Nat.mul_le_mul_right curve.mainPageTokens hle') hmax
    have hsmall : uint32Max < U64.size := by
      unfold uint32Max U64.size
      omega
    exact ⟨Nat.lt_of_le_of_lt hfits havailable, Nat.lt_of_le_of_lt hproduct hsmall⟩

/-! ## Policies -/

/-- The members are words of their types, and explicit tokens carry no headroom. -/
def KvCapacityPolicy.Valid : KvCapacityPolicy → Prop
  | .explicit tokens headroom => tokens ≤ uint32Max ∧ headroom = 0
  | .automatic headroom => headroom < U64.size

/-- A policy gets what it asks for. -/
def Resolves (curve : SequenceCapacityCurve) (available : Nat) : KvCapacityPolicy → Prop
  | .explicit tokens _ => ResolvesExplicit curve tokens available
  | .automatic headroom => ResolvesAutomatic curve headroom available

/-- The sum on the way to an automatic capacity is a word. -/
def KvCapacityPolicy.Unwrapped (curve : SequenceCapacityCurve) (available : Nat) :
    KvCapacityPolicy → Prop
  | .explicit _ _ => True
  | .automatic headroom => Layouts.Unwrapped curve headroom available

/-- **A policy gets what it asks for exactly when the sum of the smallest number of page groups and
the quotient of the free bytes by the stride is a 64-bit word**: an automatic policy the greatest
number that fits, an explicit one the number that holds its tokens. -/
theorem resolves_iff (curve : SequenceCapacityCurve) (policy : KvCapacityPolicy) (available : Nat)
    (hvalid : curve.validate = .ok ()) (hwords : curve.Words)
    (hmax : curve.maximumMainPageGroups * curve.mainPageTokens ≤ uint32Max)
    (hpolicy : policy.Valid) (havailable : available < U64.size) :
    Resolves curve available policy ↔ policy.Unwrapped curve available := by
  cases policy with
  | explicit tokens headroom =>
    exact iff_of_true (resolvesExplicit hvalid hwords hmax havailable hpolicy.1) trivial
  | automatic headroom => exact resolvesAutomatic_iff hvalid hwords hmax havailable

/-- A curve from two page groups to six. -/
def sampleCurve (minimum stride : Nat) : SequenceCapacityCurve where
  mainPageTokens := 64
  minimumMainPageGroups := 2
  maximumMainPageGroups := 6
  minimumDeviceReservationBytes := minimum
  bytesPerAdditionalMainPageGroup := stride

theorem sampleCurve_resolves : Resolves (sampleCurve 1000 128) 1360 (.automatic 50) := by
  refine (resolves_iff (sampleCurve 1000 128) (.automatic 50) 1360 rfl ⟨?_, ?_, ?_⟩ ?_ ?_ ?_).mpr
    fun _ _ => ?_
  all_goals
    simp only [sampleCurve, uint32Max, U64.size, KvCapacityPolicy.Valid]
    omega

/-- A byte for the smallest number, a byte for every other, and all of a 64-bit space: the sum is
the number of its words, and the policy fails. -/
theorem sampleCurve_not_resolves :
    ¬ Resolves (sampleCurve 1 1) (U64.size - 1) (.automatic 0) := by
  intro h
  have hfits : 0 + (sampleCurve 1 1).minimumDeviceReservationBytes ≤ U64.size - 1 := by
    simp only [sampleCurve, U64.size]
    omega
  obtain ⟨r, hr⟩ := h.succeeds.mpr hfits
  have hwords : (sampleCurve 1 1).Words := by
    refine ⟨?_, ?_, ?_⟩ <;> simp only [sampleCurve, uint32Max, U64.size] <;> omega
  have hfails : ¬ ∃ r, resolveKvCapacity (.automatic 0) (sampleCurve 1 1) (U64.size - 1) = .ok r := by
    refine (resolveKvCapacity_wraps rfl hwords ?_ ?_ fun hunwrapped => ?_).2
    · simp only [sampleCurve, uint32Max]
      omega
    · simp only [U64.size]
      omega
    · have hword := hunwrapped (by decide) hfits
      simp only [sampleCurve, U64.size, Nat.div_one] at hword
      omega
  exact hfails ⟨r, hr⟩

end Ninfer.Qwen.Layouts
