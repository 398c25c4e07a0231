import Ninfer.Artifact.Materializer

/-!
# Ranges, spans and chunks

What the loops of the materializer make of ranges of the file that are in order and do not overlap:
the spans start aligned, lie apart after rounding up, and hold every range; the cursor finds for a
chunk the copies of all ranges that reach into it, and the bytes copied are those before its end.

## Main definitions

* `Ordered`: ranges in order, none of them empty
* `Spans`: what the spans of some ranges are
* `pieceOf`, `piecesOf`: the copy of a range that a chunk holds part of, and those of all ranges
* `bytesBefore`: how many bytes of the ranges lie before a position

## Main results

* `spans_of_ordered`: the spans of ranges in order
* `alignedBytes_of_spans`: the sum of what they read does not overflow
* `copyRanges_eq`: the cursor copies what all the ranges have in the chunk
* `countP_piecesOf`: a byte of a range is copied with the chunk that holds it, once
-/

namespace Ninfer.Artifact.Materializer

open Staging

/-- Ranges that are not empty, one behind the other. -/
structure Ordered (ranges : List CopyRange) : Prop where
  pos : ∀ range ∈ ranges, range.sourceBegin < range.sourceEnd
  pairwise : ranges.Pairwise fun a b => a.sourceEnd ≤ b.sourceBegin

theorem Ordered.tail {range : CopyRange} {ranges : List CopyRange} (h : Ordered (range :: ranges)) :
    Ordered ranges :=
  ⟨fun r hr => h.pos r (List.mem_cons_of_mem _ hr), h.pairwise.of_cons⟩

theorem Ordered.sublist {ranges ranges' : List CopyRange} (h : Ordered ranges)
    (hsub : ranges'.Sublist ranges) : Ordered ranges' :=
  ⟨fun r hr => h.pos r (hsub.subset hr), h.pairwise.sublist hsub⟩

section Checked

variable {a b n : Nat} {label : String}

theorem checkedAdd_of_lt (h : a + b < U64.size) : checkedAdd a b label = .ok (a + b) := by
  unfold checkedAdd
  rw [ensure_bind_of (by omega)]
  rfl

theorem directIoAlignment_pos : 0 < directIoAlignment := by simp [directIoAlignment]

theorem alignUp_of_lt (h : a + directIoAlignment < U64.size) :
    alignUp a directIoAlignment label = .ok (roundUp a directIoAlignment) := by
  have hpos := directIoAlignment_pos
  unfold alignUp
  rw [checkedAdd_of_lt (by omega)]
  rfl

theorem alignDown_le : alignDown a directIoAlignment ≤ a := Nat.div_mul_le_self _ _

theorem dvd_alignDown : directIoAlignment ∣ alignDown a directIoAlignment := Nat.dvd_mul_left _ _

/-- Rounding up adds less than the alignment. -/
theorem roundUp_lt (a : Nat) : roundUp a directIoAlignment < a + directIoAlignment := by
  have hpos := directIoAlignment_pos
  have := Nat.div_mul_le_self (a + (directIoAlignment - 1)) directIoAlignment
  unfold roundUp
  omega

end Checked

/-! ### Spans -/

/-- The spans start aligned, lie apart even after rounding up, hold every range, and end where one
of the ranges does. -/
structure Spans (ranges : List CopyRange) (spans : List ReadSpan) : Prop where
  aligned : ∀ span ∈ spans, directIoAlignment ∣ span.start
  pos : ∀ span ∈ spans, span.start < span.stop
  apart : spans.Pairwise fun a b => roundUp a.stop directIoAlignment < b.start
  holds : ∀ range ∈ ranges, ∃ span ∈ spans,
    span.start ≤ range.sourceBegin ∧ range.sourceEnd ≤ span.stop
  ends : ∀ span ∈ spans, ∃ range ∈ ranges, span.stop = range.sourceEnd

theorem Spans.nil : Spans [] [] := ⟨by simp, by simp, by simp, by simp, by simp⟩

/-- One more range, behind all others. -/
theorem Spans.addSpan {ranges : List CopyRange} {spans : List ReadSpan} (h : Spans ranges spans)
    {range : CopyRange} (hpos : range.sourceBegin < range.sourceEnd)
    (hbehind : ∀ r ∈ ranges, r.sourceEnd ≤ range.sourceBegin)
    (hfits : range.sourceEnd + directIoAlignment < U64.size) :
    ∃ spans', addSpan spans range = .ok spans' ∧ Spans (ranges ++ [range]) spans' := by
  have hdown := alignDown_le (a := range.sourceBegin)
  -- every span so far ends before the range
  have hstop : ∀ span ∈ spans, span.stop ≤ range.sourceBegin := by
    intro span hs
    obtain ⟨r, hr, he⟩ := h.ends span hs
    exact he ▸ hbehind r hr
  have hkept : ∀ spans' : List ReadSpan, (∀ span ∈ spans, ∃ span' ∈ spans',
      span'.start ≤ span.start ∧ span.stop ≤ span'.stop) → ∀ r ∈ ranges, ∃ span ∈ spans',
        span.start ≤ r.sourceBegin ∧ r.sourceEnd ≤ span.stop := by
    intro spans' hspans r hr
    obtain ⟨span, hs, hb, he⟩ := h.holds r hr
    obtain ⟨span', hs', hb', he'⟩ := hspans span hs
    exact ⟨span', hs', hb'.trans hb, he.trans he'⟩
  rcases List.eq_nil_or_concat spans with rfl | ⟨front, back, rfl⟩
  · refine ⟨[⟨alignDown range.sourceBegin directIoAlignment, range.sourceEnd⟩], rfl, ?_⟩
    have hnone : ranges = [] := by
      rcases ranges with - | ⟨r, ranges⟩
      · rfl
      · obtain ⟨span, hs, -⟩ := h.holds r (List.mem_cons_self ..)
        cases hs
    subst hnone
    refine ⟨by simp [dvd_alignDown], ?_, by simp, by simp [hdown], by simp⟩
    simp only [List.mem_singleton, forall_eq]
    omega
  · rw [List.concat_eq_append] at *
    have hback : back ∈ front ++ [back] := by simp
    have hlast := hstop back hback
    have hgetLast : (front ++ [back]).getLast? = some back := by simp
    unfold Materializer.addSpan
    dsimp only
    rw [hgetLast]
    dsimp only
    rw [alignUp_of_lt (by omega), ok_bind]
    by_cases hfar : roundUp back.stop directIoAlignment <
        alignDown range.sourceBegin directIoAlignment
    · -- a new span, apart from the last one and so from the earlier ones
      rw [if_pos hfar]
      refine ⟨_, rfl, ?_, ?_, ?_, ?_, ?_⟩
      · intro span hs
        rcases List.mem_append.mp hs with hs | hs
        · exact h.aligned span hs
        · rw [List.mem_singleton.mp hs]
          exact dvd_alignDown
      · intro span hs
        rcases List.mem_append.mp hs with hs | hs
        · exact h.pos span hs
        · rw [List.mem_singleton.mp hs]
          dsimp only
          omega
      · rw [List.pairwise_append]
        refine ⟨h.apart, by simp, ?_⟩
        intro span hs span' hs'
        rw [List.mem_singleton.mp hs']
        rcases List.mem_append.mp hs with hs | hs
        · have hbefore := (List.pairwise_append.mp h.apart).2.2 span hs back (by simp)
          have hstart := h.pos back hback
          have := le_roundUp back.stop directIoAlignment_pos
          dsimp only
          omega
        · rw [List.mem_singleton.mp hs]
          exact hfar
      · intro r hr
        rcases List.mem_append.mp hr with hr | hr
        · exact hkept _ (fun span hs =>
            ⟨span, List.mem_append_left _ hs, le_refl _, le_refl _⟩) r hr
        · rw [List.mem_singleton.mp hr]
          exact ⟨_, List.mem_append_right _ (List.mem_singleton_self _), hdown, le_refl _⟩
      · intro span hs
        rcases List.mem_append.mp hs with hs | hs
        · obtain ⟨r, hr, he⟩ := h.ends span hs
          exact ⟨r, List.mem_append_left _ hr, he⟩
        · rw [List.mem_singleton.mp hs]
          exact ⟨range, by simp, rfl⟩
    · -- the last span grows to the end of the range
      rw [if_neg hfar, List.dropLast_concat, Nat.max_eq_right (by omega)]
      have hstart := h.pos back hback
      refine ⟨_, rfl, ?_, ?_, ?_, ?_, ?_⟩
      · intro span hs
        rcases List.mem_append.mp hs with hs | hs
        · exact h.aligned span (List.mem_append_left _ hs)
        · rw [List.mem_singleton.mp hs]
          exact h.aligned back hback
      · intro span hs
        rcases List.mem_append.mp hs with hs | hs
        · exact h.pos span (List.mem_append_left _ hs)
        · rw [List.mem_singleton.mp hs]
          dsimp only
          omega
      · rw [List.pairwise_append] at *
        refine ⟨(List.pairwise_append.mp h.apart).1, by simp, ?_⟩
        intro span hs span' hs'
        rw [List.mem_singleton.mp hs']
        exact (List.pairwise_append.mp h.apart).2.2 span hs back (by simp)
      · intro r hr
        rcases List.mem_append.mp hr with hr | hr
        · refine hkept _ (fun span hs => ?_) r hr
          rcases List.mem_append.mp hs with hs | hs
          · exact ⟨span, List.mem_append_left _ hs, le_refl _, le_refl _⟩
          · rw [List.mem_singleton.mp hs]
            exact ⟨_, List.mem_append_right _ (List.mem_singleton_self _), le_refl _,
              by dsimp only; omega⟩
        · rw [List.mem_singleton.mp hr]
          refine ⟨_, List.mem_append_right _ (List.mem_singleton_self _), ?_, le_refl _⟩
          dsimp only
          omega
      · intro span hs
        rcases List.mem_append.mp hs with hs | hs
        · obtain ⟨r, hr, he⟩ := h.ends span (List.mem_append_left _ hs)
          exact ⟨r, List.mem_append_left _ hr, he⟩
        · rw [List.mem_singleton.mp hs]
          exact ⟨range, by simp, rfl⟩

/-- **The spans of ranges in order.** -/
theorem spans_of_ordered {ranges : List CopyRange} (h : Ordered ranges)
    (hfits : ∀ range ∈ ranges, range.sourceEnd + directIoAlignment < U64.size) :
    ∃ spans, ranges.foldlM addSpan [] = .ok spans ∧ Spans ranges spans := by
  induction ranges using List.reverseRecOn with
  | nil => exact ⟨[], rfl, Spans.nil⟩
  | append_singleton ranges range ih =>
    obtain ⟨spans, hfold, hspans⟩ := ih (h.sublist (List.sublist_append_left _ _))
      fun r hr => hfits r (List.mem_append_left _ hr)
    have hbehind : ∀ r ∈ ranges, r.sourceEnd ≤ range.sourceBegin := fun r hr =>
      (List.pairwise_append.mp h.pairwise).2.2 r hr range (by simp)
    obtain ⟨spans', hadd, hspans'⟩ := hspans.addSpan (h.pos range (by simp)) hbehind
      (hfits range (by simp))
    refine ⟨spans', ?_, hspans'⟩
    rw [List.foldlM_append, hfold, ok_bind, List.foldlM_cons, hadd, ok_bind]
    rfl

/-- What spans that lie apart read: a multiple of the alignment, and no more than there is up to
the end of the last. -/
theorem alignedBytes_of_spans {spans : List ReadSpan} {start stop : Nat} (sum : Nat)
    (haligned : ∀ span ∈ spans, directIoAlignment ∣ span.start)
    (hpos : ∀ span ∈ spans, span.start < span.stop)
    (hapart : spans.Pairwise fun a b => roundUp a.stop directIoAlignment < b.start)
    (hstart : ∀ span ∈ spans, start ≤ span.start)
    (hstop : ∀ span ∈ spans, roundUp span.stop directIoAlignment ≤ stop)
    (hle : start ≤ stop) (hfits : sum + (stop - start) + directIoAlignment < U64.size) :
    ∃ bytes, spans.foldlM addAlignedBytes sum = .ok (sum + bytes) ∧ directIoAlignment ∣ bytes ∧
      bytes ≤ stop - start ∧ (spans ≠ [] → 0 < bytes) := by
  induction spans generalizing start sum with
  | nil => exact ⟨0, rfl, Nat.dvd_zero _, Nat.zero_le _, by simp⟩
  | cons span spans ih =>
    simp only [List.mem_cons, forall_eq_or_imp] at haligned hpos hstart hstop
    have hround : roundUp (span.stop - span.start) directIoAlignment =
        roundUp span.stop directIoAlignment - span.start := by
      have hadd : roundUp (span.start + (span.stop - span.start)) directIoAlignment = _ :=
        roundUp_add directIoAlignment_pos haligned.1
      rw [Nat.add_sub_cancel' hpos.1.le] at hadd
      omega
    have hup := le_roundUp span.stop directIoAlignment_pos
    have hspan := hstop.1
    have hrest : ∀ s ∈ spans, roundUp span.stop directIoAlignment ≤ s.start := fun s hs =>
      (List.rel_of_pairwise_cons hapart hs).le
    obtain ⟨bytes, hfold, hdvd, hbytes, -⟩ := ih
      (sum + (roundUp span.stop directIoAlignment - span.start)) haligned.2 hpos.2 hapart.of_cons
      hrest hstop.2 hspan (by omega)
    refine ⟨(roundUp span.stop directIoAlignment - span.start) + bytes, ?_, ?_, ?_, ?_⟩
    · rw [List.foldlM_cons]
      unfold addAlignedBytes at hfold ⊢
      rw [alignUp_of_lt (by omega), ok_bind, checkedAdd_of_lt (by omega), ok_bind, hround, hfold,
        Nat.add_assoc]
    · exact Nat.dvd_add (Nat.dvd_sub (dvd_roundUp _ _) haligned.1) hdvd
    · omega
    · intro _
      omega

/-! ### Chunks -/

/-- The copy of what a chunk holds of a range. -/
def pieceOf (source chunkEnd : Nat) (range : CopyRange) : Option Piece :=
  if max source range.sourceBegin < min chunkEnd range.sourceEnd then
    some ⟨max source range.sourceBegin - source,
      min chunkEnd range.sourceEnd - max source range.sourceBegin,
      range.destination + (max source range.sourceBegin - range.sourceBegin)⟩
  else none

/-- The copies of what a chunk holds of the ranges. -/
def piecesOf (source chunkEnd : Nat) (ranges : List CopyRange) : List Piece :=
  ranges.filterMap (pieceOf source chunkEnd)

/-- How many bytes of the ranges lie before a position. -/
def bytesBefore (position : Nat) (ranges : List CopyRange) : Nat :=
  (ranges.map fun range => min position range.sourceEnd - range.sourceBegin).sum

theorem pieceOf_eq_none {source chunkEnd : Nat} {range : CopyRange}
    (h : range.sourceEnd ≤ source ∨ chunkEnd ≤ range.sourceBegin) :
    pieceOf source chunkEnd range = none := by
  unfold pieceOf
  rw [if_neg (by omega)]

theorem bytesBefore_cons (position : Nat) (range : CopyRange) (ranges : List CopyRange) :
    bytesBefore position (range :: ranges) =
      (min position range.sourceEnd - range.sourceBegin) + bytesBefore position ranges := by
  simp [bytesBefore]

/-- The bytes before two positions with no byte of a range between them. -/
theorem bytesBefore_congr {p q : Nat} {ranges : List CopyRange} (hle : p ≤ q)
    (hgap : ∀ range ∈ ranges, min q range.sourceEnd ≤ max p range.sourceBegin) :
    bytesBefore p ranges = bytesBefore q ranges := by
  unfold bytesBefore
  congr 1
  refine List.map_congr_left fun range hr => ?_
  have := hgap range hr
  omega

theorem bytesBefore_mono {p q : Nat} (ranges : List CopyRange) (hle : p ≤ q) :
    bytesBefore p ranges ≤ bytesBefore q ranges := by
  unfold bytesBefore
  apply List.sum_le_sum
  intro range _
  omega

/-- The cursor of a later position, from the cursor of an earlier one. -/
theorem dropWhile_dropWhile {p q : Nat} (hle : p ≤ q) (ranges : List CopyRange) :
    (ranges.dropWhile fun range => range.sourceEnd ≤ p).dropWhile
      (fun range => range.sourceEnd ≤ q) = ranges.dropWhile fun range => range.sourceEnd ≤ q := by
  induction ranges with
  | nil => rfl
  | cons range ranges ih =>
    by_cases hp : range.sourceEnd ≤ p
    · have hq : range.sourceEnd ≤ q := hp.trans hle
      simp [hp, hq, ih]
    · simp [hp]

/-- The ranges behind the chunk have nothing in it. -/
theorem piecesOf_dropWhile (source chunkEnd : Nat) (ranges : List CopyRange) :
    piecesOf source chunkEnd (ranges.dropWhile fun range => range.sourceEnd ≤ source) =
      piecesOf source chunkEnd ranges := by
  induction ranges with
  | nil => rfl
  | cons range ranges ih =>
    by_cases hs : range.sourceEnd ≤ source
    · simpa [hs, piecesOf, pieceOf_eq_none (Or.inl hs)] using ih
    · simp [hs]

theorem piecesOf_eq_nil {source chunkEnd : Nat} {ranges : List CopyRange}
    (h : ∀ range ∈ ranges, chunkEnd ≤ range.sourceBegin) :
    piecesOf source chunkEnd ranges = [] := by
  unfold piecesOf
  rw [List.filterMap_eq_nil_iff]
  exact fun range hr => pieceOf_eq_none (Or.inr (h range hr))

/-- How many bytes the ranges have in the chunk. -/
def bytesWithin (source chunkEnd : Nat) (ranges : List CopyRange) : Nat :=
  (ranges.map fun range => min chunkEnd range.sourceEnd - max source range.sourceBegin).sum

theorem bytesWithin_cons (source chunkEnd : Nat) (range : CopyRange) (ranges : List CopyRange) :
    bytesWithin source chunkEnd (range :: ranges) =
      (min chunkEnd range.sourceEnd - max source range.sourceBegin) +
        bytesWithin source chunkEnd ranges := by
  simp [bytesWithin]

theorem bytesWithin_eq_zero {source chunkEnd : Nat} {ranges : List CopyRange}
    (h : ∀ range ∈ ranges, range.sourceEnd ≤ source ∨ chunkEnd ≤ range.sourceBegin) :
    bytesWithin source chunkEnd ranges = 0 := by
  induction ranges with
  | nil => rfl
  | cons range ranges ih =>
    simp only [List.mem_cons, forall_eq_or_imp] at h
    rw [bytesWithin_cons, ih h.2]
    omega

theorem bytesWithin_dropWhile (source chunkEnd : Nat) (ranges : List CopyRange) :
    bytesWithin source chunkEnd (ranges.dropWhile fun range => range.sourceEnd ≤ source) =
      bytesWithin source chunkEnd ranges := by
  induction ranges with
  | nil => rfl
  | cons range ranges ih =>
    by_cases hs : range.sourceEnd ≤ source
    · have hzero : min chunkEnd range.sourceEnd - max source range.sourceBegin = 0 := by omega
      simpa [hs, bytesWithin_cons, hzero] using ih
    · simp [hs]

/-- The bytes before the end of a chunk are those before it and those in it. -/
theorem bytesBefore_add {source chunkEnd : Nat} (ranges : List CopyRange)
    (hle : source ≤ chunkEnd) :
    bytesBefore chunkEnd ranges =
      bytesBefore source ranges + bytesWithin source chunkEnd ranges := by
  induction ranges with
  | nil => rfl
  | cons range ranges ih =>
    rw [bytesBefore_cons, bytesBefore_cons, bytesWithin_cons, ih]
    omega

/-- Ranges in order have no more bytes before a position than there are from their start on. -/
theorem bytesBefore_le (start position : Nat) {ranges : List CopyRange} (h : Ordered ranges)
    (hstart : ∀ range ∈ ranges, start ≤ range.sourceBegin) (hle : start ≤ position) :
    start + bytesBefore position ranges ≤ position := by
  induction ranges generalizing start with
  | nil => exact hle
  | cons range rest ih =>
    have hpos := h.pos range (List.mem_cons_self ..)
    have hbegin := hstart range (List.mem_cons_self ..)
    rw [bytesBefore_cons]
    rcases Nat.lt_or_ge position range.sourceEnd with hlt | hge
    · -- the other ranges start behind the position
      have hrest : bytesBefore position rest = 0 := by
        unfold bytesBefore
        rw [List.sum_eq_zero]
        intro n hn
        obtain ⟨r, hr, rfl⟩ := List.mem_map.mp hn
        have := List.rel_of_pairwise_cons h.pairwise hr
        omega
      omega
    · have := ih _ h.tail (fun r hr => List.rel_of_pairwise_cons h.pairwise hr) hge
      omega

/-- From the cursor on every range reaches behind the position. -/
theorem lt_of_mem_dropWhile {position : Nat} {ranges : List CopyRange} (h : Ordered ranges)
    {range : CopyRange}
    (hr : range ∈ ranges.dropWhile fun range => range.sourceEnd ≤ position) :
    position < range.sourceEnd := by
  induction ranges with
  | nil => cases hr
  | cons first rest ih =>
    by_cases hfirst : first.sourceEnd ≤ position
    · exact ih h.tail (by simpa [hfirst] using hr)
    · simp only [hfirst, decide_false, Bool.false_eq_true, not_false_eq_true,
        List.dropWhile_cons_of_neg, List.mem_cons] at hr
      rcases hr with rfl | hr
      · omega
      · have hafter := List.rel_of_pairwise_cons h.pairwise hr
        have hpos := h.pos range (List.mem_cons_of_mem _ hr)
        omega

/-- **The cursor loop copies what all the ranges have in the chunk.** -/
theorem copyRanges_eq {source chunkEnd copied : Nat} {cursor : List CopyRange}
    (h : Ordered cursor) (hchunk : source < chunkEnd)
    (hahead : ∀ range ∈ cursor, source < range.sourceEnd)
    (hfits : copied + bytesWithin source chunkEnd cursor < U64.size) :
    copyRanges source chunkEnd copied cursor =
      .ok ⟨piecesOf source chunkEnd cursor,
        cursor.dropWhile fun range => range.sourceEnd ≤ chunkEnd,
        copied + bytesWithin source chunkEnd cursor⟩ := by
  induction cursor generalizing copied with
  | nil => rfl
  | cons range rest ih =>
    have hpos := h.pos range (List.mem_cons_self ..)
    have hsource := hahead range (List.mem_cons_self ..)
    have hafter : ∀ r ∈ rest, range.sourceEnd ≤ r.sourceBegin := fun r hr =>
      List.rel_of_pairwise_cons h.pairwise hr
    unfold copyRanges
    by_cases hbegin : range.sourceBegin < chunkEnd
    · -- the chunk holds part of the range
      have hpart : max source range.sourceBegin < min chunkEnd range.sourceEnd := by omega
      have hpiece : piecesOf source chunkEnd (range :: rest) =
          ⟨max source range.sourceBegin - source,
            min chunkEnd range.sourceEnd - max source range.sourceBegin,
            range.destination + (max source range.sourceBegin - range.sourceBegin)⟩ ::
              piecesOf source chunkEnd rest := by
        simp [piecesOf, pieceOf, hpart]
      rw [bytesWithin_cons] at hfits ⊢
      rw [if_pos hbegin, if_pos hpart, if_pos hpart, checkedAdd_of_lt (by omega), ok_bind, hpiece]
      dsimp only
      by_cases hend : range.sourceEnd ≤ chunkEnd
      · rw [if_pos hend, ih h.tail (fun r hr => hahead r (List.mem_cons_of_mem _ hr)) (by omega),
          ok_bind, Nat.add_assoc]
        simp [hend]
        rfl
      · -- the range goes on behind the chunk, and so do all others
        have hrest : ∀ r ∈ rest, chunkEnd ≤ r.sourceBegin := fun r hr => by
          have := hafter r hr
          omega
        rw [if_neg hend, piecesOf_eq_nil hrest, bytesWithin_eq_zero fun r hr => Or.inr (hrest r hr)]
        simp [hend]
        rfl
    · have hall : ∀ r ∈ range :: rest, chunkEnd ≤ r.sourceBegin := by
        simp only [List.mem_cons, forall_eq_or_imp]
        exact ⟨by omega, fun r hr => by have := hafter r hr; omega⟩
      rw [if_neg hbegin, piecesOf_eq_nil hall, bytesWithin_eq_zero fun r hr => Or.inr (hall r hr)]
      simp [show ¬range.sourceEnd ≤ chunkEnd by omega]

/-- The addresses of the ranges are apart. -/
def Targets (ranges : List CopyRange) : Prop :=
  ranges.Pairwise fun a b =>
    a.destination + (a.sourceEnd - a.sourceBegin) ≤ b.destination ∨
      b.destination + (b.sourceEnd - b.sourceBegin) ≤ a.destination

/-- The copy of a range writes within its target. -/
theorem pieceOf_covers {source chunkEnd address : Nat} {range : CopyRange} {piece : Piece}
    (h : pieceOf source chunkEnd range = some piece) :
    piece.Covers address ↔ ∃ x, source ≤ x ∧ x < chunkEnd ∧ range.sourceBegin ≤ x ∧
      x < range.sourceEnd ∧ address = range.destination + (x - range.sourceBegin) := by
  unfold pieceOf at h
  split_ifs at h with hpart
  cases h
  unfold Piece.Covers
  dsimp only
  constructor
  · rintro ⟨hlow, hhigh⟩
    exact ⟨range.sourceBegin + (address - range.destination), by omega⟩
  · rintro ⟨x, hsource, hend, hbegin, hstop, rfl⟩
    omega

/-- The copy of a range brings each byte to its own place. -/
theorem pieceOf_item {file : List UInt8} {source chunkEnd x : Nat} {range : CopyRange}
    {piece : Piece} (h : pieceOf source chunkEnd range = some piece) (hsource : source ≤ x)
    (hend : x < chunkEnd) (hbegin : range.sourceBegin ≤ x) :
    piece.item ((file.drop source).take (chunkEnd - source))
      (range.destination + (x - range.sourceBegin)) = file[x]? := by
  unfold pieceOf at h
  split_ifs at h with hpart
  cases h
  unfold Piece.item
  dsimp only
  rw [List.getElem?_take, if_pos (by omega), List.getElem?_drop]
  congr 1
  omega

/-- A copy does not read behind what the chunk holds. -/
theorem pieceOf_within {source chunkEnd : Nat} {range : CopyRange} {piece : Piece}
    (h : pieceOf source chunkEnd range = some piece) :
    piece.offset + piece.amount ≤ chunkEnd - source := by
  unfold pieceOf at h
  split_ifs at h with hpart
  cases h
  dsimp only
  omega

/-- **A byte of a range is copied with the chunk that holds it, once.** -/
theorem countP_piecesOf {source chunkEnd x : Nat} {ranges : List CopyRange} {range : CopyRange}
    (htargets : Targets ranges) (hrange : range ∈ ranges) (hbegin : range.sourceBegin ≤ x)
    (hstop : x < range.sourceEnd) :
    (piecesOf source chunkEnd ranges).countP
        (fun piece => piece.Covers (range.destination + (x - range.sourceBegin))) =
      if source ≤ x ∧ x < chunkEnd then 1 else 0 := by
  -- another range has its target elsewhere
  have hother : ∀ r p, (r.destination + (r.sourceEnd - r.sourceBegin) ≤ range.destination ∨
      range.destination + (range.sourceEnd - range.sourceBegin) ≤ r.destination) →
      pieceOf source chunkEnd r = some p →
        ¬p.Covers (range.destination + (x - range.sourceBegin)) := by
    intro r p hr hp hc
    obtain ⟨y, -, -, hy, hy', haddress⟩ := (pieceOf_covers hp).mp hc
    omega
  have hnone : ∀ rs : List CopyRange, (∀ r ∈ rs,
      (r.destination + (r.sourceEnd - r.sourceBegin) ≤ range.destination ∨
        range.destination + (range.sourceEnd - range.sourceBegin) ≤ r.destination)) →
      (piecesOf source chunkEnd rs).countP
        (fun piece => piece.Covers (range.destination + (x - range.sourceBegin))) = 0 := by
    intro rs hrs
    rw [List.countP_eq_zero]
    intro p hp
    obtain ⟨r, hr, hpiece⟩ := List.mem_filterMap.mp hp
    simpa using hother r p (hrs r hr) hpiece
  obtain ⟨before, after, rfl⟩ := List.append_of_mem hrange
  obtain ⟨-, hafter, hbefore⟩ := List.pairwise_append.mp htargets
  have hone : (piecesOf source chunkEnd [range]).countP
      (fun piece => piece.Covers (range.destination + (x - range.sourceBegin))) =
        if source ≤ x ∧ x < chunkEnd then 1 else 0 := by
    cases hp : pieceOf source chunkEnd range with
    | none =>
      have hout : ¬(source ≤ x ∧ x < chunkEnd) := by
        unfold pieceOf at hp
        split_ifs at hp with hpart
        omega
      simp [piecesOf, hp, hout]
    | some p =>
      have hcovers : p.Covers (range.destination + (x - range.sourceBegin)) ↔
          source ≤ x ∧ x < chunkEnd := by
        rw [pieceOf_covers hp]
        constructor
        · rintro ⟨y, hs, he, hb, ht, haddress⟩
          omega
        · rintro ⟨hs, he⟩
          exact ⟨x, hs, he, hbegin, hstop, rfl⟩
      simp [piecesOf, hp, List.countP_cons, hcovers]
  have hsplit : piecesOf source chunkEnd (before ++ range :: after) =
      piecesOf source chunkEnd before ++ (piecesOf source chunkEnd [range] ++
        piecesOf source chunkEnd after) := by
    simp [piecesOf, ← List.filterMap_append]
  rw [hsplit, List.countP_append, List.countP_append, hone,
    hnone before fun r hr => hbefore r hr range (List.mem_cons_self ..),
    hnone after fun r hr => (List.rel_of_pairwise_cons hafter hr).symm]
  simp

end Ninfer.Artifact.Materializer
