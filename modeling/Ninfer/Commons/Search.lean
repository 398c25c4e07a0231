import Mathlib

/-!
# Searching a text that arrives in pieces

A searcher that has released part of a text keeps the end of it back, as long as that may be the
start of a pattern. What is kept back covers every such start, and then the first occurrence of a
pattern in the whole text is found in what is kept back and what arrives next.

## Main definitions

* `find pat text`: the index of the first occurrence of a pattern
* `Covers pats held text`: the end `held` of a text covers every start of a pattern at its end
* `Kept pats held text`: the end `held` is the longest start of a pattern at the end of a text

## Main results

* `find_eq_some_iff`, `find_eq_none_iff`
* `infix_append_cons_iff`: an occurrence does not reach across what the pattern does not have
* `find_append_pattern`: a pattern is found where it was put
* `Covers.append`, `Covers.shrink`: more text arrives, and less is kept back
* `Covers.find_append`: the first occurrence is found from what is kept back on
* `Kept.unique`: what is kept back is a function of the text
-/

namespace Ninfer

variable {α : Type} [DecidableEq α]

/-! ## The first occurrence -/

/-- The index of the first occurrence of a pattern in a text: `std::string::find`. -/
def find (pat : List α) : List α → Option Nat
  | [] => if pat.isPrefixOf [] then some 0 else none
  | a :: text => if pat.isPrefixOf (a :: text) then some 0 else (find pat text).map (· + 1)

variable {pat text : List α}

theorem find_eq_some {i : Nat} (h : find pat text = some i) :
    pat <+: text.drop i ∧ ∀ j < i, ¬pat <+: text.drop j := by
  induction text generalizing i with
  | nil =>
    unfold find at h
    split_ifs at h with hp
    obtain rfl := Option.some.inj h
    exact ⟨List.isPrefixOf_iff_prefix.mp hp, nofun⟩
  | cons a text ih =>
    unfold find at h
    split_ifs at h with hp
    · obtain rfl := Option.some.inj h
      exact ⟨List.isPrefixOf_iff_prefix.mp hp, nofun⟩
    · obtain ⟨k, hk, rfl⟩ := Option.map_eq_some_iff.mp h
      obtain ⟨h₁, h₂⟩ := ih hk
      refine ⟨h₁, fun j hj => ?_⟩
      cases j with
      | zero => exact fun h => hp (List.isPrefixOf_iff_prefix.mpr h)
      | succ j => exact h₂ j (by omega)

theorem find_eq_none (h : find pat text = none) (i : Nat) (hpat : pat ≠ []) :
    ¬pat <+: text.drop i := by
  induction text generalizing i with
  | nil =>
    rw [List.drop_nil]
    exact fun hp => hpat (List.prefix_nil.mp hp)
  | cons a text ih =>
    unfold find at h
    split_ifs at h with hp
    cases i with
    | zero => exact fun hpre => hp (List.isPrefixOf_iff_prefix.mpr hpre)
    | succ i => exact ih (Option.map_eq_none_iff.mp h) i

/-- **The first occurrence.** -/
theorem find_eq_some_iff (hpat : pat ≠ []) {i : Nat} :
    find pat text = some i ↔ pat <+: text.drop i ∧ ∀ j < i, ¬pat <+: text.drop j := by
  refine ⟨find_eq_some, fun ⟨h₁, h₂⟩ => ?_⟩
  cases hf : find pat text with
  | none => exact absurd h₁ (find_eq_none hf i hpat)
  | some k =>
    obtain ⟨hk₁, hk₂⟩ := find_eq_some hf
    have hki : k = i := by
      by_contra hne
      rcases Nat.lt_or_gt_of_ne hne with hlt | hgt
      · exact h₂ k hlt hk₁
      · exact hk₂ i hgt h₁
    rw [hki]

omit [DecidableEq α] in
theorem infix_iff_exists_drop : pat <:+: text ↔ ∃ i, pat <+: text.drop i := by
  constructor
  · rintro ⟨s, t, h⟩
    refine ⟨s.length, t, ?_⟩
    rw [← h, List.append_assoc, List.drop_left]
  · rintro ⟨i, t, h⟩
    refine ⟨text.take i, t, ?_⟩
    rw [List.append_assoc, h, List.take_append_drop]

/-- **No occurrence.** -/
theorem find_eq_none_iff (hpat : pat ≠ []) : find pat text = none ↔ ¬pat <:+: text := by
  rw [infix_iff_exists_drop]
  constructor
  · rintro h ⟨i, hi⟩
    exact find_eq_none h i hpat hi
  · intro h
    cases hf : find pat text with
    | none => rfl
    | some i => exact absurd ⟨i, (find_eq_some hf).1⟩ h

omit [DecidableEq α] in
theorem length_add_le_of_prefix_drop (hpat : pat ≠ []) {i : Nat} (h : pat <+: text.drop i) :
    i + pat.length ≤ text.length := by
  have hle := h.length_le
  have hpos := List.length_pos_iff.mpr hpat
  rw [List.length_drop] at hle
  omega

theorem find_append_of_some {i : Nat} (hpat : pat ≠ []) (h : find pat text = some i)
    (x : List α) : find pat (text ++ x) = some i := by
  obtain ⟨h₁, h₂⟩ := find_eq_some h
  have hle := length_add_le_of_prefix_drop hpat h₁
  have hdrop : ∀ j ≤ i, (text ++ x).drop j = text.drop j ++ x := fun j hj =>
    List.drop_append_of_le_length (by omega)
  refine (find_eq_some_iff hpat).mpr ⟨?_, fun j hj hocc => h₂ j hj ?_⟩
  · rw [hdrop i (Nat.le_refl _)]
    exact h₁.trans (List.prefix_append _ _)
  · -- An earlier occurrence ends before the first one does.
    rw [hdrop j hj.le] at hocc
    refine List.prefix_of_prefix_length_le hocc (List.prefix_append _ x) ?_
    rw [List.length_drop]
    omega

/-! ## Patterns put into a text -/

omit [DecidableEq α] in
/-- An occurrence does not reach across an item that the pattern does not have. -/
theorem infix_append_cons_iff {a : α} {u v : List α} (ha : a ∉ pat) :
    pat <:+: u ++ a :: v ↔ pat <:+: u ∨ pat <:+: v := by
  constructor
  · rintro ⟨s, t, h⟩
    rw [List.append_assoc] at h
    rcases List.append_eq_append_iff.mp h with ⟨w, rfl, hw⟩ | ⟨w, rfl, hw⟩
    · -- The occurrence starts in `u`.
      rcases List.append_eq_append_iff.mp hw with ⟨w', rfl, hw'⟩ | ⟨w', rfl, hw'⟩
      · exact .inl ⟨s, w', by rw [List.append_assoc]⟩
      · cases w' with
        | nil => exact .inl ⟨s, [], by rw [List.append_nil, List.append_nil]⟩
        | cons b w' =>
          obtain rfl := (List.cons.inj hw').1
          exact absurd (List.mem_append_right _ List.mem_cons_self) ha
    · -- The occurrence starts behind `u`.
      cases w with
      | nil =>
        cases pat with
        | nil => exact .inl List.nil_infix
        | cons b pat =>
          obtain rfl := (List.cons.inj hw).1
          exact absurd List.mem_cons_self ha
      | cons b w => exact .inr ⟨w, t, by rw [List.append_assoc]; exact (List.cons.inj hw).2.symm⟩
  · rintro (h | h)
    · exact h.trans (List.prefix_append _ _).isInfix
    · exact h.trans ⟨u ++ [a], [], by rw [List.append_nil, List.append_assoc, List.singleton_append]⟩

omit [DecidableEq α] in
/-- The first item of a pattern does not occur in it again, and so no occurrence starts in front of
one and ends inside it. -/
theorem infix_of_prefix_drop_append {c : α} {tail u v : List α} (hc : c ∉ tail) {j : Nat}
    (hj : j < u.length) (h : c :: tail <+: (u ++ (c :: tail ++ v)).drop j) : c :: tail <:+: u := by
  rw [List.drop_append_of_le_length hj.le] at h
  by_cases hle : (c :: tail).length ≤ (u.drop j).length
  · exact (List.prefix_of_prefix_length_le h (List.prefix_append _ _) hle).isInfix.trans
      (List.drop_suffix j u).isInfix
  · -- The occurrence covers the first item of the pattern behind `u`.
    exfalso
    have hlen : (u.drop j).length - 1 < tail.length := by
      rw [List.length_cons] at hle
      have : 0 < (u.drop j).length := by
        rw [List.length_drop]
        omega
      omega
    obtain ⟨w, hw⟩ := List.prefix_of_prefix_length_le (List.prefix_append (u.drop j) _) h
      (by omega)
    cases hu : u.drop j with
    | nil =>
      rw [List.drop_eq_nil_iff] at hu
      omega
    | cons b rest =>
      rw [hu, List.cons_append] at hw
      obtain ⟨hb, rfl⟩ := List.cons.inj hw
      cases w with
      | nil =>
        rw [hu, List.append_nil, List.length_cons] at hle
        exact hle (Nat.le_refl _)
      | cons d w =>
        rw [hu, ← hw, ← List.cons_append, List.append_assoc,
          List.prefix_append_right_inj] at h
        obtain ⟨z, hz⟩ := h
        have hd : d = c := (List.cons.inj hz).1.trans hb
        exact hc (List.mem_append_right _ (hd ▸ List.mem_cons_self))

/-- **A pattern is found where it was put.** -/
theorem find_append_pattern {c : α} {tail u : List α} (hc : c ∉ tail) (h : ¬c :: tail <:+: u)
    (v : List α) : find (c :: tail) (u ++ (c :: tail ++ v)) = some u.length := by
  refine (find_eq_some_iff (List.cons_ne_nil _ _)).mpr ⟨?_, fun j hj hocc => ?_⟩
  · rw [List.drop_left]
    exact List.prefix_append _ _
  · exact h (infix_of_prefix_drop_append hc hj hocc)

/-! ## What is kept back -/

/-- The end `held` of a text covers every proper start of a pattern at the end of the text. -/
structure Covers (pats : List (List α)) (held text : List α) : Prop where
  suffix : held <:+ text
  covers : ∀ pat ∈ pats, ∀ k < pat.length, pat.take k <:+ text → k ≤ held.length

/-- What is kept back covers every start of a pattern, and is one itself. -/
structure Kept (pats : List (List α)) (held text : List α) : Prop extends
    Covers pats held text where
  start : held ≠ [] → ∃ pat ∈ pats, held.length < pat.length ∧ held <+: pat

variable {pats : List (List α)} {held x : List α}

omit [DecidableEq α] in
theorem Covers.nil (pats : List (List α)) : Covers pats ([] : List α) [] where
  suffix := List.suffix_refl _
  covers := by
    intro pat _ k hk h
    have := h.length_le
    rw [List.length_take, Nat.min_eq_left hk.le] at this
    exact this

omit [DecidableEq α] in
/-- More text arrives, and all of it is kept back. -/
theorem Covers.append (hc : Covers pats held text) (x : List α) :
    Covers pats (held ++ x) (text ++ x) where
  suffix := by
    obtain ⟨s, hs⟩ := hc.suffix
    exact ⟨s, by rw [← List.append_assoc, hs]⟩
  covers := by
    intro pat hm k hk h
    rw [List.length_append]
    by_cases hx : k ≤ x.length
    · omega
    -- The start of the pattern reaches into the text before.
    have hlen : (pat.take k).length = k := by rw [List.length_take, Nat.min_eq_left hk.le]
    obtain ⟨u, hu⟩ : x <:+ pat.take k :=
      List.suffix_of_suffix_length_le (List.suffix_append text x) h (by omega)
    have hulen : u.length = k - x.length := by
      have := congrArg List.length hu
      rw [List.length_append, hlen] at this
      omega
    have htake : u = pat.take (k - x.length) := by
      have := congrArg (List.take (k - x.length)) hu
      rw [List.take_left' hulen, List.take_take] at this
      rw [this]
      congr 1
      omega
    have hsuffix : pat.take (k - x.length) <:+ text := by
      rw [← hu] at h
      rw [← htake]
      obtain ⟨s, hs⟩ := h
      rw [← List.append_assoc] at hs
      exact ⟨s, List.append_cancel_right hs⟩
    have := hc.covers pat hm _ (by omega) hsuffix
    omega

omit [DecidableEq α] in
/-- Less is kept back, as long as it covers the starts in what was kept back. -/
theorem Covers.shrink {held' : List α} (hc : Covers pats held text) (hs : held' <:+ held)
    (hk : ∀ pat ∈ pats, ∀ k < pat.length, pat.take k <:+ held → k ≤ held'.length) :
    Covers pats held' text where
  suffix := hs.trans hc.suffix
  covers := by
    intro pat hm k hlt h
    refine hk pat hm k hlt (List.suffix_of_suffix_length_le h hc.suffix ?_)
    rw [List.length_take, Nat.min_eq_left hlt.le]
    exact hc.covers pat hm k hlt h

omit [DecidableEq α] in
theorem Kept.nil (pats : List (List α)) : Kept pats ([] : List α) [] :=
  { Covers.nil pats with start := fun h => absurd rfl h }

omit [DecidableEq α] in
/-- What is kept back of an end that covers every start is kept back of the whole text. -/
theorem Covers.kept {held' : List α} (hc : Covers pats held text) (hk : Kept pats held' held) :
    Kept pats held' text :=
  { hc.shrink hk.suffix hk.covers with start := hk.start }

omit [DecidableEq α] in
theorem Kept.length_le {held' : List α} (hk : Kept pats held text) (hc : Covers pats held' text) :
    held.length ≤ held'.length := by
  by_cases hnil : held = []
  · rw [hnil]
    exact Nat.zero_le _
  · obtain ⟨pat, hm, hlt, hpre⟩ := hk.start hnil
    refine hc.covers pat hm _ hlt ?_
    rw [← List.prefix_iff_eq_take.mp hpre]
    exact hk.suffix

omit [DecidableEq α] in
/-- **What is kept back is a function of the text.** -/
theorem Kept.unique {held' : List α} (hk : Kept pats held text) (hk' : Kept pats held' text) :
    held = held' := by
  have hlen : held.length = held'.length :=
    Nat.le_antisymm (hk.length_le hk'.toCovers) (hk'.length_le hk.toCovers)
  rw [List.suffix_iff_eq_drop.mp hk.suffix, List.suffix_iff_eq_drop.mp hk'.suffix, hlen]

omit [DecidableEq α] in
/-- An occurrence in the longer text that is not one in the text before starts in what is kept
back. -/
theorem Covers.le_of_occurs (hc : Covers pats held text) (hm : pat ∈ pats) (hpat : pat ≠ [])
    (hnot : ¬pat <:+: text) {i : Nat} (h : pat <+: (text ++ x).drop i) :
    text.length - held.length ≤ i := by
  have hle := length_add_le_of_prefix_drop hpat h
  have hend : text.length < i + pat.length := by
    by_contra hge
    refine hnot (infix_iff_exists_drop.mpr ⟨i, ?_⟩)
    rw [List.drop_append_of_le_length (by omega)] at h
    exact List.prefix_of_prefix_length_le h (List.prefix_append _ x)
      (by rw [List.length_drop]; omega)
  by_contra hlt
  have hi : i < text.length := by omega
  -- The part of the occurrence that lies in the text before is a start of the pattern.
  have hstart : pat.take (text.length - i) <:+ text := by
    rw [List.drop_append_of_le_length hi.le] at h
    have hpre : text.drop i <+: pat :=
      List.prefix_of_prefix_length_le (List.prefix_append _ x) h (by rw [List.length_drop]; omega)
    have htake : pat.take (text.length - i) = text.drop i := by
      rw [← List.length_drop]
      exact (List.prefix_iff_eq_take.mp hpre).symm
    rw [htake]
    exact List.drop_suffix i text
  have := hc.covers pat hm (text.length - i) (by omega) hstart
  omega

/-- **The first occurrence is found from what is kept back on.** -/
theorem Covers.find_append (hc : Covers pats held text) (hm : pat ∈ pats) (hpat : pat ≠ [])
    (hnot : ¬pat <:+: text) (x : List α) :
    find pat (text ++ x) = (find pat (held ++ x)).map (text.length - held.length + ·) := by
  obtain ⟨s, hs⟩ := hc.suffix
  have hslen : text.length - held.length = s.length := by
    rw [← hs, List.length_append]
    omega
  have hdrop : ∀ j, (text ++ x).drop (s.length + j) = (held ++ x).drop j := by
    intro j
    rw [← hs, List.append_assoc, List.drop_append, List.drop_eq_nil_of_le (by omega),
      List.nil_append, Nat.add_sub_cancel_left]
  rw [hslen]
  cases hf : find pat (held ++ x) with
  | none =>
    rw [Option.map_none, find_eq_none_iff hpat, infix_iff_exists_drop]
    rintro ⟨i, hi⟩
    have hle := hc.le_of_occurs hm hpat hnot hi
    rw [hslen] at hle
    obtain ⟨j, rfl⟩ := Nat.exists_eq_add_of_le hle
    rw [hdrop] at hi
    exact find_eq_none hf j hpat hi
  | some j =>
    obtain ⟨h₁, h₂⟩ := find_eq_some hf
    rw [Option.map_some, find_eq_some_iff hpat]
    refine ⟨by rw [hdrop]; exact h₁, fun i hi hocc => ?_⟩
    have hle := hc.le_of_occurs hm hpat hnot hocc
    rw [hslen] at hle
    obtain ⟨k, rfl⟩ := Nat.exists_eq_add_of_le hle
    rw [hdrop] at hocc
    exact h₂ k (by omega) hocc

end Ninfer
