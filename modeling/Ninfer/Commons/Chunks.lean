import Mathlib

/-!
# Rows of equal length, and words of several bytes

A list cut into rows of one length, as a plane of rows or an array of words lies in memory, and
words of several bytes, the least significant byte first.

## Main definitions

* `chunkAt w l i`, `chunks w l`: the rows of length `w` of a list
* `leBytes w v`, `leWord`: a word as `w` bytes, and the word of bytes

## Main results

* `chunks_flatten`, `flatten_chunks`: joining rows and cutting into rows
* `chunkAt_groups`, `flatMap_chosen`: rows of groups, and chosen ones among them
* `leWord_leBytes`, `leBytes_leWord`: words and their bytes correspond
* `leWords_leBytes`, `leBytes_leWords`: so do sequences of them
-/

namespace Ninfer

section Chunks

variable {α β : Type} {w i : Nat} {l : List α} {rows : List (List α)}

/-- The row of number `i`, of rows of length `w`. -/
def chunkAt (w : Nat) (l : List α) (i : Nat) : List α := (l.drop (i * w)).take w

/-- The rows of length `w` of a list. -/
def chunks (w : Nat) (l : List α) : List (List α) := (List.range (l.length / w)).map (chunkAt w l)

@[simp] theorem length_chunks (w : Nat) (l : List α) : (chunks w l).length = l.length / w := by
  simp [chunks]

@[simp] theorem chunks_nil (w : Nat) : chunks w ([] : List α) = [] := by simp [chunks]

theorem length_chunkAt (h : (i + 1) * w ≤ l.length) : (chunkAt w l i).length = w := by
  rw [Nat.succ_mul] at h
  unfold chunkAt
  rw [List.length_take, List.length_drop]
  omega

theorem getElem?_chunks (h : i < l.length / w) : (chunks w l)[i]? = some (chunkAt w l i) := by
  simp [chunks, h]

theorem chunks_append {row : List α} (hw : 0 < w) (hrow : row.length = w) (l : List α) :
    chunks w (row ++ l) = row :: chunks w l := by
  have hcount : (row ++ l).length / w = l.length / w + 1 := by
    rw [List.length_append, hrow, Nat.add_comm, Nat.add_div_right _ hw]
  unfold chunks
  rw [hcount, List.range_succ_eq_map, List.map_cons, List.map_map]
  congr 1
  · simp [chunkAt, ← hrow]
  · refine List.map_congr_left fun i _ => ?_
    have hskip : (i + 1) * w = row.length + i * w := by rw [hrow, Nat.succ_mul, Nat.add_comm]
    simp only [Function.comp_apply, Nat.succ_eq_add_one, chunkAt]
    rw [hskip, ← List.drop_drop, List.drop_left]

/-- Rows joined and cut again. -/
theorem chunks_flatten (hw : 0 < w) (h : ∀ row ∈ rows, row.length = w) :
    chunks w rows.flatten = rows := by
  induction rows with
  | nil => simp
  | cons row rows ih =>
    rw [List.flatten_cons, chunks_append hw (h row List.mem_cons_self),
      ih fun row hrow => h row (List.mem_cons_of_mem _ hrow)]

theorem chunks_flatMap {f : β → List α} {l : List β} (hw : 0 < w)
    (h : ∀ a ∈ l, (f a).length = w) : chunks w (l.flatMap f) = l.map f := by
  rw [List.flatMap_def]
  apply chunks_flatten hw
  intro row hrow
  obtain ⟨a, ha, rfl⟩ := List.mem_map.mp hrow
  exact h a ha

/-- A list cut into rows and joined again. -/
theorem flatten_chunks (h : w ∣ l.length) : (chunks w l).flatten = l := by
  obtain ⟨n, hn⟩ := h
  rcases Nat.eq_zero_or_pos w with rfl | hw
  · rw [Nat.zero_mul, List.length_eq_zero_iff] at hn
    simp [hn]
  induction n generalizing l with
  | zero =>
    rw [Nat.mul_zero, List.length_eq_zero_iff] at hn
    simp [hn]
  | succ n ih =>
    -- the first row, and the rows of what is left
    rw [Nat.mul_succ] at hn
    have hrow : (l.take w).length = w := by rw [List.length_take]; omega
    have hrest : (l.drop w).length = w * n := by rw [List.length_drop]; omega
    have hcut := chunks_append hw hrow (l.drop w)
    rw [List.take_append_drop] at hcut
    rw [hcut, List.flatten_cons, ih hrest, List.take_append_drop]

theorem length_of_mem_chunks {row : List α} (h : row ∈ chunks w l) : row.length = w := by
  obtain ⟨i, hi, rfl⟩ := List.mem_map.mp h
  rw [List.mem_range] at hi
  exact length_chunkAt
    (Nat.le_trans (Nat.mul_le_mul_right w hi) (Nat.div_mul_le_self l.length w))

theorem length_flatten_of (h : ∀ row ∈ rows, row.length = w) :
    rows.flatten.length = rows.length * w := by
  induction rows with
  | nil => simp
  | cons row rows ih =>
    rw [List.flatten_cons, List.length_append, h row List.mem_cons_self,
      ih fun row hrow => h row (List.mem_cons_of_mem _ hrow), List.length_cons, Nat.succ_mul,
      Nat.add_comm]

/-- A row of rows that were computed one by one. -/
theorem chunkAt_flatMap {f : β → List α} {l : List β} (h : ∀ a ∈ l, (f a).length = w) {a : β}
    (ha : l[i]? = some a) : chunkAt w (l.flatMap f) i = f a := by
  have hi := (List.getElem?_eq_some_iff.mp ha).1
  have hmem : a ∈ l := List.mem_of_getElem? ha
  rcases Nat.eq_zero_or_pos w with rfl | hw
  · -- rows without items
    rw [chunkAt, List.take_zero, List.length_eq_zero_iff.mp (h a hmem)]
  have hcut := congrArg (fun rows => rows[i]?) (chunks_flatMap hw h)
  have hcount : (l.flatMap f).length / w = l.length := by
    rw [← length_chunks, chunks_flatMap hw h, List.length_map]
  simp only [List.getElem?_map, ha, Option.map_some] at hcut
  rw [getElem?_chunks (by rwa [hcount])] at hcut
  exact Option.some.inj hcut

/-- A row of a row, of rows that are whole numbers of shorter rows. -/
theorem chunkAt_chunkAt (w : Nat) (l : List α) {m r j : Nat} (hj : j < m) :
    chunkAt w (chunkAt (m * w) l r) j = chunkAt w l (r * m + j) := by
  have hfits : (j + 1) * w ≤ m * w := Nat.mul_le_mul_right w hj
  rw [Nat.succ_mul] at hfits
  unfold chunkAt
  rw [List.drop_take, List.drop_drop, List.take_take, Nat.min_eq_left (by omega), Nat.add_mul,
    Nat.mul_assoc]

/-- All rows one after the other. -/
theorem flatMap_chunkAt {n : Nat} (h : l.length = n * w) :
    (List.range n).flatMap (chunkAt w l) = l := by
  rcases Nat.eq_zero_or_pos w with rfl | hw
  · rw [Nat.mul_zero, List.length_eq_zero_iff] at h
    simp [h, chunkAt]
  have hcut := flatten_chunks (l := l) (w := w) ⟨n, by rw [h, Nat.mul_comm]⟩
  unfold chunks at hcut
  rwa [h, Nat.mul_div_cancel n hw, ← List.flatMap_def] at hcut

section Groups

variable {G G' : Nat → List α} {m n : Nat}

/-- Groups numbered through, as rows of groups. -/
theorem flatMap_range_mul (G : Nat → List α) (n m : Nat) :
    (List.range (n * m)).flatMap G =
      (List.range n).flatMap fun r => (List.range m).flatMap fun j => G (r * m + j) := by
  induction n with
  | zero => simp
  | succ n ih =>
    rw [Nat.succ_mul, List.range_add, List.flatMap_append, ih, List.range_succ,
      List.flatMap_append, List.flatMap_map, List.flatMap_singleton]

/-- The items of a row of groups. -/
theorem chunkAt_groups (h : ∀ g < n * m, (G g).length = w) {r : Nat} (hr : r < n) :
    chunkAt (m * w) ((List.range (n * m)).flatMap G) r =
      (List.range m).flatMap fun j => G (r * m + j) := by
  rw [flatMap_range_mul]
  refine chunkAt_flatMap ?_ (by simp [hr])
  intro r hr
  rw [List.mem_range] at hr
  have hrow := Nat.mul_le_mul_right m hr
  rw [Nat.succ_mul] at hrow
  rw [List.flatMap_def, length_flatten_of (w := w), List.length_map, List.length_range]
  intro row hmem
  obtain ⟨j, hj, rfl⟩ := List.mem_map.mp hmem
  rw [List.mem_range] at hj
  exact h _ (by omega)

/-- Groups that are those of chosen rows, row after row. -/
theorem flatMap_chosen {rows : List Nat}
    (h : ∀ i r, rows[i]? = some r → ∀ j < m, G' (i * m + j) = G (r * m + j)) :
    (List.range (rows.length * m)).flatMap G' =
      rows.flatMap fun r => (List.range m).flatMap fun j => G (r * m + j) := by
  rw [flatMap_range_mul]
  have hrows : rows = (List.range rows.length).map fun i => rows.getD i 0 := by
    apply List.ext_getElem
    · simp
    · intro i hi _
      simp [List.getElem?_eq_getElem hi]
  conv_rhs => rw [hrows, List.flatMap_map]
  refine List.flatMap_congr fun i hi => ?_
  rw [List.mem_range] at hi
  refine List.flatMap_congr fun j hj => ?_
  rw [List.mem_range] at hj
  rw [List.getD_eq_getElem _ _ hi]
  exact h i _ (List.getElem?_eq_getElem hi) j hj

end Groups

end Chunks

section LittleEndian

variable {w v : Nat} {l : List UInt8}

/-- A word as `w` bytes, the least significant first. -/
def leBytes : Nat → Nat → List UInt8
  | 0, _ => []
  | w + 1, v => UInt8.ofNat v :: leBytes w (v / 256)

/-- The word of bytes, the least significant first. -/
def leWord : List UInt8 → Nat
  | [] => 0
  | byte :: bytes => byte.toNat + 256 * leWord bytes

@[simp] theorem length_leBytes (w v : Nat) : (leBytes w v).length = w := by
  induction w generalizing v with
  | zero => rfl
  | succ w ih => rw [leBytes, List.length_cons, ih]

theorem leWord_leBytes (h : v < 256 ^ w) : leWord (leBytes w v) = v := by
  induction w generalizing v with
  | zero =>
    rw [Nat.pow_zero] at h
    exact (Nat.lt_one_iff.mp h).symm
  | succ w ih =>
    have hrest : v / 256 < 256 ^ w := by
      rw [Nat.pow_succ, Nat.mul_comm] at h
      exact Nat.div_lt_of_lt_mul h
    rw [leBytes, leWord, ih hrest, UInt8.toNat_ofNat']
    exact Nat.mod_add_div v 256

theorem leBytes_leWord (l : List UInt8) : leBytes l.length (leWord l) = l := by
  induction l with
  | nil => rfl
  | cons byte l ih =>
    have hbyte : byte.toNat < 256 := byte.toNat_lt
    have hdiv : (byte.toNat + 256 * leWord l) / 256 = leWord l := by omega
    have hfirst : UInt8.ofNat (byte.toNat + 256 * leWord l) = byte := by
      apply UInt8.toNat_inj.mp
      rw [UInt8.toNat_ofNat']
      omega
    rw [List.length_cons, leBytes, leWord, hdiv, hfirst, ih]

theorem leWord_lt (l : List UInt8) : leWord l < 256 ^ l.length := by
  induction l with
  | nil => exact Nat.zero_lt_one
  | cons byte l ih =>
    have hbyte : byte.toNat < 256 := byte.toNat_lt
    rw [leWord, List.length_cons, Nat.pow_succ]
    omega

end LittleEndian

section Words

variable {w : Nat} {l : List UInt8}

/-- The words of bytes as bit vectors. -/
def leWords (w : Nat) (l : List UInt8) : List (BitVec (8 * w)) :=
  (chunks w l).map fun bytes => BitVec.ofNat (8 * w) (leWord bytes)

/-- A word of `w` bytes is below `256 ^ w`. -/
theorem toNat_lt_pow (word : BitVec (8 * w)) : word.toNat < 256 ^ w := by
  have h := word.isLt
  rwa [Nat.pow_mul] at h

/-- Words written and read again. -/
theorem leWords_leBytes (hw : 0 < w) (words : List (BitVec (8 * w))) :
    leWords w (words.flatMap fun word => leBytes w word.toNat) = words := by
  unfold leWords
  rw [chunks_flatMap hw fun word _ => length_leBytes w word.toNat, List.map_map]
  refine Eq.trans (List.map_congr_left fun word _ => ?_) (List.map_id words)
  rw [Function.comp_apply, leWord_leBytes (toNat_lt_pow word), BitVec.ofNat_toNat,
    BitVec.setWidth_eq, id]

/-- Words read and written again. -/
theorem leBytes_leWords (h : w ∣ l.length) :
    ((leWords w l).flatMap fun word => leBytes w word.toNat) = l := by
  have hwords : (leWords w l).flatMap (fun word => leBytes w word.toNat) =
      (chunks w l).flatMap id := by
    unfold leWords
    rw [List.flatMap_map]
    refine List.flatMap_congr fun bytes hbytes => ?_
    have hlength := length_of_mem_chunks hbytes
    have hlt := leWord_lt bytes
    rw [hlength] at hlt
    rw [BitVec.toNat_ofNat, Nat.pow_mul, Nat.mod_eq_of_lt hlt, id]
    conv_lhs => rw [← hlength, leBytes_leWord]
  rw [hwords, List.flatMap_id, flatten_chunks h]

end Words

end Ninfer
