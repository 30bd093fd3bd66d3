import Mathlib.Data.List.Sort
import Mathlib.Tactic

/-!
# Consecutive blocks of a list

Slices of a list, overwriting a slice, and lists cut at the partial sums of a list of
block lengths.
-/
namespace ListBlocks

variable {α β : Type*}

/-- `l[start:stop]`. -/
def slice (l : List α) (start stop : ℕ) : List α := (l.take stop).drop start

/-- `l` with the rows from `start` on replaced by `rows`. -/
def overwrite (l : List α) (start : ℕ) (rows : List α) : List α :=
  l.take start ++ rows ++ l.drop (start + rows.length)

/-- The partial sums of the block lengths, from 0 to the total. -/
def offsets (lengths : List ℕ) : List ℕ := lengths.scanl (· + ·) 0

/-- Where block `i` starts. -/
def offset (lengths : List ℕ) (i : ℕ) : ℕ := (offsets lengths).getD i 0

theorem getElem?_slice (l : List α) (start stop k : ℕ) :
    (slice l start stop)[k]? = if start + k < stop then l[start + k]? else none := by
  simp only [slice, List.getElem?_drop, List.getElem?_take]

theorem length_slice {l : List α} {start stop : ℕ} (h : stop ≤ l.length) :
    (slice l start stop).length = stop - start := by
  simp only [slice, List.length_drop, List.length_take]
  omega

@[simp] theorem slice_self (l : List α) (start : ℕ) : slice l start start = [] := by
  simp [slice]

theorem length_overwrite {l rows : List α} {start : ℕ} (h : start + rows.length ≤ l.length) :
    (overwrite l start rows).length = l.length := by
  simp only [overwrite, List.length_append, List.length_take, List.length_drop]
  omega

theorem getElem?_overwrite {l : List α} {start : ℕ} (h : start ≤ l.length) (rows : List α)
    (k : ℕ) : (overwrite l start rows)[k]? =
      if k < start then l[k]? else if k < start + rows.length then rows[k - start]? else l[k]? := by
  simp only [overwrite, List.append_assoc, List.getElem?_append, List.length_take,
    Nat.min_eq_left h, List.getElem?_drop]
  by_cases hk : k < start
  · simp [hk]
  · rw [if_neg hk, if_neg hk]
    by_cases hr : k < start + rows.length
    · rw [if_pos hr, if_pos (by omega)]
    · rw [if_neg hr, if_neg (by omega)]
      congr 1
      omega

theorem slice_overwrite_self {l rows : List α} {start : ℕ}
    (h : start + rows.length ≤ l.length) :
    slice (overwrite l start rows) start (start + rows.length) = rows := by
  refine List.ext_getElem? fun k => ?_
  rw [getElem?_slice, getElem?_overwrite (by omega)]
  by_cases hk : k < rows.length
  · rw [if_pos (by omega), if_neg (by omega), if_pos (by omega)]
    congr 1
    omega
  · rw [if_neg (by omega), List.getElem?_eq_none (by omega)]

theorem slice_overwrite_of_disjoint {l rows : List α} {start a b : ℕ}
    (h : start + rows.length ≤ l.length) (hd : b ≤ start ∨ start + rows.length ≤ a) :
    slice (overwrite l start rows) a b = slice l a b := by
  refine List.ext_getElem? fun k => ?_
  rw [getElem?_slice, getElem?_slice, getElem?_overwrite (by omega)]
  by_cases hk : a + k < b
  · rw [if_pos hk, if_pos hk]
    rcases hd with hd | hd
    · rw [if_pos (by omega)]
    · rw [if_neg (by omega), if_neg (by omega)]
  · rw [if_neg hk, if_neg hk]

theorem slice_append {pre block post : List α} :
    slice (pre ++ block ++ post) pre.length (pre.length + block.length) = block := by
  have hlen : pre.length + block.length = (pre ++ block).length := by simp
  rw [slice, hlen, List.take_left, List.drop_left]

theorem slice_append_slice {l : List α} {a b c : ℕ} (hab : a ≤ b) (hbc : b ≤ c) :
    slice l a b ++ slice l b c = slice l a c := by
  refine List.ext_getElem? fun k => ?_
  rw [List.getElem?_append, getElem?_slice, getElem?_slice, getElem?_slice]
  simp only [slice, List.length_drop, List.length_take]
  by_cases hl : b ≤ l.length
  · rw [Nat.min_eq_left hl]
    by_cases hk : k < b - a
    · rw [if_pos hk, if_pos (by omega), if_pos (by omega)]
    · rw [if_neg hk]
      have hkb : b + (k - (b - a)) = a + k := by omega
      rw [hkb]
  · have hmin : min b l.length = l.length := by omega
    rw [hmin]
    by_cases hk : k < l.length - a
    · rw [if_pos hk, if_pos (by omega), if_pos (by omega)]
    · rw [if_neg hk, List.getElem?_eq_none (by omega), List.getElem?_eq_none (by omega)]
      simp

theorem offset_eq (lengths : List ℕ) {i : ℕ} (h : i ≤ lengths.length) :
    offset lengths i = (lengths.take i).sum := by
  have hlt : i < (offsets lengths).length := by
    rw [offsets, List.length_scanl]
    omega
  rw [offset, List.getD_eq_getElem?_getD, List.getElem?_eq_getElem hlt, Option.getD_some]
  simp only [offsets, List.getElem_scanl, ← List.sum_eq_foldl]

theorem offset_succ (lengths : List ℕ) {i : ℕ} (h : i < lengths.length) :
    offset lengths (i + 1) = offset lengths i + lengths[i] := by
  rw [offset_eq lengths h.le, offset_eq lengths h, List.sum_take_succ]

theorem offset_le_sum (lengths : List ℕ) {i : ℕ} (h : i ≤ lengths.length) :
    offset lengths i ≤ lengths.sum := by
  rw [offset_eq lengths h]
  exact (List.take_sublist i lengths).sum_le_sum fun _ _ => Nat.zero_le _

theorem offset_mono (lengths : List ℕ) {i j : ℕ} (hij : i ≤ j) (h : j ≤ lengths.length) :
    offset lengths i ≤ offset lengths j := by
  rw [offset_eq lengths (hij.trans h), offset_eq lengths h]
  have htake : lengths.take i = (lengths.take j).take i := by
    rw [List.take_take, Nat.min_eq_left hij]
  rw [htake]
  exact (List.take_sublist i _).sum_le_sum fun _ _ => Nat.zero_le _

/-- Consecutive blocks are one piece. -/
theorem flatMap_range'_slices (l : List α) (lengths : List ℕ) {j n : ℕ}
    (h : j + n ≤ lengths.length) :
    (List.range' j n).flatMap (fun i => slice l (offset lengths i) (offset lengths (i + 1))) =
      slice l (offset lengths j) (offset lengths (j + n)) := by
  induction n with
  | zero => simp [slice]
  | succ n ih =>
    rw [List.range'_1_concat, List.flatMap_append, ih (by omega), List.flatMap_singleton,
      slice_append_slice (offset_mono lengths (by omega) (by omega))
        (offset_mono lengths (by omega) (by omega))]
    rfl

/-- Consecutive numbers select a piece. -/
theorem filterMap_range' (l : List α) {j n : ℕ} (h : j + n ≤ l.length) :
    (List.range' j n).filterMap (l[·]?) = slice l j (j + n) := by
  induction n with
  | zero => simp [slice]
  | succ n ih =>
    have hlast : slice l (j + n) (j + (n + 1)) = [l[j + n]] := by
      refine List.ext_getElem? fun k => ?_
      rw [getElem?_slice]
      cases k with
      | zero => simp [show j + n < l.length by omega]
      | succ k =>
        rw [if_neg (by omega)]
        rfl
    rw [List.range'_1_concat, List.filterMap_append, ih (by omega),
      ← slice_append_slice (l := l) (show j ≤ j + n by omega) (show j + n ≤ j + (n + 1) by omega),
      hlast]
    simp [show j + n < l.length by omega]

/-- A list is the concatenation of its blocks. -/
theorem flatMap_slices {l : List α} {lengths : List ℕ} (h : l.length = lengths.sum) :
    (List.range lengths.length).flatMap
      (fun i => slice l (offset lengths i) (offset lengths (i + 1))) = l := by
  rw [List.range_eq_range', flatMap_range'_slices l lengths (by omega), Nat.zero_add,
    offset_eq lengths le_rfl, offset_eq lengths (Nat.zero_le _), List.take_length, ← h, slice]
  simp

/-- Cutting a concatenation at its block lengths gives the blocks back. -/
theorem slice_flatMap (xs : List β) (f : β → List α) {i : ℕ} (h : i < xs.length) :
    slice (xs.flatMap f) (offset (xs.map fun x => (f x).length) i)
      (offset (xs.map fun x => (f x).length) (i + 1)) = f xs[i] := by
  have hi : i < (xs.map fun x => (f x).length).length := by simpa using h
  have hpre : offset (xs.map fun x => (f x).length) i = ((xs.take i).flatMap f).length := by
    rw [offset_eq _ hi.le, List.length_flatMap, List.map_take]
  have hsplit : xs.flatMap f = (xs.take i).flatMap f ++ f xs[i] ++ (xs.drop (i + 1)).flatMap f := by
    conv_lhs => rw [← List.take_append_drop i xs]
    rw [List.flatMap_append, List.drop_eq_getElem_cons h, List.flatMap_cons, List.append_assoc]
  rw [offset_succ _ hi, List.getElem_map, hpre, hsplit]
  exact slice_append

theorem getLastD_offsets (lengths : List ℕ) : (offsets lengths).getLastD 0 = lengths.sum := by
  rw [List.getLastD_eq_getLast?, offsets, List.getLast?_scanl, List.sum_eq_foldl, Option.getD_some]

theorem offsets_concat (lengths : List ℕ) (n : ℕ) :
    offsets (lengths ++ [n]) = offsets lengths ++ [lengths.sum + n] := by
  rw [offsets, offsets, List.scanl_append, List.sum_eq_foldl]
  rfl

/-- Element `j` of block `i` of a concatenation. -/
theorem getElem?_flatMap (xs : List β) (f : β → List α) {i j : ℕ} (h : i < xs.length)
    (hj : j < (f xs[i]).length) :
    (xs.flatMap f)[offset (xs.map fun x => (f x).length) i + j]? = some (f xs[i])[j] := by
  have hi : i < (xs.map fun x => (f x).length).length := by simpa using h
  have hslice := slice_flatMap xs f h
  rw [← List.getElem?_eq_getElem hj]
  conv_rhs => rw [← hslice]
  rw [getElem?_slice, if_pos]
  rw [offset_succ _ hi, List.getElem_map]
  omega

end ListBlocks
