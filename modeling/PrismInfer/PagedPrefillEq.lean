import PrismInfer.PagedPrefill

/-!
# Prefill slots and attention visibility agree

Every path hands SDPA the same rows: the elements of the sequence's own physical rows, in
order. From there on one lemma covers them all.
-/
namespace PrismInfer

open scoped BigOperators
open StateExcept ListBlocks

variable {H : Type}

/-- The query heads come in equal groups, one for each KV head. -/
structure AttentionShape.Valid (shape : AttentionShape) : Prop where
  numKvHeads_pos : 0 < shape.numKvHeads
  divisible : shape.numHeads % shape.numKvHeads = 0

def AttentionShape.groups (shape : AttentionShape) : ℕ := shape.numHeads / shape.numKvHeads

theorem AttentionShape.Valid.div_groups_lt {shape : AttentionShape} (h : shape.Valid) {head : ℕ}
    (hhead : head < shape.numHeads) : head / shape.groups < shape.numKvHeads := by
  have hmul := Nat.div_add_mod shape.numHeads shape.numKvHeads
  rw [h.divisible, add_zero] at hmul
  apply Nat.div_lt_of_lt_mul
  rw [AttentionShape.groups, Nat.mul_comm, hmul]
  exact hhead

namespace PagedKVCache

variable (cache : PagedKVCache)

/-- A stored element as attention reads it. -/
noncomputable def keyAt (slot head d : ℕ) : ℝ :=
  cache.k slot head d * cache.scales.elim 1 fun scales => scales.1 slot head

noncomputable def valueAt (slot head d : ℕ) : ℝ :=
  cache.v slot head d * cache.scales.elim 1 fun scales => scales.2 slot head

end PagedKVCache

section Quantization

theorem le_foldl_max_map (f : ℕ → ℝ) (ds : List ℕ) (m : ℝ) :
    m ≤ ds.foldl (fun m d => max m (f d)) m ∧
      ∀ d ∈ ds, f d ≤ ds.foldl (fun m d => max m (f d)) m := by
  induction ds generalizing m with
  | nil => simp
  | cons d ds ih =>
    obtain ⟨hinit, hall⟩ := ih (max m (f d))
    rw [List.foldl_cons]
    refine ⟨(le_max_left m (f d)).trans hinit, fun e he => ?_⟩
    obtain rfl | he := List.mem_cons.mp he
    · exact (le_max_right m (f e)).trans hinit
    · exact hall e he

theorem tokenHeadScale_pos (headDim : ℕ) (row : HeadRow) (head : ℕ) :
    0 < tokenHeadScale headDim row head := by
  apply lt_of_lt_of_le _ (le_max_right _ _)
  norm_num [perTokenHeadScaleFloor]

theorem abs_le_tokenHeadScale {headDim : ℕ} (row : HeadRow) (head : ℕ) {d : ℕ} (hd : d < headDim) :
    |row head d| ≤ fp8E4m3fnMax * tokenHeadScale headDim row head := by
  have hmax : (0 : ℝ) < fp8E4m3fnMax := by norm_num [fp8E4m3fnMax]
  calc |row head d|
      ≤ absMax headDim row head :=
        (le_foldl_max_map (fun d => |row head d|) (List.range headDim) 0).2 d
        (List.mem_range.mpr hd)
    _ = fp8E4m3fnMax * (absMax headDim row head / fp8E4m3fnMax) := by
        rw [mul_div_cancel₀ _ hmax.ne']
    _ ≤ fp8E4m3fnMax * tokenHeadScale headDim row head :=
        mul_le_mul_of_nonneg_left (le_max_left _ _) hmax.le

/-- Without rounding, the clamp is idle and the scale gives the row back. -/
theorem quantize_mul_scale {headDim : ℕ} (row : HeadRow) (head : ℕ) {d : ℕ} (hd : d < headDim) :
    quantize headDim row head d * tokenHeadScale headDim row head = row head d := by
  have hpos := tokenHeadScale_pos headDim row head
  obtain ⟨hlow, hhigh⟩ := abs_le.mp (abs_le_tokenHeadScale row head hd)
  have hclamp : quantize headDim row head d = row head d / tokenHeadScale headDim row head := by
    rw [quantize, max_eq_left, min_eq_left]
    · rwa [div_le_iff₀ hpos]
    · rwa [le_div_iff₀ hpos, neg_mul]
  rw [hclamp, div_mul_cancel₀ _ hpos.ne']

end Quantization

section Store

variable {cache : PagedKVCache} {headDim : ℕ}

theorem storeRow_numBlocks (slot : ℕ) (key value : HeadRow) :
    (cache.storeRow headDim slot key value).numBlocks = cache.numBlocks := by
  unfold PagedKVCache.storeRow
  split <;> rfl

theorem storeRow_blockSize (slot : ℕ) (key value : HeadRow) :
    (cache.storeRow headDim slot key value).blockSize = cache.blockSize := by
  unfold PagedKVCache.storeRow
  split <;> rfl

theorem storeRow_self (slot : ℕ) (key value : HeadRow) (head : ℕ) {d : ℕ} (hd : d < headDim) :
    (cache.storeRow headDim slot key value).keyAt slot head d = key head d ∧
      (cache.storeRow headDim slot key value).valueAt slot head d = value head d := by
  unfold PagedKVCache.storeRow PagedKVCache.keyAt PagedKVCache.valueAt
  split <;> rename_i hscales
  · simp [hscales]
  · simp [quantize_mul_scale _ _ hd]

theorem storeRow_of_ne {slot slot' : ℕ} (h : slot' ≠ slot) (key value : HeadRow) (head d : ℕ) :
    (cache.storeRow headDim slot key value).keyAt slot' head d = cache.keyAt slot' head d ∧
      (cache.storeRow headDim slot key value).valueAt slot' head d =
        cache.valueAt slot' head d := by
  unfold PagedKVCache.storeRow PagedKVCache.keyAt PagedKVCache.valueAt
  split <;> rename_i hscales
  · simp [hscales, h]
  · simp [hscales, h]

/-- The rows of one store, by slot. -/
noncomputable def storeRows (headDim : ℕ) (rows : List (ℤ × HeadRow × HeadRow))
    (cache : PagedKVCache) : PagedKVCache :=
  rows.foldl (fun cache row =>
    if row.1 < 0 then cache else cache.storeRow headDim row.1.toNat row.2.1 row.2.2) cache

theorem storeRows_cons (row : ℤ × HeadRow × HeadRow) (rows : List (ℤ × HeadRow × HeadRow)) :
    storeRows headDim (row :: rows) cache = storeRows headDim rows
      (if row.1 < 0 then cache else cache.storeRow headDim row.1.toNat row.2.1 row.2.2) := rfl

theorem storeRows_shape (rows : List (ℤ × HeadRow × HeadRow)) :
    (storeRows headDim rows cache).numBlocks = cache.numBlocks ∧
      (storeRows headDim rows cache).blockSize = cache.blockSize := by
  induction rows generalizing cache with
  | nil => exact ⟨rfl, rfl⟩
  | cons row rows ih =>
    rw [storeRows_cons]
    obtain ⟨hblocks, hsize⟩ := @ih (if row.1 < 0 then cache
      else cache.storeRow headDim row.1.toNat row.2.1 row.2.2)
    rw [hblocks, hsize]
    split_ifs
    · exact ⟨rfl, rfl⟩
    · exact ⟨storeRow_numBlocks _ _ _, storeRow_blockSize _ _ _⟩

/-- A slot that is not written keeps its element. -/
theorem storeRows_of_notMem {rows : List (ℤ × HeadRow × HeadRow)} {slot : ℕ}
    (h : (slot : ℤ) ∉ rows.map Prod.fst) (head d : ℕ) :
    (storeRows headDim rows cache).keyAt slot head d = cache.keyAt slot head d ∧
      (storeRows headDim rows cache).valueAt slot head d = cache.valueAt slot head d := by
  induction rows generalizing cache with
  | nil => exact ⟨rfl, rfl⟩
  | cons row rows ih =>
    rw [List.map_cons, List.mem_cons, not_or] at h
    rw [storeRows_cons]
    obtain ⟨hkey, hvalue⟩ := @ih (if row.1 < 0 then cache
      else cache.storeRow headDim row.1.toNat row.2.1 row.2.2) h.2
    rw [hkey, hvalue]
    split_ifs with hneg
    · exact ⟨rfl, rfl⟩
    · exact storeRow_of_ne (by omega) _ _ _ _

/-- Distinct slots each hold the row that was written to them. -/
theorem storeRows_of_mem {rows : List (ℤ × HeadRow × HeadRow)}
    (hnodup : (rows.map Prod.fst).Nodup) {slot : ℕ} {key value : HeadRow}
    (h : ((slot : ℤ), key, value) ∈ rows) (head : ℕ) {d : ℕ} (hd : d < headDim) :
    (storeRows headDim rows cache).keyAt slot head d = key head d ∧
      (storeRows headDim rows cache).valueAt slot head d = value head d := by
  induction rows generalizing cache with
  | nil => cases h
  | cons row rows ih =>
    rw [List.map_cons, List.nodup_cons] at hnodup
    rw [storeRows_cons]
    obtain rfl | hmem := List.mem_cons.mp h
    · obtain ⟨hkey, hvalue⟩ := @storeRows_of_notMem (if (slot : ℤ) < 0 then cache
          else cache.storeRow headDim (slot : ℤ).toNat key value) headDim _ _ hnodup.1 head d
      rw [hkey, hvalue, if_neg (by omega), Int.toNat_natCast]
      exact storeRow_self slot key value head hd
    · exact ih hnodup.2 hmem

end Store

section Pages

/-- The slots of the first rows of a page table. -/
def pageSlots (blockTable : List ℕ) (blockSize rows : ℕ) : List ℕ :=
  (List.range rows).map fun row => blockTable.getD (row / blockSize) 0 * blockSize + row % blockSize

theorem pageSlots_cons (id : ℕ) (ids : List ℕ) {blockSize : ℕ} (h : 0 < blockSize) (rows : ℕ) :
    pageSlots (id :: ids) blockSize rows =
      (List.range (min blockSize rows)).map (id * blockSize + ·) ++
        pageSlots ids blockSize (rows - min blockSize rows) := by
  have hsplit : rows = min blockSize rows + (rows - min blockSize rows) := by omega
  conv_lhs => rw [pageSlots, hsplit, List.range_add, List.map_append, List.map_map]
  congr 1
  · refine List.map_congr_left fun row hrow => ?_
    have hlt : row < blockSize := by
      rw [List.mem_range] at hrow
      omega
    rw [Nat.div_eq_of_lt hlt, Nat.mod_eq_of_lt hlt, List.getD_cons_zero]
  · rw [pageSlots]
    refine List.map_congr_left fun row hrow => ?_
    rw [List.mem_range] at hrow
    have hmin : min blockSize rows = blockSize := by omega
    rw [Function.comp_apply, hmin, Nat.add_div_left row h, Nat.add_mod_left, List.getD_cons_succ]

theorem flatMap_pages (ids : List ℕ) {blockSize : ℕ} (h : 0 < blockSize) :
    (ids.flatMap fun id => (List.range blockSize).map (id * blockSize + ·)) =
      pageSlots ids blockSize (ids.length * blockSize) := by
  induction ids with
  | nil => simp [pageSlots]
  | cons id ids ih =>
    have hmin : min blockSize ((ids.length + 1) * blockSize) = blockSize := by
      rw [Nat.add_mul, one_mul]
      omega
    have hsub : (ids.length + 1) * blockSize - blockSize = ids.length * blockSize := by
      rw [Nat.add_mul, one_mul, Nat.add_sub_cancel]
    rw [List.flatMap_cons, ih, List.length_cons, pageSlots_cons id ids h, hmin, hsub]

/-- The reference loop reads the pages in order until the context is used up. -/
theorem gatherLoop_ok {numBlocks blockSize : ℕ} (hsize : 0 < blockSize) {ids : List ℕ}
    (hids : ∀ id ∈ ids, id < numBlocks) (padding : List ℤ) {remaining : ℕ}
    (h : remaining ≤ ids.length * blockSize) (slots : List ℕ) :
    gatherLoop numBlocks blockSize (ids.map (fun id : ℕ => (id : ℤ)) ++ padding) remaining slots =
      .ok (0, slots ++ pageSlots ids blockSize remaining) := by
  induction ids generalizing remaining slots with
  | nil =>
    obtain rfl : remaining = 0 := by simpa using h
    cases padding <;> simp [gatherLoop, pageSlots]
  | cons id ids ih =>
    rw [List.map_cons, List.cons_append, gatherLoop]
    by_cases hzero : remaining = 0
    · simp [hzero, pageSlots]
    · have hid := hids id List.mem_cons_self
      rw [if_neg (by omega), if_neg (by omega), Int.toNat_natCast,
        ih (fun i hi => hids i (List.mem_cons_of_mem id hi)), List.append_assoc,
        ← pageSlots_cons id ids hsize]
      rw [List.length_cons, Nat.add_mul, one_mul] at h
      omega

theorem pagesFor_mul_ge {blockSize : ℕ} (h : 0 < blockSize) (rows : ℕ) :
    rows ≤ pagesFor rows blockSize * blockSize := by
  have hdiv := Nat.div_add_mod' (rows + blockSize - 1) blockSize
  have hmod := Nat.mod_lt (rows + blockSize - 1) h
  rw [pagesFor]
  omega

theorem row_div_lt_pagesFor {blockSize : ℕ} (h : 0 < blockSize) {row rows : ℕ} (hrow : row < rows) :
    row / blockSize < pagesFor rows blockSize :=
  (Nat.div_lt_iff_lt_mul h).mpr (hrow.trans_le (pagesFor_mul_ge h rows))

end Pages

section Gather

variable {cache : PagedKVCache} {shape : AttentionShape} {seq : Sequence H} {contextLen : ℕ}

/-- A tensor of rows with given elements, within the shape of a KV row. -/
def RowsAre (shape : AttentionShape) (rows : List HeadRow) (n : ℕ) (element : ℕ → ℕ → ℕ → ℝ) :
    Prop :=
  rows.length = n ∧ ∀ r < n, ∀ head < shape.numKvHeads, ∀ d < shape.headDim,
    (rows.getD r 0) head d = element r head d

/-- The element of a physical row of a sequence. -/
noncomputable def ownKey (cache : PagedKVCache) (seq : Sequence H) (row head d : ℕ) : ℝ :=
  cache.keyAt (seq.blockTable.getD (row / cache.blockSize) 0 * cache.blockSize +
    row % cache.blockSize) head d

noncomputable def ownValue (cache : PagedKVCache) (seq : Sequence H) (row head d : ℕ) : ℝ :=
  cache.valueAt (seq.blockTable.getD (row / cache.blockSize) 0 * cache.blockSize +
    row % cache.blockSize) head d

/-- A gather hands out the sequence's own rows, in order. -/
def GathersOwnRows (shape : AttentionShape) (cache : PagedKVCache) (seq : Sequence H)
    (contextLen : ℕ) (gathered : List HeadRow × List HeadRow) : Prop :=
  RowsAre shape gathered.1 contextLen (ownKey cache seq) ∧
    RowsAre shape gathered.2 contextLen (ownValue cache seq)

theorem dequantize_pageSlots (payload : ℕ → HeadRow) (scales : Option (ℕ → ℕ → ℝ))
    (blockTable : List ℕ) (blockSize n : ℕ) :
    RowsAre shape (dequantize ((pageSlots blockTable blockSize n).map payload)
      (scales.map fun scale => (pageSlots blockTable blockSize n).map scale)) n
      fun row head d =>
        payload (blockTable.getD (row / blockSize) 0 * blockSize + row % blockSize) head d *
          scales.elim 1 fun scale =>
            scale (blockTable.getD (row / blockSize) 0 * blockSize + row % blockSize) head := by
  constructor
  · cases scales <;> simp [dequantize, pageSlots]
  · intro r hr head _ d _
    cases scales <;>
      simp [dequantize, pageSlots, List.getD_eq_getElem?_getD, hr]

theorem dequantize_gathersOwnRows :
    GathersOwnRows shape cache seq contextLen
      (dequantize ((pageSlots seq.blockTable cache.blockSize contextLen).map cache.k)
        (cache.scales.map fun scales =>
          (pageSlots seq.blockTable cache.blockSize contextLen).map scales.1),
      dequantize ((pageSlots seq.blockTable cache.blockSize contextLen).map cache.v)
        (cache.scales.map fun scales =>
          (pageSlots seq.blockTable cache.blockSize contextLen).map scales.2)) := by
  have hkey := @dequantize_pageSlots shape cache.k (cache.scales.map Prod.fst)
    seq.blockTable cache.blockSize contextLen
  have hvalue := @dequantize_pageSlots shape cache.v (cache.scales.map Prod.snd)
    seq.blockTable cache.blockSize contextLen
  unfold GathersOwnRows ownKey ownValue PagedKVCache.keyAt PagedKVCache.valueAt
  cases hscales : cache.scales with
  | none =>
    rw [hscales] at hkey hvalue
    exact ⟨hkey, hvalue⟩
  | some scales =>
    rw [hscales] at hkey hvalue
    exact ⟨hkey, hvalue⟩

theorem toNat_getD_paddedTable (maxBlocks : ℕ) {page : ℕ} (h : page < seq.blockTable.length) :
    ((paddedTable maxBlocks seq).getD page 0).toNat = seq.blockTable.getD page 0 := by
  simp [paddedTable, List.getD_eq_getElem?_getD, List.getElem?_append, h]

/-- The grid reaches element `(token, head, dim)`, and its lane reads exactly that element. -/
theorem gatherLaunch_eq (hsize : 0 < cache.blockSize)
    (hcovered : pagesFor contextLen cache.blockSize ≤ seq.blockTable.length)
    (payload : ℕ → HeadRow) (scales : Option (ℕ → ℕ → ℝ)) (empty : ℕ → ℝ) (maxBlocks : ℕ)
    {token head d : ℕ} (htoken : token < contextLen) (hhead : head < shape.numKvHeads)
    (hd : d < shape.headDim) :
    gatherLaunch shape cache.blockSize payload scales (paddedTable maxBlocks seq) contextLen empty
      ((token * shape.numKvHeads + head) * shape.headDim + d) =
    payload (seq.blockTable.getD (token / cache.blockSize) 0 * cache.blockSize +
        token % cache.blockSize) head d *
      scales.elim 1 fun scale => scale (seq.blockTable.getD (token / cache.blockSize) 0 *
        cache.blockSize + token % cache.blockSize) head := by
  have hdim : 0 < shape.headDim := by omega
  have hheads : 0 < shape.numKvHeads := by omega
  have hdiv : ((token * shape.numKvHeads + head) * shape.headDim + d) / shape.headDim =
      token * shape.numKvHeads + head := by
    rw [Nat.mul_comm, Nat.mul_add_div hdim, Nat.div_eq_of_lt hd, add_zero]
  have htok : ((token * shape.numKvHeads + head) * shape.headDim + d) /
      (shape.numKvHeads * shape.headDim) = token := by
    rw [Nat.mul_comm shape.numKvHeads, ← Nat.div_div_eq_div_mul, hdiv, Nat.mul_comm,
      Nat.mul_add_div hheads, Nat.div_eq_of_lt hhead, add_zero]
  have hhd : (token * shape.numKvHeads + head) % shape.numKvHeads = head := by
    rw [Nat.mul_comm, Nat.mul_add_mod, Nat.mod_eq_of_lt hhead]
  have hdm : ((token * shape.numKvHeads + head) * shape.headDim + d) % shape.headDim = d := by
    rw [Nat.mul_comm, Nat.mul_add_mod, Nat.mod_eq_of_lt hd]
  have hpage : token / cache.blockSize < seq.blockTable.length :=
    (row_div_lt_pagesFor hsize htoken).trans_le hcovered
  have hlast : (token * shape.numKvHeads + head) * shape.headDim + d <
      contextLen * shape.numKvHeads * shape.headDim :=
    calc (token * shape.numKvHeads + head) * shape.headDim + d
        < (token * shape.numKvHeads + head + 1) * shape.headDim := by
          rw [Nat.add_one_mul]
          omega
      _ ≤ (token + 1) * shape.numKvHeads * shape.headDim := by
          refine Nat.mul_le_mul_right _ ?_
          rw [Nat.add_one_mul]
          omega
      _ ≤ contextLen * shape.numKvHeads * shape.headDim :=
          Nat.mul_le_mul_right _ (Nat.mul_le_mul_right _ htoken)
  have hgrid := row_div_lt_pagesFor (show 0 < gatherBlockElements by decide) hlast
  unfold gatherLaunch gatherLane
  rw [htok, if_pos ⟨hgrid, htoken⟩, hdiv, hhd, hdm]
  simp only [if_pos htoken, toNat_getD_paddedTable maxBlocks hpage]
  cases scales <;> simp

theorem gatherPagedKvFused_own (hsize : 0 < cache.blockSize)
    (hcovered : pagesFor contextLen cache.blockSize ≤ seq.blockTable.length)
    (emptyK emptyV : ℕ → ℝ) (maxBlocks : ℕ) :
    GathersOwnRows shape cache seq contextLen
      (gatherPagedKvFused cache shape emptyK emptyV (paddedTable maxBlocks seq) contextLen) := by
  unfold GathersOwnRows gatherPagedKvFused ownKey ownValue PagedKVCache.keyAt PagedKVCache.valueAt
  refine ⟨⟨by simp, fun r hr head hhead d hd => ?_⟩, ⟨by simp, fun r hr head hhead d hd => ?_⟩⟩
  · have hlane := gatherLaunch_eq hsize hcovered cache.k (cache.scales.map Prod.fst) emptyK
      maxBlocks hr hhead hd
    cases hscales : cache.scales <;> simpa [List.getD_eq_getElem?_getD, hr, hscales] using hlane
  · have hlane := gatherLaunch_eq hsize hcovered cache.v (cache.scales.map Prod.snd) emptyV
      maxBlocks hr hhead hd
    cases hscales : cache.scales <;> simpa [List.getD_eq_getElem?_getD, hr, hscales] using hlane

variable (hsize : 0 < cache.blockSize) (hpositive : 0 < contextLen)
  (hids : ∀ id ∈ seq.blockTable, id < cache.numBlocks)
  (hcovered : pagesFor contextLen cache.blockSize ≤ seq.blockTable.length)

include hsize hpositive hids hcovered

variable (shape) in
theorem gatherPagedKvForSequence_ok (maxBlocks : ℕ) :
    ∃ gathered, gatherPagedKvForSequence cache (paddedTable maxBlocks seq) contextLen =
      .ok gathered ∧ GathersOwnRows shape cache seq contextLen gathered := by
  have hrows := (pagesFor_mul_ge hsize contextLen).trans
    (Nat.mul_le_mul_right cache.blockSize hcovered)
  have hloop := gatherLoop_ok hsize hids
    (List.replicate (maxBlocks - seq.blockTable.length) (-1)) hrows []
  refine ⟨_, ?_, dequantize_gathersOwnRows⟩
  simp only [gatherPagedKvForSequence, gatherSlotsForSequence, paddedTable, except_bind_ok,
    ensure_ok, except_pure_ok]
  exact ⟨_, ⟨(), hpositive, _, hloop, (), rfl, rfl⟩, rfl⟩

theorem gatherPagedKvVectorized_ok (maxBlocks : ℕ) :
    ∃ gathered, gatherPagedKvVectorized cache (paddedTable maxBlocks seq) contextLen =
      .ok gathered ∧ GathersOwnRows shape cache seq contextLen gathered := by
  have htake : (paddedTable maxBlocks seq).take (pagesFor contextLen cache.blockSize) =
      (seq.blockTable.take (pagesFor contextLen cache.blockSize)).map fun id : ℕ => (id : ℤ) := by
    rw [paddedTable, List.take_append_of_le_length (by simpa using hcovered), List.map_take]
  have hnone : ((seq.blockTable.take (pagesFor contextLen cache.blockSize)).map
      fun id : ℕ => (id : ℤ)).find? (fun id => decide (id < 0 ∨ (cache.numBlocks : ℤ) ≤ id)) =
        none := by
    rw [List.find?_eq_none]
    intro id hid
    obtain ⟨page, hpage, rfl⟩ := List.mem_map.mp hid
    have hlt := hids page (List.mem_of_mem_take hpage)
    simp only [decide_eq_true_iff]
    omega
  have hslots : (((seq.blockTable.take (pagesFor contextLen cache.blockSize)).map
      fun id : ℕ => (id : ℤ)).flatMap fun id =>
        (List.range cache.blockSize).map (id.toNat * cache.blockSize + ·)).take contextLen =
      pageSlots seq.blockTable cache.blockSize contextLen := by
    have hflat := flatMap_pages (seq.blockTable.take (pagesFor contextLen cache.blockSize)) hsize
    rw [List.flatMap_map]
    simp only [Int.toNat_natCast]
    rw [hflat, pageSlots, ← List.map_take, List.take_range, List.length_take_of_le hcovered,
      Nat.min_eq_left (pagesFor_mul_ge hsize contextLen), pageSlots]
    refine List.map_congr_left fun row hrow => ?_
    have hlt := row_div_lt_pagesFor hsize (List.mem_range.mp hrow)
    rw [List.getD_eq_getElem?_getD, List.getD_eq_getElem?_getD, List.getElem?_take_of_lt hlt]
  refine ⟨_, ?_, dequantize_gathersOwnRows⟩
  simp only [gatherPagedKvVectorized, except_bind_ok, ensure_ok]
  refine ⟨(), hpositive, (), ?_, ?_⟩
  · rw [paddedTable, List.length_append, List.length_map]
    omega
  · rw [htake, hnone, hslots]
    rfl

variable (shape) in
theorem PagedGather.run_ok (gather : PagedGather) (maxBlocks : ℕ) :
    ∃ gathered, gather.run shape cache (paddedTable maxBlocks seq) contextLen = .ok gathered ∧
      GathersOwnRows shape cache seq contextLen gathered := by
  cases gather with
  | vectorized => exact gatherPagedKvVectorized_ok hsize hpositive hids hcovered maxBlocks
  | fused emptyK emptyV =>
    exact ⟨_, rfl, gatherPagedKvFused_own hsize hcovered emptyK emptyV maxBlocks⟩

end Gather

section Attend

variable {shape : AttentionShape}

theorem getD_repeatInterleave (groups : ℕ) (rows : List HeadRow) (r head d : ℕ) :
    ((repeatInterleave groups rows).getD r 0) head d = (rows.getD r 0) (head / groups) d := by
  rw [repeatInterleave, List.getD_eq_getElem?_getD, List.getD_eq_getElem?_getD, List.getElem?_map]
  cases rows[r]? <;> rfl

theorem repeatInterleave_one (rows : List HeadRow) : repeatInterleave 1 rows = rows := by
  simp [repeatInterleave]

theorem groups_of_eq (h : shape.Valid) (heq : shape.numHeads = shape.numKvHeads) :
    shape.groups = 1 := by
  rw [AttentionShape.groups, heq, Nat.div_self h.numKvHeads_pos]

theorem expandGqaKv_ok (h : shape.Valid) (rows : List HeadRow) :
    expandGqaKv shape rows = .ok (repeatInterleave shape.groups rows) := by
  unfold expandGqaKv
  split_ifs with heq
  · rw [groups_of_eq h heq, repeatInterleave_one]
  · simp only [except_bind_ok, ensure_ok, except_pure_ok]
    exact ⟨(), ⟨h.numKvHeads_pos, h.divisible⟩, rfl⟩

/-- Grouped SDPA repeats the KV heads, whichever way it is asked to. -/
theorem scaledDotProductAttentionGqa_eq (h : shape.Valid) (query key value : List HeadRow)
    (mask : ℕ → ℕ → Bool) {enableGqa : Bool}
    (hflag : shape.numHeads ≠ shape.numKvHeads → enableGqa = true) :
    scaledDotProductAttentionGqa shape enableGqa query key value mask =
      scaledDotProductAttention shape query (repeatInterleave shape.groups key)
        (repeatInterleave shape.groups value) mask := by
  unfold scaledDotProductAttentionGqa
  cases enableGqa with
  | true => rfl
  | false =>
    have heq : shape.numHeads = shape.numKvHeads := by
      by_contra hne
      cases hflag hne
    rw [groups_of_eq h heq, repeatInterleave_one, repeatInterleave_one]
    rfl

/-- The attention of one query over the first rows of its own sequence. -/
noncomputable def ownAttention (shape : AttentionShape) (cache : PagedKVCache) (seq : Sequence H)
    (query : HeadRow) (rows head d : ℕ) : ℝ :=
  OnlineSoftmax.attend
    (fun r => (∑ d ∈ Finset.range shape.headDim,
      query head d * ownKey cache seq r (head / shape.groups) d) * shape.scale)
    (fun r d => ownValue cache seq r (head / shape.groups) d) (Finset.range rows) d

/-- The output rows of one item: query `j` sees the prior rows and the first `j + 1` new ones. -/
def IsOwnOutput (shape : AttentionShape) (cache : PagedKVCache) (q : List HeadRow) (start : ℕ)
    (item : PrefillItem H) (out : List HeadRow) : Prop :=
  out.length = item.queryLength ∧ ∀ j < item.queryLength, ∀ head < shape.numHeads,
    ∀ d < shape.headDim, (out.getD j 0) head d =
      ownAttention shape cache item.1 (q.getD (start + j) 0)
        (item.physicalQueryStart + j + 1) head d

/-- What the paths have in common: SDPA over a sequence's own rows under a causal mask that is
aligned with the last key. -/
theorem scaledDotProductAttention_own (h : shape.Valid) {cache : PagedKVCache}
    {item : PrefillItem H} {q keys values : List HeadRow} {start : ℕ}
    (hq : start + item.queryLength ≤ q.length)
    (hgathers : GathersOwnRows shape cache item.1 item.keyLength (keys, values))
    (mask : ℕ → ℕ → Bool)
    (hmask : ∀ j r, mask j r = true ↔ r ≤ item.physicalQueryStart + j) :
    IsOwnOutput shape cache q start item
      (scaledDotProductAttention shape (slice q start (start + item.queryLength))
        (repeatInterleave shape.groups keys) (repeatInterleave shape.groups values) mask) := by
  have hlen : (slice q start (start + item.queryLength)).length = item.queryLength := by
    rw [length_slice hq, Nat.add_sub_cancel_left]
  refine ⟨by simp [scaledDotProductAttention, hlen], fun j hj head hhead d hd => ?_⟩
  obtain ⟨⟨hkeys, hkey⟩, -, hvalue⟩ := hgathers
  have hquery : (slice q start (start + item.queryLength))[j]? = some (q.getD (start + j) 0) := by
    rw [getElem?_slice, if_pos (by omega), List.getD_eq_getElem?_getD,
      List.getElem?_eq_getElem (by omega), Option.getD_some]
  have hrows : ((Finset.range (repeatInterleave shape.groups keys).length).filter
      fun r => mask j r = true) = Finset.range (item.physicalQueryStart + j + 1) := by
    ext r
    rw [Finset.mem_filter, Finset.mem_range, Finset.mem_range, hmask, repeatInterleave,
      List.length_map, hkeys, PrefillItem.keyLength]
    omega
  have hgroup := h.div_groups_lt hhead
  rw [scaledDotProductAttention, List.getD_eq_getElem?_getD, List.getElem?_map,
    List.getElem?_zipIdx, hquery]
  simp only [Option.map_some, Option.getD_some, zero_add]
  rw [hrows, ownAttention]
  apply OnlineSoftmax.attend_congr
  · intro r hr
    have hlt : r < item.keyLength := by
      rw [Finset.mem_range] at hr
      rw [PrefillItem.keyLength]
      omega
    congr 1
    refine Finset.sum_congr rfl fun e he => ?_
    rw [getD_repeatInterleave, hkey r hlt _ hgroup e (Finset.mem_range.mp he)]
  · intro r hr
    have hlt : r < item.keyLength := by
      rw [Finset.mem_range] at hr
      rw [PrefillItem.keyLength]
      omega
    rw [getD_repeatInterleave, hvalue r hlt _ hgroup d hd]

end Attend

section Batch

variable {shape : AttentionShape} {cache : PagedKVCache} {seqs : List (Sequence H)}
  {slices : List PrefillSlice}

/-- Where the query tokens of item `i` start in the flattened batch. -/
def queryStart (seqs : List (Sequence H)) (slices : List PrefillSlice) (i : ℕ) : ℕ :=
  offset ((prefillItems seqs slices).map PrefillItem.queryLength) i

def numQueryTokens (seqs : List (Sequence H)) (slices : List PrefillSlice) : ℕ :=
  ((prefillItems seqs slices).map PrefillItem.queryLength).sum

/-- The output of a batch: every query token attends to its own sequence's rows. -/
def IsBatchOutput (shape : AttentionShape) (cache : PagedKVCache) (q : List HeadRow)
    (seqs : List (Sequence H)) (slices : List PrefillSlice) (out : List HeadRow) : Prop :=
  out.length = numQueryTokens seqs slices ∧
    ∀ i (hi : i < (prefillItems seqs slices).length),
      ∀ j < ((prefillItems seqs slices)[i]).queryLength, ∀ head < shape.numHeads,
        ∀ d < shape.headDim, (out.getD (queryStart seqs slices i + j) 0) head d =
          ownAttention shape cache ((prefillItems seqs slices)[i]).1
            (q.getD (queryStart seqs slices i + j) 0)
            (((prefillItems seqs slices)[i]).physicalQueryStart + j + 1) head d

theorem queryStart_succ {i : ℕ} (hi : i < (prefillItems seqs slices).length) :
    queryStart seqs slices (i + 1) =
      queryStart seqs slices i + ((prefillItems seqs slices)[i]).queryLength := by
  have hlt : i < ((prefillItems seqs slices).map PrefillItem.queryLength).length := by
    simpa using hi
  rw [queryStart, queryStart, offset_succ _ hlt, List.getElem_map]

theorem queryStart_add_le {i : ℕ} (hi : i < (prefillItems seqs slices).length) :
    queryStart seqs slices i + ((prefillItems seqs slices)[i]).queryLength ≤
      numQueryTokens seqs slices := by
  rw [← queryStart_succ hi]
  exact offset_le_sum _ (by simpa using hi)

variable (shape cache) in
/-- A loop over the sequences concatenates their outputs. -/
theorem mapM_isBatchOutput {n : ℕ} {q : List HeadRow}
    {f : ℕ → Except AttentionError (List HeadRow)} (hn : n = (prefillItems seqs slices).length)
    (h : ∀ i (hi : i < (prefillItems seqs slices).length), ∃ out, f i = .ok out ∧
      IsOwnOutput shape cache q (queryStart seqs slices i) ((prefillItems seqs slices)[i]) out) :
    ∃ outputs, (List.range n).mapM f = .ok outputs ∧
      IsBatchOutput shape cache q seqs slices outputs.flatten := by
  subst hn
  choose out hout using h
  let rows : ℕ → List HeadRow := fun i =>
    if hi : i < (prefillItems seqs slices).length then out i hi else []
  have hrows : ∀ i (hi : i < (prefillItems seqs slices).length), rows i = out i hi :=
    fun i hi => dif_pos hi
  have hlengths : (List.range (prefillItems seqs slices).length).map (fun i => (rows i).length) =
      (prefillItems seqs slices).map PrefillItem.queryLength := by
    refine List.ext_getElem (by simp) fun i hi _ => ?_
    have hlt : i < (prefillItems seqs slices).length := by simpa using hi
    rw [List.getElem_map, List.getElem_range, List.getElem_map, hrows i hlt]
    exact (hout i hlt).2.1
  refine ⟨(List.range (prefillItems seqs slices).length).map rows, ?_, ?_, ?_⟩
  · rw [mapM_ok, List.forall₂_map_right_iff, List.forall₂_same]
    intro i hi
    rw [hrows i (List.mem_range.mp hi)]
    exact (hout i (List.mem_range.mp hi)).1
  · rw [← List.flatMap_def, List.length_flatMap, hlengths]
    rfl
  · intro i hi j hj head hhead d hd
    obtain ⟨hlength, hvalue⟩ := (hout i hi).2
    have hrange : i < (List.range (prefillItems seqs slices).length).length := by simpa using hi
    have hj' : j < (rows (List.range (prefillItems seqs slices).length)[i]).length := by
      rw [List.getElem_range, hrows i hi, hlength]
      exact hj
    have hget := getElem?_flatMap (List.range (prefillItems seqs slices).length) rows hrange hj'
    rw [hlengths, ← List.getElem?_eq_getElem hj', List.getElem_range, hrows i hi] at hget
    rw [← List.flatMap_def, List.getD_eq_getElem?_getD, queryStart, hget,
      ← List.getD_eq_getElem?_getD]
    exact hvalue j hj head hhead d hd

variable {blockSize : ℕ} {q : List HeadRow} {context : PrefillContext}

/-- The caches a batch runs on: its pages exist. -/
structure CacheHolds (blockSize : ℕ) (cache : PagedKVCache) (seqs : List (Sequence H)) : Prop where
  blockSize_eq : cache.blockSize = blockSize
  blockSize_pos : 0 < cache.blockSize
  blockIds : ∀ seq ∈ seqs, ∀ id ∈ seq.blockTable, id < cache.numBlocks

theorem queryLength_pos (h : PrefillBatch blockSize seqs slices) {item : PrefillItem H}
    (hitem : item ∈ prefillItems seqs slices) : 0 < item.queryLength := by
  have hcheck := h.checked item hitem
  simp only [checkPrefillSlice, except_bind_ok, ensure_ok] at hcheck
  obtain ⟨-, hlt, -⟩ := hcheck
  rw [PrefillItem.queryLength]
  omega

theorem getD_tables (maxBlocks : ℕ) {i : ℕ}
    (hi : i < (prefillItems seqs slices).length) :
    (seqs.map (paddedTable maxBlocks)).getD i [] =
      paddedTable maxBlocks ((prefillItems seqs slices)[i]).1 := by
  have hlt : i < seqs.length := by
    rw [prefillItems, List.length_zip] at hi
    omega
  rw [List.getD_eq_getElem?_getD, List.getElem?_map, List.getElem?_eq_getElem hlt]
  simp [prefillItems]

variable (hshape : shape.Valid) (hbatch : PrefillBatch blockSize seqs slices)
  (hcache : CacheHolds blockSize cache seqs) (hq : q.length = numQueryTokens seqs slices)
  (hcontext : context.Paged blockSize seqs slices)

include hshape hbatch hcache hq

theorem referenceSequence_ok (maxBlocks : ℕ) {i : ℕ}
    (hi : i < (prefillItems seqs slices).length) :
    ∃ out, referenceSequence shape cache q
      (offsets ((prefillItems seqs slices).map PrefillItem.queryLength))
      ((prefillItems seqs slices).map PrefillItem.keyLength)
      (seqs.map (paddedTable maxBlocks)) i = .ok out ∧
      IsOwnOutput shape cache q (queryStart seqs slices i) ((prefillItems seqs slices)[i]) out := by
  have hmem := List.getElem_mem hi
  have hpos := queryLength_pos hbatch hmem
  have hstart : (offsets ((prefillItems seqs slices).map PrefillItem.queryLength)).getD i 0 =
      queryStart seqs slices i := rfl
  have hend : (offsets ((prefillItems seqs slices).map PrefillItem.queryLength)).getD (i + 1) 0 =
      queryStart seqs slices i + ((prefillItems seqs slices)[i]).queryLength := queryStart_succ hi
  have hkey : ((prefillItems seqs slices).map PrefillItem.keyLength).getD i 0 =
      ((prefillItems seqs slices)[i]).keyLength := by
    rw [List.getD_eq_getElem?_getD, List.getElem?_map, List.getElem?_eq_getElem hi]
    rfl
  have hlength : ((prefillItems seqs slices)[i]).keyLength =
      ((prefillItems seqs slices)[i]).physicalQueryStart +
        ((prefillItems seqs slices)[i]).queryLength := rfl
  obtain ⟨gathered, hgather, hown⟩ := gatherPagedKvForSequence_ok shape
    hcache.blockSize_pos (hlength ▸ by omega)
    (hcache.blockIds _ (zip_fst_mem hmem)) (hcache.blockSize_eq ▸ hbatch.covered _ hmem) maxBlocks
  refine ⟨_, ?_, scaledDotProductAttention_own hshape (hq ▸ queryStart_add_le hi) hown
    (fun j r => decide (r ≤ ((prefillItems seqs slices)[i]).physicalQueryStart + j))
    fun j r => decide_eq_true_iff⟩
  unfold referenceSequence
  simp only [hstart, hend, hkey, getD_tables maxBlocks hi, hgather, expandGqaKv_ok hshape,
    Nat.add_sub_cancel_left]
  simp only [except_bind_ok, ensure_ok, except_pure_ok]
  refine ⟨(), ⟨hpos, by omega⟩, gathered, rfl, _, rfl, _, rfl, ?_⟩
  rw [hlength, Nat.add_sub_cancel]

theorem fastSequence_ok (gather : PagedGather) (maxBlocks : ℕ) {i : ℕ}
    (hi : i < (prefillItems seqs slices).length) :
    ∃ out, fastSequence shape gather cache q
      (offsets ((prefillItems seqs slices).map PrefillItem.queryLength))
      (offsets ((prefillItems seqs slices).map PrefillItem.keyLength))
      (seqs.map (paddedTable maxBlocks)) i = .ok out ∧
      IsOwnOutput shape cache q (queryStart seqs slices i) ((prefillItems seqs slices)[i]) out := by
  have hmem := List.getElem_mem hi
  have hpos := queryLength_pos hbatch hmem
  have hstart : (offsets ((prefillItems seqs slices).map PrefillItem.queryLength)).getD i 0 =
      queryStart seqs slices i := rfl
  have hend : (offsets ((prefillItems seqs slices).map PrefillItem.queryLength)).getD (i + 1) 0 =
      queryStart seqs slices i + ((prefillItems seqs slices)[i]).queryLength := queryStart_succ hi
  have hkey : (offsets ((prefillItems seqs slices).map PrefillItem.keyLength)).getD (i + 1) 0 -
      (offsets ((prefillItems seqs slices).map PrefillItem.keyLength)).getD i 0 =
      ((prefillItems seqs slices)[i]).keyLength := by
    have hlt : i < ((prefillItems seqs slices).map PrefillItem.keyLength).length := by
      simpa using hi
    have hsucc := offset_succ _ hlt
    rw [List.getElem_map] at hsucc
    rw [← offset, ← offset, hsucc, Nat.add_sub_cancel_left]
  have hlength : ((prefillItems seqs slices)[i]).keyLength =
      ((prefillItems seqs slices)[i]).physicalQueryStart +
        ((prefillItems seqs slices)[i]).queryLength := rfl
  obtain ⟨gathered, hgather, hown⟩ := PagedGather.run_ok shape
    hcache.blockSize_pos (hlength ▸ by omega)
    (hcache.blockIds _ (zip_fst_mem hmem)) (hcache.blockSize_eq ▸ hbatch.covered _ hmem) gather
    maxBlocks
  refine ⟨_, ?_, scaledDotProductAttention_own hshape (hq ▸ queryStart_add_le hi) hown
    (causalLowerRight ((prefillItems seqs slices)[i]).queryLength
      ((prefillItems seqs slices)[i]).keyLength) fun j r => ?_⟩
  · unfold fastSequence
    simp only [hstart, hend, hkey, getD_tables maxBlocks hi, hgather,
      Nat.add_sub_cancel_left]
    simp only [except_bind_ok, ensure_ok, except_pure_ok]
    refine ⟨(), ⟨hpos, by omega⟩, gathered, rfl, ?_⟩
    exact scaledDotProductAttentionGqa_eq hshape _ _ _ _ fun hne => decide_eq_true hne
  · rw [causalLowerRight, decide_eq_true_iff, hlength, Nat.add_sub_cancel, Nat.add_comm]

include hcontext

/-- Both paged paths compute the batch's own attention. -/
theorem forwardPrefillPaged_ok (path : PagedPath) :
    ∃ out, forwardPrefillPaged shape path cache q context = .ok out ∧
      IsBatchOutput shape cache q seqs slices out := by
  obtain ⟨maxBlocks, htables⟩ := hcontext.blockTables
  cases path with
  | reference =>
    obtain ⟨outputs, hrun, hout⟩ := mapM_isBatchOutput shape cache (n :=
      ((prefillItems seqs slices).map PrefillItem.keyLength).length) (by simp)
      fun i hi => referenceSequence_ok hshape hbatch hcache hq maxBlocks hi
    refine ⟨_, ?_, hout⟩
    simp only [forwardPrefillPaged, pagedPrefillAttentionReference, htables, hcontext.contextLens,
      hcontext.cuSeqlensQ, except_bind_ok, except_pure_ok]
    exact ⟨outputs, hrun, rfl⟩
  | fast gather =>
    obtain ⟨outputs, hrun, hout⟩ :=
      mapM_isBatchOutput shape cache (n := context.cuSeqlensQ.length - 1)
      (by rw [hcontext.cuSeqlensQ, offsets, List.length_scanl]; simp)
      fun i hi => fastSequence_ok hshape hbatch hcache hq gather maxBlocks hi
    refine ⟨_, ?_, hout⟩
    simp only [forwardPrefillPaged, forwardPrefillPagedFast, htables, hcontext.cuSeqlensQ,
      hcontext.cuSeqlensK, except_bind_ok, except_pure_ok]
    exact ⟨outputs, hcontext.cuSeqlensQ ▸ hrun, rfl⟩

end Batch

section Contiguous

variable {shape : AttentionShape} {cache : PagedKVCache} {seqs : List (Sequence H)}
  {slices : List PrefillSlice} {blockSize : ℕ} {q k v : List HeadRow} {context : PrefillContext}

/-- The flattened KV slots of a batch. -/
def batchSlots (blockSize : ℕ) (seqs : List (Sequence H)) (slices : List PrefillSlice) : List ℤ :=
  (prefillItems seqs slices).flatMap (PrefillItem.querySlots blockSize)

@[simp] theorem length_querySlots (item : PrefillItem H) :
    (item.querySlots blockSize).length = item.queryLength := by
  simp [PrefillItem.querySlots]

variable (blockSize) in
/-- Query `j` of item `i` writes to its own row `p + j`. -/
theorem getElem?_batchSlots {i : ℕ} (hi : i < (prefillItems seqs slices).length) {j : ℕ}
    (hj : j < ((prefillItems seqs slices)[i]).queryLength) :
    (batchSlots blockSize seqs slices)[queryStart seqs slices i + j]? =
      some (((prefillItems seqs slices)[i]).slot blockSize
        (((prefillItems seqs slices)[i]).physicalQueryStart + j) : ℤ) := by
  have hj' : j < (((prefillItems seqs slices)[i]).querySlots blockSize).length := by
    simpa using hj
  have hget := getElem?_flatMap (prefillItems seqs slices) (PrefillItem.querySlots blockSize) hi hj'
  simp only [length_querySlots] at hget
  rw [batchSlots, queryStart, hget]
  simp [PrefillItem.querySlots]

theorem length_batchSlots :
    (batchSlots blockSize seqs slices).length = numQueryTokens seqs slices := by
  simp [batchSlots, numQueryTokens, List.length_flatMap]

variable (hcontext : context.Describes blockSize seqs slices)
  (hk : k.length = numQueryTokens seqs slices) (hv : v.length = numQueryTokens seqs slices)

include hcontext hk

variable (shape cache) in
theorem storeKvcache_ok : storeKvcache shape.headDim k v cache context.slotMapping =
    .ok (storeRows shape.headDim ((batchSlots blockSize seqs slices).zip (k.zip v)) cache) := by
  have hslots : context.slotMapping = batchSlots blockSize seqs slices := hcontext.slotMapping
  simp only [storeKvcache, hslots, except_bind_ok, ensure_ok, except_pure_ok]
  exact ⟨(), length_batchSlots.trans hk.symm, rfl⟩

omit hcontext

include hv

/-- Distinct slots: after the store a query token's own row holds its key and value. -/
theorem storeRows_own (hdistinct : (batchSlots blockSize seqs slices).Nodup) {i : ℕ}
    (hi : i < (prefillItems seqs slices).length) {j : ℕ}
    (hj : j < ((prefillItems seqs slices)[i]).queryLength) (head : ℕ) {d : ℕ}
    (hd : d < shape.headDim) {stored : PagedKVCache}
    (hstored : stored =
      storeRows shape.headDim ((batchSlots blockSize seqs slices).zip (k.zip v)) cache) :
    stored.keyAt (((prefillItems seqs slices)[i]).slot blockSize
        (((prefillItems seqs slices)[i]).physicalQueryStart + j)) head d =
      (k.getD (queryStart seqs slices i + j) 0) head d ∧
    stored.valueAt (((prefillItems seqs slices)[i]).slot blockSize
        (((prefillItems seqs slices)[i]).physicalQueryStart + j)) head d =
      (v.getD (queryStart seqs slices i + j) 0) head d := by
  have hle := queryStart_add_le hi
  have hslot := getElem?_batchSlots blockSize hi hj
  have hfst : ((batchSlots blockSize seqs slices).zip (k.zip v)).map Prod.fst =
      batchSlots blockSize seqs slices := by
    apply List.map_fst_zip
    rw [length_batchSlots, List.length_zip, hk, hv, min_self]
  have hkey : queryStart seqs slices i + j < k.length := by omega
  have hvalue : queryStart seqs slices i + j < v.length := by omega
  have hmem : (((((prefillItems seqs slices)[i]).slot blockSize
      (((prefillItems seqs slices)[i]).physicalQueryStart + j) : ℕ) : ℤ),
      k[queryStart seqs slices i + j], v[queryStart seqs slices i + j]) ∈
        (batchSlots blockSize seqs slices).zip (k.zip v) := by
    apply List.mem_of_getElem? (i := queryStart seqs slices i + j)
    rw [List.getElem?_zip_eq_some, List.getElem?_zip_eq_some]
    exact ⟨hslot, List.getElem?_eq_getElem hkey, List.getElem?_eq_getElem hvalue⟩
  rw [List.getD_eq_getElem?_getD, List.getD_eq_getElem?_getD, List.getElem?_eq_getElem hkey,
    List.getElem?_eq_getElem hvalue, Option.getD_some, Option.getD_some, hstored]
  exact storeRows_of_mem (hfst.symm ▸ hdistinct) hmem head hd

/-- Without prior rows the new rows are all the sequence has. -/
theorem slices_own (hdistinct : (batchSlots blockSize seqs slices).Nodup) {i : ℕ}
    (hi : i < (prefillItems seqs slices).length)
    (hprior : ¬((prefillItems seqs slices)[i]).HasPriorRows) {stored : PagedKVCache}
    (hstored : stored =
      storeRows shape.headDim ((batchSlots blockSize seqs slices).zip (k.zip v)) cache)
    (hsize : stored.blockSize = blockSize) :
    GathersOwnRows shape stored ((prefillItems seqs slices)[i]).1
      ((prefillItems seqs slices)[i]).keyLength
      (slice k (queryStart seqs slices i)
        (queryStart seqs slices i + ((prefillItems seqs slices)[i]).queryLength),
      slice v (queryStart seqs slices i)
        (queryStart seqs slices i + ((prefillItems seqs slices)[i]).queryLength)) := by
  have hle := queryStart_add_le hi
  have hzero : ((prefillItems seqs slices)[i]).physicalQueryStart = 0 :=
    Nat.eq_zero_of_not_pos hprior
  have hlength : ((prefillItems seqs slices)[i]).keyLength =
      ((prefillItems seqs slices)[i]).queryLength := by
    rw [PrefillItem.keyLength, hzero, zero_add]
  have hget : ∀ (rows : List HeadRow), rows.length = numQueryTokens seqs slices →
      ∀ r < ((prefillItems seqs slices)[i]).queryLength,
        (slice rows (queryStart seqs slices i)
          (queryStart seqs slices i + ((prefillItems seqs slices)[i]).queryLength)).getD r 0 =
            rows.getD (queryStart seqs slices i + r) 0 := by
    intro rows _ r hr
    rw [List.getD_eq_getElem?_getD, getElem?_slice, if_pos (by omega), List.getD_eq_getElem?_getD]
  have hown := fun r hr head d hd =>
    storeRows_own hk hv hdistinct hi (j := r) hr head (d := d) hd
      hstored
  simp only [hzero, zero_add] at hown
  rw [hlength]
  refine ⟨⟨?_, fun r hr head _ d hd => ?_⟩, ⟨?_, fun r hr head _ d hd => ?_⟩⟩
  · rw [length_slice (hk ▸ hle), Nat.add_sub_cancel_left]
  · rw [hget k hk r hr, ← (hown r hr head d hd).1, ownKey, hsize]
    rfl
  · rw [length_slice (hv ▸ hle), Nat.add_sub_cancel_left]
  · rw [hget v hv r hr, ← (hown r hr head d hd).2, ownValue, hsize]
    rfl

include hcontext

/-- Contiguous SDPA of a batch without prior rows. -/
theorem forwardPrefillSdpa_ok (hshape : shape.Valid) (hq : q.length = numQueryTokens seqs slices)
    (hdistinct : (batchSlots blockSize seqs slices).Nodup)
    (hprior : ∀ item ∈ prefillItems seqs slices, ¬item.HasPriorRows) {stored : PagedKVCache}
    (hstored : stored =
      storeRows shape.headDim ((batchSlots blockSize seqs slices).zip (k.zip v)) cache)
    (hsize : stored.blockSize = blockSize) (isCuda : Bool) :
    ∃ out, forwardPrefillSdpa shape isCuda q k v context = .ok out ∧
      IsBatchOutput shape stored q seqs slices out := by
  have hlengths : (prefillItems seqs slices).map PrefillItem.keyLength =
      (prefillItems seqs slices).map PrefillItem.queryLength := by
    refine List.map_congr_left fun item hitem => ?_
    have hzero := Nat.eq_zero_of_not_pos (hprior item hitem)
    rw [PrefillItem.keyLength, hzero, zero_add]
  have hcuK : context.cuSeqlensK = context.cuSeqlensQ := by
    rw [hcontext.cuSeqlensK, hcontext.cuSeqlensQ, hlengths]
  have hcount : context.cuSeqlensQ.length - 1 = (prefillItems seqs slices).length := by
    rw [hcontext.cuSeqlensQ, offsets, List.length_scanl]
    simp
  obtain ⟨outputs, hrun, hout⟩ := mapM_isBatchOutput shape stored (q := q)
    (f := sdpaSequence shape isCuda q k v context.cuSeqlensQ context.cuSeqlensK) hcount
    fun i hi => by
      have hzero : ((prefillItems seqs slices)[i]).physicalQueryStart = 0 :=
        Nat.eq_zero_of_not_pos (hprior _ (List.getElem_mem hi))
      have hstart : context.cuSeqlensQ.getD i 0 = queryStart seqs slices i := by
        rw [hcontext.cuSeqlensQ]
        rfl
      have hend : context.cuSeqlensQ.getD (i + 1) 0 =
          queryStart seqs slices i + ((prefillItems seqs slices)[i]).queryLength := by
        rw [hcontext.cuSeqlensQ]
        exact queryStart_succ hi
      refine ⟨_, ?_, scaledDotProductAttention_own hshape (hq ▸ queryStart_add_le hi)
        (slices_own hk hv hdistinct hi (hprior _ (List.getElem_mem hi)) hstored hsize)
        causalMask fun j r => ?_⟩
      · unfold sdpaSequence
        simp only [hcuK, hstart, hend, except_bind_ok, ensure_ok]
        refine ⟨(), trivial, ?_⟩
        cases isCuda with
        | true =>
          rw [if_pos rfl, scaledDotProductAttentionGqa_eq hshape _ _ _ _ fun _ => rfl]
          rfl
        | false =>
          rw [if_neg Bool.false_ne_true]
          by_cases heq : shape.numHeads = shape.numKvHeads
          · rw [if_neg (not_not.mpr heq), if_neg (not_not.mpr heq), groups_of_eq hshape heq,
              repeatInterleave_one, repeatInterleave_one]
            rfl
          · rw [if_pos heq, if_pos heq]
            rfl
      · rw [causalMask, decide_eq_true_iff, hzero, zero_add]
  refine ⟨_, ?_, hout⟩
  simp only [forwardPrefillSdpa, except_bind_ok, ensure_ok, except_pure_ok]
  exact ⟨(), by rw [hcuK], outputs, hrun, rfl⟩

end Contiguous

section Agreement

variable {shape : AttentionShape} {cache : PagedKVCache} {seqs : List (Sequence H)}
  {slices : List PrefillSlice} {blockSize : ℕ} {q k v : List HeadRow}

/-- The context of the batch with its page tables, whether or not it has prior rows. -/
def pagedContext (context : PrefillContext) (seqs : List (Sequence H))
    (slices : List PrefillSlice) (tables : List (List ℤ)) : PrefillContext :=
  { context with
    contextLens := some ((prefillItems seqs slices).map PrefillItem.contextLen)
    blockTables := some tables }

/-- Slots, contents and visibility of one prefill of a batch. What a slot holds afterwards is
stated for slots that no other query token writes: a page is written by one sequence only. -/
structure PrefillAgrees (shape : AttentionShape) (blockSize : ℕ) (cache : PagedKVCache)
    (seqs : List (Sequence H)) (slices : List PrefillSlice) (q k v : List HeadRow)
    (context : PrefillContext) (stored : PagedKVCache) : Prop where
  slots : ∀ i (hi : i < (prefillItems seqs slices).length),
    ∀ j < ((prefillItems seqs slices)[i]).queryLength,
      context.slotMapping[queryStart seqs slices i + j]? =
        some (((prefillItems seqs slices)[i]).slot blockSize
          (((prefillItems seqs slices)[i]).physicalQueryStart + j) : ℤ)
  writes : (batchSlots blockSize seqs slices).Nodup →
    ∀ i (hi : i < (prefillItems seqs slices).length),
      ∀ j < ((prefillItems seqs slices)[i]).queryLength, ∀ head, ∀ d < shape.headDim,
        stored.keyAt (((prefillItems seqs slices)[i]).slot blockSize
            (((prefillItems seqs slices)[i]).physicalQueryStart + j)) head d =
          (k.getD (queryStart seqs slices i + j) 0) head d ∧
        stored.valueAt (((prefillItems seqs slices)[i]).slot blockSize
            (((prefillItems seqs slices)[i]).physicalQueryStart + j)) head d =
          (v.getD (queryStart seqs slices i + j) 0) head d
  paged : ∃ tables, prepareBlockTables seqs = .ok tables ∧ ∀ path, ∃ out,
    forwardPrefillPaged shape path stored q (pagedContext context seqs slices tables) = .ok out ∧
      IsBatchOutput shape stored q seqs slices out
  contiguous : (batchSlots blockSize seqs slices).Nodup →
    (∀ item ∈ prefillItems seqs slices, ¬item.HasPriorRows) → ∀ isCuda, ∃ out,
      forwardPrefillSdpa shape isCuda q k v context = .ok out ∧
        IsBatchOutput shape stored q seqs slices out
  forward : ((∃ item ∈ prefillItems seqs slices, item.HasPriorRows) ∨
      (batchSlots blockSize seqs slices).Nodup) → ∀ path isCuda, ∃ out,
    attentionForward shape path isCuda cache q k v context = .ok (stored, out) ∧
      IsBatchOutput shape stored q seqs slices out

/-- Every prefill batch is prepared and stored, and all attention paths agree on it. -/
theorem prefill_agrees (hshape : shape.Valid) (hbatch : PrefillBatch blockSize seqs slices)
    (hcache : CacheHolds blockSize cache seqs) (hq : q.length = numQueryTokens seqs slices)
    (hk : k.length = numQueryTokens seqs slices) (hv : v.length = numQueryTokens seqs slices) :
    ∃ prepared stored, preparePrefill blockSize seqs (some slices) = .ok prepared ∧
      storeKvcache shape.headDim k v cache prepared.context.slotMapping = .ok stored ∧
      PrefillAgrees shape blockSize cache seqs slices q k v prepared.context stored := by
  obtain ⟨prepared, hprepare, hdescribes, hpaged, hcontiguous⟩ := preparePrefill_ok hbatch
  obtain ⟨maxBlocks, htables⟩ := prepareBlockTables_ok hbatch
  have hstore := storeKvcache_ok shape cache (v := v) hdescribes hk
  obtain ⟨stored, hstored⟩ : ∃ stored, stored =
    storeRows shape.headDim ((batchSlots blockSize seqs slices).zip (k.zip v)) cache := ⟨_, rfl⟩
  rw [← hstored] at hstore
  have hshape' := @storeRows_shape cache shape.headDim
    ((batchSlots blockSize seqs slices).zip (k.zip v))
  rw [← hstored] at hshape'
  obtain ⟨hblocks, hsize⟩ := hshape'
  have hholds : CacheHolds blockSize stored seqs :=
    ⟨hsize.trans hcache.blockSize_eq, hsize ▸ hcache.blockSize_pos,
      hblocks ▸ hcache.blockIds⟩
  have hforward : ((∃ item ∈ prefillItems seqs slices, item.HasPriorRows) ∨
      (batchSlots blockSize seqs slices).Nodup) → ∀ path isCuda, ∃ out,
      forwardPrefill shape path isCuda stored q k v prepared.context = .ok out ∧
        IsBatchOutput shape stored q seqs slices out := by
    intro hdistinct path isCuda
    unfold forwardPrefill
    by_cases hprior : ∃ item ∈ prefillItems seqs slices, item.HasPriorRows
    · obtain ⟨m, hm⟩ := (hpaged hprior).blockTables
      rw [hm]
      exact forwardPrefillPaged_ok hshape hbatch hholds hq (hpaged hprior) path
    · have hnone : ∀ item ∈ prefillItems seqs slices, ¬item.HasPriorRows :=
        fun item hitem hrows => hprior ⟨item, hitem, hrows⟩
      rw [hcontiguous hnone]
      exact forwardPrefillSdpa_ok hdescribes hk hv hshape hq (hdistinct.resolve_left hprior) hnone
        hstored hholds.blockSize_eq isCuda
  refine ⟨prepared, stored, hprepare, hstore, ?_, ?_, ?_, ?_, ?_⟩
  · intro i hi j hj
    rw [hdescribes.slotMapping]
    exact getElem?_batchSlots _ hi hj
  · intro hdistinct i hi j hj head d hd
    exact storeRows_own hk hv hdistinct hi hj head hd hstored
  · refine ⟨_, htables, fun path => forwardPrefillPaged_ok hshape hbatch hholds hq ?_ path⟩
    exact ⟨⟨hdescribes.cuSeqlensQ, hdescribes.cuSeqlensK, hdescribes.slotMapping⟩,
      ⟨maxBlocks, rfl⟩, congrArg some (map_contextLen hbatch)⟩
  · intro hdistinct hnone isCuda
    exact forwardPrefillSdpa_ok hdescribes hk hv hshape hq hdistinct hnone hstored
      hholds.blockSize_eq isCuda
  · intro hdistinct path isCuda
    obtain ⟨out, hrun, hout⟩ := hforward hdistinct path isCuda
    refine ⟨out, ?_, hout⟩
    simp only [attentionForward, hstore, except_bind_ok, except_pure_ok]
    exact ⟨stored, rfl, out, hrun, rfl⟩

/-- A text request of three tokens. -/
def threeTokenRequest (id : ℕ) : Request where
  seqId := id
  blockSize := 2
  promptTokenIds := [5, 6, 7]
  promptNonempty := by decide
  maxTokens := 1
  maxTokensPositive := Nat.one_pos
  ignoreEos := false
  submittedNs := none
  ttftSloNs := none
  images := none
  video := none
  hasPositionIds := false
  hasRopeDelta := false
  imageTokenId := none
  imageTokenCount := 0
  videoTokenId := none
  videoTokenCount := 0
  imageMergeSize := 2
  hasPrefixCacheKey := false
  hasMediaTokenHashes := false

def freshPrefill : Sequence ℕ :=
  { Sequence.ofRequest ℕ (threeTokenRequest 0) with blockTable := [2, 0] }

/-- Two of the three tokens are computed and compacted to one row. -/
def compactedPrefill : Sequence ℕ :=
  { Sequence.ofRequest ℕ (threeTokenRequest 1) with
    numComputedTokens := 2
    blockTable := [3]
    kvLayout := some
      { mode := .visualCompact
        logicalContextLen := 2
        physicalKvLen := 1
        promptLogicalLen := 3
        compressedPromptKvLen := 1
        retainedOriginalPositions := [1]
        kvDtype := "bfloat16"
        compressionRecord := ⟨true, some 3, [(0, 1)], [1], [0]⟩
        compactedLogicalLen := some 2 } }

theorem prefill_agrees_mixed : ∃ prepared stored,
    preparePrefill 2 [freshPrefill, compactedPrefill] (some [⟨0, 0, 3⟩, ⟨1, 2, 3⟩]) =
      .ok prepared ∧
    storeKvcache 1 [0, 1, 2, 3] [0, 1, 2, 3] ⟨4, 2, 0, 0, none⟩ prepared.context.slotMapping =
      .ok stored ∧
    PrefillAgrees ⟨2, 1, 1, 1⟩ 2 ⟨4, 2, 0, 0, none⟩ [freshPrefill, compactedPrefill]
      [⟨0, 0, 3⟩, ⟨1, 2, 3⟩] [0, 1, 2, 3] [0, 1, 2, 3] [0, 1, 2, 3] prepared.context stored := by
  apply @prefill_agrees _ ⟨2, 1, 1, 1⟩
  · exact ⟨by decide, by decide⟩
  · constructor
    · decide
    · intro seq hseq
      fin_cases hseq <;> rfl
    · decide
    · intro item hitem
      fin_cases hitem <;> rfl
    · intro seq hseq
      fin_cases hseq <;> decide
    · intro seq hseq
      fin_cases hseq <;> decide
    · intro item hitem
      fin_cases hitem <;> decide
  · refine ⟨rfl, by decide, ?_⟩
    intro seq hseq
    fin_cases hseq <;> decide
  · rfl
  · rfl
  · rfl

end Agreement

end PrismInfer
