import PrismInfer.KVLayout
import PrismInfer.Lib.ListBlocks
import PrismInfer.Lib.StateExcept

/-!
# FlashInfer plan inputs

Context lengths and block tables become the arrays of a paged plan: cumulative page counts,
the pages row by row, and the rows of every last page. For graph replay they are staged into
buffers of fixed size, the rows behind the batch reading one row of page 0.
-/
namespace PrismInfer
open StateExcept ListBlocks

inductive FlashInferError
  | zeroPageSize
  | shapes (tables sequences : ℕ)
  | emptyBatch
  | tableHoles (sequence : ℕ)
  | batchCapacity (batch maxBatch : ℕ)
  | widthCapacity (width maxBlocks : ℕ)
  | bufferSize (size capacity : ℕ)
deriving DecidableEq, Repr

namespace FlashInfer

/-- `(indptr, indices, last_page_len)`. -/
structure PlanInputs where
  indptr : List ℕ
  indices : List ℤ
  lastPageLen : List ℕ
deriving DecidableEq, Repr

/-- Rows of the last page of a sequence. -/
def lastPageLenOf (blockSize len : ℕ) : ℕ :=
  if len % blockSize = 0 then blockSize else len % blockSize

/-- `build_flashinfer_decode_plan_inputs`. -/
def buildDecodePlanInputs (contextLens : List ℕ) (blockTables : List (List ℤ)) (blockSize : ℕ) :
    Except FlashInferError PlanInputs := do
  ensure (blockSize ≠ 0) .zeroPageSize
  ensure (blockTables.length = contextLens.length)
    (.shapes blockTables.length contextLens.length)
  let pagesPerSeq := contextLens.map (pagesFor · blockSize)
  pure {
    indptr := offsets pagesPerSeq
    indices := (blockTables.zip pagesPerSeq).flatMap fun (row, pages) =>
      (row.zipIdx.filter fun (_, column) => column < pages).map (·.1)
    lastPageLen := contextLens.map (lastPageLenOf blockSize) }

/-- One turn of the loop of `build_flashinfer_plan_inputs`. -/
def sequenceBlocks (blockTables : List (List ℤ)) (pagesPerSeq : List ℕ) (sequence : ℕ) :
    Except FlashInferError (List ℤ) := do
  let seqBlocks := (blockTables.getD sequence []).take (pagesPerSeq.getD sequence 0)
  ensure (¬ ∃ page ∈ seqBlocks, page < 0) (.tableHoles sequence)
  pure seqBlocks

/-- `build_flashinfer_plan_inputs`: the query pointer is passed through. -/
def buildPlanInputs (cuSeqlensQ cuSeqlensK : List ℕ) (blockTables : List (List ℤ))
    (blockSize : ℕ) : Except FlashInferError (List ℕ × PlanInputs) := do
  let numSeqs := cuSeqlensQ.length - 1
  let kLens := List.zipWith (· - ·) cuSeqlensK.tail cuSeqlensK.dropLast
  ensure (blockSize ≠ 0) .zeroPageSize
  let pagesPerSeq := kLens.map (pagesFor · blockSize)
  ensure (pagesPerSeq.length = numSeqs) (.shapes pagesPerSeq.length numSeqs)
  let indicesList ← (List.range numSeqs).mapM (sequenceBlocks blockTables pagesPerSeq)
  ensure (indicesList ≠ []) .emptyBatch
  pure (cuSeqlensQ, {
    indptr := offsets pagesPerSeq
    indices := indicesList.flatten
    lastPageLen := kLens.map (lastPageLenOf blockSize) })

/-- The static buffers of one decode wrapper. -/
structure DecodeBuffers extends PlanInputs where
  maxBatch : ℕ
  maxBlocks : ℕ
deriving DecidableEq, Repr

/-- The sizes `__init__` checks and allocates. -/
structure DecodeBuffers.Allocated (buffers : DecodeBuffers) : Prop where
  maxBatch_pos : 0 < buffers.maxBatch
  maxBlocks_pos : 0 < buffers.maxBlocks
  indptr_length : buffers.indptr.length = buffers.maxBatch + 1
  indices_length : buffers.indices.length = buffers.maxBatch * buffers.maxBlocks
  lastPageLen_length : buffers.lastPageLen.length = buffers.maxBatch

/-- `stage_plan_inputs` up to the plan call; `width` is the second axis of the block tables. -/
def stagePlanInputs (buffers : DecodeBuffers) (contextLens : List ℕ)
    (blockTables : List (List ℤ)) (width blockSize : ℕ) :
    Except FlashInferError DecodeBuffers := do
  let batch := contextLens.length
  ensure (batch ≤ buffers.maxBatch) (.batchCapacity batch buffers.maxBatch)
  ensure (width ≤ buffers.maxBlocks) (.widthCapacity width buffers.maxBlocks)
  let inputs ← buildDecodePlanInputs contextLens blockTables blockSize
  ensure (inputs.indices.length ≤ buffers.indices.length)
    (.bufferSize inputs.indices.length buffers.indices.length)
  let indptr := overwrite buffers.indptr 0 inputs.indptr
  let indices := overwrite (List.replicate buffers.indices.length 0) 0 inputs.indices
  let lastPageLen := overwrite (List.replicate buffers.lastPageLen.length 1) 0 inputs.lastPageLen
  -- padding rows read one token from page 0
  let padding := List.range' (inputs.indices.length + 1) (buffers.maxBatch - batch)
  pure { buffers with
    indptr := if batch < buffers.maxBatch then overwrite indptr (batch + 1) padding else indptr
    indices := indices
    lastPageLen := lastPageLen }

/-- The pages a plan gives to row `i`. -/
def PlanInputs.rowPages (inputs : PlanInputs) (i : ℕ) : List ℤ :=
  slice inputs.indices (inputs.indptr.getD i 0) (inputs.indptr.getD (i + 1) 0)

/-- Row `i` of the plan is the paged state of `len` rows on `row`. -/
structure PlanInputs.Describes (inputs : PlanInputs) (blockSize i : ℕ) (row : List ℤ) (len : ℕ) :
    Prop where
  pages : inputs.rowPages i = row.take (pagesFor len blockSize)
  count : (inputs.rowPages i).length = pagesFor len blockSize
  rows : ((pagesFor len blockSize : ℤ) - 1) * blockSize + inputs.lastPageLen.getD i 0 = len

/-! ## The builders -/

theorem filter_zipIdx_lt {α : Type} (list : List α) (n k : ℕ) :
    ((list.zipIdx k).filter fun (_, column) => column < n + k).map (·.1) = list.take n := by
  induction list generalizing n k with
  | nil => simp
  | cons head list ih =>
    rw [List.zipIdx_cons]
    cases n with
    | zero =>
      have hnone : ((head, k) :: list.zipIdx (k + 1)).filter
          (fun (_, column) => decide (column < 0 + k)) = [] := by
        rw [List.filter_eq_nil_iff]
        rintro ⟨_, column⟩ hmem
        rcases List.mem_cons.mp hmem with heq | hmem
        · simp only [Prod.mk.injEq] at heq
          simp [heq.2]
        · have := (List.mem_zipIdx hmem).1
          simp only [decide_eq_true_eq]
          omega
      rw [hnone, List.take_zero]
      rfl
    | succ n =>
      have hshift : n + 1 + k = n + (k + 1) := by omega
      rw [List.filter_cons_of_pos (by simp), List.map_cons, List.take_succ_cons, hshift,
        ih n (k + 1)]

theorem last_page (blockSize len : ℕ) (h : 0 < blockSize) :
    ((pagesFor len blockSize : ℤ) - 1) * blockSize + lastPageLenOf blockSize len = len := by
  have hsplit := Nat.div_add_mod len blockSize
  have hmod := Nat.mod_lt len h
  unfold pagesFor lastPageLenOf
  by_cases hexact : len % blockSize = 0
  · have hpages : (len + blockSize - 1) / blockSize = len / blockSize := by
      have hlen : len + blockSize - 1 = blockSize * (len / blockSize) + (blockSize - 1) := by omega
      rw [hlen, Nat.mul_add_div h,
        Nat.div_eq_of_lt (show blockSize - 1 < blockSize by omega), Nat.add_zero]
    have hlen : ((len / blockSize : ℕ) : ℤ) * blockSize = len := by
      rw [Nat.mul_comm] at hsplit
      exact_mod_cast (by omega : len / blockSize * blockSize = len)
    rw [if_pos hexact, hpages, sub_mul, one_mul, hlen]
    omega
  · have hpages : (len + blockSize - 1) / blockSize = len / blockSize + 1 := by
      have hlen : len + blockSize - 1 =
          blockSize * (len / blockSize + 1) + (len % blockSize - 1) := by
        rw [Nat.mul_succ]
        omega
      rw [hlen, Nat.mul_add_div h,
        Nat.div_eq_of_lt (show len % blockSize - 1 < blockSize by omega), Nat.add_zero]
    rw [if_neg hexact, hpages]
    have hlen : ((len / blockSize : ℕ) : ℤ) * blockSize + (len % blockSize : ℕ) = len := by
      rw [Nat.mul_comm] at hsplit
      exact_mod_cast hsplit
    push_cast at hlen ⊢
    linarith

section Builders

variable {contextLens : List ℕ} {blockTables : List (List ℤ)} {blockSize : ℕ}

/-- What both builders return. -/
def planInputsOf (contextLens : List ℕ) (blockTables : List (List ℤ)) (blockSize : ℕ) :
    PlanInputs where
  indptr := offsets (contextLens.map (pagesFor · blockSize))
  indices := (blockTables.zip (contextLens.map (pagesFor · blockSize))).flatMap fun entry =>
    entry.1.take entry.2
  lastPageLen := contextLens.map (lastPageLenOf blockSize)

theorem buildDecodePlanInputs_ok (hsize : 0 < blockSize)
    (hlength : blockTables.length = contextLens.length) :
    buildDecodePlanInputs contextLens blockTables blockSize =
      .ok (planInputsOf contextLens blockTables blockSize) := by
  have hpages : ∀ entry : List ℤ × ℕ, ((entry.1.zipIdx.filter fun (_, column) =>
      column < entry.2).map (·.1)) = entry.1.take entry.2 := fun entry =>
    filter_zipIdx_lt entry.1 entry.2 0
  simp only [buildDecodePlanInputs, ensure, if_pos hsize.ne', if_pos hlength, bind, Except.bind,
    pure, Except.pure, planInputsOf, hpages]

theorem tail_sub_dropLast_offsets (lengths : List ℕ) :
    List.zipWith (· - ·) (offsets lengths).tail (offsets lengths).dropLast = lengths := by
  have hlen : (offsets lengths).length = lengths.length + 1 := by
    rw [offsets, List.length_scanl]
  apply List.ext_getElem
  · rw [List.length_zipWith, List.length_tail, List.length_dropLast, hlen]
    omega
  · intro i hi hi'
    have hget : ∀ j (hj : j < (offsets lengths).length), (offsets lengths)[j] =
        offset lengths j := by
      intro j hj
      rw [offset, List.getD_eq_getElem?_getD, List.getElem?_eq_getElem hj, Option.getD_some]
    rw [List.getElem_zipWith, List.getElem_tail, List.getElem_dropLast, hget, hget,
      offset_succ lengths hi', Nat.add_sub_cancel_left]

/-- The general builder agrees on tables without holes. -/
theorem buildPlanInputs_ok {cuSeqlensQ : List ℕ} (hsize : 0 < blockSize)
    (hbatch : contextLens ≠ []) (hlength : blockTables.length = contextLens.length)
    (hquery : cuSeqlensQ.length = contextLens.length + 1)
    (hholes : ∀ (i : ℕ) (row : List ℤ) (len : ℕ), blockTables[i]? = some row →
      contextLens[i]? = some len → ∀ page ∈ row.take (pagesFor len blockSize), 0 ≤ page) :
    buildPlanInputs cuSeqlensQ (offsets contextLens) blockTables blockSize =
      .ok (cuSeqlensQ, planInputsOf contextLens blockTables blockSize) := by
  have hnum : cuSeqlensQ.length - 1 = contextLens.length := by omega
  have hpagesLength : (contextLens.map (pagesFor · blockSize)).length = contextLens.length :=
    List.length_map _
  have hblocks : ∀ i, i < contextLens.length → sequenceBlocks blockTables
      (contextLens.map (pagesFor · blockSize)) i = .ok ((blockTables.getD i []).take
        ((contextLens.map (pagesFor · blockSize)).getD i 0)) := by
    intro i hi
    have hrow : blockTables[i]? = some blockTables[i] := List.getElem?_eq_getElem (by omega)
    have hlen : contextLens[i]? = some contextLens[i] := List.getElem?_eq_getElem hi
    have hnone : ¬ ∃ page ∈ (blockTables.getD i []).take
        ((contextLens.map (pagesFor · blockSize)).getD i 0), page < 0 := by
      rintro ⟨page, hpage, hneg⟩
      simp only [List.getD_eq_getElem?_getD, hrow, List.getElem?_map, hlen, Option.map_some,
        Option.getD_some] at hpage
      exact absurd (hholes i _ _ hrow hlen page hpage) (not_le.mpr hneg)
    simp only [sequenceBlocks, ensure, if_pos hnone, bind, Except.bind, pure, Except.pure]
  have hrun : (List.range contextLens.length).mapM (sequenceBlocks blockTables
      (contextLens.map (pagesFor · blockSize))) = .ok ((List.range contextLens.length).map fun i =>
        (blockTables.getD i []).take ((contextLens.map (pagesFor · blockSize)).getD i 0)) := by
    rw [mapM_ok, List.forall₂_map_right_iff, List.forall₂_same]
    exact fun i hi => hblocks i (List.mem_range.mp hi)
  have hne : (List.range contextLens.length).map (fun i => (blockTables.getD i []).take
      ((contextLens.map (pagesFor · blockSize)).getD i 0)) ≠ [] := by
    rw [Ne, List.map_eq_nil_iff, List.range_eq_nil, List.length_eq_zero_iff]
    exact hbatch
  have hzip : (blockTables.zip (contextLens.map (pagesFor · blockSize))).map
      (fun entry => entry.1.take entry.2) = (List.range contextLens.length).map fun i =>
        (blockTables.getD i []).take ((contextLens.map (pagesFor · blockSize)).getD i 0) := by
    apply List.ext_getElem
    · simp [hlength]
    · intro i hi hi'
      rw [List.length_map, List.length_range] at hi'
      simp only [List.getElem_map, List.getElem_zip, List.getElem_range, List.getD_eq_getElem?_getD,
        List.getElem?_map, List.getElem?_eq_getElem hi', Option.map_some, Option.getD_some,
        List.getElem?_eq_getElem (show i < blockTables.length by omega)]
  simp only [buildPlanInputs, tail_sub_dropLast_offsets, ensure, if_pos hsize.ne', hnum,
    if_pos hpagesLength, hrun, if_pos hne, bind, Except.bind, pure, Except.pure, planInputsOf,
    List.flatMap_def, hzip]

variable (hlength : blockTables.length = contextLens.length)
  (hwide : ∀ (i : ℕ) (row : List ℤ) (len : ℕ), blockTables[i]? = some row →
    contextLens[i]? = some len → pagesFor len blockSize ≤ row.length)
include hlength hwide

/-- Row `i` contributes as many indices as it has pages. -/
theorem lengths_eq :
    (blockTables.zip (contextLens.map (pagesFor · blockSize))).map
      (fun entry => (entry.1.take entry.2).length) = contextLens.map (pagesFor · blockSize) := by
  apply List.ext_getElem
  · simp [hlength]
  · intro i hi hi'
    have hin : i < contextLens.length := by rwa [List.length_map] at hi'
    have hfit := hwide i _ _ (List.getElem?_eq_getElem (by omega)) (List.getElem?_eq_getElem hin)
    simp only [List.getElem_map, List.getElem_zip, List.length_take, min_eq_left hfit]

theorem length_indices : (planInputsOf contextLens blockTables blockSize).indices.length =
    (contextLens.map (pagesFor · blockSize)).sum := by
  rw [planInputsOf, List.length_flatMap, lengths_eq hlength hwide]

/-- The plan gives every row the first pages of its table. -/
theorem rowPages_planInputsOf {i len : ℕ} {row : List ℤ} (hrow : blockTables[i]? = some row)
    (hlen : contextLens[i]? = some len) :
    slice (planInputsOf contextLens blockTables blockSize).indices
        (offset (contextLens.map (pagesFor · blockSize)) i)
        (offset (contextLens.map (pagesFor · blockSize)) (i + 1)) =
      row.take (pagesFor len blockSize) := by
  obtain ⟨hi, rfl⟩ := List.getElem?_eq_some_iff.mp hlen
  obtain ⟨hi', rfl⟩ := List.getElem?_eq_some_iff.mp hrow
  have hin : i < (blockTables.zip (contextLens.map (pagesFor · blockSize))).length := by
    rw [List.length_zip, List.length_map]
    omega
  have hslice := slice_flatMap (blockTables.zip (contextLens.map (pagesFor · blockSize)))
    (fun entry => entry.1.take entry.2) hin
  rw [lengths_eq hlength hwide] at hslice
  rw [planInputsOf]
  rw [hslice, List.getElem_zip, List.getElem_map]

end Builders

/-! ## Staging -/

section Staging

variable {buffers : DecodeBuffers} {contextLens : List ℕ} {blockTables : List (List ℤ)}
  {width blockSize : ℕ}

theorem overwrite_front {α : Type} {list rows : List α} :
    overwrite list 0 rows = rows ++ list.drop rows.length := by
  rw [overwrite, List.take_zero, List.nil_append, Nat.zero_add]

/-- The plan in front, the padding behind it. -/
def stagedOf (buffers : DecodeBuffers) (contextLens : List ℕ) (inputs : PlanInputs) :
    DecodeBuffers := { buffers with
  indptr := inputs.indptr ++
    List.range' (inputs.indices.length + 1) (buffers.maxBatch - contextLens.length)
  indices := inputs.indices ++
    List.replicate (buffers.maxBatch * buffers.maxBlocks - inputs.indices.length) 0
  lastPageLen := inputs.lastPageLen ++
    List.replicate (buffers.maxBatch - contextLens.length) 1 }

theorem stagePlanInputs_ok (hbuffers : buffers.Allocated) (hsize : 0 < blockSize)
    (hlength : blockTables.length = contextLens.length)
    (hbatch : contextLens.length ≤ buffers.maxBatch) (hcapacity : width ≤ buffers.maxBlocks)
    (hfit : (planInputsOf contextLens blockTables blockSize).indices.length ≤
      buffers.maxBatch * buffers.maxBlocks) :
    stagePlanInputs buffers contextLens blockTables width blockSize =
      .ok (stagedOf buffers contextLens (planInputsOf contextLens blockTables blockSize)) := by
  set inputs := planInputsOf contextLens blockTables blockSize with hinputs
  have hindptr : inputs.indptr.length = contextLens.length + 1 := by
    simp only [hinputs, planInputsOf, offsets, List.length_scanl, List.length_map]
  have hlast : inputs.lastPageLen.length = contextLens.length := by
    simp only [hinputs, planInputsOf, List.length_map]
  have hroom : inputs.indices.length ≤ buffers.indices.length := by
    rw [hbuffers.indices_length]
    exact hfit
  have hpadding : (if contextLens.length < buffers.maxBatch then
      overwrite (inputs.indptr ++ buffers.indptr.drop inputs.indptr.length)
        (contextLens.length + 1)
        (List.range' (inputs.indices.length + 1) (buffers.maxBatch - contextLens.length))
      else inputs.indptr ++ buffers.indptr.drop inputs.indptr.length) = inputs.indptr ++
        List.range' (inputs.indices.length + 1) (buffers.maxBatch - contextLens.length) := by
    by_cases hless : contextLens.length < buffers.maxBatch
    · rw [if_pos hless, overwrite, ← hindptr, List.take_left, List.length_range',
        List.drop_of_length_le, List.append_nil]
      rw [List.length_append, List.length_drop, hbuffers.indptr_length]
      omega
    · have hfull : buffers.maxBatch - contextLens.length = 0 := by omega
      rw [if_neg hless, hfull, List.drop_of_length_le]
      · rfl
      · rw [hbuffers.indptr_length]
        omega
  simp only [stagePlanInputs, ensure, if_pos hbatch, if_pos hcapacity,
    buildDecodePlanInputs_ok hsize hlength, ← hinputs, bind, Except.bind, pure, Except.pure]
  rw [if_pos hroom]
  simp only [overwrite_front, stagedOf]
  rw [hpadding, hbuffers.indices_length, hbuffers.lastPageLen_length, List.drop_replicate,
    List.drop_replicate, hlast]

/-- Cumulative page counts and the padding behind them, at one position. -/
theorem getD_indptr (pages : List ℕ) {padding i : ℕ} (hi : i ≤ pages.length + padding) :
    (offsets pages ++ List.range' (pages.sum + 1) padding).getD i 0 =
      if i ≤ pages.length then offset pages i else pages.sum + (i - pages.length) := by
  have hlength : (offsets pages).length = pages.length + 1 := by
    rw [offsets, List.length_scanl]
  rw [List.getD_eq_getElem?_getD]
  by_cases hreal : i ≤ pages.length
  · rw [if_pos hreal, List.getElem?_append_left (by omega), offset, List.getD_eq_getElem?_getD]
  · rw [if_neg hreal, List.getElem?_append_right (by omega), hlength,
      List.getElem?_range' (by omega), Option.getD_some]
    omega

theorem indptr_pairwise (pages : List ℕ) (padding : ℕ) :
    (offsets pages ++ List.range' (pages.sum + 1) padding).Pairwise (· ≤ ·) := by
  rw [List.pairwise_append]
  have hget : ∀ i (h : i < (offsets pages).length), (offsets pages)[i] = offset pages i := by
    intro i h
    rw [offset, List.getD_eq_getElem?_getD, List.getElem?_eq_getElem h, Option.getD_some]
  have hlength : (offsets pages).length = pages.length + 1 := by
    rw [offsets, List.length_scanl]
  refine ⟨?_, (List.pairwise_lt_range' (s := pages.sum + 1) (n := padding)).imp le_of_lt, ?_⟩
  · rw [List.pairwise_iff_getElem]
    intro i j hi hj hij
    rw [hget i hi, hget j hj]
    exact offset_mono pages hij.le (by omega)
  · intro a ha b hb
    obtain ⟨i, hi, rfl⟩ := List.getElem_of_mem ha
    rw [hget i hi]
    have := offset_le_sum pages (show i ≤ pages.length by omega)
    have := (List.mem_range'_1.mp hb).1
    omega

theorem slice_append_left {α : Type} {front back : List α} {start stop : ℕ}
    (h : stop ≤ front.length) : slice (front ++ back) start stop = slice front start stop := by
  rw [slice, slice, List.take_append_of_le_length h]

theorem slice_replicate_one {α : Type} {front : List α} {zero : α} {n start : ℕ}
    (hle : front.length ≤ start) (hlt : start < front.length + n) :
    slice (front ++ List.replicate n zero) start (start + 1) = [zero] := by
  apply List.ext_getElem?
  intro i
  rw [getElem?_slice]
  cases i with
  | zero =>
    rw [if_pos (by omega), Nat.add_zero, List.getElem?_append_right hle, List.getElem?_replicate,
      if_pos (by omega)]
    rfl
  | succ i =>
    rw [if_neg (by omega)]
    rfl

theorem sum_pages_le {width : ℕ} (hlength : blockTables.length = contextLens.length)
    (hrows : ∀ row ∈ blockTables, row.length = width)
    (hwide : ∀ (i : ℕ) (row : List ℤ) (len : ℕ), blockTables[i]? = some row →
      contextLens[i]? = some len → pagesFor len blockSize ≤ row.length) :
    (contextLens.map (pagesFor · blockSize)).sum ≤ contextLens.length * width := by
  have hle : ∀ pages ∈ contextLens.map (pagesFor · blockSize), pages ≤ width := by
    intro pages hmem
    obtain ⟨len, hlen, rfl⟩ := List.mem_map.mp hmem
    obtain ⟨i, hi, rfl⟩ := List.getElem_of_mem hlen
    have hin : i < blockTables.length := by omega
    rw [← hrows blockTables[i] (List.getElem_mem hin)]
    exact hwide i _ _ (List.getElem?_eq_getElem hin) (List.getElem?_eq_getElem hi)
  have hsum := List.sum_le_card_nsmul _ width hle
  rwa [List.length_map, smul_eq_mul] at hsum

end Staging

section Decode

variable {buffers : DecodeBuffers} {contextLens : List ℕ} {blockTables : List (List ℤ)}
  {blockSize i : ℕ} {row : List ℤ} {len : ℕ}
  (hlength : blockTables.length = contextLens.length)
  (hwide : ∀ (i : ℕ) (row : List ℤ) (len : ℕ), blockTables[i]? = some row →
    contextLens[i]? = some len → pagesFor len blockSize ≤ row.length)
include hlength hwide

/-- The front of the arrays decides every real row, whatever stands behind it. -/
theorem describes_of_front {inputs : PlanInputs} {indptr lastPageLen : List ℕ}
    {indices : List ℤ} (hsize : 0 < blockSize)
    (hindptr : inputs.indptr =
      (planInputsOf contextLens blockTables blockSize).indptr ++ indptr)
    (hindices : inputs.indices =
      (planInputsOf contextLens blockTables blockSize).indices ++ indices)
    (hlast : inputs.lastPageLen =
      (planInputsOf contextLens blockTables blockSize).lastPageLen ++ lastPageLen)
    (hrow : blockTables[i]? = some row) (hlen : contextLens[i]? = some len) :
    inputs.Describes blockSize i row len := by
  obtain ⟨hi, hget⟩ := List.getElem?_eq_some_iff.mp hlen
  have hfront : ∀ j, j ≤ contextLens.length → inputs.indptr.getD j 0 =
      offset (contextLens.map (pagesFor · blockSize)) j := by
    intro j hj
    rw [hindptr, List.getD_eq_getElem?_getD, List.getElem?_append_left, offset,
      List.getD_eq_getElem?_getD]
    · rfl
    · rw [planInputsOf, offsets, List.length_scanl, List.length_map]
      omega
  have hpages : inputs.rowPages i = row.take (pagesFor len blockSize) := by
    rw [PlanInputs.rowPages, hfront i hi.le, hfront (i + 1) hi, hindices, slice_append_left,
      rowPages_planInputsOf hlength hwide hrow hlen]
    rw [length_indices hlength hwide]
    exact offset_le_sum _ (by rwa [List.length_map])
  refine ⟨hpages, ?_, ?_⟩
  · rw [hpages, List.length_take, min_eq_left (hwide i row len hrow hlen)]
  · have hget : inputs.lastPageLen.getD i 0 = lastPageLenOf blockSize len := by
      rw [hlast, List.getD_eq_getElem?_getD, List.getElem?_append_left, planInputsOf,
        List.getElem?_map, hlen]
      · rfl
      · rwa [planInputsOf, List.length_map]
    rw [hget]
    exact last_page blockSize len hsize

/-- The rows behind the batch read one token from page 0. -/
theorem stagedOf_padding (hbuffers : buffers.Allocated)
    (hsum : (contextLens.map (pagesFor · blockSize)).sum ≤ contextLens.length * buffers.maxBlocks)
    (hge : contextLens.length ≤ i) (hlt : i < buffers.maxBatch) :
    let staged := stagedOf buffers contextLens (planInputsOf contextLens blockTables blockSize)
    staged.indptr.getD (i + 1) 0 ≤ staged.indices.length ∧ staged.rowPages i = [0] ∧
      staged.lastPageLen.getD i 0 = 1 := by
  intro staged
  set pages := contextLens.map (pagesFor · blockSize) with hpages
  have hcount : pages.length = contextLens.length := List.length_map _
  have hindices := length_indices hlength hwide
  rw [← hpages] at hindices
  have hindptr : ∀ j, pages.length ≤ j → j ≤ buffers.maxBatch →
      staged.indptr.getD j 0 = pages.sum + (j - pages.length) := by
    intro j hle hj
    have hget := getD_indptr pages
      (show j ≤ pages.length + (buffers.maxBatch - contextLens.length) by omega)
    have hvalue : (if j ≤ pages.length then offset pages j else pages.sum + (j - pages.length)) =
        pages.sum + (j - pages.length) := by
      by_cases heq : j ≤ pages.length
      · have hend : j = pages.length := by omega
        rw [if_pos heq, hend, offset_eq pages le_rfl, List.take_length, Nat.sub_self, Nat.add_zero]
      · rw [if_neg heq]
    rw [← hvalue, ← hget]
    show (offsets pages ++ List.range' _ _).getD j 0 = _
    rw [hindices]
  -- every padding row costs one page, and a row of the buffer has at least one
  have hroom : pages.sum + (i - pages.length) < buffers.maxBatch * buffers.maxBlocks := by
    have hone := hbuffers.maxBlocks_pos
    have hrest : i - pages.length < (buffers.maxBatch - contextLens.length) * buffers.maxBlocks :=
      lt_of_lt_of_le (by omega) (Nat.le_mul_of_pos_right _ hone)
    have hsplit : contextLens.length * buffers.maxBlocks +
        (buffers.maxBatch - contextLens.length) * buffers.maxBlocks =
          buffers.maxBatch * buffers.maxBlocks := by
      rw [← Nat.add_mul, Nat.add_sub_cancel' (by omega)]
    omega
  have hlength' : staged.indices.length = buffers.maxBatch * buffers.maxBlocks := by
    show (_ ++ List.replicate _ _).length = _
    rw [List.length_append, List.length_replicate, hindices]
    omega
  have hnext := hindptr (i + 1) (by omega) hlt
  refine ⟨?_, ?_, ?_⟩
  · rw [hnext, hlength']
    omega
  · rw [PlanInputs.rowPages, hindptr i (by omega) hlt.le, hnext,
      show pages.sum + (i + 1 - pages.length) = pages.sum + (i - pages.length) + 1 by omega]
    apply slice_replicate_one
    · rw [hindices]
      omega
    · rw [hindices]
      omega
  · show (_ ++ List.replicate _ _).getD i 0 = _
    have hlast : (planInputsOf contextLens blockTables blockSize).lastPageLen.length =
        contextLens.length := List.length_map _
    rw [List.getD_eq_getElem?_getD, List.getElem?_append_right (by omega),
      List.getElem?_replicate, if_pos (by omega), Option.getD_some]

end Decode

/-- Both builders and the staged buffers describe the paged state: each row the first pages
of its table with the context length as its rows, the padding rows one row of page 0. -/
theorem plan_inputs_decode (buffers : DecodeBuffers) (contextLens : List ℕ)
    (blockTables : List (List ℤ)) (width blockSize : ℕ) (cuSeqlensQ : List ℕ)
    (hbuffers : buffers.Allocated) (hsize : 0 < blockSize)
    (hbatch : contextLens.length ≤ buffers.maxBatch) (hcapacity : width ≤ buffers.maxBlocks)
    (hlength : blockTables.length = contextLens.length)
    (hquery : cuSeqlensQ.length = contextLens.length + 1)
    (hrows : ∀ row ∈ blockTables, row.length = width)
    (hpages : ∀ (i : ℕ) (row : List ℤ) (len : ℕ), blockTables[i]? = some row →
      contextLens[i]? = some len → pagesFor len blockSize ≤ width ∧
        ∀ page ∈ row.take (pagesFor len blockSize), 0 ≤ page) :
    ∃ inputs staged, buildDecodePlanInputs contextLens blockTables blockSize = .ok inputs ∧
      (contextLens ≠ [] →
        buildPlanInputs cuSeqlensQ (offsets contextLens) blockTables blockSize =
          .ok (cuSeqlensQ, inputs)) ∧
      stagePlanInputs buffers contextLens blockTables width blockSize = .ok staged ∧
      staged.Allocated ∧ inputs.indptr.getD 0 0 = 0 ∧ staged.indptr.getD 0 0 = 0 ∧
      inputs.indptr.Pairwise (· ≤ ·) ∧ staged.indptr.Pairwise (· ≤ ·) ∧
      (∀ (i : ℕ) (row : List ℤ) (len : ℕ), blockTables[i]? = some row →
        contextLens[i]? = some len →
          inputs.Describes blockSize i row len ∧ staged.Describes blockSize i row len) ∧
      (∀ i, contextLens.length ≤ i → i < buffers.maxBatch →
        staged.indptr.getD (i + 1) 0 ≤ staged.indices.length ∧ staged.rowPages i = [0] ∧
          staged.lastPageLen.getD i 0 = 1) ∧
      staged.indptr.take (contextLens.length + 1) = inputs.indptr ∧
      staged.indices.take inputs.indices.length = inputs.indices ∧
      staged.lastPageLen.take contextLens.length = inputs.lastPageLen := by
  have hwide : ∀ (i : ℕ) (row : List ℤ) (len : ℕ), blockTables[i]? = some row →
      contextLens[i]? = some len → pagesFor len blockSize ≤ row.length := by
    intro i row len hrow hlen
    rw [hrows row (List.mem_of_getElem? hrow)]
    exact (hpages i row len hrow hlen).1
  have hholes : ∀ (i : ℕ) (row : List ℤ) (len : ℕ), blockTables[i]? = some row →
      contextLens[i]? = some len → ∀ page ∈ row.take (pagesFor len blockSize), 0 ≤ page :=
    fun i row len hrow hlen => (hpages i row len hrow hlen).2
  have hsum : (contextLens.map (pagesFor · blockSize)).sum ≤
      contextLens.length * buffers.maxBlocks :=
    (sum_pages_le hlength hrows hwide).trans (Nat.mul_le_mul_left _ hcapacity)
  have hindices := length_indices hlength hwide
  have hfit : (planInputsOf contextLens blockTables blockSize).indices.length ≤
      buffers.maxBatch * buffers.maxBlocks := by
    rw [hindices]
    exact hsum.trans (Nat.mul_le_mul_right _ hbatch)
  have hindptrLength : (planInputsOf contextLens blockTables blockSize).indptr.length =
      contextLens.length + 1 := by
    rw [planInputsOf, offsets, List.length_scanl, List.length_map]
  have hlastLength : (planInputsOf contextLens blockTables blockSize).lastPageLen.length =
      contextLens.length := List.length_map _
  have hstart : (planInputsOf contextLens blockTables blockSize).indptr.getD 0 0 = 0 :=
    offset_eq _ (Nat.zero_le _)
  have hordered := indptr_pairwise (contextLens.map (pagesFor · blockSize))
    (buffers.maxBatch - contextLens.length)
  refine ⟨planInputsOf contextLens blockTables blockSize,
    stagedOf buffers contextLens (planInputsOf contextLens blockTables blockSize),
    buildDecodePlanInputs_ok hsize hlength,
    fun hne => buildPlanInputs_ok hsize hne hlength hquery hholes,
    stagePlanInputs_ok hbuffers hsize hlength hbatch hcapacity hfit, ?_, hstart, ?_,
    (List.pairwise_append.mp hordered).1, ?_, ?_, ?_, ?_, ?_, ?_⟩
  · refine ⟨hbuffers.maxBatch_pos, hbuffers.maxBlocks_pos, ?_, ?_, ?_⟩
    · show (_ ++ List.range' _ _).length = buffers.maxBatch + 1
      rw [List.length_append, hindptrLength, List.length_range']
      omega
    · show (_ ++ List.replicate _ _).length = buffers.maxBatch * buffers.maxBlocks
      rw [List.length_append, List.length_replicate]
      omega
    · show (_ ++ List.replicate _ _).length = buffers.maxBatch
      rw [List.length_append, hlastLength, List.length_replicate]
      omega
  · rw [stagedOf, List.getD_eq_getElem?_getD, List.getElem?_append_left (by omega),
      ← List.getD_eq_getElem?_getD]
    exact hstart
  · show (_ ++ List.range' _ _).Pairwise _
    rw [hindices]
    exact hordered
  · intro i row len hrow hlen
    constructor
    · exact describes_of_front hlength hwide hsize (List.append_nil _).symm
        (List.append_nil _).symm (List.append_nil _).symm hrow hlen
    · exact describes_of_front hlength hwide hsize rfl rfl rfl hrow hlen
  · intro i hge hlt
    exact stagedOf_padding hlength hwide hbuffers hsum hge hlt
  · rw [stagedOf, List.take_left' hindptrLength]
  · rw [stagedOf, List.take_left]
  · rw [stagedOf, List.take_left' hlastLength]

/-- Lengths 4 and 10 on pages of 4 rows, one padding row. -/
theorem plan_inputs_decode_two :
    ∃ inputs staged, buildDecodePlanInputs [4, 10] [[7, -1, -1], [8, 9, 10]] 4 = .ok inputs ∧
      stagePlanInputs ⟨⟨List.replicate 4 0, List.replicate 9 (-1), List.replicate 3 0⟩, 3, 3⟩
        [4, 10] [[7, -1, -1], [8, 9, 10]] 3 4 = .ok staged ∧
      inputs.Describes 4 1 [8, 9, 10] 10 ∧ staged.rowPages 2 = [0] := by
  obtain ⟨inputs, staged, hbuilt, -, hstaged, -, -, -, -, -, hreal, hpadding, -⟩ :=
    plan_inputs_decode
      ⟨⟨List.replicate 4 0, List.replicate 9 (-1), List.replicate 3 0⟩, 3, 3⟩ [4, 10]
      [[7, -1, -1], [8, 9, 10]] 3 4 [0, 1, 2] ⟨by decide, by decide, rfl, rfl, rfl⟩ (by decide)
      (by decide) (by decide) rfl rfl (by decide) (by
        intro i row len hrow hlen
        match i with
        | 0 =>
          obtain rfl : row = [7, -1, -1] := (Option.some.inj hrow).symm
          obtain rfl : len = 4 := (Option.some.inj hlen).symm
          decide
        | 1 =>
          obtain rfl : row = [8, 9, 10] := (Option.some.inj hrow).symm
          obtain rfl : len = 10 := (Option.some.inj hlen).symm
          decide
        | i + 2 => exact absurd hrow (by simp))
  exact ⟨inputs, staged, hbuilt, hstaged, (hreal 1 [8, 9, 10] 10 rfl rfl).1,
    (hpadding 2 (by decide) (by decide)).2.1⟩

end FlashInfer

end PrismInfer
