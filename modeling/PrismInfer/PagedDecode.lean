import PrismInfer.Lib.OnlineSoftmax
import Mathlib.Algebra.Order.Floor.Div
import Mathlib.Data.Nat.Size

/-!
# Paged decode attention

The single-pass kernel, the split kernel with its reduction, and their launch. A Triton
program is a function of its program ids; floats are reals, and `-inf` is `⊥`. The
running `(m_i, l_i, acc)` of a kernel is an `OnlineSoftmax.State`.
-/
namespace PrismInfer

open scoped BigOperators
open OnlineSoftmax

/-- The validated sizes of one launch. Context lengths are indexed by sequence. -/
structure PagedDecodeLaunch where
  batch : ℕ
  numHeads : ℕ
  numKvHeads : ℕ
  headDim : ℕ
  pageBlockSize : ℕ
  /-- `block_tables.shape[1]` -/
  maxBlocks : ℕ
  blockN : ℕ
  numSplits : ℕ
  contextLens : ℕ → ℕ
  maxContextLen : ℕ
  numHeads_pos : 0 < numHeads
  numKvHeads_dvd : numKvHeads ∣ numHeads
  headDim_pos : 0 < headDim
  pageBlockSize_pos : 0 < pageBlockSize
  blockN_pos : 0 < blockN
  blockN_power : blockN &&& (blockN - 1) = 0
  numSplits_pos : 0 < numSplits

/-- What the kernels load. Caches are indexed by block, token, KV head and dimension;
scale caches are given together or not at all. -/
structure PagedDecodeTensors where
  q : ℕ → ℕ → ℕ → ℝ
  kCache : ℤ → ℕ → ℕ → ℕ → ℝ
  vCache : ℤ → ℕ → ℕ → ℕ → ℝ
  scaleCaches : Option ((ℤ → ℕ → ℕ → ℝ) × (ℤ → ℕ → ℕ → ℝ))
  blockTables : ℕ → ℕ → ℤ
  scale : ℝ

/-- `1 << (value - 1).bit_length()` for a positive value. -/
def nextPowerOfTwo (value : ℕ) : ℕ :=
  1 <<< (value - 1).size

theorem le_nextPowerOfTwo (value : ℕ) : value ≤ nextPowerOfTwo value := by
  have hsize := Nat.lt_size_self (value - 1)
  rw [nextPowerOfTwo, Nat.one_shiftLeft]
  omega

/-- The tile starts of `tl.range(start, stop, step)`. -/
def tileStarts (start stop step : ℕ) : List ℕ :=
  List.range' start ((stop - start + step - 1) / step) step

namespace PagedDecodeLaunch

variable (L : PagedDecodeLaunch)

def blockD : ℕ := nextPowerOfTwo L.headDim

def kvGroups : ℕ := L.numHeads / L.numKvHeads

def kvHead (qHead : ℕ) : ℕ := qHead / L.kvGroups

def maxContextCapacity : ℕ := L.maxBlocks * L.pageBlockSize

/-- `max_context_len` after the kernel has clamped it to the table's capacity. -/
def runtimeBound : ℕ := min L.maxContextLen L.maxContextCapacity

def splitChunk : ℕ := (L.maxContextCapacity + L.numSplits - 1) / L.numSplits

def splitEnd (split : ℕ) : ℕ :=
  min (split * L.splitChunk + L.splitChunk) L.runtimeBound

/-- A masked load of one cache element, times its scale. -/
noncomputable def loadScaled (cache : ℤ → ℕ → ℕ → ℕ → ℝ) (scales : Option (ℤ → ℕ → ℕ → ℝ))
    (valid : Bool) (blockId : ℤ) (pageOffset kvHead d : ℕ) : ℝ :=
  let x := if valid ∧ d < L.headDim then cache blockId pageOffset kvHead d else 0
  match scales with
  | none => x
  | some scale => x * if valid then scale blockId pageOffset kvHead else 1

/-- The masked load of a token's page id. -/
def loadBlock (T : PagedDecodeTensors) (seqIdx : ℕ) (validN : ℕ → Bool) (token : ℕ) : ℤ :=
  if validN token then T.blockTables seqIdx (token / L.pageBlockSize) else -1

def laneValid (T : PagedDecodeTensors) (seqIdx : ℕ) (validN : ℕ → Bool) (token : ℕ) : Bool :=
  validN token && decide (0 ≤ L.loadBlock T seqIdx validN token)

section Kernels

variable (T : PagedDecodeTensors) (seqIdx qHead : ℕ) (validN : ℕ → Bool)

noncomputable def loadQuery (d : ℕ) : ℝ :=
  if d < L.headDim then T.q seqIdx qHead d else 0

noncomputable def loadKey (token d : ℕ) : ℝ :=
  L.loadScaled T.kCache (T.scaleCaches.map Prod.fst) (L.laneValid T seqIdx validN token)
    (L.loadBlock T seqIdx validN token) (token - token / L.pageBlockSize * L.pageBlockSize)
    (L.kvHead qHead) d

noncomputable def loadValue (token d : ℕ) : ℝ :=
  L.loadScaled T.vCache (T.scaleCaches.map Prod.snd) (L.laneValid T seqIdx validN token)
    (L.loadBlock T seqIdx validN token) (token - token / L.pageBlockSize * L.pageBlockSize)
    (L.kvHead qHead) d

noncomputable def laneScore (token : ℕ) : ℝ :=
  (∑ d ∈ Finset.range L.blockD, L.loadKey T seqIdx qHead validN token d *
    L.loadQuery T seqIdx qHead d) * T.scale

/-- The loop body both kernels share. They differ in `validN`. -/
noncomputable def decodeTile (st : State ℕ) (start : ℕ) : State ℕ :=
  let tokens := Finset.Ico start (start + L.blockN)
  let valid := L.laneValid T seqIdx validN
  let scores := L.laneScore T seqIdx qHead validN
  let blockM : WithBot ℝ := tokens.sup fun token => if valid token then ↑(scores token) else ⊥
  let mNew := st.peak ⊔ blockM
  let mNewForExp : ℝ := mNew.unbotD 0
  let alpha := expSub st.peak mNewForExp
  let p := fun token => if valid token then Real.exp (scores token - mNewForExp) else 0
  { peak := mNew
    total := st.total * alpha + ∑ token ∈ tokens, p token
    acc := fun d => st.acc d * alpha +
      ∑ token ∈ tokens, L.loadValue T seqIdx qHead validN token d * p token }

end Kernels

/-- `_paged_decode_attention_kernel`'s mask: no lane is compared with the runtime bound. -/
def validToken (seqIdx token : ℕ) : Bool :=
  decide (token < L.contextLens seqIdx ∧ token < L.maxContextCapacity)

def validSplitToken (seqIdx split token : ℕ) : Bool :=
  decide (token < L.contextLens seqIdx ∧ token < L.splitEnd split ∧
    token < L.maxContextCapacity)

section Programs

variable (T : PagedDecodeTensors) (seqIdx qHead : ℕ)

/-- The guarded division both output kernels end with. -/
noncomputable def storeOutput (st : State ℕ) (d : ℕ) : ℝ :=
  let denom := if 0 < st.total then st.total else 1
  let out := st.acc d / denom
  if 0 < st.total then out else 0

noncomputable def pagedDecodeAttentionKernel (d : ℕ) : ℝ :=
  storeOutput ((tileStarts 0 L.runtimeBound L.blockN).foldl
    (L.decodeTile T seqIdx qHead (L.validToken seqIdx)) State.empty) d

/-- The partials row `(acc, l_i, m_i)` of one split. -/
noncomputable def pagedDecodeAttentionSplitKernel (split : ℕ) : State ℕ :=
  (tileStarts (split * L.splitChunk) (L.splitEnd split) L.blockN).foldl
    (L.decodeTile T seqIdx qHead (L.validSplitToken seqIdx split)) State.empty

/-- The reduction's first pass. -/
noncomputable def reduceMax (partials : ℕ → State ℕ) (numSplits : ℕ) : WithBot ℝ :=
  (List.range numSplits).foldl (fun mGlobal split =>
    if 0 < (partials split).total ∧ mGlobal < (partials split).peak then
      (partials split).peak
    else mGlobal) ⊥

noncomputable def reduceWeight (partials : ℕ → State ℕ) (mGlobal : WithBot ℝ) (split : ℕ) : ℝ :=
  if 0 < (partials split).total then expSub (partials split).peak mGlobal else 0

noncomputable def pagedDecodeAttentionReduceKernel (partials : ℕ → State ℕ) (d : ℕ) : ℝ :=
  let mGlobal := reduceMax partials L.numSplits
  let w := reduceWeight partials mGlobal
  storeOutput
    { peak := mGlobal
      total := ∑ split ∈ Finset.range L.numSplits, (partials split).total * w split
      acc := fun d => ∑ split ∈ Finset.range L.numSplits, (partials split).acc d * w split } d

/-- The split kernel for every split, then the reduction. -/
noncomputable def splitAttention (d : ℕ) : ℝ :=
  L.pagedDecodeAttentionReduceKernel (L.pagedDecodeAttentionSplitKernel T seqIdx qHead) d

noncomputable def launchPagedDecodeAttention (d : ℕ) : ℝ :=
  if L.numSplits ≤ 1 then L.pagedDecodeAttentionKernel T seqIdx qHead d
  else L.splitAttention T seqIdx qHead d

end Programs

section Spec

variable (T : PagedDecodeTensors) (seqIdx qHead : ℕ)

/-- A cache element of a sequence's row, read through its block table. -/
noncomputable def rowElement (cache : ℤ → ℕ → ℕ → ℕ → ℝ)
    (scales : Option (ℤ → ℕ → ℕ → ℝ)) (row d : ℕ) : ℝ :=
  let blockId := T.blockTables seqIdx (row / L.pageBlockSize)
  let pageOffset := row % L.pageBlockSize
  cache blockId pageOffset (L.kvHead qHead) d *
    scales.elim 1 fun scale => scale blockId pageOffset (L.kvHead qHead)

noncomputable def rowScore (row : ℕ) : ℝ :=
  (∑ d ∈ Finset.range L.headDim, T.q seqIdx qHead d *
    L.rowElement T seqIdx qHead T.kCache (T.scaleCaches.map Prod.fst) row d) * T.scale

noncomputable def rowValue (row d : ℕ) : ℝ :=
  L.rowElement T seqIdx qHead T.vCache (T.scaleCaches.map Prod.snd) row d

/-- The rows below a bound that the block table addresses. -/
def addressedRows (bound : ℕ) : Finset ℕ :=
  (Finset.range bound).filter fun row => 0 ≤ T.blockTables seqIdx (row / L.pageBlockSize)

/-- Softmax attention over the rows of a sequence that the launch may read. -/
noncomputable def softmaxAttention (d : ℕ) : ℝ :=
  attend (L.rowScore T seqIdx qHead) (L.rowValue T seqIdx qHead)
    (L.addressedRows T seqIdx
      (min (min (L.contextLens seqIdx) L.maxContextLen) L.maxContextCapacity)) d

end Spec

/-- Split-K decode, single-pass decode and softmax attention agree on all tensors. -/
def Exact : Prop :=
  ∀ (T : PagedDecodeTensors), ∀ seqIdx < L.batch, ∀ qHead < L.numHeads, ∀ d < L.headDim,
    L.splitAttention T seqIdx qHead d = L.pagedDecodeAttentionKernel T seqIdx qHead d ∧
    L.pagedDecodeAttentionKernel T seqIdx qHead d = L.softmaxAttention T seqIdx qHead d

end PagedDecodeLaunch

end PrismInfer
