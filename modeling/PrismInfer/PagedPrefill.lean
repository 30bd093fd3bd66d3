import PrismInfer.Lib.OnlineSoftmax
import PrismInfer.PrefillInputs

/-!
# Prefill attention

The KV store, the gathers of a sequence's pages, and the three attention paths of a
prefill: the paged reference, the paged fast path, and contiguous SDPA. Numbers are reals,
so a conversion of dtype is the identity and `softmax` the exact one. A row is one token of
a `[tokens, heads, head_dim]` tensor.
-/
namespace PrismInfer

open scoped BigOperators
open StateExcept ListBlocks

/-- One token: a value for each head and dimension. -/
abbrev HeadRow := ℕ → ℕ → ℝ

structure AttentionShape where
  numHeads : ℕ
  numKvHeads : ℕ
  headDim : ℕ
  scale : ℝ

inductive AttentionError
  | slotMappingLength
  | contextLenNotPositive
  | blockIdOutside (id : ℤ) (numBlocks : ℕ)
  | blockTable (contextLen remaining : ℕ)
  | tableTooShort (contextLen blocks : ℕ)
  | headsNotDivisible (numHeads numKvHeads : ℕ)
  | pagedMetadata
  | pagedLengths (query context : ℕ)
  | sequenceCounts
  | unequalLengths
deriving DecidableEq, Repr

/-- Paged payload caches and, for scaled FP8, their token-head scales, by flat slot. -/
structure PagedKVCache where
  numBlocks : ℕ
  blockSize : ℕ
  k : ℕ → HeadRow
  v : ℕ → HeadRow
  scales : Option ((ℕ → ℕ → ℝ) × (ℕ → ℕ → ℝ))

section Store

def fp8E4m3fnMax : ℝ := 448

noncomputable def perTokenHeadScaleFloor : ℝ := 1 / 1000000

/-- `abs().amax(dim=-1)` of one head. -/
noncomputable def absMax (headDim : ℕ) (row : HeadRow) (head : ℕ) : ℝ :=
  (List.range headDim).foldl (fun m d => max m |row head d|) 0

noncomputable def tokenHeadScale (headDim : ℕ) (row : HeadRow) (head : ℕ) : ℝ :=
  max (absMax headDim row head / fp8E4m3fnMax) perTokenHeadScaleFloor

noncomputable def quantize (headDim : ℕ) (row : HeadRow) : HeadRow := fun head d =>
  min (max (row head d / tokenHeadScale headDim row head) (-fp8E4m3fnMax)) fp8E4m3fnMax

noncomputable def PagedKVCache.storeRow (cache : PagedKVCache) (headDim slot : ℕ)
    (key value : HeadRow) : PagedKVCache :=
  match cache.scales with
  | none =>
    { cache with
      k := Function.update cache.k slot key
      v := Function.update cache.v slot value }
  | some (kScale, vScale) =>
    { cache with
      k := Function.update cache.k slot (quantize headDim key)
      v := Function.update cache.v slot (quantize headDim value)
      scales := some (Function.update kScale slot (tokenHeadScale headDim key),
        Function.update vScale slot (tokenHeadScale headDim value)) }

/-- `store_kvcache`: a negative slot is skipped. -/
noncomputable def storeKvcache (headDim : ℕ) (key value : List HeadRow) (cache : PagedKVCache)
    (slotMapping : List ℤ) : Except AttentionError PagedKVCache := do
  ensure (slotMapping.length = key.length) .slotMappingLength
  pure <| (slotMapping.zip (key.zip value)).foldl (fun cache row =>
    if row.1 < 0 then cache else cache.storeRow headDim row.1.toNat row.2.1 row.2.2) cache

end Store

section Gather

variable (cache : PagedKVCache)

/-- Payload rows times their scales. -/
def dequantize (rows : List HeadRow) (scales : Option (List (ℕ → ℝ))) : List HeadRow :=
  match scales with
  | none => rows
  | some scales => List.zipWith (fun row scale => fun head d => row head d * scale head) rows scales

/-- The loop of `gather_paged_kv_for_sequence`, by the slots it reads: what is left of the
context, and the slots of the pieces. -/
def gatherLoop (numBlocks blockSize : ℕ) :
    List ℤ → ℕ → List ℕ → Except AttentionError (ℕ × List ℕ)
  | [], remaining, slots => .ok (remaining, slots)
  | blockId :: blockIds, remaining, slots =>
    if remaining = 0 ∨ blockId < 0 then .ok (remaining, slots)
    else if (numBlocks : ℤ) ≤ blockId then .error (.blockIdOutside blockId numBlocks)
    else
      let take := min blockSize remaining
      gatherLoop numBlocks blockSize blockIds (remaining - take)
        (slots ++ (List.range take).map (blockId.toNat * blockSize + ·))

def gatherSlotsForSequence (blockIds : List ℤ) (contextLen : ℕ) :
    Except AttentionError (List ℕ) := do
  ensure (0 < contextLen) .contextLenNotPositive
  -- a positive context that is used up leaves a piece
  let (remaining, slots) ← gatherLoop cache.numBlocks cache.blockSize blockIds contextLen []
  ensure (remaining = 0) (.blockTable contextLen remaining)
  pure slots

/-- Keys and values of the reference path, dequantized. -/
def gatherPagedKvForSequence (blockIds : List ℤ) (contextLen : ℕ) :
    Except AttentionError (List HeadRow × List HeadRow) := do
  let slots ← gatherSlotsForSequence cache blockIds contextLen
  pure (dequantize (slots.map cache.k) (cache.scales.map fun scales => slots.map scales.1),
    dequantize (slots.map cache.v) (cache.scales.map fun scales => slots.map scales.2))

/-- `index_select` of whole pages, flattened and cut. -/
def gatherPagedKvVectorized (blockIds : List ℤ) (contextLen : ℕ) :
    Except AttentionError (List HeadRow × List HeadRow) := do
  ensure (0 < contextLen) .contextLenNotPositive
  let numBlocks := pagesFor contextLen cache.blockSize
  ensure (numBlocks ≤ blockIds.length) (.tableTooShort contextLen blockIds.length)
  let valid := blockIds.take numBlocks
  -- the bounds check of `index_select`
  match valid.find? fun id => decide (id < 0 ∨ (cache.numBlocks : ℤ) ≤ id) with
  | some id => throw (.blockIdOutside id cache.numBlocks)
  | none => do
    let slots := (valid.flatMap fun id =>
      (List.range cache.blockSize).map (id.toNat * cache.blockSize + ·)).take contextLen
    pure (dequantize (slots.map cache.k) (cache.scales.map fun scales => slots.map scales.1),
      dequantize (slots.map cache.v) (cache.scales.map fun scales => slots.map scales.2))

/-- One lane of `_gather_paged_kv_kernel`. -/
def gatherLane (shape : AttentionShape) (blockSize : ℕ) (payload : ℕ → HeadRow)
    (scales : Option (ℕ → ℕ → ℝ)) (blockIds : List ℤ) (contextLen offset : ℕ) : ℝ :=
  let token := offset / (shape.numKvHeads * shape.headDim)
  let head := offset / shape.headDim % shape.numKvHeads
  let dim := offset % shape.headDim
  let valid := token < contextLen
  let page := if valid then (blockIds.getD (token / blockSize) 0).toNat else 0
  let row := token % blockSize
  let x := if valid then payload (page * blockSize + row) head dim else 0
  match scales with
  | none => x
  | some scale => x * if valid then scale (page * blockSize + row) head else 0

/-- `_BLOCK_ELEMENTS`. -/
def gatherBlockElements : ℕ := 1024

/-- Element `offset` of an output after the launch: the programs of the grid store their
lanes of the context, what no lane reaches stays as `torch.empty` left it. -/
def gatherLaunch (shape : AttentionShape) (blockSize : ℕ) (payload : ℕ → HeadRow)
    (scales : Option (ℕ → ℕ → ℝ)) (blockIds : List ℤ) (contextLen : ℕ) (empty : ℕ → ℝ)
    (offset : ℕ) : ℝ :=
  -- `triton.cdiv` of the elements
  let grid := pagesFor (contextLen * shape.numKvHeads * shape.headDim) gatherBlockElements
  let valid := offset / (shape.numKvHeads * shape.headDim) < contextLen
  if offset / gatherBlockElements < grid ∧ valid then
    gatherLane shape blockSize payload scales blockIds contextLen offset
  else empty offset

/-- The dense outputs of the fused kernel, `offset` at `[token, head, dim]`. -/
def gatherPagedKvFused (shape : AttentionShape) (emptyK emptyV : ℕ → ℝ) (blockIds : List ℤ)
    (contextLen : ℕ) : List HeadRow × List HeadRow :=
  let output := fun (payload : ℕ → HeadRow) (scales : Option (ℕ → ℕ → ℝ)) (empty : ℕ → ℝ) =>
    (List.range contextLen).map fun token => fun head d =>
      gatherLaunch shape cache.blockSize payload scales blockIds contextLen empty
        ((token * shape.numKvHeads + head) * shape.headDim + d)
  (output cache.k (cache.scales.map Prod.fst) emptyK,
    output cache.v (cache.scales.map Prod.snd) emptyV)

end Gather

section Attend

variable (shape : AttentionShape)

/-- `repeat_interleave(groups, dim=heads)`. -/
def repeatInterleave (groups : ℕ) (rows : List HeadRow) : List HeadRow :=
  rows.map fun row => fun head d => row (head / groups) d

def expandGqaKv (rows : List HeadRow) : Except AttentionError (List HeadRow) :=
  if shape.numHeads = shape.numKvHeads then .ok rows
  else do
    ensure (0 < shape.numKvHeads ∧ shape.numHeads % shape.numKvHeads = 0)
      (.headsNotDivisible shape.numHeads shape.numKvHeads)
    pure (repeatInterleave (shape.numHeads / shape.numKvHeads) rows)

/-- `scaled_dot_product_attention` of one sequence; `mask i r` lets query `i` see key `r`. -/
noncomputable def scaledDotProductAttention (query key value : List HeadRow)
    (mask : ℕ → ℕ → Bool) : List HeadRow :=
  query.zipIdx.map fun (q, i) => fun head d =>
    OnlineSoftmax.attend
      (fun r => (∑ d ∈ Finset.range shape.headDim, q head d * (key.getD r 0) head d) * shape.scale)
      (fun r d => (value.getD r 0) head d)
      ((Finset.range key.length).filter fun r => mask i r = true) d

/-- SDPA with `enable_gqa`. -/
noncomputable def scaledDotProductAttentionGqa (enableGqa : Bool) (query key value : List HeadRow)
    (mask : ℕ → ℕ → Bool) : List HeadRow :=
  if enableGqa then
    scaledDotProductAttention shape query
      (repeatInterleave (shape.numHeads / shape.numKvHeads) key)
      (repeatInterleave (shape.numHeads / shape.numKvHeads) value) mask
  else scaledDotProductAttention shape query key value mask

/-- `is_causal=True`. -/
def causalMask (i r : ℕ) : Bool := decide (r ≤ i)

/-- `causal_lower_right(q_len, k_len)`. -/
def causalLowerRight (qLen kLen i r : ℕ) : Bool := decide (r ≤ i + (kLen - qLen))

/-- One sequence of `paged_prefill_attention_reference`. -/
noncomputable def referenceSequence (cache : PagedKVCache) (q : List HeadRow)
    (cuSeqlensQ contextLens : List ℕ) (blockTables : List (List ℤ)) (i : ℕ) :
    Except AttentionError (List HeadRow) := do
  let queryStart := cuSeqlensQ.getD i 0
  let queryEnd := cuSeqlensQ.getD (i + 1) 0
  let queryLen := queryEnd - queryStart
  let contextLen := contextLens.getD i 0
  ensure (0 < queryLen ∧ queryLen ≤ contextLen) (.pagedLengths queryLen contextLen)
  let prefixLen := contextLen - queryLen
  let (keys, values) ← gatherPagedKvForSequence cache (blockTables.getD i []) contextLen
  let keys ← expandGqaKv shape keys
  let values ← expandGqaKv shape values
  pure (scaledDotProductAttention shape (slice q queryStart queryEnd) keys values
    fun i r => decide (r ≤ prefixLen + i))

noncomputable def pagedPrefillAttentionReference (cache : PagedKVCache) (q : List HeadRow)
    (context : PrefillContext) : Except AttentionError (List HeadRow) :=
  match context.blockTables, context.contextLens with
  | some blockTables, some contextLens => do
    let outputs ← (List.range contextLens.length).mapM
      (referenceSequence shape cache q context.cuSeqlensQ contextLens blockTables)
    pure outputs.flatten
  | _, _ => .error .pagedMetadata

/-- The gather of the fast path; the fused one is given what `torch.empty` holds. -/
inductive PagedGather
  | vectorized
  | fused (emptyK emptyV : ℕ → ℝ)

def PagedGather.run (gather : PagedGather) (cache : PagedKVCache) (blockIds : List ℤ)
    (contextLen : ℕ) : Except AttentionError (List HeadRow × List HeadRow) :=
  match gather with
  | .vectorized => gatherPagedKvVectorized cache blockIds contextLen
  | .fused emptyK emptyV =>
    .ok (gatherPagedKvFused cache shape emptyK emptyV blockIds contextLen)

/-- One sequence of `_forward_prefill_paged_fast`. -/
noncomputable def fastSequence (gather : PagedGather) (cache : PagedKVCache) (q : List HeadRow)
    (qOffsets kOffsets : List ℕ) (blockTables : List (List ℤ)) (i : ℕ) :
    Except AttentionError (List HeadRow) := do
  let qStart := qOffsets.getD i 0
  let qEnd := qOffsets.getD (i + 1) 0
  let qLen := qEnd - qStart
  let kLen := kOffsets.getD (i + 1) 0 - kOffsets.getD i 0
  ensure (0 < qLen ∧ qLen ≤ kLen) (.pagedLengths qLen kLen)
  let (keys, values) ← gather.run shape cache (blockTables.getD i []) kLen
  pure (scaledDotProductAttentionGqa shape (shape.numHeads ≠ shape.numKvHeads)
    (slice q qStart qEnd) keys values (causalLowerRight qLen kLen))

noncomputable def forwardPrefillPagedFast (gather : PagedGather) (cache : PagedKVCache)
    (q : List HeadRow) (context : PrefillContext) : Except AttentionError (List HeadRow) :=
  match context.blockTables with
  | some blockTables => do
    let outputs ← (List.range (context.cuSeqlensQ.length - 1)).mapM
      (fastSequence shape gather cache q context.cuSeqlensQ context.cuSeqlensK blockTables)
    pure outputs.flatten
  | none => .error .pagedMetadata

/-- One sequence of `_forward_prefill_sdpa`. -/
noncomputable def sdpaSequence (isCuda : Bool) (q k v : List HeadRow)
    (cuSeqlensQ cuSeqlensK : List ℕ) (i : ℕ) : Except AttentionError (List HeadRow) := do
  let queryStart := cuSeqlensQ.getD i 0
  let queryEnd := cuSeqlensQ.getD (i + 1) 0
  let keyStart := cuSeqlensK.getD i 0
  let keyEnd := cuSeqlensK.getD (i + 1) 0
  ensure (queryEnd - queryStart = keyEnd - keyStart) .unequalLengths
  let query := slice q queryStart queryEnd
  let key := slice k keyStart keyEnd
  let value := slice v keyStart keyEnd
  if isCuda then
    pure (scaledDotProductAttentionGqa shape true query key value causalMask)
  else
    let groups := shape.numHeads / shape.numKvHeads
    pure (scaledDotProductAttention shape query
      (if shape.numHeads ≠ shape.numKvHeads then repeatInterleave groups key else key)
      (if shape.numHeads ≠ shape.numKvHeads then repeatInterleave groups value else value)
      causalMask)

noncomputable def forwardPrefillSdpa (isCuda : Bool) (q k v : List HeadRow)
    (context : PrefillContext) : Except AttentionError (List HeadRow) := do
  ensure (context.cuSeqlensQ.length = context.cuSeqlensK.length) .sequenceCounts
  let outputs ← (List.range (context.cuSeqlensQ.length - 1)).mapM
    (sdpaSequence shape isCuda q k v context.cuSeqlensQ context.cuSeqlensK)
  pure outputs.flatten

/-- The path a paged batch takes: device, dtype and kernels decide. -/
inductive PagedPath
  | reference
  | fast (gather : PagedGather)

noncomputable def forwardPrefillPaged (path : PagedPath) (cache : PagedKVCache)
    (q : List HeadRow) (context : PrefillContext) : Except AttentionError (List HeadRow) :=
  match path with
  | .reference => pagedPrefillAttentionReference shape cache q context
  | .fast gather => forwardPrefillPagedFast shape gather cache q context

/-- `_forward_prefill` without the optional third-party kernels. -/
noncomputable def forwardPrefill (path : PagedPath) (isCuda : Bool) (cache : PagedKVCache)
    (q k v : List HeadRow) (context : PrefillContext) : Except AttentionError (List HeadRow) :=
  match context.blockTables with
  | some _ => forwardPrefillPaged shape path cache q context
  | none => forwardPrefillSdpa shape isCuda q k v context

/-- `Attention.forward` of a prefill: store the new rows, then attend. -/
noncomputable def attentionForward (path : PagedPath) (isCuda : Bool) (cache : PagedKVCache)
    (q k v : List HeadRow) (context : PrefillContext) :
    Except AttentionError (PagedKVCache × List HeadRow) := do
  let cache ← storeKvcache shape.headDim k v cache context.slotMapping
  let output ← forwardPrefill shape path isCuda cache q k v context
  pure (cache, output)

end Attend

end PrismInfer
