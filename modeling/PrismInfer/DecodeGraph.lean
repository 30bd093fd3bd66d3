import PrismInfer.Lib.ListBlocks
import PrismInfer.PrefillInputs
import Mathlib.Data.List.Sort

/-!
# Staging of CUDA-graph decode

A captured graph of a bucket reads two flat buffers. The general path prepares fresh tensors
and copies them in, packed or field by field. The batch-one greedy path writes into the
buffers of bucket 1 and clears their page table only when the sequence changes. A call that
raises keeps the writes it has made.
-/
namespace PrismInfer
open StateExcept ListBlocks

variable {H : Type}

/-- A sequence at decode, with `rope_delta` and the sampling temperature. -/
structure DecodeSequence (H : Type) where
  seq : Sequence H
  ropeDelta : Option ℤ
  temperature : ℚ

namespace DecodeSequence

variable (s : DecodeSequence H)

def lastToken : ℤ := s.seq.tokenIds.getLastD 0

def logicalPosition : ℤ := s.seq.numTokens - 1 + s.ropeDelta.getD 0

def physicalLastBlockNumTokens : ℤ :=
  s.seq.physicalKvLen -
    ((pagesFor s.seq.physicalKvLen s.seq.blockSize : ℤ) - 1) * s.seq.blockSize

def kvSlot (blockSize : ℕ) : ℤ :=
  s.seq.blockTable.getLastD 0 * blockSize + s.physicalLastBlockNumTokens - 1

/-- The page table padded with -1. -/
def paddedTable (maxBlocks : ℕ) : List ℤ :=
  PrismInfer.paddedTable maxBlocks s.seq

end DecodeSequence

inductive DecodeGraphError
  | batchEmpty
  | swapped (ids : List ℕ)
  | tableMissing (ids : List ℕ)
  | noWritableSlot (id : ℕ)
  | noBucket (batchSize : ℕ)
  | tableTooWide (actual captured : ℕ)
  | stateInvalid (id : ℕ)
  | broadcast (actual captured : ℕ)
deriving DecidableEq, Repr

def mropeAxisCount : ℕ := 3

/-- What `prepare_decode` hands to the replay: two packed tensors and their shape. -/
structure PreparedDecode where
  batchSize : ℕ
  maxBlocks : ℕ
  usesMrope : Bool
  packedModelInputs : List ℤ
  packedDecodeMetadata : List ℤ
deriving DecidableEq, Repr

namespace PreparedDecode

variable (p : PreparedDecode)

def inputIds : List ℤ := slice p.packedModelInputs 0 p.batchSize

/-- `_as_mrope_decode_positions`: a text batch has the same positions on every axis. -/
def positions (axis : ℕ) : List ℤ :=
  if p.usesMrope then
    slice p.packedModelInputs (p.batchSize + axis * p.batchSize)
      (p.batchSize + axis * p.batchSize + p.batchSize)
  else slice p.packedModelInputs p.batchSize (2 * p.batchSize)

def slotMapping : List ℤ := slice p.packedDecodeMetadata 0 p.batchSize

def contextLens : List ℤ := slice p.packedDecodeMetadata p.batchSize (2 * p.batchSize)

def decodeMaxContextLen : ℤ := p.packedDecodeMetadata.getD (3 * p.batchSize) 0

def blockTable (row : ℕ) : List ℤ :=
  slice p.packedDecodeMetadata (3 * p.batchSize + 1 + row * p.maxBlocks)
    (3 * p.batchSize + 1 + row * p.maxBlocks + p.maxBlocks)

end PreparedDecode

def validateDecodeBatch (seqs : List (DecodeSequence H)) : Except DecodeGraphError Unit := do
  ensure (seqs ≠ []) .batchEmpty
  let swapped := seqs.filter fun s => s.seq.cpuBlockTable ≠ []
  ensure (swapped = []) (.swapped (swapped.map (·.seq.request.seqId)))
  let missing := seqs.filter fun s => s.seq.blockTable = []
  ensure (missing = []) (.tableMissing (missing.map (·.seq.request.seqId)))
  match seqs.find? fun s => decide (s.physicalLastBlockNumTokens ≤ 0) with
  | some s => throw (.noWritableSlot s.seq.request.seqId)
  | none => pure ()

def prepareDecode (blockSize : ℕ) (seqs : List (DecodeSequence H)) :
    Except DecodeGraphError PreparedDecode := do
  validateDecodeBatch seqs
  let usesMrope := seqs.any (·.ropeDelta.isSome)
  let maxBlocks := (seqs.map (·.seq.blockTable.length)).foldl max 0
  let positionValues := if usesMrope then
      (List.replicate mropeAxisCount (seqs.map (·.logicalPosition))).flatten
    else seqs.map fun s => (s.seq.numTokens : ℤ) - 1
  let contextLens := seqs.map fun s => (s.seq.physicalKvLen : ℤ)
  pure
    { batchSize := seqs.length
      maxBlocks := maxBlocks
      usesMrope := usesMrope
      packedModelInputs := seqs.map (·.lastToken) ++ positionValues
      packedDecodeMetadata := seqs.map (·.kvSlot blockSize) ++ contextLens ++
        (seqs.map fun s => (s.seq.numTokens : ℤ)) ++ [contextLens.foldl max 0] ++
        seqs.flatMap (·.paddedTable maxBlocks) }

/-- A pinned host buffer. -/
abbrev HostBuffer := ℕ → ℤ

def HostBuffer.write (buffer : HostBuffer) (start : ℕ) (values : List ℤ) : HostBuffer := fun k =>
  if start ≤ k ∧ k < start + values.length then values.getD (k - start) 0 else buffer k

def HostBuffer.fill (buffer : HostBuffer) (start stop : ℕ) (value : ℤ) : HostBuffer := fun k =>
  if start ≤ k ∧ k < stop then value else buffer k

/-- The host side of one bucket: `[ids, positions]` and
`[slots, context_lens, logical_context_lens, max_context_len, block_tables]`. -/
structure GraphBuffers where
  hostModelInputs : HostBuffer
  hostDecodeMetadata : HostBuffer

namespace GraphBuffers

variable (width bucket : ℕ) (b : GraphBuffers)

/-- Where the page tables start. -/
def tableStart : ℕ := 3 * bucket + 1

def metadataSize : ℕ := tableStart bucket + bucket * width

def writeModel (start : ℕ) (values : List ℤ) : GraphBuffers :=
  { b with hostModelInputs := b.hostModelInputs.write start values }

def writeMetadata (start : ℕ) (values : List ℤ) : GraphBuffers :=
  { b with hostDecodeMetadata := b.hostDecodeMetadata.write start values }

def fillMetadata (start stop : ℕ) (value : ℤ) : GraphBuffers :=
  { b with hostDecodeMetadata := b.hostDecodeMetadata.fill start stop value }

/-- One `copy_` for each packed tensor. -/
def stagePacked (p : PreparedDecode) : GraphBuffers :=
  (b.writeModel 0 p.packedModelInputs).writeMetadata 0 p.packedDecodeMetadata

/-- The copy field by field. -/
def stageFields (p : PreparedDecode) : GraphBuffers :=
  let b := b.writeModel 0 p.inputIds
  let b := (List.range mropeAxisCount).foldl
    (fun b axis => b.writeModel (bucket + axis * bucket) (p.positions axis)) b
  let b := (b.fillMetadata 0 bucket (-1)).writeMetadata 0 p.slotMapping
  let b := (b.fillMetadata bucket (2 * bucket) 0).writeMetadata bucket p.contextLens
  let b := b.writeMetadata (3 * bucket) [p.decodeMaxContextLen]
  let b := b.fillMetadata (tableStart bucket) (metadataSize width bucket) (-1)
  (List.range p.batchSize).foldl
    (fun b row => b.writeMetadata (tableStart bucket + row * width) (p.blockTable row)) b

end GraphBuffers

/-- `_cudagraph_batch_sizes`: exact up to 8, then multiples of 16 and the maximum. -/
def cudagraphBatchSizes (maxBs : ℕ) : List ℕ :=
  let graphBs := List.range' 1 (min maxBs 8) ++ List.range' 16 (maxBs / 16) 16
  let graphBs := if graphBs.getLast? = some maxBs then graphBs else graphBs ++ [maxBs]
  graphBs.dedup.insertionSort (· ≤ ·)

/-- A runner after capture. -/
structure GraphRunner where
  blockSize : ℕ
  maxBs : ℕ
  maxNumBlocks : ℕ
  /-- Compression mode is graph-safe, shadow pruning and tracing are off. -/
  fastPathEnabled : Bool
  graphVars : ℕ → GraphBuffers
  /-- The sequence of `_single_greedy_decode_batch_cache`. -/
  batchCache : Option ℕ

namespace GraphRunner

def graphBs (r : GraphRunner) : List ℕ := cudagraphBatchSizes r.maxBs

def setBuffers (r : GraphRunner) (bucket : ℕ) (b : GraphBuffers) : GraphRunner :=
  { r with graphVars := Function.update r.graphVars bucket b }

/-- A computation on the runner. -/
abbrev Run := EStateM DecodeGraphError GraphRunner

/-- The tensors a replay is called with: fresh ones, or the buffers of bucket 1 themselves. -/
inductive ReplayInputs
  | prepared (p : PreparedDecode)
  | persistent

/-- `use_packed_staging`. -/
def UsesPackedStaging (r : GraphRunner) (bucket : ℕ) (p : PreparedDecode) : Prop :=
  p.batchSize = bucket ∧ p.packedModelInputs.length = bucket * (1 + mropeAxisCount) ∧
    p.packedDecodeMetadata.length ≤ GraphBuffers.metadataSize r.maxNumBlocks bucket ∧
    (p.batchSize = 1 ∨ p.maxBlocks = r.maxNumBlocks)

instance (r : GraphRunner) (bucket : ℕ) (p : PreparedDecode) :
    Decidable (r.UsesPackedStaging bucket p) :=
  inferInstanceAs (Decidable (_ ∧ _ ∧ _ ∧ _))

/-- `run_model_cudagraph` up to the replay; returns the bucket. -/
def runModelCudagraph (inputs : ReplayInputs) : Run ℕ := do
  let r ← get
  let batchSize := match inputs with
    | .prepared p => p.batchSize
    | .persistent => 1
  match r.graphBs.find? fun size => decide (batchSize ≤ size) with
  | none => throw (.noBucket batchSize)
  | some bucket =>
    match inputs with
    | .persistent => pure bucket
    | .prepared p => do
      require (p.maxBlocks ≤ r.maxNumBlocks) (.tableTooWide p.maxBlocks r.maxNumBlocks)
      let b := r.graphVars bucket
      if r.UsesPackedStaging bucket p then set (r.setBuffers bucket (b.stagePacked p))
      else set (r.setBuffers bucket (b.stageFields r.maxNumBlocks bucket p))
      pure bucket

/-- The general decode path: prepare, then stage. -/
def generalDecode (seqs : List (DecodeSequence H)) : Run ℕ := do
  let r ← get
  let p ← readOnly (prepareDecode r.blockSize seqs)
  runModelCudagraph (.prepared p)

def samplingNumericalEpsilon : ℚ := 1 / 10000000000

/-- The writes of `_prepare_single_greedy_decode_cudagraph_state` before the page table. -/
def fillSingleGreedy (r : GraphRunner) (s : DecodeSequence H) : GraphRunner :=
  let b := r.graphVars 1
  let b := b.writeModel 0 [s.lastToken]
  let b := b.writeModel 1 (List.replicate mropeAxisCount s.logicalPosition)
  let b := b.writeMetadata 0 [s.kvSlot r.blockSize, s.seq.physicalKvLen, s.seq.numTokens,
    s.seq.physicalKvLen]
  if r.batchCache = some s.seq.request.seqId then r.setBuffers 1 b
  else
    { r.setBuffers 1 (b.fillMetadata 4 (GraphBuffers.metadataSize r.maxNumBlocks 1) (-1)) with
      batchCache := some s.seq.request.seqId }

/-- The checks of `SingleGreedyDecodeState`. -/
def SingleGreedyValid (r : GraphRunner) (s : DecodeSequence H) : Prop :=
  0 ≤ s.lastToken ∧ 0 ≤ s.logicalPosition ∧ 0 ≤ s.kvSlot r.blockSize ∧
    0 < s.seq.physicalKvLen ∧ 0 < s.seq.numTokens ∧ s.seq.blockTable ≠ []

instance (r : GraphRunner) (s : DecodeSequence H) : Decidable (r.SingleGreedyValid s) :=
  inferInstanceAs (Decidable (_ ∧ _ ∧ _ ∧ _ ∧ _ ∧ _))

/-- `prepare_single_greedy_decode_cudagraph` of a batch-one decode plan: `false` sends the
caller to the general path. -/
def prepareSingleGreedyDecode (s : DecodeSequence H) : Run Bool := do
  let r ← get
  if ¬ r.fastPathEnabled ∨ 1 ∉ r.graphBs ∨ samplingNumericalEpsilon < s.temperature then
    pure false
  else do
    require (s.seq.blockTable ≠ [] ∧ 0 < s.physicalLastBlockNumTokens)
      (.noWritableSlot s.seq.request.seqId)
    require (r.SingleGreedyValid s) (.stateInvalid s.seq.request.seqId)
    let r := r.fillSingleGreedy s
    set r
    -- a longer table does not broadcast into the buffer
    require (s.seq.blockTable.length ≤ r.maxNumBlocks)
      (.broadcast s.seq.blockTable.length r.maxNumBlocks)
    set (r.setBuffers 1 ((r.graphVars 1).writeMetadata 4
      (s.seq.blockTable.map fun id : ℕ => (id : ℤ))))
    pure true

/-- The fast path, falling back where it does not apply. -/
def singleGreedyDecode (s : DecodeSequence H) : Run Bool := do
  let eligible ← prepareSingleGreedyDecode s
  if eligible then do
    let _ ← runModelCudagraph .persistent
    pure true
  else pure false

/-- One decode call of an engine, whatever has happened to its sequences before. -/
inductive DecodeCall (H : Type)
  | general (seqs : List (DecodeSequence H))
  | single (s : DecodeSequence H)

/-- The runner after a computation that returned or raised. -/
def stateAfter {α : Type} (x : Run α) (r : GraphRunner) : GraphRunner :=
  match x r with
  | .ok _ r' => r'
  | .error _ r' => r'

def call (r : GraphRunner) : DecodeCall H → GraphRunner
  | .general seqs => stateAfter (generalDecode seqs) r
  | .single s => stateAfter (singleGreedyDecode s) r

def calls (r : GraphRunner) (cs : List (DecodeCall H)) : GraphRunner := cs.foldl call r

end GraphRunner

/-- What the replayed graph of bucket 1 reads. -/
structure GraphReads where
  inputId : ℤ
  positions : List ℤ
  slotMapping : ℤ
  contextLen : ℤ
  maxContextLen : ℤ
  /-- The page-table entries that cover the context. -/
  pages : List ℤ
deriving DecidableEq, Repr

def GraphBuffers.reads (b : GraphBuffers) (blockSize : ℕ) : GraphReads where
  inputId := b.hostModelInputs 0
  positions := (List.range mropeAxisCount).map fun axis => b.hostModelInputs (1 + axis)
  slotMapping := b.hostDecodeMetadata 0
  contextLen := b.hostDecodeMetadata 1
  maxContextLen := b.hostDecodeMetadata 3
  pages := (List.range (pagesFor (b.hostDecodeMetadata 1).toNat blockSize)).map fun page =>
    b.hostDecodeMetadata (GraphBuffers.tableStart 1 + page)

end PrismInfer
