import PrismInfer.BlockManager

/-!
# Batch plans

The immutable hand-over from the scheduler to the executor, with the checks of its
constructors. A plan names its sequences by id.
-/
namespace PrismInfer
open StateExcept

inductive BatchPhase
  | prefill
  | decode
deriving DecidableEq, Repr

/-- Sequence-local token range consumed by one prefill step. -/
structure PrefillSlice where
  sequenceId : ℕ
  tokenStart : ℕ
  tokenEnd : ℕ
deriving DecidableEq, Repr

def PrefillSlice.numTokens (slice : PrefillSlice) : ℕ := slice.tokenEnd - slice.tokenStart

/-- GPU/CPU KV movement requested by one scheduler decision. -/
structure KVTransferPlan where
  copyOnWrite : List BlockPair
  copyPrefix : List BlockPrefixCopy
  swapIn : List BlockPair
  swapOut : List BlockPair
deriving DecidableEq, Repr

def KVTransferPlan.empty : KVTransferPlan := ⟨[], [], [], []⟩

structure BatchPlan where
  phase : BatchPhase
  sequenceIds : List ℕ
  scheduledTokenCounts : List ℕ
  prefillSlices : List PrefillSlice
  kvTransfers : KVTransferPlan
deriving DecidableEq, Repr

namespace BatchPlan

variable {H : Type}

def isPrefill (plan : BatchPlan) : Bool := plan.phase = .prefill

/-- `_default_prefill_slice` with the checks of `PrefillSlice` and
`_validate_prefill_slice`. -/
def prefillSlice (seq : Sequence H) (count : ℕ) : Except EngineError PrefillSlice := do
  ensure (0 < count) (.scheduler .planSliceEmpty)
  ensure (seq.effectivePrefillStart + count ≤ seq.numPromptTokens)
    (.scheduler (.planSliceExceedsPrompt seq.request.seqId (seq.effectivePrefillStart + count)
      seq.numPromptTokens))
  pure ⟨seq.request.seqId, seq.effectivePrefillStart, seq.effectivePrefillStart + count⟩

/-- The constructor: distinct members, one positive count each, one token per decode. -/
def create (phase : BatchPhase) (sequences : List (Sequence H)) (counts : List ℕ)
    (transfers : KVTransferPlan) : Except EngineError BatchPlan := do
  ensure (∀ copy ∈ transfers.copyPrefix, 0 < copy.2.2) (.scheduler .planCopyRows)
  ensure (sequences ≠ []) (.scheduler .planEmpty)
  ensure (sequences.map (·.request.seqId)).Nodup (.scheduler .planDuplicateIds)
  ensure (counts.length = sequences.length) (.scheduler .planCountMismatch)
  ensure (∀ count ∈ counts, 0 < count) (.scheduler .planCountNotPositive)
  ensure (phase = .decode → ∀ count ∈ counts, count = 1) (.scheduler .planDecodeCount)
  let slices ← match phase with
    | .decode => pure []
    | .prefill => (sequences.zip counts).mapM fun (seq, count) => prefillSlice seq count
  pure ⟨phase, sequences.map (·.request.seqId), counts, slices, transfers⟩

/-- Vision patches of the batch, as the sequences stand now. -/
def numScheduledVisionPatches (plan : BatchPlan) (seqs : ℕ → Sequence H) :
    Except EngineError ℕ :=
  match plan.phase with
  | .decode => pure 0
  | .prefill => do
    let patches ← (plan.sequenceIds.zip plan.prefillSlices).mapM fun (id, slice) =>
      (seqs id).request.visionPatchCountForPrefillRange slice.tokenStart slice.tokenEnd
    pure patches.sum

end BatchPlan

/-- One finished request. -/
structure RequestOutput where
  requestId : ℕ
  tokenIds : List ℕ
  finishedByEos : Bool
deriving DecidableEq, Repr

end PrismInfer
