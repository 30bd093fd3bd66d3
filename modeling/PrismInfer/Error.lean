import Mathlib.Tactic

/-!
# Exceptions

One constructor per `raise` statement, grouped by the module that raises it, with
the text of the exception. Python's exception class matters in one place only:
`copy_on_write` catches `RuntimeError`.
-/
namespace PrismInfer

/-- `block_pool.py`. -/
inductive PoolError
  | blockIdOutside (id capacity : ℕ)
  | notFree (id : ℕ)
  | freeBlockReferenced (id refCount : ℕ)
  | cachedBlockReferenced (id refCount : ℕ)
  | activateReferenced (id refCount : ℕ)
  | markFreeReferenced (id refCount : ℕ)
  | noFreeBlock
  | insufficientBlocks (requested available : ℕ)
  | retainUnowned (id : ℕ)
  | reviveNonCached (id : ℕ)
  | duplicateIds
  | unownedIds (ids : List ℕ)
  | releaseUnowned (id : ℕ)
  | stillReferenced (id refCount : ℕ)
  | notAllocated (id : ℕ)
  | hashUnowned (id : ℕ)
  | hashPointsToUnowned (id : ℕ)
  | cpuBlockIdOutside (id capacity : ℕ)
  | insufficientCpuBlocks (requested available : ℕ)
  | cpuFreeListCorruption (id : ℕ)
  | cpuFreeListEmpty
  | cpuDuplicateIds
  | cpuUnownedIds (ids : List ℕ)
deriving DecidableEq, Repr

/-- `kv_layout.py`. -/
inductive LayoutError
  | unsupportedSchema (version : ℕ)
  | unsupportedMode
  | blockSizeNotPositive (blockSize : ℕ)
  | promptLengthNotPositive
  | compactedOutsidePrompt
  | contextShorterThanPrefix
  | compressedOutsidePrompt
  | physicalLength (physical expected : ℕ)
  | retainedCount
  | retainedNotSorted
  | retainedOutsidePrompt
  | blockTableLength (required actual : ℕ)
  | dtypeMissing
  | recordNotPhysical
  | appendBeforePrefill
  | appendCountNotPositive
  | appendExceedsPrompt
  | planLogicalLength
  | planCompactedOutsidePrompt
  | planRetainedLength
  | planSourceLength
  | planDestinationLength
  | planRetainedNotSorted
  | planRetainedOutside
  | planBlockCount
  | planBlockPrefix
  | planReleasedSuffix
  | planDestinations
  | planDtypeMissing
  | planRecordClaimsPhysical
deriving DecidableEq, Repr

/-- `sequence.py` and `request.py`. -/
inductive SequenceError
  | blockIndexOutside (index numBlocks : ℕ)
  | invalidPatchRange (start stop promptTokens : ℕ)
  | payloadIdentityMissing
  | rangeSplitsPayload (start stop : ℕ)
  | rangeSplitsImage (start stop image : ℕ)
  | rangeNonContiguous (start stop : ℕ)
  | rangeUncovered (start stop : ℕ)
  | gridMismatch
  | layoutAlreadyInstalled
  | layoutTableNotFinal
  | layoutLogicalLength
  | cachedPrefixNotStrict
  | cachedComputedDisagree
  | cachedLayoutLength
  | invalidTransition
deriving DecidableEq, Repr

/-- `kv_compaction_coordinator.py` and the record checks of `visual_pruning.py`. -/
inductive CompactionError
  | decisionRecordMissing
  | alreadyCompacted
  | afterFirstToken
  | prefixCachePrefill
  | notGpuResident
  | incompleteTable
  | sharedBlocks (ids : List ℕ)
  | partialBoundary
  | retainedNothing
  | physicalRecord
  | promptCountMissing
  | contextShorterThanPrompt (contextLen promptTokens : ℕ)
  | spanOutsidePrompt (start stop promptTokens : ℕ)
  | partitionOverlap
  | partitionIncomplete
  | planSequenceMismatch
  | tableChanged
  | commitShared
  | decisionChanged
  | releasedStillShared (id : ℕ)
deriving DecidableEq, Repr

/-- `block_manager.py`. -/
inductive ManagerError
  | digestCollision
  | insufficientAfterEviction (required available : ℕ)
  | prefixTailNotShared
  | blockSizeMismatch (sequence manager : ℕ)
  | alreadyOwnsTable (seqId : ℕ)
  | insufficientForAllocation (required available : ℕ)
  | storeBeforePrefill
  | alreadySwapped (seqId : ℕ)
  | nothingToSwapOut (seqId : ℕ)
  | alreadyResident (seqId : ℕ)
  | nothingToSwapIn (seqId : ℕ)
  | swapHashMetadataMissing
  | swapMmMetadataMissing
  | swapStaleTokens
  | swapTokenCount
  | swapMmCount
  | entryMissing
  | tableIndexOutside
deriving DecidableEq, Repr

/-- `scheduler.py`, `scheduler_policy.py` and `contracts.py`. -/
inductive SchedulerError
  | duplicateRequest (seqId : ℕ)
  | rejected (reason : String)
  | candidateNotPositive
  | candidateExceedsLimits
  | fullyCachedPrompt
  | candidateChanged
  | noRunnableSequences
  | noDecodeWork
  | tierRequiresSlo
  | noAdmissiblePrefill
  | outsidePrefilling
  | notInQueue
  | planEmpty
  | planDuplicateIds
  | planCountMismatch
  | planCountNotPositive
  | planDecodeCount
  | planDecodeSlices
  | planSliceCount
  | planSliceEmpty
  | planSliceSize
  | planSliceExceedsPrompt (seqId stop promptTokens : ℕ)
  | planCopyRows
  | metricsNotIdle
deriving DecidableEq, Repr

/-- `executor.py`, `input_preparation.py`, `model_runner.py` and `llm_engine.py`. -/
inductive ExecutionError
  | prefixRows (rows blockSize : ℕ)
  | prefillTableShort (seqId blocks required : ℕ)
  | cooperativeSwap
  | notPrefillPlan
  | noPendingPrefill
deriving DecidableEq, Repr

/-- Everything an engine step can raise. -/
inductive EngineError
  | pool (e : PoolError)
  | layout (e : LayoutError)
  | sequence (e : SequenceError)
  | compaction (e : CompactionError)
  | manager (e : ManagerError)
  | scheduler (e : SchedulerError)
  | execution (e : ExecutionError)
deriving DecidableEq, Repr

namespace PoolError

def message : PoolError → String
  | blockIdOutside id capacity => s!"GPU block id {id} outside [0, {capacity})"
  | notFree id => s!"GPU block {id} is not free"
  | freeBlockReferenced id refCount => s!"free GPU block {id} has ref_count={refCount}"
  | cachedBlockReferenced id refCount => s!"cached GPU block {id} has ref_count={refCount}"
  | activateReferenced id refCount =>
    s!"cannot activate referenced block {id}: ref_count={refCount}"
  | markFreeReferenced id refCount => s!"cannot free referenced block {id}: ref_count={refCount}"
  | noFreeBlock => "no free GPU KV-cache block available"
  | insufficientBlocks requested available =>
    s!"insufficient free GPU KV-cache blocks: requested={requested}, available={available}"
  | retainUnowned id => s!"cannot retain unowned GPU block {id}"
  | reviveNonCached id => s!"cannot revive non-cached unreferenced GPU block {id}"
  | duplicateIds => "GPU block table contains duplicate block ids"
  | unownedIds ids => s!"GPU block table contains unowned ids: {ids}"
  | releaseUnowned id => s!"cannot release unowned GPU block {id}"
  | stillReferenced id refCount => s!"GPU block {id} still has ref_count={refCount}"
  | notAllocated id => s!"GPU block {id} is not allocated"
  | hashUnowned id => s!"cannot hash unowned GPU block {id}"
  | hashPointsToUnowned id => s!"prefix hash points to unowned GPU block {id}"
  | cpuBlockIdOutside id capacity => s!"CPU block id {id} outside [0, {capacity})"
  | insufficientCpuBlocks requested available =>
    s!"insufficient free CPU KV-cache blocks: requested={requested}, available={available}"
  | cpuFreeListCorruption id => s!"CPU free-list corruption at block {id}"
  | cpuFreeListEmpty => "pop from an empty deque"
  | cpuDuplicateIds => "CPU block table contains duplicate block ids"
  | cpuUnownedIds ids => s!"CPU block table contains unowned ids: {ids}"

end PoolError

namespace LayoutError

def message : LayoutError → String
  | unsupportedSchema version => s!"unsupported KV layout schema_version: {version}"
  | unsupportedMode => "unsupported active KV layout mode"
  | blockSizeNotPositive blockSize => s!"block_size must be positive, got {blockSize}"
  | promptLengthNotPositive => "prompt_logical_len must be positive"
  | compactedOutsidePrompt => "compacted logical prefix is outside prompt bounds"
  | contextShorterThanPrefix => "logical context cannot be shorter than compacted prefix"
  | compressedOutsidePrompt => "compressed prompt KV length is outside prompt bounds"
  | physicalLength physical expected =>
    "physical KV length must equal compact prefix + dense tail: " ++
      s!"physical={physical}, expected={expected}"
  | retainedCount => "retained position count must equal compressed prompt KV length"
  | retainedNotSorted => "retained original positions must be sorted and unique"
  | retainedOutsidePrompt => "retained original positions are outside prompt"
  | blockTableLength required actual =>
    s!"compact block table length mismatch: required={required}, actual={actual}"
  | dtypeMissing => "compact KV dtype must be recorded"
  | recordNotPhysical => "compact compression record must mark physical_compaction"
  | appendBeforePrefill => "cannot append generated KV before prompt prefill completes"
  | appendCountNotPositive => "prefill append count must be a positive integer"
  | appendExceedsPrompt => "prefill append exceeds prompt logical length"
  | planLogicalLength => "compaction logical prompt length must be positive"
  | planCompactedOutsidePrompt => "compacted logical prefix is outside prompt bounds"
  | planRetainedLength => "physical prompt length must equal retained positions"
  | planSourceLength => "physical prompt length must equal source slots"
  | planDestinationLength => "physical prompt length must equal destination slots"
  | planRetainedNotSorted => "plan retained positions must be sorted and unique"
  | planRetainedOutside => "plan retained positions exceed compacted prefix"
  | planBlockCount => "plan compact block count is inconsistent"
  | planBlockPrefix => "plan must compact into the existing page-table prefix"
  | planReleasedSuffix => "plan released blocks must be the old page-table suffix"
  | planDestinations => "plan destination slots are not a dense physical tail"
  | planDtypeMissing => "plan KV dtype must be recorded"
  | planRecordClaimsPhysical => "uncommitted plan record must not claim compaction complete"

end LayoutError

namespace CompactionError

def message : CompactionError → String
  | decisionRecordMissing => "visual_compact prefill requires a pruning decision record"
  | alreadyCompacted => "sequence KV cache was already compacted"
  | afterFirstToken => "visual KV compaction must run before first token append"
  | prefixCachePrefill => "visual KV compaction does not support prefix-cache prefill"
  | notGpuResident => "visual KV compaction requires GPU-resident blocks"
  | incompleteTable => "visual KV compaction requires a complete prompt block table"
  | sharedBlocks ids =>
    s!"visual KV compaction does not mutate prefix-shared blocks; shared_block_ids={ids}"
  | partialBoundary =>
    "partial visual KV compaction must end at the cacheable multimodal prefix boundary"
  | retainedNothing => "visual KV compaction retained zero prompt tokens"
  | physicalRecord => "physical visual KV compaction is not supported by logical pruning"
  | promptCountMissing => "visual pruning record missing prompt_token_count"
  | contextShorterThanPrompt contextLen promptTokens =>
    "decode context shorter than pruning prompt: " ++
      s!"context_len={contextLen}, prompt_token_count={promptTokens}"
  | spanOutsidePrompt start stop promptTokens =>
    "visual span outside prompt range: " ++
      s!"start={start}, end={stop}, prompt_token_count={promptTokens}"
  | partitionOverlap => "kept and dropped visual token indices overlap"
  | partitionIncomplete =>
    "visual pruning record does not cover exactly the visual prompt tokens"
  | planSequenceMismatch => "compaction plan sequence id mismatch"
  | tableChanged => "sequence block table changed before compaction commit"
  | commitShared => "compaction commit found a shared or released block"
  | decisionChanged => "visual pruning decision changed before compaction commit"
  | releasedStillShared _ => "released compact suffix block still has references"

end CompactionError

namespace ManagerError

def message : ManagerError → String
  | digestCollision => "multimodal prefix cache digest collision"
  | insufficientAfterEviction required available =>
    "insufficient GPU KV-cache capacity after cache eviction: " ++
      s!"required={required}, available={available}"
  | prefixTailNotShared => "shared compact prefix tail did not trigger CoW"
  | blockSizeMismatch sequence manager =>
    "Sequence.block_size must match BlockManager.block_size, " ++
      s!"got sequence={sequence}, manager={manager}"
  | alreadyOwnsTable seqId => s!"sequence {seqId} already owns a KV block table"
  | insufficientForAllocation required available =>
    "insufficient GPU KV-cache capacity for atomic allocation: " ++
      s!"required={required}, available={available}"
  | storeBeforePrefill => "multimodal prefix admission requires completed prompt prefill"
  | alreadySwapped seqId => s!"seq {seqId} already has CPU block table"
  | nothingToSwapOut seqId => s!"seq {seqId} has no GPU block table to swap out"
  | alreadyResident seqId => s!"seq {seqId} already has GPU block table"
  | nothingToSwapIn seqId => s!"seq {seqId} has no CPU block table to swap in"
  | swapHashMetadataMissing =>
    "swapped sequence is missing CPU block hash metadata; " ++
      "cannot restore prefix-cache index safely"
  | swapMmMetadataMissing =>
    "swapped sequence is missing CPU block mm metadata; " ++
      "cannot restore prefix-cache index safely"
  | swapStaleTokens => "unhashed swapped block contains stale token metadata"
  | swapTokenCount => "swapped full block metadata is inconsistent"
  | swapMmCount => "swapped block mm metadata exceeds block size"
  | entryMissing => "KeyError"
  | tableIndexOutside => "list index out of range"

end ManagerError

namespace SchedulerError

def message : SchedulerError → String
  | duplicateRequest seqId => s!"duplicate request id: {seqId}"
  | rejected reason => reason
  | candidateNotPositive => "prefill candidate token_count must be positive"
  | candidateExceedsLimits => "prefill candidate exceeds batch resource limits"
  | fullyCachedPrompt =>
    "scheduler admitted a fully cached prompt without a computable tail"
  | candidateChanged => "KV allocation changed prefill candidate beyond batch limits"
  | noRunnableSequences => "scheduler decode step produced no runnable sequences"
  | noDecodeWork => "scheduler has no decode work"
  | tierRequiresSlo => "max_slo_cost_tier requires the SLO-aware scheduler"
  | noAdmissiblePrefill => "scheduler has no admissible prefill work"
  | outsidePrefilling => "prefill result received for request outside PREFILLING state"
  | notInQueue => "deque.remove(x): x not in deque"
  | planEmpty => "BatchPlan requires at least one sequence"
  | planDuplicateIds => "BatchPlan sequence ids must be unique"
  | planCountMismatch => "scheduled_token_counts must match sequences"
  | planCountNotPositive => "scheduled token count must be positive"
  | planDecodeCount => "decode BatchPlan must schedule one token per request"
  | planDecodeSlices => "decode BatchPlan must not contain prefill_slices"
  | planSliceCount => "prefill_slices must match BatchPlan sequences"
  | planSliceEmpty => "PrefillSlice must contain at least one token"
  | planSliceSize => "prefill slice size must match scheduled token count"
  | planSliceExceedsPrompt seqId stop promptTokens =>
    s!"prefill slice exceeds the prompt: seq={seqId} end={stop} prompt_tokens={promptTokens}"
  | planCopyRows =>
    "copy_prefix must contain " ++
      "(non-negative source, non-negative destination, positive rows)"
  | metricsNotIdle => "scheduler metrics can reset only while idle"

end SchedulerError

/-- Is it a `RuntimeError`, which `copy_on_write` recovers from? Only exceptions of
`_ensure_free_blocks` reach its handler: those of the pool and of the manager. Id range
checks raise `IndexError`, the block-size check raises `ValueError`. -/
def EngineError.isRuntimeError : EngineError → Bool
  | .pool (.blockIdOutside _ _) => false
  | .pool (.cpuBlockIdOutside _ _) => false
  | .pool .cpuFreeListEmpty => false
  | .pool _ => true
  | .manager (.blockSizeMismatch _ _) => false
  | .manager .entryMissing => false
  | .manager .tableIndexOutside => false
  | .manager _ => true
  | _ => false

end PrismInfer
