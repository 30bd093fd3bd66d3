import PrismInfer.Lib.StateExcept
import PrismInfer.Lib.OrderedDict
import PrismInfer.Lib.MaskedScatter
import PrismInfer.Lib.ListBlocks
import PrismInfer.Lib.Tensor
import PrismInfer.Error
import PrismInfer.BlockPool
import PrismInfer.KVLayout
import PrismInfer.Sequence
import PrismInfer.BlockManager
import PrismInfer.KVCompaction
import PrismInfer.SchedulerPolicy
import PrismInfer.Contracts
import PrismInfer.Scheduler
import PrismInfer.BlockPoolInvariant
import PrismInfer.BlockPoolRuns
import PrismInfer.PageStep
import PrismInfer.ManagerSteps
import PrismInfer.ManagerEffects
import PrismInfer.KVCompactionSteps
import PrismInfer.SchedulerSteps
import PrismInfer.DecodeMoves
import PrismInfer.SchedulerPlans
import PrismInfer.OnlineSession
import PrismInfer.TPControl
import PrismInfer.VisualMicrobatch
import PrismInfer.VisionDataParallel
import PrismInfer.TensorParallel
import PrismInfer.TensorParallelLoad
import PrismInfer.TensorParallelEq
import PrismInfer.CooperativeForward
import PrismInfer.CooperativePrefill
import PrismInfer.CooperativePrefillEq
import PrismInfer.Lib.OnlineSoftmax
import PrismInfer.PagedDecode
import PrismInfer.PagedDecodeEq
import PrismInfer.PrefillInputs
import PrismInfer.PagedPrefill
import PrismInfer.PagedPrefillEq
import PrismInfer.DecodeGraph
import PrismInfer.DecodeGraphReads
import PrismInfer.Lib.SlotMove
import PrismInfer.PageAccounts
import PrismInfer.KVCompactionCopy
import PrismInfer.KVCompactionRows
import PrismInfer.KVCompactionCommit
import PrismInfer.KVCompactionLater
import PrismInfer.KVCompactionEq
import PrismInfer.Lib.RecentUse
import PrismInfer.VisualEmbeddingCache
import PrismInfer.Lib.FixedBytes
import PrismInfer.Lib.HashChain
import PrismInfer.ChainHash
import PrismInfer.BlockManagerRuns
import PrismInfer.ReclaimAccounting
import PrismInfer.PrefixAdmission
import PrismInfer.Lib.PrefixCode
import PrismInfer.MediaFingerprint
import PrismInfer.Lib.TextEdit
import PrismInfer.MediaPromptRebind
import PrismInfer.MRopePositions
import PrismInfer.MRopeStability
import PrismInfer.Lib.Spans
import PrismInfer.ImageSpans
import PrismInfer.SequenceMedia
import PrismInfer.VisualRegion
import PrismInfer.PromptMedia
import PrismInfer.ChunkedPrefill
import PrismInfer.VisualHydration
import PrismInfer.VisualHydrationExact
import PrismInfer.PrefillMedia
import PrismInfer.HydratedPrefill
import PrismInfer.Lib.GreedyBalance
import PrismInfer.VisionLoadBalance
import PrismInfer.MediaPositions
import PrismInfer.VisionPatchOrder
import PrismInfer.Lib.Argmax
import PrismInfer.Lib.BinaryFloat
import PrismInfer.GreedyTokens
import PrismInfer.Lib.LargestKeys
import PrismInfer.Lib.BFloat16
import PrismInfer.SelectiveTopk
import PrismInfer.FlashInferPlan
import PrismInfer.VisualTokenSpans
import PrismInfer.VisualPruning
import PrismInfer.VisualPruningReplay
import PrismInfer.Lib.EveryRun
import PrismInfer.Lib.Trace
import PrismInfer.PrefillBound
import PrismInfer.PageContent
import PrismInfer.SwapSpecs
import PrismInfer.FleetRuns
import PrismInfer.SwapRoundTrip
import PrismInfer.FleetMoves
import PrismInfer.AdmissionProgress
import PrismInfer.SchedulerRuns
import PrismInfer.SchedulerCalls
import PrismInfer.EngineRuns
import PrismInfer.LLMEngine
import PrismInfer.PrefillBudget
import PrismInfer.StepLoop
import PrismInfer.LLMEngineRuns
import PrismInfer.PausedPrefill
import PrismInfer.TokenStream
import PrismInfer.ServingEngine
import PrismInfer.ServingRuntime
import PrismInfer.ServingRuntimeTokens
import PrismInfer.ServingRuntimeInvariant
import PrismInfer.ServingRuntimeCancellation
