import PrismInfer.BlockManager

/-!
# Visual KV compaction

After a prefill that pruned visual tokens, the KV rows of the retained positions move to
the front of the page table and the pages behind them are released. The plan is built
first; it is committed after its device copy.
-/
namespace PrismInfer
open StateExcept

namespace CompressionRecord

variable (record : CompressionRecord)

/-- The prompt length of the record, which the context has to reach. -/
def validatePromptLength (contextLen : ℕ) : Except EngineError ℕ :=
  match record.promptTokenCount with
  | none => .error (.compaction .promptCountMissing)
  | some count => do
    ensure (count ≤ contextLen) (.compaction (.contextShorterThanPrompt contextLen count))
    return count

/-- `_visual_indices_from_record`. -/
def visualIndices (promptTokens : ℕ) : Except EngineError (List ℕ) := do
  let spans ← record.visualTokenSpans.mapM fun span => do
    ensure (span.1 ≤ span.2 ∧ span.2 ≤ promptTokens)
      (.compaction (.spanOutsidePrompt span.1 span.2 promptTokens))
    return List.range' span.1 (span.2 - span.1)
  return spans.flatten

/-- Kept and dropped positions are the visual ones, each once. -/
def validatePartition (visual : List ℕ) : Except EngineError Unit := do
  ensure (∀ index ∈ record.keptTokenIndices, index ∉ record.droppedTokenIndices)
    (.compaction .partitionOverlap)
  ensure ((∀ index ∈ record.keptTokenIndices ++ record.droppedTokenIndices, index ∈ visual) ∧
      ∀ index ∈ visual, index ∈ record.keptTokenIndices ++ record.droppedTokenIndices)
    (.compaction .partitionIncomplete)

/-- `build_retained_context_indices`. -/
def retainedContextIndices (contextLen : ℕ) : Except EngineError (List ℕ) := do
  ensure (record.physicalCompaction = false) (.compaction .physicalRecord)
  let promptTokens ← record.validatePromptLength contextLen
  let visual ← record.visualIndices promptTokens
  record.validatePartition visual
  return (List.range contextLen).filter fun index => index ∉ record.droppedTokenIndices

end CompressionRecord

namespace KVCompactionPlan

/-- The record of a committed plan; its other new fields are written for reports only. -/
def compactRecord (plan : KVCompactionPlan) : CompressionRecord :=
  { plan.compressionRecord with physicalCompaction := true }

/-- The layout of a committed plan. -/
def layout (plan : KVCompactionPlan) (promptTokens : ℕ) : KVCacheLayoutDescriptor where
  mode := .visualCompact
  logicalContextLen := plan.effectiveCompactedLogicalLen
  physicalKvLen := plan.physicalPromptLen
  promptLogicalLen := promptTokens
  compressedPromptKvLen := plan.physicalPromptLen
  retainedOriginalPositions := plan.retainedOriginalPositions
  kvDtype := plan.kvDtype
  compressionRecord := plan.compactRecord
  compactedLogicalLen := some plan.effectiveCompactedLogicalLen

end KVCompactionPlan

namespace BlockManager

variable {H : Type} [DecidableEq H] [Digests H]

/-- The logical prefix that a compaction covers. -/
def compactedLogicalLen (seq : Sequence H) : ℕ :=
  if seq.isPrefillFinished = true ∨ seq.numComputedTokens = 0 then seq.numPromptTokens
  else seq.numComputedTokens

/-- What `build_plan` demands of the sequence. -/
def validateCompactable (seq : Sequence H) : Except EngineError Unit := do
  ensure (seq.kvLayout = none) (.compaction .alreadyCompacted)
  ensure (seq.numTokens = seq.numPromptTokens) (.compaction .afterFirstToken)
  ensure (seq.numCachedTokens = 0) (.compaction .prefixCachePrefill)
  ensure (seq.cpuBlockTable = []) (.compaction .notGpuResident)
  ensure (seq.blockTable.length = seq.numBlocks) (.compaction .incompleteTable)

/-- The plan itself, for the retained positions of the compacted prefix. -/
def compactionPlan (blockSize : ℕ) (seq : Sequence H) (kvDtype : String)
    (record : CompressionRecord) (retained : List ℕ) : KVCompactionPlan :=
  let final := retained.length + (seq.numPromptTokens - compactedLogicalLen seq)
  let newBlockTable := seq.blockTable.take (pagesFor final blockSize)
  { seqId := seq.request.seqId
    logicalPromptLen := seq.numPromptTokens
    physicalPromptLen := retained.length
    oldBlockTable := seq.blockTable
    newBlockTable := newBlockTable
    releasedBlockIds := seq.blockTable.drop (pagesFor final blockSize)
    retainedOriginalPositions := retained
    sourceSlots := retained.map (slotOf seq.blockTable blockSize)
    destinationSlots := (List.range retained.length).map (slotOf newBlockTable blockSize)
    kvDtype := kvDtype
    compressionRecord := record
    compactedLogicalLen := some (compactedLogicalLen seq)
    finalPhysicalPromptLen := some final }

def sharedBlocks (manager : BlockManager H) (ids : List ℕ) : List ℕ :=
  ids.filter fun id => manager.refCount id ≠ 1

/-- `build_compaction_plan`; a text sequence has none. -/
def buildCompactionPlan (kvDtype : String) : ManagerAction H (Option KVCompactionPlan) := do
  query assertSequenceBlockSize
  let s ← get
  match s.seq.visualPruningDecisionRecord with
  | none => do
    require (s.seq.request.imageTokenCount = 0 ∧ s.seq.request.videoTokenCount = 0)
      (.compaction .decisionRecordMissing)
    pure none
  | some record => do
    query fun _ seq => validateCompactable seq
    gpu (GpuBlockPool.validateOwned s.seq.blockTable)
    require (s.manager.sharedBlocks s.seq.blockTable = [])
      (.compaction (.sharedBlocks (s.manager.sharedBlocks s.seq.blockTable)))
    let compacted := compactedLogicalLen s.seq
    require (compacted < s.seq.numPromptTokens → s.seq.multimodalPrefixCacheEnabled = true ∧
        s.seq.request.multimodalPrefixBoundary = some compacted) (.compaction .partialBoundary)
    let retained ← readOnly (record.retainedContextIndices s.seq.numPromptTokens)
    let retained := retained.filter (· < compacted)
    require (retained ≠ []) (.compaction .retainedNothing)
    let plan := compactionPlan s.manager.blockSize s.seq kvDtype record retained
    readOnly (plan.validate s.manager.blockSize)
    pure (some plan)

/-- Release one page behind the compacted rows. -/
def releaseCompacted (id : ℕ) : ManagerAction H Unit := do
  let manager ← readManager
  require (manager.refCount id = 1) (.compaction (.releasedStillShared id))
  gpu (GpuBlockPool.releaseReference id)

/-- Install the layout. A partial compaction passes as a cached prefix meanwhile. -/
def installCompacted (plan : KVCompactionPlan) : ManagerAction H Unit := do
  let seq ← readSeq
  let layout := plan.layout seq.numPromptTokens
  if plan.effectiveCompactedLogicalLen = seq.numPromptTokens then do
    let seq ← query fun _ seq => seq.installKvLayout layout
    modifySeq fun _ => seq
  else do
    modifySeq fun seq => { seq with numCachedTokens := plan.effectiveCompactedLogicalLen }
    let seq ← query fun _ seq => seq.installCachedPrefixLayout layout
    modifySeq fun _ => { seq with numCachedTokens := 0 }

/-- `commit_compaction`. -/
def commitCompaction (plan : KVCompactionPlan) : ManagerAction H Unit := do
  query assertSequenceBlockSize
  let s ← get
  readOnly (plan.validate s.manager.blockSize)
  require (plan.seqId = s.seq.request.seqId) (.compaction .planSequenceMismatch)
  require (s.seq.kvLayout = none) (.compaction .alreadyCompacted)
  require (s.seq.blockTable = plan.oldBlockTable) (.compaction .tableChanged)
  gpu (GpuBlockPool.validateOwned plan.oldBlockTable)
  require (∀ id ∈ plan.oldBlockTable, s.manager.refCount id = 1) (.compaction .commitShared)
  require (s.seq.visualPruningDecisionRecord = some plan.compressionRecord)
    (.compaction .decisionChanged)
  readOnly ((plan.layout s.seq.numPromptTokens).validate s.manager.blockSize plan.newBlockTable
    false)
  forEach (fun id => gpu (GpuBlockPool.clearHash id)) plan.newBlockTable
  forEach releaseCompacted plan.releasedBlockIds
  modifySeq fun seq => { seq with
    blockTable := plan.newBlockTable
    visualPruningDecisionRecord := some plan.compactRecord }
  installCompacted plan

end BlockManager

end PrismInfer
