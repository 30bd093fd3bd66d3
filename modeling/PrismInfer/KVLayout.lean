import PrismInfer.Error
import PrismInfer.Lib.StateExcept

/-!
# Logical and physical KV layout

A compacted sequence keeps the KV rows of the retained positions of a prompt
prefix, followed by one row per later token. The descriptor records that layout;
the compaction plan is the not yet committed device copy that produces it.
-/
namespace PrismInfer
open StateExcept

/-- Pages that hold `rows` rows. -/
def pagesFor (rows blockSize : ℕ) : ℕ := (rows + blockSize - 1) / blockSize

/-- `tuple(sorted(set(positions))) == positions`. -/
abbrev SortedUnique (positions : List ℕ) : Prop := positions.Pairwise (· < ·)

/-- The fields of a pruning decision record that the engine reads. -/
structure CompressionRecord where
  physicalCompaction : Bool
  promptTokenCount : Option ℕ
  visualTokenSpans : List (ℕ × ℕ)
  keptTokenIndices : List ℕ
  droppedTokenIndices : List ℕ
deriving DecidableEq, Repr

inductive KVLayoutMode
  | dense
  | visualCompact
deriving DecidableEq, Repr

def kvLayoutSchemaVersion : ℕ := 1

/-- Logical and physical KV state of one active sequence. -/
structure KVCacheLayoutDescriptor where
  mode : KVLayoutMode
  logicalContextLen : ℕ
  physicalKvLen : ℕ
  promptLogicalLen : ℕ
  compressedPromptKvLen : ℕ
  retainedOriginalPositions : List ℕ
  kvDtype : String
  compressionRecord : CompressionRecord
  compactedLogicalLen : Option ℕ
  schemaVersion : ℕ := kvLayoutSchemaVersion
deriving DecidableEq, Repr

namespace KVCacheLayoutDescriptor

/-- The logical prefix represented by compacted KV rows. -/
def effectiveCompactedLogicalLen (layout : KVCacheLayoutDescriptor) : ℕ :=
  layout.compactedLogicalLen.getD layout.promptLogicalLen

def validateHeader (layout : KVCacheLayoutDescriptor) (blockSize : ℕ) :
    Except EngineError Unit := do
  ensure (layout.schemaVersion = kvLayoutSchemaVersion)
    (.layout (.unsupportedSchema layout.schemaVersion))
  ensure (layout.mode = .visualCompact) (.layout .unsupportedMode)
  ensure (0 < blockSize) (.layout (.blockSizeNotPositive blockSize))

def expectedPhysicalLen (layout : KVCacheLayoutDescriptor) : ℕ :=
  layout.compressedPromptKvLen + (layout.logicalContextLen - layout.effectiveCompactedLogicalLen)

def validateLengths (layout : KVCacheLayoutDescriptor) : Except EngineError Unit := do
  ensure (1 ≤ layout.promptLogicalLen) (.layout .promptLengthNotPositive)
  ensure (1 ≤ layout.effectiveCompactedLogicalLen ∧
      layout.effectiveCompactedLogicalLen ≤ layout.promptLogicalLen)
    (.layout .compactedOutsidePrompt)
  ensure (layout.effectiveCompactedLogicalLen ≤ layout.logicalContextLen)
    (.layout .contextShorterThanPrefix)
  ensure (1 ≤ layout.compressedPromptKvLen ∧
      layout.compressedPromptKvLen ≤ layout.promptLogicalLen)
    (.layout .compressedOutsidePrompt)
  ensure (layout.physicalKvLen = layout.expectedPhysicalLen)
    (.layout (.physicalLength layout.physicalKvLen layout.expectedPhysicalLen))

def validateRetainedPositions (layout : KVCacheLayoutDescriptor) : Except EngineError Unit := do
  ensure (layout.retainedOriginalPositions.length = layout.compressedPromptKvLen)
    (.layout .retainedCount)
  ensure (SortedUnique layout.retainedOriginalPositions) (.layout .retainedNotSorted)
  ensure (∀ last ∈ layout.retainedOriginalPositions.getLast?,
      last < layout.effectiveCompactedLogicalLen) (.layout .retainedOutsidePrompt)

/-- Pages the physical rows of the whole prompt will need. -/
def finalRequiredBlocks (layout : KVCacheLayoutDescriptor) (blockSize : ℕ) : ℕ :=
  pagesFor (layout.compressedPromptKvLen +
    (layout.promptLogicalLen - layout.effectiveCompactedLogicalLen)) blockSize

/-- The table may already reserve the pages of the prompt suffix. -/
def ReservedPrefillBlocks (layout : KVCacheLayoutDescriptor) (blockSize tableLen : ℕ) : Prop :=
  layout.logicalContextLen < layout.promptLogicalLen ∧
    pagesFor layout.physicalKvLen blockSize ≤ tableLen ∧
    tableLen ≤ layout.finalRequiredBlocks blockSize

instance (layout : KVCacheLayoutDescriptor) (blockSize tableLen : ℕ) :
    Decidable (layout.ReservedPrefillBlocks blockSize tableLen) :=
  inferInstanceAs (Decidable (_ ∧ _))

/-- The next page of a sequence that just crossed a page boundary is not reserved yet. -/
def PendingAppend (layout : KVCacheLayoutDescriptor) (blockSize tableLen : ℕ) : Prop :=
  layout.physicalKvLen % blockSize = 1 ∧
    tableLen + 1 = pagesFor layout.physicalKvLen blockSize

instance (layout : KVCacheLayoutDescriptor) (blockSize tableLen : ℕ) :
    Decidable (layout.PendingAppend blockSize tableLen) :=
  inferInstanceAs (Decidable (_ ∧ _))

def validateBlockTable (layout : KVCacheLayoutDescriptor) (blockSize : ℕ)
    (blockTable : List ℕ) (allowPendingAppend : Bool) : Except EngineError Unit :=
  ensure (blockTable.length = pagesFor layout.physicalKvLen blockSize ∨
      layout.ReservedPrefillBlocks blockSize blockTable.length ∨
      (allowPendingAppend = true ∧ layout.PendingAppend blockSize blockTable.length))
    (.layout (.blockTableLength (pagesFor layout.physicalKvLen blockSize) blockTable.length))

def validateEvidence (layout : KVCacheLayoutDescriptor) : Except EngineError Unit := do
  ensure (layout.kvDtype ≠ "") (.layout .dtypeMissing)
  ensure (layout.compressionRecord.physicalCompaction = true) (.layout .recordNotPhysical)

def validate (layout : KVCacheLayoutDescriptor) (blockSize : ℕ) (blockTable : List ℕ)
    (allowPendingAppend : Bool) : Except EngineError Unit := do
  layout.validateHeader blockSize
  layout.validateLengths
  layout.validateRetainedPositions
  layout.validateBlockTable blockSize blockTable allowPendingAppend
  layout.validateEvidence

/-- Advance the logical and the physical length for the next decode write. -/
def appendGeneratedToken (layout : KVCacheLayoutDescriptor) :
    Except EngineError KVCacheLayoutDescriptor := do
  ensure (layout.promptLogicalLen ≤ layout.logicalContextLen) (.layout .appendBeforePrefill)
  pure { layout with
    logicalContextLen := layout.logicalContextLen + 1
    physicalKvLen := layout.physicalKvLen + 1 }

/-- Advance a dense prompt suffix after a cached compacted prefix. -/
def appendPrefillTokens (layout : KVCacheLayoutDescriptor) (count : ℕ) :
    Except EngineError KVCacheLayoutDescriptor := do
  ensure (0 < count) (.layout .appendCountNotPositive)
  ensure (layout.logicalContextLen + count ≤ layout.promptLogicalLen)
    (.layout .appendExceedsPrompt)
  pure { layout with
    logicalContextLen := layout.logicalContextLen + count
    physicalKvLen := layout.physicalKvLen + count }

end KVCacheLayoutDescriptor

/-- A per-sequence compaction that may not be committed before its device copy. -/
structure KVCompactionPlan where
  seqId : ℕ
  logicalPromptLen : ℕ
  physicalPromptLen : ℕ
  oldBlockTable : List ℕ
  newBlockTable : List ℕ
  releasedBlockIds : List ℕ
  retainedOriginalPositions : List ℕ
  sourceSlots : List ℕ
  destinationSlots : List ℕ
  kvDtype : String
  compressionRecord : CompressionRecord
  compactedLogicalLen : Option ℕ
  finalPhysicalPromptLen : Option ℕ
deriving DecidableEq, Repr

/-- The flat KV slot of row `row` of a page table. -/
def slotOf (blockTable : List ℕ) (blockSize row : ℕ) : ℕ :=
  blockTable.getD (row / blockSize) 0 * blockSize + row % blockSize

namespace KVCompactionPlan

def effectiveCompactedLogicalLen (plan : KVCompactionPlan) : ℕ :=
  plan.compactedLogicalLen.getD plan.logicalPromptLen

def effectiveFinalPhysicalPromptLen (plan : KVCompactionPlan) : ℕ :=
  plan.finalPhysicalPromptLen.getD plan.physicalPromptLen

def validateLengths (plan : KVCompactionPlan) (blockSize : ℕ) : Except EngineError Unit := do
  ensure (0 < blockSize) (.layout (.blockSizeNotPositive blockSize))
  ensure (1 ≤ plan.logicalPromptLen) (.layout .planLogicalLength)
  ensure (1 ≤ plan.effectiveCompactedLogicalLen ∧
      plan.effectiveCompactedLogicalLen ≤ plan.logicalPromptLen)
    (.layout .planCompactedOutsidePrompt)
  ensure (plan.physicalPromptLen = plan.retainedOriginalPositions.length)
    (.layout .planRetainedLength)
  ensure (plan.physicalPromptLen = plan.sourceSlots.length) (.layout .planSourceLength)
  ensure (plan.physicalPromptLen = plan.destinationSlots.length)
    (.layout .planDestinationLength)

def validateRetainedPositions (plan : KVCompactionPlan) : Except EngineError Unit := do
  ensure (SortedUnique plan.retainedOriginalPositions) (.layout .planRetainedNotSorted)
  ensure (∀ last ∈ plan.retainedOriginalPositions.getLast?,
      last < plan.effectiveCompactedLogicalLen) (.layout .planRetainedOutside)

def expectedBlocks (plan : KVCompactionPlan) (blockSize : ℕ) : ℕ :=
  pagesFor plan.effectiveFinalPhysicalPromptLen blockSize

def validateBlockTables (plan : KVCompactionPlan) (blockSize : ℕ) :
    Except EngineError Unit := do
  ensure (plan.newBlockTable.length = plan.expectedBlocks blockSize) (.layout .planBlockCount)
  ensure (plan.oldBlockTable.take (plan.expectedBlocks blockSize) = plan.newBlockTable)
    (.layout .planBlockPrefix)
  ensure (plan.oldBlockTable.drop (plan.expectedBlocks blockSize) = plan.releasedBlockIds)
    (.layout .planReleasedSuffix)

def validateDestinations (plan : KVCompactionPlan) (blockSize : ℕ) : Except EngineError Unit :=
  ensure (plan.destinationSlots =
      (List.range plan.physicalPromptLen).map (slotOf plan.newBlockTable blockSize))
    (.layout .planDestinations)

def validateEvidence (plan : KVCompactionPlan) : Except EngineError Unit := do
  ensure (plan.kvDtype ≠ "") (.layout .planDtypeMissing)
  ensure (plan.compressionRecord.physicalCompaction = false) (.layout .planRecordClaimsPhysical)

def validate (plan : KVCompactionPlan) (blockSize : ℕ) : Except EngineError Unit := do
  plan.validateLengths blockSize
  plan.validateRetainedPositions
  plan.validateBlockTables blockSize
  plan.validateDestinations blockSize
  plan.validateEvidence

end KVCompactionPlan

end PrismInfer
