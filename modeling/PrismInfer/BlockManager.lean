import PrismInfer.Lib.OrderedDict
import PrismInfer.Sequence

/-!
# The block manager

Page-table orchestration for one sequence at a time: admission through the hash index
or a stored multimodal prefix, appends, copy-on-write, swapping, prefix entries and
their eviction. A method runs on the manager together with the sequence it is called
on. Metrics counters are left out, as they decide nothing.
-/
namespace PrismInfer
open StateExcept

/-- `f"{media_key}:{len(prefix)}:{sha256(prefix)}"`, each digest by its value. -/
structure CacheId where
  mediaKey : MediaKey
  promptPrefix : List ℕ
deriving DecidableEq, Repr

/-- One multimodal prefix retained by physical page reference. -/
structure MultimodalPrefixCacheEntry where
  key : MediaKey
  promptPrefixTokenIds : List ℕ
  logicalPrefixLen : ℕ
  physicalPrefixLen : ℕ
  retainedOriginalPositions : List ℕ
  blockIds : List ℕ
  kvDtype : String
  compressionRecord : CompressionRecord
  benefitTokens : ℕ
  lifetimeHits : ℕ
  tailCloneBlockIds : List ℕ
deriving DecidableEq, Repr

namespace MultimodalPrefixCacheEntry

/-- Every page the entry holds a reference to, with multiplicity. -/
def pages (entry : MultimodalPrefixCacheEntry) : List ℕ :=
  entry.blockIds ++ entry.tailCloneBlockIds

def residentBlocks (entry : MultimodalPrefixCacheEntry) : ℕ :=
  entry.blockIds.length + entry.tailCloneBlockIds.length

def benefitPerBlock (entry : MultimodalPrefixCacheEntry) : ℚ :=
  (entry.benefitTokens * (1 + entry.lifetimeHits) : ℚ) / entry.residentBlocks

end MultimodalPrefixCacheEntry

/-- The entries by cache id, oldest first. -/
abbrev PrefixCache := OrderedDict CacheId MultimodalPrefixCacheEntry

namespace PrefixCache

/-- Every page reference the entries hold, with multiplicity. -/
def pages (cache : PrefixCache) : List ℕ := cache.flatMap (·.2.pages)

end PrefixCache

/-- Physical KV blocks and the prefix-cache residency index. -/
structure BlockManager (H : Type) where
  blockSize : ℕ
  enablePrefixCaching : Bool
  blockLevelMmPrefix : Bool
  gpuPool : GpuBlockPool H
  cpuPool : CpuBlockPool
  multimodalPrefixCache : PrefixCache
  multimodalPrefixCacheMaxBlocks : ℕ
  multimodalPrefixCacheBlocks : ℕ

/-- The manager and the sequence a method is called on. -/
structure ManagerState (H : Type) where
  manager : BlockManager H
  seq : Sequence H

/-- The cache id a request is looked up under. -/
def Request.prefixCacheId (req : Request) : Option CacheId :=
  match req.multimodalPrefixCacheKey, req.multimodalPrefixBoundary with
  | some mediaKey, some boundary => some ⟨mediaKey, req.promptTokenIds.take boundary⟩
  | _, _ => none

/-- Physical rows of the whole prompt after a hit on `entry`. -/
def MultimodalPrefixCacheEntry.finalPhysicalTokens (entry : MultimodalPrefixCacheEntry)
    (req : Request) : ℕ :=
  entry.physicalPrefixLen + (req.numPromptTokens - entry.logicalPrefixLen)

abbrev ManagerAction (H α : Type) := EStateM EngineError (ManagerState H) α

/-- Source page, destination page. -/
abbrev BlockPair := ℕ × ℕ

/-- Source page, destination page, leading rows to copy. -/
abbrev BlockPrefixCopy := ℕ × ℕ × ℕ

/-- One page movement, named by its direction. -/
inductive Transfer
  | swapIn (cpuPage gpuPage : ℕ)
  | swapOut (gpuPage cpuPage : ℕ)
  | copyPrefix (source target rows : ℕ)
  | copyOnWrite (source target : ℕ)
deriving DecidableEq, Repr

/-- `compute_hash`: one block, its media and its predecessor. -/
def computeHash {H : Type} [Digests H] (tokenIds : List ℕ) (prefixHash : Option H)
    (mmTokenHashes : Option MmTokenHashes) : H :=
  Digests.xxh64 ⟨prefixHash, tokenIds, mmTokenHashes.getD []⟩

/-- First minimum of a nonempty list by `f`. -/
def argminBy {α : Type} (f : α → ℚ) : List α → Option α
  | [] => none
  | a :: as =>
    match argminBy f as with
    | none => some a
    | some b => if f a ≤ f b then some a else some b

namespace BlockManager

variable {H : Type} [DecidableEq H] [Digests H]

def initial (H : Type) (numBlocks blockSize numCpuBlocks : ℕ)
    (enablePrefixCaching blockLevelMmPrefix : Bool) : BlockManager H where
  blockSize := blockSize
  enablePrefixCaching := enablePrefixCaching
  blockLevelMmPrefix := blockLevelMmPrefix
  gpuPool := .initial numBlocks blockLevelMmPrefix
  cpuPool := .initial numCpuBlocks
  multimodalPrefixCache := []
  multimodalPrefixCacheMaxBlocks := numBlocks
  multimodalPrefixCacheBlocks := 0

/-! ### Read-only parts -/

section Read

variable (manager : BlockManager H) (seq : Sequence H)

def refCount (id : ℕ) : ℕ := (manager.gpuPool.blocks id).refCount

def assertSequenceBlockSize : Except EngineError Unit :=
  ensure (seq.blockSize = manager.blockSize)
    (.manager (.blockSizeMismatch seq.blockSize manager.blockSize))

/-- Whether the blocks of this sequence may join the prefix-hash index. -/
def hashableSequence : Bool :=
  if ¬ seq.request.isMultimodal then true
  else if ¬ manager.blockLevelMmPrefix then false
  else match seq.request.multimodalMediaTokenHashes with
    | none => false
    | some hashes =>
      if seq.request.video.isSome then false
      else match seq.request.imageTokenSpans with
        | none => false
        | some spans => spans.length == hashes.length

/-- The hash of one block chained to its prefix, with its media positions. -/
def blockHashAndMm (blockIndex : ℕ) (prefixHash : Option H) :
    Except EngineError (Option H × Option MmTokenHashes) := do
  let tokenIds ← seq.block blockIndex
  if seq.request.isMultimodal then
    if manager.hashableSequence seq then
      let mm := seq.request.mmTokenHashesForBlock H blockIndex manager.blockSize
      pure (some (computeHash tokenIds prefixHash mm), mm)
    else pure (none, none)
  else pure (some (computeHash tokenIds prefixHash none), none)

/-- The walk of `_cached_prefix_length` over the blocks from `blockIndex` on. -/
def walkFrom : ℕ → ℕ → Option H → Except EngineError ℕ
  | 0, _, _ => pure 0
  | blocks + 1, blockIndex, prefixHash => do
    let (blockHash, mm) ← manager.blockHashAndMm seq blockIndex prefixHash
    if blockHash = none then pure 0
    else do
      let tokenIds ← seq.block blockIndex
      match ← manager.gpuPool.lookup blockHash tokenIds mm with
      | none => pure 0
      | some _ => do
        let rest ← walkFrom blocks (blockIndex + 1) blockHash
        pure (manager.blockSize + rest)

/-- Full prompt blocks that may be looked up: an aligned prompt keeps its last block. -/
def walkBlocks : ℕ :=
  if seq.numPromptTokens % manager.blockSize ≠ 0 then seq.numPromptTokens / manager.blockSize
  else seq.numPromptTokens / manager.blockSize - 1

def cachedPrefixLength : Except EngineError ℕ :=
  if manager.enablePrefixCaching && manager.hashableSequence seq then do
    let cached ← manager.walkFrom seq (manager.walkBlocks seq) 0 none
    pure (seq.request.snapToImageBoundary cached)
  else pure 0

def matchingMultimodalPrefix :
    Except EngineError (Option (CacheId × MultimodalPrefixCacheEntry)) :=
  if ¬ manager.enablePrefixCaching then .ok none
  else match seq.request.prefixCacheId with
    | none => .ok none
    | some cacheId =>
      match manager.multimodalPrefixCache.get? cacheId with
      | none => .ok none
      | some entry => do
        ensure (entry.key = cacheId.mediaKey ∧
            entry.logicalPrefixLen = cacheId.promptPrefix.length ∧
            entry.promptPrefixTokenIds = cacheId.promptPrefix) (.manager .digestCollision)
        pure (some (cacheId, entry))

/-- The candidate of `cached_prefix_tokens` and `probe_multimodal_prefix`. -/
def prefixCandidate : Except EngineError ℕ := do
  if manager.blockLevelMmPrefix && manager.hashableSequence seq then
    let walkCandidate ← manager.cachedPrefixLength seq
    let entry ← manager.matchingMultimodalPrefix seq
    pure (max walkCandidate ((entry.map (·.2.logicalPrefixLen)).getD 0))
  else
    let entry ← manager.matchingMultimodalPrefix seq
    pure ((entry.map (·.2.logicalPrefixLen)).getD 0)

/-- The first tail clone no live sequence uses. -/
def idleTailClone (entry : MultimodalPrefixCacheEntry) : Option ℕ :=
  entry.tailCloneBlockIds.find? fun id => manager.refCount id = 1

def requiredFreeBlocksForPrefixHit (entry : MultimodalPrefixCacheEntry) : ℕ :=
  (pagesFor (entry.finalPhysicalTokens seq.request) manager.blockSize - entry.blockIds.length) +
    if entry.physicalPrefixLen % manager.blockSize ≠ 0 ∧ manager.idleTailClone entry = none
    then 1 else 0

/-- Page references of the entries other than the protected one. -/
def unprotectedPages (protectedId : Option CacheId) : List ℕ :=
  PrefixCache.pages (manager.multimodalPrefixCache.filter fun item => some item.1 ≠ protectedId)

/-- Pages that the eviction of all unprotected entries would release. -/
def reclaimableCacheBlocks (protectedId : Option CacheId) : ℕ :=
  ((manager.unprotectedPages protectedId).dedup.filter fun id =>
    manager.refCount id = (manager.unprotectedPages protectedId).count id).length

def evictionCandidate (protectedId : Option CacheId) : Option CacheId :=
  (argminBy (·.2.benefitPerBlock)
    (manager.multimodalPrefixCache.filter fun item => some item.1 ≠ protectedId)).map (·.1)

/-- First entry with an idle tail clone, and that clone's index and page. -/
def droppableTailClone (protectedId : Option CacheId) : Option (CacheId × ℕ) :=
  (manager.multimodalPrefixCache.filter fun item => some item.1 ≠ protectedId).findSome?
    fun item => (manager.idleTailClone item.2).map fun id => (item.1, id)

def canAllocate : Except EngineError Bool := do
  manager.assertSequenceBlockSize seq
  let entry ← manager.matchingMultimodalPrefix seq
  let required := match entry with
    | none => seq.numBlocks
    | some (_, entry) => manager.requiredFreeBlocksForPrefixHit seq entry
  pure (decide (required ≤
    manager.gpuPool.freeCount + manager.reclaimableCacheBlocks (entry.map (·.1))))

/-- Pages the next decode input needs: one at a page boundary, one for a shared tail that
the eviction of its entry alone would not make private. -/
def requiredForAppend : Except EngineError ℕ :=
  if seq.physicalKvLen % manager.blockSize = 1 then pure 1
  else match seq.blockTable.getLast? with
    | none => pure 0
    | some last =>
      if manager.refCount last ≤ 1 then pure 0
      else do
        let entry ← manager.matchingMultimodalPrefix seq
        let cacheOwnsTail := match entry with
          | none => false
          | some (_, entry) => decide (last ∈ entry.pages)
        pure (if cacheOwnsTail && manager.refCount last == 2 then 0 else 1)

def canAppend : Except EngineError Bool := do
  manager.assertSequenceBlockSize seq
  let required ← manager.requiredForAppend seq
  pure (decide (required ≤ manager.gpuPool.freeCount + manager.reclaimableCacheBlocks none))

def canSwapOut : Except EngineError Bool := do
  manager.assertSequenceBlockSize seq
  pure (decide (seq.blockTable ≠ [] ∧ manager.cpuPool.canAllocate seq.blockTable.length))

def canSwapIn : Except EngineError Bool := do
  manager.assertSequenceBlockSize seq
  pure (decide (seq.cpuBlockTable ≠ [] ∧
    seq.cpuBlockTable.length ≤
      manager.gpuPool.freeCount + manager.reclaimableCacheBlocks none))

end Read

/-! ### State changes -/

def readManager : ManagerAction H (BlockManager H) := do return (← get).manager
def readSeq : ManagerAction H (Sequence H) := do return (← get).seq

def modifyManager (f : BlockManager H → BlockManager H) : ManagerAction H Unit :=
  modify fun s => { s with manager := f s.manager }

def modifySeq (f : Sequence H → Sequence H) : ManagerAction H Unit :=
  modify fun s => { s with seq := f s.seq }

/-- A read-only method, which may raise, of the current manager and sequence. -/
def query {α : Type} (f : BlockManager H → Sequence H → Except EngineError α) :
    ManagerAction H α := do
  let s ← get
  readOnly (f s.manager s.seq)

def gpu {α : Type} : GpuBlockPool.Action H α → ManagerAction H α :=
  zoom (·.manager.gpuPool) fun pool s => { s with manager := { s.manager with gpuPool := pool } }

def cpu {α : Type} : CpuBlockPool.Action α → ManagerAction H α :=
  zoom (·.manager.cpuPool) fun pool s => { s with manager := { s.manager with cpuPool := pool } }

def appendToTable (id : ℕ) : ManagerAction H Unit :=
  modifySeq fun seq => { seq with blockTable := seq.blockTable ++ [id] }

/-- `_allocate_free_block` followed by the append to the page table. -/
def appendFreeBlock : ManagerAction H Unit := do
  let id ← gpu GpuBlockPool.allocateFree
  appendToTable id

/-- `retain` followed by the append to the page table. -/
def appendRetained (id : ℕ) : ManagerAction H Unit := do
  let _ ← gpu (GpuBlockPool.retain id)
  appendToTable id

/-- Append free blocks until the table has `blocks` of them. -/
def growTable (blocks : ℕ) : ManagerAction H Unit := do
  let seq ← readSeq
  forEach (fun _ => appendFreeBlock) (List.range (blocks - seq.blockTable.length))

def evictMultimodalPrefix (cacheId : CacheId) : ManagerAction H Unit := do
  let manager ← readManager
  match manager.multimodalPrefixCache.get? cacheId with
  | none => throw (.manager .entryMissing)
  | some entry => do
    modifyManager fun m => { m with
      multimodalPrefixCache := m.multimodalPrefixCache.remove cacheId }
    forEach (fun id => gpu (GpuBlockPool.releaseReference id)) entry.pages
    modifyManager fun m => { m with
      multimodalPrefixCacheBlocks := m.multimodalPrefixCacheBlocks - entry.residentBlocks }

/-- Release one derived tail page before evicting reusable prefix KV. -/
def dropIdleTailClone (protectedId : Option CacheId) : ManagerAction H Bool := do
  let manager ← readManager
  match manager.droppableTailClone protectedId with
  | none => pure false
  | some (cacheId, id) => do
    modifyManager fun m => { m with
      multimodalPrefixCache := m.multimodalPrefixCache.update cacheId fun entry =>
        { entry with tailCloneBlockIds := entry.tailCloneBlockIds.erase id } }
    gpu (GpuBlockPool.releaseReference id)
    modifyManager fun m => { m with
      multimodalPrefixCacheBlocks := m.multimodalPrefixCacheBlocks - 1 }
    pure true

/-- The loop of `_ensure_free_blocks`: `true` where it ended by its condition or by `break`,
`false` where the rounds ran out. A round gives up one tail clone or one entry, so fewer of
these than rounds are enough. -/
def reclaimLoop (required : ℕ) (protectedId : Option CacheId) : ℕ → ManagerAction H Bool
  | 0 => pure false
  | fuel + 1 => do
    let manager ← readManager
    if required ≤ manager.gpuPool.freeCount then pure true
    else do
      if ← dropIdleTailClone protectedId then reclaimLoop required protectedId fuel
      else do
        let manager ← readManager
        match manager.evictionCandidate protectedId with
        | none => pure true
        | some cacheId => do
          evictMultimodalPrefix cacheId
          reclaimLoop required protectedId fuel

/-- A round for everything there is to give up, and one to find that nothing is left. -/
def reclaimFuel (manager : BlockManager H) : ℕ :=
  manager.multimodalPrefixCache.length +
    (manager.multimodalPrefixCache.map (·.2.tailCloneBlockIds.length)).sum + 1

def ensureFreeBlocks (required : ℕ) (protectedId : Option CacheId) : ManagerAction H Unit := do
  let manager ← readManager
  let _ ← reclaimLoop required protectedId manager.reclaimFuel
  let manager ← readManager
  require (required ≤ manager.gpuPool.freeCount)
    (.manager (.insufficientAfterEviction required manager.gpuPool.freeCount))

/-- Give the sequence a private copy of a shared block. -/
def privatizeBlock (blockIndex : ℕ) : ManagerAction H (Option BlockPair) := do
  let s ← get
  match s.seq.blockTable[blockIndex]? with
  | none => throw (.manager .tableIndexOutside)
  | some id =>
    if s.manager.refCount id ≤ 1 then do
      gpu (GpuBlockPool.clearHash id)
      pure none
    else do
      ensureFreeBlocks 1 none
      let fresh ← gpu GpuBlockPool.allocateFree
      gpu (GpuBlockPool.releaseReference id)
      modifySeq fun seq => { seq with blockTable := seq.blockTable.set blockIndex fresh }
      pure (some (id, fresh))

def cachedPrefixTokens : ManagerAction H ℕ := do
  query assertSequenceBlockSize
  let manager ← readManager
  modifySeq fun seq => { seq with multimodalPrefixCacheEnabled := manager.enablePrefixCaching }
  let candidate ← query prefixCandidate
  modifySeq fun seq => { seq with prefixCacheCandidateTokens := candidate }
  pure candidate

/-- Walk state of `_allocate_dense`: the hash of the previous block, and whether a block
has missed already. -/
structure DenseWalk (H : Type) where
  blockHash : Option H
  cacheMiss : Bool

/-- The hash under which block `i` is looked up. -/
def denseBlockHash (i : ℕ) (prefixHash : Option H) (manager : BlockManager H)
    (seq : Sequence H) : Except EngineError (Option H × Option MmTokenHashes) := do
  let tokenIds ← seq.block i
  if manager.enablePrefixCaching && tokenIds.length == manager.blockSize &&
      manager.hashableSequence seq then
    manager.blockHashAndMm seq i prefixHash
  else pure (none, none)

/-- The page that block `i` shares, if any. A prompt that fills its last block recomputes
it: some token must produce logits. -/
def denseCachedBlock (cacheMiss : Bool) (i : ℕ) (blockHash : Option H)
    (mm : Option MmTokenHashes) (manager : BlockManager H) (seq : Sequence H) :
    Except EngineError (Option ℕ) :=
  if cacheMiss = true ∨
      (seq.numPromptTokens % manager.blockSize = 0 ∧ i + 1 = seq.numBlocks) then pure none
  else manager.gpuPool.lookup blockHash (seq.blockTokens i) mm

/-- One iteration of the page loop of `_allocate_dense`. -/
def allocateDenseBlock (walk : DenseWalk H) (i : ℕ) : ManagerAction H (DenseWalk H) := do
  let (blockHash, mm) ← query (denseBlockHash i walk.blockHash)
  let s ← get
  match ← query (denseCachedBlock walk.cacheMiss i blockHash mm) with
  | none => do
    appendFreeBlock
    pure ⟨blockHash, true⟩
  | some id => do
    modifySeq fun seq => { seq with numCachedTokens := seq.numCachedTokens + s.manager.blockSize }
    appendRetained id
    pure ⟨blockHash, false⟩

def allocateDenseLoop (walk : DenseWalk H) : List ℕ → ManagerAction H Unit
  | [] => pure ()
  | i :: rest => do
    let walk ← allocateDenseBlock walk i
    allocateDenseLoop walk rest

/-- The copies of the blocks that the snap to an image boundary reopens. -/
def privatizeRange (snapped : ℕ) : List ℕ → ManagerAction H (List BlockPrefixCopy)
  | [] => pure []
  | blockIndex :: rest => do
    let pair ← privatizeBlock blockIndex
    let manager ← readManager
    let retainedRows := snapped - blockIndex * manager.blockSize
    let copies ← privatizeRange snapped rest
    match pair with
    | some (source, target) =>
      pure (if retainedRows = 0 then copies else (source, target, retainedRows) :: copies)
    | none => pure copies

/-- A cached prefix that ends inside an image goes back to the start of that image. -/
def snapCachedPrefix : ManagerAction H (List BlockPrefixCopy) := do
  let s ← get
  let snapped := s.seq.request.snapToImageBoundary s.seq.numCachedTokens
  if s.seq.request.isMultimodal = true ∧ snapped ≠ s.seq.numCachedTokens then do
    let copies ← privatizeRange snapped
      (List.range' (snapped / s.manager.blockSize)
        (s.seq.numCachedTokens / s.manager.blockSize - snapped / s.manager.blockSize))
    modifySeq fun seq => { seq with numCachedTokens := snapped }
    pure copies
  else pure []

def allocateDense : ManagerAction H (List BlockPrefixCopy) := do
  let seq ← readSeq
  ensureFreeBlocks seq.numBlocks none
  allocateDenseLoop ⟨none, false⟩ (List.range seq.numBlocks)
  let copies ← snapCachedPrefix
  modifySeq fun seq => { seq with prefixCacheCandidateTokens := seq.numCachedTokens }
  pure copies

/-- Tail page of `copy_on_write` once it is known to be shared. -/
def copyTail (last : ℕ) : ManagerAction H (Option BlockPair) := do
  let manager ← readManager
  if manager.refCount last ≤ 1 then pure none
  else do
    let fresh ← gpu GpuBlockPool.allocateFree
    gpu (GpuBlockPool.releaseReference last)
    modifySeq fun seq => { seq with blockTable := seq.blockTable.dropLast ++ [fresh] }
    pure (some (last, fresh))

/-- The recovery of `copy_on_write`: where the matched entry owns the tail, evict it. -/
def copyAfterEviction (last : ℕ) (entry : Option (CacheId × MultimodalPrefixCacheEntry))
    (e : EngineError) : ManagerAction H (Option BlockPair) :=
  match entry with
  | none => throw e
  | some (cacheId, entry) =>
    if e.isRuntimeError ∧ last ∈ entry.pages then do
      evictMultimodalPrefix cacheId
      let manager ← readManager
      if manager.refCount last ≤ 1 then pure none
      else do
        ensureFreeBlocks 1 none
        copyTail last
    else throw e

/-- Make the writable tail block private and return its copy pair. -/
def copyOnWrite : ManagerAction H (Option BlockPair) := do
  query assertSequenceBlockSize
  let s ← get
  match s.seq.blockTable.getLast? with
  | none => pure none
  | some last =>
    if s.manager.refCount last ≤ 1 then pure none
    else do
      let entry ← query matchingMultimodalPrefix
      let outcome ← tryExcept
        (do ensureFreeBlocks 1 (entry.map (·.1)); pure none)
        (fun e => pure (some e))
      match outcome with
      | none => copyTail last
      | some e => copyAfterEviction last entry e

/-- Add the page that was cloned from the entry's tail to the entry, within the limit. -/
def admitTailClone (cacheId : CacheId) (id : ℕ) : ManagerAction H Unit := do
  let manager ← readManager
  when (manager.multimodalPrefixCacheBlocks < manager.multimodalPrefixCacheMaxBlocks) do
    let _ ← gpu (GpuBlockPool.retain id)
    modifyManager fun m => { m with
      multimodalPrefixCache := m.multimodalPrefixCache.update cacheId fun entry =>
        { entry with tailCloneBlockIds := entry.tailCloneBlockIds ++ [id] }
      multimodalPrefixCacheBlocks := m.multimodalPrefixCacheBlocks + 1 }

/-- What both entry hits do with the pages of the prefix, up to its partial tail page. -/
def shareImmutablePages (entry : MultimodalPrefixCacheEntry) : ManagerAction H Unit := do
  let manager ← readManager
  forEach appendRetained
    (if entry.physicalPrefixLen % manager.blockSize = 0 then entry.blockIds
      else entry.blockIds.dropLast)

/-- Lengths and record after an entry hit. -/
def recordEntryHit (entry : MultimodalPrefixCacheEntry) : ManagerAction H Unit :=
  modifySeq fun seq => { seq with
    numCachedTokens := entry.logicalPrefixLen
    numComputedTokens := entry.logicalPrefixLen
    prefixCacheCandidateTokens := entry.logicalPrefixLen
    multimodalPrefixCacheHit := true
    visualPruningDecisionRecord := some entry.compressionRecord }

def touchEntry (cacheId : CacheId) : ManagerAction H Unit :=
  modifyManager fun m => { m with
    multimodalPrefixCache := (m.multimodalPrefixCache.moveToEnd cacheId).update cacheId
      fun entry => { entry with lifetimeHits := entry.lifetimeHits + 1 } }

/-- The partial tail page of a compacted entry: an idle clone, or a copy-on-write of the
canonical tail. -/
def compactTailPage (cacheId : CacheId) (entry : MultimodalPrefixCacheEntry) (tailRows : ℕ) :
    ManagerAction H (List BlockPrefixCopy) := do
  let manager ← readManager
  if tailRows = 0 then pure []
  else match manager.idleTailClone entry with
  | some id => do
    appendRetained id
    pure []
  | none =>
    match entry.blockIds.getLast? with
    | none => throw (.manager .tableIndexOutside)
    | some canonicalTail => do
      appendRetained canonicalTail
      match ← copyOnWrite with
      | none => throw (.manager .prefixTailNotShared)
      | some (source, target) => do
        admitTailClone cacheId target
        pure [(source, target, tailRows)]

/-- The layout a compacted entry installs. -/
def entryLayout (seq : Sequence H) (entry : MultimodalPrefixCacheEntry) :
    KVCacheLayoutDescriptor where
  mode := .visualCompact
  logicalContextLen := entry.logicalPrefixLen
  physicalKvLen := entry.physicalPrefixLen
  promptLogicalLen := seq.numPromptTokens
  compressedPromptKvLen := entry.physicalPrefixLen
  retainedOriginalPositions := entry.retainedOriginalPositions
  kvDtype := entry.kvDtype
  compressionRecord := entry.compressionRecord
  compactedLogicalLen := some entry.logicalPrefixLen

def allocateMultimodalPrefixHit (cacheId : CacheId) (entry : MultimodalPrefixCacheEntry) :
    ManagerAction H (List BlockPrefixCopy) := do
  let s ← get
  ensureFreeBlocks (s.manager.requiredFreeBlocksForPrefixHit s.seq entry) (some cacheId)
  let tailRows := entry.physicalPrefixLen % s.manager.blockSize
  shareImmutablePages entry
  let copies ← compactTailPage cacheId entry tailRows
  growTable (pagesFor (entry.finalPhysicalTokens s.seq.request) s.manager.blockSize)
  recordEntryHit entry
  let seq ← query fun _ seq => seq.installCachedPrefixLayout (entryLayout seq entry)
  modifySeq fun _ => seq
  touchEntry cacheId
  pure copies

/-- The partial tail page of a dense entry: an idle clone, which loses its hash, or a
fresh page with a planned copy of the leading rows. -/
def denseTailPage (cacheId : CacheId) (entry : MultimodalPrefixCacheEntry) (tailRows : ℕ) :
    ManagerAction H (List BlockPrefixCopy) := do
  let manager ← readManager
  if tailRows = 0 then pure []
  else match manager.idleTailClone entry with
  | some id => do
    let _ ← gpu (GpuBlockPool.retain id)
    gpu (GpuBlockPool.clearHash id)
    appendToTable id
    pure []
  | none =>
    match entry.blockIds.getLast? with
    | none => throw (.manager .tableIndexOutside)
    | some canonicalTail => do
      let fresh ← gpu GpuBlockPool.allocateFree
      appendToTable fresh
      admitTailClone cacheId fresh
      pure [(canonicalTail, fresh, tailRows)]

/-- Whole-prefix reuse in block-level mode, without a compact layout. -/
def allocateDenseEntryHit (cacheId : CacheId) (entry : MultimodalPrefixCacheEntry) :
    ManagerAction H (List BlockPrefixCopy) := do
  let s ← get
  ensureFreeBlocks (s.manager.requiredFreeBlocksForPrefixHit s.seq entry) (some cacheId)
  let tailRows := entry.physicalPrefixLen % s.manager.blockSize
  shareImmutablePages entry
  let copies ← denseTailPage cacheId entry tailRows
  growTable (pagesFor (entry.finalPhysicalTokens s.seq.request) s.manager.blockSize)
  recordEntryHit entry
  touchEntry cacheId
  pure copies

/-- What `deallocate` does to the sequence's own fields. -/
def resetSequence (seq : Sequence H) : Sequence H :=
  { seq with
    numCachedTokens := 0
    blockTable := []
    cpuBlockTable := []
    cpuBlockHashes := []
    cpuBlockTokenIds := []
    cpuBlockMmHashes := []
    kvLayout := none
    prefixCacheCandidateTokens := 0
    multimodalPrefixCacheHit := false }

def deallocate : ManagerAction H Unit := do
  query assertSequenceBlockSize
  let seq ← readSeq
  when (seq.cpuBlockTable ≠ []) (cpu (CpuBlockPool.validateOwned seq.cpuBlockTable))
  forEach (fun id => gpu (GpuBlockPool.releaseReference id)) seq.blockTable.reverse
  cpu (CpuBlockPool.releaseMany seq.cpuBlockTable)
  modifySeq resetSequence

/-- `except BaseException: if seq.block_table: deallocate; raise`. -/
def releaseOnError {α : Type} (x : ManagerAction H α) : ManagerAction H α :=
  tryExcept x fun e => do
    let seq ← readSeq
    when (seq.blockTable ≠ []) deallocate
    throw e

def allocate : ManagerAction H (List BlockPrefixCopy) := do
  query assertSequenceBlockSize
  let seq ← readSeq
  require (seq.blockTable = [] ∧ seq.cpuBlockTable = [])
    (.manager (.alreadyOwnsTable seq.request.seqId))
  let fits ← query canAllocate
  let s ← get
  let entry ← query matchingMultimodalPrefix
  let required := match entry with
    | none => s.seq.numBlocks
    | some (_, entry) => s.manager.requiredFreeBlocksForPrefixHit s.seq entry
  require (fits = true) (.manager (.insufficientForAllocation required s.manager.gpuPool.freeCount))
  match entry with
  | none => do
    -- The walk only feeds a metrics counter here, but it runs, and may raise.
    when ((s.manager.blockLevelMmPrefix && s.manager.hashableSequence s.seq &&
        s.manager.enablePrefixCaching && s.seq.request.hasPrefixCacheKey) = true) do
      let _ ← query cachedPrefixLength
    allocateDense
  | some (cacheId, entry) =>
    if s.manager.blockLevelMmPrefix && s.manager.hashableSequence s.seq then
      releaseOnError (allocateDenseEntryHit cacheId entry)
    else releaseOnError (allocateMultimodalPrefixHit cacheId entry)

/-- What `store_multimodal_prefix` would store for this sequence. -/
def prefixEntryOf (manager : BlockManager H) (seq : Sequence H) (mediaKey : MediaKey)
    (boundary : ℕ) : Option MultimodalPrefixCacheEntry :=
  let make (retained : List ℕ) (kvDtype : String) (record : CompressionRecord) :=
    { key := mediaKey
      promptPrefixTokenIds := seq.request.promptTokenIds.take boundary
      logicalPrefixLen := boundary
      physicalPrefixLen := retained.length
      retainedOriginalPositions := retained
      blockIds := seq.blockTable.take (pagesFor retained.length manager.blockSize)
      kvDtype := kvDtype
      compressionRecord := record
      benefitTokens := boundary
      lifetimeHits := 0
      tailCloneBlockIds := [] : MultimodalPrefixCacheEntry }
  match seq.kvLayout with
  | some layout =>
    some (make (layout.retainedOriginalPositions.filter (· < boundary)) layout.kvDtype
      layout.compressionRecord)
  | none =>
    if manager.blockLevelMmPrefix then
      some (make (List.range boundary) "dense" ⟨false, none, [], [], []⟩)
    else none

/-- The eviction loop of `store_multimodal_prefix`; `true` where the entry now fits. The
fuel is that of the reclaim loop. -/
def makeRoomLoop (prefixBlocks : ℕ) (candidateUtility : ℚ) : ℕ → ManagerAction H Bool
  | 0 => do
    let manager ← readManager
    pure (decide (manager.multimodalPrefixCacheBlocks + prefixBlocks ≤
      manager.multimodalPrefixCacheMaxBlocks))
  | fuel + 1 => do
    let manager ← readManager
    if manager.multimodalPrefixCacheBlocks + prefixBlocks ≤
        manager.multimodalPrefixCacheMaxBlocks then pure true
    else do
      if ← dropIdleTailClone none then makeRoomLoop prefixBlocks candidateUtility fuel
      else do
        let manager ← readManager
        match manager.evictionCandidate none with
        | none => pure false
        | some evictionId =>
          match manager.multimodalPrefixCache.get? evictionId with
          | none => throw (.manager .entryMissing)
          | some evicted =>
            if candidateUtility ≤ evicted.benefitPerBlock then pure false
            else do
              evictMultimodalPrefix evictionId
              makeRoomLoop prefixBlocks candidateUtility fuel

def insertEntry (cacheId : CacheId) (entry : MultimodalPrefixCacheEntry) :
    ManagerAction H Unit := do
  forEach (fun id => gpu (do let _ ← GpuBlockPool.retain id; pure ())) entry.blockIds
  modifyManager fun m => { m with
    multimodalPrefixCache := m.multimodalPrefixCache ++ [(cacheId, entry)]
    multimodalPrefixCacheBlocks := m.multimodalPrefixCacheBlocks + entry.blockIds.length }

/-- The admission part of `store_multimodal_prefix`. -/
def storeEntry (mediaKey : MediaKey) (boundary : ℕ) (entry : MultimodalPrefixCacheEntry) :
    ManagerAction H Bool := do
  let s ← get
  let prefixBlocks := pagesFor entry.physicalPrefixLen s.manager.blockSize
  if entry.physicalPrefixLen = 0 then pure false
  else if s.manager.multimodalPrefixCacheMaxBlocks < prefixBlocks ∨
      s.seq.blockTable.length < prefixBlocks then pure false
  else
    let cacheId : CacheId := ⟨mediaKey, s.seq.request.promptTokenIds.take boundary⟩
    match s.manager.multimodalPrefixCache.get? cacheId with
    | some existing => do
      require (existing.key = mediaKey ∧
          existing.promptPrefixTokenIds = s.seq.request.promptTokenIds.take boundary)
        (.manager .digestCollision)
      modifyManager fun m => { m with
        multimodalPrefixCache := m.multimodalPrefixCache.moveToEnd cacheId }
      pure false
    | none => do
      let fits ← makeRoomLoop prefixBlocks ((boundary : ℚ) / prefixBlocks) s.manager.reclaimFuel
      if fits then do
        insertEntry cacheId entry
        pure true
      else pure false

def storeMultimodalPrefix : ManagerAction H Bool := do
  query assertSequenceBlockSize
  let s ← get
  match s.seq.request.multimodalPrefixCacheKey, s.seq.request.multimodalPrefixBoundary with
  | some mediaKey, some boundary =>
    if s.manager.enablePrefixCaching = false ∨ s.seq.multimodalPrefixCacheHit = true then
      pure false
    else do
      require (s.seq.isPrefillFinished = true ∧ s.seq.numTokens = s.seq.numPromptTokens)
        (.manager .storeBeforePrefill)
      match s.manager.prefixEntryOf s.seq mediaKey boundary with
      | none => pure false
      | some entry => storeEntry mediaKey boundary entry
  | _, _ => pure false

/-- Release every cache-owned page reference. The sequence in the state plays no part. -/
def clearMultimodalPrefixCache : ManagerAction H Unit := do
  let manager ← readManager
  forEach evictMultimodalPrefix (manager.multimodalPrefixCache.map (·.1))

/-- Reserve a page when the next decode input crosses a page boundary. -/
def mayAppend : ManagerAction H Unit := do
  query assertSequenceBlockSize
  let s ← get
  when (s.seq.physicalKvLen % s.manager.blockSize = 1) do
    ensureFreeBlocks 1 none
    appendFreeBlock

/-- The publication loop, from the hash of the previous block on. -/
def publishLoop (chain : Option H) : List ℕ → ManagerAction H Unit
  | [] => pure ()
  | blockIndex :: rest => do
    let (blockHash, mm) ← query fun manager seq => manager.blockHashAndMm seq blockIndex chain
    let seq ← readSeq
    let tokenIds ← query fun _ seq => seq.block blockIndex
    match seq.blockTable[blockIndex]? with
    | none => throw (.manager .tableIndexOutside)
    | some id => do
      gpu (GpuBlockPool.registerHash id blockHash tokenIds mm)
      publishLoop blockHash rest

/-- The hash of the block in front of `startBlock`. -/
def parentHash (startBlock : ℕ) (manager : BlockManager H) (seq : Sequence H) :
    Except EngineError (Option H) :=
  if startBlock = 0 then pure none
  else match seq.blockTable[startBlock - 1]? with
    | none => throw (.manager .tableIndexOutside)
    | some id => pure (manager.gpuPool.blocks id).hash

/-- Index full pages only after their KV writes have completed. -/
def publishComputedBlocks (tokenStart tokenEnd : ℕ) : ManagerAction H Unit := do
  let s ← get
  let startBlock := tokenStart / s.manager.blockSize
  let endBlock := tokenEnd / s.manager.blockSize
  if endBlock ≤ startBlock ∨ s.manager.enablePrefixCaching = false ∨
      s.seq.hasCompactKvLayout = true ∨ s.manager.hashableSequence s.seq = false then pure ()
  else do
    let chain ← query (parentHash startBlock)
    publishLoop chain (List.range' startBlock (endBlock - startBlock))

/-- `kv_layout.validate` against the given table, where there is a layout. -/
def validateLayout (table : Sequence H → List ℕ) (manager : BlockManager H) (seq : Sequence H) :
    Except EngineError Unit :=
  match seq.kvLayout with
  | none => .ok ()
  | some layout => layout.validate manager.blockSize (table seq) false

/-- Move the ownership of a sequence to CPU blocks and return the copy pairs. -/
def swapOut : ManagerAction H (List BlockPair) := do
  query assertSequenceBlockSize
  let s ← get
  require (s.seq.cpuBlockTable = []) (.manager (.alreadySwapped s.seq.request.seqId))
  require (s.seq.blockTable ≠ []) (.manager (.nothingToSwapOut s.seq.request.seqId))
  query (validateLayout (·.blockTable))
  gpu (GpuBlockPool.validateOwned s.seq.blockTable)
  let cpuBlockTable ← cpu (CpuBlockPool.allocateMany s.seq.blockTable.length)
  let blocks := s.seq.blockTable.map s.manager.gpuPool.blocks
  forEach (fun id => gpu (GpuBlockPool.releaseReference id)) s.seq.blockTable
  modifySeq fun seq => { seq with
    cpuBlockTable := cpuBlockTable
    cpuBlockHashes := blocks.map (·.hash)
    cpuBlockTokenIds := blocks.map (·.tokenIds)
    cpuBlockMmHashes := blocks.map (·.mmTokenHashes)
    blockTable := [] }
  query (validateLayout (·.cpuBlockTable))
  pure (s.seq.blockTable.zip cpuBlockTable)

/-- The check of one swapped block's metadata. -/
def validateSwapBlock (blockSize : ℕ) :
    Option H × List ℕ × Option MmTokenHashes → Except EngineError Unit
  | (none, tokenIds, _) => ensure (tokenIds = []) (.manager .swapStaleTokens)
  | (some _, tokenIds, mm) => do
    ensure (tokenIds.length = blockSize) (.manager .swapTokenCount)
    ensure ((mm.getD []).length ≤ blockSize) (.manager .swapMmCount)

def validateSwapInMetadata (manager : BlockManager H) (seq : Sequence H) :
    Except EngineError Unit := do
  ensure (seq.cpuBlockHashes.length = seq.cpuBlockTable.length ∧
      seq.cpuBlockTokenIds.length = seq.cpuBlockTable.length) (.manager .swapHashMetadataMissing)
  ensure (seq.cpuBlockMmHashes.length = seq.cpuBlockTable.length)
    (.manager .swapMmMetadataMissing)
  (seq.cpuBlockHashes.zip (seq.cpuBlockTokenIds.zip seq.cpuBlockMmHashes)).forM
    (validateSwapBlock manager.blockSize)

/-- Register the hash a block had before it was swapped out. -/
def restoreHash : ℕ × Option H × List ℕ × Option MmTokenHashes → ManagerAction H Unit
  | (_, none, _, _) => pure ()
  | (id, some blockHash, tokenIds, mm) =>
    gpu (GpuBlockPool.registerHash id (some blockHash) tokenIds mm)

/-- Move a swapped sequence back to GPU blocks and return the copy pairs. -/
def swapIn : ManagerAction H (List BlockPair) := do
  query assertSequenceBlockSize
  let s ← get
  require (s.seq.blockTable = []) (.manager (.alreadyResident s.seq.request.seqId))
  require (s.seq.cpuBlockTable ≠ []) (.manager (.nothingToSwapIn s.seq.request.seqId))
  query (validateLayout (·.cpuBlockTable))
  cpu (CpuBlockPool.validateOwned s.seq.cpuBlockTable)
  ensureFreeBlocks s.seq.cpuBlockTable.length none
  query validateSwapInMetadata
  let newTable ← gpu (GpuBlockPool.allocateMany s.seq.cpuBlockTable.length)
  forEach restoreHash
    (newTable.zip (s.seq.cpuBlockHashes.zip (s.seq.cpuBlockTokenIds.zip s.seq.cpuBlockMmHashes)))
  cpu (CpuBlockPool.releaseMany s.seq.cpuBlockTable)
  modifySeq fun seq => { seq with
    blockTable := newTable
    cpuBlockTable := []
    cpuBlockHashes := []
    cpuBlockTokenIds := []
    cpuBlockMmHashes := [] }
  query (validateLayout (·.blockTable))
  pure (s.seq.cpuBlockTable.zip newTable)

end BlockManager

end PrismInfer
