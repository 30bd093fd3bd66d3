import PrismInfer.Error
import PrismInfer.Lib.StateExcept

/-!
# Physical KV block pools

The reference-counted GPU allocator with its prefix-hash index, and the CPU swap
pool. A digest of type `H` stands for the 64-bit value of `xxh64`; `none` is
`NO_BLOCK_HASH`. A reference count is a natural number, so the guards of the
source against negative counts have no counterpart here.
-/
namespace PrismInfer
open StateExcept

/-- Block-local pad position and surrogate of its image, in position order. -/
abbrev MmTokenHashes := List (ℕ × ℕ)

/-- Metadata for one physical GPU KV-cache block. -/
structure Block (H : Type) where
  refCount : ℕ
  hash : Option H
  tokenIds : List ℕ
  mmTokenHashes : Option MmTokenHashes
deriving DecidableEq, Repr

namespace Block

variable {H : Type}

def initial : Block H := ⟨0, none, [], none⟩

def update (block : Block H) (blockHash : Option H) (tokenIds : List ℕ)
    (mmTokenHashes : Option MmTokenHashes) : Block H :=
  { block with hash := blockHash, tokenIds := tokenIds, mmTokenHashes := mmTokenHashes }

/-- The fields `mark_free` and `clear_hash` reset. -/
def forget (block : Block H) : Block H :=
  { block with hash := none, tokenIds := [], mmTokenHashes := none }

def activate (block : Block H) : Block H := { block.forget with refCount := 1 }

end Block

/-- The GPU allocator. `blocks` is the list of the source, read below `capacity`. -/
structure GpuBlockPool (H : Type) where
  capacity : ℕ
  retainHashesOnFree : Bool
  blocks : ℕ → Block H
  hashToBlockId : H → Option ℕ
  freeBlockIds : List ℕ
  freeBlockIdSet : Finset ℕ
  usedBlockIds : Finset ℕ
  cachedBlockIds : List ℕ

namespace GpuBlockPool

variable {H : Type} [DecidableEq H]

abbrev Action (H α : Type) := EStateM EngineError (GpuBlockPool H) α

def initial (numBlocks : ℕ) (retainHashesOnFree : Bool) : GpuBlockPool H where
  capacity := numBlocks
  retainHashesOnFree := retainHashesOnFree
  blocks := fun _ => .initial
  hashToBlockId := fun _ => none
  freeBlockIds := List.range numBlocks
  freeBlockIdSet := Finset.range numBlocks
  usedBlockIds := ∅
  cachedBlockIds := []

/-- Free pages, plus the cached ones where hashes outlive their last owner. -/
def freeCount (pool : GpuBlockPool H) : ℕ :=
  if pool.retainHashesOnFree then pool.freeBlockIdSet.card + pool.cachedBlockIds.length
  else pool.freeBlockIdSet.card

def setBlock (pool : GpuBlockPool H) (id : ℕ) (block : Block H) : GpuBlockPool H :=
  { pool with blocks := Function.update pool.blocks id block }

/-- The index without the entry of page `id`, where the page is what its hash maps to. -/
def dropIndex (pool : GpuBlockPool H) (id : ℕ) : GpuBlockPool H :=
  match (pool.blocks id).hash with
  | none => pool
  | some h =>
    if pool.hashToBlockId h = some id then
      { pool with hashToBlockId := Function.update pool.hashToBlockId h none }
    else pool

/-- `_block`. -/
def block (id : ℕ) : Action H (Block H) := do
  let pool ← get
  require (id < pool.capacity) (.pool (.blockIdOutside id pool.capacity))
  pure (pool.blocks id)

def removeHashIndex (id : ℕ) : Action H Unit := modify (·.dropIndex id)

def activate (id : ℕ) : Action H Unit := do
  let pool ← get
  require ((pool.blocks id).refCount = 0)
    (.pool (.activateReferenced id (pool.blocks id).refCount))
  modify fun p => p.setBlock id (p.blocks id).activate

def markFree (id : ℕ) : Action H Unit := do
  let pool ← get
  require ((pool.blocks id).refCount = 0)
    (.pool (.markFreeReferenced id (pool.blocks id).refCount))
  modify fun p => p.setBlock id (p.blocks id).forget

def markUsed (pool : GpuBlockPool H) (id : ℕ) : GpuBlockPool H :=
  { pool with
    freeBlockIdSet := pool.freeBlockIdSet.erase id
    usedBlockIds := insert id pool.usedBlockIds }

def markReturned (pool : GpuBlockPool H) (id : ℕ) : GpuBlockPool H :=
  { pool with
    usedBlockIds := pool.usedBlockIds.erase id
    freeBlockIdSet := insert id pool.freeBlockIdSet
    freeBlockIds := pool.freeBlockIds ++ [id] }

/-- Pops the oldest cached page and frees it. The loop of the source returns or raises
in its first iteration. -/
def evictOldestCached : Action H (Option ℕ) := do
  let pool ← get
  match pool.cachedBlockIds with
  | [] => pure none
  | id :: rest => do
    modify fun p => { p with cachedBlockIds := rest }
    let block ← block id
    require (block.refCount = 0) (.pool (.cachedBlockReferenced id block.refCount))
    removeHashIndex id
    markFree id
    modify (·.markReturned id)
    pure (some id)

def allocate (id : ℕ) : Action H ℕ := do
  let block ← block id
  let pool ← get
  require (id ∈ pool.freeBlockIdSet) (.pool (.notFree id))
  require (block.refCount = 0) (.pool (.freeBlockReferenced id block.refCount))
  removeHashIndex id
  activate id
  modify (·.markUsed id)
  pure id

/-- The first queued id that is still free, and the queue behind it: stale ids are
skipped. -/
def popFree (free : Finset ℕ) : List ℕ → Option (ℕ × List ℕ)
  | [] => none
  | id :: rest => if id ∈ free then some (id, rest) else popFree free rest

def allocateFree : Action H ℕ := do
  let pool ← get
  match popFree pool.freeBlockIdSet pool.freeBlockIds with
  | some (id, rest) => do
    modify fun p => { p with freeBlockIds := rest }
    allocate id
  | none => do
    modify fun p => { p with freeBlockIds := [] }
    if pool.retainHashesOnFree then do
      match ← evictOldestCached with
      | some id => allocate id
      | none => throw (.pool .noFreeBlock)
    else throw (.pool .noFreeBlock)

def retain (id : ℕ) : Action H ℕ := do
  let block ← block id
  let pool ← get
  require (id ∈ pool.usedBlockIds) (.pool (.retainUnowned id))
  when (block.refCount = 0) do
    require (pool.retainHashesOnFree = true ∧ id ∈ pool.cachedBlockIds)
      (.pool (.reviveNonCached id))
    modify fun p => { p with cachedBlockIds := p.cachedBlockIds.erase id }
  modify fun p => p.setBlock id { p.blocks id with refCount := (p.blocks id).refCount + 1 }
  pure id

/-- The ids of `ids` that `validate_owned` reports. -/
def unowned (pool : GpuBlockPool H) (ids : List ℕ) : List ℕ :=
  ids.filter fun id => id ∉ pool.usedBlockIds ∨ (pool.blocks id).refCount = 0

def validateOwned (ids : List ℕ) : Action H Unit := do
  let pool ← get
  forEach (fun id => require (id < pool.capacity) (.pool (.blockIdOutside id pool.capacity))) ids
  require ids.Nodup (.pool .duplicateIds)
  require (pool.unowned ids = []) (.pool (.unownedIds (pool.unowned ids)))

def deallocate (id : ℕ) : Action H Unit := do
  let block ← block id
  let pool ← get
  require (block.refCount = 0) (.pool (.stillReferenced id block.refCount))
  require (id ∈ pool.usedBlockIds) (.pool (.notAllocated id))
  when (pool.retainHashesOnFree = true ∧ id ∈ pool.cachedBlockIds) do
    modify fun p => { p with cachedBlockIds := p.cachedBlockIds.erase id }
  removeHashIndex id
  markFree id
  modify (·.markReturned id)

/-- Release one owner. The last release of a hashed page keeps it in the cached queue
where the pool retains hashes; any other last release frees the page. -/
def releaseReference (id : ℕ) : Action H Unit := do
  let block ← block id
  let pool ← get
  require (id ∈ pool.usedBlockIds ∧ 0 < block.refCount) (.pool (.releaseUnowned id))
  modify fun p => p.setBlock id { p.blocks id with refCount := (p.blocks id).refCount - 1 }
  if block.refCount = 1 then
    if pool.retainHashesOnFree = true ∧ block.hash ≠ none then
      modify fun p => { p with cachedBlockIds := p.cachedBlockIds ++ [id] }
    else deallocate id
  else pure ()

/-- `count` pages, given back in reverse order when one of them cannot be allocated. -/
def allocateLoop : ℕ → List ℕ → Action H (List ℕ)
  | 0, allocated => pure allocated
  | count + 1, allocated => do
    let id ← tryExcept allocateFree fun e => do
      forEach releaseReference allocated.reverse
      throw e
    allocateLoop count (allocated ++ [id])

def allocateMany (count : ℕ) : Action H (List ℕ) := do
  let pool ← get
  require (count ≤ pool.freeCount) (.pool (.insufficientBlocks count pool.freeCount))
  allocateLoop count []

/-- The index after `register_hash` entered page `id` under `h`. -/
def enterIndex (pool : GpuBlockPool H) (id : ℕ) (blockHash : Option H) : GpuBlockPool H :=
  match blockHash with
  | none => pool
  | some h => { pool with hashToBlockId := Function.update pool.hashToBlockId h (some id) }

def registerHash (id : ℕ) (blockHash : Option H) (tokenIds : List ℕ)
    (mmTokenHashes : Option MmTokenHashes) : Action H Unit := do
  let block ← block id
  let pool ← get
  require (id ∈ pool.usedBlockIds ∧ 0 < block.refCount) (.pool (.hashUnowned id))
  removeHashIndex id
  modify fun p => p.setBlock id ((p.blocks id).update blockHash tokenIds mmTokenHashes)
  modify (·.enterIndex id blockHash)

def clearHash (id : ℕ) : Action H Unit := do
  let _ ← block id
  removeHashIndex id
  modify fun p => p.setBlock id (p.blocks id).forget

/-- The page indexed under `blockHash`, where it carries exactly this content. -/
def lookup (pool : GpuBlockPool H) (blockHash : Option H) (tokenIds : List ℕ)
    (mmTokenHashes : Option MmTokenHashes) : Except EngineError (Option ℕ) :=
  match blockHash.bind pool.hashToBlockId with
  | none => .ok none
  | some id => do
    ensure (id < pool.capacity) (.pool (.blockIdOutside id pool.capacity))
    ensure (id ∈ pool.usedBlockIds) (.pool (.hashPointsToUnowned id))
    if (pool.blocks id).tokenIds = tokenIds ∧ (pool.blocks id).mmTokenHashes = mmTokenHashes
    then pure (some id) else pure none

end GpuBlockPool

/-- Ownership-tracked fixed-capacity CPU swap-page allocator. -/
structure CpuBlockPool where
  capacity : ℕ
  freeBlockIds : List ℕ
  freeBlockIdSet : Finset ℕ
  usedBlockIds : Finset ℕ

namespace CpuBlockPool

abbrev Action (α : Type) := EStateM EngineError CpuBlockPool α

def initial (numBlocks : ℕ) : CpuBlockPool where
  capacity := numBlocks
  freeBlockIds := List.range numBlocks
  freeBlockIdSet := Finset.range numBlocks
  usedBlockIds := ∅

def freeCount (pool : CpuBlockPool) : ℕ := pool.freeBlockIdSet.card

def canAllocate (pool : CpuBlockPool) (count : ℕ) : Prop := count ≤ pool.freeCount

instance (pool : CpuBlockPool) (count : ℕ) : Decidable (pool.canAllocate count) :=
  inferInstanceAs (Decidable (count ≤ pool.freeCount))

def markUsed (pool : CpuBlockPool) (id : ℕ) : CpuBlockPool :=
  { pool with
    freeBlockIdSet := pool.freeBlockIdSet.erase id
    usedBlockIds := insert id pool.usedBlockIds }

/-- Gives a page back at the front of the queue: the cleanup of `allocate_many`. -/
def restore (pool : CpuBlockPool) (id : ℕ) : CpuBlockPool :=
  { pool with
    usedBlockIds := pool.usedBlockIds.erase id
    freeBlockIdSet := insert id pool.freeBlockIdSet
    freeBlockIds := id :: pool.freeBlockIds }

def markReturned (pool : CpuBlockPool) (id : ℕ) : CpuBlockPool :=
  { pool with
    usedBlockIds := pool.usedBlockIds.erase id
    freeBlockIdSet := insert id pool.freeBlockIdSet
    freeBlockIds := pool.freeBlockIds ++ [id] }

def allocateOne : Action ℕ := do
  let pool ← get
  match pool.freeBlockIds with
  | [] => throw (.pool .cpuFreeListEmpty)
  | id :: rest => do
    modify fun p => { p with freeBlockIds := rest }
    require (id < pool.capacity) (.pool (.cpuBlockIdOutside id pool.capacity))
    require (id ∈ pool.freeBlockIdSet) (.pool (.cpuFreeListCorruption id))
    modify (·.markUsed id)
    pure id

def allocateLoop : ℕ → List ℕ → Action (List ℕ)
  | 0, allocated => pure allocated
  | count + 1, allocated => do
    let id ← tryExcept allocateOne fun e => do
      modify fun p => allocated.reverse.foldl restore p
      throw e
    allocateLoop count (allocated ++ [id])

def allocateMany (count : ℕ) : Action (List ℕ) := do
  let pool ← get
  require (pool.canAllocate count) (.pool (.insufficientCpuBlocks count pool.freeCount))
  allocateLoop count []

def unowned (pool : CpuBlockPool) (ids : List ℕ) : List ℕ :=
  ids.filter fun id => id ∉ pool.usedBlockIds

def validateOwned (ids : List ℕ) : Action Unit := do
  let pool ← get
  forEach (fun id => require (id < pool.capacity) (.pool (.cpuBlockIdOutside id pool.capacity)))
    ids
  require ids.Nodup (.pool .cpuDuplicateIds)
  require (pool.unowned ids = []) (.pool (.cpuUnownedIds (pool.unowned ids)))

def releaseMany (ids : List ℕ) : Action Unit := do
  validateOwned ids
  forEach (fun id => modify (·.markReturned id)) ids

end CpuBlockPool

end PrismInfer
