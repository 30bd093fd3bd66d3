import PrismInfer.BlockPoolInvariant
import PrismInfer.KVCompaction
import PrismInfer.Lib.EveryRun

/-!
# What pages carry

The hash, the tokens and the media positions of a page are its content. Outside publication
and swapping in, no method writes content: a page keeps what it carries or loses all of it,
also where the method raises.
-/
set_option linter.unusedSectionVars false

namespace PrismInfer
open StateExcept EveryRun

variable {H : Type}

/-- Hash, tokens and media positions of a page. -/
def Block.content (block : Block H) : Option H × List ℕ × Option MmTokenHashes :=
  (block.hash, block.tokenIds, block.mmTokenHashes)

/-- The content of a page that carries nothing. -/
def Block.noContent : Option H × List ℕ × Option MmTokenHashes := (none, [], none)

variable [DecidableEq H]

namespace GpuBlockPool

variable {pool pool' : GpuBlockPool H} {id : ℕ}

/-- Every page keeps its content or loses it. -/
def Forgets (pool pool' : GpuBlockPool H) : Prop :=
  ∀ id, (pool'.blocks id).content = (pool.blocks id).content ∨
    (pool'.blocks id).content = Block.noContent

instance : Std.Refl (Forgets (H := H)) where
  refl _ _ := .inl rfl

instance : IsTrans (GpuBlockPool H) Forgets where
  trans _ _ _ h h' id := by
    rcases h' id with hsame | hnone
    · rw [hsame]
      exact h id
    · exact .inr hnone

theorem Forgets.of_blocks (h : pool'.blocks = pool.blocks) : Forgets pool pool' := fun id =>
  .inl (by rw [h])

theorem Forgets.setBlock {block : Block H}
    (h : block.content = (pool.blocks id).content ∨ block.content = Block.noContent) :
    Forgets pool (pool.setBlock id block) := by
  intro other
  unfold GpuBlockPool.setBlock
  by_cases hother : other = id
  · subst hother
    simp only [Function.update_self]
    exact h
  · left
    simp only [Function.update_of_ne hother]

theorem block_forgets (id : ℕ) : Always (Forgets (H := H)) (block id) :=
  Always.bind Always.get fun _ => Always.bind (Always.require _ _) fun _ => Always.pure _

theorem removeHashIndex_forgets (id : ℕ) : Always (Forgets (H := H)) (removeHashIndex id) :=
  Always.modify fun pool => Forgets.of_blocks (dropIndex_blocks pool id)

theorem activate_forgets (id : ℕ) : Always (Forgets (H := H)) (activate id) :=
  Always.bind Always.get fun _ => Always.bind (Always.require _ _) fun _ =>
    Always.modify fun _ => Forgets.setBlock (.inr rfl)

theorem markFree_forgets (id : ℕ) : Always (Forgets (H := H)) (markFree id) :=
  Always.bind Always.get fun _ => Always.bind (Always.require _ _) fun _ =>
    Always.modify fun _ => Forgets.setBlock (.inr rfl)

theorem evictOldestCached_forgets : Always (Forgets (H := H)) evictOldestCached := by
  refine Always.bind Always.get fun pool => ?_
  split
  · exact Always.pure _
  · exact Always.bind (Always.modify fun _ => Forgets.of_blocks rfl) fun _ =>
      Always.bind (block_forgets _) fun _ => Always.bind (Always.require _ _) fun _ =>
        Always.bind (removeHashIndex_forgets _) fun _ => Always.bind (markFree_forgets _) fun _ =>
          Always.bind (Always.modify fun _ => Forgets.of_blocks rfl) fun _ => Always.pure _

theorem allocate_forgets (id : ℕ) : Always (Forgets (H := H)) (allocate id) :=
  Always.bind (block_forgets id) fun _ => Always.bind Always.get fun _ =>
    Always.bind (Always.require _ _) fun _ => Always.bind (Always.require _ _) fun _ =>
      Always.bind (removeHashIndex_forgets id) fun _ => Always.bind (activate_forgets id) fun _ =>
        Always.bind (Always.modify fun _ => Forgets.of_blocks rfl) fun _ => Always.pure _

theorem allocateFree_forgets : Always (Forgets (H := H)) allocateFree := by
  refine Always.bind Always.get fun pool => ?_
  split
  · exact Always.bind (Always.modify fun _ => Forgets.of_blocks rfl) fun _ => allocate_forgets _
  · refine Always.bind (Always.modify fun _ => Forgets.of_blocks rfl) fun _ => ?_
    split
    · refine Always.bind evictOldestCached_forgets fun found => ?_
      cases found with
      | none => exact Always.throw _
      | some id => exact allocate_forgets id
    · exact Always.throw _

theorem retain_forgets (id : ℕ) : Always (Forgets (H := H)) (retain id) :=
  Always.bind (block_forgets id) fun _ => Always.bind Always.get fun _ =>
    Always.bind (Always.require _ _) fun _ =>
      Always.bind (Always.when _ (Always.bind (Always.require _ _) fun _ =>
        Always.modify fun _ => Forgets.of_blocks rfl)) fun _ =>
          Always.bind (Always.modify fun _ => Forgets.setBlock (.inl rfl)) fun _ => Always.pure _

theorem deallocate_forgets (id : ℕ) : Always (Forgets (H := H)) (deallocate id) :=
  Always.bind (block_forgets id) fun _ => Always.bind Always.get fun _ =>
    Always.bind (Always.require _ _) fun _ => Always.bind (Always.require _ _) fun _ =>
      Always.bind (Always.when _ (Always.modify fun _ => Forgets.of_blocks rfl)) fun _ =>
        Always.bind (removeHashIndex_forgets id) fun _ => Always.bind (markFree_forgets id) fun _ =>
          Always.modify fun _ => Forgets.of_blocks rfl

theorem releaseReference_forgets (id : ℕ) : Always (Forgets (H := H)) (releaseReference id) := by
  refine Always.bind (block_forgets id) fun _ => Always.bind Always.get fun _ =>
    Always.bind (Always.require _ _) fun _ =>
      Always.bind (Always.modify fun _ => Forgets.setBlock (.inl rfl)) fun _ => ?_
  split
  · split
    · exact Always.modify fun _ => Forgets.of_blocks rfl
    · exact deallocate_forgets id
  · exact Always.pure _

theorem clearHash_forgets (id : ℕ) : Always (Forgets (H := H)) (clearHash id) :=
  Always.bind (block_forgets id) fun _ => Always.bind (removeHashIndex_forgets id) fun _ =>
    Always.modify fun _ => Forgets.setBlock (.inr rfl)

theorem validateOwned_forgets (ids : List ℕ) : Always (Forgets (H := H)) (validateOwned ids) :=
  Always.bind Always.get fun _ =>
    Always.bind (Always.forEach (fun _ => Always.require _ _) ids) fun _ =>
      Always.bind (Always.require _ _) fun _ => Always.require _ _

end GpuBlockPool

/-! ## The methods of the manager -/

/-- Every page keeps its content or loses it. -/
def ManagerState.Forgets (t t' : ManagerState H) : Prop :=
  t.manager.gpuPool.Forgets t'.manager.gpuPool

namespace BlockManager
open ManagerState

instance : Std.Refl (Forgets (H := H)) where
  refl t := Std.Refl.refl (r := GpuBlockPool.Forgets) t.manager.gpuPool

instance : IsTrans (ManagerState H) Forgets where
  trans _ _ _ h h' := IsTrans.trans (r := GpuBlockPool.Forgets) _ _ _ h h'

variable [Digests H] {α : Type}

theorem gpu_forgets {x : GpuBlockPool.Action H α} (hx : Always GpuBlockPool.Forgets x) :
    Always Forgets (gpu x) :=
  Always.lift hx fun _ _ h => h

theorem cpu_forgets (x : CpuBlockPool.Action α) : Always (Forgets (H := H)) (cpu x) := by
  unfold cpu
  apply Always.zoom
  intro pool t
  exact Std.Refl.refl (r := Forgets) t

theorem query_forgets (f : BlockManager H → Sequence H → Except EngineError α) :
    Always Forgets (query f) :=
  Always.bind Always.get fun _ => Always.readOnly _

theorem readManager_forgets : Always (Forgets (H := H)) readManager :=
  Always.bind Always.get fun _ => Always.pure _

theorem readSeq_forgets : Always (Forgets (H := H)) readSeq :=
  Always.bind Always.get fun _ => Always.pure _

theorem modifySeq_forgets (f : Sequence H → Sequence H) : Always Forgets (modifySeq f) :=
  Always.modify fun t => Std.Refl.refl (r := Forgets) t

theorem modifyManager_forgets {f : BlockManager H → BlockManager H}
    (h : ∀ manager, (f manager).gpuPool = manager.gpuPool) : Always Forgets (modifyManager f) :=
  Always.modify fun t => GpuBlockPool.Forgets.of_blocks (by rw [h])

theorem appendFreeBlock_forgets : Always (Forgets (H := H)) appendFreeBlock :=
  Always.bind (gpu_forgets GpuBlockPool.allocateFree_forgets) fun _ => modifySeq_forgets _

theorem appendRetained_forgets (id : ℕ) : Always (Forgets (H := H)) (appendRetained id) :=
  Always.bind (gpu_forgets (GpuBlockPool.retain_forgets id)) fun _ => modifySeq_forgets _

theorem growTable_forgets (blocks : ℕ) : Always (Forgets (H := H)) (growTable blocks) :=
  Always.bind readSeq_forgets fun _ => Always.forEach (fun _ => appendFreeBlock_forgets) _

theorem evictMultimodalPrefix_forgets (cacheId : CacheId) :
    Always (Forgets (H := H)) (evictMultimodalPrefix cacheId) := by
  refine Always.bind readManager_forgets fun manager => ?_
  split
  · exact Always.throw _
  · exact Always.bind (modifyManager_forgets fun _ => rfl) fun _ =>
      Always.bind (Always.forEach (fun id =>
        gpu_forgets (GpuBlockPool.releaseReference_forgets id)) _) fun _ =>
          modifyManager_forgets fun _ => rfl

theorem dropIdleTailClone_forgets (protectedId : Option CacheId) :
    Always (Forgets (H := H)) (dropIdleTailClone protectedId) := by
  refine Always.bind readManager_forgets fun manager => ?_
  split
  · exact Always.pure _
  · exact Always.bind (modifyManager_forgets fun _ => rfl) fun _ =>
      Always.bind (gpu_forgets (GpuBlockPool.releaseReference_forgets _)) fun _ =>
        Always.bind (modifyManager_forgets fun _ => rfl) fun _ => Always.pure _

theorem reclaimLoop_forgets (required : ℕ) (protectedId : Option CacheId) (fuel : ℕ) :
    Always (Forgets (H := H)) (reclaimLoop required protectedId fuel) := by
  induction fuel with
  | zero => exact Always.pure _
  | succ fuel ih =>
    refine Always.bind readManager_forgets fun manager => ?_
    split
    · exact Always.pure _
    · refine Always.bind (dropIdleTailClone_forgets protectedId) fun dropped => ?_
      split
      · exact ih
      · refine Always.bind readManager_forgets fun manager => ?_
        split
        · exact Always.pure _
        · exact Always.bind (evictMultimodalPrefix_forgets _) fun _ => ih

theorem ensureFreeBlocks_forgets (required : ℕ) (protectedId : Option CacheId) :
    Always (Forgets (H := H)) (ensureFreeBlocks required protectedId) :=
  Always.bind readManager_forgets fun _ => Always.bind (reclaimLoop_forgets _ _ _) fun _ =>
    Always.bind readManager_forgets fun _ => Always.require _ _

theorem privatizeBlock_forgets (blockIndex : ℕ) :
    Always (Forgets (H := H)) (privatizeBlock blockIndex) := by
  refine Always.bind Always.get fun s => ?_
  split
  · exact Always.throw _
  · split
    · exact Always.bind (gpu_forgets (GpuBlockPool.clearHash_forgets _)) fun _ => Always.pure _
    · exact Always.bind (ensureFreeBlocks_forgets _ _) fun _ =>
        Always.bind (gpu_forgets GpuBlockPool.allocateFree_forgets) fun _ =>
          Always.bind (gpu_forgets (GpuBlockPool.releaseReference_forgets _)) fun _ =>
            Always.bind (modifySeq_forgets _) fun _ => Always.pure _

theorem cachedPrefixTokens_forgets : Always (Forgets (H := H)) cachedPrefixTokens :=
  Always.bind (query_forgets _) fun _ => Always.bind readManager_forgets fun _ =>
    Always.bind (modifySeq_forgets _) fun _ => Always.bind (query_forgets _) fun _ =>
      Always.bind (modifySeq_forgets _) fun _ => Always.pure _

theorem allocateDenseLoop_forgets (walk : DenseWalk H) (indices : List ℕ) :
    Always Forgets (allocateDenseLoop walk indices) := by
  induction indices generalizing walk with
  | nil => exact Always.pure ()
  | cons i rest ih =>
    refine Always.bind (Always.bind (query_forgets _) fun hashed => Always.bind Always.get fun _ =>
      Always.bind (query_forgets _) fun found => ?_) fun walk => ih walk
    cases found with
    | none => exact Always.bind appendFreeBlock_forgets fun _ => Always.pure _
    | some id =>
      exact Always.bind (modifySeq_forgets _) fun _ =>
        Always.bind (appendRetained_forgets id) fun _ => Always.pure _

theorem privatizeRange_forgets (snapped : ℕ) (indices : List ℕ) :
    Always (Forgets (H := H)) (privatizeRange snapped indices) := by
  induction indices with
  | nil => exact Always.pure _
  | cons blockIndex rest ih =>
    refine Always.bind (privatizeBlock_forgets blockIndex) fun pair =>
      Always.bind readManager_forgets fun _ => Always.bind ih fun _ => ?_
    split
    · exact Always.pure _
    · exact Always.pure _

theorem allocateDense_forgets : Always (Forgets (H := H)) allocateDense := by
  refine Always.bind readSeq_forgets fun _ => Always.bind (ensureFreeBlocks_forgets _ _) fun _ =>
    Always.bind (allocateDenseLoop_forgets _ _) fun _ => Always.bind
      (Always.bind Always.get fun s => ?_) fun _ => Always.bind (modifySeq_forgets _) fun _ =>
        Always.pure _
  simp only
  split
  · exact Always.bind (privatizeRange_forgets _ _) fun _ =>
      Always.bind (modifySeq_forgets _) fun _ => Always.pure _
  · exact Always.pure _

theorem copyTail_forgets (last : ℕ) : Always (Forgets (H := H)) (copyTail last) := by
  refine Always.bind readManager_forgets fun _ => ?_
  split
  · exact Always.pure _
  · exact Always.bind (gpu_forgets GpuBlockPool.allocateFree_forgets) fun _ =>
      Always.bind (gpu_forgets (GpuBlockPool.releaseReference_forgets last)) fun _ =>
        Always.bind (modifySeq_forgets _) fun _ => Always.pure _

theorem copyOnWrite_forgets : Always (Forgets (H := H)) copyOnWrite := by
  refine Always.bind (query_forgets _) fun _ => Always.bind Always.get fun s => ?_
  split
  · exact Always.pure _
  · split
    · exact Always.pure _
    · refine Always.bind (query_forgets _) fun entry => Always.bind (Always.tryExcept
        (Always.bind (ensureFreeBlocks_forgets _ _) fun _ => Always.pure _)
        fun _ => Always.pure _) fun outcome => ?_
      cases outcome with
      | none => exact copyTail_forgets _
      | some e =>
        simp only [copyAfterEviction]
        split
        · exact Always.throw _
        · split
          · refine Always.bind (evictMultimodalPrefix_forgets _) fun _ =>
              Always.bind readManager_forgets fun _ => ?_
            split
            · exact Always.pure _
            · exact Always.bind (ensureFreeBlocks_forgets _ _) fun _ => copyTail_forgets _
          · exact Always.throw _

theorem admitTailClone_forgets (cacheId : CacheId) (id : ℕ) :
    Always (Forgets (H := H)) (admitTailClone cacheId id) :=
  Always.bind readManager_forgets fun _ => Always.when _
    (Always.bind (gpu_forgets (GpuBlockPool.retain_forgets id)) fun _ =>
      modifyManager_forgets fun _ => rfl)

theorem shareImmutablePages_forgets (entry : MultimodalPrefixCacheEntry) :
    Always (Forgets (H := H)) (shareImmutablePages entry) :=
  Always.bind readManager_forgets fun _ => Always.forEach appendRetained_forgets _

theorem touchEntry_forgets (cacheId : CacheId) : Always (Forgets (H := H)) (touchEntry cacheId) :=
  modifyManager_forgets fun _ => rfl

theorem compactTailPage_forgets (cacheId : CacheId) (entry : MultimodalPrefixCacheEntry)
    (tailRows : ℕ) : Always (Forgets (H := H)) (compactTailPage cacheId entry tailRows) := by
  refine Always.bind readManager_forgets fun _ => ?_
  split
  · exact Always.pure _
  · split
    · exact Always.bind (appendRetained_forgets _) fun _ => Always.pure _
    · split
      · exact Always.throw _
      · refine Always.bind (appendRetained_forgets _) fun _ =>
          Always.bind copyOnWrite_forgets fun pair => ?_
        cases pair with
        | none => exact Always.throw _
        | some pair => exact Always.bind (admitTailClone_forgets _ _) fun _ => Always.pure _

theorem allocateMultimodalPrefixHit_forgets (cacheId : CacheId)
    (entry : MultimodalPrefixCacheEntry) :
    Always (Forgets (H := H)) (allocateMultimodalPrefixHit cacheId entry) :=
  Always.bind Always.get fun _ => Always.bind (ensureFreeBlocks_forgets _ _) fun _ =>
    Always.bind (shareImmutablePages_forgets entry) fun _ =>
      Always.bind (compactTailPage_forgets _ _ _) fun _ =>
        Always.bind (growTable_forgets _) fun _ =>
        Always.bind (modifySeq_forgets _) fun _ => Always.bind (query_forgets _) fun _ =>
          Always.bind (modifySeq_forgets _) fun _ =>
            Always.bind (touchEntry_forgets _) fun _ => Always.pure _

theorem denseTailPage_forgets (cacheId : CacheId) (entry : MultimodalPrefixCacheEntry)
    (tailRows : ℕ) : Always (Forgets (H := H)) (denseTailPage cacheId entry tailRows) := by
  refine Always.bind readManager_forgets fun _ => ?_
  split
  · exact Always.pure _
  · split
    · exact Always.bind (gpu_forgets (GpuBlockPool.retain_forgets _)) fun _ =>
        Always.bind (gpu_forgets (GpuBlockPool.clearHash_forgets _)) fun _ =>
          Always.bind (modifySeq_forgets _) fun _ => Always.pure _
    · split
      · exact Always.throw _
      · exact Always.bind (gpu_forgets GpuBlockPool.allocateFree_forgets) fun _ =>
          Always.bind (modifySeq_forgets _) fun _ =>
            Always.bind (admitTailClone_forgets _ _) fun _ => Always.pure _

theorem allocateDenseEntryHit_forgets (cacheId : CacheId) (entry : MultimodalPrefixCacheEntry) :
    Always (Forgets (H := H)) (allocateDenseEntryHit cacheId entry) :=
  Always.bind Always.get fun _ => Always.bind (ensureFreeBlocks_forgets _ _) fun _ =>
    Always.bind (shareImmutablePages_forgets entry) fun _ =>
      Always.bind (denseTailPage_forgets _ _ _) fun _ => Always.bind (growTable_forgets _) fun _ =>
        Always.bind (modifySeq_forgets _) fun _ =>
          Always.bind (touchEntry_forgets _) fun _ => Always.pure _

theorem deallocate_forgets : Always (Forgets (H := H)) deallocate :=
  Always.bind (query_forgets _) fun _ => Always.bind readSeq_forgets fun _ =>
    Always.bind (Always.when _ (cpu_forgets _)) fun _ =>
      Always.bind (Always.forEach (fun id =>
        gpu_forgets (GpuBlockPool.releaseReference_forgets id)) _) fun _ =>
          Always.bind (cpu_forgets _) fun _ => modifySeq_forgets _

theorem releaseOnError_forgets {x : ManagerAction H α} (hx : Always Forgets x) :
    Always Forgets (releaseOnError x) :=
  Always.tryExcept hx fun _ => Always.bind readSeq_forgets fun _ =>
    Always.bind (Always.when _ deallocate_forgets) fun _ => Always.throw _

theorem allocate_forgets : Always (Forgets (H := H)) allocate := by
  refine Always.bind (query_forgets _) fun _ => Always.bind readSeq_forgets fun _ =>
    Always.bind (Always.require _ _) fun _ => Always.bind (query_forgets _) fun _ =>
      Always.bind Always.get fun s => Always.bind (query_forgets _) fun entry =>
        Always.bind (Always.require _ _) fun _ => ?_
  cases entry with
  | none =>
    exact Always.bind (Always.when _ (Always.bind (query_forgets _) fun _ => Always.pure _))
      fun _ => allocateDense_forgets
  | some found =>
    simp only
    split
    · exact releaseOnError_forgets (allocateDenseEntryHit_forgets _ _)
    · exact releaseOnError_forgets (allocateMultimodalPrefixHit_forgets _ _)

theorem makeRoomLoop_forgets (prefixBlocks : ℕ) (candidateUtility : ℚ) (fuel : ℕ) :
    Always (Forgets (H := H)) (makeRoomLoop prefixBlocks candidateUtility fuel) := by
  induction fuel with
  | zero => exact Always.bind readManager_forgets fun _ => Always.pure _
  | succ fuel ih =>
    refine Always.bind readManager_forgets fun _ => ?_
    split
    · exact Always.pure _
    · refine Always.bind (dropIdleTailClone_forgets none) fun dropped => ?_
      split
      · exact ih
      · refine Always.bind readManager_forgets fun _ => ?_
        split
        · exact Always.pure _
        · split
          · exact Always.throw _
          · split
            · exact Always.pure _
            · exact Always.bind (evictMultimodalPrefix_forgets _) fun _ => ih

theorem storeMultimodalPrefix_forgets : Always (Forgets (H := H)) storeMultimodalPrefix := by
  refine Always.bind (query_forgets _) fun _ => Always.bind Always.get fun s => ?_
  split
  · split
    · exact Always.pure _
    · refine Always.bind (Always.require _ _) fun _ => ?_
      split
      · exact Always.pure _
      · refine Always.bind Always.get fun s => ?_
        simp only
        split
        · exact Always.pure _
        · split
          · exact Always.pure _
          · split
            · exact Always.bind (Always.require _ _) fun _ =>
                Always.bind (modifyManager_forgets fun _ => rfl) fun _ => Always.pure _
            · refine Always.bind (makeRoomLoop_forgets _ _ _) fun fits => ?_
              split
              · exact Always.bind (Always.bind (Always.forEach (fun id => gpu_forgets
                  (Always.bind (GpuBlockPool.retain_forgets id) fun _ => Always.pure _)) _)
                  fun _ => modifyManager_forgets fun _ => rfl) fun _ => Always.pure _
              · exact Always.pure _
  · exact Always.pure _

theorem clearMultimodalPrefixCache_forgets :
    Always (Forgets (H := H)) clearMultimodalPrefixCache :=
  Always.bind readManager_forgets fun _ => Always.forEach evictMultimodalPrefix_forgets _

theorem mayAppend_forgets : Always (Forgets (H := H)) mayAppend :=
  Always.bind (query_forgets _) fun _ => Always.bind Always.get fun _ =>
    Always.when _ (Always.bind (ensureFreeBlocks_forgets _ _) fun _ => appendFreeBlock_forgets)

theorem swapOut_forgets : Always (Forgets (H := H)) swapOut :=
  Always.bind (query_forgets _) fun _ => Always.bind Always.get fun _ =>
    Always.bind (Always.require _ _) fun _ => Always.bind (Always.require _ _) fun _ =>
      Always.bind (query_forgets _) fun _ =>
        Always.bind (gpu_forgets (GpuBlockPool.validateOwned_forgets _)) fun _ =>
          Always.bind (cpu_forgets _) fun _ => Always.bind (Always.forEach (fun id =>
            gpu_forgets (GpuBlockPool.releaseReference_forgets id)) _) fun _ =>
              Always.bind (modifySeq_forgets _) fun _ => Always.bind (query_forgets _) fun _ =>
                Always.pure _

theorem commitCompaction_forgets (plan : KVCompactionPlan) :
    Always (Forgets (H := H)) (commitCompaction plan) := by
  refine Always.bind (query_forgets _) fun _ => Always.bind Always.get fun _ =>
    Always.bind (Always.readOnly _) fun _ => Always.bind (Always.require _ _) fun _ =>
      Always.bind (Always.require _ _) fun _ => Always.bind (Always.require _ _) fun _ =>
        Always.bind (gpu_forgets (GpuBlockPool.validateOwned_forgets _)) fun _ =>
          Always.bind (Always.require _ _) fun _ => Always.bind (Always.require _ _) fun _ =>
            Always.bind (Always.readOnly _) fun _ => Always.bind (Always.forEach (fun id =>
              gpu_forgets (GpuBlockPool.clearHash_forgets id)) _) fun _ =>
                Always.bind (Always.forEach (fun id => Always.bind readManager_forgets fun _ =>
                  Always.bind (Always.require _ _) fun _ =>
                    gpu_forgets (GpuBlockPool.releaseReference_forgets id)) _) fun _ =>
                      Always.bind (modifySeq_forgets _) fun _ =>
                        Always.bind readSeq_forgets fun seq => ?_
  simp only
  split
  · exact Always.bind (query_forgets _) fun _ => modifySeq_forgets _
  · exact Always.bind (modifySeq_forgets _) fun _ => Always.bind (query_forgets _) fun _ =>
      modifySeq_forgets _

end BlockManager

end PrismInfer
