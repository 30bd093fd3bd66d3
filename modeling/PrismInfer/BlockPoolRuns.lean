import PrismInfer.BlockPoolInvariant

/-!
# Runs of the GPU block pool

A run is any sequence of calls of the pool that return. The order in which unreferenced
pages went idle is kept beside the pool, computed from the pages alone, and the cached
queue is shown to be that order.
-/
set_option linter.unusedSectionVars false

namespace PrismInfer.GpuBlockPool
open StateExcept

variable {H : Type} [DecidableEq H]

/-- The calls that change the pool. -/
inductive Call (H : Type) where
  | allocate (id : ℕ)
  | allocateFree
  | allocateMany (count : ℕ)
  | retain (id : ℕ)
  | releaseReference (id : ℕ)
  | deallocate (id : ℕ)
  | registerHash (id : ℕ) (blockHash : Option H) (tokenIds : List ℕ)
      (mmTokenHashes : Option MmTokenHashes)
  | removeHashIndex (id : ℕ)
  | clearHash (id : ℕ)

def Call.run : Call H → Action H Unit
  | .allocate id => do
    let _ ← GpuBlockPool.allocate id
    pure ()
  | .allocateFree => do
    let _ ← GpuBlockPool.allocateFree
    pure ()
  | .allocateMany count => do
    let _ ← GpuBlockPool.allocateMany count
    pure ()
  | .retain id => do
    let _ ← GpuBlockPool.retain id
    pure ()
  | .releaseReference id => GpuBlockPool.releaseReference id
  | .deallocate id => GpuBlockPool.deallocate id
  | .registerHash id blockHash tokenIds mm => GpuBlockPool.registerHash id blockHash tokenIds mm
  | .removeHashIndex id => GpuBlockPool.removeHashIndex id
  | .clearHash id => GpuBlockPool.clearHash id

/-- `clear_hash` is called on referenced pages only; the other preconditions are the
guards of the calls themselves. -/
def Call.Allowed (pool : GpuBlockPool H) : Call H → Prop
  | .clearHash id => 0 < (pool.blocks id).refCount
  | _ => True

/-- An unreferenced page that keeps its hash. -/
def CachedIdle (pool : GpuBlockPool H) (id : ℕ) : Prop :=
  (pool.blocks id).refCount = 0 ∧ (pool.blocks id).hash ≠ none

instance (pool : GpuBlockPool H) : DecidablePred pool.CachedIdle :=
  fun _ => inferInstanceAs (Decidable (_ ∧ _))

/-- The cached-idle pages by the time they went idle: those that stay idle keep their
places, those that the call made idle come last. -/
def idleOrder (pool pool' : GpuBlockPool H) (idled : List ℕ) : List ℕ :=
  idled.filter (fun id => pool'.CachedIdle id) ++
    (List.range pool'.capacity).filter fun id => pool'.CachedIdle id ∧ ¬ pool.CachedIdle id

/-- The pools that calls reach, with the order in which their idle pages went idle. -/
inductive Reaches (numBlocks : ℕ) (retainHashesOnFree : Bool) : GpuBlockPool H → List ℕ → Prop
  | initial : Reaches numBlocks retainHashesOnFree (.initial numBlocks retainHashesOnFree) []
  | call {pool pool' : GpuBlockPool H} {idled : List ℕ} (c : Call H)
      (before : Reaches numBlocks retainHashesOnFree pool idled) (hc : c.Allowed pool)
      (h : c.run pool = .ok () pool') :
      Reaches numBlocks retainHashesOnFree pool' (idleOrder pool pool' idled)

/-- The pages with an owner. -/
def referenced (pool : GpuBlockPool H) : Finset ℕ :=
  (Finset.range pool.capacity).filter fun id => 0 < (pool.blocks id).refCount

section Queues

variable {pool pool' : GpuBlockPool H} {id r : ℕ} {u : Unit}

/-- What one call does to the cached queue: pages leave it, or one page joins its end. -/
inductive QueueMoves (pool pool' : GpuBlockPool H) : Prop
  | leave (h : pool'.cachedBlockIds.Sublist pool.cachedBlockIds)
  | join (id : ℕ) (hnew : id ∉ pool.cachedBlockIds)
      (h : pool'.cachedBlockIds = pool.cachedBlockIds ++ [id])

theorem QueueMoves.of_eq (h : pool'.cachedBlockIds = pool.cachedBlockIds) :
    QueueMoves pool pool' :=
  .leave (h ▸ List.Sublist.refl _)

theorem kept_of_sublist {α : Type*} [DecidableEq α] {kept l : List α} (h : kept.Sublist l)
    (hn : l.Nodup) : l.filter (fun x => x ∈ kept) = kept := by
  induction h with
  | slnil => rfl
  | @cons kept l a h ih =>
    obtain ⟨ha, hn⟩ := List.nodup_cons.mp hn
    have hk : a ∉ kept := fun hm => ha (h.subset hm)
    simpa [hk] using ih hn
  | @cons_cons kept l a h ih =>
    obtain ⟨ha, hn⟩ := List.nodup_cons.mp hn
    have hrest : l.filter (fun x => x ∈ a :: kept) = l.filter fun x => x ∈ kept := by
      refine List.filter_congr fun x hx => ?_
      have hne : x ≠ a := by
        rintro rfl
        exact ha hx
      simp [hne]
    rw [List.filter_cons_of_pos (by simp), hrest, ih hn]

theorem WellFormed.cachedIdle_iff (hw : pool.WellFormed) :
    pool.CachedIdle id ↔ id ∈ pool.cachedBlockIds := by
  constructor
  · rintro ⟨hr, hh⟩
    by_contra hc
    have hu := hw.unused_of_unreferenced hr hc
    rw [hw.unused_block id hu] at hh
    exact hh rfl
  · intro hc
    exact ⟨((hw.cached_iff id).mp hc).2, (hw.cached_retained id hc).2⟩

/-- Where the cached queue lists the idle pages in order before a call, it does after it. -/
theorem idleOrder_eq (hw : pool.WellFormed) (hw' : pool'.WellFormed) (hq : QueueMoves pool pool') :
    idleOrder pool pool' pool.cachedBlockIds = pool'.cachedBlockIds := by
  simp only [idleOrder, hw.cachedIdle_iff, hw'.cachedIdle_iff]
  cases hq with
  | leave h =>
    have hnew : (List.range pool'.capacity).filter
        (fun x => x ∈ pool'.cachedBlockIds ∧ x ∉ pool.cachedBlockIds) = [] := by
      refine List.filter_eq_nil_iff.mpr fun x _ => ?_
      simpa using fun hx => h.subset hx
    rw [kept_of_sublist h hw.cached_nodup, hnew, List.append_nil]
  | join id hnew h =>
    have hstay : pool.cachedBlockIds.filter (fun x => x ∈ pool'.cachedBlockIds) =
        pool.cachedBlockIds := by
      refine List.filter_eq_self.mpr fun x hx => ?_
      simp [h, hx]
    have hid : id ∈ pool'.cachedBlockIds := by simp [h]
    have hlt := hw'.used_lt id ((hw'.cached_iff id).mp hid).1
    have hjoin : (List.range pool'.capacity).filter
        (fun x => x ∈ pool'.cachedBlockIds ∧ x ∉ pool.cachedBlockIds) = [id] := by
      have hcongr : ∀ x ∈ List.range pool'.capacity,
          decide (x ∈ pool'.cachedBlockIds ∧ x ∉ pool.cachedBlockIds) = (x == id) := by
        intro x _
        by_cases hx : x = id
        · subst hx
          simp [hid, hnew]
        · by_cases hxc : x ∈ pool.cachedBlockIds <;> simp [h, hx, hxc]
      rw [List.filter_congr hcongr, List.filter_beq,
        List.count_eq_one_of_mem List.nodup_range (List.mem_range.mpr hlt)]
      rfl
    rw [hstay, hjoin, h]

theorem retain_queue (h : retain id pool = .ok r pool') : QueueMoves pool pool' := by
  simp only [retain, bind_ok, block_ok, get_ok, require_ok, when_ok, modify_ok, pure_ok] at h
  obtain ⟨_, _, ⟨-, rfl, rfl⟩, _, _, ⟨rfl, rfl⟩, _, _, ⟨-, rfl⟩, _, q, hq, _, _, rfl, -, rfl⟩ := h
  rcases hq with ⟨-, _, _, ⟨-, rfl⟩, rfl⟩ | ⟨-, rfl⟩
  · exact .leave List.erase_sublist
  · exact .of_eq rfl

theorem deallocate_queue (h : deallocate id pool = .ok u pool') :
    pool'.cachedBlockIds.Sublist pool.cachedBlockIds := by
  simp only [deallocate, bind_ok, block_ok, get_ok, require_ok, when_ok, modify_ok,
    removeHashIndex_ok] at h
  obtain ⟨_, _, ⟨-, rfl, rfl⟩, _, _, ⟨rfl, rfl⟩, _, _, ⟨-, rfl⟩, _, _, ⟨-, rfl⟩, _, q, hq,
    _, _, rfl, _, _, hm, rfl⟩ := h
  obtain ⟨-, rfl⟩ := markFree_ok hm
  rcases hq with ⟨-, rfl⟩ | ⟨-, rfl⟩
  · simpa [markReturned, setBlock] using List.erase_sublist
  · simp [markReturned, setBlock]

theorem releaseReference_queue (hw : pool.WellFormed)
    (h : releaseReference id pool = .ok u pool') : QueueMoves pool pool' := by
  simp only [releaseReference, bind_ok, block_ok, get_ok, require_ok, modify_ok] at h
  obtain ⟨_, _, ⟨-, rfl, rfl⟩, _, _, ⟨rfl, rfl⟩, _, _, ⟨⟨-, hpos⟩, rfl⟩, _, _, rfl, h⟩ := h
  split at h
  · split at h
    · obtain rfl := modify_ok.mp h
      have hnc : id ∉ pool.cachedBlockIds := fun hc => by
        have := ((hw.cached_iff id).mp hc).2
        omega
      exact .join id hnc rfl
    · have hd := deallocate_queue h
      exact .leave hd
  · obtain ⟨-, rfl⟩ := pure_ok.mp h
    exact .of_eq rfl

theorem registerHash_queue {k : Option H} {tokenIds : List ℕ} {mm : Option MmTokenHashes}
    (h : registerHash id k tokenIds mm pool = .ok u pool') : QueueMoves pool pool' := by
  simp only [registerHash, bind_ok, block_ok, get_ok, require_ok, modify_ok,
    removeHashIndex_ok] at h
  obtain ⟨_, _, ⟨-, rfl, rfl⟩, _, _, ⟨rfl, rfl⟩, _, _, ⟨-, rfl⟩, _, _, rfl, _, _, rfl, rfl⟩ := h
  exact .of_eq (by cases k <;> simp [setBlock, enterIndex])

theorem clearHash_queue (h : clearHash id pool = .ok u pool') : QueueMoves pool pool' := by
  simp only [clearHash, bind_ok, block_ok, modify_ok, removeHashIndex_ok] at h
  obtain ⟨_, _, ⟨-, rfl, rfl⟩, _, _, rfl, rfl⟩ := h
  exact .of_eq (by simp [setBlock])

/-- Where `allocate_free` takes its page from: the free pages, and only when there is none
the oldest cached page. -/
inductive TakenFrom (pool : GpuBlockPool H) (id : ℕ) (pool' : GpuBlockPool H) : Prop
  | free (hid : id ∈ pool.freeBlockIdSet)
      (hfree : pool'.freeBlockIdSet = pool.freeBlockIdSet.erase id)
      (hcached : pool'.cachedBlockIds = pool.cachedBlockIds)
  | evicted (hnone : pool.freeBlockIdSet = ∅) (hfree : pool'.freeBlockIdSet = ∅)
      (hcached : pool.cachedBlockIds = id :: pool'.cachedBlockIds)

theorem allocateFree_from (hw : pool.WellFormed) (h : allocateFree pool = .ok id pool') :
    TakenFrom pool id pool' := by
  simp only [allocateFree, bind_ok, get_ok] at h
  obtain ⟨_, _, ⟨rfl, rfl⟩, h⟩ := h
  cases hpop : popFree pool.freeBlockIdSet pool.freeBlockIds with
  | some found =>
    obtain ⟨first, rest⟩ := found
    simp only [hpop, bind_ok, modify_ok] at h
    obtain ⟨_, _, rfl, h⟩ := h
    obtain ⟨rfl, -, hf, -, rfl⟩ := allocate_ok h
    exact .free hf (by simp [markUsed, setBlock]) (by simp [markUsed, setBlock])
  | none =>
    simp only [hpop, bind_ok, modify_ok] at h
    obtain ⟨_, _, rfl, h⟩ := h
    have hempty : pool.freeBlockIdSet = ∅ := Finset.eq_empty_iff_forall_notMem.mpr fun x hx =>
      popFree_none hpop x (hw.free_queued x hx) hx
    have hw₁ : ({ pool with freeBlockIds := [] } : GpuBlockPool H).WellFormed :=
      { hw with free_queued := fun x hx => by simp [hempty] at hx }
    split at h
    · simp only [bind_ok] at h
      obtain ⟨found, q, he, h⟩ := h
      cases found with
      | none => exact absurd h (by simp)
      | some first =>
        obtain ⟨hw₂, ⟨rest, hc, hc'⟩, -, -, -, hf, -, -⟩ := evictOldestCached_ok hw₁ he
        obtain ⟨rfl, -, -, hf', hc'', -⟩ := allocate_took hw₂ h
        refine .evicted hempty ?_ ?_
        · rw [hf', hf]
          simp [hempty]
        · rw [hc'', hc']
          exact hc
    · exact absurd h (by simp)

theorem TakenFrom.queue (h : TakenFrom pool id pool') :
    pool'.cachedBlockIds.Sublist pool.cachedBlockIds := by
  cases h with
  | free _ _ hcached => rw [hcached]
  | evicted _ _ hcached =>
    rw [hcached]
    exact List.sublist_cons_self id _

/-- `allocate_many` takes free pages as long as there are any, then the cached pages from
the front of their queue. -/
theorem allocateLoop_split {count : ℕ} {allocated ids : List ℕ} (hw : pool.WellFormed)
    (h : allocateLoop count allocated pool = .ok ids pool') :
    ∃ fresh, ids = allocated ++ fresh ++
        pool.cachedBlockIds.take (count - pool.freeBlockIdSet.card) ∧
      fresh.length = min count pool.freeBlockIdSet.card ∧
      (∀ id ∈ fresh, id ∈ pool.freeBlockIdSet) ∧
      pool'.cachedBlockIds.Sublist pool.cachedBlockIds := by
  induction count generalizing allocated pool with
  | zero =>
    obtain ⟨rfl, rfl⟩ := pure_ok.mp h
    exact ⟨[], by simp, by simp, by simp, List.Sublist.refl _⟩
  | succ count ih =>
    simp only [allocateLoop, bind_ok, tryExcept_ok, throw_ok, and_false, exists_false,
      or_false] at h
    obtain ⟨first, mid, hfirst, hrest⟩ := h
    obtain ⟨hw₁, -⟩ := allocateFree_ok hw hfirst
    obtain ⟨fresh, rfl, hlen, hfresh, hsub⟩ := ih hw₁ hrest
    have hfrom := allocateFree_from hw hfirst
    have hsub' := hsub.trans hfrom.queue
    cases hfrom with
    | free hid hfree hcached =>
      have hcard : mid.freeBlockIdSet.card + 1 = pool.freeBlockIdSet.card := by
        rw [hfree]
        exact Finset.card_erase_add_one hid
      refine ⟨first :: fresh, ?_, ?_, fun x hx => ?_, hsub'⟩
      · rw [hcached, ← hcard, Nat.add_sub_add_right]
        simp
      · rw [List.length_cons, hlen]
        omega
      · rcases List.mem_cons.mp hx with rfl | hx
        · exact hid
        · exact Finset.mem_of_mem_erase (hfree ▸ hfresh x hx)
    | evicted hnone hfree hcached =>
      have hnil : fresh = [] := by
        rw [hfree, Finset.card_empty] at hlen
        exact List.eq_nil_of_length_eq_zero (by omega)
      refine ⟨[], ?_, by simp [hnone], by simp, hsub'⟩
      simp [hnil, hnone, hfree, hcached]

theorem allocateMany_split {count : ℕ} {ids : List ℕ} (hw : pool.WellFormed)
    (h : allocateMany count pool = .ok ids pool') :
    ∃ fresh, ids = fresh ++ pool.cachedBlockIds.take (count - pool.freeBlockIdSet.card) ∧
      fresh.length = min count pool.freeBlockIdSet.card ∧
      (∀ id ∈ fresh, id ∈ pool.freeBlockIdSet) ∧
      pool'.cachedBlockIds.Sublist pool.cachedBlockIds := by
  simp only [allocateMany, bind_ok, get_ok, require_ok] at h
  obtain ⟨_, _, ⟨rfl, rfl⟩, _, _, ⟨-, rfl⟩, h⟩ := h
  simpa using allocateLoop_split hw h

end Queues

section Invariant

variable {pool pool' : GpuBlockPool H} {id r : ℕ} {u : Unit}

theorem allocate_wellFormed (hw : pool.WellFormed) (h : allocate id pool = .ok r pool') :
    pool'.WellFormed ∧ pool'.cachedBlockIds = pool.cachedBlockIds := by
  obtain ⟨rfl, ht, hf, hfree, hcached, hqueue⟩ := allocate_took hw h
  have hnc : r ∉ pool.cachedBlockIds := fun hc =>
    ((hw.free_iff r).mp hf).2 ((hw.cached_iff r).mp hc).1
  refine ⟨hw.take ht hfree ?_ fun x hx _ => ?_, hcached⟩
  · rw [hcached, List.erase_of_not_mem hnc]
  · rw [hqueue]
    exact hw.free_queued x hx

/-- Only a cached page can be deallocated outside of a release. -/
theorem deallocate_wellFormed (hw : pool.WellFormed) (h : deallocate id pool = .ok u pool') :
    pool'.WellFormed := by
  simp only [deallocate, bind_ok, block_ok, get_ok, require_ok, when_ok, modify_ok,
    removeHashIndex_ok] at h
  obtain ⟨_, _, ⟨hlt, rfl, rfl⟩, _, _, ⟨rfl, rfl⟩, _, _, ⟨hr, rfl⟩, _, _, ⟨hu, rfl⟩, _, q, hq,
    _, _, rfl, _, _, hm, rfl⟩ := h
  obtain ⟨-, rfl⟩ := markFree_ok hm
  have hc := (hw.cached_iff id).mpr ⟨hu, hr⟩
  obtain rfl : { pool with cachedBlockIds := pool.cachedBlockIds.erase id } = q := by
    rcases hq with ⟨-, rfl⟩ | ⟨hno, -⟩
    · rfl
    · exact absurd ⟨(hw.cached_retained id hc).1, hc⟩ hno
  have hidx := @dropIndex_index _ _
    { pool with cachedBlockIds := pool.cachedBlockIds.erase id } hw.hash_sound id
  have hb : (pool.blocks id).forget = .initial := by
    simp [Block.forget, Block.initial, hr]
  refine hw.free hlt ?_ ?_ ?_ ?_ ?_ ?_ ?_ ?_
  all_goals simp only [markReturned, setBlock, dropIndex_blocks, dropIndex_used,
    dropIndex_freeSet, dropIndex_cached, dropIndex_freeIds, dropIndex_capacity,
    dropIndex_retain, hb]
  rw [hidx]
  rfl

theorem dropIndex_wellFormed (hw : pool.WellFormed) (id : ℕ) : (pool.dropIndex id).WellFormed := by
  have hidx := dropIndex_index hw.hash_sound id
  constructor
  · simpa using hw.used_lt
  · simpa using hw.free_iff
  · simpa using hw.free_queued
  · simpa using hw.unused_block
  · simpa using hw.cached_iff
  · simpa using hw.cached_nodup
  · simpa using hw.cached_retained
  · intro h x hx
    rw [hidx, indexWithout_some] at hx
    simpa using hw.index_sound h x hx.1

/-- Registering `NO_BLOCK_HASH` leaves the page out of the index. -/
theorem registerHash_none_wellFormed (hw : pool.WellFormed) {tokenIds : List ℕ}
    {mm : Option MmTokenHashes} (h : registerHash id none tokenIds mm pool = .ok u pool') :
    pool'.WellFormed := by
  simp only [registerHash, bind_ok, block_ok, get_ok, require_ok, modify_ok,
    removeHashIndex_ok] at h
  obtain ⟨_, _, ⟨-, rfl, rfl⟩, _, _, ⟨rfl, rfl⟩, _, _, ⟨⟨hu, hpos⟩, rfl⟩, _, _, rfl, _, _, rfl,
    rfl⟩ := h
  have hnc : id ∉ pool.cachedBlockIds := fun hc => by
    have := ((hw.cached_iff id).mp hc).2
    omega
  have hne : (pool.blocks id).refCount ≠ 0 := by omega
  have hidx := dropIndex_index hw.hash_sound id
  refine hw.rewrite (b := (pool.blocks id).update none tokenIds mm) hu
    (by simp [setBlock, enterIndex])
    (by simp [setBlock, enterIndex, Block.update, hne, List.erase_of_not_mem hnc])
    (fun h0 => absurd h0 hne) (fun h x hx => ?_) (by simp [setBlock, enterIndex])
    (by simp [setBlock, enterIndex]) (by simp [setBlock, enterIndex])
    (by simp [setBlock, enterIndex]) (by simp [setBlock, enterIndex])
  simp only [enterIndex, setBlock, hidx, indexWithout_some] at hx
  exact .inr ⟨hx.2, hx.1⟩

theorem Call.run_ok (c : Call H) (hw : pool.WellFormed) (hc : c.Allowed pool)
    (h : c.run pool = .ok u pool') : pool'.WellFormed ∧ QueueMoves pool pool' := by
  cases c with
  | allocate id =>
    simp only [run, bind_ok, pure_ok] at h
    obtain ⟨_, _, h, -, rfl⟩ := h
    obtain ⟨hw', hq⟩ := allocate_wellFormed hw h
    exact ⟨hw', .of_eq hq⟩
  | allocateFree =>
    simp only [run, bind_ok, pure_ok] at h
    obtain ⟨_, _, h, -, rfl⟩ := h
    exact ⟨(allocateFree_ok hw h).1, .leave (allocateFree_from hw h).queue⟩
  | allocateMany count =>
    simp only [run, bind_ok, pure_ok] at h
    obtain ⟨_, _, h, -, rfl⟩ := h
    obtain ⟨_, -, -, -, hq⟩ := allocateMany_split hw h
    exact ⟨(allocateMany_ok hw h).2.1, .leave hq⟩
  | retain id =>
    simp only [run, bind_ok, pure_ok] at h
    obtain ⟨_, _, h, -, rfl⟩ := h
    exact ⟨(retain_ok hw h).2.1, retain_queue h⟩
  | releaseReference id =>
    exact ⟨(releaseReference_ok hw h).1, releaseReference_queue hw h⟩
  | deallocate id => exact ⟨deallocate_wellFormed hw h, .leave (deallocate_queue h)⟩
  | registerHash id blockHash tokenIds mm =>
    cases blockHash with
    | none => exact ⟨registerHash_none_wellFormed hw h, registerHash_queue h⟩
    | some k => exact ⟨(registerHash_ok hw h).1, registerHash_queue h⟩
  | removeHashIndex id =>
    obtain rfl := removeHashIndex_ok.mp h
    exact ⟨dropIndex_wellFormed hw id, .of_eq (by simp)⟩
  | clearHash id => exact ⟨(clearHash_ok hw hc h).1, clearHash_queue h⟩

/-- Along every run the pool is well formed and its cached queue is the idle order. -/
theorem Reaches.inv {numBlocks : ℕ} {retain : Bool} {idled : List ℕ}
    (h : Reaches numBlocks retain pool idled) :
    pool.WellFormed ∧ idled = pool.cachedBlockIds := by
  induction h with
  | initial => exact ⟨initial_wellFormed numBlocks retain, rfl⟩
  | @call pool pool' idled c _ hc h ih =>
    obtain ⟨hw, rfl⟩ := ih
    obtain ⟨hw', hq⟩ := c.run_ok hw hc h
    exact ⟨hw', idleOrder_eq hw hw' hq⟩

/-- What the pool represents, in terms of the pages and of `idled`, the pages that are idle
with a hash in the order in which they went idle. -/
structure Represents (pool : GpuBlockPool H) (idled : List ℕ) : Prop where
  partition : pool.freeBlockIdSet ∪ pool.cachedBlockIds.toFinset ∪ pool.referenced =
    Finset.range pool.capacity
  free_cached : Disjoint pool.freeBlockIdSet pool.cachedBlockIds.toFinset
  free_referenced : Disjoint pool.freeBlockIdSet pool.referenced
  cached_referenced : Disjoint pool.cachedBlockIds.toFinset pool.referenced
  index_carried : ∀ h id, pool.hashToBlockId h = some id →
    id < pool.capacity ∧ (pool.blocks id).hash = some h
  index_once : ∀ h k id, pool.hashToBlockId h = some id → pool.hashToBlockId k = some id → h = k
  discoverable : ∀ id < pool.capacity, (pool.blocks id).refCount = 0 →
    (id ∈ pool.freeBlockIdSet ∧ id ∈ pool.freeBlockIds) ∨ id ∈ pool.cachedBlockIds
  allocateMany_iff : ∀ count, (∃ ids pool', allocateMany count pool = .ok ids pool') ↔
    count ≤ pool.freeCount
  allocateMany_pages : ∀ count ids pool', allocateMany count pool = .ok ids pool' →
    ids.length = count ∧ ids.Nodup ∧
      (∀ id ∈ ids, id < pool.capacity ∧ (pool.blocks id).refCount = 0) ∧
      ∃ fresh, ids = fresh ++ idled.take (count - pool.freeBlockIdSet.card) ∧
        fresh.length = min count pool.freeBlockIdSet.card ∧
        ∀ id ∈ fresh, id ∈ pool.freeBlockIdSet ∧ (pool.blocks id).hash = none
  allocateMany_referenced : ∀ count ids pool', allocateMany count pool = .ok ids pool' →
    (∀ id ∈ ids, pool'.blocks id = { Block.initial with refCount := 1 }) ∧
      (∀ id ∉ ids, pool'.blocks id = pool.blocks id) ∧
      ∀ h id, pool'.hashToBlockId h = some id ↔ pool.hashToBlockId h = some id ∧ id ∉ ids

theorem WellFormed.free_initial (hw : pool.WellFormed) (h : id ∈ pool.freeBlockIdSet) :
    pool.blocks id = .initial :=
  hw.unused_block id ((hw.free_iff id).mp h).2

theorem WellFormed.partition (hw : pool.WellFormed) :
    pool.freeBlockIdSet ∪ pool.cachedBlockIds.toFinset ∪ pool.referenced =
      Finset.range pool.capacity := by
  ext x
  simp only [Finset.mem_union, List.mem_toFinset, hw.free_iff, hw.cached_iff, referenced,
    Finset.mem_filter, Finset.mem_range]
  constructor
  · rintro ((⟨hx, -⟩ | ⟨hu, -⟩) | ⟨hx, -⟩)
    · exact hx
    · exact hw.used_lt x hu
    · exact hx
  · intro hx
    by_cases hu : x ∈ pool.usedBlockIds
    · by_cases hr : (pool.blocks x).refCount = 0
      · exact .inl (.inr ⟨hu, hr⟩)
      · exact .inr ⟨hx, by omega⟩
    · exact .inl (.inl ⟨hx, hu⟩)

theorem allocateMany_iff {count : ℕ} (hw : pool.WellFormed) :
    (∃ ids pool', allocateMany count pool = .ok ids pool') ↔ count ≤ pool.freeCount := by
  constructor
  · rintro ⟨ids, pool', h⟩
    simp only [allocateMany, bind_ok, get_ok, require_ok] at h
    obtain ⟨_, _, ⟨rfl, rfl⟩, _, _, ⟨hle, rfl⟩, -⟩ := h
    exact hle
  · exact allocateMany_succeeds hw

theorem WellFormed.represents (hw : pool.WellFormed) : pool.Represents pool.cachedBlockIds where
  partition := hw.partition
  free_cached := by
    rw [Finset.disjoint_left]
    intro x hx hc
    exact ((hw.free_iff x).mp hx).2 ((hw.cached_iff x).mp (List.mem_toFinset.mp hc)).1
  free_referenced := by
    rw [Finset.disjoint_left]
    intro x hx hr
    have hpos := (Finset.mem_filter.mp hr).2
    rw [hw.free_initial hx] at hpos
    exact absurd hpos (by simp [Block.initial])
  cached_referenced := by
    rw [Finset.disjoint_left]
    intro x hc hr
    have hpos := (Finset.mem_filter.mp hr).2
    have := ((hw.cached_iff x).mp (List.mem_toFinset.mp hc)).2
    omega
  index_carried := fun h id hi =>
    ⟨hw.used_lt id (hw.index_sound h id hi).1, hw.hash_sound h id hi⟩
  index_once := fun h k id hi hk => by
    have hh := hw.hash_sound h id hi
    rw [hw.hash_sound k id hk] at hh
    exact (Option.some.inj hh).symm
  discoverable := fun id hlt hr => by
    by_cases hc : id ∈ pool.cachedBlockIds
    · exact .inr hc
    · have hf := (hw.free_iff id).mpr ⟨hlt, hw.unused_of_unreferenced hr hc⟩
      exact .inl ⟨hf, hw.free_queued id hf⟩
  allocateMany_iff := fun _ => allocateMany_iff hw
  allocateMany_pages := fun count ids pool' h => by
    obtain ⟨hlen, -, hts⟩ := allocateMany_ok hw h
    obtain ⟨hn, hids⟩ := hts.fresh
    obtain ⟨fresh, heq, hfl, hff, -⟩ := allocateMany_split hw h
    refine ⟨hlen, hn, fun id hid => (hids id hid).symm, fresh, heq, hfl, fun id hid => ?_⟩
    exact ⟨hff id hid, by rw [hw.free_initial (hff id hid)]; rfl⟩
  allocateMany_referenced := fun count ids pool' h => by
    obtain ⟨-, -, hts⟩ := allocateMany_ok hw h
    refine ⟨fun id hid => ?_, fun id hid => ?_, fun k id => hts.index k id⟩
    · rw [hts.blocks id, if_pos hid]
      rfl
    · rw [hts.blocks id, if_neg hid]

/-- After any run of calls whose preconditions hold, the pool represents its pages: free,
cached and referenced pages partition the ids, the index is sound, no idle page is lost,
and `allocate_many` succeeds exactly within `free_count`, on free pages first and then on
the pages that went idle first, which it references once and takes out of the index. -/
theorem reaches_represents {numBlocks : ℕ} {retain : Bool} {idled : List ℕ}
    (h : Reaches numBlocks retain pool idled) : pool.Represents idled := by
  obtain ⟨hw, rfl⟩ := h.inv
  exact hw.represents

end Invariant

/-- Two pages under one hash, of which the second goes idle first. -/
theorem reaches_represents_idle : ∃ (pool : GpuBlockPool ℕ) (idled : List ℕ),
    idled = [1, 0] ∧ pool.Represents idled := by
  have h₀ : Reaches (H := ℕ) 2 true _ _ := .initial
  have h₁ := h₀.call (.allocateMany 2) trivial rfl
  have h₂ := h₁.call (.registerHash 0 (some 7) [1] none) trivial rfl
  have h₃ := h₂.call (.registerHash 1 (some 7) [1] none) trivial rfl
  have h₄ := h₃.call (.releaseReference 1) trivial rfl
  have h₅ := h₄.call (.releaseReference 0) trivial rfl
  exact ⟨_, _, by decide, reaches_represents h₅⟩

end PrismInfer.GpuBlockPool
