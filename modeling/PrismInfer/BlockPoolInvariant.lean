import PrismInfer.BlockPool

/-!
# Representation invariant of the block pools

Each pool operation is inverted once into what it does to the blocks, to the hash index
and to the set of used pages. Page accounting above the pool reads only these facts.
-/
set_option linter.unusedSectionVars false

namespace PrismInfer
open StateExcept

variable {H : Type} [DecidableEq H]

namespace GpuBlockPool

/-- Free and used pages partition the page ids, unused blocks carry nothing, cached pages
are the unreferenced used ones and keep a hash, and the index maps a hash only to a used
page that carries it. -/
structure WellFormed (pool : GpuBlockPool H) : Prop where
  used_lt : ∀ id ∈ pool.usedBlockIds, id < pool.capacity
  free_iff : ∀ id, id ∈ pool.freeBlockIdSet ↔ id < pool.capacity ∧ id ∉ pool.usedBlockIds
  free_queued : ∀ id ∈ pool.freeBlockIdSet, id ∈ pool.freeBlockIds
  unused_block : ∀ id, id ∉ pool.usedBlockIds → pool.blocks id = .initial
  cached_iff : ∀ id, id ∈ pool.cachedBlockIds ↔
    id ∈ pool.usedBlockIds ∧ (pool.blocks id).refCount = 0
  cached_nodup : pool.cachedBlockIds.Nodup
  cached_retained : ∀ id ∈ pool.cachedBlockIds,
    pool.retainHashesOnFree = true ∧ (pool.blocks id).hash ≠ none
  index_sound : ∀ h id, pool.hashToBlockId h = some id →
    id ∈ pool.usedBlockIds ∧ (pool.blocks id).hash = some h

/-- The index after page `id` lost its entry. -/
def indexWithout (pool : GpuBlockPool H) (id : ℕ) (h : H) : Option ℕ :=
  if pool.hashToBlockId h = some id then none else pool.hashToBlockId h

section dropIndex

variable (pool : GpuBlockPool H) (id : ℕ)

@[simp] theorem dropIndex_blocks : (pool.dropIndex id).blocks = pool.blocks := by
  simp only [dropIndex]
  split <;> [rfl; (split <;> rfl)]

@[simp] theorem dropIndex_capacity : (pool.dropIndex id).capacity = pool.capacity := by
  simp only [dropIndex]
  split <;> [rfl; (split <;> rfl)]

@[simp] theorem dropIndex_retain :
    (pool.dropIndex id).retainHashesOnFree = pool.retainHashesOnFree := by
  simp only [dropIndex]
  split <;> [rfl; (split <;> rfl)]

@[simp] theorem dropIndex_freeIds : (pool.dropIndex id).freeBlockIds = pool.freeBlockIds := by
  simp only [dropIndex]
  split <;> [rfl; (split <;> rfl)]

@[simp] theorem dropIndex_freeSet :
    (pool.dropIndex id).freeBlockIdSet = pool.freeBlockIdSet := by
  simp only [dropIndex]
  split <;> [rfl; (split <;> rfl)]

@[simp] theorem dropIndex_used : (pool.dropIndex id).usedBlockIds = pool.usedBlockIds := by
  simp only [dropIndex]
  split <;> [rfl; (split <;> rfl)]

@[simp] theorem dropIndex_cached :
    (pool.dropIndex id).cachedBlockIds = pool.cachedBlockIds := by
  simp only [dropIndex]
  split <;> [rfl; (split <;> rfl)]

/-- A page is indexed at most under its own hash, so dropping that entry drops them all. -/
theorem dropIndex_index {pool : GpuBlockPool H}
    (hsound : ∀ h id, pool.hashToBlockId h = some id → (pool.blocks id).hash = some h) (id : ℕ) :
    (pool.dropIndex id).hashToBlockId = pool.indexWithout id := by
  funext h
  simp only [dropIndex, indexWithout]
  by_cases hi : pool.hashToBlockId h = some id
  · simp [hsound h id hi, hi]
  · rw [if_neg hi]
    split
    · rfl
    · next k hk =>
      split
      · next hk' =>
        have hne : h ≠ k := by
          rintro rfl
          exact hi hk'
        simp [hne]
      · rfl

end dropIndex

section Spec

variable {pool pool' : GpuBlockPool H} {id r : ℕ} {u : Unit}

/-- What taking a page from the free queue or from the cached queue does. -/
structure Took (pool : GpuBlockPool H) (id : ℕ) (pool' : GpuBlockPool H) : Prop where
  unreferenced : (pool.blocks id).refCount = 0
  lt : id < pool.capacity
  blocks : pool'.blocks = Function.update pool.blocks id (pool.blocks id).activate
  index : pool'.hashToBlockId = pool.indexWithout id
  used : pool'.usedBlockIds = insert id pool.usedBlockIds
  capacity : pool'.capacity = pool.capacity
  retain : pool'.retainHashesOnFree = pool.retainHashesOnFree

/-- What adding a reference does. -/
structure Shared (pool : GpuBlockPool H) (id : ℕ) (pool' : GpuBlockPool H) : Prop where
  owned : id ∈ pool.usedBlockIds
  blocks : pool'.blocks = Function.update pool.blocks id
    { pool.blocks id with refCount := (pool.blocks id).refCount + 1 }
  index : pool'.hashToBlockId = pool.hashToBlockId
  used : pool'.usedBlockIds = pool.usedBlockIds
  capacity : pool'.capacity = pool.capacity
  retain : pool'.retainHashesOnFree = pool.retainHashesOnFree

/-- The release of the last reference frees the page, unless its hash is retained. -/
def FreedBy (pool : GpuBlockPool H) (id : ℕ) : Prop :=
  (pool.blocks id).refCount = 1 ∧
    ¬ (pool.retainHashesOnFree = true ∧ (pool.blocks id).hash ≠ none)

instance (pool : GpuBlockPool H) (id : ℕ) : Decidable (pool.FreedBy id) :=
  inferInstanceAs (Decidable (_ ∧ ¬ _))

/-- What releasing a reference does. -/
structure Released (pool : GpuBlockPool H) (id : ℕ) (pool' : GpuBlockPool H) : Prop where
  held : 0 < (pool.blocks id).refCount
  blocks : pool'.blocks = Function.update pool.blocks id
    (if pool.FreedBy id then .initial
      else { pool.blocks id with refCount := (pool.blocks id).refCount - 1 })
  index : pool'.hashToBlockId =
    if pool.FreedBy id then pool.indexWithout id else pool.hashToBlockId
  used : pool'.usedBlockIds =
    if pool.FreedBy id then pool.usedBlockIds.erase id else pool.usedBlockIds
  capacity : pool'.capacity = pool.capacity
  retain : pool'.retainHashesOnFree = pool.retainHashesOnFree

/-- What forgetting the hash of a page does. -/
structure Cleared (pool : GpuBlockPool H) (id : ℕ) (pool' : GpuBlockPool H) : Prop where
  blocks : pool'.blocks = Function.update pool.blocks id (pool.blocks id).forget
  index : pool'.hashToBlockId = pool.indexWithout id
  used : pool'.usedBlockIds = pool.usedBlockIds
  capacity : pool'.capacity = pool.capacity
  retain : pool'.retainHashesOnFree = pool.retainHashesOnFree

/-- What entering a page into the hash index does. -/
structure Registered (pool : GpuBlockPool H) (id : ℕ) (h : H) (tokenIds : List ℕ)
    (mm : Option MmTokenHashes) (pool' : GpuBlockPool H) : Prop where
  held : 0 < (pool.blocks id).refCount
  blocks : pool'.blocks = Function.update pool.blocks id
    ((pool.blocks id).update (some h) tokenIds mm)
  index : pool'.hashToBlockId = Function.update (pool.indexWithout id) h (some id)
  used : pool'.usedBlockIds = pool.usedBlockIds
  capacity : pool'.capacity = pool.capacity
  retain : pool'.retainHashesOnFree = pool.retainHashesOnFree

@[simp] theorem block_ok {b : Block H} :
    block id pool = .ok b pool' ↔ id < pool.capacity ∧ pool.blocks id = b ∧ pool = pool' := by
  simp only [block, bind_ok, get_ok, require_ok, pure_ok]
  constructor
  · rintro ⟨_, _, ⟨rfl, rfl⟩, _, _, ⟨hid, rfl⟩, rfl, rfl⟩
    exact ⟨hid, rfl, rfl⟩
  · rintro ⟨hid, rfl, rfl⟩
    exact ⟨pool, pool, ⟨rfl, rfl⟩, (), pool, ⟨hid, rfl⟩, rfl, rfl⟩

theorem WellFormed.used_of_held (hw : pool.WellFormed) (h : 0 < (pool.blocks id).refCount) :
    id ∈ pool.usedBlockIds := by
  by_contra hu
  rw [hw.unused_block id hu] at h
  exact absurd h (by simp [Block.initial])

theorem WellFormed.hash_sound (hw : pool.WellFormed) (h : H) (id : ℕ)
    (hi : pool.hashToBlockId h = some id) : (pool.blocks id).hash = some h :=
  (hw.index_sound h id hi).2

theorem indexWithout_some {pool : GpuBlockPool H} {id x : ℕ} {h : H} :
    pool.indexWithout id h = some x ↔ pool.hashToBlockId h = some x ∧ x ≠ id := by
  simp only [indexWithout]
  by_cases hi : pool.hashToBlockId h = some id
  · simp only [hi, if_true]
    constructor
    · intro hc
      exact absurd hc (by simp)
    · rintro ⟨hx, hne⟩
      exact absurd (Option.some.inj hx).symm hne
  · rw [if_neg hi]
    constructor
    · intro hx
      exact ⟨hx, by rintro rfl; exact hi hx⟩
    · exact And.left

theorem WellFormed.unused_of_unreferenced (hw : pool.WellFormed)
    (h : (pool.blocks id).refCount = 0) (hc : id ∉ pool.cachedBlockIds) :
    id ∉ pool.usedBlockIds :=
  fun hu => hc ((hw.cached_iff id).mpr ⟨hu, h⟩)

theorem removeHashIndex_ok :
    removeHashIndex id pool = .ok u pool' ↔ pool.dropIndex id = pool' := by
  simp [removeHashIndex]

theorem activate_ok (h : activate id pool = .ok u pool') :
    (pool.blocks id).refCount = 0 ∧ pool' = pool.setBlock id (pool.blocks id).activate := by
  simp only [activate, bind_ok, get_ok, require_ok, modify_ok] at h
  obtain ⟨_, _, ⟨rfl, rfl⟩, _, _, ⟨hr, rfl⟩, rfl⟩ := h
  exact ⟨hr, rfl⟩

theorem markFree_ok (h : markFree id pool = .ok u pool') :
    (pool.blocks id).refCount = 0 ∧ pool' = pool.setBlock id (pool.blocks id).forget := by
  simp only [markFree, bind_ok, get_ok, require_ok, modify_ok] at h
  obtain ⟨_, _, ⟨rfl, rfl⟩, _, _, ⟨hr, rfl⟩, rfl⟩ := h
  exact ⟨hr, rfl⟩

theorem allocate_ok (h : allocate id pool = .ok r pool') :
    r = id ∧ id < pool.capacity ∧ id ∈ pool.freeBlockIdSet ∧ (pool.blocks id).refCount = 0 ∧
      pool' = ((pool.dropIndex id).setBlock id (pool.blocks id).activate).markUsed id := by
  simp only [allocate, bind_ok, block_ok, get_ok, require_ok, pure_ok, modify_ok,
    removeHashIndex_ok] at h
  obtain ⟨_, _, ⟨hlt, rfl, rfl⟩, _, _, ⟨rfl, rfl⟩, _, _, ⟨hf, rfl⟩, _, _, ⟨hr, rfl⟩, _, _, rfl,
    _, _, ha, _, _, rfl, rfl, rfl⟩ := h
  obtain ⟨-, rfl⟩ := activate_ok ha
  exact ⟨rfl, hlt, hf, hr, by rw [dropIndex_blocks]⟩

theorem popFree_some {free : Finset ℕ} {ids rest : List ℕ}
    (h : popFree free ids = some (id, rest)) :
    id ∈ free ∧ ∀ x ∈ free, x ∈ ids → x = id ∨ x ∈ rest := by
  induction ids with
  | nil => simp [popFree] at h
  | cons a ids ih =>
    simp only [popFree] at h
    split at h
    · next ha =>
      obtain ⟨rfl, rfl⟩ : a = id ∧ ids = rest := by simpa using h
      exact ⟨ha, fun x _ hx => List.mem_cons.mp hx⟩
    · next ha =>
      obtain ⟨hid, hrest⟩ := ih h
      refine ⟨hid, fun x hx hxs => hrest x hx ?_⟩
      rcases List.mem_cons.mp hxs with rfl | hxs
      · exact absurd hx ha
      · exact hxs

theorem popFree_none {free : Finset ℕ} {ids : List ℕ} (h : popFree free ids = none) :
    ∀ x ∈ ids, x ∉ free := by
  induction ids with
  | nil => simp
  | cons a ids ih =>
    simp only [popFree] at h
    split at h
    · exact absurd h (by simp)
    · next ha =>
      intro x hx
      rcases List.mem_cons.mp hx with rfl | hx
      · exact ha
      · exact ih h x hx

/-- Taking a page keeps the invariant: from the free queue, or from the cached queue, where
it is used already. -/
theorem WellFormed.take (hw : pool.WellFormed) (ht : Took pool id pool')
    (hfree : pool'.freeBlockIdSet = pool.freeBlockIdSet.erase id)
    (hcached : pool'.cachedBlockIds = pool.cachedBlockIds.erase id)
    (hqueue : ∀ x ∈ pool.freeBlockIdSet, x ≠ id → x ∈ pool'.freeBlockIds) :
    pool'.WellFormed := by
  constructor
  · intro x hx
    rw [ht.used] at hx
    rw [ht.capacity]
    rcases Finset.mem_insert.mp hx with rfl | hx
    · exact ht.lt
    · exact hw.used_lt x hx
  · intro x
    rw [hfree, ht.capacity, ht.used, Finset.mem_erase, hw.free_iff x, Finset.mem_insert]
    tauto
  · intro x hx
    rw [hfree, Finset.mem_erase] at hx
    exact hqueue x hx.2 hx.1
  · intro x hx
    rw [ht.used, Finset.mem_insert, not_or] at hx
    rw [ht.blocks, Function.update_of_ne hx.1]
    exact hw.unused_block x hx.2
  · intro x
    rw [hcached, hw.cached_nodup.mem_erase_iff, hw.cached_iff x, ht.used, ht.blocks,
      Finset.mem_insert]
    by_cases hxi : x = id
    · subst hxi
      simp [Block.activate]
    · simp [hxi]
  · rw [hcached]
    exact hw.cached_nodup.erase id
  · intro x hx
    rw [hcached, hw.cached_nodup.mem_erase_iff] at hx
    rw [ht.retain, ht.blocks, Function.update_of_ne hx.1]
    exact hw.cached_retained x hx.2
  · intro h x hx
    rw [ht.index, indexWithout_some] at hx
    rw [ht.used, ht.blocks, Function.update_of_ne hx.2]
    exact ⟨Finset.mem_insert_of_mem (hw.index_sound h x hx.1).1, (hw.index_sound h x hx.1).2⟩

/-- Freeing a page keeps the invariant. -/
theorem WellFormed.free (hw : pool.WellFormed) (hlt : id < pool.capacity)
    (hblocks : pool'.blocks = Function.update pool.blocks id .initial)
    (hindex : pool'.hashToBlockId = pool.indexWithout id)
    (hused : pool'.usedBlockIds = pool.usedBlockIds.erase id)
    (hfree : pool'.freeBlockIdSet = insert id pool.freeBlockIdSet)
    (hcached : pool'.cachedBlockIds = pool.cachedBlockIds.erase id)
    (hqueue : pool'.freeBlockIds = pool.freeBlockIds ++ [id])
    (hcapacity : pool'.capacity = pool.capacity)
    (hretain : pool'.retainHashesOnFree = pool.retainHashesOnFree) : pool'.WellFormed := by
  constructor
  · intro x hx
    rw [hused, Finset.mem_erase] at hx
    rw [hcapacity]
    exact hw.used_lt x hx.2
  · intro x
    rw [hfree, hcapacity, hused, Finset.mem_insert, hw.free_iff x, Finset.mem_erase]
    constructor
    · rintro (rfl | ⟨hx, hxu⟩)
      · exact ⟨hlt, fun h => h.1 rfl⟩
      · exact ⟨hx, fun h => hxu h.2⟩
    · rintro ⟨hx, hxu⟩
      by_cases hxi : x = id
      · exact .inl hxi
      · exact .inr ⟨hx, fun h => hxu ⟨hxi, h⟩⟩
  · intro x hx
    rw [hqueue, List.mem_append, List.mem_singleton]
    rw [hfree, Finset.mem_insert] at hx
    rcases hx with rfl | hx
    · exact .inr rfl
    · exact .inl (hw.free_queued x hx)
  · intro x hx
    rw [hused, Finset.mem_erase, not_and] at hx
    rw [hblocks]
    by_cases hxi : x = id
    · subst hxi
      simp
    · rw [Function.update_of_ne hxi]
      exact hw.unused_block x (hx hxi)
  · intro x
    rw [hcached, hw.cached_nodup.mem_erase_iff, hw.cached_iff x, hused, hblocks,
      Finset.mem_erase]
    by_cases hxi : x = id
    · subst hxi
      simp
    · simp [hxi]
  · rw [hcached]
    exact hw.cached_nodup.erase id
  · intro x hx
    rw [hcached, hw.cached_nodup.mem_erase_iff] at hx
    rw [hretain, hblocks, Function.update_of_ne hx.1]
    exact hw.cached_retained x hx.2
  · intro h x hx
    rw [hindex, indexWithout_some] at hx
    rw [hused, hblocks, Function.update_of_ne hx.2, Finset.mem_erase]
    exact ⟨⟨hx.2, (hw.index_sound h x hx.1).1⟩, (hw.index_sound h x hx.1).2⟩

/-- Changing the content of one used page, with an index that follows it, keeps the
invariant. Where the page is cached it must keep a hash. -/
theorem WellFormed.rewrite (hw : pool.WellFormed) (hu : id ∈ pool.usedBlockIds) {b : Block H}
    (hblocks : pool'.blocks = Function.update pool.blocks id b)
    (hcached : pool'.cachedBlockIds =
      if b.refCount = 0 then (pool.cachedBlockIds.erase id) ++ [id]
      else pool.cachedBlockIds.erase id)
    (hkeep : b.refCount = 0 → pool.retainHashesOnFree = true ∧ b.hash ≠ none)
    (hindex : ∀ h x, pool'.hashToBlockId h = some x →
      (x = id ∧ b.hash = some h) ∨ (x ≠ id ∧ pool.hashToBlockId h = some x))
    (hused : pool'.usedBlockIds = pool.usedBlockIds)
    (hfree : pool'.freeBlockIdSet = pool.freeBlockIdSet)
    (hqueue : pool'.freeBlockIds = pool.freeBlockIds)
    (hcapacity : pool'.capacity = pool.capacity)
    (hretain : pool'.retainHashesOnFree = pool.retainHashesOnFree) : pool'.WellFormed := by
  have hmem : ∀ x, x ∈ pool'.cachedBlockIds ↔
      (x = id ∧ b.refCount = 0) ∨ (x ≠ id ∧ x ∈ pool.cachedBlockIds) := by
    intro x
    rw [hcached]
    by_cases hb : b.refCount = 0
    · simp [hb, hw.cached_nodup.mem_erase_iff]
      tauto
    · simp [hb, hw.cached_nodup.mem_erase_iff]
  constructor
  · rw [hused, hcapacity]
    exact hw.used_lt
  · rw [hfree, hcapacity, hused]
    exact hw.free_iff
  · rw [hfree, hqueue]
    exact hw.free_queued
  · intro x hx
    rw [hused] at hx
    rw [hblocks, Function.update_of_ne (by rintro rfl; exact hx hu)]
    exact hw.unused_block x hx
  · intro x
    rw [hmem, hused, hblocks, hw.cached_iff x]
    by_cases hxi : x = id
    · subst hxi
      simp [hu]
    · simp [hxi]
  · rw [hcached]
    split
    · exact List.nodup_append.mpr ⟨hw.cached_nodup.erase id, by simp, fun a ha c hc hac =>
        (hw.cached_nodup.mem_erase_iff.mp ha).1 (hac.trans (by simpa using hc))⟩
    · exact hw.cached_nodup.erase id
  · intro x hx
    rw [hretain, hblocks]
    rcases (hmem x).mp hx with ⟨rfl, hb⟩ | ⟨hxi, hx⟩
    · simpa using hkeep hb
    · rw [Function.update_of_ne hxi]
      exact hw.cached_retained x hx
  · intro h x hx
    rw [hused, hblocks]
    rcases hindex h x hx with ⟨rfl, hb⟩ | ⟨hxi, hx⟩
    · simpa using ⟨hu, hb⟩
    · rw [Function.update_of_ne hxi]
      exact hw.index_sound h x hx

/-! ### Inversion of the operations -/

theorem retain_ok (hw : pool.WellFormed) (h : retain id pool = .ok r pool') :
    r = id ∧ pool'.WellFormed ∧ Shared pool id pool' := by
  simp only [retain, bind_ok, block_ok, get_ok, require_ok, when_ok, modify_ok, pure_ok] at h
  obtain ⟨_, _, ⟨hlt, rfl, rfl⟩, _, _, ⟨rfl, rfl⟩, _, _, ⟨hu, rfl⟩, _, q, hq, _, _, rfl,
    rfl, rfl⟩ := h
  have hqp : q = { pool with cachedBlockIds := pool.cachedBlockIds.erase id } := by
    rcases hq with ⟨-, _, _, ⟨-, rfl⟩, rfl⟩ | ⟨hr, rfl⟩
    · rfl
    · have hnc : id ∉ pool.cachedBlockIds := fun hc => hr ((hw.cached_iff id).mp hc).2
      rw [List.erase_of_not_mem hnc]
  subst hqp
  have hs : Shared pool id (setBlock { pool with cachedBlockIds := pool.cachedBlockIds.erase id }
      id { pool.blocks id with refCount := (pool.blocks id).refCount + 1 }) :=
    ⟨hu, rfl, rfl, rfl, rfl, rfl⟩
  refine ⟨rfl, hw.rewrite hu hs.blocks (by simp [setBlock])
    (fun h0 => absurd h0 (by simp)) (fun h x hx => ?_) rfl rfl rfl rfl rfl, hs⟩
  by_cases hxi : x = id
  · subst hxi
    exact .inl ⟨rfl, hw.hash_sound h x hx⟩
  · exact .inr ⟨hxi, hx⟩

theorem releaseReference_ok (hw : pool.WellFormed)
    (h : releaseReference id pool = .ok u pool') :
    pool'.WellFormed ∧ Released pool id pool' := by
  simp only [releaseReference, bind_ok, block_ok, get_ok, require_ok, modify_ok] at h
  obtain ⟨_, _, ⟨hlt, rfl, rfl⟩, _, _, ⟨rfl, rfl⟩, _, _, ⟨⟨hu, hpos⟩, rfl⟩, _, _, rfl, h⟩ := h
  have hnc : id ∉ pool.cachedBlockIds := fun hc => by
    have := ((hw.cached_iff id).mp hc).2
    omega
  by_cases hone : (pool.blocks id).refCount = 1
  · rw [if_pos hone] at h
    by_cases hkeep : pool.retainHashesOnFree = true ∧ (pool.blocks id).hash ≠ none
    · -- the hashed page joins the cached queue
      rw [if_pos hkeep, modify_ok] at h
      have hnf : ¬ pool.FreedBy id := fun hf => hf.2 hkeep
      subst h
      refine ⟨hw.rewrite hu rfl
        (by simp [setBlock, hone, List.erase_of_not_mem hnc]) (fun _ => hkeep)
        (fun h x hx => ?_) rfl rfl rfl rfl rfl, hpos, by simp [setBlock, hnf],
        by simp [setBlock, hnf], by simp [setBlock, hnf], rfl, rfl⟩
      by_cases hxi : x = id
      · subst hxi
        exact .inl ⟨rfl, hw.hash_sound h x hx⟩
      · exact .inr ⟨hxi, hx⟩
    · -- the page is freed
      rw [if_neg hkeep] at h
      have hf : pool.FreedBy id := ⟨hone, hkeep⟩
      simp only [deallocate, bind_ok, block_ok, get_ok, require_ok, when_ok, modify_ok,
        removeHashIndex_ok] at h
      obtain ⟨_, _, ⟨-, rfl, rfl⟩, _, _, ⟨rfl, rfl⟩, _, _, ⟨-, rfl⟩, _, _, ⟨-, rfl⟩, _, q, hq,
        _, _, rfl, _, _, hm, rfl⟩ := h
      obtain ⟨-, rfl⟩ := markFree_ok hm
      have hqp : q = setBlock pool id { pool.blocks id with refCount := 0 } := by
        rcases hq with ⟨hc, -⟩ | ⟨-, rfl⟩
        · exact absurd hc.2 (by simpa [setBlock] using hnc)
        · simp [hone]
      subst hqp
      have hsound : ∀ h x, (pool.setBlock id { pool.blocks id with refCount := 0 }).hashToBlockId h
          = some x → ((pool.setBlock id { pool.blocks id with refCount := 0 }).blocks x).hash =
            some h := by
        intro h x hx
        by_cases hxi : x = id
        · subst hxi
          simpa [setBlock] using hw.hash_sound h x hx
        · simpa [setBlock, Function.update_of_ne hxi] using hw.hash_sound h x hx
      have hidx := dropIndex_index hsound id
      have hb : ({ pool.blocks id with refCount := 0 } : Block H).forget = .initial := rfl
      refine ⟨hw.free hlt ?_ ?_ ?_ ?_ ?_ ?_ ?_ ?_, hpos, ?_, ?_, ?_, ?_, ?_⟩
      · simp [markReturned, setBlock, hb]
      · simp only [markReturned, setBlock] at hidx ⊢
        rw [hidx]
        rfl
      · simp [markReturned, setBlock]
      · simp [markReturned, setBlock]
      · simp [markReturned, setBlock, List.erase_of_not_mem hnc]
      · simp [markReturned, setBlock]
      · simp [markReturned, setBlock]
      · simp [markReturned, setBlock]
      · simp [markReturned, setBlock, hb, hf]
      · simp only [markReturned, setBlock] at hidx ⊢
        rw [hidx, if_pos hf]
        rfl
      · simp [markReturned, setBlock, hf]
      · simp [markReturned, setBlock]
      · simp [markReturned, setBlock]
  · rw [if_neg hone, pure_ok] at h
    obtain ⟨-, rfl⟩ := h
    have hnf : ¬ pool.FreedBy id := fun hf => hone hf.1
    have hne : (pool.blocks id).refCount - 1 ≠ 0 := by omega
    refine ⟨hw.rewrite hu rfl
      (by simp [setBlock, hne, List.erase_of_not_mem hnc]) (fun h0 => absurd h0 hne)
      (fun h x hx => ?_) rfl rfl rfl rfl rfl, hpos, by simp [setBlock, hnf],
      by simp [setBlock, hnf], by simp [setBlock, hnf], rfl, rfl⟩
    by_cases hxi : x = id
    · subst hxi
      exact .inl ⟨rfl, hw.hash_sound h x hx⟩
    · exact .inr ⟨hxi, hx⟩

theorem clearHash_ok (hw : pool.WellFormed) (hpos : 0 < (pool.blocks id).refCount)
    (h : clearHash id pool = .ok u pool') : pool'.WellFormed ∧ Cleared pool id pool' := by
  simp only [clearHash, bind_ok, block_ok, modify_ok, removeHashIndex_ok] at h
  obtain ⟨_, _, ⟨hlt, rfl, rfl⟩, _, _, rfl, rfl⟩ := h
  have hnc : id ∉ pool.cachedBlockIds := fun hc => by
    have := ((hw.cached_iff id).mp hc).2
    omega
  have hidx := dropIndex_index hw.hash_sound id
  have hcl : Cleared pool id ((pool.dropIndex id).setBlock id (pool.blocks id).forget) :=
    ⟨by simp [setBlock], by simp [setBlock, hidx], by simp [setBlock], by simp [setBlock],
      by simp [setBlock]⟩
  have hne : (pool.blocks id).refCount ≠ 0 := by omega
  rw [dropIndex_blocks]
  refine ⟨hw.rewrite (hw.used_of_held hpos) hcl.blocks
    (by simp [setBlock, Block.forget, hne, List.erase_of_not_mem hnc])
    (fun h0 => absurd h0 hne) (fun h x hx => ?_) hcl.used (by simp [setBlock])
    (by simp [setBlock]) hcl.capacity hcl.retain, hcl⟩
  rw [hcl.index, indexWithout_some] at hx
  exact .inr ⟨hx.2, hx.1⟩

theorem registerHash_ok (hw : pool.WellFormed) {k : H} {tokenIds : List ℕ}
    {mm : Option MmTokenHashes} (h : registerHash id (some k) tokenIds mm pool = .ok u pool') :
    pool'.WellFormed ∧ Registered pool id k tokenIds mm pool' := by
  simp only [registerHash, bind_ok, block_ok, get_ok, require_ok, modify_ok,
    removeHashIndex_ok] at h
  obtain ⟨_, _, ⟨hlt, rfl, rfl⟩, _, _, ⟨rfl, rfl⟩, _, _, ⟨⟨hu, hpos⟩, rfl⟩, _, _, rfl, _, _, rfl,
    rfl⟩ := h
  have hnc : id ∉ pool.cachedBlockIds := fun hc => by
    have := ((hw.cached_iff id).mp hc).2
    omega
  have hne : (pool.blocks id).refCount ≠ 0 := by omega
  have hidx := dropIndex_index hw.hash_sound id
  have hreg : Registered pool id k tokenIds mm
      (((pool.dropIndex id).setBlock id (((pool.dropIndex id).blocks id).update (some k) tokenIds
        mm)).enterIndex id (some k)) :=
    ⟨hpos, by simp [setBlock, enterIndex], by simp [setBlock, enterIndex, hidx],
      by simp [setBlock, enterIndex], by simp [setBlock, enterIndex],
      by simp [setBlock, enterIndex]⟩
  refine ⟨hw.rewrite hu hreg.blocks
    (by simp [setBlock, enterIndex, Block.update, hne, List.erase_of_not_mem hnc])
    (fun h0 => absurd h0 hne) (fun h x hx => ?_) hreg.used (by simp [setBlock, enterIndex])
    (by simp [setBlock, enterIndex]) hreg.capacity hreg.retain, hreg⟩
  rw [hreg.index] at hx
  by_cases hhk : h = k
  · subst hhk
    rw [Function.update_self] at hx
    obtain rfl := Option.some.inj hx
    exact .inl ⟨rfl, rfl⟩
  · rw [Function.update_of_ne hhk, indexWithout_some] at hx
    exact .inr ⟨hx.2, hx.1⟩

/-- Evicting the oldest cached page frees it. -/
theorem evictOldestCached_ok (hw : pool.WellFormed)
    (h : evictOldestCached pool = .ok (some id) pool') :
    pool'.WellFormed ∧ (∃ rest, pool.cachedBlockIds = id :: rest ∧ pool'.cachedBlockIds = rest) ∧
      pool'.blocks = Function.update pool.blocks id .initial ∧
      pool'.hashToBlockId = pool.indexWithout id ∧
      pool'.usedBlockIds = pool.usedBlockIds.erase id ∧
      pool'.freeBlockIdSet = insert id pool.freeBlockIdSet ∧
      pool'.capacity = pool.capacity ∧ pool'.retainHashesOnFree = pool.retainHashesOnFree := by
  simp only [evictOldestCached, bind_ok, get_ok] at h
  obtain ⟨_, _, ⟨rfl, rfl⟩, h⟩ := h
  cases hcached : pool.cachedBlockIds with
  | nil => simp [hcached] at h
  | cons first rest =>
    simp only [hcached, bind_ok, modify_ok, block_ok, require_ok, removeHashIndex_ok, pure_ok] at h
    obtain ⟨_, _, rfl, _, _, ⟨hlt, rfl, rfl⟩, _, _, ⟨hr, rfl⟩, _, _, rfl, _, _, hm, _, _, rfl,
      hid, rfl⟩ := h
    obtain rfl := Option.some.inj hid
    obtain ⟨-, rfl⟩ := markFree_ok hm
    have hidx := @dropIndex_index _ _ { pool with cachedBlockIds := rest } hw.hash_sound first
    have hr' : (pool.blocks first).refCount = 0 := hr
    have hb : (pool.blocks first).forget = .initial := by
      simp [Block.forget, Block.initial, hr']
    have hne : first ∉ rest := (List.nodup_cons.mp (hcached ▸ hw.cached_nodup)).1
    refine ⟨hw.free hlt ?_ ?_ ?_ ?_ ?_ ?_ ?_ ?_, ⟨rest, rfl, ?_⟩, ?_, ?_, ?_, ?_, ?_, ?_⟩
    all_goals simp only [markReturned, setBlock, dropIndex_blocks, dropIndex_used,
      dropIndex_freeSet, dropIndex_cached, dropIndex_freeIds, dropIndex_capacity,
      dropIndex_retain, hb, hcached, List.erase_cons_head]
    all_goals (rw [hidx]; rfl)

theorem allocate_took (hw : pool.WellFormed) (h : allocate id pool = .ok r pool') :
    r = id ∧ Took pool id pool' ∧ id ∈ pool.freeBlockIdSet ∧
      pool'.freeBlockIdSet = pool.freeBlockIdSet.erase id ∧
      pool'.cachedBlockIds = pool.cachedBlockIds ∧ pool'.freeBlockIds = pool.freeBlockIds := by
  obtain ⟨rfl, hlt, hf, hr, rfl⟩ := allocate_ok h
  have hidx := dropIndex_index hw.hash_sound r
  exact ⟨rfl, ⟨hr, hlt, by simp [markUsed, setBlock], by simp [markUsed, setBlock, hidx],
    by simp [markUsed, setBlock], by simp [markUsed, setBlock], by simp [markUsed, setBlock]⟩, hf,
    by simp [markUsed, setBlock], by simp [markUsed, setBlock], by simp [markUsed, setBlock]⟩

theorem allocateFree_ok (hw : pool.WellFormed) (h : allocateFree pool = .ok id pool') :
    pool'.WellFormed ∧ Took pool id pool' := by
  simp only [allocateFree, bind_ok, get_ok] at h
  obtain ⟨_, _, ⟨rfl, rfl⟩, h⟩ := h
  cases hpop : popFree pool.freeBlockIdSet pool.freeBlockIds with
  | some found =>
    obtain ⟨first, rest⟩ := found
    simp only [hpop, bind_ok, modify_ok] at h
    obtain ⟨_, _, rfl, h⟩ := h
    obtain ⟨rfl, hlt, hf, hr, rfl⟩ := allocate_ok h
    obtain ⟨-, hrest⟩ := popFree_some hpop
    have hidx := @dropIndex_index _ _ { pool with freeBlockIds := rest } hw.hash_sound id
    have ht : Took pool id (((dropIndex { pool with freeBlockIds := rest } id).setBlock id
        (pool.blocks id).activate).markUsed id) :=
      ⟨hr, hlt, by simp [markUsed, setBlock], by simp only [markUsed, setBlock, hidx]; rfl,
        by simp [markUsed, setBlock], by simp [markUsed, setBlock], by simp [markUsed, setBlock]⟩
    have hnc : id ∉ pool.cachedBlockIds := fun hc =>
      ((hw.free_iff id).mp hf).2 ((hw.cached_iff id).mp hc).1
    refine ⟨hw.take ht (by simp [markUsed, setBlock])
      (by simp [markUsed, setBlock, List.erase_of_not_mem hnc]) (fun x hx hxi => ?_), ht⟩
    simp only [markUsed, setBlock, dropIndex_freeIds]
    exact (hrest x hx (hw.free_queued x hx)).resolve_left hxi
  | none =>
    simp only [hpop, bind_ok, modify_ok] at h
    obtain ⟨_, _, rfl, h⟩ := h
    have hempty : ∀ x ∈ pool.freeBlockIdSet, False := fun x hx =>
      popFree_none hpop x (hw.free_queued x hx) hx
    have hw₁ : ({ pool with freeBlockIds := [] } : GpuBlockPool H).WellFormed :=
      { hw with free_queued := fun x hx => (hempty x hx).elim }
    split at h
    · simp only [bind_ok] at h
      obtain ⟨found, q, he, h⟩ := h
      cases found with
      | none => exact absurd h (by simp)
      | some first =>
        obtain ⟨hw₂, ⟨rest, hc, hc'⟩, hb, hi, hu, hf, hcap, hret⟩ := evictOldestCached_ok hw₁ he
        obtain ⟨rfl, ht, -, hf', hc'', -⟩ := allocate_took hw₂ h
        have hfirst : id ∈ pool.cachedBlockIds := hc ▸ List.mem_cons_self
        have hr := ((hw.cached_iff id).mp hfirst).2
        have hused := ((hw.cached_iff id).mp hfirst).1
        have hbi : (pool.blocks id).activate = (Block.initial : Block H).activate := by
          simp [Block.activate, Block.forget, Block.initial]
        have ht' : Took pool id pool' :=
          ⟨hr, hw.used_lt id hused, by rw [ht.blocks, hb]; simp [hbi],
            by
              rw [ht.index]
              funext k
              simp only [indexWithout, hi]
              by_cases hk : pool.hashToBlockId k = some id <;> simp [hk],
            by rw [ht.used, hu, Finset.insert_erase hused, Finset.insert_eq_of_mem hused],
            by rw [ht.capacity, hcap], by rw [ht.retain, hret]⟩
        refine ⟨hw.take ht' ?_ ?_ (fun x hx => (hempty x hx).elim), ht'⟩
        · rw [hf', hf]
          have hnf : id ∉ pool.freeBlockIdSet := fun hx => (hempty id hx).elim
          exact (Finset.erase_insert hnf).trans (Finset.erase_eq_of_notMem hnf).symm
        · rw [hc'', hc']
          have hc₁ : pool.cachedBlockIds = id :: rest := hc
          rw [hc₁, List.erase_cons_head]
    · exact absurd h (by simp)

/-- Free pages are exactly the unreferenced ones. -/
theorem WellFormed.freeCount_eq (hw : pool.WellFormed) :
    pool.freeCount =
      ((Finset.range pool.capacity).filter fun id => (pool.blocks id).refCount = 0).card := by
  have hcached : pool.cachedBlockIds.length = pool.cachedBlockIds.toFinset.card :=
    (List.toFinset_card_of_nodup hw.cached_nodup).symm
  have hdisj : Disjoint pool.freeBlockIdSet pool.cachedBlockIds.toFinset := by
    rw [Finset.disjoint_left]
    intro x hx hc
    exact ((hw.free_iff x).mp hx).2 ((hw.cached_iff x).mp (List.mem_toFinset.mp hc)).1
  have hunion : (Finset.range pool.capacity).filter (fun id => (pool.blocks id).refCount = 0) =
      pool.freeBlockIdSet ∪ pool.cachedBlockIds.toFinset := by
    ext x
    simp only [Finset.mem_filter, Finset.mem_range, Finset.mem_union, List.mem_toFinset,
      hw.free_iff, hw.cached_iff]
    constructor
    · rintro ⟨hx, hr⟩
      by_cases hu : x ∈ pool.usedBlockIds
      · exact .inr ⟨hu, hr⟩
      · exact .inl ⟨hx, hu⟩
    · rintro (⟨hx, hu⟩ | ⟨hu, hr⟩)
      · exact ⟨hx, by rw [hw.unused_block x hu]; rfl⟩
      · exact ⟨hw.used_lt x hu, hr⟩
  rw [hunion, Finset.card_union_of_disjoint hdisj, freeCount]
  split
  · rw [hcached]
  · next hret =>
    have : pool.cachedBlockIds = [] :=
      List.eq_nil_iff_forall_not_mem.mpr fun x hx => hret (hw.cached_retained x hx).1
    simp [this]

/-- Taking several pages, one after the other. -/
inductive TookAll : GpuBlockPool H → List ℕ → GpuBlockPool H → Prop
  | nil (pool : GpuBlockPool H) : TookAll pool [] pool
  | cons {pool mid pool' : GpuBlockPool H} {id : ℕ} {ids : List ℕ} (first : Took pool id mid)
    (hw : mid.WellFormed) (rest : TookAll mid ids pool') : TookAll pool (id :: ids) pool'

/-- Releasing several references, one after the other. -/
inductive ReleasedAll : GpuBlockPool H → List ℕ → GpuBlockPool H → Prop
  | nil (pool : GpuBlockPool H) : ReleasedAll pool [] pool
  | cons {pool mid pool' : GpuBlockPool H} {id : ℕ} {ids : List ℕ} (first : Released pool id mid)
    (rest : ReleasedAll mid ids pool') : ReleasedAll pool (id :: ids) pool'

/-- Adding several references, one after the other. -/
inductive SharedAll : GpuBlockPool H → List ℕ → GpuBlockPool H → Prop
  | nil (pool : GpuBlockPool H) : SharedAll pool [] pool
  | cons {pool mid pool' : GpuBlockPool H} {id : ℕ} {ids : List ℕ} (first : Shared pool id mid)
    (rest : SharedAll mid ids pool') : SharedAll pool (id :: ids) pool'

theorem allocateLoop_ok {count : ℕ} {allocated ids : List ℕ} (hw : pool.WellFormed)
    (h : allocateLoop count allocated pool = .ok ids pool') :
    ∃ fresh, ids = allocated ++ fresh ∧ fresh.length = count ∧ pool'.WellFormed ∧
      TookAll pool fresh pool' := by
  induction count generalizing allocated pool with
  | zero =>
    obtain ⟨rfl, rfl⟩ := pure_ok.mp h
    exact ⟨[], by simp, rfl, hw, .nil pool⟩
  | succ count ih =>
    simp only [allocateLoop, bind_ok, tryExcept_ok, throw_ok, and_false, exists_false,
      or_false] at h
    obtain ⟨first, mid, hfirst, hrest⟩ := h
    obtain ⟨hw₁, ht⟩ := allocateFree_ok hw hfirst
    obtain ⟨fresh, rfl, hlen, hw₂, hts⟩ := ih hw₁ hrest
    exact ⟨first :: fresh, by simp, by simp [hlen], hw₂, .cons ht hw₁ hts⟩

theorem allocateMany_ok {count : ℕ} {ids : List ℕ} (hw : pool.WellFormed)
    (h : allocateMany count pool = .ok ids pool') :
    ids.length = count ∧ pool'.WellFormed ∧ TookAll pool ids pool' := by
  simp only [allocateMany, bind_ok, get_ok, require_ok] at h
  obtain ⟨_, _, ⟨rfl, rfl⟩, _, _, ⟨-, rfl⟩, h⟩ := h
  obtain ⟨fresh, rfl, hlen, hw', hts⟩ := allocateLoop_ok hw h
  exact ⟨by simpa using hlen, hw', by simpa using hts⟩

theorem releaseAll_ok {ids : List ℕ} (hw : pool.WellFormed)
    (h : forEach releaseReference ids pool = .ok u pool') :
    pool'.WellFormed ∧ ReleasedAll pool ids pool' := by
  induction ids generalizing pool with
  | nil =>
    obtain rfl := forEach_nil_ok.mp h
    exact ⟨hw, .nil pool⟩
  | cons id ids ih =>
    obtain ⟨mid, hfirst, hrest⟩ := forEach_cons_ok.mp h
    obtain ⟨hw₁, hr⟩ := releaseReference_ok hw hfirst
    obtain ⟨hw₂, hrs⟩ := ih hw₁ hrest
    exact ⟨hw₂, .cons hr hrs⟩

theorem retainAll_ok {ids : List ℕ} (hw : pool.WellFormed)
    (h : forEach (fun id => do let _ ← retain id; pure ()) ids pool = .ok u pool') :
    pool'.WellFormed ∧ SharedAll pool ids pool' := by
  induction ids generalizing pool with
  | nil =>
    obtain rfl := forEach_nil_ok.mp h
    exact ⟨hw, .nil pool⟩
  | cons id ids ih =>
    obtain ⟨mid, hfirst, hrest⟩ := forEach_cons_ok.mp h
    simp only [bind_ok, pure_ok] at hfirst
    obtain ⟨_, _, hretain, -, rfl⟩ := hfirst
    obtain ⟨rfl, hw₁, hs⟩ := retain_ok hw hretain
    obtain ⟨hw₂, hrest⟩ := ih hw₁ hrest
    exact ⟨hw₂, .cons hs hrest⟩

theorem validateOwned_ok {ids : List ℕ} (h : validateOwned ids pool = .ok u pool') :
    pool' = pool ∧ ids.Nodup ∧ ∀ id ∈ ids, id ∈ pool.usedBlockIds ∧
      0 < (pool.blocks id).refCount := by
  simp only [validateOwned, bind_ok, get_ok, require_ok] at h
  obtain ⟨_, _, ⟨rfl, rfl⟩, _, q, hq, _, _, ⟨hn, rfl⟩, ho, rfl⟩ := h
  have hqp : q = pool := by
    refine forEach_invariant (I := fun x => x = pool) (fun id _ s s' hs hstep => ?_) rfl hq
    obtain ⟨-, rfl⟩ := require_ok.mp hstep
    exact hs
  subst hqp
  refine ⟨rfl, hn, fun id hid => ?_⟩
  by_contra hc
  have : id ∈ q.unowned ids := by
    simp only [unowned, List.mem_filter, decide_eq_true_eq]
    refine ⟨hid, ?_⟩
    by_contra hno
    push Not at hno
    exact hc ⟨hno.1, by omega⟩
  rw [ho] at this
  exact absurd this (by simp)

section Views

/-- A release changes the content of a page only by freeing it. -/
theorem Released.block (h : Released pool id pool') (x : ℕ) :
    pool'.blocks x = { pool.blocks x with
        refCount := (pool.blocks x).refCount - if id = x then 1 else 0 } ∨
      (pool'.blocks x = .initial ∧ x = id ∧ (pool.blocks x).refCount = 1) := by
  rw [h.blocks]
  by_cases hx : x = id
  · subst hx
    by_cases hf : pool.FreedBy x
    · exact .inr ⟨by simp [hf], rfl, hf.1⟩
    · exact .inl (by simp [hf])
  · exact .inl (by simp [hx, Ne.symm hx])

theorem Released.refCount (h : Released pool id pool') (x : ℕ) :
    (pool'.blocks x).refCount + (if id = x then 1 else 0) = (pool.blocks x).refCount := by
  have hpos := h.held
  rcases h.block x with hb | ⟨hb, rfl, hone⟩
  · rw [hb]
    split
    · next hx =>
      subst hx
      simp only
      omega
    · simp
  · rw [hb]
    simp [Block.initial, hone]

theorem Took.refCount (h : Took pool id pool') (x : ℕ) :
    (pool'.blocks x).refCount = (pool.blocks x).refCount + if id = x then 1 else 0 := by
  rw [h.blocks]
  by_cases hx : x = id
  · subst hx
    simp [Block.activate, h.unreferenced]
  · simp [hx, Ne.symm hx]

theorem Shared.refCount (h : Shared pool id pool') (x : ℕ) :
    (pool'.blocks x).refCount = (pool.blocks x).refCount + if id = x then 1 else 0 := by
  rw [h.blocks]
  by_cases hx : x = id
  · subst hx
    simp
  · simp [hx, Ne.symm hx]

theorem Cleared.refCount (h : Cleared pool id pool') (x : ℕ) :
    (pool'.blocks x).refCount = (pool.blocks x).refCount := by
  rw [h.blocks]
  by_cases hx : x = id
  · subst hx
    simp [Block.forget]
  · simp [Function.update_of_ne hx]

theorem Registered.refCount {k : H} {tokenIds : List ℕ} {mm : Option MmTokenHashes}
    (h : Registered pool id k tokenIds mm pool') (x : ℕ) :
    (pool'.blocks x).refCount = (pool.blocks x).refCount := by
  rw [h.blocks]
  by_cases hx : x = id
  · subst hx
    simp [Block.update]
  · simp [Function.update_of_ne hx]

theorem ReleasedAll.refCount {ids : List ℕ} (h : ReleasedAll pool ids pool') (x : ℕ) :
    (pool'.blocks x).refCount + ids.count x = (pool.blocks x).refCount := by
  induction h with
  | nil => simp
  | @cons pool mid pool' id ids first rest ih =>
    have hr := first.refCount x
    simp only [List.count_cons, beq_iff_eq]
    omega

theorem SharedAll.refCount {ids : List ℕ} (h : SharedAll pool ids pool') (x : ℕ) :
    (pool'.blocks x).refCount = (pool.blocks x).refCount + ids.count x := by
  induction h with
  | nil => simp
  | @cons pool mid pool' id ids first rest ih =>
    have hr := first.refCount x
    simp only [List.count_cons, beq_iff_eq]
    omega

/-- The pages taken one after the other were unreferenced, and are distinct. -/
theorem TookAll.fresh {ids : List ℕ} (h : TookAll pool ids pool') :
    ids.Nodup ∧ ∀ id ∈ ids, (pool.blocks id).refCount = 0 ∧ id < pool.capacity := by
  induction h with
  | nil => simp
  | @cons pool mid pool' id ids first _ rest ih =>
    obtain ⟨hn, hids⟩ := ih
    have hne : id ∉ ids := by
      intro hid
      have h0 := (hids id hid).1
      rw [first.refCount id] at h0
      simp at h0
    refine ⟨List.nodup_cons.mpr ⟨hne, hn⟩, fun x hx => ?_⟩
    rcases List.mem_cons.mp hx with rfl | hx
    · exact ⟨first.unreferenced, first.lt⟩
    · have h0 := (hids x hx).1
      rw [first.refCount x] at h0
      exact ⟨by omega, first.capacity ▸ (hids x hx).2⟩

/-- Taking pages activates each of them and leaves the other pages alone. -/
theorem TookAll.blocks {ids : List ℕ} (h : TookAll pool ids pool') (x : ℕ) :
    pool'.blocks x = if x ∈ ids then (pool.blocks x).activate else pool.blocks x := by
  induction h with
  | nil => simp
  | @cons pool mid pool' id ids first _ rest ih =>
    rw [ih, first.blocks]
    by_cases hx : x = id
    · subst hx
      have hne : x ∉ ids := fun hm => by
        have h0 := (rest.fresh.2 x hm).1
        rw [first.refCount x] at h0
        simp at h0
      simp [hne]
    · simp [hx]

/-- Taking pages takes exactly them out of the index. -/
theorem TookAll.index {ids : List ℕ} (h : TookAll pool ids pool') (k : H) (x : ℕ) :
    pool'.hashToBlockId k = some x ↔ pool.hashToBlockId k = some x ∧ x ∉ ids := by
  induction h with
  | nil => simp
  | cons first _ rest ih =>
    rw [ih, first.index, indexWithout_some, List.mem_cons]
    tauto

theorem ReleasedAll.capacity {ids : List ℕ} (h : ReleasedAll pool ids pool') :
    pool'.capacity = pool.capacity := by
  induction h with
  | nil => rfl
  | cons first rest ih => exact ih.trans first.capacity

theorem ReleasedAll.retain {ids : List ℕ} (h : ReleasedAll pool ids pool') :
    pool'.retainHashesOnFree = pool.retainHashesOnFree := by
  induction h with
  | nil => rfl
  | cons first rest ih => exact ih.trans first.retain

theorem SharedAll.capacity {ids : List ℕ} (h : SharedAll pool ids pool') :
    pool'.capacity = pool.capacity := by
  induction h with
  | nil => rfl
  | cons first rest ih => exact ih.trans first.capacity

theorem SharedAll.retain {ids : List ℕ} (h : SharedAll pool ids pool') :
    pool'.retainHashesOnFree = pool.retainHashesOnFree := by
  induction h with
  | nil => rfl
  | cons first rest ih => exact ih.trans first.retain

/-- Sharing a held page leaves the free pages alone. -/
theorem Shared.freeCount (h : Shared pool id pool') (hw : pool.WellFormed)
    (hw' : pool'.WellFormed) (hpos : 0 < (pool.blocks id).refCount) :
    pool'.freeCount = pool.freeCount := by
  rw [hw.freeCount_eq, hw'.freeCount_eq, h.capacity]
  congr 1
  refine Finset.filter_congr fun x _ => ?_
  have hx := h.refCount x
  by_cases hid : id = x
  · subst hid
    rw [if_pos rfl] at hx
    omega
  · rw [if_neg hid] at hx
    omega

end Views

/-! ### Operations that succeed -/

theorem releaseReference_succeeds (hw : pool.WellFormed) (hpos : 0 < (pool.blocks id).refCount) :
    ∃ pool', releaseReference id pool = .ok () pool' := by
  have hu := hw.used_of_held hpos
  have hlt := hw.used_lt id hu
  by_cases hone : (pool.blocks id).refCount = 1
  · by_cases hkeep : pool.retainHashesOnFree = true ∧ (pool.blocks id).hash ≠ none
    · simp [releaseReference, hlt, hu, hone, hkeep]
    · simp only [releaseReference, bind_ok, block_ok, get_ok, require_ok, modify_ok]
      have hd : ∃ q, deallocate id (pool.setBlock id { pool.blocks id with refCount := 0 }) =
          .ok () q := by
        have hnc : id ∉ pool.cachedBlockIds := fun hc => by
          have := ((hw.cached_iff id).mp hc).2
          omega
        simp [deallocate, setBlock, hlt, hu, hnc, removeHashIndex_ok, markFree]
      obtain ⟨q, hq⟩ := hd
      refine ⟨q, _, pool, ⟨hlt, rfl, rfl⟩, pool, pool, ⟨rfl, rfl⟩, (), pool, ⟨⟨hu, hpos⟩, rfl⟩,
        (), _, rfl, ?_⟩
      rw [if_pos hone, if_neg hkeep, hone]
      exact hq
  · simp [releaseReference, hlt, hu, hpos, hone]

theorem allocate_succeeds (hw : pool.WellFormed) (hf : id ∈ pool.freeBlockIdSet) :
    ∃ pool', allocate id pool = .ok id pool' := by
  have hlt := ((hw.free_iff id).mp hf).1
  have hr : (pool.blocks id).refCount = 0 := by
    rw [hw.unused_block id ((hw.free_iff id).mp hf).2]
    rfl
  simp [allocate, hlt, hf, hr, removeHashIndex_ok, activate]

/-- A page can be taken exactly when some page is unreferenced. -/
theorem allocateFree_succeeds (hw : pool.WellFormed) (hfree : 0 < pool.freeCount) :
    ∃ id pool', allocateFree pool = .ok id pool' := by
  cases hpop : popFree pool.freeBlockIdSet pool.freeBlockIds with
  | some found =>
    obtain ⟨first, rest⟩ := found
    have hf := (popFree_some hpop).1
    have hlt := ((hw.free_iff first).mp hf).1
    have hr : (pool.blocks first).refCount = 0 := by
      rw [hw.unused_block first ((hw.free_iff first).mp hf).2]
      rfl
    refine ⟨first, ?_⟩
    simp [allocateFree, hpop, allocate, hlt, hf, hr, removeHashIndex_ok, activate]
  | none =>
    have hempty : pool.freeBlockIdSet = ∅ :=
      Finset.eq_empty_iff_forall_notMem.mpr fun x hx =>
        popFree_none hpop x (hw.free_queued x hx) hx
    have hret : pool.retainHashesOnFree = true := by
      by_contra hno
      simp [freeCount, hempty, hno] at hfree
    cases hc : pool.cachedBlockIds with
    | nil => simp [freeCount, hempty, hret, hc] at hfree
    | cons first rest =>
      have hmem : first ∈ pool.cachedBlockIds := hc ▸ List.mem_cons_self
      have hu := ((hw.cached_iff first).mp hmem).1
      have hr := ((hw.cached_iff first).mp hmem).2
      have hlt := hw.used_lt first hu
      have hw₁ : ({ pool with freeBlockIds := [] } : GpuBlockPool H).WellFormed :=
        { hw with free_queued := fun x hx => by simp [hempty] at hx }
      have he : ∃ q, evictOldestCached { pool with freeBlockIds := [] } = .ok (some first) q := by
        simp [evictOldestCached, hc, hlt, hr, removeHashIndex_ok, markFree]
      obtain ⟨q, hq⟩ := he
      obtain ⟨hw₂, -, -, -, -, hf, -, -⟩ := evictOldestCached_ok hw₁ hq
      obtain ⟨q', hq'⟩ := allocate_succeeds hw₂ (show first ∈ _ by simp [hf])
      refine ⟨first, q', ?_⟩
      simp only [allocateFree, bind_ok, get_ok]
      refine ⟨pool, pool, ⟨rfl, rfl⟩, ?_⟩
      simp only [hpop, bind_ok, modify_ok]
      refine ⟨(), _, rfl, ?_⟩
      rw [if_pos hret]
      exact bind_ok.mpr ⟨some first, q, hq, hq'⟩

theorem clearHash_succeeds (hlt : id < pool.capacity) :
    ∃ pool', clearHash id pool = .ok () pool' := by
  simp [clearHash, hlt, removeHashIndex_ok]

theorem registerHash_succeeds (hw : pool.WellFormed) (hpos : 0 < (pool.blocks id).refCount)
    (k : Option H) (tokenIds : List ℕ) (mm : Option MmTokenHashes) :
    ∃ pool', registerHash id k tokenIds mm pool = .ok () pool' := by
  have hu := hw.used_of_held hpos
  simp [registerHash, hw.used_lt id hu, hu, hpos, removeHashIndex_ok]

theorem releaseAll_succeeds {ids : List ℕ} (hw : pool.WellFormed)
    (h : ∀ id, ids.count id ≤ (pool.blocks id).refCount) :
    ∃ pool', forEach releaseReference ids pool = .ok () pool' := by
  induction ids generalizing pool with
  | nil => exact ⟨pool, forEach_nil_ok.mpr rfl⟩
  | cons id ids ih =>
    have hid := h id
    rw [List.count_cons_self] at hid
    obtain ⟨mid, hfirst⟩ :=
      releaseReference_succeeds hw (show 0 < (pool.blocks id).refCount by omega)
    obtain ⟨hw₁, hr⟩ := releaseReference_ok hw hfirst
    obtain ⟨pool', hrest⟩ := ih hw₁ fun x => by
      have hx := h x
      have hrx := hr.refCount x
      simp only [List.count_cons, beq_iff_eq] at hx
      omega
    exact ⟨pool', forEach_cons_ok.mpr ⟨mid, hfirst, hrest⟩⟩

theorem validateOwned_succeeds {ids : List ℕ} (hw : pool.WellFormed) (hn : ids.Nodup)
    (h : ∀ id ∈ ids, 0 < (pool.blocks id).refCount) :
    validateOwned ids pool = .ok () pool := by
  have hloop : forEach (fun id => require (id < pool.capacity)
      (EngineError.pool (.blockIdOutside id pool.capacity))) ids pool = .ok () pool := by
    have hlt : ∀ id ∈ ids, id < pool.capacity := fun id hid =>
      hw.used_lt id (hw.used_of_held (h id hid))
    clear hn h
    induction ids with
    | nil => exact forEach_nil_ok.mpr rfl
    | cons id ids ih =>
      exact forEach_cons_ok.mpr ⟨pool, require_ok.mpr ⟨hlt id List.mem_cons_self, rfl⟩,
        ih fun x hx => hlt x (List.mem_cons_of_mem id hx)⟩
  have howned : pool.unowned ids = [] := by
    simp only [unowned, List.filter_eq_nil_iff, decide_eq_true_eq, not_or, not_not]
    exact fun id hid => ⟨hw.used_of_held (h id hid), by have := h id hid; omega⟩
  simp only [validateOwned, bind_ok, get_ok, require_ok]
  exact ⟨pool, pool, ⟨rfl, rfl⟩, (), pool, hloop, (), pool, ⟨hn, rfl⟩, howned, rfl⟩

theorem allocateLoop_succeeds {count : ℕ} (hw : pool.WellFormed) (h : count ≤ pool.freeCount)
    (allocated : List ℕ) : ∃ ids pool', allocateLoop count allocated pool = .ok ids pool' := by
  induction count generalizing allocated pool with
  | zero => exact ⟨allocated, pool, pure_ok.mpr ⟨rfl, rfl⟩⟩
  | succ count ih =>
    obtain ⟨id, mid, hfirst⟩ := allocateFree_succeeds hw (by omega)
    obtain ⟨hw₁, ht⟩ := allocateFree_ok hw hfirst
    have hcount : mid.freeCount + 1 = pool.freeCount := by
      rw [hw₁.freeCount_eq, hw.freeCount_eq, ht.capacity]
      have hmem : id ∈ (Finset.range pool.capacity).filter
          fun x => (pool.blocks x).refCount = 0 := by
        simp [ht.lt, ht.unreferenced]
      rw [← Finset.card_erase_add_one hmem]
      congr 2
      ext x
      simp only [Finset.mem_filter, Finset.mem_range, Finset.mem_erase, ht.refCount x]
      by_cases hx : id = x
      · simp [hx]
      · simp [hx, Ne.symm hx]
    obtain ⟨ids, pool', hrest⟩ := ih hw₁ (by omega) (allocated ++ [id])
    refine ⟨ids, pool', ?_⟩
    simp only [allocateLoop, bind_ok, tryExcept_ok]
    exact ⟨id, mid, .inl hfirst, hrest⟩

theorem allocateMany_succeeds {count : ℕ} (hw : pool.WellFormed) (h : count ≤ pool.freeCount) :
    ∃ ids pool', allocateMany count pool = .ok ids pool' := by
  obtain ⟨ids, pool', hl⟩ := allocateLoop_succeeds hw h []
  refine ⟨ids, pool', ?_⟩
  simp only [allocateMany, bind_ok, get_ok, require_ok]
  exact ⟨pool, pool, ⟨rfl, rfl⟩, (), pool, ⟨h, rfl⟩, hl⟩

theorem initial_wellFormed (numBlocks : ℕ) (retain : Bool) :
    (initial (H := H) numBlocks retain).WellFormed := by
  constructor <;> simp [initial, Block.initial]

end Spec

end GpuBlockPool

namespace CpuBlockPool

/-- The free queue lists the free pages once each; free and used pages partition the ids. -/
structure WellFormed (pool : CpuBlockPool) : Prop where
  queue_nodup : pool.freeBlockIds.Nodup
  queue_iff : ∀ id, id ∈ pool.freeBlockIds ↔ id ∈ pool.freeBlockIdSet
  free_iff : ∀ id, id ∈ pool.freeBlockIdSet ↔ id < pool.capacity ∧ id ∉ pool.usedBlockIds
  used_lt : ∀ id ∈ pool.usedBlockIds, id < pool.capacity

section Spec

variable {pool pool' : CpuBlockPool} {ids allocated : List ℕ} {count : ℕ} {u : Unit}

theorem initial_wellFormed (numBlocks : ℕ) : (initial numBlocks).WellFormed := by
  constructor <;> simp [initial, List.nodup_range]

theorem allocateOne_ok {id : ℕ} (hw : pool.WellFormed) (h : allocateOne pool = .ok id pool') :
    pool'.WellFormed ∧ id ∈ pool.freeBlockIdSet ∧
      pool'.freeBlockIdSet = pool.freeBlockIdSet.erase id ∧
      pool'.usedBlockIds = insert id pool.usedBlockIds ∧ pool'.capacity = pool.capacity := by
  simp only [allocateOne, bind_ok, get_ok] at h
  obtain ⟨_, _, ⟨rfl, rfl⟩, h⟩ := h
  cases hq : pool.freeBlockIds with
  | nil => simp [hq] at h
  | cons first rest =>
    simp only [hq, bind_ok, modify_ok, require_ok, pure_ok] at h
    obtain ⟨_, _, rfl, _, _, ⟨hlt, rfl⟩, _, _, ⟨hf, rfl⟩, _, _, rfl, rfl, rfl⟩ := h
    have hn := hq ▸ hw.queue_nodup
    refine ⟨⟨(List.nodup_cons.mp hn).2, fun x => ?_, fun x => ?_, fun x hx => ?_⟩, hf, rfl, rfl,
      rfl⟩
    · have hx := hw.queue_iff x
      rw [hq, List.mem_cons] at hx
      simp only [markUsed, Finset.mem_erase]
      constructor
      · exact fun hr => ⟨by rintro rfl; exact (List.nodup_cons.mp hn).1 hr, hx.mp (.inr hr)⟩
      · rintro ⟨hne, hxf⟩
        exact (hx.mpr hxf).resolve_left hne
    · simp only [markUsed, Finset.mem_erase, Finset.mem_insert, hw.free_iff x]
      tauto
    · rcases Finset.mem_insert.mp hx with rfl | hx
      · exact hlt
      · exact hw.used_lt x hx

theorem allocateLoop_ok (hw : pool.WellFormed)
    (h : allocateLoop count allocated pool = .ok ids pool') :
    ∃ fresh, ids = allocated ++ fresh ∧ fresh.length = count ∧ fresh.Nodup ∧
      (∀ id ∈ fresh, id ∉ pool.usedBlockIds) ∧ pool'.WellFormed ∧
      (∀ id, id ∈ pool'.usedBlockIds ↔ id ∈ fresh ∨ id ∈ pool.usedBlockIds) ∧
      pool'.capacity = pool.capacity := by
  induction count generalizing allocated pool with
  | zero =>
    obtain ⟨rfl, rfl⟩ := pure_ok.mp h
    exact ⟨[], by simp, rfl, by simp, by simp, hw, by simp, rfl⟩
  | succ count ih =>
    simp only [allocateLoop, bind_ok, tryExcept_ok, modify_ok, throw_ok, and_false,
      exists_false, or_false] at h
    obtain ⟨first, mid, hfirst, hrest⟩ := h
    obtain ⟨hw₁, hf, -, hused, hcap⟩ := allocateOne_ok hw hfirst
    obtain ⟨fresh, rfl, hlen, hn, hnew, hw₂, hiff, hcap'⟩ := ih hw₁ hrest
    have hne : first ∉ fresh := fun hm => hnew first hm (hused ▸ Finset.mem_insert_self _ _)
    refine ⟨first :: fresh, by simp, by simp [hlen], List.nodup_cons.mpr ⟨hne, hn⟩,
      fun x hx => ?_, hw₂, fun x => ?_, hcap'.trans hcap⟩
    · rcases List.mem_cons.mp hx with rfl | hx
      · exact ((hw.free_iff x).mp hf).2
      · exact fun hu => hnew x hx (hused ▸ Finset.mem_insert_of_mem hu)
    · rw [hiff, hused, Finset.mem_insert, List.mem_cons]
      tauto

theorem allocateMany_ok (hw : pool.WellFormed) (h : allocateMany count pool = .ok ids pool') :
    ids.length = count ∧ ids.Nodup ∧ (∀ id ∈ ids, id ∉ pool.usedBlockIds) ∧ pool'.WellFormed ∧
      (∀ id, id ∈ pool'.usedBlockIds ↔ id ∈ ids ∨ id ∈ pool.usedBlockIds) ∧
      pool'.capacity = pool.capacity := by
  simp only [allocateMany, bind_ok, get_ok, require_ok] at h
  obtain ⟨_, _, ⟨rfl, rfl⟩, _, _, ⟨-, rfl⟩, h⟩ := h
  obtain ⟨fresh, rfl, h₁, h₂, h₃, h₄, h₅, h₆⟩ := allocateLoop_ok hw h
  exact ⟨by simpa using h₁, by simpa using h₂, by simpa using h₃, h₄, by simpa using h₅, h₆⟩

theorem validateOwned_ok (h : validateOwned ids pool = .ok u pool') :
    pool' = pool ∧ ids.Nodup ∧ ∀ id ∈ ids, id ∈ pool.usedBlockIds := by
  simp only [validateOwned, bind_ok, get_ok, require_ok] at h
  obtain ⟨_, _, ⟨rfl, rfl⟩, _, q, hq, _, _, ⟨hn, rfl⟩, ho, rfl⟩ := h
  have hqp : q = pool := by
    refine forEach_invariant (I := fun x => x = pool) (fun id _ s s' hs hstep => ?_) rfl hq
    obtain ⟨-, rfl⟩ := require_ok.mp hstep
    exact hs
  subst hqp
  simp only [unowned, List.filter_eq_nil_iff, decide_eq_true_eq, not_not] at ho
  exact ⟨rfl, hn, ho⟩

theorem WellFormed.markReturned {id : ℕ} (hw : pool.WellFormed) (hu : id ∈ pool.usedBlockIds) :
    (pool.markReturned id).WellFormed := by
  have hnf : id ∉ pool.freeBlockIdSet := fun hf => ((hw.free_iff id).mp hf).2 hu
  refine ⟨?_, fun x => ?_, fun x => ?_, fun x hx => ?_⟩
  · refine List.nodup_append.mpr ⟨hw.queue_nodup, by simp, fun a ha b hb hab => ?_⟩
    obtain rfl : b = id := by simpa using hb
    exact hnf ((hw.queue_iff b).mp (hab ▸ ha))
  · simp only [CpuBlockPool.markReturned, List.mem_append, List.mem_singleton, Finset.mem_insert,
      hw.queue_iff x]
    tauto
  · simp only [CpuBlockPool.markReturned, Finset.mem_insert, Finset.mem_erase, hw.free_iff x]
    have hlt := hw.used_lt id hu
    constructor
    · rintro (rfl | ⟨hx, hxu⟩)
      · exact ⟨hlt, fun h => h.1 rfl⟩
      · exact ⟨hx, fun h => hxu h.2⟩
    · rintro ⟨hx, hxu⟩
      by_cases hxi : x = id
      · exact .inl hxi
      · exact .inr ⟨hx, fun h => hxu ⟨hxi, h⟩⟩
  · exact hw.used_lt x (Finset.mem_of_mem_erase hx)

theorem returnAll_ok (hw : pool.WellFormed) (hn : ids.Nodup)
    (hu : ∀ id ∈ ids, id ∈ pool.usedBlockIds)
    (h : forEach (fun id => modify (·.markReturned id)) ids pool =
      (.ok u pool' : EStateM.Result EngineError CpuBlockPool Unit)) :
    pool'.WellFormed ∧ (∀ id, id ∈ pool'.usedBlockIds ↔ id ∈ pool.usedBlockIds ∧ id ∉ ids) ∧
      pool'.capacity = pool.capacity := by
  induction ids generalizing pool with
  | nil =>
    obtain rfl := forEach_nil_ok.mp h
    exact ⟨hw, by simp, rfl⟩
  | cons id ids ih =>
    obtain ⟨mid, hfirst, hrest⟩ := forEach_cons_ok.mp h
    obtain rfl := modify_ok.mp hfirst
    obtain ⟨hne, hn'⟩ := List.nodup_cons.mp hn
    obtain ⟨hw', hiff, hcap⟩ := ih (hw.markReturned (hu id List.mem_cons_self)) hn'
      (fun x hx => Finset.mem_erase.mpr
        ⟨by rintro rfl; exact hne hx, hu x (List.mem_cons_of_mem id hx)⟩) hrest
    refine ⟨hw', fun x => ?_, hcap⟩
    rw [hiff x]
    simp only [CpuBlockPool.markReturned, Finset.mem_erase, List.mem_cons]
    tauto

theorem releaseMany_ok (hw : pool.WellFormed) (h : releaseMany ids pool = .ok u pool') :
    pool'.WellFormed ∧ ids.Nodup ∧ (∀ id ∈ ids, id ∈ pool.usedBlockIds) ∧
      (∀ id, id ∈ pool'.usedBlockIds ↔ id ∈ pool.usedBlockIds ∧ id ∉ ids) ∧
      pool'.capacity = pool.capacity := by
  obtain ⟨⟨⟩, mid, hv, hr⟩ := bind_ok.mp h
  obtain ⟨rfl, hn, hu⟩ := validateOwned_ok hv
  obtain ⟨hw', hiff, hcap⟩ := returnAll_ok hw hn hu hr
  exact ⟨hw', hn, hu, hiff, hcap⟩

theorem validateOwned_succeeds (hw : pool.WellFormed) (hn : ids.Nodup)
    (h : ∀ id ∈ ids, id ∈ pool.usedBlockIds) : validateOwned ids pool = .ok () pool := by
  have hloop : forEach (fun id => require (id < pool.capacity)
      (EngineError.pool (.cpuBlockIdOutside id pool.capacity))) ids pool = .ok () pool := by
    have hlt : ∀ id ∈ ids, id < pool.capacity := fun id hid => hw.used_lt id (h id hid)
    clear hn h
    induction ids with
    | nil => exact forEach_nil_ok.mpr rfl
    | cons id ids ih =>
      exact forEach_cons_ok.mpr ⟨pool, require_ok.mpr ⟨hlt id List.mem_cons_self, rfl⟩,
        ih fun x hx => hlt x (List.mem_cons_of_mem id hx)⟩
  have howned : pool.unowned ids = [] := by
    simp only [unowned, List.filter_eq_nil_iff, decide_eq_true_eq, not_not]
    exact h
  simp only [validateOwned, bind_ok, get_ok, require_ok]
  exact ⟨pool, pool, ⟨rfl, rfl⟩, (), pool, hloop, (), pool, ⟨hn, rfl⟩, howned, rfl⟩

theorem releaseMany_succeeds (hw : pool.WellFormed) (hn : ids.Nodup)
    (h : ∀ id ∈ ids, id ∈ pool.usedBlockIds) : ∃ pool', releaseMany ids pool = .ok () pool' := by
  have hloop : ∀ (l : List ℕ) (p : CpuBlockPool), ∃ p', forEach (fun id =>
      modify (·.markReturned id)) l p = (.ok () p' : EStateM.Result EngineError _ Unit) := by
    intro l
    induction l with
    | nil => exact fun p => ⟨p, forEach_nil_ok.mpr rfl⟩
    | cons id l ih =>
      intro p
      obtain ⟨p', hp'⟩ := ih (p.markReturned id)
      exact ⟨p', forEach_cons_ok.mpr ⟨p.markReturned id, modify_ok.mpr rfl, hp'⟩⟩
  obtain ⟨pool', hp'⟩ := hloop ids pool
  exact ⟨pool', bind_ok.mpr ⟨(), pool, validateOwned_succeeds hw hn h, hp'⟩⟩

end Spec

end CpuBlockPool

end PrismInfer
