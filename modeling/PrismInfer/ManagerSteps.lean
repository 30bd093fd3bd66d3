import PrismInfer.PageStep

/-!
# Block-manager methods as chains of page steps

One lemma for each method that changes pages: a run that returns is a chain of page
steps, and its result says which transfers the chain planned.
-/
set_option linter.unusedSectionVars false

namespace PrismInfer
open StateExcept GpuBlockPool

variable {H : Type} [DecidableEq H] [Digests H]

namespace BlockManager

variable {others : Others} {t t' : ManagerState H} {u : Unit} {sharing : Bool}
  {protectedId : Option CacheId} {cacheId : CacheId} {entry : MultimodalPrefixCacheEntry}

/-! ### Access -/

@[simp] theorem readManager_ok {m : BlockManager H} :
    readManager t = .ok m t' ↔ t.manager = m ∧ t = t' := by
  simp [readManager, and_comm]

@[simp] theorem readSeq_ok {seq : Sequence H} :
    readSeq t = .ok seq t' ↔ t.seq = seq ∧ t = t' := by
  simp [readSeq, and_comm]

@[simp] theorem modifyManager_ok {f : BlockManager H → BlockManager H} :
    modifyManager f t = .ok u t' ↔ { t with manager := f t.manager } = t' := by
  simp [modifyManager]

@[simp] theorem modifySeq_ok {f : Sequence H → Sequence H} :
    modifySeq f t = .ok u t' ↔ t.setSeq (f t.seq) = t' := by
  simp [modifySeq, ManagerState.setSeq]

@[simp] theorem query_ok {α : Type} {f : BlockManager H → Sequence H → Except EngineError α}
    {a : α} : query f t = .ok a t' ↔ f t.manager t.seq = .ok a ∧ t = t' := by
  simp [query, and_comm]

@[simp] theorem gpu_ok {α : Type} {x : GpuBlockPool.Action H α} {a : α} :
    gpu x t = .ok a t' ↔ ∃ pool, x t.pool = .ok a pool ∧ t.setPool pool = t' := by
  simp [gpu, ManagerState.setPool]

@[simp] theorem cpu_ok {α : Type} {x : CpuBlockPool.Action α} {a : α} :
    cpu x t = .ok a t' ↔ ∃ pool, x t.cpuPool = .ok a pool ∧ t.setCpuPool pool = t' := by
  simp [cpu, ManagerState.setCpuPool]

theorem forEach_gpu_ok {α : Type} {f : α → GpuBlockPool.Action H Unit} {as : List α} :
    forEach (fun a => gpu (f a)) as t = .ok u t' ↔
      ∃ pool, forEach f as t.pool = .ok u pool ∧ t.setPool pool = t' := by
  have hloop : forEach (fun a => gpu (f a)) as t = gpu (forEach f as) t :=
    @forEach_zoom _ _ _ _ (fun s : ManagerState H => s.manager.gpuPool)
      (fun pool s => s.setPool pool) (fun _ => rfl) (fun _ _ => rfl) (fun _ _ _ => rfl) f as t
  rw [hloop, gpu_ok]

theorem assertSequenceBlockSize_ok {m : BlockManager H} {seq : Sequence H} :
    m.assertSequenceBlockSize seq = .ok u ↔ seq.blockSize = m.blockSize := by
  simp [assertSequenceBlockSize]

/-! ### Reclaiming cache pages -/

theorem evictMultimodalPrefix_ok (hl : Ledger others t) (hne : some cacheId ≠ protectedId)
    (h : evictMultimodalPrefix cacheId t = .ok u t') : ReclaimStep protectedId t t' := by
  simp only [evictMultimodalPrefix, bind_ok, readManager_ok] at h
  obtain ⟨_, _, ⟨rfl, rfl⟩, h⟩ := h
  cases hget : t.cache.get? cacheId with
  | none => simp [hget] at h
  | some entry =>
    simp only [hget, bind_ok, modifyManager_ok, forEach_gpu_ok] at h
    obtain ⟨_, _, rfl, _, _, ⟨pool, hpool, rfl⟩, rfl⟩ := h
    obtain ⟨hw, hr⟩ := releaseAll_ok hl.gpu hpool
    exact .evict hne hget hr hw

theorem droppableTailClone_some {m : BlockManager H} {id : ℕ}
    (hn : (m.multimodalPrefixCache.map (·.1)).Nodup)
    (h : m.droppableTailClone protectedId = some (cacheId, id)) :
    some cacheId ≠ protectedId ∧ m.refCount id = 1 ∧
      ∃ entry, m.multimodalPrefixCache.get? cacheId = some entry ∧
        id ∈ entry.tailCloneBlockIds := by
  obtain ⟨item, hitem, hid⟩ := List.exists_of_findSome?_eq_some h
  obtain ⟨clone, hclone, heq⟩ := Option.map_eq_some_iff.mp hid
  obtain ⟨rfl, rfl⟩ : item.1 = cacheId ∧ clone = id := by simpa using heq
  obtain ⟨hmem, hne⟩ := List.mem_filter.mp hitem
  exact ⟨by simpa using hne, by simpa using List.find?_some hclone, item.2,
    OrderedDict.get?_of_mem hn hmem, List.mem_of_find?_eq_some hclone⟩

theorem dropIdleTailClone_ok {dropped : Bool} (hl : Ledger others t)
    (h : dropIdleTailClone protectedId t = .ok dropped t') :
    (dropped = false ∧ t' = t ∧ t.manager.droppableTailClone protectedId = none) ∨
      (dropped = true ∧ ReclaimStep protectedId t t') := by
  simp only [dropIdleTailClone, bind_ok, readManager_ok] at h
  obtain ⟨_, _, ⟨rfl, rfl⟩, h⟩ := h
  cases hdrop : t.manager.droppableTailClone protectedId with
  | none =>
    simp only [hdrop, pure_ok] at h
    exact .inl ⟨h.1.symm, h.2.symm, rfl⟩
  | some found =>
    obtain ⟨cacheId, id⟩ := found
    obtain ⟨hne, hidle, entry, hentry, hid⟩ := droppableTailClone_some hl.keys hdrop
    simp only [hdrop, bind_ok, modifyManager_ok, gpu_ok, pure_ok] at h
    obtain ⟨_, _, rfl, _, _, ⟨pool, hpool, rfl⟩, _, _, rfl, rfl, rfl⟩ := h
    obtain ⟨hw, hr⟩ := releaseReference_ok hl.gpu hpool
    exact .inr ⟨rfl, .dropClone hne hentry hid hidle hr hw⟩

/-- Evictions and clone drops, one after the other. -/
abbrev Reclaimed (protectedId : Option CacheId) : ManagerState H → ManagerState H → Prop :=
  Relation.ReflTransGen (ReclaimStep protectedId)

theorem Reclaimed.ledger (hl : Ledger others t) (h : Reclaimed protectedId t t') :
    Ledger others t' := by
  induction h with
  | refl => exact hl
  | tail _ hlast ih => exact ih.reclaim hlast

theorem Reclaimed.steps (h : Reclaimed protectedId t t') : PageSteps sharing t [] t' := by
  induction h using Relation.ReflTransGen.head_induction_on with
  | refl => exact .refl t'
  | head hfirst _ ih => exact .head (.reclaim hfirst) ih

theorem argminBy_mem {α : Type} {f : α → ℚ} {a : α} {l : List α} (h : argminBy f l = some a) :
    a ∈ l := by
  induction l generalizing a with
  | nil => simp [argminBy] at h
  | cons b l ih =>
    simp only [argminBy] at h
    cases hrest : argminBy f l with
    | none => simp_all
    | some c =>
      simp only [hrest] at h
      split at h <;> simp_all

theorem evictionCandidate_some {m : BlockManager H}
    (hn : (m.multimodalPrefixCache.map (·.1)).Nodup)
    (h : m.evictionCandidate protectedId = some cacheId) :
    some cacheId ≠ protectedId ∧ ∃ entry, m.multimodalPrefixCache.get? cacheId = some entry := by
  obtain ⟨item, hitem, rfl⟩ := Option.map_eq_some_iff.mp h
  obtain ⟨hmem, hne⟩ := List.mem_filter.mp (argminBy_mem hitem)
  exact ⟨by simpa using hne, item.2, OrderedDict.get?_of_mem hn hmem⟩

theorem reclaimLoop_ok {required fuel : ℕ} {stopped : Bool} (hl : Ledger others t)
    (h : reclaimLoop required protectedId fuel t = .ok stopped t') :
    Reclaimed protectedId t t' := by
  induction fuel generalizing t with
  | zero =>
    obtain ⟨-, rfl⟩ := pure_ok.mp h
    exact .refl
  | succ fuel ih =>
    simp only [reclaimLoop, bind_ok, readManager_ok] at h
    obtain ⟨_, _, ⟨rfl, rfl⟩, h⟩ := h
    split at h
    · obtain ⟨-, rfl⟩ := pure_ok.mp h
      exact .refl
    · obtain ⟨dropped, mid, hdrop, hrest⟩ := bind_ok.mp h
      rcases dropIdleTailClone_ok hl hdrop with ⟨rfl, rfl, -⟩ | ⟨rfl, hstep⟩
      · simp only [Bool.false_eq_true, if_false, bind_ok, readManager_ok] at hrest
        obtain ⟨_, _, ⟨rfl, rfl⟩, hrest⟩ := hrest
        cases hc : mid.manager.evictionCandidate protectedId with
        | none =>
          simp only [hc, pure_ok] at hrest
          obtain ⟨-, rfl⟩ := hrest
          exact .refl
        | some cacheId =>
          simp only [hc, bind_ok] at hrest
          obtain ⟨_, mid', hevict, hrest⟩ := hrest
          have hstep := evictMultimodalPrefix_ok hl (evictionCandidate_some hl.keys hc).1 hevict
          exact .head hstep (ih (hl.reclaim hstep) hrest)
      · exact .head hstep (ih (hl.reclaim hstep) (by simpa using hrest))

theorem evictMultimodalPrefix_succeeds (hl : Ledger others t)
    (hentry : t.cache.get? cacheId = some entry) :
    ∃ t', evictMultimodalPrefix cacheId t = .ok () t' := by
  have hcount : ∀ b, entry.pages.count b ≤ (t.pool.blocks b).refCount := fun b => by
    have := hl.held_of_entry hentry b
    simp only [ManagerState.refCount] at this
    omega
  obtain ⟨pool, hpool⟩ := releaseAll_succeeds hl.gpu hcount
  simp [evictMultimodalPrefix, hentry, forEach_gpu_ok, hpool]

theorem dropIdleTailClone_succeeds (protectedId : Option CacheId) (hl : Ledger others t) :
    ∃ dropped t', dropIdleTailClone protectedId t = .ok dropped t' := by
  cases hdrop : t.manager.droppableTailClone protectedId with
  | none => exact ⟨false, t, by simp [dropIdleTailClone, hdrop]⟩
  | some found =>
    obtain ⟨cacheId, id⟩ := found
    obtain ⟨-, hidle, -⟩ := droppableTailClone_some hl.keys hdrop
    have hpos : 0 < (t.pool.blocks id).refCount := by
      have : (t.pool.blocks id).refCount = 1 := hidle
      omega
    obtain ⟨pool, hpool⟩ := releaseReference_succeeds hl.gpu hpos
    simp [dropIdleTailClone, hdrop, hpool]

/-- The loop itself never raises: what it gives up is held. -/
theorem reclaimLoop_succeeds (required : ℕ) (protectedId : Option CacheId) (fuel : ℕ)
    (hl : Ledger others t) :
    ∃ stopped t', reclaimLoop required protectedId fuel t = .ok stopped t' := by
  induction fuel generalizing t with
  | zero => exact ⟨false, t, pure_ok.mpr ⟨rfl, rfl⟩⟩
  | succ fuel ih =>
    simp only [reclaimLoop, bind_ok, readManager_ok]
    by_cases hfree : required ≤ t.manager.gpuPool.freeCount
    · exact ⟨true, t, t.manager, t, ⟨rfl, rfl⟩, by simp [hfree]⟩
    · obtain ⟨dropped, mid, hdrop⟩ := dropIdleTailClone_succeeds protectedId hl
      rcases dropIdleTailClone_ok hl hdrop with ⟨rfl, rfl, -⟩ | ⟨rfl, hstep⟩
      · cases hc : mid.manager.evictionCandidate protectedId with
        | none =>
          refine ⟨true, mid, mid.manager, mid, ⟨rfl, rfl⟩, ?_⟩
          simp only [hfree, if_false, bind_ok]
          exact ⟨false, mid, hdrop, by simp [hc]⟩
        | some cacheId =>
          obtain ⟨hne, entry, hentry⟩ := evictionCandidate_some hl.keys hc
          obtain ⟨mid', hevict⟩ := evictMultimodalPrefix_succeeds hl hentry
          obtain ⟨stopped, t', ht'⟩ := ih (hl.reclaim (evictMultimodalPrefix_ok hl hne hevict))
          refine ⟨stopped, t', mid.manager, mid, ⟨rfl, rfl⟩, ?_⟩
          simp only [hfree, if_false, bind_ok]
          refine ⟨false, mid, hdrop, ?_⟩
          simp only [Bool.false_eq_true, if_false, bind_ok, readManager_ok]
          refine ⟨mid.manager, mid, ⟨rfl, rfl⟩, ?_⟩
          simp only [hc, bind_ok]
          exact ⟨(), mid', hevict, ht'⟩
      · obtain ⟨stopped, t', ht'⟩ := ih (hl.reclaim hstep)
        refine ⟨stopped, t', t.manager, t, ⟨rfl, rfl⟩, ?_⟩
        simp only [hfree, if_false, bind_ok]
        exact ⟨true, mid, hdrop, by simpa using ht'⟩

theorem ensureFreeBlocks_ok {required : ℕ} (hl : Ledger others t)
    (h : ensureFreeBlocks required protectedId t = .ok u t') :
    Reclaimed protectedId t t' ∧ required ≤ t'.pool.freeCount := by
  simp only [ensureFreeBlocks, bind_ok, readManager_ok, require_ok] at h
  obtain ⟨_, _, ⟨rfl, rfl⟩, _, mid, hloop, _, _, ⟨rfl, rfl⟩, hfree, rfl⟩ := h
  exact ⟨reclaimLoop_ok hl hloop, hfree⟩

/-- Where too few pages can be reclaimed, those that could be stay reclaimed. -/
theorem ensureFreeBlocks_error {required : ℕ} {e : EngineError} (hl : Ledger others t)
    (h : ensureFreeBlocks required protectedId t = .error e t') :
    Reclaimed protectedId t t' ∧ ¬ required ≤ t'.pool.freeCount := by
  obtain ⟨stopped, mid, hloop⟩ :=
    reclaimLoop_succeeds required protectedId t.manager.reclaimFuel hl
  simp only [ensureFreeBlocks, bind_error, readManager_ok] at h
  rcases h with h | ⟨_, _, ⟨rfl, rfl⟩, h | ⟨_, mid', hloop', h⟩⟩
  · simp [readManager] at h
  · rw [hloop] at h
    exact absurd h (by simp)
  · obtain rfl : mid' = mid := by
      rw [hloop] at hloop'
      exact (EStateM.Result.ok.inj hloop').2.symm
    rcases h with h | ⟨_, _, ⟨rfl, rfl⟩, h⟩
    · simp [readManager] at h
    · obtain ⟨hfree, -, rfl⟩ := require_error.mp h
      exact ⟨reclaimLoop_ok hl hloop, hfree⟩

theorem ensureFreeBlocks_enough {required : ℕ} (h : required ≤ t.pool.freeCount) :
    ensureFreeBlocks required protectedId t = .ok () t := by
  have hloop : reclaimLoop required protectedId t.manager.reclaimFuel t = .ok true t := by
    simp only [reclaimFuel, reclaimLoop, bind_ok, readManager_ok]
    exact ⟨t.manager, t, ⟨rfl, rfl⟩, by simp [show required ≤ t.manager.gpuPool.freeCount from h]⟩
  simp only [ensureFreeBlocks, bind_ok, readManager_ok, require_ok]
  exact ⟨_, _, ⟨rfl, rfl⟩, true, t, hloop, _, _, ⟨rfl, rfl⟩, h, rfl⟩

/-! ### What reclaiming leaves alone -/

theorem Reclaimed.seq (h : Reclaimed protectedId t t') : t'.seq = t.seq := by
  induction h with
  | refl => rfl
  | tail _ hlast ih =>
    rw [← ih]
    cases hlast <;> rfl

theorem Reclaimed.protected (h : Reclaimed (some cacheId) t t')
    (hentry : t.cache.get? cacheId = some entry) : t'.cache.get? cacheId = some entry := by
  induction h with
  | refl => exact hentry
  | @tail mid t' _ hlast ih =>
    cases hlast with
    | evict hne _ _ _ =>
      exact (OrderedDict.get?_remove_of_ne (fun h => hne (congrArg some h.symm))).trans ih
    | dropClone hne _ _ _ _ _ =>
      simp only [ManagerState.cache, ManagerState.setCache]
      rw [OrderedDict.get?_update_of_ne fun h => hne (congrArg some h.symm)]
      exact ih

theorem Reclaimed.refCount_le (h : Reclaimed protectedId t t') (b : ℕ) :
    t'.refCount b ≤ t.refCount b := by
  induction h with
  | refl => exact le_rfl
  | @tail mid t' _ hlast ih =>
    refine le_trans ?_ ih
    cases hlast with
    | evict _ _ hpool _ => exact (Nat.le_add_right _ _).trans_eq (hpool.refCount b)
    | dropClone _ _ _ _ hpool _ => exact (Nat.le_add_right _ _).trans_eq (hpool.refCount b)

/-! ### Appending pages -/

theorem appendFreeBlock_ok (hl : Ledger others t) (h : appendFreeBlock t = .ok u t') :
    ∃ id pool, Took t.pool id pool ∧ pool.WellFormed ∧
      t' = (t.setPool pool).setTable (t.table ++ [id]) := by
  simp only [appendFreeBlock, bind_ok, gpu_ok, appendToTable, modifySeq_ok] at h
  obtain ⟨id, _, ⟨pool, hpool, rfl⟩, rfl⟩ := h
  obtain ⟨hw, ht⟩ := allocateFree_ok hl.gpu hpool
  exact ⟨id, pool, ht, hw, rfl⟩

theorem appendRetained_ok {id : ℕ} (hl : Ledger others t) (h : appendRetained id t = .ok u t') :
    ∃ pool, Shared t.pool id pool ∧ pool.WellFormed ∧
      t' = (t.setPool pool).setTable (t.table ++ [id]) := by
  simp only [appendRetained, bind_ok, gpu_ok, appendToTable, modifySeq_ok] at h
  obtain ⟨_, _, ⟨pool, hpool, rfl⟩, rfl⟩ := h
  obtain ⟨-, hw, hs⟩ := retain_ok hl.gpu hpool
  exact ⟨pool, hs, hw, rfl⟩

theorem appendFreeBlock_steps (hl : Ledger others t) (h : appendFreeBlock t = .ok u t') :
    PageSteps sharing t [] t' := by
  obtain ⟨id, pool, ht, hw, rfl⟩ := appendFreeBlock_ok hl h
  exact .single (.take ht hw (.inl rfl))

theorem appendRetained_steps {id : ℕ} (hl : Ledger others t)
    (h : appendRetained id t = .ok u t') : PageSteps true t [] t' := by
  obtain ⟨pool, hs, hw, rfl⟩ := appendRetained_ok hl h
  exact .single (.share rfl hs hw)

/-- The loop rule for chains that plan no transfer. -/
theorem forEach_steps {α : Type} {f : α → ManagerAction H Unit} {as : List α}
    (hstep : ∀ a ∈ as, ∀ t t', Ledger others t → f a t = .ok () t' → PageSteps sharing t [] t')
    (hl : Ledger others t) (h : forEach f as t = .ok u t') : PageSteps sharing t [] t' := by
  refine forEach_invariant (I := fun mid => PageSteps sharing t [] mid) ?_ (.refl t) h
  intro a ha mid mid' hmid hf
  exact hmid.trans (hstep a ha mid mid' (hl.steps hmid) hf)

theorem growTable_steps {blocks : ℕ} (hl : Ledger others t)
    (h : growTable blocks t = .ok u t') : PageSteps sharing t [] t' := by
  simp only [growTable, bind_ok, readSeq_ok] at h
  obtain ⟨_, _, ⟨rfl, rfl⟩, h⟩ := h
  exact forEach_steps (fun _ _ _ _ hl h => appendFreeBlock_steps hl h) hl h

theorem setSeq_steps {seq : Sequence H} (hrequest : seq.request = t.seq.request)
    (htable : seq.blockTable = t.table) (hcpu : seq.cpuBlockTable = t.seq.cpuBlockTable) :
    PageSteps sharing t [] (t.setSeq seq) := .single (.setSeq hrequest htable hcpu)

theorem cachedPrefixTokens_steps {n : ℕ} (h : cachedPrefixTokens t = .ok n t') :
    PageSteps sharing t [] t' := by
  simp only [cachedPrefixTokens, bind_ok, query_ok, readManager_ok, modifySeq_ok, pure_ok] at h
  obtain ⟨_, _, ⟨-, rfl⟩, _, _, ⟨rfl, rfl⟩, _, _, rfl, _, _, ⟨-, rfl⟩, _, _, rfl, -, rfl⟩ := h
  exact (setSeq_steps rfl rfl rfl).trans (setSeq_steps rfl rfl rfl)

/-! ### Private copies -/

theorem privatizeBlock_ok {i : ℕ} {pair : Option BlockPair} (hl : Ledger others t)
    (h : privatizeBlock i t = .ok pair t') :
    ∃ id, t.table[i]? = some id ∧
      ((pair = none ∧ t.refCount id ≤ 1 ∧ ∃ pool, Cleared t.pool id pool ∧ pool.WellFormed ∧
          t' = t.setPool pool) ∨
        ∃ fresh mid, pair = some (id, fresh) ∧ 1 < t.refCount id ∧ Reclaimed none t mid ∧
          ReplaceStep id fresh mid t') := by
  simp only [privatizeBlock, bind_ok, get_ok] at h
  obtain ⟨_, _, ⟨rfl, rfl⟩, h⟩ := h
  cases hid : t.seq.blockTable[i]? with
  | none => simp [hid] at h
  | some id =>
    refine ⟨id, rfl, ?_⟩
    simp only [hid] at h
    split at h
    · next hone =>
      simp only [bind_ok, gpu_ok, pure_ok] at h
      obtain ⟨_, _, ⟨pool, hpool, rfl⟩, rfl, rfl⟩ := h
      have hpos := hl.held_of_table (List.mem_of_getElem? hid)
      obtain ⟨hw, hc⟩ := clearHash_ok hl.gpu hpos hpool
      exact .inl ⟨rfl, hone, pool, hc, hw, rfl⟩
    · next hmany =>
      simp only [bind_ok, gpu_ok, modifySeq_ok, pure_ok] at h
      obtain ⟨_, mid, hfree, fresh, _, ⟨p₁, htake, rfl⟩, _, _, ⟨p₂, hrel, rfl⟩, _, _, rfl, rfl,
        rfl⟩ := h
      obtain ⟨hr, -⟩ := ensureFreeBlocks_ok hl hfree
      obtain ⟨hw₁, ht⟩ := allocateFree_ok (hr.ledger hl).gpu htake
      obtain ⟨hw₂, hrel⟩ := releaseReference_ok hw₁ hrel
      have hmany' : 1 < t.refCount id := not_le.mp hmany
      refine .inr ⟨fresh, mid, rfl, hmany', hr, ?_⟩
      have hlt : i < mid.table.length := by
        have := (List.getElem?_eq_some_iff.mp hid).1
        rwa [ManagerState.table, hr.seq]
      have hsplit : mid.table = mid.table.take i ++ id :: mid.table.drop (i + 1) := by
        have hget : mid.table[i] = id := by
          have := (List.getElem?_eq_some_iff.mp hid).2
          simp only [ManagerState.table, hr.seq]
          exact this
        rw [← hget, List.getElem_cons_drop, List.take_append_drop]
      have hset := ReplaceStep.intro hsplit ht hrel hw₂
      have heq : mid.table.set i fresh =
          mid.table.take i ++ fresh :: mid.table.drop (i + 1) := by
        rw [List.set_eq_take_append_cons_drop, if_pos hlt]
      rw [← heq] at hset
      exact hset

theorem privatizeBlock_none {i : ℕ} (hl : Ledger others t)
    (h : privatizeBlock i t = .ok none t') : PageSteps sharing t [] t' := by
  obtain ⟨id, hid, ⟨-, halone, pool, hc, hw, rfl⟩ | ⟨_, _, heq, -⟩⟩ := privatizeBlock_ok hl h
  · exact .single (.forget (List.mem_of_getElem? hid) halone hc hw)
  · simp at heq

theorem privatizeBlock_some {i source target : ℕ} (copies : List Transfer) (hl : Ledger others t)
    (h : privatizeBlock i t = .ok (some (source, target)) t')
    (hcopies : copies = [] ∨ ∃ rows, copies = [.copyPrefix source target rows]) :
    PageSteps sharing t copies t' := by
  obtain ⟨id, hid, ⟨heq, -⟩ | ⟨fresh, mid, heq, -, hr, hreplace⟩⟩ := privatizeBlock_ok hl h
  · simp at heq
  · obtain ⟨rfl, rfl⟩ : source = id ∧ target = fresh := by simpa using heq
    have hlast : PageStep sharing mid copies t' := .replace hreplace (by tauto)
    simpa using hr.steps.trans (.single hlast)

theorem privatizeRange_steps {snapped : ℕ} {indices : List ℕ} {copies : List BlockPrefixCopy}
    (hl : Ledger others t) (h : privatizeRange snapped indices t = .ok copies t') :
    PageSteps sharing t (copies.map BlockPrefixCopy.transfer) t' := by
  induction indices generalizing t copies with
  | nil =>
    obtain ⟨rfl, rfl⟩ := pure_ok.mp h
    exact .refl t
  | cons i indices ih =>
    simp only [privatizeRange, bind_ok, readManager_ok] at h
    obtain ⟨pair, mid, hp, _, _, ⟨rfl, rfl⟩, rest, _, hrest, h⟩ := h
    cases pair with
    | none =>
      obtain ⟨rfl, rfl⟩ := pure_ok.mp h
      have hfirst : PageSteps sharing t [] mid := privatizeBlock_none hl hp
      exact hfirst.trans (ih (hl.steps hfirst) hrest)
    | some pair =>
      obtain ⟨source, target⟩ := pair
      simp only [pure_ok] at h
      obtain ⟨h, rfl⟩ := h
      split at h
      · subst h
        have hfirst : PageSteps sharing t [] mid := privatizeBlock_some [] hl hp (.inl rfl)
        exact hfirst.trans (ih (hl.steps hfirst) hrest)
      · subst h
        have hfirst : PageSteps sharing t
            [.copyPrefix source target (snapped - i * mid.manager.blockSize)] mid :=
          privatizeBlock_some _ hl hp (.inr ⟨_, rfl⟩)
        exact hfirst.trans (ih (hl.steps hfirst) hrest)

/-! ### Dense allocation -/

theorem allocateDenseBlock_steps {walk walk' : DenseWalk H} {i : ℕ} (hl : Ledger others t)
    (h : allocateDenseBlock walk i t = .ok walk' t') : PageSteps true t [] t' := by
  simp only [allocateDenseBlock, bind_ok, query_ok, get_ok] at h
  obtain ⟨⟨blockHash, mm⟩, _, ⟨-, rfl⟩, _, _, ⟨rfl, rfl⟩, cached, _, ⟨-, rfl⟩, h⟩ := h
  cases cached with
  | none =>
    simp only [bind_ok, pure_ok] at h
    obtain ⟨_, _, h, -, rfl⟩ := h
    exact appendFreeBlock_steps hl h
  | some id =>
    simp only [bind_ok, modifySeq_ok, pure_ok] at h
    obtain ⟨_, _, rfl, _, _, h, -, rfl⟩ := h
    have hfirst : PageSteps true t [] (t.setSeq { t.seq with
        numCachedTokens := t.seq.numCachedTokens + t.manager.blockSize }) :=
      setSeq_steps rfl rfl rfl
    exact hfirst.trans (appendRetained_steps (hl.steps hfirst) h)

theorem allocateDenseLoop_steps {walk : DenseWalk H} {indices : List ℕ} (hl : Ledger others t)
    (h : allocateDenseLoop walk indices t = .ok u t') : PageSteps true t [] t' := by
  induction indices generalizing t walk with
  | nil =>
    obtain ⟨-, rfl⟩ := pure_ok.mp h
    exact .refl t
  | cons i indices ih =>
    simp only [allocateDenseLoop, bind_ok] at h
    obtain ⟨walk', mid, hblock, hrest⟩ := h
    have hfirst := allocateDenseBlock_steps hl hblock
    exact hfirst.trans (ih (hl.steps hfirst) hrest)

theorem snapCachedPrefix_steps {copies : List BlockPrefixCopy} (hl : Ledger others t)
    (h : snapCachedPrefix t = .ok copies t') :
    PageSteps sharing t (copies.map BlockPrefixCopy.transfer) t' := by
  simp only [snapCachedPrefix, bind_ok, get_ok] at h
  obtain ⟨_, _, ⟨rfl, rfl⟩, h⟩ := h
  split at h
  · simp only [bind_ok, modifySeq_ok, pure_ok] at h
    obtain ⟨_, _, hrange, _, _, rfl, rfl, rfl⟩ := h
    exact (privatizeRange_steps hl hrange).trans_quiet (setSeq_steps rfl rfl rfl)
  · obtain ⟨rfl, rfl⟩ := pure_ok.mp h
    exact .refl t

theorem allocateDense_steps {copies : List BlockPrefixCopy} (hl : Ledger others t)
    (h : allocateDense t = .ok copies t') :
    PageSteps true t (copies.map BlockPrefixCopy.transfer) t' := by
  simp only [allocateDense, bind_ok, readSeq_ok, modifySeq_ok, pure_ok] at h
  obtain ⟨_, _, ⟨rfl, rfl⟩, _, t₁, hfree, _, t₂, hloop, copies', t₃, hsnap, _, _, rfl, rfl,
    rfl⟩ := h
  have hr := (ensureFreeBlocks_ok hl hfree).1
  have hsteps : PageSteps true t [] t₂ :=
    hr.steps.trans (allocateDenseLoop_steps (hr.ledger hl) hloop)
  have hcopies : PageSteps true t₂ (copies'.map BlockPrefixCopy.transfer) t₃ :=
    snapCachedPrefix_steps (hl.steps hsteps) hsnap
  exact hsteps.trans (hcopies.trans_quiet (setSeq_steps rfl rfl rfl))

/-! ### Copy-on-write -/

theorem Reclaimed.weaken (h : Reclaimed protectedId t t') : Reclaimed none t t' := by
  induction h with
  | refl => exact .refl
  | tail _ hlast ih =>
    refine ih.tail ?_
    cases hlast with
    | evict _ hentry hpool hw => exact .evict (by simp) hentry hpool hw
    | dropClone _ hentry hid hidle hpool hw =>
      exact .dropClone (by simp) hentry hid hidle hpool hw

/-- What copy-on-write of the tail page `last` does once pages were reclaimed. -/
def TailCopied (last : ℕ) (mid : ManagerState H) (pair : Option BlockPair)
    (t' : ManagerState H) : Prop :=
  (pair = none ∧ t' = mid ∧ mid.refCount last ≤ 1) ∨
    ∃ fresh, pair = some (last, fresh) ∧ 1 < mid.refCount last ∧ ReplaceStep last fresh mid t'

theorem copyTail_ok {last : ℕ} {pair : Option BlockPair} (hl : Ledger others t)
    (hlast : t.table.getLast? = some last) (h : copyTail last t = .ok pair t') :
    TailCopied last t pair t' := by
  simp only [copyTail, bind_ok, readManager_ok] at h
  obtain ⟨_, _, ⟨rfl, rfl⟩, h⟩ := h
  split at h
  · next hone =>
    obtain ⟨rfl, rfl⟩ := pure_ok.mp h
    exact .inl ⟨rfl, rfl, hone⟩
  · next hmany =>
    simp only [bind_ok, gpu_ok, modifySeq_ok, pure_ok] at h
    obtain ⟨fresh, _, ⟨p₁, htake, rfl⟩, _, _, ⟨p₂, hrel, rfl⟩, _, _, rfl, rfl, rfl⟩ := h
    obtain ⟨hw₁, ht⟩ := allocateFree_ok hl.gpu htake
    obtain ⟨hw₂, hrel⟩ := releaseReference_ok hw₁ hrel
    have hsplit : t.table = t.table.dropLast ++ last :: [] :=
      (List.dropLast_append_getLast? last hlast).symm
    exact .inr ⟨fresh, rfl, not_le.mp hmany, .intro hsplit ht hrel hw₂⟩

theorem copyAfterEviction_ok {last : ℕ} {found : Option (CacheId × MultimodalPrefixCacheEntry)}
    {e : EngineError} {pair : Option BlockPair} (hl : Ledger others t)
    (hlast : t.table.getLast? = some last) (h : copyAfterEviction last found e t = .ok pair t') :
    ∃ mid, Reclaimed none t mid ∧ TailCopied last mid pair t' := by
  cases found with
  | none => simp [copyAfterEviction] at h
  | some found =>
    obtain ⟨cacheId, entry⟩ := found
    simp only [copyAfterEviction] at h
    split at h
    · simp only [bind_ok, readManager_ok] at h
      obtain ⟨_, mid, hevict, _, _, ⟨rfl, rfl⟩, h⟩ := h
      have hstep : Reclaimed none t mid := .single (evictMultimodalPrefix_ok hl (by simp) hevict)
      split at h
      · next hone =>
        obtain ⟨rfl, rfl⟩ := pure_ok.mp h
        exact ⟨mid, hstep, .inl ⟨rfl, rfl, hone⟩⟩
      · simp only [bind_ok] at h
        obtain ⟨_, mid', hfree, h⟩ := h
        have hr : Reclaimed none t mid' :=
          hstep.trans (ensureFreeBlocks_ok (hstep.ledger hl) hfree).1
        exact ⟨mid', hr, copyTail_ok (hr.ledger hl) (by rw [ManagerState.table, hr.seq, hlast]) h⟩
    · simp at h

/-- Copy-on-write reclaims cache pages, then replaces a tail page that is still shared. -/
theorem copyOnWrite_ok {pair : Option BlockPair} (hl : Ledger others t)
    (h : copyOnWrite t = .ok pair t') :
    (pair = none ∧ t' = t ∧ t.table = []) ∨
      ∃ last mid, t.table.getLast? = some last ∧ Reclaimed none t mid ∧
        TailCopied last mid pair t' := by
  simp only [copyOnWrite, bind_ok, query_ok, get_ok] at h
  obtain ⟨_, _, ⟨-, rfl⟩, _, _, ⟨rfl, rfl⟩, h⟩ := h
  cases hlast : t.seq.blockTable.getLast? with
  | none =>
    simp only [hlast, pure_ok] at h
    exact .inl ⟨h.1.symm, h.2.symm, List.getLast?_eq_none_iff.mp hlast⟩
  | some last =>
    refine .inr ⟨last, ?_⟩
    simp only [hlast] at h
    split at h
    · next hone =>
      obtain ⟨rfl, rfl⟩ := pure_ok.mp h
      exact ⟨t, rfl, .refl, .inl ⟨rfl, rfl, hone⟩⟩
    · simp only [bind_ok, query_ok] at h
      obtain ⟨entry, _, ⟨-, rfl⟩, outcome, mid, houtcome, h⟩ := h
      simp only [tryExcept_ok, bind_ok, bind_error, pure_ok, pure_error, and_false,
        exists_false, or_false] at houtcome
      rcases houtcome with ⟨_, _, hfree, rfl, rfl⟩ | ⟨e, _, hfree, rfl, rfl⟩
      · have hr := (ensureFreeBlocks_ok hl hfree).1
        exact ⟨_, rfl, hr.weaken,
          copyTail_ok (hr.ledger hl) (by rw [ManagerState.table, hr.seq, hlast]) h⟩
      · have hr := (ensureFreeBlocks_error hl hfree).1
        obtain ⟨mid', hr', hout⟩ := copyAfterEviction_ok (hr.ledger hl)
          (by rw [ManagerState.table, hr.seq, hlast]) h
        exact ⟨mid', rfl, hr.weaken.trans hr', hout⟩

/-- With a free page at hand copy-on-write reclaims nothing. -/
theorem copyOnWrite_enough {pair : Option BlockPair} (hl : Ledger others t)
    (hfree : 1 ≤ t.pool.freeCount) (h : copyOnWrite t = .ok pair t') :
    (pair = none ∧ t' = t) ∨
      ∃ last, t.table.getLast? = some last ∧ TailCopied last t pair t' := by
  simp only [copyOnWrite, bind_ok, query_ok, get_ok] at h
  obtain ⟨_, _, ⟨-, rfl⟩, _, _, ⟨rfl, rfl⟩, h⟩ := h
  cases hlast : t.seq.blockTable.getLast? with
  | none =>
    simp only [hlast, pure_ok] at h
    exact .inl ⟨h.1.symm, h.2.symm⟩
  | some last =>
    simp only [hlast] at h
    split at h
    · obtain ⟨rfl, rfl⟩ := pure_ok.mp h
      exact .inl ⟨rfl, rfl⟩
    · simp only [bind_ok, query_ok] at h
      obtain ⟨entry, _, ⟨-, rfl⟩, outcome, mid, houtcome, h⟩ := h
      simp only [tryExcept_ok, bind_ok, pure_ok, bind_error,
        ensureFreeBlocks_enough hfree] at houtcome
      obtain ⟨rfl, rfl⟩ : t = mid ∧ none = outcome := by simpa using houtcome
      exact .inr ⟨last, rfl, copyTail_ok hl hlast h⟩

/-! ### Entry hits -/

theorem admitTailClone_steps {id : ℕ} (hl : Ledger others t)
    (hentry : t.cache.get? cacheId = some entry) (hid : id ∈ t.table)
    (h : admitTailClone cacheId id t = .ok u t') : PageSteps true t [] t' := by
  simp only [admitTailClone, bind_ok, readManager_ok, when_ok] at h
  obtain ⟨_, _, ⟨rfl, rfl⟩, ⟨hroom, h⟩ | ⟨-, rfl⟩⟩ := h
  · simp only [gpu_ok, modifyManager_ok] at h
    obtain ⟨_, _, ⟨pool, hpool, rfl⟩, rfl⟩ := h
    obtain ⟨-, hw, hs⟩ := retain_ok hl.gpu hpool
    exact .single (.admitClone rfl hentry hid hroom hs hw)
  · exact .refl t

theorem idleTailClone_some {m : BlockManager H} {id : ℕ} (h : m.idleTailClone entry = some id) :
    id ∈ entry.tailCloneBlockIds ∧ m.refCount id = 1 :=
  ⟨List.mem_of_find?_eq_some h, by simpa using List.find?_some h⟩

theorem mem_pages_of_entry {b : ℕ} (hentry : t.cache.get? cacheId = some entry)
    (hb : b ∈ entry.pages) : b ∈ t.cache.pages :=
  PrefixCache.mem_pages.mpr ⟨(cacheId, entry), OrderedDict.mem_of_get? hentry, hb⟩

theorem compactTailPage_steps {tailRows : ℕ} {copies : List BlockPrefixCopy}
    (hl : Ledger others t) (hentry : t.cache.get? cacheId = some entry)
    (hfree : tailRows ≠ 0 → t.manager.idleTailClone entry = none → 1 ≤ t.pool.freeCount)
    (h : compactTailPage cacheId entry tailRows t = .ok copies t') :
    PageSteps true t (copies.map BlockPrefixCopy.transfer) t' := by
  simp only [compactTailPage, bind_ok, readManager_ok] at h
  obtain ⟨_, _, ⟨rfl, rfl⟩, h⟩ := h
  split at h
  · obtain ⟨rfl, rfl⟩ := pure_ok.mp h
    exact .refl t
  · next hrows =>
    cases hidle : t.manager.idleTailClone entry with
    | some id =>
      simp only [hidle, bind_ok, pure_ok] at h
      obtain ⟨_, _, h, rfl, rfl⟩ := h
      exact appendRetained_steps hl h
    | none =>
      cases htail : entry.blockIds.getLast? with
      | none => simp [hidle, htail] at h
      | some tail =>
        simp only [hidle, htail, bind_ok] at h
        obtain ⟨_, mid, hretain, pair, mid', hcow, h⟩ := h
        obtain ⟨pool, hs, hw, rfl⟩ := appendRetained_ok hl hretain
        have hshare : PageSteps true t [] ((t.setPool pool).setTable (t.table ++ [tail])) :=
          .single (.share rfl hs hw)
        have hpos : 0 < (t.pool.blocks tail).refCount := by
          have hcount := hl.held_of_entry hentry tail
          have hmem : tail ∈ entry.pages :=
            List.mem_append_left _ (List.mem_of_getLast? htail)
          have := List.count_pos_iff.mpr hmem
          simp only [ManagerState.refCount] at hcount
          omega
        have hfree' : 1 ≤ pool.freeCount :=
          (hs.freeCount hl.gpu hw hpos) ▸ hfree hrows hidle
        rcases copyOnWrite_enough (hl.steps hshare) hfree' hcow with
          ⟨rfl, -⟩ | ⟨last, hlast, ⟨rfl, -⟩ | ⟨fresh, rfl, -, hreplace⟩⟩
        · simp at h
        · simp at h
        · simp only [bind_ok, pure_ok] at h
          obtain ⟨_, final, hadmit, rfl, rfl⟩ := h
          have hreplaced : PageSteps true _ [.copyPrefix last fresh tailRows] mid' :=
            .single (.replace hreplace (.inr (.inr ⟨tailRows, rfl⟩)))
          have hpresent : mid'.cache.get? cacheId = some entry := by
            cases hreplace with | intro _ _ _ _ =>
            exact hentry
          have hmem : fresh ∈ mid'.table := by
            cases hreplace with | intro _ _ _ _ =>
            exact List.mem_append_right _ List.mem_cons_self
          have hadmitted : PageSteps true mid' [] final :=
            admitTailClone_steps ((hl.steps hshare).steps hreplaced) hpresent hmem hadmit
          exact hshare.trans (hreplaced.trans_quiet hadmitted)

theorem denseTailPage_steps {tailRows : ℕ} {copies : List BlockPrefixCopy}
    (hl : Ledger others t) (hentry : t.cache.get? cacheId = some entry)
    (h : denseTailPage cacheId entry tailRows t = .ok copies t') :
    PageSteps true t (copies.map BlockPrefixCopy.transfer) t' := by
  simp only [denseTailPage, bind_ok, readManager_ok] at h
  obtain ⟨_, _, ⟨rfl, rfl⟩, h⟩ := h
  split at h
  · obtain ⟨rfl, rfl⟩ := pure_ok.mp h
    exact .refl t
  · cases hidle : t.manager.idleTailClone entry with
    | some id =>
      simp only [hidle, bind_ok, gpu_ok, appendToTable, modifySeq_ok, pure_ok] at h
      obtain ⟨_, _, ⟨mid, hmid, rfl⟩, _, _, ⟨pool, hpool, rfl⟩, _, _, rfl, rfl, rfl⟩ := h
      obtain ⟨hmem, hone⟩ := idleTailClone_some hidle
      obtain ⟨-, hw₁, hs⟩ := retain_ok hl.gpu hmid
      have hpos : 0 < (mid.blocks id).refCount := by
        have := hs.refCount id
        rw [if_pos rfl] at this
        omega
      obtain ⟨hw₂, hc⟩ := clearHash_ok hw₁ hpos hpool
      exact .single (.reviveClone rfl hone
        (mem_pages_of_entry hentry (List.mem_append_right _ hmem)) hs hc hw₂)
    | none =>
      cases htail : entry.blockIds.getLast? with
      | none => simp [hidle, htail] at h
      | some tail =>
        simp only [hidle, htail, bind_ok, gpu_ok, appendToTable, modifySeq_ok, pure_ok] at h
        obtain ⟨fresh, _, ⟨pool, htake, rfl⟩, _, _, rfl, _, _, hadmit, rfl, rfl⟩ := h
        obtain ⟨hw, ht⟩ := allocateFree_ok hl.gpu htake
        have hmem : tail ∈ entry.pages := List.mem_append_left _ (List.mem_of_getLast? htail)
        have htaken : PageSteps true t [.copyPrefix tail fresh tailRows]
            ((t.setPool pool).setTable (t.table ++ [fresh])) :=
          .single (.take ht hw (.inr (.inr ⟨tail, mem_pages_of_entry hentry hmem, tailRows, rfl⟩)))
        have hmem' : fresh ∈ t.table ++ [fresh] := List.mem_append_right _ List.mem_cons_self
        exact htaken.trans_quiet (admitTailClone_steps (hl.steps htaken) hentry hmem' hadmit)

/-- Sharing the full pages of an entry leaves the cache and the free pages alone. -/
theorem shareImmutablePages_ok (hl : Ledger others t)
    (hentry : t.cache.get? cacheId = some entry) (h : shareImmutablePages entry t = .ok u t') :
    PageSteps true t [] t' ∧ t'.cache = t.cache ∧ t'.pool.freeCount = t.pool.freeCount ∧
      ∀ b, b ∉ entry.blockIds → t'.refCount b = t.refCount b := by
  simp only [shareImmutablePages, bind_ok, readManager_ok] at h
  obtain ⟨_, _, ⟨rfl, rfl⟩, h⟩ := h
  refine forEach_invariant (I := fun mid => PageSteps true t [] mid ∧ mid.cache = t.cache ∧
    mid.pool.freeCount = t.pool.freeCount ∧ ∀ b, b ∉ entry.blockIds → mid.refCount b = t.refCount b)
    ?_ ⟨.refl t, rfl, rfl, fun _ _ => rfl⟩ h
  rintro id hid mid mid' ⟨hsteps, hcache, hfree, hrefs⟩ hstep
  have hlmid := hl.steps hsteps
  have hmem : id ∈ entry.blockIds := by
    split at hid
    · exact hid
    · exact List.dropLast_subset _ hid
  have hpos : 0 < (mid.pool.blocks id).refCount := by
    have hcount := hlmid.held_of_entry (hcache ▸ hentry) id
    have := List.count_pos_iff.mpr
      (show id ∈ entry.pages from List.mem_append_left _ hmem)
    simp only [ManagerState.refCount] at hcount
    omega
  obtain ⟨pool, hs, hw, rfl⟩ := appendRetained_ok hlmid hstep
  refine ⟨hsteps.trans (.single (.share rfl hs hw)), hcache,
    (hs.freeCount hlmid.gpu hw hpos).trans hfree, fun b hb => ?_⟩
  have hne : id ≠ b := by
    rintro rfl
    exact hb hmem
  have hcount := hs.refCount b
  rw [if_neg hne, Nat.add_zero] at hcount
  exact hcount.trans (hrefs b hb)

/-- After an entry's pages were made room for and shared, its partial tail page has an idle
clone or a page is free. -/
theorem tail_page_available {tailRows : ℕ} {mid : ManagerState H} (hl : Ledger others t)
    (hentry : t.cache.get? cacheId = some entry)
    (hrows : tailRows = entry.physicalPrefixLen % t.manager.blockSize)
    (hfree : ensureFreeBlocks (t.manager.requiredFreeBlocksForPrefixHit t.seq entry)
      (some cacheId) t = .ok u mid)
    (hshare : shareImmutablePages entry mid = .ok u t') :
    tailRows ≠ 0 → t'.manager.idleTailClone entry = none → 1 ≤ t'.pool.freeCount := by
  intro hne hidle
  obtain ⟨hr, hroom⟩ := ensureFreeBlocks_ok hl hfree
  have hentry' := hr.protected hentry
  obtain ⟨-, -, hcount, hrefs⟩ := shareImmutablePages_ok (hr.ledger hl) hentry' hshare
  rw [hcount]
  have hnone : t.manager.idleTailClone entry = none := by
    simp only [idleTailClone, List.find?_eq_none, decide_eq_true_eq] at hidle ⊢
    intro id hid hone
    refine hidle id hid ?_
    have hheld := (hr.ledger hl).held_of_entry hentry' id
    have hle := hr.refCount_le id
    have hpos := List.count_pos_iff.mpr hid
    have hone' : t.refCount id = 1 := hone
    simp only [MultimodalPrefixCacheEntry.pages, List.count_append] at hheld
    have hnot : id ∉ entry.blockIds := fun hmem => by
      have := List.count_pos_iff.mpr hmem
      omega
    have hsame : t'.refCount id = mid.refCount id := hrefs id hnot
    change t'.refCount id = 1
    omega
  have : 1 ≤ t.manager.requiredFreeBlocksForPrefixHit t.seq entry := by
    rw [requiredFreeBlocksForPrefixHit, if_pos ⟨hrows ▸ hne, hnone⟩]
    omega
  omega

theorem touchEntry_steps (h : touchEntry cacheId t = .ok u t') : PageSteps sharing t [] t' := by
  simp only [touchEntry, modifyManager_ok] at h
  subst h
  exact .single (.reorder ((PrefixCache.SameEntries.hit _ cacheId).trans
    (PrefixCache.SameEntries.moveToEnd _ cacheId)))

theorem recordEntryHit_steps (h : recordEntryHit entry t = .ok u t') :
    PageSteps sharing t [] t' := by
  simp only [recordEntryHit, modifySeq_ok] at h
  subst h
  exact setSeq_steps rfl rfl rfl

theorem installCachedPrefixLayout_ok {seq seq' : Sequence H} {layout : KVCacheLayoutDescriptor}
    (h : seq.installCachedPrefixLayout layout = .ok seq') :
    seq' = { seq with kvLayout := some layout } ∧ seq.kvLayout = none ∧
      layout.logicalContextLen = seq.numCachedTokens ∧
      layout.validate seq.blockSize seq.blockTable false = .ok () := by
  simp only [Sequence.installCachedPrefixLayout, except_bind_ok, ensure_ok, except_pure_ok] at h
  obtain ⟨_, h₁, _, -, _, -, _, h₂, _, h₃, rfl⟩ := h
  exact ⟨rfl, h₁, h₂, h₃⟩

theorem allocateMultimodalPrefixHit_steps {copies : List BlockPrefixCopy} (hl : Ledger others t)
    (hentry : t.cache.get? cacheId = some entry)
    (h : allocateMultimodalPrefixHit cacheId entry t = .ok copies t') :
    PageSteps true t (copies.map BlockPrefixCopy.transfer) t' := by
  simp only [allocateMultimodalPrefixHit, bind_ok, get_ok, modifySeq_ok, query_ok, pure_ok] at h
  obtain ⟨_, _, ⟨rfl, rfl⟩, ⟨⟩, t₁, hfree, ⟨⟩, t₂, hshare, copies', t₃, htail, ⟨⟩, t₄, hgrow, ⟨⟩,
    t₅, hrecord, seq, _, ⟨hinstall, rfl⟩, _, _, rfl, ⟨⟩, t₆, htouch, rfl, rfl⟩ := h
  have hr := (ensureFreeBlocks_ok hl hfree).1
  have hl₁ := hr.ledger hl
  have hentry₁ := hr.protected hentry
  obtain ⟨hsteps₂, hcache₂, -, -⟩ := shareImmutablePages_ok hl₁ hentry₁ hshare
  have hl₂ := hl₁.steps hsteps₂
  have hsteps₃ := compactTailPage_steps hl₂ (hcache₂ ▸ hentry₁)
    (tail_page_available hl hentry rfl hfree hshare) htail
  have hsteps₄ : PageSteps true t₃ [] t₄ := growTable_steps (hl₂.steps hsteps₃) hgrow
  obtain ⟨rfl, -⟩ := installCachedPrefixLayout_ok hinstall
  have hinstalled : PageSteps true t₅ []
      (t₅.setSeq { t₅.seq with kvLayout := some (entryLayout t₅.seq entry) }) :=
    setSeq_steps rfl rfl rfl
  have hquiet : PageSteps true t₃ [] t₆ :=
    hsteps₄.trans ((recordEntryHit_steps hrecord).trans
      (hinstalled.trans (touchEntry_steps htouch)))
  exact hr.steps.trans (hsteps₂.trans (hsteps₃.trans_quiet hquiet))

theorem allocateDenseEntryHit_steps {copies : List BlockPrefixCopy} (hl : Ledger others t)
    (hentry : t.cache.get? cacheId = some entry)
    (h : allocateDenseEntryHit cacheId entry t = .ok copies t') :
    PageSteps true t (copies.map BlockPrefixCopy.transfer) t' := by
  simp only [allocateDenseEntryHit, bind_ok, get_ok, pure_ok] at h
  obtain ⟨_, _, ⟨rfl, rfl⟩, ⟨⟩, t₁, hfree, ⟨⟩, t₂, hshare, copies', t₃, htail, ⟨⟩, t₄, hgrow, ⟨⟩,
    t₅, hrecord, ⟨⟩, t₆, htouch, rfl, rfl⟩ := h
  have hr := (ensureFreeBlocks_ok hl hfree).1
  have hl₁ := hr.ledger hl
  have hentry₁ := hr.protected hentry
  obtain ⟨hsteps₂, hcache₂, -, -⟩ := shareImmutablePages_ok hl₁ hentry₁ hshare
  have hl₂ := hl₁.steps hsteps₂
  have hsteps₃ := denseTailPage_steps hl₂ (hcache₂ ▸ hentry₁) htail
  have hsteps₄ : PageSteps true t₃ [] t₄ := growTable_steps (hl₂.steps hsteps₃) hgrow
  have hquiet : PageSteps true t₃ [] t₆ :=
    hsteps₄.trans ((recordEntryHit_steps hrecord).trans (touchEntry_steps htouch))
  exact hr.steps.trans (hsteps₂.trans (hsteps₃.trans_quiet hquiet))

/-! ### Release and admission -/

/-- Releasing the pages of the table from its end empties the table. -/
theorem dropAll_steps {pool : GpuBlockPool H} (hl : Ledger others t)
    (h : forEach releaseReference t.table.reverse t.pool = .ok u pool) :
    PageSteps sharing t [] ((t.setPool pool).setTable []) := by
  induction hrev : t.table.reverse generalizing t with
  | nil =>
    rw [hrev] at h
    obtain rfl := forEach_nil_ok.mp h
    have hnil : t.table = [] := by simpa using hrev
    have : (t.setPool t.pool).setTable [] = t := by
      rw [← hnil]
      rfl
    rw [this]
    exact .refl t
  | cons last rest ih =>
    rw [hrev] at h
    obtain ⟨mid, hfirst, hrest⟩ := forEach_cons_ok.mp h
    obtain ⟨hw, hrel⟩ := releaseReference_ok hl.gpu hfirst
    have htable : t.table = rest.reverse ++ last :: [] := by
      rw [← List.reverse_reverse t.table, hrev, List.reverse_cons]
    have hdrop : PageSteps sharing t [] ((t.setPool mid).setTable (rest.reverse ++ [])) :=
      .single (.drop htable hrel hw)
    rw [List.append_nil] at hdrop
    refine hdrop.trans (ih (t := (t.setPool mid).setTable rest.reverse) (hl.steps hdrop) ?_ ?_)
    · change forEach releaseReference rest.reverse.reverse mid = .ok u pool
      rwa [List.reverse_reverse]
    · exact List.reverse_reverse rest

theorem deallocate_steps (hl : Ledger others t) (h : deallocate t = .ok u t') :
    PageSteps sharing t [] t' := by
  simp only [deallocate, bind_ok, query_ok, readSeq_ok, forEach_gpu_ok, cpu_ok, modifySeq_ok] at h
  obtain ⟨_, _, ⟨-, rfl⟩, _, _, ⟨rfl, rfl⟩, _, t₁, hvalid, _, _, ⟨pool, hpool, rfl⟩, _, _,
    ⟨cpuPool, hcpu, rfl⟩, rfl⟩ := h
  have heq : t = t₁ := by
    simp only [when_ok, cpu_ok] at hvalid
    rcases hvalid with ⟨-, p, hp, rfl⟩ | ⟨-, rfl⟩
    · obtain ⟨rfl, -, -⟩ := CpuBlockPool.validateOwned_ok hp
      rfl
    · rfl
  subst heq
  have hdropped : PageSteps sharing t [] ((t.setPool pool).setTable []) := dropAll_steps hl hpool
  obtain ⟨hw, -, -, hused, hcapacity⟩ := CpuBlockPool.releaseMany_ok hl.cpu hcpu
  have hreleased : PageSteps sharing ((t.setPool pool).setTable []) []
      ((((t.setPool pool).setTable []).setCpuPool cpuPool).dropCpu) :=
    .single (.releaseCpu hused hcapacity hw)
  exact hdropped.trans (hreleased.trans (setSeq_steps rfl rfl rfl))

theorem matchingMultimodalPrefix_some {m : BlockManager H} {seq : Sequence H}
    (h : m.matchingMultimodalPrefix seq = .ok (some (cacheId, entry))) :
    m.enablePrefixCaching = true ∧ seq.request.prefixCacheId = some cacheId ∧
      m.multimodalPrefixCache.get? cacheId = some entry ∧ entry.key = cacheId.mediaKey ∧
      entry.logicalPrefixLen = cacheId.promptPrefix.length ∧
      entry.promptPrefixTokenIds = cacheId.promptPrefix := by
  simp only [matchingMultimodalPrefix] at h
  split at h
  · simp at h
  · next hcaching =>
    cases hid : seq.request.prefixCacheId with
    | none => simp [hid] at h
    | some id =>
      cases hget : m.multimodalPrefixCache.get? id with
      | none => simp [hid, hget] at h
      | some found =>
        simp only [hid, hget, except_bind_ok, ensure_ok, except_pure_ok] at h
        obtain ⟨_, hcheck, heq⟩ := h
        obtain ⟨rfl, rfl⟩ : id = cacheId ∧ found = entry := by simpa using heq
        exact ⟨by simpa using hcaching, rfl, hget, hcheck.1, hcheck.2.1, hcheck.2.2⟩

theorem releaseOnError_ok {α : Type} {x : ManagerAction H α} {a : α} :
    releaseOnError x t = .ok a t' ↔ x t = .ok a t' := by
  simp [releaseOnError, tryExcept_ok]

theorem allocate_steps {copies : List BlockPrefixCopy} (hl : Ledger others t)
    (h : allocate t = .ok copies t') :
    PageSteps true t (copies.map BlockPrefixCopy.transfer) t' := by
  simp only [allocate, bind_ok, query_ok, readSeq_ok, require_ok, get_ok] at h
  obtain ⟨_, _, ⟨-, rfl⟩, _, _, ⟨rfl, rfl⟩, _, _, ⟨-, rfl⟩, _, _, ⟨-, rfl⟩, _, _, ⟨rfl, rfl⟩,
    found, _, ⟨hfound, rfl⟩, _, _, ⟨-, rfl⟩, h⟩ := h
  cases found with
  | none =>
    simp only [bind_ok, when_ok, query_ok, pure_ok] at h
    obtain ⟨_, _, hprobe, h⟩ := h
    rcases hprobe with ⟨-, _, _, ⟨-, rfl⟩, -, rfl⟩ | ⟨-, rfl⟩ <;> exact allocateDense_steps hl h
  | some found =>
    obtain ⟨cacheId, entry⟩ := found
    have hentry := (matchingMultimodalPrefix_some hfound).2.2.1
    simp only at h
    split at h
    · exact allocateDenseEntryHit_steps hl hentry (releaseOnError_ok.mp h)
    · exact allocateMultimodalPrefixHit_steps hl hentry (releaseOnError_ok.mp h)

/-! ### Storing and clearing entries -/

theorem makeRoomLoop_ok {prefixBlocks fuel : ℕ} {utility : ℚ} {fits : Bool}
    (hl : Ledger others t) (h : makeRoomLoop prefixBlocks utility fuel t = .ok fits t') :
    Reclaimed none t t' ∧ (fits = true → t'.cacheBlocks + prefixBlocks ≤
      t'.manager.multimodalPrefixCacheMaxBlocks) := by
  induction fuel generalizing t with
  | zero =>
    simp only [makeRoomLoop, bind_ok, readManager_ok, pure_ok] at h
    obtain ⟨_, _, ⟨rfl, rfl⟩, rfl, rfl⟩ := h
    exact ⟨.refl, fun h => by simpa using h⟩
  | succ fuel ih =>
    simp only [makeRoomLoop, bind_ok, readManager_ok] at h
    obtain ⟨_, _, ⟨rfl, rfl⟩, h⟩ := h
    split at h
    · next hroom =>
      obtain ⟨rfl, rfl⟩ := pure_ok.mp h
      exact ⟨.refl, fun _ => hroom⟩
    · obtain ⟨dropped, mid, hdrop, hrest⟩ := bind_ok.mp h
      rcases dropIdleTailClone_ok hl hdrop with ⟨rfl, rfl, -⟩ | ⟨rfl, hstep⟩
      · simp only [Bool.false_eq_true, if_false, bind_ok, readManager_ok] at hrest
        obtain ⟨_, _, ⟨rfl, rfl⟩, hrest⟩ := hrest
        cases hc : mid.manager.evictionCandidate none with
        | none =>
          simp only [hc, pure_ok] at hrest
          obtain ⟨rfl, rfl⟩ := hrest
          exact ⟨.refl, by simp⟩
        | some cacheId =>
          obtain ⟨hne, entry, hentry⟩ := evictionCandidate_some hl.keys hc
          simp only [hc, hentry] at hrest
          split at hrest
          · obtain ⟨rfl, rfl⟩ := pure_ok.mp hrest
            exact ⟨.refl, by simp⟩
          · simp only [bind_ok] at hrest
            obtain ⟨_, mid', hevict, hrest⟩ := hrest
            have hstep := evictMultimodalPrefix_ok hl hne hevict
            obtain ⟨hr, hfits⟩ := ih (hl.reclaim hstep) hrest
            exact ⟨.head hstep hr, hfits⟩
      · obtain ⟨hr, hfits⟩ := ih (hl.reclaim hstep) (by simpa using hrest)
        exact ⟨.head hstep hr, hfits⟩

theorem get?_remove_self {cache : PrefixCache} : (cache.remove cacheId).get? cacheId = none := by
  rw [OrderedDict.get?_eq_none]
  simp [OrderedDict.remove]

/-- Reclaiming never brings an entry back. -/
theorem Reclaimed.absent (h : Reclaimed protectedId t t') (hnone : t.cache.get? cacheId = none) :
    t'.cache.get? cacheId = none := by
  rw [OrderedDict.get?_eq_none] at hnone ⊢
  induction h with
  | refl => exact hnone
  | tail _ hlast ih =>
    cases hlast with
    | evict _ _ _ _ => exact fun hmem => ih ((List.filter_sublist.map _).subset hmem)
    | dropClone _ _ _ _ _ _ =>
      simp only [ManagerState.cache, ManagerState.setCache, OrderedDict.keys_update]
      exact ih

theorem insertEntry_steps (hl : Ledger others t) (hnew : t.cache.get? cacheId = none)
    (hblocks : entry.blockIds <+: t.table) (hclones : entry.tailCloneBlockIds = [])
    (hroom : t.cacheBlocks + entry.blockIds.length ≤ t.manager.multimodalPrefixCacheMaxBlocks)
    (h : insertEntry cacheId entry t = .ok u t') : PageSteps true t [] t' := by
  simp only [insertEntry, bind_ok, forEach_gpu_ok, modifyManager_ok] at h
  obtain ⟨_, _, ⟨pool, hpool, rfl⟩, rfl⟩ := h
  obtain ⟨hw, hs⟩ := retainAll_ok hl.gpu hpool
  exact .single (.insert rfl hnew hblocks hclones hroom hs hw)

theorem storeEntry_steps {mediaKey : MediaKey} {boundary : ℕ} {stored : Bool}
    (hl : Ledger others t) (hblocks : entry.blockIds = t.table.take
      (pagesFor entry.physicalPrefixLen t.manager.blockSize))
    (hclones : entry.tailCloneBlockIds = [])
    (h : storeEntry mediaKey boundary entry t = .ok stored t') : PageSteps true t [] t' := by
  simp only [storeEntry, bind_ok, get_ok] at h
  obtain ⟨_, _, ⟨rfl, rfl⟩, h⟩ := h
  split at h
  · obtain ⟨-, rfl⟩ := pure_ok.mp h
    exact .refl t
  · split at h
    · obtain ⟨-, rfl⟩ := pure_ok.mp h
      exact .refl t
    · next hfits =>
      cases hget : t.manager.multimodalPrefixCache.get?
          ⟨mediaKey, t.seq.request.promptTokenIds.take boundary⟩ with
      | some existing =>
        simp only [hget, bind_ok, require_ok, modifyManager_ok, pure_ok] at h
        obtain ⟨_, _, ⟨-, rfl⟩, _, _, rfl, -, rfl⟩ := h
        exact .single (.reorder (PrefixCache.SameEntries.moveToEnd _ _))
      | none =>
        simp only [hget, bind_ok] at h
        obtain ⟨fits, mid, hroom, h⟩ := h
        obtain ⟨hr, hfit⟩ := makeRoomLoop_ok hl hroom
        cases fits with
        | false =>
          simp only [Bool.false_eq_true, if_false, pure_ok] at h
          obtain ⟨-, rfl⟩ := h
          exact hr.steps
        | true =>
          simp only [if_true, bind_ok, pure_ok] at h
          obtain ⟨_, _, hinsert, -, rfl⟩ := h
          have hlength : entry.blockIds.length =
              pagesFor entry.physicalPrefixLen t.manager.blockSize := by
            rw [hblocks, List.length_take, min_eq_left]
            exact not_lt.mp (not_or.mp hfits).2
          refine hr.steps.trans (insertEntry_steps (hr.ledger hl) (hr.absent hget) ?_ hclones ?_
            hinsert)
          · rw [ManagerState.table, hr.seq, hblocks]
            exact List.take_prefix _ _
          · rw [hlength]
            exact hfit rfl

theorem prefixEntryOf_some {m : BlockManager H} {seq : Sequence H} {mediaKey : MediaKey}
    {boundary : ℕ} (h : m.prefixEntryOf seq mediaKey boundary = some entry) :
    entry.blockIds = seq.blockTable.take (pagesFor entry.physicalPrefixLen m.blockSize) ∧
      entry.tailCloneBlockIds = [] := by
  simp only [prefixEntryOf] at h
  cases hlayout : seq.kvLayout with
  | some layout =>
    simp only [hlayout, Option.some.injEq] at h
    subst h
    exact ⟨rfl, rfl⟩
  | none =>
    simp only [hlayout] at h
    split at h
    · obtain rfl := Option.some.inj h
      exact ⟨rfl, rfl⟩
    · simp at h

theorem storeMultimodalPrefix_steps {stored : Bool} (hl : Ledger others t)
    (h : storeMultimodalPrefix t = .ok stored t') : PageSteps true t [] t' := by
  simp only [storeMultimodalPrefix, bind_ok, query_ok, get_ok] at h
  obtain ⟨_, _, ⟨-, rfl⟩, _, _, ⟨rfl, rfl⟩, h⟩ := h
  cases hkey : t.seq.request.multimodalPrefixCacheKey with
  | none =>
    simp only [hkey, pure_ok] at h
    exact h.2 ▸ .refl t
  | some mediaKey =>
    cases hboundary : t.seq.request.multimodalPrefixBoundary with
    | none =>
      simp only [hkey, hboundary, pure_ok] at h
      exact h.2 ▸ .refl t
    | some boundary =>
      simp only [hkey, hboundary] at h
      split at h
      · exact (pure_ok.mp h).2 ▸ .refl t
      · simp only [bind_ok, require_ok] at h
        obtain ⟨_, _, ⟨-, rfl⟩, h⟩ := h
        cases hentry : t.manager.prefixEntryOf t.seq mediaKey boundary with
        | none =>
          simp only [hentry, pure_ok] at h
          exact h.2 ▸ .refl t
        | some entry =>
          simp only [hentry] at h
          obtain ⟨hblocks, hclones⟩ := prefixEntryOf_some hentry
          exact storeEntry_steps hl hblocks hclones h

theorem clearMultimodalPrefixCache_steps (hl : Ledger others t)
    (h : clearMultimodalPrefixCache t = .ok u t') : PageSteps sharing t [] t' := by
  simp only [clearMultimodalPrefixCache, bind_ok, readManager_ok] at h
  obtain ⟨_, _, ⟨rfl, rfl⟩, h⟩ := h
  exact forEach_steps (fun id _ t t' hl hevict =>
    .single (.reclaim (evictMultimodalPrefix_ok hl (Option.some_ne_none id) hevict))) hl h

/-! ### Appends and publication -/

theorem mayAppend_steps (hl : Ledger others t) (h : mayAppend t = .ok u t') :
    PageSteps sharing t [] t' := by
  simp only [mayAppend, bind_ok, query_ok, get_ok, when_ok] at h
  obtain ⟨_, _, ⟨-, rfl⟩, _, _, ⟨rfl, rfl⟩, ⟨-, _, mid, hfree, happend⟩ | ⟨-, rfl⟩⟩ := h
  · have hr := (ensureFreeBlocks_ok hl hfree).1
    exact hr.steps.trans (appendFreeBlock_steps (hr.ledger hl) happend)
  · exact .refl t

theorem blockHashAndMm_ok {m : BlockManager H} {seq : Sequence H} {i : ℕ}
    {prefixHash blockHash : Option H} {mm : Option MmTokenHashes}
    (hhash : m.hashableSequence seq = true)
    (h : m.blockHashAndMm seq i prefixHash = .ok (blockHash, mm)) :
    blockHash = some (computeHash (seq.blockTokens i) prefixHash mm) ∧ i < seq.numBlocks ∧
      mm = if seq.request.isMultimodal then seq.request.mmTokenHashesForBlock H i m.blockSize
        else none := by
  simp only [blockHashAndMm, Sequence.block, except_bind_ok, ensure_ok, except_pure_ok] at h
  obtain ⟨_, ⟨_, hi, rfl⟩, h⟩ := h
  rw [hhash] at h
  by_cases hmm : seq.request.isMultimodal = true
  · simp only [hmm, if_true, except_pure_ok, Prod.mk.injEq] at h ⊢
    obtain ⟨rfl, rfl⟩ := h
    exact ⟨rfl, hi, rfl⟩
  · simp only [hmm, Bool.false_eq_true, if_false, except_pure_ok, Prod.mk.injEq] at h ⊢
    obtain ⟨rfl, rfl⟩ := h
    exact ⟨rfl, hi, rfl⟩

theorem publishLoop_steps {chain : Option H} {indices : List ℕ} (hl : Ledger others t)
    (hhash : t.manager.hashableSequence t.seq = true)
    (h : publishLoop chain indices t = .ok u t') : PageSteps sharing t [] t' := by
  induction indices generalizing t chain with
  | nil =>
    obtain ⟨-, rfl⟩ := pure_ok.mp h
    exact .refl t
  | cons i indices ih =>
    simp only [publishLoop, bind_ok, query_ok, readSeq_ok] at h
    obtain ⟨⟨blockHash, mm⟩, _, ⟨hblock, rfl⟩, _, _, ⟨rfl, rfl⟩, tokenIds, _, ⟨-, rfl⟩, h⟩ := h
    cases hid : t.seq.blockTable[i]? with
    | none => simp [hid] at h
    | some id =>
      simp only [hid, bind_ok, gpu_ok] at h
      obtain ⟨_, _, ⟨pool, hregister, rfl⟩, hrest⟩ := h
      obtain ⟨rfl, -, -⟩ := blockHashAndMm_ok hhash hblock
      obtain ⟨hw, hreg⟩ := registerHash_ok hl.gpu hregister
      have hfirst : PageSteps sharing t [] (t.setPool pool) :=
        .single (.register (List.mem_of_getElem? hid) hreg hw)
      exact hfirst.trans (ih (hl.steps hfirst) hhash hrest)

theorem publishComputedBlocks_steps {tokenStart tokenEnd : ℕ} (hl : Ledger others t)
    (h : publishComputedBlocks tokenStart tokenEnd t = .ok u t') : PageSteps sharing t [] t' := by
  simp only [publishComputedBlocks, bind_ok, get_ok] at h
  obtain ⟨_, _, ⟨rfl, rfl⟩, h⟩ := h
  split at h
  · exact (pure_ok.mp h).2 ▸ .refl t
  · next hgo =>
    simp only [bind_ok, query_ok] at h
    obtain ⟨chain, _, ⟨-, rfl⟩, h⟩ := h
    refine publishLoop_steps hl ?_ h
    simp only [not_or] at hgo
    simpa using hgo.2.2.2

/-! ### Swapping -/

/-- Releasing the pages of the table from its start empties the table. -/
theorem dropAllForward_steps {pool : GpuBlockPool H} {ids : List ℕ} (hl : Ledger others t)
    (htable : t.table = ids) (h : forEach releaseReference ids t.pool = .ok u pool) :
    PageSteps sharing t [] ((t.setPool pool).setTable []) := by
  induction ids generalizing t with
  | nil =>
    obtain rfl := forEach_nil_ok.mp h
    have : (t.setPool t.pool).setTable [] = t := by
      rw [← htable]
      rfl
    rw [this]
    exact .refl t
  | cons id ids ih =>
    obtain ⟨mid, hfirst, hrest⟩ := forEach_cons_ok.mp h
    obtain ⟨hw, hrel⟩ := releaseReference_ok hl.gpu hfirst
    have hdrop : PageSteps sharing t [] ((t.setPool mid).setTable ([] ++ ids)) :=
      .single (@PageStep.drop _ _ _ _ [] ids id mid htable hrel hw)
    exact hdrop.trans (ih (hl.steps hdrop) rfl hrest)

theorem swapOut_steps {pairs : List BlockPair} (hl : Ledger others t)
    (h : swapOut t = .ok pairs t') :
    PageSteps sharing t (pairs.map fun (gpuPage, cpuPage) => .swapOut gpuPage cpuPage) t' := by
  simp only [swapOut, bind_ok, query_ok, get_ok, require_ok, gpu_ok, cpu_ok, forEach_gpu_ok,
    modifySeq_ok, pure_ok] at h
  obtain ⟨_, _, ⟨-, rfl⟩, _, _, ⟨rfl, rfl⟩, _, _, ⟨hcpu, rfl⟩, _, _, ⟨-, rfl⟩, _, _, ⟨-, rfl⟩, _,
    _, ⟨p₀, hvalid, rfl⟩, cpuTable, _, ⟨cpuPool, halloc, rfl⟩, _, _, ⟨pool, hrelease, rfl⟩, _, _,
    rfl, _, _, ⟨-, rfl⟩, rfl, rfl⟩ := h
  obtain ⟨rfl, -⟩ := GpuBlockPool.validateOwned_ok hvalid
  obtain ⟨hlength, hnodup, hfresh, hw, hused, hcapacity⟩ :=
    CpuBlockPool.allocateMany_ok hl.cpu halloc
  have hsave : PageSteps sharing t _ ((t.setCpuPool cpuPool).saveBlocks cpuTable) :=
    .single (.saveToCpu hcpu hlength hnodup hfresh hused hcapacity hw)
  exact hsave.trans_quiet (dropAllForward_steps (hl.steps hsave) rfl hrelease)

/-- Taking fresh pages for the blocks of CPU pages. -/
theorem takeAll_steps {pool : GpuBlockPool H} {cpuPages ids : List ℕ} (hl : Ledger others t)
    (hcpu : ∀ page ∈ cpuPages, page ∈ t.seq.cpuBlockTable) (hlength : ids.length = cpuPages.length)
    (h : TookAll t.pool ids pool) :
    PageSteps sharing t ((cpuPages.zip ids).map fun (cpuPage, gpuPage) => .swapIn cpuPage gpuPage)
      ((t.setPool pool).setTable (t.table ++ ids)) := by
  induction ids generalizing t cpuPages with
  | nil =>
    cases h
    rw [List.zip_nil_right, List.append_nil]
    exact .refl t
  | cons id ids ih =>
    cases cpuPages with
    | nil => simp at hlength
    | cons page cpuPages =>
      cases h with | @cons _ mid _ _ _ first hw rest =>
      have htake : PageStep sharing t [.swapIn page id]
          ((t.setPool mid).setTable (t.table ++ [id])) :=
        .take first hw (.inr (.inl ⟨page, hcpu page List.mem_cons_self, rfl⟩))
      have hrest : PageSteps sharing ((t.setPool mid).setTable (t.table ++ [id]))
          ((cpuPages.zip ids).map fun (cpuPage, gpuPage) => .swapIn cpuPage gpuPage)
          ((t.setPool pool).setTable ((t.table ++ [id]) ++ ids)) :=
        ih (hl.step htake) (fun p hp => hcpu p (List.mem_cons_of_mem page hp))
          (by simpa using hlength) rest
      rw [List.append_assoc] at hrest
      exact .head htake hrest

/-- Restoring hashes changes the pool only, whatever table holds the pages. -/
theorem restoreHashes_steps {items : List (ℕ × Option H × List ℕ × Option MmTokenHashes)}
    {table : List ℕ} (hids : ∀ item ∈ items, item.1 ∈ table)
    (hl : Ledger others (t.setTable table)) (h : forEach restoreHash items t = .ok u t') :
    ∃ pool, t' = t.setPool pool ∧
      PageSteps sharing (t.setTable table) [] ((t.setPool pool).setTable table) := by
  induction items generalizing t with
  | nil =>
    obtain rfl := forEach_nil_ok.mp h
    exact ⟨t.pool, rfl, .refl _⟩
  | cons item items ih =>
    obtain ⟨mid, hfirst, hrest⟩ := forEach_cons_ok.mp h
    obtain ⟨id, blockHash, tokenIds, mm⟩ := item
    have hrest' := fun x hx => hids x (List.mem_cons_of_mem _ hx)
    cases blockHash with
    | none =>
      simp only [restoreHash, pure_ok, true_and] at hfirst
      exact ih hrest' hl (hfirst ▸ hrest)
    | some blockHash =>
      simp only [restoreHash, gpu_ok] at hfirst
      obtain ⟨pool, hregister, rfl⟩ := hfirst
      obtain ⟨hw, hreg⟩ := registerHash_ok hl.gpu hregister
      have hstep : PageStep sharing (t.setTable table) [] ((t.setTable table).setPool pool) :=
        .register (hids _ List.mem_cons_self) hreg hw
      obtain ⟨pool', rfl, hsteps⟩ := ih (t := t.setPool pool) hrest' (hl.step hstep) hrest
      exact ⟨pool', rfl, .head hstep hsteps⟩

theorem swapIn_steps {pairs : List BlockPair} (hl : Ledger others t)
    (h : swapIn t = .ok pairs t') :
    PageSteps sharing t (pairs.map fun (cpuPage, gpuPage) => .swapIn cpuPage gpuPage) t' := by
  simp only [swapIn, bind_ok, query_ok, get_ok, require_ok, gpu_ok, cpu_ok, modifySeq_ok,
    pure_ok] at h
  obtain ⟨_, _, ⟨-, rfl⟩, _, _, ⟨rfl, rfl⟩, _, _, ⟨htable, rfl⟩, _, _, ⟨-, rfl⟩, _, _, ⟨-, rfl⟩,
    _, _, ⟨cpuPool₀, hvalid, rfl⟩, _, t₁, hfree, _, _, ⟨-, rfl⟩, newTable, _, ⟨pool, htake, rfl⟩,
    _, t₂, hrestore, _, _, ⟨cpuPool, hrelease, rfl⟩, _, _, rfl, _, _, ⟨-, rfl⟩, rfl, rfl⟩ := h
  obtain ⟨rfl, -⟩ := CpuBlockPool.validateOwned_ok hvalid
  have hr : Reclaimed none t t₁ := (ensureFreeBlocks_ok hl hfree).1
  have hl₁ := hr.ledger hl
  obtain ⟨hlength, hw, htook⟩ := allocateMany_ok hl₁.gpu htake
  have htaken : PageSteps sharing t₁ ((t.seq.cpuBlockTable.zip newTable).map
      fun (cpuPage, gpuPage) => .swapIn cpuPage gpuPage) ((t₁.setPool pool).setTable newTable) := by
    have hall : PageSteps sharing t₁ _ ((t₁.setPool pool).setTable (t₁.table ++ newTable)) :=
      takeAll_steps hl₁ (fun page hp => hr.seq ▸ hp) hlength htook
    rwa [ManagerState.table, hr.seq, htable, List.nil_append] at hall
  have hl₂ := hl₁.steps htaken
  obtain ⟨pool', rfl, hregistered⟩ := restoreHashes_steps
    (fun item hitem => (List.of_mem_zip hitem).1) hl₂ hrestore
  obtain ⟨hwc, -, -, hused, hcapacity⟩ :=
    CpuBlockPool.releaseMany_ok (hl₂.steps hregistered).cpu hrelease
  have hreleased : PageSteps sharing (((t₁.setPool pool).setPool pool').setTable newTable) []
      ((((t₁.setPool pool).setPool pool').setTable newTable).setCpuPool cpuPool).dropCpu := by
    refine .single (.releaseCpu (fun id => ?_) hcapacity hwc)
    rw [hused]
    change _ ↔ _ ∧ id ∉ t₁.seq.cpuBlockTable
    rw [hr.seq]
  exact hr.steps.trans (htaken.trans_quiet (hregistered.trans hreleased))

end BlockManager

end PrismInfer
