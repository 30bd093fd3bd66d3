import PrismInfer.BlockManagerRuns
import PrismInfer.KVCompactionEq

/-!
# What the prefix cache can give up

A page is free or reclaimable exactly where the unprotected entries hold all its
references. What else holds a page never changes while entries are evicted, so the free
pages and the reclaimable ones together are conserved.
-/
set_option linter.unusedSectionVars false

namespace PrismInfer
open StateExcept GpuBlockPool

variable {H : Type} [DecidableEq H] [Digests H]

namespace BlockManager

variable {others : Others} {t t' : ManagerState H} {u : Unit}
  {protectedId : Option CacheId} {cacheId : CacheId} {entry : MultimodalPrefixCacheEntry}

/-- The entries that may be evicted. -/
def unprotected (manager : BlockManager H) (protectedId : Option CacheId) : PrefixCache :=
  manager.multimodalPrefixCache.filter fun item => some item.1 ≠ protectedId

theorem unprotectedPages_eq (manager : BlockManager H) :
    manager.unprotectedPages protectedId = (manager.unprotected protectedId).pages := rfl

theorem count_unprotected_le (hl : Ledger others t) (b : ℕ) :
    (t.manager.unprotectedPages protectedId).count b ≤ t.refCount b := by
  have hsub : (t.manager.unprotectedPages protectedId).count b ≤ t.cache.pages.count b := by
    rw [unprotectedPages_eq, PrefixCache.count_pages, PrefixCache.count_pages]
    exact (List.filter_sublist.map _).sum_le_sum fun _ _ => Nat.zero_le _
  have := hl.refs b
  simp only [ManagerState.refCount]
  omega

/-- Free and reclaimable pages are those whose references all come from entries that may be
evicted. -/
theorem free_add_reclaimable (hl : Ledger others t) :
    t.pool.freeCount + t.manager.reclaimableCacheBlocks protectedId =
      ((Finset.range t.pool.capacity).filter fun b =>
        t.refCount b = (t.manager.unprotectedPages protectedId).count b).card := by
  let pages := t.manager.unprotectedPages protectedId
  have hle : ∀ b, pages.count b ≤ t.refCount b := count_unprotected_le hl
  have hreclaimable : t.manager.reclaimableCacheBlocks protectedId =
      (pages.toFinset.filter fun b => t.refCount b = pages.count b).card := by
    rw [reclaimableCacheBlocks, ← List.toFinset_card_of_nodup ((List.nodup_dedup _).filter _)]
    congr 1
    ext b
    simp only [List.mem_toFinset, List.mem_filter, List.mem_dedup, decide_eq_true_eq,
      Finset.mem_filter]
    exact Iff.rfl
  rw [hl.gpu.freeCount_eq, hreclaimable, ← Finset.card_union_of_disjoint]
  · congr 1
    ext b
    simp only [Finset.mem_union, Finset.mem_filter, Finset.mem_range, List.mem_toFinset]
    constructor
    · rintro (⟨hb, hzero⟩ | ⟨hb, heq⟩)
      · refine ⟨hb, ?_⟩
        have hle' : (t.manager.unprotectedPages protectedId).count b ≤ t.refCount b := hle b
        have hzero' : t.refCount b = 0 := hzero
        omega
      · have hpos : 0 < t.refCount b := heq ▸ List.count_pos_iff.mpr hb
        exact ⟨hl.gpu.used_lt b (hl.gpu.used_of_held hpos), heq⟩
    · rintro ⟨hb, heq⟩
      by_cases hmem : b ∈ pages
      · exact .inr ⟨hmem, heq⟩
      · have hzero : pages.count b = 0 := List.count_eq_zero.mpr hmem
        exact .inl ⟨hb, heq.trans hzero⟩
  · rw [Finset.disjoint_left]
    intro b hfree hmem
    obtain ⟨-, hzero⟩ := Finset.mem_filter.mp hfree
    obtain ⟨hb, heq⟩ := Finset.mem_filter.mp hmem
    have hpos : 0 < pages.count b := List.count_pos_iff.mpr (List.mem_toFinset.mp hb)
    simp only [ManagerState.refCount] at heq
    omega

/-- The protected entry, if it is stored. -/
def protectedEntries (cache : PrefixCache) (protectedId : Option CacheId) : PrefixCache :=
  cache.filter fun item => some item.1 = protectedId

theorem count_pages_split (protectedId : Option CacheId) (manager : BlockManager H) (b : ℕ) :
    manager.multimodalPrefixCache.pages.count b =
      (manager.unprotectedPages protectedId).count b +
        (protectedEntries manager.multimodalPrefixCache protectedId).pages.count b := by
  have hperm := List.filter_append_perm
    (fun item : CacheId × MultimodalPrefixCacheEntry => decide (some item.1 ≠ protectedId))
    manager.multimodalPrefixCache
  rw [unprotectedPages_eq, ← List.count_append, PrefixCache.pages, PrefixCache.pages,
    PrefixCache.pages, ← List.flatMap_append, ← (hperm.flatMap_right _).count_eq b]
  congr 3
  refine List.filter_congr fun item _ => ?_
  by_cases h : some item.1 = protectedId <;> simp [h]

theorem protectedEntries_update (cache : PrefixCache) (hne : some cacheId ≠ protectedId)
    (f : MultimodalPrefixCacheEntry → MultimodalPrefixCacheEntry) :
    protectedEntries (cache.update cacheId f) protectedId = protectedEntries cache protectedId := by
  induction cache with
  | nil => rfl
  | cons item cache ih =>
    simp only [protectedEntries, OrderedDict.update] at ih
    simp only [protectedEntries, OrderedDict.update, List.map_cons, List.filter_cons, ih]
    by_cases hitem : item.1 = cacheId
    · simp [hitem, hne]
    · simp [hitem]

/-- Neither removing nor changing another entry touches the protected one. -/
theorem protectedEntries_step (h : ReclaimStep protectedId t t') :
    protectedEntries t'.cache protectedId = protectedEntries t.cache protectedId := by
  cases h with
  | @evict cacheId entry pool hne _ _ _ =>
    change List.filter _ (List.filter _ _) = _
    rw [List.filter_filter]
    refine List.filter_congr fun item _ => ?_
    by_cases h : item.1 = cacheId
    · simp [h, hne]
    · simp [h]
  | @dropClone cacheId entry id pool hne _ _ _ _ _ =>
    simp only [ManagerState.cache, ManagerState.setCache]
    exact protectedEntries_update _ hne _

/-- Whatever else holds a page keeps holding it. -/
theorem pinned_step (hl : Ledger others t) (h : ReclaimStep protectedId t t') (b : ℕ) :
    t'.refCount b + (t.manager.unprotectedPages protectedId).count b =
      t.refCount b + (t'.manager.unprotectedPages protectedId).count b := by
  have hrefs := hl.refs b
  have hrefs' := (hl.reclaim h).refs b
  have hsplit := count_pages_split protectedId t.manager b
  have hsplit' := count_pages_split protectedId t'.manager b
  have hsame := protectedEntries_step h
  have htable : t'.table = t.table := by cases h <;> rfl
  simp only [ManagerState.refCount, ManagerState.cache] at *
  rw [hsame] at hsplit'
  rw [htable] at hrefs'
  omega

theorem reclaimed_conserves (hl : Ledger others t) (h : Reclaimed protectedId t t') :
    t'.pool.freeCount + t'.manager.reclaimableCacheBlocks protectedId =
      t.pool.freeCount + t.manager.reclaimableCacheBlocks protectedId := by
  induction h with
  | refl => rfl
  | @tail mid t' hmid hlast ih =>
    have hledger : Ledger others mid := Reclaimed.ledger hl hmid
    rw [← ih, free_add_reclaimable hledger, free_add_reclaimable (hledger.reclaim hlast),
      (SameConfig.reclaim hlast).capacity]
    congr 1
    refine Finset.filter_congr fun b _ => ?_
    have := pinned_step hledger hlast b
    omega

/-! ### The loop ends by itself -/

theorem reclaimFuel_eq (manager : BlockManager H) :
    manager.reclaimFuel = (manager.multimodalPrefixCache.weight fun entry =>
      1 + entry.tailCloneBlockIds.length) + 1 := by
  rw [reclaimFuel, OrderedDict.weight, List.sum_map_add]
  simp

/-- Every step gives up an entry or a clone. -/
theorem reclaimFuel_step (hl : Ledger others t) (h : ReclaimStep protectedId t t') :
    t'.manager.reclaimFuel < t.manager.reclaimFuel := by
  rw [reclaimFuel_eq, reclaimFuel_eq]
  cases h with
  | evict _ hentry _ _ =>
    have := OrderedDict.weight_remove
      (f := fun entry => 1 + entry.tailCloneBlockIds.length) hl.keys hentry
    simp only [ManagerState.cache, ManagerState.setCache] at this ⊢
    omega
  | @dropClone _ _ id _ _ hentry hid _ _ _ =>
    have := OrderedDict.weight_update
      (f := fun entry => 1 + entry.tailCloneBlockIds.length) hl.keys hentry
      fun entry => { entry with tailCloneBlockIds := entry.tailCloneBlockIds.erase id }
    have := List.length_erase_of_mem hid
    have := List.length_pos_of_mem hid
    simp only [ManagerState.cache, ManagerState.setCache] at *
    omega

/-- Nothing is left to give up. -/
def Exhausted (protectedId : Option CacheId) (t : ManagerState H) : Prop :=
  t.manager.droppableTailClone protectedId = none ∧ t.manager.evictionCandidate protectedId = none

theorem argminBy_eq_none {α : Type} {f : α → ℚ} {l : List α} : argminBy f l = none ↔ l = [] := by
  cases l with
  | nil => exact ⟨fun _ => rfl, fun _ => rfl⟩
  | cons a l =>
    simp only [argminBy]
    split
    · simp
    · split <;> simp

theorem unprotected_of_exhausted (h : Exhausted protectedId t) :
    t.manager.unprotected protectedId = [] :=
  argminBy_eq_none.mp (Option.map_eq_none_iff.mp h.2)

theorem reclaimable_of_exhausted (h : Exhausted protectedId t) :
    t.manager.reclaimableCacheBlocks protectedId = 0 := by
  rw [reclaimableCacheBlocks, unprotectedPages_eq, unprotected_of_exhausted h]
  rfl

theorem reclaimLoop_enough {required : ℕ} (fuel : ℕ) (hfree : required ≤ t.pool.freeCount) :
    reclaimLoop required protectedId (fuel + 1) t = .ok true t := by
  simp only [reclaimLoop, bind_ok, readManager_ok]
  exact ⟨t.manager, t, ⟨rfl, rfl⟩,
    by simp [show required ≤ t.manager.gpuPool.freeCount from hfree]⟩

theorem reclaimLoop_exhausted {required : ℕ} (fuel : ℕ) (h : Exhausted protectedId t) :
    reclaimLoop required protectedId (fuel + 1) t = .ok true t := by
  by_cases hfree : required ≤ t.pool.freeCount
  · exact reclaimLoop_enough fuel hfree
  simp only [reclaimLoop, bind_ok, readManager_ok]
  refine ⟨t.manager, t, ⟨rfl, rfl⟩, ?_⟩
  simp only [show ¬required ≤ t.manager.gpuPool.freeCount from hfree, if_false, bind_ok]
  refine ⟨false, t, by simp [dropIdleTailClone, h.1], ?_⟩
  simp [h.2]

theorem reclaimLoop_dropped {required : ℕ} {mid : ManagerState H} (fuel : ℕ)
    (hfree : ¬required ≤ t.pool.freeCount)
    (hdrop : dropIdleTailClone protectedId t = .ok true mid)
    (hrest : reclaimLoop required protectedId fuel mid = .ok true t') :
    reclaimLoop required protectedId (fuel + 1) t = .ok true t' := by
  simp only [reclaimLoop, bind_ok, readManager_ok]
  refine ⟨t.manager, t, ⟨rfl, rfl⟩, ?_⟩
  simp only [show ¬required ≤ t.manager.gpuPool.freeCount from hfree, if_false, bind_ok]
  exact ⟨true, mid, hdrop, by simpa using hrest⟩

theorem reclaimLoop_evicted {required : ℕ} {mid : ManagerState H} (fuel : ℕ)
    (hfree : ¬required ≤ t.pool.freeCount)
    (hdrop : dropIdleTailClone protectedId t = .ok false t)
    (hcandidate : t.manager.evictionCandidate protectedId = some cacheId)
    (hevict : evictMultimodalPrefix cacheId t = .ok () mid)
    (hrest : reclaimLoop required protectedId fuel mid = .ok true t') :
    reclaimLoop required protectedId (fuel + 1) t = .ok true t' := by
  simp only [reclaimLoop, bind_ok, readManager_ok]
  refine ⟨t.manager, t, ⟨rfl, rfl⟩, ?_⟩
  simp only [show ¬required ≤ t.manager.gpuPool.freeCount from hfree, if_false, bind_ok]
  refine ⟨false, t, hdrop, ?_⟩
  simp only [Bool.false_eq_true, if_false, bind_ok, readManager_ok]
  refine ⟨t.manager, t, ⟨rfl, rfl⟩, ?_⟩
  simp only [hcandidate, bind_ok]
  exact ⟨(), mid, hevict, hrest⟩

/-- The loop stops by itself, where enough pages are free or nothing is left to give up, in
as many rounds as there are entries and clones, and one more. -/
theorem reclaimLoop_stops (required : ℕ) (protectedId : Option CacheId) (hl : Ledger others t) :
    ∃ t', (∀ fuel, t.manager.reclaimFuel ≤ fuel →
        reclaimLoop required protectedId fuel t = .ok true t') ∧
      Reclaimed protectedId t t' ∧
      (required ≤ t'.pool.freeCount ∨ Exhausted protectedId t') := by
  induction hm : t.manager.reclaimFuel using Nat.strong_induction_on generalizing t with
  | _ rounds ih =>
    have hrounds : ∀ fuel, rounds ≤ fuel → ∃ k, fuel = k + 1 := by
      intro fuel hfuel
      rw [reclaimFuel_eq] at hm
      exact ⟨fuel - 1, by omega⟩
    by_cases hfree : required ≤ t.pool.freeCount
    · refine ⟨t, fun fuel hfuel => ?_, .refl, .inl hfree⟩
      obtain ⟨fuel, rfl⟩ := hrounds fuel hfuel
      exact reclaimLoop_enough fuel hfree
    obtain ⟨dropped, mid, hdrop⟩ := dropIdleTailClone_succeeds protectedId hl
    rcases dropIdleTailClone_ok hl hdrop with ⟨rfl, rfl, hnone⟩ | ⟨rfl, hstep⟩
    · cases hc : mid.manager.evictionCandidate protectedId with
      | none =>
        have hexhausted : Exhausted protectedId mid := ⟨hnone, hc⟩
        refine ⟨mid, fun fuel hfuel => ?_, .refl, .inr hexhausted⟩
        obtain ⟨fuel, rfl⟩ := hrounds fuel hfuel
        exact reclaimLoop_exhausted fuel hexhausted
      | some cacheId =>
        obtain ⟨hne, entry, hentry⟩ := evictionCandidate_some hl.keys hc
        obtain ⟨mid', hevict⟩ := evictMultimodalPrefix_succeeds hl hentry
        have hstep := evictMultimodalPrefix_ok hl hne hevict
        have hless := reclaimFuel_step hl hstep
        obtain ⟨t', hloop, hr, hstop⟩ := ih _ (by omega) (hl.reclaim hstep) rfl
        refine ⟨t', fun fuel hfuel => ?_, .head hstep hr, hstop⟩
        obtain ⟨fuel, rfl⟩ := hrounds fuel hfuel
        exact reclaimLoop_evicted fuel hfree hdrop hc hevict (hloop fuel (by omega))
    · have hless := reclaimFuel_step hl hstep
      obtain ⟨t', hloop, hr, hstop⟩ := ih _ (by omega) (hl.reclaim hstep) rfl
      refine ⟨t', fun fuel hfuel => ?_, .head hstep hr, hstop⟩
      obtain ⟨fuel, rfl⟩ := hrounds fuel hfuel
      exact reclaimLoop_dropped fuel hfree hdrop (hloop fuel (by omega))

/-! ### `_ensure_free_blocks` -/

/-- What reclaiming keeps: the accounts, every page of a live sequence, and the protected
entry. -/
structure ReclaimKeeps (seqs : List (Sequence H)) (protectedId : Option CacheId)
    (manager manager' : BlockManager H) : Prop where
  accounts : FleetAccounts Others.none manager' seqs
  live : ∀ seq ∈ seqs, ∀ b ∈ seq.blockTable,
    0 < manager'.refCount b ∧ b ∈ manager'.gpuPool.usedBlockIds
  kept : ∀ cacheId entry, protectedId = some cacheId →
    manager.multimodalPrefixCache.get? cacheId = some entry →
    manager'.multimodalPrefixCache.get? cacheId = some entry

variable {manager : BlockManager H} {left right : List (Sequence H)} {seq : Sequence H}

theorem Reclaimed.keeps (h : FleetAccounts Others.none manager (left ++ seq :: right))
    (hr : Reclaimed protectedId ⟨manager, seq⟩ t') :
    t'.seq = seq ∧ ReclaimKeeps (left ++ seq :: right) protectedId manager t'.manager := by
  have hseq : t'.seq = seq := Reclaimed.seq hr
  have hledger := Reclaimed.ledger h.focus hr
  have haccounts : FleetAccounts Others.none t'.manager (left ++ seq :: right) := by
    have hfocus : Ledger (Others.none.add (left ++ right)) ⟨t'.manager, t'.seq⟩ := hledger
    rw [hseq] at hfocus
    exact h.unfocus hfocus
  refine ⟨hseq, haccounts, fun other hother b hb => ?_, ?_⟩
  · have hpos : 0 < t'.manager.refCount b := by
      have := haccounts.refs b
      have hcount : 0 < ((left ++ seq :: right).flatMap (·.blockTable)).count b :=
        List.count_pos_iff.mpr (List.mem_flatMap.mpr ⟨other, hother, hb⟩)
      simp only [refCount]
      omega
    exact ⟨hpos, haccounts.gpu.used_of_held hpos⟩
  · rintro cacheId entry rfl hentry
    exact Reclaimed.protected hr hentry

/-- Reclaim accounting is exact: the loop ends by itself, where enough pages are free or nothing
is left to give up, enough pages are free after it exactly where the estimate at entry says so,
and what it keeps is kept in both cases. -/
theorem ensureFreeBlocks_exact (h : Serves manager (left ++ seq :: right)) (required : ℕ)
    (protectedId : Option CacheId) :
    ∃ t' : ManagerState H,
      (∀ fuel, manager.reclaimFuel ≤ fuel →
        reclaimLoop required protectedId fuel ⟨manager, seq⟩ = .ok true t') ∧
      (required ≤ t'.pool.freeCount ∨ Exhausted protectedId t') ∧
      (required ≤ manager.gpuPool.freeCount + manager.reclaimableCacheBlocks protectedId →
        ensureFreeBlocks required protectedId ⟨manager, seq⟩ = .ok () t' ∧
          ∃ ids pool, allocateMany required t'.pool = .ok ids pool) ∧
      (manager.gpuPool.freeCount + manager.reclaimableCacheBlocks protectedId < required →
        ensureFreeBlocks required protectedId ⟨manager, seq⟩ =
          .error (.manager (.insufficientAfterEviction required t'.pool.freeCount)) t') ∧
      t'.seq = seq ∧ ReclaimKeeps (left ++ seq :: right) protectedId manager t'.manager := by
  have haccounts := h.accounts
  obtain ⟨t', hloop, hr, hstop⟩ := reclaimLoop_stops required protectedId haccounts.focus
  have hconserved := reclaimed_conserves haccounts.focus hr
  have hrun := hloop _ le_rfl
  refine ⟨t', hloop, hstop, fun henough => ?_, fun hshort => ?_, Reclaimed.keeps haccounts hr⟩
  · have hfree : required ≤ t'.pool.freeCount := by
      rcases hstop with hfree | hexhausted
      · exact hfree
      · have := reclaimable_of_exhausted hexhausted
        simp only [ManagerState.pool] at hconserved ⊢
        omega
    refine ⟨?_, allocateMany_succeeds (Reclaimed.ledger haccounts.focus hr).gpu hfree⟩
    simp only [ensureFreeBlocks, bind_ok, readManager_ok, require_ok]
    exact ⟨_, _, ⟨rfl, rfl⟩, true, t', hrun, _, _, ⟨rfl, rfl⟩, hfree, rfl⟩
  · have hfree : ¬required ≤ t'.pool.freeCount := by
      simp only [ManagerState.pool] at hconserved ⊢
      omega
    simp only [ensureFreeBlocks, bind_error, readManager_ok]
    exact .inr ⟨_, _, ⟨rfl, rfl⟩, .inr ⟨true, t', hrun, .inr ⟨_, _, ⟨rfl, rfl⟩,
      require_error.mpr ⟨hfree, rfl, rfl⟩⟩⟩⟩

/-! ### A full pool behind a stored entry -/

section Example

/-- One image in front of a text token, with media identities. -/
def keyedRequest (id : ℕ) : Request :=
  { imageRequest id with hasPrefixCacheKey := true, hasMediaTokenHashes := true }

def onState (x : ManagerAction ℕ Unit) (t : ManagerState ℕ) : ManagerState ℕ :=
  match x t with
  | .ok _ t' => t'
  | .error _ t' => t'

def joined : ManagerState ℕ :=
  ⟨BlockManager.initial ℕ 3 2 0 true true, Sequence.ofRequest ℕ (keyedRequest 0)⟩

def allocated : ManagerState ℕ := onState ManagerCall.allocate.run joined

def prefilled : ManagerState ℕ :=
  ⟨allocated.manager, { allocated.seq with numComputedTokens := 3 }⟩

def stored : ManagerState ℕ := onState ManagerCall.storeMultimodalPrefix.run prefilled

def released : ManagerState ℕ := onState ManagerCall.deallocate.run stored

theorem serves_released : Serves released.manager ([] ++ released.seq :: []) := by
  have h₀ : Serves joined.manager ([] ++ joined.seq :: []) :=
    .join (.initial 3 2 0 true true) rfl rfl
  have h₁ : Serves allocated.manager ([] ++ allocated.seq :: []) := .call .allocate h₀ rfl
  have h₂ : Serves prefilled.manager ([] ++ prefilled.seq :: []) := h₁.advance rfl rfl
  have h₃ : Serves stored.manager ([] ++ stored.seq :: []) := .call .storeMultimodalPrefix h₂ rfl
  exact .call .deallocate h₃ rfl

/-- Two free pages and the page of the entry. -/
theorem ensureFreeBlocks_exact_released :
    ∃ t', ensureFreeBlocks 3 none ⟨released.manager, released.seq⟩ = .ok () t' ∧
      ReclaimKeeps [released.seq] none released.manager t'.manager := by
  obtain ⟨t', -, -, hok, -, -, hkeeps⟩ := ensureFreeBlocks_exact serves_released 3 none
  exact ⟨t', (hok (by decide)).1, hkeeps⟩

end Example

end BlockManager

end PrismInfer
