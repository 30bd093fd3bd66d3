import PrismInfer.BlockManager
import PrismInfer.BlockPoolInvariant

/-!
# Page steps and page accounting

What a block-manager method does to pages is a chain of the steps below, each with the
transfers it plans. The accounting invariant is kept by every step, so it is kept by
every method.
-/
set_option linter.unusedSectionVars false

namespace PrismInfer
open StateExcept GpuBlockPool

theorem PrefixCache.count_pages (cache : PrefixCache) (b : ℕ) :
    cache.pages.count b = cache.weight fun entry => entry.pages.count b := by
  rw [pages, List.count_flatMap]
  rfl

theorem PrefixCache.mem_pages {cache : PrefixCache} {b : ℕ} :
    b ∈ cache.pages ↔ ∃ item ∈ cache, b ∈ item.2.pages := by
  simp [pages, List.mem_flatMap]

/-- An item without its hit counter. -/
def PrefixCache.forgetHits (item : CacheId × MultimodalPrefixCacheEntry) :
    CacheId × MultimodalPrefixCacheEntry :=
  (item.1, { item.2 with lifetimeHits := 0 })

/-- The same entries, in another order or with other hit counters. -/
def PrefixCache.SameEntries (cache cache' : PrefixCache) : Prop :=
  (cache'.map forgetHits).Perm (cache.map forgetHits)

namespace PrefixCache.SameEntries

variable {cache cache' : PrefixCache}

theorem keys (h : cache.SameEntries cache') : (cache'.map (·.1)).Perm (cache.map (·.1)) := by
  have := List.Perm.map Prod.fst h
  simpa only [List.map_map, Function.comp_def, forgetHits] using this

theorem weight (h : cache.SameEntries cache') {f : MultimodalPrefixCacheEntry → ℕ}
    (hf : ∀ entry, f { entry with lifetimeHits := 0 } = f entry) :
    cache'.weight f = cache.weight f := by
  have := (List.Perm.map (fun item : CacheId × _ => f item.2) h).sum_eq
  simpa only [OrderedDict.weight, List.map_map, Function.comp_def, forgetHits, hf] using this

theorem count_pages (h : cache.SameEntries cache') (b : ℕ) :
    cache'.pages.count b = cache.pages.count b := by
  rw [PrefixCache.count_pages, PrefixCache.count_pages]
  exact h.weight fun _ => rfl

theorem moveToEnd (cache : PrefixCache) (id : CacheId) : cache.SameEntries (cache.moveToEnd id) :=
  (OrderedDict.moveToEnd_perm cache id).map _

theorem hit (cache : PrefixCache) (id : CacheId) :
    cache.SameEntries (cache.update id fun entry =>
      { entry with lifetimeHits := entry.lifetimeHits + 1 }) := by
  refine List.Perm.of_eq ?_
  simp only [OrderedDict.update, List.map_map]
  refine List.map_congr_left fun item _ => ?_
  simp only [Function.comp, forgetHits]
  split <;> rfl

end PrefixCache.SameEntries

variable {H : Type} [DecidableEq H] [Digests H]

namespace ManagerState

abbrev pool (t : ManagerState H) : GpuBlockPool H := t.manager.gpuPool
abbrev cpuPool (t : ManagerState H) : CpuBlockPool := t.manager.cpuPool
abbrev cache (t : ManagerState H) : PrefixCache := t.manager.multimodalPrefixCache
abbrev cacheBlocks (t : ManagerState H) : ℕ := t.manager.multimodalPrefixCacheBlocks
abbrev table (t : ManagerState H) : List ℕ := t.seq.blockTable
abbrev refCount (t : ManagerState H) (id : ℕ) : ℕ := (t.pool.blocks id).refCount

def setPool (t : ManagerState H) (pool : GpuBlockPool H) : ManagerState H :=
  { t with manager := { t.manager with gpuPool := pool } }

def setCpuPool (t : ManagerState H) (pool : CpuBlockPool) : ManagerState H :=
  { t with manager := { t.manager with cpuPool := pool } }

def setCache (t : ManagerState H) (cache : PrefixCache) (blocks : ℕ) : ManagerState H :=
  { t with manager := { t.manager with
      multimodalPrefixCache := cache
      multimodalPrefixCacheBlocks := blocks } }

def setSeq (t : ManagerState H) (seq : Sequence H) : ManagerState H := { t with seq := seq }

def setTable (t : ManagerState H) (table : List ℕ) : ManagerState H :=
  { t with seq := { t.seq with blockTable := table } }

/-- Everything `swap_out` records in the sequence beside giving up its pages. -/
def saveBlocks (t : ManagerState H) (cpuBlockTable : List ℕ) : ManagerState H :=
  { t with seq := { t.seq with
      cpuBlockTable := cpuBlockTable
      cpuBlockHashes := (t.table.map t.pool.blocks).map (·.hash)
      cpuBlockTokenIds := (t.table.map t.pool.blocks).map (·.tokenIds)
      cpuBlockMmHashes := (t.table.map t.pool.blocks).map (·.mmTokenHashes) } }

/-- The sequence no longer owns CPU pages. -/
def dropCpu (t : ManagerState H) : ManagerState H :=
  { t with seq := { t.seq with
      cpuBlockTable := []
      cpuBlockHashes := []
      cpuBlockTokenIds := []
      cpuBlockMmHashes := [] } }

end ManagerState

/-- Release a page the cache can do without: a whole entry, or an idle tail clone. -/
inductive ReclaimStep (protectedId : Option CacheId) : ManagerState H → ManagerState H → Prop
  | evict {t : ManagerState H} {cacheId : CacheId} {entry : MultimodalPrefixCacheEntry}
      {pool : GpuBlockPool H} (hne : some cacheId ≠ protectedId)
      (hentry : t.cache.get? cacheId = some entry)
      (hpool : ReleasedAll t.pool entry.pages pool) (hw : pool.WellFormed) :
      ReclaimStep protectedId t
        ((t.setPool pool).setCache (t.cache.remove cacheId)
          (t.cacheBlocks - entry.residentBlocks))
  | dropClone {t : ManagerState H} {cacheId : CacheId} {entry : MultimodalPrefixCacheEntry}
      {id : ℕ} {pool : GpuBlockPool H} (hne : some cacheId ≠ protectedId)
      (hentry : t.cache.get? cacheId = some entry) (hid : id ∈ entry.tailCloneBlockIds)
      (hidle : t.refCount id = 1) (hpool : Released t.pool id pool) (hw : pool.WellFormed) :
      ReclaimStep protectedId t
        ((t.setPool pool).setCache
          (t.cache.update cacheId fun entry =>
            { entry with tailCloneBlockIds := entry.tailCloneBlockIds.erase id })
          (t.cacheBlocks - 1))

/-- Replace one page of the table by a page taken for it. -/
inductive ReplaceStep (old fresh : ℕ) : ManagerState H → ManagerState H → Prop
  | intro {t : ManagerState H} {left right : List ℕ} {mid pool : GpuBlockPool H}
      (htable : t.table = left ++ old :: right) (hmid : Took t.pool fresh mid)
      (hpool : Released mid old pool) (hw : pool.WellFormed) :
      ReplaceStep old fresh t ((t.setPool pool).setTable (left ++ fresh :: right))

/-- What one step of a method does to pages, and the transfers it plans. With
`sharing = false` no page that is held gets another owner. -/
inductive PageStep (sharing : Bool) : ManagerState H → List Transfer → ManagerState H → Prop
  | reclaim {t t' : ManagerState H} {protectedId : Option CacheId}
      (h : ReclaimStep protectedId t t') : PageStep sharing t [] t'
  | take {t : ManagerState H} {id : ℕ} {pool : GpuBlockPool H} {copies : List Transfer}
      (hpool : Took t.pool id pool) (hw : pool.WellFormed)
      (hcopies : copies = [] ∨ (∃ page ∈ t.seq.cpuBlockTable, copies = [.swapIn page id]) ∨
        ∃ source ∈ t.cache.pages, ∃ rows, copies = [.copyPrefix source id rows]) :
      PageStep sharing t copies ((t.setPool pool).setTable (t.table ++ [id]))
  | share {t : ManagerState H} {id : ℕ} {pool : GpuBlockPool H} (hsharing : sharing = true)
      (hpool : Shared t.pool id pool) (hw : pool.WellFormed) :
      PageStep sharing t [] ((t.setPool pool).setTable (t.table ++ [id]))
  | reviveClone {t : ManagerState H} {id : ℕ} {mid pool : GpuBlockPool H}
      (hsharing : sharing = true) (hidle : t.refCount id = 1) (hid : id ∈ t.cache.pages)
      (hmid : Shared t.pool id mid) (hpool : Cleared mid id pool) (hw : pool.WellFormed) :
      PageStep sharing t [] ((t.setPool pool).setTable (t.table ++ [id]))
  | forget {t : ManagerState H} {id : ℕ} {pool : GpuBlockPool H} (hid : id ∈ t.table)
      (halone : t.refCount id ≤ 1) (hpool : Cleared t.pool id pool) (hw : pool.WellFormed) :
      PageStep sharing t [] (t.setPool pool)
  | replace {t t' : ManagerState H} {old fresh : ℕ} {copies : List Transfer}
      (h : ReplaceStep old fresh t t')
      (hcopies : copies = [] ∨ copies = [.copyOnWrite old fresh] ∨
        ∃ rows, copies = [.copyPrefix old fresh rows]) : PageStep sharing t copies t'
  | admitClone {t : ManagerState H} {cacheId : CacheId} {entry : MultimodalPrefixCacheEntry}
      {id : ℕ} {pool : GpuBlockPool H} (hsharing : sharing = true)
      (hentry : t.cache.get? cacheId = some entry) (hid : id ∈ t.table)
      (hroom : t.cacheBlocks < t.manager.multimodalPrefixCacheMaxBlocks)
      (hpool : Shared t.pool id pool) (hw : pool.WellFormed) :
      PageStep sharing t []
        ((t.setPool pool).setCache
          (t.cache.update cacheId fun entry =>
            { entry with tailCloneBlockIds := entry.tailCloneBlockIds ++ [id] })
          (t.cacheBlocks + 1))
  | insert {t : ManagerState H} {cacheId : CacheId} {entry : MultimodalPrefixCacheEntry}
      {pool : GpuBlockPool H} (hsharing : sharing = true) (hnew : t.cache.get? cacheId = none)
      (hblocks : entry.blockIds <+: t.table) (hclones : entry.tailCloneBlockIds = [])
      (hroom : t.cacheBlocks + entry.blockIds.length ≤ t.manager.multimodalPrefixCacheMaxBlocks)
      (hpool : SharedAll t.pool entry.blockIds pool) (hw : pool.WellFormed) :
      PageStep sharing t []
        ((t.setPool pool).setCache (t.cache ++ [(cacheId, entry)])
          (t.cacheBlocks + entry.blockIds.length))
  | reorder {t : ManagerState H} {cache : PrefixCache} (h : t.cache.SameEntries cache) :
      PageStep sharing t [] (t.setCache cache t.cacheBlocks)
  | drop {t : ManagerState H} {left right : List ℕ} {old : ℕ} {pool : GpuBlockPool H}
      (htable : t.table = left ++ old :: right) (hpool : Released t.pool old pool)
      (hw : pool.WellFormed) :
      PageStep sharing t [] ((t.setPool pool).setTable (left ++ right))
  | register {t : ManagerState H} {id : ℕ} {blockHash : H} {tokenIds : List ℕ}
      {mm : Option MmTokenHashes} {pool : GpuBlockPool H} (hid : id ∈ t.table)
      (hpool : Registered t.pool id blockHash tokenIds mm pool) (hw : pool.WellFormed) :
      PageStep sharing t [] (t.setPool pool)
  | saveToCpu {t : ManagerState H} {cpuBlockTable : List ℕ} {cpuPool : CpuBlockPool}
      (hempty : t.seq.cpuBlockTable = []) (hlength : cpuBlockTable.length = t.table.length)
      (hnodup : cpuBlockTable.Nodup) (hfresh : ∀ id ∈ cpuBlockTable, id ∉ t.cpuPool.usedBlockIds)
      (hused : ∀ id, id ∈ cpuPool.usedBlockIds ↔ id ∈ cpuBlockTable ∨ id ∈ t.cpuPool.usedBlockIds)
      (hcapacity : cpuPool.capacity = t.cpuPool.capacity) (hw : cpuPool.WellFormed) :
      PageStep sharing t
        ((t.table.zip cpuBlockTable).map fun (gpuPage, cpuPage) => .swapOut gpuPage cpuPage)
        ((t.setCpuPool cpuPool).saveBlocks cpuBlockTable)
  | releaseCpu {t : ManagerState H} {cpuPool : CpuBlockPool}
      (hused : ∀ id, id ∈ cpuPool.usedBlockIds ↔
        id ∈ t.cpuPool.usedBlockIds ∧ id ∉ t.seq.cpuBlockTable)
      (hcapacity : cpuPool.capacity = t.cpuPool.capacity) (hw : cpuPool.WellFormed) :
      PageStep sharing t [] (t.setCpuPool cpuPool).dropCpu
  | setSeq {t : ManagerState H} {seq : Sequence H} (hrequest : seq.request = t.seq.request)
      (htable : seq.blockTable = t.table) (hcpu : seq.cpuBlockTable = t.seq.cpuBlockTable) :
      PageStep sharing t [] (t.setSeq seq)

/-- A chain of page steps with the transfers it plans, in order. -/
inductive PageSteps (sharing : Bool) : ManagerState H → List Transfer → ManagerState H → Prop
  | refl (t : ManagerState H) : PageSteps sharing t [] t
  | head {t mid t' : ManagerState H} {copies rest : List Transfer}
      (first : PageStep sharing t copies mid) (next : PageSteps sharing mid rest t') :
      PageSteps sharing t (copies ++ rest) t'

namespace PageSteps

variable {sharing : Bool} {t mid t' : ManagerState H} {copies rest : List Transfer}

theorem single (h : PageStep sharing t copies t') : PageSteps sharing t copies t' := by
  have := PageSteps.head h (.refl t')
  simpa using this

theorem trans (h₁ : PageSteps sharing t copies mid) (h₂ : PageSteps sharing mid rest t') :
    PageSteps sharing t (copies ++ rest) t' := by
  induction h₁ with
  | refl t => exact h₂
  | @head t mid₁ t₁ copies tail first _ ih =>
    rw [List.append_assoc]
    exact .head first (ih h₂)

theorem trans_quiet (h₁ : PageSteps sharing t copies mid) (h₂ : PageSteps sharing mid [] t') :
    PageSteps sharing t copies t' := by
  simpa using h₁.trans h₂

end PageSteps

/-! ### Accounting -/

/-- The references on GPU pages and the CPU pages that belong to other sequences. -/
structure Others where
  refs : ℕ → ℕ
  cpuPages : Finset ℕ

/-- Page accounting of one sequence and the stored entries beside the other sequences: a
page has one reference for each occurrence in a block table or an entry, the running total
of entry pages is exact and within its limit, and a used CPU page has one owner. -/
structure Accounts (others : Others) (pool : GpuBlockPool H) (cpuPool : CpuBlockPool)
    (cache : PrefixCache) (cacheBlocks maxBlocks : ℕ) (table cpuTable : List ℕ) : Prop where
  gpu : pool.WellFormed
  cpu : cpuPool.WellFormed
  refs : ∀ b, (pool.blocks b).refCount = others.refs b + table.count b + cache.pages.count b
  keys : (cache.map (·.1)).Nodup
  total : cacheBlocks = cache.weight (·.residentBlocks)
  limit : cacheBlocks ≤ maxBlocks
  cpu_nodup : cpuTable.Nodup
  cpu_used : ∀ b, b ∈ cpuPool.usedBlockIds ↔ b ∈ others.cpuPages ∨ b ∈ cpuTable
  cpu_alone : ∀ b ∈ cpuTable, b ∉ others.cpuPages

/-- The accounts of a manager and the sequence a method is called on. -/
abbrev Ledger (others : Others) (t : ManagerState H) : Prop :=
  Accounts others t.pool t.cpuPool t.cache t.cacheBlocks
    t.manager.multimodalPrefixCacheMaxBlocks t.table t.seq.cpuBlockTable

namespace Accounts

variable {others : Others} {pool pool' mid : GpuBlockPool H} {cpuPool cpuPool' : CpuBlockPool}
  {cache cache' : PrefixCache} {cacheBlocks maxBlocks : ℕ} {table cpuTable : List ℕ}
  {cacheId : CacheId} {entry : MultimodalPrefixCacheEntry} {id : ℕ}

/-- Accounting only depends on how often pages occur in the table and in the entries. -/
theorem of_counts (ha : Accounts others pool cpuPool cache cacheBlocks maxBlocks table cpuTable)
    (hw : pool'.WellFormed) (table' : List ℕ)
    (hrefs : ∀ b, (pool'.blocks b).refCount + table.count b =
      (pool.blocks b).refCount + table'.count b) :
    Accounts others pool' cpuPool cache cacheBlocks maxBlocks table' cpuTable :=
  { ha with
    gpu := hw
    refs := fun b => by
      have := ha.refs b
      have := hrefs b
      omega }

/-- A change of one entry. -/
theorem of_update (ha : Accounts others pool cpuPool cache cacheBlocks maxBlocks table cpuTable)
    (hw : pool'.WellFormed) (hentry : cache.get? cacheId = some entry)
    (g : MultimodalPrefixCacheEntry → MultimodalPrefixCacheEntry)
    (hrefs : ∀ b, (pool'.blocks b).refCount + entry.pages.count b =
      (pool.blocks b).refCount + (g entry).pages.count b)
    {cacheBlocks' : ℕ} (htotal : cacheBlocks' + entry.residentBlocks =
      cacheBlocks + (g entry).residentBlocks) (hlimit : cacheBlocks' ≤ maxBlocks) :
    Accounts others pool' cpuPool (cache.update cacheId g) cacheBlocks' maxBlocks table
      cpuTable where
  gpu := hw
  cpu := ha.cpu
  refs := fun b => by
    have hb := ha.refs b
    have hr := hrefs b
    have hp := OrderedDict.weight_update (f := fun entry => entry.pages.count b) ha.keys hentry g
    simp only [PrefixCache.count_pages] at hb ⊢
    omega
  keys := by rw [OrderedDict.keys_update]; exact ha.keys
  total := by
    have hp := OrderedDict.weight_update (f := (·.residentBlocks)) ha.keys hentry g
    have := ha.total
    omega
  limit := hlimit
  cpu_nodup := ha.cpu_nodup
  cpu_used := ha.cpu_used
  cpu_alone := ha.cpu_alone

theorem evict (ha : Accounts others pool cpuPool cache cacheBlocks maxBlocks table cpuTable)
    (hentry : cache.get? cacheId = some entry) (hpool : ReleasedAll pool entry.pages pool')
    (hw : pool'.WellFormed) :
    Accounts others pool' cpuPool (cache.remove cacheId) (cacheBlocks - entry.residentBlocks)
      maxBlocks table cpuTable where
  gpu := hw
  cpu := ha.cpu
  refs := fun b => by
    have hb := ha.refs b
    have hr := hpool.refCount b
    have hp := OrderedDict.weight_remove (f := fun entry => entry.pages.count b) ha.keys hentry
    simp only [PrefixCache.count_pages] at hb ⊢
    omega
  keys := OrderedDict.keys_remove_nodup ha.keys
  total := by
    have hp := OrderedDict.weight_remove (f := (·.residentBlocks)) ha.keys hentry
    have := ha.total
    omega
  limit := (Nat.sub_le _ _).trans ha.limit
  cpu_nodup := ha.cpu_nodup
  cpu_used := ha.cpu_used
  cpu_alone := ha.cpu_alone

theorem dropClone (ha : Accounts others pool cpuPool cache cacheBlocks maxBlocks table cpuTable)
    (hentry : cache.get? cacheId = some entry) (hid : id ∈ entry.tailCloneBlockIds)
    (hpool : Released pool id pool') (hw : pool'.WellFormed) :
    Accounts others pool' cpuPool
      (cache.update cacheId fun entry =>
        { entry with tailCloneBlockIds := entry.tailCloneBlockIds.erase id })
      (cacheBlocks - 1) maxBlocks table cpuTable := by
  have hresident : (entry.tailCloneBlockIds.erase id).length + 1 =
      entry.tailCloneBlockIds.length := by
    have := List.length_erase_of_mem hid
    have := List.length_pos_of_mem hid
    omega
  have hpos : 1 ≤ cacheBlocks := by
    have hp := OrderedDict.weight_remove (f := (·.residentBlocks)) ha.keys hentry
    have := ha.total
    simp only [MultimodalPrefixCacheEntry.residentBlocks] at hp this
    omega
  refine ha.of_update hw hentry _ (fun b => ?_) ?_ ((Nat.sub_le _ _).trans ha.limit)
  · have hr := hpool.refCount b
    have hcount : entry.tailCloneBlockIds.count b =
        (entry.tailCloneBlockIds.erase id).count b + if id = b then 1 else 0 := by
      by_cases hb : id = b
      · subst hb
        have := List.count_pos_iff.mpr hid
        rw [List.count_erase_self, if_pos rfl]
        omega
      · rw [List.count_erase_of_ne (Ne.symm hb), if_neg hb, Nat.add_zero]
    simp only [MultimodalPrefixCacheEntry.pages, List.count_append]
    omega
  · simp only [MultimodalPrefixCacheEntry.residentBlocks]
    omega

theorem admitClone (ha : Accounts others pool cpuPool cache cacheBlocks maxBlocks table cpuTable)
    (hentry : cache.get? cacheId = some entry) (hroom : cacheBlocks < maxBlocks)
    (hpool : Shared pool id pool') (hw : pool'.WellFormed) :
    Accounts others pool' cpuPool
      (cache.update cacheId fun entry =>
        { entry with tailCloneBlockIds := entry.tailCloneBlockIds ++ [id] })
      (cacheBlocks + 1) maxBlocks table cpuTable := by
  refine ha.of_update hw hentry _ (fun b => ?_) ?_ hroom
  · have hr := hpool.refCount b
    simp only [MultimodalPrefixCacheEntry.pages, List.count_append, List.count_cons,
      List.count_nil, beq_iff_eq]
    omega
  · simp only [MultimodalPrefixCacheEntry.residentBlocks, List.length_append, List.length_cons,
      List.length_nil]
    omega

theorem insert (ha : Accounts others pool cpuPool cache cacheBlocks maxBlocks table cpuTable)
    (hnew : cache.get? cacheId = none) (hclones : entry.tailCloneBlockIds = [])
    (hroom : cacheBlocks + entry.blockIds.length ≤ maxBlocks)
    (hpool : SharedAll pool entry.blockIds pool') (hw : pool'.WellFormed) :
    Accounts others pool' cpuPool (cache ++ [(cacheId, entry)])
      (cacheBlocks + entry.blockIds.length) maxBlocks table cpuTable where
  gpu := hw
  cpu := ha.cpu
  refs := fun b => by
    have hb := ha.refs b
    have hr := hpool.refCount b
    simp only [PrefixCache.count_pages, OrderedDict.weight, List.map_append, List.sum_append,
      List.map_cons, List.map_nil, List.sum_cons, List.sum_nil, MultimodalPrefixCacheEntry.pages,
      hclones, List.append_nil] at hb ⊢
    omega
  keys := by
    rw [List.map_append]
    refine List.nodup_append.mpr ⟨ha.keys, by simp, fun a hmem b hb hab => ?_⟩
    obtain rfl : b = cacheId := by simpa using hb
    exact OrderedDict.get?_eq_none.mp hnew (hab ▸ hmem)
  total := by
    have := ha.total
    simp only [OrderedDict.weight, List.map_append, List.sum_append, List.map_cons, List.map_nil,
      List.sum_cons, List.sum_nil, MultimodalPrefixCacheEntry.residentBlocks, hclones,
      List.length_nil] at this ⊢
    omega
  limit := hroom
  cpu_nodup := ha.cpu_nodup
  cpu_used := ha.cpu_used
  cpu_alone := ha.cpu_alone

theorem reorder (ha : Accounts others pool cpuPool cache cacheBlocks maxBlocks table cpuTable)
    (h : cache.SameEntries cache') :
    Accounts others pool cpuPool cache' cacheBlocks maxBlocks table cpuTable :=
  { ha with
    refs := fun b => by
      rw [h.count_pages b]
      exact ha.refs b
    keys := h.keys.nodup_iff.mpr ha.keys
    total := ha.total.trans (h.weight fun _ => rfl).symm }

theorem saveToCpu (ha : Accounts others pool cpuPool cache cacheBlocks maxBlocks table [])
    (hnodup : cpuTable.Nodup) (hfresh : ∀ id ∈ cpuTable, id ∉ cpuPool.usedBlockIds)
    (hused : ∀ id, id ∈ cpuPool'.usedBlockIds ↔ id ∈ cpuTable ∨ id ∈ cpuPool.usedBlockIds)
    (hw : cpuPool'.WellFormed) :
    Accounts others pool cpuPool' cache cacheBlocks maxBlocks table cpuTable :=
  { ha with
    cpu := hw
    cpu_nodup := hnodup
    cpu_used := fun b => by
      rw [hused, ha.cpu_used]
      simp [or_comm]
    cpu_alone := fun b hb hother => hfresh b hb ((ha.cpu_used b).mpr (.inl hother)) }

theorem releaseCpu (ha : Accounts others pool cpuPool cache cacheBlocks maxBlocks table cpuTable)
    (hused : ∀ id, id ∈ cpuPool'.usedBlockIds ↔ id ∈ cpuPool.usedBlockIds ∧ id ∉ cpuTable)
    (hw : cpuPool'.WellFormed) :
    Accounts others pool cpuPool' cache cacheBlocks maxBlocks table [] :=
  { ha with
    cpu := hw
    cpu_nodup := List.nodup_nil
    cpu_used := fun b => by
      rw [hused, ha.cpu_used]
      have := ha.cpu_alone b
      simp only [List.not_mem_nil, or_false]
      tauto
    cpu_alone := by simp }

end Accounts

/-- The transfer of one planned prefix copy. -/
def BlockPrefixCopy.transfer (copy : BlockPrefixCopy) : Transfer :=
  .copyPrefix copy.1 copy.2.1 copy.2.2

variable {others : Others} {t t' : ManagerState H}

theorem Ledger.held_of_table {b : ℕ} (hl : Ledger others t) (hb : b ∈ t.table) :
    0 < t.refCount b := by
  have := hl.refs b
  have := List.count_pos_iff.mpr hb
  simp only [ManagerState.refCount]
  omega

theorem Ledger.held_of_entry {cacheId : CacheId} {entry : MultimodalPrefixCacheEntry}
    (hl : Ledger others t) (hentry : t.cache.get? cacheId = some entry) (b : ℕ) :
    entry.pages.count b + t.table.count b + others.refs b ≤ t.refCount b := by
  have hb := hl.refs b
  have hp := OrderedDict.weight_remove (f := fun entry => entry.pages.count b) hl.keys hentry
  rw [PrefixCache.count_pages] at hb
  simp only [ManagerState.refCount]
  omega

theorem Ledger.reclaim {protectedId : Option CacheId} (hl : Ledger others t)
    (h : ReclaimStep protectedId t t') : Ledger others t' := by
  cases h with
  | evict _ hentry hpool hw => exact Accounts.evict hl hentry hpool hw
  | dropClone _ hentry hid _ hpool hw => exact Accounts.dropClone hl hentry hid hpool hw

/-- Every page step keeps the accounts. -/
theorem Ledger.step {sharing : Bool} {copies : List Transfer} (hl : Ledger others t)
    (h : PageStep sharing t copies t') : Ledger others t' := by
  cases h with
  | reclaim h => exact hl.reclaim h
  | take hpool hw =>
    refine Accounts.of_counts hl hw (t.table ++ [_]) fun b => ?_
    have hr := hpool.refCount b
    simp only [List.count_append, List.count_cons, List.count_nil, beq_iff_eq]
    omega
  | share _ hpool hw =>
    refine Accounts.of_counts hl hw (t.table ++ [_]) fun b => ?_
    have hr := hpool.refCount b
    simp only [List.count_append, List.count_cons, List.count_nil, beq_iff_eq]
    omega
  | reviveClone _ _ _ hmid hpool hw =>
    refine Accounts.of_counts hl hw (t.table ++ [_]) fun b => ?_
    have hr := hpool.refCount b
    have hm := hmid.refCount b
    simp only [List.count_append, List.count_cons, List.count_nil, beq_iff_eq]
    omega
  | forget _ _ hpool hw =>
    refine Accounts.of_counts hl hw t.table fun b => ?_
    have hr := hpool.refCount b
    omega
  | @replace _ old fresh _ h _ =>
    cases h with | @intro left right _ _ htable hmid hpool hw =>
    refine Accounts.of_counts hl hw (left ++ fresh :: right) fun b => ?_
    have hr := hpool.refCount b
    have hm := hmid.refCount b
    simp only [htable, List.count_append, List.count_cons, beq_iff_eq]
    omega
  | admitClone _ hentry _ hroom hpool hw => exact Accounts.admitClone hl hentry hroom hpool hw
  | insert _ hnew _ hclones hroom hpool hw =>
    exact Accounts.insert hl hnew hclones hroom hpool hw
  | reorder h => exact Accounts.reorder hl h
  | @drop left right old _ htable hpool hw =>
    refine Accounts.of_counts hl hw (left ++ right) fun b => ?_
    have hr := hpool.refCount b
    simp only [htable, List.count_append, List.count_cons, beq_iff_eq]
    omega
  | register _ hpool hw =>
    refine Accounts.of_counts hl hw t.table fun b => ?_
    have hr := hpool.refCount b
    omega
  | saveToCpu hempty _ hnodup hfresh hused _ hw =>
    refine Accounts.saveToCpu ?_ hnodup hfresh hused hw
    rw [← hempty]
    exact hl
  | releaseCpu hused _ hw => exact Accounts.releaseCpu hl hused hw
  | setSeq _ htable hcpu =>
    have : Accounts others t.pool t.cpuPool t.cache t.cacheBlocks
        t.manager.multimodalPrefixCacheMaxBlocks t.table t.seq.cpuBlockTable := hl
    rw [← htable, ← hcpu] at this
    exact this

theorem Ledger.steps {sharing : Bool} {copies : List Transfer} (hl : Ledger others t)
    (h : PageSteps sharing t copies t') : Ledger others t' := by
  induction h with
  | refl t => exact hl
  | head first _ ih => exact ih (hl.step first)

/-! ### What no page step changes -/

/-- The configuration, the request and the capacities. -/
structure SameConfig (t t' : ManagerState H) : Prop where
  request : t'.seq.request = t.seq.request
  blockSize : t'.manager.blockSize = t.manager.blockSize
  caching : t'.manager.enablePrefixCaching = t.manager.enablePrefixCaching
  blockLevel : t'.manager.blockLevelMmPrefix = t.manager.blockLevelMmPrefix
  maxBlocks : t'.manager.multimodalPrefixCacheMaxBlocks = t.manager.multimodalPrefixCacheMaxBlocks
  capacity : t'.pool.capacity = t.pool.capacity
  retain : t'.pool.retainHashesOnFree = t.pool.retainHashesOnFree
  cpuCapacity : t'.cpuPool.capacity = t.cpuPool.capacity

theorem SameConfig.refl (t : ManagerState H) : SameConfig t t :=
  ⟨rfl, rfl, rfl, rfl, rfl, rfl, rfl, rfl⟩

theorem SameConfig.trans {mid : ManagerState H} (h₁ : SameConfig t mid) (h₂ : SameConfig mid t') :
    SameConfig t t' :=
  ⟨h₂.request.trans h₁.request, h₂.blockSize.trans h₁.blockSize, h₂.caching.trans h₁.caching,
    h₂.blockLevel.trans h₁.blockLevel, h₂.maxBlocks.trans h₁.maxBlocks,
    h₂.capacity.trans h₁.capacity, h₂.retain.trans h₁.retain, h₂.cpuCapacity.trans h₁.cpuCapacity⟩

theorem SameConfig.reclaim {protectedId : Option CacheId} (h : ReclaimStep protectedId t t') :
    SameConfig t t' := by
  cases h with
  | evict _ _ hpool _ => exact ⟨rfl, rfl, rfl, rfl, rfl, hpool.capacity, hpool.retain, rfl⟩
  | dropClone _ _ _ _ hpool _ => exact ⟨rfl, rfl, rfl, rfl, rfl, hpool.capacity, hpool.retain, rfl⟩

theorem SameConfig.step {sharing : Bool} {copies : List Transfer}
    (h : PageStep sharing t copies t') : SameConfig t t' := by
  cases h with
  | reclaim h => exact .reclaim h
  | take hpool => exact ⟨rfl, rfl, rfl, rfl, rfl, hpool.capacity, hpool.retain, rfl⟩
  | share _ hpool => exact ⟨rfl, rfl, rfl, rfl, rfl, hpool.capacity, hpool.retain, rfl⟩
  | reviveClone _ _ _ hmid hpool =>
    exact ⟨rfl, rfl, rfl, rfl, rfl, hpool.capacity.trans hmid.capacity,
      hpool.retain.trans hmid.retain, rfl⟩
  | forget _ _ hpool => exact ⟨rfl, rfl, rfl, rfl, rfl, hpool.capacity, hpool.retain, rfl⟩
  | replace h _ =>
    cases h with | intro _ hmid hpool _ =>
    exact ⟨rfl, rfl, rfl, rfl, rfl, hpool.capacity.trans hmid.capacity,
      hpool.retain.trans hmid.retain, rfl⟩
  | admitClone _ _ _ _ hpool => exact ⟨rfl, rfl, rfl, rfl, rfl, hpool.capacity, hpool.retain, rfl⟩
  | insert _ _ _ _ _ hpool => exact ⟨rfl, rfl, rfl, rfl, rfl, hpool.capacity, hpool.retain, rfl⟩
  | reorder _ => exact ⟨rfl, rfl, rfl, rfl, rfl, rfl, rfl, rfl⟩
  | drop _ hpool => exact ⟨rfl, rfl, rfl, rfl, rfl, hpool.capacity, hpool.retain, rfl⟩
  | register _ hpool => exact ⟨rfl, rfl, rfl, rfl, rfl, hpool.capacity, hpool.retain, rfl⟩
  | saveToCpu _ _ _ _ _ hcapacity => exact ⟨rfl, rfl, rfl, rfl, rfl, rfl, rfl, hcapacity⟩
  | releaseCpu _ hcapacity => exact ⟨rfl, rfl, rfl, rfl, rfl, rfl, rfl, hcapacity⟩
  | setSeq hrequest => exact ⟨hrequest, rfl, rfl, rfl, rfl, rfl, rfl, rfl⟩

theorem SameConfig.steps {sharing : Bool} {copies : List Transfer}
    (h : PageSteps sharing t copies t') : SameConfig t t' := by
  induction h with
  | refl t => exact .refl t
  | head first _ ih => exact (SameConfig.step first).trans ih

end PrismInfer
