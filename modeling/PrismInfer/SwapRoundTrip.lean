import PrismInfer.EngineRuns
import PrismInfer.Lib.SlotMove
import PrismInfer.ReclaimAccounting

/-!
# The swap round trip

A sequence gives its pages up and gets others later, with whatever the engine does with the
other sequences in between. The rows come back through CPU pages that nobody else writes,
the contents through the sequence itself.
-/
set_option linter.unusedSectionVars false

namespace PrismInfer
open StateExcept Relation SlotMove

/-- The rows of every page, on the GPU and in CPU memory. -/
structure PageRows (R : Type) where
  gpu : ℕ → R
  cpu : ℕ → R

namespace PageRows

variable {R : Type}

/-- `swap_blocks` in direction `"out"`. -/
def swapBlocksOut (rows : PageRows R) (swapMap : List BlockPair) : PageRows R :=
  { rows with
    cpu := scatter rows.cpu (swapMap.map fun (gpuPage, cpuPage) => (cpuPage, rows.gpu gpuPage)) }

/-- `swap_blocks` in direction `"in"`. -/
def swapBlocksIn (rows : PageRows R) (swapMap : List BlockPair) : PageRows R :=
  { rows with
    gpu := scatter rows.gpu (swapMap.map fun (cpuPage, gpuPage) => (gpuPage, rows.cpu cpuPage)) }

variable {rows : PageRows R} {table cpuTable : List ℕ} {i old page : ℕ}

theorem map_snd_zip_eq {left right : List ℕ} (h : right.length = left.length) :
    (left.zip right).map Prod.snd = right :=
  List.map_snd_zip h.le

theorem swapBlocksOut_cpu (hlength : cpuTable.length = table.length) (hnodup : cpuTable.Nodup)
    (hold : table[i]? = some old) (hpage : cpuTable[i]? = some page) :
    (rows.swapBlocksOut (table.zip cpuTable)).cpu page = rows.gpu old := by
  have hpair : (old, page) ∈ table.zip cpuTable :=
    List.mem_iff_getElem?.mpr ⟨i, List.getElem?_zip_eq_some.mpr ⟨hold, hpage⟩⟩
  exact scatter_pairs rows.gpu (by rwa [map_snd_zip_eq hlength]) hpair

theorem swapBlocksOut_cpu_of_notMem (hlength : cpuTable.length = table.length)
    (hpage : page ∉ cpuTable) :
    (rows.swapBlocksOut (table.zip cpuTable)).cpu page = rows.cpu page :=
  scatter_pairs_of_notMem rows.gpu (by rwa [map_snd_zip_eq hlength])

theorem swapBlocksIn_gpu (hlength : table.length = cpuTable.length) (hnodup : table.Nodup)
    (hpage : cpuTable[i]? = some page) (hnew : table[i]? = some old) :
    (rows.swapBlocksIn (cpuTable.zip table)).gpu old = rows.cpu page := by
  have hpair : (page, old) ∈ cpuTable.zip table :=
    List.mem_iff_getElem?.mpr ⟨i, List.getElem?_zip_eq_some.mpr ⟨hpage, hnew⟩⟩
  exact scatter_pairs rows.cpu (by rwa [map_snd_zip_eq hlength]) hpair

theorem swapBlocksIn_gpu_of_notMem (hlength : table.length = cpuTable.length)
    (hpage : page ∉ table) : (rows.swapBlocksIn (cpuTable.zip table)).gpu page = rows.gpu page :=
  scatter_pairs_of_notMem rows.cpu (by rwa [map_snd_zip_eq hlength])

end PageRows

variable {H R : Type} [DecidableEq H] [Digests H]

/-- What happens beside a swapped sequence: steps of the engine on other sequences, any write
to GPU pages, and writes to CPU pages that other sequences own. -/
inductive OtherActivity : Fleet H × PageRows R → Fleet H × PageRows R → Prop
  | engine {fleet fleet' : Fleet H} {rows : PageRows R} (h : FleetStep fleet fleet') :
      OtherActivity (fleet, rows) (fleet', rows)
  | writeGpu {fleet : Fleet H} {rows : PageRows R} (gpu : ℕ → R) :
      OtherActivity (fleet, rows) (fleet, { rows with gpu := gpu })
  | writeCpu {fleet : Fleet H} {rows : PageRows R} {other : Sequence H} {page : ℕ}
      (hother : other ∈ fleet.2) (hpage : page ∈ other.cpuBlockTable) (value : R) :
      OtherActivity (fleet, rows) (fleet, { rows with cpu := Function.update rows.cpu page value })

/-- What a call on one sequence, whose table goes from `table` to `table'`, leaves of the
other sequences and of the entries. -/
structure Spared (others : List (Sequence H)) (table table' : List ℕ)
    (manager manager' : BlockManager H) (rows rows' : PageRows R) : Prop where
  pages : ∀ other ∈ others, ∀ page ∈ other.blockTable,
    (manager'.gpuPool.blocks page).content = (manager.gpuPool.blocks page).content ∧
      rows'.gpu page = rows.gpu page
  cpuPages : ∀ other ∈ others, ∀ page ∈ other.cpuBlockTable,
    page ∈ manager'.cpuPool.usedBlockIds ∧ rows'.cpu page = rows.cpu page
  /-- An entry goes as a whole or gives up tail clones. -/
  entries : ∀ item ∈ manager'.multimodalPrefixCache, ∃ entry,
    (item.1, entry) ∈ manager.multimodalPrefixCache ∧ ∃ clones,
      clones.Sublist entry.tailCloneBlockIds ∧ item.2 = { entry with tailCloneBlockIds := clones }
  entryPages : ∀ page ∈ manager'.multimodalPrefixCache.pages,
    (manager'.gpuPool.blocks page).content = (manager.gpuPool.blocks page).content ∧
      rows'.gpu page = rows.gpu page
  /-- Only the references of the sequence and of what was evicted change. -/
  references : ∀ page, manager'.refCount page + table.count page +
      manager.multimodalPrefixCache.pages.count page =
    manager.refCount page + table'.count page + manager'.multimodalPrefixCache.pages.count page
  /-- Nothing is evicted while enough pages are free. -/
  unpressed : table'.length ≤ manager.gpuPool.freeCount →
    manager'.multimodalPrefixCache = manager.multimodalPrefixCache

/-- The state of a sequence after the round trip, against the one before it. -/
structure RoundTrip (manager : BlockManager H) (seq : Sequence H) (rows : PageRows R)
    (cpuTable : List ℕ) (others : List (Sequence H)) (manager' : BlockManager H)
    (restored : Sequence H) (rows' : PageRows R) : Prop where
  unchanged : restored = { seq with
    blockTable := restored.blockTable
    cpuBlockTable := []
    cpuBlockHashes := []
    cpuBlockTokenIds := []
    cpuBlockMmHashes := [] }
  length : restored.blockTable.length = seq.blockTable.length
  pages : ∀ i old new : ℕ, seq.blockTable[i]? = some old → restored.blockTable[i]? = some new →
    (manager'.gpuPool.blocks new).content = (manager.gpuPool.blocks old).content ∧
      rows'.gpu new = rows.gpu old
  nodup : restored.blockTable.Nodup
  alone : ∀ new ∈ restored.blockTable, manager'.refCount new = 1 ∧
    new ∉ manager'.multimodalPrefixCache.pages ∧ ∀ other ∈ others, new ∉ other.blockTable
  /-- Of several blocks with one digest, the index leads to the last. -/
  index : ∀ (i old : ℕ) (key : H), seq.blockTable[i]? = some old →
    (manager.gpuPool.blocks old).hash = some key → ∃ j source page,
      i ≤ j ∧ seq.blockTable[j]? = some source ∧
      (manager.gpuPool.blocks source).hash = some key ∧ restored.blockTable[j]? = some page ∧
      manager'.gpuPool.hashToBlockId key = some page ∧
      (manager'.gpuPool.blocks page).content = (manager.gpuPool.blocks source).content ∧
      rows'.gpu page = rows.gpu source
  cpuFree : ∀ page ∈ cpuTable, page ∈ manager'.cpuPool.freeBlockIds ∧
    page ∈ manager'.cpuPool.freeBlockIdSet ∧ page ∉ manager'.cpuPool.usedBlockIds

namespace FleetKept

variable {manager : BlockManager H} {seq : Sequence H} {others : List (Sequence H)}

theorem references (hk : FleetKept (manager, seq :: others)) (page : ℕ) :
    manager.refCount page = seq.blockTable.count page +
      (others.flatMap (·.blockTable)).count page +
      manager.multimodalPrefixCache.pages.count page := by
  have hrefs := hk.accounts.refs page
  rw [List.flatMap_cons, List.count_append] at hrefs
  simp only [Others.none, Nat.zero_add] at hrefs
  exact hrefs

theorem held_of_other (hk : FleetKept (manager, seq :: others)) {other : Sequence H}
    (hother : other ∈ others) {page : ℕ} (hpage : page ∈ other.blockTable) :
    0 < manager.refCount page := by
  have hrefs := hk.references page
  have hcount : 0 < (others.flatMap (·.blockTable)).count page :=
    List.count_pos_iff.mpr (List.mem_flatMap.mpr ⟨other, hother, hpage⟩)
  omega

theorem held_of_cache (hk : FleetKept (manager, seq :: others)) {page : ℕ}
    (hpage : page ∈ manager.multimodalPrefixCache.pages) : 0 < manager.refCount page := by
  have hrefs := hk.references page
  have hcount := List.count_pos_iff.mpr hpage
  omega

/-- A CPU page of one sequence belongs to no other one. -/
theorem cpu_apart (hk : FleetKept (manager, seq :: others)) {other : Sequence H}
    (hother : other ∈ others) {page : ℕ} (hpage : page ∈ other.cpuBlockTable) :
    page ∉ seq.cpuBlockTable := by
  have hnodup := hk.accounts.cpu_nodup
  rw [List.flatMap_cons] at hnodup
  intro hown
  exact (List.nodup_append.mp hnodup).2.2 page hown page
    (List.mem_flatMap.mpr ⟨other, hother, hpage⟩) rfl

theorem cpu_used_of_mem (hk : FleetKept (manager, seq :: others)) {other : Sequence H}
    (hother : other ∈ seq :: others) {page : ℕ} (hpage : page ∈ other.cpuBlockTable) :
    page ∈ manager.cpuPool.usedBlockIds :=
  (hk.accounts.cpu_used page).mpr (.inr (List.mem_flatMap.mpr ⟨other, hother, hpage⟩))

end FleetKept

namespace BlockManager
open GpuBlockPool

variable {others : Others} {t t' : ManagerState H} {protectedId : Option CacheId}

/-! ## Reclaiming -/

theorem Reclaimed.content (h : Reclaimed protectedId t t') {page : ℕ}
    (hpage : 0 < t'.refCount page) :
    (t'.pool.blocks page).content = (t.pool.blocks page).content := by
  induction h with
  | refl => rfl
  | @tail mid t' hmid hlast ih =>
    have hstep : ∃ ids, ReleasedAll mid.pool ids t'.pool := by
      cases hlast with
      | evict _ _ hpool _ => exact ⟨_, hpool⟩
      | dropClone _ _ _ _ hpool _ => exact ⟨_, .cons hpool (.nil _)⟩
    obtain ⟨ids, hreleased⟩ := hstep
    have hbefore : 0 < mid.refCount page := by
      have := hreleased.refCount page
      simp only [ManagerState.refCount] at hpage ⊢
      omega
    rw [hreleased.content hpage, ih hbefore]

theorem Reclaimed.entries (h : Reclaimed protectedId t t') :
    ∀ item ∈ t'.cache, ∃ entry, (item.1, entry) ∈ t.cache ∧ ∃ clones,
      clones.Sublist entry.tailCloneBlockIds ∧
        item.2 = { entry with tailCloneBlockIds := clones } := by
  induction h with
  | refl => exact fun item hitem => ⟨item.2, hitem, item.2.tailCloneBlockIds, .refl _, rfl⟩
  | @tail mid t' _ hlast ih =>
    intro item hitem
    cases hlast with
    | evict _ _ _ _ => exact ih item (List.mem_filter.mp hitem).1
    | @dropClone cacheId entry id pool _ _ _ _ _ _ =>
      obtain ⟨before, hbefore, rfl⟩ := List.mem_map.mp hitem
      obtain ⟨first, hfirst, clones, hsub, hentry⟩ := ih before hbefore
      by_cases hkey : before.1 = cacheId
      · simp only [hkey, if_true]
        refine ⟨first, hkey ▸ hfirst, clones.erase id, List.erase_sublist.trans hsub, ?_⟩
        rw [hentry]
      · simp only [hkey, if_false]
        exact ⟨first, hfirst, clones, hsub, hentry⟩

theorem Reclaimed.cpuPool (h : Reclaimed protectedId t t') : t'.cpuPool = t.cpuPool := by
  induction h with
  | refl => rfl
  | tail _ hlast ih => cases hlast <;> exact ih

/-- Reclaiming secures what is free or reclaimable at entry. -/
theorem ensureFreeBlocks_succeeds {required : ℕ} (hl : Ledger others t)
    (henough : required ≤ t.pool.freeCount + t.manager.reclaimableCacheBlocks protectedId) :
    ∃ t', ensureFreeBlocks required protectedId t = .ok () t' ∧ Reclaimed protectedId t t' ∧
      required ≤ t'.pool.freeCount := by
  obtain ⟨t', hloop, hr, hstop⟩ := reclaimLoop_stops required protectedId hl
  have hconserved := reclaimed_conserves hl hr
  have hfree : required ≤ t'.pool.freeCount := by
    rcases hstop with hfree | hexhausted
    · exact hfree
    · have hzero := reclaimable_of_exhausted hexhausted
      omega
  refine ⟨t', ?_, hr, hfree⟩
  simp only [ensureFreeBlocks, bind_ok, readManager_ok, require_ok]
  exact ⟨_, _, ⟨rfl, rfl⟩, true, t', hloop _ le_rfl, _, _, ⟨rfl, rfl⟩, hfree, rfl⟩

/-! ## Swapping in -/

theorem validateSwapInMetadata_ok {manager : BlockManager H} {seq : Sequence H}
    (hhashes : seq.cpuBlockHashes.length = seq.cpuBlockTable.length)
    (htokens : seq.cpuBlockTokenIds.length = seq.cpuBlockTable.length)
    (hmms : seq.cpuBlockMmHashes.length = seq.cpuBlockTable.length)
    (htidy : ∀ content ∈ savedContents seq, TidyContent manager.blockSize content) :
    manager.validateSwapInMetadata seq = .ok () := by
  have hall : (savedContents seq).forM (validateSwapBlock manager.blockSize) = .ok () := by
    generalize savedContents seq = contents at htidy
    induction contents with
    | nil => rfl
    | cons content contents ih =>
      exact except_bind_ok.mpr ⟨(), validateSwapBlock_of_tidy (htidy content List.mem_cons_self),
        ih fun other hother => htidy other (List.mem_cons_of_mem _ hother)⟩
  unfold validateSwapInMetadata
  exact except_bind_ok.mpr ⟨(), ensure_ok.mpr ⟨hhashes, htokens⟩,
    except_bind_ok.mpr ⟨(), ensure_ok.mpr hmms, hall⟩⟩

/-- `swap_in` returns where its pages can be had and its metadata are in order. -/
theorem swapIn_succeeds (hl : Ledger others t) (hdense : t.seq.kvLayout = none)
    (htable : t.seq.blockTable = []) (hcan : t.manager.canSwapIn t.seq = .ok true)
    (hmetadata : ∀ manager : BlockManager H, manager.blockSize = t.manager.blockSize →
      manager.validateSwapInMetadata t.seq = .ok ()) :
    ∃ pairs t', swapIn t = .ok pairs t' := by
  simp only [canSwapIn, except_bind_ok, except_pure_ok, decide_eq_true_eq] at hcan
  obtain ⟨_, hsize, hcpu, henough⟩ := hcan
  obtain ⟨t₁, hfree, hr, hroom⟩ := ensureFreeBlocks_succeeds hl henough
  have hl₁ := hr.ledger hl
  have hused : ∀ page ∈ t.seq.cpuBlockTable, page ∈ t.cpuPool.usedBlockIds := fun page hpage =>
    (hl.cpu_used page).mpr (.inr hpage)
  have hvalid := CpuBlockPool.validateOwned_succeeds hl.cpu hl.cpu_nodup hused
  have hconfig : t₁.manager.blockSize = t.manager.blockSize := (Reclaimed.config hr).blockSize
  obtain ⟨newTable, taken, htake⟩ := allocateMany_succeeds hl₁.gpu hroom
  obtain ⟨-, hwTaken, htook⟩ := allocateMany_ok hl₁.gpu htake
  have hheld : ∀ item ∈ newTable.zip (savedContents t.seq),
      0 < ((t₁.setPool taken).pool.blocks item.1).refCount := by
    intro item hitem
    have hone := (htook.taken (List.of_mem_zip hitem).1).2
    change 0 < (taken.blocks item.1).refCount
    omega
  obtain ⟨t₂, hrestore⟩ := restoreHashes_succeeds (t := t₁.setPool taken) hwTaken hheld
  obtain ⟨restored, rfl, -, -⟩ := restoreHashes_ok hwTaken hrestore
  have hreleasable : ∀ page ∈ t.seq.cpuBlockTable, page ∈ t₁.cpuPool.usedBlockIds :=
    fun page hpage => by
    rw [Reclaimed.cpuPool hr]
    exact hused page hpage
  obtain ⟨cpuPool, hrelease⟩ := CpuBlockPool.releaseMany_succeeds hl₁.cpu hl.cpu_nodup hreleasable
  have hlayout : ∀ (table : Sequence H → List ℕ) (manager : BlockManager H) (seq : Sequence H),
      seq.kvLayout = none → validateLayout table manager seq = .ok () := by
    intro table manager seq hnone
    unfold validateLayout
    rw [hnone]
  simp only [swapIn, bind_ok, query_ok, get_ok, require_ok, gpu_ok, cpu_ok, modifySeq_ok, pure_ok]
  refine ⟨_, _, (), t, ⟨hsize, rfl⟩, t, t, ⟨rfl, rfl⟩, (), t, ⟨htable, rfl⟩, (), t, ⟨hcpu, rfl⟩, (),
    t, ⟨hlayout _ _ _ hdense, rfl⟩, (), t, ⟨t.cpuPool, hvalid, rfl⟩, (), t₁, hfree, (), t₁,
    ⟨?_, rfl⟩, newTable, _, ⟨taken, htake, rfl⟩, (), _, hrestore, (), _, ⟨cpuPool, hrelease, rfl⟩,
    (), _, rfl, (), _, ⟨hlayout _ _ _ ?_, rfl⟩, rfl, rfl⟩
  · rw [hr.seq]
    exact hmetadata t₁.manager hconfig
  · change t₁.seq.kvLayout = none
    rw [hr.seq]
    exact hdense

end BlockManager

/-! ## Between the two calls -/

variable {state state' : Fleet H × PageRows R} {swapped : Sequence H}

/-- Whatever happens beside a swapped sequence leaves its CPU pages alone. -/
theorem OtherActivity.kept (h : OtherActivity state state')
    (hk : FleetKept (state.1.1, swapped :: state.1.2)) :
    FleetKept (state'.1.1, swapped :: state'.1.2) ∧
      ∀ page ∈ swapped.cpuBlockTable, state'.2.cpu page = state.2.cpu page := by
  cases h with
  | engine hstep => exact ⟨hk.step (hstep.beside swapped), fun _ _ => rfl⟩
  | writeGpu gpu => exact ⟨hk, fun _ _ => rfl⟩
  | @writeCpu fleet rows other page hother hpage value =>
    refine ⟨hk, fun own hown => Function.update_of_ne ?_ value rows.cpu⟩
    rintro rfl
    exact hk.cpu_apart hother hpage hown

theorem OtherActivity.run_kept (h : ReflTransGen OtherActivity state state')
    (hk : FleetKept (state.1.1, swapped :: state.1.2)) :
    FleetKept (state'.1.1, swapped :: state'.1.2) ∧
      ∀ page ∈ swapped.cpuBlockTable, state'.2.cpu page = state.2.cpu page := by
  induction h with
  | refl => exact ⟨hk, fun _ _ => rfl⟩
  | tail _ hlast ih =>
    obtain ⟨hmid, hrows⟩ := ih
    obtain ⟨hk', hrows'⟩ := hlast.kept hmid
    exact ⟨hk', fun page hpage => (hrows' page hpage).trans (hrows page hpage)⟩

/-! ## The two calls -/

namespace BlockManager
open GpuBlockPool

variable {manager manager' : BlockManager H} {seq seq' : Sequence H} {others : List (Sequence H)}
  {rows : PageRows R} {pairs : List BlockPair}

theorem focus_head (hk : FleetKept (manager, seq :: others)) :
    Ledger (Others.none.add others) ⟨manager, seq⟩ :=
  FleetAccounts.focus
    (show FleetAccounts Others.none manager ([] ++ seq :: others) from hk.accounts)

theorem kept_after (hk : FleetKept (manager, seq :: others)) (call : ManagerCall)
    (hwithin : call.Within seq) (h : call.run ⟨manager, seq⟩ = .ok () ⟨manager', seq'⟩) :
    FleetKept (manager', seq' :: others) :=
  hk.step (@FleetStep.call _ _ _ manager manager' [] others seq seq' call hwithin h)

theorem swapOut_run (h : swapOut ⟨manager, seq⟩ = .ok pairs ⟨manager', seq'⟩) :
    ManagerCall.swapOut.run ⟨manager, seq⟩ = .ok () ⟨manager', seq'⟩ :=
  bind_ok.mpr ⟨pairs, _, h, pure_ok.mpr ⟨rfl, rfl⟩⟩

theorem swapIn_run (h : swapIn ⟨manager, seq⟩ = .ok pairs ⟨manager', seq'⟩) :
    ManagerCall.swapIn.run ⟨manager, seq⟩ = .ok () ⟨manager', seq'⟩ :=
  bind_ok.mpr ⟨pairs, _, h, pure_ok.mpr ⟨rfl, rfl⟩⟩

/-- References change by the tables of the sequence and by the entries only. -/
theorem references_change (hk : FleetKept (manager, seq :: others))
    (hk' : FleetKept (manager', seq' :: others)) (page : ℕ) :
    manager'.refCount page + seq.blockTable.count page +
        manager.multimodalPrefixCache.pages.count page =
      manager.refCount page + seq'.blockTable.count page +
        manager'.multimodalPrefixCache.pages.count page := by
  have hbefore := hk.references page
  have hafter := hk'.references page
  omega

theorem swapOut_spares (hk : FleetKept (manager, seq :: others))
    (h : swapOut ⟨manager, seq⟩ = .ok pairs ⟨manager', seq'⟩) :
    Spared others seq.blockTable [] manager manager' rows (rows.swapBlocksOut pairs) := by
  have hk' : FleetKept (manager', seq' :: others) := kept_after hk .swapOut trivial (swapOut_run h)
  obtain ⟨-, -, -, -, cpuTable, cpuPool, pool, hlength, -, hfresh, -, hreleased, rfl, hresult⟩ :=
    swapOut_ok (focus_head hk) h
  simp only [ManagerState.mk.injEq] at hresult
  obtain ⟨rfl, rfl⟩ := hresult
  refine ⟨?_, ?_, ?_, ?_, ?_, fun _ => rfl⟩
  · exact fun other hother page hpage => ⟨hreleased.content (hk'.held_of_other hother hpage), rfl⟩
  · intro other hother page hpage
    refine ⟨hk'.cpu_used_of_mem (List.mem_cons_of_mem _ hother) hpage, ?_⟩
    apply PageRows.swapBlocksOut_cpu_of_notMem hlength
    intro hown
    exact hfresh page hown (hk.cpu_used_of_mem (List.mem_cons_of_mem _ hother) hpage)
  · exact fun item hitem => ⟨item.2, hitem, item.2.tailCloneBlockIds, .refl _, rfl⟩
  · exact fun page hpage => ⟨hreleased.content (hk'.held_of_cache hpage), rfl⟩
  · exact references_change hk hk'

theorem swapIn_spares (hk : FleetKept (manager, seq :: others))
    (h : swapIn ⟨manager, seq⟩ = .ok pairs ⟨manager', seq'⟩) :
    Spared others [] seq'.blockTable manager manager' rows (rows.swapBlocksIn pairs) := by
  have hk' : FleetKept (manager', seq' :: others) := kept_after hk .swapIn trivial (swapIn_run h)
  have hl := focus_head hk
  obtain ⟨t₁, newTable, taken, restored, cpuPool, hin⟩ := swapIn_ok hl h
  have hl₁ := Reclaimed.ledger hl hin.reclaimed
  have hmanager : manager' = { t₁.manager with gpuPool := restored, cpuPool := cpuPool } :=
    hin.manager
  have hnew : seq'.blockTable = newTable := by
    rw [show seq' = _ from hin.seq]
  have hcache : manager'.multimodalPrefixCache = t₁.cache := by rw [hmanager]
  -- a page with another owner was there before the new pages were taken
  have hkept : ∀ page, 0 < t₁.refCount page → page ∉ newTable ∧
      (manager'.gpuPool.blocks page).content = (manager.gpuPool.blocks page).content := by
    intro page hpage
    have hnot : page ∉ newTable := fun hmem => by
      have hfresh := (hin.took.fresh.2 page hmem).1
      simp only [ManagerState.refCount] at hpage
      omega
    refine ⟨hnot, ?_⟩
    have hids : page ∉ (newTable.zip (savedContents seq)).map (·.1) := fun hmem => by
      obtain ⟨item, hitem, rfl⟩ := List.mem_map.mp hmem
      exact hnot (List.of_mem_zip hitem).1
    rw [hmanager]
    change (restored.blocks page).content = _
    rw [hin.restores.block_of_notMem hids, hin.took.block_of_held hpage]
    exact Reclaimed.content hin.reclaimed hpage
  have hrows : ∀ page, page ∉ newTable → (rows.swapBlocksIn pairs).gpu page = rows.gpu page := by
    intro page hpage
    rw [hin.pairs_eq]
    exact PageRows.swapBlocksIn_gpu_of_notMem hin.length hpage
  refine ⟨?_, ?_, ?_, ?_, ?_, ?_⟩
  · intro other hother page hpage
    have hheld : 0 < t₁.refCount page := by
      have hrefs := hl₁.refs page
      have hcount : 0 < (others.flatMap (·.blockTable)).count page :=
        List.count_pos_iff.mpr (List.mem_flatMap.mpr ⟨other, hother, hpage⟩)
      simp only [Others.add, ManagerState.refCount] at hrefs ⊢
      omega
    exact ⟨(hkept page hheld).2, hrows page (hkept page hheld).1⟩
  · exact fun other hother page hpage =>
      ⟨hk'.cpu_used_of_mem (List.mem_cons_of_mem _ hother) hpage, rfl⟩
  · rw [hcache]
    exact Reclaimed.entries hin.reclaimed
  · intro page hpage
    have hheld : 0 < t₁.refCount page := by
      have hrefs := hl₁.refs page
      rw [hcache] at hpage
      have hcount := List.count_pos_iff.mpr hpage
      simp only [ManagerState.refCount] at hrefs ⊢
      omega
    exact ⟨(hkept page hheld).2, hrows page (hkept page hheld).1⟩
  · have hempty : seq.blockTable = [] := (swapIn_seq hl h).1
    intro page
    have hchange := references_change hk hk' page
    rwa [hempty] at hchange
  · intro henough
    rw [hnew, hin.length] at henough
    rw [hcache, hin.enough henough]

/-! ## The round trip -/

/-- The block a page had is among the contents the sequence saved. -/
theorem savedContents_eq (table : List ℕ) (blocks : ℕ → Block H) (cpuTable : List ℕ)
    (seq : Sequence H) :
    savedContents { seq with
      cpuBlockTable := cpuTable
      cpuBlockHashes := (table.map blocks).map (·.hash)
      cpuBlockTokenIds := (table.map blocks).map (·.tokenIds)
      cpuBlockMmHashes := (table.map blocks).map (·.mmTokenHashes)
      blockTable := [] } = table.map fun page => (blocks page).content := by
  unfold savedContents
  simp only [List.map_map, List.zip_map']
  rfl

theorem noContent_of_tidy {blockSize : ℕ} {content : Option H × List ℕ × Option MmTokenHashes}
    (h : TidyContent blockSize content) (hnone : content.1 = none) :
    content = Block.noContent := by
  obtain ⟨blockHash, tokenIds, mm⟩ := content
  obtain rfl : blockHash = none := hnone
  obtain ⟨rfl, rfl⟩ := h
  rfl

variable {manager₁ manager₃ : BlockManager H} {swapped restored : Sequence H}
  {out back : List BlockPair} {left right : List (Sequence H)} {fleet : Fleet H}
  {rows₂ : PageRows R}

/-- The sequence between the two calls: it is as before, but for what it saved. -/
theorem swapped_succeeds (htidy : manager.Tidy) (hdense : seq.kvLayout = none)
    (hout : SwappedOut ⟨manager, seq⟩ out ⟨manager₁, swapped⟩)
    (hk : FleetKept (fleet.1, swapped :: fleet.2)) (hcan : fleet.1.canSwapIn swapped = .ok true) :
    ∃ back t', swapIn ⟨fleet.1, swapped⟩ = .ok back t' := by
  obtain ⟨hsize, -, -, -, cpuTable, cpuPool, pool, hlength, -, -, -, -, -, hresult⟩ := hout
  simp only [ManagerState.mk.injEq] at hresult
  obtain ⟨-, rfl⟩ := hresult
  apply swapIn_succeeds (focus_head hk) hdense rfl hcan
  intro other hother
  have hsame : seq.blockSize = fleet.1.blockSize := by
    simp only [canSwapIn, except_bind_ok] at hcan
    obtain ⟨_, hasserted, -⟩ := hcan
    exact assertSequenceBlockSize_ok.mp hasserted
  have hmanager : seq.blockSize = manager.blockSize := hsize
  apply validateSwapInMetadata_ok
  · simp [hlength]
  · simp [hlength]
  · simp [hlength]
  · rw [savedContents_eq, hother]
    intro content hcontent
    obtain ⟨page, -, rfl⟩ := List.mem_map.mp hcontent
    change TidyContent fleet.1.blockSize _
    rw [← hsame, hmanager]
    exact htidy page

theorem roundTrip_of_swapIn (htidy : manager.Tidy)
    (hout : SwappedOut ⟨manager, seq⟩ out ⟨manager₁, swapped⟩)
    (hk : FleetKept (fleet.1, swapped :: fleet.2))
    (hrows : ∀ page ∈ swapped.cpuBlockTable, rows₂.cpu page = (rows.swapBlocksOut out).cpu page)
    (hin : swapIn ⟨fleet.1, swapped⟩ = .ok back ⟨manager₃, restored⟩) :
    RoundTrip manager seq rows swapped.cpuBlockTable fleet.2 manager₃ restored
      (rows₂.swapBlocksIn back) := by
  have hk₃ : FleetKept (manager₃, restored :: fleet.2) :=
    kept_after hk .swapIn trivial (swapIn_run hin)
  have hl₂ := focus_head hk
  have hl₃ := focus_head hk₃
  obtain ⟨t₁, newTable, taken, pool₃, cpuPool₃, hspec⟩ := swapIn_ok hl₂ hin
  obtain ⟨hsize, -, -, -, cpuTable, cpuPool, pool, hlength, hnodupCpu, -, -, -, rfl, hresult⟩ :=
    hout
  simp only [ManagerState.mk.injEq] at hresult
  obtain ⟨-, rfl⟩ := hresult
  obtain ⟨hnodup, -⟩ := hspec.took.fresh
  have hlengths : newTable.length = seq.blockTable.length := hspec.length.trans hlength
  have hcontents := savedContents_eq seq.blockTable manager.gpuPool.blocks cpuTable seq
  have hitems : (newTable.zip (seq.blockTable.map fun page =>
      (manager.gpuPool.blocks page).content)).map (·.1) = newTable :=
    List.map_fst_zip (by rw [List.length_map]; omega)
  have hrestores := hspec.restores
  rw [hcontents] at hrestores
  have hmanager : manager₃ = { t₁.manager with gpuPool := pool₃, cpuPool := cpuPool₃ } :=
    hspec.manager
  have htable : restored.blockTable = newTable := by rw [show restored = _ from hspec.seq]
  -- one block: its content comes from the sequence, its rows through its CPU page
  have hpage : ∀ i old new : ℕ, seq.blockTable[i]? = some old → newTable[i]? = some new →
      (manager₃.gpuPool.blocks new).content = (manager.gpuPool.blocks old).content ∧
        (rows₂.swapBlocksIn back).gpu new = rows.gpu old := by
    intro i old new hold hnew
    constructor
    · have hitem : (new, (manager.gpuPool.blocks old).content) ∈
          newTable.zip (seq.blockTable.map fun page => (manager.gpuPool.blocks page).content) := by
        refine List.mem_iff_getElem?.mpr ⟨i, List.getElem?_zip_eq_some.mpr ⟨hnew, ?_⟩⟩
        rw [List.getElem?_map, hold]
        rfl
      rw [hmanager]
      change (pool₃.blocks new).content = _
      rw [hrestores.content (by rwa [hitems]) hitem]
      split
      · next hnone =>
        rw [(hspec.took.taken (List.mem_of_getElem? hnew)).1]
        exact (noContent_of_tidy (htidy old) hnone).symm
      · rfl
    · obtain ⟨page, hpage⟩ : ∃ page, cpuTable[i]? = some page := by
        have hlt := (List.getElem?_eq_some_iff.mp hold).1
        exact ⟨_, List.getElem?_eq_getElem (show i < cpuTable.length by rw [hlength]; exact hlt)⟩
      have hmem : page ∈ cpuTable := List.mem_of_getElem? hpage
      rw [hspec.pairs_eq, PageRows.swapBlocksIn_gpu hspec.length hnodup hpage hnew, hrows page hmem]
      exact PageRows.swapBlocksOut_cpu hlength hnodupCpu hold hpage
  refine ⟨?_, ?_, ?_, ?_, ?_, ?_, ?_⟩
  · rw [htable]
    exact hspec.seq
  · rw [htable, hlengths]
  · rw [htable]
    exact hpage
  · rw [htable]
    exact hnodup
  · intro new hnew
    have hnew' := hnew
    rw [htable] at hnew'
    have hone : manager₃.refCount new = 1 := by
      rw [hmanager]
      change (pool₃.blocks new).refCount = 1
      rw [hrestores.refCount, (hspec.took.taken hnew').2]
    have haccounts : FleetAccounts Others.none manager₃ ([] ++ restored :: fleet.2) := hk₃.accounts
    obtain ⟨-, hcache, hothers⟩ := haccounts.alone hnew hone
    exact ⟨hone, hcache, hothers⟩
  · intro i old key hold hkey
    obtain ⟨new, hnew⟩ : ∃ new, newTable[i]? = some new := by
      have hlt := (List.getElem?_eq_some_iff.mp hold).1
      exact ⟨_, List.getElem?_eq_getElem (show i < newTable.length by rw [hlengths]; exact hlt)⟩
    have hitem : (newTable.zip (seq.blockTable.map fun page =>
        (manager.gpuPool.blocks page).content))[i]? =
          some (new, (manager.gpuPool.blocks old).content) := by
      refine List.getElem?_zip_eq_some.mpr ⟨hnew, ?_⟩
      rw [List.getElem?_map, hold]
      rfl
    obtain ⟨j, last, hle, hlast, hlastKey, hindex⟩ :=
      hrestores.index (by rwa [hitems]) hitem (show ((manager.gpuPool.blocks old).content).1 =
        some key
        from hkey)
    obtain ⟨hlastNew, hlastContent⟩ := List.getElem?_zip_eq_some.mp hlast
    rw [List.getElem?_map] at hlastContent
    obtain ⟨source, hsource, hcontent⟩ := Option.map_eq_some_iff.mp hlastContent
    have hsame := hpage j source last.1 hsource hlastNew
    refine ⟨j, source, last.1, hle, hsource, ?_, by rwa [htable], ?_, hsame.1, hsame.2⟩
    · rw [← hcontent] at hlastKey
      exact hlastKey
    · rw [hmanager]
      exact hindex
  · intro page hmem
    have hcpuPool : manager₃.cpuPool = cpuPool₃ := by rw [hmanager]
    have hnot : page ∉ cpuPool₃.usedBlockIds := fun hused => ((hspec.cpuUsed page).mp hused).2 hmem
    have hlt : page < cpuPool₃.capacity := by
      rw [hspec.cpuCapacity, Reclaimed.cpuPool hspec.reclaimed]
      exact hl₂.cpu.used_lt page ((hl₂.cpu_used page).mpr (.inr hmem))
    have hfree := (hspec.cpuWell.free_iff page).mpr ⟨hlt, hnot⟩
    rw [hcpuPool]
    exact ⟨(hspec.cpuWell.queue_iff page).mpr hfree, hfree, hnot⟩

theorem roundTrip_of_kept {others : List (Sequence H)} (hk : FleetKept (manager, seq :: others))
    (hdense : seq.kvLayout = none)
    (hout : swapOut ⟨manager, seq⟩ = .ok out ⟨manager₁, swapped⟩)
    (hbetween : ReflTransGen OtherActivity
      ((manager₁, others), rows.swapBlocksOut out) (fleet, rows₂)) :
    Spared others seq.blockTable [] manager manager₁ rows (rows.swapBlocksOut out) ∧
      (fleet.1.canSwapIn swapped = .ok true →
        ∃ back t', swapIn ⟨fleet.1, swapped⟩ = .ok back t') ∧
      ∀ back manager₃ restored, swapIn ⟨fleet.1, swapped⟩ = .ok back ⟨manager₃, restored⟩ →
        RoundTrip manager seq rows swapped.cpuBlockTable fleet.2 manager₃ restored
            (rows₂.swapBlocksIn back) ∧
          Spared fleet.2 [] restored.blockTable fleet.1 manager₃ rows₂
            (rows₂.swapBlocksIn back) := by
  have hk₁ : FleetKept (manager₁, swapped :: others) :=
    kept_after hk .swapOut trivial (swapOut_run hout)
  obtain ⟨hk₂, hrows⟩ := OtherActivity.run_kept hbetween hk₁
  have hspec := swapOut_ok (focus_head hk) hout
  refine ⟨swapOut_spares hk hout, swapped_succeeds hk.tidy hdense hspec hk₂, ?_⟩
  intro back manager₃ restored hin
  exact ⟨roundTrip_of_swapIn hk.tidy hspec hk₂ hrows hin, swapIn_spares hk₂ hin⟩

/-- Swapping a dense sequence out and in again, whatever the engine does with the others in
between, restores its rows, contents and index entries on private pages and spares the
others; it can be swapped in whenever `can_swap_in` says so. -/
theorem swap_roundTrip (hreach : Reached (manager, left ++ seq :: right))
    (hdense : seq.kvLayout = none)
    (hout : swapOut ⟨manager, seq⟩ = .ok out ⟨manager₁, swapped⟩)
    (hbetween : ReflTransGen OtherActivity
      ((manager₁, left ++ right), rows.swapBlocksOut out) (fleet, rows₂)) :
    Spared (left ++ right) seq.blockTable [] manager manager₁ rows (rows.swapBlocksOut out) ∧
      (fleet.1.canSwapIn swapped = .ok true →
        ∃ back t', swapIn ⟨fleet.1, swapped⟩ = .ok back t') ∧
      ∀ back manager₃ restored, swapIn ⟨fleet.1, swapped⟩ = .ok back ⟨manager₃, restored⟩ →
        RoundTrip manager seq rows swapped.cpuBlockTable fleet.2 manager₃ restored
            (rows₂.swapBlocksIn back) ∧
          Spared fleet.2 [] restored.blockTable fleet.1 manager₃ rows₂
            (rows₂.swapBlocksIn back) := by
  have hk : FleetKept (manager, seq :: (left ++ right)) :=
    hreach.kept.perm (List.perm_middle.symm)
  exact roundTrip_of_kept hk hdense hout hbetween

/-! ### A page that another sequence keeps -/

section Example

/-- Three text tokens. -/
def sharedRequest (id : ℕ) : Request :=
  { imageRequest id with
    promptTokenIds := [5, 6, 9]
    promptNonempty := by decide
    images := none
    hasPositionIds := false
    hasRopeDelta := false
    imageTokenId := none
    imageTokenCount := 0 }

def sharedStart : ManagerState ℕ :=
  ⟨BlockManager.initial ℕ 4 2 2 true false, Sequence.ofRequest ℕ (sharedRequest 0)⟩

def sharedAllocated : ManagerState ℕ := onState ManagerCall.allocate.run sharedStart

def sharedPublished : ManagerState ℕ :=
  onState (ManagerCall.publishComputedBlocks 0 2).run sharedAllocated

/-- The second request with the same prompt. -/
def sharedSecond : ManagerState ℕ :=
  onState ManagerCall.allocate.run
    ⟨sharedPublished.manager, Sequence.ofRequest ℕ (sharedRequest 1)⟩

theorem reached_shared : Reached
    (sharedSecond.manager, [] ++ sharedPublished.seq :: [sharedSecond.seq]) := by
  have h₁ : FleetStep (sharedStart.manager, [] ++ [])
      (sharedStart.manager, [] ++ sharedStart.seq :: []) := .join rfl rfl
  have h₂ : FleetStep (sharedStart.manager, [] ++ sharedStart.seq :: [])
      (sharedAllocated.manager, [] ++ sharedAllocated.seq :: []) := .call .allocate trivial rfl
  have h₃ : FleetStep (sharedAllocated.manager, [] ++ sharedAllocated.seq :: [])
      (sharedPublished.manager, [] ++ sharedPublished.seq :: []) :=
    .call (.publishComputedBlocks 0 2) (show 2 ≤ 3 by decide) rfl
  have h₄ : FleetStep (sharedPublished.manager, [sharedPublished.seq] ++ [])
      (sharedPublished.manager,
        [sharedPublished.seq] ++ Sequence.ofRequest ℕ (sharedRequest 1) :: []) := .join rfl rfl
  have h₅ : FleetStep (sharedPublished.manager,
        [sharedPublished.seq] ++ Sequence.ofRequest ℕ (sharedRequest 1) :: [])
      (sharedSecond.manager, [sharedPublished.seq] ++ sharedSecond.seq :: []) :=
    .call .allocate trivial rfl
  exact ⟨4, 2, 2, true, false, ((((ReflTransGen.single h₁).tail h₂).tail h₃).tail h₄).tail h₅⟩

def sharedRows : PageRows ℕ := ⟨fun page => 10 * page, fun _ => 0⟩

def sharedOut : ManagerState ℕ :=
  onState ManagerCall.swapOut.run ⟨sharedSecond.manager, sharedPublished.seq⟩

def sharedBack : ManagerState ℕ := onState ManagerCall.swapIn.run sharedOut

/-- The GPU is overwritten in between. -/
theorem swap_roundTrip_shared :
    sharedPublished.seq.blockTable = [0, 1] ∧ sharedSecond.seq.blockTable = [0, 2] ∧
      sharedBack.seq.blockTable = [3, 1] ∧
      RoundTrip sharedSecond.manager sharedPublished.seq sharedRows [0, 1] [sharedSecond.seq]
        sharedBack.manager sharedBack.seq
        (({ sharedRows.swapBlocksOut [(0, 0), (1, 1)] with gpu := fun _ => 7 } :
          PageRows ℕ).swapBlocksIn [(0, 3), (1, 1)]) := by
  have hout : swapOut ⟨sharedSecond.manager, sharedPublished.seq⟩ =
      .ok [(0, 0), (1, 1)] ⟨sharedOut.manager, sharedOut.seq⟩ := rfl
  have hbetween : ReflTransGen OtherActivity
      ((sharedOut.manager, [] ++ [sharedSecond.seq]), sharedRows.swapBlocksOut [(0, 0), (1, 1)])
      ((sharedOut.manager, [] ++ [sharedSecond.seq]),
        { sharedRows.swapBlocksOut [(0, 0), (1, 1)] with gpu := fun _ => 7 }) :=
    .single (.writeGpu fun _ => 7)
  have hin : swapIn ⟨sharedOut.manager, sharedOut.seq⟩ =
      .ok [(0, 3), (1, 1)] ⟨sharedBack.manager, sharedBack.seq⟩ := rfl
  exact ⟨rfl, rfl, rfl,
    ((swap_roundTrip reached_shared rfl hout hbetween).2.2 _ _ _ hin).1⟩

end Example

end BlockManager

namespace Engine
open Scheduler EveryRun

variable {s : Scheduler H} {plans : List BatchPlan} {id : ℕ} {out : List BlockPair}
  {t : ManagerState H} {fleet : Fleet H} {rows rows₂ : PageRows R}

section Example

end Example

end Engine

end PrismInfer
