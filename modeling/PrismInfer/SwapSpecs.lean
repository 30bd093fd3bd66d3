import PrismInfer.ManagerSteps
import PrismInfer.PageContent

/-!
# What swapping does

`swap_out` copies the content of the pages into the sequence and gives the pages up;
`swap_in` takes fresh pages and writes the content back, page by page. What a returned call
did is one record each.
-/
set_option linter.unusedSectionVars false

namespace PrismInfer
open StateExcept

variable {H : Type} [DecidableEq H]

/-- A page with the content it gets back. -/
abbrev RestoreItem (H : Type) := ℕ × Option H × List ℕ × Option MmTokenHashes

namespace GpuBlockPool

/-- Writing contents back, one page after the other: a page without a hash is left alone. -/
inductive RestoredAll : GpuBlockPool H → List (RestoreItem H) → GpuBlockPool H → Prop
  | nil (pool : GpuBlockPool H) : RestoredAll pool [] pool
  | skip {pool pool' : GpuBlockPool H} {id : ℕ} {tokenIds : List ℕ} {mm : Option MmTokenHashes}
      {items : List (RestoreItem H)} (rest : RestoredAll pool items pool') :
      RestoredAll pool ((id, none, tokenIds, mm) :: items) pool'
  | write {pool mid pool' : GpuBlockPool H} {id : ℕ} {blockHash : H} {tokenIds : List ℕ}
      {mm : Option MmTokenHashes} {items : List (RestoreItem H)}
      (first : Registered pool id blockHash tokenIds mm mid) (hw : mid.WellFormed)
      (rest : RestoredAll mid items pool') :
      RestoredAll pool ((id, some blockHash, tokenIds, mm) :: items) pool'

variable {pool pool' mid : GpuBlockPool H} {items : List (RestoreItem H)} {ids : List ℕ} {id : ℕ}

theorem RestoredAll.refCount (h : RestoredAll pool items pool') (x : ℕ) :
    (pool'.blocks x).refCount = (pool.blocks x).refCount := by
  induction h with
  | nil => rfl
  | skip _ ih => exact ih
  | write first _ _ ih => rw [ih, first.refCount x]

/-- Pages that get nothing back stay as they are. -/
theorem RestoredAll.block_of_notMem (h : RestoredAll pool items pool') {x : ℕ}
    (hx : x ∉ items.map (·.1)) : pool'.blocks x = pool.blocks x := by
  induction h with
  | nil => rfl
  | skip _ ih =>
    rw [List.map_cons, List.mem_cons, not_or] at hx
    exact ih hx.2
  | write first _ _ ih =>
    rw [List.map_cons, List.mem_cons, not_or] at hx
    rw [ih hx.2, first.blocks, Function.update_of_ne hx.1]

/-- Every page gets its content back. -/
theorem RestoredAll.content (h : RestoredAll pool items pool') (hnodup : (items.map (·.1)).Nodup)
    {item : RestoreItem H} (hitem : item ∈ items) :
    (pool'.blocks item.1).content =
      if item.2.1 = none then (pool.blocks item.1).content else item.2 := by
  induction h with
  | nil => exact absurd hitem List.not_mem_nil
  | skip rest ih =>
    rw [List.map_cons, List.nodup_cons] at hnodup
    rcases List.mem_cons.mp hitem with rfl | hmem
    · rw [rest.block_of_notMem hnodup.1, if_pos rfl]
    · exact ih hnodup.2 hmem
  | @write _ _ _ id blockHash _ _ _ first _ rest ih =>
    rw [List.map_cons, List.nodup_cons] at hnodup
    rcases List.mem_cons.mp hitem with rfl | hmem
    · rw [rest.block_of_notMem hnodup.1, first.blocks, if_neg (Option.some_ne_none blockHash)]
      simp only [Function.update_self]
      rfl
    · have hne : item.1 ≠ id := by
        intro heq
        have hid := List.mem_map_of_mem (f := fun item : RestoreItem H => item.1) hmem
        exact hnodup.1 (heq ▸ hid)
      rw [ih hnodup.2 hmem, first.blocks, Function.update_of_ne hne]

/-- An index entry stays where its page and its hash get nothing back. -/
theorem RestoredAll.index_of_notMem (h : RestoredAll pool items pool') {key : H} {page : ℕ}
    (hindex : pool.hashToBlockId key = some page) (hpage : page ∉ items.map (·.1))
    (hkey : ∀ item ∈ items, item.2.1 ≠ some key) : pool'.hashToBlockId key = some page := by
  induction h with
  | nil => exact hindex
  | skip _ ih =>
    rw [List.map_cons, List.mem_cons, not_or] at hpage
    exact ih hindex hpage.2 fun item hitem => hkey item (List.mem_cons_of_mem _ hitem)
  | @write _ _ _ id blockHash _ _ _ first _ _ ih =>
    rw [List.map_cons, List.mem_cons, not_or] at hpage
    refine ih ?_ hpage.2 fun item hitem => hkey item (List.mem_cons_of_mem _ hitem)
    have hne : key ≠ blockHash := fun heq => hkey _ List.mem_cons_self (heq ▸ rfl)
    have hother : ¬ some page = some id := fun heq => hpage.1 (Option.some.inj heq)
    rw [first.index, Function.update_of_ne hne, indexWithout, hindex, if_neg hother]

/-- A restored hash leads to the last page that got it back. -/
theorem RestoredAll.index (h : RestoredAll pool items pool') (hnodup : (items.map (·.1)).Nodup)
    {i : ℕ} {item : RestoreItem H} (hitem : items[i]? = some item) {key : H}
    (hkey : item.2.1 = some key) :
    ∃ j last, i ≤ j ∧ items[j]? = some last ∧ last.2.1 = some key ∧
      pool'.hashToBlockId key = some last.1 := by
  induction h generalizing i item with
  | nil => simp at hitem
  | @skip _ _ id _ _ _ _ ih =>
    rw [List.map_cons, List.nodup_cons] at hnodup
    cases i with
    | zero =>
      obtain rfl := Option.some.inj hitem
      exact absurd hkey (by simp)
    | succ i =>
      rw [List.getElem?_cons_succ] at hitem
      obtain ⟨j, last, hle, hlast, hrest⟩ := ih hnodup.2 hitem hkey
      exact ⟨j + 1, last, Nat.succ_le_succ hle, by rwa [List.getElem?_cons_succ], hrest⟩
  | @write _ _ _ id blockHash tokenIds mm items first _ rest ih =>
    rw [List.map_cons, List.nodup_cons] at hnodup
    -- a later page with the same hash takes the entry over
    by_cases hlater : ∃ later ∈ items, later.2.1 = some key
    · obtain ⟨later, hmem, hlaterKey⟩ := hlater
      cases i with
      | zero =>
        obtain ⟨k, hk⟩ := List.mem_iff_getElem?.mp hmem
        obtain ⟨j, last, -, hlast, hrest⟩ := ih hnodup.2 hk hlaterKey
        exact ⟨j + 1, last, Nat.zero_le _, by rwa [List.getElem?_cons_succ], hrest⟩
      | succ i =>
        rw [List.getElem?_cons_succ] at hitem
        obtain ⟨j, last, hle, hlast, hrest⟩ := ih hnodup.2 hitem hkey
        exact ⟨j + 1, last, Nat.succ_le_succ hle, by rwa [List.getElem?_cons_succ], hrest⟩
    · have hnone : ∀ later ∈ items, later.2.1 ≠ some key := fun later hmem heq =>
        hlater ⟨later, hmem, heq⟩
      cases i with
      | zero =>
        obtain rfl := Option.some.inj hitem
        have hhash : blockHash = key := Option.some.inj hkey
        refine ⟨0, _, le_rfl, rfl, hkey, rest.index_of_notMem ?_ hnodup.1 hnone⟩
        rw [first.index, hhash, Function.update_self]
      | succ i =>
        rw [List.getElem?_cons_succ] at hitem
        exact absurd hkey (hnone item (List.mem_of_getElem? hitem))

/-! ## Pages that keep an owner -/

/-- A page that is still referenced keeps its content through a release. -/
theorem Released.content (h : Released pool id pool') {x : ℕ}
    (hx : 0 < (pool'.blocks x).refCount) :
    (pool'.blocks x).content = (pool.blocks x).content := by
  rw [h.blocks] at hx ⊢
  by_cases heq : x = id
  · subst heq
    rw [Function.update_self] at hx ⊢
    split at hx
    · exact absurd hx (Nat.lt_irrefl 0)
    · next hkept =>
      rw [if_neg hkept]
      rfl
  · rw [Function.update_of_ne heq]

theorem Released.forgets (h : Released pool id pool') : pool.Forgets pool' := by
  intro x
  rw [h.blocks]
  by_cases heq : x = id
  · subst heq
    rw [Function.update_self]
    split
    · exact .inr rfl
    · exact .inl rfl
  · rw [Function.update_of_ne heq]
    exact .inl rfl

theorem ReleasedAll.forgets (h : ReleasedAll pool ids pool') : pool.Forgets pool' := by
  induction h with
  | nil pool => exact Std.Refl.refl (r := Forgets) pool
  | cons first _ ih => exact IsTrans.trans (r := Forgets) _ _ _ first.forgets ih

theorem TookAll.forgets (h : TookAll pool ids pool') : pool.Forgets pool' := by
  induction h with
  | nil pool => exact Std.Refl.refl (r := Forgets) pool
  | @cons pool mid _ id _ first _ _ ih =>
    refine IsTrans.trans (r := Forgets) _ mid _ (fun x => ?_) ih
    rw [first.blocks]
    by_cases heq : x = id
    · subst heq
      rw [Function.update_self]
      exact .inr rfl
    · rw [Function.update_of_ne heq]
      exact .inl rfl

theorem ReleasedAll.content (h : ReleasedAll pool ids pool') {x : ℕ}
    (hx : 0 < (pool'.blocks x).refCount) :
    (pool'.blocks x).content = (pool.blocks x).content := by
  induction h with
  | nil => rfl
  | @cons pool mid _ _ _ first rest ih =>
    have hmid : 0 < (mid.blocks x).refCount := by
      have := rest.refCount x
      omega
    rw [ih hx, first.content hmid]

/-- Taking pages leaves the referenced ones as they are. -/
theorem TookAll.block_of_held (h : TookAll pool ids pool') {x : ℕ}
    (hx : 0 < (pool.blocks x).refCount) : pool'.blocks x = pool.blocks x := by
  induction h with
  | nil => rfl
  | @cons pool mid _ id _ first _ _ ih =>
    have hne : x ≠ id := by
      rintro rfl
      exact absurd first.unreferenced (by omega)
    have hblock : mid.blocks x = pool.blocks x := by
      rw [first.blocks, Function.update_of_ne hne]
    rw [ih (by rwa [hblock]), hblock]

/-- A page that was taken carries nothing and has one reference. -/
theorem TookAll.taken (h : TookAll pool ids pool') {x : ℕ} (hx : x ∈ ids) :
    (pool'.blocks x).content = Block.noContent ∧ (pool'.blocks x).refCount = 1 := by
  induction h with
  | nil => exact absurd hx List.not_mem_nil
  | @cons pool mid _ id ids first _ rest ih =>
    by_cases hmem : x ∈ ids
    · exact ih hmem
    · obtain rfl : x = id := (List.mem_cons.mp hx).resolve_right hmem
      have hblock : mid.blocks x = (pool.blocks x).activate := by
        rw [first.blocks, Function.update_self]
      rw [rest.block_of_held (by rw [hblock]; exact Nat.one_pos), hblock]
      exact ⟨rfl, rfl⟩

end GpuBlockPool

namespace BlockManager
open GpuBlockPool

variable [Digests H] {others : Others} {t t' : ManagerState H} {u : Unit}
  {items : List (RestoreItem H)}

theorem Reclaimed.forgets {protectedId : Option CacheId} (h : Reclaimed protectedId t t') :
    t.pool.Forgets t'.pool := by
  induction h with
  | refl => exact Std.Refl.refl (r := GpuBlockPool.Forgets) t.pool
  | @tail mid t' _ hlast ih =>
    refine IsTrans.trans (r := GpuBlockPool.Forgets) _ mid.pool _ ih ?_
    cases hlast with
    | evict _ _ hpool _ => exact hpool.forgets
    | dropClone _ _ _ _ hpool _ => exact hpool.forgets

theorem Reclaimed.config {protectedId : Option CacheId} (h : Reclaimed protectedId t t') :
    SameConfig t t' :=
  SameConfig.steps (show PageSteps true t [] t' from Reclaimed.steps h)

theorem restoreHashes_ok (hw : t.pool.WellFormed) (h : forEach restoreHash items t = .ok u t') :
    ∃ pool, t' = t.setPool pool ∧ RestoredAll t.pool items pool ∧ pool.WellFormed := by
  induction items generalizing t with
  | nil =>
    obtain rfl := forEach_nil_ok.mp h
    exact ⟨t.pool, rfl, .nil _, hw⟩
  | cons item items ih =>
    obtain ⟨mid, hfirst, hrest⟩ := forEach_cons_ok.mp h
    obtain ⟨id, blockHash, tokenIds, mm⟩ := item
    cases blockHash with
    | none =>
      simp only [restoreHash, pure_ok, true_and] at hfirst
      subst hfirst
      obtain ⟨pool, rfl, hrestored, hw'⟩ := ih hw hrest
      exact ⟨pool, rfl, .skip hrestored, hw'⟩
    | some blockHash =>
      simp only [restoreHash, gpu_ok] at hfirst
      obtain ⟨pool, hregister, rfl⟩ := hfirst
      obtain ⟨hwMid, hregistered⟩ := registerHash_ok hw hregister
      obtain ⟨pool', rfl, hrestored, hw'⟩ := ih (t := t.setPool pool) hwMid hrest
      exact ⟨pool', rfl, .write hregistered hwMid hrestored, hw'⟩

/-- Owned pages can get their contents back. -/
theorem restoreHashes_succeeds (hw : t.pool.WellFormed)
    (hheld : ∀ item ∈ items, 0 < (t.pool.blocks item.1).refCount) :
    ∃ t', forEach restoreHash items t = .ok () t' := by
  induction items generalizing t with
  | nil => exact ⟨t, forEach_nil_ok.mpr rfl⟩
  | cons item items ih =>
    obtain ⟨id, blockHash, tokenIds, mm⟩ := item
    have hlater := fun item hitem => hheld item (List.mem_cons_of_mem _ hitem)
    cases blockHash with
    | none =>
      obtain ⟨t', hrest⟩ := ih hw hlater
      exact ⟨t', forEach_cons_ok.mpr ⟨t, pure_ok.mpr ⟨rfl, rfl⟩, hrest⟩⟩
    | some blockHash =>
      obtain ⟨pool, hregister⟩ := registerHash_succeeds hw (hheld _ List.mem_cons_self)
        (some blockHash) tokenIds mm
      obtain ⟨hwMid, hregistered⟩ := registerHash_ok hw hregister
      obtain ⟨t', hrest⟩ := ih (t := t.setPool pool) hwMid fun item hitem => by
        have hcount := hregistered.refCount item.1
        have hbefore := hlater item hitem
        change 0 < (pool.blocks item.1).refCount
        omega
      exact ⟨t', forEach_cons_ok.mpr ⟨t.setPool pool, gpu_ok.mpr ⟨pool, hregister, rfl⟩, hrest⟩⟩

/-- What a returned `swap_out` did. -/
structure SwappedOut (t : ManagerState H) (pairs : List BlockPair) (t' : ManagerState H) :
    Prop where
  sized : t.seq.blockSize = t.manager.blockSize
  unswapped : t.seq.cpuBlockTable = []
  resident : t.table ≠ []
  nodup : t.table.Nodup
  done : ∃ cpuTable cpuPool pool,
    cpuTable.length = t.table.length ∧ cpuTable.Nodup ∧
    (∀ page ∈ cpuTable, page ∉ t.cpuPool.usedBlockIds) ∧
    (∀ page, page ∈ cpuPool.usedBlockIds ↔ page ∈ cpuTable ∨ page ∈ t.cpuPool.usedBlockIds) ∧
    ReleasedAll t.pool t.table pool ∧ pairs = t.table.zip cpuTable ∧
    t' = { manager := { t.manager with gpuPool := pool, cpuPool := cpuPool },
           seq := { t.seq with
             cpuBlockTable := cpuTable
             cpuBlockHashes := (t.table.map t.pool.blocks).map (·.hash)
             cpuBlockTokenIds := (t.table.map t.pool.blocks).map (·.tokenIds)
             cpuBlockMmHashes := (t.table.map t.pool.blocks).map (·.mmTokenHashes)
             blockTable := [] } }

theorem swapOut_ok {pairs : List BlockPair} (hl : Ledger others t) (h : swapOut t = .ok pairs t') :
    SwappedOut t pairs t' := by
  simp only [swapOut, bind_ok, query_ok, get_ok, require_ok, gpu_ok, cpu_ok, forEach_gpu_ok,
    modifySeq_ok, pure_ok] at h
  obtain ⟨_, _, ⟨hsize, rfl⟩, _, _, ⟨rfl, rfl⟩, _, _, ⟨hcpu, rfl⟩, _, _, ⟨htable, rfl⟩, _, _,
    ⟨-, rfl⟩, _, _, ⟨p₀, hvalid, rfl⟩, cpuTable, _, ⟨cpuPool, halloc, rfl⟩, _, _,
    ⟨pool, hrelease, rfl⟩, _, _, rfl, _, _, ⟨-, rfl⟩, rfl, rfl⟩ := h
  obtain ⟨rfl, hnodup, -⟩ := GpuBlockPool.validateOwned_ok hvalid
  obtain ⟨hlength, hnodupCpu, hfresh, -, hused, -⟩ := CpuBlockPool.allocateMany_ok hl.cpu halloc
  obtain ⟨-, hreleased⟩ := releaseAll_ok hl.gpu hrelease
  exact ⟨assertSequenceBlockSize_ok.mp hsize, hcpu, htable, hnodup, cpuTable, cpuPool,
    pool, hlength, hnodupCpu, hfresh, hused, hreleased, rfl, rfl⟩

/-- The contents a swapped sequence has saved. -/
def savedContents (seq : Sequence H) : List (Option H × List ℕ × Option MmTokenHashes) :=
  seq.cpuBlockHashes.zip (seq.cpuBlockTokenIds.zip seq.cpuBlockMmHashes)

/-- What a returned `swap_in` did. -/
structure SwappedIn (t t₁ : ManagerState H) (newTable : List ℕ) (taken restored : GpuBlockPool H)
    (cpuPool : CpuBlockPool) (pairs : List BlockPair) (t' : ManagerState H) : Prop where
  sized : t.seq.blockSize = t.manager.blockSize
  reclaimed : Reclaimed none t t₁
  enough : t.seq.cpuBlockTable.length ≤ t.pool.freeCount → t₁ = t
  metadata : t₁.manager.validateSwapInMetadata t.seq = .ok ()
  length : newTable.length = t.seq.cpuBlockTable.length
  took : TookAll t₁.pool newTable taken
  takenWell : taken.WellFormed
  restores : RestoredAll taken (newTable.zip (savedContents t.seq)) restored
  cpuWell : cpuPool.WellFormed
  cpuUsed : ∀ page, page ∈ cpuPool.usedBlockIds ↔
    page ∈ t₁.cpuPool.usedBlockIds ∧ page ∉ t.seq.cpuBlockTable
  cpuCapacity : cpuPool.capacity = t₁.cpuPool.capacity
  pairs_eq : pairs = t.seq.cpuBlockTable.zip newTable
  manager : t'.manager = { t₁.manager with gpuPool := restored, cpuPool := cpuPool }
  seq : t'.seq = { t.seq with
    blockTable := newTable
    cpuBlockTable := []
    cpuBlockHashes := []
    cpuBlockTokenIds := []
    cpuBlockMmHashes := [] }

theorem swapIn_ok {pairs : List BlockPair} (hl : Ledger others t) (h : swapIn t = .ok pairs t') :
    ∃ t₁ newTable taken restored cpuPool,
      SwappedIn t t₁ newTable taken restored cpuPool pairs t' := by
  simp only [swapIn, bind_ok, query_ok, get_ok, require_ok, gpu_ok, cpu_ok, modifySeq_ok,
    pure_ok] at h
  obtain ⟨_, _, ⟨hsize, rfl⟩, _, _, ⟨rfl, rfl⟩, _, _, ⟨-, rfl⟩, _, _, ⟨-, rfl⟩, _, _, ⟨-, rfl⟩,
    _, _, ⟨cpuPool₀, hvalid, rfl⟩, _, t₁, hfree, _, _, ⟨hmetadata, rfl⟩, newTable, _,
    ⟨taken, htake, rfl⟩, _, t₂, hrestore, _, _, ⟨cpuPool, hrelease, rfl⟩, _, _, rfl, _, _,
    ⟨-, rfl⟩, rfl, rfl⟩ := h
  obtain ⟨rfl, -⟩ := CpuBlockPool.validateOwned_ok hvalid
  have hr : Reclaimed none t t₁ := (ensureFreeBlocks_ok hl hfree).1
  have hl₁ := hr.ledger hl
  obtain ⟨hlength, hwTaken, htook⟩ := allocateMany_ok hl₁.gpu htake
  obtain ⟨restored, rfl, hrestores, -⟩ := restoreHashes_ok hwTaken hrestore
  obtain ⟨hwCpu, -, -, hused, hcapacity⟩ := CpuBlockPool.releaseMany_ok hl₁.cpu hrelease
  rw [hr.seq] at hmetadata
  refine ⟨t₁, newTable, taken, restored, cpuPool, assertSequenceBlockSize_ok.mp hsize, hr, ?_,
    hmetadata, hlength, htook, hwTaken, hrestores, hwCpu, hused, hcapacity, rfl, rfl, ?_⟩
  · intro henough
    have hrun : ensureFreeBlocks t.seq.cpuBlockTable.length none t = .ok () t :=
      ensureFreeBlocks_enough henough
    have hsame := hrun.symm.trans hfree
    simp only [EStateM.Result.ok.injEq] at hsame
    exact hsame.2.symm
  · change { t₁.seq with
      blockTable := newTable
      cpuBlockTable := []
      cpuBlockHashes := []
      cpuBlockTokenIds := []
      cpuBlockMmHashes := [] } = _
    rw [hr.seq]

end BlockManager

end PrismInfer
