import PrismInfer.KVCompaction
import PrismInfer.ManagerSteps

/-!
# What block-manager methods do to the sequence

Page steps say what happens to pages; the lemmas here say which fields of the sequence a
method that returned has changed, and how long the page table is afterwards.
-/
set_option linter.unusedSectionVars false

namespace PrismInfer
open StateExcept GpuBlockPool

variable {H : Type} [DecidableEq H] [Digests H]

/-- An entry without what hits and clones change. -/
def MultimodalPrefixCacheEntry.stored (entry : MultimodalPrefixCacheEntry) :
    MultimodalPrefixCacheEntry :=
  { entry with lifetimeHits := 0, tailCloneBlockIds := [] }

/-- Every entry was there before, up to its hits and clones. -/
def PrefixCache.NoneNew (cache cache' : PrefixCache) : Prop :=
  ∀ item' ∈ cache', ∃ item ∈ cache, item'.1 = item.1 ∧ item'.2.stored = item.2.stored

namespace PrefixCache.NoneNew

variable {cache mid cache' : PrefixCache}

theorem refl (cache : PrefixCache) : cache.NoneNew cache :=
  fun item hitem => ⟨item, hitem, rfl, rfl⟩

theorem trans (h : cache.NoneNew mid) (h' : mid.NoneNew cache') : cache.NoneNew cache' := by
  intro item' hitem'
  obtain ⟨item, hitem, hkey, hstored⟩ := h' item' hitem'
  obtain ⟨first, hfirst, hkey', hstored'⟩ := h item hitem
  exact ⟨first, hfirst, hkey.trans hkey', hstored.trans hstored'⟩

theorem of_subset (h : ∀ item ∈ cache', item ∈ cache) : cache.NoneNew cache' :=
  fun item hitem => ⟨item, h item hitem, rfl, rfl⟩

theorem remove (cache : PrefixCache) (id : CacheId) : cache.NoneNew (cache.remove id) :=
  of_subset fun _ hitem => (List.mem_filter.mp hitem).1

theorem moveToEnd (cache : PrefixCache) (id : CacheId) : cache.NoneNew (cache.moveToEnd id) :=
  of_subset fun _ hitem => (OrderedDict.moveToEnd_perm cache id).mem_iff.mp hitem

theorem update {f : MultimodalPrefixCacheEntry → MultimodalPrefixCacheEntry}
    (hf : ∀ entry, (f entry).stored = entry.stored) (cache : PrefixCache) (id : CacheId) :
    cache.NoneNew (cache.update id f) := by
  intro item' hitem'
  obtain ⟨item, hitem, rfl⟩ := List.mem_map.mp hitem'
  refine ⟨item, hitem, ?_⟩
  split
  · exact ⟨rfl, hf item.2⟩
  · exact ⟨rfl, rfl⟩

end PrefixCache.NoneNew

/-- Of the sequence only the page table changed, which has this length now, and the cache
got no new entry. -/
structure TableOnly (length : ℕ) (t t' : ManagerState H) : Prop where
  seq : ∃ table, table.length = length ∧ t'.seq = { t.seq with blockTable := table }
  cache : t.cache.NoneNew t'.cache

namespace TableOnly

variable {t mid t' : ManagerState H} {n k : ℕ}

theorem trans (h : TableOnly n t mid) (h' : TableOnly k mid t') : TableOnly k t t' := by
  obtain ⟨table, -, hmid⟩ := h.seq
  obtain ⟨table', hlength, hseq⟩ := h'.seq
  exact ⟨⟨table', hlength, by rw [hseq, hmid]⟩, h.cache.trans h'.cache⟩

theorem refl (t : ManagerState H) : TableOnly t.table.length t t := ⟨⟨t.table, rfl, rfl⟩, .refl _⟩

theorem setPool (t : ManagerState H) (pool : GpuBlockPool H) :
    TableOnly t.table.length t (t.setPool pool) := ⟨⟨t.table, rfl, rfl⟩, .refl _⟩

theorem length (h : TableOnly n t t') : t'.table.length = n := by
  obtain ⟨table, hlength, hseq⟩ := h.seq
  rw [ManagerState.table, hseq]
  exact hlength

/-- A step that keeps the length comes first. -/
theorem after (h : TableOnly t.table.length t mid) (h' : TableOnly (mid.table.length + k) mid t') :
    TableOnly (t.table.length + k) t t' := by
  rw [h.length] at h'
  exact h.trans h'

end TableOnly

namespace BlockManager

variable {others : Others} {t t' : ManagerState H} {u : Unit} {protectedId : Option CacheId}
  {cacheId : CacheId} {entry : MultimodalPrefixCacheEntry}

theorem Reclaimed.tableOnly (h : Reclaimed protectedId t t') : TableOnly t.table.length t t' := by
  refine ⟨⟨t.table, rfl, h.seq⟩, ?_⟩
  induction h with
  | refl => exact .refl _
  | tail _ hlast ih =>
    refine ih.trans ?_
    cases hlast with
    | evict => exact .remove _ _
    | @dropClone _ _ id =>
      exact .update (f := fun entry =>
        { entry with tailCloneBlockIds := entry.tailCloneBlockIds.erase id }) (fun _ => rfl) _ _

theorem appendFreeBlock_table (hl : Ledger others t) (h : appendFreeBlock t = .ok u t') :
    TableOnly (t.table.length + 1) t t' := by
  obtain ⟨id, pool, -, -, rfl⟩ := appendFreeBlock_ok hl h
  exact ⟨⟨t.table ++ [id], by simp, rfl⟩, .refl _⟩

theorem appendRetained_table {id : ℕ} (hl : Ledger others t) (h : appendRetained id t = .ok u t') :
    TableOnly (t.table.length + 1) t t' := by
  obtain ⟨pool, -, -, rfl⟩ := appendRetained_ok hl h
  exact ⟨⟨t.table ++ [id], by simp, rfl⟩, .refl _⟩

/-- A loop whose rounds append one page each. -/
theorem forEach_table {α : Type} {f : α → ManagerAction H Unit} {as : List α}
    (hstep : ∀ a ∈ as, ∀ {t t'}, Ledger others t → f a t = .ok () t' →
      PageSteps true t [] t' ∧ TableOnly (t.table.length + 1) t t')
    (hl : Ledger others t) (h : forEach f as t = .ok u t') :
    TableOnly (t.table.length + as.length) t t' := by
  induction as generalizing t with
  | nil =>
    obtain rfl := forEach_nil_ok.mp h
    exact .refl t
  | cons a as ih =>
    obtain ⟨mid, hfirst, hrest⟩ := forEach_cons_ok.mp h
    obtain ⟨hsteps, htable⟩ := hstep a List.mem_cons_self hl hfirst
    have hmore := ih (fun b hb => hstep b (List.mem_cons_of_mem a hb)) (hl.steps hsteps) hrest
    rw [htable.length] at hmore
    rw [List.length_cons, Nat.add_comm as.length, ← Nat.add_assoc]
    exact htable.trans hmore

theorem growTable_table {blocks : ℕ} (hl : Ledger others t)
    (h : growTable blocks t = .ok u t') : TableOnly (max t.table.length blocks) t t' := by
  simp only [growTable, bind_ok, readSeq_ok] at h
  obtain ⟨_, _, ⟨rfl, rfl⟩, h⟩ := h
  have hgrown := forEach_table
    (fun _ _ _ _ hl h => ⟨appendFreeBlock_steps hl h, appendFreeBlock_table hl h⟩) hl h
  rw [List.length_range] at hgrown
  have hmax : t.table.length + (blocks - t.table.length) = max t.table.length blocks := by omega
  exact hmax ▸ hgrown

theorem ReplaceStep.tableOnly {old fresh : ℕ} (h : ReplaceStep old fresh t t') :
    TableOnly t.table.length t t' := by
  cases h with
  | @intro left right mid pool htable _ _ _ =>
    refine ⟨⟨left ++ fresh :: right, ?_, rfl⟩, .refl _⟩
    rw [htable]
    simp

theorem privatizeBlock_table {i : ℕ} {pair : Option BlockPair} (hl : Ledger others t)
    (h : privatizeBlock i t = .ok pair t') : TableOnly t.table.length t t' := by
  obtain ⟨id, -, ⟨-, -, pool, -, -, rfl⟩ | ⟨fresh, mid, -, -, hr, hreplace⟩⟩ :=
    privatizeBlock_ok hl h
  · exact .setPool t pool
  · have hlast := ReplaceStep.tableOnly hreplace
    exact hr.tableOnly.after (k := 0) hlast

theorem privatizeRange_table {snapped : ℕ} {indices : List ℕ} {copies : List BlockPrefixCopy}
    (hl : Ledger others t) (h : privatizeRange snapped indices t = .ok copies t') :
    TableOnly t.table.length t t' := by
  induction indices generalizing t copies with
  | nil =>
    obtain ⟨-, rfl⟩ := pure_ok.mp h
    exact .refl t
  | cons i indices ih =>
    simp only [privatizeRange, bind_ok, readManager_ok] at h
    obtain ⟨pair, mid, hp, _, _, ⟨rfl, rfl⟩, rest, last, hrest, h⟩ := h
    have hfirst := privatizeBlock_table hl hp
    have hsteps : PageSteps true t [] mid := by
      cases pair with
      | none => exact privatizeBlock_none hl hp
      | some pair => exact privatizeBlock_some [] hl hp (.inl rfl)
    have hlmid := hl.steps hsteps
    obtain rfl : t' = last := by
      cases pair with
      | none => exact (pure_ok.mp h).2.symm
      | some pair => exact (pure_ok.mp h).2.symm
    exact hfirst.after (k := 0) (ih hlmid hrest)

theorem copyOnWrite_table {pair : Option BlockPair} (hl : Ledger others t)
    (h : copyOnWrite t = .ok pair t') : TableOnly t.table.length t t' := by
  obtain ⟨-, rfl, -⟩ | ⟨last, mid, -, hr, htail⟩ := copyOnWrite_ok hl h
  · exact .refl _
  · obtain ⟨-, rfl, -⟩ | ⟨fresh, -, -, hreplace⟩ := htail
    · exact hr.tableOnly
    · exact hr.tableOnly.after (k := 0) (ReplaceStep.tableOnly hreplace)

theorem mayAppend_table (hl : Ledger others t) (h : mayAppend t = .ok u t') :
    TableOnly (t.table.length + if t.seq.physicalKvLen % t.manager.blockSize = 1 then 1 else 0)
      t t' := by
  simp only [mayAppend, bind_ok, query_ok, get_ok, when_ok] at h
  obtain ⟨_, _, ⟨-, rfl⟩, _, _, ⟨rfl, rfl⟩, ⟨hboundary, _, mid, hfree, happend⟩ |
    ⟨hinside, rfl⟩⟩ := h
  · have hr := (ensureFreeBlocks_ok hl hfree).1
    rw [if_pos hboundary]
    exact hr.tableOnly.after (appendFreeBlock_table (hr.ledger hl) happend)
  · rw [if_neg hinside]
    exact .refl t

theorem publishLoop_table {chain : Option H} {indices : List ℕ}
    (h : publishLoop chain indices t = .ok u t') : TableOnly t.table.length t t' := by
  induction indices generalizing t chain with
  | nil => exact (pure_ok.mp h).2 ▸ .refl t
  | cons i indices ih =>
    simp only [publishLoop, bind_ok, query_ok, readSeq_ok] at h
    obtain ⟨_, _, ⟨-, rfl⟩, _, _, ⟨rfl, rfl⟩, _, _, ⟨-, rfl⟩, h⟩ := h
    cases hid : t.seq.blockTable[i]? with
    | none => simp [hid] at h
    | some id =>
      simp only [hid, bind_ok, gpu_ok] at h
      obtain ⟨_, _, ⟨pool, -, rfl⟩, hrest⟩ := h
      exact (TableOnly.setPool t pool).trans (ih hrest)

theorem publishComputedBlocks_table {tokenStart tokenEnd : ℕ}
    (h : publishComputedBlocks tokenStart tokenEnd t = .ok u t') :
    TableOnly t.table.length t t' := by
  simp only [publishComputedBlocks, bind_ok, get_ok] at h
  obtain ⟨_, _, ⟨rfl, rfl⟩, h⟩ := h
  split at h
  · exact (pure_ok.mp h).2 ▸ .refl t
  · simp only [bind_ok, query_ok] at h
    obtain ⟨_, _, ⟨-, rfl⟩, h⟩ := h
    exact publishLoop_table h

/-! ### Admission -/

theorem shareImmutablePages_table (hl : Ledger others t)
    (h : shareImmutablePages entry t = .ok u t') :
    TableOnly (t.table.length + if entry.physicalPrefixLen % t.manager.blockSize = 0
      then entry.blockIds.length else entry.blockIds.length - 1) t t' := by
  simp only [shareImmutablePages, bind_ok, readManager_ok] at h
  obtain ⟨_, _, ⟨rfl, rfl⟩, h⟩ := h
  have hall := forEach_table
    (fun _ _ _ _ hl h => ⟨appendRetained_steps hl h, appendRetained_table hl h⟩) hl h
  split at hall
  · next haligned =>
    rw [if_pos haligned]
    exact hall
  · next hpart =>
    rw [if_neg hpart, ← List.length_dropLast]
    exact hall

theorem admitTailClone_table {id : ℕ} (h : admitTailClone cacheId id t = .ok u t') :
    TableOnly t.table.length t t' := by
  simp only [admitTailClone, bind_ok, readManager_ok, when_ok] at h
  obtain ⟨_, _, ⟨rfl, rfl⟩, ⟨-, h⟩ | ⟨-, rfl⟩⟩ := h
  · simp only [gpu_ok, modifyManager_ok] at h
    obtain ⟨_, _, ⟨pool, -, rfl⟩, rfl⟩ := h
    exact ⟨⟨t.table, rfl, rfl⟩, .update (f := fun entry =>
      { entry with tailCloneBlockIds := entry.tailCloneBlockIds ++ [id] }) (fun _ => rfl) _ _⟩
  · exact .refl t

theorem compactTailPage_table {tailRows : ℕ} {copies : List BlockPrefixCopy} (hl : Ledger others t)
    (h : compactTailPage cacheId entry tailRows t = .ok copies t') :
    TableOnly (t.table.length + if tailRows = 0 then 0 else 1) t t' := by
  simp only [compactTailPage, bind_ok, readManager_ok] at h
  obtain ⟨_, _, ⟨rfl, rfl⟩, h⟩ := h
  split at h
  · next hrows =>
    rw [if_pos hrows]
    exact (pure_ok.mp h).2 ▸ .refl t
  · next hrows =>
    rw [if_neg hrows]
    cases hidle : t.manager.idleTailClone entry with
    | some id =>
      simp only [hidle, bind_ok, pure_ok] at h
      obtain ⟨_, _, happend, -, rfl⟩ := h
      exact appendRetained_table hl happend
    | none =>
      cases hlast : entry.blockIds.getLast? with
      | none => simp [hidle, hlast] at h
      | some last =>
        simp only [hidle, hlast, bind_ok] at h
        obtain ⟨_, shared, hshare, pair, copied, hcopy, h⟩ := h
        have hshared := appendRetained_table hl hshare
        have hlshared := hl.steps (appendRetained_steps hl hshare)
        have hcopied := copyOnWrite_table hlshared hcopy
        cases pair with
        | none => simp at h
        | some pair =>
          simp only [bind_ok, pure_ok] at h
          obtain ⟨_, _, hclone, -, rfl⟩ := h
          have hcloned := admitTailClone_table hclone
          rw [hcopied.length, hshared.length] at hcloned
          exact (hshared.trans hcopied).trans hcloned

theorem denseTailPage_table {tailRows : ℕ} {copies : List BlockPrefixCopy}
    (h : denseTailPage cacheId entry tailRows t = .ok copies t') :
    TableOnly (t.table.length + if tailRows = 0 then 0 else 1) t t' := by
  simp only [denseTailPage, bind_ok, readManager_ok] at h
  obtain ⟨_, _, ⟨rfl, rfl⟩, h⟩ := h
  split at h
  · next hrows =>
    rw [if_pos hrows]
    exact (pure_ok.mp h).2 ▸ .refl t
  · next hrows =>
    rw [if_neg hrows]
    cases hidle : t.manager.idleTailClone entry with
    | some id =>
      simp only [hidle, bind_ok, gpu_ok, appendToTable, modifySeq_ok, pure_ok] at h
      obtain ⟨_, _, ⟨p₁, -, rfl⟩, _, _, ⟨p₂, -, rfl⟩, _, _, rfl, -, rfl⟩ := h
      exact ⟨⟨t.table ++ [id], by simp, rfl⟩, .refl _⟩
    | none =>
      cases hlast : entry.blockIds.getLast? with
      | none => simp [hidle, hlast] at h
      | some last =>
        simp only [hidle, hlast, bind_ok, gpu_ok, appendToTable, modifySeq_ok, pure_ok] at h
        obtain ⟨fresh, _, ⟨pool, -, rfl⟩, _, mid, rfl, _, _, hclone, -, rfl⟩ := h
        have htaken : TableOnly (t.table.length + 1) t
            ((t.setPool pool).setTable (t.table ++ [fresh])) :=
          ⟨⟨t.table ++ [fresh], by simp, rfl⟩, .refl _⟩
        have hcloned := htaken.length ▸ admitTailClone_table hclone
        exact htaken.trans hcloned

/-- Of the sequence only what a dense admission sets changed. -/
structure DenseAdmitted (length : ℕ) (t t' : ManagerState H) : Prop where
  seq : ∃ table cached candidate, table.length = length ∧ t'.seq = { t.seq with
    blockTable := table
    numCachedTokens := cached
    prefixCacheCandidateTokens := candidate }
  cache : t.cache.NoneNew t'.cache

namespace DenseAdmitted

variable {mid : ManagerState H} {n k : ℕ}

theorem of_table (h : TableOnly n t t') : DenseAdmitted n t t' := by
  obtain ⟨table, hlength, hseq⟩ := h.seq
  exact ⟨⟨table, _, _, hlength, hseq⟩, h.cache⟩

theorem trans (h : DenseAdmitted n t mid) (h' : DenseAdmitted k mid t') : DenseAdmitted k t t' := by
  obtain ⟨_, _, _, -, hmid⟩ := h.seq
  obtain ⟨table, cached, candidate, hlength, hseq⟩ := h'.seq
  exact ⟨⟨table, cached, candidate, hlength, by rw [hseq, hmid]⟩, h.cache.trans h'.cache⟩

theorem length (h : DenseAdmitted n t t') : t'.table.length = n := by
  obtain ⟨table, _, _, hlength, hseq⟩ := h.seq
  rw [ManagerState.table, hseq]
  exact hlength

theorem count (t : ManagerState H) (cached candidate : ℕ) :
    DenseAdmitted t.table.length t (t.setSeq { t.seq with
      numCachedTokens := cached
      prefixCacheCandidateTokens := candidate }) :=
  ⟨⟨t.table, cached, candidate, rfl, rfl⟩, .refl _⟩

end DenseAdmitted

theorem allocateDenseBlock_admitted {walk walk' : DenseWalk H} {i : ℕ} (hl : Ledger others t)
    (h : allocateDenseBlock walk i t = .ok walk' t') :
    DenseAdmitted (t.table.length + 1) t t' := by
  simp only [allocateDenseBlock, bind_ok, query_ok, get_ok] at h
  obtain ⟨⟨blockHash, mm⟩, _, ⟨-, rfl⟩, _, _, ⟨rfl, rfl⟩, cached, _, ⟨-, rfl⟩, h⟩ := h
  cases cached with
  | none =>
    simp only [bind_ok, pure_ok] at h
    obtain ⟨_, _, happend, -, rfl⟩ := h
    exact .of_table (appendFreeBlock_table hl happend)
  | some id =>
    simp only [bind_ok, modifySeq_ok, pure_ok] at h
    obtain ⟨_, counted, hcount, _, last, happend, -, rfl⟩ := h
    have hcounted : DenseAdmitted t.table.length t counted := hcount ▸ .count t _ _
    have hl' : Ledger others counted := by
      rw [← hcount]
      exact hl
    have happended := appendRetained_table hl' happend
    rw [hcounted.length] at happended
    exact hcounted.trans (.of_table happended)

theorem allocateDenseLoop_admitted {walk : DenseWalk H} {indices : List ℕ} (hl : Ledger others t)
    (h : allocateDenseLoop walk indices t = .ok u t') :
    DenseAdmitted (t.table.length + indices.length) t t' := by
  induction indices generalizing t walk with
  | nil =>
    obtain ⟨-, rfl⟩ := pure_ok.mp h
    exact .of_table (.refl t)
  | cons i indices ih =>
    simp only [allocateDenseLoop, bind_ok] at h
    obtain ⟨walk', mid, hblock, hrest⟩ := h
    have hfirst := allocateDenseBlock_admitted hl hblock
    have hmore := ih (hl.steps (allocateDenseBlock_steps hl hblock)) hrest
    rw [hfirst.length] at hmore
    rw [List.length_cons, Nat.add_comm indices.length, ← Nat.add_assoc]
    exact hfirst.trans hmore

theorem snapCachedPrefix_admitted {copies : List BlockPrefixCopy} (hl : Ledger others t)
    (h : snapCachedPrefix t = .ok copies t') : DenseAdmitted t.table.length t t' := by
  simp only [snapCachedPrefix, bind_ok, get_ok] at h
  obtain ⟨_, _, ⟨rfl, rfl⟩, h⟩ := h
  split at h
  · simp only [bind_ok, modifySeq_ok, pure_ok] at h
    obtain ⟨_, mid, hrange, _, _, rfl, -, rfl⟩ := h
    have hprivate := privatizeRange_table hl hrange
    have hcount := DenseAdmitted.count mid (t.seq.request.snapToImageBoundary t.seq.numCachedTokens)
      mid.seq.prefixCacheCandidateTokens
    rw [hprivate.length] at hcount
    exact (DenseAdmitted.of_table hprivate).trans hcount
  · exact (pure_ok.mp h).2 ▸ .of_table (.refl t)

theorem allocateDense_admitted {copies : List BlockPrefixCopy} (hl : Ledger others t)
    (htable : t.table = []) (h : allocateDense t = .ok copies t') :
    DenseAdmitted t.seq.numBlocks t t' := by
  simp only [allocateDense, bind_ok, readSeq_ok, modifySeq_ok, pure_ok] at h
  obtain ⟨_, _, ⟨rfl, rfl⟩, _, t₁, hfree, _, t₂, hloop, copies', t₃, hsnap, _, _, rfl, -, rfl⟩ := h
  have hr := (ensureFreeBlocks_ok hl hfree).1
  have hl₁ := hr.ledger hl
  have hreclaimed := hr.tableOnly
  rw [htable, List.length_nil] at hreclaimed
  have hfilled := allocateDenseLoop_admitted hl₁ hloop
  rw [hreclaimed.length, List.length_range, Nat.zero_add] at hfilled
  have hsnapped := snapCachedPrefix_admitted (hl₁.steps (allocateDenseLoop_steps hl₁ hloop)) hsnap
  rw [hfilled.length] at hsnapped
  have hcount := DenseAdmitted.count t₃ t₃.seq.numCachedTokens t₃.seq.numCachedTokens
  rw [hsnapped.length] at hcount
  exact (((DenseAdmitted.of_table hreclaimed).trans hfilled).trans hsnapped).trans hcount

/-- What an entry hit sets beside the page table. -/
def hitSequence (seq : Sequence H) (entry : MultimodalPrefixCacheEntry) (table : List ℕ) :
    Sequence H :=
  { seq with
    blockTable := table
    numCachedTokens := entry.logicalPrefixLen
    numComputedTokens := entry.logicalPrefixLen
    prefixCacheCandidateTokens := entry.logicalPrefixLen
    multimodalPrefixCacheHit := true
    visualPruningDecisionRecord := some entry.compressionRecord }

/-- Pages a sequence without a table has after an entry hit. -/
def entryTableLength (blockSize : ℕ) (req : Request) (entry : MultimodalPrefixCacheEntry) : ℕ :=
  max ((if entry.physicalPrefixLen % blockSize = 0 then entry.blockIds.length
      else entry.blockIds.length - 1) +
    if entry.physicalPrefixLen % blockSize = 0 then 0 else 1)
    (pagesFor (entry.finalPhysicalTokens req) blockSize)

theorem recordEntryHit_seq (h : recordEntryHit entry t = .ok u t') :
    t'.seq = hitSequence t.seq entry t.table ∧ t'.cache = t.cache := by
  simp only [recordEntryHit, modifySeq_ok] at h
  exact h ▸ ⟨rfl, rfl⟩

theorem touchEntry_table (h : touchEntry cacheId t = .ok u t') :
    t'.seq = t.seq ∧ t.cache.NoneNew t'.cache := by
  simp only [touchEntry, modifyManager_ok] at h
  subst h
  exact ⟨rfl, (PrefixCache.NoneNew.moveToEnd _ _).trans (.update (f := fun entry =>
    { entry with lifetimeHits := entry.lifetimeHits + 1 }) (fun _ => rfl) _ _)⟩

/-- The sequence after an admission, from the state before it. -/
inductive Admitted (t : ManagerState H) : Sequence H → Prop
  | dense {table : List ℕ} {cached candidate : ℕ} (hlength : table.length = t.seq.numBlocks) :
      Admitted t { t.seq with
        blockTable := table
        numCachedTokens := cached
        prefixCacheCandidateTokens := candidate }
  | denseEntry {cacheId : CacheId} {entry : MultimodalPrefixCacheEntry} {table : List ℕ}
      (hlevel : t.manager.blockLevelMmPrefix = true)
      (hfound : t.manager.matchingMultimodalPrefix t.seq = .ok (some (cacheId, entry)))
      (hlength : table.length = entryTableLength t.manager.blockSize t.seq.request entry) :
      Admitted t (hitSequence t.seq entry table)
  | compactEntry {cacheId : CacheId} {entry : MultimodalPrefixCacheEntry} {table : List ℕ}
      (hfound : t.manager.matchingMultimodalPrefix t.seq = .ok (some (cacheId, entry)))
      (hlength : table.length = entryTableLength t.manager.blockSize t.seq.request entry)
      (hnone : t.seq.kvLayout = none)
      (hvalid : (entryLayout t.seq entry).validate t.seq.blockSize table false = .ok ()) :
      Admitted t { hitSequence t.seq entry table with kvLayout := some (entryLayout t.seq entry) }

/-- Pages are taken and shared until the whole prompt of an entry hit is covered. -/
theorem entryPages_table {tailRows : ℕ} {t₁ t₂ t₃ t₄ : ManagerState H} (hl : Ledger others t)
    (htable : t.table = []) (hrows : tailRows = entry.physicalPrefixLen % t.manager.blockSize)
    (hr : Reclaimed protectedId t t₁) (hshare : shareImmutablePages entry t₁ = .ok () t₂)
    (htail : TableOnly (t₂.table.length + if tailRows = 0 then 0 else 1) t₂ t₃)
    (hl₃ : Ledger others t₃)
    (hgrow : growTable (pagesFor (entry.finalPhysicalTokens t.seq.request) t.manager.blockSize) t₃ =
      .ok () t₄) :
    TableOnly (entryTableLength t.manager.blockSize t.seq.request entry) t t₄ := by
  have hreclaimed := hr.tableOnly
  have hsteps : PageSteps true t [] t₁ := hr.steps
  have hsize := (SameConfig.steps hsteps).blockSize
  have hshared := shareImmutablePages_table (hr.ledger hl) hshare
  rw [hreclaimed.length, htable, List.length_nil, Nat.zero_add, hsize] at hshared
  rw [hshared.length, hrows] at htail
  have hgrown := growTable_table hl₃ hgrow
  rw [htail.length] at hgrown
  exact ((hreclaimed.trans hshared).trans htail).trans hgrown

theorem allocateDenseEntryHit_admitted {copies : List BlockPrefixCopy} (hl : Ledger others t)
    (htable : t.table = []) (hentry : t.cache.get? cacheId = some entry)
    (h : allocateDenseEntryHit cacheId entry t = .ok copies t') :
    (∃ table, table.length = entryTableLength t.manager.blockSize t.seq.request entry ∧
      t'.seq = hitSequence t.seq entry table) ∧ t.cache.NoneNew t'.cache := by
  simp only [allocateDenseEntryHit, bind_ok, get_ok, pure_ok] at h
  obtain ⟨_, _, ⟨rfl, rfl⟩, ⟨⟩, t₁, hfree, ⟨⟩, t₂, hshare, copies', t₃, htail, ⟨⟩, t₄, hgrow, ⟨⟩,
    t₅, hrecord, ⟨⟩, t₆, htouch, rfl, rfl⟩ := h
  have hr := (ensureFreeBlocks_ok hl hfree).1
  have hl₁ := hr.ledger hl
  have hentry₁ := hr.protected hentry
  obtain ⟨hshared, hcache, -⟩ := shareImmutablePages_ok hl₁ hentry₁ hshare
  have hl₂ := hl₁.steps hshared
  have hl₃ := hl₂.steps (denseTailPage_steps hl₂ (hcache ▸ hentry₁) htail)
  have hpages := entryPages_table hl htable rfl hr hshare (denseTailPage_table htail) hl₃ hgrow
  obtain ⟨hrecorded, hcache₅⟩ := recordEntryHit_seq hrecord
  obtain ⟨htouched, hcache₆⟩ := touchEntry_table htouch
  refine ⟨⟨t₄.table, hpages.length, ?_⟩, hpages.cache.trans (hcache₅ ▸ hcache₆)⟩
  obtain ⟨table, -, hseq⟩ := hpages.seq
  rw [htouched, hrecorded, ManagerState.table, hseq]
  rfl

theorem allocateMultimodalPrefixHit_admitted {copies : List BlockPrefixCopy}
    (hl : Ledger others t) (htable : t.table = []) (hentry : t.cache.get? cacheId = some entry)
    (h : allocateMultimodalPrefixHit cacheId entry t = .ok copies t') :
    (∃ table, table.length = entryTableLength t.manager.blockSize t.seq.request entry ∧
      t.seq.kvLayout = none ∧
      (entryLayout t.seq entry).validate t.seq.blockSize table false = .ok () ∧
      t'.seq = { hitSequence t.seq entry table with
        kvLayout := some (entryLayout t.seq entry) }) ∧ t.cache.NoneNew t'.cache := by
  simp only [allocateMultimodalPrefixHit, bind_ok, get_ok, modifySeq_ok, query_ok, pure_ok] at h
  obtain ⟨_, _, ⟨rfl, rfl⟩, ⟨⟩, t₁, hfree, ⟨⟩, t₂, hshare, copies', t₃, htail, ⟨⟩, t₄, hgrow, ⟨⟩,
    t₅, hrecord, seq, _, ⟨hinstall, rfl⟩, _, _, rfl, ⟨⟩, t₆, htouch, rfl, rfl⟩ := h
  have hr := (ensureFreeBlocks_ok hl hfree).1
  have hl₁ := hr.ledger hl
  have hentry₁ := hr.protected hentry
  obtain ⟨hshared, hcache, -⟩ := shareImmutablePages_ok hl₁ hentry₁ hshare
  have hl₂ := hl₁.steps hshared
  have hl₃ := hl₂.steps (compactTailPage_steps hl₂ (hcache ▸ hentry₁)
    (tail_page_available hl hentry rfl hfree hshare) htail)
  have hpages :=
    entryPages_table hl htable rfl hr hshare (compactTailPage_table hl₂ htail) hl₃ hgrow
  obtain ⟨hrecorded, hcache₅⟩ := recordEntryHit_seq hrecord
  obtain ⟨htouched, hcache₆⟩ := touchEntry_table htouch
  obtain ⟨hlayout, hnone, -, hvalid⟩ := installCachedPrefixLayout_ok hinstall
  obtain ⟨table, hlength, hseq⟩ := hpages.seq
  have htable₄ : t₄.table = table := by rw [ManagerState.table, hseq]
  have hhit : t₅.seq = hitSequence t.seq entry table := by
    rw [hrecorded, htable₄, hseq]
    rfl
  have hsame : entryLayout t₅.seq entry = entryLayout t.seq entry := by rw [hhit]; rfl
  rw [hhit] at hlayout hnone hvalid
  refine ⟨⟨table, hlength, hnone, hvalid, ?_⟩, hpages.cache.trans (hcache₅ ▸ hcache₆)⟩
  rw [htouched]
  exact hlayout

theorem allocate_admitted {copies : List BlockPrefixCopy} (hl : Ledger others t)
    (h : allocate t = .ok copies t') :
    Admitted t t'.seq ∧ t.table = [] ∧ t.seq.cpuBlockTable = [] ∧ t.cache.NoneNew t'.cache := by
  simp only [allocate, bind_ok, query_ok, readSeq_ok, require_ok, get_ok] at h
  obtain ⟨_, _, ⟨-, rfl⟩, _, _, ⟨rfl, rfl⟩, _, _, ⟨⟨htable, hcpu⟩, rfl⟩, _, _, ⟨-, rfl⟩, _, _,
    ⟨rfl, rfl⟩, found, _, ⟨hfound, rfl⟩, _, _, ⟨-, rfl⟩, h⟩ := h
  refine ⟨?_, htable, hcpu, ?_⟩ <;> cases found with
  | none =>
    simp only [bind_ok, when_ok, query_ok] at h
    obtain ⟨_, mid, hwalk, h⟩ := h
    obtain rfl : t = mid := by
      rcases hwalk with ⟨-, _, _, ⟨-, rfl⟩, hpure⟩ | ⟨-, rfl⟩
      · exact (pure_ok.mp hpure).2
      · rfl
    obtain ⟨⟨table, cached, candidate, hlength, hseq⟩, hcache⟩ := allocateDense_admitted hl htable h
    first
    | exact hcache
    | exact hseq ▸ .dense hlength
  | some found =>
    obtain ⟨cacheId, entry⟩ := found
    obtain ⟨-, -, hentry, -⟩ := matchingMultimodalPrefix_some hfound
    simp only at h
    split at h
    · next hdense =>
      rw [releaseOnError_ok] at h
      obtain ⟨⟨table, hlength, hseq⟩, hcache⟩ := allocateDenseEntryHit_admitted hl htable hentry h
      first
      | exact hcache
      | exact hseq ▸ .denseEntry (Bool.and_eq_true_iff.mp hdense).1 hfound hlength
    · rw [releaseOnError_ok] at h
      obtain ⟨⟨table, hlength, hnone, hvalid, hseq⟩, hcache⟩ :=
        allocateMultimodalPrefixHit_admitted hl htable hentry h
      first
      | exact hcache
      | exact hseq ▸ .compactEntry hfound hlength hnone hvalid

/-! ### Release, swapping and prefix entries -/

theorem deallocate_seq (h : deallocate t = .ok u t') :
    t'.seq = resetSequence t.seq ∧ t'.cache = t.cache := by
  simp only [deallocate, bind_ok, query_ok, readSeq_ok, forEach_gpu_ok, cpu_ok, modifySeq_ok,
    when_ok] at h
  obtain ⟨_, _, ⟨-, rfl⟩, _, _, ⟨rfl, rfl⟩, _, _, ⟨-, _, -, rfl⟩ | ⟨-, rfl⟩, _, _,
    ⟨_, -, rfl⟩, _, _, ⟨_, -, rfl⟩, rfl⟩ := h <;> exact ⟨rfl, rfl⟩

theorem swapOut_seq {pairs : List BlockPair} (hl : Ledger others t)
    (h : swapOut t = .ok pairs t') :
    ∃ cpuTable hashes tokens mms, cpuTable.length = t.table.length ∧
      t'.seq = { t.seq with
        blockTable := []
        cpuBlockTable := cpuTable
        cpuBlockHashes := hashes
        cpuBlockTokenIds := tokens
        cpuBlockMmHashes := mms } ∧ t'.cache = t.cache := by
  simp only [swapOut, bind_ok, query_ok, get_ok, require_ok, gpu_ok, cpu_ok, forEach_gpu_ok,
    modifySeq_ok, pure_ok] at h
  obtain ⟨_, _, ⟨-, rfl⟩, _, _, ⟨rfl, rfl⟩, _, _, ⟨hcpu, rfl⟩, _, _, ⟨-, rfl⟩, _, _, ⟨-, rfl⟩, _,
    _, ⟨p₀, hvalid, rfl⟩, cpuTable, _, ⟨cpuPool, halloc, rfl⟩, _, _, ⟨pool, hrelease, rfl⟩, _, _,
    rfl, _, _, ⟨-, rfl⟩, -, rfl⟩ := h
  exact ⟨cpuTable, _, _, _, (CpuBlockPool.allocateMany_ok hl.cpu halloc).1, rfl, rfl⟩

/-- Restoring a hash changes the pool only. -/
theorem restoreHashes_pool {items : List (ℕ × Option H × List ℕ × Option MmTokenHashes)}
    (h : forEach restoreHash items t = .ok u t') : ∃ pool, t' = t.setPool pool := by
  refine forEach_invariant (I := fun mid => ∃ pool, mid = t.setPool pool) ?_ ⟨t.pool, rfl⟩ h
  rintro ⟨id, blockHash, tokenIds, mm⟩ - mid mid' ⟨pool, rfl⟩ hrestore
  cases blockHash with
  | none =>
    simp only [restoreHash, pure_ok, true_and] at hrestore
    exact ⟨pool, hrestore.symm⟩
  | some blockHash =>
    simp only [restoreHash, gpu_ok] at hrestore
    obtain ⟨pool', -, rfl⟩ := hrestore
    exact ⟨pool', rfl⟩

theorem swapIn_seq {pairs : List BlockPair} (hl : Ledger others t)
    (h : swapIn t = .ok pairs t') :
    t.table = [] ∧ (∃ table, table.length = t.seq.cpuBlockTable.length ∧
      t'.seq = { t.seq with
        blockTable := table
        cpuBlockTable := []
        cpuBlockHashes := []
        cpuBlockTokenIds := []
        cpuBlockMmHashes := [] }) ∧ t.cache.NoneNew t'.cache := by
  simp only [swapIn, bind_ok, query_ok, get_ok, require_ok, gpu_ok, cpu_ok, modifySeq_ok,
    pure_ok] at h
  obtain ⟨_, _, ⟨-, rfl⟩, _, _, ⟨rfl, rfl⟩, _, _, ⟨htable, rfl⟩, _, _, ⟨-, rfl⟩, _, _, ⟨-, rfl⟩,
    _, _, ⟨cpuPool₀, hvalid, rfl⟩, _, t₁, hfree, _, _, ⟨-, rfl⟩, newTable, _, ⟨pool, htake, rfl⟩,
    _, t₂, hrestore, _, _, ⟨cpuPool, hrelease, rfl⟩, _, _, rfl, _, _, ⟨-, rfl⟩, -, rfl⟩ := h
  obtain ⟨rfl, -⟩ := CpuBlockPool.validateOwned_ok hvalid
  have hr : Reclaimed none t t₁ := (ensureFreeBlocks_ok hl hfree).1
  obtain ⟨hlength, -⟩ := allocateMany_ok (hr.ledger hl).gpu htake
  obtain ⟨pool', rfl⟩ := restoreHashes_pool hrestore
  refine ⟨htable, ⟨newTable, hlength, ?_⟩, hr.tableOnly.cache⟩
  change { t₁.seq with
    blockTable := newTable
    cpuBlockTable := []
    cpuBlockHashes := []
    cpuBlockTokenIds := []
    cpuBlockMmHashes := [] } = _
  rw [hr.seq]

/-- The admission of an entry keeps the sequence; at most that entry is new. -/
theorem storeEntry_seq {mediaKey : MediaKey} {boundary : ℕ} {stored : Bool}
    (hl : Ledger others t) (h : storeEntry mediaKey boundary entry t = .ok stored t') :
    t'.seq = t.seq ∧ ∀ item' ∈ t'.cache,
      (∃ item ∈ t.cache, item'.1 = item.1 ∧ item'.2.stored = item.2.stored) ∨
      item' = (⟨mediaKey, t.seq.request.promptTokenIds.take boundary⟩, entry) ∧
        pagesFor entry.physicalPrefixLen t.manager.blockSize ≤ t.table.length := by
  have hsame : ∀ item' ∈ t.cache, (∃ item ∈ t.cache, item'.1 = item.1 ∧
      item'.2.stored = item.2.stored) := fun item hitem => ⟨item, hitem, rfl, rfl⟩
  simp only [storeEntry, bind_ok, get_ok] at h
  obtain ⟨_, _, ⟨rfl, rfl⟩, h⟩ := h
  split at h
  · exact (pure_ok.mp h).2 ▸ ⟨rfl, fun item hitem => .inl (hsame item hitem)⟩
  · split at h
    · exact (pure_ok.mp h).2 ▸ ⟨rfl, fun item hitem => .inl (hsame item hitem)⟩
    · next hpages =>
      cases hget : t.cache.get? ⟨mediaKey, t.seq.request.promptTokenIds.take boundary⟩ with
      | some existing =>
        simp only [hget, bind_ok, require_ok, modifyManager_ok, pure_ok] at h
        obtain ⟨_, _, ⟨-, rfl⟩, _, _, rfl, -, rfl⟩ := h
        exact ⟨rfl, fun item hitem => .inl (PrefixCache.NoneNew.moveToEnd t.cache _ item hitem)⟩
      | none =>
        simp only [hget, bind_ok] at h
        obtain ⟨fits, mid, hroom, h⟩ := h
        have hr := (makeRoomLoop_ok hl hroom).1
        split at h
        · simp only [insertEntry, bind_ok, forEach_gpu_ok, modifyManager_ok, pure_ok] at h
          obtain ⟨_, _, ⟨_, _, ⟨pool, -, rfl⟩, rfl⟩, -, rfl⟩ := h
          refine ⟨hr.seq, fun item hitem => ?_⟩
          rcases List.mem_append.mp hitem with hold | hnew
          · exact .inl (hr.tableOnly.cache item hold)
          · simp only [not_or, not_lt] at hpages
            exact .inr ⟨List.mem_singleton.mp hnew, hpages.2⟩
        · exact (pure_ok.mp h).2 ▸ ⟨hr.seq, fun item hitem => .inl (hr.tableOnly.cache item hitem)⟩

/-- Storing a prefix keeps the sequence; the one new entry is that of the sequence. -/
theorem storeMultimodalPrefix_seq {stored : Bool} (hl : Ledger others t)
    (h : storeMultimodalPrefix t = .ok stored t') :
    t'.seq = t.seq ∧ ∀ item' ∈ t'.cache,
      (∃ item ∈ t.cache, item'.1 = item.1 ∧ item'.2.stored = item.2.stored) ∨
      ∃ mediaKey boundary, t.seq.request.multimodalPrefixBoundary = some boundary ∧
        item'.1 = ⟨mediaKey, t.seq.request.promptTokenIds.take boundary⟩ ∧
        t.manager.prefixEntryOf t.seq mediaKey boundary = some item'.2 ∧
        pagesFor item'.2.physicalPrefixLen t.manager.blockSize ≤ t.table.length := by
  simp only [storeMultimodalPrefix, bind_ok, query_ok, get_ok] at h
  obtain ⟨_, _, ⟨-, rfl⟩, _, _, ⟨rfl, rfl⟩, h⟩ := h
  have hsame : ∀ item' ∈ t.cache, (∃ item ∈ t.cache, item'.1 = item.1 ∧
      item'.2.stored = item.2.stored) := fun item hitem => ⟨item, hitem, rfl, rfl⟩
  cases hkey : t.seq.request.multimodalPrefixCacheKey with
  | none =>
    simp only [hkey, pure_ok] at h
    exact h.2 ▸ ⟨rfl, fun item hitem => .inl (hsame item hitem)⟩
  | some mediaKey =>
    cases hboundary : t.seq.request.multimodalPrefixBoundary with
    | none =>
      simp only [hkey, hboundary, pure_ok] at h
      exact h.2 ▸ ⟨rfl, fun item hitem => .inl (hsame item hitem)⟩
    | some boundary =>
      simp only [hkey, hboundary] at h
      split at h
      · exact (pure_ok.mp h).2 ▸ ⟨rfl, fun item hitem => .inl (hsame item hitem)⟩
      · simp only [bind_ok, require_ok] at h
        obtain ⟨_, _, ⟨-, rfl⟩, h⟩ := h
        cases hentry : t.manager.prefixEntryOf t.seq mediaKey boundary with
        | none =>
          simp only [hentry, pure_ok] at h
          exact h.2 ▸ ⟨rfl, fun item hitem => .inl (hsame item hitem)⟩
        | some entry =>
          simp only [hentry] at h
          obtain ⟨hseq, hcache⟩ := storeEntry_seq hl h
          refine ⟨hseq, fun item hitem => (hcache item hitem).imp_right ?_⟩
          rintro ⟨rfl, hpages⟩
          exact ⟨mediaKey, boundary, rfl, rfl, hentry, hpages⟩

theorem clearMultimodalPrefixCache_table (hl : Ledger others t)
    (h : clearMultimodalPrefixCache t = .ok u t') : TableOnly t.table.length t t' := by
  simp only [clearMultimodalPrefixCache, bind_ok, readManager_ok] at h
  obtain ⟨_, _, ⟨rfl, rfl⟩, h⟩ := h
  have hall : Reclaimed none t t' := by
    refine forEach_invariant (I := fun mid => Reclaimed none t mid) ?_ .refl h
    intro cacheId _ mid mid' hmid hevict
    exact hmid.tail (evictMultimodalPrefix_ok (hmid.ledger hl) (Option.some_ne_none cacheId) hevict)
  exact hall.tableOnly

theorem cachedPrefixTokens_seq {n : ℕ} (h : cachedPrefixTokens t = .ok n t') :
    ∃ enabled candidate, t' = t.setSeq { t.seq with
      multimodalPrefixCacheEnabled := enabled
      prefixCacheCandidateTokens := candidate } := by
  simp only [cachedPrefixTokens, bind_ok, query_ok, readManager_ok, modifySeq_ok, pure_ok] at h
  obtain ⟨_, _, ⟨-, rfl⟩, _, _, ⟨rfl, rfl⟩, _, _, rfl, _, _, ⟨-, rfl⟩, _, _, rfl, -, rfl⟩ := h
  exact ⟨_, _, rfl⟩

end BlockManager

end PrismInfer
