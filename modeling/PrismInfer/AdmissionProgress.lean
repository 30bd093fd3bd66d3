import PrismInfer.ManagerEffects

/-!
# Progress after an admission

An admission starts a sequence behind the tokens it found in the cache. These are whole
blocks of the sequence in front of the first miss, cut back to an image boundary, or the
prefix of a stored entry: never more tokens than the sequence has.
-/
set_option linter.unusedSectionVars false

namespace PrismInfer
open StateExcept

theorem Request.snapToImageBoundary_le (req : Request) (candidate : ℕ) :
    req.snapToImageBoundary candidate ≤ candidate := by
  unfold snapToImageBoundary
  split
  · exact le_rfl
  · split
    · exact le_rfl
    · split
      · next span hfind =>
        have hinside := List.find?_some hfind
        exact (of_decide_eq_true hinside).1.le
      · exact le_rfl

theorem Request.prefixCacheId_le {req : Request} {cacheId : CacheId}
    (h : req.prefixCacheId = some cacheId) :
    cacheId.promptPrefix.length ≤ req.numPromptTokens := by
  unfold prefixCacheId at h
  split at h
  · obtain rfl := Option.some.inj h
    rw [List.length_take]
    exact min_le_right _ _
  · exact absurd h (by simp)

variable {H : Type} [DecidableEq H] [Digests H]

namespace BlockManager

variable {others : Others} {t t' : ManagerState H} {u : Unit}

/-- A block with a page in the cache is full. -/
theorem full_of_cached {m : BlockManager H} {seq : Sequence H} {i id : ℕ} {miss : Bool}
    {chain blockHash : Option H} {mm : Option MmTokenHashes} (hsize : seq.blockSize = m.blockSize)
    (hhash : denseBlockHash i chain m seq = .ok (blockHash, mm))
    (hfound : denseCachedBlock miss i blockHash mm m seq = .ok (some id)) :
    (i + 1) * m.blockSize ≤ seq.numTokens := by
  have hsome : blockHash ≠ none := by
    rintro rfl
    unfold denseCachedBlock at hfound
    split at hfound
    · simp at hfound
    · simp [GpuBlockPool.lookup] at hfound
  simp only [denseBlockHash, Sequence.block, except_bind_ok, ensure_ok, except_pure_ok] at hhash
  obtain ⟨tokenIds, ⟨-, -, rfl⟩, hhash⟩ := hhash
  split at hhash
  · next hfull =>
    simp only [Bool.and_eq_true, beq_iff_eq] at hfull
    have hlength := hfull.1.2
    unfold Sequence.blockTokens at hlength
    rw [List.length_take, List.length_drop, hsize] at hlength
    change _ ≤ seq.tokenIds.length
    rw [Nat.succ_mul]
    by_cases hzero : m.blockSize = 0
    · rw [hzero]
      omega
    · omega
  · simp only [except_pure_ok, Prod.mk.injEq] at hhash
    exact absurd hhash.1.symm hsome

theorem allocateDenseBlock_cached {walk walk' : DenseWalk H} {i : ℕ} (hl : Ledger others t)
    (hsize : t.seq.blockSize = t.manager.blockSize)
    (hbefore : t.seq.numCachedTokens ≤ i * t.manager.blockSize)
    (hwithin : t.seq.numCachedTokens ≤ t.seq.numTokens)
    (h : allocateDenseBlock walk i t = .ok walk' t') :
    t'.seq.numCachedTokens ≤ (i + 1) * t.manager.blockSize ∧
      t'.seq.numCachedTokens ≤ t.seq.numTokens := by
  simp only [allocateDenseBlock, bind_ok, query_ok, get_ok] at h
  obtain ⟨⟨blockHash, mm⟩, _, ⟨hhash, rfl⟩, _, _, ⟨rfl, rfl⟩, cached, _, ⟨hfound, rfl⟩, h⟩ := h
  rw [Nat.succ_mul]
  cases cached with
  | none =>
    simp only [bind_ok, pure_ok] at h
    obtain ⟨_, _, happend, -, rfl⟩ := h
    obtain ⟨table, -, hseq⟩ := (appendFreeBlock_table hl happend).seq
    rw [hseq]
    exact ⟨hbefore.trans (Nat.le_add_right _ _), hwithin⟩
  | some id =>
    simp only [bind_ok, modifySeq_ok, pure_ok] at h
    obtain ⟨_, counted, rfl, _, last, happend, -, rfl⟩ := h
    have hl' : Ledger others (t.setSeq { t.seq with
        numCachedTokens := t.seq.numCachedTokens + t.manager.blockSize }) := hl
    obtain ⟨table, -, hseq⟩ := (appendRetained_table hl' happend).seq
    have hfull := full_of_cached hsize hhash hfound
    rw [Nat.succ_mul] at hfull
    rw [hseq]
    change t.seq.numCachedTokens + t.manager.blockSize ≤ _ ∧
      t.seq.numCachedTokens + t.manager.blockSize ≤ _
    omega

theorem allocateDenseLoop_cached {walk : DenseWalk H} {start count : ℕ} (hl : Ledger others t)
    (hsize : t.seq.blockSize = t.manager.blockSize)
    (hbefore : t.seq.numCachedTokens ≤ start * t.manager.blockSize)
    (hwithin : t.seq.numCachedTokens ≤ t.seq.numTokens)
    (h : allocateDenseLoop walk (List.range' start count) t = .ok u t') :
    t'.seq.numCachedTokens ≤ t.seq.numTokens := by
  induction count generalizing t walk start with
  | zero =>
    obtain ⟨-, rfl⟩ := pure_ok.mp h
    exact hwithin
  | succ count ih =>
    rw [List.range'_succ] at h
    simp only [allocateDenseLoop, bind_ok] at h
    obtain ⟨walk', mid, hblock, hrest⟩ := h
    have hsteps := allocateDenseBlock_steps hl hblock
    have hconfig := SameConfig.steps hsteps
    obtain ⟨table, cached, candidate, -, hseq⟩ := (allocateDenseBlock_admitted hl hblock).seq
    have htokens : mid.seq.numTokens = t.seq.numTokens := by
      rw [hseq]
      rfl
    have hsize' : mid.seq.blockSize = mid.manager.blockSize := by
      rw [hconfig.blockSize, ← hsize, hseq]
      rfl
    have hfirst := allocateDenseBlock_cached hl hsize hbefore hwithin hblock
    rw [← hconfig.blockSize, ← htokens] at hfirst
    rw [← htokens]
    exact ih (hl.steps hsteps) hsize' hfirst.1 hfirst.2 hrest

theorem allocateDense_cached {copies : List BlockPrefixCopy} (hl : Ledger others t)
    (hsize : t.seq.blockSize = t.manager.blockSize) (hzero : t.seq.numCachedTokens = 0)
    (h : allocateDense t = .ok copies t') : t'.seq.numCachedTokens ≤ t.seq.numTokens := by
  simp only [allocateDense, bind_ok, readSeq_ok, modifySeq_ok, pure_ok] at h
  obtain ⟨_, _, ⟨rfl, rfl⟩, _, t₁, hfree, _, t₂, hloop, copies', t₃, hsnap, _, _, rfl, -, rfl⟩ := h
  have hr := (ensureFreeBlocks_ok hl hfree).1
  have hl₁ := hr.ledger hl
  have hsteps : PageSteps true t [] t₁ := hr.steps
  have hsize₁ : t₁.seq.blockSize = t₁.manager.blockSize := by
    rw [hr.seq, (SameConfig.steps hsteps).blockSize]
    exact hsize
  have hzero₁ : t₁.seq.numCachedTokens = 0 := by
    rw [hr.seq]
    exact hzero
  rw [List.range_eq_range'] at hloop
  have hcached := allocateDenseLoop_cached hl₁ hsize₁ (by omega) (by omega) hloop
  rw [hr.seq] at hcached
  have hl₂ := hl₁.steps (allocateDenseLoop_steps hl₁ hloop)
  change t₃.seq.numCachedTokens ≤ _
  refine le_trans ?_ hcached
  simp only [snapCachedPrefix, bind_ok, get_ok] at hsnap
  obtain ⟨_, _, ⟨rfl, rfl⟩, hsnap⟩ := hsnap
  split at hsnap
  · simp only [bind_ok, modifySeq_ok, pure_ok] at hsnap
    obtain ⟨_, mid, -, _, _, rfl, -, rfl⟩ := hsnap
    exact t₂.seq.request.snapToImageBoundary_le _
  · exact (pure_ok.mp hsnap).2 ▸ le_rfl

/-- What an admission leaves of the sequence. -/
theorem Admitted.frame {seq : Sequence H} (h : Admitted t seq) :
    seq.request = t.seq.request ∧ seq.tokenIds = t.seq.tokenIds ∧
      seq.cpuBlockTable = t.seq.cpuBlockTable ∧
      seq.numComputedTokens ≤ max t.seq.numComputedTokens seq.numCachedTokens := by
  cases h with
  | dense => exact ⟨rfl, rfl, rfl, le_max_left _ _⟩
  | denseEntry => exact ⟨rfl, rfl, rfl, le_max_right _ _⟩
  | compactEntry => exact ⟨rfl, rfl, rfl, le_max_right _ _⟩

/-- An admission finds no more tokens than the sequence has. -/
theorem allocate_cached {copies : List BlockPrefixCopy} (hl : Ledger others t)
    (hzero : t.seq.numCachedTokens = 0) (hprompt : t.seq.numPromptTokens ≤ t.seq.numTokens)
    (h : allocate t = .ok copies t') : t'.seq.numCachedTokens ≤ t.seq.numTokens := by
  have htable := (allocate_admitted hl h).2.1
  have hentry : ∀ {cacheId : CacheId} {entry : MultimodalPrefixCacheEntry},
      t.manager.matchingMultimodalPrefix t.seq = .ok (some (cacheId, entry)) →
      entry.logicalPrefixLen ≤ t.seq.numTokens := by
    intro cacheId entry hfound
    obtain ⟨-, hid, -, -, hlength, -⟩ := matchingMultimodalPrefix_some hfound
    rw [hlength]
    exact (Request.prefixCacheId_le hid).trans hprompt
  simp only [allocate, bind_ok, query_ok, readSeq_ok, require_ok, get_ok] at h
  obtain ⟨_, _, ⟨hsize, rfl⟩, _, _, ⟨rfl, rfl⟩, _, _, ⟨-, rfl⟩, _, _, ⟨-, rfl⟩, _, _, ⟨rfl, rfl⟩,
    found, _, ⟨hfound, rfl⟩, _, _, ⟨-, rfl⟩, h⟩ := h
  cases found with
  | none =>
    simp only [bind_ok, when_ok, query_ok, pure_ok] at h
    obtain ⟨_, _, hprobe, h⟩ := h
    have hsized := assertSequenceBlockSize_ok.mp hsize
    rcases hprobe with ⟨-, _, _, ⟨-, rfl⟩, -, rfl⟩ | ⟨-, rfl⟩ <;>
      exact allocateDense_cached hl hsized hzero h
  | some found =>
    obtain ⟨cacheId, entry⟩ := found
    have hgot := (matchingMultimodalPrefix_some hfound).2.2.1
    simp only at h
    split at h
    · obtain ⟨⟨table, -, hseq⟩, -⟩ := allocateDenseEntryHit_admitted hl htable hgot
        (releaseOnError_ok.mp h)
      rw [hseq]
      exact hentry hfound
    · obtain ⟨⟨table, -, -, -, hseq⟩, -⟩ := allocateMultimodalPrefixHit_admitted hl htable hgot
        (releaseOnError_ok.mp h)
      rw [hseq]
      exact hentry hfound

end BlockManager

end PrismInfer
