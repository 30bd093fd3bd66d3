import PrismInfer.KVCompactionRows

/-!
# Commits of a compaction batch

A plan that was built can be committed, also after the commits of other members: they
release pages of their own tables only.
-/
set_option linter.unusedSectionVars false

namespace PrismInfer
open StateExcept GpuBlockPool

variable {H : Type} [DecidableEq H] [Digests H]

namespace BlockManager

variable {others : Others} {manager : BlockManager H} {seq : Sequence H} {kvDtype : String}
  {plan : KVCompactionPlan} {t : ManagerState H}

theorem clearHashes_succeeds {pool : GpuBlockPool H} {ids : List ℕ} (hw : pool.WellFormed)
    (hheld : ∀ id ∈ ids, 0 < (pool.blocks id).refCount) :
    ∃ pool', forEach clearHash ids pool = .ok () pool' ∧ pool'.WellFormed ∧
      ∀ b, (pool'.blocks b).refCount = (pool.blocks b).refCount := by
  induction ids generalizing pool with
  | nil => exact ⟨pool, forEach_nil_ok.mpr rfl, hw, fun _ => rfl⟩
  | cons id ids ih =>
    have hpos := hheld id List.mem_cons_self
    obtain ⟨mid, hfirst⟩ := clearHash_succeeds (hw.used_lt id (hw.used_of_held hpos))
    obtain ⟨hwmid, hcleared⟩ := clearHash_ok hw hpos hfirst
    obtain ⟨pool', hrest, hw', hrefs⟩ := ih hwmid fun b hb => by
      rw [hcleared.refCount]
      exact hheld b (List.mem_cons_of_mem _ hb)
    exact ⟨pool', forEach_cons_ok.mpr ⟨mid, hfirst, hrest⟩, hw', fun b =>
      (hrefs b).trans (hcleared.refCount b)⟩

theorem releaseCompacted_succeeds {ids : List ℕ} (hw : t.pool.WellFormed) (hnodup : ids.Nodup)
    (hone : ∀ id ∈ ids, t.refCount id = 1) :
    ∃ pool, forEach releaseCompacted ids t = .ok () (t.setPool pool) := by
  induction ids generalizing t with
  | nil => exact ⟨t.pool, forEach_nil_ok.mpr rfl⟩
  | cons id ids ih =>
    have hid : t.refCount id = 1 := hone id List.mem_cons_self
    obtain ⟨mid, hfirst⟩ := releaseReference_succeeds hw
      (show 0 < (t.pool.blocks id).refCount by simp only [ManagerState.refCount] at hid; omega)
    obtain ⟨hwmid, hreleased⟩ := releaseReference_ok hw hfirst
    obtain ⟨hnotin, hnodup⟩ := List.nodup_cons.mp hnodup
    obtain ⟨pool, hrest⟩ := ih (t := t.setPool mid) hwmid hnodup fun b hb => by
      have hb' : t.refCount b = 1 := hone b (List.mem_cons_of_mem _ hb)
      have := hreleased.refCount b
      have hne : id ≠ b := fun h => hnotin (h ▸ hb)
      rw [if_neg hne] at this
      exact this.trans hb'
    refine ⟨pool, forEach_cons_ok.mpr ⟨t.setPool mid, ?_, hrest⟩⟩
    simp only [releaseCompacted, bind_ok, readManager_ok, require_ok, gpu_ok]
    exact ⟨_, _, ⟨rfl, rfl⟩, (), _, ⟨hid, rfl⟩, mid, hfirst, rfl⟩

namespace BuiltPlan

variable (h : BuiltPlan manager seq kvDtype plan)

include h

theorem compacted_eq : plan.effectiveCompactedLogicalLen = compactedLogicalLen seq := by
  obtain ⟨_, _, hplan⟩ := h.record
  rw [hplan]
  rfl

theorem physicalPromptLen : plan.physicalPromptLen = plan.retainedOriginalPositions.length := by
  obtain ⟨_, _, hplan⟩ := h.record
  rw [hplan]
  rfl

theorem length_pos : 0 < plan.retainedOriginalPositions.length :=
  List.length_pos_of_ne_nil h.nonempty

theorem compacted_pos : 0 < compactedLogicalLen seq := h.length_pos.trans_le h.length_le

/-- The layout a commit installs passes its own check over the kept pages. -/
theorem layout_valid : (plan.layout seq.numPromptTokens).validate manager.blockSize
    plan.newBlockTable false = .ok () := by
  have hvalid := h.valid
  simp only [KVCompactionPlan.validate, KVCompactionPlan.validateEvidence, except_bind_ok,
    ensure_ok] at hvalid
  obtain ⟨_, -, _, -, _, -, _, -, _, hdtype, -⟩ := hvalid
  have hlength := h.length_le
  have hpos := h.length_pos
  have hle := compactedLogicalLen_le seq
  have hsize := h.size_pos
  have hcompacted := h.compacted_eq
  have hphysical := h.physicalPromptLen
  have heffective : (plan.layout seq.numPromptTokens).effectiveCompactedLogicalLen =
      compactedLogicalLen seq := hcompacted
  simp only [KVCacheLayoutDescriptor.validate, KVCacheLayoutDescriptor.validateHeader,
    KVCacheLayoutDescriptor.validateLengths, KVCacheLayoutDescriptor.validateRetainedPositions,
    KVCacheLayoutDescriptor.validateBlockTable, KVCacheLayoutDescriptor.validateEvidence,
    KVCacheLayoutDescriptor.expectedPhysicalLen, KVCacheLayoutDescriptor.ReservedPrefillBlocks,
    KVCacheLayoutDescriptor.finalRequiredBlocks, except_bind_ok, ensure_ok, heffective]
  refine ⟨(), ⟨(), rfl, (), rfl, hsize⟩, (),
    ⟨(), ?_, (), ⟨h.compacted_pos, hle⟩, (), ?_, (), ⟨?_, ?_⟩, ?_⟩, (),
    ⟨(), ?_, (), h.sorted, fun last hlast => h.inside last (List.mem_of_getLast? hlast)⟩, (), ?_,
    (), hdtype, rfl⟩
  all_goals simp only [KVCompactionPlan.layout, hcompacted, hphysical]
  · omega
  · exact le_rfl
  · omega
  · omega
  · omega
  · rw [h.length_newBlockTable]
    rcases Nat.lt_or_ge (compactedLogicalLen seq) seq.numPromptTokens with hlt | hge
    · exact .inr (.inl ⟨hlt, pagesFor_mono hsize (Nat.le_add_right _ _), le_rfl⟩)
    · refine .inl ?_
      rw [finalRows, Nat.sub_eq_zero_of_le hge, Nat.add_zero]

/-- A partial compaction covers what has been computed. -/
theorem computed_eq (hlt : compactedLogicalLen seq < seq.numPromptTokens) :
    seq.numComputedTokens = compactedLogicalLen seq := by
  unfold compactedLogicalLen at hlt ⊢
  split at hlt
  · exact absurd hlt (lt_irrefl _)
  · next hnot => rw [if_neg hnot]

/-- The sequence between the release of pages and the installation of the layout. -/
theorem installCompacted_succeeds (hseq : t.seq = { seq with
      blockTable := plan.newBlockTable
      visualPruningDecisionRecord := some plan.compactRecord }) :
    ∃ t', installCompacted plan t = .ok () t' := by
  have hvalid := h.layout_valid
  have hprompt : t.seq.numPromptTokens = seq.numPromptTokens := by rw [hseq]; rfl
  have hsize : t.seq.blockSize = manager.blockSize := by rw [hseq]; exact h.size
  have hlogical : (plan.layout seq.numPromptTokens).logicalContextLen = compactedLogicalLen seq :=
    h.compacted_eq
  simp only [installCompacted, bind_ok, readSeq_ok, h.compacted_eq]
  by_cases hfull : compactedLogicalLen seq = seq.numPromptTokens
  · have hlength : plan.newBlockTable.length =
        pagesFor (plan.layout seq.numPromptTokens).physicalKvLen manager.blockSize := by
      rw [h.length_newBlockTable, finalRows, hfull, Nat.sub_self, Nat.add_zero,
        ← h.physicalPromptLen]
      rfl
    have htokens : (plan.layout seq.numPromptTokens).logicalContextLen = t.seq.numTokens := by
      rw [hlogical, hfull, ← h.atPrompt, hseq]
      rfl
    have hinstall : t.seq.installKvLayout (plan.layout seq.numPromptTokens) =
        .ok { t.seq with kvLayout := some (plan.layout seq.numPromptTokens) } := by
      simp only [Sequence.installKvLayout, except_bind_ok, ensure_ok, except_pure_ok, hsize]
      refine ⟨(), by rw [hseq]; exact h.dense, (), by rw [hseq]; exact hlength, (), ?_, (), htokens,
        trivial⟩
      rw [hseq]
      exact hvalid
    refine ⟨t.setSeq { t.seq with kvLayout := some (plan.layout seq.numPromptTokens) }, t.seq, t,
      ⟨rfl, rfl⟩, ?_⟩
    simp only [hprompt, hfull, if_true, bind_ok, query_ok, modifySeq_ok, hinstall]
    exact ⟨_, _, ⟨rfl, rfl⟩, rfl⟩
  · have hlt := lt_of_le_of_ne (compactedLogicalLen_le seq) hfull
    have hpos := h.compacted_pos
    have hcomputed : t.seq.numComputedTokens = compactedLogicalLen seq := by
      rw [hseq]
      exact h.computed_eq hlt
    have hinstall : ({ t.seq with numCachedTokens := compactedLogicalLen seq } :
        Sequence H).installCachedPrefixLayout (plan.layout seq.numPromptTokens) =
        .ok { t.seq with
          numCachedTokens := compactedLogicalLen seq
          kvLayout := some (plan.layout seq.numPromptTokens) } := by
      simp only [Sequence.installCachedPrefixLayout, except_bind_ok, ensure_ok, except_pure_ok]
      refine ⟨(), by rw [hseq]; exact h.dense, (), ⟨hpos, hprompt ▸ hlt⟩, (), hcomputed, (),
        hlogical, (), ?_, trivial⟩
      have hsize' : ({ t.seq with numCachedTokens := compactedLogicalLen seq } :
        Sequence H).blockSize = manager.blockSize := hsize
      rw [hsize', hseq]
      exact hvalid
    refine ⟨t.setSeq { t.seq with
        numCachedTokens := 0
        kvLayout := some (plan.layout seq.numPromptTokens) }, t.seq, t, ⟨rfl, rfl⟩, ?_⟩
    simp only [hprompt, hfull, if_false, bind_ok, query_ok, modifySeq_ok]
    exact ⟨(), _, rfl, _, _, ⟨hinstall, rfl⟩, rfl⟩

theorem commitCompaction_succeeds (hl : Ledger others ⟨manager, seq⟩) :
    ∃ t', commitCompaction plan ⟨manager, seq⟩ = .ok () t' := by
  obtain ⟨record, hrecord, hplan⟩ := h.record
  have hrecord' : seq.visualPruningDecisionRecord = some plan.compressionRecord := by
    rw [hplan]
    exact hrecord
  have hheld : ∀ id ∈ seq.blockTable, 0 < (manager.gpuPool.blocks id).refCount := fun id hid => by
    have hone := h.alone id hid
    simp only [refCount] at hone
    omega
  obtain ⟨cleared, hclear, hw, hrefs⟩ := clearHashes_succeeds hl.gpu
    fun id hid => hheld id (h.new_subset hid)
  have hreleased : ∀ id ∈ plan.releasedBlockIds, id ∈ seq.blockTable := fun id hid =>
    List.mem_of_mem_drop (h.releasedBlockIds ▸ hid)
  obtain ⟨pool, hrelease⟩ := releaseCompacted_succeeds
    (t := (⟨manager, seq⟩ : ManagerState H).setPool cleared) hw
    (show plan.releasedBlockIds.Nodup from
      h.releasedBlockIds ▸ h.nodup.sublist (List.drop_sublist _ _))
    fun id hid => (hrefs id).trans (h.alone id (hreleased id hid))
  obtain ⟨t', hinstall⟩ := h.installCompacted_succeeds
    (t := (((⟨manager, seq⟩ : ManagerState H).setPool cleared).setPool pool).setSeq { seq with
      blockTable := plan.newBlockTable
      visualPruningDecisionRecord := some plan.compactRecord }) rfl
  refine ⟨t', ?_⟩
  simp only [commitCompaction, bind_ok, query_ok, get_ok, readOnly_ok, require_ok, gpu_ok,
    forEach_gpu_ok, modifySeq_ok, assertSequenceBlockSize_ok]
  refine ⟨(), _, ⟨h.size, rfl⟩, _, _, ⟨rfl, rfl⟩, (), _, ⟨h.valid, rfl⟩, (), _,
    ⟨h.seqId, rfl⟩, (), _, ⟨h.dense, rfl⟩, (), _, ⟨h.oldBlockTable.symm, rfl⟩, (), _,
    ⟨_, validateOwned_succeeds hl.gpu (h.oldBlockTable ▸ h.nodup)
      (fun id hid => hheld id (h.oldBlockTable ▸ hid)), rfl⟩, (), _,
    ⟨fun id hid => h.alone id (h.oldBlockTable ▸ hid), rfl⟩, (), _, ⟨hrecord', rfl⟩, (), _,
    ⟨h.layout_valid, rfl⟩, (), _, ⟨cleared, hclear, rfl⟩, (), _, hrelease, (), _, rfl, hinstall⟩

end BuiltPlan

/-- A sequence after the commit of its plan. -/
def compactedSequence (plan : KVCompactionPlan) (seq : Sequence H) : Sequence H :=
  { seq with
    numCachedTokens := 0
    blockTable := plan.newBlockTable
    visualPruningDecisionRecord := some plan.compactRecord
    kvLayout := some (plan.layout seq.numPromptTokens) }

/-- The commit of one plan: the pages behind the kept ones lose one reference each. -/
structure CommitEffect (others : Others) (released : List ℕ) (manager manager' : BlockManager H)
    (seqs : List (Sequence H)) : Prop where
  accounts : FleetAccounts others manager' seqs
  size : manager'.blockSize = manager.blockSize
  cache : manager'.multimodalPrefixCache = manager.multimodalPrefixCache
  refs : ∀ b, manager'.refCount b + released.count b = manager.refCount b

theorem BuiltPlan.committed {left right : List (Sequence H)}
    (h : BuiltPlan manager seq kvDtype plan)
    (hall : FleetAccounts others manager (left ++ seq :: right)) :
    ∃ manager', commitCompaction plan ⟨manager, seq⟩ =
        .ok () ⟨manager', compactedSequence plan seq⟩ ∧
      CommitEffect others plan.releasedBlockIds manager manager'
        (left ++ compactedSequence plan seq :: right) := by
  have hl := hall.focus
  obtain ⟨t', hcommit⟩ := h.commitCompaction_succeeds hl
  obtain ⟨hsteps, hdone⟩ : PageSteps true _ [] t' ∧ _ := commitCompaction_ok hl hcommit
  obtain ⟨cached, hcached, hseq⟩ := hdone.seq
  have hzero : cached = 0 := Nat.le_zero.mp (hcached.trans_eq h.uncached)
  have hseq : t'.seq = compactedSequence plan seq := by
    rw [hseq, hzero]
    rfl
  have hl' := hl.steps hsteps
  have hstate : t' = ⟨t'.manager, compactedSequence plan seq⟩ := by rw [← hseq]
  rw [hstate] at hcommit hl'
  refine ⟨t'.manager, hcommit, hall.unfocus hl', (SameConfig.steps hsteps).blockSize, hdone.cache,
    fun b => ?_⟩
  have hbefore := hl.refs b
  have hafter := hl'.refs b
  have htable : seq.blockTable = plan.newBlockTable ++ plan.releasedBlockIds := by
    rw [← h.oldBlockTable]
    exact (planTables h.valid).1
  have hcache : t'.manager.multimodalPrefixCache = manager.multimodalPrefixCache := hdone.cache
  simp only [ManagerState.pool, ManagerState.table, ManagerState.cache, htable,
    List.count_append] at hbefore
  simp only [ManagerState.pool, ManagerState.table, ManagerState.cache, compactedSequence,
    hcache] at hafter
  simp only [refCount]
  omega

/-- A built plan stays one while the pages of its table keep their references. -/
theorem BuiltPlan.transfer {manager' : BlockManager H} (h : BuiltPlan manager seq kvDtype plan)
    (hsize : manager'.blockSize = manager.blockSize)
    (hrefs : ∀ id ∈ seq.blockTable, manager'.refCount id = manager.refCount id) :
    BuiltPlan manager' seq kvDtype plan :=
  { h with
    size := h.size.trans hsize.symm
    alone := fun id hid => (hrefs id hid).trans (h.alone id hid)
    record := by
      rw [hsize]
      exact h.record
    valid := by
      rw [hsize]
      exact h.valid }

/-- A member of the batch after the commits. -/
def afterCommit (plans : List KVCompactionPlan) (seq : Sequence H) : Sequence H :=
  match planOf plans seq.request.seqId with
  | none => seq
  | some plan => compactedSequence plan seq

end BlockManager

end PrismInfer
