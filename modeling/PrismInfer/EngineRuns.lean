import PrismInfer.BlockPoolRuns
import PrismInfer.PrefillBound
import PrismInfer.SchedulerCalls

/-!
# Whole runs of the engine

The scheduler together with the plans that were handed out and not committed yet. Requests
arrive and are cancelled at any time, plans are made, executed and committed in any order the
engine may choose. In every state of such a run the queues agree with the pages, every page is
accounted for, and once the queues and the entries are empty every page is free again.
-/
set_option linter.unusedSectionVars false

namespace PrismInfer
open StateExcept EveryRun Relation

variable {H : Type} [DecidableEq H] [Digests H]

/-- A compacted prefix grows by the tokens of a slice while the prompt is not finished. -/
def Sequence.growLayout (seq : Sequence H) (slice : PrefillSlice) :
    Except EngineError (Option KVCacheLayoutDescriptor) :=
  match seq.kvLayout with
  | none => pure none
  | some layout =>
    if layout.logicalContextLen < seq.numPromptTokens then
      some <$> layout.appendPrefillTokens slice.numTokens
    else pure (some layout)

/-- What `_commit_prefill_execution` does to one member. -/
def Sequence.commitSlice (seq : Sequence H) (slice : PrefillSlice) :
    Except EngineError (Sequence H) := do
  let layout ← seq.growLayout slice
  pure { seq with kvLayout := layout, numComputedTokens := slice.tokenEnd }

theorem Sequence.commitSlice_ok {seq seq' : Sequence H} {slice : PrefillSlice}
    (h : seq.commitSlice slice = .ok seq') :
    ∃ layout, seq' = { seq with kvLayout := layout, numComputedTokens := slice.tokenEnd } := by
  simp only [commitSlice, except_bind_ok, except_pure_ok] at h
  obtain ⟨layout, -, rfl⟩ := h
  exact ⟨layout, rfl⟩

/-- The scheduler, and the plans in flight. -/
abbrev Engine (H : Type) := Scheduler H × List BatchPlan

namespace BlockManager

variable {others : Others} {t t' : ManagerState H}

/-- Eviction of all entries in turn. -/
theorem evictAll_succeeds (hl : Ledger others t) {ids : List CacheId}
    (hids : t.cache.map (·.1) = ids) :
    ∃ t', forEach evictMultimodalPrefix ids t = .ok () t' ∧ t'.cache = [] := by
  induction ids generalizing t with
  | nil => exact ⟨t, rfl, List.map_eq_nil_iff.mp hids⟩
  | cons id ids ih =>
    obtain ⟨⟨first, entry⟩, rest, hcache, rfl, hrest⟩ := List.map_eq_cons_iff.mp hids
    have hget : t.cache.get? first = some entry :=
      OrderedDict.get?_of_mem hl.keys (hcache ▸ List.mem_cons_self)
    obtain ⟨mid, hevict⟩ := evictMultimodalPrefix_succeeds hl hget
    have hreclaim : ReclaimStep none t mid :=
      evictMultimodalPrefix_ok hl (Option.some_ne_none first) hevict
    have hafter : mid.cache = t.cache.remove first := by
      simp only [evictMultimodalPrefix, bind_ok, readManager_ok] at hevict
      obtain ⟨_, _, ⟨rfl, rfl⟩, hevict⟩ := hevict
      simp only [hget, bind_ok, modifyManager_ok, forEach_gpu_ok] at hevict
      obtain ⟨_, _, rfl, _, _, ⟨pool, -, rfl⟩, rfl⟩ := hevict
      rfl
    have hl' : Ledger others mid := hl.steps (.single (.reclaim hreclaim) : PageSteps true t [] mid)
    have hleft : mid.cache.map (·.1) = ids := by
      have hkeys := hl.keys
      rw [hcache, List.map_cons, List.nodup_cons] at hkeys
      have hothers : ∀ item ∈ rest, item.1 ≠ first := fun item hitem heq =>
        hkeys.1 (List.mem_map.mpr ⟨item, hitem, heq⟩)
      have hremoved : t.cache.remove first = rest := by
        rw [hcache, OrderedDict.remove, List.filter_cons_of_neg (by simp)]
        exact List.filter_eq_self.mpr fun item hitem => by simp [hothers item hitem]
      rw [hafter, hremoved]
      exact hrest
    obtain ⟨t', hall, hempty⟩ := ih hl' hleft
    exact ⟨t', forEach_cons_ok.mpr ⟨mid, hevict, hall⟩, hempty⟩

/-- Clearing the entries always returns, and leaves none. -/
theorem clearMultimodalPrefixCache_succeeds (hl : Ledger others t) :
    ∃ t', clearMultimodalPrefixCache t = .ok () t' ∧ t'.cache = [] := by
  obtain ⟨t', hall, hempty⟩ := evictAll_succeeds hl rfl
  refine ⟨t', ?_, hempty⟩
  simp only [clearMultimodalPrefixCache, bind_ok, readManager_ok]
  exact ⟨t.manager, t, ⟨rfl, rfl⟩, hall⟩

end BlockManager

open Scheduler

/-- One step of the engine. Execution of a plan in flight commits slices, records pruning
decisions, compacts and stores prefixes, for its members in any order. -/
inductive EngineStep : Engine H → Engine H → Prop
  | add {s s' : Scheduler H} {plans : List BatchPlan} {req : Request} {decision : AdmissionDecision}
      (h : Scheduler.add req s = .ok decision s') : EngineStep (s, plans) (s', plans)
  | plan {s s' : Scheduler H} {plans : List BatchPlan} {call : PlanningCall}
      {found : Option BatchPlan} (h : call.run s = .ok found s') :
      EngineStep (s, plans) (s', found.toList ++ plans)
  | commitSlice {s : Scheduler H} {plans : List BatchPlan} {plan : BatchPlan} {id : ℕ}
      {slice : PrefillSlice} {seq : Sequence H} (hplan : plan ∈ plans)
      (hslice : (id, slice) ∈ plan.sequenceIds.zip plan.prefillSlices)
      (h : (s.seqs id).commitSlice slice = .ok seq) :
      EngineStep (s, plans) (s.put id ((s.view id).setSeq seq), plans)
  | prune {s : Scheduler H} {plans : List BatchPlan} {plan : BatchPlan} {id : ℕ}
      {record : CompressionRecord} (hplan : plan ∈ plans) (hid : id ∈ plan.sequenceIds) :
      EngineStep (s, plans) (s.put id ((s.view id).setSeq
        { s.seqs id with visualPruningDecisionRecord := some record }), plans)
  | compact {s s' : Scheduler H} {plans : List BatchPlan} {plan : BatchPlan} {id : ℕ}
      {compaction : KVCompactionPlan} (hplan : plan ∈ plans) (hid : id ∈ plan.sequenceIds)
      (h : onSeq id (BlockManager.commitCompaction compaction) s = .ok () s') :
      EngineStep (s, plans) (s', plans)
  | store {s s' : Scheduler H} {plans : List BatchPlan} {plan : BatchPlan} {id : ℕ} {stored : Bool}
      (hplan : plan ∈ plans) (hid : id ∈ plan.sequenceIds)
      (h : onSeq id BlockManager.storeMultimodalPrefix s = .ok stored s') :
      EngineStep (s, plans) (s', plans)
  | commit {s s' : Scheduler H} {plans : List BatchPlan} {plan : BatchPlan}
      {tokens : List (Option ℕ)} {outputs : List RequestOutput} (hplan : plan ∈ plans)
      (h : postprocess plan tokens s = .ok outputs s') :
      EngineStep (s, plans) (s', plans.erase plan)
  | drop {s : Scheduler H} {plans : List BatchPlan} {plan : BatchPlan} :
      EngineStep (s, plans) (s, plans.erase plan)
  | cancel {s s' : Scheduler H} {plans : List BatchPlan} {id : ℕ} {found : Bool}
      (h : Scheduler.cancel id s = .ok found s') : EngineStep (s, plans) (s', plans)
  | clear {s : Scheduler H} {plans : List BatchPlan} {req : Request} {t : ManagerState H}
      (h : BlockManager.clearMultimodalPrefixCache ⟨s.blockManager, .ofRequest H req⟩ = .ok () t) :
      EngineStep (s, plans) ({ s with blockManager := t.manager }, plans)

/-- Steps of the engine. -/
abbrev EngineRun : Engine H → Engine H → Prop := ReflTransGen EngineStep

namespace Engine

variable {engine engine' : Engine H} {s s' : Scheduler H} {plans : List BatchPlan} {id : ℕ}
  {plan : BatchPlan}

/-- The states of an engine with a new block manager. -/
def Reached (engine : Engine H) : Prop :=
  ∃ config numBlocks blockSize numCpuBlocks caching blockLevel decodeCredit heap,
    EngineRun (Scheduler.initial H config
      (.initial H numBlocks blockSize numCpuBlocks caching blockLevel) decodeCredit heap, []) engine

/-- What holds in every state: queues and pages agree, and the plans in flight fit. -/
structure Kept (engine : Engine H) : Prop where
  scheduler : engine.1.Kept
  fits : ∀ plan ∈ engine.2, engine.1.Fits plan

theorem Kept.initial (config : SchedulerConfig) (numBlocks blockSize numCpuBlocks : ℕ)
    (caching blockLevel : Bool) (decodeCredit : ℕ) (heap : ℕ → Sequence H) :
    Engine.Kept (Scheduler.initial H config
      (.initial H numBlocks blockSize numCpuBlocks caching blockLevel) decodeCredit heap, []) where
  scheduler := by
    refine ⟨⟨List.nodup_nil, ?_, ?_, ?_, ?_, ?_, Nat.zero_le _, ?_, ?_⟩,
      .initial numBlocks blockSize numCpuBlocks caching blockLevel⟩ <;>
      exact fun id hid => absurd hid List.not_mem_nil
  fits := fun plan hplan => absurd hplan List.not_mem_nil

/-- A step that leaves the plans in flight, or fewer of them. -/
theorem Kept.moved (hk : Engine.Kept (s, plans)) (h : Moved s s') {plans' : List BatchPlan}
    (hplans : ∀ plan ∈ plans', plan ∈ plans) : Engine.Kept (s', plans') :=
  ⟨h.kept, fun plan hplan => (hk.fits plan (hplans plan hplan)).later h.same⟩

theorem commitSlice_moved (hk : Engine.Kept (s, plans)) {slice : PrefillSlice} {seq : Sequence H}
    (hplan : plan ∈ plans) (hslice : (id, slice) ∈ plan.sequenceIds.zip plan.prefillSlices)
    (h : (s.seqs id).commitSlice slice = .ok seq) :
    Moved s (s.put id ((s.view id).setSeq seq)) := by
  have hfits := hk.fits plan hplan
  have hid := hfits.known id (List.of_mem_zip hslice).1
  have hprogress := hk.scheduler.settled.progress id hid
  obtain ⟨layout, rfl⟩ := Sequence.commitSlice_ok h
  refine hk.scheduler.quiet hid (MemberRun.advance rfl rfl rfl)
    ⟨rfl, .inl rfl, fun hempty => hempty, rfl, fun hcached => hcached⟩ ?_
  exact ⟨hprogress.prompt, hprogress.cached, (hfits.within _ hslice).trans hprogress.prompt⟩

theorem prune_moved (hk : Engine.Kept (s, plans)) (hplan : plan ∈ plans)
    (hid : id ∈ plan.sequenceIds) (record : CompressionRecord) :
    Moved s (s.put id ((s.view id).setSeq
      { s.seqs id with visualPruningDecisionRecord := some record })) := by
  have hknown := (hk.fits plan hplan).known id hid
  have hprogress := hk.scheduler.settled.progress id hknown
  exact hk.scheduler.quiet hknown (MemberRun.advance rfl rfl rfl)
    ⟨rfl, .inl rfl, fun hempty => hempty, rfl, fun hcached => hcached⟩
    (hprogress.of_eq rfl rfl hprogress.cached hprogress.computed)

theorem compact_moved (hk : Engine.Kept (s, plans)) {compaction : KVCompactionPlan}
    (hplan : plan ∈ plans) (hid : id ∈ plan.sequenceIds)
    (h : onSeq id (BlockManager.commitCompaction compaction) s = .ok () s') : Moved s s' := by
  have hknown := (hk.fits plan hplan).known id hid
  have hprogress := hk.scheduler.settled.progress id hknown
  obtain ⟨others, hl⟩ := hk.scheduler.ledger_known hknown
  obtain ⟨t, hcall, rfl⟩ := onSeq_ok.mp h
  obtain ⟨-, hcompacted⟩ :=
    (BlockManager.commitCompaction_ok hl hcall : PageSteps true _ _ _ ∧ _)
  obtain ⟨cached, hcached, hseq⟩ := hcompacted.seq
  have hseq' : t.seq = { s.seqs id with
      numCachedTokens := cached
      blockTable := compaction.newBlockTable
      visualPruningDecisionRecord := some compaction.compactRecord
      kvLayout := some (compaction.layout (s.seqs id).numPromptTokens) } := hseq
  refine hk.scheduler.quiet hknown
    (MemberRun.call (.commitCompaction compaction) trivial hcall) ?_ ?_
  · rw [hseq']
    refine ⟨rfl, .inl rfl, fun hempty => ?_, rfl, fun hzero => ?_⟩
    · have htables := (BlockManager.planTables hcompacted.valid).1
      rw [← hcompacted.table] at htables
      change (s.seqs id).blockTable = _ at htables
      rw [hempty] at htables
      exact (List.append_eq_nil_iff.mp htables.symm).1
    · exact Nat.le_zero.mp (hzero ▸ hcached)
  · rw [hseq']
    exact hprogress.of_eq rfl rfl (hcached.trans hprogress.cached) hprogress.computed

theorem store_moved (hk : Engine.Kept (s, plans)) {stored : Bool} (hplan : plan ∈ plans)
    (hid : id ∈ plan.sequenceIds)
    (h : onSeq id BlockManager.storeMultimodalPrefix s = .ok stored s') : Moved s s' := by
  have hknown := (hk.fits plan hplan).known id hid
  obtain ⟨others, hl⟩ := hk.scheduler.ledger_known hknown
  obtain ⟨t, hcall, rfl⟩ := onSeq_ok.mp h
  have hseq : t.seq = s.seqs id := (BlockManager.storeMultimodalPrefix_seq hl hcall).1
  refine hk.scheduler.quiet hknown
    (MemberRun.call .storeMultimodalPrefix trivial (bind_ok.mpr ⟨stored, t, hcall, rfl⟩)) ?_ ?_
  · rw [hseq]
    exact ⟨rfl, .inl rfl, fun hempty => hempty, rfl, fun hcached => hcached⟩
  · rw [hseq]
    exact hk.scheduler.settled.progress id hknown

/-- Clearing the entries is a run of the fleet beside a sequence without pages. -/
theorem clear_moved (hk : Engine.Kept (s, plans)) {req : Request} {t : ManagerState H}
    (h : BlockManager.clearMultimodalPrefixCache ⟨s.blockManager, .ofRequest H req⟩ = .ok () t) :
    Moved s { s with blockManager := t.manager } := by
  have haccounts := @FleetAccounts.join _ _ _ _ _ [] (s.queued.map s.seqs) (.ofRequest H req)
    hk.scheduler.fleet.accounts rfl rfl
  have hl := @FleetAccounts.focus _ _ _ _ _ [] _ _ haccounts
  obtain ⟨table, htable, hseq⟩ := (BlockManager.clearMultimodalPrefixCache_table hl h).seq
  have hempty : table = [] := List.eq_nil_of_length_eq_zero htable
  have hjoin :
      FleetStep s.fleet (s.blockManager, Sequence.ofRequest H req :: s.queued.map s.seqs) :=
    @FleetStep.join _ _ _ s.blockManager [] (s.queued.map s.seqs) _ rfl rfl
  have hrun : MemberRun ⟨s.blockManager, .ofRequest H req⟩ t :=
    MemberRun.call .clearMultimodalPrefixCache trivial h
  have hleave : FleetStep (t.manager, t.seq :: s.queued.map s.seqs)
      (t.manager, s.queued.map s.seqs) :=
    @FleetStep.leave _ _ _ t.manager [] (s.queued.map s.seqs) t.seq (by rw [hseq, hempty])
      (by rw [hseq]; rfl)
  have hmoves : FleetMoves s.fleet (Scheduler.fleet { s with blockManager := t.manager }) :=
    ⟨s.queued.map s.seqs,
      (ReflTransGen.single hjoin).trans ((hrun.beside (s.queued.map s.seqs)).tail hleave), .refl _⟩
  have hsettled : Settled { s with blockManager := t.manager } ∧
      SameRequests s { s with blockManager := t.manager } :=
    hk.scheduler.settled.reorder rfl (.refl _) rfl rfl rfl rfl
  exact ⟨⟨hsettled.1, hmoves.kept hk.scheduler.fleet⟩, hsettled.2, hmoves⟩

/-- Every step of the engine keeps it. -/
theorem Kept.step (hk : engine.Kept) (h : EngineStep engine engine') :
    engine'.Kept ∧ Moved engine.1 engine'.1 := by
  cases h with
  | add h =>
    have hmoved := add_moved hk.scheduler h
    exact ⟨hk.moved hmoved fun plan hplan => hplan, hmoved⟩
  | plan h =>
    obtain ⟨hmoved, hfits⟩ := PlanningCall.kept hk.scheduler h
    refine ⟨⟨hmoved.kept, fun plan hplan => ?_⟩, hmoved⟩
    rcases List.mem_append.mp hplan with hnew | hold
    · exact hfits plan (Option.mem_toList.mp hnew)
    · exact (hk.fits plan hold).later hmoved.same
  | commitSlice hplan hslice h =>
    have hmoved := commitSlice_moved hk hplan hslice h
    exact ⟨hk.moved hmoved fun plan hplan => hplan, hmoved⟩
  | @prune s plans plan id record hplan hid =>
    have hmoved := prune_moved hk hplan hid record
    exact ⟨hk.moved hmoved fun plan hplan => hplan, hmoved⟩
  | compact hplan hid h =>
    have hmoved := compact_moved hk hplan hid h
    exact ⟨hk.moved hmoved fun plan hplan => hplan, hmoved⟩
  | store hplan hid h =>
    have hmoved := store_moved hk hplan hid h
    exact ⟨hk.moved hmoved fun plan hplan => hplan, hmoved⟩
  | commit hplan h =>
    have hmoved := postprocess_moved hk.scheduler (hk.fits _ hplan) h
    exact ⟨hk.moved hmoved fun plan hplan => List.mem_of_mem_erase hplan, hmoved⟩
  | drop =>
    exact ⟨hk.moved hk.scheduler.stays fun plan hplan => List.mem_of_mem_erase hplan,
      hk.scheduler.stays⟩
  | cancel h =>
    have hmoved := cancel_moved hk.scheduler h
    exact ⟨hk.moved hmoved fun plan hplan => hplan, hmoved⟩
  | clear h =>
    have hmoved := clear_moved hk h
    exact ⟨hk.moved hmoved fun plan hplan => hplan, hmoved⟩

theorem Kept.run (hk : engine.Kept) (h : EngineRun engine engine') :
    engine'.Kept ∧ Moved engine.1 engine'.1 := by
  induction h with
  | refl => exact ⟨hk, hk.scheduler.stays⟩
  | tail _ hlast ih =>
    obtain ⟨hmid, hmoved⟩ := ih
    obtain ⟨hkept, hlater⟩ := hmid.step hlast
    exact ⟨hkept, hmoved.trans hlater⟩

theorem Reached.kept (h : Engine.Reached engine) : engine.Kept := by
  obtain ⟨config, numBlocks, blockSize, numCpuBlocks, caching, blockLevel, decodeCredit,
    heap, hrun⟩ := h
  exact ((Kept.initial config numBlocks blockSize numCpuBlocks caching blockLevel decodeCredit
    heap).run hrun).1

theorem Reached.run (h : Engine.Reached engine) (hrun : EngineRun engine engine') :
    Engine.Reached engine' := by
  obtain ⟨config, numBlocks, blockSize, numCpuBlocks, caching, blockLevel, credit, heap,
    hbefore⟩ := h
  exact ⟨config, numBlocks, blockSize, numCpuBlocks, caching, blockLevel, credit, heap,
    hbefore.trans hrun⟩

section Example

/-- The prompt of the first request is computed. -/
def computed : Scheduler ℕ :=
  planned.put 0 ((planned.view 0).setSeq
    { planned.seqs 0 with kvLayout := none, numComputedTokens := 3 })

/-- Its first token is committed. -/
def answered : Scheduler ℕ := finalState (postprocess firstPlan [some 9] computed)

/-- It is cancelled. -/
def emptied : Scheduler ℕ := finalState (Scheduler.cancel 0 answered)

theorem started_reached : Engine.Reached (started, []) := by
  refine ⟨residentConfig, 8, 2, 0, false, false, 1,
    fun id => .ofRequest ℕ (textPrompt id), ?_⟩
  have hadd : EngineStep (Scheduler.initial ℕ residentConfig
      (.initial ℕ 8 2 0 false false) 1 fun id => .ofRequest ℕ (textPrompt id), []) (started, []) :=
    @EngineStep.add ℕ _ _ _ _ [] (textPrompt 0) none rfl
  exact .single hadd

theorem planned_reached : Engine.Reached (planned, [firstPlan]) := by
  have hplan : EngineStep (started, []) (planned, [firstPlan]) :=
    @EngineStep.plan ℕ _ _ _ _ [] .schedule (some firstPlan) rfl
  exact started_reached.run (.single hplan)

theorem answered_reached : Engine.Reached (answered, []) := by
  have hslice : EngineStep (planned, [firstPlan]) (computed, [firstPlan]) :=
    @EngineStep.commitSlice ℕ _ _ planned [firstPlan] firstPlan 0 ⟨0, 0, 3⟩ _ (by decide)
    (by decide) rfl
  have hcommit : EngineStep (computed, [firstPlan]) (answered, []) :=
    @EngineStep.commit ℕ _ _ _ _ [firstPlan] firstPlan [some 9] [] (by decide) rfl
  exact planned_reached.run ((ReflTransGen.single hslice).tail hcommit)

theorem emptied_reached : Engine.Reached (emptied, []) := by
  have hcancel : EngineStep (answered, []) (emptied, []) :=
    @EngineStep.cancel ℕ _ _ _ _ [] 0 true rfl
  exact answered_reached.run (ReflTransGen.single hcancel)

end Example

/-! ## What holds in every state -/

/-- In every state the queues, the statuses and the page tables agree, and every plan in
flight is about requests the scheduler knows. -/
theorem queues_settled (h : Engine.Reached (s, plans)) :
    s.Settled ∧ ∀ plan ∈ plans, s.Fits plan :=
  ⟨h.kept.scheduler.settled, h.kept.fits⟩

theorem queues_settled_answered :
    Engine.Reached (answered, []) ∧ answered.Settled ∧
      ∀ plan ∈ ([] : List BatchPlan), answered.Fits plan :=
  ⟨answered_reached, queues_settled answered_reached⟩

end Engine

namespace Scheduler

variable {s : Scheduler H}

/-- Every page is accounted for: a GPU page by the tables and entries that hold it, a CPU page
by the one swapped sequence it belongs to. -/
structure Accounted (s : Scheduler H) : Prop where
  refs : ∀ b, s.blockManager.refCount b =
    (s.queued.map fun id => (s.seqs id).blockTable.count b).sum +
      s.blockManager.multimodalPrefixCache.pages.count b
  active : ∀ b, 0 < s.blockManager.refCount b → b < s.blockManager.gpuPool.capacity ∧
    b ∉ s.blockManager.gpuPool.freeBlockIdSet ∧ b ∉ s.blockManager.gpuPool.cachedBlockIds
  idle : ∀ b < s.blockManager.gpuPool.capacity, s.blockManager.refCount b = 0 →
    (b ∈ s.blockManager.gpuPool.cachedBlockIds ↔ (s.blockManager.gpuPool.blocks b).hash ≠ none) ∧
      (b ∈ s.blockManager.gpuPool.freeBlockIdSet ↔ (s.blockManager.gpuPool.blocks b).hash = none)
  total : s.blockManager.multimodalPrefixCacheBlocks =
    s.blockManager.multimodalPrefixCache.weight (·.residentBlocks)
  limit : s.blockManager.multimodalPrefixCacheBlocks ≤
    s.blockManager.multimodalPrefixCacheMaxBlocks
  cpu : ∀ b ∈ s.blockManager.cpuPool.usedBlockIds,
    ∃! id, id ∈ s.swapped ∧ b ∈ (s.seqs id).cpuBlockTable
  cpuOnce : ∀ id ∈ s.swapped, (s.seqs id).cpuBlockTable.Nodup

theorem cpuTables_swapped (hs : s.Settled) {id b : ℕ} (hin : id ∈ s.queued)
    (hb : b ∈ (s.seqs id).cpuBlockTable) : id ∈ s.swapped := by
  rcases mem_queued.mp hin with hwaiting | hrunning | hswapped
  · rw [(hs.waiting id hwaiting).cpuTable] at hb
    exact absurd hb List.not_mem_nil
  · rw [(hs.running id hrunning).cpuTable] at hb
    exact absurd hb List.not_mem_nil
  · exact hswapped

theorem Kept.accounted (hk : s.Kept) : s.Accounted := by
  have hs := hk.settled
  have haccounts : FleetAccounts Others.none s.blockManager (s.queued.map s.seqs) :=
    hk.fleet.accounts
  have hw : s.blockManager.gpuPool.WellFormed := haccounts.gpu
  have hcpu : (s.queued.flatMap fun id => (s.seqs id).cpuBlockTable).Nodup := by
    have hnodup := haccounts.cpu_nodup
    rwa [List.flatMap_map] at hnodup
  obtain ⟨honce, hapart⟩ := List.nodup_flatMap.mp hcpu
  constructor
  · intro b
    have hrefs := haccounts.refs b
    rw [List.flatMap_map, List.count_flatMap] at hrefs
    simpa [Others.none, Function.comp_def, BlockManager.refCount] using hrefs
  · intro b hb
    have hused := hw.used_of_held hb
    refine ⟨hw.used_lt b hused, fun hfree => ((hw.free_iff b).mp hfree).2 hused, fun hcached => ?_⟩
    have hzero := ((hw.cached_iff b).mp hcached).2
    simp only [BlockManager.refCount] at hb
    omega
  · intro b hlt hzero
    by_cases hused : b ∈ s.blockManager.gpuPool.usedBlockIds
    · have hcached := (hw.cached_iff b).mpr ⟨hused, hzero⟩
      have hhash := (hw.cached_retained b hcached).2
      refine ⟨⟨fun _ => hhash, fun _ => hcached⟩,
        ⟨fun hfree => ?_, fun hnone => absurd hnone hhash⟩⟩
      exact absurd hused ((hw.free_iff b).mp hfree).2
    · have hfree := (hw.free_iff b).mpr ⟨hlt, hused⟩
      have hnone : (s.blockManager.gpuPool.blocks b).hash = none := by
        rw [hw.unused_block b hused]
        rfl
      refine ⟨⟨fun hcached => ?_, fun hhash => absurd hnone hhash⟩,
        ⟨fun _ => hnone, fun _ => hfree⟩⟩
      exact absurd ((hw.cached_iff b).mp hcached).1 hused
  · exact haccounts.total
  · exact haccounts.limit
  · intro b hb
    have howned := (haccounts.cpu_used b).mp hb
    simp only [Others.none, Finset.notMem_empty, false_or] at howned
    rw [List.flatMap_map, List.mem_flatMap] at howned
    obtain ⟨id, hin, hid⟩ := howned
    refine ⟨id, ⟨cpuTables_swapped hs hin hid, hid⟩, ?_⟩
    rintro other ⟨hother, hmem⟩
    by_contra hne
    have hin' : other ∈ s.queued := by simp [hother]
    have : Std.Symm (Function.onFun List.Disjoint fun id => (s.seqs id).cpuBlockTable) :=
      ⟨fun _ _ hdisjoint => hdisjoint.symm⟩
    exact (hapart.forall hin' hin hne) hmem hid
  · intro id hid
    exact honce id (by simp [hid])

/-- With empty queues, clearing the entries makes every page free. -/
theorem Kept.drained (hk : s.Kept) (hempty : s.queued = []) (req : Request) :
    ∃ t, BlockManager.clearMultimodalPrefixCache ⟨s.blockManager, .ofRequest H req⟩ = .ok () t ∧
      t.manager.gpuPool.freeCount = t.manager.gpuPool.capacity ∧
      t.manager.cpuPool.freeCount = t.manager.cpuPool.capacity := by
  have haccounts := @FleetAccounts.join _ _ _ _ _ [] (s.queued.map s.seqs) (.ofRequest H req)
    hk.fleet.accounts rfl rfl
  have hl := @FleetAccounts.focus _ _ _ _ _ [] _ _ haccounts
  obtain ⟨t, hclear, hcache⟩ := BlockManager.clearMultimodalPrefixCache_succeeds hl
  have hkept : Engine.Kept (s, []) := ⟨hk, fun plan hplan => absurd hplan List.not_mem_nil⟩
  have hafter := (Engine.clear_moved hkept hclear).kept.fleet.accounts
  have hfleet : (Scheduler.fleet { s with blockManager := t.manager }).2 = [] := by
    change s.queued.map s.seqs = []
    rw [hempty]
    rfl
  rw [hfleet] at hafter
  refine ⟨t, hclear, ?_, ?_⟩
  · have hw : t.manager.gpuPool.WellFormed := hafter.gpu
    rw [hw.freeCount_eq]
    conv_rhs => rw [← Finset.card_range t.manager.gpuPool.capacity]
    congr 1
    apply Finset.filter_true_of_mem
    intro b _
    have hrefs := hafter.refs b
    change (t.manager.gpuPool.blocks b).refCount = 0 + 0 + t.cache.pages.count b at hrefs
    rw [hcache] at hrefs
    exact hrefs
  · have hw : t.manager.cpuPool.WellFormed := hafter.cpu
    have hused : ∀ b, b ∉ t.manager.cpuPool.usedBlockIds := fun b hb => by
      have howned := (hafter.cpu_used b).mp hb
      simp [Others.none] at howned
    have hall : t.manager.cpuPool.freeBlockIdSet = Finset.range t.manager.cpuPool.capacity := by
      ext b
      rw [hw.free_iff, Finset.mem_range]
      exact ⟨fun hfree => hfree.1, fun hlt => ⟨hlt, hused b⟩⟩
    unfold CpuBlockPool.freeCount
    rw [hall, Finset.card_range]

end Scheduler

/-- Whatever the engine does between two states is a run of the block manager on the sequences
in the queues, in some order: arrivals and departures without pages, methods on one sequence,
and changes that leave the page tables. -/
theorem Engine.refines_fleet {engine engine' : Engine H} (h : Engine.Reached engine)
    (hrun : EngineRun engine engine') :
    FleetMoves engine.1.fleet engine'.1.fleet ∧
      ∃ seqs, PrismInfer.Reached (engine'.1.blockManager, seqs) ∧
        seqs.Perm (engine'.1.queued.map engine'.1.seqs) := by
  obtain ⟨hkept, hmoved⟩ := h.kept.run hrun
  refine ⟨hmoved.moves, ?_⟩
  obtain ⟨config, numBlocks, blockSize, numCpuBlocks, caching, blockLevel, decodeCredit, heap,
    hfirst⟩ := h
  have hinitial := Engine.Kept.initial config numBlocks blockSize numCpuBlocks caching blockLevel
    decodeCredit heap
  have hall := (hinitial.run hfirst).2.moves.trans hmoved.moves
  have hstart : PrismInfer.Reached (BlockManager.initial H numBlocks blockSize numCpuBlocks caching
      blockLevel, []) := ⟨numBlocks, blockSize, numCpuBlocks, caching, blockLevel, .refl⟩
  exact hall.reached hstart

theorem Engine.refines_fleet_emptied :
    FleetMoves answered.fleet emptied.fleet ∧
      ∃ seqs, PrismInfer.Reached (emptied.blockManager, seqs) ∧
        seqs.Perm (emptied.queued.map emptied.seqs) := by
  have hcancel : EngineStep (answered, []) (emptied, []) :=
    @EngineStep.cancel ℕ _ _ _ _ [] 0 true rfl
  exact Engine.refines_fleet Engine.answered_reached (.single hcancel)

/-- In every state the pages are accounted for, and where no request is left, clearing the
entries makes them all free again. -/
theorem Engine.pages_accounted {s : Scheduler H} {plans : List BatchPlan}
    (h : Engine.Reached (s, plans)) :
    s.Accounted ∧ (s.queued = [] → ∀ req : Request, ∃ t,
      BlockManager.clearMultimodalPrefixCache ⟨s.blockManager, .ofRequest H req⟩ = .ok () t ∧
        t.manager.gpuPool.freeCount = t.manager.gpuPool.capacity ∧
        t.manager.cpuPool.freeCount = t.manager.cpuPool.capacity) :=
  ⟨h.kept.scheduler.accounted, h.kept.scheduler.drained⟩

theorem Engine.pages_accounted_emptied :
    emptied.Accounted ∧ ∃ t, BlockManager.clearMultimodalPrefixCache
        ⟨emptied.blockManager, .ofRequest ℕ (textPrompt 0)⟩ = .ok () t ∧
      t.manager.gpuPool.freeCount = t.manager.gpuPool.capacity ∧
      t.manager.cpuPool.freeCount = t.manager.cpuPool.capacity := by
  obtain ⟨haccounted, hdrained⟩ := Engine.pages_accounted Engine.emptied_reached
  exact ⟨haccounted, hdrained rfl (textPrompt 0)⟩

end PrismInfer
