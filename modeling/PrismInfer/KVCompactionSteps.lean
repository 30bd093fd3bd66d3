import PrismInfer.ManagerEffects

/-!
# Compaction as page steps

A committed compaction forgets the hashes of the pages it keeps, drops the pages behind
them and installs the layout of its plan.
-/
set_option linter.unusedSectionVars false

namespace PrismInfer
open StateExcept GpuBlockPool

variable {H : Type} [DecidableEq H] [Digests H]

namespace BlockManager

variable {others : Others} {t t' : ManagerState H} {u : Unit} {sharing : Bool}
  {plan : KVCompactionPlan}

theorem clearHashes_steps {pool : GpuBlockPool H} {ids : List ℕ} (hl : Ledger others t)
    (hids : ∀ id ∈ ids, id ∈ t.table) (halone : ∀ id ∈ t.table, t.refCount id = 1)
    (h : forEach clearHash ids t.pool = .ok u pool) :
    PageSteps sharing t [] (t.setPool pool) := by
  induction ids generalizing t with
  | nil =>
    obtain rfl := forEach_nil_ok.mp h
    exact .refl t
  | cons id ids ih =>
    obtain ⟨mid, hfirst, hrest⟩ := forEach_cons_ok.mp h
    have hid := hids id List.mem_cons_self
    have hone : t.refCount id = 1 := halone id hid
    obtain ⟨hw, hcleared⟩ :=
      clearHash_ok hl.gpu (by simp only [ManagerState.refCount] at hone; omega)
      hfirst
    have hforget : PageStep sharing t [] (t.setPool mid) := .forget hid (by omega) hcleared hw
    refine .head hforget (ih (hl.step hforget) (fun b hb => hids b (List.mem_cons_of_mem id hb))
      (fun b hb => ?_) hrest)
    have := hcleared.refCount b
    exact this.trans (halone b hb)

/-- Releases of the pages behind a kept part of the table. -/
theorem dropBehind_steps {pool : GpuBlockPool H} {kept ids : List ℕ} (hl : Ledger others t)
    (htable : t.table = kept ++ ids) (h : forEach releaseReference ids t.pool = .ok u pool) :
    PageSteps sharing t [] ((t.setPool pool).setTable kept) := by
  induction ids generalizing t with
  | nil =>
    obtain rfl := forEach_nil_ok.mp h
    have hsame : (t.setPool t.pool).setTable kept = t := by
      rw [← List.append_nil kept, ← htable]
      rfl
    rw [hsame]
    exact .refl t
  | cons id ids ih =>
    obtain ⟨mid, hfirst, hrest⟩ := forEach_cons_ok.mp h
    obtain ⟨hw, hrel⟩ := releaseReference_ok hl.gpu hfirst
    have hdrop : PageStep sharing t [] ((t.setPool mid).setTable (kept ++ ids)) :=
      .drop htable hrel hw
    exact .head hdrop (ih (hl.step hdrop) rfl hrest)

/-- The loop of `release_compacted` calls on the pool. -/
theorem releaseCompacted_pool {ids : List ℕ} (h : forEach releaseCompacted ids t = .ok u t') :
    ∃ pool, forEach releaseReference ids t.pool = .ok () pool ∧ t' = t.setPool pool := by
  induction ids generalizing t with
  | nil =>
    obtain rfl := forEach_nil_ok.mp h
    exact ⟨t.pool, forEach_nil_ok.mpr rfl, rfl⟩
  | cons id ids ih =>
    obtain ⟨mid, hfirst, hrest⟩ := forEach_cons_ok.mp h
    simp only [releaseCompacted, bind_ok, readManager_ok, require_ok, gpu_ok] at hfirst
    obtain ⟨_, _, ⟨rfl, rfl⟩, _, _, ⟨-, rfl⟩, pool, hpool, rfl⟩ := hfirst
    obtain ⟨last, hloop, rfl⟩ := ih hrest
    exact ⟨last, forEach_cons_ok.mpr ⟨pool, hpool, hloop⟩, rfl⟩

theorem installKvLayout_ok {seq seq' : Sequence H} {layout : KVCacheLayoutDescriptor}
    (h : seq.installKvLayout layout = .ok seq') : seq' = { seq with kvLayout := some layout } := by
  simp only [Sequence.installKvLayout, except_bind_ok, ensure_ok, except_pure_ok] at h
  obtain ⟨_, -, _, -, _, -, _, -, rfl⟩ := h
  rfl

theorem installCompacted_ok (h : installCompacted plan t = .ok u t') :
    ∃ cached ≤ t.seq.numCachedTokens, t' = t.setSeq { t.seq with
      numCachedTokens := cached
      kvLayout := some (plan.layout t.seq.numPromptTokens) } := by
  simp only [installCompacted, bind_ok, readSeq_ok] at h
  obtain ⟨_, _, ⟨rfl, rfl⟩, h⟩ := h
  split at h
  · simp only [bind_ok, query_ok, modifySeq_ok] at h
    obtain ⟨seq, _, ⟨hinstall, rfl⟩, rfl⟩ := h
    rw [installKvLayout_ok hinstall]
    exact ⟨_, le_rfl, rfl⟩
  · simp only [bind_ok, query_ok, modifySeq_ok] at h
    obtain ⟨_, _, rfl, seq, _, ⟨hinstall, rfl⟩, rfl⟩ := h
    rw [(installCachedPrefixLayout_ok hinstall).1]
    exact ⟨0, Nat.zero_le _, rfl⟩

/-- What a committed compaction leaves. -/
structure Compacted (plan : KVCompactionPlan) (t t' : ManagerState H) : Prop where
  dense : t.seq.kvLayout = none
  table : t.table = plan.oldBlockTable
  sequence : plan.seqId = t.seq.request.seqId
  valid : plan.validate t.manager.blockSize = .ok ()
  layout : (plan.layout t.seq.numPromptTokens).validate t.manager.blockSize plan.newBlockTable
    false = .ok ()
  seq : ∃ cached ≤ t.seq.numCachedTokens, t'.seq = { t.seq with
    numCachedTokens := cached
    blockTable := plan.newBlockTable
    visualPruningDecisionRecord := some plan.compactRecord
    kvLayout := some (plan.layout t.seq.numPromptTokens) }
  cache : t'.cache = t.cache

theorem planTables {blockSize : ℕ} (h : plan.validate blockSize = .ok ()) :
    plan.oldBlockTable = plan.newBlockTable ++ plan.releasedBlockIds ∧
      plan.newBlockTable.length = plan.expectedBlocks blockSize := by
  simp only [KVCompactionPlan.validate, KVCompactionPlan.validateBlockTables, except_bind_ok,
    ensure_ok] at h
  obtain ⟨_, -, _, -, _, ⟨_, hcount, _, hlead, hsuffix⟩, -⟩ := h
  rw [← hlead, ← hsuffix]
  exact ⟨(List.take_append_drop _ _).symm, by rw [hlead]; exact hcount⟩

theorem commitCompaction_ok (hl : Ledger others t) (h : commitCompaction plan t = .ok u t') :
    PageSteps sharing t [] t' ∧ Compacted plan t t' := by
  simp only [commitCompaction, bind_ok, query_ok, get_ok, readOnly_ok, require_ok, gpu_ok,
    forEach_gpu_ok, modifySeq_ok] at h
  obtain ⟨_, _, ⟨-, rfl⟩, _, _, ⟨rfl, rfl⟩, ⟨⟩, _, ⟨hplan, rfl⟩, _, _, ⟨hid, rfl⟩, _, _,
    ⟨hnone, rfl⟩, _, _, ⟨htable, rfl⟩, _, _, ⟨p₀, hvalid, rfl⟩, _, _, ⟨halone, rfl⟩, _, _, ⟨-, rfl⟩,
    ⟨⟩, _, ⟨hlayout, rfl⟩, _, _, ⟨cleared, hclear, rfl⟩, _, t₁, hrelease, _, _, rfl, hinstall⟩ := h
  obtain ⟨rfl, -⟩ := GpuBlockPool.validateOwned_ok hvalid
  obtain ⟨pool, hdrop, rfl⟩ := releaseCompacted_pool hrelease
  obtain ⟨cached, hcached, rfl⟩ := installCompacted_ok hinstall
  obtain ⟨htables, -⟩ := planTables hplan
  have hold : t.table = plan.newBlockTable ++ plan.releasedBlockIds := by
    rw [ManagerState.table, htable, htables]
  have hcleared : PageSteps sharing t [] (t.setPool cleared) :=
    clearHashes_steps hl (fun id hmem => by rw [hold]; exact List.mem_append_left _ hmem)
      (fun id hmem => halone id (htable ▸ hmem)) hclear
  have hdropped : PageSteps sharing (t.setPool cleared) []
      (((t.setPool cleared).setPool pool).setTable plan.newBlockTable) :=
    dropBehind_steps (hl.steps hcleared) hold hdrop
  refine ⟨(hcleared.trans hdropped).trans ?_, hnone, htable, hid, hplan, hlayout,
    ⟨cached, hcached, rfl⟩, rfl⟩
  exact setSeq_steps rfl rfl rfl

/-- What a built plan says about the sequence it was built for. -/
theorem buildCompactionPlan_ok {kvDtype : String}
    (h : buildCompactionPlan kvDtype t = .ok (some plan) t') :
    t' = t ∧ t.seq.kvLayout = none ∧ t.seq.numTokens = t.seq.numPromptTokens ∧
      ∃ record retained, t.seq.visualPruningDecisionRecord = some record ∧
        plan = compactionPlan t.manager.blockSize t.seq kvDtype record retained := by
  simp only [buildCompactionPlan, bind_ok, query_ok, get_ok] at h
  obtain ⟨_, _, ⟨-, rfl⟩, _, _, ⟨rfl, rfl⟩, h⟩ := h
  cases hrecord : t.seq.visualPruningDecisionRecord with
  | none => simp [hrecord] at h
  | some record =>
    simp only [hrecord, bind_ok, query_ok, gpu_ok, require_ok, readOnly_ok, pure_ok,
      validateCompactable, except_bind_ok, ensure_ok, Option.some.injEq] at h
    obtain ⟨_, _, ⟨⟨_, hnone, _, hlength, -⟩, rfl⟩, _, _, ⟨p₀, hvalid, rfl⟩, _, _, ⟨-, rfl⟩, _, _,
      ⟨-, rfl⟩, retained, _, ⟨-, rfl⟩, _, _, ⟨-, rfl⟩, ⟨⟩, _, ⟨-, rfl⟩, rfl, rfl⟩ := h
    obtain ⟨rfl, -⟩ := GpuBlockPool.validateOwned_ok hvalid
    exact ⟨rfl, hnone, hlength, record, _, rfl, rfl⟩

end BlockManager

end PrismInfer
