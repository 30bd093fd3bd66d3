import PrismInfer.KVCompactionCopy
import PrismInfer.KVCompactionSteps
import PrismInfer.PageAccounts
import PrismInfer.PagedPrefillEq
import Mathlib.Data.List.GetD

/-!
# A compaction batch moves the selected rows and nothing else

The pages of a plan have one reference, so they belong to one table and to no entry. That
keeps the routes of a batch apart from each other and from every other row, and it lets
every commit succeed once the copy has run.
-/
set_option linter.unusedSectionVars false

namespace PrismInfer
open StateExcept SlotMove

/-! ### Rows and slots -/

section Slots

variable {table : List ℕ} {blockSize row row' : ℕ}

theorem slotOf_div (hsize : 0 < blockSize) :
    slotOf table blockSize row / blockSize = table.getD (row / blockSize) 0 := by
  rw [slotOf, Nat.mul_comm, Nat.mul_add_div hsize, Nat.div_eq_of_lt (Nat.mod_lt row hsize),
    Nat.add_zero]

theorem slotOf_mod : slotOf table blockSize row % blockSize = row % blockSize := by
  rw [slotOf, Nat.mul_comm, Nat.mul_add_mod, Nat.mod_mod]

/-- A row within a table lies in one of its pages. -/
theorem slotOf_page (hsize : 0 < blockSize) (hrow : row / blockSize < table.length) :
    slotOf table blockSize row / blockSize ∈ table := by
  rw [slotOf_div hsize, List.getD_eq_getElem _ _ hrow]
  exact List.getElem_mem hrow

theorem slotOf_inj (hsize : 0 < blockSize) (hnodup : table.Nodup)
    (hrow : row / blockSize < table.length) (hrow' : row' / blockSize < table.length)
    (h : slotOf table blockSize row = slotOf table blockSize row') : row = row' := by
  have hpage := congrArg (· / blockSize) h
  have hoffset := congrArg (· % blockSize) h
  simp only [slotOf_div hsize, slotOf_mod] at hpage hoffset
  rw [List.getD_eq_getElem _ _ hrow, List.getD_eq_getElem _ _ hrow'] at hpage
  have hdiv : row / blockSize = row' / blockSize := (hnodup.getElem_inj_iff).mp hpage
  rw [← Nat.div_add_mod row blockSize, ← Nat.div_add_mod row' blockSize, hdiv, hoffset]

theorem pagesFor_le {rows pages : ℕ} (hsize : 0 < blockSize) (h : rows ≤ pages * blockSize) :
    pagesFor rows blockSize ≤ pages := by
  have hlt : rows + blockSize - 1 < (pages + 1) * blockSize := by
    rw [Nat.add_mul, one_mul]
    omega
  exact Nat.lt_succ_iff.mp ((Nat.div_lt_iff_lt_mul hsize).mpr hlt)

theorem pagesFor_mono {rows rows' : ℕ} (hsize : 0 < blockSize) (h : rows ≤ rows') :
    pagesFor rows blockSize ≤ pagesFor rows' blockSize :=
  pagesFor_le hsize (h.trans (pagesFor_mul_ge hsize rows'))

/-- `pagesFor` is the least number of pages that hold the rows. -/
theorem pagesFor_isLeast (hsize : 0 < blockSize) (rows : ℕ) :
    IsLeast {pages | rows ≤ pages * blockSize} (pagesFor rows blockSize) :=
  ⟨pagesFor_mul_ge hsize rows, fun _ h => pagesFor_le hsize h⟩

end Slots

/-! ### The copy -/

section Copy

variable {α β : Type} {device : CopyDevice}

theorem compactKvSlots_ok {cache cache' : SlotCache α} {sources destinations : List ℕ}
    (hnodup : destinations.Nodup)
    (h : compactKvSlots device cache sources destinations = .ok cache') :
    cache' = { cache with
      values := fun plane => move sources destinations (cache.values plane) } := by
  simp only [compactKvSlots, validateCompactionInputs, except_bind_ok, ensure_ok] at h
  obtain ⟨_, ⟨_, -, _, -, hlength⟩, h⟩ := h
  split at h
  · simp only [compactFp8KvSlots, except_bind_ok, ensure_ok, except_pure_ok] at h
    obtain ⟨_, -, _, -, _, -, rfl⟩ := h
    congr 1
    funext plane
    -- the programs write the same pairs as the reference, in some order
    have hpairs : (List.range sources.length).map (fun token =>
        (destinations.getD token 0, cache.values plane (sources.getD token 0))) =
        destinations.zip (sources.map (cache.values plane)) := by
      apply List.ext_getElem
      · simp [hlength]
      · intro i hi hi'
        rw [List.length_map, List.length_range] at hi
        have hd : i < destinations.length := hlength ▸ hi
        simp [hi, hd]
    rw [move, ← hpairs]
    refine scatter_perm ?_ ((device.order_perm _).map _)
    rw [hpairs, map_fst_zip_map hlength]
    exact hnodup
  · simp only [indexMove, except_bind_ok, ensure_ok, except_pure_ok] at h
    obtain ⟨_, -, rfl⟩ := h
    rfl

/-- Everything the caches of a runner hold at one slot. -/
def KVStore.row (store : KVStore α β) (slot : ℕ) : (ℕ → α) × Option (ℕ → β) :=
  (fun plane => store.payload.values plane slot,
    store.scales.map fun scales plane => scales.values plane slot)

variable {store store' : KVStore α β} {u : Unit}

theorem copyPlan_ok {plan : KVCompactionPlan} (hnodup : plan.destinationSlots.Nodup)
    (h : KVStore.copyPlan device plan store = .ok u store') :
    store'.row = move plan.sourceSlots plan.destinationSlots store.row := by
  simp only [KVStore.copyPlan, bind_ok, get_ok, readOnly_ok, modify_ok] at h
  obtain ⟨_, _, ⟨rfl, rfl⟩, payload, _, ⟨hpayload, rfl⟩, _, _, rfl, h⟩ := h
  have hvalues := compactKvSlots_ok hnodup hpayload
  have hrow : ∀ scales : Option (SlotCache β), (∀ slot,
      (scales.map fun scales plane => scales.values plane slot) =
        (move plan.sourceSlots plan.destinationSlots store.row slot).2) →
      KVStore.row { store with payload := payload, scales := scales } =
        move plan.sourceSlots plan.destinationSlots store.row := by
    intro scales hscales
    funext slot
    refine Prod.ext (funext fun plane => ?_) (hscales slot)
    rw [move_map (fun row : (ℕ → α) × Option (ℕ → β) => row.1 plane)]
    simp only [KVStore.row, hvalues]
    rfl
  cases hscales : store.scales with
  | none =>
    simp only [hscales, pure_ok, true_and] at h
    have hmoved := hrow none fun slot => by
      rw [move_map (fun row : (ℕ → α) × Option (ℕ → β) => row.2)]
      have hnone : (fun row : (ℕ → α) × Option (ℕ → β) => row.2) ∘ store.row = fun _ => none := by
        funext slot
        simp [KVStore.row, hscales]
      rw [hnone]
      exact move_map (fun _ : ℕ => none) _ _ id slot
    exact h ▸ hmoved
  | some scales =>
    simp only [hscales, bind_ok, readOnly_ok, modify_ok] at h
    obtain ⟨scales', _, ⟨hcopied, rfl⟩, rfl⟩ := h
    refine hrow (some scales') fun slot => ?_
    rw [move_map (fun row : (ℕ → α) × Option (ℕ → β) => row.2)]
    have hsome : (fun row : (ℕ → α) × Option (ℕ → β) => row.2) ∘ store.row =
        some ∘ fun slot plane => scales.values plane slot := by
      funext slot
      simp [KVStore.row, hscales]
    rw [hsome, ← move_map some, Option.map_some, compactKvSlots_ok hnodup hcopied]
    congr 1
    funext plane
    exact (move_map (fun row : ℕ → β => row plane) _ _
      (fun slot plane => scales.values plane slot) slot).symm

/-- The route of the rows of one plan. -/
def KVCompactionPlan.route (plan : KVCompactionPlan) : Route ℕ :=
  (plan.sourceSlots, plan.destinationSlots)

theorem copyPlans_ok {plans : List KVCompactionPlan}
    (hnodup : ∀ plan ∈ plans, plan.destinationSlots.Nodup)
    (h : forEach (KVStore.copyPlan device) plans store = .ok u store') :
    store'.row = moveAll (plans.map KVCompactionPlan.route) store.row := by
  induction plans generalizing store with
  | nil => rw [forEach_nil_ok.mp h]; rfl
  | cons plan plans ih =>
    obtain ⟨mid, hfirst, hrest⟩ := forEach_cons_ok.mp h
    rw [List.map_cons, moveAll_cons, ih (fun p hp => hnodup p (List.mem_cons_of_mem _ hp)) hrest,
      copyPlan_ok (hnodup plan List.mem_cons_self) hfirst]
    rfl

theorem validatePlans_ok {plans : List KVCompactionPlan} {seen : List ℕ}
    (h : store.validatePlans seen plans = .ok u) :
    (∀ plan ∈ plans, plan.seqId ∉ seen) ∧ (plans.map (·.seqId)).Nodup := by
  induction plans generalizing seen with
  | nil => simp
  | cons plan plans ih =>
    unfold KVStore.validatePlans at h
    cases hvalid : plan.validate store.blockSize with
    | error e => simp [hvalid] at h
    | ok _ =>
      simp only [hvalid, except_bind_ok, ensure_ok] at h
      obtain ⟨_, -, _, hfresh, h⟩ := h
      obtain ⟨hseen, hnodup⟩ := ih h
      refine ⟨fun p hp => ?_, List.nodup_cons.mpr ⟨fun hmem => ?_, hnodup⟩⟩
      · rcases List.mem_cons.mp hp with rfl | hp
        · exact hfresh
        · exact fun hmem => hseen p hp (List.mem_cons_of_mem _ hmem)
      · obtain ⟨other, hother, heq⟩ := List.mem_map.mp hmem
        exact hseen other hother (heq ▸ List.mem_cons_self)

theorem compactKvCache_ok {plans : List KVCompactionPlan}
    (hnodup : ∀ plan ∈ plans, plan.destinationSlots.Nodup)
    (h : KVStore.compactKvCache device plans store = .ok u store') :
    (plans.map (·.seqId)).Nodup ∧
      store'.row = moveAll (plans.map KVCompactionPlan.route) store.row := by
  simp only [KVStore.compactKvCache] at h
  split at h
  · next hnil =>
    obtain ⟨-, rfl⟩ := pure_ok.mp h
    subst hnil
    exact ⟨List.nodup_nil, rfl⟩
  · simp only [bind_ok, get_ok, require_ok, readOnly_ok] at h
    obtain ⟨_, _, ⟨rfl, rfl⟩, _, _, ⟨-, rfl⟩, _, _, ⟨hvalid, rfl⟩, h⟩ := h
    exact ⟨(validatePlans_ok hvalid).2, copyPlans_ok hnodup h⟩

end Copy

/-! ### Built plans -/

namespace BlockManager

variable {H : Type} [DecidableEq H] [Digests H]

/-- What `build_plan` has checked, and the plan it made of it. -/
structure BuiltPlan (manager : BlockManager H) (seq : Sequence H) (kvDtype : String)
    (plan : KVCompactionPlan) : Prop where
  size : seq.blockSize = manager.blockSize
  dense : seq.kvLayout = none
  atPrompt : seq.numTokens = seq.numPromptTokens
  uncached : seq.numCachedTokens = 0
  resident : seq.cpuBlockTable = []
  table : seq.blockTable.length = seq.numBlocks
  nodup : seq.blockTable.Nodup
  alone : ∀ id ∈ seq.blockTable, manager.refCount id = 1
  boundary : compactedLogicalLen seq < seq.numPromptTokens →
    seq.request.multimodalPrefixBoundary = some (compactedLogicalLen seq)
  record : ∃ record, seq.visualPruningDecisionRecord = some record ∧
    plan = compactionPlan manager.blockSize seq kvDtype record plan.retainedOriginalPositions
  nonempty : plan.retainedOriginalPositions ≠ []
  sorted : SortedUnique plan.retainedOriginalPositions
  inside : ∀ p ∈ plan.retainedOriginalPositions, p < compactedLogicalLen seq
  valid : plan.validate manager.blockSize = .ok ()

theorem built_of_buildCompactionPlan {t t' : ManagerState H} {kvDtype : String}
    {plan : KVCompactionPlan} (h : buildCompactionPlan kvDtype t = .ok (some plan) t') :
    BuiltPlan t.manager t.seq kvDtype plan := by
  simp only [buildCompactionPlan, bind_ok, query_ok, get_ok, assertSequenceBlockSize_ok] at h
  obtain ⟨_, _, ⟨hsize, rfl⟩, _, _, ⟨rfl, rfl⟩, h⟩ := h
  cases hrecord : t.seq.visualPruningDecisionRecord with
  | none => simp [hrecord] at h
  | some record =>
    simp only [hrecord, bind_ok, query_ok, gpu_ok, require_ok, readOnly_ok, pure_ok,
      validateCompactable, except_bind_ok, ensure_ok, Option.some.injEq] at h
    obtain ⟨_, _, ⟨⟨_, hnone, _, hlength, _, hcached, _, hcpu, htable⟩, rfl⟩, _, _,
      ⟨p₀, hvalid, rfl⟩, _, _, ⟨hshared, rfl⟩, _, _, ⟨hpart, rfl⟩, retained, _,
      ⟨hretained, rfl⟩, _, _, ⟨hnonempty, rfl⟩, ⟨⟩, _, ⟨hplan, rfl⟩, rfl, rfl⟩ := h
    obtain ⟨rfl, hnodup, -⟩ := GpuBlockPool.validateOwned_ok hvalid
    have hsorted := hplan
    simp only [KVCompactionPlan.validate, KVCompactionPlan.validateRetainedPositions,
      except_bind_ok, ensure_ok] at hsorted
    obtain ⟨_, -, _, ⟨_, hsorted, -⟩, -⟩ := hsorted
    exact {
      size := hsize
      dense := hnone
      atPrompt := hlength
      uncached := hcached
      resident := hcpu
      table := htable
      nodup := hnodup
      alone := fun id hid => by
        have := List.filter_eq_nil_iff.mp hshared id hid
        simpa using this
      boundary := fun hlt => (hpart hlt).2
      record := ⟨record, hrecord, rfl⟩
      nonempty := hnonempty
      sorted := hsorted
      inside := fun p hp => by simpa using (List.mem_filter.mp hp).2
      valid := hplan }

/-- Rows of the whole prompt after the compaction. -/
def finalRows (seq : Sequence H) (plan : KVCompactionPlan) : ℕ :=
  plan.retainedOriginalPositions.length + (seq.numPromptTokens - compactedLogicalLen seq)

theorem compactedLogicalLen_le (seq : Sequence H) :
    compactedLogicalLen seq ≤ seq.numPromptTokens := by
  unfold compactedLogicalLen
  split
  · exact le_rfl
  · next hnot =>
    have hcomputed : ¬ seq.isPrefillFinished = true := fun h => hnot (.inl h)
    simp only [Sequence.isPrefillFinished, decide_eq_true_eq] at hcomputed
    omega

theorem length_le_of_sorted {positions : List ℕ} {n : ℕ} (hsorted : SortedUnique positions)
    (hlt : ∀ p ∈ positions, p < n) : positions.length ≤ n := by
  have hsub : positions ⊆ List.range n := fun p hp => List.mem_range.mpr (hlt p hp)
  have := (List.Nodup.subperm (hsorted.imp fun h => h.ne) hsub).length_le
  rwa [List.length_range] at this

namespace BuiltPlan

variable {manager : BlockManager H} {seq : Sequence H} {kvDtype : String}
  {plan : KVCompactionPlan} (h : BuiltPlan manager seq kvDtype plan)

include h

theorem size_pos : 0 < manager.blockSize := by
  have hvalid := h.valid
  simp only [KVCompactionPlan.validate, KVCompactionPlan.validateLengths, except_bind_ok,
    ensure_ok] at hvalid
  obtain ⟨_, ⟨_, hpos, -⟩, -⟩ := hvalid
  exact hpos

theorem length_le : plan.retainedOriginalPositions.length ≤ compactedLogicalLen seq :=
  length_le_of_sorted h.sorted h.inside

theorem finalRows_le : finalRows seq plan ≤ seq.numTokens := by
  have := h.length_le
  have := compactedLogicalLen_le seq
  rw [h.atPrompt, finalRows]
  omega

theorem seqId : plan.seqId = seq.request.seqId := by
  obtain ⟨_, _, hplan⟩ := h.record
  rw [hplan]
  rfl

theorem oldBlockTable : plan.oldBlockTable = seq.blockTable := by
  obtain ⟨_, _, hplan⟩ := h.record
  rw [hplan]
  rfl

theorem newBlockTable :
    plan.newBlockTable = seq.blockTable.take (pagesFor (finalRows seq plan) manager.blockSize) := by
  obtain ⟨_, _, hplan⟩ := h.record
  rw [hplan]
  rfl

theorem releasedBlockIds : plan.releasedBlockIds =
    seq.blockTable.drop (pagesFor (finalRows seq plan) manager.blockSize) := by
  obtain ⟨_, _, hplan⟩ := h.record
  rw [hplan]
  rfl

theorem sourceSlots : plan.sourceSlots =
    plan.retainedOriginalPositions.map (slotOf seq.blockTable manager.blockSize) := by
  obtain ⟨_, _, hplan⟩ := h.record
  rw [hplan]
  rfl

theorem destinationSlots : plan.destinationSlots =
    (List.range plan.retainedOriginalPositions.length).map
      (slotOf plan.newBlockTable manager.blockSize) := by
  obtain ⟨_, _, hplan⟩ := h.record
  rw [hplan]
  rfl

theorem pages_le : pagesFor (finalRows seq plan) manager.blockSize ≤ seq.blockTable.length := by
  rw [h.table, Sequence.numBlocks, h.size]
  exact pagesFor_mono h.size_pos h.finalRows_le

theorem length_newBlockTable :
    plan.newBlockTable.length = pagesFor (finalRows seq plan) manager.blockSize := by
  rw [h.newBlockTable, List.length_take, min_eq_left h.pages_le]

/-- A retained position is a row of the table. -/
theorem source_inside {p : ℕ} (hp : p ∈ plan.retainedOriginalPositions) :
    p / manager.blockSize < seq.blockTable.length := by
  rw [h.table, Sequence.numBlocks, h.size, h.atPrompt]
  exact row_div_lt_pagesFor h.size_pos ((h.inside p hp).trans_le (compactedLogicalLen_le seq))

/-- A row in front is a row of the kept part of the table. -/
theorem destination_inside {i : ℕ} (hi : i < plan.retainedOriginalPositions.length) :
    i / manager.blockSize < plan.newBlockTable.length := by
  rw [h.length_newBlockTable]
  exact row_div_lt_pagesFor h.size_pos (hi.trans_le (Nat.le_add_right _ _))

theorem new_subset {id : ℕ} (hid : id ∈ plan.newBlockTable) : id ∈ seq.blockTable := by
  rw [h.newBlockTable] at hid
  exact List.mem_of_mem_take hid

theorem source_page {slot : ℕ} (hslot : slot ∈ plan.sourceSlots) :
    slot / manager.blockSize ∈ seq.blockTable := by
  rw [h.sourceSlots] at hslot
  obtain ⟨p, hp, rfl⟩ := List.mem_map.mp hslot
  exact slotOf_page h.size_pos (h.source_inside hp)

theorem destination_page {slot : ℕ} (hslot : slot ∈ plan.destinationSlots) :
    slot / manager.blockSize ∈ seq.blockTable := by
  rw [h.destinationSlots] at hslot
  obtain ⟨i, hi, rfl⟩ := List.mem_map.mp hslot
  exact h.new_subset (slotOf_page h.size_pos (h.destination_inside (List.mem_range.mp hi)))

theorem route_proper : plan.route.Proper := by
  constructor
  · simp only [KVCompactionPlan.route, h.sourceSlots, h.destinationSlots, List.length_map,
      List.length_range]
  · have hnodup : plan.newBlockTable.Nodup := by
      rw [h.newBlockTable]
      exact h.nodup.sublist (List.take_sublist _ _)
    rw [KVCompactionPlan.route, h.destinationSlots]
    refine List.nodup_range.map_on fun i hi j hj heq => ?_
    rw [List.mem_range] at hi hj
    exact slotOf_inj h.size_pos hnodup (h.destination_inside hi) (h.destination_inside hj) heq

end BuiltPlan

/-- Plans built for members of a batch, beside the other live sequences. -/
structure CompactionBatch (manager : BlockManager H) (live seqs : List (Sequence H))
    (kvDtype : String) (plans : List KVCompactionPlan) : Prop where
  accounts : FleetAccounts (Others.none.add live) manager seqs
  ids : (seqs.map (·.request.seqId)).Nodup
  built : ∀ plan ∈ plans, ∃ seq ∈ seqs,
    buildCompactionPlan kvDtype ⟨manager, seq⟩ = .ok (some plan) ⟨manager, seq⟩

namespace CompactionBatch

variable {manager : BlockManager H} {live seqs : List (Sequence H)} {kvDtype : String}
  {plans : List KVCompactionPlan}

/-- A page with one reference, held by a member of the batch, is nowhere else. -/
theorem alone (h : CompactionBatch manager live seqs kvDtype plans) {seq : Sequence H}
    (hseq : seq ∈ seqs) {id : ℕ} (hid : id ∈ seq.blockTable) (hone : manager.refCount id = 1) :
    (∀ other ∈ live, id ∉ other.blockTable) ∧ id ∉ manager.multimodalPrefixCache.pages ∧
      ∀ other ∈ seqs, other ≠ seq → id ∉ other.blockTable := by
  have haccounts := h.accounts
  obtain ⟨left, right, rfl⟩ := List.append_of_mem hseq
  obtain ⟨hothers, hcache, hrest⟩ := haccounts.alone hid hone
  refine ⟨fun other hother hmem => ?_, hcache, fun other hother hne => hrest other ?_⟩
  · have hcount : (live.flatMap (·.blockTable)).count id = 0 := (Nat.zero_add _).symm.trans hothers
    exact List.count_eq_zero.mp hcount (List.mem_flatMap.mpr ⟨other, hother, hmem⟩)
  · simpa [hne] using hother

theorem seq_eq (h : CompactionBatch manager live seqs kvDtype plans) {seq other : Sequence H}
    (hseq : seq ∈ seqs) (hother : other ∈ seqs) (hid : seq.request.seqId = other.request.seqId) :
    seq = other :=
  List.inj_on_of_nodup_map h.ids hseq hother hid

/-- The plans of different members have different pages. -/
theorem apart (h : CompactionBatch manager live seqs kvDtype plans)
    (hnodup : (plans.map (·.seqId)).Nodup) : Apart (plans.map KVCompactionPlan.route) := by
  rw [Apart, List.pairwise_map]
  refine (List.pairwise_map.mp hnodup).imp_of_mem fun {p q} hp hq hne => ?_
  obtain ⟨seq, hseq, hbuilt⟩ := h.built p hp
  obtain ⟨other, hother, hbuilt'⟩ := h.built q hq
  have hp := built_of_buildCompactionPlan hbuilt
  have hq := built_of_buildCompactionPlan hbuilt'
  have hdiffer : other ≠ seq := by
    rintro rfl
    exact hne (hp.seqId.trans hq.seqId.symm)
  have hpage : ∀ {slot : ℕ}, slot / manager.blockSize ∈ seq.blockTable →
      slot / manager.blockSize ∉ other.blockTable := fun hmem =>
    (h.alone hseq hmem (hp.alone _ hmem)).2.2 other hother hdiffer
  refine ⟨fun slot hslot => ⟨fun hmem => ?_, fun hmem => ?_⟩, fun slot hslot hmem => ?_⟩
  · exact hpage (hp.destination_page hslot) (hq.source_page hmem)
  · exact hpage (hp.destination_page hslot) (hq.destination_page hmem)
  · exact hpage (hp.source_page hmem) (hq.destination_page hslot)

theorem proper (h : CompactionBatch manager live seqs kvDtype plans) :
    ∀ route ∈ plans.map KVCompactionPlan.route, route.Proper := by
  intro route hroute
  obtain ⟨plan, hplan, rfl⟩ := List.mem_map.mp hroute
  obtain ⟨seq, -, hbuilt⟩ := h.built plan hplan
  exact (built_of_buildCompactionPlan hbuilt).route_proper

section Rows

variable {α β : Type} {device : CopyDevice} {store store' : KVStore α β} {u : Unit}

theorem copied (h : CompactionBatch manager live seqs kvDtype plans)
    (hcopy : KVStore.compactKvCache device plans store = .ok u store') :
    (plans.map (·.seqId)).Nodup ∧
      store'.row = moveAll (plans.map KVCompactionPlan.route) store.row :=
  compactKvCache_ok (fun plan hplan =>
    (h.proper plan.route (List.mem_map_of_mem hplan)).2) hcopy

/-- Row `i` of the compacted table holds the row of retained position `i`. -/
theorem selected (h : CompactionBatch manager live seqs kvDtype plans)
    (hcopy : KVStore.compactKvCache device plans store = .ok u store') {plan : KVCompactionPlan}
    (hplan : plan ∈ plans) {seq : Sequence H} (hbuilt : BuiltPlan manager seq kvDtype plan)
    {i : ℕ} (hi : i < plan.retainedOriginalPositions.length) :
    store'.row (slotOf plan.newBlockTable manager.blockSize i) =
      store.row (slotOf seq.blockTable manager.blockSize plan.retainedOriginalPositions[i]) := by
  obtain ⟨hnodup, hrow⟩ := h.copied hcopy
  have hs : i < plan.sourceSlots.length := by rw [hbuilt.sourceSlots, List.length_map]; exact hi
  have hd : i < plan.destinationSlots.length := by
    rw [hbuilt.destinationSlots, List.length_map, List.length_range]
    exact hi
  have hmoved := moveAll_getElem (f := store.row) h.proper (h.apart hnodup)
    (List.mem_map_of_mem hplan) (i := i) hs hd
  simp only [KVCompactionPlan.route, hbuilt.sourceSlots, hbuilt.destinationSlots,
    List.getElem_map, List.getElem_range] at hmoved
  rw [hrow]
  exact hmoved

/-- A page that no compacted table holds keeps its rows. -/
theorem kept (h : CompactionBatch manager live seqs kvDtype plans)
    (hcopy : KVStore.compactKvCache device plans store = .ok u store') {slot : ℕ}
    (hpage : ∀ plan ∈ plans, ∀ seq ∈ seqs, plan.seqId = seq.request.seqId →
      slot / manager.blockSize ∉ seq.blockTable) : store'.row slot = store.row slot := by
  rw [(h.copied hcopy).2]
  refine moveAll_of_notMem h.proper fun route hroute hmem => ?_
  obtain ⟨plan, hplan, rfl⟩ := List.mem_map.mp hroute
  obtain ⟨seq, hseq, hbuilt⟩ := h.built plan hplan
  have hbuilt := built_of_buildCompactionPlan hbuilt
  exact hpage plan hplan seq hseq hbuilt.seqId (hbuilt.destination_page hmem)

end Rows

end CompactionBatch

end BlockManager

end PrismInfer
