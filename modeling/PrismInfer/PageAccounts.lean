import PrismInfer.PageStep

/-!
# The accounts of all sequences, seen from one

A method runs on one sequence, the accounts are about all of them. From one sequence, the
others are whatever else holds references.
-/
set_option linter.unusedSectionVars false

namespace PrismInfer

variable {H : Type}

/-- The page references of further sequences. -/
def Others.add (others : Others) (seqs : List (Sequence H)) : Others where
  refs := fun b => others.refs b + (seqs.flatMap (·.blockTable)).count b
  cpuPages := others.cpuPages ∪ (seqs.flatMap (·.cpuBlockTable)).toFinset

/-- Nothing but sequences and entries holds pages. -/
def Others.none : Others := ⟨fun _ => 0, ∅⟩

variable [DecidableEq H] [Digests H]

/-- The accounts of a manager and all the sequences it serves. -/
abbrev FleetAccounts (others : Others) (manager : BlockManager H) (seqs : List (Sequence H)) :
    Prop :=
  Accounts others manager.gpuPool manager.cpuPool manager.multimodalPrefixCache
    manager.multimodalPrefixCacheBlocks manager.multimodalPrefixCacheMaxBlocks
    (seqs.flatMap (·.blockTable)) (seqs.flatMap (·.cpuBlockTable))

namespace FleetAccounts

variable {others : Others} {manager manager' : BlockManager H} {left right : List (Sequence H)}
  {seq seq' : Sequence H}

theorem focus (h : FleetAccounts others manager (left ++ seq :: right)) :
    Ledger (others.add (left ++ right)) ⟨manager, seq⟩ where
  gpu := h.gpu
  cpu := h.cpu
  refs := fun b => by
    have := h.refs b
    simp only [List.flatMap_append, List.flatMap_cons, List.count_append] at this
    simp only [Others.add, List.flatMap_append, List.count_append, ManagerState.pool,
      ManagerState.table, ManagerState.cache]
    omega
  keys := h.keys
  total := h.total
  limit := h.limit
  cpu_nodup := by
    have := h.cpu_nodup
    simp only [List.flatMap_append, List.flatMap_cons] at this
    exact (List.nodup_append.mp (List.nodup_append.mp this).2.1).1
  cpu_used := fun b => by
    have := h.cpu_used b
    simp only [List.flatMap_append, List.flatMap_cons, List.mem_append] at this
    simp only [Others.add, List.flatMap_append, Finset.mem_union, List.mem_toFinset,
      List.mem_append]
    tauto
  cpu_alone := fun b hb hother => by
    have hnodup := h.cpu_nodup
    have halone := h.cpu_alone b (by simp [hb])
    simp only [List.flatMap_append, List.flatMap_cons, List.nodup_append] at hnodup
    simp only [Others.add, List.flatMap_append, Finset.mem_union, List.mem_toFinset,
      List.mem_append] at hother
    rcases hother with hother | hleft | hright
    · exact halone hother
    · exact hnodup.2.2 b hleft b (List.mem_append_left _ hb) rfl
    · exact hnodup.2.1.2.2 b hb b hright rfl

/-- What a method leaves of one sequence takes its place among all. -/
theorem unfocus (h : FleetAccounts others manager (left ++ seq :: right))
    (hl : Ledger (others.add (left ++ right)) ⟨manager', seq'⟩) :
    FleetAccounts others manager' (left ++ seq' :: right) where
  gpu := hl.gpu
  cpu := hl.cpu
  refs := fun b => by
    have := hl.refs b
    simp only [Others.add, List.flatMap_append, List.count_append] at this
    simp only [List.flatMap_append, List.flatMap_cons, List.count_append]
    simp only [ManagerState.pool, ManagerState.table, ManagerState.cache] at this
    omega
  keys := hl.keys
  total := hl.total
  limit := hl.limit
  cpu_nodup := by
    have hnodup := h.cpu_nodup
    have halone : ∀ b ∈ seq'.cpuBlockTable, b ∉ _ := hl.cpu_alone
    simp only [List.flatMap_append, List.flatMap_cons, List.nodup_append, List.mem_append]
      at hnodup ⊢
    simp only [Others.add, List.flatMap_append, Finset.mem_union, List.mem_toFinset,
      List.mem_append, not_or] at halone
    obtain ⟨hleft, ⟨-, hright, -⟩, hbetween⟩ := hnodup
    refine ⟨hleft, ⟨hl.cpu_nodup, hright, fun b hb c hc hbc => ?_⟩, fun b hb c hc hbc => ?_⟩
    · exact (halone b hb).2.2 (hbc ▸ hc)
    · rcases hc with hc | hc
      · exact (halone c hc).2.1 (hbc ▸ hb)
      · exact hbetween b hb c (.inr hc) hbc
  cpu_used := fun b => by
    have hused : b ∈ manager'.cpuPool.usedBlockIds ↔ _ := hl.cpu_used b
    simp only [Others.add, List.flatMap_append, Finset.mem_union, List.mem_toFinset,
      List.mem_append] at hused
    simp only [List.flatMap_append, List.flatMap_cons, List.mem_append]
    tauto
  cpu_alone := fun b hb hother => by
    have halone : ∀ b ∈ seq'.cpuBlockTable, b ∉ _ := hl.cpu_alone
    simp only [Others.add, Finset.mem_union, not_or] at halone
    simp only [List.flatMap_append, List.flatMap_cons, List.mem_append] at hb
    rcases hb with hb | hb | hb
    · exact h.cpu_alone b (by simp [hb]) hother
    · exact (halone b hb).1 hother
    · exact h.cpu_alone b (by simp [hb]) hother

theorem initial (numBlocks blockSize numCpuBlocks : ℕ) (caching blockLevel : Bool) :
    FleetAccounts Others.none
      (BlockManager.initial H numBlocks blockSize numCpuBlocks caching blockLevel) [] where
  gpu := GpuBlockPool.initial_wellFormed _ _
  cpu := CpuBlockPool.initial_wellFormed _
  refs := fun _ => rfl
  keys := List.nodup_nil
  total := rfl
  limit := Nat.zero_le _
  cpu_nodup := List.nodup_nil
  cpu_used := fun b => by simp [BlockManager.initial, CpuBlockPool.initial, Others.none]
  cpu_alone := by simp

/-- A sequence without pages joins the others. -/
theorem join (h : FleetAccounts others manager (left ++ right)) (htable : seq.blockTable = [])
    (hcpu : seq.cpuBlockTable = []) : FleetAccounts others manager (left ++ seq :: right) := by
  have htables : (left ++ seq :: right).flatMap (·.blockTable) =
      (left ++ right).flatMap (·.blockTable) := by simp [htable]
  have hcpus : (left ++ seq :: right).flatMap (·.cpuBlockTable) =
      (left ++ right).flatMap (·.cpuBlockTable) := by simp [hcpu]
  rw [FleetAccounts, htables, hcpus]
  exact h

/-- A page with one reference, held by one of the sequences, is nowhere else. -/
theorem alone (h : FleetAccounts others manager (left ++ seq :: right)) {id : ℕ}
    (hid : id ∈ seq.blockTable) (hone : manager.refCount id = 1) :
    others.refs id = 0 ∧ id ∉ manager.multimodalPrefixCache.pages ∧
      ∀ other ∈ left ++ right, id ∉ other.blockTable := by
  have hrefs := h.focus.refs id
  have hpos := List.count_pos_iff.mpr hid
  simp only [BlockManager.refCount] at hone
  simp only [ManagerState.pool, ManagerState.table, ManagerState.cache, Others.add, hone] at hrefs
  have hzero : ((left ++ right).flatMap (·.blockTable)).count id = 0 := by omega
  refine ⟨by omega, List.count_eq_zero.mp (by omega), fun other hother hmem => ?_⟩
  exact List.count_eq_zero.mp hzero (List.mem_flatMap.mpr ⟨other, hother, hmem⟩)

end FleetAccounts

end PrismInfer
