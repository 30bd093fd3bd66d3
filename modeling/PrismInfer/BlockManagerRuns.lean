import PrismInfer.KVCompactionLater
import PrismInfer.PageAccounts

/-!
# Runs of the block manager

The states of a block manager that serves sequences: sequences join without pages, its
methods run on one of them, the rest of the engine moves them on, and they leave without
pages.
-/
set_option linter.unusedSectionVars false

namespace PrismInfer
open StateExcept

variable {H : Type} [DecidableEq H] [Digests H]

/-- The methods of the manager that change its state. -/
inductive ManagerCall
  | cachedPrefixTokens
  | allocate
  | deallocate
  | copyOnWrite
  | mayAppend
  | publishComputedBlocks (tokenStart tokenEnd : ℕ)
  | swapOut
  | swapIn
  | storeMultimodalPrefix
  | clearMultimodalPrefixCache
  | commitCompaction (plan : KVCompactionPlan)

namespace ManagerCall
open BlockManager

/-- The call without its result. -/
def run : ManagerCall → ManagerAction H Unit
  | .cachedPrefixTokens => do let _ ← BlockManager.cachedPrefixTokens
  | .allocate => do let _ ← BlockManager.allocate
  | .deallocate => BlockManager.deallocate
  | .copyOnWrite => do let _ ← BlockManager.copyOnWrite
  | .mayAppend => BlockManager.mayAppend
  | .publishComputedBlocks tokenStart tokenEnd =>
    BlockManager.publishComputedBlocks tokenStart tokenEnd
  | .swapOut => do let _ ← BlockManager.swapOut
  | .swapIn => do let _ ← BlockManager.swapIn
  | .storeMultimodalPrefix => do let _ ← BlockManager.storeMultimodalPrefix
  | .clearMultimodalPrefixCache => BlockManager.clearMultimodalPrefixCache
  | .commitCompaction plan => BlockManager.commitCompaction plan

theorem run_steps {others : Others} {t t' : ManagerState H} {call : ManagerCall}
    (hl : Ledger others t) (h : call.run t = .ok () t') :
    ∃ copies, PageSteps true t copies t' := by
  cases call with
  | cachedPrefixTokens =>
    simp only [run, bind_ok, pure_ok] at h
    obtain ⟨_, _, h, -, rfl⟩ := h
    exact ⟨_, cachedPrefixTokens_steps h⟩
  | allocate =>
    simp only [run, bind_ok, pure_ok] at h
    obtain ⟨_, _, h, -, rfl⟩ := h
    exact ⟨_, allocate_steps hl h⟩
  | deallocate => exact ⟨_, deallocate_steps hl h⟩
  | copyOnWrite =>
    simp only [run, bind_ok, pure_ok] at h
    obtain ⟨_, _, h, -, rfl⟩ := h
    exact copyOnWrite_steps hl h
  | mayAppend => exact ⟨_, mayAppend_steps hl h⟩
  | publishComputedBlocks => exact ⟨_, publishComputedBlocks_steps hl h⟩
  | swapOut =>
    simp only [run, bind_ok, pure_ok] at h
    obtain ⟨_, _, h, -, rfl⟩ := h
    exact ⟨_, swapOut_steps hl h⟩
  | swapIn =>
    simp only [run, bind_ok, pure_ok] at h
    obtain ⟨_, _, h, -, rfl⟩ := h
    exact ⟨_, swapIn_steps hl h⟩
  | storeMultimodalPrefix =>
    simp only [run, bind_ok, pure_ok] at h
    obtain ⟨_, _, h, -, rfl⟩ := h
    exact ⟨_, storeMultimodalPrefix_steps hl h⟩
  | clearMultimodalPrefixCache => exact ⟨_, clearMultimodalPrefixCache_steps hl h⟩
  | commitCompaction => exact ⟨_, (commitCompaction_ok hl h).1⟩

end ManagerCall

/-- The states a block manager reaches with the sequences it serves. -/
inductive Serves : BlockManager H → List (Sequence H) → Prop
  | initial (numBlocks blockSize numCpuBlocks : ℕ) (caching blockLevel : Bool) :
      Serves (.initial H numBlocks blockSize numCpuBlocks caching blockLevel) []
  | join {manager left right} {seq : Sequence H} (h : Serves manager (left ++ right))
      (htable : seq.blockTable = []) (hcpu : seq.cpuBlockTable = []) :
      Serves manager (left ++ seq :: right)
  | call {manager manager' left right} {seq seq' : Sequence H} (call : ManagerCall)
      (h : Serves manager (left ++ seq :: right))
      (hcall : call.run ⟨manager, seq⟩ = .ok () ⟨manager', seq'⟩) :
      Serves manager' (left ++ seq' :: right)
  /-- Statuses, tokens and progress change outside the manager. -/
  | advance {manager left right} {seq seq' : Sequence H}
      (h : Serves manager (left ++ seq :: right))
      (htable : seq'.blockTable = seq.blockTable)
      (hcpu : seq'.cpuBlockTable = seq.cpuBlockTable) : Serves manager (left ++ seq' :: right)
  | leave {manager left right} {seq : Sequence H} (h : Serves manager (left ++ seq :: right))
      (htable : seq.blockTable = []) (hcpu : seq.cpuBlockTable = []) :
      Serves manager (left ++ right)

theorem FleetAccounts.of_tables {others : Others} {manager : BlockManager H}
    {seqs seqs' : List (Sequence H)} (h : FleetAccounts others manager seqs)
    (htables : seqs'.flatMap (·.blockTable) = seqs.flatMap (·.blockTable))
    (hcpus : seqs'.flatMap (·.cpuBlockTable) = seqs.flatMap (·.cpuBlockTable)) :
    FleetAccounts others manager seqs' := by
  rw [FleetAccounts, htables, hcpus]
  exact h

/-- In every state a manager reaches, its pages are accounted for. -/
theorem Serves.accounts {manager : BlockManager H} {seqs : List (Sequence H)}
    (h : Serves manager seqs) : FleetAccounts Others.none manager seqs := by
  induction h with
  | initial numBlocks blockSize numCpuBlocks caching blockLevel =>
    exact .initial numBlocks blockSize numCpuBlocks caching blockLevel
  | join _ htable hcpu ih => exact ih.join htable hcpu
  | call call _ hcall ih =>
    obtain ⟨copies, hsteps⟩ := ManagerCall.run_steps ih.focus hcall
    exact ih.unfocus (ih.focus.steps hsteps)
  | advance _ htable hcpu ih =>
    exact ih.of_tables (by simp [htable]) (by simp [hcpu])
  | leave _ htable hcpu ih =>
    exact ih.of_tables (by simp [htable]) (by simp [hcpu])

end PrismInfer
