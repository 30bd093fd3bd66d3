import PrismInfer.BlockManagerRuns
import PrismInfer.ImageSpans
import PrismInfer.SwapSpecs

/-!
# Hashed pages are full

The runs of a manager as its callers drive it: publication never goes beyond the tokens a
sequence has. In every state of such a run a page with a hash carries a full block of tokens,
and a page without one carries nothing.
-/
set_option linter.unusedSectionVars false

namespace PrismInfer
open StateExcept EveryRun Relation

/-! ## Media positions of one block -/

/-- Spans in order, which may be empty, from `lower` on. -/
def Ascending : ℕ → List (ℕ × ℕ) → Prop
  | _, [] => True
  | lower, span :: spans => lower ≤ span.1 ∧ span.1 ≤ span.2 ∧ Ascending span.2 spans

theorem Ascending.mono {lower lower' : ℕ} {spans : List (ℕ × ℕ)} (h : Ascending lower spans)
    (hle : lower' ≤ lower) : Ascending lower' spans := by
  cases spans with
  | nil => trivial
  | cons span spans => exact ⟨hle.trans h.1, h.2⟩

theorem Ascending.of_ordered {lower : ℕ} {spans : List (ℕ × ℕ)}
    (h : Spans.Ordered lower spans) : Ascending lower spans := by
  induction spans generalizing lower with
  | nil => trivial
  | cons span spans ih => exact ⟨h.1, h.2.1.le, ih h.2.2⟩

/-- The parts of ordered spans inside a window are no longer than the window. -/
theorem Ascending.sum_overlap_le {lower start stop : ℕ} {spans : List (ℕ × ℕ)}
    (h : Ascending lower spans) (hle : max start lower ≤ max stop (max start lower)) :
    (spans.map fun span => min stop span.2 - max start span.1).sum ≤ stop - max start lower := by
  induction spans generalizing lower with
  | nil => exact Nat.zero_le _
  | cons span spans ih =>
    obtain ⟨hlower, hspan, hrest⟩ := h
    have hlater := ih hrest (le_max_right _ _)
    rw [List.map_cons, List.sum_cons]
    omega

namespace Request

theorem cutRun_ascending {stop cursor lower : ℕ} {counts left : List ℕ} {spans : List (ℕ × ℕ)}
    (hcut : cutRun stop cursor counts = some (spans, left)) (hlower : lower ≤ cursor)
    (hcursor : cursor ≤ stop) {rest : List (ℕ × ℕ)} (hrest : Ascending stop rest) :
    Ascending lower (spans ++ rest) := by
  induction counts generalizing cursor lower spans with
  | nil =>
    unfold cutRun at hcut
    split at hcut
    · exact absurd hcut (by simp)
    · simp only [Option.some.injEq, Prod.mk.injEq] at hcut
      obtain ⟨rfl, rfl⟩ := hcut
      exact hrest.mono (by omega)
  | cons count counts ih =>
    unfold cutRun at hcut
    split at hcut
    · split at hcut
      · exact absurd hcut (by simp)
      · obtain ⟨⟨later, left'⟩, hlater, heq⟩ := Option.map_eq_some_iff.mp hcut
        simp only [Prod.mk.injEq] at heq
        obtain ⟨rfl, rfl⟩ := heq
        rw [List.cons_append]
        exact ⟨hlower, Nat.le_add_right _ _, ih hlater le_rfl (by omega)⟩
    · simp only [Option.some.injEq, Prod.mk.injEq] at hcut
      obtain ⟨rfl, rfl⟩ := hcut
      exact hrest.mono (by omega)

theorem cutRuns_ascending {lower : ℕ} {runs spans : List (ℕ × ℕ)} {counts : List ℕ}
    (hruns : Ascending lower runs) (hcut : cutRuns runs counts = some spans) :
    Ascending lower spans := by
  induction runs generalizing lower counts spans with
  | nil =>
    unfold cutRuns at hcut
    split at hcut
    · obtain rfl := Option.some.inj hcut
      trivial
    · exact absurd hcut (by simp)
  | cons run runs ih =>
    obtain ⟨hlower, hrun, hrest⟩ := hruns
    unfold cutRuns at hcut
    split at hcut
    · exact absurd hcut (by simp)
    · next first left hfirst =>
      obtain ⟨later, hlater, rfl⟩ := Option.map_eq_some_iff.mp hcut
      exact cutRun_ascending hfirst hlower hrun (ih hrest hlater)

variable {req : Request}

theorem imageTokenSpans_ascending {spans : List (ℕ × ℕ)} (h : req.imageTokenSpans = some spans) :
    Ascending 0 spans := by
  unfold imageTokenSpans at h
  split at h
  · next id payload hid hpayload =>
    split at h
    · exact absurd h (by simp)
    · refine cutRuns_ascending ?_ h
      unfold imagePadRuns
      rw [hid]
      exact .of_ordered (padRunsFrom_woven id 0 req.promptTokenIds).1.ordered
  · exact absurd h (by simp)

/-- A block has no more media positions than rows. -/
theorem length_mmTokenHashesForBlock_le (H : Type) [Digests H] (blockIndex blockSize : ℕ) :
    ((req.mmTokenHashesForBlock H blockIndex blockSize).getD []).length ≤ blockSize := by
  unfold mmTokenHashesForBlock
  split
  · next hashes id spans hhashes hid hspans =>
    split
    · exact Nat.zero_le _
    · next hne =>
      simp only
      split
      · exact Nat.zero_le _
      · rw [Option.getD_some, List.length_flatMap]
        simp only [List.length_map, List.length_range']
        have hlengths : spans.length = hashes.length := not_not.mp (not_or.mp hne).2
        have hfirst : (spans.zip hashes).map (fun item => min (blockIndex * blockSize + blockSize)
              item.1.2 - max (blockIndex * blockSize) item.1.1) =
            spans.map fun span => min (blockIndex * blockSize + blockSize) span.2 -
              max (blockIndex * blockSize) span.1 := by
          conv_rhs => rw [← List.map_fst_zip hlengths.le]
          rw [List.map_map]
          rfl
        rw [hfirst]
        refine ((imageTokenSpans_ascending hspans).sum_overlap_le (le_max_right _ _)).trans ?_
        omega
  · exact Nat.zero_le _

end Request

variable {H : Type} [DecidableEq H] [Digests H]

/-! ## Tidy pages -/

/-- Without a hash nothing; with one a full block. -/
def TidyContent (blockSize : ℕ) : Option H × List ℕ × Option MmTokenHashes → Prop
  | (none, tokenIds, mm) => tokenIds = [] ∧ mm = none
  | (some _, tokenIds, mm) => tokenIds.length = blockSize ∧ (mm.getD []).length ≤ blockSize

/-- Every page of the manager carries a full block or nothing. -/
def BlockManager.Tidy (manager : BlockManager H) : Prop :=
  ∀ id, TidyContent manager.blockSize (manager.gpuPool.blocks id).content

theorem BlockManager.Tidy.of_forgets {manager manager' : BlockManager H} (h : manager.Tidy)
    (hsize : manager'.blockSize = manager.blockSize)
    (hforgets : manager.gpuPool.Forgets manager'.gpuPool) : manager'.Tidy := by
  intro id
  rw [hsize]
  rcases hforgets id with hsame | hnone
  · rw [hsame]
    exact h id
  · rw [hnone]
    exact ⟨rfl, rfl⟩

theorem validateSwapBlock_of_tidy {blockSize : ℕ}
    {content : Option H × List ℕ × Option MmTokenHashes} (h : TidyContent blockSize content) :
    BlockManager.validateSwapBlock blockSize content = .ok () := by
  obtain ⟨blockHash, tokenIds, mm⟩ := content
  cases blockHash with
  | none =>
    unfold BlockManager.validateSwapBlock
    exact ensure_ok.mpr h.1
  | some blockHash =>
    unfold BlockManager.validateSwapBlock
    exact except_bind_ok.mpr ⟨(), ensure_ok.mpr h.1, ensure_ok.mpr h.2⟩

theorem tidy_of_validateSwapBlock {blockSize : ℕ} {blockHash : H} {tokenIds : List ℕ}
    {mm : Option MmTokenHashes}
    (h : BlockManager.validateSwapBlock blockSize (some blockHash, tokenIds, mm) = .ok ()) :
    TidyContent blockSize (some blockHash, tokenIds, mm) := by
  unfold BlockManager.validateSwapBlock at h
  obtain ⟨_, hlength, hmm⟩ := except_bind_ok.mp h
  exact ⟨ensure_ok.mp hlength, ensure_ok.mp hmm⟩

namespace BlockManager
open GpuBlockPool

variable {others : Others} {t t' : ManagerState H} {u : Unit}

/-- The tokens of a block that ends within the sequence. -/
theorem length_blockTokens {seq : Sequence H} {i : ℕ}
    (h : (i + 1) * seq.blockSize ≤ seq.numTokens) : (seq.blockTokens i).length = seq.blockSize := by
  unfold Sequence.numTokens at h
  rw [Sequence.blockTokens, List.length_take, List.length_drop]
  rw [Nat.succ_mul] at h
  omega

theorem publishLoop_tidy {chain : Option H} {indices : List ℕ} (hl : Ledger others t)
    (hhash : t.manager.hashableSequence t.seq = true) (htidy : t.manager.Tidy)
    (hfull : ∀ i ∈ indices, i < t.table.length →
      (t.seq.blockTokens i).length = t.manager.blockSize)
    (h : publishLoop chain indices t = .ok u t') : t'.manager.Tidy := by
  induction indices generalizing t chain with
  | nil =>
    obtain ⟨-, rfl⟩ := pure_ok.mp h
    exact htidy
  | cons i indices ih =>
    simp only [publishLoop, bind_ok, query_ok, readSeq_ok] at h
    obtain ⟨⟨blockHash, mm⟩, _, ⟨hblock, rfl⟩, _, _, ⟨rfl, rfl⟩, tokenIds, _,
      ⟨htokens, rfl⟩, h⟩ := h
    cases hid : t.seq.blockTable[i]? with
    | none => simp [hid] at h
    | some id =>
      simp only [hid, bind_ok, gpu_ok] at h
      obtain ⟨_, _, ⟨pool, hregister, rfl⟩, hrest⟩ := h
      obtain ⟨rfl, -, hmm⟩ := blockHashAndMm_ok hhash hblock
      obtain ⟨hw, hreg⟩ := registerHash_ok hl.gpu hregister
      have hfirst : PageSteps true t [] (t.setPool pool) :=
        .single (.register (List.mem_of_getElem? hid) hreg hw)
      refine ih (hl.steps hfirst) hhash ?_
        (fun j hj => hfull j (List.mem_cons_of_mem i hj)) hrest
      intro page
      change TidyContent t.manager.blockSize (pool.blocks page).content
      rw [hreg.blocks]
      by_cases hpage : page = id
      · subst hpage
        rw [Function.update_self]
        simp only [Sequence.block, except_bind_ok, ensure_ok, except_pure_ok] at htokens
        obtain ⟨-, -, rfl⟩ := htokens
        constructor
        · exact hfull i List.mem_cons_self (List.getElem?_eq_some_iff.mp hid).1
        · rw [hmm]
          split
          · exact Request.length_mmTokenHashesForBlock_le H i t.manager.blockSize
          · exact Nat.zero_le _
      · rw [Function.update_of_ne hpage]
        exact htidy page

/-- Publication up to the last token registers full blocks only. -/
theorem publishComputedBlocks_tidy {tokenStart tokenEnd : ℕ} (hl : Ledger others t)
    (htidy : t.manager.Tidy) (hsize : t.table ≠ [] → t.seq.blockSize = t.manager.blockSize)
    (hwithin : tokenEnd ≤ t.seq.numTokens)
    (h : publishComputedBlocks tokenStart tokenEnd t = .ok u t') : t'.manager.Tidy := by
  simp only [publishComputedBlocks, bind_ok, get_ok] at h
  obtain ⟨_, _, ⟨rfl, rfl⟩, h⟩ := h
  split at h
  · exact (pure_ok.mp h).2 ▸ htidy
  · next hgo =>
    simp only [bind_ok, query_ok] at h
    obtain ⟨chain, _, ⟨-, rfl⟩, h⟩ := h
    simp only [not_or] at hgo
    refine publishLoop_tidy hl (by simpa using hgo.2.2.2) htidy ?_ h
    intro i hi hlt
    rw [List.mem_range'_1] at hi
    have heq := hsize (List.ne_nil_of_length_pos (Nat.zero_lt_of_lt hlt))
    rw [← heq]
    apply length_blockTokens
    rw [heq]
    have hmul :
        (i + 1) * t.manager.blockSize ≤ tokenEnd / t.manager.blockSize * t.manager.blockSize :=
      Nat.mul_le_mul_right _ (by omega)
    have hdiv := Nat.div_mul_le_self tokenEnd t.manager.blockSize
    omega

theorem validateSwapBlock_of_forM {blockSize : ℕ}
    {contents : List (Option H × List ℕ × Option MmTokenHashes)}
    (h : contents.forM (validateSwapBlock blockSize) = .ok ()) :
    ∀ content ∈ contents, validateSwapBlock blockSize content = .ok () := by
  induction contents with
  | nil => exact fun content hcontent => absurd hcontent List.not_mem_nil
  | cons first contents ih =>
    obtain ⟨_, hfirst, hrest⟩ := except_bind_ok.mp h
    intro content hcontent
    rcases List.mem_cons.mp hcontent with rfl | hmem
    · exact hfirst
    · exact ih hrest content hmem

theorem restoredAll_tidy {pool pool' : GpuBlockPool H} {items : List (RestoreItem H)}
    {blockSize : ℕ} (h : RestoredAll pool items pool')
    (htidy : ∀ id, TidyContent blockSize (pool.blocks id).content)
    (hchecked : ∀ item ∈ items, validateSwapBlock blockSize item.2 = .ok ()) (id : ℕ) :
    TidyContent blockSize (pool'.blocks id).content := by
  induction h with
  | nil => exact htidy id
  | skip _ ih => exact ih htidy fun item hitem => hchecked item (List.mem_cons_of_mem _ hitem)
  | @write _ _ _ page _ _ _ _ first _ _ ih =>
    refine ih (fun other => ?_) fun item hitem => hchecked item (List.mem_cons_of_mem _ hitem)
    rw [first.blocks]
    by_cases hother : other = page
    · subst hother
      rw [Function.update_self]
      exact tidy_of_validateSwapBlock (hchecked _ List.mem_cons_self)
    · rw [Function.update_of_ne hother]
      exact htidy other

/-- What `swap_in` writes back passed its own check. -/
theorem swapIn_tidy {pairs : List BlockPair} (hl : Ledger others t) (htidy : t.manager.Tidy)
    (h : swapIn t = .ok pairs t') : t'.manager.Tidy := by
  obtain ⟨t₁, newTable, taken, restored, cpuPool, hin⟩ := swapIn_ok hl h
  have hsize : t₁.manager.blockSize = t.manager.blockSize :=
    (Reclaimed.config hin.reclaimed).blockSize
  have hchecked : ∀ content ∈ savedContents t.seq,
      validateSwapBlock t.manager.blockSize content = .ok () := by
    have hmetadata := hin.metadata
    simp only [validateSwapInMetadata, except_bind_ok] at hmetadata
    obtain ⟨-, -, -, -, hall⟩ := hmetadata
    rw [hsize] at hall
    exact validateSwapBlock_of_forM hall
  have hforgets : t.pool.Forgets taken :=
    IsTrans.trans (r := GpuBlockPool.Forgets) _ _ _ hin.reclaimed.forgets hin.took.forgets
  have htaken : ({ t.manager with gpuPool := taken } : BlockManager H).Tidy :=
    htidy.of_forgets rfl hforgets
  intro id
  rw [hin.manager]
  change TidyContent t₁.manager.blockSize (restored.blocks id).content
  rw [hsize]
  exact restoredAll_tidy hin.restores htaken
    (fun item hitem => hchecked item.2 (List.of_mem_zip hitem).2) id

end BlockManager

/-! ## Runs -/

/-- A manager and the sequences it serves. -/
abbrev Fleet (H : Type) := BlockManager H × List (Sequence H)

namespace ManagerCall
open BlockManager

/-- The callers publish up to the tokens of the sequence at most. -/
def Within (seq : Sequence H) : ManagerCall → Prop
  | .publishComputedBlocks _ tokenEnd => tokenEnd ≤ seq.numTokens
  | _ => True

variable {others : Others} {t t' : ManagerState H} {call : ManagerCall}

theorem sized_of_assert {α : Type} {f : Unit → ManagerAction H α} {a : α}
    (h : (query assertSequenceBlockSize >>= f) t = .ok a t') :
    t.seq.blockSize = t.manager.blockSize := by
  obtain ⟨_, _, hasserted, -⟩ := bind_ok.mp h
  exact assertSequenceBlockSize_ok.mp (query_ok.mp hasserted).1

/-- A method checks the block size, unless it leaves the length of the table alone. -/
theorem sized_or_length (hl : Ledger others t) (h : call.run t = .ok () t') :
    t.seq.blockSize = t.manager.blockSize ∨ t'.table.length = t.table.length := by
  cases call with
  | publishComputedBlocks => exact .inr (publishComputedBlocks_table h).length
  | clearMultimodalPrefixCache => exact .inr (clearMultimodalPrefixCache_table hl h).length
  | commitCompaction => exact .inl (sized_of_assert h)
  | deallocate => exact .inl (sized_of_assert h)
  | mayAppend => exact .inl (sized_of_assert h)
  | cachedPrefixTokens =>
    obtain ⟨_, _, hcall, -⟩ := bind_ok.mp h
    exact .inl (sized_of_assert hcall)
  | allocate =>
    obtain ⟨_, _, hcall, -⟩ := bind_ok.mp h
    exact .inl (sized_of_assert hcall)
  | copyOnWrite =>
    obtain ⟨_, _, hcall, -⟩ := bind_ok.mp h
    exact .inl (sized_of_assert hcall)
  | swapOut =>
    obtain ⟨_, _, hcall, -⟩ := bind_ok.mp h
    exact .inl (sized_of_assert hcall)
  | swapIn =>
    obtain ⟨_, _, hcall, -⟩ := bind_ok.mp h
    exact .inl (sized_of_assert hcall)
  | storeMultimodalPrefix =>
    obtain ⟨_, _, hcall, -⟩ := bind_ok.mp h
    exact .inl (sized_of_assert hcall)

theorem run_tidy (hl : Ledger others t) (htidy : t.manager.Tidy)
    (hsize : t.table ≠ [] → t.seq.blockSize = t.manager.blockSize) (hwithin : call.Within t.seq)
    (h : call.run t = .ok () t') : t'.manager.Tidy := by
  obtain ⟨copies, hsteps⟩ := run_steps hl h
  have hconfig := (SameConfig.steps hsteps).blockSize
  cases call with
  | publishComputedBlocks => exact publishComputedBlocks_tidy hl htidy hsize hwithin h
  | swapIn =>
    obtain ⟨pairs, mid, hin, hrest⟩ := bind_ok.mp h
    obtain ⟨-, rfl⟩ := pure_ok.mp hrest
    exact swapIn_tidy hl htidy hin
  | clearMultimodalPrefixCache =>
    exact htidy.of_forgets hconfig (clearMultimodalPrefixCache_forgets.of_ok h)
  | commitCompaction plan =>
    exact htidy.of_forgets hconfig ((commitCompaction_forgets plan).of_ok h)
  | deallocate => exact htidy.of_forgets hconfig (deallocate_forgets.of_ok h)
  | mayAppend => exact htidy.of_forgets hconfig (mayAppend_forgets.of_ok h)
  | cachedPrefixTokens =>
    exact htidy.of_forgets hconfig
      ((Always.bind cachedPrefixTokens_forgets fun _ => Always.pure ()).of_ok h)
  | allocate =>
    exact htidy.of_forgets hconfig ((Always.bind allocate_forgets fun _ => Always.pure ()).of_ok h)
  | copyOnWrite =>
    exact htidy.of_forgets hconfig
      ((Always.bind copyOnWrite_forgets fun _ => Always.pure ()).of_ok h)
  | swapOut =>
    exact htidy.of_forgets hconfig ((Always.bind swapOut_forgets fun _ => Always.pure ()).of_ok h)
  | storeMultimodalPrefix =>
    exact htidy.of_forgets hconfig
      ((Always.bind storeMultimodalPrefix_forgets fun _ => Always.pure ()).of_ok h)

end ManagerCall

/-- One step of the engine on the sequences of a manager: what `Serves` allows, driven as
the callers do. -/
inductive FleetStep : Fleet H → Fleet H → Prop
  | join {manager left right} {seq : Sequence H} (htable : seq.blockTable = [])
      (hcpu : seq.cpuBlockTable = []) :
      FleetStep (manager, left ++ right) (manager, left ++ seq :: right)
  | call {manager manager' left right} {seq seq' : Sequence H} (call : ManagerCall)
      (hwithin : call.Within seq) (hcall : call.run ⟨manager, seq⟩ = .ok () ⟨manager', seq'⟩) :
      FleetStep (manager, left ++ seq :: right) (manager', left ++ seq' :: right)
  | advance {manager left right} {seq seq' : Sequence H} (htable : seq'.blockTable = seq.blockTable)
      (hcpu : seq'.cpuBlockTable = seq.cpuBlockTable) (hsize : seq'.blockSize = seq.blockSize) :
      FleetStep (manager, left ++ seq :: right) (manager, left ++ seq' :: right)
  | leave {manager left right} {seq : Sequence H} (htable : seq.blockTable = [])
      (hcpu : seq.cpuBlockTable = []) :
      FleetStep (manager, left ++ seq :: right) (manager, left ++ right)

/-- Steps of the engine. -/
abbrev FleetRun : Fleet H → Fleet H → Prop := ReflTransGen FleetStep

/-- The states the engine reaches from a new manager. -/
def Reached (fleet : Fleet H) : Prop :=
  ∃ numBlocks blockSize numCpuBlocks caching blockLevel,
    FleetRun (.initial H numBlocks blockSize numCpuBlocks caching blockLevel, []) fleet

/-- What holds in every state: the accounts, tidy pages, and one block size where pages are
held. -/
structure FleetKept (fleet : Fleet H) : Prop where
  accounts : FleetAccounts Others.none fleet.1 fleet.2
  tidy : fleet.1.Tidy
  sized : ∀ seq ∈ fleet.2, seq.blockTable ≠ [] → seq.blockSize = fleet.1.blockSize

variable {fleet fleet' : Fleet H}

theorem FleetKept.initial (numBlocks blockSize numCpuBlocks : ℕ) (caching blockLevel : Bool) :
    FleetKept (BlockManager.initial H numBlocks blockSize numCpuBlocks caching blockLevel, []) where
  accounts := .initial numBlocks blockSize numCpuBlocks caching blockLevel
  tidy := fun _ => ⟨rfl, rfl⟩
  sized := fun _ hseq => absurd hseq List.not_mem_nil

/-- Every step keeps it. -/
theorem FleetKept.step (hk : FleetKept fleet) (h : FleetStep fleet fleet') : FleetKept fleet' := by
  obtain ⟨haccounts, htidy, hsized⟩ := hk
  cases h with
  | @join manager left right seq htable hcpu =>
    refine ⟨haccounts.join htable hcpu, htidy, fun other hother hne => ?_⟩
    rcases List.mem_append.mp hother with hleft | hright
    · exact hsized other (List.mem_append_left _ hleft) hne
    · rcases List.mem_cons.mp hright with rfl | hright
      · exact absurd htable hne
      · exact hsized other (List.mem_append_right _ hright) hne
  | @call manager manager' left right seq seq' call hwithin hcall =>
    have hself : seq ∈ left ++ seq :: right := List.mem_append_right _ List.mem_cons_self
    have hown := hsized seq hself
    obtain ⟨copies, hsteps⟩ := ManagerCall.run_steps haccounts.focus hcall
    have hconfig := SameConfig.steps hsteps
    have hsize : manager'.blockSize = manager.blockSize := hconfig.blockSize
    have hrequest : seq'.blockSize = seq.blockSize := by
      unfold Sequence.blockSize
      rw [show seq'.request = seq.request from hconfig.request]
    refine ⟨haccounts.unfocus (haccounts.focus.steps hsteps),
      call.run_tidy haccounts.focus htidy hown hwithin hcall, fun other hother hne => ?_⟩
    change other.blockSize = manager'.blockSize
    rw [hsize]
    rcases List.mem_append.mp hother with hleft | hright
    · exact hsized other (List.mem_append_left _ hleft) hne
    · rcases List.mem_cons.mp hright with rfl | hright
      · rw [hrequest]
        rcases ManagerCall.sized_or_length haccounts.focus hcall with hchecked | hlength
        · exact hchecked
        · apply hown
          intro hempty
          have hzero : other.blockTable.length = seq.blockTable.length := hlength
          rw [hempty] at hzero
          exact hne (List.eq_nil_of_length_eq_zero hzero)
      · exact hsized other (List.mem_append_right _ (List.mem_cons_of_mem _ hright)) hne
  | @advance manager left right seq seq' htable hcpu hsize =>
    refine ⟨haccounts.of_tables (by simp [htable]) (by simp [hcpu]), htidy,
      fun other hother hne => ?_⟩
    rcases List.mem_append.mp hother with hleft | hright
    · exact hsized other (List.mem_append_left _ hleft) hne
    · rcases List.mem_cons.mp hright with rfl | hright
      · rw [hsize]
        exact hsized seq (List.mem_append_right _ List.mem_cons_self) (htable ▸ hne)
      · exact hsized other (List.mem_append_right _ (List.mem_cons_of_mem _ hright)) hne
  | @leave manager left right seq htable hcpu =>
    refine ⟨haccounts.of_tables (by simp [htable]) (by simp [hcpu]), htidy,
      fun other hother hne => ?_⟩
    rcases List.mem_append.mp hother with hleft | hright
    · exact hsized other (List.mem_append_left _ hleft) hne
    · exact hsized other (List.mem_append_right _ (List.mem_cons_of_mem _ hright)) hne

theorem FleetKept.run (hk : FleetKept fleet) (h : FleetRun fleet fleet') : FleetKept fleet' := by
  induction h with
  | refl => exact hk
  | tail _ hlast ih => exact ih.step hlast

theorem Reached.kept (h : Reached fleet) : FleetKept fleet := by
  obtain ⟨numBlocks, blockSize, numCpuBlocks, caching, blockLevel, hrun⟩ := h
  exact (FleetKept.initial numBlocks blockSize numCpuBlocks caching blockLevel).run hrun

/-- Sequences in another order. -/
theorem FleetKept.perm {manager : BlockManager H} {seqs seqs' : List (Sequence H)}
    (hk : FleetKept (manager, seqs)) (h : seqs'.Perm seqs) : FleetKept (manager, seqs') := by
  refine ⟨?_, hk.tidy, fun seq hseq => hk.sized seq (h.mem_iff.mp hseq)⟩
  have haccounts := hk.accounts
  have htables := h.flatMap_right fun seq => seq.blockTable
  have hcpus := h.flatMap_right fun seq => seq.cpuBlockTable
  exact {
    haccounts with
    refs := fun b => by
      rw [htables.count_eq b]
      exact haccounts.refs b
    cpu_nodup := hcpus.nodup_iff.mpr haccounts.cpu_nodup
    cpu_used := fun b => by
      rw [hcpus.mem_iff]
      exact haccounts.cpu_used b
    cpu_alone := fun b hb => haccounts.cpu_alone b (hcpus.mem_iff.mp hb) }

/-- A step of other sequences is a step beside one more. -/
theorem FleetStep.beside (seq : Sequence H) (h : FleetStep fleet fleet') :
    FleetStep (fleet.1, seq :: fleet.2) (fleet'.1, seq :: fleet'.2) := by
  cases h with
  | @join manager left right joined htable hcpu =>
    exact @FleetStep.join _ _ _ manager (seq :: left) right joined htable hcpu
  | @call manager manager' left right own own' call hwithin hcall =>
    exact @FleetStep.call _ _ _ manager manager' (seq :: left) right own own' call hwithin hcall
  | @advance manager left right own own' htable hcpu hsize =>
    exact @FleetStep.advance _ _ _ manager (seq :: left) right own own' htable hcpu hsize
  | @leave manager left right left' htable hcpu =>
    exact @FleetStep.leave _ _ _ manager (seq :: left) right left' htable hcpu

end PrismInfer
