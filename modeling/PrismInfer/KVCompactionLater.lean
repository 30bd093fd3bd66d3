import PrismInfer.DecodeGraph
import PrismInfer.KVCompactionCommit

/-!
# Rows written after a compaction

Behind the retained rows a compacted sequence has one row for each later token. The
logical position of a token goes on as if nothing had been dropped.
-/
set_option linter.unusedSectionVars false

namespace PrismInfer
open StateExcept

variable {H : Type} [DecidableEq H] [Digests H]

namespace BlockManager

/-- `_decode_plan` secures the page of the next token: at a page boundary without
copy-on-write. -/
inductive Reserves : ManagerState H → ManagerState H → Prop
  | boundary {t t' : ManagerState H}
      (hrow : t.seq.physicalKvLen % t.manager.blockSize = 1)
      (happend : mayAppend t = .ok () t') : Reserves t t'
  | inside {t mid t' : ManagerState H} {pair : Option BlockPair}
      (hrow : t.seq.physicalKvLen % t.manager.blockSize ≠ 1)
      (hcopy : copyOnWrite t = .ok pair mid) (happend : mayAppend mid = .ok () t') :
      Reserves t t'

/-- What happens to a live sequence as long as it keeps its layout. -/
inductive Continues : Sequence H → Sequence H → Prop
  | refl (seq : Sequence H) : Continues seq seq
  | prefill {start seq seq' : Sequence H} {slice : PrefillSlice}
      {record : Option CompressionRecord} (h : Continues start seq)
      (hslice : checkPrefillSlice (seq, slice) = .ok ())
      (hstart : slice.tokenStart = seq.effectivePrefillStart)
      (hcommit : commitPrefillExecution record slice seq = .ok seq') :
      Continues start seq'
  | first {start seq seq' : Sequence H} {token : ℕ} (h : Continues start seq)
      (hfinished : seq.isPrefillFinished = true) (hnone : seq.numTokens = seq.numPromptTokens)
      (happend : seq.appendToken token = .ok seq') : Continues start seq'
  | decode {start seq' : Sequence H} {token : ℕ} {others : Others} {t t' : ManagerState H}
      (h : Continues start t.seq) (hl : Ledger others t)
      (hsome : t.seq.numPromptTokens < t.seq.numTokens)
      (hresident : t.seq.cpuBlockTable = [])
      (hreserve : Reserves t t') (happend : t'.seq.appendToken token = .ok seq') :
      Continues start seq'
  | swapOut {start : Sequence H} {others : Others} {t t' : ManagerState H}
      {pairs : List BlockPair} (h : Continues start t.seq) (hl : Ledger others t)
      (hsome : t.seq.numPromptTokens < t.seq.numTokens)
      (hswap : swapOut t = .ok pairs t') : Continues start t'.seq
  | swapIn {start : Sequence H} {others : Others} {t t' : ManagerState H}
      {pairs : List BlockPair} (h : Continues start t.seq) (hl : Ledger others t)
      (hsome : t.seq.numPromptTokens < t.seq.numTokens)
      (hswap : swapIn t = .ok pairs t') : Continues start t'.seq
  | status {start seq : Sequence H} (h : Continues start seq) (status : RequestState) :
      Continues start { seq with status := status }

variable {blockSize retained compacted : ℕ} {seq seq' start : Sequence H}

/-- Pages and counters of a compacted sequence before its first generated token, and from
then on. The page of a token that crossed a page boundary is not reserved yet. -/
inductive Phase (blockSize retained compacted logical physical : ℕ) (seq : Sequence H) : Prop
  | prompt (hnone : seq.numTokens = seq.numPromptTokens)
      (hlogical : logical = min seq.numComputedTokens seq.numPromptTokens)
      (hprogress : seq.effectivePrefillStart = seq.numComputedTokens)
      (hresident : seq.cpuBlockTable = [])
      (htable : seq.blockTable.length =
        pagesFor (retained + (seq.numPromptTokens - compacted)) blockSize)
  | decoding (hsome : seq.numPromptTokens < seq.numTokens)
      (hfinished : seq.numPromptTokens ≤ seq.numComputedTokens)
      (hlogical : logical = seq.numTokens)
      (htable : seq.blockTable.length + seq.cpuBlockTable.length +
        (if physical % blockSize = 1 then 1 else 0) = pagesFor physical blockSize)

/-- The layout of a compacted sequence: the retained rows, then one row a token. -/
structure Follows (blockSize retained compacted : ℕ) (seq : Sequence H) : Prop where
  size : seq.blockSize = blockSize
  inside : compacted ≤ seq.numPromptTokens
  layout : ∃ layout, seq.kvLayout = some layout ∧
    layout.promptLogicalLen = seq.numPromptTokens ∧ compacted ≤ layout.logicalContextLen ∧
    layout.physicalKvLen = retained + (layout.logicalContextLen - compacted) ∧
    Phase blockSize retained compacted layout.logicalContextLen layout.physicalKvLen seq

theorem pagesFor_succ (hsize : 1 < blockSize) (rows : ℕ) :
    pagesFor (rows + 1) blockSize =
      pagesFor rows blockSize + if (rows + 1) % blockSize = 1 then 1 else 0 := by
  have hopens : blockSize ∣ rows + blockSize - 1 + 1 ↔ (rows + 1) % blockSize = 1 := by
    rw [show rows + blockSize - 1 + 1 = rows + blockSize by omega, Nat.dvd_add_self_right,
      Nat.dvd_iff_mod_eq_zero, Nat.add_mod, Nat.mod_eq_of_lt hsize]
    have hlt := Nat.mod_lt rows (show 0 < blockSize by omega)
    rcases Nat.lt_or_ge (rows % blockSize + 1) blockSize with h | h
    · rw [Nat.mod_eq_of_lt h]
      omega
    · rw [show rows % blockSize + 1 = blockSize by omega, Nat.mod_self]
      omega
  rw [pagesFor, show rows + 1 + blockSize - 1 = rows + blockSize - 1 + 1 by omega, Nat.succ_div,
    pagesFor]
  simp only [hopens]

theorem copyOnWrite_steps {others : Others} {t t' : ManagerState H} {pair : Option BlockPair}
    (hl : Ledger others t) (h : copyOnWrite t = .ok pair t') :
    ∃ copies, PageSteps true t copies t' := by
  obtain ⟨-, rfl, -⟩ | ⟨last, mid, -, hr, htail⟩ := copyOnWrite_ok hl h
  · exact ⟨[], .refl t'⟩
  · obtain ⟨-, rfl, -⟩ | ⟨fresh, -, -, hreplace⟩ := htail
    · exact ⟨[], hr.steps⟩
    · exact ⟨_, hr.steps.trans (.single (.replace hreplace (.inl rfl)))⟩

/-- A reservation adds the page of a row that opens one. -/
theorem Reserves.table {others : Others} {t t' : ManagerState H} (hl : Ledger others t)
    (h : Reserves t t') : t.seq.blockSize = t.manager.blockSize ∧
      ∃ table, t'.seq = { t.seq with blockTable := table } ∧ table.length =
        t.table.length + if t.seq.physicalKvLen % t.manager.blockSize = 1 then 1 else 0 := by
  have hsize : ∀ {t t' : ManagerState H}, mayAppend t = .ok () t' →
      t.seq.blockSize = t.manager.blockSize := by
    intro t t' happend
    simp only [mayAppend, bind_ok, query_ok, assertSequenceBlockSize_ok] at happend
    obtain ⟨_, _, ⟨hsize, -⟩, -⟩ := happend
    exact hsize
  cases h with
  | boundary hrow happend =>
    obtain ⟨table, hlength, hseq⟩ := (mayAppend_table hl happend).seq
    exact ⟨hsize happend, table, hseq, hlength⟩
  | @inside mid _ _ hrow hcopy happend =>
    obtain ⟨_, hmid⟩ := copyOnWrite_steps hl hcopy
    have hconfig := SameConfig.steps hmid
    have htable := copyOnWrite_table hl hcopy
    obtain ⟨table, hlength, hseq⟩ := htable.seq
    have hkept : mid.seq.blockSize = t.seq.blockSize ∧
        mid.seq.physicalKvLen = t.seq.physicalKvLen := by
      rw [hseq]
      exact ⟨rfl, rfl⟩
    have hmore := mayAppend_table (hl.steps hmid) happend
    rw [hkept.2, hconfig.blockSize, if_neg hrow, htable.length] at hmore
    obtain ⟨table', hlength', hseq'⟩ := hmore.seq
    refine ⟨?_, table', by rw [hseq', hseq], by rw [if_neg hrow]; exact hlength'⟩
    rw [← hkept.1, hsize happend, hconfig.blockSize]

omit [DecidableEq H] [Digests H] in
theorem commitPrefillExecution_ok {record : Option CompressionRecord} {slice : PrefillSlice}
    (h : commitPrefillExecution record slice seq = .ok seq') :
    ∃ layout, seq' = { seq with
        visualPruningDecisionRecord := record.or seq.visualPruningDecisionRecord
        numComputedTokens := slice.tokenEnd
        kvLayout := layout } ∧
      (layout = seq.kvLayout ∧ (∀ l ∈ seq.kvLayout, seq.numPromptTokens ≤ l.logicalContextLen) ∨
        ∃ l l', seq.kvLayout = some l ∧ layout = some l' ∧
          l.logicalContextLen < seq.numPromptTokens ∧
          l.appendPrefillTokens slice.numTokens = .ok l') := by
  simp only [commitPrefillExecution] at h
  cases hlayout : seq.kvLayout with
  | none =>
    simp only [hlayout, except_pure_ok] at h
    exact ⟨none, by rw [← h], .inl ⟨rfl, by simp⟩⟩
  | some l =>
    simp only [hlayout] at h
    split at h
    · next hlt =>
      simp only [except_bind_ok, except_pure_ok] at h
      obtain ⟨l', happend, h⟩ := h
      exact ⟨some l', by rw [← h], .inr ⟨l, l', rfl, rfl, hlt, happend⟩⟩
    · next hge =>
      simp only [except_pure_ok] at h
      refine ⟨some l, h.symm, .inl ⟨rfl, fun m hm => ?_⟩⟩
      obtain rfl : l = m := by simpa using hm
      exact not_lt.mp hge

/-- Progress right after the execution of a slice. -/
theorem commitPrefillExecution_progress {record : Option CompressionRecord} {slice : PrefillSlice}
    (hslice : checkPrefillSlice (seq, slice) = .ok ())
    (hstart : slice.tokenStart = seq.effectivePrefillStart)
    (h : commitPrefillExecution record slice seq = .ok seq') :
    seq'.effectivePrefillStart = seq'.numComputedTokens := by
  obtain ⟨layout, rfl, -⟩ := commitPrefillExecution_ok h
  simp only [checkPrefillSlice, except_bind_ok, ensure_ok] at hslice
  obtain ⟨-, hlt, -⟩ := hslice
  simp only [Sequence.effectivePrefillStart] at hstart ⊢
  omega

/-- A slice that passes its checks lies within the prompt, at the progress. -/
theorem slice_bounds {slice : PrefillSlice} (hslice : checkPrefillSlice (seq, slice) = .ok ()) :
    slice.tokenStart < slice.tokenEnd ∧ slice.tokenEnd ≤ seq.numPromptTokens := by
  simp only [checkPrefillSlice, except_bind_ok, ensure_ok] at hslice
  obtain ⟨_, hlt, _, -, hle⟩ := hslice
  exact ⟨hlt, hle⟩

namespace Follows

theorem prefill {record : Option CompressionRecord} {slice : PrefillSlice}
    (h : Follows blockSize retained compacted seq)
    (hslice : checkPrefillSlice (seq, slice) = .ok ())
    (hstart : slice.tokenStart = seq.effectivePrefillStart)
    (hcommit : commitPrefillExecution record slice seq = .ok seq') :
    Follows blockSize retained compacted seq' := by
  have hprogress' := commitPrefillExecution_progress hslice hstart hcommit
  obtain ⟨hlt, hle⟩ := slice_bounds hslice
  obtain ⟨layout, hlayout, hprompt, hinside, hphysical, hphase⟩ := h.layout
  obtain ⟨layout', rfl, hcases⟩ := commitPrefillExecution_ok hcommit
  cases hphase with
  | decoding _ hfinished _ _ =>
    simp only [Sequence.effectivePrefillStart] at hstart
    omega
  | prompt hnone hlogical hprogress hresident htable =>
    have hcomputed : slice.tokenStart = seq.numComputedTokens := hstart.trans hprogress
    rcases hcases with ⟨-, hge⟩ | ⟨l, l', hl, rfl, -, happend⟩
    · have := hge layout hlayout
      omega
    · obtain rfl : layout = l := by simpa [hlayout] using hl
      simp only [KVCacheLayoutDescriptor.appendPrefillTokens, except_bind_ok, ensure_ok,
        except_pure_ok] at happend
      obtain ⟨_, -, _, -, rfl⟩ := happend
      refine ⟨h.size, h.inside, _, rfl, hprompt, ?_, ?_,
        .prompt hnone ?_ hprogress' hresident htable⟩
      · simp only [PrefillSlice.numTokens]
        omega
      · simp only [PrefillSlice.numTokens]
        omega
      · have hmin : min slice.tokenEnd seq.numPromptTokens = slice.tokenEnd := min_eq_left hle
        simp only [PrefillSlice.numTokens]
        change _ = min slice.tokenEnd seq.numPromptTokens
        omega

/-- One generated token, whose predecessor has its page. -/
theorem appendToken {token : ℕ} (hsize : 1 < blockSize)
    (hblock : seq.blockSize = blockSize) (hinside : compacted ≤ seq.numPromptTokens)
    {layout : KVCacheLayoutDescriptor} (hlayout : seq.kvLayout = some layout)
    (hprompt : layout.promptLogicalLen = seq.numPromptTokens)
    (hle : compacted ≤ layout.logicalContextLen)
    (hphysical : layout.physicalKvLen = retained + (layout.logicalContextLen - compacted))
    (hlogical : layout.logicalContextLen = seq.numTokens)
    (hfinished : seq.numPromptTokens ≤ seq.numComputedTokens)
    (htokens : seq.numPromptTokens ≤ seq.numTokens)
    (htable : seq.blockTable.length + seq.cpuBlockTable.length =
      pagesFor layout.physicalKvLen blockSize)
    (h : seq.appendToken token = .ok seq') : Follows blockSize retained compacted seq' := by
  simp only [Sequence.appendToken, hlayout, except_bind_ok, except_pure_ok,
    KVCacheLayoutDescriptor.appendGeneratedToken, ensure_ok] at h
  obtain ⟨_, ⟨_, -, rfl⟩, rfl⟩ := h
  have hlength : (seq.tokenIds ++ [token]).length = seq.numTokens + 1 := by
    simp [Sequence.numTokens]
  refine ⟨hblock, hinside, _, rfl, hprompt, hle.trans (Nat.le_succ _), ?_,
    .decoding ?_ hfinished ?_ ?_⟩
  · simp only [hphysical]
    omega
  · change seq.numPromptTokens < (seq.tokenIds ++ [token]).length
    omega
  · change layout.logicalContextLen + 1 = (seq.tokenIds ++ [token]).length
    omega
  · change seq.blockTable.length + seq.cpuBlockTable.length + _ =
      pagesFor (layout.physicalKvLen + 1) blockSize
    rw [htable, pagesFor_succ hsize]

/-- The first token comes behind the last prompt row. -/
theorem first {token : ℕ} (hsize : 1 < blockSize) (h : Follows blockSize retained compacted seq)
    (hfinished : seq.isPrefillFinished = true) (hnone : seq.numTokens = seq.numPromptTokens)
    (happend : seq.appendToken token = .ok seq') : Follows blockSize retained compacted seq' := by
  obtain ⟨layout, hlayout, hprompt, hle, hphysical, hphase⟩ := h.layout
  have hcomputed : seq.numPromptTokens ≤ seq.numComputedTokens := by
    simpa [Sequence.isPrefillFinished] using hfinished
  cases hphase with
  | decoding hsome _ _ _ => omega
  | prompt _ hlogical _ hresident htable =>
    rw [min_eq_right hcomputed] at hlogical
    refine appendToken hsize h.size h.inside hlayout hprompt hle hphysical
      (hlogical.trans hnone.symm)
      hcomputed hnone.ge ?_ happend
    rw [hresident, List.length_nil, Nat.add_zero, htable, hphysical, hlogical]

/-- A sequence whose next token has its page. -/
structure Ready (blockSize retained compacted : ℕ) (seq : Sequence H) : Prop where
  size : seq.blockSize = blockSize
  inside : compacted ≤ seq.numPromptTokens
  some : seq.numPromptTokens < seq.numTokens
  finished : seq.numPromptTokens ≤ seq.numComputedTokens
  resident : seq.cpuBlockTable = []
  layout : ∃ layout, seq.kvLayout = .some layout ∧
    layout.promptLogicalLen = seq.numPromptTokens ∧ layout.logicalContextLen = seq.numTokens ∧
    layout.physicalKvLen = retained + (seq.numTokens - compacted)
  table : seq.blockTable.length = pagesFor seq.physicalKvLen blockSize

theorem ready {others : Others} {t t' : ManagerState H} (hl : Ledger others t)
    (h : Follows blockSize retained compacted t.seq)
    (hsome : t.seq.numPromptTokens < t.seq.numTokens) (hresident : t.seq.cpuBlockTable = [])
    (hreserve : Reserves t t') : Ready blockSize retained compacted t'.seq := by
  obtain ⟨layout, hlayout, hprompt, hle, hphysical, hphase⟩ := h.layout
  obtain ⟨hblock, table, hseq, hlength⟩ := hreserve.table hl
  have hmanager : t.manager.blockSize = blockSize := hblock.symm.trans h.size
  have hkv : t.seq.physicalKvLen = layout.physicalKvLen := by
    simp only [Sequence.physicalKvLen, hlayout]
  cases hphase with
  | prompt hnone _ _ _ _ => omega
  | decoding _ hfinished hlogical htable =>
    rw [hresident, List.length_nil, Nat.add_zero] at htable
    rw [hmanager, hkv, ManagerState.table, htable] at hlength
    rw [hseq]
    refine ⟨h.size, h.inside, hsome, hfinished, hresident,
      ⟨layout, hlayout, hprompt, hlogical, ?_⟩, ?_⟩
    · rw [hphysical, hlogical]
      rfl
    · change table.length = pagesFor t.seq.physicalKvLen blockSize
      rw [hlength, hkv]

end Follows

/-- Every continuation of a compacted sequence follows its layout. -/
theorem Continues.follows (hsize : 1 < blockSize) (h : Continues start seq)
    (hstart : Follows blockSize retained compacted start) :
    Follows blockSize retained compacted seq := by
  induction h with
  | refl => exact hstart
  | prefill _ hslice hslicestart hcommit ih => exact ih.prefill hslice hslicestart hcommit
  | first _ hfinished hnone happend ih => exact ih.first hsize hfinished hnone happend
  | decode _ hl hsome hresident hreserve happend ih =>
    have hready := ih.ready hl hsome hresident hreserve
    obtain ⟨layout, hlayout, hprompt, hlogical, hphysical⟩ := hready.layout
    refine Follows.appendToken hsize hready.size hready.inside hlayout hprompt ?_ ?_ hlogical
      hready.finished hready.some.le ?_ happend
    · rw [hlogical]
      exact hready.inside.trans hready.some.le
    · rw [hphysical, hlogical]
    · rw [hready.resident, List.length_nil, Nat.add_zero, hready.table, Sequence.physicalKvLen,
        hlayout]
  | @swapOut _ t t' _ _ hl hsome hswap ih =>
    obtain ⟨layout, hlayout, hprompt, hle, hphysical, hphase⟩ := ih.layout
    obtain ⟨cpuTable, _, _, _, hlength, hseq, -⟩ := swapOut_seq hl hswap
    have hempty : t.seq.cpuBlockTable = [] := by
      simp only [BlockManager.swapOut, bind_ok, query_ok, get_ok, require_ok] at hswap
      obtain ⟨_, _, ⟨-, rfl⟩, _, _, ⟨rfl, rfl⟩, _, _, ⟨hcpu, -⟩, -⟩ := hswap
      exact hcpu
    rw [hseq]
    refine ⟨ih.size, ih.inside, layout, hlayout, hprompt, hle, hphysical, ?_⟩
    cases hphase with
    | prompt hnone _ _ _ _ => omega
    | decoding _ hfinished hlogical htable =>
      refine .decoding hsome hfinished hlogical ?_
      rw [hempty, List.length_nil, Nat.add_zero] at htable
      change 0 + cpuTable.length + _ = _
      rw [Nat.zero_add, hlength]
      exact htable
  | @swapIn _ t t' _ _ hl hsome hswap ih =>
    obtain ⟨layout, hlayout, hprompt, hle, hphysical, hphase⟩ := ih.layout
    obtain ⟨hempty, ⟨table, hlength, hseq⟩, -⟩ := swapIn_seq hl hswap
    rw [hseq]
    refine ⟨ih.size, ih.inside, layout, hlayout, hprompt, hle, hphysical, ?_⟩
    cases hphase with
    | prompt hnone _ _ _ _ => omega
    | decoding _ hfinished hlogical htable =>
      refine .decoding hsome hfinished hlogical ?_
      have hempty : t.seq.blockTable = [] := hempty
      rw [hempty, List.length_nil, Nat.zero_add] at htable
      change table.length + 0 + _ = _
      rw [Nat.add_zero, hlength]
      exact htable
  | status _ _ ih =>
    obtain ⟨layout, hlayout, hprompt, hle, hphysical, hphase⟩ := ih.layout
    refine ⟨ih.size, ih.inside, layout, hlayout, hprompt, hle, hphysical, ?_⟩
    cases hphase with
    | prompt hnone hlogical hprogress hresident htable =>
      exact .prompt hnone hlogical hprogress hresident htable
    | decoding hsome hfinished hlogical htable => exact .decoding hsome hfinished hlogical htable

theorem multimodalPrefixBoundary_pos {req : Request} {boundary : ℕ}
    (h : req.multimodalPrefixBoundary = some boundary) : 0 < boundary := by
  simp only [Request.multimodalPrefixBoundary] at h
  cases hlast : req.visualPositions.getLast? with
  | none => simp [hlast] at h
  | some last =>
    simp only [hlast, Option.ite_none_right_eq_some, Option.some.injEq] at h
    omega

/-- A committed sequence follows its layout from the start. -/
theorem BuiltPlan.follows {manager : BlockManager H} {kvDtype : String} {plan : KVCompactionPlan}
    (h : BuiltPlan manager seq kvDtype plan) (hnow : CompactsNow seq)
    (hprogress : seq.effectivePrefillStart = seq.numComputedTokens) :
    Follows manager.blockSize plan.retainedOriginalPositions.length (compactedLogicalLen seq)
      (compactedSequence plan seq) := by
  have hlogical : (plan.layout seq.numPromptTokens).logicalContextLen = compactedLogicalLen seq :=
    h.compacted_eq
  have hphysical : (plan.layout seq.numPromptTokens).physicalKvLen =
      plan.retainedOriginalPositions.length := h.physicalPromptLen
  refine ⟨h.size, compactedLogicalLen_le seq, _, rfl, rfl, hlogical.ge, ?_,
    .prompt h.atPrompt ?_ ?_ h.resident h.length_newBlockTable⟩
  · rw [hphysical, hlogical, Nat.sub_self, Nat.add_zero]
  · rw [hlogical]
    change _ = min seq.numComputedTokens seq.numPromptTokens
    by_cases hfinished : seq.isPrefillFinished = true
    · have hcomputed : seq.numPromptTokens ≤ seq.numComputedTokens := by
        simpa [Sequence.isPrefillFinished] using hfinished
      rw [compactedLogicalLen, if_pos (.inl hfinished), min_eq_right hcomputed]
    · obtain ⟨-, hboundary⟩ := hnow.2.resolve_left hfinished
      have hpos := multimodalPrefixBoundary_pos hboundary
      have hcomputed : seq.numComputedTokens < seq.numPromptTokens := by
        simpa [Sequence.isPrefillFinished] using hfinished
      rw [compactedLogicalLen, if_neg (not_or.mpr ⟨hfinished, hpos.ne'⟩), min_eq_left hcomputed.le]
  · simp only [Sequence.effectivePrefillStart, compactedSequence] at hprogress ⊢
    omega

/-- The rows of a prompt slice lie behind the retained ones, its positions where they were. -/
theorem Follows.prefill_lands {slice : PrefillSlice} {usesMrope : Bool}
    (h : Follows blockSize retained compacted seq) (hsize : 0 < blockSize)
    (hslice : checkPrefillSlice (seq, slice) = .ok ())
    (hstart : slice.tokenStart = seq.effectivePrefillStart) (host : PrefillHostBatch) :
    ∃ host', appendPrefillSequence blockSize usesMrope host (seq, slice) = .ok host' ∧
      host'.slotMapping = host.slotMapping ++ (List.range' slice.tokenStart slice.numTokens).map
        (fun p => (slotOf seq.blockTable blockSize (retained + (p - compacted)) : ℤ)) ∧
      (usesMrope = false → host'.textPositions =
        host.textPositions ++ List.range' slice.tokenStart slice.numTokens) ∧
      ∀ p ∈ List.range' slice.tokenStart slice.numTokens,
        (retained + (p - compacted)) / blockSize < seq.blockTable.length := by
  obtain ⟨hlt, hle⟩ := slice_bounds hslice
  obtain ⟨layout, hlayout, hprompt, hinside, hphysical, hphase⟩ := h.layout
  cases hphase with
  | decoding _ hfinished _ _ =>
    simp only [Sequence.effectivePrefillStart] at hstart
    omega
  | prompt hnone hlogical hprogress hresident htable =>
    have hcomputed : slice.tokenStart = seq.numComputedTokens := hstart.trans hprogress
    have hquery : PrefillItem.physicalQueryStart (seq, slice) =
        retained + (slice.tokenStart - compacted) := by
      simp only [PrefillItem.physicalQueryStart, hlayout]
      omega
    have hrow : ∀ p ∈ List.range' slice.tokenStart slice.numTokens,
        (retained + (p - compacted)) / blockSize < seq.blockTable.length := by
      intro p hp
      rw [htable]
      refine row_div_lt_pagesFor hsize ?_
      simp only [PrefillSlice.numTokens, List.mem_range'_1] at hp
      omega
    have hnonempty : seq.blockTable ≠ [] := by
      intro hempty
      have := hrow slice.tokenStart (by simp [PrefillSlice.numTokens]; omega)
      simp [hempty] at this
    have hcovered : pagesFor (PrefillItem.physicalQueryStart (seq, slice) +
        (slice.tokenEnd - slice.tokenStart)) blockSize ≤ seq.blockTable.length := by
      rw [htable, hquery]
      refine pagesFor_mono hsize ?_
      omega
    unfold appendPrefillSequence
    rw [if_neg hnonempty]
    refine ⟨_, by simp only [except_bind_ok, ensure_ok, except_pure_ok]; exact ⟨(), hcovered, rfl⟩,
      ?_, fun hmrope => ?_, hrow⟩
    · simp only [hquery, List.range'_eq_map_range, List.map_map, PrefillSlice.numTokens]
      congr 1
      refine List.map_congr_left fun i hi => ?_
      have hsame : retained + (slice.tokenStart - compacted) + i =
          retained + (slice.tokenStart + i - compacted) := by omega
      simp only [Function.comp_apply, PrefillItem.slot, slotOf, hsame]
    · simp only [hmrope, Bool.false_eq_true, if_false]
      rfl

/-- So does the row of a generated token. -/
theorem Follows.Ready.decode_lands (h : Follows.Ready blockSize retained compacted seq)
    (ropeDelta : Option ℤ) (temperature : ℚ) (hsize : 0 < blockSize) :
    (⟨seq, ropeDelta, temperature⟩ : DecodeSequence H).kvSlot blockSize =
        slotOf seq.blockTable blockSize (retained + (seq.numTokens - 1 - compacted)) ∧
      (retained + (seq.numTokens - 1 - compacted)) / blockSize < seq.blockTable.length := by
  obtain ⟨layout, hlayout, hprompt, hlogical, hphysical⟩ := h.layout
  have hsome := h.some
  have hinside := h.inside
  have hkv : seq.physicalKvLen = retained + (seq.numTokens - 1 - compacted) + 1 := by
    simp only [Sequence.physicalKvLen, hlayout]
    omega
  generalize retained + (seq.numTokens - 1 - compacted) = row at hkv ⊢
  have hpages : pagesFor (row + 1) blockSize = row / blockSize + 1 := by
    rw [pagesFor, show row + 1 + blockSize - 1 = row + blockSize by omega,
      Nat.add_div_right _ hsize]
  have htable := h.table
  rw [hkv, hpages] at htable
  have hlast : seq.blockTable.getLastD 0 = seq.blockTable.getD (row / blockSize) 0 := by
    rw [List.getLastD_eq_getLast?, List.getLast?_eq_getElem?, htable, Nat.add_sub_cancel,
      List.getD_eq_getElem?_getD]
  refine ⟨?_, by omega⟩
  have hrow := Nat.div_add_mod' row blockSize
  simp only [DecodeSequence.kvSlot, DecodeSequence.physicalLastBlockNumTokens, hkv, h.size, hpages,
    hlast, slotOf]
  push_cast
  have hrow' : (row / blockSize : ℕ) * (blockSize : ℤ) + (row % blockSize : ℕ) = row := by
    exact_mod_cast hrow
  push_cast at hrow'
  linarith

end BlockManager

end PrismInfer
