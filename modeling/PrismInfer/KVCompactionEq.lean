import PrismInfer.KVCompactionLater

/-!
# Compaction keeps the selected rows
-/
set_option linter.unusedSectionVars false

namespace PrismInfer
open StateExcept SlotMove

variable {H : Type} [DecidableEq H] [Digests H]

namespace BlockManager

section Plans

variable {plans : List KVCompactionPlan} {plan : KVCompactionPlan} {id : ℕ}

theorem planOf_some (h : planOf plans id = some plan) : plan ∈ plans ∧ plan.seqId = id := by
  refine ⟨List.mem_reverse.mp (List.mem_of_find?_eq_some h), ?_⟩
  simpa using List.find?_some h

theorem planOf_mem (hnodup : (plans.map (·.seqId)).Nodup) (hplan : plan ∈ plans) :
    planOf plans plan.seqId = some plan := by
  cases hfound : planOf plans plan.seqId with
  | none =>
    have := List.find?_eq_none.mp hfound plan (List.mem_reverse.mpr hplan)
    simp at this
  | some other =>
    obtain ⟨hother, hid⟩ := planOf_some hfound
    rw [List.inj_on_of_nodup_map hnodup hother hplan hid]

end Plans

/-- A member whose slice has just been executed. -/
def Executed (seq : Sequence H) : Prop :=
  ∃ before slice record, checkPrefillSlice (before, slice) = .ok () ∧
    slice.tokenStart = before.effectivePrefillStart ∧
    commitPrefillExecution record slice before = .ok seq

/-- Where the later tokens of a sequence land that has `retained` rows for the first
`compacted` positions. -/
structure Lands (blockSize retained compacted : ℕ) (seq : Sequence H) : Prop where
  prefill : ∀ later slice, Continues seq later → checkPrefillSlice (later, slice) = .ok () →
    slice.tokenStart = later.effectivePrefillStart → ∀ usesMrope host,
    ∃ host', appendPrefillSequence blockSize usesMrope host (later, slice) = .ok host' ∧
      host'.slotMapping = host.slotMapping ++ (List.range' slice.tokenStart slice.numTokens).map
        (fun p => (slotOf later.blockTable blockSize (retained + (p - compacted)) : ℤ)) ∧
      (usesMrope = false → host'.textPositions =
        host.textPositions ++ List.range' slice.tokenStart slice.numTokens) ∧
      ∀ p ∈ List.range' slice.tokenStart slice.numTokens,
        (retained + (p - compacted)) / blockSize < later.blockTable.length
  decode : ∀ (others : Others) (t t' : ManagerState H), Continues seq t.seq → Ledger others t →
    t.seq.numPromptTokens < t.seq.numTokens → t.seq.cpuBlockTable = [] → Reserves t t' →
    ∀ ropeDelta temperature,
      (⟨t'.seq, ropeDelta, temperature⟩ : DecodeSequence H).kvSlot blockSize = slotOf
          t'.seq.blockTable blockSize (retained + (t'.seq.numTokens - 1 - compacted)) ∧
        (retained + (t'.seq.numTokens - 1 - compacted)) / blockSize < t'.seq.blockTable.length ∧
        (⟨t'.seq, ropeDelta, temperature⟩ : DecodeSequence H).logicalPosition =
          t.seq.numTokens - 1 + ropeDelta.getD 0

/-- What the compaction of one member comes to: `seq` before, `seq'` after. -/
structure CompactedMember {α β : Type} (blockSize : ℕ) (store store' : KVStore α β)
    (plan : KVCompactionPlan) (seq seq' : Sequence H) : Prop where
  sorted : SortedUnique plan.retainedOriginalPositions
  rows : ∀ i (hi : i < plan.retainedOriginalPositions.length),
    store'.row (slotOf seq'.blockTable blockSize i) =
      store.row (slotOf seq.blockTable blockSize plan.retainedOriginalPositions[i])
  table : seq'.blockTable <+: seq.blockTable
  shortest : IsLeast {pages | plan.retainedOriginalPositions.length +
    (seq.numPromptTokens - compactedLogicalLen seq) ≤ pages * blockSize} seq'.blockTable.length
  later : Executed seq → CompactsNow seq → 1 < blockSize →
    Lands blockSize plan.retainedOriginalPositions.length (compactedLogicalLen seq) seq'

namespace CompactionBatch

variable {manager : BlockManager H} {live seqs : List (Sequence H)} {kvDtype : String}
  {plans : List KVCompactionPlan} {α β : Type} {device : CopyDevice} {store store' : KVStore α β}

/-- A plan that names a member was built for it. -/
theorem builtFor (h : CompactionBatch manager live seqs kvDtype plans) {seq : Sequence H}
    (hseq : seq ∈ seqs) {plan : KVCompactionPlan} (hplan : plan ∈ plans)
    (hid : plan.seqId = seq.request.seqId) : BuiltPlan manager seq kvDtype plan := by
  obtain ⟨other, hother, hbuilt⟩ := h.built plan hplan
  have hbuilt := built_of_buildCompactionPlan hbuilt
  obtain rfl : other = seq := h.seq_eq hother hseq (hbuilt.seqId.symm.trans hid)
  exact hbuilt

theorem afterCommit_of_plan (hnodup : (plans.map (·.seqId)).Nodup) {seq : Sequence H}
    {plan : KVCompactionPlan} (hplan : plan ∈ plans) (hid : plan.seqId = seq.request.seqId) :
    afterCommit plans seq = compactedSequence plan seq := by
  have hfound := planOf_mem hnodup hplan
  rw [hid] at hfound
  simp only [afterCommit, hfound]

theorem member (h : CompactionBatch manager live seqs kvDtype plans)
    (hcopy : KVStore.compactKvCache device plans store = .ok () store') {seq : Sequence H}
    (hseq : seq ∈ seqs) {plan : KVCompactionPlan} (hplan : plan ∈ plans)
    (hid : plan.seqId = seq.request.seqId) :
    CompactedMember manager.blockSize store store' plan seq (afterCommit plans seq) := by
  have hbuilt := h.builtFor hseq hplan hid
  rw [afterCommit_of_plan (h.copied hcopy).1 hplan hid]
  refine ⟨hbuilt.sorted, fun i hi => h.selected hcopy hplan hbuilt hi, ?_, ?_, ?_⟩
  · change plan.newBlockTable <+: seq.blockTable
    rw [hbuilt.newBlockTable]
    exact List.take_prefix _ _
  · change IsLeast _ plan.newBlockTable.length
    rw [hbuilt.length_newBlockTable]
    exact pagesFor_isLeast hbuilt.size_pos _
  · rintro ⟨before, slice, record, hslice, hstart, hcommit⟩ hnow hsize
    have hfollows := hbuilt.follows hnow (commitPrefillExecution_progress hslice hstart hcommit)
    refine ⟨fun later slice hlater hslice hstart usesMrope host =>
      (hlater.follows hsize hfollows).prefill_lands hbuilt.size_pos hslice hstart host,
      fun others t t' hlater hl hsome hresident hreserve ropeDelta temperature => ?_⟩
    have hready := (hlater.follows hsize hfollows).ready hl hsome hresident hreserve
    obtain ⟨hslot, hrow⟩ := hready.decode_lands ropeDelta temperature hbuilt.size_pos
    refine ⟨hslot, hrow, ?_⟩
    obtain ⟨-, table, hseq, -⟩ := hreserve.table hl
    simp only [DecodeSequence.logicalPosition, hseq, Sequence.numTokens]

end CompactionBatch

section Example

/-- A digest that tells short inputs apart. -/
instance smallDigests : Digests ℕ where
  xxh64 input := (input.prefixHash.toList ++ input.tokenIds ++
    input.mmTokenHashes.flatMap fun item => [item.1, item.2]).foldl (fun h x => 1009 * h + x + 1) 7
  surrogate image := image.pixels + 17 * image.patches

/-- Two image tokens and a text token. -/
def imageRequest (id : ℕ) : Request where
  seqId := id
  blockSize := 2
  promptTokenIds := [7, 7, 9]
  promptNonempty := by decide
  maxTokens := 4
  maxTokensPositive := by decide
  ignoreEos := false
  submittedNs := none
  ttftSloNs := none
  images := some ⟨8, [⟨1, 8⟩]⟩
  video := none
  hasPositionIds := true
  hasRopeDelta := true
  imageTokenId := some 7
  imageTokenCount := 2
  videoTokenId := none
  videoTokenCount := 0
  imageMergeSize := 2
  hasPrefixCacheKey := false
  hasMediaTokenHashes := false

end Example

end BlockManager

end PrismInfer
