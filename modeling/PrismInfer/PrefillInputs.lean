import PrismInfer.Contracts
import PrismInfer.Lib.ListBlocks

/-!
# Prefill inputs

The host side of a flattened variable-length prefill batch: token offsets, the KV slot of
every query token, and the page tables of a batch with prior rows. M-RoPE positions and
media payloads take no part in it.
-/
namespace PrismInfer
open StateExcept ListBlocks

inductive PrefillInputError
  | batchEmpty
  | swapped (ids : List ℕ)
  | sliceCount
  | sliceEmpty (start stop : ℕ)
  | sliceId (slice seq : ℕ)
  | sliceExceedsPrompt (seq stop promptTokens : ℕ)
  | positionIdsMissing (ids : List ℕ)
  | tableTooShort (seq blocks required : ℕ)
  | tableMissing (ids : List ℕ)
deriving DecidableEq, Repr

/-- `_PrefillHostBatch`. -/
structure PrefillHostBatch where
  inputIds : List ℕ := []
  textPositions : List ℕ := []
  cuSeqlensQ : List ℕ := [0]
  cuSeqlensK : List ℕ := [0]
  maxSeqlenQ : ℕ := 0
  maxSeqlenK : ℕ := 0
  slotMapping : List ℤ := []
deriving DecidableEq, Repr

/-- The fields of `Context` that prefill attention reads. -/
structure PrefillContext where
  cuSeqlensQ : List ℕ
  cuSeqlensK : List ℕ
  maxSeqlenQ : ℕ
  maxSeqlenK : ℕ
  slotMapping : List ℤ
  contextLens : Option (List ℕ)
  blockTables : Option (List (List ℤ))
deriving DecidableEq, Repr

def PrefillHostBatch.context (host : PrefillHostBatch) (contextLens : Option (List ℕ))
    (blockTables : Option (List (List ℤ))) : PrefillContext where
  cuSeqlensQ := host.cuSeqlensQ
  cuSeqlensK := host.cuSeqlensK
  maxSeqlenQ := host.maxSeqlenQ
  maxSeqlenK := host.maxSeqlenK
  slotMapping := host.slotMapping
  contextLens := contextLens
  blockTables := blockTables

structure PreparedPrefill where
  inputIds : List ℕ
  textPositions : List ℕ
  context : PrefillContext
deriving DecidableEq, Repr

variable {H : Type}

/-- One member of a prefill batch. -/
abbrev PrefillItem (H : Type) := Sequence H × PrefillSlice

namespace PrefillItem

variable (item : PrefillItem H)

def queryLength : ℕ := item.2.tokenEnd - item.2.tokenStart

/-- The rows already materialized when the slice starts. -/
def physicalQueryStart : ℕ :=
  match item.1.kvLayout with
  | none => item.2.tokenStart
  | some layout => layout.physicalKvLen

def keyLength : ℕ := item.physicalQueryStart + item.queryLength

/-- The flat slot of a physical row. -/
def slot (blockSize row : ℕ) : ℕ :=
  item.1.blockTable.getD (row / blockSize) 0 * blockSize + row % blockSize

/-- The entry of `context_lens`. -/
def contextLen : ℕ :=
  match item.1.kvLayout with
  | none => item.2.tokenEnd
  | some layout => layout.physicalKvLen + item.2.numTokens

end PrefillItem

def validatePrefillBatch (seqs : List (Sequence H)) : Except PrefillInputError Unit := do
  ensure (seqs ≠ []) .batchEmpty
  let swapped := seqs.filter fun seq => seq.cpuBlockTable ≠ []
  ensure (swapped = []) (.swapped (swapped.map (·.request.seqId)))

/-- Every slice passes through the constructor's check, then the batch's. -/
def checkPrefillSlice (item : PrefillItem H) : Except PrefillInputError Unit := do
  ensure (item.2.tokenStart < item.2.tokenEnd) (.sliceEmpty item.2.tokenStart item.2.tokenEnd)
  ensure (item.2.sequenceId = item.1.request.seqId)
    (.sliceId item.2.sequenceId item.1.request.seqId)
  ensure (item.2.tokenEnd ≤ item.1.numPromptTokens)
    (.sliceExceedsPrompt item.1.request.seqId item.2.tokenEnd item.1.numPromptTokens)

def normalizePrefillSlices (seqs : List (Sequence H)) (slices : Option (List PrefillSlice)) :
    Except PrefillInputError (List PrefillSlice) := do
  let slices := slices.getD <| seqs.map fun seq =>
    ⟨seq.request.seqId, seq.effectivePrefillStart, seq.numPromptTokens⟩
  ensure (slices.length = seqs.length) .sliceCount
  let _ ← (seqs.zip slices).mapM checkPrefillSlice
  pure slices

def appendPrefillSequence (blockSize : ℕ) (usesMrope : Bool) (host : PrefillHostBatch)
    (item : PrefillItem H) : Except PrefillInputError PrefillHostBatch := do
  let queryStart := item.2.tokenStart
  let tokenEnd := item.2.tokenEnd
  let queryLength := tokenEnd - queryStart
  let keyLength := item.physicalQueryStart + queryLength
  let host :=
    { host with
      inputIds := host.inputIds ++ slice item.1.tokenIds queryStart tokenEnd
      textPositions := if usesMrope then host.textPositions
        else host.textPositions ++ List.range' queryStart queryLength
      cuSeqlensQ := host.cuSeqlensQ ++ [host.cuSeqlensQ.getLastD 0 + queryLength]
      cuSeqlensK := host.cuSeqlensK ++ [host.cuSeqlensK.getLastD 0 + keyLength]
      maxSeqlenQ := max queryLength host.maxSeqlenQ
      maxSeqlenK := max keyLength host.maxSeqlenK }
  -- a warmup sequence owns no pages
  if item.1.blockTable = [] then pure host
  else do
    let requiredBlocks := pagesFor keyLength blockSize
    ensure (requiredBlocks ≤ item.1.blockTable.length)
      (.tableTooShort item.1.request.seqId item.1.blockTable.length requiredBlocks)
    pure { host with
      slotMapping := host.slotMapping ++
        (List.range' item.physicalQueryStart queryLength).map fun row =>
          (item.slot blockSize row : ℤ) }

/-- The page tables, padded with -1 to the longest. -/
def prepareBlockTables (seqs : List (Sequence H)) :
    Except PrefillInputError (List (List ℤ)) := do
  validatePrefillBatch seqs
  let missing := seqs.filter fun seq => seq.blockTable = []
  ensure (missing = []) (.tableMissing (missing.map (·.request.seqId)))
  let maxBlocks := (seqs.map fun seq => seq.blockTable.length).foldl max 0
  pure <| seqs.map fun seq => seq.blockTable.map (fun id : ℕ => (id : ℤ)) ++
    List.replicate (maxBlocks - seq.blockTable.length) (-1)

def preparePrefill (blockSize : ℕ) (seqs : List (Sequence H))
    (prefillSlices : Option (List PrefillSlice)) : Except PrefillInputError PreparedPrefill := do
  validatePrefillBatch seqs
  let slices ← normalizePrefillSlices seqs prefillSlices
  let usesMrope := seqs.any (·.request.hasPositionIds)
  let missing := seqs.filter fun seq =>
    (seq.request.images.isSome || seq.request.video.isSome) && !seq.request.hasPositionIds
  ensure (missing = []) (.positionIdsMissing (missing.map (·.request.seqId)))
  let host ← (seqs.zip slices).foldlM (appendPrefillSequence blockSize usesMrope) {}
  -- one sequence with prior rows makes the whole batch paged
  if host.cuSeqlensQ.getLastD 0 < host.cuSeqlensK.getLastD 0 then do
    let blockTables ← prepareBlockTables seqs
    let contextLens := (seqs.zip slices).map PrefillItem.contextLen
    pure ⟨host.inputIds, host.textPositions,
      host.context (some contextLens) (some blockTables)⟩
  else pure ⟨host.inputIds, host.textPositions, host.context none none⟩

section Batch

abbrev prefillItems (seqs : List (Sequence H)) (slices : List PrefillSlice) :
    List (PrefillItem H) :=
  seqs.zip slices

/-- A batch that the preparation accepts, whose sequences own the pages of their rows. -/
structure PrefillBatch (blockSize : ℕ) (seqs : List (Sequence H))
    (slices : List PrefillSlice) : Prop where
  nonempty : seqs ≠ []
  resident : ∀ seq ∈ seqs, seq.cpuBlockTable = []
  length : slices.length = seqs.length
  checked : ∀ item ∈ prefillItems seqs slices, checkPrefillSlice item = .ok ()
  positions : ∀ seq ∈ seqs, seq.request.images.isSome ∨ seq.request.video.isSome →
    seq.request.hasPositionIds
  table : ∀ seq ∈ seqs, seq.blockTable ≠ []
  covered : ∀ item ∈ prefillItems seqs slices,
    pagesFor item.keyLength blockSize ≤ item.1.blockTable.length

namespace PrefillItem

/-- The slots of the query tokens of an item. -/
def querySlots (blockSize : ℕ) (item : PrefillItem H) : List ℤ :=
  (List.range' item.physicalQueryStart item.queryLength).map fun row =>
    (item.slot blockSize row : ℤ)

/-- Has the sequence rows before its slice? -/
def HasPriorRows (item : PrefillItem H) : Prop := 0 < item.physicalQueryStart

end PrefillItem

variable {blockSize : ℕ} {batch : List (PrefillItem H)}

/-- What the accumulators hold after some items. -/
structure PrefillHostBatch.Holds (blockSize : ℕ) (batch : List (PrefillItem H))
    (host : PrefillHostBatch) : Prop where
  cuSeqlensQ : host.cuSeqlensQ = offsets (batch.map PrefillItem.queryLength)
  cuSeqlensK : host.cuSeqlensK = offsets (batch.map PrefillItem.keyLength)
  slotMapping : host.slotMapping = batch.flatMap (PrefillItem.querySlots blockSize)

theorem appendPrefillSequence_ok (usesMrope : Bool) {host : PrefillHostBatch}
    {item : PrefillItem H} (h : host.Holds blockSize batch) (htable : item.1.blockTable ≠ [])
    (hcovered : pagesFor item.keyLength blockSize ≤ item.1.blockTable.length) :
    ∃ host', appendPrefillSequence blockSize usesMrope host item = .ok host' ∧
      host'.Holds blockSize (batch ++ [item]) := by
  unfold appendPrefillSequence
  rw [if_neg htable]
  refine ⟨_, by simp only [except_bind_ok, ensure_ok, except_pure_ok]; exact ⟨(), hcovered, rfl⟩,
    ⟨?_, ?_, ?_⟩⟩
  · rw [List.map_append, List.map_singleton, offsets_concat, h.cuSeqlensQ, getLastD_offsets]
    rfl
  · rw [List.map_append, List.map_singleton, offsets_concat, h.cuSeqlensK, getLastD_offsets]
    rfl
  · rw [List.flatMap_append, List.flatMap_singleton, h.slotMapping]
    rfl

theorem foldlM_appendPrefillSequence_ok (usesMrope : Bool)
    (htable : ∀ item ∈ batch, item.1.blockTable ≠ [])
    (hcovered : ∀ item ∈ batch, pagesFor item.keyLength blockSize ≤ item.1.blockTable.length) :
    ∃ host, batch.foldlM (appendPrefillSequence blockSize usesMrope) {} = .ok host ∧
      host.Holds blockSize batch := by
  induction batch using List.reverseRecOn with
  | nil => exact ⟨{}, rfl, rfl, rfl, rfl⟩
  | append_singleton batch item ih =>
    obtain ⟨host, hrun, hholds⟩ := ih
      (fun i hi => htable i (List.mem_append_left _ hi))
      (fun i hi => hcovered i (List.mem_append_left _ hi))
    obtain ⟨host', hstep, hholds'⟩ := appendPrefillSequence_ok usesMrope hholds
      (htable item (by simp)) (hcovered item (by simp))
    refine ⟨host', ?_, hholds'⟩
    simp only [List.foldlM_append, List.foldlM_cons, List.foldlM_nil, except_bind_ok,
      except_pure_ok]
    exact ⟨host, hrun, host', hstep, rfl⟩

theorem PrefillItem.contextLen_eq {item : PrefillItem H}
    (h : checkPrefillSlice item = .ok ()) : item.contextLen = item.keyLength := by
  simp only [checkPrefillSlice, except_bind_ok, ensure_ok] at h
  obtain ⟨-, hlt, -⟩ := h
  unfold PrefillItem.contextLen PrefillItem.keyLength PrefillItem.physicalQueryStart
    PrefillItem.queryLength
  cases item.1.kvLayout with
  | none => simp only; omega
  | some layout => rfl

/-- The page table of a sequence as the kernels see it. -/
def paddedTable (maxBlocks : ℕ) (seq : Sequence H) : List ℤ :=
  seq.blockTable.map (fun id : ℕ => (id : ℤ)) ++
    List.replicate (maxBlocks - seq.blockTable.length) (-1)

variable {seqs : List (Sequence H)} {slices : List PrefillSlice}

theorem validatePrefillBatch_ok (h : PrefillBatch blockSize seqs slices) :
    validatePrefillBatch seqs = .ok () := by
  have hswapped : seqs.filter (fun seq => seq.cpuBlockTable ≠ []) = [] := by
    apply List.filter_eq_nil_iff.mpr
    intro seq hseq
    simp [h.resident seq hseq]
  simp only [validatePrefillBatch, except_bind_ok, ensure_ok]
  exact ⟨(), h.nonempty, hswapped⟩

theorem prepareBlockTables_ok (h : PrefillBatch blockSize seqs slices) :
    ∃ maxBlocks, prepareBlockTables seqs = .ok (seqs.map (paddedTable maxBlocks)) := by
  have hmissing : seqs.filter (fun seq => seq.blockTable = []) = [] := by
    apply List.filter_eq_nil_iff.mpr
    intro seq hseq
    simpa using h.table seq hseq
  refine ⟨(seqs.map fun seq => seq.blockTable.length).foldl max 0, ?_⟩
  simp only [prepareBlockTables, except_bind_ok, ensure_ok, except_pure_ok]
  exact ⟨(), validatePrefillBatch_ok h, (), hmissing, rfl⟩

theorem normalizePrefillSlices_ok (h : PrefillBatch blockSize seqs slices) :
    normalizePrefillSlices seqs (some slices) = .ok slices := by
  have hmap : (prefillItems seqs slices).mapM checkPrefillSlice =
      .ok ((prefillItems seqs slices).map fun _ => ()) := by
    rw [mapM_ok, List.forall₂_map_right_iff, List.forall₂_same]
    exact h.checked
  simp only [normalizePrefillSlices, except_bind_ok, ensure_ok, except_pure_ok, Option.getD_some]
  exact ⟨(), h.length, _, hmap, trivial⟩

theorem zip_fst_mem {item : PrefillItem H} (h : item ∈ prefillItems seqs slices) : item.1 ∈ seqs :=
  (List.of_mem_zip h).1

/-- The batch is paged exactly when one of its sequences has prior rows. -/
theorem sum_queryLength_lt_iff (batch : List (PrefillItem H)) :
    (batch.map PrefillItem.queryLength).sum < (batch.map PrefillItem.keyLength).sum ↔
      ∃ item ∈ batch, item.HasPriorRows := by
  induction batch with
  | nil => simp
  | cons item batch ih =>
    have hle : (batch.map PrefillItem.queryLength).sum ≤ (batch.map PrefillItem.keyLength).sum :=
      List.sum_le_sum fun item _ => Nat.le_add_left _ _
    have hkey : item.keyLength = item.physicalQueryStart + item.queryLength := rfl
    rw [List.exists_mem_cons_iff, ← ih, List.map_cons, List.sum_cons, List.map_cons,
      List.sum_cons, hkey, PrefillItem.HasPriorRows]
    omega

/-- The context of a batch, with or without its page tables. -/
structure PrefillContext.Describes (blockSize : ℕ) (seqs : List (Sequence H))
    (slices : List PrefillSlice) (context : PrefillContext) : Prop where
  cuSeqlensQ : context.cuSeqlensQ = offsets ((prefillItems seqs slices).map PrefillItem.queryLength)
  cuSeqlensK : context.cuSeqlensK = offsets ((prefillItems seqs slices).map PrefillItem.keyLength)
  slotMapping : context.slotMapping =
    (prefillItems seqs slices).flatMap (PrefillItem.querySlots blockSize)

/-- The tables and context lengths of a paged context. -/
structure PrefillContext.Paged (blockSize : ℕ) (seqs : List (Sequence H))
    (slices : List PrefillSlice) (context : PrefillContext) : Prop
    extends context.Describes blockSize seqs slices where
  blockTables : ∃ maxBlocks, context.blockTables = some (seqs.map (paddedTable maxBlocks))
  contextLens : context.contextLens = some ((prefillItems seqs slices).map PrefillItem.keyLength)

theorem map_contextLen (h : PrefillBatch blockSize seqs slices) :
    (prefillItems seqs slices).map PrefillItem.contextLen =
    (prefillItems seqs slices).map PrefillItem.keyLength :=
  List.map_congr_left fun item hitem => PrefillItem.contextLen_eq (h.checked item hitem)

theorem preparePrefill_ok (h : PrefillBatch blockSize seqs slices) :
    ∃ prepared, preparePrefill blockSize seqs (some slices) = .ok prepared ∧
      prepared.context.Describes blockSize seqs slices ∧
      ((∃ item ∈ prefillItems seqs slices, item.HasPriorRows) →
        prepared.context.Paged blockSize seqs slices) ∧
      ((∀ item ∈ prefillItems seqs slices, ¬item.HasPriorRows) →
        prepared.context.blockTables = none) := by
  have hmissing : seqs.filter (fun seq => (seq.request.images.isSome || seq.request.video.isSome) &&
      !seq.request.hasPositionIds) = [] := by
    apply List.filter_eq_nil_iff.mpr
    intro seq hseq
    simpa using h.positions seq hseq
  obtain ⟨host, hrun, hholds⟩ := foldlM_appendPrefillSequence_ok
    (seqs.any (·.request.hasPositionIds))
    (fun item hitem => h.table item.1 (zip_fst_mem hitem)) h.covered
  obtain ⟨maxBlocks, htables⟩ := prepareBlockTables_ok h
  have hpaged := sum_queryLength_lt_iff (prefillItems seqs slices)
  rw [← getLastD_offsets, ← getLastD_offsets, ← hholds.cuSeqlensQ, ← hholds.cuSeqlensK] at hpaged
  have hdescribes : ∀ lens tables, (host.context lens tables).Describes blockSize seqs slices :=
    fun _ _ => ⟨hholds.cuSeqlensQ, hholds.cuSeqlensK, hholds.slotMapping⟩
  by_cases hprior : ∃ item ∈ prefillItems seqs slices, item.HasPriorRows
  · refine ⟨⟨host.inputIds, host.textPositions,
      host.context (some ((prefillItems seqs slices).map PrefillItem.contextLen))
        (some (seqs.map (paddedTable maxBlocks)))⟩, ?_, hdescribes _ _, fun _ => ?_,
          fun hnone => ?_⟩
    · simp only [preparePrefill, except_bind_ok, ensure_ok]
      refine ⟨(), validatePrefillBatch_ok h, slices, normalizePrefillSlices_ok h, (), hmissing,
        host, hrun, ?_⟩
      rw [if_pos (hpaged.mpr hprior)]
      simp only [except_bind_ok, except_pure_ok]
      exact ⟨_, htables, rfl⟩
    · exact ⟨hdescribes _ _, ⟨maxBlocks, rfl⟩, congrArg some (map_contextLen h)⟩
    · obtain ⟨item, hitem, hrows⟩ := hprior
      exact absurd hrows (hnone item hitem)
  · refine ⟨⟨host.inputIds, host.textPositions, host.context none none⟩, ?_, hdescribes _ _,
      fun hsome => absurd hsome hprior, fun _ => rfl⟩
    simp only [preparePrefill, except_bind_ok, ensure_ok]
    refine ⟨(), validatePrefillBatch_ok h, slices, normalizePrefillSlices_ok h, (), hmissing,
      host, hrun, ?_⟩
    rw [if_neg (hpaged.not.mpr hprior)]
    exact rfl

end Batch

end PrismInfer
