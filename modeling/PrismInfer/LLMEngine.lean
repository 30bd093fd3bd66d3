import PrismInfer.KVCompactionCopy
import PrismInfer.Lib.EveryRun
import PrismInfer.Scheduler

/-!
# The step loop

`LLMEngine` asks the scheduler for a plan, lets `ModelExecutor` run it and commits the result.
A prefill may be paused between two quanta; decode steps and urgent prefills run meanwhile. The
clock, the progress of a paused prefill and the sampled tokens are inputs of a step.
-/
namespace PrismInfer
open StateExcept EveryRun

/-- The calls that reach the runner. -/
inductive RunnerCall
  | swapIn (pairs : List BlockPair)
  | swapOut (pairs : List BlockPair)
  | copyPrefix (copies : List BlockPrefixCopy)
  | copyOnWrite (pairs : List BlockPair)
  | runPlan (plan : BatchPlan)
  | beginPrefill (plan : BatchPlan)
  | advancePrefill (plan : BatchPlan)
  | finishPrefill (plan : BatchPlan)
  | compactKvCache (plans : List KVCompactionPlan)
deriving DecidableEq

/-- What the forward pass of a batch comes to: a token and a pruning decision for each member. -/
structure RunnerAnswer where
  token : ℕ → ℕ
  decision : ℕ → Option CompressionRecord

/-- What becomes of the pages of a computed prompt. -/
inductive CompressionEffect
  | compact
  | dense
  | other
deriving DecidableEq, Repr

structure LLMEngineConfig where
  enableCooperativePrefill : Bool
  heavyPrefillVisionPatchThreshold : ℕ
  compression : CompressionEffect
  kvDtype : String

/-- The checks of the executor and its backend on a plan. -/
inductive PlanCheckError
  | chunkTooLarge (seqId chunk maxChunk : ℕ)
  | visionBudget (patches limit : ℕ)
deriving DecidableEq, Repr

def PlanCheckError.message : PlanCheckError → String
  | .chunkTooLarge seqId chunk maxChunk =>
    s!"invalid scheduled prefill chunk: seq={seqId} chunk={chunk} max_chunk={maxChunk}"
  | .visionBudget patches limit =>
    s!"prefill plan exceeds the vision patch budget: patches={patches} limit={limit}"

inductive StepError
  | engine (e : EngineError)
  | planCheck (e : PlanCheckError)
deriving DecidableEq, Repr

structure LLMEngine (H : Type) where
  scheduler : Scheduler H
  pendingPrefill : Option BatchPlan
  decodeAfterSloPrefillInterrupt : Bool
  cooperativePrefillFineGrainActive : Bool
  calls : List RunnerCall

/-- The readings of the clock and the answers of the runner during one step. -/
structure StepInput where
  coalesceNs : ℕ
  deadlineNs : ℕ
  pendingNs : ℕ
  prepared : ℕ → Option CompressionRecord
  complete : Bool
  answer : RunnerAnswer

/-- A committed batch. -/
structure StepResult where
  plan : BatchPlan
  tokenIds : List (Option ℕ)
  outputs : List RequestOutput

abbrev LLMEngineAction (H α : Type) := EStateM StepError (LLMEngine H) α

variable {H : Type} [DecidableEq H] [Digests H]

namespace LLMEngine

/-- A call of the scheduler, or of the block manager it shares with the executor. -/
def onScheduler {α : Type} (x : SchedulerAction H α) : LLMEngineAction H α :=
  mapError .engine (zoom LLMEngine.scheduler (fun s d => { d with scheduler := s }) x)

/-- A decision that reads the scheduler only. -/
def inspect {α : Type} (f : Scheduler H → Except EngineError α) : LLMEngineAction H α :=
  onScheduler do readOnly (f (← get))

def call (c : RunnerCall) : LLMEngineAction H Unit :=
  modify fun d => { d with calls := d.calls ++ [c] }

end LLMEngine

namespace ModelExecutor
open LLMEngine

/-! ### Execution of a plan -/

/-- `_validate_execution_plan`. -/
def validateExecutionPlan (plan : BatchPlan) (s : Scheduler H) : Except StepError Unit :=
  if plan.isPrefill = true ∧ s.config.policy.limits.enableChunkedPrefill = true ∧
      ∀ id ∈ plan.sequenceIds, (s.seqs id).blockTable ≠ [] then
    plan.prefillSlices.forM fun slice =>
      ensure (slice.numTokens ≤ s.config.policy.limits.maxChunkSize)
        (.planCheck (.chunkTooLarge slice.sequenceId slice.numTokens
          s.config.policy.limits.maxChunkSize))
  else pure ()

/-- The budget check of `ModelExecutionBackend.prepare`. -/
def checkVisionBudget (plan : BatchPlan) (s : Scheduler H) : Except StepError Unit :=
  if plan.isPrefill then
    match plan.numScheduledVisionPatches s.seqs with
    | .error e => throw (.engine e)
    | .ok patches =>
      ensure (plan.sequenceIds.length ≤ 1 ∨ patches ≤ s.config.maxVisionPatchesPerBatch)
        (.planCheck (.visionBudget patches s.config.maxVisionPatchesPerBatch))
  else pure ()

def prepare (plan : BatchPlan) : LLMEngineAction H Unit := do
  let d ← get
  readOnly (validateExecutionPlan plan d.scheduler)
  readOnly (checkVisionBudget plan d.scheduler)

/-- `_commit_prefill_execution` for one member: its token counts once the prompt is computed. -/
def commitMember (answer : RunnerAnswer) (id : ℕ) (slice : PrefillSlice) :
    LLMEngineAction H (Option ℕ) := do
  let seq ← inspect fun s => commitPrefillExecution (answer.decision id) slice (s.seqs id)
  onScheduler (Scheduler.modifySeq id fun _ => seq)
  pure (if seq.isPrefillFinished then some (answer.token id) else none)

def commitMembers (answer : RunnerAnswer) (plan : BatchPlan) :
    LLMEngineAction H (List (Option ℕ)) :=
  mapEach (fun member => commitMember answer member.1 member.2)
    (plan.sequenceIds.zip plan.prefillSlices)

/-- The compaction plan of one member, if it is due. -/
def buildPlan (config : LLMEngineConfig) (id : ℕ) :
    LLMEngineAction H (Option KVCompactionPlan) := do
  let d ← get
  if BlockManager.CompactsNow (d.scheduler.seqs id) then
    onScheduler (Scheduler.onSeq id (BlockManager.buildCompactionPlan config.kvDtype))
  else pure none

def commitPlan (plans : List KVCompactionPlan) (id : ℕ) : LLMEngineAction H Unit := do
  let d ← get
  match BlockManager.planOf plans (d.scheduler.seqs id).request.seqId with
  | none => pure ()
  | some plan => onScheduler (Scheduler.onSeq id (BlockManager.commitCompaction plan))

/-- Store the prefix of a computed prompt that did not come from an entry itself. -/
def storePrefix (compacted : Bool) (id : ℕ) : LLMEngineAction H Unit := do
  let d ← get
  let seq := d.scheduler.seqs id
  when (seq.isPrefillFinished = true ∧ seq.multimodalPrefixCacheHit = false ∧
      (compacted = true → seq.hasCompactKvLayout = true)) do
    let _ ← onScheduler (Scheduler.onSeq id BlockManager.storeMultimodalPrefix)
    pure ()

def commitVisualCompaction (config : LLMEngineConfig) (plan : BatchPlan) :
    LLMEngineAction H Unit :=
  if plan.isPrefill then
    match config.compression with
    | .compact => do
      let plans ← mapEach (buildPlan config) plan.sequenceIds
      call (.compactKvCache plans.reduceOption)
      forEach (commitPlan plans.reduceOption) plan.sequenceIds
      forEach (storePrefix true) plan.sequenceIds
    | .dense => forEach (storePrefix false) plan.sequenceIds
    | .other => pure ()
  else pure ()

/-- Swap-ins before swap-outs before copies: a source is read before its page is reused. -/
def execute (config : LLMEngineConfig) (plan : BatchPlan) (answer : RunnerAnswer) :
    LLMEngineAction H (List (Option ℕ)) := do
  when (plan.kvTransfers.swapIn ≠ []) (call (.swapIn plan.kvTransfers.swapIn))
  when (plan.kvTransfers.swapOut ≠ []) (call (.swapOut plan.kvTransfers.swapOut))
  when (plan.kvTransfers.copyPrefix ≠ []) (call (.copyPrefix plan.kvTransfers.copyPrefix))
  when (plan.kvTransfers.copyOnWrite ≠ []) (call (.copyOnWrite plan.kvTransfers.copyOnWrite))
  call (.runPlan plan)
  prepare plan
  let tokens ← if plan.isPrefill then commitMembers answer plan
    else pure (plan.sequenceIds.map fun id => some (answer.token id))
  commitVisualCompaction config plan
  pure tokens

/-- Prepare a prefill and pause before its first block. -/
def beginPrefill (plan : BatchPlan) (prepared : ℕ → Option CompressionRecord) :
    LLMEngineAction H Unit := do
  require (plan.phase = .prefill) (.engine (.execution .notPrefillPlan))
  require (plan.kvTransfers.swapIn = [] ∧ plan.kvTransfers.swapOut = [])
    (.engine (.execution .cooperativeSwap))
  when (plan.kvTransfers.copyPrefix ≠ []) (call (.copyPrefix plan.kvTransfers.copyPrefix))
  when (plan.kvTransfers.copyOnWrite ≠ []) (call (.copyOnWrite plan.kvTransfers.copyOnWrite))
  call (.beginPrefill plan)
  prepare plan
  forEach (fun id => onScheduler (Scheduler.modifySeq id fun seq => { seq with
      visualPruningDecisionRecord := (prepared id).or seq.visualPruningDecisionRecord }))
    plan.sequenceIds

def finishPrefill (config : LLMEngineConfig) (plan : BatchPlan) (answer : RunnerAnswer) :
    LLMEngineAction H (List (Option ℕ)) := do
  call (.finishPrefill plan)
  let tokens ← commitMembers answer plan
  commitVisualCompaction config plan
  pure tokens

end ModelExecutor

namespace LLMEngine

/-! ### Deadlines -/

/-- Fewest waiting requests that make an efficient batch. -/
def coalesceMinSequences : ℕ := 3

def coalesceMaxWaitNs : ℕ := 250000000

/-- The latest start that keeps a request's deadline. -/
def releaseNs (options : SLOAwareOptions) (seq : Sequence H) : Except EngineError (Option ℤ) :=
  match seq.request.ttftDeadlineNs with
  | none => pure none
  | some deadline => do
    let reserve ← options.prefillReserveNs seq
    pure (some ((deadline : ℤ) - reserve))

def isSloLightPrefillPlan (plan : BatchPlan) (s : Scheduler H) : Except EngineError Bool :=
  match s.config.policy.sloOptions with
  | none => pure false
  | some options =>
    if plan.sequenceIds.any fun id => (s.seqs id).request.ttftSloNs.isSome then
      plan.sequenceIds.allM fun id => do
        let tier ← options.prefillCostTier (s.seqs id)
        pure (decide (tier < 2))
    else pure false

def isSloDeadlineAtomicPlan (plan : BatchPlan) (nowNs : ℕ) (s : Scheduler H) :
    Except EngineError Bool :=
  match s.config.policy.sloOptions with
  | none => pure false
  | some options => plan.sequenceIds.anyM fun id => do
    let release ← releaseNs options (s.seqs id)
    pure (release.any (· ≤ (nowNs : ℤ)))

def sloPendingPrefillReleaseNs (plan : BatchPlan) (s : Scheduler H) :
    Except EngineError (Option ℤ) :=
  match s.config.policy.sloOptions with
  | none => pure none
  | some options => do
    let releases ← plan.sequenceIds.mapM fun id => releaseNs options (s.seqs id)
    pure releases.reduceOption.min?

/-- The cost tier of the paused prefill, where a cheaper waiting request is due. -/
def sloPrefillInterrupt (plan : BatchPlan) (nowNs : ℕ) (s : Scheduler H) :
    Except EngineError (Option ℕ) :=
  match s.config.policy.sloOptions with
  | none => pure none
  | some options =>
    if s.waiting = [] then pure none
    else do
      let tiers ← plan.sequenceIds.mapM fun id => options.prefillCostTier (s.seqs id)
      let pendingTier := tiers.min?.getD 0
      if pendingTier = 0 then pure none
      else do
        let due ← s.waiting.mapM fun id => do
          let tier ← options.prefillCostTier (s.seqs id)
          if pendingTier ≤ tier then pure false
          else do
            let release ← releaseNs options (s.seqs id)
            pure (release.any (· ≤ (nowNs : ℤ)))
        pure (if true ∈ due then some pendingTier else none)

/-- Wait briefly for an efficient atomic prefill batch. -/
def shouldCoalescePrefill (config : LLMEngineConfig) (nowNs : ℕ) (s : Scheduler H) :
    Except EngineError Bool :=
  match s.config.policy.sloOptions with
  | none => pure false
  | some options =>
    if config.enableCooperativePrefill = false ∨ s.hasDecodeWork = false ∨ s.waiting = [] ∨
        coalesceMinSequences ≤ s.waiting.length then pure false
    else match (s.waiting.filterMap fun id => (s.seqs id).request.submittedNs).min? with
      | none => pure false
      | some submitted => do
        let releases ← s.waiting.mapM fun id => releaseNs options (s.seqs id)
        let release := releases.reduceOption.foldl min ((submitted + coalesceMaxWaitNs : ℕ) : ℤ)
        pure (decide ((nowNs : ℤ) < release))

/-! ### Cooperative prefill -/

/-- Latched once decode reaches a quarter of the capacity. -/
def fineGrainEnabled : LLMEngineAction H Bool := do
  let d ← get
  when (max 1 ((d.scheduler.config.maxNumSeqs + 3) / 4) ≤ d.scheduler.decodeWorkCount) do
    modify fun d => { d with cooperativePrefillFineGrainActive := true }
  let d ← get
  pure d.cooperativePrefillFineGrainActive

/-- A light plan under deadlines is paused only while decode is busy. -/
def staysAtomic (config : LLMEngineConfig) (patches : ℕ) : LLMEngineAction H Bool := do
  let d ← get
  if d.scheduler.config.policy.sloOptions.isSome = true ∧
      patches < config.heavyPrefillVisionPatchThreshold then do
    let fine ← fineGrainEnabled
    pure !fine
  else pure false

def startCooperativePrefillIfUseful (config : LLMEngineConfig) (input : StepInput)
    (plan : BatchPlan) : LLMEngineAction H Bool := do
  let d ← get
  if config.enableCooperativePrefill = false ∨ plan.isPrefill = false ∨
      d.scheduler.hasDecodeWork = false then pure false
  else if ← inspect (isSloLightPrefillPlan plan) then pure false
  else if ← inspect (isSloDeadlineAtomicPlan plan input.deadlineNs) then pure false
  else if d.scheduler.config.policy.sloOptions.isSome = true ∧
      coalesceMinSequences ≤ plan.sequenceIds.length then pure false
  else do
    let patches ← inspect fun s => plan.numScheduledVisionPatches s.seqs
    if ← staysAtomic config patches then pure false
    else do
      ModelExecutor.beginPrefill plan input.prepared
      modify fun d => { d with pendingPrefill := some plan }
      pure true

/-- The adaptive quantum reads the latch; one quantum of the paused prefill follows. -/
def advancePrefill (plan : BatchPlan) (complete : Bool) : LLMEngineAction H Bool := do
  let d ← get
  when (d.scheduler.config.policy.sloOptions.isSome = true) do
    let _ ← fineGrainEnabled
    pure ()
  call (.advancePrefill plan)
  pure complete

/-! ### Steps -/

def commitStepResult (plan : BatchPlan) (tokens : List (Option ℕ)) :
    LLMEngineAction H StepResult := do
  let outputs ← onScheduler (Scheduler.postprocess plan tokens)
  let d ← get
  when (d.scheduler.waiting = [] ∧ d.scheduler.running = [] ∧ d.scheduler.swapped = []) do
    modify fun d => { d with cooperativePrefillFineGrainActive := false }
  pure ⟨plan, tokens, outputs⟩

def executePlannedStep (config : LLMEngineConfig) (plan : BatchPlan) (answer : RunnerAnswer) :
    LLMEngineAction H StepResult := do
  let tokens ← ModelExecutor.execute config plan answer
  commitStepResult plan tokens

def finishPendingPrefill (config : LLMEngineConfig) (answer : RunnerAnswer) :
    LLMEngineAction H StepResult := do
  let d ← get
  match d.pendingPrefill with
  | none => throw (.engine (.execution .noPendingPrefill))
  | some plan => do
    let tokens ← ModelExecutor.finishPrefill config plan answer
    modify fun d => { d with pendingPrefill := none }
    commitStepResult plan tokens

/-- Decode what is resident; where nothing is, finish the paused prefill. -/
def residentDecodeStep (config : LLMEngineConfig) (answer : RunnerAnswer) :
    LLMEngineAction H StepResult := do
  match ← onScheduler Scheduler.scheduleResidentDecode with
  | none => finishPendingPrefill config answer
  | some plan => executePlannedStep config plan answer

/-- A step while `pending` is paused. -/
def pendingStep (config : LLMEngineConfig) (input : StepInput) (pending : BatchPlan) :
    LLMEngineAction H StepResult := do
  let release ← inspect (sloPendingPrefillReleaseNs pending)
  match ← inspect (sloPrefillInterrupt pending input.pendingNs) with
  | some tier => do
    let plan ← onScheduler (Scheduler.schedulePrefill (some tier))
    let result ← executePlannedStep config plan input.answer
    modify fun d => { d with decodeAfterSloPrefillInterrupt := true }
    pure result
  | none => do
    let d ← get
    if release.any (· ≤ (input.pendingNs : ℤ)) = true ∨ d.scheduler.hasDecodeWork = false then
      finishPendingPrefill config input.answer
    else if ← advancePrefill pending input.complete then finishPendingPrefill config input.answer
    else residentDecodeStep config input.answer

/-- A step without a paused prefill. -/
def plannedStep (config : LLMEngineConfig) (input : StepInput) : LLMEngineAction H StepResult := do
  if ← inspect (shouldCoalescePrefill config input.coalesceNs) then do
    let plan ← onScheduler Scheduler.scheduleDecode
    executePlannedStep config plan input.answer
  else do
    let plan ← onScheduler Scheduler.schedule
    if ← startCooperativePrefillIfUseful config input plan then
      residentDecodeStep config input.answer
    else executePlannedStep config plan input.answer

/-- `step_result`. -/
def nextStepResult (config : LLMEngineConfig) (input : StepInput) :
    LLMEngineAction H StepResult := do
  let d ← get
  match d.pendingPrefill with
  | none => plannedStep config input
  | some pending =>
    if d.decodeAfterSloPrefillInterrupt = true then do
      modify fun d => { d with decodeAfterSloPrefillInterrupt := false }
      if d.scheduler.hasDecodeWork = true then residentDecodeStep config input.answer
      else pendingStep config input pending
    else pendingStep config input pending

def submitSequence (req : Request) : LLMEngineAction H AdmissionDecision :=
  onScheduler (Scheduler.add req)

/-- A paused prefill with the cancelled member is dropped; its other members retry later. -/
def cancelRequest (id : ℕ) : LLMEngineAction H Bool := do
  let d ← get
  when (∃ plan ∈ d.pendingPrefill, id ∈ plan.sequenceIds) do
    modify fun d => { d with pendingPrefill := none, decodeAfterSloPrefillInterrupt := false }
  onScheduler (Scheduler.cancel id)

def initial (scheduler : Scheduler H) : LLMEngine H where
  scheduler := scheduler
  pendingPrefill := none
  decodeAfterSloPrefillInterrupt := false
  cooperativePrefillFineGrainActive := false
  calls := []

end LLMEngine

end PrismInfer
