import PrismInfer.Contracts
import PrismInfer.SchedulerPolicy

/-!
# The scheduler

Queues of sequence ids over a heap of sequences, planning of prefill and decode batches,
preemption, commit of sampled tokens and cancellation. `events` is a ghost log: it
records page transfers, selections, preemptions and reservations at the moment they are
decided and is never read. Metrics, peaks and the lists of rejected and cancelled sequences are left
out.
-/
namespace PrismInfer
open StateExcept

/-- What the ghost log records. -/
inductive SchedulerEvent
  | transfer (t : Transfer)
  | selected (id : ℕ)
  | admitted (id : ℕ)
  | swapPreempted (id : ℕ)
  | recomputePreempted (id : ℕ)
  | reserved (id : ℕ)
deriving DecidableEq, Repr

structure SchedulerConfig where
  policy : SchedulerPolicy
  maxVisionPatchesPerBatch : ℕ
  eos : ℕ
  maxVisionPatchesPerBatch_pos : 0 < maxVisionPatchesPerBatch

namespace SchedulerConfig

variable (config : SchedulerConfig)

def maxNumSeqs : ℕ := config.policy.limits.maxNumSeqs
def maxNumBatchedTokens : ℕ := config.policy.limits.maxNumBatchedTokens

end SchedulerConfig

structure Scheduler (H : Type) where
  config : SchedulerConfig
  blockManager : BlockManager H
  seqs : ℕ → Sequence H
  waiting : List ℕ
  running : List ℕ
  swapped : List ℕ
  requests : List ℕ
  consecutivePrefillBatches : ℕ
  decodeBatchesSinceHeavyPrefill : ℕ
  lightPrefillBypassesSinceHeavy : ℕ
  events : List SchedulerEvent

abbrev SchedulerAction (H α : Type) := EStateM EngineError (Scheduler H) α

/-- One sequence's contribution to a prefill batch. -/
structure PrefillCandidate where
  sequence : ℕ
  tokenCount : ℕ
  visionPatches : ℕ
  copyPrefix : List BlockPrefixCopy
deriving DecidableEq, Repr

/-- Prefill resources accumulated before a plan is published. -/
structure PrefillBatchBuilder where
  maxTokens : ℕ
  maxSequences : ℕ
  maxVisionPatches : ℕ
  sequences : List ℕ
  tokenCounts : List ℕ
  copyPrefix : List BlockPrefixCopy
  numTokens : ℕ
  numVisionPatches : ℕ
deriving DecidableEq, Repr

namespace PrefillBatchBuilder

variable (batch : PrefillBatchBuilder)

def availableTokens : ℕ := batch.maxTokens - batch.numTokens

abbrev HasSequenceCapacity : Prop := batch.sequences.length < batch.maxSequences

abbrev RequiresDedicatedBatch : Prop :=
  batch.sequences.length = 1 ∧ batch.maxVisionPatches < batch.numVisionPatches

abbrev Accepts (candidate : PrefillCandidate) : Prop :=
  batch.HasSequenceCapacity ∧ candidate.tokenCount ≤ batch.availableTokens ∧
    (batch.sequences = [] ∨
      batch.numVisionPatches + candidate.visionPatches ≤ batch.maxVisionPatches)

def add (candidate : PrefillCandidate) : Except EngineError PrefillBatchBuilder := do
  ensure (0 < candidate.tokenCount) (.scheduler .candidateNotPositive)
  ensure (batch.Accepts candidate) (.scheduler .candidateExceedsLimits)
  pure { batch with
    sequences := batch.sequences ++ [candidate.sequence]
    tokenCounts := batch.tokenCounts ++ [candidate.tokenCount]
    copyPrefix := batch.copyPrefix ++ candidate.copyPrefix
    numTokens := batch.numTokens + candidate.tokenCount
    numVisionPatches := batch.numVisionPatches + candidate.visionPatches }

end PrefillBatchBuilder

namespace Scheduler

variable {H : Type} [DecidableEq H] [Digests H]

/-! ### Access to the heap -/

def readSeq (id : ℕ) : SchedulerAction H (Sequence H) := do return (← get).seqs id

/-- Call a block-manager method on sequence `id`. -/
def onSeq {α : Type} (id : ℕ) : ManagerAction H α → SchedulerAction H α :=
  zoom (fun s => ⟨s.blockManager, s.seqs id⟩) fun t s =>
    { s with blockManager := t.manager, seqs := Function.update s.seqs id t.seq }

def modifySeq (id : ℕ) (f : Sequence H → Sequence H) : SchedulerAction H Unit :=
  modify fun s => { s with seqs := Function.update s.seqs id (f (s.seqs id)) }

def transitionTo (id : ℕ) (target : RequestState) : SchedulerAction H Unit := do
  let seq ← readSeq id
  let seq ← readOnly (seq.transitionTo target)
  modifySeq id fun _ => seq

def record (event : SchedulerEvent) : SchedulerAction H Unit :=
  modify fun s => { s with events := s.events ++ [event] }

def recordTransfers (transfers : List Transfer) : SchedulerAction H Unit :=
  modify fun s => { s with events := s.events ++ transfers.map .transfer }

abbrev HasStatus (s : Scheduler H) (state : RequestState) (id : ℕ) : Prop :=
  (s.seqs id).status = state

/-! ### Prefill planning -/

def prefillCandidate (config : SchedulerConfig) (seq : Sequence H) (availableTokens : ℕ) :
    Except EngineError (Option PrefillCandidate) := do
  let tokenCount := config.policy.prefillTokenCount seq availableTokens
  if tokenCount = 0 then pure none
  else do
    let patches ← seq.request.visionPatchCountForPrefillRange seq.effectivePrefillStart
      (seq.effectivePrefillStart + tokenCount)
    pure (some ⟨seq.request.seqId, tokenCount, patches, []⟩)

/-- Continue unfinished prefills, in queue order, before admission. -/
def collectRunningPrefills (batch : PrefillBatchBuilder) :
    List ℕ → SchedulerAction H PrefillBatchBuilder
  | [] => pure batch
  | id :: rest => do
    let s ← get
    if ¬ s.HasStatus .prefilling id then collectRunningPrefills batch rest
    else if ¬ batch.HasSequenceCapacity then pure batch
    else do
      match ← readOnly (prefillCandidate s.config (s.seqs id) batch.availableTokens) with
      | none => pure batch
      | some candidate =>
        if ¬ batch.Accepts candidate then collectRunningPrefills batch rest
        else do
          let batch ← readOnly (batch.add candidate)
          if batch.RequiresDedicatedBatch then pure batch
          else collectRunningPrefills batch rest

def allocateWaitingPrefill (id availableTokens : ℕ) (batch : PrefillBatchBuilder) :
    SchedulerAction H PrefillCandidate := do
  let copyPrefix ← onSeq id BlockManager.allocate
  recordTransfers (copyPrefix.map fun (source, target, rows) => .copyPrefix source target rows)
  modifySeq id Sequence.skipCached
  let s ← get
  match ← readOnly (prefillCandidate s.config (s.seqs id) availableTokens) with
  | none => do
    onSeq id BlockManager.deallocate
    throw (.scheduler .fullyCachedPrompt)
  | some candidate => do
    let candidate := { candidate with copyPrefix := copyPrefix }
    if ¬ batch.Accepts candidate then do
      onSeq id BlockManager.deallocate
      throw (.scheduler .candidateChanged)
    else do
      tryExcept (transitionTo id .prefilling) fun e => do
        onSeq id BlockManager.deallocate
        throw e
      record (.admitted id)
      modify fun s => { s with waiting := s.waiting.erase id, running := s.running ++ [id] }
      pure candidate

/-- Positions of the waiting requests a prefill of at most the given cost may take. -/
def waitingIndices (s : Scheduler H) (maxSloCostTier : Option ℕ) :
    Except EngineError (List ℕ) :=
  match maxSloCostTier with
  | none => pure (List.range s.waiting.length)
  | some tier =>
    match s.config.policy.sloOptions with
    | none => pure []
    | some options => do
      let tiers ← s.waiting.mapM fun id => options.prefillCostTier (s.seqs id)
      pure (tiers.zipIdx.filterMap fun (cost, index) => if cost < tier then some index else none)

/-- May `id` join the batch that `anchor` opened? -/
def canCoBatch (s : Scheduler H) (batch : PrefillBatchBuilder) (id : ℕ) :
    Except EngineError Bool :=
  match batch.sequences, s.config.policy.sloOptions with
  | anchor :: _, some options => options.canCoBatch (s.seqs anchor) (s.seqs id)
  | _, _ => pure true

/-- One round of `_admit_waiting_prefills`; `none` where the loop stops. -/
def admitOne (maxSloCostTier : Option ℕ) (hasDecode : Bool) (batch : PrefillBatchBuilder) :
    SchedulerAction H (Option PrefillBatchBuilder) := do
  let s ← get
  if s.waiting = [] ∨ ¬ s.running.length < s.config.maxNumSeqs ∨ ¬ batch.HasSequenceCapacity ∨
      batch.RequiresDedicatedBatch then pure none
  else do
    forEach (fun id => do let _ ← onSeq id BlockManager.cachedPrefixTokens; pure ()) s.waiting
    let s ← get
    let indices ← readOnly (s.waitingIndices maxSloCostTier)
    if indices = [] then pure none
    else do
      let candidates := indices.map fun index => s.seqs (s.waiting.getD index 0)
      match ← readOnly (s.config.policy.waitingPrefillIndex candidates hasDecode
          s.decodeBatchesSinceHeavyPrefill s.lightPrefillBypassesSinceHeavy) with
      | none => pure none
      | some relativeIndex => do
        let waitingIndex := indices.getD relativeIndex 0
        let id := s.waiting.getD waitingIndex 0
        record (.selected id)
        when (0 < waitingIndex ∧ s.config.policy.sloOptions.isNone = true) do
          modify fun s => { s with
            lightPrefillBypassesSinceHeavy := s.lightPrefillBypassesSinceHeavy + 1 }
        if ← readOnly (s.canCoBatch batch id) then do
          match ← readOnly (prefillCandidate s.config (s.seqs id) batch.availableTokens) with
          | none => pure none
          | some candidate => do
            let fits ← readOnly (s.blockManager.canAllocate (s.seqs id))
            if fits = false ∨ ¬ batch.Accepts candidate then pure none
            else do
              let allocated ← allocateWaitingPrefill id batch.availableTokens batch
              let batch ← readOnly (batch.add allocated)
              pure (some batch)
        else pure none

/-- The loop of `_admit_waiting_prefills`. A round that goes on admits one waiting
request, so `fuel` rounds exhaust a queue of that length. -/
def admitWaitingPrefills (maxSloCostTier : Option ℕ) (hasDecode : Bool) :
    ℕ → PrefillBatchBuilder → SchedulerAction H PrefillBatchBuilder
  | 0, batch => pure batch
  | fuel + 1, batch => do
    match ← admitOne maxSloCostTier hasDecode batch with
    | none => pure batch
    | some batch => admitWaitingPrefills maxSloCostTier hasDecode fuel batch

def hasDecoding (s : Scheduler H) : Bool := s.running.any fun id => s.HasStatus .decoding id

def hasPrefilling (s : Scheduler H) : Bool := s.running.any fun id => s.HasStatus .prefilling id

def prefillPlan (maxSloCostTier : Option ℕ) (includeRunningPrefills : Bool) :
    SchedulerAction H (Option BatchPlan) := do
  let s ← get
  let batch : PrefillBatchBuilder :=
    { maxTokens := s.config.maxNumBatchedTokens
      maxSequences := s.config.maxNumSeqs
      maxVisionPatches := s.config.maxVisionPatchesPerBatch
      sequences := []
      tokenCounts := []
      copyPrefix := []
      numTokens := 0
      numVisionPatches := 0 }
  let batch ← collectRunningPrefills batch (if includeRunningPrefills then s.running else [])
  let hasDecode := decide (s.swapped ≠ []) || s.hasDecoding
  let batch ← admitWaitingPrefills maxSloCostTier hasDecode s.waiting.length batch
  if batch.sequences = [] then pure none
  else do
    let s ← get
    let plan ← readOnly (BatchPlan.create .prefill (batch.sequences.map s.seqs)
      batch.tokenCounts { KVTransferPlan.empty with copyPrefix := batch.copyPrefix })
    pure (some plan)

/-! ### Decode planning -/

/-- Transfers of a decode plan as far as they are decided, and the members so far. -/
structure DecodeDraft where
  cowPairs : List BlockPair
  swapInMap : List BlockPair
  swapOutMap : List BlockPair
  scheduled : List ℕ
deriving DecidableEq, Repr

/-- `preempt` with a swap map: to CPU blocks where they are free, else back to the front
of the waiting queue without KV. Returns the copy pairs. -/
def preempt (id : ℕ) : SchedulerAction H (List BlockPair) := do
  let s ← get
  if ← readOnly (s.blockManager.canSwapOut (s.seqs id)) then do
    let pairs ← onSeq id BlockManager.swapOut
    recordTransfers (pairs.map fun (gpuPage, cpuPage) => .swapOut gpuPage cpuPage)
    record (.swapPreempted id)
    transitionTo id .swapped
    modify fun s => { s with swapped := s.swapped ++ [id] }
    pure pairs
  else do
    onSeq id BlockManager.deallocate
    modifySeq id Sequence.restart
    record (.recomputePreempted id)
    transitionTo id .waiting
    modify fun s => { s with waiting := id :: s.waiting }
    pure []

/-- Bring swapped sequences back, oldest first, while there is room. -/
def swapInLoop : ℕ → List BlockPair → SchedulerAction H (List BlockPair)
  | 0, pairs => pure pairs
  | fuel + 1, pairs => do
    let s ← get
    match s.swapped with
    | [] => pure pairs
    | id :: rest =>
      if ¬ s.running.length < s.config.maxNumSeqs then pure pairs
      else do
        if ← readOnly (s.blockManager.canSwapIn (s.seqs id)) then do
          modify fun s => { s with swapped := rest }
          let new ← onSeq id BlockManager.swapIn
          recordTransfers (new.map fun (cpuPage, gpuPage) => .swapIn cpuPage gpuPage)
          transitionTo id .decoding
          modify fun s => { s with running := s.running ++ [id] }
          swapInLoop fuel (pairs ++ new)
        else pure pairs

/-- One test of the `while` loop in front of an append. `next` is the rest of the loop, once
a victim has made room. -/
def secureRound (residentOnly : Bool) (id : ℕ)
    (next : List ℕ → List BlockPair → SchedulerAction H (Bool × List ℕ × List BlockPair))
    (candidates : List ℕ) (swapOutMap : List BlockPair) :
    SchedulerAction H (Bool × List ℕ × List BlockPair) := do
  let s ← get
  if ← readOnly (s.blockManager.canAppend (s.seqs id)) then pure (true, candidates, swapOutMap)
  else if residentOnly then do
    modify fun s => { s with running := s.running ++ [id] }
    pure (false, candidates, swapOutMap)
  else match SchedulerPolicy.preemptionCandidate candidates with
    | some victim => do
      let pairs ← preempt victim
      next (candidates.erase victim) (swapOutMap ++ pairs)
    | none => do
      let pairs ← preempt id
      pure (false, candidates, swapOutMap ++ pairs)

/-- Preempt until `id` can append its next token. Returns whether it can, the candidates
that are left and the swap map. A round that goes on takes a candidate, so `fuel` rounds
exhaust that many. -/
def secureAppend (residentOnly : Bool) (id : ℕ) :
    ℕ → List ℕ → List BlockPair → SchedulerAction H (Bool × List ℕ × List BlockPair)
  | 0 => secureRound residentOnly id fun candidates swapOutMap =>
    pure (false, candidates, swapOutMap)
  | fuel + 1 => secureRound residentOnly id (secureAppend residentOnly id fuel)

/-- Copy-on-write, which a sequence at a page boundary does not need. -/
def copyTailPage (id : ℕ) : SchedulerAction H (Option BlockPair) := do
  let s ← get
  if (s.seqs id).physicalKvLen % s.blockManager.blockSize = 1 then pure none
  else onSeq id BlockManager.copyOnWrite

/-- Make the next decode input of `id` writable: copy-on-write, then the append of a page. -/
def reserveAppend (id : ℕ) : SchedulerAction H (Option BlockPair) := do
  let pair ← copyTailPage id
  recordTransfers (pair.toList.map fun (source, target) => .copyOnWrite source target)
  onSeq id BlockManager.mayAppend
  record (.reserved id)
  pure pair

/-- The decode loop: every round takes the oldest candidate. -/
def decodeLoop (residentOnly : Bool) :
    ℕ → List ℕ → DecodeDraft → SchedulerAction H (List ℕ × DecodeDraft)
  | 0, candidates, draft => pure (candidates, draft)
  | _ + 1, [], draft => pure ([], draft)
  | fuel + 1, id :: candidates, draft => do
    let s ← get
    if ¬ draft.scheduled.length < s.config.maxNumSeqs then pure (id :: candidates, draft)
    else do
      let (secured, candidates, swapOutMap) ←
        secureAppend residentOnly id candidates.length candidates draft.swapOutMap
      let draft := { draft with swapOutMap := swapOutMap }
      if secured then do
        let pair ← reserveAppend id
        decodeLoop residentOnly fuel candidates { draft with
          cowPairs := draft.cowPairs ++ pair.toList
          scheduled := draft.scheduled ++ [id] }
      else decodeLoop residentOnly fuel candidates draft

/-- The general path of `_decode_plan`. -/
def generalDecodePlan (residentOnly : Bool) : SchedulerAction H (Option BatchPlan) := do
  let s ← get
  let swapInMap ← swapInLoop (if residentOnly then 0 else s.swapped.length) []
  let s ← get
  let candidates := s.running.filter fun id => s.HasStatus .decoding id
  modify fun s => { s with running := candidates.foldl List.erase s.running }
  let (rest, draft) ← decodeLoop residentOnly candidates.length candidates ⟨[], swapInMap, [], []⟩
  modify fun s => { s with running := s.running ++ rest }
  if draft.scheduled = [] then
    if residentOnly then pure none else throw (.scheduler .noRunnableSequences)
  else do
    modify fun s => { s with running := draft.scheduled ++ s.running }
    let s ← get
    let plan ← readOnly (BatchPlan.create .decode (draft.scheduled.map s.seqs)
      (draft.scheduled.map fun _ => 1)
      { KVTransferPlan.empty with
        copyOnWrite := draft.cowPairs
        swapIn := draft.swapInMap
        swapOut := draft.swapOutMap })
    pure (some plan)

/-- The one resident sequence that `_decode_plan` keeps in place, if it is alone and can
append. -/
def singleResident (s : Scheduler H) : Except EngineError (Option ℕ) :=
  match s.swapped, s.running with
  | [], [id] => do
    if s.HasStatus .decoding id then do
      let fits ← s.blockManager.canAppend (s.seqs id)
      pure (if fits then some id else none)
    else pure none
  | _, _ => pure none

def decodePlan (residentOnly : Bool) : SchedulerAction H (Option BatchPlan) := do
  let s ← get
  match ← readOnly s.singleResident with
  | some id => do
    let pair ← reserveAppend id
    let s ← get
    let plan ← readOnly (BatchPlan.create .decode [s.seqs id] [1]
      { KVTransferPlan.empty with copyOnWrite := pair.toList })
    pure (some plan)
  | none => generalDecodePlan residentOnly

/-! ### Decisions -/

def decodeWorkCount (s : Scheduler H) : ℕ :=
  s.swapped.length + (s.running.filter fun id => s.HasStatus .decoding id).length

def hasDecodeWork (s : Scheduler H) : Bool := decide (0 < s.decodeWorkCount)

def recordDecode : SchedulerAction H Unit :=
  modify fun s => { s with
    consecutivePrefillBatches := 0
    decodeBatchesSinceHeavyPrefill := s.decodeBatchesSinceHeavyPrefill + 1 }

def scheduleDecode : SchedulerAction H BatchPlan := do
  let s ← get
  require (s.hasDecodeWork = true) (.scheduler .noDecodeWork)
  match ← decodePlan false with
  | none => throw (.scheduler .noRunnableSequences)
  | some plan => do
    recordDecode
    pure plan

/-- Decode without preempting or swapping; `none` where nothing resident can run. -/
def scheduleResidentDecode : SchedulerAction H (Option BatchPlan) := do
  match ← decodePlan true with
  | none => pure none
  | some plan => do
    recordDecode
    pure (some plan)

def recordPrefillPlan (plan : BatchPlan) : SchedulerAction H BatchPlan := do
  modify fun s => { s with consecutivePrefillBatches := s.consecutivePrefillBatches + 1 }
  let s ← get
  let patches ← readOnly (plan.numScheduledVisionPatches s.seqs)
  when (s.config.policy.isHeavyPrefill patches = true) do
    modify fun s => { s with
      decodeBatchesSinceHeavyPrefill := 0
      lightPrefillBypassesSinceHeavy := 0 }
  pure plan

/-- Schedule waiting prefill work while another prefill is paused. -/
def schedulePrefill (maxSloCostTier : Option ℕ) : SchedulerAction H BatchPlan := do
  let s ← get
  require (maxSloCostTier = none ∨ s.config.policy.sloOptions.isSome = true)
    (.scheduler .tierRequiresSlo)
  match ← prefillPlan maxSloCostTier false with
  | none => throw (.scheduler .noAdmissiblePrefill)
  | some plan => recordPrefillPlan plan

/-- `schedule` once the policy did not ask for prefill, or no prefill could be planned. -/
def scheduleWithoutPrefill (runningPrefill : Bool) : SchedulerAction H BatchPlan := do
  if runningPrefill then do
    match ← scheduleResidentDecode with
    | some plan => pure plan
    | none => do
      match ← prefillPlan none true with
      | some plan => recordPrefillPlan plan
      | none => scheduleDecode
  else scheduleDecode

def schedule : SchedulerAction H BatchPlan := do
  let s ← get
  let runningPrefill := s.hasPrefilling
  if s.config.policy.shouldSchedulePrefill (decide (s.waiting ≠ []) || runningPrefill)
      s.hasDecodeWork s.consecutivePrefillBatches then do
    match ← prefillPlan none true with
    | some plan => recordPrefillPlan plan
    | none => scheduleWithoutPrefill runningPrefill
  else scheduleWithoutPrefill runningPrefill

/-! ### Requests -/

/-- Admission of a new sequence. -/
def add (req : Request) : SchedulerAction H AdmissionDecision := do
  let s ← get
  require (req.seqId ∉ s.requests) (.scheduler (.duplicateRequest req.seqId))
  modifySeq req.seqId fun _ => .ofRequest H req
  let _ ← onSeq req.seqId BlockManager.cachedPrefixTokens
  modify fun s => { s with requests := req.seqId :: s.requests }
  let s ← get
  match s.config.policy.admitRequest (s.seqs req.seqId)
      (s.waiting.length + s.running.length + s.swapped.length) with
  | some reason => do
    transitionTo req.seqId .rejected
    pure (some reason)
  | none => do
    modify fun s => { s with waiting := s.waiting ++ [req.seqId] }
    pure none

/-- The publication step of `postprocess` for one batch member. -/
def publish (plan : BatchPlan) (index id : ℕ) : SchedulerAction H Unit := do
  let seq ← readSeq id
  match plan.phase, plan.prefillSlices[index]? with
  | .prefill, some slice =>
    onSeq id (BlockManager.publishComputedBlocks slice.tokenStart slice.tokenEnd)
  | .prefill, none => throw (.manager .tableIndexOutside)
  | .decode, _ =>
    if seq.status = .prefilling then
      onSeq id (BlockManager.publishComputedBlocks seq.numCachedTokens seq.numComputedTokens)
    else onSeq id (BlockManager.publishComputedBlocks (seq.numTokens - 1) seq.numTokens)

/-- Append a sampled token; a finished request leaves the engine. -/
def commitToken (plan : BatchPlan) (id token : ℕ) :
    SchedulerAction H (Option RequestOutput) := do
  let s ← get
  let seq ← readOnly ((s.seqs id).appendToken token)
  modifySeq id fun _ => seq
  let eos := seq.request.ignoreEos = false ∧ token = s.config.eos
  if eos ∨ seq.numCompletionTokens = seq.request.maxTokens then do
    transitionTo id .finished
    onSeq id BlockManager.deallocate
    let s ← get
    require (id ∈ s.running) (.scheduler .notInQueue)
    modify fun s => { s with running := s.running.erase id }
    pure (some ⟨id, seq.completionTokenIds, decide eos⟩)
  else if seq.status = .prefilling then do
    transitionTo id .decoding
    pure none
  else if plan.phase = .prefill then throw (.scheduler .outsidePrefilling)
  else pure none

/-- One batch member of `postprocess`; no token while its prefill is unfinished. -/
def postprocessOne (plan : BatchPlan) (index id : ℕ) (token : Option ℕ) :
    SchedulerAction H (List RequestOutput) := do
  publish plan index id
  match token with
  | none => pure []
  | some token => do
    let output ← commitToken plan id token
    pure output.toList

def postprocessFrom (plan : BatchPlan) (index : ℕ) :
    List (ℕ × Option ℕ) → SchedulerAction H (List RequestOutput)
  | [] => pure []
  | (id, token) :: rest => do
    let outputs ← postprocessOne plan index id token
    let more ← postprocessFrom plan (index + 1) rest
    pure (outputs ++ more)

/-- Commit the sampled tokens of an executed plan. -/
def postprocess (plan : BatchPlan) (tokens : List (Option ℕ)) :
    SchedulerAction H (List RequestOutput) :=
  postprocessFrom plan 0 (plan.sequenceIds.zip tokens)

/-- Cancel one queued, running or swapped request and release its KV state. -/
def cancel (id : ℕ) : SchedulerAction H Bool := do
  let s ← get
  if id ∈ s.waiting ∨ id ∈ s.running ∨ id ∈ s.swapped then do
    modify fun s =>
      if id ∈ s.waiting then { s with waiting := s.waiting.erase id }
      else if id ∈ s.running then { s with running := s.running.erase id }
      else { s with swapped := s.swapped.erase id }
    let seq ← readSeq id
    when (seq.blockTable ≠ [] ∨ seq.cpuBlockTable ≠ []) (onSeq id BlockManager.deallocate)
    transitionTo id .cancelled
    pure true
  else pure false

def initial (H : Type) [DecidableEq H] [Digests H] (config : SchedulerConfig)
    (blockManager : BlockManager H) (decodeCredit : ℕ) (heap : ℕ → Sequence H) :
    Scheduler H where
  config := config
  blockManager := blockManager
  seqs := heap
  waiting := []
  running := []
  swapped := []
  requests := []
  consecutivePrefillBatches := 0
  decodeBatchesSinceHeavyPrefill := decodeCredit
  lightPrefillBypassesSinceHeavy := 0
  events := []

end Scheduler

end PrismInfer
