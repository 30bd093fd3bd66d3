import PrismInfer.Sequence

/-!
# Scheduling policies

Pure decisions, separate from queues and KV state. The three policies share admission,
chunking and preemption; they differ in the order of waiting prefills and in what they
call heavy.
-/
namespace PrismInfer
open StateExcept

/-- The constructor arguments all policies share, with what `__post_init__` checks. -/
structure PolicyLimits where
  maxModelLen : ℕ
  maxNumBatchedTokens : ℕ
  maxNumSeqs : ℕ
  enableChunkedPrefill : Bool
  maxChunkSize : ℕ
  maxQueueSize : Option ℕ
  maxConsecutivePrefillBatches : ℕ
  maxModelLen_pos : 0 < maxModelLen
  maxNumBatchedTokens_pos : 0 < maxNumBatchedTokens
  maxNumSeqs_pos : 0 < maxNumSeqs
  maxChunkSize_pos : 0 < maxChunkSize
  maxQueueSize_pos : ∀ limit ∈ maxQueueSize, 0 < limit
  maxConsecutivePrefillBatches_pos : 0 < maxConsecutivePrefillBatches

/-- Options of `VisionAwareSchedulerPolicy`. -/
structure VisionAwareOptions where
  heavyPrefillVisionPatchThreshold : ℕ
  minDecodeBatchesBetweenHeavyPrefills : ℕ
  maxLightPrefillBypassesPerHeavy : ℕ
  threshold_pos : 0 < heavyPrefillVisionPatchThreshold
  minDecode_pos : 0 < minDecodeBatchesBetweenHeavyPrefills
  maxBypasses_pos : 0 < maxLightPrefillBypassesPerHeavy

/-- Options of `SLOAwareSchedulerPolicy`; the reserves in nanoseconds, by cost tier. -/
structure SLOAwareOptions where
  heavyPrefillVisionPatchThreshold : ℕ
  reserveNsLight : ℕ
  reserveNsMedium : ℕ
  reserveNsHeavy : ℕ
  threshold_pos : 0 < heavyPrefillVisionPatchThreshold
  reserveNsLight_pos : 0 < reserveNsLight
  reserveNsMedium_pos : 0 < reserveNsMedium
  reserveNsHeavy_pos : 0 < reserveNsHeavy

inductive PolicyKind
  | fcfs
  | visionAware (options : VisionAwareOptions)
  | sloAware (options : SLOAwareOptions)

structure SchedulerPolicy where
  limits : PolicyLimits
  kind : PolicyKind

/-- Why a request was rejected; `none` where it was admitted. -/
abbrev AdmissionDecision := Option String

namespace SLOAwareOptions

variable {H : Type} (options : SLOAwareOptions) (seq : Sequence H)

def prefillCostTier : Except EngineError ℕ := do
  let visionPatches ← seq.prefillVisionPatchCount
  if visionPatches = 0 ∧ seq.remainingPrefillTokens ≤ 256 then pure 0
  else if visionPatches < options.heavyPrefillVisionPatchThreshold then pure 1
  else pure 2

def prefillReserveNs : Except EngineError ℕ := do
  let tier ← options.prefillCostTier seq
  pure (if tier = 0 then options.reserveNsLight
    else if tier = 1 then options.reserveNsMedium else options.reserveNsHeavy)

/-- Keep text isolated while allowing visual requests to share work. -/
def canCoBatch (anchor candidate : Sequence H) : Except EngineError Bool := do
  let anchorTier ← options.prefillCostTier anchor
  let candidateTier ← options.prefillCostTier candidate
  pure (decide (anchorTier = 0) == decide (candidateTier = 0))

end SLOAwareOptions

def Request.ttftDeadlineNs (req : Request) : Option ℕ :=
  match req.submittedNs, req.ttftSloNs with
  | some submitted, some slo => some (submitted + slo)
  | _, _ => none

/-- `2**63 - 1`. -/
def unboundedNs : ℤ := 2 ^ 63 - 1

/-- Sort key of one waiting candidate; the index behind it breaks ties. -/
def SLOAwareOptions.priority {H : Type} (options : SLOAwareOptions) (seq : Sequence H) :
    Except EngineError (ℤ × ℤ) := do
  let release ← match seq.request.ttftDeadlineNs with
    | none => pure unboundedNs
    | some deadline => do
      let reserve ← options.prefillReserveNs seq
      pure ((deadline : ℤ) - reserve)
  pure (release, match seq.request.submittedNs with
    | none => unboundedNs
    | some submitted => submitted)

/-- Index of the first lexicographically least key, counted from `i`. -/
def firstMinimum (i : ℕ) : List (ℤ × ℤ) → Option (ℕ × ℤ × ℤ)
  | [] => none
  | key :: rest =>
    match firstMinimum (i + 1) rest with
    | none => some (i, key)
    | some (j, least) =>
      if key.1 < least.1 ∨ (key.1 = least.1 ∧ key.2 ≤ least.2) then some (i, key)
      else some (j, least)

/-- Index of the first candidate from `i` on that is not heavy. -/
def firstLight {H : Type} (isHeavy : ℕ → Bool) (i : ℕ) :
    List (Sequence H) → Except EngineError (Option ℕ)
  | [] => pure none
  | seq :: rest => do
    let visionPatches ← seq.prefillVisionPatchCount
    if isHeavy visionPatches then firstLight isHeavy (i + 1) rest else pure (some i)

namespace SchedulerPolicy

variable {H : Type} (policy : SchedulerPolicy)

/-- From the first to behind the last visual placeholder: one atomic region. -/
def visualSpan (req : Request) : Option (ℕ × ℕ) :=
  match req.visualPositions.head?, req.visualPositions.getLast? with
  | some first, some last => some (first, last + 1)
  | _, _ => none

def admitRequest (seq : Sequence H) (queuedRequests : ℕ) : AdmissionDecision :=
  if policy.limits.maxModelLen < seq.numPromptTokens + seq.request.maxTokens then
    some ("request length exceeds max_model_len: " ++
      s!"prompt={seq.numPromptTokens} max_tokens={seq.request.maxTokens} " ++
      s!"limit={policy.limits.maxModelLen}")
  else if ∃ limit ∈ policy.limits.maxQueueSize, limit ≤ queuedRequests then
    some s!"request queue is full: limit={policy.limits.maxQueueSize.getD 0}"
  else match visualSpan seq.request with
    | none => none
    | some (start, stop) =>
      if policy.limits.enableChunkedPrefill = true ∧
          policy.limits.maxChunkSize < stop - start then
        some ("visual token span exceeds atomic prefill chunk: " ++
          s!"span_tokens={stop - start} max_chunk_size={policy.limits.maxChunkSize}")
      else none

/-- The end of a chunk `[start, stop)` once the visual span is kept whole; `none` where
the span does not fit. -/
def chunkEnd (start stop availableTokens : ℕ) : Option (ℕ × ℕ) → Option ℕ
  | none => some stop
  | some (spanStart, spanEnd) =>
    if spanEnd ≤ start ∨ stop ≤ spanStart then some stop
    else if start < spanStart ∧ stop < spanEnd then some spanStart
    else if spanStart ≤ start ∧ start < spanEnd ∧ stop < spanEnd then
      if policy.limits.maxChunkSize < spanEnd - start ∨ availableTokens < spanEnd - start
      then none else some spanEnd
    else some stop

/-- A chunk of a request that may still enter the prefix cache stops at its boundary. -/
def stopAtBoundary (seq : Sequence H) (start stop : ℕ) : ℕ :=
  match seq.request.multimodalPrefixBoundary with
  | none => stop
  | some boundary =>
    if seq.multimodalPrefixCacheEnabled = true ∧ seq.kvLayout = none ∧
        start < boundary ∧ boundary < stop then boundary else stop

def prefillTokenCount (seq : Sequence H) (availableTokens : ℕ) : ℕ :=
  if availableTokens = 0 then 0
  else if policy.limits.enableChunkedPrefill = false then
    if seq.remainingPrefillTokens ≤ availableTokens then seq.remainingPrefillTokens else 0
  else
    let start := seq.effectivePrefillStart
    let count := min (min seq.remainingPrefillTokens policy.limits.maxChunkSize) availableTokens
    match policy.chunkEnd start (stopAtBoundary seq start (start + count)) availableTokens
        (visualSpan seq.request) with
    | none => 0
    | some stop => stop - start

/-- The newest decode candidate is the victim. -/
def preemptionCandidate (candidates : List ℕ) : Option ℕ := candidates.getLast?

def shouldSchedulePrefill (hasPrefill hasDecode : Bool) (consecutivePrefillBatches : ℕ) : Bool :=
  if hasPrefill = false then false
  else if hasDecode = false then true
  else decide (consecutivePrefillBatches < policy.limits.maxConsecutivePrefillBatches)

def isHeavyPrefill (visionPatches : ℕ) : Bool :=
  match policy.kind with
  | .fcfs => false
  | .visionAware options => decide (options.heavyPrefillVisionPatchThreshold ≤ visionPatches)
  | .sloAware options => decide (options.heavyPrefillVisionPatchThreshold ≤ visionPatches)

/-- `VisionAwareSchedulerPolicy.waiting_prefill_index`. -/
def visionAwareIndex (options : VisionAwareOptions) (candidates : List (Sequence H))
    (hasDecode : Bool) (decodeBatchesSinceHeavy lightBypassesSinceHeavy : ℕ) :
    Except EngineError (Option ℕ) :=
  match candidates with
  | [] => pure none
  | head :: rest =>
    if hasDecode = false ∨
        options.minDecodeBatchesBetweenHeavyPrefills ≤ decodeBatchesSinceHeavy ∨
        options.maxLightPrefillBypassesPerHeavy ≤ lightBypassesSinceHeavy then pure (some 0)
    else do
      let visionPatches ← head.prefillVisionPatchCount
      if policy.isHeavyPrefill visionPatches = false then pure (some 0)
      else firstLight policy.isHeavyPrefill 1 rest

def waitingPrefillIndex (candidates : List (Sequence H)) (hasDecode : Bool)
    (decodeBatchesSinceHeavy lightBypassesSinceHeavy : ℕ) : Except EngineError (Option ℕ) :=
  match policy.kind with
  | .fcfs => pure (if candidates = [] then none else some 0)
  | .visionAware options =>
    policy.visionAwareIndex options candidates hasDecode decodeBatchesSinceHeavy
      lightBypassesSinceHeavy
  | .sloAware options => do
    let keys ← candidates.mapM options.priority
    pure ((firstMinimum 0 keys).map (·.1))

/-- `isinstance(self.policy, SLOAwareSchedulerPolicy)`. -/
def sloOptions : Option SLOAwareOptions :=
  match policy.kind with
  | .sloAware options => some options
  | _ => none

end SchedulerPolicy

end PrismInfer
