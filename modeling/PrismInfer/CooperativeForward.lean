import PrismInfer.Lib.MaskedScatter
import PrismInfer.VisualMicrobatch

/-!
# One-shot and cooperative prefill

The two ways a prefill runs on one device: `prepare_language_inputs` with the language
forward behind it, and the execution that pauses after every block quantum. The model's
numerics are parameters. The Vision CUDA graph, which refuses cooperative execution, is
off, and a payload always comes with its grid.
-/
namespace PrismInfer

open StateExcept MaskedScatter

/-- `VisionEncoder`. `Hidden` is what the blocks of one call work on, its rotary embedding
and attention segments included; `deepstack` pairs `deepstack_visual_indexes` with
`deepstack_merger_list`. -/
structure VisionEncoder (Patch Hidden Row : Type) where
  prepareTensorRegionInputs : List Patch → List GridRow → Hidden
  blocks : List (Hidden → Hidden)
  merger : Hidden → List Row
  deepstack : List (ℕ × (Hidden → List Row))

/-- `VisionEncoderForwardState`. -/
structure VisionForwardState (Hidden Row : Type) where
  hiddenStates : Hidden
  nextBlock : ℕ
  deepstackFeatures : List (List Row)
  main : Option (List Row)

namespace VisionEncoder

variable {Patch Hidden Row : Type} (encoder : VisionEncoder Patch Hidden Row)

/-- A block and its DeepStack merger, on the hidden states and the features so far. -/
def runBlock (s : Hidden × List (List Row)) (index : ℕ) : Hidden × List (List Row) :=
  match encoder.blocks[index]? with
  | none => s
  | some block =>
    let hidden := block s.1
    match encoder.deepstack.find? (·.1 = index) with
    | some (_, merger) => (hidden, s.2 ++ [merger hidden])
    | none => (hidden, s.2)

/-- `_forward_tensor_region_eager`. -/
def forwardTensorRegion (hidden : Hidden) : List Row × List (List Row) :=
  let s := (List.range encoder.blocks.length).foldl encoder.runBlock (hidden, [])
  (encoder.merger s.1, s.2)

/-- `forward`. The longest segment of no segments raises. -/
def forward (pixelValues : List Patch) (grid : List GridRow) :
    Except VisionError (List Row × List (List Row)) := do
  ensure (framesOf grid ≠ []) .emptyGrid
  return encoder.forwardTensorRegion (encoder.prepareTensorRegionInputs pixelValues grid)

def beginCooperativeForward (pixelValues : List Patch) (grid : List GridRow) :
    Except VisionError (VisionForwardState Hidden Row) := do
  ensure (framesOf grid ≠ []) .emptyGrid
  return ⟨encoder.prepareTensorRegionInputs pixelValues grid, 0, [], none⟩

def advanceCooperativeForward (s : VisionForwardState Hidden Row) (maxBlocks : ℕ) :
    Except VisionError (Bool × VisionForwardState Hidden Row) := do
  ensure (0 < maxBlocks) (.blocksNotPositive maxBlocks)
  if s.main.isSome then return (true, s)
  let blockEnd := min (s.nextBlock + maxBlocks) encoder.blocks.length
  let (hidden, features) := (List.range' s.nextBlock (blockEnd - s.nextBlock)).foldl
    encoder.runBlock (s.hiddenStates, s.deepstackFeatures)
  let s := { s with hiddenStates := hidden, deepstackFeatures := features, nextBlock := blockEnd }
  if s.nextBlock ≠ encoder.blocks.length then return (false, s)
  return (true, { s with main := some (encoder.merger hidden) })

def finishCooperativeForward (s : VisionForwardState Hidden Row) :
    Except VisionError (List Row × List (List Row)) :=
  match s.main with
  | none => .error (.incompleteVision s.nextBlock encoder.blocks.length)
  | some main => .ok (main, s.deepstackFeatures)

end VisionEncoder

/-- A decoder layer, with its position embeddings and attention context applied to it as
`Pos`; `forwardFused` also takes and returns the residual. -/
structure TextLayer (Pos Row : Type) where
  forward : Pos → List Row → List Row
  forwardFused : Pos → Bool → List Row → Option (List Row) → List Row × List Row

/-- `Qwen3VLTextModel`. `fusedBase` is what `fused_add_rmsnorm_base` is for an input, and
`contextIsPrefill` the phase of the attention context. -/
structure TextModel (Token Pos Row : Type) where
  embedTokens : Token → Row
  rotaryEmb : List Row → Pos
  layers : List (TextLayer Pos Row)
  layers_ne : layers ≠ []
  addResidual : List Row → List Row → List Row
  deepstackProcess : List Row → Option (List Bool) → List Row → List Row
  norm : List Row → List Row
  fusedNorm : Bool → List Row → Option (List Row) → List Row
  fusedBase : List Row → Bool
  contextIsPrefill : Bool

/-- What `prepare_language_inputs` returns. -/
structure LanguageInputs (Row : Type) where
  inputsEmbeds : List Row
  visualPosMasks : Option (List Bool)
  deepstackVisualEmbeds : Option (List (List Row))

/-- `Qwen3VLTextForwardState`. -/
structure TextForwardState (Pos Row : Type) where
  hiddenStates : List Row
  residual : Option (List Row)
  positionEmbeddings : Pos
  visualPosMasks : Option (List Bool)
  deepstackVisualEmbeds : Option (List (List Row))
  nextLayer : ℕ
  useFusedAddRmsnorm : Bool
  isPrefill : Bool

/-- `MAX_EXACT_ADD_RMSNORM_BATCH`. -/
def maxExactAddRmsnormBatch : ℕ := 8

namespace TextModel

variable {Token Pos Row : Type} (text : TextModel Token Pos Row)

/-- One decoder layer with the DeepStack features behind it. -/
def runLayer (s : TextForwardState Pos Row) (index : ℕ) : TextForwardState Pos Row :=
  match text.layers[index]? with
  | none => s
  | some layer =>
    let s :=
      if s.useFusedAddRmsnorm then
        let (hidden, residual) :=
          layer.forwardFused s.positionEmbeddings s.isPrefill s.hiddenStates s.residual
        { s with hiddenStates := hidden, residual := some residual }
      else { s with hiddenStates := layer.forward s.positionEmbeddings s.hiddenStates }
    match s.deepstackVisualEmbeds.bind (·[index]?) with
    | none => s
    | some embeds =>
      let s := match s.useFusedAddRmsnorm, s.residual with
        | true, some residual =>
          { s with hiddenStates := text.addResidual s.hiddenStates residual, residual := none }
        | _, _ => s
      { s with hiddenStates := text.deepstackProcess s.hiddenStates s.visualPosMasks embeds }

def finalNorm (s : TextForwardState Pos Row) : List Row :=
  if s.useFusedAddRmsnorm then text.fusedNorm s.isPrefill s.hiddenStates s.residual
  else text.norm s.hiddenStates

def isPrefill (inputs : LanguageInputs Row) : Bool :=
  text.fusedBase inputs.inputsEmbeds && text.contextIsPrefill

def useFused (inputs : LanguageInputs Row) : Bool :=
  text.fusedBase inputs.inputsEmbeds &&
    (text.isPrefill inputs ||
      (decide (inputs.inputsEmbeds.length ≤ maxExactAddRmsnormBatch) &&
        inputs.deepstackVisualEmbeds.isNone))

/-- The variables of `forward` before its first layer. -/
def start (inputs : LanguageInputs Row) : TextForwardState Pos Row where
  hiddenStates := inputs.inputsEmbeds
  residual := none
  positionEmbeddings := text.rotaryEmb inputs.inputsEmbeds
  visualPosMasks := inputs.visualPosMasks
  deepstackVisualEmbeds := inputs.deepstackVisualEmbeds
  nextLayer := 0
  useFusedAddRmsnorm := text.useFused inputs
  isPrefill := text.isPrefill inputs

/-- `forward`. -/
def forward (inputs : LanguageInputs Row) : List Row :=
  text.finalNorm ((List.range text.layers.length).foldl text.runLayer (text.start inputs))

def beginCooperativeForward (inputs : LanguageInputs Row) : TextForwardState Pos Row :=
  text.start inputs

def advanceCooperativeForward (s : TextForwardState Pos Row) (maxLayers : ℕ) :
    Except VisionError (Bool × TextForwardState Pos Row) := do
  ensure (0 < maxLayers) (.layersNotPositive maxLayers)
  if text.layers.length ≤ s.nextLayer then return (true, s)
  let layerEnd := min (s.nextLayer + maxLayers) text.layers.length
  let s := { (List.range' s.nextLayer (layerEnd - s.nextLayer)).foldl text.runLayer s with
    nextLayer := layerEnd }
  return (decide (s.nextLayer = text.layers.length), s)

def finishCooperativeForward (s : TextForwardState Pos Row) : Except VisionError (List Row) := do
  ensure (s.nextLayer = text.layers.length) (.incompleteLanguage s.nextLayer text.layers.length)
  return text.finalNorm s

end TextModel

/-- A visual payload, `pixel_values` with its `grid_thw`. -/
structure VisualInput (Patch : Type) where
  pixelValues : List Patch
  gridThw : List GridRow

/-- `DeviceModelInputs`, as far as the two paths read it. -/
structure ModelInputs (Token Patch Row : Type) where
  inputIds : List Token
  image : Option (VisualInput Patch)
  video : Option (VisualInput Patch)
  visualEmbeds : Option (List Row)
  deepstackVisualEmbeds : List (List Row)

/-- `Qwen3VLModel` behind its sampler. `newZero` is the row of zeros, and `newEmpty` what the
calls of `new_empty` find in memory. -/
structure Qwen3VL (Token Patch Hidden Pos Row Sampled : Type) where
  visual : VisionEncoder Patch Hidden Row
  languageModel : TextModel Token Pos Row
  imageTokenId : Token
  videoTokenId : Token
  distinct : imageTokenId ≠ videoTokenId
  visionEncoderMicrobatchPatches : ℕ
  newZero : Row
  newEmpty : (call rows : ℕ) → { memory : List Row // memory.length = rows }
  sample : List Row → Sampled

namespace Qwen3VL

variable {Token Patch Hidden Pos Row Sampled : Type} [DecidableEq Token]
variable (m : Qwen3VL Token Patch Hidden Pos Row Sampled)

/-- Main and DeepStack features of the microbatches so far. -/
structure Parts (Row : Type) where
  main : List (List Row)
  deepstack : Option (List (List (List Row)))

def Parts.append {Row : Type} (parts : Parts Row) (output : List Row × List (List Row)) :
    Except VisionError (Parts Row) := do
  let layers := parts.deepstack.getD (output.2.map fun _ => [])
  ensure (output.2.length = layers.length) .inconsistentDeepstack
  return ⟨parts.main ++ [output.1],
    some (List.zipWith (fun layer value => layer ++ [value]) layers output.2)⟩

def Parts.cat {Row : Type} (parts : Parts Row) : List Row × List (List Row) :=
  (parts.main.flatten, (parts.deepstack.getD []).map List.flatten)

/-- The patches and rows of one microbatch. -/
def chunk (input : VisualInput Patch) (plan : Microbatch) : List Patch :=
  (input.pixelValues.take plan.stop).drop plan.start

/-- The plan of a payload, with the check of its patch count. -/
def planPayload (input : VisualInput Patch) : Except VisionError (List Microbatch) := do
  let plans ← planVisualMicrobatches input.gridThw m.visionEncoderMicrobatchPatches
  let expected := (plans.getLast?.map (·.stop)).getD 0
  ensure (expected = input.pixelValues.length)
    (.gridPayloadMismatch expected input.pixelValues.length)
  return plans

/-- One turn of the loop over the microbatches. -/
def encodeMicrobatch (input : VisualInput Patch) (parts : Parts Row) (plan : Microbatch) :
    Except VisionError (Parts Row) := do
  let output ← m.visual.forward (chunk input plan) plan.rows
  parts.append output

/-- `_encode_visual_payload`. -/
def encodeVisualPayload (input : VisualInput Patch) :
    Except VisionError (List Row × List (List Row)) := do
  if input.pixelValues.length ≤ m.visionEncoderMicrobatchPatches then
    m.visual.forward input.pixelValues input.gridThw
  else do
    let plans ← m.planPayload input
    let parts ← plans.foldlM (m.encodeMicrobatch input) ⟨[], none⟩
    return parts.cat

/-- `input_ids == token_id`. -/
def tokenMask (inputIds : List Token) (tokenId : Token) : List Bool :=
  inputIds.map fun token => decide (token = tokenId)

def maskOr (left right : List Bool) : List Bool := List.zipWith (· || ·) left right

/-- Embeddings, masks and DeepStack features while the modalities are gone through. -/
structure Injected (Row : Type) where
  embeds : List Row
  masks : List (List Bool)
  deepstack : List (List (List Row))

/-- The branch of one modality in `prepare_language_inputs`. -/
def injectModality (inputIds : List Token) (tokenId : Token) (input : Option (VisualInput Patch))
    (s : Injected Row) : Except VisionError (Injected Row) :=
  match input with
  | none => .ok s
  | some input => do
    let (main, deepstack) ← m.encodeVisualPayload input
    let mask := tokenMask inputIds tokenId
    ensure (mask.count true = main.length) (.visualTokenCount (mask.count true) main.length)
    return ⟨maskedScatter s.embeds mask main, s.masks ++ [mask], s.deepstack ++ [deepstack]⟩

/-- `zip(*deepstack_by_modality)`, as far as the shortest modality goes. -/
def layersByModality : List (List (List Row)) → List (List (List Row))
  | [] => []
  | [layers] => layers.map ([·])
  | layers :: rest => List.zipWith (· :: ·) layers (layersByModality rest)

/-- The DeepStack features of one layer, from all modalities. -/
def joinLayer (visualPosMasks : List Bool) (masks : List (List Bool))
    (embeds : List (List Row)) : List Row :=
  (masks.zip embeds).foldl (fun joint part =>
    maskedScatter joint (select visualPosMasks part.1) part.2)
    (List.replicate (visualPosMasks.count true) m.newZero)

/-- `prepare_language_inputs`. -/
def prepareLanguageInputs (inputs : ModelInputs Token Patch Row) :
    Except VisionError (LanguageInputs Row) := do
  let embeds := inputs.inputIds.map m.languageModel.embedTokens
  ensure (inputs.visualEmbeds.isNone ∨ inputs.image.isNone ∧ inputs.video.isNone)
    .precomputedWithRaw
  let s ← m.injectModality inputs.inputIds m.imageTokenId inputs.image ⟨embeds, [], []⟩
  let s ← m.injectModality inputs.inputIds m.videoTokenId inputs.video s
  match inputs.visualEmbeds with
  | some visualEmbeds =>
    let mask := maskOr (tokenMask inputs.inputIds m.imageTokenId)
      (tokenMask inputs.inputIds m.videoTokenId)
    ensure (mask.count true = visualEmbeds.length)
      (.precomputedRows visualEmbeds.length (mask.count true))
    ensure (inputs.deepstackVisualEmbeds ≠ [] ∧
      ∀ value ∈ inputs.deepstackVisualEmbeds, value.length = visualEmbeds.length)
      .precomputedDeepstack
    return ⟨maskedScatter s.embeds mask visualEmbeds, some mask, some inputs.deepstackVisualEmbeds⟩
  | none =>
    match s.masks with
    | [] => return ⟨s.embeds, none, none⟩
    | first :: rest =>
      let mask := rest.foldl maskOr first
      match s.deepstack with
      | [deepstack] => return ⟨s.embeds, some mask, some deepstack⟩
      | deepstack =>
        return ⟨s.embeds, some mask,
          some ((layersByModality deepstack).map (m.joinLayer mask s.masks))⟩

/-- One uninterrupted prefill. -/
def prefill (inputs : ModelInputs Token Patch Row) :
    Except VisionError (LanguageInputs Row × Sampled) := do
  let prepared ← m.prepareLanguageInputs inputs
  return (prepared, m.sample (m.languageModel.forward prepared))

/-- `_CooperativeVisionPayload`. -/
structure CooperativeVisionPayload (Token Patch Hidden Row : Type) where
  tokenId : Token
  input : VisualInput Patch
  microbatches : List Microbatch
  nextMicrobatch : ℕ
  activeState : Option (VisionForwardState Hidden Row)
  parts : Parts Row

/-- `_PendingPrefillExecution`. `prepared` is ghost: what the language forward started from. -/
structure PendingPrefillExecution (Token Patch Hidden Pos Row Sampled : Type) where
  inputs : ModelInputs Token Patch Row
  modelState : Option (TextForwardState Pos Row)
  visionPayloads : List (CooperativeVisionPayload Token Patch Hidden Row)
  nextVisionPayload : ℕ
  sampledTokens : Option Sampled
  prepared : Option (LanguageInputs Row)

/-- `_build_cooperative_vision_payloads`, for one modality. -/
def buildPayload (tokenId : Token) (input : Option (VisualInput Patch)) :
    Except VisionError (List (CooperativeVisionPayload Token Patch Hidden Row)) :=
  match input with
  | none => .ok []
  | some input => do
    let microbatches ← m.planPayload input
    return [⟨tokenId, input, microbatches, 0, none, ⟨[], none⟩⟩]

def buildCooperativeVisionPayloads (inputs : ModelInputs Token Patch Row) :
    Except VisionError (List (CooperativeVisionPayload Token Patch Hidden Row)) := do
  let image ← m.buildPayload m.imageTokenId inputs.image
  let video ← m.buildPayload m.videoTokenId inputs.video
  return image ++ video

/-- `target[positions] = value`, whose rows have to be as many as the positions. -/
def putRows (visualTokenIds : List Token) (tokenId : Token) (value target : List Row) :
    Except VisionError (List Row) := do
  let positions := nonzero (tokenMask visualTokenIds tokenId)
  ensure (positions.length = value.length) (.visualTokenCount positions.length value.length)
  return indexPut target positions value

/-- The outputs of one modality, written to the rows of its placeholders. -/
def putModality (visualTokenIds : List Token) (deepstackDepth : ℕ)
    (target : List Row × List (List Row)) (output : Token × List Row × List (List Row)) :
    Except VisionError (List Row × List (List Row)) := do
  ensure (output.2.2.length = deepstackDepth) .inconsistentDeepstack
  let embeds ← putRows visualTokenIds output.1 output.2.1 target.1
  let deepstack ← (target.2.zip output.2.2).mapM fun layer =>
    putRows visualTokenIds output.1 layer.2 layer.1
  return (embeds, deepstack)

/-- The joint visual rows of `_begin_pending_language_forward`. -/
def joinOutputs (inputIds : List Token) (outputs : List (Token × List Row × List (List Row))) :
    Except VisionError (List Row × List (List Row)) :=
  let visualTokenIds := inputIds.filter fun token => outputs.any (·.1 = token)
  let deepstackDepth := (outputs.head?.map (·.2.2.length)).getD 0
  let rows (call : ℕ) : List Row := (m.newEmpty call visualTokenIds.length).val
  outputs.foldlM (putModality visualTokenIds deepstackDepth)
    (rows 0, (List.range deepstackDepth).map fun layer => rows (layer + 1))

/-- What a completed payload hands over. -/
def CooperativeVisionPayload.output
    (payload : CooperativeVisionPayload Token Patch Hidden Row) :
    Except VisionError (Token × List Row × List (List Row)) := do
  ensure (payload.nextMicrobatch = payload.microbatches.length ∧ payload.parts.main ≠ [] ∧
    payload.parts.deepstack.isSome) .languageBeforeVision
  return (payload.tokenId, payload.parts.cat)

/-- What the language forward of a pending prefill starts from. -/
def pendingLanguageInputs (inputs : ModelInputs Token Patch Row) :
    List (CooperativeVisionPayload Token Patch Hidden Row) → Except VisionError (LanguageInputs Row)
  | [] => m.prepareLanguageInputs
      ⟨inputs.inputIds, none, none, inputs.visualEmbeds, inputs.deepstackVisualEmbeds⟩
  | payload :: payloads => do
    ensure inputs.visualEmbeds.isNone .mixedRawAndCached
    let outputs ← (payload :: payloads).mapM (·.output)
    let (embeds, deepstack) ← m.joinOutputs inputs.inputIds outputs
    m.prepareLanguageInputs ⟨inputs.inputIds, none, none, some embeds, deepstack⟩

/-- `_begin_pending_language_forward`. -/
def beginPendingLanguageForward
    (pending : PendingPrefillExecution Token Patch Hidden Pos Row Sampled) :
    Except VisionError (PendingPrefillExecution Token Patch Hidden Pos Row Sampled) := do
  let prepared ← m.pendingLanguageInputs pending.inputs pending.visionPayloads
  return { pending with
    modelState := some (m.languageModel.beginCooperativeForward prepared)
    prepared := some prepared }

/-- The state of the microbatch that is worked on. -/
def beginPayload (payload : CooperativeVisionPayload Token Patch Hidden Row) :
    Except VisionError (VisionForwardState Hidden Row) :=
  match payload.activeState, payload.microbatches[payload.nextMicrobatch]? with
  | some state, _ => .ok state
  | none, none => .error .completedPayloadActive
  | none, some plan => m.visual.beginCooperativeForward (chunk payload.input plan) plan.rows

/-- `_advance_pending_vision`. -/
def advancePendingVision
    (pending : PendingPrefillExecution Token Patch Hidden Pos Row Sampled) (maxBlocks : ℕ) :
    Except VisionError
      (Bool × PendingPrefillExecution Token Patch Hidden Pos Row Sampled) :=
  match pending.visionPayloads[pending.nextVisionPayload]? with
  | none => .ok (true, pending)
  | some payload => do
    let state ← m.beginPayload payload
    let (complete, state) ← m.visual.advanceCooperativeForward state maxBlocks
    if ¬ complete then
      let payload := { payload with activeState := some state }
      return (false, { pending with
        visionPayloads := pending.visionPayloads.set pending.nextVisionPayload payload })
    let output ← m.visual.finishCooperativeForward state
    let parts ← payload.parts.append output
    let payload := { payload with
      parts := parts, activeState := none, nextMicrobatch := payload.nextMicrobatch + 1 }
    let next := if payload.nextMicrobatch = payload.microbatches.length then
      pending.nextVisionPayload + 1 else pending.nextVisionPayload
    return (decide (next = pending.visionPayloads.length), { pending with
      visionPayloads := pending.visionPayloads.set pending.nextVisionPayload payload
      nextVisionPayload := next })

/-- `begin_prefill_plan`. -/
def beginPrefillPlan (inputs : ModelInputs Token Patch Row) :
    Except VisionError (PendingPrefillExecution Token Patch Hidden Pos Row Sampled) := do
  let payloads ← m.buildCooperativeVisionPayloads inputs
  let pending := ⟨inputs, none, payloads, 0, none, none⟩
  if payloads = [] then m.beginPendingLanguageForward pending else return pending

/-- `advance_prefill_plan`. -/
def advancePrefillPlan (pending : PendingPrefillExecution Token Patch Hidden Pos Row Sampled)
    (maxLayers maxVisionBlocks : ℕ) :
    Except VisionError
      (Bool × PendingPrefillExecution Token Patch Hidden Pos Row Sampled) :=
  match pending.sampledTokens, pending.modelState with
  | some _, _ => .ok (true, pending)
  | none, none => do
    let (complete, pending) ← m.advancePendingVision pending maxVisionBlocks
    if ¬ complete then return (false, pending)
    let pending ← m.beginPendingLanguageForward pending
    return (false, pending)
  | none, some state => do
    let (complete, state) ← m.languageModel.advanceCooperativeForward state maxLayers
    if ¬ complete then return (false, { pending with modelState := some state })
    let hidden ← m.languageModel.finishCooperativeForward state
    return (true, { pending with
      modelState := some state, sampledTokens := some (m.sample hidden) })

/-- The calls of `advance_prefill_plan`, with the quanta of each. -/
def advanceAll (pending : PendingPrefillExecution Token Patch Hidden Pos Row Sampled)
    (quanta : List (ℕ × ℕ)) :
    Except VisionError (PendingPrefillExecution Token Patch Hidden Pos Row Sampled) :=
  quanta.foldlM (fun pending quantum => do
    let (_, pending) ← m.advancePrefillPlan pending quantum.1 quantum.2
    return pending) pending

/-- The `while` loop of `finish_prefill_plan`, for `fuel` turns at most. -/
def finishPrefillPlan :
    ℕ → PendingPrefillExecution Token Patch Hidden Pos Row Sampled →
      Except VisionError (PendingPrefillExecution Token Patch Hidden Pos Row Sampled)
  | 0, pending => .ok pending
  | fuel + 1, pending =>
    if pending.sampledTokens.isSome then .ok pending
    else do
      let maxQuantum := max m.visual.blocks.length m.languageModel.layers.length
      let (_, pending) ← m.advancePrefillPlan pending maxQuantum maxQuantum
      finishPrefillPlan fuel pending

end Qwen3VL

end PrismInfer
