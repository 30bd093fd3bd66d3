import PrismInfer.BlockPool
import PrismInfer.KVLayout

/-!
# Requests and their mutable sequence state

`Request` holds what the constructor of a sequence receives, `Sequence` adds what
scheduling mutates. Content digests are modelled by the value they digest: the
media key of a request is its media, the per-image SHA-256 an `Image`. The two
64-bit digests, `xxh64` and the surrogate of an image hash, stay functions.
-/
namespace PrismInfer
open StateExcept

/-- What one block hash covers: the hash of the previous block, the token ids and the
media hashes by block-local position, in the order of the `update` calls. -/
structure HashInput (H : Type) where
  prefixHash : Option H
  tokenIds : List ℕ
  mmTokenHashes : MmTokenHashes
deriving DecidableEq, Repr

/-- One image: its pixel slice and the number of vision patches of its grid row. -/
structure Image where
  pixels : ℕ
  patches : ℕ
deriving DecidableEq, Repr

/-- The two 64-bit digest functions. -/
class Digests (H : Type) where
  xxh64 : HashInput H → H
  surrogate : Image → ℕ

/-- `pixel_values` with its `image_grid_thw`. -/
structure ImagePayload where
  rows : ℕ
  images : List Image
deriving DecidableEq, Repr

/-- `pixel_values_videos` with its `video_grid_thw`. -/
structure VideoPayload where
  rows : ℕ
  pixels : ℕ
deriving DecidableEq, Repr

/-- The value under the visual embedding fingerprint. -/
structure MediaKey where
  images : Option ImagePayload
  video : Option VideoPayload
  imageTokenId : Option ℕ
  imageTokenCount : ℕ
  videoTokenId : Option ℕ
  videoTokenCount : ℕ
deriving DecidableEq, Repr

inductive RequestState
  | waiting
  | prefilling
  | decoding
  | swapped
  | finished
  | cancelled
  | rejected
deriving DecidableEq, Repr

namespace RequestState

def allowed : RequestState → List RequestState
  | waiting => [prefilling, cancelled, rejected]
  | prefilling => [decoding, waiting, cancelled, finished]
  | decoding => [swapped, waiting, finished, cancelled]
  | swapped => [decoding, waiting, cancelled]
  | finished => []
  | cancelled => []
  | rejected => []

/-- `RequestLifecycle.transition`: staying in a state is always allowed. -/
def transition (source target : RequestState) : Except EngineError RequestState :=
  if target = source then .ok source
  else if target ∈ source.allowed then .ok target
  else .error (.sequence .invalidTransition)

end RequestState

/-- The immutable part of a sequence. -/
structure Request where
  seqId : ℕ
  blockSize : ℕ
  promptTokenIds : List ℕ
  promptNonempty : promptTokenIds ≠ []
  maxTokens : ℕ
  maxTokensPositive : 0 < maxTokens
  ignoreEos : Bool
  submittedNs : Option ℕ
  /-- `int(ttft_slo_ms * 1_000_000)`. -/
  ttftSloNs : Option ℕ
  images : Option ImagePayload
  video : Option VideoPayload
  hasPositionIds : Bool
  hasRopeDelta : Bool
  imageTokenId : Option ℕ
  imageTokenCount : ℕ
  videoTokenId : Option ℕ
  videoTokenCount : ℕ
  imageMergeSize : ℕ
  /-- Is `multimodal_prefix_cache_key` set? -/
  hasPrefixCacheKey : Bool
  /-- Are the per-image media hashes known? -/
  hasMediaTokenHashes : Bool

namespace Request

variable (req : Request)

def numPromptTokens : ℕ := req.promptTokenIds.length

def isMultimodal : Bool :=
  req.images.isSome || req.video.isSome || req.hasPositionIds || req.hasRopeDelta

def mediaKey : MediaKey where
  images := req.images
  video := req.video
  imageTokenId := req.imageTokenId
  imageTokenCount := req.imageTokenCount
  videoTokenId := req.videoTokenId
  videoTokenCount := req.videoTokenCount

def multimodalPrefixCacheKey : Option MediaKey :=
  if req.hasPrefixCacheKey then some req.mediaKey else none

/-- `multimodal_media_token_hashes`, each hash by the image it digests. -/
def multimodalMediaTokenHashes : Option (List Image) :=
  if req.hasMediaTokenHashes then req.images.map (·.images) else none

def visionPatchCount : ℕ :=
  (req.images.map (·.rows)).getD 0 + (req.video.map (·.rows)).getD 0

/-- `{image_token_id, video_token_id} - {None}`. -/
def visualTokenIds : List ℕ := req.imageTokenId.toList ++ req.videoTokenId.toList

/-- Prompt positions of visual placeholders, in order. -/
def visualPositions : List ℕ :=
  (List.range req.numPromptTokens).filter
    fun i => req.promptTokenIds.getD i 0 ∈ req.visualTokenIds

/-- Strict logical prefix ending immediately after the visual placeholders. -/
def multimodalPrefixBoundary : Option ℕ :=
  match req.visualPositions.getLast? with
  | none => none
  | some last => if last + 1 < req.numPromptTokens then some (last + 1) else none

/-- `_contiguous_image_pad_runs` from position `i` on; `start` is the open run. -/
def padRunsFrom (imageTokenId : ℕ) : ℕ → Option ℕ → List ℕ → List (ℕ × ℕ)
  | _, none, [] => []
  | i, some start, [] => [(start, i)]
  | i, none, token :: rest =>
    if token = imageTokenId then padRunsFrom imageTokenId (i + 1) (some i) rest
    else padRunsFrom imageTokenId (i + 1) none rest
  | i, some start, token :: rest =>
    if token = imageTokenId then padRunsFrom imageTokenId (i + 1) (some start) rest
    else (start, i) :: padRunsFrom imageTokenId (i + 1) none rest

def imagePadRuns : List (ℕ × ℕ) :=
  match req.imageTokenId with
  | none => []
  | some id => padRunsFrom id 0 none req.promptTokenIds

/-- Cut one pad run into per-image spans; returns the token counts left over. -/
def cutRun (stop : ℕ) : ℕ → List ℕ → Option (List (ℕ × ℕ) × List ℕ)
  | cursor, [] => if cursor < stop then none else some ([], [])
  | cursor, count :: rest =>
    if cursor < stop then
      if stop < cursor + count then none
      else (cutRun stop (cursor + count) rest).map fun (spans, left) =>
        ((cursor, cursor + count) :: spans, left)
    else some ([], count :: rest)

/-- Cut all runs; every image must be placed. -/
def cutRuns : List (ℕ × ℕ) → List ℕ → Option (List (ℕ × ℕ))
  | [], left => if left = [] then some [] else none
  | (start, stop) :: runs, counts =>
    match cutRun stop start counts with
    | none => none
    | some (spans, left) => (cutRuns runs left).map (spans ++ ·)

def tokensPerImage (images : List Image) : List ℕ :=
  images.map fun image => image.patches / (req.imageMergeSize * req.imageMergeSize)

/-- Per-image token spans; `none` where runs, grid and token count disagree. -/
def imageTokenSpans : Option (List (ℕ × ℕ)) :=
  match req.imageTokenId, req.images with
  | some _, some payload =>
    if (req.tokensPerImage payload.images).sum ≠ req.imageTokenCount then none
    else cutRuns req.imagePadRuns (req.tokensPerImage payload.images)
  | _, _ => none

/-- `_snap_to_image_boundary`: down to the start of the image span that `candidate` is
strictly inside of. -/
def snapToImageBoundary (candidate : ℕ) : ℕ :=
  if ¬ req.isMultimodal ∨ req.imageTokenId = none ∨ candidate = 0 then candidate
  else match req.imageTokenSpans with
    | none => candidate
    | some spans =>
      match spans.find? fun span => span.1 < candidate ∧ candidate < span.2 with
      | some span => span.1
      | none => candidate

/-- `image_range_coverage`: the images inside `[start, stop)`, which must be whole and
contiguous. -/
def imageRangeCoverage (spans : List (ℕ × ℕ)) (start stop : ℕ) :
    Except EngineError (Option (List ℕ)) := do
  let touched := spans.zipIdx.filter fun (span, _) => span.1 < stop ∧ start < span.2
  match touched.find? fun (span, _) => span.1 < start ∨ stop < span.2 with
  | some (_, image) => throw (.sequence (.rangeSplitsImage start stop image))
  | none => do
    let covered := touched.map (·.2)
    match covered with
    | [] => pure none
    | first :: _ => do
      ensure (covered = List.range' first covered.length)
        (.sequence (.rangeNonContiguous start stop))
      pure (some covered)

/-- The image rows of `vision_patch_count_for_prefill_range`. -/
def imagePatchesForRange (payload : ImagePayload) (start stop : ℕ) :
    Except EngineError ℕ := do
  match req.imageTokenId with
  | none => throw (.sequence .payloadIdentityMissing)
  | some id => do
    ensure (0 < req.imageTokenCount) (.sequence .payloadIdentityMissing)
    let observed := ((req.promptTokenIds.take stop).drop start).count id
    if observed = 0 then pure 0
    else match req.imageTokenSpans with
      | none => do
        ensure (observed = req.imageTokenCount) (.sequence (.rangeSplitsPayload start stop))
        pure payload.rows
      | some spans => do
        match ← imageRangeCoverage spans start stop with
        | none => throw (.sequence (.rangeUncovered start stop))
        | some covered => do
          ensure (payload.images.length = spans.length) (.sequence .gridMismatch)
          pure (covered.map fun image => ((payload.images[image]?).map (·.patches)).getD 0).sum

/-- The video rows of `vision_patch_count_for_prefill_range`: all or nothing. -/
def videoPatchesForRange (payload : VideoPayload) (start stop : ℕ) :
    Except EngineError ℕ := do
  match req.videoTokenId with
  | none => throw (.sequence .payloadIdentityMissing)
  | some id => do
    ensure (0 < req.videoTokenCount) (.sequence .payloadIdentityMissing)
    let observed := ((req.promptTokenIds.take stop).drop start).count id
    if observed = 0 then pure 0
    else do
      ensure (observed = req.videoTokenCount) (.sequence (.rangeSplitsPayload start stop))
      pure payload.rows

/-- Payload patches materialized by one atomic prefill range. Its tokens are prompt
tokens, as the range check ensures. -/
def visionPatchCountForPrefillRange (start stop : ℕ) : Except EngineError ℕ := do
  ensure (start < stop ∧ stop ≤ req.numPromptTokens)
    (.sequence (.invalidPatchRange start stop req.numPromptTokens))
  let imagePatches ← match req.images with
    | none => pure 0
    | some payload => req.imagePatchesForRange payload start stop
  let videoPatches ← match req.video with
    | none => pure 0
    | some payload => req.videoPatchesForRange payload start stop
  pure (imagePatches + videoPatches)

variable {H : Type} [Digests H]

/-- Map in-block pad positions to per-image surrogate hashes. -/
def mmTokenHashesForBlock (H : Type) [Digests H] (blockIndex blockSize : ℕ) :
    Option MmTokenHashes :=
  match req.multimodalMediaTokenHashes, req.imageTokenId, req.imageTokenSpans with
  | some hashes, some _, some spans =>
    if hashes = [] ∨ spans.length ≠ hashes.length then none
    else
      let start := blockIndex * blockSize
      let mapping := (spans.zip hashes).flatMap fun (span, image) =>
        (List.range' (max start span.1) (min (start + blockSize) span.2 - max start span.1)).map
          fun position => (position - start, Digests.surrogate H image)
      if mapping = [] then none else some mapping
  | _, _, _ => none

end Request

/-- The mutable state of one request. -/
structure Sequence (H : Type) where
  request : Request
  status : RequestState
  tokenIds : List ℕ
  numCachedTokens : ℕ
  numComputedTokens : ℕ
  blockTable : List ℕ
  cpuBlockTable : List ℕ
  cpuBlockHashes : List (Option H)
  cpuBlockTokenIds : List (List ℕ)
  cpuBlockMmHashes : List (Option MmTokenHashes)
  multimodalPrefixCacheEnabled : Bool
  prefixCacheCandidateTokens : ℕ
  multimodalPrefixCacheHit : Bool
  visualPruningDecisionRecord : Option CompressionRecord
  kvLayout : Option KVCacheLayoutDescriptor

namespace Sequence

variable {H : Type} (seq : Sequence H)

/-- The constructor. -/
def ofRequest (H : Type) (req : Request) : Sequence H where
  request := req
  status := .waiting
  tokenIds := req.promptTokenIds
  numCachedTokens := 0
  numComputedTokens := 0
  blockTable := []
  cpuBlockTable := []
  cpuBlockHashes := []
  cpuBlockTokenIds := []
  cpuBlockMmHashes := []
  multimodalPrefixCacheEnabled := false
  prefixCacheCandidateTokens := 0
  multimodalPrefixCacheHit := false
  visualPruningDecisionRecord := none
  kvLayout := none

def blockSize : ℕ := seq.request.blockSize
def numTokens : ℕ := seq.tokenIds.length
def numPromptTokens : ℕ := seq.request.numPromptTokens
def numCompletionTokens : ℕ := seq.numTokens - seq.numPromptTokens
def completionTokenIds : List ℕ := seq.tokenIds.drop seq.numPromptTokens
def numBlocks : ℕ := pagesFor seq.numTokens seq.blockSize

def physicalKvLen : ℕ :=
  match seq.kvLayout with
  | none => seq.numTokens
  | some layout => layout.physicalKvLen

def hasCompactKvLayout : Bool := seq.kvLayout.isSome

/-- Logical prompt offset already computed or available from cache. -/
def effectivePrefillStart : ℕ :=
  max (max seq.numCachedTokens seq.numComputedTokens) seq.prefixCacheCandidateTokens

def isPrefillFinished : Bool := decide (seq.numPromptTokens ≤ seq.numComputedTokens)

def remainingPrefillTokens : ℕ := seq.numPromptTokens - seq.effectivePrefillStart

/-- Vision work remaining after an available prefix hit. -/
def prefillVisionPatchCount : Except EngineError ℕ :=
  if seq.effectivePrefillStart = 0 then .ok seq.request.visionPatchCount
  else if seq.numPromptTokens ≤ seq.effectivePrefillStart then .ok 0
  else seq.request.visionPatchCountForPrefillRange seq.effectivePrefillStart seq.numPromptTokens

/-- Tokens of block `i`. -/
def blockTokens (i : ℕ) : List ℕ := (seq.tokenIds.drop (i * seq.blockSize)).take seq.blockSize

/-- `block(i)` with its range check. -/
def block (i : ℕ) : Except EngineError (List ℕ) := do
  ensure (i < seq.numBlocks) (.sequence (.blockIndexOutside i seq.numBlocks))
  pure (seq.blockTokens i)

/-- Prefix-cache hits are already materialized: progress begins behind them. -/
def skipCached : Sequence H :=
  { seq with numComputedTokens := max seq.numComputedTokens seq.numCachedTokens }

/-- Progress after the KV of the sequence was given up. -/
def restart : Sequence H := { seq with numComputedTokens := 0 }

def transitionTo (target : RequestState) : Except EngineError (Sequence H) := do
  let state ← seq.status.transition target
  pure { seq with status := state }

def appendToken (token : ℕ) : Except EngineError (Sequence H) :=
  match seq.kvLayout with
  | none => .ok { seq with tokenIds := seq.tokenIds ++ [token] }
  | some layout => do
    let layout ← layout.appendGeneratedToken
    pure { seq with tokenIds := seq.tokenIds ++ [token], kvLayout := some layout }

/-- Commit a physical layout after the device copy and the release of pages. -/
def installKvLayout (layout : KVCacheLayoutDescriptor) : Except EngineError (Sequence H) := do
  ensure (seq.kvLayout = none) (.sequence .layoutAlreadyInstalled)
  ensure (seq.blockTable.length = pagesFor layout.physicalKvLen seq.blockSize)
    (.sequence .layoutTableNotFinal)
  layout.validate seq.blockSize seq.blockTable false
  ensure (layout.logicalContextLen = seq.numTokens) (.sequence .layoutLogicalLength)
  pure { seq with kvLayout := some layout }

/-- Install a compacted prefix before its dense prompt suffix runs. -/
def installCachedPrefixLayout (layout : KVCacheLayoutDescriptor) :
    Except EngineError (Sequence H) := do
  ensure (seq.kvLayout = none) (.sequence .layoutAlreadyInstalled)
  ensure (0 < seq.numCachedTokens ∧ seq.numCachedTokens < seq.numPromptTokens)
    (.sequence .cachedPrefixNotStrict)
  ensure (seq.numComputedTokens = seq.numCachedTokens) (.sequence .cachedComputedDisagree)
  ensure (layout.logicalContextLen = seq.numCachedTokens) (.sequence .cachedLayoutLength)
  layout.validate seq.blockSize seq.blockTable false
  pure { seq with kvLayout := some layout }

end Sequence

end PrismInfer
