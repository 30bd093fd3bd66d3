import PrismInfer.Lib.StateExcept

/-!
# Three-axis positions of a prompt

`get_qwen3_vl_rope_index` on one request. The positions of a part are a list of points, one
for each token. Attention masks hold zeros and ones, here `false` and `true`.
-/
namespace PrismInfer
open StateExcept

inductive MRopeError
  | mergeSizeNotPositive
  | tokenIdsNotDistinct
  | maskShape (mask tokens : ℕ)
  /-- `max()` of an empty tensor. -/
  | emptyMax
  | visionStartLast
  | tooFewGrids (rows : ℕ)
  | gridsLeft (rows used : ℕ)
  /-- `list.index`: the token does not occur after the start. -/
  | tokenNotFound (tokenId : ℕ)
  | spanNotLocated
  | gridNotDivisible (height width mergeSize : ℕ)
  | emptyGrid (temporal height width : ℕ)
  | noParts
  | positionLength (positions tokens : ℕ)
deriving DecidableEq, Repr

structure SpecialTokens where
  imageTokenId : ℕ
  videoTokenId : ℕ
  visionStartTokenId : ℕ
deriving DecidableEq, Repr

inductive VisualKind
  | image | video
deriving DecidableEq, Repr

structure VisionGrid where
  temporal : ℕ
  height : ℕ
  width : ℕ
deriving DecidableEq, Repr

/-- The position of one token on the three axes. -/
structure MRopePosition where
  temporal : ℕ
  height : ℕ
  width : ℕ
deriving DecidableEq, Repr

/-! ## Grid rows -/

structure VisualGridCursor where
  imageGridThw : Option (List VisionGrid)
  videoGridThw : Option (List VisionGrid)
  imageIndex : ℕ
  videoIndex : ℕ
deriving DecidableEq, Repr

namespace VisualGridCursor

def grids (cursor : VisualGridCursor) : VisualKind → List VisionGrid
  | .image => cursor.imageGridThw.getD []
  | .video => cursor.videoGridThw.getD []

def index (cursor : VisualGridCursor) : VisualKind → ℕ
  | .image => cursor.imageIndex
  | .video => cursor.videoIndex

def advance (cursor : VisualGridCursor) : VisualKind → VisualGridCursor
  | .image => { cursor with imageIndex := cursor.imageIndex + 1 }
  | .video => { cursor with videoIndex := cursor.videoIndex + 1 }

def take (cursor : VisualGridCursor) (kind : VisualKind) :
    Except MRopeError (VisionGrid × VisualGridCursor) :=
  match (cursor.grids kind)[cursor.index kind]? with
  | none => .error (.tooFewGrids (cursor.grids kind).length)
  | some grid => .ok (grid, cursor.advance kind)

def ensureKindExhausted (cursor : VisualGridCursor) (kind : VisualKind) : Except MRopeError Unit :=
  ensure (cursor.index kind = (cursor.grids kind).length)
    (.gridsLeft (cursor.grids kind).length (cursor.index kind))

def ensureExhausted (cursor : VisualGridCursor) : Except MRopeError Unit := do
  cursor.ensureKindExhausted .image
  cursor.ensureKindExhausted .video

end VisualGridCursor

def mergeVisualGrid (spatialMergeSize : ℕ) (rawGrid : VisionGrid) :
    Except MRopeError VisionGrid := do
  ensure (rawGrid.height % spatialMergeSize = 0 ∧ rawGrid.width % spatialMergeSize = 0)
    (.gridNotDivisible rawGrid.height rawGrid.width spatialMergeSize)
  let merged : VisionGrid := ⟨rawGrid.temporal, rawGrid.height / spatialMergeSize,
    rawGrid.width / spatialMergeSize⟩
  ensure (0 < merged.temporal ∧ 0 < merged.height ∧ 0 < merged.width)
    (.emptyGrid rawGrid.temporal rawGrid.height rawGrid.width)
  pure merged

def gridTokenCount (grid : VisionGrid) : ℕ :=
  grid.temporal * grid.height * grid.width

/-- Videos frame by frame: the time is in the timestamp tokens. -/
def framewise (videoGridThw : List VisionGrid) : List VisionGrid :=
  videoGridThw.flatMap fun grid => List.replicate grid.temporal { grid with temporal := 1 }

/-! ## Visual spans -/

structure RemainingVisualSpans where
  images : ℕ
  videos : ℕ
deriving DecidableEq, Repr

def nextTokenEnd (inputTokens : List ℕ) (tokenId start remaining : ℕ) : Except MRopeError ℕ :=
  if remaining = 0 ∨ tokenId ∉ inputTokens then .ok (inputTokens.length + 1)
  else
    match (inputTokens.drop start).findIdx? (· = tokenId) with
    | none => .error (.tokenNotFound tokenId)
    | some offset => .ok (start + offset)

def RemainingVisualSpans.popNext (ids : SpecialTokens) (remaining : RemainingVisualSpans)
    (inputTokens : List ℕ) (start : ℕ) :
    Except MRopeError (VisualKind × ℕ × RemainingVisualSpans) := do
  let imageEnd ← nextTokenEnd inputTokens ids.imageTokenId start remaining.images
  let videoEnd ← nextTokenEnd inputTokens ids.videoTokenId start remaining.videos
  if imageEnd < videoEnd then
    pure (.image, imageEnd, { remaining with images := remaining.images - 1 })
  else do
    ensure (videoEnd ≤ inputTokens.length) .spanNotLocated
    pure (.video, videoEnd, { remaining with videos := remaining.videos - 1 })

/-- The tokens that follow a vision start. -/
def visionTokens (visionStartTokenId : ℕ) (inputTokens : List ℕ) : List ℕ :=
  ((inputTokens.zip inputTokens.tail).filter (·.1 = visionStartTokenId)).map (·.2)

def visualSpanCounts (ids : SpecialTokens) (activeInputIds : List ℕ) :
    Except MRopeError RemainingVisualSpans := do
  ensure (activeInputIds.getLast? ≠ some ids.visionStartTokenId) .visionStartLast
  let tokens := visionTokens ids.visionStartTokenId activeInputIds
  pure { images := tokens.count ids.imageTokenId, videos := tokens.count ids.videoTokenId }

/-! ## Positions -/

def MRopePosition.axes (position : MRopePosition) : List ℕ :=
  [position.temporal, position.height, position.width]

/-- `max()` over the three axes of a part. -/
def maxPosition (part : List MRopePosition) : Except MRopeError ℕ :=
  match (part.flatMap MRopePosition.axes).max? with
  | none => .error .emptyMax
  | some position => .ok position

def nextPositionStart (positionParts : List (List MRopePosition)) : Except MRopeError ℕ :=
  match positionParts.getLast? with
  | none => .ok 0
  | some part => return (← maxPosition part) + 1

def textPositions (length startPosition : ℕ) : List MRopePosition :=
  (List.range length).map fun i => ⟨i + startPosition, i + startPosition, i + startPosition⟩

def visualPositions (grid : VisionGrid) (startPosition : ℕ) : List MRopePosition :=
  (List.range grid.temporal).flatMap fun t => (List.range grid.height).flatMap fun h =>
    (List.range grid.width).map fun w => ⟨t + startPosition, h + startPosition, w + startPosition⟩

def appendVisualSpanPositions (positionParts : List (List MRopePosition)) (textLength : ℕ)
    (mergedGrid : VisionGrid) : Except MRopeError (List (List MRopePosition)) := do
  let startPosition ← nextPositionStart positionParts
  pure (positionParts ++ [textPositions textLength startPosition,
    visualPositions mergedGrid (startPosition + textLength)])

def appendTrailingTextPositions (positionParts : List (List MRopePosition))
    (start totalLength : ℕ) : Except MRopeError (List (List MRopePosition)) :=
  if totalLength ≤ start then .ok positionParts
  else return positionParts ++
    [textPositions (totalLength - start) (← nextPositionStart positionParts)]

/-- One round for each span: find it, take its grid row, append the text before it and the
span itself. -/
def visualRounds (ids : SpecialTokens) (spatialMergeSize : ℕ) (inputTokens : List ℕ) :
    ℕ → RemainingVisualSpans → VisualGridCursor → List (List MRopePosition) → ℕ →
      Except MRopeError (List (List MRopePosition) × ℕ × VisualGridCursor)
  | 0, _, cursor, positionParts, start => pure (positionParts, start, cursor)
  | rounds + 1, remaining, cursor, positionParts, start => do
    let (kind, visualEnd, remaining) ← remaining.popNext ids inputTokens start
    let (rawGrid, cursor) ← cursor.take kind
    let mergedGrid ← mergeVisualGrid spatialMergeSize rawGrid
    let positionParts ←
      appendVisualSpanPositions positionParts (visualEnd - start) mergedGrid
    visualRounds ids spatialMergeSize inputTokens rounds remaining cursor positionParts
      (visualEnd + gridTokenCount mergedGrid)

def buildSequenceVisualPositions (ids : SpecialTokens) (spatialMergeSize : ℕ)
    (activeInputIds : List ℕ) (gridCursor : VisualGridCursor) :
    Except MRopeError (List MRopePosition × VisualGridCursor) := do
  let remaining ← visualSpanCounts ids activeInputIds
  let (positionParts, start, gridCursor) ← visualRounds ids spatialMergeSize activeInputIds
    (remaining.images + remaining.videos) remaining gridCursor [] 0
  let positionParts ← appendTrailingTextPositions positionParts start activeInputIds.length
  ensure (positionParts ≠ []) .noParts
  pure (positionParts.flatten, gridCursor)

/-- `position_ids[..., active_mask] = llm_positions` over a tensor of ones. -/
def scatterActive : List Bool → List MRopePosition → List MRopePosition
  | [], _ => []
  | true :: mask, position :: positions => position :: scatterActive mask positions
  | _ :: mask, positions => ⟨1, 1, 1⟩ :: scatterActive mask positions

def getVisualRopeIndex (ids : SpecialTokens) (spatialMergeSize : ℕ) (inputIds : List ℕ)
    (imageGridThw videoGridThw : Option (List VisionGrid)) (attentionMask : Option (List Bool)) :
    Except MRopeError (List MRopePosition × ℤ) := do
  let attentionMask := attentionMask.getD (List.replicate inputIds.length true)
  let activeInputIds := ((inputIds.zip attentionMask).filter (·.2)).map (·.1)
  let (llmPositions, gridCursor) ← buildSequenceVisualPositions ids spatialMergeSize activeInputIds
    ⟨imageGridThw, videoGridThw, 0, 0⟩
  ensure (llmPositions.length = activeInputIds.length)
    (.positionLength llmPositions.length activeInputIds.length)
  let last ← maxPosition llmPositions
  gridCursor.ensureExhausted
  pure (scatterActive attentionMask llmPositions, last + 1 - inputIds.length)

/-- The positions of a text: the count of active tokens, and one where the mask is off. -/
def maskedTextPositions : ℕ → List Bool → List MRopePosition
  | _, [] => []
  | active, true :: mask => ⟨active, active, active⟩ :: maskedTextPositions (active + 1) mask
  | active, false :: mask => ⟨1, 1, 1⟩ :: maskedTextPositions active mask

def getTextRopeIndex (inputIds : List ℕ) :
    Option (List Bool) → Except MRopeError (List MRopePosition × ℤ)
  | none => pure (textPositions inputIds.length 0, 0)
  | some attentionMask => do
    let positionIds := maskedTextPositions 0 attentionMask
    let last ← maxPosition positionIds
    pure (positionIds, last + 1 - attentionMask.length)

def getQwen3VlRopeIndex (ids : SpecialTokens) (spatialMergeSize : ℕ) (inputIds : List ℕ)
    (imageGridThw videoGridThw : Option (List VisionGrid)) (attentionMask : Option (List Bool)) :
    Except MRopeError (List MRopePosition × ℤ) := do
  ensure (0 < spatialMergeSize) .mergeSizeNotPositive
  ensure ([ids.imageTokenId, ids.videoTokenId, ids.visionStartTokenId].Nodup) .tokenIdsNotDistinct
  ensure (∀ mask ∈ attentionMask, mask.length = inputIds.length)
    (.maskShape (attentionMask.map List.length |>.getD 0) inputIds.length)
  if imageGridThw = none ∧ videoGridThw = none then getTextRopeIndex inputIds attentionMask
  else
    getVisualRopeIndex ids spatialMergeSize inputIds imageGridThw (videoGridThw.map framewise)
      attentionMask

/-! ## Decode -/

/-- What `prepare_decode` reads of a sequence to place its last token. -/
structure DecodePlace where
  numTokens : ℕ
  ropeDelta : Option ℤ
deriving DecidableEq, Repr

def DecodePlace.logicalPosition (place : DecodePlace) : ℤ :=
  place.numTokens - 1

/-- The rows of the position tensor: three equal axes once one sequence has a delta. -/
def prepareDecodePositions (seqs : List DecodePlace) : List (List ℤ) :=
  if seqs.any (·.ropeDelta.isSome) then
    List.replicate 3 (seqs.map fun seq => seq.logicalPosition + seq.ropeDelta.getD 0)
  else [seqs.map DecodePlace.logicalPosition]

end PrismInfer
