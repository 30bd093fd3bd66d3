import PrismInfer.ImageSpans
import PrismInfer.Lib.ListBlocks
import PrismInfer.MRopePositions

/-!
# Media of a prefill slice

`_append_sequence_media` selects what a slice of a prompt needs of the sequence's media: raw
patches with their grids, or rows of visual embeddings computed before. Tensors are lists of
rows.
-/
namespace PrismInfer
open StateExcept Spans ListBlocks

inductive MediaInputError
  | mergeSizeNotPositive
  | spanCount (spans grid : ℕ)
  | spanLength (image : ℕ)
  | coverage (e : EngineError)
  | gridMissing
  | identityMissing
  | splitsPayload (observed expected : ℕ)
  | sliceFailed
  | splitsVideoEmbeds (observed expected : ℕ)
  | splitsEmbeds (observed expected : ℕ)
  | embedRows (rows observed : ℕ)
  | deepstackMissing
  | deepstackDepth
  | deepstackShape
  | mixedPayloads
deriving DecidableEq, Repr

/-- `row.prod()`. -/
def VisionGrid.patches (grid : VisionGrid) : ℕ :=
  grid.temporal * grid.height * grid.width

/-- The media tensors of a sequence. -/
structure SequenceTensors (ρ : Type) where
  pixelValues : Option (List ρ)
  imageGridThw : Option (List VisionGrid)
  pixelValuesVideos : Option (List ρ)
  videoGridThw : Option (List VisionGrid)

/-- Main and DeepStack outputs of the vision encoder, attached before the prefill. -/
structure PrecomputedVisual (ε : Type) where
  embeds : List ε
  deepstack : List (List ε)
deriving DecidableEq, Repr

/-- Rows of all outputs, each cut the same way. -/
def PrecomputedVisual.select {ε : Type} (precomputed : PrecomputedVisual ε)
    (cut : List ε → List ε) : PrecomputedVisual ε where
  embeds := cut precomputed.embeds
  deepstack := precomputed.deepstack.map cut

/-- The media fields of `_PrefillHostBatch`. -/
structure MediaHost (ρ ε : Type) where
  pixelValueChunks : List (List ρ) := []
  imageGridChunks : List (List VisionGrid) := []
  videoValueChunks : List (List ρ) := []
  videoGridChunks : List (List VisionGrid) := []
  visualEmbedChunks : List (List ε) := []
  deepstackVisualEmbedChunks : List (List (List ε)) := []

variable {ρ ε : Type}

def liftCoverage {α : Type} : Except EngineError α → Except MediaInputError α
  | .ok a => .ok a
  | .error e => .error (.coverage e)

/-- Slice the stacked payload to the images a range covers; the count is their tokens. -/
def splitImagePayloadsForRange (pixelValues : List ρ) (grid : List VisionGrid) (mergeSize : ℕ)
    (imageSpans : List (ℕ × ℕ)) (start stop : ℕ) :
    Except MediaInputError (Option (List ρ × List VisionGrid) × ℕ) := do
  ensure (0 < mergeSize) .mergeSizeNotPositive
  let rowsPerImage := grid.map VisionGrid.patches
  let tokensPerImage := rowsPerImage.map (· / (mergeSize * mergeSize))
  ensure (imageSpans.length = grid.length) (.spanCount imageSpans.length grid.length)
  let lengths := imageSpans.map fun span => span.2 - span.1
  ensure (lengths = tokensPerImage)
    (.spanLength ((lengths.zip tokensPerImage).findIdx fun item => item.1 ≠ item.2))
  match ← liftCoverage (Request.imageRangeCoverage imageSpans start stop) with
  | none => pure (none, 0)
  | some covered =>
    let first := covered.head?.getD 0
    let last := covered.getLast?.getD 0
    let rowStart := (rowsPerImage.take first).sum
    let rowEnd := (rowsPerImage.take (last + 1)).sum
    pure (some (slice pixelValues rowStart rowEnd, slice grid first (last + 1)),
      total (slice imageSpans first (last + 1)))

namespace MediaHost

variable (host : MediaHost ρ ε)

def addImages (pixels : List ρ) (grid : List VisionGrid) : MediaHost ρ ε :=
  { host with
    pixelValueChunks := host.pixelValueChunks ++ [pixels]
    imageGridChunks := host.imageGridChunks ++ [grid] }

def addVideo (pixels : List ρ) (grid : List VisionGrid) : MediaHost ρ ε :=
  { host with
    videoValueChunks := host.videoValueChunks ++ [pixels]
    videoGridChunks := host.videoGridChunks ++ [grid] }

/-- Images: whole images of a slice, cut out of the stacked payload. -/
def appendRawImages (req : Request) (tensors : SequenceTensors ρ) (mergeSize : ℕ)
    (currentTokens : List ℕ) (tokenStart tokenEnd : ℕ) :
    Except MediaInputError (MediaHost ρ ε) :=
  match tensors.pixelValues with
  | none => pure host
  | some payload =>
    match tensors.imageGridThw, req.imageTokenId with
    | none, _ => throw .gridMissing
    | some _, none => throw .identityMissing
    | some grid, some id => do
      ensure (0 < req.imageTokenCount) .identityMissing
      let observed := currentTokens.count id
      if observed = 0 then pure host
      else if observed = req.imageTokenCount then pure (host.addImages payload grid)
      else
        match req.imageTokenSpans with
        | none => throw (.splitsPayload observed req.imageTokenCount)
        | some spans => do
          let (slice, coveredPads) ←
            splitImagePayloadsForRange payload grid mergeSize spans tokenStart tokenEnd
          ensure (coveredPads = observed) (.splitsPayload observed coveredPads)
          match slice with
          | none => throw .sliceFailed
          | some (pixels, gridSlice) => pure (host.addImages pixels gridSlice)

/-- Videos: all or nothing. -/
def appendRawVideo (req : Request) (tensors : SequenceTensors ρ) (currentTokens : List ℕ) :
    Except MediaInputError (MediaHost ρ ε) :=
  match tensors.pixelValuesVideos with
  | none => pure host
  | some payload =>
    match tensors.videoGridThw, req.videoTokenId with
    | none, _ => throw .gridMissing
    | some _, none => throw .identityMissing
    | some grid, some id => do
      ensure (0 < req.videoTokenCount) .identityMissing
      let observed := currentTokens.count id
      ensure (observed = 0 ∨ observed = req.videoTokenCount)
        (.splitsPayload observed req.videoTokenCount)
      pure (if observed = 0 then host else host.addVideo payload grid)

/-- Rows of the precomputed outputs, image by image where a slice has some of them only. -/
def precomputedRows (req : Request) (tensors : SequenceTensors ρ)
    (precomputed : PrecomputedVisual ε) (mergeSize observed expected tokenStart tokenEnd : ℕ) :
    Except MediaInputError (PrecomputedVisual ε) :=
  if observed = expected then pure precomputed
  else
    match req.imageTokenSpans with
    | none => throw (.splitsEmbeds observed expected)
    | some spans => do
      match ← liftCoverage (Request.imageRangeCoverage spans tokenStart tokenEnd) with
      | none => throw (.splitsEmbeds observed expected)
      | some covered =>
        let tokensPerImage := (tensors.imageGridThw.getD []).map fun grid =>
          grid.patches / (mergeSize * mergeSize)
        let first := covered.head?.getD 0
        let last := covered.getLast?.getD 0
        let rowStart := (tokensPerImage.take first).sum
        let rowEnd := (tokensPerImage.take (last + 1)).sum
        pure {
          embeds := slice precomputed.embeds rowStart rowEnd
          deepstack := precomputed.deepstack.map fun value => slice value rowStart rowEnd }

/-- The rows are appended layer by layer; the first cached sequence fixes the depth. -/
def addPrecomputed (rows : PrecomputedVisual ε) : Except MediaInputError (MediaHost ρ ε) := do
  ensure (rows.deepstack ≠ []) .deepstackMissing
  let chunks := if host.deepstackVisualEmbedChunks = [] then rows.deepstack.map fun _ => []
    else host.deepstackVisualEmbedChunks
  ensure (chunks.length = rows.deepstack.length) .deepstackDepth
  ensure (∀ value ∈ rows.deepstack, value.length = rows.embeds.length) .deepstackShape
  pure { host with
    visualEmbedChunks := host.visualEmbedChunks ++ [rows.embeds]
    deepstackVisualEmbedChunks := List.zipWith (fun chunk value => chunk ++ [value]) chunks
      rows.deepstack }

def tokenCountOf (tokenId : Option ℕ) (currentTokens : List ℕ) : ℕ :=
  match tokenId with
  | none => 0
  | some id => currentTokens.count id

def appendPrecomputed (req : Request) (tensors : SequenceTensors ρ)
    (precomputed : PrecomputedVisual ε) (mergeSize : ℕ) (currentTokens : List ℕ)
    (tokenStart tokenEnd : ℕ) : Except MediaInputError (MediaHost ρ ε) := do
  let videoObserved := tokenCountOf req.videoTokenId currentTokens
  let expected := req.imageTokenCount + req.videoTokenCount
  ensure (req.videoTokenId = none ∨ videoObserved = 0 ∨ videoObserved = req.videoTokenCount)
    (.splitsVideoEmbeds videoObserved req.videoTokenCount)
  let observed := tokenCountOf req.imageTokenId currentTokens + videoObserved
  if observed = 0 then pure host
  else do
    let rows ←
      precomputedRows req tensors precomputed mergeSize observed expected tokenStart tokenEnd
    ensure (rows.embeds.length = observed) (.embedRows rows.embeds.length observed)
    host.addPrecomputed rows

/-- `_append_sequence_media`. -/
def appendSequenceMedia (req : Request) (tensors : SequenceTensors ρ)
    (precomputed : Option (PrecomputedVisual ε)) (mergeSize tokenStart tokenEnd : ℕ)
    (forceRaw : Bool) : Except MediaInputError (MediaHost ρ ε) :=
  let currentTokens := slice req.promptTokenIds tokenStart tokenEnd
  match precomputed, forceRaw with
  | some precomputed, false =>
    host.appendPrecomputed req tensors precomputed mergeSize currentTokens tokenStart tokenEnd
  | _, _ => do
    let host ← host.appendRawImages req tensors mergeSize currentTokens tokenStart tokenEnd
    host.appendRawVideo req tensors currentTokens

end MediaHost

/-! ## Ranges between boundaries -/

section Boundaries

variable {lower x y : ℕ} {spans : List (ℕ × ℕ)} (h : Ordered lower spans) (hx : Outside spans x)
  (hy : Outside spans y) (hxy : x ≤ y)
include h hx hy hxy

/-- Between two boundaries the covered images are those whose spans lie there. -/
theorem imageRangeCoverage_ok :
    Request.imageRangeCoverage spans x y =
      .ok (if within x y spans = [] then none else some (within x y spans)) := by
  have hmeets := h.filter_meets hx hy hxy 0
  rw [Nat.zero_add] at hmeets
  have hcovered : (((spans.take (ended y spans)).drop (ended x spans)).zipIdx
      (ended x spans)).map (·.2) = within x y spans := by
    rw [List.zipIdx_map_snd, List.length_drop, List.length_take, min_eq_left (ended_le y spans),
      h.within_eq hx hy hxy]
  have hwhole : (spans.zipIdx.filter fun item => item.1.1 < y ∧ x < item.1.2).find?
      (fun item => item.1.1 < x ∨ y < item.1.2) = none := by
    rw [List.find?_eq_none]
    intro item hitem
    rw [List.mem_filter, decide_eq_true_eq] at hitem
    obtain ⟨hmem, hbelow, habove⟩ := hitem
    have hspan := List.fst_mem_of_mem_zipIdx hmem
    have houtX := hx _ hspan
    have houtY := hy _ hspan
    rw [decide_eq_true_eq]
    omega
  unfold Request.imageRangeCoverage
  simp only
  rw [hwhole]
  simp only
  rw [hmeets, hcovered, h.within_eq hx hy hxy]
  generalize ended y spans - ended x spans = n
  cases n with
  | zero => rfl
  | succ n => simp [ensure, bind, Except.bind, pure, Except.pure, List.range'_succ]

/-- The first and the last covered image, and the pieces between their ends. -/
theorem within_bounds (hne : within x y spans ≠ []) :
    (within x y spans).head?.getD 0 = ended x spans ∧
      (within x y spans).getLast?.getD 0 + 1 = ended y spans := by
  have hmono := ended_mono hxy spans
  rw [h.within_eq hx hy hxy] at hne ⊢
  have hpos : ended y spans - ended x spans ≠ 0 := fun hzero => hne (by rw [hzero]; rfl)
  rw [List.head?_range', List.getLast?_range', if_neg hpos, if_neg hpos]
  refine ⟨rfl, ?_⟩
  rw [Option.getD_some]
  omega

theorem flatMap_within {ρ : Type} (rows : List ρ) {lengths : List ℕ}
    (hlength : lengths.length = spans.length) :
    (within x y spans).flatMap (fun i => slice rows (offset lengths i) (offset lengths (i + 1))) =
      slice rows ((lengths.take (ended x spans)).sum) ((lengths.take (ended y spans)).sum) := by
  have hmono := ended_mono hxy spans
  have hle := ended_le y spans
  rw [h.within_eq hx hy hxy, flatMap_range'_slices rows lengths (by omega),
    Nat.add_sub_cancel' hmono, offset_eq lengths (by omega), offset_eq lengths (by omega)]

theorem filterMap_within {α : Type} {items : List α} (hlength : items.length = spans.length) :
    (within x y spans).filterMap (items[·]?) = slice items (ended x spans) (ended y spans) := by
  have hmono := ended_mono hxy spans
  have hle := ended_le y spans
  rw [h.within_eq hx hy hxy, filterMap_range' items (by omega), Nat.add_sub_cancel' hmono]

theorem within_eq_nil_iff :
    within x y spans = [] ↔ total ((within x y spans).filterMap (spans[·]?)) = 0 := by
  rw [filterMap_within h hx hy hxy rfl, h.within_eq hx hy hxy, List.range'_eq_nil_iff]
  have hmono := ended_mono hxy spans
  have hle := ended_le y spans
  constructor
  · intro hnone
    rw [show ended x spans = ended y spans by omega]
    simp [slice]
  · intro hnone
    by_contra hsome
    have hlength := @length_slice _ spans (ended x spans) _ hle
    cases hpiece : slice spans (ended x spans) (ended y spans) with
    | nil =>
      rw [hpiece] at hlength
      simp at hlength
      omega
    | cons span rest =>
      have hspan : span ∈ spans := by
        have hmem : span ∈ slice spans (ended x spans) (ended y spans) := by
          rw [hpiece]
          exact List.mem_cons_self
        exact List.mem_of_mem_take (List.mem_of_mem_drop hmem)
      have hpos := (h.le_of_mem hspan).2
      rw [hpiece, total_cons] at hnone
      omega

end Boundaries

/-! ## The media of a request -/

/-- The rows of image `i`, where image after image has as many as `lengths` says. -/
def imageRows {ρ : Type} (rows : List ρ) (lengths : List ℕ) (i : ℕ) : List ρ :=
  slice rows (offset lengths i) (offset lengths (i + 1))

/-- An image request as the processor leaves it: the image placeholders stand in spans as long
as the grid says, the pixel rows are stacked in the grid's order. -/
structure ImageMedia {ρ : Type} (req : Request) (tensors : SequenceTensors ρ) (mergeSize : ℕ)
    (payload : ImagePayload) (id : ℕ) (spans : List (ℕ × ℕ)) (pixels : List ρ)
    (grid : List VisionGrid) : Prop where
  images_eq : req.images = some payload
  id_eq : req.imageTokenId = some id
  woven : Woven id 0 req.promptTokenIds spans
  tokensPerImage : req.tokensPerImage payload.images = spans.map fun span => span.2 - span.1
  count_eq : req.imageTokenCount = total spans
  nonempty : spans ≠ []
  pixels_eq : tensors.pixelValues = some pixels
  grid_eq : tensors.imageGridThw = some grid
  patches : grid.map VisionGrid.patches = payload.images.map Image.patches
  rows : pixels.length = (grid.map VisionGrid.patches).sum
  merge : req.imageMergeSize = mergeSize
  mergePos : 0 < mergeSize

/-- A video request as the processor leaves it. -/
structure VideoMedia {ρ : Type} (req : Request) (tensors : SequenceTensors ρ)
    (payload : VideoPayload) (id : ℕ) (pixels : List ρ) (grid : List VisionGrid) : Prop where
  video_eq : req.video = some payload
  id_eq : req.videoTokenId = some id
  count_eq : req.videoTokenCount = req.promptTokenIds.count id
  count_pos : 0 < req.videoTokenCount
  pixels_eq : tensors.pixelValuesVideos = some pixels
  grid_eq : tensors.videoGridThw = some grid
  payloadRows : payload.rows = pixels.length

namespace ImageMedia

variable {ρ : Type} {req : Request} {tensors : SequenceTensors ρ} {mergeSize : ℕ}
  {payload : ImagePayload} {id : ℕ} {spans : List (ℕ × ℕ)} {pixels : List ρ}
  {grid : List VisionGrid}

section Facts

variable (h : ImageMedia req tensors mergeSize payload id spans pixels grid)
include h

theorem ordered : Ordered 0 spans := h.woven.ordered

theorem spans_eq : req.imageTokenSpans = some spans :=
  Request.imageTokenSpans_of_woven h.id_eq h.images_eq h.woven h.tokensPerImage h.count_eq

theorem lengths : (spans.map fun span => span.2 - span.1) =
    (grid.map VisionGrid.patches).map (· / (mergeSize * mergeSize)) := by
  rw [← h.tokensPerImage, Request.tokensPerImage, h.merge, h.patches, List.map_map]
  rfl

theorem length_grid : grid.length = spans.length := by
  have hlength := congrArg List.length h.lengths
  rw [List.length_map, List.length_map, List.length_map] at hlength
  exact hlength.symm

theorem length_images : payload.images.length = spans.length := by
  have hlength := congrArg List.length h.patches
  rw [List.length_map, List.length_map] at hlength
  rw [← h.length_grid, hlength]

theorem count_pos : 0 < req.imageTokenCount := by
  rw [h.count_eq]
  obtain ⟨span, rest, rfl⟩ := List.exists_cons_of_ne_nil h.nonempty
  have hpos := h.ordered.2.1
  rw [total_cons]
  omega

end Facts

variable {x y : ℕ}

section Range

variable (h : ImageMedia req tensors mergeSize payload id spans pixels grid)
  (hx : Outside spans x) (hy : Outside spans y) (hxy : x ≤ y)
include h hx hy hxy

/-- As many image tokens lie between two boundaries as the spans there are long. -/
theorem count_range : (slice req.promptTokenIds x y).count id =
    total ((within x y spans).filterMap (spans[·]?)) := by
  rw [filterMap_within h.ordered hx hy hxy rfl]
  exact h.woven.count_range hx hy hxy

theorem split_ok :
    splitImagePayloadsForRange pixels grid mergeSize spans x y = .ok
      (if within x y spans = [] then (none, 0)
        else (some ((within x y spans).flatMap (imageRows pixels (grid.map VisionGrid.patches)),
            (within x y spans).filterMap (grid[·]?)),
          total ((within x y spans).filterMap (spans[·]?)))) := by
  have hrows := flatMap_within h.ordered hx hy hxy pixels
    (show (grid.map VisionGrid.patches).length = spans.length by
      rw [List.length_map, h.length_grid])
  have hgrid := filterMap_within h.ordered hx hy hxy h.length_grid
  have htotal := filterMap_within h.ordered hx hy hxy (Eq.refl spans.length)
  unfold splitImagePayloadsForRange
  simp only [ensure, if_pos h.mergePos, if_pos h.length_grid.symm, if_pos h.lengths, bind,
    Except.bind, imageRangeCoverage_ok h.ordered hx hy hxy, liftCoverage]
  by_cases hnone : within x y spans = []
  · rw [if_pos hnone, if_pos hnone]
    rfl
  · obtain ⟨hfirst, hlast⟩ := within_bounds h.ordered hx hy hxy hnone
    rw [if_neg hnone, if_neg hnone]
    simp only [hfirst, hlast, htotal, hgrid]
    rw [show imageRows pixels (grid.map VisionGrid.patches) = fun i => slice pixels
      (offset (grid.map VisionGrid.patches) i) (offset (grid.map VisionGrid.patches) (i + 1))
      from rfl, hrows]
    rfl

/-- A range with all image tokens holds every image. -/
theorem within_all (hall : total ((within x y spans).filterMap (spans[·]?)) = total spans) :
    within x y spans = List.range spans.length := by
  have hpos : ∀ span ∈ spans, span.1 < span.2 := fun span hspan => (h.ordered.le_of_mem hspan).2
  have hmono := ended_mono hxy spans
  have hle := ended_le y spans
  rw [filterMap_within h.ordered hx hy hxy rfl] at hall
  have hbefore := total_append (slice spans 0 (ended x spans))
    (slice spans (ended x spans) (ended y spans))
  have hafter := total_append (slice spans 0 (ended y spans))
    (slice spans (ended y spans) spans.length)
  rw [slice_append_slice (Nat.zero_le _) hmono] at hbefore
  rw [slice_append_slice (Nat.zero_le _) hle] at hafter
  have hwhole : slice spans 0 spans.length = spans := by simp [slice]
  rw [hwhole] at hafter
  have hempty : ∀ {a b : ℕ}, b ≤ spans.length → total (slice spans a b) = 0 → b ≤ a := by
    intro a b hb hzero
    by_contra hlt
    have hlength := @length_slice _ spans a _ hb
    obtain ⟨span, hspan⟩ := List.exists_mem_of_length_pos (l := slice spans a b) (by omega)
    have hterm := List.single_le_sum (fun _ _ => Nat.zero_le _) _
      (List.mem_map_of_mem (f := fun span => span.2 - span.1) hspan)
    have := hpos span (List.mem_of_mem_take (List.mem_of_mem_drop hspan))
    rw [total] at hzero
    omega
  have hfirst := hempty (hmono.trans hle) (a := 0) (by omega)
  have hlast := hempty (a := ended y spans) le_rfl (by omega)
  rw [h.ordered.within_eq hx hy hxy, List.range_eq_range']
  congr 1 <;> omega

end Range

end ImageMedia

/-! ## One slice -/

/-- What a slice adds to the raw media of its batch. -/
structure MediaHost.Gains {ρ ε : Type} (host host' : MediaHost ρ ε) (pixels : List ρ)
    (imageGrid : List VisionGrid) (videos : List ρ) (videoGrid : List VisionGrid) : Prop where
  pixelValues : host'.pixelValueChunks.flatten = host.pixelValueChunks.flatten ++ pixels
  imageGrids : host'.imageGridChunks.flatten = host.imageGridChunks.flatten ++ imageGrid
  videoValues : host'.videoValueChunks.flatten = host.videoValueChunks.flatten ++ videos
  videoGrids : host'.videoGridChunks.flatten = host.videoGridChunks.flatten ++ videoGrid
  visualEmbeds : host'.visualEmbedChunks = host.visualEmbedChunks
  deepstack : host'.deepstackVisualEmbedChunks = host.deepstackVisualEmbedChunks

namespace ImageMedia

variable {ρ ε : Type} {req : Request} {tensors : SequenceTensors ρ} {mergeSize : ℕ}
  {payload : ImagePayload} {id : ℕ} {spans : List (ℕ × ℕ)} {pixels : List ρ}
  {grid : List VisionGrid} {x y : ℕ}
  (h : ImageMedia req tensors mergeSize payload id spans pixels grid)
  (hx : Outside spans x) (hy : Outside spans y) (hxy : x ≤ y)
include h hx hy hxy

/-- A slice between two boundaries gets the images that lie in it. -/
theorem appendRawImages_ok (host : MediaHost ρ ε) :
    ∃ host', host.appendRawImages req tensors mergeSize (slice req.promptTokenIds x y) x y =
        .ok host' ∧
      host.Gains host' ((within x y spans).flatMap (imageRows pixels (grid.map VisionGrid.patches)))
        ((within x y spans).filterMap (grid[·]?)) [] [] := by
  have hcount := h.count_range hx hy hxy
  have hnil := within_eq_nil_iff h.ordered hx hy hxy
  unfold MediaHost.appendRawImages
  simp only [h.pixels_eq, h.grid_eq, h.id_eq, ensure, if_pos h.count_pos, bind, Except.bind, hcount]
  by_cases hnone : within x y spans = []
  · rw [if_pos (hnil.mp hnone), hnone]
    exact ⟨host, rfl, by constructor <;> simp⟩
  · rw [if_neg fun hzero => hnone (hnil.mpr hzero)]
    by_cases hall : total ((within x y spans).filterMap (spans[·]?)) = req.imageTokenCount
    · rw [if_pos hall]
      have hrange := h.within_all hx hy hxy (hall.trans h.count_eq)
      have hlength : (grid.map VisionGrid.patches).length = spans.length := by
        rw [List.length_map, h.length_grid]
      have hpixels := flatMap_slices h.rows
      have hgrid := filterMap_range' grid (j := 0) (n := grid.length) (by omega)
      rw [hlength] at hpixels
      rw [h.length_grid, Nat.zero_add, ← List.range_eq_range'] at hgrid
      refine ⟨host.addImages pixels grid, rfl, ?_⟩
      rw [hrange, hgrid]
      constructor
      · simp only [MediaHost.addImages, List.flatten_append, List.flatten_singleton]
        congr 1
        exact hpixels.symm
      · simp [MediaHost.addImages, slice, ← h.length_grid]
      all_goals simp [MediaHost.addImages]
    · rw [if_neg hall, h.spans_eq]
      simp only [h.split_ok hx hy hxy, if_neg hnone, if_true]
      exact ⟨_, rfl, by constructor <;> simp [MediaHost.addImages]⟩

/-- Its patch count is that of these images. -/
theorem imagePatches_ok :
    req.imagePatchesForRange payload x y =
      .ok ((within x y spans).map fun i => ((grid[i]?).map VisionGrid.patches).getD 0).sum := by
  have hcount := h.count_range hx hy hxy
  have hnil := within_eq_nil_iff h.ordered hx hy hxy
  unfold Request.imagePatchesForRange
  simp only [h.id_eq, ensure, if_pos h.count_pos, bind, Except.bind]
  change (if (slice req.promptTokenIds x y).count id = 0 then _ else _) = _
  rw [hcount]
  by_cases hnone : within x y spans = []
  · rw [if_pos (hnil.mp hnone), hnone]
    rfl
  · rw [if_neg fun hzero => hnone (hnil.mpr hzero), h.spans_eq]
    simp only [imageRangeCoverage_ok h.ordered hx hy hxy, if_neg hnone, if_pos h.length_images]
    have hget : ∀ i : ℕ, (payload.images[i]?).map Image.patches =
        (grid[i]?).map VisionGrid.patches := fun i => by
      rw [← List.getElem?_map, ← h.patches, List.getElem?_map]
    simp only [hget]
    rfl

/-- As many as the images there have pixel rows. -/
theorem imagePatches_length : req.imagePatchesForRange payload x y = .ok
    ((within x y spans).flatMap (imageRows pixels (grid.map VisionGrid.patches))).length := by
  have hlength := h.length_grid
  have hrange : ∀ i ∈ within x y spans, i < (grid.map VisionGrid.patches).length := by
    intro i hi
    rw [h.ordered.within_eq hx hy hxy, List.mem_range'_1] at hi
    have := ended_mono hxy spans
    have := ended_le y spans
    rw [List.length_map]
    omega
  rw [h.imagePatches_ok hx hy hxy, List.length_flatMap]
  congr 2
  apply List.map_congr_left
  intro i hi
  have hlt := hrange i hi
  have hsum := offset_le_sum _ (Nat.succ_le_of_lt hlt)
  rw [← h.rows] at hsum
  rw [imageRows, length_slice hsum, offset_succ _ hlt, Nat.add_sub_cancel_left,
    List.getElem_map, List.getElem?_eq_getElem (by simpa using hlt)]
  rfl

end ImageMedia

/-! ## Cached rows -/

theorem PrecomputedVisual.select_eq_self {ε : Type} {precomputed : PrecomputedVisual ε}
    {cut : List ε → List ε} (hembeds : cut precomputed.embeds = precomputed.embeds)
    (hlayers : ∀ layer ∈ precomputed.deepstack, cut layer = layer) :
    precomputed.select cut = precomputed := by
  unfold select
  rw [hembeds, List.map_congr_left hlayers, List.map_id']

/-- The cached sequences of a batch, if any, have so many DeepStack layers. -/
def MediaHost.Depth {ρ ε : Type} (host : MediaHost ρ ε) (layers : ℕ) : Prop :=
  host.deepstackVisualEmbedChunks = [] ∨ host.deepstackVisualEmbedChunks.length = layers

/-- What a slice adds to the cached rows of its batch. -/
structure MediaHost.GainsRows {ρ ε : Type} (host host' : MediaHost ρ ε)
    (rows : PrecomputedVisual ε) : Prop where
  visualEmbeds : host'.visualEmbedChunks.flatten = host.visualEmbedChunks.flatten ++ rows.embeds
  deepstack : ∀ (i : ℕ) (layer : List ε), rows.deepstack[i]? = some layer →
    ((host'.deepstackVisualEmbedChunks[i]?).getD []).flatten =
      ((host.deepstackVisualEmbedChunks[i]?).getD []).flatten ++ layer
  depth : host'.Depth rows.deepstack.length
  pixelValues : host'.pixelValueChunks = host.pixelValueChunks
  imageGrids : host'.imageGridChunks = host.imageGridChunks
  videoValues : host'.videoValueChunks = host.videoValueChunks
  videoGrids : host'.videoGridChunks = host.videoGridChunks

namespace MediaHost

variable {ρ ε : Type} {host : MediaHost ρ ε} {rows : PrecomputedVisual ε}

theorem GainsRows.refl (hnone : rows.embeds = []) (hlayers : ∀ layer ∈ rows.deepstack, layer = [])
    (hdepth : host.Depth rows.deepstack.length) : host.GainsRows host rows where
  visualEmbeds := by rw [hnone, List.append_nil]
  deepstack i layer hlayer := by
    rw [hlayers layer (List.mem_of_getElem? hlayer), List.append_nil]
  depth := hdepth
  pixelValues := rfl
  imageGrids := rfl
  videoValues := rfl
  videoGrids := rfl

/-- Outputs of one shape are appended layer by layer. -/
theorem addPrecomputed_ok (hlayers : rows.deepstack ≠ [])
    (hshape : ∀ value ∈ rows.deepstack, value.length = rows.embeds.length)
    (hdepth : host.Depth rows.deepstack.length) :
    ∃ host', host.addPrecomputed rows = .ok host' ∧ host.GainsRows host' rows := by
  unfold addPrecomputed
  obtain ⟨chunks, hchunks⟩ : ∃ chunks, chunks =
      if host.deepstackVisualEmbedChunks = [] then rows.deepstack.map fun _ => []
        else host.deepstackVisualEmbedChunks := ⟨_, rfl⟩
  have hlength : chunks.length = rows.deepstack.length := by
    rw [hchunks]
    split
    · exact List.length_map _
    · next hsome => exact hdepth.resolve_left hsome
  have hflatten : ∀ i < chunks.length, (chunks[i]?.getD []).flatten =
      ((host.deepstackVisualEmbedChunks[i]?).getD []).flatten := by
    intro i hi
    rw [hlength] at hi
    rw [hchunks]
    split
    · next hnone => simp [hnone, hi]
    · rfl
  simp only [ensure, if_pos hlayers, bind, Except.bind, ← hchunks, if_pos hlength, if_pos hshape]
  refine ⟨_, rfl, ?_⟩
  constructor
  · simp
  · intro i layer hlayer
    have hi : i < rows.deepstack.length := (List.getElem?_eq_some_iff.mp hlayer).1
    rw [← hflatten i (by omega), List.getElem?_zipWith, hlayer,
      List.getElem?_eq_getElem (show i < chunks.length by omega)]
    simp
  · refine .inr ?_
    rw [List.length_zipWith, hlength, min_self]
  all_goals rfl

/-- A slice of a cached sequence, where its rows are as many as its placeholders. -/
theorem appendPrecomputed_ok {req : Request} {tensors : SequenceTensors ρ} {mergeSize x y : ℕ}
    {precomputed : PrecomputedVisual ε} {tokens : List ℕ}
    (hvideo : tokenCountOf req.videoTokenId tokens = 0 ∨
      tokenCountOf req.videoTokenId tokens = req.videoTokenCount)
    (hcount : rows.embeds.length =
      tokenCountOf req.imageTokenId tokens + tokenCountOf req.videoTokenId tokens)
    (hrows : rows.embeds ≠ [] → precomputedRows req tensors precomputed mergeSize
      (tokenCountOf req.imageTokenId tokens + tokenCountOf req.videoTokenId tokens)
      (req.imageTokenCount + req.videoTokenCount) x y = .ok rows)
    (hlayers : rows.deepstack ≠ [])
    (hshape : ∀ value ∈ rows.deepstack, value.length = rows.embeds.length)
    (hdepth : host.Depth rows.deepstack.length) :
    ∃ host', host.appendPrecomputed req tensors precomputed mergeSize tokens x y = .ok host' ∧
      host.GainsRows host' rows := by
  unfold appendPrecomputed
  simp only [ensure, if_pos (Or.inr hvideo), bind, Except.bind, ← hcount] at hrows ⊢
  by_cases hnone : rows.embeds = []
  · rw [hnone] at hshape
    rw [if_pos (by rw [hnone]; rfl)]
    exact ⟨host, rfl, .refl hnone (fun layer hlayer =>
      List.length_eq_zero_iff.mp (hshape layer hlayer)) hdepth⟩
  · obtain ⟨host', hadd, hgains⟩ := host.addPrecomputed_ok hlayers hshape hdepth
    rw [if_neg fun hzero => hnone (List.length_eq_zero_iff.mp hzero), hrows hnone]
    simp only [if_true]
    exact ⟨host', hadd, hgains⟩

end MediaHost

namespace ImageMedia

variable {ρ ε : Type} {req : Request} {tensors : SequenceTensors ρ} {mergeSize : ℕ}
  {payload : ImagePayload} {id : ℕ} {spans : List (ℕ × ℕ)} {pixels : List ρ}
  {grid : List VisionGrid} {x y : ℕ}
  (h : ImageMedia req tensors mergeSize payload id spans pixels grid)
  (hx : Outside spans x) (hy : Outside spans y) (hxy : x ≤ y)
include h hx hy hxy

/-- A slice with some of the images gets their rows of every output. -/
theorem precomputedRows_ok {precomputed : PrecomputedVisual ε}
    (hrows : precomputed.embeds.length = total spans)
    (hshape : ∀ value ∈ precomputed.deepstack, value.length = precomputed.embeds.length)
    (hsome : within x y spans ≠ []) :
    MediaHost.precomputedRows req tensors precomputed mergeSize
        (total ((within x y spans).filterMap (spans[·]?))) (total spans) x y =
      .ok (precomputed.select fun rows =>
        (within x y spans).flatMap (imageRows rows (spans.map fun span => span.2 - span.1))) := by
  have hlength : (spans.map fun span => span.2 - span.1).length = spans.length := List.length_map _
  unfold MediaHost.precomputedRows
  split
  · next hall =>
    have hwhole : ∀ rows : List ε, rows.length = total spans → (within x y spans).flatMap
        (imageRows rows (spans.map fun span => span.2 - span.1)) = rows := by
      intro rows hcount
      have hrows := flatMap_slices hcount
      rw [hlength] at hrows
      rw [h.within_all hx hy hxy hall]
      exact hrows
    rw [PrecomputedVisual.select_eq_self (hwhole _ hrows) fun layer hlayer =>
      hwhole layer ((hshape layer hlayer).trans hrows)]
    rfl
  · obtain ⟨hfirst, hlast⟩ := within_bounds h.ordered hx hy hxy hsome
    have hcut : ∀ rows : List ε, (within x y spans).flatMap
        (imageRows rows (spans.map fun span => span.2 - span.1)) =
          slice rows (((spans.map fun span => span.2 - span.1).take (ended x spans)).sum)
            (((spans.map fun span => span.2 - span.1).take (ended y spans)).sum) :=
      fun rows => flatMap_within h.ordered hx hy hxy rows hlength
    have htokens : ((tensors.imageGridThw.getD []).map fun grid =>
        grid.patches / (mergeSize * mergeSize)) = spans.map fun span => span.2 - span.1 := by
      rw [h.grid_eq, h.lengths, List.map_map]
      rfl
    rw [h.spans_eq]
    simp only [imageRangeCoverage_ok h.ordered hx hy hxy, if_neg hsome, liftCoverage, bind,
      Except.bind, hfirst, hlast, htokens, PrecomputedVisual.select, hcut]
    rfl

/-- A row for each placeholder of a slice. -/
theorem length_flatMap_imageRows {rows : List ε} (hrows : rows.length = total spans) :
    ((within x y spans).flatMap (imageRows rows (spans.map fun span => span.2 - span.1))).length =
      total ((within x y spans).filterMap (spans[·]?)) := by
  have hmono := ended_mono hxy spans
  have hcut := flatMap_within h.ordered hx hy hxy rows
    (List.length_map fun span : ℕ × ℕ => span.2 - span.1)
  have hle := (List.take_sublist (ended y spans) (spans.map fun span => span.2 - span.1)).sum_le_sum
    fun _ _ => Nat.zero_le _
  have hsplit := total_append (slice spans 0 (ended x spans))
    (slice spans (ended x spans) (ended y spans))
  rw [slice_append_slice (Nat.zero_le _) hmono] at hsplit
  simp only [slice, List.drop_zero, total, List.map_take] at hsplit
  have hlength := @length_slice _ rows
    ((spans.map fun span => span.2 - span.1).take (ended x spans)).sum _ (hle.trans hrows.ge)
  rw [filterMap_within h.ordered hx hy hxy rfl]
  change List.length (List.flatMap (fun i => slice rows _ _) _) = _
  rw [hcut, hlength, hsplit, Nat.add_sub_cancel_left]
  simp only [slice, total, List.map_take, List.map_drop]

end ImageMedia

end PrismInfer
