import PrismInfer.SequenceMedia
import PrismInfer.VisualRegion

/-!
# The media of a prompt, range by range

A range that begins and ends where a chunk may splits no image and no video, and its media
are those of the images and of the visual region that lie within it: raw patches with their
grids, or rows of cached encoder outputs.
-/
namespace PrismInfer
open StateExcept Spans ListBlocks SchedulerPolicy

/-! ## Boundaries -/

namespace Request

variable {req : Request}

/-- `_visual_spans`. -/
def visualSpans (req : Request) : List (ℕ × ℕ) := (visualSpan req).toList

/-- Where a prefill may begin: outside the visual region or, without a video, between images
inside it. -/
def StartsWhole (req : Request) (start : ℕ) : Prop :=
  Outside req.visualSpans start ∨ req.video = none ∧ Outside req.imageSpans start

/-- A range that a chunk may take. -/
structure WholeRange (req : Request) (range : ℕ × ℕ) : Prop where
  pos : range.1 < range.2
  inside : range.2 ≤ req.numPromptTokens
  starts : req.StartsWhole range.1
  stops : Outside req.visualSpans range.2

theorem mem_visualSpans {region : ℕ × ℕ} :
    region ∈ req.visualSpans ↔ visualSpan req = some region := by
  rw [visualSpans, Option.mem_toList]

theorem visualSpans_of_none (h : visualSpan req = none) : req.visualSpans = [] := by
  rw [visualSpans, h]
  rfl

theorem visualSpans_of_some {region : ℕ × ℕ} (h : visualSpan req = some region) :
    req.visualSpans = [region] := by
  rw [visualSpans, h]
  rfl

theorem visualSpans_ordered : Ordered 0 req.visualSpans := by
  cases h : visualSpan req with
  | none =>
    rw [visualSpans_of_none h]
    trivial
  | some region =>
    rw [visualSpans_of_some h]
    exact ⟨Nat.zero_le _, (visualSpan_spec h).1, trivial⟩

theorem imageSpans_of_none (h : req.images = none) : req.imageSpans = [] := by
  unfold imageSpans imageTokenSpans
  rw [h]
  cases req.imageTokenId <;> rfl

theorem within_visualSpans {x y : ℕ} (hsome : within x y req.visualSpans ≠ []) :
    within x y req.visualSpans = [0] := by
  cases hregion : visualSpan req with
  | none =>
    rw [visualSpans_of_none hregion] at hsome
    exact absurd rfl hsome
  | some region =>
    rw [visualSpans_of_some hregion, within_singleton] at hsome ⊢
    split at hsome
    · next hin => rw [if_pos hin]
    · exact absurd rfl hsome

/-- A range between boundaries has all placeholders of one kind or none. -/
theorem count_range {id x y : ℕ} (hid : id ∈ req.visualTokenIds)
    (hx : Outside req.visualSpans x) (hy : Outside req.visualSpans y) :
    (slice req.promptTokenIds x y).count id =
      if within x y req.visualSpans = [] then 0 else req.promptTokenIds.count id := by
  cases hregion : visualSpan req with
  | none =>
    rw [visualSpans_of_none hregion, if_pos (show within x y [] = [] from rfl)]
    apply List.count_eq_zero_of_not_mem
    intro hmem
    obtain ⟨position, -, -, hget⟩ := exists_getElem?_of_mem_slice hmem
    obtain ⟨region, hsome⟩ := visualSpan_isSome (mem_visualPositions.mpr ⟨id, hid, hget⟩)
    exact Option.some_ne_none _ (hsome.symm.trans hregion)
  | some region =>
    have hspan := (visualSpan_spec hregion).1
    rw [visualSpans_of_some hregion] at hx hy ⊢
    have hx := hx region (List.mem_singleton_self _)
    have hy := hy region (List.mem_singleton_self _)
    rw [within_singleton]
    by_cases hin : x ≤ region.1 ∧ region.2 ≤ y
    · rw [if_pos hin, if_neg (List.cons_ne_nil _ _)]
      exact count_over hregion hid hin.1 hin.2
    · rw [if_neg hin, if_pos rfl]
      exact count_beside hregion hid (by omega)

end Request

/-! ## The media of a prompt -/

/-- The media of a prompt as the processor leaves them. -/
structure PromptMedia {ρ : Type} (req : Request) (tensors : SequenceTensors ρ)
    (mergeSize : ℕ) : Prop where
  images : ∀ payload, req.images = some payload → ∃ id spans pixels grid,
    ImageMedia req tensors mergeSize payload id spans pixels grid
  noImages : req.images = none → tensors.pixelValues = none
  videos : ∀ payload, req.video = some payload → ∃ id pixels grid,
    VideoMedia req tensors payload id pixels grid
  noVideo : req.video = none → tensors.pixelValuesVideos = none ∧ tensors.videoGridThw = none

namespace SequenceTensors

variable {ρ : Type} (tensors : SequenceTensors ρ) (req : Request) (x y : ℕ)

/-- Pixel rows of the images within `[x, y)`. -/
def imagePixels : List ρ :=
  (within x y req.imageSpans).flatMap (imageRows (tensors.pixelValues.getD [])
    ((tensors.imageGridThw.getD []).map VisionGrid.patches))

def imageGrids : List VisionGrid :=
  (within x y req.imageSpans).filterMap ((tensors.imageGridThw.getD [])[·]?)

/-- The video, where the visual region lies within `[x, y)`. -/
def videoPixels : List ρ :=
  (within x y req.visualSpans).flatMap fun _ => tensors.pixelValuesVideos.getD []

def videoGrids : List VisionGrid :=
  (within x y req.visualSpans).flatMap fun _ => tensors.videoGridThw.getD []

end SequenceTensors

/-- Cached encoder outputs of a request: a row for each placeholder, in each layer. -/
structure CachedMedia {ε : Type} (req : Request) (precomputed : PrecomputedVisual ε) : Prop where
  rows : precomputed.embeds.length = req.imageTokenCount + req.videoTokenCount
  layers : precomputed.deepstack ≠ []
  shape : ∀ value ∈ precomputed.deepstack, value.length = precomputed.embeds.length
  imageCount : req.imageTokenCount = MediaHost.tokenCountOf req.imageTokenId req.promptTokenIds
  videoCount : req.videoTokenCount = MediaHost.tokenCountOf req.videoTokenId req.promptTokenIds
  noImages : req.images = none → req.imageTokenCount = 0
  noVideo : req.video = none → req.videoTokenCount = 0

/-- Which rows of an output belong to `[x, y)`: those of the images there, or with a video
all rows where the visual region is. -/
def Request.cachedRows {ε : Type} (req : Request) (x y : ℕ) (rows : List ε) : List ε :=
  if req.video = none then
    (within x y req.imageSpans).flatMap
      (imageRows rows (req.imageSpans.map fun span => span.2 - span.1))
  else (within x y req.visualSpans).flatMap fun _ => rows

namespace VideoMedia

variable {ρ ε : Type} {req : Request} {tensors : SequenceTensors ρ} {payload : VideoPayload}
  {id : ℕ} {pixels : List ρ} {grid : List VisionGrid} {x y : ℕ}
  (h : VideoMedia req tensors payload id pixels grid)
include h

theorem mem_visualTokenIds : id ∈ req.visualTokenIds := by
  rw [Request.visualTokenIds, h.id_eq]
  exact List.mem_append_right _ (List.mem_singleton_self _)

variable (hx : Outside req.visualSpans x) (hy : Outside req.visualSpans y)
include hx hy

theorem count_range : (slice req.promptTokenIds x y).count id =
    if within x y req.visualSpans = [] then 0 else req.videoTokenCount := by
  rw [h.count_eq]
  exact Request.count_range h.mem_visualTokenIds hx hy

theorem appendRawVideo_ok (host : MediaHost ρ ε) :
    ∃ host', host.appendRawVideo req tensors (slice req.promptTokenIds x y) = .ok host' ∧
      host.Gains host' [] [] (tensors.videoPixels req x y) (tensors.videoGrids req x y) := by
  have hcount := h.count_range hx hy
  have hpos := h.count_pos
  unfold MediaHost.appendRawVideo SequenceTensors.videoPixels SequenceTensors.videoGrids
  simp only [h.pixels_eq, h.grid_eq, h.id_eq, ensure, if_pos hpos, bind, Except.bind, hcount]
  by_cases hnone : within x y req.visualSpans = []
  · rw [if_pos hnone, hnone]
    exact ⟨host, rfl, by constructor <;> simp⟩
  · rw [if_neg hnone, if_pos (.inr rfl), Request.within_visualSpans hnone]
    refine ⟨host.addVideo pixels grid, ?_, by constructor <;> simp [MediaHost.addVideo]⟩
    simp only [if_neg hpos.ne']
    rfl

theorem videoPatches_ok : req.videoPatchesForRange payload x y =
    .ok (tensors.videoPixels req x y).length := by
  have hcount := h.count_range hx hy
  have hpos := h.count_pos
  unfold Request.videoPatchesForRange SequenceTensors.videoPixels
  simp only [h.pixels_eq, h.id_eq, ensure, if_pos hpos, bind, Except.bind]
  change (if (slice req.promptTokenIds x y).count id = 0 then _ else _) = _
  by_cases hnone : within x y req.visualSpans = []
  · rw [hcount, if_pos hnone, if_pos rfl, hnone]
    rfl
  · have hall : (slice req.promptTokenIds x y).count id = req.videoTokenCount := by
      rw [hcount, if_neg hnone]
    have hall' : ((req.promptTokenIds.take y).drop x).count id = req.videoTokenCount := hall
    rw [hall, if_neg hpos.ne', hall', if_pos rfl, Request.within_visualSpans hnone, h.payloadRows]
    simp

end VideoMedia

namespace MediaHost.Gains

variable {ρ ε : Type} {host host' host'' : MediaHost ρ ε} {pixels pixels' videos videos' : List ρ}
  {grid grid' videoGrid videoGrid' : List VisionGrid}

theorem refl (host : MediaHost ρ ε) : host.Gains host [] [] [] [] := by
  constructor <;> simp

theorem trans (h : host.Gains host' pixels grid videos videoGrid)
    (h' : host'.Gains host'' pixels' grid' videos' videoGrid') :
    host.Gains host'' (pixels ++ pixels') (grid ++ grid') (videos ++ videos')
      (videoGrid ++ videoGrid') where
  pixelValues := by rw [h'.pixelValues, h.pixelValues, List.append_assoc]
  imageGrids := by rw [h'.imageGrids, h.imageGrids, List.append_assoc]
  videoValues := by rw [h'.videoValues, h.videoValues, List.append_assoc]
  videoGrids := by rw [h'.videoGrids, h.videoGrids, List.append_assoc]
  visualEmbeds := h'.visualEmbeds.trans h.visualEmbeds
  deepstack := h'.deepstack.trans h.deepstack

end MediaHost.Gains

namespace PromptMedia

variable {ρ ε : Type} {req : Request} {tensors : SequenceTensors ρ} {mergeSize : ℕ}
  (h : PromptMedia req tensors mergeSize)
include h

theorem image_media {payload : ImagePayload} (himages : req.images = some payload) :
    ∃ id pixels grid, ImageMedia req tensors mergeSize payload id req.imageSpans pixels grid := by
  obtain ⟨id, spans, pixels, grid, hmedia⟩ := h.images payload himages
  have hspans : req.imageSpans = spans := by
    rw [Request.imageSpans, hmedia.spans_eq]
    rfl
  exact ⟨id, pixels, grid, hspans ▸ hmedia⟩

/-- The image spans are ordered and lie in the visual region. -/
theorem imageSpans_ordered : Ordered 0 req.imageSpans := by
  cases himages : req.images with
  | none =>
    rw [Request.imageSpans_of_none himages]
    trivial
  | some payload =>
    obtain ⟨id, pixels, grid, hmedia⟩ := h.image_media himages
    exact hmedia.ordered

theorem imageSpans_inside {span : ℕ × ℕ} (hspan : span ∈ req.imageSpans) :
    ∃ region ∈ req.visualSpans, region.1 ≤ span.1 ∧ span.2 ≤ region.2 := by
  cases himages : req.images with
  | none =>
    rw [Request.imageSpans_of_none himages] at hspan
    exact absurd hspan List.not_mem_nil
  | some payload =>
    obtain ⟨id, pixels, grid, hmedia⟩ := h.image_media himages
    have hpos := (hmedia.ordered.le_of_mem hspan).2
    have hid : id ∈ req.visualTokenIds := by
      rw [Request.visualTokenIds, hmedia.id_eq]
      exact List.mem_append_left _ (List.mem_singleton_self _)
    have hposition : ∀ position, span.1 ≤ position → position < span.2 →
        position ∈ req.visualPositions := fun position hle hlt =>
      Request.mem_visualPositions.mpr ⟨id, hid, hmedia.woven.getElem? hspan hle hlt⟩
    obtain ⟨region, hregion⟩ := visualSpan_isSome (hposition span.1 le_rfl hpos)
    have hbounds := (visualSpan_spec hregion).2.2
    have hfirst := hbounds span.1 (hposition span.1 le_rfl hpos)
    have hlast := hbounds (span.2 - 1) (hposition (span.2 - 1) (by omega) (by omega))
    exact ⟨region, Request.mem_visualSpans.mpr hregion, hfirst.1, by omega⟩

theorem outside_images {x : ℕ} (hx : Outside req.visualSpans x) : Outside req.imageSpans x := by
  intro span hspan
  obtain ⟨region, hregion, hinside⟩ := h.imageSpans_inside hspan
  have := hx region hregion
  omega

theorem outside_of_starts {x : ℕ} (hx : req.StartsWhole x) : Outside req.imageSpans x :=
  hx.elim h.outside_images fun hboundary => hboundary.2

omit h in
theorem imagePixels_of_none (himages : req.images = none) {x y : ℕ} :
    tensors.imagePixels req x y = [] := by
  unfold SequenceTensors.imagePixels
  rw [Request.imageSpans_of_none himages]
  rfl

theorem videoPixels_of_none (hvideo : req.video = none) {x y : ℕ} :
    tensors.videoPixels req x y = [] := by
  unfold SequenceTensors.videoPixels
  rw [(h.noVideo hvideo).1]
  simp

theorem videoGrids_of_none (hvideo : req.video = none) {x y : ℕ} :
    tensors.videoGrids req x y = [] := by
  unfold SequenceTensors.videoGrids
  rw [(h.noVideo hvideo).2]
  simp

variable {range : ℕ × ℕ} (hrange : req.WholeRange range)
include hrange

theorem split_ok (himages : req.images ≠ none) :
    splitImagePayloadsForRange (tensors.pixelValues.getD []) (tensors.imageGridThw.getD [])
        mergeSize req.imageSpans range.1 range.2 = .ok
      (if within range.1 range.2 req.imageSpans = [] then (none, 0)
        else (some (tensors.imagePixels req range.1 range.2,
            tensors.imageGrids req range.1 range.2),
          (slice req.promptTokenIds range.1 range.2).count (req.imageTokenId.getD 0))) := by
  obtain ⟨payload, hpayload⟩ := Option.ne_none_iff_exists'.mp himages
  obtain ⟨id, pixels, grid, hmedia⟩ := h.image_media hpayload
  have hx := h.outside_of_starts hrange.starts
  have hy := h.outside_images hrange.stops
  have hcount := hmedia.count_range hx hy hrange.pos.le
  unfold SequenceTensors.imagePixels SequenceTensors.imageGrids
  simp only [hmedia.pixels_eq, hmedia.grid_eq, hmedia.id_eq, Option.getD_some]
  rw [hmedia.split_ok hx hy hrange.pos.le, hcount]

/-- A range that a chunk may take gets its images. -/
theorem appendRawImages_ok (host : MediaHost ρ ε) :
    ∃ host', host.appendRawImages req tensors mergeSize
        (slice req.promptTokenIds range.1 range.2) range.1 range.2 = .ok host' ∧
      host.Gains host' (tensors.imagePixels req range.1 range.2)
        (tensors.imageGrids req range.1 range.2) [] [] := by
  unfold SequenceTensors.imagePixels SequenceTensors.imageGrids
  cases himages : req.images with
  | none =>
    rw [Request.imageSpans_of_none himages]
    refine ⟨host, ?_, .refl host⟩
    unfold MediaHost.appendRawImages
    rw [h.noImages himages]
    rfl
  | some payload =>
    obtain ⟨id, pixels, grid, hmedia⟩ := h.image_media himages
    rw [hmedia.pixels_eq, hmedia.grid_eq]
    exact hmedia.appendRawImages_ok (h.outside_of_starts hrange.starts)
      (h.outside_images hrange.stops) hrange.pos.le host

omit h in
theorem region_starts (hvideo : req.video ≠ none) : Outside req.visualSpans range.1 :=
  hrange.starts.resolve_right fun hnone => hvideo hnone.1

/-- Without a video nothing is added, with one the range keeps to its region. -/
theorem appendRawVideo_ok (host : MediaHost ρ ε) :
    ∃ host', host.appendRawVideo req tensors (slice req.promptTokenIds range.1 range.2) =
        .ok host' ∧
      host.Gains host' [] [] (tensors.videoPixels req range.1 range.2)
        (tensors.videoGrids req range.1 range.2) := by
  cases hvideo : req.video with
  | none =>
    refine ⟨host, ?_, ?_⟩
    · unfold MediaHost.appendRawVideo
      rw [(h.noVideo hvideo).1]
      rfl
    · rw [h.videoPixels_of_none hvideo, h.videoGrids_of_none hvideo]
      exact .refl host
  | some payload =>
    obtain ⟨id, pixels, grid, hmedia⟩ := h.videos payload hvideo
    have hne : req.video ≠ none := hmedia.video_eq ▸ Option.some_ne_none _
    exact hmedia.appendRawVideo_ok (region_starts hrange hne) hrange.stops host

theorem imagePatches_ok {payload : ImagePayload} (himages : req.images = some payload) :
    req.imagePatchesForRange payload range.1 range.2 =
      .ok (tensors.imagePixels req range.1 range.2).length := by
  obtain ⟨id, pixels, grid, hmedia⟩ := h.image_media himages
  unfold SequenceTensors.imagePixels
  rw [hmedia.pixels_eq, hmedia.grid_eq]
  exact hmedia.imagePatches_length (h.outside_of_starts hrange.starts)
    (h.outside_images hrange.stops) hrange.pos.le

theorem videoPatches_ok {payload : VideoPayload} (hvideo : req.video = some payload) :
    req.videoPatchesForRange payload range.1 range.2 =
      .ok (tensors.videoPixels req range.1 range.2).length := by
  obtain ⟨id, pixels, grid, hmedia⟩ := h.videos payload hvideo
  have hne : req.video ≠ none := hvideo ▸ Option.some_ne_none _
  exact hmedia.videoPatches_ok (region_starts hrange hne) hrange.stops

/-- As many patches are counted for the range as pixel rows are selected for it. -/
theorem visionPatches_ok : req.visionPatchCountForPrefillRange range.1 range.2 =
    .ok ((tensors.imagePixels req range.1 range.2).length +
      (tensors.videoPixels req range.1 range.2).length) := by
  unfold Request.visionPatchCountForPrefillRange
  simp only [ensure, if_pos (And.intro hrange.pos hrange.inside), bind, Except.bind]
  cases himages : req.images with
  | none =>
    rw [imagePixels_of_none himages]
    cases hvideo : req.video with
    | none =>
      rw [h.videoPixels_of_none hvideo]
      rfl
    | some payload =>
      simp only [h.videoPatches_ok hrange hvideo, List.length_nil]
      rfl
  | some images =>
    simp only [h.imagePatches_ok hrange himages]
    cases hvideo : req.video with
    | none =>
      rw [h.videoPixels_of_none hvideo]
      rfl
    | some payload =>
      simp only [h.videoPatches_ok hrange hvideo]
      rfl

/-- Raw media of the range: no cached rows, or raw media are asked for. -/
theorem appendSequenceMedia_ok (host : MediaHost ρ ε) {precomputed : Option (PrecomputedVisual ε)}
    {forceRaw : Bool} (hraw : precomputed = none ∨ forceRaw = true) :
    ∃ host', host.appendSequenceMedia req tensors precomputed mergeSize range.1 range.2 forceRaw =
        .ok host' ∧
      host.Gains host' (tensors.imagePixels req range.1 range.2)
        (tensors.imageGrids req range.1 range.2) (tensors.videoPixels req range.1 range.2)
        (tensors.videoGrids req range.1 range.2) := by
  obtain ⟨middle, himages, hgains⟩ := h.appendRawImages_ok hrange host
  obtain ⟨host', hvideo, hgains'⟩ := h.appendRawVideo_ok hrange middle
  have hboth := hgains.trans hgains'
  rw [List.append_nil, List.append_nil, List.nil_append, List.nil_append] at hboth
  refine ⟨host', ?_, hboth⟩
  have hrun : (do
      let host ← host.appendRawImages req tensors mergeSize
        (slice req.promptTokenIds range.1 range.2) range.1 range.2
      host.appendRawVideo req tensors (slice req.promptTokenIds range.1 range.2)) = .ok host' := by
    rw [himages]
    exact hvideo
  rcases hraw with rfl | rfl
  · exact hrun
  · cases precomputed <;> exact hrun

/-! ### Cached rows -/

/-- The rows of a range are as many as its placeholders, and they are found. -/
structure CachedRange (req : Request) (tensors : SequenceTensors ρ) (mergeSize : ℕ)
    (range : ℕ × ℕ) (precomputed : PrecomputedVisual ε) : Prop where
  video : MediaHost.tokenCountOf req.videoTokenId (slice req.promptTokenIds range.1 range.2) = 0 ∨
    MediaHost.tokenCountOf req.videoTokenId (slice req.promptTokenIds range.1 range.2) =
      req.videoTokenCount
  length : ∀ rows : List ε, rows.length = req.imageTokenCount + req.videoTokenCount →
    (req.cachedRows range.1 range.2 rows).length =
      MediaHost.tokenCountOf req.imageTokenId (slice req.promptTokenIds range.1 range.2) +
        MediaHost.tokenCountOf req.videoTokenId (slice req.promptTokenIds range.1 range.2)
  rows : req.cachedRows range.1 range.2 precomputed.embeds ≠ [] →
    MediaHost.precomputedRows req tensors precomputed mergeSize
      (MediaHost.tokenCountOf req.imageTokenId (slice req.promptTokenIds range.1 range.2) +
        MediaHost.tokenCountOf req.videoTokenId (slice req.promptTokenIds range.1 range.2))
      (req.imageTokenCount + req.videoTokenCount) range.1 range.2 =
        .ok (precomputed.select (req.cachedRows range.1 range.2))

variable {precomputed : PrecomputedVisual ε} (hcached : CachedMedia req precomputed)
include hcached

omit h in
/-- With a video the range has all placeholders or none. -/
theorem cachedRange_video (hvideo : req.video ≠ none) :
    CachedRange req tensors mergeSize range precomputed := by
  have hx := region_starts hrange hvideo
  have hcount : ∀ id : Option ℕ, (∀ i ∈ id, i ∈ req.visualTokenIds) →
      MediaHost.tokenCountOf id (slice req.promptTokenIds range.1 range.2) =
        if within range.1 range.2 req.visualSpans = [] then 0
          else MediaHost.tokenCountOf id req.promptTokenIds := by
    intro id hid
    cases id with
    | none => exact (ite_self _).symm
    | some id => exact Request.count_range (hid id rfl) hx hrange.stops
  have himage := hcount req.imageTokenId fun i hi =>
    List.mem_append_left _ (Option.mem_toList.mpr hi)
  have hvideoCount := hcount req.videoTokenId fun i hi =>
    List.mem_append_right _ (Option.mem_toList.mpr hi)
  rw [← hcached.imageCount] at himage
  rw [← hcached.videoCount] at hvideoCount
  by_cases hnone : within range.1 range.2 req.visualSpans = []
  · have hrows : ∀ rows : List ε, req.cachedRows range.1 range.2 rows = [] := fun rows => by
      rw [Request.cachedRows, if_neg hvideo, hnone]
      rfl
    rw [if_pos hnone] at himage hvideoCount
    refine ⟨.inl hvideoCount, fun rows _ => ?_, fun hsome => absurd (hrows _) hsome⟩
    rw [hrows, himage, hvideoCount]
    rfl
  · have hrows : ∀ rows : List ε, req.cachedRows range.1 range.2 rows = rows := fun rows => by
      rw [Request.cachedRows, if_neg hvideo, Request.within_visualSpans hnone]
      simp
    rw [if_neg hnone] at himage hvideoCount
    refine ⟨.inr hvideoCount, fun rows hlength => ?_, fun _ => ?_⟩
    · rw [hrows, himage, hvideoCount, hlength]
    · rw [himage, hvideoCount,
        PrecomputedVisual.select_eq_self (hrows _) fun layer _ => hrows layer]
      exact if_pos rfl

/-- Without one it has the placeholders of its images. -/
theorem cachedRange_images (hvideo : req.video = none) :
    CachedRange req tensors mergeSize range precomputed := by
  have hcutRows : ∀ rows : List ε, req.cachedRows range.1 range.2 rows =
      (within range.1 range.2 req.imageSpans).flatMap
        (imageRows rows (req.imageSpans.map fun span => span.2 - span.1)) := fun rows =>
    if_pos hvideo
  have hsublist : ∀ id : Option ℕ,
      MediaHost.tokenCountOf id (slice req.promptTokenIds range.1 range.2) ≤
        MediaHost.tokenCountOf id req.promptTokenIds := by
    intro id
    cases id with
    | none => exact le_rfl
    | some id =>
      exact ((List.drop_sublist _ _).trans (List.take_sublist _ _)).count_le id
  have hvideoNone := hcached.noVideo hvideo
  have hvideoCount := hsublist req.videoTokenId
  rw [← hcached.videoCount, hvideoNone, Nat.le_zero] at hvideoCount
  cases himages : req.images with
  | none =>
    have himageCount := hsublist req.imageTokenId
    rw [← hcached.imageCount, hcached.noImages himages, Nat.le_zero] at himageCount
    have hrows : ∀ rows : List ε, req.cachedRows range.1 range.2 rows = [] := fun rows => by
      rw [hcutRows, Request.imageSpans_of_none himages]
      rfl
    refine ⟨.inl hvideoCount, fun rows _ => ?_, fun hsome => absurd (hrows _) hsome⟩
    rw [hrows, himageCount, hvideoCount]
    rfl
  | some payload =>
    obtain ⟨id, pixels, grid, hmedia⟩ := h.image_media himages
    have hx := h.outside_of_starts hrange.starts
    have hy := h.outside_images hrange.stops
    have himageCount : MediaHost.tokenCountOf req.imageTokenId
        (slice req.promptTokenIds range.1 range.2) =
          total ((within range.1 range.2 req.imageSpans).filterMap (req.imageSpans[·]?)) := by
      rw [hmedia.id_eq]
      exact hmedia.count_range hx hy hrange.pos.le
    have hlength : precomputed.embeds.length = total req.imageSpans := by
      rw [hcached.rows, hvideoNone, Nat.add_zero, hmedia.count_eq]
    refine ⟨.inl hvideoCount, fun rows hrows => ?_, fun hsome => ?_⟩
    · rw [hvideoNone, Nat.add_zero, hmedia.count_eq] at hrows
      rw [hcutRows, himageCount, hvideoCount, Nat.add_zero]
      exact hmedia.length_flatMap_imageRows hx hy hrange.pos.le hrows
    · rw [hcutRows] at hsome
      rw [himageCount, hvideoCount, hvideoNone, Nat.add_zero, Nat.add_zero, hmedia.count_eq,
        funext hcutRows]
      refine hmedia.precomputedRows_ok hx hy hrange.pos.le hlength hcached.shape fun hnone => ?_
      rw [hnone] at hsome
      exact hsome rfl

/-- Cached rows of the range, layer by layer. -/
theorem appendPrecomputed_ok (host : MediaHost ρ ε)
    (hdepth : host.Depth precomputed.deepstack.length) :
    ∃ host', host.appendSequenceMedia req tensors (some precomputed) mergeSize range.1 range.2
        false = .ok host' ∧
      host.GainsRows host' (precomputed.select (req.cachedRows range.1 range.2)) := by
  have hrows : CachedRange req tensors mergeSize range precomputed := by
    by_cases hvideo : req.video = none
    · exact h.cachedRange_images hrange hcached hvideo
    · exact cachedRange_video hrange hcached hvideo
  have hlength := hrows.length _ hcached.rows
  refine MediaHost.appendPrecomputed_ok hrows.video hlength hrows.rows ?_ ?_ ?_
  · simpa [PrecomputedVisual.select] using hcached.layers
  · intro value hvalue
    obtain ⟨layer, hlayer, rfl⟩ := List.mem_map.mp hvalue
    exact (hrows.length _ ((hcached.shape layer hlayer).trans hcached.rows)).trans hlength.symm
  · simpa [PrecomputedVisual.select] using hdepth

end PromptMedia

end PrismInfer
