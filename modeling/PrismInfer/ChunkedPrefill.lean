import PrismInfer.KVCompactionLater
import PrismInfer.PrefillBound
import PrismInfer.PromptMedia

/-!
# Chunks of one prompt

Calls of `prefill_token_count`, each from where the chunk before it ended, cut a prompt into
ranges. No range splits an image or, where there is a video, the visual region, and what the
ranges select of the media is what lies behind the start, once and in order.
-/
namespace PrismInfer
open StateExcept Spans ListBlocks SchedulerPolicy

/-! ## Runs -/

/-- Offers of a scheduler to one prefilling sequence, each chunk executed before the next
offer. In between anything but the request and its progress may change. -/
inductive Chunked {H : Type} (policy : SchedulerPolicy) :
    Sequence H → List ℕ → List (ℕ × ℕ) → Sequence H → Prop
  | done {seq} : Chunked policy seq [] [] seq
  | idle {seq seq' last budgets ranges} (hrequest : seq'.request = seq.request)
      (hstart : seq'.effectivePrefillStart = seq.effectivePrefillStart)
      (rest : Chunked policy seq' budgets ranges last) : Chunked policy seq budgets ranges last
  | skipped {seq last available budgets ranges}
      (hcount : policy.prefillTokenCount seq available = 0)
      (rest : Chunked policy seq budgets ranges last) :
      Chunked policy seq (available :: budgets) ranges last
  | chunk {seq next last available budgets ranges slice record}
      (hslice : BatchPlan.prefillSlice seq (policy.prefillTokenCount seq available) = .ok slice)
      (hcommit : commitPrefillExecution record slice seq = .ok next)
      (rest : Chunked policy next budgets ranges last) :
      Chunked policy seq (available :: budgets) ((slice.tokenStart, slice.tokenEnd) :: ranges) last

/-- What one executed chunk does to the progress. -/
theorem chunk_spec {H : Type} {seq next : Sequence H} {count : ℕ} {slice : PrefillSlice}
    {record : Option CompressionRecord} (hslice : BatchPlan.prefillSlice seq count = .ok slice)
    (hcommit : commitPrefillExecution record slice seq = .ok next) :
    count ≠ 0 ∧ slice.tokenStart = seq.effectivePrefillStart ∧
      slice.tokenEnd = seq.effectivePrefillStart + count ∧ next.request = seq.request ∧
      next.effectivePrefillStart = seq.effectivePrefillStart + count := by
  simp only [BatchPlan.prefillSlice, except_bind_ok, ensure_ok, except_pure_ok] at hslice
  obtain ⟨_, hpos, _, -, rfl⟩ := hslice
  obtain ⟨layout, rfl, -⟩ := BlockManager.commitPrefillExecution_ok hcommit
  refine ⟨hpos.ne', rfl, rfl, rfl, ?_⟩
  simp only [Sequence.effectivePrefillStart]
  omega

/-- A chunk may take the range that is offered to it. -/
theorem Request.wholeRange_of_chunk {H : Type} {policy : SchedulerPolicy} {seq : Sequence H}
    {available : ℕ} (hchunked : policy.limits.enableChunkedPrefill = true)
    (hle : seq.effectivePrefillStart ≤ seq.numPromptTokens)
    (hstart : seq.request.StartsWhole seq.effectivePrefillStart)
    (hcount : policy.prefillTokenCount seq available ≠ 0) :
    seq.request.WholeRange (seq.effectivePrefillStart,
      seq.effectivePrefillStart + policy.prefillTokenCount seq available) := by
  obtain ⟨hinside, hside⟩ := prefillTokenCount_spec hchunked available hle
  refine ⟨by simp only; omega, hinside, hstart, fun region hregion => ?_⟩
  have := hside hcount region (Request.mem_visualSpans.mp hregion)
  omega

namespace SchedulerPolicy

variable {H : Type} {policy : SchedulerPolicy}

theorem region_fits (hchunked : policy.limits.enableChunkedPrefill = true) {seq : Sequence H}
    {queued : ℕ} (hadmitted : policy.admitRequest seq queued = none) :
    ∀ region ∈ visualSpan seq.request, region.2 - region.1 ≤ policy.limits.maxChunkSize := by
  intro region hregion
  unfold admitRequest at hadmitted
  split at hadmitted
  · cases hadmitted
  · split at hadmitted
    · cases hadmitted
    · rw [Option.mem_def.mp hregion] at hadmitted
      simp only at hadmitted
      split at hadmitted
      · cases hadmitted
      · next hfits =>
        rw [hchunked] at hfits
        exact not_lt.mp fun hlt => hfits ⟨rfl, hlt⟩

end SchedulerPolicy

namespace Chunked

variable {H : Type} {policy : SchedulerPolicy} {seq last : Sequence H} {budgets : List ℕ}
  {ranges : List (ℕ × ℕ)} (hchunked : policy.limits.enableChunkedPrefill = true)
include hchunked

/-- The ranges tile the prompt from the start on, and a chunk may take each of them. -/
theorem wholeRanges (h : Chunked policy seq budgets ranges last)
    (hle : seq.effectivePrefillStart ≤ seq.numPromptTokens)
    (hstart : seq.request.StartsWhole seq.effectivePrefillStart) :
    last.request = seq.request ∧
      Tiles seq.effectivePrefillStart ranges last.effectivePrefillStart ∧
      (∀ range ∈ ranges, seq.request.WholeRange range) ∧
      last.effectivePrefillStart ≤ seq.numPromptTokens ∧
      seq.request.StartsWhole last.effectivePrefillStart := by
  induction h with
  | done => exact ⟨rfl, rfl, by simp, hle, hstart⟩
  | idle hrequest hsame rest ih =>
    unfold Sequence.numPromptTokens at hle ih ⊢
    rw [hrequest, hsame] at ih
    exact ih hle hstart
  | skipped hcount rest ih => exact ih hle hstart
  | @chunk seq next last available budgets ranges slice record hslice hcommit rest ih =>
    obtain ⟨hcount, hfirst, hlast, hrequest, hnext⟩ := chunk_spec hslice hcommit
    have hwhole := Request.wholeRange_of_chunk hchunked hle hstart hcount
    unfold Sequence.numPromptTokens at hle ih ⊢
    rw [hrequest, hnext] at ih
    obtain ⟨hsame, htiles, hranges, hreached, hstarts⟩ := ih hwhole.inside (.inl hwhole.stops)
    rw [hfirst, hlast]
    refine ⟨hsame, ⟨rfl, hwhole.pos, htiles⟩, ?_, hreached, hstarts⟩
    intro range hrange
    rcases List.mem_cons.mp hrange with rfl | hmem
    · exact hwhole
    · exact hranges range hmem

/-- Each budget of a full chunk brings an admitted request on by a token at least. -/
theorem progress (h : Chunked policy seq budgets ranges last)
    (hle : seq.effectivePrefillStart ≤ seq.numPromptTokens)
    (hstart : seq.request.StartsWhole seq.effectivePrefillStart)
    (hfits : ∀ region ∈ visualSpan seq.request,
      region.2 - region.1 ≤ policy.limits.maxChunkSize) :
    last.effectivePrefillStart = seq.numPromptTokens ∨
      seq.effectivePrefillStart + budgets.countP (policy.limits.maxChunkSize ≤ ·) ≤
        last.effectivePrefillStart := by
  induction h with
  | done => exact .inr le_rfl
  | idle hrequest hsame rest ih =>
    unfold Sequence.numPromptTokens at hle ih ⊢
    rw [hrequest, hsame] at ih
    exact ih hle hstart hfits
  | @skipped seq last available budgets ranges hcount rest ih =>
    have ih := ih hle hstart hfits
    obtain ⟨-, htiles, -, hreached, -⟩ := rest.wholeRanges hchunked hle hstart
    have hmono := htiles.le
    rw [List.countP_cons]
    by_cases hfull : policy.limits.maxChunkSize ≤ available
    · have hend : ¬ seq.effectivePrefillStart < seq.numPromptTokens := fun hlt =>
        (prefillTokenCount_pos hchunked hlt hfits hfull).ne' hcount
      exact .inl (by omega)
    · rw [if_neg (by simpa using hfull)]
      exact ih
  | @chunk seq next last available budgets ranges slice record hslice hcommit rest ih =>
    obtain ⟨hcount, -, -, hrequest, hnext⟩ := chunk_spec hslice hcommit
    have hwhole := Request.wholeRange_of_chunk hchunked hle hstart hcount
    unfold Sequence.numPromptTokens at hle ih ⊢
    rw [hrequest, hnext] at ih
    refine (ih hwhole.inside (.inl hwhole.stops) hfits).imp_right fun hreached => ?_
    rw [List.countP_cons]
    split <;> omega

end Chunked

/-- What the chunks `ranges`, from `start` to `reached`, make of a prompt and its media. -/
structure Partitioned {ρ : Type} (req : Request) (tensors : SequenceTensors ρ)
    (mergeSize start reached : ℕ) (ranges : List (ℕ × ℕ)) : Prop where
  tiles : Tiles start ranges reached
  inside : reached ≤ req.numPromptTokens
  wholeImages : ∀ range ∈ ranges,
    Outside req.imageSpans range.1 ∧ Outside req.imageSpans range.2
  wholeRegion : ∀ range ∈ ranges, Outside req.visualSpans range.2
  wholeVideo : req.video ≠ none → ∀ range ∈ ranges, Outside req.visualSpans range.1
  split : req.images ≠ none → ∀ range ∈ ranges,
    splitImagePayloadsForRange (tensors.pixelValues.getD []) (tensors.imageGridThw.getD [])
        mergeSize req.imageSpans range.1 range.2 = .ok
      (if within range.1 range.2 req.imageSpans = [] then (none, 0)
        else (some (tensors.imagePixels req range.1 range.2,
            tensors.imageGrids req range.1 range.2),
          (slice req.promptTokenIds range.1 range.2).count (req.imageTokenId.getD 0)))
  patches : ∀ range ∈ ranges, req.visionPatchCountForPrefillRange range.1 range.2 =
    .ok ((tensors.imagePixels req range.1 range.2).length +
      (tensors.videoPixels req range.1 range.2).length)
  appended : ∀ range ∈ ranges, ∀ {ε : Type} (host : MediaHost ρ ε)
    {precomputed : Option (PrecomputedVisual ε)} {forceRaw : Bool},
    precomputed = none ∨ forceRaw = true →
      ∃ host', host.appendSequenceMedia req tensors precomputed mergeSize range.1 range.2
          forceRaw = .ok host' ∧
        host.Gains host' (tensors.imagePixels req range.1 range.2)
          (tensors.imageGrids req range.1 range.2) (tensors.videoPixels req range.1 range.2)
          (tensors.videoGrids req range.1 range.2)
  cached : ∀ range ∈ ranges, ∀ {ε : Type} (host : MediaHost ρ ε)
    {precomputed : PrecomputedVisual ε}, CachedMedia req precomputed →
      host.Depth precomputed.deepstack.length →
      ∃ host', host.appendSequenceMedia req tensors (some precomputed) mergeSize range.1 range.2
          false = .ok host' ∧
        host.GainsRows host' (precomputed.select (req.cachedRows range.1 range.2))
  numbers : ranges.flatMap (fun range => within range.1 range.2 req.imageSpans) =
    within start reached req.imageSpans
  imagePixels : ranges.flatMap (fun range => tensors.imagePixels req range.1 range.2) =
    tensors.imagePixels req start reached
  imageGrids : ranges.flatMap (fun range => tensors.imageGrids req range.1 range.2) =
    tensors.imageGrids req start reached
  videoPixels : ranges.flatMap (fun range => tensors.videoPixels req range.1 range.2) =
    tensors.videoPixels req start reached
  videoGrids : ranges.flatMap (fun range => tensors.videoGrids req range.1 range.2) =
    tensors.videoGrids req start reached
  cachedRows : ∀ {ε : Type} (rows : List ε), ranges.flatMap
    (fun range => req.cachedRows range.1 range.2 rows) = req.cachedRows start reached rows
  remaining : reached = req.numPromptTokens → within start reached req.imageSpans =
    (req.imageSpans.zipIdx.filter fun item => start ≤ item.1.1).map (·.2)

section Partition

variable {H ρ : Type} {policy : SchedulerPolicy} {seq last : Sequence H} {budgets : List ℕ}
  {ranges : List (ℕ × ℕ)} {tensors : SequenceTensors ρ} {mergeSize : ℕ}

/-- Ranges that a chunk may take partition what they tile. -/
theorem PromptMedia.partitioned {req : Request} (h : PromptMedia req tensors mergeSize)
    {start reached : ℕ} (htiles : Tiles start ranges reached)
    (hranges : ∀ range ∈ ranges, req.WholeRange range) (hinside : reached ≤ req.numPromptTokens)
    (hstart : req.StartsWhole start) : Partitioned req tensors mergeSize start reached ranges := by
  have hnumbers := htiles.flatMap_within h.imageSpans_ordered (h.outside_of_starts hstart)
    fun range hrange => h.outside_images (hranges range hrange).stops
  have hregions : req.video ≠ none → ranges.flatMap
      (fun range => within range.1 range.2 req.visualSpans) =
        within start reached req.visualSpans :=
    fun hvideo => htiles.flatMap_within Request.visualSpans_ordered
      (hstart.resolve_right fun hnone => hvideo hnone.1) fun range hrange =>
        (hranges range hrange).stops
  refine {
    tiles := htiles
    inside := hinside
    wholeImages := fun range hrange => ⟨h.outside_of_starts (hranges range hrange).starts,
      h.outside_images (hranges range hrange).stops⟩
    wholeRegion := fun range hrange => (hranges range hrange).stops
    wholeVideo := fun hvideo range hrange => region_starts (hranges range hrange) hvideo
    split := fun himages range hrange => h.split_ok (hranges range hrange) himages
    patches := fun range hrange => h.visionPatches_ok (hranges range hrange)
    appended := fun range hrange ε host precomputed forceRaw hraw =>
      h.appendSequenceMedia_ok (hranges range hrange) host hraw
    cached := fun range hrange ε host precomputed hcached hdepth =>
      h.appendPrecomputed_ok (hranges range hrange) hcached host hdepth
    numbers := hnumbers
    imagePixels := ?_
    imageGrids := ?_
    videoPixels := ?_
    videoGrids := ?_
    cachedRows := ?_
    remaining := ?_ }
  · unfold SequenceTensors.imagePixels
    rw [← hnumbers, List.flatMap_assoc]
  · unfold SequenceTensors.imageGrids
    rw [← hnumbers, List.filterMap_flatMap]
  · by_cases hvideo : req.video = none
    · simp [h.videoPixels_of_none hvideo]
    · unfold SequenceTensors.videoPixels
      rw [← hregions hvideo, List.flatMap_assoc]
  · by_cases hvideo : req.video = none
    · simp [h.videoGrids_of_none hvideo]
    · unfold SequenceTensors.videoGrids
      rw [← hregions hvideo, List.flatMap_assoc]
  · intro ε rows
    unfold Request.cachedRows
    by_cases hvideo : req.video = none
    · simp only [if_pos hvideo]
      rw [← hnumbers, List.flatMap_assoc]
    · simp only [if_neg hvideo]
      rw [← hregions hvideo, List.flatMap_assoc]
  · intro hend
    refine within_of_le fun span hspan => ?_
    obtain ⟨region, hregion, -, hle⟩ := h.imageSpans_inside hspan
    have := (visualSpan_spec (Request.mem_visualSpans.mp hregion)).2.1
    omega

/-- The chunks of a prefill partition the prompt and its media. For an admitted request each
budget of a full chunk gives one, so that enough of them bring the prefill to its end. -/
theorem chunks_partition_prompt (hchunked : policy.limits.enableChunkedPrefill = true)
    (hmedia : PromptMedia seq.request tensors mergeSize)
    (hle : seq.effectivePrefillStart ≤ seq.numPromptTokens)
    (hstart : seq.request.StartsWhole seq.effectivePrefillStart)
    (hrun : Chunked policy seq budgets ranges last) :
    Partitioned seq.request tensors mergeSize seq.effectivePrefillStart
        last.effectivePrefillStart ranges ∧
      (∀ available, policy.prefillTokenCount last available ≠ 0 →
        BatchPlan.prefillSlice last (policy.prefillTokenCount last available) =
          .ok ⟨seq.request.seqId, last.effectivePrefillStart,
            last.effectivePrefillStart + policy.prefillTokenCount last available⟩) ∧
      ∀ queued, policy.admitRequest seq queued = none →
        (∀ available, policy.limits.maxChunkSize ≤ available →
          last.effectivePrefillStart < seq.numPromptTokens →
            0 < policy.prefillTokenCount last available) ∧
        (seq.numPromptTokens ≤ seq.effectivePrefillStart +
            budgets.countP (policy.limits.maxChunkSize ≤ ·) →
          last.effectivePrefillStart = seq.numPromptTokens) := by
  obtain ⟨hrequest, htiles, hranges, hinside, -⟩ := hrun.wholeRanges hchunked hle hstart
  have hprompt : last.numPromptTokens = seq.numPromptTokens :=
    congrArg Request.numPromptTokens hrequest
  refine ⟨hmedia.partitioned htiles hranges hinside hstart, fun available hcount => ?_,
    fun queued hadmitted => ⟨fun available hfull hlt => ?_, fun hbudgets => ?_⟩⟩
  · have hlast := (prefillTokenCount_spec hchunked available
      (hinside.trans hprompt.ge)).1
    simp only [BatchPlan.prefillSlice, ensure, if_pos (Nat.pos_of_ne_zero hcount), if_pos hlast,
      hrequest]
    rfl
  · refine prefillTokenCount_pos hchunked (hprompt ▸ hlt) ?_ hfull
    rw [hrequest]
    exact region_fits hchunked hadmitted
  · have hprogress := hrun.progress hchunked hle hstart (region_fits hchunked hadmitted)
    have hinside : last.effectivePrefillStart ≤ seq.numPromptTokens := hinside
    omega

end Partition

section Example

theorem chunkSize_pos : 0 < 4 := Nat.succ_pos 3

/-- A chunk holds the four tokens of the visual region of `twoImages`. -/
def chunkLimits : PolicyLimits :=
  { Scheduler.residentLimits with
    enableChunkedPrefill := true
    maxChunkSize := 4
    maxChunkSize_pos := chunkSize_pos }

def chunkPolicy : SchedulerPolicy := ⟨chunkLimits, .fcfs⟩

/-- An image of two tokens, text, and an image of one. -/
def twoImages : Request where
  seqId := 0
  blockSize := 2
  promptTokenIds := [1, 9, 9, 2, 9, 3]
  promptNonempty := List.cons_ne_nil _ _
  maxTokens := 1
  maxTokensPositive := Nat.one_pos
  ignoreEos := false
  submittedNs := none
  ttftSloNs := none
  images := some ⟨3, [⟨5, 2⟩, ⟨6, 1⟩]⟩
  video := none
  hasPositionIds := true
  hasRopeDelta := true
  imageTokenId := some 9
  imageTokenCount := 3
  videoTokenId := none
  videoTokenCount := 0
  imageMergeSize := 1
  hasPrefixCacheKey := false
  hasMediaTokenHashes := false

def twoImagesTensors : SequenceTensors ℕ where
  pixelValues := some [50, 51, 60]
  imageGridThw := some [⟨1, 1, 2⟩, ⟨1, 1, 1⟩]
  pixelValuesVideos := none
  videoGridThw := none

theorem twoImages_media : PromptMedia twoImages twoImagesTensors 1 where
  images payload hpayload := by
    obtain rfl := Option.some.inj hpayload
    refine ⟨9, [(1, 3), (4, 5)], [50, 51, 60], [⟨1, 1, 2⟩, ⟨1, 1, 1⟩], ?_⟩
    exact {
      images_eq := rfl
      id_eq := rfl
      woven := .span (show 9 ∉ [1] by decide) (by decide : 0 < 2) rfl rfl
        (.span (show 9 ∉ [2] by decide) (by decide : 0 < 1) rfl rfl (.gap (by decide)))
      tokensPerImage := rfl
      count_eq := rfl
      nonempty := List.cons_ne_nil _ _
      pixels_eq := rfl
      grid_eq := rfl
      patches := rfl
      rows := rfl
      merge := rfl
      mergePos := Nat.one_pos }
  noImages hnone := absurd hnone (Option.some_ne_none _)
  videos payload hpayload := absurd hpayload.symm (Option.some_ne_none _)
  noVideo _ := ⟨rfl, rfl⟩

/-- The first chunk stops before the images, a budget of two tokens is too small for them. -/
theorem chunks_partition_prompt_twoImages :
    Partitioned twoImages twoImagesTensors 1 0 6 [(0, 1), (1, 5), (5, 6)] ∧
      twoImagesTensors.imagePixels twoImages 1 5 = [50, 51, 60] := by
  have hrun : Chunked chunkPolicy (Sequence.ofRequest ℕ twoImages) [4, 2, 4, 3]
      [(0, 1), (1, 5), (5, 6)]
      { Sequence.ofRequest ℕ twoImages with numComputedTokens := 6 } :=
    @Chunked.chunk _ _ _ _ _ _ _ _ ⟨0, 0, 1⟩ none rfl rfl
      (.skipped rfl
        (@Chunked.chunk _ _ _ _ _ _ _ _ ⟨0, 1, 5⟩ none rfl rfl
          (@Chunked.chunk _ _ _ _ _ _ _ _ ⟨0, 5, 6⟩ none rfl rfl .done)))
  exact ⟨(chunks_partition_prompt rfl twoImages_media (Nat.zero_le _)
    (.inl (by decide)) hrun).1, by decide⟩

end Example

end PrismInfer
