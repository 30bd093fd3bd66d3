import PrismInfer.ImageSpans

/-!
# Media positions of a prompt

Block by block `mm_token_hashes_for_block` names the image under each placeholder. Over all
blocks every placeholder is named once, by its own image, and no other position is.
-/
namespace PrismInfer
open Spans

namespace Request

variable {H : Type} [Digests H] {req : Request}

/-- The entries of the first `n` blocks, by prompt position. -/
def mediaEntries (H : Type) [Digests H] (req : Request) (blockSize n : ℕ) : List (ℕ × ℕ) :=
  (List.range n).flatMap fun blockIndex =>
    ((req.mmTokenHashesForBlock H blockIndex blockSize).getD []).map fun entry =>
      (blockIndex * blockSize + entry.1, entry.2)

/-- The positions of a span inside one block. -/
def overlap (start stop : ℕ) (span : ℕ × ℕ) : List ℕ :=
  List.range' (max start span.1) (min stop span.2 - max start span.1)

theorem mem_overlap {start stop position : ℕ} {span : ℕ × ℕ} :
    position ∈ overlap start stop span ↔
      (start ≤ position ∧ position < stop) ∧ span.1 ≤ position ∧ position < span.2 := by
  unfold overlap
  rw [List.mem_range'_1]
  omega

/-- The entries of a block are the overlaps of the image spans with it. -/
theorem blockEntries_eq {spans : List (ℕ × ℕ)} {images : List Image} {id : ℕ}
    (hid : req.imageTokenId = some id) (hhashes : req.multimodalMediaTokenHashes = some images)
    (hspans : req.imageTokenSpans = some spans) (hlength : spans.length = images.length)
    (blockIndex blockSize : ℕ) :
    ((req.mmTokenHashesForBlock H blockIndex blockSize).getD []).map
        (fun entry => (blockIndex * blockSize + entry.1, entry.2)) =
      (spans.zip images).flatMap fun entry =>
        (overlap (blockIndex * blockSize) (blockIndex * blockSize + blockSize) entry.1).map
          fun position => (position, Digests.surrogate H entry.2) := by
  have hshift : ∀ entry : (ℕ × ℕ) × Image,
      ((overlap (blockIndex * blockSize) (blockIndex * blockSize + blockSize) entry.1).map
        fun position => (position - blockIndex * blockSize, Digests.surrogate H entry.2)).map
          (fun item => (blockIndex * blockSize + item.1, item.2)) =
        (overlap (blockIndex * blockSize) (blockIndex * blockSize + blockSize) entry.1).map
          fun position => (position, Digests.surrogate H entry.2) := by
    intro entry
    rw [List.map_map]
    apply List.map_congr_left
    intro position hposition
    have hfrom := (mem_overlap.mp hposition).1.1
    simp only [Function.comp_apply, Nat.add_sub_cancel' hfrom]
  unfold mmTokenHashesForBlock
  rw [hid, hhashes, hspans]
  simp only
  split
  · next hnone =>
    have hnil : images = [] := by
      rcases hnone with hnil | hne
      · exact hnil
      · exact absurd hlength hne
    rw [hnil, List.zip_nil_right]
    rfl
  · have hmap := List.map_flatMap (g := fun entry : (ℕ × ℕ) × Image =>
      (overlap (blockIndex * blockSize) (blockIndex * blockSize + blockSize) entry.1).map
        fun position => (position - blockIndex * blockSize, Digests.surrogate H entry.2))
      (f := fun item : ℕ × ℕ => (blockIndex * blockSize + item.1, item.2)) (l := spans.zip images)
    simp only [hshift] at hmap
    rw [← hmap]
    split
    · next hnil =>
      have hnil : ((spans.zip images).flatMap fun entry : (ℕ × ℕ) × Image =>
          (overlap (blockIndex * blockSize) (blockIndex * blockSize + blockSize) entry.1).map
            fun position => (position - blockIndex * blockSize, Digests.surrogate H entry.2)) =
              [] := hnil
      rw [hnil]
      rfl
    · rfl

theorem filter_overlap {β : Type*} (start stop position : ℕ) (span : ℕ × ℕ) (value : β) :
    (((overlap start stop span).map fun p => (p, value)).filter (·.1 = position)) =
      if (start ≤ position ∧ position < stop) ∧ span.1 ≤ position ∧ position < span.2 then
        [(position, value)] else [] := by
  rw [List.filter_map]
  have hpick :
    (overlap start stop span).filter ((fun entry : ℕ × β => decide (entry.1 = position)) ∘
      fun p => (p, value)) = (overlap start stop span).filter (· = position) := rfl
  rw [hpick, List.filter_eq]
  by_cases hmem : position ∈ overlap start stop span
  · have hnodup : (overlap start stop span).Nodup := List.nodup_range'
    rw [if_pos (mem_overlap.mp hmem), List.count_eq_one_of_mem hnodup hmem]
    rfl
  · rw [if_neg fun h => hmem (mem_overlap.mpr h), List.count_eq_zero_of_not_mem hmem]
    rfl

theorem flatMap_range_block {β : Type*} {blockSize n position : ℕ}
    (hposition : position < n * blockSize) (list : List β) :
    ((List.range n).flatMap fun blockIndex =>
      if blockIndex * blockSize ≤ position ∧ position < blockIndex * blockSize + blockSize then list
      else []) = list := by
  induction n with
  | zero => omega
  | succ n ih =>
    rw [List.range_succ, List.flatMap_append, List.flatMap_singleton]
    rw [Nat.succ_mul] at hposition
    by_cases hlast : n * blockSize ≤ position
    · have hearlier : ((List.range n).flatMap fun blockIndex =>
          if blockIndex * blockSize ≤ position ∧ position < blockIndex * blockSize + blockSize then
            list else []) = [] := by
        rw [List.flatMap_eq_nil_iff]
        intro blockIndex hlt
        have hbelow : (blockIndex + 1) * blockSize ≤ n * blockSize :=
          Nat.mul_le_mul_right blockSize (List.mem_range.mp hlt)
        rw [Nat.succ_mul] at hbelow
        rw [if_neg (by omega)]
      rw [hearlier, if_pos ⟨hlast, hposition⟩, List.nil_append]
    · rw [ih (by omega), if_neg (by omega), List.append_nil]

/-- The entries at one position are those of the spans over it. -/
theorem filter_mediaEntries {spans : List (ℕ × ℕ)} {images : List Image} {id blockSize n : ℕ}
    (hid : req.imageTokenId = some id) (hhashes : req.multimodalMediaTokenHashes = some images)
    (hspans : req.imageTokenSpans = some spans) (hlength : spans.length = images.length)
    {position : ℕ} (hposition : position < n * blockSize) :
    (mediaEntries H req blockSize n).filter (·.1 = position) =
      (spans.zip images).flatMap fun entry =>
        if entry.1.1 ≤ position ∧ position < entry.1.2 then
          [(position, Digests.surrogate H entry.2)] else [] := by
  unfold mediaEntries
  rw [List.filter_flatMap]
  simp only [blockEntries_eq hid hhashes hspans hlength, List.filter_flatMap, filter_overlap]
  refine Eq.trans ?_ (flatMap_range_block hposition _)
  congr 1
  funext blockIndex
  split
  · next hinside => simp only [hinside, and_self, true_and]
  · next houtside =>
    rw [List.flatMap_eq_nil_iff]
    intro entry _
    rw [if_neg fun h => houtside h.1]

/-! ## Snapping -/

/-- The snap goes down to the nearest position strictly inside no image. -/
theorem snapToImageBoundary_spec {spans : List (ℕ × ℕ)} {payload : ImagePayload} {id : ℕ}
    (hid : req.imageTokenId = some id) (himages : req.images = some payload)
    (hspans : req.imageTokenSpans = some spans) {lower : ℕ} (hordered : Ordered lower spans)
    (candidate : ℕ) :
    req.snapToImageBoundary candidate ≤ candidate ∧
      Outside spans (req.snapToImageBoundary candidate) ∧
      ∀ later, req.snapToImageBoundary candidate < later → later ≤ candidate →
        ¬ Outside spans later := by
  have hmultimodal : req.isMultimodal := by
    rw [isMultimodal, himages]
    rfl
  unfold snapToImageBoundary
  by_cases hzero : candidate = 0
  · rw [if_pos (.inr (.inr hzero))]
    exact ⟨le_rfl, fun span _ => by omega, fun later _ _ => by omega⟩
  · rw [if_neg (by rw [hid]; simp [hmultimodal, hzero]), hspans]
    simp only
    split
    · next span hfind =>
      have hmem := List.mem_of_find?_eq_some hfind
      have hinside := List.find?_some hfind
      rw [decide_eq_true_eq] at hinside
      refine ⟨hinside.1.le, ?_, ?_⟩
      · intro other hother
        have := (hordered.le_of_mem hother).2
        rcases hordered.apart hmem hother with rfl | hbehind | hbefore <;> omega
      · intro later hlater hle houtside
        exact houtside span hmem ⟨hlater, by omega⟩
    · next hfind =>
      rw [List.find?_eq_none] at hfind
      refine ⟨le_rfl, fun span hspan => ?_, fun later _ _ => by omega⟩
      simpa only [decide_eq_true_eq] using hfind span hspan

/-- Placeholders and spans agree, every placeholder has the one entry of its own image over
all blocks, and snapping finds the nearest boundary. -/
theorem media_positions_identified (H : Type) [Digests H] (req : Request) (id : ℕ)
    (payload : ImagePayload) (spans : List (ℕ × ℕ)) (blockSize : ℕ)
    (hid : req.imageTokenId = some id) (himages : req.images = some payload)
    (hhashes : req.hasMediaTokenHashes = true) (hwoven : Woven id 0 req.promptTokenIds spans)
    (hlengths : req.tokensPerImage payload.images = spans.map fun span => span.2 - span.1)
    (hcount : req.imageTokenCount = total spans) :
    req.imageTokenSpans = some spans ∧ Ordered 0 spans ∧
      (∀ position : ℕ, req.promptTokenIds[position]? = some id ↔
        ∃ span : ℕ × ℕ, span ∈ spans ∧ span.1 ≤ position ∧ position < span.2) ∧
      (∀ n, req.numPromptTokens ≤ n * blockSize →
        (∀ (k : ℕ) (span : ℕ × ℕ) (image : Image), spans[k]? = some span →
          payload.images[k]? = some image → ∀ position, span.1 ≤ position → position < span.2 →
            (mediaEntries H req blockSize n).filter (·.1 = position) =
              [(position, Digests.surrogate H image)]) ∧
        ∀ position < n * blockSize, req.promptTokenIds[position]? ≠ some id →
          (mediaEntries H req blockSize n).filter (·.1 = position) = []) ∧
      ∀ candidate, req.snapToImageBoundary candidate ≤ candidate ∧
        Outside spans (req.snapToImageBoundary candidate) ∧
        ∀ later, req.snapToImageBoundary candidate < later → later ≤ candidate →
          ¬ Outside spans later := by
  have hspans := imageTokenSpans_of_woven hid himages hwoven hlengths hcount
  have hmedia : req.multimodalMediaTokenHashes = some payload.images := by
    rw [multimodalMediaTokenHashes, hhashes, himages]
    rfl
  have hlength : spans.length = payload.images.length := by
    have := congrArg List.length hlengths
    rw [tokensPerImage, List.length_map, List.length_map] at this
    exact this.symm
  have hpositions : ∀ position : ℕ, req.promptTokenIds[position]? = some id ↔
      ∃ span : ℕ × ℕ, span ∈ spans ∧ span.1 ≤ position ∧ position < span.2 := fun position =>
    ⟨fun hget => hwoven.mem_of_getElem? (Nat.zero_le position) hget,
      fun ⟨span, hspan, hle, hlt⟩ => hwoven.getElem? hspan hle hlt⟩
  refine ⟨hspans, hwoven.ordered, hpositions, fun n hn => ⟨?_, ?_⟩,
    snapToImageBoundary_spec hid himages hspans hwoven.ordered⟩
  · intro k span image hspan himage position hle hlt
    have hmem := List.mem_of_getElem? hspan
    have hprompt := hwoven.le_length span hmem
    unfold numPromptTokens at hn
    rw [filter_mediaEntries hid hmedia hspans hlength (by omega)]
    exact hwoven.ordered.flatMap_owner hspan himage hle hlt fun image =>
      [(position, Digests.surrogate H image)]
  · intro position hposition hother
    rw [filter_mediaEntries hid hmedia hspans hlength hposition]
    exact flatMap_owner_none (fun span hspan hbounds => hother
      ((hpositions position).mpr ⟨span, hspan, hbounds⟩)) fun image =>
        [(position, Digests.surrogate H image)]

/-- One image of one token and one of two, side by side. -/
def touchingImages : Request where
  seqId := 0
  blockSize := 2
  promptTokenIds := [1, 9, 9, 9, 2]
  promptNonempty := by decide
  maxTokens := 1
  maxTokensPositive := Nat.one_pos
  ignoreEos := false
  submittedNs := none
  ttftSloNs := none
  images := some ⟨12, [⟨5, 4⟩, ⟨6, 8⟩]⟩
  video := none
  hasPositionIds := true
  hasRopeDelta := true
  imageTokenId := some 9
  imageTokenCount := 3
  videoTokenId := none
  videoTokenCount := 0
  imageMergeSize := 2
  hasPrefixCacheKey := false
  hasMediaTokenHashes := true

theorem touchingImages_woven : Woven 9 0 touchingImages.promptTokenIds [(1, 2), (2, 4)] :=
  .span (show 9 ∉ [1] by decide) (by decide : 0 < 1) rfl rfl
    (.run (by decide : 0 < 2) rfl (.gap (by decide)))

theorem media_positions_identified_touching :
    touchingImages.imageTokenSpans = some [(1, 2), (2, 4)] ∧
      (@mediaEntries ℕ ⟨fun _ => 0, Image.pixels⟩ touchingImages 2 3).filter (·.1 = 2) =
        [(2, 6)] := by
  have h := @media_positions_identified ℕ ⟨fun _ => 0, Image.pixels⟩ touchingImages 9
    ⟨12, [⟨5, 4⟩, ⟨6, 8⟩]⟩ [(1, 2), (2, 4)] 2 rfl rfl rfl touchingImages_woven rfl rfl
  exact ⟨h.1, (h.2.2.2.1 3 (by decide)).1 1 (2, 4) ⟨6, 8⟩ rfl rfl 2 le_rfl (by decide)⟩

end Request

end PrismInfer
