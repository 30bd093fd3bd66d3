import PrismInfer.Contracts
import PrismInfer.Lib.EveryRun
import PrismInfer.PromptMedia
import PrismInfer.VisualEmbeddingCache

/-!
# Hydration

Before a prefill `hydrate_visual_embedding_cache` attaches Vision Encoder outputs to a request:
those the cache holds for its whole payload, or image by image the ones of the host cache with
the other images encoded together, or those of the whole payload encoded now. Whatever the
caches hold, they hold what the encoder would return.
-/
namespace PrismInfer
open StateExcept EveryRun ListBlocks Spans

inductive VisualCacheError
  | encoder
  | deepstackLevel
  | modalityCount (present : ℕ)
  | gridMissing
  | outputRows (rows expected : ℕ)
  | perImageOutputRows (rows expected : ℕ)
deriving DecidableEq, Repr

/-- `VISUAL_EMBEDDING_CACHE_MAX_BYTES`. -/
def visualEmbeddingCacheMaxBytes : ℕ := 256 * 1024 * 1024

variable {κ ι ρ ε : Type}

namespace PrecomputedVisual

/-- Outputs one after the other, layer by layer. -/
def concat (depth : ℕ) (parts : List (PrecomputedVisual ε)) : PrecomputedVisual ε where
  embeds := parts.flatMap (·.embeds)
  deepstack := (List.range depth).map fun level =>
    parts.flatMap fun part => part.deepstack.getD level []

/-- A row for each placeholder in every output. -/
def Matches (rows : PrecomputedVisual ε) (expected : ℕ) : Prop :=
  rows.embeds.length = expected ∧ rows.deepstack ≠ [] ∧
    ∀ value ∈ rows.deepstack, value.length = rows.embeds.length

instance (rows : PrecomputedVisual ε) (expected : ℕ) : Decidable (rows.Matches expected) :=
  inferInstanceAs (Decidable (_ ∧ _ ∧ _))

end PrecomputedVisual

/-- A cached tensor is a list of rows. -/
def VisualEmbeddingCacheEntry.rows (entry : VisualEmbeddingCacheEntry (List ε)) :
    PrecomputedVisual ε :=
  ⟨entry.visualEmbeds, entry.deepstackVisualEmbeds⟩

/-- The cache fields of a `ModelRunner`. -/
structure VisualEmbeddingCaches (κ ι ε : Type) where
  visualEmbeddingCache : OrderedDict κ (VisualEmbeddingCacheEntry (List ε))
  residentBytes : ℤ
  hits : ℕ
  misses : ℕ
  evictions : ℕ
  oversizeSkips : ℕ
  hostCache : PerImageVisualEmbeddingHostCache ι (List ε)

/-- What hydration uses of its runner; the encoder may raise. -/
structure VisualRunner (ρ ε : Type) where
  enableVisualEmbeddingCache : Bool
  encodeVisualPayload : List ρ → List VisionGrid → Except VisualCacheError (PrecomputedVisual ε)
  nbytes : List ε → ℕ

/-- What hydration reads of a sequence, and what it attaches. -/
structure VisualSequence (κ ι ρ ε : Type) where
  request : Request
  tensors : SequenceTensors ρ
  visualEmbeddingCacheKey : Option κ
  multimodalMediaTokenHashes : Option (List ι)
  precomputed : Option (PrecomputedVisual ε)

namespace VisualSequence

def attach (seq : VisualSequence κ ι ρ ε) (rows : PrecomputedVisual ε) :
    VisualSequence κ ι ρ ε :=
  { seq with precomputed := some rows }

/-- The payloads of a sequence, with their grids. -/
def present (seq : VisualSequence κ ι ρ ε) : List (List ρ × Option (List VisionGrid)) :=
  [(seq.tensors.pixelValues, seq.tensors.imageGridThw),
    (seq.tensors.pixelValuesVideos, seq.tensors.videoGridThw)].filterMap
      fun (payload, grid) => payload.map (·, grid)

theorem present_unique (seq : VisualSequence κ ι ρ ε) {pixels pixels' : List ρ}
    {grid grid' : List VisionGrid} (h : seq.present = [(pixels, some grid)])
    (h' : seq.present = [(pixels', some grid')]) : pixels = pixels' ∧ grid = grid' := by
  rw [h] at h'
  simpa using h'

def visualTokenCount (seq : VisualSequence κ ι ρ ε) : ℕ :=
  seq.request.imageTokenCount + seq.request.videoTokenCount

end VisualSequence

/-- `_image_row_ranges`, the first range from `start` on. -/
def imageRowRanges (start : ℕ) : List VisionGrid → List (ℕ × ℕ)
  | [] => []
  | row :: grid => (start, start + row.patches) :: imageRowRanges (start + row.patches) grid

/-- The rows of each image in a stacked payload, with its grid row. -/
def payloadImages (payload : List ρ) (grid : List VisionGrid) : List (List ρ × VisionGrid) :=
  ((imageRowRanges 0 grid).zip grid).map fun item => (slice payload item.1.1 item.1.2, item.2)

/-- `_assemble_per_image_visual_outputs`. -/
def assemblePerImageVisualOutputs : List (PrecomputedVisual ε) →
    Except VisualCacheError (PrecomputedVisual ε)
  | [] => pure ⟨[], []⟩
  | first :: rest => do
    let depth := first.deepstack.length
    ensure (∀ part ∈ first :: rest, depth ≤ part.deepstack.length) .deepstackLevel
    pure (.concat depth (first :: rest))

section Host

variable [DecidableEq ι]

/-- The lookups of all images in the host cache. -/
def lookupParts : List ι → PerImageVisualEmbeddingHostCache ι (List ε) →
    List (Option (PrecomputedVisual ε)) × PerImageVisualEmbeddingHostCache ι (List ε)
  | [], host => ([], host)
  | imageHash :: hashes, host =>
    let (entry, host) := host.lookup imageHash
    let (parts, host) := lookupParts hashes host
    (entry.map (·.rows) :: parts, host)

/-- Cut the outputs of the missing images out of those of their batch, `start` rows of which
are used up, and store them. -/
def fillMissing (nbytes : List ε → ℕ) (encoded : PrecomputedVisual ε) :
    ℕ → List (ι × ℕ × Option (PrecomputedVisual ε)) →
      PerImageVisualEmbeddingHostCache ι (List ε) →
        List (PrecomputedVisual ε) × PerImageVisualEmbeddingHostCache ι (List ε)
  | _, [], host => ([], host)
  | start, (_, _, some part) :: items, host =>
    let (parts, host) := fillMissing nbytes encoded start items host
    (part :: parts, host)
  | start, (imageHash, length, none) :: items, host =>
    let part := encoded.select fun rows => slice rows start (start + length)
    let host := host.store nbytes imageHash part.embeds part.deepstack
    let (parts, host) := fillMissing nbytes encoded (start + length) items host
    (part :: parts, host)

end Host

/-- Calls of the runner on its caches. -/
abbrev CacheAction (κ ι ε α : Type) := EStateM VisualCacheError (VisualEmbeddingCaches κ ι ε) α

def onHost {α : Type} (f : PerImageVisualEmbeddingHostCache ι (List ε) →
    α × PerImageVisualEmbeddingHostCache ι (List ε)) : CacheAction κ ι ε α := fun caches =>
  .ok (f caches.hostCache).1 { caches with hostCache := (f caches.hostCache).2 }

namespace VisualEmbeddingCaches

/-- The caches of a new runner. -/
def new (hostCache : PerImageVisualEmbeddingHostCache ι (List ε)) :
    VisualEmbeddingCaches κ ι ε where
  visualEmbeddingCache := []
  residentBytes := 0
  hits := 0
  misses := 0
  evictions := 0
  oversizeSkips := 0
  hostCache := hostCache

/-- `reset_visual_embedding_cache_metrics`. -/
def resetMetrics (caches : VisualEmbeddingCaches κ ι ε) : VisualEmbeddingCaches κ ι ε :=
  { caches with
    hits := 0
    misses := 0
    evictions := 0
    oversizeSkips := 0
    hostCache :=
  { caches.hostCache with hits := 0, misses := 0, evictions := 0, oversizeSkips := 0 } }

/-- The end of `hydrate_visual_embedding_cache`: an entry that fits goes in, the oldest ones
make room. -/
def store [DecidableEq κ] (nbytes : List ε → ℕ) (key : κ)
    (rows : PrecomputedVisual ε) (caches : VisualEmbeddingCaches κ ι ε) :
    VisualEmbeddingCaches κ ι ε :=
  let bytes := storageBytes nbytes rows.embeds rows.deepstack
  if bytes > visualEmbeddingCacheMaxBytes then
    { caches with oversizeSkips := caches.oversizeSkips + 1 }
  else
    let (entries, resident, evictions) :=
      PerImageVisualEmbeddingHostCache.evictLoop visualEmbeddingCacheMaxBytes bytes
        caches.visualEmbeddingCache caches.residentBytes caches.evictions
    { caches with
      visualEmbeddingCache := entries.setItem key ⟨rows.embeds, rows.deepstack, bytes⟩
      residentBytes := resident + bytes
      evictions := evictions }

end VisualEmbeddingCaches

namespace VisualRunner

variable [DecidableEq κ] [DecidableEq ι] (runner : VisualRunner ρ ε)

/-- Outputs image by image: the hits of the host cache, and the other images encoded in one
batch. -/
def hydrateParts (payload : List ρ) (grid : List VisionGrid) (outputRows : List ℕ)
    (hashes : List ι) : CacheAction κ ι ε (List (PrecomputedVisual ε)) := do
  let found ← onHost (lookupParts hashes)
  let missing := (found.zip (payloadImages payload grid)).filter fun item => item.1.isNone
  if missing.isEmpty then pure (found.filterMap id)
  else do
    let encoded ← readOnly (runner.encodeVisualPayload (missing.flatMap (·.2.1))
      (missing.map (·.2.2)))
    onHost (fillMissing runner.nbytes encoded 0 (hashes.zip (outputRows.zip found)))

/-- `_hydrate_visual_embedding_cache_per_image`; nothing where the whole payload has to be
encoded instead. -/
def hydratePerImage (seq : VisualSequence κ ι ρ ε) (payload : List ρ) (grid : List VisionGrid)
    (hashes : List ι) : CacheAction κ ι ε (Option (PrecomputedVisual ε)) :=
  if ((imageRowRanges 0 grid).map fun range => range.2 - range.1).sum ≠ payload.length then
    pure none
  else
    match seq.request.imageTokenSpans with
    | none => pure none
    | some spans =>
      if spans.length ≠ hashes.length then pure none
      else do
        let parts ← runner.hydrateParts payload grid (spans.map fun span => span.2 - span.1) hashes
        let rows ← readOnly (assemblePerImageVisualOutputs parts)
        if rows.embeds.length = 0 then pure none
        else do
          require (rows.Matches seq.visualTokenCount)
            (.perImageOutputRows rows.embeds.length seq.visualTokenCount)
          pure (some rows)

/-- Encode the whole payload and keep its outputs. -/
def hydrateWhole (seq : VisualSequence κ ι ρ ε) (key : κ) :
    CacheAction κ ι ε (PrecomputedVisual ε) :=
  match seq.present with
  | [(_, none)] => throw .gridMissing
  | [(payload, some grid)] => do
    modify fun caches => { caches with misses := caches.misses + 1 }
    let rows ← readOnly (runner.encodeVisualPayload payload grid)
    require (rows.Matches seq.visualTokenCount)
      (.outputRows rows.embeds.length seq.visualTokenCount)
    modify (VisualEmbeddingCaches.store runner.nbytes key rows)
    pure rows
  | present => throw (.modalityCount present.length)

/-- Image by image, where a request has images only and a digest of each. -/
def hydrateImages (seq : VisualSequence κ ι ρ ε) :
    CacheAction κ ι ε (Option (PrecomputedVisual ε)) :=
  match seq.multimodalMediaTokenHashes, seq.tensors.pixelValues, seq.tensors.imageGridThw,
      seq.tensors.pixelValuesVideos with
  | some hashes, some payload, some grid, none =>
    if hashes.length = grid.length then runner.hydratePerImage seq payload grid hashes
    else pure none
  | _, _, _, _ => pure none

/-- The outputs of a request whose key the cache of whole payloads does not hold. -/
def hydrateMiss (seq : VisualSequence κ ι ρ ε) (key : κ) :
    CacheAction κ ι ε (PrecomputedVisual ε) := do
  match ← runner.hydrateImages seq with
  | some rows => pure rows
  | none => runner.hydrateWhole seq key

def hydrateVisualEmbeddingCache (seq : VisualSequence κ ι ρ ε) :
    CacheAction κ ι ε (VisualSequence κ ι ρ ε) :=
  if !runner.enableVisualEmbeddingCache then pure seq
  else
    match seq.visualEmbeddingCacheKey with
    | none => pure seq
    | some key => do
      let caches ← get
      match caches.visualEmbeddingCache.get? key with
      | some entry => do
        set { caches with
          visualEmbeddingCache := caches.visualEmbeddingCache.moveToEnd key
          hits := caches.hits + 1 }
        pure (seq.attach entry.rows)
      | none => do
        let rows ← runner.hydrateMiss seq key
        pure (seq.attach rows)

end VisualRunner

end PrismInfer
