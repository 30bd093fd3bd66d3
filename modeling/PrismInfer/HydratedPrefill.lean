import PrismInfer.ChunkedPrefill
import PrismInfer.PrefillMedia
import PrismInfer.VisualHydrationExact

/-!
# Prefills with hydrated requests

From any state that hydrations leave the caches in, also those that raised, a request gets the
rows its images encode to. Slices between images take the rows of the images they cover, and a
batch supplies cached rows or raw payloads.
-/
namespace PrismInfer
open StateExcept EveryRun ListBlocks Spans

variable {δ κ ι ρ ε : Type}

/-! ## Slices of hydrated requests -/

section Slices

variable {runner : VisualRunner ρ ε} {mergeSize : ℕ} (outputs : ImageOutputs runner mergeSize)
  {payload : ImagePayload} {id : ℕ} {spans : List (ℕ × ℕ)} {pixels : List ρ}
  {grid : List VisionGrid} {x y : ℕ}

end Slices

/-! ## Plans and runs -/

section Runs

variable [DecidableEq κ] [DecidableEq ι] (runner : VisualRunner ρ ε)
  (digests : MediaDigests δ κ ι ρ) (mergeSize : ℕ)

/-- The states of the caches: those of a new runner, and those that a call leaves. -/
inductive CachesReached : VisualEmbeddingCaches κ ι ε → Prop
  | new {maxBytes : ℤ} {hostCache : PerImageVisualEmbeddingHostCache ι (List ε)}
      (h : PerImageVisualEmbeddingHostCache.new maxBytes = .ok hostCache) :
      CachesReached (.new hostCache)
  | hydrate {caches : VisualEmbeddingCaches κ ι ε} {seq : VisualSequence κ ι ρ ε}
      (hmedia : PromptMedia seq.request seq.tensors mergeSize) (hid : seq.Identified digests)
      (h : CachesReached caches) :
      CachesReached (finalState (runner.hydrateVisualEmbeddingCache seq caches))
  | resetMetrics {caches : VisualEmbeddingCaches κ ι ε} (h : CachesReached caches) :
      CachesReached caches.resetMetrics

variable {runner digests mergeSize} {caches caches' : VisualEmbeddingCaches κ ι ε}
  {outputs : ImageOutputs runner mergeSize}

theorem CachesReached.exact (h : CachesReached runner digests mergeSize caches) :
    ExactCaches outputs digests caches := by
  induction h with
  | new h =>
    refine ⟨fun item hitem => absurd hitem List.not_mem_nil, ?_⟩
    unfold PerImageVisualEmbeddingHostCache.new at h
    split at h
    · cases h
    · obtain rfl := Except.ok.inj h
      exact fun item hitem => absurd hitem List.not_mem_nil
  | hydrate hmedia hid _ ih => exact (hydrate_spec ih hmedia hid).1
  | resetMetrics _ ih => exact ⟨ih.whole, ih.host⟩

variable {seq : VisualSequence κ ι ρ ε} {pixels : List ρ} {grid : List VisionGrid}

end Runs

/-! ### One image left in the host cache -/

section Example

end Example

end PrismInfer
