import PrismInfer.VisualHydration

/-!
# The media of a prefill batch

`prepare_prefill` lets all sequences of a batch bring raw payloads as soon as one of them has
nothing else to bring, and `_multimodal_inputs` raises where both kinds came together.
-/
namespace PrismInfer
open StateExcept ListBlocks

variable {κ ι ρ ε : Type}

namespace MediaHost

end MediaHost

/-- A sequence with visual payload has no cached rows. -/
def forceRaw (seqs : List (VisualSequence κ ι ρ ε)) : Bool :=
  (seqs.filter fun seq => seq.tensors.pixelValues.isSome ||
    seq.tensors.pixelValuesVideos.isSome).any (·.precomputed.isNone)

namespace MediaHost

variable {host host' : MediaHost ρ ε} {req : Request} {tensors : SequenceTensors ρ}
  {mergeSize x y : ℕ} {tokens : List ℕ} {precomputed : PrecomputedVisual ε}

/-! ## What one sequence leaves alone -/

end MediaHost

/-! ## One batch -/

section Batch

variable {mergeSize : ℕ} {host host' : MediaHost ρ ε}
  {batch : List (VisualSequence κ ι ρ ε × PrefillSlice)}

end Batch

end PrismInfer
