import PrismInfer.Lib.Tensor
import Mathlib.Algebra.BigOperators.Group.Finset.Basic

/-!
# Tensor-parallel layers

The sharded linear layers and the vocabulary embedding with their weight loaders, the
checkpoint loader, and the sharded attention and MLP chains of one decoder layer. The
modules are those of the text decoder; parameters that every rank holds in full are left out.
-/
namespace PrismInfer

open StateExcept
open scoped BigOperators

/-- Dotted names of parameters and checkpoint tensors. -/
abbrev Name := List Char

/-- The shard ids of `packed_modules_mapping`. -/
inductive ShardId
  | q
  | k
  | v
  | merged (index : ℕ)
deriving DecidableEq, Repr

inductive LoadError
  | tensor (e : TensorError)
  | mergedShard (shard : ShardId)
  | qkvShard (shard : ShardId)
  | loaderArguments
  | unknownParameter (name : Name)
deriving DecidableEq, Repr

/-- A rank of a tensor-parallel group. -/
structure TPGroup where
  tpRank : ℕ
  tpSize : ℕ

section Loaders

variable {R : Type}

def liftTensor (x : Except TensorError (Tensor R)) : Except LoadError (Tensor R) :=
  x.mapError .tensor

/-- The rows of `loaded_weight` along `tp_dim` that belong to the rank. -/
def loadShard (tpDim : ℕ) (g : TPGroup) (param loadedWeight : Tensor R) :
    Except LoadError (Tensor R) := liftTensor do
  let shardSize ← param.size tpDim
  let shard ← loadedWeight.narrow tpDim (g.tpRank * shardSize) shardSize
  param.copy shard

def ColumnParallelLinear.weightLoader (g : TPGroup) (param loadedWeight : Tensor R) :
    Except LoadError (Tensor R) :=
  loadShard 0 g param loadedWeight

/-- `tp_dim` is 1, also for the bias, which has one dimension. -/
def RowParallelLinear.weightLoader (g : TPGroup) (param loadedWeight : Tensor R) :
    Except LoadError (Tensor R) :=
  loadShard 1 g param loadedWeight

def VocabParallelEmbedding.weightLoader (g : TPGroup) (param loadedWeight : Tensor R) :
    Except LoadError (Tensor R) :=
  loadShard 0 g param loadedWeight

/-- The chunk of the rank, copied to `shard_size` rows of a packed parameter. -/
def loadPacked (g : TPGroup) (param loadedWeight : Tensor R) (shardOffset shardSize : ℕ) :
    Except LoadError (Tensor R) := liftTensor do
  let _ ← param.narrow 0 shardOffset shardSize
  let shard ← loadedWeight.chunk g.tpSize 0 g.tpRank
  param.copyNarrow 0 shardOffset shardSize shard

/-- Offset and size of a projection in a merged parameter. -/
def MergedColumnParallelLinear.shardRange (g : TPGroup) (outputSizes : List ℕ) (index : ℕ) :
    ℕ × ℕ :=
  ((outputSizes.take index).sum / g.tpSize, outputSizes.getD index 0 / g.tpSize)

def MergedColumnParallelLinear.weightLoader (g : TPGroup) (outputSizes : List ℕ)
    (param loadedWeight : Tensor R) (shard : ShardId) : Except LoadError (Tensor R) :=
  match shard with
  | .merged index => do
    ensure (index < outputSizes.length) (.mergedShard shard)
    loadPacked g param loadedWeight (shardRange g outputSizes index).1
      (shardRange g outputSizes index).2
  | _ => .error (.mergedShard shard)

/-- Offset and size of a projection in the packed query, key and value parameter. -/
def QKVParallelLinear.shardRange (numHeads numKvHeads headSize : ℕ) : ShardId → Option (ℕ × ℕ)
  | .q => some (0, numHeads * headSize)
  | .k => some (numHeads * headSize, numKvHeads * headSize)
  | .v => some (numHeads * headSize + numKvHeads * headSize, numKvHeads * headSize)
  | .merged _ => none

def QKVParallelLinear.weightLoader (g : TPGroup) (numHeads numKvHeads headSize : ℕ)
    (param loadedWeight : Tensor R) (shard : ShardId) : Except LoadError (Tensor R) :=
  match shardRange numHeads numKvHeads headSize shard with
  | some range => loadPacked g param loadedWeight range.1 range.2
  | none => .error (.qkvShard shard)

/-- The `weight_loader` attribute of a parameter, with what its layer stores for it. -/
inductive WeightLoader
  | column
  | row
  | vocab
  | merged (outputSizes : List ℕ)
  | qkv (numHeads numKvHeads headSize : ℕ)
deriving DecidableEq, Repr

/-- The rows that `weight_loader` writes for a shard of a packed parameter. -/
def WeightLoader.shardRange (g : TPGroup) : WeightLoader → ShardId → Option (ℕ × ℕ)
  | .merged outputSizes, .merged index =>
    some (MergedColumnParallelLinear.shardRange g outputSizes index)
  | .qkv numHeads numKvHeads headSize, shard =>
    QKVParallelLinear.shardRange numHeads numKvHeads headSize shard
  | _, _ => none

/-- `weight_loader(param, tensor)` or `weight_loader(param, tensor, shard_id)`. -/
def WeightLoader.load (g : TPGroup) (loader : WeightLoader) (param loadedWeight : Tensor R) :
    Option ShardId → Except LoadError (Tensor R)
  | none =>
    match loader with
    | .column => ColumnParallelLinear.weightLoader g param loadedWeight
    | .row => RowParallelLinear.weightLoader g param loadedWeight
    | .vocab => VocabParallelEmbedding.weightLoader g param loadedWeight
    | _ => .error .loaderArguments
  | some shard =>
    match loader with
    | .merged outputSizes =>
      MergedColumnParallelLinear.weightLoader g outputSizes param loadedWeight shard
    | .qkv numHeads numKvHeads headSize =>
      QKVParallelLinear.weightLoader g numHeads numKvHeads headSize param loadedWeight shard
    | _ => .error .loaderArguments

end Loaders

/-! ### Loading a checkpoint -/

/-- `key in name`. -/
def contains (key : Name) : Name → Bool
  | [] => key.isEmpty
  | c :: cs => key.isPrefixOf (c :: cs) || contains key cs

/-- `name.replace(key, value)` for a key that is not empty; `skip` characters belong to the
occurrence that was replaced last. -/
def replaceFrom (key value : Name) : ℕ → Name → Name
  | _, [] => []
  | skip + 1, _ :: cs => replaceFrom key value skip cs
  | 0, c :: cs =>
    if key.isPrefixOf (c :: cs) then value ++ replaceFrom key value (key.length - 1) cs
    else c :: replaceFrom key value 0 cs

abbrev PackedModulesMapping := List (Name × Name × ShardId)

/-- The parameter a checkpoint tensor is loaded into, and its shard id. -/
def resolve (mapping : PackedModulesMapping) (weightName : Name) : Name × Option ShardId :=
  match mapping.find? fun entry => contains entry.1 weightName with
  | some (key, value, shard) => (replaceFrom key value 0 weightName, some shard)
  | none => (weightName, none)

structure Parameter (R : Type) where
  data : Tensor R
  loader : WeightLoader

abbrev ModelParameters (R : Type) := Name → Option (Parameter R)

section LoadModel

variable {R : Type}

def loadTensor (g : TPGroup) (mapping : PackedModulesMapping) (model : ModelParameters R)
    (weight : Name × Tensor R) : Except LoadError (ModelParameters R) := do
  let (paramName, shard) := resolve mapping weight.1
  match model paramName with
  | none => throw (.unknownParameter paramName)
  | some param => do
    let data ← param.loader.load g param.data weight.2 shard
    pure (Function.update model paramName (some { param with data := data }))

/-- The tensors come in the order in which the files and their keys list them. -/
def loadModel (g : TPGroup) (mapping : PackedModulesMapping) (model : ModelParameters R)
    (checkpoint : List (Name × Tensor R)) : Except LoadError (ModelParameters R) :=
  checkpoint.foldlM (loadTensor g mapping) model

end LoadModel

/-! ### The sharded modules of the text decoder -/

/-- Sizes whose shards are exact, as `divide` requires, with whole query groups. -/
structure ParallelSizes where
  worldSize : ℕ
  numHeads : ℕ
  numKvHeads : ℕ
  headDim : ℕ
  hiddenSize : ℕ
  intermediateSize : ℕ
  vocabSize : ℕ
  worldSize_pos : 0 < worldSize
  numKvHeads_pos : 0 < numKvHeads
  divides_heads : worldSize ∣ numHeads
  divides_kvHeads : worldSize ∣ numKvHeads
  divides_intermediate : worldSize ∣ intermediateSize
  divides_vocab : worldSize ∣ vocabSize
  groups : numKvHeads ∣ numHeads

/-- The projections of a checkpoint. -/
inductive Projection
  | q
  | k
  | v
  | o
  | gate
  | up
  | down
deriving DecidableEq, Repr

/-- The layers that store them. -/
inductive ParallelLinear
  | qkv
  | o
  | gateUp
  | down
deriving DecidableEq, Repr

inductive Part
  | weight
  | bias
deriving DecidableEq, Repr

def Part.path : Part → String
  | .weight => "weight"
  | .bias => "bias"

namespace Projection

def path : Projection → String
  | .q => "self_attn.q_proj"
  | .k => "self_attn.k_proj"
  | .v => "self_attn.v_proj"
  | .o => "self_attn.o_proj"
  | .gate => "mlp.gate_proj"
  | .up => "mlp.up_proj"
  | .down => "mlp.down_proj"

def layer : Projection → ParallelLinear
  | .q | .k | .v => .qkv
  | .o => .o
  | .gate | .up => .gateUp
  | .down => .down

def shard : Projection → Option ShardId
  | .q => some .q
  | .k => some .k
  | .v => some .v
  | .gate => some (.merged 0)
  | .up => some (.merged 1)
  | .o | .down => none

def all : List Projection := [.q, .k, .v, .o, .gate, .up, .down]

end Projection

def ParallelLinear.path : ParallelLinear → String
  | .qkv => "self_attn.qkv_proj"
  | .o => "self_attn.o_proj"
  | .gateUp => "mlp.gate_up_proj"
  | .down => "mlp.down_proj"

def ParallelLinear.all : List ParallelLinear := [.qkv, .o, .gateUp, .down]

/-- `packed_modules_mapping` of the model. -/
def packedModulesMapping : PackedModulesMapping :=
  [("self_attn.q_proj".toList, "self_attn.qkv_proj".toList, .q),
    ("self_attn.k_proj".toList, "self_attn.qkv_proj".toList, .k),
    ("self_attn.v_proj".toList, "self_attn.qkv_proj".toList, .v),
    ("mlp.gate_proj".toList, "mlp.gate_up_proj".toList, .merged 0),
    ("mlp.up_proj".toList, "mlp.gate_up_proj".toList, .merged 1)]

def layersPath : Name := "model.language_model.layers.".toList

/-- The path of a module in a layer, and the part of it. -/
def partPath (module part : String) : Name := '.' :: module.toList ++ '.' :: part.toList

/-- The name of a tensor of decoder layer `index`. -/
def layerName (index : ℕ) (module part : String) : Name :=
  layersPath ++ Nat.toDigits 10 index ++ partPath module part

def embedName : Name := "model.language_model.embed_tokens.weight".toList

namespace ParallelSizes

variable (sizes : ParallelSizes)

def localHeads : ℕ := sizes.numHeads / sizes.worldSize

def localKvHeads : ℕ := sizes.numKvHeads / sizes.worldSize

def localIntermediate : ℕ := sizes.intermediateSize / sizes.worldSize

def localVocab : ℕ := sizes.vocabSize / sizes.worldSize

/-- Output features of a projection. -/
def outSize : Projection → ℕ
  | .q => sizes.numHeads * sizes.headDim
  | .k | .v => sizes.numKvHeads * sizes.headDim
  | .o | .down => sizes.hiddenSize
  | .gate | .up => sizes.intermediateSize

/-- Input features of a projection. -/
def inSize : Projection → ℕ
  | .q | .k | .v | .gate | .up => sizes.hiddenSize
  | .o => sizes.numHeads * sizes.headDim
  | .down => sizes.intermediateSize

/-- The shape of a layer's weight on one rank. -/
def weightShape : ParallelLinear → List ℕ
  | .qkv => [(sizes.numHeads + 2 * sizes.numKvHeads) * sizes.headDim / sizes.worldSize,
      sizes.hiddenSize]
  | .o => [sizes.hiddenSize, sizes.numHeads * sizes.headDim / sizes.worldSize]
  | .gateUp => [(sizes.intermediateSize + sizes.intermediateSize) / sizes.worldSize,
      sizes.hiddenSize]
  | .down => [sizes.hiddenSize, sizes.intermediateSize / sizes.worldSize]

def partShape (layer : ParallelLinear) : Part → List ℕ
  | .weight => sizes.weightShape layer
  | .bias => (sizes.weightShape layer).take 1

def loader : ParallelLinear → WeightLoader
  | .qkv => .qkv sizes.localHeads sizes.localKvHeads sizes.headDim
  | .o | .down => .row
  | .gateUp => .merged [sizes.intermediateSize, sizes.intermediateSize]

end ParallelSizes

/-- A parameter of the model. -/
inductive Target
  | embed
  | layer (index : ℕ) (module : ParallelLinear) (part : Part)
deriving DecidableEq, Repr

def Target.name : Target → Name
  | .embed => embedName
  | .layer index module part => layerName index module.path part.path

/-- A tensor of the checkpoint. -/
inductive Source
  | embed
  | layer (index : ℕ) (projection : Projection) (part : Part)
deriving DecidableEq, Repr

namespace Source

def name : Source → Name
  | .embed => embedName
  | .layer index projection part => layerName index projection.path part.path

def target : Source → Target
  | .embed => .embed
  | .layer index projection part => .layer index projection.layer part

def shard : Source → Option ShardId
  | .embed => none
  | .layer _ projection _ => projection.shard

end Source

/-- The full weights of the decoder; the projections of one layer have a bias together. -/
structure TextWeights (R : Type) where
  numLayers : ℕ
  embed : ℕ → ℕ → R
  weight : ℕ → Projection → ℕ → ℕ → R
  bias : ℕ → ParallelLinear → Option (Projection → ℕ → R)

section Model

variable {R : Type} [Zero R] (sizes : ParallelSizes) (weights : TextWeights R)

/-- A checkpoint tensor with its full, unsharded shape. -/
def Source.tensor : Source → Tensor R
  | .embed => ⟨[sizes.vocabSize, sizes.hiddenSize],
      fun idx => weights.embed (idx.getD 0 0) (idx.getD 1 0)⟩
  | .layer index projection .weight => ⟨[sizes.outSize projection, sizes.inSize projection],
      fun idx => weights.weight index projection (idx.getD 0 0) (idx.getD 1 0)⟩
  | .layer index projection .bias => ⟨[sizes.outSize projection],
      fun idx => match weights.bias index projection.layer with
        | some bias => bias projection (idx.getD 0 0)
        | none => 0⟩

/-- Whether the model has this part of a layer. -/
def TextWeights.hasPart (index : ℕ) (module : ParallelLinear) : Part → Bool
  | .weight => true
  | .bias => (weights.bias index module).isSome

/-- The tensors of the checkpoint. -/
def TextWeights.sources : List Source :=
  .embed :: (List.range weights.numLayers).flatMap fun index =>
    Projection.all.flatMap fun projection =>
      ([Part.weight, .bias].filter fun part => weights.hasPart index projection.layer part).map
        (Source.layer index projection)

/-- The parameters of the model. -/
def TextWeights.targets : List Target :=
  .embed :: (List.range weights.numLayers).flatMap fun index =>
    ParallelLinear.all.flatMap fun module =>
      ([Part.weight, .bias].filter fun part => weights.hasPart index module part).map
        (Target.layer index module)

/-- A parameter as its layer creates it; `uninitialized` is what `torch.empty` holds. -/
def Target.parameter (uninitialized : Target → List ℕ → R) : Target → Parameter R
  | .embed => ⟨⟨[sizes.localVocab, sizes.hiddenSize], uninitialized .embed⟩, .vocab⟩
  | .layer index module part =>
    ⟨⟨sizes.partShape module part, uninitialized (.layer index module part)⟩, sizes.loader module⟩

def initialModel (uninitialized : Target → List ℕ → R) : ModelParameters R := fun name =>
  (weights.targets.find? fun target => target.name = name).map
    (Target.parameter sizes uninitialized)

end Model

/-! ### Forward passes -/

section Forward

variable {R : Type} [Semiring R] {Token : Type}

/-- `F.linear` on one row. -/
def linear (weight : Tensor R) (bias : Option (Tensor R)) (x : ℕ → R) (o : ℕ) : R :=
  ∑ i ∈ Finset.range (weight.shape.getD 1 0), x i * weight.entry [o, i] +
    (bias.map fun b => b.entry [o]).getD 0

/-- A part of a layer, where the model has it. -/
def ModelParameters.part (model : ModelParameters R) (index : ℕ) (module : ParallelLinear)
    (part : Part) : Option (Tensor R) :=
  (model (Target.layer index module part).name).map Parameter.data

def ModelParameters.weight (model : ModelParameters R) (index : ℕ) (module : ParallelLinear) :
    Tensor R :=
  (model.part index module .weight).getD ⟨[], fun _ => 0⟩

def ColumnParallelLinear.forward (model : ModelParameters R) (index : ℕ)
    (module : ParallelLinear) (x : Token → ℕ → R) : Token → ℕ → R := fun t =>
  linear (model.weight index module) (model.part index module .bias) (x t)

/-- The collective: the sum over the ranks. -/
def allReduce (tpSize : ℕ) (ys : ℕ → Token → ℕ → R) : Token → ℕ → R := fun t o =>
  ∑ rank ∈ Finset.range tpSize, ys rank t o

/-- The output of one rank before the collective: only rank 0 adds the bias. -/
def RowParallelLinear.partialOutput (rank : ℕ) (model : ModelParameters R) (index : ℕ)
    (module : ParallelLinear) (x : Token → ℕ → R) : Token → ℕ → R := fun t =>
  linear (model.weight index module)
    (if rank = 0 then model.part index module .bias else none) (x t)

/-- `RowParallelLinear.forward` on `rank`, given the models and the inputs of all ranks. -/
def RowParallelLinear.forward (tpSize : ℕ) (models : ℕ → ModelParameters R) (index : ℕ)
    (module : ParallelLinear) (xs : ℕ → Token → ℕ → R) (rank : ℕ) : Token → ℕ → R :=
  if 1 < tpSize then
    allReduce tpSize fun r => partialOutput r (models r) index module (xs r)
  else partialOutput rank (models rank) index module (xs rank)

/-- Grouped-query attention, flattened over the heads. What a head computes from its queries
and from the keys and values of its group (norms, rotary embedding and softmax attention
over the cache) is `headAttention`. -/
def groupedAttention (headDim groups : ℕ)
    (headAttention : (Token → Fin headDim → R) → (Token → Fin headDim → R) →
      (Token → Fin headDim → R) → Token → ℕ → R)
    (q k v : Token → ℕ → R) : Token → ℕ → R := fun t j =>
  let head := j / headDim
  let kvHead := head / groups
  headAttention (fun t c => q t (head * headDim + c)) (fun t c => k t (kvHead * headDim + c))
    (fun t c => v t (kvHead * headDim + c)) t (j % headDim)

variable (sizes : ParallelSizes)

/-- Packed projection and attention on the heads of one rank. -/
def Qwen3VLTextAttention.localOutput (model : ModelParameters R) (index : ℕ)
    (headAttention : (Token → Fin sizes.headDim → R) → (Token → Fin sizes.headDim → R) →
      (Token → Fin sizes.headDim → R) → Token → ℕ → R) (x : Token → ℕ → R) : Token → ℕ → R :=
  let qSize := sizes.localHeads * sizes.headDim
  let kvSize := sizes.localKvHeads * sizes.headDim
  let qkv := ColumnParallelLinear.forward model index .qkv x
  groupedAttention sizes.headDim (sizes.localHeads / sizes.localKvHeads) headAttention qkv
    (fun t j => qkv t (qSize + j)) (fun t j => qkv t (qSize + kvSize + j))

def Qwen3VLTextAttention.forward (models : ℕ → ModelParameters R) (index : ℕ)
    (headAttention : (Token → Fin sizes.headDim → R) → (Token → Fin sizes.headDim → R) →
      (Token → Fin sizes.headDim → R) → Token → ℕ → R) (x : Token → ℕ → R) (rank : ℕ) :
    Token → ℕ → R :=
  RowParallelLinear.forward sizes.worldSize models index .o
    (fun r => localOutput sizes (models r) index headAttention x) rank

/-- Packed gate and up projection and the elementwise gate on one rank. -/
def Qwen3VLTextMLP.localOutput (model : ModelParameters R) (index : ℕ) (gated : R → R → R)
    (x : Token → ℕ → R) : Token → ℕ → R :=
  let packed := ColumnParallelLinear.forward model index .gateUp x
  fun t j => gated (packed t j) (packed t (sizes.localIntermediate + j))

def Qwen3VLTextMLP.forward (models : ℕ → ModelParameters R) (index : ℕ) (gated : R → R → R)
    (x : Token → ℕ → R) (rank : ℕ) : Token → ℕ → R :=
  RowParallelLinear.forward sizes.worldSize models index .down
    (fun r => localOutput sizes (models r) index gated x) rank

/-- The row of one rank for a token id: the masked lookup before the collective. -/
def VocabParallelEmbedding.partialOutput (rank : ℕ) (model : ModelParameters R) (token : ℤ)
    (c : ℕ) : R :=
  let perPartition : ℤ := sizes.localVocab
  let vocabStartIdx := perPartition * rank
  let mask : ℤ := if vocabStartIdx ≤ token ∧ token < vocabStartIdx + perPartition then 1 else 0
  let masked := if 1 < sizes.worldSize then mask * (token - vocabStartIdx) else token
  let row := (model embedName).elim 0 fun param => param.data.entry [masked.toNat, c]
  if 1 < sizes.worldSize then (mask : ℤ).toNat • row else row

def VocabParallelEmbedding.forward (models : ℕ → ModelParameters R) (token : ℤ) (rank : ℕ)
    (c : ℕ) : R :=
  if 1 < sizes.worldSize then
    ∑ r ∈ Finset.range sizes.worldSize, partialOutput sizes r (models r) token c
  else partialOutput sizes rank (models rank) token c

/-! ### The unsharded modules -/

/-- A projection with its full weight. -/
def TextWeights.project (weights : TextWeights R) (index : ℕ) (projection : Projection)
    (x : Token → ℕ → R) : Token → ℕ → R := fun t o =>
  ∑ i ∈ Finset.range (sizes.inSize projection), x t i * weights.weight index projection o i +
    ((weights.bias index projection.layer).map fun bias => bias projection o).getD 0

def TextWeights.attention (weights : TextWeights R) (index : ℕ)
    (headAttention : (Token → Fin sizes.headDim → R) → (Token → Fin sizes.headDim → R) →
      (Token → Fin sizes.headDim → R) → Token → ℕ → R) (x : Token → ℕ → R) : Token → ℕ → R :=
  weights.project sizes index .o
    (groupedAttention sizes.headDim (sizes.numHeads / sizes.numKvHeads) headAttention
      (weights.project sizes index .q x) (weights.project sizes index .k x)
      (weights.project sizes index .v x))

def TextWeights.mlp (weights : TextWeights R) (index : ℕ) (gated : R → R → R)
    (x : Token → ℕ → R) : Token → ℕ → R :=
  weights.project sizes index .down fun t j =>
    gated (weights.project sizes index .gate x t j) (weights.project sizes index .up x t j)

end Forward

end PrismInfer
