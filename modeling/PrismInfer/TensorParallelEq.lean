import PrismInfer.TensorParallelLoad

/-!
# Sharded layers compute the unsharded ones

With the loaded shards, the rows of a packed projection on one rank are the rows of that
rank in the full projection, its heads are a run of the full heads, and the partial products
of the ranks add up to the full product.
-/
namespace PrismInfer

open StateExcept
open scoped BigOperators

/-- A sum over `n` blocks of equal length. -/
theorem sum_blocks {R : Type} [AddCommMonoid R] (f : ℕ → R) (n length : ℕ) :
    ∑ i ∈ Finset.range (n * length), f i =
      ∑ block ∈ Finset.range n, ∑ i ∈ Finset.range length, f (block * length + i) := by
  induction n with
  | zero => simp
  | succ n ih => rw [Nat.succ_mul, Finset.sum_range_add, ih, Finset.sum_range_succ]

section Equal

variable {R : Type} [Semiring R] {Token : Type} {sizes : ParallelSizes} {weights : TextWeights R}
  {uninitialized : Target → List ℕ → R}

/-- The model of a rank after the whole checkpoint. -/
abbrev Loaded (sizes : ParallelSizes) (weights : TextWeights R)
    (uninitialized : Target → List ℕ → R) (rank : ℕ) (model : ModelParameters R) : Prop :=
  LoadedSoFar sizes weights uninitialized rank weights.sources model

section Parts

variable {rank index : ℕ} {model : ModelParameters R}

theorem Loaded.weight (h : Loaded sizes weights uninitialized rank model)
    (hindex : index < weights.numLayers) (projection : Projection) :
    (model.weight index projection.layer).shape = sizes.weightShape projection.layer ∧
      ∀ idx, (Source.layer index projection .weight).InShard sizes idx →
        (model.weight index projection.layer).entry idx =
          (Source.layer index projection .weight).shardEntry sizes weights rank idx := by
  have hmem : Source.layer index projection .weight ∈ weights.sources :=
    (mem_sources weights).mpr ⟨hindex, rfl⟩
  obtain ⟨param, hparam, -, hshape⟩ := h.params _ (target_mem weights hmem)
  have hweight : model.weight index projection.layer = param.data := by
    simp only [ModelParameters.weight, ModelParameters.part]
    rw [show (Target.layer index projection.layer .weight).name =
      (Source.layer index projection .weight).target.name from rfl, hparam]
    rfl
  rw [hweight]
  exact ⟨hshape, h.shards _ hmem param hparam⟩

theorem Loaded.bias (h : Loaded sizes weights uninitialized rank model)
    (hindex : index < weights.numLayers) (projection : Projection) {idx : List ℕ}
    (hidx : (Source.layer index projection .bias).InShard sizes idx) :
    ((model.part index projection.layer .bias).map fun b => b.entry idx) =
      (weights.bias index projection.layer).map fun _ =>
        (Source.layer index projection .bias).shardEntry sizes weights rank idx := by
  cases hbias : weights.bias index projection.layer with
  | none =>
    have hnone : Target.layer index projection.layer .bias ∉ weights.targets := by
      rw [mem_targets]
      rintro ⟨-, hpart⟩
      simp [TextWeights.hasPart, hbias] at hpart
    rw [ModelParameters.part, h.others _ hnone]
    rfl
  | some bias =>
    have hmem : Source.layer index projection .bias ∈ weights.sources := by
      refine (mem_sources weights).mpr ⟨hindex, ?_⟩
      simp [TextWeights.hasPart, hbias]
    obtain ⟨param, hparam, -, -⟩ := h.params _ (target_mem weights hmem)
    have hpart : model.part index projection.layer .bias = some param.data := by
      rw [ModelParameters.part, show (Target.layer index projection.layer .bias).name =
        (Source.layer index projection .bias).target.name from rfl, hparam]
      rfl
    rw [hpart]
    simp only [Option.map_some, h.shards _ hmem param hparam idx hidx]

theorem Loaded.noBias (h : Loaded sizes weights uninitialized rank model) {module : ParallelLinear}
    (hbias : weights.bias index module = none) : model.part index module .bias = none := by
  have hnone : Target.layer index module .bias ∉ weights.targets := by
    rw [mem_targets]
    rintro ⟨-, hpart⟩
    simp [TextWeights.hasPart, hbias] at hpart
  rw [ModelParameters.part, h.others _ hnone]
  rfl

/-- A row of a packed projection on one rank is a row of the full projection. -/
theorem Loaded.column (h : Loaded sizes weights uninitialized rank model)
    (hindex : index < weights.numLayers) {projection : Projection}
    (hcolumn : projection.shard ≠ none) (x : Token → ℕ → R) (t : Token) {j : ℕ}
    (hj : j < (Source.layer index projection .weight).shardSize sizes) :
    ColumnParallelLinear.forward model index projection.layer x t
        ((Source.layer index projection .weight).shardOffset sizes + j) =
      weights.project sizes index projection x t
        (rank * (Source.layer index projection .weight).shardSize sizes + j) := by
  obtain ⟨hshape, hweight⟩ := h.weight hindex projection
  have hdim : ∀ part, (Source.layer index projection part).dim = 0 :=
    fun _ => Source.dim_of_packed hcolumn
  have hin : (sizes.weightShape projection.layer).getD 1 0 = sizes.inSize projection := by
    cases projection <;> first | rfl | exact absurd rfl hcolumn
  have hoffset : (Source.layer index projection .bias).shardOffset sizes =
      (Source.layer index projection .weight).shardOffset sizes := by
    cases projection <;> rfl
  have hsize : (Source.layer index projection .bias).shardSize sizes =
      (Source.layer index projection .weight).shardSize sizes := by
    cases projection <;> rfl
  set offset := (Source.layer index projection .weight).shardOffset sizes with hoff
  set size := (Source.layer index projection .weight).shardSize sizes with hsz
  have hrow : offset + j - offset + rank * size = rank * size + j := by omega
  simp only [ColumnParallelLinear.forward, linear, TextWeights.project, hshape, hin]
  congr 1
  · refine Finset.sum_congr rfl fun i _ => ?_
    have hmem : (Source.layer index projection .weight).InShard sizes [offset + j, i] := by
      simp only [Source.InShard, hdim, List.getD_cons_zero, ← hoff, ← hsz]
      omega
    rw [hweight _ hmem, Source.shardEntry, hdim, ← hoff, ← hsz]
    simp only [Source.tensor, List.modify_zero_cons, List.getD_cons_zero, List.getD_cons_succ,
      hrow]
  · have hmem : (Source.layer index projection .bias).InShard sizes [offset + j] := by
      simp only [Source.InShard, hdim, List.getD_cons_zero, hoffset, hsize]
      omega
    rw [h.bias hindex projection hmem]
    cases hbias : weights.bias index projection.layer with
    | none => rfl
    | some bias =>
      simp only [Option.map_some, Source.shardEntry, hdim, hoffset, hsize, Source.tensor,
        List.modify_zero_cons, List.getD_cons_zero, hrow, hbias]

/-- The product of a rank with its columns of a row-parallel weight. -/
theorem Loaded.row (h : Loaded sizes weights uninitialized rank model)
    (hindex : index < weights.numLayers) {projection : Projection}
    (hrow : projection.shard = none) (hbias : weights.bias index projection.layer = none)
    (x : Token → ℕ → R) (t : Token) (o : ℕ) :
    RowParallelLinear.partialOutput rank model index projection.layer x t o =
      ∑ i ∈ Finset.range ((Source.layer index projection .weight).shardSize sizes),
        x t i * weights.weight index projection o
          (rank * (Source.layer index projection .weight).shardSize sizes + i) := by
  obtain ⟨hshape, hweight⟩ := h.weight hindex projection
  have hdim : (Source.layer index projection .weight).dim = 1 := by
    cases projection <;> first | rfl | exact absurd hrow (by simp [Projection.shard])
  have hoffset : (Source.layer index projection .weight).shardOffset sizes = 0 := by
    cases projection <;> first | rfl | exact absurd hrow (by simp [Projection.shard])
  have hin : (sizes.weightShape projection.layer).getD 1 0 =
      (Source.layer index projection .weight).shardSize sizes := by
    cases projection with
    | o => simp [Projection.layer, ParallelSizes.weightShape, Source.shardSize, sizes.headRows]
    | down =>
      simp [Projection.layer, ParallelSizes.weightShape, Source.shardSize,
        ParallelSizes.localIntermediate]
    | _ => exact absurd hrow (by simp [Projection.shard])
  have hnone := h.noBias hbias
  simp only [RowParallelLinear.partialOutput, linear, hshape, hin, hnone, ite_self,
    Option.map_none, Option.getD_none, add_zero]
  refine Finset.sum_congr rfl fun i hi => ?_
  have hmem : (Source.layer index projection .weight).InShard sizes [o, i] := by
    simp only [Source.InShard, hdim, hoffset, List.getD_cons_succ, List.getD_cons_zero]
    have := Finset.mem_range.mp hi
    omega
  rw [hweight _ hmem, Source.shardEntry, hdim, hoffset]
  simp only [Source.tensor, List.modify_succ_cons, List.modify_zero_cons, List.getD_cons_zero,
    List.getD_cons_succ, Nat.sub_zero, Nat.add_comm i]

end Parts

/-! ### Attention -/

theorem ParallelSizes.localGroups (sizes : ParallelSizes) :
    sizes.numHeads / sizes.numKvHeads = sizes.localHeads / sizes.localKvHeads ∧
      sizes.localKvHeads ∣ sizes.localHeads ∧ 0 < sizes.localKvHeads := by
  have hkv := sizes.world_mul_localKvHeads
  have hheads := sizes.world_mul_localHeads
  have hpos : 0 < sizes.localKvHeads := by
    by_contra hzero
    have hnone : sizes.numKvHeads = 0 := by
      rw [← hkv, Nat.eq_zero_of_not_pos hzero, Nat.mul_zero]
    exact absurd sizes.numKvHeads_pos (by omega)
  refine ⟨?_, ?_, hpos⟩
  · rw [← hheads, ← hkv, Nat.mul_div_mul_left _ _ sizes.worldSize_pos]
  · have hdvd := sizes.groups
    rw [← hheads, ← hkv] at hdvd
    exact Nat.dvd_of_mul_dvd_mul_left sizes.worldSize_pos hdvd

/-- The heads of a rank attend as the run of full heads that starts at `rank * localHeads`. -/
theorem Loaded.attention {rank index : ℕ} {model : ModelParameters R}
    (h : Loaded sizes weights uninitialized rank model) (hindex : index < weights.numLayers)
    (headAttention : (Token → Fin sizes.headDim → R) → (Token → Fin sizes.headDim → R) →
      (Token → Fin sizes.headDim → R) → Token → ℕ → R) (x : Token → ℕ → R) (t : Token) {j : ℕ}
    (hj : j < sizes.localHeads * sizes.headDim) :
    Qwen3VLTextAttention.localOutput sizes model index headAttention x t j =
      groupedAttention sizes.headDim (sizes.numHeads / sizes.numKvHeads) headAttention
        (weights.project sizes index .q x) (weights.project sizes index .k x)
        (weights.project sizes index .v x) t (rank * (sizes.localHeads * sizes.headDim) + j) := by
  obtain ⟨hgroups, hdvd, hkvpos⟩ := sizes.localGroups
  have hdim : 0 < sizes.headDim := Nat.pos_of_ne_zero fun hzero => by
    rw [hzero, Nat.mul_zero] at hj
    omega
  obtain ⟨groups, hlocal⟩ := hdvd
  have hratio : sizes.localHeads / sizes.localKvHeads = groups := by
    rw [hlocal, Nat.mul_div_cancel_left _ hkvpos]
  have hhead : j / sizes.headDim < sizes.localHeads := Nat.div_lt_of_lt_mul (by
    rwa [Nat.mul_comm] at hj)
  have hgroupspos : 0 < groups := Nat.pos_of_ne_zero fun hzero => by
    rw [hzero, Nat.mul_zero] at hlocal
    rw [hlocal] at hhead
    exact absurd hhead (Nat.not_lt_zero _)
  have hkvHead : j / sizes.headDim / groups < sizes.localKvHeads := by
    refine Nat.div_lt_of_lt_mul ?_
    rwa [Nat.mul_comm, ← hlocal]
  have hfullHead : (rank * (sizes.localHeads * sizes.headDim) + j) / sizes.headDim =
      rank * sizes.localHeads + j / sizes.headDim := by
    rw [← Nat.mul_assoc, Nat.mul_comm _ sizes.headDim, Nat.mul_add_div hdim]
  have hmod : (rank * (sizes.localHeads * sizes.headDim) + j) % sizes.headDim =
      j % sizes.headDim := by
    rw [← Nat.mul_assoc, Nat.mul_comm _ sizes.headDim, Nat.mul_add_mod]
  have hfullKv : (rank * sizes.localHeads + j / sizes.headDim) / groups =
      rank * sizes.localKvHeads + j / sizes.headDim / groups := by
    rw [hlocal, ← Nat.mul_assoc, Nat.mul_comm _ groups, Nat.mul_add_div hgroupspos]
  -- a channel of a head stays inside the rows of the rank
  have hchannel : ∀ {heads head : ℕ} (c : Fin sizes.headDim), head < heads →
      head * sizes.headDim + c < heads * sizes.headDim := by
    intro heads head c hlt
    calc head * sizes.headDim + c < head * sizes.headDim + sizes.headDim := by omega
      _ = (head + 1) * sizes.headDim := by ring
      _ ≤ heads * sizes.headDim := Nat.mul_le_mul_right _ hlt
  have hq := @Loaded.column R _ Token sizes weights uninitialized rank index model h hindex .q
    (by simp [Projection.shard]) x
  have hk := @Loaded.column R _ Token sizes weights uninitialized rank index model h hindex .k
    (by simp [Projection.shard]) x
  have hv := @Loaded.column R _ Token sizes weights uninitialized rank index model h hindex .v
    (by simp [Projection.shard]) x
  simp only [Source.shardOffset, Source.shardSize, Projection.layer, Nat.zero_add] at hq hk hv
  simp only [Qwen3VLTextAttention.localOutput, groupedAttention, hgroups, hratio, hfullHead, hmod,
    hfullKv]
  congr 1
  · funext u c
    rw [hq u (hchannel c hhead)]
    congr 1
    ring
  · funext u c
    rw [hk u (hchannel c hkvHead)]
    congr 1
    ring
  · funext u c
    rw [hv u (hchannel c hkvHead)]
    congr 1
    ring

/-- The gated features of a rank are a run of the full ones. -/
theorem Loaded.mlp {rank index : ℕ} {model : ModelParameters R}
    (h : Loaded sizes weights uninitialized rank model) (hindex : index < weights.numLayers)
    (gated : R → R → R) (x : Token → ℕ → R) (t : Token) {j : ℕ}
    (hj : j < sizes.localIntermediate) :
    Qwen3VLTextMLP.localOutput sizes model index gated x t j =
      gated (weights.project sizes index .gate x t (rank * sizes.localIntermediate + j))
        (weights.project sizes index .up x t (rank * sizes.localIntermediate + j)) := by
  have hgate := @Loaded.column R _ Token sizes weights uninitialized rank index model h hindex
    .gate (by simp [Projection.shard]) x t j hj
  have hup := @Loaded.column R _ Token sizes weights uninitialized rank index model h hindex
    .up (by simp [Projection.shard]) x t j hj
  simp only [Source.shardOffset, Source.shardSize, Projection.layer, Nat.zero_add] at hgate hup
  simp only [Qwen3VLTextMLP.localOutput, hgate, hup]

/-- The partial products of the ranks add up to the full product. -/
theorem rowParallel_eq {index : ℕ} {models : ℕ → ModelParameters R}
    {blank : ℕ → Target → List ℕ → R}
    (h : ∀ rank < sizes.worldSize, Loaded sizes weights (blank rank) rank (models rank))
    (hindex : index < weights.numLayers) (projection : Projection)
    (hrow : projection.shard = none) (hbias : weights.bias index projection.layer = none)
    {xs : ℕ → Token → ℕ → R} {full : Token → ℕ → R}
    (hxs : ∀ rank < sizes.worldSize, ∀ t,
      ∀ j < (Source.layer index projection .weight).shardSize sizes,
        xs rank t j =
          full t (rank * (Source.layer index projection .weight).shardSize sizes + j))
    (hin : sizes.worldSize * (Source.layer index projection .weight).shardSize sizes =
      sizes.inSize projection) {rank : ℕ} (hrank : rank < sizes.worldSize) (t : Token) (o : ℕ) :
    RowParallelLinear.forward sizes.worldSize models index projection.layer xs rank t o =
      weights.project sizes index projection full t o := by
  have hpart : ∀ r < sizes.worldSize,
      RowParallelLinear.partialOutput r (models r) index projection.layer (xs r) t o =
        ∑ i ∈ Finset.range ((Source.layer index projection .weight).shardSize sizes),
          full t (r * (Source.layer index projection .weight).shardSize sizes + i) *
            weights.weight index projection o
              (r * (Source.layer index projection .weight).shardSize sizes + i) := by
    intro r hr
    rw [(h r hr).row hindex hrow hbias]
    refine Finset.sum_congr rfl fun i hi => ?_
    rw [hxs r hr t i (Finset.mem_range.mp hi)]
  have hfull : weights.project sizes index projection full t o =
      ∑ r ∈ Finset.range sizes.worldSize,
        RowParallelLinear.partialOutput r (models r) index projection.layer (xs r) t o := by
    simp only [TextWeights.project, hbias, Option.map_none, Option.getD_none, add_zero, ← hin]
    rw [sum_blocks]
    exact Finset.sum_congr rfl fun r hr => (hpart r (Finset.mem_range.mp hr)).symm
  rw [RowParallelLinear.forward, hfull]
  by_cases hone : 1 < sizes.worldSize
  · rw [if_pos hone]
    rfl
  · have hw : sizes.worldSize = 1 := by omega
    have hr : rank = 0 := by omega
    rw [if_neg hone, hw, Finset.sum_range_one, hr]

/-! ### Vocabulary embedding -/

theorem Loaded.embed {rank : ℕ} {model : ModelParameters R}
    (h : Loaded sizes weights uninitialized rank model) {token : ℕ}
    (htoken : token < sizes.localVocab) (c : ℕ) :
    ((model embedName).elim 0 fun param => param.data.entry [token, c]) =
      weights.embed (rank * sizes.localVocab + token) c := by
  have hmem : Source.embed ∈ weights.sources := List.mem_cons_self
  obtain ⟨param, hparam, -, -⟩ := h.params _ (target_mem weights hmem)
  have hin : Source.embed.InShard sizes [token, c] := by
    simp only [Source.InShard, Source.shardOffset, Source.shardSize, Source.dim,
      List.getD_cons_zero]
    omega
  have hentry := h.shards _ hmem param hparam _ hin
  simp only [Source.target, Target.name] at hparam
  rw [hparam, Option.elim_some, hentry]
  simp only [Source.shardEntry, Source.tensor, Source.dim, Source.shardOffset, Source.shardSize,
    List.modify_zero_cons, List.getD_cons_zero, List.getD_cons_succ, Nat.sub_zero]
  rw [Nat.add_comm]

/-- One rank looks the token up; the others contribute zero. -/
theorem Loaded.embed_oneRank {rank : ℕ} {model : ModelParameters R}
    (h : Loaded sizes weights uninitialized rank model) (hworld : 1 < sizes.worldSize)
    {token : ℕ} (hpos : 0 < sizes.localVocab) (c : ℕ) :
    VocabParallelEmbedding.partialOutput sizes rank model token c =
      if rank = token / sizes.localVocab then weights.embed token c else 0 := by
  simp only [VocabParallelEmbedding.partialOutput, if_pos hworld]
  have hsplit := Nat.div_add_mod token sizes.localVocab
  have hlt := Nat.mod_lt token hpos
  by_cases howner : rank = token / sizes.localVocab
  · have hmask : (sizes.localVocab : ℤ) * rank ≤ token ∧
        (token : ℤ) < (sizes.localVocab : ℤ) * rank + sizes.localVocab := by
      rw [howner]
      constructor <;> norm_cast <;> omega
    have hrow : ((token : ℤ) - (sizes.localVocab : ℤ) * rank).toNat =
        token % sizes.localVocab := by
      rw [howner]
      have hcast : (token : ℤ) - (sizes.localVocab : ℤ) * ((token / sizes.localVocab : ℕ) : ℤ) =
          ((token % sizes.localVocab : ℕ) : ℤ) := by
        have : ((sizes.localVocab * (token / sizes.localVocab) + token % sizes.localVocab : ℕ) : ℤ)
            = (token : ℤ) := by rw [hsplit]
        push_cast at this ⊢
        omega
      rw [hcast, Int.toNat_natCast]
    rw [if_pos hmask, if_pos howner, one_mul, hrow, h.embed hlt c, howner,
      Nat.mul_comm (token / sizes.localVocab), hsplit]
    simp
  · have hmask : ¬ ((sizes.localVocab : ℤ) * rank ≤ token ∧
        (token : ℤ) < (sizes.localVocab : ℤ) * rank + sizes.localVocab) := by
      rintro ⟨hle, hlt'⟩
      norm_cast at hle hlt'
      refine howner ((Nat.div_eq_of_lt_le ?_ ?_).symm)
      · rwa [Nat.mul_comm]
      · rwa [Nat.succ_mul, Nat.mul_comm rank]
    rw [if_neg hmask, if_neg howner]
    simp

theorem embedding_eq {models : ℕ → ModelParameters R} {blank : ℕ → Target → List ℕ → R}
    (h : ∀ rank < sizes.worldSize, Loaded sizes weights (blank rank) rank (models rank))
    {token : ℕ} (htoken : token < sizes.vocabSize) {rank : ℕ} (hrank : rank < sizes.worldSize)
    (c : ℕ) : VocabParallelEmbedding.forward sizes models token rank c = weights.embed token c := by
  have hvocab := sizes.world_mul_localVocab
  have hpos : 0 < sizes.localVocab := Nat.pos_of_ne_zero fun hzero => by
    rw [hzero, Nat.mul_zero] at hvocab
    omega
  have howner : token / sizes.localVocab < sizes.worldSize := by
    refine Nat.div_lt_of_lt_mul ?_
    rw [Nat.mul_comm, hvocab]
    exact htoken
  rw [VocabParallelEmbedding.forward]
  by_cases hworld : 1 < sizes.worldSize
  · rw [if_pos hworld, Finset.sum_eq_single_of_mem _ (Finset.mem_range.mpr howner)]
    · rw [(h _ howner).embed_oneRank hworld hpos, if_pos rfl]
    · intro r hr hne
      rw [(h r (Finset.mem_range.mp hr)).embed_oneRank hworld hpos, if_neg hne]
  · have hw : sizes.worldSize = 1 := by omega
    have hr : rank = 0 := by omega
    rw [hw, Nat.one_mul] at hvocab
    rw [if_neg hworld, VocabParallelEmbedding.partialOutput, if_neg hworld, if_neg hworld,
      Int.toNat_natCast, (h rank hrank).embed (by omega) c, hr, Nat.zero_mul, Nat.zero_add]

end Equal

/-! ### The sharded decoder -/

/-- A checkpoint tensor resolves to this packed parameter, and the rows that the loader of the
parameter writes for it on the rank contain `row`. -/
def writesRow (sizes : ParallelSizes) (rank index : ℕ) (module : ParallelLinear) (part : Part)
    (row : ℕ) (s : Source) : Bool :=
  let resolved := resolve packedModulesMapping s.name
  decide (resolved.1 = (Target.layer index module part).name) &&
    match resolved.2.bind ((sizes.loader module).shardRange ⟨rank, sizes.worldSize⟩) with
    | some (offset, size) => decide (offset ≤ row ∧ row < offset + size)
    | none => false

/-- The layers whose parameter packs several projections. -/
def ParallelLinear.Packed : ParallelLinear → Prop
  | .qkv | .gateUp => True
  | .o | .down => False

section Claim

variable {R : Type} [Semiring R] {Token : Type} (sizes : ParallelSizes) (weights : TextWeights R)

/-- On every rank the checkpoint loads, every row of every packed parameter is written by
exactly one of its tensors, and the sharded modules compute the unsharded ones. -/
def ShardingExact (blank : ℕ → Target → List ℕ → R) (order : List Source)
    (headAttention : (Token → Fin sizes.headDim → R) → (Token → Fin sizes.headDim → R) →
      (Token → Fin sizes.headDim → R) → Token → ℕ → R) (gated : R → R → R) : Prop :=
  ∃ models : ℕ → ModelParameters R, ∀ rank < sizes.worldSize,
    loadModel ⟨rank, sizes.worldSize⟩ packedModulesMapping
        (initialModel sizes weights (blank rank)) (checkpoint sizes weights order) =
      .ok (models rank) ∧
    (∀ index < weights.numLayers, ∀ module : ParallelLinear, module.Packed → ∀ part,
      weights.hasPart index module part = true → ∀ row < (sizes.weightShape module).getD 0 0,
        (order.filter (writesRow sizes rank index module part row)).length = 1) ∧
    (∀ index < weights.numLayers, ∀ (x : Token → ℕ → R) t o,
      Qwen3VLTextAttention.forward sizes models index headAttention x rank t o =
        weights.attention sizes index headAttention x t o) ∧
    (∀ index < weights.numLayers, ∀ (x : Token → ℕ → R) t o,
      Qwen3VLTextMLP.forward sizes models index gated x rank t o =
        weights.mlp sizes index gated x t o) ∧
    ∀ token < sizes.vocabSize, ∀ c,
      VocabParallelEmbedding.forward sizes models token rank c = weights.embed token c

variable {sizes weights}

theorem writesRow_iff {rank index : ℕ} {projection : Projection} {part part' : Part} {i row : ℕ}
    {module : ParallelLinear} (hpacked : module.Packed) :
    writesRow sizes rank index module part row (.layer i projection part') = true ↔
      i = index ∧ projection.layer = module ∧ part' = part ∧
        (Source.layer i projection part').shardOffset sizes ≤ row ∧
        row < (Source.layer i projection part').shardOffset sizes +
          (Source.layer i projection part').shardSize sizes := by
  simp only [writesRow, resolve_name, Bool.and_eq_true, decide_eq_true_eq,
    Target.name_injective.eq_iff, Source.target, Target.layer.injEq, and_assoc]
  refine and_congr_right fun hi => and_congr_right fun hlayer => and_congr_right fun hpart => ?_
  subst hlayer
  cases projection
  all_goals first
    | exact hpacked.elim
    | simp [Source.shard, Projection.shard, Projection.layer, ParallelSizes.loader,
        WeightLoader.shardRange, QKVParallelLinear.shardRange,
        MergedColumnParallelLinear.shardRange, Source.shardOffset, Source.shardSize,
        ParallelSizes.localIntermediate]

/-- Every row of a packed parameter lies in the shard of one projection. -/
theorem exists_projection {module : ParallelLinear} (hpacked : module.Packed) (index : ℕ)
    (part : Part) {row : ℕ} (hrow : row < (sizes.weightShape module).getD 0 0) :
    ∃ projection : Projection, projection.layer = module ∧
      (Source.layer index projection part).shardOffset sizes ≤ row ∧
      row < (Source.layer index projection part).shardOffset sizes +
        (Source.layer index projection part).shardSize sizes := by
  cases module with
  | qkv =>
    rw [ParallelSizes.weightShape, List.getD_cons_zero, sizes.qkvRows] at hrow
    simp only [Nat.add_mul, Nat.mul_assoc] at hrow
    by_cases hq : row < sizes.localHeads * sizes.headDim
    · exact ⟨.q, rfl, Nat.zero_le _, by simpa [Source.shardOffset, Source.shardSize] using hq⟩
    · by_cases hk : row < sizes.localHeads * sizes.headDim + sizes.localKvHeads * sizes.headDim
      · exact ⟨.k, rfl, by simpa [Source.shardOffset] using hq,
          by simpa [Source.shardOffset, Source.shardSize] using hk⟩
      · refine ⟨.v, rfl, by simpa [Source.shardOffset] using hk, ?_⟩
        simp only [Source.shardOffset, Source.shardSize]
        omega
  | gateUp =>
    simp only [ParallelSizes.weightShape, List.getD_cons_zero, sizes.gateUpRows] at hrow
    by_cases hg : row < sizes.localIntermediate
    · exact ⟨.gate, rfl, Nat.zero_le _, by simpa [Source.shardOffset, Source.shardSize] using hg⟩
    · refine ⟨.up, rfl, by simpa [Source.shardOffset] using hg, ?_⟩
      simp only [Source.shardOffset, Source.shardSize]
      omega
  | o => exact hpacked.elim
  | down => exact hpacked.elim

theorem length_filter_one {α : Type*} {l : List α} (hn : l.Nodup) {p : α → Bool} {a : α}
    (ha : a ∈ l) (hp : p a = true) (hunique : ∀ b ∈ l, p b = true → b = a) :
    (l.filter p).length = 1 := by
  have hfilter : l.filter p = [a] := by
    refine List.perm_singleton.mp ((List.perm_ext_iff_of_nodup (hn.filter _) (by simp)).mpr ?_)
    intro b
    rw [List.mem_filter, List.mem_singleton]
    constructor
    · exact fun ⟨hb, hpb⟩ => hunique b hb hpb
    · rintro rfl
      exact ⟨ha, hp⟩
  rw [hfilter]
  rfl

omit [Semiring R] in
/-- Every row of every packed parameter is written by exactly one checkpoint tensor. -/
theorem row_written_once {order : List Source} (horder : order.Perm weights.sources) {rank : ℕ}
    {index : ℕ} (hindex : index < weights.numLayers) {module : ParallelLinear}
    (hpacked : module.Packed) {part : Part} (hpart : weights.hasPart index module part = true)
    {row : ℕ} (hrow : row < (sizes.weightShape module).getD 0 0) :
    (order.filter (writesRow sizes rank index module part row)).length = 1 := by
  obtain ⟨projection, rfl, hlow, hhigh⟩ := exists_projection hpacked index part hrow
  have hn := horder.nodup_iff.mpr (sources_nodup weights)
  have hmem := horder.mem_iff.mpr ((mem_sources weights).mpr ⟨hindex, hpart⟩)
  refine length_filter_one hn hmem ((writesRow_iff hpacked).mpr ⟨rfl, rfl, rfl, hlow, hhigh⟩)
    fun s _ hs => ?_
  cases s with
  | embed =>
    simp only [writesRow, resolve_name, Bool.and_eq_true, decide_eq_true_eq,
      Target.name_injective.eq_iff, Source.target] at hs
    exact absurd hs.1 (by simp)
  | layer i other part' =>
    obtain ⟨rfl, hlayer, rfl, hlow', hhigh'⟩ := (writesRow_iff hpacked).mp hs
    by_contra hne
    have hin : ∀ p : Projection, projection.layer.Packed → p.layer = projection.layer →
        (Source.layer i p part').dim = 0 := by
      intro p hpack hp
      rw [← hp] at hpack
      refine Source.dim_of_packed ?_
      cases p with
      | o => exact hpack.elim
      | down => exact hpack.elim
      | _ => simp [Source.shard, Projection.shard]
    have hother : (Source.layer i other part').InShard sizes [row] := by
      simp only [Source.InShard, hin other hpacked hlayer, List.getD_cons_zero]
      exact ⟨hlow', hhigh'⟩
    refine (Source.disjoint sizes (t := .layer i projection part') ?_ hne hother).2 ?_
    · simp only [Source.target, hlayer]
    · simp only [Source.InShard, hin projection hpacked rfl, List.getD_cons_zero]
      exact ⟨hlow, hhigh⟩

theorem shardingExact_of_noRowBias {order : List Source} (horder : order.Perm weights.sources)
    (blank : ℕ → Target → List ℕ → R)
    (headAttention : (Token → Fin sizes.headDim → R) → (Token → Fin sizes.headDim → R) →
      (Token → Fin sizes.headDim → R) → Token → ℕ → R) (gated : R → R → R)
    (hbias : ∀ index < weights.numLayers,
      weights.bias index .o = none ∧ weights.bias index .down = none) :
    ShardingExact sizes weights blank order headAttention gated := by
  have hall : ∀ s ∈ order, s ∈ weights.sources ∧ ¬ s.IsRowBias := by
    intro s hs
    have hmem := horder.mem_iff.mp hs
    refine ⟨hmem, fun hrow => ?_⟩
    cases s with
    | embed => exact hrow
    | layer index projection part =>
      obtain ⟨hindex, hpart⟩ := (mem_sources weights).mp hmem
      obtain ⟨ho, hdown⟩ := hbias index hindex
      cases projection <;> cases part
      all_goals first
        | exact hrow
        | simp [TextWeights.hasPart, Projection.layer, ho, hdown] at hpart
  have hrun : ∀ rank, ∃ model, rank < sizes.worldSize →
      loadModel ⟨rank, sizes.worldSize⟩ packedModulesMapping
        (initialModel sizes weights (blank rank)) (checkpoint sizes weights order) = .ok model ∧
      Loaded sizes weights (blank rank) rank model := by
    intro rank
    by_cases hrank : rank < sizes.worldSize
    · obtain ⟨model, hload, hloaded⟩ :=
        (initialModel_loaded sizes weights (blank rank) rank).run hrank hall
      refine ⟨model, fun _ => ⟨hload, hloaded.params, hloaded.others, fun s hs => ?_⟩⟩
      exact hloaded.shards s (by simpa using horder.mem_iff.mpr hs)
    · exact ⟨fun _ => none, fun h => absurd h hrank⟩
  choose models hmodels using hrun
  have hloaded : ∀ rank < sizes.worldSize, Loaded sizes weights (blank rank) rank (models rank) :=
    fun rank hrank => (hmodels rank hrank).2
  refine ⟨models, fun rank hrank => ⟨(hmodels rank hrank).1, ?_, ?_, ?_, ?_⟩⟩
  · intro index hindex module hpacked part hpart row hrow
    exact row_written_once horder hindex hpacked hpart hrow
  · intro index hindex x t o
    have hin : sizes.worldSize * (sizes.localHeads * sizes.headDim) =
        sizes.numHeads * sizes.headDim := by
      rw [← Nat.mul_assoc, sizes.world_mul_localHeads]
    exact rowParallel_eq hloaded hindex .o rfl (hbias index hindex).1
      (fun r hr u j hj => (hloaded r hr).attention hindex headAttention x u hj) hin hrank t o
  · intro index hindex x t o
    exact rowParallel_eq hloaded hindex .down rfl (hbias index hindex).2
      (fun r hr u j hj => (hloaded r hr).mlp hindex gated x u hj)
      sizes.world_mul_localIntermediate hrank t o
  · intro token htoken c
    exact embedding_eq hloaded htoken hrank c

theorem noRowBias_of_shardingExact {order : List Source} (horder : order.Perm weights.sources)
    {blank : ℕ → Target → List ℕ → R}
    {headAttention : (Token → Fin sizes.headDim → R) → (Token → Fin sizes.headDim → R) →
      (Token → Fin sizes.headDim → R) → Token → ℕ → R} {gated : R → R → R}
    (h : ShardingExact sizes weights blank order headAttention gated) :
    ∀ index < weights.numLayers,
      weights.bias index .o = none ∧ weights.bias index .down = none := by
  obtain ⟨models, hmodels⟩ := h
  have hload := (hmodels 0 sizes.worldSize_pos).1
  intro index hindex
  have hnone : ∀ projection : Projection, (Source.layer index projection .bias).IsRowBias →
      weights.bias index projection.layer = none := by
    intro projection hrow
    by_contra hsome
    have hmem : Source.layer index projection .bias ∈ weights.sources := by
      refine (mem_sources weights).mpr ⟨hindex, ?_⟩
      simpa [TextWeights.hasPart, Option.isSome_iff_ne_none] using hsome
    exact loadModel_rowBias hrow (horder.mem_iff.mpr hmem) (fun t ht => horder.mem_iff.mp ht)
      sizes.worldSize_pos (models 0) hload
  exact ⟨hnone .o trivial, hnone .down trivial⟩

/-- The sharded decoder loads and computes the unsharded one exactly when no row-parallel
layer has a bias: the loader of such a layer narrows the bias along a dimension that it does
not have. -/
theorem shardingExact_iff {order : List Source} (horder : order.Perm weights.sources)
    (blank : ℕ → Target → List ℕ → R)
    (headAttention : (Token → Fin sizes.headDim → R) → (Token → Fin sizes.headDim → R) →
      (Token → Fin sizes.headDim → R) → Token → ℕ → R) (gated : R → R → R) :
    ShardingExact sizes weights blank order headAttention gated ↔
      ∀ index < weights.numLayers,
        weights.bias index .o = none ∧ weights.bias index .down = none :=
  ⟨noRowBias_of_shardingExact horder,
    shardingExact_of_noRowBias horder blank headAttention gated⟩

end Claim

section Instances

/-- One layer with two heads on two ranks. -/
def twoRanks : ParallelSizes where
  worldSize := 2
  numHeads := 2
  numKvHeads := 2
  headDim := 1
  hiddenSize := 1
  intermediateSize := 2
  vocabSize := 2
  worldSize_pos := Nat.two_pos
  numKvHeads_pos := Nat.two_pos
  divides_heads := by decide
  divides_kvHeads := by decide
  divides_intermediate := by decide
  divides_vocab := by decide
  groups := by decide

/-- Weights that tell their projections and rows apart, with a bias where `biased` says so. -/
def oneLayer (biased : ParallelLinear → Bool) : TextWeights ℤ where
  numLayers := 1
  embed := fun row c => row + c
  weight := fun _ projection o i => if projection = .v then o - i else o + i + 1
  bias := fun _ module => if biased module then some fun _ o => o + 5 else none

/-- The sharded decoder with biased packed projections is exact. -/
theorem shardingExact_iff_oneLayer :
    ShardingExact twoRanks (oneLayer fun module => module = .qkv) (fun _ _ _ => 0)
      (oneLayer fun module => module = .qkv).sources
      (fun (q k v : Fin 2 → Fin 1 → ℤ) t _ => q t 0 * k t 0 + v t 0) (· * ·) :=
  (shardingExact_iff (List.Perm.refl _) _ _ _).mpr fun _ _ => ⟨rfl, rfl⟩

/-- With a bias of the output projection the checkpoint does not load. -/
theorem shardingExact_rowBias :
    ¬ ShardingExact twoRanks (oneLayer fun module => module = .o) (fun _ _ _ => 0)
      (oneLayer fun module => module = .o).sources
      (fun (q k v : Fin 2 → Fin 1 → ℤ) t _ => q t 0 * k t 0 + v t 0) (· * ·) := fun h =>
  absurd (noRowBias_of_shardingExact (List.Perm.refl _) h 0 (by decide)).1
    (by simp [oneLayer])

end Instances

end PrismInfer
