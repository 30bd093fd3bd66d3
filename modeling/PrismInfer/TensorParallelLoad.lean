import PrismInfer.TensorParallel

/-!
# What the checkpoint loader leaves on a rank

Checkpoint names resolve to the parameters of the model, and a load writes exactly the rows
of its projection. Over the whole checkpoint, in any order, every parameter holds the shard
of its rank.
-/
namespace PrismInfer

open StateExcept

/-! ### Names -/

theorem ne_of_mem_digits {index : ℕ} {c d : Char} (hc : c ∈ Nat.toDigits 10 index)
    (hd : d.isDigit = false) : c ≠ d := by
  rintro rfl
  have hdigit := Nat.isDigit_of_mem_toDigits (by decide) (by decide) hc
  rw [hdigit] at hd
  exact Bool.noConfusion hd

/-- No key of the mapping starts in front of the module. -/
theorem contains_digits {k : Char} (ks : Name) {digits : List Char} (h : ∀ c ∈ digits, c ≠ k)
    (rest : Name) : contains (k :: ks) (digits ++ rest) = contains (k :: ks) rest := by
  induction digits with
  | nil => rfl
  | cons c digits ih =>
    have hc : (k == c) = false := by
      simpa using (h c List.mem_cons_self).symm
    rw [List.cons_append, contains, List.isPrefixOf, hc, Bool.false_and, Bool.false_or]
    exact ih fun d hd => h d (List.mem_cons_of_mem c hd)

theorem replaceFrom_digits {k : Char} (ks value : Name) {digits : List Char}
    (h : ∀ c ∈ digits, c ≠ k) (rest : Name) :
    replaceFrom (k :: ks) value 0 (digits ++ rest) =
      digits ++ replaceFrom (k :: ks) value 0 rest := by
  induction digits with
  | nil => rfl
  | cons c digits ih =>
    have hc : (k == c) = false := by
      simpa using (h c List.mem_cons_self).symm
    rw [List.cons_append, replaceFrom, List.isPrefixOf, hc, Bool.false_and]
    simp only [Bool.false_eq_true, if_false, List.cons_append]
    rw [ih fun d hd => h d (List.mem_cons_of_mem c hd)]

/-- A key that starts with a letter and does not start inside the common prefix of the
layers is found, and replaced, behind the layer index only. -/
def Behind (key : Name) : Prop :=
  ∃ k ks, key = k :: ks ∧ k.isDigit = false ∧
    (∀ rest, contains key (layersPath ++ rest) = contains key rest) ∧
    ∀ value rest, replaceFrom key value 0 (layersPath ++ rest) =
      layersPath ++ replaceFrom key value 0 rest

theorem Behind.contains {key : Name} (h : Behind key) (index : ℕ) (rest : Name) :
    contains key (layersPath ++ Nat.toDigits 10 index ++ rest) = PrismInfer.contains key rest := by
  obtain ⟨k, ks, rfl, hk, hlead, -⟩ := h
  rw [List.append_assoc, hlead,
    contains_digits ks fun c hc => ne_of_mem_digits hc hk]

theorem Behind.replace {key : Name} (h : Behind key) (value : Name) (index : ℕ) (rest : Name) :
    replaceFrom key value 0 (layersPath ++ Nat.toDigits 10 index ++ rest) =
      layersPath ++ Nat.toDigits 10 index ++ replaceFrom key value 0 rest := by
  obtain ⟨k, ks, rfl, hk, -, hlead⟩ := h
  rw [List.append_assoc, hlead,
    replaceFrom_digits ks value fun c hc => ne_of_mem_digits hc hk, List.append_assoc]

theorem mapping_behind : ∀ entry ∈ packedModulesMapping, Behind entry.1 := by
  intro entry h
  simp only [packedModulesMapping, List.mem_cons, List.not_mem_nil, or_false] at h
  rcases h with rfl | rfl | rfl | rfl | rfl
  all_goals exact ⟨_, _, rfl, by decide, fun _ => rfl, fun _ _ => rfl⟩

theorem find_congr {α : Type*} {p q : α → Bool} {l : List α} (h : ∀ a ∈ l, p a = q a) :
    l.find? p = l.find? q := by
  induction l with
  | nil => rfl
  | cons a l ih =>
    rw [List.find?_cons, List.find?_cons, h a List.mem_cons_self,
      ih fun b hb => h b (List.mem_cons_of_mem a hb)]

/-- Resolving a layer's name resolves what stands behind the layer index. -/
theorem resolve_layerPrefix (index : ℕ) (rest : Name) :
    resolve packedModulesMapping (layersPath ++ Nat.toDigits 10 index ++ rest) =
      (layersPath ++ Nat.toDigits 10 index ++ (resolve packedModulesMapping rest).1,
        (resolve packedModulesMapping rest).2) := by
  have hfind : (packedModulesMapping.find? fun entry =>
      contains entry.1 (layersPath ++ Nat.toDigits 10 index ++ rest)) =
        packedModulesMapping.find? fun entry => contains entry.1 rest :=
    find_congr fun entry he => (mapping_behind entry he).contains index rest
  rw [resolve, resolve, hfind]
  cases hget : packedModulesMapping.find? fun entry => contains entry.1 rest with
  | none => rfl
  | some entry =>
    obtain ⟨key, value, shard⟩ := entry
    have hbehind := mapping_behind _ (List.mem_of_find?_eq_some hget)
    simp only [hbehind.replace value index rest]

/-- Every checkpoint tensor resolves to its parameter and shard id. -/
theorem resolve_name (s : Source) :
    resolve packedModulesMapping s.name = (s.target.name, s.shard) := by
  cases s with
  | embed => rfl
  | layer index projection part =>
    have hpath : resolve packedModulesMapping (partPath projection.path part.path) =
        (partPath projection.layer.path part.path, projection.shard) := by
      cases projection <;> cases part <;> rfl
    simp only [Source.name, Source.target, Source.shard, Target.name, layerName,
      resolve_layerPrefix, hpath]

theorem takeWhile_digits (index : ℕ) (rest : Name) :
    (Nat.toDigits 10 index ++ '.' :: rest).takeWhile (· ≠ '.') = Nat.toDigits 10 index := by
  rw [List.takeWhile_append_of_pos]
  · simp
  · intro c hc
    simpa using ne_of_mem_digits hc (by decide)

theorem layerName_inj {i j : ℕ} {m n p q : String} (h : layerName i m p = layerName j n q) :
    i = j ∧ partPath m p = partPath n q := by
  simp only [layerName, List.append_assoc] at h
  have hrest := List.append_cancel_left h
  have hdigits : Nat.toDigits 10 i = Nat.toDigits 10 j := by
    rw [← takeWhile_digits i, ← takeWhile_digits j]
    exact congrArg _ hrest
  have hij : i = j := by
    rw [← @Nat.ofDigitChars_ten_toDigits i, hdigits, Nat.ofDigitChars_ten_toDigits]
  subst hij
  exact ⟨rfl, List.append_cancel_left hrest⟩

theorem embedName_ne (index : ℕ) (module part : String) :
    embedName ≠ layerName index module part := by
  intro h
  have hlayer : (layerName index module part)[21]? = some 'l' := by
    rw [layerName, List.append_assoc, List.getElem?_append_left (by decide)]
    decide
  rw [← h] at hlayer
  exact absurd hlayer (by decide)

theorem partPath_injective (m n : ParallelLinear) (p q : Part)
    (h : partPath m.path p.path = partPath n.path q.path) : m = n ∧ p = q := by
  cases m <;> cases n <;> cases p <;> cases q <;>
    first | exact ⟨rfl, rfl⟩ | exact absurd h (by decide)

theorem Target.name_injective : Function.Injective Target.name := by
  intro s t h
  cases s with
  | embed =>
    cases t with
    | embed => rfl
    | layer index module part => exact absurd h (embedName_ne index module.path part.path)
  | layer index module part =>
    cases t with
    | embed => exact absurd h.symm (embedName_ne index module.path part.path)
    | layer index' module' part' =>
      obtain ⟨rfl, hpath⟩ := layerName_inj h
      obtain ⟨rfl, rfl⟩ := partPath_injective module module' part part' hpath
      rfl

/-! ### Shards -/

namespace ParallelSizes

variable (sizes : ParallelSizes)

theorem world_mul_localHeads : sizes.worldSize * sizes.localHeads = sizes.numHeads :=
  Nat.mul_div_cancel' sizes.divides_heads

theorem world_mul_localKvHeads : sizes.worldSize * sizes.localKvHeads = sizes.numKvHeads :=
  Nat.mul_div_cancel' sizes.divides_kvHeads

theorem world_mul_localIntermediate :
    sizes.worldSize * sizes.localIntermediate = sizes.intermediateSize :=
  Nat.mul_div_cancel' sizes.divides_intermediate

theorem world_mul_localVocab : sizes.worldSize * sizes.localVocab = sizes.vocabSize :=
  Nat.mul_div_cancel' sizes.divides_vocab

theorem qkvRows : (sizes.numHeads + 2 * sizes.numKvHeads) * sizes.headDim / sizes.worldSize =
    (sizes.localHeads + 2 * sizes.localKvHeads) * sizes.headDim := by
  rw [← sizes.world_mul_localHeads, ← sizes.world_mul_localKvHeads]
  have hfactor : (sizes.worldSize * sizes.localHeads +
      2 * (sizes.worldSize * sizes.localKvHeads)) * sizes.headDim =
        sizes.worldSize * ((sizes.localHeads + 2 * sizes.localKvHeads) * sizes.headDim) := by
    ring
  rw [hfactor, Nat.mul_div_cancel_left _ sizes.worldSize_pos]

theorem headRows : sizes.numHeads * sizes.headDim / sizes.worldSize =
    sizes.localHeads * sizes.headDim := by
  rw [← sizes.world_mul_localHeads, Nat.mul_assoc,
    Nat.mul_div_cancel_left _ sizes.worldSize_pos]

theorem gateUpRows : (sizes.intermediateSize + sizes.intermediateSize) / sizes.worldSize =
    sizes.localIntermediate + sizes.localIntermediate := by
  rw [← sizes.world_mul_localIntermediate, ← Nat.mul_add,
    Nat.mul_div_cancel_left _ sizes.worldSize_pos]

end ParallelSizes

namespace Source

/-- The dimension along which a checkpoint tensor is sharded. -/
def dim : Source → ℕ
  | .layer _ .o .weight | .layer _ .down .weight => 1
  | _ => 0

/-- Where the shard of a checkpoint tensor starts in its parameter. -/
def shardOffset (sizes : ParallelSizes) : Source → ℕ
  | .layer _ .k _ => sizes.localHeads * sizes.headDim
  | .layer _ .v _ => sizes.localHeads * sizes.headDim + sizes.localKvHeads * sizes.headDim
  | .layer _ .up _ => sizes.localIntermediate
  | _ => 0

/-- How many rows or columns it takes there. -/
def shardSize (sizes : ParallelSizes) : Source → ℕ
  | .embed => sizes.localVocab
  | .layer _ .q _ | .layer _ .o _ => sizes.localHeads * sizes.headDim
  | .layer _ .k _ | .layer _ .v _ => sizes.localKvHeads * sizes.headDim
  | .layer _ .gate _ | .layer _ .up _ | .layer _ .down _ => sizes.localIntermediate

/-- The size of its parameter along the sharded dimension. -/
def paramSize (sizes : ParallelSizes) : Source → ℕ
  | .embed => sizes.localVocab
  | .layer _ .q _ | .layer _ .k _ | .layer _ .v _ =>
    (sizes.localHeads + 2 * sizes.localKvHeads) * sizes.headDim
  | .layer _ .o _ => sizes.localHeads * sizes.headDim
  | .layer _ .gate _ | .layer _ .up _ => sizes.localIntermediate + sizes.localIntermediate
  | .layer _ .down _ => sizes.localIntermediate

/-- Packed tensors are sharded by rows. -/
theorem dim_of_packed {s : Source} (h : s.shard ≠ none) : s.dim = 0 := by
  cases s with
  | embed => rfl
  | layer index projection part =>
    cases projection <;> cases part
    all_goals first
      | rfl
      | exact absurd rfl h

/-- The index lies in the shard of the tensor. -/
def InShard (sizes : ParallelSizes) (s : Source) (idx : List ℕ) : Prop :=
  s.shardOffset sizes ≤ idx.getD s.dim 0 ∧
    idx.getD s.dim 0 < s.shardOffset sizes + s.shardSize sizes

/-- The bias of a row-parallel layer. -/
def IsRowBias : Source → Prop
  | .layer _ .o .bias | .layer _ .down .bias => True
  | _ => False

/-- What the shard holds at an index. -/
def shardEntry {R : Type} [Zero R] (sizes : ParallelSizes) (weights : TextWeights R) (rank : ℕ)
    (s : Source) (idx : List ℕ) : R :=
  (s.tensor sizes weights).entry
    ((idx.modify s.dim (· - s.shardOffset sizes)).modify s.dim (· + rank * s.shardSize sizes))

/-- Tensors that share a parameter are packed next to each other. -/
theorem disjoint (sizes : ParallelSizes) {s t : Source} (htarget : s.target = t.target)
    (hne : s ≠ t) {idx : List ℕ} (hs : s.InShard sizes idx) :
    t.shard.isSome ∧ ¬ t.InShard sizes idx := by
  cases s with
  | embed =>
    cases t with
    | embed => exact absurd rfl hne
    | layer => exact absurd htarget (by simp [target])
  | layer i m p =>
    cases t with
    | embed => exact absurd htarget (by simp [target])
    | layer j n q =>
      simp only [target, Target.layer.injEq] at htarget
      obtain ⟨rfl, hlayer, rfl⟩ := htarget
      have hmn : m ≠ n := by
        rintro rfl
        exact hne rfl
      cases m <;> cases n <;> first
        | exact absurd rfl hmn
        | exact absurd hlayer (by decide)
        | (refine ⟨rfl, ?_⟩
           simp only [InShard, shardOffset, shardSize, dim] at hs ⊢
           omega)

end Source

section Load

variable {R : Type} {g : TPGroup} {param loaded : Tensor R} {tpDim length : ℕ}

theorem liftTensor_ok {x : Except TensorError (Tensor R)} {t : Tensor R} :
    liftTensor x = .ok t ↔ x = .ok t := by
  cases x <;> simp [liftTensor, Except.mapError]

theorem loadShard_ok (hrank : g.tpRank < g.tpSize) (hparam : param.shape[tpDim]? = some length)
    (hloaded : loaded.shape[tpDim]? = some (g.tpSize * length))
    (hshape : param.shape = loaded.shape.set tpDim length) :
    loadShard tpDim g param loaded =
      .ok { param with entry := (loaded.window tpDim (g.tpRank * length) length).entry } := by
  have hend : g.tpRank * length + length ≤ g.tpSize * length := by
    calc g.tpRank * length + length = (g.tpRank + 1) * length := by ring
      _ ≤ g.tpSize * length := Nat.mul_le_mul_right length hrank
  simp only [loadShard, liftTensor_ok, except_bind_ok, Tensor.size_ok, Tensor.copy, ensure_ok,
    except_pure_ok]
  exact ⟨length, hparam, _, Tensor.narrow_ok hloaded hend, (), hshape, rfl⟩

theorem loadPacked_ok (hrank : g.tpRank < g.tpSize) {offset n : ℕ}
    (hparam : param.shape[0]? = some n) (hle : offset + length ≤ n)
    (hloaded : loaded.shape[0]? = some (g.tpSize * length))
    (hshape : param.shape.set 0 length = loaded.shape.set 0 length) :
    loadPacked g param loaded offset length =
      .ok (param.overwrite 0 offset length (loaded.window 0 (g.tpRank * length) length)) := by
  simp only [loadPacked, liftTensor_ok, except_bind_ok]
  exact ⟨_, Tensor.narrow_ok hparam hle, _, Tensor.chunk_ok hrank hloaded,
    Tensor.copyNarrow_ok hparam hle hshape⟩

/-- A vector has no second dimension, so the loader of a row-parallel layer rejects its
bias. -/
theorem rowBias_fails {n : ℕ} (h : param.shape = [n]) (t : Tensor R) :
    RowParallelLinear.weightLoader g param loaded ≠ .ok t := by
  intro hok
  simp only [RowParallelLinear.weightLoader, loadShard, liftTensor_ok, except_bind_ok,
    Tensor.size_ok, h] at hok
  obtain ⟨_, hdim, -⟩ := hok
  exact absurd hdim (by simp)

end Load

section Checkpoint

variable {R : Type} [Zero R] (sizes : ParallelSizes) (weights : TextWeights R)
  (uninitialized : Target → List ℕ → R)

theorem Source.fits (s : Source) :
    s.shardOffset sizes + s.shardSize sizes ≤ s.paramSize sizes ∧
      (s.shard = none → s.shardOffset sizes = 0 ∧ s.paramSize sizes = s.shardSize sizes) := by
  cases s with
  | embed => exact ⟨by simp [shardOffset, shardSize, paramSize], fun _ => ⟨rfl, rfl⟩⟩
  | layer index projection part =>
    refine ⟨?_, fun h => ?_⟩
    · cases projection
      all_goals simp only [shardOffset, shardSize, paramSize, Nat.add_mul, Nat.mul_assoc]
      all_goals omega
    · cases projection
      all_goals first
        | exact ⟨rfl, rfl⟩
        | exact absurd h (by simp [shard, Projection.shard])

/-- The shard of a checkpoint tensor has the shape of the rows it is written to. -/
theorem Source.shapes {s : Source} (hs : ¬ s.IsRowBias) :
    (s.target.parameter sizes uninitialized).data.shape[s.dim]? = some (s.paramSize sizes) ∧
      (s.tensor sizes weights).shape[s.dim]? = some (sizes.worldSize * s.shardSize sizes) ∧
      (s.target.parameter sizes uninitialized).data.shape.set s.dim (s.shardSize sizes) =
        (s.tensor sizes weights).shape.set s.dim (s.shardSize sizes) := by
  have hq := sizes.qkvRows
  have ho := sizes.headRows
  have hgate := sizes.gateUpRows
  have hheads : sizes.worldSize * (sizes.localHeads * sizes.headDim) =
      sizes.numHeads * sizes.headDim := by
    rw [← Nat.mul_assoc, sizes.world_mul_localHeads]
  have hkv : sizes.worldSize * (sizes.localKvHeads * sizes.headDim) =
      sizes.numKvHeads * sizes.headDim := by
    rw [← Nat.mul_assoc, sizes.world_mul_localKvHeads]
  have hinter := sizes.world_mul_localIntermediate
  cases s with
  | embed =>
    exact ⟨rfl, by simp [tensor, dim, shardSize, sizes.world_mul_localVocab], rfl⟩
  | layer index projection part =>
    cases projection <;> cases part
    all_goals first
      | exact absurd trivial hs
      | (refine ⟨?_, ?_, rfl⟩
         · simp [target, Target.parameter, Projection.layer, ParallelSizes.partShape,
             ParallelSizes.weightShape, dim, paramSize, hq, ho, hgate,
             ParallelSizes.localIntermediate]
         · simp [tensor, dim, shardSize, ParallelSizes.outSize, ParallelSizes.inSize, hheads,
             hkv, hinter])

omit [Zero R] in
/-- The loader of a parameter loads the shard of the rank. -/
theorem Source.load_eq {s : Source} (hs : ¬ s.IsRowBias) (g : TPGroup)
    (hsize : g.tpSize = sizes.worldSize) (param loaded : Tensor R) :
    (s.target.parameter sizes uninitialized).loader.load g param loaded s.shard =
      if s.shard = none then loadShard s.dim g param loaded
      else loadPacked g param loaded (s.shardOffset sizes) (s.shardSize sizes) := by
  cases s with
  | embed => rfl
  | layer index projection part =>
    cases projection <;> cases part
    all_goals first
      | exact absurd trivial hs
      | rfl
      | simp [target, Target.parameter, ParallelSizes.loader, Projection.layer, shard,
          Projection.shard, WeightLoader.load, MergedColumnParallelLinear.weightLoader,
          MergedColumnParallelLinear.shardRange, ensure, hsize, shardOffset, shardSize,
          ParallelSizes.localIntermediate, bind, Except.bind]

/-- Loading one tensor writes its shard and, in a packed parameter, nothing else. -/
theorem Source.load_ok {s : Source} (hs : ¬ s.IsRowBias) {rank : ℕ}
    (hrank : rank < sizes.worldSize) {param : Tensor R}
    (hparam : param.shape = (s.target.parameter sizes uninitialized).data.shape) :
    ∃ data, (s.target.parameter sizes uninitialized).loader.load ⟨rank, sizes.worldSize⟩ param
        (s.tensor sizes weights) s.shard = .ok data ∧
      data.shape = param.shape ∧
      (∀ idx, s.InShard sizes idx → data.entry idx = s.shardEntry sizes weights rank idx) ∧
      (s.shard.isSome → ∀ idx, ¬ s.InShard sizes idx → data.entry idx = param.entry idx) := by
  obtain ⟨hsize, hfull, hset⟩ := s.shapes sizes weights uninitialized hs
  obtain ⟨hfit, hplain⟩ := s.fits sizes
  rw [s.load_eq sizes uninitialized hs ⟨rank, sizes.worldSize⟩ rfl]
  cases hshard : s.shard with
  | none =>
    obtain ⟨hoffset, hwhole⟩ := hplain hshard
    have hsize' : param.shape[s.dim]? = some (s.shardSize sizes) := by
      rw [hparam, hsize, hwhole]
    have hshape : param.shape = (s.tensor sizes weights).shape.set s.dim (s.shardSize sizes) := by
      rw [← hset, ← hparam]
      refine List.ext_getElem? fun i => ?_
      rw [List.getElem?_set]
      by_cases hi : s.dim = i
      · subst hi
        have hlt := (List.getElem?_eq_some_iff.mp hsize').1
        rw [if_pos rfl, if_pos hlt, hsize']
      · rw [if_neg hi]
    rw [if_pos rfl]
    refine ⟨_, loadShard_ok hrank hsize' hfull hshape, rfl, fun idx _ => ?_, fun h => nomatch h⟩
    have hid : idx.modify s.dim (· - 0) = idx := List.modify_id _ _
    rw [Source.shardEntry, hoffset, hid]
    rfl
  | some shard =>
    have hdim : s.dim = 0 := Source.dim_of_packed (by simp [hshard])
    rw [hdim] at hsize hfull hset
    rw [if_neg (by simp)]
    refine ⟨_, loadPacked_ok hrank (by rw [hparam, hsize]) hfit hfull (by rw [hparam, hset]), rfl,
      fun idx hidx => ?_, fun _ idx hidx => ?_⟩
    · rw [Source.InShard, hdim] at hidx
      rw [Tensor.overwrite_of_mem _ _ hidx, Source.shardEntry, hdim]
      rfl
    · rw [Source.InShard, hdim] at hidx
      exact Tensor.overwrite_of_notMem _ _ hidx

/-! ### The whole checkpoint -/

omit [Zero R] in
theorem mem_sources {index : ℕ} {projection : Projection} {part : Part} :
    .layer index projection part ∈ weights.sources ↔
      index < weights.numLayers ∧ weights.hasPart index projection.layer part = true := by
  have hall : projection ∈ Projection.all := by cases projection <;> decide
  have hpart : part = .weight ∨ part = .bias ∨ part ∈ [] := by cases part <;> simp
  simp only [TextWeights.sources, List.mem_cons, reduceCtorEq, false_or, List.mem_flatMap,
    List.mem_range, List.mem_map, List.mem_filter, Source.layer.injEq]
  constructor
  · rintro ⟨i, hi, m, -, p, ⟨-, hp⟩, rfl, rfl, rfl⟩
    exact ⟨hi, hp⟩
  · rintro ⟨hi, hp⟩
    exact ⟨index, hi, projection, hall, part, ⟨hpart, hp⟩, rfl, rfl, rfl⟩

omit [Zero R] in
theorem mem_targets {index : ℕ} {module : ParallelLinear} {part : Part} :
    .layer index module part ∈ weights.targets ↔
      index < weights.numLayers ∧ weights.hasPart index module part = true := by
  have hall : module ∈ ParallelLinear.all := by cases module <;> decide
  have hpart : part = .weight ∨ part = .bias ∨ part ∈ [] := by cases part <;> simp
  simp only [TextWeights.targets, List.mem_cons, reduceCtorEq, false_or, List.mem_flatMap,
    List.mem_range, List.mem_map, List.mem_filter, Target.layer.injEq]
  constructor
  · rintro ⟨i, hi, m, -, p, ⟨-, hp⟩, rfl, rfl, rfl⟩
    exact ⟨hi, hp⟩
  · rintro ⟨hi, hp⟩
    exact ⟨index, hi, module, hall, part, ⟨hpart, hp⟩, rfl, rfl, rfl⟩

omit [Zero R] in
theorem target_mem {s : Source} (h : s ∈ weights.sources) : s.target ∈ weights.targets := by
  cases s with
  | embed => exact List.mem_cons_self
  | layer index projection part => exact (mem_targets weights).mpr ((mem_sources weights).mp h)

omit [Zero R] in
theorem sources_nodup : weights.sources.Nodup := by
  have hparts : ∀ index projection, (([Part.weight, .bias].filter fun part =>
      weights.hasPart index projection.layer part).map (Source.layer index projection)).Nodup := by
    intro index projection
    refine List.Nodup.map (fun p q h => ?_) (List.Nodup.filter _ (by decide))
    simpa using h
  refine List.nodup_cons.mpr ⟨by simp, List.nodup_flatMap.mpr ⟨fun index _ => ?_, ?_⟩⟩
  · refine List.nodup_flatMap.mpr ⟨fun projection _ => hparts index projection, ?_⟩
    have hall : Projection.all.Pairwise (· ≠ ·) := by decide
    refine hall.imp fun {m n} hmn => ?_
    rw [Function.onFun, List.disjoint_left]
    intro s hm hn
    obtain ⟨p, -, rfl⟩ := List.mem_map.mp hm
    obtain ⟨q, -, hq⟩ := List.mem_map.mp hn
    exact hmn (Source.layer.injEq .. ▸ hq).2.1.symm
  · refine List.nodup_range.imp fun {i j} hij => ?_
    rw [Function.onFun, List.disjoint_left]
    intro s hi hj
    obtain ⟨m, -, hm⟩ := List.mem_flatMap.mp hi
    obtain ⟨n, -, hn⟩ := List.mem_flatMap.mp hj
    obtain ⟨p, -, rfl⟩ := List.mem_map.mp hm
    obtain ⟨q, -, hq⟩ := List.mem_map.mp hn
    exact hij (Source.layer.injEq .. ▸ hq).1.symm

omit [Zero R] in
theorem initialModel_name {target : Target} (h : target ∈ weights.targets) :
    initialModel sizes weights uninitialized target.name =
      some (target.parameter sizes uninitialized) := by
  have hfind : ∀ targets : List Target, target ∈ targets →
      (targets.find? fun t => t.name = target.name) = some target := by
    intro targets hmem
    induction targets with
    | nil => simp at hmem
    | cons t targets ih =>
      by_cases ht : t.name = target.name
      · rw [List.find?_cons_of_pos (by simpa using ht), Target.name_injective ht]
      · rw [List.find?_cons_of_neg (by simpa using ht)]
        refine ih ((List.mem_cons.mp hmem).resolve_left ?_)
        rintro rfl
        exact ht rfl
  rw [initialModel, hfind weights.targets h]
  rfl

omit [Zero R] in
theorem initialModel_other {target : Target} (h : target ∉ weights.targets) :
    initialModel sizes weights uninitialized target.name = none := by
  have hfind : (weights.targets.find? fun t => t.name = target.name) = none := by
    refine List.find?_eq_none.mpr fun t ht => ?_
    have hne : t.name ≠ target.name := fun hname => h (Target.name_injective hname ▸ ht)
    simpa using hne
  rw [initialModel, hfind]
  rfl

/-- The parameters of the model, with the shards of the tensors loaded so far. -/
structure LoadedSoFar (rank : ℕ) (done : List Source) (model : ModelParameters R) : Prop where
  params : ∀ target ∈ weights.targets, ∃ param, model target.name = some param ∧
    param.loader = (target.parameter sizes uninitialized).loader ∧
    param.data.shape = (target.parameter sizes uninitialized).data.shape
  others : ∀ target, target ∉ weights.targets → model target.name = none
  shards : ∀ s ∈ done, ∀ param, model s.target.name = some param → ∀ idx, s.InShard sizes idx →
    param.data.entry idx = s.shardEntry sizes weights rank idx

theorem initialModel_loaded (rank : ℕ) :
    LoadedSoFar sizes weights uninitialized rank [] (initialModel sizes weights uninitialized) :=
  ⟨fun _ h => ⟨_, initialModel_name sizes weights uninitialized h, rfl, rfl⟩,
    fun _ h => initialModel_other sizes weights uninitialized h, by simp⟩

variable {sizes weights uninitialized}

/-- The next tensor of the checkpoint loads, and keeps the shards that are there. -/
theorem LoadedSoFar.step {rank : ℕ} {done : List Source} {model : ModelParameters R}
    (h : LoadedSoFar sizes weights uninitialized rank done model)
    (hrank : rank < sizes.worldSize) {s : Source} (hmem : s ∈ weights.sources)
    (hs : ¬ s.IsRowBias) :
    ∃ model', loadTensor ⟨rank, sizes.worldSize⟩ packedModulesMapping model
        (s.name, s.tensor sizes weights) = .ok model' ∧
      LoadedSoFar sizes weights uninitialized rank (s :: done) model' := by
  obtain ⟨param, hparam, hloader, hshape⟩ := h.params s.target (target_mem weights hmem)
  obtain ⟨data, hload, hdata, hnew, hframe⟩ := s.load_ok sizes weights uninitialized hs hrank hshape
  refine ⟨Function.update model s.target.name (some { param with data := data }), ?_, ?_, ?_, ?_⟩
  · simp only [loadTensor, resolve_name, hparam, hloader, except_bind_ok, except_pure_ok]
    exact ⟨data, hload, rfl⟩
  · intro target ht
    by_cases hsame : target = s.target
    · subst hsame
      exact ⟨_, Function.update_self .., hloader, hdata.trans hshape⟩
    · obtain ⟨other, hother⟩ := h.params target ht
      exact ⟨other, by
        rwa [Function.update_of_ne fun heq => hsame (Target.name_injective heq)]⟩
  · intro target ht
    have hne : target.name ≠ s.target.name := by
      intro hname
      rw [Target.name_injective hname] at ht
      exact ht (target_mem weights hmem)
    rw [Function.update_of_ne hne]
    exact h.others target ht
  · intro t ht other hother idx hidx
    by_cases hsame : t.target = s.target
    · rw [hsame, Function.update_self] at hother
      obtain rfl := Option.some.inj hother
      by_cases hts : t = s
      · subst hts
        exact hnew idx hidx
      · obtain ⟨hpacked, hout⟩ := Source.disjoint sizes hsame hts hidx
        have hold := (List.mem_cons.mp ht).resolve_left hts
        simp only [hframe hpacked idx hout]
        exact h.shards t hold param (by rw [hsame, hparam]) idx hidx
    · rw [Function.update_of_ne fun heq => hsame (Target.name_injective heq)] at hother
      have hts : t ≠ s := by
        rintro rfl
        exact hsame rfl
      exact h.shards t ((List.mem_cons.mp ht).resolve_left hts) other hother idx hidx

/-- The tensors of a checkpoint in the order in which they are read. -/
def checkpoint (sizes : ParallelSizes) (weights : TextWeights R) (order : List Source) :
    List (Name × Tensor R) :=
  order.map fun s => (s.name, s.tensor sizes weights)

theorem LoadedSoFar.run {rank : ℕ} {done order : List Source} {model : ModelParameters R}
    (h : LoadedSoFar sizes weights uninitialized rank done model)
    (hrank : rank < sizes.worldSize)
    (hall : ∀ s ∈ order, s ∈ weights.sources ∧ ¬ s.IsRowBias) :
    ∃ model', loadModel ⟨rank, sizes.worldSize⟩ packedModulesMapping model
        (checkpoint sizes weights order) = .ok model' ∧
      LoadedSoFar sizes weights uninitialized rank (order.reverse ++ done) model' := by
  induction order generalizing done model with
  | nil => exact ⟨model, rfl, h⟩
  | cons s order ih =>
    obtain ⟨hmem, hs⟩ := hall s List.mem_cons_self
    obtain ⟨mid, hstep, hmid⟩ := h.step hrank hmem hs
    obtain ⟨model', hrest, hdone⟩ := ih hmid fun t ht => hall t (List.mem_cons_of_mem s ht)
    refine ⟨model', ?_, by simpa using hdone⟩
    rw [loadModel, checkpoint, List.map_cons, List.foldlM_cons, hstep]
    exact hrest

/-- A checkpoint with a bias of a row-parallel layer does not load. -/
theorem loadModel_rowBias {rank : ℕ} {order : List Source} {s : Source} (hs : s.IsRowBias)
    (hmem : s ∈ order) (horder : ∀ t ∈ order, t ∈ weights.sources) (hrank : rank < sizes.worldSize)
    (model : ModelParameters R) :
    loadModel ⟨rank, sizes.worldSize⟩ packedModulesMapping
      (initialModel sizes weights uninitialized) (checkpoint sizes weights order) ≠ .ok model := by
  have hfails : ∀ done (start : ModelParameters R),
      LoadedSoFar sizes weights uninitialized rank done start →
      loadModel ⟨rank, sizes.worldSize⟩ packedModulesMapping start
        (checkpoint sizes weights order) ≠ .ok model := by
    induction order with
    | nil => simp at hmem
    | cons t order ih =>
      intro done start hstart hok
      simp only [loadModel, checkpoint, List.map_cons, List.foldlM_cons, except_bind_ok] at hok
      obtain ⟨mid, hstep, hrest⟩ := hok
      by_cases ht : t.IsRowBias
      · -- the loader of the first row bias raises
        obtain ⟨param, hparam, hloader, hshape⟩ :=
          hstart.params t.target (target_mem weights (horder t List.mem_cons_self))
        simp only [loadTensor, resolve_name, hparam, hloader, except_bind_ok] at hstep
        obtain ⟨data, hload, -⟩ := hstep
        cases t with
        | embed => exact ht
        | layer index projection part =>
          cases projection <;> cases part
          all_goals first
            | exact ht
            | exact rowBias_fails hshape data hload
      · obtain ⟨mid', hstep', hmid⟩ := hstart.step hrank (horder t List.mem_cons_self) ht
        obtain rfl : mid' = mid := by
          rw [hstep'] at hstep
          exact Except.ok.inj hstep
        have hne : s ≠ t := by
          rintro rfl
          exact ht hs
        exact ih ((List.mem_cons.mp hmem).resolve_left hne)
          (fun u hu => horder u (List.mem_cons_of_mem t hu)) (t :: done) mid' hmid hrest
  exact hfails [] _ (initialModel_loaded sizes weights uninitialized rank)

end Checkpoint

end PrismInfer
