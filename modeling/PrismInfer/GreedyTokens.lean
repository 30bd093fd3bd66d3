import PrismInfer.Lib.Argmax
import PrismInfer.Lib.BinaryFloat
import PrismInfer.Lib.StateExcept

/-!
# Distributed greedy sampling

Every rank selects the last hidden state of each prefilled sequence, computes the logits of its
vocabulary rows, sends the best one with its token id,
both as `float32`, and picks the winner among the gathered candidates. Logits are finite
floating-point values, taken as the rationals they are.
-/
namespace PrismInfer
open StateExcept Argmax BinaryFloat ListBlocks

namespace EmbedHead

inductive EmbedHeadError
  | vocabularyEmpty
  | vocabularyNotDivisible (numEmbeddings tpSize : ℕ)
  | narrow (start length size : ℕ)
  | emptyShard
  | noCuSeqlens
  | hiddenStateIndex (index : ℤ) (size : ℕ)
deriving DecidableEq, Repr

/-- The shape fields of `VocabParallelEmbedding`. -/
structure VocabShard where
  tpRank : ℕ
  tpSize : ℕ
  numEmbeddings : ℕ
  numEmbeddingsPerPartition : ℕ
  vocabStartIdx : ℕ
  vocabEndIdx : ℕ
deriving DecidableEq, Repr

/-- The fields of the forward context that the head reads. -/
structure HeadContext where
  isPrefill : Bool
  cuSeqlensQ : Option (List ℕ)
deriving DecidableEq, Repr

/-- `VocabParallelEmbedding.__init__`. -/
def VocabShard.create (tpRank tpSize numEmbeddings : ℕ) : Except EmbedHeadError VocabShard := do
  ensure (0 < numEmbeddings) .vocabularyEmpty
  ensure (numEmbeddings % tpSize = 0) (.vocabularyNotDivisible numEmbeddings tpSize)
  let perPartition := numEmbeddings / tpSize
  let start := perPartition * tpRank
  pure ⟨tpRank, tpSize, numEmbeddings, perPartition, start, start + perPartition⟩

section

variable {W X : Type}

/-- `weight_loader`: this rank's rows of the checkpoint tensor. -/
def VocabShard.loadWeight (shard : VocabShard) (loadedWeight : List W) :
    Except EmbedHeadError (List W) := do
  let shardSize := shard.numEmbeddingsPerPartition
  let startIdx := shard.tpRank * shardSize
  ensure (startIdx + shardSize ≤ loadedWeight.length)
    (.narrow startIdx shardSize loadedWeight.length)
  pure (slice loadedWeight startIdx (startIdx + shardSize))

/-- One row of `x[last_indices]`; a negative index counts from the end. -/
def indexRow (x : List X) (index : ℤ) : Except EmbedHeadError X :=
  let position := if index < 0 then index + x.length else index
  if position < 0 then .error (.hiddenStateIndex index x.length)
  else match x[position.toNat]? with
    | some row => .ok row
    | none => .error (.hiddenStateIndex index x.length)

/-- `_select_hidden_states`: the last state of every sequence of a prefill. -/
def selectHiddenStates (selectPrefillTokens : Bool) (context : HeadContext) (x : List X) :
    Except EmbedHeadError (List X) :=
  if context.isPrefill = true ∧ selectPrefillTokens = true then
    match context.cuSeqlensQ with
    | none => .error .noCuSeqlens
    | some cuSeqlensQ =>
      let lastIndices := cuSeqlensQ.tail.map fun bound : ℕ => Int.ofNat bound - 1
      lastIndices.mapM (indexRow x)
  else .ok x

/-- `F.linear`: `dot` is the value one output element gets from one row of either operand. -/
def linear (dot : X → W → ℚ) (x : List X) (weight : List W) : List (List ℚ) :=
  x.map fun hidden => weight.map (dot hidden)

/-- `tensor.float()` of a value. -/
def float32 (x : ℚ) : ℚ := round 24 (-149) x

/-- `tensor.long()`: towards zero. -/
def long (x : ℚ) : ℤ := if 0 ≤ x then ⌊x⌋ else ⌈x⌉

/-- Best value and token id of every row of this rank, as `float32`. -/
def localCandidates (shard : VocabShard) (localLogits : List (List ℚ)) : List (ℚ × ℚ) :=
  localLogits.map fun logits =>
    (float32 (maximum logits), float32 ((argmax logits + shard.vocabStartIdx : ℕ) : ℚ))

/-- The winner of every row among the candidates of all ranks. -/
def winningTokens (batch : ℕ) (gathered : List (List (ℚ × ℚ))) : List ℤ :=
  (List.range batch).map fun row =>
    let candidates := gathered.map fun rank => rank.getD row default
    let winningRank := argmax (candidates.map (·.1))
    long (candidates.getD winningRank default).2

/-- One rank up to the gather: its shard of the checkpoint and its candidates. -/
def rankCandidates (dot : X → W → ℚ) (loadedWeight : List W) (x : List X)
    (tpSize tpRank : ℕ) : Except EmbedHeadError (List (ℚ × ℚ)) := do
  let shard ← VocabShard.create tpRank tpSize loadedWeight.length
  let weight ← shard.loadWeight loadedWeight
  ensure (weight ≠ []) .emptyShard
  pure (localCandidates shard (linear dot x weight))

/-- `compute_greedy_tokens` on the ranks of a group, all with the same context and hidden
states: `all_gather` hands every rank the candidates of all, by rank. -/
def computeGreedyTokens (dot : X → W → ℚ) (loadedWeight : List W) (selectPrefillTokens : Bool)
    (context : HeadContext) (hiddenStates : List X) (tpSize : ℕ) :
    Except EmbedHeadError (List (List ℤ)) := do
  let x ← selectHiddenStates selectPrefillTokens context hiddenStates
  let gathered ← (List.range tpSize).mapM (rankCandidates dot loadedWeight x tpSize)
  pure ((List.range tpSize).map fun _ => winningTokens x.length gathered)

end

/-- The rows a head is asked about: of a prefill the last row of every sequence, where an empty
first sequence means the last row of all. -/
def Selected {X : Type} (selectPrefillTokens : Bool) (context : HeadContext)
    (x selected : List X) : Prop :=
  if context.isPrefill = true ∧ selectPrefillTokens = true then
    ∃ cuSeqlensQ, context.cuSeqlensQ = some cuSeqlensQ ∧
      List.Forall₂ (fun bound row =>
        if bound = 0 then x.getLast? = some row else x[bound - 1]? = some row)
        cuSeqlensQ.tail selected
  else selected = x

/-- `float32` holds the logits exactly. -/
abbrev Float32Exact (x : ℚ) : Prop := Representable 24 (-149) x

theorem float32_natCast {n : ℕ} (h : n < 2 ^ 24) : float32 (n : ℚ) = n :=
  round_of_representable (representable_natCast h (by norm_num))

@[simp] theorem long_natCast (n : ℕ) : long (n : ℚ) = n := by
  rw [long, if_pos (Nat.cast_nonneg n), Int.floor_natCast]

variable {W X : Type} {dot : X → W → ℚ} {loadedWeight : List W} {x : List X} {tpSize : ℕ}

theorem indexRow_ok {bound : ℕ} {row : X} :
    indexRow x (Int.ofNat bound - 1) = .ok row ↔
      if bound = 0 then x.getLast? = some row else x[bound - 1]? = some row := by
  rw [Int.ofNat_eq_natCast]
  rcases Nat.eq_zero_or_pos bound with rfl | hbound
  · rw [if_pos rfl, indexRow, List.getLast?_eq_getElem?]
    rcases Nat.eq_zero_or_pos x.length with hx | hx
    · obtain rfl := List.eq_nil_of_length_eq_zero hx
      simp
    · have hposition : (((0 : ℕ) : ℤ) - 1 + (x.length : ℤ)) = ((x.length - 1 : ℕ) : ℤ) := by omega
      simp only [if_pos (by omega : ((0 : ℕ) : ℤ) - 1 < 0), hposition,
        if_neg (by omega : ¬ ((x.length - 1 : ℕ) : ℤ) < 0), Int.toNat_natCast]
      cases x[x.length - 1]? <;> simp
  · have hposition : ((bound : ℤ) - 1) = ((bound - 1 : ℕ) : ℤ) := by omega
    rw [if_neg hbound.ne', indexRow, hposition]
    simp only [if_neg (by omega : ¬ ((bound - 1 : ℕ) : ℤ) < 0), Int.toNat_natCast]
    cases x[bound - 1]? <;> simp

/-- The selection succeeds on exactly the selected rows. -/
theorem selectHiddenStates_ok {selectPrefillTokens : Bool} {context : HeadContext}
    {selected : List X} :
    selectHiddenStates selectPrefillTokens context x = .ok selected ↔
      Selected selectPrefillTokens context x selected := by
  unfold selectHiddenStates Selected
  split
  · cases context.cuSeqlensQ with
    | none => simp
    | some cuSeqlensQ =>
      simp only [mapM_ok, List.forall₂_map_left_iff, indexRow_ok, Option.some.injEq,
        exists_eq_left']
  · rw [Except.ok.injEq, eq_comm]

/-- What a rank contributes: the best of its slice of the full row of logits. -/
theorem rankCandidates_ok (hvocab : loadedWeight ≠ []) (hdvd : loadedWeight.length % tpSize = 0)
    {rank : ℕ} (hrank : rank < tpSize) :
    let n := loadedWeight.length / tpSize
    rankCandidates dot loadedWeight x tpSize rank =
      .ok (x.map fun hidden =>
        let part := slice (loadedWeight.map (dot hidden)) (rank * n) ((rank + 1) * n)
        (float32 (maximum part), float32 ((argmax part + rank * n : ℕ) : ℚ))) := by
  intro n
  have hpos := List.length_pos_of_ne_nil hvocab
  have hlength : n * tpSize = loadedWeight.length :=
    Nat.div_mul_cancel (Nat.dvd_of_mod_eq_zero hdvd)
  have hn : 0 < n := Nat.pos_of_mul_pos_right (hlength ▸ hpos : 0 < n * tpSize)
  have hend : (rank + 1) * n ≤ loadedWeight.length := by
    rw [← hlength, Nat.mul_comm n]
    exact Nat.mul_le_mul_right n hrank
  have hstop : rank * n + n ≤ loadedWeight.length := by rwa [Nat.succ_mul] at hend
  have hweight : slice loadedWeight (rank * n) (rank * n + n) ≠ [] := by
    rw [← List.length_pos_iff_ne_nil, length_slice hstop]
    omega
  have hslice : ∀ hidden, (slice loadedWeight (rank * n) (rank * n + n)).map (dot hidden) =
      slice (loadedWeight.map (dot hidden)) (rank * n) ((rank + 1) * n) := by
    intro hidden
    rw [slice, slice, List.map_drop, List.map_take, Nat.succ_mul]
  have hbound : rank * (loadedWeight.length / tpSize) + loadedWeight.length / tpSize ≤
      loadedWeight.length := hstop
  have hne : slice loadedWeight (rank * (loadedWeight.length / tpSize))
      (rank * (loadedWeight.length / tpSize) + loadedWeight.length / tpSize) ≠ [] := hweight
  simp only [rankCandidates, VocabShard.create, VocabShard.loadWeight, ensure, if_pos hpos,
    if_pos hdvd, if_pos hbound, if_pos hne, bind, Except.bind, pure, Except.pure, localCandidates,
    linear, List.map_map]
  congr 1
  apply List.map_congr_left
  intro hidden _
  simp only [Function.comp_apply]
  rw [hslice hidden, Nat.mul_comm (loadedWeight.length / tpSize) rank]

/-- The winner of one row. -/
theorem winningToken_spec (hvocab : loadedWeight ≠ []) (htp : 0 < tpSize)
    (hdvd : loadedWeight.length % tpSize = 0) (hbound : loadedWeight.length ≤ 2 ^ 24)
    {hidden : X} (hexact : ∀ row ∈ loadedWeight, Float32Exact (dot hidden row)) :
    let n := loadedWeight.length / tpSize
    let part := fun rank => slice (loadedWeight.map (dot hidden)) (rank * n) ((rank + 1) * n)
    let candidates := (List.range tpSize).map fun rank =>
      (float32 (maximum (part rank)), float32 ((argmax (part rank) + rank * n : ℕ) : ℚ))
    long (candidates.getD (argmax (candidates.map (·.1))) default).2 =
      (argmax (loadedWeight.map (dot hidden)) : ℕ) := by
  intro n part candidates
  have hlength : n * tpSize = loadedWeight.length :=
    Nat.div_mul_cancel (Nat.dvd_of_mod_eq_zero hdvd)
  have hn : 0 < n := Nat.pos_of_mul_pos_right
    (hlength ▸ List.length_pos_of_ne_nil hvocab : 0 < n * tpSize)
  have hvalues : (loadedWeight.map (dot hidden)).length = tpSize * n := by
    rw [List.length_map, Nat.mul_comm, hlength]
  obtain ⟨hwinner, hoffset, hfirst⟩ := firstMaximum_of_parts htp hn hvalues
  -- the maxima are logits, so they survive the conversion
  have hmaxima : candidates.map (·.1) = (List.range tpSize).map fun rank =>
      maximum (part rank) := by
    rw [List.map_map]
    apply List.map_congr_left
    intro rank hrank
    have hend : (rank + 1) * n ≤ (loadedWeight.map (dot hidden)).length := by
      rw [hvalues]
      exact Nat.mul_le_mul_right n (List.mem_range.mp hrank)
    have hne : part rank ≠ [] := by
      rw [← List.length_pos_iff_ne_nil, length_slice hend, Nat.succ_mul]
      omega
    have hmem := List.mem_of_mem_take (List.mem_of_mem_drop
      (List.mem_of_getElem? (getElem?_argmax hne)))
    obtain ⟨row, hrow, heq⟩ := List.mem_map.mp hmem
    rw [Function.comp_apply, float32]
    exact round_of_representable (heq ▸ hexact row hrow)
  rw [hmaxima]
  set winner := argmax ((List.range tpSize).map fun rank => maximum (part rank)) with hwinnerDef
  have htoken : winner * n + argmax (part winner) < 2 ^ 24 := by
    obtain ⟨best, hbest, -⟩ := hfirst
    have hlt : winner * n + argmax (part winner) < (loadedWeight.map (dot hidden)).length :=
      (List.getElem?_eq_some_iff.mp hbest).1
    rw [List.length_map] at hlt
    omega
  have hread : candidates.getD winner default =
      (float32 (maximum (part winner)), float32 ((argmax (part winner) + winner * n : ℕ) : ℚ)) := by
    rw [List.getD_eq_getElem?_getD, List.getElem?_map, List.getElem?_range hwinner, Option.map_some,
      Option.getD_some]
  have hnonempty : loadedWeight.map (dot hidden) ≠ [] := by
    rw [Ne, List.map_eq_nil_iff]
    exact hvocab
  rw [hread, Nat.add_comm, float32_natCast htoken, long_natCast,
    hfirst.eq (argmax_spec hnonempty)]

/-- Every rank returns, for each selected row, the first token that attains the greatest logit. -/
theorem computeGreedyTokens_argmax (dot : X → W → ℚ) (loadedWeight : List W)
    (selectPrefillTokens : Bool) (context : HeadContext) (hiddenStates selected : List X)
    (tpSize : ℕ) (hvocab : loadedWeight ≠ []) (htp : 0 < tpSize)
    (hdvd : tpSize ∣ loadedWeight.length) (hbound : loadedWeight.length ≤ 2 ^ 24)
    (hselected : Selected selectPrefillTokens context hiddenStates selected)
    (hexact : ∀ hidden ∈ selected, ∀ row ∈ loadedWeight, Float32Exact (dot hidden row)) :
    computeGreedyTokens dot loadedWeight selectPrefillTokens context hiddenStates tpSize =
        .ok (List.replicate tpSize (selected.map fun hidden =>
          ((argmax (loadedWeight.map (dot hidden)) : ℕ) : ℤ))) ∧
      ∀ hidden ∈ selected, FirstMaximum (loadedWeight.map (dot hidden))
        (argmax (loadedWeight.map (dot hidden))) := by
  have hdvd := Nat.mod_eq_zero_of_dvd hdvd
  have hgathered : (List.range tpSize).mapM (rankCandidates dot loadedWeight selected tpSize) =
      .ok ((List.range tpSize).map fun rank => selected.map fun hidden =>
        let part := slice (loadedWeight.map (dot hidden)) (rank * (loadedWeight.length / tpSize))
          ((rank + 1) * (loadedWeight.length / tpSize))
        (float32 (maximum part),
          float32 ((argmax part + rank * (loadedWeight.length / tpSize) : ℕ) : ℚ))) := by
    rw [mapM_ok, List.forall₂_map_right_iff, List.forall₂_same]
    intro rank hrank
    exact rankCandidates_ok hvocab hdvd (List.mem_range.mp hrank)
  constructor
  · simp only [computeGreedyTokens, selectHiddenStates_ok.mpr hselected, hgathered, bind,
      Except.bind, pure, Except.pure, List.map_const', List.length_range]
    congr 2
    apply List.ext_getElem
    · rw [winningTokens, List.length_map, List.length_range, List.length_map]
    · intro row hrow hrow'
      rw [List.length_map] at hrow'
      have hcandidates : ((List.range tpSize).map fun rank => selected.map fun hidden =>
          let part := slice (loadedWeight.map (dot hidden))
            (rank * (loadedWeight.length / tpSize)) ((rank + 1) * (loadedWeight.length / tpSize))
          (float32 (maximum part),
            float32 ((argmax part + rank * (loadedWeight.length / tpSize) : ℕ) : ℚ))).map
          (fun rank => rank.getD row default) = (List.range tpSize).map fun rank =>
            let part := slice (loadedWeight.map (dot selected[row]))
              (rank * (loadedWeight.length / tpSize)) ((rank + 1) * (loadedWeight.length / tpSize))
            (float32 (maximum part),
              float32 ((argmax part + rank * (loadedWeight.length / tpSize) : ℕ) : ℚ)) := by
        rw [List.map_map]
        apply List.map_congr_left
        intro rank _
        rw [Function.comp_apply, List.getD_eq_getElem?_getD, List.getElem?_map,
          List.getElem?_eq_getElem hrow', Option.map_some, Option.getD_some]
      simp only [winningTokens, List.getElem_map, List.getElem_range]
      rw [hcandidates]
      exact winningToken_spec hvocab htp hdvd hbound (hexact _ (List.getElem_mem hrow'))
  · intro hidden _
    exact argmax_spec (by
      rw [Ne, List.map_eq_nil_iff]
      exact hvocab)

/-- Four tokens on two ranks, ties within and across the shards, the last rows of two prefilled
sequences. -/
theorem computeGreedyTokens_argmax_ties :
    computeGreedyTokens (fun hidden row : ℕ => ((hidden * row : ℕ) : ℚ)) [1, 3, 3, 3] true
      ⟨true, some [0, 2, 3]⟩ [7, 1, 0] 2 = .ok (List.replicate 2 [1, 0]) := by
  have hexact : ∀ hidden ∈ [1, 0], ∀ row ∈ [1, 3, 3, 3], hidden * row < 2 ^ 24 := by decide
  have h := (computeGreedyTokens_argmax (fun hidden row : ℕ => ((hidden * row : ℕ) : ℚ))
    [1, 3, 3, 3] true ⟨true, some [0, 2, 3]⟩ [7, 1, 0] [1, 0] 2 (by decide) (by decide)
    (by decide) (by decide)
    (by
      rw [Selected, if_pos ⟨rfl, rfl⟩]
      exact ⟨_, rfl, .cons rfl (.cons rfl .nil)⟩)
    fun hidden hhidden row hrow =>
      representable_natCast (hexact hidden hhidden row hrow) (by norm_num)).1
  rw [h]
  decide +kernel

end EmbedHead

end PrismInfer
