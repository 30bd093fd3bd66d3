import PrismInfer.PagedDecode

/-!
# Paged decode computes softmax attention

Both loops absorb tiles of addressed rows into one online-softmax state. The split kernel
followed by the reduction is always exact. The single-pass kernel masks its last tile by
the context length only, so it is exact when that tile ends at the runtime bound.
-/
namespace PrismInfer.PagedDecodeLaunch

open scoped BigOperators
open OnlineSoftmax

variable (L : PagedDecodeLaunch) (T : PagedDecodeTensors) (seqIdx qHead : ℕ)
variable {validN : ℕ → Bool}

section Lanes

/-- A value lane beyond the head dimension holds zero. -/
noncomputable def laneValue (row d : ℕ) : ℝ :=
  if d < L.headDim then L.rowValue T seqIdx qHead row d else 0

theorem laneValid_iff (token : ℕ) : L.laneValid T seqIdx validN token = true ↔
    validN token = true ∧ 0 ≤ T.blockTables seqIdx (token / L.pageBlockSize) := by
  rw [laneValid, loadBlock, Bool.and_eq_true, decide_eq_true_iff]
  constructor
  · rintro ⟨hvalid, hblock⟩
    rw [if_pos hvalid] at hblock
    exact ⟨hvalid, hblock⟩
  · rintro ⟨hvalid, hblock⟩
    rw [if_pos hvalid]
    exact ⟨hvalid, hblock⟩

theorem loadBlock_of_valid {token : ℕ} (h : L.laneValid T seqIdx validN token = true) :
    L.loadBlock T seqIdx validN token = T.blockTables seqIdx (token / L.pageBlockSize) := by
  rw [loadBlock, if_pos ((L.laneValid_iff T seqIdx token).mp h).1]

theorem pageOffset_eq (token : ℕ) :
    token - token / L.pageBlockSize * L.pageBlockSize = token % L.pageBlockSize := by
  rw [Nat.mul_comm, ← Nat.mod_eq_sub_mul_div]

theorem loadScaled_of_valid (cache : ℤ → ℕ → ℕ → ℕ → ℝ) (scales : Option (ℤ → ℕ → ℕ → ℝ))
    {token : ℕ} (h : L.laneValid T seqIdx validN token = true) (d : ℕ) :
    L.loadScaled cache scales (L.laneValid T seqIdx validN token)
      (L.loadBlock T seqIdx validN token) (token - token / L.pageBlockSize * L.pageBlockSize)
      (L.kvHead qHead) d =
    if d < L.headDim then L.rowElement T seqIdx qHead cache scales token d else 0 := by
  rw [L.loadBlock_of_valid T seqIdx h, L.pageOffset_eq, h]
  unfold loadScaled rowElement
  by_cases hd : d < L.headDim <;> cases scales <;> simp [hd]

theorem loadValue_of_valid {token : ℕ} (h : L.laneValid T seqIdx validN token = true) (d : ℕ) :
    L.loadValue T seqIdx qHead validN token d = L.laneValue T seqIdx qHead token d :=
  L.loadScaled_of_valid T seqIdx qHead _ _ h d

theorem loadKey_of_valid {token : ℕ} (h : L.laneValid T seqIdx validN token = true) (d : ℕ) :
    L.loadKey T seqIdx qHead validN token d = if d < L.headDim then
      L.rowElement T seqIdx qHead T.kCache (T.scaleCaches.map Prod.fst) token d else 0 :=
  L.loadScaled_of_valid T seqIdx qHead _ _ h d

/-- Padding dimensions add nothing to a score. -/
theorem laneScore_of_valid {token : ℕ} (h : L.laneValid T seqIdx validN token = true) :
    L.laneScore T seqIdx qHead validN token = L.rowScore T seqIdx qHead token := by
  rw [laneScore, rowScore]
  congr 1
  have hsubset : Finset.range L.headDim ⊆ Finset.range L.blockD :=
    Finset.range_subset_range.mpr (le_nextPowerOfTwo L.headDim)
  rw [← Finset.sum_subset hsubset]
  · refine Finset.sum_congr rfl fun d hd => ?_
    rw [L.loadKey_of_valid T seqIdx qHead h, loadQuery, if_pos (Finset.mem_range.mp hd),
      if_pos (Finset.mem_range.mp hd), mul_comm]
  · intro d _ hd
    rw [L.loadKey_of_valid T seqIdx qHead h, if_neg (by simpa using hd), zero_mul]

end Lanes

section Loop

/-- The rows one kernel loop reads between two tokens. -/
def readRows (validN : ℕ → Bool) (start stop : ℕ) : Finset ℕ :=
  (Finset.Ico start stop).filter fun token => L.laneValid T seqIdx validN token = true

theorem readRows_append {start mid stop : ℕ} (hstart : start ≤ mid) (hstop : mid ≤ stop) :
    L.readRows T seqIdx validN start mid ∪ L.readRows T seqIdx validN mid stop =
      L.readRows T seqIdx validN start stop := by
  rw [readRows, readRows, readRows, ← Finset.filter_union, Finset.Ico_union_Ico_eq_Ico hstart hstop]

theorem readRows_disjoint (start mid stop : ℕ) :
    Disjoint (L.readRows T seqIdx validN start mid) (L.readRows T seqIdx validN mid stop) :=
  Finset.disjoint_filter_filter (Finset.Ico_disjoint_Ico_consecutive start mid stop)

/-- One tile of the loop absorbs its addressed rows. -/
theorem decodeTile_represents {rows : Finset ℕ} {st : State ℕ} {start : ℕ}
    (h : Represents (L.rowScore T seqIdx qHead) (L.laneValue T seqIdx qHead) rows st)
    (hdisjoint : Disjoint rows (L.readRows T seqIdx validN start (start + L.blockN))) :
    Represents (L.rowScore T seqIdx qHead) (L.laneValue T seqIdx qHead)
      (rows ∪ L.readRows T seqIdx validN start (start + L.blockN))
      (L.decodeTile T seqIdx qHead validN st start) := by
  apply h.absorb hdisjoint
  · rw [decodeTile, max_eq_bot, h.peak_bot, Finset.union_eq_empty]
    apply and_congr_right
    intro _
    rw [Finset.sup_eq_bot_iff, readRows, Finset.filter_eq_empty_iff]
    apply forall₂_congr
    intro token _
    by_cases hvalid : L.laneValid T seqIdx validN token = true <;> simp [hvalid]
  · simp only [decodeTile, readRows, Finset.sum_filter]
    congr 1
    refine Finset.sum_congr rfl fun token _ => ?_
    by_cases hvalid : L.laneValid T seqIdx validN token = true
    · rw [if_pos hvalid, if_pos hvalid, L.laneScore_of_valid T seqIdx qHead hvalid]
    · rw [if_neg hvalid, if_neg hvalid]
  · intro d
    simp only [decodeTile, readRows, Finset.sum_filter]
    congr 1
    refine Finset.sum_congr rfl fun token _ => ?_
    by_cases hvalid : L.laneValid T seqIdx validN token = true
    · rw [if_pos hvalid, if_pos hvalid, L.laneScore_of_valid T seqIdx qHead hvalid,
        L.loadValue_of_valid T seqIdx qHead hvalid, mul_comm]
    · rw [if_neg hvalid, if_neg hvalid, mul_zero]

variable (validN) in
/-- The loop invariant: after `n` tiles the state stands for the rows of those tiles. -/
theorem foldl_decodeTile_represents (start n : ℕ) :
    Represents (L.rowScore T seqIdx qHead) (L.laneValue T seqIdx qHead)
      (L.readRows T seqIdx validN start (start + L.blockN * n))
      ((List.range' start n L.blockN).foldl (L.decodeTile T seqIdx qHead validN)
        State.empty) := by
  induction n with
  | zero => simpa [readRows] using represents_empty
  | succ n ih =>
    have hend : start + L.blockN * (n + 1) = start + L.blockN * n + L.blockN := by ring
    rw [List.range'_concat, List.foldl_append, hend,
      ← L.readRows_append T seqIdx (Nat.le_add_right start (L.blockN * n))
        (Nat.le_add_right _ L.blockN)]
    exact L.decodeTile_represents T seqIdx qHead ih (L.readRows_disjoint T seqIdx _ _ _)

theorem storeOutput_eq (st : State ℕ) (d : ℕ) : storeOutput st d = st.output d := by
  unfold storeOutput State.output
  split_ifs <;> rfl

theorem attend_laneValue {rows : Finset ℕ} {d : ℕ} (hd : d < L.headDim) :
    attend (L.rowScore T seqIdx qHead) (L.laneValue T seqIdx qHead) rows d =
      attend (L.rowScore T seqIdx qHead) (L.rowValue T seqIdx qHead) rows d := by
  rw [attend, attend]
  refine Finset.sum_congr rfl fun row _ => ?_
  rw [laneValue, if_pos hd]

end Loop
section Kernels

theorem ceilDiv_mul_ge (n : ℕ) {step : ℕ} (h : 0 < step) :
    n ≤ step * ((n + step - 1) / step) := by
  have hdiv := Nat.div_add_mod (n + step - 1) step
  have hmod := Nat.mod_lt (n + step - 1) h
  omega

/-- Where the single-pass kernel's last tile ends. -/
def paddedBound : ℕ := L.blockN * ((L.runtimeBound + L.blockN - 1) / L.blockN)

theorem runtimeBound_le_paddedBound : L.runtimeBound ≤ L.paddedBound :=
  ceilDiv_mul_ge L.runtimeBound L.blockN_pos

theorem runtimeBound_le_capacity : L.runtimeBound ≤ L.maxContextCapacity :=
  min_le_right _ _

theorem paddedBound_of_dvd (h : L.blockN ∣ L.runtimeBound) : L.paddedBound = L.runtimeBound := by
  obtain ⟨k, hk⟩ := h
  have hdiv : (L.blockN * k + L.blockN - 1) / L.blockN = k := by
    have hpos := L.blockN_pos
    rw [Nat.add_sub_assoc hpos, Nat.mul_add_div hpos, Nat.div_eq_of_lt (by omega), add_zero]
  rw [paddedBound, hk, hdiv]

theorem runtimeBound_lt_paddedBound (h : ¬L.blockN ∣ L.runtimeBound) :
    L.runtimeBound < L.paddedBound := by
  apply lt_of_le_of_ne L.runtimeBound_le_paddedBound
  intro heq
  exact h (heq ▸ Dvd.intro _ rfl)

/-- The single-pass kernel attends to every addressed row below the context length and the
capacity, up to the end of its last tile. -/
theorem pagedDecodeAttentionKernel_eq {d : ℕ} (hd : d < L.headDim) :
    L.pagedDecodeAttentionKernel T seqIdx qHead d =
      attend (L.rowScore T seqIdx qHead) (L.rowValue T seqIdx qHead)
        (L.addressedRows T seqIdx
          (min (min (L.contextLens seqIdx) L.paddedBound) L.maxContextCapacity)) d := by
  have hloop := L.foldl_decodeTile_represents T seqIdx qHead (L.validToken seqIdx) 0
    ((L.runtimeBound + L.blockN - 1) / L.blockN)
  have hrows : L.readRows T seqIdx (L.validToken seqIdx) 0
      (0 + L.blockN * ((L.runtimeBound + L.blockN - 1) / L.blockN)) =
      L.addressedRows T seqIdx
        (min (min (L.contextLens seqIdx) L.paddedBound) L.maxContextCapacity) := by
    ext row
    simp only [readRows, addressedRows, validToken, paddedBound, Finset.mem_filter,
      Finset.mem_Ico, Finset.mem_range, laneValid_iff, decide_eq_true_iff, lt_min_iff]
    omega
  rw [hrows] at hloop
  rw [pagedDecodeAttentionKernel, storeOutput_eq, tileStarts, Nat.sub_zero, hloop.output,
    L.attend_laneValue T seqIdx qHead hd]

/-- The rows of one split. -/
def splitRows (split : ℕ) : Finset ℕ :=
  (Finset.Ico (split * L.splitChunk) (L.splitEnd split)).filter fun row =>
    row < L.contextLens seqIdx ∧ 0 ≤ T.blockTables seqIdx (row / L.pageBlockSize)

theorem splitKernel_represents (split : ℕ) :
    Represents (L.rowScore T seqIdx qHead) (L.laneValue T seqIdx qHead)
      (L.splitRows T seqIdx split) (L.pagedDecodeAttentionSplitKernel T seqIdx qHead split) := by
  have hloop := L.foldl_decodeTile_represents T seqIdx qHead
    (L.validSplitToken seqIdx split) (split * L.splitChunk)
    ((L.splitEnd split - split * L.splitChunk + L.blockN - 1) / L.blockN)
  have hcover := ceilDiv_mul_ge (L.splitEnd split - split * L.splitChunk) L.blockN_pos
  have hend : L.splitEnd split ≤ L.maxContextCapacity :=
    (min_le_right _ _).trans L.runtimeBound_le_capacity
  have hrows : L.readRows T seqIdx (L.validSplitToken seqIdx split) (split * L.splitChunk)
      (split * L.splitChunk + L.blockN *
        ((L.splitEnd split - split * L.splitChunk + L.blockN - 1) / L.blockN)) =
      L.splitRows T seqIdx split := by
    ext row
    simp only [readRows, splitRows, validSplitToken, Finset.mem_filter, Finset.mem_Ico,
      laneValid_iff, decide_eq_true_iff]
    omega
  rw [hrows] at hloop
  exact hloop

theorem splitRows_disjoint (splits : Set ℕ) :
    splits.PairwiseDisjoint (L.splitRows T seqIdx) := by
  intro s _ t _ hne
  apply Finset.disjoint_left.mpr
  intro row hs ht
  simp only [splitRows, splitEnd, Finset.mem_filter, Finset.mem_Ico, lt_min_iff] at hs ht
  obtain hlt | hlt := Nat.lt_or_gt_of_ne hne
  · have hmul := Nat.mul_le_mul_right L.splitChunk (Nat.succ_le_of_lt hlt)
    rw [Nat.succ_mul] at hmul
    omega
  · have hmul := Nat.mul_le_mul_right L.splitChunk (Nat.succ_le_of_lt hlt)
    rw [Nat.succ_mul] at hmul
    omega

/-- The splits together cover exactly the rows the launch may read. -/
theorem biUnion_splitRows : (Finset.range L.numSplits).biUnion (L.splitRows T seqIdx) =
    L.addressedRows T seqIdx
      (min (min (L.contextLens seqIdx) L.maxContextLen) L.maxContextCapacity) := by
  have hcover := ceilDiv_mul_ge L.maxContextCapacity L.numSplits_pos
  ext row
  simp only [splitRows, splitEnd, addressedRows, runtimeBound, Finset.mem_biUnion,
    Finset.mem_filter, Finset.mem_range, Finset.mem_Ico, lt_min_iff]
  constructor
  · rintro ⟨split, -, ⟨-, -, hmax, hcap⟩, hctx, hblock⟩
    exact ⟨⟨⟨hctx, hmax⟩, hcap⟩, hblock⟩
  · rintro ⟨⟨⟨hctx, hmax⟩, hcap⟩, hblock⟩
    have hlt : row < L.numSplits * L.splitChunk := lt_of_lt_of_le hcap hcover
    have hchunk : 0 < L.splitChunk := Nat.pos_of_ne_zero fun h => by simp [h] at hlt
    have hdiv := Nat.div_add_mod' row L.splitChunk
    have hmod := Nat.mod_lt row hchunk
    refine ⟨row / L.splitChunk, (Nat.div_lt_iff_lt_mul hchunk).mpr hlt, ⟨?_, ?_, hmax, hcap⟩,
      hctx, hblock⟩ <;> omega

end Kernels

section Reduction

variable {score : ℕ → ℝ} {value : ℕ → ℕ → ℝ} {rowsOf : ℕ → Finset ℕ} {partials : ℕ → State ℕ}

/-- A split with no rows has no weight, so skipping it leaves the maximum. -/
theorem reduceMax_eq (h : ∀ split, Represents score value (rowsOf split) (partials split))
    (numSplits : ℕ) :
    reduceMax partials numSplits =
      (Finset.range numSplits).sup fun split => (partials split).peak := by
  induction numSplits with
  | zero => rfl
  | succ n ih =>
    have hstep : ∀ m : WithBot ℝ,
        (if 0 < (partials n).total ∧ m < (partials n).peak then (partials n).peak else m) =
          (partials n).peak ⊔ m := by
      intro m
      by_cases hempty : rowsOf n = ∅
      · rw [(h n).peak_bot.mpr hempty, if_neg (by simp), bot_sup_eq]
      · have htotal := (h n).total_pos.mpr (Finset.nonempty_iff_ne_empty.mpr hempty)
        by_cases hlt : m < (partials n).peak
        · rw [if_pos ⟨htotal, hlt⟩, sup_eq_left.mpr hlt.le]
        · rw [if_neg fun hand => hlt hand.2, sup_eq_right.mpr (not_lt.mp hlt)]
    rw [reduceMax, List.range_succ, List.foldl_append, List.foldl_cons, List.foldl_nil,
      Finset.range_add_one, Finset.sup_insert, ← ih, hstep, reduceMax]

theorem reduceWeight_eq (h : ∀ split, Represents score value (rowsOf split) (partials split))
    {numSplits split : ℕ} (hsplit : split < numSplits) :
    reduceWeight partials (reduceMax partials numSplits) split =
      expSub (partials split).peak ((reduceMax partials numSplits).unbotD 0 : ℝ) := by
  rw [reduceWeight]
  by_cases hempty : rowsOf split = ∅
  · rw [(h split).peak_bot.mpr hempty, expSub_bot, expSub_bot, ite_self]
  · rw [if_pos ((h split).total_pos.mpr (Finset.nonempty_iff_ne_empty.mpr hempty))]
    have hle : (partials split).peak ≤ reduceMax partials numSplits := by
      rw [reduceMax_eq h]
      exact Finset.le_sup (f := fun split => (partials split).peak) (Finset.mem_range.mpr hsplit)
    have hpeak : (partials split).peak ≠ ⊥ := fun hbot => hempty ((h split).peak_bot.mp hbot)
    have hmax : reduceMax partials numSplits ≠ ⊥ := fun hbot =>
      hpeak (le_bot_iff.mp (hbot ▸ hle))
    obtain ⟨μ, hμ⟩ := WithBot.ne_bot_iff_exists.mp hmax
    rw [← hμ, WithBot.unbotD_coe]

/-- The reduction merges the splits' states. -/
theorem reduceKernel_eq (h : ∀ split, Represents score value (rowsOf split) (partials split))
    (hdisjoint : ((Finset.range L.numSplits : Finset ℕ) : Set ℕ).PairwiseDisjoint rowsOf)
    (d : ℕ) :
    L.pagedDecodeAttentionReduceKernel partials d =
      attend score value ((Finset.range L.numSplits).biUnion rowsOf) d := by
  rw [pagedDecodeAttentionReduceKernel, storeOutput_eq]
  apply Represents.output
  apply merge_represents (fun split _ => h split) hdisjoint
  · rw [reduceMax_eq h, Finset.sup_eq_bot_iff, Finset.eq_empty_iff_forall_notMem]
    simp only [Finset.mem_biUnion, not_exists, not_and, (h _).peak_bot,
      Finset.eq_empty_iff_forall_notMem]
    exact ⟨fun hall row split hs => hall split hs row, fun hall split hs row => hall row split hs⟩
  · dsimp only
    refine Finset.sum_congr rfl fun split hsplit => ?_
    rw [reduceWeight_eq h (Finset.mem_range.mp hsplit)]
  · intro c
    dsimp only
    refine Finset.sum_congr rfl fun split hsplit => ?_
    rw [reduceWeight_eq h (Finset.mem_range.mp hsplit)]

/-- Split-K decode is softmax attention, for every launch. -/
theorem splitAttention_eq {d : ℕ} (hd : d < L.headDim) :
    L.splitAttention T seqIdx qHead d = L.softmaxAttention T seqIdx qHead d := by
  rw [splitAttention,
    L.reduceKernel_eq (fun split => L.splitKernel_represents T seqIdx qHead split)
      (L.splitRows_disjoint T seqIdx _),
    L.biUnion_splitRows, L.attend_laneValue T seqIdx qHead hd, softmaxAttention]

end Reduction

section Exactness

/-- One zero key per row, and a value of one at a single row. -/
def probeTensors (row : ℕ) : PagedDecodeTensors where
  q _ _ _ := 0
  kCache _ _ _ _ := 0
  vCache block token _ _ :=
    if block = (row / L.pageBlockSize : ℕ) ∧ token = row % L.pageBlockSize then 1 else 0
  scaleCaches := none
  blockTables _ page := page
  scale := 1

theorem probe_rowValue (row i d : ℕ) :
    L.rowValue (L.probeTensors row) seqIdx qHead i d = if i = row then 1 else 0 := by
  have hiff : ((i / L.pageBlockSize : ℕ) : ℤ) = (row / L.pageBlockSize : ℕ) ∧
      i % L.pageBlockSize = row % L.pageBlockSize ↔ i = row := by
    constructor
    · rintro ⟨hdiv, hmod⟩
      rw [← Nat.div_add_mod i L.pageBlockSize, ← Nat.div_add_mod row L.pageBlockSize,
        Int.ofNat_inj.mp hdiv, hmod]
    · rintro rfl
      exact ⟨rfl, rfl⟩
  simp only [rowValue, rowElement, probeTensors, Option.map_none, Option.elim_none, mul_one, hiff]

theorem probe_addressedRows (row bound : ℕ) :
    L.addressedRows (L.probeTensors row) seqIdx bound = Finset.range bound := by
  apply Finset.filter_true_of_mem
  intro i _
  exact Int.natCast_nonneg _

/-- The probe's output is nonzero exactly where its row is read. -/
theorem probe_attend (row bound d : ℕ) :
    attend (L.rowScore (L.probeTensors row) seqIdx qHead)
      (L.rowValue (L.probeTensors row) seqIdx qHead) (Finset.range bound) d =
      if row < bound then (bound : ℝ)⁻¹ else 0 := by
  have hscore : ∀ i, L.rowScore (L.probeTensors row) seqIdx qHead i = 0 := by
    intro i
    simp [rowScore, probeTensors]
  simp [attend, hscore, probe_rowValue]

/-- The single-pass kernel is exact where its last tile does not read past the bound. -/
theorem kernel_eq_softmaxAttention {d : ℕ} (hd : d < L.headDim)
    (hbound : L.contextLens seqIdx ≤ L.runtimeBound ∨ L.runtimeBound = L.maxContextCapacity ∨
      L.blockN ∣ L.runtimeBound) :
    L.pagedDecodeAttentionKernel T seqIdx qHead d = L.softmaxAttention T seqIdx qHead d := by
  rw [L.pagedDecodeAttentionKernel_eq T seqIdx qHead hd, softmaxAttention]
  congr 2
  have hle := L.runtimeBound_le_paddedBound
  have hmin : L.runtimeBound = min L.maxContextLen L.maxContextCapacity := rfl
  obtain hctx | hcap | hdvd := hbound
  · omega
  · omega
  · have hpad := L.paddedBound_of_dvd hdvd
    omega

/-- There a launch computes softmax attention with any number of splits. -/
theorem launch_eq_softmaxAttention {d : ℕ} (hd : d < L.headDim)
    (hbound : L.contextLens seqIdx ≤ L.runtimeBound ∨ L.runtimeBound = L.maxContextCapacity ∨
      L.blockN ∣ L.runtimeBound) :
    L.launchPagedDecodeAttention T seqIdx qHead d = L.softmaxAttention T seqIdx qHead d := by
  rw [launchPagedDecodeAttention, L.splitAttention_eq T seqIdx qHead hd,
    L.kernel_eq_softmaxAttention T seqIdx qHead hd hbound, ite_self]

/-- A launch is exact if and only if no last tile reads past the runtime bound: the context
ends before it, the table does, or the tile does. -/
theorem exact_iff : L.Exact ↔ ∀ seqIdx < L.batch, L.contextLens seqIdx ≤ L.runtimeBound ∨
    L.runtimeBound = L.maxContextCapacity ∨ L.blockN ∣ L.runtimeBound := by
  constructor
  · intro hexact seqIdx hseq
    by_contra hnot
    obtain ⟨hctx, hcap, hdvd⟩ : L.runtimeBound < L.contextLens seqIdx ∧
        L.runtimeBound ≠ L.maxContextCapacity ∧ ¬L.blockN ∣ L.runtimeBound := by
      simpa only [not_or, not_le] using hnot
    have hlt := L.runtimeBound_lt_paddedBound hdvd
    have hle := L.runtimeBound_le_capacity
    have heq := (hexact (L.probeTensors L.runtimeBound) seqIdx hseq 0 L.numHeads_pos 0
      L.headDim_pos).2
    rw [L.pagedDecodeAttentionKernel_eq _ _ _ L.headDim_pos, softmaxAttention,
      probe_addressedRows, probe_addressedRows, probe_attend, probe_attend, if_pos,
      if_neg] at heq
    · exact inv_ne_zero (Nat.cast_ne_zero.mpr (by omega)) heq
    · simp only [lt_min_iff, runtimeBound]
      omega
    · simp only [lt_min_iff]
      omega
  · intro hbound T seqIdx hseq qHead _ d hd
    have hkernel := L.kernel_eq_softmaxAttention T seqIdx qHead hd (hbound seqIdx hseq)
    exact ⟨(L.splitAttention_eq T seqIdx qHead hd).trans hkernel.symm, hkernel⟩

/-- One page of two tokens in one tile, both in context, of which one may be read. -/
def truncatedLaunch : PagedDecodeLaunch where
  batch := 1
  numHeads := 1
  numKvHeads := 1
  headDim := 1
  pageBlockSize := 2
  maxBlocks := 1
  blockN := 2
  numSplits := 1
  contextLens _ := 2
  maxContextLen := 1
  numHeads_pos := by decide
  numKvHeads_dvd := by decide
  headDim_pos := by decide
  pageBlockSize_pos := by decide
  blockN_pos := by decide
  blockN_power := by decide
  numSplits_pos := by decide

/-- The single-pass kernel averages both rows, the split kernel reads the first only. -/
theorem truncatedLaunch_not_exact : ¬truncatedLaunch.Exact := by
  intro hexact
  have heq := (hexact (truncatedLaunch.probeTensors 1) 0 (by decide) 0 (by decide) 0
    (by decide)).1
  rw [truncatedLaunch.pagedDecodeAttentionKernel_eq _ _ _ (by decide),
    truncatedLaunch.splitAttention_eq _ _ _ (by decide), softmaxAttention,
    probe_addressedRows, probe_addressedRows, probe_attend, probe_attend] at heq
  norm_num [truncatedLaunch, paddedBound, runtimeBound, maxContextCapacity] at heq

end Exactness

end PrismInfer.PagedDecodeLaunch
