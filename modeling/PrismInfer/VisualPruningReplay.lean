import PrismInfer.KVCompaction
import PrismInfer.VisualPruning

/-!
# Pruning records and their replay

A decision is kept as a record. The engine reads the retained context positions from it, and a
later run of the same prompt may lock its selection: the record is checked against the prompt
and the policy, and the selection is computed again from scores that prefer its kept tokens.
-/
namespace PrismInfer
open StateExcept

namespace VisualPruning

/-- `VisualTokenSpan.to_record`. -/
structure SpanRecord where
  modality : Modality
  start : ℕ
  stop : ℕ
  index : ℕ
  tokenCount : ℕ
deriving DecidableEq, Repr

def Span.toRecord (span : Span) : SpanRecord where
  modality := span.modality
  start := span.start
  stop := span.stop
  index := span.index
  tokenCount := span.tokenCount

/-- The audit record. -/
structure Record where
  seqId : ℕ
  promptTokenCount : ℕ
  totalVisualTokens : ℕ
  keptVisualTokens : ℕ
  droppedVisualTokens : ℕ
  keepRatioTarget : ℚ
  keepRatioActual : ℚ
  effectiveMinKeepTokens : ℕ
  strategy : Strategy
  physicalCompaction : Bool
  visualTokenSpans : List SpanRecord
  /-- Modality, index and kept tokens of each span. -/
  keptVisualTokensBySpan : List (Modality × ℕ × ℕ)
  keptTokenIndices : List ℕ
  droppedTokenIndices : List ℕ
  /-- `selection_source_seq_id` and its prompt length, set when the selection is locked. -/
  selectionSource : Option (ℕ × ℕ)
deriving DecidableEq, Repr

/-- `PruningDecision.to_record`. -/
def Decision.toRecord (decision : Decision) : Record where
  seqId := decision.seqId
  promptTokenCount := decision.promptTokenCount
  totalVisualTokens := decision.totalVisualTokens
  keptVisualTokens := decision.keptVisualTokens
  droppedVisualTokens := decision.droppedVisualTokens
  keepRatioTarget := decision.keepRatioTarget
  keepRatioActual := decision.keepRatioActual
  effectiveMinKeepTokens := decision.effectiveMinKeepTokens
  strategy := decision.strategy
  physicalCompaction := decision.physicalCompaction
  visualTokenSpans := decision.visualTokenSpans.map (·.toRecord)
  keptVisualTokensBySpan := decision.visualTokenSpans.map fun span =>
    (span.modality, span.index, span.positions.countP (· ∈ decision.keptTokenIndices))
  keptTokenIndices := decision.keptTokenIndices
  droppedTokenIndices := decision.droppedTokenIndices
  selectionSource := none

/-- The part of a record that the engine reads. -/
def Record.compressionRecord (record : Record) : CompressionRecord where
  physicalCompaction := record.physicalCompaction
  promptTokenCount := some record.promptTokenCount
  visualTokenSpans := record.visualTokenSpans.map fun span => (span.start, span.stop)
  keptTokenIndices := record.keptTokenIndices
  droppedTokenIndices := record.droppedTokenIndices

/-- The checks of `_replay_index_tuple` that the types do not make. -/
def replayIndexTuple (indices : List ℕ) (name : String) : Except VisualPruningError Unit :=
  ensure (SortedUnique indices) (.replayIndices name)

def replayCount (name : String) (source expected : ℕ) : Except VisualPruningError Unit :=
  ensure (source = expected) (.replayCount name source expected)

/-- Scores that prefer the kept tokens. -/
def replayScores (visual kept : List ℕ) (index : ℕ) : Option Score :=
  if index ∈ visual then some (.finite (if index ∈ kept then 1 else 0)) else none

variable {H : Type}

/-- `_normalize_visual_pruning_replay_record`. -/
def normalizeReplayRecord (seq : Sequence H) (config : Config) (record : Record) :
    Except VisualPruningError Record := do
  ensure (record.strategy = config.strategy) .replayStrategy
  ensure (record.promptTokenCount = seq.numPromptTokens)
    (.replayPromptLength record.promptTokenCount seq.numPromptTokens)
  let spans ← findVisualTokenSpans seq
  ensure (record.visualTokenSpans = spans.map (·.toRecord)) .replaySpans
  let visual := (visualTokenIndices spans).dedup
  replayIndexTuple record.keptTokenIndices "kept_token_indices"
  replayIndexTuple record.droppedTokenIndices "dropped_token_indices"
  ensure (∀ index ∈ record.keptTokenIndices, index ∉ record.droppedTokenIndices) .replayOverlap
  ensure ((∀ index ∈ record.keptTokenIndices ++ record.droppedTokenIndices, index ∈ visual) ∧
    ∀ index ∈ visual, index ∈ record.keptTokenIndices ++ record.droppedTokenIndices)
    .replayPartition
  replayCount "total_visual_tokens" record.totalVisualTokens visual.length
  replayCount "kept_visual_tokens" record.keptVisualTokens record.keptTokenIndices.length
  replayCount "dropped_visual_tokens" record.droppedVisualTokens record.droppedTokenIndices.length
  let validated ← computePruningDecision seq { config with strategy := .score }
    (some (replayScores visual record.keptTokenIndices))
  match validated with
  | none => .error .replayKept
  | some validated => do
    ensure (validated.keptTokenIndices = record.keptTokenIndices) .replayKept
    return { validated.toRecord with
      strategy := config.strategy
      selectionSource := some (record.seqId, record.promptTokenCount) }

/-! ## What a decision says -/

/-- The minimum of the policy for a prompt: without an image placeholder the one for videos,
which by default is everything. -/
def policyMinimum (req : Request) (config : Config) : ℕ :=
  if req.imageTokenCount = 0 then config.videoMinKeepTokens.getD req.visualPositions.length
  else config.minKeepTokens

/-- The target number of the visual positions is kept: the ratio of them, rounded as the floats
do and up, at least the minimum and at most all. Every span is split into its kept and its
dropped positions. -/
structure Exact (seq : Sequence H) (config : Config) (decision : Decision) : Prop where
  spans : visualTokenIndices decision.visualTokenSpans = seq.request.visualPositions
  nonempty : ∀ span ∈ decision.visualTokenSpans, span.start < span.stop
  kept_sorted : decision.keptTokenIndices.Pairwise (· < ·)
  dropped_sorted : decision.droppedTokenIndices.Pairwise (· < ·)
  visual : (decision.keptTokenIndices ++ decision.droppedTokenIndices).Perm
    seq.request.visualPositions
  span : ∀ span ∈ decision.visualTokenSpans,
    (decision.keptTokenIndices.filter (fun index => span.start ≤ index ∧ index < span.stop) ++
      decision.droppedTokenIndices.filter
        (fun index => span.start ≤ index ∧ index < span.stop)).Perm span.positions
  minimum : decision.effectiveMinKeepTokens = policyMinimum seq.request config
  target : decision.keptTokenIndices.length = min seq.request.visualPositions.length
    (max (policyMinimum seq.request config)
      ⌈binary64 (binary64 seq.request.visualPositions.length * config.keepRatio)⌉.toNat)
  total_count : decision.totalVisualTokens = seq.request.visualPositions.length
  kept_count : decision.keptVisualTokens = decision.keptTokenIndices.length
  dropped_count : decision.droppedVisualTokens = decision.droppedTokenIndices.length

section Decisions

variable {seq : Sequence H} {config : Config} {kept : List ℕ}

/-- The spans the scan finds in a sequence. -/
abbrev spansOf (seq : Sequence H) : List Span :=
  scanVisualTokenSpans seq.tokenIds seq.request.imageTokenId seq.request.videoTokenId

theorem filter_span_visual (hprompt : PrunablePrompt seq) {span : Span}
    (hspan : span ∈ spansOf seq) :
    (seq.request.visualPositions.filter fun index =>
      span.start ≤ index ∧ index < span.stop).Perm span.positions := by
  have hnodup : seq.request.visualPositions.Nodup :=
    seq.request.visualPositions_pairwise.imp fun hlt => ne_of_lt hlt
  rw [List.perm_ext_iff_of_nodup (hnodup.filter _)
    (show span.positions.Nodup from List.nodup_range')]
  intro index
  rw [List.mem_filter, decide_eq_true_eq, Span.positions, List.mem_range'_1, Span.tokenCount]
  constructor
  · rintro ⟨-, hlow, hhigh⟩
    exact ⟨hlow, by omega⟩
  · rintro ⟨hlow, hhigh⟩
    refine ⟨?_, hlow, by omega⟩
    rw [← visualTokenIndices_scan hprompt, visualTokenIndices, List.mem_flatMap]
    exact ⟨span, hspan, List.mem_range'_1.mpr ⟨hlow, hhigh⟩⟩

/-- All spans are of videos where the prompt has no image placeholder. -/
theorem effectiveMinKeepTokens_eq (hprompt : PrunablePrompt seq)
    (hvisual : seq.request.visualPositions.length ≠ 0) :
    effectiveMinKeepTokens (spansOf seq) config = policyMinimum seq.request config := by
  have hpositions := visualTokenIndices_scan hprompt
  have hnonempty := (scanVisualTokenSpans_spec seq.tokenIds seq.request.imageTokenId
    seq.request.videoTokenId).2
  have hcount : ((spansOf seq).map (·.tokenCount)).sum = seq.request.visualPositions.length := by
    rw [← hpositions, visualTokenIndices, List.length_flatMap]
    exact congrArg (fun f => ((spansOf seq).map f).sum) (funext fun span => List.length_range'.symm)
  have hne : spansOf seq ≠ [] := by
    intro hnil
    rw [hnil] at hcount
    exact hvisual hcount.symm
  have himages : (∀ span ∈ spansOf seq, span.modality = .video) ↔
      seq.request.imageTokenCount = 0 := by
    rw [← (modalityTokens_scan hprompt).1, modalityTokens, List.sum_eq_zero_iff]
    constructor
    · rintro h count hmem
      obtain ⟨span, hspan, rfl⟩ := List.mem_map.mp hmem
      obtain ⟨hspan, hmodality⟩ := List.mem_filter.mp hspan
      rw [h span hspan] at hmodality
      exact absurd (of_decide_eq_true hmodality) (by decide)
    · intro h span hspan
      cases hmodality : span.modality with
      | video => rfl
      | image =>
        have hzero := h span.tokenCount
          (List.mem_map_of_mem (List.mem_filter.mpr ⟨hspan, decide_eq_true hmodality⟩))
        have hpos := hnonempty span hspan
        rw [Span.tokenCount] at hzero
        omega
  unfold effectiveMinKeepTokens policyMinimum
  by_cases hnone : seq.request.imageTokenCount = 0
  · rw [if_pos ⟨hne, himages.mpr hnone⟩, if_pos hnone, hcount]
  · rw [if_neg fun h => hnone (himages.mp h.2), if_neg hnone]

theorem decisionOf_exact (hprompt : PrunablePrompt seq)
    (hvisual : seq.request.visualPositions.length ≠ 0)
    (hkept : Keeps seq.request.visualPositions kept (targetKeepCount
      seq.request.visualPositions.length (effectiveMinKeepTokens (spansOf seq) config) config)) :
    Exact seq config (decisionOf seq config (spansOf seq) kept) := by
  have hspans := visualTokenIndices_scan hprompt
  have hsorted := seq.request.visualPositions_pairwise
  have hperm : (kept ++ (visualTokenIndices (spansOf seq)).filter (· ∉ kept)).Perm
      seq.request.visualPositions := by
    rw [hspans]
    have hsplit := List.filter_append_perm (· ∈ kept) seq.request.visualPositions
    have hfront : (seq.request.visualPositions.filter (· ∈ kept)).Perm kept := by
      rw [List.perm_ext_iff_of_nodup ((hsorted.imp fun hlt => ne_of_lt hlt).filter _)
        (hkept.sorted.imp fun hlt => ne_of_lt hlt)]
      intro index
      rw [List.mem_filter, decide_eq_true_eq]
      exact ⟨fun h => h.2, fun h => ⟨hkept.subset index h, h⟩⟩
    have hback : seq.request.visualPositions.filter (fun index => !decide (index ∈ kept)) =
        seq.request.visualPositions.filter (· ∉ kept) :=
      List.filter_congr fun index _ => decide_not.symm
    rw [hback] at hsplit
    exact (hfront.symm.append_right _).trans hsplit
  have hminimum : effectiveMinKeepTokens (spansOf seq) config = policyMinimum seq.request config :=
    effectiveMinKeepTokens_eq hprompt hvisual
  have htarget := hkept.count
  rw [targetKeepCount_eq _ _ hvisual, hminimum] at htarget
  refine ⟨hspans, (scanVisualTokenSpans_spec _ _ _).2, hkept.sorted, ?_, hperm, ?_, hminimum,
    htarget, congrArg List.length hspans, rfl, rfl⟩
  · show ((visualTokenIndices (spansOf seq)).filter (· ∉ kept)).Pairwise (· < ·)
    rw [hspans]
    exact hsorted.filter _
  · intro span hspan
    refine List.Perm.trans ?_ (filter_span_visual hprompt hspan)
    rw [← List.filter_append]
    exact hperm.filter _

/-- Every way to select keeps the target number. -/
theorem keepIndices_keeps {visual : List ℕ} {targetKeep : ℕ}
    {tokenScores : Option (ℕ → Option Score)} (hvisual : visual.Pairwise (· < ·))
    (htarget : targetKeep ≤ visual.length)
    (h : keepIndices config visual targetKeep tokenScores = .ok kept) :
    Keeps visual kept targetKeep := by
  unfold keepIndices at h
  cases hstrategy : config.strategy with
  | uniform =>
    rw [hstrategy] at h
    exact uniformKeepIndices_keeps hvisual htarget h
  | score =>
    rw [hstrategy] at h
    exact scoreKeepIndices_keeps hvisual htarget h
  | attention =>
    rw [hstrategy] at h
    exact scoreKeepIndices_keeps hvisual htarget h

/-- The visual positions and the target of a sequence. -/
theorem computePruningDecision_eq (hprompt : PrunablePrompt seq)
    (tokenScores : Option (ℕ → Option Score)) :
    computePruningDecision seq config tokenScores =
      if seq.request.visualPositions.length = 0 then .ok none
      else (keepIndices config seq.request.visualPositions (targetKeepCount
        seq.request.visualPositions.length (effectiveMinKeepTokens (spansOf seq) config) config)
          tokenScores).map fun kept => some (decisionOf seq config (spansOf seq) kept) := by
  simp only [computePruningDecision, findVisualTokenSpans_ok hprompt, bind, Except.bind,
    visualTokenIndices_scan hprompt, pure, Except.pure]
  by_cases hnone : seq.request.visualPositions.length = 0
  · rw [if_pos hnone, if_pos hnone]
  · rw [if_neg hnone, if_neg hnone]
    cases keepIndices config seq.request.visualPositions (targetKeepCount
        seq.request.visualPositions.length (effectiveMinKeepTokens (spansOf seq) config) config)
          tokenScores <;> rfl

theorem of_computePruningDecision {tokenScores : Option (ℕ → Option Score)} {decision : Decision}
    (hprompt : PrunablePrompt seq)
    (h : computePruningDecision seq config tokenScores = .ok (some decision)) :
    seq.request.visualPositions.length ≠ 0 ∧ ∃ kept, Keeps seq.request.visualPositions kept
      (targetKeepCount seq.request.visualPositions.length
        (effectiveMinKeepTokens (spansOf seq) config) config) ∧
      decision = decisionOf seq config (spansOf seq) kept := by
  rw [computePruningDecision_eq hprompt] at h
  by_cases hnone : seq.request.visualPositions.length = 0
  · rw [if_pos hnone] at h
    exact absurd (Except.ok.inj h) (Option.some_ne_none _).symm
  · rw [if_neg hnone] at h
    cases hkept : keepIndices config seq.request.visualPositions (targetKeepCount
        seq.request.visualPositions.length (effectiveMinKeepTokens (spansOf seq) config) config)
          tokenScores with
    | error e =>
      rw [hkept] at h
      exact absurd h (by simp [Except.map])
    | ok kept =>
      rw [hkept] at h
      exact ⟨hnone, kept, keepIndices_keeps seq.request.visualPositions_pairwise
        (targetKeepCount_le _ _ _) hkept, (Option.some.inj (Except.ok.inj h)).symm⟩

/-! ## Retained context positions -/

/-- Text positions and kept visual positions are retained, in increasing order. -/
theorem retainedContextIndices_record (hprompt : PrunablePrompt seq)
    (hkept : ∀ index ∈ kept, index ∈ seq.request.visualPositions) {contextLen : ℕ}
    (hcontext : seq.numPromptTokens ≤ contextLen) :
    (decisionOf seq config (spansOf seq) kept).toRecord.compressionRecord.retainedContextIndices
        contextLen = .ok ((List.range contextLen).filter fun index =>
          index ∉ seq.request.visualPositions ∨ index ∈ kept) := by
  set record := (decisionOf seq config (spansOf seq) kept).toRecord.compressionRecord with hrecord
  have hspans := visualTokenIndices_scan hprompt
  have hdropped : record.droppedTokenIndices =
      seq.request.visualPositions.filter (· ∉ kept) := congrArg (List.filter (· ∉ kept)) hspans
  have hlength : record.validatePromptLength contextLen = .ok seq.numPromptTokens := by
    show (do
      ensure (seq.numPromptTokens ≤ contextLen) _
      return seq.numPromptTokens : Except EngineError ℕ) = _
    simp only [ensure, if_pos hcontext, bind, Except.bind, pure, Except.pure]
  have hvisual : record.visualIndices seq.numPromptTokens = .ok seq.request.visualPositions := by
    have hrun : record.visualTokenSpans.mapM (fun span : ℕ × ℕ => do
        ensure (span.1 ≤ span.2 ∧ span.2 ≤ seq.numPromptTokens)
          (EngineError.compaction (.spanOutsidePrompt span.1 span.2 seq.numPromptTokens))
        return List.range' span.1 (span.2 - span.1)) =
          .ok ((spansOf seq).map (·.positions)) := by
      have hpairs : record.visualTokenSpans =
          (spansOf seq).map fun span => (span.start, span.stop) := List.map_map
      rw [mapM_ok, hpairs, List.forall₂_map_right_iff, List.forall₂_map_left_iff, List.forall₂_same]
      intro span hspan
      have hpos := (scanVisualTokenSpans_spec _ _ _).2 span hspan
      have hlast : span.stop - 1 ∈ seq.request.visualPositions := by
        rw [← hspans, visualTokenIndices, List.mem_flatMap]
        exact ⟨span, hspan, List.mem_range'_1.mpr ⟨by omega, by rw [Span.tokenCount]; omega⟩⟩
      have hbound : span.stop - 1 < seq.numPromptTokens :=
        List.mem_range.mp (List.mem_filter.mp hlast).1
      have hinside : span.start ≤ span.stop ∧ span.stop ≤ seq.numPromptTokens := by omega
      simp only [ensure, if_pos hinside, bind, Except.bind, pure, Except.pure]
      rfl
    rw [CompressionRecord.visualIndices, hrun, ← hspans]
    rfl
  have hpartition : record.validatePartition seq.request.visualPositions = .ok () := by
    have hoverlap : ∀ index ∈ record.keptTokenIndices, index ∉ record.droppedTokenIndices := by
      intro index hindex hmem
      rw [hdropped] at hmem
      exact of_decide_eq_true (List.mem_filter.mp hmem).2 hindex
    have hcover : (∀ index ∈ record.keptTokenIndices ++ record.droppedTokenIndices,
        index ∈ seq.request.visualPositions) ∧ ∀ index ∈ seq.request.visualPositions,
          index ∈ record.keptTokenIndices ++ record.droppedTokenIndices := by
      rw [hdropped]
      constructor
      · intro index hindex
        rcases List.mem_append.mp hindex with hmem | hmem
        · exact hkept index hmem
        · exact List.mem_of_mem_filter hmem
      · intro index hindex
        by_cases hmem : index ∈ kept
        · exact List.mem_append_left _ hmem
        · exact List.mem_append_right _ (List.mem_filter.mpr ⟨hindex, decide_eq_true hmem⟩)
    simp only [CompressionRecord.validatePartition, ensure, if_pos hoverlap, if_pos hcover, bind,
      Except.bind]
  have hdense : record.physicalCompaction = false := rfl
  simp only [CompressionRecord.retainedContextIndices, ensure, if_pos hdense, hlength, hvisual,
    hpartition, bind, Except.bind, pure, Except.pure]
  congr 1
  apply List.filter_congr
  intro index _
  rw [hdropped, decide_eq_decide, List.mem_filter, decide_eq_true_eq, not_and_or, not_not]

/-! ## Replay -/

instance : Std.Antisymm fun a b : ℚ × ℕ => sortKey a ≤ sortKey b where
  antisymm a b hab hba := by
    have heq := congrArg ofLex (le_antisymm hab hba)
    rw [sortKey, sortKey, ofLex_toLex, ofLex_toLex, Prod.mk.injEq, neg_inj] at heq
    exact Prod.ext heq.1 heq.2

/-- Scores that prefer the kept positions select them again. -/
theorem scoreKeepIndices_replay {visual : List ℕ} {targetKeep : ℕ}
    (hvisual : visual.Pairwise (· < ·)) (hkept : Keeps visual kept targetKeep) :
    scoreKeepIndices visual targetKeep (some (replayScores visual kept)) = .ok kept := by
  set flagged : ℕ → ℚ × ℕ := fun index => (if index ∈ kept then 1 else 0, index) with hflagged
  have hscored : visual.mapM (scoreOf (replayScores visual kept)) = .ok (visual.map flagged) := by
    rw [mapM_ok, List.forall₂_map_right_iff, List.forall₂_same]
    intro index hindex
    rw [scoreOf, replayScores, if_pos hindex]
  have hnodup : visual.Nodup := hvisual.imp fun hlt => ne_of_lt hlt
  have hperm : visual.Perm (kept ++ visual.filter (· ∉ kept)) := by
    rw [List.perm_ext_iff_of_nodup hnodup]
    · intro index
      rw [List.mem_append, List.mem_filter, decide_eq_true_eq]
      constructor
      · intro h
        by_cases hmem : index ∈ kept
        · exact .inl hmem
        · exact .inr ⟨h, hmem⟩
      · rintro (h | h)
        · exact hkept.subset index h
        · exact h.1
    · rw [List.nodup_append]
      refine ⟨hkept.sorted.imp fun hlt => ne_of_lt hlt, hnodup.filter _, ?_⟩
      rintro a ha b hb rfl
      exact of_decide_eq_true (List.mem_filter.mp hb).2 ha
  -- the kept positions come first, and in order
  have hsorted : ((kept ++ visual.filter (· ∉ kept)).map flagged).Pairwise
      fun a b => sortKey a ≤ sortKey b := by
    rw [List.pairwise_map, List.pairwise_append]
    have hkey : ∀ a b : ℕ, (a ∈ kept ↔ b ∈ kept) → a < b →
        sortKey (flagged a) ≤ sortKey (flagged b) := by
      intro a b hiff hlt
      rw [sortKey, sortKey, Prod.Lex.toLex_le_toLex]
      exact .inr ⟨by simp only [hflagged, hiff], hlt.le⟩
    refine ⟨?_, ?_, ?_⟩
    · exact hkept.sorted.imp_of_mem fun ha hb hlt => hkey _ _ (by simp [ha, hb]) hlt
    · refine (hvisual.filter _).imp_of_mem fun ha hb hlt => hkey _ _ ?_ hlt
      have hna := of_decide_eq_true (List.mem_filter.mp ha).2
      have hnb := of_decide_eq_true (List.mem_filter.mp hb).2
      exact ⟨fun h => absurd h hna, fun h => absurd h hnb⟩
    · intro a ha b hb
      have hnb := of_decide_eq_true (List.mem_filter.mp hb).2
      rw [sortKey, sortKey, Prod.Lex.toLex_le_toLex]
      refine .inl ?_
      simp only [hflagged, if_pos ha, if_neg hnb]
      norm_num
  have hresult : (visual.map flagged).insertionSort (fun a b => sortKey a ≤ sortKey b) =
      (kept ++ visual.filter (· ∉ kept)).map flagged := by
    apply List.Perm.eq_of_pairwise' (List.pairwise_insertionSort _ _) hsorted
    exact (List.perm_insertionSort _ _).trans (hperm.map _)
  simp only [scoreKeepIndices, hscored, bind, Except.bind, pure, Except.pure, hresult]
  rw [List.map_append, List.take_left' (by rw [List.length_map]; exact hkept.count),
    List.map_map]
  have hback : kept.map ((·.2) ∘ flagged) = kept := List.map_id _
  rw [hback]
  exact congrArg Except.ok (hkept.sorted.imp fun hlt => hlt.le).insertionSort_eq

/-- Two sequences of one prompt. -/
structure SamePrompt (seq seq' : Sequence H) : Prop where
  tokenIds : seq'.tokenIds = seq.tokenIds
  promptTokenIds : seq'.request.promptTokenIds = seq.request.promptTokenIds
  imageTokenId : seq'.request.imageTokenId = seq.request.imageTokenId
  imageTokenCount : seq'.request.imageTokenCount = seq.request.imageTokenCount
  videoTokenId : seq'.request.videoTokenId = seq.request.videoTokenId
  videoTokenCount : seq'.request.videoTokenCount = seq.request.videoTokenCount

variable {seq' : Sequence H}

theorem SamePrompt.prunable (h : SamePrompt seq seq') (hprompt : PrunablePrompt seq) :
    PrunablePrompt seq' := by
  have hids : seq'.request.visualTokenIds = seq.request.visualTokenIds := by
    unfold Request.visualTokenIds
    rw [h.imageTokenId, h.videoTokenId]
  refine ⟨?_, ?_, ?_, ?_⟩
  · rw [h.tokenIds, h.promptTokenIds, hids]
    exact hprompt.prompt
  · rw [h.imageTokenCount, h.imageTokenId, h.promptTokenIds]
    exact hprompt.images
  · rw [h.videoTokenCount, h.videoTokenId, h.promptTokenIds]
    exact hprompt.videos
  · rw [h.imageTokenId, h.videoTokenId]
    exact hprompt.distinct

theorem SamePrompt.visualPositions (h : SamePrompt seq seq') :
    seq'.request.visualPositions = seq.request.visualPositions := by
  unfold Request.visualPositions Request.visualTokenIds Request.numPromptTokens
  rw [h.imageTokenId, h.videoTokenId, h.promptTokenIds]

/-- The record of a decision is accepted for its prompt and comes back, locked. -/
theorem normalizeReplayRecord_ok (hprompt : PrunablePrompt seq) (hsame : SamePrompt seq seq')
    (hvisual : seq.request.visualPositions.length ≠ 0)
    (hkept : Keeps seq.request.visualPositions kept (targetKeepCount
      seq.request.visualPositions.length (effectiveMinKeepTokens (spansOf seq) config) config)) :
    normalizeReplayRecord seq' config (decisionOf seq config (spansOf seq) kept).toRecord =
      .ok { (decisionOf seq config (spansOf seq) kept).toRecord with
        seqId := seq'.request.seqId
        selectionSource := some (seq.request.seqId, seq.numPromptTokens) } := by
  have hexact := decisionOf_exact hprompt hvisual hkept
  have hprompt' := hsame.prunable hprompt
  have hspans' : spansOf seq' = spansOf seq := by
    unfold spansOf
    rw [hsame.tokenIds, hsame.imageTokenId, hsame.videoTokenId]
  have hcount' : seq'.numPromptTokens = seq.numPromptTokens :=
    congrArg List.length hsame.promptTokenIds
  have hnodup : seq.request.visualPositions.Nodup :=
    seq.request.visualPositions_pairwise.imp fun hlt => ne_of_lt hlt
  have hdedup : (visualTokenIndices (spansOf seq)).dedup = seq.request.visualPositions := by
    rw [visualTokenIndices_scan hprompt, hnodup.dedup]
  -- the validation runs the policy on the scores of the kept tokens
  have hvalidated : computePruningDecision seq' { config with strategy := .score }
      (some (replayScores seq.request.visualPositions kept)) =
        .ok (some (decisionOf seq' { config with strategy := .score } (spansOf seq) kept)) := by
    rw [computePruningDecision_eq hprompt', hsame.visualPositions, if_neg hvisual, hspans']
    have hrun : keepIndices { config with strategy := .score } seq.request.visualPositions
        (targetKeepCount seq.request.visualPositions.length (effectiveMinKeepTokens (spansOf seq)
          { config with strategy := .score }) { config with strategy := .score })
        (some (replayScores seq.request.visualPositions kept)) = .ok kept :=
      scoreKeepIndices_replay seq.request.visualPositions_pairwise hkept
    rw [hrun]
    rfl
  set record := (decisionOf seq config (spansOf seq) kept).toRecord with hrecord
  have hstrategy : record.strategy = config.strategy := rfl
  have hlength : record.promptTokenCount = seq'.numPromptTokens := hcount'.symm
  have hspans : record.visualTokenSpans = (spansOf seq).map (·.toRecord) := rfl
  have hkeptSorted : SortedUnique record.keptTokenIndices := hexact.kept_sorted
  have hdroppedSorted : SortedUnique record.droppedTokenIndices := hexact.dropped_sorted
  have hoverlap : ∀ index ∈ record.keptTokenIndices, index ∉ record.droppedTokenIndices := by
    intro index hindex hmem
    exact of_decide_eq_true (List.mem_filter.mp hmem).2 hindex
  have hpartition : (∀ index ∈ record.keptTokenIndices ++ record.droppedTokenIndices,
      index ∈ seq.request.visualPositions) ∧ ∀ index ∈ seq.request.visualPositions,
        index ∈ record.keptTokenIndices ++ record.droppedTokenIndices :=
    ⟨fun index => hexact.visual.mem_iff.mp, fun index => hexact.visual.mem_iff.mpr⟩
  have htotal : record.totalVisualTokens = seq.request.visualPositions.length := hexact.total_count
  have hkeptCount : record.keptVisualTokens = record.keptTokenIndices.length := rfl
  have hdroppedCount : record.droppedVisualTokens = record.droppedTokenIndices.length := rfl
  have hreplayed : computePruningDecision seq' { config with strategy := .score }
      (some (replayScores seq.request.visualPositions record.keptTokenIndices)) =
        .ok (some (decisionOf seq' { config with strategy := .score } (spansOf seq) kept)) :=
    hvalidated
  have hfind : findVisualTokenSpans seq' = .ok (spansOf seq) := by
    rw [findVisualTokenSpans_ok hprompt']
    exact congrArg Except.ok hspans'
  have hsameKept : (decisionOf seq' { config with strategy := .score } (spansOf seq)
      kept).keptTokenIndices = record.keptTokenIndices := rfl
  simp only [normalizeReplayRecord, replayIndexTuple, replayCount, ensure, if_pos hstrategy,
    if_pos hlength, hfind, if_pos hspans, hdedup, if_pos hkeptSorted, if_pos hdroppedSorted,
    if_pos hoverlap, if_pos hpartition, if_pos htotal, if_pos hkeptCount, if_pos hdroppedCount,
    hreplayed, bind, Except.bind, pure, Except.pure]
  rw [if_pos hsameKept, hrecord]
  simp only [Decision.toRecord, decisionOf, hcount']
  rfl

end Decisions

/-- A decision keeps exactly the target number, partitions every span, and leaves the text and
the kept positions in the context; its record is accepted for the prompt and selects the same
tokens. A list of more than `2 ^ 53` tokens would not fit any address space, but only there may
evenly spaced selection fail, and then it returns nothing. -/
theorem pruning_decision_exact (seq : Sequence H) (config : Config)
    (tokenScores : Option (ℕ → Option Score)) (hprompt : PrunablePrompt seq) :
    ((config.strategy = .uniform → seq.request.visualPositions.length ≤ 2 ^ 53) →
      (config.strategy ≠ .uniform → ∃ scores, tokenScores = some scores ∧
        ∀ index ∈ seq.request.visualPositions, ∃ value, scores index = some (.finite value)) →
      ∃ outcome, computePruningDecision seq config tokenScores = .ok outcome) ∧
    (∀ outcome, computePruningDecision seq config tokenScores = .ok outcome →
      (outcome = none ↔ seq.request.visualPositions = [])) ∧
    ∀ decision, computePruningDecision seq config tokenScores = .ok (some decision) →
      Exact seq config decision ∧
      (∀ contextLen, seq.numPromptTokens ≤ contextLen →
        decision.toRecord.compressionRecord.retainedContextIndices contextLen =
          .ok ((List.range contextLen).filter fun index =>
            index ∉ seq.request.visualPositions ∨ index ∈ decision.keptTokenIndices)) ∧
      ∀ seq', SamePrompt seq seq' →
        normalizeReplayRecord seq' config decision.toRecord = .ok { decision.toRecord with
          seqId := seq'.request.seqId
          selectionSource := some (decision.seqId, decision.promptTokenCount) } := by
  refine ⟨?_, ?_, ?_⟩
  · intro hsize hscores
    rw [computePruningDecision_eq hprompt]
    by_cases hnone : seq.request.visualPositions.length = 0
    · exact ⟨none, if_pos hnone⟩
    · rw [if_neg hnone]
      have hpos := targetKeepCount_pos config hnone
        (effectiveMinKeepTokens_pos config (scanVisualTokenSpans_spec seq.tokenIds
          seq.request.imageTokenId seq.request.videoTokenId).2)
      have hkept : ∃ kept, keepIndices config seq.request.visualPositions (targetKeepCount
          seq.request.visualPositions.length (effectiveMinKeepTokens (spansOf seq) config) config)
            tokenScores = .ok kept := by
        unfold keepIndices
        cases hstrategy : config.strategy with
        | uniform =>
          exact uniformKeepIndices_returns hpos (targetKeepCount_le _ _ _) (hsize hstrategy)
        | score =>
          obtain ⟨scores, rfl, hfinite⟩ := hscores (by rw [hstrategy]; decide)
          exact scoreKeepIndices_returns hfinite
        | attention =>
          obtain ⟨scores, rfl, hfinite⟩ := hscores (by rw [hstrategy]; decide)
          exact scoreKeepIndices_returns hfinite
      obtain ⟨kept, hkept⟩ := hkept
      rw [hkept]
      exact ⟨_, rfl⟩
  · intro outcome houtcome
    cases outcome with
    | none =>
      refine ⟨fun _ => ?_, fun _ => rfl⟩
      rw [computePruningDecision_eq hprompt] at houtcome
      by_cases hnone : seq.request.visualPositions.length = 0
      · exact List.eq_nil_of_length_eq_zero hnone
      · rw [if_neg hnone] at houtcome
        cases hkept : keepIndices config seq.request.visualPositions (targetKeepCount
            seq.request.visualPositions.length (effectiveMinKeepTokens (spansOf seq) config)
              config) tokenScores with
        | error e =>
          rw [hkept] at houtcome
          exact absurd houtcome (by simp [Except.map])
        | ok kept =>
          rw [hkept] at houtcome
          exact absurd (Except.ok.inj houtcome) (Option.some_ne_none _)
    | some decision =>
      have hvisual := (of_computePruningDecision hprompt houtcome).1
      refine ⟨fun h => absurd h (Option.some_ne_none _), fun h => ?_⟩
      exact absurd (congrArg List.length h) hvisual
  · intro decision hdecision
    obtain ⟨hvisual, kept, hkept, rfl⟩ := of_computePruningDecision hprompt hdecision
    refine ⟨decisionOf_exact hprompt hvisual hkept, ?_, ?_⟩
    · intro contextLen hcontext
      exact retainedContextIndices_record hprompt hkept.subset hcontext
    · intro seq' hsame
      exact normalizeReplayRecord_ok hprompt hsame hvisual hkept

/-- Three spans of two modalities. -/
def mixedVisualRequest : Request where
  seqId := 0
  blockSize := 256
  promptTokenIds := [1, 99, 99, 2, 98, 98, 3, 99]
  promptNonempty := by decide
  maxTokens := 1
  maxTokensPositive := Nat.one_pos
  ignoreEos := false
  submittedNs := none
  ttftSloNs := none
  images := none
  video := none
  hasPositionIds := false
  hasRopeDelta := false
  imageTokenId := some 99
  imageTokenCount := 3
  videoTokenId := some 98
  videoTokenCount := 2
  imageMergeSize := 2
  hasPrefixCacheKey := false
  hasMediaTokenHashes := false

def halfUniform : Config where
  keepRatio := 1 / 2
  keepRatio_pos := by norm_num
  keepRatio_le := by norm_num
  minKeepTokens := 1
  minKeepTokens_pos := le_rfl
  videoMinKeepTokens := none
  videoMinKeepTokens_pos := fun n h => absurd h (Option.some_ne_none n).symm
  strategy := .uniform

theorem pruning_decision_exact_mixed :
    ∃ decision, computePruningDecision (Sequence.ofRequest ℕ mixedVisualRequest) halfUniform
        none = .ok (some decision) ∧
      (decision.keptTokenIndices ++ decision.droppedTokenIndices).Perm [1, 2, 4, 5, 7] := by
  have hprompt : PrunablePrompt (Sequence.ofRequest ℕ mixedVisualRequest) :=
    ⟨⟨[], rfl, fun token h => absurd h List.not_mem_nil⟩, by decide, by decide, by decide⟩
  obtain ⟨hreturns, hnone, hdecision⟩ := pruning_decision_exact
    (Sequence.ofRequest ℕ mixedVisualRequest) halfUniform none hprompt
  obtain ⟨outcome, houtcome⟩ := hreturns (fun _ => by decide) (fun h => absurd rfl h)
  cases outcome with
  | none => exact absurd ((hnone none houtcome).mp rfl) (by decide)
  | some decision => exact ⟨decision, houtcome, (hdecision decision houtcome).1.visual⟩

end VisualPruning

end PrismInfer
