import PrismInfer.Lib.BinaryFloat
import PrismInfer.VisualTokenSpans

/-!
# Visual pruning decisions

How many visual tokens of a prompt are kept follows from the keep ratio and a minimum; which
ones, from evenly spaced ordinals or from scores. Kept and dropped positions partition every
span, and exactly the target number is kept, also where rounding makes two ordinals equal.
-/
namespace PrismInfer
open StateExcept

namespace VisualPruning

inductive Strategy
  | uniform
  | score
  | attention
deriving DecidableEq, Repr

/-- `VisualPruningConfig`, with what `__post_init__` checks. -/
structure Config where
  keepRatio : ℚ
  keepRatio_pos : 0 < keepRatio
  keepRatio_le : keepRatio ≤ 1
  minKeepTokens : ℕ
  minKeepTokens_pos : 1 ≤ minKeepTokens
  /-- `None` keeps every video token. -/
  videoMinKeepTokens : Option ℕ
  videoMinKeepTokens_pos : ∀ n, videoMinKeepTokens = some n → 1 ≤ n
  strategy : Strategy

/-- A score, as `isfinite` sees it. -/
inductive Score
  | finite (value : ℚ)
  | notFinite
deriving DecidableEq, Repr

/-- A float64 result. -/
def binary64 (x : ℚ) : ℚ := BinaryFloat.round 53 (-1074) x

/-- `_effective_min_keep_tokens`. -/
def effectiveMinKeepTokens (spans : List Span) (config : Config) : ℕ :=
  if spans ≠ [] ∧ ∀ span ∈ spans, span.modality = .video then
    config.videoMinKeepTokens.getD (spans.map (·.tokenCount)).sum
  else config.minKeepTokens

/-- `_target_keep_count`. -/
def targetKeepCount (totalVisualTokens minKeepTokens : ℕ) (config : Config) : ℕ :=
  if totalVisualTokens = 0 then 0
  else if totalVisualTokens ≤ minKeepTokens then totalVisualTokens
  else
    let target := max minKeepTokens
      ⌈binary64 (binary64 totalVisualTokens * config.keepRatio)⌉.toNat
    min totalVisualTokens target

/-- The evenly spaced ordinal of one kept token. -/
def uniformOrdinal (total targetKeep keepIdx : ℕ) : ℕ :=
  (BinaryFloat.roundHalfEven
    (binary64 ((keepIdx * (total - 1) : ℕ) / (targetKeep - 1 : ℕ)))).toNat

/-- The first loop of `_uniform_keep_indices`. -/
def spacedOrdinals (total targetKeep : ℕ) : List ℕ :=
  (List.range targetKeep).foldl (fun selected keepIdx =>
    let ordinal := uniformOrdinal total targetKeep keepIdx
    if ordinal ∈ selected then selected else selected ++ [ordinal]) []

/-- The second loop, which fills up to the target after a collision. -/
def fillOrdinals (targetKeep : ℕ) : List ℕ → List ℕ → List ℕ
  | [], selected => selected
  | ordinal :: ordinals, selected =>
    if ordinal ∈ selected then fillOrdinals targetKeep ordinals selected
    else if selected.length + 1 = targetKeep then selected ++ [ordinal]
    else fillOrdinals targetKeep ordinals (selected ++ [ordinal])

/-- `visual_token_indices[ordinal]`. -/
def atOrdinal (visualTokenIndices : List ℕ) (ordinal : ℕ) : Except VisualPruningError ℕ :=
  match visualTokenIndices[ordinal]? with
  | some index => .ok index
  | none => .error (.ordinalOutside ordinal visualTokenIndices.length)

/-- `_uniform_keep_indices`. -/
def uniformKeepIndices (visualTokenIndices : List ℕ) (targetKeep : ℕ) :
    Except VisualPruningError (List ℕ) :=
  let total := visualTokenIndices.length
  if total ≤ targetKeep then .ok visualTokenIndices
  else if targetKeep = 1 then do
    let index ← atOrdinal visualTokenIndices (total / 2)
    return [index]
  else
    let spaced := spacedOrdinals total targetKeep
    let selected :=
      if spaced.length < targetKeep then fillOrdinals targetKeep (List.range total) spaced
      else spaced
    (selected.insertionSort (· ≤ ·)).mapM (atOrdinal visualTokenIndices)

/-- The score of one visual token. -/
def scoreOf (tokenScores : ℕ → Option Score) (index : ℕ) :
    Except VisualPruningError (ℚ × ℕ) :=
  match tokenScores index with
  | none => .error (.scoreMissing index)
  | some .notFinite => .error (.scoreNotFinite index)
  | some (.finite value) => .ok (value, index)

/-- `(-item[0], item[1])`. -/
def sortKey (item : ℚ × ℕ) : ℚ ×ₗ ℕ := toLex (-item.1, item.2)

/-- `_score_keep_indices`. -/
def scoreKeepIndices (visualTokenIndices : List ℕ) (targetKeep : ℕ)
    (tokenScores : Option (ℕ → Option Score)) : Except VisualPruningError (List ℕ) :=
  match tokenScores with
  | none => .error .scoresMissing
  | some tokenScores => do
    let scored ← visualTokenIndices.mapM (scoreOf tokenScores)
    let selected := (scored.insertionSort fun a b => sortKey a ≤ sortKey b).take targetKeep
    return (selected.map (·.2)).insertionSort (· ≤ ·)

/-- `PruningDecision`. -/
structure Decision where
  seqId : ℕ
  promptTokenCount : ℕ
  totalVisualTokens : ℕ
  keptVisualTokens : ℕ
  droppedVisualTokens : ℕ
  keepRatioTarget : ℚ
  keepRatioActual : ℚ
  effectiveMinKeepTokens : ℕ
  strategy : Strategy
  visualTokenSpans : List Span
  keptTokenIndices : List ℕ
  droppedTokenIndices : List ℕ
  physicalCompaction : Bool
deriving DecidableEq, Repr

def keepIndices (config : Config) (visualTokenIndices : List ℕ) (targetKeep : ℕ)
    (tokenScores : Option (ℕ → Option Score)) : Except VisualPruningError (List ℕ) :=
  match config.strategy with
  | .uniform => uniformKeepIndices visualTokenIndices targetKeep
  | .score => scoreKeepIndices visualTokenIndices targetKeep tokenScores
  | .attention => scoreKeepIndices visualTokenIndices targetKeep tokenScores

variable {H : Type}

/-- The decision that keeps `keptTokenIndices`. -/
def decisionOf (seq : Sequence H) (config : Config) (spans : List Span)
    (keptTokenIndices : List ℕ) : Decision :=
  let visual := visualTokenIndices spans
  let dropped := visual.filter (· ∉ keptTokenIndices)
  { seqId := seq.request.seqId
    promptTokenCount := seq.numPromptTokens
    totalVisualTokens := visual.length
    keptVisualTokens := keptTokenIndices.length
    droppedVisualTokens := dropped.length
    keepRatioTarget := config.keepRatio
    keepRatioActual := binary64 (keptTokenIndices.length / visual.length)
    effectiveMinKeepTokens := effectiveMinKeepTokens spans config
    strategy := config.strategy
    visualTokenSpans := spans
    keptTokenIndices := keptTokenIndices
    droppedTokenIndices := dropped
    physicalCompaction := false }

def computePruningDecision (seq : Sequence H) (config : Config)
    (tokenScores : Option (ℕ → Option Score)) : Except VisualPruningError (Option Decision) := do
  let spans ← findVisualTokenSpans seq
  let visual := visualTokenIndices spans
  if visual.length = 0 then return none
  let targetKeep := targetKeepCount visual.length (effectiveMinKeepTokens spans config) config
  let kept ← keepIndices config visual targetKeep tokenScores
  return some (decisionOf seq config spans kept)

/-! ## The target -/

theorem targetKeepCount_le (total minKeep : ℕ) (config : Config) :
    targetKeepCount total minKeep config ≤ total := by
  unfold targetKeepCount
  split
  · omega
  · split
    · exact le_rfl
    · exact min_le_left _ _

/-- Both early returns agree with the general case. -/
theorem targetKeepCount_eq {total : ℕ} (minKeep : ℕ) (config : Config) (htotal : total ≠ 0) :
    targetKeepCount total minKeep config =
      min total (max minKeep ⌈binary64 (binary64 total * config.keepRatio)⌉.toNat) := by
  unfold targetKeepCount
  rw [if_neg htotal]
  split
  · rename_i hle
    exact (min_eq_left (hle.trans (le_max_left _ _))).symm
  · rfl

theorem targetKeepCount_pos {total minKeep : ℕ} (config : Config) (htotal : total ≠ 0)
    (hmin : 1 ≤ minKeep) : 1 ≤ targetKeepCount total minKeep config := by
  unfold targetKeepCount
  rw [if_neg htotal]
  split
  · omega
  · exact le_min (by omega) (hmin.trans (le_max_left _ _))

theorem effectiveMinKeepTokens_pos {spans : List Span} (config : Config)
    (h : ∀ span ∈ spans, span.start < span.stop) : 1 ≤ effectiveMinKeepTokens spans config := by
  unfold effectiveMinKeepTokens
  split
  · rename_i hvideo
    cases hmin : config.videoMinKeepTokens with
    | some n => exact config.videoMinKeepTokens_pos n hmin
    | none =>
      obtain ⟨span, rest, rfl⟩ := List.exists_cons_of_ne_nil hvideo.1
      have hpos := h span List.mem_cons_self
      rw [Option.getD_none, List.map_cons, List.sum_cons, Span.tokenCount]
      omega
  · exact config.minKeepTokens_pos

/-! ## Evenly spaced ordinals -/

/-- What the first loop has selected. -/
theorem spaced_foldl (ordinalOf : ℕ → ℕ) (indices selected : List ℕ) (hnodup : selected.Nodup) :
    let result := indices.foldl (fun selected index =>
      if ordinalOf index ∈ selected then selected else selected ++ [ordinalOf index]) selected
    result.Nodup ∧ result.length ≤ selected.length + indices.length ∧
      ∀ ordinal ∈ result, ordinal ∈ selected ∨ ∃ index ∈ indices, ordinal = ordinalOf index := by
  induction indices generalizing selected with
  | nil => exact ⟨hnodup, le_rfl, fun ordinal h => .inl h⟩
  | cons index indices ih =>
    intro result
    have hresult : result = indices.foldl (fun selected index =>
      if ordinalOf index ∈ selected then selected else selected ++ [ordinalOf index])
        (if ordinalOf index ∈ selected then selected else selected ++ [ordinalOf index]) :=
      List.foldl_cons
    rw [hresult, List.length_cons]
    by_cases hmem : ordinalOf index ∈ selected
    · rw [if_pos hmem]
      obtain ⟨hnodup', hlength, hfrom⟩ := ih selected hnodup
      refine ⟨hnodup', by omega, ?_⟩
      intro ordinal hordinal
      rcases hfrom ordinal hordinal with hold | ⟨i, hi, rfl⟩
      · exact .inl hold
      · exact .inr ⟨i, List.mem_cons_of_mem _ hi, rfl⟩
    · rw [if_neg hmem]
      obtain ⟨hnodup', hlength, hfrom⟩ := ih (selected ++ [ordinalOf index])
        (List.nodup_append.mpr ⟨hnodup, List.nodup_singleton _, by
          rintro a ha b hb rfl
          exact hmem (List.mem_singleton.mp hb ▸ ha)⟩)
      rw [List.length_append, List.length_singleton] at hlength
      refine ⟨hnodup', by omega, ?_⟩
      intro ordinal hordinal
      rcases hfrom ordinal hordinal with hold | ⟨i, hi, rfl⟩
      · rcases List.mem_append.mp hold with hold | hnew
        · exact .inl hold
        · exact .inr ⟨index, List.mem_cons_self, List.mem_singleton.mp hnew⟩
      · exact .inr ⟨i, List.mem_cons_of_mem _ hi, rfl⟩

/-- The second loop reaches the target when enough ordinals are left. -/
theorem fillOrdinals_spec {targetKeep : ℕ} (ordinals selected : List ℕ)
    (hordinals : ordinals.Nodup) (hnodup : selected.Nodup) (hlt : selected.length < targetKeep)
    (henough : targetKeep ≤ selected.length + (ordinals.filter (· ∉ selected)).length) :
    let result := fillOrdinals targetKeep ordinals selected
    result.Nodup ∧ result.length = targetKeep ∧
      ∀ ordinal ∈ result, ordinal ∈ selected ∨ ordinal ∈ ordinals := by
  induction ordinals generalizing selected with
  | nil =>
    rw [List.filter_nil, List.length_nil] at henough
    omega
  | cons ordinal ordinals ih =>
    obtain ⟨hfresh, hordinals⟩ := List.nodup_cons.mp hordinals
    intro result
    by_cases hmem : ordinal ∈ selected
    · have hresult : result = fillOrdinals targetKeep ordinals selected := if_pos hmem
      rw [List.filter_cons_of_neg (by simpa using hmem)] at henough
      obtain ⟨hnodup', hlength, hfrom⟩ := ih selected hordinals hnodup hlt henough
      rw [hresult]
      refine ⟨hnodup', hlength, ?_⟩
      intro o ho
      rcases hfrom o ho with hold | hnew
      · exact .inl hold
      · exact .inr (List.mem_cons_of_mem _ hnew)
    · have hnodup' : (selected ++ [ordinal]).Nodup :=
        List.nodup_append.mpr ⟨hnodup, List.nodup_singleton _, by
          rintro a ha b hb rfl
          exact hmem (List.mem_singleton.mp hb ▸ ha)⟩
      have hlength' : (selected ++ [ordinal]).length = selected.length + 1 := by
        rw [List.length_append, List.length_singleton]
      by_cases hfull : selected.length + 1 = targetKeep
      · have hresult : result = selected ++ [ordinal] := by
          show (if ordinal ∈ selected then _ else _) = _
          rw [if_neg hmem, if_pos hfull]
        rw [hresult]
        refine ⟨hnodup', by omega, ?_⟩
        intro o ho
        rcases List.mem_append.mp ho with hold | hnew
        · exact .inl hold
        · exact .inr (List.mem_singleton.mp hnew ▸ List.mem_cons_self)
      · have hresult : result = fillOrdinals targetKeep ordinals (selected ++ [ordinal]) := by
          show (if ordinal ∈ selected then _ else _) = _
          rw [if_neg hmem, if_neg hfull]
        have hsame : ordinals.filter (· ∉ selected ++ [ordinal]) =
            ordinals.filter (· ∉ selected) := by
          apply List.filter_congr
          intro o ho
          have hne : o ≠ ordinal := fun heq => hfresh (heq ▸ ho)
          simp [hne]
        rw [List.filter_cons_of_pos (by simpa using hmem), List.length_cons] at henough
        obtain ⟨hnodup'', hlength, hfrom⟩ := ih (selected ++ [ordinal]) hordinals hnodup'
          (by omega) (by rw [hsame]; omega)
        rw [hresult]
        refine ⟨hnodup'', hlength, ?_⟩
        intro o ho
        rcases hfrom o ho with hold | hnew
        · rcases List.mem_append.mp hold with hold | hnew
          · exact .inl hold
          · exact .inr (List.mem_singleton.mp hnew ▸ List.mem_cons_self)
        · exact .inr (List.mem_cons_of_mem _ hnew)

/-- The second loop only adds. -/
theorem subset_fillOrdinals (targetKeep : ℕ) (ordinals selected : List ℕ) :
    selected ⊆ fillOrdinals targetKeep ordinals selected := by
  induction ordinals generalizing selected with
  | nil => exact List.Subset.refl _
  | cons ordinal ordinals ih =>
    unfold fillOrdinals
    split
    · exact ih selected
    · split
      · exact List.subset_append_left _ _
      · exact fun o ho => ih _ (List.mem_append_left _ ho)

/-- Both loops together. -/
def selectedOrdinals (total targetKeep : ℕ) : List ℕ :=
  if (spacedOrdinals total targetKeep).length < targetKeep then
    fillOrdinals targetKeep (List.range total) (spacedOrdinals total targetKeep)
  else spacedOrdinals total targetKeep

theorem spacedOrdinals_spec (total targetKeep : ℕ) :
    (spacedOrdinals total targetKeep).Nodup ∧
      (spacedOrdinals total targetKeep).length ≤ targetKeep ∧
      ∀ ordinal ∈ spacedOrdinals total targetKeep,
        ∃ keepIdx < targetKeep, ordinal = uniformOrdinal total targetKeep keepIdx := by
  obtain ⟨hnodup, hlength, hfrom⟩ := spaced_foldl (uniformOrdinal total targetKeep)
    (List.range targetKeep) [] List.nodup_nil
  rw [List.length_nil, List.length_range, Nat.zero_add] at hlength
  refine ⟨hnodup, hlength, ?_⟩
  intro ordinal hordinal
  rcases hfrom ordinal hordinal with hnil | ⟨index, hindex, rfl⟩
  · exact absurd hnil List.not_mem_nil
  · exact ⟨index, List.mem_range.mp hindex, rfl⟩

/-- Distinct ordinals, as many as the target asks for, once the spaced ones are in range. -/
theorem selectedOrdinals_spec {total targetKeep : ℕ} (htarget : targetKeep ≤ total)
    (hrange : ∀ ordinal ∈ spacedOrdinals total targetKeep, ordinal < total) :
    (selectedOrdinals total targetKeep).Nodup ∧
      (selectedOrdinals total targetKeep).length = targetKeep ∧
      ∀ ordinal ∈ selectedOrdinals total targetKeep, ordinal < total := by
  obtain ⟨hnodup, hlength, -⟩ := spacedOrdinals_spec total targetKeep
  unfold selectedOrdinals
  by_cases hshort : (spacedOrdinals total targetKeep).length < targetKeep
  · rw [if_pos hshort]
    have hsplit := List.length_eq_length_filter_add (l := List.range total)
      (fun ordinal => decide (ordinal ∈ spacedOrdinals total targetKeep))
    have htaken : ((List.range total).filter (· ∈ spacedOrdinals total targetKeep)).length ≤
        (spacedOrdinals total targetKeep).length := by
      apply List.Subperm.length_le
      apply List.subperm_of_subset (List.nodup_range.filter _)
      intro ordinal hordinal
      exact of_decide_eq_true (List.mem_filter.mp hordinal).2
    have hnot : (List.range total).filter
        (fun ordinal => !decide (ordinal ∈ spacedOrdinals total targetKeep)) =
          (List.range total).filter (· ∉ spacedOrdinals total targetKeep) :=
      List.filter_congr fun ordinal _ => (decide_not).symm
    rw [List.length_range, hnot] at hsplit
    obtain ⟨hnodup', hlength', hfrom⟩ := fillOrdinals_spec (List.range total)
      (spacedOrdinals total targetKeep) List.nodup_range hnodup hshort (by omega)
    refine ⟨hnodup', hlength', ?_⟩
    intro ordinal hordinal
    rcases hfrom ordinal hordinal with hold | hnew
    · exact hrange ordinal hold
    · exact List.mem_range.mp hnew
  · rw [if_neg hshort]
    exact ⟨hnodup, by omega, hrange⟩

/-- Below `2 ^ 53` tokens no rounding leads out of range. -/
theorem uniformOrdinal_lt {total targetKeep keepIdx : ℕ} (htotal : 0 < total)
    (hsize : total ≤ 2 ^ 53) (hkeep : keepIdx < targetKeep) (htarget : 1 < targetKeep) :
    uniformOrdinal total targetKeep keepIdx < total := by
  have hdivisor : (0 : ℚ) < (targetKeep - 1 : ℕ) := by
    exact_mod_cast (by omega : 0 < targetKeep - 1)
  have hnonneg : (0 : ℚ) ≤ (keepIdx * (total - 1) : ℕ) / (targetKeep - 1 : ℕ) :=
    div_nonneg (Nat.cast_nonneg _) hdivisor.le
  have hle : ((keepIdx * (total - 1) : ℕ) : ℚ) / (targetKeep - 1 : ℕ) ≤ (total - 1 : ℕ) := by
    rw [div_le_iff₀ hdivisor, mul_comm (((total - 1 : ℕ)) : ℚ)]
    exact_mod_cast Nat.mul_le_mul_right (total - 1) (by omega : keepIdx ≤ targetKeep - 1)
  have hvalue : BinaryFloat.Representable 53 (-1074) ((total - 1 : ℕ) : ℚ) :=
    BinaryFloat.representable_natCast (by omega) (by norm_num)
  have hrounded := BinaryFloat.round_le hnonneg hle hvalue
  have hordinal : BinaryFloat.roundHalfEven
      (binary64 ((keepIdx * (total - 1) : ℕ) / (targetKeep - 1 : ℕ))) ≤ (total - 1 : ℕ) :=
    BinaryFloat.roundHalfEven_le (by exact_mod_cast hrounded)
  unfold uniformOrdinal
  omega

/-! ## The kept positions -/

section Kept

variable {visual kept : List ℕ} {targetKeep : ℕ}

theorem mapM_atOrdinal {ordinals : List ℕ} :
    ordinals.mapM (atOrdinal visual) = .ok kept ↔
      (∀ ordinal ∈ ordinals, ordinal < visual.length) ∧
        kept = ordinals.map (visual.getD · 0) := by
  rw [mapM_ok]
  constructor
  · intro h
    induction h with
    | nil => exact ⟨fun o ho => absurd ho List.not_mem_nil, rfl⟩
    | @cons ordinal index ordinals kept hget hrest ih =>
      unfold atOrdinal at hget
      cases hlookup : visual[ordinal]? with
      | none =>
        rw [hlookup] at hget
        exact absurd hget (by simp)
      | some value =>
        rw [hlookup] at hget
        obtain rfl : value = index := Except.ok.inj hget
        constructor
        · intro o ho
          rcases List.mem_cons.mp ho with rfl | hmem
          · exact (List.getElem?_eq_some_iff.mp hlookup).1
          · exact ih.1 o hmem
        · rw [List.map_cons, ← ih.2, List.getD_eq_getElem?_getD, hlookup, Option.getD_some]
  · rintro ⟨hrange, rfl⟩
    rw [List.forall₂_map_right_iff, List.forall₂_same]
    intro ordinal hordinal
    have hget := List.getElem?_eq_getElem (hrange ordinal hordinal)
    rw [atOrdinal, List.getD_eq_getElem?_getD, hget]
    rfl

/-- Kept positions: in order, visual, and as many as the target says. -/
structure Keeps (visual kept : List ℕ) (targetKeep : ℕ) : Prop where
  sorted : kept.Pairwise (· < ·)
  subset : ∀ index ∈ kept, index ∈ visual
  count : kept.length = targetKeep

theorem keeps_of_ordinals {selected : List ℕ} (hvisual : visual.Pairwise (· < ·))
    (hnodup : selected.Nodup) (hcount : selected.length = targetKeep)
    (h : (selected.insertionSort (· ≤ ·)).mapM (atOrdinal visual) = .ok kept) :
    Keeps visual kept targetKeep := by
  obtain ⟨hrange, rfl⟩ := mapM_atOrdinal.mp h
  have hperm := List.perm_insertionSort (· ≤ ·) selected
  have hget : ∀ ordinal (hlt : ordinal < visual.length), visual.getD ordinal 0 =
      visual[ordinal] := by
    intro ordinal hlt
    rw [List.getD_eq_getElem?_getD, List.getElem?_eq_getElem hlt, Option.getD_some]
  refine ⟨?_, ?_, ?_⟩
  · rw [List.pairwise_map]
    have hle := List.pairwise_insertionSort (· ≤ ·) selected
    have hne : (selected.insertionSort (· ≤ ·)).Pairwise (· ≠ ·) := hperm.nodup_iff.mpr hnodup
    refine (hle.and hne).imp_of_mem ?_
    intro a b ha hb hab
    rw [hget a (hrange a ha), hget b (hrange b hb)]
    exact List.pairwise_iff_getElem.mp hvisual a b _ _ (lt_of_le_of_ne hab.1 hab.2)
  · intro index hindex
    obtain ⟨ordinal, hordinal, rfl⟩ := List.mem_map.mp hindex
    rw [hget ordinal (hrange ordinal hordinal)]
    exact List.getElem_mem _
  · rw [List.length_map, hperm.length_eq, hcount]

theorem uniformKeepIndices_keeps (hvisual : visual.Pairwise (· < ·))
    (htarget : targetKeep ≤ visual.length)
    (h : uniformKeepIndices visual targetKeep = .ok kept) : Keeps visual kept targetKeep := by
  unfold uniformKeepIndices at h
  by_cases hall : visual.length ≤ targetKeep
  · rw [if_pos hall] at h
    obtain rfl := Except.ok.inj h
    exact ⟨hvisual, fun _ hmem => hmem, le_antisymm hall htarget⟩
  · rw [if_neg hall] at h
    by_cases hone : targetKeep = 1
    · have hlt : visual.length / 2 < visual.length := Nat.div_lt_self (by omega) (by omega)
      rw [if_pos hone, atOrdinal, List.getElem?_eq_getElem hlt] at h
      obtain rfl : [visual[visual.length / 2]] = kept := Except.ok.inj h
      refine ⟨List.pairwise_singleton _ _, ?_, hone.symm⟩
      intro index hindex
      rw [List.mem_singleton.mp hindex]
      exact List.getElem_mem hlt
    · rw [if_neg hone] at h
      have hselected : ((selectedOrdinals visual.length targetKeep).insertionSort (· ≤ ·)).mapM
          (atOrdinal visual) = .ok kept := h
      have hrange : ∀ ordinal ∈ spacedOrdinals visual.length targetKeep,
          ordinal < visual.length := by
        intro ordinal hordinal
        apply (mapM_atOrdinal.mp hselected).1
        rw [List.mem_insertionSort]
        unfold selectedOrdinals
        split
        · exact subset_fillOrdinals _ _ _ hordinal
        · exact hordinal
      obtain ⟨hnodup, hcount, -⟩ := selectedOrdinals_spec htarget hrange
      exact keeps_of_ordinals hvisual hnodup hcount hselected

theorem uniformKeepIndices_returns (hpos : 1 ≤ targetKeep) (htarget : targetKeep ≤ visual.length)
    (hsize : visual.length ≤ 2 ^ 53) :
    ∃ kept, uniformKeepIndices visual targetKeep = .ok kept := by
  unfold uniformKeepIndices
  by_cases hall : visual.length ≤ targetKeep
  · exact ⟨_, if_pos hall⟩
  · rw [if_neg hall]
    by_cases hone : targetKeep = 1
    · have hlt : visual.length / 2 < visual.length := Nat.div_lt_self (by omega) (by omega)
      rw [if_pos hone, atOrdinal, List.getElem?_eq_getElem hlt]
      exact ⟨_, rfl⟩
    · rw [if_neg hone]
      refine ⟨_, mapM_atOrdinal.mpr ⟨?_, rfl⟩⟩
      intro ordinal hordinal
      rw [List.mem_insertionSort] at hordinal
      refine (selectedOrdinals_spec htarget ?_).2.2 ordinal hordinal
      intro spaced hspaced
      obtain ⟨keepIdx, hkeep, rfl⟩ :=
        (spacedOrdinals_spec visual.length targetKeep).2.2 spaced hspaced
      exact uniformOrdinal_lt (by omega) hsize hkeep (by omega)

instance : Std.Total fun a b : ℚ × ℕ => sortKey a ≤ sortKey b where
  total a b := le_total (sortKey a) (sortKey b)

instance : IsTrans (ℚ × ℕ) fun a b => sortKey a ≤ sortKey b where
  trans _ _ _ hab hbc := hab.trans hbc

/-- The scored positions are the visual ones, in order. -/
theorem mapM_scoreOf {tokenScores : ℕ → Option Score} {scored : List (ℚ × ℕ)}
    (h : visual.mapM (scoreOf tokenScores) = .ok scored) : scored.map (·.2) = visual := by
  rw [mapM_ok] at h
  induction h with
  | nil => rfl
  | @cons index item visual scored hscore hrest ih =>
    rw [List.map_cons, ih]
    congr 1
    unfold scoreOf at hscore
    cases htoken : tokenScores index with
    | none =>
      rw [htoken] at hscore
      exact absurd hscore (by simp)
    | some score =>
      rw [htoken] at hscore
      cases score with
      | notFinite => exact absurd hscore (by simp)
      | finite value => rw [← Except.ok.inj hscore]

theorem scoreKeepIndices_keeps {tokenScores : Option (ℕ → Option Score)}
    (hvisual : visual.Pairwise (· < ·)) (htarget : targetKeep ≤ visual.length)
    (h : scoreKeepIndices visual targetKeep tokenScores = .ok kept) :
    Keeps visual kept targetKeep := by
  unfold scoreKeepIndices at h
  cases tokenScores with
  | none => exact absurd h (by simp)
  | some tokenScores =>
    simp only [bind, Except.bind, pure, Except.pure] at h
    cases hscored : visual.mapM (scoreOf tokenScores) with
    | error e =>
      rw [hscored] at h
      exact absurd h (by simp)
    | ok scored =>
      rw [hscored] at h
      obtain rfl := Except.ok.inj h
      have hpositions := mapM_scoreOf hscored
      have hperm : ((scored.insertionSort fun a b => sortKey a ≤ sortKey b).map (·.2)).Perm
          visual := by
        rw [← hpositions]
        exact (List.perm_insertionSort _ scored).map _
      have hnodup := hperm.nodup_iff.mpr (hvisual.imp fun hlt => ne_of_lt hlt)
      set selected := (scored.insertionSort fun a b => sortKey a ≤ sortKey b).map (·.2)
      have htake : ((scored.insertionSort fun a b => sortKey a ≤ sortKey b).take targetKeep).map
          (·.2) = selected.take targetKeep := List.map_take
      rw [htake]
      have hsorted := List.perm_insertionSort (· ≤ ·) (selected.take targetKeep)
      refine ⟨?_, ?_, ?_⟩
      · have hne : ((selected.take targetKeep).insertionSort (· ≤ ·)).Pairwise (· ≠ ·) :=
          hsorted.nodup_iff.mpr ((List.take_sublist _ _).nodup hnodup)
        exact ((List.pairwise_insertionSort (· ≤ ·) _).and hne).imp fun hab =>
          lt_of_le_of_ne hab.1 hab.2
      · intro index hindex
        exact hperm.mem_iff.mp (List.mem_of_mem_take (hsorted.mem_iff.mp hindex))
      · rw [hsorted.length_eq, List.length_take, hperm.length_eq, min_eq_left htarget]

theorem scoreKeepIndices_returns {tokenScores : ℕ → Option Score}
    (h : ∀ index ∈ visual, ∃ value, tokenScores index = some (.finite value)) :
    ∃ kept, scoreKeepIndices visual targetKeep (some tokenScores) = .ok kept := by
  have hscored : ∃ scored, visual.mapM (scoreOf tokenScores) = .ok scored := by
    choose! value hvalue using h
    refine ⟨visual.map fun index => (value index, index), ?_⟩
    rw [mapM_ok, List.forall₂_map_right_iff, List.forall₂_same]
    intro index hindex
    rw [scoreOf, hvalue index hindex]
  obtain ⟨scored, hscored⟩ := hscored
  simp only [scoreKeepIndices, bind, Except.bind, pure, Except.pure, hscored]
  exact ⟨_, rfl⟩

end Kept

end VisualPruning

end PrismInfer
