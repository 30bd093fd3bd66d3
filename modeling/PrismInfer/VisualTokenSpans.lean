import PrismInfer.VisualRegion

/-!
# Visual token spans

One pass over the token ids cuts out the runs of image and of video placeholders. The runs,
position by position and each with its modality, are the visual positions of the prompt.
-/
namespace PrismInfer
open StateExcept

inductive VisualPruningError
  | imageTokenIdMissing
  | videoTokenIdMissing
  | tokenIdsEqual
  | imageTokenCount (metadata actual : ℕ)
  | videoTokenCount (metadata actual : ℕ)
  | scoresMissing
  | scoreMissing (index : ℕ)
  | scoreNotFinite (index : ℕ)
  | ordinalOutside (ordinal total : ℕ)
  | replayStrategy
  | replayPromptLength (source current : ℕ)
  | replaySpans
  | replayIndices (name : String)
  | replayOverlap
  | replayPartition
  | replayCount (name : String) (source expected : ℕ)
  | replayKept
deriving DecidableEq, Repr

namespace VisualPruning

inductive Modality
  | image
  | video
deriving DecidableEq, Repr

/-- `VisualTokenSpan`; `index` counts the spans of its modality. -/
structure Span where
  modality : Modality
  start : ℕ
  stop : ℕ
  index : ℕ
deriving DecidableEq, Repr

namespace Span

def tokenCount (span : Span) : ℕ := span.stop - span.start

def positions (span : Span) : List ℕ := List.range' span.start span.tokenCount

end Span

/-- `_visual_modality`. -/
def visualModality (imageTokenId videoTokenId : Option ℕ) (token : ℕ) : Option Modality :=
  if imageTokenId = some token then some .image
  else if videoTokenId = some token then some .video
  else none

/-- The local variables of the scan. -/
structure ScanState where
  spans : List Span
  spanCounts : Modality → ℕ
  activeModality : Option Modality
  activeStart : ℕ

namespace ScanState

def initial : ScanState := ⟨[], fun _ => 0, none, 0⟩

/-- `_append_visual_span` for the active modality, if there is one. -/
def flush (state : ScanState) (stop : ℕ) : ScanState :=
  match state.activeModality with
  | none => state
  | some modality => { state with
      spans := state.spans ++ [⟨modality, state.activeStart, stop, state.spanCounts modality⟩]
      spanCounts := Function.update state.spanCounts modality (state.spanCounts modality + 1) }

/-- One turn of the loop, at a token of modality `current`. -/
def step (state : ScanState) (index : ℕ) (current : Option Modality) : ScanState :=
  if current = state.activeModality then state
  else { state.flush index with activeModality := current, activeStart := index }

end ScanState

/-- `_scan_visual_token_spans`. -/
def scanVisualTokenSpans (tokenIds : List ℕ) (imageTokenId videoTokenId : Option ℕ) :
    List Span :=
  let state := tokenIds.zipIdx.foldl
    (fun state (token, index) =>
      state.step index (visualModality imageTokenId videoTokenId token)) ScanState.initial
  (state.flush tokenIds.length).spans

/-- The checks of `_visual_token_metadata`. -/
def visualTokenMetadata (req : Request) : Except VisualPruningError Unit := do
  ensure (req.imageTokenCount = 0 ∨ req.imageTokenId ≠ none) .imageTokenIdMissing
  ensure (req.videoTokenCount = 0 ∨ req.videoTokenId ≠ none) .videoTokenIdMissing
  ensure (req.imageTokenId = none ∨ req.imageTokenId ≠ req.videoTokenId) .tokenIdsEqual

/-- Summed lengths of the spans of one modality. -/
def modalityTokens (spans : List Span) (modality : Modality) : ℕ :=
  ((spans.filter (·.modality = modality)).map (·.tokenCount)).sum

/-- `_validate_visual_span_counts`. -/
def validateVisualSpanCounts (spans : List Span) (imageTokenCount videoTokenCount : ℕ) :
    Except VisualPruningError Unit := do
  ensure (modalityTokens spans .image = imageTokenCount)
    (.imageTokenCount imageTokenCount (modalityTokens spans .image))
  ensure (modalityTokens spans .video = videoTokenCount)
    (.videoTokenCount videoTokenCount (modalityTokens spans .video))

variable {H : Type}

def findVisualTokenSpans (seq : Sequence H) : Except VisualPruningError (List Span) := do
  visualTokenMetadata seq.request
  let spans := scanVisualTokenSpans seq.tokenIds seq.request.imageTokenId seq.request.videoTokenId
  validateVisualSpanCounts spans seq.request.imageTokenCount seq.request.videoTokenCount
  return spans

/-- `_visual_token_indices`. -/
def visualTokenIndices (spans : List Span) : List ℕ := spans.flatMap (·.positions)

/-! ## What the scan finds -/

/-- The positions of the spans, each with the modality of its span. -/
def labelled (spans : List Span) : List (ℕ × Modality) :=
  spans.flatMap fun span => span.positions.map (·, span.modality)

/-- The positions below `stop` of some modality. -/
def marked (kind : ℕ → Option Modality) (stop : ℕ) : List (ℕ × Modality) :=
  (List.range stop).filterMap fun index => (kind index).map (index, ·)

/-- Between the tokens: the closed spans and the active run. -/
structure ScanInvariant (kind : ℕ → Option Modality) (index : ℕ) (state : ScanState) : Prop where
  start_le : state.activeStart ≤ index
  run : ∀ i, state.activeStart ≤ i → i < index → kind i = state.activeModality
  active : state.activeModality ≠ none → state.activeStart < index
  closed : labelled state.spans = marked kind state.activeStart
  nonempty : ∀ span ∈ state.spans, span.start < span.stop

theorem marked_append {kind : ℕ → Option Modality} {start stop : ℕ} (h : start ≤ stop) :
    marked kind stop = marked kind start ++
      (List.range' start (stop - start)).filterMap fun index => (kind index).map (index, ·) := by
  have hsplit : List.range stop = List.range start ++ List.range' start (stop - start) := by
    have hjoin := List.range'_append_1 (s := 0) (m := start) (n := stop - start)
    rw [Nat.zero_add, Nat.add_sub_of_le h] at hjoin
    rw [List.range_eq_range', List.range_eq_range', hjoin]
  unfold marked
  rw [hsplit, List.filterMap_append]

section Scan

variable {kind : ℕ → Option Modality} {index : ℕ} {state : ScanState}

/-- Closing the active run at `index` accounts for all positions below it. -/
theorem ScanInvariant.flush (h : ScanInvariant kind index state) :
    labelled (state.flush index).spans = marked kind index ∧
      ∀ span ∈ (state.flush index).spans, span.start < span.stop := by
  rw [marked_append h.start_le, ← h.closed]
  have hrun : ∀ i ∈ List.range' state.activeStart (index - state.activeStart),
      kind i = state.activeModality := by
    intro i hi
    obtain ⟨hlow, hhigh⟩ := List.mem_range'_1.mp hi
    exact h.run i hlow (by omega)
  unfold ScanState.flush
  cases hactive : state.activeModality with
  | none =>
    refine ⟨?_, h.nonempty⟩
    rw [hactive] at hrun
    rw [List.filterMap_eq_nil_iff.mpr, List.append_nil]
    intro i hi
    rw [hrun i hi]
    rfl
  | some modality =>
    rw [hactive] at hrun
    constructor
    · simp only [labelled, List.flatMap_append, List.flatMap_singleton]
      congr 1
      rw [Span.positions, Span.tokenCount, ← List.filterMap_eq_map]
      apply List.filterMap_congr
      intro i hi
      rw [hrun i hi]
      rfl
    · intro span hspan
      rcases List.mem_append.mp hspan with hmem | hmem
      · exact h.nonempty span hmem
      · obtain rfl := List.mem_singleton.mp hmem
        exact h.active (by rw [hactive]; exact Option.some_ne_none _)

theorem ScanInvariant.step (h : ScanInvariant kind index state) :
    ScanInvariant kind (index + 1) (state.step index (kind index)) := by
  have hstart := h.start_le
  unfold ScanState.step
  by_cases hsame : kind index = state.activeModality
  · rw [if_pos hsame]
    refine ⟨by omega, ?_, fun _ => by omega, h.closed, h.nonempty⟩
    intro i hlow hhigh
    rcases Nat.lt_succ_iff_lt_or_eq.mp hhigh with hlt | rfl
    · exact h.run i hlow hlt
    · exact hsame
  · rw [if_neg hsame]
    obtain ⟨hclosed, hnonempty⟩ := h.flush
    refine ⟨by show index ≤ index + 1; omega, ?_, fun _ => Nat.lt_succ_self index, hclosed,
      hnonempty⟩
    intro i hlow hhigh
    obtain rfl : i = index := by
      show i = index
      have hlow : index ≤ i := hlow
      omega
    rfl

theorem scan_foldl (kindOf : ℕ → Option Modality) (tokens : List ℕ) {start : ℕ}
    (hkind : ∀ i token, tokens[i]? = some token → kind (start + i) = kindOf token)
    (h : ScanInvariant kind start state) :
    ScanInvariant kind (start + tokens.length) ((tokens.zipIdx start).foldl
      (fun state (token, index) => state.step index (kindOf token)) state) := by
  induction tokens generalizing start state with
  | nil => exact h
  | cons token tokens ih =>
    rw [List.zipIdx_cons, List.foldl_cons, List.length_cons, ← Nat.add_assoc, Nat.add_right_comm]
    apply ih
    · intro i token' hget
      rw [Nat.add_assoc, Nat.add_comm 1 i]
      exact hkind (i + 1) token' hget
    · have hhead : kind start = kindOf token := hkind 0 token rfl
      have hstep := h.step
      rwa [hhead] at hstep

end Scan

/-- The modality of position `index`, none behind the end. -/
def kindAt (tokenIds : List ℕ) (imageTokenId videoTokenId : Option ℕ) (index : ℕ) :
    Option Modality :=
  tokenIds[index]?.bind (visualModality imageTokenId videoTokenId)

theorem scanVisualTokenSpans_spec (tokenIds : List ℕ) (imageTokenId videoTokenId : Option ℕ) :
    labelled (scanVisualTokenSpans tokenIds imageTokenId videoTokenId) =
        marked (kindAt tokenIds imageTokenId videoTokenId) tokenIds.length ∧
      ∀ span ∈ scanVisualTokenSpans tokenIds imageTokenId videoTokenId, span.start < span.stop := by
  have hinitial : ScanInvariant (kindAt tokenIds imageTokenId videoTokenId) 0 ScanState.initial :=
    ⟨le_rfl, fun i _ hlt => absurd hlt (Nat.not_lt_zero i), fun hne => absurd rfl hne, rfl,
      fun span hspan => absurd hspan List.not_mem_nil⟩
  have hfinal := scan_foldl
    (visualModality imageTokenId videoTokenId) tokenIds (fun i token hget => by
      rw [Nat.zero_add, kindAt, hget]
      rfl) hinitial
  rw [Nat.zero_add] at hfinal
  exact hfinal.flush

/-! ## The spans of a prompt -/

/-- A prompt with the placeholder counts its processor recorded, and tokens generated behind
it. -/
structure PrunablePrompt (seq : Sequence H) : Prop where
  prompt : ∃ completion, seq.tokenIds = seq.request.promptTokenIds ++ completion ∧
    ∀ token ∈ completion, token ∉ seq.request.visualTokenIds
  images : seq.request.imageTokenCount =
    seq.request.imageTokenId.elim 0 (seq.request.promptTokenIds.count ·)
  videos : seq.request.videoTokenCount =
    seq.request.videoTokenId.elim 0 (seq.request.promptTokenIds.count ·)
  distinct : seq.request.imageTokenId = none ∨
    seq.request.imageTokenId ≠ seq.request.videoTokenId

theorem visualModality_isSome {req : Request} {token : ℕ} :
    (visualModality req.imageTokenId req.videoTokenId token).isSome ↔
      token ∈ req.visualTokenIds := by
  unfold visualModality Request.visualTokenIds
  rw [List.mem_append, Option.mem_toList, Option.mem_toList]
  by_cases himage : req.imageTokenId = some token
  · simp [himage]
  · by_cases hvideo : req.videoTokenId = some token
    · simp [himage, hvideo]
    · simp [himage, hvideo]

theorem map_fst_labelled (spans : List Span) :
    (labelled spans).map (·.1) = visualTokenIndices spans := by
  unfold labelled visualTokenIndices
  rw [List.map_flatMap]
  apply List.flatMap_congr
  intro span _
  rw [List.map_map]
  exact List.map_id _

theorem map_fst_marked (kind : ℕ → Option Modality) (stop : ℕ) :
    (marked kind stop).map (·.1) = (List.range stop).filter fun index => (kind index).isSome := by
  unfold marked
  induction List.range stop with
  | nil => rfl
  | cons index indices ih =>
    cases hkind : kind index with
    | none =>
      rw [List.filterMap_cons_none (by rw [hkind]; rfl), ih, List.filter_cons_of_neg]
      simp [hkind]
    | some modality =>
      rw [List.filterMap_cons_some (by rw [hkind]; rfl), List.map_cons, ih,
        List.filter_cons_of_pos (by rw [hkind]; rfl)]

/-- The spans cover the visual positions of the prompt and nothing else. -/
theorem visualTokenIndices_scan {seq : Sequence H} (h : PrunablePrompt seq) :
    visualTokenIndices (scanVisualTokenSpans seq.tokenIds seq.request.imageTokenId
      seq.request.videoTokenId) = seq.request.visualPositions := by
  obtain ⟨completion, hprompt, hcompletion⟩ := h.prompt
  rw [← map_fst_labelled, (scanVisualTokenSpans_spec _ _ _).1, map_fst_marked, hprompt,
    List.length_append]
  have hsplit := List.range'_append_1 (s := 0) (m := seq.request.promptTokenIds.length)
    (n := completion.length)
  rw [Nat.zero_add, ← List.range_eq_range', ← List.range_eq_range'] at hsplit
  rw [← hsplit, List.filter_append]
  have hfront : (List.range seq.request.promptTokenIds.length).filter (fun index =>
      (kindAt (seq.request.promptTokenIds ++ completion) seq.request.imageTokenId
        seq.request.videoTokenId index).isSome) = seq.request.visualPositions := by
    apply List.filter_congr
    intro index hindex
    rw [List.mem_range] at hindex
    rw [kindAt, List.getElem?_append_left hindex, List.getElem?_eq_getElem hindex,
      Option.bind_some, List.getD_eq_getElem?_getD, List.getElem?_eq_getElem hindex,
      Option.getD_some, Bool.eq_iff_iff, visualModality_isSome, decide_eq_true_eq]
  have hback : (List.range' seq.request.promptTokenIds.length completion.length).filter
      (fun index => (kindAt (seq.request.promptTokenIds ++ completion) seq.request.imageTokenId
        seq.request.videoTokenId index).isSome) = [] := by
    rw [List.filter_eq_nil_iff]
    intro index hindex
    obtain ⟨hlow, hhigh⟩ := List.mem_range'_1.mp hindex
    rw [kindAt, List.getElem?_append_right hlow, List.getElem?_eq_getElem (by omega),
      Option.bind_some, visualModality_isSome]
    exact hcompletion _ (List.getElem_mem _)
  rw [hfront, hback, List.append_nil]

theorem modalityTokens_eq (spans : List Span) (modality : Modality) :
    modalityTokens spans modality = (labelled spans).countP (·.2 = modality) := by
  unfold modalityTokens labelled
  rw [List.countP_flatMap]
  induction spans with
  | nil => rfl
  | cons span spans ih =>
    have hlength : span.positions.length = span.tokenCount := List.length_range'
    rw [List.map_cons, List.sum_cons, ← ih]
    by_cases hmodality : span.modality = modality
    · rw [List.filter_cons_of_pos (by simpa using hmodality), List.map_cons, List.sum_cons,
        ← hlength]
      congr 1
      rw [Function.comp_apply, List.countP_map, List.countP_eq_length.mpr]
      intro index _
      simpa using hmodality
    · rw [List.filter_cons_of_neg (by simpa using hmodality), Function.comp_apply,
        List.countP_map, List.countP_eq_zero.mpr, Nat.zero_add]
      intro index _
      simpa using hmodality

theorem countP_marked (tokenIds : List ℕ) (imageTokenId videoTokenId : Option ℕ)
    (modality : Modality) :
    (marked (kindAt tokenIds imageTokenId videoTokenId) tokenIds.length).countP
        (·.2 = modality) =
      tokenIds.countP (visualModality imageTokenId videoTokenId · = some modality) := by
  have hkinds : (List.range tokenIds.length).map (kindAt tokenIds imageTokenId videoTokenId) =
      tokenIds.map (visualModality imageTokenId videoTokenId) := by
    apply List.ext_getElem
    · rw [List.length_map, List.length_map, List.length_range]
    · intro i hi hi'
      rw [List.length_map] at hi'
      rw [List.getElem_map, List.getElem_map, List.getElem_range, kindAt,
        List.getElem?_eq_getElem hi', Option.bind_some]
  have hcount := congrArg (List.countP (· = some modality)) hkinds
  rw [List.countP_map, List.countP_map] at hcount
  unfold marked
  rw [List.countP_filterMap]
  refine Eq.trans (List.countP_congr fun index _ => ?_) hcount
  cases hkind : kindAt tokenIds imageTokenId videoTokenId index <;> simp [hkind]

theorem modalityTokens_scan {seq : Sequence H} (h : PrunablePrompt seq) :
    modalityTokens (scanVisualTokenSpans seq.tokenIds seq.request.imageTokenId
        seq.request.videoTokenId) .image = seq.request.imageTokenCount ∧
      modalityTokens (scanVisualTokenSpans seq.tokenIds seq.request.imageTokenId
        seq.request.videoTokenId) .video = seq.request.videoTokenCount := by
  obtain ⟨completion, hprompt, hcompletion⟩ := h.prompt
  have hcount : ∀ id, id ∈ seq.request.visualTokenIds →
      seq.tokenIds.count id = seq.request.promptTokenIds.count id := by
    intro id hid
    rw [hprompt, List.count_append, List.count_eq_zero_of_not_mem fun hmem =>
      hcompletion id hmem hid, Nat.add_zero]
  rw [modalityTokens_eq, modalityTokens_eq, (scanVisualTokenSpans_spec _ _ _).1, countP_marked,
    countP_marked, h.images, h.videos]
  constructor
  · cases himage : seq.request.imageTokenId with
    | none =>
      rw [Option.elim_none, List.countP_eq_zero]
      intro token _
      unfold visualModality
      simp
    | some id =>
      rw [Option.elim_some, ← hcount id (by simp [Request.visualTokenIds, himage])]
      apply List.countP_congr
      intro token _
      unfold visualModality
      by_cases heq : id = token
      · simp [heq]
      · by_cases hvideo : seq.request.videoTokenId = some token <;>
          simp [heq, hvideo, Ne.symm heq]
  · cases hvideo : seq.request.videoTokenId with
    | none =>
      rw [Option.elim_none, List.countP_eq_zero]
      intro token _
      unfold visualModality
      by_cases himage : seq.request.imageTokenId = some token <;> simp [himage]
    | some id =>
      rw [Option.elim_some, ← hcount id (by simp [Request.visualTokenIds, hvideo])]
      apply List.countP_congr
      intro token _
      unfold visualModality
      by_cases heq : id = token
      · have himage : seq.request.imageTokenId ≠ some token := by
          rcases h.distinct with hnone | hne
          · rw [hnone]
            exact (Option.some_ne_none _).symm
          · rwa [← heq, ← hvideo]
        simp [himage, heq]
      · by_cases himage : seq.request.imageTokenId = some token <;>
          simp [himage, heq, Ne.symm heq]

/-- The scan accepts a prompt whose recorded counts are right. -/
theorem findVisualTokenSpans_ok {seq : Sequence H} (h : PrunablePrompt seq) :
    findVisualTokenSpans seq = .ok (scanVisualTokenSpans seq.tokenIds seq.request.imageTokenId
      seq.request.videoTokenId) := by
  have himages : seq.request.imageTokenCount = 0 ∨ seq.request.imageTokenId ≠ none := by
    cases himage : seq.request.imageTokenId with
    | none => exact .inl (by rw [h.images, himage]; rfl)
    | some id => exact .inr (Option.some_ne_none id)
  have hvideos : seq.request.videoTokenCount = 0 ∨ seq.request.videoTokenId ≠ none := by
    cases hvideo : seq.request.videoTokenId with
    | none => exact .inl (by rw [h.videos, hvideo]; rfl)
    | some id => exact .inr (Option.some_ne_none id)
  obtain ⟨himageCount, hvideoCount⟩ := modalityTokens_scan h
  simp only [findVisualTokenSpans, visualTokenMetadata, validateVisualSpanCounts, ensure,
    if_pos himages, if_pos hvideos, if_pos h.distinct, if_pos himageCount, if_pos hvideoCount,
    bind, Except.bind, pure, Except.pure]

end VisualPruning

end PrismInfer
