import PrismInfer.MRopePositions

/-!
# Stability of three-axis positions

The positions of a prompt part by part: a text token takes one position, a span as many as
its grid's longest side. The scan over the tokens computes these positions, so they depend
on the parts before only.
-/
namespace PrismInfer
open StateExcept

/-! ## Prompts by parts -/

/-- A prompt part: one text token, or the placeholders of one image or one video frame under
its raw grid. -/
inductive PromptPart
  | text (tokenId : ℕ)
  | visual (kind : VisualKind) (rawGrid : VisionGrid)
deriving DecidableEq, Repr

def SpecialTokens.placeholder (ids : SpecialTokens) : VisualKind → ℕ
  | .image => ids.imageTokenId
  | .video => ids.videoTokenId

def VisionGrid.merged (mergeSize : ℕ) (grid : VisionGrid) : VisionGrid :=
  ⟨grid.temporal, grid.height / mergeSize, grid.width / mergeSize⟩

def VisionGrid.longest (grid : VisionGrid) : ℕ :=
  max grid.temporal (max grid.height grid.width)

/-- A grid the merge accepts; the frames of a video come one by one. -/
def VisionGrid.Valid (mergeSize : ℕ) (kind : VisualKind) (grid : VisionGrid) : Prop :=
  grid.height % mergeSize = 0 ∧ grid.width % mergeSize = 0 ∧ 0 < grid.temporal ∧
    0 < grid.height / mergeSize ∧ 0 < grid.width / mergeSize ∧
    (kind = .video → grid.temporal = 1)

section Prompt

variable (ids : SpecialTokens) (mergeSize : ℕ)

namespace PromptPart

def tokens : PromptPart → List ℕ
  | text tokenId => [tokenId]
  | visual kind grid =>
    List.replicate (gridTokenCount (grid.merged mergeSize)) (ids.placeholder kind)

/-- How far the next part starts behind this one: the longest side of a span. -/
def advance : PromptPart → ℕ
  | text _ => 1
  | visual _ grid => (grid.merged mergeSize).longest

def positions (start : ℕ) : PromptPart → List MRopePosition
  | text _ => textPositions 1 start
  | visual _ grid => visualPositions (grid.merged mergeSize) start

def grid? (kind : VisualKind) : PromptPart → Option VisionGrid
  | text _ => none
  | visual kind' grid => if kind' = kind then some grid else none

end PromptPart

def promptTokens (parts : List PromptPart) : List ℕ :=
  parts.flatMap (PromptPart.tokens ids mergeSize)

/-- The grids of one kind, in order. -/
def promptGrids (kind : VisualKind) (parts : List PromptPart) : List VisionGrid :=
  parts.filterMap (PromptPart.grid? kind)

def promptAdvance (parts : List PromptPart) : ℕ :=
  (parts.map (PromptPart.advance mergeSize)).sum

def promptPositions : ℕ → List PromptPart → List MRopePosition
  | _, [] => []
  | start, part :: parts =>
    part.positions mergeSize start ++ promptPositions (start + part.advance mergeSize) parts

/-- Text has no placeholders, every span comes right after a vision start, and no vision
start is left at the end; `before` is the token before the parts. -/
def WellFormedFrom : Option ℕ → List PromptPart → Prop
  | before, [] => before ≠ some ids.visionStartTokenId
  | _, .text tokenId :: parts =>
    tokenId ≠ ids.imageTokenId ∧ tokenId ≠ ids.videoTokenId ∧ WellFormedFrom (some tokenId) parts
  | before, .visual kind grid :: parts =>
    before = some ids.visionStartTokenId ∧ grid.Valid mergeSize kind ∧
      WellFormedFrom (some (ids.placeholder kind)) parts

end Prompt

variable {ids : SpecialTokens} {mergeSize : ℕ}

@[simp] theorem promptTokens_nil : promptTokens ids mergeSize [] = [] := rfl

@[simp] theorem promptTokens_cons (part : PromptPart) (parts : List PromptPart) :
    promptTokens ids mergeSize (part :: parts) =
      part.tokens ids mergeSize ++ promptTokens ids mergeSize parts := List.flatMap_cons

@[simp] theorem promptTokens_append (parts parts' : List PromptPart) :
    promptTokens ids mergeSize (parts ++ parts') =
      promptTokens ids mergeSize parts ++ promptTokens ids mergeSize parts' := List.flatMap_append

theorem promptTokens_text (texts : List ℕ) :
    promptTokens ids mergeSize (texts.map .text) = texts := by
  induction texts with
  | nil => rfl
  | cons tokenId texts ih =>
    rw [List.map_cons, promptTokens_cons, ih]
    rfl

@[simp] theorem promptGrids_append (kind : VisualKind) (parts parts' : List PromptPart) :
    promptGrids kind (parts ++ parts') = promptGrids kind parts ++ promptGrids kind parts' :=
  List.filterMap_append

theorem promptGrids_text (kind : VisualKind) (texts : List ℕ) :
    promptGrids kind (texts.map .text) = [] := by
  induction texts with
  | nil => rfl
  | cons tokenId texts ih => rw [List.map_cons, promptGrids, List.filterMap_cons_none rfl]; exact ih

theorem promptGrids_visual (kind kind' : VisualKind) (grid : VisionGrid) (parts : List PromptPart) :
    promptGrids kind (.visual kind' grid :: parts) =
      if kind' = kind then grid :: promptGrids kind parts else promptGrids kind parts := by
  unfold promptGrids
  by_cases h : kind' = kind
  · rw [if_pos h, List.filterMap_cons_some]
    exact if_pos h
  · rw [if_neg h, List.filterMap_cons_none]
    exact if_neg h

@[simp] theorem promptAdvance_nil : promptAdvance mergeSize [] = 0 := rfl

@[simp] theorem promptAdvance_cons (part : PromptPart) (parts : List PromptPart) :
    promptAdvance mergeSize (part :: parts) =
      part.advance mergeSize + promptAdvance mergeSize parts := rfl

@[simp] theorem promptAdvance_append (parts parts' : List PromptPart) :
    promptAdvance mergeSize (parts ++ parts') =
      promptAdvance mergeSize parts + promptAdvance mergeSize parts' := by
  rw [promptAdvance, List.map_append, List.sum_append]
  rfl

theorem promptPositions_append (start : ℕ) (parts parts' : List PromptPart) :
    promptPositions mergeSize start (parts ++ parts') = promptPositions mergeSize start parts ++
      promptPositions mergeSize (start + promptAdvance mergeSize parts) parts' := by
  induction parts generalizing start with
  | nil => rfl
  | cons part parts ih =>
    rw [List.cons_append, promptPositions, promptPositions, ih, List.append_assoc,
      promptAdvance_cons, Nat.add_assoc]

@[simp] theorem length_textPositions (length start : ℕ) :
    (textPositions length start).length = length := by
  unfold textPositions
  rw [List.length_map, List.length_range]

theorem length_visualPositions (grid : VisionGrid) (start : ℕ) :
    (visualPositions grid start).length = gridTokenCount grid := by
  simp [visualPositions, gridTokenCount, List.length_flatMap, Nat.mul_assoc]

theorem length_promptPositions (ids : SpecialTokens) (mergeSize start : ℕ)
    (parts : List PromptPart) :
    (promptPositions mergeSize start parts).length = (promptTokens ids mergeSize parts).length := by
  induction parts generalizing start with
  | nil => rfl
  | cons part parts ih =>
    rw [promptPositions, List.length_append, ih, promptTokens_cons, List.length_append]
    cases part with
    | text tokenId => simp [PromptPart.positions, PromptPart.tokens]
    | visual kind grid =>
      simp [PromptPart.positions, PromptPart.tokens, length_visualPositions]

/-- A text takes one position after the other, as one part or token by token. -/
theorem textPositions_eq (mergeSize : ℕ) (texts : List ℕ) (start : ℕ) :
    textPositions texts.length start = promptPositions mergeSize start (texts.map .text) := by
  induction texts generalizing start with
  | nil => rfl
  | cons tokenId texts ih =>
    rw [List.map_cons, promptPositions, PromptPart.advance, ← ih, List.length_cons]
    simp only [PromptPart.positions, textPositions, List.range_succ_eq_map, List.map_cons,
      List.map_map, List.range_zero, List.map_nil, List.cons_append, List.nil_append]
    congr 1
    apply List.map_congr_left
    intro i _
    simp only [Function.comp_apply, MRopePosition.mk.injEq, and_self]
    omega

theorem promptAdvance_text (texts : List ℕ) :
    promptAdvance mergeSize (texts.map .text) = texts.length := by
  induction texts with
  | nil => rfl
  | cons tokenId texts ih =>
    rw [List.map_cons, promptAdvance_cons, ih, PromptPart.advance, List.length_cons]
    omega

/-! ## The largest position -/

theorem maxPosition_eq {part : List MRopePosition} {position : ℕ}
    (hmem : position ∈ part.flatMap MRopePosition.axes)
    (hle : ∀ p ∈ part.flatMap MRopePosition.axes, p ≤ position) :
    maxPosition part = .ok position := by
  have hmax : (part.flatMap MRopePosition.axes).max? = some position :=
    List.max?_eq_some_iff.mpr ⟨hmem, hle⟩
  rw [maxPosition, hmax]

theorem mem_visualPositions {grid : VisionGrid} {start : ℕ} {position : MRopePosition} :
    position ∈ visualPositions grid start ↔ ∃ t < grid.temporal, ∃ h < grid.height,
      ∃ w < grid.width, position = ⟨t + start, h + start, w + start⟩ := by
  simp only [visualPositions, List.mem_flatMap, List.mem_map, List.mem_range, eq_comm]

theorem MRopePosition.mem_axes {position : MRopePosition} {p : ℕ} :
    p ∈ position.axes ↔ p = position.temporal ∨ p = position.height ∨ p = position.width := by
  simp [MRopePosition.axes]

/-- A span stays below the start of the next part, and its far corner reaches up to it. -/
theorem visualPositions_bounds {grid : VisionGrid} (htemporal : 0 < grid.temporal)
    (hheight : 0 < grid.height) (hwidth : 0 < grid.width) (start : ℕ) :
    (∀ p ∈ (visualPositions grid start).flatMap MRopePosition.axes, p < start + grid.longest) ∧
    start + grid.longest - 1 ∈ (visualPositions grid start).flatMap MRopePosition.axes := by
  unfold VisionGrid.longest
  constructor
  · intro p hp
    obtain ⟨position, hposition, hp⟩ := List.mem_flatMap.mp hp
    obtain ⟨t, ht, r, hr, c, hc, rfl⟩ := mem_visualPositions.mp hposition
    rcases MRopePosition.mem_axes.mp hp with rfl | rfl | rfl <;> simp only <;> omega
  · have hcorner : (⟨grid.temporal - 1 + start, grid.height - 1 + start,
        grid.width - 1 + start⟩ : MRopePosition) ∈ visualPositions grid start :=
      mem_visualPositions.mpr ⟨grid.temporal - 1, by omega, grid.height - 1, by omega,
        grid.width - 1, by omega, rfl⟩
    refine List.mem_flatMap.mpr ⟨_, hcorner, MRopePosition.mem_axes.mpr ?_⟩
    simp only
    omega

theorem PromptPart.positions_bounds {part : PromptPart} {before : Option ℕ}
    {parts : List PromptPart} (h : WellFormedFrom ids mergeSize before (part :: parts))
    (start : ℕ) :
    0 < part.advance mergeSize ∧
    (∀ p ∈ (part.positions mergeSize start).flatMap MRopePosition.axes,
      p < start + part.advance mergeSize) ∧
    start + part.advance mergeSize - 1 ∈
      (part.positions mergeSize start).flatMap MRopePosition.axes := by
  cases part with
  | text tokenId =>
    simp [PromptPart.advance, PromptPart.positions, textPositions, MRopePosition.axes]
  | visual kind grid =>
    obtain ⟨-, ⟨-, -, htemporal, hheight, hwidth, -⟩, -⟩ := h
    refine ⟨htemporal.trans_le (le_max_left _ _), ?_⟩
    exact @visualPositions_bounds (grid.merged mergeSize) htemporal hheight hwidth start

theorem WellFormedFrom.tail {part : PromptPart} {before : Option ℕ} {parts : List PromptPart}
    (h : WellFormedFrom ids mergeSize before (part :: parts)) :
    ∃ before', WellFormedFrom ids mergeSize before' parts := by
  cases part with
  | text tokenId => exact ⟨_, h.2.2⟩
  | visual kind grid => exact ⟨_, h.2.2⟩

theorem promptPositions_bounds {before : Option ℕ} {parts : List PromptPart}
    (h : WellFormedFrom ids mergeSize before parts) (start : ℕ) :
    (∀ p ∈ (promptPositions mergeSize start parts).flatMap MRopePosition.axes,
      p < start + promptAdvance mergeSize parts) ∧
    (parts ≠ [] → start + promptAdvance mergeSize parts - 1 ∈
      (promptPositions mergeSize start parts).flatMap MRopePosition.axes) := by
  induction parts generalizing before start with
  | nil => simp [promptPositions]
  | cons part parts ih =>
    obtain ⟨hadvance, hlt, hmem⟩ := PromptPart.positions_bounds h start
    obtain ⟨before', htail⟩ := h.tail
    obtain ⟨hlt', hmem'⟩ := ih htail (start + part.advance mergeSize)
    rw [promptAdvance_cons, ← Nat.add_assoc, promptPositions, List.flatMap_append]
    constructor
    · intro p hp
      rcases List.mem_append.mp hp with hp | hp
      · have := hlt p hp
        omega
      · exact hlt' p hp
    · intro _
      rw [List.mem_append]
      cases parts with
      | nil => exact .inl hmem
      | cons part' parts => exact .inr (hmem' (List.cons_ne_nil _ _))

theorem maxPosition_promptPositions {before : Option ℕ} {parts : List PromptPart}
    (h : WellFormedFrom ids mergeSize before parts) (hne : parts ≠ []) (start : ℕ) :
    maxPosition (promptPositions mergeSize start parts) =
      .ok (start + promptAdvance mergeSize parts - 1) := by
  obtain ⟨hlt, hmem⟩ := promptPositions_bounds h start
  exact maxPosition_eq (hmem hne) fun p hp => Nat.le_sub_one_of_lt (hlt p hp)

/-! ## Finding the next span -/

theorem findIdx?_append_cons {left right : List ℕ} {tokenId : ℕ} (h : tokenId ∉ left) :
    (left ++ tokenId :: right).findIdx? (· = tokenId) = some left.length := by
  have hleft : left.findIdx? (· = tokenId) = none := by
    rw [List.findIdx?_eq_none_iff]
    intro x hx
    exact decide_eq_false (fun heq => h (heq ▸ hx))
  rw [List.findIdx?_append, hleft, List.findIdx?_cons]
  simp

theorem nextTokenEnd_append {left middle right : List ℕ} {tokenId remaining : ℕ}
    (hremaining : 0 < remaining) (hmiddle : tokenId ∉ middle) :
    nextTokenEnd (left ++ (middle ++ tokenId :: right)) tokenId left.length remaining =
      .ok (left.length + middle.length) := by
  unfold nextTokenEnd
  rw [if_neg, List.drop_left, findIdx?_append_cons hmiddle]
  rw [not_or, not_not]
  exact ⟨by omega, by simp⟩

/-- The placeholders of a kind with spans left are found, at a later place where the tokens
in between have none. -/
theorem nextTokenEnd_later (left : List ℕ) {middle right : List ℕ} {tokenId remaining : ℕ}
    (hmiddle : tokenId ∉ middle) (hright : 0 < remaining → tokenId ∈ right) :
    ∃ tokenEnd, nextTokenEnd (left ++ (middle ++ right)) tokenId left.length remaining =
      .ok tokenEnd ∧ left.length + middle.length ≤ tokenEnd := by
  rcases Nat.eq_zero_or_pos remaining with hzero | hpos
  · refine ⟨_, by rw [nextTokenEnd, if_pos (.inl hzero)], ?_⟩
    simp only [List.length_append]
    omega
  · obtain ⟨between, after, rfl, hbetween⟩ := List.eq_append_cons_of_mem (hright hpos)
    refine ⟨left.length + (middle ++ between).length, ?_, ?_⟩
    · rw [← List.append_assoc middle]
      exact nextTokenEnd_append hpos (by simp [hmiddle, hbetween])
    · rw [List.length_append]
      omega

theorem VisionGrid.Valid.tokens_pos {kind : VisualKind} {grid : VisionGrid}
    (h : grid.Valid mergeSize kind) : 0 < gridTokenCount (grid.merged mergeSize) := by
  obtain ⟨-, -, htemporal, hheight, hwidth, -⟩ := h
  exact Nat.mul_pos (Nat.mul_pos htemporal hheight) hwidth

theorem promptGrids_cons_text (kind : VisualKind) (tokenId : ℕ) (parts : List PromptPart) :
    promptGrids kind (.text tokenId :: parts) = promptGrids kind parts :=
  List.filterMap_cons_none rfl

/-- A kind with grids has a placeholder. -/
theorem WellFormedFrom.placeholder_mem {before : Option ℕ} {parts : List PromptPart}
    (h : WellFormedFrom ids mergeSize before parts) {kind : VisualKind}
    (hgrids : 0 < (promptGrids kind parts).length) :
    ids.placeholder kind ∈ promptTokens ids mergeSize parts := by
  induction parts generalizing before with
  | nil => simp [promptGrids] at hgrids
  | cons part parts ih =>
    rw [promptTokens_cons, List.mem_append]
    cases part with
    | text tokenId =>
      rw [promptGrids_cons_text] at hgrids
      exact .inr (ih h.2.2 hgrids)
    | visual kind' grid =>
      by_cases hkind : kind' = kind
      · subst hkind
        left
        exact List.mem_replicate.mpr ⟨h.2.1.tokens_pos.ne', rfl⟩
      · rw [promptGrids_visual, if_neg hkind] at hgrids
        exact .inr (ih h.2.2 hgrids)

/-- A prompt is text up to its first span. -/
theorem WellFormedFrom.split {before : Option ℕ} {parts : List PromptPart}
    (h : WellFormedFrom ids mergeSize before parts) :
    (∃ texts : List ℕ, parts = texts.map .text) ∨
      ∃ (texts : List ℕ) (kind : VisualKind) (grid : VisionGrid) (later : List PromptPart),
        parts = texts.map .text ++ .visual kind grid :: later ∧
        (∀ kind', ids.placeholder kind' ∉ texts) ∧ grid.Valid mergeSize kind ∧
        WellFormedFrom ids mergeSize (some (ids.placeholder kind)) later := by
  induction parts generalizing before with
  | nil => exact .inl ⟨[], rfl⟩
  | cons part parts ih =>
    cases part with
    | visual kind grid => exact .inr ⟨[], kind, grid, parts, rfl, by simp, h.2.1, h.2.2⟩
    | text tokenId =>
      obtain ⟨himage, hvideo, htail⟩ := h
      rcases ih htail with ⟨texts, rfl⟩ | ⟨texts, kind, grid, later, rfl, htexts, hgrid, hlater⟩
      · exact .inl ⟨tokenId :: texts, rfl⟩
      · refine .inr ⟨tokenId :: texts, kind, grid, later, rfl, ?_, hgrid, hlater⟩
        intro kind'
        rw [List.mem_cons, not_or]
        refine ⟨?_, htexts kind'⟩
        cases kind' with
        | image => exact Ne.symm himage
        | video => exact Ne.symm hvideo

/-- The spans left in some parts. -/
def remainingSpans (parts : List PromptPart) : RemainingVisualSpans where
  images := (promptGrids .image parts).length
  videos := (promptGrids .video parts).length

theorem SpecialTokens.placeholder_injective (hids : ids.imageTokenId ≠ ids.videoTokenId)
    {kind kind' : VisualKind} (h : ids.placeholder kind = ids.placeholder kind') :
    kind = kind' := by
  cases kind <;> cases kind' <;> first | rfl | exact absurd h hids | exact absurd h.symm hids

section Span

variable {seen later : List PromptPart} {texts : List ℕ} {kind : VisualKind} {grid : VisionGrid}

theorem promptTokens_span : promptTokens ids mergeSize
    (seen ++ (texts.map .text ++ .visual kind grid :: later)) =
      promptTokens ids mergeSize seen ++ (texts ++
        (List.replicate (gridTokenCount (grid.merged mergeSize)) (ids.placeholder kind) ++
          promptTokens ids mergeSize later)) := by
  rw [promptTokens_append, promptTokens_append, promptTokens_text, promptTokens_cons]
  rfl

theorem nextTokenEnd_own (seen later : List PromptPart)
    (htexts : ∀ kind, ids.placeholder kind ∉ texts)
    (hgrid : grid.Valid mergeSize kind) {remaining : ℕ} (hremaining : 0 < remaining) :
    nextTokenEnd
        (promptTokens ids mergeSize (seen ++ (texts.map .text ++ .visual kind grid :: later)))
        (ids.placeholder kind) (promptTokens ids mergeSize seen).length remaining =
      .ok ((promptTokens ids mergeSize seen).length + texts.length) := by
  obtain ⟨n, hn⟩ := Nat.exists_eq_succ_of_ne_zero hgrid.tokens_pos.ne'
  rw [promptTokens_span, hn, List.replicate_succ, List.cons_append]
  exact nextTokenEnd_append hremaining (htexts kind)

/-- The other kind's next span lies behind the placeholders of this one. -/
theorem nextTokenEnd_other (seen : List PromptPart) (hids : ids.imageTokenId ≠ ids.videoTokenId)
    (htexts : ∀ kind, ids.placeholder kind ∉ texts) (hgrid : grid.Valid mergeSize kind)
    (hlater : WellFormedFrom ids mergeSize (some (ids.placeholder kind)) later)
    (kind' : VisualKind) (hkind : kind' ≠ kind) :
    ∃ tokenEnd, nextTokenEnd
        (promptTokens ids mergeSize (seen ++ (texts.map .text ++ .visual kind grid :: later)))
        (ids.placeholder kind') (promptTokens ids mergeSize seen).length
        (promptGrids kind' later).length = .ok tokenEnd ∧
      (promptTokens ids mergeSize seen).length + texts.length < tokenEnd := by
  rw [promptTokens_span, ← List.append_assoc texts]
  have hmiddle : ids.placeholder kind' ∉ texts ++
      List.replicate (gridTokenCount (grid.merged mergeSize)) (ids.placeholder kind) := by
    rw [List.mem_append, List.mem_replicate, not_or]
    exact ⟨htexts kind', fun h => hkind (SpecialTokens.placeholder_injective hids h.2)⟩
  obtain ⟨tokenEnd, hend, hle⟩ := nextTokenEnd_later (promptTokens ids mergeSize seen) hmiddle
    hlater.placeholder_mem
  refine ⟨tokenEnd, hend, ?_⟩
  have := hgrid.tokens_pos
  rw [List.length_append, List.length_replicate] at hle
  omega

theorem popNext_ok (hids : ids.imageTokenId ≠ ids.videoTokenId)
    (htexts : ∀ kind, ids.placeholder kind ∉ texts) (hgrid : grid.Valid mergeSize kind)
    (hlater : WellFormedFrom ids mergeSize (some (ids.placeholder kind)) later) :
    (remainingSpans (.visual kind grid :: later)).popNext ids
        (promptTokens ids mergeSize (seen ++ (texts.map .text ++ .visual kind grid :: later)))
        (promptTokens ids mergeSize seen).length =
      .ok (kind, (promptTokens ids mergeSize seen).length + texts.length,
        remainingSpans later) := by
  unfold RemainingVisualSpans.popNext remainingSpans
  cases kind with
  | image =>
    obtain ⟨tokenEnd, hend, hlt⟩ := nextTokenEnd_other seen hids htexts hgrid hlater .video
      (by decide)
    have hown := nextTokenEnd_own seen later htexts hgrid
      (promptGrids .image later).length.succ_pos
    simp only [SpecialTokens.placeholder] at hown hend
    simp only [promptGrids_visual, if_true, reduceCtorEq, if_false, List.length_cons, hown, hend]
    change (if _ then _ else _) = _
    rw [if_pos hlt]
    rfl
  | video =>
    obtain ⟨tokenEnd, hend, hlt⟩ := nextTokenEnd_other seen hids htexts hgrid hlater .image
      (by decide)
    have hown := nextTokenEnd_own seen later htexts hgrid
      (promptGrids .video later).length.succ_pos
    simp only [SpecialTokens.placeholder] at hown hend
    have hle : (promptTokens ids mergeSize seen).length + texts.length ≤
        (promptTokens ids mergeSize
          (seen ++ (texts.map .text ++ .visual .video grid :: later))).length := by
      rw [promptTokens_span]
      simp only [List.length_append]
      omega
    simp only [promptGrids_visual, if_true, reduceCtorEq, if_false, List.length_cons, hown, hend]
    change (if _ then _ else _) = _
    rw [if_neg (Nat.not_lt.mpr hlt.le), ensure, if_pos hle]
    rfl

end Span

/-! ## The rounds -/

/-- Between two rounds: the parts seen so far have their positions, and the grids of the
parts to come are those the cursor has not given out. -/
structure RoundState (mergeSize : ℕ) (ids : SpecialTokens) (seen parts : List PromptPart)
    (cursor : VisualGridCursor) (positionParts : List (List MRopePosition)) : Prop where
  positions : positionParts.flatten = promptPositions mergeSize 0 seen
  next : nextPositionStart positionParts = .ok (promptAdvance mergeSize seen)
  grids : ∀ kind, (cursor.grids kind).drop (cursor.index kind) = promptGrids kind parts
  used : ∀ kind, cursor.index kind ≤ (cursor.grids kind).length

@[simp] theorem VisualGridCursor.grids_advance (cursor : VisualGridCursor)
    (kind kind' : VisualKind) :
    (cursor.advance kind).grids kind' = cursor.grids kind' := by
  cases kind <;> cases kind' <;> rfl

theorem VisualGridCursor.index_advance (cursor : VisualGridCursor) (kind kind' : VisualKind) :
    (cursor.advance kind).index kind' =
      if kind = kind' then cursor.index kind' + 1 else cursor.index kind' := by
  cases kind <;> cases kind' <;> rfl

theorem mergeVisualGrid_ok {kind : VisualKind} {grid : VisionGrid} (h : grid.Valid mergeSize kind) :
    mergeVisualGrid mergeSize grid = .ok (grid.merged mergeSize) := by
  obtain ⟨hheight, hwidth, htemporal, hheight', hwidth', -⟩ := h
  simp [mergeVisualGrid, ensure, hheight, hwidth, htemporal, hheight', hwidth', bind, Except.bind,
    VisionGrid.merged, pure, Except.pure]

section Round

variable {seen later : List PromptPart} {texts : List ℕ} {kind : VisualKind} {grid : VisionGrid}
  {cursor : VisualGridCursor} {positionParts : List (List MRopePosition)}

theorem RoundState.take_ok
    (h : RoundState mergeSize ids seen (texts.map .text ++ .visual kind grid :: later) cursor
      positionParts) : cursor.take kind = .ok (grid, cursor.advance kind) := by
  have hgrids := h.grids kind
  rw [promptGrids_append, promptGrids_text, List.nil_append, promptGrids_visual,
    if_pos rfl] at hgrids
  have hrow : (cursor.grids kind)[cursor.index kind]? = some grid := by
    rw [← List.head?_drop, hgrids, List.head?_cons]
  rw [VisualGridCursor.take, hrow]

/-- One round appends the text before the next span and the span. -/
theorem RoundState.round
    (h : RoundState mergeSize ids seen (texts.map .text ++ .visual kind grid :: later) cursor
      positionParts) (hgrid : grid.Valid mergeSize kind) :
    ∃ positionParts', appendVisualSpanPositions positionParts texts.length (grid.merged mergeSize) =
        .ok positionParts' ∧
      RoundState mergeSize ids (seen ++ (texts.map .text ++ [.visual kind grid])) later
        (cursor.advance kind) positionParts' := by
  refine ⟨positionParts ++ [textPositions texts.length (promptAdvance mergeSize seen),
    visualPositions (grid.merged mergeSize) (promptAdvance mergeSize seen + texts.length)], ?_, ?_⟩
  · simp [appendVisualSpanPositions, h.next, bind, Except.bind, pure, Except.pure]
  have hlast := @visualPositions_bounds (grid.merged mergeSize) hgrid.2.2.1 hgrid.2.2.2.1
    hgrid.2.2.2.2.1 (promptAdvance mergeSize seen + texts.length)
  constructor
  · rw [List.flatten_append, h.positions, promptPositions_append, promptPositions_append,
      textPositions_eq mergeSize, promptAdvance_text, Nat.zero_add]
    simp [promptPositions, PromptPart.positions]
  · have hmax := maxPosition_eq hlast.2 fun p hp => Nat.le_sub_one_of_lt (hlast.1 p hp)
    have hpos : 0 < (grid.merged mergeSize).longest := hgrid.2.2.1.trans_le (le_max_left _ _)
    simp only [nextPositionStart, List.getLast?_append, List.getLast?_cons_cons,
      List.getLast?_singleton, Option.some_or, hmax, bind, Except.bind, pure, Except.pure]
    congr 1
    rw [promptAdvance_append, promptAdvance_append, promptAdvance_text, promptAdvance_cons,
      PromptPart.advance, promptAdvance_nil]
    omega
  · intro kind'
    have hgrids := h.grids kind'
    rw [promptGrids_append, promptGrids_text, List.nil_append, promptGrids_visual] at hgrids
    rw [VisualGridCursor.grids_advance, VisualGridCursor.index_advance]
    by_cases hkind : kind = kind'
    · rw [if_pos hkind] at hgrids ⊢
      rw [← List.tail_drop, hgrids, List.tail_cons]
    · rw [if_neg hkind] at hgrids ⊢
      exact hgrids
  · intro kind'
    have hgrids := congrArg List.length (h.grids kind')
    rw [promptGrids_append, promptGrids_text, List.nil_append, promptGrids_visual,
      List.length_drop] at hgrids
    have hused := h.used kind'
    rw [VisualGridCursor.grids_advance, VisualGridCursor.index_advance]
    by_cases hkind : kind = kind'
    · rw [if_pos hkind] at hgrids ⊢
      rw [List.length_cons] at hgrids
      omega
    · rw [if_neg hkind]
      exact hused

end Round

/-- The number of rounds for some parts. -/
def spanCount (parts : List PromptPart) : ℕ :=
  (remainingSpans parts).images + (remainingSpans parts).videos

theorem spanCount_text (texts : List ℕ) : spanCount (texts.map .text) = 0 := by
  simp [spanCount, remainingSpans, promptGrids_text]

theorem remainingSpans_append_text (texts : List ℕ) (parts : List PromptPart) :
    remainingSpans (texts.map .text ++ parts) = remainingSpans parts := by
  simp [remainingSpans, promptGrids_text]

theorem spanCount_visual (kind : VisualKind) (grid : VisionGrid) (parts : List PromptPart) :
    spanCount (.visual kind grid :: parts) = spanCount parts + 1 := by
  cases kind <;> simp [spanCount, remainingSpans, promptGrids_visual] <;> omega

/-- The rounds consume the spans in order and stop at the text after the last one. -/
theorem visualRounds_ok (hids : ids.imageTokenId ≠ ids.videoTokenId) {before : Option ℕ}
    {seen parts : List PromptPart} {cursor : VisualGridCursor}
    {positionParts : List (List MRopePosition)}
    (hparts : WellFormedFrom ids mergeSize before parts)
    (h : RoundState mergeSize ids seen parts cursor positionParts) {rounds : ℕ}
    (hrounds : rounds = spanCount parts) :
    ∃ (seen' : List PromptPart) (texts : List ℕ) (cursor' : VisualGridCursor)
      (positionParts' : List (List MRopePosition)),
      visualRounds ids mergeSize (promptTokens ids mergeSize (seen ++ parts)) rounds
          (remainingSpans parts) cursor positionParts (promptTokens ids mergeSize seen).length =
        .ok (positionParts', (promptTokens ids mergeSize seen').length, cursor') ∧
      seen ++ parts = seen' ++ texts.map .text ∧
      RoundState mergeSize ids seen' (texts.map .text) cursor' positionParts' := by
  induction rounds generalizing before seen parts cursor positionParts with
  | zero =>
    rcases hparts.split with ⟨texts, rfl⟩ | ⟨texts, kind, grid, later, rfl, -, -, -⟩
    · exact ⟨seen, texts, cursor, positionParts, rfl, rfl, h⟩
    · rw [spanCount, remainingSpans_append_text, ← spanCount, spanCount_visual] at hrounds
      omega
  | succ rounds ih =>
    rcases hparts.split with ⟨texts, rfl⟩ | ⟨texts, kind, grid, later, rfl, htexts, hgrid, hlater⟩
    · rw [spanCount_text] at hrounds
      omega
    · rw [spanCount, remainingSpans_append_text, ← spanCount, spanCount_visual] at hrounds
      obtain ⟨positionParts₁, happend, hstate⟩ := h.round hgrid
      obtain ⟨seen', texts', cursor', positionParts', hrun, hsplit, hdone⟩ :=
        ih hlater hstate (by omega)
      refine ⟨seen', texts', cursor', positionParts', ?_, by simpa using hsplit, hdone⟩
      have hseen : (promptTokens ids mergeSize
          (seen ++ (texts.map .text ++ [.visual kind grid]))).length =
            (promptTokens ids mergeSize seen).length + texts.length +
              gridTokenCount (grid.merged mergeSize) := by
        simp [promptTokens_text, PromptPart.tokens, Nat.add_assoc]
      have hall : seen ++ (texts.map .text ++ [.visual kind grid]) ++ later =
          seen ++ (texts.map .text ++ .visual kind grid :: later) := by simp
      rw [hseen, hall] at hrun
      rw [visualRounds, remainingSpans_append_text, popNext_ok hids htexts hgrid hlater]
      simp only [bind, Except.bind, h.take_ok, mergeVisualGrid_ok hgrid, Nat.add_sub_cancel_left,
        happend]
      exact hrun

/-! ## Counting the spans -/

theorem visionTokens_cons (visionStart first second : ℕ) (tokens : List ℕ) :
    visionTokens visionStart (first :: second :: tokens) =
      if first = visionStart then second :: visionTokens visionStart (second :: tokens)
      else visionTokens visionStart (second :: tokens) := by
  unfold visionTokens
  by_cases h : first = visionStart <;> simp [h]

theorem SpecialTokens.placeholder_ne_start
    (hnodup : [ids.imageTokenId, ids.videoTokenId, ids.visionStartTokenId].Nodup)
    (kind : VisualKind) : ids.placeholder kind ≠ ids.visionStartTokenId := by
  simp only [List.nodup_cons, List.mem_cons, List.not_mem_nil, or_false, not_or] at hnodup
  cases kind with
  | image => exact hnodup.1.2
  | video => exact hnodup.2.1

/-- A run of placeholders adds no vision start. -/
theorem visionTokens_replicate {visionStart tokenId : ℕ} (h : tokenId ≠ visionStart) (n : ℕ)
    (tokens : List ℕ) : visionTokens visionStart (List.replicate (n + 1) tokenId ++ tokens) =
      visionTokens visionStart (tokenId :: tokens) := by
  induction n with
  | zero => rfl
  | succ n ih =>
    rw [List.replicate_succ, List.cons_append, List.replicate_succ, List.cons_append,
      visionTokens_cons, if_neg h, ← List.cons_append, ← List.replicate_succ, ih]

/-- Each span is counted once, at the vision start before it. -/
theorem count_visionTokens
    (hnodup : [ids.imageTokenId, ids.videoTokenId, ids.visionStartTokenId].Nodup) {before : ℕ}
    {parts : List PromptPart} (h : WellFormedFrom ids mergeSize (some before) parts)
    (kind : VisualKind) :
    (visionTokens ids.visionStartTokenId (before :: promptTokens ids mergeSize parts)).count
      (ids.placeholder kind) = (promptGrids kind parts).length := by
  have hids : ids.imageTokenId ≠ ids.videoTokenId := by
    simp only [List.nodup_cons, List.mem_cons, not_or] at hnodup
    exact hnodup.1.1
  induction parts generalizing before with
  | nil => rfl
  | cons part parts ih =>
    cases part with
    | text tokenId =>
      obtain ⟨himage, hvideo, htail⟩ := h
      have hne : tokenId ≠ ids.placeholder kind := by
        cases kind with
        | image => exact himage
        | video => exact hvideo
      rw [promptTokens_cons, PromptPart.tokens, List.singleton_append, visionTokens_cons,
        promptGrids_cons_text, ← ih htail]
      split
      · rw [List.count_cons_of_ne hne]
      · rfl
    | visual kind' grid =>
      obtain ⟨hbefore, hgrid, htail⟩ := h
      obtain ⟨n, hn⟩ := Nat.exists_eq_succ_of_ne_zero hgrid.tokens_pos.ne'
      have hstart := SpecialTokens.placeholder_ne_start hnodup kind'
      rw [promptTokens_cons, PromptPart.tokens, hn, List.replicate_succ, List.cons_append,
        visionTokens_cons, if_pos (Option.some.inj hbefore), ← List.cons_append,
        ← List.replicate_succ, visionTokens_replicate hstart, promptGrids_visual]
      by_cases hkind : kind' = kind
      · rw [if_pos hkind, hkind, List.count_cons_self, ih (hkind ▸ htail), List.length_cons]
      · have hne : ids.placeholder kind' ≠ ids.placeholder kind := fun heq =>
          hkind (SpecialTokens.placeholder_injective hids heq)
        rw [if_neg hkind, List.count_cons_of_ne hne, ih htail]

theorem WellFormedFrom.getLast?_ne
    {before : Option ℕ} {parts : List PromptPart} (h : WellFormedFrom ids mergeSize before parts) :
    (before.toList ++ promptTokens ids mergeSize parts).getLast? ≠
      some ids.visionStartTokenId := by
  induction parts generalizing before with
  | nil =>
    cases before with
    | none => simp
    | some before => simpa [WellFormedFrom] using h
  | cons part parts ih =>
    cases part with
    | text tokenId =>
      have htail := ih h.2.2
      simp only [Option.toList_some, List.singleton_append] at htail
      rw [promptTokens_cons, PromptPart.tokens, List.singleton_append,
        List.getLast?_append_of_ne_nil _ (List.cons_ne_nil _ _)]
      exact htail
    | visual kind grid =>
      obtain ⟨hbefore, hgrid, htail⟩ := h
      have htail := ih htail
      obtain ⟨n, hn⟩ := Nat.exists_eq_succ_of_ne_zero hgrid.tokens_pos.ne'
      simp only [Option.toList_some, List.singleton_append] at htail
      rw [promptTokens_cons, PromptPart.tokens, hn, List.replicate_succ', List.append_assoc,
        List.singleton_append, ← List.append_assoc,
        List.getLast?_append_of_ne_nil _ (List.cons_ne_nil _ _)]
      exact htail

theorem visualSpanCounts_ok
    (hnodup : [ids.imageTokenId, ids.videoTokenId, ids.visionStartTokenId].Nodup)
    {parts : List PromptPart} (h : WellFormedFrom ids mergeSize none parts) :
    visualSpanCounts ids (promptTokens ids mergeSize parts) = .ok (remainingSpans parts) := by
  have hcount : ∀ kind, (visionTokens ids.visionStartTokenId
      (promptTokens ids mergeSize parts)).count (ids.placeholder kind) =
        (promptGrids kind parts).length := by
    intro kind
    cases parts with
    | nil => rfl
    | cons part parts =>
      cases part with
      | text tokenId =>
        rw [promptTokens_cons, PromptPart.tokens, List.singleton_append, promptGrids_cons_text]
        exact count_visionTokens hnodup h.2.2 kind
      | visual kind' grid => exact absurd h.1 (Option.some_ne_none _).symm
  have hlast := h.getLast?_ne
  rw [Option.toList_none, List.nil_append] at hlast
  simp only [visualSpanCounts, ensure, if_pos hlast, bind, Except.bind, pure, Except.pure]
  rw [remainingSpans, ← hcount, ← hcount]
  rfl

/-! ## Whole prompts -/

/-- A request for a prompt: grid rows for its images and, video by video, for its frames,
and no masked token. -/
structure PromptInputs (parts : List PromptPart) (tokens : List ℕ)
    (imageGridThw videoGridThw : Option (List VisionGrid)) (attentionMask : Option (List Bool)) :
    Prop where
  images : imageGridThw.getD [] = promptGrids .image parts
  videos : framewise (videoGridThw.getD []) = promptGrids .video parts
  mask : attentionMask = none ∨ attentionMask = some (List.replicate tokens.length true)

theorem buildSequenceVisualPositions_ok
    (hnodup : [ids.imageTokenId, ids.videoTokenId, ids.visionStartTokenId].Nodup)
    {parts : List PromptPart} (h : WellFormedFrom ids mergeSize none parts) (hne : parts ≠ [])
    {imageGridThw videoGridThw : Option (List VisionGrid)}
    (himages : imageGridThw.getD [] = promptGrids .image parts)
    (hvideos : videoGridThw.getD [] = promptGrids .video parts) :
    ∃ cursor, buildSequenceVisualPositions ids mergeSize (promptTokens ids mergeSize parts)
        ⟨imageGridThw, videoGridThw, 0, 0⟩ = .ok (promptPositions mergeSize 0 parts, cursor) ∧
      cursor.ensureExhausted = .ok () := by
  have hids : ids.imageTokenId ≠ ids.videoTokenId := by
    simp only [List.nodup_cons, List.mem_cons, not_or] at hnodup
    exact hnodup.1.1
  have hstart : RoundState mergeSize ids [] parts ⟨imageGridThw, videoGridThw, 0, 0⟩ [] := by
    constructor
    · rfl
    · rfl
    · rintro (_ | _)
      · exact himages
      · exact hvideos
    · rintro (_ | _) <;> exact Nat.zero_le _
  obtain ⟨seen, texts, cursor, positionParts, hrun, hsplit, hdone⟩ :=
    visualRounds_ok hids h hstart rfl
  rw [List.nil_append, promptTokens_nil, List.length_nil] at hrun
  rw [List.nil_append] at hsplit
  have htokens : (promptTokens ids mergeSize parts).length =
      (promptTokens ids mergeSize seen).length + texts.length := by
    rw [hsplit, promptTokens_append, promptTokens_text, List.length_append]
  have hpositions : promptPositions mergeSize 0 parts = positionParts.flatten ++
      textPositions texts.length (promptAdvance mergeSize seen) := by
    rw [hsplit, promptPositions_append, ← hdone.positions, Nat.zero_add,
      ← textPositions_eq mergeSize]
  have htrailing : ∃ positionParts', appendTrailingTextPositions positionParts
      (promptTokens ids mergeSize seen).length (promptTokens ids mergeSize parts).length =
        .ok positionParts' ∧ positionParts'.flatten = promptPositions mergeSize 0 parts := by
    rw [hpositions]
    unfold appendTrailingTextPositions
    split
    · next hle =>
      obtain rfl : texts = [] := List.eq_nil_of_length_eq_zero (by omega)
      exact ⟨positionParts, rfl, by simp [textPositions]⟩
    · rw [hdone.next, htokens, Nat.add_sub_cancel_left]
      exact ⟨_, rfl, by simp⟩
  obtain ⟨positionParts', happend, hflatten⟩ := htrailing
  have hnonempty : positionParts' ≠ [] := by
    rintro rfl
    have hlength := length_promptPositions ids mergeSize 0 parts
    rw [← hflatten] at hlength
    cases parts with
    | nil => exact hne rfl
    | cons part parts =>
      cases part with
      | text tokenId => simp [PromptPart.tokens] at hlength
      | visual kind grid => exact absurd h.1 (Option.some_ne_none _).symm
  refine ⟨cursor, ?_, ?_⟩
  · simp only [buildSequenceVisualPositions, visualSpanCounts_ok hnodup h, bind, Except.bind]
    rw [show (remainingSpans parts).images + (remainingSpans parts).videos = spanCount parts
      from rfl, hrun]
    simp only [happend, ensure, if_pos hnonempty, hflatten, pure, Except.pure]
  · have hused : ∀ kind, cursor.index kind = (cursor.grids kind).length := by
      intro kind
      have hgrids := congrArg List.length (hdone.grids kind)
      rw [promptGrids_text, List.length_drop, List.length_nil] at hgrids
      have := hdone.used kind
      omega
    simp [VisualGridCursor.ensureExhausted, VisualGridCursor.ensureKindExhausted, ensure, hused,
      bind, Except.bind]

theorem filter_unmasked (tokens : List ℕ) :
    ((tokens.zip (List.replicate tokens.length true)).filter (·.2)).map (·.1) = tokens := by
  induction tokens with
  | nil => rfl
  | cons tokenId tokens ih => simpa [List.replicate_succ] using ih

theorem scatterActive_unmasked (positions : List MRopePosition) :
    scatterActive (List.replicate positions.length true) positions = positions := by
  induction positions with
  | nil => rfl
  | cons position positions ih => rw [List.length_cons, List.replicate_succ, scatterActive, ih]

theorem maskedTextPositions_unmasked (active length : ℕ) :
    maskedTextPositions active (List.replicate length true) = textPositions length active := by
  induction length generalizing active with
  | zero => rfl
  | succ length ih =>
    rw [List.replicate_succ, maskedTextPositions, ih]
    simp only [textPositions, List.range_succ_eq_map, List.map_cons, List.map_map]
    congr 1
    · simp
    · apply List.map_congr_left
      intro i _
      simp only [Function.comp_apply, MRopePosition.mk.injEq, and_self]
      omega

/-- A prompt without grids is text. -/
theorem WellFormedFrom.text_of_no_grids {before : Option ℕ} {parts : List PromptPart}
    (h : WellFormedFrom ids mergeSize before parts) (hgrids : ∀ kind, promptGrids kind parts = []) :
    ∃ texts : List ℕ, parts = texts.map .text := by
  rcases h.split with htext | ⟨texts, kind, grid, later, rfl, -⟩
  · exact htext
  · have := hgrids kind
    rw [promptGrids_append, promptGrids_text, promptGrids_visual, if_pos rfl] at this
    simp at this

variable {imageGridThw videoGridThw : Option (List VisionGrid)} {attentionMask : Option (List Bool)}
  {parts : List PromptPart}

theorem getTextRopeIndex_ok {texts : List ℕ} (hne : texts ≠ [])
    (hmask : attentionMask = none ∨ attentionMask = some (List.replicate texts.length true)) :
    getTextRopeIndex texts attentionMask = .ok (textPositions texts.length 0, 0) := by
  rcases hmask with rfl | rfl
  · rfl
  · have hpos : 0 < texts.length := List.length_pos_of_ne_nil hne
    have hmax : maxPosition (textPositions texts.length 0) = .ok (texts.length - 1) := by
      apply maxPosition_eq
      · refine List.mem_flatMap.mpr ⟨⟨texts.length - 1, texts.length - 1, texts.length - 1⟩, ?_, ?_⟩
        · exact List.mem_map.mpr ⟨texts.length - 1, List.mem_range.mpr (by omega), rfl⟩
        · exact MRopePosition.mem_axes.mpr (.inl rfl)
      · intro p hp
        obtain ⟨position, hposition, hp⟩ := List.mem_flatMap.mp hp
        obtain ⟨i, hi, rfl⟩ := List.mem_map.mp hposition
        rw [List.mem_range] at hi
        rcases MRopePosition.mem_axes.mp hp with rfl | rfl | rfl <;> omega
    simp only [getTextRopeIndex, maskedTextPositions_unmasked, hmax, bind, Except.bind, pure,
      Except.pure, List.length_replicate]
    congr 2
    omega

theorem getVisualRopeIndex_ok
    (hnodup : [ids.imageTokenId, ids.videoTokenId, ids.visionStartTokenId].Nodup)
    (h : WellFormedFrom ids mergeSize none parts) (hne : parts ≠ [])
    (himages : imageGridThw.getD [] = promptGrids .image parts)
    (hvideos : videoGridThw.getD [] = promptGrids .video parts)
    (hmask : attentionMask = none ∨ attentionMask =
      some (List.replicate (promptTokens ids mergeSize parts).length true)) :
    getVisualRopeIndex ids mergeSize (promptTokens ids mergeSize parts) imageGridThw videoGridThw
        attentionMask =
      .ok (promptPositions mergeSize 0 parts,
        promptAdvance mergeSize parts - (promptTokens ids mergeSize parts).length) := by
  obtain ⟨cursor, hbuild, hexhausted⟩ :=
    buildSequenceVisualPositions_ok hnodup h hne himages hvideos
  have hlength := length_promptPositions ids mergeSize 0 parts
  have hunmasked : attentionMask.getD
      (List.replicate (promptTokens ids mergeSize parts).length true) =
        List.replicate (promptTokens ids mergeSize parts).length true := by
    rcases hmask with rfl | rfl <;> rfl
  have hadvance : 0 < promptAdvance mergeSize parts := by
    cases parts with
    | nil => exact absurd rfl hne
    | cons part parts =>
      rw [promptAdvance_cons]
      exact Nat.add_pos_left (PromptPart.positions_bounds h 0).1 _
  simp only [getVisualRopeIndex, hunmasked, filter_unmasked, hbuild, bind, Except.bind, ensure,
    if_pos hlength, maxPosition_promptPositions h hne, hexhausted, pure, Except.pure]
  rw [← hlength, scatterActive_unmasked]
  congr 2
  omega

/-- The positions and the delta of a prompt, part by part. -/
theorem getQwen3VlRopeIndex_ok (hmerge : 0 < mergeSize)
    (hnodup : [ids.imageTokenId, ids.videoTokenId, ids.visionStartTokenId].Nodup)
    (h : WellFormedFrom ids mergeSize none parts) (hne : parts ≠ [])
    (hinputs : PromptInputs parts (promptTokens ids mergeSize parts) imageGridThw videoGridThw
      attentionMask) :
    getQwen3VlRopeIndex ids mergeSize (promptTokens ids mergeSize parts) imageGridThw videoGridThw
        attentionMask =
      .ok (promptPositions mergeSize 0 parts,
        promptAdvance mergeSize parts - (promptTokens ids mergeSize parts).length) := by
  have hshape :
      ∀ mask ∈ attentionMask, mask.length = (promptTokens ids mergeSize parts).length := by
    rcases hinputs.mask with rfl | rfl <;> simp
  simp only [getQwen3VlRopeIndex, ensure, if_pos hmerge, if_pos hnodup, if_pos hshape, bind,
    Except.bind]
  split
  · next hnone =>
    obtain ⟨rfl, rfl⟩ := hnone
    obtain ⟨texts, rfl⟩ := h.text_of_no_grids fun kind => by
      cases kind with
      | image => exact hinputs.images.symm
      | video => exact hinputs.videos.symm
    have hmask := hinputs.mask
    rw [promptTokens_text] at hmask ⊢
    rw [getTextRopeIndex_ok (fun h => hne (by rw [h, List.map_nil])) hmask,
      textPositions_eq mergeSize, promptAdvance_text, sub_self]
  · refine getVisualRopeIndex_ok hnodup h hne hinputs.images ?_ hinputs.mask
    rw [← hinputs.videos]
    cases videoGridThw <;> rfl

/-! ## Stability -/

def WellFormed (ids : SpecialTokens) (mergeSize : ℕ) (parts : List PromptPart) : Prop :=
  parts ≠ [] ∧ WellFormedFrom ids mergeSize none parts

/-- Text behind a prompt leaves it well formed. -/
theorem WellFormedFrom.append_text {before : Option ℕ}
    (h : WellFormedFrom ids mergeSize before parts) {generated : List ℕ}
    (hgenerated : ∀ tokenId ∈ generated, tokenId ≠ ids.imageTokenId ∧
      tokenId ≠ ids.videoTokenId ∧ tokenId ≠ ids.visionStartTokenId) :
    WellFormedFrom ids mergeSize before (parts ++ generated.map .text) := by
  induction parts generalizing before with
  | nil =>
    rw [List.nil_append]
    induction generated generalizing before with
    | nil => exact h
    | cons tokenId generated ih =>
      obtain ⟨himage, hvideo, hstart⟩ := hgenerated tokenId List.mem_cons_self
      have hbefore : WellFormedFrom ids mergeSize (some tokenId) [] := fun heq =>
        hstart (Option.some.inj heq)
      exact ⟨himage, hvideo, ih (fun t ht => hgenerated t (List.mem_cons_of_mem _ ht)) hbefore⟩
  | cons part parts ih =>
    cases part with
    | text tokenId => exact ⟨h.1, h.2.1, ih h.2.2⟩
    | visual kind grid => exact ⟨h.1, h.2.1, ih h.2.2⟩

theorem getElem?_generated {parts : List PromptPart} {generated : List ℕ} {k : ℕ}
    (hk : k < generated.length) :
    (promptPositions mergeSize 0 (parts ++ generated.map .text))[
        (promptTokens ids mergeSize parts).length + k]? =
      some ⟨k + promptAdvance mergeSize parts, k + promptAdvance mergeSize parts,
        k + promptAdvance mergeSize parts⟩ := by
  rw [promptPositions_append, ← textPositions_eq, Nat.zero_add,
    ← length_promptPositions ids mergeSize 0 parts, List.getElem?_append_right (by omega),
    Nat.add_sub_cancel_left]
  simp [textPositions, hk]

/-- In every row of a decode batch a sequence is at its logical position plus its delta. -/
theorem prepareDecodePositions_getElem? {batch : List DecodePlace} {i : ℕ} {place : DecodePlace}
    (hplace : batch[i]? = some place) {row : List ℤ} (hrow : row ∈ prepareDecodePositions batch) :
    row[i]? = some (place.logicalPosition + place.ropeDelta.getD 0) := by
  unfold prepareDecodePositions at hrow
  split at hrow
  · rw [List.eq_of_mem_replicate hrow, List.getElem?_map, hplace, Option.map_some]
  · next hnone =>
    rw [List.mem_singleton.mp hrow, List.getElem?_map, hplace, Option.map_some]
    have hdelta : place.ropeDelta = none := by
      by_contra hsome
      exact hnone (List.any_eq_true.mpr
        ⟨place, List.mem_of_getElem? hplace, Option.isSome_iff_ne_none.mpr hsome⟩)
    rw [hdelta, Option.getD_none, Int.add_zero]

/-- Prompts with the same parts up to a point have the same positions up to it, and decode
places the tokens generated after a prompt where recomputing the positions puts them. A
request without media may come without a delta. -/
theorem mrope_positions_stable (hmerge : 0 < mergeSize)
    (hnodup : [ids.imageTokenId, ids.videoTokenId, ids.visionStartTokenId].Nodup) :
    (∀ common suffix suffix' imageGridThw videoGridThw attentionMask imageGridThw' videoGridThw'
        attentionMask', WellFormed ids mergeSize (common ++ suffix) →
      WellFormed ids mergeSize (common ++ suffix') →
      PromptInputs (common ++ suffix) (promptTokens ids mergeSize (common ++ suffix))
        imageGridThw videoGridThw attentionMask →
      PromptInputs (common ++ suffix') (promptTokens ids mergeSize (common ++ suffix'))
        imageGridThw' videoGridThw' attentionMask' →
      ∃ positions ropeDelta positions' ropeDelta',
        getQwen3VlRopeIndex ids mergeSize (promptTokens ids mergeSize (common ++ suffix))
          imageGridThw videoGridThw attentionMask = .ok (positions, ropeDelta) ∧
        getQwen3VlRopeIndex ids mergeSize (promptTokens ids mergeSize (common ++ suffix'))
          imageGridThw' videoGridThw' attentionMask' = .ok (positions', ropeDelta') ∧
        ∀ i < (promptTokens ids mergeSize common).length,
          (positions[i]?).isSome ∧ positions[i]? = positions'[i]?) ∧
    ∀ prompt generated imageGridThw videoGridThw attentionMask attentionMask',
      WellFormed ids mergeSize prompt →
      (∀ tokenId ∈ generated, tokenId ≠ ids.imageTokenId ∧ tokenId ≠ ids.videoTokenId ∧
        tokenId ≠ ids.visionStartTokenId) →
      PromptInputs prompt (promptTokens ids mergeSize prompt)
        imageGridThw videoGridThw attentionMask →
      PromptInputs (prompt ++ generated.map .text)
        (promptTokens ids mergeSize prompt ++ generated)
        imageGridThw videoGridThw attentionMask' →
      ∃ positions ropeDelta positions' ropeDelta',
        getQwen3VlRopeIndex ids mergeSize (promptTokens ids mergeSize prompt)
          imageGridThw videoGridThw attentionMask = .ok (positions, ropeDelta) ∧
        getQwen3VlRopeIndex ids mergeSize (promptTokens ids mergeSize prompt ++ generated)
          imageGridThw videoGridThw attentionMask' = .ok (positions', ropeDelta') ∧
        positions.length = (promptTokens ids mergeSize prompt).length ∧
        positions'.take positions.length = positions ∧
        ∀ k < generated.length, ∃ position : ℕ,
          positions'[positions.length + k]? = some ⟨position, position, position⟩ ∧
          ∀ (batch : List DecodePlace) (i : ℕ) (seqDelta : Option ℤ),
            batch[i]? = some ⟨positions.length + (k + 1), seqDelta⟩ →
            seqDelta = some ropeDelta ∨
              (imageGridThw = none ∧ videoGridThw = none ∧ seqDelta = none) →
            ∀ row ∈ prepareDecodePositions batch, row[i]? = some (position : ℤ) := by
  constructor
  · intro common suffix suffix' imageGridThw videoGridThw attentionMask imageGridThw' videoGridThw'
      attentionMask' h h' hinputs hinputs'
    refine ⟨_, _, _, _, getQwen3VlRopeIndex_ok hmerge hnodup h.2 h.1 hinputs,
      getQwen3VlRopeIndex_ok hmerge hnodup h'.2 h'.1 hinputs', ?_⟩
    intro i hi
    rw [← length_promptPositions ids mergeSize 0 common] at hi
    rw [promptPositions_append, promptPositions_append, List.getElem?_append_left hi,
      List.getElem?_append_left hi, List.getElem?_eq_getElem hi]
    exact ⟨rfl, rfl⟩
  · intro prompt generated imageGridThw videoGridThw attentionMask attentionMask' h hgenerated
      hinputs hinputs'
    have hlong := h.2.append_text hgenerated
    have hne : prompt ++ generated.map .text ≠ [] := List.append_ne_nil_of_left_ne_nil h.1 _
    have htokens : promptTokens ids mergeSize (prompt ++ generated.map .text) =
        promptTokens ids mergeSize prompt ++ generated := by
      rw [promptTokens_append, promptTokens_text]
    rw [← htokens] at hinputs'
    have hrun' := getQwen3VlRopeIndex_ok hmerge hnodup hlong hne hinputs'
    rw [htokens] at hrun'
    have hlength := length_promptPositions ids mergeSize 0 prompt
    refine ⟨_, _, _, _, getQwen3VlRopeIndex_ok hmerge hnodup h.2 h.1 hinputs, hrun',
      hlength, ?_, ?_⟩
    · rw [promptPositions_append, List.take_left]
    · intro k hk
      refine ⟨k + promptAdvance mergeSize prompt, ?_, ?_⟩
      · rw [hlength]
        exact getElem?_generated hk
      · intro batch i seqDelta hplace hdelta row hrow
        rw [prepareDecodePositions_getElem? hplace hrow, DecodePlace.logicalPosition, hlength]
        rcases hdelta with rfl | ⟨rfl, rfl, rfl⟩
        · rw [Option.getD_some]
          congr 1
          push_cast
          omega
        · obtain ⟨texts, rfl⟩ := h.2.text_of_no_grids fun kind => by
            cases kind with
            | image => exact hinputs.images.symm
            | video => exact hinputs.videos.symm
          rw [promptTokens_text, promptAdvance_text, Option.getD_none]
          congr 1
          push_cast
          omega

/-- Text, a vision start and an image of two by three tokens. -/
def imagePrompt : List PromptPart :=
  [.text 1, .text 7, .visual .image ⟨1, 4, 6⟩, .text 2]

/-- The same prompt with a video of two frames behind it. -/
def imageVideoPrompt : List PromptPart :=
  imagePrompt ++ [.text 7, .visual .video ⟨1, 4, 4⟩, .text 8, .text 7, .visual .video ⟨1, 4, 4⟩,
    .text 3]

theorem mrope_positions_stable_image_video :
    (∃ positions ropeDelta positions' ropeDelta',
      getQwen3VlRopeIndex ⟨5, 6, 7⟩ 2 [1, 7, 5, 5, 5, 5, 5, 5, 2] (some [⟨1, 4, 6⟩]) none none =
        .ok (positions, ropeDelta) ∧
      getQwen3VlRopeIndex ⟨5, 6, 7⟩ 2
        [1, 7, 5, 5, 5, 5, 5, 5, 2, 7, 6, 6, 6, 6, 8, 7, 6, 6, 6, 6, 3] (some [⟨1, 4, 6⟩])
        (some [⟨2, 4, 4⟩]) none = .ok (positions', ropeDelta') ∧
      ∀ i < 9, (positions[i]?).isSome ∧ positions[i]? = positions'[i]?) ∧
    ∃ positions ropeDelta positions' ropeDelta',
      getQwen3VlRopeIndex ⟨5, 6, 7⟩ 2 [1, 7, 5, 5, 5, 5, 5, 5, 2] (some [⟨1, 4, 6⟩]) none none =
        .ok (positions, ropeDelta) ∧
      getQwen3VlRopeIndex ⟨5, 6, 7⟩ 2 [1, 7, 5, 5, 5, 5, 5, 5, 2, 3, 4] (some [⟨1, 4, 6⟩])
        none none =
        .ok (positions', ropeDelta') ∧
      positions.length = 9 ∧ positions'.take positions.length = positions ∧
      ∀ k < 2, ∃ position : ℕ, positions'[positions.length + k]? =
          some ⟨position, position, position⟩ ∧
        ∀ (batch : List DecodePlace) (i : ℕ) (seqDelta : Option ℤ),
          batch[i]? = some ⟨positions.length + (k + 1), seqDelta⟩ →
          seqDelta = some ropeDelta ∨
            (some [(⟨1, 4, 6⟩ : VisionGrid)] = none ∧ (none : Option (List VisionGrid)) = none ∧
              seqDelta = none) →
          ∀ row ∈ prepareDecodePositions batch, row[i]? = some (position : ℤ) := by
  have hstable := @mrope_positions_stable ⟨5, 6, 7⟩ 2 (by decide) (by decide)
  have himage : WellFormed ⟨5, 6, 7⟩ 2 imagePrompt := by
    simp [WellFormed, imagePrompt, WellFormedFrom, VisionGrid.Valid]
  have hvideo : WellFormed ⟨5, 6, 7⟩ 2 imageVideoPrompt := by
    simp [WellFormed, imageVideoPrompt, imagePrompt, WellFormedFrom, VisionGrid.Valid]
  constructor
  · exact hstable.1 imagePrompt [] _ _ _ _ _ _ _ himage hvideo ⟨rfl, rfl, .inl rfl⟩
      ⟨rfl, rfl, .inl rfl⟩
  · exact hstable.2 imagePrompt [3, 4] _ _ _ _ himage (by decide) ⟨rfl, rfl, .inl rfl⟩
      ⟨rfl, rfl, .inl rfl⟩

end PrismInfer
