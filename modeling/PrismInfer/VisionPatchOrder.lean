import PrismInfer.Lib.ListBlocks
import PrismInfer.SequenceMedia

/-!
# Patch order of the vision encoder

`rot_pos_emb` gives every patch its row and column, `_pos_embed_interpolate` gathers the
position embeddings by a reordering of the row-major grid, `PatchMerger` flattens consecutive
rows, and the attention segments cut the sequence. All of them follow one order: frame by
frame, block by block, row-major inside a block.
-/
namespace PrismInfer
open StateExcept ListBlocks

inductive VisionEncoderError
  | emptyGrid
  | viewSize (axis size : ℕ)
  | coordinateRows (target source : ℕ)
  | indexOutside (index size : ℕ)
  | emptyCat
deriving DecidableEq, Repr

namespace VisionEncoder

variable {α : Type}

/-- The elements of a tensor with four axes, row-major. -/
def flatten (a b c d : ℕ) (f : ℕ → ℕ → ℕ → ℕ → α) : List α :=
  (List.range a).flatMap fun i => (List.range b).flatMap fun j =>
    (List.range c).flatMap fun k => (List.range d).map fun l => f i j k l

section Source

variable (mergeSize : ℕ)

/-- The stacked coordinates of one frame in `rot_pos_emb`. -/
def frameCoords (height width : ℕ) : List (ℕ × ℕ) :=
  let mergedH := height / mergeSize
  let mergedW := width / mergeSize
  let rowIdx := flatten mergedH mergedW mergeSize mergeSize fun blockRow _ intraRow _ =>
    blockRow * mergeSize + intraRow
  let colIdx := flatten mergedH mergedW mergeSize mergeSize fun _ blockCol _ intraCol =>
    blockCol * mergeSize + intraCol
  rowIdx.zip colIdx

/-- The coordinates of one image; `repeat` copies them for every further frame. -/
def imageCoords (grid : VisionGrid) : List (ℕ × ℕ) :=
  let coords := frameCoords mergeSize grid.height grid.width
  if 1 < grid.temporal then (List.replicate grid.temporal coords).flatten else coords

/-- The loop of `rot_pos_emb`: one image after the other into `pos_ids`. -/
def assignCoords : List VisionGrid → ℕ → List (ℕ × ℕ) →
    Except VisionEncoderError (List (ℕ × ℕ))
  | [], _, posIds => pure posIds
  | grid :: grids, offset, posIds => do
    let coords := imageCoords mergeSize grid
    let n := coords.length
    let target := slice posIds offset (offset + n)
    ensure (target.length = n) (.coordinateRows target.length n)
    assignCoords grids (offset + n) (overwrite posIds offset coords)

/-- `rot_pos_emb` up to the lookup in the frequency table; `uninitialized` is what
`torch.empty` holds. -/
def rotPosIds (uninitialized : ℕ → ℕ × ℕ) (grids : List VisionGrid) :
    Except VisionEncoderError (List (ℕ × ℕ)) := do
  ensure (grids ≠ []) .emptyGrid
  let totalTokens := (grids.map VisionGrid.patches).sum
  assignCoords mergeSize grids 0 ((List.range totalTokens).map uninitialized)

/-- `torch.arange(n).view(n // merge_size, merge_size)`. -/
def arangeView (n : ℕ) : Except VisionEncoderError (ℕ → ℕ → ℕ) := do
  ensure (n / mergeSize * mergeSize = n) (.viewSize n mergeSize)
  pure fun i k => (List.range n).getD (i * mergeSize + k) 0

/-- `reorder` of `_pos_embed_interpolate`: the sum over the axes `(H, m, W, m)`, axes 1 and 2
transposed, flattened and repeated for every frame. -/
def reorder (grid : VisionGrid) : Except VisionEncoderError (List ℕ) := do
  let hIdx ← arangeView mergeSize grid.height
  let wIdx ← arangeView mergeSize grid.width
  let sum := fun i k j l => hIdx i k * grid.width + wIdx j l
  let transposed := fun i j k l => sum i k j l
  pure (List.replicate grid.temporal
    (flatten (grid.height / mergeSize) (grid.width / mergeSize) mergeSize mergeSize
      transposed)).flatten

/-- A table over rows and columns, flattened row-major. -/
def cornerFlatten (height width : ℕ) (corner : ℕ → ℕ → α) : List α :=
  (List.range (height * width)).map fun i => corner (i / width) (i % width)

/-- `_pos_embed_interpolate`: `corner grid row col` stands for the four indices and weights
computed for one row and one column. -/
def posEmbedInterpolate (corner : VisionGrid → ℕ → ℕ → α) (grids : List VisionGrid) :
    Except VisionEncoderError (List α) := do
  let parts ← grids.mapM fun grid => do
    let table := cornerFlatten grid.height grid.width (corner grid)
    let order ← reorder mergeSize grid
    order.mapM fun i =>
      match table[i]? with
      | none => .error (.indexOutside i table.length)
      | some entry => .ok entry
  ensure (parts ≠ []) .emptyCat
  pure parts.flatten

/-- The rows `PatchMerger.forward` joins into one: `x.view(-1, dim * merge_size ** 2)`. -/
def mergerGroups (rows : List α) : Except VisionEncoderError (List (List α)) := do
  let area := mergeSize * mergeSize
  ensure (rows.length / area * area = rows.length) (.viewSize rows.length area)
  pure ((List.range (rows.length / area)).map fun i => slice rows (i * area) ((i + 1) * area))

end Source

/-- `torch.repeat_interleave(h * w, t)`. -/
def segmentLengths (grids : List VisionGrid) : List ℕ :=
  grids.flatMap fun grid => List.replicate grid.temporal (grid.height * grid.width)

/-- `segment_ranges`: the running ends, each with the end before it. -/
def segmentRanges (grids : List VisionGrid) : List (ℕ × ℕ) :=
  let segmentEnds := (offsets (segmentLengths grids)).tail
  (0 :: segmentEnds.dropLast).zip segmentEnds

/-! ## The common order -/

/-- The patches of one spatial block. -/
def block (mergeSize blockRow blockCol : ℕ) : List (ℕ × ℕ) :=
  (List.range mergeSize).flatMap fun intraRow => (List.range mergeSize).map fun intraCol =>
    (blockRow * mergeSize + intraRow, blockCol * mergeSize + intraCol)

/-- The blocks of one frame. -/
def frameBlocks (mergeSize : ℕ) (grid : VisionGrid) : List (List (ℕ × ℕ)) :=
  (List.range (grid.height / mergeSize)).flatMap fun blockRow =>
    (List.range (grid.width / mergeSize)).map fun blockCol => block mergeSize blockRow blockCol

/-- The patches of one frame. -/
def frame (mergeSize : ℕ) (grid : VisionGrid) : List (ℕ × ℕ) := (frameBlocks mergeSize grid).flatten

/-- The frames of all images. -/
def frames (mergeSize : ℕ) (grids : List VisionGrid) : List (List (ℕ × ℕ)) :=
  grids.flatMap fun grid => List.replicate grid.temporal (frame mergeSize grid)

/-- A grid of whole blocks, as `_merge_visual_grid` demands of every image. -/
structure WholeBlocks (mergeSize : ℕ) (grid : VisionGrid) : Prop where
  temporal_pos : 0 < grid.temporal
  height_pos : 0 < grid.height
  width_pos : 0 < grid.width
  height_dvd : mergeSize ∣ grid.height
  width_dvd : mergeSize ∣ grid.width

/-! ### One frame -/

theorem flatten_map {β : Type} (a b c d : ℕ) (f : ℕ → ℕ → ℕ → ℕ → α) (g : α → β) :
    (flatten a b c d f).map g = flatten a b c d fun i j k l => g (f i j k l) := by
  simp only [flatten, List.map_flatMap, List.map_map, Function.comp_def]

theorem flatten_congr {a b c d : ℕ} {f g : ℕ → ℕ → ℕ → ℕ → α}
    (h : ∀ i < a, ∀ j < b, ∀ k < c, ∀ l < d, f i j k l = g i j k l) :
    flatten a b c d f = flatten a b c d g := by
  unfold flatten
  refine List.flatMap_congr fun i hi => List.flatMap_congr fun j hj =>
    List.flatMap_congr fun k hk => List.map_congr_left fun l hl => ?_
  exact h i (List.mem_range.mp hi) j (List.mem_range.mp hj) k (List.mem_range.mp hk) l
    (List.mem_range.mp hl)

theorem flatten_zip {β : Type} (a b c d : ℕ) (f : ℕ → ℕ → ℕ → ℕ → α) (g : ℕ → ℕ → ℕ → ℕ → β) :
    (flatten a b c d f).zip (flatten a b c d g) =
      flatten a b c d fun i j k l => (f i j k l, g i j k l) := by
  have hf := flatten_map a b c d (fun i j k l => (i, j, k, l)) fun x => f x.1 x.2.1 x.2.2.1 x.2.2.2
  have hg := flatten_map a b c d (fun i j k l => (i, j, k, l)) fun x => g x.1 x.2.1 x.2.2.1 x.2.2.2
  rw [← hf, ← hg, List.zip_map', flatten_map]

theorem frame_eq (mergeSize : ℕ) (grid : VisionGrid) :
    frame mergeSize grid =
      flatten (grid.height / mergeSize) (grid.width / mergeSize) mergeSize mergeSize
        fun i j k l => (i * mergeSize + k, j * mergeSize + l) := by
  unfold frame frameBlocks flatten block
  rw [List.flatten_eq_flatMap, List.flatMap_assoc]
  simp only [List.flatMap_map, id]

theorem frameCoords_eq (mergeSize : ℕ) (grid : VisionGrid) :
    frameCoords mergeSize grid.height grid.width = frame mergeSize grid := by
  rw [frameCoords, flatten_zip, frame_eq]

theorem length_block (mergeSize blockRow blockCol : ℕ) :
    (block mergeSize blockRow blockCol).length = mergeSize * mergeSize := by
  simp [block, List.length_flatMap]

theorem length_frame {mergeSize : ℕ} {grid : VisionGrid} (h : WholeBlocks mergeSize grid) :
    (frame mergeSize grid).length = grid.height * grid.width := by
  have hrows := Nat.div_mul_cancel h.height_dvd
  have hcols := Nat.div_mul_cancel h.width_dvd
  rw [frame_eq, flatten]
  simp only [List.length_flatMap, List.length_map, List.length_range, List.map_const',
    List.sum_replicate, smul_eq_mul]
  conv_rhs => rw [← hrows, ← hcols]
  ring

theorem mem_frame {mergeSize : ℕ} {grid : VisionGrid} (hm : 0 < mergeSize)
    (h : WholeBlocks mergeSize grid) (row col : ℕ) :
    (row, col) ∈ frame mergeSize grid ↔ row < grid.height ∧ col < grid.width := by
  have hrows := Nat.div_mul_cancel h.height_dvd
  have hcols := Nat.div_mul_cancel h.width_dvd
  rw [frame_eq, flatten]
  simp only [List.mem_flatMap, List.mem_map, List.mem_range, Prod.mk.injEq]
  constructor
  · rintro ⟨i, hi, j, hj, k, hk, l, hl, rfl, rfl⟩
    have hrow : (i + 1) * mergeSize ≤ grid.height := by
      rw [← hrows]
      exact Nat.mul_le_mul_right mergeSize hi
    have hcol : (j + 1) * mergeSize ≤ grid.width := by
      rw [← hcols]
      exact Nat.mul_le_mul_right mergeSize hj
    rw [Nat.succ_mul] at hrow hcol
    omega
  · rintro ⟨hrow, hcol⟩
    refine ⟨row / mergeSize, ?_, col / mergeSize, ?_, row % mergeSize, Nat.mod_lt _ hm,
      col % mergeSize, Nat.mod_lt _ hm, Nat.div_add_mod' row mergeSize,
      Nat.div_add_mod' col mergeSize⟩
    · rwa [Nat.div_lt_iff_lt_mul hm, hrows]
    · rwa [Nat.div_lt_iff_lt_mul hm, hcols]

/-- A frame has as many entries as patches, so none is doubled. -/
theorem frame_nodup {mergeSize : ℕ} {grid : VisionGrid} (hm : 0 < mergeSize)
    (h : WholeBlocks mergeSize grid) : (frame mergeSize grid).Nodup := by
  have hall : (frame mergeSize grid).toFinset =
      Finset.range grid.height ×ˢ Finset.range grid.width := by
    ext ⟨row, col⟩
    rw [List.mem_toFinset, mem_frame hm h, Finset.mem_product, Finset.mem_range, Finset.mem_range]
  have hcard : (frame mergeSize grid).toFinset.card = (frame mergeSize grid).length := by
    rw [hall, Finset.card_product, Finset.card_range, Finset.card_range, length_frame h]
  rw [← Multiset.coe_nodup]
  exact Multiset.toFinset_card_eq_card_iff_nodup.mp hcard

/-! ### Both orders -/

theorem imageCoords_eq {mergeSize : ℕ} {grid : VisionGrid} (h : WholeBlocks mergeSize grid) :
    imageCoords mergeSize grid =
      (List.replicate grid.temporal (frame mergeSize grid)).flatten := by
  unfold imageCoords
  rw [frameCoords_eq]
  simp only
  split
  · rfl
  · next hone =>
    have hone : grid.temporal = 1 := by
      have := h.temporal_pos
      omega
    rw [hone, List.replicate_one, List.flatten_singleton]

theorem length_imageCoords {mergeSize : ℕ} {grid : VisionGrid} (h : WholeBlocks mergeSize grid) :
    (imageCoords mergeSize grid).length = grid.patches := by
  rw [imageCoords_eq h, List.length_flatten, List.map_replicate, List.sum_replicate, smul_eq_mul,
    length_frame h, VisionGrid.patches, Nat.mul_assoc]

theorem frames_flatten {mergeSize : ℕ} {grids : List VisionGrid}
    (h : ∀ grid ∈ grids, WholeBlocks mergeSize grid) :
    (frames mergeSize grids).flatten = grids.flatMap (imageCoords mergeSize) := by
  unfold frames
  rw [List.flatten_eq_flatMap, List.flatMap_assoc]
  refine List.flatMap_congr fun grid hgrid => ?_
  rw [imageCoords_eq (h grid hgrid), List.flatten_eq_flatMap]

/-- Where the buffer has room for the images left, they fill it in order. -/
theorem assignCoords_ok {mergeSize : ℕ} {grids : List VisionGrid}
    (h : ∀ grid ∈ grids, WholeBlocks mergeSize grid) (done rest : List (ℕ × ℕ))
    (hrest : rest.length = (grids.map VisionGrid.patches).sum) :
    assignCoords mergeSize grids done.length (done ++ rest) =
      .ok (done ++ grids.flatMap (imageCoords mergeSize)) := by
  induction grids generalizing done rest with
  | nil =>
    have hnil : rest = [] := List.length_eq_zero_iff.mp hrest
    rw [hnil]
    rfl
  | cons grid grids ih =>
    have hgrid := h grid List.mem_cons_self
    have hlength := length_imageCoords hgrid
    rw [List.map_cons, List.sum_cons] at hrest
    have htarget : (slice (done ++ rest) done.length
        (done.length + (imageCoords mergeSize grid).length)).length =
          (imageCoords mergeSize grid).length := by
      rw [length_slice]
      · omega
      · rw [List.length_append]
        omega
    have hwrite : overwrite (done ++ rest) done.length (imageCoords mergeSize grid) =
        (done ++ imageCoords mergeSize grid) ++ rest.drop (imageCoords mergeSize grid).length := by
      rw [overwrite, List.take_left, List.drop_append, List.drop_of_length_le (by omega),
        List.nil_append]
      congr 2
      omega
    unfold assignCoords
    simp only [ensure, if_pos htarget, bind, Except.bind]
    rw [hwrite, ← List.length_append, ih (fun g hg => h g (List.mem_cons_of_mem _ hg)),
      List.flatMap_cons, List.append_assoc]
    rw [List.length_drop]
    omega

theorem rotPosIds_ok {mergeSize : ℕ} {grids : List VisionGrid} (hne : grids ≠ [])
    (h : ∀ grid ∈ grids, WholeBlocks mergeSize grid) (uninitialized : ℕ → ℕ × ℕ) :
    rotPosIds mergeSize uninitialized grids = .ok (frames mergeSize grids).flatten := by
  unfold rotPosIds
  simp only [ensure, if_pos hne, bind, Except.bind]
  have hrun := assignCoords_ok h [] ((List.range (grids.map VisionGrid.patches).sum).map
    uninitialized) (by rw [List.length_map, List.length_range])
  rw [frames_flatten h]
  exact hrun

theorem arangeView_ok {mergeSize n : ℕ} (h : mergeSize ∣ n) :
    ∃ view, arangeView mergeSize n = .ok view ∧
      ∀ i < n / mergeSize, ∀ k < mergeSize, view i k = i * mergeSize + k := by
  have hexact := Nat.div_mul_cancel h
  refine ⟨fun i k => (List.range n).getD (i * mergeSize + k) 0, ?_, ?_⟩
  · simp only [arangeView, ensure, if_pos hexact, bind, Except.bind, pure, Except.pure]
  · intro i hi k hk
    have hlt : (i + 1) * mergeSize ≤ n / mergeSize * mergeSize := Nat.mul_le_mul_right mergeSize hi
    rw [Nat.succ_mul, hexact] at hlt
    have hin : i * mergeSize + k < n := by omega
    simp only [List.getD_eq_getElem?_getD, List.getElem?_range hin, Option.getD_some]

/-- The reordering visits the patches of the frames by their row-major index. -/
theorem reorder_ok {mergeSize : ℕ} {grid : VisionGrid} (h : WholeBlocks mergeSize grid) :
    reorder mergeSize grid =
      .ok ((imageCoords mergeSize grid).map fun patch => patch.1 * grid.width + patch.2) := by
  obtain ⟨hView, hhView, hhIdx⟩ := arangeView_ok h.height_dvd
  obtain ⟨wView, hwView, hwIdx⟩ := arangeView_ok h.width_dvd
  simp only [reorder, hhView, hwView, bind, Except.bind, pure, Except.pure]
  rw [imageCoords_eq h, frame_eq, List.map_flatten, List.map_replicate, flatten_map]
  congr 3
  apply flatten_congr
  intro i hi j hj k hk l hl
  rw [hhIdx i hi k hk, hwIdx j hj l hl]

theorem cornerFlatten_getElem? {height width row col : ℕ} (hrow : row < height)
    (hcol : col < width) (corner : ℕ → ℕ → α) :
    (cornerFlatten height width corner)[row * width + col]? = some (corner row col) := by
  have hlt : (row + 1) * width ≤ height * width := Nat.mul_le_mul_right width hrow
  rw [Nat.succ_mul] at hlt
  have hdiv : (row * width + col) / width = row := by
    rw [Nat.mul_comm, Nat.mul_add_div (by omega), Nat.div_eq_of_lt hcol, Nat.add_zero]
  have hmod : (row * width + col) % width = col := by
    rw [Nat.mul_comm, Nat.mul_add_mod, Nat.mod_eq_of_lt hcol]
  rw [cornerFlatten, List.getElem?_map, List.getElem?_range (by omega), Option.map_some, hdiv, hmod]

theorem mem_imageCoords {mergeSize : ℕ} {grid : VisionGrid} (hm : 0 < mergeSize)
    (h : WholeBlocks mergeSize grid) {patch : ℕ × ℕ} (hpatch : patch ∈ imageCoords mergeSize grid) :
    patch.1 < grid.height ∧ patch.2 < grid.width := by
  rw [imageCoords_eq h] at hpatch
  obtain ⟨coords, hcoords, hmem⟩ := List.mem_flatten.mp hpatch
  rw [List.eq_of_mem_replicate hcoords] at hmem
  exact (mem_frame hm h patch.1 patch.2).mp hmem

/-- Each position gets the embedding of the row and column it has in the rotary order. -/
theorem posEmbedInterpolate_ok {mergeSize : ℕ} {grids : List VisionGrid} (hm : 0 < mergeSize)
    (hne : grids ≠ []) (h : ∀ grid ∈ grids, WholeBlocks mergeSize grid)
    (corner : VisionGrid → ℕ → ℕ → α) :
    posEmbedInterpolate mergeSize corner grids =
      .ok (grids.flatMap fun grid =>
        (imageCoords mergeSize grid).map fun patch => corner grid patch.1 patch.2) := by
  unfold posEmbedInterpolate
  have hparts : grids.mapM (fun grid => do
      let table := cornerFlatten grid.height grid.width (corner grid)
      let order ← reorder mergeSize grid
      order.mapM fun i =>
        match table[i]? with
        | none => .error (.indexOutside i table.length)
        | some entry => .ok entry) = (.ok (grids.map fun grid =>
          (imageCoords mergeSize grid).map fun patch => corner grid patch.1 patch.2) :
            Except VisionEncoderError (List (List α))) := by
    rw [mapM_ok, List.forall₂_map_right_iff, List.forall₂_same]
    intro grid hgrid
    simp only [reorder_ok (h grid hgrid), bind, Except.bind]
    rw [mapM_ok, List.forall₂_map_right_iff, List.forall₂_map_left_iff, List.forall₂_same]
    intro patch hpatch
    obtain ⟨hrow, hcol⟩ := mem_imageCoords hm (h grid hgrid) hpatch
    simp only [cornerFlatten_getElem? hrow hcol]
  have hcat : (grids.map fun grid => (imageCoords mergeSize grid).map fun patch =>
      corner grid patch.1 patch.2) ≠ [] := by
    rw [Ne, List.map_eq_nil_iff]
    exact hne
  rw [hparts]
  simp only [bind, Except.bind, ensure, if_pos hcat, pure, Except.pure, List.flatten_eq_flatMap,
    List.flatMap_map]
  rfl

/-! ### Groups and segments -/

/-- Rows of a view are the parts of a list that was joined of parts of that length. -/
theorem slices_flatten {parts : List (List α)} {area : ℕ} (h : ∀ part ∈ parts, part.length = area) :
    (List.range parts.length).map (fun i => slice parts.flatten (i * area) ((i + 1) * area)) =
      parts := by
  apply List.ext_getElem
  · rw [List.length_map, List.length_range]
  · intro i hi hi'
    rw [List.getElem_map, List.getElem_range]
    have hlengths : parts.map (fun part => (id part).length) = List.replicate parts.length area :=
      List.eq_replicate_iff.mpr ⟨by rw [List.length_map], by simpa using h⟩
    have hoffset : ∀ n ≤ parts.length,
        offset (parts.map fun part => (id part).length) n = n * area := by
      intro n hn
      rw [hlengths, offset_eq _ (by rw [List.length_replicate]; exact hn), List.take_replicate,
        List.sum_replicate, smul_eq_mul, min_eq_left hn]
    have hslice := slice_flatMap parts id hi'
    rw [hoffset i hi'.le, hoffset (i + 1) hi'] at hslice
    rwa [List.flatMap_id] at hslice

theorem mergerGroups_flatten {mergeSize : ℕ} (hm : 0 < mergeSize) {parts : List (List α)}
    (h : ∀ part ∈ parts, part.length = mergeSize * mergeSize) :
    mergerGroups mergeSize parts.flatten = .ok parts := by
  have harea : 0 < mergeSize * mergeSize := Nat.mul_pos hm hm
  have hlength : parts.flatten.length = parts.length * (mergeSize * mergeSize) := by
    rw [List.length_flatten, List.eq_replicate_iff.mpr ⟨List.length_map .., by simpa using h⟩,
      List.sum_replicate, smul_eq_mul]
  have hcount : parts.flatten.length / (mergeSize * mergeSize) = parts.length := by
    rw [hlength, Nat.mul_div_cancel _ harea]
  unfold mergerGroups
  simp only [hcount, ensure, if_pos hlength.symm, bind, Except.bind, pure, Except.pure,
    slices_flatten h]

theorem segmentLengths_eq {mergeSize : ℕ} {grids : List VisionGrid}
    (h : ∀ grid ∈ grids, WholeBlocks mergeSize grid) :
    segmentLengths grids = (frames mergeSize grids).map List.length := by
  unfold segmentLengths frames
  rw [List.map_flatMap]
  refine List.flatMap_congr fun grid hgrid => ?_
  rw [List.map_replicate, length_frame (h grid hgrid)]

/-- The running ends, each with the end before it, are the partial sums. -/
theorem zip_offsets (lengths : List ℕ) :
    (0 :: (offsets lengths).tail.dropLast).zip (offsets lengths).tail =
      (List.range lengths.length).map fun i => (offset lengths i, offset lengths (i + 1)) := by
  have hoffsets : (offsets lengths).length = lengths.length + 1 := by
    rw [offsets, List.length_scanl]
  have hoffset : ∀ i ≤ lengths.length, (offsets lengths)[i]? = some (offset lengths i) := by
    intro i hi
    rw [offset, List.getD_eq_getElem?_getD, List.getElem?_eq_getElem (by omega), Option.getD_some]
  have hstarts : ∀ i < lengths.length, (0 :: (offsets lengths).tail.dropLast)[i]? =
      some (offset lengths i) := by
    intro i hi
    cases i with
    | zero => rw [List.getElem?_cons_zero, offset_eq _ (Nat.zero_le _)]; rfl
    | succ i =>
      rw [List.getElem?_cons_succ, List.getElem?_dropLast, if_pos (by rw [List.length_tail]; omega),
        List.getElem?_tail, hoffset (i + 1) hi.le]
  apply List.ext_getElem?
  intro i
  rw [List.getElem?_map]
  by_cases hi : i < lengths.length
  · rw [List.getElem?_range hi, Option.map_some]
    exact List.getElem?_zip_eq_some.mpr
      ⟨hstarts i hi, by rw [List.getElem?_tail, hoffset (i + 1) hi]⟩
  · rw [List.getElem?_eq_none (by rw [List.length_zip, List.length_tail]; omega),
      List.getElem?_eq_none (by rw [List.length_range]; omega), Option.map_none]

/-- Segment `i` starts where the first `i` frames end and stops where the next one does. -/
theorem segmentRanges_eq {mergeSize : ℕ} {grids : List VisionGrid}
    (h : ∀ grid ∈ grids, WholeBlocks mergeSize grid) :
    segmentRanges grids = (List.range (frames mergeSize grids).length).map fun i =>
      (((frames mergeSize grids).take i).flatten.length,
        ((frames mergeSize grids).take (i + 1)).flatten.length) := by
  have hends : ∀ i ≤ (frames mergeSize grids).length,
      offset ((frames mergeSize grids).map List.length) i =
        ((frames mergeSize grids).take i).flatten.length := by
    intro i hi
    rw [offset_eq _ (by rwa [List.length_map]), List.length_flatten, List.map_take]
  unfold segmentRanges
  rw [segmentLengths_eq h, zip_offsets, List.length_map]
  refine List.map_congr_left fun i hi => ?_
  have hlt := List.mem_range.mp hi
  rw [hends i hlt.le, hends (i + 1) hlt]

/-- Between the ends of the parts before it and its own end lies the part. -/
theorem slice_take_flatten (parts : List (List α)) {i : ℕ} (h : i < parts.length) :
    slice parts.flatten (parts.take i).flatten.length (parts.take (i + 1)).flatten.length =
      parts[i] := by
  have hslice := slice_flatMap parts id h
  rw [List.flatMap_id, offset_eq _ (by rw [List.length_map]; omega),
    offset_eq _ (by rw [List.length_map]; omega)] at hslice
  rw [List.length_flatten, List.length_flatten, List.map_take, List.map_take]
  exact hslice

/-- Rotary coordinates and position embeddings name the same patch at every position; frames
follow one another in grid order, each with every patch once; the merger joins one spatial
block at a time; the attention segments start and stop at the frame ends. -/
theorem vision_patch_orders_agree (mergeSize : ℕ) (grids : List VisionGrid) (hm : 0 < mergeSize)
    (hne : grids ≠ []) (h : ∀ grid ∈ grids, WholeBlocks mergeSize grid)
    (uninitialized : ℕ → ℕ × ℕ) :
    rotPosIds mergeSize uninitialized grids = .ok (frames mergeSize grids).flatten ∧
      (∀ grid ∈ grids, reorder mergeSize grid =
        .ok ((imageCoords mergeSize grid).map fun patch => patch.1 * grid.width + patch.2)) ∧
      (∀ (α : Type) (corner : VisionGrid → ℕ → ℕ → α),
        posEmbedInterpolate mergeSize corner grids = .ok (grids.flatMap fun grid =>
          (imageCoords mergeSize grid).map fun patch => corner grid patch.1 patch.2)) ∧
      (frames mergeSize grids).flatten = grids.flatMap (imageCoords mergeSize) ∧
      (∀ grid ∈ grids, (frame mergeSize grid).Nodup ∧ ∀ row col,
        (row, col) ∈ frame mergeSize grid ↔ row < grid.height ∧ col < grid.width) ∧
      mergerGroups mergeSize (frames mergeSize grids).flatten = .ok (grids.flatMap fun grid =>
        (List.replicate grid.temporal (frameBlocks mergeSize grid)).flatten) ∧
      segmentRanges grids = (List.range (frames mergeSize grids).length).map (fun i =>
        (((frames mergeSize grids).take i).flatten.length,
          ((frames mergeSize grids).take (i + 1)).flatten.length)) ∧
      (segmentRanges grids).map (fun range => slice (frames mergeSize grids).flatten range.1
        range.2) = frames mergeSize grids := by
  refine ⟨rotPosIds_ok hne h uninitialized, fun grid hgrid => reorder_ok (h grid hgrid),
    fun α corner => posEmbedInterpolate_ok hm hne h corner, frames_flatten h,
    fun grid hgrid => ⟨frame_nodup hm (h grid hgrid), mem_frame hm (h grid hgrid)⟩, ?_,
    segmentRanges_eq h, ?_⟩
  · have hblocks : (frames mergeSize grids).flatten = (grids.flatMap fun grid =>
        (List.replicate grid.temporal (frameBlocks mergeSize grid)).flatten).flatten := by
      unfold frames frame
      rw [List.flatten_eq_flatMap, List.flatten_eq_flatMap, List.flatMap_assoc, List.flatMap_assoc]
      refine List.flatMap_congr fun grid _ => ?_
      rw [← List.flatten_eq_flatMap, ← List.flatten_eq_flatMap, ← List.map_replicate,
        List.flatten_flatten]
    rw [hblocks]
    apply mergerGroups_flatten hm
    intro part hpart
    obtain ⟨grid, -, hgrid⟩ := List.mem_flatMap.mp hpart
    obtain ⟨blocks, hblocks, hmem⟩ := List.mem_flatten.mp hgrid
    rw [List.eq_of_mem_replicate hblocks] at hmem
    obtain ⟨blockRow, -, hrow⟩ := List.mem_flatMap.mp hmem
    obtain ⟨blockCol, -, rfl⟩ := List.mem_map.mp hrow
    exact length_block mergeSize blockRow blockCol
  · rw [segmentRanges_eq h, List.map_map]
    apply List.ext_getElem
    · rw [List.length_map, List.length_range]
    · intro i hi hi'
      rw [List.getElem_map, List.getElem_range]
      exact slice_take_flatten (frames mergeSize grids) hi'

/-- Two frames of four by two patches, merged two by two. -/
theorem vision_patch_orders_agree_two_frames :
    rotPosIds 2 (fun _ => (0, 0)) [⟨2, 4, 2⟩] = .ok (frames 2 [⟨2, 4, 2⟩]).flatten :=
  (vision_patch_orders_agree 2 [⟨2, 4, 2⟩] (by decide) (by decide) (by
    intro grid hgrid
    obtain rfl := List.mem_singleton.mp hgrid
    exact ⟨by decide, by decide, by decide, by decide, by decide⟩) fun _ => (0, 0)).1

end VisionEncoder

end PrismInfer
