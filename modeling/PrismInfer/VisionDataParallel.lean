import PrismInfer.Lib.ListBlocks
import PrismInfer.VisualMicrobatch

/-!
# Data-parallel vision encoding

Whole images are shared out over the ranks, every rank encodes its images, one padded
all-gather exchanges the results, and every rank restores the source order. A tensor is
indexed by component (main, then the deepstack layers) and row.
-/
namespace PrismInfer

open StateExcept ListBlocks

inductive DataParallelError
  | patchCounts (grid payload : ℕ)
  | zeroMergeArea
  | encoderShapes (rank numDeepstackFeatures : ℕ) (expected main : ℕ × ℕ)
      (deepstack : List (ℕ × ℕ))
  | copyShape (target source : ℕ)
deriving DecidableEq, Repr

/-- The variables of `assign_images_by_patch_count`. -/
structure ImageAssignment where
  assigned : List (List ℕ)
  loads : List ℕ

namespace ImageAssignment

/-- `min(range(world_size), key=lambda rank: (loads[rank], rank))`. -/
def owner (s : ImageAssignment) : ℕ := s.loads.findIdx fun load => s.loads.all (load ≤ ·)

def assign (patchCounts : List ℕ) (s : ImageAssignment) (imageId : ℕ) : ImageAssignment where
  assigned := s.assigned.modify s.owner (· ++ [imageId])
  loads := s.loads.modify s.owner (· + patchCounts.getD imageId 0)

def initial (worldSize : ℕ) : ImageAssignment :=
  ⟨List.replicate worldSize [], List.replicate worldSize 0⟩

end ImageAssignment

/-- The sort key `(-patch_counts[i], i)` of `i` is at most that of `j`. -/
def LargerFirst (patchCounts : List ℕ) (i j : ℕ) : Prop :=
  patchCounts.getD j 0 < patchCounts.getD i 0 ∨
    (patchCounts.getD j 0 = patchCounts.getD i 0 ∧ i ≤ j)

instance (patchCounts : List ℕ) : DecidableRel (LargerFirst patchCounts) :=
  fun _ _ => inferInstanceAs (Decidable (_ ∨ (_ ∧ _)))

def assignImagesByPatchCount (patchCounts : List ℕ) (worldSize : ℕ) : List (List ℕ) :=
  (((List.range patchCounts.length).insertionSort (LargerFirst patchCounts)).foldl
    (ImageAssignment.assign patchCounts) (.initial worldSize)).assigned.map
      (List.insertionSort (· ≤ ·))

/-- A tensor of feature rows, all of length `width`. -/
structure Features (D : Type) where
  width : ℕ
  rows : List (List D)
deriving DecidableEq, Repr

def Features.shape {D : Type} (f : Features D) : ℕ × ℕ := (f.rows.length, f.width)

/-- The local encoder: packed patches and their grid to main and deepstack features. -/
abbrev VisualEncoder (P D : Type) := List P → List GridRow → Features D × List (Features D)

structure DataParallelConfig where
  spatialMergeSize : ℕ
  outputSize : ℕ
  numDeepstackFeatures : ℕ

namespace DataParallelConfig

def mergeArea (cfg : DataParallelConfig) : ℕ := cfg.spatialMergeSize ^ 2

def components (cfg : DataParallelConfig) : ℕ := 1 + cfg.numDeepstackFeatures

def mergedCounts (cfg : DataParallelConfig) (patchCounts : List ℕ) : List ℕ :=
  patchCounts.map (· / cfg.mergeArea)

end DataParallelConfig

/-- `target[start:stop].copy_(source)`. A source of another length is an error, also one of
a single row, which the library would broadcast. -/
def copyRows {D : Type} (target : List D) (start stop : ℕ) (source : List D) :
    Except DataParallelError (List D) := do
  let size := (slice target start stop).length
  ensure (size = source.length) (.copyShape size source.length)
  pure (overwrite target start source)

section Encode

variable {P D : Type}

/-- One padded tensor per rank: components, rows, features. -/
abbrev Packed (D : Type) := List (List (List D))

/-- What the helper derives from the shared grid. -/
structure ImagePlan where
  gridRows : List GridRow
  patchCounts : List ℕ
  mergedCounts : List ℕ
  assignments : List (List ℕ)
  rowsByRank : List ℕ

def ImagePlan.create (cfg : DataParallelConfig) (gridRows : List GridRow) (worldSize : ℕ) :
    ImagePlan :=
  let patchCounts := gridRows.map GridRow.patches
  let mergedCounts := cfg.mergedCounts patchCounts
  let assignments := assignImagesByPatchCount patchCounts worldSize
  ⟨gridRows, patchCounts, mergedCounts, assignments,
    assignments.map fun ids => (ids.map fun i => mergedCounts.getD i 0).sum⟩

namespace ImagePlan

def maxRows (plan : ImagePlan) : ℕ := plan.rowsByRank.foldl max 0

/-- `pixel_values[patch_offsets[index]:patch_offsets[index + 1]]`. -/
def pixelPart (plan : ImagePlan) (pixelValues : List P) (index : ℕ) : List P :=
  slice pixelValues (offset plan.patchCounts index) (offset plan.patchCounts (index + 1))

def zeros (plan : ImagePlan) (cfg : DataParallelConfig) (zero : D) : Packed D :=
  List.replicate cfg.components
    (List.replicate plan.maxRows (List.replicate cfg.outputSize zero))

/-- The tensor one rank contributes to the collective: its images in its own order, padded
with zeros. A rank without images skips the encoder. -/
def packLocal (plan : ImagePlan) (cfg : DataParallelConfig) (zero : D) (pixelValues : List P)
    (encodeLocal : VisualEncoder P D) (rank : ℕ) : Except DataParallelError (Packed D) := do
  let packed := plan.zeros cfg zero
  let imageIds := plan.assignments.getD rank []
  if imageIds = [] then pure packed
  else do
    let localPixels := imageIds.flatMap (plan.pixelPart pixelValues)
    let localGrid := imageIds.map fun index => plan.gridRows.getD index ⟨0, 0, 0⟩
    let (main, deepstack) := encodeLocal localPixels localGrid
    let rows := plan.rowsByRank.getD rank 0
    let expected := (rows, cfg.outputSize)
    ensure (deepstack.length = cfg.numDeepstackFeatures ∧
        ∀ value ∈ main :: deepstack, value.shape = expected)
      (.encoderShapes rank cfg.numDeepstackFeatures expected main.shape
        (deepstack.map Features.shape))
    (packed.zip (main :: deepstack)).mapM fun (buffer, value) => copyRows buffer 0 rows value.rows

/-- `outputs[:, a:b].copy_(gathered[owner, :, source_row:source_row + row_count])`. -/
def restoreImage (plan : ImagePlan) (shard : Packed D) (s : Packed D × ℕ) (imageId : ℕ) :
    Except DataParallelError (Packed D × ℕ) := do
  let rowCount := plan.mergedCounts.getD imageId 0
  let outputs ← (s.1.zip shard).mapM fun (output, source) =>
    copyRows output (offset plan.mergedCounts imageId) (offset plan.mergedCounts (imageId + 1))
      (slice source s.2 (s.2 + rowCount))
  pure (outputs, s.2 + rowCount)

def restoreOwner (plan : ImagePlan) (outputs : Packed D) (shard : Packed D × List ℕ) :
    Except DataParallelError (Packed D) := do
  let restored ← shard.2.foldlM (plan.restoreImage shard.1) (outputs, 0)
  pure restored.1

/-- The rows of all images in source order. `uninitialized` is what `torch.empty` holds. -/
def restore (plan : ImagePlan) (cfg : DataParallelConfig) (uninitialized : ℕ → ℕ → List D)
    (gathered : List (Packed D)) : Except DataParallelError (Packed D) :=
  (gathered.zip plan.assignments).foldlM plan.restoreOwner
    ((List.range cfg.components).map fun component =>
      (List.range plan.mergedCounts.sum).map (uninitialized component))

end ImagePlan

/-- The call on `rank`. The collective completes when every rank has contributed its tensor;
`allGather shards rank` is what it leaves on `rank`. -/
def encodeImagesDataParallel (cfg : DataParallelConfig) (zero : D)
    (uninitialized : ℕ → ℕ → List D) (worldSize : ℕ)
    (allGather : List (Packed D) → ℕ → List (Packed D)) (pixelValues : List P)
    (gridThw : List GridRow) (encodeLocal : VisualEncoder P D) (rank : ℕ) :
    Except DataParallelError (Features D × List (Features D)) := do
  let patches := patchCount gridThw
  ensure (patches = pixelValues.length) (.patchCounts patches pixelValues.length)
  ensure (gridThw = [] ∨ 0 < cfg.mergeArea) .zeroMergeArea
  let plan := ImagePlan.create cfg gridThw worldSize
  let shards ← (List.range worldSize).mapM (plan.packLocal cfg zero pixelValues encodeLocal)
  let outputs ← plan.restore cfg uninitialized (allGather shards rank)
  pure (⟨cfg.outputSize, outputs.headD []⟩,
    outputs.tail.map fun rows => ⟨cfg.outputSize, rows⟩)

end Encode

/-! ### Every image has one owner -/

theorem flatten_modify_append (lists : List (List ℕ)) {k : ℕ} (h : k < lists.length) (i : ℕ) :
    (lists.modify k (· ++ [i])).flatten.Perm (i :: lists.flatten) := by
  induction lists generalizing k with
  | nil => simp at h
  | cons first rest ih =>
    cases k with
    | zero =>
      simp only [List.modify_zero_cons, List.flatten_cons, List.append_assoc,
        List.singleton_append]
      exact List.perm_middle
    | succ k =>
      simp only [List.modify_succ_cons, List.flatten_cons]
      exact ((ih (by simpa using h)).append_left first).trans List.perm_middle

namespace ImageAssignment

/-- Some rank carries the least load. -/
theorem owner_lt {s : ImageAssignment} (h : s.loads ≠ []) : s.owner < s.loads.length := by
  obtain ⟨load, hmem, hleast⟩ := Finset.exists_min_image s.loads.toFinset id
    (by simpa [List.toFinset_nonempty_iff] using h)
  refine List.findIdx_lt_length_of_exists ⟨load, List.mem_toFinset.mp hmem, ?_⟩
  simp only [List.all_eq_true, decide_eq_true_eq]
  exact fun other ho => hleast other (List.mem_toFinset.mpr ho)

/-- Assigning images keeps the ranks and adds every image to one of them. -/
theorem foldl_assign (patchCounts ids : List ℕ) {s : ImageAssignment} (h : s.loads ≠ [])
    (hlen : s.assigned.length = s.loads.length) :
    (ids.foldl (assign patchCounts) s).assigned.length = s.assigned.length ∧
      (ids.foldl (assign patchCounts) s).assigned.flatten.Perm (ids ++ s.assigned.flatten) := by
  induction ids generalizing s with
  | nil => exact ⟨rfl, List.Perm.refl _⟩
  | cons i ids ih =>
    have hloads : (assign patchCounts s i).loads.length = s.loads.length := by simp [assign]
    have hassigned : (assign patchCounts s i).assigned.length = s.assigned.length := by
      simp [assign]
    have hne : (assign patchCounts s i).loads ≠ [] := by
      rw [← List.length_pos_iff_ne_nil, hloads, List.length_pos_iff_ne_nil]
      exact h
    obtain ⟨hlen', hperm⟩ := ih hne (by rw [hassigned, hloads, hlen])
    refine ⟨hlen'.trans hassigned, hperm.trans ?_⟩
    have hone : (assign patchCounts s i).assigned.flatten.Perm (i :: s.assigned.flatten) :=
      flatten_modify_append s.assigned (hlen ▸ owner_lt h) i
    exact (hone.append_left ids).trans List.perm_middle

end ImageAssignment

theorem flatten_map_sort (lists : List (List ℕ)) :
    (lists.map (List.insertionSort (· ≤ ·))).flatten.Perm lists.flatten := by
  induction lists with
  | nil => exact List.Perm.refl _
  | cons first rest ih =>
    simp only [List.map_cons, List.flatten_cons]
    exact (List.perm_insertionSort _ first).append ih

theorem assignImages_length (patchCounts : List ℕ) {worldSize : ℕ} (h : 0 < worldSize) :
    (assignImagesByPatchCount patchCounts worldSize).length = worldSize := by
  have hne : (ImageAssignment.initial worldSize).loads ≠ [] := by
    simp [ImageAssignment.initial, Nat.pos_iff_ne_zero.mp h]
  rw [assignImagesByPatchCount, List.length_map,
    (ImageAssignment.foldl_assign _ _ hne (by simp [ImageAssignment.initial])).1]
  simp [ImageAssignment.initial]

/-- The ranks partition the images. -/
theorem assignImages_perm (patchCounts : List ℕ) {worldSize : ℕ} (h : 0 < worldSize) :
    (assignImagesByPatchCount patchCounts worldSize).flatten.Perm
      (List.range patchCounts.length) := by
  have hne : (ImageAssignment.initial worldSize).loads ≠ [] := by
    simp [ImageAssignment.initial, Nat.pos_iff_ne_zero.mp h]
  have hnil : (ImageAssignment.initial worldSize).assigned.flatten = [] := by
    simp [ImageAssignment.initial]
  have hperm := (ImageAssignment.foldl_assign patchCounts
    ((List.range patchCounts.length).insertionSort (LargerFirst patchCounts)) hne
    (by simp [ImageAssignment.initial])).2
  rw [hnil, List.append_nil] at hperm
  exact (flatten_map_sort _).trans (hperm.trans (List.perm_insertionSort _ _))

/-! ### Sequential encoding -/

/-- One image: its grid row and its patches. -/
structure VisionImage (P : Type) where
  grid : GridRow
  patches : List P
  sized : patches.length = grid.patches

instance {P : Type} : Inhabited (VisionImage P) := ⟨⟨⟨0, 0, 0⟩, [], rfl⟩⟩

/-- An encoder of single images: component 0 is the main output, component `k + 1` is
deepstack layer `k`. -/
structure ImageEncoder (P D : Type) (cfg : DataParallelConfig) where
  encode : ℕ → VisionImage P → List (List D)
  length_encode : ∀ component image,
    (encode component image).length = image.grid.patches / cfg.mergeArea

section Sequential

variable {P D : Type} {cfg : DataParallelConfig} (encoder : ImageEncoder P D cfg)

/-- The features of all images, one after the other. -/
def ImageEncoder.sequential (images : List (VisionImage P)) : Features D × List (Features D) :=
  (⟨cfg.outputSize, images.flatMap (encoder.encode 0)⟩,
    (List.range cfg.numDeepstackFeatures).map fun layer =>
      ⟨cfg.outputSize, images.flatMap (encoder.encode (layer + 1))⟩)

/-- `encodeLocal` encodes a packed batch image by image. -/
def ImageEncoder.Implements (encodeLocal : VisualEncoder P D) : Prop :=
  ∀ images : List (VisionImage P), images ≠ [] →
    encodeLocal (images.flatMap VisionImage.patches) (images.map VisionImage.grid) =
      encoder.sequential images

/-- The features of image `i` in source order. -/
def ImageEncoder.block (images : List (VisionImage P)) (component i : ℕ) : List (List D) :=
  encoder.encode component (images.getD i default)

end Sequential

section Restore

variable {P D : Type} {cfg : DataParallelConfig}

theorem map_getD_range {α : Type*} (xs : List α) (d : α) :
    (List.range xs.length).map (fun i => xs.getD i d) = xs := by
  refine List.ext_getElem (by simp) fun i h _ => ?_
  have hi : i < xs.length := by simpa using h
  simp [List.getD_eq_getElem?_getD, List.getElem?_eq_getElem hi]

theorem copyRows_ok {target source : List (List D)} {start stop : ℕ}
    (hstop : stop ≤ target.length) (hsize : stop - start = source.length) :
    copyRows target start stop source = .ok (overwrite target start source) := by
  simp only [copyRows, except_bind_ok, ensure_ok, except_pure_ok]
  exact ⟨(), (length_slice hstop).trans hsize, trivial⟩

/-- A map over the components succeeds where every component does. -/
theorem mapM_components {α β : Type} {n : ℕ} {f : ℕ → α}
    {g : α → Except DataParallelError β} {r : ℕ → β}
    (h : ∀ component < n, g (f component) = .ok (r component)) :
    ((List.range n).map f).mapM g = .ok ((List.range n).map r) := by
  rw [mapM_ok, List.forall₂_map_left_iff, List.forall₂_map_right_iff, List.forall₂_same]
  exact fun component hc => h component (List.mem_range.mp hc)

section Images

variable (encoder : ImageEncoder P D cfg) (images : List (VisionImage P)) (worldSize : ℕ)

/-- The plan of a list of images. -/
def planOf (cfg : DataParallelConfig) (images : List (VisionImage P)) (worldSize : ℕ) :
    ImagePlan :=
  .create cfg (images.map VisionImage.grid) worldSize

@[simp] theorem planOf_patchCounts : (planOf cfg images worldSize).patchCounts =
    images.map fun image => image.patches.length := by
  simp [planOf, ImagePlan.create, Function.comp_def, VisionImage.sized]

theorem planOf_mergedCounts (component : ℕ) : (planOf cfg images worldSize).mergedCounts =
    images.map fun image => (encoder.encode component image).length := by
  simp [planOf, ImagePlan.create, DataParallelConfig.mergedCounts, Function.comp_def,
    encoder.length_encode]

theorem mergedCount_eq (component : ℕ) {i : ℕ} (h : i < images.length) :
    (planOf cfg images worldSize).mergedCounts.getD i 0 =
      (encoder.block images component i).length := by
  rw [planOf_mergedCounts encoder images worldSize component]
  simp [ImageEncoder.block, List.getD_eq_getElem?_getD, List.getElem?_eq_getElem h]

theorem mergedOffset_succ (component : ℕ) {i : ℕ} (h : i < images.length) :
    offset (planOf cfg images worldSize).mergedCounts (i + 1) =
      offset (planOf cfg images worldSize).mergedCounts i +
        (encoder.block images component i).length := by
  have hi : i < (planOf cfg images worldSize).mergedCounts.length := by
    rw [planOf_mergedCounts encoder images worldSize component, List.length_map]
    exact h
  rw [← mergedCount_eq encoder images worldSize component h, offset_succ _ hi,
    List.getD_eq_getElem?_getD, List.getElem?_eq_getElem hi, Option.getD_some]

theorem pixelPart_eq {i : ℕ} (h : i < images.length) :
    (planOf cfg images worldSize).pixelPart (images.flatMap VisionImage.patches) i =
      (images.getD i default).patches := by
  rw [ImagePlan.pixelPart, planOf_patchCounts, slice_flatMap images VisionImage.patches h]
  simp [List.getD_eq_getElem?_getD, List.getElem?_eq_getElem h]

/-- Writing the features of image `i` to its place in source order. -/
def writeImage (component : ℕ) (rows : List (List D)) (i : ℕ) : List (List D) :=
  overwrite rows (offset (planOf cfg images worldSize).mergedCounts i)
    (encoder.block images component i)

/-- The rows between the offsets of image `i`. -/
def rowsOf (cfg : DataParallelConfig) (rows : List (List D)) (i : ℕ) : List (List D) :=
  slice rows (offset (planOf cfg images worldSize).mergedCounts i)
    (offset (planOf cfg images worldSize).mergedCounts (i + 1))

theorem mergedOffset_le (component : ℕ) {i : ℕ} (h : i < images.length) :
    offset (planOf cfg images worldSize).mergedCounts i +
      (encoder.block images component i).length ≤
        (planOf cfg images worldSize).mergedCounts.sum := by
  rw [← mergedOffset_succ encoder images worldSize component h]
  refine offset_le_sum _ ?_
  rw [planOf_mergedCounts encoder images worldSize component, List.length_map]
  exact h

theorem mergedOffset_mono {i j : ℕ} (hij : i ≤ j) (h : j ≤ images.length) :
    offset (planOf cfg images worldSize).mergedCounts i ≤
      offset (planOf cfg images worldSize).mergedCounts j :=
  offset_mono _ hij (by simpa [planOf, ImagePlan.create, DataParallelConfig.mergedCounts] using h)

/-- Writing images leaves the size alone; the images written, and those that were in their
places before, are in their places after it. -/
theorem foldl_writeImage (component : ℕ) {ids : List ℕ} (hids : ∀ i ∈ ids, i < images.length)
    {rows : List (List D)}
    (hrows : rows.length = (planOf cfg images worldSize).mergedCounts.sum) :
    (ids.foldl (writeImage encoder images worldSize component) rows).length = rows.length ∧
      ∀ i < images.length,
        (i ∈ ids ∨ rowsOf images worldSize cfg rows i = encoder.block images component i) →
        rowsOf images worldSize cfg (ids.foldl (writeImage encoder images worldSize component) rows)
          i = encoder.block images component i := by
  induction ids generalizing rows with
  | nil => exact ⟨rfl, fun i _ h => by simpa using h⟩
  | cons j ids ih =>
    have hj := hids j List.mem_cons_self
    have hfit := hrows ▸ mergedOffset_le encoder images worldSize component hj
    have hlen : (writeImage encoder images worldSize component rows j).length = rows.length :=
      length_overwrite hfit
    obtain ⟨hlen', hplaces⟩ := ih (fun i hi => hids i (List.mem_cons_of_mem j hi))
      (hlen.trans hrows)
    refine ⟨hlen'.trans hlen, fun i hi hplace => hplaces i hi ?_⟩
    by_cases hmem : i ∈ ids
    · exact .inl hmem
    · refine .inr ?_
      by_cases hij : i = j
      · subst hij
        rw [rowsOf, mergedOffset_succ encoder images worldSize component hi]
        exact slice_overwrite_self hfit
      · have hold : rowsOf images worldSize cfg rows i = encoder.block images component i :=
          hplace.resolve_left (by simp [hij, hmem])
        rw [← hold]
        refine slice_overwrite_of_disjoint hfit ?_
        rw [← mergedOffset_succ encoder images worldSize component hj]
        rcases Nat.lt_or_gt_of_ne hij with hlt | hgt
        · exact .inl (mergedOffset_mono images worldSize hlt (by omega))
        · exact .inr (mergedOffset_mono images worldSize hgt (by omega))

/-- Once every image is in its place, the rows are the sequential encoding. -/
theorem eq_flatMap_of_places (component : ℕ) {rows : List (List D)}
    (hrows : rows.length = (planOf cfg images worldSize).mergedCounts.sum)
    (h : ∀ i < images.length,
      rowsOf images worldSize cfg rows i = encoder.block images component i) :
    rows = images.flatMap (encoder.encode component) := by
  have hn : (planOf cfg images worldSize).mergedCounts.length = images.length := by
    rw [planOf_mergedCounts encoder images worldSize component, List.length_map]
  calc rows = (List.range images.length).flatMap (rowsOf images worldSize cfg rows) := by
        rw [← hn]
        exact (flatMap_slices hrows).symm
    _ = (List.range images.length).flatMap (encoder.block images component) := by
        refine List.flatMap_congr fun i hi => ?_
        exact h i (List.mem_range.mp hi)
    _ = images.flatMap (encoder.encode component) := by
        conv_rhs => rw [← map_getD_range images default, List.flatMap_map]
        rfl

/-- The tensor of one rank: its images in its own order, padded. -/
def shardOf (pad : List (List D)) (ids : List ℕ) : Packed D :=
  (List.range cfg.components).map fun component =>
    ids.flatMap (encoder.block images component) ++ pad

theorem length_flatMap_block (component : ℕ) {ids : List ℕ} (hids : ∀ i ∈ ids, i < images.length) :
    (ids.flatMap (encoder.block images component)).length =
      (ids.map fun i => (planOf cfg images worldSize).mergedCounts.getD i 0).sum := by
  rw [List.length_flatMap]
  congr 1
  refine List.map_congr_left fun i hi => ?_
  exact (mergedCount_eq encoder images worldSize component (hids i hi)).symm

theorem le_foldl_max (counts : List ℕ) (n : ℕ) :
    n ≤ counts.foldl max n ∧ ∀ x ∈ counts, x ≤ counts.foldl max n := by
  induction counts generalizing n with
  | nil => simp
  | cons c counts ih =>
    obtain ⟨hn, hall⟩ := ih (max n c)
    refine ⟨(Nat.le_max_left n c).trans hn, fun x hx => ?_⟩
    rcases List.mem_cons.mp hx with rfl | hx
    · exact (Nat.le_max_right n x).trans hn
    · exact hall x hx

theorem planOf_rows (rank : ℕ) : (planOf cfg images worldSize).rowsByRank.getD rank 0 =
    (((planOf cfg images worldSize).assignments.getD rank []).map fun i =>
      (planOf cfg images worldSize).mergedCounts.getD i 0).sum := by
  simp only [planOf, ImagePlan.create, List.getD_eq_getElem?_getD, List.getElem?_map]
  cases (assignImagesByPatchCount _ worldSize)[rank]? <;> rfl

theorem planOf_rows_le (rank : ℕ) : (planOf cfg images worldSize).rowsByRank.getD rank 0 ≤
    (planOf cfg images worldSize).maxRows := by
  rw [List.getD_eq_getElem?_getD]
  by_cases h : rank < (planOf cfg images worldSize).rowsByRank.length
  · rw [List.getElem?_eq_getElem h]
    exact (le_foldl_max _ 0).2 _ (List.getElem_mem h)
  · rw [List.getElem?_eq_none (by omega)]
    exact Nat.zero_le _

/-- The components of one encoder call on the images `ids`. -/
def valuesOf (ids : List ℕ) : List (Features D) :=
  (List.range cfg.components).map fun component =>
    ⟨cfg.outputSize, ids.flatMap (encoder.block images component)⟩

/-- The encoder call of a rank gives the features of its images. -/
theorem encodeLocal_ids {encodeLocal : VisualEncoder P D}
    (hlocal : encoder.Implements encodeLocal) {ids : List ℕ} (hne : ids ≠ [])
    (hids : ∀ i ∈ ids, i < images.length) :
    ∃ main deepstack, encodeLocal
        (ids.flatMap ((planOf cfg images worldSize).pixelPart (images.flatMap VisionImage.patches)))
        (ids.map fun i => (planOf cfg images worldSize).gridRows.getD i ⟨0, 0, 0⟩) =
          (main, deepstack) ∧
      main :: deepstack = valuesOf encoder images ids ∧
      deepstack.length = cfg.numDeepstackFeatures := by
  have hpixels : ids.flatMap
      ((planOf cfg images worldSize).pixelPart (images.flatMap VisionImage.patches)) =
        (ids.map fun i => images.getD i default).flatMap VisionImage.patches := by
    rw [List.flatMap_map]
    exact List.flatMap_congr fun i hi => pixelPart_eq images worldSize (hids i hi)
  have hgrid : (ids.map fun i => (planOf cfg images worldSize).gridRows.getD i ⟨0, 0, 0⟩) =
      (ids.map fun i => images.getD i default).map VisionImage.grid := by
    rw [List.map_map]
    refine List.map_congr_left fun i hi => ?_
    simp [planOf, ImagePlan.create, List.getD_eq_getElem?_getD,
      List.getElem?_eq_getElem (hids i hi)]
  have hblock : ∀ component, (ids.map fun i => images.getD i default).flatMap
      (encoder.encode component) = ids.flatMap (encoder.block images component) := by
    intro component
    rw [List.flatMap_map]
    rfl
  refine ⟨(encoder.sequential (ids.map fun i => images.getD i default)).1,
    (encoder.sequential (ids.map fun i => images.getD i default)).2, ?_, ?_, ?_⟩
  · rw [hpixels, hgrid]
    exact hlocal (ids.map fun i => images.getD i default) (by simpa using hne)
  · rw [valuesOf, DataParallelConfig.components, Nat.add_comm, List.range_succ_eq_map]
    simp only [ImageEncoder.sequential, hblock, List.map_cons, List.map_map, Function.comp_def,
      Nat.succ_eq_add_one]
  · simp [ImageEncoder.sequential]

/-- What every rank contributes to the collective. -/
theorem packLocal_ok (zero : D) {encodeLocal : VisualEncoder P D}
    (hlocal : encoder.Implements encodeLocal) (rank : ℕ)
    (hids : ∀ i ∈ (planOf cfg images worldSize).assignments.getD rank [], i < images.length) :
    ∃ pad, (planOf cfg images worldSize).packLocal cfg zero
        (images.flatMap VisionImage.patches) encodeLocal rank =
      .ok (shardOf encoder images pad
        ((planOf cfg images worldSize).assignments.getD rank [])) := by
  set plan := planOf cfg images worldSize with hplan
  set ids := plan.assignments.getD rank [] with hidsdef
  have hrows : plan.rowsByRank.getD rank 0 = (ids.map fun i => plan.mergedCounts.getD i 0).sum :=
    planOf_rows images worldSize rank
  have hlen : ∀ component, (ids.flatMap (encoder.block images component)).length =
      plan.rowsByRank.getD rank 0 := by
    intro component
    rw [hrows]
    exact length_flatMap_block encoder images worldSize component hids
  refine ⟨List.replicate (plan.maxRows - plan.rowsByRank.getD rank 0)
    (List.replicate cfg.outputSize zero), ?_⟩
  simp only [ImagePlan.packLocal, ← hidsdef]
  by_cases hnil : ids = []
  · -- a rank without images contributes the padding alone
    rw [if_pos hnil, except_pure_ok, hrows, hnil]
    simp [shardOf, ImagePlan.zeros]
  · rw [if_neg hnil]
    obtain ⟨main, deepstack, hcall, hvalues, hdeep⟩ :=
      encodeLocal_ids encoder images worldSize hlocal hnil hids
    have hzeros : plan.zeros cfg zero = (List.range cfg.components).map fun _ =>
        List.replicate plan.maxRows (List.replicate cfg.outputSize zero) := by
      simp [ImagePlan.zeros]
    rw [hcall]
    simp only [except_bind_ok, ensure_ok]
    refine ⟨(), ⟨hdeep, fun value hv => ?_⟩, ?_⟩
    · rw [hvalues, valuesOf] at hv
      obtain ⟨component, -, rfl⟩ := List.mem_map.mp hv
      exact Prod.ext (hlen component) rfl
    · rw [hvalues, valuesOf, hzeros, List.zip_map']
      refine mapM_components fun component _ => ?_
      rw [copyRows_ok (by simpa using planOf_rows_le images worldSize rank) (by simp [hlen])]
      congr 1
      simp [overwrite, hlen]

/-- The images of one owner go to their places, whatever its tensor is padded with. -/
theorem restoreImages_ok (pad : List (List D)) {done rest : List ℕ}
    (hids : ∀ i ∈ done ++ rest, i < images.length) {out : ℕ → List (List D)}
    (hout : ∀ component,
      (out component).length = (planOf cfg images worldSize).mergedCounts.sum) :
    ∃ row, rest.foldlM
        ((planOf cfg images worldSize).restoreImage (shardOf encoder images pad (done ++ rest)))
        ((List.range cfg.components).map out,
          (done.map fun i => (planOf cfg images worldSize).mergedCounts.getD i 0).sum) =
      .ok ((List.range cfg.components).map fun component =>
        rest.foldl (writeImage encoder images worldSize component) (out component), row) := by
  induction rest generalizing done out with
  | nil => exact ⟨_, rfl⟩
  | cons i rest ih =>
    have hi : i < images.length := hids i (by simp)
    have hdone : ∀ j ∈ done, j < images.length := fun j hj => hids j (by simp [hj])
    have hsource : ∀ component, slice
        ((done ++ i :: rest).flatMap (encoder.block images component) ++ pad)
        (done.map fun i => (planOf cfg images worldSize).mergedCounts.getD i 0).sum
        ((done.map fun i => (planOf cfg images worldSize).mergedCounts.getD i 0).sum +
          (planOf cfg images worldSize).mergedCounts.getD i 0) =
        encoder.block images component i := by
      intro component
      rw [← length_flatMap_block encoder images worldSize component hdone,
        mergedCount_eq encoder images worldSize component hi, List.flatMap_append,
        List.flatMap_cons, List.append_assoc, List.append_assoc, ← List.append_assoc]
      exact slice_append
    have hwrite : ∀ component, (writeImage encoder images worldSize component
        (out component) i).length = (planOf cfg images worldSize).mergedCounts.sum := by
      intro component
      rw [writeImage, length_overwrite
        (hout component ▸ mergedOffset_le encoder images worldSize component hi), hout]
    have hstep : (planOf cfg images worldSize).restoreImage
        (shardOf encoder images pad (done ++ i :: rest))
        ((List.range cfg.components).map out,
          (done.map fun i => (planOf cfg images worldSize).mergedCounts.getD i 0).sum) i =
      .ok ((List.range cfg.components).map fun component =>
          writeImage encoder images worldSize component (out component) i,
        ((done ++ [i]).map fun i => (planOf cfg images worldSize).mergedCounts.getD i 0).sum) := by
      simp only [ImagePlan.restoreImage, except_bind_ok, except_pure_ok]
      refine ⟨(List.range cfg.components).map fun component =>
        writeImage encoder images worldSize component (out component) i, ?_, by simp⟩
      rw [shardOf, List.zip_map']
      refine mapM_components fun component _ => ?_
      have hsucc := mergedOffset_succ encoder images worldSize component hi
      have hle := mergedOffset_le encoder images worldSize component hi
      rw [hsource component, copyRows_ok (by rw [hout, hsucc]; exact hle) (by omega)]
      rfl
    have hids' : ∀ j ∈ (done ++ [i]) ++ rest, j < images.length :=
      fun j hj => hids j (by simpa using hj)
    obtain ⟨row, hrest⟩ := ih hids' hwrite
    refine ⟨row, ?_⟩
    rw [List.append_assoc, List.singleton_append] at hrest
    rw [List.foldlM_cons, hstep]
    exact hrest

/-- Restoring owner after owner writes the images of every owner. -/
theorem restoreOwners_ok {owned : List (List ℕ)} (pads : List (List (List D)))
    (hpads : pads.length = owned.length) (hids : ∀ i ∈ owned.flatten, i < images.length)
    {out : ℕ → List (List D)}
    (hout : ∀ component,
      (out component).length = (planOf cfg images worldSize).mergedCounts.sum) :
    ((List.zipWith (shardOf encoder images) pads owned).zip owned).foldlM
        (planOf cfg images worldSize).restoreOwner ((List.range cfg.components).map out) =
      .ok ((List.range cfg.components).map fun component =>
        owned.flatten.foldl (writeImage encoder images worldSize component) (out component)) := by
  induction owned generalizing pads out with
  | nil => simp [pure, Except.pure]
  | cons ids owned ih =>
    obtain _ | ⟨pad, pads⟩ := pads
    · simp at hpads
    have hmem : ∀ i ∈ [] ++ ids, i < images.length := fun i hi => hids i (by
      rw [List.flatten_cons, List.mem_append]
      exact .inl hi)
    obtain ⟨row, hfirst⟩ := restoreImages_ok encoder images worldSize pad hmem hout
    have hnext : ∀ component, (ids.foldl (writeImage encoder images worldSize component)
        (out component)).length = (planOf cfg images worldSize).mergedCounts.sum := fun component =>
      ((foldl_writeImage encoder images worldSize component hmem (hout component)).1).trans
        (hout component)
    have hrest := ih pads (by simpa using hpads)
      (fun i hi => hids i (by
        rw [List.flatten_cons, List.mem_append]
        exact .inr hi)) hnext
    have hone : (planOf cfg images worldSize).restoreOwner ((List.range cfg.components).map out)
        (shardOf encoder images pad ids, ids) =
      .ok ((List.range cfg.components).map fun component =>
        ids.foldl (writeImage encoder images worldSize component) (out component)) := by
      simp only [ImagePlan.restoreOwner, except_bind_ok, except_pure_ok]
      exact ⟨_, hfirst, rfl⟩
    rw [List.zipWith_cons_cons, List.zip_cons_cons, List.foldlM_cons, hone]
    simp only [List.flatten_cons, List.foldl_append]
    exact hrest

/-- Every owned image is one of the images, and every image is owned. -/
theorem mem_assignments (cfg : DataParallelConfig) (h : 0 < worldSize) (i : ℕ) :
    i ∈ (planOf cfg images worldSize).assignments.flatten ↔ i < images.length := by
  have hperm := assignImages_perm (planOf cfg images worldSize).patchCounts h
  rw [planOf_patchCounts, List.length_map] at hperm
  have hplan : (planOf cfg images worldSize).assignments =
      assignImagesByPatchCount (images.map fun image => image.patches.length) worldSize := by
    rw [← @planOf_patchCounts P cfg images worldSize]
    rfl
  rw [hplan, hperm.mem_iff, List.mem_range]

/-- Every rank contributes its images with some padding. -/
theorem packAll_ok (h : 0 < worldSize) (zero : D) {encodeLocal : VisualEncoder P D}
    (hlocal : encoder.Implements encodeLocal) :
    ∃ pads : List (List (List D)),
      pads.length = (planOf cfg images worldSize).assignments.length ∧
      (List.range worldSize).mapM ((planOf cfg images worldSize).packLocal cfg zero
        (images.flatMap VisionImage.patches) encodeLocal) =
      .ok (List.zipWith (shardOf encoder images) pads
        (planOf cfg images worldSize).assignments) := by
  have hlen : (planOf cfg images worldSize).assignments.length = worldSize :=
    assignImages_length _ h
  have hpack : ∀ r, ∃ pad, (planOf cfg images worldSize).packLocal cfg zero
      (images.flatMap VisionImage.patches) encodeLocal r =
        .ok (shardOf encoder images pad
          ((planOf cfg images worldSize).assignments.getD r [])) := by
    intro r
    refine packLocal_ok encoder images worldSize zero hlocal r fun i hi =>
      (mem_assignments images worldSize cfg h i).mp ?_
    rw [List.getD_eq_getElem?_getD] at hi
    by_cases hr : r < (planOf cfg images worldSize).assignments.length
    · rw [List.getElem?_eq_getElem hr] at hi
      exact List.mem_flatten.mpr ⟨_, List.getElem_mem hr, hi⟩
    · rw [List.getElem?_eq_none (by omega)] at hi
      exact absurd hi (by simp)
  choose pad hpad using hpack
  refine ⟨(List.range worldSize).map pad, by simp [hlen], ?_⟩
  have hassign : (planOf cfg images worldSize).assignments = (List.range worldSize).map fun r =>
      (planOf cfg images worldSize).assignments.getD r [] := by
    conv_lhs => rw [← map_getD_range (planOf cfg images worldSize).assignments [], hlen]
  conv_rhs => rw [hassign, List.zipWith_map, List.zipWith_self]
  conv_lhs => rw [← List.map_id (List.range worldSize)]
  exact mapM_components fun r _ => hpad r

/-- The restored tensors are the sequential encodings of all components. -/
theorem restore_ok (h : 0 < worldSize) (uninitialized : ℕ → ℕ → List D)
    (pads : List (List (List D)))
    (hpads : pads.length = (planOf cfg images worldSize).assignments.length) :
    (planOf cfg images worldSize).restore cfg uninitialized
        (List.zipWith (shardOf encoder images) pads (planOf cfg images worldSize).assignments) =
      .ok ((List.range cfg.components).map fun component =>
        images.flatMap (encoder.encode component)) := by
  have hmem := mem_assignments images worldSize cfg h
  have hinit : ∀ component, ((List.range (planOf cfg images worldSize).mergedCounts.sum).map
      (uninitialized component)).length = (planOf cfg images worldSize).mergedCounts.sum := by
    simp
  rw [ImagePlan.restore, restoreOwners_ok encoder images worldSize pads hpads
    (fun i hi => (hmem i).mp hi) hinit]
  congr 1
  refine List.map_congr_left fun component _ => ?_
  obtain ⟨hsize, hplaces⟩ := foldl_writeImage encoder images worldSize component
    (fun i hi => (hmem i).mp hi) (hinit component)
  exact eq_flatMap_of_places encoder images worldSize component (hsize.trans (hinit component))
    fun i hi => hplaces i hi (.inl ((hmem i).mpr hi))

end Images

/-- On every rank the data-parallel call returns the sequential encoding: the features of all
images in source order, for the main output and every deepstack layer. -/
theorem encodeImagesDataParallel_eq (cfg : DataParallelConfig) (hmerge : 0 < cfg.spatialMergeSize)
    (encoder : ImageEncoder P D cfg) (images : List (VisionImage P)) (zero : D)
    (uninitialized : ℕ → ℕ → List D) {encodeLocal : VisualEncoder P D}
    (hlocal : encoder.Implements encodeLocal) {allGather : List (Packed D) → ℕ → List (Packed D)}
    (hgather : ∀ shards rank, allGather shards rank = shards) {worldSize rank : ℕ}
    (hrank : rank < worldSize) :
    encodeImagesDataParallel cfg zero uninitialized worldSize allGather
        (images.flatMap VisionImage.patches) (images.map VisionImage.grid) encodeLocal rank =
      .ok (encoder.sequential images) := by
  have hworld : 0 < worldSize := by omega
  have hcount : patchCount (images.map VisionImage.grid) =
      (images.flatMap VisionImage.patches).length := by
    simp [patchCount, List.length_flatMap, Function.comp_def, VisionImage.sized]
  have harea : 0 < cfg.mergeArea := Nat.pow_pos hmerge
  obtain ⟨pads, hpads, hshards⟩ := packAll_ok encoder images worldSize hworld zero hlocal
  have hrestore := restore_ok encoder images worldSize hworld uninitialized pads hpads
  simp only [encodeImagesDataParallel, except_bind_ok, ensure_ok, except_pure_ok]
  refine ⟨(), hcount, (), .inr harea, _, hshards, _, by rw [hgather]; exact hrestore, ?_⟩
  · rw [DataParallelConfig.components, Nat.add_comm, List.range_succ_eq_map]
    simp [ImageEncoder.sequential, Function.comp_def]

end Restore

/-- Images of two and one patches on three ranks, with one deepstack layer. -/
theorem encodeImagesDataParallel_eq_two :
    encodeImagesDataParallel ⟨1, 1, 1⟩ 0 (fun _ _ => [7]) 3 (fun shards _ => shards) [10, 20, 30]
        [⟨1, 1, 1⟩, ⟨1, 1, 2⟩] (fun pixels _ =>
          (⟨1, pixels.map fun p => [p]⟩, [⟨1, pixels.map fun p => [p + 1]⟩])) 2 =
      .ok (⟨1, [[10], [20], [30]]⟩, [⟨1, [[11], [21], [31]]⟩]) := by
  have hpatches : ∀ image : VisionImage ℕ,
      image.patches.length = image.grid.patches / DataParallelConfig.mergeArea ⟨1, 1, 1⟩ := by
    intro image
    simp [DataParallelConfig.mergeArea, image.sized]
  let encoder : ImageEncoder ℕ ℕ ⟨1, 1, 1⟩ :=
    ⟨fun component image => image.patches.map fun p => [p + component], fun component image => by
      rw [List.length_map, hpatches]⟩
  refine encodeImagesDataParallel_eq ⟨1, 1, 1⟩ (by decide) encoder
    [⟨⟨1, 1, 1⟩, [10], rfl⟩, ⟨⟨1, 1, 2⟩, [20, 30], rfl⟩] 0 (fun _ _ => [7])
    (fun images _ => ?_) (fun _ _ => rfl) (by decide)
  simp [encoder, ImageEncoder.sequential, List.map_flatMap]

end PrismInfer
