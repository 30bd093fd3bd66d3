import PrismInfer.VisualHydration

/-!
# What hydration attaches

A cache entry is exact where its key identifies media and its rows are those the encoder
returns for them. Calls keep the entries exact, so hits, fresh outputs and any mixture of both
give an image request the rows of its images in order.
-/
namespace PrismInfer
open StateExcept EveryRun ListBlocks Spans

variable {δ κ ι ρ ε : Type}

/-! ## Encoders and digests -/

/-- Rows in every output of an image, in so many layers. -/
structure PrecomputedVisual.Shaped (depth : ℕ) (part : PrecomputedVisual ε) : Prop where
  layers : part.deepstack.length = depth
  shape : ∀ layer ∈ part.deepstack, layer.length = part.embeds.length

/-- The encoder's output for an image depends on that image only: stacked images give their
outputs one after the other. -/
structure ImageOutputs (runner : VisualRunner ρ ε) (mergeSize : ℕ) where
  output : List ρ × VisionGrid → PrecomputedVisual ε
  depth : ℕ
  depth_pos : 0 < depth
  rows : ∀ image, (output image).embeds.length = image.2.patches / (mergeSize * mergeSize)
  shaped : ∀ image, (output image).Shaped depth
  encode_eq : ∀ images : List (List ρ × VisionGrid), images ≠ [] →
    (∀ image ∈ images, image.1.length = image.2.patches) →
      runner.encodeVisualPayload (images.flatMap (·.1)) (images.map (·.2)) =
        .ok (.concat depth (images.map output))

/-- The outputs of images one after the other. -/
def ImageOutputs.all {runner : VisualRunner ρ ε} {mergeSize : ℕ}
    (outputs : ImageOutputs runner mergeSize) (images : List (List ρ × VisionGrid)) :
    PrecomputedVisual ε :=
  .concat outputs.depth (images.map outputs.output)

/-- Digests of whole payloads and of images, beside what else goes into them. -/
structure MediaDigests (δ κ ι ρ : Type) where
  fingerprint : δ → List ρ → List VisionGrid → κ
  imageHash : δ → List ρ × VisionGrid → ι
  fingerprint_inj : ∀ {domain domain' pixels pixels' grid grid'},
    fingerprint domain pixels grid = fingerprint domain' pixels' grid' →
      pixels = pixels' ∧ grid = grid'
  imageHash_inj : ∀ {domain domain' image image'},
    imageHash domain image = imageHash domain' image' → image = image'

/-- The keys of a sequence are the digests of its media. -/
structure VisualSequence.Identified (digests : MediaDigests δ κ ι ρ)
    (seq : VisualSequence κ ι ρ ε) : Prop where
  key : ∀ key ∈ seq.visualEmbeddingCacheKey, ∃ domain pixels grid,
    seq.present = [(pixels, some grid)] ∧ key = digests.fingerprint domain pixels grid
  hashes : ∀ hashes ∈ seq.multimodalMediaTokenHashes, ∃ domain pixels grid,
    seq.tensors.pixelValues = some pixels ∧ seq.tensors.imageGridThw = some grid ∧
      hashes = (payloadImages pixels grid).map (digests.imageHash domain)

/-! ## Outputs one after the other -/

namespace PrecomputedVisual

variable {part : PrecomputedVisual ε} {parts : List (PrecomputedVisual ε)} {depth : ℕ}

theorem select_select (rows : PrecomputedVisual ε) (first second : List ε → List ε) :
    (rows.select first).select second = rows.select fun layer => second (first layer) := by
  simp [select, Function.comp_def]

theorem Shaped.deepstack_eq (h : part.Shaped depth) :
    (List.range depth).map (fun level => part.deepstack.getD level []) = part.deepstack := by
  apply List.ext_getElem
  · rw [List.length_map, List.length_range, h.layers]
  · intro level hlevel hlt
    rw [List.getElem_map, List.getElem_range, List.getD_eq_getElem?_getD,
      List.getElem?_eq_getElem hlt, Option.getD_some]

theorem Shaped.length_layer (h : part.Shaped depth) {level : ℕ} (hlevel : level < depth) :
    (part.deepstack.getD level []).length = part.embeds.length := by
  have hlt : level < part.deepstack.length := by rwa [h.layers]
  rw [List.getD_eq_getElem?_getD, List.getElem?_eq_getElem hlt, Option.getD_some]
  exact h.shape _ (List.getElem_mem hlt)

theorem Shaped.concat_take (h : part.Shaped depth) :
    (concat depth (part :: parts)).select (·.take part.embeds.length) = part := by
  have hembeds : (concat depth (part :: parts)).embeds.take part.embeds.length = part.embeds :=
    List.take_left' rfl
  have hlayers : (concat depth (part :: parts)).deepstack.map (·.take part.embeds.length) =
      part.deepstack := by
    rw [concat, List.map_map]
    refine (List.map_congr_left fun level hlevel => ?_).trans h.deepstack_eq
    exact List.take_left' (h.length_layer (List.mem_range.mp hlevel))
  rw [select, hembeds, hlayers]

theorem Shaped.concat_drop (h : part.Shaped depth) :
    (concat depth (part :: parts)).select (·.drop part.embeds.length) = concat depth parts := by
  have hembeds : (concat depth (part :: parts)).embeds.drop part.embeds.length =
      (concat depth parts).embeds := List.drop_left' rfl
  have hlayers : (concat depth (part :: parts)).deepstack.map (·.drop part.embeds.length) =
      (concat depth parts).deepstack := by
    rw [concat, List.map_map]
    refine List.map_congr_left fun level hlevel => ?_
    exact List.drop_left' (h.length_layer (List.mem_range.mp hlevel))
  rw [select, hembeds, hlayers]

/-- Each output of the concatenation is cut like the one of the parts. -/
theorem concat_matches (hdepth : 0 < depth) (hparts : ∀ part ∈ parts, part.Shaped depth) :
    (concat depth parts).Matches (parts.map fun part => part.embeds.length).sum := by
  refine ⟨?_, ?_, ?_⟩
  · rw [concat, List.length_flatMap]
  · intro hnone
    have hlength := congrArg List.length hnone
    rw [concat, List.length_map, List.length_range, List.length_nil] at hlength
    omega
  · intro value hvalue
    obtain ⟨level, hlevel, rfl⟩ := List.mem_map.mp hvalue
    rw [concat, List.length_flatMap, List.length_flatMap]
    congr 1
    apply List.map_congr_left
    intro part hpart
    exact (hparts part hpart).length_layer (List.mem_range.mp hlevel)

theorem assemble_ok (hne : parts ≠ [])
    (hparts : ∀ part ∈ parts, part.Shaped depth) :
    assemblePerImageVisualOutputs parts = .ok (concat depth parts) := by
  cases parts with
  | nil => exact absurd rfl hne
  | cons first rest =>
    have hfirst := (hparts first List.mem_cons_self).layers
    have hall : ∀ part ∈ first :: rest, depth ≤ part.deepstack.length :=
      fun part hpart => (hparts part hpart).layers.ge
    unfold assemblePerImageVisualOutputs
    simp only [hfirst]
    exact except_bind_ok.mpr ⟨(), ensure_ok.mpr hall, rfl⟩

end PrecomputedVisual

/-! ## The images of a payload -/

section Payload

variable {payload : List ρ} {grid : List VisionGrid}

theorem imageRowRanges_lengths (start : ℕ) (grid : List VisionGrid) :
    (imageRowRanges start grid).map (fun range => range.2 - range.1) =
      grid.map VisionGrid.patches := by
  induction grid generalizing start with
  | nil => rfl
  | cons row grid ih =>
    rw [imageRowRanges, List.map_cons, List.map_cons, ih, Nat.add_sub_cancel_left]

theorem payloadImages_grid (payload : List ρ) (grid : List VisionGrid) :
    (payloadImages payload grid).map (·.2) = grid := by
  have hlength : (imageRowRanges 0 grid).length = grid.length := by
    have hlengths := congrArg List.length (imageRowRanges_lengths 0 grid)
    rwa [List.length_map, List.length_map] at hlengths
  rw [payloadImages, List.map_map]
  exact List.map_snd_zip hlength.ge

/-- From row `start` on the payload is cut at the sizes of the images. -/
theorem cut_from (start : ℕ) (h : start + (grid.map VisionGrid.patches).sum ≤ payload.length) :
    (∀ item ∈ (imageRowRanges start grid).zip grid,
        (slice payload item.1.1 item.1.2).length = item.2.patches) ∧
      ((imageRowRanges start grid).zip grid).flatMap
          (fun item => slice payload item.1.1 item.1.2) =
        slice payload start (start + (grid.map VisionGrid.patches).sum) := by
  induction grid generalizing start with
  | nil =>
    refine ⟨fun item hitem => absurd hitem List.not_mem_nil, ?_⟩
    simp [imageRowRanges]
  | cons row grid ih =>
    rw [List.map_cons, List.sum_cons] at h ⊢
    obtain ⟨hsized, hrows⟩ := ih (start + row.patches) (by omega)
    constructor
    · intro item hitem
      rcases List.mem_cons.mp hitem with rfl | hitem
      · rw [length_slice (by simp only; omega)]
        exact Nat.add_sub_cancel_left _ _
      · exact hsized item hitem
    · rw [imageRowRanges, List.zip_cons_cons, List.flatMap_cons, hrows,
        slice_append_slice (Nat.le_add_right _ _) (Nat.le_add_right _ _), Nat.add_assoc]

variable (h : payload.length = (grid.map VisionGrid.patches).sum)
include h

theorem payloadImages_sized : ∀ image ∈ payloadImages payload grid,
    image.1.length = image.2.patches := by
  intro image himage
  obtain ⟨item, hitem, rfl⟩ := List.mem_map.mp himage
  exact (cut_from 0 (by omega)).1 item hitem

theorem payloadImages_rows : (payloadImages payload grid).flatMap (·.1) = payload := by
  rw [payloadImages, List.flatMap_map]
  refine (cut_from 0 (by omega)).2.trans ?_
  rw [Nat.zero_add, ← h]
  simp [slice]

end Payload

/-! ## The host cache -/

namespace PerImageVisualEmbeddingHostCache

variable [DecidableEq ι] {host : PerImageVisualEmbeddingHostCache ι (List ε)} {key : ι}
  {item : ι × VisualEmbeddingCacheEntry (List ε)}

omit [DecidableEq ι] in
theorem mem_of_evictLoop {maxBytes bytes : ℕ}
    {entries : OrderedDict ι (VisualEmbeddingCacheEntry (List ε))} {resident : ℤ}
    {evictions : ℕ} (h : item ∈ (evictLoop maxBytes bytes entries resident evictions).1) :
    item ∈ entries := by
  induction entries generalizing resident evictions with
  | nil => exact absurd h List.not_mem_nil
  | cons first entries ih =>
    rw [evictLoop] at h
    split at h
    · exact List.mem_cons_of_mem _ (ih h)
    · exact h

theorem mem_of_lookup (h : item ∈ (host.lookup key).2.entries) : item ∈ host.entries := by
  unfold lookup at h
  split at h
  · exact h
  · exact (OrderedDict.moveToEnd_perm host.entries key).mem_iff.mp h

theorem entry_of_lookup {entry : VisualEmbeddingCacheEntry (List ε)}
    (h : (host.lookup key).1 = some entry) : (key, entry) ∈ host.entries := by
  unfold lookup at h
  split at h
  · cases h
  · next found hget =>
    obtain rfl := Option.some.inj h
    exact OrderedDict.mem_of_get? hget

theorem mem_of_store {nbytes : List ε → ℕ} {rows : PrecomputedVisual ε}
    (h : item ∈ (host.store nbytes key rows.embeds rows.deepstack).entries) :
    item ∈ host.entries ∨ item.1 = key ∧ item.2.rows = rows := by
  unfold store at h
  simp only at h
  split at h
  · exact .inl h
  · rcases OrderedDict.mem_of_setItem h with hold | rfl
    · exact .inl (mem_of_evictLoop hold)
    · exact .inr ⟨rfl, rfl⟩

end PerImageVisualEmbeddingHostCache

section Host

variable {runner : VisualRunner ρ ε} {mergeSize : ℕ} (outputs : ImageOutputs runner mergeSize)
  (digests : MediaDigests δ κ ι ρ)

/-- Under the digest of an image the host cache holds the image's outputs. -/
def ExactHost (host : PerImageVisualEmbeddingHostCache ι (List ε)) : Prop :=
  ∀ item ∈ host.entries, ∀ domain image, item.1 = digests.imageHash domain image →
    item.2.rows = outputs.output image

variable [DecidableEq ι] {outputs digests} {host : PerImageVisualEmbeddingHostCache ι (List ε)}

theorem ExactHost.store (h : ExactHost outputs digests host) (nbytes : List ε → ℕ) (domain : δ)
    (image : List ρ × VisionGrid) :
    ExactHost outputs digests (host.store nbytes (digests.imageHash domain image)
      (outputs.output image).embeds (outputs.output image).deepstack) := by
  intro item hitem domain' image' hkey
  rcases PerImageVisualEmbeddingHostCache.mem_of_store hitem with hold | ⟨hnew, hrows⟩
  · exact h item hold domain' image' hkey
  · rw [hrows, digests.imageHash_inj (hnew.symm.trans hkey)]

/-- What the lookups find are the outputs of the images. -/
theorem lookupParts_spec (h : ExactHost outputs digests host) (domain : δ)
    (images : List (List ρ × VisionGrid)) :
    List.Forall₂ (fun image part => ∀ rows ∈ part, rows = outputs.output image) images
        (lookupParts (images.map (digests.imageHash domain)) host).1 ∧
      ExactHost outputs digests
        (lookupParts (images.map (digests.imageHash domain)) host).2 := by
  induction images generalizing host with
  | nil => exact ⟨.nil, h⟩
  | cons image images ih =>
    have hnext : ExactHost outputs digests (host.lookup (digests.imageHash domain image)).2 :=
      fun item hitem => h item (PerImageVisualEmbeddingHostCache.mem_of_lookup hitem)
    obtain ⟨hfound, hlast⟩ := ih hnext
    refine ⟨.cons ?_ hfound, hlast⟩
    intro rows hrows
    obtain ⟨entry, hentry, rfl⟩ := Option.map_eq_some_iff.mp hrows
    exact h _ (PerImageVisualEmbeddingHostCache.entry_of_lookup hentry) domain image rfl

/-- The missing outputs are cut out of the batch in order, and stored. -/
theorem fillMissing_spec (h : ExactHost outputs digests host) (domain : δ)
    {images : List (List ρ × VisionGrid)} {found : List (Option (PrecomputedVisual ε))}
    (hfound : List.Forall₂ (fun image part => ∀ rows ∈ part, rows = outputs.output image) images
      found) {encoded : PrecomputedVisual ε} {start : ℕ}
    (hencoded : encoded.select (·.drop start) =
      outputs.all (((found.zip images).filter (·.1.isNone)).map (·.2))) :
    (fillMissing runner.nbytes encoded start ((images.map (digests.imageHash domain)).zip
        ((images.map fun image => image.2.patches / (mergeSize * mergeSize)).zip found)) host).1 =
          images.map outputs.output ∧
      ExactHost outputs digests
        (fillMissing runner.nbytes encoded start ((images.map (digests.imageHash domain)).zip
          ((images.map fun image => image.2.patches / (mergeSize * mergeSize)).zip found))
            host).2 := by
  induction hfound generalizing host start with
  | nil => exact ⟨rfl, h⟩
  | @cons image part images found hpart _ ih =>
    cases part with
    | some rows =>
      obtain rfl : rows = outputs.output image := hpart rows rfl
      obtain ⟨hparts, hhost⟩ := ih h hencoded
      exact ⟨congrArg _ hparts, hhost⟩
    | none =>
      have hshaped := outputs.shaped image
      have hlength := outputs.rows image
      have hfirst : encoded.select (fun rows => slice rows start
          (start + image.2.patches / (mergeSize * mergeSize))) = outputs.output image := by
        have hcut := congrArg (·.select (·.take (outputs.output image).embeds.length)) hencoded
        simp only [PrecomputedVisual.select_select] at hcut
        refine Eq.trans ?_ (hcut.trans hshaped.concat_take)
        congr 1
        funext rows
        rw [slice, List.drop_take, Nat.add_sub_cancel_left, hlength]
      have hrest : encoded.select (·.drop (start + image.2.patches / (mergeSize * mergeSize))) =
          outputs.all (((found.zip images).filter (·.1.isNone)).map (·.2)) := by
        have hcut := congrArg (·.select (·.drop (outputs.output image).embeds.length)) hencoded
        simp only [PrecomputedVisual.select_select, List.drop_drop, hlength] at hcut
        refine hcut.trans ?_
        rw [← hlength]
        exact hshaped.concat_drop
      obtain ⟨hparts, hhost⟩ := ih (h.store runner.nbytes domain image) hrest
      simp only [List.map_cons, List.zip_cons_cons, fillMissing, hfirst]
      exact ⟨congrArg _ hparts, hhost⟩

/-- Where no image is missing, all outputs were found. -/
theorem filterMap_found {images : List (List ρ × VisionGrid)}
    {found : List (Option (PrecomputedVisual ε))}
    (hfound : List.Forall₂ (fun image part => ∀ rows ∈ part, rows = outputs.output image) images
      found) (hnone : (found.zip images).filter (·.1.isNone) = []) :
    found.filterMap id = images.map outputs.output := by
  induction hfound with
  | nil => rfl
  | @cons image part images found hpart _ ih =>
    cases part with
    | none => cases hnone
    | some rows =>
      obtain rfl : rows = outputs.output image := hpart rows rfl
      exact congrArg _ (ih hnone)

end Host

/-! ## One request -/

section Request

variable {runner : VisualRunner ρ ε} {mergeSize : ℕ} (outputs : ImageOutputs runner mergeSize)
  (digests : MediaDigests δ κ ι ρ)

/-- Every entry holds what the encoder returns for the media its key identifies. -/
structure ExactCaches (caches : VisualEmbeddingCaches κ ι ε) : Prop where
  whole : ∀ item ∈ caches.visualEmbeddingCache, ∀ domain pixels grid,
    item.1 = digests.fingerprint domain pixels grid →
      runner.encodeVisualPayload pixels grid = .ok item.2.rows
  host : ExactHost outputs digests caches.hostCache

variable [DecidableEq κ] [DecidableEq ι] {outputs digests} {caches : VisualEmbeddingCaches κ ι ε}
  {seq : VisualSequence κ ι ρ ε} {payload : ImagePayload} {id : ℕ} {spans : List (ℕ × ℕ)}
  {pixels : List ρ} {grid : List VisionGrid} {rows : PrecomputedVisual ε} {key : κ} {domain : δ}

omit [DecidableEq ι] in
theorem ExactCaches.store (h : ExactCaches outputs digests caches) (nbytes : List ε → ℕ)
    (domain : δ) (hrows : runner.encodeVisualPayload pixels grid = .ok rows) :
    ExactCaches outputs digests
      (caches.store nbytes (digests.fingerprint domain pixels grid) rows) := by
  unfold VisualEmbeddingCaches.store
  simp only
  split
  · exact ⟨h.whole, h.host⟩
  · refine ⟨?_, h.host⟩
    intro item hitem domain' pixels' grid' hkey
    rcases OrderedDict.mem_of_setItem hitem with hold | rfl
    · exact h.whole item (PerImageVisualEmbeddingHostCache.mem_of_evictLoop hold) domain' pixels'
        grid' hkey
    · obtain ⟨rfl, rfl⟩ := digests.fingerprint_inj hkey
      exact hrows

omit [DecidableEq κ] in
/-- Found or encoded now, the parts are the outputs of the images. -/
theorem hydrateParts_run (hexact : ExactHost outputs digests caches.hostCache)
    (hpixels : pixels.length = (grid.map VisionGrid.patches).sum) (domain : δ) :
    ∃ host, ExactHost outputs digests host ∧
      runner.hydrateParts pixels grid
          ((payloadImages pixels grid).map fun image =>
            image.2.patches / (mergeSize * mergeSize))
          ((payloadImages pixels grid).map (digests.imageHash domain)) caches =
        .ok ((payloadImages pixels grid).map outputs.output) { caches with hostCache := host } := by
  have hsized := payloadImages_sized hpixels
  generalize himages : payloadImages pixels grid = images at hsized
  obtain ⟨hfound, hhost⟩ := lookupParts_spec hexact domain images
  generalize hlookup : lookupParts (images.map (digests.imageHash domain)) caches.hostCache =
    looked at hfound hhost
  obtain ⟨found, host⟩ := looked
  simp only at hfound hhost
  have hread : (onHost (lookupParts (images.map (digests.imageHash domain))) :
      CacheAction κ ι ε _) caches = .ok found { caches with hostCache := host } := by
    rw [onHost, hlookup]
  unfold VisualRunner.hydrateParts
  rw [himages]
  by_cases hnone : (found.zip images).filter (·.1.isNone) = []
  · refine ⟨host, hhost, bind_ok.mpr ⟨found, _, hread, ?_⟩⟩
    rw [hnone, if_pos (show [].isEmpty = true from rfl)]
    exact pure_ok.mpr ⟨filterMap_found hfound hnone, rfl⟩
  · have hmissing : ((found.zip images).filter (·.1.isNone)).isEmpty ≠ true := by
      simpa using hnone
    have hencode := outputs.encode_eq (((found.zip images).filter (·.1.isNone)).map (·.2))
      (by simpa using hnone) fun image himage => by
        obtain ⟨item, hitem, rfl⟩ := List.mem_map.mp himage
        exact hsized _ (List.of_mem_zip (List.mem_filter.mp hitem).1).2
    rw [List.flatMap_map, List.map_map] at hencode
    have hwhole : (outputs.all (((found.zip images).filter (·.1.isNone)).map (·.2))).select
        (·.drop 0) = outputs.all (((found.zip images).filter (·.1.isNone)).map (·.2)) := by
      simp [PrecomputedVisual.select]
    obtain ⟨hparts, hlast⟩ := fillMissing_spec hhost domain hfound hwhole
    refine ⟨_, hlast, bind_ok.mpr ⟨found, _, hread, ?_⟩⟩
    rw [if_neg hmissing]
    refine bind_ok.mpr ⟨_, _, readOnly_ok.mpr ⟨hencode, rfl⟩, ?_⟩
    rw [onHost, ← hparts]
    rfl

theorem ImageMedia.outputRows {req : Request} {tensors : SequenceTensors ρ}
    (h : ImageMedia req tensors mergeSize payload id spans pixels grid) :
    (spans.map fun span => span.2 - span.1) =
      (payloadImages pixels grid).map fun image => image.2.patches / (mergeSize * mergeSize) := by
  rw [h.lengths]
  conv_lhs => rw [← payloadImages_grid pixels grid]
  rw [List.map_map, List.map_map]
  rfl

/-- The outputs of all images have a row for each placeholder. -/
theorem ImageMedia.all_matches {req : Request} {tensors : SequenceTensors ρ}
    (h : ImageMedia req tensors mergeSize payload id spans pixels grid)
    (outputs : ImageOutputs runner mergeSize) :
    (outputs.all (payloadImages pixels grid)).Matches req.imageTokenCount := by
  have hparts : ∀ part ∈ (payloadImages pixels grid).map outputs.output,
      part.Shaped outputs.depth := fun part hpart => by
    obtain ⟨image, -, rfl⟩ := List.mem_map.mp hpart
    exact outputs.shaped image
  have hmatches := PrecomputedVisual.concat_matches outputs.depth_pos hparts
  rw [List.map_map] at hmatches
  have hrows : ((payloadImages pixels grid).map fun image =>
      (outputs.output image).embeds.length) = spans.map fun span => span.2 - span.1 := by
    rw [h.outputRows]
    exact List.map_congr_left fun image _ => outputs.rows image
  have htotal : req.imageTokenCount = ((payloadImages pixels grid).map fun image =>
      (outputs.output image).embeds.length).sum := by
    rw [hrows, h.count_eq]
    rfl
  rw [htotal]
  exact hmatches

theorem ImageMedia.images_ne_nil {req : Request} {tensors : SequenceTensors ρ}
    (h : ImageMedia req tensors mergeSize payload id spans pixels grid) :
    payloadImages pixels grid ≠ [] := by
  intro hnone
  have hrows := h.outputRows
  rw [hnone, List.map_nil, List.map_eq_nil_iff] at hrows
  exact h.nonempty hrows

/-- The whole payload has the same outputs. -/
theorem ImageMedia.encode_ok {req : Request} {tensors : SequenceTensors ρ}
    (h : ImageMedia req tensors mergeSize payload id spans pixels grid)
    (outputs : ImageOutputs runner mergeSize) :
    runner.encodeVisualPayload pixels grid = .ok (outputs.all (payloadImages pixels grid)) := by
  have hencode := outputs.encode_eq _ h.images_ne_nil (payloadImages_sized h.rows)
  rwa [payloadImages_rows h.rows, payloadImages_grid] at hencode

omit [DecidableEq κ] in
/-- Image by image the request gets the outputs of its images, if they match its
placeholders. -/
theorem hydratePerImage_run (hexact : ExactHost outputs digests caches.hostCache)
    (h : ImageMedia seq.request seq.tensors mergeSize payload id spans pixels grid) (domain : δ) :
    ∃ host, ExactHost outputs digests host ∧
      runner.hydratePerImage seq pixels grid
          ((payloadImages pixels grid).map (digests.imageHash domain)) caches =
        (do
          require ((outputs.all (payloadImages pixels grid)).Matches seq.visualTokenCount)
            (VisualCacheError.perImageOutputRows
              (outputs.all (payloadImages pixels grid)).embeds.length seq.visualTokenCount)
          pure (some (outputs.all (payloadImages pixels grid)))) { caches with hostCache :=
            host } := by
  obtain ⟨host, hhost, hparts⟩ := hydrateParts_run hexact h.rows domain
  refine ⟨host, hhost, ?_⟩
  have hspans :
      spans.length = ((payloadImages pixels grid).map (digests.imageHash domain)).length := by
    have hlength := congrArg List.length h.outputRows
    rw [List.length_map, List.length_map] at hlength
    rw [hlength, List.length_map]
  have hassemble : assemblePerImageVisualOutputs ((payloadImages pixels grid).map outputs.output) =
      .ok (outputs.all (payloadImages pixels grid)) := by
    apply PrecomputedVisual.assemble_ok
    · exact fun hnone => h.images_ne_nil (List.map_eq_nil_iff.mp hnone)
    · intro part hpart
      obtain ⟨image, -, rfl⟩ := List.mem_map.mp hpart
      exact outputs.shaped image
  have hsome : (outputs.all (payloadImages pixels grid)).embeds.length ≠ 0 := by
    rw [(h.all_matches outputs).1]
    exact h.count_pos.ne'
  unfold VisualRunner.hydratePerImage
  rw [imageRowRanges_lengths, if_neg (not_not.mpr h.rows.symm), h.spans_eq]
  simp only
  rw [if_neg (not_not.mpr hspans), h.outputRows, bind_of_ok hparts,
    bind_of_ok (readOnly_ok.mpr ⟨hassemble, rfl⟩), if_neg hsome]

omit [DecidableEq ι] in
/-- The whole payload: the caches stay exact, and outputs that match are returned. -/
theorem hydrateWhole_spec (hexact : ExactCaches outputs digests caches)
    (hpresent : seq.present = [(pixels, some grid)]) (domain : δ) :
    ExactCaches outputs digests (finalState
        (runner.hydrateWhole seq (digests.fingerprint domain pixels grid) caches)) ∧
      (∀ rows caches', runner.hydrateWhole seq (digests.fingerprint domain pixels grid) caches =
          .ok rows caches' → runner.encodeVisualPayload pixels grid = .ok rows) ∧
      ∀ rows, runner.encodeVisualPayload pixels grid = .ok rows →
        rows.Matches seq.visualTokenCount → ∃ caches', runner.hydrateWhole seq
          (digests.fingerprint domain pixels grid) caches = .ok rows caches' := by
  have hcounted : ExactCaches outputs digests { caches with misses := caches.misses + 1 } :=
    ⟨hexact.whole, hexact.host⟩
  unfold VisualRunner.hydrateWhole
  rw [hpresent]
  simp only
  rw [bind_of_ok (a := ()) (modify_ok.mpr rfl)]
  cases hencode : runner.encodeVisualPayload pixels grid with
  | error e =>
    refine ⟨hcounted, ?_, ?_⟩
    · intro rows caches' hrun
      cases hrun
    · intro rows hrows
      cases hrows
  | ok rows =>
    rw [bind_of_ok (readOnly_ok.mpr ⟨rfl, rfl⟩)]
    by_cases hmatch : rows.Matches seq.visualTokenCount
    · rw [bind_of_ok (a := ()) (require_ok.mpr ⟨hmatch, rfl⟩),
        bind_of_ok (a := ()) (modify_ok.mpr rfl)]
      refine ⟨hcounted.store runner.nbytes domain hencode, ?_, ?_⟩
      · intro rows' caches' hrun
        rw [(pure_ok.mp hrun).1]
      · intro rows' hrows _
        obtain rfl := Except.ok.inj hrows
        exact ⟨_, rfl⟩
    · rw [StateExcept.require, if_neg hmatch]
      refine ⟨hcounted, ?_, ?_⟩
      · intro rows' caches' hrun
        cases hrun
      · intro rows' hrows hmatch'
        obtain rfl := Except.ok.inj hrows
        exact absurd hmatch' hmatch

omit [DecidableEq κ] in
theorem hydrateImages_cases (runner : VisualRunner ρ ε) (seq : VisualSequence κ ι ρ ε) :
    runner.hydrateImages seq = (pure none : CacheAction κ ι ε _) ∨
      ∃ hashes pixels grid, seq.multimodalMediaTokenHashes = some hashes ∧
        seq.tensors.pixelValues = some pixels ∧ seq.tensors.imageGridThw = some grid ∧
        seq.tensors.pixelValuesVideos = none ∧ (runner.hydrateImages seq : CacheAction κ ι ε _) =
          runner.hydratePerImage seq pixels grid hashes := by
  unfold VisualRunner.hydrateImages
  cases hhashes : seq.multimodalMediaTokenHashes with
  | none => exact .inl rfl
  | some hashes =>
    cases hpixels : seq.tensors.pixelValues with
    | none => exact .inl rfl
    | some pixels =>
      cases hgrid : seq.tensors.imageGridThw with
      | none => exact .inl rfl
      | some grid =>
        cases hvideos : seq.tensors.pixelValuesVideos with
        | some videos => exact .inl rfl
        | none =>
          by_cases hlength : hashes.length = grid.length
          · exact .inr ⟨hashes, pixels, grid, rfl, rfl, rfl, rfl, if_pos hlength⟩
          · exact .inl (if_neg hlength)

omit [DecidableEq κ] in
/-- Image by image, or not at all: the caches stay exact, and the outputs are those of the
payload. -/
theorem hydrateImages_spec (hexact : ExactCaches outputs digests caches)
    (hmedia : PromptMedia seq.request seq.tensors mergeSize) (hid : seq.Identified digests) :
    runner.hydrateImages seq caches = .ok none caches ∨
      ∃ pixels grid rows caches', seq.present = [(pixels, some grid)] ∧
        runner.encodeVisualPayload pixels grid = .ok rows ∧
        ExactCaches outputs digests caches' ∧ runner.hydrateImages seq caches =
          (do
            require (rows.Matches seq.visualTokenCount)
              (VisualCacheError.perImageOutputRows rows.embeds.length seq.visualTokenCount)
            pure (some rows)) caches' := by
  rcases hydrateImages_cases runner seq with hnone | ⟨hashes, pixels, grid, hhashes, hpixels, hgrid,
    hvideos, hrun⟩
  · left
    rw [hnone]
    rfl
  · right
    obtain ⟨domain, pixels', grid', hpixels', hgrid', rfl⟩ := hid.hashes hashes hhashes
    obtain rfl := Option.some.inj (hpixels.symm.trans hpixels')
    obtain rfl := Option.some.inj (hgrid.symm.trans hgrid')
    have himages : seq.request.images ≠ none := fun hnone =>
      Option.some_ne_none _ (hpixels.symm.trans (hmedia.noImages hnone))
    obtain ⟨payload, hpayload⟩ := Option.ne_none_iff_exists'.mp himages
    obtain ⟨id, pixels', grid', h⟩ := hmedia.image_media hpayload
    obtain rfl := Option.some.inj (hpixels.symm.trans h.pixels_eq)
    obtain rfl := Option.some.inj (hgrid.symm.trans h.grid_eq)
    obtain ⟨host, hhost, hparts⟩ := hydratePerImage_run hexact.host h domain
    refine ⟨pixels, grid, outputs.all (payloadImages pixels grid),
      { caches with hostCache := host }, ?_, h.encode_ok outputs, ⟨hexact.whole, hhost⟩, ?_⟩
    · simp [VisualSequence.present, hpixels, hgrid, hvideos]
    · rw [hrun]
      exact hparts

/-- The outputs of a payload, from the host cache or from the encoder. -/
theorem hydrateMiss_spec (hexact : ExactCaches outputs digests caches)
    (hmedia : PromptMedia seq.request seq.tensors mergeSize) (hid : seq.Identified digests)
    (hpresent : seq.present = [(pixels, some grid)]) (domain : δ) :
    ExactCaches outputs digests (finalState
        (runner.hydrateMiss seq (digests.fingerprint domain pixels grid) caches)) ∧
      (∀ rows caches', runner.hydrateMiss seq (digests.fingerprint domain pixels grid) caches =
          .ok rows caches' → runner.encodeVisualPayload pixels grid = .ok rows) ∧
      ∀ rows, runner.encodeVisualPayload pixels grid = .ok rows →
        rows.Matches seq.visualTokenCount → ∃ caches', runner.hydrateMiss seq
          (digests.fingerprint domain pixels grid) caches = .ok rows caches' := by
  unfold VisualRunner.hydrateMiss
  rcases hydrateImages_spec hexact hmedia hid with hnone | ⟨pixels', grid', rows, caches', hsame,
    hencode, hexact', hrun⟩
  · rw [bind_of_ok hnone]
    exact hydrateWhole_spec hexact hpresent domain
  · obtain ⟨rfl, rfl⟩ := seq.present_unique hpresent hsame
    by_cases hmatch : rows.Matches seq.visualTokenCount
    · rw [bind_of_ok (a := ()) (require_ok.mpr ⟨hmatch, rfl⟩)] at hrun
      rw [bind_of_ok hrun]
      refine ⟨hexact', ?_, ?_⟩
      · intro rows' caches'' hreturn
        rw [← (pure_ok.mp hreturn).1]
        exact hencode
      · intro rows' hrows _
        obtain rfl := Except.ok.inj (hencode.symm.trans hrows)
        exact ⟨caches', rfl⟩
    · have herror : runner.hydrateImages seq caches = .error
          (.perImageOutputRows rows.embeds.length seq.visualTokenCount) caches' := by
        rw [hrun, StateExcept.require, if_neg hmatch]
        rfl
      simp only [bind, EStateM.bind, herror]
      refine ⟨hexact', ?_, ?_⟩
      · intro rows' caches'' hreturn
        cases hreturn
      · intro rows' hrows hmatch'
        obtain rfl := Except.ok.inj (hencode.symm.trans hrows)
        exact absurd hmatch' hmatch

/-- `seq'` is `seq` with what the encoder returns for its payload. -/
def Attached (runner : VisualRunner ρ ε) (seq seq' : VisualSequence κ ι ρ ε) : Prop :=
  ∃ pixels grid rows, seq.present = [(pixels, some grid)] ∧
    runner.encodeVisualPayload pixels grid = .ok rows ∧ seq' = seq.attach rows

/-- Hydration keeps the caches exact and attaches what the encoder returns, or nothing. -/
theorem hydrate_spec (hexact : ExactCaches outputs digests caches)
    (hmedia : PromptMedia seq.request seq.tensors mergeSize) (hid : seq.Identified digests) :
    ExactCaches outputs digests (finalState (runner.hydrateVisualEmbeddingCache seq caches)) ∧
      (∀ seq' caches', runner.hydrateVisualEmbeddingCache seq caches = .ok seq' caches' →
        seq' = seq ∨ Attached runner seq seq') ∧
      ∀ pixels grid rows, runner.enableVisualEmbeddingCache = true →
        seq.visualEmbeddingCacheKey ≠ none → seq.present = [(pixels, some grid)] →
        runner.encodeVisualPayload pixels grid = .ok rows → rows.Matches seq.visualTokenCount →
          ∃ caches', runner.hydrateVisualEmbeddingCache seq caches =
            .ok (seq.attach rows) caches' := by
  unfold VisualRunner.hydrateVisualEmbeddingCache
  by_cases henabled : runner.enableVisualEmbeddingCache = true
  · rw [if_neg (by simp [henabled])]
    cases hkey : seq.visualEmbeddingCacheKey with
    | none =>
      refine ⟨hexact, ?_, ?_⟩
      · intro seq' caches' hrun
        exact .inl (pure_ok.mp hrun).1.symm
      · intro pixels grid rows _ hsome
        exact absurd rfl hsome
    | some key =>
      obtain ⟨domain, pixels, grid, hpresent, rfl⟩ := hid.key key hkey
      simp only
      rw [bind_of_ok (get_ok.mpr ⟨rfl, rfl⟩)]
      cases hget : caches.visualEmbeddingCache.get? (digests.fingerprint domain pixels grid) with
      | some entry =>
        have hencode := hexact.whole _ (OrderedDict.mem_of_get? hget) domain pixels grid rfl
        simp only
        rw [bind_of_ok (a := ()) (set_ok.mpr rfl)]
        refine ⟨⟨?_, hexact.host⟩, ?_, ?_⟩
        · intro item hitem
          exact hexact.whole item ((OrderedDict.moveToEnd_perm _ _).mem_iff.mp hitem)
        · intro seq' caches' hrun
          exact .inr ⟨pixels, grid, entry.rows, hpresent, hencode, (pure_ok.mp hrun).1.symm⟩
        · intro pixels' grid' rows _ _ hsame hrows _
          obtain ⟨rfl, rfl⟩ := seq.present_unique hpresent hsame
          obtain rfl := Except.ok.inj (hencode.symm.trans hrows)
          exact ⟨_, rfl⟩
      | none =>
        obtain ⟨hfinal, hreturns, hsucceeds⟩ := hydrateMiss_spec hexact hmedia hid hpresent domain
        simp only
        refine ⟨?_, ?_, ?_⟩
        · simp only [bind, EStateM.bind]
          cases hrun : runner.hydrateMiss seq (digests.fingerprint domain pixels grid) caches with
          | ok rows caches' =>
            rw [hrun] at hfinal
            exact hfinal
          | error e caches' =>
            rw [hrun] at hfinal
            exact hfinal
        · intro seq' caches' hrun
          obtain ⟨rows, mid, hmiss, hattach⟩ := bind_ok.mp hrun
          exact .inr ⟨pixels, grid, rows, hpresent, hreturns rows mid hmiss,
            (pure_ok.mp hattach).1.symm⟩
        · intro pixels' grid' rows _ _ hsame hrows hmatch
          obtain ⟨rfl, rfl⟩ := seq.present_unique hpresent hsame
          obtain ⟨caches', hrun⟩ := hsucceeds rows hrows hmatch
          exact ⟨caches', by rw [bind_of_ok hrun]; rfl⟩
  · rw [if_pos (by simpa using henabled)]
    refine ⟨hexact, ?_, ?_⟩
    · intro seq' caches' hrun
      exact .inl (pure_ok.mp hrun).1.symm
    · intro pixels grid rows hyes
      exact absurd hyes henabled

end Request

end PrismInfer
