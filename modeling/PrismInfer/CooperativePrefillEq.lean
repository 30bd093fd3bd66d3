import PrismInfer.CooperativePrefill

/-!
# One-shot and cooperative prefill agree

The features of a payload do not depend on how it is cut into microbatches, and the rows
that the cooperative path joins by index are those that the one-shot path scatters by mask.
-/
set_option linter.unusedSectionVars false

namespace PrismInfer

open StateExcept MaskedScatter

/-! ### Frames -/

section Frames

variable {Patch Row : Type}

/-- Rows computed frame by frame. -/
def perFrame (f : List Patch → ℕ × ℕ → List Row) : List Patch → List (ℕ × ℕ) → List Row
  | _, [] => []
  | patches, size :: sizes =>
    f (patches.take (size.1 * size.2)) size ++ perFrame f (patches.drop (size.1 * size.2)) sizes

def frameTotal (sizes : List (ℕ × ℕ)) : ℕ := (sizes.map fun size => size.1 * size.2).sum

theorem frameTotal_framesOf (grid : List GridRow) :
    frameTotal (framesOf grid) = patchCount grid := by
  induction grid with
  | nil => rfl
  | cons row grid ih =>
    have hrow : frameTotal row.frames = row.patches := by
      simp [frameTotal, GridRow.frames, GridRow.patches, GridRow.framePatches]
    rw [framesOf_cons, patchCount_cons, ← ih, ← hrow]
    simp [frameTotal]

theorem perFrame_append (f : List Patch → ℕ × ℕ → List Row) (patches : List Patch)
    (left right : List (ℕ × ℕ)) :
    perFrame f patches (left ++ right) =
      perFrame f (patches.take (frameTotal left)) left ++
        perFrame f (patches.drop (frameTotal left)) right := by
  induction left generalizing patches with
  | nil => simp [perFrame, frameTotal]
  | cons size left ih =>
    have htotal : frameTotal (size :: left) = size.1 * size.2 + frameTotal left := by
      simp [frameTotal]
    simp only [List.cons_append, perFrame, ih, htotal, List.take_take, List.drop_take,
      List.drop_drop, List.append_assoc]
    rw [Nat.min_eq_left (Nat.le_add_right _ _), Nat.add_sub_cancel_left]

/-- The chunks of consecutive microbatches give the rows of what they cover. -/
theorem perFrame_chunks (f : List Patch → ℕ × ℕ → List Row) (patches : List Patch)
    {first last : ℕ} {plans : List Microbatch} (hconsecutive : Consecutive first plans last)
    (hsound : ∀ plan ∈ plans, plan.stop = plan.start + patchCount plan.rows) :
    (plans.map fun plan => perFrame f ((patches.take plan.stop).drop plan.start)
        (framesOf plan.rows)).flatten =
      perFrame f ((patches.take last).drop first) (plans.flatMap (framesOf ·.rows)) := by
  induction plans generalizing first with
  | nil => rfl
  | cons plan plans ih =>
    obtain ⟨rfl, hrest⟩ := hconsecutive
    have hstop := hsound plan List.mem_cons_self
    have hle : plan.stop ≤ last := by
      refine hrest.le fun other hmem => ?_
      have := hsound other (List.mem_cons_of_mem _ hmem)
      omega
    rw [List.map_cons, List.flatten_cons, ih hrest fun p hp => hsound p (List.mem_cons_of_mem _ hp),
      List.flatMap_cons, perFrame_append, frameTotal_framesOf, List.take_drop, List.take_take,
      List.drop_drop, ← hstop, Nat.min_eq_left hle]

end Frames

/-- An encoder whose output for a frame depends on that frame only. -/
structure FrameFeatures {Patch Hidden Row : Type} (encoder : VisionEncoder Patch Hidden Row) where
  depth : ℕ
  main : List Patch → ℕ × ℕ → List Row
  deepstack : ℕ → List Patch → ℕ × ℕ → List Row
  rows : ∀ layer patches size, (deepstack layer patches size).length = (main patches size).length
  forward : ∀ patches grid, (∀ row ∈ grid, row.Positive) → framesOf grid ≠ [] →
    patches.length = patchCount grid →
    encoder.forwardTensorRegion (encoder.prepareTensorRegionInputs patches grid) =
      (perFrame main patches (framesOf grid),
        (List.range depth).map fun layer => perFrame (deepstack layer) patches (framesOf grid))

/-- A payload as the processor makes it, whose frames all fit the encoder limit. -/
structure VisualInput.Fits {Patch : Type} (input : VisualInput Patch) (patchLimit : ℕ) : Prop where
  positive : ∀ row ∈ input.gridThw, row.Positive
  frames : ∀ row ∈ input.gridThw, row.framePatches ≤ patchLimit
  count : input.pixelValues.length = patchCount input.gridThw

namespace Qwen3VL

variable {Token Patch Hidden Pos Row Sampled : Type} [DecidableEq Token]
variable {m : Qwen3VL Token Patch Hidden Pos Row Sampled} (features : FrameFeatures m.visual)
variable {input : VisualInput Patch} {plans : List Microbatch} {plan : Microbatch}

/-- Main features of a whole payload. -/
def mainOf (input : VisualInput Patch) : List Row :=
  perFrame features.main input.pixelValues (framesOf input.gridThw)

/-- DeepStack features of a whole payload. -/
def deepstackOf (input : VisualInput Patch) : List (List Row) :=
  (List.range features.depth).map fun layer =>
    perFrame (features.deepstack layer) input.pixelValues (framesOf input.gridThw)

theorem length_perFrame_deepstack (layer : ℕ) (patches : List Patch) (sizes : List (ℕ × ℕ)) :
    (perFrame (features.deepstack layer) patches sizes).length =
      (perFrame features.main patches sizes).length := by
  induction sizes generalizing patches with
  | nil => rfl
  | cons size sizes ih => simp [perFrame, features.rows, ih]

theorem length_deepstackOf {layer : List Row} (h : layer ∈ deepstackOf features input) :
    layer.length = (mainOf features input).length := by
  obtain ⟨index, -, rfl⟩ := List.mem_map.mp h
  exact length_perFrame_deepstack features index _ _

/-- The features that some microbatches of a payload have given. -/
def partsOf (input : VisualInput Patch) (plans : List Microbatch) : Parts Row where
  main := plans.map fun plan => perFrame features.main (chunk input plan) (framesOf plan.rows)
  deepstack := if plans = [] then none else some ((List.range features.depth).map fun layer =>
    plans.map fun plan => perFrame (features.deepstack layer) (chunk input plan)
    (framesOf plan.rows))

theorem framesOf_ne_nil {grid : List GridRow} (hpositive : ∀ row ∈ grid, row.Positive)
    (hne : grid ≠ []) : framesOf grid ≠ [] := by
  obtain ⟨row, rows, rfl⟩ := List.exists_cons_of_ne_nil hne
  have htemporal := (hpositive row List.mem_cons_self).1
  intro hnil
  have hframes : row.frames = [] := (List.append_eq_nil_iff.mp hnil).1
  simp only [GridRow.frames, List.replicate_eq_nil_iff] at hframes
  omega

theorem encodeMicrobatch_ok (done : List Microbatch)
    (hplan : plan.Sound m.visionEncoderMicrobatchPatches)
    (hstop : plan.stop ≤ input.pixelValues.length) :
    m.encodeMicrobatch input (partsOf features input done) plan =
      .ok (partsOf features input (done ++ [plan])) := by
  have hpatches := hplan.patches
  have hnonempty := hplan.nonempty
  have hrows : plan.rows ≠ [] := fun hnil => by
    rw [hnil, patchCount_nil] at hpatches
    omega
  have hframes := framesOf_ne_nil hplan.positive hrows
  have hlength : (chunk input plan).length = patchCount plan.rows := by
    simp only [chunk, List.length_drop, List.length_take, Nat.min_eq_left hstop]
    omega
  have houtput := features.forward (chunk input plan) plan.rows hplan.positive hframes hlength
  simp only [encodeMicrobatch, VisionEncoder.forward, except_bind_ok, ensure_ok, except_pure_ok]
  refine ⟨_, ⟨(), hframes, houtput⟩, ?_⟩
  have hlayers : (partsOf features input done).deepstack.getD
      (((List.range features.depth).map fun layer => perFrame (features.deepstack layer)
        (chunk input plan) (framesOf plan.rows)).map fun _ => []) =
      (List.range features.depth).map fun layer => done.map fun plan =>
        perFrame (features.deepstack layer) (chunk input plan) (framesOf plan.rows) := by
    cases done with
    | nil => simp [partsOf, Function.comp_def]
    | cons head tail => simp [partsOf]
  simp only [Parts.append, except_bind_ok, ensure_ok, except_pure_ok]
  rw [hlayers]
  refine ⟨(), by simp, ?_⟩
  simp [partsOf, List.zipWith_map, List.zipWith_self]

theorem encodeMicrobatches_ok (done : List Microbatch)
    (hsound : ∀ plan ∈ plans, plan.Sound m.visionEncoderMicrobatchPatches)
    (hstop : ∀ plan ∈ plans, plan.stop ≤ input.pixelValues.length) :
    plans.foldlM (m.encodeMicrobatch input) (partsOf features input done) =
      .ok (partsOf features input (done ++ plans)) := by
  induction plans generalizing done with
  | nil => simp [pure, Except.pure]
  | cons plan plans ih =>
    have hrest := ih (done ++ [plan]) (fun other hmem => hsound other (List.mem_cons_of_mem _ hmem))
      (fun other hmem => hstop other (List.mem_cons_of_mem _ hmem))
    rw [List.append_assoc, List.singleton_append] at hrest
    rw [List.foldlM_cons, except_bind_ok]
    exact ⟨_, encodeMicrobatch_ok features done (hsound plan List.mem_cons_self)
      (hstop plan List.mem_cons_self), hrest⟩

/-- The microbatches of a payload give the features of the payload. -/
theorem cat_partsOf (hfits : input.Fits m.visionEncoderMicrobatchPatches)
    (hplans : Partitions input.gridThw m.visionEncoderMicrobatchPatches plans) (hne : plans ≠ []) :
    (partsOf features input plans).cat = (mainOf features input, deepstackOf features input) := by
  have hchunks : ∀ f : List Patch → ℕ × ℕ → List Row,
      (plans.map fun plan => perFrame f (chunk input plan) (framesOf plan.rows)).flatten =
        perFrame f input.pixelValues (framesOf input.gridThw) := fun f => by
    have hcovered := perFrame_chunks f input.pixelValues hplans.consecutive
      fun plan hmem => (hplans.sound plan hmem).patches
    rw [hplans.frames, ← hfits.count, List.take_length, List.drop_zero] at hcovered
    exact hcovered
  simp only [Parts.cat, partsOf, if_neg hne, Option.getD_some, List.map_map, mainOf, deepstackOf,
    hchunks]
  simp [Function.comp_def, hchunks]

/-- The plan of a payload with a frame, and the features it leads to. -/
theorem planPayload_ok (hfits : input.Fits m.visionEncoderMicrobatchPatches)
    (hne : framesOf input.gridThw ≠ []) :
    ∃ plans, m.planPayload input = .ok plans ∧ plans ≠ [] ∧
      plans.foldlM (m.encodeMicrobatch input) ⟨[], none⟩ = .ok (partsOf features input plans) ∧
      (partsOf features input plans).cat = (mainOf features input, deepstackOf features input) := by
  obtain ⟨plans, hplan, hpartition⟩ := planVisualMicrobatches_ok hfits.positive hfits.frames
  have hlast := hpartition.consecutive.getLast?
  have hplans : plans ≠ [] := fun hnil => hne (by rw [← hpartition.frames, hnil]; rfl)
  have hstop : ∀ plan ∈ plans, plan.stop ≤ input.pixelValues.length := fun plan hmem => by
    rw [hfits.count]
    exact hpartition.consecutive.stop_le
      (fun other hother => (hpartition.sound other hother).nonempty.le) hmem
  refine ⟨plans, ?_, hplans, ?_, cat_partsOf features hfits hpartition hplans⟩
  · simp only [planPayload, except_bind_ok, ensure_ok, except_pure_ok]
    exact ⟨plans, hplan, (), hlast.trans hfits.count.symm, rfl⟩
  · have hrun := encodeMicrobatches_ok features [] hpartition.sound hstop
    rwa [List.nil_append] at hrun

/-- A payload is encoded as if it were one microbatch. -/
theorem encodeVisualPayload_eq (hfits : input.Fits m.visionEncoderMicrobatchPatches)
    (hne : framesOf input.gridThw ≠ []) :
    m.encodeVisualPayload input = .ok (mainOf features input, deepstackOf features input) := by
  have hwhole := features.forward input.pixelValues input.gridThw hfits.positive hne hfits.count
  unfold encodeVisualPayload
  split
  · simp only [VisionEncoder.forward, except_bind_ok, ensure_ok, except_pure_ok]
    exact ⟨(), hne, hwhole⟩
  · obtain ⟨plans, hplan, -, hrun, hcat⟩ := planPayload_ok features hfits hne
    simp only [except_bind_ok, except_pure_ok]
    exact ⟨plans, hplan, _, hrun, hcat⟩

/-- A payload that is encoded has a frame. -/
theorem framesOf_of_encodeVisualPayload {output : List Row × List (List Row)}
    (hfits : input.Fits m.visionEncoderMicrobatchPatches)
    (hencode : m.encodeVisualPayload input = .ok output) : framesOf input.gridThw ≠ [] := by
  unfold encodeVisualPayload at hencode
  split at hencode
  · simp only [VisionEncoder.forward, except_bind_ok, ensure_ok] at hencode
    exact hencode.choose_spec.1
  · rename_i hlong
    refine framesOf_ne_nil hfits.positive fun hnil => hlong ?_
    rw [hfits.count, hnil]
    exact Nat.zero_le _

/-! ### Joining the modalities -/

variable {inputIds : List Token} {tokenId : Token}

theorem count_tokenMask (inputIds : List Token) (tokenId : Token) :
    (tokenMask inputIds tokenId).count true = inputIds.countP (· = tokenId) :=
  count_map_true _ inputIds

theorem maskOr_tokenMask (inputIds : List Token) (left right : Token) :
    maskOr (tokenMask inputIds left) (tokenMask inputIds right) =
      inputIds.map fun token => decide (token = left) || decide (token = right) := by
  simp [maskOr, tokenMask, List.zipWith_map, List.zipWith_self]

theorem putRows_ok {value target : List Row} (hcount : inputIds.countP (· = tokenId) = value.length)
    (htarget : target.length = inputIds.length) :
    putRows inputIds tokenId value target =
      .ok (maskedScatter target (tokenMask inputIds tokenId) value) := by
  simp only [putRows, except_bind_ok, ensure_ok, except_pure_ok, length_nonzero, count_tokenMask]
  exact ⟨(), hcount, indexPut_nonzero (by simp [tokenMask, htarget])
    (by rw [count_tokenMask, hcount])⟩

/-- One modality, written over targets of the right size. -/
theorem putModality_ok {target : List Row × List (List Row)} {main : List Row}
    {deepstack : List (List Row)} {depth : ℕ} (hdepth : deepstack.length = depth)
    (hcount : inputIds.countP (· = tokenId) = main.length)
    (hlayers : ∀ layer ∈ deepstack, layer.length = main.length)
    (htarget : target.1.length = inputIds.length)
    (htargets : ∀ layer ∈ target.2, layer.length = inputIds.length) :
    putModality inputIds depth target (tokenId, main, deepstack) =
      .ok (maskedScatter target.1 (tokenMask inputIds tokenId) main,
        (target.2.zip deepstack).map fun layer =>
          maskedScatter layer.1 (tokenMask inputIds tokenId) layer.2) := by
  have hmap :
    (target.2.zip deepstack).mapM (fun layer => putRows inputIds tokenId layer.2 layer.1) =
      .ok ((target.2.zip deepstack).map fun layer =>
        maskedScatter layer.1 (tokenMask inputIds tokenId) layer.2) := by
    rw [mapM_ok, List.forall₂_map_right_iff, List.forall₂_same]
    rintro ⟨layer, value⟩ hmem
    obtain ⟨hlayer, hvalue⟩ := List.of_mem_zip hmem
    exact putRows_ok (hcount.trans (hlayers value hvalue).symm) (htargets layer hlayer)
  simp only [putModality, except_bind_ok, ensure_ok, except_pure_ok]
  exact ⟨(), hdepth, _, putRows_ok hcount htarget, _, hmap, rfl⟩

/-- A single modality keeps its rows as they are. -/
theorem joinOutputs_single {main : List Row} {deepstack : List (List Row)}
    (hcount : inputIds.countP (· = tokenId) = main.length)
    (hlayers : ∀ layer ∈ deepstack, layer.length = main.length) :
    m.joinOutputs inputIds [(tokenId, main, deepstack)] = .ok (main, deepstack) := by
  set visual := inputIds.filter fun token => decide (token = tokenId) with hvisual
  have hlength : visual.length = main.length := by rw [← hcount, List.countP_eq_length_filter]
  have hall : visual.countP (· = tokenId) = main.length := by
    rw [← hlength, List.countP_eq_length]
    exact fun token hmem => (List.mem_filter.mp hmem).2
  have hmask : ∀ b ∈ tokenMask visual tokenId, b = true := by
    intro b hmem
    obtain ⟨token, htoken, rfl⟩ := List.mem_map.mp hmem
    exact (List.mem_filter.mp htoken).2
  have hwhole : ∀ dst value : List Row, dst.length = visual.length → value.length = visual.length →
      maskedScatter dst (tokenMask visual tokenId) value = value := fun dst value hdst hvalue =>
    maskedScatter_all hmask (by simp [tokenMask, hdst]) (by simp [tokenMask, hvalue])
  set targets := (List.range deepstack.length).map fun layer =>
    (m.newEmpty (layer + 1) visual.length).val with htargets
  have htarget : ∀ layer ∈ targets, layer.length = visual.length := by
    intro layer hmem
    obtain ⟨index, -, rfl⟩ := List.mem_map.mp hmem
    exact (m.newEmpty (index + 1) visual.length).property
  have hrows := (m.newEmpty 0 visual.length).property
  have hput : putModality visual deepstack.length ((m.newEmpty 0 visual.length).val, targets)
      (tokenId, main, deepstack) = _ := putModality_ok rfl hall hlayers hrows htarget
  have hkeep : ((targets.zip deepstack).map fun layer =>
      maskedScatter layer.1 (tokenMask visual tokenId) layer.2) = deepstack := by
    have hsnd : ((targets.zip deepstack).map fun layer =>
        maskedScatter layer.1 (tokenMask visual tokenId) layer.2) =
          (targets.zip deepstack).map Prod.snd := by
      refine List.map_congr_left fun layer hmem => ?_
      obtain ⟨hlayer, hvalue⟩ := List.of_mem_zip hmem
      exact hwhole _ _ (htarget _ hlayer) ((hlayers _ hvalue).trans hlength.symm)
    rw [hsnd, List.map_snd_zip (by simp [htargets])]
  have hfilter : inputIds.filter (fun token => [(tokenId, main, deepstack)].any (·.1 = token)) =
      visual := by
    rw [hvisual]
    congr 1
    funext token
    simp [eq_comm]
  unfold joinOutputs
  rw [hfilter]
  simp only [List.head?_cons, Option.map_some, Option.getD_some, List.foldlM_cons, List.foldlM_nil,
    except_bind_ok]
  refine ⟨_, hput, ?_⟩
  rw [hkeep, hwhole _ _ (m.newEmpty 0 visual.length).property hlength.symm]
  rfl

/-- Two passes over layers, when the targets of the first do not matter. -/
theorem map_zip_zip {f g h : List Row → List Row → List Row}
    {targets layers layers' : List (List Row)} (hlength : targets.length = layers.length)
    (hsame : ∀ target ∈ targets, ∀ layer ∈ layers, ∀ layer' ∈ layers',
      g (f target layer) layer' = h layer layer') :
    ((((targets.zip layers).map fun x => f x.1 x.2).zip layers').map fun x => g x.1 x.2) =
      (layers.zip layers').map fun x => h x.1 x.2 := by
  induction layers generalizing targets layers' with
  | nil => simp
  | cons layer layers ih =>
    obtain ⟨target, targets, rfl⟩ := List.exists_cons_of_length_eq_add_one hlength
    cases layers' with
    | nil => simp
    | cons layer' layers' =>
      have hrest := @ih targets layers' (by simpa using hlength)
        fun t ht l hl l' hl' => hsame t (List.mem_cons_of_mem _ ht) l (List.mem_cons_of_mem _ hl) l'
          (List.mem_cons_of_mem _ hl')
      simp only [List.zip_cons_cons, List.map_cons, hrest]
      rw [hsame target List.mem_cons_self layer List.mem_cons_self layer' List.mem_cons_self]

theorem layersByModality_pair (layers layers' : List (List Row)) :
    layersByModality [layers, layers'] = (layers.zip layers').map fun x => [x.1, x.2] := by
  simp only [layersByModality]
  induction layers generalizing layers' with
  | nil => rfl
  | cons layer layers ih => cases layers' <;> simp [ih]

/-- Two modalities are joined to the rows that scatter to what two masks scatter. -/
theorem joinOutputs_pair {other : Token} (hne : tokenId ≠ other) {main main' : List Row}
    {deepstack deepstack' : List (List Row)} (hdepth : deepstack.length = deepstack'.length)
    (hcount : inputIds.countP (· = tokenId) = main.length)
    (hcount' : inputIds.countP (· = other) = main'.length)
    (hlayers : ∀ layer ∈ deepstack, layer.length = main.length)
    (hlayers' : ∀ layer ∈ deepstack', layer.length = main'.length) :
    ∃ joint layers,
      m.joinOutputs inputIds [(tokenId, main, deepstack), (other, main', deepstack')] =
        .ok (joint, layers) ∧
      joint.length =
        (inputIds.filter fun token => decide (token = tokenId) || decide (token = other)).length ∧
      (∀ layer ∈ layers, layer.length = joint.length) ∧ layers.length = deepstack.length ∧
      (∀ embeds : List Row, embeds.length = inputIds.length →
        maskedScatter embeds
          (maskOr (tokenMask inputIds tokenId) (tokenMask inputIds other)) joint =
          maskedScatter (maskedScatter embeds (tokenMask inputIds tokenId) main)
            (tokenMask inputIds other) main') ∧
      layers = (layersByModality [deepstack, deepstack']).map
        (m.joinLayer (maskOr (tokenMask inputIds tokenId) (tokenMask inputIds other))
          [tokenMask inputIds tokenId, tokenMask inputIds other]) := by
  set visual := inputIds.filter fun token => decide (token = tokenId) || decide (token = other)
    with hvisual
  have hcover : ∀ token ∈ visual, (decide (token = tokenId) || decide (token = other)) = true :=
    fun token hmem => (List.mem_filter.mp hmem).2
  have hdisjoint : ∀ token, decide (token = tokenId) = true → decide (token = other) = false := by
    intro token htoken
    rw [of_decide_eq_true htoken]
    exact decide_eq_false hne
  have hvcount : visual.countP (· = tokenId) = main.length := by
    rw [← hcount, hvisual, List.countP_filter]
    exact List.countP_congr fun token _ => by simp +contextual
  have hvcount' : visual.countP (· = other) = main'.length := by
    rw [← hcount', hvisual, List.countP_filter]
    exact List.countP_congr fun token _ => by simp +contextual
  have hfilter : inputIds.filter (fun token =>
      [(tokenId, main, deepstack), (other, main', deepstack')].any (·.1 = token)) = visual := by
    rw [hvisual]
    congr 1
    funext token
    simp [eq_comm]
  set targets := (List.range deepstack.length).map fun layer =>
    (m.newEmpty (layer + 1) visual.length).val with htargets
  have htarget : ∀ layer ∈ targets, layer.length = visual.length := by
    intro layer hmem
    obtain ⟨index, -, rfl⟩ := List.mem_map.mp hmem
    exact (m.newEmpty (index + 1) visual.length).property
  have hrows := (m.newEmpty 0 visual.length).property
  set rows := (m.newEmpty 0 visual.length).val with hrowsdef
  have hput : putModality visual deepstack.length (rows, targets) (tokenId, main, deepstack) = _ :=
    putModality_ok rfl hvcount hlayers hrows htarget
  set first := maskedScatter rows (tokenMask visual tokenId) main with hfirst
  set firsts := (targets.zip deepstack).map fun layer =>
    maskedScatter layer.1 (tokenMask visual tokenId) layer.2 with hfirsts
  have hput' : putModality visual deepstack.length (first, firsts) (other, main', deepstack') = _ :=
    putModality_ok hdepth.symm hvcount' hlayers' (by simp [hfirst, hrows]) (by
      intro layer hmem
      obtain ⟨pair, hpair, rfl⟩ := List.mem_map.mp hmem
      simp [htarget _ (List.of_mem_zip hpair).1])
  refine ⟨maskedScatter first (tokenMask visual other) main',
    (firsts.zip deepstack').map fun layer =>
    maskedScatter layer.1 (tokenMask visual other) layer.2, ?_, ?_, ?_, ?_, ?_, ?_⟩
  · unfold joinOutputs
    rw [hfilter]
    simp only [List.head?_cons, Option.map_some, Option.getD_some, List.foldlM_cons,
      List.foldlM_nil, except_bind_ok]
    exact ⟨_, hput, _, hput', rfl⟩
  · simp [hfirst, hrows]
  · intro layer hmem
    obtain ⟨pair, hpair, rfl⟩ := List.mem_map.mp hmem
    obtain ⟨pair', hpair', heq⟩ := List.mem_map.mp (List.of_mem_zip hpair).1
    rw [length_maskedScatter, ← heq, length_maskedScatter, htarget _ (List.of_mem_zip hpair').1]
    simp [hfirst, hrows]
  · simp [hfirsts, htargets, hdepth]
  · intro embeds hembeds
    rw [maskOr_tokenMask]
    exact maskedScatter_joint _ _ hdisjoint hembeds hrows hcount hcount'
  · rw [layersByModality_pair, List.map_map]
    have hjoined : ∀ target ∈ targets, ∀ layer ∈ deepstack, ∀ layer' ∈ deepstack',
        maskedScatter (maskedScatter target (tokenMask visual tokenId) layer)
          (tokenMask visual other) layer' =
        m.joinLayer (maskOr (tokenMask inputIds tokenId) (tokenMask inputIds other))
          [tokenMask inputIds tokenId, tokenMask inputIds other] [layer, layer'] := by
      intro target htarget' layer hlayer layer' hlayer'
      simp only [joinLayer, List.zip_cons_cons, List.zip_nil_left, List.foldl_cons, List.foldl_nil]
      rw [maskOr_tokenMask, tokenMask, tokenMask, tokenMask, tokenMask, select_map, select_map]
      refine maskedScatter_cover _ _ hcover hdisjoint (htarget _ htarget') ?_
        (hvcount.trans (hlayers _ hlayer).symm) (hvcount'.trans (hlayers' _ hlayer').symm)
      rw [List.length_replicate, count_map_true, List.countP_eq_length_filter]
    exact map_zip_zip (f := fun target layer =>
      maskedScatter target (tokenMask visual tokenId) layer)
      (g := fun target layer => maskedScatter target (tokenMask visual other) layer)
      (h := fun layer layer' => m.joinLayer _ _ [layer, layer']) (by simp [htargets]) hjoined

theorem count_maskOr {other : Token} (hne : tokenId ≠ other) :
    (maskOr (tokenMask inputIds tokenId) (tokenMask inputIds other)).count true =
      inputIds.countP (· = tokenId) + inputIds.countP (· = other) := by
  rw [maskOr_tokenMask, count_map_true]
  induction inputIds with
  | nil => rfl
  | cons token inputIds ih =>
    simp only [List.countP_cons, ih]
    by_cases htoken : token = tokenId
    · simp [htoken, hne]
      omega
    · by_cases hother : token = other
      · simp [hother, hne.symm]
        omega
      · simp [htoken, hother]

theorem maskOr_left {other : Token} (hout : other ∉ inputIds) :
    maskOr (tokenMask inputIds tokenId) (tokenMask inputIds other) =
    tokenMask inputIds tokenId := by
  rw [maskOr_tokenMask]
  refine List.map_congr_left fun token hmem => ?_
  simp [show token ≠ other from fun h => hout (h ▸ hmem)]

theorem maskOr_right {other : Token} (hout : other ∉ inputIds) :
    maskOr (tokenMask inputIds other) (tokenMask inputIds tokenId) =
    tokenMask inputIds tokenId := by
  rw [maskOr_tokenMask]
  refine List.map_congr_left fun token hmem => ?_
  simp [show token ≠ other from fun h => hout (h ▸ hmem)]

/-- `prepare_language_inputs` on precomputed rows. -/
theorem prepare_precomputed {joint : List Row} {layers : List (List Row)}
    {prepared : LanguageInputs Row} :
    m.prepareLanguageInputs ⟨inputIds, none, none, some joint, layers⟩ = .ok prepared ↔
      (maskOr (tokenMask inputIds m.imageTokenId) (tokenMask inputIds m.videoTokenId)).count true =
          joint.length ∧
        (layers ≠ [] ∧ ∀ layer ∈ layers, layer.length = joint.length) ∧
        (⟨maskedScatter (inputIds.map m.languageModel.embedTokens)
            (maskOr (tokenMask inputIds m.imageTokenId) (tokenMask inputIds m.videoTokenId)) joint,
          some (maskOr (tokenMask inputIds m.imageTokenId) (tokenMask inputIds m.videoTokenId)),
          some layers⟩ : LanguageInputs Row) = prepared := by
  simp only [prepareLanguageInputs, injectModality, except_bind_ok, ensure_ok, except_pure_ok]
  constructor
  · rintro ⟨_, -, s, hs, t, ht, _, hcount, _, hlayers, rfl⟩
    cases hs
    cases ht
    exact ⟨hcount, hlayers, rfl⟩
  · rintro ⟨hcount, hlayers, rfl⟩
    exact ⟨(), by simp, _, rfl, _, rfl, (), hcount, (), hlayers, rfl⟩

/-- The branch of a modality whose payload fits. -/
theorem injectModality_ok {s s' : Injected Row}
    (hfits : input.Fits m.visionEncoderMicrobatchPatches)
    (h : m.injectModality inputIds tokenId (some input) s = .ok s') :
    framesOf input.gridThw ≠ [] ∧ inputIds.countP (· = tokenId) = (mainOf features input).length ∧
      s' = ⟨maskedScatter s.embeds (tokenMask inputIds tokenId) (mainOf features input),
        s.masks ++ [tokenMask inputIds tokenId], s.deepstack ++ [deepstackOf features input]⟩ := by
  simp only [injectModality, except_bind_ok, ensure_ok, except_pure_ok] at h
  obtain ⟨output, hencode, _, hcount, rfl⟩ := h
  have hframes := framesOf_of_encodeVisualPayload hfits hencode
  rw [encodeVisualPayload_eq features hfits hframes] at hencode
  obtain rfl := Except.ok.inj hencode
  rw [count_tokenMask] at hcount
  exact ⟨hframes, hcount, rfl⟩

/-! ### Payloads of a batch -/

variable {inputs : ModelInputs Token Patch Row} {prepared : LanguageInputs Row}
variable {pls : List (CooperativeVisionPayload Token Patch Hidden Row)}

/-- The payloads of a batch, with their placeholders. -/
def modalities (m : Qwen3VL Token Patch Hidden Pos Row Sampled)
    (inputs : ModelInputs Token Patch Row) :
    List (Token × VisualInput Patch) :=
  (inputs.image.map (m.imageTokenId, ·)).toList ++ (inputs.video.map (m.videoTokenId, ·)).toList

/-- A payload with all its features. -/
structure Final (modality : Token × VisualInput Patch)
    (payload : CooperativeVisionPayload Token Patch Hidden Row) : Prop where
  payload_eq : (payload.tokenId, payload.input) = modality
  cat : payload.parts.cat = (mainOf features modality.2, deepstackOf features modality.2)
  output : payload.output =
    .ok (modality.1, mainOf features modality.2, deepstackOf features modality.2)

theorem input_of_final {modality : Token × VisualInput Patch}
    {payload : CooperativeVisionPayload Token Patch Hidden Row}
    (h : Final features modality payload) :
    payload.input = modality.2 := congrArg Prod.snd h.payload_eq

theorem modalities_of_final {modalities : List (Token × VisualInput Patch)}
    (hfinal : List.Forall₂ (Final features) modalities pls) :
    (pls.map fun payload => (payload.tokenId, payload.input)) = modalities := by
  induction hfinal with
  | nil => rfl
  | cons h _ ih => rw [List.map_cons, ih, h.payload_eq]

theorem buildPayload_ok (tokenId : Token) (input : Option (VisualInput Patch))
    (hfits : ∀ i, input = some i → i.Fits m.visionEncoderMicrobatchPatches ∧
      framesOf i.gridThw ≠ []) :
    ∃ starts finals, m.buildPayload tokenId input = .ok starts ∧
      List.Forall₂ (fun start final => m.Ready start ∧ m.completePayload start = .ok final) starts
        finals ∧
      List.Forall₂ (Final features) (input.map (tokenId, ·)).toList finals := by
  cases input with
  | none => exact ⟨[], [], rfl, .nil, .nil⟩
  | some input =>
    obtain ⟨hfit, hframes⟩ := hfits input rfl
    obtain ⟨plans, hplan, hne, hrun, hcat⟩ := planPayload_ok features hfit hframes
    have hlength : 0 < plans.length := List.length_pos_iff.mpr hne
    refine ⟨[⟨tokenId, input, plans, 0, none, ⟨[], none⟩⟩],
      [⟨tokenId, input, plans, plans.length, none, partsOf features input plans⟩], ?_,
      .cons ⟨⟨hlength, fun _ h => nomatch h⟩, ?_⟩ .nil, .cons ⟨rfl, hcat, ?_⟩ .nil⟩
    · simp only [buildPayload, except_bind_ok, except_pure_ok]
      exact ⟨plans, hplan, rfl⟩
    · simp only [completePayload, remainingParts, except_bind_ok, except_pure_ok, List.drop_zero]
      exact ⟨_, hrun, rfl⟩
    · simp only [CooperativeVisionPayload.output, except_bind_ok, ensure_ok, except_pure_ok, hcat]
      exact ⟨(), ⟨trivial, by simpa [partsOf] using hne, by simp [partsOf, hne]⟩, trivial⟩

/-- Planning a batch: its payloads, with what they will come to. -/
theorem beginPrefillPlan_cases
    (hfits : ∀ modality ∈ m.modalities inputs, modality.2.Fits m.visionEncoderMicrobatchPatches ∧
      framesOf modality.2.gridThw ≠ []) :
    ∃ pls, List.Forall₂ (Final features) (m.modalities inputs) pls ∧
      ((∃ p, m.beginPrefillPlan inputs = .ok p ∧ m.Tracks inputs pls p) ∨
        ∃ e, m.beginPrefillPlan inputs = .error e ∧
          m.pendingLanguageInputs inputs pls = .error e) := by
  obtain ⟨starts, finals, hbuild, hrun, hfinal⟩ := buildPayload_ok features
    m.imageTokenId inputs.image fun i hi => hfits (m.imageTokenId, i)
      (by simp [modalities, hi])
  obtain ⟨starts', finals', hbuild', hrun', hfinal'⟩ := buildPayload_ok features
    m.videoTokenId inputs.video fun i hi => hfits (m.videoTokenId, i)
      (by simp [modalities, hi])
  have hpayloads : m.buildCooperativeVisionPayloads inputs = .ok (starts ++ starts') := by
    simp only [buildCooperativeVisionPayloads, except_bind_ok, except_pure_ok]
    exact ⟨starts, hbuild, starts', hbuild', rfl⟩
  refine ⟨finals ++ finals', List.rel_append hfinal hfinal', ?_⟩
  have hall : List.Forall₂ (fun start final => m.Ready start ∧ m.completePayload start = .ok final)
      (starts ++ starts') (finals ++ finals') := List.rel_append hrun hrun'
  generalize starts ++ starts' = all at hpayloads hall
  generalize finals ++ finals' = pls at hall ⊢
  cases hall with
  | nil =>
    rcases m.beginPendingLanguageForward_cases ⟨inputs, none, [], 0, none, none⟩ with
      ⟨e, hbegin, hpending⟩ | ⟨prepared, hpending, hbegin⟩
    · refine .inr ⟨e, ?_, hpending⟩
      simp [beginPrefillPlan, hpayloads, hbegin, bind, Except.bind]
    · refine .inl ⟨_, ?_, .begun (p := ⟨inputs, none, [], 0, none, none⟩) rfl rfl rfl hpending⟩
      simp [beginPrefillPlan, hpayloads, hbegin, bind, Except.bind]
  | @cons start final rest finals hhead htail =>
    refine .inl ⟨⟨inputs, none, start :: rest, 0, none, none⟩, ?_, ?_⟩
    · simp [beginPrefillPlan, hpayloads, bind, Except.bind, pure, Except.pure]
    · have hfront : start :: rest = [] ++ start :: rest := rfl
      exact .vision rfl rfl rfl rfl hfront (List.nil_append _).symm rfl hhead.1 hhead.2 htail

/-- Completed payloads hand over the features of their modalities. -/
theorem outputs_final (hfinal : List.Forall₂ (Final features) (m.modalities inputs) pls) :
    pls.mapM CooperativeVisionPayload.output = .ok ((m.modalities inputs).map fun modality =>
      (modality.1, mainOf features modality.2, deepstackOf features modality.2)) := by
  rw [mapM_ok, List.forall₂_map_right_iff]
  exact hfinal.flip.imp fun _ _ h => h.output

/-- The condition under which the cooperative path can join what the batch holds. -/
def Joins (m : Qwen3VL Token Patch Hidden Pos Row Sampled) (features : FrameFeatures m.visual)
    (inputs : ModelInputs Token Patch Row) : Prop :=
  m.modalities inputs = [] ∨
    features.depth ≠ 0 ∧ (inputs.image = none → m.imageTokenId ∉ inputs.inputIds) ∧
      (inputs.video = none → m.videoTokenId ∉ inputs.inputIds)

theorem deepstackOf_ne_nil (input : VisualInput Patch) :
    deepstackOf features input ≠ [] ↔ features.depth ≠ 0 := by
  simp [deepstackOf]

section OneShot

variable {visualEmbeds : Option (List Row)} {deepstackVisualEmbeds : List (List Row)}
variable {image video : VisualInput Patch}

/-- `prepare_language_inputs` on images only. -/
theorem prepare_image (hfits : image.Fits m.visionEncoderMicrobatchPatches)
    (h : m.prepareLanguageInputs ⟨inputIds, some image, none, visualEmbeds, deepstackVisualEmbeds⟩ =
      .ok prepared) :
    visualEmbeds = none ∧ inputIds.countP (· = m.imageTokenId) = (mainOf features image).length ∧
      prepared = ⟨maskedScatter (inputIds.map m.languageModel.embedTokens)
        (tokenMask inputIds m.imageTokenId) (mainOf features image),
        some (tokenMask inputIds m.imageTokenId), some (deepstackOf features image)⟩ := by
  simp only [prepareLanguageInputs, except_bind_ok, ensure_ok] at h
  obtain ⟨_, hraw, s, hs, t, ht, hrest⟩ := h
  obtain rfl : visualEmbeds = none := by simpa using hraw
  obtain ⟨-, hcount, rfl⟩ := injectModality_ok features hfits hs
  obtain rfl := Except.ok.inj ht
  exact ⟨rfl, hcount, (Except.ok.inj hrest).symm⟩

/-- `prepare_language_inputs` on videos only. -/
theorem prepare_video (hfits : video.Fits m.visionEncoderMicrobatchPatches)
    (h : m.prepareLanguageInputs ⟨inputIds, none, some video, visualEmbeds, deepstackVisualEmbeds⟩ =
      .ok prepared) :
    visualEmbeds = none ∧ inputIds.countP (· = m.videoTokenId) = (mainOf features video).length ∧
      prepared = ⟨maskedScatter (inputIds.map m.languageModel.embedTokens)
        (tokenMask inputIds m.videoTokenId) (mainOf features video),
        some (tokenMask inputIds m.videoTokenId), some (deepstackOf features video)⟩ := by
  simp only [prepareLanguageInputs, except_bind_ok, ensure_ok] at h
  obtain ⟨_, hraw, s, hs, t, ht, hrest⟩ := h
  obtain rfl : visualEmbeds = none := by simpa using hraw
  obtain rfl := Except.ok.inj hs
  obtain ⟨-, hcount, rfl⟩ := injectModality_ok features hfits ht
  exact ⟨rfl, hcount, (Except.ok.inj hrest).symm⟩

/-- `prepare_language_inputs` on images and videos. -/
theorem prepare_both (hfits : image.Fits m.visionEncoderMicrobatchPatches)
    (hfits' : video.Fits m.visionEncoderMicrobatchPatches)
    (h : m.prepareLanguageInputs
      ⟨inputIds, some image, some video, visualEmbeds, deepstackVisualEmbeds⟩ = .ok prepared) :
    visualEmbeds = none ∧ inputIds.countP (· = m.imageTokenId) = (mainOf features image).length ∧
      inputIds.countP (· = m.videoTokenId) = (mainOf features video).length ∧
      prepared = ⟨maskedScatter (maskedScatter (inputIds.map m.languageModel.embedTokens)
          (tokenMask inputIds m.imageTokenId) (mainOf features image))
          (tokenMask inputIds m.videoTokenId) (mainOf features video),
        some (maskOr (tokenMask inputIds m.imageTokenId) (tokenMask inputIds m.videoTokenId)),
        some ((layersByModality [deepstackOf features image, deepstackOf features video]).map
          (m.joinLayer
            (maskOr (tokenMask inputIds m.imageTokenId) (tokenMask inputIds m.videoTokenId))
            [tokenMask inputIds m.imageTokenId, tokenMask inputIds m.videoTokenId]))⟩ := by
  simp only [prepareLanguageInputs, except_bind_ok, ensure_ok] at h
  obtain ⟨_, hraw, s, hs, t, ht, hrest⟩ := h
  obtain rfl : visualEmbeds = none := by simpa using hraw
  obtain ⟨-, hcount, rfl⟩ := injectModality_ok features hfits hs
  obtain ⟨-, hcount', rfl⟩ := injectModality_ok features hfits' ht
  exact ⟨rfl, hcount, hcount', (Except.ok.inj hrest).symm⟩

end OneShot

/-- The cooperative path on payloads whose features are joined. -/
theorem pendingLanguageInputs_joined {joint : List Row} {layers : List (List Row)}
    {outputs : List (Token × List Row × List (List Row))} (hne : pls ≠ [])
    (hraw : inputs.visualEmbeds = none)
    (houtputs : pls.mapM CooperativeVisionPayload.output = .ok outputs)
    (hjoin : m.joinOutputs inputs.inputIds outputs = .ok (joint, layers)) :
    m.pendingLanguageInputs inputs pls =
      m.prepareLanguageInputs ⟨inputs.inputIds, none, none, some joint, layers⟩ := by
  obtain ⟨payload, payloads, rfl⟩ := List.exists_cons_of_ne_nil hne
  simp only [pendingLanguageInputs, hraw, houtputs, hjoin, ensure, bind, Except.bind,
    Option.isNone_none, if_true]

theorem countP_eq_zero_iff (inputIds : List Token) (token : Token) :
    inputIds.countP (· = token) = 0 ↔ token ∉ inputIds := by
  rw [List.countP_eq_zero]
  exact ⟨fun h hmem => h token hmem (decide_eq_true rfl),
    fun h other hother heq => h (of_decide_eq_true heq ▸ hother)⟩

/-- One modality: the rows fit unless the other one has placeholders. -/
theorem prepare_single_iff {visible hidden : Token}
    (hpair : visible = m.imageTokenId ∧ hidden = m.videoTokenId ∨
      visible = m.videoTokenId ∧ hidden = m.imageTokenId)
    (hcount : inputIds.countP (· = visible) = (mainOf features input).length) :
    m.prepareLanguageInputs ⟨inputIds, none, none, some (mainOf features input),
        deepstackOf features input⟩ =
      .ok ⟨maskedScatter (inputIds.map m.languageModel.embedTokens) (tokenMask inputIds visible)
        (mainOf features input), some (tokenMask inputIds visible),
        some (deepstackOf features input)⟩ ↔
      features.depth ≠ 0 ∧ hidden ∉ inputIds := by
  have hmask : hidden ∉ inputIds →
      maskOr (tokenMask inputIds m.imageTokenId) (tokenMask inputIds m.videoTokenId) =
        tokenMask inputIds visible := by
    rcases hpair with ⟨rfl, rfl⟩ | ⟨rfl, rfl⟩
    · exact maskOr_left
    · exact maskOr_right
  have htotal : inputIds.countP (· = m.imageTokenId) + inputIds.countP (· = m.videoTokenId) =
      (mainOf features input).length + inputIds.countP (· = hidden) := by
    rcases hpair with ⟨rfl, rfl⟩ | ⟨rfl, rfl⟩ <;> omega
  have hlayers :
      ∀ layer ∈ deepstackOf features input, layer.length = (mainOf features input).length :=
    fun _ => length_deepstackOf features
  rw [prepare_precomputed, count_maskOr m.distinct, htotal, deepstackOf_ne_nil,
    ← countP_eq_zero_iff inputIds hidden]
  constructor
  · rintro ⟨hrows, ⟨hdepth, -⟩, -⟩
    exact ⟨hdepth, by omega⟩
  · rintro ⟨hdepth, hout⟩
    refine ⟨by omega, ⟨hdepth, hlayers⟩, ?_⟩
    rw [hmask ((countP_eq_zero_iff inputIds hidden).mp hout)]

theorem pendingLanguageInputs_ok_iff
    (hfits : ∀ modality ∈ m.modalities inputs, modality.2.Fits m.visionEncoderMicrobatchPatches)
    (hprepare : m.prepareLanguageInputs inputs = .ok prepared)
    (hfinal : List.Forall₂ (Final features) (m.modalities inputs) pls) :
    m.pendingLanguageInputs inputs pls = .ok prepared ↔ m.Joins features inputs := by
  obtain ⟨inputIds, image, video, visualEmbeds, deepstackVisualEmbeds⟩ := inputs
  have houtputs := outputs_final features hfinal
  have hlayers : ∀ input : VisualInput Patch, ∀ layer ∈ deepstackOf features input,
      layer.length = (mainOf features input).length :=
        fun input layer => length_deepstackOf features
  have hne : m.modalities ⟨inputIds, image, video, visualEmbeds, deepstackVisualEmbeds⟩ ≠ [] →
      pls ≠ [] := by
    rintro hmodalities rfl
    exact hmodalities (List.forall₂_nil_right_iff.mp hfinal)
  cases image with
  | none =>
    cases video with
    | none =>
      obtain rfl := List.forall₂_nil_left_iff.mp hfinal
      exact iff_of_true hprepare (.inl rfl)
    | some video =>
      have hfit : video.Fits m.visionEncoderMicrobatchPatches :=
        hfits (m.videoTokenId, video) (by simp [modalities])
      obtain ⟨rfl, hcount, rfl⟩ := prepare_video features hfit hprepare
      have houtputs : pls.mapM CooperativeVisionPayload.output =
          .ok [(m.videoTokenId, mainOf features video, deepstackOf features video)] := houtputs
      rw [pendingLanguageInputs_joined (hne (by simp [modalities])) rfl houtputs
        (joinOutputs_single hcount (hlayers video)),
        prepare_single_iff features (.inr ⟨rfl, rfl⟩) hcount]
      simp [Joins, modalities]
  | some image =>
    cases video with
    | none =>
      have hfit : image.Fits m.visionEncoderMicrobatchPatches :=
        hfits (m.imageTokenId, image) (by simp [modalities])
      obtain ⟨rfl, hcount, rfl⟩ := prepare_image features hfit hprepare
      have houtputs : pls.mapM CooperativeVisionPayload.output =
          .ok [(m.imageTokenId, mainOf features image, deepstackOf features image)] := houtputs
      rw [pendingLanguageInputs_joined (hne (by simp [modalities])) rfl houtputs
        (joinOutputs_single hcount (hlayers image)),
        prepare_single_iff features (.inl ⟨rfl, rfl⟩) hcount]
      simp [Joins, modalities]
    | some video =>
      have hfit : image.Fits m.visionEncoderMicrobatchPatches :=
        hfits (m.imageTokenId, image) (by simp [modalities])
      have hfit' : video.Fits m.visionEncoderMicrobatchPatches :=
        hfits (m.videoTokenId, video) (by simp [modalities])
      obtain ⟨rfl, hcount, hcount', rfl⟩ := prepare_both features hfit hfit' hprepare
      have houtputs : pls.mapM CooperativeVisionPayload.output =
          .ok [(m.imageTokenId, mainOf features image, deepstackOf features image),
            (m.videoTokenId, mainOf features video, deepstackOf features video)] := houtputs
      obtain ⟨joint, layers, hjoin, hlength, hrows, hdepth, hscatter, hjoined⟩ :=
        joinOutputs_pair (m := m) m.distinct (by simp [deepstackOf]) hcount hcount' (hlayers image)
          (hlayers video)
      have hmask : inputIds.countP (· = m.imageTokenId) + inputIds.countP (· = m.videoTokenId) =
          joint.length := by
        rw [← count_maskOr m.distinct, hlength, maskOr_tokenMask, count_map_true,
          List.countP_eq_length_filter]
      have hpls : pls ≠ [] := hne (List.cons_ne_nil _ _)
      have hpending : m.pendingLanguageInputs
          ⟨inputIds, some image, some video, none, deepstackVisualEmbeds⟩ pls =
            m.prepareLanguageInputs ⟨inputIds, none, none, some joint, layers⟩ :=
        pendingLanguageInputs_joined hpls rfl houtputs hjoin
      rw [hpending, prepare_precomputed, count_maskOr m.distinct, hmask,
        hscatter (inputIds.map m.languageModel.embedTokens) (List.length_map _), ← hjoined]
      have hnil : layers ≠ [] ↔ features.depth ≠ 0 := by
        rw [← deepstackOf_ne_nil features image, ne_eq, ne_eq,
          ← List.length_eq_zero_iff, hdepth, List.length_eq_zero_iff]
      simp only [Joins, modalities, hnil]
      simpa using fun _ => hrows

theorem framesOf_of_injectModality {s s' : Injected Row}
    (hfits : input.Fits m.visionEncoderMicrobatchPatches)
    (h : m.injectModality inputIds tokenId (some input) s = .ok s') :
    framesOf input.gridThw ≠ [] := by
  simp only [injectModality, except_bind_ok] at h
  obtain ⟨output, hencode, -⟩ := h
  exact framesOf_of_encodeVisualPayload hfits hencode

theorem exists_mem_of_forall₂ {α β : Type} {r : α → β → Prop} {as : List α} {bs : List β}
    (h : List.Forall₂ r as bs) {b : β} (hmem : b ∈ bs) : ∃ a ∈ as, r a b := by
  induction h with
  | nil => cases hmem
  | cons hhead _ ih =>
    rcases List.mem_cons.mp hmem with rfl | htail
    · exact ⟨_, List.mem_cons_self, hhead⟩
    · obtain ⟨a, ha, hr⟩ := ih htail
      exact ⟨a, List.mem_cons_of_mem _ ha, hr⟩

/-- Every placeholder kind of a prefill that succeeds has a payload with a frame. -/
theorem framesOf_of_prepare
    (hfits : ∀ modality ∈ m.modalities inputs, modality.2.Fits m.visionEncoderMicrobatchPatches)
    (hprepare : m.prepareLanguageInputs inputs = .ok prepared) :
    ∀ modality ∈ m.modalities inputs, framesOf modality.2.gridThw ≠ [] := by
  obtain ⟨inputIds, image, video, visualEmbeds, deepstackVisualEmbeds⟩ := inputs
  simp only [prepareLanguageInputs, except_bind_ok, ensure_ok] at hprepare
  obtain ⟨_, -, s, hs, t, ht, -⟩ := hprepare
  intro modality hmem
  rcases List.mem_append.mp hmem with himage | hvideo
  · cases image with
    | none => cases himage
    | some image =>
      obtain rfl := List.mem_singleton.mp himage
      exact framesOf_of_injectModality (hfits (m.imageTokenId, image) hmem) hs
  · cases video with
    | none => cases hvideo
    | some video =>
      obtain rfl := List.mem_singleton.mp hvideo
      exact framesOf_of_injectModality (hfits (m.videoTokenId, video) hmem) ht

/-- The cooperative prefill, run with these quanta, ends with this outcome. -/
def Reaches (m : Qwen3VL Token Patch Hidden Pos Row Sampled) (inputs : ModelInputs Token Patch Row)
    (quanta : List (ℕ × ℕ)) (outcome : LanguageInputs Row × Sampled) : Prop :=
  ∃ begun advanced finished fuel, m.beginPrefillPlan inputs = .ok begun ∧
    m.advanceAll begun quanta = .ok advanced ∧ m.finishPrefillPlan fuel advanced = .ok finished ∧
    finished.prepared = some outcome.1 ∧ finished.sampledTokens = some outcome.2 ∧
    (finished.visionPayloads.map fun payload => (payload.tokenId, payload.input)) =
      m.modalities inputs ∧ ∀ payload ∈ finished.visionPayloads,
      m.encodeVisualPayload payload.input = .ok payload.parts.cat

/-- Whatever the quanta, the cooperative prefill ends as the uninterrupted one exactly when
it can join what the batch holds. -/
theorem reaches_iff
    (hfits : ∀ modality ∈ m.modalities inputs, modality.2.Fits m.visionEncoderMicrobatchPatches)
    {outcome : LanguageInputs Row × Sampled} (hprefill : m.prefill inputs = .ok outcome)
    {quanta : List (ℕ × ℕ)} (hquanta : ∀ quantum ∈ quanta, 0 < quantum.1 ∧ 0 < quantum.2) :
    m.Reaches inputs quanta outcome ↔ m.Joins features inputs := by
  simp only [prefill, except_bind_ok, except_pure_ok] at hprefill
  obtain ⟨prepared, hprepare, rfl⟩ := hprefill
  have hframes := framesOf_of_prepare hfits hprepare
  obtain ⟨pls, hfinal, hbegin⟩ := beginPrefillPlan_cases features
    fun modality hmem => ⟨hfits modality hmem, hframes modality hmem⟩
  rw [← pendingLanguageInputs_ok_iff features hfits hprepare hfinal]
  constructor
  · rintro ⟨begun, advanced, finished, fuel, hbegun, hadvanced, hfinished, hprepared, -, -, -⟩
    rcases hbegin with ⟨p, hp, htracks⟩ | ⟨e, he, -⟩
    · rw [hbegun] at hp
      obtain rfl := Except.ok.inj hp
      cases (htracks.advanceAll hquanta hadvanced).finish hfinished with
      | vision _ _ _ hnone =>
        rw [hnone] at hprepared
        cases hprepared
      | language _ hpending _ hprepared' _ _ _ _ =>
        rw [hprepared'] at hprepared
        obtain rfl := Option.some.inj hprepared
        exact hpending
    · rw [hbegun] at he
      cases he
  · intro hpending
    rcases hbegin with ⟨p, hp, htracks⟩ | ⟨e, -, he⟩
    · obtain ⟨advanced, hadvanced, htracks'⟩ := htracks.advanceAll_ok hquanta hpending
      obtain ⟨finished, hfinished, hdone, hsome⟩ := htracks'.finish_ok hpending le_rfl
      cases hdone with
      | vision _ _ hnone => simp [hnone] at hsome
      | language _ hpending' hpayloads hprepared' _ _ _ hsampled =>
        rw [hpending] at hpending'
        obtain rfl := Except.ok.inj hpending'
        refine ⟨p, advanced, finished, _, hp, hadvanced, hfinished, hprepared',
          hsampled.resolve_left fun hnone => by simp [hnone] at hsome,
          hpayloads ▸ modalities_of_final features hfinal, ?_⟩
        intro payload hmem
        rw [hpayloads] at hmem
        obtain ⟨modality, hmodality, hpayload⟩ := exists_mem_of_forall₂ hfinal hmem
        rw [input_of_final features hpayload, hpayload.cat]
        exact encodeVisualPayload_eq features (hfits modality hmodality)
          (hframes modality hmodality)
    · rw [hpending] at he
      cases he

/-- Microbatches partition the frames of a payload, and the cooperative path of a batch ends
as the uninterrupted one exactly when it can join what the batch holds. -/
theorem cooperative_iff_joins {Token Patch Hidden Pos Row Sampled : Type} [DecidableEq Token]
    (m : Qwen3VL Token Patch Hidden Pos Row Sampled) (features : FrameFeatures m.visual) :
    (∀ (grid : List GridRow) (patchLimit : ℕ), (∀ row ∈ grid, row.Positive) →
      (∀ row ∈ grid, row.framePatches ≤ patchLimit) →
      ∃ plans, planVisualMicrobatches grid patchLimit = .ok plans ∧
        Partitions grid patchLimit plans) ∧
    ∀ (inputs : ModelInputs Token Patch Row) (outcome : LanguageInputs Row × Sampled)
      (quanta : List (ℕ × ℕ)),
      (∀ modality ∈ m.modalities inputs, modality.2.Fits m.visionEncoderMicrobatchPatches) →
      m.prefill inputs = .ok outcome →
      (∀ quantum ∈ quanta, 0 < quantum.1 ∧ 0 < quantum.2) →
      (m.Reaches inputs quanta outcome ↔ m.Joins features inputs) :=
  ⟨fun _ _ => planVisualMicrobatches_ok,
    fun _ _ _ hfits hprefill hquanta => reaches_iff features hfits hprefill hquanta⟩

end Qwen3VL

/-! ### A small model -/

theorem perFrame_map {Patch Row : Type} (f : Patch → Row) (patches : List Patch)
    (sizes : List (ℕ × ℕ)) :
    perFrame (fun patches _ => patches.map f) patches sizes =
      (patches.take (frameTotal sizes)).map f := by
  induction sizes generalizing patches with
  | nil => simp [perFrame, frameTotal]
  | cons size sizes ih =>
    have htotal : frameTotal (size :: sizes) = size.1 * size.2 + frameTotal sizes := by
      simp [frameTotal]
    rw [perFrame, ih, htotal, List.take_add, List.map_append]

/-- Two blocks, with a DeepStack feature behind the first. -/
def additiveEncoder : VisionEncoder ℕ (List ℕ) ℕ where
  prepareTensorRegionInputs patches _ := patches
  blocks := [List.map (· + 1), List.map (· * 2)]
  merger hidden := hidden
  deepstack := [(0, fun hidden => hidden)]

def additiveFeatures : FrameFeatures additiveEncoder where
  depth := 1
  main patches _ := patches.map fun patch => (patch + 1) * 2
  deepstack _ patches _ := patches.map (· + 1)
  rows _ _ _ := by simp
  forward patches grid _ _ hcount := by
    rw [perFrame_map, frameTotal_framesOf, ← hcount, List.take_length]
    simp only [perFrame_map, frameTotal_framesOf, ← hcount, List.take_length]
    simp [VisionEncoder.forwardTensorRegion, VisionEncoder.runBlock, additiveEncoder,
      List.range_succ]

/-- One decoder layer over the encoder; `1` and `2` are the image and video placeholders. -/
def additiveModel : Qwen3VL ℕ ℕ (List ℕ) Unit ℕ (List ℕ) where
  visual := additiveEncoder
  languageModel :=
    { embedTokens := fun token => 100 * token
      rotaryEmb := fun _ => ()
      layers := [⟨fun _ hidden => hidden.map (· + 7), fun _ _ hidden _ => (hidden, hidden)⟩]
      layers_ne := by simp
      addResidual := fun hidden _ => hidden
      deepstackProcess := fun hidden mask embeds =>
        MaskedScatter.maskedScatter hidden (mask.getD []) embeds
      norm := fun hidden => hidden
      fusedNorm := fun _ hidden _ => hidden
      fusedBase := fun _ => false
      contextIsPrefill := true }
  imageTokenId := 1
  videoTokenId := 2
  distinct := by decide
  visionEncoderMicrobatchPatches := 2
  newZero := 0
  newEmpty _ rows := ⟨List.replicate rows 0, List.length_replicate⟩
  sample hidden := hidden

/-- Two image frames, one for each encoder microbatch. -/
def twoFrames : VisualInput ℕ := ⟨[5, 6, 7, 8], [⟨2, 1, 2⟩]⟩

theorem twoFrames_fits : twoFrames.Fits additiveModel.visionEncoderMicrobatchPatches :=
  ⟨by decide, by decide, rfl⟩

/-- The prompt of an image request. -/
def imageBatch : ModelInputs ℕ ℕ ℕ := ⟨[9, 1, 1, 1, 1], some twoFrames, none, none, []⟩

/-- The same, with the prompt of a text request that spells the video placeholder. -/
def spelledBatch : ModelInputs ℕ ℕ ℕ := ⟨[9, 1, 1, 1, 1, 2], some twoFrames, none, none, []⟩

theorem cooperative_iff_joins_imageBatch :
    (∃ plans, planVisualMicrobatches twoFrames.gridThw 2 = .ok plans ∧
      Partitions twoFrames.gridThw 2 plans) ∧
    additiveModel.Reaches imageBatch [(1, 1), (1, 1)]
      (⟨[900, 12, 14, 16, 18], some [false, true, true, true, true], some [[6, 7, 8, 9]]⟩,
        [907, 6, 7, 8, 9]) := by
  have hpositive : ∀ row ∈ twoFrames.gridThw, row.Positive := by decide
  have hjoins := Qwen3VL.cooperative_iff_joins additiveModel additiveFeatures
  refine ⟨hjoins.1 _ 2 hpositive (by decide), ?_⟩
  refine (hjoins.2 imageBatch _ [(1, 1), (1, 1)] ?_ rfl (by decide)).mpr
    (.inr ⟨by decide, nofun, fun _ => by decide⟩)
  intro modality hmem
  obtain rfl := List.mem_singleton.mp hmem
  exact twoFrames_fits

/-- The uninterrupted prefill leaves the spelled placeholder a text token; the cooperative
one wants a row for it. -/
theorem spelledBatch_not_reached :
    additiveModel.prefill spelledBatch =
      .ok (⟨[900, 12, 14, 16, 18, 200], some [false, true, true, true, true, false],
        some [[6, 7, 8, 9]]⟩, [907, 6, 7, 8, 9, 207]) ∧
    (additiveModel.beginPrefillPlan spelledBatch >>= fun pending =>
      additiveModel.advanceAll pending [(1, 1), (1, 1), (1, 1), (1, 1)]) =
        .error (.precomputedRows 4 5) ∧
    ¬ additiveModel.Reaches spelledBatch [(1, 1), (1, 1), (1, 1), (1, 1)]
      (⟨[900, 12, 14, 16, 18, 200], some [false, true, true, true, true, false],
        some [[6, 7, 8, 9]]⟩, [907, 6, 7, 8, 9, 207]) := by
  have hraises : (additiveModel.beginPrefillPlan spelledBatch >>= fun pending =>
      additiveModel.advanceAll pending [(1, 1), (1, 1), (1, 1), (1, 1)]) =
        .error (.precomputedRows 4 5) := rfl
  refine ⟨rfl, hraises, ?_⟩
  rintro ⟨begun, advanced, -, -, hbegun, hadvanced, -⟩
  rw [hbegun] at hraises
  cases hadvanced.symm.trans hraises

end PrismInfer
