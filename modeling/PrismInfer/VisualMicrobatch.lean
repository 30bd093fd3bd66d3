import PrismInfer.Lib.StateExcept

/-!
# Vision microbatches

`_plan_visual_microbatches` cuts the frames of a visual payload into consecutive chunks of
at most `patch_limit` patches. A frame is one attention segment and is never cut.
-/
namespace PrismInfer

open StateExcept

/-- A row of `grid_thw`. -/
structure GridRow where
  temporal : ℕ
  height : ℕ
  width : ℕ
deriving DecidableEq, Repr

namespace GridRow

def framePatches (row : GridRow) : ℕ := row.height * row.width

def patches (row : GridRow) : ℕ := row.temporal * row.framePatches

/-- The frames of a row, by their size. -/
def frames (row : GridRow) : List (ℕ × ℕ) := List.replicate row.temporal (row.height, row.width)

def Positive (row : GridRow) : Prop := 0 < row.temporal ∧ 0 < row.height ∧ 0 < row.width

instance (row : GridRow) : Decidable row.Positive := inferInstanceAs (Decidable (_ ∧ _ ∧ _))

end GridRow

def patchCount (grid : List GridRow) : ℕ := (grid.map GridRow.patches).sum

def framesOf (grid : List GridRow) : List (ℕ × ℕ) := grid.flatMap GridRow.frames

@[simp] theorem patchCount_nil : patchCount [] = 0 := rfl

@[simp] theorem patchCount_append (left right : List GridRow) :
    patchCount (left ++ right) = patchCount left + patchCount right := by
  simp [patchCount]

@[simp] theorem patchCount_cons (row : GridRow) (grid : List GridRow) :
    patchCount (row :: grid) = row.patches + patchCount grid := by
  simp [patchCount]

@[simp] theorem framesOf_nil : framesOf [] = [] := rfl

@[simp] theorem framesOf_append (left right : List GridRow) :
    framesOf (left ++ right) = framesOf left ++ framesOf right := by
  simp [framesOf]

@[simp] theorem framesOf_cons (row : GridRow) (grid : List GridRow) :
    framesOf (row :: grid) = row.frames ++ framesOf grid := by
  simp [framesOf]

inductive VisionError
  | gridNotPositive (rows : List GridRow)
  | segmentExceedsLimit (patches limit : ℕ)
  | gridPayloadMismatch (grid payload : ℕ)
  | emptyGrid
  | visualTokenCount (tokens rows : ℕ)
  | precomputedWithRaw
  | precomputedRows (rows tokens : ℕ)
  | precomputedDeepstack
  | blocksNotPositive (maxBlocks : ℕ)
  | layersNotPositive (maxLayers : ℕ)
  | incompleteVision (nextBlock blocks : ℕ)
  | incompleteLanguage (nextLayer layers : ℕ)
  | inconsistentDeepstack
  | mixedRawAndCached
  | completedPayloadActive
  | languageBeforeVision
deriving DecidableEq, Repr

/-- A chunk of the payload, and the rows of `grid_thw` that describe it. -/
structure Microbatch where
  start : ℕ
  stop : ℕ
  rows : List GridRow
deriving DecidableEq, Repr

/-- The variables of `_plan_visual_microbatches`. -/
structure MicrobatchPlanner where
  plans : List Microbatch
  chunkRows : List GridRow
  chunkStart : ℕ
  chunkPatches : ℕ
  sourceOffset : ℕ

namespace MicrobatchPlanner

def initial : MicrobatchPlanner := ⟨[], [], 0, 0, 0⟩

def flush (s : MicrobatchPlanner) : MicrobatchPlanner :=
  if s.chunkRows = [] then s
  else
    { s with
      plans := s.plans ++ [⟨s.chunkStart, s.sourceOffset, s.chunkRows⟩]
      chunkRows := []
      chunkStart := s.sourceOffset
      chunkPatches := 0 }

/-- The rows that `take` frames of a row add to the chunk. -/
def takeFrames (s : MicrobatchPlanner) (row : GridRow) (take : ℕ) : MicrobatchPlanner :=
  { s with
    chunkRows := s.chunkRows ++ [{ row with temporal := take }]
    chunkPatches := s.chunkPatches + take * row.framePatches
    sourceOffset := s.sourceOffset + take * row.framePatches }

/-- Frames of the row that still fit into the chunk. -/
def frameCapacity (patchLimit : ℕ) (row : GridRow) (s : MicrobatchPlanner) : ℕ :=
  (patchLimit - s.chunkPatches) / row.framePatches

/-- The chunk the next frames go to. -/
def room (patchLimit : ℕ) (row : GridRow) (s : MicrobatchPlanner) : MicrobatchPlanner :=
  if s.frameCapacity patchLimit row = 0 then s.flush else s

/-- The `while remaining` loop. Every turn takes a frame, so `temporal` turns are enough. -/
def planRow (patchLimit : ℕ) (row : GridRow) : ℕ → ℕ → MicrobatchPlanner → MicrobatchPlanner
  | 0, _, s => s
  | fuel + 1, remaining, s =>
    if remaining = 0 then s
    else
      let s := s.room patchLimit row
      let take := min remaining (s.frameCapacity patchLimit row)
      let s := s.takeFrames row take
      planRow patchLimit row fuel (remaining - take)
        (if s.chunkPatches = patchLimit then s.flush else s)

/-- One row of the grid. -/
def step (grid : List GridRow) (patchLimit : ℕ) (s : MicrobatchPlanner) (row : GridRow) :
    Except VisionError MicrobatchPlanner := do
  ensure row.Positive (.gridNotPositive grid)
  ensure (row.framePatches ≤ patchLimit) (.segmentExceedsLimit row.framePatches patchLimit)
  return planRow patchLimit row row.temporal row.temporal s

end MicrobatchPlanner

/-- `_plan_visual_microbatches`. -/
def planVisualMicrobatches (grid : List GridRow) (patchLimit : ℕ) :
    Except VisionError (List Microbatch) := do
  let s ← grid.foldlM (MicrobatchPlanner.step grid patchLimit) MicrobatchPlanner.initial
  return s.flush.plans

/-- Consecutive chunks from `first` to `last`. -/
def Consecutive : ℕ → List Microbatch → ℕ → Prop
  | first, [], last => first = last
  | first, plan :: plans, last => plan.start = first ∧ Consecutive plan.stop plans last

theorem Consecutive.append {first mid last : ℕ} {left right : List Microbatch}
    (h : Consecutive first left mid) (h' : Consecutive mid right last) :
    Consecutive first (left ++ right) last := by
  induction left generalizing first with
  | nil => exact h ▸ h'
  | cons plan plans ih => exact ⟨h.1, ih h.2⟩

theorem Consecutive.le {first last : ℕ} {plans : List Microbatch} (h : Consecutive first plans last)
    (hsound : ∀ plan ∈ plans, plan.start ≤ plan.stop) : first ≤ last := by
  induction plans generalizing first with
  | nil => exact Nat.le_of_eq h
  | cons plan plans ih =>
    have hrest := ih h.2 fun other hmem => hsound other (List.mem_cons_of_mem _ hmem)
    have hplan := hsound plan List.mem_cons_self
    have hstart := h.1
    omega

theorem Consecutive.getLast? {first last : ℕ} {plans : List Microbatch}
    (h : Consecutive first plans last) : (plans.getLast?.map (·.stop)).getD first = last := by
  induction plans generalizing first with
  | nil => exact h
  | cons plan plans ih =>
    rw [List.getLast?_cons, ← ih h.2]
    cases plans.getLast? <;> rfl

theorem Consecutive.stop_le {first last : ℕ} {plans : List Microbatch} {plan : Microbatch}
    (h : Consecutive first plans last) (hsound : ∀ plan ∈ plans, plan.start ≤ plan.stop)
    (hmem : plan ∈ plans) : plan.stop ≤ last := by
  induction plans generalizing first with
  | nil => cases hmem
  | cons head plans ih =>
    have hrest : ∀ plan ∈ plans, plan.start ≤ plan.stop := fun other hother =>
      hsound other (List.mem_cons_of_mem _ hother)
    rcases List.mem_cons.mp hmem with rfl | htail
    · exact h.2.le hrest
    · exact ih h.2 hrest htail

/-- A chunk that fits the limit and whose rows describe it. -/
structure Microbatch.Sound (patchLimit : ℕ) (plan : Microbatch) : Prop where
  patches : plan.stop = plan.start + patchCount plan.rows
  nonempty : plan.start < plan.stop
  fits : plan.stop ≤ plan.start + patchLimit
  positive : ∀ row ∈ plan.rows, row.Positive

/-- The chunks cover the payload in order, without cutting a frame. -/
structure Partitions (grid : List GridRow) (patchLimit : ℕ) (plans : List Microbatch) : Prop where
  consecutive : Consecutive 0 plans (patchCount grid)
  sound : ∀ plan ∈ plans, plan.Sound patchLimit
  frames : plans.flatMap (framesOf ·.rows) = framesOf grid

/-- What the planner keeps: the frames `done` are planned or in the chunk. -/
structure PlannerInvariant (patchLimit : ℕ) (done : List GridRow) (s : MicrobatchPlanner) :
    Prop where
  consecutive : Consecutive 0 s.plans s.chunkStart
  sound : ∀ plan ∈ s.plans, plan.Sound patchLimit
  patches : s.chunkPatches = patchCount s.chunkRows
  offset : s.sourceOffset = s.chunkStart + s.chunkPatches
  total : s.sourceOffset = patchCount done
  fits : s.chunkPatches ≤ patchLimit
  positive : ∀ row ∈ s.chunkRows, row.Positive
  frames : s.plans.flatMap (framesOf ·.rows) ++ framesOf s.chunkRows = framesOf done

namespace PlannerInvariant

variable {patchLimit : ℕ} {done : List GridRow} {s : MicrobatchPlanner} {row : GridRow}

theorem patches_pos (h : row.Positive) : 0 < row.patches :=
  Nat.mul_pos h.1 (Nat.mul_pos h.2.1 h.2.2)

theorem initial : PlannerInvariant patchLimit [] MicrobatchPlanner.initial :=
  ⟨rfl, by simp [MicrobatchPlanner.initial], rfl, rfl, rfl, Nat.zero_le _,
    by simp [MicrobatchPlanner.initial], rfl⟩

theorem chunkPatches_pos (h : PlannerInvariant patchLimit done s) (hrows : s.chunkRows ≠ []) :
    0 < s.chunkPatches := by
  obtain ⟨row, rows, hcons⟩ := List.exists_cons_of_ne_nil hrows
  have hrow := patches_pos (h.positive row (by simp [hcons]))
  rw [h.patches, hcons, patchCount_cons]
  omega

theorem flush (h : PlannerInvariant patchLimit done s) :
    PlannerInvariant patchLimit done s.flush := by
  by_cases hrows : s.chunkRows = []
  · simpa [MicrobatchPlanner.flush, hrows] using h
  have hpos := h.chunkPatches_pos hrows
  have hoffset := h.offset
  have hfits := h.fits
  have hpatches := h.patches
  have hplan : Microbatch.Sound patchLimit ⟨s.chunkStart, s.sourceOffset, s.chunkRows⟩ :=
    ⟨by simp only; omega, by simp only; omega, by simp only; omega, h.positive⟩
  simp only [MicrobatchPlanner.flush, if_neg hrows]
  refine ⟨h.consecutive.append ⟨rfl, rfl⟩, fun plan hmem => ?_, rfl, rfl, h.total, Nat.zero_le _,
    by simp, by simpa using h.frames⟩
  rcases List.mem_append.mp hmem with hold | hlast
  · exact h.sound plan hold
  · obtain rfl := List.mem_singleton.mp hlast
    exact hplan

theorem flushIf (h : PlannerInvariant patchLimit done s) (full : Prop) [Decidable full] :
    PlannerInvariant patchLimit done (if full then s.flush else s) := by
  split
  · exact h.flush
  · exact h

@[simp] theorem flush_chunkPatches (hrows : s.chunkRows ≠ []) : s.flush.chunkPatches = 0 := by
  simp [MicrobatchPlanner.flush, hrows]

theorem room (h : PlannerInvariant patchLimit done s) :
    PlannerInvariant patchLimit done (s.room patchLimit row) := h.flushIf _

/-- After making room, at least one frame of the row fits. -/
theorem frameCapacity_pos (h : PlannerInvariant patchLimit done s) (hrow : row.Positive)
    (hframe : row.framePatches ≤ patchLimit) :
    0 < (s.room patchLimit row).frameCapacity patchLimit row := by
  have hpos : 0 < row.framePatches := Nat.mul_pos hrow.2.1 hrow.2.2
  by_cases hcapacity : s.frameCapacity patchLimit row = 0
  · have hrows : s.chunkRows ≠ [] := fun hnil => by
      have hzero : s.chunkPatches = 0 := by rw [h.patches, hnil, patchCount_nil]
      rw [MicrobatchPlanner.frameCapacity, hzero, Nat.sub_zero, Nat.div_eq_zero_iff] at hcapacity
      omega
    rw [MicrobatchPlanner.room, if_pos hcapacity, MicrobatchPlanner.frameCapacity,
      flush_chunkPatches hrows]
    exact Nat.div_pos hframe hpos
  · rw [MicrobatchPlanner.room, if_neg hcapacity]
    exact Nat.pos_of_ne_zero hcapacity

theorem takeFrames (h : PlannerInvariant patchLimit done s) {take : ℕ} (hrow : row.Positive)
    (htake : 0 < take) (hcapacity : take ≤ s.frameCapacity patchLimit row) :
    PlannerInvariant patchLimit (done ++ [{ row with temporal := take }])
    (s.takeFrames row take) := by
  have hpos : 0 < row.framePatches := Nat.mul_pos hrow.2.1 hrow.2.2
  have hroom : take * row.framePatches ≤ patchLimit - s.chunkPatches :=
    (Nat.le_div_iff_mul_le hpos).mp hcapacity
  have hadded : ({ row with temporal := take } : GridRow).patches = take * row.framePatches := rfl
  have hfits := h.fits
  have hoffset := h.offset
  have htotal := h.total
  have hpatches := h.patches
  refine ⟨h.consecutive, h.sound, ?_, ?_, ?_, ?_, fun other hmem => ?_, ?_⟩
  · simp only [MicrobatchPlanner.takeFrames, patchCount_append, patchCount_cons, patchCount_nil,
      hadded]
    omega
  · simp only [MicrobatchPlanner.takeFrames]
    omega
  · simp only [MicrobatchPlanner.takeFrames, patchCount_append, patchCount_cons, patchCount_nil,
      hadded]
    omega
  · simp only [MicrobatchPlanner.takeFrames]
    omega
  · rcases List.mem_append.mp hmem with hold | hlast
    · exact h.positive other hold
    · obtain rfl := List.mem_singleton.mp hlast
      exact ⟨htake, hrow.2⟩
  · simp only [MicrobatchPlanner.takeFrames, framesOf_append, ← List.append_assoc, h.frames]

/-- The invariant looks at the frames only, not at how rows group them. -/
theorem congr {done' : List GridRow} (h : PlannerInvariant patchLimit done s)
    (hcount : patchCount done' = patchCount done) (hframes : framesOf done' = framesOf done) :
    PlannerInvariant patchLimit done' s :=
  ⟨h.1, h.2, h.3, h.4, by rw [hcount, h.total], h.6, h.7, by rw [hframes, h.frames]⟩

theorem planRow (hrow : row.Positive) (hframe : row.framePatches ≤ patchLimit) {fuel remaining : ℕ}
    (hfuel : remaining ≤ fuel) (h : PlannerInvariant patchLimit done s) :
    PlannerInvariant patchLimit (done ++ [{ row with temporal := remaining }])
      (MicrobatchPlanner.planRow patchLimit row fuel remaining s) := by
  have hzero : ∀ {done s}, PlannerInvariant patchLimit done s →
      PlannerInvariant patchLimit (done ++ [{ row with temporal := 0 }]) s := fun h =>
    h.congr (by simp [GridRow.patches]) (by simp [GridRow.frames])
  induction fuel generalizing remaining done s with
  | zero =>
    obtain rfl : remaining = 0 := by omega
    exact hzero h
  | succ fuel ih =>
    rw [MicrobatchPlanner.planRow]
    by_cases hremaining : remaining = 0
    · rw [if_pos hremaining, hremaining]
      exact hzero h
    rw [if_neg hremaining]
    have hcapacity := h.frameCapacity_pos hrow hframe
    have hroom : PlannerInvariant patchLimit done (s.room patchLimit row) := h.room
    have htaken := hroom.takeFrames hrow
      (lt_min (Nat.pos_of_ne_zero hremaining) hcapacity) (min_le_right _ _)
    set take := min remaining ((s.room patchLimit row).frameCapacity patchLimit row) with htake
    have hle : take ≤ remaining := min_le_left _ _
    have hpos : 0 < take := lt_min (Nat.pos_of_ne_zero hremaining) hcapacity
    have hfuel' : remaining - take ≤ fuel := by omega
    have hnext := ih hfuel'
      (htaken.flushIf (((s.room patchLimit row).takeFrames row take).chunkPatches = patchLimit))
    refine hnext.congr ?_ ?_
    · have hsplit : remaining * row.framePatches =
          take * row.framePatches + (remaining - take) * row.framePatches := by
        rw [← Nat.add_mul, Nat.add_sub_cancel' hle]
      have hpatches : ∀ n, ({ row with temporal := n } : GridRow).patches = n * row.framePatches :=
        fun _ => rfl
      simp only [patchCount_append, patchCount_cons, patchCount_nil, hpatches]
      omega
    · simp only [framesOf_append, framesOf_cons, framesOf_nil, GridRow.frames, List.append_nil,
        List.append_assoc, ← List.replicate_add]
      rw [Nat.add_sub_cancel' hle]

end PlannerInvariant

/-- The chunks of a payload whose frames all fit the limit partition it. -/
theorem planVisualMicrobatches_ok {grid : List GridRow} {patchLimit : ℕ}
    (hpositive : ∀ row ∈ grid, row.Positive)
    (hframes : ∀ row ∈ grid, row.framePatches ≤ patchLimit) :
    ∃ plans, planVisualMicrobatches grid patchLimit = .ok plans ∧
    Partitions grid patchLimit plans := by
  have hloop : ∀ (rows done : List GridRow) s, (∀ row ∈ rows, row.Positive) →
      (∀ row ∈ rows, row.framePatches ≤ patchLimit) → PlannerInvariant patchLimit done s →
      ∃ s', rows.foldlM (MicrobatchPlanner.step grid patchLimit) s = .ok s' ∧
        PlannerInvariant patchLimit (done ++ rows) s' := by
    intro rows
    induction rows with
    | nil => exact fun done s _ _ h => ⟨s, rfl, by simpa using h⟩
    | cons row rows ih =>
      intro done s hpos hfits h
      have hrow := h.planRow (hpos row List.mem_cons_self) (hfits row List.mem_cons_self)
        (le_refl row.temporal)
      obtain ⟨s', hrun, hs'⟩ := ih _ _ (fun other hmem => hpos other (List.mem_cons_of_mem _ hmem))
        (fun other hmem => hfits other (List.mem_cons_of_mem _ hmem)) hrow
      refine ⟨s', ?_, by simpa using hs'⟩
      rw [List.foldlM_cons, except_bind_ok]
      refine ⟨_, except_bind_ok.mpr ⟨(), ensure_ok.mpr (hpos row List.mem_cons_self), ?_⟩, hrun⟩
      exact except_bind_ok.mpr ⟨(), ensure_ok.mpr (hfits row List.mem_cons_self), rfl⟩
  obtain ⟨s, hrun, hs⟩ := hloop grid [] _ hpositive hframes .initial
  rw [List.nil_append] at hs
  have hlast := hs.flush
  have hempty : s.flush.chunkRows = [] := by
    unfold MicrobatchPlanner.flush
    split
    · assumption
    · rfl
  refine ⟨s.flush.plans, ?_, ?_, hlast.sound, by simpa [hempty] using hlast.frames⟩
  · rw [planVisualMicrobatches, except_bind_ok]
    exact ⟨s, hrun, rfl⟩
  · have hpatches := hlast.patches
    have hoffset := hlast.offset
    have htotal := hlast.total
    rw [hempty, patchCount_nil] at hpatches
    have hstart : s.flush.chunkStart = patchCount grid := by omega
    exact hstart ▸ hlast.consecutive

end PrismInfer
