import PrismInfer.EngineRuns
import PrismInfer.LLMEngine
import PrismInfer.VisualRegion

/-!
# Prefill plans and their budgets

The scheduler spends tokens, places and vision patches while it collects a batch, partly before
and partly after a request gets its pages. The execution backend counts the patches again, from
the slices of the finished plan, when the plan is executed. The two counts agree however long
the plan was in flight.
-/
set_option linter.unusedSectionVars false

namespace PrismInfer
open StateExcept EveryRun Relation Scheduler

variable {H : Type} [DecidableEq H] [Digests H]

namespace BatchPlan

/-- What a prefill plan may use, its slices paired with its members. -/
structure WithinBudgets (config : SchedulerConfig) (seqs : ℕ → Sequence H) (plan : BatchPlan) :
    Prop where
  tokens : plan.scheduledTokenCounts.sum ≤ config.maxNumBatchedTokens
  members : plan.sequenceIds.length ≤ config.maxNumSeqs
  paired : plan.prefillSlices.map (·.sequenceId) = plan.sequenceIds
  ranges : plan.prefillSlices.map (·.numTokens) = plan.scheduledTokenCounts
  chunks : config.policy.limits.enableChunkedPrefill = true →
    ∀ count ∈ plan.scheduledTokenCounts, count ≤ config.policy.limits.maxChunkSize
  patches : ∃ patches, plan.numScheduledVisionPatches seqs = .ok patches ∧
    (patches ≤ config.maxVisionPatchesPerBatch ∨ plan.sequenceIds.length = 1)

variable {plan : BatchPlan} {config : SchedulerConfig} {seqs seqs' : ℕ → Sequence H}

/-- The slices count the patches; of the sequences only the requests matter. -/
theorem patches_congr (h : ∀ id ∈ plan.sequenceIds, (seqs' id).request = (seqs id).request) :
    plan.numScheduledVisionPatches seqs' = plan.numScheduledVisionPatches seqs := by
  unfold numScheduledVisionPatches
  cases plan.phase with
  | decode => rfl
  | prefill =>
    refine congrArg (· >>= _) (mapM_congr fun item hitem => ?_)
    obtain ⟨id, slice⟩ := item
    simp only [h id (List.of_mem_zip hitem).1]

theorem WithinBudgets.later {config' : SchedulerConfig} (h : plan.WithinBudgets config seqs)
    (hconfig : config' = config)
    (hsame : ∀ id ∈ plan.sequenceIds, (seqs' id).request = (seqs id).request) :
    plan.WithinBudgets config' seqs' := by
  subst hconfig
  obtain ⟨htokens, hmembers, hpaired, hranges, hchunks, hpatches⟩ := h
  refine ⟨htokens, hmembers, hpaired, hranges, hchunks, ?_⟩
  rw [patches_congr hsame]
  exact hpatches

/-- Within its budgets a plan passes the checks before it is executed. -/
theorem WithinBudgets.checked {s : Scheduler H} (h : plan.WithinBudgets s.config s.seqs)
    (hphase : plan.phase = .prefill) : ModelExecutor.validateExecutionPlan plan s = .ok () ∧
      ModelExecutor.checkVisionBudget plan s = .ok () := by
  have hprefill : plan.isPrefill = true := by simp [isPrefill, hphase]
  constructor
  · unfold ModelExecutor.validateExecutionPlan
    split
    · next hchunked =>
      have hslices : ∀ slice ∈ plan.prefillSlices,
          slice.numTokens ≤ s.config.policy.limits.maxChunkSize := by
        intro slice hslice
        refine h.chunks hchunked.2.1 slice.numTokens ?_
        rw [← h.ranges]
        exact List.mem_map_of_mem hslice
      generalize plan.prefillSlices = slices at hslices
      induction slices with
      | nil => rfl
      | cons slice slices ih =>
        refine except_bind_ok.mpr ⟨(), ensure_ok.mpr (hslices slice List.mem_cons_self), ?_⟩
        exact ih fun other hother => hslices other (List.mem_cons_of_mem slice hother)
    · rfl
  · obtain ⟨patches, hpatches, hbound⟩ := h.patches
    simp only [ModelExecutor.checkVisionBudget, hprefill, if_true, hpatches]
    exact ensure_ok.mpr (hbound.symm.imp_left le_of_eq)

end BatchPlan

/-! ## Running prefills during a planning call -/

namespace Scheduler

/-- Its prefill is unfinished. -/
def Paused (s : Scheduler H) (id : ℕ) : Prop := id ∈ s.running ∧ s.HasStatus .prefilling id

end Scheduler

section Frame

variable {s s' : Scheduler H} {events : List SchedulerEvent} {id : ℕ}

theorem SchedulerStep.config (h : SchedulerStep s events s') : s'.config = s.config := by
  cases h <;> rfl

theorem SchedulerSteps.config (h : SchedulerSteps s events s') : s'.config = s.config := by
  induction h with
  | refl => rfl
  | head hfirst _ ih => exact ih.trans hfirst.config

/-- A planning step admits, swaps, preempts and reserves other sequences only. -/
theorem SchedulerStep.paused_frame (hn : s.queued.Nodup) (h : SchedulerStep s events s')
    (hid : s.Paused id) : s'.Paused id ∧ s'.seqs id = s.seqs id ∧ .reserved id ∉ events := by
  obtain ⟨hmem, hstatus⟩ := hid
  have hapart := queues_apart id hn
  have hdecoding : ¬ s.HasStatus .decoding id := by simp [HasStatus, hstatus]
  suffices hkept : id ∈ s'.running ∧ s'.seqs id = s.seqs id ∧ .reserved id ∉ events by
    obtain ⟨hrunning, hseq, hnone⟩ := hkept
    exact ⟨⟨hrunning, by rw [HasStatus, hseq]; exact hstatus⟩, hseq, hnone⟩
  cases h with
  | @probe other n t hother hprobe =>
    have hne : id ≠ other := by
      rintro rfl
      exact (hapart.1 hother).1 hmem
    exact ⟨hmem, Function.update_of_ne hne _ _, List.not_mem_nil⟩
  | select => exact ⟨hmem, rfl, by simp⟩
  | @admitPrefill other t copies seq hother =>
    have hne : id ≠ other := by
      rintro rfl
      exact (hapart.1 hother).1 hmem
    exact ⟨List.mem_append_left _ hmem, Function.update_of_ne hne _ _, by simp⟩
  | @swapIn other rest t pairs seq hother =>
    have hne : id ≠ other := by
      rintro rfl
      exact hapart.2 hmem (by simp [hother])
    exact ⟨List.mem_append_left _ hmem, Function.update_of_ne hne _ _, by simp⟩
  | @swapOut other running t pairs seq hrunning hother =>
    have hne : id ≠ other := by
      rintro rfl
      exact hdecoding hother
    have hstays := List.mem_of_ne_of_mem hne (hrunning.mem_iff.mp hmem)
    exact ⟨hstays, Function.update_of_ne hne _ _, by simp⟩
  | @recompute other running t seq hrunning hother =>
    have hne : id ≠ other := by
      rintro rfl
      exact hdecoding hother
    have hstays := List.mem_of_ne_of_mem hne (hrunning.mem_iff.mp hmem)
    exact ⟨hstays, Function.update_of_ne hne _ _, by simp⟩
  | @reserve other t t' pair _ hother =>
    have hne : id ≠ other := by
      rintro rfl
      exact hdecoding hother
    exact ⟨hmem, Function.update_of_ne hne _ _, by simp [hne]⟩
  | reorder hperm => exact ⟨hperm.mem_iff.mpr hmem, rfl, List.not_mem_nil⟩
  | countDecode => exact ⟨hmem, rfl, List.not_mem_nil⟩
  | countPrefill => exact ⟨hmem, rfl, List.not_mem_nil⟩

theorem SchedulerSteps.paused_frame (hn : s.queued.Nodup) (h : SchedulerSteps s events s')
    (hid : s.Paused id) : s'.Paused id ∧ s'.seqs id = s.seqs id ∧ .reserved id ∉ events := by
  induction h with
  | refl => exact ⟨hid, rfl, List.not_mem_nil⟩
  | head hfirst _ ih =>
    obtain ⟨hmid, hseq, hnone⟩ := hfirst.paused_frame hn hid
    obtain ⟨hlast, hseq', hnone'⟩ := ih (hfirst.queued_perm.nodup_iff.mpr hn) hmid
    refine ⟨hlast, hseq'.trans hseq, fun hmem => ?_⟩
    exact (List.mem_append.mp hmem).elim hnone hnone'

end Frame

/-! ## The batch while it is collected -/

namespace Scheduler

variable {s s' mid : Scheduler H} {batch batch' next : PrefillBatchBuilder} {id : ℕ}

/-- Vision patches of the next `count` prompt tokens. -/
def patchesOf (seq : Sequence H) (count : ℕ) : Except EngineError ℕ :=
  seq.request.visionPatchCountForPrefillRange seq.effectivePrefillStart
    (seq.effectivePrefillStart + count)

/-- What the builder says it spent is what its members need, and it is within the limits. -/
structure BatchSound (s : Scheduler H) (batch : PrefillBatchBuilder) : Prop where
  maxTokens : batch.maxTokens = s.config.maxNumBatchedTokens
  maxSequences : batch.maxSequences = s.config.maxNumSeqs
  maxVisionPatches : batch.maxVisionPatches = s.config.maxVisionPatchesPerBatch
  paused : ∀ id ∈ batch.sequences, s.Paused id
  sizes : batch.tokenCounts.length = batch.sequences.length
  capacity : batch.sequences.length ≤ batch.maxSequences
  tokens : batch.tokenCounts.sum = batch.numTokens
  spent : batch.numTokens ≤ batch.maxTokens
  chunks : s.config.policy.limits.enableChunkedPrefill = true →
    ∀ count ∈ batch.tokenCounts, count ≤ s.config.policy.limits.maxChunkSize
  counted : ∃ patches, List.Forall₂ (fun item n => patchesOf (s.seqs item.1) item.2 = .ok n)
    (batch.sequences.zip batch.tokenCounts) patches ∧ patches.sum = batch.numVisionPatches
  bound : batch.numVisionPatches ≤ batch.maxVisionPatches ∨ batch.sequences.length ≤ 1

theorem BatchSound.empty (s : Scheduler H) : s.BatchSound (emptyBatch s.config) where
  maxTokens := rfl
  maxSequences := rfl
  maxVisionPatches := rfl
  paused := fun _ hid => absurd hid List.not_mem_nil
  sizes := rfl
  capacity := Nat.zero_le _
  tokens := rfl
  spent := Nat.zero_le _
  chunks := fun _ _ hcount => absurd hcount List.not_mem_nil
  counted := ⟨[], .nil, rfl⟩
  bound := .inl (Nat.zero_le _)

theorem BatchSound.later (h : s.BatchSound batch) (hconfig : s'.config = s.config)
    (hsame : ∀ id ∈ batch.sequences, s'.Paused id ∧ s'.seqs id = s.seqs id) :
    s'.BatchSound batch := by
  obtain ⟨patches, hcounted, hsum⟩ := h.counted
  refine ⟨hconfig ▸ h.maxTokens, hconfig ▸ h.maxSequences, hconfig ▸ h.maxVisionPatches,
    fun id hid => (hsame id hid).1, h.sizes, h.capacity, h.tokens, h.spent, hconfig ▸ h.chunks,
    ⟨patches, ?_, hsum⟩, h.bound⟩
  rw [List.forall₂_iff_zip] at hcounted ⊢
  refine ⟨hcounted.1, fun {item n} hmem => ?_⟩
  have hitem := (List.of_mem_zip hmem).1
  rw [(hsame item.1 (List.of_mem_zip hitem).1).2]
  exact hcounted.2 hmem

/-- Planning steps leave the batch as it is. -/
theorem BatchSound.steps (h : s.BatchSound batch) (hn : s.queued.Nodup)
    {events : List SchedulerEvent} (hsteps : SchedulerSteps s events s') : s'.BatchSound batch := by
  refine h.later hsteps.config fun id hid => ?_
  obtain ⟨hpaused, hseq, -⟩ := hsteps.paused_frame hn (h.paused id hid)
  exact ⟨hpaused, hseq⟩

theorem BatchSound.add (h : s.BatchSound batch) {candidate : PrefillCandidate}
    (hid : s.Paused candidate.sequence)
    (hcount : patchesOf (s.seqs candidate.sequence) candidate.tokenCount =
      .ok candidate.visionPatches)
    (hchunk : s.config.policy.limits.enableChunkedPrefill = true →
      candidate.tokenCount ≤ s.config.policy.limits.maxChunkSize)
    (hadd : batch.add candidate = .ok next) : s.BatchSound next := by
  simp only [PrefillBatchBuilder.add, except_bind_ok, ensure_ok, except_pure_ok] at hadd
  obtain ⟨_, -, _, ⟨hroom, htokens, hpatches⟩, rfl⟩ := hadd
  obtain ⟨patches, hcounted, hsum⟩ := h.counted
  have hspent := h.spent
  constructor
  · exact h.maxTokens
  · exact h.maxSequences
  · exact h.maxVisionPatches
  · intro id hmem
    rcases List.mem_append.mp hmem with hold | hnew
    · exact h.paused id hold
    · exact List.mem_singleton.mp hnew ▸ hid
  · simp [h.sizes]
  · simpa using hroom
  · simp [h.tokens]
  · change batch.numTokens + candidate.tokenCount ≤ batch.maxTokens
    unfold PrefillBatchBuilder.availableTokens at htokens
    omega
  · intro hchunked count hmem
    rcases List.mem_append.mp hmem with hold | hnew
    · exact h.chunks hchunked count hold
    · exact List.mem_singleton.mp hnew ▸ hchunk hchunked
  · refine ⟨patches ++ [candidate.visionPatches], ?_, by simp [hsum]⟩
    change List.Forall₂ _ ((batch.sequences ++ [candidate.sequence]).zip
      (batch.tokenCounts ++ [candidate.tokenCount])) _
    rw [List.zip_append h.sizes.symm]
    exact List.rel_append hcounted (.cons hcount .nil)
  · rcases hpatches with hfirst | hwithin
    · right
      simp [hfirst]
    · exact .inl hwithin

/-- A candidate is within the chunk size. -/
theorem candidate_le {config : SchedulerConfig} {seq : Sequence H} {available : ℕ}
    {candidate : PrefillCandidate}
    (h : prefillCandidate config seq available = .ok (some candidate))
    (hchunked : config.policy.limits.enableChunkedPrefill = true) :
    candidate.tokenCount ≤ config.policy.limits.maxChunkSize := by
  rw [(prefillCandidate_some h).2.2.1]
  exact SchedulerPolicy.prefillTokenCount_le hchunked seq available

theorem collectRunningPrefills_sound (hs : s.Settled) {ids : List ℕ}
    (hids : ∀ id ∈ ids, id ∈ s.running) (hbatch : s.BatchSound batch)
    (h : collectRunningPrefills batch ids s = .ok batch' s') : s.BatchSound batch' := by
  induction ids generalizing batch with
  | nil => exact (pure_ok.mp h).1 ▸ hbatch
  | cons id ids ih =>
    have hrest : ∀ other ∈ ids, other ∈ s.running :=
      fun other hother => hids other (List.mem_cons_of_mem id hother)
    have hid := hids id List.mem_cons_self
    simp only [collectRunningPrefills, bind_ok, get_ok] at h
    obtain ⟨_, _, ⟨rfl, rfl⟩, h⟩ := h
    split at h
    · exact ih hrest hbatch h
    · next hstatus =>
      split at h
      · exact (pure_ok.mp h).1 ▸ hbatch
      · simp only [bind_ok, readOnly_ok] at h
        obtain ⟨found, _, ⟨hfound, rfl⟩, h⟩ := h
        cases found with
        | none => exact (pure_ok.mp h).1 ▸ hbatch
        | some candidate =>
          simp only at h
          split at h
          · exact ih hrest hbatch h
          · simp only [bind_ok, readOnly_ok] at h
            obtain ⟨next, _, ⟨hadd, rfl⟩, h⟩ := h
            have hname : candidate.sequence = id := by
              rw [(prefillCandidate_some hfound).1]
              exact hs.named id (hs.known id (by simp [hid]))
            have hcount := (prefillCandidate_some hfound).2.2.2.2
            have hnext : s.BatchSound next := by
              refine hbatch.add (hname ▸ ⟨hid, not_not.mp hstatus⟩) ?_ (candidate_le hfound) hadd
              rw [hname]
              exact hcount
            split at h
            · exact (pure_ok.mp h).1 ▸ hnext
            · exact ih hrest hnext h

/-- An admitted request is counted by the slice it gets after its pages are allocated. -/
theorem AdmitRound.sound {found : Option PrefillBatchBuilder} (hk : s.Kept)
    (hbatch : s.BatchSound batch) (h : AdmitRound s batch found s') :
    s'.BatchSound (found.getD batch) := by
  cases h with
  | stopped hsteps => exact hbatch.steps hk.settled.nodup hsteps
  | @admitted mid _ id candidate next hsteps _ _ hid hroom halloc hadd =>
    have hselected : mid.BatchSound batch := hbatch.steps hk.settled.nodup hsteps
    have hmid := (hsteps.kept hk).1
    have hstep := SchedulerSteps.single (allocateWaitingPrefill_step hid hroom halloc)
    have hadmitted : s'.BatchSound batch :=
      hselected.steps hmid.settled.nodup hstep
    obtain ⟨copies, t, seq, found, hallocate, hseq, hfound, rfl, -, rfl⟩ :=
      allocateWaitingPrefill_ok halloc
    obtain ⟨rfl, -⟩ := Sequence.transitionTo_ok hseq
    obtain ⟨hname, -, -, -, hcount⟩ := prefillCandidate_some hfound
    have hin : id ∈ mid.queued := by simp [hid]
    have hrequest := (BlockManager.Admitted.frame
      (BlockManager.allocate_admitted (hmid.ledger hin) hallocate).1).1
    have hmember : found.sequence = id := by
      rw [hname]
      change t.seq.request.seqId = id
      rw [hrequest]
      exact hmid.settled.named id (hmid.settled.known id hin)
    refine hadmitted.add ?_ ?_ ?_ hadd
    · refine ⟨by simp [hmember], ?_⟩
      change (Function.update mid.seqs id _ found.sequence).status = _
      rw [hmember, Function.update_self]
      rfl
    · change patchesOf (Function.update mid.seqs id _ found.sequence) found.tokenCount = _
      rw [hmember, Function.update_self]
      exact hcount
    · intro hchunked
      have hle : found.tokenCount ≤ mid.config.policy.limits.maxChunkSize :=
        candidate_le hfound hchunked
      exact hle

theorem AdmitRounds.sound (hk : s.Kept) (hbatch : s.BatchSound batch)
    (h : AdmitRounds s batch s' batch') : s'.BatchSound batch' := by
  induction h with
  | refl => exact hbatch
  | stopped hround => exact AdmitRound.sound hk hbatch hround
  | admitted hround _ ih =>
    exact ih (AdmitRound.kept hk hround).1 (AdmitRound.sound hk hbatch hround)

/-! ## The finished plan -/

theorem prefillSlice_ok {seq : Sequence H} {count : ℕ} {slice : PrefillSlice}
    (h : BatchPlan.prefillSlice seq count = .ok slice) :
    slice = ⟨seq.request.seqId, seq.effectivePrefillStart, seq.effectivePrefillStart + count⟩ := by
  simp only [BatchPlan.prefillSlice, except_bind_ok, except_pure_ok] at h
  obtain ⟨_, -, _, -, hslice⟩ := h
  exact hslice.symm

/-- The slices of the members count what the builder counted. -/
theorem slices_counted {seqs : ℕ → Sequence H} {ids counts patches : List ℕ}
    {slices : List PrefillSlice} (hsizes : counts.length = ids.length)
    (hnames : ∀ id ∈ ids, (seqs id).request.seqId = id)
    (hslices : List.Forall₂ (fun item slice => BatchPlan.prefillSlice item.1 item.2 = .ok slice)
      ((ids.map seqs).zip counts) slices)
    (hcounted : List.Forall₂ (fun item n => patchesOf (seqs item.1) item.2 = .ok n)
      (ids.zip counts) patches) :
    slices.map (·.sequenceId) = ids ∧ slices.map (·.numTokens) = counts ∧
      List.Forall₂ (fun (item : ℕ × PrefillSlice) n =>
        (seqs item.1).request.visionPatchCountForPrefillRange item.2.tokenStart item.2.tokenEnd =
          .ok n) (ids.zip slices) patches := by
  induction ids generalizing counts patches slices with
  | nil =>
    obtain rfl : counts = [] := List.length_eq_zero_iff.mp hsizes
    cases hslices
    cases hcounted
    exact ⟨rfl, rfl, .nil⟩
  | cons id ids ih =>
    cases counts with
    | nil => simp at hsizes
    | cons count counts =>
      cases hslices with
      | @cons _ slice _ slices hslice hslices =>
      cases hcounted with
      | @cons _ n _ patches hcount hcounted =>
      obtain ⟨hids, htokens, hpatches⟩ := ih (by simpa using hsizes)
        (fun other hother => hnames other (List.mem_cons_of_mem id hother)) hslices hcounted
      obtain rfl := prefillSlice_ok hslice
      refine ⟨?_, ?_, ?_⟩
      · rw [List.map_cons, hids, hnames id List.mem_cons_self]
      · rw [List.map_cons, htokens]
        simp [PrefillSlice.numTokens]
      · exact .cons hcount hpatches

theorem create_prefill {sequences : List (Sequence H)} {counts : List ℕ}
    {transfers : KVTransferPlan} {plan : BatchPlan}
    (h : BatchPlan.create .prefill sequences counts transfers = .ok plan) :
    plan.scheduledTokenCounts = counts := by
  simp only [BatchPlan.create, except_bind_ok, except_pure_ok] at h
  obtain ⟨_, -, _, -, _, -, _, -, _, -, _, -, _, -, rfl⟩ := h
  rfl

/-- The batch that a call of `_prefill_plan` collects: running prefills, then waiting ones. -/
def CollectsBatch (tier : Option ℕ) (running : Bool) (s s' : Scheduler H)
    (batch : PrefillBatchBuilder) : Prop :=
  ∃ collected, collectRunningPrefills (emptyBatch s.config) (if running then s.running else []) s =
      .ok collected s ∧
    admitWaitingPrefills tier (decide (s.swapped ≠ []) || s.hasDecoding) s.waiting.length collected
      s = .ok batch s'

theorem prefillPlan_collects {tier : Option ℕ} {running : Bool} {plan : BatchPlan}
    (h : prefillPlan tier running s = .ok (some plan) s') :
    ∃ batch, CollectsBatch tier running s s' batch ∧ batch.sequences ≠ [] ∧
      BatchPlan.create .prefill (batch.sequences.map s'.seqs) batch.tokenCounts
        { KVTransferPlan.empty with copyPrefix := batch.copyPrefix } = .ok plan := by
  simp only [prefillPlan, bind_ok, get_ok] at h
  obtain ⟨_, _, ⟨rfl, rfl⟩, collected, mid, hcollect, batch, admitted, hrounds, h⟩ := h
  obtain rfl := collectRunningPrefills_state hcollect
  split at h
  · cases (pure_ok.mp h).1
  · next hne =>
    simp only [bind_ok, get_ok, readOnly_ok, pure_ok, Option.some.injEq] at h
    obtain ⟨_, _, ⟨rfl, rfl⟩, _, _, ⟨hplan, rfl⟩, rfl, rfl⟩ := h
    exact ⟨batch, ⟨collected, hcollect, hrounds⟩, hne, hplan⟩

/-- A prefill plan is the batch that was collected, made of the sequences as they stand. -/
theorem prefillPlan_batch {tier : Option ℕ} {running : Bool} {plan : BatchPlan} (hk : s.Kept)
    (h : prefillPlan tier running s = .ok (some plan) s') :
    ∃ batch, CollectsBatch tier running s s' batch ∧ s'.BatchSound batch ∧ batch.sequences ≠ [] ∧
      (∀ id ∈ batch.sequences, (s'.seqs id).request.seqId = id) ∧
      plan.sequenceIds = batch.sequences ∧
      BatchPlan.create .prefill (batch.sequences.map s'.seqs) batch.tokenCounts
        { KVTransferPlan.empty with copyPrefix := batch.copyPrefix } = .ok plan := by
  obtain ⟨batch, ⟨collected, hcollect, hadmit⟩, hne, hcreate⟩ := prefillPlan_collects h
  have hrounds := admitWaitingPrefills_ok hadmit
  have hcollected : s.BatchSound collected := by
    refine collectRunningPrefills_sound hk.settled (fun id hid => ?_) (.empty s) hcollect
    split at hid
    · exact hid
    · exact absurd hid List.not_mem_nil
  have hbatch := AdmitRounds.sound hk hcollected hrounds
  obtain ⟨events, hsteps, -⟩ := hrounds.steps
  have hs := (hsteps.kept hk).1.settled
  have hnames : ∀ id ∈ batch.sequences, (s'.seqs id).request.seqId = id := fun id hid =>
    hs.named id (hs.known id (by simp [(hbatch.paused id hid).1]))
  refine ⟨batch, ⟨collected, hcollect, hadmit⟩, hbatch, hne, hnames, ?_, hcreate⟩
  rw [(create_ok hcreate).2.1, List.map_map]
  conv_rhs => rw [← List.map_id batch.sequences]
  exact List.map_congr_left hnames

/-- A finished plan, against the batch it was made of. -/
structure PlanTotals (s : Scheduler H) (batch : PrefillBatchBuilder) (plan : BatchPlan) :
    Prop where
  members : plan.sequenceIds = batch.sequences
  counts : plan.scheduledTokenCounts = batch.tokenCounts
  paired : plan.prefillSlices.map (·.sequenceId) = plan.sequenceIds
  ranges : plan.prefillSlices.map (·.numTokens) = plan.scheduledTokenCounts
  tokens : plan.scheduledTokenCounts.sum = batch.numTokens
  tokenBudget : batch.numTokens ≤ s.config.maxNumBatchedTokens
  capacity : plan.sequenceIds.length ≤ s.config.maxNumSeqs
  chunks : s.config.policy.limits.enableChunkedPrefill = true →
    ∀ count ∈ plan.scheduledTokenCounts, count ≤ s.config.policy.limits.maxChunkSize
  patches : plan.numScheduledVisionPatches s.seqs = .ok batch.numVisionPatches
  visionBudget : batch.numVisionPatches ≤ s.config.maxVisionPatchesPerBatch ∨
    plan.sequenceIds.length = 1 ∧ s.config.maxVisionPatchesPerBatch < batch.numVisionPatches

theorem prefillPlan_totals {tier : Option ℕ} {running : Bool} {plan : BatchPlan} (hk : s.Kept)
    (h : prefillPlan tier running s = .ok (some plan) s') :
    ∃ batch, CollectsBatch tier running s s' batch ∧ s'.PlanTotals batch plan := by
  obtain ⟨batch, hcollects, hbatch, hne, hnames, hsequences, hcreate⟩ := prefillPlan_batch hk h
  obtain ⟨patches, hcounted, hsum⟩ := hbatch.counted
  obtain ⟨hids, htokens, hpatches⟩ :=
    slices_counted hbatch.sizes hnames (create_slices hcreate) hcounted
  have hcounts := create_prefill hcreate
  refine ⟨batch, hcollects, hsequences, hcounts, ?_, ?_, ?_, ?_, ?_, ?_, ?_, ?_⟩
  · rw [hids, hsequences]
  · rw [htokens, hcounts]
  · rw [hcounts, hbatch.tokens]
  · rw [← hbatch.maxTokens]
    exact hbatch.spent
  · rw [hsequences, ← hbatch.maxSequences]
    exact hbatch.capacity
  · rw [hcounts]
    exact hbatch.chunks
  · simp only [BatchPlan.numScheduledVisionPatches, (create_ok hcreate).1, except_bind_ok,
      except_pure_ok]
    refine ⟨patches, ?_, hsum⟩
    rw [hsequences]
    exact mapM_ok.mpr hpatches
  · rw [hsequences, ← hbatch.maxVisionPatches]
    refine (le_or_gt _ _).imp_right fun hover => ⟨?_, hover⟩
    have hone := hbatch.bound.resolve_left (not_le.mpr hover)
    exact le_antisymm hone (List.length_pos_of_ne_nil hne)

/-- The totals stay the same while the requests do. -/
theorem PlanTotals.later {batch : PrefillBatchBuilder} {plan : BatchPlan}
    (h : s.PlanTotals batch plan) (hconfig : s'.config = s.config)
    (hsame : ∀ id ∈ plan.sequenceIds, (s'.seqs id).request = (s.seqs id).request) :
    s'.PlanTotals batch plan where
  members := h.members
  counts := h.counts
  paired := h.paired
  ranges := h.ranges
  tokens := h.tokens
  tokenBudget := hconfig ▸ h.tokenBudget
  capacity := hconfig ▸ h.capacity
  chunks := hconfig ▸ h.chunks
  patches := (BatchPlan.patches_congr hsame).trans h.patches
  visionBudget := hconfig ▸ h.visionBudget

theorem PlanTotals.within {batch : PrefillBatchBuilder} {plan : BatchPlan}
    (h : s.PlanTotals batch plan) : plan.WithinBudgets s.config s.seqs where
  tokens := h.tokens ▸ h.tokenBudget
  members := h.capacity
  paired := h.paired
  ranges := h.ranges
  chunks := h.chunks
  patches := ⟨_, h.patches, h.visionBudget.imp_right And.left⟩

theorem PlanMade.within {plan : BatchPlan} (hk : s.Kept) (h : PlanMade s plan s')
    (hphase : plan.phase = .prefill) : plan.WithinBudgets s'.config s'.seqs := by
  cases h with
  | prefill hquiet _ hprefill =>
    obtain ⟨_, -, htotals⟩ := prefillPlan_totals (hquiet.kept hk).1 hprefill
    exact htotals.within.later rfl fun _ _ => rfl
  | decode hquiet _ hdecode =>
    have hn := (hquiet.kept hk).1.settled.nodup
    obtain ⟨_, -, hdecodes, -⟩ := decodePlan_steps hn hdecode
    rw [hphase] at hdecodes
    cases hdecodes

end Scheduler

/-! ## Plans in flight -/

namespace Engine

variable {engine engine' : Engine H} {s s' : Scheduler H} {plans : List BatchPlan}

/-- Every prefill plan in flight is within the budgets of the scheduler. -/
def Budgeted (engine : Engine H) : Prop :=
  ∀ plan ∈ engine.2, plan.phase = .prefill → plan.WithinBudgets engine.1.config engine.1.seqs

/-- Requests that stay as they are keep the plans within their budgets. -/
theorem Budgeted.later (hb : Engine.Budgeted (s, plans)) (hk : Engine.Kept (s, plans))
    {plans' : List BatchPlan} (hconfig : s'.config = s.config) (hsame : SameRequests s s')
    (hplans : ∀ plan ∈ plans', plan ∈ plans) : Engine.Budgeted (s', plans') := by
  intro plan hplan hphase
  have hin := hplans plan hplan
  exact (hb plan hin hphase).later hconfig fun id hid =>
    (hsame id ((hk.fits plan hin).known id hid)).2

theorem step_config (hk : engine.Kept) (h : EngineStep engine engine') :
    engine'.1.config = engine.1.config := by
  cases h with
  | @add _ _ _ req _ h => exact ((add_queue req).of_ok h).config
  | plan h =>
    obtain ⟨-, _, hsteps⟩ | ⟨_, -, hmade⟩ := PlanningCall.made hk.scheduler.settled.nodup h
    · exact hsteps.config
    · obtain ⟨_, hsteps, -⟩ := hmade.steps hk.scheduler.settled.nodup
      exact hsteps.config
  | commitSlice => rfl
  | prune => rfl
  | @compact _ _ _ _ id _ _ _ h => exact ((onSeq_queue id _).of_ok h).config
  | @store _ _ _ _ id _ _ _ h => exact ((onSeq_queue id _).of_ok h).config
  | @commit _ _ _ plan tokens _ _ h => exact ((postprocess_queue plan tokens).of_ok h).config
  | drop => rfl
  | @cancel _ _ _ id _ h => exact ((cancel_queue id).of_ok h).config
  | clear => rfl

theorem run_config (hk : engine.Kept) (h : EngineRun engine engine') :
    engine'.1.config = engine.1.config := by
  induction h with
  | refl => rfl
  | tail hrun hlast ih => exact (step_config (hk.run hrun).1 hlast).trans ih

theorem Budgeted.step (hb : engine.Budgeted) (hk : engine.Kept) (h : EngineStep engine engine') :
    engine'.Budgeted := by
  have hconfig := step_config hk h
  have hsame := (hk.step h).2.same
  cases h with
  | @plan s s' plans call found h =>
    have hold := hb.later hk hconfig hsame fun plan hplan => hplan
    intro other hother hphase
    rcases List.mem_append.mp hother with hnew | hbefore
    · obtain ⟨rfl, -⟩ | ⟨plan, rfl, hmade⟩ := PlanningCall.made hk.scheduler.settled.nodup h
      · exact absurd hnew List.not_mem_nil
      · obtain rfl := Option.some.inj (Option.mem_toList.mp hnew)
        exact PlanMade.within hk.scheduler hmade hphase
    · exact hold other hbefore hphase
  | commit => exact hb.later hk hconfig hsame fun plan hplan => List.mem_of_mem_erase hplan
  | drop => exact hb.later hk hconfig hsame fun plan hplan => List.mem_of_mem_erase hplan
  | add => exact hb.later hk hconfig hsame fun plan hplan => hplan
  | commitSlice => exact hb.later hk hconfig hsame fun plan hplan => hplan
  | prune => exact hb.later hk hconfig hsame fun plan hplan => hplan
  | compact => exact hb.later hk hconfig hsame fun plan hplan => hplan
  | store => exact hb.later hk hconfig hsame fun plan hplan => hplan
  | cancel => exact hb.later hk hconfig hsame fun plan hplan => hplan
  | clear => exact hb.later hk hconfig hsame fun plan hplan => hplan

theorem Reached.budgeted (h : Engine.Reached engine) : engine.Budgeted := by
  obtain ⟨config, numBlocks, blockSize, numCpuBlocks, caching, blockLevel, decodeCredit,
    heap, hrun⟩ := h
  have hall : engine.Kept ∧ engine.Budgeted := by
    induction hrun with
    | refl =>
      exact ⟨.initial config numBlocks blockSize numCpuBlocks caching blockLevel decodeCredit heap,
        fun plan hplan => absurd hplan List.not_mem_nil⟩
    | tail _ hlast ih => exact ⟨(ih.1.step hlast).1, ih.2.step ih.1 hlast⟩
  exact hall.2

/-- In every state the running queue and every prefill plan in flight respect the limits, and
neither the runner nor its backend rejects the plan. -/
theorem prefills_within_budgets (h : Engine.Reached (s, plans)) :
    s.running.length ≤ s.config.maxNumSeqs ∧
      ∀ plan ∈ plans, plan.phase = .prefill → plan.WithinBudgets s.config s.seqs ∧
        ModelExecutor.validateExecutionPlan plan s = .ok () ∧
        ModelExecutor.checkVisionBudget plan s = .ok () := by
  refine ⟨h.kept.scheduler.settled.room, fun plan hplan hphase => ?_⟩
  have hwithin := h.budgeted plan hplan hphase
  exact ⟨hwithin, hwithin.checked hphase⟩

theorem prefills_within_budgets_planned : planned.running.length ≤ planned.config.maxNumSeqs ∧
    ∀ plan ∈ [firstPlan], plan.phase = .prefill → plan.WithinBudgets planned.config planned.seqs ∧
      ModelExecutor.validateExecutionPlan plan planned = .ok () ∧
      ModelExecutor.checkVisionBudget plan planned = .ok () :=
  prefills_within_budgets planned_reached

/-- `batch` is what a planning call from `s` to `s'` collected for its prefill plan. -/
def CollectedFor (s s' : Scheduler H) (plan : BatchPlan) (batch : PrefillBatchBuilder) : Prop :=
  ∃ (quiet : List SchedulerEvent) (tier : Option ℕ) (running heavy : Bool)
    (mid collected : Scheduler H), SchedulerSteps s quiet mid ∧
      prefillPlan tier running mid = .ok (some plan) collected ∧
      CollectsBatch tier running mid collected batch ∧ s' = collected.countPrefill heavy

/-- A prefill plan of a reachable state spends what was collected for it, within the budgets,
and is counted the same way whenever it is executed. -/
theorem prefill_totals_agree {call : PlanningCall} {plan : BatchPlan}
    (h : Engine.Reached (s, plans)) (hcall : call.run s = .ok (some plan) s')
    (hphase : plan.phase = .prefill) :
    ∃ batch, CollectedFor s s' plan batch ∧
      ∀ later plans', EngineRun (s', plan :: plans) (later, plans') → plan ∈ plans' →
        later.running.length ≤ later.config.maxNumSeqs ∧ later.PlanTotals batch plan ∧
        ModelExecutor.validateExecutionPlan plan later = .ok () ∧
        ModelExecutor.checkVisionBudget plan later = .ok () := by
  obtain ⟨hnone, -⟩ | ⟨made, hsome, hmade⟩ :=
    PlanningCall.made h.kept.scheduler.settled.nodup hcall
  · cases hnone
  obtain rfl := Option.some.inj hsome
  cases hmade with
  | decode hquiet _ hdecode =>
    have hn := (hquiet.kept h.kept.scheduler).1.settled.nodup
    obtain ⟨_, -, hdecodes, -⟩ := decodePlan_steps hn hdecode
    rw [hphase] at hdecodes
    cases hdecodes
  | @prefill quiet mid collected tier running heavy hquiet _ hprefill =>
    have hstep : EngineStep (s, plans) (collected.countPrefill heavy, plan :: plans) := .plan hcall
    have hplanned : Engine.Reached (collected.countPrefill heavy, plan :: plans) :=
      h.run (.single hstep)
    obtain ⟨batch, hcollects, htotals⟩ :=
      prefillPlan_totals (hquiet.kept h.kept.scheduler).1 hprefill
    have hnow : Scheduler.PlanTotals (collected.countPrefill heavy) batch plan :=
      htotals.later rfl fun _ _ => rfl
    refine ⟨batch, ⟨quiet, tier, running, heavy, mid, collected, hquiet, hprefill, hcollects, rfl⟩,
      fun later plans' hrun hplan => ?_⟩
    obtain ⟨hkept, hmoved⟩ := hplanned.kept.run hrun
    have hknown := (hplanned.kept.fits plan List.mem_cons_self).known
    have hlater := hnow.later (run_config hplanned.kept hrun) fun id hid =>
      (hmoved.same id (hknown id hid)).2
    exact ⟨hkept.scheduler.settled.room, hlater, hlater.within.checked hphase⟩

theorem prefill_totals_agree_planned : ∃ batch, CollectedFor started planned firstPlan batch ∧
    planned.PlanTotals batch firstPlan ∧
    ModelExecutor.checkVisionBudget firstPlan planned = .ok () := by
  obtain ⟨batch, hcollected, hlater⟩ :=
    @prefill_totals_agree ℕ _ _ started planned [] .schedule firstPlan started_reached rfl rfl
  obtain ⟨-, htotals, -, hbackend⟩ := hlater planned [firstPlan] .refl List.mem_cons_self
  exact ⟨batch, hcollected, htotals, hbackend⟩

end Engine

end PrismInfer
