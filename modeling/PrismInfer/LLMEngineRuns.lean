import PrismInfer.StepLoop

/-!
# Runs of the step loop

Every completed call of the engine is a run of the loop: what the executor does to the
scheduler are execution steps of the plan it was given, and the control flow of `step_result`
picks one of the ways in which a batch is planned, paused, finished and committed.
-/
set_option linter.unusedSectionVars false

namespace PrismInfer
open StateExcept EveryRun Relation Scheduler

variable {H : Type} [DecidableEq H] [Digests H]

namespace LLMEngine

variable {d d' : LLMEngine H} {plan : BatchPlan}

/-- The scheduler and the paused prefill. -/
def loop (d : LLMEngine H) : StepLoop H := (d.scheduler, d.pendingPrefill)

@[simp] theorem onScheduler_ok {α : Type} {x : SchedulerAction H α} {a : α} :
    onScheduler x d = .ok a d' ↔ ∃ s, x d.scheduler = .ok a s ∧ { d with scheduler := s } = d' := by
  simp [onScheduler]

@[simp] theorem inspect_ok {α : Type} {f : Scheduler H → Except EngineError α} {a : α} :
    inspect f d = .ok a d' ↔ f d.scheduler = .ok a ∧ d = d' := by
  simp [inspect]

@[simp] theorem call_ok {c : RunnerCall} {u : Unit} :
    call c d = .ok u d' ↔ { d with calls := d.calls ++ [c] } = d' := by
  simp [call]

/-- The scheduler moves by `R`, and the paused prefill stays. -/
structure Moves (R : Scheduler H → Scheduler H → Prop) (d d' : LLMEngine H) : Prop where
  scheduler : R d.scheduler d'.scheduler
  pending : d'.pendingPrefill = d.pendingPrefill

instance (R : Scheduler H → Scheduler H → Prop) : Std.Refl (Moves (ReflTransGen R)) where
  refl _ := ⟨.refl, rfl⟩

instance (R : Scheduler H → Scheduler H → Prop) :
    IsTrans (LLMEngine H) (Moves (ReflTransGen R)) where
  trans _ _ _ h h' := ⟨h.scheduler.trans h'.scheduler, h'.pending.trans h.pending⟩

end LLMEngine

/-! ## The executor -/

namespace ModelExecutor
open LLMEngine

variable {d d' : LLMEngine H} {plan : BatchPlan}

theorem call_moves {R : Scheduler H → Scheduler H → Prop} {c : RunnerCall} {u : Unit}
    (h : call c d = .ok u d') : Moves (ReflTransGen R) d d' := by
  obtain rfl := call_ok.mp h
  exact ⟨.refl, rfl⟩

theorem callWhen_moves {R : Scheduler H → Scheduler H → Prop} {c : RunnerCall} {p : Prop}
    [Decidable p] {u : Unit} (h : when p (call c) d = .ok u d') : Moves (ReflTransGen R) d d' := by
  rcases when_ok.mp h with ⟨-, h⟩ | ⟨-, rfl⟩
  · exact call_moves h
  · exact Std.Refl.refl d

theorem prepare_ok {u : Unit} (h : prepare plan d = .ok u d') : d = d' := by
  simp only [prepare, bind_ok, get_ok, readOnly_ok] at h
  obtain ⟨_, _, ⟨rfl, rfl⟩, _, _, ⟨-, rfl⟩, -, rfl⟩ := h
  rfl

/-- A decision that was reached in this step, or else the one there was. -/
theorem recorded (s : Scheduler H) {id : ℕ} (hid : id ∈ plan.sequenceIds)
    (record : Option CompressionRecord) :
    Recorded plan s (s.put id ((s.view id).setSeq { s.seqs id with
      visualPruningDecisionRecord := record.or (s.seqs id).visualPruningDecisionRecord })) := by
  cases record with
  | some record => exact .single (.record hid)
  | none =>
    have hview : (s.view id).setSeq { s.seqs id with
        visualPruningDecisionRecord := (none : Option CompressionRecord).or
          (s.seqs id).visualPruningDecisionRecord } = s.view id := by
      rw [Option.none_or]
      rfl
    rw [hview, put_view]

/-- The decision is recorded, then the slice is committed. -/
theorem commitSlice_of_commit {record : Option CompressionRecord} {slice : PrefillSlice}
    {seq seq' : Sequence H} (h : commitPrefillExecution record slice seq = .ok seq') :
    { seq with visualPruningDecisionRecord :=
        record.or seq.visualPruningDecisionRecord }.commitSlice slice = .ok seq' := by
  simp only [commitPrefillExecution] at h
  simp only [Sequence.commitSlice, Sequence.growLayout]
  cases hlayout : seq.kvLayout with
  | none =>
    simp only [hlayout] at h ⊢
    exact h
  | some layout =>
    simp only [hlayout] at h ⊢
    split at h
    · next hshort =>
      rw [if_pos hshort]
      simp only [except_bind_ok, except_pure_ok] at h ⊢
      obtain ⟨grown, hgrown, hseq⟩ := h
      exact ⟨some grown, by rw [hgrown]; rfl, hseq⟩
    · next hlong =>
      rw [if_neg hlong]
      exact h

theorem commitMember_moves {answer : RunnerAnswer} {id : ℕ} {slice : PrefillSlice}
    (hslice : (id, slice) ∈ plan.sequenceIds.zip plan.prefillSlices) :
    Returns (Moves (ReflTransGen (ExecutionStep plan)))
      (commitMember (H := H) answer id slice) := by
  intro d token d' h
  simp only [commitMember, bind_ok, inspect_ok, onScheduler_ok, modifySeq_ok, pure_ok] at h
  obtain ⟨seq, _, ⟨hcommit, rfl⟩, _, _, ⟨_, rfl, rfl⟩, -, rfl⟩ := h
  refine ⟨?_, rfl⟩
  have hrecord := recorded d.scheduler (List.of_mem_zip hslice).1 (answer.decision id)
  have hgrow := commitSlice_of_commit hcommit
  have hlast : ExecutionStep plan _ _ := .slice (s := d.scheduler.put id
    ((d.scheduler.view id).setSeq { d.scheduler.seqs id with
      visualPruningDecisionRecord :=
        (answer.decision id).or (d.scheduler.seqs id).visualPruningDecisionRecord })) hslice
    (by rw [seqs_put_self]; exact hgrow)
  rw [view_put, put_put, setSeq_setSeq] at hlast
  exact (hrecord.lift (fun s => s) fun _ _ hstep => .record hstep).tail hlast

theorem commitMembers_moves {answer : RunnerAnswer} :
    Returns (Moves (ReflTransGen (ExecutionStep plan))) (commitMembers (H := H) answer plan) :=
  Returns.mapEach fun _ hmember => commitMember_moves hmember

end ModelExecutor

namespace BlockManager

/-- A compaction plan is built without a change. -/
theorem buildCompactionPlan_state {kvDtype : String} {t t' : ManagerState H}
    {found : Option KVCompactionPlan} (h : buildCompactionPlan kvDtype t = .ok found t') :
    t' = t := by
  cases found with
  | some plan => exact (buildCompactionPlan_ok h).1
  | none =>
    simp only [buildCompactionPlan, bind_ok, query_ok, get_ok] at h
    obtain ⟨_, _, ⟨-, rfl⟩, _, _, ⟨rfl, rfl⟩, h⟩ := h
    cases hrecord : t.seq.visualPruningDecisionRecord with
    | none =>
      simp only [hrecord, bind_ok, require_ok, pure_ok] at h
      obtain ⟨_, _, ⟨-, rfl⟩, -, rfl⟩ := h
      rfl
    | some record => simp [hrecord] at h

end BlockManager

namespace ModelExecutor
open LLMEngine

variable {config : LLMEngineConfig} {plan : BatchPlan}

theorem buildPlan_ok {d d' : LLMEngine H} {id : ℕ} {found : Option KVCompactionPlan}
    (h : buildPlan config id d = .ok found d') : d = d' := by
  simp only [buildPlan, bind_ok, get_ok] at h
  obtain ⟨_, _, ⟨rfl, rfl⟩, h⟩ := h
  split at h
  · simp only [onScheduler_ok, onSeq_ok] at h
    obtain ⟨_, ⟨t, hbuild, rfl⟩, rfl⟩ := h
    rw [BlockManager.buildCompactionPlan_state hbuild, put_view]
  · exact (pure_ok.mp h).2

theorem buildPlan_moves (id : ℕ) :
    Returns (Moves (ReflTransGen (ExecutionStep plan))) (buildPlan (H := H) config id) := by
  intro d found d' h
  obtain rfl := buildPlan_ok h
  exact Std.Refl.refl d

theorem commitPlan_moves {plans : List KVCompactionPlan} {id : ℕ} (hid : id ∈ plan.sequenceIds) :
    Returns (Moves (ReflTransGen (ExecutionStep plan))) (commitPlan (H := H) plans id) := by
  intro d u d' h
  simp only [commitPlan, bind_ok, get_ok] at h
  obtain ⟨_, _, ⟨rfl, rfl⟩, h⟩ := h
  cases hfound : BlockManager.planOf plans (d.scheduler.seqs id).request.seqId with
  | none =>
    simp only [hfound] at h
    obtain ⟨-, rfl⟩ := pure_ok.mp h
    exact Std.Refl.refl d
  | some compaction =>
    simp only [hfound] at h
    obtain ⟨s, hcommit, rfl⟩ := onScheduler_ok.mp h
    exact ⟨.single (.compact hid hcommit), rfl⟩

theorem storePrefix_moves {compacted : Bool} {id : ℕ} (hid : id ∈ plan.sequenceIds) :
    Returns (Moves (ReflTransGen (ExecutionStep plan))) (storePrefix (H := H) compacted id) := by
  intro d u d' h
  simp only [storePrefix, bind_ok, get_ok, when_ok] at h
  obtain ⟨_, _, ⟨rfl, rfl⟩, ⟨-, stored, _, hstore, -, rfl⟩ | ⟨-, rfl⟩⟩ := h
  · obtain ⟨s, hcall, rfl⟩ := onScheduler_ok.mp hstore
    exact ⟨.single (.store hid hcall), rfl⟩
  · exact Std.Refl.refl d

theorem commitVisualCompaction_moves : Returns (Moves (ReflTransGen (ExecutionStep plan)))
    (commitVisualCompaction (H := H) config plan) := by
  have hstored : ∀ compacted, Returns (Moves (ReflTransGen (ExecutionStep plan)))
      (forEach (storePrefix (H := H) compacted) plan.sequenceIds) :=
    fun compacted => Returns.forEach fun _ hid => storePrefix_moves hid
  intro d u d' h
  unfold commitVisualCompaction at h
  split at h
  · cases hcompression : config.compression with
    | compact =>
      simp only [hcompression, bind_ok] at h
      obtain ⟨plans, built, hbuild, _, called, hcall, _, compacted, hcompact, hstore⟩ := h
      have hbuilt : Moves (ReflTransGen (ExecutionStep plan)) d built :=
        Returns.mapEach (fun id _ => buildPlan_moves id) d plans built hbuild
      have hcompacted : Moves (ReflTransGen (ExecutionStep plan)) called compacted :=
        Returns.forEach (fun id hid => commitPlan_moves hid) called () compacted hcompact
      exact IsTrans.trans _ _ _ (IsTrans.trans _ _ _ hbuilt (call_moves hcall))
        (IsTrans.trans _ _ _ hcompacted (hstored true compacted u d' hstore))
    | dense =>
      simp only [hcompression] at h
      exact hstored false d u d' h
    | other =>
      simp only [hcompression] at h
      obtain ⟨-, rfl⟩ := pure_ok.mp h
      exact Std.Refl.refl d
  · obtain ⟨-, rfl⟩ := pure_ok.mp h
    exact Std.Refl.refl d

theorem execute_moves {answer : RunnerAnswer} : Returns (Moves (ReflTransGen (ExecutionStep plan)))
    (execute (H := H) config plan answer) := by
  intro d tokens d' h
  simp only [execute, bind_ok] at h
  obtain ⟨_, d₁, hin, _, d₂, hout, _, d₃, hprefix, _, d₄, hcow, _, d₅, hrun, _, d₆,
    hprepare, h⟩ := h
  obtain rfl := prepare_ok hprepare
  have htransfers : Moves (ReflTransGen (ExecutionStep plan)) d d₅ :=
    IsTrans.trans _ _ _ (IsTrans.trans _ _ _ (callWhen_moves hin) (callWhen_moves hout))
      (IsTrans.trans _ _ _ (IsTrans.trans _ _ _ (callWhen_moves hprefix) (callWhen_moves hcow))
        (call_moves hrun))
  refine IsTrans.trans _ _ _ htransfers ?_
  split at h
  · simp only [bind_ok, pure_ok] at h
    obtain ⟨found, committed, hmembers, _, compacted, hcompact, -, rfl⟩ := h
    exact IsTrans.trans _ _ _ (commitMembers_moves d₅ found committed hmembers)
      (commitVisualCompaction_moves committed () compacted hcompact)
  · simp only [bind_ok, pure_ok] at h
    obtain ⟨_, _, ⟨-, rfl⟩, _, compacted, hcompact, -, rfl⟩ := h
    exact commitVisualCompaction_moves d₅ () compacted hcompact

theorem finishPrefill_moves {answer : RunnerAnswer} :
    Returns (Moves (ReflTransGen (ExecutionStep plan)))
      (finishPrefill (H := H) config plan answer) := by
  intro d tokens d' h
  simp only [finishPrefill, bind_ok, pure_ok] at h
  obtain ⟨_, called, hcall, found, committed, hmembers, _, compacted, hcompact, -, rfl⟩ := h
  exact IsTrans.trans _ _ _ (call_moves hcall) (IsTrans.trans _ _ _
    (commitMembers_moves called found committed hmembers)
    (commitVisualCompaction_moves committed () compacted hcompact))

/-- Only a prefill plan is begun, and only decisions are recorded. -/
theorem beginPrefill_ok {prepared : ℕ → Option CompressionRecord} {d d' : LLMEngine H} {u : Unit}
    (h : beginPrefill plan prepared d = .ok u d') :
    plan.phase = .prefill ∧ Moves (Recorded plan) d d' := by
  simp only [beginPrefill, bind_ok, require_ok] at h
  obtain ⟨_, _, ⟨hphase, rfl⟩, _, _, ⟨-, rfl⟩, _, d₁, hprefix, _, d₂, hcow, _, d₃, hbegin, _, d₄,
    hprepare, hrecord⟩ := h
  obtain rfl := prepare_ok hprepare
  have htransfers : Moves (Recorded plan) d d₃ :=
    IsTrans.trans _ _ _ (callWhen_moves hprefix)
      (IsTrans.trans _ _ _ (callWhen_moves hcow) (call_moves hbegin))
  have hrecorded : Moves (Recorded plan) d₃ d' := by
    refine Returns.forEach (fun id hid => ?_) d₃ u d' hrecord
    intro d v d' h
    simp only [onScheduler_ok, modifySeq_ok] at h
    obtain ⟨_, rfl, rfl⟩ := h
    exact ⟨recorded d.scheduler hid (prepared id), rfl⟩
  exact ⟨hphase, IsTrans.trans _ _ _ htransfers hrecorded⟩

end ModelExecutor

/-! ## The step -/

namespace LLMEngine

variable {config : LLMEngineConfig} {input : StepInput} {answer : RunnerAnswer}
  {d d' : LLMEngine H} {plan : BatchPlan} {result : StepResult}

theorem fineGrainEnabled_ok {fine : Bool} (h : fineGrainEnabled d = .ok fine d') :
    d'.loop = d.loop := by
  simp only [fineGrainEnabled, bind_ok, get_ok, when_ok, modify_ok, pure_ok] at h
  obtain ⟨_, _, ⟨rfl, rfl⟩, _, _, ⟨-, rfl⟩ | ⟨-, rfl⟩, _, _, ⟨rfl, rfl⟩, -, rfl⟩ := h
  · rfl
  · rfl

theorem staysAtomic_ok {patches : ℕ} {atomic : Bool}
    (h : staysAtomic config patches d = .ok atomic d') : d'.loop = d.loop := by
  simp only [staysAtomic, bind_ok, get_ok] at h
  obtain ⟨_, _, ⟨rfl, rfl⟩, h⟩ := h
  split at h
  · simp only [bind_ok, pure_ok] at h
    obtain ⟨fine, _, hfine, -, rfl⟩ := h
    exact fineGrainEnabled_ok hfine
  · obtain ⟨-, rfl⟩ := pure_ok.mp h
    rfl

theorem advancePrefill_ok {complete found : Bool}
    (h : advancePrefill plan complete d = .ok found d') :
    d'.loop = d.loop := by
  simp only [advancePrefill, bind_ok, get_ok, when_ok, call_ok, pure_ok] at h
  obtain ⟨_, _, ⟨rfl, rfl⟩, _, mid, hfine, _, _, rfl, -, rfl⟩ := h
  have hloop : mid.loop = d.loop := by
    rcases hfine with ⟨-, _, _, hfine, -, rfl⟩ | ⟨-, rfl⟩
    · exact fineGrainEnabled_ok hfine
    · rfl
  exact hloop

/-- Either nothing is put aside, or the plan is a prefill and only decisions are recorded. -/
theorem startCooperativePrefillIfUseful_ok {started : Bool}
    (h : startCooperativePrefillIfUseful config input plan d = .ok started d') :
    (started = false ∧ d'.loop = d.loop) ∨ (started = true ∧ plan.phase = .prefill ∧
      Recorded plan d.scheduler d'.scheduler ∧ d'.pendingPrefill = some plan) := by
  simp only [startCooperativePrefillIfUseful, bind_ok, get_ok] at h
  obtain ⟨_, _, ⟨rfl, rfl⟩, h⟩ := h
  split at h
  · obtain ⟨rfl, rfl⟩ := pure_ok.mp h
    exact .inl ⟨rfl, rfl⟩
  simp only [bind_ok, inspect_ok] at h
  obtain ⟨light, _, ⟨-, rfl⟩, h⟩ := h
  split at h
  · obtain ⟨rfl, rfl⟩ := pure_ok.mp h
    exact .inl ⟨rfl, rfl⟩
  simp only [bind_ok, inspect_ok] at h
  obtain ⟨due, _, ⟨-, rfl⟩, h⟩ := h
  split at h
  · obtain ⟨rfl, rfl⟩ := pure_ok.mp h
    exact .inl ⟨rfl, rfl⟩
  split at h
  · obtain ⟨rfl, rfl⟩ := pure_ok.mp h
    exact .inl ⟨rfl, rfl⟩
  simp only [bind_ok, inspect_ok] at h
  obtain ⟨patches, _, ⟨-, rfl⟩, atomic, mid, hatomic, h⟩ := h
  have hloop := staysAtomic_ok hatomic
  split at h
  · obtain ⟨rfl, rfl⟩ := pure_ok.mp h
    exact .inl ⟨rfl, hloop⟩
  · simp only [bind_ok, modify_ok, pure_ok] at h
    obtain ⟨_, begun, hbegin, _, _, rfl, rfl, rfl⟩ := h
    obtain ⟨hphase, hmoves⟩ := ModelExecutor.beginPrefill_ok hbegin
    have hscheduler : mid.scheduler = d.scheduler := congrArg Prod.fst hloop
    exact .inr ⟨rfl, hphase, hscheduler ▸ hmoves.scheduler, rfl⟩

theorem commitStepResult_ok {tokens : List (Option ℕ)}
    (h : commitStepResult plan tokens d = .ok result d') :
    ∃ outputs, postprocess plan tokens d.scheduler = .ok outputs d'.scheduler ∧
      result = ⟨plan, tokens, outputs⟩ ∧ d'.pendingPrefill = d.pendingPrefill := by
  simp only [commitStepResult, bind_ok, onScheduler_ok, get_ok, when_ok, modify_ok, pure_ok] at h
  obtain ⟨outputs, _, ⟨s, hcommit, rfl⟩, _, _, ⟨rfl, rfl⟩, _, _, hlatch, rfl, rfl⟩ := h
  rcases hlatch with ⟨-, rfl⟩ | ⟨-, rfl⟩
  · exact ⟨outputs, hcommit, rfl, rfl⟩
  · exact ⟨outputs, hcommit, rfl, rfl⟩

theorem executePlannedStep_ok (h : executePlannedStep config plan answer d = .ok result d') :
    ∃ done tokens outputs, Executed plan d.scheduler done ∧
      postprocess plan tokens done = .ok outputs d'.scheduler ∧
      result = ⟨plan, tokens, outputs⟩ ∧ d'.pendingPrefill = d.pendingPrefill := by
  simp only [executePlannedStep, bind_ok] at h
  obtain ⟨tokens, mid, hexecute, hcommit⟩ := h
  have hmoves := ModelExecutor.execute_moves d tokens mid hexecute
  obtain ⟨outputs, hpost, rfl, hpending⟩ := commitStepResult_ok hcommit
  exact ⟨mid.scheduler, tokens, outputs, hmoves.scheduler, hpost, rfl,
    hpending.trans hmoves.pending⟩

theorem finishPendingPrefill_run (h : finishPendingPrefill config answer d = .ok result d') :
    BatchRun d.loop [result] d'.loop := by
  simp only [finishPendingPrefill, bind_ok, get_ok] at h
  obtain ⟨_, _, ⟨rfl, rfl⟩, h⟩ := h
  cases hpending : d.pendingPrefill with
  | none => simp [hpending] at h
  | some plan =>
    simp only [hpending, bind_ok, modify_ok] at h
    obtain ⟨tokens, mid, hfinish, _, _, rfl, hcommit⟩ := h
    have hmoves := ModelExecutor.finishPrefill_moves d tokens mid hfinish
    obtain ⟨outputs, hpost, rfl, hnone⟩ := commitStepResult_ok hcommit
    have hbefore : d.loop = (d.scheduler, some plan) := by rw [loop, hpending]
    have hafter : d'.loop = (d'.scheduler, none) := by rw [loop, hnone]
    rw [hbefore, hafter]
    exact .single (.finish hmoves.scheduler hpost)

/-- A planning call whose plan is executed and committed. -/
theorem planned_run {call : PlanningCall} {s : Scheduler H}
    (hcall : call.run d.scheduler = .ok (some plan) s)
    (hbeside : d.pendingPrefill = none ∨ call.BesidePaused)
    (h : executePlannedStep config plan answer { d with scheduler := s } = .ok result d') :
    BatchRun d.loop [result] d'.loop := by
  obtain ⟨done, tokens, outputs, hexecute, hcommit, rfl, hpending⟩ := executePlannedStep_ok h
  have hafter : d'.loop = (d'.scheduler, d.pendingPrefill) := by rw [loop, hpending]
  rw [hafter]
  exact .single (.batch hcall hbeside hexecute hcommit)

theorem residentDecodeStep_run (h : residentDecodeStep config answer d = .ok result d') :
    BatchRun d.loop [result] d'.loop := by
  simp only [residentDecodeStep, bind_ok, onScheduler_ok] at h
  obtain ⟨found, _, ⟨s, hcall, rfl⟩, h⟩ := h
  cases found with
  | none =>
    have hsearch : BatchStep d.loop [] ({ d with scheduler := s } : LLMEngine H).loop :=
      .search hcall
    exact .after hsearch (finishPendingPrefill_run h)
  | some plan =>
    have hplan : PlanningCall.scheduleResidentDecode.run d.scheduler = .ok (some plan) s := hcall
    exact planned_run hplan (.inr trivial) h

theorem pendingStep_run {pending : BatchPlan}
    (h : pendingStep config input pending d = .ok result d') :
    BatchRun d.loop [result] d'.loop := by
  simp only [pendingStep, bind_ok, inspect_ok] at h
  obtain ⟨release, _, ⟨-, rfl⟩, interrupt, _, ⟨-, rfl⟩, h⟩ := h
  cases interrupt with
  | some tier =>
    simp only [bind_ok, onScheduler_ok, modify_ok, pure_ok] at h
    obtain ⟨plan, _, ⟨s, hcall, rfl⟩, _, mid, hexecute, _, _, rfl, rfl, rfl⟩ := h
    have hplan : (PlanningCall.schedulePrefill (some tier)).run d.scheduler = .ok (some plan) s :=
      bind_ok.mpr ⟨plan, s, hcall, rfl⟩
    have hrun := planned_run hplan (.inr trivial) hexecute
    exact hrun
  | none =>
    simp only [bind_ok, get_ok] at h
    obtain ⟨_, _, ⟨rfl, rfl⟩, h⟩ := h
    split at h
    · exact finishPendingPrefill_run h
    · simp only [bind_ok] at h
      obtain ⟨complete, mid, hadvance, h⟩ := h
      rw [← advancePrefill_ok hadvance]
      split at h
      · exact finishPendingPrefill_run h
      · exact residentDecodeStep_run h

theorem plannedStep_run (hnone : d.pendingPrefill = none)
    (h : plannedStep config input d = .ok result d') : BatchRun d.loop [result] d'.loop := by
  simp only [plannedStep, bind_ok, inspect_ok] at h
  obtain ⟨coalesce, _, ⟨-, rfl⟩, h⟩ := h
  split at h
  · simp only [bind_ok, onScheduler_ok] at h
    obtain ⟨plan, _, ⟨s, hcall, rfl⟩, hexecute⟩ := h
    have hplan : PlanningCall.scheduleDecode.run d.scheduler = .ok (some plan) s :=
      bind_ok.mpr ⟨plan, s, hcall, rfl⟩
    exact planned_run hplan (.inl hnone) hexecute
  · simp only [bind_ok, onScheduler_ok] at h
    obtain ⟨plan, _, ⟨s, hcall, rfl⟩, started, mid, hstart, h⟩ := h
    have hplan : PlanningCall.schedule.run d.scheduler = .ok (some plan) s :=
      bind_ok.mpr ⟨plan, s, hcall, rfl⟩
    rcases startCooperativePrefillIfUseful_ok hstart with ⟨rfl, hloop⟩ |
      ⟨rfl, hphase, hrecord, hsome⟩
    · simp only [Bool.false_eq_true, if_false] at h
      obtain ⟨done, tokens, outputs, hexecute, hcommit, rfl, hpending⟩ := executePlannedStep_ok h
      have hscheduler : mid.scheduler = s := congrArg Prod.fst hloop
      have hpaused : mid.pendingPrefill = none := (congrArg Prod.snd hloop).trans hnone
      rw [hscheduler] at hexecute
      have hbefore : d.loop = (d.scheduler, none) := by rw [loop, hnone]
      have hafter : d'.loop = (d'.scheduler, none) := by rw [loop, hpending, hpaused]
      rw [hbefore, hafter]
      exact .single (.batch hplan (.inl rfl) hexecute hcommit)
    · simp only [if_true] at h
      have hbefore : d.loop = (d.scheduler, none) := by rw [loop, hnone]
      have hmid : mid.loop = (mid.scheduler, some plan) := by rw [loop, hsome]
      have hrun := residentDecodeStep_run h
      rw [hmid] at hrun
      rw [hbefore]
      exact .after (.pause hcall hphase hrecord) hrun

/-- Every completed call of `step_result` is a run of the loop that commits one batch. -/
theorem nextStepResult_run (h : nextStepResult config input d = .ok result d') :
    BatchRun d.loop [result] d'.loop := by
  simp only [nextStepResult, bind_ok, get_ok] at h
  obtain ⟨_, _, ⟨rfl, rfl⟩, h⟩ := h
  cases hpending : d.pendingPrefill with
  | none =>
    simp only [hpending] at h
    exact plannedStep_run hpending h
  | some pending =>
    simp only [hpending] at h
    split at h
    · simp only [bind_ok, modify_ok] at h
      obtain ⟨_, _, rfl, h⟩ := h
      split at h
      · have hrun := residentDecodeStep_run h
        exact hrun
      · have hrun := pendingStep_run h
        exact hrun
    · exact pendingStep_run h

theorem submitSequence_run {req : Request} {decision : AdmissionDecision}
    (h : submitSequence req d = .ok decision d') : LoopStep d.loop [] d'.loop := by
  obtain ⟨s, hadd, rfl⟩ := onScheduler_ok.mp h
  exact .submit hadd

theorem cancelRequest_run {id : ℕ} {found : Bool} (h : cancelRequest id d = .ok found d') :
    LoopStep d.loop [] d'.loop := by
  simp only [cancelRequest, bind_ok, get_ok, when_ok, modify_ok, onScheduler_ok] at h
  obtain ⟨_, _, ⟨rfl, rfl⟩, _, mid, hdrop, s, hcancel, rfl⟩ := h
  have hpending : mid.pendingPrefill = d.pendingPrefill.filter fun plan =>
      id ∉ plan.sequenceIds := by
    rcases hdrop with ⟨⟨plan, hplan, hmember⟩, rfl⟩ | ⟨hother, rfl⟩
    · rw [Option.mem_def.mp hplan]
      exact (filter_of_mem hmember).symm
    · cases hplan : d.pendingPrefill with
      | none => rfl
      | some plan =>
        exact (filter_of_notMem fun hmember => hother ⟨plan, hplan, hmember⟩).symm
  have hscheduler : mid.scheduler = d.scheduler := by
    rcases hdrop with ⟨-, rfl⟩ | ⟨-, rfl⟩
    · rfl
    · rfl
  rw [hscheduler] at hcancel
  have hstep : LoopStep d.loop [] (s, d.pendingPrefill.filter fun plan => id ∉ plan.sequenceIds) :=
    .cancel hcancel
  rw [← hpending] at hstep
  exact hstep

/-- One completed call of the engine, with the batch it commits. -/
inductive LLMEngineStep (config : LLMEngineConfig) :
    LLMEngine H → List StepResult → LLMEngine H → Prop
  | submit {d d' : LLMEngine H} {req : Request} {decision : AdmissionDecision}
      (h : submitSequence req d = .ok decision d') : LLMEngineStep config d [] d'
  | step {d d' : LLMEngine H} {input : StepInput} {result : StepResult}
      (h : nextStepResult config input d = .ok result d') : LLMEngineStep config d [result] d'
  | cancel {d d' : LLMEngine H} {id : ℕ} {found : Bool} (h : cancelRequest id d = .ok found d') :
      LLMEngineStep config d [] d'

/-- Completed calls in any order. -/
abbrev LLMEngineRun (config : LLMEngineConfig) :
    LLMEngine H → List StepResult → LLMEngine H → Prop :=
  Trace (LLMEngineStep config)

theorem LLMEngineStep.loop {results : List StepResult} (h : LLMEngineStep config d results d') :
    LoopRun d.loop results d'.loop := by
  cases h with
  | submit h => exact .single (submitSequence_run h)
  | step h => exact (nextStepResult_run h).loop
  | cancel h => exact .single (cancelRequest_run h)

theorem LLMEngineRun.loop {results : List StepResult} (h : LLMEngineRun config d results d') :
    LoopRun d.loop results d'.loop :=
  h.simulates LLMEngineStep.loop

/-- The states after the construction of the engine, with the batches it committed. -/
def Reached (config : LLMEngineConfig) (results : List StepResult) (d : LLMEngine H) : Prop :=
  ∃ schedulerConfig numBlocks blockSize numCpuBlocks caching blockLevel decodeCredit heap,
    LLMEngineRun config (initial (Scheduler.initial H schedulerConfig
      (.initial H numBlocks blockSize numCpuBlocks caching blockLevel) decodeCredit heap)) results d

theorem Reached.engine {results : List StepResult} (h : Reached config results d) :
    Engine.Reached d.loop.engine := by
  obtain ⟨schedulerConfig, numBlocks, blockSize, numCpuBlocks, caching, blockLevel,
    decodeCredit, heap, hrun⟩ := h
  exact ⟨schedulerConfig, numBlocks, blockSize, numCpuBlocks, caching, blockLevel,
    decodeCredit, heap, LoopRun.run (LLMEngineRun.loop hrun)⟩

theorem Reached.run {results more : List StepResult} (h : Reached config results d)
    (hrun : LLMEngineRun config d more d') : Reached config (results ++ more) d' := by
  obtain ⟨schedulerConfig, numBlocks, blockSize, numCpuBlocks, caching, blockLevel,
    decodeCredit, heap, hbefore⟩ := h
  exact ⟨schedulerConfig, numBlocks, blockSize, numCpuBlocks, caching, blockLevel,
    decodeCredit, heap, hbefore.trans hrun⟩

section Example

def cooperative : LLMEngineConfig := ⟨true, 1024, .dense, "auto"⟩

/-- The runner samples nines, and a paused prefill takes more than one quantum. -/
def nines : StepInput where
  coalesceNs := 0
  deadlineNs := 0
  pendingNs := 0
  prepared := fun _ => none
  complete := false
  answer := ⟨fun _ => 9, fun _ => none⟩

def constructed : LLMEngine ℕ :=
  initial (.initial ℕ residentConfig (.initial ℕ 8 2 0 false false) 1
    fun id => .ofRequest ℕ (textPrompt id))

def firstSubmitted : LLMEngine ℕ := finalState (submitSequence (textPrompt 0) constructed)

/-- The first request has its first token. -/
def firstToken : LLMEngine ℕ := finalState (nextStepResult cooperative nines firstSubmitted)

def secondSubmitted : LLMEngine ℕ := finalState (submitSequence (textPrompt 1) firstToken)

/-- The prefill of the second request is paused, and the first one has its second token. -/
def secondPaused : LLMEngine ℕ := finalState (nextStepResult cooperative nines secondSubmitted)

theorem firstToken_run : ∃ result, LLMEngineRun cooperative constructed [result] firstToken := by
  obtain ⟨_, hsubmit⟩ := of_returned
    (show returned (submitSequence (textPrompt 0) constructed) = true by decide +kernel)
  obtain ⟨result, hstep⟩ := of_returned
    (show returned (nextStepResult cooperative nines firstSubmitted) = true by decide +kernel)
  exact ⟨result, .after (.submit hsubmit) (.single (.step hstep))⟩

theorem secondPaused_run : ∃ result, LLMEngineRun cooperative firstToken [result] secondPaused := by
  obtain ⟨_, hsubmit⟩ := of_returned
    (show returned (submitSequence (textPrompt 1) firstToken) = true by decide +kernel)
  obtain ⟨result, hstep⟩ := of_returned
    (show returned (nextStepResult cooperative nines secondSubmitted) = true by decide +kernel)
  exact ⟨result, .after (.submit hsubmit) (.single (.step hstep))⟩

theorem firstToken_reached : ∃ result, Reached cooperative [result] firstToken := by
  obtain ⟨result, hrun⟩ := firstToken_run
  exact ⟨result, _, _, _, _, _, _, _, _, hrun⟩

def secondPlan : BatchPlan := ⟨.prefill, [1], [3], [⟨1, 0, 3⟩], .empty⟩

theorem secondPaused_reached : ∃ results, Reached cooperative results secondPaused ∧
    secondPaused.pendingPrefill = some secondPlan := by
  obtain ⟨result, hreached⟩ := firstToken_reached
  obtain ⟨next, hrun⟩ := secondPaused_run
  exact ⟨[result] ++ [next], hreached.run hrun, by decide +kernel⟩

end Example

/-- Completed calls are runs of the loop and of the engine, whatever the order of the calls, the
clock and the runner, so that all states between two calls are states of the engine. -/
theorem refines_engine {results more : List StepResult} (h : Reached config results d)
    (hrun : LLMEngineRun config d more d') :
    LoopRun d.loop more d'.loop ∧ EngineRun d.loop.engine d'.loop.engine ∧
      Engine.Reached d'.loop.engine := by
  have hloop := LLMEngineRun.loop hrun
  exact ⟨hloop, hloop.run, (h.run hrun).engine⟩

theorem refines_engine_secondPaused : ∃ more, LoopRun firstToken.loop more secondPaused.loop ∧
    EngineRun firstToken.loop.engine secondPaused.loop.engine ∧
    Engine.Reached secondPaused.loop.engine := by
  obtain ⟨result, hreached⟩ := firstToken_reached
  obtain ⟨next, hrun⟩ := secondPaused_run
  exact ⟨[next], refines_engine hreached hrun⟩

end LLMEngine

end PrismInfer
