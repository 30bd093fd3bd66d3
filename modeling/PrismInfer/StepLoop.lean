import PrismInfer.EngineRuns
import PrismInfer.LLMEngine
import PrismInfer.Lib.Trace

/-!
# The step loop as a transition system

A call of `step_result` is a chain of smaller steps: a plan is made, perhaps put aside as the
paused prefill, executed and committed. One paused prefill at most is in flight between two
calls. The chain of every completed call is a run of the engine, whatever the clock, the runner
and the order of calls.
-/
set_option linter.unusedSectionVars false

namespace PrismInfer
open StateExcept EveryRun Relation Scheduler

variable {H : Type} [DecidableEq H] [Digests H]

/-- The scheduler with the paused prefill. -/
abbrev StepLoop (H : Type) := Scheduler H × Option BatchPlan

/-- The decisions that pruning records for the members of a plan. -/
inductive RecordStep (plan : BatchPlan) : Scheduler H → Scheduler H → Prop
  | record {s : Scheduler H} {id : ℕ} {record : CompressionRecord} (hid : id ∈ plan.sequenceIds) :
      RecordStep plan s (s.put id ((s.view id).setSeq
        { s.seqs id with visualPruningDecisionRecord := some record }))

/-- What the execution of a plan does to one of its members. -/
inductive ExecutionStep (plan : BatchPlan) : Scheduler H → Scheduler H → Prop
  | record {s s' : Scheduler H} (h : RecordStep plan s s') : ExecutionStep plan s s'
  | slice {s : Scheduler H} {id : ℕ} {slice : PrefillSlice} {seq : Sequence H}
      (hslice : (id, slice) ∈ plan.sequenceIds.zip plan.prefillSlices)
      (h : (s.seqs id).commitSlice slice = .ok seq) :
      ExecutionStep plan s (s.put id ((s.view id).setSeq seq))
  | compact {s s' : Scheduler H} {id : ℕ} {compaction : KVCompactionPlan}
      (hid : id ∈ plan.sequenceIds)
      (h : onSeq id (BlockManager.commitCompaction compaction) s = .ok () s') :
      ExecutionStep plan s s'
  | store {s s' : Scheduler H} {id : ℕ} {stored : Bool} (hid : id ∈ plan.sequenceIds)
      (h : onSeq id BlockManager.storeMultimodalPrefix s = .ok stored s') : ExecutionStep plan s s'

abbrev Recorded (plan : BatchPlan) : Scheduler H → Scheduler H → Prop :=
  ReflTransGen (RecordStep plan)

abbrev Executed (plan : BatchPlan) : Scheduler H → Scheduler H → Prop :=
  ReflTransGen (ExecutionStep plan)

/-- The planning calls made while a prefill is paused. -/
def PlanningCall.BesidePaused : PlanningCall → Prop
  | .schedule | .scheduleDecode => False
  | .schedulePrefill _ | .scheduleResidentDecode => True

/-- One step of a call of `step_result`, with the batch it commits. -/
inductive BatchStep : StepLoop H → List StepResult → StepLoop H → Prop
  | search {s s' : Scheduler H} {pending : Option BatchPlan}
      (h : scheduleResidentDecode s = .ok none s') : BatchStep (s, pending) [] (s', pending)
  | pause {s planned s' : Scheduler H} {plan : BatchPlan} (hcall : schedule s = .ok plan planned)
      (hphase : plan.phase = .prefill) (hrecord : Recorded plan planned s') :
      BatchStep (s, none) [] (s', some plan)
  | batch {s planned done s' : Scheduler H} {pending : Option BatchPlan} {call : PlanningCall}
      {plan : BatchPlan} {tokens : List (Option ℕ)} {outputs : List RequestOutput}
      (hcall : call.run s = .ok (some plan) planned)
      (hbeside : pending = none ∨ call.BesidePaused) (hexecute : Executed plan planned done)
      (hcommit : postprocess plan tokens done = .ok outputs s') :
      BatchStep (s, pending) [⟨plan, tokens, outputs⟩] (s', pending)
  | finish {s done s' : Scheduler H} {plan : BatchPlan} {tokens : List (Option ℕ)}
      {outputs : List RequestOutput} (hexecute : Executed plan s done)
      (hcommit : postprocess plan tokens done = .ok outputs s') :
      BatchStep (s, some plan) [⟨plan, tokens, outputs⟩] (s', none)

abbrev BatchRun : StepLoop H → List StepResult → StepLoop H → Prop := Trace BatchStep

/-- One step of the loop: requests arrive and are cancelled between two calls. -/
inductive LoopStep : StepLoop H → List StepResult → StepLoop H → Prop
  | submit {s s' : Scheduler H} {pending : Option BatchPlan} {req : Request}
      {decision : AdmissionDecision} (h : Scheduler.add req s = .ok decision s') :
      LoopStep (s, pending) [] (s', pending)
  | cancel {s s' : Scheduler H} {pending : Option BatchPlan} {id : ℕ} {found : Bool}
      (h : Scheduler.cancel id s = .ok found s') :
      LoopStep (s, pending) [] (s', pending.filter fun plan => id ∉ plan.sequenceIds)
  | work {l l' : StepLoop H} {results : List StepResult} (h : BatchStep l results l') :
      LoopStep l results l'

/-- Runs of the loop, with the batches in the order they were committed. -/
abbrev LoopRun : StepLoop H → List StepResult → StepLoop H → Prop := Trace LoopStep

theorem BatchRun.loop {l l' : StepLoop H} {results : List StepResult} (h : BatchRun l results l') :
    LoopRun l results l' :=
  h.simulates (f := fun l => l) fun hstep => .single (.work hstep)

/-! ## The loop is a run of the engine -/

section Refines

variable {s s' : Scheduler H} {plans : List BatchPlan} {plan : BatchPlan}

theorem RecordStep.run (hplan : plan ∈ plans) (h : RecordStep plan s s') :
    EngineStep (s, plans) (s', plans) := by
  cases h with
  | record hid => exact .prune hplan hid

theorem ExecutionStep.run (hplan : plan ∈ plans) (h : ExecutionStep plan s s') :
    EngineStep (s, plans) (s', plans) := by
  cases h with
  | record h => exact h.run hplan
  | slice hslice h => exact .commitSlice hplan hslice h
  | compact hid h => exact .compact hplan hid h
  | store hid h => exact .store hplan hid h

theorem Recorded.run (hplan : plan ∈ plans) (h : Recorded plan s s') :
    EngineRun (s, plans) (s', plans) :=
  h.lift (fun s => (s, plans)) fun _ _ hstep => hstep.run hplan

theorem Executed.run (hplan : plan ∈ plans) (h : Executed plan s s') :
    EngineRun (s, plans) (s', plans) :=
  h.lift (fun s => (s, plans)) fun _ _ hstep => hstep.run hplan

/-- Execution and commit of a plan in flight. -/
theorem Executed.committed {done : Scheduler H} {tokens : List (Option ℕ)}
    {outputs : List RequestOutput} (h : Executed plan s done)
    (hcommit : postprocess plan tokens done = .ok outputs s') :
    EngineRun (s, plan :: plans) (s', plans) := by
  have hrun := h.run (List.mem_cons_self (a := plan) (l := plans))
  have hlast : EngineStep (done, plan :: plans) (s', (plan :: plans).erase plan) :=
    .commit List.mem_cons_self hcommit
  rw [List.erase_cons_head] at hlast
  exact hrun.tail hlast

end Refines

theorem filter_of_mem {plan : BatchPlan} {id : ℕ} (h : id ∈ plan.sequenceIds) :
    (some plan).filter (fun plan => id ∉ plan.sequenceIds) = none := by
  simp [h]

theorem filter_of_notMem {plan : BatchPlan} {id : ℕ} (h : id ∉ plan.sequenceIds) :
    (some plan).filter (fun plan => id ∉ plan.sequenceIds) = some plan := by
  simp [h]

/-- The plan that is paused, as the plans in flight. -/
def StepLoop.engine (l : StepLoop H) : Engine H := (l.1, l.2.toList)

theorem BatchStep.run {l l' : StepLoop H} {results : List StepResult} (h : BatchStep l results l') :
    EngineRun l.engine l'.engine := by
  cases h with
  | @search s s' pending h =>
    exact .single (@EngineStep.plan _ _ _ _ _ _ .scheduleResidentDecode none h)
  | @pause s planned s' plan hcall hphase hrecord =>
    have hplan : EngineStep (s, []) (planned, [plan]) :=
      @EngineStep.plan _ _ _ _ _ [] .schedule (some plan) (bind_ok.mpr ⟨plan, planned, hcall, rfl⟩)
    exact (ReflTransGen.single hplan).trans (Recorded.run List.mem_cons_self hrecord)
  | @batch s planned done s' pending call plan tokens outputs hcall hbeside hexecute hcommit =>
    have hplan : EngineStep (s, pending.toList) (planned, plan :: pending.toList) :=
      @EngineStep.plan _ _ _ _ _ _ call (some plan) hcall
    exact (ReflTransGen.single hplan).trans (Executed.committed hexecute hcommit)
  | finish hexecute hcommit => exact Executed.committed hexecute hcommit

theorem LoopStep.run {l l' : StepLoop H} {results : List StepResult} (h : LoopStep l results l') :
    EngineRun l.engine l'.engine := by
  cases h with
  | submit h => exact .single (.add h)
  | @cancel s s' pending id found h =>
    cases pending with
    | none => exact .single (.cancel h)
    | some plan =>
      by_cases hmember : id ∈ plan.sequenceIds
      · have hdrop : EngineStep (s, [plan]) (s, [plan].erase plan) := .drop
        rw [List.erase_cons_head] at hdrop
        rw [filter_of_mem hmember]
        exact (ReflTransGen.single hdrop).tail (.cancel h)
      · rw [filter_of_notMem hmember]
        exact .single (.cancel h)
  | work h => exact h.run

theorem LoopRun.run {l l' : StepLoop H} {results : List StepResult} (h : LoopRun l results l') :
    EngineRun l.engine l'.engine :=
  h.erases LoopStep.run

end PrismInfer
