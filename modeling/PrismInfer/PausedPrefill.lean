import PrismInfer.LLMEngineRuns
import PrismInfer.PrefillBudget

/-!
# A paused prefill

While a prefill is paused between two quanta, decode steps and urgent prefills run beside it.
They leave its members exactly as they were: the plan stays the one that the scheduler would
make from the sequences as they stand. The members of a batch beside it are other requests.
-/
set_option linter.unusedSectionVars false

namespace PrismInfer
open StateExcept EveryRun Relation Scheduler

variable {H : Type} [DecidableEq H] [Digests H]

/-! ## What a call leaves of the other sequences -/

/-- Sequences that were not touched stay as they are, and stay in the running queue. -/
structure KeepsOthers (touched : ℕ → Prop) (s s' : Scheduler H) : Prop where
  seqs : ∀ id, ¬ touched id → s'.seqs id = s.seqs id
  running : ∀ id, ¬ touched id → (id ∈ s'.running ↔ id ∈ s.running)

instance (touched : ℕ → Prop) : Std.Refl (KeepsOthers (H := H) touched) where
  refl _ := ⟨fun _ _ => rfl, fun _ _ => Iff.rfl⟩

instance (touched : ℕ → Prop) : IsTrans (Scheduler H) (KeepsOthers touched) where
  trans _ _ _ h h' := ⟨fun id hid => (h'.seqs id hid).trans (h.seqs id hid),
    fun id hid => (h'.running id hid).trans (h.running id hid)⟩

section Frame

variable {s s' : Scheduler H} {touched : ℕ → Prop} {id : ℕ} {plan : BatchPlan}

theorem KeepsOthers.put (t : ManagerState H) (hid : touched id) :
    KeepsOthers touched s (s.put id t) := by
  refine ⟨fun other hother => ?_, fun _ _ => Iff.rfl⟩
  have hne : other ≠ id := by
    rintro rfl
    exact hother hid
  exact seqs_put_of_ne hne

theorem KeepsOthers.paused (h : KeepsOthers touched s s') (hid : ¬ touched id) (hp : s.Paused id) :
    s'.Paused id := by
  refine ⟨(h.running id hid).mpr hp.1, ?_⟩
  rw [HasStatus, h.seqs id hid]
  exact hp.2

theorem onSeq_others {α : Type} (hid : touched id) (x : ManagerAction H α) :
    Always (KeepsOthers touched) (onSeq id x) :=
  Always.zoom (fun t s => KeepsOthers.put (s := s) t hid) x

theorem modifySeq_others (hid : touched id) (f : Sequence H → Sequence H) :
    Always (KeepsOthers touched) (modifySeq id f) :=
  Always.modify fun s => KeepsOthers.put (s := s) ((s.view id).setSeq (f (s.seqs id))) hid

theorem readSeq_others : Always (KeepsOthers (H := H) touched) (readSeq id) :=
  Always.bind Always.get fun _ => Always.pure _

theorem transitionTo_others (hid : touched id) (target : RequestState) :
    Always (KeepsOthers (H := H) touched) (transitionTo id target) :=
  Always.bind readSeq_others fun _ => Always.bind (Always.readOnly _) fun _ =>
    modifySeq_others hid _

/-- A sequence leaves the running queue. -/
theorem KeepsOthers.leave (hid : touched id) :
    KeepsOthers touched s { s with running := s.running.erase id } := by
  refine ⟨fun _ _ => rfl, fun other hother => ?_⟩
  have hne : other ≠ id := by
    rintro rfl
    exact hother hid
  exact List.mem_erase_of_ne hne

theorem add_others {req : Request} (hid : touched req.seqId) :
    Always (KeepsOthers (H := H) touched) (add req) := by
  refine Always.bind Always.get fun s => Always.bind (Always.require _ _) fun _ =>
    Always.bind (modifySeq_others hid _) fun _ => Always.bind (onSeq_others hid _) fun _ =>
      Always.bind (Always.modify fun _ => ⟨fun _ _ => rfl, fun _ _ => Iff.rfl⟩) fun _ =>
        Always.bind Always.get fun t => ?_
  split
  · exact Always.bind (transitionTo_others hid _) fun _ => Always.pure _
  · exact Always.bind (Always.modify fun _ => ⟨fun _ _ => rfl, fun _ _ => Iff.rfl⟩) fun _ =>
      Always.pure _

theorem cancel_others (hid : touched id) : Always (KeepsOthers (H := H) touched) (cancel id) := by
  refine Always.bind Always.get fun s => ?_
  split
  · refine Always.bind (Always.modify fun t => ?_) fun _ => Always.bind readSeq_others
      fun _ => Always.bind (Always.when _ (onSeq_others hid _)) fun _ =>
        Always.bind (transitionTo_others hid _) fun _ => Always.pure _
    split
    · exact ⟨fun _ _ => rfl, fun _ _ => Iff.rfl⟩
    · split
      · exact KeepsOthers.leave hid
      · exact ⟨fun _ _ => rfl, fun _ _ => Iff.rfl⟩
  · exact Always.pure _

theorem postprocessOne_others (hid : touched id) (index : ℕ) (token : Option ℕ) :
    Always (KeepsOthers (H := H) touched) (postprocessOne plan index id token) := by
  have hpublish : Always (KeepsOthers (H := H) touched) (publish plan index id) := by
    refine Always.bind readSeq_others fun seq => ?_
    split
    · exact onSeq_others hid _
    · exact Always.throw _
    · split
      · exact onSeq_others hid _
      · exact onSeq_others hid _
  refine Always.bind hpublish fun _ => ?_
  cases token with
  | none => exact Always.pure _
  | some token =>
    refine Always.bind ?_ fun _ => Always.pure _
    refine Always.bind Always.get fun s => Always.bind (Always.readOnly _) fun seq =>
      Always.bind (modifySeq_others hid _) fun _ => ?_
    simp only
    split
    · exact Always.bind (transitionTo_others hid _) fun _ =>
        Always.bind (onSeq_others hid _) fun _ =>
        Always.bind Always.get fun _ => Always.bind (Always.require _ _) fun _ =>
          Always.bind (Always.modify fun _ => KeepsOthers.leave hid) fun _ => Always.pure _
    · split
      · exact Always.bind (transitionTo_others hid _) fun _ => Always.pure _
      · split
        · exact Always.throw _
        · exact Always.pure _

/-- The commit of a batch touches its members only. -/
theorem postprocess_others (tokens : List (Option ℕ)) :
    Always (KeepsOthers (H := H) (· ∈ plan.sequenceIds)) (postprocess plan tokens) := by
  have hfrom : ∀ (members : List (ℕ × Option ℕ)) (index : ℕ),
      (∀ member ∈ members, member.1 ∈ plan.sequenceIds) →
      Always (KeepsOthers (H := H) (· ∈ plan.sequenceIds))
        (postprocessFrom plan index members) := by
    intro members
    induction members with
    | nil => exact fun _ _ => Always.pure _
    | cons member members ih =>
      intro index hmembers
      exact Always.bind (postprocessOne_others (hmembers member List.mem_cons_self) index member.2)
        fun _ => Always.bind
          (ih (index + 1) fun other hother => hmembers other (List.mem_cons_of_mem member hother))
          fun _ => Always.pure _
  exact hfrom _ 0 fun member hmember => (List.of_mem_zip hmember).1

/-- An execution step changes one member of its plan, and no queue. -/
theorem ExecutionStep.member (h : ExecutionStep plan s s') :
    ∃ id ∈ plan.sequenceIds, ∃ t, s' = s.put id t := by
  cases h with
  | record h =>
    cases h with
    | record hid => exact ⟨_, hid, _, rfl⟩
  | slice hslice _ => exact ⟨_, (List.of_mem_zip hslice).1, _, rfl⟩
  | compact hid h =>
    obtain ⟨t, -, rfl⟩ := onSeq_ok.mp h
    exact ⟨_, hid, t, rfl⟩
  | store hid h =>
    obtain ⟨t, -, rfl⟩ := onSeq_ok.mp h
    exact ⟨_, hid, t, rfl⟩

theorem ExecutionStep.others (h : ExecutionStep plan s s') :
    KeepsOthers (· ∈ plan.sequenceIds) s s' := by
  obtain ⟨id, hid, t, rfl⟩ := h.member
  exact KeepsOthers.put t hid

theorem Executed.others (h : Executed plan s s') : KeepsOthers (· ∈ plan.sequenceIds) s s' := by
  induction h with
  | refl => exact Std.Refl.refl s
  | tail _ hlast ih => exact IsTrans.trans _ _ _ ih hlast.others

end Frame

/-! ## The plan of a paused prefill -/

namespace Scheduler

/-- A prefill plan that the scheduler would make again as it is: its members are running
prefills, and its slices are those of the sequences as they stand. -/
structure OnHold (s : Scheduler H) (plan : BatchPlan) : Prop where
  phase : plan.phase = .prefill
  members : ∀ id ∈ plan.sequenceIds, s.Paused id
  current : BatchPlan.create .prefill (plan.sequenceIds.map s.seqs) plan.scheduledTokenCounts
    plan.kvTransfers = .ok plan

variable {s s' : Scheduler H} {id : ℕ} {plan : BatchPlan}

theorem OnHold.later (h : s.OnHold plan)
    (hsame : ∀ id ∈ plan.sequenceIds, s'.Paused id ∧ s'.seqs id = s.seqs id) : s'.OnHold plan := by
  refine ⟨h.phase, fun id hid => (hsame id hid).1, ?_⟩
  rw [List.map_congr_left fun id hid => (hsame id hid).2]
  exact h.current

/-- A plan reads the request and the progress of its members only. -/
theorem create_congr {seqs seqs' : ℕ → Sequence H} {ids counts : List ℕ}
    {transfers : KVTransferPlan}
    (h : ∀ id ∈ ids, (seqs' id).request = (seqs id).request ∧
      (seqs' id).effectivePrefillStart = (seqs id).effectivePrefillStart) :
    BatchPlan.create .prefill (ids.map seqs') counts transfers =
      BatchPlan.create .prefill (ids.map seqs) counts transfers := by
  have hnames : (ids.map seqs').map (·.request.seqId) = (ids.map seqs).map (·.request.seqId) := by
    rw [List.map_map, List.map_map]
    exact List.map_congr_left fun id hid => congrArg Request.seqId (h id hid).1
  have hslices : ((ids.map seqs').zip counts).mapM
        (fun (item : Sequence H × ℕ) => BatchPlan.prefillSlice item.1 item.2) =
      ((ids.map seqs).zip counts).mapM
        (fun (item : Sequence H × ℕ) => BatchPlan.prefillSlice item.1 item.2) := by
    rw [List.zip_map_left, List.zip_map_left, List.mapM_map, List.mapM_map]
    refine mapM_congr fun item hitem => ?_
    obtain ⟨hrequest, hstart⟩ := h item.1 (List.of_mem_zip hitem).1
    change BatchPlan.prefillSlice (seqs' item.1) item.2 =
      BatchPlan.prefillSlice (seqs item.1) item.2
    unfold BatchPlan.prefillSlice Sequence.numPromptTokens
    rw [hrequest, hstart]
  unfold BatchPlan.create
  simp only [hnames, hslices, List.length_map, ne_eq, List.map_eq_nil_iff]

theorem OnHold.recordStep (h : s.OnHold plan) (hstep : RecordStep plan s s') : s'.OnHold plan := by
  cases hstep with
  | @record id record hid =>
    have hsame : ∀ other, ∃ decision, (s.put id ((s.view id).setSeq
        { s.seqs id with visualPruningDecisionRecord := some record })).seqs other =
          { s.seqs other with visualPruningDecisionRecord := decision } := by
      intro other
      by_cases heq : other = id
      · rw [heq, seqs_put_self]
        exact ⟨some record, rfl⟩
      · rw [seqs_put_of_ne heq]
        exact ⟨(s.seqs other).visualPruningDecisionRecord, rfl⟩
    refine ⟨h.phase, fun other hother => ⟨(h.members other hother).1, ?_⟩, ?_⟩
    · obtain ⟨decision, hseq⟩ := hsame other
      rw [HasStatus, hseq]
      exact (h.members other hother).2
    · rw [create_congr fun other _ => ?_]
      · exact h.current
      · obtain ⟨decision, hseq⟩ := hsame other
        rw [hseq]
        exact ⟨rfl, rfl⟩

theorem OnHold.recorded (h : s.OnHold plan) (hrecord : Recorded plan s s') : s'.OnHold plan := by
  induction hrecord with
  | refl => exact h
  | tail _ hlast ih => exact ih.recordStep hlast

/-- A new prefill plan is one that would be made again. -/
theorem PlanMade.onHold (hk : s.Kept) (h : PlanMade s plan s') (hphase : plan.phase = .prefill) :
    s'.OnHold plan := by
  cases h with
  | @prefill quiet mid planned tier running heavy hquiet _ hprefill =>
    obtain ⟨batch, -, hbatch, -, -, hsequences, hcreate⟩ :=
      prefillPlan_batch (hquiet.kept hk).1 hprefill
    refine ⟨hphase, ?_, ?_⟩
    · rw [hsequences]
      exact hbatch.paused
    · rw [hsequences, create_prefill hcreate, (create_ok hcreate).2.2.2.1]
      exact hcreate
  | decode hquiet _ hdecode =>
    have hn := (hquiet.kept hk).1.settled.nodup
    obtain ⟨_, -, hdecodes, -⟩ := decodePlan_steps hn hdecode
    rw [hphase] at hdecodes
    cases hdecodes

/-! ## Plans made beside it -/

/-- An admission round takes its request from the waiting queue. -/
theorem AdmitRound.added {batch next : PrefillBatchBuilder} (hk : s.Kept)
    (h : AdmitRound s batch (some next) s') :
    ∃ id ∈ s.waiting, next.sequences = batch.sequences ++ [id] := by
  cases h with
  | @admitted mid _ id candidate _ hsteps hwaiting _ hid _ halloc hadd =>
    have hmid := (hsteps.kept hk).1
    obtain ⟨copies, t, seq, found, hallocate, -, hfound, rfl, -, -⟩ :=
      allocateWaitingPrefill_ok halloc
    have hin : id ∈ mid.queued := by simp [hid]
    have hrequest : t.seq.request = (mid.seqs id).request := (BlockManager.Admitted.frame
      (BlockManager.allocate_admitted (hmid.ledger hin) hallocate).1).1
    have hname : found.sequence = id := by
      rw [(prefillCandidate_some hfound).1]
      change t.seq.request.seqId = id
      rw [hrequest]
      exact hmid.settled.named id (hmid.settled.known id hin)
    simp only [PrefillBatchBuilder.add, except_bind_ok, except_pure_ok] at hadd
    obtain ⟨_, -, _, -, rfl⟩ := hadd
    exact ⟨id, hwaiting ▸ hid, by rw [← hname]⟩

theorem AdmitRounds.apart {batch batch' : PrefillBatchBuilder} (hk : s.Kept) (hid : s.Paused id)
    (hbatch : id ∉ batch.sequences) (h : AdmitRounds s batch s' batch') :
    id ∉ batch'.sequences := by
  induction h with
  | refl => exact hbatch
  | stopped => exact hbatch
  | @admitted s mid s' batch next batch' hround _ ih =>
    obtain ⟨events, hsteps, -⟩ := hround.steps
    refine ih (hsteps.kept hk).1 (hsteps.paused_frame hk.settled.nodup hid).1 ?_
    obtain ⟨other, hother, hnext⟩ := AdmitRound.added hk hround
    rw [hnext, List.mem_append, List.mem_singleton]
    rintro (hold | rfl)
    · exact hbatch hold
    · exact ((queues_apart id hk.settled.nodup).1 hother).1 hid.1

theorem decodePlan_apart {residentOnly : Bool} {found : Option BatchPlan} (hk : s.Kept)
    (hid : s.Paused id) (h : decodePlan residentOnly s = .ok found s') :
    ∀ plan ∈ found, id ∉ plan.sequenceIds := by
  obtain ⟨events, hsteps, hreserves⟩ := decodePlan_steps hk.settled.nodup h
  have hs := (hsteps.kept hk).1.settled
  have hnone := (hsteps.paused_frame hk.settled.nodup hid).2.2
  intro plan hplan hmember
  obtain rfl := Option.mem_def.mp hplan
  obtain ⟨-, -, hids⟩ := hreserves
  rw [hids] at hmember
  obtain ⟨other, hother, hname⟩ := List.mem_map.mp hmember
  have hqueued := hsteps.reserved_queued hother
  have hknown : other ∈ s'.requests := by
    rw [hsteps.requests]
    exact hk.settled.known other hqueued
  rw [hs.named other hknown] at hname
  subst hname
  obtain ⟨event, hevent, hreserved⟩ := List.mem_filterMap.mp hother
  cases event with
  | reserved other =>
    obtain rfl := Option.some.inj hreserved
    exact hnone hevent
  | _ => cases hreserved

/-- Beside a paused prefill, plans are made of other requests. -/
theorem planned_apart {call : PlanningCall} (hk : s.Kept) (hbeside : call.BesidePaused)
    (hid : s.Paused id) (h : call.run s = .ok (some plan) s') : id ∉ plan.sequenceIds := by
  cases call with
  | schedule => cases hbeside
  | scheduleDecode => cases hbeside
  | schedulePrefill tier =>
    obtain ⟨recorded, _, hcall, hrest⟩ := bind_ok.mp h
    obtain ⟨hsome, rfl⟩ := pure_ok.mp hrest
    obtain rfl := Option.some.inj hsome
    simp only [schedulePrefill, bind_ok, get_ok, require_ok] at hcall
    obtain ⟨_, _, ⟨rfl, rfl⟩, _, _, ⟨-, rfl⟩, found, planned, hplan, hcall⟩ := hcall
    cases found with
    | none => simp at hcall
    | some found =>
      obtain ⟨_, -, rfl, -⟩ := recordPrefillPlan_ok hcall
      obtain ⟨batch, ⟨collected, hcollect, hadmit⟩, -, -, -, hsequences, -⟩ :=
        prefillPlan_batch hk hplan
      rw [if_neg Bool.false_ne_true] at hcollect
      obtain ⟨rfl, -⟩ := pure_ok.mp hcollect
      rw [hsequences]
      exact AdmitRounds.apart hk hid List.not_mem_nil (admitWaitingPrefills_ok hadmit)
  | scheduleResidentDecode =>
    change scheduleResidentDecode s = _ at h
    simp only [scheduleResidentDecode, bind_ok] at h
    obtain ⟨found, planned, hplan, h⟩ := h
    cases found with
    | none =>
      obtain ⟨hnone, -⟩ := pure_ok.mp h
      cases hnone
    | some found =>
      simp only [recordDecode, bind_ok, modify_ok, pure_ok] at h
      obtain ⟨_, _, -, hsome, -⟩ := h
      obtain rfl := Option.some.inj hsome
      exact decodePlan_apart hk hid hplan found rfl

end Scheduler

/-! ## Steps and runs beside it -/

/-- Batches of other requests, which left the members of the plan alone. -/
structure Beside (plan : BatchPlan) (s : Scheduler H) (results : List StepResult)
    (s' : Scheduler H) : Prop where
  members : ∀ id ∈ plan.sequenceIds, s'.Paused id ∧ s'.seqs id = s.seqs id
  apart : ∀ result ∈ results, ∀ id ∈ plan.sequenceIds, id ∉ result.plan.sequenceIds

section Beside

variable {s mid s' : Scheduler H} {plan : BatchPlan} {results more : List StepResult}

theorem Beside.trans (h : Beside plan s results mid) (h' : Beside plan mid more s') :
    Beside plan s (results ++ more) s' := by
  refine ⟨fun id hid => ?_, fun result hresult => ?_⟩
  · obtain ⟨-, hfirst⟩ := h.members id hid
    obtain ⟨hpaused, hsecond⟩ := h'.members id hid
    exact ⟨hpaused, hsecond.trans hfirst⟩
  · exact (List.mem_append.mp hresult).elim (h.apart result) (h'.apart result)

theorem Scheduler.OnHold.beside (hold : s.OnHold plan) (h : Beside plan s results s') :
    s'.OnHold plan :=
  hold.later h.members

/-- A call that touched none of the members. -/
theorem KeepsOthers.beside {touched : ℕ → Prop} (hold : s.OnHold plan)
    (h : KeepsOthers touched s s') (hothers : ∀ id ∈ plan.sequenceIds, ¬ touched id) :
    Beside plan s [] s' := by
  refine ⟨fun id hid => ?_, fun result hresult => absurd hresult List.not_mem_nil⟩
  exact ⟨h.paused (hothers id hid) (hold.members id hid), h.seqs id (hothers id hid)⟩

theorem SchedulerSteps.beside {events : List SchedulerEvent} (hk : s.Kept) (hold : s.OnHold plan)
    (h : SchedulerSteps s events s') : Beside plan s [] s' := by
  refine ⟨fun id hid => ?_, fun result hresult => absurd hresult List.not_mem_nil⟩
  obtain ⟨hpaused, hseq, -⟩ := h.paused_frame hk.settled.nodup (hold.members id hid)
  exact ⟨hpaused, hseq⟩

/-- While a prefill is paused, a step leaves its members alone or commits it. -/
theorem BatchStep.beside {l' : StepLoop H} (hk : s.Kept) (hold : s.OnHold plan)
    (h : BatchStep (s, some plan) results l') :
    (l'.2 = some plan ∧ Beside plan s results l'.1) ∨
      l'.2 = none ∧ ∃ result, results = [result] ∧ result.plan = plan := by
  cases h with
  | @search _ s' _ h =>
    left
    rcases scheduleResidentDecode_ok hk.settled.nodup h with ⟨-, events, hsteps, -⟩ | ⟨_, hnone, -⟩
    · exact ⟨rfl, hsteps.beside hk hold⟩
    · cases hnone
  | @batch _ planned done s' _ call batch tokens outputs hcall hbeside hexecute hcommit =>
    left
    have hother := hbeside.resolve_left (Option.some_ne_none plan)
    have hapart : ∀ id ∈ plan.sequenceIds, id ∉ batch.sequenceIds := fun id hid =>
      planned_apart hk hother (hold.members id hid) hcall
    obtain ⟨hnone, -⟩ | ⟨made, hsome, hmade⟩ := PlanningCall.made hk.settled.nodup hcall
    · cases hnone
    obtain ⟨events, hsteps, -⟩ := hmade.steps hk.settled.nodup
    have hplanned := hsteps.beside hk hold
    have hexecuted := hexecute.others.beside (hold.beside hplanned) hapart
    have hcommitted : KeepsOthers (· ∈ batch.sequenceIds) done s' :=
      (postprocess_others tokens).of_ok hcommit
    have hall := (hplanned.trans hexecuted).trans
      (hcommitted.beside ((hold.beside hplanned).beside hexecuted) hapart)
    refine ⟨rfl, hall.members, fun result hresult => ?_⟩
    obtain rfl := List.mem_singleton.mp hresult
    exact hapart
  | finish => exact .inr ⟨rfl, _, rfl, rfl⟩

/-- Until it is committed itself, batches are committed beside the paused prefill. -/
theorem BatchRun.beside {l' : StepLoop H} (hk : Engine.Kept (s, [plan])) (hold : s.OnHold plan)
    (h : BatchRun (s, some plan) results l') :
    (l'.2 = some plan ∧ Beside plan s results l'.1) ∨
      ∃ before result after, results = before ++ result :: after ∧ result.plan = plan ∧
        ∀ other ∈ before, ∀ id ∈ plan.sequenceIds, id ∉ other.plan.sequenceIds := by
  induction h with
  | refl =>
    left
    refine ⟨rfl, fun id hid => ⟨hold.members id hid, rfl⟩, ?_⟩
    exact fun result hresult => absurd hresult List.not_mem_nil
  | @tail mid l' past labels hbefore hlast ih =>
    rcases ih with ⟨hpending, hbeside⟩ | ⟨before, result, after, rfl, hplan, hapart⟩
    · obtain ⟨t, pending⟩ := mid
      obtain rfl : pending = some plan := hpending
      have hmid : t.Kept := (hk.run (LoopRun.run (BatchRun.loop hbefore))).1.scheduler
      rcases hlast.beside hmid (hold.beside hbeside) with ⟨hpending', hstep⟩ |
        ⟨-, result, rfl, hplan⟩
      · exact .inl ⟨hpending', hbeside.trans hstep⟩
      · exact .inr ⟨past, result, [], rfl, hplan, hbeside.apart⟩
    · exact .inr ⟨before, result, after ++ labels, by simp, hplan, hapart⟩

end Beside

/-- Only unknown requests are submitted. -/
theorem Scheduler.add_new {s s' : Scheduler H} {req : Request} {decision : AdmissionDecision}
    (h : Scheduler.add req s = .ok decision s') : req.seqId ∉ s.requests := by
  simp only [add, bind_ok, get_ok, require_ok] at h
  obtain ⟨_, _, ⟨rfl, rfl⟩, _, _, ⟨hnew, -⟩, -⟩ := h
  exact hnew

/-- A submitted request is none of the paused ones. -/
theorem Scheduler.OnHold.submitted {s s' : Scheduler H} {plan : BatchPlan} {req : Request}
    {decision : AdmissionDecision} (hk : s.Kept) (hold : s.OnHold plan)
    (h : Scheduler.add req s = .ok decision s') : Beside plan s [] s' := by
  have hothers := Always.of_ok (R := KeepsOthers (· = req.seqId)) (add_others rfl) h
  refine hothers.beside hold fun id hid => ?_
  rintro rfl
  exact add_new h (hk.settled.known _ (by simp [(hold.members _ hid).1]))

theorem Scheduler.OnHold.cancelled {s s' : Scheduler H} {plan : BatchPlan} {id : ℕ} {found : Bool}
    (hold : s.OnHold plan) (h : Scheduler.cancel id s = .ok found s')
    (hid : id ∉ plan.sequenceIds) :
    Beside plan s [] s' := by
  have hothers := Always.of_ok (R := KeepsOthers (· = id)) (cancel_others rfl) h
  refine hothers.beside hold fun other hother => ?_
  rintro rfl
  exact hid hother

/-- Every step keeps the paused plan on hold. -/
theorem LoopStep.onHold {l l' : StepLoop H} {results : List StepResult} (hk : l.1.Kept)
    (hold : ∀ plan ∈ l.2, l.1.OnHold plan) (h : LoopStep l results l') :
    ∀ plan ∈ l'.2, l'.1.OnHold plan := by
  intro plan hplan
  cases h with
  | submit h => exact (hold plan hplan).beside ((hold plan hplan).submitted hk h)
  | cancel h =>
    obtain ⟨hbefore, hother⟩ := Option.mem_filter_iff.mp hplan
    have hcancelled := (hold plan hbefore).cancelled h (by simpa using hother)
    exact (hold plan hbefore).beside hcancelled
  | @work l l' _ h =>
    obtain ⟨s, pending⟩ := l
    cases pending with
    | some paused =>
      rcases h.beside hk (hold paused rfl) with ⟨hpending, hbeside⟩ | ⟨hnone, -⟩
      · rw [hpending] at hplan
        obtain rfl := Option.some.inj hplan
        exact (hold paused rfl).beside hbeside
      · rw [hnone] at hplan
        cases hplan
    | none =>
      cases h with
      | search => cases hplan
      | batch => cases hplan
      | pause hcall hphase hrecord =>
        obtain rfl := Option.some.inj hplan
        exact (PlanMade.onHold hk (schedule_ok hk.settled.nodup hcall) hphase).recorded hrecord

/-! ## Between two calls -/

namespace LLMEngine

variable {config : LLMEngineConfig} {d d' : LLMEngine H} {plan : BatchPlan}
  {results : List StepResult}

theorem Reached.onHold (h : Reached config results d) :
    d.loop.engine.Kept ∧ ∀ plan ∈ d.pendingPrefill, d.scheduler.OnHold plan := by
  obtain ⟨schedulerConfig, numBlocks, blockSize, numCpuBlocks, caching, blockLevel,
    decodeCredit, heap, hrun⟩ := h
  have hloop := LLMEngineRun.loop hrun
  refine Trace.invariant (I := fun l => l.engine.Kept ∧ ∀ plan ∈ l.2, l.1.OnHold plan) ?_ ?_ hloop
  · rintro l labels l' ⟨hk, hold⟩ hstep
    exact ⟨(hk.run hstep.run).1, hstep.onHold hk.scheduler hold⟩
  · refine ⟨.initial schedulerConfig numBlocks blockSize numCpuBlocks caching blockLevel
      decodeCredit
      heap, fun plan hplan => ?_⟩
    cases hplan

/-- The paused prefill is still paused, and its members are as they were. -/
def Undisturbed (plan : BatchPlan) (d d' : LLMEngine H) : Prop :=
  d'.pendingPrefill = some plan ∧
    ∀ id ∈ plan.sequenceIds, d'.scheduler.Paused id ∧ d'.scheduler.seqs id = d.scheduler.seqs id

/-- In every state between two calls the paused plan is one the scheduler would make again, of
running prefills. A step commits it, or a batch of other requests that leaves it undisturbed;
so do arrivals and cancellations of others, and the cancellation of a member only drops it. -/
theorem paused_undisturbed (h : Reached config results d)
    (hpending : d.pendingPrefill = some plan) :
    d.scheduler.OnHold plan ∧
      (∀ input result d', nextStepResult config input d = .ok result d' → result.plan = plan ∨
        Undisturbed plan d d' ∧ ∀ id ∈ plan.sequenceIds, id ∉ result.plan.sequenceIds) ∧
      (∀ req decision d', submitSequence req d = .ok decision d' → Undisturbed plan d d') ∧
      (∀ id found d', cancelRequest id d = .ok found d' →
        if id ∈ plan.sequenceIds then d'.pendingPrefill = none ∧
          ∀ other ∈ plan.sequenceIds, other ≠ id →
            d'.scheduler.Paused other ∧ d'.scheduler.seqs other = d.scheduler.seqs other
        else Undisturbed plan d d') := by
  obtain ⟨hk, hall⟩ := h.onHold
  have hold := hall plan hpending
  have hloop : d.loop = (d.scheduler, some plan) := by rw [loop, hpending]
  rw [hloop] at hk
  refine ⟨hold, fun input result d' hstep => ?_, fun req decision d' hsubmit => ?_,
    fun id found d' hcancel => ?_⟩
  · have hrun := nextStepResult_run hstep
    rw [hloop] at hrun
    rcases hrun.beside hk hold with ⟨hpaused, hbeside⟩ | ⟨before, first, after, hresults, hplan, -⟩
    · exact .inr ⟨⟨hpaused, hbeside.members⟩, hbeside.apart result List.mem_cons_self⟩
    · left
      obtain ⟨-, hfirst, -⟩ : before = [] ∧ first = result ∧ after = [] := by
        cases before with
        | nil =>
          obtain ⟨hfirst, hafter⟩ := List.cons.inj hresults
          exact ⟨rfl, hfirst.symm, hafter.symm⟩
        | cons other before => simp at hresults
      rw [← hfirst]
      exact hplan
  · obtain ⟨s, hadd, rfl⟩ := onScheduler_ok.mp hsubmit
    exact ⟨hpending, (hold.submitted hk.scheduler hadd).members⟩
  · simp only [cancelRequest, bind_ok, get_ok, when_ok, modify_ok, onScheduler_ok] at hcancel
    obtain ⟨_, _, ⟨rfl, rfl⟩, _, mid, hdrop, s, hcall, rfl⟩ := hcancel
    split
    · next hmember =>
      rcases hdrop with ⟨-, rfl⟩ | ⟨hother, -⟩
      · refine ⟨rfl, fun other hin hne => ?_⟩
        have hothers := Always.of_ok (R := KeepsOthers (· = id)) (cancel_others rfl) hcall
        exact ⟨hothers.paused hne (hold.members other hin), hothers.seqs other hne⟩
      · exact absurd ⟨plan, hpending, hmember⟩ hother
    · next hother =>
      rcases hdrop with ⟨⟨paused, hpaused, hmember⟩, -⟩ | ⟨-, rfl⟩
      · rw [hpending] at hpaused
        obtain rfl := Option.some.inj hpaused
        exact absurd hmember hother
      · exact ⟨hpending, (hold.cancelled hcall hother).members⟩

/-- The second request of the example is paused while the first one decodes. -/
theorem paused_undisturbed_secondPaused : secondPaused.scheduler.OnHold secondPlan ∧
    (∀ input result d', nextStepResult cooperative input secondPaused = .ok result d' →
      result.plan = secondPlan ∨ Undisturbed secondPlan secondPaused d' ∧
        ∀ id ∈ secondPlan.sequenceIds, id ∉ result.plan.sequenceIds) := by
  obtain ⟨results, hreached, hpending⟩ := secondPaused_reached
  obtain ⟨hold, hstep, -⟩ := paused_undisturbed hreached hpending
  exact ⟨hold, hstep⟩

end LLMEngine

end PrismInfer
