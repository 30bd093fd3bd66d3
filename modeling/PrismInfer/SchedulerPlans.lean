import PrismInfer.DecodeMoves

/-!
# How planning calls come to a plan

`schedule` and its variants search in a fixed order. A search that finds nothing still
moves the scheduler by steps; the search that finds a plan ends with the counters.
-/
set_option linter.unusedSectionVars false

namespace PrismInfer
open StateExcept

variable {H : Type} [DecidableEq H] [Digests H]

namespace Scheduler

open SchedulerEvent

variable {s s' : Scheduler H} {u : Unit} {id : ℕ} {plan : BatchPlan}

theorem prefillPlan_steps {tier : Option ℕ} {running : Bool} {found : Option BatchPlan}
    (h : prefillPlan tier running s = .ok found s') :
    ∃ events, SchedulerSteps s events s' ∧ reservations events = [] := by
  obtain ⟨_, _, -, hrounds, -⟩ := prefillPlan_ok h
  exact hrounds.steps

theorem decodePlan_steps {residentOnly : Bool} {found : Option BatchPlan} (hn : s.queued.Nodup)
    (h : decodePlan residentOnly s = .ok found s') :
    ∃ events, SchedulerSteps s events s' ∧ PlanReserves s' events found :=
  (decodePlan_ok h).steps hn

/-- The counters after a prefill plan. -/
def countPrefill (s : Scheduler H) (heavy : Bool) : Scheduler H :=
  { s with
    consecutivePrefillBatches := s.consecutivePrefillBatches + 1
    decodeBatchesSinceHeavyPrefill := if heavy then 0 else s.decodeBatchesSinceHeavyPrefill
    lightPrefillBypassesSinceHeavy := if heavy then 0 else s.lightPrefillBypassesSinceHeavy }

/-- The counters after a decode plan. -/
def countDecode (s : Scheduler H) : Scheduler H :=
  { s with
    consecutivePrefillBatches := 0
    decodeBatchesSinceHeavyPrefill := s.decodeBatchesSinceHeavyPrefill + 1 }

theorem recordPrefillPlan_ok {recorded : BatchPlan}
    (h : recordPrefillPlan plan s = .ok recorded s') :
    ∃ patches, plan.numScheduledVisionPatches s.seqs = .ok patches ∧ recorded = plan ∧
      s' = s.countPrefill (s.config.policy.isHeavyPrefill patches) := by
  simp only [recordPrefillPlan, bind_ok, modify_ok, get_ok, readOnly_ok, when_ok, pure_ok] at h
  obtain ⟨_, _, rfl, _, _, ⟨rfl, rfl⟩, patches, _, ⟨hpatches, rfl⟩, _, _, hcount, rfl, rfl⟩ := h
  refine ⟨patches, hpatches, rfl, ?_⟩
  rcases hcount with ⟨hheavy, rfl⟩ | ⟨hlight, rfl⟩
  · simp [countPrefill, hheavy]
  · simp only [Bool.not_eq_true] at hlight
    simp [countPrefill, hlight]

/-- How a planning call comes to a plan, after searches that found none. -/
inductive PlanMade (s : Scheduler H) (plan : BatchPlan) : Scheduler H → Prop
  | prefill {quiet : List SchedulerEvent} {mid planned : Scheduler H} {tier : Option ℕ}
      {running heavy : Bool} (hquiet : SchedulerSteps s quiet mid)
      (hnone : reservations quiet = [])
      (h : prefillPlan tier running mid = .ok (some plan) planned) :
      PlanMade s plan (planned.countPrefill heavy)
  | decode {quiet : List SchedulerEvent} {mid planned : Scheduler H} {residentOnly : Bool}
      (hquiet : SchedulerSteps s quiet mid) (hnone : reservations quiet = [])
      (h : decodePlan residentOnly mid = .ok (some plan) planned) :
      PlanMade s plan planned.countDecode

theorem PlanMade.after {mid : Scheduler H} {quiet : List SchedulerEvent}
    (hquiet : SchedulerSteps s quiet mid) (hnone : reservations quiet = [])
    (h : PlanMade mid plan s') : PlanMade s plan s' := by
  cases h with
  | prefill hmore hnone' h => exact .prefill (hquiet.trans hmore) (by simp [hnone, hnone']) h
  | decode hmore hnone' h => exact .decode (hquiet.trans hmore) (by simp [hnone, hnone']) h

/-- The steps of a planning call reserve pages for the members of a decode plan, and for
them only. -/
theorem PlanMade.steps (hn : s.queued.Nodup) (h : PlanMade s plan s') :
    ∃ events, SchedulerSteps s events s' ∧
      ((plan.phase = .prefill ∧ reservations events = []) ∨
        PlanReserves s' events (some plan)) := by
  cases h with
  | prefill hquiet hnone h =>
    obtain ⟨events, hsteps, hnone'⟩ := prefillPlan_steps h
    obtain ⟨_, _, -, -, ⟨hplan, -⟩ | ⟨-, p, hplan, hcreate⟩⟩ := prefillPlan_ok h
    · cases hplan
    · obtain rfl := Option.some.inj hplan
      refine ⟨_, (hquiet.trans hsteps).trans (.single .countPrefill),
        .inl ⟨(create_ok hcreate).1, ?_⟩⟩
      simp [hnone, hnone']
  | decode hquiet hnone h =>
    obtain ⟨events, hsteps, hphase, hnodup, hids⟩ :=
      decodePlan_steps (hquiet.queued_perm.nodup_iff.mpr hn) h
    refine ⟨_, (hquiet.trans hsteps).trans (.single .countDecode), .inr ⟨hphase, ?_, ?_⟩⟩
    · simpa [hnone] using hnodup
    · simp only [reservations_append, hnone, List.append_nil, List.nil_append]
      exact hids

theorem recordPrefillPlan_made {tier : Option ℕ} {running : Bool} {found recorded : BatchPlan}
    {planned : Scheduler H} (hplan : prefillPlan tier running s = .ok (some found) planned)
    (h : recordPrefillPlan found planned = .ok recorded s') : PlanMade s recorded s' := by
  obtain ⟨_, -, rfl, rfl⟩ := recordPrefillPlan_ok h
  exact .prefill (.refl s) rfl hplan

theorem schedulePrefill_ok {tier : Option ℕ} (h : schedulePrefill tier s = .ok plan s') :
    PlanMade s plan s' := by
  simp only [schedulePrefill, bind_ok, get_ok, require_ok] at h
  obtain ⟨_, _, ⟨rfl, rfl⟩, _, _, ⟨-, rfl⟩, found, planned, hplan, h⟩ := h
  cases found with
  | none => simp at h
  | some found => exact recordPrefillPlan_made hplan h

theorem scheduleDecode_ok (h : scheduleDecode s = .ok plan s') : PlanMade s plan s' := by
  simp only [scheduleDecode, bind_ok, get_ok, require_ok] at h
  obtain ⟨_, _, ⟨rfl, rfl⟩, _, _, ⟨-, rfl⟩, found, planned, hplan, h⟩ := h
  cases found with
  | none => simp at h
  | some found =>
    simp only [recordDecode, bind_ok, modify_ok, pure_ok] at h
    obtain ⟨_, _, rfl, rfl, rfl⟩ := h
    exact .decode (.refl s) rfl hplan

theorem scheduleResidentDecode_ok {found : Option BatchPlan} (hn : s.queued.Nodup)
    (h : scheduleResidentDecode s = .ok found s') :
    (found = none ∧ ∃ events, SchedulerSteps s events s' ∧ reservations events = []) ∨
      ∃ plan, found = some plan ∧ PlanMade s plan s' := by
  simp only [scheduleResidentDecode, bind_ok] at h
  obtain ⟨found, planned, hplan, h⟩ := h
  cases found with
  | none =>
    obtain ⟨rfl, rfl⟩ := pure_ok.mp h
    exact .inl ⟨rfl, decodePlan_steps hn hplan⟩
  | some found =>
    simp only [recordDecode, bind_ok, modify_ok, pure_ok] at h
    obtain ⟨_, _, rfl, rfl, rfl⟩ := h
    exact .inr ⟨found, rfl, .decode (.refl s) rfl hplan⟩

theorem scheduleWithoutPrefill_ok {runningPrefill : Bool} (hn : s.queued.Nodup)
    (h : scheduleWithoutPrefill runningPrefill s = .ok plan s') : PlanMade s plan s' := by
  unfold scheduleWithoutPrefill at h
  split at h
  · simp only [bind_ok] at h
    obtain ⟨found, mid, hresident, h⟩ := h
    obtain ⟨rfl, events, hsteps, hnone⟩ | ⟨plan', rfl, hmade⟩ :=
      scheduleResidentDecode_ok hn hresident
    · simp only [bind_ok] at h
      obtain ⟨found, planned, hplan, h⟩ := h
      cases found with
      | none =>
        obtain ⟨events', hsteps', hnone'⟩ := prefillPlan_steps hplan
        exact (scheduleDecode_ok h).after (hsteps.trans hsteps') (by simp [hnone, hnone'])
      | some found => exact (recordPrefillPlan_made hplan h).after hsteps hnone
    · obtain ⟨rfl, rfl⟩ := pure_ok.mp h
      exact hmade
  · exact scheduleDecode_ok h

theorem schedule_ok (hn : s.queued.Nodup) (h : schedule s = .ok plan s') : PlanMade s plan s' := by
  simp only [schedule, bind_ok, get_ok] at h
  obtain ⟨_, _, ⟨rfl, rfl⟩, h⟩ := h
  split at h
  · simp only [bind_ok] at h
    obtain ⟨found, planned, hplan, h⟩ := h
    cases found with
    | none =>
      obtain ⟨events, hsteps, hnone⟩ := prefillPlan_steps hplan
      exact (scheduleWithoutPrefill_ok (hsteps.queued_perm.nodup_iff.mpr hn) h).after hsteps hnone
    | some found => exact recordPrefillPlan_made hplan h
  · exact scheduleWithoutPrefill_ok hn h

end Scheduler

end PrismInfer
