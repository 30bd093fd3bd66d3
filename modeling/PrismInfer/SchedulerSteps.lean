import PrismInfer.Scheduler
import PrismInfer.ManagerSteps

/-!
# Scheduler methods as chains of scheduler steps

A step is the smallest part of a scheduler method after which queues, statuses and page
tables agree again. Sequences that the decode loop holds in local lists count as running.
-/
set_option linter.unusedSectionVars false

namespace PrismInfer
open StateExcept

variable {H : Type} [DecidableEq H] [Digests H]

namespace SchedulerEvent

/-- The copy-on-write pair of an event. -/
def copyOnWrite? : SchedulerEvent → Option BlockPair
  | .transfer (.copyOnWrite source target) => some (source, target)
  | _ => none

def swapOut? : SchedulerEvent → Option BlockPair
  | .transfer (.swapOut gpuPage cpuPage) => some (gpuPage, cpuPage)
  | _ => none

def swapIn? : SchedulerEvent → Option BlockPair
  | .transfer (.swapIn cpuPage gpuPage) => some (cpuPage, gpuPage)
  | _ => none

def reserved? : SchedulerEvent → Option ℕ
  | .reserved id => some id
  | _ => none

/-- The sequences that got room for their next token, in order. -/
def reservations (events : List SchedulerEvent) : List ℕ := events.filterMap reserved?

@[simp] theorem reservations_append (first second : List SchedulerEvent) :
    reservations (first ++ second) = reservations first ++ reservations second :=
  List.filterMap_append

end SchedulerEvent

namespace Scheduler

/-- The manager with sequence `id`. -/
def view (s : Scheduler H) (id : ℕ) : ManagerState H := ⟨s.blockManager, s.seqs id⟩

/-- Write the manager and sequence `id` back. -/
def put (s : Scheduler H) (id : ℕ) (t : ManagerState H) : Scheduler H :=
  { s with blockManager := t.manager, seqs := Function.update s.seqs id t.seq }

def log (s : Scheduler H) (events : List SchedulerEvent) : Scheduler H :=
  { s with events := s.events ++ events }

@[simp] theorem view_put (s : Scheduler H) (id : ℕ) (t : ManagerState H) :
    (s.put id t).view id = t := by
  simp [view, put]

@[simp] theorem put_view (s : Scheduler H) (id : ℕ) : s.put id (s.view id) = s := by
  simp [view, put]

@[simp] theorem put_put (s : Scheduler H) (id : ℕ) (t t' : ManagerState H) :
    (s.put id t).put id t' = s.put id t' := by
  simp [put]

@[simp] theorem seqs_put_self (s : Scheduler H) (id : ℕ) (t : ManagerState H) :
    (s.put id t).seqs id = t.seq := by
  simp [put]

theorem seqs_put_of_ne {s : Scheduler H} {id other : ℕ} {t : ManagerState H} (h : other ≠ id) :
    (s.put id t).seqs other = s.seqs other := by
  simp [put, h]

@[simp] theorem put_log (s : Scheduler H) (id : ℕ) (t : ManagerState H)
    (events : List SchedulerEvent) : (s.log events).put id t = (s.put id t).log events := rfl

@[simp] theorem view_log (s : Scheduler H) (id : ℕ) (events : List SchedulerEvent) :
    (s.log events).view id = s.view id := rfl

@[simp] theorem log_log (s : Scheduler H) (first second : List SchedulerEvent) :
    (s.log first).log second = s.log (first ++ second) := by
  simp [log]

@[simp] theorem log_nil (s : Scheduler H) : s.log [] = s := by
  simp [log]

@[simp] theorem seqs_log (s : Scheduler H) (events : List SchedulerEvent) :
    (s.log events).seqs = s.seqs := rfl

@[simp] theorem config_log (s : Scheduler H) (events : List SchedulerEvent) :
    (s.log events).config = s.config := rfl

@[simp] theorem config_put (s : Scheduler H) (id : ℕ) (t : ManagerState H) :
    (s.put id t).config = s.config := rfl

@[simp] theorem seq_setSeq (t : ManagerState H) (seq : Sequence H) : (t.setSeq seq).seq = seq := rfl

@[simp] theorem setSeq_setSeq (t : ManagerState H) (first second : Sequence H) :
    (t.setSeq first).setSeq second = t.setSeq second := rfl

variable {s s' : Scheduler H} {u : Unit} {id : ℕ}

@[simp] theorem readSeq_ok {seq : Sequence H} :
    readSeq id s = .ok seq s' ↔ s.seqs id = seq ∧ s = s' := by
  simp [readSeq, and_comm]

@[simp] theorem onSeq_ok {α : Type} {x : ManagerAction H α} {a : α} :
    onSeq id x s = .ok a s' ↔ ∃ t, x (s.view id) = .ok a t ∧ s.put id t = s' := by
  simp [onSeq, view, put]

@[simp] theorem modifySeq_ok {f : Sequence H → Sequence H} :
    modifySeq id f s = .ok u s' ↔ s.put id ((s.view id).setSeq (f (s.seqs id))) = s' := by
  simp [modifySeq, put, view, ManagerState.setSeq]

@[simp] theorem record_ok {event : SchedulerEvent} :
    record event s = .ok u s' ↔ s.log [event] = s' := by
  simp [record, log]

@[simp] theorem recordTransfers_ok {transfers : List Transfer} :
    recordTransfers transfers s = .ok u s' ↔ s.log (transfers.map .transfer) = s' := by
  simp [recordTransfers, log]

theorem transitionTo_ok {target : RequestState} :
    transitionTo id target s = .ok u s' ↔
      ∃ seq, (s.seqs id).transitionTo target = .ok seq ∧
        s.put id ((s.view id).setSeq seq) = s' := by
  simp only [transitionTo, bind_ok, readSeq_ok, readOnly_ok, modifySeq_ok]
  constructor
  · rintro ⟨_, _, ⟨rfl, rfl⟩, seq, _, ⟨h, rfl⟩, rfl⟩
    exact ⟨seq, h, rfl⟩
  · rintro ⟨seq, h, rfl⟩
    exact ⟨_, _, ⟨rfl, rfl⟩, seq, _, ⟨h, rfl⟩, rfl⟩

end Scheduler

open Scheduler

/-- One step of planning, with what it logs. -/
inductive SchedulerStep : Scheduler H → List SchedulerEvent → Scheduler H → Prop
  | probe {s : Scheduler H} {id n : ℕ} {t : ManagerState H} (hid : id ∈ s.waiting)
      (hprobe : BlockManager.cachedPrefixTokens (s.view id) = .ok n t) :
      SchedulerStep s [] (s.put id t)
  | select {s : Scheduler H} {index id : ℕ} (hid : s.waiting[index]? = some id) :
      SchedulerStep s [.selected id]
        { s.log [.selected id] with
          lightPrefillBypassesSinceHeavy := s.lightPrefillBypassesSinceHeavy +
            if 0 < index ∧ s.config.policy.sloOptions.isNone = true then 1 else 0 }
  | admitPrefill {s : Scheduler H} {id : ℕ} {t : ManagerState H} {copies : List BlockPrefixCopy}
      {seq : Sequence H} (hid : id ∈ s.waiting) (hroom : s.running.length < s.config.maxNumSeqs)
      (halloc : BlockManager.allocate (s.view id) = .ok copies t)
      (hseq : t.seq.skipCached.transitionTo .prefilling = .ok seq) :
      SchedulerStep s (copies.map (fun copy => .transfer copy.transfer) ++ [.admitted id])
        { (s.put id (t.setSeq seq)).log
            (copies.map (fun copy => .transfer copy.transfer) ++ [.admitted id]) with
          waiting := s.waiting.erase id
          running := s.running ++ [id] }
  | swapIn {s : Scheduler H} {id : ℕ} {rest : List ℕ} {t : ManagerState H}
      {pairs : List BlockPair} {seq : Sequence H} (hid : s.swapped = id :: rest)
      (hroom : s.running.length < s.config.maxNumSeqs)
      (hswap : BlockManager.swapIn (s.view id) = .ok pairs t)
      (hseq : t.seq.transitionTo .decoding = .ok seq) :
      SchedulerStep s (pairs.map fun pair => .transfer (.swapIn pair.1 pair.2))
        { (s.put id (t.setSeq seq)).log
            (pairs.map fun pair => .transfer (.swapIn pair.1 pair.2)) with
          swapped := rest
          running := s.running ++ [id] }
  | swapOut {s : Scheduler H} {id : ℕ} {running : List ℕ} {t : ManagerState H}
      {pairs : List BlockPair} {seq : Sequence H} (hrunning : s.running.Perm (id :: running))
      (hdecoding : s.HasStatus .decoding id)
      (hswap : BlockManager.swapOut (s.view id) = .ok pairs t)
      (hseq : t.seq.transitionTo .swapped = .ok seq) :
      SchedulerStep s
        (pairs.map (fun pair => .transfer (.swapOut pair.1 pair.2)) ++ [.swapPreempted id])
        { (s.put id (t.setSeq seq)).log
            (pairs.map (fun pair => .transfer (.swapOut pair.1 pair.2)) ++ [.swapPreempted id])
          with
          swapped := s.swapped ++ [id]
          running := running }
  | recompute {s : Scheduler H} {id : ℕ} {running : List ℕ} {t : ManagerState H}
      {seq : Sequence H} (hrunning : s.running.Perm (id :: running))
      (hdecoding : s.HasStatus .decoding id)
      (hfree : BlockManager.deallocate (s.view id) = .ok () t)
      (hseq : t.seq.restart.transitionTo .waiting = .ok seq) :
      SchedulerStep s [.recomputePreempted id]
        { (s.put id (t.setSeq seq)).log [.recomputePreempted id] with
          waiting := id :: s.waiting
          running := running }
  | reserve {s : Scheduler H} {id : ℕ} {t t' : ManagerState H} {pair : Option BlockPair}
      (hid : id ∈ s.running) (hdecoding : s.HasStatus .decoding id)
      (hcopy : ((s.seqs id).physicalKvLen % s.blockManager.blockSize = 1 ∧ pair = none ∧
          t = s.view id) ∨
        ((s.seqs id).physicalKvLen % s.blockManager.blockSize ≠ 1 ∧
          BlockManager.copyOnWrite (s.view id) = .ok pair t))
      (happend : BlockManager.mayAppend t = .ok () t') :
      SchedulerStep s
        (pair.toList.map (fun pair => .transfer (.copyOnWrite pair.1 pair.2)) ++ [.reserved id])
        ((s.put id t').log
          (pair.toList.map (fun pair => .transfer (.copyOnWrite pair.1 pair.2)) ++ [.reserved id]))
  | reorder {s : Scheduler H} {running : List ℕ} (hperm : running.Perm s.running) :
      SchedulerStep s [] { s with running := running }
  | countDecode {s : Scheduler H} :
      SchedulerStep s [] { s with
        consecutivePrefillBatches := 0
        decodeBatchesSinceHeavyPrefill := s.decodeBatchesSinceHeavyPrefill + 1 }
  | countPrefill {s : Scheduler H} {heavy : Bool} :
      SchedulerStep s [] { s with
        consecutivePrefillBatches := s.consecutivePrefillBatches + 1
        decodeBatchesSinceHeavyPrefill := if heavy then 0 else s.decodeBatchesSinceHeavyPrefill
        lightPrefillBypassesSinceHeavy :=
          if heavy then 0 else s.lightPrefillBypassesSinceHeavy }

/-- A chain of scheduler steps with what it logs. -/
inductive SchedulerSteps : Scheduler H → List SchedulerEvent → Scheduler H → Prop
  | refl (s : Scheduler H) : SchedulerSteps s [] s
  | head {s mid s' : Scheduler H} {events rest : List SchedulerEvent}
      (first : SchedulerStep s events mid) (next : SchedulerSteps mid rest s') :
      SchedulerSteps s (events ++ rest) s'

namespace SchedulerSteps

variable {s mid s' : Scheduler H} {events rest : List SchedulerEvent}

theorem single (h : SchedulerStep s events s') : SchedulerSteps s events s' := by
  have := SchedulerSteps.head h (.refl s')
  simpa using this

theorem trans (h₁ : SchedulerSteps s events mid) (h₂ : SchedulerSteps mid rest s') :
    SchedulerSteps s (events ++ rest) s' := by
  induction h₁ with
  | refl s => exact h₂
  | @head s mid₁ s₁ first tail hfirst _ ih =>
    rw [List.append_assoc]
    exact .head hfirst (ih h₂)

theorem trans_quiet (h₁ : SchedulerSteps s events mid) (h₂ : SchedulerSteps mid [] s') :
    SchedulerSteps s events s' := by
  simpa using h₁.trans h₂

end SchedulerSteps

/-- The requests in a queue, each with its multiplicity. -/
def Scheduler.queued (s : Scheduler H) : List ℕ := s.waiting ++ s.running ++ s.swapped

theorem SchedulerStep.queued_perm {events : List SchedulerEvent} {s s' : Scheduler H}
    (h : SchedulerStep s events s') :
    s'.queued.Perm s.queued := by
  cases h with
  | admitPrefill hid =>
    have hwaiting := (List.perm_cons_erase hid).append_right (s.running ++ s.swapped)
    refine List.Perm.trans ?_ ((by simpa [Scheduler.queued] using hwaiting) : s.queued.Perm _).symm
    simp only [Scheduler.queued, log, put, List.append_assoc]
    exact (List.perm_middle.append_left _).trans List.perm_middle
  | swapIn hid =>
    simp only [Scheduler.queued, hid, log, put, List.append_assoc]
    exact .refl _
  | @swapOut id running _ _ _ hrunning =>
    have hall := (hrunning.append_right s.swapped).append_left s.waiting
    simp only [Scheduler.queued, log, put, List.append_assoc] at hall ⊢
    refine List.Perm.trans ?_ hall.symm
    refine List.Perm.append_left _ ?_
    rw [← List.append_assoc]
    exact List.perm_append_singleton id (running ++ s.swapped)
  | @recompute id running _ _ hrunning =>
    have hall := (hrunning.append_right s.swapped).append_left s.waiting
    simp only [Scheduler.queued, log, put, List.append_assoc] at hall ⊢
    refine List.Perm.trans ?_ hall.symm
    exact List.perm_middle.symm
  | reorder hperm =>
    simp only [Scheduler.queued, List.append_assoc]
    exact (hperm.append_right _).append_left _
  | _ => exact .refl _

theorem SchedulerSteps.queued_perm {events : List SchedulerEvent} {s s' : Scheduler H}
    (h : SchedulerSteps s events s') :
    s'.queued.Perm s.queued := by
  induction h with
  | refl => exact .refl _
  | head hfirst _ ih => exact ih.trans hfirst.queued_perm

namespace Scheduler

variable {s s' : Scheduler H} {u : Unit} {id : ℕ}

/-! ### Prefill planning -/

theorem collectRunningPrefills_state {batch batch' : PrefillBatchBuilder} {ids : List ℕ}
    (h : collectRunningPrefills batch ids s = .ok batch' s') : s' = s := by
  induction ids generalizing batch with
  | nil => exact (pure_ok.mp h).2.symm
  | cons id ids ih =>
    simp only [collectRunningPrefills, bind_ok, get_ok] at h
    obtain ⟨_, _, ⟨rfl, rfl⟩, h⟩ := h
    split at h
    · exact ih h
    · split at h
      · exact (pure_ok.mp h).2.symm
      · simp only [bind_ok, readOnly_ok] at h
        obtain ⟨candidate, _, ⟨-, rfl⟩, h⟩ := h
        cases candidate with
        | none => exact (pure_ok.mp h).2.symm
        | some candidate =>
          simp only at h
          split at h
          · exact ih h
          · simp only [bind_ok, readOnly_ok] at h
            obtain ⟨_, _, ⟨-, rfl⟩, h⟩ := h
            split at h
            · exact (pure_ok.mp h).2.symm
            · exact ih h

theorem prefillCandidate_some {config : SchedulerConfig} {seq : Sequence H}
    {availableTokens : ℕ} {candidate : PrefillCandidate}
    (h : prefillCandidate config seq availableTokens = .ok (some candidate)) :
    candidate.sequence = seq.request.seqId ∧ candidate.copyPrefix = [] ∧
      candidate.tokenCount = config.policy.prefillTokenCount seq availableTokens ∧
      0 < candidate.tokenCount ∧
      seq.request.visionPatchCountForPrefillRange seq.effectivePrefillStart
        (seq.effectivePrefillStart + candidate.tokenCount) = .ok candidate.visionPatches := by
  simp only [prefillCandidate] at h
  split at h
  · simp at h
  · next hpos =>
    simp only [except_bind_ok, except_pure_ok, Option.some.injEq] at h
    obtain ⟨patches, hpatches, rfl⟩ := h
    exact ⟨rfl, rfl, rfl, Nat.pos_of_ne_zero hpos, hpatches⟩

/-- The state `allocateWaitingPrefill` leaves. -/
theorem allocateWaitingPrefill_ok {availableTokens : ℕ} {batch : PrefillBatchBuilder}
    {candidate : PrefillCandidate}
    (h : allocateWaitingPrefill id availableTokens batch s = .ok candidate s') :
    ∃ copies t seq found, BlockManager.allocate (s.view id) = .ok copies t ∧
      t.seq.skipCached.transitionTo .prefilling = .ok seq ∧
      prefillCandidate s.config t.seq.skipCached availableTokens = .ok (some found) ∧
      candidate = { found with copyPrefix := copies } ∧ batch.Accepts candidate ∧
      s' = { (s.put id (t.setSeq seq)).log
          (copies.map (fun copy => .transfer copy.transfer) ++ [.admitted id]) with
        waiting := s.waiting.erase id
        running := s.running ++ [id] } := by
  simp only [allocateWaitingPrefill, bind_ok, onSeq_ok, recordTransfers_ok, modifySeq_ok, get_ok,
    readOnly_ok] at h
  obtain ⟨copies, _, ⟨t, halloc, rfl⟩, _, _, rfl, _, _, rfl, _, _, ⟨rfl, rfl⟩, found, _,
    ⟨hcand, rfl⟩, h⟩ := h
  simp only [put_log, view_log, view_put, put_put, seqs_log, seqs_put_self, seq_setSeq, config_log,
    config_put] at h hcand
  cases found with
  | none => simp at h
  | some found =>
    simp only at h
    split at h
    · simp at h
    · next hacc =>
      simp only [bind_ok, tryExcept_ok, record_ok, modify_ok, pure_ok, throw_ok, and_false,
        exists_false, or_false, transitionTo_ok] at h
      obtain ⟨_, _, ⟨seq, hseq, rfl⟩, _, _, rfl, _, _, rfl, rfl, rfl⟩ := h
      simp only [seqs_log, seqs_put_self, seq_setSeq] at hseq
      refine ⟨copies, t, seq, found, halloc, hseq, hcand, rfl, not_not.mp hacc, ?_⟩
      simp only [put_log, view_log, view_put, put_put, setSeq_setSeq, log_log, List.map_map,
        Function.comp_def]
      rfl

theorem probeWaiting_steps {ids : List ℕ} (hids : ∀ id ∈ ids, id ∈ s.waiting)
    (h : forEach (fun id => do let _ ← onSeq id BlockManager.cachedPrefixTokens; pure ()) ids s =
      .ok u s') :
    SchedulerSteps s [] s' ∧ s'.waiting = s.waiting ∧ s'.running = s.running ∧
      s'.config = s.config := by
  induction ids generalizing s with
  | nil => exact forEach_nil_ok.mp h ▸ ⟨.refl s, rfl, rfl, rfl⟩
  | cons id ids ih =>
    obtain ⟨mid, hfirst, hrest⟩ := forEach_cons_ok.mp h
    simp only [bind_ok, onSeq_ok, pure_ok] at hfirst
    obtain ⟨n, _, ⟨t, hprobe, rfl⟩, -, rfl⟩ := hfirst
    have hstep : SchedulerSteps s [] (s.put id t) :=
      .single (.probe (hids id List.mem_cons_self) hprobe)
    have hmem : ∀ other ∈ ids, other ∈ (s.put id t).waiting :=
      fun other hmem => hids other (List.mem_cons_of_mem id hmem)
    obtain ⟨hsteps, hsame⟩ := ih hmem hrest
    exact ⟨hstep.trans hsteps, hsame⟩

theorem waitingIndices_lt {tier : Option ℕ} {indices : List ℕ}
    (h : s.waitingIndices tier = .ok indices) : ∀ i ∈ indices, i < s.waiting.length := by
  cases tier with
  | none =>
    simp only [waitingIndices, except_pure_ok] at h
    exact h ▸ fun i hi => List.mem_range.mp hi
  | some tier =>
    cases hoptions : s.config.policy.sloOptions with
    | none =>
      simp only [waitingIndices, hoptions, except_pure_ok] at h
      simp [← h]
    | some options =>
      simp only [waitingIndices, hoptions, except_bind_ok, except_pure_ok] at h
      obtain ⟨tiers, htiers, rfl⟩ := h
      intro i hi
      obtain ⟨⟨cost, j⟩, hmem, hj⟩ := List.mem_filterMap.mp hi
      obtain rfl : j = i := by
        simp only at hj
        split at hj
        · exact Option.some.inj hj
        · simp at hj
      have := (List.mem_zipIdx hmem).2.1
      rwa [← (mapM_ok.mp htiers).length_eq, zero_add] at this

/-- The request an admission round picks is waiting. -/
theorem getElem?_picked {tier : Option ℕ} {indices : List ℕ} (relativeIndex : ℕ)
    (hwaiting : s.waiting ≠ []) (h : s.waitingIndices tier = .ok indices) :
    s.waiting[indices.getD relativeIndex 0]? =
      some (s.waiting.getD (indices.getD relativeIndex 0) 0) := by
  have hlt : indices.getD relativeIndex 0 < s.waiting.length := by
    by_cases hr : relativeIndex < indices.length
    · rw [List.getD_eq_getElem?_getD, List.getElem?_eq_getElem hr]
      exact waitingIndices_lt h _ (List.getElem_mem hr)
    · rw [List.getD_eq_getElem?_getD, List.getElem?_eq_none (not_lt.mp hr)]
      exact List.length_pos_of_ne_nil hwaiting
  generalize indices.getD relativeIndex 0 = index at hlt
  simp [List.getD_eq_getElem?_getD, hlt]


/-- A round of admission: probes and a selection, then at most one request. -/
inductive AdmitRound (s : Scheduler H) (batch : PrefillBatchBuilder) :
    Option PrefillBatchBuilder → Scheduler H → Prop
  | stopped {events : List SchedulerEvent} {mid : Scheduler H}
    (hsteps : SchedulerSteps s events mid)
      (hevents : events = [] ∨ ∃ id, events = [.selected id])
      (hwaiting : mid.waiting = s.waiting) (hrunning : mid.running = s.running) :
      AdmitRound s batch none mid
  | admitted {mid s' : Scheduler H} {id : ℕ} {candidate : PrefillCandidate}
      {next : PrefillBatchBuilder} (hsteps : SchedulerSteps s [.selected id] mid)
      (hwaiting : mid.waiting = s.waiting)
      (hrunning : mid.running = s.running) (hid : id ∈ mid.waiting)
      (hroom : mid.running.length < mid.config.maxNumSeqs)
      (halloc : allocateWaitingPrefill id batch.availableTokens batch mid = .ok candidate s')
      (hadd : batch.add candidate = .ok next) : AdmitRound s batch (some next) s'

theorem admitOne_ok {tier : Option ℕ} {hasDecode : Bool} {batch : PrefillBatchBuilder}
    {batch' : Option PrefillBatchBuilder} (h : admitOne tier hasDecode batch s = .ok batch' s') :
    AdmitRound s batch batch' s' := by
  simp only [admitOne, bind_ok, get_ok] at h
  obtain ⟨_, _, ⟨rfl, rfl⟩, h⟩ := h
  split at h
  · obtain ⟨rfl, rfl⟩ := pure_ok.mp h
    exact .stopped (.refl s) (.inl rfl) rfl rfl
  · next hgo =>
    obtain ⟨hne, hroom, -⟩ : s.waiting ≠ [] ∧ s.running.length < s.config.maxNumSeqs ∧ True := by
      tauto
    simp only [bind_ok, get_ok, readOnly_ok] at h
    obtain ⟨_, probed, hprobe, _, _, ⟨rfl, rfl⟩, indices, _, ⟨hindices, rfl⟩, h⟩ := h
    obtain ⟨hprobed, hwaiting, hrunning, hconfig⟩ := probeWaiting_steps (fun _ hmem => hmem) hprobe
    split at h
    · obtain ⟨rfl, rfl⟩ := pure_ok.mp h
      exact .stopped hprobed (.inl rfl) hwaiting hrunning
    · simp only [bind_ok, readOnly_ok] at h
      obtain ⟨found, _, ⟨hfound, rfl⟩, h⟩ := h
      cases found with
      | none =>
        obtain ⟨rfl, rfl⟩ := pure_ok.mp h
        exact .stopped hprobed (.inl rfl) hwaiting hrunning
      | some relativeIndex =>
        have hpicked := getElem?_picked relativeIndex (hwaiting ▸ hne) hindices
        set index := indices.getD relativeIndex 0
        set id := probed.waiting.getD index 0
        simp only [bind_ok, record_ok, when_ok, modify_ok, readOnly_ok] at h
        obtain ⟨_, _, rfl, _, mid, hcount, cobatch, _, ⟨-, rfl⟩, h⟩ := h
        have hselected : mid = { probed.log [.selected id] with
            lightPrefillBypassesSinceHeavy := probed.lightPrefillBypassesSinceHeavy +
              if 0 < index ∧ probed.config.policy.sloOptions.isNone = true then 1 else 0 } := by
          rcases hcount with ⟨hc, rfl⟩ | ⟨hc, rfl⟩
          · rw [if_pos hc]
            rfl
          · rw [if_neg hc]
            rfl
        have hsteps : SchedulerSteps s [.selected id] mid := by
          rw [hselected]
          exact hprobed.trans (.single (.select hpicked))
        have hmid : mid.waiting = probed.waiting ∧ mid.running = probed.running ∧
            mid.config = probed.config := by
          rw [hselected]
          exact ⟨rfl, rfl, rfl⟩
        have hwaiting' : mid.waiting = s.waiting := hmid.1.trans hwaiting
        have hrunning' : mid.running = s.running := hmid.2.1.trans hrunning
        split at h
        · simp only [bind_ok, readOnly_ok] at h
          obtain ⟨candidate, _, ⟨-, rfl⟩, h⟩ := h
          cases candidate with
          | none =>
            obtain ⟨rfl, rfl⟩ := pure_ok.mp h
            exact .stopped hsteps (.inr ⟨id, rfl⟩) hwaiting' hrunning'
          | some candidate =>
            simp only [bind_ok, readOnly_ok] at h
            obtain ⟨fits, _, ⟨-, rfl⟩, h⟩ := h
            split at h
            · obtain ⟨rfl, rfl⟩ := pure_ok.mp h
              exact .stopped hsteps (.inr ⟨id, rfl⟩) hwaiting' hrunning'
            · simp only [bind_ok, readOnly_ok, pure_ok] at h
              obtain ⟨allocated, _, halloc, next, _, ⟨hadd, rfl⟩, rfl, rfl⟩ := h
              refine .admitted hsteps hwaiting' hrunning' ?_ ?_ halloc hadd
              · rw [hmid.1]
                exact List.mem_of_getElem? hpicked
              · rw [hrunning', hmid.2.2, hconfig]
                exact hroom
        · obtain ⟨rfl, rfl⟩ := pure_ok.mp h
          exact .stopped hsteps (.inr ⟨id, rfl⟩) hwaiting' hrunning'

/-- The rounds of admission, up to the one that stops. -/
inductive AdmitRounds : Scheduler H → PrefillBatchBuilder → Scheduler H → PrefillBatchBuilder → Prop
  | refl (s : Scheduler H) (batch : PrefillBatchBuilder) : AdmitRounds s batch s batch
  | stopped {s s' : Scheduler H} {batch : PrefillBatchBuilder} (h : AdmitRound s batch none s') :
      AdmitRounds s batch s' batch
  | admitted {s mid s' : Scheduler H} {batch next batch' : PrefillBatchBuilder}
      (h : AdmitRound s batch (some next) mid) (hrest : AdmitRounds mid next s' batch') :
      AdmitRounds s batch s' batch'

theorem admitWaitingPrefills_ok {tier : Option ℕ} {hasDecode : Bool} {fuel : ℕ}
    {batch batch' : PrefillBatchBuilder}
    (h : admitWaitingPrefills tier hasDecode fuel batch s = .ok batch' s') :
    AdmitRounds s batch s' batch' := by
  induction fuel generalizing s batch with
  | zero =>
    obtain ⟨rfl, rfl⟩ := pure_ok.mp h
    exact .refl s batch
  | succ fuel ih =>
    simp only [admitWaitingPrefills, bind_ok] at h
    obtain ⟨next, mid, hround, h⟩ := h
    have hround := admitOne_ok hround
    cases next with
    | none =>
      obtain ⟨rfl, rfl⟩ := pure_ok.mp h
      exact .stopped hround
    | some next => exact .admitted hround (ih h)

theorem allocateWaitingPrefill_step {availableTokens : ℕ} {batch : PrefillBatchBuilder}
    {candidate : PrefillCandidate} (hid : id ∈ s.waiting)
    (hroom : s.running.length < s.config.maxNumSeqs)
    (h : allocateWaitingPrefill id availableTokens batch s = .ok candidate s') :
    SchedulerStep s (candidate.copyPrefix.map (fun copy => .transfer copy.transfer) ++
      [.admitted id])
      s' := by
  obtain ⟨copies, t, seq, found, halloc, hseq, -, rfl, -, rfl⟩ := allocateWaitingPrefill_ok h
  exact .admitPrefill hid hroom halloc hseq

theorem AdmitRound.steps {batch : PrefillBatchBuilder} {batch' : Option PrefillBatchBuilder}
    (h : AdmitRound s batch batch' s') :
    ∃ events, SchedulerSteps s events s' ∧ SchedulerEvent.reservations events = [] := by
  cases h with
  | stopped hsteps hevents =>
    refine ⟨_, hsteps, ?_⟩
    obtain rfl | ⟨id, rfl⟩ := hevents <;> rfl
  | admitted hsteps _ _ hid hroom halloc =>
    refine ⟨_, hsteps.trans (.single (allocateWaitingPrefill_step hid hroom halloc)), ?_⟩
    refine List.filterMap_eq_nil_iff.mpr fun event hevent => ?_
    simp only [List.cons_append, List.nil_append, List.mem_cons, List.mem_append, List.mem_map,
      List.not_mem_nil, or_false] at hevent
    obtain rfl | ⟨_, _, rfl⟩ | rfl := hevent <;> rfl

theorem AdmitRounds.steps {batch batch' : PrefillBatchBuilder} (h : AdmitRounds s batch s' batch') :
    ∃ events, SchedulerSteps s events s' ∧ SchedulerEvent.reservations events = [] := by
  induction h with
  | refl s => exact ⟨[], .refl s, rfl⟩
  | stopped h => exact h.steps
  | admitted h _ ih =>
    obtain ⟨first, hfirst, hnone⟩ := h.steps
    obtain ⟨rest, hrest, hnone'⟩ := ih
    exact ⟨_, hfirst.trans hrest, by simp [hnone, hnone']⟩

/-- The batch before any sequence is in it. -/
def emptyBatch (config : SchedulerConfig) : PrefillBatchBuilder where
  maxTokens := config.maxNumBatchedTokens
  maxSequences := config.maxNumSeqs
  maxVisionPatches := config.maxVisionPatchesPerBatch
  sequences := []
  tokenCounts := []
  copyPrefix := []
  numTokens := 0
  numVisionPatches := 0

theorem prefillPlan_ok {tier : Option ℕ} {running : Bool} {plan : Option BatchPlan}
    (h : prefillPlan tier running s = .ok plan s') :
    ∃ collected batch, collectRunningPrefills (emptyBatch s.config)
        (if running then s.running else []) s = .ok collected s ∧
      AdmitRounds s collected s' batch ∧
      ((plan = none ∧ batch.sequences = []) ∨ batch.sequences ≠ [] ∧
        ∃ p, plan = some p ∧ BatchPlan.create .prefill (batch.sequences.map s'.seqs)
          batch.tokenCounts { KVTransferPlan.empty with copyPrefix := batch.copyPrefix } =
            .ok p) := by
  simp only [prefillPlan, bind_ok, get_ok] at h
  obtain ⟨_, _, ⟨rfl, rfl⟩, collected, mid, hcollect, batch, admitted, hrounds, h⟩ := h
  obtain rfl := collectRunningPrefills_state hcollect
  refine ⟨collected, batch, hcollect, ?_⟩
  split at h
  · next hempty =>
    obtain ⟨rfl, rfl⟩ := pure_ok.mp h
    exact ⟨admitWaitingPrefills_ok hrounds, .inl ⟨rfl, hempty⟩⟩
  · next hne =>
    simp only [bind_ok, get_ok, readOnly_ok, pure_ok] at h
    obtain ⟨_, _, ⟨rfl, rfl⟩, p, _, ⟨hplan, rfl⟩, rfl, rfl⟩ := h
    exact ⟨admitWaitingPrefills_ok hrounds, .inr ⟨hne, p, rfl, hplan⟩⟩

end Scheduler

end PrismInfer
