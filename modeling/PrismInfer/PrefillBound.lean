import PrismInfer.DecodeMoves
import PrismInfer.KVCompactionEq
import PrismInfer.Lib.EveryRun
import PrismInfer.SchedulerPlans

/-!
# Prefill cannot starve resident decodes

A planning call that finds a resident sequence with room for its next token returns a prefill
plan only below the limit of consecutive prefill batches. The count goes up with every such
plan, and nothing between two planning calls takes it back while a sequence is resident.
-/
set_option linter.unusedSectionVars false

namespace PrismInfer
open StateExcept EveryRun

variable {H : Type} [DecidableEq H] [Digests H]

namespace Scheduler

variable {s s' : Scheduler H} {id : ℕ} {plan : BatchPlan}

/-- Some resident sequence can decode its next token. -/
def CanDecode (s : Scheduler H) : Prop :=
  ∃ id ∈ s.running, s.HasStatus .decoding id ∧ s.blockManager.canAppend (s.seqs id) = .ok true

/-- `reset_metrics`, which an idle scheduler alone allows. -/
def resetMetrics : SchedulerAction H Unit := do
  let s ← get
  require (s.waiting = [] ∧ s.running = [] ∧ s.swapped = []) (.scheduler .metricsNotIdle)
  modify fun s => { s with
    requests := []
    consecutivePrefillBatches := 0
    decodeBatchesSinceHeavyPrefill :=
      match s.config.policy.kind with
      | .visionAware options => options.minDecodeBatchesBetweenHeavyPrefills
      | _ => 1
    lightPrefillBypassesSinceHeavy := 0 }

/-! ## The decode plan of a resident sequence -/

theorem secureAppend_resident {fuel : ℕ} {candidates : List ℕ} {swapOutMap : List BlockPair}
    {result : Bool × List ℕ × List BlockPair}
    (h : secureAppend true id fuel candidates swapOutMap s = .ok result s') :
    (s.blockManager.canAppend (s.seqs id) = .ok true ∧ result = (true, candidates, swapOutMap) ∧
      s' = s) ∨
    (s.blockManager.canAppend (s.seqs id) = .ok false ∧ result = (false, candidates, swapOutMap) ∧
      s' = { s with running := s.running ++ [id] }) := by
  have hround : ∃ next, secureRound true id next candidates swapOutMap s = .ok result s' := by
    cases fuel with
    | zero => exact ⟨_, h⟩
    | succ fuel => exact ⟨_, h⟩
  obtain ⟨next, hround⟩ := hround
  simp only [secureRound, bind_ok, get_ok, readOnly_ok] at hround
  obtain ⟨_, _, ⟨rfl, rfl⟩, fits, _, ⟨hfits, rfl⟩, hround⟩ := hround
  cases fits with
  | true =>
    obtain ⟨rfl, rfl⟩ := pure_ok.mp hround
    exact .inl ⟨hfits, rfl, rfl⟩
  | false =>
    simp only [Bool.false_eq_true, if_false, if_true, bind_ok, modify_ok, pure_ok] at hround
    obtain ⟨_, _, rfl, rfl, rfl⟩ := hround
    exact .inr ⟨hfits, rfl, rfl⟩

theorem decodeLoop_keeps {fuel : ℕ} {candidates rest : List ℕ} {draft draft' : DecodeDraft}
    (h : decodeLoop true fuel candidates draft s = .ok (rest, draft') s') :
    draft.scheduled.length ≤ draft'.scheduled.length := by
  induction fuel generalizing s candidates draft with
  | zero =>
    obtain ⟨hpair, -⟩ := pure_ok.mp h
    obtain ⟨-, rfl⟩ := Prod.mk.inj hpair
    exact le_rfl
  | succ fuel ih =>
    cases candidates with
    | nil =>
      obtain ⟨hpair, -⟩ := pure_ok.mp h
      obtain ⟨-, rfl⟩ := Prod.mk.inj hpair
      exact le_rfl
    | cons head tail =>
      simp only [decodeLoop, bind_ok, get_ok] at h
      obtain ⟨_, _, ⟨rfl, rfl⟩, h⟩ := h
      split at h
      · obtain ⟨hpair, -⟩ := pure_ok.mp h
        obtain ⟨-, rfl⟩ := Prod.mk.inj hpair
        exact le_rfl
      · simp only [bind_ok] at h
        obtain ⟨⟨secured, left, swapOutMap⟩, mid, -, h⟩ := h
        cases secured with
        | true =>
          simp only [if_true, bind_ok] at h
          obtain ⟨pair, _, -, h⟩ := h
          have hmore := ih h
          rw [List.length_append, List.length_singleton] at hmore
          omega
        | false =>
          simp only [Bool.false_eq_true, if_false] at h
          have hmore := ih h
          exact hmore

/-- The loop schedules somebody when one of its candidates can append: a candidate that
cannot is put back, and nothing else changes. -/
theorem decodeLoop_schedules {fuel : ℕ} {candidates rest : List ℕ} {draft draft' : DecodeDraft}
    (hfuel : candidates.length ≤ fuel) (hid : id ∈ candidates)
    (hfits : s.blockManager.canAppend (s.seqs id) = .ok true) (hempty : draft.scheduled = [])
    (h : decodeLoop true fuel candidates draft s = .ok (rest, draft') s') :
    draft'.scheduled ≠ [] := by
  induction fuel generalizing s candidates draft with
  | zero =>
    obtain rfl := List.eq_nil_of_length_eq_zero (Nat.le_zero.mp hfuel)
    exact absurd hid List.not_mem_nil
  | succ fuel ih =>
    cases candidates with
    | nil => exact absurd hid List.not_mem_nil
    | cons head tail =>
      simp only [decodeLoop, bind_ok, get_ok] at h
      obtain ⟨_, _, ⟨rfl, rfl⟩, h⟩ := h
      have hroom : draft.scheduled.length < s.config.maxNumSeqs := by
        rw [hempty]
        exact s.config.policy.limits.maxNumSeqs_pos
      rw [if_neg (not_not.mpr hroom)] at h
      simp only [bind_ok] at h
      obtain ⟨⟨secured, left, swapOutMap⟩, mid, hsecure, h⟩ := h
      obtain ⟨-, hresult, rfl⟩ | ⟨hfull, hresult, rfl⟩ := secureAppend_resident hsecure
      · obtain ⟨rfl, rfl, rfl⟩ : secured = true ∧ left = tail ∧ swapOutMap = draft.swapOutMap := by
          simpa using hresult
        simp only [if_true, bind_ok] at h
        obtain ⟨pair, _, -, h⟩ := h
        have hmore := decodeLoop_keeps h
        rw [List.length_append, List.length_singleton] at hmore
        exact List.ne_nil_of_length_pos (by omega)
      · obtain ⟨rfl, rfl, rfl⟩ : secured = false ∧ left = tail ∧ swapOutMap = draft.swapOutMap := by
          simpa using hresult
        have hne : id ≠ head := by
          rintro rfl
          rw [hfits] at hfull
          exact absurd (Except.ok.inj hfull) (by decide)
        have htail : id ∈ left := (List.mem_cons.mp hid).resolve_left hne
        rw [List.length_cons] at hfuel
        simp only [Bool.false_eq_true, if_false] at h
        -- putting the head back leaves the pages alone
        have hfits' : ({ s with running := s.running ++ [head] } :
            Scheduler H).blockManager.canAppend (s.seqs id) = .ok true := hfits
        exact ih (Nat.le_of_succ_le_succ hfuel) htail hfits' (by exact hempty) h

/-- Resident decode plans something when a resident sequence can decode. -/
theorem decodePlan_resident {found : Option BatchPlan} (hcan : s.CanDecode)
    (h : decodePlan true s = .ok found s') : found ≠ none := by
  obtain ⟨id, hid, hdecoding, hfits⟩ := hcan
  simp only [decodePlan, bind_ok, get_ok, readOnly_ok] at h
  obtain ⟨_, _, ⟨rfl, rfl⟩, single, _, ⟨-, rfl⟩, h⟩ := h
  cases single with
  | some resident =>
    simp only [bind_ok, get_ok, readOnly_ok, pure_ok] at h
    obtain ⟨_, _, -, _, _, -, p, _, -, rfl, -⟩ := h
    exact Option.some_ne_none p
  | none =>
    simp only [generalDecodePlan, if_true, bind_ok, get_ok, modify_ok] at h
    obtain ⟨_, _, ⟨rfl, rfl⟩, swapInMap, mid, hswap, _, _, ⟨rfl, rfl⟩, _, _, rfl, ⟨rest, draft⟩,
      last, hloop, _, _, rfl, h⟩ := h
    obtain ⟨rfl, rfl⟩ := pure_ok.mp hswap
    have hcandidate : id ∈ s.running.filter fun id => s.HasStatus .decoding id :=
      List.mem_filter.mpr ⟨hid, decide_eq_true hdecoding⟩
    have hfits' : (s.withoutCandidates s.decoding).blockManager.canAppend
        ((s.withoutCandidates s.decoding).seqs id) = .ok true := hfits
    have hne : draft.scheduled ≠ [] := decodeLoop_schedules le_rfl hcandidate hfits' rfl hloop
    rw [if_neg hne] at h
    simp only [bind_ok, modify_ok, get_ok, readOnly_ok, pure_ok] at h
    obtain ⟨_, _, -, _, _, -, p, _, -, rfl, -⟩ := h
    exact Option.some_ne_none p

theorem decodePlan_phase {residentOnly : Bool}
    (h : decodePlan residentOnly s = .ok (some plan) s') :
    plan.phase = .decode := by
  cases decodePlan_ok h with
  | single hswapped hrunning hdecoding hfits hreserve hplan => exact (create_ok hplan).1
  | batch hrun hne hplan => exact (create_ok hplan).1

theorem scheduleDecode_phase (h : scheduleDecode s = .ok plan s') : plan.phase = .decode := by
  simp only [scheduleDecode, bind_ok, get_ok, require_ok] at h
  obtain ⟨_, _, ⟨rfl, rfl⟩, _, _, ⟨-, rfl⟩, found, planned, hplan, h⟩ := h
  cases found with
  | none => simp at h
  | some found =>
    simp only [recordDecode, bind_ok, modify_ok, pure_ok] at h
    obtain ⟨_, _, -, rfl, -⟩ := h
    exact decodePlan_phase hplan

/-! ## The counter of a planning call -/

/-- The count of prefill batches and the limits stay. -/
structure CounterKept (s s' : Scheduler H) : Prop where
  counter : s'.consecutivePrefillBatches = s.consecutivePrefillBatches
  config : s'.config = s.config

/-- Nobody becomes resident either. -/
structure QueueKept (s s' : Scheduler H) : Prop extends CounterKept s s' where
  running : s'.running ⊆ s.running

instance : Std.Refl (CounterKept (H := H)) where
  refl _ := ⟨rfl, rfl⟩

instance : IsTrans (Scheduler H) CounterKept where
  trans _ _ _ h h' := ⟨h'.counter.trans h.counter, h'.config.trans h.config⟩

instance : Std.Refl (QueueKept (H := H)) where
  refl _ := ⟨⟨rfl, rfl⟩, List.Subset.refl _⟩

instance : IsTrans (Scheduler H) QueueKept where
  trans _ _ _ h h' := ⟨IsTrans.trans _ _ _ h.toCounterKept h'.toCounterKept,
    List.Subset.trans h'.running h.running⟩

theorem onSeq_queue {α : Type} (id : ℕ) (x : ManagerAction H α) : Always QueueKept (onSeq id x) :=
  Always.zoom (fun _ _ => ⟨⟨rfl, rfl⟩, List.Subset.refl _⟩) x

theorem modifySeq_queue (id : ℕ) (f : Sequence H → Sequence H) :
    Always QueueKept (modifySeq id f) :=
  Always.modify fun _ => ⟨⟨rfl, rfl⟩, List.Subset.refl _⟩

theorem readSeq_queue (id : ℕ) : Always (QueueKept (H := H)) (readSeq id) :=
  Always.bind Always.get fun _ => Always.pure _

theorem transitionTo_queue (id : ℕ) (target : RequestState) :
    Always (QueueKept (H := H)) (transitionTo id target) :=
  Always.bind (readSeq_queue id) fun _ => Always.bind (Always.readOnly _) fun _ =>
    modifySeq_queue id _

theorem onSeq_counter {α : Type} (id : ℕ) (x : ManagerAction H α) :
    Always CounterKept (onSeq id x) :=
  (onSeq_queue id x).imp QueueKept.toCounterKept

theorem modifySeq_counter (id : ℕ) (f : Sequence H → Sequence H) :
    Always CounterKept (modifySeq id f) :=
  (modifySeq_queue id f).imp QueueKept.toCounterKept

theorem transitionTo_counter (id : ℕ) (target : RequestState) :
    Always (CounterKept (H := H)) (transitionTo id target) :=
  (transitionTo_queue id target).imp QueueKept.toCounterKept

theorem record_counter (event : SchedulerEvent) : Always (CounterKept (H := H)) (record event) :=
  Always.modify fun _ => ⟨rfl, rfl⟩

theorem recordTransfers_counter (transfers : List Transfer) :
    Always (CounterKept (H := H)) (recordTransfers transfers) :=
  Always.modify fun _ => ⟨rfl, rfl⟩

theorem allocateWaitingPrefill_counter (id availableTokens : ℕ) (batch : PrefillBatchBuilder) :
    Always (CounterKept (H := H)) (allocateWaitingPrefill id availableTokens batch) := by
  refine Always.bind (onSeq_counter id _) fun _ => Always.bind (recordTransfers_counter _) fun _ =>
    Always.bind (modifySeq_counter id _) fun _ => Always.bind Always.get fun _ =>
      Always.bind (Always.readOnly _) fun found => ?_
  cases found with
  | none => exact Always.bind (onSeq_counter id _) fun _ => Always.throw _
  | some candidate =>
    simp only
    split
    · exact Always.bind (onSeq_counter id _) fun _ => Always.throw _
    · refine Always.bind (Always.tryExcept (transitionTo_counter id _) fun _ =>
        Always.bind (onSeq_counter id _) fun _ => Always.throw _) fun _ =>
          Always.bind (record_counter _) fun _ => Always.bind ?_ fun _ => Always.pure _
      exact Always.modify fun _ => ⟨rfl, rfl⟩

theorem admitOne_counter (tier : Option ℕ) (hasDecode : Bool) (batch : PrefillBatchBuilder) :
    Always (CounterKept (H := H)) (admitOne tier hasDecode batch) := by
  refine Always.bind Always.get fun s => ?_
  split
  · exact Always.pure _
  · refine Always.bind (Always.forEach (fun id => Always.bind (onSeq_counter id _) fun _ =>
      Always.pure _) _) fun _ => Always.bind Always.get fun _ =>
        Always.bind (Always.readOnly _) fun indices => ?_
    split
    · exact Always.pure _
    · refine Always.bind (Always.readOnly _) fun found => ?_
      cases found with
      | none => exact Always.pure _
      | some relativeIndex =>
        refine Always.bind (record_counter _) fun _ => Always.bind (Always.when _
          (Always.modify fun _ => ⟨rfl, rfl⟩)) fun _ => Always.bind (Always.readOnly _)
            fun cobatch => ?_
        split
        · refine Always.bind (Always.readOnly _) fun candidate => ?_
          cases candidate with
          | none => exact Always.pure _
          | some candidate =>
            refine Always.bind (Always.readOnly _) fun fits => ?_
            split
            · exact Always.pure _
            · exact Always.bind (allocateWaitingPrefill_counter _ _ _) fun _ =>
                Always.bind (Always.readOnly _) fun _ => Always.pure _
        · exact Always.pure _

theorem prefillPlan_counter (tier : Option ℕ) (running : Bool) :
    Always (CounterKept (H := H)) (prefillPlan tier running) := by
  have hround : ∀ (hasDecode : Bool) (fuel : ℕ) (batch : PrefillBatchBuilder),
      Always (CounterKept (H := H)) (admitWaitingPrefills tier hasDecode fuel batch) := by
    intro hasDecode fuel
    induction fuel with
    | zero => exact fun batch => Always.pure batch
    | succ fuel ih =>
      intro batch
      refine Always.bind (admitOne_counter tier hasDecode batch) fun next => ?_
      cases next with
      | none => exact Always.pure _
      | some batch => exact ih batch
  have hcollect : ∀ (ids : List ℕ) (batch : PrefillBatchBuilder),
      Always (CounterKept (H := H)) (collectRunningPrefills batch ids) := by
    intro ids
    induction ids with
    | nil => exact fun batch => Always.pure batch
    | cons id ids ih =>
      intro batch
      refine Always.bind Always.get fun s => ?_
      split
      · exact ih batch
      · split
        · exact Always.pure _
        · refine Always.bind (Always.readOnly _) fun found => ?_
          cases found with
          | none => exact Always.pure _
          | some candidate =>
            simp only
            split
            · exact ih batch
            · refine Always.bind (Always.readOnly _) fun next => ?_
              split
              · exact Always.pure _
              · exact ih next
  refine Always.bind Always.get fun s => Always.bind (hcollect _ _) fun collected =>
    Always.bind (hround _ _ _) fun batch => ?_
  split
  · exact Always.pure _
  · exact Always.bind Always.get fun _ => Always.bind (Always.readOnly _) fun _ => Always.pure _

theorem preempt_counter (id : ℕ) : Always (CounterKept (H := H)) (preempt id) := by
  refine Always.bind Always.get fun s => Always.bind (Always.readOnly _) fun fits => ?_
  split
  · refine Always.bind (onSeq_counter id _) fun _ => Always.bind (recordTransfers_counter _)
      fun _ => Always.bind (record_counter _) fun _ => Always.bind (transitionTo_counter id _)
        fun _ => Always.bind ?_ fun _ => Always.pure _
    exact Always.modify fun _ => ⟨rfl, rfl⟩
  · refine Always.bind (onSeq_counter id _) fun _ => Always.bind (modifySeq_counter id _)
      fun _ => Always.bind (record_counter _) fun _ => Always.bind (transitionTo_counter id _)
        fun _ => Always.bind ?_ fun _ => Always.pure _
    exact Always.modify fun _ => ⟨rfl, rfl⟩

theorem secureAppend_counter (residentOnly : Bool) (id fuel : ℕ) (candidates : List ℕ)
    (swapOutMap : List BlockPair) :
    Always (CounterKept (H := H)) (secureAppend residentOnly id fuel candidates swapOutMap) := by
  have hround : ∀ (next : List ℕ → List BlockPair →
      SchedulerAction H (Bool × List ℕ × List BlockPair))
      (_ : ∀ candidates swapOutMap, Always CounterKept (next candidates swapOutMap))
      (candidates : List ℕ) (swapOutMap : List BlockPair),
      Always CounterKept (secureRound residentOnly id next candidates swapOutMap) := by
    intro next hnext candidates swapOutMap
    refine Always.bind Always.get fun s => Always.bind (Always.readOnly _) fun fits => ?_
    split
    · exact Always.pure _
    · split
      · exact Always.bind (Always.modify fun _ => ⟨rfl, rfl⟩) fun _ => Always.pure _
      · split
        · exact Always.bind (preempt_counter _) fun _ => hnext _ _
        · exact Always.bind (preempt_counter _) fun _ => Always.pure _
  induction fuel generalizing candidates swapOutMap with
  | zero => exact hround _ (fun _ _ => Always.pure _) candidates swapOutMap
  | succ fuel ih => exact hround _ ih candidates swapOutMap

theorem reserveAppend_counter (id : ℕ) : Always (CounterKept (H := H)) (reserveAppend id) := by
  refine Always.bind (Always.bind Always.get fun s => ?_) fun _ =>
    Always.bind (recordTransfers_counter _) fun _ => Always.bind (onSeq_counter id _) fun _ =>
      Always.bind (record_counter _) fun _ => Always.pure _
  split
  · exact Always.pure _
  · exact onSeq_counter id _

theorem decodeLoop_counter (residentOnly : Bool) (fuel : ℕ) (candidates : List ℕ)
    (draft : DecodeDraft) :
    Always (CounterKept (H := H)) (decodeLoop residentOnly fuel candidates draft) := by
  induction fuel generalizing candidates draft with
  | zero => exact Always.pure _
  | succ fuel ih =>
    cases candidates with
    | nil => exact Always.pure _
    | cons id candidates =>
      refine Always.bind Always.get fun s => ?_
      split
      · exact Always.pure _
      · refine Always.bind (secureAppend_counter residentOnly id _ _ _) fun result => ?_
        simp only
        split
        · exact Always.bind (reserveAppend_counter id) fun _ => ih _ _
        · exact ih _ _

theorem swapInLoop_counter (fuel : ℕ) (pairs : List BlockPair) :
    Always (CounterKept (H := H)) (swapInLoop fuel pairs) := by
  induction fuel generalizing pairs with
  | zero => exact Always.pure _
  | succ fuel ih =>
    refine Always.bind Always.get fun s => ?_
    split
    · exact Always.pure _
    · split
      · exact Always.pure _
      · refine Always.bind (Always.readOnly _) fun fits => ?_
        split
        · refine Always.bind (Always.modify fun _ => ⟨rfl, rfl⟩) fun _ =>
            Always.bind (onSeq_counter _ _) fun _ => Always.bind (recordTransfers_counter _)
              fun _ => Always.bind (transitionTo_counter _ _) fun _ => Always.bind ?_ fun _ => ih _
          exact Always.modify fun _ => ⟨rfl, rfl⟩
        · exact Always.pure _

theorem decodePlan_counter (residentOnly : Bool) :
    Always (CounterKept (H := H)) (decodePlan residentOnly) := by
  refine Always.bind Always.get fun s => Always.bind (Always.readOnly _) fun single => ?_
  cases single with
  | some id =>
    exact Always.bind (reserveAppend_counter id) fun _ => Always.bind Always.get fun _ =>
      Always.bind (Always.readOnly _) fun _ => Always.pure _
  | none =>
    refine Always.bind Always.get fun _ => Always.bind (swapInLoop_counter _ _) fun _ =>
      Always.bind Always.get fun _ => Always.bind (Always.modify fun _ => ⟨rfl, rfl⟩) fun _ =>
        Always.bind (decodeLoop_counter _ _ _ _) fun result => Always.bind
          (Always.modify fun _ => ⟨rfl, rfl⟩) fun _ => ?_
    split
    · split
      · exact Always.pure _
      · exact Always.throw _
    · exact Always.bind (Always.modify fun _ => ⟨rfl, rfl⟩) fun _ => Always.bind Always.get
        fun _ => Always.bind (Always.readOnly _) fun _ => Always.pure _

/-- A recorded prefill plan counts one. -/
theorem recordPrefillPlan_counter {recorded : BatchPlan}
    (h : recordPrefillPlan plan s = .ok recorded s') :
    s'.consecutivePrefillBatches = s.consecutivePrefillBatches + 1 ∧ s'.config = s.config := by
  obtain ⟨_, -, -, rfl⟩ := recordPrefillPlan_ok h
  exact ⟨rfl, rfl⟩

/-- A call that returns a prefill plan without asking the policy for one has first looked for
resident decode in vain. -/
theorem scheduleWithoutPrefill_prefill {runningPrefill : Bool}
    (h : scheduleWithoutPrefill runningPrefill s = .ok plan s') (hphase : plan.phase = .prefill) :
    ¬ s.CanDecode ∧ s'.consecutivePrefillBatches = s.consecutivePrefillBatches + 1 ∧
      s'.config = s.config := by
  have hdecode : ∀ {t : Scheduler H}, scheduleDecode t = .ok plan s' → False := by
    intro t hrun
    rw [scheduleDecode_phase hrun] at hphase
    exact absurd hphase (by decide)
  unfold scheduleWithoutPrefill at h
  split at h
  · simp only [bind_ok] at h
    obtain ⟨found, mid, hresident, h⟩ := h
    simp only [scheduleResidentDecode, bind_ok] at hresident
    obtain ⟨decoded, planned, hplan, hresident⟩ := hresident
    cases decoded with
    | some decoded =>
      simp only [recordDecode, bind_ok, modify_ok, pure_ok] at hresident
      obtain ⟨_, _, -, rfl, -⟩ := hresident
      obtain ⟨rfl, -⟩ := pure_ok.mp h
      rw [decodePlan_phase hplan] at hphase
      exact absurd hphase (by decide)
    | none =>
      obtain ⟨rfl, rfl⟩ := pure_ok.mp hresident
      simp only [bind_ok] at h
      obtain ⟨found, collected, hprefill, h⟩ := h
      cases found with
      | none => exact (hdecode h).elim
      | some found =>
        have hkept := (decodePlan_counter true).of_ok hplan
        have hkept' := (prefillPlan_counter none true).of_ok hprefill
        obtain ⟨hcount, hconfig⟩ := recordPrefillPlan_counter h
        refine ⟨fun hcan => decodePlan_resident hcan hplan rfl, ?_, ?_⟩
        · rw [hcount, hkept'.counter, hkept.counter]
        · rw [hconfig, hkept'.config, hkept.config]
  · exact (hdecode h).elim

theorem hasDecodeWork_of_canDecode (h : s.CanDecode) : s.hasDecodeWork = true := by
  obtain ⟨id, hid, hdecoding, -⟩ := h
  have hmem : id ∈ s.running.filter fun id => s.HasStatus .decoding id :=
    List.mem_filter.mpr ⟨hid, decide_eq_true hdecoding⟩
  have hpos := List.length_pos_of_mem hmem
  unfold hasDecodeWork decodeWorkCount
  exact decide_eq_true (by omega)

/-- With a resident sequence that can decode, a prefill plan comes from below the limit, and
it counts. -/
theorem schedule_prefill (h : schedule s = .ok plan s') (hphase : plan.phase = .prefill)
    (hcan : s.CanDecode) :
    s.consecutivePrefillBatches < s.config.policy.limits.maxConsecutivePrefillBatches ∧
      s'.consecutivePrefillBatches = s.consecutivePrefillBatches + 1 ∧ s'.config = s.config := by
  simp only [schedule, bind_ok, get_ok] at h
  obtain ⟨_, _, ⟨rfl, rfl⟩, h⟩ := h
  split at h
  · next hprefill =>
    have hbelow : s.consecutivePrefillBatches <
        s.config.policy.limits.maxConsecutivePrefillBatches := by
      unfold SchedulerPolicy.shouldSchedulePrefill at hprefill
      rw [hasDecodeWork_of_canDecode hcan] at hprefill
      simpa using (by simpa using hprefill : _ ∧ _).2
    simp only [bind_ok] at h
    obtain ⟨found, planned, hplan, h⟩ := h
    have hkept := (prefillPlan_counter none true).of_ok hplan
    cases found with
    | none =>
      obtain ⟨-, hcount, hconfig⟩ := scheduleWithoutPrefill_prefill h hphase
      exact ⟨hbelow, by rw [hcount, hkept.counter], by rw [hconfig, hkept.config]⟩
    | some found =>
      obtain ⟨hcount, hconfig⟩ := recordPrefillPlan_counter h
      exact ⟨hbelow, by rw [hcount, hkept.counter], by rw [hconfig, hkept.config]⟩
  · exact absurd hcan (scheduleWithoutPrefill_prefill h hphase).1

/-! ## Streaks -/

/-- What happens to a scheduler between two planning calls: arrivals, cancellations, committed
results, a reset of its counters, and the executor's work on sequences and pages. Calls that
raise are among them. -/
inductive Upkeep (s : Scheduler H) : Scheduler H → Prop
  | add (req : Request) : Upkeep s (finalState (add req s))
  | cancel (id : ℕ) : Upkeep s (finalState (cancel id s))
  | postprocess (plan : BatchPlan) (tokens : List (Option ℕ)) :
      Upkeep s (finalState (postprocess plan tokens s))
  | resetMetrics : Upkeep s (finalState (resetMetrics s))
  | execute (blockManager : BlockManager H) (seqs : ℕ → Sequence H) :
      Upkeep s { s with blockManager := blockManager, seqs := seqs }

/-- `k` consecutive calls of `schedule`, each with a resident sequence that could decode and
each answered by a prefill plan. -/
inductive PrefillStreak : ℕ → Scheduler H → Scheduler H → Prop
  | nil (s : Scheduler H) : PrefillStreak 0 s s
  | cons {k : ℕ} {s called planned s' : Scheduler H} {plan : BatchPlan}
      (hupkeep : Relation.ReflTransGen Upkeep s called) (hcan : called.CanDecode)
      (hcall : schedule called = .ok plan planned) (hphase : plan.phase = .prefill)
      (hrest : PrefillStreak k planned s') : PrefillStreak (k + 1) s s'

theorem add_queue (req : Request) : Always (QueueKept (H := H)) (add req) := by
  refine Always.bind Always.get fun s => Always.bind (Always.require _ _) fun _ =>
    Always.bind (modifySeq_queue _ _) fun _ => Always.bind (onSeq_queue _ _) fun _ =>
      Always.bind (Always.modify fun _ => ⟨⟨rfl, rfl⟩, List.Subset.refl _⟩) fun _ =>
        Always.bind Always.get fun t => ?_
  split
  · exact Always.bind (transitionTo_queue _ _) fun _ => Always.pure _
  · exact Always.bind (Always.modify fun _ => ⟨⟨rfl, rfl⟩, List.Subset.refl _⟩) fun _ =>
      Always.pure _

theorem cancel_queue (id : ℕ) : Always (QueueKept (H := H)) (cancel id) := by
  refine Always.bind Always.get fun s => ?_
  split
  · refine Always.bind (Always.modify fun t => ?_) fun _ => Always.bind (readSeq_queue id)
      fun _ => Always.bind (Always.when _ (onSeq_queue _ _)) fun _ =>
        Always.bind (transitionTo_queue _ _) fun _ => Always.pure _
    split
    · exact ⟨⟨rfl, rfl⟩, List.Subset.refl _⟩
    · split
      · exact ⟨⟨rfl, rfl⟩, List.erase_subset⟩
      · exact ⟨⟨rfl, rfl⟩, List.Subset.refl _⟩
  · exact Always.pure _

theorem postprocessOne_queue (plan : BatchPlan) (index id : ℕ) (token : Option ℕ) :
    Always (QueueKept (H := H)) (postprocessOne plan index id token) := by
  have hpublish : Always (QueueKept (H := H)) (publish plan index id) := by
    refine Always.bind (readSeq_queue id) fun seq => ?_
    split
    · exact onSeq_queue _ _
    · exact Always.throw _
    · split
      · exact onSeq_queue _ _
      · exact onSeq_queue _ _
  refine Always.bind hpublish fun _ => ?_
  cases token with
  | none => exact Always.pure _
  | some token =>
    refine Always.bind ?_ fun _ => Always.pure _
    refine Always.bind Always.get fun s => Always.bind (Always.readOnly _) fun seq =>
      Always.bind (modifySeq_queue _ _) fun _ => ?_
    simp only
    split
    · exact Always.bind (transitionTo_queue _ _) fun _ => Always.bind (onSeq_queue _ _) fun _ =>
        Always.bind Always.get fun _ => Always.bind (Always.require _ _) fun _ =>
          Always.bind (Always.modify fun _ => ⟨⟨rfl, rfl⟩, List.erase_subset⟩) fun _ =>
            Always.pure _
    · split
      · exact Always.bind (transitionTo_queue _ _) fun _ => Always.pure _
      · split
        · exact Always.throw _
        · exact Always.pure _

theorem postprocess_queue (plan : BatchPlan) (tokens : List (Option ℕ)) :
    Always (QueueKept (H := H)) (postprocess plan tokens) := by
  have hfrom : ∀ (members : List (ℕ × Option ℕ)) (index : ℕ),
      Always (QueueKept (H := H)) (postprocessFrom plan index members) := by
    intro members
    induction members with
    | nil => exact fun _ => Always.pure _
    | cons member members ih =>
      intro index
      exact Always.bind (postprocessOne_queue plan index member.1 member.2) fun _ =>
        Always.bind (ih (index + 1)) fun _ => Always.pure _
  exact hfrom _ 0

/-- Over any upkeep the limits stay, and while somebody is resident so does the count. -/
structure Upheld (s s' : Scheduler H) : Prop where
  config : s'.config = s.config
  running : s'.running ⊆ s.running
  counter : s'.running ≠ [] → s'.consecutivePrefillBatches = s.consecutivePrefillBatches

theorem QueueKept.upheld (h : QueueKept s s') : Upheld s s' :=
  ⟨h.config, h.running, fun _ => h.counter⟩

theorem Upkeep.upheld (h : Upkeep s s') : Upheld s s' := by
  cases h with
  | add req => exact (add_queue req s).upheld
  | cancel id => exact (cancel_queue id s).upheld
  | postprocess plan tokens => exact (postprocess_queue plan tokens s).upheld
  | resetMetrics =>
    cases hrun : Scheduler.resetMetrics s with
    | ok u s' =>
      simp only [Scheduler.resetMetrics, bind_ok, get_ok, require_ok, modify_ok] at hrun
      obtain ⟨_, _, ⟨rfl, rfl⟩, _, _, ⟨hidle, rfl⟩, rfl⟩ := hrun
      exact ⟨rfl, List.Subset.refl _, fun hne => absurd hidle.2.1 hne⟩
    | error e s' =>
      simp only [Scheduler.resetMetrics, bind_error, get_error, get_ok, require_error,
        modify_error, and_false, exists_false, or_false, false_or] at hrun
      obtain ⟨_, _, ⟨rfl, rfl⟩, -, -, rfl⟩ := hrun
      exact ⟨rfl, List.Subset.refl _, fun _ => rfl⟩
  | execute blockManager seqs => exact ⟨rfl, List.Subset.refl _, fun _ => rfl⟩

theorem upheld_of_upkeep (h : Relation.ReflTransGen Upkeep s s') : Upheld s s' := by
  induction h with
  | refl => exact ⟨rfl, List.Subset.refl _, fun _ => rfl⟩
  | tail _ hstep ih =>
    have hlast := hstep.upheld
    refine ⟨hlast.config.trans ih.config, List.Subset.trans hlast.running ih.running, ?_⟩
    intro hne
    have hbefore : _ ≠ [] := fun hnil => hne (List.subset_nil.mp (hnil ▸ hlast.running))
    exact (hlast.counter hne).trans (ih.counter hbefore)

theorem CanDecode.running_ne_nil (h : s.CanDecode) : s.running ≠ [] := by
  obtain ⟨id, hid, -, -⟩ := h
  exact List.ne_nil_of_mem hid

/-- The length of a streak and the count it starts from fit under the limit. -/
theorem PrefillStreak.length_le {k : ℕ} (h : PrefillStreak k s s') (hpos : 0 < k) :
    k + s.consecutivePrefillBatches ≤ s.config.policy.limits.maxConsecutivePrefillBatches := by
  induction h with
  | nil => exact absurd hpos (lt_irrefl 0)
  | @cons k s called planned s' plan hupkeep hcan hcall hphase hrest ih =>
    have hupheld := upheld_of_upkeep hupkeep
    have hstart := hupheld.counter hcan.running_ne_nil
    obtain ⟨hbelow, hcount, hconfig⟩ := schedule_prefill hcall hphase hcan
    rw [hupheld.config] at hbelow hconfig
    by_cases hlast : k = 0
    · omega
    · have hmore := ih (Nat.pos_of_ne_zero hlast)
      rw [hconfig] at hmore
      omega

/-- Planning calls that keep a resident sequence waiting for prefill are at most as many in a
row as the policy allows, from whatever state the streak starts. -/
theorem prefill_streak_bounded {k : ℕ} {s s' : Scheduler H} (h : PrefillStreak k s s') :
    k ≤ s.config.policy.limits.maxConsecutivePrefillBatches := by
  by_cases hempty : k = 0
  · rw [hempty]
    exact Nat.zero_le _
  · have := h.length_le (Nat.pos_of_ne_zero hempty)
    omega

section Example

/-- Two prefill batches in a row, at most. -/
def residentLimits : PolicyLimits where
  maxModelLen := 8
  maxNumBatchedTokens := 8
  maxNumSeqs := 2
  enableChunkedPrefill := false
  maxChunkSize := 8
  maxQueueSize := none
  maxConsecutivePrefillBatches := 2
  maxModelLen_pos := by decide
  maxNumBatchedTokens_pos := by decide
  maxNumSeqs_pos := Nat.two_pos
  maxChunkSize_pos := by decide
  maxQueueSize_pos := by decide
  maxConsecutivePrefillBatches_pos := Nat.two_pos

/-- At most four vision patches a batch; token 2 ends a sequence. -/
def residentConfig : SchedulerConfig := ⟨⟨residentLimits, .fcfs⟩, 4, 2, Nat.succ_pos 3⟩

def textPrompt (id : ℕ) : Request where
  seqId := id
  blockSize := 2
  promptTokenIds := [5, 6, 7]
  promptNonempty := nofun
  maxTokens := 4
  maxTokensPositive := Nat.succ_pos 3
  ignoreEos := true
  submittedNs := none
  ttftSloNs := none
  images := none
  video := none
  hasPositionIds := false
  hasRopeDelta := false
  imageTokenId := none
  imageTokenCount := 0
  videoTokenId := none
  videoTokenCount := 0
  imageMergeSize := 2
  hasPrefixCacheKey := false
  hasMediaTokenHashes := false

/-- The first request has arrived. -/
def started : Scheduler ℕ :=
  finalState (add (textPrompt 0) (initial ℕ residentConfig
    (.initial ℕ 8 2 0 false false) 1 fun id => .ofRequest ℕ (textPrompt id)))

def firstPlan : BatchPlan := ⟨.prefill, [0], [3], [⟨0, 0, 3⟩], .empty⟩

def planned : Scheduler ℕ := finalState (schedule started)

/-- The first request has its first token. -/
def resident : Scheduler ℕ := finalState (postprocess firstPlan [some 9] planned)

/-- The second request has arrived. -/
def called : Scheduler ℕ := finalState (add (textPrompt 1) resident)

theorem prefill_streak_bounded_resident :
    PrefillStreak 1 resident (finalState (schedule called)) ∧
      1 ≤ resident.config.policy.limits.maxConsecutivePrefillBatches := by
  have hcan : called.CanDecode := ⟨0, by decide, rfl, rfl⟩
  have hcall : ∃ plan, schedule called = .ok plan (finalState (schedule called)) ∧
      plan.phase = .prefill := ⟨_, rfl, rfl⟩
  obtain ⟨plan, hcall, hphase⟩ := hcall
  have hstreak : PrefillStreak 1 resident (finalState (schedule called)) :=
    .cons (.single (.add (textPrompt 1))) hcan hcall hphase (.nil _)
  exact ⟨hstreak, prefill_streak_bounded hstreak⟩

end Example

end Scheduler

end PrismInfer
