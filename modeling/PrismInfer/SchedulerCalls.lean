import PrismInfer.SchedulerRuns

/-!
# What every call of the scheduler keeps

A planning call hands out a plan that fits the state it leaves. Arrival, commit and
cancellation change one request at a time: it stays in its place, enters the waiting queue, or
leaves its queue without pages.
-/
set_option linter.unusedSectionVars false

namespace PrismInfer
open StateExcept Relation

variable {H : Type} [DecidableEq H] [Digests H]

/-- The planning calls of the scheduler. -/
inductive PlanningCall
  | schedule
  | schedulePrefill (maxSloCostTier : Option ℕ)
  | scheduleDecode
  | scheduleResidentDecode

def PlanningCall.run : PlanningCall → SchedulerAction H (Option BatchPlan)
  | .schedule => do return some (← Scheduler.schedule)
  | .schedulePrefill tier => do return some (← Scheduler.schedulePrefill tier)
  | .scheduleDecode => do return some (← Scheduler.scheduleDecode)
  | .scheduleResidentDecode => Scheduler.scheduleResidentDecode

namespace Scheduler

variable {s s' mid : Scheduler H} {id : ℕ} {t : ManagerState H} {plan : BatchPlan}

/-- The members of a plan are requests, and its slices end within their prompts. -/
structure Fits (s : Scheduler H) (plan : BatchPlan) : Prop where
  known : ∀ id ∈ plan.sequenceIds, id ∈ s.requests
  within : ∀ item ∈ plan.sequenceIds.zip plan.prefillSlices,
    item.2.tokenEnd ≤ (s.seqs item.1).numPromptTokens

/-- What a call keeps: the queues and the pages, the requests, and it is a run of the fleet. -/
structure Moved (s s' : Scheduler H) : Prop where
  kept : s'.Kept
  same : SameRequests s s'
  moves : FleetMoves s.fleet s'.fleet

theorem Moved.trans (h : Moved s mid) (h' : Moved mid s') : Moved s s' :=
  ⟨h'.kept, h.same.trans h'.same, h.moves.trans h'.moves⟩

theorem Kept.stays (hk : s.Kept) : Moved s s := ⟨hk, .refl s, .refl s.fleet⟩

theorem SchedulerSteps.moved {events : List SchedulerEvent} (hk : s.Kept)
    (h : SchedulerSteps s events s') : Moved s s' := by
  obtain ⟨hk', hsame, hmoves⟩ := h.kept hk
  exact ⟨hk', hsame, hmoves⟩

theorem Fits.later (h : s.Fits plan) (hsame : SameRequests s s') : s'.Fits plan := by
  refine ⟨fun id hid => (hsame id (h.known id hid)).1, fun item hitem => ?_⟩
  have hrequest := (hsame item.1 (h.known item.1 (List.of_mem_zip hitem).1)).2
  unfold Sequence.numPromptTokens
  rw [hrequest]
  exact h.within item hitem

/-! ## Planning -/

theorem collectRunningPrefills_known (hs : s.Settled) {batch batch' : PrefillBatchBuilder}
    {ids : List ℕ} (hids : ∀ id ∈ ids, id ∈ s.requests)
    (hbatch : ∀ id ∈ batch.sequences, id ∈ s.requests)
    (h : collectRunningPrefills batch ids s = .ok batch' s') :
    ∀ id ∈ batch'.sequences, id ∈ s.requests := by
  induction ids generalizing batch with
  | nil => exact (pure_ok.mp h).1 ▸ hbatch
  | cons id ids ih =>
    have hrest : ∀ other ∈ ids, other ∈ s.requests :=
      fun other hother => hids other (List.mem_cons_of_mem id hother)
    simp only [collectRunningPrefills, bind_ok, get_ok] at h
    obtain ⟨_, _, ⟨rfl, rfl⟩, h⟩ := h
    split at h
    · exact ih hrest hbatch h
    · split at h
      · exact (pure_ok.mp h).1 ▸ hbatch
      · simp only [bind_ok, readOnly_ok] at h
        obtain ⟨found, _, ⟨hfound, rfl⟩, h⟩ := h
        cases found with
        | none => exact (pure_ok.mp h).1 ▸ hbatch
        | some candidate =>
          simp only at h
          split at h
          · exact ih hrest hbatch h
          · simp only [bind_ok, readOnly_ok] at h
            obtain ⟨next, _, ⟨hadd, rfl⟩, h⟩ := h
            have hnext : ∀ other ∈ next.sequences, other ∈ s.requests := by
              simp only [PrefillBatchBuilder.add, except_bind_ok, except_pure_ok] at hadd
              obtain ⟨_, -, _, -, rfl⟩ := hadd
              intro other hother
              rcases List.mem_append.mp hother with hold | hnew
              · exact hbatch other hold
              · have hknown := hids id List.mem_cons_self
                obtain rfl := List.mem_singleton.mp hnew
                rw [(prefillCandidate_some hfound).1, hs.named id hknown]
                exact hknown
            split at h
            · exact (pure_ok.mp h).1 ▸ hnext
            · exact ih hrest hnext h

theorem AdmitRound.kept {batch : PrefillBatchBuilder} {found : Option PrefillBatchBuilder}
    (hk : s.Kept) (h : AdmitRound s batch found s') : s'.Kept ∧ SameRequests s s' ∧
      s'.requests = s.requests := by
  obtain ⟨events, hsteps, -⟩ := h.steps
  obtain ⟨hk', hsame, -⟩ := hsteps.kept hk
  exact ⟨hk', hsame, hsteps.requests⟩

theorem AdmitRounds.known {batch batch' : PrefillBatchBuilder} (hk : s.Kept)
    (hbatch : ∀ id ∈ batch.sequences, id ∈ s.requests) (h : AdmitRounds s batch s' batch') :
    ∀ id ∈ batch'.sequences, id ∈ s'.requests := by
  induction h with
  | refl => exact hbatch
  | stopped hround =>
    rw [(AdmitRound.kept hk hround).2.2]
    exact hbatch
  | @admitted s mid s' batch next batch' hround hrest ih =>
    obtain ⟨hk', -, hrequests⟩ := AdmitRound.kept hk hround
    refine ih hk' ?_
    rw [hrequests]
    cases hround with
    | @admitted probed _ id candidate _ hsteps hwaiting hrunning hid hroom halloc hadd =>
      obtain ⟨hprobed, -, -⟩ := hsteps.kept hk
      obtain ⟨copies, t, seq, found, hallocate, -, hfound, rfl, -, -⟩ :=
        allocateWaitingPrefill_ok halloc
      simp only [PrefillBatchBuilder.add, except_bind_ok, except_pure_ok] at hadd
      obtain ⟨_, -, _, -, rfl⟩ := hadd
      intro other hother
      rcases List.mem_append.mp hother with hold | hnew
      · exact hbatch other hold
      · have hin : id ∈ probed.queued := by simp [hid]
        have hrequest := (BlockManager.Admitted.frame
          (BlockManager.allocate_admitted (hprobed.ledger hin) hallocate).1).1
        have hname := (prefillCandidate_some hfound).1
        obtain rfl := List.mem_singleton.mp hnew
        have hknown := hprobed.settled.known id hin
        change found.sequence ∈ s.requests
        rw [hname, ← hsteps.requests]
        change t.seq.request.seqId ∈ probed.requests
        rw [hrequest]
        change (probed.seqs id).request.seqId ∈ probed.requests
        rw [hprobed.settled.named id hknown]
        exact hknown

theorem create_slices {sequences : List (Sequence H)} {counts : List ℕ}
    {transfers : KVTransferPlan}
    (h : BatchPlan.create .prefill sequences counts transfers = .ok plan) :
    List.Forall₂ (fun item slice => BatchPlan.prefillSlice item.1 item.2 = .ok slice)
      (sequences.zip counts) plan.prefillSlices := by
  simp only [BatchPlan.create, except_bind_ok, except_pure_ok] at h
  obtain ⟨_, -, _, -, _, -, _, -, _, -, _, -, slices, hslices, rfl⟩ := h
  exact mapM_ok.mp hslices

/-- A prefill plan fits the state it is made in. -/
theorem prefillPlan_fits {tier : Option ℕ} {running : Bool} (hk : s.Kept)
    (h : prefillPlan tier running s = .ok (some plan) s') : s'.Fits plan := by
  obtain ⟨collected, batch, hcollect, hrounds, ⟨hnone, -⟩ | ⟨-, p, hsome, hcreate⟩⟩ :=
    prefillPlan_ok h
  · cases hnone
  · obtain rfl := Option.some.inj hsome
    obtain ⟨events, hsteps, -⟩ := hrounds.steps
    obtain ⟨hk', hsame, -⟩ := hsteps.kept hk
    have hcollected : ∀ id ∈ collected.sequences, id ∈ s.requests := by
      refine collectRunningPrefills_known hk.settled (fun id hid => ?_)
        (by simp [emptyBatch]) hcollect
      split at hid
      · exact hk.settled.known id (by simp [hid])
      · exact absurd hid List.not_mem_nil
    have hknown := AdmitRounds.known hk hcollected hrounds
    have hids : plan.sequenceIds = batch.sequences := by
      rw [(create_ok hcreate).2.1, List.map_map]
      conv_rhs => rw [← List.map_id batch.sequences]
      exact List.map_congr_left fun id hid => hk'.settled.named id (hknown id hid)
    refine ⟨fun id hid => hknown id (hids ▸ hid), fun item hitem => ?_⟩
    have hslices := create_slices hcreate
    obtain ⟨i, hi, hget⟩ := List.getElem_of_mem hitem
    rw [List.length_zip] at hi
    rw [List.getElem_zip] at hget
    have hslice := hslices.get (i := i) (by
      have := hslices.length_eq
      omega) (by omega)
    simp only [List.get_eq_getElem, List.getElem_zip, List.getElem_map] at hslice
    simp only [BatchPlan.prefillSlice, except_bind_ok, ensure_ok, except_pure_ok] at hslice
    obtain ⟨_, -, _, hwithin, hslice⟩ := hslice
    rw [← hget]
    simp only [hids]
    rw [← hslice]
    exact hwithin

theorem create_decode {sequences : List (Sequence H)} {counts : List ℕ}
    {transfers : KVTransferPlan}
    (h : BatchPlan.create .decode sequences counts transfers = .ok plan) :
    plan.prefillSlices = [] := by
  simp only [BatchPlan.create, except_bind_ok, except_pure_ok] at h
  obtain ⟨_, -, _, -, _, -, _, -, _, -, _, -, _, rfl, rfl⟩ := h
  rfl

/-- A decode plan fits the state it is made in: it has no slices. -/
theorem decodePlan_fits {residentOnly : Bool} (hk : s.Kept)
    (h : decodePlan residentOnly s = .ok (some plan) s') : s'.Fits plan := by
  obtain ⟨events, hsteps, -, -, hids⟩ := decodePlan_steps hk.settled.nodup h
  have hslices : plan.prefillSlices = [] := by
    cases decodePlan_ok h with
    | single _ _ _ _ _ hplan => exact create_decode hplan
    | batch _ _ hplan => exact create_decode hplan
  refine ⟨fun id hid => ?_, fun item hitem => ?_⟩
  · rw [hids] at hid
    obtain ⟨reserved, hreserved, rfl⟩ := List.mem_map.mp hid
    have hknown : reserved ∈ s'.requests := by
      rw [hsteps.requests]
      exact hk.settled.known reserved (hsteps.reserved_queued hreserved)
    rw [(hsteps.kept hk).1.settled.named reserved hknown]
    exact hknown
  · rw [hslices, List.zip_nil_right] at hitem
    exact absurd hitem List.not_mem_nil

/-- What a planning call leaves. -/
theorem PlanMade.kept (hk : s.Kept) (h : PlanMade s plan s') :
    Moved s s' ∧ s'.Fits plan := by
  obtain ⟨events, hsteps, hplan⟩ := h.steps hk.settled.nodup
  refine ⟨SchedulerSteps.moved hk hsteps, ?_⟩
  cases h with
  | prefill hquiet _ hprefill =>
    exact (prefillPlan_fits (hquiet.kept hk).1 hprefill).later fun id hid => ⟨hid, rfl⟩
  | decode hquiet _ hdecode =>
    exact (decodePlan_fits (hquiet.kept hk).1 hdecode).later fun id hid => ⟨hid, rfl⟩

/-- A planning call finds nothing, or comes to a plan. -/
theorem PlanningCall.made {call : PlanningCall} {found : Option BatchPlan} (hn : s.queued.Nodup)
    (h : call.run s = .ok found s') :
    (found = none ∧ ∃ events, SchedulerSteps s events s') ∨
      ∃ plan, found = some plan ∧ PlanMade s plan s' := by
  cases call with
  | schedule =>
    obtain ⟨plan, _, hcall, hrest⟩ := bind_ok.mp h
    obtain ⟨rfl, rfl⟩ := pure_ok.mp hrest
    exact .inr ⟨plan, rfl, schedule_ok hn hcall⟩
  | schedulePrefill tier =>
    obtain ⟨plan, _, hcall, hrest⟩ := bind_ok.mp h
    obtain ⟨rfl, rfl⟩ := pure_ok.mp hrest
    exact .inr ⟨plan, rfl, schedulePrefill_ok hcall⟩
  | scheduleDecode =>
    obtain ⟨plan, _, hcall, hrest⟩ := bind_ok.mp h
    obtain ⟨rfl, rfl⟩ := pure_ok.mp hrest
    exact .inr ⟨plan, rfl, scheduleDecode_ok hcall⟩
  | scheduleResidentDecode =>
    obtain ⟨rfl, events, hsteps, -⟩ | hmade := scheduleResidentDecode_ok hn h
    · exact .inl ⟨rfl, events, hsteps⟩
    · exact .inr hmade

theorem PlanningCall.kept {call : PlanningCall} {found : Option BatchPlan} (hk : s.Kept)
    (h : call.run s = .ok found s') :
    Moved s s' ∧ ∀ plan ∈ found, s'.Fits plan := by
  obtain ⟨rfl, events, hsteps⟩ | ⟨plan, rfl, hmade⟩ := PlanningCall.made hk.settled.nodup h
  · exact ⟨SchedulerSteps.moved hk hsteps, fun plan hplan =>
      absurd hplan (Option.not_mem_none plan)⟩
  · obtain ⟨hmoved, hfits⟩ := hmade.kept hk
    refine ⟨hmoved, fun other hother => ?_⟩
    obtain rfl := Option.some.inj hother
    exact hfits

/-! ## Members outside planning -/

/-- A change of one request that leaves its place: the same status, or a finished prefill. -/
structure Quiet (seq seq' : Sequence H) : Prop where
  request : seq'.request = seq.request
  status : seq'.status = seq.status ∨ seq.status = .prefilling ∧ seq'.status = .decoding
  table : seq.blockTable = [] → seq'.blockTable = []
  cpuTable : seq'.cpuBlockTable = seq.cpuBlockTable
  cached : seq.numCachedTokens = 0 → seq'.numCachedTokens = 0

namespace Quiet

variable {seq seq' : Sequence H}

theorem waits (h : Quiet seq seq') (hw : seq.Waits) : seq'.Waits := by
  obtain ⟨hstatus, htable, hcpu, hcached⟩ := hw
  refine ⟨?_, h.table htable, h.cpuTable.trans hcpu, h.cached hcached⟩
  rcases h.status with hsame | ⟨hprefill, -⟩
  · exact hsame.trans hstatus
  · rw [hstatus] at hprefill
    cases hprefill

theorem runs (h : Quiet seq seq') (hr : seq.Runs) : seq'.Runs := by
  refine ⟨?_, h.cpuTable.trans hr.cpuTable⟩
  rcases h.status with hsame | ⟨-, hdecode⟩
  · rw [hsame]
    exact hr.status
  · exact .inr hdecode

theorem swappedAway (h : Quiet seq seq') (ha : seq.SwappedAway) : seq'.SwappedAway := by
  refine ⟨?_, h.table ha.table⟩
  rcases h.status with hsame | ⟨hprefill, -⟩
  · exact hsame.trans ha.status
  · rw [ha.status] at hprefill
    cases hprefill

theorem gone (h : Quiet seq seq') (hg : seq.Gone) : seq'.Gone := by
  refine ⟨?_, h.table hg.table, h.cpuTable.trans hg.cpuTable⟩
  rcases h.status with hsame | ⟨hprefill, -⟩
  · rw [hsame]
    exact hg.status
  · have hallowed := hg.status
    rw [hprefill] at hallowed
    cases hallowed

end Quiet

/-- A request outside the queues joins the fleet without pages and leaves it so. -/
theorem fleet_outsider (hout : id ∉ s.queued) (hrun : MemberRun (s.view id) t)
    (hgone : (s.seqs id).Gone) (htable : t.seq.blockTable = []) (hcpu : t.seq.cpuBlockTable = []) :
    FleetMoves s.fleet (s.put id t).fleet := by
  have hothers : s.queued.map (s.put id t).seqs = s.queued.map s.seqs := by
    apply List.map_congr_left
    intro other hother
    apply seqs_put_of_ne
    rintro rfl
    exact hout hother
  have hjoin : FleetStep s.fleet (s.blockManager, s.seqs id :: s.queued.map s.seqs) :=
    @FleetStep.join _ _ _ s.blockManager [] (s.queued.map s.seqs) (s.seqs id) hgone.table
      hgone.cpuTable
  have hleave :
      FleetStep (t.manager, t.seq :: s.queued.map s.seqs) (t.manager, s.queued.map s.seqs) :=
    @FleetStep.leave _ _ _ t.manager [] (s.queued.map s.seqs) t.seq htable hcpu
  refine ⟨s.queued.map s.seqs, ?_, ?_⟩
  · exact (ReflTransGen.single hjoin).trans ((hrun.beside (s.queued.map s.seqs)).tail hleave)
  · change (s.queued.map s.seqs).Perm (s.queued.map (s.put id t).seqs)
    rw [hothers]

/-- The accounts of one request, also of one without pages. -/
theorem Kept.ledger_known (hk : s.Kept) (hid : id ∈ s.requests) :
    ∃ others, Ledger others (s.view id) := by
  by_cases hin : id ∈ s.queued
  · exact ⟨_, hk.ledger hin⟩
  · have hgone := hk.settled.gone id hid hin
    have hjoined := @FleetAccounts.join _ _ _ _ _ [] (s.queued.map s.seqs) (s.seqs id)
      hk.fleet.accounts hgone.table hgone.cpuTable
    exact ⟨_, @FleetAccounts.focus _ _ _ _ _ [] _ _ hjoined⟩

/-- A quiet change of one request. -/
theorem Kept.quiet (hk : s.Kept) (hid : id ∈ s.requests) (hrun : MemberRun (s.view id) t)
    (hq : Quiet (s.seqs id) t.seq) (hp : t.seq.Progress) :
    Moved s (s.put id t) := by
  have hs := hk.settled
  have hsame : SameRequests s (s.put id t) := .of_update (fun _ hmem => hmem) rfl hq.request
  by_cases hin : id ∈ s.queued
  · have hmoves : FleetMoves s.fleet (s.put id t).fleet :=
      fleet_member hs.nodup hin hrun rfl rfl (.refl _)
    have hmove : (s.put id t).Settled ∧ SameRequests s (s.put id t) := by
      refine hs.move hin (.refl _) rfl hs.room rfl hq.request hp (fun _ => .inl) (fun _ => .inl)
        (fun _ => .inl) ?_
      rcases mem_queued.mp hin with hwaiting | hrunning | hswapped
      · exact .inl ⟨hwaiting, hq.waits (hs.waiting id hwaiting)⟩
      · exact .inr (.inl ⟨hrunning, hq.runs (hs.running id hrunning)⟩)
      · exact .inr (.inr ⟨hswapped, hq.swappedAway (hs.swapped id hswapped)⟩)
    exact ⟨⟨hmove.1, hmoves.kept hk.fleet⟩, hsame, hmoves⟩
  · have hgone := hs.gone id hid hin
    have hgone' := hq.gone hgone
    have hmoves := fleet_outsider hin hrun hgone hgone'.table hgone'.cpuTable
    have hne : ∀ other ∈ s.queued, other ≠ id := fun other hother heq => hin (heq ▸ hother)
    refine ⟨⟨?_, hmoves.kept hk.fleet⟩, hsame, hmoves⟩
    refine ⟨hs.nodup, hs.known, fun other hmem => ?_, fun other hmem => ?_, fun other hmem => ?_,
      fun other hmem hother => ?_, hs.room, fun other hmem => ?_, fun other hmem => ?_⟩
    · rw [seqs_put_of_ne (hne other (by simp [show other ∈ s.waiting from hmem]))]
      exact hs.waiting other hmem
    · rw [seqs_put_of_ne (hne other (by simp [show other ∈ s.running from hmem]))]
      exact hs.running other hmem
    · rw [seqs_put_of_ne (hne other (by simp [show other ∈ s.swapped from hmem]))]
      exact hs.swapped other hmem
    · by_cases heq : other = id
      · rw [heq, seqs_put_self]
        exact hgone'
      · rw [seqs_put_of_ne heq]
        exact hs.gone other hmem hother
    · rw [(hsame other hmem).2]
      exact hs.named other hmem
    · by_cases heq : other = id
      · rw [heq, seqs_put_self]
        exact hp
      · rw [seqs_put_of_ne heq]
        exact hs.progress other hmem

/-- The queues without one of their members. -/
theorem queued_erase (hn : s.queued.Nodup) (hwaiting : s'.waiting = s.waiting.erase id)
    (hrunning : s'.running = s.running.erase id) (hswapped : s'.swapped = s.swapped.erase id) :
    s'.queued.Perm (s.queued.erase id) := by
  have hsub : s'.queued.Sublist s.queued := by
    unfold queued
    rw [hwaiting, hrunning, hswapped]
    exact ((List.erase_sublist).append List.erase_sublist).append List.erase_sublist
  have hparts := hn
  unfold queued at hparts
  obtain ⟨hfront, hthird, -⟩ := List.nodup_append.mp hparts
  obtain ⟨hfirst, hsecond, -⟩ := List.nodup_append.mp hfront
  rw [List.perm_ext_iff_of_nodup (hsub.nodup hn) (hn.erase id)]
  intro other
  rw [hn.mem_erase_iff, mem_queued, mem_queued, hwaiting, hrunning, hswapped, hfirst.mem_erase_iff,
    hsecond.mem_erase_iff, hthird.mem_erase_iff]
  tauto

/-- A request leaves its queue without pages. -/
theorem Kept.retire (hk : s.Kept) (hin : id ∈ s.queued) (hrun : MemberRun (s.view id) t)
    (hgone : t.seq.Gone) (hrequest : t.seq.request = (s.seqs id).request) (hp : t.seq.Progress)
    (hmanager : s'.blockManager = t.manager) (hseqs : s'.seqs = Function.update s.seqs id t.seq)
    (hrequests : s'.requests = s.requests) (hconfig : s'.config = s.config)
    (hwaiting : s'.waiting = s.waiting.erase id) (hrunning : s'.running = s.running.erase id)
    (hswapped : s'.swapped = s.swapped.erase id) :
    Moved s s' := by
  have hs := hk.settled
  have hself : s'.seqs id = t.seq := by rw [hseqs, Function.update_self]
  have hother : ∀ other, other ≠ id → s'.seqs other = s.seqs other := fun other hne => by
    rw [hseqs, Function.update_of_ne hne]
  have hsame : SameRequests s s' := .of_update (fun _ hmem => hrequests ▸ hmem) hseqs hrequest
  have hqueued := queued_erase hs.nodup hwaiting hrunning hswapped
  have hnodup : s'.queued.Nodup := hqueued.nodup_iff.mpr (hs.nodup.erase id)
  have hmem : ∀ other, other ∈ s'.queued ↔ other ≠ id ∧ other ∈ s.queued := fun other => by
    rw [hqueued.mem_iff, hs.nodup.mem_erase_iff]
  have hne : ∀ other ∈ s'.queued, other ≠ id := fun other hin => ((hmem other).mp hin).1
  have hmoves : FleetMoves s.fleet s'.fleet := by
    have hfirst : FleetMoves s.fleet
        (s.blockManager, s.seqs id :: (s.queued.erase id).map s.seqs) := .of_perm (fleet_front hin)
    have hrest : (s.queued.erase id).map s.seqs = (s.queued.erase id).map s'.seqs :=
      List.map_congr_left fun other hin' =>
        (hother other (hne other (hqueued.mem_iff.mpr hin'))).symm
    have hleave : FleetStep (t.manager, t.seq :: (s.queued.erase id).map s.seqs)
        (t.manager, (s.queued.erase id).map s.seqs) :=
      @FleetStep.leave _ _ _ t.manager [] ((s.queued.erase id).map s.seqs) t.seq hgone.table
        hgone.cpuTable
    refine hfirst.trans ⟨(s.queued.erase id).map s.seqs, ?_, ?_⟩
    · rw [show s'.fleet.1 = t.manager from hmanager]
      exact (hrun.beside ((s.queued.erase id).map s.seqs)).tail hleave
    · rw [hrest]
      exact (hqueued.map s'.seqs).symm
  refine ⟨⟨⟨hnodup, fun other hin => ?_, fun other hin => ?_, fun other hin => ?_,
    fun other hin => ?_, fun other hknown hout => ?_, ?_, fun other hknown => ?_,
    fun other hknown => ?_⟩, hmoves.kept hk.fleet⟩, hsame, hmoves⟩
  · rw [hrequests]
    exact hs.known other ((hmem other).mp hin).2
  · rw [hother other (hne other (by simp [hin]))]
    rw [hwaiting] at hin
    exact hs.waiting other (List.mem_of_mem_erase hin)
  · rw [hother other (hne other (by simp [hin]))]
    rw [hrunning] at hin
    exact hs.running other (List.mem_of_mem_erase hin)
  · rw [hother other (hne other (by simp [hin]))]
    rw [hswapped] at hin
    exact hs.swapped other (List.mem_of_mem_erase hin)
  · by_cases heq : other = id
    · rw [heq, hself]
      exact hgone
    · rw [hother other heq]
      exact hs.gone other (hrequests ▸ hknown) fun hold => hout ((hmem other).mpr ⟨heq, hold⟩)
  · rw [hrunning, hconfig]
    exact (List.erase_sublist.length_le).trans hs.room
  · rw [(hsame other (hrequests ▸ hknown)).2]
    exact hs.named other (hrequests ▸ hknown)
  · by_cases heq : other = id
    · rw [heq, hself]
      exact hp
    · rw [hother other heq]
      exact hs.progress other (hrequests ▸ hknown)

/-! ## Commit, cancellation and arrival -/

theorem publishComputedBlocks_moved (hk : s.Kept) (hid : id ∈ s.requests)
    {first last : ℕ} {u : Unit}
    (hlast : last ≤ (s.seqs id).numTokens)
    (h : onSeq id (BlockManager.publishComputedBlocks first last) s = .ok u s') : Moved s s' := by
  obtain ⟨t, hcall, rfl⟩ := onSeq_ok.mp h
  obtain ⟨table, htable, hseq⟩ := (BlockManager.publishComputedBlocks_table hcall).seq
  have hprogress := hk.settled.progress id hid
  refine hk.quiet hid (MemberRun.call (.publishComputedBlocks first last) hlast hcall) ?_ ?_
  · rw [hseq]
    refine ⟨rfl, .inl rfl, fun hempty => ?_, rfl, fun hcached => hcached⟩
    change table.length = (s.seqs id).blockTable.length at htable
    rw [hempty] at htable
    exact List.eq_nil_of_length_eq_zero htable
  · rw [hseq]
    exact hprogress.of_eq rfl rfl hprogress.cached hprogress.computed

/-- Publication of one batch member. -/
theorem publish_moved (hk : s.Kept) (hfits : s.Fits plan) {index : ℕ} {u : Unit}
    (hindex : plan.sequenceIds[index]? = some id) (h : publish plan index id s = .ok u s') :
    Moved s s' := by
  have hid := hfits.known id (List.mem_of_getElem? hindex)
  have hprogress := hk.settled.progress id hid
  simp only [publish, bind_ok, readSeq_ok] at h
  obtain ⟨_, _, ⟨rfl, rfl⟩, h⟩ := h
  cases hphase : plan.phase with
  | prefill =>
    cases hslice : plan.prefillSlices[index]? with
    | none =>
      simp only [hphase, hslice] at h
      cases h
    | some slice =>
      simp only [hphase, hslice] at h
      have hmem : (id, slice) ∈ plan.sequenceIds.zip plan.prefillSlices := by
        refine List.mem_of_getElem? (i := index) ?_
        rw [List.getElem?_zip_eq_some]
        exact ⟨hindex, hslice⟩
      exact publishComputedBlocks_moved hk hid ((hfits.within _ hmem).trans hprogress.prompt) h
  | decode =>
    simp only [hphase] at h
    split at h
    · exact publishComputedBlocks_moved hk hid hprogress.computed h
    · exact publishComputedBlocks_moved hk hid le_rfl h

theorem appendToken_ok {seq seq' : Sequence H} {token : ℕ} (h : seq.appendToken token = .ok seq') :
    ∃ layout, seq' = { seq with tokenIds := seq.tokenIds ++ [token], kvLayout := layout } := by
  unfold Sequence.appendToken at h
  split at h
  · next hnone =>
    obtain rfl := Except.ok.inj h
    exact ⟨seq.kvLayout, rfl⟩
  · next layout hsome =>
    simp only [except_bind_ok, except_pure_ok] at h
    obtain ⟨layout', -, rfl⟩ := h
    exact ⟨some layout', rfl⟩

/-- A sampled token: the request goes on, or leaves the engine. -/
theorem commitToken_moved (hk : s.Kept) (hid : id ∈ s.requests) {token : ℕ}
    {output : Option RequestOutput} (h : commitToken plan id token s = .ok output s') :
    Moved s s' := by
  have hprogress := hk.settled.progress id hid
  simp only [commitToken, bind_ok, get_ok, readOnly_ok, modifySeq_ok] at h
  obtain ⟨_, _, ⟨rfl, rfl⟩, seq, _, ⟨happend, rfl⟩, _, mid, hmid, h⟩ := h
  obtain ⟨layout, rfl⟩ := appendToken_ok happend
  have hlonger : (s.seqs id).numTokens ≤ ((s.seqs id).tokenIds ++ [token]).length := by
    rw [List.length_append]
    exact Nat.le_add_right _ _
  have happended : Moved s mid := by
    rw [← hmid]
    refine hk.quiet hid (MemberRun.advance rfl rfl rfl)
      ⟨rfl, .inl rfl, fun hempty => hempty, rfl, fun hcached => hcached⟩ ?_
    exact ⟨hprogress.prompt.trans hlonger, hprogress.cached.trans hlonger,
      hprogress.computed.trans hlonger⟩
  refine happended.trans ?_
  have hid' := (happended.same id hid).1
  have hprogress' := happended.kept.settled.progress id hid'
  have hseq : mid.seqs id = { s.seqs id with
      tokenIds := (s.seqs id).tokenIds ++ [token]
      kvLayout := layout } := by
    rw [← hmid, seqs_put_self]
    rfl
  split at h
  · simp only [bind_ok, transitionTo_ok, onSeq_ok, get_ok, require_ok, modify_ok, pure_ok] at h
    obtain ⟨_, _, ⟨finished, hfinish, rfl⟩, _, _, ⟨t, hfree, rfl⟩, _, _, ⟨rfl, rfl⟩, _, _,
      ⟨hrunning, rfl⟩, _, _, rfl, -, rfl⟩ := h
    obtain ⟨rfl, -⟩ := Sequence.transitionTo_ok hfinish
    rw [view_put] at hfree
    have hin : id ∈ mid.queued := by simp [show id ∈ mid.running from hrunning]
    have hapart := queues_apart id happended.kept.settled.nodup
    have hafter : t.seq = BlockManager.resetSequence { mid.seqs id with status := .finished } :=
      (BlockManager.deallocate_seq hfree).1
    have hmark : MemberRun (mid.view id)
        ((mid.view id).setSeq { mid.seqs id with status := .finished }) :=
      MemberRun.advance rfl rfl rfl
    have hrun : MemberRun (mid.view id) t := hmark.trans (MemberRun.call .deallocate trivial hfree)
    refine happended.kept.retire hin hrun ?_ ?_ ?_ rfl ?_ rfl rfl ?_ rfl ?_
    · rw [hafter]
      exact ⟨rfl, rfl, rfl⟩
    · rw [hafter]
      rfl
    · rw [hafter]
      exact hprogress'.of_eq rfl rfl (Nat.zero_le _) hprogress'.computed
    · simp [put]
    · exact (List.erase_of_not_mem fun hwaiting => (hapart.1 hwaiting).1 hrunning).symm
    · exact (List.erase_of_not_mem (hapart.2 hrunning)).symm
  · split at h
    · next hprefilling =>
      simp only [bind_ok, transitionTo_ok, pure_ok] at h
      obtain ⟨_, _, ⟨decoding, hdecode, rfl⟩, -, rfl⟩ := h
      obtain ⟨rfl, -⟩ := Sequence.transitionTo_ok hdecode
      refine happended.kept.quiet hid' (MemberRun.advance rfl rfl rfl)
        ⟨rfl, .inr ⟨?_, rfl⟩, fun hempty => hempty, rfl, fun hcached => hcached⟩ ?_
      · rw [hseq]
        exact hprefilling
      · exact hprogress'.of_eq rfl rfl hprogress'.cached hprogress'.computed
    · split at h
      · cases h
      · obtain ⟨-, rfl⟩ := pure_ok.mp h
        exact happended.kept.stays

/-- One member of a committed batch. -/
theorem postprocessOne_moved (hk : s.Kept) (hfits : s.Fits plan) {index : ℕ} {token : Option ℕ}
    {outputs : List RequestOutput} (hindex : plan.sequenceIds[index]? = some id)
    (h : postprocessOne plan index id token s = .ok outputs s') : Moved s s' := by
  simp only [postprocessOne, bind_ok] at h
  obtain ⟨_, published, hpublish, hcommit⟩ := h
  have hpublished := publish_moved hk hfits hindex hpublish
  cases token with
  | none =>
    obtain ⟨-, rfl⟩ := pure_ok.mp hcommit
    exact hpublished
  | some token =>
    simp only [bind_ok, pure_ok] at hcommit
    obtain ⟨output, _, htoken, -, rfl⟩ := hcommit
    have hid := hfits.known id (List.mem_of_getElem? hindex)
    exact hpublished.trans (commitToken_moved hpublished.kept (hpublished.same id hid).1 htoken)

/-- The members of a batch from `index` on, each with its token. -/
def Remaining (plan : BatchPlan) (index : ℕ) (members : List (ℕ × Option ℕ)) : Prop :=
  ∀ (i : ℕ) (member : ℕ × Option ℕ), members[i]? = some member →
    plan.sequenceIds[index + i]? = some member.1

theorem Remaining.all (plan : BatchPlan) (tokens : List (Option ℕ)) :
    Remaining plan 0 (plan.sequenceIds.zip tokens) := by
  intro i member hmember
  rw [Nat.zero_add]
  exact (List.getElem?_zip_eq_some.mp hmember).1

theorem Remaining.head {index : ℕ} {member : ℕ × Option ℕ} {members : List (ℕ × Option ℕ)}
    (h : Remaining plan index (member :: members)) : plan.sequenceIds[index]? = some member.1 :=
  h 0 member rfl

theorem Remaining.tail {index : ℕ} {member : ℕ × Option ℕ} {members : List (ℕ × Option ℕ)}
    (h : Remaining plan index (member :: members)) : Remaining plan (index + 1) members := by
  intro i other hother
  have hnext := h (i + 1) other hother
  rwa [show index + (i + 1) = index + 1 + i by omega] at hnext

theorem postprocessFrom_moved (hk : s.Kept) (hfits : s.Fits plan) {index : ℕ}
    {members : List (ℕ × Option ℕ)} {outputs : List RequestOutput}
    (hmembers : Remaining plan index members)
    (h : postprocessFrom plan index members s = .ok outputs s') : Moved s s' := by
  induction members generalizing s index outputs with
  | nil => exact (pure_ok.mp h).2 ▸ hk.stays
  | cons member members ih =>
    simp only [postprocessFrom, bind_ok, pure_ok] at h
    obtain ⟨_, last, hone, more, _, hmore, -, rfl⟩ := h
    have hmoved := postprocessOne_moved hk hfits hmembers.head hone
    exact hmoved.trans (ih hmoved.kept (hfits.later hmoved.same) hmembers.tail hmore)

/-- The commit of a plan in flight. -/
theorem postprocess_moved (hk : s.Kept) (hfits : s.Fits plan) {tokens : List (Option ℕ)}
    {outputs : List RequestOutput} (h : postprocess plan tokens s = .ok outputs s') :
    Moved s s' :=
  postprocessFrom_moved hk hfits (.all plan tokens) h

/-- A cancelled request leaves its queue without pages. -/
theorem cancel_moved (hk : s.Kept) {found : Bool} (h : cancel id s = .ok found s') :
    Moved s s' := by
  simp only [cancel, bind_ok, get_ok] at h
  obtain ⟨_, _, ⟨rfl, rfl⟩, h⟩ := h
  split at h
  · next hqueue =>
    simp only [bind_ok, modify_ok, readSeq_ok, when_ok, onSeq_ok, transitionTo_ok, pure_ok] at h
    obtain ⟨_, base, hbase, _, _, ⟨rfl, rfl⟩, _, mid, hfree, _, _, ⟨cancelled, hcancel, rfl⟩, -,
      rfl⟩ :=
      h
    obtain ⟨rfl, -⟩ := Sequence.transitionTo_ok hcancel
    have hin : id ∈ s.queued := mem_queued.mpr hqueue
    have hprogress := hk.settled.progress id (hk.settled.known id hin)
    have hapart := queues_apart id hk.settled.nodup
    have hqueues : base.view id = s.view id ∧ base.seqs = s.seqs ∧ base.requests = s.requests ∧
        base.config = s.config ∧ base.waiting = s.waiting.erase id ∧
        base.running = s.running.erase id ∧ base.swapped = s.swapped.erase id := by
      rw [← hbase]
      split
      · next hwaiting =>
        refine ⟨rfl, rfl, rfl, rfl, rfl, ?_, ?_⟩
        · exact (List.erase_of_not_mem (hapart.1 hwaiting).1).symm
        · exact (List.erase_of_not_mem (hapart.1 hwaiting).2).symm
      · next hwaiting =>
        split
        · next hrunning =>
          refine ⟨rfl, rfl, rfl, rfl, ?_, rfl, ?_⟩
          · exact (List.erase_of_not_mem hwaiting).symm
          · exact (List.erase_of_not_mem (hapart.2 hrunning)).symm
        · next hrunning =>
          refine ⟨rfl, rfl, rfl, rfl, ?_, ?_, rfl⟩
          · exact (List.erase_of_not_mem hwaiting).symm
          · exact (List.erase_of_not_mem hrunning).symm
    obtain ⟨hview, hseqs, hrequests, hconfig, hwaiting, hrunning, hswapped⟩ := hqueues
    have hmanager : base.blockManager = s.blockManager := congrArg ManagerState.manager hview
    rcases hfree with ⟨-, t, hfree, rfl⟩ | ⟨hempty, rfl⟩
    · rw [hview] at hfree
      have hafter : t.seq = BlockManager.resetSequence (s.seqs id) :=
        (BlockManager.deallocate_seq hfree).1
      have hmark : MemberRun t (t.setSeq { t.seq with status := .cancelled }) :=
        MemberRun.advance rfl rfl rfl
      have hrun := (MemberRun.call (t := s.view id) .deallocate trivial hfree).trans hmark
      refine hk.retire hin hrun ?_ ?_ ?_ rfl ?_ hrequests hconfig hwaiting hrunning hswapped
      · change Sequence.Gone { t.seq with status := .cancelled }
        rw [hafter]
        exact ⟨rfl, rfl, rfl⟩
      · change t.seq.request = _
        rw [hafter]
        rfl
      · change Sequence.Progress { t.seq with status := .cancelled }
        rw [hafter]
        exact hprogress.of_eq rfl rfl (Nat.zero_le _) hprogress.computed
      · simp [put, hseqs, ManagerState.setSeq]
    · have hmark : MemberRun (s.view id)
          ((s.view id).setSeq { s.seqs id with status := .cancelled }) :=
        MemberRun.advance rfl rfl rfl
      rw [hseqs, not_or, not_not, not_not] at hempty
      refine hk.retire hin hmark ⟨rfl, hempty.1, hempty.2⟩ rfl
        (hprogress.of_eq rfl rfl hprogress.cached hprogress.computed) ?_ ?_ hrequests
        hconfig hwaiting
        hrunning hswapped
      · exact hmanager
      · simp [put, hseqs, hview, ManagerState.setSeq]
  · obtain ⟨-, rfl⟩ := pure_ok.mp h
    exact hk.stays

/-- A new request, at the end of the waiting queue or turned away. -/
theorem Kept.enter (hk : s.Kept) (hnew : id ∉ s.requests) {seq : Sequence H} (hp : seq.Progress)
    (hname : seq.request.seqId = id) (hmanager : s'.blockManager = s.blockManager)
    (hseqs : s'.seqs = Function.update s.seqs id seq) (hrequests : s'.requests = id :: s.requests)
    (hconfig : s'.config = s.config) (hrunning : s'.running = s.running)
    (hswapped : s'.swapped = s.swapped)
    (hplace : s'.waiting = s.waiting ++ [id] ∧ seq.Waits ∨ s'.waiting = s.waiting ∧ seq.Gone) :
    Moved s s' := by
  have hs := hk.settled
  have hself : s'.seqs id = seq := by rw [hseqs, Function.update_self]
  have hother : ∀ other, other ≠ id → s'.seqs other = s.seqs other := fun other hne => by
    rw [hseqs, Function.update_of_ne hne]
  have hold : ∀ other ∈ s.requests, other ≠ id := fun other hmem heq => hnew (heq ▸ hmem)
  have hout : id ∉ s.queued := fun hin => hnew (hs.known id hin)
  have hqueue : ∀ other ∈ s.queued, s'.seqs other = s.seqs other := fun other hmem =>
    hother other (hold other (hs.known other hmem))
  have hsame : SameRequests s s' := fun other hmem =>
    ⟨hrequests ▸ List.mem_cons_of_mem id hmem, by rw [hother other (hold other hmem)]⟩
  have hmap : s.queued.map s'.seqs = s.queued.map s.seqs := List.map_congr_left hqueue
  have hwaiting : ∀ other ∈ s.waiting, (s'.seqs other).Waits := fun other hmem => by
    rw [hqueue other (by simp [hmem])]
    exact hs.waiting other hmem
  have hruns : ∀ other ∈ s'.running, (s'.seqs other).Runs := fun other hmem => by
    rw [hrunning] at hmem
    rw [hqueue other (by simp [hmem])]
    exact hs.running other hmem
  have haway : ∀ other ∈ s'.swapped, (s'.seqs other).SwappedAway := fun other hmem => by
    rw [hswapped] at hmem
    rw [hqueue other (by simp [hmem])]
    exact hs.swapped other hmem
  have hroom : s'.running.length ≤ s'.config.maxNumSeqs := by
    rw [hrunning, hconfig]
    exact hs.room
  have hnamed : ∀ other ∈ s'.requests, (s'.seqs other).request.seqId = other := fun other hmem => by
    rw [hrequests] at hmem
    rcases List.mem_cons.mp hmem with rfl | hmem
    · rw [hself]
      exact hname
    · rw [hother other (hold other hmem)]
      exact hs.named other hmem
  have hprogress : ∀ other ∈ s'.requests, (s'.seqs other).Progress := fun other hmem => by
    rw [hrequests] at hmem
    rcases List.mem_cons.mp hmem with rfl | hmem
    · rw [hself]
      exact hp
    · rw [hother other (hold other hmem)]
      exact hs.progress other hmem
  rcases hplace with ⟨hplace, hwaits⟩ | ⟨hplace, hgone⟩
  · have hqueued : s'.queued.Perm (id :: s.queued) := by
      unfold queued
      rw [hplace, hrunning, hswapped]
      simp only [List.append_assoc, List.singleton_append]
      exact List.perm_middle
    have hmoves : FleetMoves s.fleet s'.fleet := by
      have hjoin : FleetStep s.fleet (s.blockManager, seq :: s.queued.map s.seqs) :=
        @FleetStep.join _ _ _ s.blockManager [] (s.queued.map s.seqs) seq hwaits.table
          hwaits.cpuTable
      refine ⟨seq :: s.queued.map s.seqs, ?_, ?_⟩
      · rw [show s'.fleet.1 = s.blockManager from hmanager]
        exact .single hjoin
      · have hperm := hqueued.map s'.seqs
        rw [List.map_cons, hself, hmap] at hperm
        exact hperm.symm
    refine ⟨⟨⟨hqueued.nodup_iff.mpr (List.nodup_cons.mpr ⟨hout, hs.nodup⟩), fun other hmem => ?_,
      fun other hmem => ?_, hruns, haway, fun other hmem hgone => ?_, hroom, hnamed, hprogress⟩,
      hmoves.kept hk.fleet⟩, hsame, hmoves⟩
    · rw [hrequests]
      rcases List.mem_cons.mp (hqueued.mem_iff.mp hmem) with rfl | hmem
      · exact List.mem_cons_self
      · exact List.mem_cons_of_mem id (hs.known other hmem)
    · rw [hplace] at hmem
      rcases List.mem_append.mp hmem with hmem | hmem
      · exact hwaiting other hmem
      · obtain rfl := List.mem_singleton.mp hmem
        rw [hself]
        exact hwaits
    · rw [hrequests] at hmem
      rcases List.mem_cons.mp hmem with rfl | hmem
      · exact absurd (hqueued.mem_iff.mpr List.mem_cons_self) hgone
      · rw [hother other (hold other hmem)]
        exact hs.gone other hmem fun hin =>
          hgone (hqueued.mem_iff.mpr (List.mem_cons_of_mem id hin))
  · have hqueued : s'.queued = s.queued := by
      unfold queued
      rw [hplace, hrunning, hswapped]
    have hmoves : FleetMoves s.fleet s'.fleet := by
      refine ⟨s.queued.map s.seqs, ?_, ?_⟩
      · rw [show s'.fleet.1 = s.blockManager from hmanager]
        exact .refl
      · change (s.queued.map s.seqs).Perm (s'.queued.map s'.seqs)
        rw [hqueued, hmap]
    refine ⟨⟨⟨hqueued ▸ hs.nodup, fun other hmem => ?_, fun other hmem => ?_, hruns, haway,
      fun other hmem hout' => ?_, hroom, hnamed, hprogress⟩, hmoves.kept hk.fleet⟩, hsame, hmoves⟩
    · rw [hqueued] at hmem
      rw [hrequests]
      exact List.mem_cons_of_mem id (hs.known other hmem)
    · rw [hplace] at hmem
      exact hwaiting other hmem
    · rw [hrequests] at hmem
      rcases List.mem_cons.mp hmem with rfl | hmem
      · rw [hself]
        exact hgone
      · rw [hother other (hold other hmem)]
        exact hs.gone other hmem fun hin => hout' (hqueued ▸ hin)

/-- A new request enters the waiting queue, or is known and turned away. -/
structure Arrived (s : Scheduler H) (req : Request) (decision : AdmissionDecision)
    (s' : Scheduler H) : Prop where
  unknown : req.seqId ∉ s.requests
  blockManager : s'.blockManager = s.blockManager
  requests : s'.requests = req.seqId :: s.requests
  config : s'.config = s.config
  running : s'.running = s.running
  swapped : s'.swapped = s.swapped
  seqs : ∃ enabled candidate, s'.seqs = Function.update s.seqs req.seqId
    { Sequence.ofRequest H req with
      status := if decision = none then .waiting else .rejected
      multimodalPrefixCacheEnabled := enabled
      prefixCacheCandidateTokens := candidate }
  waiting : s'.waiting = if decision = none then s.waiting ++ [req.seqId] else s.waiting

theorem add_arrived {req : Request} {decision : AdmissionDecision}
    (h : add req s = .ok decision s') : Arrived s req decision s' := by
  simp only [add, bind_ok, get_ok, require_ok, modifySeq_ok, onSeq_ok, modify_ok] at h
  obtain ⟨_, _, ⟨rfl, rfl⟩, _, _, ⟨hnew, rfl⟩, _, _, rfl, n, _, ⟨t, hprobe, rfl⟩, _, mid,
    hmid, _, _, ⟨rfl, rfl⟩, h⟩ := h
  rw [view_put] at hprobe
  obtain ⟨enabled, candidate, rfl⟩ := BlockManager.cachedPrefixTokens_seq hprobe
  have hprobed : mid = { s with
      seqs := Function.update s.seqs req.seqId { Sequence.ofRequest H req with
        multimodalPrefixCacheEnabled := enabled
        prefixCacheCandidateTokens := candidate }
      requests := req.seqId :: s.requests } := by
    rw [← hmid]
    simp [put, view, ManagerState.setSeq]
  cases hreason : mid.config.policy.admitRequest (mid.seqs req.seqId)
      (mid.waiting.length + mid.running.length + mid.swapped.length) with
  | some reason =>
    simp only [hreason, bind_ok, transitionTo_ok, pure_ok] at h
    obtain ⟨_, _, ⟨rejected, hreject, rfl⟩, rfl, rfl⟩ := h
    obtain ⟨rfl, -⟩ := Sequence.transitionTo_ok hreject
    refine ⟨hnew, ?_, ?_, ?_, ?_, ?_, ⟨enabled, candidate, ?_⟩, ?_⟩
    all_goals simp [hprobed, put, view, ManagerState.setSeq]
  | none =>
    simp only [hreason, bind_ok, modify_ok, pure_ok] at h
    obtain ⟨_, _, rfl, rfl, rfl⟩ := h
    refine ⟨hnew, ?_, ?_, ?_, ?_, ?_, ⟨enabled, candidate, ?_⟩, ?_⟩
    all_goals simp [hprobed, Sequence.ofRequest]

/-- An arrival enters the waiting queue, or is turned away. -/
theorem add_moved (hk : s.Kept) {req : Request} {decision : AdmissionDecision}
    (h : add req s = .ok decision s') : Moved s s' := by
  have harrived := add_arrived h
  obtain ⟨enabled, candidate, hseqs⟩ := harrived.seqs
  have hplace := harrived.waiting
  refine hk.enter harrived.unknown ?_ rfl harrived.blockManager hseqs harrived.requests
    harrived.config harrived.running harrived.swapped ?_
  · exact ⟨le_rfl, Nat.zero_le _, Nat.zero_le _⟩
  · split at hplace
    · next hnone =>
      refine .inl ⟨hplace, ?_, rfl, rfl, rfl⟩
      exact if_pos hnone
    · next hreason =>
      refine .inr ⟨hplace, ?_, rfl, rfl⟩
      change (if decision = none then RequestState.waiting else .rejected).allowed = []
      rw [if_neg hreason]
      rfl

end Scheduler

end PrismInfer
