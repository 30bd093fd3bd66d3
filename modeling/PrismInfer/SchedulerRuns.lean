import PrismInfer.AdmissionProgress
import PrismInfer.FleetMoves
import PrismInfer.SchedulerPlans

/-!
# What every planning step keeps

The queues of the scheduler against the pages. A waiting sequence holds none, a running one GPU
pages only, a swapped one CPU pages only, one that left none. The sequences in the queues are
a fleet of the block manager, and what a planning step does to them is a run of that fleet.
-/
set_option linter.unusedSectionVars false

namespace PrismInfer
open StateExcept Relation

variable {H : Type} [DecidableEq H] [Digests H]

namespace Sequence

/-- In the waiting queue. -/
structure Waits (seq : Sequence H) : Prop where
  status : seq.status = .waiting
  table : seq.blockTable = []
  cpuTable : seq.cpuBlockTable = []
  cached : seq.numCachedTokens = 0

/-- In the running queue. -/
structure Runs (seq : Sequence H) : Prop where
  status : seq.status = .prefilling ∨ seq.status = .decoding
  cpuTable : seq.cpuBlockTable = []

/-- In the swapped queue. -/
structure SwappedAway (seq : Sequence H) : Prop where
  status : seq.status = .swapped
  table : seq.blockTable = []

/-- Finished, cancelled or rejected. -/
structure Gone (seq : Sequence H) : Prop where
  status : seq.status.allowed = []
  table : seq.blockTable = []
  cpuTable : seq.cpuBlockTable = []

/-- Progress within the tokens, and the prompt in front of these. -/
structure Progress (seq : Sequence H) : Prop where
  prompt : seq.numPromptTokens ≤ seq.numTokens
  cached : seq.numCachedTokens ≤ seq.numTokens
  computed : seq.numComputedTokens ≤ seq.numTokens

theorem transitionTo_ok {seq seq' : Sequence H} {target : RequestState}
    (h : seq.transitionTo target = .ok seq') :
    seq' = { seq with status := target } ∧ (target = seq.status ∨ target ∈ seq.status.allowed) := by
  simp only [transitionTo, except_bind_ok, except_pure_ok] at h
  obtain ⟨state, htransition, rfl⟩ := h
  unfold RequestState.transition at htransition
  split at htransition
  · next hsame =>
    obtain rfl := Except.ok.inj htransition
    exact ⟨by rw [hsame], .inl hsame⟩
  · split at htransition
    · next hallowed =>
      obtain rfl := Except.ok.inj htransition
      exact ⟨rfl, .inr hallowed⟩
    · cases htransition

/-- Nothing but the page tables and the admission counts decides about progress. -/
theorem Progress.of_eq {seq seq' : Sequence H} (h : seq.Progress)
    (hrequest : seq'.request = seq.request) (htokens : seq'.tokenIds = seq.tokenIds)
    (hcached : seq'.numCachedTokens ≤ seq.numTokens)
    (hcomputed : seq'.numComputedTokens ≤ seq.numTokens) : seq'.Progress := by
  have hlength : seq'.numTokens = seq.numTokens := congrArg List.length htokens
  refine ⟨?_, hlength ▸ hcached, hlength ▸ hcomputed⟩
  rw [hlength, numPromptTokens, hrequest]
  exact h.prompt

end Sequence

namespace Scheduler

variable {s s' : Scheduler H} {id : ℕ} {t : ManagerState H} {events : List SchedulerEvent}

/-- The manager with the sequences in the queues. -/
def fleet (s : Scheduler H) : Fleet H := (s.blockManager, s.queued.map s.seqs)

/-- The queues, the statuses and the page tables agree. -/
structure Settled (s : Scheduler H) : Prop where
  nodup : s.queued.Nodup
  known : ∀ id ∈ s.queued, id ∈ s.requests
  waiting : ∀ id ∈ s.waiting, (s.seqs id).Waits
  running : ∀ id ∈ s.running, (s.seqs id).Runs
  swapped : ∀ id ∈ s.swapped, (s.seqs id).SwappedAway
  gone : ∀ id ∈ s.requests, id ∉ s.queued → (s.seqs id).Gone
  room : s.running.length ≤ s.config.maxNumSeqs
  named : ∀ id ∈ s.requests, (s.seqs id).request.seqId = id
  progress : ∀ id ∈ s.requests, (s.seqs id).Progress

/-- Every request stays known and as it is. -/
def SameRequests (s s' : Scheduler H) : Prop :=
  ∀ id ∈ s.requests, id ∈ s'.requests ∧ (s'.seqs id).request = (s.seqs id).request

theorem SameRequests.refl (s : Scheduler H) : SameRequests s s := fun _ hid => ⟨hid, rfl⟩

theorem SameRequests.trans {mid : Scheduler H} (h : SameRequests s mid)
    (h' : SameRequests mid s') : SameRequests s s' := by
  intro id hid
  obtain ⟨hmid, hfirst⟩ := h id hid
  obtain ⟨hlast, hsecond⟩ := h' id hmid
  exact ⟨hlast, hsecond.trans hfirst⟩

theorem SameRequests.of_update (hrequests : ∀ id ∈ s.requests, id ∈ s'.requests)
    (hseqs : s'.seqs = Function.update s.seqs id t.seq)
    (hrequest : t.seq.request = (s.seqs id).request) : SameRequests s s' := by
  intro other hmem
  refine ⟨hrequests other hmem, ?_⟩
  rw [hseqs]
  by_cases heq : other = id
  · rw [heq, Function.update_self]
    exact hrequest
  · rw [Function.update_of_ne heq]

/-- The queues agree with the pages, and the pages are accounted for. -/
structure Kept (s : Scheduler H) : Prop where
  settled : s.Settled
  fleet : FleetKept s.fleet

@[simp] theorem mem_queued : id ∈ s.queued ↔ id ∈ s.waiting ∨ id ∈ s.running ∨ id ∈ s.swapped := by
  simp [queued]

/-- One member in front of the others. -/
theorem fleet_front (hid : id ∈ s.queued) :
    (s.queued.map s.seqs).Perm (s.seqs id :: (s.queued.erase id).map s.seqs) :=
  (List.perm_cons_erase hid).map s.seqs

/-- The accounts of one member. -/
theorem Kept.ledger (hk : s.Kept) (hid : id ∈ s.queued) :
    Ledger (Others.none.add ((s.queued.erase id).map s.seqs)) (s.view id) := by
  have hfront : FleetKept (s.blockManager, s.seqs id :: (s.queued.erase id).map s.seqs) :=
    hk.fleet.perm (fleet_front hid).symm
  exact @FleetAccounts.focus _ _ _ _ _ [] _ _ hfront.accounts

/-- What one member does, the sequences in the queues do. -/
theorem fleet_member (hn : s.queued.Nodup) (hid : id ∈ s.queued) (hrun : MemberRun (s.view id) t)
    (hmanager : s'.blockManager = t.manager) (hseqs : s'.seqs = Function.update s.seqs id t.seq)
    (hqueued : s'.queued.Perm s.queued) : FleetMoves s.fleet s'.fleet := by
  have hothers : (s.queued.erase id).map s'.seqs = (s.queued.erase id).map s.seqs := by
    apply List.map_congr_left
    intro other hother
    rw [hseqs, Function.update_of_ne]
    rintro rfl
    exact hn.not_mem_erase hother
  have hlast : (t.seq :: (s.queued.erase id).map s.seqs).Perm (s'.queued.map s'.seqs) := by
    have hperm := (hqueued.trans (List.perm_cons_erase hid)).map s'.seqs
    rw [List.map_cons, hothers, hseqs, Function.update_self] at hperm
    rw [hseqs]
    exact hperm.symm
  have hfirst : FleetMoves s.fleet (s.blockManager, s.seqs id :: (s.queued.erase id).map s.seqs) :=
    .of_perm (fleet_front hid)
  refine hfirst.trans ⟨t.seq :: (s.queued.erase id).map s.seqs, ?_, hlast⟩
  rw [show s'.fleet.1 = t.manager from hmanager]
  exact hrun.beside ((s.queued.erase id).map s.seqs)

/-- The queues have no member in common. -/
theorem queues_apart (id : ℕ) (h : s.queued.Nodup) :
    (id ∈ s.waiting → id ∉ s.running ∧ id ∉ s.swapped) ∧ (id ∈ s.running → id ∉ s.swapped) := by
  unfold queued at h
  obtain ⟨hfirst, -, hlast⟩ := List.nodup_append.mp h
  obtain ⟨-, -, hfirst⟩ := List.nodup_append.mp hfirst
  refine ⟨fun hwaiting => ⟨fun hrunning => ?_, fun hswapped => ?_⟩, fun hrunning hswapped => ?_⟩
  · exact hfirst id hwaiting id hrunning rfl
  · exact hlast id (List.mem_append_left _ hwaiting) id hswapped rfl
  · exact hlast id (List.mem_append_right _ hrunning) id hswapped rfl

/-- A move of one member between the queues keeps what they say about the others. -/
theorem Settled.move (h : s.Settled) (hid : id ∈ s.queued) (hqueued : s'.queued.Perm s.queued)
    (hrequests : s'.requests = s.requests) (hroom : s'.running.length ≤ s'.config.maxNumSeqs)
    (hseqs : s'.seqs = Function.update s.seqs id t.seq)
    (hrequest : t.seq.request = (s.seqs id).request) (hprogress : t.seq.Progress)
    (hwaiting : ∀ other ∈ s'.waiting, other ∈ s.waiting ∨ other = id)
    (hrunning : ∀ other ∈ s'.running, other ∈ s.running ∨ other = id)
    (hswapped : ∀ other ∈ s'.swapped, other ∈ s.swapped ∨ other = id)
    (hplace : id ∈ s'.waiting ∧ t.seq.Waits ∨ id ∈ s'.running ∧ t.seq.Runs ∨
      id ∈ s'.swapped ∧ t.seq.SwappedAway) : s'.Settled ∧ SameRequests s s' := by
  have hself : s'.seqs id = t.seq := by rw [hseqs, Function.update_self]
  have hother : ∀ other, other ≠ id → s'.seqs other = s.seqs other := fun other hne => by
    rw [hseqs, Function.update_of_ne hne]
  have hnodup : s'.queued.Nodup := hqueued.nodup_iff.mpr h.nodup
  have hapart := queues_apart id hnodup
  refine ⟨?_, .of_update (fun other hmem => hrequests ▸ hmem) hseqs hrequest⟩
  constructor
  · exact hnodup
  · intro other hmem
    rw [hrequests]
    exact h.known other (hqueued.mem_iff.mp hmem)
  · intro other hmem
    by_cases heq : other = id
    · subst heq
      rw [hself]
      rcases hplace with ⟨-, hwaits⟩ | ⟨hruns, -⟩ | ⟨haway, -⟩
      · exact hwaits
      · exact absurd hruns (hapart.1 hmem).1
      · exact absurd haway (hapart.1 hmem).2
    · rw [hother other heq]
      exact h.waiting other ((hwaiting other hmem).resolve_right heq)
  · intro other hmem
    by_cases heq : other = id
    · subst heq
      rw [hself]
      rcases hplace with ⟨hwaits, -⟩ | ⟨-, hruns⟩ | ⟨haway, -⟩
      · exact absurd hmem (hapart.1 hwaits).1
      · exact hruns
      · exact absurd haway (hapart.2 hmem)
    · rw [hother other heq]
      exact h.running other ((hrunning other hmem).resolve_right heq)
  · intro other hmem
    by_cases heq : other = id
    · subst heq
      rw [hself]
      rcases hplace with ⟨hwaits, -⟩ | ⟨hruns, -⟩ | ⟨-, haway⟩
      · exact absurd hmem (hapart.1 hwaits).2
      · exact absurd hmem (hapart.2 hruns)
      · exact haway
    · rw [hother other heq]
      exact h.swapped other ((hswapped other hmem).resolve_right heq)
  · intro other hmem hgone
    have hne : other ≠ id := by
      rintro rfl
      exact hgone (hqueued.mem_iff.mpr hid)
    rw [hother other hne]
    exact h.gone other (hrequests ▸ hmem) fun hold => hgone (hqueued.mem_iff.mpr hold)
  · exact hroom
  · intro other hmem
    by_cases heq : other = id
    · rw [heq, hself, hrequest]
      exact h.named id (h.known id hid)
    · rw [hother other heq]
      exact h.named other (hrequests ▸ hmem)
  · intro other hmem
    by_cases heq : other = id
    · rw [heq, hself]
      exact hprogress
    · rw [hother other heq]
      exact h.progress other (hrequests ▸ hmem)

/-- A change that leaves every sequence, and every queue up to its order. -/
theorem Settled.reorder (h : s.Settled) (hwaiting : s'.waiting = s.waiting)
    (hrunning : s'.running.Perm s.running) (hswapped : s'.swapped = s.swapped)
    (hrequests : s'.requests = s.requests) (hseqs : s'.seqs = s.seqs)
    (hconfig : s'.config = s.config) :
    s'.Settled ∧ SameRequests s s' := by
  have hqueued : s'.queued.Perm s.queued := by
    unfold queued
    rw [hwaiting, hswapped]
    exact (hrunning.append_left s.waiting).append_right s.swapped
  refine ⟨⟨hqueued.nodup_iff.mpr h.nodup, fun id hid => ?_, fun id hid => ?_, fun id hid => ?_,
    fun id hid => ?_, fun id hid hgone => ?_, ?_, ?_, ?_⟩, fun id hid => ?_⟩
  · rw [hrequests]
    exact h.known id (hqueued.mem_iff.mp hid)
  · rw [hseqs]
    exact h.waiting id (hwaiting ▸ hid)
  · rw [hseqs]
    exact h.running id (hrunning.mem_iff.mp hid)
  · rw [hseqs]
    exact h.swapped id (hswapped ▸ hid)
  · rw [hseqs]
    exact h.gone id (hrequests ▸ hid) fun hold => hgone (hqueued.mem_iff.mpr hold)
  · rw [hrunning.length_eq, hconfig]
    exact h.room
  · rw [hseqs, hrequests]
    exact h.named
  · rw [hseqs, hrequests]
    exact h.progress
  · rw [hseqs, hrequests]
    exact ⟨hid, rfl⟩

end Scheduler

open Scheduler

variable {s s' : Scheduler H} {events : List SchedulerEvent}

/-- A planning step is a run of the sequences in the queues. -/
theorem SchedulerStep.fleet (hn : s.queued.Nodup) (h : SchedulerStep s events s') :
    FleetMoves s.fleet s'.fleet := by
  have hqueued := h.queued_perm
  cases h with
  | @probe id n t hid hprobe =>
    exact fleet_member hn (by simp [hid])
      (MemberRun.call .cachedPrefixTokens trivial (bind_ok.mpr ⟨n, t, hprobe, rfl⟩)) rfl rfl hqueued
  | select => exact .of_perm ((hqueued.map s.seqs).symm)
  | @admitPrefill id t copies seq hid hroom halloc hseq =>
    obtain ⟨rfl, -⟩ := Sequence.transitionTo_ok hseq
    refine fleet_member hn (by simp [hid]) ?_ rfl rfl hqueued
    exact (MemberRun.call .allocate trivial (bind_ok.mpr ⟨copies, t, halloc, rfl⟩)).trans
      (MemberRun.advance rfl rfl rfl)
  | @swapIn id rest t pairs seq hid hroom hswap hseq =>
    obtain ⟨rfl, -⟩ := Sequence.transitionTo_ok hseq
    refine fleet_member hn (by simp [hid]) ?_ rfl rfl hqueued
    exact (MemberRun.call .swapIn trivial (bind_ok.mpr ⟨pairs, t, hswap, rfl⟩)).trans
      (MemberRun.advance rfl rfl rfl)
  | @swapOut id running t pairs seq hrunning hdecoding hswap hseq =>
    obtain ⟨rfl, -⟩ := Sequence.transitionTo_ok hseq
    have hid : id ∈ s.running := hrunning.mem_iff.mpr List.mem_cons_self
    refine fleet_member hn (by simp [hid]) ?_ rfl rfl hqueued
    exact (MemberRun.call .swapOut trivial (bind_ok.mpr ⟨pairs, t, hswap, rfl⟩)).trans
      (MemberRun.advance rfl rfl rfl)
  | @recompute id running t seq hrunning hdecoding hfree hseq =>
    obtain ⟨rfl, -⟩ := Sequence.transitionTo_ok hseq
    have hid : id ∈ s.running := hrunning.mem_iff.mpr List.mem_cons_self
    refine fleet_member hn (by simp [hid]) ?_ rfl rfl hqueued
    exact (MemberRun.call .deallocate trivial hfree).trans (MemberRun.advance rfl rfl rfl)
  | @reserve id t t' pair hid hdecoding hcopy happend =>
    refine fleet_member hn (by simp [hid]) ?_ rfl rfl hqueued
    rcases hcopy with ⟨-, -, rfl⟩ | ⟨-, hcopy⟩
    · exact MemberRun.call .mayAppend trivial happend
    · exact (MemberRun.call .copyOnWrite trivial (bind_ok.mpr ⟨pair, t, hcopy, rfl⟩)).trans
        (MemberRun.call .mayAppend trivial happend)
  | reorder => exact .of_perm ((hqueued.map s.seqs).symm)
  | countDecode => exact .refl _
  | countPrefill => exact .refl _

/-- A planning step keeps what the queues say, and every request. -/
theorem SchedulerStep.settled (hk : s.Kept) (h : SchedulerStep s events s') :
    s'.Settled ∧ SameRequests s s' := by
  have hs := hk.settled
  have hqueued := h.queued_perm
  cases h with
  | @probe id n t hid hprobe =>
    obtain ⟨enabled, candidate, rfl⟩ := BlockManager.cachedPrefixTokens_seq hprobe
    have hin : id ∈ s.queued := by simp [hid]
    have hprogress := hs.progress id (hs.known id hin)
    refine hs.move hin hqueued rfl hs.room rfl rfl
      (hprogress.of_eq rfl rfl hprogress.cached hprogress.computed) (fun _ => .inl)
      (fun _ => .inl) (fun _ => .inl) (.inl ⟨hid, ?_⟩)
    obtain ⟨hstatus, htable, hcpu, hcached⟩ := hs.waiting id hid
    exact ⟨hstatus, htable, hcpu, hcached⟩
  | select => exact hs.reorder rfl (.refl _) rfl rfl rfl rfl
  | @admitPrefill id t copies seq hid hroom halloc hseq =>
    obtain ⟨rfl, -⟩ := Sequence.transitionTo_ok hseq
    have hin : id ∈ s.queued := by simp [hid]
    have hl := hk.ledger hin
    have hwaits := hs.waiting id hid
    have hprogress := hs.progress id (hs.known id hin)
    obtain ⟨hrequest, htokens, hcpu, hcomputed⟩ :=
      BlockManager.Admitted.frame (BlockManager.allocate_admitted hl halloc).1
    have hcached := BlockManager.allocate_cached hl hwaits.cached hprogress.prompt halloc
    refine hs.move hin hqueued rfl ?_ rfl hrequest (hprogress.of_eq hrequest htokens hcached ?_)
      (fun other hother => .inl (List.mem_of_mem_erase hother))
      (fun other hother => ?_) (fun _ => .inl) (.inr (.inl ⟨by simp, .inl rfl, ?_⟩))
    · change (s.running ++ [id]).length ≤ s.config.maxNumSeqs
      rw [List.length_append]
      exact hroom
    · have hbefore := hprogress.computed
      change max t.seq.numComputedTokens t.seq.numCachedTokens ≤ _
      exact max_le (hcomputed.trans (max_le hbefore hcached)) hcached
    · simpa using hother
    · exact hcpu.trans hwaits.cpuTable
  | @swapIn id rest t pairs seq hid hroom hswap hseq =>
    obtain ⟨rfl, -⟩ := Sequence.transitionTo_ok hseq
    have hmem : id ∈ s.swapped := by simp [hid]
    have hin : id ∈ s.queued := by simp [hmem]
    have hprogress := hs.progress id (hs.known id hin)
    obtain ⟨-, ⟨table, -, hafter⟩, -⟩ := BlockManager.swapIn_seq (hk.ledger hin) hswap
    change t.seq = { s.seqs id with
      blockTable := table
      cpuBlockTable := []
      cpuBlockHashes := []
      cpuBlockTokenIds := []
      cpuBlockMmHashes := [] } at hafter
    refine hs.move hin hqueued rfl ?_ rfl (by simp [hafter])
      (hprogress.of_eq (by simp [hafter]) (by simp [hafter])
        (by simpa [hafter] using hprogress.cached)
        (by simpa [hafter] using hprogress.computed)) (fun _ => .inl)
      (fun other hother => ?_) (fun other hother => ?_) (.inr (.inl ⟨by simp, .inr rfl, ?_⟩))
    · change (s.running ++ [id]).length ≤ s.config.maxNumSeqs
      rw [List.length_append]
      exact hroom
    · simpa using hother
    · left
      rw [hid]
      exact List.mem_cons_of_mem id hother
    · simp [hafter]
  | @swapOut id running t pairs seq hrunning hdecoding hswap hseq =>
    obtain ⟨rfl, -⟩ := Sequence.transitionTo_ok hseq
    have hmem : id ∈ s.running := hrunning.mem_iff.mpr List.mem_cons_self
    have hin : id ∈ s.queued := by simp [hmem]
    have hprogress := hs.progress id (hs.known id hin)
    obtain ⟨cpuTable, hashes, tokens, mms, -, hafter, -⟩ :=
      BlockManager.swapOut_seq (hk.ledger hin) hswap
    change t.seq = { s.seqs id with
      blockTable := []
      cpuBlockTable := cpuTable
      cpuBlockHashes := hashes
      cpuBlockTokenIds := tokens
      cpuBlockMmHashes := mms } at hafter
    refine hs.move hin hqueued rfl ?_ rfl (by simp [hafter])
      (hprogress.of_eq (by simp [hafter]) (by simp [hafter])
        (by simpa [hafter] using hprogress.cached)
        (by simpa [hafter] using hprogress.computed)) (fun _ => .inl)
      (fun other hother => .inl (hrunning.mem_iff.mpr (List.mem_cons_of_mem id hother)))
      (fun other hother => ?_) (.inr (.inr ⟨by simp, rfl, ?_⟩))
    · have hlength := hrunning.length_eq
      rw [List.length_cons] at hlength
      exact (Nat.le_succ _).trans (hlength.symm.le.trans hs.room)
    · simpa using hother
    · simp [hafter]
  | @recompute id running t seq hrunning hdecoding hfree hseq =>
    obtain ⟨rfl, -⟩ := Sequence.transitionTo_ok hseq
    have hmem : id ∈ s.running := hrunning.mem_iff.mpr List.mem_cons_self
    have hin : id ∈ s.queued := by simp [hmem]
    have hprogress := hs.progress id (hs.known id hin)
    have hafter : t.seq = BlockManager.resetSequence (s.seqs id) :=
      (BlockManager.deallocate_seq hfree).1
    refine hs.move hin hqueued rfl ?_ rfl
      (by simp [hafter, Sequence.restart, BlockManager.resetSequence])
      (hprogress.of_eq (by simp [hafter, Sequence.restart, BlockManager.resetSequence])
        (by simp [hafter, Sequence.restart, BlockManager.resetSequence])
        (by simp [hafter, Sequence.restart, BlockManager.resetSequence]) (Nat.zero_le _))
      (fun other hother => ?_)
      (fun other hother => .inl (hrunning.mem_iff.mpr (List.mem_cons_of_mem id hother)))
      (fun _ => .inl) (.inl ⟨List.mem_cons_self, rfl, ?_, ?_, ?_⟩)
    · have hlength := hrunning.length_eq
      rw [List.length_cons] at hlength
      exact (Nat.le_succ _).trans (hlength.symm.le.trans hs.room)
    · exact (List.mem_cons.mp hother).symm
    all_goals simp [hafter, Sequence.restart, BlockManager.resetSequence]
  | @reserve id t t' pair hid hdecoding hcopy happend =>
    have hin : id ∈ s.queued := by simp [hid]
    have hl := hk.ledger hin
    have hprogress := hs.progress id (hs.known id hin)
    have hruns := hs.running id hid
    have hcopied : (∃ table, t.seq = { s.seqs id with blockTable := table }) ∧
        Ledger (Others.none.add ((s.queued.erase id).map s.seqs)) t := by
      rcases hcopy with ⟨-, -, rfl⟩ | ⟨-, hcopy⟩
      · exact ⟨⟨(s.seqs id).blockTable, rfl⟩, hl⟩
      · obtain ⟨table, -, hseq⟩ := (BlockManager.copyOnWrite_table hl hcopy).seq
        obtain ⟨_, hsteps⟩ := BlockManager.copyOnWrite_steps hl hcopy
        exact ⟨⟨table, hseq⟩, hl.steps hsteps⟩
    obtain ⟨⟨table, hcopied⟩, hl'⟩ := hcopied
    obtain ⟨table', -, hafter⟩ := (BlockManager.mayAppend_table hl' happend).seq
    rw [hcopied] at hafter
    refine hs.move hin hqueued rfl hs.room rfl (by simp [hafter])
      (hprogress.of_eq (by simp [hafter]) (by simp [hafter])
        (by simpa [hafter] using hprogress.cached)
        (by simpa [hafter] using hprogress.computed)) (fun _ => .inl)
      (fun _ => .inl) (fun _ => .inl) (.inr (.inl ⟨hid, ?_, ?_⟩))
    · simpa [hafter] using hruns.status
    · simpa [hafter] using hruns.cpuTable
  | reorder hperm => exact hs.reorder rfl hperm rfl rfl rfl rfl
  | countDecode => exact hs.reorder rfl (.refl _) rfl rfl rfl rfl
  | countPrefill => exact hs.reorder rfl (.refl _) rfl rfl rfl rfl

/-- A planning step keeps queues and pages in agreement. -/
theorem SchedulerStep.kept (hk : s.Kept) (h : SchedulerStep s events s') : s'.Kept :=
  ⟨(h.settled hk).1, (h.fleet hk.settled.nodup).kept hk.fleet⟩

theorem SchedulerSteps.kept (hk : s.Kept) (h : SchedulerSteps s events s') :
    s'.Kept ∧ SameRequests s s' ∧ FleetMoves s.fleet s'.fleet := by
  induction h with
  | refl s => exact ⟨hk, .refl _, .refl _⟩
  | head hfirst _ ih =>
    obtain ⟨hlast, hrequests, hmoves⟩ := ih (hfirst.kept hk)
    exact ⟨hlast, (hfirst.settled hk).2.trans hrequests,
      (hfirst.fleet hk.settled.nodup).trans hmoves⟩

theorem SchedulerStep.requests (h : SchedulerStep s events s') : s'.requests = s.requests := by
  cases h <;> rfl

theorem SchedulerSteps.requests (h : SchedulerSteps s events s') : s'.requests = s.requests := by
  induction h with
  | refl => rfl
  | head hfirst _ ih => exact ih.trans hfirst.requests

theorem SchedulerStep.reserved_running (h : SchedulerStep s events s') {id : ℕ}
    (hid : id ∈ SchedulerEvent.reservations events) : id ∈ s.running := by
  obtain ⟨event, hevent, hreserved⟩ := List.mem_filterMap.mp hid
  cases h with
  | @reserve other _ _ _ hother =>
    rcases List.mem_append.mp hevent with hcopy | hlast
    · obtain ⟨_, -, rfl⟩ := List.mem_map.mp hcopy
      cases hreserved
    · obtain rfl := List.mem_singleton.mp hlast
      obtain rfl := Option.some.inj hreserved
      exact hother
  | admitPrefill | swapOut =>
    rcases List.mem_append.mp hevent with hcopy | hlast
    · obtain ⟨_, -, rfl⟩ := List.mem_map.mp hcopy
      cases hreserved
    · obtain rfl := List.mem_singleton.mp hlast
      cases hreserved
  | swapIn =>
    obtain ⟨_, -, rfl⟩ := List.mem_map.mp hevent
    cases hreserved
  | select | recompute =>
    obtain rfl := List.mem_singleton.mp hevent
    cases hreserved
  | _ => exact absurd hevent List.not_mem_nil

/-- Pages are reserved for queued sequences. -/
theorem SchedulerSteps.reserved_queued (h : SchedulerSteps s events s') {id : ℕ}
    (hid : id ∈ SchedulerEvent.reservations events) : id ∈ s.queued := by
  induction h with
  | refl => exact absurd hid List.not_mem_nil
  | head hfirst _ ih =>
    rw [SchedulerEvent.reservations_append, List.mem_append] at hid
    rcases hid with hid | hid
    · simp [hfirst.reserved_running hid]
    · exact hfirst.queued_perm.mem_iff.mp (ih hid)

end PrismInfer
