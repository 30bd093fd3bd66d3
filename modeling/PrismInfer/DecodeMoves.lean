import PrismInfer.SchedulerSteps

/-!
# Decode planning as a chain of moves

The decode loop keeps the candidates and the scheduled sequences in local lists. A move is
one decision of the loop on the scheduler, the candidates and the draft of the plan. Seen
on the state that counts the local lists as running, moves are scheduler steps.
-/
set_option linter.unusedSectionVars false

namespace PrismInfer
open StateExcept

variable {H : Type} [DecidableEq H] [Digests H]

namespace Scheduler

open SchedulerEvent

variable {s s' : Scheduler H} {u : Unit} {id : ℕ}

/-- The state with sequences that a local list of the planner holds. -/
def gather (s : Scheduler H) (held : List ℕ) : Scheduler H :=
  { s with running := s.running ++ held }

/-- Giving up the pages of a decoding sequence. -/
theorem preempt_ok {pairs : List BlockPair} (h : preempt id s = .ok pairs s') :
    (s.blockManager.canSwapOut (s.seqs id) = .ok true ∧ ∃ t seq,
        BlockManager.swapOut (s.view id) = .ok pairs t ∧ t.seq.transitionTo .swapped = .ok seq ∧
        s' = { (s.put id (t.setSeq seq)).log
          (pairs.map (fun pair => .transfer (.swapOut pair.1 pair.2)) ++ [.swapPreempted id]) with
          swapped := s.swapped ++ [id] }) ∨
      (s.blockManager.canSwapOut (s.seqs id) = .ok false ∧ pairs = [] ∧ ∃ t seq,
        BlockManager.deallocate (s.view id) = .ok () t ∧
        t.seq.restart.transitionTo .waiting = .ok seq ∧
        s' = { (s.put id (t.setSeq seq)).log [.recomputePreempted id] with
          waiting := id :: s.waiting }) := by
  simp only [preempt, bind_ok, get_ok, readOnly_ok] at h
  obtain ⟨_, _, ⟨rfl, rfl⟩, fits, _, ⟨hfits, rfl⟩, h⟩ := h
  split at h
  · next htrue =>
    simp only [bind_ok, onSeq_ok, recordTransfers_ok, record_ok, transitionTo_ok, modify_ok,
      pure_ok] at h
    obtain ⟨pairs, _, ⟨t, hswap, rfl⟩, _, _, rfl, _, _, rfl, _, _, ⟨seq, hseq, rfl⟩, _, _, rfl,
      rfl, rfl⟩ := h
    simp only [seqs_log, seqs_put_self] at hseq
    refine .inl ⟨htrue ▸ hfits, t, seq, hswap, hseq, ?_⟩
    simp only [put_log, view_log, view_put, put_put, log_log, List.map_map, Function.comp_def]
    rfl
  · next hfalse =>
    simp only [bind_ok, onSeq_ok, modifySeq_ok, record_ok, transitionTo_ok, modify_ok,
      pure_ok] at h
    obtain ⟨_, _, ⟨t, hfree, rfl⟩, _, _, rfl, _, _, rfl, _, _, ⟨seq, hseq, rfl⟩, _, _, rfl, rfl,
      rfl⟩ := h
    simp only [view_put, put_put, seqs_log, seqs_put_self, seq_setSeq] at hseq
    refine .inr ⟨by simpa [hfalse] using hfits, rfl, t, seq, hfree, hseq, ?_⟩
    simp only [put_log, view_log, view_put, put_put, seqs_put_self, setSeq_setSeq]
    rfl

/-- Making the tail page of a decoding sequence writable. -/
theorem reserveAppend_ok {pair : Option BlockPair} (h : reserveAppend id s = .ok pair s') :
    ∃ t t', (((s.seqs id).physicalKvLen % s.blockManager.blockSize = 1 ∧ pair = none ∧
          t = s.view id) ∨
        ((s.seqs id).physicalKvLen % s.blockManager.blockSize ≠ 1 ∧
          BlockManager.copyOnWrite (s.view id) = .ok pair t)) ∧
      BlockManager.mayAppend t = .ok () t' ∧
      s' = (s.put id t').log
        (pair.toList.map (fun pair => .transfer (.copyOnWrite pair.1 pair.2)) ++
          [.reserved id]) := by
  simp only [reserveAppend, copyTailPage, bind_ok, recordTransfers_ok, onSeq_ok, record_ok, pure_ok,
    get_ok] at h
  obtain ⟨pair, mid, ⟨_, _, ⟨rfl, rfl⟩, hcopy⟩, _, _, rfl, _, _, ⟨t', happend, rfl⟩, _, _, rfl, rfl,
    rfl⟩ := h
  split at hcopy
  · next hboundary =>
    obtain ⟨rfl, rfl⟩ := pure_ok.mp hcopy
    exact ⟨s.view id, t', .inl ⟨hboundary, rfl, rfl⟩, happend, by rw [put_log, log_log]; rfl⟩
  · next hinside =>
    obtain ⟨t, hcow, rfl⟩ := onSeq_ok.mp hcopy
    simp only [view_log, view_put] at happend
    refine ⟨t, t', .inr ⟨hinside, hcow⟩, happend, ?_⟩
    simp only [put_log, put_put, log_log, List.map_map, Function.comp_def]

/-- One decision of the decode loop. -/
inductive DecodeMove (residentOnly : Bool) :
    Scheduler H → List ℕ → DecodeDraft → Scheduler H → List ℕ → DecodeDraft → Prop
  | preempt {s s' : Scheduler H} {head victim : ℕ} {tail rest : List ℕ} {draft : DecodeDraft}
      {pairs : List BlockPair} (hfull : s.blockManager.canAppend (s.seqs head) = .ok false)
      (hresident : residentOnly = false) (hperm : (head :: tail).Perm (victim :: rest))
      (h : Scheduler.preempt victim s = .ok pairs s') :
      DecodeMove residentOnly s (head :: tail) draft s' rest
        { draft with swapOutMap := draft.swapOutMap ++ pairs }
  | defer {s : Scheduler H} {head : ℕ} {tail : List ℕ} {draft : DecodeDraft}
      (hfull : s.blockManager.canAppend (s.seqs head) = .ok false)
      (hresident : residentOnly = true) :
      DecodeMove residentOnly s (head :: tail) draft { s with running := s.running ++ [head] } tail
        draft
  | reserve {s s' : Scheduler H} {head : ℕ} {tail : List ℕ} {draft : DecodeDraft}
      {pair : Option BlockPair} (hroom : draft.scheduled.length < s.config.maxNumSeqs)
      (hfits : s.blockManager.canAppend (s.seqs head) = .ok true)
      (h : reserveAppend head s = .ok pair s') :
      DecodeMove residentOnly s (head :: tail) draft s' tail
        { draft with
          cowPairs := draft.cowPairs ++ pair.toList
          scheduled := draft.scheduled ++ [head] }

/-- A chain of decisions. -/
inductive DecodeMoves (residentOnly : Bool) :
    Scheduler H → List ℕ → DecodeDraft → Scheduler H → List ℕ → DecodeDraft → Prop
  | refl (s : Scheduler H) (candidates : List ℕ) (draft : DecodeDraft) :
      DecodeMoves residentOnly s candidates draft s candidates draft
  | head {s mid s' : Scheduler H} {candidates left rest : List ℕ} {draft first draft' : DecodeDraft}
      (hfirst : DecodeMove residentOnly s candidates draft mid left first)
      (hrest : DecodeMoves residentOnly mid left first s' rest draft') :
      DecodeMoves residentOnly s candidates draft s' rest draft'

namespace DecodeMoves

variable {residentOnly : Bool} {mid : Scheduler H} {candidates left rest : List ℕ}
  {draft first draft' : DecodeDraft}

theorem trans (h : DecodeMoves residentOnly s candidates draft mid left first)
    (h' : DecodeMoves residentOnly mid left first s' rest draft') :
    DecodeMoves residentOnly s candidates draft s' rest draft' := by
  induction h with
  | refl => exact h'
  | head hfirst _ ih => exact .head hfirst (ih h')

theorem config (h : DecodeMoves residentOnly s candidates draft s' rest draft') :
    s'.config = s.config := by
  induction h with
  | refl => rfl
  | head hfirst _ ih =>
    rw [ih]
    cases hfirst with
    | preempt _ _ _ h =>
      obtain ⟨-, t, seq, -, -, rfl⟩ | ⟨-, -, t, seq, -, -, rfl⟩ := preempt_ok h <;> rfl
    | defer => rfl
    | reserve _ _ h =>
      obtain ⟨t, t', -, -, rfl⟩ := reserveAppend_ok h
      rfl

theorem single (h : DecodeMove residentOnly s candidates draft s' rest draft') :
    DecodeMoves residentOnly s candidates draft s' rest draft' := .head h (.refl _ _ _)

end DecodeMoves

/-- How the test in front of an append ends. -/
inductive Secured (residentOnly : Bool) (id : ℕ) (s : Scheduler H) (candidates : List ℕ)
    (draft : DecodeDraft) (s' : Scheduler H) (rest : List ℕ) (swapOutMap : List BlockPair) :
    Bool → Prop
  | fits (hfits : s'.blockManager.canAppend (s'.seqs id) = .ok true)
      (hmoves : DecodeMoves residentOnly s (id :: candidates) draft s' (id :: rest)
        { draft with swapOutMap := swapOutMap }) :
      Secured residentOnly id s candidates draft s' rest swapOutMap true
  | left (hmoves : DecodeMoves residentOnly s (id :: candidates) draft s' rest
        { draft with swapOutMap := swapOutMap }) :
      Secured residentOnly id s candidates draft s' rest swapOutMap false

theorem secureRound_ok {residentOnly secured : Bool} {candidates rest : List ℕ}
    {draft : DecodeDraft} {swapOutMap : List BlockPair}
    {next : List ℕ → List BlockPair → SchedulerAction H (Bool × List ℕ × List BlockPair)}
    (hnext : ∀ {victim : ℕ} {pairs : List BlockPair} {mid : Scheduler H},
      victim ∈ candidates → residentOnly = false →
      next (candidates.erase victim) (draft.swapOutMap ++ pairs) mid =
        .ok (secured, rest, swapOutMap) s' →
      Secured residentOnly id mid (candidates.erase victim)
        { draft with swapOutMap := draft.swapOutMap ++ pairs } s' rest swapOutMap secured)
    (h : secureRound residentOnly id next candidates draft.swapOutMap s =
      .ok (secured, rest, swapOutMap) s') :
    Secured residentOnly id s candidates draft s' rest swapOutMap secured := by
  simp only [secureRound, bind_ok, get_ok, readOnly_ok] at h
  obtain ⟨_, _, ⟨rfl, rfl⟩, fits, _, ⟨hfits, rfl⟩, h⟩ := h
  split at h
  · next htrue =>
    simp only [pure_ok, Prod.mk.injEq] at h
    obtain ⟨⟨rfl, rfl, rfl⟩, rfl⟩ := h
    exact .fits (htrue ▸ hfits) (.refl _ _ _)
  · next hfalse =>
    have hfull : s.blockManager.canAppend (s.seqs id) = .ok false := by simpa [hfalse] using hfits
    split at h
    · next hresident =>
      simp only [bind_ok, modify_ok, pure_ok, Prod.mk.injEq] at h
      obtain ⟨_, _, rfl, ⟨rfl, rfl, rfl⟩, rfl⟩ := h
      exact .left (.single (.defer hfull hresident))
    · next hresident =>
      have hresident : residentOnly = false := by simpa using hresident
      cases hvictim : SchedulerPolicy.preemptionCandidate candidates with
      | some victim =>
        simp only [hvictim, bind_ok] at h
        obtain ⟨pairs, mid, hpreempt, h⟩ := h
        have hmem : victim ∈ candidates := List.mem_of_getLast? hvictim
        have hperm : (id :: candidates).Perm (victim :: id :: candidates.erase victim) :=
          ((List.perm_cons_erase hmem).cons id).trans (.swap _ _ _)
        have hmove : DecodeMove residentOnly s (id :: candidates) draft mid _ _ :=
          .preempt hfull hresident hperm hpreempt
        cases hnext hmem hresident h with
        | fits hfits' hmoves => exact .fits hfits' (.head hmove hmoves)
        | left hmoves => exact .left (.head hmove hmoves)
      | none =>
        simp only [hvictim, bind_ok, pure_ok, Prod.mk.injEq] at h
        obtain ⟨pairs, _, hpreempt, ⟨rfl, rfl, rfl⟩, rfl⟩ := h
        exact .left (.single (.preempt hfull hresident (.refl _) hpreempt))

theorem secureAppend_ok {residentOnly secured : Bool} {fuel : ℕ} {candidates rest : List ℕ}
    {draft : DecodeDraft} {swapOutMap : List BlockPair} (hfuel : candidates.length ≤ fuel)
    (h : secureAppend residentOnly id fuel candidates draft.swapOutMap s =
      .ok (secured, rest, swapOutMap) s') :
    Secured residentOnly id s candidates draft s' rest swapOutMap secured := by
  induction fuel generalizing s candidates draft with
  | zero =>
    obtain rfl := List.length_eq_zero_iff.mp (Nat.le_zero.mp hfuel)
    exact secureRound_ok (fun hmem => (nomatch hmem)) h
  | succ fuel ih =>
    refine secureRound_ok (fun hmem _ hrest => ih ?_ hrest) h
    rw [List.length_erase_of_mem hmem]
    omega

theorem decodeLoop_ok {residentOnly : Bool} {fuel : ℕ} {candidates rest : List ℕ}
    {draft draft' : DecodeDraft}
    (h : decodeLoop residentOnly fuel candidates draft s = .ok (rest, draft') s') :
    DecodeMoves residentOnly s candidates draft s' rest draft' := by
  induction fuel generalizing s candidates draft with
  | zero =>
    simp only [decodeLoop, pure_ok, Prod.mk.injEq] at h
    obtain ⟨⟨rfl, rfl⟩, rfl⟩ := h
    exact .refl _ _ _
  | succ fuel ih =>
    cases candidates with
    | nil =>
      simp only [decodeLoop, pure_ok, Prod.mk.injEq] at h
      obtain ⟨⟨rfl, rfl⟩, rfl⟩ := h
      exact .refl _ _ _
    | cons id candidates =>
      simp only [decodeLoop, bind_ok, get_ok] at h
      obtain ⟨_, _, ⟨rfl, rfl⟩, h⟩ := h
      split at h
      · simp only [pure_ok, Prod.mk.injEq] at h
        obtain ⟨⟨rfl, rfl⟩, rfl⟩ := h
        exact .refl _ _ _
      · next hroom =>
        simp only [bind_ok] at h
        obtain ⟨⟨secured, left, swapOutMap⟩, mid, hsecure, h⟩ := h
        cases secureAppend_ok le_rfl hsecure with
        | left hmoves =>
          simp only [Bool.false_eq_true, if_false] at h
          exact hmoves.trans (ih h)
        | fits hfits hmoves =>
          simp only [if_true, bind_ok] at h
          obtain ⟨pair, t, hreserve, h⟩ := h
          refine hmoves.trans (.head (.reserve ?_ hfits hreserve) (ih h))
          rw [hmoves.config]
          exact not_not.mp hroom

/-- A preempted candidate leaves the gathered state by one scheduler step. -/
theorem preempt_step {pairs : List BlockPair} {held rest : List ℕ}
    (hdecoding : s.HasStatus .decoding id) (hheld : held.Perm (id :: rest))
    (h : preempt id s = .ok pairs s') :
    ∃ events, SchedulerStep (gather s held) events (gather s' rest) ∧
      s'.running = s.running ∧ (∀ other, other ≠ id → s'.seqs other = s.seqs other) ∧
      events.filterMap swapOut? = pairs ∧ events.filterMap copyOnWrite? = [] ∧
      events.filterMap swapIn? = [] ∧ reservations events = [] := by
  have hrunning : (gather s held).running.Perm (id :: (s.running ++ rest)) :=
    (hheld.append_left s.running).trans List.perm_middle
  obtain ⟨-, t, seq, hswap, hseq, rfl⟩ | ⟨-, rfl, t, seq, hfree, hseq, rfl⟩ := preempt_ok h
  · refine ⟨_, @SchedulerStep.swapOut _ _ _ (gather s held) id _ t _ seq hrunning hdecoding
      hswap hseq, rfl, fun other hne => ?_, ?_, ?_, ?_, ?_⟩
    · exact seqs_put_of_ne hne
    · simp [List.filterMap_append, List.filterMap_map, Function.comp_def, swapOut?]
    · simp [List.filterMap_append, List.filterMap_map, Function.comp_def, copyOnWrite?]
    · simp [List.filterMap_append, List.filterMap_map, Function.comp_def, swapIn?]
    · simp [reservations, List.filterMap_map, Function.comp_def, reserved?]
  · refine ⟨_, @SchedulerStep.recompute _ _ _ (gather s held) id _ t seq hrunning hdecoding
      hfree hseq, rfl, fun other hne => ?_, rfl, rfl, rfl, rfl⟩
    exact seqs_put_of_ne hne

/-- A reservation is one scheduler step of the gathered state. -/
theorem reserveAppend_step {pair : Option BlockPair} (held : List ℕ)
    (hdecoding : s.HasStatus .decoding id) (hid : id ∈ s.running ++ held)
    (h : reserveAppend id s = .ok pair s') :
    ∃ events, SchedulerStep (gather s held) events (gather s' held) ∧
      s'.running = s.running ∧ (∀ other, other ≠ id → s'.seqs other = s.seqs other) ∧
      events.filterMap swapOut? = [] ∧ events.filterMap copyOnWrite? = pair.toList ∧
      events.filterMap swapIn? = [] ∧ reservations events = [id] := by
  obtain ⟨t, t', hcopy, happend, rfl⟩ := reserveAppend_ok h
  refine ⟨_, .reserve hid hdecoding hcopy happend, rfl, fun other hne => seqs_put_of_ne hne, ?_, ?_,
    ?_, ?_⟩
  · simp [List.filterMap_append, List.filterMap_map, Function.comp_def, swapOut?]
  · simp [List.filterMap_append, List.filterMap_map, Function.comp_def, copyOnWrite?]
  · simp [List.filterMap_append, List.filterMap_map, Function.comp_def, swapIn?]
  · simp [reservations, List.filterMap_map, Function.comp_def, reserved?]

/-- The candidates of a chain of moves, in the state where the moves start. -/
structure Candidates (s : Scheduler H) (candidates scheduled : List ℕ) : Prop where
  nodup : (s.running ++ (candidates ++ scheduled)).Nodup
  decoding : ∀ id ∈ candidates, s.HasStatus .decoding id

theorem DecodeMove.steps {residentOnly : Bool} {candidates rest : List ℕ}
    {draft draft' : DecodeDraft}
    (hc : Candidates s candidates draft.scheduled)
    (h : DecodeMove residentOnly s candidates draft s' rest draft') :
    ∃ events, SchedulerSteps (gather s (candidates ++ draft.scheduled)) events
        (gather s' (rest ++ draft'.scheduled)) ∧
      Candidates s' rest draft'.scheduled ∧
      draft'.swapOutMap = draft.swapOutMap ++ events.filterMap swapOut? ∧
      draft'.cowPairs = draft.cowPairs ++ events.filterMap copyOnWrite? ∧
      draft'.swapInMap = draft.swapInMap ∧ events.filterMap swapIn? = [] ∧
      draft'.scheduled = draft.scheduled ++ reservations events := by
  cases h with
  | @preempt _ head victim tail rest _ pairs hfull hresident hperm h =>
    have hmem : victim ∈ head :: tail := hperm.mem_iff.mpr List.mem_cons_self
    obtain ⟨events, hstep, hrunning, hother, hout, hcow, hin, hres⟩ :=
      preempt_step (hc.decoding victim hmem) (hperm.append_right draft.scheduled) h
    have hnodup : (victim :: (s.running ++ (rest ++ draft.scheduled))).Nodup :=
      (((hperm.append_right draft.scheduled).append_left s.running).trans
        List.perm_middle).nodup_iff.mp hc.nodup
    refine ⟨events, .single hstep, ⟨?_, fun id hid => ?_⟩, by rw [hout], by simp [hcow], rfl, hin,
      by simp [hres]⟩
    · rw [hrunning]
      exact hnodup.of_cons
    · have hne : id ≠ victim := by
        rintro rfl
        exact hnodup.notMem (List.mem_append_right _ (List.mem_append_left _ hid))
      rw [HasStatus, hother id hne]
      exact hc.decoding id (hperm.mem_iff.mpr (List.mem_cons_of_mem victim hid))
  | @defer head tail _ hfull hresident =>
    have hperm : (s.running ++ [head] ++ (rest ++ draft.scheduled)).Perm
        (s.running ++ (head :: rest ++ draft.scheduled)) := by simp
    refine ⟨[], .single (.reorder hperm), ⟨hperm.nodup_iff.mpr hc.nodup, fun id hid => ?_⟩, by simp,
      by simp, rfl, rfl, by simp [reservations]⟩
    exact hc.decoding id (List.mem_cons_of_mem head hid)
  | @reserve _ head tail _ pair hroom hfits h =>
    have hhead : s.HasStatus .decoding head := hc.decoding head List.mem_cons_self
    obtain ⟨events, hstep, hrunning, hother, hout, hcow, hin, hres⟩ :=
      reserveAppend_step (head :: rest ++ draft.scheduled) hhead (by simp) h
    have hperm : (s.running ++ (rest ++ (draft.scheduled ++ [head]))).Perm
        (s.running ++ (head :: rest ++ draft.scheduled)) := by
      refine List.Perm.append_left _ ?_
      rw [← List.append_assoc]
      exact List.perm_append_singleton head (rest ++ draft.scheduled)
    refine ⟨events ++ [], (SchedulerSteps.single hstep).trans (.single (.reorder ?_)),
      ⟨?_, fun id hid => ?_⟩, by simp [hout], by simp [hcow], rfl, by simp [hin], by simp [hres]⟩
    · simp only [gather, hrunning]
      exact hperm
    · rw [hrunning]
      exact hperm.nodup_iff.mpr hc.nodup
    · have hne : id ≠ head := by
        rintro rfl
        have := (List.nodup_append.mp hc.nodup).2.1
        simp [hid] at this
      rw [HasStatus, hother id hne]
      exact hc.decoding id (List.mem_cons_of_mem head hid)

theorem DecodeMoves.steps {residentOnly : Bool} {candidates rest : List ℕ}
    {draft draft' : DecodeDraft}
    (hc : Candidates s candidates draft.scheduled)
    (h : DecodeMoves residentOnly s candidates draft s' rest draft') :
    ∃ events, SchedulerSteps (gather s (candidates ++ draft.scheduled)) events
        (gather s' (rest ++ draft'.scheduled)) ∧
      Candidates s' rest draft'.scheduled ∧
      draft'.swapOutMap = draft.swapOutMap ++ events.filterMap swapOut? ∧
      draft'.cowPairs = draft.cowPairs ++ events.filterMap copyOnWrite? ∧
      draft'.swapInMap = draft.swapInMap ∧ events.filterMap swapIn? = [] ∧
      draft'.scheduled = draft.scheduled ++ reservations events := by
  induction h with
  | refl s candidates draft =>
    exact ⟨[], .refl _, hc, by simp, by simp, rfl, rfl, by simp [reservations]⟩
  | head hfirst _ ih =>
    obtain ⟨events, hsteps, hc', hout, hcow, hin, hnone, hres⟩ := hfirst.steps hc
    obtain ⟨events', hsteps', hc'', hout', hcow', hin', hnone', hres'⟩ := ih hc'
    refine ⟨events ++ events', hsteps.trans hsteps', hc'', ?_, ?_, hin'.trans hin, ?_, ?_⟩
    · rw [hout', hout, List.filterMap_append, List.append_assoc]
    · rw [hcow', hcow, List.filterMap_append, List.append_assoc]
    · rw [List.filterMap_append, hnone, hnone']
      rfl
    · rw [hres', hres, reservations_append, List.append_assoc]

theorem swapInLoop_ok {fuel : ℕ} {pairs pairs' : List BlockPair}
    (h : swapInLoop fuel pairs s = .ok pairs' s') :
    ∃ events, SchedulerSteps s events s' ∧ pairs' = pairs ++ events.filterMap swapIn? ∧
      events.filterMap swapOut? = [] ∧ events.filterMap copyOnWrite? = [] ∧
      reservations events = [] := by
  induction fuel generalizing s pairs with
  | zero =>
    obtain ⟨rfl, rfl⟩ := pure_ok.mp h
    exact ⟨[], .refl s, by simp, rfl, rfl, rfl⟩
  | succ fuel ih =>
    simp only [swapInLoop, bind_ok, get_ok] at h
    obtain ⟨_, _, ⟨rfl, rfl⟩, h⟩ := h
    cases hswapped : s.swapped with
    | nil =>
      simp only [hswapped, pure_ok] at h
      obtain ⟨rfl, rfl⟩ := h
      exact ⟨[], .refl s, by simp, rfl, rfl, rfl⟩
    | cons id rest =>
      simp only [hswapped] at h
      split at h
      · obtain ⟨rfl, rfl⟩ := pure_ok.mp h
        exact ⟨[], .refl s, by simp, rfl, rfl, rfl⟩
      · next hroom =>
        simp only [bind_ok, readOnly_ok] at h
        obtain ⟨fits, _, ⟨-, rfl⟩, h⟩ := h
        split at h
        · simp only [bind_ok, modify_ok, onSeq_ok, recordTransfers_ok, transitionTo_ok] at h
          obtain ⟨_, _, rfl, new, _, ⟨t, hswap, rfl⟩, _, _, rfl, _, _, ⟨seq, hseq, rfl⟩, _, _, rfl,
            h⟩ := h
          have hstep := @SchedulerStep.swapIn _ _ _ s id rest t new seq hswapped (not_not.mp hroom)
            hswap (by simpa using hseq)
          simp only [put_log, view_log, view_put, put_put, List.map_map, Function.comp_def] at h
          obtain ⟨events, hsteps, hpairs, hout, hcow, hres⟩ := ih h
          refine ⟨_, .head hstep hsteps, ?_, ?_, ?_, ?_⟩
          · rw [hpairs]
            simp [List.filterMap_append, List.filterMap_map, Function.comp_def, swapIn?]
          · simp [List.filterMap_append, List.filterMap_map, Function.comp_def, swapOut?, hout]
          · simp [List.filterMap_append, List.filterMap_map, Function.comp_def, copyOnWrite?, hcow]
          · rw [reservations_append, hres]
            simp [reservations, List.filterMap_map, Function.comp_def, reserved?]
        · obtain ⟨rfl, rfl⟩ := pure_ok.mp h
          exact ⟨[], .refl s, by simp, rfl, rfl, rfl⟩

/-- The state the decode loop starts from: the candidates are out of the queue. -/
def withoutCandidates (s : Scheduler H) (candidates : List ℕ) : Scheduler H :=
  { s with running := candidates.foldl List.erase s.running }

/-- The decode candidates, in queue order. -/
def decoding (s : Scheduler H) : List ℕ := s.running.filter fun id => s.HasStatus .decoding id

/-- How the general path of decode planning comes to its plan. -/
structure DecodeRun (residentOnly : Bool) (s s' : Scheduler H) (draft : DecodeDraft) : Prop where
  run : ∃ events mid last rest, SchedulerSteps s events mid ∧
    events.filterMap swapOut? = [] ∧ events.filterMap copyOnWrite? = [] ∧
    reservations events = [] ∧ DecodeMoves residentOnly (mid.withoutCandidates mid.decoding)
    mid.decoding
      ⟨[], events.filterMap swapIn?, [], []⟩ last rest draft ∧
    s' = { last with running := draft.scheduled ++ (last.running ++ rest) }

theorem generalDecodePlan_ok {residentOnly : Bool} {plan : Option BatchPlan}
    (h : generalDecodePlan residentOnly s = .ok plan s') :
    ∃ draft, DecodeRun residentOnly s s' draft ∧
      ((draft.scheduled = [] ∧ plan = none ∧ residentOnly = true) ∨
        draft.scheduled ≠ [] ∧ ∃ p, plan = some p ∧
          BatchPlan.create .decode (draft.scheduled.map s'.seqs) (draft.scheduled.map fun _ => 1)
            { KVTransferPlan.empty with
              copyOnWrite := draft.cowPairs
              swapIn := draft.swapInMap
              swapOut := draft.swapOutMap } = .ok p) := by
  simp only [generalDecodePlan, bind_ok, get_ok, modify_ok] at h
  obtain ⟨_, _, ⟨rfl, rfl⟩, swapInMap, mid, hswap, _, _, ⟨rfl, rfl⟩, _, _, rfl, ⟨rest, draft⟩, last,
    hloop, _, _, rfl, h⟩ := h
  obtain ⟨events, hsteps, hin, hout, hcow, hres⟩ := swapInLoop_ok hswap
  rw [List.nil_append] at hin
  have hmoves := hin ▸ decodeLoop_ok hloop
  refine ⟨draft, ?_⟩
  split at h
  · next hempty =>
    split at h
    · next hresident =>
      obtain ⟨rfl, rfl⟩ := pure_ok.mp h
      exact ⟨⟨events, mid, last, rest, hsteps, hout, hcow, hres, hmoves, by rw [hempty]; rfl⟩,
        .inl ⟨hempty, rfl, hresident⟩⟩
    · simp at h
  · next hne =>
    simp only [bind_ok, modify_ok, get_ok, readOnly_ok, pure_ok] at h
    obtain ⟨_, _, rfl, _, _, ⟨rfl, rfl⟩, p, _, ⟨hplan, rfl⟩, rfl, rfl⟩ := h
    exact ⟨⟨events, mid, last, rest, hsteps, hout, hcow, hres, hmoves, rfl⟩,
      .inr ⟨hne, p, rfl, hplan⟩⟩

/-- The candidates come out of the queue whole. -/
theorem withoutCandidates_perm (s : Scheduler H) :
    ((s.withoutCandidates s.decoding).running ++ s.decoding).Perm s.running := by
  have hsub : s.decoding.Subperm s.running := (List.filter_sublist).subperm
  have hperm := List.subperm_append_diff_self_of_count_le
    fun a _ => List.Subperm.count_le hsub a
  rw [List.diff_eq_foldl] at hperm
  exact List.perm_append_comm.trans hperm

theorem DecodeRun.steps {residentOnly : Bool} {draft : DecodeDraft} (hn : s.queued.Nodup)
    (h : DecodeRun residentOnly s s' draft) :
    ∃ events, SchedulerSteps s events s' ∧ draft.swapInMap = events.filterMap swapIn? ∧
      draft.swapOutMap = events.filterMap swapOut? ∧
      draft.cowPairs = events.filterMap copyOnWrite? ∧
      draft.scheduled = reservations events ∧ draft.scheduled.Nodup := by
  obtain ⟨events, mid, last, rest, hsteps, hout, hcow, hres, hmoves, rfl⟩ := h.run
  have hperm := withoutCandidates_perm mid
  have hcandidates : Candidates (mid.withoutCandidates mid.decoding) mid.decoding [] := by
    refine ⟨?_, fun id hid => ?_⟩
    · rw [List.append_nil, hperm.nodup_iff]
      have hmid := hsteps.queued_perm.nodup_iff.mpr hn
      exact (List.nodup_append.mp (List.nodup_append.mp hmid).1).2.1
    · exact of_decide_eq_true (List.mem_filter.mp hid).2
  obtain ⟨events', hmoved, hleft, hout', hcow', hin', hnone, hres'⟩ := hmoves.steps hcandidates
  have hstart : SchedulerSteps mid []
      (gather (mid.withoutCandidates mid.decoding) (mid.decoding ++ [])) := by
    refine .single (.reorder ?_)
    rw [List.append_nil]
    exact hperm
  have hend : SchedulerSteps (gather last (rest ++ draft.scheduled)) []
      { last with running := draft.scheduled ++ (last.running ++ rest) } := by
    refine .single (.reorder ?_)
    simp only [gather]
    rw [← List.append_assoc last.running]
    exact List.perm_append_comm
  refine ⟨events ++ events', (hsteps.trans_quiet hstart).trans (hmoved.trans_quiet hend),
    ?_, ?_, ?_, ?_, ?_⟩
  · rw [hin', List.filterMap_append, hnone, List.append_nil]
  · rw [hout', List.filterMap_append, hout]
  · rw [hcow', List.filterMap_append, hcow]
  · rw [hres', reservations_append, hres]
  · exact (List.nodup_append.mp (List.nodup_append.mp hleft.nodup).2.1).2.1

theorem singleResident_some (h : s.singleResident = .ok (some id)) :
    s.swapped = [] ∧ s.running = [id] ∧ s.HasStatus .decoding id ∧
      s.blockManager.canAppend (s.seqs id) = .ok true := by
  unfold singleResident at h
  split at h
  · next other hswapped hrunning =>
    split at h
    · next hdecoding =>
      simp only [except_bind_ok, except_pure_ok] at h
      obtain ⟨fits, hfits, h⟩ := h
      split at h
      · next htrue =>
        obtain rfl := Option.some.inj h
        exact ⟨hswapped, hrunning, hdecoding, htrue ▸ hfits⟩
      · cases h
    · cases h
  · cases h

/-- The two ways a decode plan comes about. -/
inductive DecodePlanned (residentOnly : Bool) (s : Scheduler H) :
    Option BatchPlan → Scheduler H → Prop
  | single {id : ℕ} {s' : Scheduler H} {pair : Option BlockPair} {p : BatchPlan}
      (hswapped : s.swapped = []) (hrunning : s.running = [id])
      (hdecoding : s.HasStatus .decoding id)
      (hfits : s.blockManager.canAppend (s.seqs id) = .ok true)
      (h : reserveAppend id s = .ok pair s')
      (hplan : BatchPlan.create .decode [s'.seqs id] [1]
        { KVTransferPlan.empty with copyOnWrite := pair.toList } = .ok p) :
      DecodePlanned residentOnly s (some p) s'
  | nothing {s' : Scheduler H} {draft : DecodeDraft} (h : DecodeRun residentOnly s s' draft)
      (hempty : draft.scheduled = []) (hresident : residentOnly = true) :
      DecodePlanned residentOnly s none s'
  | batch {s' : Scheduler H} {draft : DecodeDraft} {p : BatchPlan}
      (h : DecodeRun residentOnly s s' draft) (hne : draft.scheduled ≠ [])
      (hplan : BatchPlan.create .decode (draft.scheduled.map s'.seqs)
        (draft.scheduled.map fun _ => 1)
        { KVTransferPlan.empty with
          copyOnWrite := draft.cowPairs
          swapIn := draft.swapInMap
          swapOut := draft.swapOutMap } = .ok p) :
      DecodePlanned residentOnly s (some p) s'

theorem decodePlan_ok {residentOnly : Bool} {plan : Option BatchPlan}
    (h : decodePlan residentOnly s = .ok plan s') : DecodePlanned residentOnly s plan s' := by
  simp only [decodePlan, bind_ok, get_ok, readOnly_ok] at h
  obtain ⟨_, _, ⟨rfl, rfl⟩, found, _, ⟨hfound, rfl⟩, h⟩ := h
  cases found with
  | some id =>
    obtain ⟨hswapped, hrunning, hdecoding, hfits⟩ := singleResident_some hfound
    simp only [bind_ok, get_ok, readOnly_ok, pure_ok] at h
    obtain ⟨pair, _, hreserve, _, _, ⟨rfl, rfl⟩, p, _, ⟨hplan, rfl⟩, rfl, rfl⟩ := h
    exact .single hswapped hrunning hdecoding hfits hreserve hplan
  | none =>
    obtain ⟨draft, hrun, ⟨hempty, rfl, hresident⟩ | ⟨hne, p, rfl, hplan⟩⟩ := generalDecodePlan_ok h
    · exact .nothing hrun hempty hresident
    · exact .batch hrun hne hplan

theorem gather_nil (s : Scheduler H) : gather s [] = s := by
  simp [gather]

/-- A constructed plan names its members by their own ids. -/
theorem create_ok {phase : BatchPhase} {sequences : List (Sequence H)} {counts : List ℕ}
    {transfers : KVTransferPlan} {p : BatchPlan}
    (h : BatchPlan.create phase sequences counts transfers = .ok p) :
    p.phase = phase ∧ p.sequenceIds = sequences.map (·.request.seqId) ∧ sequences ≠ [] ∧
      p.kvTransfers = transfers ∧ (sequences.map (·.request.seqId)).Nodup := by
  simp only [BatchPlan.create, except_bind_ok, ensure_ok] at h
  obtain ⟨_, -, _, hne, _, hnodup, _, -, _, -, _, -, h⟩ := h
  cases phase <;> simp only [except_bind_ok, except_pure_ok] at h
  all_goals
    obtain ⟨_, -, rfl⟩ := h
    exact ⟨rfl, rfl, hne, rfl, hnodup⟩

/-- The reservations of a decode search: none where it finds no plan, else the members of
its plan. -/
def PlanReserves (s' : Scheduler H) (events : List SchedulerEvent) : Option BatchPlan → Prop
  | none => reservations events = []
  | some p => p.phase = .decode ∧ (reservations events).Nodup ∧
    p.sequenceIds = (reservations events).map fun id => (s'.seqs id).request.seqId

theorem DecodePlanned.steps {residentOnly : Bool} {plan : Option BatchPlan} (hn : s.queued.Nodup)
    (h : DecodePlanned residentOnly s plan s') :
    ∃ events, SchedulerSteps s events s' ∧ PlanReserves s' events plan := by
  cases h with
  | @single id _ _ _ _ hrunning hdecoding _ h hplan =>
    obtain ⟨events, hstep, -, -, -, -, -, hres⟩ := reserveAppend_step [] hdecoding
      (by simp [hrunning]) h
    rw [gather_nil, gather_nil] at hstep
    obtain ⟨hphase, hids, -⟩ := create_ok hplan
    exact ⟨events, .single hstep, hphase, by simp [hres], by simp [hids, hres]⟩
  | nothing h hempty =>
    obtain ⟨events, hsteps, -, -, -, hres, -⟩ := h.steps hn
    exact ⟨events, hsteps, hres.symm.trans hempty⟩
  | batch h _ hplan =>
    obtain ⟨events, hsteps, -, -, -, hres, hnodup⟩ := h.steps hn
    obtain ⟨hphase, hids, -⟩ := create_ok hplan
    refine ⟨events, hsteps, hphase, hres ▸ hnodup, ?_⟩
    rw [hids, List.map_map, hres]
    rfl

end Scheduler

end PrismInfer
