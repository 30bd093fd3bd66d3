import PrismInfer.FleetRuns

/-!
# Runs of a fleet, up to the order of its sequences

The scheduler keeps its sequences in queues and moves them between these. For the pages only
the collection of the sequences counts. One method on one sequence, and what the rest of the
engine does to it, is a run of the fleet whatever place the sequence has.
-/
set_option linter.unusedSectionVars false

namespace PrismInfer
open StateExcept Relation

variable {H : Type} [DecidableEq H] [Digests H]

/-! ## Order does not matter -/

theorem FleetStep.perm {fleet fleet' : Fleet H} {seqs : List (Sequence H)}
    (h : FleetStep fleet fleet') (hperm : seqs.Perm fleet.2) :
    ∃ seqs', FleetStep (fleet.1, seqs) (fleet'.1, seqs') ∧ seqs'.Perm fleet'.2 := by
  cases h with
  | @join manager left right seq htable hcpu =>
    refine ⟨seq :: seqs, @FleetStep.join _ _ _ manager [] seqs seq htable hcpu, ?_⟩
    exact (hperm.cons seq).trans List.perm_middle.symm
  | @call manager manager' left right seq seq' call hwithin hcall =>
    obtain ⟨front, back, rfl⟩ := List.append_of_mem (hperm.mem_iff.mpr
      (List.mem_append_right left List.mem_cons_self))
    have hrest : (front ++ back).Perm (left ++ right) :=
      ((List.perm_middle.symm.trans hperm).trans List.perm_middle).cons_inv
    refine ⟨front ++ seq' :: back, .call call hwithin hcall, ?_⟩
    exact (List.perm_middle.trans (hrest.cons seq')).trans List.perm_middle.symm
  | @advance manager left right seq seq' htable hcpu hsize =>
    obtain ⟨front, back, rfl⟩ := List.append_of_mem (hperm.mem_iff.mpr
      (List.mem_append_right left List.mem_cons_self))
    have hrest : (front ++ back).Perm (left ++ right) :=
      ((List.perm_middle.symm.trans hperm).trans List.perm_middle).cons_inv
    refine ⟨front ++ seq' :: back, .advance htable hcpu hsize, ?_⟩
    exact (List.perm_middle.trans (hrest.cons seq')).trans List.perm_middle.symm
  | @leave manager left right seq htable hcpu =>
    obtain ⟨front, back, rfl⟩ := List.append_of_mem (hperm.mem_iff.mpr
      (List.mem_append_right left List.mem_cons_self))
    refine ⟨front ++ back, .leave htable hcpu, ?_⟩
    exact ((List.perm_middle.symm.trans hperm).trans List.perm_middle).cons_inv

/-- A run from one fleet to the sequences of another, in some order. -/
def FleetMoves (fleet fleet' : Fleet H) : Prop :=
  ∃ seqs, FleetRun fleet (fleet'.1, seqs) ∧ seqs.Perm fleet'.2

namespace FleetMoves

variable {fleet mid fleet' : Fleet H}

theorem refl (fleet : Fleet H) : FleetMoves fleet fleet := ⟨fleet.2, .refl, .refl _⟩

theorem of_perm {manager : BlockManager H} {seqs seqs' : List (Sequence H)}
    (h : seqs.Perm seqs') : FleetMoves (manager, seqs) (manager, seqs') :=
  ⟨seqs, .refl, h⟩

theorem trans (h : FleetMoves fleet mid) (h' : FleetMoves mid fleet') :
    FleetMoves fleet fleet' := by
  obtain ⟨seqs, hrun, hperm⟩ := h
  obtain ⟨seqs', hrun', hperm'⟩ := h'
  suffices ∀ last, FleetRun mid last → ∃ others, FleetRun fleet (last.1, others) ∧
      others.Perm last.2 by
    obtain ⟨others, hall, hlast⟩ := this _ hrun'
    exact ⟨others, hall, hlast.trans hperm'⟩
  intro last hlast
  induction hlast with
  | refl => exact ⟨seqs, hrun, hperm⟩
  | tail _ hstep ih =>
    obtain ⟨others, hall, hsame⟩ := ih
    obtain ⟨others', hstep', hsame'⟩ := hstep.perm hsame
    exact ⟨others', hall.tail hstep', hsame'⟩

theorem kept (h : FleetMoves fleet fleet') (hk : FleetKept fleet) : FleetKept fleet' := by
  obtain ⟨seqs, hrun, hperm⟩ := h
  exact (hk.run hrun).perm hperm.symm

theorem reached (h : FleetMoves fleet fleet') (hr : Reached fleet) :
    ∃ seqs, Reached (fleet'.1, seqs) ∧ seqs.Perm fleet'.2 := by
  obtain ⟨numBlocks, blockSize, numCpuBlocks, caching, blockLevel, hfirst⟩ := hr
  obtain ⟨seqs, hrun, hperm⟩ := h
  exact ⟨seqs, ⟨numBlocks, blockSize, numCpuBlocks, caching, blockLevel, hfirst.trans hrun⟩, hperm⟩

end FleetMoves

/-! ## One member -/

/-- A method on one sequence, or what the rest of the engine does to it. -/
inductive MemberStep : ManagerState H → ManagerState H → Prop
  | call {t t' : ManagerState H} (call : ManagerCall) (hwithin : call.Within t.seq)
      (hcall : call.run t = .ok () t') : MemberStep t t'
  | advance {t : ManagerState H} {seq : Sequence H} (htable : seq.blockTable = t.seq.blockTable)
      (hcpu : seq.cpuBlockTable = t.seq.cpuBlockTable) (hsize : seq.blockSize = t.seq.blockSize) :
      MemberStep t (t.setSeq seq)

/-- Steps of one member. -/
abbrev MemberRun : ManagerState H → ManagerState H → Prop := ReflTransGen MemberStep

namespace MemberRun

variable {t t' : ManagerState H}

theorem call (call : ManagerCall) (hwithin : call.Within t.seq) (hcall : call.run t = .ok () t') :
    MemberRun t t' :=
  .single (.call call hwithin hcall)

theorem advance {seq : Sequence H} (htable : seq.blockTable = t.seq.blockTable)
    (hcpu : seq.cpuBlockTable = t.seq.cpuBlockTable) (hsize : seq.blockSize = t.seq.blockSize) :
    MemberRun t (t.setSeq seq) :=
  .single (.advance htable hcpu hsize)

/-- What one member does, the fleet does. -/
theorem beside (others : List (Sequence H)) (h : MemberRun t t') :
    FleetRun (t.manager, t.seq :: others) (t'.manager, t'.seq :: others) := by
  induction h with
  | refl => exact .refl
  | @tail mid last _ hstep ih =>
    refine ih.tail ?_
    cases hstep with
    | call call hwithin hcall =>
      exact @FleetStep.call _ _ _ mid.manager last.manager [] others mid.seq last.seq call hwithin
        hcall
    | @advance seq htable hcpu hsize =>
      exact @FleetStep.advance _ _ _ mid.manager [] others mid.seq seq htable hcpu hsize

end MemberRun

end PrismInfer
