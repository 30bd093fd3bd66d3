import PrismInfer.PausedPrefill

/-!
# The tokens of a request

Over a whole run every request gets the tokens that were sampled for it, once each and in
order, through preemption, swapping, recomputation and interrupted prefills. It is answered once,
with exactly these tokens, at the first one that ends its answer.
-/
set_option linter.unusedSectionVars false

namespace PrismInfer
open StateExcept EveryRun Relation Scheduler

variable {H : Type} [DecidableEq H] [Digests H]

/-! ## What planning and execution keep of the tokens -/

/-- The requests, their tokens and whether they are finished stay; nobody enters a queue. -/
structure StreamKept (s s' : Scheduler H) : Prop where
  config : s'.config = s.config
  requests : s'.requests = s.requests
  queued : ∀ id ∈ s'.queued, id ∈ s.queued
  request : ∀ id ∈ s.requests, (s'.seqs id).request = (s.seqs id).request
  tokens : ∀ id ∈ s.requests, (s'.seqs id).tokenIds = (s.seqs id).tokenIds
  finished : ∀ id ∈ s.requests, (s'.seqs id).status = .finished ↔ (s.seqs id).status = .finished

section Kept

variable {s mid s' : Scheduler H} {id : ℕ} {plan : BatchPlan} {events : List SchedulerEvent}

theorem StreamKept.refl (s : Scheduler H) : StreamKept s s :=
  ⟨rfl, rfl, fun _ hid => hid, fun _ _ => rfl, fun _ _ => rfl, fun _ _ => Iff.rfl⟩

theorem StreamKept.trans (h : StreamKept s mid) (h' : StreamKept mid s') : StreamKept s s' := by
  have hknown : ∀ id ∈ s.requests, id ∈ mid.requests := fun id hid => h.requests ▸ hid
  constructor
  · exact h'.config.trans h.config
  · exact h'.requests.trans h.requests
  · exact fun id hid => h.queued id (h'.queued id hid)
  · exact fun id hid => (h'.request id (hknown id hid)).trans (h.request id hid)
  · exact fun id hid => (h'.tokens id (hknown id hid)).trans (h.tokens id hid)
  · exact fun id hid => (h'.finished id (hknown id hid)).trans (h.finished id hid)

/-- A member whose tokens stay. -/
theorem StreamKept.put {t : ManagerState H} (hrequest : t.seq.request = (s.seqs id).request)
    (htokens : t.seq.tokenIds = (s.seqs id).tokenIds)
    (hstatus : t.seq.status = (s.seqs id).status) :
    StreamKept s (s.put id t) := by
  have hcases : ∀ other, other = id ∧ (s.put id t).seqs other = t.seq ∨
      (s.put id t).seqs other = s.seqs other := by
    intro other
    by_cases heq : other = id
    · exact .inl ⟨heq, by rw [heq, seqs_put_self]⟩
    · exact .inr (seqs_put_of_ne heq)
  refine ⟨rfl, rfl, fun _ hid => hid, fun other _ => ?_, fun other _ => ?_, fun other _ => ?_⟩
  · rcases hcases other with ⟨rfl, hseq⟩ | hseq
    · rw [hseq, hrequest]
    · rw [hseq]
  · rcases hcases other with ⟨rfl, hseq⟩ | hseq
    · rw [hseq, htokens]
    · rw [hseq]
  · rcases hcases other with ⟨rfl, hseq⟩ | hseq
    · rw [hseq, hstatus]
    · rw [hseq]

theorem tokens_update {seq : Sequence H} (hseqs : s'.seqs = Function.update s.seqs id seq)
    (htokens : seq.tokenIds = (s.seqs id).tokenIds) (other : ℕ) :
    (s'.seqs other).tokenIds = (s.seqs other).tokenIds := by
  rw [hseqs]
  by_cases heq : other = id
  · rw [heq, Function.update_self, htokens]
  · rw [Function.update_of_ne heq]

/-- A planning step moves pages and states, never tokens. -/
theorem SchedulerStep.tokens (hk : s.Kept) (h : SchedulerStep s events s') :
    ∀ id, (s'.seqs id).tokenIds = (s.seqs id).tokenIds := by
  cases h with
  | @probe id n t hid hprobe =>
    obtain ⟨enabled, candidate, rfl⟩ := BlockManager.cachedPrefixTokens_seq hprobe
    exact tokens_update rfl rfl
  | select => exact fun _ => rfl
  | @admitPrefill id t copies seq hid hroom halloc hseq =>
    obtain ⟨rfl, -⟩ := Sequence.transitionTo_ok hseq
    have hl := hk.ledger (show id ∈ s.queued by simp [hid])
    have htokens := (BlockManager.Admitted.frame (BlockManager.allocate_admitted hl halloc).1).2.1
    exact tokens_update rfl htokens
  | @swapIn id rest t pairs seq hid hroom hswap hseq =>
    obtain ⟨rfl, -⟩ := Sequence.transitionTo_ok hseq
    have hl := hk.ledger (show id ∈ s.queued by simp [hid])
    obtain ⟨-, ⟨table, -, hafter⟩, -⟩ := BlockManager.swapIn_seq hl hswap
    exact tokens_update rfl (by simp [hafter, view])
  | @swapOut id running t pairs seq hrunning hdecoding hswap hseq =>
    obtain ⟨rfl, -⟩ := Sequence.transitionTo_ok hseq
    have hid : id ∈ s.running := hrunning.mem_iff.mpr List.mem_cons_self
    have hl := hk.ledger (show id ∈ s.queued by simp [hid])
    obtain ⟨cpuTable, hashes, tokens, mms, -, hafter, -⟩ := BlockManager.swapOut_seq hl hswap
    exact tokens_update rfl (by simp [hafter, view])
  | @recompute id running t seq hrunning hdecoding hfree hseq =>
    obtain ⟨rfl, -⟩ := Sequence.transitionTo_ok hseq
    have hafter : t.seq = BlockManager.resetSequence (s.seqs id) :=
      (BlockManager.deallocate_seq hfree).1
    exact tokens_update rfl (by simp [hafter, Sequence.restart, BlockManager.resetSequence])
  | @reserve id t t' pair hid hdecoding hcopy happend =>
    have hl := hk.ledger (show id ∈ s.queued by simp [hid])
    have hcopied : t.seq.tokenIds = (s.seqs id).tokenIds ∧
        Ledger (Others.none.add ((s.queued.erase id).map s.seqs)) t := by
      rcases hcopy with ⟨-, -, rfl⟩ | ⟨-, hcopy⟩
      · exact ⟨rfl, hl⟩
      · obtain ⟨table, -, hseq⟩ := (BlockManager.copyOnWrite_table hl hcopy).seq
        obtain ⟨_, hsteps⟩ := BlockManager.copyOnWrite_steps hl hcopy
        exact ⟨by rw [hseq]; rfl, hl.steps hsteps⟩
    obtain ⟨table, -, hafter⟩ := (BlockManager.mayAppend_table hcopied.2 happend).seq
    exact tokens_update rfl (by rw [hafter]; exact hcopied.1)
  | reorder => exact fun _ => rfl
  | countDecode => exact fun _ => rfl
  | countPrefill => exact fun _ => rfl

/-- A planning step leaves a request that is in no queue. -/
theorem SchedulerStep.outsider (h : SchedulerStep s events s') (hid : id ∉ s.queued) :
    s'.seqs id = s.seqs id := by
  have hapart : ∀ {other : ℕ}, other ∈ s.queued → id ≠ other := by
    rintro other hother rfl
    exact hid hother
  cases h with
  | @probe other n t hother => exact Function.update_of_ne (hapart (by simp [hother])) _ _
  | select => rfl
  | @admitPrefill other t copies seq hother =>
    exact Function.update_of_ne (hapart (by simp [hother])) _ _
  | @swapIn other rest t pairs seq hother =>
    exact Function.update_of_ne (hapart (by simp [hother])) _ _
  | @swapOut other running t pairs seq hrunning =>
    have hother : other ∈ s.running := hrunning.mem_iff.mpr List.mem_cons_self
    exact Function.update_of_ne (hapart (by simp [hother])) _ _
  | @recompute other running t seq hrunning =>
    have hother : other ∈ s.running := hrunning.mem_iff.mpr List.mem_cons_self
    exact Function.update_of_ne (hapart (by simp [hother])) _ _
  | @reserve other t t' pair hother => exact Function.update_of_ne (hapart (by simp [hother])) _ _
  | reorder => rfl
  | countDecode => rfl
  | countPrefill => rfl

/-- Queued requests are not finished. -/
theorem Scheduler.Settled.unfinished (hs : s.Settled) (hid : id ∈ s.queued) :
    (s.seqs id).status ≠ .finished := by
  intro hfinished
  rcases mem_queued.mp hid with hwaiting | hrunning | hswapped
  · rw [(hs.waiting id hwaiting).status] at hfinished
    cases hfinished
  · rcases (hs.running id hrunning).status with hstatus | hstatus
    · rw [hstatus] at hfinished
      cases hfinished
    · rw [hstatus] at hfinished
      cases hfinished
  · rw [(hs.swapped id hswapped).status] at hfinished
    cases hfinished

theorem SchedulerStep.stream (hk : s.Kept) (h : SchedulerStep s events s') : StreamKept s s' := by
  obtain ⟨hs', hsame⟩ := h.settled hk
  have hqueued : ∀ id, id ∈ s'.queued ↔ id ∈ s.queued := fun id => h.queued_perm.mem_iff
  refine ⟨h.config, h.requests, fun id hid => (hqueued id).mp hid, fun id hid => (hsame id hid).2,
    fun id _ => h.tokens hk id, fun id _ => ?_⟩
  by_cases hin : id ∈ s.queued
  · have hbefore := hk.settled.unfinished hin
    have hafter := hs'.unfinished ((hqueued id).mpr hin)
    exact ⟨fun hfinished => absurd hfinished hafter, fun hfinished => absurd hfinished hbefore⟩
  · rw [h.outsider hin]

theorem SchedulerSteps.stream (hk : s.Kept) (h : SchedulerSteps s events s') : StreamKept s s' := by
  induction h with
  | refl s => exact .refl s
  | head hfirst _ ih => exact (hfirst.stream hk).trans (ih (hfirst.kept hk))

theorem ExecutionStep.stream {plans : List BatchPlan} (hk : Engine.Kept (s, plans))
    (hplan : plan ∈ plans) (h : ExecutionStep plan s s') : StreamKept s s' := by
  cases h with
  | record h =>
    cases h with
    | record hid => exact .put rfl rfl rfl
  | slice hslice h =>
    obtain ⟨layout, rfl⟩ := Sequence.commitSlice_ok h
    exact .put rfl rfl rfl
  | compact hid h =>
    obtain ⟨others, hl⟩ := hk.scheduler.ledger_known ((hk.fits plan hplan).known _ hid)
    obtain ⟨t, hcall, rfl⟩ := onSeq_ok.mp h
    obtain ⟨-, hcompacted⟩ := (BlockManager.commitCompaction_ok hl hcall : PageSteps true _ _ _ ∧ _)
    obtain ⟨cached, -, hseq⟩ := hcompacted.seq
    exact .put (by rw [hseq]; rfl) (by rw [hseq]; rfl) (by rw [hseq]; rfl)
  | store hid h =>
    obtain ⟨others, hl⟩ := hk.scheduler.ledger_known ((hk.fits plan hplan).known _ hid)
    obtain ⟨t, hcall, rfl⟩ := onSeq_ok.mp h
    have hseq := (BlockManager.storeMultimodalPrefix_seq hl hcall).1
    exact .put (by rw [hseq]; rfl) (by rw [hseq]; rfl) (by rw [hseq]; rfl)

theorem Executed.stream {plans : List BatchPlan} (hk : Engine.Kept (s, plans))
    (hplan : plan ∈ plans)
    (h : Executed plan s s') : StreamKept s s' := by
  induction h with
  | refl => exact .refl s
  | tail hbefore hlast ih =>
    exact ih.trans (hlast.stream (hk.run (Executed.run hplan hbefore)).1 hplan)

end Kept

/-! ## Answers -/

/-- The tokens that a batch commits for one request. -/
def tokensOf (members : List (ℕ × Option ℕ)) (id : ℕ) : List ℕ :=
  members.flatMap fun member => if member.1 = id then member.2.toList else []

namespace StepResult

def members (result : StepResult) : List (ℕ × Option ℕ) :=
  result.plan.sequenceIds.zip result.tokenIds

/-- The tokens of one request, in the order of the steps. -/
def streamed (results : List StepResult) (id : ℕ) : List ℕ :=
  results.flatMap fun result => tokensOf result.members id

def answers (results : List StepResult) : List RequestOutput := results.flatMap (·.outputs)

end StepResult

namespace Request

/-- The token ends an answer that is `before` so far. -/
def Stops (req : Request) (eos : ℕ) (before : List ℕ) (token : ℕ) : Prop :=
  (req.ignoreEos = false ∧ token = eos) ∨ before.length + 1 = req.maxTokens

/-- No token so far ended the answer. -/
structure Going (req : Request) (eos : ℕ) (tokens : List ℕ) : Prop where
  short : tokens.length < req.maxTokens
  noEos : req.ignoreEos = false → eos ∉ tokens

/-- The output ends with the first token that ends it, and says which limit it was. -/
def Answered (req : Request) (eos : ℕ) (output : RequestOutput) : Prop :=
  ∃ before last, output.tokenIds = before ++ [last] ∧ req.Going eos before ∧
    req.Stops eos before last ∧
    (output.finishedByEos = true ↔ req.ignoreEos = false ∧ last = eos)

theorem Going.append {req : Request} {eos token : ℕ} {tokens : List ℕ} (h : req.Going eos tokens)
    (hgoes : ¬ req.Stops eos tokens token) : req.Going eos (tokens ++ [token]) := by
  unfold Stops at hgoes
  rw [not_or] at hgoes
  constructor
  · have hshort := h.short
    rw [List.length_append, List.length_singleton]
    omega
  · intro hstops hmem
    rcases List.mem_append.mp hmem with hold | hnew
    · exact h.noEos hstops hold
    · exact hgoes.1 ⟨hstops, (List.mem_singleton.mp hnew).symm⟩

end Request

/-- The tokens `stream` were committed for each request, and `outputs` returned. -/
structure Streamed (stream : ℕ → List ℕ) (outputs : List RequestOutput) (s : Scheduler H) :
    Prop where
  unknown : ∀ id ∉ s.requests, stream id = []
  tokens : ∀ id ∈ s.requests, (s.seqs id).tokenIds = (s.seqs id).request.promptTokenIds ++ stream id
  going : ∀ id ∈ s.queued, (s.seqs id).request.Going s.config.eos (stream id)
  once : (outputs.map (·.requestId)).Nodup
  finished : ∀ id ∈ s.requests, (s.seqs id).status = .finished ↔ id ∈ outputs.map (·.requestId)
  answered : ∀ output ∈ outputs, output.requestId ∈ s.requests ∧
    output.tokenIds = stream output.requestId ∧
    (s.seqs output.requestId).request.Answered s.config.eos output

section Streams

variable {s s' : Scheduler H} {stream : ℕ → List ℕ} {outputs new : List RequestOutput} {id : ℕ}
  {plan : BatchPlan}

theorem Streamed.later (h : Streamed stream outputs s) (hs : s.Settled) (hkept : StreamKept s s') :
    Streamed stream outputs s' := by
  have hknown : ∀ {id}, id ∈ s'.requests → id ∈ s.requests := fun hid => hkept.requests ▸ hid
  constructor
  · exact fun id hid => h.unknown id (hkept.requests ▸ hid)
  · intro id hid
    rw [hkept.tokens id (hknown hid), hkept.request id (hknown hid)]
    exact h.tokens id (hknown hid)
  · intro id hid
    have hin := hkept.queued id hid
    rw [hkept.request id (hs.known id hin), hkept.config]
    exact h.going id hin
  · exact h.once
  · exact fun id hid => (hkept.finished id (hknown hid)).trans (h.finished id (hknown hid))
  · intro output houtput
    obtain ⟨hid, htokens, hanswered⟩ := h.answered output houtput
    refine ⟨hkept.requests ▸ hid, htokens, ?_⟩
    rw [hkept.request _ hid, hkept.config]
    exact hanswered

theorem Sequence.completion_append {seq seq' : Sequence H} {token : ℕ}
    (hrequest : seq'.request = seq.request) (htokens : seq'.tokenIds = seq.tokenIds ++ [token])
    (hprompt : seq.numPromptTokens ≤ seq.numTokens) :
    seq'.completionTokenIds = seq.completionTokenIds ++ [token] ∧
      seq'.numCompletionTokens = seq.completionTokenIds.length + 1 := by
  have hsame : seq'.numPromptTokens = seq.numPromptTokens := by
    unfold numPromptTokens
    rw [hrequest]
  have hlength : seq'.numTokens = seq.numTokens + 1 := by
    unfold numTokens
    rw [htokens, List.length_append, List.length_singleton]
  constructor
  · unfold completionTokenIds
    rw [hsame, htokens, List.drop_append_of_le_length hprompt]
  · unfold numCompletionTokens completionTokenIds
    rw [hsame, hlength, List.length_drop]
    unfold numTokens at *
    omega

theorem queued_erase_running (hn : s.queued.Nodup) (hid : id ∈ s.running) :
    s.queued.erase id = s.waiting ++ s.running.erase id ++ s.swapped := by
  have hwaiting : id ∉ s.waiting := fun hmem => ((queues_apart id hn).1 hmem).1 hid
  unfold Scheduler.queued
  rw [List.erase_append_left _ (List.mem_append_right _ hid), List.erase_append_right _ hwaiting]

/-- How a sampled token is committed: the answer goes on, or it ends and the request leaves. -/
structure TokenCommitted (s : Scheduler H) (id token : ℕ) (output : Option RequestOutput)
    (s' : Scheduler H) : Prop where
  config : s'.config = s.config
  requests : s'.requests = s.requests
  others : ∀ other, other ≠ id → s'.seqs other = s.seqs other
  request : (s'.seqs id).request = (s.seqs id).request
  tokens : (s'.seqs id).tokenIds = (s.seqs id).tokenIds ++ [token]
  outcome : (output = none ∧ s'.queued = s.queued ∧ (s'.seqs id).status ≠ .finished ∧
      ¬ (s.seqs id).request.Stops s.config.eos (s.seqs id).completionTokenIds token) ∨
    (output = some ⟨id, (s.seqs id).completionTokenIds ++ [token],
        decide ((s.seqs id).request.ignoreEos = false ∧ token = s.config.eos)⟩ ∧
      (∀ other ∈ s'.queued, other ∈ s.queued ∧ other ≠ id) ∧ (s'.seqs id).status = .finished ∧
      (s.seqs id).request.Stops s.config.eos (s.seqs id).completionTokenIds token)

theorem commitToken_committed (hs : s.Settled) (hid : id ∈ s.running) {token : ℕ}
    {output : Option RequestOutput} (h : commitToken plan id token s = .ok output s') :
    TokenCommitted s id token output s' := by
  have hin : id ∈ s.queued := by simp [hid]
  have hapart := queues_apart id hs.nodup
  have hprompt := (hs.progress id (hs.known id hin)).prompt
  simp only [commitToken, bind_ok, get_ok, readOnly_ok, modifySeq_ok] at h
  obtain ⟨_, _, ⟨rfl, rfl⟩, seq, _, ⟨happend, rfl⟩, _, mid, hmid, h⟩ := h
  have happended : seq.request = (s.seqs id).request ∧
      seq.tokenIds = (s.seqs id).tokenIds ++ [token] ∧ seq.status = (s.seqs id).status := by
    obtain ⟨layout, rfl⟩ := appendToken_ok happend
    exact ⟨rfl, rfl, rfl⟩
  obtain ⟨hrequest, htokens, hstatus⟩ := happended
  obtain ⟨hcompletion, hcount⟩ := Sequence.completion_append hrequest htokens hprompt
  have hseq : mid.seqs id = seq := by
    rw [← hmid, seqs_put_self]
    rfl
  have hother : ∀ other, other ≠ id → mid.seqs other = s.seqs other := fun other hne => by
    rw [← hmid]
    exact seqs_put_of_ne hne
  have hqueues : mid.queued = s.queued ∧ mid.running = s.running ∧ mid.requests = s.requests ∧
      mid.config = s.config := by
    rw [← hmid]
    exact ⟨rfl, rfl, rfl, rfl⟩
  obtain ⟨hqueued, hrunning, hrequests, hconfig⟩ := hqueues
  rw [hrequest, hcount, hcompletion] at h
  split at h
  · next hstops =>
    simp only [bind_ok, transitionTo_ok, onSeq_ok, get_ok, require_ok, modify_ok, pure_ok] at h
    obtain ⟨_, _, ⟨finished, hfinish, rfl⟩, _, _, ⟨t, hfree, rfl⟩, _, _, ⟨rfl, rfl⟩, _, _,
      ⟨-, rfl⟩, _, last, hlast, rfl, rfl⟩ := h
    obtain ⟨rfl, -⟩ := Sequence.transitionTo_ok hfinish
    rw [view_put] at hfree
    rw [put_put] at hlast
    have hafter : t.seq = BlockManager.resetSequence { mid.seqs id with status := .finished } :=
      (BlockManager.deallocate_seq hfree).1
    have hself : last.seqs id = BlockManager.resetSequence { seq with status := .finished } := by
      rw [← hlast]
      change (mid.put id t).seqs id = _
      rw [seqs_put_self, hafter, hseq]
    have hleft : last.queued = s.waiting ++ s.running.erase id ++ s.swapped := by
      rw [← hlast, ← hmid]
      rfl
    constructor
    · rw [← hlast]
      exact hconfig
    · rw [← hlast]
      exact hrequests
    · intro other hne
      rw [← hlast]
      change (mid.put id t).seqs other = _
      rw [seqs_put_of_ne hne]
      exact hother other hne
    · rw [hself]
      exact hrequest
    · rw [hself]
      exact htokens
    · right
      refine ⟨rfl, fun other hmem => ?_, by rw [hself]; rfl, hstops⟩
      rw [hleft, ← queued_erase_running hs.nodup hid] at hmem
      refine ⟨List.mem_of_mem_erase hmem, fun heq => ?_⟩
      rw [heq] at hmem
      exact hs.nodup.not_mem_erase hmem
  · next hgoes =>
    have hunfinished : (s.seqs id).status ≠ .finished := hs.unfinished hin
    split at h
    · simp only [bind_ok, transitionTo_ok, pure_ok] at h
      obtain ⟨_, _, ⟨decoding, hdecode, rfl⟩, rfl, rfl⟩ := h
      obtain ⟨rfl, -⟩ := Sequence.transitionTo_ok hdecode
      constructor
      · exact hconfig
      · exact hrequests
      · intro other hne
        rw [seqs_put_of_ne hne]
        exact hother other hne
      · rw [seqs_put_self, seq_setSeq, hseq]
        exact hrequest
      · rw [seqs_put_self, seq_setSeq, hseq]
        exact htokens
      · left
        refine ⟨rfl, hqueued, ?_, hgoes⟩
        rw [seqs_put_self]
        exact fun hstatus => by cases hstatus
    · split at h
      · cases h
      · obtain ⟨rfl, rfl⟩ := pure_ok.mp h
        constructor
        · exact hconfig
        · exact hrequests
        · exact hother
        · rw [hseq, hrequest]
        · rw [hseq, htokens]
        · left
          refine ⟨rfl, hqueued, ?_, hgoes⟩
          rw [hseq, hstatus]
          exact hunfinished

/-- The publication of computed pages keeps the tokens. -/
theorem publish_stream {index : ℕ} {u : Unit} (h : publish plan index id s = .ok u s') :
    StreamKept s s' ∧ s'.running = s.running := by
  have hall : ∀ first last, onSeq id (BlockManager.publishComputedBlocks first last) s = .ok u s' →
      StreamKept s s' ∧ s'.running = s.running := by
    intro first last honSeq
    obtain ⟨t, hcall, rfl⟩ := onSeq_ok.mp honSeq
    obtain ⟨table, -, hseq⟩ := (BlockManager.publishComputedBlocks_table hcall).seq
    exact ⟨.put (by rw [hseq]; rfl) (by rw [hseq]; rfl) (by rw [hseq]; rfl), rfl⟩
  simp only [publish, bind_ok, readSeq_ok] at h
  obtain ⟨_, _, ⟨rfl, rfl⟩, h⟩ := h
  cases hphase : plan.phase with
  | prefill =>
    cases hslice : plan.prefillSlices[index]? with
    | none =>
      simp only [hphase, hslice] at h
      cases h
    | some slice =>
      simp only [hphase, hslice] at h
      exact hall _ _ h
  | decode =>
    simp only [hphase] at h
    split at h
    · exact hall _ _ h
    · exact hall _ _ h

/-- The stream after one more token. -/
theorem tokensOf_single (stream : ℕ → List ℕ) (id token other : ℕ) :
    stream other ++ tokensOf [(id, some token)] other =
      if other = id then stream id ++ [token] else stream other := by
  by_cases heq : other = id
  · subst heq
    simp [tokensOf]
  · simp [tokensOf, heq, Ne.symm heq]

/-- A committed token extends the stream of its request, and may end it. -/
theorem Streamed.committed (h : Streamed stream outputs s) (hs : s.Settled) (hid : id ∈ s.running)
    {token : ℕ} {output : Option RequestOutput} (hcommit : TokenCommitted s id token output s') :
    Streamed (fun other => stream other ++ tokensOf [(id, some token)] other)
      (outputs ++ output.toList) s' := by
  have hin : id ∈ s.queued := by simp [hid]
  have hknown := hs.known id hin
  have hcompletion : (s.seqs id).completionTokenIds = stream id := by
    unfold Sequence.completionTokenIds
    rw [h.tokens id hknown]
    exact List.drop_left
  have hnew : id ∉ outputs.map (·.requestId) := fun hmem =>
    hs.unfinished hin ((h.finished id hknown).mpr hmem)
  have hrequest : ∀ other, (s'.seqs other).request = (s.seqs other).request := fun other => by
    by_cases heq : other = id
    · rw [heq, hcommit.request]
    · rw [hcommit.others other heq]
  have hold : ∀ answer ∈ outputs, answer.requestId ≠ id := by
    rintro answer hanswer rfl
    exact hnew (List.mem_map_of_mem hanswer)
  have hgoing := h.going id hin
  have houtcome := hcommit.outcome
  rw [hcompletion] at houtcome
  have hstream := tokensOf_single stream id token
  constructor
  · intro other hother
    rw [hcommit.requests] at hother
    have hne : other ≠ id := fun heq => hother (heq ▸ hknown)
    rw [hstream, if_neg hne]
    exact h.unknown other hother
  · intro other hother
    rw [hcommit.requests] at hother
    rw [hstream, hrequest]
    split
    · next heq =>
      rw [heq, hcommit.tokens, h.tokens id hknown, List.append_assoc]
    · next hne =>
      rw [hcommit.others other hne]
      exact h.tokens other hother
  · intro other hother
    rw [hstream, hrequest, hcommit.config]
    rcases houtcome with ⟨-, hqueued, -, hgoes⟩ | ⟨-, hqueued, -, -⟩
    · rw [hqueued] at hother
      split
      · next heq =>
        rw [heq]
        exact hgoing.append hgoes
      · exact h.going other hother
    · obtain ⟨hbefore, hne⟩ := hqueued other hother
      rw [if_neg hne]
      exact h.going other hbefore
  · rcases houtcome with ⟨rfl, -⟩ | ⟨rfl, -⟩
    · simpa using h.once
    · simpa [List.nodup_append] using ⟨h.once, fun answer hanswer => hold answer hanswer⟩
  · intro other hother
    rw [hcommit.requests] at hother
    rw [List.map_append, List.mem_append]
    by_cases heq : other = id
    · rw [heq]
      rcases houtcome with ⟨rfl, -, hstatus, -⟩ | ⟨rfl, -, hstatus, -⟩
      · exact ⟨fun hfinished => absurd hfinished hstatus,
          fun hmem => hmem.elim (fun hmem => absurd hmem hnew) fun hmem =>
            absurd hmem List.not_mem_nil⟩
      · exact ⟨fun _ => .inr List.mem_cons_self, fun _ => hstatus⟩
    · rw [hcommit.others other heq, h.finished other hother]
      have hnone : other ∉ output.toList.map (·.requestId) := by
        rcases houtcome with ⟨rfl, -⟩ | ⟨rfl, -⟩
        · exact List.not_mem_nil
        · simpa using heq
      exact ⟨.inl, fun hmem => hmem.resolve_right hnone⟩
  · intro answer hanswer
    rw [hstream, hrequest, hcommit.config, hcommit.requests]
    rcases List.mem_append.mp hanswer with hbefore | hlast
    · rw [if_neg (hold answer hbefore)]
      exact h.answered answer hbefore
    · rcases houtcome with ⟨rfl, -⟩ | ⟨rfl, -, -, hstops⟩
      · exact absurd hlast List.not_mem_nil
      · obtain rfl := List.mem_singleton.mp hlast
        rw [if_pos rfl]
        refine ⟨hknown, rfl, stream id, token, rfl, hgoing, hstops, ?_⟩
        simp

theorem Streamed.one (h : Streamed stream outputs s) (hk : s.Kept) (hfits : s.Fits plan)
    (hid : id ∈ s.running) {index : ℕ} {token : Option ℕ}
    (hindex : plan.sequenceIds[index]? = some id)
    (hone : postprocessOne plan index id token s = .ok new s') :
    Streamed (fun other => stream other ++ tokensOf [(id, token)] other) (outputs ++ new) s' := by
  simp only [postprocessOne, bind_ok] at hone
  obtain ⟨_, published, hpublish, hone⟩ := hone
  obtain ⟨hkept, hrunning⟩ := publish_stream hpublish
  have hpublished := h.later hk.settled hkept
  cases token with
  | none =>
    obtain ⟨rfl, rfl⟩ := pure_ok.mp hone
    have hnone : (fun other => stream other ++ tokensOf [(id, none)] other) = stream := by
      funext other
      simp [tokensOf]
    rw [hnone, List.append_nil]
    exact hpublished
  | some token =>
    simp only [bind_ok, pure_ok] at hone
    obtain ⟨output, _, htoken, rfl, rfl⟩ := hone
    have hs := (publish_moved hk hfits hindex hpublish).kept.settled
    rw [← hrunning] at hid
    exact hpublished.committed hs hid (commitToken_committed hs hid htoken)

/-- The commit of a batch extends the stream of each member once. -/
theorem Streamed.batch (h : Streamed stream outputs s) (hk : s.Kept) (hfits : s.Fits plan)
    {index : ℕ} {members : List (ℕ × Option ℕ)} (hmembers : Remaining plan index members)
    (hrunning : ∀ member ∈ members, member.1 ∈ s.running) (hnodup : (members.map (·.1)).Nodup)
    (hfrom : postprocessFrom plan index members s = .ok new s') :
    Streamed (fun other => stream other ++ tokensOf members other) (outputs ++ new) s' := by
  induction members generalizing s stream outputs new index with
  | nil =>
    obtain ⟨rfl, rfl⟩ := pure_ok.mp hfrom
    simpa [tokensOf] using h
  | cons member members ih =>
    simp only [postprocessFrom, bind_ok, pure_ok] at hfrom
    obtain ⟨first, mid, hone, more, _, hmore, rfl, rfl⟩ := hfrom
    rw [List.map_cons, List.nodup_cons] at hnodup
    have hmoved := postprocessOne_moved hk hfits hmembers.head hone
    have hothers := Always.of_ok (postprocessOne_others rfl index member.2) hone
    have hrest : ∀ other ∈ members, other.1 ∈ mid.running := by
      intro other hother
      have hne : member.1 ≠ other.1 := fun heq =>
        hnodup.1 (heq ▸ List.mem_map_of_mem hother)
      exact (hothers.running other.1 hne).mpr (hrunning other (List.mem_cons_of_mem member hother))
    have hfirst := h.one hk hfits (hrunning member List.mem_cons_self) hmembers.head hone
    have hall := ih hfirst hmoved.kept (hfits.later hmoved.same) hmembers.tail hrest hnodup.2 hmore
    have hstream : (fun other => stream other ++ tokensOf (member :: members) other) =
        fun other => stream other ++ tokensOf [member] other ++ tokensOf members other := by
      funext other
      simp [tokensOf]
    rw [hstream, ← List.append_assoc]
    exact hall

theorem fst_zip_sublist {α β : Type} (as : List α) (bs : List β) :
    ((as.zip bs).map (·.1)).Sublist as := by
  induction as generalizing bs with
  | nil => exact .slnil
  | cons a as ih =>
    cases bs with
    | nil => exact List.nil_sublist _
    | cons b bs => exact (ih bs).cons_cons a

/-- The commit of a plan whose members are distinct and running. -/
theorem Streamed.postprocess (h : Streamed stream outputs s) (hk : s.Kept) (hfits : s.Fits plan)
    (hrunning : ∀ id ∈ plan.sequenceIds, id ∈ s.running) (hnodup : plan.sequenceIds.Nodup)
    {tokens : List (Option ℕ)} (hcommit : Scheduler.postprocess plan tokens s = .ok new s') :
    Streamed (fun other => stream other ++ tokensOf (plan.sequenceIds.zip tokens) other)
      (outputs ++ new) s' := by
  refine h.batch hk hfits (.all plan tokens)
    (fun member hmember => hrunning member.1 (List.of_mem_zip hmember).1) ?_ hcommit
  exact hnodup.sublist (fst_zip_sublist plan.sequenceIds tokens)

/-! ## Members of a batch are running -/

theorem Executed.queues (h : Executed plan s s') : s'.running = s.running := by
  induction h with
  | refl => rfl
  | tail _ hlast ih =>
    obtain ⟨id, -, t, rfl⟩ := hlast.member
    exact ih

theorem decodePlan_running {residentOnly : Bool} (hk : s.Kept)
    (h : decodePlan residentOnly s = .ok (some plan) s') :
    ∀ id ∈ plan.sequenceIds, id ∈ s'.running := by
  obtain ⟨events, hsteps, -⟩ := decodePlan_steps hk.settled.nodup h
  have hs := (hsteps.kept hk).1.settled
  have hnames : ∀ ids : List ℕ, (∀ id ∈ ids, id ∈ s'.running) →
      ∀ id ∈ (ids.map s'.seqs).map (·.request.seqId), id ∈ s'.running := by
    intro ids hids id hid
    rw [List.map_map] at hid
    obtain ⟨other, hother, rfl⟩ := List.mem_map.mp hid
    have hin := hids other hother
    have hname := hs.named other (hs.known other (by simp [hin]))
    change (s'.seqs other).request.seqId ∈ s'.running
    rw [hname]
    exact hin
  cases decodePlan_ok h with
  | @single id _ pair _ hswapped hrunning hdecoding hfits hreserve hplan =>
    obtain ⟨t, t', -, -, rfl⟩ := reserveAppend_ok hreserve
    rw [(create_ok hplan).2.1]
    refine hnames [id] fun other hother => ?_
    change other ∈ s.running
    rw [hrunning]
    exact hother
  | @batch _ draft _ hrun hne hplan =>
    rw [(create_ok hplan).2.1]
    refine hnames draft.scheduled fun other hother => ?_
    obtain ⟨_, _, last, rest, -, -, -, -, -, rfl⟩ := hrun.run
    exact List.mem_append_left _ hother

theorem PlanMade.running (hk : s.Kept) (h : PlanMade s plan s') :
    (∀ id ∈ plan.sequenceIds, id ∈ s'.running) ∧ plan.sequenceIds.Nodup := by
  cases h with
  | @prefill quiet mid planned tier running heavy hquiet _ hprefill =>
    obtain ⟨batch, -, hbatch, -, -, hsequences, hcreate⟩ :=
      prefillPlan_batch (hquiet.kept hk).1 hprefill
    refine ⟨fun id hid => ?_, ?_⟩
    · rw [hsequences] at hid
      exact (hbatch.paused id hid).1
    · rw [(create_ok hcreate).2.1]
      exact (create_ok hcreate).2.2.2.2
  | decode hquiet _ hdecode =>
    have hmid := (hquiet.kept hk).1
    refine ⟨fun id hid => decodePlan_running hmid hdecode id hid, ?_⟩
    cases decodePlan_ok hdecode with
    | single _ _ _ _ _ hplan =>
      rw [(create_ok hplan).2.1]
      exact (create_ok hplan).2.2.2.2
    | batch _ _ hplan =>
      rw [(create_ok hplan).2.1]
      exact (create_ok hplan).2.2.2.2

/-! ## Arrivals and cancellations -/

/-- A cancelled request keeps its tokens. -/
theorem cancel_stream (hs : s.Settled) {found : Bool} (h : Scheduler.cancel id s = .ok found s') :
    StreamKept s s' := by
  simp only [cancel, bind_ok, get_ok] at h
  obtain ⟨_, _, ⟨rfl, rfl⟩, h⟩ := h
  split at h
  · next hqueue =>
    have hin : id ∈ s.queued := mem_queued.mpr hqueue
    have hunfinished := hs.unfinished hin
    simp only [bind_ok, modify_ok, readSeq_ok, when_ok, onSeq_ok, transitionTo_ok, pure_ok] at h
    obtain ⟨_, base, hbase, _, _, ⟨rfl, rfl⟩, _, mid, hfree, _, _, ⟨cancelled, hcancel, rfl⟩, -,
      rfl⟩ :=
      h
    obtain ⟨rfl, -⟩ := Sequence.transitionTo_ok hcancel
    have hqueues : base.seqs = s.seqs ∧ base.requests = s.requests ∧ base.config = s.config ∧
        ∀ other ∈ base.queued, other ∈ s.queued := by
      rw [← hbase]
      split
      · refine ⟨rfl, rfl, rfl, fun other hother => ?_⟩
        simp only [mem_queued] at hother ⊢
        exact hother.imp_left List.mem_of_mem_erase
      · split
        · refine ⟨rfl, rfl, rfl, fun other hother => ?_⟩
          simp only [mem_queued] at hother ⊢
          exact hother.imp_right (Or.imp_left List.mem_of_mem_erase)
        · refine ⟨rfl, rfl, rfl, fun other hother => ?_⟩
          simp only [mem_queued] at hother ⊢
          exact hother.imp_right (Or.imp_right List.mem_of_mem_erase)
    obtain ⟨hseqs, hrequests, hconfig, hqueued⟩ := hqueues
    have hmid : (∀ other, other ≠ id → mid.seqs other = s.seqs other) ∧
        (mid.seqs id).request = (s.seqs id).request ∧
        (mid.seqs id).tokenIds = (s.seqs id).tokenIds ∧
        mid.requests = s.requests ∧ mid.config = s.config ∧ mid.queued = base.queued := by
      rcases hfree with ⟨-, t, hfree, rfl⟩ | ⟨-, rfl⟩
      · have hafter : t.seq = BlockManager.resetSequence (base.seqs id) :=
          (BlockManager.deallocate_seq hfree).1
        rw [hseqs] at hafter
        refine ⟨fun other hne => ?_, ?_, ?_, hrequests, hconfig, rfl⟩
        · rw [seqs_put_of_ne hne, hseqs]
        · rw [seqs_put_self, hafter]
          rfl
        · rw [seqs_put_self, hafter]
          rfl
      · exact ⟨fun other _ => by rw [hseqs], by rw [hseqs], by rw [hseqs], hrequests, hconfig, rfl⟩
    obtain ⟨hother, hrequest, htokens, hknown, hconfig', hsame⟩ := hmid
    have hcases : ∀ {P : Sequence H → Prop} (other : ℕ),
        (other = id → P { mid.seqs id with status := .cancelled }) →
        (other ≠ id → P (s.seqs other)) → P ((mid.put id ((mid.view id).setSeq
          { mid.seqs id with status := .cancelled })).seqs other) := by
      intro P other hself hne
      by_cases heq : other = id
      · rw [heq, seqs_put_self]
        exact hself heq
      · rw [seqs_put_of_ne heq, hother other heq]
        exact hne heq
    refine ⟨hconfig', hknown, fun other hmem => hqueued other (hsame ▸ hmem), fun other _ => ?_,
      fun other _ => ?_, fun other _ => ?_⟩
    · refine hcases (P := fun seq => seq.request = (s.seqs other).request) other ?_ fun _ => rfl
      rintro rfl
      exact hrequest
    · refine hcases (P := fun seq => seq.tokenIds = (s.seqs other).tokenIds) other ?_ fun _ => rfl
      rintro rfl
      exact htokens
    · refine hcases (P := fun seq => seq.status = .finished ↔ (s.seqs other).status = .finished)
        other ?_ fun _ => Iff.rfl
      rintro rfl
      exact ⟨fun hstatus => (by cases hstatus), fun hfinished => absurd hfinished hunfinished⟩
  · obtain ⟨-, rfl⟩ := pure_ok.mp h
    exact .refl s

/-- A request arrives with its prompt and without an answer. -/
theorem Streamed.submitted (h : Streamed stream outputs s) (hs : s.Settled) {req : Request}
    {decision : AdmissionDecision} (hadd : Scheduler.add req s = .ok decision s') :
    Streamed stream outputs s' := by
  have harrived := add_arrived hadd
  obtain ⟨enabled, candidate, hseqs⟩ := harrived.seqs
  have hnew := harrived.unknown
  have hempty := h.unknown req.seqId hnew
  have hold : ∀ id ∈ s.requests, s'.seqs id = s.seqs id := fun id hid => by
    have hne : id ≠ req.seqId := fun heq => hnew (heq ▸ hid)
    rw [hseqs, Function.update_of_ne hne]
  have hself : s'.seqs req.seqId = { Sequence.ofRequest H req with
      status := if decision = none then .waiting else .rejected
      multimodalPrefixCacheEnabled := enabled
      prefixCacheCandidateTokens := candidate } := by
    rw [hseqs, Function.update_self]
  have hqueued : ∀ id ∈ s'.queued, id = req.seqId ∨ id ∈ s.queued := by
    intro id hid
    rw [mem_queued, harrived.running, harrived.swapped, harrived.waiting] at hid
    rw [mem_queued]
    split at hid
    · simp only [List.mem_append, List.mem_singleton] at hid
      tauto
    · exact .inr hid
  have hunanswered : req.seqId ∉ outputs.map (·.requestId) := by
    intro hmem
    obtain ⟨output, houtput, hname⟩ := List.mem_map.mp hmem
    exact hnew (hname ▸ (h.answered output houtput).1)
  constructor
  · intro id hid
    rw [harrived.requests, List.mem_cons, not_or] at hid
    exact h.unknown id hid.2
  · intro id hid
    rw [harrived.requests] at hid
    rcases List.mem_cons.mp hid with rfl | hid
    · rw [hself, hempty, List.append_nil]
      rfl
    · rw [hold id hid]
      exact h.tokens id hid
  · intro id hid
    rw [harrived.config]
    rcases hqueued id hid with rfl | hid
    · rw [hself, hempty]
      exact ⟨req.maxTokensPositive, fun _ => List.not_mem_nil⟩
    · rw [hold id (hs.known id hid)]
      exact h.going id hid
  · exact h.once
  · intro id hid
    rw [harrived.requests] at hid
    rcases List.mem_cons.mp hid with rfl | hid
    · rw [hself]
      refine ⟨fun hfinished => ?_, fun hmem => absurd hmem hunanswered⟩
      change (if decision = none then RequestState.waiting else .rejected) = .finished at hfinished
      split at hfinished
      · cases hfinished
      · cases hfinished
    · rw [hold id hid]
      exact h.finished id hid
  · intro output houtput
    obtain ⟨hid, htokens, hanswered⟩ := h.answered output houtput
    refine ⟨?_, htokens, ?_⟩
    · rw [harrived.requests]
      exact List.mem_cons_of_mem _ hid
    · rw [hold _ hid, harrived.config]
      exact hanswered

end Streams

/-! ## Steps and runs of the loop -/

section Runs

variable {l l' : StepLoop H} {stream : ℕ → List ℕ} {outputs : List RequestOutput}
  {results : List StepResult}

theorem LoopStep.streamed (hk : l.engine.Kept) (hold : ∀ plan ∈ l.2, l.1.OnHold plan)
    (h : Streamed stream outputs l.1) (hstep : LoopStep l results l') :
    Streamed (fun id => stream id ++ StepResult.streamed results id)
      (outputs ++ StepResult.answers results) l'.1 := by
  have hquiet : ∀ {s' : Scheduler H}, Streamed stream outputs s' →
      Streamed (fun id => stream id ++ StepResult.streamed [] id)
        (outputs ++ StepResult.answers []) s' := fun hs => by
    simpa [StepResult.streamed, StepResult.answers] using hs
  have hbatch : ∀ {plan : BatchPlan} {tokens : List (Option ℕ)} {new : List RequestOutput}
      {s' : Scheduler H}, Streamed (fun id => stream id ++
        tokensOf (plan.sequenceIds.zip tokens) id) (outputs ++ new) s' →
      Streamed (fun id => stream id ++ StepResult.streamed [⟨plan, tokens, new⟩] id)
        (outputs ++ StepResult.answers [⟨plan, tokens, new⟩]) s' := fun hs => by
    simpa [StepResult.streamed, StepResult.answers, StepResult.members] using hs
  cases hstep with
  | submit hadd => exact hquiet (h.submitted hk.scheduler.settled hadd)
  | cancel hcancel =>
    exact hquiet (h.later hk.scheduler.settled (cancel_stream hk.scheduler.settled hcancel))
  | work hwork =>
    cases hwork with
    | search hcall =>
      rcases scheduleResidentDecode_ok hk.scheduler.settled.nodup hcall with
        ⟨-, events, hsteps, -⟩ | ⟨_, hnone, -⟩
      · exact hquiet (h.later hk.scheduler.settled (hsteps.stream hk.scheduler))
      · cases hnone
    | @pause s planned s' plan hcall hphase hrecord =>
      have hmade := schedule_ok hk.scheduler.settled.nodup hcall
      obtain ⟨events, hsteps, -⟩ := hmade.steps hk.scheduler.settled.nodup
      obtain ⟨hmoved, hfits⟩ := hmade.kept hk.scheduler
      have hplanned : Engine.Kept (planned, [plan]) :=
        ⟨hmoved.kept, fun other hother => List.mem_singleton.mp hother ▸ hfits⟩
      have hexecuted : Executed plan planned s' :=
        hrecord.lift (fun s => s) fun _ _ hrecorded => .record hrecorded
      have hkept := (hsteps.stream hk.scheduler).trans
        (hexecuted.stream hplanned List.mem_cons_self)
      exact hquiet (h.later hk.scheduler.settled hkept)
    | @batch s planned done s' pending call plan tokens new hcall hbeside hexecute hcommit =>
      obtain ⟨hnone, -⟩ | ⟨made, hsome, hmade⟩ := PlanningCall.made hk.scheduler.settled.nodup hcall
      · cases hnone
      obtain rfl := Option.some.inj hsome
      obtain ⟨events, hsteps, -⟩ := hmade.steps hk.scheduler.settled.nodup
      obtain ⟨hmoved, hfits⟩ := hmade.kept hk.scheduler
      obtain ⟨hrunning, hnodup⟩ := PlanMade.running hk.scheduler hmade
      have hplanned : Engine.Kept (planned, [plan]) :=
        ⟨hmoved.kept, fun other hother => List.mem_singleton.mp hother ▸ hfits⟩
      have hdone := (hplanned.run (hexecute.run List.mem_cons_self)).1
      have hkept := (hsteps.stream hk.scheduler).trans
        (hexecute.stream hplanned List.mem_cons_self)
      refine hbatch ((h.later hk.scheduler.settled hkept).postprocess hdone.scheduler
        (hdone.fits plan List.mem_cons_self) (fun id hid => ?_) hnodup hcommit)
      rw [hexecute.queues]
      exact hrunning id hid
    | @finish s done s' plan tokens new hexecute hcommit =>
      have hhold := hold plan rfl
      have hdone := (hk.run (hexecute.run (show plan ∈ [plan] from List.mem_cons_self))).1
      have hkept := hexecute.stream hk List.mem_cons_self
      have hcreate := create_ok hhold.current
      refine hbatch ((h.later hk.scheduler.settled hkept).postprocess hdone.scheduler
        (hdone.fits plan List.mem_cons_self) (fun id hid => ?_) ?_ hcommit)
      · rw [hexecute.queues]
        exact (hhold.members id hid).1
      · rw [hcreate.2.1]
        exact hcreate.2.2.2.2

/-- What holds of the loop after the batches `past`. -/
structure LoopKept (past : List StepResult) (l : StepLoop H) : Prop where
  engine : l.engine.Kept
  hold : ∀ plan ∈ l.2, l.1.OnHold plan
  stream : Streamed (StepResult.streamed past) (StepResult.answers past) l.1

theorem LoopKept.step {past : List StepResult} (h : LoopKept past l)
    (hstep : LoopStep l results l') :
    LoopKept (past ++ results) l' := by
  refine ⟨(h.engine.run hstep.run).1, hstep.onHold h.engine.scheduler h.hold, ?_⟩
  have hstream : StepResult.streamed (past ++ results) = fun id =>
      StepResult.streamed past id ++ StepResult.streamed results id := by
    funext id
    exact List.flatMap_append
  have hanswers : StepResult.answers (past ++ results) =
      StepResult.answers past ++ StepResult.answers results := List.flatMap_append
  rw [hstream, hanswers]
  exact hstep.streamed h.engine h.hold h.stream

theorem LoopKept.run {past : List StepResult} (h : LoopKept past l) (hrun : LoopRun l results l') :
    LoopKept (past ++ results) l' :=
  Trace.history LoopKept.step h hrun

theorem LoopKept.initial (config : SchedulerConfig) (numBlocks blockSize numCpuBlocks : ℕ)
    (caching blockLevel : Bool) (decodeCredit : ℕ) (heap : ℕ → Sequence H) :
    LoopKept []
      (LLMEngine.initial (Scheduler.initial H config
        (.initial H numBlocks blockSize numCpuBlocks caching blockLevel)
        decodeCredit heap)).loop where
  engine := .initial config numBlocks blockSize numCpuBlocks caching blockLevel decodeCredit heap
  hold := fun _ hplan => by cases hplan
  stream := by
    refine ⟨fun _ _ => rfl, ?_, ?_, List.nodup_nil, ?_, ?_⟩ <;>
      exact fun _ hid => absurd hid List.not_mem_nil

end Runs

namespace LLMEngine

variable {config : LLMEngineConfig} {d : LLMEngine H} {results : List StepResult}

theorem Reached.loopKept (h : Reached config results d) : LoopKept results d.loop := by
  obtain ⟨schedulerConfig, numBlocks, blockSize, numCpuBlocks, caching, blockLevel,
    decodeCredit, heap, hrun⟩ := h
  exact (LoopKept.initial schedulerConfig numBlocks blockSize numCpuBlocks caching blockLevel
    decodeCredit heap).run (LLMEngineRun.loop hrun)

/-- After any completed calls, the tokens of every request are its prompt and the tokens that
the committed batches hold for it, and the outputs are the finished requests, once each, with
all of their tokens up to the first that ends the answer. -/
theorem tokens_streamed (h : Reached config results d) :
    Streamed (StepResult.streamed results) (StepResult.answers results) d.scheduler :=
  h.loopKept.stream

theorem tokens_streamed_secondPaused : ∃ results,
    Streamed (StepResult.streamed results) (StepResult.answers results) secondPaused.scheduler ∧
      secondPaused.scheduler.requests = [1, 0] := by
  obtain ⟨results, hreached, -⟩ := secondPaused_reached
  exact ⟨results, tokens_streamed hreached, by decide +kernel⟩

end LLMEngine

end PrismInfer
