import PrismInfer.ServingRuntimeTokens

/-!
# Terminal events and admission slots of the serving runtime

Which handles an orderly run answers, and what the admission counter counts in it.
-/
set_option linter.unusedSectionVars false

namespace PrismInfer.Serving

open ServingRuntime

variable {Id E : Type} [DecidableEq Id] {api : ServingEngine E}
variable {w w' : ServingRuntime Id E} {submission : Submission Id}

namespace ServingRuntime

@[simp] theorem openRequests_publish (uid : ℕ) (event : ServingEvent) :
    (w.publish uid event).openRequests = w.openRequests := rfl

@[simp] theorem openRequests_publishTerminal (event : ServingEvent) :
    (w.publishTerminal submission event).openRequests = w.openRequests := rfl

@[simp] theorem openRequests_releaseAdmissionSlot :
    w.releaseAdmissionSlot.openRequests = w.openRequests := rfl

@[simp] theorem openRequests_goto (owner : Owner Id) :
    (w.goto owner).openRequests = w.openRequests := rfl

@[simp] theorem openRequests_fail : w.fail.openRequests = w.openRequests := rfl

theorem open_ingress {rest : List (Submission Id)} (h : w.ingress = submission :: rest) :
    w.openRequests = (submission, []) :: w.popIngress.openRequests := by
  simp [openRequests, popIngress, pendingMedia, h]

theorem open_waiting {pending : PendingMedia Id} {left right : List (PendingMedia Id)}
    (h : w.mediaWaiting = left ++ pending :: right) :
    w.openRequests.Perm ((pending.submission, []) ::
      { w with mediaWaiting := left ++ right }.openRequests) := by
  simp only [openRequests, pendingMedia, h, List.map_append, List.map_cons, List.append_assoc,
    List.cons_append]
  rw [← List.append_assoc, ← List.append_assoc]
  exact List.perm_middle.trans (.of_eq (by simp only [List.append_assoc]))

theorem open_preparing {pending : PendingMedia Id} {preparing : Option (PendingMedia Id × Bool)}
    (h : w.preparing = some (pending, false))
    (hnext : preparing = none ∨ preparing = some (pending, true)) :
    w.openRequests.Perm ((pending.submission, []) ::
      { w with preparing := preparing }.openRequests) := by
  have hgone : { w with preparing := preparing }.openRequests =
      w.ingress.map (·, []) ++ (w.mediaWaiting.map fun pending => (pending.submission, [])) ++
        w.active.map fun request => (request.submission, request.tokenIds) := by
    rcases hnext with rfl | rfl <;> simp [openRequests, pendingMedia]
  rw [hgone]
  simp only [openRequests, pendingMedia, h, List.map_append, List.map_cons, List.map_nil,
    List.append_assoc, List.cons_append, List.nil_append]
  rw [← List.append_assoc, ← List.append_assoc]
  exact List.perm_middle

theorem open_active {request : ActiveRequest Id} {left right : List (ActiveRequest Id)}
    (h : w.active = left ++ request :: right) :
    w.openRequests.Perm ((request.submission, request.tokenIds) ::
      { w with active := left ++ right }.openRequests) := by
  simp only [openRequests, pendingMedia, h, List.map_append, List.map_cons]
  rw [← List.append_assoc, ← List.append_assoc]
  exact List.perm_middle.trans (.of_eq (by simp only [List.append_assoc]))

theorem open_admitted (request : ActiveRequest Id) :
    { w with active := w.active ++ [request] }.openRequests.Perm
      ((request.submission, request.tokenIds) :: w.openRequests) := by
  simp only [openRequests, pendingMedia, List.map_append, List.map_cons, List.map_nil]
  rw [← List.append_assoc]
  exact List.perm_append_singleton _ _

theorem open_queued (pending : PendingMedia Id) :
    { w with mediaWaiting := w.mediaWaiting ++ [pending] }.openRequests.Perm
      ((pending.submission, []) :: w.openRequests) := by
  simp only [openRequests, pendingMedia, List.map_append, List.map_cons,
    List.append_assoc, List.cons_append, List.nil_append]
  rw [← List.append_assoc, ← List.append_assoc]
  exact List.perm_middle

end ServingRuntime

/-- The end of a request that leaves the open requests. -/
theorem HandleStep.ends {tokens : List ℕ} {last : ServingEvent} (mid : ServingRuntime Id E)
    (hopen : w.openRequests.Perm ((submission, tokens) :: mid.openRequests))
    (hlast : last.isTerminal = true)
    (hdone : ∀ reported reason, last = .done reported reason → reported = tokens)
    (haccepted : mid.accepted = w.accepted) (huid : mid.nextUid = w.nextUid)
    (hevents : mid.events = w.events) (hopen' : w'.openRequests = mid.openRequests)
    (haccepted' : w'.accepted = mid.accepted) (huid' : w'.nextUid = mid.nextUid)
    (hevents' : w'.events = Function.update mid.events submission.uid
      (mid.events submission.uid ++ [last])) : HandleStep w w' :=
  have hnone : ∀ event ∈ ([] : List ServingEvent),
      event.isTerminal = false ∧ event.tokenIds = [] := by simp
  .answer (hopen' ▸ hopen) hnone hlast hdone (haccepted'.trans haccepted) (huid'.trans huid)
    (by rw [hevents', hevents, List.nil_append])

namespace HandleStep

variable {event : List ℕ → ServingEvent} {call : ℕ → E → E → Prop}

/-- A terminal event for a request that is not active. -/
theorem terminal {last : ServingEvent} {tokens : List ℕ} (mid : ServingRuntime Id E)
    (hopen : w.openRequests.Perm ((submission, tokens) :: mid.openRequests))
    (hlast : last.isTerminal = true)
    (hdone : ∀ reported reason, last = .done reported reason → reported = tokens)
    (haccepted : mid.accepted = w.accepted) (huid : mid.nextUid = w.nextUid)
    (hevents : mid.events = w.events) : HandleStep w (mid.publishTerminal submission last) :=
  .ends mid hopen hlast hdone haccepted huid hevents rfl rfl rfl rfl

theorem drain (hterminal : ∀ tokens, (event tokens).isTerminal = true)
    (hdone : ∀ tokens reported reason, event tokens = .done reported reason → reported = tokens)
    (h : DrainStep event call w w') : HandleStep w w' := by
  cases h with
  | @active engine request rest hactive _ =>
    have hactive : w.active = [] ++ request :: rest := hactive
    exact ends { w with active := [] ++ rest } (open_active hactive) (hterminal _) (hdone _) rfl
      rfl rfl rfl rfl rfl rfl
  | @waiting pending rest hmedia =>
    have hmedia : w.mediaWaiting = [] ++ pending :: rest := hmedia
    have hopen := open_waiting hmedia
    exact ends { w with mediaWaiting := [] ++ rest } hopen (hterminal _) (hdone _) rfl rfl rfl rfl
      rfl rfl rfl
  | @preparing pending hpreparing =>
    exact terminal { w with preparing := some (pending, true) }
      (open_preparing hpreparing (.inr rfl)) (hterminal _) (hdone _) rfl rfl rfl
  | @ingress submission rest hingress =>
    exact ends w.popIngress (.of_eq (open_ingress hingress)) (hterminal _) (hdone _) rfl
      rfl rfl rfl rfl rfl rfl

theorem cancel {cancellation : Cancellation Id} (h : CancelStep api cancellation w w') :
    HandleStep w w' := by
  have hdone : ∀ tokens reported reason, ServingEvent.done tokens "cancelled" =
      .done reported reason → reported = tokens := by simp
  cases h with
  | @waiting pending left right hmedia hid =>
    have hopen := open_waiting hmedia
    exact ends { w with mediaWaiting := left ++ right } hopen rfl (hdone [])
      rfl rfl rfl rfl rfl rfl rfl
  | @preparing pending hpreparing hid =>
    exact ends { w with preparing := some (pending, true) } (open_preparing hpreparing (.inr rfl))
      rfl (hdone []) rfl rfl rfl rfl rfl rfl rfl
  | @active engine request left right hactive hid _ =>
    exact ends { w with active := left ++ right } (open_active hactive) rfl (hdone _) rfl rfl rfl
      rfl rfl rfl rfl
  | refused _ _ _ => exact .quiet (.refl _) rfl rfl rfl
  | remember _ _ => exact .quiet (.refl _) rfl rfl rfl
  | unknown _ _ => exact .quiet (.refl _) rfl rfl rfl

/-- The hand-over to the engine: the submission has left the queues already. -/
theorem submitToEngine {engineRequestId : ℕ} {next : Owner Id} {message : String}
    {reply : EngineReply} (mid : ServingRuntime Id E) (hreply : reply ≠ .interrupted)
    (hopen : w.openRequests.Perm ((submission, []) :: mid.openRequests))
    (haccepted : mid.accepted = w.accepted) (huid : mid.nextUid = w.nextUid)
    (hevents : mid.events = w.events) :
    HandleStep w (mid.submitToEngine submission engineRequestId next message reply) := by
  have hopen' : reply ≠ .admitted →
      (mid.submitToEngine submission engineRequestId next message reply).openRequests =
        mid.openRequests := by
    intro hne
    cases reply <;> simp_all [ServingRuntime.submitToEngine]
  cases reply with
  | admitted =>
    have hadmitted : (mid.submitToEngine submission engineRequestId next message
        .admitted).openRequests.Perm ((submission, [] ++ []) :: mid.openRequests) :=
      open_admitted (w := mid) ⟨submission, engineRequestId, []⟩
    have haccept : ServingEvent.isTerminal (.accepted engineRequestId) = false := rfl
    exact .progress hopen hadmitted haccept rfl haccepted huid (by rw [← hevents]; rfl)
  | rejected =>
    have hnotes : ∀ event ∈ [ServingEvent.accepted engineRequestId],
        event.isTerminal = false ∧ event.tokenIds = [] := by simp [ServingEvent.isTerminal,
          ServingEvent.tokenIds]
    have hlast : ServingEvent.isTerminal (.done [] "rejected") = true := rfl
    rw [← hopen' (by simp)] at hopen
    refine .answer hopen hnotes hlast (by simp) ?_ ?_ ?_
    all_goals simp [ServingRuntime.submitToEngine, publishTerminal, forgetRequestId, publish,
      releaseAdmissionSlot, goto, haccepted, huid, hevents]
  | invalid =>
    exact ends mid hopen rfl (by simp) haccepted huid hevents (hopen' (by simp)) rfl rfl rfl
  | raised =>
    exact ends mid hopen rfl (by simp) haccepted huid hevents (hopen' (by simp)) rfl rfl rfl
  | interrupted => exact absurd rfl hreply

theorem admitSubmission {engineRequestId : ℕ} {engine : E} {next : Owner Id} {message : String}
    {reply : EngineReply} {rest : List (Submission Id)} (hreply : reply ≠ .interrupted)
    (hingress : w.ingress = submission :: rest) :
    HandleStep w
      (w.popIngress.admitSubmission submission engineRequestId engine next message reply) := by
  have hopen := List.Perm.of_eq (open_ingress hingress)
  simp only [ServingRuntime.admitSubmission]
  split
  · exact ends w.popIngress hopen rfl (by simp) rfl rfl rfl rfl rfl rfl rfl
  · split
    · exact ends w.popIngress hopen rfl (by simp) rfl rfl rfl rfl rfl rfl rfl
    · split
      · exact submitToEngine { w.popIngress with engine := engine } hreply hopen rfl rfl rfl
      · split
        · exact ends w.popIngress hopen rfl (by simp) rfl rfl rfl rfl rfl rfl rfl
        · exact absurd rfl hreply
        · exact .quiet ((open_queued ⟨submission, engineRequestId⟩).trans hopen.symm) rfl rfl rfl

end HandleStep

/-- Only open requests and handles matter. -/
theorem HandleStep.frame {u v : ServingRuntime Id E} (h : HandleStep w w')
    (hopen : u.openRequests = w.openRequests) (haccepted : u.accepted = w.accepted)
    (huid : u.nextUid = w.nextUid) (hevents : u.events = w.events)
    (hopen' : v.openRequests = w'.openRequests) (haccepted' : v.accepted = w'.accepted)
    (huid' : v.nextUid = w'.nextUid) (hevents' : v.events = w'.events) : HandleStep u v := by
  cases h with
  | quiet h₁ h₂ h₃ h₄ =>
    exact .quiet (by rwa [hopen, hopen']) (by rw [haccepted, haccepted', h₂])
      (by rw [huid, huid', h₃]) (by rw [hevents, hevents', h₄])
  | enqueue h₀ h₁ h₂ h₃ h₄ =>
    exact .enqueue (huid ▸ h₀) (by rwa [hopen, hopen']) (by rw [haccepted, haccepted', h₂])
      (by rw [huid, huid', h₃]) (by rw [hevents, hevents', h₄])
  | progress h₀ h₁ h₂ h₃ h₄ h₅ h₆ =>
    exact .progress (hopen ▸ h₀) (hopen' ▸ h₁) h₂ h₃ (by rw [haccepted, haccepted', h₄])
      (by rw [huid, huid', h₅]) (by rw [hevents, hevents', h₆])
  | answer h₀ h₁ h₂ h₃ h₄ h₅ h₆ =>
    exact .answer (by rwa [hopen, hopen']) h₁ h₂ h₃ (by rw [haccepted, haccepted', h₄])
      (by rw [huid, huid', h₅]) (by rw [hevents, hevents', h₆])

/-- What `submit` established when it took the lock. -/
def LockInvariant (w : ServingRuntime Id E) : Prop :=
  ∀ submission, w.submitting = some submission →
    submission.uid = w.nextUid ∧ submission.requestId ∉ w.knownRequestIds ∧
      w.unadmittedRequests < w.ingressCapacity

/-- Once the owner has left its queues behind, they are empty. -/
structure Drained (w : ServingRuntime Id E) : Prop where
  closed : w.owner = .closing ∨ w.owner = .exited → w.openRequests = []
  idle : w.owner = .exited → w.preparing = none

/-- No engine call is interrupted by something that is no `Exception`. -/
def Uninterrupted (action : Action Id) : Prop :=
  ∀ reply, action = .reply reply → reply ≠ .interrupted

theorem Step.handleStep {action : Action Id} (hlock : LockInvariant w) (hdrained : Drained w)
    (hstreams : StreamInvariant api w) (hstep : Step api w action w')
    (haction : Uninterrupted action) : HandleStep w w' := by
  have hquiet : ∀ {u : ServingRuntime Id E}, u.openRequests = w.openRequests →
      u.accepted = w.accepted → u.nextUid = w.nextUid → u.events = w.events → HandleStep w u :=
    fun ho ha hu he => .quiet (.of_eq ho) ha hu he
  rcases hstep with hclient | howner
  · cases hclient with
    | submitBegin _ _ _ _ _ => exact hquiet rfl rfl rfl rfl
    | @enqueue submission hsubmitting _ =>
      refine .enqueue (hlock submission hsubmitting).1 ?_ rfl rfl rfl
      simp only [openRequests, pendingMedia, ServingRuntime.enqueue, List.map_append, List.map_cons,
        List.map_nil, List.append_assoc, List.cons_append, List.nil_append]
      exact List.perm_middle
    | full _ _ => exact hquiet rfl rfl rfl rfl
    | cancel _ => exact hquiet rfl rfl rfl rfl
    | stop _ => exact hquiet rfl rfl rfl rfl
  · cases howner with
    | ready _ => exact hquiet rfl rfl rfl rfl
    | startFails _ => exact hquiet rfl rfl rfl rfl
    | loopRaises _ _ => exact hquiet rfl rfl rfl rfl
    | loopFails _ => exact hquiet rfl rfl rfl rfl
    | headStop _ _ => exact hquiet rfl rfl rfl rfl
    | headLoop _ _ => exact hquiet rfl rfl rfl rfl
    | popCancellation _ _ => exact hquiet rfl rfl rfl rfl
    | applyCancellation _ _ hcancel =>
      exact (HandleStep.cancel hcancel).frame rfl rfl rfl rfl rfl rfl rfl rfl
    | cancelledFirst _ => exact hquiet rfl rfl rfl rfl
    | cancelledSecond _ => exact hquiet rfl rfl rfl rfl
    | notPrepared _ => exact hquiet rfl rfl rfl rfl
    | preparedDiscarded _ _ hpreparing =>
      exact hquiet (by simp [openRequests, pendingMedia, releaseAdmissionSlot, goto, hpreparing])
        rfl rfl rfl
    | @preparedStop pending _ _ hpreparing _ =>
      exact .ends { w with preparing := none } (open_preparing hpreparing (.inl rfl)) rfl
        (by simp) rfl rfl rfl rfl rfl rfl rfl
    | @preparedRaised pending message _ _ hpreparing _ =>
      exact .ends { w with preparing := none } (open_preparing hpreparing (.inl rfl)) rfl
        (by simp) rfl rfl rfl rfl rfl rfl rfl
    | @admitPrepared engine pending message reply _ _ hpreparing _ _ =>
      exact .submitToEngine { w with preparing := none, engine := engine } (haction reply rfl)
        (open_preparing hpreparing (.inl rfl)) rfl rfl rfl
    | drainStop _ _ => exact hquiet rfl rfl rfl rfl
    | drained _ => exact hquiet rfl rfl rfl rfl
    | admitSubmission engineRequestId message reply _ _ hingress _ =>
      exact .admitSubmission (haction reply rfl) hingress
    | @startPreparation pending rest _ hidle hmedia _ =>
      refine .quiet ?_ rfl rfl rfl
      simp only [openRequests, pendingMedia, goto, hidle, hmedia, List.append_nil, List.map_append,
        List.map_cons, List.map_nil]
      exact ((List.perm_append_singleton _ _).append_left _).append_right _
    | noPreparation _ _ => exact hquiet rfl rfl rfl rfl
    | idle _ _ => exact hquiet rfl rfl rfl rfl
    | step _ _ _ => exact hquiet rfl rfl rfl rfl
    | @token request left right tokenId _ _ _ hactive =>
      have hnew : (w.emitToken request left right tokenId).openRequests.Perm
          ((request.submission, request.tokenIds ++ [tokenId]) ::
            { w with active := left ++ right }.openRequests) :=
        open_active (w := w.emitToken request left right tokenId) rfl
      exact .progress (open_active hactive) hnew rfl rfl rfl rfl rfl
    | noToken _ _ => exact hquiet rfl rfl rfl rfl
    | @finish request left right output outputs _ howner hactive hid =>
      have hmem : request ∈ w.active := hactive ▸ List.mem_append_right left List.mem_cons_self
      have htokens : output.tokenIds = request.tokenIds :=
        (hstreams (by rw [howner]; rfl)).output_eq hmem howner hid
      exact .ends { w with active := left ++ right } (open_active hactive) rfl (by simp [htokens])
        rfl rfl rfl rfl rfl rfl rfl
    | noFinish _ _ => exact hquiet rfl rfl rfl rfl
    | reported _ => exact hquiet rfl rfl rfl rfl
    | shutdown _ _ hdrain => exact .drain (fun _ => rfl) (by simp) hdrain
    | failAll message _ _ hdrain => exact .drain (fun _ => rfl) (by simp) hdrain
    | close _ _ => exact hquiet rfl rfl rfl rfl
    | @closePreparation pending discarded _ howner hpreparing =>
      have hempty := hdrained.closed (.inl howner)
      cases discarded with
      | true =>
        refine hquiet ?_ rfl rfl rfl
        simp [openRequests, pendingMedia, releaseAdmissionSlot, hpreparing]
      | false => simp [openRequests, pendingMedia, hpreparing] at hempty
    | exit _ _ => exact hquiet rfl rfl rfl rfl

/-! ### Ids, slots and the lock -/

/-- What every step of the owner leaves to clients. -/
structure OwnerFrame (w w' : ServingRuntime Id E) : Prop where
  submitting : w'.submitting = w.submitting
  known : w'.knownRequestIds ⊆ w.knownRequestIds
  slots : w'.unadmittedRequests ≤ w.unadmittedRequests
  nextUid : w'.nextUid = w.nextUid
  capacity : w'.ingressCapacity = w.ingressCapacity

theorem OwnerFrame.refl (w : ServingRuntime Id E) : OwnerFrame w w :=
  ⟨rfl, fun _ h => h, le_rfl, rfl, rfl⟩

theorem OwnerFrame.trans {v : ServingRuntime Id E} (h : OwnerFrame w v) (h' : OwnerFrame v w') :
    OwnerFrame w w' :=
  ⟨h'.1.trans h.1, fun _ hm => h.2 (h'.2 hm), h'.3.trans h.3, h'.4.trans h.4, h'.5.trans h.5⟩

namespace OwnerFrame

theorem publishTerminal (w : ServingRuntime Id E) (submission : Submission Id)
    (event : ServingEvent) : OwnerFrame w (w.publishTerminal submission event) :=
  ⟨rfl, fun _ hm => List.mem_of_mem_filter hm, le_rfl, rfl, rfl⟩

theorem release (w : ServingRuntime Id E) : OwnerFrame w w.releaseAdmissionSlot :=
  ⟨rfl, fun _ h => h, by simp [releaseAdmissionSlot], rfl, rfl⟩

theorem submitToEngine (w : ServingRuntime Id E) (submission : Submission Id) (engineRequestId : ℕ)
    (next : Owner Id) (message : String) (reply : EngineReply) :
    OwnerFrame w (w.submitToEngine submission engineRequestId next message reply) := by
  cases reply with
  | admitted => exact ⟨rfl, fun _ h => h, (release w).3, rfl, rfl⟩
  | rejected =>
    have hnote : OwnerFrame w (w.publish submission.uid (.accepted engineRequestId)) :=
      ⟨rfl, fun _ h => h, le_rfl, rfl, rfl⟩
    exact ((hnote.trans (publishTerminal _ submission (.done [] "rejected"))).trans
      (release _)).trans ⟨rfl, fun _ h => h, le_rfl, rfl, rfl⟩
  | invalid =>
    exact ((publishTerminal w submission (.error message)).trans (release _)).trans
      ⟨rfl, fun _ h => h, le_rfl, rfl, rfl⟩
  | raised =>
    exact ((publishTerminal w submission (.error message)).trans (release _)).trans
      ⟨rfl, fun _ h => h, le_rfl, rfl, rfl⟩
  | interrupted => exact (release w).trans ⟨rfl, fun _ h => h, le_rfl, rfl, rfl⟩

theorem admitSubmission (w : ServingRuntime Id E) (submission : Submission Id)
    (engineRequestId : ℕ) (engine : E) (next : Owner Id) (message : String)
    (reply : EngineReply) :
    OwnerFrame w (w.admitSubmission submission engineRequestId engine next message reply) := by
  have hquiet : ∀ v : ServingRuntime Id E, v.submitting = w.submitting →
      v.knownRequestIds = w.knownRequestIds → v.unadmittedRequests = w.unadmittedRequests →
      v.nextUid = w.nextUid → v.ingressCapacity = w.ingressCapacity → OwnerFrame w v :=
    fun v h₁ h₂ h₃ h₄ h₅ => ⟨h₁, h₂ ▸ fun _ h => h, h₃.le, h₄, h₅⟩
  simp only [ServingRuntime.admitSubmission]
  split
  · exact ((publishTerminal w submission _).trans (release _)).trans
      ⟨rfl, fun _ h => h, le_rfl, rfl, rfl⟩
  · split
    · exact ((publishTerminal w submission _).trans (release _)).trans
        ⟨rfl, fun _ h => h, le_rfl, rfl, rfl⟩
    · split
      · exact (hquiet { w with engine := engine } rfl rfl rfl rfl rfl).trans
          (submitToEngine _ submission engineRequestId next message reply)
      · split
        · exact ((publishTerminal w submission _).trans (release _)).trans
            ⟨rfl, fun _ h => h, le_rfl, rfl, rfl⟩
        · exact hquiet _ rfl rfl rfl rfl rfl
        · exact hquiet _ rfl rfl rfl rfl rfl

theorem drain {event : List ℕ → ServingEvent} {call : ℕ → E → E → Prop}
    (h : DrainStep event call w w') : OwnerFrame w w' := by
  cases h with
  | active _ _ => exact ⟨rfl, fun _ hm => List.mem_of_mem_filter hm, le_rfl, rfl, rfl⟩
  | waiting _ => exact ⟨rfl, fun _ hm => List.mem_of_mem_filter hm, (release w).3, rfl, rfl⟩
  | preparing _ => exact ⟨rfl, fun _ hm => List.mem_of_mem_filter hm, le_rfl, rfl, rfl⟩
  | ingress _ => exact ⟨rfl, fun _ hm => List.mem_of_mem_filter hm, (release w).3, rfl, rfl⟩

theorem cancel {cancellation : Cancellation Id} (h : CancelStep api cancellation w w') :
    OwnerFrame w w' := by
  cases h with
  | waiting _ _ => exact ⟨rfl, fun _ hm => List.mem_of_mem_filter hm, (release w).3, rfl, rfl⟩
  | preparing _ _ => exact ⟨rfl, fun _ hm => List.mem_of_mem_filter hm, le_rfl, rfl, rfl⟩
  | active _ _ _ => exact ⟨rfl, fun _ hm => List.mem_of_mem_filter hm, le_rfl, rfl, rfl⟩
  | refused _ _ _ => exact ⟨rfl, fun _ h => h, le_rfl, rfl, rfl⟩
  | remember _ _ => exact ⟨rfl, fun _ h => h, le_rfl, rfl, rfl⟩
  | unknown _ _ => exact .refl w

theorem step {action : Action Id} (h : OwnerStep api w action w') : OwnerFrame w w' := by
  have hquiet : ∀ v : ServingRuntime Id E, v.submitting = w.submitting →
      v.knownRequestIds = w.knownRequestIds → v.unadmittedRequests = w.unadmittedRequests →
      v.nextUid = w.nextUid → v.ingressCapacity = w.ingressCapacity → OwnerFrame w v :=
    fun v h₁ h₂ h₃ h₄ h₅ => ⟨h₁, h₂ ▸ fun _ h => h, h₃.le, h₄, h₅⟩
  cases h with
  | applyCancellation _ _ hcancel =>
    exact (cancel hcancel).trans ⟨rfl, fun _ h => h, le_rfl, rfl, rfl⟩
  | preparedDiscarded _ _ _ => exact ⟨rfl, fun _ h => h, (release w).3, rfl, rfl⟩
  | preparedStop _ _ _ _ =>
    exact ⟨rfl, fun _ hm => List.mem_of_mem_filter hm, (release w).3, rfl, rfl⟩
  | preparedRaised _ _ _ _ _ =>
    exact ⟨rfl, fun _ hm => List.mem_of_mem_filter hm, (release w).3, rfl, rfl⟩
  | @admitPrepared engine pending message reply _ _ _ _ _ =>
    exact (hquiet { w with preparing := none, engine := engine } rfl rfl rfl rfl rfl).trans
      (submitToEngine _ _ _ _ _ _)
  | admitSubmission engineRequestId message reply _ _ _ _ =>
    exact (hquiet w.popIngress rfl rfl rfl rfl rfl).trans (admitSubmission _ _ _ _ _ _ _)
  | finish _ _ _ _ => exact ⟨rfl, fun _ hm => List.mem_of_mem_filter hm, le_rfl, rfl, rfl⟩
  | shutdown _ _ hdrain => exact drain hdrain
  | failAll _ _ _ hdrain => exact drain hdrain
  | closePreparation _ _ _ => exact ⟨rfl, fun _ h => h, (release w).3, rfl, rfl⟩
  | _ => exact hquiet _ rfl rfl rfl rfl rfl

end OwnerFrame

theorem LockInvariant.step {action : Action Id} (h : LockInvariant w)
    (hstep : Step api w action w') : LockInvariant w' := by
  rcases hstep with hclient | howner
  · cases hclient with
    | submitBegin _ _ hknown hslots huid =>
      intro other hother
      obtain rfl := Option.some.inj hother
      exact ⟨huid, hknown, hslots⟩
    | enqueue _ _ => exact fun other hother => by cases hother
    | full _ _ => exact fun other hother => by cases hother
    | cancel _ => exact h
    | stop _ => exact h
  · have hf := OwnerFrame.step howner
    intro submission hsub
    obtain ⟨huid, hknown, hslots⟩ := h submission (hf.submitting ▸ hsub)
    exact ⟨by rw [hf.nextUid, huid], fun hmem => hknown (hf.known hmem),
      by rw [hf.capacity]; exact hf.slots.trans_lt hslots⟩

/-- Admission slots that are in use: queued submissions, media that waits for preparation,
and the preparation that runs, discarded or not. -/
def ServingRuntime.slots (w : ServingRuntime Id E) : ℕ :=
  w.ingress.length + w.mediaWaiting.length + w.preparing.toList.length

structure SlotInvariant (w : ServingRuntime Id E) : Prop where
  count : w.unadmittedRequests = w.slots
  bound : w.unadmittedRequests ≤ w.ingressCapacity

namespace SlotInvariant

/-- Slots and counter of a state, in one number. -/
def balance (w : ServingRuntime Id E) : ℤ := w.unadmittedRequests - w.slots

@[simp] theorem balance_publish (uid : ℕ) (event : ServingEvent) :
    balance (w.publish uid event) = balance w := rfl

@[simp] theorem balance_publishTerminal (event : ServingEvent) :
    balance (w.publishTerminal submission event) = balance w := rfl

@[simp] theorem balance_trackAdmitted (engineRequestId : ℕ) :
    balance (w.trackAdmitted submission engineRequestId) = balance w := rfl

@[simp] theorem balance_goto (owner : Owner Id) : balance (w.goto owner) = balance w := rfl

@[simp] theorem balance_fail : balance w.fail = balance w := rfl

@[simp] theorem balance_releaseAdmissionSlot : balance w.releaseAdmissionSlot = balance w - 1 := by
  simp only [balance, releaseAdmissionSlot, slots]
  omega

theorem balance_submitToEngine (w : ServingRuntime Id E) (submission : Submission Id)
    (engineRequestId : ℕ) (next : Owner Id) (message : String) (reply : EngineReply) :
    balance (w.submitToEngine submission engineRequestId next message reply) = balance w - 1 := by
  cases reply <;> simp [ServingRuntime.submitToEngine]

theorem balance_admitSubmission (w : ServingRuntime Id E) (submission : Submission Id)
    (engineRequestId : ℕ) (engine : E) (next : Owner Id) (message : String) {reply : EngineReply}
    (hreply : reply ≠ .interrupted) :
    balance (w.admitSubmission submission engineRequestId engine next message reply) =
      balance w - 1 := by
  have hended : ∀ event next, balance
      (((w.publishTerminal submission event).releaseAdmissionSlot).goto next) = balance w - 1 := by
    simp
  simp only [ServingRuntime.admitSubmission]
  split
  · exact hended (.done [] "cancelled") next
  · split
    · exact hended (.done [] "shutdown") next
    · split
      · exact balance_submitToEngine { w with engine := engine } submission engineRequestId next
          message reply
      · split
        · exact hended (.error message) .raising
        · exact absurd rfl hreply
        · simp only [balance, slots, goto, List.length_append, List.length_cons, List.length_nil]
          push_cast
          omega

theorem balance_drain {event : List ℕ → ServingEvent} {call : ℕ → E → E → Prop}
    (h : DrainStep event call w w') : balance w' = balance w := by
  cases h with
  | active _ _ => rfl
  | waiting hmedia =>
    simp only [balance, slots, discardWaiting, publishTerminal, forgetRequestId, publish,
      releaseAdmissionSlot, hmedia, List.nil_append, List.length_cons]
    push_cast
    omega
  | preparing hpreparing =>
    simp [balance, slots, discardPreparing, publishTerminal, forgetRequestId, publish, hpreparing]
  | ingress hingress =>
    simp only [balance, slots, popIngress, publishTerminal, forgetRequestId, publish,
      releaseAdmissionSlot, hingress, List.tail_cons, List.length_cons]
    push_cast
    omega

theorem balance_cancel {cancellation : Cancellation Id} (h : CancelStep api cancellation w w') :
    balance w' = balance w := by
  cases h with
  | waiting hmedia _ =>
    simp only [balance, slots, discardWaiting, publishTerminal, forgetRequestId, publish,
      releaseAdmissionSlot, recordCancel, hmedia, List.length_append, List.length_cons]
    push_cast
    omega
  | preparing hpreparing _ =>
    simp [balance, slots, discardPreparing, publishTerminal, forgetRequestId, publish, recordCancel,
      hpreparing]
  | _ => rfl

theorem balance_step {action : Action Id} (haction : Uninterrupted action)
    (h : OwnerStep api w action w') : balance w' = balance w := by
  cases h with
  | applyCancellation _ _ hcancel =>
    have hbalance := balance_cancel hcancel
    exact hbalance
  | preparedDiscarded _ _ hpreparing =>
    simp [balance, slots, releaseAdmissionSlot, goto, hpreparing]
    omega
  | preparedStop _ _ hpreparing _ =>
    simp [balance, slots, releaseAdmissionSlot, goto, hpreparing, discardPreparing, publishTerminal,
      forgetRequestId, publish]
    omega
  | preparedRaised _ _ _ hpreparing _ =>
    simp [balance, slots, releaseAdmissionSlot, goto, hpreparing, publishTerminal, forgetRequestId,
      publish]
    omega
  | admitPrepared message reply _ _ hpreparing _ _ =>
    rw [balance_submitToEngine]
    simp [balance, slots, hpreparing]
    omega
  | admitSubmission engineRequestId message reply _ _ hingress _ =>
    rw [balance_admitSubmission _ _ _ _ _ _ (haction reply rfl)]
    simp [balance, slots, popIngress, hingress]
    omega
  | startPreparation _ hidle hmedia _ =>
    simp [balance, slots, goto, hidle, hmedia]
    omega
  | shutdown _ _ hdrain => exact balance_drain hdrain
  | failAll _ _ _ hdrain => exact balance_drain hdrain
  | closePreparation _ _ hpreparing =>
    simp [balance, slots, releaseAdmissionSlot, hpreparing]
    omega
  | _ => rfl

theorem step {action : Action Id} (h : SlotInvariant w) (hlock : LockInvariant w)
    (haction : Uninterrupted action) (hstep : Step api w action w') : SlotInvariant w' := by
  rcases hstep with hclient | howner
  · cases hclient with
    | @enqueue submission hsubmitting _ =>
      have hslots := (hlock submission hsubmitting).2.2
      have hcount := h.count
      simp only [slots] at hcount
      refine ⟨?_, ?_⟩
      · simp only [ServingRuntime.enqueue, slots, List.length_append, List.length_cons,
          List.length_nil]
        push_cast at hcount ⊢
        omega
      · simp only [ServingRuntime.enqueue]
        omega
    | _ => exact ⟨h.count, h.bound⟩
  · have hbalance := balance_step haction howner
    have hframe := OwnerFrame.step howner
    have hcount := h.count
    have hbound := h.bound
    have hslots := hframe.slots
    simp only [balance] at hbalance
    exact ⟨by omega, by rw [hframe.capacity]; omega⟩

end SlotInvariant

/-- No submission enters the ingress queue after the owner has emptied it for good. -/
def EnqueuedInTime (w : ServingRuntime Id E) (action : Action Id) : Prop :=
  ∀ submission, action = .enqueue submission → w.owner ≠ .closing ∧ w.owner ≠ .exited

theorem Drained.step {action : Action Id} (h : Drained w) (haction : EnqueuedInTime w action)
    (hstep : Step api w action w') : Drained w' := by
  have hleft : ∀ {v : ServingRuntime Id E}, v.owner ≠ .closing → v.owner ≠ .exited → Drained v :=
    fun h₁ h₂ => ⟨fun ho => (ho.elim h₁ h₂).elim, fun ho => (h₂ ho).elim⟩
  have hkept : ∀ {v : ServingRuntime Id E} {owner : Owner Id}, w.owner = owner → owner ≠ .closing →
      owner ≠ .exited → v.owner = w.owner → Drained v :=
    fun ho h₁ h₂ hv => hleft (by rw [hv, ho]; exact h₁) (by rw [hv, ho]; exact h₂)
  rcases hstep with hclient | howner
  · cases hclient with
    | @enqueue submission hsubmitting _ =>
      obtain ⟨h₁, h₂⟩ := haction submission rfl
      exact hleft h₁ h₂
    | _ => exact ⟨h.closed, h.idle⟩
  · cases howner with
    | admitPrepared message reply _ _ _ _ _ =>
      cases reply <;> exact hleft (by simp [submitToEngine, goto]) (by simp [submitToEngine, goto])
    | @admitSubmission engine left submission rest engineRequestId message reply _ howner _ _ =>
      have hnext : ∀ v, v = w.popIngress.admitSubmission submission engineRequestId engine
          (.draining left) message reply → v.owner = .draining left ∨ v.owner = .raising := by
        rintro v rfl
        simp only [ServingRuntime.admitSubmission]
        split
        · exact .inl rfl
        · split
          · exact .inl rfl
          · split
            · cases reply <;> simp [submitToEngine, goto]
            · split
              · exact .inr rfl
              · exact .inr rfl
              · exact .inl rfl
      rcases hnext _ rfl with ho | ho
      · exact hleft (by rw [ho]; simp) (by rw [ho]; simp)
      · exact hleft (by rw [ho]; simp) (by rw [ho]; simp)
    | shutdown _ howner hdrain => cases hdrain <;> exact hkept howner (by simp) (by simp) rfl
    | failAll message _ howner hdrain => cases hdrain <;> exact hkept howner (by simp) (by simp) rfl
    | close _ hempty => exact ⟨fun _ => hempty, fun ho => by cases ho⟩
    | @closePreparation pending discarded _ howner hpreparing =>
      have hempty := h.closed (.inl howner)
      refine ⟨fun _ => ?_, fun _ => rfl⟩
      cases discarded with
      | true => simpa [openRequests, pendingMedia, releaseAdmissionSlot, hpreparing] using hempty
      | false => simp [openRequests, pendingMedia, hpreparing] at hempty
    | exit howner hidle => exact ⟨fun _ => h.closed (.inl howner), fun _ => hidle⟩
    | _ => exact hleft (by simp [goto, ServingRuntime.fail]) (by simp [goto, ServingRuntime.fail])

/-! ### Terminal events -/

/-- All that the runs of the runtime keep about handles. -/
structure Invariant (api : ServingEngine E) (w : ServingRuntime Id E) : Prop where
  handles : HandleInvariant w
  lock : LockInvariant w
  slots : SlotInvariant w
  drained : Drained w
  streams : StreamInvariant api w

theorem Invariant.initial {engine : E} {past : List StepResult} (h : api.Holds past engine)
    (ingressCapacity : ℕ) :
    Invariant api (ServingRuntime.initial Id ingressCapacity engine past) where
  handles := by constructor <;> simp [ServingRuntime.initial, openRequests, pendingMedia]
  lock := fun submission hsub => by cases hsub
  slots :=
    ⟨by simp [ServingRuntime.initial, ServingRuntime.slots], by simp [ServingRuntime.initial]⟩
  drained := ⟨fun ho => by simp [ServingRuntime.initial] at ho,
    fun ho => by simp [ServingRuntime.initial] at ho⟩
  streams := fun _ => ⟨h, by simp [ServingRuntime.initial], by simp [ServingRuntime.initial],
    by simp [ServingRuntime.initial], by simp [ServingRuntime.initial, Owner.outputs]⟩

/-- The steps after which every request is still answered: no enqueue behind the last look
at the ingress queue, and no interrupted engine call. -/
def Orderly (w : ServingRuntime Id E) (action : Action Id) : Prop :=
  EnqueuedInTime w action ∧ Uninterrupted action

theorem Invariant.step {action : Action Id} (h : Invariant api w) (hstep : Step api w action w')
    (haction : Orderly w action) : Invariant api w' where
  handles := h.handles.step (hstep.handleStep h.lock h.drained h.streams haction.2)
  lock := h.lock.step hstep
  slots := h.slots.step h.lock haction.2 hstep
  drained := h.drained.step haction.1 hstep
  streams := h.streams.step hstep

theorem Invariant.run (h : Invariant api w) (hrun : Run api Orderly w w') : Invariant api w' := by
  induction hrun with
  | refl => exact h
  | tail _ hlast ih =>
    obtain ⟨action, hstep, haction⟩ := hlast
    exact ih.step hstep haction

/-- What clients of the runtime may rely on: an accepted submission waits in one of the
runtime's queues without a terminal event or has exactly one, as its last event, whose
tokens are those published; after the owner's exit every one has; and no admission slot is
taken once nothing is open, but that of a discarded preparation that still runs. -/
structure Serves (w : ServingRuntime Id E) : Prop where
  once : ∀ submission ∈ w.accepted,
    (∃ tokens, (submission, tokens) ∈ w.openRequests ∧
      Unanswered (w.events submission.uid) tokens) ∨
      (submission ∉ w.outstanding ∧ Answered (w.events submission.uid))
  exited : w.owner = .exited → ∀ submission ∈ w.accepted, Answered (w.events submission.uid)
  slots : 0 ≤ w.unadmittedRequests ∧ w.unadmittedRequests ≤ w.ingressCapacity
  released : w.openRequests = [] → w.unadmittedRequests = w.preparing.toList.length
  releasedAtExit : w.owner = .exited → w.unadmittedRequests = 0

theorem Invariant.serves (h : Invariant api w) : Serves w := by
  have hcount := h.slots.count
  have hbound := h.slots.bound
  have hreleased : w.openRequests = [] → w.unadmittedRequests = w.preparing.toList.length := by
    intro hopen
    simp only [openRequests, List.append_eq_nil_iff, List.map_eq_nil_iff] at hopen
    obtain ⟨⟨hingress, hmedia⟩, -⟩ := hopen
    simp only [pendingMedia, List.append_eq_nil_iff] at hmedia
    simp [hcount, ServingRuntime.slots, hingress, hmedia.1]
  refine ⟨fun submission hsub => ?_, fun hexit submission hsub => ?_, ⟨by omega, hbound⟩,
    hreleased,
    fun hexit => by simp [hreleased (h.drained.closed (.inr hexit)), h.drained.idle hexit]⟩
  · by_cases hout : submission ∈ w.outstanding
    · obtain ⟨⟨_, tokens⟩, hitem, rfl⟩ := List.mem_map.mp hout
      exact .inl ⟨tokens, hitem, h.handles.unanswered _ hitem⟩
    · exact .inr ⟨hout, h.handles.answered submission hsub hout⟩
  · refine h.handles.answered submission hsub ?_
    simp [h.drained.closed (.inr hexit)]

/-- In every run whose steps are orderly, whatever the interleaving of clients, owner and
engine steps, the runtime serves its clients. -/
theorem serves_of_orderly {H : Type} [DecidableEq H] [Digests H] {config : LLMEngineConfig}
    {d : LLMEngine H} {past : List StepResult} (hd : LLMEngine.Reached config past d)
    {ingressCapacity : ℕ} {w : ServingRuntime Id (LLMEngine H)}
    (hrun : Run (LLMEngine.servingEngine H config) Orderly (.initial Id ingressCapacity d past) w) :
    Serves w :=
  ((Invariant.initial hd.loopKept ingressCapacity).run hrun).serves

theorem Run.client {condition : ServingRuntime Id E → Action Id → Prop}
    {v v' : ServingRuntime Id E} {action : Action Id} (hrun : Run api condition w v)
    (hstep : ClientStep v action v') (haction : condition v action) : Run api condition w v' :=
  hrun.tail ⟨action, .inl hstep, haction⟩

theorem Run.owner {condition : ServingRuntime Id E → Action Id → Prop}
    {v v' : ServingRuntime Id E} {action : Action Id} (hrun : Run api condition w v)
    (hstep : OwnerStep api v action v') (haction : condition v action) :
    Run api condition w v' :=
  hrun.tail ⟨action, .inr hstep, haction⟩

theorem orderly_other (w : ServingRuntime Id E) : Orderly w .other :=
  ⟨(fun _ h => by cases h), (fun _ h => by cases h)⟩

theorem ServingRuntime.IsHealthy.of_owner (owner : Owner Id) (howner : w.owner = owner)
    (hrunning : owner ≠ .starting ∧ owner ≠ .exited) (hfailure : w.failure = false)
    (hstop : w.stopRequested = false) : w.IsHealthy :=
  ⟨howner ▸ hrunning.1, hfailure, howner ▸ hrunning.2, hstop⟩

/-- The hand-over of the first request raises. After its slot is released and before the failure
is set, a second `submit` passes its checks; it enqueues behind the last look at the ingress
queue, and the submission stays there for ever. -/
theorem accepted_unanswered : ∃ w : ServingRuntime ℕ (LLMEngine ℕ),
    Run (LLMEngine.servingEngine ℕ LLMEngine.cooperative) (fun _ _ => True)
      (.initial ℕ 1 LLMEngine.constructed []) w ∧ w.owner = .exited ∧
      (∃ submission ∈ w.accepted, w.events submission.uid = []) ∧ w.unadmittedRequests = 1 ∧
      ¬ Serves w := by
  generalize LLMEngine.constructed = fresh
  let api := LLMEngine.servingEngine ℕ LLMEngine.cooperative
  let first : Submission ℕ := ⟨0, 0, true⟩
  let second : Submission ℕ := ⟨1, 1, true⟩
  let init : ServingRuntime ℕ (LLMEngine ℕ) := .initial ℕ 1 fresh []
  let queued : ServingRuntime ℕ (LLMEngine ℕ) :=
    { init with
      owner := .head, knownRequestIds := [0], unadmittedRequests := 1, ingress := [first],
      nextUid := 1, accepted := [first] }
  let raising : ServingRuntime ℕ (LLMEngine ℕ) :=
    { init with
      owner := .raising, nextUid := 1, accepted := [first],
      events := Function.update (fun _ => []) 0 [.error "RuntimeError"] }
  let abandoned : ServingRuntime ℕ (LLMEngine ℕ) :=
    { raising with
      owner := .closing, failure := true, knownRequestIds := [1], unadmittedRequests := 1,
      ingress := [second], nextUid := 2, accepted := [first, second] }
  have hbegin : Run api (fun _ _ => True) init
      { init with owner := .head, submitting := some first } :=
    (Run.owner .refl (.ready rfl) trivial).client
      (.submitBegin rfl (.of_owner .head rfl (by decide) rfl rfl) List.not_mem_nil
        (show (0 : ℤ) < 1 by decide) rfl) trivial
  have hqueued : Run api (fun _ _ => True) init queued :=
    hbegin.client (.enqueue rfl Nat.one_pos) trivial
  have hdraining : Run api (fun _ _ => True) init { queued with owner := .draining 1 } :=
    ((hqueued.owner (.headLoop rfl rfl) trivial).owner (.cancelledFirst rfl) trivial).owner
      (.notPrepared rfl) trivial
  have hraises : OwnerStep api { queued with owner := .draining 1 } (.reply .raised) raising :=
    @OwnerStep.admitSubmission ℕ _ _ api { queued with owner := .draining 1 }
      fresh 0 first [] 0 "RuntimeError" .raised rfl rfl rfl fun _ => trivial
  have hraising : Run api (fun _ _ => True) init raising := hdraining.owner hraises trivial
  have hsecond : Run api (fun _ _ => True) init { raising with submitting := some second } :=
    hraising.client
      (.submitBegin rfl (.of_owner .raising rfl (by decide) rfl rfl) List.not_mem_nil
        (show (0 : ℤ) < 1 by decide) rfl) trivial
  have hclosing : Run api (fun _ _ => True) init
      { raising with submitting := some second, owner := .closing, failure := true } :=
    (hsecond.owner (.loopFails rfl) trivial).owner (.close (.inr rfl) rfl) trivial
  have habandoned : Run api (fun _ _ => True) init abandoned :=
    hclosing.client (.enqueue rfl Nat.one_pos) trivial
  have hexited := habandoned.owner (.exit rfl rfl) trivial
  refine ⟨_, hexited, rfl, ⟨second, List.mem_cons_of_mem _ List.mem_cons_self, rfl⟩, rfl, ?_⟩
  intro hserves
  have hreleased := hserves.releasedAtExit rfl
  simp [goto, abandoned] at hreleased

/-- A text request that is admitted, gets its only token and finishes. -/
theorem serves_of_orderly_text : ∃ w : ServingRuntime ℕ (LLMEngine ℕ),
    w.events 0 = [.accepted 0, .token 9, .done [9] "length"] ∧ Serves w := by
  obtain ⟨asked, replied, result, hsubmit, hwork, hstep, hmembers, houtputs⟩ :=
    LLMEngine.oneToken_served
  have hreached : LLMEngine.Reached LLMEngine.cooperative [] LLMEngine.constructed :=
    ⟨_, _, _, _, _, _, _, _, .refl _⟩
  generalize LLMEngine.constructed = fresh at hsubmit hreached
  let api := LLMEngine.servingEngine ℕ LLMEngine.cooperative
  let submission : Submission ℕ := ⟨0, 0, true⟩
  let init : ServingRuntime ℕ (LLMEngine ℕ) := .initial ℕ 1 fresh []
  let queued : ServingRuntime ℕ (LLMEngine ℕ) :=
    { init with
      owner := .head, knownRequestIds := [0], unadmittedRequests := 1, ingress := [submission],
      nextUid := 1, accepted := [submission] }
  let admitted : ServingRuntime ℕ (LLMEngine ℕ) :=
    { queued with
      unadmittedRequests := 0, ingress := [], active := [⟨submission, 0, []⟩],
      engine := asked, owner := .draining 0,
      events := Function.update (fun _ => []) 0 [.accepted 0] }
  have hbegin : Run api Orderly init { init with owner := .head, submitting := some submission } :=
    (Run.owner .refl (.ready rfl) (orderly_other _)).client
      (.submitBegin rfl (.of_owner .head rfl (by decide) rfl rfl) List.not_mem_nil
        (show (0 : ℤ) < 1 by decide) rfl)
      (orderly_other _)
  have hqueued : Run api Orderly init queued :=
    hbegin.client (.enqueue rfl Nat.one_pos)
      ⟨fun _ _ => show Owner.head ≠ .closing ∧ Owner.head ≠ .exited by decide,
        (fun _ h => by cases h)⟩
  have hdraining : Run api Orderly init { queued with owner := .draining 1 } :=
    ((hqueued.owner (.headLoop rfl rfl) (orderly_other _)).owner
      (.cancelledFirst rfl) (orderly_other _)).owner (.notPrepared rfl) (orderly_other _)
  have hadmit : OwnerStep api { queued with owner := .draining 1 } (.reply .admitted) admitted :=
    @OwnerStep.admitSubmission ℕ _ _ api { queued with owner := .draining 1 } asked 0
      submission [] 0 "" .admitted rfl rfl rfl fun _ => hsubmit
  have hadmitted : Run api Orderly init admitted :=
    hdraining.owner hadmit ⟨(fun _ h => by cases h), (fun _ h => by cases h; decide)⟩
  have hstepping : Run api Orderly init { admitted with owner := .stepping } :=
    ((hadmitted.owner (.drained rfl) (orderly_other _)).owner
      (.noPreparation rfl (.inr (.inl rfl))) (orderly_other _)).owner
        (.cancelledSecond rfl) (orderly_other _)
  have hreporting := hstepping.owner (.step rfl hwork hstep) (orderly_other _)
  rw [hmembers, houtputs] at hreporting
  have htoken := hreporting.owner
    (@OwnerStep.token ℕ _ _ _ _ ⟨submission, 0, []⟩ [] [] 9 [] _ rfl rfl) (orderly_other _)
  have hfinished := htoken.owner
    (@OwnerStep.finish ℕ _ _ _ _ ⟨submission, 0, [9]⟩ [] [] _ [] rfl rfl rfl rfl) (orderly_other _)
  exact ⟨_, by rfl, serves_of_orderly hreached hfinished⟩

end PrismInfer.Serving
