import PrismInfer.ServingRuntimeInvariant

/-!
# Whom a cancellation cancels

A cancellation travels under a request id, and the id is free again once its submission is
answered. A cancellation that waits meanwhile, in the queue or in the owner's hands, finds
whoever holds the id when it is applied.
-/
set_option linter.unusedSectionVars false

namespace PrismInfer.Serving

open ServingRuntime

variable {Id E : Type} [DecidableEq Id] {api : ServingEngine E}
variable {w w' : ServingRuntime Id E} {submission : Submission Id}

theorem ServingRuntime.outstanding_perm {v : ServingRuntime Id E} {tokens : List ℕ}
    (h : w.openRequests.Perm ((submission, tokens) :: v.openRequests)) :
    w.outstanding.Perm (submission :: v.outstanding) :=
  h.map Prod.fst

/-- Cancellations that may still end a submission. -/
def ServingRuntime.aimed (w : ServingRuntime Id E) : List (Cancellation Id) :=
  w.travelling ++ w.cancelledBeforeAdmission

/-- What one step of the owner does to ids, cancellations and their effects. -/
inductive IdStep (w w' : ServingRuntime Id E) : Prop
  | keep (hopen : w'.outstanding.Subperm w.outstanding)
      (hknown : w'.knownRequestIds = w.knownRequestIds) (htravel : w'.travelling ⊆ w.travelling)
      (hremembered : ∀ cancellation ∈ w'.cancelledBeforeAdmission,
        cancellation ∈ w.cancelledBeforeAdmission ∨
          cancellation ∈ w.travelling ∧ cancellation.requestId ∈ w.knownRequestIds)
      (heffects : w'.cancelEffects = w.cancelEffects)
  | forget {submission : Submission Id}
      (hopen : w.outstanding.Perm (submission :: w'.outstanding))
      (hknown : w'.knownRequestIds = w.knownRequestIds.filter (· ≠ submission.requestId))
      (htravel : w'.travelling ⊆ w.travelling)
      (hremembered : w'.cancelledBeforeAdmission =
        w.cancelledBeforeAdmission.filter (·.requestId ≠ submission.requestId))
      (heffects : w'.cancelEffects = w.cancelEffects ∨
        ∃ cancellation ∈ w.aimed, cancellation.requestId = submission.requestId ∧
          w'.cancelEffects = w.cancelEffects ++ [(cancellation.target, submission.uid)])

/-- Ids are held by at most one submission, and what travels under an id was meant for it. -/
structure IdInvariant (w : ServingRuntime Id E) : Prop where
  distinct : (w.outstanding.map (·.requestId)).Nodup
  known : ∀ submission ∈ w.outstanding, submission.requestId ∈ w.knownRequestIds
  rememberedKnown : ∀ cancellation ∈ w.cancelledBeforeAdmission,
    cancellation.requestId ∈ w.knownRequestIds
  aimed : ∀ cancellation ∈ w.aimed, ∀ submission ∈ w.outstanding,
    submission.requestId = cancellation.requestId → cancellation.target = some submission.uid
  hit : ∀ effect ∈ w.cancelEffects, effect.1 = some effect.2

namespace IdInvariant

theorem step (h : IdInvariant w) (hstep : IdStep w w') : IdInvariant w' := by
  cases hstep with
  | keep hopen hknown htravel hremembered heffects =>
    have hsub := hopen.subset
    refine ⟨?_, fun submission hsub' => hknown ▸ h.known submission (hsub hsub'), ?_, ?_,
      heffects ▸ h.hit⟩
    · obtain ⟨_, hperm, hsublist⟩ := hopen
      exact (hperm.map _).nodup_iff.mp (h.distinct.sublist (hsublist.map _))
    · intro cancellation hmem
      rw [hknown]
      rcases hremembered cancellation hmem with hold | ⟨-, hid⟩
      · exact h.rememberedKnown cancellation hold
      · exact hid
    · intro cancellation hmem submission hsub' hid
      refine h.aimed cancellation ?_ submission (hsub hsub') hid
      rcases List.mem_append.mp hmem with htravelling | hkept
      · exact List.mem_append_left _ (htravel htravelling)
      · rcases hremembered cancellation hkept with hold | ⟨htravelling, -⟩
        · exact List.mem_append_right _ hold
        · exact List.mem_append_left _ htravelling
  | @forget gone hopen hknown htravel hremembered heffects =>
    have hmem : ∀ {submission}, submission ∈ w'.outstanding → submission ∈ w.outstanding :=
      fun hsub => hopen.mem_iff.mpr (List.mem_cons_of_mem _ hsub)
    have hgone : gone ∈ w.outstanding := hopen.mem_iff.mpr List.mem_cons_self
    have hdistinct : (gone.requestId :: w'.outstanding.map (·.requestId)).Nodup :=
      (hopen.map _).nodup_iff.mp h.distinct
    refine ⟨(List.nodup_cons.mp hdistinct).2, fun submission hsub => ?_, ?_, ?_, ?_⟩
    · have hne : submission.requestId ≠ gone.requestId := fun he =>
        (List.nodup_cons.mp hdistinct).1 (he ▸ List.mem_map_of_mem hsub)
      rw [hknown]
      exact List.mem_filter.mpr ⟨h.known submission (hmem hsub), by simpa using hne⟩
    · intro cancellation hc
      rw [hremembered] at hc
      obtain ⟨hc, hne⟩ := List.mem_filter.mp hc
      rw [hknown]
      exact List.mem_filter.mpr ⟨h.rememberedKnown cancellation hc, hne⟩
    · intro cancellation hc submission hsub hid
      refine h.aimed cancellation ?_ submission (hmem hsub) hid
      rcases List.mem_append.mp hc with htravelling | hkept
      · exact List.mem_append_left _ (htravel htravelling)
      · rw [hremembered] at hkept
        exact List.mem_append_right _ (List.mem_of_mem_filter hkept)
    · rcases heffects with hsame | ⟨cancellation, hc, hid, hnew⟩
      · exact hsame ▸ h.hit
      · rw [hnew]
        intro effect heffect
        rcases List.mem_append.mp heffect with hold | hlast
        · exact h.hit effect hold
        · obtain rfl := List.mem_singleton.mp hlast
          exact h.aimed cancellation hc gone hgone hid.symm

end IdInvariant

namespace IdStep

theorem quiet (hopen : w'.openRequests.Perm w.openRequests)
    (hknown : w'.knownRequestIds = w.knownRequestIds) (htravel : w'.travelling ⊆ w.travelling)
    (hremembered : w'.cancelledBeforeAdmission = w.cancelledBeforeAdmission)
    (heffects : w'.cancelEffects = w.cancelEffects) : IdStep w w' :=
  .keep (hopen.map _).subperm hknown htravel (hremembered ▸ fun _ h => .inl h) heffects

/-- The end of a request: `mid` is the state without it. -/
theorem ends {tokens : List ℕ} (mid : ServingRuntime Id E)
    (hopen : w.openRequests.Perm ((submission, tokens) :: mid.openRequests))
    (hopen' : w'.openRequests = mid.openRequests)
    (hknown : w'.knownRequestIds = w.knownRequestIds.filter (· ≠ submission.requestId))
    (htravel : w'.travelling ⊆ w.travelling)
    (hremembered : w'.cancelledBeforeAdmission =
      w.cancelledBeforeAdmission.filter (·.requestId ≠ submission.requestId))
    (heffects : w'.cancelEffects = w.cancelEffects) : IdStep w w' := by
  have hout := outstanding_perm (hopen' ▸ hopen)
  exact .forget hout hknown htravel hremembered (.inl heffects)

/-- The end of a request by a cancellation. -/
theorem cancels {tokens : List ℕ} {cancellation : Cancellation Id} (mid : ServingRuntime Id E)
    (hopen : w.openRequests.Perm ((submission, tokens) :: mid.openRequests))
    (hopen' : w'.openRequests = mid.openRequests)
    (hknown : w'.knownRequestIds = w.knownRequestIds.filter (· ≠ submission.requestId))
    (htravel : w'.travelling ⊆ w.travelling)
    (hremembered : w'.cancelledBeforeAdmission =
      w.cancelledBeforeAdmission.filter (·.requestId ≠ submission.requestId))
    (hmem : cancellation ∈ w.aimed) (hid : cancellation.requestId = submission.requestId)
    (heffects : w'.cancelEffects =
      w.cancelEffects ++ [(cancellation.target, submission.uid)]) : IdStep w w' := by
  have hout := outstanding_perm (hopen' ▸ hopen)
  exact .forget hout hknown htravel hremembered (.inr ⟨cancellation, hmem, hid, heffects⟩)

theorem drain {event : List ℕ → ServingEvent} {call : ℕ → E → E → Prop}
    (h : DrainStep event call w w') : IdStep w w' := by
  have hsame : w.travelling ⊆ w.travelling := fun _ h => h
  cases h with
  | @active engine request rest hactive _ =>
    have hactive : w.active = [] ++ request :: rest := hactive
    exact ends { w with active := [] ++ rest } (open_active hactive) rfl rfl hsame rfl rfl
  | @waiting pending rest hmedia =>
    have hmedia : w.mediaWaiting = [] ++ pending :: rest := hmedia
    exact ends { w with mediaWaiting := [] ++ rest } (open_waiting hmedia) rfl rfl hsame rfl rfl
  | @preparing pending hpreparing =>
    exact ends { w with preparing := some (pending, true) }
      (open_preparing hpreparing (.inr rfl)) rfl rfl hsame rfl rfl
  | @ingress submission rest hingress =>
    exact ends w.popIngress (.of_eq (open_ingress hingress)) rfl rfl hsame rfl rfl

/-- The cancellation in the owner's hands is applied. -/
theorem cancel {cancellation : Cancellation Id} {left : ℕ} {beforeStep : Bool}
    (howner : w.owner = .applying cancellation left beforeStep)
    (h : CancelStep api cancellation w w') :
    IdStep w (w'.goto (.cancelling left beforeStep)) := by
  have hheld : cancellation ∈ w.travelling := by simp [travelling, howner, Owner.held]
  have hmem : cancellation ∈ w.aimed := List.mem_append_left _ hheld
  have htravel : ∀ {v : ServingRuntime Id E}, v.cancellations = w.cancellations →
      (v.goto (.cancelling left beforeStep)).travelling ⊆ w.travelling := by
    intro v hqueue
    simp [travelling, goto, Owner.held, hqueue]
  cases h with
  | @waiting pending left right hmedia hid =>
    exact cancels { w with mediaWaiting := left ++ right } (open_waiting hmedia) rfl rfl
      (htravel rfl) rfl hmem hid.symm rfl
  | @preparing pending hpreparing hid =>
    exact cancels { w with preparing := some (pending, true) }
      (open_preparing hpreparing (.inr rfl)) rfl rfl (htravel rfl) rfl hmem hid.symm rfl
  | @active engine request left right hactive hid _ =>
    exact cancels { w with active := left ++ right } (open_active hactive) rfl rfl (htravel rfl)
      rfl hmem hid.symm rfl
  | refused _ _ _ => exact quiet (.refl _) rfl (htravel rfl) rfl rfl
  | remember hid _ =>
    refine .keep (List.Subperm.refl _) rfl (htravel rfl) (fun other hother => ?_) rfl
    rcases List.mem_append.mp hother with hold | hlast
    · exact .inl hold
    · obtain rfl := List.mem_singleton.mp hlast
      exact .inr ⟨hheld, hid⟩
  | unknown _ _ => exact quiet (.refl _) rfl (htravel rfl) rfl rfl

/-- What the owner holds is dropped or kept. -/
theorem travelling_subset (hqueue : w'.cancellations = w.cancellations)
    (hheld : w'.owner.held = []) : w'.travelling ⊆ w.travelling := by
  simp [travelling, hheld, hqueue]

/-- The hand-over to the engine: the submission has left the queues already. -/
theorem submitToEngine {engineRequestId : ℕ} {next : Owner Id} {message : String}
    {reply : EngineReply} (mid : ServingRuntime Id E) (hnext : next.held = [])
    (hopen : w.openRequests.Perm ((submission, []) :: mid.openRequests))
    (hknown : mid.knownRequestIds = w.knownRequestIds)
    (hqueue : mid.cancellations = w.cancellations)
    (hremembered : mid.cancelledBeforeAdmission = w.cancelledBeforeAdmission)
    (heffects : mid.cancelEffects = w.cancelEffects) :
    IdStep w (mid.submitToEngine submission engineRequestId next message reply) := by
  have htravel : ∀ reply,
      (mid.submitToEngine submission engineRequestId next message reply).travelling ⊆
        w.travelling := by
    intro reply
    cases reply with
    | admitted => exact travelling_subset hqueue hnext
    | rejected => exact travelling_subset hqueue hnext
    | invalid => exact travelling_subset hqueue hnext
    | raised => exact travelling_subset hqueue rfl
    | interrupted => exact travelling_subset hqueue rfl
  have hended : reply ≠ .admitted → reply ≠ .interrupted →
      IdStep w (mid.submitToEngine submission engineRequestId next message reply) := by
    intro hadmitted hinterrupted
    refine ends mid hopen (by cases reply <;> simp_all [ServingRuntime.submitToEngine]) ?_
      (htravel reply) ?_ ?_
    all_goals
      cases reply <;> simp_all [ServingRuntime.submitToEngine, publishTerminal, forgetRequestId,
        publish, releaseAdmissionSlot, goto]
  cases reply with
  | admitted =>
    have hadmitted := open_admitted (w := mid) ⟨submission, engineRequestId, []⟩
    exact quiet (hadmitted.trans hopen.symm) hknown (htravel .admitted) hremembered heffects
  | interrupted =>
    exact .keep (List.subperm_cons_self.trans (outstanding_perm hopen).symm.subperm) hknown
      (htravel .interrupted) (fun _ h => .inl (hremembered ▸ h)) heffects
  | _ => exact hended (by simp) (by simp)

theorem admitSubmission {engineRequestId : ℕ} {engine : E} {next : Owner Id} {message : String}
    {reply : EngineReply} {rest : List (Submission Id)} (hnext : next.held = [])
    (hingress : w.ingress = submission :: rest) :
    IdStep w
      (w.popIngress.admitSubmission submission engineRequestId engine next message reply) := by
  have hopen := List.Perm.of_eq (open_ingress hingress)
  simp only [ServingRuntime.admitSubmission]
  split
  · rename_i cancellation hfound
    have hmem : cancellation ∈ w.aimed :=
      List.mem_append_right _ (List.mem_of_find?_eq_some hfound)
    have hid : cancellation.requestId = submission.requestId := by
      simpa using List.find?_some hfound
    exact cancels w.popIngress hopen rfl rfl (travelling_subset rfl hnext) rfl hmem hid rfl
  · split
    · exact ends w.popIngress hopen rfl rfl (travelling_subset rfl hnext) rfl rfl
    · split
      · exact submitToEngine { w.popIngress with engine := engine } hnext hopen rfl rfl rfl rfl
      · split
        · exact ends w.popIngress hopen rfl rfl (travelling_subset rfl rfl) rfl rfl
        · exact .keep (List.subperm_cons_self.trans (outstanding_perm hopen).symm.subperm) rfl
            (travelling_subset rfl rfl) (fun _ h => .inl h) rfl
        · exact quiet ((open_queued ⟨submission, engineRequestId⟩).trans hopen.symm) rfl
            (travelling_subset rfl hnext) rfl rfl

theorem owner {action : Action Id} (h : OwnerStep api w action w') : IdStep w w' := by
  have hquiet : ∀ {u : ServingRuntime Id E}, u.openRequests = w.openRequests →
      u.knownRequestIds = w.knownRequestIds → u.cancellations = w.cancellations →
      u.owner.held = [] → u.cancelledBeforeAdmission = w.cancelledBeforeAdmission →
      u.cancelEffects = w.cancelEffects → IdStep w u :=
    fun ho hknown hqueue hheld => quiet (.of_eq ho) hknown (travelling_subset hqueue hheld)
  cases h with
  | @popCancellation left beforeStep cancellation rest howner hqueue =>
    refine quiet (.refl _) rfl (fun other hother => ?_) rfl rfl
    simp only [travelling, goto, Owner.held, hqueue] at hother ⊢
    simp only [List.mem_append, List.mem_cons, List.not_mem_nil, or_false] at hother ⊢
    tauto
  | applyCancellation _ howner hcancel => exact cancel howner hcancel
  | preparedDiscarded _ _ hpreparing =>
    exact hquiet (by simp [openRequests, pendingMedia, releaseAdmissionSlot, goto, hpreparing])
      rfl rfl rfl rfl rfl
  | @preparedStop pending _ _ hpreparing _ =>
    exact ends { w with preparing := none } (open_preparing hpreparing (.inl rfl)) rfl rfl
      (travelling_subset rfl rfl) rfl rfl
  | @preparedRaised pending message _ _ hpreparing _ =>
    exact ends { w with preparing := none } (open_preparing hpreparing (.inl rfl)) rfl rfl
      (travelling_subset rfl rfl) rfl rfl
  | @admitPrepared engine pending message reply _ _ hpreparing _ _ =>
    exact submitToEngine { w with preparing := none, engine := engine } rfl
      (open_preparing hpreparing (.inl rfl)) rfl rfl rfl rfl
  | admitSubmission engineRequestId message reply _ _ hingress _ =>
    exact admitSubmission rfl hingress
  | @startPreparation pending rest _ hidle hmedia _ =>
    refine quiet ?_ rfl (travelling_subset rfl rfl) rfl rfl
    simp only [openRequests, pendingMedia, goto, hidle, hmedia, List.append_nil, List.map_append,
      List.map_cons, List.map_nil]
    exact ((List.perm_append_singleton _ _).append_left _).append_right _
  | @token request left right tokenId _ _ _ hactive =>
    have hold := outstanding_perm (open_active hactive)
    have hnew : (w.emitToken request left right tokenId).openRequests.Perm
        ((request.submission, request.tokenIds ++ [tokenId]) ::
          { w with active := left ++ right }.openRequests) :=
      open_active (w := w.emitToken request left right tokenId) rfl
    exact .keep ((outstanding_perm hnew).trans hold.symm).subperm rfl (travelling_subset rfl rfl)
      (fun _ h => .inl h) rfl
  | @finish request left right output outputs _ _ hactive _ =>
    exact ends { w with active := left ++ right } (open_active hactive) rfl rfl
      (travelling_subset rfl rfl) rfl rfl
  | shutdown _ _ hdrain => exact drain hdrain
  | failAll message _ _ hdrain => exact drain hdrain
  | @closePreparation pending discarded _ _ hpreparing =>
    have hsub : ({ w with preparing := none }.releaseAdmissionSlot).outstanding.Subperm
        w.outstanding := by
      cases discarded with
      | true =>
        refine (List.Perm.of_eq ?_).subperm
        simp [outstanding, openRequests, pendingMedia, releaseAdmissionSlot, hpreparing]
      | false =>
        have hout := outstanding_perm (open_preparing hpreparing (.inl rfl))
        exact List.subperm_cons_self.trans hout.symm.subperm
    exact .keep hsub rfl (fun _ h => h) (fun _ h => .inl h) rfl
  | _ => exact hquiet rfl rfl rfl rfl rfl rfl

end IdStep

/-- No submission takes an id under which a cancellation waits, in the queue or in the owner's
hands. -/
def NoCancellationTravels (w : ServingRuntime Id E) (action : Action Id) : Prop :=
  ∀ submission, action = .enqueue submission →
    ∀ cancellation ∈ w.travelling, cancellation.requestId ≠ submission.requestId

namespace IdInvariant

theorem enqueue (h : IdInvariant w) (hlock : LockInvariant w)
    (hsub : w.submitting = some submission)
    (htravel : ∀ cancellation ∈ w.travelling,
      cancellation.requestId ≠ submission.requestId) :
    IdInvariant (w.enqueue submission) := by
  obtain ⟨-, hfresh, -⟩ := hlock submission hsub
  have hopen : (w.enqueue submission).openRequests.Perm ((submission, []) :: w.openRequests) := by
    simp only [openRequests, pendingMedia, ServingRuntime.enqueue, List.map_append, List.map_cons,
      List.map_nil, List.append_assoc, List.cons_append, List.nil_append]
    exact List.perm_middle
  have hout := outstanding_perm hopen
  have hnew : submission.requestId ∉ w.outstanding.map (·.requestId) := fun hmem => by
    obtain ⟨other, hother, hid⟩ := List.mem_map.mp hmem
    exact hfresh (hid ▸ h.known other hother)
  refine ⟨?_, fun other hother => ?_, fun cancellation hc => ?_,
    fun cancellation hc other hother hid => ?_, h.hit⟩
  · exact (hout.map _).nodup_iff.mpr (List.nodup_cons.mpr ⟨hnew, h.distinct⟩)
  · rcases List.mem_cons.mp (hout.mem_iff.mp hother) with rfl | hold
    · exact List.mem_append_right _ List.mem_cons_self
    · exact List.mem_append_left _ (h.known other hold)
  · exact List.mem_append_left _ (h.rememberedKnown cancellation hc)
  · rcases List.mem_cons.mp (hout.mem_iff.mp hother) with rfl | hold
    · rcases List.mem_append.mp hc with htravelling | hkept
      · exact absurd hid.symm (htravel cancellation htravelling)
      · exact absurd (hid ▸ h.rememberedKnown cancellation hkept) hfresh
    · exact h.aimed cancellation hc other hold hid

/-- A new cancellation aims at the submission that holds the id. -/
theorem liveHandle_eq (h : IdInvariant w) (hmem : submission ∈ w.outstanding) :
    w.liveHandle submission.requestId = some submission.uid := by
  cases hfound : w.outstanding.find? (·.requestId = submission.requestId) with
  | none => simpa using List.find?_eq_none.mp hfound submission hmem
  | some other =>
    have hid : other.requestId = submission.requestId := by simpa using List.find?_some hfound
    have hother := List.mem_of_find?_eq_some hfound
    rw [List.inj_on_of_nodup_map h.distinct hother hmem hid] at hfound
    simp [liveHandle, hfound]

theorem client {action : Action Id} (h : IdInvariant w) (hlock : LockInvariant w)
    (hstep : ClientStep w action w') (haction : NoCancellationTravels w action) :
    IdInvariant w' := by
  cases hstep with
  | submitBegin _ _ _ _ _ => exact ⟨h.distinct, h.known, h.rememberedKnown, h.aimed, h.hit⟩
  | @enqueue submission hsub _ => exact h.enqueue hlock hsub (haction submission rfl)
  | full _ _ => exact ⟨h.distinct, h.known, h.rememberedKnown, h.aimed, h.hit⟩
  | cancel requestId =>
    refine ⟨h.distinct, h.known, h.rememberedKnown, fun cancellation hc other hother hid => ?_,
      h.hit⟩
    have hcases : cancellation ∈ w.aimed ∨
        cancellation = ⟨requestId, w.liveHandle requestId⟩ := by
      simp only [ServingRuntime.aimed, travelling, List.mem_append, List.mem_singleton] at hc ⊢
      tauto
    rcases hcases with hold | rfl
    · exact h.aimed cancellation hold other hother hid
    · obtain rfl : other.requestId = requestId := hid
      exact h.liveHandle_eq hother
  | stop _ => exact ⟨h.distinct, h.known, h.rememberedKnown, h.aimed, h.hit⟩

theorem initial (ingressCapacity : ℕ) (engine : E) (past : List StepResult) :
    IdInvariant (ServingRuntime.initial Id ingressCapacity engine past) := by
  constructor <;>
    simp [ServingRuntime.initial, outstanding, openRequests, pendingMedia, ServingRuntime.aimed,
      travelling, Owner.held]

theorem run {ingressCapacity : ℕ} {engine : E} {past : List StepResult}
    (hrun : Run api NoCancellationTravels (.initial Id ingressCapacity engine past) w) :
    IdInvariant w ∧ LockInvariant w := by
  induction hrun with
  | refl => exact ⟨initial ingressCapacity engine past, fun _ hsub => by cases hsub⟩
  | tail _ hlast ih =>
    obtain ⟨action, hstep, haction⟩ := hlast
    refine ⟨?_, ih.2.step hstep⟩
    rcases hstep with hclient | howner
    · exact ih.1.client ih.2 hclient haction
    · exact ih.1.step (.owner howner)

end IdInvariant

/-- In every run in which no submission takes an id under which a cancellation travels, every
cancellation that takes effect ends the submission that was live when it was called for. -/
theorem cancels_only_target {ingressCapacity : ℕ} {engine : E} {past : List StepResult}
    (hrun : Run api NoCancellationTravels (.initial Id ingressCapacity engine past) w) :
    ∀ effect ∈ w.cancelEffects, effect.1 = some effect.2 :=
  (IdInvariant.run hrun).1.hit

/-- A request that is cancelled while it waits to be admitted. -/
theorem cancels_only_target_waiting : ∃ w : ServingRuntime ℕ (LLMEngine ℕ),
    w.cancelEffects = [(some 0, 0)] ∧ ∀ effect ∈ w.cancelEffects, effect.1 = some effect.2 := by
  let api := LLMEngine.servingEngine ℕ LLMEngine.cooperative
  let submission : Submission ℕ := ⟨0, 5, true⟩
  let init : ServingRuntime ℕ (LLMEngine ℕ) := .initial ℕ 1 LLMEngine.constructed []
  let queued : ServingRuntime ℕ (LLMEngine ℕ) :=
    { init with
      owner := .head, knownRequestIds := [5], unadmittedRequests := 1, ingress := [submission],
      nextUid := 1, accepted := [submission] }
  have hother : ∀ w : ServingRuntime ℕ (LLMEngine ℕ), NoCancellationTravels w .other :=
    fun _ _ haction => by cases haction
  have hreply : ∀ (w : ServingRuntime ℕ (LLMEngine ℕ)) reply,
      NoCancellationTravels w (.reply reply) := fun _ _ _ haction => by cases haction
  have hbegin : Run api NoCancellationTravels init
      { init with owner := .head, submitting := some submission } :=
    (Run.owner .refl (.ready rfl) (hother _)).client
      (.submitBegin rfl ⟨by decide, rfl, by decide, rfl⟩ (by decide) (by decide) rfl) (hother _)
  have hqueued : Run api NoCancellationTravels init queued :=
    hbegin.client (.enqueue rfl (by decide))
      fun _ _ cancellation hc => absurd hc List.not_mem_nil
  have hcancel : Run api NoCancellationTravels init
      { queued with cancellations := [⟨5, some 0⟩] } :=
    hqueued.client (.cancel 5) (hother _)
  have happlying : Run api NoCancellationTravels init
      { queued with owner := .applying ⟨5, some 0⟩ 0 false } :=
    (hcancel.owner (.headLoop rfl rfl) (hother _)).owner (.popCancellation rfl rfl) (hother _)
  have hremembered : Run api NoCancellationTravels init
      { queued with owner := .cancelling 0 false, cancelledBeforeAdmission := [⟨5, some 0⟩] } :=
    happlying.owner (.applyCancellation rfl rfl (.remember (by decide) (by decide))) (hother _)
  have hdraining : Run api NoCancellationTravels init
      { queued with owner := .draining 1, cancelledBeforeAdmission := [⟨5, some 0⟩] } :=
    (hremembered.owner (.cancelledFirst rfl) (hother _)).owner (.notPrepared rfl) (hother _)
  have hcancelled := hdraining.owner
    (@OwnerStep.admitSubmission ℕ _ _ _ _ LLMEngine.constructed 0 submission [] 0 "" .invalid rfl
      rfl rfl fun _ => rfl) (hreply _ _)
  exact ⟨_, by rfl, cancels_only_target hcancelled⟩

/-- The first submission under an id finishes while its cancellation waits in the queue; the
second one is cancelled by it. -/
theorem cancels_successor : ∃ w : ServingRuntime ℕ (LLMEngine ℕ),
    Run (LLMEngine.servingEngine ℕ LLMEngine.cooperative) (fun _ _ => True)
      (.initial ℕ 1 LLMEngine.constructed []) w ∧ w.cancelEffects = [(some 0, 1)] ∧
      w.events 1 = [.done [] "cancelled"] ∧
      ¬ ∀ effect ∈ w.cancelEffects, effect.1 = some effect.2 := by
  obtain ⟨asked, replied, result, hsubmit, hwork, hstep, hmembers, houtputs⟩ :=
    LLMEngine.oneToken_served
  generalize LLMEngine.constructed = fresh at hsubmit ⊢
  let api := LLMEngine.servingEngine ℕ LLMEngine.cooperative
  let first : Submission ℕ := ⟨0, 5, true⟩
  let second : Submission ℕ := ⟨1, 5, true⟩
  let init : ServingRuntime ℕ (LLMEngine ℕ) := .initial ℕ 1 fresh []
  let admitted : ServingRuntime ℕ (LLMEngine ℕ) :=
    { init with
      owner := .draining 0, knownRequestIds := [5], active := [⟨first, 0, []⟩],
      engine := asked, nextUid := 1, accepted := [first],
      events := Function.update (fun _ => []) 0 [.accepted 0] }
  have hbegin : Run api (fun _ _ => True) init
      { init with owner := .head, submitting := some first } :=
    (Run.owner .refl (.ready rfl) trivial).client
      (.submitBegin rfl (.of_owner .head rfl (by decide) rfl rfl) List.not_mem_nil
        (show (0 : ℤ) < 1 by decide) rfl) trivial
  have hdraining := (((hbegin.client (.enqueue rfl Nat.one_pos) trivial).owner
    (.headLoop rfl rfl) trivial).owner (.cancelledFirst rfl) trivial).owner (.notPrepared rfl)
      trivial
  have hadmitted : Run api (fun _ _ => True) init admitted :=
    hdraining.owner (@OwnerStep.admitSubmission ℕ _ _ _ _ asked 0 first [] 0 ""
      .admitted rfl rfl rfl fun _ => hsubmit) trivial
  have hstepping : Run api (fun _ _ => True) init { admitted with owner := .stepping } :=
    ((hadmitted.owner (.drained rfl) trivial).owner (.noPreparation rfl (.inr (.inl rfl)))
      trivial).owner (.cancelledSecond rfl) trivial
  have hcancel : Run api (fun _ _ => True) init
      { admitted with owner := .stepping, cancellations := [⟨5, some 0⟩] } :=
    hstepping.client (.cancel 5) trivial
  let finished : ServingRuntime ℕ (LLMEngine ℕ) :=
    { init with
      owner := .head, engine := replied, past := [result], nextUid := 1,
      accepted := [first], cancellations := [⟨5, some 0⟩],
      events := Function.update (Function.update admitted.events 0 [.accepted 0, .token 9]) 0
        [.accepted 0, .token 9, .done [9] "length"] }
  let resubmitted : ServingRuntime ℕ (LLMEngine ℕ) :=
    { finished with
      knownRequestIds := [5], unadmittedRequests := 1, ingress := [second], nextUid := 2,
      accepted := [first, second] }
  have hreporting := hcancel.owner (.step rfl hwork hstep) trivial
  rw [hmembers, houtputs] at hreporting
  have htoken := hreporting.owner
    (@OwnerStep.token ℕ _ _ _ _ ⟨first, 0, []⟩ [] [] 9 [] _ rfl rfl) trivial
  have hfinished : Run api (fun _ _ => True) init finished :=
    (htoken.owner (@OwnerStep.finish ℕ _ _ _ _ ⟨first, 0, [9]⟩ [] [] _ [] rfl rfl rfl rfl)
      trivial).owner (.reported rfl) trivial
  have hresubmitted : Run api (fun _ _ => True) init resubmitted :=
    (hfinished.client (.submitBegin rfl (.of_owner .head rfl (by decide) rfl rfl) List.not_mem_nil
      (show (0 : ℤ) < 1 by decide) rfl) trivial).client
      (@ClientStep.enqueue ℕ _ _ { finished with submitting := some second } second rfl
        Nat.one_pos) trivial
  have happlying : Run api (fun _ _ => True) init
      { resubmitted with owner := .applying ⟨5, some 0⟩ 0 false, cancellations := [] } :=
    (hresubmitted.owner (.headLoop rfl rfl) trivial).owner (.popCancellation rfl rfl) trivial
  have hremembered : Run api (fun _ _ => True) init
      { resubmitted with
        owner := .cancelling 0 false, cancellations := [],
        cancelledBeforeAdmission := [⟨5, some 0⟩] } :=
    happlying.owner (.applyCancellation rfl rfl (.remember List.mem_cons_self
      fun _ hsub => absurd hsub List.not_mem_nil)) trivial
  have hcancelled := ((hremembered.owner (.cancelledFirst rfl) trivial).owner (.notPrepared rfl)
    trivial).owner (@OwnerStep.admitSubmission ℕ _ _ _ _ replied 0 second [] 1 ""
      .invalid rfl rfl rfl fun _ => rfl) trivial
  exact ⟨_, hcancelled, by rfl, by rfl,
    fun h => absurd (h (some 0, 1) List.mem_cons_self) (by decide)⟩

end PrismInfer.Serving
