import PrismInfer.ServingRuntime

/-!
# The tokens of the batches on their way to the clients

While the owner still steps its engine, the tokens it has published for an active request and
the ones left in the batch at hand are the tokens that the engine's batches hold for it. So the
output that ends a request carries what was published.
-/
set_option linter.unusedSectionVars false

namespace PrismInfer.Serving

open ServingRuntime

variable {Id E : Type} [DecidableEq Id] {api : ServingEngine E}
variable {w w' : ServingRuntime Id E} {submission : Submission Id}

/-- The active requests against the batches that the engine returned. -/
structure Streams (api : ServingEngine E) (w : ServingRuntime Id E) : Prop where
  holds : api.Holds w.past w.engine
  known : ∀ request ∈ w.active, request.engineRequestId ∈ api.known w.engine
  distinct : (w.active.map (·.engineRequestId)).Nodup
  tokens : ∀ request ∈ w.active,
    request.tokenIds ++ tokensOf w.owner.members request.engineRequestId =
      StepResult.streamed w.past request.engineRequestId
  outputs : ∀ output ∈ w.owner.outputs,
    output.tokenIds = StepResult.streamed w.past output.requestId

@[simp] theorem tokensOf_nil (id : ℕ) : tokensOf [] id = [] := rfl

theorem tokensOf_cons_self (id tokenId : ℕ) (members : List (ℕ × Option ℕ)) :
    tokensOf ((id, some tokenId) :: members) id = tokenId :: tokensOf members id := by
  simp [tokensOf]

theorem tokensOf_cons_other {id other : ℕ} {token : Option ℕ} (members : List (ℕ × Option ℕ))
    (h : token = none ∨ other ≠ id) :
    tokensOf ((id, token) :: members) other = tokensOf members other := by
  rcases h with rfl | hne
  · simp [tokensOf]
  · simp [tokensOf, Ne.symm hne]

theorem streamed_append (past : List StepResult) (result : StepResult) (id : ℕ) :
    StepResult.streamed (past ++ [result]) id =
      StepResult.streamed past id ++ tokensOf result.members id := by
  simp [StepResult.streamed]

namespace Streams

/-- Requests may leave, the engine may be called, and members that concern nobody may be
skipped. -/
theorem keep (h : Streams api w) (hpast : w'.past = w.past)
    (hholds : api.Holds w.past w'.engine) (hknown : api.known w.engine ⊆ api.known w'.engine)
    (hactive : w'.active.Sublist w.active)
    (hmembers : ∀ request ∈ w'.active, tokensOf w'.owner.members request.engineRequestId =
      tokensOf w.owner.members request.engineRequestId)
    (houtputs : w'.owner.outputs ⊆ w.owner.outputs) : Streams api w' := by
  have hold := hactive.subset
  refine ⟨hpast ▸ hholds, fun request hrequest => hknown (h.known request (hold hrequest)),
    h.distinct.sublist (hactive.map _), fun request hrequest => ?_, fun output houtput => ?_⟩
  · rw [hpast, hmembers request hrequest]
    exact h.tokens request (hold hrequest)
  · rw [hpast]
    exact h.outputs output (houtputs houtput)

/-- A step without the engine, between two batches. -/
theorem between (h : Streams api w) (hpast : w'.past = w.past) (hengine : w'.engine = w.engine)
    (hactive : w'.active = w.active) (hmembers : w.owner.members = [])
    (hnext : w'.owner.members = [] ∧ w'.owner.outputs = []) : Streams api w' := by
  refine h.keep hpast (hengine ▸ h.holds) (hengine ▸ fun _ hid => hid) (hactive ▸ .refl _)
    (fun request _ => by rw [hnext.1, hmembers]) ?_
  rw [hnext.2]
  exact List.nil_subset _

/-- A request that the engine has just admitted has no tokens yet. -/
theorem admitted {engineRequestId : ℕ} (h : Streams api w)
    (hsubmit : api.submits engineRequestId true w.engine w'.engine) (hpast : w'.past = w.past)
    (hactive : w'.active = w.active ++ [⟨submission, engineRequestId, []⟩])
    (hmembers : w.owner.members = [])
    (hnext : w'.owner.members = [] ∧ w'.owner.outputs = []) : Streams api w' := by
  obtain ⟨hholds, hnew, hknown⟩ := api.submitted h.holds hsubmit
  refine ⟨hpast ▸ hholds, fun request hrequest => ?_, ?_, fun request hrequest => ?_, ?_⟩
  · rw [hknown]
    rw [hactive] at hrequest
    rcases List.mem_append.mp hrequest with hold | hlast
    · exact List.mem_cons_of_mem _ (h.known request hold)
    · obtain rfl := List.mem_singleton.mp hlast
      exact List.mem_cons_self
  · rw [hactive, List.map_append]
    refine List.nodup_append.mpr ⟨h.distinct, by simp, fun a ha b hb hab => ?_⟩
    obtain ⟨request, hrequest, rfl⟩ := List.mem_map.mp ha
    obtain rfl := List.mem_singleton.mp hb
    exact hnew (hab ▸ h.known request hrequest)
  · rw [hnext.1, hpast]
    rw [hactive] at hrequest
    rcases List.mem_append.mp hrequest with hold | hlast
    · have htokens := h.tokens request hold
      rwa [hmembers] at htokens
    · obtain rfl := List.mem_singleton.mp hlast
      exact (api.unknown h.holds hnew).symm
  · rw [hnext.2]
    exact fun output houtput => absurd houtput List.not_mem_nil

/-- A new batch is still to be published. -/
theorem stepped {result : StepResult} (h : Streams api w) (hmembers : w.owner.members = [])
    (hstep : api.steps result w.engine w'.engine) (hpast : w'.past = w.past ++ [result])
    (hactive : w'.active = w.active)
    (howner : w'.owner = .reporting result.members result.outputs) : Streams api w' := by
  obtain ⟨hholds, hknown⟩ := api.stepped h.holds hstep
  rw [← hpast] at hholds
  refine ⟨hholds, fun request hrequest => hknown (h.known request (hactive ▸ hrequest)),
    hactive ▸ h.distinct, fun request hrequest => ?_, fun output houtput => ?_⟩
  · have htokens := h.tokens request (hactive ▸ hrequest)
    rw [hmembers, tokensOf_nil, List.append_nil] at htokens
    rw [howner, hpast, streamed_append, htokens]
    rfl
  · rw [howner] at houtput
    refine api.answered hholds output ?_
    rw [hpast, StepResult.answers, List.flatMap_append]
    exact List.mem_append_right _ (by simpa [Owner.outputs] using houtput)

/-- The next token of the batch goes to its request, and to no other. -/
theorem token {request : ActiveRequest Id} {left right : List (ActiveRequest Id)} {tokenId : ℕ}
    {members : List (ℕ × Option ℕ)} {outputs : List RequestOutput} (h : Streams api w)
    (howner : w.owner = .reporting ((request.engineRequestId, some tokenId) :: members) outputs)
    (hactive : w.active = left ++ request :: right) :
    Streams api ((w.emitToken request left right tokenId).goto (.reporting members outputs)) := by
  have hmem : request ∈ w.active := hactive ▸ List.mem_append_right left List.mem_cons_self
  have hids : ((left ++ { request with tokenIds := request.tokenIds ++ [tokenId] } ::
      right).map (·.engineRequestId)) = w.active.map (·.engineRequestId) := by
    simp [hactive]
  have hapart : ∀ other ∈ left ++ right, other.engineRequestId ≠ request.engineRequestId := by
    intro other hother heq
    have hdistinct := h.distinct
    rw [hactive, (List.perm_middle.map _).nodup_iff, List.map_cons] at hdistinct
    exact (List.nodup_cons.mp hdistinct).1 (heq ▸ List.mem_map_of_mem hother)
  have hcases : ∀ other ∈ left ++ { request with tokenIds := request.tokenIds ++ [tokenId] } ::
      right, other = { request with tokenIds := request.tokenIds ++ [tokenId] } ∨
        other ∈ left ++ right := by
    intro other hother
    simp only [List.mem_append, List.mem_cons] at hother ⊢
    tauto
  have hrest : ∀ other ∈ left ++ right, other ∈ w.active := fun other hother => by
    rw [hactive]
    exact List.perm_middle.mem_iff.mpr (List.mem_cons_of_mem _ hother)
  refine ⟨h.holds, fun other hother => ?_, hids ▸ h.distinct, fun other hother => ?_, ?_⟩
  · rcases hcases other hother with rfl | hold
    · exact h.known request hmem
    · exact h.known other (hrest other hold)
  · rcases hcases other hother with rfl | hold
    · have htokens := h.tokens request hmem
      rw [howner] at htokens
      change request.tokenIds ++ tokensOf (_ :: members) request.engineRequestId = _ at htokens
      rw [tokensOf_cons_self] at htokens
      change request.tokenIds ++ [tokenId] ++ tokensOf members request.engineRequestId = _
      rw [List.append_assoc]
      exact htokens
    · have htokens := h.tokens other (hrest other hold)
      rw [howner] at htokens
      change other.tokenIds ++ tokensOf (_ :: members) other.engineRequestId = _ at htokens
      rw [tokensOf_cons_other members (.inr (hapart other hold))] at htokens
      exact htokens
  · intro output houtput
    refine h.outputs output ?_
    rw [howner]
    exact houtput

/-- The output of a request carries the tokens that were published for it. -/
theorem output_eq {request : ActiveRequest Id} {output : RequestOutput}
    {outputs : List RequestOutput} (h : Streams api w) (hmem : request ∈ w.active)
    (howner : w.owner = .reporting [] (output :: outputs))
    (hid : request.engineRequestId = output.requestId) : output.tokenIds = request.tokenIds := by
  have htokens := h.tokens request hmem
  have houtput := h.outputs output (by rw [howner]; exact List.mem_cons_self)
  rw [howner] at htokens
  change request.tokenIds ++ tokensOf [] request.engineRequestId = _ at htokens
  rw [tokensOf_nil, List.append_nil] at htokens
  rw [houtput, ← hid, htokens]

end Streams

/-- After a failure and during a shutdown the batches do not matter any more. -/
def StreamInvariant (api : ServingEngine E) (w : ServingRuntime Id E) : Prop :=
  w.owner.serving = true → Streams api w

namespace StreamInvariant

/-- The hand-over of a request, after which the engine is `mid.engine`. -/
theorem submitToEngine {engineRequestId : ℕ} {next : Owner Id} {message : String}
    {reply : EngineReply} (h : Streams api w) (mid : ServingRuntime Id E)
    (hreply : Replies api engineRequestId reply w.engine mid.engine)
    (hpast : mid.past = w.past) (hactive : mid.active = w.active)
    (hmembers : w.owner.members = []) (hnext : next.members = [] ∧ next.outputs = []) :
    StreamInvariant api (mid.submitToEngine submission engineRequestId next message reply) := by
  intro hserving
  cases reply with
  | admitted =>
    have hnew : (mid.submitToEngine submission engineRequestId next message .admitted).active =
        w.active ++ [⟨submission, engineRequestId, []⟩] := by
      rw [← hactive]
      rfl
    exact h.admitted hreply hpast hnew hmembers hnext
  | rejected =>
    obtain ⟨hholds, -, hknown⟩ := api.submitted h.holds hreply
    refine h.keep hpast hholds ?_ (hactive ▸ .refl mid.active)
      (fun request _ => by rw [hmembers]; exact congrArg (tokensOf · _) hnext.1) ?_
    · change api.known w.engine ⊆ api.known mid.engine
      rw [hknown]
      exact List.subset_cons_self _ _
    · change next.outputs ⊆ _
      rw [hnext.2]
      exact List.nil_subset _
  | invalid => exact h.between hpast hreply hactive hmembers hnext
  | raised => cases hserving
  | interrupted => cases hserving

theorem admitSubmission {engineRequestId : ℕ} {engine : E} {next : Owner Id} {message : String}
    {reply : EngineReply} (h : Streams api w)
    (hreply : w.HandsOver submission → Replies api engineRequestId reply w.engine engine)
    (hmembers : w.owner.members = []) (hnext : next.members = [] ∧ next.outputs = []) :
    StreamInvariant api
      (w.popIngress.admitSubmission submission engineRequestId engine next message reply) := by
  simp only [ServingRuntime.admitSubmission]
  split
  · exact fun _ => h.between rfl rfl rfl hmembers hnext
  · next hnone =>
    split
    · exact fun _ => h.between rfl rfl rfl hmembers hnext
    · next hstop =>
      split
      · next htext =>
        have hover : w.HandsOver submission := ⟨hnone, Bool.eq_false_iff.mpr hstop, htext⟩
        exact submitToEngine h { w.popIngress with engine := engine } (hreply hover) rfl rfl
          hmembers hnext
      · split
        · exact fun hserving => by cases hserving
        · exact fun hserving => by cases hserving
        · exact fun _ => h.between rfl rfl rfl hmembers hnext

theorem cancel {cancellation : Cancellation Id} {next : Owner Id} (h : Streams api w)
    (hcancel : CancelStep api cancellation w w') (hmembers : w.owner.members = [])
    (hnext : next.members = [] ∧ next.outputs = []) : Streams api (w'.goto next) := by
  have hnone : next.outputs ⊆ w.owner.outputs := by
    rw [hnext.2]
    exact List.nil_subset _
  have hsame : ∀ id, tokensOf next.members id = tokensOf w.owner.members id := by
    rw [hnext.1, hmembers]
    exact fun _ => rfl
  cases hcancel with
  | active hactive _ hcall =>
    obtain ⟨hholds, hknown⟩ := api.cancelled h.holds hcall
    refine h.keep rfl hholds hknown ?_ (fun request _ => hsame _) hnone
    rw [hactive]
    exact (List.sublist_cons_self _ _).append_left _
  | refused _ _ hcall =>
    obtain ⟨hholds, hknown⟩ := api.cancelled h.holds hcall
    exact h.keep rfl hholds hknown (.refl _) (fun request _ => hsame _) hnone
  | waiting _ _ => exact h.between rfl rfl rfl hmembers hnext
  | preparing _ _ => exact h.between rfl rfl rfl hmembers hnext
  | remember _ _ => exact h.between rfl rfl rfl hmembers hnext
  | unknown _ _ => exact h.between rfl rfl rfl hmembers hnext

theorem client {action : Action Id} (h : StreamInvariant api w)
    (hstep : ClientStep w action w') : StreamInvariant api w' := by
  have hquiet : ∀ {v : ServingRuntime Id E}, v.past = w.past → v.engine = w.engine →
      v.active = w.active → v.owner = w.owner → StreamInvariant api v := by
    intro v hpast hengine hactive howner hserving
    have hs := h (howner ▸ hserving)
    exact hs.keep hpast (hengine ▸ hs.holds) (hengine ▸ fun _ hid => hid) (hactive ▸ .refl _)
      (fun _ _ => by rw [howner]) (howner ▸ fun _ hid => hid)
  cases hstep with
  | submitBegin _ _ _ _ _ => exact hquiet rfl rfl rfl rfl
  | enqueue _ _ => exact hquiet rfl rfl rfl rfl
  | full _ _ => exact hquiet rfl rfl rfl rfl
  | cancel _ => exact hquiet rfl rfl rfl rfl
  | stop _ => exact hquiet rfl rfl rfl rfl

theorem owner {action : Action Id} (h : StreamInvariant api w)
    (hstep : OwnerStep api w action w') : StreamInvariant api w' := by
  have hserves : ∀ {owner : Owner Id}, w.owner = owner → owner.serving = true → Streams api w :=
    fun howner hserving => h (howner ▸ hserving)
  have hleaves : ∀ {v : ServingRuntime Id E}, v.owner.serving = false → StreamInvariant api v :=
    fun hleft hserving => absurd hserving (hleft ▸ Bool.false_ne_true)
  have hquiet : ∀ {v : ServingRuntime Id E} {owner : Owner Id}, w.owner = owner →
      owner.serving = true → owner.members = [] → v.past = w.past → v.engine = w.engine →
      v.active = w.active → v.owner.members = [] ∧ v.owner.outputs = [] →
      StreamInvariant api v :=
    fun howner hserving hmembers hpast hengine hactive hnext _ =>
      (hserves howner hserving).between hpast hengine hactive (howner ▸ hmembers) hnext
  cases hstep with
  | ready howner => exact hquiet howner rfl rfl rfl rfl rfl ⟨rfl, rfl⟩
  | startFails _ => exact hleaves rfl
  | loopRaises _ _ => exact hleaves rfl
  | loopFails _ => exact hleaves rfl
  | headStop _ _ => exact hleaves rfl
  | headLoop howner _ => exact hquiet howner rfl rfl rfl rfl rfl ⟨rfl, rfl⟩
  | popCancellation howner _ => exact hquiet howner rfl rfl rfl rfl rfl ⟨rfl, rfl⟩
  | applyCancellation _ howner hcancel =>
    exact fun _ => cancel (hserves howner rfl) hcancel (by rw [howner]; rfl) ⟨rfl, rfl⟩
  | cancelledFirst howner => exact hquiet howner rfl rfl rfl rfl rfl ⟨rfl, rfl⟩
  | cancelledSecond howner => exact hquiet howner rfl rfl rfl rfl rfl ⟨rfl, rfl⟩
  | notPrepared howner => exact hquiet howner rfl rfl rfl rfl rfl ⟨rfl, rfl⟩
  | preparedDiscarded _ howner _ => exact hquiet howner rfl rfl rfl rfl rfl ⟨rfl, rfl⟩
  | preparedStop _ howner _ _ => exact hquiet howner rfl rfl rfl rfl rfl ⟨rfl, rfl⟩
  | preparedRaised _ _ howner _ _ => exact hquiet howner rfl rfl rfl rfl rfl ⟨rfl, rfl⟩
  | @admitPrepared engine pending message reply _ howner _ _ hreply =>
    exact submitToEngine (hserves howner rfl) { w with preparing := none, engine := engine } hreply
      rfl rfl (by rw [howner]; rfl) ⟨rfl, rfl⟩
  | drainStop howner _ => exact hquiet howner rfl rfl rfl rfl rfl ⟨rfl, rfl⟩
  | drained howner => exact hquiet howner rfl rfl rfl rfl rfl ⟨rfl, rfl⟩
  | admitSubmission engineRequestId message reply _ howner _ hreply =>
    exact admitSubmission (hserves howner rfl) hreply (by rw [howner]; rfl) ⟨rfl, rfl⟩
  | startPreparation howner _ _ _ => exact hquiet howner rfl rfl rfl rfl rfl ⟨rfl, rfl⟩
  | noPreparation howner _ => exact hquiet howner rfl rfl rfl rfl rfl ⟨rfl, rfl⟩
  | idle howner _ => exact hquiet howner rfl rfl rfl rfl rfl ⟨rfl, rfl⟩
  | step howner _ hstep =>
    exact fun _ => (hserves howner rfl).stepped (by rw [howner]; rfl) hstep rfl rfl rfl
  | token howner hactive => exact fun _ => (hserves howner rfl).token howner hactive
  | @noToken engineRequestId token members outputs howner hskip =>
    intro _
    have hs := hserves howner rfl
    refine hs.keep rfl hs.holds (fun _ hid => hid) (.refl _) (fun request hrequest => ?_) ?_
    · rw [howner]
      exact (tokensOf_cons_other members
        (hskip.imp_right fun hother => hother request hrequest)).symm
    · rw [howner]
      exact fun _ hid => hid
  | finish _ howner hactive _ =>
    intro _
    have hs := hserves howner rfl
    refine hs.keep rfl hs.holds (fun _ hid => hid) ?_ (fun request _ => ?_) ?_
    · rw [hactive]
      exact (List.sublist_cons_self _ _).append_left _
    · rw [howner]
      rfl
    · rw [howner]
      exact List.subset_cons_self _ _
  | noFinish howner _ =>
    intro _
    have hs := hserves howner rfl
    refine hs.keep rfl hs.holds (fun _ hid => hid) (.refl _) (fun request _ => ?_) ?_
    · rw [howner]
      rfl
    · rw [howner]
      exact List.subset_cons_self _ _
  | reported howner => exact hquiet howner rfl rfl rfl rfl rfl ⟨rfl, rfl⟩
  | shutdown _ howner hdrain => cases hdrain <;> exact hleaves (howner ▸ rfl)
  | failAll message _ howner hdrain => cases hdrain <;> exact hleaves (howner ▸ rfl)
  | close _ _ => exact hleaves rfl
  | closePreparation _ howner _ => exact hleaves (howner ▸ rfl)
  | exit _ _ => exact hleaves rfl

theorem step {action : Action Id} (h : StreamInvariant api w) (hstep : Step api w action w') :
    StreamInvariant api w' := by
  rcases hstep with hclient | howner
  · exact h.client hclient
  · exact h.owner howner

end StreamInvariant

end PrismInfer.Serving
