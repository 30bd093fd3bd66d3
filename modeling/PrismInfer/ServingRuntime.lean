import PrismInfer.ServingEngine

/-!
# The serving runtime

Client threads and the engine-owner thread of `ServingRuntime`, as a step relation. A step
of the owner is what it does with one request between two looks at the shared queues. The
state lock is held by a `submit` between its checks and its enqueue, and a step that takes
the lock waits for it. The engine is the one the owner calls, with the batches it returned.
`past`, `accepted`, `events`, `uid`, the targets of cancellations and `cancelEffects` are ghost.
-/
set_option linter.unusedSectionVars false

namespace PrismInfer.Serving

variable {Id E : Type} [DecidableEq Id]

/-- `_Submission`; `uid` names its handle. -/
structure Submission (Id : Type) where
  uid : ℕ
  requestId : Id
  isText : Bool
deriving DecidableEq

inductive ServingEvent
  | accepted (engineRequestId : ℕ)
  | token (tokenId : ℕ)
  | done (tokenIds : List ℕ) (finishReason : String)
  | error (message : String)
deriving DecidableEq, Repr

namespace ServingEvent

def isTerminal : ServingEvent → Bool
  | done _ _ => true
  | error _ => true
  | _ => false

def tokenIds : ServingEvent → List ℕ
  | token tokenId => [tokenId]
  | _ => []

end ServingEvent

/-- `_PendingMedia`. -/
structure PendingMedia (Id : Type) where
  submission : Submission Id
  engineRequestId : ℕ

/-- `_ActiveRequest`. -/
structure ActiveRequest (Id : Type) where
  submission : Submission Id
  engineRequestId : ℕ
  tokenIds : List ℕ

/-- A call of `cancel`, with the handle that was live under the id at that time. -/
structure Cancellation (Id : Type) where
  requestId : Id
  target : Option ℕ
deriving DecidableEq

/-- Where the owner thread is in `_thread_main` and `_run_engine`. It is `applying` a
cancellation that has left the queue, `reporting` the rest of a batch, and `raising` while an
exception is on its way to the handler that sets the failure. -/
inductive Owner (Id : Type)
  | starting
  | head
  | cancelling (left : ℕ) (beforeStep : Bool)
  | applying (cancellation : Cancellation Id) (left : ℕ) (beforeStep : Bool)
  | preparedPoint
  | draining (left : ℕ)
  | startPoint
  | stepping
  | reporting (members : List (ℕ × Option ℕ)) (outputs : List RequestOutput)
  | shuttingDown
  | raising
  | failing
  | closing
  | exited
deriving DecidableEq

namespace Owner

/-- Points of the owner's loop at which an exception may surface. -/
def inLoop : Owner Id → Bool
  | starting | raising | failing | closing | exited => false
  | _ => true

/-- Points from which the owner may still call `step_result`. -/
def serving : Owner Id → Bool
  | shuttingDown | raising | failing | closing | exited => false
  | _ => true

/-- The cancellation that has left the queue and is not applied yet. -/
def held : Owner Id → List (Cancellation Id)
  | applying cancellation _ _ => [cancellation]
  | _ => []

/-- The tokens of the batch that are not published yet. -/
def members : Owner Id → List (ℕ × Option ℕ)
  | reporting members _ => members
  | _ => []

/-- The outputs of the batch that are not published yet. -/
def outputs : Owner Id → List RequestOutput
  | reporting _ outputs => outputs
  | _ => []

end Owner

/-- What an engine call that submits a request does: admit it, reject it, raise an
`OSError`, `TypeError` or `ValueError`, raise another `Exception`, or raise a
`BaseException` that is none. -/
inductive EngineReply
  | admitted
  | rejected
  | invalid
  | raised
  | interrupted
deriving DecidableEq, Repr

/-- An invalid request is refused before the engine queues it. What a call that raises
otherwise leaves of the engine is unknown, and the engine is not called again. -/
def Replies (api : ServingEngine E) (engineRequestId : ℕ) :
    EngineReply → E → E → Prop
  | .admitted, engine, engine' => api.submits engineRequestId true engine engine'
  | .rejected, engine, engine' => api.submits engineRequestId false engine engine'
  | .invalid, engine, engine' => engine' = engine
  | .raised, _, _ => True
  | .interrupted, _, _ => True

structure ServingRuntime (Id E : Type) where
  ingressCapacity : ℕ
  /-- A `submit` that has passed its checks and holds the lock. -/
  submitting : Option (Submission Id)
  ingress : List (Submission Id)
  unadmittedRequests : ℤ
  cancellations : List (Cancellation Id)
  stopRequested : Bool
  failure : Bool
  knownRequestIds : List Id
  engine : E
  owner : Owner Id
  /-- `_active_by_external` and `_external_by_engine`. -/
  active : List (ActiveRequest Id)
  cancelledBeforeAdmission : List (Cancellation Id)
  mediaWaiting : List (PendingMedia Id)
  /-- `_preparing`, and whether it has been discarded. -/
  preparing : Option (PendingMedia Id × Bool)
  /-- The batches that the engine returned. -/
  past : List StepResult
  nextUid : ℕ
  accepted : List (Submission Id)
  events : ℕ → List ServingEvent
  /-- Target and victim of each cancellation that took effect. -/
  cancelEffects : List (Option ℕ × ℕ)

namespace ServingRuntime

/-- A runtime with its engine, before the owner thread is ready. -/
def initial (Id : Type) (ingressCapacity : ℕ) (engine : E) (past : List StepResult) :
    ServingRuntime Id E where
  ingressCapacity := ingressCapacity
  submitting := none
  ingress := []
  unadmittedRequests := 0
  cancellations := []
  stopRequested := false
  failure := false
  knownRequestIds := []
  engine := engine
  owner := .starting
  active := []
  cancelledBeforeAdmission := []
  mediaWaiting := []
  preparing := none
  past := past
  nextUid := 0
  accepted := []
  events _ := []
  cancelEffects := []

variable (w : ServingRuntime Id E)

/-- `is_healthy`, as far as the owner thread decides it. -/
abbrev IsHealthy : Prop :=
  w.owner ≠ .starting ∧ w.failure = false ∧ w.owner ≠ .exited ∧ w.stopRequested = false

/-- `_pending_media`. -/
def pendingMedia : List (PendingMedia Id) :=
  w.mediaWaiting ++ match w.preparing with
    | some (pending, false) => [pending]
    | _ => []

/-- What the runtime still has to answer, with the tokens it has published for it. -/
def openRequests : List (Submission Id × List ℕ) :=
  w.ingress.map (·, []) ++ w.pendingMedia.map (fun pending => (pending.submission, [])) ++
    w.active.map fun request => (request.submission, request.tokenIds)

/-- Submissions that have no terminal event yet. -/
def outstanding : List (Submission Id) := w.openRequests.map (·.1)

/-- The handle that is live under an id. -/
def liveHandle (requestId : Id) : Option ℕ :=
  (w.outstanding.find? (·.requestId = requestId)).map (·.uid)

/-- Cancellations that were called for and not applied yet. -/
def travelling : List (Cancellation Id) := w.cancellations ++ w.owner.held

def goto (owner : Owner Id) : ServingRuntime Id E := { w with owner := owner }

/-- `_thread_main` sets the failure. -/
def fail : ServingRuntime Id E := { w with owner := .failing, failure := true }

def publish (uid : ℕ) (event : ServingEvent) : ServingRuntime Id E :=
  { w with events := Function.update w.events uid (w.events uid ++ [event]) }

def releaseAdmissionSlot : ServingRuntime Id E :=
  { w with unadmittedRequests := w.unadmittedRequests - 1 }

def forgetRequestId (requestId : Id) : ServingRuntime Id E :=
  { w with
    knownRequestIds := w.knownRequestIds.filter (· ≠ requestId)
    cancelledBeforeAdmission := w.cancelledBeforeAdmission.filter (·.requestId ≠ requestId) }

/-- `_publish_error` and `_finish_unadmitted`: the terminal event of a request that the
engine does not run, and the release of its id. -/
def publishTerminal (submission : Submission Id) (event : ServingEvent) : ServingRuntime Id E :=
  (w.publish submission.uid event).forgetRequestId submission.requestId

/-- The second half of `submit`. -/
def enqueue (submission : Submission Id) : ServingRuntime Id E :=
  { w with
    submitting := none
    knownRequestIds := w.knownRequestIds ++ [submission.requestId]
    unadmittedRequests := w.unadmittedRequests + 1
    ingress := w.ingress ++ [submission]
    nextUid := w.nextUid + 1
    accepted := w.accepted ++ [submission] }

/-- `_track_admitted` for a request that was not rejected. -/
def trackAdmitted (submission : Submission Id) (engineRequestId : ℕ) : ServingRuntime Id E :=
  { w.publish submission.uid (.accepted engineRequestId) with
    active := w.active ++ [⟨submission, engineRequestId, []⟩] }

/-- `_submit_to_engine`. Where the engine call raised something that is no `Exception`, the
submission gets no event. -/
def submitToEngine (submission : Submission Id) (engineRequestId : ℕ) (next : Owner Id)
    (message : String) : EngineReply → ServingRuntime Id E
  | .admitted => ((w.trackAdmitted submission engineRequestId).releaseAdmissionSlot).goto next
  | .rejected =>
    (((w.publish submission.uid (.accepted engineRequestId)).publishTerminal submission
      (.done [] "rejected")).releaseAdmissionSlot).goto next
  | .invalid => ((w.publishTerminal submission (.error message)).releaseAdmissionSlot).goto next
  | .raised =>
    ((w.publishTerminal submission (.error message)).releaseAdmissionSlot).goto .raising
  | .interrupted => w.releaseAdmissionSlot.goto .raising

/-- `_admit` calls `add_request`. -/
def HandsOver (submission : Submission Id) : Prop :=
  w.cancelledBeforeAdmission.find? (·.requestId = submission.requestId) = none ∧
    w.stopRequested = false ∧ submission.isText = true

/-- `_admit` with the engine's answer, and the engine after it. -/
def admitSubmission (submission : Submission Id) (engineRequestId : ℕ) (engine : E)
    (next : Owner Id) (message : String) (reply : EngineReply) : ServingRuntime Id E :=
  match w.cancelledBeforeAdmission.find? (·.requestId = submission.requestId) with
  | some cancellation =>
    { ((w.publishTerminal submission (.done [] "cancelled")).releaseAdmissionSlot).goto next with
      cancelEffects := w.cancelEffects ++ [(cancellation.target, submission.uid)] }
  | none =>
    if w.stopRequested then
      ((w.publishTerminal submission (.done [] "shutdown")).releaseAdmissionSlot).goto next
    else if submission.isText then
      { w with engine := engine }.submitToEngine submission engineRequestId next message reply
    else match reply with
      -- `_allocate_request_id` raised an `Exception`, or something that is none.
      | .raised =>
        ((w.publishTerminal submission (.error message)).releaseAdmissionSlot).goto .raising
      | .interrupted => w.goto .raising
      | _ => { w.goto next with
          mediaWaiting := w.mediaWaiting ++ [⟨submission, engineRequestId⟩] }

/-- `_discard_preparation` of an entry of `_media_waiting`. -/
def discardWaiting (pending : PendingMedia Id) (left right : List (PendingMedia Id))
    (event : ServingEvent) : ServingRuntime Id E :=
  ({ w with mediaWaiting := left ++ right }.releaseAdmissionSlot).publishTerminal
    pending.submission event

/-- `_discard_preparation` of the running preparation, which keeps its slot. -/
def discardPreparing (pending : PendingMedia Id) (event : ServingEvent) : ServingRuntime Id E :=
  { w with preparing := some (pending, true) }.publishTerminal pending.submission event

/-- `_finish_active`. -/
def finishActive (request : ActiveRequest Id) (left right : List (ActiveRequest Id))
    (event : ServingEvent) : ServingRuntime Id E :=
  { w with active := left ++ right }.publishTerminal request.submission event

/-- A token of a step, for an active request. -/
def emitToken (request : ActiveRequest Id) (left right : List (ActiveRequest Id)) (token : ℕ) :
    ServingRuntime Id E :=
  { w.publish request.submission.uid (.token token) with
    active := left ++ { request with tokenIds := request.tokenIds ++ [token] } :: right }

def popIngress : ServingRuntime Id E := { w with ingress := w.ingress.tail }

def recordCancel (target : Option ℕ) (uid : ℕ) : ServingRuntime Id E :=
  { w with cancelEffects := w.cancelEffects ++ [(target, uid)] }

end ServingRuntime

open ServingRuntime

/-- The steps whose choice matters to a client. -/
inductive Action (Id : Type)
  | enqueue (submission : Submission Id)
  | reply (reply : EngineReply)
  | other

/-- Steps of client threads. -/
inductive ClientStep : ServingRuntime Id E → Action Id → ServingRuntime Id E → Prop
  | submitBegin {w : ServingRuntime Id E} {submission : Submission Id}
      (hlock : w.submitting = none) (hhealthy : w.IsHealthy)
      (hknown : submission.requestId ∉ w.knownRequestIds)
      (hslots : w.unadmittedRequests < w.ingressCapacity) (huid : submission.uid = w.nextUid) :
      ClientStep w .other { w with submitting := some submission }
  | enqueue {w : ServingRuntime Id E} {submission : Submission Id}
      (hlock : w.submitting = some submission) (hroom : w.ingress.length < w.ingressCapacity) :
      ClientStep w (.enqueue submission) (w.enqueue submission)
  /-- `put_nowait` raised `queue.Full`, and the bookkeeping was undone. -/
  | full {w : ServingRuntime Id E} {submission : Submission Id}
      (hlock : w.submitting = some submission) (hfull : w.ingressCapacity ≤ w.ingress.length) :
      ClientStep w .other { w with submitting := none }
  | cancel {w : ServingRuntime Id E} (requestId : Id) :
      ClientStep w .other
        { w with cancellations := w.cancellations ++ [⟨requestId, w.liveHandle requestId⟩] }
  | stop {w : ServingRuntime Id E} (hlock : w.submitting = none) :
      ClientStep w .other { w with stopRequested := true }

/-- What `_apply_cancellations` does with a cancellation it took from the queue. -/
inductive CancelStep (api : ServingEngine E) (cancellation : Cancellation Id) :
    ServingRuntime Id E → ServingRuntime Id E → Prop
  | waiting {w : ServingRuntime Id E} {pending : PendingMedia Id}
      {left right : List (PendingMedia Id)} (hmedia : w.mediaWaiting = left ++ pending :: right)
      (hid : pending.submission.requestId = cancellation.requestId) :
      CancelStep api cancellation w
        ((w.discardWaiting pending left right (.done [] "cancelled")).recordCancel
          cancellation.target pending.submission.uid)
  | preparing {w : ServingRuntime Id E} {pending : PendingMedia Id}
      (hpreparing : w.preparing = some (pending, false))
      (hid : pending.submission.requestId = cancellation.requestId) :
      CancelStep api cancellation w
        ((w.discardPreparing pending (.done [] "cancelled")).recordCancel
          cancellation.target pending.submission.uid)
  | active {w : ServingRuntime Id E} {engine : E} {request : ActiveRequest Id}
      {left right : List (ActiveRequest Id)} (hactive : w.active = left ++ request :: right)
      (hid : request.submission.requestId = cancellation.requestId)
      (hcancel : api.cancels request.engineRequestId true w.engine engine) :
      CancelStep api cancellation w
        (({ w with engine := engine }.finishActive request left right
          (.done request.tokenIds "cancelled")).recordCancel cancellation.target
            request.submission.uid)
  /-- The engine has no such request any more. -/
  | refused {w : ServingRuntime Id E} {engine : E} {request : ActiveRequest Id}
      (hactive : request ∈ w.active)
      (hid : request.submission.requestId = cancellation.requestId)
      (hcancel : api.cancels request.engineRequestId false w.engine engine) :
      CancelStep api cancellation w { w with engine := engine }
  | remember {w : ServingRuntime Id E} (hid : cancellation.requestId ∈ w.knownRequestIds)
      (habsent : ∀ submission ∈
        w.pendingMedia.map (·.submission) ++ w.active.map (·.submission),
        submission.requestId ≠ cancellation.requestId) :
      CancelStep api cancellation w
        { w with cancelledBeforeAdmission := w.cancelledBeforeAdmission ++ [cancellation] }
  | unknown {w : ServingRuntime Id E} (hid : cancellation.requestId ∉ w.knownRequestIds)
      (habsent : ∀ submission ∈
        w.pendingMedia.map (·.submission) ++ w.active.map (·.submission),
        submission.requestId ≠ cancellation.requestId) :
      CancelStep api cancellation w w

/-- Ending a request in `_cancel_all_active` and `_fail_all`: `event` is the terminal event for
the tokens published so far, `call` what the engine is asked to do about an active request. -/
inductive DrainStep (event : List ℕ → ServingEvent) (call : ℕ → E → E → Prop) :
    ServingRuntime Id E → ServingRuntime Id E → Prop
  | active {w : ServingRuntime Id E} {engine : E} {request : ActiveRequest Id}
      {rest : List (ActiveRequest Id)} (hactive : w.active = request :: rest)
      (hcall : call request.engineRequestId w.engine engine) :
      DrainStep event call w
        ({ w with engine := engine }.finishActive request [] rest (event request.tokenIds))
  | waiting {w : ServingRuntime Id E} {pending : PendingMedia Id}
      {rest : List (PendingMedia Id)} (hmedia : w.mediaWaiting = pending :: rest) :
      DrainStep event call w (w.discardWaiting pending [] rest (event []))
  | preparing {w : ServingRuntime Id E} {pending : PendingMedia Id}
      (hpreparing : w.preparing = some (pending, false)) :
      DrainStep event call w (w.discardPreparing pending (event []))
  | ingress {w : ServingRuntime Id E} {submission : Submission Id}
      {rest : List (Submission Id)} (hingress : w.ingress = submission :: rest) :
      DrainStep event call w
        (w.popIngress.publishTerminal submission (event [])).releaseAdmissionSlot

/-- Steps of the owner thread. -/
inductive OwnerStep (api : ServingEngine E) :
    ServingRuntime Id E → Action Id → ServingRuntime Id E → Prop
  | ready {w : ServingRuntime Id E} (howner : w.owner = .starting) :
      OwnerStep api w .other (w.goto .head)
  | startFails {w : ServingRuntime Id E} (howner : w.owner = .starting) :
      OwnerStep api w .other w.fail
  | loopRaises {w : ServingRuntime Id E} (engine : E) (howner : w.owner.inLoop = true) :
      OwnerStep api w .other ({ w with engine := engine }.goto .raising)
  | loopFails {w : ServingRuntime Id E} (howner : w.owner = .raising) :
      OwnerStep api w .other w.fail
  | headStop {w : ServingRuntime Id E} (howner : w.owner = .head)
      (hstop : w.stopRequested = true) : OwnerStep api w .other (w.goto .shuttingDown)
  | headLoop {w : ServingRuntime Id E} (howner : w.owner = .head)
      (hstop : w.stopRequested = false) :
      OwnerStep api w .other (w.goto (.cancelling w.cancellations.length false))
  /-- `get_nowait` takes no lock. -/
  | popCancellation {w : ServingRuntime Id E} {left : ℕ} {beforeStep : Bool}
      {cancellation : Cancellation Id} {rest : List (Cancellation Id)}
      (howner : w.owner = .cancelling (left + 1) beforeStep)
      (hqueue : w.cancellations = cancellation :: rest) :
      OwnerStep api w .other
        ({ w with cancellations := rest }.goto (.applying cancellation left beforeStep))
  | applyCancellation {w w' : ServingRuntime Id E} {left : ℕ} {beforeStep : Bool}
      {cancellation : Cancellation Id} (hlock : w.submitting = none)
      (howner : w.owner = .applying cancellation left beforeStep)
      (hcancel : CancelStep api cancellation w w') :
      OwnerStep api w .other (w'.goto (.cancelling left beforeStep))
  | cancelledFirst {w : ServingRuntime Id E} (howner : w.owner = .cancelling 0 false) :
      OwnerStep api w .other (w.goto .preparedPoint)
  | cancelledSecond {w : ServingRuntime Id E} (howner : w.owner = .cancelling 0 true) :
      OwnerStep api w .other (w.goto .stepping)
  /-- Nothing is being prepared, or its future is not done. -/
  | notPrepared {w : ServingRuntime Id E} (howner : w.owner = .preparedPoint) :
      OwnerStep api w .other (w.goto (.draining w.ingress.length))
  | preparedDiscarded {w : ServingRuntime Id E} {pending : PendingMedia Id}
      (hlock : w.submitting = none) (howner : w.owner = .preparedPoint)
      (hpreparing : w.preparing = some (pending, true)) :
      OwnerStep api w .other
        (({ w with preparing := none }.releaseAdmissionSlot).goto (.draining w.ingress.length))
  | preparedStop {w : ServingRuntime Id E} {pending : PendingMedia Id}
      (hlock : w.submitting = none) (howner : w.owner = .preparedPoint)
      (hpreparing : w.preparing = some (pending, false)) (hstop : w.stopRequested = true) :
      OwnerStep api w .other
        (({ w.discardPreparing pending (.done [] "shutdown") with
          preparing := none }.releaseAdmissionSlot).goto (.draining w.ingress.length))
  /-- The preparation raised. -/
  | preparedRaised {w : ServingRuntime Id E} {pending : PendingMedia Id} (message : String)
      (hlock : w.submitting = none) (howner : w.owner = .preparedPoint)
      (hpreparing : w.preparing = some (pending, false)) (hstop : w.stopRequested = false) :
      OwnerStep api w .other
        ((({ w with preparing := none }.publishTerminal pending.submission
          (.error message)).releaseAdmissionSlot).goto (.draining w.ingress.length))
  | admitPrepared {w : ServingRuntime Id E} {engine : E} {pending : PendingMedia Id}
      (message : String) (reply : EngineReply) (hlock : w.submitting = none)
      (howner : w.owner = .preparedPoint) (hpreparing : w.preparing = some (pending, false))
      (hstop : w.stopRequested = false)
      (hreply : Replies api pending.engineRequestId reply w.engine engine) :
      OwnerStep api w (.reply reply)
        ({ w with preparing := none, engine := engine }.submitToEngine pending.submission
          pending.engineRequestId (.draining w.ingress.length) message reply)
  | drainStop {w : ServingRuntime Id E} {left : ℕ} (howner : w.owner = .draining (left + 1))
      (hstop : w.stopRequested = true) : OwnerStep api w .other (w.goto .startPoint)
  | drained {w : ServingRuntime Id E} (howner : w.owner = .draining 0) :
      OwnerStep api w .other (w.goto .startPoint)
  | admitSubmission {w : ServingRuntime Id E} {engine : E} {left : ℕ}
      {submission : Submission Id} {rest : List (Submission Id)} (engineRequestId : ℕ)
      (message : String) (reply : EngineReply) (hlock : w.submitting = none)
      (howner : w.owner = .draining (left + 1)) (hingress : w.ingress = submission :: rest)
      (hreply : w.HandsOver submission → Replies api engineRequestId reply w.engine engine) :
      OwnerStep api w (.reply reply)
        (w.popIngress.admitSubmission submission engineRequestId engine (.draining left) message
          reply)
  | startPreparation {w : ServingRuntime Id E} {pending : PendingMedia Id}
      {rest : List (PendingMedia Id)} (howner : w.owner = .startPoint)
      (hidle : w.preparing = none) (hmedia : w.mediaWaiting = pending :: rest)
      (hstop : w.stopRequested = false) :
      OwnerStep api w .other
        ({ w with mediaWaiting := rest, preparing := some (pending, false) }.goto
          (.cancelling w.cancellations.length true))
  | noPreparation {w : ServingRuntime Id E} (howner : w.owner = .startPoint)
      (hnone : w.preparing.isSome = true ∨ w.mediaWaiting = [] ∨ w.stopRequested = true) :
      OwnerStep api w .other (w.goto (.cancelling w.cancellations.length true))
  /-- The engine has nothing to do, and the owner waits to be woken. -/
  | idle {w : ServingRuntime Id E} (howner : w.owner = .stepping)
      (hfinished : api.isFinished w.engine = true) : OwnerStep api w .other (w.goto .head)
  | step {w : ServingRuntime Id E} {engine : E} {result : StepResult}
      (howner : w.owner = .stepping) (hwork : api.isFinished w.engine = false)
      (hstep : api.steps result w.engine engine) :
      OwnerStep api w .other
        ({ w with engine := engine, past := w.past ++ [result] }.goto
          (.reporting result.members result.outputs))
  | token {w : ServingRuntime Id E} {request : ActiveRequest Id}
      {left right : List (ActiveRequest Id)} {tokenId : ℕ} {members : List (ℕ × Option ℕ)}
      {outputs : List RequestOutput}
      (howner : w.owner =
        .reporting ((request.engineRequestId, some tokenId) :: members) outputs)
      (hactive : w.active = left ++ request :: right) :
      OwnerStep api w .other
        ((w.emitToken request left right tokenId).goto (.reporting members outputs))
  /-- A member without a token, or whose request has been answered. -/
  | noToken {w : ServingRuntime Id E} {engineRequestId : ℕ} {token : Option ℕ}
      {members : List (ℕ × Option ℕ)} {outputs : List RequestOutput}
      (howner : w.owner = .reporting ((engineRequestId, token) :: members) outputs)
      (hskip : token = none ∨
        ∀ request ∈ w.active, request.engineRequestId ≠ engineRequestId) :
      OwnerStep api w .other (w.goto (.reporting members outputs))
  | finish {w : ServingRuntime Id E} {request : ActiveRequest Id}
      {left right : List (ActiveRequest Id)} {output : RequestOutput}
      {outputs : List RequestOutput} (hlock : w.submitting = none)
      (howner : w.owner = .reporting [] (output :: outputs))
      (hactive : w.active = left ++ request :: right)
      (hid : request.engineRequestId = output.requestId) :
      OwnerStep api w .other
        ((w.finishActive request left right (.done output.tokenIds output.finishReason)).goto
          (.reporting [] outputs))
  | noFinish {w : ServingRuntime Id E} {output : RequestOutput} {outputs : List RequestOutput}
      (howner : w.owner = .reporting [] (output :: outputs))
      (hskip : ∀ request ∈ w.active, request.engineRequestId ≠ output.requestId) :
      OwnerStep api w .other (w.goto (.reporting [] outputs))
  | reported {w : ServingRuntime Id E} (howner : w.owner = .reporting [] []) :
      OwnerStep api w .other (w.goto .head)
  | shutdown {w w' : ServingRuntime Id E} (hlock : w.submitting = none)
      (howner : w.owner = .shuttingDown)
      (hdrain : DrainStep (.done · "shutdown")
        (fun id engine engine' => ∃ found, api.cancels id found engine engine') w w') :
      OwnerStep api w .other w'
  | failAll {w w' : ServingRuntime Id E} (message : String) (hlock : w.submitting = none)
      (howner : w.owner = .failing)
      (hdrain : DrainStep (fun _ => .error message)
        (fun _ engine engine' => engine' = engine) w w') : OwnerStep api w .other w'
  | close {w : ServingRuntime Id E} (howner : w.owner = .shuttingDown ∨ w.owner = .failing)
      (hempty : w.openRequests = []) : OwnerStep api w .other (w.goto .closing)
  | closePreparation {w : ServingRuntime Id E} {pending : PendingMedia Id} {discarded : Bool}
      (hlock : w.submitting = none) (howner : w.owner = .closing)
      (hpreparing : w.preparing = some (pending, discarded)) :
      OwnerStep api w .other ({ w with preparing := none }.releaseAdmissionSlot)
  | exit {w : ServingRuntime Id E} (howner : w.owner = .closing) (hidle : w.preparing = none) :
      OwnerStep api w .other (w.goto .exited)

/-- One step of any thread. -/
def Step (api : ServingEngine E) (w : ServingRuntime Id E) (action : Action Id)
    (w' : ServingRuntime Id E) : Prop :=
  ClientStep w action w' ∨ OwnerStep api w action w'

/-- Runs whose steps all meet a condition on the state they start from. -/
def Run (api : ServingEngine E) (condition : ServingRuntime Id E → Action Id → Prop) :
    ServingRuntime Id E → ServingRuntime Id E → Prop :=
  Relation.ReflTransGen fun w w' => ∃ action, Step api w action w' ∧ condition w action

/-! ### What a step does to the handles -/

/-- An answered handle: its last event is the only terminal one, and a `done` reports the
tokens published before it. -/
def Answered (events : List ServingEvent) : Prop :=
  ∃ before last, events = before ++ [last] ∧ last.isTerminal = true ∧
    (∀ event ∈ before, event.isTerminal = false) ∧
    ∀ tokens reason, last = .done tokens reason → before.flatMap ServingEvent.tokenIds = tokens

/-- A handle that still waits for its terminal event, with the tokens published so far. -/
def Unanswered (events : List ServingEvent) (tokens : List ℕ) : Prop :=
  (∀ event ∈ events, event.isTerminal = false) ∧ events.flatMap ServingEvent.tokenIds = tokens

theorem Unanswered.answered {events : List ServingEvent} {tokens : List ℕ} {last : ServingEvent}
    (h : Unanswered events tokens) (hlast : last.isTerminal = true)
    (hdone : ∀ reported reason, last = .done reported reason → reported = tokens) :
    Answered (events ++ [last]) :=
  ⟨events, last, rfl, hlast, h.1, fun reported reason he =>
    h.2.trans (hdone reported reason he).symm⟩

/-- What one step does to the handles of the submissions. -/
inductive HandleStep (w w' : ServingRuntime Id E) : Prop
  | quiet (hopen : w'.openRequests.Perm w.openRequests) (haccepted : w'.accepted = w.accepted)
      (huid : w'.nextUid = w.nextUid) (hevents : w'.events = w.events)
  | enqueue {submission : Submission Id} (hfresh : submission.uid = w.nextUid)
      (hopen : w'.openRequests.Perm ((submission, []) :: w.openRequests))
      (haccepted : w'.accepted = w.accepted ++ [submission]) (huid : w'.nextUid = w.nextUid + 1)
      (hevents : w'.events = w.events)
  | progress {submission : Submission Id} {tokens new : List ℕ} {event : ServingEvent}
      {rest : List (Submission Id × List ℕ)}
      (hbefore : w.openRequests.Perm ((submission, tokens) :: rest))
      (hopen : w'.openRequests.Perm ((submission, tokens ++ new) :: rest))
      (hevent : event.isTerminal = false) (htokens : event.tokenIds = new)
      (haccepted : w'.accepted = w.accepted) (huid : w'.nextUid = w.nextUid)
      (hevents : w'.events = Function.update w.events submission.uid
        (w.events submission.uid ++ [event]))
  | answer {submission : Submission Id} {tokens : List ℕ} {notes : List ServingEvent}
      {last : ServingEvent}
      (hopen : w.openRequests.Perm ((submission, tokens) :: w'.openRequests))
      (hnotes : ∀ event ∈ notes, event.isTerminal = false ∧ event.tokenIds = [])
      (hlast : last.isTerminal = true)
      (hdone : ∀ reported reason, last = .done reported reason → reported = tokens)
      (haccepted : w'.accepted = w.accepted) (huid : w'.nextUid = w.nextUid)
      (hevents : w'.events = Function.update w.events submission.uid
        (w.events submission.uid ++ (notes ++ [last])))

/-- Every accepted submission is either still open and unanswered, or answered. -/
structure HandleInvariant (w : ServingRuntime Id E) : Prop where
  uids : (w.accepted.map (·.uid)).Nodup
  below : ∀ submission ∈ w.accepted, submission.uid < w.nextUid
  fresh : ∀ uid, w.nextUid ≤ uid → w.events uid = []
  openNodup : (w.openRequests.map (·.1.uid)).Nodup
  openAccepted : ∀ item ∈ w.openRequests, item.1 ∈ w.accepted
  unanswered : ∀ item ∈ w.openRequests, Unanswered (w.events item.1.uid) item.2
  answered : ∀ submission ∈ w.accepted, submission ∉ w.openRequests.map (·.1) →
    Answered (w.events submission.uid)

namespace HandleInvariant

variable {w w' : ServingRuntime Id E}

theorem eq_of_uid {a b : Submission Id} (h : HandleInvariant w) (ha : a ∈ w.accepted)
    (hb : b ∈ w.accepted) (huid : a.uid = b.uid) : a = b :=
  List.inj_on_of_nodup_map h.uids ha hb huid

theorem step (h : HandleInvariant w) (hstep : HandleStep w w') : HandleInvariant w' := by
  cases hstep with
  | quiet hopen haccepted huid hevents =>
    refine ⟨haccepted ▸ h.uids, by rw [haccepted, huid]; exact h.below,
      by rw [huid, hevents]; exact h.fresh, (hopen.map _).nodup_iff.mpr h.openNodup,
      fun item hitem => haccepted ▸ h.openAccepted item (hopen.mem_iff.mp hitem),
      fun item hitem => hevents ▸ h.unanswered item (hopen.mem_iff.mp hitem),
      fun submission hsub hout => ?_⟩
    rw [hevents]
    rw [haccepted] at hsub
    exact h.answered submission hsub fun hmem => hout ((hopen.map _).mem_iff.mpr hmem)
  | @enqueue submission hfresh hopen haccepted huid hevents =>
    have hnew : ∀ other ∈ w.accepted, other.uid ≠ submission.uid := fun other hother he =>
      absurd (h.below other hother) (by omega)
    refine ⟨?_, ?_, ?_, ?_, ?_, ?_, ?_⟩
    · rw [haccepted, List.map_append]
      refine List.nodup_append.mpr ⟨h.uids, by simp, fun a ha b hb hab => ?_⟩
      obtain ⟨other, hother, rfl⟩ := List.mem_map.mp ha
      exact hnew other hother (hab.trans (by simpa using hb))
    · intro other hother
      rw [haccepted] at hother
      rw [huid]
      rcases List.mem_append.mp hother with hold | hlast
      · exact (h.below other hold).trans (Nat.lt_succ_self _)
      · obtain rfl := List.mem_singleton.mp hlast
        omega
    · intro uid hle
      rw [hevents]
      exact h.fresh uid (by omega)
    · refine (hopen.map _).nodup_iff.mpr (List.nodup_cons.mpr ⟨fun hmem => ?_, h.openNodup⟩)
      obtain ⟨item, hitem, he⟩ := List.mem_map.mp hmem
      exact hnew item.1 (h.openAccepted item hitem) he
    · intro item hitem
      rw [haccepted]
      rcases List.mem_cons.mp (hopen.mem_iff.mp hitem) with rfl | hold
      · exact List.mem_append_right _ List.mem_cons_self
      · exact List.mem_append_left _ (h.openAccepted item hold)
    · intro item hitem
      rw [hevents]
      rcases List.mem_cons.mp (hopen.mem_iff.mp hitem) with rfl | hold
      · rw [h.fresh submission.uid hfresh.ge]
        exact ⟨by simp, rfl⟩
      · exact h.unanswered item hold
    · intro other hother hout
      rw [hevents]
      rw [haccepted] at hother
      have hmem := fun x =>
        (hopen.map (fun item : Submission Id × List ℕ => item.1)).mem_iff (a := x)
      rcases List.mem_append.mp hother with hold | hlast
      · exact h.answered other hold fun hin => hout ((hmem other).mpr (List.mem_cons_of_mem _ hin))
      · obtain rfl := List.mem_singleton.mp hlast
        exact absurd ((hmem other).mpr List.mem_cons_self) hout
  | @progress submission tokens new event rest hbefore hopen hevent htokens haccepted huid
      hevents =>
    have hnodup : ((submission.uid) :: rest.map (·.1.uid)).Nodup :=
      (hbefore.map _).nodup_iff.mp h.openNodup
    have hsub : submission ∈ w.accepted :=
      h.openAccepted _ (hbefore.mem_iff.mpr List.mem_cons_self)
    have hsame : (w'.openRequests.map (·.1)).Perm (w.openRequests.map (·.1)) :=
      (hopen.map _).trans (hbefore.map (fun item : Submission Id × List ℕ => item.1)).symm
    refine ⟨haccepted ▸ h.uids, by rw [haccepted, huid]; exact h.below, ?_,
      (hopen.map _).nodup_iff.mpr hnodup, ?_, ?_, ?_⟩
    · intro uid hle
      rw [huid] at hle
      rw [hevents, Function.update_of_ne fun he => absurd (h.below _ hsub) (by omega)]
      exact h.fresh uid hle
    · intro item hitem
      rw [haccepted]
      rcases List.mem_cons.mp (hopen.mem_iff.mp hitem) with rfl | hold
      · exact hsub
      · exact h.openAccepted item (hbefore.mem_iff.mpr (List.mem_cons_of_mem _ hold))
    · intro item hitem
      rcases List.mem_cons.mp (hopen.mem_iff.mp hitem) with rfl | hold
      · obtain ⟨hquiet, hflat⟩ := h.unanswered _ (hbefore.mem_iff.mpr List.mem_cons_self)
        rw [hevents, Function.update_self]
        refine ⟨fun e he => ?_, by simp [List.flatMap_append, hflat, htokens]⟩
        rcases List.mem_append.mp he with hin | hin
        · exact hquiet e hin
        · exact (List.mem_singleton.mp hin) ▸ hevent
      · have hne : item.1.uid ≠ submission.uid := fun he =>
          (List.nodup_cons.mp hnodup).1 (he ▸ List.mem_map_of_mem hold)
        rw [hevents, Function.update_of_ne hne]
        exact h.unanswered item (hbefore.mem_iff.mpr (List.mem_cons_of_mem _ hold))
    · intro other hother hout
      rw [haccepted] at hother
      have hout' : other ∉ w.openRequests.map (·.1) := fun hin => hout (hsame.mem_iff.mpr hin)
      have hne : other.uid ≠ submission.uid := fun he => hout' (by
        rw [h.eq_of_uid hother hsub he]
        exact (hbefore.map _).mem_iff.mpr List.mem_cons_self)
      rw [hevents, Function.update_of_ne hne]
      exact h.answered other hother hout'
  | @answer submission tokens notes last hopen hnotes hlast hdone haccepted huid hevents =>
    have hnodup : (submission.uid :: w'.openRequests.map (·.1.uid)).Nodup :=
      (hopen.map _).nodup_iff.mp h.openNodup
    have hsub : submission ∈ w.accepted :=
      h.openAccepted _ (hopen.mem_iff.mpr List.mem_cons_self)
    refine ⟨haccepted ▸ h.uids, by rw [haccepted, huid]; exact h.below, ?_,
      (List.nodup_cons.mp hnodup).2, ?_, ?_, ?_⟩
    · intro uid hle
      rw [huid] at hle
      rw [hevents, Function.update_of_ne fun he => absurd (h.below _ hsub) (by omega)]
      exact h.fresh uid hle
    · intro item hitem
      rw [haccepted]
      exact h.openAccepted item (hopen.mem_iff.mpr (List.mem_cons_of_mem _ hitem))
    · intro item hitem
      have hne : item.1.uid ≠ submission.uid := fun he =>
        (List.nodup_cons.mp hnodup).1 (he ▸ List.mem_map_of_mem hitem)
      rw [hevents, Function.update_of_ne hne]
      exact h.unanswered item (hopen.mem_iff.mpr (List.mem_cons_of_mem _ hitem))
    · intro other hother hout
      rw [haccepted] at hother
      by_cases he : other = submission
      · subst he
        obtain ⟨hquiet, hflat⟩ := h.unanswered _ (hopen.mem_iff.mpr List.mem_cons_self)
        have hnoted : Unanswered (w.events other.uid ++ notes) tokens := by
          refine ⟨fun e hin => ?_, ?_⟩
          · rcases List.mem_append.mp hin with hin | hin
            · exact hquiet e hin
            · exact (hnotes e hin).1
          · rw [List.flatMap_append, hflat,
              List.flatMap_eq_nil_iff.mpr fun e hin => (hnotes e hin).2, List.append_nil]
        rw [hevents, Function.update_self, ← List.append_assoc]
        exact hnoted.answered hlast hdone
      · have hne : other.uid ≠ submission.uid := fun hu => he (h.eq_of_uid hother hsub hu)
        rw [hevents, Function.update_of_ne hne]
        refine h.answered other hother fun hin => ?_
        rcases List.mem_cons.mp ((hopen.map _).mem_iff.mp hin) with heq | hold
        · exact he heq
        · exact hout hold

end HandleInvariant

end PrismInfer.Serving
