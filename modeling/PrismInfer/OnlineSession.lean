import PrismInfer.Lib.OrderedDict
import PrismInfer.Lib.BinaryFloat
import Mathlib.Data.List.Sort
import Mathlib.Tactic

/-!
# The online session

The event loop of `OnlineServingSession`: arrivals, finished preprocessing and
cancellations are released one after the other, each by clock reads of its own. Times
are floats: the value of a float is the rational it is, and a quotient is rounded. The
clock, the preprocessing workers and the engine's progress are the environment. The
engine is seen through the ids that are live in it. An exception of a preprocessing
worker or of a submission ends the loop and is left out.
-/
set_option linter.unusedSectionVars false

namespace PrismInfer.Online

/-- A value a float can have. -/
abbrev IsFloat (x : ℚ) : Prop := BinaryFloat.Representable 53 (-1074) x

/-- `OnlineRequest` with what `__post_init__` checks about its times. -/
structure OnlineRequest (κ : Type) where
  requestKey : κ
  arrivalOffset : ℚ
  isText : Bool
  cancelOffset : Option ℚ
  arrival_float : IsFloat arrivalOffset
  cancel_float : ∀ offset ∈ cancelOffset, IsFloat offset
  arrival_nonneg : 0 ≤ arrivalOffset
  cancel_after_arrival : ∀ offset ∈ cancelOffset, arrivalOffset ≤ offset

/-- What the loop does not control: the clock reads in order, the preprocessing jobs
that are done when a turn looks at them, the requests that admission rejects, and the
requests that finish in the step of a turn. -/
structure Environment where
  clockNs : ℕ → ℕ
  prepared : ℕ → ℕ → Bool
  rejected : ℕ → Bool
  finishes : ℕ → ℕ → Bool

/-- How a consumed cancellation ended. -/
inductive CancelOutcome
  | applied
  | alreadyFinished
  | dropped
deriving DecidableEq, Repr

/-- `_OnlineRunState` with the engine's live ids. `reads` and `turns` count what the loop
has taken from the environment, and `outcomes` is a ghost log. -/
structure OnlineRunState (κ : Type) where
  startedNs : ℕ
  pending : List (OnlineRequest κ)
  cancellations : List (ℚ × κ)
  internalIds : OrderedDict κ ℕ
  preprocessing : OrderedDict κ ℕ
  admittedKeys : List κ
  deferredCancellations : List κ
  nextRequestId : ℕ
  live : List ℕ
  reads : ℕ
  turns : ℕ
  outcomes : List (κ × CancelOutcome)

namespace OnlineRunState

variable {κ : Type} [LinearOrder κ] (env : Environment) (s : OnlineRunState κ)

def nanosecondsPerSecond : ℤ := 1000000000

/-- The quotient of two integers is the float nearest to it. -/
def trueDivide (a b : ℤ) : ℚ := BinaryFloat.round 53 (-1074) (a / b)

/-- `state.elapsed_seconds(self.clock_ns())`, for the read number `index`. -/
def elapsedAt (index : ℕ) : ℚ :=
  trueDivide ((env.clockNs index : ℤ) - s.startedNs) nanosecondsPerSecond

/-- `engine.is_finished()`. -/
abbrev EngineFinished : Prop := s.live = []

/-- `engine.cancel_request`: whether the request was still in a queue. -/
def cancelRequest (requestId : ℕ) (requestKey : κ) : OnlineRunState κ :=
  { s with
    live := s.live.erase requestId
    outcomes := s.outcomes ++
      [(requestKey, if requestId ∈ s.live then .applied else .alreadyFinished)] }

/-- Admission in the engine. A rejected request never enters a queue. -/
def admitRequest (requestId : ℕ) (requestKey : κ) : OnlineRunState κ :=
  { s with
    live := if env.rejected requestId then s.live else s.live ++ [requestId]
    admittedKeys := s.admittedKeys ++ [requestKey] }

/-- One arrival: a text request is submitted, a media request goes to preprocessing. -/
def arrive (request : OnlineRequest κ) : OnlineRunState κ :=
  let s := { s with
    internalIds := s.internalIds ++ [(request.requestKey, s.nextRequestId)]
    nextRequestId := s.nextRequestId + 1 }
  if request.isText then s.admitRequest env (s.nextRequestId - 1) request.requestKey
  else { s with
    preprocessing := s.preprocessing ++ [(request.requestKey, s.nextRequestId - 1)] }

/-- The loop of `_submit_ready_arrivals`, with one clock read for each round. -/
def submitLoop : List (OnlineRequest κ) → OnlineRunState κ → OnlineRunState κ
  | [], s => { s with pending := [] }
  | request :: rest, s =>
    if s.elapsedAt env s.reads < request.arrivalOffset then
      { s with pending := request :: rest, reads := s.reads + 1 }
    else submitLoop rest ({ s with reads := s.reads + 1 }.arrive env request)

def submitReadyArrivals : OnlineRunState κ := submitLoop env s.pending s

/-- One entry of the snapshot that `_admit_ready_preprocessing` iterates over. -/
def admitPrepared (item : κ × ℕ) : OnlineRunState κ :=
  if env.prepared s.turns item.2 then
    let s := { s.admitRequest env item.2 item.1 with
      preprocessing := s.preprocessing.remove item.1 }
    if item.1 ∈ s.deferredCancellations then
      { s.cancelRequest item.2 item.1 with
        deferredCancellations := s.deferredCancellations.filter (· ≠ item.1) }
    else s
  else s

def admitReadyPreprocessing : OnlineRunState κ :=
  s.preprocessing.foldl (admitPrepared env) s

/-- What `_apply_ready_cancellations` does with one due cancellation. -/
def applyCancellation (requestKey : κ) : OnlineRunState κ :=
  match s.internalIds.get? requestKey with
  | none => { s with outcomes := s.outcomes ++ [(requestKey, .dropped)] }
  | some requestId =>
    if requestKey ∈ s.admittedKeys then s.cancelRequest requestId requestKey
    else { s with deferredCancellations := s.deferredCancellations ++ [requestKey] }

/-- The loop of `_apply_ready_cancellations`, with one clock read for each round. -/
def cancelLoop : List (ℚ × κ) → OnlineRunState κ → OnlineRunState κ
  | [], s => { s with cancellations := [] }
  | item :: rest, s =>
    if s.elapsedAt env s.reads < item.1 then
      { s with cancellations := item :: rest, reads := s.reads + 1 }
    else cancelLoop rest ({ s with reads := s.reads + 1 }.applyCancellation item.2)

def applyReadyCancellations : OnlineRunState κ := cancelLoop env s.cancellations s

/-- One engine step, or the wait for the next event, which reads the clock where an
arrival is outstanding. -/
def executeStepOrWait : OnlineRunState κ :=
  if s.EngineFinished then
    { s with
      reads := if s.pending = [] then s.reads else s.reads + 1
      turns := s.turns + 1 }
  else
    { s with
      live := s.live.filter fun requestId => !env.finishes s.turns requestId
      turns := s.turns + 1 }

/-- The condition of the event loop. -/
abbrev Continues : Prop :=
  s.pending ≠ [] ∨ s.preprocessing ≠ [] ∨ ¬ s.EngineFinished

/-- The state in which a turn starts to look at cancellations. -/
def beforeCancellations : OnlineRunState κ :=
  (s.submitReadyArrivals env).admitReadyPreprocessing env

/-- One turn of `_drive_event_loop`. -/
def turn : OnlineRunState κ :=
  if s.Continues then
    ((s.beforeCancellations env).applyReadyCancellations env).executeStepOrWait env
  else s

end OnlineRunState

open OnlineRunState

variable {κ : Type} [LinearOrder κ]

/-- `_new_run_state`: arrivals by offset, stably; cancellations by offset, then key. -/
def newRunState (env : Environment) (submitted : List (OnlineRequest κ)) : OnlineRunState κ where
  startedNs := env.clockNs 0
  pending := submitted.insertionSort fun a b => a.arrivalOffset ≤ b.arrivalOffset
  cancellations :=
    (submitted.filterMap fun request =>
      request.cancelOffset.map fun offset => (offset, request.requestKey)).insertionSort
        fun a b => a.1 < b.1 ∨ (a.1 = b.1 ∧ a.2 ≤ b.2)
  internalIds := []
  preprocessing := []
  admittedKeys := []
  deferredCancellations := []
  nextRequestId := 0
  live := []
  reads := 1
  turns := 0
  outcomes := []

/-- The state after `n` turns of the event loop. -/
def runTurns (env : Environment) (submitted : List (OnlineRequest κ)) : ℕ → OnlineRunState κ
  | 0 => newRunState env submitted
  | n + 1 => (runTurns env submitted n).turn env

/-- No cancellation was consumed and then forgotten: each waits for its time, waits for
the preprocessing of its request, was applied, or found its request finished. -/
def NoCancellationLost (submitted : List (OnlineRequest κ)) (s : OnlineRunState κ) : Prop :=
  ∀ request ∈ submitted, ∀ offset ∈ request.cancelOffset,
    (offset, request.requestKey) ∈ s.cancellations ∨
    (request.requestKey ∈ s.deferredCancellations ∧
      request.requestKey ∈ s.preprocessing.map (·.1)) ∨
    (request.requestKey, CancelOutcome.applied) ∈ s.outcomes ∨
    (request.requestKey, CancelOutcome.alreadyFinished) ∈ s.outcomes

/-- The cancellation at position `k` comes due among the clock reads of this turn: the
loop reads the clock once for each entry and stops at the first that is not due. -/
def Due (env : Environment) (s : OnlineRunState κ) (k : ℕ) : Prop :=
  ∀ j ≤ k, ∀ item ∈ s.cancellations[j]?, item.1 ≤ s.elapsedAt env (s.reads + j)

/-- No cancellation comes due in this turn whose request the turn's arrival reads have not
released. -/
def ArrivedBeforeDue (env : Environment) (s : OnlineRunState κ) : Prop :=
  ∀ k, Due env s k → ∀ item ∈ s.cancellations[k]?, item.2 ∉ s.pending.map (·.requestKey)

/-- How the loop's bookkeeping hangs together while no cancellation has been lost. -/
structure Consistent (submitted : List (OnlineRequest κ)) (s : OnlineRunState κ) : Prop where
  origin : ∀ item ∈ s.cancellations, item.2 ∈ submitted.map (·.requestKey)
  known : ∀ request ∈ submitted, request ∈ s.pending ∨ request.requestKey ∈ s.internalIds.map (·.1)
  arrived : ∀ key ∈ s.internalIds.map (·.1),
    key ∈ s.admittedKeys ∨ key ∈ s.preprocessing.map (·.1)
  deferred : ∀ key ∈ s.deferredCancellations, key ∈ s.preprocessing.map (·.1)
  kept : NoCancellationLost submitted s

namespace Consistent

variable {env : Environment} {submitted : List (OnlineRequest κ)} {s : OnlineRunState κ}

theorem newRunState : Consistent submitted (Online.newRunState env submitted) := by
  have hmem : ∀ item, item ∈ (Online.newRunState env submitted).cancellations ↔
      ∃ request ∈ submitted, ∃ offset ∈ request.cancelOffset,
        item = (offset, request.requestKey) := by
    intro item
    simp only [Online.newRunState, List.mem_insertionSort, List.mem_filterMap,
      Option.map_eq_some_iff, Option.mem_def]
    exact ⟨fun ⟨r, hr, offset, ho, he⟩ => ⟨r, hr, offset, ho, he.symm⟩,
      fun ⟨r, hr, offset, ho, he⟩ => ⟨r, hr, offset, ho, he.symm⟩⟩
  refine ⟨fun item hitem => ?_, fun request hrequest => .inl ?_, by simp [Online.newRunState],
    by simp [Online.newRunState], fun request hrequest offset hoffset => .inl ?_⟩
  · obtain ⟨request, hrequest, offset, -, rfl⟩ := (hmem item).mp hitem
    exact List.mem_map_of_mem hrequest
  · exact (List.mem_insertionSort _).mpr hrequest
  · exact (hmem _).mpr ⟨request, hrequest, offset, hoffset, rfl⟩

/-- Clock reads decide nothing by themselves. -/
theorem tick (h : Consistent submitted s) (reads : ℕ) :
    Consistent submitted { s with reads := reads } := ⟨h.1, h.2, h.3, h.4, h.5⟩

theorem arrive {request : OnlineRequest κ} {rest : List (OnlineRequest κ)}
    (h : Consistent submitted { s with pending := request :: rest }) :
    Consistent submitted { s.arrive env request with pending := rest } := by
  have hknown : ∀ r ∈ submitted, r ∈ rest ∨
      r.requestKey ∈ (s.internalIds ++ [(request.requestKey, s.nextRequestId)]).map (·.1) := by
    intro r hr
    rcases h.known r hr with hpending | hid
    · rcases List.mem_cons.mp hpending with rfl | hrest
      · exact .inr (by simp)
      · exact .inl hrest
    · exact .inr (by
        rw [List.map_append]
        exact List.mem_append_left _ hid)
  by_cases htext : request.isText = true
  · simp only [OnlineRunState.arrive, htext, if_true, admitRequest]
    refine ⟨h.origin, hknown, fun key hkey => ?_, h.deferred, h.kept⟩
    rw [List.map_append] at hkey
    rcases List.mem_append.mp hkey with hold | hnew
    · exact (h.arrived key hold).imp_left (List.mem_append_left _)
    · exact .inl (List.mem_append_right _ hnew)
  · simp only [OnlineRunState.arrive, htext, Bool.false_eq_true, if_false]
    refine ⟨h.origin, hknown, fun key hkey => ?_, fun key hkey => ?_, fun r hr offset ho => ?_⟩
    · rw [List.map_append] at hkey ⊢
      rcases List.mem_append.mp hkey with hold | hnew
      · exact (h.arrived key hold).imp_right (List.mem_append_left _)
      · exact .inr (List.mem_append_right _ hnew)
    · rw [List.map_append]
      exact List.mem_append_left _ (h.deferred key hkey)
    · refine (h.kept r hr offset ho).imp_right (Or.imp_left (And.imp_right fun hp => ?_))
      rw [List.map_append]
      exact List.mem_append_left _ hp

theorem submitLoop {requests : List (OnlineRequest κ)}
    (h : Consistent submitted { s with pending := requests }) :
    Consistent submitted (Online.OnlineRunState.submitLoop env requests s) := by
  induction requests generalizing s with
  | nil => exact h
  | cons request rest ih =>
    simp only [Online.OnlineRunState.submitLoop]
    split
    · exact h.tick _
    · exact ih (h.tick (s.reads + 1)).arrive

/-- A cancellation that reaches the engine is answered. -/
theorem answered (s : OnlineRunState κ) (requestId : ℕ) (key : κ) :
    (key, CancelOutcome.applied) ∈ (s.cancelRequest requestId key).outcomes ∨
      (key, CancelOutcome.alreadyFinished) ∈ (s.cancelRequest requestId key).outcomes := by
  by_cases hlive : requestId ∈ s.live
  · exact .inl (by simp [cancelRequest, hlive])
  · exact .inr (by simp [cancelRequest, hlive])

theorem mem_keys_remove {dict : OrderedDict κ ℕ} {key other : κ} (hne : other ≠ key)
    (h : other ∈ dict.map (·.1)) : other ∈ (dict.remove key).map (·.1) := by
  obtain ⟨item, hitem, rfl⟩ := List.mem_map.mp h
  exact List.mem_map_of_mem (List.mem_filter.mpr ⟨hitem, by simpa using hne⟩)

theorem admitPrepared {item : κ × ℕ} (h : Consistent submitted s) :
    Consistent submitted (Online.OnlineRunState.admitPrepared env s item) := by
  by_cases hdone : env.prepared s.turns item.2 = true
  · have harrived : ∀ key ∈ s.internalIds.map (·.1), key ∈ s.admittedKeys ++ [item.1] ∨
        key ∈ (s.preprocessing.remove item.1).map (·.1) := by
      intro key hkey
      rcases h.arrived key hkey with hadmitted | hprep
      · exact .inl (List.mem_append_left _ hadmitted)
      · by_cases hne : key = item.1
        · exact .inl (by simp [hne])
        · exact .inr (mem_keys_remove hne hprep)
    by_cases hdeferred : item.1 ∈ s.deferredCancellations
    · simp only [Online.OnlineRunState.admitPrepared, hdone, if_true, admitRequest, hdeferred]
      refine ⟨h.origin, h.known, harrived, fun key hkey => ?_, fun r hr offset ho => ?_⟩
      · obtain ⟨hmem, hne⟩ := List.mem_filter.mp hkey
        exact mem_keys_remove (by simpa using hne) (h.deferred key hmem)
      · by_cases hkey : r.requestKey = item.1
        · rw [hkey]
          exact .inr (.inr (answered _ item.2 item.1))
        · rcases h.kept r hr offset ho with hqueued | ⟨hwait, hprep⟩ | hout | hout
          · exact .inl hqueued
          · exact .inr (.inl ⟨List.mem_filter.mpr ⟨hwait, by simpa using hkey⟩,
              mem_keys_remove hkey hprep⟩)
          · exact .inr (.inr (.inl (List.mem_append_left _ hout)))
          · exact .inr (.inr (.inr (List.mem_append_left _ hout)))
    · simp only [Online.OnlineRunState.admitPrepared, hdone, if_true, admitRequest,
        hdeferred, if_false]
      have hkeep : ∀ key ∈ s.deferredCancellations,
          key ∈ (s.preprocessing.remove item.1).map (·.1) := fun key hkey =>
        mem_keys_remove (fun he => hdeferred (he ▸ hkey)) (h.deferred key hkey)
      refine ⟨h.origin, h.known, harrived, hkeep, fun r hr offset ho => ?_⟩
      exact (h.kept r hr offset ho).imp_right
        (Or.imp_left fun hwait => ⟨hwait.1, hkeep _ hwait.1⟩)
  · simp only [Online.OnlineRunState.admitPrepared, hdone, Bool.false_eq_true, if_false]
    exact h

theorem admitReadyPreprocessing (h : Consistent submitted s) :
    Consistent submitted (s.admitReadyPreprocessing env) := by
  have hloop : ∀ (items : List (κ × ℕ)) (t : OnlineRunState κ), Consistent submitted t →
      Consistent submitted (items.foldl (Online.OnlineRunState.admitPrepared env) t) := by
    intro items
    induction items with
    | nil => exact fun t ht => ht
    | cons item items ih => exact fun t ht => ih _ ht.admitPrepared
  exact hloop s.preprocessing s h

/-- A cancellation whose request has arrived is answered, or waits for preprocessing. -/
theorem applyCancellation {item : ℚ × κ} {rest : List (ℚ × κ)}
    (h : Consistent submitted { s with cancellations := item :: rest })
    (harrived : item.2 ∉ s.pending.map (·.requestKey)) :
    Consistent submitted { s.applyCancellation item.2 with cancellations := rest } := by
  have hid : item.2 ∈ s.internalIds.map (·.1) := by
    obtain ⟨r, hr, hkey⟩ := List.mem_map.mp (h.origin item List.mem_cons_self)
    rcases h.known r hr with hpending | hid
    · exact absurd (List.mem_map.mpr ⟨r, hpending, hkey⟩) harrived
    · exact hkey ▸ hid
  have horigin : ∀ other ∈ rest, other.2 ∈ submitted.map (·.requestKey) :=
    fun other hother => h.origin other (List.mem_cons_of_mem item hother)
  obtain ⟨requestId, hget⟩ : ∃ requestId, s.internalIds.get? item.2 = some requestId :=
    Option.ne_none_iff_exists'.mp fun hnone => OrderedDict.get?_eq_none.mp hnone hid
  by_cases hadmitted : item.2 ∈ s.admittedKeys
  · simp only [OnlineRunState.applyCancellation, hget, hadmitted, if_true]
    refine ⟨horigin, h.known, h.arrived, h.deferred, fun r hr offset ho => ?_⟩
    rcases h.kept r hr offset ho with hqueued | hwait | hout | hout
    · rcases List.mem_cons.mp hqueued with rfl | hrest
      · exact .inr (.inr (answered s requestId r.requestKey))
      · exact .inl hrest
    · exact .inr (.inl hwait)
    · exact .inr (.inr (.inl (List.mem_append_left _ hout)))
    · exact .inr (.inr (.inr (List.mem_append_left _ hout)))
  · have hprep := (h.arrived item.2 hid).resolve_left hadmitted
    simp only [OnlineRunState.applyCancellation, hget, hadmitted, if_false]
    refine ⟨horigin, h.known, h.arrived, fun key hkey => ?_, fun r hr offset ho => ?_⟩
    · rcases List.mem_append.mp hkey with hold | hnew
      · exact h.deferred key hold
      · exact (List.mem_singleton.mp hnew) ▸ hprep
    · rcases h.kept r hr offset ho with hqueued | hwait | hout
      · rcases List.mem_cons.mp hqueued with rfl | hrest
        · exact .inr (.inl ⟨List.mem_append_right _ List.mem_cons_self, hprep⟩)
        · exact .inl hrest
      · exact .inr (.inl ⟨List.mem_append_left _ hwait.1, hwait.2⟩)
      · exact .inr (.inr hout)

theorem cancelLoop {items : List (ℚ × κ)}
    (h : Consistent submitted { s with cancellations := items })
    (harrived : ArrivedBeforeDue env { s with cancellations := items }) :
    Consistent submitted (Online.OnlineRunState.cancelLoop env items s) := by
  induction items generalizing s with
  | nil => exact h
  | cons item rest ih =>
    simp only [Online.OnlineRunState.cancelLoop]
    split
    · exact h.tick _
    · next hdue =>
      have hfirst : Due env { s with cancellations := item :: rest } 0 := by
        intro j hj other hother
        obtain rfl : j = 0 := Nat.le_zero.mp hj
        obtain rfl : item = other := by simpa using hother
        exact not_lt.mp hdue
      have hnext : Consistent submitted { { s with reads := s.reads + 1 }.applyCancellation
          item.2 with cancellations := rest } :=
        applyCancellation (s := { s with reads := s.reads + 1 }) (h.tick (s.reads + 1))
          (harrived 0 hfirst item (by simp))
      have hsame : ∀ key : κ, ({ s with reads := s.reads + 1 }.applyCancellation key).pending =
          s.pending ∧ ({ s with reads := s.reads + 1 }.applyCancellation key).reads = s.reads + 1 ∧
          ({ s with reads := s.reads + 1 }.applyCancellation key).startedNs = s.startedNs := by
        intro key
        simp only [OnlineRunState.applyCancellation]
        split
        · exact ⟨rfl, rfl, rfl⟩
        · split <;> exact ⟨rfl, rfl, rfl⟩
      refine ih hnext fun k hk other hother => ?_
      obtain ⟨hpending, hreads, hstarted⟩ := hsame item.2
      rw [hpending]
      refine harrived (k + 1) (fun j hj x hx => ?_) other (by simpa using hother)
      cases j with
      | zero => exact hfirst 0 le_rfl x hx
      | succ j =>
        have hread := hk j (by omega) x (by simpa using hx)
        simp only [elapsedAt, hreads, hstarted] at hread ⊢
        rwa [show s.reads + (j + 1) = s.reads + 1 + j by omega]

theorem turn (h : Consistent submitted s)
    (harrived : s.Continues → ArrivedBeforeDue env (s.beforeCancellations env)) :
    Consistent submitted (s.turn env) := by
  simp only [Online.OnlineRunState.turn]
  split
  · next hgo =>
    have hbefore : Consistent submitted (s.beforeCancellations env) :=
      (submitLoop h).admitReadyPreprocessing
    have hafter : Consistent submitted ((s.beforeCancellations env).applyReadyCancellations env) :=
      cancelLoop hbefore (harrived hgo)
    simp only [executeStepOrWait]
    split <;> exact ⟨hafter.1, hafter.2, hafter.3, hafter.4, hafter.5⟩
  · exact h

end Consistent

/-- In a run in which no cancellation comes due between the arrival reads and the
cancellation reads of a turn ahead of its request, no cancellation is lost; when the loop
ends, those that are left name requests which arrived and are not live any more. -/
theorem cancellations_kept (env : Environment) (submitted : List (OnlineRequest κ)) (n : ℕ)
    (harrived : ∀ m < n, (runTurns env submitted m).Continues →
      ArrivedBeforeDue env ((runTurns env submitted m).beforeCancellations env)) :
    NoCancellationLost submitted (runTurns env submitted n) ∧
      (¬ (runTurns env submitted n).Continues →
        (runTurns env submitted n).deferredCancellations = [] ∧
          (runTurns env submitted n).live = [] ∧
          ∀ request ∈ submitted,
            request.requestKey ∈ (runTurns env submitted n).internalIds.map (·.1)) := by
  have hc : ∀ m ≤ n, Consistent submitted (runTurns env submitted m) := by
    intro m
    induction m with
    | zero => exact fun _ => .newRunState
    | succ m ih => exact fun hm => (ih (by omega)).turn (harrived m (by omega))
  have h := hc n le_rfl
  refine ⟨h.kept, fun hstop => ?_⟩
  simp only [Continues, not_or, not_not] at hstop
  obtain ⟨hpending, hprep, hfinished⟩ := hstop
  refine ⟨List.eq_nil_iff_forall_not_mem.mpr fun key hkey => ?_, hfinished, fun r hr => ?_⟩
  · simpa [hprep] using h.deferred key hkey
  · simpa [hpending] using h.known r hr

theorem isFloat_one : IsFloat 1 := by
  exact_mod_cast BinaryFloat.representable_natCast (n := 1) (by norm_num) (by norm_num)

theorem isFloat_two : IsFloat 2 := by
  exact_mod_cast BinaryFloat.representable_natCast (n := 2) (by norm_num) (by norm_num)

/-- A request that arrives after one second and is cancelled after two. -/
def patientRequest : OnlineRequest ℕ where
  requestKey := 0
  arrivalOffset := 1
  isText := true
  cancelOffset := some 2
  arrival_float := isFloat_one
  cancel_float _ h := (Option.some.inj h) ▸ isFloat_two
  arrival_nonneg := zero_le_one
  cancel_after_arrival _ h := (Option.some.inj h) ▸ one_le_two

/-- All reads behind the first are three seconds later. -/
def steadyClock : Environment where
  clockNs read := if read = 0 then 0 else 3000000000
  prepared _ _ := true
  rejected _ := false
  finishes _ _ := false

theorem cancellations_kept_steady :
    NoCancellationLost [patientRequest] (runTurns steadyClock [patientRequest] 1) := by
  refine (cancellations_kept steadyClock [patientRequest] 1 fun m hm _ k _ item _ => ?_).1
  obtain rfl : m = 0 := by omega
  have hnone : ((runTurns steadyClock [patientRequest] 0).beforeCancellations
      steadyClock).pending.map (·.requestKey) = [] := by decide +kernel
  rw [hnone]
  exact List.not_mem_nil

/-- One second after the start a request arrives and is cancelled at once; the clock reads
half a second for the arrivals of the first turn and two seconds for its cancellations. -/
def lateRequest : OnlineRequest ℕ where
  requestKey := 0
  arrivalOffset := 1
  isText := true
  cancelOffset := some 1
  arrival_float := isFloat_one
  cancel_float _ h := (Option.some.inj h) ▸ isFloat_one
  arrival_nonneg := zero_le_one
  cancel_after_arrival _ h := (Option.some.inj h) ▸ le_rfl

def jumpingClock : Environment where
  clockNs read := if read = 0 then 0 else if read = 1 then 500000000 else 2000000000
  prepared _ _ := true
  rejected _ := false
  finishes _ _ := false

theorem cancellation_lost :
    Monotone jumpingClock.clockNs ∧
      ¬ NoCancellationLost [lateRequest] (runTurns jumpingClock [lateRequest] 1) ∧
      (runTurns jumpingClock [lateRequest] 1).outcomes = [(0, CancelOutcome.dropped)] ∧
      (runTurns jumpingClock [lateRequest] 2).live = [0] := by
  refine ⟨fun a b hab => ?_, fun h => ?_, by decide +kernel, by decide +kernel⟩
  · simp only [jumpingClock]
    split_ifs <;> omega
  · have hlost := h lateRequest List.mem_cons_self 1 rfl
    revert hlost
    decide +kernel

end PrismInfer.Online
