import Mathlib.Tactic

/-!
# Tensor-parallel control

Rank 0, its workers and the duplex channels between them, as a step relation. Workers
may crash or answer at any time; channels are FIFO, and what one end sends is what the
other end decodes. `issued`, `sent`, `executed`, `answered`, `counted`, `mark` and
`completions` are ghost fields, and a response travels with the execution it answers; no
step depends on them.
-/
namespace PrismInfer.TPControl

inductive TPMethod
  | copyKvBlocks
  | copyKvBlockPrefixes
  | swapBlocks
  | runPlan
  | executeSingleGreedyDecodeCudagraphState
  | compactKvCache
  | run
  | exit
deriving DecidableEq, Repr

structure TPCommand (Arg : Type) where
  requestId : ℕ
  method : TPMethod
  args : List Arg

inductive TPResponseStatus
  | ok
  | error (errorType errorMessage tracebackText : String)
deriving DecidableEq, Repr

structure TPResponse (n : ℕ) where
  requestId : ℕ
  workerRank : Fin n
  status : TPResponseStatus

/-- A worker in `ModelRunner.loop`. -/
inductive Worker (Arg : Type)
  | ready
  | busy (command : TPCommand Arg)
  | exited

/-- Rank 0 in `ModelRunner.call`: not in a call, in `broadcast` with the ranks left to
send to, or in `await_responses`. -/
inductive Caller (Arg : Type) (n : ℕ)
  | idle
  | sending (command : TPCommand Arg) (rest : List (Fin n))
  | awaiting (command : TPCommand Arg) (pending : List (Fin n)) (failures : List (TPResponse n))
      (localError : Bool)

variable {Arg : Type} {n : ℕ}

/-- A command that was executed, with its result once there is one. -/
abbrev Execution (Arg : Type) := TPCommand Arg × Option TPResponseStatus

structure World (Arg : Type) (n : ℕ) where
  nextRequestId : ℕ
  caller : Caller Arg n
  workers : Fin n → Worker Arg
  commands : Fin n → List (TPCommand Arg)
  responses : Fin n → List (TPResponse n × Execution Arg)
  issued : List (TPCommand Arg)
  sent : Fin n → List (TPCommand Arg)
  executed : Fin n → List (Execution Arg)
  /-- Executions whose response rank 0 has read. -/
  answered : Fin n → List (Execution Arg)
  /-- Responses read while waiting for a command, with the command they were counted for. -/
  counted : Fin n → List (TPCommand Arg × Execution Arg)
  /-- Executions begun before the current call. -/
  mark : Fin n → ℕ
  /-- Calls that returned, with what each worker executed meanwhile. -/
  completions : List (TPCommand Arg × (Fin n → List (Execution Arg)))

namespace World

def initial (Arg : Type) (n : ℕ) : World Arg n where
  nextRequestId := 0
  caller := .idle
  workers _ := .ready
  commands _ := []
  responses _ := []
  issued := []
  sent _ := []
  executed _ := []
  answered _ := []
  counted _ := []
  mark _ := 0
  completions := []

variable (w : World Arg n)

/-- `next_command`. -/
def nextCommand (method : TPMethod) (args : List Arg) : TPCommand Arg :=
  ⟨w.nextRequestId, method, args⟩

/-- The start of a call whose method both sides know. -/
def begin (method : TPMethod) (args : List Arg) : World Arg n :=
  { w with
    nextRequestId := w.nextRequestId + 1
    caller := .sending (w.nextCommand method args) (List.finRange n)
    issued := w.issued ++ [w.nextCommand method args]
    mark := fun rank => (w.executed rank).length }

/-- An exception leaves the call; what the channels hold stays there. -/
def raised : World Arg n := { w with caller := .idle }

def send (command : TPCommand Arg) (rank : Fin n) (rest : List (Fin n)) : World Arg n :=
  { w with
    caller := .sending command rest
    commands := Function.update w.commands rank (w.commands rank ++ [command])
    sent := Function.update w.sent rank (w.sent rank ++ [command]) }

/-- Take the first response of a channel. -/
def readResponse (rank : Fin n) : World Arg n :=
  { w with
    responses := Function.update w.responses rank (w.responses rank).tail
    answered := Function.update w.answered rank
      (w.answered rank ++ (w.responses rank).head?.toList.map (·.2)) }

/-- A response that passed both checks of `await_responses`. -/
def count (command : TPCommand Arg) (rank : Fin n) (response : TPResponse n)
    (execution : Execution Arg) (pending : List (Fin n)) (failures : List (TPResponse n))
    (localError : Bool) : World Arg n :=
  { w.readResponse rank with
    caller := .awaiting command (pending.erase rank)
      (if response.status = .ok then failures else failures ++ [response]) localError
    counted := Function.update w.counted rank (w.counted rank ++ [(command, execution)]) }

/-- The return of a call. -/
def returned (command : TPCommand Arg) : World Arg n :=
  { w with
    caller := .idle
    completions := w.completions ++
      [(command, fun rank => (w.executed rank).drop (w.mark rank))] }

def setWorker (rank : Fin n) (worker : Worker Arg) : World Arg n :=
  { w with workers := Function.update w.workers rank worker }

/-- `read_command`. -/
def readCommand (rank : Fin n) (command : TPCommand Arg) : World Arg n :=
  { w.setWorker rank (.busy command) with
    commands := Function.update w.commands rank (w.commands rank).tail
    executed := Function.update w.executed rank (w.executed rank ++ [(command, none)]) }

/-- The local method has returned or raised. -/
def finishLocal (rank : Fin n) (command : TPCommand Arg) (status : TPResponseStatus)
    (worker : Worker Arg) : World Arg n :=
  { w.setWorker rank worker with
    executed := Function.update w.executed rank
      ((w.executed rank).dropLast ++ [(command, some status)]) }

def respond (rank : Fin n) (command : TPCommand Arg) (status : TPResponseStatus) : World Arg n :=
  { w with
    responses := Function.update w.responses rank
      (w.responses rank ++ [(⟨command.requestId, rank, status⟩, (command, some status))]) }

/-- The worker after one round of its loop: it ends after `exit` and after an error. -/
def afterCommand (command : TPCommand Arg) : TPResponseStatus → Worker Arg
  | .ok => if command.method = .exit then .exited else .ready
  | .error _ _ _ => .exited

end World

open World

inductive Step : World Arg n → World Arg n → Prop
  | call {w : World Arg n} (method : TPMethod) (args : List Arg) (hidle : w.caller = .idle) :
      Step w (w.begin method args)
  /-- `serialize_command` raised: the id is used up. -/
  | serializeFails {w : World Arg n} (method : TPMethod) (args : List Arg)
      (hidle : w.caller = .idle) : Step w (w.begin method args).raised
  | send {w : World Arg n} {command : TPCommand Arg} {rank : Fin n} {rest : List (Fin n)}
      (hcaller : w.caller = .sending command (rank :: rest)) : Step w (w.send command rank rest)
  | sendFails {w : World Arg n} {command : TPCommand Arg} {rank : Fin n} {rest : List (Fin n)}
      (hcaller : w.caller = .sending command (rank :: rest)) : Step w w.raised
  /-- Rank 0 runs the method itself once every worker has the command. -/
  | invokeLocal {w : World Arg n} {command : TPCommand Arg} (localError : Bool)
      (hcaller : w.caller = .sending command []) :
      Step w { w with caller := .awaiting command (List.finRange n) [] localError }
  | ack {w : World Arg n} {command : TPCommand Arg} {pending : List (Fin n)}
      {failures : List (TPResponse n)} {localError : Bool} {rank : Fin n}
      {response : TPResponse n} {execution : Execution Arg}
      (hcaller : w.caller = .awaiting command pending failures localError)
      (hrank : rank ∈ pending) (hread : (w.responses rank).head? = some (response, execution))
      (hworker : response.workerRank = rank) (hid : response.requestId = command.requestId) :
      Step w (w.count command rank response execution pending failures localError)
  /-- A response of another rank or of another command raises. -/
  | stale {w : World Arg n} {command : TPCommand Arg} {pending : List (Fin n)}
      {failures : List (TPResponse n)} {localError : Bool} {rank : Fin n}
      {response : TPResponse n} {execution : Execution Arg}
      (hcaller : w.caller = .awaiting command pending failures localError)
      (hrank : rank ∈ pending) (hread : (w.responses rank).head? = some (response, execution))
      (hmismatch : ¬ (response.workerRank = rank ∧ response.requestId = command.requestId)) :
      Step w (w.readResponse rank).raised
  /-- The deadline passed, or a channel was closed. -/
  | giveUp {w : World Arg n} {command : TPCommand Arg} {pending : List (Fin n)}
      {failures : List (TPResponse n)} {localError : Bool}
      (hcaller : w.caller = .awaiting command pending failures localError)
      (hpending : pending ≠ []) : Step w w.raised
  /-- All ranks answered, but one of them or rank 0 itself failed. -/
  | reportFailure {w : World Arg n} {command : TPCommand Arg}
      {failures : List (TPResponse n)} {localError : Bool}
      (hcaller : w.caller = .awaiting command [] failures localError)
      (hfailed : failures ≠ [] ∨ localError = true) : Step w w.raised
  | return {w : World Arg n} {command : TPCommand Arg}
      (hcaller : w.caller = .awaiting command [] [] false) : Step w (w.returned command)
  | readCommand {w : World Arg n} {rank : Fin n} {command : TPCommand Arg}
      (hready : w.workers rank = .ready) (hread : (w.commands rank).head? = some command) :
      Step w (w.readCommand rank command)
  | execute {w : World Arg n} {rank : Fin n} {command : TPCommand Arg}
      (status : TPResponseStatus) (hbusy : w.workers rank = .busy command) :
      Step w ((w.finishLocal rank command status (afterCommand command status)).respond rank
        command status)
  /-- The response cannot be sent: the worker ends. -/
  | respondFails {w : World Arg n} {rank : Fin n} {command : TPCommand Arg}
      (status : TPResponseStatus) (hbusy : w.workers rank = .busy command) :
      Step w (w.finishLocal rank command status .exited)
  | crash {w : World Arg n} (rank : Fin n) : Step w (w.setWorker rank .exited)

abbrev Run : World Arg n → World Arg n → Prop := Relation.ReflTransGen Step

/-! ### The invariant -/

/-- The channels of one worker: commands are received in the order they were issued, and
responses come back in the order of the executions. -/
structure Channel (w : World Arg n) (rank : Fin n) : Prop where
  issued : (w.sent rank).Sublist w.issued
  received : w.sent rank = (w.executed rank).map (·.1) ++ w.commands rank
  answers : w.answered rank ++ (w.responses rank).map (·.2) <+: w.executed rank
  labelled : ∀ item ∈ w.responses rank, item.1.requestId = item.2.1.requestId ∧
    item.1.workerRank = rank ∧ item.2.2 = some item.1.status
  ready : w.workers rank = .ready →
    w.executed rank = w.answered rank ++ (w.responses rank).map (·.2)
  busy : ∀ command, w.workers rank = .busy command →
    w.executed rank = w.answered rank ++ (w.responses rank).map (·.2) ++ [(command, none)]
  counted : ∀ item ∈ w.counted rank, item.2.1 = item.1

/-- Rank 0 is in a call for `command` and has not read a response of `rank` yet. -/
def Waiting (w : World Arg n) (command : TPCommand Arg) (rank : Fin n) : Prop :=
  ∃ before, w.sent rank = before ++ [command] ∧ (w.answered rank).length ≤ w.mark rank ∧
    w.mark rank ≤ before.length ∧ command ∉ before

/-- The response of `rank` for `command` has been counted. -/
def Counted (w : World Arg n) (command : TPCommand Arg) (failures : List (TPResponse n))
    (rank : Fin n) : Prop :=
  w.commands rank = [] ∧ (∀ other, w.workers rank ≠ .busy other) ∧
    ∃ status, (w.executed rank).drop (w.mark rank) = [(command, some status)] ∧
      (status = .ok ∨ failures ≠ [])

/-- What rank 0 knows at each point of a call. -/
def CallInvariant (w : World Arg n) : Prop :=
  match w.caller with
  | .idle => True
  | .sending command rest =>
    command ∈ w.issued ∧ rest.Nodup ∧
      (∀ rank ∈ rest, (w.answered rank).length ≤ w.mark rank ∧
        w.mark rank ≤ (w.sent rank).length ∧ command ∉ w.sent rank ∧
        (w.sent rank ++ [command]).Sublist w.issued) ∧
      ∀ rank, rank ∉ rest → Waiting w command rank
  | .awaiting command pending failures _ =>
    pending.Nodup ∧ (∀ rank ∈ pending, Waiting w command rank) ∧
      ∀ rank, rank ∉ pending → Counted w command failures rank

structure Invariant (w : World Arg n) : Prop where
  fresh : ∀ command ∈ w.issued, command.requestId < w.nextRequestId
  ordered : w.issued.Pairwise fun a b => a.requestId < b.requestId
  channel : ∀ rank, Channel w rank
  call : CallInvariant w
  completed : ∀ item ∈ w.completions, ∀ rank, item.2 rank = [(item.1, some .ok)]

theorem Invariant.initial : Invariant (World.initial Arg n) where
  fresh := by simp [World.initial]
  ordered := by simp [World.initial]
  channel rank := by constructor <;> simp [World.initial]
  call := trivial
  completed := by simp [World.initial]

variable {w w' : World Arg n} {command : TPCommand Arg} {rank : Fin n}

/-- Ids are unique among issued commands. -/
theorem Invariant.eq_of_id {other : TPCommand Arg} (h : Invariant w) (hc : command ∈ w.issued)
    (ho : other ∈ w.issued) (hid : other.requestId = command.requestId) : other = command := by
  obtain ⟨i, hi, rfl⟩ := List.getElem_of_mem hc
  obtain ⟨j, hj, rfl⟩ := List.getElem_of_mem ho
  have hlt := List.pairwise_iff_getElem.mp h.ordered
  rcases Nat.lt_trichotomy i j with hij | rfl | hij
  · have := hlt i j hi hj hij
    omega
  · rfl
  · have := hlt j i hj hi hij
    omega

/-- The first response read in a call answers the command of that call only where nothing
else was outstanding: then the worker has executed this command since the call began, and
nothing else. -/
theorem Waiting.counted {response : TPResponse n} {execution : Execution Arg}
    (h : Invariant w) (hw : Waiting w command rank)
    (hread : (w.responses rank).head? = some (response, execution))
    (hid : response.requestId = command.requestId) :
    execution = (command, some response.status) ∧ w.commands rank = [] ∧
      (∀ other, w.workers rank ≠ .busy other) ∧
      (w.executed rank).drop (w.mark rank) = [(command, some response.status)] := by
  obtain ⟨before, hsent, hanswered, hmark, hnew⟩ := hw
  have hch := h.channel rank
  obtain ⟨rest, hresponses⟩ : ∃ rest, w.responses rank = (response, execution) :: rest := by
    cases hr : w.responses rank with
    | nil => simp [hr] at hread
    | cons item rest =>
      obtain rfl : item = (response, execution) := by simpa [hr] using hread
      exact ⟨rest, rfl⟩
  obtain ⟨hlabel, -, hstatus⟩ :=
    hch.labelled (response, execution) (hresponses ▸ List.mem_cons_self)
  have hlead := hch.answers
  rw [hresponses, List.map_cons] at hlead
  obtain ⟨tail, htail⟩ := hlead
  -- The executed command has the id of this call, so it is this call's command.
  have hsentIssued : ∀ c ∈ w.sent rank, c ∈ w.issued := fun c hc => hch.issued.subset hc
  have hexecuted : execution.1 ∈ w.sent rank := by
    rw [hch.received, ← htail]
    simp
  have hcommand : execution.1 = command :=
    h.eq_of_id (hsentIssued _ (by rw [hsent]; simp)) (hsentIssued _ hexecuted)
      (hlabel.symm.trans hid)
  obtain rfl : execution = (command, some response.status) := Prod.ext hcommand hstatus
  -- It stands behind everything that was sent earlier.
  have hreceived : (w.answered rank).map (·.1) ++ command ::
      (rest.map (·.2.1) ++ tail.map (·.1) ++ w.commands rank) = before ++ [command] := by
    rw [← hsent, hch.received, ← htail]
    simp [List.map_map, Function.comp_def]
  have hlength : before.length ≤ (w.answered rank).length := by
    by_contra hlt
    refine hnew ?_
    have hat : (before ++ [command])[(w.answered rank).length]? = some command := by
      rw [← hreceived, List.getElem?_append_right (by simp)]
      simp
    rw [List.getElem?_append_left (by omega)] at hat
    exact List.mem_of_getElem? hat
  have hend := congrArg List.length hreceived
  simp only [List.length_append, List.length_cons, List.length_map, List.length_nil] at hend
  obtain rfl : rest = [] := List.length_eq_zero_iff.mp (by omega)
  obtain rfl : tail = [] := List.length_eq_zero_iff.mp (by omega)
  have hexec : w.executed rank = w.answered rank ++ [(command, some response.status)] := by
    rw [← htail]
    simp
  refine ⟨rfl, List.length_eq_zero_iff.mp (by omega), fun other hbusy => ?_, ?_⟩
  · have := congrArg List.length (hch.busy other hbusy)
    rw [hexec, hresponses] at this
    simp at this
  · rw [hexec, List.drop_append_of_le_length (by omega),
      List.drop_eq_nil_of_le (by omega), List.nil_append]

/-! ### Frames -/

theorem Channel.frame (h : Channel w rank) (hissued : w.issued.Sublist w'.issued)
    (hsent : w'.sent rank = w.sent rank) (hexecuted : w'.executed rank = w.executed rank)
    (hcommands : w'.commands rank = w.commands rank)
    (hresponses : w'.responses rank = w.responses rank)
    (hanswered : w'.answered rank = w.answered rank)
    (hcounted : w'.counted rank = w.counted rank) (hworker : w'.workers rank = w.workers rank) :
    Channel w' rank where
  issued := hsent ▸ h.issued.trans hissued
  received := by rw [hsent, hexecuted, hcommands, h.received]
  answers := by rw [hanswered, hresponses, hexecuted]; exact h.answers
  labelled := hresponses ▸ h.labelled
  ready hready := by rw [hanswered, hresponses, hexecuted]; exact h.ready (hworker ▸ hready)
  busy c hbusy := by rw [hanswered, hresponses, hexecuted]; exact h.busy c (hworker ▸ hbusy)
  counted := hcounted ▸ h.counted

theorem Waiting.frame (h : Waiting w command rank) (hsent : w'.sent rank = w.sent rank)
    (hanswered : w'.answered rank = w.answered rank) (hmark : w'.mark rank = w.mark rank) :
    Waiting w' command rank := by
  obtain ⟨before, h₁, h₂, h₃, h₄⟩ := h
  exact ⟨before, hsent.trans h₁, by rw [hanswered, hmark]; exact h₂, hmark ▸ h₃, h₄⟩

theorem Counted.frame {failures failures' : List (TPResponse n)}
    (h : Counted w command failures rank) (hcommands : w'.commands rank = w.commands rank)
    (hworker : w'.workers rank = w.workers rank)
    (hexecuted : w'.executed rank = w.executed rank) (hmark : w'.mark rank = w.mark rank)
    (hfailures : failures ≠ [] → failures' ≠ []) : Counted w' command failures' rank := by
  obtain ⟨hempty, hfree, status, hdrop, hok⟩ := h
  exact ⟨hcommands.trans hempty, hworker ▸ hfree, status, by rw [hexecuted, hmark, hdrop],
    hok.imp_right hfailures⟩

/-- A step of one worker keeps what rank 0 knows about its call. -/
theorem CallInvariant.frame (h : CallInvariant w) (hcaller : w'.caller = w.caller)
    (hissued : w'.issued = w.issued) (hsent : w'.sent = w.sent)
    (hanswered : w'.answered = w.answered) (hmark : w'.mark = w.mark)
    (hcounted : ∀ command failures rank, Counted w command failures rank →
      Counted w' command failures rank) : CallInvariant w' := by
  simp only [CallInvariant, hcaller] at h ⊢
  split at h
  · trivial
  · simp only [hissued, hsent, hanswered, hmark]
    exact ⟨h.1, h.2.1, h.2.2.1, fun r hr =>
      (h.2.2.2 r hr).frame (congrFun hsent r) (congrFun hanswered r) (congrFun hmark r)⟩
  · exact ⟨h.1, fun r hr =>
      (h.2.1 r hr).frame (congrFun hsent r) (congrFun hanswered r) (congrFun hmark r),
      fun r hr => hcounted _ _ r (h.2.2 r hr)⟩

/-! ### Preservation -/

theorem Invariant.begin (h : Invariant w) (method : TPMethod) (args : List Arg) :
    Invariant (w.begin method args) where
  fresh c hc := by
    rcases List.mem_append.mp hc with hold | hnew
    · exact (h.fresh c hold).trans (Nat.lt_succ_self _)
    · obtain rfl := List.mem_singleton.mp hnew
      exact Nat.lt_succ_self _
  ordered := List.pairwise_append.mpr ⟨h.ordered, List.pairwise_singleton _ _,
    fun a ha b hb => (List.mem_singleton.mp hb) ▸ h.fresh a ha⟩
  channel rank := (h.channel rank).frame (List.sublist_append_left _ _) rfl rfl rfl rfl rfl rfl rfl
  call := by
    refine ⟨List.mem_append_right _ List.mem_cons_self, List.nodup_finRange n, fun rank _ => ?_,
      fun rank hrank => absurd (List.mem_finRange rank) hrank⟩
    have hch := h.channel rank
    refine ⟨?_, ?_, fun hold => ?_, hch.issued.append (List.Sublist.refl _)⟩
    · have := hch.answers.length_le
      simp only [List.length_append] at this
      exact (Nat.le_add_right _ _).trans this
    · have := congrArg List.length hch.received
      simp only [List.length_append, List.length_map] at this
      exact (Nat.le_add_right _ _).trans_eq this.symm
    · exact absurd (h.fresh _ (hch.issued.subset hold)) (lt_irrefl _)
  completed := h.completed

theorem Invariant.raised (h : Invariant w) : Invariant w.raised where
  fresh := h.fresh
  ordered := h.ordered
  channel rank := (h.channel rank).frame (List.Sublist.refl _) rfl rfl rfl rfl rfl rfl rfl
  call := trivial
  completed := h.completed

theorem Invariant.send {rest : List (Fin n)} (h : Invariant w)
    (hcaller : w.caller = .sending command (rank :: rest)) :
    Invariant (w.send command rank rest) := by
  have hcall := h.call
  simp only [CallInvariant, hcaller] at hcall
  obtain ⟨hissued, hnodup, hrest, hdone⟩ := hcall
  obtain ⟨hnew, hnodup⟩ := List.nodup_cons.mp hnodup
  refine ⟨h.fresh, h.ordered, fun r => ?_, ⟨hissued, hnodup, fun r hr => ?_, fun r hr => ?_⟩,
    h.completed⟩
  · by_cases hr : r = rank
    · subst hr
      have hch := h.channel r
      refine ⟨?_, ?_, hch.answers, hch.labelled, hch.ready, hch.busy, hch.counted⟩
      · simpa [World.send] using (hrest r List.mem_cons_self).2.2.2
      · simp [World.send, hch.received]
    · exact (h.channel r).frame (List.Sublist.refl _) (by simp [World.send, hr]) rfl
        (by simp [World.send, hr]) rfl rfl rfl rfl
  · have hne : r ≠ rank := fun he => hnew (he ▸ hr)
    simpa [World.send, hne] using hrest r (List.mem_cons_of_mem rank hr)
  · by_cases he : r = rank
    · subst he
      obtain ⟨h₁, h₂, h₃, -⟩ := hrest r List.mem_cons_self
      exact ⟨w.sent r, by simp [World.send], h₁, h₂, h₃⟩
    · exact (hdone r (by simp [he, hr])).frame (by simp [World.send, he]) rfl rfl

theorem Channel.readResponse (h : Channel w rank) (r : Fin n) :
    Channel (w.readResponse r) rank := by
  by_cases hr : rank = r
  · subst hr
    have hsame : (w.readResponse rank).answered rank ++
        ((w.readResponse rank).responses rank).map (·.2) =
          w.answered rank ++ (w.responses rank).map (·.2) := by
      cases hresponses : w.responses rank <;> simp [World.readResponse, hresponses]
    refine ⟨h.issued, h.received, hsame ▸ h.answers, fun item hitem => ?_, fun hready => ?_,
      fun c hbusy => ?_, h.counted⟩
    · refine h.labelled item (List.mem_of_mem_tail ?_)
      simpa [World.readResponse] using hitem
    · exact (h.ready hready).trans hsame.symm
    · exact (h.busy c hbusy).trans (by rw [hsame])
  · exact h.frame (List.Sublist.refl _) rfl rfl rfl (by simp [World.readResponse, hr])
      (by simp [World.readResponse, hr]) rfl rfl

theorem Invariant.readResponse (h : Invariant w) (r : Fin n) :
    Invariant (w.readResponse r).raised where
  fresh := h.fresh
  ordered := h.ordered
  channel rank := ((h.channel rank).readResponse r).frame (List.Sublist.refl _) rfl rfl rfl rfl rfl
    rfl rfl
  call := trivial
  completed := h.completed

theorem Invariant.ack {pending : List (Fin n)} {failures : List (TPResponse n)}
    {localError : Bool} {response : TPResponse n} {execution : Execution Arg} (h : Invariant w)
    (hcaller : w.caller = .awaiting command pending failures localError)
    (hrank : rank ∈ pending) (hread : (w.responses rank).head? = some (response, execution))
    (hid : response.requestId = command.requestId) :
    Invariant (w.count command rank response execution pending failures localError) := by
  have hcall := h.call
  simp only [CallInvariant, hcaller] at hcall
  obtain ⟨hnodup, hpending, hdone⟩ := hcall
  obtain ⟨rfl, hempty, hfree, hdrop⟩ := (hpending rank hrank).counted h hread hid
  have hgrow : failures ≠ [] →
      (if response.status = .ok then failures else failures ++ [response]) ≠ [] := by
    intro hf
    split_ifs <;> simp [hf]
  refine ⟨h.fresh, h.ordered, fun r => ?_, ⟨hnodup.erase rank, fun r hr => ?_, fun r hr => ?_⟩,
    h.completed⟩
  · have hch := (h.channel r).readResponse rank
    refine ⟨hch.issued, hch.received, hch.answers, hch.labelled, hch.ready, hch.busy, ?_⟩
    intro item hitem
    by_cases he : r = rank
    · subst he
      simp only [World.count, Function.update_self] at hitem
      rcases List.mem_append.mp hitem with hold | hnew
      · exact (h.channel r).counted item hold
      · obtain rfl := List.mem_singleton.mp hnew
        rfl
    · exact (h.channel r).counted item (by simpa [World.count, he] using hitem)
  · have hne : r ≠ rank := fun he => by simp [he, hnodup.mem_erase_iff] at hr
    exact (hpending r (List.mem_of_mem_erase hr)).frame rfl
      (by simp [World.count, World.readResponse, hne]) rfl
  · by_cases he : r = rank
    · subst he
      refine ⟨hempty, hfree, response.status, hdrop, ?_⟩
      by_cases hok : response.status = .ok
      · exact .inl hok
      · exact .inr (by simp [hok])
    · have hold : r ∉ pending := fun hmem => hr ((List.mem_erase_of_ne he).mpr hmem)
      exact (hdone r hold).frame rfl rfl rfl rfl hgrow

theorem Invariant.returned (h : Invariant w)
    (hcaller : w.caller = .awaiting command [] [] false) : Invariant (w.returned command) := by
  have hcall := h.call
  simp only [CallInvariant, hcaller] at hcall
  refine ⟨h.fresh, h.ordered, fun rank => (h.channel rank).frame (List.Sublist.refl _) rfl rfl rfl
    rfl rfl rfl rfl, trivial, fun item hitem rank => ?_⟩
  rcases List.mem_append.mp hitem with hold | hnew
  · exact h.completed item hold rank
  · obtain rfl := List.mem_singleton.mp hnew
    obtain ⟨-, -, status, hdrop, hok⟩ := hcall.2.2 rank List.not_mem_nil
    obtain rfl := hok.resolve_right (fun hf => hf rfl)
    exact hdrop

theorem Invariant.readCommand (h : Invariant w) (hready : w.workers rank = .ready)
    (hread : (w.commands rank).head? = some command) : Invariant (w.readCommand rank command) := by
  obtain ⟨rest, hcommands⟩ : ∃ rest, w.commands rank = command :: rest := by
    cases hc : w.commands rank with
    | nil => simp [hc] at hread
    | cons c rest => exact ⟨rest, by simpa [hc] using hread⟩
  refine ⟨h.fresh, h.ordered, fun r => ?_,
    h.call.frame rfl rfl rfl rfl rfl fun c failures r hr => ?_, h.completed⟩
  · by_cases hr : r = rank
    · subst hr
      have hch := h.channel r
      refine ⟨hch.issued, ?_, ?_, hch.labelled, fun hw => ?_, fun c hw => ?_, hch.counted⟩
      · simp [World.readCommand, World.setWorker, hch.received, hcommands]
      · simpa [World.readCommand, World.setWorker] using
          hch.answers.trans (List.prefix_append _ [(command, none)])
      · simp [World.readCommand, World.setWorker] at hw
      · obtain rfl : command = c := by simpa [World.readCommand, World.setWorker] using hw
        simp [World.readCommand, World.setWorker, hch.ready hready]
    · exact (h.channel r).frame (List.Sublist.refl _) rfl (by simp [World.readCommand, hr])
        (by simp [World.readCommand, hr]) rfl rfl rfl
        (by simp [World.readCommand, World.setWorker, hr])
  · have hne : r ≠ rank := fun he => by simp [he ▸ hr.1] at hread
    exact hr.frame (by simp [World.readCommand, hne])
      (by simp [World.readCommand, World.setWorker, hne]) (by simp [World.readCommand, hne]) rfl id

theorem Invariant.execute {status : TPResponseStatus} (h : Invariant w)
    (hbusy : w.workers rank = .busy command) :
    Invariant ((w.finishLocal rank command status (afterCommand command status)).respond rank
      command status) := by
  refine ⟨h.fresh, h.ordered, fun r => ?_,
    h.call.frame rfl rfl rfl rfl rfl fun c failures r hr => ?_, h.completed⟩
  · by_cases hr : r = rank
    · subst hr
      have hch := h.channel r
      have hexecuted := hch.busy command hbusy
      have hall : ((w.finishLocal r command status (afterCommand command status)).respond r
          command status).executed r =
            w.answered r ++ (w.responses r).map (·.2) ++ [(command, some status)] := by
        simp [World.respond, World.finishLocal, World.setWorker, hexecuted]
      refine ⟨hch.issued, ?_, ?_, fun item hitem => ?_, fun _ => ?_, fun c hw => ?_, hch.counted⟩
      · rw [hall]
        simp [World.respond, World.finishLocal, World.setWorker, hch.received, hexecuted]
      · rw [hall]
        simp [World.respond, World.finishLocal, World.setWorker]
      · simp only [World.respond, World.finishLocal, World.setWorker, Function.update_self] at hitem
        rcases List.mem_append.mp hitem with hold | hnew
        · exact hch.labelled item hold
        · obtain rfl := List.mem_singleton.mp hnew
          exact ⟨rfl, rfl, rfl⟩
      · rw [hall]
        simp [World.respond, World.finishLocal, World.setWorker]
      · simp only [World.respond, World.finishLocal, World.setWorker, Function.update_self] at hw
        cases status <;> simp only [afterCommand] at hw
        · split_ifs at hw
        · simp at hw
    · exact (h.channel r).frame (List.Sublist.refl _) rfl
        (by simp [World.respond, World.finishLocal, hr]) rfl
        (by simp [World.respond, World.finishLocal, World.setWorker, hr]) rfl rfl
        (by simp [World.respond, World.finishLocal, World.setWorker, hr])
  · have hne : r ≠ rank := fun he => hr.2.1 command (he ▸ hbusy)
    exact hr.frame rfl (by simp [World.respond, World.finishLocal, World.setWorker, hne])
      (by simp [World.respond, World.finishLocal, hne]) rfl id

theorem Invariant.respondFails {status : TPResponseStatus} (h : Invariant w)
    (hbusy : w.workers rank = .busy command) :
    Invariant (w.finishLocal rank command status .exited) := by
  refine ⟨h.fresh, h.ordered, fun r => ?_,
    h.call.frame rfl rfl rfl rfl rfl fun c failures r hr => ?_, h.completed⟩
  · by_cases hr : r = rank
    · subst hr
      have hch := h.channel r
      have hexecuted := hch.busy command hbusy
      refine ⟨hch.issued, ?_, ?_, hch.labelled, fun hw => ?_, fun c hw => ?_, hch.counted⟩
      · simp [World.finishLocal, World.setWorker, hch.received, hexecuted]
      · simp [World.finishLocal, World.setWorker, hexecuted]
      · simp [World.finishLocal, World.setWorker] at hw
      · simp [World.finishLocal, World.setWorker] at hw
    · exact (h.channel r).frame (List.Sublist.refl _) rfl (by simp [World.finishLocal, hr]) rfl rfl
        rfl rfl (by simp [World.finishLocal, World.setWorker, hr])
  · have hne : r ≠ rank := fun he => hr.2.1 command (he ▸ hbusy)
    exact hr.frame rfl (by simp [World.finishLocal, World.setWorker, hne])
      (by simp [World.finishLocal, hne]) rfl id

theorem Invariant.crash (h : Invariant w) (rank : Fin n) :
    Invariant (w.setWorker rank .exited) := by
  refine ⟨h.fresh, h.ordered, fun r => ?_,
    h.call.frame rfl rfl rfl rfl rfl fun c failures r hr => ?_, h.completed⟩
  · by_cases hr : r = rank
    · subst hr
      have hch := h.channel r
      exact ⟨hch.issued, hch.received, hch.answers, hch.labelled,
        fun hw => by simp [World.setWorker] at hw, fun c hw => by simp [World.setWorker] at hw,
        hch.counted⟩
    · exact (h.channel r).frame (List.Sublist.refl _) rfl rfl rfl rfl rfl rfl
        (by simp [World.setWorker, hr])
  · obtain ⟨hempty, hfree, hdrop⟩ := hr
    refine ⟨hempty, fun other hw => ?_, hdrop⟩
    by_cases he : r = rank
    · simp [World.setWorker, he] at hw
    · exact hfree other (by simpa [World.setWorker, he] using hw)

theorem Invariant.step (h : Invariant w) (hstep : Step w w') : Invariant w' := by
  cases hstep with
  | call method args _ => exact h.begin method args
  | serializeFails method args _ => exact (h.begin method args).raised
  | send hcaller => exact h.send hcaller
  | sendFails _ => exact h.raised
  | invokeLocal localError hcaller =>
    have hcall := h.call
    simp only [CallInvariant, hcaller] at hcall
    exact ⟨h.fresh, h.ordered, fun rank => (h.channel rank).frame (List.Sublist.refl _) rfl rfl rfl
      rfl rfl rfl rfl, ⟨List.nodup_finRange n, fun rank _ =>
        (hcall.2.2.2 rank List.not_mem_nil).frame rfl rfl rfl,
        fun rank hrank => absurd (List.mem_finRange rank) hrank⟩, h.completed⟩
  | ack hcaller hrank hread _ hid => exact h.ack hcaller hrank hread hid
  | stale _ _ _ _ => exact h.readResponse _
  | giveUp _ _ => exact h.raised
  | reportFailure _ _ => exact h.raised
  | «return» hcaller => exact h.returned hcaller
  | readCommand hready hread => exact h.readCommand hready hread
  | execute status hbusy => exact h.execute hbusy
  | respondFails status hbusy => exact h.respondFails hbusy
  | crash rank => exact h.crash rank

theorem Invariant.run (h : Invariant w) (hrun : Run w w') : Invariant w' := by
  induction hrun with
  | refl => exact h
  | tail _ hlast ih => exact ih.step hlast

/-- Lockstep: in every run, a call that returned had its command executed by every worker
successfully and alone; each worker executes commands that were issued, at most once each
and in their order; and a response is only ever counted for the command it answers. -/
theorem lockstep (hrun : Run (World.initial Arg n) w) :
    (∀ item ∈ w.completions, ∀ rank, item.2 rank = [(item.1, some .ok)]) ∧
      (∀ rank, ((w.executed rank).map (·.1)).Sublist w.issued) ∧
      w.issued.Pairwise (fun a b => a.requestId < b.requestId) ∧
      ∀ rank, ∀ item ∈ w.counted rank, item.2.1 = item.1 := by
  have h := Invariant.initial.run hrun
  refine ⟨h.completed, fun rank => ?_, h.ordered, fun rank => (h.channel rank).counted⟩
  refine List.Sublist.trans ?_ (h.channel rank).issued
  rw [(h.channel rank).received]
  exact List.sublist_append_left _ _

/-- One `run_plan` on one worker, from the call to its return. -/
theorem lockstep_runPlan : ∃ w : World ℕ 1, Run (World.initial ℕ 1) w ∧
    w.completions.map (·.1.method) = [.runPlan] ∧
    ∀ item ∈ w.completions, ∀ rank, item.2 rank = [(item.1, some .ok)] := by
  let command : TPCommand ℕ := ⟨0, .runPlan, []⟩
  let response : TPResponse 1 := ⟨0, 0, .ok⟩
  let called := (World.initial ℕ 1).begin .runPlan []
  let sent := called.send command 0 []
  let waiting : World ℕ 1 := { sent with caller := .awaiting command [0] [] false }
  let reading := waiting.readCommand 0 command
  let done := (reading.finishLocal 0 command .ok .ready).respond 0 command .ok
  let counted := done.count command 0 response (command, some .ok) [0] [] false
  have hcall : Run (World.initial ℕ 1) called := .single (.call .runPlan [] rfl)
  have hsend : Run (World.initial ℕ 1) sent := hcall.tail (.send rfl)
  have hwait : Run (World.initial ℕ 1) waiting := hsend.tail (.invokeLocal false rfl)
  have hread : Run (World.initial ℕ 1) reading := hwait.tail (.readCommand rfl rfl)
  have hdone : Run (World.initial ℕ 1) done := hread.tail (.execute .ok rfl)
  have hcounted : Run (World.initial ℕ 1) counted :=
    hdone.tail (.ack rfl List.mem_cons_self rfl rfl rfl)
  have hrun : Run (World.initial ℕ 1) (counted.returned command) := hcounted.tail (.return rfl)
  exact ⟨_, hrun, rfl, (lockstep hrun).1⟩

end PrismInfer.TPControl
