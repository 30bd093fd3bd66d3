import PrismInfer.TokenStream

/-!
# The engine under the serving runtime

What the runtime calls of its engine, and what it may rely on: a submitted request is new, the
tokens of the batches are the tokens of the outputs, and no call forgets a request. The engine
of the repository keeps this contract after any completed calls.
-/
set_option linter.unusedSectionVars false

namespace PrismInfer
open StateExcept EveryRun Scheduler

/-- `finish_reason`. -/
def RequestOutput.finishReason (output : RequestOutput) : String :=
  if output.finishedByEos then "eos" else "length"

/-- The engine calls of the runtime, as relations between the states before and after a call
that returns. `known` are the requests submitted so far; `Holds` is what every call keeps of
the batches returned so far. -/
structure ServingEngine (E : Type) where
  /-- `add_request` or `_submit_sequence` under an id; the request is admitted or rejected. -/
  submits : ℕ → Bool → E → E → Prop
  cancels : ℕ → Bool → E → E → Prop
  steps : StepResult → E → E → Prop
  isFinished : E → Bool
  known : E → List ℕ
  Holds : List StepResult → E → Prop
  submitted : ∀ {id admitted engine engine' past}, Holds past engine →
    submits id admitted engine engine' →
      Holds past engine' ∧ id ∉ known engine ∧ known engine' = id :: known engine
  cancelled : ∀ {id found engine engine' past}, Holds past engine →
    cancels id found engine engine' → Holds past engine' ∧ known engine ⊆ known engine'
  stepped : ∀ {result engine engine' past}, Holds past engine → steps result engine engine' →
    Holds (past ++ [result]) engine' ∧ known engine ⊆ known engine'
  unknown : ∀ {id engine past}, Holds past engine → id ∉ known engine →
    StepResult.streamed past id = []
  answered : ∀ {engine past}, Holds past engine → ∀ output ∈ StepResult.answers past,
    output.tokenIds = StepResult.streamed past output.requestId

variable {H : Type} [DecidableEq H] [Digests H]

theorem LoopRun.requests {l l' : StepLoop H} {results : List StepResult} (hk : l.engine.Kept)
    (h : LoopRun l results l') : l.1.requests ⊆ l'.1.requests := by
  intro id hid
  exact ((hk.run h.run).2.same id hid).1

namespace LLMEngine

/-- The engine of the repository. -/
def servingEngine (H : Type) [DecidableEq H] [Digests H] (config : LLMEngineConfig) :
    ServingEngine (LLMEngine H) where
  submits id admitted d d' := ∃ req decision, req.seqId = id ∧
    submitSequence req d = .ok decision d' ∧ admitted = Option.isNone decision
  cancels id found d d' := cancelRequest id d = .ok found d'
  steps result d d' := ∃ input, nextStepResult config input d = .ok result d'
  isFinished d := d.scheduler.queued.isEmpty
  known d := d.scheduler.requests
  Holds past d := LoopKept past d.loop
  submitted := by
    rintro id admitted d d' past hkept ⟨req, decision, rfl, hsubmit, -⟩
    have hnext := hkept.step (submitSequence_run hsubmit)
    rw [List.append_nil] at hnext
    obtain ⟨s, hadd, rfl⟩ := onScheduler_ok.mp hsubmit
    exact ⟨hnext, (add_arrived hadd).unknown, (add_arrived hadd).requests⟩
  cancelled := by
    intro id found d d' past hkept hcancel
    have hstep := cancelRequest_run hcancel
    have hnext := hkept.step hstep
    rw [List.append_nil] at hnext
    exact ⟨hnext, LoopRun.requests hkept.engine (.single hstep)⟩
  stepped := by
    rintro result d d' past hkept ⟨input, hstep⟩
    have hrun := (nextStepResult_run hstep).loop
    exact ⟨hkept.run hrun, LoopRun.requests hkept.engine hrun⟩
  unknown hkept hid := hkept.stream.unknown _ hid
  answered hkept output houtput := (hkept.stream.answered output houtput).2.1

section Example

/-- A request for one token. -/
def oneToken : Request := { textPrompt 0 with maxTokens := 1, maxTokensPositive := Nat.one_pos }

/-- A new engine admits it, and answers it in one step. -/
theorem oneToken_served : ∃ (asked replied : LLMEngine ℕ) (result : StepResult),
    (servingEngine ℕ cooperative).submits 0 true constructed asked ∧
      (servingEngine ℕ cooperative).isFinished asked = false ∧
      (servingEngine ℕ cooperative).steps result asked replied ∧
      result.members = [(0, some 9)] ∧ result.outputs = [⟨0, [9], false⟩] := by
  have hadmitted : returnedValue (submitSequence oneToken constructed) = some none := by
    decide +kernel
  have hbatch : (returnedValue (nextStepResult cooperative nines
      (finalState (submitSequence oneToken constructed)))).map
        (fun result => (result.members, result.outputs)) =
          some ([(0, some 9)], [⟨0, [9], false⟩]) := by
    decide +kernel
  obtain ⟨result, hresult, hparts⟩ := Option.map_eq_some_iff.mp hbatch
  obtain ⟨hmembers, houtputs⟩ := Prod.mk.inj hparts
  exact ⟨_, _, result, ⟨oneToken, none, rfl, of_returnedValue hadmitted, rfl⟩, by decide +kernel,
    ⟨nines, of_returnedValue hresult⟩, hmembers, houtputs⟩

end Example

end LLMEngine

end PrismInfer
