import PrismInfer.CooperativeForward

/-!
# Cooperative prefill computes what one prefill computes

Whatever the quanta, a pending prefill keeps the features, language inputs and hidden
states that the uninterrupted execution would reach from where it stands.
-/
set_option linter.unusedSectionVars false

namespace PrismInfer

open StateExcept MaskedScatter

/-! ### Block quanta -/

namespace VisionEncoder

variable {Patch Hidden Row : Type} {encoder : VisionEncoder Patch Hidden Row}
variable {s s' : VisionForwardState Hidden Row}

/-- The blocks from `first` on. -/
def remainingBlocks (encoder : VisionEncoder Patch Hidden Row) (first : ℕ) : List ℕ :=
  List.range' first (encoder.blocks.length - first)

/-- What the forward of a paused state comes to. -/
def completed (encoder : VisionEncoder Patch Hidden Row) (s : VisionForwardState Hidden Row) :
    List Row × List (List Row) :=
  let t := (encoder.remainingBlocks s.nextBlock).foldl encoder.runBlock
    (s.hiddenStates, s.deepstackFeatures)
  (encoder.merger t.1, t.2)

/-- A state that still has to be merged. -/
structure Paused (encoder : VisionEncoder Patch Hidden Row) (s : VisionForwardState Hidden Row) :
    Prop where
  unmerged : s.main = none
  bound : s.nextBlock ≤ encoder.blocks.length

theorem completed_start (hidden : Hidden) :
    encoder.completed ⟨hidden, 0, [], none⟩ = encoder.forwardTensorRegion hidden := by
  simp [completed, remainingBlocks, forwardTensorRegion, List.range_eq_range']

/-- The range of one quantum and the blocks behind it. -/
theorem range'_split (first next last : ℕ) (h : first ≤ next) (h' : next ≤ last) :
    List.range' first (last - first) =
      List.range' first (next - first) ++ List.range' next (last - next) := by
  have happend := @List.range'_append first (next - first) (last - next) 1
  rw [Nat.one_mul, Nat.add_sub_cancel' h] at happend
  rw [happend]
  congr 1
  omega

theorem advance_paused {maxBlocks : ℕ} (hpaused : encoder.Paused s) (hpos : 0 < maxBlocks) :
    (∃ s', encoder.advanceCooperativeForward s maxBlocks = .ok (false, s') ∧ encoder.Paused s' ∧
      s.nextBlock < s'.nextBlock ∧ encoder.completed s' = encoder.completed s) ∨
    ∃ s', encoder.advanceCooperativeForward s maxBlocks = .ok (true, s') ∧
      encoder.finishCooperativeForward s' = .ok (encoder.completed s) := by
  have hbound := hpaused.bound
  set blockEnd := min (s.nextBlock + maxBlocks) encoder.blocks.length with hend
  set t := (List.range' s.nextBlock (blockEnd - s.nextBlock)).foldl encoder.runBlock
    (s.hiddenStates, s.deepstackFeatures) with ht
  have hsplit : encoder.completed s =
      (encoder.merger ((encoder.remainingBlocks blockEnd).foldl encoder.runBlock t).1,
        ((encoder.remainingBlocks blockEnd).foldl encoder.runBlock t).2) := by
    rw [completed, remainingBlocks, range'_split _ blockEnd _ (by omega) (by omega),
      List.foldl_append, ← ht]
    rfl
  by_cases hlast : blockEnd = encoder.blocks.length
  · right
    refine ⟨⟨t.1, blockEnd, t.2, some (encoder.merger t.1)⟩, ?_, ?_⟩
    · simp [advanceCooperativeForward, hpos, hpaused.unmerged, ← hend, hlast, ensure, bind,
        Except.bind, pure, Except.pure, ht]
    · have hnone : encoder.remainingBlocks blockEnd = [] := by simp [remainingBlocks, hlast]
      rw [hsplit, hnone]
      rfl
  · left
    refine ⟨⟨t.1, blockEnd, t.2, none⟩, ?_, ⟨rfl, by simp only; omega⟩, by simp only; omega, ?_⟩
    · simp [advanceCooperativeForward, hpos, hpaused.unmerged, ← hend, ← ht, hlast, ensure, bind,
        Except.bind, pure, Except.pure]
    · rw [hsplit]
      rfl

end VisionEncoder

namespace TextModel

variable {Token Pos Row : Type} {text : TextModel Token Pos Row} {s s' : TextForwardState Pos Row}

/-- What the forward of a paused state comes to. -/
def completed (text : TextModel Token Pos Row) (s : TextForwardState Pos Row) : List Row :=
  text.finalNorm ((List.range' s.nextLayer (text.layers.length - s.nextLayer)).foldl
    text.runLayer s)

theorem completed_start (inputs : LanguageInputs Row) :
    text.completed (text.start inputs) = text.forward inputs := by
  simp [completed, forward, start, List.range_eq_range']

/-- The layers do not look at the position of the pause. -/
theorem foldl_runLayer_nextLayer (layers : List ℕ) (next : ℕ) :
    layers.foldl text.runLayer { s with nextLayer := next } =
      { layers.foldl text.runLayer s with nextLayer := next } := by
  induction layers generalizing s with
  | nil => rfl
  | cons layer layers ih =>
    have hlayer : text.runLayer { s with nextLayer := next } layer =
        { text.runLayer s layer with nextLayer := next } := by
      unfold runLayer
      cases text.layers[layer]? with
      | none => rfl
      | some layer' =>
        cases hfused : s.useFusedAddRmsnorm <;>
          cases hembeds : s.deepstackVisualEmbeds.bind (·[layer]?) <;> simp [hembeds]
    rw [List.foldl_cons, List.foldl_cons, hlayer, ih]

theorem advance_paused {maxLayers : ℕ} (hbound : s.nextLayer ≤ text.layers.length)
    (hpos : 0 < maxLayers) :
    ∃ complete s', text.advanceCooperativeForward s maxLayers = .ok (complete, s') ∧
      s'.nextLayer ≤ text.layers.length ∧ text.completed s' = text.completed s ∧
      if complete then text.finishCooperativeForward s' = .ok (text.completed s)
      else s.nextLayer < s'.nextLayer := by
  by_cases hdone : text.layers.length ≤ s.nextLayer
  · have hnext : s.nextLayer = text.layers.length := by omega
    refine ⟨true, s, ?_, hbound, rfl, ?_⟩
    · simp [advanceCooperativeForward, hpos, hdone, ensure, bind, Except.bind, pure, Except.pure]
    · simp [finishCooperativeForward, hnext, completed, ensure, bind, Except.bind, pure,
        Except.pure]
  set layerEnd := min (s.nextLayer + maxLayers) text.layers.length with hend
  set t := (List.range' s.nextLayer (layerEnd - s.nextLayer)).foldl text.runLayer s with ht
  have hsame : text.completed { t with nextLayer := layerEnd } = text.completed s := by
    simp only [completed]
    rw [foldl_runLayer_nextLayer, VisionEncoder.range'_split s.nextLayer
      layerEnd _ (by omega) (by omega), List.foldl_append, ← ht]
    rfl
  refine ⟨decide (layerEnd = text.layers.length), { t with nextLayer := layerEnd }, ?_,
    by simp only; omega, hsame, ?_⟩
  · simp [advanceCooperativeForward, hpos, hdone, ← hend, ensure, bind, Except.bind, pure,
      Except.pure, ht]
  · by_cases hlast : layerEnd = text.layers.length
    · rw [if_pos (by simpa using hlast), ← hsame]
      simp [finishCooperativeForward, completed, hlast, ensure, bind, Except.bind, pure,
        Except.pure]
    · rw [if_neg (by simpa using hlast)]
      simp only
      omega

end TextModel

/-! ### Payloads -/

namespace Qwen3VL

variable {Token Patch Hidden Pos Row Sampled : Type} [DecidableEq Token]
variable {m : Qwen3VL Token Patch Hidden Pos Row Sampled}
variable {payload final : CooperativeVisionPayload Token Patch Hidden Row}

/-- What the features of a payload come to. -/
def remainingParts (m : Qwen3VL Token Patch Hidden Pos Row Sampled)
    (payload : CooperativeVisionPayload Token Patch Hidden Row) : Except VisionError (Parts Row) :=
  match payload.activeState with
  | none => (payload.microbatches.drop payload.nextMicrobatch).foldlM
      (m.encodeMicrobatch payload.input) payload.parts
  | some state => do
    let parts ← payload.parts.append (m.visual.completed state)
    (payload.microbatches.drop (payload.nextMicrobatch + 1)).foldlM
      (m.encodeMicrobatch payload.input) parts

/-- The payload with all its features. -/
def completePayload (m : Qwen3VL Token Patch Hidden Pos Row Sampled)
    (payload : CooperativeVisionPayload Token Patch Hidden Row) :
    Except VisionError (CooperativeVisionPayload Token Patch Hidden Row) := do
  let parts ← m.remainingParts payload
  return { payload with
    activeState := none, nextMicrobatch := payload.microbatches.length, parts := parts }

/-- A payload with a microbatch left. -/
structure Ready (m : Qwen3VL Token Patch Hidden Pos Row Sampled)
    (payload : CooperativeVisionPayload Token Patch Hidden Row) : Prop where
  unfinished : payload.nextMicrobatch < payload.microbatches.length
  paused : ∀ state, payload.activeState = some state → m.visual.Paused state

/-- Blocks left to run, and a step for every microbatch. -/
def visionWork (m : Qwen3VL Token Patch Hidden Pos Row Sampled)
    (payload : CooperativeVisionPayload Token Patch Hidden Row) : ℕ :=
  (payload.microbatches.length - payload.nextMicrobatch) * (m.visual.blocks.length + 1) -
    (payload.activeState.map (·.nextBlock)).getD 0

theorem beginPayload_ok {parts : Parts Row} (hready : m.Ready payload)
    (hparts : m.remainingParts payload = .ok parts) :
    ∃ state, m.beginPayload payload = .ok state ∧ m.visual.Paused state ∧
      (payload.activeState.map (·.nextBlock)).getD 0 ≤ state.nextBlock ∧
      ∃ next, payload.parts.append (m.visual.completed state) = .ok next ∧
        (payload.microbatches.drop (payload.nextMicrobatch + 1)).foldlM
          (m.encodeMicrobatch payload.input) next = .ok parts := by
  cases hactive : payload.activeState with
  | some state =>
    simp only [remainingParts, hactive, except_bind_ok] at hparts
    exact ⟨state, by simp [beginPayload, hactive], hready.paused state hactive, by simp, hparts⟩
  | none =>
    obtain ⟨plan, hplan⟩ : ∃ plan, payload.microbatches[payload.nextMicrobatch]? = some plan :=
      ⟨_, List.getElem?_eq_getElem hready.unfinished⟩
    have hdrop : payload.microbatches.drop payload.nextMicrobatch =
        plan :: payload.microbatches.drop (payload.nextMicrobatch + 1) := by
      rw [List.drop_eq_getElem_cons hready.unfinished]
      rw [List.getElem?_eq_getElem hready.unfinished] at hplan
      rw [Option.some.inj hplan]
    simp only [remainingParts, hactive, hdrop, List.foldlM_cons, except_bind_ok, encodeMicrobatch,
      VisionEncoder.forward, ensure_ok, except_pure_ok] at hparts
    obtain ⟨next, ⟨output, ⟨-, hsegments, rfl⟩, hnext⟩, hrest⟩ := hparts
    refine ⟨⟨m.visual.prepareTensorRegionInputs (chunk payload.input plan) plan.rows, 0, [], none⟩,
      ?_, ⟨rfl, Nat.zero_le _⟩, le_refl 0, next, ?_, hrest⟩
    · simp only [beginPayload, hactive, hplan, VisionEncoder.beginCooperativeForward,
        except_bind_ok, ensure_ok, except_pure_ok]
      exact ⟨(), hsegments, trivial⟩
    · rw [VisionEncoder.completed_start]
      exact hnext

/-- One quantum on the payload in front: its features come to the same, and it is paused
with less to do, or a microbatch is done. -/
theorem advancePayload (hready : m.Ready payload) (hfinal : m.completePayload payload = .ok final)
    {maxBlocks : ℕ} (hpos : 0 < maxBlocks) :
    ∃ state state' complete, m.beginPayload payload = .ok state ∧
      m.visual.advanceCooperativeForward state maxBlocks = .ok (complete, state') ∧
      if complete then
        ∃ output parts, m.visual.finishCooperativeForward state' = .ok output ∧
          payload.parts.append output = .ok parts ∧
          (payload.microbatches.drop (payload.nextMicrobatch + 1)).foldlM
            (m.encodeMicrobatch payload.input) parts = .ok final.parts
      else
        m.Ready { payload with activeState := some state' } ∧
          m.completePayload { payload with activeState := some state' } = .ok final ∧
          m.visionWork { payload with activeState := some state' } < m.visionWork payload := by
  simp only [completePayload, except_bind_ok, except_pure_ok] at hfinal
  obtain ⟨parts, hparts, rfl⟩ := hfinal
  obtain ⟨state, hbegin, hpaused, hblocks, next, hnext, hrest⟩ := beginPayload_ok hready hparts
  rcases VisionEncoder.advance_paused hpaused hpos with
    ⟨state', hadvance, hpaused', hmore, hsame⟩ | ⟨state', hadvance, hfinish⟩
  · refine ⟨state, state', false, hbegin, hadvance, ?_⟩
    rw [if_neg (by simp)]
    refine ⟨⟨hready.unfinished, fun other hother => ?_⟩, ?_, ?_⟩
    · obtain rfl := Option.some.inj hother
      exact hpaused'
    · simp only [completePayload, except_bind_ok, except_pure_ok, remainingParts]
      exact ⟨parts, ⟨next, by rw [hsame]; exact hnext, hrest⟩, rfl⟩
    · have hbound := hpaused'.bound
      have hleft : m.visual.blocks.length + 1 ≤
          (payload.microbatches.length - payload.nextMicrobatch) * (m.visual.blocks.length + 1) :=
        Nat.le_mul_of_pos_left _ (Nat.sub_pos_of_lt hready.unfinished)
      simp only [visionWork, Option.map_some, Option.getD_some]
      omega
  · refine ⟨state, state', true, hbegin, hadvance, ?_⟩
    rw [if_pos rfl]
    exact ⟨_, next, hfinish, hnext, hrest⟩

/-- Where a pending prefill is, when `pls` are its completed payloads. -/
inductive Tracks (m : Qwen3VL Token Patch Hidden Pos Row Sampled)
    (inputs : ModelInputs Token Patch Row)
    (pls : List (CooperativeVisionPayload Token Patch Hidden Row))
    (p : PendingPrefillExecution Token Patch Hidden Pos Row Sampled) : Prop
  | vision {finished rest finals : List (CooperativeVisionPayload Token Patch Hidden Row)}
      {current final : CooperativeVisionPayload Token Patch Hidden Row}
      (hinputs : p.inputs = inputs) (hmodel : p.modelState = none)
      (hsampled : p.sampledTokens = none) (hprepared : p.prepared = none)
      (hpayloads : p.visionPayloads = finished ++ current :: rest)
      (hpls : pls = finished ++ final :: finals) (hnext : p.nextVisionPayload = finished.length)
      (hcurrent : m.Ready current) (hfinal : m.completePayload current = .ok final)
      (hrest : List.Forall₂ (fun payload final => m.Ready payload ∧
        m.completePayload payload = .ok final) rest finals)
  | language {prepared : LanguageInputs Row} {state : TextForwardState Pos Row}
      (hinputs : p.inputs = inputs) (hpending : m.pendingLanguageInputs inputs pls = .ok prepared)
      (hpayloads : p.visionPayloads = pls) (hprepared : p.prepared = some prepared)
      (hmodel : p.modelState = some state)
      (hbound : state.nextLayer ≤ m.languageModel.layers.length)
      (hstate : m.languageModel.completed state = m.languageModel.forward prepared)
      (hsampled : p.sampledTokens = none ∨
        p.sampledTokens = some (m.sample (m.languageModel.forward prepared)))

/-- Quanta that are left at most. -/
def work (m : Qwen3VL Token Patch Hidden Pos Row Sampled)
    (p : PendingPrefillExecution Token Patch Hidden Pos Row Sampled) : ℕ :=
  match p.sampledTokens, p.modelState with
  | some _, _ => 0
  | none, some state => 1 + (m.languageModel.layers.length - state.nextLayer)
  | none, none => 2 + m.languageModel.layers.length + (p.visionPayloads.map m.visionWork).sum

variable {inputs : ModelInputs Token Patch Row}
variable {pls : List (CooperativeVisionPayload Token Patch Hidden Row)}
variable {p p' : PendingPrefillExecution Token Patch Hidden Pos Row Sampled}

theorem visionWork_next (hready : m.Ready payload) (parts : Parts Row) :
    m.visionWork { payload with
      parts := parts, activeState := none, nextMicrobatch := payload.nextMicrobatch + 1 } <
      m.visionWork payload := by
  have hblocks : (payload.activeState.map (·.nextBlock)).getD 0 ≤ m.visual.blocks.length := by
    cases hactive : payload.activeState with
    | none => exact Nat.zero_le _
    | some state => exact (hready.paused state hactive).bound
  have hleft : payload.microbatches.length - payload.nextMicrobatch =
      payload.microbatches.length - (payload.nextMicrobatch + 1) + 1 := by
    have := hready.unfinished
    omega
  simp only [visionWork, Option.map_none, Option.getD_none, hleft, Nat.add_mul]
  omega

/-- The vision half of a step. -/
theorem advancePendingVision_ok
    {finished rest finals : List (CooperativeVisionPayload Token Patch Hidden Row)}
    {current final : CooperativeVisionPayload Token Patch Hidden Row} {maxBlocks : ℕ}
    (hinputs : p.inputs = inputs) (hmodel : p.modelState = none) (hsampled : p.sampledTokens = none)
    (hprepared : p.prepared = none) (hpayloads : p.visionPayloads = finished ++ current :: rest)
    (hpls : pls = finished ++ final :: finals) (hnext : p.nextVisionPayload = finished.length)
    (hcurrent : m.Ready current) (hfinal : m.completePayload current = .ok final)
    (hrest : List.Forall₂ (fun payload final => m.Ready payload ∧
      m.completePayload payload = .ok final) rest finals) (hpos : 0 < maxBlocks) :
    ∃ complete p', m.advancePendingVision p maxBlocks = .ok (complete, p') ∧
      if complete then p'.inputs = inputs ∧ p'.visionPayloads = pls ∧ p'.sampledTokens = none
      else m.Tracks inputs pls p' ∧ m.work p' < m.work p := by
  have hget : p.visionPayloads[p.nextVisionPayload]? = some current := by
    rw [hpayloads, hnext, List.getElem?_append_right le_rfl, Nat.sub_self]
    rfl
  have hset : ∀ payload, p.visionPayloads.set p.nextVisionPayload payload =
      finished ++ payload :: rest := fun payload => by
    rw [hpayloads, hnext, List.set_append_right _ _ le_rfl, Nat.sub_self]
    rfl
  have hwork : m.work p = 2 + m.languageModel.layers.length +
      ((finished.map m.visionWork).sum + (m.visionWork current + (rest.map m.visionWork).sum)) := by
    simp [work, hsampled, hmodel, hpayloads]
  obtain ⟨state, state', complete, hbegin, hadvance, hafter⟩ := advancePayload hcurrent hfinal hpos
  cases complete with
  | false =>
    rw [if_neg (by simp)] at hafter
    obtain ⟨hready, hfinal', hless⟩ := hafter
    refine ⟨false,
      { p with visionPayloads := finished ++ { current with activeState := some state' } :: rest },
      ?_, ?_⟩
    · simp only [advancePendingVision, hget, except_bind_ok]
      exact ⟨state, hbegin, (false, state'), hadvance, by simp [hset, pure, Except.pure]⟩
    · rw [if_neg (by simp)]
      refine ⟨.vision hinputs hmodel hsampled hprepared rfl hpls hnext hready hfinal' hrest, ?_⟩
      rw [hwork]
      simp only [work, hsampled, hmodel, List.map_append, List.map_cons, List.sum_append,
        List.sum_cons]
      omega
  | true =>
    rw [if_pos rfl] at hafter
    obtain ⟨output, parts, hfinish, happend, hrun⟩ := hafter
    set payload := { current with
      parts := parts, activeState := none, nextMicrobatch := current.nextMicrobatch + 1 }
      with hpayload
    have hless := visionWork_next hcurrent parts
    rw [← hpayload] at hless
    have hfinal' : m.completePayload payload = .ok final := by
      simp only [completePayload, except_bind_ok, except_pure_ok] at hfinal ⊢
      obtain ⟨_, _, rfl⟩ := hfinal
      exact ⟨_, hrun, rfl⟩
    set next := if payload.nextMicrobatch = payload.microbatches.length then
      p.nextVisionPayload + 1 else p.nextVisionPayload with hnext'
    set q : PendingPrefillExecution Token Patch Hidden Pos Row Sampled :=
      { p with visionPayloads := finished ++ payload :: rest, nextVisionPayload := next } with hq
    have hrunq : m.advancePendingVision p maxBlocks =
        .ok (decide (next = p.visionPayloads.length), q) := by
      simp only [advancePendingVision, hget, except_bind_ok]
      refine ⟨state, hbegin, (true, state'), hadvance, ?_⟩
      simp only [hset, hfinish, happend, not_true_eq_false, if_false, bind, Except.bind, pure,
        Except.pure, ← hpayload, hq]
      rfl
    have hworkq : m.work q < m.work p := by
      rw [hwork]
      simp only [work, hq, hsampled, hmodel, List.map_append, List.map_cons, List.sum_append,
        List.sum_cons]
      omega
    by_cases hlast : payload.nextMicrobatch = payload.microbatches.length
    · have hnextq : next = finished.length + 1 := by rw [hnext', if_pos hlast, hnext]
      have hfinished : payload = final := by
        have hdrop : payload.microbatches.drop payload.nextMicrobatch = [] := by simp [hlast]
        have hactive : payload.activeState = none := rfl
        simp only [completePayload, remainingParts, hactive, hdrop, List.foldlM_nil, except_bind_ok,
          except_pure_ok] at hfinal'
        obtain ⟨_, rfl, rfl⟩ := hfinal'
        rw [← hlast, ← hactive]
      cases hrest with
      | nil =>
        refine ⟨_, q, hrunq, ?_⟩
        rw [if_pos (by simp [hnextq, hpayloads])]
        exact ⟨hinputs, by rw [hpls, ← hfinished], hsampled⟩
      | @cons head _ tail _ hhead htail =>
        refine ⟨_, q, hrunq, ?_⟩
        rw [if_neg (by simp [hnextq, hpayloads])]
        have hpayloads' : q.visionPayloads = (finished ++ [final]) ++ head :: tail := by
          simp [hq, hfinished]
        exact ⟨.vision hinputs hmodel hsampled hprepared hpayloads' (by simp [hpls])
          (by simp [hq, hnextq]) hhead.1 hhead.2 htail, hworkq⟩
    · have hnextq : next = finished.length := by rw [hnext', if_neg hlast, hnext]
      have hready : m.Ready payload :=
        ⟨lt_of_le_of_ne hcurrent.unfinished hlast,
          fun _ hactive => (Option.some_ne_none _ hactive.symm).elim⟩
      refine ⟨_, q, hrunq, ?_⟩
      rw [if_neg (by simp [hnextq, hpayloads])]
      exact ⟨.vision hinputs hmodel hsampled hprepared rfl hpls hnextq hready hfinal' hrest, hworkq⟩

theorem beginPendingLanguageForward_cases
    (p : PendingPrefillExecution Token Patch Hidden Pos Row Sampled) :
    (∃ e, m.beginPendingLanguageForward p = .error e ∧
      m.pendingLanguageInputs p.inputs p.visionPayloads = .error e) ∨
    ∃ prepared, m.pendingLanguageInputs p.inputs p.visionPayloads = .ok prepared ∧
      m.beginPendingLanguageForward p = .ok { p with
        modelState := some (m.languageModel.start prepared), prepared := some prepared } := by
  cases hpending : m.pendingLanguageInputs p.inputs p.visionPayloads with
  | error e =>
    exact .inl ⟨e, by simp [beginPendingLanguageForward, hpending, bind, Except.bind], rfl⟩
  | ok prepared =>
    exact .inr
      ⟨prepared, rfl, by simp [beginPendingLanguageForward, hpending, bind, Except.bind, pure,
      Except.pure, TextModel.beginCooperativeForward]⟩

theorem maxQuantum_pos (m : Qwen3VL Token Patch Hidden Pos Row Sampled) :
    0 < max m.visual.blocks.length m.languageModel.layers.length :=
  lt_max_of_lt_right (List.length_pos_iff.mpr m.languageModel.layers_ne)

namespace Tracks

/-- The state right behind `beginPendingLanguageForward`. -/
theorem begun {prepared : LanguageInputs Row} (hinputs : p.inputs = inputs)
    (hpayloads : p.visionPayloads = pls) (hsampled : p.sampledTokens = none)
    (hpending : m.pendingLanguageInputs inputs pls = .ok prepared) :
    m.Tracks inputs pls { p with
      modelState := some (m.languageModel.start prepared), prepared := some prepared } :=
  .language hinputs hpending hpayloads rfl rfl (Nat.zero_le _)
    (TextModel.completed_start prepared) (.inl hsampled)

theorem advance (h : m.Tracks inputs pls p) {maxLayers maxVisionBlocks : ℕ}
    (hlayers : 0 < maxLayers)
    (hblocks : 0 < maxVisionBlocks) :
    (∃ e, m.advancePrefillPlan p maxLayers maxVisionBlocks = .error e ∧
      m.pendingLanguageInputs inputs pls = .error e) ∨
    ∃ complete p', m.advancePrefillPlan p maxLayers maxVisionBlocks = .ok (complete, p') ∧
      m.Tracks inputs pls p' ∧ (p.sampledTokens = none → m.work p' < m.work p) := by
  cases h with
  | vision hinputs hmodel hsampled hprepared hpayloads hpls hnext hcurrent hfinal hrest =>
    obtain ⟨complete, p', hadvance, hafter⟩ := advancePendingVision_ok hinputs hmodel hsampled
      hprepared hpayloads hpls hnext hcurrent hfinal hrest hblocks
    cases complete with
    | false =>
      rw [if_neg (by simp)] at hafter
      refine .inr ⟨false, p', ?_, hafter.1, fun _ => hafter.2⟩
      simp [advancePrefillPlan, hsampled, hmodel, hadvance, bind, Except.bind, pure, Except.pure]
    | true =>
      rw [if_pos rfl] at hafter
      obtain ⟨hinputs', hpayloads', hsampled'⟩ := hafter
      rcases m.beginPendingLanguageForward_cases p' with ⟨e, hbegin, he⟩ |
        ⟨prepared, hpending, hbegin⟩
      · rw [hinputs', hpayloads'] at he
        refine .inl ⟨e, ?_, he⟩
        simp [advancePrefillPlan, hsampled, hmodel, hadvance, hbegin, bind, Except.bind]
      · rw [hinputs', hpayloads'] at hpending
        refine .inr ⟨false, _, ?_, begun hinputs' hpayloads' hsampled' hpending, fun _ => ?_⟩
        · simp [advancePrefillPlan, hsampled, hmodel, hadvance, hbegin, bind, Except.bind, pure,
            Except.pure]
        · simp only [work, hsampled, hsampled', hmodel, TextModel.start]
          omega
  | @language prepared state hinputs hpending hpayloads hprepared hmodel hbound hstate hsampled =>
    right
    rcases hsampled with hsampled | hsampled
    · obtain ⟨complete, state', hadvance, hbound', hsame, hafter⟩ :=
        TextModel.advance_paused hbound hlayers
      cases complete with
      | false =>
        rw [if_neg (by simp)] at hafter
        refine ⟨false, { p with modelState := some state' }, ?_,
          .language hinputs hpending hpayloads
          hprepared rfl hbound' (hsame.trans hstate) (.inl hsampled), fun _ => ?_⟩
        · simp [advancePrefillPlan, hsampled, hmodel, hadvance, bind, Except.bind, pure,
            Except.pure]
        · simp only [work, hsampled, hmodel]
          omega
      | true =>
        rw [if_pos rfl, hstate] at hafter
        refine ⟨true, { p with
          modelState := some state'
          sampledTokens := some (m.sample (m.languageModel.forward prepared)) }, ?_,
          .language hinputs hpending hpayloads hprepared rfl hbound' (hsame.trans hstate)
            (.inr rfl),
          fun _ => ?_⟩
        · simp [advancePrefillPlan, hsampled, hmodel, hadvance, hafter, bind, Except.bind, pure,
            Except.pure]
        · simp only [work, hsampled, hmodel]
          omega
    · refine ⟨true, p, by simp [advancePrefillPlan, hsampled], .language hinputs hpending hpayloads
        hprepared hmodel hbound hstate (.inr hsampled), fun hnone => ?_⟩
      rw [hsampled] at hnone
      cases hnone

/-- A run of quanta that returns. -/
theorem advanceAll {quanta : List (ℕ × ℕ)}
    (hquanta : ∀ quantum ∈ quanta, 0 < quantum.1 ∧ 0 < quantum.2)
    (h : m.Tracks inputs pls p) (hrun : m.advanceAll p quanta = .ok p') :
    m.Tracks inputs pls p' := by
  induction quanta generalizing p with
  | nil =>
    obtain rfl := Except.ok.inj hrun
    exact h
  | cons quantum quanta ih =>
    simp only [Qwen3VL.advanceAll, List.foldlM_cons, except_bind_ok, except_pure_ok] at hrun
    obtain ⟨mid, ⟨result, hadvance, rfl⟩, hrest⟩ := hrun
    have hpos := hquanta quantum List.mem_cons_self
    rcases h.advance hpos.1 hpos.2 with ⟨e, herror, -⟩ | ⟨complete, q, hok, hq, -⟩
    · rw [hadvance] at herror
      cases herror
    · rw [hadvance] at hok
      obtain rfl := Except.ok.inj hok
      exact ih (fun other hmem => hquanta other (List.mem_cons_of_mem _ hmem)) hq hrest

theorem finish {fuel : ℕ} (h : m.Tracks inputs pls p)
    (hrun : m.finishPrefillPlan fuel p = .ok p') : m.Tracks inputs pls p' := by
  induction fuel generalizing p with
  | zero =>
    obtain rfl := Except.ok.inj hrun
    exact h
  | succ fuel ih =>
    rw [finishPrefillPlan] at hrun
    split at hrun
    · obtain rfl := Except.ok.inj hrun
      exact h
    · simp only [except_bind_ok] at hrun
      obtain ⟨result, hadvance, hrest⟩ := hrun
      rcases h.advance m.maxQuantum_pos m.maxQuantum_pos with ⟨e, herror, -⟩ |
        ⟨complete, q, hok, hq, -⟩
      · rw [hadvance] at herror
        cases herror
      · rw [hadvance] at hok
        obtain rfl := Except.ok.inj hok
        exact ih hq hrest

section Progress

variable {prepared : LanguageInputs Row}

theorem advanceAll_ok {quanta : List (ℕ × ℕ)}
    (hquanta : ∀ quantum ∈ quanta, 0 < quantum.1 ∧ 0 < quantum.2) (h : m.Tracks inputs pls p)
    (hpending : m.pendingLanguageInputs inputs pls = .ok prepared) :
    ∃ p', m.advanceAll p quanta = .ok p' ∧ m.Tracks inputs pls p' := by
  induction quanta generalizing p with
  | nil => exact ⟨p, rfl, h⟩
  | cons quantum quanta ih =>
    have hpos := hquanta quantum List.mem_cons_self
    rcases h.advance hpos.1 hpos.2 with ⟨e, -, herror⟩ | ⟨complete, q, hok, hq, -⟩
    · rw [hpending] at herror
      cases herror
    · obtain ⟨p', hrest, hp'⟩ :=
        ih (fun other hmem => hquanta other (List.mem_cons_of_mem _ hmem)) hq
      refine ⟨p', ?_, hp'⟩
      simp only [Qwen3VL.advanceAll, List.foldlM_cons, except_bind_ok, except_pure_ok]
      exact ⟨q, ⟨_, hok, rfl⟩, hrest⟩

/-- Enough turns of the last loop sample. -/
theorem finish_ok {fuel : ℕ} (h : m.Tracks inputs pls p)
    (hpending : m.pendingLanguageInputs inputs pls = .ok prepared) (hfuel : m.work p ≤ fuel) :
    ∃ p', m.finishPrefillPlan fuel p = .ok p' ∧ m.Tracks inputs pls p' ∧
    p'.sampledTokens.isSome := by
  induction fuel generalizing p with
  | zero =>
    refine ⟨p, rfl, h, ?_⟩
    cases hsampled : p.sampledTokens with
    | some sampled => rfl
    | none =>
      cases hmodel : p.modelState <;> simp [work, hsampled, hmodel] at hfuel
  | succ fuel ih =>
    cases hsampled : p.sampledTokens with
    | some sampled => exact ⟨p, by simp [finishPrefillPlan, hsampled], h, by simp [hsampled]⟩
    | none =>
      rcases h.advance m.maxQuantum_pos m.maxQuantum_pos with
        ⟨e, -, herror⟩ | ⟨complete, q, hok, hq, hless⟩
      · rw [hpending] at herror
        cases herror
      · have hqfuel : m.work q ≤ fuel := by
          have := hless hsampled
          omega
        obtain ⟨p', hrest, hp'⟩ := ih hq hqfuel
        refine ⟨p', ?_, hp'⟩
        rw [finishPrefillPlan, if_neg (by simp [hsampled])]
        simp only [except_bind_ok]
        exact ⟨_, hok, hrest⟩

end Progress

end Tracks

end Qwen3VL

end PrismInfer
