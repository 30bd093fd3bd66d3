import PrismInfer.Contracts
import PrismInfer.KVCompaction
import PrismInfer.Lib.SlotMove

/-!
# The device side of visual KV compaction

The slot copy of a batch of plans, and the executor's round of it: plans for the
sequences that are due, one copy for all of them, then one commit each. Shape checks that
the construction of the slot tensors makes true, their dtype and their device, are left out.
-/
namespace PrismInfer
open StateExcept SlotMove

inductive KVCopyError
  | rank (rank : ℕ)
  | noSlots
  | slotShapes (sources destinations : ℕ)
  | slotOutside
  | tritonMissing
  | notContiguous
  | vectorTooLarge (vectorSize : ℕ)
  | scaleOwnership
  | plan (e : EngineError)
  | dtypeMismatch (plan cache : String)
  | duplicatePlan (id : ℕ)
deriving DecidableEq, Repr

/-- A paged cache, payload or token-head scales, with its pages flattened into slots. A
plane is the keys or the values of one layer. -/
structure SlotCache (α : Type) where
  /-- `[kv, layers, slots, kv_heads]`, and `head_dim` behind it for a payload. -/
  shape : List ℕ
  cudaFp8 : Bool
  contiguous : Bool
  values : ℕ → ℕ → α

namespace SlotCache

def supportedRanks : List ℕ := [4, 5]

variable {α : Type}

def slots (cache : SlotCache α) : ℕ := cache.shape.getD 2 0

def vectorSize (cache : SlotCache α) : ℕ := (cache.shape.drop 3).prod

end SlotCache

/-- The device of the copies: is Triton there, and in which order do the programs of one
launch along the token axis run? -/
structure CopyDevice where
  hasTriton : Bool
  order : ℕ → List ℕ
  order_perm : ∀ tokens, (order tokens).Perm (List.range tokens)

def tritonMaxBlockVectorElements : ℕ := 65536

/-- `1 << (value - 1).bit_length()`. -/
def nextPowerOf2 (value : ℕ) : ℕ := 1 <<< ((value : ℤ) - 1).natAbs.size

section Copy

variable {α : Type}

def validateCompactionInputs (cache : SlotCache α) (sourceSlots destinationSlots : List ℕ) :
    Except KVCopyError Unit := do
  ensure (cache.shape.length ∈ SlotCache.supportedRanks) (.rank cache.shape.length)
  ensure (sourceSlots ≠ []) .noSlots
  ensure (sourceSlots.length = destinationSlots.length)
    (.slotShapes sourceSlots.length destinationSlots.length)

/-- The gather launch fills the temporary rows before the scatter launch begins. -/
def compactFp8KvSlots (device : CopyDevice) (cache : SlotCache α)
    (sourceSlots destinationSlots : List ℕ) : Except KVCopyError (SlotCache α) := do
  ensure (device.hasTriton = true) .tritonMissing
  ensure (cache.contiguous = true) .notContiguous
  ensure (nextPowerOf2 cache.vectorSize ≤ tritonMaxBlockVectorElements)
    (.vectorTooLarge cache.vectorSize)
  let temporary (plane token : ℕ) : α := cache.values plane (sourceSlots.getD token 0)
  pure { cache with
    values := fun plane => scatter (cache.values plane) <|
      (device.order sourceSlots.length).map fun token =>
        (destinationSlots.getD token 0, temporary plane token) }

/-- `index_select(...).clone()`, then `index_copy_`. -/
def indexMove (cache : SlotCache α) (sourceSlots destinationSlots : List ℕ) :
    Except KVCopyError (SlotCache α) := do
  ensure (∀ slot ∈ sourceSlots ++ destinationSlots, slot < cache.slots) .slotOutside
  pure { cache with
    values := fun plane => move sourceSlots destinationSlots (cache.values plane) }

def compactKvSlots (device : CopyDevice) (cache : SlotCache α)
    (sourceSlots destinationSlots : List ℕ) : Except KVCopyError (SlotCache α) := do
  validateCompactionInputs cache sourceSlots destinationSlots
  if cache.cudaFp8 then compactFp8KvSlots device cache sourceSlots destinationSlots
  else indexMove cache sourceSlots destinationSlots

end Copy

/-- The paged caches of one runner. -/
structure KVStore (α β : Type) where
  blockSize : ℕ
  dtype : String
  usesTokenHeadScales : Bool
  payload : SlotCache α
  scales : Option (SlotCache β)

namespace KVStore

variable {α β : Type}

/-- The check of the whole batch before any copy; `seen` are the ids so far. -/
def validatePlans (store : KVStore α β) : List ℕ → List KVCompactionPlan → Except KVCopyError Unit
  | _, [] => pure ()
  | seen, plan :: plans => do
    match plan.validate store.blockSize with
    | .error e => throw (.plan e)
    | .ok () => do
      ensure (plan.kvDtype = store.dtype) (.dtypeMismatch plan.kvDtype store.dtype)
      ensure (plan.seqId ∉ seen) (.duplicatePlan plan.seqId)
      validatePlans store (plan.seqId :: seen) plans

/-- The copy of one plan, payload first. -/
def copyPlan (device : CopyDevice) (plan : KVCompactionPlan) :
    EStateM KVCopyError (KVStore α β) Unit := do
  let store ← get
  let payload ← readOnly
    (compactKvSlots device store.payload plan.sourceSlots plan.destinationSlots)
  modify fun store => { store with payload := payload }
  match store.scales with
  | none => pure ()
  | some scales => do
    let scales ← readOnly (compactKvSlots device scales plan.sourceSlots plan.destinationSlots)
    modify fun store => { store with scales := some scales }

def compactKvCache (device : CopyDevice) (plans : List KVCompactionPlan) :
    EStateM KVCopyError (KVStore α β) Unit := do
  if plans = [] then pure ()
  else do
    let store ← get
    require (store.usesTokenHeadScales = store.scales.isSome) .scaleOwnership
    readOnly (store.validatePlans [] plans)
    forEach (copyPlan device) plans

end KVStore

variable {H : Type}

/-- What `_commit_prefill_execution` does to one member of a batch; `record` is the
decision that pruning reached in this step, if any. -/
def commitPrefillExecution (record : Option CompressionRecord) (slice : PrefillSlice)
    (seq : Sequence H) : Except EngineError (Sequence H) := do
  let seq := { seq with
    visualPruningDecisionRecord := record.or seq.visualPruningDecisionRecord }
  match seq.kvLayout with
  | none => pure { seq with numComputedTokens := slice.tokenEnd }
  | some layout =>
    if layout.logicalContextLen < seq.numPromptTokens then do
      let layout ← layout.appendPrefillTokens slice.numTokens
      pure { seq with kvLayout := some layout, numComputedTokens := slice.tokenEnd }
    else pure { seq with numComputedTokens := slice.tokenEnd }

namespace BlockManager

variable [DecidableEq H] [Digests H]

/-- Is a member of a prefill batch due for compaction? -/
def CompactsNow (seq : Sequence H) : Prop :=
  seq.kvLayout = none ∧ (seq.isPrefillFinished = true ∨
    (seq.multimodalPrefixCacheEnabled = true ∧
      seq.request.multimodalPrefixBoundary = some seq.numComputedTokens))

instance (seq : Sequence H) : Decidable (CompactsNow seq) :=
  inferInstanceAs (Decidable (_ ∧ _))

/-- `plans_by_seq_id.get(seq_id)`. -/
def planOf (plans : List KVCompactionPlan) (id : ℕ) : Option KVCompactionPlan :=
  plans.reverse.find? fun plan => plan.seqId = id

end BlockManager

end PrismInfer
