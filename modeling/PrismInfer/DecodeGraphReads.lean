import PrismInfer.DecodeGraph
import PrismInfer.PagedDecodeEq
import PrismInfer.PagedPrefillEq

/-!
# The batch-one fast path stages what the general path stages

Whatever the buffers of bucket 1 hold, either path leaves in them the values of the sequence
wherever the replay reads. So no earlier call matters, and a stale page-table entry lies
behind the context.
-/
namespace PrismInfer
open StateExcept ListBlocks

variable {H : Type}

section Buffers

theorem HostBuffer.write_of_mem (buffer : HostBuffer) {start : ℕ} {values : List ℤ} {k : ℕ}
    (h : k < values.length) : buffer.write start values (start + k) = values.getD k 0 := by
  rw [HostBuffer.write, if_pos (by omega), Nat.add_sub_cancel_left]

theorem HostBuffer.write_of_lt (buffer : HostBuffer) {start : ℕ} {values : List ℤ} {k : ℕ}
    (h : k < start) : buffer.write start values k = buffer k := by
  rw [HostBuffer.write, if_neg (by omega)]

theorem HostBuffer.fill_of_lt (buffer : HostBuffer) {start stop : ℕ} {value : ℤ} {k : ℕ}
    (h : k < start) : buffer.fill start stop value k = buffer k := by
  rw [HostBuffer.fill, if_neg (by omega)]

namespace GraphBuffers

variable (b : GraphBuffers) (start stop : ℕ) (values : List ℤ) (value : ℤ)

@[simp] theorem writeModel_model :
    (b.writeModel start values).hostModelInputs = b.hostModelInputs.write start values := rfl

@[simp] theorem writeModel_metadata :
    (b.writeModel start values).hostDecodeMetadata = b.hostDecodeMetadata := rfl

@[simp] theorem writeMetadata_model :
    (b.writeMetadata start values).hostModelInputs = b.hostModelInputs := rfl

@[simp] theorem writeMetadata_metadata :
    (b.writeMetadata start values).hostDecodeMetadata =
      b.hostDecodeMetadata.write start values := rfl

@[simp] theorem fillMetadata_model :
    (b.fillMetadata start stop value).hostModelInputs = b.hostModelInputs := rfl

@[simp] theorem fillMetadata_metadata :
    (b.fillMetadata start stop value).hostDecodeMetadata =
      b.hostDecodeMetadata.fill start stop value := rfl

end GraphBuffers

end Buffers

section Buckets

theorem find?_one_of_sorted {sizes : List ℕ} (hsorted : sizes.Pairwise (· ≤ ·)) (h : 1 ∈ sizes) :
    sizes.find? (fun size => decide (1 ≤ size)) = some 1 := by
  induction sizes with
  | nil => cases h
  | cons size sizes ih =>
    rw [List.pairwise_cons] at hsorted
    by_cases hle : 1 ≤ size
    · have hone : size = 1 := by
        obtain rfl | hmem := List.mem_cons.mp h
        · rfl
        · exact le_antisymm (hsorted.1 1 hmem) hle
      subst hone
      simp
    · rw [List.find?_cons_of_neg (by simpa using hle)]
      apply ih hsorted.2
      obtain rfl | hmem := List.mem_cons.mp h
      · omega
      · exact hmem

theorem GraphRunner.find?_bucket_one {r : GraphRunner} (h : 1 ∈ r.graphBs) :
    r.graphBs.find? (fun size => decide (1 ≤ size)) = some 1 :=
  find?_one_of_sorted (List.pairwise_insertionSort _ _) h

end Buckets

section Shape

/-- No call changes the sizes of the captured graphs. -/
def GraphRunner.SameShape (r r' : GraphRunner) : Prop :=
  r'.blockSize = r.blockSize ∧ r'.maxBs = r.maxBs ∧ r'.maxNumBlocks = r.maxNumBlocks ∧
    r'.fastPathEnabled = r.fastPathEnabled

theorem GraphRunner.fillSingleGreedy_sameShape (r : GraphRunner) (s : DecodeSequence H) :
    r.SameShape (r.fillSingleGreedy s) := by
  unfold GraphRunner.fillSingleGreedy
  split_ifs <;> exact ⟨rfl, rfl, rfl, rfl⟩

end Shape

/-- What a replay for one sequence has to read. -/
def DecodeSequence.expectedReads (s : DecodeSequence H) (blockSize : ℕ) : GraphReads where
  inputId := s.lastToken
  positions := (List.range mropeAxisCount).map fun _ => s.logicalPosition
  slotMapping := s.kvSlot blockSize
  contextLen := s.seq.physicalKvLen
  maxContextLen := s.seq.physicalKvLen
  pages := (List.range (pagesFor s.seq.physicalKvLen blockSize)).map fun page =>
    (s.seq.blockTable.getD page 0 : ℤ)

/-- The table covers the context, as the scheduler reserves it. -/
def DecodeSequence.Covered (s : DecodeSequence H) (blockSize : ℕ) : Prop :=
  pagesFor s.seq.physicalKvLen blockSize ≤ s.seq.blockTable.length

theorem reads_eq_expected {b : GraphBuffers} {s : DecodeSequence H} {blockSize : ℕ}
    (hcovered : s.Covered blockSize) (hid : b.hostModelInputs 0 = s.lastToken)
    (hpositions : ∀ axis < mropeAxisCount, b.hostModelInputs (1 + axis) = s.logicalPosition)
    (hslot : b.hostDecodeMetadata 0 = s.kvSlot blockSize)
    (hcontext : b.hostDecodeMetadata 1 = s.seq.physicalKvLen)
    (hmax : b.hostDecodeMetadata 3 = s.seq.physicalKvLen)
    (htable : ∀ page < s.seq.blockTable.length,
      b.hostDecodeMetadata (4 + page) = (s.seq.blockTable.getD page 0 : ℤ)) :
    b.reads blockSize = s.expectedReads blockSize := by
  unfold GraphBuffers.reads DecodeSequence.expectedReads
  rw [hid, hslot, hcontext, hmax, Int.toNat_natCast]
  congr 1
  · refine List.map_congr_left fun axis haxis => ?_
    exact hpositions axis (List.mem_range.mp haxis)
  · refine List.map_congr_left fun page hpage => ?_
    exact htable page ((List.mem_range.mp hpage).trans_le hcovered)

theorem getD_map_cast (table : List ℕ) {page : ℕ} (h : page < table.length) :
    (table.map fun id : ℕ => (id : ℤ)).getD page 0 = (table.getD page 0 : ℤ) := by
  simp [List.getD_eq_getElem?_getD, h]

section Fast

variable {r fast : GraphRunner} {s : DecodeSequence H}

/-- The runner when the fast path replays. -/
def GraphRunner.stagedSingle (r : GraphRunner) (s : DecodeSequence H) : GraphRunner :=
  (r.fillSingleGreedy s).setBuffers 1 (((r.fillSingleGreedy s).graphVars 1).writeMetadata 4
    (s.seq.blockTable.map fun id : ℕ => (id : ℤ)))

theorem GraphRunner.stagedSingle_graphBs (r : GraphRunner) (s : DecodeSequence H) :
    (r.stagedSingle s).graphBs = r.graphBs :=
  congrArg cudagraphBatchSizes (r.fillSingleGreedy_sameShape s).2.1

theorem singleGreedyDecode_ok (h : GraphRunner.singleGreedyDecode s r = .ok true fast) :
    1 ∈ r.graphBs ∧ 0 < s.physicalLastBlockNumTokens ∧ s.seq.blockTable ≠ [] ∧
      s.seq.blockTable.length ≤ r.maxNumBlocks ∧
      fast = r.stagedSingle s := by
  simp only [GraphRunner.singleGreedyDecode, GraphRunner.prepareSingleGreedyDecode, bind_ok,
    get_ok] at h
  obtain ⟨eligible, t, ⟨_, _, ⟨rfl, rfl⟩, hprepare⟩, hrun⟩ := h
  have hshape := r.fillSingleGreedy_sameShape s
  split_ifs at hprepare with hgate
  · obtain ⟨rfl, rfl⟩ := pure_ok.mp hprepare
    simp at hrun
  · simp only [bind_ok, require_ok, set_ok, pure_ok] at hprepare
    obtain ⟨_, _, ⟨⟨htable, hlast⟩, rfl⟩, _, _, ⟨-, rfl⟩, _, _, rfl, _, _, ⟨hlen, rfl⟩, _, _, rfl,
      rfl, rfl⟩ := hprepare
    simp only [not_or, not_not, not_lt] at hgate
    rw [if_pos rfl] at hrun
    simp only [GraphRunner.runModelCudagraph, bind_ok, get_ok, pure_ok] at hrun
    obtain ⟨bucket, t, ⟨_, _, ⟨rfl, rfl⟩, hfind⟩, -, rfl⟩ := hrun
    have hsizes : ((r.fillSingleGreedy s).setBuffers 1
        (((r.fillSingleGreedy s).graphVars 1).writeMetadata 4
          (s.seq.blockTable.map fun id : ℕ => (id : ℤ)))).graphBs = r.graphBs :=
      r.stagedSingle_graphBs s
    simp only [hsizes, GraphRunner.find?_bucket_one hgate.2.1, pure_ok] at hfind
    obtain ⟨-, rfl⟩ := hfind
    exact ⟨hgate.2.1, hlast, htable, hshape.2.2.1 ▸ hlen, rfl⟩

/-- Where the fast path applies. -/
theorem singleGreedyDecode_runs (henabled : r.fastPathEnabled = true) (hbucket : 1 ∈ r.graphBs)
    (hgreedy : s.temperature ≤ GraphRunner.samplingNumericalEpsilon)
    (hlast : 0 < s.physicalLastBlockNumTokens) (hvalid : r.SingleGreedyValid s)
    (hwidth : s.seq.blockTable.length ≤ r.maxNumBlocks) :
    ∃ fast, GraphRunner.singleGreedyDecode s r = .ok true fast := by
  have hshape := r.fillSingleGreedy_sameShape s
  refine ⟨r.stagedSingle s, ?_⟩
  simp only [GraphRunner.singleGreedyDecode, GraphRunner.prepareSingleGreedyDecode, bind_ok,
    get_ok]
  refine ⟨true, r.stagedSingle s, ⟨r, r, ⟨rfl, rfl⟩, ?_⟩, ?_⟩
  · rw [if_neg (by simp [henabled, hbucket, hgreedy])]
    simp only [bind_ok, require_ok, set_ok, pure_ok]
    exact ⟨(), r, ⟨⟨hvalid.2.2.2.2.2, hlast⟩, rfl⟩, (), r, ⟨hvalid, rfl⟩, ⟨⟩, _, rfl, (), _,
      ⟨hshape.2.2.1.symm ▸ hwidth, rfl⟩, ⟨⟩, _, rfl, trivial, rfl⟩
  · rw [if_pos rfl]
    simp only [GraphRunner.runModelCudagraph, bind_ok, get_ok, pure_ok]
    refine ⟨1, r.stagedSingle s, ⟨_, _, ⟨rfl, rfl⟩, ?_⟩, trivial, rfl⟩
    simp only [r.stagedSingle_graphBs s, GraphRunner.find?_bucket_one hbucket, pure_ok]
    exact ⟨trivial, trivial⟩

@[simp] theorem GraphRunner.setBuffers_self (r : GraphRunner) (bucket : ℕ) (b : GraphBuffers) :
    (r.setBuffers bucket b).graphVars bucket = b := Function.update_self _ _ _

/-- Filling leaves the header of the metadata and all model inputs of bucket 1. -/
theorem fillSingleGreedy_header (r : GraphRunner) (s : DecodeSequence H) :
    ((r.fillSingleGreedy s).graphVars 1).hostModelInputs 0 = s.lastToken ∧
    (∀ axis < mropeAxisCount,
      ((r.fillSingleGreedy s).graphVars 1).hostModelInputs (1 + axis) = s.logicalPosition) ∧
    ((r.fillSingleGreedy s).graphVars 1).hostDecodeMetadata 0 = s.kvSlot r.blockSize ∧
    ((r.fillSingleGreedy s).graphVars 1).hostDecodeMetadata 1 = s.seq.physicalKvLen ∧
    ((r.fillSingleGreedy s).graphVars 1).hostDecodeMetadata 3 = s.seq.physicalKvLen := by
  have hpositions : ∀ axis < mropeAxisCount,
      ((((r.graphVars 1).writeModel 0 [s.lastToken]).writeModel 1
        (List.replicate mropeAxisCount s.logicalPosition)).hostModelInputs (1 + axis)) =
          s.logicalPosition := by
    intro axis haxis
    rw [GraphBuffers.writeModel_model, HostBuffer.write_of_mem _ (by simpa using haxis)]
    simp [List.getD_eq_getElem?_getD, haxis]
  unfold GraphRunner.fillSingleGreedy
  split_ifs
  · exact ⟨rfl, hpositions, rfl, rfl, rfl⟩
  · exact ⟨rfl, hpositions, rfl, rfl, rfl⟩

theorem singleGreedyDecode_expected (hcovered : s.Covered r.blockSize)
    (h : GraphRunner.singleGreedyDecode s r = .ok true fast) :
    (fast.graphVars 1).reads r.blockSize = s.expectedReads r.blockSize := by
  obtain ⟨-, -, -, -, rfl⟩ := singleGreedyDecode_ok h
  obtain ⟨hid, hpositions, hslot, hcontext, hmax⟩ := fillSingleGreedy_header r s
  rw [GraphRunner.stagedSingle, GraphRunner.setBuffers_self]
  apply reads_eq_expected hcovered
  · exact hid
  · exact hpositions
  · rw [GraphBuffers.writeMetadata_metadata, HostBuffer.write_of_lt _ (by omega), hslot]
  · rw [GraphBuffers.writeMetadata_metadata, HostBuffer.write_of_lt _ (by omega), hcontext]
  · rw [GraphBuffers.writeMetadata_metadata, HostBuffer.write_of_lt _ (by omega), hmax]
  · intro page hpage
    rw [GraphBuffers.writeMetadata_metadata,
      HostBuffer.write_of_mem _ (by simpa using hpage), getD_map_cast _ hpage]

end Fast

section General

variable {r : GraphRunner} {s : DecodeSequence H}

/-- The tensors of a batch of one. -/
def preparedOne (blockSize : ℕ) (s : DecodeSequence H) : PreparedDecode where
  batchSize := 1
  maxBlocks := s.seq.blockTable.length
  usesMrope := s.ropeDelta.isSome
  packedModelInputs := s.lastToken ::
    if s.ropeDelta.isSome then List.replicate mropeAxisCount s.logicalPosition
    else [(s.seq.numTokens : ℤ) - 1]
  packedDecodeMetadata := s.kvSlot blockSize :: s.seq.physicalKvLen :: s.seq.numTokens ::
    s.seq.physicalKvLen :: s.seq.blockTable.map fun id : ℕ => (id : ℤ)

theorem prepareDecode_one (blockSize : ℕ) (hresident : s.seq.cpuBlockTable = [])
    (htable : s.seq.blockTable ≠ []) (hlast : 0 < s.physicalLastBlockNumTokens) :
    prepareDecode blockSize [s] = .ok (preparedOne blockSize s) := by
  have hvalid : validateDecodeBatch [s] = .ok () := by
    simp only [validateDecodeBatch, except_bind_ok, ensure_ok]
    refine ⟨(), by simp, (), by simp [hresident], (), by simp [htable], ?_⟩
    rw [List.find?_cons_of_neg (by simpa using hlast)]
    rfl
  simp only [prepareDecode, except_bind_ok, except_pure_ok]
  refine ⟨(), hvalid, ?_⟩
  cases hdelta : s.ropeDelta <;>
    simp [preparedOne, hdelta, DecodeSequence.paddedTable, paddedTable, mropeAxisCount]

theorem text_position (h : s.ropeDelta.isSome = false) :
    (s.seq.numTokens : ℤ) - 1 = s.logicalPosition := by
  rw [Option.isSome_eq_false_iff, Option.isNone_iff_eq_none] at h
  simp [DecodeSequence.logicalPosition, h]

/-- Packed staging of one sequence, with whatever lies behind its table. -/
theorem stagePacked_expected (b : GraphBuffers) {blockSize : ℕ} (hcovered : s.Covered blockSize)
    (hlength : (preparedOne blockSize s).packedModelInputs.length = 1 * (1 + mropeAxisCount)) :
    (b.stagePacked (preparedOne blockSize s)).reads blockSize = s.expectedReads blockSize := by
  have hmrope : s.ropeDelta.isSome = true := by
    by_contra hnot
    simp [preparedOne, hnot, mropeAxisCount] at hlength
  apply reads_eq_expected hcovered rfl
  · intro axis haxis
    have hget : (preparedOne blockSize s).packedModelInputs.getD (1 + axis) 0 =
        s.logicalPosition := by
      simp [preparedOne, hmrope, Nat.add_comm 1 axis, List.getD_eq_getElem?_getD, haxis]
    have hwrite : b.hostModelInputs.write 0 (preparedOne blockSize s).packedModelInputs
        (0 + (1 + axis)) = (preparedOne blockSize s).packedModelInputs.getD (1 + axis) 0 :=
      HostBuffer.write_of_mem b.hostModelInputs (by rw [hlength]; omega)
    rw [zero_add, hget] at hwrite
    exact hwrite
  · rfl
  · rfl
  · rfl
  · intro page hpage
    have hget : (preparedOne blockSize s).packedDecodeMetadata.getD (4 + page) 0 =
        (s.seq.blockTable.getD page 0 : ℤ) := by
      rw [← getD_map_cast _ hpage, Nat.add_comm]
      rfl
    have hwrite : b.hostDecodeMetadata.write 0 (preparedOne blockSize s).packedDecodeMetadata
        (0 + (4 + page)) = (preparedOne blockSize s).packedDecodeMetadata.getD (4 + page) 0 :=
      HostBuffer.write_of_mem b.hostDecodeMetadata (by simp [preparedOne]; omega)
    rw [zero_add, hget] at hwrite
    exact hwrite

theorem preparedOne_blockTable (blockSize : ℕ) :
    (preparedOne blockSize s).blockTable 0 = s.seq.blockTable.map fun id : ℕ => (id : ℤ) := by
  have hsplit : (preparedOne blockSize s).packedDecodeMetadata =
      [s.kvSlot blockSize, s.seq.physicalKvLen, s.seq.numTokens, s.seq.physicalKvLen] ++
        (s.seq.blockTable.map fun id : ℕ => (id : ℤ)) ++ [] := by
    simp [preparedOne]
  have hslice := @slice_append ℤ [s.kvSlot blockSize, (s.seq.physicalKvLen : ℤ),
    s.seq.numTokens, s.seq.physicalKvLen] (s.seq.blockTable.map fun id : ℕ => (id : ℤ)) []
  rw [PreparedDecode.blockTable, hsplit]
  simpa [preparedOne] using hslice

theorem preparedOne_positions (blockSize : ℕ) {axis : ℕ} (h : axis < mropeAxisCount) :
    (preparedOne blockSize s).positions axis = [s.logicalPosition] := by
  cases hdelta : s.ropeDelta.isSome with
  | true =>
    have hmin : min (axis + 1) mropeAxisCount = axis + 1 := by omega
    simp [PreparedDecode.positions, preparedOne, hdelta, slice, Nat.add_comm 1 axis,
      List.take_replicate, hmin]
  | false => simp [PreparedDecode.positions, preparedOne, hdelta, slice, text_position hdelta]

/-- Field-by-field staging of one sequence. -/
theorem stageFields_expected (b : GraphBuffers) {blockSize width : ℕ}
    (hcovered : s.Covered blockSize) :
    (b.stageFields width 1 (preparedOne blockSize s)).reads blockSize =
      s.expectedReads blockSize := by
  have haxes : List.range mropeAxisCount = [0, 1, 2] := rfl
  have hsingle : List.range (preparedOne blockSize s).batchSize = [0] := rfl
  have htable := preparedOne_blockTable (s := s) blockSize
  unfold GraphBuffers.stageFields
  simp only [haxes, hsingle, List.foldl_cons, List.foldl_nil,
    preparedOne_positions (s := s) blockSize (show 0 < mropeAxisCount by decide),
    preparedOne_positions (s := s) blockSize (show 1 < mropeAxisCount by decide),
    preparedOne_positions (s := s) blockSize (show 2 < mropeAxisCount by decide), htable]
  have hstart : GraphBuffers.tableStart 1 = 4 := rfl
  have hfirst : GraphBuffers.tableStart 1 + 0 * width = 4 := by simp [hstart]
  rw [hfirst, hstart]
  -- the table and its padding start behind the header
  have hheader : ∀ (b : GraphBuffers) (table : List ℤ) (k : ℕ), k < 4 →
      ((b.fillMetadata 4 (GraphBuffers.metadataSize width 1) (-1)).writeMetadata 4
        table).hostDecodeMetadata k = b.hostDecodeMetadata k := by
    intro b table k hk
    rw [GraphBuffers.writeMetadata_metadata, HostBuffer.write_of_lt _ hk,
      GraphBuffers.fillMetadata_metadata, HostBuffer.fill_of_lt _ hk]
  apply reads_eq_expected hcovered
  · rfl
  · intro axis haxis
    unfold mropeAxisCount at haxis
    interval_cases axis <;> rfl
  · rw [hheader _ _ 0 (by decide)]
    rfl
  · rw [hheader _ _ 1 (by decide)]
    rfl
  · rw [hheader _ _ 3 (by decide)]
    rfl
  · intro page hpage
    rw [GraphBuffers.writeMetadata_metadata, HostBuffer.write_of_mem _ (by simpa using hpage),
      getD_map_cast _ hpage]

/-- The general path stages one sequence exactly. -/
theorem generalDecode_expected (hbucket : 1 ∈ r.graphBs) (hresident : s.seq.cpuBlockTable = [])
    (htable : s.seq.blockTable ≠ []) (hlast : 0 < s.physicalLastBlockNumTokens)
    (hwidth : s.seq.blockTable.length ≤ r.maxNumBlocks) (hcovered : s.Covered r.blockSize) :
    ∃ general, GraphRunner.generalDecode [s] r = .ok 1 general ∧
      (general.graphVars 1).reads r.blockSize = s.expectedReads r.blockSize := by
  have hprepare := prepareDecode_one r.blockSize hresident htable hlast
  have hsize : (preparedOne r.blockSize s).batchSize = 1 := rfl
  have hblocks : (preparedOne r.blockSize s).maxBlocks ≤ r.maxNumBlocks := hwidth
  by_cases hpacked : r.UsesPackedStaging 1 (preparedOne r.blockSize s)
  · refine ⟨r.setBuffers 1 ((r.graphVars 1).stagePacked (preparedOne r.blockSize s)), ?_, ?_⟩
    · simp only [GraphRunner.generalDecode, GraphRunner.runModelCudagraph, bind_ok, get_ok,
        readOnly_ok]
      refine ⟨r, r, ⟨rfl, rfl⟩, _, r, ⟨hprepare, rfl⟩, r, r, ⟨rfl, rfl⟩, ?_⟩
      simp only [hsize, GraphRunner.find?_bucket_one hbucket, bind_ok, require_ok]
      refine ⟨(), r, ⟨hblocks, rfl⟩, ?_⟩
      rw [if_pos hpacked]
      rfl
    · rw [GraphRunner.setBuffers_self]
      exact stagePacked_expected _ hcovered hpacked.2.1
  · refine ⟨r.setBuffers 1 ((r.graphVars 1).stageFields r.maxNumBlocks 1
      (preparedOne r.blockSize s)), ?_, ?_⟩
    · simp only [GraphRunner.generalDecode, GraphRunner.runModelCudagraph, bind_ok, get_ok,
        readOnly_ok]
      refine ⟨r, r, ⟨rfl, rfl⟩, _, r, ⟨hprepare, rfl⟩, r, r, ⟨rfl, rfl⟩, ?_⟩
      simp only [hsize, GraphRunner.find?_bucket_one hbucket, bind_ok, require_ok]
      refine ⟨(), r, ⟨hblocks, rfl⟩, ?_⟩
      rw [if_neg hpacked]
      rfl
    · rw [GraphRunner.setBuffers_self]
      exact stageFields_expected _ hcovered

end General

section Runs

open GraphRunner

variable {α β : Type} {r : GraphRunner}

@[simp] theorem stateAfter_pure (a : α) : stateAfter (pure a : Run α) r = r := rfl

@[simp] theorem stateAfter_throw (e : DecodeGraphError) :
    stateAfter (throw e : Run α) r = r := rfl

@[simp] theorem stateAfter_get_bind (f : GraphRunner → Run β) :
    stateAfter (get >>= f) r = stateAfter (f r) r := rfl

@[simp] theorem stateAfter_set_bind (t : GraphRunner) (f : PUnit → Run β) :
    stateAfter (set t >>= f) r = stateAfter (f ⟨⟩) t := rfl

@[simp] theorem stateAfter_require_bind (c : Prop) [Decidable c] (e : DecodeGraphError)
    (f : Unit → Run β) :
    stateAfter (require c e >>= f) r = if c then stateAfter (f ()) r else r := by
  by_cases hc : c
  · rw [require, if_pos hc, if_pos hc]
    rfl
  · rw [require, if_neg hc, if_neg hc]
    rfl

theorem stateAfter_readOnly_bind (x : Except DecodeGraphError α) (f : α → Run β) :
    stateAfter (readOnly x >>= f) r =
      match x with
      | .ok a => stateAfter (f a) r
      | .error _ => r := by
  cases x <;> rfl

/-- A call is its first part, and its second part where the first returned. -/
theorem stateAfter_bind (x : Run α) (f : α → Run β) :
    stateAfter (x >>= f) r =
      match x r with
      | .ok a t => stateAfter (f a) t
      | .error _ t => t := by
  simp only [stateAfter, bind, EStateM.bind]
  cases x r <;> rfl

theorem SameShape.refl (r : GraphRunner) : r.SameShape r := ⟨rfl, rfl, rfl, rfl⟩

theorem SameShape.trans {r s t : GraphRunner} (h : r.SameShape s) (h' : s.SameShape t) :
    r.SameShape t :=
  ⟨h'.1.trans h.1, h'.2.1.trans h.2.1, h'.2.2.1.trans h.2.2.1, h'.2.2.2.trans h.2.2.2⟩

theorem setBuffers_sameShape (r : GraphRunner) (bucket : ℕ) (b : GraphBuffers) :
    r.SameShape (r.setBuffers bucket b) := ⟨rfl, rfl, rfl, rfl⟩

theorem runModelCudagraph_sameShape (inputs : ReplayInputs) (r : GraphRunner) :
    r.SameShape (stateAfter (runModelCudagraph inputs) r) := by
  unfold runModelCudagraph
  rw [stateAfter_get_bind]
  cases inputs with
  | persistent =>
    dsimp only
    split <;> exact SameShape.refl r
  | prepared p =>
    dsimp only
    split
    · exact SameShape.refl r
    · rw [stateAfter_require_bind]
      split_ifs
      · exact setBuffers_sameShape r _ _
      · exact setBuffers_sameShape r _ _
      · exact SameShape.refl r

theorem generalDecode_sameShape (seqs : List (DecodeSequence H)) (r : GraphRunner) :
    r.SameShape (stateAfter (generalDecode seqs) r) := by
  unfold generalDecode
  rw [stateAfter_get_bind, stateAfter_readOnly_bind]
  split
  · exact runModelCudagraph_sameShape _ r
  · exact SameShape.refl r

theorem prepareSingleGreedyDecode_sameShape (s : DecodeSequence H) (r : GraphRunner) :
    r.SameShape (stateAfter (prepareSingleGreedyDecode s) r) := by
  have hfill := r.fillSingleGreedy_sameShape s
  unfold prepareSingleGreedyDecode
  rw [stateAfter_get_bind]
  split_ifs
  · exact SameShape.refl r
  · simp only [stateAfter_require_bind, stateAfter_set_bind, stateAfter_pure]
    split_ifs
    · exact SameShape.trans hfill (setBuffers_sameShape _ _ _)
    · exact hfill
    · exact SameShape.refl r
    · exact SameShape.refl r

theorem singleGreedyDecode_sameShape (s : DecodeSequence H) (r : GraphRunner) :
    r.SameShape (stateAfter (singleGreedyDecode s) r) := by
  have hprepare := prepareSingleGreedyDecode_sameShape s r
  unfold singleGreedyDecode
  rw [stateAfter_bind]
  unfold stateAfter at hprepare
  cases hrun : prepareSingleGreedyDecode s r with
  | error e t =>
    rw [hrun] at hprepare
    exact hprepare
  | ok eligible t =>
    rw [hrun] at hprepare
    apply SameShape.trans hprepare
    cases eligible with
    | false => exact SameShape.refl t
    | true =>
      have hreplay := runModelCudagraph_sameShape .persistent t
      change t.SameShape (stateAfter (runModelCudagraph .persistent >>= fun _ => pure true) t)
      rw [stateAfter_bind]
      unfold stateAfter at hreplay
      cases hres : runModelCudagraph .persistent t with
      | error e u =>
        rw [hres] at hreplay
        exact hreplay
      | ok bucket u =>
        rw [hres] at hreplay
        exact hreplay

theorem call_sameShape (r : GraphRunner) (c : DecodeCall H) : r.SameShape (r.call c) := by
  cases c with
  | general seqs => exact generalDecode_sameShape seqs r
  | single s => exact singleGreedyDecode_sameShape s r

theorem calls_sameShape (r : GraphRunner) (cs : List (DecodeCall H)) :
    r.SameShape (r.calls cs) := by
  induction cs generalizing r with
  | nil => exact SameShape.refl r
  | cons c cs ih => exact SameShape.trans (call_sameShape r c) (ih (r.call c))

end Runs

section Replay

open GraphRunner

/-- The tensors of a replay whose page tables are those of a buffer. -/
def PagedDecodeTensors.withTable (T : PagedDecodeTensors) (b : GraphBuffers) :
    PagedDecodeTensors :=
  { T with blockTables := fun _ page => b.hostDecodeMetadata (GraphBuffers.tableStart 1 + page) }

/-- A launch of batch one with the staged lengths. -/
structure PagedDecodeLaunch.Replays (L : PagedDecodeLaunch) (blockSize : ℕ) (b : GraphBuffers) :
    Prop where
  batch : L.batch = 1
  pageBlockSize : L.pageBlockSize = blockSize
  contextLen : (L.contextLens 0 : ℤ) = b.hostDecodeMetadata 1
  maxContextLen : (L.maxContextLen : ℤ) = b.hostDecodeMetadata 3

/-- Attention depends on a page table only where it covers the context. -/
theorem PagedDecodeLaunch.softmaxAttention_congr (L : PagedDecodeLaunch)
    (T T' : PagedDecodeTensors) (seqIdx qHead d : ℕ)
    (hsame : { T with blockTables := T'.blockTables } = T')
    (htable : ∀ page < pagesFor (L.contextLens seqIdx) L.pageBlockSize,
      T.blockTables seqIdx page = T'.blockTables seqIdx page) :
    L.softmaxAttention T seqIdx qHead d = L.softmaxAttention T' seqIdx qHead d := by
  have hcover : ∀ row < L.contextLens seqIdx,
      T.blockTables seqIdx (row / L.pageBlockSize) =
        T'.blockTables seqIdx (row / L.pageBlockSize) := by
    intro row hrow
    apply htable
    have hdiv := Nat.div_add_mod' (L.contextLens seqIdx + L.pageBlockSize - 1) L.pageBlockSize
    have hmod := Nat.mod_lt (L.contextLens seqIdx + L.pageBlockSize - 1) L.pageBlockSize_pos
    rw [Nat.div_lt_iff_lt_mul L.pageBlockSize_pos, pagesFor]
    omega
  have hrows : L.addressedRows T seqIdx
      (min (min (L.contextLens seqIdx) L.maxContextLen) L.maxContextCapacity) =
      L.addressedRows T' seqIdx
        (min (min (L.contextLens seqIdx) L.maxContextLen) L.maxContextCapacity) := by
    apply Finset.filter_congr
    intro row hrow
    rw [hcover row (by rw [Finset.mem_range] at hrow; omega)]
  have hlt : ∀ row ∈ L.addressedRows T' seqIdx
      (min (min (L.contextLens seqIdx) L.maxContextLen) L.maxContextCapacity),
      row < L.contextLens seqIdx := by
    intro row hrow
    have hrange := Finset.mem_range.mp (Finset.mem_filter.mp hrow).1
    omega
  have helement : ∀ row < L.contextLens seqIdx, ∀ cache scales e,
      L.rowElement T seqIdx qHead cache scales row e =
        L.rowElement T' seqIdx qHead cache scales row e := by
    intro row hrow cache scales e
    unfold rowElement
    rw [hcover row hrow]
  rw [softmaxAttention, softmaxAttention, hrows]
  apply OnlineSoftmax.attend_congr
  · intro row hrow
    unfold rowScore
    simp only [helement row (hlt row hrow)]
    rw [← hsame]
  · intro row hrow
    unfold rowValue
    rw [helement row (hlt row hrow), ← hsame]

/-- Equal reads, equal attention: nothing else of the table is read. -/
theorem launch_of_reads_eq {L : PagedDecodeLaunch} {blockSize : ℕ} {b b' : GraphBuffers}
    (hreplays : L.Replays blockSize b) (hreads : b.reads blockSize = b'.reads blockSize)
    (hmax : b.hostDecodeMetadata 3 = b.hostDecodeMetadata 1) (T : PagedDecodeTensors)
    {qHead d : ℕ} (hd : d < L.headDim) :
    L.launchPagedDecodeAttention (T.withTable b) 0 qHead d =
      L.launchPagedDecodeAttention (T.withTable b') 0 qHead d := by
  have hlen : L.maxContextLen = L.contextLens 0 := by
    have hcast := hreplays.maxContextLen
    rw [hmax, ← hreplays.contextLen] at hcast
    exact_mod_cast hcast
  have hbound : L.contextLens 0 ≤ L.runtimeBound ∨ L.runtimeBound = L.maxContextCapacity ∨
      L.blockN ∣ L.runtimeBound := by
    rw [PagedDecodeLaunch.runtimeBound, hlen]
    obtain hle | hle := le_total (L.contextLens 0) L.maxContextCapacity
    · exact .inl (by rw [min_eq_left hle])
    · exact .inr (.inl (min_eq_right hle))
  rw [L.launch_eq_softmaxAttention _ _ _ hd hbound, L.launch_eq_softmaxAttention _ _ _ hd hbound]
  apply L.softmaxAttention_congr _ _ _ _ _ rfl
  intro page hpage
  have hcontext : b.hostDecodeMetadata 1 = b'.hostDecodeMetadata 1 :=
    congrArg GraphReads.contextLen hreads
  have hpages : (List.range (pagesFor (b.hostDecodeMetadata 1).toNat blockSize)).map
      (fun page => b.hostDecodeMetadata (GraphBuffers.tableStart 1 + page)) =
      (List.range (pagesFor (b'.hostDecodeMetadata 1).toNat blockSize)).map
        fun page => b'.hostDecodeMetadata (GraphBuffers.tableStart 1 + page) :=
    congrArg GraphReads.pages hreads
  rw [← hcontext, ← hreplays.contextLen, Int.toNat_natCast] at hpages
  rw [hreplays.pageBlockSize] at hpage
  exact List.map_inj_left.mp hpages page (List.mem_range.mpr hpage)

/-- After any calls, the fast path and the general path stage the same values wherever the
replay of bucket 1 reads, and its attention is the same. -/
theorem singleGreedyDecode_agrees (r : GraphRunner) (cs : List (DecodeCall H))
    {s : DecodeSequence H} (hresident : s.seq.cpuBlockTable = [])
    (hcovered : s.Covered r.blockSize) {fast : GraphRunner}
    (h : singleGreedyDecode s (r.calls cs) = .ok true fast) :
    ∃ general, generalDecode [s] (r.calls cs) = .ok 1 general ∧
      (fast.graphVars 1).reads r.blockSize = (general.graphVars 1).reads r.blockSize ∧
      (fast.graphVars 1).reads r.blockSize = s.expectedReads r.blockSize ∧
      ∀ (L : PagedDecodeLaunch), L.Replays r.blockSize (fast.graphVars 1) →
        ∀ (T : PagedDecodeTensors), ∀ qHead < L.numHeads, ∀ d < L.headDim,
          L.launchPagedDecodeAttention (T.withTable (fast.graphVars 1)) 0 qHead d =
            L.launchPagedDecodeAttention (T.withTable (general.graphVars 1)) 0 qHead d := by
  obtain ⟨hsize, -⟩ := calls_sameShape r cs
  rw [← hsize] at hcovered ⊢
  obtain ⟨hbucket, hlast, htable, hwidth, -⟩ := singleGreedyDecode_ok h
  obtain ⟨general, hrun, hgeneral⟩ :=
    generalDecode_expected hbucket hresident htable hlast hwidth hcovered
  have hfast := singleGreedyDecode_expected hcovered h
  refine ⟨general, hrun, hfast.trans hgeneral.symm, hfast, ?_⟩
  intro L hreplays T qHead _ d hd
  apply launch_of_reads_eq hreplays (hfast.trans hgeneral.symm) _ T hd
  exact (congrArg GraphReads.maxContextLen hfast).trans
    (congrArg GraphReads.contextLen hfast).symm

/-- A captured runner of two buckets and pages of two rows. -/
def smallRunner : GraphRunner where
  blockSize := 2
  maxBs := 2
  maxNumBlocks := 3
  fastPathEnabled := true
  graphVars _ := ⟨fun _ => 0, fun _ => 0⟩
  batchCache := none

/-- A text sequence of four tokens on given pages. -/
def textDecode (id : ℕ) (blockTable : List ℕ) : DecodeSequence ℕ where
  seq :=
    { Sequence.ofRequest ℕ (threeTokenRequest id) with
      tokenIds := [5, 6, 7, 8]
      blockTable := blockTable }
  ropeDelta := none
  temperature := 0

/-- Earlier calls with another table, another sequence and another batch size. -/
def earlierCalls : List (DecodeCall ℕ) :=
  [.single (textDecode 0 [4, 2]), .general [textDecode 1 [7, 3, 5]],
    .general [textDecode 0 [4, 2], textDecode 1 [7, 3]]]

theorem singleGreedyDecode_agrees_small : ∃ fast general,
    singleGreedyDecode (textDecode 0 [4, 1]) (smallRunner.calls earlierCalls) = .ok true fast ∧
    generalDecode [textDecode 0 [4, 1]] (smallRunner.calls earlierCalls) = .ok 1 general ∧
    (fast.graphVars 1).reads 2 = (general.graphVars 1).reads 2 := by
  obtain ⟨hsize, hbs, hwidth, henabled⟩ := calls_sameShape smallRunner earlierCalls
  have hbucket : (smallRunner.calls earlierCalls).graphBs = cudagraphBatchSizes 2 :=
    congrArg cudagraphBatchSizes hbs
  have hvalid : (smallRunner.calls earlierCalls).SingleGreedyValid (textDecode 0 [4, 1]) := by
    rw [GraphRunner.SingleGreedyValid, hsize]
    decide
  obtain ⟨fast, hfast⟩ := singleGreedyDecode_runs (s := textDecode 0 [4, 1])
    (r := smallRunner.calls earlierCalls) henabled (by rw [hbucket]; decide)
    (by norm_num [textDecode, samplingNumericalEpsilon]) (by decide) hvalid
    (by rw [hwidth]; decide)
  obtain ⟨general, hgeneral, hreads, -⟩ :=
    singleGreedyDecode_agrees smallRunner earlierCalls rfl
      (by unfold DecodeSequence.Covered; decide) hfast
  exact ⟨fast, general, hfast, hgeneral, hreads⟩

end Replay

end PrismInfer
