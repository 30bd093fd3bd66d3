import PrismInfer.Lib.BFloat16
import PrismInfer.Lib.LargestKeys
import PrismInfer.Lib.StateExcept

/-!
# Two-stage top-k

The tile kernel selects `k` candidates of every tile of 1024 logits, the merge kernel `k` of
all candidates. Both order by keys that hold the place of a BF16 value above a local id. The
selection itself, `tl.topk`, is a parameter.
-/
namespace PrismInfer
open StateExcept LargestKeys BFloat16

inductive TopkError
  | batchSize (batch : ℕ)
  | topK (k : ℕ)
  | mergeSize (size : ℕ)
deriving DecidableEq, Repr

namespace SelectiveTopk

/-- `SELECTIVE_TOPK_TILE_SIZE`. -/
def tileSize : ℕ := 1024

/-- `MAX_SELECTIVE_TOPK_BATCH`. -/
def maxBatch : ℕ := 8

/-- The float-key transform on the bits of a value. -/
def orderedBits (value : BitVec 16) : BitVec 32 :=
  let bits := value.setWidth 32
  let sign := bits &&& 0x8000#32
  if sign ≠ 0#32 then ~~~bits &&& 0xFFFF#32 else bits ^^^ 0x8000#32

/-- The key of a lane: transformed bits above the local id. -/
def laneKey (value : BitVec 16) (localId : ℕ) : BitVec 32 :=
  (orderedBits value <<< 16) ||| BitVec.ofNat 32 localId

/-- `top_keys & 0xFFFF`. -/
def localIdOf (key : BitVec 32) : ℕ := (key &&& 0xFFFF#32).toNat

/-- `tl.load` of the logits, `-inf` behind the vocabulary. -/
def load (logits : List (BitVec 16)) (id : ℕ) : BitVec 16 :=
  if id < logits.length then logits.getD id 0 else negInf

section Kernels

variable (topk : ℕ → List (BitVec 32) → List (BitVec 32))

/-- `_selective_topk_tiles_kernel` for one tile: its candidate values and ids. -/
def tileCandidates (logits : List (BitVec 16)) (k tileId : ℕ) : List (BitVec 16 × ℕ) :=
  let keys := (List.range tileSize).map fun localId =>
    laneKey (load logits (tileId * tileSize + localId)) localId
  (topk k keys).map fun key =>
    let selectedGlobalId := tileId * tileSize + localIdOf key
    (load logits selectedGlobalId, selectedGlobalId)

-- what an unmasked load finds behind the row's candidates
variable (outside : ℕ → ℕ)

/-- `_selective_topk_merge_kernel`: the ids selected among the candidates. -/
def mergeCandidates (candidates : List (BitVec 16 × ℕ)) (mergeSize k : ℕ) : List ℕ :=
  let keys := (List.range mergeSize).map fun localId =>
    laneKey (if localId < candidates.length then (candidates.getD localId default).1 else negInf)
      localId
  (topk k keys).map fun key =>
    (candidates[localIdOf key]?).elim (outside (localIdOf key)) Prod.snd

/-- Both kernels on one row; every tile writes its `k` candidates behind those before it. -/
def rowIndices (logits : List (BitVec 16)) (tileCount mergeSize k : ℕ) : List ℕ :=
  mergeCandidates topk outside ((List.range tileCount).flatMap (tileCandidates topk logits k))
    mergeSize k

/-- `triton.next_power_of_2`. -/
def nextPowerOf2 (n : ℕ) : ℕ := if n = 0 then 0 else 2 ^ Nat.clog 2 n

/-- `triton.cdiv(vocab_size, SELECTIVE_TOPK_TILE_SIZE)`. -/
def tileCountOf (vocabSize : ℕ) : ℕ := (vocabSize + tileSize - 1) / tileSize

/-- `selective_topk_indices` on a batch of rows of `vocabSize` logits. -/
def selectiveTopkIndices (logits : List (List (BitVec 16))) (vocabSize k : ℕ) :
    Except TopkError (List (List ℕ)) := do
  ensure (1 ≤ logits.length ∧ logits.length ≤ maxBatch) (.batchSize logits.length)
  ensure (0 < k ∧ k ≤ tileSize ∧ k &&& (k - 1) = 0) (.topK k)
  let tileCount := tileCountOf vocabSize
  let candidateCount := tileCount * k
  let mergeSize := nextPowerOf2 candidateCount
  ensure (mergeSize ≤ 65536) (.mergeSize mergeSize)
  pure (logits.map fun row => rowIndices topk outside row tileCount mergeSize k)

/-- `tl.topk` returns the `k` largest keys, in whatever order. -/
def Selects : Prop :=
  ∀ k keys, k ≤ keys.length → (topk k keys).Perm (largest BitVec.toNat k keys)

end Kernels

/-! ## Keys -/

theorem testBit_sign {n : ℕ} (h : n < 65536) : n.testBit 15 = decide (32768 ≤ n) := by
  rw [Nat.testBit_eq_decide_div_mod_eq]
  congr 1
  apply propext
  constructor <;> intro h' <;> omega

theorem and_sign {n : ℕ} (h : n < 65536) : n &&& 32768 = if 32768 ≤ n then 32768 else 0 := by
  have hbit := testBit_sign h
  apply Nat.eq_of_testBit_eq
  intro i
  rw [Nat.testBit_and, show (32768 : ℕ) = 2 ^ 15 from rfl, Nat.testBit_two_pow]
  by_cases hneg : 2 ^ 15 ≤ n
  · rw [if_pos hneg, Nat.testBit_two_pow]
    by_cases hi : 15 = i
    · subst hi
      rw [hbit]
      simpa using hneg
    · simp [hi]
  · rw [if_neg hneg, Nat.zero_testBit]
    by_cases hi : 15 = i
    · subst hi
      rw [hbit]
      simpa using hneg
    · simp [hi]

theorem xor_sign {n : ℕ} (h : n < 32768) : n ^^^ 32768 = n + 32768 := by
  have hor : n + 32768 = 2 ^ 15 * 1 ||| n := by
    rw [← Nat.two_pow_add_eq_or_of_lt h]
    omega
  rw [hor]
  apply Nat.eq_of_testBit_eq
  intro i
  rw [Nat.testBit_xor, Nat.testBit_or, Nat.mul_one, show (32768 : ℕ) = 2 ^ 15 from rfl,
    Nat.testBit_two_pow]
  by_cases hi : 15 = i
  · subst hi
    rw [Nat.testBit_lt_two_pow h]
    simp
  · simp [hi]

theorem orderedBits_toNat (value : BitVec 16) : (orderedBits value).toNat = place value := by
  have hlt := value.isLt
  have hwide : (value.setWidth 32).toNat = value.toNat := by
    rw [BitVec.toNat_setWidth, Nat.mod_eq_of_lt (by omega)]
  have hsign :
      (value.setWidth 32 &&& 0x8000#32).toNat = if 32768 ≤ value.toNat then 32768 else 0 := by
    rw [BitVec.toNat_and, hwide]
    exact and_sign hlt
  unfold orderedBits place
  simp only
  by_cases hneg : Negative value
  · rw [if_pos (show 32768 ≤ value.toNat from hneg)] at hsign
    have hne : value.setWidth 32 &&& 0x8000#32 ≠ 0#32 := by
      intro hzero
      rw [hzero] at hsign
      exact absurd hsign (by decide)
    rw [if_pos hne, if_pos hneg, BitVec.toNat_and, BitVec.toNat_not, hwide]
    have hmask := Nat.and_two_pow_sub_one_eq_mod (2 ^ 32 - 1 - value.toNat) 16
    exact hmask.trans (by omega)
  · rw [if_neg (show ¬ 32768 ≤ value.toNat from hneg)] at hsign
    have hzero : value.setWidth 32 &&& 0x8000#32 = 0#32 := BitVec.eq_of_toNat_eq hsign
    rw [if_neg (not_not.mpr hzero), if_neg hneg, BitVec.toNat_xor, hwide]
    exact xor_sign (not_le.mp hneg)

theorem place_lt (value : BitVec 16) : place value < 65536 := by
  have hlt := value.isLt
  unfold place
  by_cases hneg : Negative value
  · rw [if_pos hneg]
    omega
  · rw [if_neg hneg]
    unfold Negative at hneg
    omega

theorem laneKey_toNat (value : BitVec 16) {localId : ℕ} (h : localId < 65536) :
    (laneKey value localId).toNat = place value * 65536 + localId := by
  have hplace := place_lt value
  rw [laneKey, BitVec.toNat_or, BitVec.toNat_shiftLeft, orderedBits_toNat, BitVec.toNat_ofNat,
    Nat.shiftLeft_eq, Nat.mod_eq_of_lt (by omega), Nat.mod_eq_of_lt (by omega), Nat.mul_comm,
    ← Nat.two_pow_add_eq_or_of_lt h, Nat.mul_comm]

theorem localIdOf_laneKey (value : BitVec 16) {localId : ℕ} (h : localId < 65536) :
    localIdOf (laneKey value localId) = localId := by
  have hmask := Nat.and_two_pow_sub_one_eq_mod (laneKey value localId).toNat 16
  rw [localIdOf, BitVec.toNat_and]
  refine hmask.trans ?_
  rw [laneKey_toNat value h]
  omega

/-- Keys are ordered by place first. -/
theorem place_le_of_laneKey_le {v w : BitVec 16} {i j : ℕ} (hi : i < 65536) (hj : j < 65536)
    (h : (laneKey v i).toNat ≤ (laneKey w j).toNat) : place v ≤ place w := by
  rw [laneKey_toNat v hi, laneKey_toNat w hj] at h
  omega

theorem laneKey_lt_of_place_lt {v w : BitVec 16} {i j : ℕ} (hi : i < 65536) (hj : j < 65536)
    (h : place v < place w) : (laneKey v i).toNat < (laneKey w j).toNat := by
  rw [laneKey_toNat v hi, laneKey_toNat w hj]
  omega

/-! ## One selection over lanes -/

section Lanes

variable {topk : ℕ → List (BitVec 32) → List (BitVec 32)} (htopk : Selects topk)
  {lanes k : ℕ} (hlanes : lanes ≤ 65536) (hk : k ≤ lanes) (v : ℕ → BitVec 16)
include htopk hlanes hk

/-- The lanes one `tl.topk` selects: `k` different ones, no other lane above them, and fewer
than `k` lanes above any of them. -/
theorem selected_lanes :
    ∃ selected : List ℕ,
      (topk k ((List.range lanes).map fun i => laneKey (v i) i)).map localIdOf = selected ∧
      selected.length = k ∧ selected.Nodup ∧ (∀ i ∈ selected, i < lanes) ∧
      (∀ j < lanes, j ∉ selected → ∀ i ∈ selected, place (v j) ≤ place (v i)) ∧
      ∀ i ∈ selected, (List.range lanes).countP (fun j => place (v i) < place (v j)) < k := by
  set keys := (List.range lanes).map fun i => laneKey (v i) i with hkeys
  have hlength : k ≤ keys.length := by rwa [hkeys, List.length_map, List.length_range]
  have htop := htopk k keys hlength
  obtain ⟨rest, hperm, hle⟩ := perm_rest htop
  have hkey : ∀ key ∈ keys, ∃ i < lanes, key = laneKey (v i) i := by
    intro key hmem
    obtain ⟨i, hi, rfl⟩ := List.mem_map.mp hmem
    exact ⟨i, List.mem_range.mp hi, rfl⟩
  have hselected : ∀ key ∈ topk k keys, ∃ i < lanes, key = laneKey (v i) i := fun key hmem =>
    hkey key (hperm.mem_iff.mp (List.mem_append_left _ hmem))
  have hinj : ∀ a ∈ keys, ∀ b ∈ keys, localIdOf a = localIdOf b → a = b := by
    intro a ha b hb heq
    obtain ⟨i, hi, rfl⟩ := hkey a ha
    obtain ⟨j, hj, rfl⟩ := hkey b hb
    rw [localIdOf_laneKey _ (by omega), localIdOf_laneKey _ (by omega)] at heq
    rw [heq]
  have hnodup : (topk k keys).Nodup := by
    have hkeysNodup : keys.Nodup := by
      rw [hkeys]
      refine List.Nodup.map_on ?_ List.nodup_range
      intro i hi j hj heq
      have := congrArg localIdOf heq
      rwa [localIdOf_laneKey _ (by have := List.mem_range.mp hi; omega),
        localIdOf_laneKey _ (by have := List.mem_range.mp hj; omega)] at this
    exact (List.nodup_append.mp (hperm.nodup_iff.mpr hkeysNodup)).1
  refine ⟨_, rfl, ?_, ?_, ?_, ?_, ?_⟩
  · rw [List.length_map, htop.length_eq, length_largest hlength]
  · refine List.Nodup.map_on ?_ hnodup
    intro a ha b hb heq
    exact hinj a (hperm.mem_iff.mp (List.mem_append_left _ ha)) b
      (hperm.mem_iff.mp (List.mem_append_left _ hb)) heq
  · intro i hi
    obtain ⟨key, hmem, rfl⟩ := List.mem_map.mp hi
    obtain ⟨i, hi, rfl⟩ := hselected key hmem
    rwa [localIdOf_laneKey _ (by omega)]
  · intro j hj hnot i hi
    obtain ⟨key, hmem, rfl⟩ := List.mem_map.mp hi
    obtain ⟨i, hi, rfl⟩ := hselected key hmem
    have hjKey : laneKey (v j) j ∈ keys :=
      List.mem_map.mpr ⟨j, List.mem_range.mpr hj, rfl⟩
    rw [localIdOf_laneKey _ (by omega)]
    rcases List.mem_append.mp (hperm.mem_iff.mpr hjKey) with htopKey | hrest
    · refine absurd (List.mem_map.mpr ⟨_, htopKey, ?_⟩) hnot
      exact localIdOf_laneKey _ (by omega)
    · exact place_le_of_laneKey_le (by omega) (by omega) (hle _ hmem _ hrest)
  · intro i hi
    obtain ⟨key, hmem, rfl⟩ := List.mem_map.mp hi
    obtain ⟨i, hi, rfl⟩ := hselected key hmem
    rw [localIdOf_laneKey _ (by omega)]
    have habove := countP_above_lt htop hlength hmem
    rw [hkeys, List.countP_map] at habove
    refine lt_of_le_of_lt (List.countP_mono_left fun j hj hlt => ?_) habove
    rw [decide_eq_true_eq] at hlt
    rw [Function.comp_apply, decide_eq_true_eq]
    have := List.mem_range.mp hj
    exact laneKey_lt_of_place_lt (by omega) (by omega) hlt

end Lanes

/-! ## The tile kernel -/

section Row

variable {topk : ℕ → List (BitVec 32) → List (BitVec 32)} (htopk : Selects topk)
  {k : ℕ} (hk : k ≤ tileSize) (logits : List (BitVec 16))
include htopk hk

theorem tileCandidates_spec (t : ℕ) :
    ∃ ids : List ℕ, tileCandidates topk logits k t = ids.map (fun id => (load logits id, id)) ∧
      ids.length = k ∧ ids.Nodup ∧ (∀ id ∈ ids, id / tileSize = t) ∧
      (∀ id, id / tileSize = t → id ∉ ids → ∀ selected ∈ ids,
        place (load logits id) ≤ place (load logits selected)) ∧
      ∀ selected ∈ ids, (List.range tileSize).countP (fun l =>
        place (load logits selected) < place (load logits (t * tileSize + l))) < k := by
  obtain ⟨selected, heq, hlength, hnodup, hlt, hle, hcount⟩ :=
    selected_lanes htopk (show tileSize ≤ 65536 by decide) hk
      fun l => load logits (t * tileSize + l)
  have hdiv : ∀ l < tileSize, (t * tileSize + l) / tileSize = t := by
    intro l hl
    unfold tileSize at hl ⊢
    omega
  refine ⟨selected.map (t * tileSize + ·), ?_, ?_, ?_, ?_, ?_, ?_⟩
  · rw [tileCandidates, ← heq, List.map_map, List.map_map]
    rfl
  · rw [List.length_map, hlength]
  · exact hnodup.map fun a b hab => Nat.add_left_cancel hab
  · intro id hid
    obtain ⟨l, hl, rfl⟩ := List.mem_map.mp hid
    exact hdiv l (hlt l hl)
  · intro id hid hnot other hother
    obtain ⟨l, hl, rfl⟩ := List.mem_map.mp hother
    have hmod : id % tileSize < tileSize := Nat.mod_lt id (by decide)
    have hsplit : t * tileSize + id % tileSize = id := by
      rw [← hid]
      exact Nat.div_add_mod' id tileSize
    have hlane := hle (id % tileSize) hmod (fun hmem =>
      hnot (List.mem_map.mpr ⟨_, hmem, hsplit⟩)) l hl
    rwa [hsplit] at hlane
  · intro other hother
    obtain ⟨l, hl, rfl⟩ := List.mem_map.mp hother
    exact hcount l hl

end Row

/-! ## The merge kernel -/

theorem map_getD_range_length {α : Type*} [Inhabited α] (list : List α) :
    (List.range list.length).map (fun i => list.getD i default) = list := by
  apply List.ext_getElem
  · rw [List.length_map, List.length_range]
  · intro i hi hi'
    rw [List.getElem_map, List.getElem_range, List.getD_eq_getElem?_getD,
      List.getElem?_eq_getElem hi', Option.getD_some]

section Merge

variable {topk : ℕ → List (BitVec 32) → List (BitVec 32)} (htopk : Selects topk)
  (outside : ℕ → ℕ) {mergeSize k : ℕ} (hsize : mergeSize ≤ 65536) {ids : List ℕ}
  (hfit : ids.length ≤ mergeSize)
  (hk : k ≤ mergeSize) {read : ℕ → BitVec 16}
include htopk hsize hfit hk

/-- With `k` real candidates no padding lane is selected. -/
theorem mergeCandidates_spec (hids : ids.Nodup)
    (hreal : k ≤ ids.countP fun id => 127 < place (read id)) :
    let out := mergeCandidates topk outside (ids.map fun id => (read id, id)) mergeSize k
    out.length = k ∧ out.Nodup ∧ (∀ id ∈ out, id ∈ ids ∧ 127 < place (read id)) ∧
      (∀ id ∈ ids, id ∉ out → ∀ selected ∈ out, place (read id) ≤ place (read selected)) ∧
      ∀ selected ∈ out, ids.countP (fun id => place (read selected) < place (read id)) < k := by
  intro out
  set v : ℕ → BitVec 16 := fun i =>
    if i < (ids.map fun id => (read id, id)).length then
      ((ids.map fun id => (read id, id)).getD i default).1 else negInf with hv
  obtain ⟨selected, heq, hlength, hnodup, hlt, hle, hcount⟩ :=
    selected_lanes htopk hsize hk v
  have hvalue : ∀ i (h : i < ids.length), v i = read ids[i] := by
    intro i h
    rw [hv]
    simp only [List.length_map, if_pos h, List.getD_eq_getElem?_getD, List.getElem?_map,
      List.getElem?_eq_getElem h, Option.map_some, Option.getD_some]
  have hpad : ∀ i, ids.length ≤ i → v i = negInf := by
    intro i h
    rw [hv]
    simp only [List.length_map, if_neg (not_lt.mpr h)]
  -- lanes above a bound are at least the candidates above it
  have habove : ∀ bound, ids.countP (fun id => bound < place (read id)) ≤
      (List.range mergeSize).countP fun i => bound < place (v i) := by
    intro bound
    have hprefix : (List.range ids.length).countP (fun i => bound < place (v i)) =
        ids.countP fun id => bound < place (read id) := by
      conv_rhs => rw [← map_getD_range_length ids, List.countP_map]
      apply List.countP_congr
      intro i hi
      have hi := List.mem_range.mp hi
      rw [Function.comp_apply, hvalue i hi, List.getD_eq_getElem?_getD,
        List.getElem?_eq_getElem hi, Option.getD_some]
    rw [← hprefix]
    exact (List.range_sublist.mpr hfit).countP_le
  have hinside : ∀ i ∈ selected, i < ids.length ∧ 127 < place (v i) := by
    intro i hi
    have hreach := hcount i hi
    have hfinite : 127 < place (v i) := by
      by_contra hlow
      have hmono : (List.range mergeSize).countP (fun j => 127 < place (v j)) ≤
          (List.range mergeSize).countP fun j => place (v i) < place (v j) := by
        apply List.countP_mono_left
        intro j _ hj
        rw [decide_eq_true_eq] at hj ⊢
        omega
      have := habove 127
      omega
    refine ⟨?_, hfinite⟩
    by_contra hout
    rw [hpad i (not_lt.mp hout), place_negInf] at hfinite
    omega
  have hout : out = selected.map fun i => ids.getD i default := by
    have hmap : out = (topk k ((List.range mergeSize).map fun i => laneKey (v i) i)).map
        fun key => ((ids.map fun id => (read id, id))[localIdOf key]?).elim
          (outside (localIdOf key)) Prod.snd := rfl
    rw [hmap, ← heq, List.map_map]
    apply List.map_congr_left
    intro key hkey
    have hin := (hinside (localIdOf key) (heq ▸ List.mem_map_of_mem hkey)).1
    simp only [Function.comp_apply, List.getD_eq_getElem?_getD, List.getElem?_map,
      List.getElem?_eq_getElem hin, Option.map_some, Option.getD_some, Option.elim_some]
  have hread : ∀ i (h : i < ids.length), ids.getD i default = ids[i] := by
    intro i h
    rw [List.getD_eq_getElem?_getD, List.getElem?_eq_getElem h, Option.getD_some]
  refine ⟨?_, ?_, ?_, ?_, ?_⟩
  · rw [hout, List.length_map, hlength]
  · rw [hout]
    refine List.Nodup.map_on ?_ hnodup
    intro i hi j hj hij
    have hi := (hinside i hi).1
    have hj := (hinside j hj).1
    rw [hread i hi, hread j hj] at hij
    exact (hids.getElem_inj_iff).mp hij
  · intro id hid
    rw [hout] at hid
    obtain ⟨i, hi, rfl⟩ := List.mem_map.mp hid
    obtain ⟨hin, hplace⟩ := hinside i hi
    rw [hread i hin]
    exact ⟨List.getElem_mem hin, by rwa [hvalue i hin] at hplace⟩
  · intro id hid hnot other hother
    rw [hout] at hnot hother
    obtain ⟨i, hi, rfl⟩ := List.mem_map.mp hother
    obtain ⟨j, hj, rfl⟩ := List.getElem_of_mem hid
    have hin := (hinside i hi).1
    have hlane := hle j (by omega) (fun hmem => hnot (List.mem_map.mpr ⟨j, hmem, hread j hj⟩)) i hi
    rwa [hvalue i hin, hvalue j hj, ← hread i hin] at hlane
  · intro other hother
    rw [hout] at hother
    obtain ⟨i, hi, rfl⟩ := List.mem_map.mp hother
    have hin := (hinside i hi).1
    rw [hread i hin, ← hvalue i hin]
    exact (habove _).trans_lt (hcount i hi)

end Merge

/-! ## Both kernels -/

theorem place_load_of_le {logits : List (BitVec 16)} {id : ℕ} (h : logits.length ≤ id) :
    place (load logits id) = 127 := by
  rw [load, if_neg (not_lt.mpr h), place_negInf]

theorem load_of_lt {logits : List (BitVec 16)} {id : ℕ} (h : id < logits.length) :
    load logits id = logits[id] := by
  rw [load, if_pos h, List.getD_eq_getElem?_getD, List.getElem?_eq_getElem h, Option.getD_some]

section Row

variable {topk : ℕ → List (BitVec 32) → List (BitVec 32)} (htopk : Selects topk)
  (outside : ℕ → ℕ) {k : ℕ} (hpos : 0 < k) (hk : k ≤ tileSize) {logits : List (BitVec 16)}
  (hlength : k ≤ logits.length) (hfinite : ∀ bits ∈ logits, BFloat16.Finite bits)
  {mergeSize : ℕ} (hsize : mergeSize ≤ 65536)
  (hfit : tileCountOf logits.length * k ≤ mergeSize)
include htopk hpos hk hlength hfinite hsize hfit

/-- The selected ids, and that no other logit exceeds theirs. -/
theorem rowIndices_dominate :
    let out := rowIndices topk outside logits (tileCountOf logits.length) mergeSize k
    out.length = k ∧ out.Nodup ∧ (∀ id ∈ out, id < logits.length) ∧
      ∀ id < logits.length, id ∉ out → ∀ selected ∈ out,
        place (load logits id) ≤ place (load logits selected) := by
  intro out
  choose tileIds hcandidates hcount hnodup htile hdominate habove using
    fun t => tileCandidates_spec htopk hk logits t
  have htiles : 0 < tileCountOf logits.length := by
    unfold tileCountOf tileSize
    omega
  set ids := (List.range (tileCountOf logits.length)).flatMap tileIds with hidsDef
  have hout : out =
      mergeCandidates topk outside (ids.map fun id => (load logits id, id)) mergeSize k := by
    rw [hidsDef, List.map_flatMap]
    simp only [← hcandidates]
    rfl
  have hidsLength : ids.length = tileCountOf logits.length * k := by
    rw [hidsDef, List.length_flatMap]
    simp only [hcount, List.map_const', List.length_range, List.sum_replicate, smul_eq_mul]
  have hidsNodup : ids.Nodup := by
    rw [hidsDef, List.nodup_flatMap]
    refine ⟨fun t _ => hnodup t, ?_⟩
    refine List.nodup_range.pairwise_of_forall_ne fun t _ t' _ hne => ?_
    intro id hid hid'
    exact hne ((htile t id hid).symm.trans (htile t' id hid'))
  have htileSublist : ∀ t < tileCountOf logits.length, (tileIds t).Sublist ids := by
    intro t ht
    rw [hidsDef, List.flatMap_def]
    exact List.sublist_flatten_of_mem (List.mem_map_of_mem (List.mem_range.mpr ht))
  have hplace : ∀ id < logits.length, 127 < place (load logits id) := by
    intro id hid
    rw [load_of_lt hid]
    exact lt_place_of_finite (hfinite _ (List.getElem_mem hid))
  have hfirstTile : ∀ id ∈ tileIds 0, 127 < place (load logits id) := by
    intro id hid
    by_contra hlow
    have hfew := habove 0 id hid
    have hmany : (List.range k).countP (fun l =>
        place (load logits id) < place (load logits (0 * tileSize + l))) = k := by
      have hall := List.countP_eq_length (l := List.range k)
        (p := fun l => decide (place (load logits id) < place (load logits (0 * tileSize + l))))
      rw [List.length_range] at hall
      refine hall.mpr fun l hl => ?_
      have hreal := hplace l ((List.mem_range.mp hl).trans_le hlength)
      rw [decide_eq_true_eq, Nat.zero_mul, Nat.zero_add]
      omega
    have hsub := (List.range_sublist.mpr hk).countP_le
      (p := fun l => decide (place (load logits id) < place (load logits (0 * tileSize + l))))
    omega
  have hreal : k ≤ ids.countP fun id => 127 < place (load logits id) := by
    have hall : (tileIds 0).countP (fun id => 127 < place (load logits id)) = k := by
      rw [← hcount 0, List.countP_eq_length]
      exact fun id hid => decide_eq_true (hfirstTile id hid)
    rw [← hall]
    exact (htileSublist 0 htiles).countP_le
  have hkMerge : k ≤ mergeSize := le_trans (Nat.le_mul_of_pos_left k htiles) hfit
  obtain ⟨houtLength, houtNodup, hmem, hbest, hover⟩ :=
    mergeCandidates_spec htopk outside hsize (hidsLength.le.trans hfit) hkMerge hidsNodup hreal
  rw [← hout] at houtLength houtNodup hmem hbest hover
  refine ⟨houtLength, houtNodup, fun id hid => ?_, fun id hid hnot selected hselected => ?_⟩
  · by_contra hbehind
    have := (hmem id hid).2
    rw [place_load_of_le (not_lt.mp hbehind)] at this
    omega
  · by_cases hcandidate : id ∈ ids
    · exact hbest id hcandidate hnot selected hselected
    · -- the tile's own candidates all reach this logit, too many to lie above a selected one
      have ht : id / tileSize < tileCountOf logits.length := by
        unfold tileCountOf tileSize
        omega
      have hmissed : id ∉ tileIds (id / tileSize) := fun h =>
        hcandidate (List.mem_flatMap.mpr ⟨_, List.mem_range.mpr ht, h⟩)
      by_contra hhigher
      have hall : (tileIds (id / tileSize)).countP (fun other =>
          place (load logits selected) < place (load logits other)) = k := by
        rw [← hcount (id / tileSize), List.countP_eq_length]
        intro other hother
        have := hdominate (id / tileSize) id rfl hmissed other hother
        rw [decide_eq_true_eq]
        omega
      have hsub := (htileSublist _ ht).countP_le
        (p := fun other => decide (place (load logits selected) < place (load logits other)))
      have := hover selected hselected
      omega

/-- As a multiset the logits selected are the largest. -/
theorem rowIndices_largest :
    let out := rowIndices topk outside logits (tileCountOf logits.length) mergeSize k
    (out.map fun id => value (logits.getD id 0)).Perm (largest id k (logits.map value)) := by
  intro out
  obtain ⟨hlen, hnodup, hlt, hbest⟩ :=
    rowIndices_dominate htopk outside hpos hk hlength hfinite hsize hfit
  have hsplit : (out ++ (List.range logits.length).filter (· ∉ out)).Perm
      (List.range logits.length) := by
    rw [List.perm_ext_iff_of_nodup]
    · intro id
      rw [List.mem_append, List.mem_filter, decide_eq_true_eq, List.mem_range]
      constructor
      · rintro (hid | hid)
        · exact hlt id hid
        · exact hid.1
      · intro hid
        by_cases hmem : id ∈ out
        · exact .inl hmem
        · exact .inr ⟨hid, hmem⟩
    · rw [List.nodup_append]
      refine ⟨hnodup, List.nodup_range.filter _, ?_⟩
      rintro id hid other hother rfl
      rw [List.mem_filter, decide_eq_true_eq] at hother
      exact hother.2 hid
    · exact List.nodup_range
  have hgetD : ∀ id < logits.length, logits.getD id 0 = load logits id := by
    intro id hid
    rw [load, if_pos hid]
  have hdominates : ∀ selected ∈ out, ∀ id ∈ (List.range logits.length).filter (· ∉ out),
      value (logits.getD id 0) ≤ value (logits.getD selected 0) := by
    intro selected hselected id hid
    rw [List.mem_filter, decide_eq_true_eq, List.mem_range] at hid
    rw [hgetD id hid.1, hgetD selected (hlt selected hselected)]
    exact value_le_of_place_le (hbest id hid.1 hid.2 selected hselected)
  have hperm := map_perm_largest hsplit hdominates
  have hvalues : (List.range logits.length).map (fun id => value (logits.getD id 0)) =
      logits.map value := by
    apply List.ext_getElem
    · rw [List.length_map, List.length_range, List.length_map]
    · intro i hi hi'
      rw [List.length_map] at hi'
      rw [List.getElem_map, List.getElem_range, List.getElem_map, List.getD_eq_getElem?_getD,
        List.getElem?_eq_getElem hi', Option.getD_some]
  rw [hvalues] at hperm
  rwa [hlen] at hperm

end Row

theorem and_pred_of_two_pow (n : ℕ) : 2 ^ n &&& (2 ^ n - 1) = 0 := by
  rw [Nat.and_two_pow_sub_one_eq_mod, Nat.mod_self]

theorem le_nextPowerOf2 (n : ℕ) : n ≤ nextPowerOf2 n := by
  unfold nextPowerOf2
  split_ifs with h
  · exact h.le
  · exact Nat.le_pow_clog (by decide) n

/-- The keys keep the order of finite values and lie above the padding; every row gets `k`
different ids of the vocabulary, with the `k` largest logits. -/
theorem selectiveTopkIndices_exact (topk : ℕ → List (BitVec 32) → List (BitVec 32))
    (outside : ℕ → ℕ) (logits : List (List (BitVec 16))) (vocabSize k : ℕ) (htopk : Selects topk)
    (hbatch : 1 ≤ logits.length ∧ logits.length ≤ maxBatch)
    (hrows : ∀ row ∈ logits, row.length = vocabSize ∧ ∀ bits ∈ row, BFloat16.Finite bits)
    (hpower : ∃ n, k = 2 ^ n) (hk : k ≤ tileSize) (hvocab : k ≤ vocabSize)
    (hsize : nextPowerOf2 (tileCountOf vocabSize * k) ≤ 65536) :
    (∀ a b, BFloat16.Finite a → BFloat16.Finite b → value a < value b →
        orderedBits a < orderedBits b) ∧
      (∀ a, BFloat16.Finite a → orderedBits negInf < orderedBits a) ∧
      ∃ out, selectiveTopkIndices topk outside logits vocabSize k = .ok out ∧
        List.Forall₂ (fun row ids => ids.length = k ∧ ids.Nodup ∧ (∀ id ∈ ids, id < vocabSize) ∧
          (ids.map fun id => value (row.getD id 0)).Perm (largest id k (row.map value)))
          logits out := by
  have hpos : 0 < k := by
    obtain ⟨n, rfl⟩ := hpower
    exact Nat.two_pow_pos n
  have hmask : k &&& (k - 1) = 0 := by
    obtain ⟨n, rfl⟩ := hpower
    exact and_pred_of_two_pow n
  have hfit := le_nextPowerOf2 (tileCountOf vocabSize * k)
  refine ⟨fun a b _ _ hlt => ?_, fun a ha => ?_, logits.map fun row =>
    rowIndices topk outside row (tileCountOf vocabSize) (nextPowerOf2 (tileCountOf vocabSize * k))
    k, ?_, ?_⟩
  · rw [BitVec.lt_def, orderedBits_toNat, orderedBits_toNat]
    exact place_lt_of_value_lt hlt
  · rw [BitVec.lt_def, orderedBits_toNat, orderedBits_toNat, place_negInf]
    exact lt_place_of_finite ha
  · simp only [selectiveTopkIndices, ensure, if_pos hbatch,
      if_pos (show 0 < k ∧ k ≤ tileSize ∧ k &&& (k - 1) = 0 from ⟨hpos, hk, hmask⟩),
      if_pos hsize, bind, Except.bind, pure, Except.pure]
  · rw [List.forall₂_map_right_iff, List.forall₂_same]
    intro row hrow
    obtain ⟨hlength, hfinite⟩ := hrows row hrow
    subst hlength
    obtain ⟨hlen, hnodup, hlt, -⟩ :=
      rowIndices_dominate htopk outside hpos hk hvocab hfinite hsize hfit
    exact ⟨hlen, hnodup, hlt, rowIndices_largest htopk outside hpos hk hvocab hfinite hsize hfit⟩

/-- Two of three logits, with `tl.topk` as a sort. -/
theorem selectiveTopkIndices_exact_three :
    ∃ out, selectiveTopkIndices (largest BitVec.toNat) (fun _ => 3)
        [[0x3F80#16, 0xBF80#16, 0x4000#16]] 3 2 =
      .ok out := by
  have hselects : Selects (largest BitVec.toNat) := fun _ _ _ => List.Perm.refl _
  have hrows : ∀ row ∈ [[0x3F80#16, 0xBF80#16, 0x4000#16]],
      row.length = 3 ∧ ∀ bits ∈ row, BFloat16.Finite bits := by
    intro row hrow
    obtain rfl := List.mem_singleton.mp hrow
    exact ⟨rfl, by simp [BFloat16.Finite]⟩
  have hlog : Nat.clog 2 (tileCountOf 3 * 2) ≤ 1 := Nat.clog_le_of_le_pow (by decide)
  have hsize : nextPowerOf2 (tileCountOf 3 * 2) ≤ 65536 := by
    rw [nextPowerOf2, if_neg (by decide)]
    have hpow := Nat.pow_le_pow_right (show 0 < 2 by decide) hlog
    omega
  obtain ⟨-, -, out, hout, -⟩ := selectiveTopkIndices_exact (largest BitVec.toNat) (fun _ => 3)
    [[0x3F80#16, 0xBF80#16, 0x4000#16]] 3 2 hselects (by decide) hrows ⟨1, rfl⟩ (by decide)
    (by decide) hsize
  exact ⟨out, hout⟩

end SelectiveTopk

end PrismInfer
