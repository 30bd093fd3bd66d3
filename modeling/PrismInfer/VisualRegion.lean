import PrismInfer.ImageSpans
import PrismInfer.SchedulerPolicy

/-!
# The visual region of a prompt and the chunks of its prefill

From the first to the last placeholder the prompt is one region, which a chunk takes whole
or not at all. A chunk never passes the end of the prompt, and an admitted request gets one
from every budget that a full chunk fits in.
-/
namespace PrismInfer
open StateExcept Spans

namespace Request

variable {req : Request}

/-- The image spans, none where the prompt has no usable ones. -/
def imageSpans (req : Request) : List (ℕ × ℕ) := req.imageTokenSpans.getD []

theorem mem_visualPositions {position : ℕ} :
    position ∈ req.visualPositions ↔
      ∃ id ∈ req.visualTokenIds, req.promptTokenIds[position]? = some id := by
  unfold visualPositions numPromptTokens
  rw [List.mem_filter, List.mem_range, decide_eq_true_eq]
  constructor
  · rintro ⟨hlt, hmem⟩
    rw [List.getD_eq_getElem?_getD, List.getElem?_eq_getElem hlt] at hmem
    exact ⟨_, hmem, List.getElem?_eq_getElem hlt⟩
  · rintro ⟨id, hid, hget⟩
    rw [List.getD_eq_getElem?_getD, hget]
    exact ⟨(List.getElem?_eq_some_iff.mp hget).1, hid⟩

theorem visualPositions_pairwise : req.visualPositions.Pairwise (· < ·) :=
  List.Pairwise.filter _ List.pairwise_lt_range

theorem visualPositions_bounds {first last position : ℕ}
    (hfirst : req.visualPositions.head? = some first)
    (hlast : req.visualPositions.getLast? = some last)
    (hposition : position ∈ req.visualPositions) :
    first ≤ position ∧ position ≤ last := by
  have hsorted := req.visualPositions_pairwise
  constructor
  · obtain ⟨rest, hrest⟩ := List.head?_eq_some_iff.mp hfirst
    rw [hrest] at hposition hsorted
    rcases List.mem_cons.mp hposition with rfl | hmem
    · exact le_rfl
    · exact (List.rel_of_pairwise_cons hsorted hmem).le
  · obtain ⟨init, hinit⟩ := List.getLast?_eq_some_iff.mp hlast
    rw [hinit] at hposition hsorted
    rcases List.mem_append.mp hposition with hmem | hmem
    · exact ((List.pairwise_append.mp hsorted).2.2 _ hmem _ (List.mem_singleton_self _)).le
    · exact (List.mem_singleton.mp hmem).le

end Request

namespace SchedulerPolicy

variable {H : Type} {policy : SchedulerPolicy} {req : Request}

theorem visualSpan_spec {region : ℕ × ℕ} (h : visualSpan req = some region) :
    region.1 < region.2 ∧ region.2 ≤ req.numPromptTokens ∧
      ∀ position ∈ req.visualPositions, region.1 ≤ position ∧ position < region.2 := by
  unfold visualSpan at h
  split at h
  · next first last hfirst hlast =>
    obtain rfl := Option.some.inj h
    have hlastMem := List.mem_of_getLast? hlast
    have hbounds : ∀ position ∈ req.visualPositions, first ≤ position ∧ position ≤ last :=
      fun position => Request.visualPositions_bounds hfirst hlast
    obtain ⟨id, -, hget⟩ := Request.mem_visualPositions.mp hlastMem
    have hlt := (List.getElem?_eq_some_iff.mp hget).1
    have := hbounds last hlastMem
    refine ⟨by simp only; omega, by simp only [Request.numPromptTokens]; omega, ?_⟩
    intro position hposition
    have := hbounds position hposition
    simp only
    omega
  · simp at h

theorem visualSpan_isSome {position : ℕ} (h : position ∈ req.visualPositions) :
    ∃ region, visualSpan req = some region := by
  have hne : req.visualPositions ≠ [] := List.ne_nil_of_mem h
  unfold visualSpan
  rw [List.head?_eq_some_head hne, List.getLast?_eq_some_getLast hne]
  exact ⟨_, rfl⟩

/-! ## Placeholders of a range -/

theorem exists_getElem?_of_mem_slice {tokens : List ℕ} {id x y : ℕ}
    (h : id ∈ (tokens.take y).drop x) :
    ∃ position, x ≤ position ∧ position < y ∧ tokens[position]? = some id := by
  obtain ⟨i, hi⟩ := List.mem_iff_getElem?.mp h
  rw [List.getElem?_drop, List.getElem?_take] at hi
  split at hi
  · next hlt => exact ⟨x + i, by omega, hlt, hi⟩
  · simp at hi

/-- A range beside the region has none of its placeholders. -/
theorem count_beside {region : ℕ × ℕ} (hregion : visualSpan req = some region) {id x y : ℕ}
    (hid : id ∈ req.visualTokenIds) (hbeside : y ≤ region.1 ∨ region.2 ≤ x) :
    ((req.promptTokenIds.take y).drop x).count id = 0 := by
  apply List.count_eq_zero_of_not_mem
  intro hmem
  obtain ⟨position, hx, hy, hget⟩ := exists_getElem?_of_mem_slice hmem
  have := (visualSpan_spec hregion).2.2 position (Request.mem_visualPositions.mpr ⟨id, hid, hget⟩)
  omega

/-- A range over the region has all of them. -/
theorem count_over {region : ℕ × ℕ} (hregion : visualSpan req = some region) {id x y : ℕ}
    (hid : id ∈ req.visualTokenIds) (hbefore : x ≤ region.1) (hbehind : region.2 ≤ y) :
    ((req.promptTokenIds.take y).drop x).count id = req.promptTokenIds.count id := by
  have hposition : ∀ position, req.promptTokenIds[position]? = some id →
      region.1 ≤ position ∧ position < region.2 := fun position hget =>
    (visualSpan_spec hregion).2.2 position (Request.mem_visualPositions.mpr ⟨id, hid, hget⟩)
  have hprefix : (req.promptTokenIds.take x).count id = 0 := by
    apply List.count_eq_zero_of_not_mem
    intro hmem
    obtain ⟨position, -, hx, hget⟩ :=
      exists_getElem?_of_mem_slice (show id ∈ List.drop 0 _ from hmem)
    have := hposition position hget
    omega
  have hsuffix : (req.promptTokenIds.drop y).count id = 0 := by
    apply List.count_eq_zero_of_not_mem
    intro hmem
    obtain ⟨i, hi⟩ := List.mem_iff_getElem?.mp hmem
    rw [List.getElem?_drop] at hi
    have := hposition _ hi
    omega
  have hspan := (visualSpan_spec hregion).1
  have hjoin := congrArg (List.count id) (List.take_append_drop y req.promptTokenIds)
  have htake := congrArg (List.count id) (List.take_append_drop x (req.promptTokenIds.take y))
  rw [List.take_take, min_eq_left (by omega)] at htake
  rw [List.count_append] at hjoin htake
  omega

/-! ## One chunk -/

theorem stopAtBoundary_spec (seq : Sequence H) {start stop : ℕ} (h : start < stop) :
    start < stopAtBoundary seq start stop ∧ stopAtBoundary seq start stop ≤ stop := by
  unfold stopAtBoundary
  split
  · exact ⟨h, le_rfl⟩
  · split
    · next hboundary => exact ⟨hboundary.2.2.1, hboundary.2.2.2.le⟩
    · exact ⟨h, le_rfl⟩

/-- A chunk that is cut at all stops outside the region. -/
theorem chunkEnd_side {start stop available chunkStop : ℕ} {region : ℕ × ℕ}
    (hregion : region.1 < region.2) (hstart : start ≤ stop)
    (h : policy.chunkEnd start stop available (some region) = some chunkStop) :
    (chunkStop = stop ∨ chunkStop = region.1 ∨ chunkStop = region.2) ∧ start ≤ chunkStop ∧
      (chunkStop ≤ region.1 ∨ region.2 ≤ chunkStop) := by
  obtain ⟨first, last⟩ := region
  simp only [chunkEnd] at h hregion ⊢
  split at h
  · obtain rfl := Option.some.inj h
    omega
  · split at h
    · obtain rfl := Option.some.inj h
      omega
    · split at h
      · split at h
        · simp at h
        · obtain rfl := Option.some.inj h
          omega
      · obtain rfl := Option.some.inj h
        omega

theorem chunkEnd_pos (policy : SchedulerPolicy) {start stop available : ℕ} {region : ℕ × ℕ}
    (hstart : start < stop)
    (hfits : region.2 - region.1 ≤ policy.limits.maxChunkSize)
    (havailable : policy.limits.maxChunkSize ≤ available) :
    ∃ chunkStop, policy.chunkEnd start stop available (some region) = some chunkStop ∧
      start < chunkStop := by
  obtain ⟨first, last⟩ := region
  simp only at hfits
  simp only [chunkEnd]
  split
  · exact ⟨stop, rfl, hstart⟩
  · split
    · next hbefore => exact ⟨first, rfl, hbefore.1⟩
    · split
      · next hinside =>
        rw [if_neg (by omega)]
        exact ⟨last, rfl, hinside.2.1⟩
      · exact ⟨stop, rfl, hstart⟩

/-- No chunk is larger than the chunk size, the region kept whole or not. -/
theorem chunkEnd_le {start stop available chunkStop : ℕ} {region : Option (ℕ × ℕ)}
    (hstop : stop ≤ start + policy.limits.maxChunkSize)
    (h : policy.chunkEnd start stop available region = some chunkStop) :
    chunkStop ≤ start + policy.limits.maxChunkSize := by
  cases region with
  | none =>
    obtain rfl := Option.some.inj h
    exact hstop
  | some region =>
    simp only [chunkEnd] at h
    split at h
    · obtain rfl := Option.some.inj h
      exact hstop
    · split at h
      · obtain rfl := Option.some.inj h
        omega
      · split at h
        · split at h
          · simp at h
          · obtain rfl := Option.some.inj h
            omega
        · obtain rfl := Option.some.inj h
          exact hstop

/-- The tokens a chunk asks for before the region is looked at. -/
def requestedStop (policy : SchedulerPolicy) (seq : Sequence H) (availableTokens : ℕ) : ℕ :=
  stopAtBoundary seq seq.effectivePrefillStart (seq.effectivePrefillStart +
    min (min seq.remainingPrefillTokens policy.limits.maxChunkSize) availableTokens)

theorem requestedStop_spec (policy : SchedulerPolicy) {seq : Sequence H} {available : ℕ}
    (hstart : seq.effectivePrefillStart < seq.numPromptTokens) (havailable : available ≠ 0) :
    seq.effectivePrefillStart < policy.requestedStop seq available ∧
      policy.requestedStop seq available ≤ seq.numPromptTokens := by
  have hchunk := policy.limits.maxChunkSize_pos
  have hremaining : seq.remainingPrefillTokens =
      seq.numPromptTokens - seq.effectivePrefillStart := rfl
  have hboundary := stopAtBoundary_spec seq (show seq.effectivePrefillStart <
    seq.effectivePrefillStart +
      min (min seq.remainingPrefillTokens policy.limits.maxChunkSize) available by omega)
  unfold requestedStop
  omega

variable (hchunked : policy.limits.enableChunkedPrefill = true)
include hchunked

theorem prefillTokenCount_eq {seq : Sequence H} {available : ℕ} (havailable : available ≠ 0) :
    policy.prefillTokenCount seq available =
      ((policy.chunkEnd seq.effectivePrefillStart (policy.requestedStop seq available) available
        (visualSpan seq.request)).map (· - seq.effectivePrefillStart)).getD 0 := by
  unfold prefillTokenCount requestedStop
  rw [if_neg havailable, if_neg (by rw [hchunked]; simp)]
  simp only
  split
  · next hnone => rw [hnone]; rfl
  · next hsome => rw [hsome]; rfl

/-- Where a chunk may stop. -/
theorem prefillTokenCount_spec {seq : Sequence H} (available : ℕ)
    (hstart : seq.effectivePrefillStart ≤ seq.numPromptTokens) :
    seq.effectivePrefillStart + policy.prefillTokenCount seq available ≤ seq.numPromptTokens ∧
      (policy.prefillTokenCount seq available ≠ 0 → ∀ region ∈ visualSpan seq.request,
        seq.effectivePrefillStart + policy.prefillTokenCount seq available ≤ region.1 ∨
          region.2 ≤ seq.effectivePrefillStart + policy.prefillTokenCount seq available) := by
  by_cases havailable : available = 0
  · have hnone : policy.prefillTokenCount seq available = 0 := if_pos havailable
    rw [hnone]
    exact ⟨by omega, fun h => absurd rfl h⟩
  · rw [prefillTokenCount_eq hchunked havailable]
    have hrequested : seq.effectivePrefillStart ≤ policy.requestedStop seq available ∧
        policy.requestedStop seq available ≤ seq.numPromptTokens := by
      rcases hstart.lt_or_eq with hlt | heq
      · have := requestedStop_spec policy hlt havailable
        omega
      · have hremaining : seq.remainingPrefillTokens = 0 := by
          unfold Sequence.remainingPrefillTokens
          omega
        have hsame : policy.requestedStop seq available = seq.effectivePrefillStart := by
          unfold requestedStop stopAtBoundary
          rw [hremaining, Nat.zero_min, Nat.zero_min, Nat.add_zero]
          split
          · rfl
          · rw [if_neg (by omega)]
        omega
    cases hregion : visualSpan seq.request with
    | none =>
      simp only [chunkEnd, Option.map_some, Option.getD_some]
      exact ⟨by omega, fun _ region h => by simp at h⟩
    | some region =>
      obtain ⟨hpos, hle, -⟩ := visualSpan_spec hregion
      have hle : region.2 ≤ seq.numPromptTokens := hle
      cases hend : policy.chunkEnd seq.effectivePrefillStart (policy.requestedStop seq available)
          available (some region) with
      | none =>
        simp only [Option.map_none, Option.getD_none]
        exact ⟨by omega, fun h => absurd rfl h⟩
      | some chunkStop =>
        obtain ⟨hkind, hfrom, hside⟩ := chunkEnd_side hpos hrequested.1 hend
        simp only [Option.map_some, Option.getD_some]
        refine ⟨by omega, ?_⟩
        rintro - region' hmem
        obtain rfl := Option.some.inj hmem
        omega

theorem prefillTokenCount_le (seq : Sequence H) (available : ℕ) :
    policy.prefillTokenCount seq available ≤ policy.limits.maxChunkSize := by
  by_cases havailable : available = 0
  · have hnone : policy.prefillTokenCount seq available = 0 := if_pos havailable
    omega
  · rw [prefillTokenCount_eq hchunked havailable]
    have hrequested : policy.requestedStop seq available ≤
        seq.effectivePrefillStart + policy.limits.maxChunkSize := by
      unfold requestedStop stopAtBoundary
      split
      · omega
      · split
        · next hboundary => omega
        · omega
    cases hend : policy.chunkEnd seq.effectivePrefillStart (policy.requestedStop seq available)
        available (visualSpan seq.request) with
    | none => simp
    | some chunkStop =>
      have := chunkEnd_le hrequested hend
      simp only [Option.map_some, Option.getD_some]
      omega

/-- An admitted request gets a chunk from every budget of a full chunk. -/
theorem prefillTokenCount_pos {seq : Sequence H} {available : ℕ}
    (hstart : seq.effectivePrefillStart < seq.numPromptTokens)
    (hadmitted : ∀ region ∈ visualSpan seq.request,
      region.2 - region.1 ≤ policy.limits.maxChunkSize)
    (havailable : policy.limits.maxChunkSize ≤ available) :
    0 < policy.prefillTokenCount seq available := by
  have hchunk := policy.limits.maxChunkSize_pos
  have hne : available ≠ 0 := by omega
  have hrequested := (requestedStop_spec policy hstart hne).1
  rw [prefillTokenCount_eq hchunked hne]
  cases hregion : visualSpan seq.request with
  | none =>
    simp only [chunkEnd, Option.map_some, Option.getD_some]
    omega
  | some region =>
    obtain ⟨chunkStop, hend, hlt⟩ :=
      chunkEnd_pos policy hrequested (hadmitted region hregion) havailable
    rw [hend]
    simp only [Option.map_some, Option.getD_some]
    omega

end SchedulerPolicy

end PrismInfer
