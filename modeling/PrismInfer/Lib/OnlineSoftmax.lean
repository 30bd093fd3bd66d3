import Mathlib.Analysis.SpecialFunctions.Exp
import Mathlib.Algebra.BigOperators.Field

/-!
# Online softmax

Softmax-weighted sums over a finite set of rows, computed from a state that absorbs the rows
tile by tile and is rescaled whenever its reference score moves. The reference score of an
empty state is `⊥`. Nothing here needs it to be the maximum; any real reference is exact.
-/
namespace OnlineSoftmax

open scoped BigOperators

variable {ι κ : Type*}

/-- The softmax-weighted sum of the values of some rows. -/
noncomputable def attend (score : ι → ℝ) (value : ι → κ → ℝ) (rows : Finset ι) (c : κ) : ℝ :=
  ∑ i ∈ rows, Real.exp (score i) / (∑ j ∈ rows, Real.exp (score j)) * value i c

/-- Reference score, sum of the weights, and weighted sum of the values. -/
structure State (κ : Type*) where
  peak : WithBot ℝ
  total : ℝ
  acc : κ → ℝ

def State.empty : State κ := ⟨⊥, 0, fun _ => 0⟩

/-- `exp (a - b)` with `exp ⊥ = 0`; a reference `⊥` has no meaning. -/
noncomputable def expSub : WithBot ℝ → WithBot ℝ → ℝ
  | (a : ℝ), (b : ℝ) => Real.exp (a - b)
  | _, _ => 0

@[simp] theorem expSub_coe (a b : ℝ) : expSub a b = Real.exp (a - b) := rfl

@[simp] theorem expSub_bot (b : WithBot ℝ) : expSub ⊥ b = 0 := by cases b <;> rfl

/-- The division at the end, guarded against the empty state. -/
noncomputable def State.output (st : State κ) (c : κ) : ℝ :=
  if 0 < st.total then st.acc c / st.total else 0

/-- The state stands for these rows: its sums are scaled by the reference score. -/
structure Represents (score : ι → ℝ) (value : ι → κ → ℝ) (rows : Finset ι) (st : State κ) :
    Prop where
  peak_bot : st.peak = ⊥ ↔ rows = ∅
  total : st.total = Real.exp (-st.peak.unbotD 0) * ∑ i ∈ rows, Real.exp (score i)
  acc : ∀ c, st.acc c =
    Real.exp (-st.peak.unbotD 0) * ∑ i ∈ rows, Real.exp (score i) * value i c

theorem attend_congr {score score' : ι → ℝ} {value value' : ι → κ → ℝ} {rows : Finset ι} {c : κ}
    (hscore : ∀ i ∈ rows, score i = score' i) (hvalue : ∀ i ∈ rows, value i c = value' i c) :
    attend score value rows c = attend score' value' rows c := by
  have htotal : ∑ j ∈ rows, Real.exp (score j) = ∑ j ∈ rows, Real.exp (score' j) :=
    Finset.sum_congr rfl fun j hj => by rw [hscore j hj]
  rw [attend, attend, htotal]
  exact Finset.sum_congr rfl fun i hi => by rw [hscore i hi, hvalue i hi]

section Spec

variable {score : ι → ℝ} {value : ι → κ → ℝ} {rows tile : Finset ι} {st : State κ}

theorem represents_empty : Represents score value ∅ (State.empty : State κ) :=
  ⟨by simp [State.empty], by simp [State.empty], by simp [State.empty]⟩

theorem sum_exp_pos (h : rows.Nonempty) : 0 < ∑ i ∈ rows, Real.exp (score i) :=
  Finset.sum_pos (fun i _ => Real.exp_pos (score i)) h

theorem Represents.total_pos (h : Represents score value rows st) :
    0 < st.total ↔ rows.Nonempty := by
  rw [h.total]
  constructor
  · intro hpos
    by_contra hempty
    rw [Finset.not_nonempty_iff_eq_empty.mp hempty] at hpos
    simp at hpos
  · exact fun hne => mul_pos (Real.exp_pos _) (sum_exp_pos hne)

/-- Rescaling moves the sums to another reference. -/
theorem Represents.total_rescale (h : Represents score value rows st) (μ : ℝ) :
    st.total * expSub st.peak μ = Real.exp (-μ) * ∑ i ∈ rows, Real.exp (score i) := by
  rw [h.total]
  cases hpeak : st.peak with
  | bot =>
    rw [h.peak_bot.mp hpeak]
    simp
  | coe p =>
    have hexp : Real.exp (-p) * Real.exp (p - μ) = Real.exp (-μ) := by
      rw [← Real.exp_add]
      ring_nf
    rw [expSub_coe, WithBot.unbotD_coe, mul_right_comm, hexp]

theorem Represents.acc_rescale (h : Represents score value rows st) (μ : ℝ) (c : κ) :
    st.acc c * expSub st.peak μ =
      Real.exp (-μ) * ∑ i ∈ rows, Real.exp (score i) * value i c := by
  rw [h.acc]
  cases hpeak : st.peak with
  | bot =>
    rw [h.peak_bot.mp hpeak]
    simp
  | coe p =>
    have hexp : Real.exp (-p) * Real.exp (p - μ) = Real.exp (-μ) := by
      rw [← Real.exp_add]
      ring_nf
    rw [expSub_coe, WithBot.unbotD_coe, mul_right_comm, hexp]

variable (score) in
theorem sum_exp_sub (rows : Finset ι) (μ : ℝ) (f : ι → ℝ) :
    ∑ i ∈ rows, Real.exp (score i - μ) * f i =
      Real.exp (-μ) * ∑ i ∈ rows, Real.exp (score i) * f i := by
  rw [Finset.mul_sum]
  refine Finset.sum_congr rfl fun i _ => ?_
  rw [← mul_assoc, ← Real.exp_add]
  ring_nf

/-- Absorbing a tile of further rows under a new reference, which is `⊥` only as long as
there are no rows. -/
theorem Represents.absorb [DecidableEq ι] (h : Represents score value rows st)
    (hdisjoint : Disjoint rows tile) {next : State κ}
    (hpeak : next.peak = ⊥ ↔ rows ∪ tile = ∅)
    (htotal : next.total = st.total * expSub st.peak (next.peak.unbotD 0 : ℝ) +
      ∑ i ∈ tile, Real.exp (score i - next.peak.unbotD 0))
    (hacc : ∀ c, next.acc c = st.acc c * expSub st.peak (next.peak.unbotD 0 : ℝ) +
      ∑ i ∈ tile, Real.exp (score i - next.peak.unbotD 0) * value i c) :
    Represents score value (rows ∪ tile) next := by
  refine ⟨hpeak, ?_, fun c => ?_⟩
  · have hone := sum_exp_sub score tile (next.peak.unbotD 0) fun _ => 1
    simp only [mul_one] at hone
    rw [htotal, h.total_rescale, hone, Finset.sum_union hdisjoint, mul_add]
  · rw [hacc, h.acc_rescale, sum_exp_sub score, Finset.sum_union hdisjoint, mul_add]

/-- The output of a state is the softmax-weighted sum of its rows. -/
theorem Represents.output (h : Represents score value rows st) (c : κ) :
    st.output c = attend score value rows c := by
  rw [State.output, attend]
  by_cases hne : rows.Nonempty
  · rw [if_pos (h.total_pos.mpr hne), h.acc, h.total,
      mul_div_mul_left _ _ (Real.exp_pos _).ne', Finset.sum_div]
    exact Finset.sum_congr rfl fun i _ => by ring
  · rw [if_neg (h.total_pos.not.mpr hne), Finset.not_nonempty_iff_eq_empty.mp hne]
    simp

/-- Adding up states of disjoint row sets under one reference. -/
theorem merge_represents [DecidableEq ι] {parts : Finset ℕ} {rowsOf : ℕ → Finset ι}
    {stateOf : ℕ → State κ}
    (h : ∀ s ∈ parts, Represents score value (rowsOf s) (stateOf s))
    (hdisjoint : (parts : Set ℕ).PairwiseDisjoint rowsOf) {merged : State κ}
    (hpeak : merged.peak = ⊥ ↔ parts.biUnion rowsOf = ∅)
    (htotal : merged.total =
      ∑ s ∈ parts, (stateOf s).total * expSub (stateOf s).peak (merged.peak.unbotD 0 : ℝ))
    (hacc : ∀ c, merged.acc c =
      ∑ s ∈ parts, (stateOf s).acc c * expSub (stateOf s).peak (merged.peak.unbotD 0 : ℝ)) :
    Represents score value (parts.biUnion rowsOf) merged := by
  refine ⟨hpeak, ?_, fun c => ?_⟩
  · rw [htotal, Finset.sum_biUnion hdisjoint, Finset.mul_sum]
    exact Finset.sum_congr rfl fun s hs => (h s hs).total_rescale _
  · rw [hacc, Finset.sum_biUnion hdisjoint, Finset.mul_sum]
    exact Finset.sum_congr rfl fun s hs => (h s hs).acc_rescale _ c

end Spec

end OnlineSoftmax
