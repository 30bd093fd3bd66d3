import Mathlib.Data.List.Basic
import Mathlib.Tactic
import PrismInfer.Lib.StateExcept

/-!
# Tensors by index

A tensor is its shape and a value for every index. Views of one dimension, and copies into
them, fail where the library they stand for raises.
-/

open StateExcept

inductive TensorError
  | dimension (dim ndim : ℕ)
  | narrow (start length size : ℕ)
  | chunk (index : ℕ)
  | shapes (target source : List ℕ)
deriving DecidableEq, Repr

/-- Entries outside of the shape have no meaning. -/
structure Tensor (R : Type) where
  shape : List ℕ
  entry : List ℕ → R

namespace Tensor

variable {R : Type}

/-- `t.size(dim)`. -/
def size (t : Tensor R) (dim : ℕ) : Except TensorError ℕ :=
  match t.shape[dim]? with
  | some n => .ok n
  | none => .error (.dimension dim t.shape.length)

/-- The view without its bounds check. -/
def window (t : Tensor R) (dim start length : ℕ) : Tensor R :=
  ⟨t.shape.set dim length, fun idx => t.entry (idx.modify dim (· + start))⟩

/-- `t.narrow(dim, start, length)`. -/
def narrow (t : Tensor R) (dim start length : ℕ) : Except TensorError (Tensor R) := do
  let n ← t.size dim
  ensure (start + length ≤ n) (.narrow start length n)
  pure (t.window dim start length)

/-- `t.chunk(chunks, dim)[index]`: chunks of equal size, the last one possibly smaller. -/
def chunk (t : Tensor R) (chunks dim index : ℕ) : Except TensorError (Tensor R) := do
  let n ← t.size dim
  let width := (n + chunks - 1) / chunks
  ensure (index < chunks ∧ (index * width < n ∨ n = 0)) (.chunk index)
  t.narrow dim (index * width) (min width (n - index * width))

/-- `target.copy_(source)`. Sources that the library would broadcast are an error here. -/
def copy (target source : Tensor R) : Except TensorError (Tensor R) := do
  ensure (target.shape = source.shape) (.shapes target.shape source.shape)
  pure { target with entry := source.entry }

/-- `target` with the rows `[start, start + length)` of a dimension taken from `source`. -/
def overwrite (target : Tensor R) (dim start length : ℕ) (source : Tensor R) : Tensor R :=
  { target with
    entry := fun idx =>
      if start ≤ idx.getD dim 0 ∧ idx.getD dim 0 < start + length then
        source.entry (idx.modify dim (· - start))
      else target.entry idx }

/-- `target.narrow(dim, start, length).copy_(source)`, which writes through to `target`. -/
def copyNarrow (target : Tensor R) (dim start length : ℕ) (source : Tensor R) :
    Except TensorError (Tensor R) := do
  let view ← target.narrow dim start length
  let _ ← view.copy source
  pure (target.overwrite dim start length source)

section Spec

variable {t : Tensor R} {dim start length n : ℕ}

theorem size_ok : t.size dim = .ok n ↔ t.shape[dim]? = some n := by
  rw [size]
  cases t.shape[dim]? <;> simp

theorem narrow_ok (h : t.shape[dim]? = some n) (hle : start + length ≤ n) :
    t.narrow dim start length = .ok (t.window dim start length) := by
  simp only [narrow, except_bind_ok, size_ok, ensure_ok, except_pure_ok]
  exact ⟨n, h, (), hle, trivial⟩

/-- The chunks of a dimension that splits evenly. -/
theorem chunk_ok {chunks width index : ℕ} (hindex : index < chunks)
    (h : t.shape[dim]? = some (chunks * width)) :
    t.chunk chunks dim index = .ok (t.window dim (index * width) width) := by
  have hpos : 0 < chunks := by omega
  have hwidth : (chunks * width + chunks - 1) / chunks = width := by
    have hsplit : chunks * width + chunks - 1 = chunks * width + (chunks - 1) := by omega
    rw [hsplit, Nat.mul_add_div hpos, Nat.div_eq_of_lt (by omega), Nat.add_zero]
  have hend : index * width + width ≤ chunks * width := by
    calc index * width + width = (index + 1) * width := by ring
      _ ≤ chunks * width := Nat.mul_le_mul_right width hindex
  have hmin : min width (chunks * width - index * width) = width := by omega
  simp only [chunk, except_bind_ok, size_ok, ensure_ok]
  refine ⟨chunks * width, h, (), ⟨hindex, ?_⟩, ?_⟩
  · rcases Nat.eq_zero_or_pos width with rfl | hw
    · exact .inr (Nat.mul_zero chunks)
    · rw [hwidth]
      exact .inl (by omega)
  · rw [hwidth, hmin]
    exact narrow_ok h hend

theorem copyNarrow_ok {source : Tensor R} (h : t.shape[dim]? = some n)
    (hle : start + length ≤ n) (hshape : t.shape.set dim length = source.shape) :
    t.copyNarrow dim start length source = .ok (t.overwrite dim start length source) := by
  simp only [copyNarrow, narrow_ok h hle, copy, except_bind_ok, except_pure_ok, ensure_ok]
  exact ⟨_, rfl, _, ⟨(), hshape, rfl⟩, trivial⟩

theorem overwrite_of_mem (target source : Tensor R) {idx : List ℕ}
    (h : start ≤ idx.getD dim 0 ∧ idx.getD dim 0 < start + length) :
    (target.overwrite dim start length source).entry idx =
      source.entry (idx.modify dim (· - start)) :=
  if_pos h

theorem overwrite_of_notMem (target source : Tensor R) {idx : List ℕ}
    (h : ¬ (start ≤ idx.getD dim 0 ∧ idx.getD dim 0 < start + length)) :
    (target.overwrite dim start length source).entry idx = target.entry idx :=
  if_neg h

end Spec

end Tensor
