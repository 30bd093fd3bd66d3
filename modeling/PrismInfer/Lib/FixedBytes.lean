import Mathlib.Tactic

/-!
# Fixed-width byte fields

Little-endian bytes of a bounded number, and streams of fields of one width. A stream of
such fields needs no delimiters: its length gives the number of fields.
-/
namespace FixedBytes

/-- The `width` low bytes of `n`, least significant first. -/
def bytesLE : ℕ → ℕ → List UInt8
  | 0, _ => []
  | width + 1, n => UInt8.ofNat (n % 256) :: bytesLE width (n / 256)

@[simp] theorem length_bytesLE (width n : ℕ) : (bytesLE width n).length = width := by
  induction width generalizing n with
  | zero => rfl
  | succ width ih => rw [bytesLE, List.length_cons, ih]

theorem bytesLE_injOn {width n m : ℕ} (hn : n < 256 ^ width) (hm : m < 256 ^ width)
    (h : bytesLE width n = bytesLE width m) : n = m := by
  induction width generalizing n m with
  | zero =>
    rw [pow_zero] at hn hm
    omega
  | succ width ih =>
    rw [bytesLE, bytesLE, List.cons.injEq] at h
    obtain ⟨hlow, hhigh⟩ := h
    have hlow' : n % 256 = m % 256 := by
      have := congrArg UInt8.toNat hlow
      simp only [UInt8.toNat_ofNat'] at this
      omega
    rw [pow_succ] at hn hm
    have := ih (Nat.div_lt_of_lt_mul (by omega)) (Nat.div_lt_of_lt_mul (by omega)) hhigh
    omega

variable {α : Type*}

theorem length_flatten_of_width {width : ℕ} {fields : List (List α)}
    (h : ∀ field ∈ fields, field.length = width) :
    fields.flatten.length = width * fields.length := by
  rw [List.length_flatten, List.map_congr_left h, List.map_const', List.sum_replicate,
    smul_eq_mul, Nat.mul_comm]

/-- Streams of fields of one width are equal only field by field. -/
theorem flatten_injOn {width : ℕ} (hwidth : 0 < width) {fields fields' : List (List α)}
    (h : ∀ field ∈ fields, field.length = width) (h' : ∀ field ∈ fields', field.length = width)
    (heq : fields.flatten = fields'.flatten) : fields = fields' := by
  have hlength := congrArg List.length heq
  rw [length_flatten_of_width h, length_flatten_of_width h'] at hlength
  have hcount := Nat.eq_of_mul_eq_mul_left hwidth hlength
  rw [List.eq_iff_flatten_eq]
  refine ⟨heq, ?_⟩
  rw [List.map_congr_left h, List.map_congr_left h', List.map_const', List.map_const', hcount]

end FixedBytes
