import Mathlib.Data.List.Basic
import Mathlib.Tactic

/-!
# Masked rows

Boolean masks over a list of rows: the masked rows, their indices, and writing rows to
them, either in order or through a list of indices.
-/
namespace MaskedScatter

variable {α : Type*}

/-- The rows under the mask. -/
def select : List Bool → List α → List α
  | true :: mask, x :: xs => x :: select mask xs
  | false :: mask, _ :: xs => select mask xs
  | _, _ => []

/-- The rows under the mask, replaced in order by the rows of `src`. -/
def maskedScatter : List α → List Bool → List α → List α
  | _ :: dst, true :: mask, s :: src => s :: maskedScatter dst mask src
  | d :: dst, _ :: mask, src => d :: maskedScatter dst mask src
  | dst, _, _ => dst

/-- The indices under the mask. -/
def nonzero : List Bool → List ℕ
  | [] => []
  | true :: mask => 0 :: (nonzero mask).map (· + 1)
  | false :: mask => (nonzero mask).map (· + 1)

/-- `dst[positions] = src`. -/
def indexPut (dst : List α) (positions : List ℕ) (src : List α) : List α :=
  (positions.zip src).foldl (fun dst put => dst.set put.1 put.2) dst

@[simp] theorem maskedScatter_nil (mask : List Bool) (src : List α) :
    maskedScatter [] mask src = [] := by
  cases mask <;> simp [maskedScatter]

@[simp] theorem maskedScatter_false (d : α) (dst : List α) (mask : List Bool) (src : List α) :
    maskedScatter (d :: dst) (false :: mask) src = d :: maskedScatter dst mask src := by
  cases src <;> rfl

@[simp] theorem maskedScatter_true (d s : α) (dst : List α) (mask : List Bool) (src : List α) :
    maskedScatter (d :: dst) (true :: mask) (s :: src) = s :: maskedScatter dst mask src := rfl

@[simp] theorem length_maskedScatter (dst : List α) (mask : List Bool) (src : List α) :
    (maskedScatter dst mask src).length = dst.length := by
  fun_induction maskedScatter dst mask src with
  | case1 _ _ _ _ _ ih => simp [ih]
  | case2 _ _ _ _ _ _ ih => simp [ih]
  | case3 _ _ _ _ _ => rfl

@[simp] theorem length_nonzero (mask : List Bool) : (nonzero mask).length = mask.count true := by
  induction mask with
  | nil => rfl
  | cons b mask ih => cases b <;> simp [nonzero, ih]

theorem indexPut_succ (d : α) (dst : List α) (positions : List ℕ) (src : List α) :
    indexPut (d :: dst) (positions.map (· + 1)) src = d :: indexPut dst positions src := by
  induction positions generalizing dst src with
  | nil => simp [indexPut]
  | cons p positions ih =>
    cases src with
    | nil => simp [indexPut]
    | cons s src => exact ih (dst.set p s) src

/-- Writing through the indices of a mask is writing in order. -/
theorem indexPut_nonzero {dst : List α} {mask : List Bool} {src : List α}
    (hlength : dst.length = mask.length) (hcount : mask.count true = src.length) :
    indexPut dst (nonzero mask) src = maskedScatter dst mask src := by
  induction mask generalizing dst src with
  | nil =>
    obtain rfl := List.length_eq_zero_iff.mp hlength
    rfl
  | cons b mask ih =>
    obtain ⟨d, dst, rfl⟩ := List.exists_cons_of_length_eq_add_one hlength
    have hlength' : dst.length = mask.length := by simpa using hlength
    cases b with
    | false =>
      have hcount' : mask.count true = src.length := by simpa using hcount
      rw [maskedScatter_false, ← ih hlength' hcount']
      exact indexPut_succ d dst (nonzero mask) src
    | true =>
      rw [List.count_cons_self] at hcount
      obtain ⟨s, src, rfl⟩ := List.exists_cons_of_length_eq_add_one hcount.symm
      rw [maskedScatter_true, ← ih hlength' (by simpa using hcount)]
      exact indexPut_succ s dst (nonzero mask) src

section Kinds

variable {β : Type*} (p q : β → Bool)

theorem select_map (xs : List β) : select (xs.map q) (xs.map p) = (xs.filter q).map p := by
  induction xs with
  | nil => rfl
  | cons x xs ih => cases hx : q x <;> simp [select, hx, ih]

theorem count_map_true (xs : List β) : (xs.map p).count true = xs.countP p := by
  induction xs with
  | nil => rfl
  | cons x xs ih => cases hx : p x <;> simp [hx, ih]

/-- Rows of two kinds may be gathered first and written together. -/
theorem maskedScatter_joint (hdisjoint : ∀ x, p x = true → q x = false) {xs : List β}
    {dst joint src src' : List α} (hdst : dst.length = xs.length)
    (hjoint : joint.length = (xs.filter fun x => p x || q x).length)
    (hsrc : xs.countP p = src.length) (hsrc' : xs.countP q = src'.length) :
    maskedScatter dst (xs.map fun x => p x || q x)
        (maskedScatter (maskedScatter joint ((xs.filter fun x => p x || q x).map p) src)
          ((xs.filter fun x => p x || q x).map q) src') =
      maskedScatter (maskedScatter dst (xs.map p) src) (xs.map q) src' := by
  induction xs generalizing dst joint src src' with
  | nil => simp [List.length_eq_zero_iff.mp hdst]
  | cons x xs ih =>
    obtain ⟨d, dst, rfl⟩ := List.exists_cons_of_length_eq_add_one hdst
    have hdst' : dst.length = xs.length := by simpa using hdst
    cases hp : p x with
    | true =>
      have hq := hdisjoint x hp
      rw [List.countP_cons_of_pos hp] at hsrc
      rw [List.countP_cons_of_neg (by simp [hq])] at hsrc'
      obtain ⟨s, src, rfl⟩ := List.exists_cons_of_length_eq_add_one hsrc.symm
      simp only [hp, List.filter_cons, Bool.true_or, if_true, List.length_cons] at hjoint
      obtain ⟨j, joint, rfl⟩ := List.exists_cons_of_length_eq_add_one hjoint
      have hjoint' : joint.length = (xs.filter fun x => p x || q x).length := by simpa using hjoint
      have hrest := ih hdst' hjoint' (by simpa using hsrc) hsrc'
      simp [hp, hq, hrest]
    | false =>
      rw [List.countP_cons_of_neg (by simp [hp])] at hsrc
      cases hq : q x with
      | true =>
        rw [List.countP_cons_of_pos hq] at hsrc'
        obtain ⟨s, src', rfl⟩ := List.exists_cons_of_length_eq_add_one hsrc'.symm
        simp only [hp, hq, List.filter_cons, Bool.or_true, if_true, List.length_cons] at hjoint
        obtain ⟨j, joint, rfl⟩ := List.exists_cons_of_length_eq_add_one hjoint
        have hjoint' : joint.length = (xs.filter fun x => p x || q x).length := by
          simpa using hjoint
        have hrest := ih hdst' hjoint' hsrc (by simpa using hsrc')
        simp [hp, hq, hrest]
      | false =>
        rw [List.countP_cons_of_neg (by simp [hq])] at hsrc'
        simp only [hp, hq, List.filter_cons, Bool.or_false] at hjoint
        have hrest := ih hdst' hjoint hsrc hsrc'
        simp [hp, hq, hrest]

/-- Rows of two kinds that are all rows leave nothing of what was there before. -/
theorem maskedScatter_cover {xs : List β} (hcover : ∀ x ∈ xs, (p x || q x) = true)
    (hdisjoint : ∀ x, p x = true → q x = false) {dst dst' src src' : List α}
    (hdst : dst.length = xs.length) (hdst' : dst'.length = xs.length)
    (hsrc : xs.countP p = src.length) (hsrc' : xs.countP q = src'.length) :
    maskedScatter (maskedScatter dst (xs.map p) src) (xs.map q) src' =
      maskedScatter (maskedScatter dst' (xs.map p) src) (xs.map q) src' := by
  induction xs generalizing dst dst' src src' with
  | nil => rw [List.length_eq_zero_iff.mp hdst, List.length_eq_zero_iff.mp hdst']
  | cons x xs ih =>
    obtain ⟨d, dst, rfl⟩ := List.exists_cons_of_length_eq_add_one hdst
    obtain ⟨d', dst', rfl⟩ := List.exists_cons_of_length_eq_add_one hdst'
    have hcover' : ∀ y ∈ xs, (p y || q y) = true := fun y hy =>
      hcover y (List.mem_cons_of_mem _ hy)
    have hlengths : dst.length = xs.length ∧ dst'.length = xs.length := by
      simpa using And.intro hdst hdst'
    cases hp : p x with
    | true =>
      have hq := hdisjoint x hp
      rw [List.countP_cons_of_pos hp] at hsrc
      rw [List.countP_cons_of_neg (by simp [hq])] at hsrc'
      obtain ⟨s, src, rfl⟩ := List.exists_cons_of_length_eq_add_one hsrc.symm
      have hrest := ih hcover' hlengths.1 hlengths.2 (by simpa using hsrc) hsrc'
      simp [hp, hq, hrest]
    | false =>
      have hq : q x = true := by simpa [hp] using hcover x List.mem_cons_self
      rw [List.countP_cons_of_neg (by simp [hp])] at hsrc
      rw [List.countP_cons_of_pos hq] at hsrc'
      obtain ⟨s, src', rfl⟩ := List.exists_cons_of_length_eq_add_one hsrc'.symm
      have hrest := ih hcover' hlengths.1 hlengths.2 hsrc (by simpa using hsrc')
      simp [hp, hq, hrest]

theorem maskedScatter_all {dst src : List α} {mask : List Bool} (hmask : ∀ b ∈ mask, b = true)
    (hdst : dst.length = mask.length) (hsrc : src.length = mask.length) :
    maskedScatter dst mask src = src := by
  induction mask generalizing dst src with
  | nil => rw [List.length_eq_zero_iff.mp hdst, List.length_eq_zero_iff.mp hsrc]; rfl
  | cons b mask ih =>
    obtain ⟨d, dst, rfl⟩ := List.exists_cons_of_length_eq_add_one hdst
    obtain ⟨s, src, rfl⟩ := List.exists_cons_of_length_eq_add_one hsrc
    obtain rfl := hmask b List.mem_cons_self
    have hrest := ih (fun b hb => hmask b (List.mem_cons_of_mem _ hb)) (by simpa using hdst)
      (by simpa using hsrc)
    rw [maskedScatter_true, hrest]

end Kinds

end MaskedScatter
