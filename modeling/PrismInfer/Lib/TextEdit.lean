import Mathlib.Data.List.Infix
import Mathlib.Tactic

/-!
# Editing a text in place

Occurrences of one list in another, counted without overlap or replaced where they occur
first, and two lists told apart by their common prefix and common suffix.
-/
namespace TextEdit

variable {α : Type*} [DecidableEq α]

/-! ## Occurrences -/

def OccursAt (sub text : List α) (i : ℕ) : Prop :=
  sub <+: text.drop i

instance (sub text : List α) (i : ℕ) : Decidable (OccursAt sub text i) :=
  inferInstanceAs (Decidable (_ <+: _))

/-- The first position at which `sub` occurs. -/
def find (sub : List α) : List α → Option ℕ
  | [] => if sub = [] then some 0 else none
  | c :: text => if sub <+: c :: text then some 0 else (find sub text).map (· + 1)

/-- Occurrences without overlap, from the left; `skip` symbols belong to the last one. -/
def countFrom (sub : List α) : ℕ → List α → ℕ
  | _, [] => 0
  | skip + 1, _ :: text => countFrom sub skip text
  | 0, c :: text =>
    if sub <+: c :: text then countFrom sub (sub.length - 1) text + 1 else countFrom sub 0 text

/-- The empty list occurs before every symbol and at the end. -/
def count (sub text : List α) : ℕ :=
  if sub = [] then text.length + 1 else countFrom sub 0 text

/-- Replace the first occurrence. -/
def replaceFirst (old new text : List α) : List α :=
  match find old text with
  | none => text
  | some i => text.take i ++ new ++ text.drop (i + old.length)

omit [DecidableEq α] in
theorem OccursAt.append (left sub right : List α) :
    OccursAt sub (left ++ sub ++ right) left.length := by
  unfold OccursAt
  rw [List.append_assoc, List.drop_left]
  exact List.prefix_append sub right

theorem find_le {sub text : List α} {j : ℕ} (hj : j ≤ text.length) (h : OccursAt sub text j) :
    ∃ i ≤ j, find sub text = some i ∧ OccursAt sub text i := by
  induction text generalizing j with
  | nil =>
    obtain rfl : j = 0 := Nat.le_zero.mp hj
    obtain rfl := List.prefix_nil.mp h
    exact ⟨0, le_rfl, rfl, h⟩
  | cons c text ih =>
    by_cases hnow : sub <+: c :: text
    · exact ⟨0, Nat.zero_le j, by rw [find, if_pos hnow], hnow⟩
    · cases j with
      | zero => exact absurd h hnow
      | succ j =>
        obtain ⟨i, hi, hfind, hoccurs⟩ := ih (Nat.le_of_succ_le_succ hj) h
        refine ⟨i + 1, Nat.succ_le_succ hi, ?_, hoccurs⟩
        rw [find, if_neg hnow, hfind, Option.map_some]

/-- Where a text holds `old` nowhere before `left`, the first occurrence is the one after
`left`. -/
theorem replaceFirst_append {left old right : List α}
    (h : ∀ i < left.length, ¬ OccursAt old (left ++ old ++ right) i) (new : List α) :
    replaceFirst old new (left ++ old ++ right) = left ++ new ++ right := by
  have hle : left.length ≤ (left ++ old ++ right).length := by simp
  obtain ⟨i, hi, hfind, hoccurs⟩ := find_le hle (OccursAt.append left old right)
  have hleft : i = left.length := by
    by_contra hne
    exact h i (by omega) hoccurs
  subst hleft
  unfold replaceFirst
  rw [hfind]
  simp [List.append_assoc]

/-! ## Common ends -/

def commonPrefix : List α → List α → ℕ
  | a :: as, b :: bs => if a = b then commonPrefix as bs + 1 else 0
  | _, _ => 0

/-- The symbols two lists share at their ends, `limit` at most. -/
def commonSuffix (limit : ℕ) (old new : List α) : ℕ :=
  commonPrefix (old.reverse.take limit) (new.reverse.take limit)

theorem commonPrefix_append (left old new : List α) :
    commonPrefix (left ++ old) (left ++ new) = left.length + commonPrefix old new := by
  induction left with
  | nil => simp
  | cons a left ih =>
    rw [List.cons_append, List.cons_append, commonPrefix, if_pos rfl, ih, List.length_cons]
    omega

theorem commonPrefix_le (old new : List α) :
    commonPrefix old new ≤ old.length ∧ commonPrefix old new ≤ new.length := by
  induction old generalizing new with
  | nil => simp [commonPrefix]
  | cons a old ih =>
    cases new with
    | nil => simp [commonPrefix]
    | cons b new =>
      have := ih new
      unfold commonPrefix
      split
      · simp only [List.length_cons]
        omega
      · simp

theorem take_commonPrefix (old new : List α) :
    old.take (commonPrefix old new) = new.take (commonPrefix old new) := by
  induction old generalizing new with
  | nil => simp [commonPrefix]
  | cons a old ih =>
    cases new with
    | nil => simp [commonPrefix]
    | cons b new =>
      unfold commonPrefix
      split
      · next hab => rw [List.take_succ_cons, List.take_succ_cons, hab, ih new]
      · simp

theorem commonSuffix_le (limit : ℕ) (old new : List α) : commonSuffix limit old new ≤ limit := by
  have h := (commonPrefix_le (old.reverse.take limit) (new.reverse.take limit)).1
  exact h.trans (List.length_take_le limit _)

theorem drop_commonSuffix (limit : ℕ) (old new : List α) :
    old.drop (old.length - commonSuffix limit old new) =
      new.drop (new.length - commonSuffix limit old new) := by
  have hle := commonSuffix_le limit old new
  have htake := take_commonPrefix (old.reverse.take limit) (new.reverse.take limit)
  rw [List.take_take, List.take_take] at htake
  change old.reverse.take (min (commonSuffix limit old new) limit) = _ at htake
  change _ = new.reverse.take (min (commonSuffix limit old new) limit) at htake
  rw [min_eq_left hle, List.take_reverse, List.take_reverse] at htake
  exact List.reverse_injective htake

omit [DecidableEq α] in
/-- The middle of `new` between the common ends, put between the ends of `old`, is `new`. -/
theorem splice {prefixLength suffixLength : ℕ} {old new : List α}
    (hfront : old.take prefixLength = new.take prefixLength)
    (hsuffix : old.drop (old.length - suffixLength) = new.drop (new.length - suffixLength))
    (h : prefixLength + suffixLength ≤ new.length) :
    old.take prefixLength ++ (new.take (new.length - suffixLength)).drop prefixLength ++
      old.drop (old.length - suffixLength) = new := by
  have hmiddle : new.take prefixLength ++
      (new.take (new.length - suffixLength)).drop prefixLength =
        new.take (new.length - suffixLength) := by
    have htake : new.take prefixLength =
        (new.take (new.length - suffixLength)).take prefixLength := by
      rw [List.take_take, min_eq_left (by omega)]
    rw [htake, List.take_append_drop]
  rw [hfront, hsuffix, hmiddle, List.take_append_drop]

end TextEdit
