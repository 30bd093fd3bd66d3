import Mathlib.Data.List.Sort
import Mathlib.Tactic

/-!
# The items with the largest keys

`largest key k items` is what a selection of `k` items by falling key returns, up to order.
Fewer than `k` items lie above a selected one; conversely items that dominate all others carry
the `k` largest keys.
-/
namespace LargestKeys

variable {α β : Type*} [LinearOrder β]

/-- The first `k` items by falling key. -/
def largest (key : α → β) (k : ℕ) (items : List α) : List α :=
  (items.insertionSort fun a b => key b ≤ key a).take k

instance total_key (key : α → β) : Std.Total fun a b : α => key b ≤ key a where
  total a b := le_total (key b) (key a)

instance trans_key (key : α → β) : IsTrans α fun a b : α => key b ≤ key a where
  trans _ _ _ hab hbc := hbc.trans hab

/-- The items not selected have no larger key. -/
theorem exists_rest (key : α → β) (k : ℕ) (items : List α) :
    ∃ rest, (largest key k items ++ rest).Perm items ∧
      ∀ a ∈ largest key k items, ∀ b ∈ rest, key b ≤ key a := by
  have hsorted := List.pairwise_insertionSort (fun a b : α => key b ≤ key a) items
  rw [← List.take_append_drop k (items.insertionSort fun a b => key b ≤ key a),
    List.pairwise_append] at hsorted
  refine ⟨(items.insertionSort fun a b => key b ≤ key a).drop k, ?_, hsorted.2.2⟩
  rw [largest, List.take_append_drop]
  exact List.perm_insertionSort _ items

theorem length_largest {key : α → β} {k : ℕ} {items : List α} (h : k ≤ items.length) :
    (largest key k items).length = k := by
  rw [largest, List.length_take, List.length_insertionSort, min_eq_left h]

section Selection

variable {key : α → β} {k : ℕ} {items top : List α} (htop : top.Perm (largest key k items))
include htop

/-- Selected and left items. -/
theorem perm_rest : ∃ rest, (top ++ rest).Perm items ∧ ∀ a ∈ top, ∀ b ∈ rest, key b ≤ key a := by
  obtain ⟨rest, hperm, hle⟩ := exists_rest key k items
  exact ⟨rest, (htop.append_right rest).trans hperm,
    fun a ha b hb => hle a (htop.mem_iff.mp ha) b hb⟩

/-- Fewer than `k` items lie above a selected one. -/
theorem countP_above_lt (hk : k ≤ items.length) {a : α} (ha : a ∈ top) :
    items.countP (key a < key ·) < k := by
  obtain ⟨rest, hperm, hle⟩ := perm_rest htop
  have hrest : rest.countP (key a < key ·) = 0 := by
    rw [List.countP_eq_zero]
    intro b hb
    rw [decide_eq_true_eq, not_lt]
    exact hle a ha b hb
  have hselected : top.countP (key a < key ·) < top.length := by
    rw [List.countP_lt_length_iff]
    exact ⟨a, ha, by simp⟩
  rw [← hperm.countP_eq, List.countP_append, hrest, Nat.add_zero]
  rwa [htop.length_eq, length_largest hk] at hselected

end Selection

/-- Items that no other exceeds carry the largest keys. -/
theorem map_perm_largest {key : α → β} {chosen rest items : List α}
    (hperm : (chosen ++ rest).Perm items) (hle : ∀ a ∈ chosen, ∀ b ∈ rest, key b ≤ key a) :
    (chosen.map key).Perm (largest id chosen.length (items.map key)) := by
  have hjoined : ((chosen.map key).insertionSort (fun a b => b ≤ a) ++
      (rest.map key).insertionSort fun a b => b ≤ a) =
        (items.map key).insertionSort fun a b => b ≤ a := by
    refine List.Perm.eq_of_pairwise ?_ (show List.Pairwise (fun a b : β => b ≤ a) _ from ?_)
      (List.pairwise_insertionSort _ _) ?_
    · intro a b _ _ hab hba
      exact le_antisymm hba hab
    · rw [List.pairwise_append]
      refine ⟨List.pairwise_insertionSort _ _, List.pairwise_insertionSort _ _, ?_⟩
      intro a ha b hb
      obtain ⟨x, hx, rfl⟩ := List.mem_map.mp ((List.mem_insertionSort _).mp ha)
      obtain ⟨y, hy, rfl⟩ := List.mem_map.mp ((List.mem_insertionSort _).mp hb)
      exact hle x hx y hy
    · refine ((List.perm_insertionSort _ _).append (List.perm_insertionSort _ _)).trans ?_
      rw [← List.map_append]
      exact (hperm.map key).trans (List.perm_insertionSort _ _).symm
  have hlength : chosen.length = ((chosen.map key).insertionSort fun a b => b ≤ a).length := by
    rw [List.length_insertionSort, List.length_map]
  have htake : largest id chosen.length (items.map key) =
      (chosen.map key).insertionSort fun a b => b ≤ a := by
    unfold largest
    simp only [id]
    rw [← hjoined, hlength, List.take_left]
  rw [htake]
  exact (List.perm_insertionSort _ _).symm

end LargestKeys
