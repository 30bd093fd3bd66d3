import Mathlib.Data.List.Dedup
import Mathlib.Data.List.TakeWhile
import PrismInfer.Lib.OrderedDict

/-!
# Keys by their last use

`uses.dedup` lists the keys used so far by their last use, oldest first. A dictionary whose
keys are a suffix of that list holds the most recently used keys: whatever it does not
hold was used earlier than everything it holds.
-/
namespace RecentUse

variable {κ : Type} [DecidableEq κ] {uses keys : List κ} {key : κ}

/-- A use moves its key behind all others. -/
theorem dedup_concat (uses : List κ) (key : κ) :
    (uses ++ [key]).dedup = uses.dedup.filter (· ≠ key) ++ [key] := by
  induction uses with
  | nil => rfl
  | cons first uses ih =>
    rw [List.cons_append]
    by_cases hmem : first ∈ uses
    · rw [List.dedup_cons_of_mem (List.mem_append_left _ hmem), List.dedup_cons_of_mem hmem, ih]
    · rw [List.dedup_cons_of_notMem hmem]
      by_cases hkey : first = key
      · rw [List.dedup_cons_of_mem (by simp [hkey]), ih]
        simp [hkey]
      · rw [List.dedup_cons_of_notMem (by simp [hmem, hkey]), ih]
        simp [hkey]

theorem nodup_of_suffix (h : keys <:+ uses.dedup) : keys.Nodup :=
  (List.nodup_dedup uses).sublist h.sublist

/-- Using a key, held or new, and keeping what was held. -/
theorem suffix_use (key : κ) (h : keys <:+ uses.dedup) :
    keys.filter (· ≠ key) ++ [key] <:+ (uses ++ [key]).dedup := by
  rw [dedup_concat]
  obtain ⟨older, hdedup⟩ := h
  refine ⟨older.filter (· ≠ key), ?_⟩
  rw [← hdedup, List.filter_append, List.append_assoc]

/-- The last key held is the last one used. -/
theorem getLast?_of_suffix (h : keys <:+ (uses ++ [key]).dedup) (hne : keys ≠ []) :
    keys.getLast? = some key := by
  obtain ⟨older, hdedup⟩ := h
  rw [dedup_concat] at hdedup
  have hlast := congrArg List.getLast? hdedup
  rw [List.getLast?_append, List.getLast?_concat, List.getLast?_eq_some_getLast hne] at hlast
  rw [List.getLast?_eq_some_getLast hne]
  exact hlast

end RecentUse

namespace OrderedDict

variable {κ α : Type}

theorem weight_append (f : α → ℕ) (left right : OrderedDict κ α) :
    weight f (left ++ right) = left.weight f + right.weight f := by
  simp [weight]

theorem weight_cons (f : α → ℕ) (item : κ × α) (dict : OrderedDict κ α) :
    weight f (item :: dict) = f item.2 + dict.weight f := by
  simp [weight]

variable [DecidableEq κ] {dict : OrderedDict κ α} {id : κ} {value : α}

/-- Assignment: the value of a present key changes in place, a new key goes to the end. -/
def setItem (dict : OrderedDict κ α) (id : κ) (value : α) : OrderedDict κ α :=
  match dict.get? id with
  | some _ => dict.update id fun _ => value
  | none => dict ++ [(id, value)]

theorem setItem_of_notMem (h : id ∉ dict.map (·.1)) :
    dict.setItem id value = dict ++ [(id, value)] := by
  rw [setItem, get?_eq_none.mpr h]

theorem setItem_of_get? {old : α} (h : dict.get? id = some old) :
    dict.setItem id value = dict.update id fun _ => value := by
  rw [setItem, h]

theorem get?_setItem : (dict.setItem id value).get? id = some value := by
  cases hget : dict.get? id with
  | some old => rw [setItem_of_get? hget, get?_update, hget]; simp
  | none =>
    have hnot := get?_eq_none.mp hget
    rw [setItem_of_notMem hnot, get?, List.find?_append]
    have hfind : dict.find? (·.1 = id) = none := by
      simpa [get?] using hget
    simp [hfind]

theorem mem_of_setItem {item : κ × α} (h : item ∈ dict.setItem id value) :
    item ∈ dict ∨ item = (id, value) := by
  cases hget : dict.get? id with
  | some old =>
    rw [setItem_of_get? hget] at h
    obtain ⟨before, hbefore, rfl⟩ := List.mem_map.mp h
    by_cases hkey : before.1 = id
    · rw [if_pos hkey, hkey]
      exact .inr rfl
    · rw [if_neg hkey]
      exact .inl hbefore
  | none =>
    rw [setItem_of_notMem (get?_eq_none.mp hget), List.mem_append, List.mem_singleton] at h
    exact h

theorem keys_subset_setItem : dict.map (·.1) ⊆ (dict.setItem id value).map (·.1) := by
  cases hget : dict.get? id with
  | some old => rw [setItem_of_get? hget, keys_update]; exact List.Subset.refl _
  | none =>
    rw [setItem_of_notMem (get?_eq_none.mp hget), List.map_append]
    exact List.subset_append_left _ _

theorem keys_moveToEnd (hn : (dict.map (·.1)).Nodup) (h : dict.get? id = some value) :
    (dict.moveToEnd id).map (·.1) = (dict.map (·.1)).filter (· ≠ id) ++ [id] := by
  have hmem : id ∈ dict.map (·.1) := List.mem_map.mpr ⟨_, mem_of_get? h, rfl⟩
  have hself : (dict.map (·.1)).filter (· = id) = [id] := by
    rw [List.filter_eq, List.count_eq_one_of_mem hn hmem, List.replicate_one]
  rw [← hself, moveToEnd, List.map_append, remove, List.filter_map, List.filter_map]
  rfl

/-- The items from that of `id` on. -/
def startingAt (dict : OrderedDict κ α) (id : κ) : OrderedDict κ α :=
  dict.dropWhile (·.1 ≠ id)

theorem split_startingAt (h : dict.get? id = some value) :
    ∃ before after, dict = before ++ (id, value) :: after ∧
      dict.startingAt id = (id, value) :: after ∧ id ∉ before.map (·.1) := by
  induction dict with
  | nil => simp [get?] at h
  | cons item dict ih =>
    by_cases hkey : item.1 = id
    · obtain rfl : item.2 = value := by simpa [get?, hkey] using h
      refine ⟨[], dict, ?_, ?_, by simp⟩
      · rw [← hkey]
        rfl
      · rw [startingAt, List.dropWhile_cons_of_neg (by simp [hkey]), ← hkey]
    · have hrest : get? dict id = some value := by
        simpa [get?, List.find?_cons, hkey] using h
      obtain ⟨before, after, hdict, hstart, hnot⟩ := ih hrest
      refine ⟨item :: before, after, by rw [hdict, List.cons_append], ?_, ?_⟩
      · simpa [startingAt, hkey] using hstart
      · simp only [List.map_cons, List.mem_cons, not_or]
        exact ⟨Ne.symm hkey, hnot⟩

theorem update_of_split {before after : OrderedDict κ α} (new : α)
    (hn : ((before ++ (id, value) :: after).map (·.1)).Nodup) :
    update (before ++ (id, value) :: after) id (fun _ => new) = before ++ (id, new) :: after := by
  simp only [List.map_append, List.map_cons, List.nodup_append, List.nodup_cons] at hn
  obtain ⟨_, ⟨hafter, _⟩, hbefore⟩ := hn
  have hkeep : ∀ items : OrderedDict κ α, id ∉ items.map (·.1) →
      items.map (fun item => if item.1 = id then (item.1, new) else item) = items := by
    intro items hnot
    refine (List.map_congr_left fun item hitem => ?_).trans (List.map_id items)
    apply if_neg
    rintro rfl
    exact hnot (List.mem_map.mpr ⟨item, hitem, rfl⟩)
  have hid : id ∉ before.map (·.1) := fun hmem => hbefore id hmem id List.mem_cons_self rfl
  rw [update, List.map_append, List.map_cons, if_pos rfl, hkeep before hid, hkeep after hafter]

theorem startingAt_eq_nil (h : id ∉ dict.map (·.1)) : dict.startingAt id = [] := by
  rw [startingAt, List.dropWhile_eq_nil_iff]
  intro item hitem
  simp only [ne_eq, decide_not, Bool.not_eq_eq_eq_not, Bool.not_true, decide_eq_false_iff_not]
  rintro rfl
  exact h (List.mem_map.mpr ⟨item, hitem, rfl⟩)

theorem weight_startingAt_le (f : α → ℕ) (dict : OrderedDict κ α) (id : κ) :
    (dict.startingAt id).weight f ≤ dict.weight f := by
  conv_rhs => rw [← List.takeWhile_append_dropWhile (p := fun item => item.1 ≠ id) (l := dict),
    weight_append]
  exact Nat.le_add_left _ _

theorem startingAt_append {before after : OrderedDict κ α} (h : id ∉ before.map (·.1)) :
    startingAt (before ++ after) id = after.startingAt id := by
  rw [startingAt, List.dropWhile_append, ← startingAt, startingAt_eq_nil h]
  rfl

end OrderedDict
