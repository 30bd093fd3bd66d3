import Mathlib.Tactic

/-!
# Ordered dictionaries

A dictionary as the list of its items in insertion order, with the operations an
`OrderedDict` offers and the laws of its lookups and of sums over its values. Distinct
keys are a hypothesis of the laws that need them.
-/

/-- Items in insertion order. -/
abbrev OrderedDict (κ α : Type) := List (κ × α)

namespace OrderedDict

variable {κ α : Type} [DecidableEq κ]

def get? (dict : OrderedDict κ α) (id : κ) : Option α := (dict.find? (·.1 = id)).map (·.2)

def remove (dict : OrderedDict κ α) (id : κ) : OrderedDict κ α := dict.filter (·.1 ≠ id)

/-- Change the value of `id` in place. -/
def update (dict : OrderedDict κ α) (id : κ) (f : α → α) : OrderedDict κ α :=
  dict.map fun item => if item.1 = id then (item.1, f item.2) else item

def moveToEnd (dict : OrderedDict κ α) (id : κ) : OrderedDict κ α :=
  dict.remove id ++ dict.filter (·.1 = id)

/-- Sum of `f` over the values. -/
def weight (f : α → ℕ) (dict : OrderedDict κ α) : ℕ := (dict.map fun item => f item.2).sum

variable {dict : OrderedDict κ α} {id : κ} {entry : α} {f : α → ℕ}

theorem mem_of_get? (h : dict.get? id = some entry) : (id, entry) ∈ dict := by
  obtain ⟨item, hfind, rfl⟩ := Option.map_eq_some_iff.mp h
  have hid : item.1 = id := by simpa using List.find?_some hfind
  rw [← hid]
  exact List.mem_of_find?_eq_some hfind

theorem get?_of_mem (hn : (dict.map (·.1)).Nodup) (h : (id, entry) ∈ dict) :
    dict.get? id = some entry := by
  induction dict with
  | nil => simp at h
  | cons item dict ih =>
    obtain ⟨hne, hn⟩ := List.nodup_cons.mp hn
    rcases List.mem_cons.mp h with rfl | h
    · simp [get?]
    · have hkey : item.1 ≠ id := by
        rintro rfl
        exact hne (List.mem_map.mpr ⟨_, h, rfl⟩)
      have := ih hn h
      simp only [get?, List.find?_cons, hkey, decide_false] at this ⊢
      exact this

theorem get?_eq_none : dict.get? id = none ↔ id ∉ dict.map (·.1) := by
  simp only [get?, Option.map_eq_none_iff, List.find?_eq_none, decide_eq_true_eq, List.mem_map,
    not_exists, not_and]

theorem weight_remove (hn : (dict.map (·.1)).Nodup) (h : dict.get? id = some entry) :
    dict.weight f = (dict.remove id).weight f + f entry := by
  induction dict with
  | nil => simp [get?] at h
  | cons item dict ih =>
    obtain ⟨hne, hn⟩ := List.nodup_cons.mp hn
    by_cases hkey : item.1 = id
    · have hrest : remove dict id = dict := by
        refine List.filter_eq_self.mpr fun x hx => ?_
        simp only [ne_eq, decide_eq_true_eq]
        rintro rfl
        exact hne (List.mem_map.mpr ⟨x, hx, hkey.symm⟩)
      obtain rfl : item.2 = entry := by simpa [get?, hkey] using h
      have hfirst : remove (item :: dict) id = remove dict id := by
        simp [remove, hkey]
      rw [hfirst, hrest]
      simp [weight, Nat.add_comm]
    · have hrest : get? dict id = some entry := by
        simpa [get?, List.find?_cons, hkey] using h
      have hfirst : remove (item :: dict) id = item :: remove dict id := by
        simp [remove, hkey]
      have := ih hn hrest
      simp only [hfirst, weight, List.map_cons, List.sum_cons] at this ⊢
      omega

theorem weight_update (hn : (dict.map (·.1)).Nodup) (h : dict.get? id = some entry)
    (g : α → α) :
    (dict.update id g).weight f + f entry = dict.weight f + f (g entry) := by
  induction dict with
  | nil => simp [get?] at h
  | cons item dict ih =>
    obtain ⟨hne, hn⟩ := List.nodup_cons.mp hn
    by_cases hkey : item.1 = id
    · have hrest : update dict id g = dict := by
        refine (List.map_congr_left fun x hx => ?_).trans (List.map_id dict)
        rw [if_neg]
        · rfl
        rintro rfl
        exact hne (List.mem_map.mpr ⟨x, hx, hkey.symm⟩)
      obtain rfl : item.2 = entry := by simpa [get?, hkey] using h
      have hfirst : update (item :: dict) id g = (item.1, g item.2) :: update dict id g := by
        simp [update, hkey]
      rw [hfirst, hrest]
      simp only [weight, List.map_cons, List.sum_cons]
      omega
    · have hrest : get? dict id = some entry := by
        simpa [get?, List.find?_cons, hkey] using h
      have hfirst : update (item :: dict) id g = item :: update dict id g := by
        simp [update, hkey]
      have := ih hn hrest
      simp only [hfirst, weight, List.map_cons, List.sum_cons] at this ⊢
      omega

theorem moveToEnd_perm (dict : OrderedDict κ α) (id : κ) : (dict.moveToEnd id).Perm dict := by
  have h := List.filter_append_perm (fun item : κ × α => decide (item.1 ≠ id)) dict
  refine List.Perm.trans ?_ h
  refine List.Perm.append_left _ (List.Perm.of_eq (List.filter_congr fun item _ => ?_))
  by_cases hid : item.1 = id <;> simp [hid]

theorem weight_moveToEnd : (dict.moveToEnd id).weight f = dict.weight f :=
  ((moveToEnd_perm dict id).map _).sum_eq

@[simp] theorem keys_update (g : α → α) :
    (dict.update id g).map (·.1) = dict.map (·.1) := by
  simp only [update, List.map_map]
  refine List.map_congr_left fun item _ => ?_
  simp only [Function.comp]
  split <;> rfl

theorem keys_remove_nodup (hn : (dict.map (·.1)).Nodup) : ((dict.remove id).map (·.1)).Nodup :=
  hn.sublist (List.filter_sublist.map _)

theorem get?_remove_of_ne {other : κ} (hne : other ≠ id) :
    (dict.remove id).get? other = dict.get? other := by
  induction dict with
  | nil => rfl
  | cons item dict ih =>
    by_cases hkey : item.1 = id
    · have hne' : item.1 ≠ other := by rintro rfl; exact hne hkey
      have hfirst : remove (item :: dict) id = remove dict id := by simp [remove, hkey]
      rw [hfirst, ih]
      simp [get?, hne']
    · have hfirst : remove (item :: dict) id = item :: remove dict id := by simp [remove, hkey]
      rw [hfirst]
      by_cases hother : item.1 = other
      · simp [get?, hother]
      · simpa [get?, List.find?_cons, hother] using ih

theorem get?_update (other : κ)
    (g : α → α) :
    (dict.update id g).get? other =
      (dict.get? other).map fun entry => if other = id then g entry else entry := by
  induction dict with
  | nil => rfl
  | cons item dict ih =>
    by_cases hother : item.1 = other
    · by_cases hkey : item.1 = id
      · have : other = id := hother ▸ hkey
        simp [get?, update, hkey, this]
      · have : other ≠ id := hother ▸ hkey
        simp [get?, update, hother, this]
    · have hfirst : get? (item :: dict) other = get? dict other := by
        simp [get?, hother]
      have hfirst' : get? (update (item :: dict) id g) other = get? (update dict id g) other := by
        by_cases hkey : item.1 = id
        · have hne : id ≠ other := hkey ▸ hother
          simp [get?, update, hkey, hne]
        · simp [get?, update, hkey, hother]
      rw [hfirst, hfirst', ih]

theorem get?_update_of_ne {other : κ} (hne : other ≠ id) (g : α → α) :
    (dict.update id g).get? other = dict.get? other := by
  rw [get?_update]
  cases dict.get? other <;> simp [hne]

theorem get?_perm {dict' : OrderedDict κ α} (hn : (dict.map (·.1)).Nodup) (h : dict'.Perm dict)
    (id : κ) : dict'.get? id = dict.get? id := by
  have hn' : (dict'.map (·.1)).Nodup := (h.map _).nodup_iff.mpr hn
  cases hget : dict.get? id with
  | none =>
    rw [get?_eq_none] at hget ⊢
    exact fun hmem => hget ((h.map _).mem_iff.mp hmem)
  | some entry => exact get?_of_mem hn' (h.mem_iff.mpr (mem_of_get? hget))

end OrderedDict
