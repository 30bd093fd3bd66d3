import PrismInfer.Lib.ListBlocks

/-!
# First maximal position

The position of a list's maximum, the first one where several attain it, and its two-level
form: the first best part of a list cut into parts of one length, then the first best entry
of that part.
-/
namespace Argmax
open ListBlocks

variable {α : Type*} [LinearOrder α]

/-- `i` is the first position of the greatest value. -/
def FirstMaximum (values : List α) (i : ℕ) : Prop :=
  ∃ best, values[i]? = some best ∧
    ∀ j value, values[j]? = some value → value ≤ best ∧ (j < i → value < best)

/-- The first position whose value no other exceeds. -/
def argmax (values : List α) : ℕ := values.findIdx fun value => values.all (· ≤ value)

/-- The value at that position. -/
def maximum [Inhabited α] (values : List α) : α := values.getD (argmax values) default

theorem argmax_lt {values : List α} (h : values ≠ []) : argmax values < values.length := by
  obtain ⟨best, hmem, hbest⟩ := Finset.exists_max_image values.toFinset id
    (by rwa [List.toFinset_nonempty_iff])
  refine List.findIdx_lt_length_of_exists ⟨best, List.mem_toFinset.mp hmem, ?_⟩
  rw [List.all_eq_true]
  exact fun value hvalue => decide_eq_true (hbest value (List.mem_toFinset.mpr hvalue))

theorem argmax_spec {values : List α} (h : values ≠ []) : FirstMaximum values (argmax values) := by
  have hlt := argmax_lt h
  have hall : values.all (· ≤ values[argmax values]) = true := List.findIdx_getElem (w := hlt)
  rw [List.all_eq_true] at hall
  have hbest : ∀ value ∈ values, value ≤ values[argmax values] := fun value hvalue =>
    of_decide_eq_true (hall value hvalue)
  refine ⟨values[argmax values], List.getElem?_eq_getElem hlt, fun j value hj => ?_⟩
  have hmem := List.mem_of_getElem? hj
  refine ⟨hbest value hmem, fun hbefore => lt_of_not_ge fun hge => ?_⟩
  -- a value as great before it would have been found first
  have hfirst := List.not_of_lt_findIdx hbefore
  rw [List.all_eq_false] at hfirst
  obtain ⟨other, hother, hexceeds⟩ := hfirst
  obtain ⟨hjlt, heq⟩ := List.getElem?_eq_some_iff.mp hj
  rw [decide_eq_true_eq, heq] at hexceeds
  exact hexceeds ((hbest other hother).trans hge)

theorem FirstMaximum.eq {values : List α} {i j : ℕ} (hi : FirstMaximum values i)
    (hj : FirstMaximum values j) : i = j := by
  obtain ⟨a, ha, hleA⟩ := hi
  obtain ⟨b, hb, hleB⟩ := hj
  rcases lt_trichotomy i j with hlt | heq | hgt
  · exact absurd ((hleB i a ha).2 hlt) (not_lt.mpr (hleA j b hb).1)
  · exact heq
  · exact absurd ((hleA j b hb).2 hgt) (not_lt.mpr (hleB i a ha).1)

theorem getElem?_argmax [Inhabited α] {values : List α} (h : values ≠ []) :
    values[argmax values]? = some (maximum values) := by
  rw [maximum, List.getD_eq_getElem?_getD, List.getElem?_eq_getElem (argmax_lt h), Option.getD_some]

/-- The first best of the parts' maxima, then the first best inside that part. -/
theorem firstMaximum_of_parts [Inhabited α] {values : List α} {parts n : ℕ} (hparts : 0 < parts)
    (hn : 0 < n) (hlength : values.length = parts * n) :
    let part := fun r => slice values (r * n) ((r + 1) * n)
    let winner := argmax ((List.range parts).map fun r => maximum (part r))
    winner < parts ∧ argmax (part winner) < n ∧
      FirstMaximum values (winner * n + argmax (part winner)) := by
  intro part winner
  have hpart : ∀ r < parts, (part r).length = n := by
    intro r hr
    have hend : (r + 1) * n ≤ values.length := by
      rw [hlength]
      exact Nat.mul_le_mul_right n hr
    rw [length_slice hend, Nat.succ_mul]
    omega
  have hpartNe : ∀ r < parts, part r ≠ [] := by
    intro r hr
    rw [← List.length_pos_iff_ne_nil, hpart r hr]
    exact hn
  have hmaximaNe : ((List.range parts).map fun r => maximum (part r)) ≠ [] := by
    rw [← List.length_pos_iff_ne_nil, List.length_map, List.length_range]
    exact hparts
  have hwinner : winner < parts := by
    have hlt := argmax_lt hmaximaNe
    rwa [List.length_map, List.length_range] at hlt
  have hoffset : argmax (part winner) < n := by
    have hlt := argmax_lt (hpartNe winner hwinner)
    rwa [hpart winner hwinner] at hlt
  have hread : ∀ r k, k < n → (part r)[k]? = values[r * n + k]? := by
    intro r k hk
    rw [getElem?_slice, if_pos (by rw [Nat.succ_mul]; omega)]
  refine ⟨hwinner, hoffset, maximum (part winner), ?_, fun j value hj => ?_⟩
  · rw [← hread winner _ hoffset]
    exact getElem?_argmax (hpartNe winner hwinner)
  · obtain ⟨hjlt, -⟩ := List.getElem?_eq_some_iff.mp hj
    rw [hlength] at hjlt
    have hr : j / n < parts := Nat.div_lt_of_lt_mul (by rwa [Nat.mul_comm])
    have hk : j % n < n := Nat.mod_lt j hn
    have hsplit := Nat.div_add_mod' j n
    have hinPart : (part (j / n))[j % n]? = some value := by
      rw [hread _ _ hk, hsplit]
      exact hj
    obtain ⟨best, hbest, hinside⟩ := argmax_spec (hpartNe (j / n) hr)
    obtain rfl : maximum (part (j / n)) = best :=
      Option.some.inj ((getElem?_argmax (hpartNe (j / n) hr)).symm.trans hbest)
    obtain ⟨top, htop, hacross⟩ := argmax_spec hmaximaNe
    have hmaximum : ∀ r < parts, ((List.range parts).map fun r => maximum (part r))[r]? =
        some (maximum (part r)) := by
      intro r hr
      rw [List.getElem?_map, List.getElem?_range hr, Option.map_some]
    obtain rfl : maximum (part winner) = top :=
      Option.some.inj ((hmaximum winner hwinner).symm.trans htop)
    obtain ⟨hle, hlt⟩ := hinside (j % n) value hinPart
    obtain ⟨hleTop, hltTop⟩ := hacross (j / n) _ (hmaximum _ hr)
    refine ⟨hle.trans hleTop, fun hbefore => ?_⟩
    by_cases hearlier : j / n < winner
    · exact hle.trans_lt (hltTop hearlier)
    · have hsame : j / n = winner := by
        by_contra hne
        have hlater : (winner + 1) * n ≤ j / n * n := Nat.mul_le_mul_right n (by omega)
        rw [Nat.succ_mul] at hlater
        omega
      rw [hsame] at hsplit hlt hleTop
      exact hlt (by omega)

end Argmax
