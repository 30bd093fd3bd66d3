import PrismInfer.Lib.GreedyBalance
import PrismInfer.VisionDataParallel

/-!
# Load balance of the vision ranks

`assign_images_by_patch_count` hands the images out by falling patch count, each to a rank of
least load. Its heaviest rank stays within `4/3 - 1/(3m)` of the least makespan any partition
of the images over `m` ranks has.
-/
namespace PrismInfer
open GreedyBalance

section

variable (patchCounts : List ℕ)

/-- Patches of image `i`. -/
def patchesOf (i : ℕ) : ℕ := patchCounts.getD i 0

/-- The load of the heaviest rank. -/
def makespan (shares : List (List ℕ)) : ℕ :=
  (shares.map (load (patchesOf patchCounts))).foldr max 0

/-- The images in one list for each rank, every image in one of them. -/
def Partition (worldSize : ℕ) (shares : List (List ℕ)) : Prop :=
  shares.length = worldSize ∧ shares.flatten.Perm (List.range patchCounts.length)

/-- The least makespan of a partition. -/
noncomputable def minimumMakespan (worldSize : ℕ) : ℕ :=
  sInf {T | ∃ shares, Partition patchCounts worldSize shares ∧ makespan patchCounts shares = T}

end

variable {patchCounts : List ℕ}

theorem load_le_makespan {shares : List (List ℕ)} {share : List ℕ} (h : share ∈ shares) :
    load (patchesOf patchCounts) share ≤ makespan patchCounts shares := by
  unfold makespan
  induction shares with
  | nil => exact absurd h List.not_mem_nil
  | cons first shares ih =>
    rw [List.map_cons, List.foldr_cons]
    rcases List.mem_cons.mp h with rfl | hmem
    · exact le_max_left _ _
    · exact (ih hmem).trans (le_max_right _ _)

/-- The heaviest rank is a rank. -/
theorem makespan_mem (patchCounts : List ℕ) {shares : List (List ℕ)} (h : shares ≠ []) :
    ∃ share ∈ shares, load (patchesOf patchCounts) share = makespan patchCounts shares := by
  unfold makespan
  induction shares with
  | nil => exact absurd rfl h
  | cons first shares ih =>
    rw [List.map_cons, List.foldr_cons]
    by_cases hnil : shares = []
    · subst hnil
      exact ⟨first, List.mem_cons_self, (Nat.max_zero _).symm⟩
    · obtain ⟨share, hshare, heq⟩ := ih hnil
      rcases le_total (load (patchesOf patchCounts) first)
        ((shares.map (load (patchesOf patchCounts))).foldr max 0) with hle | hle
      · exact ⟨share, List.mem_cons_of_mem _ hshare, by rw [max_eq_right hle, heq]⟩
      · exact ⟨first, List.mem_cons_self, (max_eq_left hle).symm⟩

/-- Some partition attains the least makespan. -/
theorem exists_minimumMakespan (patchCounts : List ℕ) {worldSize : ℕ} (h : 0 < worldSize) :
    ∃ shares, Partition patchCounts worldSize shares ∧
      makespan patchCounts shares = minimumMakespan patchCounts worldSize :=
  Nat.sInf_mem (s := {T | ∃ shares, Partition patchCounts worldSize shares ∧
    makespan patchCounts shares = T}) ⟨_, assignImagesByPatchCount patchCounts worldSize,
      ⟨assignImages_length patchCounts h, assignImages_perm patchCounts h⟩, rfl⟩

/-! ## One image -/

instance : Std.Total (LargerFirst patchCounts) where
  total i j := by
    unfold LargerFirst
    omega

instance : IsTrans ℕ (LargerFirst patchCounts) where
  trans i j k := by
    unfold LargerFirst
    omega

theorem mem_modify {α : Type*} {list : List α} {k : ℕ} {f : α → α} {x : α}
    (h : x ∈ list.modify k f) : x ∈ list ∨ ∃ y, list[k]? = some y ∧ x = f y := by
  obtain ⟨i, hi⟩ := List.mem_iff_getElem?.mp h
  rw [List.getElem?_modify] at hi
  obtain ⟨y, hy, hx⟩ := Option.map_eq_some_iff.mp hi
  split at hx
  · next heq =>
    subst heq
    exact .inr ⟨y, hy, hx.symm⟩
  · exact .inl (List.mem_iff_getElem?.mpr ⟨i, hx ▸ hy⟩)

theorem map_modify_of_comm {α β : Type*} (list : List α) (k : ℕ) {f : α → α} {g : α → β}
    {f' : β → β} (h : ∀ x, g (f x) = f' (g x)) :
    (list.modify k f).map g = (list.map g).modify k f' := by
  apply List.ext_getElem?
  intro i
  rw [List.getElem?_map, List.getElem?_modify, List.getElem?_modify, List.getElem?_map]
  cases list[i]? with
  | none => rfl
  | some x =>
    simp only [Option.map_some]
    split
    · exact congrArg some (h x)
    · rfl

namespace ImageAssignment

theorem owner_least {s : ImageAssignment} (h : s.loads ≠ []) :
    ∃ least, s.loads[s.owner]? = some least ∧ ∀ load ∈ s.loads, least ≤ load := by
  have hlt := owner_lt h
  refine ⟨s.loads[s.owner], List.getElem?_eq_getElem hlt, ?_⟩
  have hall : s.loads.all (s.loads[s.owner] ≤ ·) = true := List.findIdx_getElem (w := hlt)
  simpa only [List.all_eq_true, decide_eq_true_eq] using hall

/-- The ranks after the images `done`: what they carry, and that no load exceeds the bound
every partition of all images sets. -/
structure Balanced (patchCounts : List ℕ) (worldSize : ℕ) (done : List ℕ)
    (s : ImageAssignment) : Prop where
  ranks : s.assigned.length = worldSize
  loads_eq : s.loads = s.assigned.map (load (patchesOf patchCounts))
  perm : s.assigned.flatten.Perm done
  bounded : ∀ shares T, Partition patchCounts worldSize shares →
    (∀ share ∈ shares, load (patchesOf patchCounts) share ≤ T) → ∀ carried ∈ s.loads,
      3 * worldSize * carried + T ≤ 4 * worldSize * T

variable {worldSize : ℕ} {done : List ℕ} {s : ImageAssignment}

theorem balanced_initial (h : 0 < worldSize) :
    Balanced patchCounts worldSize [] (initial worldSize) where
  ranks := List.length_replicate
  loads_eq := by simp [initial]
  perm := by simp [initial]
  bounded := by
    intro shares T _ _ carried hcarried
    rw [List.eq_of_mem_replicate hcarried, Nat.mul_zero, Nat.zero_add]
    exact Nat.le_mul_of_pos_left T (by omega)

/-- The partition restricted to the images handed out and the next one. -/
theorem partition_restrict {shares : List (List ℕ)} {image : ℕ} {rest : List ℕ}
    (hall : (done ++ image :: rest).Perm (List.range patchCounts.length))
    (hshares : shares.flatten.Perm (List.range patchCounts.length)) :
    ((shares.map fun share => share.filter (· ∈ image :: done)).flatten).Perm (image :: done) := by
  have hnodup : (done ++ image :: rest).Nodup := hall.nodup_iff.mpr List.nodup_range
  obtain ⟨-, hrest, hdisjoint⟩ := List.nodup_append.mp hnodup
  have hdone : done.filter (· ∈ image :: done) = done := by
    rw [List.filter_eq_self]
    intro j hj
    exact decide_eq_true (List.mem_cons_of_mem _ hj)
  have hlater : rest.filter (· ∈ image :: done) = [] := by
    rw [List.filter_eq_nil_iff]
    intro j hj
    rw [decide_eq_true_eq, List.mem_cons]
    rintro (rfl | hmem)
    · exact (List.nodup_cons.mp hrest).1 hj
    · exact hdisjoint j hmem j (List.mem_cons_of_mem _ hj) rfl
  have hfilter : (done ++ image :: rest).filter (· ∈ image :: done) = done ++ [image] := by
    rw [List.filter_append, hdone, List.filter_cons_of_pos (by simp), hlater]
  rw [← List.filter_flatten]
  refine ((hshares.trans hall.symm).filter _).trans ?_
  rw [hfilter]
  exact List.perm_append_singleton image done

theorem balanced_assign {image : ℕ} {rest : List ℕ} (hpos : 0 < worldSize)
    (h : Balanced patchCounts worldSize done s)
    (hall : (done ++ image :: rest).Perm (List.range patchCounts.length))
    (hsmall : ∀ j ∈ done, patchesOf patchCounts image ≤ patchesOf patchCounts j) :
    Balanced patchCounts worldSize (done ++ [image]) (assign patchCounts s image) := by
  have hlength : s.loads.length = worldSize := by rw [h.loads_eq, List.length_map, h.ranks]
  have hne : s.loads ≠ [] := by
    rw [← List.length_pos_iff_ne_nil]
    omega
  constructor
  · rw [assign, List.length_modify, h.ranks]
  · unfold assign
    simp only
    rw [h.loads_eq]
    refine (map_modify_of_comm s.assigned s.owner fun bucket => ?_).symm
    rw [load_append, load_cons, load_nil, Nat.add_zero]
    rfl
  · have hlt : s.owner < s.assigned.length := by
      rw [h.ranks, ← hlength]
      exact owner_lt hne
    refine (flatten_modify_append s.assigned hlt image).trans ?_
    exact (h.perm.cons image).trans (List.perm_append_singleton image done).symm
  · intro shares T hshares hfits carried hcarried
    rcases mem_modify hcarried with hold | ⟨least, hleast, rfl⟩
    · exact h.bounded shares T hshares hfits carried hold
    · obtain ⟨least', hleast', hmin⟩ := owner_least hne
      obtain rfl : least = least' := Option.some.inj (hleast.symm.trans hleast')
      have hassigned : s.assigned ≠ [] := by
        rw [← List.length_pos_iff_ne_nil, h.ranks]
        exact hpos
      have hbuckets : ∀ bucket ∈ s.assigned, least ≤ load (patchesOf patchCounts) bucket := by
        intro bucket hbucket
        apply hmin
        rw [h.loads_eq]
        exact List.mem_map_of_mem hbucket
      have hrestricted : ∀ share ∈ shares.map fun share => share.filter (· ∈ image :: done),
          load (patchesOf patchCounts) share ≤ T := by
        intro share hshare
        obtain ⟨whole, hwhole, rfl⟩ := List.mem_map.mp hshare
        exact (load_filter_le _ whole).trans (hfits whole hwhole)
      have hstep := lightest_step hassigned hsmall h.perm hbuckets
        (partition_restrict hall hshares.2) (by rw [List.length_map, hshares.1, h.ranks])
        hrestricted
      rwa [h.ranks] at hstep

theorem balanced_foldl {ids : List ℕ} (hpos : 0 < worldSize)
    (h : Balanced patchCounts worldSize done s)
    (hall : (done ++ ids).Perm (List.range patchCounts.length))
    (hsorted : (done ++ ids).Pairwise (LargerFirst patchCounts)) :
    Balanced patchCounts worldSize (done ++ ids) (ids.foldl (assign patchCounts) s) := by
  induction ids generalizing done s with
  | nil => rwa [List.append_nil]
  | cons image ids ih =>
    have hsmall : ∀ j ∈ done, patchesOf patchCounts image ≤ patchesOf patchCounts j := by
      intro j hj
      have hlarger := (List.pairwise_append.mp hsorted).2.2 j hj image List.mem_cons_self
      unfold LargerFirst at hlarger
      unfold patchesOf
      omega
    have hnext := balanced_assign hpos h hall hsmall
    rw [List.append_cons] at hall hsorted ⊢
    exact ih hnext hall hsorted

end ImageAssignment

open ImageAssignment in
/-- No rank carries more than the bound of any partition. -/
theorem assignImages_bounded {worldSize T : ℕ} {shares : List (List ℕ)} (hpos : 0 < worldSize)
    (hshares : Partition patchCounts worldSize shares)
    (hfits : ∀ share ∈ shares, load (patchesOf patchCounts) share ≤ T) :
    3 * worldSize * makespan patchCounts (assignImagesByPatchCount patchCounts worldSize) + T ≤
      4 * worldSize * T := by
  have hrun := balanced_foldl hpos (balanced_initial hpos)
    (List.perm_insertionSort (LargerFirst patchCounts) _) (List.pairwise_insertionSort _ _)
  have hlength := assignImages_length patchCounts hpos
  obtain ⟨share, hshare, hheaviest⟩ := makespan_mem patchCounts
    (show assignImagesByPatchCount patchCounts worldSize ≠ [] by
      rw [← List.length_pos_iff_ne_nil, hlength]
      exact hpos)
  rw [← hheaviest]
  obtain ⟨bucket, hbucket, rfl⟩ := List.mem_map.mp hshare
  rw [load_perm (List.perm_insertionSort _ bucket)]
  apply hrun.bounded shares T hshares hfits
  rw [hrun.loads_eq]
  exact List.mem_map_of_mem hbucket

/-- Images are shared out whole, each once, and the heaviest rank carries at most
`4/3 - 1/(3m)` of the least makespan. -/
theorem assignImagesByPatchCount_balanced (patchCounts : List ℕ) (worldSize : ℕ)
    (hpos : 0 < worldSize) :
    Partition patchCounts worldSize (assignImagesByPatchCount patchCounts worldSize) ∧
      (makespan patchCounts (assignImagesByPatchCount patchCounts worldSize) : ℚ) ≤
        (4 / 3 - 1 / (3 * worldSize)) * minimumMakespan patchCounts worldSize := by
  refine ⟨⟨assignImages_length patchCounts hpos, assignImages_perm patchCounts hpos⟩, ?_⟩
  obtain ⟨shares, hshares, hminimum⟩ := exists_minimumMakespan patchCounts hpos
  have hbound := assignImages_bounded hpos hshares fun share hshare => load_le_makespan hshare
  rw [hminimum] at hbound
  have hm : (0 : ℚ) < worldSize := by exact_mod_cast hpos
  have hbound : (3 * worldSize * makespan patchCounts
      (assignImagesByPatchCount patchCounts worldSize) +
        minimumMakespan patchCounts worldSize : ℚ) ≤
      4 * worldSize * minimumMakespan patchCounts worldSize := by exact_mod_cast hbound
  have hfactor : (4 / 3 - 1 / (3 * worldSize) : ℚ) * minimumMakespan patchCounts worldSize =
      (4 * worldSize * minimumMakespan patchCounts worldSize -
        minimumMakespan patchCounts worldSize) / (3 * worldSize) := by
    field_simp
  rw [hfactor, le_div_iff₀ (by positivity)]
  linarith

/-- Five images on two ranks. -/
theorem assignImagesByPatchCount_balanced_two :
    (makespan [7, 6, 5, 4, 3] (assignImagesByPatchCount [7, 6, 5, 4, 3] 2) : ℚ) ≤
      (4 / 3 - 1 / (3 * (2 : ℕ))) * minimumMakespan [7, 6, 5, 4, 3] 2 :=
  (assignImagesByPatchCount_balanced [7, 6, 5, 4, 3] 2 (by decide)).2

end PrismInfer
