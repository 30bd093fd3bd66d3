import Mathlib.Tactic

/-!
# Largest job first on identical machines

Jobs with weights lie in buckets, one for each machine. If a job no heavier than all others
goes to a bucket of least load `L`, that bucket ends within `4/3 - 1/(3m)` of every makespan
`T` of the same jobs on `m` machines. The argument counts each bucket's jobs together with
its *bulky* jobs, those too heavy to share a bucket of capacity `T` with the new job.
-/
namespace GreedyBalance

variable {ι : Type*} (weight : ι → ℕ)

/-- Summed weight of a bucket. -/
def load (bucket : List ι) : ℕ := (bucket.map weight).sum

/-- Does not fit into capacity `T` together with a job of weight `w`. -/
def Bulky (w T : ℕ) (j : ι) : Prop := T < weight j + w

instance (w T : ℕ) : DecidablePred (Bulky weight w T) :=
  fun _ => inferInstanceAs (Decidable (_ < _))

variable {weight}

@[simp] theorem load_nil : load weight [] = 0 := rfl

@[simp] theorem load_cons (j : ι) (bucket : List ι) :
    load weight (j :: bucket) = weight j + load weight bucket := rfl

theorem load_append (bucket bucket' : List ι) :
    load weight (bucket ++ bucket') = load weight bucket + load weight bucket' := by
  rw [load, List.map_append, List.sum_append]
  rfl

theorem load_perm {bucket bucket' : List ι} (h : bucket.Perm bucket') :
    load weight bucket = load weight bucket' := (h.map weight).sum_eq

theorem load_flatten (buckets : List (List ι)) :
    load weight buckets.flatten = (buckets.map (load weight)).sum := by
  induction buckets with
  | nil => rfl
  | cons bucket buckets ih => rw [List.flatten_cons, load_append, ih, List.map_cons, List.sum_cons]

theorem load_filter_le (keep : ι → Bool) (bucket : List ι) :
    load weight (bucket.filter keep) ≤ load weight bucket := by
  induction bucket with
  | nil => exact le_rfl
  | cons j bucket ih =>
    rw [List.filter_cons]
    split
    · rw [load_cons, load_cons]
      omega
    · rw [load_cons]
      omega

theorem weight_le_load {j : ι} {bucket : List ι} (h : j ∈ bucket) :
    weight j ≤ load weight bucket := by
  obtain ⟨before, behind, rfl⟩ := List.append_of_mem h
  rw [load_append, load_cons]
  omega

theorem length_mul_le_load {w : ℕ} {bucket : List ι} (h : ∀ j ∈ bucket, w ≤ weight j) :
    bucket.length * w ≤ load weight bucket := by
  induction bucket with
  | nil => simp
  | cons j bucket ih =>
    have hj := h j List.mem_cons_self
    have ih := ih fun k hk => h k (List.mem_cons_of_mem _ hk)
    rw [List.length_cons, load_cons, Nat.succ_mul]
    omega

section Counting

variable {w T : ℕ}

/-- A bucket within capacity has few jobs, and a bulky one only alone. -/
theorem count_le_two {bucket : List ι} (hw : ∀ j ∈ bucket, w ≤ weight j) (hlarge : T < 3 * w)
    (hload : load weight bucket ≤ T) :
    bucket.length + bucket.countP (Bulky weight w T) ≤ 2 := by
  have hlength := length_mul_le_load hw
  have hcount := List.countP_le_length (p := fun j => decide (Bulky weight w T j)) (l := bucket)
  by_cases hbulky : ∃ j ∈ bucket, Bulky weight w T j
  · obtain ⟨j, hj, hbulky⟩ := hbulky
    obtain ⟨before, behind, rfl⟩ := List.append_of_mem hj
    have hothers : (before ++ behind).length * w ≤ load weight (before ++ behind) :=
      length_mul_le_load fun k hk => hw k (by
        rw [List.mem_append, List.mem_cons]
        rcases List.mem_append.mp hk with h | h
        · exact .inl h
        · exact .inr (.inr h))
    have hbulky : T < weight j + w := hbulky
    rw [load_append, load_cons] at hload
    rw [load_append, List.length_append] at hothers
    have halone : before.length + behind.length = 0 := by
      by_contra hne
      have hone : 1 * w ≤ (before.length + behind.length) * w :=
        Nat.mul_le_mul_right w (Nat.one_le_iff_ne_zero.mpr hne)
      omega
    rw [List.length_append, List.length_cons] at hcount ⊢
    omega
  · have hnone : bucket.countP (Bulky weight w T) = 0 := by
      rw [List.countP_eq_zero]
      intro j hj
      rw [decide_eq_true_eq]
      exact fun h => hbulky ⟨j, hj, h⟩
    rw [hnone]
    by_contra hmany
    have hthree : 3 * w ≤ bucket.length * w := Nat.mul_le_mul_right w (by omega)
    omega

/-- A bucket that the new job overfills has two jobs or a bulky one. -/
theorem two_le_count {bucket : List ι} (hw : w ≤ T) (hover : T < load weight bucket + w) :
    2 ≤ bucket.length + bucket.countP (Bulky weight w T) := by
  match bucket with
  | [] =>
    rw [load_nil] at hover
    omega
  | [j] =>
    have hbulky : Bulky weight w T j := by
      unfold Bulky
      rw [load_cons, load_nil] at hover
      omega
    rw [List.countP_cons_of_pos (by simpa using hbulky)]
    simp
  | _ :: _ :: _ =>
    simp only [List.length_cons]
    omega

theorem sum_count_le {buckets : List (List ι)} {bound : ℕ}
    (h : ∀ bucket ∈ buckets, bucket.length + bucket.countP (Bulky weight w T) ≤ bound) :
    buckets.flatten.length + buckets.flatten.countP (Bulky weight w T) ≤
      bound * buckets.length := by
  induction buckets with
  | nil => simp
  | cons bucket buckets ih =>
    have hfirst := h bucket List.mem_cons_self
    have ih := ih fun b hb => h b (List.mem_cons_of_mem _ hb)
    rw [List.flatten_cons, List.length_append, List.countP_append, List.length_cons, Nat.mul_succ]
    omega

theorem le_sum_count {buckets : List (List ι)} {bound : ℕ}
    (h : ∀ bucket ∈ buckets, bound ≤ bucket.length + bucket.countP (Bulky weight w T)) :
    bound * buckets.length ≤
      buckets.flatten.length + buckets.flatten.countP (Bulky weight w T) := by
  induction buckets with
  | nil => simp
  | cons bucket buckets ih =>
    have hfirst := h bucket List.mem_cons_self
    have ih := ih fun b hb => h b (List.mem_cons_of_mem _ hb)
    rw [List.flatten_cons, List.length_append, List.countP_append, List.length_cons, Nat.mul_succ]
    omega

end Counting

theorem sum_loads_le {buckets : List (List ι)} {T : ℕ}
    (h : ∀ bucket ∈ buckets, load weight bucket ≤ T) :
    load weight buckets.flatten ≤ buckets.length * T := by
  rw [load_flatten]
  have hsum := List.sum_le_card_nsmul (buckets.map (load weight)) T (by simpa using h)
  rwa [List.length_map, smul_eq_mul] at hsum

theorem le_sum_loads {buckets : List (List ι)} {L : ℕ}
    (h : ∀ bucket ∈ buckets, L ≤ load weight bucket) :
    buckets.length * L ≤ load weight buckets.flatten := by
  rw [load_flatten]
  have hsum := List.card_nsmul_le_sum (buckets.map (load weight)) L (by simpa using h)
  rwa [List.length_map, smul_eq_mul] at hsum

section Step

variable {jobs : List ι} {q : ι} {buckets shares : List (List ι)} {L T : ℕ}

/-- A heavy last job still fits: greedy and the other shares would count the jobs
differently. -/
theorem heavy_fits (hsmall : ∀ j ∈ jobs, weight q ≤ weight j)
    (hbuckets : buckets.flatten.Perm jobs) (hleast : ∀ bucket ∈ buckets, L ≤ load weight bucket)
    (hshares : shares.flatten.Perm (q :: jobs)) (hlength : shares.length = buckets.length)
    (hfits : ∀ share ∈ shares, load weight share ≤ T) (hheavy : T < 3 * weight q) :
    L + weight q ≤ T := by
  by_contra hover
  have hq : weight q ≤ T := by
    obtain ⟨share, hshare, hmem⟩ := List.mem_flatten.mp (hshares.mem_iff.mpr List.mem_cons_self)
    exact (weight_le_load hmem).trans (hfits share hshare)
  have hupper : shares.flatten.length + shares.flatten.countP (Bulky weight (weight q) T) ≤
      2 * shares.length := by
    apply sum_count_le
    intro share hshare
    refine count_le_two (fun j hj => ?_) hheavy (hfits share hshare)
    rcases List.mem_cons.mp (hshares.mem_iff.mp (List.mem_flatten.mpr ⟨share, hshare, hj⟩)) with
      rfl | hmem
    · exact le_rfl
    · exact hsmall j hmem
  have hlower : 2 * buckets.length ≤
      buckets.flatten.length + buckets.flatten.countP (Bulky weight (weight q) T) := by
    apply le_sum_count
    intro bucket hbucket
    have := hleast bucket hbucket
    exact two_le_count hq (by omega)
  rw [hshares.length_eq, hshares.countP_eq, List.length_cons, List.countP_cons] at hupper
  rw [hbuckets.length_eq, hbuckets.countP_eq] at hlower
  omega

/-- A light last job adds little to the average. -/
theorem light_adds (hbuckets : buckets.flatten.Perm jobs)
    (hleast : ∀ bucket ∈ buckets, L ≤ load weight bucket)
    (hshares : shares.flatten.Perm (q :: jobs)) (hlength : shares.length = buckets.length)
    (hfits : ∀ share ∈ shares, load weight share ≤ T) :
    buckets.length * L + weight q ≤ buckets.length * T := by
  have hupper := sum_loads_le hfits
  have hlower := le_sum_loads hleast
  rw [load_perm hshares, load_cons, hlength] at hupper
  rw [load_perm hbuckets] at hlower
  omega

/-- The bucket that gets the lightest job stays within `4/3 - 1/(3m)` of every makespan. -/
theorem lightest_step (hpos : buckets ≠ []) (hsmall : ∀ j ∈ jobs, weight q ≤ weight j)
    (hbuckets : buckets.flatten.Perm jobs) (hleast : ∀ bucket ∈ buckets, L ≤ load weight bucket)
    (hshares : shares.flatten.Perm (q :: jobs)) (hlength : shares.length = buckets.length)
    (hfits : ∀ share ∈ shares, load weight share ≤ T) :
    3 * buckets.length * (L + weight q) + T ≤ 4 * buckets.length * T := by
  obtain ⟨m, hm⟩ : ∃ m, buckets.length = m + 1 :=
    Nat.exists_eq_succ_of_ne_zero (by rwa [Ne, List.length_eq_zero_iff])
  by_cases hheavy : T < 3 * weight q
  · have hfit := heavy_fits hsmall hbuckets hleast hshares hlength hfits hheavy
    rw [hm]
    nlinarith [Nat.mul_le_mul_left (m + 1) hfit, Nat.zero_le (m * T)]
  · have hlight := light_adds hbuckets hleast hshares hlength hfits
    rw [hm] at hlight ⊢
    nlinarith [Nat.mul_le_mul_left m (not_lt.mp hheavy)]

end Step

end GreedyBalance
