import PrismInfer.Lib.RecentUse

/-!
# The per-image host cache

`_PerImageVisualEmbeddingHostCache`: Vision Encoder outputs by image hash, evicted least
recently used first under a byte budget. A tensor is opaque here, `nbytes` is its
`numel() * element_size()`; the pinned host copy of a tensor has its values and its size.
-/
namespace PrismInfer

variable {κ τ : Type} [DecidableEq κ]

structure VisualEmbeddingCacheEntry (τ : Type) where
  visualEmbeds : τ
  deepstackVisualEmbeds : List τ
  storageBytes : ℕ
deriving DecidableEq, Repr

structure PerImageVisualEmbeddingHostCache (κ τ : Type) where
  maxBytes : ℕ
  entries : OrderedDict κ (VisualEmbeddingCacheEntry τ)
  residentBytes : ℤ
  hits : ℕ
  misses : ℕ
  evictions : ℕ
  oversizeSkips : ℕ

inductive HostCacheError
  | maxBytesNotPositive (maxBytes : ℤ)
deriving DecidableEq, Repr

def storageBytes (nbytes : τ → ℕ) (visualEmbeds : τ) (deepstackVisualEmbeds : List τ) : ℕ :=
  ((visualEmbeds :: deepstackVisualEmbeds).map nbytes).sum

namespace PerImageVisualEmbeddingHostCache

def new (maxBytes : ℤ) : Except HostCacheError (PerImageVisualEmbeddingHostCache κ τ) :=
  if maxBytes ≤ 0 then .error (.maxBytesNotPositive maxBytes)
  else .ok
    { maxBytes := maxBytes.toNat
      entries := []
      residentBytes := 0
      hits := 0
      misses := 0
      evictions := 0
      oversizeSkips := 0 }

def lookup (cache : PerImageVisualEmbeddingHostCache κ τ) (key : κ) :
    Option (VisualEmbeddingCacheEntry τ) × PerImageVisualEmbeddingHostCache κ τ :=
  match cache.entries.get? key with
  | none => (none, cache)
  | some entry =>
    (some entry, { cache with entries := cache.entries.moveToEnd key, hits := cache.hits + 1 })

/-- The `while` loop of `store`: the items left, the resident bytes and the evictions. -/
def evictLoop (maxBytes storageBytes : ℕ) :
    OrderedDict κ (VisualEmbeddingCacheEntry τ) → ℤ → ℕ →
      OrderedDict κ (VisualEmbeddingCacheEntry τ) × ℤ × ℕ
  | [], resident, evictions => ([], resident, evictions)
  | item :: entries, resident, evictions =>
    if resident + storageBytes > maxBytes then
      evictLoop maxBytes storageBytes entries (resident - item.2.storageBytes) (evictions + 1)
    else (item :: entries, resident, evictions)

def store (nbytes : τ → ℕ) (cache : PerImageVisualEmbeddingHostCache κ τ) (key : κ)
    (visualEmbeds : τ) (deepstackVisualEmbeds : List τ) :
    PerImageVisualEmbeddingHostCache κ τ :=
  let bytes := storageBytes nbytes visualEmbeds deepstackVisualEmbeds
  let cache := { cache with misses := cache.misses + 1 }
  if bytes > cache.maxBytes then { cache with oversizeSkips := cache.oversizeSkips + 1 }
  else
    let (entries, resident, evictions) :=
      evictLoop cache.maxBytes bytes cache.entries cache.residentBytes cache.evictions
    { cache with
      entries := entries.setItem key ⟨visualEmbeds, deepstackVisualEmbeds, bytes⟩
      residentBytes := resident + bytes
      evictions := evictions }

def clear (cache : PerImageVisualEmbeddingHostCache κ τ) :
    PerImageVisualEmbeddingHostCache κ τ :=
  { cache with entries := [], residentBytes := 0 }

end PerImageVisualEmbeddingHostCache

inductive HostCacheOp (κ τ : Type)
  | lookup (key : κ)
  | store (key : κ) (visualEmbeds : τ) (deepstackVisualEmbeds : List τ)
  | clear

namespace PerImageVisualEmbeddingHostCache

def step (nbytes : τ → ℕ) (cache : PerImageVisualEmbeddingHostCache κ τ) :
    HostCacheOp κ τ → PerImageVisualEmbeddingHostCache κ τ
  | .lookup key => (cache.lookup key).2
  | .store key visualEmbeds deepstackVisualEmbeds =>
    cache.store nbytes key visualEmbeds deepstackVisualEmbeds
  | .clear => cache.clear

/-- The keys an operation uses: a hit, or a store of an entry that fits. -/
def uses (nbytes : τ → ℕ) (cache : PerImageVisualEmbeddingHostCache κ τ) :
    HostCacheOp κ τ → List κ
  | .lookup key => if (cache.entries.get? key).isSome then [key] else []
  | .store key visualEmbeds deepstackVisualEmbeds =>
    if storageBytes nbytes visualEmbeds deepstackVisualEmbeds > cache.maxBytes then []
    else [key]
  | .clear => []

/-! ## Accounting -/

/-- The accounting of a cache whose keys were used in the order of `used`. -/
structure Accounted (cache : PerImageVisualEmbeddingHostCache κ τ) (used : List κ) :
    Prop where
  bytes : cache.residentBytes = cache.entries.weight (·.storageBytes)
  bound : cache.residentBytes ≤ cache.maxBytes
  recent : cache.entries.map (·.1) <:+ used.dedup

/-- A fitting entry is held after its store, with every suffix of the older entries that
fits beside it. -/
def Retains (nbytes : τ → ℕ) (cache : PerImageVisualEmbeddingHostCache κ τ) :
    HostCacheOp κ τ → Prop
  | .store key visualEmbeds deepstackVisualEmbeds =>
    let bytes := storageBytes nbytes visualEmbeds deepstackVisualEmbeds
    let stored := cache.store nbytes key visualEmbeds deepstackVisualEmbeds
    bytes ≤ cache.maxBytes →
      stored.entries.get? key = some ⟨visualEmbeds, deepstackVisualEmbeds, bytes⟩ ∧
      ∀ kept : OrderedDict κ (VisualEmbeddingCacheEntry τ), kept <:+ cache.entries →
        kept.weight (·.storageBytes) + bytes ≤ cache.maxBytes →
        kept.map (·.1) ⊆ stored.entries.map (·.1)
  | _ => True

/-- An entry that fits is stored under a key that is not held, or that the evictions for it
drop, or whose entry is the newest and empty. -/
def FreshStore (nbytes : τ → ℕ) (cache : PerImageVisualEmbeddingHostCache κ τ) :
    HostCacheOp κ τ → Prop
  | .store key visualEmbeds deepstackVisualEmbeds =>
    let bytes := storageBytes nbytes visualEmbeds deepstackVisualEmbeds
    let held := cache.entries.startingAt key
    cache.maxBytes < bytes ∨ held = [] ∨
      cache.maxBytes < held.weight (·.storageBytes) + bytes ∨
      (held.length = 1 ∧ held.weight (·.storageBytes) = 0)
  | _ => True

/-- `P` of the cache before every operation of a run, with the keys used so far. -/
def Along (nbytes : τ → ℕ)
    (P : PerImageVisualEmbeddingHostCache κ τ → List κ → HostCacheOp κ τ → Prop) :
    PerImageVisualEmbeddingHostCache κ τ → List κ → List (HostCacheOp κ τ) → Prop
  | _, _, [] => True
  | cache, used, op :: ops =>
    P cache used op ∧ Along nbytes P (cache.step nbytes op) (used ++ cache.uses nbytes op) ops

variable {nbytes : τ → ℕ} {cache : PerImageVisualEmbeddingHostCache κ τ} {used : List κ}

theorem Accounted.nodup (h : Accounted cache used) : (cache.entries.map (·.1)).Nodup :=
  RecentUse.nodup_of_suffix h.recent

omit [DecidableEq κ] in
/-- The loop drops the oldest items, and no more of them than it has to. -/
theorem evictLoop_spec (maxBytes bytes : ℕ)
    (entries : OrderedDict κ (VisualEmbeddingCacheEntry τ)) (evictions : ℕ)
    (hbytes : bytes ≤ maxBytes) :
    ∃ n, (evictLoop maxBytes bytes entries (entries.weight (·.storageBytes)) evictions).1 =
        entries.drop n ∧
      (evictLoop maxBytes bytes entries (entries.weight (·.storageBytes)) evictions).2.1 =
        (OrderedDict.weight (·.storageBytes) (entries.drop n) : ℕ) ∧
      OrderedDict.weight (·.storageBytes) (entries.drop n) + bytes ≤ maxBytes ∧
      ∀ m < n, maxBytes < OrderedDict.weight (·.storageBytes) (entries.drop m) + bytes := by
  induction entries generalizing evictions with
  | nil => exact ⟨0, rfl, rfl, by simpa [OrderedDict.weight] using hbytes, by omega⟩
  | cons item entries ih =>
    have hweight := OrderedDict.weight_cons (·.storageBytes) item entries
    have hrest : (OrderedDict.weight (·.storageBytes) (item :: entries) : ℤ) -
        item.2.storageBytes = OrderedDict.weight (·.storageBytes) entries := by
      rw [hweight]
      push_cast
      ring
    rw [evictLoop]
    split
    · next hover =>
      obtain ⟨n, hentries, hresident, hfits, hneed⟩ := ih (evictions + 1)
      rw [hrest]
      refine ⟨n + 1, hentries, hresident, hfits, ?_⟩
      intro m hm
      cases m with
      | zero => rw [List.drop_zero]; omega
      | succ m => exact hneed m (by omega)
    · next hfits => exact ⟨0, rfl, rfl, by rw [List.drop_zero]; omega, by omega⟩

/-- What a store of an entry that fits leaves. -/
theorem store_spec (key : κ) {visualEmbeds : τ} {deepstackVisualEmbeds : List τ}
    (hacc : Accounted cache used)
    (hbytes : storageBytes nbytes visualEmbeds deepstackVisualEmbeds ≤ cache.maxBytes) :
    ∃ n, let bytes := storageBytes nbytes visualEmbeds deepstackVisualEmbeds
      let room : OrderedDict κ (VisualEmbeddingCacheEntry τ) := cache.entries.drop n
      let stored := cache.store nbytes key visualEmbeds deepstackVisualEmbeds
      stored.maxBytes = cache.maxBytes ∧
      stored.entries = room.setItem key ⟨visualEmbeds, deepstackVisualEmbeds, bytes⟩ ∧
      stored.residentBytes = (room.weight (·.storageBytes) + bytes : ℕ) ∧
      room.weight (·.storageBytes) + bytes ≤ cache.maxBytes ∧
      ∀ m < n, cache.maxBytes <
        OrderedDict.weight (·.storageBytes) (cache.entries.drop m) + bytes := by
  obtain ⟨n, hentries, hresident, hfits, hneed⟩ :=
    evictLoop_spec cache.maxBytes (storageBytes nbytes visualEmbeds deepstackVisualEmbeds)
      cache.entries cache.evictions hbytes
  rw [← hacc.bytes] at hentries hresident
  refine ⟨n, ?_⟩
  simp only [store, if_neg (Nat.not_lt.mpr hbytes), hentries, hresident]
  refine ⟨trivial, trivial, ?_, hfits, hneed⟩
  push_cast
  rfl

/-- The key stays held exactly where its suffix of the items fits beside the new entry. -/
theorem held_after_evictions {key : κ} {bytes n : ℕ} (hacc : Accounted cache used)
    (hfits : OrderedDict.weight (·.storageBytes) (cache.entries.drop n) + bytes ≤
      cache.maxBytes)
    (hkey : key ∈ (cache.entries.drop n).map (·.1)) :
    cache.entries.startingAt key = OrderedDict.startingAt (cache.entries.drop n) key ∧
      ¬cache.maxBytes <
        (cache.entries.startingAt key).weight (·.storageBytes) + bytes := by
  have hnodup := hacc.nodup
  rw [← List.take_append_drop n cache.entries, List.map_append, List.nodup_append] at hnodup
  have hbefore : key ∉ (cache.entries.take n).map (·.1) :=
    fun hmem => hnodup.2.2 key hmem key hkey rfl
  have hstart : cache.entries.startingAt key =
      OrderedDict.startingAt (cache.entries.drop n) key := by
    conv_lhs => rw [← List.take_append_drop n cache.entries]
    exact OrderedDict.startingAt_append hbefore
  refine ⟨hstart, ?_⟩
  have hle := OrderedDict.weight_startingAt_le (·.storageBytes) (cache.entries.drop n) key
  rw [hstart]
  omega

theorem dropped_by_evictions {key : κ} {bytes n : ℕ}
    (hneed : ∀ m < n, cache.maxBytes <
      OrderedDict.weight (·.storageBytes) (cache.entries.drop m) + bytes)
    (hkey : key ∉ (cache.entries.drop n).map (·.1)) :
    cache.entries.startingAt key = [] ∨
      cache.maxBytes < (cache.entries.startingAt key).weight (·.storageBytes) + bytes := by
  cases hget : cache.entries.get? key with
  | none => exact .inl (OrderedDict.startingAt_eq_nil (OrderedDict.get?_eq_none.mp hget))
  | some old =>
    obtain ⟨before, after, hentries, hstart, hnot⟩ := OrderedDict.split_startingAt hget
    have hdrop : cache.entries.startingAt key = cache.entries.drop before.length := by
      rw [hstart, hentries, List.drop_left]
    have hlt : before.length < n := by
      by_contra hge
      apply hkey
      have hsub : cache.entries.drop before.length <:+ cache.entries.drop n := by
        rw [show before.length = n + (before.length - n) by omega, ← List.drop_drop]
        exact List.drop_suffix _ _
      rw [← hdrop, hstart] at hsub
      exact List.mem_map.mpr ⟨_, hsub.subset List.mem_cons_self, rfl⟩
    right
    rw [hdrop]
    exact hneed _ hlt

omit [DecidableEq κ] in
theorem map_keys_drop_suffix {keys : List κ} (n : ℕ) (h : cache.entries.map (·.1) <:+ keys) :
    (cache.entries.drop n).map (·.1) <:+ keys :=
  ((List.drop_suffix n cache.entries).map _).trans h

theorem keys_filter_of_notMem {keys : List κ} {key : κ} (h : key ∉ keys) :
    keys.filter (· ≠ key) = keys := by
  apply List.filter_eq_self.mpr
  intro other hother
  rw [decide_eq_true_eq]
  rintro rfl
  exact h hother

omit [DecidableEq κ] in
theorem newest_of_getLast? {α : Type} {before after : OrderedDict κ α} {key : κ} {old new : α}
    (hnodup : ((before ++ (key, old) :: after).map (·.1)).Nodup)
    (hlast : ((before ++ (key, new) :: after).map (·.1)).getLast? = some key) :
    after = [] := by
  by_contra hne
  simp only [List.map_append, List.map_cons, List.nodup_append, List.nodup_cons] at hnodup
  rw [List.map_append, List.map_cons, List.getLast?_append_of_ne_nil _ (by simp),
    List.getLast?_cons_of_ne_nil (by simpa using hne)] at hlast
  exact hnodup.2.1.1 (List.mem_of_getLast? hlast)

/-- A store of a fitting entry keeps the accounting exactly where it is fresh. -/
theorem store_accounted_iff {key : κ} {visualEmbeds : τ} {deepstackVisualEmbeds : List τ}
    (hacc : Accounted cache used)
    (hbytes : storageBytes nbytes visualEmbeds deepstackVisualEmbeds ≤ cache.maxBytes) :
    Accounted (cache.store nbytes key visualEmbeds deepstackVisualEmbeds) (used ++ [key]) ↔
      FreshStore nbytes cache (.store key visualEmbeds deepstackVisualEmbeds) := by
  obtain ⟨n, hmax, hentries, hresident, hfits, hneed⟩ :=
    store_spec key hacc hbytes
  have hroom := map_keys_drop_suffix n hacc.recent
  by_cases hkey : key ∈ (cache.entries.drop n).map (·.1)
  · -- the key survives the evictions, its entry is overwritten in place
    obtain ⟨hstart, hover⟩ := held_after_evictions hacc hfits hkey
    obtain ⟨old, hget⟩ := Option.ne_none_iff_exists'.mp
      (mt OrderedDict.get?_eq_none.mp (not_not_intro hkey))
    obtain ⟨before, after, hsplit, hfrom, hnot⟩ := OrderedDict.split_startingAt hget
    have hnodup := hacc.nodup.sublist ((List.drop_sublist n cache.entries).map _)
    rw [hsplit] at hentries hresident hroom hnodup hfits hget
    rw [OrderedDict.setItem_of_get? hget, OrderedDict.update_of_split _ hnodup] at hentries
    rw [hstart, hfrom] at hover
    rw [FreshStore, hstart, hfrom]
    simp only [OrderedDict.weight_append, OrderedDict.weight_cons] at hresident hfits hover ⊢
    constructor
    · intro hafter
      have hbytes' := hafter.bytes
      rw [hresident, hentries, OrderedDict.weight_append, OrderedDict.weight_cons] at hbytes'
      have hlast := hafter.recent
      rw [hentries] at hlast
      replace hlast := RecentUse.getLast?_of_suffix hlast (by simp)
      have hnewest := newest_of_getLast? hnodup hlast
      subst hnewest
      refine .inr (.inr (.inr ⟨rfl, ?_⟩))
      simp only [OrderedDict.weight, List.map_nil, List.sum_nil] at hbytes' ⊢
      omega
    · rintro (h | h | h | ⟨hone, hzero⟩)
      · omega
      · simp at h
      · omega
      · obtain rfl : after = [] := by simpa using hone
        have hsuffix := RecentUse.suffix_use key hroom
        rw [List.map_append, List.filter_append, keys_filter_of_notMem hnot] at hsuffix
        refine ⟨?_, ?_, ?_⟩
        · rw [hresident, hentries, OrderedDict.weight_append, OrderedDict.weight_cons]
          push_cast
          omega
        · rw [hresident, hmax]
          exact_mod_cast hfits
        · rw [hentries, List.map_append]
          simpa using hsuffix
  · have hfresh := dropped_by_evictions hneed hkey
    have hsuffix := RecentUse.suffix_use key hroom
    rw [keys_filter_of_notMem hkey] at hsuffix
    refine iff_of_true ⟨?_, ?_, ?_⟩ ?_
    · rw [hresident, hentries, OrderedDict.setItem_of_notMem hkey, OrderedDict.weight_append]
      simp [OrderedDict.weight]
    · rw [hresident, hmax]
      exact_mod_cast hfits
    · rw [hentries, OrderedDict.setItem_of_notMem hkey, List.map_append]
      exact hsuffix
    · rcases hfresh with h | h
      · exact .inr (.inl h)
      · exact .inr (.inr (.inl h))

theorem retains (hacc : Accounted cache used) (op : HostCacheOp κ τ) :
    Retains nbytes cache op := by
  cases op with
  | lookup key => trivial
  | clear => trivial
  | store key visualEmbeds deepstackVisualEmbeds =>
    intro hbytes
    obtain ⟨n, _, hentries, _, _, hneed⟩ := store_spec key hacc hbytes
    refine ⟨?_, ?_⟩
    · rw [hentries]
      exact OrderedDict.get?_setItem
    · intro kept hkept hfits
      obtain ⟨older, hsplit⟩ := hkept
      have hdrop : kept = cache.entries.drop older.length := by
        rw [← hsplit, List.drop_left]
      have hle : n ≤ older.length := by
        by_contra hlt
        have := hneed older.length (by omega)
        rw [← hdrop] at this
        omega
      have hsub : kept <:+ cache.entries.drop n := by
        rw [hdrop, show older.length = n + (older.length - n) by omega, ← List.drop_drop]
        exact List.drop_suffix _ _
      rw [hentries]
      exact List.Subset.trans (hsub.map _).subset OrderedDict.keys_subset_setItem

theorem lookup_accounted (hacc : Accounted cache used) (key : κ) :
    Accounted (cache.lookup key).2 (used ++ cache.uses nbytes (.lookup key)) := by
  rw [uses]
  cases hget : cache.entries.get? key with
  | none =>
    rw [lookup, hget]
    simpa using hacc
  | some entry =>
    have hkeys : (cache.entries.moveToEnd key).map (·.1) =
        (cache.entries.map (·.1)).filter (· ≠ key) ++ [key] :=
      OrderedDict.keys_moveToEnd hacc.nodup hget
    rw [lookup, hget, Option.isSome_some, if_pos rfl]
    refine ⟨?_, ?_, ?_⟩
    · rw [hacc.bytes]
      simp only [OrderedDict.weight_moveToEnd]
    · exact hacc.bound
    · simp only [hkeys]
      exact RecentUse.suffix_use key hacc.recent

theorem clear_accounted (used : List κ) : Accounted cache.clear used where
  bytes := by simp [clear, OrderedDict.weight]
  bound := by simp [clear]
  recent := List.nil_suffix

theorem step_accounted_iff (hacc : Accounted cache used) (op : HostCacheOp κ τ) :
    Accounted (cache.step nbytes op) (used ++ cache.uses nbytes op) ↔
      FreshStore nbytes cache op := by
  cases op with
  | lookup key => exact iff_of_true (lookup_accounted hacc key) trivial
  | clear =>
    rw [uses, List.append_nil]
    exact iff_of_true (clear_accounted used) trivial
  | store key visualEmbeds deepstackVisualEmbeds =>
    rw [uses]
    split
    · next hover =>
      refine iff_of_true ?_ (.inl hover)
      rw [List.append_nil, step, store, if_pos hover]
      exact ⟨hacc.bytes, hacc.bound, hacc.recent⟩
    · next hfits => exact store_accounted_iff hacc (Nat.not_lt.mp hfits)

theorem along_iff (hacc : Accounted cache used) (ops : List (HostCacheOp κ τ)) :
    Along nbytes (fun cache used op =>
        Accounted (cache.step nbytes op) (used ++ cache.uses nbytes op) ∧
          Retains nbytes cache op) cache used ops ↔
      Along nbytes (fun cache _ op => FreshStore nbytes cache op) cache used ops := by
  induction ops generalizing cache used with
  | nil => exact Iff.rfl
  | cons op ops ih =>
    have hstep : Accounted (cache.step nbytes op) (used ++ cache.uses nbytes op) ↔
      FreshStore nbytes cache op := step_accounted_iff hacc op
    simp only [Along]
    constructor
    · rintro ⟨⟨hnext, _⟩, hrest⟩
      exact ⟨hstep.mp hnext, (ih hnext).mp hrest⟩
    · rintro ⟨hfresh, hrest⟩
      have hnext := hstep.mpr hfresh
      exact ⟨⟨hnext, retains hacc op⟩, (ih hnext).mpr hrest⟩

theorem new_accounted {maxBytes : ℤ} (h : new maxBytes = .ok cache) : Accounted cache [] := by
  unfold new at h
  split at h
  · cases h
  · cases h
    exact ⟨rfl, Int.natCast_nonneg _, List.nil_suffix⟩

/-- Over a run the accounting holds at every step exactly where every store is fresh. -/
theorem resident_bytes_exact_iff (maxBytes : ℤ) (h : new maxBytes = .ok cache)
    (ops : List (HostCacheOp κ τ)) :
    Along nbytes (fun cache used op =>
        Accounted (cache.step nbytes op) (used ++ cache.uses nbytes op) ∧
          Retains nbytes cache op) cache [] ops ↔
      Along nbytes (fun cache _ op => FreshStore nbytes cache op) cache [] ops :=
  along_iff (new_accounted h) ops

/-- Two images, and one more that needs the room of both. -/
theorem resident_bytes_exact_three :
    ∃ cache : PerImageVisualEmbeddingHostCache ℕ ℕ, new 16 = .ok cache ∧
      let ops : List (HostCacheOp ℕ ℕ) := [.store 0 8 [], .store 1 8 [], .lookup 0, .store 2 9 []]
      Along id (fun cache used op =>
        Accounted (cache.step id op) (used ++ cache.uses id op) ∧ Retains id cache op)
        cache [] ops :=
  ⟨_, rfl, (resident_bytes_exact_iff 16 rfl _).mpr
    ⟨.inr (.inl rfl), .inr (.inl rfl), trivial, .inr (.inl rfl), trivial⟩⟩

/-- A request with the same image twice stores its key twice. -/
theorem resident_bytes_drift :
    ∃ cache : PerImageVisualEmbeddingHostCache ℕ ℕ, new 16 = .ok cache ∧
      let ops : List (HostCacheOp ℕ ℕ) := [.store 0 8 [], .store 0 8 []]
      (ops.foldl (step id) cache).residentBytes = 16 ∧
      (ops.foldl (step id) cache).entries.weight (·.storageBytes) = 8 ∧
      ¬Along id (fun cache used op =>
        Accounted (cache.step id op) (used ++ cache.uses id op) ∧ Retains id cache op)
        cache [] ops := by
  refine ⟨_, rfl, rfl, rfl, ?_⟩
  rintro ⟨_, ⟨⟨hbytes, _, _⟩, _⟩, _⟩
  exact absurd hbytes (by decide)

end PerImageVisualEmbeddingHostCache

end PrismInfer
