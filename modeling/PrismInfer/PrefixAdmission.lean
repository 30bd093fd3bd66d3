import PrismInfer.ReclaimAccounting

/-!
# Admission of prefix entries

`store_multimodal_prefix` makes room entry by entry, each time only for an entry that is
worth more per page than the one it evicts. What it gave up stays given up where a later
entry turns out to be worth more: as in `_ensure_free_blocks`, nothing is put back.
-/
set_option linter.unusedSectionVars false

namespace PrismInfer
open StateExcept GpuBlockPool

variable {H : Type} [DecidableEq H] [Digests H]

namespace BlockManager

variable {others : Others} {t t' : ManagerState H} {u : Unit} {utility : ℚ}
  {cacheId : CacheId} {entry : MultimodalPrefixCacheEntry}

/-- A reclaim step that evicts no entry worth as much as the candidate. -/
def OutbidStep (utility : ℚ) (t t' : ManagerState H) : Prop :=
  ReclaimStep none t t' ∧ ∀ cacheId entry, t.cache.get? cacheId = some entry →
    t'.cache.get? cacheId = none → entry.benefitPerBlock < utility

abbrev Outbid (utility : ℚ) : ManagerState H → ManagerState H → Prop :=
  Relation.ReflTransGen (OutbidStep utility)

/-- The moment at which a run of such steps evicts an entry, and what the entry is then. -/
structure EvictedAt (utility : ℚ) (cacheId : CacheId) (t t' mid after : ManagerState H)
    (evicted : MultimodalPrefixCacheEntry) : Prop where
  before : Outbid utility t mid
  step : OutbidStep utility mid after
  rest : Outbid utility after t'
  stored : mid.cache.get? cacheId = some evicted
  gone : after.cache.get? cacheId = none
  worth : evicted.benefitPerBlock < utility

/-- No clone is idle, and no entry is worth less than the candidate. -/
structure NothingCheaper (utility : ℚ) (manager : BlockManager H) : Prop where
  clones : manager.droppableTailClone none = none
  entries : ∀ item ∈ manager.multimodalPrefixCache, utility ≤ item.2.benefitPerBlock

theorem outbid_reclaimed (h : Outbid utility t t') : Reclaimed none t t' :=
  Relation.ReflTransGen.mono (fun _ _ step => step.1) _ _ h

/-- `entry'` is `entry` without some of its tail clones, each of them a page that no block
table holds. -/
structure Trimmed (tables : List ℕ) (entry entry' : MultimodalPrefixCacheEntry) : Prop where
  clones : entry'.tailCloneBlockIds.Sublist entry.tailCloneBlockIds
  same : entry' = { entry with tailCloneBlockIds := entry'.tailCloneBlockIds }
  idle : ∀ b ∈ entry.tailCloneBlockIds, b ∉ entry'.tailCloneBlockIds → b ∉ tables

theorem Trimmed.refl (tables : List ℕ) (entry : MultimodalPrefixCacheEntry) :
    Trimmed tables entry entry :=
  ⟨List.Sublist.refl _, rfl, fun _ hb hnot => absurd hb hnot⟩

theorem Trimmed.trans {tables : List ℕ} {entry mid entry' : MultimodalPrefixCacheEntry}
    (h : Trimmed tables entry mid) (h' : Trimmed tables mid entry') :
    Trimmed tables entry entry' where
  clones := h'.clones.trans h.clones
  same := by
    rw [h'.same, h.same]
  idle := fun b hb hnot => by
    by_cases hmid : b ∈ mid.tailCloneBlockIds
    · exact h'.idle b hmid hnot
    · exact h.idle b hb hmid

/-- What a reclaim step leaves of the entries that stay. -/
theorem trimmed_step {seqs : List (Sequence H)}
    (h : FleetAccounts Others.none t.manager seqs) (hstep : ReclaimStep none t t')
    (hentry : t'.cache.get? cacheId = some entry) :
    ∃ before, t.cache.get? cacheId = some before ∧
      Trimmed (seqs.flatMap (·.blockTable)) before entry := by
  cases hstep with
  | @evict evicted _ pool _ _ _ _ =>
    have hne : cacheId ≠ evicted := by
      rintro rfl
      simp only [ManagerState.cache, ManagerState.setCache, get?_remove_self] at hentry
      exact absurd hentry (by simp)
    simp only [ManagerState.cache, ManagerState.setCache] at hentry
    rw [OrderedDict.get?_remove_of_ne hne] at hentry
    exact ⟨entry, hentry, .refl _ entry⟩
  | @dropClone trimmed before id pool _ hbefore hid hidle _ _ =>
    simp only [ManagerState.cache, ManagerState.setCache] at hentry hbefore
    rw [OrderedDict.get?_update] at hentry
    obtain ⟨old, hold, rfl⟩ := Option.map_eq_some_iff.mp hentry
    refine ⟨old, hold, ?_⟩
    split
    · next hid' =>
      subst hid'
      obtain rfl : old = before := Option.some.inj (hold.symm.trans hbefore)
      refine ⟨List.erase_sublist, rfl, fun b hb hnot htable => ?_⟩
      obtain rfl : b = id := by
        by_contra hne
        exact hnot ((List.mem_erase_of_ne hne).mpr hb)
      have hrefs := h.refs b
      have htables : 0 < (seqs.flatMap (·.blockTable)).count b := List.count_pos_iff.mpr htable
      have hpages : 0 < t.manager.multimodalPrefixCache.pages.count b := by
        refine List.count_pos_iff.mpr (PrefixCache.mem_pages.mpr
          ⟨_, OrderedDict.mem_of_get? hbefore, ?_⟩)
        exact List.mem_append_right _ hid
      have hone : (t.manager.gpuPool.blocks b).refCount = 1 := hidle
      omega
    · exact .refl _ old

section Chain

variable {manager : BlockManager H} {left right : List (Sequence H)} {seq : Sequence H}

theorem trimmed_chain (h : FleetAccounts Others.none manager (left ++ seq :: right))
    (hr : Reclaimed none ⟨manager, seq⟩ t') (hentry : t'.cache.get? cacheId = some entry) :
    ∃ before, manager.multimodalPrefixCache.get? cacheId = some before ∧
      Trimmed ((left ++ seq :: right).flatMap (·.blockTable)) before entry := by
  induction hr generalizing entry with
  | refl => exact ⟨entry, hentry, .refl _ entry⟩
  | tail hmid hlast ih =>
    obtain ⟨mid, hget, hlater⟩ := trimmed_step (Reclaimed.keeps h hmid).2.accounts hlast hentry
    obtain ⟨before, hbefore, hearlier⟩ := ih hget
    exact ⟨before, hbefore, hearlier.trans hlater⟩

/-- An entry that is gone was evicted at some moment, without the clones that were dropped
before it, and was then worth less than the candidate. -/
theorem lost_chain (h : FleetAccounts Others.none manager (left ++ seq :: right))
    (hr : Outbid utility ⟨manager, seq⟩ t')
    (hentry : manager.multimodalPrefixCache.get? cacheId = some entry)
    (hgone : t'.cache.get? cacheId = none) :
    ∃ mid after evicted, EvictedAt utility cacheId ⟨manager, seq⟩ t' mid after evicted ∧
      Trimmed ((left ++ seq :: right).flatMap (·.blockTable)) entry evicted := by
  induction hr with
  | refl => exact absurd (hentry.symm.trans hgone) (by simp)
  | @tail mid t' hmid hlast ih =>
    cases hget : mid.cache.get? cacheId with
    | none =>
      obtain ⟨mid', after, evicted, hevicted, htrimmed⟩ := ih hget
      exact ⟨mid', after, evicted, { hevicted with rest := hevicted.rest.tail hlast }, htrimmed⟩
    | some evicted =>
      obtain ⟨before, hbefore, htrimmed⟩ := trimmed_chain h (outbid_reclaimed hmid) hget
      obtain rfl : before = entry := Option.some.inj (hbefore.symm.trans hentry)
      have hworth := hlast.2 cacheId evicted hget hgone
      exact ⟨mid, t', evicted, ⟨hmid, hlast, .refl, hget, hgone, hworth⟩, htrimmed⟩

end Chain

/-! ### The loop -/

theorem dropIdleTailClone_keys {protectedId : Option CacheId} {dropped : Bool}
    (h : dropIdleTailClone protectedId t = .ok dropped t') :
    t'.cache.map (·.1) = t.cache.map (·.1) := by
  simp only [dropIdleTailClone, bind_ok, readManager_ok] at h
  obtain ⟨_, _, ⟨rfl, rfl⟩, h⟩ := h
  cases hdrop : t.manager.droppableTailClone protectedId with
  | none =>
    simp only [hdrop, pure_ok] at h
    rw [h.2]
  | some found =>
    obtain ⟨cacheId, id⟩ := found
    simp only [hdrop, bind_ok, modifyManager_ok, gpu_ok, pure_ok] at h
    obtain ⟨_, _, rfl, _, _, ⟨pool, _, rfl⟩, _, _, rfl, _, rfl⟩ := h
    simp only [ManagerState.cache, ManagerState.setPool, OrderedDict.keys_update]

theorem evictMultimodalPrefix_cache (h : evictMultimodalPrefix cacheId t = .ok u t') :
    t'.cache = t.cache.remove cacheId := by
  simp only [evictMultimodalPrefix, bind_ok, readManager_ok] at h
  obtain ⟨_, _, ⟨rfl, rfl⟩, h⟩ := h
  cases hget : t.cache.get? cacheId with
  | none => simp [hget] at h
  | some entry =>
    simp only [hget, bind_ok, modifyManager_ok, forEach_gpu_ok] at h
    obtain ⟨_, _, rfl, _, _, ⟨pool, _, rfl⟩, rfl⟩ := h
    rfl

theorem dropClone_outbid (hl : Ledger others t) (h : dropIdleTailClone none t = .ok true t') :
    OutbidStep utility t t' := by
  rcases dropIdleTailClone_ok hl h with ⟨hfalse, -⟩ | ⟨-, hstep⟩
  · exact absurd hfalse (by simp)
  refine ⟨hstep, fun cacheId entry hentry hgone => ?_⟩
  rw [OrderedDict.get?_eq_none, dropIdleTailClone_keys h, ← OrderedDict.get?_eq_none] at hgone
  exact absurd (hentry.symm.trans hgone) (by simp)

theorem evict_outbid (hl : Ledger others t) (hentry : t.cache.get? cacheId = some entry)
    (hworth : entry.benefitPerBlock < utility)
    (h : evictMultimodalPrefix cacheId t = .ok u t') : OutbidStep utility t t' := by
  refine ⟨evictMultimodalPrefix_ok hl (by simp) h, fun other lost hlost hgone => ?_⟩
  by_cases hother : other = cacheId
  · subst hother
    obtain rfl : lost = entry := Option.some.inj (hlost.symm.trans hentry)
    exact hworth
  · rw [evictMultimodalPrefix_cache h, OrderedDict.get?_remove_of_ne hother, hlost] at hgone
    exact absurd hgone (by simp)

theorem makeRoomLoop_outbid {prefixBlocks fuel : ℕ} {fits : Bool} (hl : Ledger others t)
    (h : makeRoomLoop prefixBlocks utility fuel t = .ok fits t') : Outbid utility t t' := by
  induction fuel generalizing t with
  | zero =>
    simp only [makeRoomLoop, bind_ok, readManager_ok, pure_ok] at h
    obtain ⟨_, _, ⟨rfl, rfl⟩, -, rfl⟩ := h
    exact .refl
  | succ fuel ih =>
    simp only [makeRoomLoop, bind_ok, readManager_ok] at h
    obtain ⟨_, _, ⟨rfl, rfl⟩, h⟩ := h
    split at h
    · obtain ⟨-, rfl⟩ := pure_ok.mp h
      exact .refl
    · obtain ⟨dropped, mid, hdrop, hrest⟩ := bind_ok.mp h
      cases dropped with
      | true =>
        have hstep : OutbidStep utility t mid := dropClone_outbid hl hdrop
        exact .head hstep (ih (hl.reclaim hstep.1) (by simpa using hrest))
      | false =>
        obtain ⟨-, rfl, -⟩ | ⟨htrue, -⟩ := dropIdleTailClone_ok hl hdrop
        swap
        · exact absurd htrue (by simp)
        simp only [Bool.false_eq_true, if_false, bind_ok, readManager_ok] at hrest
        obtain ⟨_, _, ⟨rfl, rfl⟩, hrest⟩ := hrest
        cases hc : mid.manager.evictionCandidate none with
        | none =>
          simp only [hc, pure_ok] at hrest
          obtain ⟨-, rfl⟩ := hrest
          exact .refl
        | some cacheId =>
          obtain ⟨-, entry, hentry⟩ := evictionCandidate_some hl.keys hc
          simp only [hc, hentry] at hrest
          split at hrest
          · obtain ⟨-, rfl⟩ := pure_ok.mp hrest
            exact .refl
          · next hworth =>
            simp only [bind_ok] at hrest
            obtain ⟨_, mid', hevict, hrest⟩ := hrest
            have hstep := evict_outbid hl hentry (not_le.mp hworth) hevict
            exact .head hstep (ih (hl.reclaim hstep.1) hrest)

theorem argminBy_le {α : Type} {f : α → ℚ} {a b : α} {l : List α} (h : argminBy f l = some a)
    (hb : b ∈ l) : f a ≤ f b := by
  induction l generalizing a with
  | nil => exact absurd hb List.not_mem_nil
  | cons c l ih =>
    simp only [argminBy] at h
    cases hrest : argminBy f l with
    | none =>
      obtain rfl := argminBy_eq_none.mp hrest
      simp only [hrest] at h
      obtain rfl := Option.some.inj h
      rw [List.mem_singleton.mp hb]
    | some d =>
      have hd : b ∈ l → f d ≤ f b := ih hrest
      simp only [hrest] at h
      split at h
      · next hle =>
        obtain rfl := Option.some.inj h
        rcases List.mem_cons.mp hb with rfl | hmem
        · exact le_rfl
        · exact hle.trans (hd hmem)
      · next hlt =>
        obtain rfl := Option.some.inj h
        rcases List.mem_cons.mp hb with rfl | hmem
        · exact (not_le.mp hlt).le
        · exact hd hmem

theorem evictionCandidate_le {m : BlockManager H} (hn : (m.multimodalPrefixCache.map (·.1)).Nodup)
    (h : m.evictionCandidate none = some cacheId)
    (hentry : m.multimodalPrefixCache.get? cacheId = some entry) :
    ∀ item ∈ m.multimodalPrefixCache, entry.benefitPerBlock ≤ item.2.benefitPerBlock := by
  intro item hitem
  obtain ⟨best, hbest, rfl⟩ := Option.map_eq_some_iff.mp h
  have hmem := (List.mem_filter.mp (argminBy_mem hbest)).1
  have hsame := Option.some.inj ((OrderedDict.get?_of_mem hn hmem).symm.trans hentry)
  rw [← hsame]
  have hkept : item ∈ m.multimodalPrefixCache.filter fun item => some item.1 ≠ none :=
    List.mem_filter.mpr ⟨hitem, decide_eq_true (Option.some_ne_none _)⟩
  exact argminBy_le (f := fun item => item.2.benefitPerBlock) hbest hkept

/-- Given a round for everything there is to give up, the loop answers `false` only where
nothing cheaper is left. -/
theorem makeRoomLoop_false {prefixBlocks fuel : ℕ} (hl : Ledger others t)
    (hfuel : t.manager.reclaimFuel ≤ fuel)
    (h : makeRoomLoop prefixBlocks utility fuel t = .ok false t') :
    NothingCheaper utility t'.manager := by
  induction fuel generalizing t with
  | zero =>
    rw [reclaimFuel_eq] at hfuel
    omega
  | succ fuel ih =>
    simp only [makeRoomLoop, bind_ok, readManager_ok] at h
    obtain ⟨_, _, ⟨rfl, rfl⟩, h⟩ := h
    split at h
    · exact absurd (pure_ok.mp h).1 (by simp)
    · obtain ⟨dropped, mid, hdrop, hrest⟩ := bind_ok.mp h
      obtain ⟨rfl, rfl, hnone⟩ | ⟨rfl, hstep⟩ := dropIdleTailClone_ok hl hdrop
      · simp only [Bool.false_eq_true, if_false, bind_ok, readManager_ok] at hrest
        obtain ⟨_, _, ⟨rfl, rfl⟩, hrest⟩ := hrest
        cases hc : mid.manager.evictionCandidate none with
        | none =>
          simp only [hc, pure_ok] at hrest
          obtain ⟨-, rfl⟩ := hrest
          refine ⟨hnone, fun item hitem => ?_⟩
          have hall := unprotected_of_exhausted ⟨hnone, hc⟩
          have hmem : item ∈ mid.manager.unprotected none :=
            List.mem_filter.mpr ⟨hitem, by simp⟩
          rw [hall] at hmem
          exact absurd hmem List.not_mem_nil
        | some cacheId =>
          obtain ⟨-, entry, hentry⟩ := evictionCandidate_some hl.keys hc
          simp only [hc, hentry] at hrest
          split at hrest
          · next hworth =>
            obtain ⟨-, rfl⟩ := pure_ok.mp hrest
            exact ⟨hnone, fun item hitem =>
              hworth.trans (evictionCandidate_le hl.keys hc hentry item hitem)⟩
          · simp only [bind_ok] at hrest
            obtain ⟨_, mid', hevict, hrest⟩ := hrest
            have hstep := evictMultimodalPrefix_ok hl (Option.some_ne_none cacheId) hevict
            have hless := reclaimFuel_step hl hstep
            exact ih (hl.reclaim hstep) (by omega) hrest
      · have hless := reclaimFuel_step hl hstep
        exact ih (hl.reclaim hstep) (by omega) (by simpa using hrest)

/-- Where no clone is idle and no entry is worth less than the candidate, the loop changes
nothing. -/
theorem makeRoomLoop_quiet {prefixBlocks fuel : ℕ} {fits : Bool} (hl : Ledger others t)
    (hquiet : NothingCheaper utility t.manager)
    (h : makeRoomLoop prefixBlocks utility fuel t = .ok fits t') : t' = t := by
  have houtbid := makeRoomLoop_outbid hl h
  rcases Relation.ReflTransGen.cases_head houtbid with rfl | ⟨mid, hfirst, -⟩
  · rfl
  obtain ⟨hstep, hlost⟩ := hfirst
  cases hstep with
  | @evict cacheId entry pool _ hentry _ _ =>
    have hless := hlost cacheId entry hentry get?_remove_self
    have := hquiet.entries _ (OrderedDict.mem_of_get? hentry)
    exact absurd hless (not_lt.mpr this)
  | @dropClone cacheId entry id pool _ hentry hid hrefs _ _ =>
    have hidle := hquiet.clones
    rw [droppableTailClone, List.findSome?_eq_none_iff] at hidle
    have hnone := hidle (cacheId, entry) (List.mem_filter.mpr
      ⟨OrderedDict.mem_of_get? hentry, by simp⟩)
    rw [Option.map_eq_none_iff, idleTailClone, List.find?_eq_none] at hnone
    have hbusy : ¬t.manager.refCount id = 1 := by simpa using hnone id hid
    exact absurd hrefs hbusy

/-! ### `store_multimodal_prefix` -/

/-- `boundary / prefix_blocks` of what the sequence would store. -/
def candidateUtility (manager : BlockManager H) (seq : Sequence H) : Option ℚ :=
  match seq.request.multimodalPrefixCacheKey, seq.request.multimodalPrefixBoundary with
  | some mediaKey, some boundary =>
    (manager.prefixEntryOf seq mediaKey boundary).map fun entry =>
      (boundary : ℚ) / pagesFor entry.physicalPrefixLen manager.blockSize
  | _, _ => none

/-- What a rejected store does: nothing, or it renews the entry that is there already, or it
makes room step by step until nothing is cheaper than the candidate. -/
inductive RejectedRun (seq : Sequence H) (utility : Option ℚ) (manager : BlockManager H) :
    BlockManager H → Prop
  | unchanged : RejectedRun seq utility manager manager
  | renewed {cacheId : CacheId} {entry : MultimodalPrefixCacheEntry}
      (hentry : manager.multimodalPrefixCache.get? cacheId = some entry) :
      RejectedRun seq utility manager { manager with
        multimodalPrefixCache := manager.multimodalPrefixCache.moveToEnd cacheId }
  | outbid {worth : ℚ} {manager' : BlockManager H} (hworth : utility = some worth)
      (hrun : Outbid worth ⟨manager, seq⟩ ⟨manager', seq⟩)
      (hstop : NothingCheaper worth manager') : RejectedRun seq utility manager manager'

/-- A rejected store of `seq`: each entry it gave up was worth less than the candidate at the
moment of its eviction, the others lost at most idle clones, references went with the entries,
and nothing changes where nothing is idle or worth less. -/
structure Rejected (seqs : List (Sequence H)) (seq : Sequence H) (utility : Option ℚ)
    (manager manager' : BlockManager H) : Prop where
  run : RejectedRun seq utility manager manager'
  lost : ∀ cacheId entry, manager.multimodalPrefixCache.get? cacheId = some entry →
    manager'.multimodalPrefixCache.get? cacheId = none →
    ∃ worth mid after evicted, utility = some worth ∧
      EvictedAt worth cacheId ⟨manager, seq⟩ ⟨manager', seq⟩ mid after evicted ∧
      Trimmed (seqs.flatMap (·.blockTable)) entry evicted
  stays : ∀ cacheId entry, manager'.multimodalPrefixCache.get? cacheId = some entry →
    ∃ before, manager.multimodalPrefixCache.get? cacheId = some before ∧
      Trimmed (seqs.flatMap (·.blockTable)) before entry
  accounts : FleetAccounts Others.none manager' seqs
  refs : ∀ b, manager'.refCount b + manager.multimodalPrefixCache.pages.count b =
    manager.refCount b + manager'.multimodalPrefixCache.pages.count b
  quiet : (∀ worth, utility = some worth → NothingCheaper worth manager) →
    manager'.multimodalPrefixCache.Perm manager.multimodalPrefixCache ∧
      manager'.gpuPool = manager.gpuPool ∧
      manager'.multimodalPrefixCacheBlocks = manager.multimodalPrefixCacheBlocks

/-- An accepted store: the entry is new, holds the pages of the sequence that cover its
prefix, and fits. -/
structure Stored (seqs : List (Sequence H)) (seq : Sequence H)
    (manager manager' : BlockManager H) : Prop where
  entry : ∃ cacheId mediaKey boundary entry,
    seq.request.multimodalPrefixCacheKey = some mediaKey ∧
      seq.request.multimodalPrefixBoundary = some boundary ∧
      manager.prefixEntryOf seq mediaKey boundary = some entry ∧
      manager.multimodalPrefixCache.get? cacheId = none ∧
      manager'.multimodalPrefixCache.get? cacheId = some entry ∧
      entry.pages = seq.blockTable.take (pagesFor entry.physicalPrefixLen manager.blockSize) ∧
      entry.pages.length = pagesFor entry.physicalPrefixLen manager.blockSize
  accounts : FleetAccounts Others.none manager' seqs
  total : manager'.multimodalPrefixCacheBlocks ≤ manager'.multimodalPrefixCacheMaxBlocks

section Store

variable {manager : BlockManager H} {left right : List (Sequence H)} {seq : Sequence H}

theorem Rejected.refl {seqs : List (Sequence H)} (utility : Option ℚ)
    (h : FleetAccounts Others.none manager seqs) : Rejected seqs seq utility manager manager where
  run := .unchanged
  lost := fun cacheId entry hentry hgone => absurd (hentry.symm.trans hgone) (by simp)
  stays := fun cacheId entry hentry => ⟨entry, hentry, .refl _ entry⟩
  accounts := h
  refs := fun _ => rfl
  quiet := fun _ => ⟨.refl _, rfl, rfl⟩

theorem moveToEnd_rejected {seqs : List (Sequence H)} {utility : Option ℚ}
    (h : FleetAccounts Others.none manager seqs)
    (hentry : manager.multimodalPrefixCache.get? cacheId = some entry) :
    Rejected seqs seq utility manager
      { manager with
        multimodalPrefixCache := manager.multimodalPrefixCache.moveToEnd cacheId } := by
  have hperm := OrderedDict.moveToEnd_perm manager.multimodalPrefixCache cacheId
  have hget : ∀ id, OrderedDict.get? (manager.multimodalPrefixCache.moveToEnd cacheId) id =
      manager.multimodalPrefixCache.get? id := OrderedDict.get?_perm h.keys hperm
  have hsame := PrefixCache.SameEntries.moveToEnd manager.multimodalPrefixCache cacheId
  refine ⟨.renewed hentry, fun id entry hentry hgone => ?_, fun id entry hentry => ?_,
    h.reorder hsame, fun b => ?_, fun _ => ⟨hperm, rfl, rfl⟩⟩
  · exact absurd (hentry.symm.trans ((hget id).symm.trans hgone)) (by simp)
  · exact ⟨entry, (hget id).symm.trans hentry, .refl _ entry⟩
  · rw [hsame.count_pages b]
    rfl

theorem Outbid.rejected (h : FleetAccounts Others.none manager (left ++ seq :: right))
    {manager' : BlockManager H} (hr : Outbid utility ⟨manager, seq⟩ ⟨manager', seq⟩)
    (hstop : NothingCheaper utility manager')
    (hquiet : NothingCheaper utility manager → manager' = manager) :
    Rejected (left ++ seq :: right) seq (some utility) manager manager' where
  run := .outbid rfl hr hstop
  lost := fun cacheId entry hentry hgone => by
    obtain ⟨mid, after, evicted, hevicted, htrimmed⟩ := lost_chain h hr hentry hgone
    exact ⟨utility, mid, after, evicted, rfl, hevicted, htrimmed⟩
  stays := fun cacheId entry hentry => trimmed_chain h (outbid_reclaimed hr) hentry
  accounts := (Reclaimed.keeps h (outbid_reclaimed hr)).2.accounts
  refs := fun b => by
    have hbefore := h.refs b
    have haccounts : FleetAccounts Others.none manager' (left ++ seq :: right) :=
      (Reclaimed.keeps h (outbid_reclaimed hr)).2.accounts
    have hafter := haccounts.refs b
    simp only [refCount]
    omega
  quiet := fun hworth => by
    rw [hquiet (hworth utility rfl)]
    exact ⟨.refl _, rfl, rfl⟩

theorem storeEntry_rejected {mediaKey : MediaKey} {boundary : ℕ}
    (h : FleetAccounts Others.none manager (left ++ seq :: right))
    (hrun : storeEntry mediaKey boundary entry ⟨manager, seq⟩ = .ok false t') :
    t'.seq = seq ∧ Rejected (left ++ seq :: right) seq
      (some ((boundary : ℚ) / pagesFor entry.physicalPrefixLen manager.blockSize))
      manager t'.manager := by
  simp only [storeEntry, bind_ok, get_ok] at hrun
  obtain ⟨_, _, ⟨rfl, rfl⟩, hrun⟩ := hrun
  split at hrun
  · obtain ⟨-, rfl⟩ := pure_ok.mp hrun
    exact ⟨rfl, .refl _ h⟩
  · split at hrun
    · obtain ⟨-, rfl⟩ := pure_ok.mp hrun
      exact ⟨rfl, .refl _ h⟩
    · cases hget : manager.multimodalPrefixCache.get?
          ⟨mediaKey, seq.request.promptTokenIds.take boundary⟩ with
      | some existing =>
        simp only [hget, bind_ok, require_ok, modifyManager_ok, pure_ok] at hrun
        obtain ⟨_, _, ⟨-, rfl⟩, _, _, rfl, -, rfl⟩ := hrun
        exact ⟨rfl, moveToEnd_rejected h hget⟩
      | none =>
        simp only [hget, bind_ok] at hrun
        obtain ⟨fits, mid, hroom, hrun⟩ := hrun
        cases fits with
        | true => simp at hrun
        | false =>
          simp only [Bool.false_eq_true, if_false, pure_ok] at hrun
          obtain ⟨-, rfl⟩ := hrun
          have houtbid := makeRoomLoop_outbid h.focus hroom
          have hseq : mid.seq = seq := Reclaimed.seq (outbid_reclaimed houtbid)
          have hmid : mid = ⟨mid.manager, seq⟩ := congrArg (ManagerState.mk mid.manager) hseq
          refine ⟨hseq, Outbid.rejected h (hmid ▸ houtbid)
            (makeRoomLoop_false h.focus le_rfl hroom) fun hquiet => ?_⟩
          exact congrArg ManagerState.manager (makeRoomLoop_quiet h.focus hquiet hroom)

theorem storeEntry_stored {mediaKey : MediaKey} {boundary : ℕ}
    (h : FleetAccounts Others.none manager (left ++ seq :: right))
    (hkey : seq.request.multimodalPrefixCacheKey = some mediaKey)
    (hboundary : seq.request.multimodalPrefixBoundary = some boundary)
    (hentry : manager.prefixEntryOf seq mediaKey boundary = some entry)
    (hrun : storeEntry mediaKey boundary entry ⟨manager, seq⟩ = .ok true t') :
    t'.seq = seq ∧ Stored (left ++ seq :: right) seq manager t'.manager := by
  obtain ⟨hblocks, hclones⟩ := prefixEntryOf_some hentry
  have hledger := h.focus.steps (storeEntry_steps h.focus hblocks hclones hrun)
  have hseq : t'.seq = seq := (storeEntry_seq h.focus hrun).1
  have haccounts : FleetAccounts Others.none t'.manager (left ++ seq :: right) := by
    have hfocus : Ledger (Others.none.add (left ++ right)) ⟨t'.manager, t'.seq⟩ := hledger
    rw [hseq] at hfocus
    exact h.unfocus hfocus
  refine ⟨hseq, ?_, haccounts, hledger.limit⟩
  have hpages : entry.pages =
      seq.blockTable.take (pagesFor entry.physicalPrefixLen manager.blockSize) := by
    rw [MultimodalPrefixCacheEntry.pages, hclones, List.append_nil, hblocks]
  simp only [storeEntry, bind_ok, get_ok] at hrun
  obtain ⟨_, _, ⟨rfl, rfl⟩, hrun⟩ := hrun
  split at hrun
  · simp at hrun
  · split at hrun
    · simp at hrun
    · next hroomy =>
      have hlong := not_lt.mp (not_or.mp hroomy).2
      refine ⟨⟨mediaKey, seq.request.promptTokenIds.take boundary⟩, mediaKey, boundary, entry,
        hkey, hboundary, hentry, ?_⟩
      cases hget : manager.multimodalPrefixCache.get?
          ⟨mediaKey, seq.request.promptTokenIds.take boundary⟩ with
      | some existing =>
        simp only [hget, bind_ok, require_ok, modifyManager_ok, pure_ok] at hrun
        obtain ⟨_, _, _, _, _, _, hfalse, _⟩ := hrun
        exact absurd hfalse (by simp)
      | none =>
        simp only [hget, bind_ok] at hrun
        obtain ⟨fits, mid, hroom, hrun⟩ := hrun
        cases fits with
        | false => simp at hrun
        | true =>
          simp only [if_true, bind_ok, pure_ok, insertEntry, forEach_gpu_ok,
            modifyManager_ok] at hrun
          obtain ⟨_, _, ⟨_, _, ⟨pool, _, rfl⟩, rfl⟩, -, rfl⟩ := hrun
          have habsent := Reclaimed.absent (makeRoomLoop_ok h.focus hroom).1 hget
          refine ⟨rfl, ?_, hpages, ?_⟩
          · refine OrderedDict.get?_of_mem haccounts.keys ?_
            exact List.mem_append_right _ (List.mem_singleton_self _)
          · rw [hpages, List.length_take, min_eq_left]
            exact hlong

/-- What a store that returns leaves. -/
theorem storeMultimodalPrefix_outcome {stored : Bool}
    (h : Serves manager (left ++ seq :: right))
    (hrun : storeMultimodalPrefix ⟨manager, seq⟩ = .ok stored t') :
    t'.seq = seq ∧
      (stored = false →
        Rejected (left ++ seq :: right) seq (candidateUtility manager seq) manager t'.manager) ∧
      (stored = true → Stored (left ++ seq :: right) seq manager t'.manager) := by
  have haccounts := h.accounts
  have hunchanged : t' = ⟨manager, seq⟩ → stored = false → t'.seq = seq ∧
      (stored = false →
        Rejected (left ++ seq :: right) seq (candidateUtility manager seq) manager t'.manager) ∧
      (stored = true → Stored (left ++ seq :: right) seq manager t'.manager) := by
    rintro rfl rfl
    exact ⟨rfl, fun _ => .refl _ haccounts, fun htrue => absurd htrue (by simp)⟩
  simp only [storeMultimodalPrefix, bind_ok, query_ok, get_ok] at hrun
  obtain ⟨_, _, ⟨-, rfl⟩, _, _, ⟨rfl, rfl⟩, hrun⟩ := hrun
  cases hkey : seq.request.multimodalPrefixCacheKey with
  | none =>
    simp only [hkey, pure_ok] at hrun
    exact hunchanged hrun.2.symm hrun.1.symm
  | some mediaKey =>
    cases hboundary : seq.request.multimodalPrefixBoundary with
    | none =>
      simp only [hkey, hboundary, pure_ok] at hrun
      exact hunchanged hrun.2.symm hrun.1.symm
    | some boundary =>
      simp only [hkey, hboundary] at hrun
      split at hrun
      · exact hunchanged (pure_ok.mp hrun).2.symm (pure_ok.mp hrun).1.symm
      · simp only [bind_ok, require_ok] at hrun
        obtain ⟨_, _, ⟨-, rfl⟩, hrun⟩ := hrun
        cases hentry : manager.prefixEntryOf seq mediaKey boundary with
        | none =>
          simp only [hentry, pure_ok] at hrun
          exact hunchanged hrun.2.symm hrun.1.symm
        | some entry =>
          simp only [hentry] at hrun
          have hutility : candidateUtility manager seq =
              some ((boundary : ℚ) / pagesFor entry.physicalPrefixLen manager.blockSize) := by
            rw [candidateUtility, hkey, hboundary]
            simp only [hentry, Option.map_some]
          cases stored with
          | false =>
            obtain ⟨hseq, hrejected⟩ := storeEntry_rejected haccounts hrun
            rw [hutility]
            exact ⟨hseq, fun _ => hrejected, fun htrue => absurd htrue (by simp)⟩
          | true =>
            obtain ⟨hseq, hstored⟩ := storeEntry_stored haccounts hkey hboundary hentry hrun
            exact ⟨hseq, fun hfalse => absurd hfalse (by simp), fun _ => hstored⟩

end Store

/-! ### Entries of three requests with one text prefix -/

section Example

def succeeds (x : ManagerAction ℕ Unit) (t : ManagerState ℕ) : Bool :=
  match x t with
  | .ok _ _ => true
  | .error _ _ => false

theorem onState_ok {x : ManagerAction ℕ Unit} {t : ManagerState ℕ} (h : succeeds x t = true) :
    x t = .ok () (onState x t) := by
  rw [succeeds] at h
  rw [onState]
  split at h
  · next heq => rw [heq]
  · exact absurd h (by simp)

/-- Four text tokens, an image and a text token. -/
def textImageRequest (id tokens : ℕ) : Request :=
  { keyedRequest id with
    promptTokenIds := List.replicate 4 1 ++ List.replicate tokens 7 ++ [9]
    promptNonempty := by simp
    images := some ⟨4 * tokens, [⟨id, 4 * tokens⟩]⟩
    imageTokenCount := tokens }

def computedOf (manager : BlockManager ℕ) (req : Request) : ManagerState ℕ :=
  let t := onState ManagerCall.allocate.run ⟨manager, Sequence.ofRequest ℕ req⟩
  ⟨t.manager, { t.seq with numComputedTokens := req.numPromptTokens }⟩

def prefillOf (manager : BlockManager ℕ) (req : Request) : ManagerState ℕ :=
  onState (ManagerCall.publishComputedBlocks 0 req.numPromptTokens).run (computedOf manager req)

def storedOf (manager : BlockManager ℕ) (req : Request) : ManagerState ℕ :=
  onState ManagerCall.storeMultimodalPrefix.run (prefillOf manager req)

def releasedOf (manager : BlockManager ℕ) (req : Request) : ManagerState ℕ :=
  onState ManagerCall.deallocate.run (storedOf manager req)

theorem serves_prefillOf {manager : BlockManager ℕ} {req : Request} (h : Serves manager [])
    (hallocate : succeeds ManagerCall.allocate.run ⟨manager, Sequence.ofRequest ℕ req⟩ = true)
    (hpublish : succeeds (ManagerCall.publishComputedBlocks 0 req.numPromptTokens).run
      (computedOf manager req) = true) :
    Serves (prefillOf manager req).manager ([] ++ (prefillOf manager req).seq :: []) := by
  have hjoined : Serves manager ([] ++ Sequence.ofRequest ℕ req :: []) := .join h rfl rfl
  have hallocated := hjoined.call .allocate (onState_ok hallocate)
  have hcomputed : Serves (computedOf manager req).manager
      ([] ++ (computedOf manager req).seq :: []) := hallocated.advance rfl rfl
  exact hcomputed.call _ (onState_ok hpublish)

theorem serves_releasedOf {manager : BlockManager ℕ} {req : Request}
    (h : Serves (prefillOf manager req).manager ([] ++ (prefillOf manager req).seq :: []))
    (hstore : succeeds ManagerCall.storeMultimodalPrefix.run (prefillOf manager req) = true)
    (hrelease : succeeds ManagerCall.deallocate.run (storedOf manager req) = true)
    (htable : (releasedOf manager req).seq.blockTable = [])
    (hcpu : (releasedOf manager req).seq.cpuBlockTable = []) :
    Serves (releasedOf manager req).manager [] := by
  have hstored : Serves (storedOf manager req).manager ([] ++ (storedOf manager req).seq :: []) :=
    h.call _ (onState_ok hstore)
  have hreleased : Serves (releasedOf manager req).manager
      ([] ++ (releasedOf manager req).seq :: []) := hstored.call _ (onState_ok hrelease)
  exact hreleased.leave htable hcpu

def firstManager : BlockManager ℕ :=
  (releasedOf (BlockManager.initial ℕ 9 2 0 true true) (textImageRequest 1 1)).manager

def secondManager : BlockManager ℕ := (releasedOf firstManager (textImageRequest 2 2)).manager

def thirdManager : BlockManager ℕ := (releasedOf secondManager (textImageRequest 3 2)).manager

def candidate : ManagerState ℕ := prefillOf thirdManager (textImageRequest 4 3)

theorem serves_firstManager : Serves firstManager [] :=
  serves_releasedOf (serves_prefillOf (.initial 9 2 0 true true) rfl rfl) rfl rfl rfl rfl

theorem serves_secondManager : Serves secondManager [] :=
  serves_releasedOf (serves_prefillOf serves_firstManager rfl rfl) rfl rfl rfl rfl

theorem serves_thirdManager : Serves thirdManager [] :=
  serves_releasedOf (serves_prefillOf serves_secondManager rfl rfl) rfl rfl rfl rfl

theorem serves_candidate : Serves candidate.manager ([] ++ candidate.seq :: []) :=
  serves_prefillOf serves_thirdManager rfl rfl

def rejects (t : ManagerState ℕ) : Bool :=
  match storeMultimodalPrefix t with
  | .ok stored _ => !stored
  | .error _ _ => false

def rejectionOf (t : ManagerState ℕ) : ManagerState ℕ :=
  match storeMultimodalPrefix t with
  | .ok _ t' => t'
  | .error _ t' => t'

theorem rejectionOf_ok {t : ManagerState ℕ} (h : rejects t = true) :
    storeMultimodalPrefix t = .ok false (rejectionOf t) := by
  rw [rejects] at h
  rw [rejectionOf]
  split at h
  · next stored _ heq =>
    rw [heq]
    cases stored with
    | false => rfl
    | true => exact absurd h (by simp)
  · exact absurd h (by simp)

theorem rejects_candidate : rejects candidate = true := by decide +kernel

theorem evicted_oldest :
    candidate.cache.length = 3 ∧ (rejectionOf candidate).cache.length = 2 := by decide +kernel

theorem freed_page : candidate.refCount 2 = 1 ∧ (rejectionOf candidate).refCount 2 = 0 := by
  decide +kernel

theorem lowered_total : candidate.cacheBlocks = 9 ∧ (rejectionOf candidate).cacheBlocks = 6 := by
  decide +kernel

/-- The candidate is worth more than the oldest entry and less than the next one: the oldest
is evicted, its page freed, and the candidate rejected. -/
theorem rejected_store_evicts :
    ∃ t t' : ManagerState ℕ,
      Serves t.manager ([] ++ t.seq :: []) ∧ storeMultimodalPrefix t = .ok false t' ∧
        (t.cache.length = 3 ∧ t'.cache.length = 2) ∧ (t.refCount 2 = 1 ∧ t'.refCount 2 = 0) ∧
        (t.cacheBlocks = 9 ∧ t'.cacheBlocks = 6) :=
  ⟨candidate, rejectionOf candidate, serves_candidate, rejectionOf_ok rejects_candidate,
    evicted_oldest, freed_page, lowered_total⟩

theorem storeMultimodalPrefix_outcome_rejected :
    Rejected ([] ++ candidate.seq :: []) candidate.seq
      (candidateUtility candidate.manager candidate.seq) candidate.manager
      (rejectionOf candidate).manager := by
  have hrejected : ∀ t : ManagerState ℕ, Serves t.manager ([] ++ t.seq :: []) →
      rejects t = true → Rejected ([] ++ t.seq :: []) t.seq (candidateUtility t.manager t.seq)
        t.manager (rejectionOf t).manager :=
    fun t hserves hrejects =>
      (storeMultimodalPrefix_outcome hserves (rejectionOf_ok hrejects)).2.1 rfl
  exact hrejected candidate serves_candidate rejects_candidate

end Example

end BlockManager

end PrismInfer
