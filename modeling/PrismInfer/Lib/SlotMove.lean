import Mathlib.Data.List.Basic
import Mathlib.Tactic

/-!
# Moving slots through a buffer

A store is a function of its slots. A move reads all its source slots first and then
writes them to its destination slots, so sources and destinations may overlap. Several
moves run one after the other; where none of them writes a slot that another one reads or
writes, each of them sees the store as it was at the start.
-/
namespace SlotMove

variable {ι α : Type*} [DecidableEq ι]

/-- Write values to slots, in order. -/
def scatter (f : ι → α) (writes : List (ι × α)) : ι → α :=
  writes.foldl (fun g write => Function.update g write.1 write.2) f

theorem scatter_cons (f : ι → α) (write : ι × α) (writes : List (ι × α)) :
    scatter f (write :: writes) = scatter (Function.update f write.1 write.2) writes := rfl

theorem scatter_of_notMem {f : ι → α} {writes : List (ι × α)} {b : ι}
    (h : b ∉ writes.map Prod.fst) : scatter f writes b = f b := by
  induction writes generalizing f with
  | nil => rfl
  | cons write writes ih =>
    rw [List.map_cons, List.mem_cons, not_or] at h
    rw [scatter_cons, ih h.2, Function.update_of_ne h.1]

theorem scatter_of_mem {f : ι → α} {writes : List (ι × α)} {write : ι × α}
    (hnodup : (writes.map Prod.fst).Nodup) (h : write ∈ writes) :
    scatter f writes write.1 = write.2 := by
  induction writes generalizing f with
  | nil => simp at h
  | cons first writes ih =>
    rw [List.map_cons, List.nodup_cons] at hnodup
    rw [scatter_cons]
    rcases List.mem_cons.mp h with rfl | h
    · rw [scatter_of_notMem hnodup.1, Function.update_self]
    · exact ih hnodup.2 h

/-- The order of writes to distinct slots does not matter. -/
theorem scatter_perm {f : ι → α} {writes writes' : List (ι × α)}
    (hnodup : (writes.map Prod.fst).Nodup) (hperm : writes'.Perm writes) :
    scatter f writes' = scatter f writes := by
  have hnodup' : (writes'.map Prod.fst).Nodup := (hperm.map Prod.fst).nodup_iff.mpr hnodup
  funext b
  by_cases hb : b ∈ writes.map Prod.fst
  · obtain ⟨write, hwrite, rfl⟩ := List.mem_map.mp hb
    rw [scatter_of_mem hnodup hwrite, scatter_of_mem hnodup' (hperm.mem_iff.mpr hwrite)]
  · have hb' : b ∉ writes'.map Prod.fst := fun h => hb ((hperm.map Prod.fst).mem_iff.mp h)
    rw [scatter_of_notMem hb, scatter_of_notMem hb']

/-- Values carried along pairs of a source and a slot: every slot gets its source's value. -/
theorem scatter_pairs {β : Type*} (g : β → α) {f : ι → α} {pairs : List (β × ι)}
    (hnodup : (pairs.map Prod.snd).Nodup) {pair : β × ι} (h : pair ∈ pairs) :
    scatter f (pairs.map fun pair => (pair.2, g pair.1)) pair.2 = g pair.1 := by
  have hwrite : (pair.2, g pair.1) ∈ pairs.map fun pair => (pair.2, g pair.1) :=
    List.mem_map.mpr ⟨pair, h, rfl⟩
  refine scatter_of_mem ?_ hwrite
  rw [List.map_map]
  exact hnodup

theorem scatter_pairs_of_notMem {β : Type*} (g : β → α) {f : ι → α} {pairs : List (β × ι)} {b : ι}
    (h : b ∉ pairs.map Prod.snd) :
    scatter f (pairs.map fun pair => (pair.2, g pair.1)) b = f b := by
  apply scatter_of_notMem
  rw [List.map_map]
  exact h

/-- Read every source, then write the destinations. -/
def move (sources destinations : List ι) (f : ι → α) : ι → α :=
  scatter f (destinations.zip (sources.map f))

variable {sources destinations : List ι} {f : ι → α}

omit [DecidableEq ι] in
theorem map_fst_zip_map (hlength : sources.length = destinations.length) :
    (destinations.zip (sources.map f)).map Prod.fst = destinations := by
  apply List.map_fst_zip
  rw [List.length_map]
  omega

theorem move_of_notMem (hlength : sources.length = destinations.length) {b : ι}
    (h : b ∉ destinations) : move sources destinations f b = f b := by
  apply scatter_of_notMem
  rwa [map_fst_zip_map hlength]

theorem move_getElem (hlength : sources.length = destinations.length)
    (hnodup : destinations.Nodup) {i : ℕ} (hs : i < sources.length)
    (hd : i < destinations.length) :
    move sources destinations f destinations[i] = f sources[i] := by
  have hmem : (destinations[i], f sources[i]) ∈ destinations.zip (sources.map f) := by
    apply List.mem_iff_getElem.mpr
    exact ⟨i, by simp [hs, hd], by simp⟩
  refine scatter_of_mem ?_ hmem
  rwa [map_fst_zip_map hlength]

/-- A part of each value moves as the value does. -/
theorem move_map {β : Type*} (g : α → β) (sources destinations : List ι) (f : ι → α) (b : ι) :
    g (move sources destinations f b) = move sources destinations (g ∘ f) b := by
  have hscatter : ∀ (writes : List (ι × α)) (f : ι → α),
      g (scatter f writes b) = scatter (g ∘ f) (writes.map (Prod.map id g)) b := by
    intro writes
    induction writes with
    | nil => intro f; rfl
    | cons write writes ih =>
      intro f
      rw [scatter_cons, ih, List.map_cons, scatter_cons, Function.comp_update]
      rfl
  rw [move, hscatter, move]
  congr 1
  rw [← List.zip_map_right, ← List.map_map]

/-- The sources and the destinations of one move. -/
abbrev Route (ι : Type*) := List ι × List ι

/-- A route that can be moved along: one destination for each source, none twice. -/
def Route.Proper (route : Route ι) : Prop :=
  route.1.length = route.2.length ∧ route.2.Nodup

/-- Moves, one after the other. -/
def moveAll (routes : List (Route ι)) (f : ι → α) : ι → α :=
  routes.foldl (fun g route => move route.1 route.2 g) f

theorem moveAll_cons (route : Route ι) (routes : List (Route ι)) (f : ι → α) :
    moveAll (route :: routes) f = moveAll routes (move route.1 route.2 f) := rfl

theorem moveAll_of_notMem {routes : List (Route ι)} (hproper : ∀ route ∈ routes, route.Proper)
    {b : ι} (h : ∀ route ∈ routes, b ∉ route.2) : moveAll routes f b = f b := by
  induction routes generalizing f with
  | nil => rfl
  | cons route routes ih =>
    have hfirst := List.mem_cons_self (a := route) (l := routes)
    rw [moveAll_cons,
      ih (fun r hr => hproper r (List.mem_cons_of_mem _ hr))
        (fun r hr => h r (List.mem_cons_of_mem _ hr)),
      move_of_notMem (hproper route hfirst).1 (h route hfirst)]

/-- No route writes what another one reads or writes. -/
def Apart (routes : List (Route ι)) : Prop :=
  routes.Pairwise fun p q =>
    (∀ b ∈ p.2, b ∉ q.1 ∧ b ∉ q.2) ∧ ∀ b ∈ q.2, b ∉ p.1

/-- Every destination receives what its source held at the start. -/
theorem moveAll_getElem {routes : List (Route ι)} (hproper : ∀ route ∈ routes, route.Proper)
    (hapart : Apart routes) {route : Route ι} (hroute : route ∈ routes) {i : ℕ}
    (hs : i < route.1.length) (hd : i < route.2.length) :
    moveAll routes f route.2[i] = f route.1[i] := by
  induction routes generalizing f with
  | nil => simp at hroute
  | cons first routes ih =>
    have hfirst := hproper first List.mem_cons_self
    have hrest := fun r hr => hproper r (List.mem_cons_of_mem first hr)
    have hpair := List.pairwise_cons.mp hapart
    rw [moveAll_cons]
    rcases List.mem_cons.mp hroute with rfl | hroute
    · -- later moves leave the destinations of this one alone
      rw [moveAll_of_notMem hrest fun r hr => ((hpair.1 r hr).1 _ (List.getElem_mem hd)).2,
        move_getElem hfirst.1 hfirst.2 hs hd]
    · -- earlier moves leave the sources of this one alone
      rw [ih hrest hpair.2 hroute, move_of_notMem hfirst.1]
      exact fun hmem => ((hpair.1 route hroute).1 _ hmem).1 (List.getElem_mem hs)

end SlotMove
