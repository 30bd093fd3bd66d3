import PrismInfer.Lib.StateExcept

/-!
# What every run of a stateful computation keeps

An exception leaves the mutations made so far in place, so a fact about all runs has to hold
of the raising ones too. `Always R x` relates the first state of `x` to the last one, however
`x` ends; for a preorder `R` the rules follow the combinators.
-/
namespace EveryRun
open StateExcept

variable {ε σ τ α β : Type}

/-- The state a run ends in. -/
def finalState : EStateM.Result ε σ α → σ
  | .ok _ s => s
  | .error _ s => s

/-- Did the run return? -/
def returned : EStateM.Result ε σ α → Bool
  | .ok _ _ => true
  | .error _ _ => false

theorem of_returned {r : EStateM.Result ε σ α} (h : returned r = true) :
    ∃ a, r = .ok a (finalState r) := by
  cases r with
  | ok a s => exact ⟨a, rfl⟩
  | error e s => cases h

/-- What the run returned. -/
def returnedValue : EStateM.Result ε σ α → Option α
  | .ok a _ => some a
  | .error _ _ => none

theorem of_returnedValue {r : EStateM.Result ε σ α} {a : α} (h : returnedValue r = some a) :
    r = .ok a (finalState r) := by
  cases r with
  | ok b s =>
    obtain rfl := Option.some.inj h
    rfl
  | error e s => cases h

/-- Every run of `x`, also one that raises, relates its two states by `R`. -/
def Always (R : σ → σ → Prop) (x : EStateM ε σ α) : Prop := ∀ s, R s (finalState (x s))

variable {R : σ → σ → Prop}

theorem Always.of_ok {x : EStateM ε σ α} (h : Always R x) {s s' : σ} {a : α}
    (hrun : x s = .ok a s') : R s s' := by
  have hfinal := h s
  rwa [hrun] at hfinal

theorem Always.imp {R' : σ → σ → Prop} {x : EStateM ε σ α} (h : Always R x)
    (himp : ∀ {s t}, R s t → R' s t) : Always R' x := fun s =>
  himp (h s)

theorem Always.modify {f : σ → σ} (h : ∀ s, R s (f s)) :
    Always R (modify f : EStateM ε σ PUnit) :=
  h

/-- A computation on one component, where storing the component keeps `R`. -/
theorem Always.zoom {get : σ → τ} {put : τ → σ → σ} (h : ∀ t s, R s (put t s))
    (x : EStateM ε τ α) : Always R (zoom get put x) := by
  intro s
  unfold StateExcept.zoom
  cases x (get s) with
  | ok a t => exact h t s
  | error e t => exact h t s

/-- A computation on one component, where what it does there carries over. -/
theorem Always.lift {Q : τ → τ → Prop} {get : σ → τ} {put : τ → σ → σ} {x : EStateM ε τ α}
    (hx : Always Q x) (h : ∀ s t, Q (get s) t → R s (put t s)) :
    Always R (StateExcept.zoom get put x) := by
  intro s
  have hinner := hx (get s)
  unfold StateExcept.zoom
  cases hrun : x (get s) with
  | ok a t =>
    rw [hrun] at hinner
    exact h s t hinner
  | error e t =>
    rw [hrun] at hinner
    exact h s t hinner

/-! ### The same computation with other exceptions -/

/-- A computation whose exceptions are passed on under another type. -/
def mapError {ε' : Type} (f : ε → ε') (x : EStateM ε σ α) : EStateM ε' σ α := fun s =>
  match x s with
  | .ok a s' => .ok a s'
  | .error e s' => .error (f e) s'

@[simp] theorem mapError_ok {ε' : Type} {f : ε → ε'} {x : EStateM ε σ α} {s s' : σ} {a : α} :
    mapError f x s = .ok a s' ↔ x s = .ok a s' := by
  unfold mapError
  cases x s <;> simp

section Refl

variable [Std.Refl R]

theorem Always.pure (a : α) : Always R (Pure.pure a : EStateM ε σ α) :=
  Std.Refl.refl

theorem Always.throw (e : ε) : Always R (MonadExcept.throw e : EStateM ε σ α) :=
  Std.Refl.refl

theorem Always.get : Always R (get : EStateM ε σ σ) := Std.Refl.refl

theorem Always.readOnly (x : Except ε α) : Always R (readOnly x : EStateM ε σ α) := by
  cases x with
  | ok a => exact Always.pure a
  | error e => exact Always.throw e

theorem Always.require (c : Prop) [Decidable c] (e : ε) :
    Always R (require c e : EStateM ε σ Unit) := by
  unfold StateExcept.require
  split
  · exact Always.pure ()
  · exact Always.throw e

theorem Always.when (c : Prop) [Decidable c] {x : EStateM ε σ Unit} (h : Always R x) :
    Always R (when c x) := by
  unfold StateExcept.when
  split
  · exact h
  · exact Always.pure ()

end Refl

section Trans

variable [IsTrans σ R]

theorem Always.bind {x : EStateM ε σ α} {f : α → EStateM ε σ β} (hx : Always R x)
    (hf : ∀ a, Always R (f a)) : Always R (x >>= f) := by
  intro s
  have hfirst := hx s
  simp only [Bind.bind, EStateM.bind]
  cases hrun : x s with
  | ok a t =>
    rw [hrun] at hfirst
    exact IsTrans.trans _ _ _ hfirst (hf a t)
  | error e t =>
    rw [hrun] at hfirst
    exact hfirst

theorem Always.tryExcept {x : EStateM ε σ α} {handler : ε → EStateM ε σ α} (hx : Always R x)
    (hhandler : ∀ e, Always R (handler e)) : Always R (tryExcept x handler) := by
  intro s
  have hfirst := hx s
  unfold StateExcept.tryExcept
  cases hrun : x s with
  | ok a t =>
    rw [hrun] at hfirst
    exact hfirst
  | error e t =>
    rw [hrun] at hfirst
    exact IsTrans.trans _ _ _ hfirst (hhandler e t)

theorem Always.forEach [Std.Refl R] {f : α → EStateM ε σ Unit} (h : ∀ a, Always R (f a))
    (as : List α) : Always R (forEach f as) := by
  induction as with
  | nil => exact Always.pure ()
  | cons a as ih => exact Always.bind (h a) fun _ => ih

end Trans

/-! ### Runs that return -/

section Loops

variable [Std.Refl R] [IsTrans σ R]

theorem Returns.forEach {f : α → EStateM ε σ Unit} {as : List α} (h : ∀ a ∈ as, Returns R (f a)) :
    Returns R (forEach f as) := by
  intro s u s' hrun
  induction as generalizing s with
  | nil =>
    obtain rfl := forEach_nil_ok.mp hrun
    exact Std.Refl.refl s
  | cons a as ih =>
    obtain ⟨mid, hfirst, hrest⟩ := forEach_cons_ok.mp hrun
    exact IsTrans.trans _ _ _ (h a List.mem_cons_self s () mid hfirst)
      (ih (fun b hb => h b (List.mem_cons_of_mem a hb)) mid hrest)

theorem Returns.mapEach {f : α → EStateM ε σ β} {as : List α} (h : ∀ a ∈ as, Returns R (f a)) :
    Returns R (mapEach f as) := by
  intro s bs s' hrun
  induction as generalizing s bs with
  | nil =>
    obtain ⟨-, rfl⟩ := mapEach_nil_ok.mp hrun
    exact Std.Refl.refl s
  | cons a as ih =>
    obtain ⟨b, mid, rest, hfirst, hrest, -⟩ := mapEach_cons_ok.mp hrun
    exact IsTrans.trans _ _ _ (h a List.mem_cons_self s b mid hfirst)
      (ih (fun b hb => h b (List.mem_cons_of_mem a hb)) mid rest hrest)

end Loops

end EveryRun
