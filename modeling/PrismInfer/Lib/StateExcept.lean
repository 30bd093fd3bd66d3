import Mathlib.Tactic

/-!
# Stateful computations that keep their state when they raise

`EStateM ε σ α` is the shape of a method body that mutates its object and may
raise: an exception leaves the mutations made so far in place. This module adds
the few combinators such bodies are written with and, for each of them, the rule
that inverts a run which returned normally. Nothing here depends on a program.
-/
namespace StateExcept

variable {ε σ τ α β : Type}

/-- Raise `e` unless `c` holds. -/
def require (c : Prop) [Decidable c] (e : ε) : EStateM ε σ Unit :=
  if c then pure () else throw e

/-- Run `x` only where `c` holds. -/
def when (c : Prop) [Decidable c] (x : EStateM ε σ Unit) : EStateM ε σ Unit :=
  if c then x else pure ()

/-- A read-only computation, which may raise, inside a stateful one. -/
def readOnly : Except ε α → EStateM ε σ α
  | .ok a => pure a
  | .error e => throw e

/-- Run a computation on one component of the state. -/
def zoom (get : σ → τ) (put : τ → σ → σ) (x : EStateM ε τ α) : EStateM ε σ α := fun s =>
  match x (get s) with
  | .ok a t => .ok a (put t s)
  | .error e t => .error e (put t s)

/-- `try x except e: handler e`; the handler starts from the state `x` left. -/
def tryExcept (x : EStateM ε σ α) (handler : ε → EStateM ε σ α) : EStateM ε σ α := fun s =>
  match x s with
  | .ok a s' => .ok a s'
  | .error e s' => handler e s'

/-- Run the body on each element, in order. -/
def forEach (f : α → EStateM ε σ Unit) : List α → EStateM ε σ Unit
  | [] => pure ()
  | a :: as => do f a; forEach f as

/-- Run the body on each element, in order, and collect the results. -/
def mapEach (f : α → EStateM ε σ β) : List α → EStateM ε σ (List β)
  | [] => pure []
  | a :: as => do
    let b ← f a
    let bs ← mapEach f as
    pure (b :: bs)

section Inversion

variable {s s' : σ} {a : α} {b : β}

@[simp] theorem pure_ok {a' : α} :
    (pure a : EStateM ε σ α) s = .ok a' s' ↔ a = a' ∧ s = s' := by
  simp [pure, EStateM.pure]

@[simp] theorem bind_ok {x : EStateM ε σ α} {f : α → EStateM ε σ β} :
    (x >>= f) s = .ok b s' ↔ ∃ a t, x s = .ok a t ∧ f a t = .ok b s' := by
  simp only [bind, EStateM.bind]
  cases x s <;> simp

/-- A computation that returns hands its result and its state on. -/
theorem bind_of_ok {x : EStateM ε σ α} {f : α → EStateM ε σ β} {t : σ} (h : x s = .ok a t) :
    (x >>= f) s = f a t := by
  simp only [bind, EStateM.bind, h]

@[simp] theorem map_ok {x : EStateM ε σ α} {f : α → β} :
    (f <$> x) s = .ok b s' ↔ ∃ a, x s = .ok a s' ∧ f a = b := by
  simp only [Functor.map, EStateM.map]
  cases x s <;> simp [and_comm]

@[simp] theorem throw_ok {e : ε} :
    (throw e : EStateM ε σ α) s = .ok a s' ↔ False :=
  ⟨nofun, False.elim⟩

@[simp] theorem get_ok {t : σ} :
    (get : EStateM ε σ σ) s = .ok t s' ↔ s = t ∧ s = s' := by
  change EStateM.Result.ok s s = .ok t s' ↔ _
  simp

@[simp] theorem set_ok {t : σ} {u : PUnit} :
    (set t : EStateM ε σ PUnit) s = .ok u s' ↔ t = s' := by
  change EStateM.Result.ok PUnit.unit t = .ok u s' ↔ _
  simp

@[simp] theorem modify_ok {f : σ → σ} {u : PUnit} :
    (modify f : EStateM ε σ PUnit) s = .ok u s' ↔ f s = s' := by
  change EStateM.Result.ok PUnit.unit (f s) = .ok u s' ↔ _
  simp

@[simp] theorem require_ok {c : Prop} [Decidable c] {e : ε} {u : Unit} :
    (require c e : EStateM ε σ Unit) s = .ok u s' ↔ c ∧ s = s' := by
  by_cases hc : c <;> simp [require, hc]

@[simp] theorem when_ok {c : Prop} [Decidable c] {x : EStateM ε σ Unit} {u : Unit} :
    when c x s = .ok u s' ↔ (c ∧ x s = .ok u s') ∨ (¬ c ∧ s = s') := by
  by_cases hc : c <;> simp [when, hc]

@[simp] theorem readOnly_ok {x : Except ε α} :
    (readOnly x : EStateM ε σ α) s = .ok a s' ↔ x = .ok a ∧ s = s' := by
  cases x <;> simp [readOnly]

@[simp] theorem zoom_ok {get : σ → τ} {put : τ → σ → σ} {x : EStateM ε τ α} :
    zoom get put x s = .ok a s' ↔ ∃ t, x (get s) = .ok a t ∧ put t s = s' := by
  simp only [zoom]
  cases x (get s) <;> simp

/-- A loop on one component is a loop inside that component. -/
theorem forEach_zoom {get : σ → τ} {put : τ → σ → σ} (hput : ∀ s, put (get s) s = s)
    (hget : ∀ t s, get (put t s) = t) (hputput : ∀ t t' s, put t (put t' s) = put t s)
    (f : α → EStateM ε τ Unit) (as : List α) (s : σ) :
    forEach (fun a => zoom get put (f a)) as s = zoom get put (forEach f as) s := by
  induction as generalizing s with
  | nil => simp [forEach, zoom, pure, EStateM.pure, hput]
  | cons a as ih =>
    simp only [forEach, bind, EStateM.bind, zoom]
    cases hfa : f a (get s) with
    | error e t => simp
    | ok u t =>
      simp only [ih, zoom, hget, hputput]

theorem tryExcept_ok {x : EStateM ε σ α} {handler : ε → EStateM ε σ α} :
    tryExcept x handler s = .ok a s' ↔
      x s = .ok a s' ∨ ∃ e t, x s = .error e t ∧ handler e t = .ok a s' := by
  simp only [tryExcept]
  cases x s <;> simp

theorem bind_error {e : ε} {x : EStateM ε σ α} {f : α → EStateM ε σ β} :
    (x >>= f) s = .error e s' ↔
      x s = .error e s' ∨ ∃ a t, x s = .ok a t ∧ f a t = .error e s' := by
  simp only [bind, EStateM.bind]
  cases x s <;> simp

@[simp] theorem map_error {e : ε} {x : EStateM ε σ α} {f : α → β} :
    (f <$> x) s = .error e s' ↔ x s = .error e s' := by
  simp only [Functor.map, EStateM.map]
  cases x s <;> simp

@[simp] theorem pure_error {e : ε} : (pure a : EStateM ε σ α) s = .error e s' ↔ False := by
  simp [pure, EStateM.pure]

@[simp] theorem get_error {e : ε} : (get : EStateM ε σ σ) s = .error e s' ↔ False :=
  ⟨nofun, False.elim⟩

@[simp] theorem modify_error {f : σ → σ} {e : ε} :
    (modify f : EStateM ε σ PUnit) s = .error e s' ↔ False :=
  ⟨nofun, False.elim⟩

@[simp] theorem throw_error {e e' : ε} :
    (throw e : EStateM ε σ α) s = .error e' s' ↔ e = e' ∧ s = s' := by
  change EStateM.Result.error e s = .error e' s' ↔ _
  simp

@[simp] theorem require_error {c : Prop} [Decidable c] {e e' : ε} :
    (require c e : EStateM ε σ Unit) s = .error e' s' ↔ ¬ c ∧ e = e' ∧ s = s' := by
  by_cases hc : c <;> simp [require, hc]

@[simp] theorem forEach_nil_ok {f : α → EStateM ε σ Unit} {u : Unit} :
    forEach f [] s = .ok u s' ↔ s = s' := by
  simp [forEach]

@[simp] theorem forEach_cons_ok {f : α → EStateM ε σ Unit} {as : List α} {u : Unit} :
    forEach f (a :: as) s = .ok u s' ↔ ∃ t, f a s = .ok () t ∧ forEach f as t = .ok u s' := by
  simp only [forEach, bind_ok]
  constructor
  · rintro ⟨⟨⟩, t, ha, has⟩
    exact ⟨t, ha, has⟩
  · rintro ⟨t, ha, has⟩
    exact ⟨(), t, ha, has⟩

@[simp] theorem mapEach_nil_ok {f : α → EStateM ε σ β} {bs : List β} :
    mapEach f [] s = .ok bs s' ↔ bs = [] ∧ s = s' := by
  simp [mapEach, eq_comm]

theorem mapEach_cons_ok {f : α → EStateM ε σ β} {as : List α} {bs : List β} :
    mapEach f (a :: as) s = .ok bs s' ↔
      ∃ b t cs, f a s = .ok b t ∧ mapEach f as t = .ok cs s' ∧ bs = b :: cs := by
  simp only [mapEach, bind_ok, pure_ok]
  constructor
  · rintro ⟨b, t, hb, cs, u, hcs, rfl, rfl⟩
    exact ⟨b, t, cs, hb, hcs, rfl⟩
  · rintro ⟨b, t, cs, hb, hcs, rfl⟩
    exact ⟨b, t, hb, cs, s', hcs, rfl, rfl⟩

end Inversion

section Read

variable {x : Except ε α} {f : α → Except ε β} {a : α} {b : β}

@[simp] theorem except_bind_ok : (x >>= f) = .ok b ↔ ∃ a, x = .ok a ∧ f a = .ok b := by
  cases x <;> simp [bind, Except.bind]

@[simp] theorem except_pure_ok {a' : α} : (pure a : Except ε α) = .ok a' ↔ a = a' := by
  simp [pure, Except.pure]

@[simp] theorem except_throw_ok {e : ε} : (throw e : Except ε α) = .ok a ↔ False := by
  simp [throw, throwThe, MonadExceptOf.throw]

/-- `require` for read-only computations. -/
def ensure (c : Prop) [Decidable c] (e : ε) : Except ε Unit :=
  if c then .ok () else .error e

@[simp] theorem ensure_ok {c : Prop} [Decidable c] {e : ε} {u : Unit} :
    ensure c e = .ok u ↔ c := by
  by_cases hc : c <;> simp [ensure, hc]

theorem mapM_ok {f : α → Except ε β} {as : List α} {bs : List β} :
    as.mapM f = .ok bs ↔ List.Forall₂ (fun a b => f a = .ok b) as bs := by
  induction as generalizing bs with
  | nil => rw [List.mapM_nil, except_pure_ok, List.forall₂_nil_left_iff, eq_comm]
  | cons a as ih =>
    simp only [List.mapM_cons, except_bind_ok, except_pure_ok, List.forall₂_cons_left_iff]
    constructor
    · rintro ⟨b, hb, bs', hbs, rfl⟩
      exact ⟨b, bs', hb, ih.mp hbs, rfl⟩
    · rintro ⟨b, bs', hb, hbs, rfl⟩
      exact ⟨b, hb, bs', ih.mpr hbs, rfl⟩

theorem mapM_congr {f g : α → Except ε β} {as : List α} (h : ∀ a ∈ as, f a = g a) :
    as.mapM f = as.mapM g := by
  induction as with
  | nil => rfl
  | cons a as ih =>
    rw [List.mapM_cons, List.mapM_cons, h a List.mem_cons_self,
      ih fun b hb => h b (List.mem_cons_of_mem a hb)]

end Read

section Relation

/-- Every run of `x` that returns relates its two states by `R`. -/
def Returns (R : σ → σ → Prop) (x : EStateM ε σ α) : Prop :=
  ∀ s a s', x s = .ok a s' → R s s'

variable {R : σ → σ → Prop}

/-- The loop rule: what every iteration preserves, the whole loop preserves. -/
theorem forEach_invariant {I : σ → Prop} {f : α → EStateM ε σ Unit} {as : List α}
    (hstep : ∀ a ∈ as, ∀ s s', I s → f a s = .ok () s' → I s') {s s' : σ} {u : Unit}
    (hs : I s) (h : forEach f as s = .ok u s') : I s' := by
  induction as generalizing s with
  | nil =>
    obtain rfl := forEach_nil_ok.mp h
    exact hs
  | cons a as ih =>
    obtain ⟨t, ha, has⟩ := forEach_cons_ok.mp h
    exact ih (fun b hb => hstep b (List.mem_cons_of_mem a hb))
      (hstep a List.mem_cons_self s t hs ha) has

end Relation

end StateExcept
