import Mathlib.Logic.Relation
import Mathlib.Tactic

/-!
# Runs of labelled steps

A step relation whose steps emit a list of labels, and the runs that join the labels in order.
An invariant may speak about the labels so far; a run of one system is a run of another where
every step is.
-/

/-- A run, with the labels of its steps. -/
inductive Trace {σ ε : Type} (Step : σ → List ε → σ → Prop) : σ → List ε → σ → Prop
  | refl (s : σ) : Trace Step s [] s
  | tail {s mid s' : σ} {past labels : List ε} (h : Trace Step s past mid)
      (hlast : Step mid labels s') : Trace Step s (past ++ labels) s'

namespace Trace

variable {σ τ ε : Type} {Step : σ → List ε → σ → Prop} {s mid s' : σ} {past labels : List ε}

theorem single (h : Step s labels s') : Trace Step s labels s' :=
  .tail (.refl s) h

theorem trans (h : Trace Step s past mid) (h' : Trace Step mid labels s') :
    Trace Step s (past ++ labels) s' := by
  induction h' with
  | refl =>
    rw [List.append_nil]
    exact h
  | tail _ hlast ih =>
    rw [← List.append_assoc]
    exact .tail ih hlast

/-- A silent step before a run. -/
theorem after (hfirst : Step s [] mid) (h : Trace Step mid labels s') : Trace Step s labels s' :=
  (single hfirst).trans h

/-- What holds of the labels so far and the state, and is kept by every step, holds of the
whole run. -/
theorem history {I : List ε → σ → Prop}
    (hstep : ∀ {past s labels s'}, I past s → Step s labels s' → I (past ++ labels) s')
    {before : List ε} (hs : I before s) (h : Trace Step s labels s') : I (before ++ labels) s' := by
  induction h with
  | refl =>
    rw [List.append_nil]
    exact hs
  | tail _ hlast ih =>
    rw [← List.append_assoc]
    exact hstep ih hlast

theorem invariant {I : σ → Prop} (hstep : ∀ {s labels s'}, I s → Step s labels s' → I s')
    (hs : I s) (h : Trace Step s labels s') : I s' :=
  @history σ ε Step s s' labels (fun _ => I) hstep [] hs h

/-- Where every step is a run of the other system with the same labels, so is every run. -/
theorem simulates {Step' : τ → List ε → τ → Prop} {f : σ → τ}
    (hstep : ∀ {s labels s'}, Step s labels s' → Trace Step' (f s) labels (f s'))
    (h : Trace Step s labels s') : Trace Step' (f s) labels (f s') := by
  induction h with
  | refl => exact .refl _
  | tail _ hlast ih => exact ih.trans (hstep hlast)

/-- The same without labels on the other side. -/
theorem erases {Step' : τ → τ → Prop} {f : σ → τ}
    (hstep : ∀ {s labels s'}, Step s labels s' → Relation.ReflTransGen Step' (f s) (f s'))
    (h : Trace Step s labels s') : Relation.ReflTransGen Step' (f s) (f s') := by
  induction h with
  | refl => exact .refl
  | tail _ hlast ih => exact ih.trans (hstep hlast)

end Trace
