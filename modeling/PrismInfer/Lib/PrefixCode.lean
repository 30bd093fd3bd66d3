import Mathlib.Data.List.Forall2
import Mathlib.Tactic

/-!
# Codes read off the front of a stream

A value is read back from a stream when the stream's rest has no say in which value it
starts with. Such codes can be written one after the other: fields of a fixed width, fields
under a length, a counted list of items, and a whole stream of items that write something.
-/
namespace PrefixCode

variable {α σ : Type*} {same : α → α → Prop} {code : α → List σ → Prop}

/-- Whatever follows the code of `a`, a stream that starts with the code of another value
is that code with the same rest. -/
def ReadsBack (same : α → α → Prop) (code : α → List σ → Prop) (a : α) : Prop :=
  ∀ ⦃a' s s' rest rest'⦄, code a s → code a' s' → s ++ rest = s' ++ rest' →
    same a a' ∧ rest = rest'

def PrefixFree (same : α → α → Prop) (code : α → List σ → Prop) : Prop :=
  ∀ a, ReadsBack same code a

/-- Codes of one width need no delimiter. -/
theorem PrefixFree.of_width {width : ℕ} (hwidth : ∀ {a s}, code a s → s.length = width)
    (hinj : ∀ {a a' s}, code a s → code a' s → same a a') : PrefixFree same code := by
  intro a a' s s' rest rest' hs hs' heq
  have hlength : s.length = s'.length := (hwidth hs).trans (hwidth hs').symm
  obtain ⟨rfl, hrest⟩ := List.append_inj heq hlength
  exact ⟨hinj hs hs', hrest⟩

/-- `view` under its length, written by `size`. -/
def Sized (size : ℕ → List σ → Prop) (view : List σ) (s : List σ) : Prop :=
  ∃ header, size view.length header ∧ s = header ++ view

theorem PrefixFree.sized {size : ℕ → List σ → Prop} (hsize : PrefixFree Eq size) :
    PrefixFree Eq (Sized size) := by
  rintro view view' s s' rest rest' ⟨header, hheader, rfl⟩ ⟨header', hheader', rfl⟩ heq
  rw [List.append_assoc, List.append_assoc] at heq
  obtain ⟨hlength, hviews⟩ := hsize _ hheader hheader' heq
  exact List.append_inj hviews hlength

/-- Lists of as many items are read back item by item. -/
theorem ReadsBack.counted {items items' : List α} {codes codes' : List (List σ)}
    {rest rest' : List σ} (h : ∀ item ∈ items, ReadsBack same code item)
    (hcodes : List.Forall₂ code items codes) (hcodes' : List.Forall₂ code items' codes')
    (hcount : items.length = items'.length)
    (heq : codes.flatten ++ rest = codes'.flatten ++ rest') :
    List.Forall₂ same items items' ∧ rest = rest' := by
  induction hcodes generalizing items' codes' with
  | nil =>
    obtain rfl := List.length_eq_zero_iff.mp hcount.symm
    obtain rfl := List.forall₂_nil_left_iff.mp hcodes'
    exact ⟨.nil, heq⟩
  | cons hitem _ ih =>
    cases hcodes' with
    | nil => simp at hcount
    | cons hitem' hcodes' =>
      rw [List.flatten_cons, List.flatten_cons, List.append_assoc, List.append_assoc] at heq
      obtain ⟨hsame, hrest⟩ := h _ List.mem_cons_self hitem hitem' heq
      have hcount' := Nat.succ.inj hcount
      obtain ⟨htail, hrest'⟩ :=
        ih (fun item hmem => h item (List.mem_cons_of_mem _ hmem)) hcodes' hcount' hrest
      exact ⟨.cons hsame htail, hrest'⟩

/-- Where every item writes something, a whole stream determines its items: it cannot be
split into items another way. -/
theorem PrefixFree.stream (h : PrefixFree same code) (hne : ∀ {a s}, code a s → s ≠ [])
    {items items' : List α} {codes codes' : List (List σ)}
    (hcodes : List.Forall₂ code items codes) (hcodes' : List.Forall₂ code items' codes')
    (heq : codes.flatten = codes'.flatten) : List.Forall₂ same items items' := by
  induction hcodes generalizing items' codes' with
  | nil =>
    cases hcodes' with
    | nil => exact .nil
    | cons hitem' _ =>
      rw [List.flatten_cons] at heq
      exact absurd (List.append_eq_nil_iff.mp heq.symm).1 (hne hitem')
  | cons hitem _ ih =>
    cases hcodes' with
    | nil =>
      rw [List.flatten_cons] at heq
      exact absurd (List.append_eq_nil_iff.mp heq).1 (hne hitem)
    | cons hitem' hcodes' =>
      rw [List.flatten_cons, List.flatten_cons] at heq
      obtain ⟨hsame, hrest⟩ := h _ hitem hitem' heq
      exact .cons hsame (ih hcodes' hrest)

section Delimiter

variable {p : σ → Prop}

/-- Two runs of symbols that satisfy `p`, each cut off by a symbol that does not. -/
theorem run_inj {run run' rest rest' : List σ} (hrun : ∀ c ∈ run, p c)
    (hrun' : ∀ c ∈ run', p c) (hrest : ∃ c cs, rest = c :: cs ∧ ¬ p c)
    (hrest' : ∃ c cs, rest' = c :: cs ∧ ¬ p c) (heq : run ++ rest = run' ++ rest') :
    run = run' ∧ rest = rest' := by
  obtain ⟨c, cs, rfl, hc⟩ := hrest
  obtain ⟨c', cs', rfl, hc'⟩ := hrest'
  induction run generalizing run' with
  | nil =>
    cases run' with
    | nil => exact ⟨rfl, heq⟩
    | cons d run' =>
      obtain ⟨rfl, -⟩ := List.cons.inj heq
      exact absurd (hrun' _ List.mem_cons_self) hc
  | cons d run ih =>
    cases run' with
    | nil =>
      obtain ⟨rfl, -⟩ := List.cons.inj heq
      exact absurd (hrun _ List.mem_cons_self) hc'
    | cons d' run' =>
      obtain ⟨rfl, htail⟩ := List.cons.inj heq
      obtain ⟨rfl, hrest⟩ := ih (fun c hc => hrun c (List.mem_cons_of_mem _ hc))
        (fun c hc => hrun' c (List.mem_cons_of_mem _ hc)) htail
      exact ⟨rfl, hrest⟩

end Delimiter

end PrefixCode
