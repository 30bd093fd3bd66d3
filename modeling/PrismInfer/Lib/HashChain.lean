import Mathlib.Data.Set.Function
import Mathlib.Tactic

/-!
# Hash chains

A chain hashes one block after the other, each together with the digest before it. Where
the hash is injective on the inputs two chains give it and inputs are unambiguous, equal
digests come from equal blocks.
-/
namespace HashChain

variable {δ β ι : Type*}

/-- `Chain input hash start blocks inputs digest`: hashing `blocks` from the digest `start`
gives the hash these `inputs` and ends in `digest`. -/
inductive Chain (input : δ → β → Option ι) (hash : ι → δ) (start : δ) :
    List β → List ι → δ → Prop
  | nil : Chain input hash start [] [] start
  | snoc {blocks inputs digest block i} (earlier : Chain input hash start blocks inputs digest)
      (hinput : input digest block = some i) :
      Chain input hash start (blocks ++ [block]) (inputs ++ [i]) (hash i)

variable {input : δ → β → Option ι} {hash : ι → δ} {start : δ} {same : β → β → Prop}

/-- The last link of one chain determines that of another with the same digest, and so the
link before it. -/
theorem Chain.injective (hstart : ∀ i, hash i ≠ start)
    (hinput : ∀ {digest digest' block block' i}, input digest block = some i →
      input digest' block' = some i → digest = digest' ∧ same block block')
    {blocks blocks' : List β} {inputs inputs' : List ι} {digest digest' : δ}
    (hchain : Chain input hash start blocks inputs digest)
    (hchain' : Chain input hash start blocks' inputs' digest')
    (hinj : Set.InjOn hash {i | i ∈ inputs ∨ i ∈ inputs'}) (hdigest : digest = digest') :
    List.Forall₂ same blocks blocks' := by
  induction hchain generalizing blocks' inputs' digest' with
  | nil =>
    cases hchain' with
    | nil => exact .nil
    | snoc _ _ => exact absurd hdigest.symm (hstart _)
  | snoc earlier hlink ih =>
    cases hchain' with
    | nil => exact absurd hdigest (hstart _)
    | snoc earlier' hlink' =>
      have hi := hinj (.inl (by simp)) (.inr (by simp)) hdigest
      subst hi
      obtain ⟨hbefore, hsame⟩ := hinput hlink hlink'
      have hinj' : Set.InjOn hash {i | i ∈ _ ∨ i ∈ _} := hinj.mono fun i hi =>
        hi.imp (List.mem_append_left _) (List.mem_append_left _)
      refine List.rel_append (ih earlier' hinj' hbefore) ?_
      exact .cons hsame .nil

end HashChain
