import Mathlib

/-!
# Chains of hashes

A digest that is hashed again with one step after another.  If the hash does not
collide on the texts of a chain and never comes back to its start, then the last
digest tells which steps the chain has taken.
-/

namespace VirtualPeople.HashChain

variable {Digest Step Text : Type*} (hash : Text → Digest)
  (encode : Digest → Step → Text)

/-- The digest at the end of a chain. -/
def digest (start : Digest) (steps : List Step) : Digest :=
  steps.foldl (fun current step => hash (encode current step)) start

/-- The texts that a chain hashes, in order. -/
def texts (start : Digest) : List Step → List Text
  | [] => []
  | step :: steps =>
    encode start step :: texts (hash (encode start step)) steps

@[simp] theorem digest_nil (start : Digest) : digest hash encode start [] = start :=
  rfl

@[simp] theorem digest_cons (start : Digest) (step : Step) (steps : List Step) :
    digest hash encode start (step :: steps) =
      digest hash encode (hash (encode start step)) steps := rfl

theorem digest_concat (start : Digest) (steps : List Step) (step : Step) :
    digest hash encode start (steps ++ [step]) =
      hash (encode (digest hash encode start steps) step) :=
  List.foldl_concat _ _ _ _

theorem texts_concat (start : Digest) (steps : List Step) (step : Step) :
    texts hash encode start (steps ++ [step]) =
      texts hash encode start steps ++
        [encode (digest hash encode start steps) step] := by
  induction steps generalizing start with
  | nil => rfl
  | cons first steps inductionHypothesis =>
    exact congrArg (List.cons (encode start first)) (inductionHypothesis _)

/-- The hash tells the texts apart, and none of them hashes to the start. -/
structure CollisionFree (start : Digest) (hashed : Set Text) : Prop where
  injOn : Set.InjOn hash hashed
  avoidsStart : ∀ text ∈ hashed, hash text ≠ start

variable {hash encode}

/-- Chains with the same last digest have taken the same steps.  The last steps
are the same because the last texts are, and so are the digests before them. -/
theorem CollisionFree.eq_of_digest_eq {start : Digest} {hashed : Set Text}
    (free : CollisionFree hash start hashed)
    (separates : Function.Injective2 encode) {steps steps' : List Step}
    (inHashed : ∀ text ∈ texts hash encode start steps, text ∈ hashed)
    (inHashed' : ∀ text ∈ texts hash encode start steps', text ∈ hashed)
    (same : digest hash encode start steps =
      digest hash encode start steps') :
    steps = steps' := by
  induction steps using List.reverseRecOn generalizing steps' with
  | nil =>
    cases steps' using List.reverseRecOn with
    | nil => rfl
    | append_singleton steps' step' =>
      rw [texts_concat, List.forall_mem_append,
        List.forall_mem_singleton] at inHashed'
      rw [digest_concat] at same
      exact (free.avoidsStart _ inHashed'.2 same.symm).elim
  | append_singleton steps step inductionHypothesis =>
    rw [texts_concat, List.forall_mem_append,
      List.forall_mem_singleton] at inHashed
    rw [digest_concat] at same
    cases steps' using List.reverseRecOn with
    | nil => exact (free.avoidsStart _ inHashed.2 same).elim
    | append_singleton steps' step' =>
      rw [texts_concat, List.forall_mem_append,
        List.forall_mem_singleton] at inHashed'
      rw [digest_concat] at same
      obtain ⟨sameBefore, rfl⟩ :=
        separates (free.injOn inHashed.2 inHashed'.2 same)
      rw [inductionHypothesis inHashed.1 inHashed'.1 sameBefore]

/-- Different chains over the texts end in different digests. -/
theorem CollisionFree.nodup_digests {start : Digest} {hashed : Set Text}
    (free : CollisionFree hash start hashed)
    (separates : Function.Injective2 encode) {chains : List (List Step)}
    (inHashed : ∀ steps ∈ chains, ∀ text ∈ texts hash encode start steps,
      text ∈ hashed)
    (distinct : chains.Nodup) :
    (chains.map (digest hash encode start)).Nodup :=
  distinct.map_on fun steps member steps' member' =>
    free.eq_of_digest_eq separates (inHashed steps member)
      (inHashed steps' member')

/-! ## Texts with a separator -/

/-- Texts that go on after the same last separator are the same before and
after it. -/
theorem append_cons_inj_of_notMem_right {α : Type*} {separator : α}
    {front front' back back' : List α} (last : separator ∉ back)
    (last' : separator ∉ back')
    (same : front ++ separator :: back = front' ++ separator :: back') :
    front = front' ∧ back = back' := by
  rcases List.append_eq_append_iff.mp same with
    ⟨middle, frontEq, backEq⟩ | ⟨middle, frontEq, backEq⟩
  · cases middle with
    | nil =>
      rw [List.append_nil] at frontEq
      exact ⟨frontEq.symm, (List.cons.inj backEq).2⟩
    | cons first middle =>
      rw [(List.cons.inj backEq).2] at last
      exact (last List.mem_append_cons_self).elim
  · cases middle with
    | nil =>
      rw [List.append_nil] at frontEq
      exact ⟨frontEq, (List.cons.inj backEq).2.symm⟩
    | cons first middle =>
      rw [(List.cons.inj backEq).2] at last'
      exact (last' List.mem_append_cons_self).elim

end VirtualPeople.HashChain
