import VirtualPeople.Outcome

/-!
# Successes

What a fallible computation comes to when its faults are not told apart: a value
or nothing.  In this view the order of two computations does not matter, and a
list of pairs is computed by computing both of its sides.  The last section has
the rules for computations that cannot fault at all.
-/

namespace VirtualPeople

section Successes

variable {ε α β γ ι : Type}

/-! ## Faults that are not told apart -/

@[simp] theorem toOption_ok (value : α) :
    (.ok value : Except ε α).toOption = some value := rfl

@[simp] theorem toOption_error (fault : ε) :
    (.error fault : Except ε α).toOption = none := rfl

@[simp] theorem toOption_pure (value : α) :
    (pure value : Except ε α).toOption = some value := rfl

@[simp] theorem toOption_throw (fault : ε) :
    (throw fault : Except ε α).toOption = none := rfl

/-- The value of a sequence is that of its second part. -/
@[simp] theorem toOption_bind (first : Except ε α) (next : α → Except ε β) :
    (first >>= next).toOption = first.toOption.bind fun value =>
      (next value).toOption := by
  cases first <;> rfl

@[simp] theorem toOption_map (f : α → β) (result : Except ε α) :
    (f <$> result).toOption = result.toOption.map f := by
  cases result <;> rfl

/-- The values of a map are a map of values. -/
theorem toOption_mapM (f : ι → Except ε α) (inputs : List ι) :
    (inputs.mapM f).toOption = inputs.mapM fun input => (f input).toOption := by
  induction inputs with
  | nil => rfl
  | cons input inputs inductionHypothesis =>
    rw [List.mapM_cons, List.mapM_cons, ← inductionHypothesis]
    cases f input <;> cases inputs.mapM f <;> rfl

/-- Computations with the same success are in lockstep. -/
theorem lockstep_of_toOption_eq {first : Result α} {second : Result β}
    {f : α → γ} {g : β → γ}
    (same : first.toOption.map f = second.toOption.map g) :
    Lockstep (fun value value' => f value = g value') first second := by
  cases first with
  | error fault =>
    cases second with
    | error fault' => exact .errors fault fault'
    | ok value' => simp at same
  | ok value =>
    cases second with
    | error fault' => simp at same
    | ok value' => exact .ok (by simpa using same)

/-! ## Optional maps -/

/-- Values are mapped before or after they are collected. -/
theorem mapM_map_some (f : ι → Option α) (g : α → β) (inputs : List ι) :
    (inputs.mapM f).map (List.map g) =
      inputs.mapM fun input => (f input).map g := by
  induction inputs with
  | nil => rfl
  | cons input inputs inductionHypothesis =>
    rw [List.mapM_cons, List.mapM_cons, ← inductionHypothesis]
    cases f input <;> cases inputs.mapM f <;> rfl

/-- The pairs of two computations for each input. -/
def bothOf (f : ι → Option α) (g : ι → Option β) (input : ι) :
    Option (α × β) :=
  (f input).bind fun first => (g input).map (Prod.mk first)

/-- Both sides may be computed one by one and combined at the end. -/
theorem mapM_bothOf (f : ι → Option α) (g : ι → Option β) (inputs : List ι)
    (combine : List α → List β → γ) :
    ((inputs.mapM g).bind fun seconds =>
        (inputs.mapM f).map fun firsts => combine firsts seconds) =
      (inputs.mapM (bothOf f g)).map fun pairs =>
        combine (pairs.map Prod.fst) (pairs.map Prod.snd) := by
  induction inputs generalizing combine with
  | nil => rfl
  | cons input inputs inductionHypothesis =>
    cases firstEq : f input with
    | none => simp [bothOf, firstEq]
    | some first =>
      cases secondEq : g input with
      | none => simp [bothOf, secondEq]
      | some second =>
        simpa [bothOf, firstEq, secondEq, Option.bind_assoc,
          Option.map_eq_bind, Function.comp_def] using
          inductionHypothesis fun firsts seconds =>
            combine (first :: firsts) (second :: seconds)

/-- Each input of a map that succeeds has its output. -/
theorem exists_mem_of_mapM_eq_some {f : ι → Option α} {inputs : List ι}
    {outputs : List α} (mapped : inputs.mapM f = some outputs) {input : ι}
    (member : input ∈ inputs) : ∃ output ∈ outputs, f input = some output := by
  induction inputs generalizing outputs with
  | nil => exact absurd member List.not_mem_nil
  | cons head tail inductionHypothesis =>
    rw [List.mapM_cons] at mapped
    obtain ⟨first, firstEq, mapped⟩ := Option.bind_eq_some_iff.mp mapped
    obtain ⟨rest, restEq, mapped⟩ := Option.bind_eq_some_iff.mp mapped
    obtain rfl := Option.some.inj mapped
    rcases List.mem_cons.mp member with rfl | inTail
    · exact ⟨first, List.mem_cons_self, firstEq⟩
    · obtain ⟨output, inRest, outputEq⟩ := inductionHypothesis restEq inTail
      exact ⟨output, List.mem_cons_of_mem _ inRest, outputEq⟩

/-! ## Computations that succeed -/

/-- The computation succeeds, and its value has the property. -/
def Yields (P : α → Prop) (result : Except ε α) : Prop :=
  ∃ value, result = .ok value ∧ P value

namespace Yields

variable {P : α → Prop} {Q : β → Prop}

theorem ok {value : α} (holds : P value) :
    Yields P (.ok value : Except ε α) :=
  ⟨value, rfl, holds⟩

/-- A sequence yields what its second part does. -/
theorem bind {first : Except ε α} {next : α → Except ε β}
    (yields : Yields P first)
    (yieldsNext : ∀ value, P value → Yields Q (next value)) :
    Yields Q (first >>= next) := by
  obtain ⟨value, found, holds⟩ := yields
  rw [found]
  exact yieldsNext value holds

/-- A map yields a list of what each input yields. -/
theorem mapM {f : ι → Except ε α} {inputs : List ι}
    (yields : ∀ input ∈ inputs, Yields P (f input)) :
    Yields (fun values => ∀ value ∈ values, P value) (inputs.mapM f) := by
  induction inputs with
  | nil => exact .ok (by simp)
  | cons input inputs inductionHypothesis =>
    have ⟨head, tail⟩ := List.forall_mem_cons.mp yields
    rw [List.mapM_cons]
    exact head.bind fun value holds =>
      (inductionHypothesis tail).bind fun values rest =>
        .ok (List.forall_mem_cons.mpr ⟨holds, rest⟩)

/-- What each round of a loop keeps holds at its end. -/
theorem foldlM {body : α → ι → Except ε α} {inputs : List ι}
    (yields : ∀ input ∈ inputs, ∀ value, P value → Yields P (body value input))
    {value : α} (holds : P value) : Yields P (inputs.foldlM body value) := by
  induction inputs generalizing value with
  | nil => exact .ok holds
  | cons input inputs inductionHypothesis =>
    have ⟨head, tail⟩ := List.forall_mem_cons.mp yields
    rw [List.foldlM_cons]
    exact (head value holds).bind fun next => inductionHypothesis tail

end Yields

end Successes

end VirtualPeople
