import Mathlib

/-!
# Copies between fields

A state with typed fields that are read and written one at a time, and lists of
copies from one field to another, made in order.  When no copy writes what a
copy after it reads or writes, and none writes over one before it, each copy
takes its value from the state that the list was started in.
-/

namespace VirtualPeople

/-- Readers and writers of the fields of a state, each of which holds values of
one kind. -/
structure FieldAccess (State Field Kind : Type) (Value : Kind → Type) where
  kindOf : Field → Kind
  get : (kind : Kind) → State → Field → Option (Value kind)
  set : (kind : Kind) → State → Field → Value kind → State

namespace FieldAccess

variable {State Field Kind : Type} {Value : Kind → Type}
  (access : FieldAccess State Field Kind Value)

/-- What is written is read back, and fields that are apart keep their values. -/
structure Lawful (apart : Field → Field → Prop) : Prop where
  get_set {kind : Kind} {field : Field} (state : State) (value : Value kind) :
    access.kindOf field = kind →
      access.get kind (access.set kind state field value) field = some value
  get_set_apart {kind kind' : Kind} {field other : Field} (state : State)
    (value : Value kind) : access.kindOf field = kind →
      access.kindOf other = kind' → apart field other →
        access.get kind' (access.set kind state field value) other =
          access.get kind' state other

/-- A copy from one field to another of its kind. -/
structure Copy where
  kind : Kind
  source : Field
  target : Field
  sourceKind : access.kindOf source = kind
  targetKind : access.kindOf target = kind

variable {access}

/-- The value of the source, when it is set, is written to the target. -/
def copy (state : State) (step : access.Copy) : State :=
  match access.get step.kind state step.source with
  | some value => access.set step.kind state step.target value
  | none => state

/-- The first copy writes nothing that the second one reads or writes, and is
not written over by it. -/
structure Copy.Separate (apart : Field → Field → Prop)
    (first second : access.Copy) : Prop where
  source : apart first.target second.source
  target : apart first.target second.target
  written : apart second.target first.target

variable {apart : Field → Field → Prop}

namespace Lawful

variable (lawful : access.Lawful apart)

include lawful

theorem get_copy_target (state : State) (step : access.Copy) :
    access.get step.kind (copy state step) step.target =
      (access.get step.kind state step.source).or
        (access.get step.kind state step.target) := by
  unfold copy
  cases access.get step.kind state step.source with
  | none => rfl
  | some value => exact lawful.get_set state value step.targetKind

theorem get_copy_apart {kind : Kind} {field : Field}
    (isKind : access.kindOf field = kind) (state : State) {step : access.Copy}
    (isApart : apart step.target field) :
    access.get kind (copy state step) field = access.get kind state field := by
  unfold copy
  cases access.get step.kind state step.source with
  | none => rfl
  | some value =>
    exact lawful.get_set_apart state value step.targetKind isKind isApart

/-- A field that is apart from all targets keeps its value. -/
theorem get_foldl_apart {kind : Kind} {field : Field}
    (isKind : access.kindOf field = kind) {copies : List access.Copy}
    (isApart : ∀ step ∈ copies, apart step.target field) (state : State) :
    access.get kind (copies.foldl copy state) field =
      access.get kind state field := by
  induction copies generalizing state with
  | nil => rfl
  | cons step copies inductionHypothesis =>
    have ⟨head, tail⟩ := List.forall_mem_cons.mp isApart
    rw [List.foldl_cons, inductionHypothesis tail,
      lawful.get_copy_apart isKind state head]

/-- Separate copies read the state that the list was started in. -/
theorem get_foldl_target {copies : List access.Copy}
    (separate : copies.Pairwise (Copy.Separate apart)) {step : access.Copy}
    (member : step ∈ copies) (state : State) :
    access.get step.kind (copies.foldl copy state) step.target =
      (access.get step.kind state step.source).or
        (access.get step.kind state step.target) := by
  induction copies generalizing state with
  | nil => exact absurd member List.not_mem_nil
  | cons first copies inductionHypothesis =>
    obtain ⟨fromFirst, rest⟩ := List.pairwise_cons.mp separate
    rw [List.foldl_cons]
    rcases List.mem_cons.mp member with rfl | inRest
    · rw [lawful.get_foldl_apart step.targetKind
          (fun later inCopies => (fromFirst later inCopies).written),
        lawful.get_copy_target]
    · have apartFirst := fromFirst step inRest
      rw [inductionHypothesis rest inRest,
        lawful.get_copy_apart step.sourceKind state apartFirst.source,
        lawful.get_copy_apart step.targetKind state apartFirst.target]

end Lawful

end FieldAccess

end VirtualPeople
