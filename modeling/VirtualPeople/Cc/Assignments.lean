import VirtualPeople.Cc.AttributesUpdater
import VirtualPeople.FieldCopies

/-!
# Conditional assignments

A conditional assignment copies fields of an event in the order of its
configuration.  Copies that are separate from each other act at once: each of
them reads the event from before the update, and no other field changes.
-/

namespace VirtualPeople

open FieldAccess

/-- The fields of events, as the field access functions read and write them. -/
def eventFields (X : Externals) :
    FieldAccess X.Event X.FieldPath CppType CppType.Value where
  kindOf path := (X.fieldType path).cppType
  get := X.getValueFromProto
  set := X.setValueToProto

variable {X : Externals}

/-- The configuration names the fields of the copy. -/
structure Assignment.Names (config : Assignment) (step : (eventFields X).Copy) :
    Prop where
  source : ∃ name, config.sourceField = some name ∧
    X.getFieldFromProto name = .ok step.source
  target : ∃ name, config.targetField = some name ∧
    X.getFieldFromProto name = .ok step.target

namespace Cc

/-- The function for a type assigns values of the type. -/
theorem getAssignmentFunction_eq_ok {type : CppType}
    {assignment : X.Event → X.FieldPath → X.FieldPath → X.Event}
    (found : getAssignmentFunction X type = .ok assignment) :
    assignment = assign X type := by
  cases type <;> first | exact (Except.ok.inj found).symm | contradiction

/-- An assignment copies a field. -/
theorem assign_eq_copy (step : (eventFields X).Copy) (event : X.Event) :
    assign X step.kind event step.source step.target = copy event step := by
  unfold assign copy
  cases found : X.getValueFromProto step.kind event step.source <;>
    simp only [eventFields, found]

namespace ConditionalAssignmentImpl

/-- A built assignment is a copy between the fields that it names. -/
theorem exists_copy_of_buildAssignment {config : Assignment}
    {assignment : FieldAssignment X}
    (built : buildAssignment config = .ok assignment) :
    ∃ step : (eventFields X).Copy, config.Names step ∧
      ∀ event, assignment.assign event assignment.source assignment.target =
        copy event step := by
  obtain ⟨sourceField, targetField⟩ := config
  unfold buildAssignment at built
  cases sourceField with
  | none => contradiction
  | some sourceField =>
    cases targetField with
    | none => contradiction
    | some targetField =>
      obtain ⟨source, sourceEq, built⟩ := bind_eq_ok_iff.mp built
      obtain ⟨target, targetEq, built⟩ := bind_eq_ok_iff.mp built
      split_ifs at built with sameType
      obtain ⟨function, functionEq, built⟩ := bind_eq_ok_iff.mp built
      obtain rfl := Except.ok.inj built
      obtain rfl := getAssignmentFunction_eq_ok functionEq
      let step : (eventFields X).Copy :=
        ⟨_, source, target, rfl, (not_not.mp sameType).symm⟩
      exact ⟨step, ⟨⟨sourceField, rfl, sourceEq⟩, ⟨targetField, rfl, targetEq⟩⟩,
        assign_eq_copy step⟩

/-- The assignments of an updater are copies, one after the other. -/
theorem exists_copies {configs : List Assignment}
    {assignments : List (FieldAssignment X)}
    (built : configs.mapM buildAssignment = .ok assignments) :
    ∃ steps : List (eventFields X).Copy,
      List.Forall₂ Assignment.Names configs steps ∧
      ∀ event, assignments.foldl (fun event assignment =>
          assignment.assign event assignment.source assignment.target) event =
        steps.foldl copy event := by
  have each := mapM_eq_ok_iff.mp built
  clear built
  induction each with
  | nil => exact ⟨[], .nil, fun _ => rfl⟩
  | cons head _ inductionHypothesis =>
    obtain ⟨step, names, isCopy⟩ := exists_copy_of_buildAssignment head
    obtain ⟨steps, restNames, areCopies⟩ := inductionHypothesis
    refine ⟨step :: steps, .cons names restNames, fun event => ?_⟩
    rw [List.foldl_cons, List.foldl_cons, isCopy, areCopies]

/-- On an event that it matches a conditional assignment changes no field that
is apart from its targets, and when its copies are separate, each target gets
the value that its source had before, or keeps its own when that was not set.
Other events are not changed. -/
theorem update_at_once {apart : X.FieldPath → X.FieldPath → Prop}
    (lawful : (eventFields X).Lawful apart) {config : ConditionalAssignment X}
    {updater : ConditionalAssignmentImpl X}
    (built : build config = .ok updater) :
    ∃ steps : List (eventFields X).Copy,
      List.Forall₂ Assignment.Names config.assignments steps ∧
      ∀ event, ∃ updated, updater.update event = .ok updated ∧
        (X.isMatch updater.condition event = false → updated = event) ∧
        (∀ field, (∀ step ∈ steps, apart step.target field) →
          (eventFields X).get ((eventFields X).kindOf field) updated field =
            (eventFields X).get ((eventFields X).kindOf field) event field) ∧
        (X.isMatch updater.condition event = true →
          steps.Pairwise (Copy.Separate apart) → ∀ step ∈ steps,
            (eventFields X).get step.kind updated step.target =
              ((eventFields X).get step.kind event step.source).or
                ((eventFields X).get step.kind event step.target)) := by
  unfold build at built
  cases conditionEq : config.condition with
  | none =>
    rw [conditionEq] at built
    contradiction
  | some condition =>
    rw [conditionEq] at built
    simp only at built
    split_ifs at built
    obtain ⟨filter, -, built⟩ := bind_eq_ok_iff.mp built
    obtain ⟨assignments, assignmentsBuilt, built⟩ := bind_eq_ok_iff.mp built
    obtain rfl := Except.ok.inj built
    obtain ⟨steps, names, areCopies⟩ := exists_copies assignmentsBuilt
    refine ⟨steps, names, fun event => ?_⟩
    cases matched : X.isMatch filter event with
    | false =>
      have unchanged : update ⟨filter, assignments⟩ event = .ok event := by
        simp [update, matched, pure, Except.pure]
      exact ⟨event, unchanged, fun _ => rfl, fun _ _ => rfl, by simp⟩
    | true =>
      have copied : update ⟨filter, assignments⟩ event =
          .ok (steps.foldl copy event) := by
        simp [update, matched, areCopies, pure, Except.pure]
      exact ⟨_, copied, by simp,
        fun field isApart => lawful.get_foldl_apart rfl isApart event,
        fun _ separate step member =>
          lawful.get_foldl_target separate member event⟩

/-- The paths of three numbers of an event. -/
inductive NumberPath
  | actingFingerprint
  | idFingerprint
  | spare
  deriving DecidableEq

/-- External functions that read and write these numbers. -/
def numberExternals : Externals :=
  { Externals.constant with
    EventFields := Option UInt64
    emptyEventFields := none
    FieldPath := NumberPath
    mergeEvent := fun event _ => event
    mergeMask := fun _ event => event
    serializePartialAsString := fun _ => ByteArray.empty
    printToString := fun _ => ""
    newFieldFilterFromEvent := fun _ => .ok ()
    isMatch := fun _ _ => true
    getFieldFromProto := fun name =>
      if name = "acting_fingerprint" then .ok .actingFingerprint
      else if name = "labeler_input.event_id.id_fingerprint" then
        .ok .idFingerprint
      else if name = "spare" then .ok .spare
      else .error (invalidArgument "The field name is invalid: ")
    fieldType := fun _ => .uint64
    getValueFromProto := fun type event path =>
      match type, path with
      | .uint64, .actingFingerprint => event.actingFingerprint
      | .uint64, .idFingerprint => do
        let labelerInput ← event.labelerInput
        let eventId ← labelerInput.eventId
        eventId.idFingerprint
      | .uint64, .spare => event.others
      | _, _ => none
    setValueToProto := fun type event path =>
      match type, path with
      | .uint64, .actingFingerprint => fun value =>
        { event with actingFingerprint := some value }
      | .uint64, .idFingerprint => fun value =>
        let labelerInput := event.labelerInput.getD
          Externals.constant.emptyInput
        { event with labelerInput := some { labelerInput with
            eventId := some { labelerInput.eventId.getD ⟨none, none⟩ with
              idFingerprint := some value } } }
      | .uint64, .spare => fun value => { event with others := some value }
      | _, _ => fun _ => event }

/-- The number fields hold what is written to them. -/
theorem lawful_numberExternals :
    (eventFields numberExternals).Lawful (· ≠ ·) where
  get_set state value isKind := by
    subst isKind
    rename_i field
    cases field <;> rfl
  get_set_apart state value isKind isKind' isApart := by
    subst isKind isKind'
    rename_i field other
    cases field <;> cases other <;> first | contradiction | rfl

/-- The copy of a number from one path to another. -/
def numberCopy (source target : NumberPath) :
    (eventFields numberExternals).Copy :=
  ⟨.uint64, source, target, rfl, rfl⟩

/-- An assignment names the copy between its two paths. -/
theorem Assignment.Names.eq_numberCopy {sourceField targetField : String}
    {step : (eventFields numberExternals).Copy} {source target : NumberPath}
    (names : Assignment.Names ⟨some sourceField, some targetField⟩ step)
    (sourceEq : numberExternals.getFieldFromProto sourceField = .ok source)
    (targetEq : numberExternals.getFieldFromProto targetField = .ok target) :
    step = numberCopy source target := by
  obtain ⟨⟨_, sourceName, isSource⟩, ⟨_, targetName, isTarget⟩⟩ := names
  obtain rfl := Option.some.inj sourceName
  obtain rfl := Option.some.inj targetName
  obtain ⟨kind, source', target', rfl, targetKind⟩ := step
  obtain rfl := Except.ok.inj (sourceEq.symm.trans isSource)
  obtain rfl := Except.ok.inj (targetEq.symm.trans isTarget)
  rfl

/-- The fingerprint of an event id replaces that of the event, and is replaced
itself by another number. -/
theorem update_at_once_shifted :
    ∃ (updater : ConditionalAssignmentImpl numberExternals)
      (event updated : numberExternals.Event),
      updater.update event = .ok updated ∧
        event.actingFingerprint = some 3 ∧
        updated.actingFingerprint = some 5 ∧
        numberExternals.getValueFromProto .uint64 updated .idFingerprint =
          some 8 ∧
        updated.others = some 8 := by
  let event : numberExternals.Event :=
    { numberExternals.emptyEvent with
      actingFingerprint := some 3
      labelerInput := some { numberExternals.emptyInput with
        eventId := some ⟨none, some 5⟩ }
      others := some 8 }
  obtain ⟨steps, names, updates⟩ := update_at_once lawful_numberExternals
    (rfl : build ⟨some (), [⟨some "labeler_input.event_id.id_fingerprint",
      some "acting_fingerprint"⟩, ⟨some "spare",
      some "labeler_input.event_id.id_fingerprint"⟩]⟩ = .ok _)
  obtain rfl : steps = [numberCopy .idFingerprint .actingFingerprint,
      numberCopy .spare .idFingerprint] := by
    cases names with
    | cons head rest =>
      cases rest with
      | cons second rest =>
        cases rest
        rw [Assignment.Names.eq_numberCopy head rfl rfl,
          Assignment.Names.eq_numberCopy second rfl rfl]
  obtain ⟨updated, updateEq, -, others, copied⟩ := updates event
  have separate : [numberCopy .idFingerprint .actingFingerprint,
      numberCopy .spare .idFingerprint].Pairwise
        (FieldAccess.Copy.Separate (· ≠ ·)) :=
    List.pairwise_pair.mpr ⟨nofun, nofun, nofun⟩
  refine ⟨_, event, updated, updateEq, rfl,
    copied rfl separate _ List.mem_cons_self,
    copied rfl separate _ (List.mem_cons_of_mem _ List.mem_cons_self),
    others .spare ?_⟩
  intro step member
  rcases List.mem_pair.mp member with rfl | rfl <;> exact nofun

end ConditionalAssignmentImpl

end Cc

end VirtualPeople
