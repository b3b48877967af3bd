import VirtualPeople.Cc.ModelNode

/-!
# What leaves do to an event

In pool identity mode a leaf only announces its pool, if it is a ranked one; in
full mode it creates at most one person.  Both are functions of the event, and
the application of a leaf adds their value to the event.
-/

namespace VirtualPeople.Cc

variable {X : Externals}

/-- The person a leaf creates once it has looked for an id. -/
def createdPerson (event : X.Event) (found : Result UInt64) :
    Result (List X.Activity) := do
  let vid ← found
  let label ← writtenLabel X event vid
  return [⟨some vid, label⟩]

namespace LeafNode

/-- The pool assignments a leaf announces in pool identity mode. -/
def announced : LeafNode → List PoolAssignment
  | .stopNode => []
  | .populationNode _ => []
  | .rankedPopulationNode node => [node.poolAssignment]

/-- The people a leaf creates in full mode. -/
def people : LeafNode → X.Event → Result (List X.Activity)
  | .stopNode, _ => return []
  | .populationNode node, event =>
    createdPerson event (node.virtualPersonId event)
  | .rankedPopulationNode node, event =>
    createdPerson event (node.virtualPersonId event)

/-- The id that a leaf looks for, if it does. -/
def virtualPersonId (leaf : LeafNode) (event : X.Event) :
    Option (Result UInt64) :=
  match leaf with
  | .stopNode => none
  | .populationNode node => some (node.virtualPersonId event)
  | .rankedPopulationNode node => some (node.virtualPersonId event)

end LeafNode

/-- The created person has the id that was found, and the label written for it. -/
theorem createdPerson_ok_iff {event : X.Event} {found : Result UInt64}
    {people : List X.Activity} :
    createdPerson event found = .ok people ↔
      ∃ vid label, found = .ok vid ∧ writtenLabel X event vid = .ok label ∧
        people = [⟨some vid, label⟩] := by
  unfold createdPerson
  rw [bind_eq_ok_iff]
  constructor
  · rintro ⟨vid, foundEq, rest⟩
    obtain ⟨label, labelEq, peopleEq⟩ := bind_eq_ok_iff.mp rest
    exact ⟨vid, label, foundEq, labelEq, (Except.ok.inj peopleEq).symm⟩
  · rintro ⟨vid, label, foundEq, labelEq, rfl⟩
    exact ⟨vid, foundEq, bind_eq_ok_iff.mpr ⟨label, labelEq, rfl⟩⟩

/-- The activity is created when the person is. -/
theorem createActivity_ok_iff_createdPerson {found : Result UInt64}
    {event final : X.Event} :
    createActivity X found event = .ok () final ↔
      ∃ people, createdPerson event found = .ok people ∧
        final = { event with virtualPersonActivities := people } := by
  rw [createActivity_ok_iff]
  constructor
  · rintro ⟨vid, label, foundEq, labelEq, rfl⟩
    exact ⟨_, createdPerson_ok_iff.mpr ⟨vid, label, foundEq, labelEq, rfl⟩,
      rfl⟩
  · rintro ⟨people, created, rfl⟩
    obtain ⟨vid, label, foundEq, labelEq, rfl⟩ := createdPerson_ok_iff.mp created
    exact ⟨vid, label, foundEq, labelEq, rfl⟩

/-- Creating the activity fails as creating the person does. -/
theorem createdPerson_of_createActivity_error {found : Result UInt64}
    {event final : X.Event} {fault : Fault}
    (failed : createActivity X found event = .error fault final) :
    createdPerson event found = .error fault := by
  unfold createActivity at failed
  rw [Step.run_bind_of_ok _ (run_setActivity X ⟨none, none⟩ event)] at failed
  cases found with
  | error notFound =>
    injection failed with sameFault
    exact congrArg Except.error sameFault
  | ok vid =>
    have notWritten : writtenLabel X event vid = .error fault :=
      writtenLabel_of_error failed
    change (writtenLabel X event vid >>= _) = _
    rw [notWritten]
    rfl

/-- On a copy of the event, the activity is the created person. -/
theorem applyToCopy_createActivity (found : Result UInt64) (event : X.Event) :
    applyToCopy (createActivity X found) event =
      createdPerson event found >>= fun people =>
        pure { event with virtualPersonActivities := people } := by
  cases run : createActivity X found event with
  | error fault final =>
    rw [applyToCopy_of_error run, createdPerson_of_createActivity_error run]
    rfl
  | ok value final =>
    obtain ⟨people, created, rfl⟩ :=
      createActivity_ok_iff_createdPerson.mp run
    rw [applyToCopy_of_ok run, created]
    rfl

namespace LeafNode

/-- In the pool identity mode a leaf only announces its pools. -/
theorem apply_of_poolIdentity (leaf : LeafNode) {event : X.Event}
    (identity : event.poolIdentityMode.getD false = true) :
    leaf.apply event = .ok () { event with
      poolAssignments := event.poolAssignments ++ leaf.announced } := by
  cases leaf with
  | stopNode =>
    rw [announced, List.append_nil]
    rfl
  | populationNode node =>
    rw [announced, List.append_nil]
    change PopulationNodeImpl.apply node event = _
    unfold PopulationNodeImpl.apply
    rw [Step.run_bind_of_ok _ (Step.run_get event), identity]
    rfl
  | rankedPopulationNode node =>
    change RankedPopulationNodeImpl.apply node event = _
    unfold RankedPopulationNodeImpl.apply
    rw [Step.run_bind_of_ok _ (Step.run_get event), identity]
    rfl

/-- Full labeling of an event without people gives it those of the leaf. -/
theorem apply_of_full (leaf : LeafNode) {event final : X.Event}
    (full : event.poolIdentityMode.getD false = false)
    (unlabeled : event.virtualPersonActivities = []) :
    leaf.apply event = .ok () final ↔
      ∃ people, leaf.people event = .ok people ∧
        final = { event with virtualPersonActivities := people } := by
  cases leaf with
  | stopNode =>
    constructor
    · intro applied
      injection applied with _ same
      refine ⟨[], rfl, ?_⟩
      rw [← unlabeled, same]
    · rintro ⟨people, peopleEq, rfl⟩
      rw [← Except.ok.inj peopleEq, ← unlabeled]
      rfl
  | populationNode node =>
    rw [people, ← createActivity_ok_iff_createdPerson]
    change PopulationNodeImpl.apply node event = _ ↔ _
    unfold PopulationNodeImpl.apply
    rw [Step.run_bind_of_ok _ (Step.run_get event), full, unlabeled]
    rfl
  | rankedPopulationNode node =>
    rw [people, ← createActivity_ok_iff_createdPerson]
    change RankedPopulationNodeImpl.apply node event = _ ↔ _
    unfold RankedPopulationNodeImpl.apply
    rw [Step.run_bind_of_ok _ (Step.run_get event), full, unlabeled]
    rfl

/-- A leaf that fails in full labeling has failed to create its person. -/
theorem people_of_apply_error {leaf : LeafNode} {event final : X.Event}
    {fault : Fault} (full : event.poolIdentityMode.getD false = false)
    (unlabeled : event.virtualPersonActivities = [])
    (failed : leaf.apply event = .error fault final) :
    leaf.people event = .error fault := by
  cases leaf with
  | stopNode => contradiction
  | populationNode node =>
    change PopulationNodeImpl.apply node event = _ at failed
    unfold PopulationNodeImpl.apply at failed
    rw [Step.run_bind_of_ok _ (Step.run_get event), full, unlabeled] at failed
    exact createdPerson_of_createActivity_error failed
  | rankedPopulationNode node =>
    change RankedPopulationNodeImpl.apply node event = _ at failed
    unfold RankedPopulationNodeImpl.apply at failed
    rw [Step.run_bind_of_ok _ (Step.run_get event), full, unlabeled] at failed
    exact createdPerson_of_createActivity_error failed

/-- What the application of a leaf makes of an event: a pool that is announced,
or the person whose id is looked for. -/
theorem applyToCopy_apply (leaf : LeafNode) (event : X.Event) :
    applyToCopy leaf.apply event =
      if event.poolIdentityMode.getD false then
        .ok { event with
          poolAssignments := event.poolAssignments ++ leaf.announced }
      else
        match leaf.virtualPersonId event with
        | none => .ok event
        | some found =>
          if 0 < event.virtualPersonActivities.length then
            .error (invalidArgument
              "virtual_person_activities should only be created in leaf nodes.")
          else
            createdPerson event found >>= fun people =>
              pure { event with virtualPersonActivities := people } := by
  by_cases identity : event.poolIdentityMode.getD false = true
  · rw [if_pos identity,
      applyToCopy_of_ok (leaf.apply_of_poolIdentity identity)]
  · rw [if_neg identity]
    cases leaf with
    | stopNode => rfl
    | populationNode node =>
      change applyToCopy (PopulationNodeImpl.apply node) event = _
      have found : (populationNode node).virtualPersonId event =
        some (node.virtualPersonId event) := rfl
      simp only [found]
      rw [← applyToCopy_createActivity]
      unfold applyToCopy PopulationNodeImpl.apply
      rw [Step.run_bind_of_ok _ (Step.run_get event), if_neg identity]
      split_ifs <;> rfl
    | rankedPopulationNode node =>
      change applyToCopy (RankedPopulationNodeImpl.apply node) event = _
      have found : (rankedPopulationNode node).virtualPersonId event =
        some (node.virtualPersonId event) := rfl
      simp only [found]
      rw [← applyToCopy_createActivity]
      unfold applyToCopy RankedPopulationNodeImpl.apply
      rw [Step.run_bind_of_ok _ (Step.run_get event), if_neg identity]
      split_ifs <;> rfl

/-- Each person of a leaf comes with the id the leaf has found. -/
theorem people_ids {leaf : LeafNode} {event : X.Event}
    {people : List X.Activity} (created : leaf.people event = .ok people)
    {activity : X.Activity} (member : activity ∈ people) :
    ∃ vid, activity.virtualPersonId = some vid ∧
      leaf.virtualPersonId event = some (.ok vid) := by
  cases leaf with
  | stopNode =>
    rw [← Except.ok.inj created] at member
    exact absurd member List.not_mem_nil
  | populationNode node =>
    obtain ⟨vid, label, foundEq, -, rfl⟩ := createdPerson_ok_iff.mp created
    rw [List.mem_singleton] at member
    exact ⟨vid, by rw [member], congrArg some foundEq⟩
  | rankedPopulationNode node =>
    obtain ⟨vid, label, foundEq, -, rfl⟩ := createdPerson_ok_iff.mp created
    rw [List.mem_singleton] at member
    exact ⟨vid, by rw [member], congrArg some foundEq⟩

end LeafNode

end VirtualPeople.Cc
