import VirtualPeople.Config

/-!
# Distributed consistent hashing and quantum labels

The choice of a distribution entry by exponential hashes, and the collapse of
quantum labels that both leaf nodes share.
-/

namespace VirtualPeople.Cc

variable (X : Externals)

/-! ## Hashes -/

/-- `std::numeric_limits<uint64_t>::max()` -/
def uint64Max : UInt64 :=
  0xFFFFFFFFFFFFFFFF

/-- `std::numeric_limits<double>::max()` -/
def doubleMax : Float :=
  Float.ofBits 0x7FEFFFFFFFFFFFFF

/-- `FloatHash`. -/
def floatHash (seed : String) : Float :=
  (X.fingerprint seed).toFloat / uint64Max.toFloat

/-- `ExpHash`. -/
def expHash (seed : String) : Float :=
  -X.log (floatHash X seed)

/-! ## Distributed consistent hashing -/

/-- A choice, with the probability that it is taken. -/
structure DistributionChoice where
  choiceId : ℤ
  probability : Float

/-- `kNormalizeError`. -/
def kNormalizeError : Float :=
  0.0000001

/-- Choices whose probabilities are divided by their sum. -/
structure DistributedConsistentHashing where
  distribution : List DistributionChoice

namespace DistributedConsistentHashing

/-- The sum of the probabilities, unless one of them is negative. -/
def sumProbabilities (distribution : List DistributionChoice) :
    Result Float :=
  distribution.foldlM
    (fun probabilitiesSum choice =>
      if choice.probability < 0.0 then
        throw (invalidArgument "Negative probability is provided.")
      else pure (probabilitiesSum + choice.probability))
    0.0

/-- `DistributedConsistentHashing::Build`. -/
def build (distribution : List DistributionChoice) :
    Result DistributedConsistentHashing :=
  if distribution.isEmpty then
    throw (invalidArgument "The given distribution is empty.")
  else do
    let probabilitiesSum ← sumProbabilities distribution
    if probabilitiesSum < 1.0 - kNormalizeError ∨
        1.0 + kNormalizeError < probabilitiesSum then
      throw (invalidArgument "Probabilities do not sum to 1.")
    else
      return ⟨distribution.map fun choice =>
        { choice with probability := choice.probability / probabilitiesSum }⟩

/-- `GetFullSeed`. -/
def getFullSeed (randomSeed : String) (choice : ℤ) : String :=
  "consistent-hashing-" ++ randomSeed ++ "-" ++ toString choice

/-- `ComputeXi`. -/
def computeXi (randomSeed : String) (choice : ℤ) (probability : Float) :
    Float :=
  expHash X (getFullSeed randomSeed choice) / probability

/-- `Hash`: the choice with the least hash, the first of equal ones. -/
def hash (hashing : DistributedConsistentHashing) (randomSeed : String) : ℤ :=
  (hashing.distribution.foldl
    (fun (chosen : ℤ × Float) choice =>
      let xi := computeXi X randomSeed choice.choiceId choice.probability
      if xi < chosen.2 then (choice.choiceId, xi) else chosen)
    (0, doubleMax)).1

end DistributedConsistentHashing

/-- The choices of a list of probabilities, numbered from zero. -/
def enumerateChoices (probabilities : List Float) : List DistributionChoice :=
  probabilities.mapIdx fun index probability => ⟨index, probability⟩

/-! ## Quantum labels -/

/-- An element of a sequence read by a signed index. -/
def elementAt {α : Type} (elements : List α) (index : ℤ) : Result α :=
  if index < 0 then throw .outOfBounds
  else
    match elements[index.toNat]? with
    | some element => pure element
    | none => throw .outOfBounds

/-- Nothing is read outside of the list. -/
theorem elementAt_of_outside {α : Type} {elements : List α} {index : ℤ}
    (outside : index < 0 ∨ elements.length ≤ index) :
    elementAt elements index = .error .outOfBounds := by
  unfold elementAt
  split_ifs with negative
  · rfl
  · rw [List.getElem?_eq_none (by omega)]
    rfl

/-- A read inside of the list gives its element. -/
theorem elementAt_eq_ok_iff {α : Type} {elements : List α} {position : ℕ}
    {element : α} :
    elementAt elements (position : ℤ) = .ok element ↔
      elements[position]? = some element := by
  unfold elementAt
  rw [if_neg (by omega), Int.toNat_natCast]
  cases elements[position]? with
  | none => exact iff_of_false nofun nofun
  | some found => simp [pure, Except.pure]

/-- `CollapseQuantumLabel`: one of the labels, chosen by hash, is merged into
the output. -/
def collapseQuantumLabel (quantumLabel : QuantumLabel X.Label)
    (seedSuffix : String) (outputLabel : X.Label) : Result X.Label :=
  if quantumLabel.labels.length = 0 then
    throw (invalidArgument "Empty quantum label.")
  else if quantumLabel.labels.length ≠ quantumLabel.probabilities.length then
    throw (invalidArgument
      "The sizes of labels and probabilities are different in quantum label ")
  else do
    let hashing ← DistributedConsistentHashing.build
      (enumerateChoices quantumLabel.probabilities)
    let index := hashing.hash X
      ("quantum-label-collapse-" ++ quantumLabel.seed ++ seedSuffix)
    let label ← elementAt quantumLabel.labels index
    return X.mergeLabel outputLabel label

/-! ## The activity of a leaf -/

/-- A leaf finds no activity in the event, so the one it adds is the only one,
and its later writes replace it. -/
def setActivity (activity : X.Activity) : Step X.Event Unit :=
  modify fun event => { event with virtualPersonActivities := [activity] }

/-- One quantum label, collapsed into the label of the activity;
`mutable_label` creates that label before the collapse can fail. -/
def collapseInto (seedSuffix : String) (activity : X.Activity)
    (quantumLabel : QuantumLabel X.Label) : Step X.Event X.Activity := do
  let outputLabel := activity.label.getD X.emptyLabel
  setActivity X { activity with label := some outputLabel }
  let collapsed ← Step.lift
    (collapseQuantumLabel X quantumLabel seedSuffix outputLabel)
  setActivity X { activity with label := some collapsed }
  return { activity with label := some collapsed }

/-- The quantum labels are collapsed into the person one after another. -/
def collapseQuantumLabels (quantumLabels : List (QuantumLabel X.Label))
    (seedSuffix : String) (activity : X.Activity) :
    Step X.Event X.Activity :=
  quantumLabels.foldlM (collapseInto X seedSuffix) activity

/-- The labels of an activity whose id is assigned: the collapsed quantum
labels of the event first, and then its classic label. -/
def writeLabels (virtualPersonId : UInt64) : Step X.Event Unit := do
  let event ← get
  setActivity X ⟨some virtualPersonId, none⟩
  let activity ← collapseQuantumLabels X (event.quantumLabels.getD [])
    (toString virtualPersonId) ⟨some virtualPersonId, none⟩
  match event.label with
  | some label =>
    let outputLabel := activity.label.getD X.emptyLabel
    setActivity X
      { activity with label := some (X.mergeLabel outputLabel label) }
  | none => pure ()

/-- The part of a leaf that creates the activity: its id is found, or not, and
the labels follow. -/
def createActivity (found : Result UInt64) : Step X.Event Unit := do
  setActivity X ⟨none, none⟩
  let virtualPersonId ← Step.lift found
  writeLabels X virtualPersonId

@[simp] theorem run_setActivity (activity : X.Activity) (event : X.Event) :
    setActivity X activity event =
      .ok () { event with virtualPersonActivities := [activity] } := rfl

/-! ## The label as a function -/

/-- What a list of quantum labels makes of a label. -/
def collapsedLabel (quantumLabels : List (QuantumLabel X.Label))
    (seedSuffix : String) (label : Option X.Label) :
    Result (Option X.Label) :=
  quantumLabels.foldlM
    (fun label quantumLabel =>
      some <$> collapseQuantumLabel X quantumLabel seedSuffix
        (label.getD X.emptyLabel))
    label

/-- The label that the activity of an event ends with. -/
def writtenLabel (event : X.Event) (virtualPersonId : UInt64) :
    Result (Option X.Label) := do
  let label ← collapsedLabel X (event.quantumLabels.getD [])
    (toString virtualPersonId) none
  return match event.label with
    | some classic =>
      some (X.mergeLabel (label.getD X.emptyLabel) classic)
    | none => label

variable {X}

/-- A quantum label that collapses is written into the person. -/
theorem collapseInto_run_ok {seedSuffix : String} {activity : X.Activity}
    {quantumLabel : QuantumLabel X.Label} {collapsed : X.Label}
    (found : collapseQuantumLabel X quantumLabel seedSuffix
      (activity.label.getD X.emptyLabel) = .ok collapsed) (event : X.Event) :
    collapseInto X seedSuffix activity quantumLabel event =
      .ok { activity with label := some collapsed } { event with
        virtualPersonActivities :=
          [{ activity with label := some collapsed }] } := by
  unfold collapseInto
  rw [Step.run_bind_of_ok _ (run_setActivity X _ event), found]
  rfl

/-- A quantum label that does not collapse fails the step. -/
theorem collapseInto_run_error {seedSuffix : String} {activity : X.Activity}
    {quantumLabel : QuantumLabel X.Label} {fault : Fault}
    (found : collapseQuantumLabel X quantumLabel seedSuffix
      (activity.label.getD X.emptyLabel) = .error fault) (event : X.Event) :
    ∃ final, collapseInto X seedSuffix activity quantumLabel event =
      .error fault final := by
  unfold collapseInto
  rw [Step.run_bind_of_ok _ (run_setActivity X _ event), found]
  exact ⟨_, rfl⟩

/-- The loop computes the collapsed label, and leaves it in the event. -/
theorem collapseQuantumLabels_run
    (quantumLabels : List (QuantumLabel X.Label)) (seedSuffix : String)
    (activity : X.Activity) {event : X.Event}
    (found : event.virtualPersonActivities = [activity]) :
    match collapsedLabel X quantumLabels seedSuffix activity.label with
    | .ok label =>
      collapseQuantumLabels X quantumLabels seedSuffix activity event =
        .ok { activity with label := label } { event with
          virtualPersonActivities := [{ activity with label := label }] }
    | .error fault => ∃ final,
      collapseQuantumLabels X quantumLabels seedSuffix activity event =
        .error fault final := by
  induction quantumLabels generalizing activity event with
  | nil =>
    change EStateM.Result.ok activity event = _
    rw [← found]
  | cons quantumLabel quantumLabels inductionHypothesis =>
    rw [collapsedLabel, List.foldlM_cons, collapseQuantumLabels,
      List.foldlM_cons]
    cases collapsedEq : collapseQuantumLabel X quantumLabel seedSuffix
      (activity.label.getD X.emptyLabel) with
    | error fault =>
      obtain ⟨final, run⟩ := collapseInto_run_error collapsedEq event
      exact ⟨final, Step.run_bind_of_error _ run⟩
    | ok collapsed =>
      rw [Step.run_bind_of_ok _ (collapseInto_run_ok collapsedEq event)]
      exact inductionHypothesis { activity with label := some collapsed } rfl

/-- Writing the labels replaces the activities by one with the given id and
the written label. -/
theorem writeLabels_run (virtualPersonId : UInt64) (event : X.Event) :
    match writtenLabel X event virtualPersonId with
    | .ok label => writeLabels X virtualPersonId event = .ok () { event with
        virtualPersonActivities := [⟨some virtualPersonId, label⟩] }
    | .error fault => ∃ final,
      writeLabels X virtualPersonId event = .error fault final := by
  have collapseRun := @collapseQuantumLabels_run X
    (event.quantumLabels.getD []) (toString virtualPersonId)
    ⟨some virtualPersonId, none⟩
    { event with
      virtualPersonActivities := [⟨some virtualPersonId, none⟩] } rfl
  unfold writtenLabel writeLabels
  rw [Step.run_bind_of_ok _ (Step.run_get event),
    Step.run_bind_of_ok _ (run_setActivity X _ event)]
  cases labelEq : collapsedLabel X (event.quantumLabels.getD [])
      (toString virtualPersonId) none with
  | error fault =>
    rw [labelEq] at collapseRun
    obtain ⟨final, run⟩ := collapseRun
    exact ⟨final, Step.run_bind_of_error _ run⟩
  | ok label =>
    rw [labelEq] at collapseRun
    rw [Step.run_bind_of_ok _ collapseRun]
    cases event.label <;> rfl

/-- Labels that are written end in the event with the written label. -/
theorem writeLabels_ok {virtualPersonId : UInt64} {event final : X.Event}
    (run : writeLabels X virtualPersonId event = .ok () final) :
    ∃ label, writtenLabel X event virtualPersonId = .ok label ∧
      final = { event with
        virtualPersonActivities := [⟨some virtualPersonId, label⟩] } := by
  have written := writeLabels_run virtualPersonId event
  cases labelEq : writtenLabel X event virtualPersonId with
  | error fault =>
    rw [labelEq] at written
    obtain ⟨_, failed⟩ := written
    rw [failed] at run
    contradiction
  | ok label =>
    rw [labelEq] at written
    rw [show writeLabels X virtualPersonId event = _ from written] at run
    injection run with _ sameEvent
    exact ⟨label, rfl, sameEvent.symm⟩

/-- When writing labels fails, there is no label to write. -/
theorem writtenLabel_of_error {virtualPersonId : UInt64}
    {event final : X.Event} {fault : Fault}
    (run : writeLabels X virtualPersonId event = .error fault final) :
    writtenLabel X event virtualPersonId = .error fault := by
  have written := writeLabels_run virtualPersonId event
  cases labelEq : writtenLabel X event virtualPersonId with
  | ok label =>
    rw [labelEq, run] at written
    contradiction
  | error labelFault =>
    rw [labelEq, run] at written
    obtain ⟨_, same⟩ := written
    injection same with sameFault
    rw [sameFault]

/-- A label that can be written is written. -/
theorem writeLabels_of_ok {event : X.Event} {virtualPersonId : UInt64}
    {label : Option X.Label}
    (written : writtenLabel X event virtualPersonId = .ok label) :
    writeLabels X virtualPersonId event = .ok () { event with
      virtualPersonActivities := [⟨some virtualPersonId, label⟩] } := by
  have run := writeLabels_run virtualPersonId event
  rwa [written] at run

/-- The activity is created with the id that was found and the written label. -/
theorem createActivity_ok_iff {found : Result UInt64} {event final : X.Event} :
    createActivity X found event = .ok () final ↔
      ∃ vid label, found = .ok vid ∧ writtenLabel X event vid = .ok label ∧
        final = { event with
          virtualPersonActivities := [⟨some vid, label⟩] } := by
  unfold createActivity
  rw [Step.run_bind_of_ok _ (run_setActivity X ⟨none, none⟩ event)]
  constructor
  · intro run
    simp only [Step.run_bind_eq_ok_iff, Step.run_lift_eq_ok_iff] at run
    obtain ⟨vid, _, ⟨foundEq, rfl⟩, written⟩ := run
    obtain ⟨label, labelEq, finalEq⟩ := writeLabels_ok written
    exact ⟨vid, label, foundEq, labelEq, finalEq⟩
  · rintro ⟨vid, label, foundEq, labelEq, rfl⟩
    rw [foundEq]
    exact @writeLabels_of_ok X { event with
      virtualPersonActivities := [⟨none, none⟩] } vid label labelEq

end VirtualPeople.Cc
