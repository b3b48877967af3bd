import VirtualPeople.Cc.PopulationNodeHelper

/-!
# Seeds, distributions and quantum labels, in Kotlin

`PopulationNodeHelper`, `DistributedConsistentHashing` and the hashes of the
Kotlin library.  A leaf builds its activity apart from the event and adds it at
the end, where the C++ leaves write into the event; `addActivity_agreeAt`
says that both end with the same event.
-/

namespace VirtualPeople.Kotlin

open Cc (DistributionChoice)

variable (X : Externals)

/-! ## Distributed consistent hashing -/

/-- `ULong.MAX_VALUE`. -/
def ulongMaxValue : UInt64 :=
  0xFFFFFFFFFFFFFFFF

/-- `floatHash`. -/
def floatHash (seed : String) : Float :=
  (X.fingerprint seed).toFloat / ulongMaxValue.toFloat

/-- `expHash`. -/
def expHash (seed : String) : Float :=
  -X.log (floatHash X seed)

/-- `DistributedConsistentHashing`, with the normalized distribution. -/
structure DistributedConsistentHashing where
  normalizedDistribution : List DistributionChoice

namespace DistributedConsistentHashing

/-- `NORMALIZE_ERROR`. -/
def normalizeError : Float :=
  0.0000001

/-- The sum of the probabilities, none of which may be negative. -/
def sumProbabilities (distribution : List DistributionChoice) :
    Result Float :=
  distribution.foldlM
    (fun probabilitiesSum choice =>
      if choice.probability < 0.0 then
        throw (.illegalState "Negative probability is provided.")
      else pure (probabilitiesSum + choice.probability))
    0.0

/-- The checks of the constructor. -/
def new (distribution : List DistributionChoice) :
    Result DistributedConsistentHashing :=
  if distribution.isEmpty then
    throw (.illegalState "The given distribution is empty.")
  else do
    let probabilitiesSum ← sumProbabilities distribution
    if probabilitiesSum < 1.0 - normalizeError ∨
        1.0 + normalizeError < probabilitiesSum then
      throw (.illegalState "Probabilities do not sum to 1.")
    else
      return ⟨distribution.map fun choice =>
        ⟨choice.choiceId, choice.probability / probabilitiesSum⟩⟩

/-- `getFullSeed`. -/
def getFullSeed (randomSeed : String) (choice : ℤ) : String :=
  "consistent-hashing-" ++ randomSeed ++ "-" ++ toString choice

/-- `computeXi`. -/
def computeXi (randomSeed : String) (choice : ℤ) (probability : Float) :
    Float :=
  -X.log (floatHash X (getFullSeed randomSeed choice)) / probability

/-- `Double.MAX_VALUE` -/
def doubleMaxValue : Float :=
  Float.ofBits 0x7FEFFFFFFFFFFFFF

/-- `DistributedConsistentHashing.hash`: the choice with the least hash, the
first of equal ones. -/
def hash (hashing : DistributedConsistentHashing) (randomSeed : String) : ℤ :=
  (hashing.normalizedDistribution.foldl
    (fun (chosen : ℤ × Float) choice =>
      let xi := computeXi X randomSeed choice.choiceId choice.probability
      if chosen.2 > xi then (choice.choiceId, xi) else chosen)
    (0, doubleMaxValue)).1

end DistributedConsistentHashing

/-! ## Quantum labels -/

namespace PopulationNodeHelper

/-- The seed that an event is hashed with. -/
def computeVidSeed (randomSeed : String) (actingFingerprint : Int64) :
    UInt64 :=
  X.fingerprint (randomSeed ++ toString actingFingerprint.toUInt64)

/-- `collapseQuantumLabel`: one of the labels, chosen by hash, is merged into
the output. -/
def collapseQuantumLabel (quantumLabel : QuantumLabel X.Label)
    (seedSuffix : String) (outputLabel : X.Label) : Result X.Label :=
  if quantumLabel.labels.length = 0 then
    throw (.illegalState "Empty quantum label.")
  else if quantumLabel.labels.length ≠ quantumLabel.probabilities.length then
    throw (.illegalState
      "The sizes of labels and probabilities are different in quantum label. ")
  else do
    let distribution := quantumLabel.probabilities.mapIdx
      fun index probability => (⟨index, probability⟩ : DistributionChoice)
    let hashing ← DistributedConsistentHashing.new distribution
    let index := hashing.hash X
      ("quantum-label-collapse-" ++ quantumLabel.seed ++ seedSuffix)
    let label ← Cc.elementAt quantumLabel.labels index
    return X.mergeLabel outputLabel label

/-- The loop over the quantum labels; `labelBuilder` creates a missing label. -/
def collapseQuantumLabels (quantumLabels : List (QuantumLabel X.Label))
    (seedSuffix : String) (label : Option X.Label) :
    Result (Option X.Label) :=
  quantumLabels.foldlM
    (fun label quantumLabel => do
      let collapsed ← collapseQuantumLabel X quantumLabel seedSuffix
        (label.getD X.emptyLabel)
      return some collapsed)
    label

/-- The label of an activity: from the quantum labels of the event, and then
from its classic label. -/
def activityLabel (event : X.Event) (seedSuffix : String) :
    Result (Option X.Label) := do
  let label ← collapseQuantumLabels X (event.quantumLabels.getD []) seedSuffix
    none
  match event.label with
  | some classic => return some (X.mergeLabel (label.getD X.emptyLabel) classic)
  | none => return label

/-- The end of a leaf that has picked an id: the labels, and the activity added
to the event. -/
def addActivity (virtualPersonId : Option UInt64) (seedSuffix : String) :
    Step X.Event Unit := do
  let event ← get
  let label ← Step.lift (activityLabel X event seedSuffix)
  set { event with virtualPersonActivities :=
    event.virtualPersonActivities ++
      [({ virtualPersonId := virtualPersonId, label := label } :
        X.Activity)] }

end PopulationNodeHelper

/-! ## Agreement -/

section Agreement

variable {X}

namespace DistributedConsistentHashing

theorem sumProbabilities_lockstep (distribution : List DistributionChoice) :
    Lockstep (· = ·)
      (Cc.DistributedConsistentHashing.sumProbabilities distribution)
      (sumProbabilities distribution) := by
  refine .foldlM_eq (fun choice _ sum => ?_) 0.0
  split_ifs
  · exact .errors _ _
  · exact .refl _

/-- Both languages divide the probabilities by the same sum. -/
theorem new_lockstep (distribution : List DistributionChoice) :
    Lockstep (fun hashing hashing' => hashing'.normalizedDistribution =
        hashing.distribution)
      (Cc.DistributedConsistentHashing.build distribution)
      (new distribution) := by
  unfold Cc.DistributedConsistentHashing.build new
  split_ifs
  · exact .errors _ _
  · refine .bind_eq (sumProbabilities_lockstep distribution) fun sum => ?_
    split_ifs with outside outside' outside'
    · exact .errors _ _
    · exact absurd outside outside'
    · exact absurd outside' outside
    · exact .ok rfl

/-- Both languages make the same choice. -/
theorem hash_eq {hashing : Cc.DistributedConsistentHashing}
    {hashing' : DistributedConsistentHashing}
    (same : hashing'.normalizedDistribution = hashing.distribution)
    (randomSeed : String) :
    hashing'.hash X randomSeed = hashing.hash X randomSeed := by
  unfold hash
  rw [same]
  rfl

end DistributedConsistentHashing

namespace PopulationNodeHelper

/-- Both languages collapse a quantum label alike. -/
theorem collapseQuantumLabel_agree (quantumLabel : QuantumLabel X.Label)
    (seedSuffix : String) (outputLabel : X.Label) :
    Agree (· = ·)
      (Cc.collapseQuantumLabel X quantumLabel seedSuffix outputLabel)
      (collapseQuantumLabel X quantumLabel seedSuffix outputLabel) := by
  unfold Cc.collapseQuantumLabel collapseQuantumLabel
  split_ifs
  · exact .errors _ _
  · exact .errors _ _
  · refine .bind (DistributedConsistentHashing.new_lockstep _).excusing
      fun hashing hashing' same => ?_
    rw [DistributedConsistentHashing.hash_eq same]
    exact .refl _

theorem collapseQuantumLabels_agree
    (quantumLabels : List (QuantumLabel X.Label)) (seedSuffix : String)
    (label : Option X.Label) :
    Agree (· = ·) (Cc.collapsedLabel X quantumLabels seedSuffix label)
      (collapseQuantumLabels X quantumLabels seedSuffix label) := by
  refine .foldlM_eq (fun quantumLabel _ label => ?_) label
  rw [map_eq_pure_bind]
  refine .bind_eq (collapseQuantumLabel_agree quantumLabel seedSuffix _)
    fun collapsed => ?_
  exact .refl _

/-- Both languages write the same label. -/
theorem activityLabel_agree (event : X.Event) (virtualPersonId : UInt64) :
    Agree (· = ·) (Cc.writtenLabel X event virtualPersonId)
      (activityLabel X event (toString virtualPersonId)) := by
  refine .bind_eq (collapseQuantumLabels_agree _ _ none) fun label => ?_
  cases event.label <;> exact .refl _

/-- The C++ leaf, whose activities are its own, ends as the Kotlin leaf, which
finds none. -/
theorem addActivity_agreeAt (virtualPersonId : UInt64) {event : X.Event}
    (found : event.virtualPersonActivities = [])
    (activities : List X.Activity) :
    Step.AgreeAt (· = ·)
      (Cc.writeLabels X virtualPersonId
        { event with virtualPersonActivities := activities })
      (addActivity X (some virtualPersonId) (toString virtualPersonId)
        event) := by
  have written := Cc.writeLabels_run virtualPersonId
    { event with virtualPersonActivities := activities }
  have agree := activityLabel_agree event virtualPersonId
  unfold addActivity
  rw [Step.run_bind_of_ok _ (Step.run_get event)]
  rw [show Cc.writtenLabel X
      { event with virtualPersonActivities := activities } virtualPersonId =
        Cc.writtenLabel X event virtualPersonId from rfl] at written
  generalize Cc.writtenLabel X event virtualPersonId = ccLabel at agree written
  generalize activityLabel X event (toString virtualPersonId) = label at agree ⊢
  cases agree with
  | excuse isConversion second =>
    obtain ⟨final, run⟩ := written
    rw [run, isConversion]
    exact .outOfRange _ _
  | errors fault fault' =>
    obtain ⟨final, run⟩ := written
    rw [run]
    exact .errors _ _ _ _
  | ok same =>
    subst same
    rw [show Cc.writeLabels X virtualPersonId _ = _ from written,
      Step.run_bind_of_ok _ (show Step.lift (.ok _) event = .ok _ event from rfl),
      Step.run_set, found]
    exact .ok rfl _

end PopulationNodeHelper

end Agreement

end VirtualPeople.Kotlin
