import VirtualPeople.Cc.ModelNode

/-!
# Control fields

Four fields of an event say how it is labeled and hold what the leaves add:
the mode, the rank assignments, the activities and the pool assignments.  An
operation is neutral when it neither reads nor writes them.  Two events that
differ in these fields only are then routed alike.
-/

namespace VirtualPeople.Cc

variable {X : Externals}

/-- The fields that say how an event is labeled and hold what is added. -/
structure ControlFields (X : Externals) where
  poolIdentityMode : Option Bool
  rankAssignments : List RankAssignment
  virtualPersonActivities : List X.Activity
  poolAssignments : List PoolAssignment

/-- The control fields of the event. -/
def controlFields (event : X.Event) : ControlFields X where
  poolIdentityMode := event.poolIdentityMode
  rankAssignments := RankedPopulationNodeImpl.rankAssignments event
  virtualPersonActivities := event.virtualPersonActivities
  poolAssignments := event.poolAssignments

/-- The event with its control fields cleared. -/
def eraseControl (event : X.Event) : X.Event :=
  { event with
    labelerInput := event.labelerInput.map fun labelerInput =>
      { labelerInput with rankAssignments := [] }
    poolIdentityMode := none
    virtualPersonActivities := []
    poolAssignments := [] }

/-- Two events with the given control fields that are otherwise equal. -/
structure Alike (control control' : ControlFields X)
    (event event' : X.Event) : Prop where
  content : eraseControl event = eraseControl event'
  first : controlFields event = control
  second : controlFields event' = control'

/-- No leaf has added anything yet. -/
structure ControlFields.Unlabeled (control : ControlFields X) : Prop where
  activities : control.virtualPersonActivities = []
  assignments : control.poolAssignments = []

/-! ## Reads and writes -/

/-- A function of an event that does not read the control fields. -/
def NeutralRead {α : Type} (read : X.Event → α) : Prop :=
  ∀ event, read (eraseControl event) = read event

/-- A change of an event that neither reads nor writes the control fields. -/
structure NeutralWrite (write : X.Event → X.Event) : Prop where
  content : ∀ event, eraseControl (write event) = write (eraseControl event)
  control : ∀ event, controlFields (write event) = controlFields event

/-- A neutral read of events that are alike is the same. -/
theorem NeutralRead.eq {α : Type} {read : X.Event → α}
    (neutral : NeutralRead read) {control control' : ControlFields X}
    {event event' : X.Event} (alike : Alike control control' event event') :
    read event = read event' := by
  rw [← neutral event, ← neutral event', alike.content]

/-- A neutral write leaves events alike. -/
theorem NeutralWrite.alike {write : X.Event → X.Event}
    (neutral : NeutralWrite write) {control control' : ControlFields X}
    {event event' : X.Event} (alike : Alike control control' event event') :
    Alike control control' (write event) (write event') where
  content := by rw [neutral.content, neutral.content, alike.content]
  first := (neutral.control event).trans alike.first
  second := (neutral.control event').trans alike.second

/-! ## Neutral parts of a branch -/

/-- No filter of the matcher reads the control fields. -/
def FieldFiltersMatcher.Neutral (matcher : FieldFiltersMatcher X) : Prop :=
  ∀ filter ∈ matcher.filters, NeutralRead (X.isMatch filter)

/-- On two unlabeled events that are alike the update fails twice or leaves
events that are alike again, each with its own control fields. -/
def NeutralUpdate (update : X.Event → Result X.Event) : Prop :=
  ∀ control control' : ControlFields X, control.Unlabeled →
    control'.Unlabeled → ∀ event event', Alike control control' event event' →
      Lockstep (Alike control control') (update event) (update event')

/-- The fields of a multiplicity are not control fields. -/
structure MultiplicityImpl.Neutral (multiplicity : MultiplicityImpl X) :
    Prop where
  expectation : NeutralRead multiplicity.expectedMultiplicity
  personIndex : ∀ index, NeutralWrite fun event =>
    X.setValueToProto .int32 event multiplicity.personIndexField index

/-- The types that a multiplicity can read or number its clones in. -/
def IsNumberFieldType (type : CppType) : Prop :=
  isIntegerFieldType type ∨ type = .float ∨ type = .double

/-- No field of a number type is a control field: reading such a field does
not read them, and writing it does not write them. -/
structure NeutralNumberFields (X : Externals) : Prop where
  read : ∀ path, IsNumberFieldType (X.fieldType path).cppType →
    NeutralRead fun event =>
      X.getValueFromProto (X.fieldType path).cppType event path
  write : ∀ path, isIntegerFieldType (X.fieldType path).cppType → ∀ index,
    NeutralWrite fun event => X.setValueToProto .int32 event path index

/-- Extracting a number from a neutral field is neutral. -/
theorem neutralRead_extractDoubleValue {type : CppType} {path : X.FieldPath}
    (neutral : NeutralRead fun event => X.getValueFromProto type event path)
    (toDouble : type.Value → Float) :
    NeutralRead fun event => extractDoubleValue X type toDouble event path := by
  intro event
  unfold extractDoubleValue
  simp only [neutral event]

/-- The functions for neutral fields are neutral. -/
theorem neutralRead_getExtractMultiplicityFunction {type : CppType}
    {extract : X.Event → X.FieldPath → Result Float} {path : X.FieldPath}
    (extracts : getExtractMultiplicityFunction X type = .ok extract)
    (neutral : IsNumberFieldType type →
      NeutralRead fun event => X.getValueFromProto type event path) :
    NeutralRead fun event => extract event path := by
  cases type
  case bool | enum | string | message => contradiction
  all_goals
    rw [← Except.ok.inj extracts]
    exact neutralRead_extractDoubleValue
      (neutral (by simp [IsNumberFieldType, isIntegerFieldType])) _

/-- Multiplicities are neutral if the fields of numbers are. -/
theorem NeutralNumberFields.multiplicity (neutral : NeutralNumberFields X)
    (multiplicity : MultiplicityImpl X) : multiplicity.Neutral where
  expectation := by
    intro event
    unfold MultiplicityImpl.expectedMultiplicity
    cases multiplicity.multiplicityExtractor with
    | explicitValue value => rfl
    | fromField field =>
      exact neutralRead_getExtractMultiplicityFunction field.extracts
        (neutral.read field.fieldDescriptor) event
  personIndex := neutral.write _ multiplicity.personIndexIsInteger

/-- Neutral filters find the first match neutrally. -/
theorem FieldFiltersMatcher.Neutral.getFirstMatch
    {matcher : FieldFiltersMatcher X} (neutral : matcher.Neutral) :
    NeutralRead matcher.getFirstMatch := by
  intro event
  unfold FieldFiltersMatcher.getFirstMatch
  congr 1
  generalize listed : matcher.filters = filters
  replace listed : ∀ filter ∈ filters, NeutralRead (X.isMatch filter) := by
    rw [← listed]
    exact neutral
  induction filters with
  | nil => rfl
  | cons filter filters inductionHypothesis =>
    have ⟨head, tail⟩ := List.forall_mem_cons.mp listed
    rw [List.findIdx?_cons, List.findIdx?_cons, head event,
      inductionHypothesis tail]

/-- A neutral multiplicity counts its clones neutrally. -/
theorem MultiplicityImpl.Neutral.computeEventMultiplicity
    {multiplicity : MultiplicityImpl X} (neutral : multiplicity.Neutral) :
    NeutralRead multiplicity.computeEventMultiplicity := by
  intro event
  unfold MultiplicityImpl.computeEventMultiplicity
  rw [neutral.expectation event]
  rfl

/-- A neutral multiplicity clones neutrally. -/
theorem MultiplicityImpl.Neutral.cloneEvent
    {multiplicity : MultiplicityImpl X} (neutral : multiplicity.Neutral)
    (personIndex : ℕ) :
    NeutralWrite (BranchNodeImpl.cloneEvent multiplicity · personIndex) where
  content _ := (neutral.personIndex _).content _
  control _ := (neutral.personIndex _).control _

/-- Selecting a child does not read the control fields. -/
theorem BranchNodeImpl.neutralRead_selectChild {Node : Type}
    {impl : BranchNodeImpl X Node}
    (neutral : ∀ matcher ∈ impl.matcher, matcher.Neutral) :
    NeutralRead impl.selectChild := by
  intro event
  have selectIndexEq :
      impl.selectIndex (eraseControl event) = impl.selectIndex event := by
    unfold selectIndex
    cases impl.hashing with
    | some hashing => rfl
    | none =>
      cases matcherEq : impl.matcher with
      | some matcher =>
        have sameMatch := (neutral matcher matcherEq).getFirstMatch event
        simp only [sameMatch]
      | none => rfl
  unfold selectChild
  rw [selectIndexEq]

/-- The flag of an event is not a control field. -/
theorem neutralNumberFields_flagged : NeutralNumberFields .flagged where
  read _ _ _ := rfl
  write _ _ _ := ⟨fun _ => rfl, fun _ => rfl⟩

end VirtualPeople.Cc
