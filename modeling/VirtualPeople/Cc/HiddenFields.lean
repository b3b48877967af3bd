import VirtualPeople.Cc.Labeler
import VirtualPeople.Cc.Variants

/-!
# Fields that labeling does not see

A model reads the fields that its conditions, updates and multiplicities name,
and the code reads a few more.  Two events that agree on all of these are
labeled alike, whatever they hold besides.  A relation of events says what is
seen: related events give equal values wherever the model reads, and stay
related wherever it writes.
-/

namespace VirtualPeople

namespace Cc

variable {X : Externals}

/-! ## Reads and writes of related events -/

section Related

variable (related : X.Event → X.Event → Prop)

/-- The read does not tell related events apart. -/
def ReadsAlike {α : Type} (read : X.Event → α) : Prop :=
  ∀ event event', related event event' → read event = read event'

/-- The write leaves related events related. -/
def WritesAlike (write : X.Event → X.Event) : Prop :=
  ∀ event event', related event event' → related (write event) (write event')

/-- What the code itself reads of an event, whatever the model is. -/
structure LeafFields (X : Externals) where
  actingFingerprint : Option UInt64
  poolIdentityMode : Option Bool
  rankAssignments : List RankAssignment
  virtualPersonActivities : List X.Activity
  poolAssignments : List PoolAssignment
  quantumLabels : Option (List (QuantumLabel X.Label))
  label : Option X.Label

/-- The fields that the code itself reads. -/
def leafFields (event : X.Event) : LeafFields X where
  actingFingerprint := event.actingFingerprint
  poolIdentityMode := event.poolIdentityMode
  rankAssignments := RankedPopulationNodeImpl.rankAssignments event
  virtualPersonActivities := event.virtualPersonActivities
  poolAssignments := event.poolAssignments
  quantumLabels := event.quantumLabels
  label := event.label

/-- The relation sees what the code itself reads, and the writes of the code
itself keep it. -/
structure Congruent : Prop where
  reads : ReadsAlike related leafFields
  fingerprint : ∀ fingerprint, WritesAlike related fun event =>
    { event with actingFingerprint := some fingerprint }
  activities : ∀ activities, WritesAlike related fun event =>
    { event with virtualPersonActivities := activities }
  assignments : ∀ assignments, WritesAlike related fun event =>
    { event with poolAssignments := assignments }

/-! ## Parts of a model -/

/-- The filters of the matcher read what related events agree on. -/
def FieldFiltersMatcher.Respects (matcher : FieldFiltersMatcher X) : Prop :=
  ∀ filter ∈ matcher.filters, ReadsAlike related (X.isMatch filter)

/-- The hash and the filters of the matchers read what related events agree on. -/
def MatrixMatchers.Respects (matchers : MatrixMatchers X) : Prop :=
  (∀ hashMatcher ∈ matchers.hashMatcher,
    ReadsAlike related (hashLabelerEvent X · hashMatcher.hashFieldMask)) ∧
  ∀ filtersMatcher ∈ matchers.filtersMatcher, filtersMatcher.Respects related

/-- Merging any of the updates leaves related events related. -/
def MergesAlike (updates : List X.Event) : Prop :=
  ∀ update ∈ updates, WritesAlike related (X.mergeEvent · update)

/-- An updater reads what related events agree on, and keeps them related; what
an update tree does is up to its nodes. -/
def AttributesUpdaterInterface.Respects {Node : Type} :
    AttributesUpdaterInterface X Node → Prop
  | .updateMatrix updater =>
    updater.matchers.Respects related ∧ MergesAlike related updater.rows
  | .sparseUpdateMatrix updater =>
    updater.matchers.Respects related ∧
      ∀ rows ∈ updater.rows, MergesAlike related rows
  | .conditionalMerge updater =>
    updater.matcher.Respects related ∧ MergesAlike related updater.updates
  | .conditionalAssignment updater =>
    ReadsAlike related (X.isMatch updater.condition) ∧
      ∀ assignment ∈ updater.assignments, WritesAlike related fun event =>
        assignment.assign event assignment.source assignment.target
  | .geometricShredder updater =>
    ReadsAlike related
        (X.getValueFromProto .uint64 · updater.randomnessField) ∧
      ReadsAlike related (X.getValueFromProto .uint64 · updater.targetField) ∧
      ∀ shred, WritesAlike related
        (X.setValueToProto .uint64 · updater.targetField shred)
  | .updateTree _ => True

/-- Every part of the tree reads what related events agree on and keeps them
related, its update trees included. -/
inductive ModelNode.Respects : ModelNode X → Prop
  | leafNode (leaf : LeafNode) : Respects (.leafNode leaf)
  | branchNode {impl : BranchNodeImpl X (ModelNode X)}
      (conditions : ∀ matcher ∈ impl.matcher, matcher.Respects related)
      (expectation : ∀ multiplicity ∈ impl.multiplicity,
        ReadsAlike related multiplicity.expectedMultiplicity)
      (personIndex : ∀ multiplicity ∈ impl.multiplicity, ∀ index,
        WritesAlike related
          (X.setValueToProto .int32 · multiplicity.personIndexField index))
      (updaters : ∀ updater ∈ impl.updaters, updater.Respects related)
      (trees : ∀ updater ∈ impl.updaters, ∀ root ∈ updater.treeRoot,
        Respects root)
      (children : ∀ child ∈ impl.childNodes, Respects child) :
      Respects (.branchNode impl)

end Related

variable {related : X.Event → X.Event → Prop} {event event' : X.Event}

/-! ## Updates -/

/-- Related events match the same filter first. -/
theorem FieldFiltersMatcher.Respects.getFirstMatch
    {matcher : FieldFiltersMatcher X} (respects : matcher.Respects related) :
    ReadsAlike related matcher.getFirstMatch := by
  intro event event' events
  unfold FieldFiltersMatcher.getFirstMatch
  rw [BranchNodeImpl.findIdx?_isMatch fun filter member =>
    respects filter member event event' events]

/-- Related events go to the same column. -/
theorem MatrixMatchers.Respects.columnIndex {matchers : MatrixMatchers X}
    (respects : matchers.Respects related) :
    ReadsAlike related matchers.columnIndex := by
  intro event event' events
  unfold MatrixMatchers.columnIndex
  cases hashEq : matchers.hashMatcher with
  | some hashMatcher =>
    have sameHash : hashLabelerEvent X event hashMatcher.hashFieldMask =
        hashLabelerEvent X event' hashMatcher.hashFieldMask :=
      respects.1 hashMatcher hashEq event event' events
    simp only [HashFieldMaskMatcher.getMatch]
    rw [sameHash]
  | none =>
    cases filtersEq : matchers.filtersMatcher with
    | some filtersMatcher =>
      simp only [(respects.2 filtersMatcher filtersEq).getFirstMatch event event'
        events]
    | none => rfl

namespace Congruent

variable (congruent : Congruent related)
include congruent

/-- Related events have the same fingerprint, and keep it when it is replaced. -/
theorem keepsFingerprints : KeepsFingerprints related where
  same events :=
    congrArg LeafFields.actingFingerprint (congruent.reads _ _ events)
  replaced fingerprint events := congruent.fingerprint fingerprint _ _ events

/-- The same column and row are selected for related events. -/
theorem selectFromMatrix_eq {matchers : MatrixMatchers X}
    (respects : matchers.Respects related)
    (rowHashings : List DistributedConsistentHashing) (randomSeed : String) :
    ReadsAlike related
      (selectFromMatrix X matchers rowHashings randomSeed) := by
  intro event event' events
  unfold selectFromMatrix
  rw [respects.columnIndex event event' events,
    congruent.keepsFingerprints.same events]

omit congruent in
/-- Related events stay related when one row is merged into both. -/
theorem mergeRow_lockstep {rows : List X.Event} (merges : MergesAlike related rows)
    (rowIndex : ℤ) (events : related event event') :
    Lockstep related (mergeRow X rows rowIndex event)
      (mergeRow X rows rowIndex event') := by
  unfold mergeRow
  split_ifs
  · exact .errors _ _
  · cases found : elementAt rows rowIndex with
    | error fault => exact .errors _ _
    | ok row =>
      exact .ok (merges row (BranchNodeImpl.mem_of_elementAt found) event event'
        events)

/-- A matrix keeps related events related. -/
theorem updateMatrix {updater : UpdateMatrixImpl X}
    (matchers : updater.matchers.Respects related)
    (merges : MergesAlike related updater.rows)
    (events : related event event') :
    Lockstep related (updater.update event) (updater.update event') := by
  unfold UpdateMatrixImpl.update
  rw [congruent.selectFromMatrix_eq matchers _ _ event event' events]
  refine .bind_eq (.refl _) fun indexes => ?_
  split_ifs
  · exact .ok events
  · exact .errors _ _
  · exact mergeRow_lockstep merges indexes.rowIndex events

/-- A sparse matrix keeps related events related. -/
theorem sparseUpdateMatrix {updater : SparseUpdateMatrixImpl X}
    (matchers : updater.matchers.Respects related)
    (merges : ∀ rows ∈ updater.rows, MergesAlike related rows)
    (events : related event event') :
    Lockstep related (updater.update event) (updater.update event') := by
  unfold SparseUpdateMatrixImpl.update
  rw [congruent.selectFromMatrix_eq matchers _ _ event event' events]
  refine .bind_eq (.refl _) fun indexes => ?_
  split_ifs
  · exact .ok events
  · exact .errors _ _
  · exact .errors _ _
  · cases found : elementAt updater.rows indexes.columnIndex with
    | error fault => exact .errors _ _
    | ok rows =>
      exact mergeRow_lockstep
        (merges rows (BranchNodeImpl.mem_of_elementAt found)) indexes.rowIndex
        events

omit congruent in
/-- A conditional merge keeps related events related. -/
theorem conditionalMerge {updater : ConditionalMergeImpl X}
    (matcher : updater.matcher.Respects related)
    (merges : MergesAlike related updater.updates)
    (events : related event event') :
    Lockstep related (updater.update event) (updater.update event') := by
  unfold ConditionalMergeImpl.update
  rw [matcher.getFirstMatch event event' events]
  simp only
  split_ifs
  · exact .ok events
  · exact .errors _ _
  · exact .errors _ _
  · cases found : elementAt updater.updates
        (updater.matcher.getFirstMatch event') with
    | error fault => exact .errors _ _
    | ok update =>
      exact .ok (merges update (BranchNodeImpl.mem_of_elementAt found) event
        event' events)

omit congruent in
/-- Assignments keep related events related. -/
theorem foldl_assign {assignments : List (FieldAssignment X)}
    (assigns : ∀ assignment ∈ assignments, WritesAlike related fun event =>
      assignment.assign event assignment.source assignment.target)
    (events : related event event') :
    related
      (assignments.foldl (fun event assignment =>
        assignment.assign event assignment.source assignment.target) event)
      (assignments.foldl (fun event assignment =>
        assignment.assign event assignment.source assignment.target)
          event') := by
  induction assignments generalizing event event' with
  | nil => exact events
  | cons assignment assignments inductionHypothesis =>
    have ⟨head, tail⟩ := List.forall_mem_cons.mp assigns
    exact inductionHypothesis tail (head event event' events)

omit congruent in
/-- A conditional assignment keeps related events related. -/
theorem conditionalAssignment {updater : ConditionalAssignmentImpl X}
    (condition : ReadsAlike related (X.isMatch updater.condition))
    (assigns : ∀ assignment ∈ updater.assignments, WritesAlike related
      fun event =>
        assignment.assign event assignment.source assignment.target)
    (events : related event event') :
    Lockstep related (updater.update event) (updater.update event') := by
  unfold ConditionalAssignmentImpl.update
  rw [condition event event' events]
  split_ifs
  · exact .ok (foldl_assign assigns events)
  · exact .ok events

omit congruent in
/-- A shredder keeps related events related. -/
theorem geometricShredder {updater : GeometricShredderImpl X}
    (randomness : ReadsAlike related
      (X.getValueFromProto .uint64 · updater.randomnessField))
    (target : ReadsAlike related
      (X.getValueFromProto .uint64 · updater.targetField))
    (writes : ∀ shred, WritesAlike related
      (X.setValueToProto .uint64 · updater.targetField shred))
    (events : related event event') :
    Lockstep related (updater.update event) (updater.update event') := by
  have sameRandomness :
      X.getValueFromProto .uint64 event updater.randomnessField =
        X.getValueFromProto .uint64 event' updater.randomnessField :=
    randomness event event' events
  have sameTarget : X.getValueFromProto .uint64 event updater.targetField =
      X.getValueFromProto .uint64 event' updater.targetField :=
    target event event' events
  have sameHash : updater.shredHash event = updater.shredHash event' := by
    unfold GeometricShredderImpl.shredHash
    rw [sameRandomness]
  unfold GeometricShredderImpl.update
  rw [sameHash, sameTarget]
  refine .bind_eq (.refl _) fun shredHash => ?_
  split_ifs
  · exact .ok events
  · cases X.getValueFromProto .uint64 event' updater.targetField with
    | none => exact .errors _ _
    | some value => exact .ok (writes _ event event' events)

/-- An update keeps related events related, if its update tree does. -/
theorem updateEvent {updater : AttributesUpdaterInterface X (ModelNode X)}
    (respects : updater.Respects related)
    (tree : ∀ root ∈ updater.treeRoot, ∀ event event', related event event' →
      Lockstep related (applyToCopy root.apply event)
        (applyToCopy root.apply event'))
    (events : related event event') :
    Lockstep related (ModelNode.updateEvent updater event)
      (ModelNode.updateEvent updater event') := by
  unfold ModelNode.updateEvent
  cases updater with
  | updateTree root => exact tree root rfl event event' events
  | updateMatrix updater =>
    simp only [AttributesUpdaterInterface.map,
      AttributesUpdaterInterface.update, applyToCopy_change]
    exact congruent.updateMatrix respects.1 respects.2 events
  | sparseUpdateMatrix updater =>
    simp only [AttributesUpdaterInterface.map,
      AttributesUpdaterInterface.update, applyToCopy_change]
    exact congruent.sparseUpdateMatrix respects.1 respects.2 events
  | conditionalMerge updater =>
    simp only [AttributesUpdaterInterface.map,
      AttributesUpdaterInterface.update, applyToCopy_change]
    exact conditionalMerge respects.1 respects.2 events
  | conditionalAssignment updater =>
    simp only [AttributesUpdaterInterface.map,
      AttributesUpdaterInterface.update, applyToCopy_change]
    exact conditionalAssignment respects.1 respects.2 events
  | geometricShredder updater =>
    simp only [AttributesUpdaterInterface.map,
      AttributesUpdaterInterface.update, applyToCopy_change]
    exact geometricShredder respects.1 respects.2.1 respects.2.2 events

/-! ## Leaves and trees -/

/-- A leaf keeps related events related. -/
theorem leaf_lockstep (leaf : LeafNode) (events : related event event') :
    Lockstep related (applyToCopy leaf.apply event)
      (applyToCopy leaf.apply event') := by
  have same := congruent.reads event event' events
  simp only [leafFields, LeafFields.mk.injEq] at same
  obtain ⟨fingerprints, modes, ranks, activities, assignments, quantumLabels,
    labels⟩ := same
  have created (found : Result UInt64) :
      createdPerson event found = createdPerson event' found := by
    unfold createdPerson writtenLabel
    rw [quantumLabels, labels]
  have foundEq : leaf.virtualPersonId event = leaf.virtualPersonId event' := by
    cases leaf with
    | stopNode => rfl
    | populationNode node =>
      simp only [LeafNode.virtualPersonId, PopulationNodeImpl.virtualPersonId,
        fingerprints]
    | rankedPopulationNode node =>
      simp only [LeafNode.virtualPersonId,
        RankedPopulationNodeImpl.virtualPersonId,
        RankedPopulationNodeImpl.lookupRank, ranks, fingerprints]
  rw [LeafNode.applyToCopy_apply, LeafNode.applyToCopy_apply]
  by_cases identity : event.poolIdentityMode.getD false = true
  · rw [if_pos identity, if_pos (modes ▸ identity), assignments]
    exact .ok (congruent.assignments (event'.poolAssignments ++ leaf.announced)
      event event' events)
  · rw [if_neg identity, if_neg (modes ▸ identity), foundEq]
    cases leaf.virtualPersonId event' with
    | none => exact .ok events
    | some found =>
      by_cases labeled : 0 < event.virtualPersonActivities.length
      · simp only [if_pos labeled, if_pos (activities ▸ labeled)]
        exact .errors _ _
      · simp only [if_neg labeled, if_neg (activities ▸ labeled), created]
        exact .bind_eq (.refl _) fun people =>
          .ok (congruent.activities people event event' events)

/-- Folding related clones back keeps related events related. -/
theorem foldl_foldBack {clones clones' : List X.Event}
    (each : List.Forall₂ related clones clones')
    (events : related event event') :
    related (clones.foldl BranchNodeImpl.foldBack event)
      (clones'.foldl BranchNodeImpl.foldBack event') := by
  have read {event event' : X.Event} (events : related event event') :
      event.virtualPersonActivities = event'.virtualPersonActivities ∧
        event.poolAssignments = event'.poolAssignments :=
    ⟨congrArg LeafFields.virtualPersonActivities
        (congruent.reads event event' events),
      congrArg LeafFields.poolAssignments
        (congruent.reads event event' events)⟩
  have activities : clones.map LabelerEvent.virtualPersonActivities =
      clones'.map LabelerEvent.virtualPersonActivities := by
    rw [← List.forall₂_eq_eq_eq, List.forall₂_map_left_iff,
      List.forall₂_map_right_iff]
    exact each.imp fun _ _ events => (read events).1
  have assignments : clones.map LabelerEvent.poolAssignments =
      clones'.map LabelerEvent.poolAssignments := by
    rw [← List.forall₂_eq_eq_eq, List.forall₂_map_left_iff,
      List.forall₂_map_right_iff]
    exact each.imp fun _ _ events => (read events).2
  rw [BranchNodeImpl.foldl_foldBack, BranchNodeImpl.foldl_foldBack,
    List.flatMap_def, List.flatMap_def, List.flatMap_def, List.flatMap_def,
    activities, assignments, (read events).1, (read events).2]
  have written := congruent.activities
    (event'.virtualPersonActivities ++
      (clones'.map LabelerEvent.virtualPersonActivities).flatten)
    event event' events
  exact congruent.assignments (event'.poolAssignments ++
    (clones'.map LabelerEvent.poolAssignments).flatten) _ _ written

/-- Applied to related events, a tree that respects the relation fails twice or
leaves related events. -/
theorem apply_lockstep {node : ModelNode X} (respects : node.Respects related)
    (events : related event event') :
    Lockstep related (applyToCopy node.apply event)
      (applyToCopy node.apply event') := by
  induction respects generalizing event event' with
  | leafNode leaf =>
    rw [ModelNode.apply_leafNode]
    exact congruent.leaf_lockstep leaf events
  | @branchNode impl conditions expectation personIndex updaters _ _
      treesHypothesis childrenHypothesis =>
    have branch : impl.Respects related ModelNode.updateEvent := {
      conditions := conditions
      updaters := fun updater member event event' events =>
        congruent.updateEvent (updaters updater member)
          (fun root isRoot event event' =>
            treesHypothesis updater member root isRoot) events
      expectation := expectation
      personIndex := fun multiplicity isMultiplicity event event' events index =>
        personIndex multiplicity isMultiplicity index event event' events }
    rw [ModelNode.applyToCopy_branchNode, ModelNode.applyToCopy_branchNode]
    refine branch.walk congruent.keepsFingerprints rfl ?_
      (fun clones clones' each => congruent.foldl_foldBack each events) events
    intro pair member event event' events
    obtain ⟨position, inside, rfl⟩ := List.mem_iff_getElem.mp member
    rw [List.getElem_zip]
    exact childrenHypothesis _ (List.getElem_mem _) events

end Congruent

/-! ## Raw ids -/

end Cc

/-- The same change in every user info. -/
def ProfileInfo.mapUserInfo (f : UserInfo → UserInfo)
    (profileInfo : ProfileInfo) : ProfileInfo where
  emailUserInfo := profileInfo.emailUserInfo.map f
  phoneUserInfo := profileInfo.phoneUserInfo.map f
  loggedInIdUserInfo := profileInfo.loggedInIdUserInfo.map f
  loggedOutIdUserInfo := profileInfo.loggedOutIdUserInfo.map f
  proprietaryIdSpace1UserInfo := profileInfo.proprietaryIdSpace1UserInfo.map f
  proprietaryIdSpace2UserInfo := profileInfo.proprietaryIdSpace2UserInfo.map f
  proprietaryIdSpace3UserInfo := profileInfo.proprietaryIdSpace3UserInfo.map f
  proprietaryIdSpace4UserInfo := profileInfo.proprietaryIdSpace4UserInfo.map f
  proprietaryIdSpace5UserInfo := profileInfo.proprietaryIdSpace5UserInfo.map f
  proprietaryIdSpace6UserInfo := profileInfo.proprietaryIdSpace6UserInfo.map f
  proprietaryIdSpace7UserInfo := profileInfo.proprietaryIdSpace7UserInfo.map f
  proprietaryIdSpace8UserInfo := profileInfo.proprietaryIdSpace8UserInfo.map f
  proprietaryIdSpace9UserInfo := profileInfo.proprietaryIdSpace9UserInfo.map f
  proprietaryIdSpace10UserInfo := profileInfo.proprietaryIdSpace10UserInfo.map f

namespace Cc

variable {X : Externals}

/-- The input without the ids that its fingerprints are made of, and without
the wish for a trace. -/
def hideInput (input : X.Input) : X.Input :=
  { input with
    eventId := input.eventId.map fun eventId => { eventId with id := none }
    profileInfo := input.profileInfo.map
      (ProfileInfo.mapUserInfo fun userInfo => { userInfo with userId := none })
    enableDebugTrace := false }

/-- The event without raw ids. -/
def hideIds (event : X.Event) : X.Event :=
  { event with labelerInput := event.labelerInput.map hideInput }

/-- The events agree on everything but raw ids and the wish for a trace. -/
def SameFingerprints (event event' : X.Event) : Prop :=
  hideIds event = hideIds event'

@[simp] theorem rankAssignments_hideIds (event : X.Event) :
    RankedPopulationNodeImpl.rankAssignments (hideIds event) =
      RankedPopulationNodeImpl.rankAssignments event := by
  unfold RankedPopulationNodeImpl.rankAssignments hideIds
  cases event.labelerInput <;> rfl

/-- The hidden ids are not among the fields that the code reads. -/
@[simp] theorem leafFields_hideIds (event : X.Event) :
    leafFields (hideIds event) = leafFields event := by
  unfold leafFields
  rw [rankAssignments_hideIds]
  rfl

/-- Having the same fingerprints is a relation of that kind. -/
theorem congruent_sameFingerprints : Congruent (X := X) SameFingerprints where
  reads event event' same := by
    rw [← leafFields_hideIds event, ← leafFields_hideIds event', same]
  fingerprint fingerprint event event' same := by
    have replaced := congrArg (fun event : X.Event =>
      { event with actingFingerprint := some fingerprint }) same
    exact replaced
  activities activities event event' same := by
    have replaced := congrArg (fun event : X.Event =>
      { event with virtualPersonActivities := activities }) same
    exact replaced
  assignments assignments event event' same := by
    have replaced := congrArg (fun event : X.Event =>
      { event with poolAssignments := assignments }) same
    exact replaced

/-- A model that reads no raw ids labels two inputs alike when their ids have
the same fingerprints, whether or not a trace is wished for. -/
theorem Labeler.label_of_sameFingerprints (labeler : Labeler X)
    (respects : labeler.root.Respects SameFingerprints)
    (input input' : X.Input) (mode : LabelingMode)
    (same : SameFingerprints (prepareEvent input mode)
      (prepareEvent input' mode)) :
    ((∃ output, labeler.label input mode = .ok output) ↔
        ∃ output, labeler.label input' mode = .ok output) ∧
      ∀ output output', labeler.label input mode = .ok output →
        labeler.label input' mode = .ok output' →
          output'.people = output.people ∧
            output'.poolAssignments = output.poolAssignments := by
  have labeled : Lockstep (fun output output' =>
        output'.people = output.people ∧
          output'.poolAssignments = output.poolAssignments)
      (labeler.label input mode) (labeler.label input' mode) := by
    refine (congruent_sameFingerprints.apply_lockstep respects same).bind
      fun final final' sameFinal => .ok ?_
    have fields := congruent_sameFingerprints.reads final final' sameFinal
    exact ⟨(congrArg LeafFields.virtualPersonActivities fields).symm,
      (congrArg LeafFields.poolAssignments fields).symm⟩
  exact ⟨labeled.succeeds_iff, fun output output' found found' =>
    labeled.aligned output output' found found'⟩

/-- A branch to a pool of one person. -/
def onePersonBranch : CompiledNode .constant :=
  .mk none (.branchNode ⟨[⟨.node (.mk none (.rankedPopulationNode
    ⟨[⟨7, 1⟩], "seed", 0, .fullPool⟩)), .condition ()⟩], "seed", .notSet⟩)

/-- An input with the given event id. -/
def inputOfEvent (id : String) (enableDebugTrace : Bool) :
    Externals.constant.Input :=
  ⟨some ⟨some id, none⟩, none, 0, [], enableDebugTrace, ()⟩

/-- Two event ids with one fingerprint, and a trace for the second one. -/
theorem Labeler.label_of_sameFingerprints_onePerson :
    ∃ labeler output, build onePersonBranch = .ok labeler ∧
      labeler.label (inputOfEvent "first" false) .poolIdentity =
        .ok ⟨[], [⟨7, 1, 0⟩], none⟩ ∧
      labeler.label (inputOfEvent "second" true) .poolIdentity = .ok output ∧
      output.people = [] ∧ output.poolAssignments = [⟨7, 1, 0⟩] := by
  obtain ⟨labeler, built⟩ : ∃ labeler, build onePersonBranch = .ok labeler :=
    ⟨_, rfl⟩
  have respects : labeler.root.Respects SameFingerprints := by
    rw [← Except.ok.inj built]
    refine .branchNode ?_ (by simp) (by simp) (by simp) (by simp) ?_
    · intro matcher isMatcher
      rw [← Option.some.inj isMatcher]
      exact List.forall_mem_cons.mpr ⟨fun _ _ _ => rfl, by simp⟩
    · exact List.forall_mem_cons.mpr ⟨.leafNode _, by simp⟩
  have labeled : labeler.label (inputOfEvent "first" false) .poolIdentity =
      .ok ⟨[], [⟨7, 1, 0⟩], none⟩ := by
    rw [← Except.ok.inj built]
    rfl
  obtain ⟨succeeds, outputs⟩ := label_of_sameFingerprints labeler respects
    (inputOfEvent "first" false) (inputOfEvent "second" true) .poolIdentity rfl
  obtain ⟨output, labeled'⟩ := succeeds.mp ⟨_, labeled⟩
  obtain ⟨peopleEq, assignmentsEq⟩ := outputs _ output labeled labeled'
  exact ⟨labeler, output, built, labeled, labeled', peopleEq, assignmentsEq⟩

end Cc

end VirtualPeople
