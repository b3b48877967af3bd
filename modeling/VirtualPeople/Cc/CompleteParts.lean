import VirtualPeople.Binary64.Order
import VirtualPeople.Cc.Acceptance
import VirtualPeople.Cc.CloneCount
import VirtualPeople.Cc.InternalFaults
import VirtualPeople.Successes

/-!
# Parts with an answer

A labeling run fails where a matrix has nothing for the event, where a
multiplicity or a shredder cannot compute, and where a leaf has no id to give.
For a set of served events, which the updates of a model do not leave, it is said
here of each of these parts when it has an answer for every served event.
-/

namespace VirtualPeople

/-- The quantum label has labels to choose from, and a probability for each. -/
def QuantumLabel.Collapses {Label : Type} (quantumLabel : QuantumLabel Label) :
    Prop :=
  quantumLabel.labels.length = quantumLabel.probabilities.length ∧
    Normalizable quantumLabel.probabilities

namespace Cc

open Binary64

variable {X : Externals}

/-! ## Parts that have an answer -/

/-- The expectation of the event is a number that is within the maximum or cut
there, and the count fits in 32 bits. -/
def MultiplicityImpl.Counts (multiplicity : MultiplicityImpl X)
    (event : X.Event) : Prop :=
  ∃ expected x y, multiplicity.expectedMultiplicity event = .ok expected ∧
    Denotes expected x ∧ Denotes multiplicity.maxValue y ∧
    (x ≤ y ∨ multiplicity.capAtMax = true) ∧ ⌊min x y⌋ < 2 ^ 31

/-- Nothing is shredded, or the fields that the shredder reads are set and its
quotient is a 64-bit count. -/
def GeometricShredderImpl.Shreds (updater : GeometricShredderImpl X)
    (event : X.Event) : Prop :=
  updater.psi == 0.0 ∨
    (∃ target, X.getValueFromProto .uint64 event updater.targetField =
      some target) ∧
    ∃ randomness, X.getValueFromProto .uint64 event updater.randomnessField =
        some randomness ∧
      (updater.psi == 1.0 ∨ ∃ count : ℤ,
        truncate (floor (expHash X (toString randomness) /
          ofFloat32 (-X.logf updater.psi))) = some count ∧
        0 ≤ count ∧ count < 2 ^ 64)

namespace RankedPopulationNodeImpl

/-- The node has ids for events without a rank. -/
def HasUnrankedIds (node : RankedPopulationNodeImpl) : Prop :=
  node.unrankedMode = .fullPool ∨
    node.unrankedMode = .disjoint ∧ node.rankedSize ≠ node.poolSize

end RankedPopulationNodeImpl

section Served

variable (served : X.Event → Prop)

/-- The change takes served events to served events. -/
def Preserves (change : X.Event → X.Event) : Prop :=
  ∀ event, served event → served (change event)

/-- Every served event matches one of the filters. -/
def FieldFiltersMatcher.Covers (matcher : FieldFiltersMatcher X) : Prop :=
  ∀ event, served event →
    ∃ filter ∈ matcher.filters, X.isMatch filter event = true

/-- Every served event goes to one of the columns. -/
def MatrixMatchers.Covers (matchers : MatrixMatchers X) : Prop :=
  ∀ event, served event → matchers.columnIndex event ≠ .ok kNoMatchingIndex

/-- The leaf has an id for each served event, unless it is only asked for its
pool. -/
def LeafNode.Answers : LeafNode → Prop
  | .stopNode => True
  | .populationNode _ => True
  | .rankedPopulationNode node => ∀ event, served event →
    event.poolIdentityMode.getD false = false →
      node.IsRanked event ∨ node.HasUnrankedIds ∧
        (node.lookupRank event = none →
          RankedPopulationNodeImpl.rankAssignments event = [])

/-- The updater changes every served event to a served one; what an update tree
does is up to its nodes. -/
def AttributesUpdaterInterface.Complete {Node : Type} :
    AttributesUpdaterInterface X Node → Prop
  | .updateMatrix updater =>
    (updater.passThroughNonMatches = true ∨ updater.matchers.Covers served) ∧
      ∀ row ∈ updater.rows, Preserves served (X.mergeEvent · row)
  | .sparseUpdateMatrix updater =>
    (updater.passThroughNonMatches = true ∨ updater.matchers.Covers served) ∧
      ∀ rows ∈ updater.rows, ∀ row ∈ rows,
        Preserves served (X.mergeEvent · row)
  | .conditionalMerge updater =>
    (updater.passThroughNonMatches = true ∨ updater.matcher.Covers served) ∧
      ∀ update ∈ updater.updates, Preserves served (X.mergeEvent · update)
  | .conditionalAssignment updater =>
    ∀ assignment ∈ updater.assignments, Preserves served fun event =>
      assignment.assign event assignment.source assignment.target
  | .geometricShredder updater =>
    (∀ event, served event → updater.Shreds event) ∧
      ∀ shred, Preserves served
        (X.setValueToProto .uint64 · updater.targetField shred)
  | .updateTree _ => True

/-- Served events carry no people yet and quantum labels that collapse, and
folding a clone back leaves an event served. -/
structure Servable : Prop where
  unlabeled : ∀ event, served event → event.virtualPersonActivities = []
  collapses : ∀ event, served event →
    ∀ quantumLabel ∈ event.quantumLabels.getD [], quantumLabel.Collapses
  foldBack : ∀ event clone, served event → served clone →
    served (BranchNodeImpl.foldBack event clone)

end Served

variable {served : X.Event → Prop} {event : X.Event}

/-! ## Multiplicities -/

namespace MultiplicityImpl

variable {multiplicity : MultiplicityImpl X}

/-- The capped expectation is a number that fits in 32 bits. -/
theorem Counts.cappedMultiplicity (counts : multiplicity.Counts event) :
    ∃ value x, multiplicity.cappedMultiplicity event = .ok value ∧
      Denotes value x ∧ ⌊x⌋ < 2 ^ 31 := by
  obtain ⟨expected, x, y, expectedEq, left, right, within, fits⟩ := counts
  unfold MultiplicityImpl.cappedMultiplicity
  rw [expectedEq]
  change ∃ value x, multiplicity.capMultiplicity expected = .ok value ∧ _
  unfold capMultiplicity
  by_cases above : multiplicity.maxValue < expected
  · have yLt : y < x := right.lt_of_lt left above
    have isCapped : multiplicity.capAtMax = true :=
      within.resolve_left (not_le.mpr yLt)
    rw [if_pos above, if_pos isCapped]
    exact ⟨_, y, rfl, right, min_eq_right yLt.le ▸ fits⟩
  · have xLe : x ≤ y := left.le_of_not_lt right above
    rw [if_neg above]
    exact ⟨_, x, rfl, left, min_eq_left xLe ▸ fits⟩

/-- The clones of an event that counts are computed. -/
theorem Counts.computes (counts : multiplicity.Counts event) :
    ∃ count, multiplicity.computeEventMultiplicity event = .ok count := by
  obtain ⟨value, x, capped, denotes, fits⟩ := counts.cappedMultiplicity
  exact ⟨_, computeEventMultiplicity_eq capped denotes fits⟩

end MultiplicityImpl

/-! ## Updates -/

/-- A covered event matches a filter. -/
theorem FieldFiltersMatcher.Covers.getFirstMatch
    {matcher : FieldFiltersMatcher X} (covers : matcher.Covers served)
    (isServed : served event) :
    matcher.getFirstMatch event ≠ kNoMatchingIndex := by
  obtain ⟨filter, member, holds⟩ := covers event isServed
  unfold FieldFiltersMatcher.getFirstMatch
  cases found : matcher.filters.findIdx? (X.isMatch · event) with
  | none =>
    have := List.findIdx?_eq_none_iff.mp found filter member
    rw [holds] at this
    contradiction
  | some position =>
    rw [matchingIndex_some]
    exact natCast_ne_kNoMatchingIndex position

/-- An event that no column takes is passed through. -/
theorem yields_updateWithoutColumn {columns : List X.Event}
    {hashFieldMask : Option (List String)} {matchers : MatrixMatchers X}
    (built : MatrixMatchers.build columns hashFieldMask = .ok matchers)
    {passThroughNonMatches : Bool}
    (covered : passThroughNonMatches = true ∨ matchers.Covers served)
    (noColumn : columnOf columns hashFieldMask event = none)
    (isServed : served event) :
    Yields served (updateWithoutColumn passThroughNonMatches event) := by
  rcases covered with passes | covers
  · unfold updateWithoutColumn
    rw [if_pos passes]
    exact .ok isServed
  · have := covers event isServed
    rw [MatrixMatchers.columnIndex_eq built, noColumn] at this
    exact absurd rfl this

/-- Merging a row yields a served event. -/
theorem yields_mergeRow {rows : List X.Event} {rowIndex : ℤ}
    (preserves : ∀ row ∈ rows, Preserves served (X.mergeEvent · row))
    (isPosition : IsPosition rows.length rowIndex) (isServed : served event) :
    Yields served (mergeRow X rows rowIndex event) := by
  obtain ⟨row, rowAt, found⟩ := isPosition.elementAt_eq
  obtain ⟨nonneg, lt⟩ := isPosition
  unfold mergeRow
  rw [if_neg (by omega), found]
  exact .ok (preserves row (List.mem_of_getElem? rowAt) event isServed)

/-- The shred hash is computed, and the target is set when it is needed. -/
theorem GeometricShredderImpl.Shreds.shredHash
    {updater : GeometricShredderImpl X} (shreds : updater.Shreds event) :
    ∃ shredHash, updater.shredHash event = .ok shredHash ∧
      (shredHash ≠ 0 → ∃ target, X.getValueFromProto .uint64 event
        updater.targetField = some target) := by
  unfold GeometricShredderImpl.shredHash
  rcases shreds with
    unshredded | ⟨targetSet, randomness, randomnessEq, counts⟩
  · rw [if_pos unshredded]
    exact ⟨0, rfl, fun other => absurd rfl other⟩
  · split_ifs with unshredded certain
    · exact ⟨0, rfl, fun other => absurd rfl other⟩
    · rw [randomnessEq]
      exact ⟨randomness, rfl, fun _ => targetSet⟩
    · obtain ⟨count, truncated, nonneg, lt⟩ := counts.resolve_left certain
      rw [randomnessEq]
      simp only
      unfold castToUInt64 integralPart
      rw [truncated]
      simp only
      rw [if_pos ⟨nonneg, lt⟩]
      exact ⟨_, rfl, fun _ => targetSet⟩

namespace AttributesUpdaterInterface

/-- A complete matrix yields a served event. -/
theorem Complete.yields_updateMatrix {config : UpdateMatrix X}
    {updater : UpdateMatrixImpl X}
    (built : UpdateMatrixImpl.build config = .ok updater)
    (complete : Complete served
      (.updateMatrix updater : AttributesUpdaterInterface X (ModelNode X)))
    (isServed : served event) : Yields served (updater.update event) := by
  obtain ⟨covered, preserves⟩ := complete
  cases found : columnOf config.columns config.hashFieldMask event with
  | none =>
    rw [UpdateMatrixImpl.update_of_none built found]
    obtain ⟨matchers, rowHashings, matchersBuilt, -, rfl⟩ :=
      UpdateMatrixImpl.parts_of_build built
    exact yields_updateWithoutColumn matchersBuilt covered found isServed
  | some columnIndex =>
    obtain ⟨distribution, rowHashing, distributionEq, hashingBuilt, updateEq⟩ :=
      UpdateMatrixImpl.update_of_some built found
    obtain ⟨matchers, rowHashings, -, -, rfl⟩ :=
      UpdateMatrixImpl.parts_of_build built
    rw [updateEq]
    exact yields_mergeRow preserves
      (DistributedConsistentHashing.isPosition_hash hashingBuilt
        (UpdateMatrixImpl.isPosition_of_columnDistribution distributionEq) _)
      isServed

/-- A complete sparse matrix yields a served event. -/
theorem Complete.yields_sparseUpdateMatrix {config : SparseUpdateMatrix X}
    {updater : SparseUpdateMatrixImpl X}
    (built : SparseUpdateMatrixImpl.build config = .ok updater)
    (complete : Complete served
      (.sparseUpdateMatrix updater : AttributesUpdaterInterface X (ModelNode X)))
    (isServed : served event) : Yields served (updater.update event) := by
  obtain ⟨covered, preserves⟩ := complete
  cases found : columnOf config.attrs config.hashFieldMask event with
  | none =>
    rw [SparseUpdateMatrixImpl.update_of_none built found]
    obtain ⟨-, matchers, rowHashings, matchersBuilt, -, rfl⟩ :=
      SparseUpdateMatrixImpl.parts_of_build built
    exact yields_updateWithoutColumn matchersBuilt covered found isServed
  | some columnIndex =>
    obtain ⟨column, rowHashing, columnAt, hashingBuilt, updateEq⟩ :=
      SparseUpdateMatrixImpl.update_of_some built found
    have member := List.mem_of_getElem? columnAt
    have aligned := SparseUpdateMatrixImpl.aligned_of_build built member
    obtain ⟨-, matchers, rowHashings, -, -, rfl⟩ :=
      SparseUpdateMatrixImpl.parts_of_build built
    rw [updateEq]
    exact yields_mergeRow (preserves _ (List.mem_map_of_mem member))
      (SparseUpdateMatrixImpl.isPosition_of_buildRowsHashing aligned
        hashingBuilt _) isServed

/-- A complete merge yields a served event. -/
theorem Complete.yields_conditionalMerge {config : ConditionalMerge X}
    {updater : ConditionalMergeImpl X}
    (built : ConditionalMergeImpl.build config = .ok updater)
    (complete : Complete served
      (.conditionalMerge updater : AttributesUpdaterInterface X (ModelNode X)))
    (isServed : served event) : Yields served (updater.update event) := by
  obtain ⟨covered, preserves⟩ := complete
  have sameLength : updater.matcher.filters.length = updater.updates.length := by
    unfold ConditionalMergeImpl.build at built
    split_ifs at built
    obtain ⟨nodes, -, built⟩ := bind_eq_ok_iff.mp built
    rw [← Except.ok.inj built, List.length_map, List.length_map]
  unfold ConditionalMergeImpl.update
  by_cases noMatch : updater.matcher.getFirstMatch event = kNoMatchingIndex
  · have passes : updater.passThroughNonMatches = true :=
      covered.resolve_right fun covers => covers.getFirstMatch isServed noMatch
    simp only
    rw [if_pos noMatch, if_pos passes]
    exact .ok isServed
  · have isPosition :=
      FieldFiltersMatcher.isPosition_getFirstMatch updater.matcher noMatch
    rw [sameLength] at isPosition
    obtain ⟨update, updateAt, found⟩ := isPosition.elementAt_eq
    obtain ⟨nonneg, lt⟩ := isPosition
    simp only
    rw [if_neg noMatch, if_neg (by omega), found]
    exact .ok (preserves update (List.mem_of_getElem? updateAt) event isServed)

/-- Assignments that preserve the set do so together. -/
theorem yields_assignments {assignments : List (FieldAssignment X)}
    (preserves : ∀ assignment ∈ assignments, Preserves served fun event =>
      assignment.assign event assignment.source assignment.target)
    (isServed : served event) :
    served (assignments.foldl
      (fun event assignment =>
        assignment.assign event assignment.source assignment.target) event) := by
  induction assignments generalizing event with
  | nil => exact isServed
  | cons assignment assignments inductionHypothesis =>
    have ⟨head, tail⟩ := List.forall_mem_cons.mp preserves
    exact inductionHypothesis tail (head event isServed)

/-- A complete conditional assignment yields a served event. -/
theorem Complete.yields_conditionalAssignment
    {updater : ConditionalAssignmentImpl X}
    (complete : Complete served
      (.conditionalAssignment updater :
        AttributesUpdaterInterface X (ModelNode X)))
    (isServed : served event) : Yields served (updater.update event) := by
  unfold ConditionalAssignmentImpl.update
  split_ifs
  · exact .ok (yields_assignments complete isServed)
  · exact .ok isServed

/-- A complete shredder yields a served event. -/
theorem Complete.yields_geometricShredder {updater : GeometricShredderImpl X}
    (complete : Complete served
      (.geometricShredder updater : AttributesUpdaterInterface X (ModelNode X)))
    (isServed : served event) : Yields served (updater.update event) := by
  obtain ⟨shreds, preserves⟩ := complete
  obtain ⟨shredHash, hashEq, targetSet⟩ := (shreds event isServed).shredHash
  unfold GeometricShredderImpl.update
  rw [hashEq]
  change Yields served (if shredHash = 0 then _ else _)
  split_ifs with unshredded
  · exact .ok isServed
  · obtain ⟨target, targetEq⟩ := targetSet unshredded
    rw [targetEq]
    exact .ok (preserves _ event isServed)

/-- A complete update yields a served event, if its update tree does. -/
theorem Complete.yields_updateEvent {config : AttributesUpdater X (Builder X)}
    {updater : AttributesUpdaterInterface X (ModelNode X)}
    (built : build config = .ok updater) (complete : updater.Complete served)
    (trees : ∀ root ∈ updater.treeRoot, ∀ event, served event →
      Yields served (applyToCopy root.apply event))
    (isServed : served event) :
    Yields served (ModelNode.updateEvent updater event) := by
  unfold ModelNode.updateEvent
  cases config with
  | updateMatrix config =>
    obtain ⟨impl, implBuilt, built⟩ := bind_eq_ok_iff.mp built
    obtain rfl := Except.ok.inj built
    simp only [map, update, applyToCopy_change]
    exact complete.yields_updateMatrix implBuilt isServed
  | sparseUpdateMatrix config =>
    obtain ⟨impl, implBuilt, built⟩ := bind_eq_ok_iff.mp built
    obtain rfl := Except.ok.inj built
    simp only [map, update, applyToCopy_change]
    exact complete.yields_sparseUpdateMatrix implBuilt isServed
  | conditionalMerge config =>
    obtain ⟨impl, implBuilt, built⟩ := bind_eq_ok_iff.mp built
    obtain rfl := Except.ok.inj built
    simp only [map, update, applyToCopy_change]
    exact complete.yields_conditionalMerge implBuilt isServed
  | conditionalAssignment config =>
    obtain ⟨impl, -, built⟩ := bind_eq_ok_iff.mp built
    obtain rfl := Except.ok.inj built
    simp only [map, update, applyToCopy_change]
    exact complete.yields_conditionalAssignment isServed
  | geometricShredder config =>
    obtain ⟨impl, -, built⟩ := bind_eq_ok_iff.mp built
    obtain rfl := Except.ok.inj built
    simp only [map, update, applyToCopy_change]
    exact complete.yields_geometricShredder isServed
  | updateTree root =>
    obtain ⟨node, -, built⟩ := bind_eq_ok_iff.mp built
    obtain rfl := Except.ok.inj built
    exact trees node rfl event isServed
  | notSet => contradiction

end AttributesUpdaterInterface

/-! ## Leaves -/

/-- A quantum label with a distribution collapses. -/
theorem collapseQuantumLabel_isOk
    {quantumLabel : QuantumLabel X.Label} (collapses : quantumLabel.Collapses)
    (seedSuffix : String) (outputLabel : X.Label) :
    ∃ label, collapseQuantumLabel X quantumLabel seedSuffix outputLabel =
      .ok label := by
  obtain ⟨sameLength, normalizable⟩ := collapses
  have nonempty : quantumLabel.labels.length ≠ 0 := by
    rw [sameLength]
    exact fun empty => normalizable.1 (List.length_eq_zero_iff.mp empty)
  obtain ⟨hashing, built⟩ :=
    (DistributedConsistentHashing.succeeds_build_enumerateChoices
      quantumLabel.probabilities).mpr normalizable
  have isPosition := isPosition_hash_enumerateChoices (X := X) built
    ("quantum-label-collapse-" ++ quantumLabel.seed ++ seedSuffix)
  rw [← sameLength] at isPosition
  obtain ⟨label, -, found⟩ := isPosition.elementAt_eq
  unfold collapseQuantumLabel
  rw [if_neg nonempty, if_neg (not_not.mpr sameLength), built]
  simp only [bind, Except.bind, found]
  exact ⟨_, rfl⟩

/-- Quantum labels that collapse are written one after another. -/
theorem yields_collapsedLabel {quantumLabels : List (QuantumLabel X.Label)}
    (collapses : ∀ quantumLabel ∈ quantumLabels, quantumLabel.Collapses)
    (seedSuffix : String) (label : Option X.Label) :
    Yields (fun _ => True)
      (collapsedLabel X quantumLabels seedSuffix label) := by
  refine .foldlM (fun quantumLabel member label _ => ?_) trivial
  obtain ⟨collapsed, collapsedEq⟩ := collapseQuantumLabel_isOk
    (collapses quantumLabel member) seedSuffix (label.getD X.emptyLabel)
  rw [collapsedEq]
  exact .ok trivial

/-- The label of a served event can be written. -/
theorem Servable.writtenLabel (servable : Servable served)
    (isServed : served event) (virtualPersonId : UInt64) :
    ∃ label, writtenLabel X event virtualPersonId = .ok label := by
  obtain ⟨label, labelEq, -⟩ := yields_collapsedLabel
    (servable.collapses event isServed) (toString virtualPersonId) none
  unfold Cc.writtenLabel
  rw [labelEq]
  exact ⟨_, rfl⟩

namespace RankedPopulationNodeImpl

variable {node : RankedPopulationNodeImpl}

/-- A node with ids for unranked events gives one. -/
theorem HasUnrankedIds.unrankedId (hasIds : node.HasUnrankedIds)
    (actingFingerprint : UInt64) :
    ∃ vid, node.unrankedId X actingFingerprint = .ok vid := by
  unfold RankedPopulationNodeImpl.unrankedId
  rcases hasIds with fullPool | ⟨disjoint, smaller⟩
  · rw [fullPool]
    exact ⟨_, rfl⟩
  · have space : node.poolSize - node.rankedSize ≠ 0 := by
      intro none
      have sum := UInt64.sub_add_cancel node.poolSize node.rankedSize
      rw [none, UInt64.zero_add] at sum
      exact smaller sum
    rw [disjoint]
    simp only
    rw [if_neg space]
    exact ⟨_, rfl⟩

/-- A rank in the ranked part has an id. -/
theorem rankedId_isOk {localRank : UInt64}
    (isRanked : localRank < node.rankedSize) :
    ∃ vid, node.rankedId X localRank = .ok vid := by
  obtain ⟨permuted, permutedEq⟩ := feistelPermute_isOk X node.randomSeed
    (lt_of_le_of_lt node.rankedSizeLe node.poolSizeLt) isRanked
  unfold rankedId
  rw [permutedEq]
  exact ⟨_, rfl⟩

/-- A node that answers an event has an id for it. -/
theorem virtualPersonId_isOk
    (answers : node.IsRanked event ∨ node.HasUnrankedIds ∧
      (node.lookupRank event = none → rankAssignments event = [])) :
    ∃ vid, node.virtualPersonId event = .ok vid := by
  unfold virtualPersonId
  rcases answers with ⟨rank, found, isRanked⟩ | ⟨hasIds, noRank⟩
  · rw [found]
    simp only
    rw [if_pos isRanked]
    exact rankedId_isOk isRanked
  · cases found : node.lookupRank event with
    | none =>
      simp only
      rw [if_neg (not_not.mpr (noRank found))]
      exact hasIds.unrankedId _
    | some rank =>
      simp only
      split_ifs with isRanked
      · exact rankedId_isOk isRanked
      · exact hasIds.unrankedId _

end RankedPopulationNodeImpl

namespace LeafNode

variable {leaf : LeafNode}

/-- The id that a leaf with an answer looks for is found. -/
theorem Answers.virtualPersonId (answers : leaf.Answers served)
    (isBuilt : leaf.IsBuilt) (isServed : served event)
    (full : event.poolIdentityMode.getD false = false) :
    ∀ found ∈ leaf.virtualPersonId event, ∃ vid, found = .ok vid := by
  intro found isFound
  cases isBuilt with
  | stopNode => contradiction
  | @populationNode config node built =>
    obtain rfl := Option.some.inj isFound
    obtain ⟨_, -, built⟩ := bind_eq_ok_iff.mp built
    obtain ⟨selector, selectorBuilt, built⟩ := bind_eq_ok_iff.mp built
    obtain rfl := Except.ok.inj built
    obtain ⟨_, _, _, found, -⟩ := VirtualPersonSelector.lookUp_eq selectorBuilt
      (selector.populationIndex (X.fingerprint
        (config.randomSeed ++ toString (event.actingFingerprint.getD 0))))
    exact ⟨_, found⟩
  | rankedPopulationNode node =>
    obtain rfl := Option.some.inj isFound
    exact node.virtualPersonId_isOk (answers event isServed full)

/-- A leaf that answers applies to every served event. -/
theorem Answers.applies (answers : leaf.Answers served) (isBuilt : leaf.IsBuilt)
    (servable : Servable served) (isServed : served event) :
    ∃ final, applyToCopy leaf.apply event = .ok final := by
  rw [leaf.applyToCopy_apply]
  by_cases identity : event.poolIdentityMode.getD false = true
  · rw [if_pos identity]
    exact ⟨_, rfl⟩
  · have ids := answers.virtualPersonId isBuilt isServed
      (Bool.eq_false_of_not_eq_true identity)
    rw [if_neg identity]
    cases found : leaf.virtualPersonId event with
    | none => exact ⟨event, rfl⟩
    | some result =>
      obtain ⟨vid, rfl⟩ := ids result found
      obtain ⟨label, written⟩ := servable.writtenLabel isServed vid
      have occupied : ¬0 < event.virtualPersonActivities.length := by
        rw [servable.unlabeled event isServed]
        exact Nat.lt_irrefl 0
      have created : createdPerson event (.ok vid) =
          .ok [⟨some vid, label⟩] :=
        createdPerson_ok_iff.mpr ⟨vid, label, rfl, written, rfl⟩
      simp only
      rw [if_neg occupied, created]
      exact ⟨_, rfl⟩

end LeafNode

end Cc

end VirtualPeople
