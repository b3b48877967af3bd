import VirtualPeople.Cc.LeafNode
import VirtualPeople.Cc.MatrixUpdates
import VirtualPeople.Cc.References
import VirtualPeople.Cc.Routing

/-!
# The faults of a built model

The code guards its reads with checks that report an internal error, and reads
the labels of a quantum label without one.  A built node passes all of these:
what a hashing chooses is a position below the number of its choices, a matcher
finds a column that exists, and the builders keep the sequences that are read
with these positions as long as the ones they were made from.
-/

namespace VirtualPeople.Cc

open Binary64

variable {X : Externals}

/-! ## Expected faults -/

/-- The fault is not an internal error, and no read past an end. -/
def Expected (fault : Fault) : Prop :=
  fault ≠ .outOfBounds ∧
    ∀ status, fault = .status status → status.code ≠ .internal

theorem expected_status {code : StatusCode} {message : String}
    (isExpected : code ≠ .internal) : Expected (.status ⟨code, message⟩) := by
  refine ⟨nofun, fun status same => ?_⟩
  rwa [← Fault.status.inj same]

theorem expected_invalidArgument (message : String) :
    Expected (invalidArgument message) :=
  expected_status (by decide)

theorem expected_outOfRange (message : String) :
    Expected (outOfRange message) :=
  expected_status (by decide)

theorem expected_conversion : Expected .conversion :=
  ⟨nofun, nofun⟩

theorem expected_divergence : Expected .divergence :=
  ⟨nofun, nofun⟩

/-! ## Positions -/

/-- The index is a position of a sequence of this length. -/
def IsPosition (length : ℕ) (index : ℤ) : Prop :=
  0 ≤ index ∧ index < length

/-- The element at a position of a list is read. -/
theorem IsPosition.elementAt_eq {α : Type} {elements : List α} {index : ℤ}
    (isPosition : IsPosition elements.length index) :
    ∃ element, elements[index.toNat]? = some element ∧
      elementAt elements index = .ok element := by
  obtain ⟨nonneg, lt⟩ := isPosition
  have inside : index.toNat < elements.length := by omega
  refine ⟨elements[index.toNat], List.getElem?_eq_getElem inside, ?_⟩
  unfold elementAt
  rw [if_neg (by omega), List.getElem?_eq_getElem inside]
  rfl

/-- The position of a match is one of the list. -/
theorem isPosition_matchingIndex {α : Type} (elements : List α) (p : α → Bool)
    (found : matchingIndex (elements.findIdx? p) ≠ kNoMatchingIndex) :
    IsPosition elements.length (matchingIndex (elements.findIdx? p)) := by
  cases position : elements.findIdx? p with
  | none =>
    rw [position] at found
    exact absurd rfl found
  | some position' =>
    obtain ⟨inside, -⟩ := List.findIdx?_eq_some_iff_findIdx_eq.mp position
    rw [matchingIndex_some]
    exact ⟨Int.natCast_nonneg _, by exact_mod_cast inside⟩

/-! ## Choices -/

namespace DistributedConsistentHashing

/-- The builder keeps the choice ids, and refuses to choose from nothing. -/
theorem choiceIds_of_build {distribution : List DistributionChoice}
    {hashing : DistributedConsistentHashing}
    (built : build distribution = .ok hashing) :
    distribution ≠ [] ∧ hashing.distribution.map (·.choiceId) =
      distribution.map (·.choiceId) := by
  unfold build at built
  split_ifs at built with empty
  refine ⟨by simpa using empty, ?_⟩
  obtain ⟨probabilitiesSum, -, built⟩ := bind_eq_ok_iff.mp built
  split_ifs at built
  rw [← Except.ok.inj built, List.map_map]
  rfl

/-- Whatever the doubles are, the hash is a choice id or the initial one. -/
theorem hash_mem (hashing : DistributedConsistentHashing) (randomSeed : String) :
    hashing.hash X randomSeed = 0 ∨
      hashing.hash X randomSeed ∈ hashing.distribution.map (·.choiceId) := by
  unfold hash
  generalize doubleMax = xi
  generalize (0 : ℤ) = initial
  induction hashing.distribution generalizing initial xi with
  | nil => exact Or.inl rfl
  | cons choice choices inductionHypothesis =>
    rw [List.foldl_cons, List.map_cons, List.mem_cons]
    simp only
    split_ifs
    · rcases inductionHypothesis _ choice.choiceId with same | member
      · exact Or.inr (Or.inl same)
      · exact Or.inr (Or.inr member)
    · rcases inductionHypothesis xi initial with same | member
      · exact Or.inl same
      · exact Or.inr (Or.inr member)

/-- A hashing that was built from choices among the first `length` positions
hashes to one of them. -/
theorem isPosition_hash {distribution : List DistributionChoice}
    {hashing : DistributedConsistentHashing} {length : ℕ}
    (built : build distribution = .ok hashing)
    (positions : ∀ choice ∈ distribution, IsPosition length choice.choiceId)
    (randomSeed : String) : IsPosition length (hashing.hash X randomSeed) := by
  obtain ⟨nonempty, sameIds⟩ := choiceIds_of_build built
  rcases hashing.hash_mem (X := X) randomSeed with initial | member
  · obtain ⟨choice, member⟩ := List.exists_mem_of_ne_nil _ nonempty
    have := positions choice member
    rw [initial]
    exact ⟨le_refl 0, lt_of_le_of_lt this.1 this.2⟩
  · rw [sameIds] at member
    obtain ⟨choice, inDistribution, same⟩ := List.mem_map.mp member
    rw [← same]
    exact positions choice inDistribution

end DistributedConsistentHashing

/-- The choices of a list of probabilities are its positions. -/
theorem isPosition_of_enumerateChoices (probabilities : List Float) :
    ∀ choice ∈ enumerateChoices probabilities,
      IsPosition probabilities.length choice.choiceId := by
  intro choice member
  obtain ⟨position, inside, same⟩ := List.mem_mapIdx.mp member
  rw [← same]
  exact ⟨Int.natCast_nonneg _, Int.ofNat_lt.mpr inside⟩

/-- A hashing of a list of probabilities chooses one of its positions. -/
theorem isPosition_hash_enumerateChoices {probabilities : List Float}
    {hashing : DistributedConsistentHashing}
    (built : DistributedConsistentHashing.build
      (enumerateChoices probabilities) = .ok hashing) (randomSeed : String) :
    IsPosition probabilities.length (hashing.hash X randomSeed) :=
  DistributedConsistentHashing.isPosition_hash built
    (isPosition_of_enumerateChoices probabilities) randomSeed

/-- The builder of a hashing only rejects its argument. -/
theorem expected_build (distribution : List DistributionChoice) :
    FaultsIn Expected (DistributedConsistentHashing.build distribution) := by
  unfold DistributedConsistentHashing.build
  split_ifs
  · exact .error (expected_invalidArgument _)
  · refine .bind (.foldlM (fun sum choice => ?_) _ _) fun sum => ?_
    · split_ifs
      · exact .error (expected_invalidArgument _)
      · exact .ok _
    · split_ifs
      · exact .error (expected_invalidArgument _)
      · exact .ok _

/-! ## Leaves -/

/-- Collapsing a quantum label fails only with expected faults. -/
theorem expected_collapseQuantumLabel (quantumLabel : QuantumLabel X.Label)
    (seedSuffix : String) (outputLabel : X.Label) :
    FaultsIn Expected
      (collapseQuantumLabel X quantumLabel seedSuffix outputLabel) := by
  unfold collapseQuantumLabel
  split_ifs with empty different
  · exact .error (expected_invalidArgument _)
  · exact .error (expected_invalidArgument _)
  · refine .bind_of_ok (expected_build _) fun hashing built => ?_
    have isPosition := isPosition_hash_enumerateChoices (X := X) built
      ("quantum-label-collapse-" ++ quantumLabel.seed ++ seedSuffix)
    rw [← not_not.mp different] at isPosition
    obtain ⟨label, -, found⟩ := isPosition.elementAt_eq
    simp only [found]
    exact .ok _

/-- Writing a label fails only with expected faults. -/
theorem expected_writtenLabel (event : X.Event) (virtualPersonId : UInt64) :
    FaultsIn Expected (writtenLabel X event virtualPersonId) := by
  refine .bind (.foldlM (fun label quantumLabel => ?_) _ _) fun _ => .ok _
  rw [map_eq_pure_bind]
  exact .bind (expected_collapseQuantumLabel _ _ _) fun _ => .ok _

/-- Creating a person fails only with expected faults, if finding the id does. -/
theorem expected_createdPerson {found : Result UInt64}
    (foundFaults : FaultsIn Expected found) (event : X.Event) :
    FaultsIn Expected (createdPerson event found) :=
  .bind foundFaults fun _ => .bind (expected_writtenLabel _ _) fun _ => .ok _

/-- A ranked node fails only with expected faults. -/
theorem RankedPopulationNodeImpl.expected_virtualPersonId
    (node : RankedPopulationNodeImpl) (event : X.Event) :
    FaultsIn Expected (node.virtualPersonId event) := by
  have unranked (actingFingerprint : UInt64) :
      FaultsIn Expected (node.unrankedId X actingFingerprint) := by
    unfold unrankedId
    simp only
    split
    · split_ifs
      · exact .error (expected_invalidArgument _)
      · exact .ok _
    · exact .ok _
    · exact .error (expected_invalidArgument _)
  have ranked (localRank : UInt64) :
      FaultsIn Expected (node.rankedId X localRank) := by
    refine .bind ?_ fun _ => .ok _
    unfold feistelPermute
    split_ifs
    · exact .ok _
    · split
      · exact .ok _
      · exact .error expected_divergence
  unfold virtualPersonId
  split
  · split_ifs
    · exact ranked _
    · exact unranked _
  · split_ifs
    · exact .error (expected_invalidArgument _)
    · exact unranked _

/-- The leaves that builders make. -/
inductive LeafNode.IsBuilt : LeafNode → Prop
  | stopNode : IsBuilt .stopNode
  | populationNode {config : PopulationNode} {node : PopulationNodeImpl}
      (built : PopulationNodeImpl.buildFromConfig config = .ok node) :
      IsBuilt (.populationNode node)
  | rankedPopulationNode (node : RankedPopulationNodeImpl) :
      IsBuilt (.rankedPopulationNode node)

/-- A built population node fails only with expected faults. -/
theorem PopulationNodeImpl.expected_virtualPersonId {config : PopulationNode}
    {node : PopulationNodeImpl} (built : buildFromConfig config = .ok node)
    (event : X.Event) : FaultsIn Expected (node.virtualPersonId event) := by
  obtain ⟨_, -, built⟩ := bind_eq_ok_iff.mp built
  obtain ⟨selector, selectorBuilt, built⟩ := bind_eq_ok_iff.mp built
  rw [← Except.ok.inj built]
  obtain ⟨_, _, _, found, -⟩ := VirtualPersonSelector.lookUp_eq selectorBuilt
    (selector.populationIndex (X.fingerprint
      (config.randomSeed ++ toString (event.actingFingerprint.getD 0))))
  change FaultsIn Expected (selector.lookUp _)
  rw [found]
  exact .ok _

/-- A built leaf looks for an id with expected faults only. -/
theorem LeafNode.IsBuilt.expected_virtualPersonId {leaf : LeafNode}
    (isBuilt : leaf.IsBuilt) {event : X.Event} {found : Result UInt64}
    (looksFor : leaf.virtualPersonId event = some found) :
    FaultsIn Expected found := by
  cases isBuilt with
  | stopNode => contradiction
  | populationNode built =>
    rw [← Option.some.inj looksFor]
    exact PopulationNodeImpl.expected_virtualPersonId built event
  | rankedPopulationNode node =>
    rw [← Option.some.inj looksFor]
    exact node.expected_virtualPersonId event

/-- A built leaf fails only with expected faults. -/
theorem LeafNode.IsBuilt.expected_apply {leaf : LeafNode}
    (isBuilt : leaf.IsBuilt) (event : X.Event) :
    FaultsIn Expected (applyToCopy leaf.apply event) := by
  rw [LeafNode.applyToCopy_apply]
  by_cases identity : event.poolIdentityMode.getD false = true
  · rw [if_pos identity]
    exact .ok _
  · rw [if_neg identity]
    cases looksFor : leaf.virtualPersonId event with
    | none => exact .ok _
    | some found =>
      dsimp only
      split_ifs
      · exact .error (expected_invalidArgument _)
      · exact .bind (expected_createdPerson
          (isBuilt.expected_virtualPersonId looksFor) event) fun _ => .ok _

/-! ## Updaters -/

namespace FieldFiltersMatcher

/-- A match of filters is a position of theirs. -/
theorem isPosition_getFirstMatch (matcher : FieldFiltersMatcher X)
    {event : X.Event} (found : matcher.getFirstMatch event ≠ kNoMatchingIndex) :
    IsPosition matcher.filters.length (matcher.getFirstMatch event) :=
  isPosition_matchingIndex _ _ found

end FieldFiltersMatcher

/-- An event without a column fails only with an expected fault. -/
theorem expected_updateWithoutColumn (passThroughNonMatches : Bool)
    (event : X.Event) :
    FaultsIn Expected (updateWithoutColumn passThroughNonMatches event) := by
  unfold updateWithoutColumn
  split_ifs
  · exact .ok _
  · exact .error (expected_invalidArgument _)

/-- A row at a position of the list is merged. -/
theorem expected_mergeRow {rows : List X.Event} {rowIndex : ℤ}
    (isPosition : IsPosition rows.length rowIndex) (event : X.Event) :
    FaultsIn Expected (mergeRow X rows rowIndex event) := by
  obtain ⟨row, -, found⟩ := isPosition.elementAt_eq
  obtain ⟨nonneg, lt⟩ := isPosition
  unfold mergeRow
  rw [if_neg (by omega), found]
  exact .ok _

namespace UpdateMatrixImpl

/-- The choices of a column are positions of rows. -/
theorem isPosition_of_columnDistribution {config : UpdateMatrix X}
    {columnIndex : ℕ} {distribution : List DistributionChoice}
    (built : columnDistribution config columnIndex = .ok distribution) :
    ∀ choice ∈ distribution, IsPosition config.rows.length choice.choiceId := by
  intro choice member
  obtain ⟨rowIndex, inRange, choiceEq⟩ := exists_mem_of_mem_mapM built member
  obtain ⟨probability, -, choiceEq⟩ := bind_eq_ok_iff.mp choiceEq
  rw [← Except.ok.inj choiceEq]
  exact ⟨Int.natCast_nonneg _, Int.ofNat_lt.mpr (List.mem_range.mp inRange)⟩

/-- A built matrix fails only with expected faults. -/
theorem expected_update {config : UpdateMatrix X} {updater : UpdateMatrixImpl X}
    (built : build config = .ok updater) (event : X.Event) :
    FaultsIn Expected (updater.update event) := by
  cases found : columnOf config.columns config.hashFieldMask event with
  | none =>
    rw [update_of_none built found]
    exact expected_updateWithoutColumn _ event
  | some columnIndex =>
    obtain ⟨distribution, rowHashing, distributionEq, hashingBuilt, updateEq⟩ :=
      update_of_some built found
    rw [updateEq]
    refine expected_mergeRow ?_ event
    exact DistributedConsistentHashing.isPosition_hash hashingBuilt
      (isPosition_of_columnDistribution distributionEq) _

end UpdateMatrixImpl

namespace SparseUpdateMatrixImpl

/-- The hash of a column is the position of one of its rows. -/
theorem isPosition_of_buildRowsHashing {column : SparseUpdateMatrixColumn X}
    (aligned : column.rows.length = column.probabilities.length)
    {rowHashing : DistributedConsistentHashing}
    (built : buildRowsHashing column = .ok rowHashing) (randomSeed : String) :
    IsPosition column.rows.length (rowHashing.hash X randomSeed) := by
  rw [aligned, ← List.length_map ofFloat32]
  exact isPosition_hash_enumerateChoices built randomSeed

/-- A built sparse matrix fails only with expected faults. -/
theorem expected_update {config : SparseUpdateMatrix X}
    {updater : SparseUpdateMatrixImpl X} (built : build config = .ok updater)
    (event : X.Event) : FaultsIn Expected (updater.update event) := by
  cases found : columnOf config.attrs config.hashFieldMask event with
  | none =>
    rw [update_of_none built found]
    exact expected_updateWithoutColumn _ event
  | some columnIndex =>
    obtain ⟨column, rowHashing, columnAt, hashingBuilt, updateEq⟩ :=
      update_of_some built found
    have aligned := aligned_of_build built (List.mem_of_getElem? columnAt)
    rw [updateEq]
    exact expected_mergeRow
      (isPosition_of_buildRowsHashing aligned hashingBuilt _) event

end SparseUpdateMatrixImpl

/-- A built merge fails only with expected faults. -/
theorem ConditionalMergeImpl.expected_update {config : ConditionalMerge X}
    {updater : ConditionalMergeImpl X} (built : build config = .ok updater)
    (event : X.Event) : FaultsIn Expected (updater.update event) := by
  unfold build at built
  split_ifs at built
  obtain ⟨nodes, -, built⟩ := bind_eq_ok_iff.mp built
  rw [← Except.ok.inj built]
  unfold update
  simp only
  split_ifs with noMatch passThrough outside
  · exact .ok _
  · exact .error (expected_invalidArgument _)
  · have isPosition := FieldFiltersMatcher.isPosition_getFirstMatch _ noMatch
    simp only [List.length_map] at isPosition outside
    exact absurd outside (by
      have := isPosition.1
      have := isPosition.2
      omega)
  · have isPosition := FieldFiltersMatcher.isPosition_getFirstMatch _ noMatch
    rw [List.length_map, ← List.length_map Prod.snd] at isPosition
    obtain ⟨update, -, found⟩ := isPosition.elementAt_eq
    rw [found]
    exact .ok _

/-- A conditional assignment does not fail. -/
theorem ConditionalAssignmentImpl.expected_update
    (updater : ConditionalAssignmentImpl X) (event : X.Event) :
    FaultsIn Expected (updater.update event) := by
  unfold update
  split_ifs
  · exact .ok _
  · exact .ok _

/-- Taking an integral part fails only by its range. -/
theorem expected_integralPart (value : Float) (lower upper : ℤ) :
    FaultsIn Expected (integralPart value lower upper) := by
  unfold integralPart
  split
  · split_ifs
    · exact .ok _
    · exact .error expected_conversion
  · exact .error expected_conversion

/-- A shredder fails only with expected faults. -/
theorem GeometricShredderImpl.expected_update (updater : GeometricShredderImpl X)
    (event : X.Event) : FaultsIn Expected (updater.update event) := by
  refine .bind ?_ fun shredHash => ?_
  · unfold shredHash
    split
    · exact .ok _
    · split
      · exact .error (expected_invalidArgument _)
      · split
        · exact .ok _
        · exact .bind (expected_integralPart _ _ _) fun _ => .ok _
  · split_ifs
    · exact .ok _
    · split
      · exact .error (expected_invalidArgument _)
      · exact .ok _

/-! ## Branches -/

/-- Whatever the event is, the node has expected faults only. -/
def ModelNode.Safe (node : ModelNode X) : Prop :=
  ∀ event, FaultsIn Expected (applyToCopy node.apply event)

/-- An updater has expected faults only when its tree does. -/
theorem AttributesUpdaterInterface.expected_updateEvent
    {config : AttributesUpdater X (Builder X)}
    {updater : AttributesUpdaterInterface X (ModelNode X)}
    (built : build config = .ok updater)
    (trees : ∀ root ∈ updater.treeRoot, root.Safe) (event : X.Event) :
    FaultsIn Expected (ModelNode.updateEvent updater event) := by
  unfold ModelNode.updateEvent
  cases config with
  | updateMatrix config =>
    obtain ⟨impl, implBuilt, built⟩ := bind_eq_ok_iff.mp built
    obtain rfl := Except.ok.inj built
    simp only [map, update, applyToCopy_change]
    exact UpdateMatrixImpl.expected_update implBuilt event
  | sparseUpdateMatrix config =>
    obtain ⟨impl, implBuilt, built⟩ := bind_eq_ok_iff.mp built
    obtain rfl := Except.ok.inj built
    simp only [map, update, applyToCopy_change]
    exact SparseUpdateMatrixImpl.expected_update implBuilt event
  | conditionalMerge config =>
    obtain ⟨impl, implBuilt, built⟩ := bind_eq_ok_iff.mp built
    obtain rfl := Except.ok.inj built
    simp only [map, update, applyToCopy_change]
    exact ConditionalMergeImpl.expected_update implBuilt event
  | conditionalAssignment config =>
    obtain ⟨impl, -, built⟩ := bind_eq_ok_iff.mp built
    obtain rfl := Except.ok.inj built
    simp only [map, update, applyToCopy_change]
    exact impl.expected_update event
  | geometricShredder config =>
    obtain ⟨impl, -, built⟩ := bind_eq_ok_iff.mp built
    obtain rfl := Except.ok.inj built
    simp only [map, update, applyToCopy_change]
    exact impl.expected_update event
  | updateTree root =>
    obtain ⟨node, -, built⟩ := bind_eq_ok_iff.mp built
    obtain rfl := Except.ok.inj built
    exact trees node rfl event
  | notSet => contradiction

/-- Reading an expectation fails only with expected faults. -/
theorem expected_extractDoubleValue {type : CppType} {extract}
    (extracts : getExtractMultiplicityFunction X type = .ok extract)
    (event : X.Event) (source : X.FieldPath) :
    FaultsIn Expected (extract event source) := by
  have extracted {type : CppType} {toDouble : type.Value → Float} :
      FaultsIn Expected (extractDoubleValue X type toDouble event source) := by
    unfold extractDoubleValue
    split
    · exact .ok _
    · exact .error (expected_invalidArgument _)
  unfold getExtractMultiplicityFunction at extracts
  split at extracts
  all_goals first | contradiction | (rw [← Except.ok.inj extracts]; exact extracted)

theorem expected_castToInt32 (value : Float) :
    FaultsIn Expected (castToInt32 value) :=
  .bind (expected_integralPart _ _ _) fun _ => .ok _

theorem expected_castToUInt64 (value : Float) :
    FaultsIn Expected (castToUInt64 value) :=
  .bind (expected_integralPart _ _ _) fun _ => .ok _

namespace MultiplicityImpl

variable (multiplicity : MultiplicityImpl X)

/-- The expectation of an event fails only with expected faults. -/
theorem expected_expectedMultiplicity (event : X.Event) :
    FaultsIn Expected (multiplicity.expectedMultiplicity event) := by
  unfold expectedMultiplicity
  split
  · exact .ok _
  · rename_i field _
    exact expected_extractDoubleValue field.extracts event _

theorem expected_capMultiplicity (expectedMultiplicity : Float) :
    FaultsIn Expected (multiplicity.capMultiplicity expectedMultiplicity) := by
  unfold capMultiplicity
  split_ifs
  · exact .ok _
  · exact .error (expected_outOfRange _)
  · exact .ok _

/-- Counting clones fails only with expected faults. -/
theorem expected_computeEventMultiplicity (event : X.Event) :
    FaultsIn Expected (multiplicity.computeEventMultiplicity event) := by
  refine .bind (multiplicity.expected_expectedMultiplicity event) fun _ =>
    .bind (multiplicity.expected_capMultiplicity _) fun _ => ?_
  split_ifs
  · exact .error (expected_outOfRange _)
  · refine .bind (expected_castToInt32 _) fun _ =>
      .bind (expected_castToUInt64 _) fun _ => ?_
    split_ifs
    · exact .ok _
    · exact .ok _

end MultiplicityImpl

namespace BranchNodeImpl

/-- When all branches are selected by condition, each one has a filter. -/
theorem length_filterMap_conditionFilter {selections : List (SelectBy X)}
    (conditions : ∀ selection ∈ selections,
      selection.selectByCase = .condition) :
    (selections.filterMap SelectBy.conditionFilter).length =
      selections.length := by
  induction selections with
  | nil => rfl
  | cons selection selections inductionHypothesis =>
    have ⟨head, tail⟩ := List.forall_mem_cons.mp conditions
    cases selection with
    | condition filter =>
      exact congrArg Nat.succ (inductionHypothesis tail)
    | chance value => contradiction
    | notSet => contradiction

/-- A matcher has a filter for every branch. -/
theorem length_of_buildMatcher {selections : List (SelectBy X)}
    {matcher : FieldFiltersMatcher X}
    (built : buildMatcher selections = .ok matcher)
    (conditions : ∀ selection ∈ selections,
      selection.selectByCase = .condition) :
    matcher.filters.length = selections.length := by
  unfold buildMatcher FieldFiltersMatcher.build at built
  split_ifs at built
  obtain ⟨filters, filtersBuilt, built⟩ := bind_eq_ok_iff.mp built
  rw [← Except.ok.inj built, ← length_filterMap_conditionFilter conditions]
  exact (mapM_eq_ok_iff.mp filtersBuilt).length_eq.symm

/-- Branches are selected by chance or by condition, with as many choices as
there are branches. -/
theorem buildSelection_cases {selections : List (SelectBy X)}
    {hashing : Option DistributedConsistentHashing}
    {matcher : Option (FieldFiltersMatcher X)}
    (built : buildSelection selections = .ok (hashing, matcher)) :
    (∃ selected, hashing = some selected ∧ ∀ randomSeed,
      IsPosition selections.length (selected.hash X randomSeed)) ∨
    (hashing = none ∧ ∃ conditions, matcher = some conditions ∧
      conditions.filters.length = selections.length) := by
  unfold buildSelection at built
  simp only at built
  split_ifs at built with different
  split at built
  · obtain ⟨selected, hashingBuilt, built⟩ := bind_eq_ok_iff.mp built
    obtain ⟨rfl, rfl⟩ := Prod.mk.inj (Except.ok.inj built)
    refine Or.inl ⟨selected, rfl, fun randomSeed => ?_⟩
    rw [← List.length_map SelectBy.chanceValue]
    exact isPosition_hash_enumerateChoices hashingBuilt randomSeed
  · rename_i isCondition
    obtain ⟨conditions, matcherBuilt, built⟩ := bind_eq_ok_iff.mp built
    obtain ⟨rfl, rfl⟩ := Prod.mk.inj (Except.ok.inj built)
    refine Or.inr ⟨rfl, conditions, rfl, length_of_buildMatcher matcherBuilt ?_⟩
    intro selection member
    by_contra other
    rw [isCondition] at different
    exact different (List.any_eq_true.mpr
      ⟨selection, member, decide_eq_true other⟩)
  · contradiction

variable {selections : List (SelectBy X)}
  {impl : BranchNodeImpl X (ModelNode X)}

/-- A child is selected with expected faults only. -/
theorem expected_selectChild
    (selection : buildSelection selections = .ok (impl.hashing, impl.matcher))
    (sameLength : impl.childNodes.length = selections.length)
    (event : X.Event) : FaultsIn Expected (impl.selectChild event) := by
  have select {selectedIndex : ℤ}
      (isPosition : IsPosition selections.length selectedIndex) :
      FaultsIn Expected
        (if selectedIndex < 0 ∨ impl.childNodes.length ≤ selectedIndex then
          throw (internal "The returned index is out of range.")
        else elementAt impl.childNodes selectedIndex) := by
    rw [← sameLength] at isPosition
    obtain ⟨child, -, found⟩ := isPosition.elementAt_eq
    obtain ⟨nonneg, lt⟩ := isPosition
    rw [if_neg (by omega), found]
    exact .ok _
  unfold selectChild selectIndex
  rcases buildSelection_cases selection with
    ⟨selected, hashingEq, positions⟩ | ⟨hashingEq, conditions, matcherEq, length⟩
  · rw [hashingEq]
    exact select (positions _)
  · rw [hashingEq, matcherEq]
    simp only
    by_cases noMatch : conditions.getFirstMatch event = kNoMatchingIndex
    · rw [if_pos noMatch]
      exact .error (expected_invalidArgument _)
    · rw [if_neg noMatch]
      exact select (length ▸ conditions.isPosition_getFirstMatch noMatch)

/-- An action has updaters or a multiplicity, and not both. -/
theorem updaters_eq_nil_of_buildAction {action : Action X (Builder X)}
    {updaters : List (AttributesUpdaterInterface X (ModelNode X))}
    {multiplicity : MultiplicityImpl X}
    (built : buildAction action = .ok (updaters, some multiplicity)) :
    updaters = [] := by
  cases action with
  | updates updates =>
    obtain ⟨_, -, built⟩ := bind_eq_ok_iff.mp built
    exact absurd (Prod.mk.inj (Except.ok.inj built)).2 nofun
  | multiplicity config =>
    obtain ⟨_, -, built⟩ := bind_eq_ok_iff.mp built
    exact (Prod.mk.inj (Except.ok.inj built)).1.symm
  | notSet => exact absurd (Prod.mk.inj (Except.ok.inj built)).2 nofun

/-- The tree of a built updater is what its configuration resolves to. -/
theorem exists_of_treeRoot {config : AttributesUpdater X (CompiledNode X)}
    {updater : AttributesUpdaterInterface X (ModelNode X)}
    (built : AttributesUpdaterInterface.build (config.map fun root =>
      Step.lift (ModelNode.resolve root fun _ => none)) = .ok updater)
    {node : ModelNode X} (isRoot : updater.treeRoot = some node) :
    ∃ root, config.treeRoot = some root ∧
      ModelNode.resolve root (fun _ => none) = .ok node := by
  cases config with
  | updateTree root =>
    obtain ⟨tree, treeEq, built⟩ := bind_eq_ok_iff.mp built
    rw [← Except.ok.inj built] at isRoot
    rw [Builder.alone_lift] at treeEq
    exact ⟨root, rfl, Option.some.inj isRoot ▸ treeEq⟩
  | notSet => contradiction
  | _ config =>
    obtain ⟨impl, -, built⟩ := bind_eq_ok_iff.mp built
    rw [← Except.ok.inj built] at isRoot
    contradiction

/-- The updaters of an action have expected faults only when its trees do. -/
theorem expected_updaters_of_buildAction {action : Action X (CompiledNode X)}
    {updaters : List (AttributesUpdaterInterface X (ModelNode X))}
    {multiplicity : Option (MultiplicityImpl X)}
    (built : buildAction (resolveAction action) = .ok (updaters, multiplicity))
    (trees : ∀ root ∈ action.trees, ∀ node,
      ModelNode.resolve root (fun _ => none) = .ok node → node.Safe) :
    ∀ updater ∈ updaters, ∀ event,
      FaultsIn Expected (ModelNode.updateEvent updater event) := by
  cases action with
  | updates updates =>
    obtain ⟨_, mapped, built⟩ := bind_eq_ok_iff.mp built
    obtain ⟨rfl, -⟩ := Prod.mk.inj (Except.ok.inj built)
    intro updater member event
    obtain ⟨_, inMap, updaterBuilt⟩ := exists_mem_of_mem_mapM mapped member
    obtain ⟨config, inUpdates, rfl⟩ := List.mem_map.mp inMap
    refine AttributesUpdaterInterface.expected_updateEvent updaterBuilt
      (fun node isRoot => ?_) event
    obtain ⟨root, rootEq, resolved⟩ := exists_of_treeRoot updaterBuilt isRoot
    exact trees root (List.mem_filterMap.mpr ⟨config, inUpdates, rootEq⟩) node
      resolved
  | multiplicity config =>
    obtain ⟨_, -, built⟩ := bind_eq_ok_iff.mp built
    obtain ⟨rfl, -⟩ := Prod.mk.inj (Except.ok.inj built)
    exact nofun
  | notSet =>
    obtain ⟨rfl, -⟩ := Prod.mk.inj (Except.ok.inj built)
    exact nofun

/-- A branch whose parts have expected faults only has no others. -/
theorem expected_walk {action : Action X (Builder X)}
    (selection : buildSelection selections = .ok (impl.hashing, impl.matcher))
    (sameLength : impl.childNodes.length = selections.length)
    (actionBuilt : buildAction action = .ok (impl.updaters, impl.multiplicity))
    (updaters : ∀ updater ∈ impl.updaters, ∀ event,
      FaultsIn Expected (ModelNode.updateEvent updater event))
    (children : ∀ child ∈ impl.childNodes, child.Safe) (event : X.Event) :
    FaultsIn Expected (impl.walk ModelNode.updateEvent
      (fun child => applyToCopy child.apply) (List.foldl foldBack) event) := by
  have walkChild (event : X.Event) : FaultsIn Expected
      (impl.walkChild (fun child => applyToCopy child.apply) event) :=
    .bind_of_ok (expected_selectChild selection sameLength event)
      fun child selected => children child (mem_of_selectChild selected) event
  refine .bind ?_ fun dispatched => ?_
  · unfold dispatch
    split
    · rename_i multiplicity multiplicityEq
      rw [multiplicityEq] at actionBuilt
      rw [updaters_eq_nil_of_buildAction actionBuilt]
      refine .bind (multiplicity.expected_computeEventMultiplicity event)
        fun cloneCount => ?_
      split_ifs
      · exact .ok _
      · exact .ok _
    · exact .bind (.foldlM_of_mem (fun updater member event =>
        updaters updater member event) event) fun _ => .ok _
  · cases dispatched with
    | onward next => exact walkChild next
    | clones clones =>
      exact .bind (.mapM fun clone _ => walkChild clone) fun _ => .ok _

end BranchNodeImpl

/-! ## Built nodes -/

namespace ModelNode

/-- The nodes that `ModelNode::Build` makes, with built nodes to refer to. -/
inductive IsBuilt : ModelNode X → Prop
  | build {config : CompiledNode X} {nodeRefs rest : NodeRefs X}
      {node : ModelNode X}
      (refs : ∀ index child, nodeRefs.lookup index = some child → IsBuilt child)
      (built : build config nodeRefs = .ok node rest) : IsBuilt node

/-- A resolved branch is safe if what it may refer to or contain is. -/
theorem safe_of_resolveBranch {branch : Branch X (CompiledNode X)}
    {env : NodeEnv X} {node : ModelNode X}
    (resolved : resolveBranch env branch = .ok node)
    (refs : ∀ index child, env index = some child → child.Safe)
    (inline : ∀ child, branch.childNode = .node child →
      resolve child env = .ok node → node.Safe) : node.Safe := by
  obtain ⟨childNode, selectBy⟩ := branch
  cases childNode with
  | nodeIndex index =>
    simp only [resolveBranch, ChildNode.map, resolveChild] at resolved
    split at resolved
    · rename_i child found
      rw [← Except.ok.inj resolved]
      exact refs index child found
    · contradiction
  | node child => exact inline child rfl resolved
  | notSet => contradiction

/-- A node has expected faults only when the nodes it refers to do. -/
theorem safe_of_resolve {config : CompiledNode X} {env : NodeEnv X}
    {node : ModelNode X} (resolved : resolve config env = .ok node)
    (refs : ∀ index child, env index = some child → child.Safe) :
    node.Safe := by
  induction config using CompiledNode.induction generalizing env node with
  | step index type inductionHypothesis =>
    cases type with
    | branchNode config =>
      obtain ⟨-, childNodes, impl, children, assembled, rfl⟩ :=
        resolve_branchNode_eq_ok_iff.mp resolved
      obtain ⟨selection, actionBuilt, rfl, -⟩ :=
        BranchNodeImpl.assemble_eq_ok_iff.mp assembled
      intro event
      rw [applyToCopy_branchNode]
      refine BranchNodeImpl.expected_walk selection ?_ actionBuilt ?_ ?_ event
      · rw [List.length_map, (mapM_eq_ok_iff.mp children).length_eq]
      · refine BranchNodeImpl.expected_updaters_of_buildAction actionBuilt ?_
        intro root member node rootResolved
        exact inductionHypothesis root (List.mem_append_right _ member)
          rootResolved nofun
      · intro child member
        obtain ⟨branch, inBranches, childResolved⟩ :=
          exists_mem_of_mem_mapM children member
        refine safe_of_resolveBranch childResolved refs ?_
        intro inline isInline inlineResolved
        exact forall_branches (P := fun inline => ∀ {env : NodeEnv X}
            {node : ModelNode X}, resolve inline env = .ok node →
              (∀ index child, env index = some child → child.Safe) → node.Safe)
          inductionHypothesis branch inBranches inline isInline inlineResolved
          refs
    | stopNode =>
      obtain rfl := Except.ok.inj resolved
      intro event
      rw [apply_leafNode]
      exact LeafNode.IsBuilt.stopNode.expected_apply event
    | populationNode config =>
      obtain ⟨leaf, built, same⟩ := bind_eq_ok_iff.mp resolved
      obtain rfl := Except.ok.inj same
      intro event
      rw [apply_leafNode]
      exact (LeafNode.IsBuilt.populationNode built).expected_apply event
    | rankedPopulationNode config =>
      obtain ⟨leaf, -, same⟩ := bind_eq_ok_iff.mp resolved
      obtain rfl := Except.ok.inj same
      intro event
      rw [apply_leafNode]
      exact (LeafNode.IsBuilt.rankedPopulationNode leaf).expected_apply event
    | notSet => contradiction

/-- Every built node is safe. -/
theorem IsBuilt.safe {node : ModelNode X} (isBuilt : node.IsBuilt) :
    node.Safe := by
  induction isBuilt with
  | build _ built refsSafe =>
    obtain ⟨-, resolved, -⟩ := (buildsByLookup _ _ _ _).mp built
    exact safe_of_resolve resolved refsSafe

/-- The application of a built node to any event neither reads past an end nor
returns an internal error. -/
theorem apply_never_internal {node : ModelNode X} (isBuilt : node.IsBuilt)
    {event final : X.Event} {fault : Fault}
    (failed : node.apply event = .error fault final) :
    fault ≠ .outOfBounds ∧
      ∀ status, fault = .status status → status.code ≠ .internal := by
  exact isBuilt.safe event fault (applyToCopy_of_error failed)

/-- A branch over a ranked leaf that leaves no space for an event without a
rank. -/
theorem apply_never_internal_branch :
    ∃ (node : ModelNode .constant) (fault : Fault) (final : _), node.IsBuilt ∧
      node.apply Externals.constant.emptyEvent = .error fault final ∧
      fault ≠ .outOfBounds ∧
        ∀ status, fault = .status status → status.code ≠ .internal := by
  obtain ⟨node, rest, built, fault, final, failed⟩ : ∃ node rest,
      build (X := .constant) (.mk none (.branchNode ⟨[⟨.node (.mk none
        (.rankedPopulationNode ⟨[⟨7, 1⟩], "seed", 1, .disjoint⟩)),
          .chance 1.0⟩], "seed", .notSet⟩)) ∅ = .ok node rest ∧
      ∃ fault final, node.apply Externals.constant.emptyEvent =
        .error fault final := ⟨_, _, rfl, _, _, rfl⟩
  have isBuilt : node.IsBuilt := .build (by simp) built
  exact ⟨node, fault, final, isBuilt, failed,
    apply_never_internal isBuilt failed⟩

end ModelNode

end VirtualPeople.Cc
