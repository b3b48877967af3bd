import VirtualPeople.Cc.AttributesUpdater
import VirtualPeople.ModelChecks

/-!
# Updates by a built matrix

What a built updater does with an event is said by its configuration: the first
column that the event goes to, the hashing of that column, and the rows that are
merged.
-/

namespace VirtualPeople.Cc

variable {X : Externals}

/-! ## The column of an event -/

/-- The column has the hash of the event, or its filter matches the event. -/
def goesTo (hashFieldMask : Option (List String)) (event column : X.Event) :
    Bool :=
  match hashFieldMask with
  | some hashFieldMask =>
    hashLabelerEvent X column hashFieldMask =
      hashLabelerEvent X event hashFieldMask
  | none =>
    match X.newFieldFilterFromEvent column with
    | .ok filter => X.isMatch filter event
    | .error _ => false

/-- The first column that the event goes to. -/
def columnOf (columns : List X.Event) (hashFieldMask : Option (List String))
    (event : X.Event) : Option ℕ :=
  columns.findIdx? (goesTo hashFieldMask event)

/-- The first filter of the columns that matches is that of the column of the
event. -/
theorem findIdx?_isMatch {columns : List X.Event} {filters : List X.FieldFilter}
    (built : columns.mapM X.newFieldFilterFromEvent = .ok filters)
    (event : X.Event) :
    filters.findIdx? (X.isMatch · event) = columnOf columns none event := by
  rw [mapM_eq_ok_iff] at built
  unfold columnOf
  induction built with
  | nil => rfl
  | cons found _ inductionHypothesis =>
    rw [List.findIdx?_cons, List.findIdx?_cons, inductionHypothesis]
    simp only [goesTo, found]

/-- The matchers find the column of the event. -/
theorem MatrixMatchers.columnIndex_eq {columns : List X.Event}
    {hashFieldMask : Option (List String)} {matchers : MatrixMatchers X}
    (built : build columns hashFieldMask = .ok matchers) (event : X.Event) :
    matchers.columnIndex event =
      .ok (matchingIndex (columnOf columns hashFieldMask event)) := by
  cases hashFieldMask with
  | some hashFieldMask =>
    obtain ⟨hashMatcher, matcherBuilt, built⟩ := bind_eq_ok_iff.mp built
    have spec := HashFieldMaskMatcher.build_spec columns hashFieldMask
    rw [matcherBuilt] at spec
    rw [← Except.ok.inj built]
    exact congrArg Except.ok (spec.2 event)
  | none =>
    obtain ⟨filters, filtersBuilt, built⟩ := bind_eq_ok_iff.mp built
    rw [← Except.ok.inj built, ← findIdx?_isMatch filtersBuilt]
    rfl

theorem natCast_ne_kNoMatchingIndex (columnIndex : ℕ) :
    (columnIndex : ℤ) ≠ kNoMatchingIndex := by
  unfold kNoMatchingIndex
  omega

/-- The seed that the row of an event is hashed with. -/
def rowSeed (randomSeed : String) (event : X.Event) : String :=
  randomSeed ++ toString (event.actingFingerprint.getD 0)

section Selection

variable {columns : List X.Event} {hashFieldMask : Option (List String)}
  {matchers : MatrixMatchers X} {event : X.Event}
  (built : MatrixMatchers.build columns hashFieldMask = .ok matchers)
  (rowHashings : List DistributedConsistentHashing) (randomSeed : String)
include built

/-- Without a column, no row is selected either. -/
theorem selectFromMatrix_of_none
    (noColumn : columnOf columns hashFieldMask event = none) :
    selectFromMatrix X matchers rowHashings randomSeed event =
      .ok ⟨kNoMatchingIndex, kNoMatchingIndex⟩ := by
  unfold selectFromMatrix
  rw [MatrixMatchers.columnIndex_eq built, noColumn]
  rfl

/-- The row is hashed among those of the column. -/
theorem selectFromMatrix_of_some {columnIndex : ℕ}
    {rowHashing : DistributedConsistentHashing}
    (found : columnOf columns hashFieldMask event = some columnIndex)
    (hashingAt : rowHashings[columnIndex]? = some rowHashing) :
    selectFromMatrix X matchers rowHashings randomSeed event =
      .ok ⟨columnIndex, rowHashing.hash X (rowSeed randomSeed event)⟩ := by
  have inside := (List.getElem?_eq_some_iff.mp hashingAt).1
  unfold selectFromMatrix
  rw [MatrixMatchers.columnIndex_eq built, found, matchingIndex_some]
  simp only [bind, Except.bind]
  rw [if_neg (natCast_ne_kNoMatchingIndex columnIndex), if_neg (by omega),
    elementAt_eq_ok_iff.mpr hashingAt]
  rfl

end Selection

/-! ## Updates -/

/-- The outcome for an event that no column takes. -/
def updateWithoutColumn (passThroughNonMatches : Bool) (event : X.Event) :
    Result X.Event :=
  if passThroughNonMatches then return event
  else throw (invalidArgument "No column matching for event: ")

namespace UpdateMatrixImpl

variable {config : UpdateMatrix X} {updater : UpdateMatrixImpl X}
  {event : X.Event}

/-- The parts that an updater is built from. -/
theorem parts_of_build (built : build config = .ok updater) :
    ∃ matchers rowHashings,
      MatrixMatchers.build config.columns config.hashFieldMask = .ok matchers ∧
      ((List.range config.columns.length).mapM fun columnIndex =>
        columnDistribution config columnIndex >>=
          DistributedConsistentHashing.build) = .ok rowHashings ∧
      updater = ⟨matchers, rowHashings, config.randomSeed, config.rows,
        config.passThroughNonMatches⟩ := by
  unfold build at built
  simp only at built
  split_ifs at built
  obtain ⟨matchers, matchersBuilt, built⟩ := bind_eq_ok_iff.mp built
  obtain ⟨rowHashings, hashingsBuilt, built⟩ := bind_eq_ok_iff.mp built
  exact ⟨matchers, rowHashings, matchersBuilt, hashingsBuilt,
    (Except.ok.inj built).symm⟩

/-- A matrix without a column for the event passes it through or fails. -/
theorem update_of_none (built : build config = .ok updater)
    (noColumn :
      columnOf config.columns config.hashFieldMask event = none) :
    updater.update event =
      updateWithoutColumn config.passThroughNonMatches event := by
  obtain ⟨matchers, rowHashings, matchersBuilt, -, rfl⟩ := parts_of_build built
  unfold update
  rw [selectFromMatrix_of_none matchersBuilt _ _ noColumn]
  rfl

/-- A matrix with a column for the event merges the row it hashes to. -/
theorem update_of_some (built : build config = .ok updater) {columnIndex : ℕ}
    (found :
      columnOf config.columns config.hashFieldMask event = some columnIndex) :
    ∃ distribution rowHashing,
      columnDistribution config columnIndex = .ok distribution ∧
      DistributedConsistentHashing.build distribution = .ok rowHashing ∧
      updater.update event = mergeRow X config.rows
        (rowHashing.hash X (rowSeed config.randomSeed event)) event := by
  obtain ⟨matchers, rowHashings, matchersBuilt, hashingsBuilt, rfl⟩ :=
    parts_of_build built
  have columnMem : columnIndex < config.columns.length :=
    (List.findIdx?_eq_some_iff_getElem.mp found).1
  have inside : columnIndex < rowHashings.length := by
    rwa [← (mapM_eq_ok_iff.mp hashingsBuilt).length_eq, List.length_range]
  have hashingAt := List.getElem?_eq_getElem inside
  obtain ⟨input, inputAt, hashingEq⟩ :=
    getElem?_of_mapM hashingsBuilt hashingAt
  rw [List.getElem?_range columnMem, Option.some_inj] at inputAt
  subst inputAt
  obtain ⟨distribution, distributionEq, hashingBuilt⟩ :=
    bind_eq_ok_iff.mp hashingEq
  refine ⟨distribution, _, distributionEq, hashingBuilt, ?_⟩
  unfold update
  rw [selectFromMatrix_of_some matchersBuilt _ _ found hashingAt]
  simp only [bind, Except.bind]
  rw [if_neg (natCast_ne_kNoMatchingIndex columnIndex)]

end UpdateMatrixImpl

namespace SparseUpdateMatrixImpl

variable {config : SparseUpdateMatrix X} {updater : SparseUpdateMatrixImpl X}
  {event : X.Event}

/-- What the builder has checked and built. -/
theorem parts_of_build (built : build config = .ok updater) :
    config.columns.forM checkColumn = .ok () ∧
      ∃ matchers rowHashings,
        MatrixMatchers.build config.attrs config.hashFieldMask = .ok matchers ∧
        config.columns.mapM buildRowsHashing = .ok rowHashings ∧
        updater = ⟨matchers, rowHashings, config.randomSeed,
          config.columns.map (·.rows), config.passThroughNonMatches⟩ := by
  unfold build at built
  split_ifs at built
  obtain ⟨_, checked, built⟩ := bind_eq_ok_iff.mp built
  obtain ⟨matchers, matchersBuilt, built⟩ := bind_eq_ok_iff.mp built
  obtain ⟨rowHashings, hashingsBuilt, built⟩ := bind_eq_ok_iff.mp built
  exact ⟨checked, matchers, rowHashings, matchersBuilt, hashingsBuilt,
    (Except.ok.inj built).symm⟩

/-- A checked column has a probability for each row. -/
theorem aligned_of_build (built : build config = .ok updater)
    {column : SparseUpdateMatrixColumn X} (member : column ∈ config.columns) :
    column.rows.length = column.probabilities.length := by
  obtain ⟨checked, -⟩ := parts_of_build built
  have columnChecked := forM_eq_ok_iff.mp checked column member
  unfold checkColumn at columnChecked
  split_ifs at columnChecked with _ _ different
  exact not_not.mp different

/-- A sparse matrix without a column for the event passes it through or fails. -/
theorem update_of_none (built : build config = .ok updater)
    (noColumn : columnOf config.attrs config.hashFieldMask event = none) :
    updater.update event =
      updateWithoutColumn config.passThroughNonMatches event := by
  obtain ⟨-, matchers, rowHashings, matchersBuilt, -, rfl⟩ :=
    parts_of_build built
  unfold update
  rw [selectFromMatrix_of_none matchersBuilt _ _ noColumn]
  rfl

/-- A sparse matrix with a column for the event merges the row it hashes to. -/
theorem update_of_some (built : build config = .ok updater) {columnIndex : ℕ}
    (found :
      columnOf config.attrs config.hashFieldMask event = some columnIndex) :
    ∃ column rowHashing, config.columns[columnIndex]? = some column ∧
      buildRowsHashing column = .ok rowHashing ∧
      updater.update event = mergeRow X column.rows
        (rowHashing.hash X (rowSeed config.randomSeed event)) event := by
  obtain ⟨-, matchers, rowHashings, matchersBuilt, hashingsBuilt, rfl⟩ :=
    parts_of_build built
  have attrsMem : columnIndex < config.attrs.length :=
    (List.findIdx?_eq_some_iff_getElem.mp found).1
  have columnMem : columnIndex < config.columns.length := by
    rwa [SparseUpdateMatrix.attrs, List.length_map] at attrsMem
  have inside : columnIndex < rowHashings.length := by
    rwa [← (mapM_eq_ok_iff.mp hashingsBuilt).length_eq]
  have hashingAt := List.getElem?_eq_getElem inside
  obtain ⟨column, columnAt, hashingBuilt⟩ :=
    getElem?_of_mapM hashingsBuilt hashingAt
  refine ⟨column, _, columnAt, hashingBuilt, ?_⟩
  have rowsAt : (config.columns.map (·.rows))[columnIndex]? =
      some column.rows := by
    rw [List.getElem?_map, columnAt]
    rfl
  unfold update
  rw [selectFromMatrix_of_some matchersBuilt _ _ found hashingAt]
  simp only [bind, Except.bind, List.length_map]
  rw [if_neg (natCast_ne_kNoMatchingIndex columnIndex), if_neg (by omega),
    elementAt_eq_ok_iff.mpr rowsAt]

end SparseUpdateMatrixImpl

end VirtualPeople.Cc
