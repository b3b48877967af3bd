import VirtualPeople.Cc.Labeler
import VirtualPeople.ModelChecks

/-!
# Which models the C++ builders accept

Part by part, a builder succeeds exactly when its configuration meets the shared
conditions and those that only C++ checks: the masked columns of a matrix differ
in their binary hashes, a population node stays below the reserved range and has
a person, and a ranked pool fits into 32 bits.
-/

namespace VirtualPeople.Cc

open Binary64

variable {X : Externals}

/-! ## Distributions and selections -/

namespace DistributedConsistentHashing

/-- The sum is built when no probability is negative. -/
theorem sumProbabilities_foldlM (distribution : List DistributionChoice)
    (start sum : Float) :
    distribution.foldlM
        (fun probabilitiesSum choice =>
          if choice.probability < 0.0 then
            throw (invalidArgument "Negative probability is provided.")
          else pure (probabilitiesSum + choice.probability))
        start = (.ok sum : Result Float) ↔
      (∀ choice ∈ distribution, ¬choice.probability < 0.0) ∧
        (distribution.map (·.probability)).foldl (· + ·) start = sum := by
  induction distribution generalizing start with
  | nil => simp [pure, Except.pure]
  | cons choice distribution inductionHypothesis =>
    rw [List.foldlM_cons, List.forall_mem_cons]
    split_ifs with negative
    · exact iff_of_false nofun fun both => both.1.1 negative
    · rw [and_assoc]
      exact (inductionHypothesis _).trans (and_iff_right negative).symm

/-- A distribution is built when it can be normalized. -/
theorem succeeds_build_iff (distribution : List DistributionChoice) :
    Succeeds (build distribution) ↔
      Normalizable (distribution.map (·.probability)) := by
  unfold build Normalizable
  rw [succeeds_ite_throw, List.isEmpty_iff, ne_eq, List.map_eq_nil_iff,
    List.forall_mem_map]
  refine and_congr_right fun _ => ?_
  rw [succeeds_bind_iff_exists]
  unfold sumProbabilities
  simp only [sumProbabilities_foldlM, succeeds_ite_throw, succeeds_pure,
    and_true, not_or, and_assoc, exists_and_left, exists_eq_left']
  rfl

/-- The choices have the given probabilities. -/
@[simp] theorem map_probability_enumerateChoices (probabilities : List Float) :
    (enumerateChoices probabilities).map (·.probability) = probabilities := by
  apply List.ext_getElem
  · simp [enumerateChoices]
  · simp [enumerateChoices]

/-- The distribution over positions is built when it can be normalized. -/
theorem succeeds_build_enumerateChoices (probabilities : List Float) :
    Succeeds (build (enumerateChoices probabilities)) ↔
      Normalizable probabilities := by
  rw [succeeds_build_iff, map_probability_enumerateChoices]

end DistributedConsistentHashing

/-! ## Selections -/

/-- All selections are by chance when they are those of a list of chances. -/
theorem forall_chance_iff {selections : List (SelectBy X)} :
    (∀ selection ∈ selections, selection.selectByCase = .chance) ↔
      ∃ chances : List Float, selections = chances.map .chance := by
  constructor
  · intro allChance
    refine ⟨selections.map SelectBy.chanceValue, ?_⟩
    rw [List.map_map]
    refine (List.map_id' _).symm.trans (List.map_congr_left ?_)
    intro selection member
    have isChance := allChance selection member
    cases selection with
    | chance value => rfl
    | _ => contradiction
  · rintro ⟨chances, rfl⟩
    simp [SelectBy.selectByCase]

/-- All selections are by condition when they are those of a list of filters. -/
theorem forall_condition_iff {selections : List (SelectBy X)} :
    (∀ selection ∈ selections, selection.selectByCase = .condition) ↔
      ∃ filters : List X.FieldFilterProto,
        selections = filters.map .condition := by
  induction selections with
  | nil => exact iff_of_true nofun ⟨[], rfl⟩
  | cons selection selections inductionHypothesis =>
    rw [List.forall_mem_cons, inductionHypothesis]
    constructor
    · rintro ⟨isCondition, filters, rfl⟩
      cases selection with
      | condition filter => exact ⟨filter :: filters, rfl⟩
      | _ => contradiction
    · rintro ⟨filters, same⟩
      cases filters with
      | nil => contradiction
      | cons filter filters =>
        obtain ⟨rfl, rfl⟩ := List.cons.inj same
        exact ⟨rfl, filters, rfl⟩

@[simp] theorem map_chanceValue (chances : List Float) :
    (chances.map (SelectBy.chance (X := X))).map SelectBy.chanceValue = chances := by
  rw [List.map_map]
  exact List.map_id' chances

@[simp] theorem filterMap_conditionFilter (filters : List X.FieldFilterProto) :
    (filters.map SelectBy.condition).filterMap SelectBy.conditionFilter =
      filters := by
  rw [List.filterMap_map]
  exact List.filterMap_some

/-- A matcher is built from a list of filters that can all be built. -/
theorem FieldFiltersMatcher.succeeds_build_iff
    (filters : List X.FieldFilterProto) :
    Succeeds (FieldFiltersMatcher.build filters) ↔
      filters ≠ [] ∧ ∀ filter ∈ filters, FilterBuilds X filter := by
  unfold FieldFiltersMatcher.build
  rw [succeeds_ite_throw, List.isEmpty_iff, succeeds_bind_pure,
    succeeds_mapM_iff]
  rfl

/-- The check that all branches follow the first one. -/
theorem not_any_selectByCase_iff {selections : List (SelectBy X)}
    {selectByCase : SelectByCase} :
    ¬(selections.any fun selection =>
        selection.selectByCase ≠ selectByCase) = true ↔
      ∀ selection ∈ selections, selection.selectByCase = selectByCase := by
  simp

/-- The selection is built when its branches can be selected. -/
theorem succeeds_buildSelection_iff (selections : List (SelectBy X)) :
    Succeeds (buildSelection selections) ↔ SelectionsPass X selections := by
  unfold buildSelection SelectionsPass
  rw [succeeds_ite_throw, not_any_selectByCase_iff]
  cases selections with
  | nil =>
    refine iff_of_false (fun both => not_succeeds_throw _ both.2) ?_
    rintro (⟨chances, same, normalizable⟩ | ⟨filters, same, nonempty, -⟩)
    · exact normalizable.1 (List.map_eq_nil_iff.mp same.symm)
    · exact nonempty (List.map_eq_nil_iff.mp same.symm)
  | cons first rest =>
    cases first with
    | chance value =>
      change (∀ selection ∈ SelectBy.chance value :: rest,
          selection.selectByCase = SelectByCase.chance) ∧
        Succeeds (buildHashing (.chance value :: rest) >>= fun hashing =>
          pure (some hashing, none)) ↔ _
      rw [forall_chance_iff, succeeds_bind_pure, buildHashing,
        DistributedConsistentHashing.succeeds_build_enumerateChoices]
      constructor
      · rintro ⟨⟨chances, same⟩, normalizable⟩
        rw [same, map_chanceValue] at normalizable
        exact Or.inl ⟨chances, same, normalizable⟩
      · rintro (⟨chances, same, normalizable⟩ | ⟨filters, same, -⟩)
        · exact ⟨⟨chances, same⟩, by rwa [same, map_chanceValue]⟩
        · exact nomatch forall_condition_iff.mpr ⟨filters, same⟩ _
            List.mem_cons_self
    | condition filter =>
      change (∀ selection ∈ SelectBy.condition filter :: rest,
          selection.selectByCase = SelectByCase.condition) ∧
        Succeeds (buildMatcher (.condition filter :: rest) >>= fun matcher =>
          pure (none, some matcher)) ↔ _
      rw [forall_condition_iff, succeeds_bind_pure, buildMatcher,
        FieldFiltersMatcher.succeeds_build_iff]
      constructor
      · rintro ⟨⟨filters, same⟩, build⟩
        rw [same, filterMap_conditionFilter] at build
        exact Or.inr ⟨filters, same, build⟩
      · rintro (⟨chances, same, -⟩ | ⟨filters, same, build⟩)
        · exact nomatch forall_chance_iff.mpr ⟨chances, same⟩ _
            List.mem_cons_self
        · exact ⟨⟨filters, same⟩, by rwa [same, filterMap_conditionFilter]⟩
    | notSet =>
      refine iff_of_false (fun both => not_succeeds_throw _ both.2) ?_
      rintro (⟨chances, same, -⟩ | ⟨filters, same, -⟩)
      · exact nomatch forall_chance_iff.mpr ⟨chances, same⟩ _
            List.mem_cons_self
      · exact nomatch forall_condition_iff.mpr ⟨filters, same⟩ _
            List.mem_cons_self

/-! ## Matrices -/

/-- The conditions on the columns of a matrix, hash by hash. -/
theorem MatrixMatchers.succeeds_build_iff {columns : List X.Event}
    (nonempty : columns ≠ []) (hashFieldMask : Option (List String)) :
    Succeeds (MatrixMatchers.build columns hashFieldMask) ↔
      ColumnsPass X columns hashFieldMask ∧
        ColumnsDiffer X (hashLabelerEvent X) columns hashFieldMask := by
  cases hashFieldMask with
  | none =>
    change Succeeds (columns.mapM _ >>= fun filters => pure _) ↔ _ ∧ True
    rw [succeeds_bind_pure, succeeds_mapM_iff, and_true]
    rfl
  | some mask =>
    change Succeeds (HashFieldMaskMatcher.build X columns mask >>= fun matcher =>
      pure _) ↔ mask ≠ [] ∧ (columns.map (hashLabelerEvent X · mask)).Nodup
    rw [succeeds_bind_pure]
    have spec := HashFieldMaskMatcher.build_spec columns mask
    cases built : HashFieldMaskMatcher.build X columns mask with
    | ok matcher =>
      rw [built] at spec
      exact iff_of_true ⟨_, rfl⟩ spec.1.2
    | error fault =>
      rw [built] at spec
      exact iff_of_false nofun fun both => spec ⟨nonempty, both⟩

/-- The choices of a column exist when its probabilities do. -/
theorem exists_mapM_choices {lookup : ℕ → Result Float32} {rows : List ℕ}
    {P : List Float → Prop} :
    (∃ distribution, (rows.mapM fun rowIndex => do
        let probability ← lookup rowIndex
        return (⟨rowIndex, ofFloat32 probability⟩ : DistributionChoice)) =
          .ok distribution ∧ P (distribution.map (·.probability))) ↔
      ∃ probabilities,
        List.Forall₂ (fun rowIndex probability =>
          lookup rowIndex = .ok probability) rows probabilities ∧
        P (probabilities.map ofFloat32) := by
  simp only [mapM_eq_ok_iff, bind_eq_ok_iff]
  constructor
  · rintro ⟨distribution, related, holds⟩
    induction related generalizing P with
    | nil => exact ⟨[], .nil, holds⟩
    | cons head rest inductionHypothesis =>
      obtain ⟨probability, found, same⟩ := head
      rw [List.map_cons, ← Except.ok.inj same] at holds
      obtain ⟨probabilities, restFound, restHolds⟩ := @inductionHypothesis
        (fun rest => P (ofFloat32 probability :: rest)) holds
      exact ⟨probability :: probabilities, .cons found restFound, restHolds⟩
  · rintro ⟨probabilities, related, holds⟩
    induction related generalizing P with
    | nil => exact ⟨[], .nil, holds⟩
    | @cons rowIndex probability _ _ found rest inductionHypothesis =>
      obtain ⟨distribution, restFound, restHolds⟩ := @inductionHypothesis
        (fun rest => P (ofFloat32 probability :: rest)) holds
      exact ⟨⟨rowIndex, ofFloat32 probability⟩ :: distribution,
        .cons ⟨probability, found, rfl⟩ restFound, restHolds⟩

namespace UpdateMatrixImpl

/-- A column is read when the matrix has it, with its probabilities. -/
theorem exists_columnDistribution_iff {config : UpdateMatrix X}
    {columnIndex : ℕ} {P : List Float → Prop} :
    (∃ distribution, columnDistribution config columnIndex = .ok distribution ∧
        P (distribution.map (·.probability))) ↔
      ∃ probabilities, config.IsColumn columnIndex probabilities ∧
        P (probabilities.map ofFloat32) := by
  refine exists_mapM_choices.trans ?_
  simp only [elementAt_eq_ok_iff]
  rfl

/-- A matrix is built when it passes and its columns have different
fingerprints. -/
theorem succeeds_build_iff (config : UpdateMatrix X) :
    Succeeds (build config) ↔ config.Passes ∧
      ColumnsDiffer X (hashLabelerEvent X) config.columns
        config.hashFieldMask := by
  unfold build UpdateMatrix.Passes
  simp only [succeeds_ite_throw, List.length_eq_zero_iff, ne_eq, not_not]
  by_cases nonempty : config.columns = []
  · simp [nonempty]
  · rw [succeeds_bind_iff fun matchers _ => succeeds_bind_pure,
      MatrixMatchers.succeeds_build_iff nonempty, succeeds_mapM_iff]
    simp only [succeeds_bind_iff_exists, List.mem_range,
      DistributedConsistentHashing.succeeds_build_iff,
      exists_columnDistribution_iff]
    tauto

end UpdateMatrixImpl

namespace SparseUpdateMatrixImpl

/-- The checks of a column and its distribution succeed when the column passes. -/
theorem succeeds_column_iff (column : SparseUpdateMatrixColumn X) :
    Succeeds (checkColumn column) ∧ Succeeds (buildRowsHashing column) ↔
      column.Passes := by
  unfold checkColumn buildRowsHashing SparseUpdateMatrixColumn.Passes
  rw [DistributedConsistentHashing.succeeds_build_enumerateChoices]
  simp only [succeeds_ite_throw, succeeds_pure, List.length_eq_zero_iff,
    not_not, and_true, ne_eq, Option.isNone_iff_eq_none,
    Option.isSome_iff_ne_none, and_assoc]

/-- A sparse matrix is built when it passes and its columns have different
fingerprints. -/
theorem succeeds_build_iff (config : SparseUpdateMatrix X) :
    Succeeds (build config) ↔ config.Passes ∧
      ColumnsDiffer X (hashLabelerEvent X) config.attrs
        config.hashFieldMask := by
  unfold build SparseUpdateMatrix.Passes
  rw [succeeds_ite_throw, List.length_eq_zero_iff]
  by_cases nonempty : config.columns = []
  · simp [nonempty]
  · have attrsNonempty : config.attrs ≠ [] := by
      simpa [SparseUpdateMatrix.attrs] using nonempty
    rw [succeeds_bind_iff fun _ _ => succeeds_bind_iff fun _ _ =>
        succeeds_bind_pure,
      succeeds_forM_iff, succeeds_mapM_iff]
    change _ ∧ _ ∧ Succeeds (MatrixMatchers.build config.attrs _) ∧ _ ↔ _
    rw [MatrixMatchers.succeeds_build_iff attrsNonempty]
    simp only [← succeeds_column_iff, forall₂_and]
    tauto

end SparseUpdateMatrixImpl

/-! ## The other updaters -/

namespace ConditionalMergeImpl

/-- A node of a merge is built when it passes. -/
theorem succeeds_buildNode_iff (node : ConditionalMergeNode X) :
    Succeeds (buildNode node) ↔ node.Passes := by
  obtain ⟨condition, update⟩ := node
  unfold buildNode ConditionalMergeNode.Passes
  cases condition with
  | none => exact iff_of_false (not_succeeds_throw _) (by simp)
  | some condition =>
    cases update with
    | none => exact iff_of_false (not_succeeds_throw _) (by simp)
    | some update =>
      change Succeeds (X.newFieldFilter condition >>= fun filter =>
        pure (filter, update)) ↔ _
      rw [succeeds_bind_pure]
      simp [FilterBuilds]

/-- A merge is built when it passes. -/
theorem succeeds_build_iff (config : ConditionalMerge X) :
    Succeeds (build config) ↔ config.Passes := by
  unfold build ConditionalMerge.Passes
  rw [succeeds_ite_throw, List.length_eq_zero_iff, succeeds_bind_pure,
    succeeds_mapM_iff]
  simp only [succeeds_buildNode_iff]

end ConditionalMergeImpl

/-- The types with an assignment function. -/
theorem succeeds_getAssignmentFunction_iff (type : CppType) :
    Succeeds (getAssignmentFunction X type) ↔ type ∈ CppType.assignables := by
  cases type <;>
    simp [getAssignmentFunction, CppType.assignables, CppType.integers]

namespace ConditionalAssignmentImpl

/-- An assignment is built when it passes. -/
theorem succeeds_buildAssignment_iff (config : Assignment) :
    Succeeds (buildAssignment (X := X) config) ↔ config.Passes X := by
  obtain ⟨sourceField, targetField⟩ := config
  unfold buildAssignment Assignment.Passes NamesField
  cases sourceField with
  | none => exact iff_of_false (not_succeeds_throw _) (by simp)
  | some sourceField =>
    cases targetField with
    | none => exact iff_of_false (not_succeeds_throw _) (by simp)
    | some targetField =>
      simp only [succeeds_bind_iff_exists, succeeds_ite_throw, not_not,
        Option.some.injEq, List.mem_singleton]
      constructor
      · rintro ⟨source, sourceEq, target, targetEq, same, assign, found, -⟩
        exact ⟨_, _, _, rfl, rfl,
          (succeeds_getAssignmentFunction_iff (X := X) _).mp ⟨assign, found⟩,
          ⟨source, sourceEq, rfl⟩, target, targetEq, same.symm⟩
      · rintro ⟨_, _, type, rfl, rfl, assignable, ⟨source, sourceEq, rfl⟩,
          target, targetEq, same⟩
        obtain ⟨assign, found⟩ :=
          (succeeds_getAssignmentFunction_iff (X := X) _).mpr assignable
        exact ⟨source, sourceEq, target, targetEq, same.symm, assign, found,
          succeeds_pure _⟩

/-- A conditional assignment is built when it passes. -/
theorem succeeds_build_iff (config : ConditionalAssignment X) :
    Succeeds (build config) ↔ config.Passes := by
  unfold build ConditionalAssignment.Passes
  cases config.condition with
  | none => exact iff_of_false (not_succeeds_throw _) (by simp)
  | some condition =>
    simp only [succeeds_ite_throw, List.length_eq_zero_iff]
    rw [succeeds_bind_iff fun _ _ => succeeds_bind_pure, succeeds_mapM_iff]
    simp only [succeeds_buildAssignment_iff, Option.some.injEq,
      exists_eq_left', FilterBuilds]
    tauto

end ConditionalAssignmentImpl

/-- A field is looked up and its type checked. -/
theorem succeeds_field_iff {name : String} {types : List CppType}
    {next : X.FieldPath → Result β} {P : Prop}
    (nextIff : ∀ path, X.getFieldFromProto name = .ok path →
      (Succeeds (next path) ↔ (X.fieldType path).cppType ∈ types ∧ P)) :
    Succeeds (X.getFieldFromProto name >>= next) ↔
      NamesField X name types ∧ P := by
  rw [succeeds_bind_iff_exists]
  unfold NamesField
  constructor
  · rintro ⟨path, found, succeeds⟩
    have ⟨hasType, holds⟩ := (nextIff path found).mp succeeds
    exact ⟨⟨path, found, hasType⟩, holds⟩
  · rintro ⟨⟨path, found, hasType⟩, holds⟩
    exact ⟨path, found, (nextIff path found).mpr ⟨hasType, holds⟩⟩

namespace GeometricShredderImpl

/-- A shredder is built when it passes. -/
theorem succeeds_build_iff (config : GeometricShredder) :
    Succeeds (build (X := X) config) ↔ config.Passes X := by
  unfold build GeometricShredder.Passes
  rw [succeeds_ite_throw]
  refine and_congr_right fun _ => ?_
  refine succeeds_field_iff fun randomnessField _ => ?_
  rw [succeeds_ite_throw, List.mem_singleton, not_not]
  refine and_congr_right fun _ => ?_
  rw [← and_true (NamesField X config.targetField _)]
  refine succeeds_field_iff fun targetField _ => ?_
  rw [succeeds_ite_throw, List.mem_singleton, not_not]
  simp

end GeometricShredderImpl

/-! ## Multiplicity -/

/-- The types that an expectation can be read from. -/
theorem succeeds_getExtractMultiplicityFunction_iff (type : CppType) :
    Succeeds (getExtractMultiplicityFunction X type) ↔
      type ∈ CppType.numbers := by
  cases type <;>
    simp [getExtractMultiplicityFunction, CppType.numbers, CppType.integers]

/-- The integer types. -/
theorem isIntegerFieldType_iff (type : CppType) :
    isIntegerFieldType type = true ↔ type ∈ CppType.integers := by
  cases type <;> simp [isIntegerFieldType, CppType.integers]

namespace MultiplicityImpl

/-- An extractor is built when its expectation passes. -/
theorem succeeds_buildExtractor_iff (config : Multiplicity) :
    Succeeds (buildExtractor (X := X) config) ↔
      config.multiplicityRef.Passes X := by
  unfold buildExtractor
  cases config.multiplicityRef with
  | expectedMultiplicity value => exact iff_of_true (succeeds_pure _) trivial
  | expectedMultiplicityField field =>
    change _ ↔ NamesField X field CppType.numbers
    rw [← and_true (NamesField X field _)]
    refine succeeds_field_iff fun path _ => ?_
    rw [← succeeds_getExtractMultiplicityFunction_iff (X := X)]
    split
    · rename_i found
      simp [found]
    · rename_i found
      simp [found]
  | notSet => exact iff_of_false (not_succeeds_throw _) id

/-- The index field is found when its path names a field of an integer type. -/
theorem succeeds_buildPersonIndexField_iff (config : Multiplicity) :
    Succeeds (buildPersonIndexField (X := X) config) ↔
      ∃ field, config.personIndexField = some field ∧
        NamesField X field CppType.integers := by
  unfold buildPersonIndexField
  cases config.personIndexField with
  | none => exact iff_of_false (not_succeeds_throw _) (by simp)
  | some field =>
    simp only [Option.some.injEq, exists_eq_left']
    rw [← and_true (NamesField X field _)]
    refine succeeds_field_iff fun path _ => ?_
    rw [← isIntegerFieldType_iff]
    split_ifs with isInteger <;> simp [isInteger]

/-- A multiplicity is built when it passes. -/
theorem succeeds_build_iff (config : Multiplicity) :
    Succeeds (build (X := X) config) ↔ config.Passes X := by
  unfold build Multiplicity.Passes
  rw [succeeds_bind_iff fun _ _ => succeeds_bind_iff fun _ _ => ?_,
    succeeds_buildExtractor_iff, succeeds_buildPersonIndexField_iff]
  cases config.maxValue <;> cases config.capAtMax <;>
    cases config.randomSeed <;> simp

end MultiplicityImpl

/-! ## Leaves -/

/-- No pool reaches into the reserved range, unless it is the reserved pool. -/
def BelowReserved (pools : List VirtualPersonPool) : Prop :=
  pools = [⟨kCookieMonsterOffset, kCookieMonsterSize⟩] ∨
    ∀ pool ∈ pools,
      pool.populationOffset + pool.totalPopulation ≤ kCookieMonsterOffset

/-- The pools with the reserved ids are one pool. -/
theorem isCookieMonsterPool_iff (pools : List VirtualPersonPool) :
    isCookieMonsterPool pools = true ↔
      pools = [⟨kCookieMonsterOffset, kCookieMonsterSize⟩] := by
  unfold isCookieMonsterPool
  split
  · rename_i pool
    obtain ⟨offset, size⟩ := pool
    simp
  · rename_i notSingle
    exact iff_of_false nofun (notSingle _)

/-- The pools are valid when they end below the reserved ids. -/
theorem succeeds_isValidPools_iff (pools : List VirtualPersonPool) :
    Succeeds (isValidPools pools) ↔ BelowReserved pools := by
  unfold isValidPools BelowReserved
  rw [← isCookieMonsterPool_iff]
  split_ifs with isReserved
  · exact iff_of_true (succeeds_pure _) (Or.inl isReserved)
  · rw [succeeds_forM_iff, or_iff_right isReserved]
    refine forall₂_congr fun pool _ => ?_
    rw [succeeds_ite_throw, and_iff_left (succeeds_pure _), UInt64.not_lt]

/-- A selector is built when the 64-bit sum of the sizes is not zero. -/
theorem VirtualPersonSelector.succeeds_build_iff
    (pools : List VirtualPersonPool) :
    Succeeds (VirtualPersonSelector.build pools) ↔ populationSum pools ≠ 0 := by
  unfold VirtualPersonSelector.build
  simp only [totalPopulation_foldl_compilePool]
  rw [succeeds_ite_throw, and_iff_left (succeeds_pure _)]
  rfl

namespace PopulationNodeImpl

/-- A population node is built when its pools end below the reserved ids and
have people. -/
theorem succeeds_buildFromConfig_iff (config : PopulationNode) :
    Succeeds (buildFromConfig config) ↔ config.Passes ∧
      config.pools ≠ [⟨0, 0⟩] ∧ BelowReserved config.pools := by
  unfold buildFromConfig
  rw [succeeds_bind_iff fun _ _ => succeeds_bind_pure,
    succeeds_isValidPools_iff, VirtualPersonSelector.succeeds_build_iff]
  change _ ↔ (_ ∨ populationSum config.pools ≠ 0) ∧ _
  have : config.pools = [⟨0, 0⟩] → populationSum config.pools = 0 := by
    intro empty
    rw [empty]
    rfl
  tauto

end PopulationNodeImpl

namespace RankedPopulationNodeImpl

/-- A ranked node is built when it passes and its pool fits in 32 bits. -/
theorem succeeds_buildFromConfig_iff (config : RankedPopulationNode) :
    Succeeds (buildFromConfig config) ↔ config.Passes ∧
      ∀ pool ∈ config.pools, pool.totalPopulation ≤ int32Max := by
  unfold buildFromConfig RankedPopulationNode.Passes
  split
  · rename_i pool poolsEq
    rw [poolsEq]
    simp only [List.cons.injEq, and_true, exists_eq_left', List.mem_singleton,
      forall_eq, ← UInt64.not_lt]
    split_ifs <;> simp_all
  · rename_i pools notSingle
    refine iff_of_false (not_succeeds_throw _) ?_
    rintro ⟨⟨pool, same, -⟩, -⟩
    exact notSingle pool same

end RankedPopulationNodeImpl

/-! ## Trees -/

/-- The conditions that only the C++ builders check. -/
def ccOnly : PartChecks X where
  selections _ := True
  updateMatrix config :=
    ColumnsDiffer X (hashLabelerEvent X) config.columns config.hashFieldMask
  sparseUpdateMatrix config :=
    ColumnsDiffer X (hashLabelerEvent X) config.attrs config.hashFieldMask
  conditionalMerge _ := True
  conditionalAssignment _ := True
  geometricShredder _ := True
  multiplicity _ := True
  populationNode config :=
    config.pools ≠ [⟨0, 0⟩] ∧ BelowReserved config.pools
  rankedPopulationNode config :=
    ∀ pool ∈ config.pools,
      pool.totalPopulation ≤ RankedPopulationNodeImpl.int32Max

/-- The conditions that the C++ builders check. -/
def checks (X : Externals) : PartChecks X :=
  PartChecks.shared.both ccOnly

/-- The builder alone is its outcome from the empty map. -/
theorem Builder.alone_eq (build : Builder X) :
    build.alone = Step.outcome (build ∅) := by
  unfold Builder.alone
  cases build ∅ <;> rfl

/-- The node is built without nodes to refer to. -/
def Builder.Builds (build : Builder X) : Prop :=
  Succeeds build.alone

/-- Nothing can be referred to in the empty map. -/
@[simp] theorem appendChildNode_nodeIndex_empty (index : UInt32)
    (selectBy : SelectBy X) :
    appendChildNode ⟨.nodeIndex index, selectBy⟩ ∅ =
      .error (invalidArgument
        "The ModelNode object of the child node index is not provided.") ∅ :=
  rfl

/-- The empty map stays empty if inline children leave it so. -/
theorem keeps_appendChildNode {branch : Branch X (Builder X)}
    (inline : ∀ build, branch.childNode = .node build → Step.Keeps build ∅) :
    Step.Keeps (appendChildNode branch) ∅ := by
  obtain ⟨childNode, selectBy⟩ := branch
  cases childNode with
  | nodeIndex index =>
    intro node final run
    rw [appendChildNode_nodeIndex_empty] at run
    contradiction
  | node build => exact inline build rfl
  | notSet => exact .throw _ ∅

/-- A child is built when it is inline and builds. -/
theorem succeeds_appendChildNode_iff (branch : Branch X (Builder X)) :
    Succeeds (Step.outcome (appendChildNode branch ∅)) ↔
      (branch.childNode.map Builder.Builds).Holds := by
  obtain ⟨childNode, selectBy⟩ := branch
  cases childNode with
  | nodeIndex index =>
    rw [appendChildNode_nodeIndex_empty]
    exact iff_of_false nofun id
  | node build =>
    change Succeeds (Step.outcome (build ∅)) ↔ Succeeds build.alone
    rw [Builder.alone_eq]
  | notSet => exact iff_of_false nofun id

/-- An action is built when its parts pass and its update trees build. -/
theorem succeeds_buildAction_iff (action : Action X (Builder X)) :
    Succeeds (buildAction action) ↔
      (checks X).actionPasses (action.map Builder.Builds) := by
  cases action with
  | updates updates =>
    rw [PartChecks.actionPasses_updates]
    change Succeeds (updates.mapM AttributesUpdaterInterface.build >>=
      fun updaters => pure (updaters, none)) ↔ _
    rw [succeeds_bind_pure, succeeds_mapM_iff]
    refine forall₂_congr fun updater _ => ?_
    cases updater with
    | updateMatrix config =>
      exact succeeds_bind_pure.trans (UpdateMatrixImpl.succeeds_build_iff config)
    | sparseUpdateMatrix config =>
      exact succeeds_bind_pure.trans
        (SparseUpdateMatrixImpl.succeeds_build_iff config)
    | conditionalMerge config =>
      exact succeeds_bind_pure.trans
        ((ConditionalMergeImpl.succeeds_build_iff config).trans
          (and_true _).symm.to_iff)
    | conditionalAssignment config =>
      exact succeeds_bind_pure.trans
        ((ConditionalAssignmentImpl.succeeds_build_iff config).trans
          (and_true _).symm.to_iff)
    | geometricShredder config =>
      exact succeeds_bind_pure.trans
        ((GeometricShredderImpl.succeeds_build_iff config).trans
          (and_true _).symm.to_iff)
    | updateTree root => exact succeeds_bind_pure
    | notSet => exact iff_of_false (not_succeeds_throw _) id
  | multiplicity config =>
    exact succeeds_bind_pure.trans
      ((MultiplicityImpl.succeeds_build_iff config).trans
        (and_true _).symm.to_iff)
  | notSet => exact iff_of_true (succeeds_pure _) trivial

namespace BranchNodeImpl

variable {config : BranchNode X (Builder X)}

/-- A branch node leaves the empty map as it is if its children do. -/
theorem keeps_build (children : ∀ branch ∈ config.branches,
      Step.Keeps (appendChildNode branch) ∅) :
    Step.Keeps (build config) ∅ := by
  unfold build
  split_ifs
  · exact .throw _ ∅
  · exact (Step.Keeps.mapM children).bind fun _ => .lift _ ∅

/-- A node is assembled when its selection and its action are built. -/
theorem succeeds_assemble_iff {selections : List (SelectBy X)}
    {randomSeed : String} {action : Action X (Builder X)}
    (childNodes : List (ModelNode X)) :
    Succeeds (assemble selections randomSeed action childNodes) ↔
      Succeeds (buildSelection selections) ∧ Succeeds (buildAction action) :=
  succeeds_bind_iff fun _ _ => succeeds_bind_pure

/-- A branch node is built from the outcomes of its children. -/
theorem outcome_build (children : ∀ branch ∈ config.branches,
      Step.Keeps (appendChildNode branch) ∅) :
    Step.outcome (build config ∅) =
      if config.branches.length = 0 then
        throw (invalidArgument "BranchNode must have at least 1 branch.")
      else
        (config.branches.mapM
          fun branch => Step.outcome (appendChildNode branch ∅)) >>=
            assemble (config.branches.map (·.selectBy)) config.randomSeed
              config.action := by
  unfold build
  split_ifs
  · rfl
  · rw [Step.outcome_bind (.mapM children), Step.outcome_mapM children]
    simp only [Step.outcome_lift]

/-- A branch node is built when it passes over the nodes that build. -/
theorem succeeds_build_iff (children : ∀ branch ∈ config.branches,
      Step.Keeps (appendChildNode branch) ∅) :
    Succeeds (Step.outcome (build config ∅)) ↔
      (checks X).branchNodePasses (config.map Builder.Builds) := by
  rw [outcome_build children, succeeds_ite_throw, List.length_eq_zero_iff,
    succeeds_bind_iff fun childNodes _ => succeeds_assemble_iff childNodes,
    succeeds_mapM_iff, succeeds_buildSelection_iff, succeeds_buildAction_iff]
  unfold PartChecks.branchNodePasses
  simp only [BranchNode.map, ne_eq, List.map_eq_nil_iff, List.forall_mem_map,
    List.map_map]
  refine and_congr_right fun _ => and_congr (forall₂_congr fun branch _ =>
    succeeds_appendChildNode_iff branch) (and_congr_left fun _ => ?_)
  exact (and_true _).symm.to_iff

end BranchNodeImpl

/-- Inline children that leave no nodes behind. -/
theorem keeps_children {config : BranchNode X (CompiledNode X)}
    (inline : ∀ branch ∈ config.branches, ∀ child,
      branch.childNode = .node child →
        Step.Keeps (ModelNode.build child) ∅) :
    ∀ branch ∈ (config.map ModelNode.build).branches,
      Step.Keeps (appendChildNode branch) ∅ := by
  simp only [BranchNode.map, List.forall_mem_map]
  intro branch member
  refine keeps_appendChildNode fun build isInline => ?_
  cases childEq : branch.childNode with
  | node child =>
    simp only [Branch.map, childEq, ChildNode.map] at isInline
    rw [← ChildNode.node.inj isInline]
    exact inline branch member child childEq
  | _ => simp [Branch.map, childEq, ChildNode.map] at isInline

/-- A node that is built without nodes to refer to leaves none behind. -/
theorem keeps_build (node : CompiledNode X) :
    Step.Keeps (ModelNode.build node) ∅ := by
  induction node using CompiledNode.induction with
  | step index type below =>
    rw [ModelNode.build_mk]
    cases type with
    | branchNode config =>
      exact (BranchNodeImpl.keeps_build
        (keeps_children (forall_branches below))).bind
          fun _ => .lift (.ok _) ∅
    | stopNode => exact .lift (.ok _) ∅
    | populationNode config =>
      exact (Step.Keeps.lift _ ∅).bind fun _ => .lift (.ok _) ∅
    | rankedPopulationNode config =>
      exact (Step.Keeps.lift _ ∅).bind fun _ => .lift (.ok _) ∅
    | notSet => exact .throw _ ∅

/-- A branch node alone is built from its outcome. -/
theorem alone_build_branchNode (index : Option UInt32)
    (config : BranchNode X (CompiledNode X)) :
    (ModelNode.build (.mk index (.branchNode config))).alone = do
      let impl ← Step.outcome
        (BranchNodeImpl.build (config.map ModelNode.build) ∅)
      return .branchNode impl := by
  have children := keeps_children fun branch (_ : branch ∈ config.branches)
    child _ => keeps_build child
  rw [Builder.alone_eq, ModelNode.build_mk]
  exact Step.outcome_bind (BranchNodeImpl.keeps_build children)

theorem alone_build_populationNode (index : Option UInt32)
    (config : PopulationNode) :
    (ModelNode.build (X := X) (.mk index (.populationNode config))).alone = do
      let node ← PopulationNodeImpl.buildFromConfig config
      return .leafNode (.populationNode node) := by
  rw [Builder.alone_eq, ModelNode.build_mk]
  refine (Step.outcome_bind (.lift _ ∅)).trans ?_
  rw [Step.outcome_lift]
  rfl

theorem alone_build_rankedPopulationNode (index : Option UInt32)
    (config : RankedPopulationNode) :
    (ModelNode.build (X := X)
        (.mk index (.rankedPopulationNode config))).alone = do
      let node ← RankedPopulationNodeImpl.buildFromConfig config
      return .leafNode (.rankedPopulationNode node) := by
  rw [Builder.alone_eq, ModelNode.build_mk]
  refine (Step.outcome_bind (.lift _ ∅)).trans ?_
  rw [Step.outcome_lift]
  rfl

/-- A node builds when its kind passes over the nodes that build. -/
theorem builds_mk_iff (index : Option UInt32)
    (type : NodeType X (CompiledNode X)) :
    (ModelNode.build (.mk index type)).Builds ↔ (checks X).typePasses
      (type.map fun node => (ModelNode.build node).Builds) := by
  unfold Builder.Builds
  cases type with
  | branchNode config =>
    have children := keeps_children fun branch (_ : branch ∈ config.branches)
      child _ => keeps_build child
    rw [alone_build_branchNode, succeeds_bind_pure,
      BranchNodeImpl.succeeds_build_iff children]
    exact iff_of_eq (congrArg (checks X).typePasses
      (NodeType.map_map Builder.Builds ModelNode.build (.branchNode config)))
  | stopNode => exact iff_of_true ⟨_, rfl⟩ trivial
  | populationNode config =>
    rw [alone_build_populationNode, succeeds_bind_pure]
    exact PopulationNodeImpl.succeeds_buildFromConfig_iff config
  | rankedPopulationNode config =>
    rw [alone_build_rankedPopulationNode, succeeds_bind_pure]
    exact RankedPopulationNodeImpl.succeeds_buildFromConfig_iff config
  | notSet => exact iff_of_false nofun id

/-- A labeler is built exactly for a model whose parts all pass. -/
theorem Labeler.succeeds_build_iff (root : CompiledNode X) :
    Succeeds (Labeler.build root) ↔ (checks X).Accepts root := by
  have accepted : (ModelNode.build root).Builds ↔ (checks X).Accepts root :=
    @PartChecks.accepts_of_recursion X (checks X)
      (fun node => (ModelNode.build node).Builds) builds_mk_iff root
  exact succeeds_bind_pure.trans accepted

end VirtualPeople.Cc
