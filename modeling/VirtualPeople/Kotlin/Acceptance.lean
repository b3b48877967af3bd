import VirtualPeople.Cc.Acceptance
import VirtualPeople.Kotlin.Labeler

/-!
# Which models the Kotlin builders accept

The Kotlin builders check the shared conditions, and beyond these that fields
have plain types and that the masked columns of a matrix differ in their text
hashes.  They do not look at the reserved range or at the largest ranked pool,
and they accept an empty population pool.
-/

namespace VirtualPeople.Kotlin

open Binary64

variable {X : Externals}

/-! ## Distributions and selections -/

/-- The choices that Kotlin numbers in place. -/
theorem enumerateChoices_map {α : Type} (probability : α → Float)
    (elements : List α) :
    Cc.enumerateChoices (elements.map probability) =
      elements.mapIdx fun index element => ⟨index, probability element⟩ := by
  rw [Cc.enumerateChoices, List.mapIdx_eq_iff]
  simp [List.getElem?_mapIdx, Function.comp_def]

/-- A distribution is built when it can be normalized. -/
theorem DistributedConsistentHashing.succeeds_new_iff
    (distribution : List Cc.DistributionChoice) :
    Succeeds (new distribution) ↔
      Normalizable (distribution.map (·.probability)) :=
  (new_lockstep distribution).succeeds_iff.symm.trans
    (Cc.DistributedConsistentHashing.succeeds_build_iff distribution)

namespace BranchNodeImpl

/-- The hashings or the matchers of the two languages choose alike. -/
def SameSelection
    (selection : Option Cc.DistributedConsistentHashing ×
      Option (Cc.FieldFiltersMatcher X))
    (selection' : Option DistributedConsistentHashing ×
      Option (FieldFiltersMatcher X)) : Prop :=
  Option.Rel (fun hashing hashing' =>
      hashing'.normalizedDistribution = hashing.distribution)
    selection.1 selection'.1 ∧
  Option.Rel (fun matcher matcher' => matcher'.filters = matcher.filters)
    selection.2 selection'.2

/-- Both languages build the same selection. -/
theorem buildSelection_lockstep (selections : List (SelectBy X)) :
    Lockstep SameSelection (Cc.buildSelection selections)
      (buildSelection selections) := by
  unfold Cc.buildSelection buildSelection
  simp only
  split_ifs
  · exact .errors _ _
  · cases (selections.head?.map SelectBy.selectByCase).getD .notSet with
    | chance =>
      have hashings := DistributedConsistentHashing.new_lockstep
        (Cc.enumerateChoices (selections.map SelectBy.chanceValue))
      simp only [Cc.buildHashing, enumerateChoices_map] at hashings ⊢
      exact hashings.bind fun _ _ same => .ok ⟨.some same, .none⟩
    | condition =>
      exact (FieldFiltersMatcher.build_lockstep _).bind
        fun _ _ same => .ok ⟨.none, .some same⟩
    | notSet => exact .errors _ _

/-- The selection is built when its branches can be selected. -/
theorem succeeds_buildSelection_iff (selections : List (SelectBy X)) :
    Succeeds (buildSelection selections) ↔ SelectionsPass X selections :=
  (buildSelection_lockstep selections).succeeds_iff.symm.trans
    (Cc.succeeds_buildSelection_iff selections)

end BranchNodeImpl

/-! ## Matrices -/

/-- The matchers are built when the columns pass and have different
fingerprints. -/
theorem MatrixMatchers.succeeds_build_iff {columns : List X.Event}
    (nonempty : columns ≠ []) (hashFieldMask : Option (List String)) :
    Succeeds (MatrixMatchers.build columns hashFieldMask) ↔
      ColumnsPass X columns hashFieldMask ∧
        ColumnsDiffer X (hashLabelerEvent X) columns hashFieldMask := by
  cases hashFieldMask with
  | none =>
    change Succeeds (columns.mapM _ >>= fun filters => pure _) ↔ _ ∧ True
    rw [succeeds_bind_pure, succeeds_mapM_iff, and_true]
    rfl
  | some mask =>
    change Succeeds (HashFieldMaskMatcher.build X columns mask >>= fun matcher =>
      pure _) ↔ mask ≠ [] ∧ (columns.map (hashLabelerEvent X · mask)).Nodup
    rw [succeeds_bind_pure]
    have spec := HashFieldMaskMatcher.build_spec columns mask
    cases built : HashFieldMaskMatcher.build X columns mask with
    | ok matcher =>
      rw [built] at spec
      exact iff_of_true ⟨_, rfl⟩ spec.1.2
    | error fault =>
      rw [built] at spec
      exact iff_of_false nofun fun both => spec ⟨nonempty, both⟩

/-- A matrix is built when it passes and its columns have different
fingerprints. -/
theorem UpdateMatrixImpl.succeeds_build_iff (config : UpdateMatrix X) :
    Succeeds (build config) ↔ config.Passes ∧
      ColumnsDiffer X (hashLabelerEvent X) config.columns
        config.hashFieldMask := by
  unfold build UpdateMatrix.Passes
  simp only [succeeds_ite_throw, List.length_eq_zero_iff, ne_eq, not_not]
  by_cases nonempty : config.columns = []
  · simp [nonempty]
  · rw [succeeds_bind_iff fun matchers _ => succeeds_bind_pure,
      MatrixMatchers.succeeds_build_iff nonempty, succeeds_mapM_iff]
    simp only [← Cc.UpdateMatrixImpl.exists_columnDistribution_iff,
      ← DistributedConsistentHashing.succeeds_new_iff,
      ← succeeds_bind_iff_exists, ← List.mem_range]
    change _ ∧ _ ∧ _ ∧ _ ∧ (∀ columnIndex ∈ _,
      Succeeds (buildRowHashing config columnIndex)) ↔ (_ ∧ _ ∧ _ ∧ _ ∧
        ∀ columnIndex ∈ _, Succeeds (buildRowHashing config columnIndex)) ∧ _
    tauto

namespace SparseUpdateMatrixImpl

/-- The checks of a column and its distribution succeed when the column passes. -/
theorem succeeds_column_iff (column : SparseUpdateMatrixColumn X) :
    Succeeds (checkColumn column) ∧ Succeeds (buildRowHashing column) ↔
      column.Passes := by
  unfold checkColumn buildRowHashing SparseUpdateMatrixColumn.Passes
  rw [← enumerateChoices_map,
    ← Cc.DistributedConsistentHashing.succeeds_build_enumerateChoices,
    (DistributedConsistentHashing.new_lockstep _).succeeds_iff]
  simp only [succeeds_ite_throw, succeeds_pure, List.length_eq_zero_iff,
    not_not, and_true, ne_eq, Option.isNone_iff_eq_none,
    Option.isSome_iff_ne_none, and_assoc]

/-- A sparse matrix is built when it passes and its columns have different
fingerprints. -/
theorem succeeds_build_iff (config : SparseUpdateMatrix X) :
    Succeeds (build config) ↔ config.Passes ∧
      ColumnsDiffer X (hashLabelerEvent X) config.attrs
        config.hashFieldMask := by
  unfold build SparseUpdateMatrix.Passes
  rw [succeeds_ite_throw, List.length_eq_zero_iff]
  by_cases nonempty : config.columns = []
  · simp [nonempty]
  · have attrsNonempty : config.attrs ≠ [] := by
      simpa [SparseUpdateMatrix.attrs] using nonempty
    rw [succeeds_bind_iff fun _ _ => succeeds_bind_iff fun _ _ =>
        succeeds_bind_pure,
      succeeds_forM_iff, succeeds_mapM_iff]
    change _ ∧ _ ∧ Succeeds (MatrixMatchers.build config.attrs _) ∧ _ ↔ _
    rw [MatrixMatchers.succeeds_build_iff attrsNonempty]
    simp only [← succeeds_column_iff, forall₂_and]
    tauto

end SparseUpdateMatrixImpl

/-! ## Conditional merges -/

namespace ConditionalMergeImpl

/-- Both languages build the same filter of a node, and read the same update. -/
theorem buildFilter_lockstep (node : ConditionalMergeNode X) :
    Lockstep (fun built filter => filter = built.1 ∧
        node.update.getD X.emptyEvent = built.2)
      (Cc.ConditionalMergeImpl.buildNode node) (buildFilter node) := by
  obtain ⟨condition, update⟩ := node
  unfold Cc.ConditionalMergeImpl.buildNode buildFilter
  cases condition with
  | none => exact .errors _ _
  | some condition =>
    cases update with
    | none => exact .errors _ _
    | some update =>
      simp only
      cases X.newFieldFilter condition with
      | error fault => exact .errors _ _
      | ok filter => exact .ok ⟨rfl, rfl⟩

/-- A merge is built when it passes. -/
theorem succeeds_build_iff (config : ConditionalMerge X) :
    Succeeds (build config) ↔ config.Passes := by
  unfold build ConditionalMerge.Passes
  rw [succeeds_ite_throw, List.length_eq_zero_iff, succeeds_bind_pure,
    succeeds_mapM_iff]
  simp only [← (buildFilter_lockstep _).succeeds_iff,
    Cc.ConditionalMergeImpl.succeeds_buildNode_iff]

end ConditionalMergeImpl

/-! ## Fields -/

/-- A field is looked up and its type checked. -/
theorem succeeds_field_iff {name : String} {types : List CppType}
    {next : X.FieldPath → Result β} {P : Prop}
    (nextIff : ∀ path, X.getFieldFromProto name = .ok path →
      (Succeeds (next path) ↔ ((X.fieldType path).cppType ∈ types ∧
        (X.fieldType path).IsPlain) ∧ P)) :
    Succeeds (X.getFieldFromProto name >>= next) ↔
      (NamesField X name types ∧ NamesPlain X name) ∧ P := by
  have plainIff (path : X.FieldPath)
      (found : X.getFieldFromProto name = .ok path) :
      NamesPlain X name ↔ (X.fieldType path).IsPlain :=
    ⟨fun plain => plain path found, fun plain path' found' =>
      Except.ok.inj (found.symm.trans found') ▸ plain⟩
  rw [succeeds_bind_iff_exists]
  constructor
  · rintro ⟨path, found, succeeds⟩
    have ⟨⟨hasType, plain⟩, holds⟩ := (nextIff path found).mp succeeds
    exact ⟨⟨⟨path, found, hasType⟩, (plainIff path found).mpr plain⟩, holds⟩
  · rintro ⟨⟨⟨path, found, hasType⟩, plain⟩, holds⟩
    exact ⟨path, found, (nextIff path found).mpr
      ⟨⟨hasType, (plainIff path found).mp plain⟩, holds⟩⟩

/-- The types with an assigner, which tells encodings of integers apart. -/
theorem succeeds_getAssigner_iff (type : FieldType) :
    Succeeds (getAssigner X type) ↔
      type.cppType ∈ CppType.assignables ∧ type.IsPlain := by
  cases type <;> simp [getAssigner, CppType.assignables, CppType.integers,
    FieldType.cppType, FieldType.IsPlain, CppType.plainType]

/-- The types that an expectation can be read from. -/
theorem succeeds_getExtractMultiplicityFunction_iff (type : FieldType) :
    Succeeds (getExtractMultiplicityFunction X type) ↔
      type.cppType ∈ CppType.numbers ∧ type.IsPlain := by
  cases type <;> simp [getExtractMultiplicityFunction, CppType.numbers,
    CppType.integers, FieldType.cppType, FieldType.IsPlain, CppType.plainType]

/-- The integer types of the plain encodings. -/
theorem isIntegerFieldType_iff (type : FieldType) :
    isIntegerFieldType type = true ↔
      type.cppType ∈ CppType.integers ∧ type.IsPlain := by
  cases type <;> simp [isIntegerFieldType, CppType.integers,
    FieldType.cppType, FieldType.IsPlain, CppType.plainType]

/-- The type of 64-bit unsigned numbers is the plain one. -/
theorem eq_uint64_iff (type : FieldType) :
    type = .uint64 ↔ type.cppType ∈ [CppType.uint64] ∧ type.IsPlain := by
  cases type <;> simp [FieldType.cppType, FieldType.IsPlain, CppType.plainType]

/-! ## Assignments, shredders and multiplicities -/

/-- The named fields have plain types. -/
def IsPlainAssignment (X : Externals) (config : Assignment) : Prop :=
  (∀ field ∈ config.sourceField, NamesPlain X field) ∧
    ∀ field ∈ config.targetField, NamesPlain X field

namespace ConditionalAssignmentImpl

/-- Plain types are equal when their C++ types are. -/
theorem eq_of_isPlain {type type' : FieldType} (plain : type.IsPlain)
    (plain' : type'.IsPlain) (same : type.cppType = type'.cppType) :
    type = type' := by
  rw [← plain, ← plain', same]

/-- An assignment is built when it passes and its types are plain. -/
theorem succeeds_buildAssignment_iff (config : Assignment) :
    Succeeds (buildAssignment (X := X) config) ↔
      config.Passes X ∧ IsPlainAssignment X config := by
  obtain ⟨sourceField, targetField⟩ := config
  unfold buildAssignment Assignment.Passes NamesField IsPlainAssignment
  cases sourceField with
  | none => exact iff_of_false (not_succeeds_throw _) (by simp)
  | some sourceField =>
    cases targetField with
    | none => exact iff_of_false (not_succeeds_throw _) (by simp)
    | some targetField =>
      simp only [succeeds_bind_iff_exists, succeeds_ite_throw, not_not,
        Option.some.injEq, List.mem_singleton, Option.mem_def, forall_eq']
      constructor
      · rintro ⟨source, sourceEq, target, targetEq, same, assigner, found, -⟩
        obtain ⟨assignable, plain⟩ :=
          (succeeds_getAssigner_iff (X := X) _).mp ⟨assigner, found⟩
        refine ⟨⟨_, _, _, rfl, rfl, assignable, ⟨source, sourceEq, rfl⟩,
          target, targetEq, by rw [same]⟩, ?_, ?_⟩
        · intro path pathEq
          rwa [← Except.ok.inj (sourceEq.symm.trans pathEq)]
        · intro path pathEq
          rwa [← Except.ok.inj (targetEq.symm.trans pathEq), ← same]
      · rintro ⟨⟨_, _, type, rfl, rfl, assignable, ⟨source, sourceEq, rfl⟩,
          target, targetEq, same⟩, sourcePlain, targetPlain⟩
        obtain ⟨assigner, found⟩ := (succeeds_getAssigner_iff (X := X) _).mpr
          ⟨assignable, sourcePlain source sourceEq⟩
        exact ⟨source, sourceEq, target, targetEq,
          eq_of_isPlain (sourcePlain source sourceEq)
            (targetPlain target targetEq) same.symm,
          assigner, found, succeeds_pure _⟩

/-- A conditional assignment is built when it passes and its types are plain. -/
theorem succeeds_build_iff (config : ConditionalAssignment X) :
    Succeeds (build config) ↔ config.Passes ∧
      ∀ assignment ∈ config.assignments, IsPlainAssignment X assignment := by
  unfold build ConditionalAssignment.Passes
  cases config.condition with
  | none => exact iff_of_false (not_succeeds_throw _) (by simp)
  | some condition =>
    simp only [succeeds_ite_throw, List.length_eq_zero_iff]
    rw [succeeds_bind_iff fun _ _ => succeeds_bind_pure, succeeds_mapM_iff]
    simp only [succeeds_buildAssignment_iff, forall₂_and, Option.some.injEq,
      exists_eq_left', FilterBuilds]
    tauto

end ConditionalAssignmentImpl

/-- A shredder is built when it passes and its types are plain. -/
theorem GeometricShredderImpl.succeeds_build_iff (config : GeometricShredder) :
    Succeeds (build (X := X) config) ↔ config.Passes X ∧
      NamesPlain X config.randomnessField ∧
        NamesPlain X config.targetField := by
  unfold build GeometricShredder.Passes
  have regroup {a b c d e : Prop} :
      (a ∧ b ∧ c) ∧ d ∧ e ↔ a ∧ (b ∧ d) ∧ c ∧ e := by tauto
  rw [succeeds_ite_throw, regroup]
  refine and_congr_right fun _ => succeeds_field_iff fun randomnessField _ => ?_
  rw [succeeds_ite_throw, not_not, eq_uint64_iff]
  refine and_congr_right fun _ => ?_
  rw [← and_true (_ ∧ NamesPlain X config.targetField)]
  refine succeeds_field_iff fun targetField _ => ?_
  rw [succeeds_ite_throw, not_not, eq_uint64_iff, and_true,
    and_iff_left (succeeds_pure _)]

/-- The named fields have plain types. -/
def IsPlainMultiplicity (X : Externals) (config : Multiplicity) : Prop :=
  (∀ field, config.multiplicityRef = .expectedMultiplicityField field →
      NamesPlain X field) ∧
    ∀ field ∈ config.personIndexField, NamesPlain X field

namespace MultiplicityImpl

/-- An extractor is built when its expectation passes and its type is plain. -/
theorem succeeds_buildExtractor_iff (config : Multiplicity) :
    Succeeds (buildExtractor (X := X) config) ↔
      config.multiplicityRef.Passes X ∧
        ∀ field, config.multiplicityRef = .expectedMultiplicityField field →
          NamesPlain X field := by
  unfold buildExtractor
  cases config.multiplicityRef with
  | expectedMultiplicity value =>
    exact iff_of_true (succeeds_pure _) ⟨trivial, nofun⟩
  | expectedMultiplicityField field =>
    simp only [MultiplicityRef.Passes, MultiplicityRef.expectedMultiplicityField.injEq,
      forall_eq']
    rw [← and_true (NamesField X field _ ∧ _)]
    refine succeeds_field_iff fun path _ => ?_
    rw [succeeds_bind_pure, succeeds_getExtractMultiplicityFunction_iff,
      and_true]
  | notSet => exact iff_of_false (not_succeeds_throw _) fun both => both.1

/-- A multiplicity is built when it passes and its types are plain. -/
theorem succeeds_build_iff (config : Multiplicity) :
    Succeeds (build (X := X) config) ↔
      config.Passes X ∧ IsPlainMultiplicity X config := by
  unfold build Multiplicity.Passes IsPlainMultiplicity
  split
  · rename_i noField
    exact iff_of_false (not_succeeds_throw _) (by simp [noField])
  · rename_i noMaxValue
    exact iff_of_false (not_succeeds_throw _) (by simp [noMaxValue])
  · rename_i noCapAtMax
    exact iff_of_false (not_succeeds_throw _) (by simp [noCapAtMax])
  · rename_i noRandomSeed
    exact iff_of_false (not_succeeds_throw _) (by simp [noRandomSeed])
  · rename_i field maxValue capAtMax randomSeed fieldEq maxEq capEq seedEq
    simp only [fieldEq, maxEq, capEq, seedEq, Option.isSome_some,
      Option.some.injEq, exists_eq_left', Option.mem_def, forall_eq', and_true]
    have personIndexIff (extractor : MultiplicityExtractor X) :
        Succeeds (X.getFieldFromProto field >>= fun personIndexField =>
          if isIntegerFieldType (X.fieldType personIndexField) then
            return (⟨extractor, capAtMax, maxValue, personIndexField,
              randomSeed⟩ : MultiplicityImpl X)
          else throw (.illegalState "Invalid type for person_index_field. ")) ↔
          NamesField X field CppType.integers ∧ NamesPlain X field := by
      rw [← and_true (_ ∧ NamesPlain X field)]
      refine succeeds_field_iff fun path _ => ?_
      rw [← isIntegerFieldType_iff, and_true]
      split_ifs with isInteger <;> simp [isInteger]
    rw [succeeds_bind_iff fun extractor _ => personIndexIff extractor,
      succeeds_buildExtractor_iff]
    tauto

end MultiplicityImpl

/-! ## Leaves -/

/-- A population node is built when its pools are empty or have people. -/
theorem PopulationNodeImpl.succeeds_buildFromConfig_iff
    (config : PopulationNode) :
    Succeeds (buildFromConfig config) ↔ config.Passes := by
  unfold buildFromConfig PopulationNode.Passes
  rw [← isEmptyPopulationPool_iff]
  split_ifs with empty
  · exact iff_of_true (succeeds_pure _) (Or.inl empty)
  · rw [or_iff_right empty, succeeds_bind_pure,
      ← (VirtualPeopleSelector.build_lockstep config.pools).succeeds_iff]
    exact Cc.VirtualPersonSelector.succeeds_build_iff config.pools

/-- A ranked node is built when it passes. -/
theorem RankedPopulationNodeImpl.succeeds_buildFromConfig_iff
    (config : RankedPopulationNode) :
    Succeeds (buildFromConfig config) ↔ config.Passes := by
  unfold buildFromConfig RankedPopulationNode.Passes
  split
  · rename_i pool poolsEq
    rw [poolsEq]
    simp only [List.cons.injEq, and_true, exists_eq_left',
      UInt64.toUInt64_toInt64, gt_iff_lt]
    have positiveIff : 0 < pool.totalPopulation ↔ pool.totalPopulation ≠ 0 := by
      rw [UInt64.lt_iff_toNat_lt, ne_eq, ← UInt64.toNat_inj]
      exact Nat.pos_iff_ne_zero
    rw [← positiveIff]
    split_ifs <;> simp_all
  · rename_i pools notSingle
    refine iff_of_false (not_succeeds_throw _) ?_
    rintro ⟨pool, same, -⟩
    exact notSingle pool same

/-! ## Trees -/

/-- The conditions that only the Kotlin builders check. -/
def kotlinOnly : PartChecks X where
  selections _ := True
  updateMatrix config :=
    ColumnsDiffer X (hashLabelerEvent X) config.columns config.hashFieldMask
  sparseUpdateMatrix config :=
    ColumnsDiffer X (hashLabelerEvent X) config.attrs config.hashFieldMask
  conditionalMerge _ := True
  conditionalAssignment config :=
    ∀ assignment ∈ config.assignments, IsPlainAssignment X assignment
  geometricShredder config :=
    NamesPlain X config.randomnessField ∧ NamesPlain X config.targetField
  multiplicity config := IsPlainMultiplicity X config
  populationNode _ := True
  rankedPopulationNode _ := True

/-- The conditions that the Kotlin builders check. -/
def checks (X : Externals) : PartChecks X :=
  PartChecks.shared.both kotlinOnly

/-- The builder alone is its outcome from the empty map. -/
theorem Builder.alone_eq (build : Builder X) :
    build.alone = Step.outcome (build ∅) := by
  unfold Builder.alone
  cases build ∅ <;> rfl

/-- The node is built without nodes to refer to. -/
def Builder.Builds (build : Builder X) : Prop :=
  Succeeds build.alone

namespace BranchNodeImpl

/-- Nothing can be referred to in the empty map. -/
theorem buildChildNode_nodeIndex_empty (index : UInt32)
    (selectBy : SelectBy X) :
    ∃ fault, buildChildNode ⟨.nodeIndex index, selectBy⟩ ∅ =
      .error fault ∅ :=
  ⟨_, rfl⟩

/-- The empty map stays empty if inline children leave it so. -/
theorem keeps_buildChildNode {branch : Branch X (Builder X)}
    (inline : ∀ build, branch.childNode = .node build → Step.Keeps build ∅) :
    Step.Keeps (buildChildNode branch) ∅ := by
  obtain ⟨childNode, selectBy⟩ := branch
  cases childNode with
  | nodeIndex index =>
    intro node final run
    obtain ⟨fault, failed⟩ := buildChildNode_nodeIndex_empty index selectBy
    rw [failed] at run
    contradiction
  | node build => exact inline build rfl
  | notSet => exact .throw _ ∅

/-- A child is built when it is inline and builds. -/
theorem succeeds_buildChildNode_iff (branch : Branch X (Builder X)) :
    Succeeds (Step.outcome (buildChildNode branch ∅)) ↔
      (branch.childNode.map Builder.Builds).Holds := by
  obtain ⟨childNode, selectBy⟩ := branch
  cases childNode with
  | nodeIndex index =>
    obtain ⟨fault, failed⟩ := buildChildNode_nodeIndex_empty index selectBy
    rw [failed]
    exact iff_of_false nofun id
  | node build =>
    change Succeeds (Step.outcome (build ∅)) ↔ Succeeds build.alone
    rw [Builder.alone_eq]
  | notSet => exact iff_of_false nofun id

/-- An action is built when its parts pass and its update trees build. -/
theorem succeeds_action_iff (action : Action X (Builder X)) :
    Succeeds (buildUpdaters action) ∧ Succeeds (buildMultiplicity action) ↔
      (checks X).actionPasses (action.map Builder.Builds) := by
  cases action with
  | updates updates =>
    rw [PartChecks.actionPasses_updates]
    refine (and_iff_left (succeeds_pure none)).trans
      (succeeds_mapM_iff.trans (forall₂_congr fun updater _ => ?_))
    cases updater with
    | updateMatrix config =>
      exact succeeds_bind_pure.trans (UpdateMatrixImpl.succeeds_build_iff config)
    | sparseUpdateMatrix config =>
      exact succeeds_bind_pure.trans
        (SparseUpdateMatrixImpl.succeeds_build_iff config)
    | conditionalMerge config =>
      exact succeeds_bind_pure.trans
        ((ConditionalMergeImpl.succeeds_build_iff config).trans
          (and_true _).symm.to_iff)
    | conditionalAssignment config =>
      exact succeeds_bind_pure.trans
        (ConditionalAssignmentImpl.succeeds_build_iff config)
    | geometricShredder config =>
      exact succeeds_bind_pure.trans
        (GeometricShredderImpl.succeeds_build_iff config)
    | updateTree root => exact succeeds_bind_pure
    | notSet => exact iff_of_false (not_succeeds_throw _) id
  | multiplicity config =>
    exact (and_iff_right (succeeds_pure [])).trans
      (succeeds_bind_pure.trans (MultiplicityImpl.succeeds_build_iff config))
  | notSet =>
    exact iff_of_true ⟨succeeds_pure _, succeeds_pure _⟩ trivial

variable {config : BranchNode X (Builder X)}

/-- A branch node leaves the empty map as it is if its children do. -/
theorem keeps_build (children : ∀ branch ∈ config.branches,
      Step.Keeps (buildChildNode branch) ∅) :
    Step.Keeps (build config) ∅ := by
  unfold build
  split_ifs
  · exact .throw _ ∅
  · exact (Step.Keeps.mapM children).bind fun _ => .lift _ ∅

/-- A node is assembled when its selection and its action are built. -/
theorem succeeds_assemble_iff (childNodes : List (ModelNode X)) :
    Succeeds (assemble config childNodes) ↔
      Succeeds (buildSelection (config.branches.map (·.selectBy))) ∧
        Succeeds (buildUpdaters config.action) ∧
          Succeeds (buildMultiplicity config.action) :=
  succeeds_bind_iff fun _ _ => succeeds_bind_iff fun _ _ => succeeds_bind_pure

/-- A branch node is built from the outcomes of its children. -/
theorem outcome_build (children : ∀ branch ∈ config.branches,
      Step.Keeps (buildChildNode branch) ∅) :
    Step.outcome (build config ∅) =
      if config.branches.length = 0 then
        throw (.illegalState "BranchNode must have at least 1 branch.")
      else
        (config.branches.mapM
          fun branch => Step.outcome (buildChildNode branch ∅)) >>=
            assemble config := by
  unfold build
  split_ifs
  · rfl
  · rw [Step.outcome_bind (.mapM children), Step.outcome_mapM children]
    simp only [Step.outcome_lift]

/-- A branch node is built when it passes over the nodes that build. -/
theorem succeeds_build_iff (children : ∀ branch ∈ config.branches,
      Step.Keeps (buildChildNode branch) ∅) :
    Succeeds (Step.outcome (build config ∅)) ↔
      (checks X).branchNodePasses (config.map Builder.Builds) := by
  rw [outcome_build children, succeeds_ite_throw, List.length_eq_zero_iff,
    succeeds_bind_iff fun childNodes _ => succeeds_assemble_iff childNodes,
    succeeds_mapM_iff, succeeds_buildSelection_iff, succeeds_action_iff]
  unfold PartChecks.branchNodePasses
  simp only [BranchNode.map, ne_eq, List.map_eq_nil_iff, List.forall_mem_map,
    List.map_map]
  refine and_congr_right fun _ => and_congr (forall₂_congr fun branch _ =>
    succeeds_buildChildNode_iff branch) (and_congr_left fun _ => ?_)
  exact (and_true _).symm.to_iff

/-- Inline children that leave no nodes behind. -/
theorem keeps_children {config : BranchNode X (CompiledNode X)}
    (inline : ∀ branch ∈ config.branches, ∀ child,
      branch.childNode = .node child →
        Step.Keeps (ModelNode.build child) ∅) :
    ∀ branch ∈ (config.map ModelNode.build).branches,
      Step.Keeps (buildChildNode branch) ∅ := by
  simp only [BranchNode.map, List.forall_mem_map]
  intro branch member
  refine keeps_buildChildNode fun build isInline => ?_
  cases childEq : branch.childNode with
  | node child =>
    simp only [Branch.map, childEq, ChildNode.map] at isInline
    rw [← ChildNode.node.inj isInline]
    exact inline branch member child childEq
  | _ => simp [Branch.map, childEq, ChildNode.map] at isInline

end BranchNodeImpl

namespace ModelNode

/-- A node that is built without nodes to refer to leaves none behind. -/
theorem keeps_build (node : CompiledNode X) : Step.Keeps (build node) ∅ := by
  induction node using CompiledNode.induction with
  | step index type below =>
    rw [build_mk]
    cases type with
    | branchNode config =>
      exact (BranchNodeImpl.keeps_build
        (BranchNodeImpl.keeps_children (forall_branches below))).bind
          fun _ => .lift (.ok _) ∅
    | stopNode => exact .lift (.ok _) ∅
    | populationNode config =>
      exact (Step.Keeps.lift _ ∅).bind fun _ => .lift (.ok _) ∅
    | rankedPopulationNode config =>
      exact (Step.Keeps.lift _ ∅).bind fun _ => .lift (.ok _) ∅
    | notSet => exact .throw _ ∅

/-- A branch node alone is built from its outcome. -/
theorem alone_build_branchNode (index : Option UInt32)
    (config : BranchNode X (CompiledNode X)) :
    (build (.mk index (.branchNode config))).alone = do
      let impl ← Step.outcome (BranchNodeImpl.build (config.map build) ∅)
      return ⟨impl.apply⟩ := by
  have children := BranchNodeImpl.keeps_children
    fun branch (_ : branch ∈ config.branches) child _ => keeps_build child
  rw [Builder.alone_eq, build_mk]
  exact Step.outcome_bind (BranchNodeImpl.keeps_build children)

theorem alone_build_populationNode (index : Option UInt32)
    (config : PopulationNode) :
    (build (X := X) (.mk index (.populationNode config))).alone = do
      let node ← PopulationNodeImpl.buildFromConfig config
      return ⟨node.apply⟩ := by
  rw [Builder.alone_eq, build_mk]
  refine (Step.outcome_bind (.lift _ ∅)).trans ?_
  rw [Step.outcome_lift]
  rfl

theorem alone_build_rankedPopulationNode (index : Option UInt32)
    (config : RankedPopulationNode) :
    (build (X := X) (.mk index (.rankedPopulationNode config))).alone = do
      let node ← RankedPopulationNodeImpl.buildFromConfig config
      return ⟨node.apply⟩ := by
  rw [Builder.alone_eq, build_mk]
  refine (Step.outcome_bind (.lift _ ∅)).trans ?_
  rw [Step.outcome_lift]
  rfl

/-- A node builds when its kind passes over the nodes that build. -/
theorem builds_mk_iff (index : Option UInt32)
    (type : NodeType X (CompiledNode X)) :
    (build (.mk index type)).Builds ↔ (checks X).typePasses
      (type.map fun node => (build node).Builds) := by
  unfold Builder.Builds
  cases type with
  | branchNode config =>
    have children := BranchNodeImpl.keeps_children
      fun branch (_ : branch ∈ config.branches) child _ => keeps_build child
    rw [alone_build_branchNode, succeeds_bind_pure,
      BranchNodeImpl.succeeds_build_iff children]
    exact iff_of_eq (congrArg (checks X).typePasses
      (NodeType.map_map Builder.Builds build (.branchNode config)))
  | stopNode => exact iff_of_true ⟨_, rfl⟩ trivial
  | populationNode config =>
    rw [alone_build_populationNode, succeeds_bind_pure]
    exact (PopulationNodeImpl.succeeds_buildFromConfig_iff config).trans
      (and_true _).symm.to_iff
  | rankedPopulationNode config =>
    rw [alone_build_rankedPopulationNode, succeeds_bind_pure]
    exact (RankedPopulationNodeImpl.succeeds_buildFromConfig_iff config).trans
      (and_true _).symm.to_iff
  | notSet => exact iff_of_false nofun id

end ModelNode

namespace Labeler

/-- A labeler is built exactly for a model whose parts all pass. -/
theorem succeeds_build_iff (root : CompiledNode X) :
    Succeeds (build root) ↔ (checks X).Accepts root := by
  have accepted : (ModelNode.build root).Builds ↔ (checks X).Accepts root :=
    @PartChecks.accepts_of_recursion X (checks X)
      (fun node => (ModelNode.build node).Builds) ModelNode.builds_mk_iff root
  exact succeeds_bind_pure.trans accepted

/-- The languages agree on whether they accept a model exactly when the model
fails a condition that both check, or stands in the same way to the conditions
that only C++ checks and to those that only Kotlin checks. -/
theorem accepts_same_iff (root : CompiledNode X) :
    ((∃ labeler, Cc.Labeler.build root = .ok labeler) ↔
        ∃ labeler, build root = .ok labeler) ↔
      (PartChecks.shared.Accepts root →
        (Cc.ccOnly.Accepts root ↔ kotlinOnly.Accepts root)) := by
  have ccIff : (∃ labeler, Cc.Labeler.build root = .ok labeler) ↔
      PartChecks.shared.Accepts root ∧ Cc.ccOnly.Accepts root :=
    (Cc.Labeler.succeeds_build_iff root).trans
      (PartChecks.accepts_both _ _ root)
  have kotlinIff : (∃ labeler, build root = .ok labeler) ↔
      PartChecks.shared.Accepts root ∧ kotlinOnly.Accepts root :=
    (succeeds_build_iff root).trans (PartChecks.accepts_both _ _ root)
  rw [ccIff, kotlinIff]
  exact and_congr_right_iff

/-- An empty population pool, as the documentation of both languages describes
it, is built by Kotlin only. -/
theorem accepts_emptyPopulationPool :
    ¬((∃ labeler, Cc.Labeler.build (X := .constant)
          (.mk none (.populationNode ⟨[⟨0, 0⟩], "seed"⟩)) = .ok labeler) ↔
        ∃ labeler, build (X := .constant)
          (.mk none (.populationNode ⟨[⟨0, 0⟩], "seed"⟩)) = .ok labeler) := by
  intro same
  obtain ⟨labeler, built⟩ := same.mpr ⟨_, rfl⟩
  contradiction

end Labeler

end VirtualPeople.Kotlin
