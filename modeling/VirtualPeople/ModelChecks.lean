import VirtualPeople.Binary64.Arithmetic
import VirtualPeople.Config

/-!
# What a model has to satisfy

The conditions on a model configuration, part by part, without reference to the
code that checks them.  The builders of both languages make the same checks,
`PartChecks.shared`, and a few that only one of them makes, and a model tree is
accepted when all of its parts are.
-/

namespace VirtualPeople

open Binary64

variable (X : Externals)

/-! ## Distributions -/

/-- How far a sum of probabilities may be from one. -/
def normalizeTolerance : Float :=
  0.0000001

/-- The probabilities of a distribution: there is one, none is negative, and
they sum to one up to the tolerance. -/
def Normalizable (probabilities : List Float) : Prop :=
  probabilities ≠ [] ∧ (∀ probability ∈ probabilities, ¬probability < 0.0) ∧
    ¬probabilities.foldl (· + ·) 0.0 < 1.0 - normalizeTolerance ∧
    ¬1.0 + normalizeTolerance < probabilities.foldl (· + ·) 0.0

/-! ## Fields -/

namespace CppType

/-- The integer types that a person index and an expected multiplicity can have. -/
def integers : List CppType :=
  [.int32, .int64, .uint32, .uint64]

/-- The types that an expected multiplicity can be read from. -/
def numbers : List CppType :=
  integers ++ [.float, .double]

/-- The types of fields that can be assigned. -/
def assignables : List CppType :=
  integers ++ [.bool, .enum, .string]

/-- The field type that is named after the C++ type. -/
def plainType : CppType → FieldType
  | .int32 => .int32
  | .int64 => .int64
  | .uint32 => .uint32
  | .uint64 => .uint64
  | .double => .double
  | .float => .float
  | .bool => .bool
  | .enum => .enum
  | .string => .string
  | .message => .message

end CppType

/-- The type is not one of those that differ from a plain type in their
encoding only. -/
def FieldType.IsPlain (type : FieldType) : Prop :=
  type.cppType.plainType = type

instance (type : FieldType) : Decidable type.IsPlain :=
  inferInstanceAs (Decidable (_ = _))

/-- The name is that of a field of an event, with one of the types. -/
def NamesField (name : String) (types : List CppType) : Prop :=
  ∃ path, X.getFieldFromProto name = .ok path ∧
    (X.fieldType path).cppType ∈ types

/-- A field of the name, if there is one, has a plain type. -/
def NamesPlain (name : String) : Prop :=
  ∀ path, X.getFieldFromProto name = .ok path → (X.fieldType path).IsPlain

/-! ## Parts of a model -/

/-- The filter is one that the filter library accepts. -/
def FilterBuilds (filter : X.FieldFilterProto) : Prop :=
  Succeeds (X.newFieldFilter filter)

/-- The branches are all chosen by chance, or all by a condition. -/
def SelectionsPass (selections : List (SelectBy X)) : Prop :=
  (∃ chances, selections = chances.map .chance ∧ Normalizable chances) ∨
    ∃ filters, selections = filters.map .condition ∧ filters ≠ [] ∧
      ∀ filter ∈ filters, FilterBuilds X filter

/-- A mask is not empty, and without one each column is a filter. -/
def ColumnsPass (columns : List X.Event) :
    Option (List String) → Prop
  | some hashFieldMask => hashFieldMask ≠ []
  | none => ∀ column ∈ columns, Succeeds (X.newFieldFilterFromEvent column)

/-- Under a mask no two columns have the same hash. -/
def ColumnsDiffer (hash : X.Event → List String → UInt64)
    (columns : List X.Event) : Option (List String) → Prop
  | some hashFieldMask => (columns.map (hash · hashFieldMask)).Nodup
  | none => True

variable {X}

/-- The probabilities of a column are the entries of the table at its
positions. -/
def UpdateMatrix.IsColumn (config : UpdateMatrix X) (columnIndex : ℕ)
    (probabilities : List Float32) : Prop :=
  List.Forall₂
    (fun rowIndex probability =>
      config.probabilities[rowIndex * config.columns.length + columnIndex]? =
        some probability)
    (List.range config.rows.length) probabilities

/-- The matrix has rows and columns, as many probabilities as the 32-bit product
of their counts, and a distribution for each column. -/
def UpdateMatrix.Passes (config : UpdateMatrix X) : Prop :=
  config.rows ≠ [] ∧ config.columns ≠ [] ∧
    Int32.ofNat config.rows.length * Int32.ofNat config.columns.length =
      Int32.ofNat config.probabilities.length ∧
    ColumnsPass X config.columns config.hashFieldMask ∧
    ∀ columnIndex < config.columns.length, ∃ probabilities,
      config.IsColumn columnIndex probabilities ∧
        Normalizable (probabilities.map ofFloat32)

/-- The column has attributes and rows with a distribution. -/
def SparseUpdateMatrixColumn.Passes (column : SparseUpdateMatrixColumn X) :
    Prop :=
  column.columnAttrs.isSome ∧ column.rows ≠ [] ∧
    column.rows.length = column.probabilities.length ∧
    Normalizable (column.probabilities.map ofFloat32)

/-- The attributes of the columns, empty ones where there are none. -/
def SparseUpdateMatrix.attrs (config : SparseUpdateMatrix X) : List X.Event :=
  config.columns.map (·.columnAttrs.getD X.emptyEvent)

/-- There are columns, each passes, and they can be told apart. -/
def SparseUpdateMatrix.Passes (config : SparseUpdateMatrix X) : Prop :=
  config.columns ≠ [] ∧ (∀ column ∈ config.columns, column.Passes) ∧
    ColumnsPass X config.attrs config.hashFieldMask

/-- The node has a condition that can be built, and an update. -/
def ConditionalMergeNode.Passes (node : ConditionalMergeNode X) : Prop :=
  (∃ condition, node.condition = some condition ∧ FilterBuilds X condition) ∧
    node.update.isSome

/-- There are nodes, and each of them passes. -/
def ConditionalMerge.Passes (config : ConditionalMerge X) : Prop :=
  config.nodes ≠ [] ∧ ∀ node ∈ config.nodes, node.Passes

/-- Both fields are named, and a value of the one can be put in the other. -/
def Assignment.Passes (X : Externals) (config : Assignment) : Prop :=
  ∃ sourceField targetField type, config.sourceField = some sourceField ∧
    config.targetField = some targetField ∧ type ∈ CppType.assignables ∧
    NamesField X sourceField [type] ∧ NamesField X targetField [type]

/-- There is a condition that can be built, and assignments that all pass. -/
def ConditionalAssignment.Passes (config : ConditionalAssignment X) : Prop :=
  (∃ condition, config.condition = some condition ∧
      FilterBuilds X condition) ∧
    config.assignments ≠ [] ∧
    ∀ assignment ∈ config.assignments, assignment.Passes X

/-- The probability is between zero and one, and both fields are of 64 bits. -/
def GeometricShredder.Passes (X : Externals) (config : GeometricShredder) :
    Prop :=
  ¬(config.psi < 0.0 ∨ 1.0 < config.psi) ∧
    NamesField X config.randomnessField [.uint64] ∧
    NamesField X config.targetField [.uint64]

/-- The expectation is stated, and a field to read it from is one of numbers. -/
def MultiplicityRef.Passes (X : Externals) : MultiplicityRef → Prop
  | .expectedMultiplicity _ => True
  | .expectedMultiplicityField field => NamesField X field CppType.numbers
  | .notSet => False

/-- All fields of the multiplicity are set, and the paths name suitable fields. -/
def Multiplicity.Passes (X : Externals) (config : Multiplicity) : Prop :=
  config.multiplicityRef.Passes X ∧
    (∃ field, config.personIndexField = some field ∧
      NamesField X field CppType.integers) ∧
    config.maxValue.isSome ∧ config.capAtMax.isSome ∧ config.randomSeed.isSome

/-- There is a person to pick, or the pools are an empty population pool. -/
def PopulationNode.Passes (config : PopulationNode) : Prop :=
  config.pools = [⟨0, 0⟩] ∨
    config.pools.foldl (fun sum pool => sum + pool.totalPopulation) 0 ≠ 0

/-- There is one pool with people, and the ranked part is not larger than it. -/
def RankedPopulationNode.Passes (config : RankedPopulationNode) : Prop :=
  ∃ pool, config.pools = [pool] ∧ pool.totalPopulation ≠ 0 ∧
    config.rankedSize ≤ pool.totalPopulation

/-! ## Checks of whole models -/

/-- Conditions on the parts of a model. -/
structure PartChecks (X : Externals) where
  selections : List (SelectBy X) → Prop
  updateMatrix : UpdateMatrix X → Prop
  sparseUpdateMatrix : SparseUpdateMatrix X → Prop
  conditionalMerge : ConditionalMerge X → Prop
  conditionalAssignment : ConditionalAssignment X → Prop
  geometricShredder : GeometricShredder → Prop
  multiplicity : Multiplicity → Prop
  populationNode : PopulationNode → Prop
  rankedPopulationNode : RankedPopulationNode → Prop

/-- The inline node holds the condition; a reference to a node does not. -/
def ChildNode.Holds : ChildNode Prop → Prop
  | .node holds => holds
  | _ => False

namespace PartChecks

variable (checks checks' : PartChecks X)

/-- Both conditions on each part. -/
def both : PartChecks X where
  selections config := checks.selections config ∧ checks'.selections config
  updateMatrix config :=
    checks.updateMatrix config ∧ checks'.updateMatrix config
  sparseUpdateMatrix config :=
    checks.sparseUpdateMatrix config ∧ checks'.sparseUpdateMatrix config
  conditionalMerge config :=
    checks.conditionalMerge config ∧ checks'.conditionalMerge config
  conditionalAssignment config :=
    checks.conditionalAssignment config ∧ checks'.conditionalAssignment config
  geometricShredder config :=
    checks.geometricShredder config ∧ checks'.geometricShredder config
  multiplicity config :=
    checks.multiplicity config ∧ checks'.multiplicity config
  populationNode config :=
    checks.populationNode config ∧ checks'.populationNode config
  rankedPopulationNode config :=
    checks.rankedPopulationNode config ∧ checks'.rankedPopulationNode config

/-- The update passes; an update tree does when its root does. -/
def updaterPasses : AttributesUpdater X Prop → Prop
  | .updateMatrix config => checks.updateMatrix config
  | .sparseUpdateMatrix config => checks.sparseUpdateMatrix config
  | .conditionalMerge config => checks.conditionalMerge config
  | .conditionalAssignment config => checks.conditionalAssignment config
  | .geometricShredder config => checks.geometricShredder config
  | .updateTree root => root
  | .notSet => False

/-- All updates of the action pass, or its multiplicity does. -/
def actionPasses : Action X Prop → Prop
  | .updates updates => ∀ updater ∈ updates, checks.updaterPasses updater
  | .multiplicity config => checks.multiplicity config
  | .notSet => True

/-- There are branches, all of whose children pass, and which can be selected. -/
def branchNodePasses (config : BranchNode X Prop) : Prop :=
  config.branches ≠ [] ∧
    (∀ branch ∈ config.branches, branch.childNode.Holds) ∧
    checks.selections (config.branches.map (·.selectBy)) ∧
    checks.actionPasses config.action

/-- The node passes when the nodes below it do. -/
def typePasses : NodeType X Prop → Prop
  | .branchNode config => checks.branchNodePasses config
  | .stopNode => True
  | .populationNode config => checks.populationNode config
  | .rankedPopulationNode config => checks.rankedPopulationNode config
  | .notSet => False

/-- The model under the node is complete, and all of its parts pass. -/
def Accepts (root : CompiledNode X) : Prop :=
  root.fold fun _ type => checks.typePasses type

/-- A node is accepted when its kind passes over the nodes that are. -/
@[simp] theorem accepts_mk (index : Option UInt32)
    (type : NodeType X (CompiledNode X)) :
    checks.Accepts (.mk index type) ↔
      checks.typePasses (type.map checks.Accepts) :=
  iff_of_eq (CompiledNode.fold_mk _ index type)

/-- A verdict on models that is found from the verdicts on the inline nodes. -/
theorem accepts_of_recursion {verdict : CompiledNode X → Prop}
    (recursion : ∀ index type,
      verdict (.mk index type) ↔ checks.typePasses (type.map verdict))
    (root : CompiledNode X) : verdict root ↔ checks.Accepts root := by
  induction root using CompiledNode.induction with
  | step index type below =>
    rw [recursion, accepts_mk, NodeType.map_congr fun child member =>
      propext (below child member)]

/-- A branch node is accepted when its children and its parts are. -/
theorem accepts_branchNode (index : Option UInt32)
    (config : BranchNode X (CompiledNode X)) :
    checks.Accepts (.mk index (.branchNode config)) ↔
      config.branches ≠ [] ∧
        (∀ branch ∈ config.branches,
          (branch.childNode.map checks.Accepts).Holds) ∧
        checks.selections (config.branches.map (·.selectBy)) ∧
        checks.actionPasses (config.action.map checks.Accepts) := by
  rw [accepts_mk]
  change checks.branchNodePasses (config.map checks.Accepts) ↔ _
  unfold branchNodePasses BranchNode.map
  simp only [ne_eq, List.map_eq_nil_iff, List.forall_mem_map, List.map_map]
  rfl

/-- Updates pass when each of them does. -/
@[simp] theorem actionPasses_updates (updates : List (AttributesUpdater X Node))
    (f : Node → Prop) :
    checks.actionPasses ((Action.updates updates).map f) ↔
      ∀ updater ∈ updates, checks.updaterPasses (updater.map f) :=
  List.forall_mem_map

/-! ## Both conditions -/

variable {checks checks'} in
/-- An update passes both checks when it passes each of them. -/
theorem updaterPasses_both {updater : AttributesUpdater X (CompiledNode X)}
    (trees : ∀ root ∈ updater.treeRoot, ((checks.both checks').Accepts root ↔
      checks.Accepts root ∧ checks'.Accepts root)) :
    (checks.both checks').updaterPasses
        (updater.map (checks.both checks').Accepts) ↔
      checks.updaterPasses (updater.map checks.Accepts) ∧
        checks'.updaterPasses (updater.map checks'.Accepts) := by
  cases updater with
  | updateTree root => exact trees root rfl
  | notSet => exact (and_self_iff).symm
  | _ => rfl

variable {checks checks'} in
/-- An action passes both checks when it passes each of them. -/
theorem actionPasses_both {action : Action X (CompiledNode X)}
    (trees : ∀ root ∈ action.trees, ((checks.both checks').Accepts root ↔
      checks.Accepts root ∧ checks'.Accepts root)) :
    (checks.both checks').actionPasses
        (action.map (checks.both checks').Accepts) ↔
      checks.actionPasses (action.map checks.Accepts) ∧
        checks'.actionPasses (action.map checks'.Accepts) := by
  cases action with
  | updates updates =>
    rw [actionPasses_updates, actionPasses_updates, actionPasses_updates,
      ← forall₂_and]
    refine forall₂_congr fun updater member => updaterPasses_both ?_
    intro root isRoot
    exact trees root (List.mem_filterMap.mpr ⟨updater, member, isRoot⟩)
  | multiplicity config => rfl
  | notSet => exact (and_self_iff).symm

/-- A model passes two conditions together when it passes each of them. -/
theorem accepts_both (root : CompiledNode X) :
    (checks.both checks').Accepts root ↔
      checks.Accepts root ∧ checks'.Accepts root := by
  induction root using CompiledNode.induction with
  | step index type below =>
    cases type with
    | branchNode config =>
      have children : ∀ branch ∈ config.branches,
          ((branch.childNode.map (checks.both checks').Accepts).Holds ↔
            (branch.childNode.map checks.Accepts).Holds ∧
              (branch.childNode.map checks'.Accepts).Holds) := by
        intro branch member
        have inline := forall_branches below branch member
        cases childEq : branch.childNode with
        | node child => exact inline child childEq
        | _ => exact (and_self_iff).symm
      rw [accepts_branchNode, accepts_branchNode, accepts_branchNode,
        forall₂_congr children, forall₂_and,
        actionPasses_both (forall_trees below)]
      change _ ∧ _ ∧ (checks.selections _ ∧ checks'.selections _) ∧ _ ↔ _
      tauto
    | stopNode => exact (and_self_iff).symm
    | populationNode config => simp only [accepts_mk]; rfl
    | rankedPopulationNode config => simp only [accepts_mk]; rfl
    | notSet => simp only [accepts_mk]; exact (and_self_iff).symm

/-! ## The shared checks -/

/-- The conditions that the builders of both languages check. -/
def shared : PartChecks X where
  selections := SelectionsPass X
  updateMatrix := UpdateMatrix.Passes
  sparseUpdateMatrix := SparseUpdateMatrix.Passes
  conditionalMerge := ConditionalMerge.Passes
  conditionalAssignment := ConditionalAssignment.Passes
  geometricShredder := GeometricShredder.Passes X
  multiplicity := Multiplicity.Passes X
  populationNode := PopulationNode.Passes
  rankedPopulationNode := RankedPopulationNode.Passes

end PartChecks

end VirtualPeople
