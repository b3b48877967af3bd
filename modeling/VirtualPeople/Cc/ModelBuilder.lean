import VirtualPeople.Cc.ModelNode

/-!
# Building model nodes

`ModelNode::Build` and what it calls.  A builder takes the nodes that were
built before, by index, and removes those that become children.  As with the
application of nodes, the code of a branch is written for a configuration that
holds the builders of its inline nodes.
-/

namespace VirtualPeople

/-! ## Selection cases -/

/-- The case of `select_by` that is set. -/
inductive SelectByCase
  | chance
  | condition
  | notSet
  deriving DecidableEq

namespace SelectBy

variable {X : Externals}

/-- The case of a selection. -/
def selectByCase : SelectBy X → SelectByCase
  | .chance _ => .chance
  | .condition _ => .condition
  | .notSet => .notSet

/-- The chance of a branch, zero when it is not set. -/
def chanceValue : SelectBy X → Float
  | .chance value => value
  | _ => 0.0

/-- The filter of a selection by condition. -/
def conditionFilter : SelectBy X → Option X.FieldFilterProto
  | .condition filter => some filter
  | _ => none

end SelectBy

namespace Cc

variable {X : Externals} {Node : Type}

/-- The built nodes that have no parent yet, by index. -/
abbrev NodeRefs (X : Externals) := AList fun _ : UInt32 => ModelNode X

/-- What builds a node and takes the nodes it refers to out of the map. -/
abbrev Builder (X : Externals) := Step (NodeRefs X) (ModelNode X)

/-! ## Branches -/

/-- `AppendChildNode`: the child that the branch refers to or contains. -/
def appendChildNode (branch : Branch X (Builder X)) : Builder X :=
  match branch.childNode with
  | .nodeIndex index => do
    let nodeRefs ← get
    match nodeRefs.lookup index with
    | some node =>
      set (nodeRefs.erase index)
      return node
    | none => throw (invalidArgument
      "The ModelNode object of the child node index is not provided.")
  | .node build => build
  | .notSet =>
    throw (invalidArgument "BranchNode must have one of node_index and node.")

/-- `BuildHashing`: the distribution over the branches. -/
def buildHashing (selections : List (SelectBy X)) :
    Result DistributedConsistentHashing :=
  DistributedConsistentHashing.build
    (enumerateChoices (selections.map SelectBy.chanceValue))

/-- `BuildMatcher`: the conditions of the branches. -/
def buildMatcher (selections : List (SelectBy X)) :
    Result (FieldFiltersMatcher X) :=
  FieldFiltersMatcher.build (selections.filterMap SelectBy.conditionFilter)

/-- The selection of the first branch decides, and the others must follow. -/
def buildSelection (selections : List (SelectBy X)) :
    Result (Option DistributedConsistentHashing ×
      Option (FieldFiltersMatcher X)) :=
  let selectByCase := (selections.head?.map SelectBy.selectByCase).getD .notSet
  if selections.any fun selection => selection.selectByCase ≠ selectByCase then
    throw (invalidArgument "All branches should use the same select_by type.")
  else
    match selectByCase with
    | .chance => do
      let hashing ← buildHashing selections
      return (some hashing, none)
    | .condition => do
      let matcher ← buildMatcher selections
      return (none, some matcher)
    | .notSet => throw
      (invalidArgument "BranchNode must have one of chance and condition.")

/-- `ModelNode::Build` without nodes to refer to. -/
def Builder.alone (build : Builder X) : Result (ModelNode X) :=
  match build ∅ with
  | .ok node _ => return node
  | .error fault _ => throw fault

/-- What is built alone is built from no nodes to refer to. -/
theorem Builder.alone_eq_ok_iff {build : Builder X} {node : ModelNode X} :
    build.alone = .ok node ↔ ∃ refs, build ∅ = .ok node refs := by
  unfold Builder.alone
  constructor
  · intro alone
    split at alone
    · rename_i built refs run
      rw [← Except.ok.inj alone]
      exact ⟨refs, run⟩
    · contradiction
  · rintro ⟨refs, run⟩
    rw [run]
    rfl

/-- A builder that fails without nodes to refer to fails alone. -/
theorem Builder.alone_of_error {build : Builder X} {fault : Fault}
    {refs : NodeRefs X} (failed : build ∅ = .error fault refs) :
    build.alone = .error fault := by
  unfold Builder.alone
  rw [failed]
  rfl

@[simp] theorem Builder.alone_lift (result : Result (ModelNode X)) :
    Builder.alone (Step.lift result) = result := by
  cases result <;> rfl

/-- `AttributesUpdaterInterface::Build`. -/
def AttributesUpdaterInterface.build :
    AttributesUpdater X (Builder X) →
      Result (AttributesUpdaterInterface X (ModelNode X))
  | .updateMatrix config => do
    let updater ← UpdateMatrixImpl.build config
    return .updateMatrix updater
  | .sparseUpdateMatrix config => do
    let updater ← SparseUpdateMatrixImpl.build config
    return .sparseUpdateMatrix updater
  | .conditionalMerge config => do
    let updater ← ConditionalMergeImpl.build config
    return .conditionalMerge updater
  | .updateTree root => do
    -- The nodes of the tree around it are out of reach.
    let root ← root.alone
    return .updateTree root
  | .conditionalAssignment config => do
    let updater ← ConditionalAssignmentImpl.build config
    return .conditionalAssignment updater
  | .geometricShredder config => do
    let updater ← GeometricShredderImpl.build config
    return .geometricShredder updater
  | .notSet => throw (invalidArgument "config.update is not set.")

/-- The updaters and the multiplicity, of which an action sets one. -/
def buildAction : Action X (Builder X) →
    Result (List (AttributesUpdaterInterface X (ModelNode X)) ×
      Option (MultiplicityImpl X))
  | .updates updates => do
    let updaters ← updates.mapM AttributesUpdaterInterface.build
    return (updaters, none)
  | .multiplicity config => do
    let multiplicity ← MultiplicityImpl.build config
    return ([], some multiplicity)
  | .notSet => return ([], none)

/-- The part of `Build` after the child nodes. -/
def BranchNodeImpl.assemble (selections : List (SelectBy X))
    (randomSeed : String) (action : Action X (Builder X))
    (childNodes : List (ModelNode X)) :
    Result (BranchNodeImpl X (ModelNode X)) := do
  let (hashing, matcher) ← buildSelection selections
  let (updaters, multiplicity) ← buildAction action
  return ⟨childNodes, hashing, randomSeed, matcher, updaters, multiplicity⟩

/-- The parts that an assembled branch node is made of. -/
theorem BranchNodeImpl.assemble_eq_ok_iff {selections : List (SelectBy X)}
    {randomSeed : String} {action : Action X (Builder X)}
    {childNodes : List (ModelNode X)} {impl : BranchNodeImpl X (ModelNode X)} :
    assemble selections randomSeed action childNodes = .ok impl ↔
      buildSelection selections = .ok (impl.hashing, impl.matcher) ∧
      buildAction action = .ok (impl.updaters, impl.multiplicity) ∧
      impl.childNodes = childNodes ∧ impl.randomSeed = randomSeed := by
  obtain ⟨implChildNodes, hashing, implRandomSeed, matcher, updaters,
    multiplicity⟩ := impl
  unfold assemble
  simp only [bind_eq_ok_iff, Prod.exists]
  constructor
  · rintro ⟨_, _, selection, _, _, builtAction, same⟩
    obtain ⟨rfl, rfl, rfl, rfl, rfl, rfl⟩ :=
      BranchNodeImpl.mk.inj (Except.ok.inj same)
    exact ⟨selection, builtAction, rfl, rfl⟩
  · rintro ⟨selection, builtAction, rfl, rfl⟩
    exact ⟨hashing, matcher, selection, updaters, multiplicity, builtAction, rfl⟩

/-- `BranchNodeImpl::Build`; children are taken before anything else is checked. -/
def BranchNodeImpl.build (config : BranchNode X (Builder X)) :
    Step (NodeRefs X) (BranchNodeImpl X (ModelNode X)) :=
  if config.branches.length = 0 then
    throw (invalidArgument "BranchNode must have at least 1 branch.")
  else do
    let childNodes ← config.branches.mapM appendChildNode
    Step.lift (assemble (config.branches.map (·.selectBy)) config.randomSeed
      config.action childNodes)

/-! ## Nodes -/

namespace ModelNode

/-- The builder of a node from those of its inline nodes. -/
def buildType : NodeType X (Builder X) → Builder X
  | .branchNode config => do
    let impl ← BranchNodeImpl.build config
    return .branchNode impl
  | .stopNode => return .leafNode .stopNode
  | .populationNode config => do
    let node ← Step.lift (PopulationNodeImpl.buildFromConfig config)
    return .leafNode (.populationNode node)
  | .rankedPopulationNode config => do
    let node ← Step.lift (RankedPopulationNodeImpl.buildFromConfig config)
    return .leafNode (.rankedPopulationNode node)
  | .notSet => throw (invalidArgument "Node type is not set.")

/-- `ModelNode::Build`. -/
def build (config : CompiledNode X) : Builder X :=
  config.fold fun _ type => buildType type

/-- A node is built from the builders of the nodes right below it. -/
@[simp] theorem build_mk (index : Option UInt32)
    (type : NodeType X (CompiledNode X)) :
    build (.mk index type) = buildType (type.map build) :=
  CompiledNode.fold_mk _ index type

end ModelNode

end Cc

end VirtualPeople
