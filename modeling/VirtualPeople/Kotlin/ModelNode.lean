import VirtualPeople.Cc.ModelBuilder
import VirtualPeople.Kotlin.AttributesUpdater
import VirtualPeople.Kotlin.PopulationNode
import VirtualPeople.Kotlin.RankedPopulationNode

/-!
# Model nodes, in Kotlin

A node of the Kotlin library is known by what it does to an event, and so is an
updater: each is its one abstract function.  Branches and update trees hold the
functions of the nodes below them.
-/

namespace VirtualPeople.Kotlin

variable (X : Externals)

/-- The interface of a built node, through which its kind is not seen. -/
structure ModelNode where
  apply : Step X.Event Unit

/-- The interface of a built update. -/
structure AttributesUpdaterInterface where
  update : Step X.Event Unit

/-- A built branch node. -/
structure BranchNodeImpl where
  childNodes : List (ModelNode X)
  hashing : Option DistributedConsistentHashing
  randomSeed : String
  matcher : Option (FieldFiltersMatcher X)
  updaters : List (AttributesUpdaterInterface X)
  multiplicity : Option (MultiplicityImpl X)

variable {X}

namespace BranchNodeImpl

/-- The clone of an event for one person. -/
def cloneEvent (multiplicity : MultiplicityImpl X) (event : X.Event)
    (personIndex : ℕ) : X.Event :=
  let originalFingerprint := (event.actingFingerprint.getD 0).toInt64.toUInt64
  let cloneFingerprint :=
    multiplicity.getFingerprintForIndex originalFingerprint personIndex
  X.setValueToProto .int32
    { event with actingFingerprint := some cloneFingerprint.toInt64.toUInt64 }
    multiplicity.personIndexField (Int32.ofNat personIndex)

/-- The event with the activities and pool assignments of a clone added. -/
def foldBack (event clone : X.Event) : X.Event :=
  { event with
    virtualPersonActivities :=
      event.virtualPersonActivities ++ clone.virtualPersonActivities
    poolAssignments := event.poolAssignments ++ clone.poolAssignments }

variable (impl : BranchNodeImpl X)

/-- The index that the hash or the conditions select. -/
def selectedIndex (event : X.Event) : Result ℤ :=
  match impl.hashing, impl.matcher with
  | some hashing, _ =>
    return hashing.hash X (impl.randomSeed ++
      toString (event.actingFingerprint.getD 0).toInt64.toUInt64)
  | none, some matcher => return matcher.getFirstMatch event
  | none, none =>
    throw (.illegalState "No select options is set for the BranchNode.")

/-- The child at the selected index. -/
def selectChild (event : X.Event) : Result (ModelNode X) := do
  let selectedIndex ← impl.selectedIndex event
  if selectedIndex = -1 then
    throw (.illegalState "No condition matches the input event.")
  else if selectedIndex < 0 ∨ impl.childNodes.length ≤ selectedIndex then
    throw (.illegalState "The returned index is out of range.")
  else Cc.elementAt impl.childNodes selectedIndex

/-- `applyChild`. -/
def applyChild : Step X.Event Unit := do
  let event ← get
  let child ← Step.lift (impl.selectChild event)
  child.apply

/-- One round of the loop over the clones. -/
def applyToClone (clone : X.Event) : Step X.Event Unit := do
  let labeled ← Step.lift (Cc.applyToCopy impl.applyChild clone)
  modify fun event => foldBack event labeled

/-- `applyMultiplicity`: labels copies of the event, and folds what they were
given back. -/
def applyMultiplicity (multiplicity : MultiplicityImpl X) :
    Step X.Event Unit := do
  let event ← get
  let cloneCount ← Step.lift (multiplicity.computeEventMultiplicity event)
  if cloneCount = 1 then
    -- No copy is made, but the index is still set.
    set (X.setValueToProto .int32 event multiplicity.personIndexField 0)
    impl.applyChild
  else
    let clones := (List.range cloneCount.toInt.toNat).map
      (cloneEvent multiplicity event)
    clones.forM impl.applyToClone

/-- `BranchNodeImpl.apply`. -/
def apply : Step X.Event Unit :=
  match impl.multiplicity with
  | some multiplicity =>
    if impl.updaters.isEmpty then impl.applyMultiplicity multiplicity
    else
      throw (.illegalState
        "BranchNode cannot have both updaters and multiplicity.")
  | none => do
    impl.updaters.forM AttributesUpdaterInterface.update
    impl.applyChild

end BranchNodeImpl

/-! ## Building -/

/-- The built nodes that have no parent yet, by index. -/
abbrev NodeRefs (X : Externals) := AList fun _ : UInt32 => ModelNode X

/-- What builds a node and takes the nodes it refers to out of the map. -/
abbrev Builder (X : Externals) := Step (NodeRefs X) (ModelNode X)

/-- `ModelNode.build` without nodes to refer to. -/
def Builder.alone (build : Builder X) : Result (ModelNode X) :=
  match build ∅ with
  | .ok node _ => return node
  | .error fault _ => throw fault

/-- `AttributesUpdaterInterface.build`. -/
def AttributesUpdaterInterface.build :
    AttributesUpdater X (Builder X) → Result (AttributesUpdaterInterface X)
  | .updateMatrix config => do
    let updater ← UpdateMatrixImpl.build config
    return ⟨.change updater.update⟩
  | .sparseUpdateMatrix config => do
    let updater ← SparseUpdateMatrixImpl.build config
    return ⟨.change updater.update⟩
  | .conditionalMerge config => do
    let updater ← ConditionalMergeImpl.build config
    return ⟨.change updater.update⟩
  | .conditionalAssignment config => do
    let updater ← ConditionalAssignmentImpl.build config
    return ⟨.change updater.update⟩
  | .updateTree root => do
    let root ← root.alone
    return ⟨root.apply⟩
  | .geometricShredder config => do
    let updater ← GeometricShredderImpl.build config
    return ⟨.change updater.update⟩
  | .notSet => throw (.illegalState "config.update is not set.")

namespace BranchNodeImpl

/-- The child that the branch refers to or contains. -/
def buildChildNode (branch : Branch X (Builder X)) : Builder X :=
  match branch.childNode with
  | .nodeIndex index => do
    let nodeRefs ← get
    match nodeRefs.lookup index with
    | some node =>
      set (nodeRefs.erase index)
      return node
    | none => throw (.illegalState ("The ModelNode object of the child node " ++
      "index " ++ toString index ++ " is not provided."))
  | .node build => build
  | .notSet =>
    throw (.illegalState "BranchNode must have one of node_index and node.")

/-- The selection of the first branch decides, and the others must follow. -/
def buildSelection (selections : List (SelectBy X)) :
    Result (Option DistributedConsistentHashing ×
      Option (FieldFiltersMatcher X)) :=
  let selectByCase := (selections.head?.map SelectBy.selectByCase).getD .notSet
  if selections.any fun selection => selection.selectByCase ≠ selectByCase then
    throw (.illegalState "All branches should use the same select_by type.")
  else
    match selectByCase with
    | .chance => do
      let distribution := selections.mapIdx fun index selection =>
        (⟨index, selection.chanceValue⟩ : Cc.DistributionChoice)
      let hashing ← DistributedConsistentHashing.new distribution
      return (some hashing, none)
    | .condition => do
      let filterConfigs := selections.filterMap SelectBy.conditionFilter
      let matcher ← FieldFiltersMatcher.build filterConfigs
      return (none, some matcher)
    | .notSet => throw
      (.illegalState "BranchNode must have one of chance and condition.")

/-- The updates of the action, built in order. -/
def buildUpdaters :
    Action X (Builder X) → Result (List (AttributesUpdaterInterface X))
  | .updates updates => updates.mapM AttributesUpdaterInterface.build
  | .multiplicity _ => return []
  | .notSet => return []

/-- The multiplicity of the action, built. -/
def buildMultiplicity :
    Action X (Builder X) → Result (Option (MultiplicityImpl X))
  | .multiplicity config => do
    let multiplicity ← MultiplicityImpl.build config
    return some multiplicity
  | .updates _ => return none
  | .notSet => return none

/-- What follows the children, which no longer looks at the references. -/
def assemble (config : BranchNode X (Builder X))
    (childNodes : List (ModelNode X)) : Result (BranchNodeImpl X) := do
  let (hashing, matcher) ← buildSelection (config.branches.map (·.selectBy))
  let updaters ← buildUpdaters config.action
  let multiplicity ← buildMultiplicity config.action
  return ⟨childNodes, hashing, config.randomSeed, matcher, updaters,
    multiplicity⟩

/-- `BranchNodeImpl.build`; children are taken before anything else is checked. -/
def build (config : BranchNode X (Builder X)) :
    Step (NodeRefs X) (BranchNodeImpl X) :=
  if config.branches.length = 0 then
    throw (.illegalState "BranchNode must have at least 1 branch.")
  else do
    let childNodes ← config.branches.mapM buildChildNode
    Step.lift (assemble config childNodes)

end BranchNodeImpl

namespace ModelNode

/-- The builder of a node from those of its inline nodes. -/
def buildType : NodeType X (Builder X) → Builder X
  | .branchNode config => do
    let impl ← BranchNodeImpl.build config
    return ⟨impl.apply⟩
  | .stopNode => return ⟨pure ()⟩
  | .populationNode config => do
    let node ← Step.lift (PopulationNodeImpl.buildFromConfig config)
    return ⟨node.apply⟩
  | .rankedPopulationNode config => do
    let node ← Step.lift (RankedPopulationNodeImpl.buildFromConfig config)
    return ⟨node.apply⟩
  | .notSet => throw (.illegalState "Node type is not set.")

/-- `ModelNode.build`. -/
def build (config : CompiledNode X) : Builder X :=
  config.fold fun _ type => buildType type

@[simp] theorem build_mk (index : Option UInt32)
    (type : NodeType X (CompiledNode X)) :
    build (.mk index type) = buildType (type.map build) :=
  CompiledNode.fold_mk _ index type

end ModelNode

end VirtualPeople.Kotlin
