import VirtualPeople.Cc.AttributesUpdater
import VirtualPeople.Cc.PopulationNode
import VirtualPeople.Cc.RankedPopulationNode

/-!
# Model nodes

The tree that `ModelNode::Build` makes of a configuration, and its application
to an event.  A branch is generic in what stands for a node: in a built tree it
holds nodes, and `apply` reads it with the behaviour of each node in its place,
so that the code of a branch is written without recursion.
-/

namespace VirtualPeople.Cc

variable (X : Externals)

/-! ## Nodes -/

/-- A built update, over what stands for the roots of update trees. -/
inductive AttributesUpdaterInterface (Node : Type)
  | updateMatrix (updater : UpdateMatrixImpl X)
  | sparseUpdateMatrix (updater : SparseUpdateMatrixImpl X)
  | conditionalMerge (updater : ConditionalMergeImpl X)
  | conditionalAssignment (updater : ConditionalAssignmentImpl X)
  | geometricShredder (updater : GeometricShredderImpl X)
  | updateTree (root : Node)

/-- A built branch node, over what stands for its children. -/
structure BranchNodeImpl (Node : Type) where
  childNodes : List Node
  hashing : Option DistributedConsistentHashing
  randomSeed : String
  matcher : Option (FieldFiltersMatcher X)
  updaters : List (AttributesUpdaterInterface X Node)
  multiplicity : Option (MultiplicityImpl X)

/-- The nodes without children. -/
inductive LeafNode
  | stopNode
  | populationNode (node : PopulationNodeImpl)
  | rankedPopulationNode (node : RankedPopulationNodeImpl)

/-- A built node. -/
inductive ModelNode
  | branchNode (impl : BranchNodeImpl X ModelNode)
  | leafNode (leaf : LeafNode)

variable {X} {Node Node' : Type}

/-- The function is applied to the root of an update tree. -/
def AttributesUpdaterInterface.map (f : Node → Node') :
    AttributesUpdaterInterface X Node → AttributesUpdaterInterface X Node'
  | .updateMatrix updater => .updateMatrix updater
  | .sparseUpdateMatrix updater => .sparseUpdateMatrix updater
  | .conditionalMerge updater => .conditionalMerge updater
  | .conditionalAssignment updater => .conditionalAssignment updater
  | .geometricShredder updater => .geometricShredder updater
  | .updateTree root => .updateTree (f root)

/-- The function is applied to the children and the update trees. -/
def BranchNodeImpl.map (f : Node → Node') (impl : BranchNodeImpl X Node) :
    BranchNodeImpl X Node' where
  childNodes := impl.childNodes.map f
  hashing := impl.hashing
  randomSeed := impl.randomSeed
  matcher := impl.matcher
  updaters := impl.updaters.map (AttributesUpdaterInterface.map f)
  multiplicity := impl.multiplicity

/-! ## Folds and induction -/

namespace ModelNode

section Fold

variable {β : Type} (onBranch : BranchNodeImpl X β → β) (onLeaf : LeafNode → β)

mutual

/-- What `onBranch` makes of a node from what it makes of the nodes below. -/
def fold : ModelNode X → β
  | .branchNode impl => onBranch (foldBranch impl)
  | .leafNode leaf => onLeaf leaf

/-- The nodes below a branch node are folded. -/
def foldBranch : BranchNodeImpl X (ModelNode X) → BranchNodeImpl X β
  | ⟨childNodes, hashing, randomSeed, matcher, updaters, multiplicity⟩ =>
    ⟨foldChildNodes childNodes, hashing, randomSeed, matcher,
      foldUpdaters updaters, multiplicity⟩

/-- The children are folded. -/
def foldChildNodes : List (ModelNode X) → List β
  | [] => []
  | child :: childNodes => fold child :: foldChildNodes childNodes

/-- The update trees among the updaters are folded. -/
def foldUpdaters : List (AttributesUpdaterInterface X (ModelNode X)) →
    List (AttributesUpdaterInterface X β)
  | [] => []
  | updater :: updaters => foldUpdater updater :: foldUpdaters updaters

/-- The root of an update tree is folded. -/
def foldUpdater : AttributesUpdaterInterface X (ModelNode X) →
    AttributesUpdaterInterface X β
  | .updateMatrix updater => .updateMatrix updater
  | .sparseUpdateMatrix updater => .sparseUpdateMatrix updater
  | .conditionalMerge updater => .conditionalMerge updater
  | .conditionalAssignment updater => .conditionalAssignment updater
  | .geometricShredder updater => .geometricShredder updater
  | .updateTree root => .updateTree (fold root)

end

/-- Children are folded by mapping over them. -/
theorem foldChildNodes_eq (childNodes : List (ModelNode X)) :
    foldChildNodes onBranch onLeaf childNodes =
      childNodes.map (fold onBranch onLeaf) := by
  induction childNodes with
  | nil => simp [foldChildNodes]
  | cons child childNodes inductionHypothesis =>
    simp [foldChildNodes, inductionHypothesis]

/-- Updaters are folded by mapping over their trees. -/
theorem foldUpdaters_eq
    (updaters : List (AttributesUpdaterInterface X (ModelNode X))) :
    foldUpdaters onBranch onLeaf updaters =
      updaters.map (AttributesUpdaterInterface.map (fold onBranch onLeaf)) := by
  induction updaters with
  | nil => simp [foldUpdaters]
  | cons updater updaters inductionHypothesis =>
    rw [foldUpdaters, List.map_cons, inductionHypothesis]
    cases updater <;> simp [foldUpdater, AttributesUpdaterInterface.map]

/-- The fold of a branch node in terms of the nodes below it. -/
@[simp] theorem fold_branchNode (impl : BranchNodeImpl X (ModelNode X)) :
    fold onBranch onLeaf (.branchNode impl) =
      onBranch (impl.map (fold onBranch onLeaf)) := by
  obtain ⟨childNodes, hashing, randomSeed, matcher, updaters, multiplicity⟩ :=
    impl
  rw [fold, foldBranch, foldChildNodes_eq, foldUpdaters_eq]
  rfl

@[simp] theorem fold_leafNode (leaf : LeafNode) :
    fold onBranch onLeaf (.leafNode leaf : ModelNode X) = onLeaf leaf := by
  rw [fold]

end Fold

end ModelNode

/-- The root of the update tree, if the updater is one. -/
def AttributesUpdaterInterface.treeRoot :
    AttributesUpdaterInterface X Node → Option Node
  | .updateTree root => some root
  | _ => none

/-- A property of nodes holds when the leaves have it and it passes to each
branch from its children and the roots of its update trees. -/
theorem ModelNode.induction {P : ModelNode X → Prop}
    (leaf : ∀ leaf, P (.leafNode leaf))
    (branch : ∀ impl : BranchNodeImpl X (ModelNode X),
      (∀ child ∈ impl.childNodes, P child) →
      (∀ updater ∈ impl.updaters, ∀ root ∈ updater.treeRoot, P root) →
        P (.branchNode impl))
    (node : ModelNode X) : P node := by
  refine @ModelNode.rec X P
    (fun impl => (∀ child ∈ impl.childNodes, P child) ∧
      ∀ updater ∈ impl.updaters, ∀ root ∈ updater.treeRoot, P root)
    (fun childNodes => ∀ child ∈ childNodes, P child)
    (fun updaters =>
      ∀ updater ∈ updaters, ∀ root ∈ updater.treeRoot, P root)
    (fun updater => ∀ root ∈ updater.treeRoot, P root)
    (fun impl below => branch impl below.1 below.2) leaf ?impl ?noChild
    (fun _ _ head tail => List.forall_mem_cons.mpr ⟨head, tail⟩) ?noUpdater
    (fun _ _ head tail => List.forall_mem_cons.mpr ⟨head, tail⟩)
    ?matrix ?sparse ?merge ?assignment ?shredder ?tree node
  case impl => exact fun _ _ _ _ _ _ children trees => ⟨children, trees⟩
  case tree =>
    intro root holds other same
    rwa [← Option.some.inj same]
  all_goals simp [AttributesUpdaterInterface.treeRoot]

/-! ## Application -/

/-- The behaviour of a node: it changes the event, or fails. -/
abbrev Behaviour (X : Externals) := Step X.Event Unit

/-- `Apply` of a leaf. -/
def LeafNode.apply : LeafNode → Behaviour X
  | .stopNode => pure ()
  | .populationNode node => node.apply
  | .rankedPopulationNode node => node.apply

/-- `Update`; an update tree is applied to the event itself. -/
def AttributesUpdaterInterface.update :
    AttributesUpdaterInterface X (Behaviour X) → Behaviour X
  | .updateMatrix updater => .change updater.update
  | .sparseUpdateMatrix updater => .change updater.update
  | .conditionalMerge updater => .change updater.update
  | .conditionalAssignment updater => .change updater.update
  | .geometricShredder updater => .change updater.update
  | .updateTree root => root

/-- The event a behaviour leaves, when it is applied to a copy. -/
def applyToCopy (behaviour : Behaviour X) (event : X.Event) :
    Result X.Event :=
  match behaviour event with
  | .ok _ final => return final
  | .error fault _ => throw fault

/-- A copy is left as the event is. -/
theorem applyToCopy_of_ok {behaviour : Behaviour X} {event final : X.Event}
    (applied : behaviour event = .ok () final) :
    applyToCopy behaviour event = .ok final := by
  unfold applyToCopy
  rw [applied]
  rfl

/-- On a copy a behaviour fails as on the event. -/
theorem applyToCopy_of_error {behaviour : Behaviour X} {event final : X.Event}
    {fault : Fault} (failed : behaviour event = .error fault final) :
    applyToCopy behaviour event = .error fault := by
  unfold applyToCopy
  rw [failed]
  rfl

/-- What fails on a copy fails on the event. -/
theorem exists_of_applyToCopy_error {behaviour : Behaviour X} {event : X.Event}
    {fault : Fault} (failed : applyToCopy behaviour event = .error fault) :
    ∃ final, behaviour event = .error fault final := by
  cases run : behaviour event with
  | ok value final =>
    rw [applyToCopy_of_ok run] at failed
    contradiction
  | error other final =>
    rw [applyToCopy_of_error run] at failed
    rw [Except.error.inj failed]
    exact ⟨final, rfl⟩

namespace BranchNodeImpl

section Select

variable (impl : BranchNodeImpl X Node)

/-- The index of the selected child. -/
def selectIndex (event : X.Event) : Result ℤ :=
  match impl.hashing, impl.matcher with
  | some hashing, _ =>
    return hashing.hash X
      (impl.randomSeed ++ toString (event.actingFingerprint.getD 0))
  | none, some matcher =>
    let selectedIndex := matcher.getFirstMatch event
    if selectedIndex = kNoMatchingIndex then
      throw (invalidArgument "No condition matches the input event.")
    else return selectedIndex
  | none, none =>
    throw (internal "No select options is set for the BranchNode.")

/-- The child at the selected index. -/
def selectChild (event : X.Event) : Result Node := do
  let selectedIndex ← impl.selectIndex event
  if selectedIndex < 0 ∨ impl.childNodes.length ≤ selectedIndex then
    throw (internal "The returned index is out of range.")
  else elementAt impl.childNodes selectedIndex

end Select

/-- The clone of an event for one person. -/
def cloneEvent (multiplicity : MultiplicityImpl X) (event : X.Event)
    (personIndex : ℕ) : X.Event :=
  let fingerprint := multiplicity.getFingerprintForIndex
    (event.actingFingerprint.getD 0) personIndex
  X.setValueToProto .int32 { event with actingFingerprint := some fingerprint }
    multiplicity.personIndexField (Int32.ofNat personIndex)

/-- The event with the activities and pool assignments of a clone added. -/
def foldBack (event clone : X.Event) : X.Event :=
  { event with
    virtualPersonActivities :=
      event.virtualPersonActivities ++ clone.virtualPersonActivities
    poolAssignments := event.poolAssignments ++ clone.poolAssignments }

variable (impl : BranchNodeImpl X (Behaviour X))

/-- `ApplyChild`. -/
def applyChild : Behaviour X := do
  let event ← get
  let child ← Step.lift (impl.selectChild event)
  child

/-- `ApplyMultiplicity`: labels copies of the event, and folds what they were
given back. -/
def applyMultiplicity (multiplicity : MultiplicityImpl X) : Behaviour X := do
  let event ← get
  let cloneCount ← Step.lift (multiplicity.computeEventMultiplicity event)
  if cloneCount = 1 then
    -- No copy is made, but the index is still set.
    set (X.setValueToProto .int32 event multiplicity.personIndexField 0)
    impl.applyChild
  else
    let clones := (List.range cloneCount.toInt.toNat).map
      (cloneEvent multiplicity event)
    let labeled ← Step.lift (clones.mapM (applyToCopy impl.applyChild))
    set (labeled.foldl foldBack event)

/-- `BranchNodeImpl::Apply`. -/
def apply : Behaviour X :=
  match impl.multiplicity with
  | some multiplicity =>
    if impl.updaters.isEmpty then impl.applyMultiplicity multiplicity
    else
      throw (internal "BranchNode cannot have both updaters and multiplicity.")
  | none => do
    impl.updaters.forM AttributesUpdaterInterface.update
    impl.applyChild

end BranchNodeImpl

namespace ModelNode

/-- `ModelNode::Apply`. -/
def apply (node : ModelNode X) : Behaviour X :=
  node.fold BranchNodeImpl.apply LeafNode.apply

/-- A branch node applies the behaviours of the nodes below it. -/
@[simp] theorem apply_branchNode (impl : BranchNodeImpl X (ModelNode X)) :
    apply (.branchNode impl) = (impl.map apply).apply :=
  fold_branchNode _ _ impl

@[simp] theorem apply_leafNode (leaf : LeafNode) :
    apply (.leafNode leaf : ModelNode X) = leaf.apply :=
  fold_leafNode _ _ leaf

end ModelNode

end VirtualPeople.Cc
