import VirtualPeople.Messages

/-!
# Model configurations

`CompiledNode` and the messages below it, as the builders of both languages
read them.  A branch holds its child inline or refers to it by index, and an
update tree holds a whole model tree, so a configuration is a tree through two
kinds of edges; `CompiledNode.fold` is the one recursion over both, and
`CompiledNode.induction` the one induction.
-/

namespace VirtualPeople

/-- A pool of consecutive ids, `VirtualPersonPool` in the model message. -/
structure VirtualPersonPool where
  populationOffset : UInt64
  totalPopulation : UInt64
  deriving DecidableEq

/-- The configuration of a leaf that hashes an event to a person of its pools. -/
structure PopulationNode where
  pools : List VirtualPersonPool
  randomSeed : String
  deriving DecidableEq

/-- The enumeration is open: a message may hold a value it does not name. -/
inductive UnrankedMode
  | unspecified
  | disjoint
  | fullPool
  | unrecognized (value : Int32)
  deriving DecidableEq

/-- The configuration of a leaf with a ranked part at the start of its pool. -/
structure RankedPopulationNode where
  pools : List VirtualPersonPool
  randomSeed : String
  rankedSize : UInt64
  unrankedMode : UnrankedMode
  deriving DecidableEq

/-- Where the expected multiplicity of an event comes from: a number, or a
field. -/
inductive MultiplicityRef
  | expectedMultiplicity (value : Float)
  | expectedMultiplicityField (field : String)
  | notSet

/-- How many clones are made of an event, and which of its fields numbers them. -/
structure Multiplicity where
  multiplicityRef : MultiplicityRef
  personIndexField : Option String
  maxValue : Option Float
  capAtMax : Option Bool
  randomSeed : Option String

/-- An update by a matrix whose probabilities are listed row by row. -/
structure UpdateMatrix (X : Externals) where
  columns : List X.Event
  rows : List X.Event
  probabilities : List Float32
  hashFieldMask : Option (List String)
  passThroughNonMatches : Bool
  randomSeed : String

/-- A column of a sparse matrix: the attributes it is for, and its own rows. -/
structure SparseUpdateMatrixColumn (X : Externals) where
  columnAttrs : Option X.Event
  rows : List X.Event
  probabilities : List Float32

/-- An update by a matrix in which every column lists its own rows. -/
structure SparseUpdateMatrix (X : Externals) where
  columns : List (SparseUpdateMatrixColumn X)
  hashFieldMask : Option (List String)
  passThroughNonMatches : Bool
  randomSeed : String

/-- A condition, and what is merged into an event that meets it. -/
structure ConditionalMergeNode (X : Externals) where
  condition : Option X.FieldFilterProto
  update : Option X.Event

/-- An update that merges what belongs to the first condition that is met. -/
structure ConditionalMerge (X : Externals) where
  nodes : List (ConditionalMergeNode X)
  passThroughNonMatches : Bool

/-- A pair of field paths, the second of which takes the value of the first. -/
structure Assignment where
  sourceField : Option String
  targetField : Option String

/-- An update that makes its assignments if the condition is met. -/
structure ConditionalAssignment (X : Externals) where
  condition : Option X.FieldFilterProto
  assignments : List Assignment

/-- An update that divides the values of a field into groups of a random size. -/
structure GeometricShredder where
  psi : Float32
  randomnessField : String
  targetField : String
  randomSeed : String

/-! ## Nodes -/

/-- How a branch is selected, the `select_by` of the message. -/
inductive SelectBy (X : Externals)
  | chance (value : Float)
  | condition (filter : X.FieldFilterProto)
  | notSet

/-- The child of a branch, stated by its index or inline. -/
inductive ChildNode (Node : Type)
  | nodeIndex (index : UInt32)
  | node (node : Node)
  | notSet

/-- A branch of a node, over any kind of children. -/
structure Branch (X : Externals) (Node : Type) where
  childNode : ChildNode Node
  selectBy : SelectBy X

/-- An update of the attributes of an event, over any kind of update trees. -/
inductive AttributesUpdater (X : Externals) (Node : Type)
  | updateMatrix (config : UpdateMatrix X)
  | sparseUpdateMatrix (config : SparseUpdateMatrix X)
  | conditionalMerge (config : ConditionalMerge X)
  | conditionalAssignment (config : ConditionalAssignment X)
  | geometricShredder (config : GeometricShredder)
  | updateTree (root : Node)
  | notSet

/-- What a node does to an event before it chooses a branch. -/
inductive Action (X : Externals) (Node : Type)
  | updates (updates : List (AttributesUpdater X Node))
  | multiplicity (config : Multiplicity)
  | notSet

/-- A node that hands an event on to one of its branches. -/
structure BranchNode (X : Externals) (Node : Type) where
  branches : List (Branch X Node)
  randomSeed : String
  action : Action X Node

/-- The kinds of nodes, over any kind of nodes below. -/
inductive NodeType (X : Externals) (Node : Type)
  | branchNode (config : BranchNode X Node)
  | stopNode
  | populationNode (config : PopulationNode)
  | rankedPopulationNode (config : RankedPopulationNode)
  | notSet

/-- A node of a model, with the nodes below it inline or by their indexes. -/
inductive CompiledNode (X : Externals)
  | mk (index : Option UInt32) (type : NodeType X (CompiledNode X))

namespace CompiledNode

variable {X : Externals}

/-- The index of the node, if it has one. -/
def index : CompiledNode X → Option UInt32
  | .mk index _ => index

/-- What the node is. -/
def type : CompiledNode X → NodeType X (CompiledNode X)
  | .mk _ type => type

end CompiledNode

/-! ## Maps and folds -/

section Map

variable {X : Externals} {Node Node' : Type}

/-- The function is applied to an inline child. -/
def ChildNode.map (f : Node → Node') : ChildNode Node → ChildNode Node'
  | .nodeIndex index => .nodeIndex index
  | .node child => .node (f child)
  | .notSet => .notSet

/-- The function is applied to the child of the branch. -/
def Branch.map (f : Node → Node') (branch : Branch X Node) : Branch X Node' where
  childNode := branch.childNode.map f
  selectBy := branch.selectBy

/-- The function is applied to the root of an update tree. -/
def AttributesUpdater.map (f : Node → Node') :
    AttributesUpdater X Node → AttributesUpdater X Node'
  | .updateMatrix config => .updateMatrix config
  | .sparseUpdateMatrix config => .sparseUpdateMatrix config
  | .conditionalMerge config => .conditionalMerge config
  | .conditionalAssignment config => .conditionalAssignment config
  | .geometricShredder config => .geometricShredder config
  | .updateTree root => .updateTree (f root)
  | .notSet => .notSet

/-- The function is applied to the update trees of the action. -/
def Action.map (f : Node → Node') : Action X Node → Action X Node'
  | .updates updaters => .updates (updaters.map (AttributesUpdater.map f))
  | .multiplicity config => .multiplicity config
  | .notSet => .notSet

/-- The function is applied to the inline children and to the update trees. -/
def BranchNode.map (f : Node → Node') (config : BranchNode X Node) :
    BranchNode X Node' where
  branches := config.branches.map (Branch.map f)
  randomSeed := config.randomSeed
  action := config.action.map f

/-- The function is applied to the nodes right below. -/
def NodeType.map (f : Node → Node') : NodeType X Node → NodeType X Node'
  | .branchNode config => .branchNode (config.map f)
  | .stopNode => .stopNode
  | .populationNode config => .populationNode config
  | .rankedPopulationNode config => .rankedPopulationNode config
  | .notSet => .notSet

end Map

namespace CompiledNode

section Fold

variable {X : Externals} {β : Type} (f : Option UInt32 → NodeType X β → β)

mutual

/-- What `f` makes of a node from what it makes of the inline nodes. -/
def fold : CompiledNode X → β
  | .mk index type => f index (foldType type)

/-- The nodes right below a node are folded. -/
def foldType : NodeType X (CompiledNode X) → NodeType X β
  | .branchNode config => .branchNode (foldBranchNode config)
  | .stopNode => .stopNode
  | .populationNode config => .populationNode config
  | .rankedPopulationNode config => .rankedPopulationNode config
  | .notSet => .notSet

/-- The nodes right below a branch node are folded. -/
def foldBranchNode : BranchNode X (CompiledNode X) → BranchNode X β
  | ⟨branches, randomSeed, action⟩ =>
    ⟨foldBranches branches, randomSeed, foldAction action⟩

/-- The inline children of the branches are folded. -/
def foldBranches : List (Branch X (CompiledNode X)) → List (Branch X β)
  | [] => []
  | branch :: branches => foldBranch branch :: foldBranches branches

/-- The inline child of a branch is folded. -/
def foldBranch : Branch X (CompiledNode X) → Branch X β
  | ⟨childNode, selectBy⟩ => ⟨foldChildNode childNode, selectBy⟩

/-- An inline child is folded. -/
def foldChildNode : ChildNode (CompiledNode X) → ChildNode β
  | .nodeIndex index => .nodeIndex index
  | .node child => .node (fold child)
  | .notSet => .notSet

/-- The update trees of an action are folded. -/
def foldAction : Action X (CompiledNode X) → Action X β
  | .updates updates => .updates (foldUpdates updates)
  | .multiplicity config => .multiplicity config
  | .notSet => .notSet

/-- The update trees among the updates are folded. -/
def foldUpdates : List (AttributesUpdater X (CompiledNode X)) →
    List (AttributesUpdater X β)
  | [] => []
  | updater :: updates => foldUpdater updater :: foldUpdates updates

/-- The root of an update tree is folded. -/
def foldUpdater : AttributesUpdater X (CompiledNode X) → AttributesUpdater X β
  | .updateMatrix config => .updateMatrix config
  | .sparseUpdateMatrix config => .sparseUpdateMatrix config
  | .conditionalMerge config => .conditionalMerge config
  | .conditionalAssignment config => .conditionalAssignment config
  | .geometricShredder config => .geometricShredder config
  | .updateTree root => .updateTree (fold root)
  | .notSet => .notSet

end

theorem foldChildNode_eq (child : ChildNode (CompiledNode X)) :
    foldChildNode f child = child.map (fold f) := by
  cases child <;> simp [foldChildNode, ChildNode.map]

/-- Branches are folded by mapping over their children. -/
theorem foldBranches_eq (branches : List (Branch X (CompiledNode X))) :
    foldBranches f branches = branches.map (Branch.map (fold f)) := by
  induction branches with
  | nil => simp [foldBranches]
  | cons branch branches inductionHypothesis =>
    obtain ⟨child, selectBy⟩ := branch
    simp [foldBranches, foldBranch, foldChildNode_eq, Branch.map,
      inductionHypothesis]

/-- Updates are folded by mapping over their trees. -/
theorem foldUpdates_eq (updates : List (AttributesUpdater X (CompiledNode X))) :
    foldUpdates f updates =
      updates.map (AttributesUpdater.map (fold f)) := by
  induction updates with
  | nil => simp [foldUpdates]
  | cons updater updates inductionHypothesis =>
    rw [foldUpdates, List.map_cons, inductionHypothesis]
    cases updater <;> simp [foldUpdater, AttributesUpdater.map]

/-- The fold of a node in terms of the nodes right below it. -/
@[simp] theorem fold_mk (index : Option UInt32) (type : NodeType X (CompiledNode X)) :
    fold f (.mk index type) = f index (type.map (fold f)) := by
  rw [fold]
  cases type with
  | branchNode config =>
    obtain ⟨branches, randomSeed, action⟩ := config
    cases action <;> simp [foldType, foldBranchNode, foldAction,
      foldBranches_eq, foldUpdates_eq, NodeType.map, BranchNode.map,
      Action.map]
  | _ => simp [foldType, NodeType.map]

end Fold

end CompiledNode

/-! ## Induction -/

section Children

variable {X : Externals} {Node : Type}

/-- The child, if it is inline. -/
def ChildNode.inlined : ChildNode Node → Option Node
  | .node child => some child
  | _ => none

/-- The root of the update tree, if the update is one. -/
def AttributesUpdater.treeRoot : AttributesUpdater X Node → Option Node
  | .updateTree root => some root
  | _ => none

/-- The roots of the update trees of an action. -/
def Action.trees : Action X Node → List Node
  | .updates updaters => updaters.filterMap AttributesUpdater.treeRoot
  | _ => []

/-- The nodes a node holds inline: the children of its branches and the roots
of its update trees. -/
def BranchNode.inlineNodes (config : BranchNode X Node) : List Node :=
  config.branches.filterMap (·.childNode.inlined) ++ config.action.trees

/-- The nodes that stand right below a node, in its branches and update trees. -/
def NodeType.inlineNodes : NodeType X Node → List Node
  | .branchNode config => config.inlineNodes
  | _ => []

variable {Node' : Type} (f : Node → Node')

/-- The trees of a mapped action are the mapped trees. -/
@[simp] theorem Action.trees_map (action : Action X Node) :
    (action.map f).trees = action.trees.map f := by
  cases action with
  | updates updates =>
    simp only [Action.map, Action.trees, List.filterMap_map, List.map_filterMap]
    congr 1
    funext updater
    cases updater <;> rfl
  | _ => rfl

/-- The nodes right below a mapped node are the mapped nodes. -/
@[simp] theorem BranchNode.inlineNodes_map (config : BranchNode X Node) :
    (config.map f).inlineNodes = config.inlineNodes.map f := by
  unfold BranchNode.inlineNodes
  simp only [BranchNode.map, Action.trees_map, List.filterMap_map,
    List.map_append, List.map_filterMap]
  congr 2
  funext branch
  obtain ⟨childNode, selectBy⟩ := branch
  cases childNode <;> rfl

end Children

/-! ## Maps after maps -/

section MapMap

variable {X : Externals} {Node Node' Node'' : Type} (g : Node' → Node'')
  (f : Node → Node')

@[simp] theorem ChildNode.map_map (child : ChildNode Node) :
    (child.map f).map g = child.map fun node => g (f node) := by
  cases child <;> rfl

@[simp] theorem Action.map_map (action : Action X Node) :
    (action.map f).map g = action.map fun root => g (f root) := by
  cases action with
  | updates updates =>
    simp only [Action.map, List.map_map]
    congr 2
    funext updater
    cases updater <;> rfl
  | _ => rfl

/-- Maps over the nodes right below compose. -/
@[simp] theorem NodeType.map_map (type : NodeType X Node) :
    (type.map f).map g = type.map fun node => g (f node) := by
  cases type with
  | branchNode config =>
    simp only [NodeType.map, BranchNode.map, List.map_map, Action.map_map]
    congr 3
    funext branch
    exact congrArg (Branch.mk · branch.selectBy)
      (ChildNode.map_map g f branch.childNode)
  | _ => rfl

end MapMap

/-! ## Maps that agree on the inline nodes -/

section MapCongr

variable {X : Externals} {Node Node' : Type} {f g : Node → Node'}

/-- Functions that agree on the trees map the action alike. -/
theorem Action.map_congr {action : Action X Node}
    (trees : ∀ root ∈ action.trees, f root = g root) :
    action.map f = action.map g := by
  cases action with
  | updates updates =>
    have updaterEq : ∀ updater ∈ updates,
        AttributesUpdater.map f updater = AttributesUpdater.map g updater := by
      intro updater member
      cases updater with
      | updateTree root =>
        exact congrArg AttributesUpdater.updateTree (trees root
          (List.mem_filterMap.mpr ⟨_, member, rfl⟩))
      | _ => rfl
    rw [Action.map, Action.map, List.map_congr_left updaterEq]
  | _ => rfl

/-- Functions that agree right below the node map it alike. -/
theorem BranchNode.map_congr {config : BranchNode X Node}
    (below : ∀ child ∈ config.inlineNodes, f child = g child) :
    config.map f = config.map g := by
  have branchEq : ∀ branch ∈ config.branches,
      Branch.map f branch = Branch.map g branch := by
    intro branch member
    obtain ⟨childNode, selectBy⟩ := branch
    cases childNode with
    | node child =>
      have same := below child (List.mem_append_left _
        (List.mem_filterMap.mpr ⟨_, member, rfl⟩))
      rw [Branch.map, ChildNode.map, same]
      rfl
    | _ => rfl
  rw [BranchNode.map, BranchNode.map, List.map_congr_left branchEq,
    Action.map_congr fun root member =>
      below root (List.mem_append_right _ member)]

/-- Functions that agree right below the node map it alike. -/
theorem NodeType.map_congr {type : NodeType X Node}
    (below : ∀ child ∈ type.inlineNodes, f child = g child) :
    type.map f = type.map g := by
  cases type with
  | branchNode config =>
    exact congrArg NodeType.branchNode (BranchNode.map_congr below)
  | _ => rfl

end MapCongr

/-- A property of nodes holds when it passes from the inline nodes of each
node to the node. -/
theorem CompiledNode.induction {X : Externals} {P : CompiledNode X → Prop}
    (step : ∀ index type, (∀ child ∈ type.inlineNodes, P child) →
      P (.mk index type)) (node : CompiledNode X) : P node := by
  refine @CompiledNode.rec X P
    (fun type => ∀ child ∈ type.inlineNodes, P child)
    (fun config => ∀ child ∈ config.inlineNodes, P child)
    (fun branches =>
      ∀ child ∈ branches.filterMap (·.childNode.inlined), P child)
    (fun action => ∀ child ∈ action.trees, P child)
    (fun branch => ∀ child ∈ branch.childNode.inlined, P child)
    (fun updates =>
      ∀ child ∈ updates.filterMap AttributesUpdater.treeRoot, P child)
    (fun child => ∀ node ∈ child.inlined, P node)
    (fun updater => ∀ root ∈ updater.treeRoot, P root)
    step (fun _ fromConfig => fromConfig) ?stop ?population ?ranked ?noType
    ?branchNode ?noBranch ?branches ?updates ?multiplicity ?noAction
    (fun _ _ fromChild => fromChild) ?noUpdater ?updaters ?byIndex ?inline
    ?noChild ?matrix ?sparse ?merge ?assignment ?shredder ?tree ?noUpdate node
  case branchNode =>
    intro branches randomSeed action fromBranches fromAction child member
    rcases List.mem_append.mp member with inBranches | inAction
    · exact fromBranches child inBranches
    · exact fromAction child inAction
  case branches =>
    intro branch branches fromBranch fromBranches child member
    rw [List.filterMap_cons] at member
    split at member
    · exact fromBranches child member
    · rename_i inlined inlinedEq
      rcases List.mem_cons.mp member with rfl | inRest
      · exact fromBranch child inlinedEq
      · exact fromBranches child inRest
  case updaters =>
    intro updater updaters fromUpdater fromUpdaters root member
    rw [List.filterMap_cons] at member
    split at member
    · exact fromUpdaters root member
    · rename_i tree treeEq
      rcases List.mem_cons.mp member with rfl | inRest
      · exact fromUpdater root treeEq
      · exact fromUpdaters root inRest
  case updates => exact fun _ fromUpdaters => fromUpdaters
  case inline =>
    intro child holds other same
    rwa [← Option.some.inj same]
  case tree =>
    intro root holds other same
    rwa [← Option.some.inj same]
  all_goals simp [NodeType.inlineNodes, Action.trees, ChildNode.inlined,
    AttributesUpdater.treeRoot]

section Below

variable {X : Externals} {P : CompiledNode X → Prop}
  {config : BranchNode X (CompiledNode X)}

/-- A property of all nodes below a node holds of the inline child of each
branch. -/
theorem forall_branches
    (below : ∀ child ∈ (NodeType.branchNode config).inlineNodes, P child) :
    ∀ branch ∈ config.branches, ∀ child,
      branch.childNode = .node child → P child := by
  intro branch member child isChild
  refine below child (List.mem_append_left _ (List.mem_filterMap.mpr
    ⟨branch, member, ?_⟩))
  rw [isChild]
  rfl

/-- What holds right below a node holds of the roots of its update trees. -/
theorem forall_trees
    (below : ∀ child ∈ (NodeType.branchNode config).inlineNodes, P child) :
    ∀ root ∈ config.action.trees, P root :=
  fun root member => below root (List.mem_append_right _ member)

end Below

end VirtualPeople
