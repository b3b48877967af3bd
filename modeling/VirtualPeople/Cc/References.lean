import VirtualPeople.Cc.ModelBuilder

/-!
# References between nodes

A builder takes the nodes it refers to out of a table.  What it builds is what
it would build by looking the nodes up and leaving them where they are, and it
succeeds when in addition no index is used twice.  `resolve` is the building
with nodes that are only looked up; references that it resolves can also be
replaced in the configuration.
-/

namespace VirtualPeople

variable {X : Externals}

/-! ## Indexes -/

/-- The index of a child, or the indexes inside of an inline one. -/
def ChildNode.indexes : ChildNode (List UInt32) → List UInt32
  | .nodeIndex index => [index]
  | .node indexes => indexes
  | .notSet => []

/-- The indexes that a node refers to, at any depth of its inline children. -/
def CompiledNode.nodeIndexes (node : CompiledNode X) : List UInt32 :=
  node.fold fun _ type =>
    match type with
    | .branchNode config =>
      config.branches.flatMap fun branch => branch.childNode.indexes
    | _ => []

/-- The indexes that the child of a branch refers to. -/
def Branch.nodeIndexes (branch : Branch X (CompiledNode X)) : List UInt32 :=
  (branch.childNode.map CompiledNode.nodeIndexes).indexes

namespace CompiledNode

/-- A branch node refers to what its branches refer to. -/
@[simp] theorem nodeIndexes_branchNode (index : Option UInt32)
    (config : BranchNode X (CompiledNode X)) :
    nodeIndexes (.mk index (.branchNode config)) =
      config.branches.flatMap Branch.nodeIndexes := by
  rw [nodeIndexes, fold_mk]
  change List.flatMap _ (config.branches.map _) = _
  rw [List.flatMap_map]
  rfl

/-- A leaf refers to nothing. -/
theorem nodeIndexes_of_leaf {index : Option UInt32}
    {type : NodeType X (CompiledNode X)}
    (isLeaf : ∀ config, type ≠ .branchNode config) :
    nodeIndexes (.mk index type) = [] := by
  rw [nodeIndexes, fold_mk]
  cases type with
  | branchNode config => exact absurd rfl (isLeaf config)
  | _ => rfl

/-- All the indexes inside of a node, those in its update trees included. -/
def allIndexes (node : CompiledNode X) : List UInt32 :=
  node.fold fun _ type =>
    match type with
    | .branchNode config =>
      config.branches.flatMap (fun branch => branch.childNode.indexes) ++
        config.action.trees.flatten
    | _ => []

end CompiledNode

/-- All the indexes inside of the child of a branch. -/
def Branch.allIndexes (branch : Branch X (CompiledNode X)) : List UInt32 :=
  (branch.childNode.map CompiledNode.allIndexes).indexes

namespace CompiledNode

/-- All indexes of a branch node are those of its branches and its trees. -/
@[simp] theorem allIndexes_branchNode (index : Option UInt32)
    (config : BranchNode X (CompiledNode X)) :
    allIndexes (.mk index (.branchNode config)) =
      config.branches.flatMap Branch.allIndexes ++
        config.action.trees.flatMap allIndexes := by
  rw [allIndexes, fold_mk]
  change List.flatMap _ (config.branches.map _) ++
    (config.action.map _).trees.flatten = _
  rw [List.flatMap_map, Action.trees_map]
  rfl

/-- No update tree inside of the node refers to a node by index. -/
inductive ClosedTrees : CompiledNode X → Prop
  | branchNode {index : Option UInt32} {config : BranchNode X (CompiledNode X)}
      (children : ∀ branch ∈ config.branches, ∀ child,
        branch.childNode = .node child → ClosedTrees child)
      (trees : ∀ root ∈ config.action.trees, root.allIndexes = []) :
      ClosedTrees (.mk index (.branchNode config))
  | leaf {index : Option UInt32} {type : NodeType X (CompiledNode X)}
      (isLeaf : ∀ config, type ≠ .branchNode config) :
      ClosedTrees (.mk index type)

end CompiledNode

@[simp] theorem Action.map_id {Node : Type} (action : Action X Node) :
    action.map (fun root => root) = action := by
  cases action with
  | updates updates =>
    refine congrArg Action.updates ((List.map_congr_left ?_).trans
      (List.map_id updates))
    intro updater _
    cases updater <;> rfl
  | _ => rfl

namespace Cc

/-! ## Looking nodes up -/

/-- The nodes that can be referred to by index. -/
abbrev NodeEnv (X : Externals) := UInt32 → Option (ModelNode X)

/-- What builds a node from nodes to refer to that stay in place. -/
abbrev Resolver (X : Externals) := NodeEnv X → Result (ModelNode X)

/-- The child that is referred to or inline. -/
def resolveChild (env : NodeEnv X) : ChildNode (Resolver X) → Result (ModelNode X)
  | .nodeIndex index =>
    match env index with
    | some node => return node
    | none => throw (invalidArgument
      "The ModelNode object of the child node index is not provided.")
  | .node resolve => resolve env
  | .notSet =>
    throw (invalidArgument "BranchNode must have one of node_index and node.")

namespace ModelNode

/-- The node of a kind, with its references looked up in the environment. -/
def resolveType (type : NodeType X (Resolver X)) : Resolver X := fun env =>
  match type with
  | .branchNode config =>
    if config.branches.length = 0 then
      throw (invalidArgument "BranchNode must have at least 1 branch.")
    else do
      let childNodes ← config.branches.mapM fun branch =>
        resolveChild env branch.childNode
      let impl ← BranchNodeImpl.assemble (config.branches.map (·.selectBy))
        config.randomSeed
        (config.action.map fun resolve => Step.lift (resolve fun _ => none))
        childNodes
      return .branchNode impl
  | .stopNode => return .leafNode .stopNode
  | .populationNode config => do
    let node ← PopulationNodeImpl.buildFromConfig config
    return .leafNode (.populationNode node)
  | .rankedPopulationNode config => do
    let node ← RankedPopulationNodeImpl.buildFromConfig config
    return .leafNode (.rankedPopulationNode node)
  | .notSet => throw (invalidArgument "Node type is not set.")

/-- What is built of a node when the nodes it refers to are looked up. -/
def resolve (node : CompiledNode X) : Resolver X :=
  node.fold fun _ type => resolveType type

/-- A node is resolved from what the nodes right below it resolve to. -/
@[simp] theorem resolve_mk (index : Option UInt32) (type : NodeType X (CompiledNode X)) :
    resolve (.mk index type) = resolveType (type.map resolve) :=
  CompiledNode.fold_mk _ index type

end ModelNode

/-- The child of a branch, with the nodes it refers to looked up. -/
def resolveBranch (env : NodeEnv X) (branch : Branch X (CompiledNode X)) :
    Result (ModelNode X) :=
  resolveChild env (branch.childNode.map ModelNode.resolve)

/-- The action of a branch, with update trees that refer to no node. -/
def resolveAction (action : Action X (CompiledNode X)) : Action X (Builder X) :=
  action.map fun root => Step.lift (ModelNode.resolve root fun _ => none)

namespace ModelNode

/-- A branch node is resolved branch by branch. -/
theorem resolve_branchNode (index : Option UInt32)
    (config : BranchNode X (CompiledNode X)) (env : NodeEnv X) :
    resolve (.mk index (.branchNode config)) env =
      if config.branches.length = 0 then
        throw (invalidArgument "BranchNode must have at least 1 branch.")
      else do
        let childNodes ← config.branches.mapM (resolveBranch env)
        let impl ← BranchNodeImpl.assemble (config.branches.map (·.selectBy))
          config.randomSeed (resolveAction config.action) childNodes
        return .branchNode impl := by
  rw [resolve_mk]
  simp only [NodeType.map, resolveType, BranchNode.map, List.length_map,
    List.mapM_map, List.map_map, Action.map_map]
  rfl

/-- A branch is resolved when its children are and the rest of it is built. -/
theorem resolve_branchNode_eq_ok_iff {index : Option UInt32}
    {config : BranchNode X (CompiledNode X)} {env : NodeEnv X}
    {node : ModelNode X} :
    resolve (.mk index (.branchNode config)) env = .ok node ↔
      config.branches.length ≠ 0 ∧ ∃ childNodes impl,
        config.branches.mapM (resolveBranch env) = .ok childNodes ∧
        BranchNodeImpl.assemble (config.branches.map (·.selectBy))
          config.randomSeed (resolveAction config.action) childNodes =
            .ok impl ∧
        node = .branchNode impl := by
  rw [resolve_branchNode]
  split_ifs with empty
  · simp only [empty, ne_eq, not_true_eq_false, false_and]
  · simp only [bind_eq_ok_iff, ne_eq, empty, not_false_eq_true, true_and]
    constructor
    · rintro ⟨childNodes, resolved, impl, assembled, same⟩
      exact ⟨childNodes, impl, resolved, assembled, (Except.ok.inj same).symm⟩
    · rintro ⟨childNodes, impl, resolved, assembled, rfl⟩
      exact ⟨childNodes, resolved, impl, assembled, rfl⟩

end ModelNode

/-! ## Which nodes matter -/

theorem resolveBranch_congr_of {env env' : NodeEnv X}
    {branch : Branch X (CompiledNode X)}
    (inline : ∀ child, branch.childNode = .node child →
      (∀ index ∈ child.nodeIndexes, env index = env' index) →
        ModelNode.resolve child env = ModelNode.resolve child env')
    (same : ∀ index ∈ branch.nodeIndexes, env index = env' index) :
    resolveBranch env branch = resolveBranch env' branch := by
  obtain ⟨childNode, selectBy⟩ := branch
  cases childNode with
  | nodeIndex index =>
    have sameNode := same index (List.mem_singleton_self index)
    simp only [resolveBranch, ChildNode.map, resolveChild, sameNode]
  | node child => exact inline child rfl same
  | notSet => rfl

/-- Two environments that hold the same nodes under the indexes of a node
resolve it alike. -/
theorem resolve_congr {env env' : NodeEnv X} (node : CompiledNode X)
    (same : ∀ index ∈ node.nodeIndexes, env index = env' index) :
    ModelNode.resolve node env = ModelNode.resolve node env' := by
  induction node using CompiledNode.induction with
  | step index type inductionHypothesis =>
    cases type with
    | branchNode config =>
      rw [CompiledNode.nodeIndexes_branchNode] at same
      have branchEq : ∀ branch ∈ config.branches,
          resolveBranch env branch = resolveBranch env' branch := by
        intro branch member
        exact resolveBranch_congr_of
          (forall_branches inductionHypothesis branch member)
          fun index inBranch =>
            same index (List.mem_flatMap.mpr ⟨branch, member, inBranch⟩)
      rw [ModelNode.resolve_branchNode, ModelNode.resolve_branchNode,
        mapM_congr branchEq]
    | _ => rfl

/-- Environments that agree on the indexes resolve the branches alike. -/
theorem resolveBranches_congr {env env' : NodeEnv X}
    {branches : List (Branch X (CompiledNode X))}
    (same : ∀ index ∈ branches.flatMap Branch.nodeIndexes,
      env index = env' index) :
    branches.mapM (resolveBranch env) = branches.mapM (resolveBranch env') := by
  refine mapM_congr fun branch member => ?_
  exact resolveBranch_congr_of (fun child _ => resolve_congr child)
    fun index inBranch =>
      same index (List.mem_flatMap.mpr ⟨branch, member, inBranch⟩)

theorem exists_of_resolveBranch_of {env : NodeEnv X}
    {branch : Branch X (CompiledNode X)}
    (inline : ∀ child, branch.childNode = .node child →
      ∀ {built : ModelNode X}, ModelNode.resolve child env = .ok built →
        ∀ index ∈ child.nodeIndexes, ∃ found, env index = some found)
    {built : ModelNode X} (resolved : resolveBranch env branch = .ok built) :
    ∀ index ∈ branch.nodeIndexes, ∃ found, env index = some found := by
  obtain ⟨childNode, selectBy⟩ := branch
  cases childNode with
  | nodeIndex index =>
    simp only [resolveBranch, ChildNode.map, resolveChild] at resolved
    intro other member
    rw [List.mem_singleton.mp member]
    cases found : env index with
    | some node => exact ⟨node, rfl⟩
    | none =>
      rw [found] at resolved
      contradiction
  | node child => exact inline child rfl resolved
  | notSet => contradiction

/-- A node is resolved only if all the nodes it refers to are there. -/
theorem exists_of_resolve {env : NodeEnv X} {node : CompiledNode X}
    {built : ModelNode X} (resolved : ModelNode.resolve node env = .ok built) :
    ∀ index ∈ node.nodeIndexes, ∃ found, env index = some found := by
  induction node using CompiledNode.induction generalizing built with
  | step index type inductionHypothesis =>
    cases type with
    | branchNode config =>
      rw [ModelNode.resolve_branchNode_eq_ok_iff] at resolved
      obtain ⟨-, childNodes, -, children, -, -⟩ := resolved
      rw [CompiledNode.nodeIndexes_branchNode]
      intro index referred
      obtain ⟨branch, member, inBranch⟩ := List.mem_flatMap.mp referred
      obtain ⟨child, -, childEq⟩ := exists_mem_of_mapM_eq_ok children member
      exact exists_of_resolveBranch_of
        (forall_branches inductionHypothesis branch member) childEq index
        inBranch
    | _ =>
      rw [CompiledNode.nodeIndexes_of_leaf (by simp)]
      exact fun index member => absurd member List.not_mem_nil

/-- All that resolved branches refer to is in the environment. -/
theorem exists_of_resolveBranches {env : NodeEnv X}
    {branches : List (Branch X (CompiledNode X))} {children : List (ModelNode X)}
    (resolved : branches.mapM (resolveBranch env) = .ok children) :
    ∀ index ∈ branches.flatMap Branch.nodeIndexes,
      ∃ found, env index = some found := by
  intro index referred
  obtain ⟨branch, member, inBranch⟩ := List.mem_flatMap.mp referred
  obtain ⟨child, -, childEq⟩ := exists_mem_of_mapM_eq_ok resolved member
  exact exists_of_resolveBranch_of
    (fun _ _ _ resolved => exists_of_resolve resolved) childEq index inBranch

/-- Whether a node is resolved does not depend on what the nodes are. -/
theorem resolve_lockstep {env env' : NodeEnv X} (node : CompiledNode X)
    (present : ∀ index ∈ node.nodeIndexes,
      (env index).isSome = (env' index).isSome) :
    Lockstep (fun _ _ => True) (ModelNode.resolve node env)
      (ModelNode.resolve node env') := by
  induction node using CompiledNode.induction with
  | step index type inductionHypothesis =>
    cases type with
    | branchNode config =>
      rw [CompiledNode.nodeIndexes_branchNode] at present
      rw [ModelNode.resolve_branchNode, ModelNode.resolve_branchNode]
      split_ifs
      · exact .errors _ _
      · refine @Match.bind _ _ _ _ _ (List.Forall₂ fun _ _ => True) _ _ _ _ _
          (.mapM (List.forall₂_same.mpr fun branch member => ?_))
          fun childNodes childNodes' _ => ?_
        · have hypothesis := forall_branches inductionHypothesis branch member
          have presentBranch : ∀ index ∈ branch.nodeIndexes,
              (env index).isSome = (env' index).isSome := fun index inBranch =>
            present index (List.mem_flatMap.mpr ⟨branch, member, inBranch⟩)
          obtain ⟨childNode, selectBy⟩ := branch
          cases childNode with
          | nodeIndex index =>
            have presentChild := presentBranch index
              (List.mem_singleton_self index)
            simp only [resolveBranch, ChildNode.map, resolveChild]
            cases found : env index <;> cases found' : env' index <;>
              rw [found, found'] at presentChild
            · exact .errors _ _
            · contradiction
            · contradiction
            · exact .ok trivial
          | node child => exact hypothesis child rfl presentBranch
          | notSet => exact .errors _ _
        · unfold BranchNodeImpl.assemble
          simp only [bind_assoc]
          refine .bind_eq (.refl _) fun selection => ?_
          refine .bind_eq (.refl _) fun action => ?_
          exact .ok trivial
    | _ =>
      refine Match.mono (.refl _) fun _ _ _ => trivial

/-! ## Taking nodes out of the table -/

/-- A new node that is erased again leaves the table as it was. -/
theorem erase_insert_of_notMem {nodeRefs : NodeRefs X} {index : UInt32}
    (fresh : index ∉ nodeRefs) (node : ModelNode X) :
    (nodeRefs.insert index node).erase index = nodeRefs := by
  rw [AList.insert_of_notMem fresh]
  exact AList.ext (List.kerase_cons_eq rfl)

/-- A child is referred to by taking it out of the table. -/
theorem appendChildNode_nodeIndex {index : UInt32} {selectBy : SelectBy X}
    {refs refs' : NodeRefs X} {node : ModelNode X} :
    appendChildNode ⟨.nodeIndex index, selectBy⟩ refs = .ok node refs' ↔
      refs.lookup index = some node ∧ refs' = refs.erase index := by
  unfold appendChildNode
  simp only
  rw [Step.run_bind_of_ok _ (Step.run_get refs)]
  cases refs.lookup index with
  | none => simp
  | some found =>
    simp only [Step.run_bind_eq_ok_iff, Step.run_set, EStateM.Result.ok.injEq,
      Step.run_pure, Option.some_inj]
    constructor
    · rintro ⟨_, _, ⟨-, rfl⟩, sameNode, rfl⟩
      exact ⟨sameNode, rfl⟩
    · rintro ⟨sameNode, rfl⟩
      exact ⟨(), _, ⟨trivial, rfl⟩, sameNode, rfl⟩

/-- The table without the nodes that were taken out. -/
def eraseAll (refs : NodeRefs X) (indexes : List UInt32) : NodeRefs X :=
  indexes.foldl (fun refs index => refs.erase index) refs

/-- Indexes are erased one after another. -/
@[simp] theorem eraseAll_append (refs : NodeRefs X) (indexes indexes' : List UInt32) :
    eraseAll refs (indexes ++ indexes') =
      eraseAll (eraseAll refs indexes) indexes' :=
  List.foldl_append

/-- What is left in the table are the indexes that were not erased. -/
theorem lookup_eraseAll (refs : NodeRefs X) (indexes : List UInt32)
    (index : UInt32) :
    (eraseAll refs indexes).lookup index =
      if index ∈ indexes then none else refs.lookup index := by
  induction indexes generalizing refs with
  | nil => rfl
  | cons head indexes inductionHypothesis =>
    change (eraseAll (refs.erase head) indexes).lookup index = _
    rw [inductionHypothesis]
    by_cases same : index = head
    · subst same
      simp
    · simp [same, AList.lookup_erase_ne same]

/-- A node is built exactly when it refers to no index twice and is resolved
by the table, and what is left of the table are the other nodes. -/
def BuildsByLookup (node : CompiledNode X) : Prop :=
  ∀ (refs rest : NodeRefs X) (built : ModelNode X),
    ModelNode.build node refs = .ok built rest ↔
      node.nodeIndexes.Nodup ∧
        ModelNode.resolve node (fun index => refs.lookup index) = .ok built ∧
        rest = eraseAll refs node.nodeIndexes

/-- The child of a branch is built in the same way. -/
theorem appendChildNode_eq_ok_iff {branch : Branch X (CompiledNode X)}
    (inline : ∀ child, branch.childNode = .node child → BuildsByLookup child)
    (refs rest : NodeRefs X) (built : ModelNode X) :
    appendChildNode (branch.map ModelNode.build) refs = .ok built rest ↔
      branch.nodeIndexes.Nodup ∧
        resolveBranch (fun index => refs.lookup index) branch = .ok built ∧
        rest = eraseAll refs branch.nodeIndexes := by
  obtain ⟨childNode, selectBy⟩ := branch
  cases childNode with
  | nodeIndex index =>
    rw [show (⟨.nodeIndex index, selectBy⟩ : Branch X (CompiledNode X)).map
      ModelNode.build = ⟨.nodeIndex index, selectBy⟩ from rfl,
      appendChildNode_nodeIndex]
    simp only [resolveBranch, ChildNode.map, resolveChild, Branch.nodeIndexes,
      ChildNode.indexes, List.nodup_singleton, true_and]
    have erased : eraseAll refs [index] = refs.erase index := rfl
    rw [erased]
    cases refs.lookup index with
    | none => simp
    | some node => simp [pure, Except.pure]
  | node child => exact inline child rfl refs rest built
  | notSet =>
    simp only [resolveBranch, ChildNode.map, resolveChild]
    constructor
    · exact fun failed => by contradiction
    · rintro ⟨-, failed, -⟩
      contradiction

/-- So are the children of a list of branches, which take different nodes. -/
theorem mapM_appendChildNode_eq_ok_iff
    {branches : List (Branch X (CompiledNode X))}
    (inline : ∀ branch ∈ branches, ∀ child,
      branch.childNode = .node child → BuildsByLookup child)
    (refs rest : NodeRefs X) (children : List (ModelNode X)) :
    (branches.map (Branch.map ModelNode.build)).mapM appendChildNode refs =
        .ok children rest ↔
      (branches.flatMap Branch.nodeIndexes).Nodup ∧
        branches.mapM (resolveBranch fun index => refs.lookup index) =
          .ok children ∧
        rest = eraseAll refs (branches.flatMap Branch.nodeIndexes) := by
  induction branches generalizing refs rest children with
  | nil =>
    simp only [List.map_nil, List.mapM_nil, Step.run_pure, List.flatMap_nil,
      List.nodup_nil, true_and, EStateM.Result.ok.injEq]
    constructor
    · rintro ⟨rfl, rfl⟩
      exact ⟨rfl, rfl⟩
    · rintro ⟨noChildren, rfl⟩
      exact ⟨Except.ok.inj noChildren, rfl⟩
  | cons branch branches inductionHypothesis =>
    have ⟨inlineHead, inlineTail⟩ := List.forall_mem_cons.mp inline
    have head := appendChildNode_eq_ok_iff inlineHead refs
    have tail := inductionHypothesis inlineTail
      (eraseAll refs branch.nodeIndexes)
    rw [List.map_cons, List.mapM_cons, List.mapM_cons, List.flatMap_cons,
      List.nodup_append, eraseAll_append]
    simp only [Step.run_bind_eq_ok_iff, bind_eq_ok_iff, Step.run_pure,
      EStateM.Result.ok.injEq]
    constructor
    · rintro ⟨child, middle, headRun, others, final, tailRun, rfl, rfl⟩
      obtain ⟨headNodup, headResolved, rfl⟩ := (head _ _).mp headRun
      obtain ⟨tailNodup, tailResolved, rfl⟩ := (tail _ _).mp tailRun
      -- What the tail finds in the rest of the table, the head has not taken.
      have disjoint : ∀ index ∈ branches.flatMap Branch.nodeIndexes,
          index ∉ branch.nodeIndexes := by
        intro index inTail inHead
        obtain ⟨found, foundEq⟩ :=
          exists_of_resolveBranches tailResolved index inTail
        rw [lookup_eraseAll, if_pos inHead] at foundEq
        contradiction
      refine ⟨⟨headNodup, tailNodup, ?_⟩, ⟨child, headResolved, others, ?_, rfl⟩,
        rfl⟩
      · rintro index inHead _ inTail rfl
        exact disjoint index inTail inHead
      · rw [← tailResolved]
        refine resolveBranches_congr fun index inTail => ?_
        rw [lookup_eraseAll, if_neg (disjoint index inTail)]
    · rintro ⟨⟨headNodup, tailNodup, disjoint⟩,
        ⟨child, headResolved, others, tailResolved, same⟩, rfl⟩
      refine ⟨child, _, (head _ _).mpr ⟨headNodup, headResolved, rfl⟩, others, _,
        (tail _ _).mpr ⟨tailNodup, ?_, rfl⟩, Except.ok.inj same, rfl⟩
      rw [← tailResolved]
      refine resolveBranches_congr fun index inTail => ?_
      rw [lookup_eraseAll, if_neg fun inHead =>
        disjoint index inHead index inTail rfl]

/-! ## Building by lookup -/

/-- A node that builds by lookup is built alone as it resolves. -/
theorem alone_eq_ok_iff_of {node : CompiledNode X}
    (builds : BuildsByLookup node) (built : ModelNode X) :
    (ModelNode.build node).alone = .ok built ↔
      ModelNode.resolve node (fun _ => none) = .ok built := by
  have emptyLookup : (fun index => (∅ : NodeRefs X).lookup index) =
      fun _ => none := by
    funext index
    exact AList.lookup_empty index
  have run := builds ∅
  rw [emptyLookup] at run
  rw [Builder.alone_eq_ok_iff]
  constructor
  · rintro ⟨rest, runEq⟩
    exact ((run _ _).mp runEq).2.1
  · intro resolved
    have noIndexes : node.nodeIndexes = [] := by
      rw [List.eq_nil_iff_forall_not_mem]
      intro index member
      obtain ⟨found, foundEq⟩ := exists_of_resolve resolved index member
      contradiction
    have nodup : node.nodeIndexes.Nodup := by
      rw [noIndexes]
      exact .nil
    exact ⟨_, (run _ _).mpr ⟨nodup, resolved, rfl⟩⟩

theorem AttributesUpdaterInterface.build_eq_ok_iff_of
    {updater : AttributesUpdater X (CompiledNode X)}
    (trees : ∀ root ∈ updater.treeRoot, BuildsByLookup root)
    (built : AttributesUpdaterInterface X (ModelNode X)) :
    AttributesUpdaterInterface.build (updater.map ModelNode.build) = .ok built ↔
      AttributesUpdaterInterface.build (updater.map fun root =>
        Step.lift (ModelNode.resolve root fun _ => none)) = .ok built := by
  cases updater with
  | updateTree root =>
    simp only [AttributesUpdater.map, AttributesUpdaterInterface.build,
      bind_eq_ok_iff, alone_eq_ok_iff_of (trees root rfl), Builder.alone_lift]
  | _ => rfl

/-- An action whose trees build by lookup is built as it resolves. -/
theorem buildAction_eq_ok_iff_of {action : Action X (CompiledNode X)}
    (trees : ∀ root ∈ action.trees, BuildsByLookup root)
    (built : List (AttributesUpdaterInterface X (ModelNode X)) ×
      Option (MultiplicityImpl X)) :
    buildAction (action.map ModelNode.build) = .ok built ↔
      buildAction (resolveAction action) = .ok built := by
  cases action with
  | updates updates =>
    simp only [resolveAction, Action.map, buildAction, List.mapM_map,
      bind_eq_ok_iff]
    have same := @mapM_ok_congr _ _ _ _ _ updates fun updater member =>
      AttributesUpdaterInterface.build_eq_ok_iff_of fun root isRoot =>
        trees root (List.mem_filterMap.mpr ⟨updater, member, isRoot⟩)
    simp only [Function.comp_def] at same ⊢
    simp only [same]
  | _ => rfl

theorem assemble_eq_ok_iff_of {action : Action X (CompiledNode X)}
    (trees : ∀ root ∈ action.trees, BuildsByLookup root)
    (selections : List (SelectBy X)) (randomSeed : String)
    (childNodes : List (ModelNode X))
    (impl : BranchNodeImpl X (ModelNode X)) :
    BranchNodeImpl.assemble selections randomSeed (action.map ModelNode.build)
        childNodes = .ok impl ↔
      BranchNodeImpl.assemble selections randomSeed (resolveAction action)
        childNodes = .ok impl := by
  unfold BranchNodeImpl.assemble
  simp only [bind_eq_ok_iff, buildAction_eq_ok_iff_of trees]

/-- A node that builds without the table builds by lookup. -/
theorem buildsByLookup_of_lift {node : CompiledNode X}
    (result : Result (ModelNode X))
    (buildEq : ModelNode.build node = Step.lift result)
    (resolveEq : ModelNode.resolve node = fun _ => result)
    (noIndexes : node.nodeIndexes = []) : BuildsByLookup node := by
  intro refs rest built
  rw [buildEq, resolveEq, noIndexes, Step.run_lift_eq_ok_iff]
  simp [eraseAll, eq_comm]

/-- Building takes nodes out of the table and is otherwise a lookup. -/
theorem buildsByLookup (node : CompiledNode X) : BuildsByLookup node := by
  induction node using CompiledNode.induction with
  | step index type inductionHypothesis =>
    cases type with
    | branchNode config =>
      intro refs rest built
      have trees : ∀ root ∈ config.action.trees, BuildsByLookup root :=
        fun root member => inductionHypothesis root
          (List.mem_append_right _ member)
      have children := mapM_appendChildNode_eq_ok_iff
        (forall_branches inductionHypothesis) refs
      rw [ModelNode.build_mk, CompiledNode.nodeIndexes_branchNode,
        ModelNode.resolve_branchNode_eq_ok_iff]
      simp only [NodeType.map, ModelNode.buildType, BranchNodeImpl.build,
        BranchNode.map, List.length_map, List.map_map]
      split_ifs with empty
      · exact iff_of_false (fun failed => by contradiction)
          fun conditions => conditions.2.1.1 empty
      · simp only [Step.run_bind_eq_ok_iff, Step.run_lift_eq_ok_iff,
          Step.run_pure, EStateM.Result.ok.injEq, children]
        constructor
        · rintro ⟨impl, _, ⟨childNodes, _, ⟨nodup, resolved, rfl⟩, assembled,
            rfl⟩, rfl, rfl⟩
          exact ⟨nodup, ⟨empty, childNodes, impl, resolved,
            (assemble_eq_ok_iff_of trees _ _ _ _).mp assembled, rfl⟩, rfl⟩
        · rintro ⟨nodup, ⟨-, childNodes, impl, resolved, assembled, rfl⟩, rfl⟩
          exact ⟨impl, _, ⟨childNodes, _, ⟨nodup, resolved, rfl⟩,
            (assemble_eq_ok_iff_of trees _ _ _ _).mpr assembled, rfl⟩, rfl, rfl⟩
    | stopNode =>
      exact buildsByLookup_of_lift (.ok (.leafNode .stopNode)) rfl rfl rfl
    | populationNode config =>
      exact buildsByLookup_of_lift _ (Step.lift_bind
        (PopulationNodeImpl.buildFromConfig config)
        fun node => .ok (ModelNode.leafNode (.populationNode node))) rfl rfl
    | rankedPopulationNode config =>
      exact buildsByLookup_of_lift _ (Step.lift_bind
        (RankedPopulationNodeImpl.buildFromConfig config)
        fun node => .ok (ModelNode.leafNode (.rankedPopulationNode node))) rfl
        rfl
    | notSet => exact buildsByLookup_of_lift (.error _) rfl rfl rfl

/-- A node alone is built to what it resolves to without references. -/
theorem alone_build_eq_ok_iff (node : CompiledNode X) (built : ModelNode X) :
    (ModelNode.build node).alone = .ok built ↔
      ModelNode.resolve node (fun _ => none) = .ok built :=
  alone_eq_ok_iff_of (buildsByLookup node) built

/-! ## Replacing references -/

/-- The configurations that references are replaced by. -/
abbrev ConfigEnv (X : Externals) := UInt32 → Option (CompiledNode X)

/-- The child with the configuration in place of the index it refers to. -/
def replaceChild (configs : ConfigEnv X) :
    ChildNode (CompiledNode X) → ChildNode (CompiledNode X)
  | .nodeIndex index =>
    match configs index with
    | some node => .node node
    | none => .nodeIndex index
  | child => child

/-- The node with its references replaced. -/
def replaceType (configs : ConfigEnv X) :
    NodeType X (CompiledNode X) → NodeType X (CompiledNode X)
  | .branchNode config => .branchNode { config with
      branches := config.branches.map fun branch =>
        { branch with childNode := replaceChild configs branch.childNode } }
  | type => type

/-- The node with the configurations in the place of its references. -/
def replaceReferences (configs : ConfigEnv X) (node : CompiledNode X) :
    CompiledNode X :=
  node.fold fun index type => .mk index (replaceType configs type)

/-- The branch with a configuration in the place of its reference. -/
def replaceBranch (configs : ConfigEnv X)
    (branch : Branch X (CompiledNode X)) : Branch X (CompiledNode X) where
  childNode := replaceChild configs
    (branch.childNode.map (replaceReferences configs))
  selectBy := branch.selectBy

/-- References are replaced in all branches of a node. -/
theorem replaceReferences_branchNode (configs : ConfigEnv X)
    (index : Option UInt32) (config : BranchNode X (CompiledNode X)) :
    replaceReferences configs (.mk index (.branchNode config)) =
      .mk index (.branchNode {
        branches := config.branches.map (replaceBranch configs)
        randomSeed := config.randomSeed
        action := config.action.map (replaceReferences configs) }) := by
  rw [replaceReferences, CompiledNode.fold_mk]
  simp only [NodeType.map, replaceType, BranchNode.map, List.map_map]
  rfl

/-- A leaf has no references to replace. -/
theorem replaceReferences_of_leaf (configs : ConfigEnv X)
    {index : Option UInt32} {type : NodeType X (CompiledNode X)}
    (isLeaf : ∀ config, type ≠ .branchNode config) :
    replaceReferences configs (.mk index type) = .mk index type := by
  rw [replaceReferences, CompiledNode.fold_mk]
  cases type with
  | branchNode config => exact absurd rfl (isLeaf config)
  | _ => rfl

/-- A node without references is left as it is. -/
theorem replaceReferences_of_closed (configs : ConfigEnv X)
    {node : CompiledNode X} (closed : node.allIndexes = []) :
    replaceReferences configs node = node := by
  induction node using CompiledNode.induction with
  | step index type inductionHypothesis =>
    cases type with
    | branchNode config =>
      rw [CompiledNode.allIndexes_branchNode, List.append_eq_nil_iff,
        List.flatMap_eq_nil_iff, List.flatMap_eq_nil_iff] at closed
      obtain ⟨closedBranches, closedTrees⟩ := closed
      have branchEq : ∀ branch ∈ config.branches,
          replaceBranch configs branch = branch := by
        intro branch member
        have hypothesis := forall_branches inductionHypothesis branch member
        have closedBranch := closedBranches branch member
        obtain ⟨childNode, selectBy⟩ := branch
        cases childNode with
        | nodeIndex index => contradiction
        | node child =>
          simp only [replaceBranch, ChildNode.map, replaceChild,
            hypothesis child rfl closedBranch]
        | notSet => rfl
      have actionEq : config.action.map (replaceReferences configs) =
          config.action :=
        (Action.map_congr fun root member => inductionHypothesis root
          (List.mem_append_right _ member) (closedTrees root member)).trans
            (Action.map_id config.action)
      rw [replaceReferences_branchNode, actionEq, List.map_congr_left branchEq,
        List.map_id']
    | _ => exact replaceReferences_of_leaf configs (by simp)

/-- The configuration of an index is what its node is built of. -/
def Represents (configs : ConfigEnv X) (env : NodeEnv X) (index : UInt32) :
    Prop :=
  Option.Rel (fun config node =>
    ModelNode.resolve config (fun _ => none) = .ok node) (configs index)
    (env index)

/-- Replacing references and looking nodes up builds the same. -/
theorem resolve_replaceReferences {configs : ConfigEnv X} {env : NodeEnv X}
    {node : CompiledNode X} (closed : node.ClosedTrees)
    (represents : ∀ index ∈ node.nodeIndexes, Represents configs env index) :
    ModelNode.resolve (replaceReferences configs node) (fun _ => none) =
      ModelNode.resolve node env := by
  induction closed with
  | @branchNode index config children trees childrenHypothesis =>
    rw [CompiledNode.nodeIndexes_branchNode] at represents
    have branchEq : ∀ branch ∈ config.branches,
        resolveBranch (fun _ => none) (replaceBranch configs branch) =
          resolveBranch env branch := by
      intro branch member
      have hypothesis := childrenHypothesis branch member
      have representsBranch : ∀ index ∈ branch.nodeIndexes,
          Represents configs env index := fun index inBranch =>
        represents index (List.mem_flatMap.mpr ⟨branch, member, inBranch⟩)
      obtain ⟨childNode, selectBy⟩ := branch
      cases childNode with
      | nodeIndex index =>
        have representsChild := representsBranch index
          (List.mem_singleton_self index)
        unfold Represents at representsChild
        simp only [resolveBranch, replaceBranch, ChildNode.map, replaceChild,
          resolveChild]
        generalize env index = found at representsChild ⊢
        generalize configs index = replacement at representsChild ⊢
        cases representsChild with
        | some resolved => exact resolved
        | none => rfl
      | node child => exact hypothesis child rfl representsBranch
      | notSet => rfl
    have actionEq : config.action.map (replaceReferences configs) =
        config.action :=
      (Action.map_congr fun root member =>
        replaceReferences_of_closed configs (trees root member)).trans
          (Action.map_id config.action)
    rw [replaceReferences_branchNode, ModelNode.resolve_branchNode,
      ModelNode.resolve_branchNode, actionEq]
    simp only [List.length_map, List.mapM_map, List.map_map, Function.comp_def]
    rw [mapM_congr branchEq]
    rfl
  | @leaf index type isLeaf =>
    rw [replaceReferences_of_leaf configs isLeaf]
    refine resolve_congr _ fun index member => ?_
    rw [CompiledNode.nodeIndexes_of_leaf isLeaf] at member
    exact absurd member List.not_mem_nil

end Cc

end VirtualPeople
