import VirtualPeople.Cc.NodeListRoundTrip
import VirtualPeople.Cc.ValidLists

/-!
# Trees cut into lists

Nodes of a tree can be cut out and listed before it, with references in their
places.  Building the list gives the labeler of the tree, except where a node
is cut out of an update tree: the updaters are built without the table of nodes
and find nothing there.
-/

namespace VirtualPeople

variable {X : Externals}

/-! ## Closed update trees -/

/-- Without references in its update trees, a node refers to its children
only. -/
theorem CompiledNode.ClosedTrees.allIndexes_eq {node : CompiledNode X}
    (closed : node.ClosedTrees) : node.allIndexes = node.nodeIndexes := by
  induction closed with
  | @branchNode index config children trees childrenHypothesis =>
    rw [allIndexes_branchNode, nodeIndexes_branchNode,
      List.flatMap_eq_nil_iff.mpr trees, List.append_nil]
    refine List.flatMap_congr fun branch member => ?_
    have hypothesis := childrenHypothesis branch member
    obtain ⟨childNode, selectBy⟩ := branch
    cases childNode with
    | node child => exact hypothesis child rfl
    | _ => rfl
  | @leaf index type isLeaf =>
    rw [nodeIndexes_of_leaf isLeaf, allIndexes, fold_mk]
    cases type with
    | branchNode config => exact absurd rfl (isLeaf config)
    | _ => rfl

namespace Cc

/-- The update trees of a built action resolve without references. -/
theorem exists_resolve_of_buildAction {action : Action X (CompiledNode X)}
    {built : List (AttributesUpdaterInterface X (ModelNode X)) ×
      Option (MultiplicityImpl X)}
    (isBuilt : buildAction (resolveAction action) = .ok built) :
    ∀ root ∈ action.trees,
      ∃ node, ModelNode.resolve root (fun _ => none) = .ok node := by
  cases action with
  | updates updates =>
    intro root member
    obtain ⟨updater, inUpdates, isTree⟩ := List.mem_filterMap.mp member
    simp only [resolveAction, Action.map, buildAction, bind_eq_ok_iff] at isBuilt
    obtain ⟨updaters, mapped, -⟩ := isBuilt
    obtain ⟨result, -, resultEq⟩ := exists_mem_of_mapM_eq_ok mapped
      (List.mem_map_of_mem inUpdates)
    cases updater with
    | updateTree other =>
      simp only [AttributesUpdater.treeRoot, Option.some_inj] at isTree
      subst isTree
      simp only [AttributesUpdater.map, AttributesUpdaterInterface.build,
        Builder.alone_lift, bind_eq_ok_iff] at resultEq
      obtain ⟨node, resolved, -⟩ := resultEq
      exact ⟨node, resolved⟩
    | _ => contradiction
  | _ => simp [Action.trees]

/-- A node that can be built has no references in its update trees. -/
theorem closedTrees_of_resolve {node : CompiledNode X} {env : NodeEnv X}
    {built : ModelNode X} (resolved : ModelNode.resolve node env = .ok built) :
    node.ClosedTrees := by
  induction node using CompiledNode.induction generalizing env built with
  | step index type inductionHypothesis =>
    cases type with
    | branchNode config =>
      obtain ⟨-, childNodes, impl, children, assembled, -⟩ :=
        ModelNode.resolve_branchNode_eq_ok_iff.mp resolved
      refine .branchNode (fun branch member child isChild => ?_)
        fun root member => ?_
      · obtain ⟨childNode, -, childResolved⟩ :=
          exists_mem_of_mapM_eq_ok children member
        unfold resolveBranch at childResolved
        rw [isChild] at childResolved
        exact forall_branches (P := fun child => ∀ {env : NodeEnv X}
            {built : ModelNode X}, ModelNode.resolve child env = .ok built →
              child.ClosedTrees) inductionHypothesis branch member child isChild
          childResolved
      · simp only [BranchNodeImpl.assemble, bind_eq_ok_iff] at assembled
        obtain ⟨selection, -, action, actionBuilt, -⟩ := assembled
        obtain ⟨tree, treeResolved⟩ :=
          exists_resolve_of_buildAction actionBuilt root member
        have closed := inductionHypothesis root
          (List.mem_append_right _ member) treeResolved
        rw [closed.allIndexes_eq, List.eq_nil_iff_forall_not_mem]
        intro index referred
        obtain ⟨found, foundEq⟩ := exists_of_resolve treeResolved index referred
        contradiction
    | _ => exact .leaf (by simp)

/-! ## Replaced references -/

/-- The references of a node that is built after they were replaced have been
replaced by nodes that are built. -/
theorem exists_of_resolve_replaceReferences {configs : ConfigEnv X}
    {node : CompiledNode X} {built : ModelNode X}
    (resolved : ModelNode.resolve (replaceReferences configs node)
      (fun _ => none) = .ok built) :
    ∀ index ∈ node.nodeIndexes, ∃ config found, configs index = some config ∧
      ModelNode.resolve config (fun _ => none) = .ok found := by
  induction node using CompiledNode.induction generalizing built with
  | step index type inductionHypothesis =>
    cases type with
    | branchNode config =>
      rw [replaceReferences_branchNode,
        ModelNode.resolve_branchNode_eq_ok_iff] at resolved
      obtain ⟨-, childNodes, -, children, -, -⟩ := resolved
      rw [CompiledNode.nodeIndexes_branchNode]
      intro other referred
      obtain ⟨branch, member, inBranch⟩ := List.mem_flatMap.mp referred
      obtain ⟨childNode, -, childResolved⟩ := exists_mem_of_mapM_eq_ok children
        (List.mem_map_of_mem member)
      have hypothesis := forall_branches (P := fun child =>
          ∀ {built : ModelNode X},
            ModelNode.resolve (replaceReferences configs child)
              (fun _ => none) = .ok built →
            ∀ index ∈ child.nodeIndexes, ∃ config found,
              configs index = some config ∧
                ModelNode.resolve config (fun _ => none) = .ok found)
        inductionHypothesis branch member
      obtain ⟨child, selectBy⟩ := branch
      cases child with
      | nodeIndex index =>
        obtain rfl := List.mem_singleton.mp inBranch
        simp only [resolveBranch, replaceBranch, ChildNode.map, replaceChild]
          at childResolved
        cases found : configs other with
        | none =>
          rw [found] at childResolved
          contradiction
        | some config =>
          rw [found] at childResolved
          exact ⟨config, childNode, rfl, childResolved⟩
      | node inlined => exact hypothesis inlined rfl childResolved other inBranch
      | notSet => contradiction
    | _ =>
      rw [CompiledNode.nodeIndexes_of_leaf (by simp)]
      exact fun index member => absurd member List.not_mem_nil

/-- Environments that agree on the indexes of a node replace them alike. -/
theorem replaceReferences_congr {configs configs' : ConfigEnv X}
    (node : CompiledNode X)
    (same : ∀ index ∈ node.allIndexes, configs index = configs' index) :
    replaceReferences configs node = replaceReferences configs' node := by
  induction node using CompiledNode.induction with
  | step index type inductionHypothesis =>
    cases type with
    | branchNode config =>
      rw [CompiledNode.allIndexes_branchNode] at same
      have branchEq : ∀ branch ∈ config.branches,
          replaceBranch configs branch = replaceBranch configs' branch := by
        intro branch member
        have hypothesis := forall_branches inductionHypothesis branch member
        have sameBranch : ∀ index ∈ branch.allIndexes,
            configs index = configs' index := fun index inBranch =>
          same index (List.mem_append_left _
            (List.mem_flatMap.mpr ⟨branch, member, inBranch⟩))
        obtain ⟨childNode, selectBy⟩ := branch
        cases childNode with
        | nodeIndex index =>
          have sameNode := sameBranch index (List.mem_singleton_self index)
          simp only [replaceBranch, ChildNode.map, replaceChild, sameNode]
        | node child =>
          simp only [replaceBranch, ChildNode.map, replaceChild,
            hypothesis child rfl sameBranch]
        | notSet => rfl
      have actionEq : config.action.map (replaceReferences configs) =
          config.action.map (replaceReferences configs') :=
        Action.map_congr fun root member => inductionHypothesis root
          (List.mem_append_right _ member) fun index inTree =>
            same index (List.mem_append_right _
              (List.mem_flatMap.mpr ⟨root, member, inTree⟩))
      rw [replaceReferences_branchNode, replaceReferences_branchNode, actionEq,
        List.map_congr_left branchEq]
    | _ =>
      rw [replaceReferences_of_leaf _ (by simp),
        replaceReferences_of_leaf _ (by simp)]

/-- Index fields play no part in building. -/
theorem resolve_clearIndexes (node : CompiledNode X) :
    ModelNode.resolve (clearIndexes node) = ModelNode.resolve node := by
  induction node using CompiledNode.induction with
  | step index type inductionHypothesis =>
    rw [clearIndexes_mk, ModelNode.resolve_mk, ModelNode.resolve_mk]
    cases type with
    | branchNode config =>
      have branchEq : ∀ branch ∈ config.branches,
          (branch.map clearIndexes).map ModelNode.resolve =
            branch.map ModelNode.resolve := by
        intro branch member
        have hypothesis := forall_branches inductionHypothesis branch member
        obtain ⟨childNode, selectBy⟩ := branch
        cases childNode with
        | node child =>
          simp only [Branch.map, ChildNode.map, hypothesis child rfl]
        | _ => rfl
      have actionEq := Action.map_congr fun root member =>
        inductionHypothesis root
          (List.mem_append_right (config.branches.filterMap _) member)
      simp only [NodeType.map, BranchNode.map, List.map_map, Action.map_map,
        actionEq, Function.comp_def]
      rw [List.map_congr_left branchEq]
    | _ => rfl

/-! ## Cuttings -/

/-- All the indexes that the nodes of a list hold, those in update trees
included. -/
def allListIndexes (nodes : List (CompiledNode X)) : List UInt32 :=
  nodes.flatMap CompiledNode.allIndexes

/-- The list is the tree with some of its nodes cut out: the cut nodes have
different indexes, come before the nodes they were cut out of, each in one
place, and putting them back gives the tree. -/
structure IsCutting (root : CompiledNode X) (nodes : List (CompiledNode X)) :
    Prop where
  indexed : ∀ node ∈ nodes.dropLast, ∃ index, node.index = some index
  distinct : (nodes.filterMap CompiledNode.index).Nodup
  childrenFirst : ∀ before node after, nodes = before ++ node :: after →
    ∀ index ∈ node.allIndexes, ∃ child ∈ before, child.index = some index
  cutOnce : ∀ node ∈ nodes.dropLast, ∀ index, node.index = some index →
    (allListIndexes nodes).count index = 1
  putBack : (replacedRoot nodes).map clearIndexes = some (clearIndexes root)

/-- Lists of nodes with closed trees have no indexes but those of their
branches. -/
theorem allListIndexes_eq {nodes : List (CompiledNode X)}
    (closed : ∀ node ∈ nodes, node.ClosedTrees) :
    allListIndexes nodes = listIndexes nodes :=
  List.flatMap_congr fun node member => (closed node member).allIndexes_eq

/-- The beginning of a list with children first has children first. -/
theorem ChildrenFirst.of_append {nodes nodes' : List (CompiledNode X)}
    (childrenFirst : ChildrenFirst (nodes ++ nodes')) : ChildrenFirst nodes := by
  rintro before node after rfl
  exact childrenFirst before node (after ++ nodes') (by simp)

/-- Under the index of each node is the node itself with its references
replaced. -/
theorem replaceNodes_eq {nodes : List (CompiledNode X)}
    (indexed : ∀ node ∈ nodes, ∃ index, node.index = some index)
    (distinct : (nodes.filterMap CompiledNode.index).Nodup)
    (closed : ∀ node ∈ nodes, node.ClosedTrees)
    (childrenFirst : ChildrenFirst nodes) {node : CompiledNode X}
    (member : node ∈ nodes) {index : UInt32}
    (nodeIndexed : node.index = some index) :
    replaceNodes nodes index =
      some (replaceReferences (replaceNodes nodes) node) := by
  induction nodes using List.reverseRecOn generalizing node index with
  | nil => exact absurd member List.not_mem_nil
  | append_singleton init last inductionHypothesis =>
    obtain ⟨distinctInit, fresh⟩ := distinct_concat distinct
    obtain ⟨initFirst, earlier⟩ := childrenFirst_concat.mp childrenFirst
    obtain ⟨lastIndex, lastIndexed⟩ := indexed last (by simp)
    have kept {other : CompiledNode X} (closedOther : other.ClosedTrees)
        (referred : ∀ index ∈ other.nodeIndexes,
          ∃ child ∈ init, child.index = some index) :
        replaceReferences (replaceNodes (init ++ [last])) other =
          replaceReferences (replaceNodes init) other := by
      rw [replaceNodes_concat lastIndexed]
      refine replaceReferences_congr other fun index inside =>
        Function.update_of_ne ?_ _ _
      rintro rfl
      rw [closedOther.allIndexes_eq] at inside
      obtain ⟨child, inInit, same⟩ := referred index inside
      exact fresh index lastIndexed child inInit same
    rcases List.mem_append.mp member with inInit | isLast
    · have closedInit : ∀ node ∈ init, node.ClosedTrees := fun node inInit =>
        closed node (List.mem_append_left _ inInit)
      rw [kept (closedInit node inInit) fun index referred =>
        initFirst.exists_of_mem (List.mem_flatMap.mpr ⟨node, inInit, referred⟩),
        replaceNodes_concat lastIndexed, Function.update_of_ne]
      · exact inductionHypothesis
          (fun node inInit => indexed node (List.mem_append_left _ inInit))
          distinctInit closedInit initFirst inInit nodeIndexed
      · rintro rfl
        exact fresh index lastIndexed node inInit nodeIndexed
    · rw [List.mem_singleton] at isLast
      subst isLast
      rw [lastIndexed, Option.some_inj] at nodeIndexed
      subst nodeIndexed
      rw [kept (closed node member) earlier, replaceNodes_concat lastIndexed,
        Function.update_self]

/-- With its references replaced, the node can be built. -/
def Buildable (configs : ConfigEnv X) (node : CompiledNode X) : Prop :=
  ∃ found, ModelNode.resolve (replaceReferences configs node) (fun _ => none) =
    .ok found

/-- When the root can be built, so can every node that has a parent, from the
last one to the first. -/
theorem buildable_of_root {init : List (CompiledNode X)}
    {last : CompiledNode X}
    (indexed : ∀ node ∈ init, ∃ index, node.index = some index)
    (distinct : ((init ++ [last]).filterMap CompiledNode.index).Nodup)
    (closed : ∀ node ∈ init, node.ClosedTrees)
    (childrenFirst : ChildrenFirst (init ++ [last]))
    (allReferred : ∀ node ∈ init, ∀ index, node.index = some index →
      index ∈ listIndexes (init ++ [last]))
    (root : Buildable (replaceNodes init) last) :
    ∀ suffix before, init ++ [last] = before ++ suffix →
      ∀ node ∈ suffix, Buildable (replaceNodes init) node := by
  intro suffix
  induction suffix with
  | nil => exact nofun
  | cons node suffix inductionHypothesis =>
    intro before split
    have later := inductionHypothesis (before ++ [node]) (by simp [split])
    refine List.forall_mem_cons.mpr ⟨?_, later⟩
    have member : node ∈ init ++ [last] := by simp [split]
    rcases List.mem_append.mp member with inInit | isLast
    · obtain ⟨index, nodeIndexed⟩ := indexed node inInit
      have referred := allReferred node inInit index nodeIndexed
      have nodeEq := replaceNodes_eq indexed (distinct_concat distinct).1 closed
        childrenFirst.of_append inInit nodeIndexed
      rw [split, show before ++ node :: suffix = (before ++ [node]) ++ suffix
        by simp] at distinct childrenFirst referred
      have beforeFirst := childrenFirst.of_append
      rw [List.filterMap_append, List.nodup_append] at distinct
      obtain ⟨-, fresh⟩ := distinct_concat distinct.1
      rw [listIndexes, List.flatMap_append, List.mem_append] at referred
      rcases referred with inBefore | inSuffix
      · -- A reference up to the node itself would be to another node.
        obtain ⟨init, earlier⟩ := childrenFirst_concat.mp beforeFirst
        obtain ⟨child, inBefore, same⟩ :
            ∃ child ∈ before, child.index = some index := by
          rw [List.flatMap_append, List.mem_append] at inBefore
          rcases inBefore with inList | inNode
          · exact init.exists_of_mem inList
          · exact earlier index (by simpa using inNode)
        exact absurd same (fresh index nodeIndexed child inBefore)
      · obtain ⟨parent, inSuffix, refersTo⟩ := List.mem_flatMap.mp inSuffix
        obtain ⟨_, parentBuilt⟩ := later parent inSuffix
        obtain ⟨config, found, configEq, resolved⟩ :=
          exists_of_resolve_replaceReferences parentBuilt index refersTo
        rw [nodeEq, Option.some_inj] at configEq
        exact ⟨found, configEq ▸ resolved⟩
    · rw [List.mem_singleton.mp isLast]
      exact root

/-- The nodes that configurations are built of. -/
def resolvedConfigs (configs : ConfigEnv X) : NodeEnv X := fun index =>
  (configs index).bind fun config =>
    (ModelNode.resolve config fun _ => none).toOption

/-- The environment holds what its configurations resolve to. -/
theorem resolvedConfigs_eq {configs : ConfigEnv X} {index : UInt32}
    {config : CompiledNode X} {found : ModelNode X}
    (configEq : configs index = some config)
    (resolved : ModelNode.resolve config (fun _ => none) = .ok found) :
    resolvedConfigs configs index = some found := by
  rw [resolvedConfigs, configEq, Option.bind_some, resolved]
  rfl

/-- A node that can be built with its references replaced is accepted. -/
theorem accepted_of_buildable {configs : ConfigEnv X} {node : CompiledNode X}
    (closed : node.ClosedTrees) (buildable : Buildable configs node) :
    Accepted node := by
  obtain ⟨built, resolved⟩ := buildable
  have references := exists_of_resolve_replaceReferences resolved
  have represents : ∀ index ∈ node.nodeIndexes,
      Represents configs (resolvedConfigs configs) index := by
    intro index referred
    obtain ⟨config, found, configEq, configResolved⟩ := references index referred
    unfold Represents
    rw [resolvedConfigs_eq configEq configResolved, configEq]
    exact .some configResolved
  rw [resolve_replaceReferences closed represents] at resolved
  exact (accepted_iff closed (exists_of_resolve resolved)).mpr ⟨built, resolved⟩

/-- A cutting without references in update trees is a valid list. -/
theorem IsCutting.isValidList {root : CompiledNode X}
    {nodes : List (CompiledNode X)} (cutting : IsCutting root nodes)
    (closed : ∀ node ∈ nodes, node.ClosedTrees) {labeler : Labeler X}
    (built : Labeler.build root = .ok labeler) : IsValidList nodes := by
  obtain ⟨indexed, distinct, childrenFirst, cutOnce, putBack⟩ := cutting
  rw [allListIndexes_eq closed] at cutOnce
  have initFirst : ChildrenFirst nodes := by
    intro before node after split index referred
    refine childrenFirst before node after split index ?_
    rwa [(closed node (by simp [split])).allIndexes_eq]
  rcases List.eq_nil_or_concat nodes with rfl | ⟨init, last, rfl⟩
  · contradiction
  simp only [List.concat_eq_append] at *
  rw [List.dropLast_concat] at indexed cutOnce
  rw [replacedRoot_concat, Option.map_some, Option.some_inj] at putBack
  have rootBuildable : Buildable (replaceNodes init) last := by
    obtain ⟨node⟩ := labeler
    refine ⟨node, ?_⟩
    rw [← resolve_clearIndexes, putBack, resolve_clearIndexes]
    exact Labeler.build_eq_ok_iff.mp built
  have allBuildable := buildable_of_root indexed distinct
    (fun node member => closed node (List.mem_append_left _ member)) initFirst
    (fun node member index nodeIndexed => List.count_pos_iff.mp (by
      rw [cutOnce node member index nodeIndexed]
      exact Nat.one_pos)) rootBuildable (init ++ [last]) [] rfl
  refine ⟨by simp, ?_, initFirst, ?_, fun node member =>
    accepted_of_buildable (closed node member) (allBuildable node member)⟩
  · rwa [List.dropLast_concat]
  · rwa [List.dropLast_concat]

/-- A cutting of a tree gives the labeler of the tree unless a node was cut out
of an update tree. -/
theorem Labeler.builds_cutting_iff {root : CompiledNode X}
    {labeler : Labeler X} (built : build root = .ok labeler)
    {nodes : List (CompiledNode X)} (cutting : IsCutting root nodes) :
    (∃ fromList, buildFromList nodes = .ok fromList ∧ ∀ input mode,
      fromList.label input mode = labeler.label input mode) ↔
        ∀ node ∈ nodes, node.ClosedTrees := by
  constructor
  · rintro ⟨⟨node⟩, builtList, -⟩
    rcases List.eq_nil_or_concat nodes with rfl | ⟨init, last, rfl⟩
    · exact nofun
    rw [List.concat_eq_append] at builtList cutting ⊢
    obtain ⟨areIndexed, -, -, resolved⟩ :=
      (buildFromList_concat_iff cutting.distinct).mp builtList
    intro node member
    rcases List.mem_append.mp member with inInit | isLast
    · obtain ⟨before, after, split⟩ := List.append_of_mem inInit
      obtain ⟨_, nodeResolved⟩ := areIndexed.resolved before node after split
      exact closedTrees_of_resolve nodeResolved
    · rw [List.mem_singleton.mp isLast]
      exact closedTrees_of_resolve resolved
  · intro closed
    obtain ⟨acceptsIff, accepted, -⟩ :=
      accepts_valid_lists cutting.distinct closed
    obtain ⟨fromList, builtList⟩ :=
      acceptsIff.mpr (cutting.isValidList closed built)
    obtain ⟨root', replaced, built'⟩ := accepted fromList builtList
    have putBack := cutting.putBack
    rw [replaced, Option.map_some, Option.some_inj] at putBack
    have same : fromList = labeler := by
      obtain ⟨node⟩ := labeler
      obtain ⟨node'⟩ := fromList
      rw [build_eq_ok_iff, ← resolve_clearIndexes] at built built'
      rw [putBack, built] at built'
      rw [Except.ok.inj built']
    exact ⟨fromList, builtList, fun _ _ => by rw [same]⟩

/-- Cutting out a single node without anything below it. -/
theorem isCutting_pair {root child parent : CompiledNode X} {index : UInt32}
    (indexed : child.index = some index) (noIndex : parent.index = none)
    (childIndexes : child.allIndexes = []) (parentIndexes :
      parent.allIndexes = [index])
    (putBack : (replacedRoot [child, parent]).map clearIndexes =
      some (clearIndexes root)) : IsCutting root [child, parent] where
  indexed node member := by
    obtain rfl := List.mem_singleton.mp member
    exact ⟨index, indexed⟩
  distinct := by simp [indexed, noIndex]
  childrenFirst := by
    change ∀ before node after,
      ([] ++ [child]) ++ [parent] = before ++ node :: after → _
    rw [forall_split_concat (P := fun before (node : CompiledNode X) =>
      ∀ index ∈ node.allIndexes, ∃ child ∈ before, child.index = some index),
      forall_split_concat, childIndexes, parentIndexes]
    refine ⟨⟨by simp, by simp⟩, fun other member => ?_⟩
    obtain rfl := List.mem_singleton.mp member
    exact ⟨child, List.mem_singleton_self child, indexed⟩
  cutOnce node member other same := by
    obtain rfl := List.mem_singleton.mp member
    rw [indexed, Option.some_inj] at same
    simp [allListIndexes, childIndexes, parentIndexes, same]
  putBack := putBack

/-- A branch with one child, for concrete trees. -/
def oneBranch (child : ChildNode (CompiledNode .constant))
    (action : Action .constant (CompiledNode .constant)) :
    CompiledNode .constant :=
  .mk none (.branchNode ⟨[⟨child, .chance 1.0⟩], "seed", action⟩)

/-- A branch over a stop node, with an update tree of one branch. -/
def oneUpdateTree (child : ChildNode (CompiledNode .constant)) :
    CompiledNode .constant :=
  oneBranch (.node (.mk none .stopNode))
    (.updates [.updateTree (oneBranch child .notSet)])

/-- A stop node that is cut out of an update tree is not found. -/
theorem Labeler.builds_no_cut_update_tree :
    (∃ labeler, build (oneUpdateTree (.node (.mk none .stopNode))) =
      .ok labeler) ∧
      IsCutting (oneUpdateTree (.node (.mk none .stopNode)))
        [.mk (some 2) .stopNode, oneUpdateTree (.nodeIndex 2)] ∧
      ∀ fromList, buildFromList
        [.mk (some 2) .stopNode, oneUpdateTree (.nodeIndex 2)] ≠
          .ok fromList := by
  refine ⟨⟨_, rfl⟩, isCutting_pair rfl rfl rfl rfl rfl, ?_⟩
  exact fun fromList builtList => by contradiction

/-- A stop node that is cut out of a branch. -/
theorem Labeler.builds_cutting_branch :
    (∃ labeler, build (oneBranch (.node (.mk none .stopNode)) .notSet) =
      .ok labeler) ∧
      ∀ node ∈ [.mk (some 2) .stopNode, oneBranch (.nodeIndex 2) .notSet],
        node.ClosedTrees := by
  have cutting : IsCutting (oneBranch (.node (.mk none .stopNode)) .notSet)
      [.mk (some 2) .stopNode, oneBranch (.nodeIndex 2) .notSet] :=
    isCutting_pair rfl rfl rfl rfl rfl
  exact ⟨⟨_, rfl⟩, (builds_cutting_iff rfl cutting).mp
    ⟨_, rfl, fun _ _ => rfl⟩⟩

end Cc

end VirtualPeople
