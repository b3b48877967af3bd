import VirtualPeople.Cc.CompleteParts
import VirtualPeople.Cc.NodeLists

/-!
# Complete models

A model is complete for the served events when all of its branches have a child
for each of them and all of its parts have an answer.  By induction on the tree
such a model labels every served event, whether it was built from a root or from
a list of nodes.
-/

namespace VirtualPeople.Cc

open Binary64

variable {X : Externals} {served : X.Event → Prop} {event : X.Event}

/-- Every part of the tree has an answer for every served event, the leaves are
of the given kind, and update trees end in stop nodes. -/
inductive ModelNode.Complete (served : X.Event → Prop) :
    (LeafNode → Prop) → ModelNode X → Prop
  | leafNode {allowed : LeafNode → Prop} {leaf : LeafNode}
      (isAllowed : allowed leaf) : Complete served allowed (.leafNode leaf)
  | branchNode {allowed : LeafNode → Prop}
      {impl : BranchNodeImpl X (ModelNode X)}
      (conditions : ∀ matcher ∈ impl.matcher, matcher.Covers served)
      (counts : ∀ multiplicity ∈ impl.multiplicity, ∀ event, served event →
        multiplicity.Counts event)
      (onePerson : ∀ multiplicity ∈ impl.multiplicity, Preserves served
        (X.setValueToProto .int32 · multiplicity.personIndexField 0))
      (clones : ∀ multiplicity ∈ impl.multiplicity, ∀ personIndex,
        Preserves served
          (BranchNodeImpl.cloneEvent multiplicity · personIndex))
      (updaters : ∀ updater ∈ impl.updaters, updater.Complete served)
      (trees : ∀ updater ∈ impl.updaters, ∀ root ∈ updater.treeRoot,
        Complete served (fun leaf => leaf = .stopNode) root)
      (children : ∀ child ∈ impl.childNodes, Complete served allowed child) :
      Complete served allowed (.branchNode impl)

/-! ## Branches -/

/-- The events handed to the children are served. -/
def Dispatch.IsServed (served : X.Event → Prop) : Dispatch X → Prop
  | .onward next => served next
  | .clones events => ∀ clone ∈ events, served clone

namespace BranchNodeImpl

variable {selections : List (SelectBy X)}
  {impl : BranchNodeImpl X (ModelNode X)}

/-- A covered event is handed to one of the children. -/
theorem selectChild_isOk
    (selection : buildSelection selections = .ok (impl.hashing, impl.matcher))
    (sameLength : impl.childNodes.length = selections.length)
    (conditions : ∀ matcher ∈ impl.matcher, matcher.Covers served)
    (isServed : served event) :
    ∃ child ∈ impl.childNodes, impl.selectChild event = .ok child := by
  have select {selectedIndex : ℤ}
      (isPosition : IsPosition selections.length selectedIndex)
      (selected : impl.selectIndex event = .ok selectedIndex) :
      ∃ child ∈ impl.childNodes, impl.selectChild event = .ok child := by
    rw [← sameLength] at isPosition
    obtain ⟨child, childAt, found⟩ := isPosition.elementAt_eq
    obtain ⟨nonneg, lt⟩ := isPosition
    refine ⟨child, List.mem_of_getElem? childAt, ?_⟩
    unfold selectChild
    rw [selected]
    exact (if_neg (by omega)).trans found
  rcases buildSelection_cases selection with
    ⟨selected, hashingEq, positions⟩ | ⟨hashingEq, matcher, matcherEq, length⟩
  · refine select (positions (impl.randomSeed ++
      toString (event.actingFingerprint.getD 0))) ?_
    unfold selectIndex
    rw [hashingEq]
    rfl
  · have found := (conditions matcher matcherEq).getFirstMatch isServed
    refine select (length ▸ matcher.isPosition_getFirstMatch found) ?_
    unfold selectIndex
    rw [hashingEq, matcherEq]
    exact if_neg found

/-- What a branch node hands to its children is served. -/
theorem yields_dispatch {action : Action X (Builder X)}
    (actionBuilt : buildAction action = .ok (impl.updaters, impl.multiplicity))
    (updaters : ∀ updater ∈ impl.updaters, ∀ event, served event →
      Yields served (ModelNode.updateEvent updater event))
    (counts : ∀ multiplicity ∈ impl.multiplicity, ∀ event, served event →
      multiplicity.Counts event)
    (onePerson : ∀ multiplicity ∈ impl.multiplicity, Preserves served
      (X.setValueToProto .int32 · multiplicity.personIndexField 0))
    (clones : ∀ multiplicity ∈ impl.multiplicity, ∀ personIndex,
      Preserves served (cloneEvent multiplicity · personIndex))
    (isServed : served event) :
    Yields (Dispatch.IsServed served)
      (impl.dispatch ModelNode.updateEvent event) := by
  unfold dispatch
  cases multiplicityEq : impl.multiplicity with
  | none =>
    exact (Yields.foldlM updaters isServed).bind fun _ isServed => .ok isServed
  | some multiplicity =>
    rw [multiplicityEq] at actionBuilt
    rw [updaters_eq_nil_of_buildAction actionBuilt]
    obtain ⟨count, countEq⟩ :=
      (counts multiplicity multiplicityEq event isServed).computes
    change Yields _ (dispatchMultiplicity multiplicity event)
    unfold dispatchMultiplicity
    rw [countEq]
    change Yields _ (if count = 1 then _ else _)
    split_ifs
    · exact .ok (onePerson multiplicity multiplicityEq event isServed)
    · refine .ok fun clone member => ?_
      obtain ⟨personIndex, -, rfl⟩ := List.mem_map.mp member
      exact clones multiplicity multiplicityEq personIndex event isServed

/-- A walk that dispatches served events yields what its children do. -/
theorem yields_walk {kind : X.Event → Prop}
    (selection : buildSelection selections = .ok (impl.hashing, impl.matcher))
    (sameLength : impl.childNodes.length = selections.length)
    (conditions : ∀ matcher ∈ impl.matcher, matcher.Covers served)
    (dispatches : Yields (Dispatch.IsServed served)
      (impl.dispatch ModelNode.updateEvent event))
    (children : ∀ child ∈ impl.childNodes, ∀ event, served event →
      Yields kind (applyToCopy child.apply event))
    (merges : ∀ clones : List X.Event, (∀ clone ∈ clones, kind clone) →
      kind (clones.foldl foldBack event)) :
    Yields kind (impl.walk ModelNode.updateEvent
      (fun child => applyToCopy child.apply) (List.foldl foldBack) event) := by
  have walkChild (event : X.Event) (isServed : served event) : Yields kind
      (impl.walkChild (fun child => applyToCopy child.apply) event) := by
    obtain ⟨child, member, selected⟩ :=
      selectChild_isOk selection sameLength conditions isServed
    unfold BranchNodeImpl.walkChild
    rw [selected]
    exact children child member event isServed
  refine dispatches.bind fun dispatched areServed => ?_
  cases dispatched with
  | onward next => exact walkChild next areServed
  | clones clones =>
    exact (Yields.mapM fun clone member =>
      walkChild clone (areServed clone member)).bind fun values hold =>
        .ok (merges values hold)

end BranchNodeImpl

/-! ## Trees -/

/-- Leaves of the kind `allowed` take served events to events of the kind
`final`, and so do clones of a served event that are folded back. -/
structure Finishes (served : X.Event → Prop) (allowed : LeafNode → Prop)
    (final : X.Event → Prop) : Prop where
  leaf : ∀ leaf, allowed leaf → leaf.IsBuilt → ∀ event, served event →
    Yields final (applyToCopy leaf.apply event)
  merge : ∀ event (clones : List X.Event), served event →
    (∀ clone ∈ clones, final clone) → final (clones.foldl BranchNodeImpl.foldBack event)

/-- Stop nodes take served events to served ones. -/
theorem Servable.finishes_stopNode (servable : Servable served) :
    Finishes served (fun leaf => leaf = .stopNode) served where
  leaf leaf isStop _ event isServed := by
    rw [isStop]
    exact .ok isServed
  merge event clones isServed areServed := by
    induction clones generalizing event with
    | nil => exact isServed
    | cons clone clones inductionHypothesis =>
      have ⟨head, tail⟩ := List.forall_mem_cons.mp areServed
      exact inductionHypothesis _ (servable.foldBack event clone isServed head)
        tail

/-- Leaves that answer apply to every served event. -/
theorem Servable.finishes (servable : Servable served) :
    Finishes served (LeafNode.Answers served) fun _ => True where
  leaf leaf answers isBuilt event isServed := by
    obtain ⟨final, applied⟩ := answers.applies isBuilt servable isServed
    exact ⟨final, applied, trivial⟩
  merge _ _ _ _ := trivial

namespace ModelNode

/-- When the node is complete, its application takes served events to what its
leaves take them to. -/
def Serves (served : X.Event → Prop) (node : ModelNode X) : Prop :=
  ∀ {allowed : LeafNode → Prop} {final : X.Event → Prop},
    Finishes served allowed final → Complete served allowed node →
      ∀ event, served event → Yields final (applyToCopy node.apply event)

theorem serves_leafNode {leaf : LeafNode} (isBuilt : leaf.IsBuilt) :
    Serves served (.leafNode leaf) := by
  intro allowed final finishes complete event isServed
  cases complete with
  | leafNode isAllowed =>
    rw [apply_leafNode]
    exact finishes.leaf leaf isAllowed isBuilt event isServed

/-- Updates whose trees serve yield served events. -/
theorem serves_updaters {action : Action X (CompiledNode X)}
    {updaters : List (AttributesUpdaterInterface X (ModelNode X))}
    {multiplicity : Option (MultiplicityImpl X)}
    (built : buildAction (resolveAction action) = .ok (updaters, multiplicity))
    (servable : Servable served)
    (trees : ∀ root ∈ action.trees, ∀ node,
      resolve root (fun _ => none) = .ok node → node.Serves served)
    (complete : ∀ updater ∈ updaters, updater.Complete served)
    (completeTrees : ∀ updater ∈ updaters, ∀ root ∈ updater.treeRoot,
      Complete served (fun leaf => leaf = .stopNode) root) :
    ∀ updater ∈ updaters, ∀ event, served event →
      Yields served (updateEvent updater event) := by
  cases action with
  | updates updates =>
    obtain ⟨_, mapped, built⟩ := bind_eq_ok_iff.mp built
    obtain ⟨rfl, -⟩ := Prod.mk.inj (Except.ok.inj built)
    intro updater member event isServed
    obtain ⟨_, inMap, updaterBuilt⟩ := exists_mem_of_mem_mapM mapped member
    obtain ⟨config, inUpdates, rfl⟩ := List.mem_map.mp inMap
    refine AttributesUpdaterInterface.Complete.yields_updateEvent updaterBuilt
      (complete updater member) (fun node isRoot => ?_) isServed
    obtain ⟨root, rootEq, resolved⟩ :=
      BranchNodeImpl.exists_of_treeRoot updaterBuilt isRoot
    exact trees root (List.mem_filterMap.mpr ⟨config, inUpdates, rootEq⟩) node
      resolved servable.finishes_stopNode (completeTrees updater member node isRoot)
  | multiplicity config =>
    obtain ⟨_, -, built⟩ := bind_eq_ok_iff.mp built
    obtain ⟨rfl, -⟩ := Prod.mk.inj (Except.ok.inj built)
    exact fun _ member => absurd member List.not_mem_nil
  | notSet =>
    obtain ⟨rfl, -⟩ := Prod.mk.inj (Except.ok.inj built)
    exact fun _ member => absurd member List.not_mem_nil

/-- A property of built nodes holds of what a branch resolves to when it holds
of the nodes to refer to and of what inline children resolve to. -/
theorem of_resolveBranch {P : ModelNode X → Prop}
    {branch : Branch X (CompiledNode X)} {env : NodeEnv X} {node : ModelNode X}
    (resolved : resolveBranch env branch = .ok node)
    (refs : ∀ index child, env index = some child → P child)
    (inline : ∀ child, branch.childNode = .node child →
      resolve child env = .ok node → P node) : P node := by
  obtain ⟨childNode, selectBy⟩ := branch
  cases childNode with
  | nodeIndex index =>
    simp only [resolveBranch, ChildNode.map, resolveChild] at resolved
    split at resolved
    · rename_i child found
      rw [← Except.ok.inj resolved]
      exact refs index child found
    · contradiction
  | node child => exact inline child rfl resolved
  | notSet => contradiction

/-- A resolved node serves if the nodes it may refer to do. -/
theorem serves_of_resolve (servable : Servable served)
    {config : CompiledNode X} {env : NodeEnv X} {node : ModelNode X}
    (resolved : resolve config env = .ok node)
    (refs : ∀ index child, env index = some child → child.Serves served) :
    node.Serves served := by
  induction config using CompiledNode.induction generalizing env node with
  | step index type inductionHypothesis =>
    cases type with
    | branchNode config =>
      obtain ⟨-, childNodes, impl, children, assembled, rfl⟩ :=
        resolve_branchNode_eq_ok_iff.mp resolved
      obtain ⟨selection, actionBuilt, rfl, -⟩ :=
        BranchNodeImpl.assemble_eq_ok_iff.mp assembled
      intro allowed final finishes complete event isServed
      cases complete with
      | branchNode conditions counts onePerson clones updaters trees below =>
        rw [applyToCopy_branchNode]
        refine BranchNodeImpl.yields_walk selection ?_ conditions
          (BranchNodeImpl.yields_dispatch actionBuilt ?_ counts onePerson clones
            isServed) ?_ fun clones => finishes.merge event clones isServed
        · rw [List.length_map, (mapM_eq_ok_iff.mp children).length_eq]
        · refine serves_updaters actionBuilt servable ?_ updaters trees
          intro root member node rootResolved
          exact inductionHypothesis root (List.mem_append_right _ member)
            rootResolved (by simp)
        · intro child member
          obtain ⟨branch, inBranches, childResolved⟩ :=
            exists_mem_of_mem_mapM children member
          refine of_resolveBranch (P := Serves served) childResolved refs ?_
            finishes (below child member)
          intro inline isInline inlineResolved
          exact forall_branches (P := fun inline => ∀ {env : NodeEnv X}
              {node : ModelNode X}, resolve inline env = .ok node →
                (∀ index child, env index = some child → child.Serves served) →
                  node.Serves served)
            inductionHypothesis branch inBranches inline isInline inlineResolved
            refs
    | stopNode =>
      obtain rfl := Except.ok.inj resolved
      exact serves_leafNode .stopNode
    | populationNode config =>
      obtain ⟨leaf, built, same⟩ := bind_eq_ok_iff.mp resolved
      obtain rfl := Except.ok.inj same
      exact serves_leafNode (.populationNode built)
    | rankedPopulationNode config =>
      obtain ⟨leaf, -, same⟩ := bind_eq_ok_iff.mp resolved
      obtain rfl := Except.ok.inj same
      exact serves_leafNode (.rankedPopulationNode leaf)
    | notSet => contradiction

/-- A built node serves. -/
theorem IsBuilt.serves (servable : Servable served) {node : ModelNode X}
    (isBuilt : node.IsBuilt) : node.Serves served := by
  induction isBuilt with
  | build _ built refsServe =>
    obtain ⟨-, resolved, -⟩ := (buildsByLookup _ _ _ _).mp built
    exact serves_of_resolve servable resolved refsServe

end ModelNode

/-! ## Built labelers -/

namespace Labeler

/-- The nodes of a table come from `ModelNode::Build`. -/
def HoldsBuilt (refs : NodeRefs X) : Prop :=
  ∀ index child, refs.lookup index = some child → child.IsBuilt

/-- Nodes that are left in the table are built. -/
theorem HoldsBuilt.eraseAll {refs : NodeRefs X} (holds : HoldsBuilt refs)
    (indexes : List UInt32) : HoldsBuilt (eraseAll refs indexes) := by
  intro index child found
  rw [lookup_eraseAll] at found
  split_ifs at found
  exact holds index child found

/-- A node that is built from a table of built nodes is built, and the rest are. -/
theorem HoldsBuilt.build {refs rest : NodeRefs X} (holds : HoldsBuilt refs)
    {config : CompiledNode X} {node : ModelNode X}
    (built : ModelNode.build config refs = .ok node rest) :
    node.IsBuilt ∧ HoldsBuilt rest := by
  refine ⟨.build holds built, ?_⟩
  obtain ⟨-, -, rfl⟩ := (buildsByLookup _ _ _ _).mp built
  exact holds.eraseAll _

/-- Adding a node keeps the table and the root built. -/
theorem HoldsBuilt.addNode {refs refs' : NodeRefs X} (holds : HoldsBuilt refs)
    {root found : Option (ModelNode X)} {config : CompiledNode X}
    (added : addNode root config refs = .ok found refs') :
    (∀ node ∈ found, node.IsBuilt) ∧ HoldsBuilt refs' := by
  cases found with
  | none =>
    obtain ⟨-, index, node, rest, -, built, -, rfl⟩ :=
      addNode_eq_ok_none_iff.mp added
    obtain ⟨isBuilt, holdsRest⟩ := holds.build built
    refine ⟨by simp, fun other child childFound => ?_⟩
    by_cases same : other = index
    · rw [same, AList.lookup_insert, Option.some_inj] at childFound
      rwa [← childFound]
    · rw [AList.lookup_insert_ne same] at childFound
      exact holdsRest other child childFound
  | some node =>
    obtain ⟨-, -, built⟩ := addNode_eq_ok_some_iff.mp added
    obtain ⟨isBuilt, holdsRest⟩ := holds.build built
    exact ⟨by simpa using isBuilt, holdsRest⟩

/-- Adding nodes keeps the table and the root built. -/
theorem HoldsBuilt.addNodes {refs refs' : NodeRefs X} (holds : HoldsBuilt refs)
    {root found : Option (ModelNode X)} (rootBuilt : ∀ node ∈ root, node.IsBuilt)
    {nodes : List (CompiledNode X)}
    (added : nodes.foldlM Labeler.addNode root refs = .ok found refs') :
    (∀ node ∈ found, node.IsBuilt) ∧ HoldsBuilt refs' := by
  induction nodes generalizing root refs with
  | nil =>
    injection added with sameRoot sameRefs
    rw [← sameRoot, ← sameRefs]
    exact ⟨rootBuilt, holds⟩
  | cons config nodes inductionHypothesis =>
    rw [List.foldlM_cons, Step.run_bind_eq_ok_iff] at added
    obtain ⟨root', middle, head, tail⟩ := added
    obtain ⟨rootBuilt', holds'⟩ := holds.addNode head
    exact inductionHypothesis holds' rootBuilt' tail

@[simp] theorem holdsBuilt_empty : HoldsBuilt (∅ : NodeRefs X) := by
  intro index child found
  rw [AList.lookup_empty] at found
  contradiction

/-- The root of a labeler is built. -/
theorem isBuilt_of_build {root : CompiledNode X} {labeler : Labeler X}
    (built : build root = .ok labeler) : labeler.root.IsBuilt := by
  obtain ⟨node, alone, same⟩ := bind_eq_ok_iff.mp built
  rw [← Except.ok.inj same]
  obtain ⟨rest, run⟩ := Builder.alone_eq_ok_iff.mp alone
  exact (holdsBuilt_empty.build run).1

/-- The root of a labeler from a list of nodes is built. -/
theorem isBuilt_of_buildFromList {nodes : List (CompiledNode X)}
    {labeler : Labeler X} (built : buildFromList nodes = .ok labeler) :
    labeler.root.IsBuilt := by
  obtain ⟨root⟩ := labeler
  obtain ⟨rest, built⟩ := buildFromList_eq_ok_iff.mp built
  obtain ⟨-, added | ⟨refs, added, index, found, -⟩⟩ :=
    buildNodes_eq_ok_iff.mp built
  · exact (holdsBuilt_empty.addNodes (by simp) added).1 root rfl
  · exact (holdsBuilt_empty.addNodes (by simp) added).2 index root found

/-- A labeler that one of the builders returns labels every input whose event
its model is complete for. -/
theorem label_of_complete (labeler : Labeler X)
    (built : (∃ root, build root = .ok labeler) ∨
      ∃ nodes, buildFromList nodes = .ok labeler)
    (servable : Servable served)
    (complete : labeler.root.Complete served (LeafNode.Answers served))
    (input : X.Input) (mode : LabelingMode)
    (isServed : served (prepareEvent input mode)) :
    ∃ output, labeler.label input mode = .ok output := by
  have isBuilt : labeler.root.IsBuilt := by
    rcases built with ⟨root, built⟩ | ⟨nodes, built⟩
    · exact isBuilt_of_build built
    · exact isBuilt_of_buildFromList built
  obtain ⟨final, applied, -⟩ :=
    isBuilt.serves servable servable.finishes complete _ isServed
  unfold label
  rw [applied]
  exact ⟨_, rfl⟩

/-! ## Blank events -/

/-- An event without people and without quantum labels. -/
def Blank (event : X.Event) : Prop :=
  event.virtualPersonActivities = [] ∧ event.quantumLabels = none

/-- Blank events can be served. -/
theorem servable_blank : Servable (X := X) Blank where
  unlabeled _ blank := blank.1
  collapses event blank quantumLabel member := by
    rw [blank.2] at member
    exact absurd member List.not_mem_nil
  foldBack event clone blank blank' := by
    refine ⟨?_, blank.2⟩
    change event.virtualPersonActivities ++ clone.virtualPersonActivities = []
    rw [blank.1, blank'.1, List.append_nil]

/-- The event that is prepared for an input is blank. -/
theorem blank_prepareEvent (input : X.Input) (mode : LabelingMode) :
    Blank (prepareEvent input mode) := by
  cases mode with
  | full => exact ⟨rfl, rfl⟩
  | poolIdentity => exact ⟨rfl, rfl⟩

/-- Two or three clones for a pool of ten people. -/
def clonesOfTenPeople : CompiledNode .constant :=
  .mk none (.branchNode ⟨[⟨.node (.mk none (.populationNode
    ⟨[⟨7, 10⟩], "people"⟩)), .condition ()⟩], "seed",
      .multiplicity (explicitMultiplicity 2.5)⟩)

/-- Two or three clones are labeled over a pool of ten people. -/
theorem label_of_complete_clonesOfTenPeople :
    ∃ labeler, build clonesOfTenPeople = .ok labeler ∧
      ∃ output, labeler.label Externals.constant.emptyInput .full =
        .ok output := by
  obtain ⟨labeler, built⟩ : ∃ labeler, build clonesOfTenPeople = .ok labeler :=
    ⟨_, rfl⟩
  have complete : labeler.root.Complete Blank
      (LeafNode.Answers (X := .constant) Blank) := by
    rw [← Except.ok.inj built]
    refine .branchNode ?_ ?_ ?_ ?_ (by simp) (by simp)
      (List.forall_mem_cons.mpr ⟨.leafNode trivial, by simp⟩)
    · intro matcher isMatcher
      rw [← Option.some.inj isMatcher]
      exact fun event _ => ⟨(), List.mem_singleton.mpr rfl, rfl⟩
    · intro multiplicity isMultiplicity event _
      rw [← Option.some.inj isMultiplicity]
      exact ⟨2.5, 5 / 2, 5 / 2, rfl, .positive represents_five_halves,
        .positive represents_five_halves, .inr rfl, by norm_num⟩
    · exact fun _ _ event blank => blank
    · exact fun _ _ _ event blank => blank
  exact ⟨labeler, built, label_of_complete labeler (.inl ⟨_, built⟩)
    servable_blank complete _ .full (blank_prepareEvent _ .full)⟩

end Labeler

end VirtualPeople.Cc
