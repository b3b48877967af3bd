import VirtualPeople.Cc.ImpossibleChoices
import VirtualPeople.Successes

/-!
# Behaviours of configurations

What a configuration denotes is the behaviour of the node that it is built to,
if it is built at all.  A branch denotes what its action makes of the choice
among its children, each of which enters by what it denotes alone, so that a
part of a model may be replaced by any other of the same builtBehaviour.
-/

namespace VirtualPeople.Cc

variable {X : Externals}

/-! ## A choice and what an action makes of it -/

namespace BranchNodeImpl

/-- A branch with one child, which it always selects. -/
def onlyChild (updaters : List (AttributesUpdaterInterface X (Behaviour X)))
    (multiplicity : Option (MultiplicityImpl X)) (child : Behaviour X) :
    BranchNodeImpl X (Behaviour X) :=
  ⟨[child], some ⟨[]⟩, "", none, updaters, multiplicity⟩

/-- A branch node that selects one child for all events applies it. -/
theorem applyChild_eq_of_selectChild {impl : BranchNodeImpl X (Behaviour X)}
    {child : Behaviour X} (selects : ∀ event, impl.selectChild event = .ok child) :
    impl.applyChild = child := by
  funext event
  have chosen : (Step.lift (impl.selectChild event) : Step X.Event _) event =
      .ok child event := by
    rw [selects event]
    rfl
  exact Step.run_bind_of_ok (fun child => child) chosen

@[simp] theorem applyChild_onlyChild
    (updaters : List (AttributesUpdaterInterface X (Behaviour X)))
    (multiplicity : Option (MultiplicityImpl X)) (child : Behaviour X) :
    (onlyChild updaters multiplicity child).applyChild = child :=
  applyChild_eq_of_selectChild fun _ => rfl

/-- A branch applies its action to its choice as to an only child. -/
theorem apply_eq_apply_onlyChild (impl : BranchNodeImpl X (Behaviour X)) :
    impl.apply =
      (onlyChild impl.updaters impl.multiplicity impl.applyChild).apply := by
  unfold apply applyMultiplicity
  simp only [applyChild_onlyChild]
  rfl

/-- The updates are made before the only child is applied. -/
theorem apply_onlyChild_updaters
    (updaters : List (AttributesUpdaterInterface X (Behaviour X)))
    (child : Behaviour X) :
    (onlyChild updaters none child).apply =
      ((updaters.map AttributesUpdaterInterface.update).forM id >>=
        fun _ => child) := by
  change (forM updaters AttributesUpdaterInterface.update >>=
    fun _ => (onlyChild updaters none child).applyChild) = _
  rw [applyChild_onlyChild, List.forM_eq_forM, List.forM_map]
  rfl

end BranchNodeImpl

/-! ## Behaviours -/

/-- The behaviour of the node that a configuration is built to. -/
def builtBehaviour (config : CompiledNode X) : Option (Behaviour X) :=
  (ModelNode.build config).alone.toOption.map ModelNode.apply

/-- What the child of a branch denotes, when it is inline. -/
def childBehaviour (branch : Branch X (CompiledNode X)) :
    Option (Behaviour X) :=
  match branch.childNode with
  | .node child => builtBehaviour child
  | _ => none

/-- The choice among the children of a branch. -/
def choiceBehaviour (branches : List (Branch X (CompiledNode X)))
    (randomSeed : String) : Option (Behaviour X) :=
  (branches.mapM childBehaviour).bind fun children =>
    (buildSelection (branches.map (·.selectBy))).toOption.map fun selection =>
      BranchNodeImpl.applyChild
        ⟨children, selection.1, randomSeed, selection.2, [], none⟩

/-- What an action makes of the choice. -/
def actionEffect (action : Action X (CompiledNode X)) :
    Option (Behaviour X → Behaviour X) :=
  (buildAction (action.map ModelNode.build)).toOption.map fun parts child =>
    (BranchNodeImpl.onlyChild
      (parts.1.map (AttributesUpdaterInterface.map ModelNode.apply)) parts.2
      child).apply

/-- What an update denotes. -/
def updateBehaviour (updater : AttributesUpdater X (CompiledNode X)) :
    Option (Behaviour X) :=
  (AttributesUpdaterInterface.build
    (updater.map ModelNode.build)).toOption.map fun updater =>
      (updater.map ModelNode.apply).update

@[simp] theorem builtBehaviour_stopNode (index : Option UInt32) :
    builtBehaviour (.mk index .stopNode : CompiledNode X) = some (pure ()) := rfl

/-- The index of a node does not show in its behaviour. -/
theorem builtBehaviour_index (index index' : Option UInt32)
    (type : NodeType X (CompiledNode X)) :
    builtBehaviour (.mk index type) = builtBehaviour (.mk index' type) := by
  unfold builtBehaviour
  rw [ModelNode.build_mk, ModelNode.build_mk]

@[simp] theorem childBehaviour_node (child : CompiledNode X)
    (selectBy : SelectBy X) :
    childBehaviour ⟨.node child, selectBy⟩ = builtBehaviour child := rfl

/-- A child that is taken from the empty map has the behaviour of the branch. -/
theorem toOption_appendChildNode (branch : Branch X (CompiledNode X)) :
    (Step.outcome
        (appendChildNode (branch.map ModelNode.build) ∅)).toOption.map
      ModelNode.apply = childBehaviour branch := by
  obtain ⟨childNode, selectBy⟩ := branch
  cases childNode with
  | nodeIndex index => rfl
  | notSet => rfl
  | node child =>
    rw [childBehaviour_node, builtBehaviour, Builder.alone_eq]
    rfl

/-- The children of a branch, built without nodes to refer to. -/
def builtChildren (branches : List (Branch X (CompiledNode X))) :
    Result (List (ModelNode X)) :=
  branches.mapM fun branch =>
    Step.outcome (appendChildNode (branch.map ModelNode.build) ∅)

/-- The children that are built have the behaviours of the branches. -/
theorem mapM_childBehaviour (branches : List (Branch X (CompiledNode X))) :
    branches.mapM childBehaviour =
      (builtChildren branches).toOption.map (List.map ModelNode.apply) := by
  unfold builtChildren
  rw [toOption_mapM, mapM_map_some]
  exact congrArg (List.mapM · branches)
    (funext fun branch => (toOption_appendChildNode branch).symm)

/-- The parts of a branch are built on their own. -/
theorem toOption_alone_branchNode (index : Option UInt32)
    (config : BranchNode X (CompiledNode X)) :
    (ModelNode.build (.mk index (.branchNode config))).alone.toOption =
      (builtChildren config.branches).toOption.bind fun childNodes =>
        (buildSelection (config.branches.map (·.selectBy))).toOption.bind
          fun selection =>
            (buildAction (config.action.map ModelNode.build)).toOption.map
              fun parts => .branchNode ⟨childNodes, selection.1,
                config.randomSeed, selection.2, parts.1, parts.2⟩ := by
  have selections : (config.map ModelNode.build).branches.map (·.selectBy) =
      config.branches.map (·.selectBy) := by
    simp [BranchNode.map, Branch.map]
  rw [alone_build_branchNode, BranchNodeImpl.outcome_build (keeps_children
    fun branch _ child _ => keeps_build child), selections]
  cases branchesEq : config.branches with
  | nil => simp [BranchNode.map, branchesEq, builtChildren, buildSelection]
  | cons branch branches =>
    rw [if_neg (by simp [BranchNode.map, branchesEq]), ← branchesEq]
    unfold builtChildren BranchNodeImpl.assemble
    rw [BranchNode.map, List.mapM_map]
    simp [Function.comp_def]

/-- A branch denotes what its action makes of the choice among its children. -/
theorem builtBehaviour_branchNode (index : Option UInt32)
    (config : BranchNode X (CompiledNode X)) :
    builtBehaviour (.mk index (.branchNode config)) =
      (actionEffect config.action).bind fun act =>
        (choiceBehaviour config.branches config.randomSeed).map act := by
  unfold builtBehaviour choiceBehaviour actionEffect
  rw [toOption_alone_branchNode, mapM_childBehaviour]
  cases Except.toOption (builtChildren config.branches) with
  | none => simp
  | some childNodes =>
    cases Except.toOption (buildSelection _) with
    | none => simp
    | some selection =>
      cases Except.toOption (buildAction _) with
      | none => rfl
      | some parts =>
        refine congrArg some ((ModelNode.apply_branchNode _).trans ?_)
        rw [BranchNodeImpl.apply_eq_apply_onlyChild]
        rfl

/-! ## Updates -/

@[simp] theorem actionEffect_notSet :
    actionEffect (.notSet : Action X (CompiledNode X)) = some id :=
  congrArg some (funext fun child =>
    BranchNodeImpl.apply_onlyChild_updaters [] child)

/-- What a list of updates denotes, one after the other. -/
def updatesBehaviour (updates : List (AttributesUpdater X (CompiledNode X))) :
    Option (Behaviour X) :=
  (updates.mapM updateBehaviour).map fun steps => steps.forM id

/-- The updates of a branch come before its child. -/
theorem actionEffect_updates
    (updates : List (AttributesUpdater X (CompiledNode X))) :
    actionEffect (.updates updates) =
      (updatesBehaviour updates).map fun step child =>
        step >>= fun _ => child := by
  have steps : updates.mapM updateBehaviour =
      ((updates.map (AttributesUpdater.map ModelNode.build)).mapM
        AttributesUpdaterInterface.build).toOption.map
          (List.map fun updater => (updater.map ModelNode.apply).update) := by
    rw [toOption_mapM, mapM_map_some, List.mapM_map]
    rfl
  unfold actionEffect updatesBehaviour
  rw [steps]
  simp only [Action.map, buildAction, toOption_bind]
  cases Except.toOption (List.mapM AttributesUpdaterInterface.build _) with
  | none => rfl
  | some updaters =>
    refine congrArg some (funext fun child => ?_)
    refine (BranchNodeImpl.apply_onlyChild_updaters _ child).trans ?_
    rw [List.map_map]
    rfl

@[simp] theorem updatesBehaviour_nil :
    updatesBehaviour ([] : List (AttributesUpdater X (CompiledNode X))) =
      some (pure ()) := rfl

@[simp] theorem updatesBehaviour_singleton
    (updater : AttributesUpdater X (CompiledNode X)) :
    updatesBehaviour [updater] = updateBehaviour updater := by
  unfold updatesBehaviour
  rw [List.mapM_cons]
  cases updateBehaviour updater with
  | none => rfl
  | some step => exact congrArg some bind_pure_unit

/-- The behaviour of a list of updates is that of its parts in turn. -/
theorem updatesBehaviour_append
    (first second : List (AttributesUpdater X (CompiledNode X))) :
    updatesBehaviour (first ++ second) =
      (updatesBehaviour first).bind fun step =>
        (updatesBehaviour second).map fun next => step >>= fun _ => next := by
  unfold updatesBehaviour
  rw [List.mapM_append]
  cases first.mapM updateBehaviour with
  | none => rfl
  | some steps =>
    cases second.mapM updateBehaviour with
    | none => rfl
    | some rest => exact congrArg some List.forM_append

@[simp] theorem updateBehaviour_updateTree (root : CompiledNode X) :
    updateBehaviour (.updateTree root) = builtBehaviour root := by
  unfold updateBehaviour builtBehaviour
  rw [AttributesUpdater.map, AttributesUpdaterInterface.build]
  cases (ModelNode.build root).alone <;> rfl

/-! ## Choices -/

/-- The only branch is selected whatever its hash is. -/
theorem choiceBehaviour_onlyBranch {chance : Float}
    (normalizable : Normalizable [chance]) (child : CompiledNode X)
    (randomSeed : String) :
    choiceBehaviour [⟨.node child, .chance chance⟩] randomSeed =
      builtBehaviour child := by
  obtain ⟨hashing, built⟩ :=
    (DistributedConsistentHashing.succeeds_build_enumerateChoices [chance]).mpr
      normalizable
  have selection : buildSelection [(.chance chance : SelectBy X)] =
      .ok (some hashing, none) := by
    change (DistributedConsistentHashing.build _ >>= fun hashing =>
      pure (some hashing, none)) = _
    exact congrArg (fun hashing => hashing >>= fun hashing =>
      (pure (some hashing, none) : Result _)) built
  have selectsFirst (seed : String) : hashing.hash X seed = 0 := by
    unfold DistributedConsistentHashing.hash
    rw [DistributedConsistentHashing.distribution_of_build built]
    simp only [enumerateChoices, List.mapIdx_cons, List.mapIdx_nil,
      List.map_cons, List.map_nil, List.foldl_cons, List.foldl_nil]
    split_ifs <;> rfl
  unfold choiceBehaviour
  rw [List.mapM_cons, childBehaviour_node, List.map_singleton, selection]
  cases builtBehaviour child with
  | none => rfl
  | some behaviour =>
    refine congrArg some
      (BranchNodeImpl.applyChild_eq_of_selectChild fun event => ?_)
    unfold BranchNodeImpl.selectChild BranchNodeImpl.selectIndex
    simp only [selectsFirst]
    rfl

/-! ## Arms -/

/-- A condition and the child that it leads to. -/
abbrev Arm (X : Externals) := X.FieldFilterProto × CompiledNode X

/-- The branch that the condition of the arm selects. -/
def Arm.branch (arm : Arm X) : Branch X (CompiledNode X) :=
  ⟨.node arm.2, .condition arm.1⟩

/-- The filter and the behaviour of an arm. -/
def armBehaviour : Arm X → Option (X.FieldFilter × Behaviour X) :=
  bothOf (fun arm => (X.newFieldFilter arm.1).toOption)
    fun arm => builtBehaviour arm.2

/-- The behaviour of the first arm whose filter matches the event. -/
def firstMatch (arms : List (X.FieldFilter × Behaviour X)) (event : X.Event) :
    Result (Behaviour X) :=
  match arms.find? fun arm => X.isMatch arm.1 event with
  | some arm => pure arm.2
  | none => throw (invalidArgument "No condition matches the input event.")

/-- The behaviour of the first matching arm, applied to the event. -/
def applyFirstMatch (arms : List (X.FieldFilter × Behaviour X)) :
    Behaviour X := do
  let event ← get
  let child ← Step.lift (firstMatch arms event)
  child

/-- The conditions select the child of the first arm that matches. -/
theorem selectChild_arms (arms : List (X.FieldFilter × Behaviour X))
    (randomSeed : String) (event : X.Event) :
    BranchNodeImpl.selectChild ⟨arms.map Prod.snd, none, randomSeed,
      some ⟨arms.map Prod.fst⟩, [], none⟩ event = firstMatch arms event := by
  unfold BranchNodeImpl.selectChild BranchNodeImpl.selectIndex firstMatch
    FieldFiltersMatcher.getFirstMatch
  simp only
  rw [List.findIdx?_map, List.find?_eq_bind_findIdx?_getElem?,
    show (fun filter => X.isMatch filter event) ∘ Prod.fst =
      fun arm : X.FieldFilter × Behaviour X => X.isMatch arm.1 event from rfl]
  cases found : arms.findIdx? fun arm => X.isMatch arm.1 event with
  | none => rfl
  | some position =>
    obtain ⟨inside, -⟩ := List.findIdx?_eq_some_iff_getElem.mp found
    have selected : elementAt (arms.map Prod.snd) (position : ℤ) =
        .ok arms[position].2 :=
      elementAt_eq_ok_iff.mpr (by simp [inside])
    have isIndex : matchingIndex (some position) ≠ kNoMatchingIndex := by
      rw [matchingIndex_some, kNoMatchingIndex]
      omega
    have inRange : ¬((position : ℤ) < 0 ∨
        ((arms.map Prod.snd).length : ℤ) ≤ position) := by
      rw [List.length_map]
      omega
    rw [if_neg isIndex, Option.bind_some, List.getElem?_eq_getElem inside]
    exact (if_neg inRange).trans selected

/-- The node of the arms applies the first arm that matches. -/
theorem applyChild_arms (arms : List (X.FieldFilter × Behaviour X))
    (randomSeed : String) :
    BranchNodeImpl.applyChild ⟨arms.map Prod.snd, none, randomSeed,
      some ⟨arms.map Prod.fst⟩, [], none⟩ = applyFirstMatch arms := by
  unfold BranchNodeImpl.applyChild applyFirstMatch
  simp only [selectChild_arms]

/-- Conditions alone are built to a matcher. -/
theorem buildSelection_conditions {filters : List X.FieldFilterProto}
    (nonempty : filters ≠ []) :
    buildSelection (filters.map SelectBy.condition) = do
      let filters ← filters.mapM X.newFieldFilter
      return (none, some ⟨filters⟩) := by
  have follow := not_any_selectByCase_iff.mpr
    (forall_condition_iff.mpr ⟨filters, rfl⟩)
  cases filters with
  | nil => contradiction
  | cons filter filters =>
    refine (if_neg follow).trans ?_
    rw [List.map_cons]
    change (buildMatcher ((filter :: filters).map SelectBy.condition) >>= _) = _
    rw [buildMatcher, filterMap_conditionFilter]
    simp [FieldFiltersMatcher.build]

/-- A choice by conditions is that of the first arm that matches. -/
theorem choiceBehaviour_arms (arms : List (Arm X)) (randomSeed : String) :
    choiceBehaviour (arms.map Arm.branch) randomSeed =
      if arms = [] then none
      else (arms.mapM armBehaviour).map applyFirstMatch := by
  split_ifs with empty
  · rw [empty]
    rfl
  have children : (arms.map Arm.branch).mapM childBehaviour =
      arms.mapM fun arm => builtBehaviour arm.2 := List.mapM_map ..
  have selection : (buildSelection
        ((arms.map Arm.branch).map (·.selectBy))).toOption =
      (arms.mapM fun arm => (X.newFieldFilter arm.1).toOption).map
        fun filters => (none, some ⟨filters⟩) := by
    have conditions : (arms.map Arm.branch).map (·.selectBy) =
        (arms.map Prod.fst).map SelectBy.condition := by
      rw [List.map_map, List.map_map]
      rfl
    rw [conditions, buildSelection_conditions (by simpa using empty),
      List.mapM_map]
    simp [toOption_mapM, Function.comp_def]
  unfold choiceBehaviour armBehaviour
  rw [children, selection]
  simp only [Option.map_map]
  refine (mapM_bothOf _ _ _ _).trans ?_
  simp only [Function.comp_def, applyChild_arms]

end VirtualPeople.Cc
