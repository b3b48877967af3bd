import VirtualPeople.Cc.Behaviours

/-!
# Interchangeable configurations

Ways to write one model: a node whose only branch is always taken, updates that
are spread over nested nodes or an update tree, a condition that an earlier one
covers, two conditions that never hold together.  Used at any inline place of a
model, in either direction and any number of times, they give a model that is
built when the first one is, and that then labels every input alike.
-/

namespace VirtualPeople.Cc

variable {X : Externals}

/-! ## Laws -/

namespace Arm

/-- Whenever the filter of the arm matches, so does that of one before it. -/
def CoveredBy (arm : Arm X) (before : List (Arm X)) : Prop :=
  ∀ filter, X.newFieldFilter arm.1 = .ok filter →
    ∀ event, X.isMatch filter event = true →
      ∃ earlier ∈ before, ∃ filter', X.newFieldFilter earlier.1 = .ok filter' ∧
        X.isMatch filter' event = true

/-- The filters of the arms never match the same event. -/
def Excludes (arm arm' : Arm X) : Prop :=
  ∀ filter filter', X.newFieldFilter arm.1 = .ok filter →
    X.newFieldFilter arm'.1 = .ok filter' →
      ∀ event, ¬(X.isMatch filter event = true ∧ X.isMatch filter' event = true)

end Arm

/-- A node with the branches and updates. -/
def updatesNode (index : Option UInt32)
    (branches : List (Branch X (CompiledNode X))) (randomSeed : String)
    (updates : List (AttributesUpdater X (CompiledNode X))) : CompiledNode X :=
  .mk index (.branchNode ⟨branches, randomSeed, .updates updates⟩)

/-- A node that selects an arm by its condition. -/
def armsNode (index : Option UInt32) (arms : List (Arm X))
    (randomSeed : String) (action : Action X (CompiledNode X)) :
    CompiledNode X :=
  .mk index (.branchNode ⟨arms.map Arm.branch, randomSeed, action⟩)

/-- Two configurations of one model. -/
inductive Interchangeable : CompiledNode X → CompiledNode X → Prop
  | refl (config : CompiledNode X) : Interchangeable config config
  | symm {config config' : CompiledNode X}
      (same : Interchangeable config config') : Interchangeable config' config
  | trans {first second third : CompiledNode X}
      (same : Interchangeable first second)
      (next : Interchangeable second third) : Interchangeable first third
  /-- An inline child of a branch is replaced. -/
  | child {index : Option UInt32} {before after : List (Branch X (CompiledNode X))}
      {selectBy : SelectBy X} {randomSeed : String}
      {action : Action X (CompiledNode X)} {child child' : CompiledNode X}
      (same : Interchangeable child child') :
      Interchangeable
        (.mk index (.branchNode
          ⟨before ++ ⟨.node child, selectBy⟩ :: after, randomSeed, action⟩))
        (.mk index (.branchNode
          ⟨before ++ ⟨.node child', selectBy⟩ :: after, randomSeed, action⟩))
  /-- The root of an update tree is replaced. -/
  | updateTree {index : Option UInt32}
      {branches : List (Branch X (CompiledNode X))} {randomSeed : String}
      {before after : List (AttributesUpdater X (CompiledNode X))}
      {root root' : CompiledNode X} (same : Interchangeable root root') :
      Interchangeable
        (updatesNode index branches randomSeed
          (before ++ .updateTree root :: after))
        (updatesNode index branches randomSeed
          (before ++ .updateTree root' :: after))
  /-- The index of an inline node is not read. -/
  | index (index index' : Option UInt32) (type : NodeType X (CompiledNode X)) :
      Interchangeable (.mk index type) (.mk index' type)
  /-- A choice by conditions does not read the seed. -/
  | seed (index : Option UInt32) (arms : List (Arm X))
      (randomSeed randomSeed' : String) (action : Action X (CompiledNode X)) :
      Interchangeable (armsNode index arms randomSeed action)
        (armsNode index arms randomSeed' action)
  /-- A branch that is always taken stands for its child. -/
  | onlyBranch (index : Option UInt32) (child : CompiledNode X) {chance : Float}
      (normalizable : Normalizable [chance]) (randomSeed : String) :
      Interchangeable
        (.mk index (.branchNode
          ⟨[⟨.node child, .chance chance⟩], randomSeed, .notSet⟩)) child
  /-- An empty list of updates is no action. -/
  | noUpdates (index : Option UInt32)
      (branches : List (Branch X (CompiledNode X))) (randomSeed : String) :
      Interchangeable (updatesNode index branches randomSeed [])
        (.mk index (.branchNode ⟨branches, randomSeed, .notSet⟩))
  /-- Updates of a node and of its only child are one list. -/
  | nestedUpdates (index index' : Option UInt32)
      (branches : List (Branch X (CompiledNode X)))
      (first second : List (AttributesUpdater X (CompiledNode X)))
      {chance : Float} (normalizable : Normalizable [chance])
      (randomSeed randomSeed' : String) :
      Interchangeable
        (updatesNode index
          [⟨.node (updatesNode index' branches randomSeed second),
            .chance chance⟩] randomSeed' first)
        (updatesNode index branches randomSeed (first ++ second))
  /-- An update tree that stops at once is no update. -/
  | idleTree (index index' : Option UInt32)
      (branches : List (Branch X (CompiledNode X))) (randomSeed : String)
      (before after : List (AttributesUpdater X (CompiledNode X))) :
      Interchangeable
        (updatesNode index branches randomSeed
          (before ++ .updateTree (.mk index' .stopNode) :: after))
        (updatesNode index branches randomSeed (before ++ after))
  /-- Updates at the top of an update tree may stand before it. -/
  | unfoldedTree (index index' : Option UInt32)
      (branches : List (Branch X (CompiledNode X)))
      (before inner after : List (AttributesUpdater X (CompiledNode X)))
      (root : CompiledNode X) {chance : Float}
      (normalizable : Normalizable [chance]) (randomSeed randomSeed' : String) :
      Interchangeable
        (updatesNode index branches randomSeed
          (before ++ .updateTree (updatesNode index'
            [⟨.node root, .chance chance⟩] randomSeed' inner) :: after))
        (updatesNode index branches randomSeed
          (before ++ (inner ++ .updateTree root :: after)))
  /-- An arm that is built and never reached is left out. -/
  | coveredArm (index : Option UInt32) {before after : List (Arm X)} {arm : Arm X}
      (covered : arm.CoveredBy before) (nonempty : before ++ after ≠ [])
      (filterBuilds : Succeeds (X.newFieldFilter arm.1))
      (childBuilds : (ModelNode.build arm.2).Builds) (randomSeed : String)
      (action : Action X (CompiledNode X)) :
      Interchangeable (armsNode index (before ++ arm :: after) randomSeed action)
        (armsNode index (before ++ after) randomSeed action)
  /-- Arms that exclude each other may stand in either order. -/
  | exclusiveArms (index : Option UInt32) (before after : List (Arm X))
      {arm arm' : Arm X} (excludes : arm.Excludes arm') (randomSeed : String)
      (action : Action X (CompiledNode X)) :
      Interchangeable
        (armsNode index (before ++ arm :: arm' :: after) randomSeed action)
        (armsNode index (before ++ arm' :: arm :: after) randomSeed action)

/-! ## Soundness of the laws -/

/-- A child may be replaced by one that behaves as it does. -/
theorem choiceBehaviour_child {child child' : CompiledNode X}
    (same : builtBehaviour child = builtBehaviour child')
    (before after : List (Branch X (CompiledNode X))) (selectBy : SelectBy X)
    (randomSeed : String) :
    choiceBehaviour (before ++ ⟨.node child, selectBy⟩ :: after) randomSeed =
      choiceBehaviour (before ++ ⟨.node child', selectBy⟩ :: after)
        randomSeed := by
  unfold choiceBehaviour
  simp [List.mapM_append, same]

/-- A part of a list of updates is replaced by one of the same builtBehaviour. -/
theorem updatesBehaviour_inside
    {updates updates' : List (AttributesUpdater X (CompiledNode X))}
    (same : updatesBehaviour updates = updatesBehaviour updates')
    (before after : List (AttributesUpdater X (CompiledNode X))) :
    updatesBehaviour (before ++ (updates ++ after)) =
      updatesBehaviour (before ++ (updates' ++ after)) := by
  simp only [updatesBehaviour_append, same]

/-- A node with updates makes them and then chooses. -/
theorem builtBehaviour_updatesNode (index : Option UInt32)
    (branches : List (Branch X (CompiledNode X))) (randomSeed : String)
    (updates : List (AttributesUpdater X (CompiledNode X))) :
    builtBehaviour (updatesNode index branches randomSeed updates) =
      (updatesBehaviour updates).bind fun step =>
        (choiceBehaviour branches randomSeed).map fun child =>
          step >>= fun _ => child := by
  rw [updatesNode, builtBehaviour_branchNode, actionEffect_updates,
    Option.bind_map]
  rfl

/-- Updates above a node with updates are made before them. -/
theorem builtBehaviour_nestedUpdates (index index' : Option UInt32)
    (branches : List (Branch X (CompiledNode X)))
    (first second : List (AttributesUpdater X (CompiledNode X)))
    {chance : Float} (normalizable : Normalizable [chance])
    (randomSeed randomSeed' : String) :
    builtBehaviour (updatesNode index
        [⟨.node (updatesNode index' branches randomSeed second),
          .chance chance⟩] randomSeed' first) =
      builtBehaviour
        (updatesNode index branches randomSeed (first ++ second)) := by
  rw [builtBehaviour_updatesNode, choiceBehaviour_onlyBranch normalizable,
    builtBehaviour_updatesNode, builtBehaviour_updatesNode, updatesBehaviour_append]
  cases updatesBehaviour first with
  | none => rfl
  | some step =>
    cases updatesBehaviour second with
    | none => rfl
    | some next =>
      cases choiceBehaviour branches randomSeed with
      | none => rfl
      | some child => exact congrArg some (bind_assoc step _ _).symm

/-- An update tree that stops at once behaves as no update. -/
theorem updatesBehaviour_idleTree (index : Option UInt32)
    (before after : List (AttributesUpdater X (CompiledNode X))) :
    updatesBehaviour (before ++ .updateTree (.mk index .stopNode) :: after) =
      updatesBehaviour (before ++ after) := by
  refine @updatesBehaviour_inside X [.updateTree _] [] ?_ before after
  rw [updatesBehaviour_singleton, updateBehaviour_updateTree,
    builtBehaviour_stopNode, updatesBehaviour_nil]

/-- Updates at the top of an update tree behave as updates before it. -/
theorem updatesBehaviour_unfoldedTree (index : Option UInt32)
    (before inner after : List (AttributesUpdater X (CompiledNode X)))
    (root : CompiledNode X) {chance : Float}
    (normalizable : Normalizable [chance]) (randomSeed : String) :
    updatesBehaviour (before ++ .updateTree (updatesNode index
        [⟨.node root, .chance chance⟩] randomSeed inner) :: after) =
      updatesBehaviour (before ++ (inner ++ .updateTree root :: after)) := by
  rw [List.append_cons inner]
  refine @updatesBehaviour_inside X [.updateTree _] _ ?_ before after
  rw [updatesBehaviour_singleton, updateBehaviour_updateTree,
    builtBehaviour_updatesNode, choiceBehaviour_onlyBranch normalizable,
    updatesBehaviour_append, updatesBehaviour_singleton,
    updateBehaviour_updateTree]

/-! ## Soundness of the laws on arms -/

/-- An arm that matches no event before an earlier one does is never taken. -/
theorem firstMatch_covered {before after : List (X.FieldFilter × Behaviour X)}
    {arm : X.FieldFilter × Behaviour X}
    (covered : ∀ event, X.isMatch arm.1 event = true →
      ∃ earlier ∈ before, X.isMatch earlier.1 event = true) (event : X.Event) :
    firstMatch (before ++ arm :: after) event =
      firstMatch (before ++ after) event := by
  unfold firstMatch
  rw [List.find?_append, List.find?_append, List.find?_cons]
  cases holds : X.isMatch arm.1 event with
  | false => rfl
  | true =>
    obtain ⟨found, isFound⟩ := Option.isSome_iff_exists.mp
      (List.find?_isSome.mpr (covered event holds))
    rw [isFound]
    rfl

/-- Arms that exclude each other match first in either order. -/
theorem firstMatch_exclusive
    {before after : List (X.FieldFilter × Behaviour X)}
    {arm arm' : X.FieldFilter × Behaviour X} {event : X.Event}
    (excludes : ¬(X.isMatch arm.1 event = true ∧ X.isMatch arm'.1 event = true)) :
    firstMatch (before ++ arm :: arm' :: after) event =
      firstMatch (before ++ arm' :: arm :: after) event := by
  unfold firstMatch
  rw [List.find?_append, List.find?_append, List.find?_cons, List.find?_cons,
    List.find?_cons, List.find?_cons]
  cases holds : X.isMatch arm.1 event with
  | false => rfl
  | true =>
    have fails : X.isMatch arm'.1 event = false :=
      Bool.eq_false_of_not_eq_true fun holds' => excludes ⟨holds, holds'⟩
    rw [fails]

/-- Arms that match first alike behave alike. -/
theorem applyFirstMatch_congr
    {arms arms' : List (X.FieldFilter × Behaviour X)}
    (same : ∀ event, firstMatch arms event = firstMatch arms' event) :
    applyFirstMatch arms = applyFirstMatch arms' := by
  unfold applyFirstMatch
  simp only [same]

/-- The filter of an arm with a behaviour is built. -/
theorem armBehaviour_eq_some {arm : Arm X} {filter : X.FieldFilter}
    {behaviour : Behaviour X}
    (built : armBehaviour arm = some (filter, behaviour)) :
    X.newFieldFilter arm.1 = .ok filter := by
  obtain ⟨found, foundEq, rest⟩ := Option.bind_eq_some_iff.mp built
  obtain ⟨child, -, same⟩ := Option.map_eq_some_iff.mp rest
  rw [← (Prod.mk.inj same).1]
  exact toOption_eq_some_iff.mp foundEq

/-- An arm that is covered does not change the choice. -/
theorem choiceBehaviour_coveredArm {before after : List (Arm X)} {arm : Arm X}
    (covered : arm.CoveredBy before) (nonempty : before ++ after ≠ [])
    (filterBuilds : Succeeds (X.newFieldFilter arm.1))
    (childBuilds : (ModelNode.build arm.2).Builds) (randomSeed : String) :
    choiceBehaviour ((before ++ arm :: after).map Arm.branch) randomSeed =
      choiceBehaviour ((before ++ after).map Arm.branch) randomSeed := by
  obtain ⟨filter, filterEq⟩ := filterBuilds
  obtain ⟨node, nodeEq⟩ := childBuilds
  have armEq : armBehaviour arm = some (filter, node.apply) := by
    simp only [armBehaviour, bothOf, builtBehaviour, filterEq, nodeEq]
    rfl
  rw [choiceBehaviour_arms, choiceBehaviour_arms, if_neg nonempty,
    if_neg (by simp), List.mapM_append, List.mapM_append, List.mapM_cons, armEq]
  cases beforeEq : before.mapM armBehaviour with
  | none => rfl
  | some builtBefore =>
    cases after.mapM armBehaviour with
    | none => rfl
    | some builtAfter =>
      refine congrArg some (applyFirstMatch_congr (firstMatch_covered ?_))
      intro event holds
      obtain ⟨earlier, member, filter', filterEq', holds'⟩ :=
        covered filter filterEq event holds
      obtain ⟨built, builtMember, builtEq⟩ :=
        exists_mem_of_mapM_eq_some beforeEq member
      have sameFilter := (armBehaviour_eq_some builtEq).symm.trans filterEq'
      exact ⟨built, builtMember, by rwa [Except.ok.inj sameFilter]⟩

/-- Arms that exclude each other give the same choice in either order. -/
theorem choiceBehaviour_exclusiveArms (before after : List (Arm X))
    {arm arm' : Arm X} (excludes : arm.Excludes arm') (randomSeed : String) :
    choiceBehaviour ((before ++ arm :: arm' :: after).map Arm.branch)
        randomSeed =
      choiceBehaviour ((before ++ arm' :: arm :: after).map Arm.branch)
        randomSeed := by
  rw [choiceBehaviour_arms, choiceBehaviour_arms, if_neg (by simp),
    if_neg (by simp)]
  simp only [List.mapM_append, List.mapM_cons]
  cases before.mapM armBehaviour with
  | none => rfl
  | some builtBefore =>
    cases armEq : armBehaviour arm with
    | none => cases armBehaviour arm' <;> rfl
    | some built =>
      cases armEq' : armBehaviour arm' with
      | none => rfl
      | some built' =>
        cases after.mapM armBehaviour with
        | none => rfl
        | some builtAfter =>
          refine congrArg some (applyFirstMatch_congr fun event =>
            firstMatch_exclusive (excludes _ _ ?_ ?_ event))
          · exact armBehaviour_eq_some armEq
          · exact armBehaviour_eq_some armEq'

/-! ## Soundness -/

/-- Interchangeable configurations denote the same. -/
theorem Interchangeable.builtBehaviour_eq {config config' : CompiledNode X}
    (same : Interchangeable config config') :
    builtBehaviour config = builtBehaviour config' := by
  induction same with
  | refl config => rfl
  | symm _ inductionHypothesis => exact inductionHypothesis.symm
  | trans _ _ first second => exact first.trans second
  | child _ inductionHypothesis =>
    rw [builtBehaviour_branchNode, builtBehaviour_branchNode,
      choiceBehaviour_child inductionHypothesis]
  | @updateTree _ _ _ before after root root' _ inductionHypothesis =>
    have sameTree : updatesBehaviour [.updateTree root] =
        updatesBehaviour [.updateTree root'] := by
      simp [inductionHypothesis]
    have sameUpdates := updatesBehaviour_inside sameTree before after
    rw [List.singleton_append, List.singleton_append] at sameUpdates
    rw [builtBehaviour_updatesNode, builtBehaviour_updatesNode, sameUpdates]
  | index index index' type => exact builtBehaviour_index index index' type
  | seed index arms randomSeed randomSeed' action =>
    rw [armsNode, armsNode, builtBehaviour_branchNode, builtBehaviour_branchNode,
      choiceBehaviour_arms, choiceBehaviour_arms]
  | onlyBranch index child normalizable randomSeed =>
    rw [builtBehaviour_branchNode, choiceBehaviour_onlyBranch normalizable,
      actionEffect_notSet]
    exact Option.map_id' ..
  | noUpdates index branches randomSeed =>
    rw [builtBehaviour_updatesNode, builtBehaviour_branchNode, actionEffect_notSet]
    rfl
  | nestedUpdates index index' branches first second normalizable seed seed' =>
    exact builtBehaviour_nestedUpdates index index' branches first second
      normalizable seed seed'
  | idleTree index index' branches randomSeed before after =>
    rw [builtBehaviour_updatesNode, builtBehaviour_updatesNode,
      updatesBehaviour_idleTree]
  | unfoldedTree index index' branches before inner after root normalizable =>
    rw [builtBehaviour_updatesNode, builtBehaviour_updatesNode,
      updatesBehaviour_unfoldedTree _ _ _ _ _ normalizable]
  | coveredArm index covered nonempty filterBuilds childBuilds =>
    rw [armsNode, armsNode, builtBehaviour_branchNode, builtBehaviour_branchNode,
      choiceBehaviour_coveredArm covered nonempty filterBuilds childBuilds]
  | exclusiveArms index before after excludes =>
    rw [armsNode, armsNode, builtBehaviour_branchNode, builtBehaviour_branchNode,
      choiceBehaviour_exclusiveArms before after excludes]

/-- Interchangeable models are both built or both rejected, and when they are
built they label every input alike, with the same errors. -/
theorem Labeler.label_of_interchangeable {root root' : CompiledNode X}
    (same : Interchangeable root root') :
    Lockstep (fun labeler labeler' => ∀ input mode,
        labeler.label input mode = labeler'.label input mode)
      (build root) (build root') := by
  refine (lockstep_of_toOption_eq same.builtBehaviour_eq).bind
    fun node node' sameApply => .ok fun input mode => ?_
  unfold label
  rw [sameApply]

/-- A pool that is found below an idle update tree, a node of one branch and a
condition that leaves nothing for the one after it. -/
theorem Labeler.label_of_interchangeable_onePool :
    let pool : CompiledNode .constant :=
      .mk none (.rankedPopulationNode ⟨[⟨7, 1⟩], "seed", 1, .disjoint⟩)
    let stop : CompiledNode .constant := .mk none .stopNode
    ∃ labeler labeler',
      build (updatesNode none [⟨.node (armsNode (some 5) [((), pool), ((), stop)]
        "seed" .notSet), .chance 1.0⟩] "seed" [.updateTree stop]) =
          .ok labeler ∧
      build (armsNode none [((), pool)] "" .notSet) = .ok labeler' ∧
      ∀ input mode, labeler.label input mode = labeler'.label input mode := by
  intro pool stop
  have normalizable : Normalizable [1.0] :=
    (DistributedConsistentHashing.succeeds_build_enumerateChoices [1.0]).mp
      ⟨_, rfl⟩
  have same : Interchangeable
      (updatesNode none [⟨.node (armsNode (some 5) [((), pool), ((), stop)]
        "seed" .notSet), .chance 1.0⟩] "seed" [.updateTree stop])
      (armsNode none [((), pool)] "" .notSet) :=
    .trans (.idleTree none none _ "seed" [] []) <|
    .trans (.noUpdates none _ "seed") <|
    .trans (.onlyBranch none _ normalizable "seed") <|
    .trans (@Interchangeable.coveredArm .constant (some 5) [((), pool)] []
      ((), stop) (fun _ _ _ _ => ⟨_, List.mem_singleton_self _, (), rfl, rfl⟩)
      (List.cons_ne_nil _ _) ⟨_, rfl⟩ ⟨_, rfl⟩ "seed" .notSet) <|
    .trans (.index (some 5) none _)
      (@Interchangeable.seed .constant none [((), pool)] "seed" "" .notSet)
  have lockstep := Labeler.label_of_interchangeable same
  obtain ⟨labeler, isBuilt⟩ := lockstep.succeeds_iff.mpr ⟨_, rfl⟩
  obtain ⟨labeler', isBuilt', labels⟩ := lockstep.ok_of_ok isBuilt
  exact ⟨labeler, labeler', isBuilt, isBuilt', labels⟩

end VirtualPeople.Cc
