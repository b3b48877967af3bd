import VirtualPeople.Cc.Acceptance
import VirtualPeople.Cc.CloneCount
import VirtualPeople.Cc.CloneTree
import VirtualPeople.Cc.ReservedRange

/-!
# Where the outputs come from

Every person and every pool that a labeling gives comes from one of the leaves
that the model is configured with, so that what holds of the ids of each leaf
holds of the ids of a model.  How many there can be is a product of the maxima
of the multiplicities on the way to a leaf.
-/

namespace VirtualPeople

open Binary64
open RandomizedRounding

variable {X : Externals}

/-! ## Configured leaves -/

/-- The inline children of the branches of a node. -/
def BranchNode.inlineChildren {Node : Type} (config : BranchNode X Node) :
    List Node :=
  config.branches.filterMap (·.childNode.inlined)

/-- The inline children of a mapped node are the mapped children. -/
@[simp] theorem BranchNode.inlineChildren_map {Node Node' : Type} (f : Node → Node')
    (config : BranchNode X Node) :
    (config.map f).inlineChildren = config.inlineChildren.map f := by
  unfold inlineChildren
  simp only [BranchNode.map, List.filterMap_map, List.map_filterMap]
  congr 1
  funext branch
  obtain ⟨childNode, selectBy⟩ := branch
  cases childNode <;> rfl

/-- How many clones a multiplicity makes at most. -/
def Multiplicity.mostClones (config : Multiplicity) : ℕ :=
  match config.maxValue.bind fun maxValue => truncate (ceil maxValue) with
  | some integer => integer.toNat
  | none => 2 ^ 31

/-- How many clones an action makes at most of an event. -/
def Action.mostClones {Node : Type} : Action X Node → ℕ
  | .multiplicity config => config.mostClones
  | _ => 1

namespace CompiledNode

/-- The leaves that events can reach, those of update trees left out. -/
def leafTypes (node : CompiledNode X) : List (NodeType X Empty) :=
  node.fold fun _ type =>
    match type with
    | .branchNode config => config.inlineChildren.flatten
    | .stopNode => [.stopNode]
    | .populationNode config => [.populationNode config]
    | .rankedPopulationNode config => [.rankedPopulationNode config]
    | .notSet => []

/-- The leaves of a branch node are those of its children. -/
@[simp] theorem leafTypes_branchNode (index : Option UInt32)
    (config : BranchNode X (CompiledNode X)) :
    leafTypes (.mk index (.branchNode config)) =
      config.inlineChildren.flatMap leafTypes := by
  rw [leafTypes, fold_mk]
  change (config.map leafTypes).inlineChildren.flatten = _
  rw [BranchNode.inlineChildren_map]
  rfl

/-- How many people or pools a labeling gives at most: one for each leaf that
is reached, and a branch reaches one child for each clone. -/
def mostOutputs (node : CompiledNode X) : ℕ :=
  node.fold fun _ type =>
    match type with
    | .branchNode config =>
      config.action.mostClones * config.inlineChildren.foldr max 0
    | .populationNode _ => 1
    | .rankedPopulationNode _ => 1
    | _ => 0

/-- A branch node gives at most as many outputs as clones times those of a
child. -/
@[simp] theorem mostOutputs_branchNode (index : Option UInt32)
    (config : BranchNode X (CompiledNode X)) :
    mostOutputs (.mk index (.branchNode config)) =
      config.action.mostClones *
        (config.inlineChildren.map mostOutputs).foldr max 0 := by
  rw [mostOutputs, fold_mk, ← BranchNode.inlineChildren_map]
  change (config.action.map mostOutputs).mostClones *
    (config.map mostOutputs).inlineChildren.foldr max 0 = _
  congr 1
  cases config.action <;> rfl

/-- No child gives more outputs than the largest maximum. -/
theorem mostOutputs_le {config : BranchNode X (CompiledNode X)}
    {child : CompiledNode X} (member : child ∈ config.inlineChildren) :
    child.mostOutputs ≤
      (config.inlineChildren.map mostOutputs).foldr max 0 :=
  List.le_max_of_le' 0 (List.mem_map_of_mem member) le_rfl

end CompiledNode

namespace Cc

/-! ## Children of a built branch -/

/-- Each child of a branch that is built without references is built from an
inline child of its configuration. -/
theorem exists_inline_of_build {index : Option UInt32}
    {config : BranchNode X (CompiledNode X)} {node : ModelNode X}
    (built : (ModelNode.build (.mk index (.branchNode config))).alone =
      .ok node) :
    ∃ impl, node = .branchNode impl ∧
      buildAction (config.action.map ModelNode.build) =
        .ok (impl.updaters, impl.multiplicity) ∧
      ∀ child ∈ impl.childNodes, ∃ childConfig ∈ config.inlineChildren,
        (ModelNode.build childConfig).alone = .ok child := by
  rw [alone_build_branchNode, BranchNodeImpl.outcome_build (keeps_children
    fun branch _ child _ => keeps_build child)] at built
  obtain ⟨impl, implBuilt, nodeEq⟩ := bind_eq_ok_iff.mp built
  split_ifs at implBuilt
  obtain ⟨childNodes, mapped, assembled⟩ := bind_eq_ok_iff.mp implBuilt
  obtain ⟨-, parts, childNodesEq, -⟩ :=
    BranchNodeImpl.assemble_eq_ok_iff.mp assembled
  refine ⟨impl, (Except.ok.inj nodeEq).symm, parts, fun child member => ?_⟩
  rw [childNodesEq] at member
  obtain ⟨branch, inBranches, childBuilt⟩ :=
    exists_mem_of_mem_mapM mapped member
  obtain ⟨⟨childNode, selectBy⟩, inConfig, rfl⟩ := List.mem_map.mp inBranches
  cases childNode with
  | nodeIndex index => contradiction
  | notSet => contradiction
  | node childConfig =>
    refine ⟨childConfig, List.mem_filterMap.mpr ⟨_, inConfig, rfl⟩, ?_⟩
    rw [Builder.alone_eq]
    exact childBuilt

/-! ## Outputs of leaves -/

/-- The leaf is what the builder makes of the configuration. -/
inductive LeafNode.IsBuiltFrom : NodeType X Empty → LeafNode → Prop
  | stopNode : IsBuiltFrom .stopNode .stopNode
  | populationNode {config : PopulationNode} {node : PopulationNodeImpl}
      (built : PopulationNodeImpl.buildFromConfig config = .ok node) :
      IsBuiltFrom (.populationNode config) (.populationNode node)
  | rankedPopulationNode {config : RankedPopulationNode}
      {node : RankedPopulationNodeImpl}
      (built : RankedPopulationNodeImpl.buildFromConfig config = .ok node) :
      IsBuiltFrom (.rankedPopulationNode config) (.rankedPopulationNode node)

/-- The output is one that a leaf of the configuration gives to some event. -/
def FromLeaf (config : CompiledNode X) (output : Output X) : Prop :=
  ∃ type ∈ config.leafTypes, ∃ leaf, LeafNode.IsBuiltFrom type leaf ∧
    ∃ event outputs, leaf.outputs event = .ok outputs ∧ output ∈ outputs

namespace ModelNode

/-- What holds of the meanings of the children holds of the meaning of the
branch: each output is one of a child. -/
theorem exists_child_of_meaning {person : PersonEvent X}
    {impl : BranchNodeImpl X (ModelNode X)} {event : X.Event}
    {outputs : List (Output X)}
    (given : meaning person (.branchNode impl) event = .ok outputs)
    {output : Output X} (member : output ∈ outputs) :
    ∃ child ∈ impl.childNodes, ∃ event outputs,
      child.meaning person event = .ok outputs ∧ output ∈ outputs := by
  have ofChild {event : X.Event} {outputs : List (Output X)}
      (given : impl.walkChild (meaning person) event = .ok outputs)
      (member : output ∈ outputs) :
      ∃ child ∈ impl.childNodes, ∃ event outputs,
        child.meaning person event = .ok outputs ∧ output ∈ outputs := by
    obtain ⟨child, selected, given⟩ := bind_eq_ok_iff.mp given
    exact ⟨child, BranchNodeImpl.mem_of_selectChild selected, event, outputs,
      given, member⟩
  rw [meaning_branchNode] at given
  unfold BranchNodeImpl.meaning at given
  cases multiplicityEq : impl.multiplicity with
  | some multiplicity =>
    rw [multiplicityEq] at given
    simp only at given
    split_ifs at given
    obtain ⟨count, -, given⟩ := bind_eq_ok_iff.mp given
    obtain ⟨lists, mapped, given⟩ := bind_eq_ok_iff.mp given
    rw [← Except.ok.inj given] at member
    obtain ⟨list, inLists, inList⟩ := List.mem_flatten.mp member
    obtain ⟨clone, -, fromClone⟩ := exists_mem_of_mem_mapM mapped inLists
    exact ofChild fromClone inList
  | none =>
    rw [multiplicityEq] at given
    obtain ⟨updated, -, given⟩ := bind_eq_ok_iff.mp given
    exact ofChild given member

/-- Every output of the meaning comes from a configured leaf. -/
theorem fromLeaf_of_meaning {person : PersonEvent X} {config : CompiledNode X}
    {node : ModelNode X} (built : (build config).alone = .ok node)
    {event : X.Event} {outputs : List (Output X)}
    (given : node.meaning person event = .ok outputs) :
    ∀ output ∈ outputs, FromLeaf config output := by
  induction config using CompiledNode.induction generalizing node event outputs with
  | step index type below =>
    intro output member
    cases type with
    | branchNode config =>
      obtain ⟨impl, rfl, -, children⟩ := exists_inline_of_build built
      obtain ⟨child, inChildren, childEvent, childOutputs, childGiven, inChild⟩ :=
        exists_child_of_meaning given member
      obtain ⟨childConfig, inConfig, childBuilt⟩ := children child inChildren
      obtain ⟨type, inLeaves, fromLeaf⟩ := below childConfig
        (List.mem_append_left _ inConfig) childBuilt childGiven output inChild
      refine ⟨type, ?_, fromLeaf⟩
      rw [CompiledNode.leafTypes_branchNode]
      exact List.mem_flatMap.mpr ⟨childConfig, inConfig, inLeaves⟩
    | stopNode =>
      obtain rfl := Except.ok.inj built
      rw [meaning_leafNode] at given
      exact ⟨.stopNode, List.mem_singleton_self _, _, .stopNode, event,
        outputs, given, member⟩
    | populationNode config =>
      rw [alone_build_populationNode] at built
      obtain ⟨leaf, leafBuilt, nodeEq⟩ := bind_eq_ok_iff.mp built
      obtain rfl := Except.ok.inj nodeEq
      rw [meaning_leafNode] at given
      exact ⟨.populationNode config, List.mem_singleton_self _, _,
        .populationNode leafBuilt, event, outputs, given, member⟩
    | rankedPopulationNode config =>
      rw [alone_build_rankedPopulationNode] at built
      obtain ⟨leaf, leafBuilt, nodeEq⟩ := bind_eq_ok_iff.mp built
      obtain rfl := Except.ok.inj nodeEq
      rw [meaning_leafNode] at given
      exact ⟨.rankedPopulationNode config, List.mem_singleton_self _, _,
        .rankedPopulationNode leafBuilt, event, outputs, given, member⟩
    | notSet => contradiction

end ModelNode

namespace FromLeaf

variable {config : CompiledNode X}

/-- A person comes with an id that its leaf has found. -/
theorem exists_id {activity : X.Activity}
    (fromLeaf : FromLeaf config (.person activity)) :
    ∃ type ∈ config.leafTypes, ∃ leaf, LeafNode.IsBuiltFrom type leaf ∧
      ∃ (event : X.Event) (vid : UInt64),
        activity.virtualPersonId = some vid ∧
          leaf.virtualPersonId event = some (.ok vid) := by
  obtain ⟨type, inLeaves, leaf, isBuilt, event, outputs, given, member⟩ :=
    fromLeaf
  unfold LeafNode.outputs at given
  split_ifs at given
  · rw [← Except.ok.inj given] at member
    obtain ⟨assignment, -, impossible⟩ := List.mem_map.mp member
    contradiction
  · obtain ⟨people, created, given⟩ := bind_eq_ok_iff.mp given
    rw [← Except.ok.inj given] at member
    obtain ⟨person, inPeople, same⟩ := List.mem_map.mp member
    obtain rfl := Output.person.inj same
    obtain ⟨vid, vidEq, found⟩ := LeafNode.people_ids created inPeople
    exact ⟨type, inLeaves, leaf, isBuilt, event, vid, vidEq, found⟩

/-- A pool is announced by a ranked leaf. -/
theorem exists_ranked {assignment : PoolAssignment}
    (fromLeaf : FromLeaf config (.pool assignment)) :
    ∃ ranked node, .rankedPopulationNode ranked ∈ config.leafTypes ∧
      RankedPopulationNodeImpl.buildFromConfig ranked = .ok node ∧
        assignment = node.poolAssignment := by
  obtain ⟨type, inLeaves, leaf, isBuilt, event, outputs, given, member⟩ :=
    fromLeaf
  unfold LeafNode.outputs at given
  split_ifs at given
  · rw [← Except.ok.inj given] at member
    obtain ⟨announced, inAnnounced, same⟩ := List.mem_map.mp member
    obtain rfl := Output.pool.inj same
    cases isBuilt with
    | stopNode => exact absurd inAnnounced List.not_mem_nil
    | populationNode built => exact absurd inAnnounced List.not_mem_nil
    | @rankedPopulationNode ranked node built =>
      exact ⟨ranked, node, inLeaves, built, List.mem_singleton.mp inAnnounced⟩
  · obtain ⟨people, -, given⟩ := bind_eq_ok_iff.mp given
    rw [← Except.ok.inj given] at member
    obtain ⟨person, -, impossible⟩ := List.mem_map.mp member
    contradiction

end FromLeaf

/-- When labeling succeeds its people and pools are those of the meaning. -/
theorem Labeler.exists_meaning_of_label {labeler : Labeler X}
    (keeps : labeler.root.KeepsField addedOutputs false) {input : X.Input}
    {mode : LabelingMode} {output : LabelerOutput X}
    (labeled : labeler.label input mode = .ok output) :
    ∃ outputs, labeler.root.meaning givenPerson (prepareEvent input mode) =
        .ok outputs ∧
      output.people = outputs.filterMap Output.person? ∧
      output.poolAssignments = outputs.filterMap Output.pool? := by
  have empty : addedOutputs (prepareEvent input mode) = ([], []) := by
    cases mode <;> rfl
  obtain ⟨final, applied, outputEq⟩ := bind_eq_ok_iff.mp labeled
  obtain ⟨outputs, given, holds⟩ :=
    (ModelNode.apply_lockstep keeps empty).ok_of_ok applied
  rw [← Except.ok.inj outputEq]
  exact ⟨outputs, given, holds.people, holds.pools⟩

end Cc

/-- The ids that a leaf with this configuration gives: those of its pools, or
the one that a population node with an unfitting count always gives. -/
def NodeType.Gives (type : NodeType X Empty) (vid : UInt64) : Prop :=
  match type with
  | .populationNode config =>
    (Cc.FitsInt32 config.pools ∧ ∃ pool ∈ config.pools, pool.Contains vid) ∨
      (¬Cc.FitsInt32 config.pools ∧ Cc.wrappedId config.pools = some vid)
  | .rankedPopulationNode config =>
    ∃ pool ∈ config.pools,
      vid - pool.populationOffset < config.labeledSize pool.totalPopulation
  | _ => False

/-- The pool that a leaf with this configuration announces. -/
def NodeType.Announces (type : NodeType X Empty)
    (assignment : PoolAssignment) : Prop :=
  match type with
  | .rankedPopulationNode config =>
    config.pools = [⟨assignment.poolOffset, assignment.poolSize⟩] ∧
      config.rankedSize = assignment.rankedSize
  | _ => False

namespace Cc

namespace LeafNode.IsBuiltFrom

variable {type : NodeType X Empty} {leaf : LeafNode} {event : X.Event}
  {vid : UInt64}

/-- The id that a built leaf finds is one that its configuration gives. -/
theorem gives (isBuilt : LeafNode.IsBuiltFrom type leaf)
    (found : leaf.virtualPersonId event = some (.ok vid)) : type.Gives vid := by
  cases isBuilt with
  | stopNode => contradiction
  | @populationNode config node built =>
    obtain ⟨id, idEq, cases⟩ :=
      @PopulationNodeImpl.getVirtualPersonId_cases X none config node built
        (X.fingerprint
          (node.randomSeed ++ toString (event.actingFingerprint.getD 0)))
    have sameId : vid = id :=
      Except.ok.inj ((Option.some.inj found).symm.trans idEq)
    rw [sameId]
    exact cases
  | @rankedPopulationNode config node built =>
    obtain ⟨poolsEq, rankedSizeEq, modeEq, -⟩ :=
      RankedPopulationNodeImpl.isBuiltFrom_of_buildFromConfig X built
    have below := RankedPopulationNodeImpl.virtualPersonId_sub_lt
      (Option.some.inj found)
    refine ⟨_, poolsEq ▸ List.mem_singleton_self _, ?_⟩
    unfold RankedPopulationNode.labeledSize
    rwa [← modeEq, ← rankedSizeEq]

/-- A leaf that respects the range gives ids below it. -/
theorem id_lt (isBuilt : LeafNode.IsBuiltFrom type leaf)
    (respects : type.RespectsReservedRange)
    (found : leaf.virtualPersonId event = some (.ok vid)) :
    vid < kCookieMonsterOffset := by
  cases isBuilt with
  | stopNode => contradiction
  | populationNode built =>
    exact PopulationNodeImpl.virtualPersonId_lt built respects
      (Option.some.inj found)
  | rankedPopulationNode built =>
    exact RankedPopulationNodeImpl.virtualPersonId_lt
      (RankedPopulationNodeImpl.isBuiltFrom_of_buildFromConfig X built)
      respects (Option.some.inj found)

end LeafNode.IsBuiltFrom

/-- Each person has an id that one of the configured leaves gives, each pool is
one that a configured leaf announces, and a model whose leaves all keep out of
the reserved range does. -/
theorem Labeler.outputs_from_leaves {root : CompiledNode X}
    {labeler : Labeler X} (built : build root = .ok labeler)
    (keeps : labeler.root.KeepsField addedOutputs false) {input : X.Input}
    {mode : LabelingMode} {output : LabelerOutput X}
    (labeled : labeler.label input mode = .ok output) :
    (∀ person ∈ output.people, ∃ vid, person.virtualPersonId = some vid ∧
      ∃ type ∈ root.leafTypes, type.Gives vid) ∧
    (∀ assignment ∈ output.poolAssignments, ∃ type ∈ root.leafTypes,
      type.Announces assignment) ∧
    ((∀ type ∈ root.leafTypes, type.RespectsReservedRange) →
      ∀ person ∈ output.people, ∀ vid, person.virtualPersonId = some vid →
        vid < kCookieMonsterOffset) := by
  obtain ⟨node, nodeBuilt, labelerEq⟩ := bind_eq_ok_iff.mp built
  obtain rfl := Except.ok.inj labelerEq
  obtain ⟨outputs, given, peopleEq, poolsEq⟩ := exists_meaning_of_label keeps labeled
  have fromLeaf := ModelNode.fromLeaf_of_meaning nodeBuilt given
  have ofPerson {person : X.Activity} (member : person ∈ output.people) :
      FromLeaf root (.person person) := by
    rw [peopleEq] at member
    obtain ⟨made, inOutputs, isPerson⟩ := List.mem_filterMap.mp member
    cases made with
    | person activity =>
      rw [← Option.some.inj isPerson]
      exact fromLeaf _ inOutputs
    | pool assignment => contradiction
  refine ⟨fun person member => ?_, fun assignment member => ?_, ?_⟩
  · obtain ⟨type, inLeaves, leaf, isBuilt, event, vid, vidEq, found⟩ :=
      (ofPerson member).exists_id
    exact ⟨vid, vidEq, type, inLeaves, isBuilt.gives found⟩
  · rw [poolsEq] at member
    obtain ⟨made, inOutputs, isPool⟩ := List.mem_filterMap.mp member
    cases made with
    | person activity => contradiction
    | pool announced =>
      rw [← Option.some.inj isPool]
      obtain ⟨ranked, leaf, inLeaves, leafBuilt, same⟩ :=
        (fromLeaf _ inOutputs).exists_ranked
      obtain ⟨onlyPool, rankedSizeEq, -, -⟩ :=
        RankedPopulationNodeImpl.isBuiltFrom_of_buildFromConfig X leafBuilt
      rw [same]
      exact ⟨_, inLeaves, onlyPool, rankedSizeEq.symm⟩
  · intro respects person member vid vidEq
    obtain ⟨type, inLeaves, leaf, isBuilt, event, vid', vidEq', found⟩ :=
      (ofPerson member).exists_id
    rw [vidEq, Option.some_inj] at vidEq'
    exact isBuilt.id_lt (respects type inLeaves) (vidEq' ▸ found)

/-- Two persons of one ranked pool. -/
def twoPersonsTree : CompiledNode personExternals :=
  personsBranch 2.0 [(.isTrue, onePersonPool)]

/-- Two persons with ids of configured leaves. -/
theorem Labeler.outputs_from_leaves_twoPersons :
    ∃ labeler output, build twoPersonsTree = .ok labeler ∧
      labeler.label rankedInput .full = .ok output ∧
      (∀ person ∈ output.people, ∃ vid, person.virtualPersonId = some vid ∧
        ∃ type ∈ twoPersonsTree.leafTypes, type.Gives vid) ∧
      (∀ assignment ∈ output.poolAssignments,
        ∃ type ∈ twoPersonsTree.leafTypes, type.Announces assignment) ∧
      ((∀ type ∈ twoPersonsTree.leafTypes, type.RespectsReservedRange) →
        ∀ person ∈ output.people, ∀ vid, person.virtualPersonId = some vid →
          vid < kCookieMonsterOffset) := by
  refine ⟨_, _, rfl, rfl,
    @outputs_from_leaves _ _ _ rfl ?_ rankedInput .full _ rfl⟩
  exact .branchNode nofun (fun _ _ _ _ => rfl) nofun nofun
    (List.forall_mem_cons.mpr ⟨.leafNode nofun, nofun⟩)

/-! ## How many outputs there are -/

/-- Rounding gives at most the next integer. -/
theorem toNat_bimodal_le {value : Float} {x : ℝ} {count : Int32}
    {seed : UInt64} (denotes : Denotes value x)
    (counted : computeBimodalInteger value seed = .ok count) :
    count.toInt.toNat ≤ ⌈x⌉.toNat := by
  have lt : ⌊x⌋ < 2 ^ 31 := by
    obtain ⟨whole, casted, -⟩ := bind_eq_ok_iff.mp counted
    unfold castToInt32 integralPart at casted
    rw [truncate_floor denotes] at casted
    simp only at casted
    split_ifs at casted with inside
    · exact inside.2
    · contradiction
  rw [computeBimodalInteger_eq denotes lt, Except.ok.injEq] at counted
  have nonneg : 0 ≤ ⌊x⌋ := Int.floor_nonneg.mpr denotes.nonneg
  have lower := floor_le_roundBy (2 ^ 64) x seed.toNat
  have upper := roundBy_le_floor_add_one (2 ^ 64) x seed.toNat
  have le := roundBy_le_ceil (2 ^ 64) x seed.toNat
  have size : (Int32.size : ℤ) = 2 ^ 32 := rfl
  rw [← counted, exactBimodalInteger_eq, Int32.toInt_ofInt, Int.bmod_def, size]
  -- One above the greatest integer of 32 bits wraps to the least.
  split_ifs <;> omega

/-- Only finite numbers are rounded. -/
theorem finite_of_bimodal {value : Float} {count : Int32} {seed : UInt64}
    (counted : computeBimodalInteger value seed = .ok count) :
    truncate value ≠ none := by
  intro infinite
  obtain ⟨whole, casted, -⟩ := bind_eq_ok_iff.mp counted
  unfold castToInt32 integralPart at casted
  rw [truncate_floor_eq_none infinite] at casted
  contradiction

namespace MultiplicityImpl

variable {multiplicity : MultiplicityImpl X} {event : X.Event}

/-- The expectation that is rounded to the count is at most the maximum. -/
theorem exists_capped {count : Int32}
    (counted : multiplicity.computeEventMultiplicity event = .ok count) :
    ∃ value seed, ¬value < 0.0 ∧ computeBimodalInteger value seed = .ok count ∧
      (value = multiplicity.maxValue ∨ ¬multiplicity.maxValue < value) := by
  obtain ⟨expected, -, counted⟩ := bind_eq_ok_iff.mp counted
  obtain ⟨value, capped, counted⟩ := bind_eq_ok_iff.mp counted
  split_ifs at counted with negative
  refine ⟨value, _, negative, counted, ?_⟩
  unfold capMultiplicity at capped
  split_ifs at capped with above
  · exact .inl (Except.ok.inj capped).symm
  · exact .inr (Except.ok.inj capped ▸ above)

/-- A built multiplicity has the maximum of its configuration. -/
theorem maxValue_of_build {config : Multiplicity}
    (built : build config = .ok multiplicity) :
    config.maxValue = some multiplicity.maxValue := by
  unfold build at built
  obtain ⟨extractor, -, rest⟩ := bind_eq_ok_iff.mp built
  obtain ⟨field, -, rest⟩ := bind_eq_ok_iff.mp rest
  split at rest
  · contradiction
  · contradiction
  · contradiction
  · rename_i maxEq _ _
    rw [maxEq, ← Except.ok.inj rest]

/-- An event has at most as many clones as the maximum says. -/
theorem count_le_mostClones {config : Multiplicity} {count : Int32}
    (built : build config = .ok multiplicity)
    (counted : multiplicity.computeEventMultiplicity event = .ok count) :
    count.toInt.toNat ≤ config.mostClones := by
  unfold Multiplicity.mostClones
  rw [maxValue_of_build built, Option.bind_some]
  cases maximum : truncate (ceil multiplicity.maxValue) with
  | none =>
    have := count.toInt_lt
    simp only
    omega
  | some integer =>
    obtain ⟨value, seed, notNegative, rounded, capped⟩ := exists_capped counted
    obtain ⟨x, denotes⟩ := exists_denotes (finite_of_bimodal rounded) notNegative
    refine (toNat_bimodal_le denotes rounded).trans ?_
    rcases capped with same | notAbove
    · rw [← same, denotes.truncate_ceil] at maximum
      rw [Option.some.inj maximum]
    · have notBelow : ¬multiplicity.maxValue < 0.0 := fun negative =>
        notAbove (denotes.lt_of_lt_zero negative)
      have finite : truncate multiplicity.maxValue ≠ none := fun infinite => by
        rw [truncate_ceil_eq_none infinite] at maximum
        contradiction
      obtain ⟨y, denotes'⟩ := exists_denotes finite notBelow
      rw [denotes'.truncate_ceil] at maximum
      rw [← Option.some.inj maximum]
      exact Int.toNat_le_toNat
        (Int.ceil_le_ceil (denotes.le_of_not_lt denotes' notAbove))

end MultiplicityImpl

@[simp] theorem LeafNode.outputs_stopNode (event : X.Event) :
    LeafNode.outputs .stopNode event = .ok [] := by
  unfold LeafNode.outputs
  split_ifs <;> rfl

/-- A leaf gives at most one output. -/
theorem LeafNode.length_outputs_le {leaf : LeafNode} {event : X.Event}
    {outputs : List (Output X)} (given : leaf.outputs event = .ok outputs) :
    outputs.length ≤ 1 := by
  unfold LeafNode.outputs at given
  split_ifs at given
  · rw [← Except.ok.inj given, List.length_map]
    cases leaf with
    | stopNode => exact Nat.zero_le 1
    | populationNode node => exact Nat.zero_le 1
    | rankedPopulationNode node => exact le_rfl
  · obtain ⟨people, created, given⟩ := bind_eq_ok_iff.mp given
    rw [← Except.ok.inj given, List.length_map]
    cases leaf with
    | stopNode =>
      rw [← Except.ok.inj created]
      exact Nat.zero_le 1
    | populationNode node =>
      obtain ⟨vid, label, -, -, rfl⟩ := createdPerson_ok_iff.mp created
      exact le_rfl
    | rankedPopulationNode node =>
      obtain ⟨vid, label, -, -, rfl⟩ := createdPerson_ok_iff.mp created
      exact le_rfl

/-- A branch gives at most as many outputs for each of its clones as one of its
children does. -/
theorem BranchNodeImpl.length_meaning_le {person : PersonEvent X}
    {impl : BranchNodeImpl X (ModelNode X)} {clones bound : ℕ}
    (counts : ∀ multiplicity, impl.multiplicity = some multiplicity →
      ∀ event count, multiplicity.computeEventMultiplicity event = .ok count →
        count.toInt.toNat ≤ clones)
    (single : impl.multiplicity = none → 1 ≤ clones)
    (children : ∀ child ∈ impl.childNodes, ∀ event outputs,
      child.meaning person event = .ok outputs → outputs.length ≤ bound)
    {event : X.Event} {outputs : List (Output X)}
    (given : impl.meaning person ModelNode.updateEvent
      (ModelNode.meaning person) event = .ok outputs) :
    outputs.length ≤ clones * bound := by
  have ofChild {event : X.Event} {outputs : List (Output X)}
      (given : impl.walkChild (ModelNode.meaning person) event = .ok outputs) :
      outputs.length ≤ bound := by
    obtain ⟨child, selected, given⟩ := bind_eq_ok_iff.mp given
    exact children child (mem_of_selectChild selected) event outputs given
  unfold meaning at given
  cases multiplicityEq : impl.multiplicity with
  | some multiplicity =>
    rw [multiplicityEq] at given
    simp only at given
    split_ifs at given
    obtain ⟨count, counted, given⟩ := bind_eq_ok_iff.mp given
    obtain ⟨lists, mapped, given⟩ := bind_eq_ok_iff.mp given
    have countLe := counts multiplicity multiplicityEq event count counted
    have lengthEq := (mapM_eq_ok_iff.mp mapped).length_eq
    rw [List.length_map, List.length_range] at lengthEq
    rw [← Except.ok.inj given, List.length_flatten]
    calc (lists.map List.length).sum
        ≤ (lists.map List.length).length * bound := by
          refine List.sum_le_card_nsmul _ _ fun length member => ?_
          obtain ⟨list, inLists, rfl⟩ := List.mem_map.mp member
          obtain ⟨clone, -, fromClone⟩ := exists_mem_of_mem_mapM mapped inLists
          exact ofChild fromClone
      _ = count.toInt.toNat * bound := by rw [List.length_map, ← lengthEq]
      _ ≤ clones * bound := Nat.mul_le_mul_right bound countLe
  | none =>
    rw [multiplicityEq] at given
    obtain ⟨updated, -, given⟩ := bind_eq_ok_iff.mp given
    exact (ofChild given).trans
      (Nat.le_mul_of_pos_left bound (single multiplicityEq))

/-- A built action has a multiplicity exactly when one is configured. -/
theorem multiplicity_of_buildAction {action : Action X (CompiledNode X)}
    {updaters : List (AttributesUpdaterInterface X (ModelNode X))}
    {multiplicity : Option (MultiplicityImpl X)}
    (built : buildAction (action.map ModelNode.build) =
      .ok (updaters, multiplicity)) :
    (∀ built ∈ multiplicity, ∀ event count,
      built.computeEventMultiplicity event = .ok count →
        count.toInt.toNat ≤ action.mostClones) ∧
    (multiplicity = none → 1 ≤ action.mostClones) := by
  cases action with
  | updates updates =>
    obtain ⟨_, -, same⟩ := bind_eq_ok_iff.mp built
    obtain ⟨-, rfl⟩ := Prod.mk.inj (Except.ok.inj same)
    exact ⟨by simp, fun _ => le_rfl⟩
  | multiplicity config =>
    obtain ⟨impl, implBuilt, same⟩ := bind_eq_ok_iff.mp built
    obtain ⟨-, rfl⟩ := Prod.mk.inj (Except.ok.inj same)
    refine ⟨fun built isImpl event count counted => ?_, by simp⟩
    obtain rfl := Option.some.inj isImpl
    exact MultiplicityImpl.count_le_mostClones implBuilt counted
  | notSet =>
    obtain ⟨-, rfl⟩ := Prod.mk.inj (Except.ok.inj built)
    exact ⟨by simp, fun _ => le_rfl⟩

/-- The meaning of a tree has at most as many outputs as its maximum. -/
theorem ModelNode.length_meaning_le {person : PersonEvent X}
    {config : CompiledNode X} {node : ModelNode X}
    (built : (build config).alone = .ok node) {event : X.Event}
    {outputs : List (Output X)}
    (given : node.meaning person event = .ok outputs) :
    outputs.length ≤ config.mostOutputs := by
  induction config using CompiledNode.induction generalizing node event outputs with
  | step index type below =>
    cases type with
    | branchNode config =>
      obtain ⟨impl, rfl, actionBuilt, children⟩ := exists_inline_of_build built
      obtain ⟨counts, single⟩ := multiplicity_of_buildAction actionBuilt
      rw [meaning_branchNode] at given
      rw [CompiledNode.mostOutputs_branchNode]
      refine BranchNodeImpl.length_meaning_le (fun _ isSome => counts _ isSome)
        single (fun child inChildren childEvent childOutputs childGiven => ?_)
        given
      obtain ⟨childConfig, inConfig, childBuilt⟩ := children child inChildren
      exact (below childConfig (List.mem_append_left _ inConfig) childBuilt
        childGiven).trans (CompiledNode.mostOutputs_le inConfig)
    | stopNode =>
      obtain rfl := Except.ok.inj built
      rw [meaning_leafNode, LeafNode.outputs_stopNode] at given
      rw [← Except.ok.inj given]
      exact Nat.zero_le _
    | populationNode config =>
      rw [alone_build_populationNode] at built
      obtain ⟨leaf, -, nodeEq⟩ := bind_eq_ok_iff.mp built
      obtain rfl := Except.ok.inj nodeEq
      rw [meaning_leafNode] at given
      exact LeafNode.length_outputs_le given
    | rankedPopulationNode config =>
      rw [alone_build_rankedPopulationNode] at built
      obtain ⟨leaf, -, nodeEq⟩ := bind_eq_ok_iff.mp built
      obtain rfl := Except.ok.inj nodeEq
      rw [meaning_leafNode] at given
      exact LeafNode.length_outputs_le given
    | notSet => contradiction

/-- The people and the pools among the outputs are all of them. -/
theorem Output.length_filterMap (outputs : List (Output X)) :
    (outputs.filterMap Output.person?).length +
      (outputs.filterMap Output.pool?).length = outputs.length := by
  induction outputs with
  | nil => rfl
  | cons output outputs inductionHypothesis =>
    cases output with
    | person activity =>
      have people : (Output.person activity :: outputs).filterMap person? =
        activity :: outputs.filterMap person? := rfl
      have pools : (Output.person activity :: outputs).filterMap pool? =
        outputs.filterMap pool? := rfl
      rw [people, pools, List.length_cons, List.length_cons]
      omega
    | pool assignment =>
      have people : (Output.pool assignment :: outputs).filterMap person? =
        outputs.filterMap person? := rfl
      have pools : (Output.pool assignment :: outputs).filterMap pool? =
        assignment :: outputs.filterMap pool? := rfl
      rw [people, pools, List.length_cons, List.length_cons]
      omega

/-- Labeling gives at most as many people and pools as the maxima of the
multiplicities above a leaf multiply to, whatever the event is. -/
theorem Labeler.length_outputs_le_mostOutputs {root : CompiledNode X}
    {labeler : Labeler X} (built : build root = .ok labeler)
    (keeps : labeler.root.KeepsField addedOutputs false) {input : X.Input}
    {mode : LabelingMode} {output : LabelerOutput X}
    (labeled : labeler.label input mode = .ok output) :
    output.people.length + output.poolAssignments.length ≤
      root.mostOutputs := by
  obtain ⟨node, nodeBuilt, labelerEq⟩ := bind_eq_ok_iff.mp built
  obtain rfl := Except.ok.inj labelerEq
  obtain ⟨outputs, given, peopleEq, poolsEq⟩ := exists_meaning_of_label keeps labeled
  rw [peopleEq, poolsEq, Output.length_filterMap]
  exact ModelNode.length_meaning_le nodeBuilt given

/-- Two announced pools, where two is the maximum. -/
theorem Labeler.length_outputs_le_twoPersons :
    ∃ labeler output, build twoPersonsTree = .ok labeler ∧
      labeler.label rankedInput .poolIdentity = .ok output ∧
      output.people.length + output.poolAssignments.length ≤
        twoPersonsTree.mostOutputs ∧
      output.poolAssignments.length = 2 ∧ twoPersonsTree.mostOutputs = 2 := by
  refine ⟨_, _, rfl, rfl,
    @length_outputs_le_mostOutputs _ _ _ rfl ?_ rankedInput .poolIdentity _ rfl,
    rfl, rfl⟩
  exact .branchNode nofun (fun _ _ _ _ => rfl) nofun nofun
    (List.forall_mem_cons.mpr ⟨.leafNode nofun, nofun⟩)

end Cc

end VirtualPeople
