import VirtualPeople.Cc.PoolChanges
import VirtualPeople.Cc.RankedSizeZero
import VirtualPeople.Cc.ReservedRange

/-!
# Moving a model to ranked nodes

The first step of a migration: population nodes become ranked nodes without a
ranked part, over the same people and with the same seed.  Labeling stays what
it was, for every input that the ranked nodes do not reject.
-/

namespace VirtualPeople.Cc

variable {X : Externals}

/-! ## Events with one value of a field -/

section Field

variable {α : Type} {field : X.Event → α} {value : α} {isUpdate : Bool}
  {node : ModelNode X}

/-- An event and itself, with the given value of the field. -/
def SameWith (field : X.Event → α) (value : α) (event event' : X.Event) : Prop :=
  event' = event ∧ field event = value

/-- A relation on another field keeps fingerprints, if replacing them keeps the
field. -/
theorem keepsFingerprints_sameWith
    (replaced : ∀ event fingerprint,
      field { event with actingFingerprint := some fingerprint } =
        field event) :
    KeepsFingerprints (SameWith field value) where
  same same := by rw [same.1]
  replaced fingerprint same := by
    rw [same.1]
    exact ⟨rfl, (replaced _ fingerprint).trans same.2⟩

/-- Every updater of a branch keeps the field when its trees do. -/
theorem keepsField_updater {impl : BranchNodeImpl X (ModelNode X)}
    (updaters : ∀ updater ∈ impl.updaters, updater.treeRoot = none →
      KeepsField field (ModelNode.updateEvent updater))
    (trees : ∀ updater ∈ impl.updaters, ∀ root ∈ updater.treeRoot,
      root.KeepsField field true) :
    ∀ updater ∈ impl.updaters,
      KeepsField field (ModelNode.updateEvent updater) := by
  intro updater member
  cases updater with
  | updateTree root => exact (trees _ member root rfl).update rfl
  | _ => exact updaters _ member rfl

/-- A tree that keeps the field does not tell an event from itself, wherever
the value of the field leads. -/
theorem ModelNode.KeepsField.everyBranch_respects
    (keeps : node.KeepsField field isUpdate) :
    node.EveryBranch
      (BranchNodeImpl.Respects (SameWith field value) updateEvent) := by
  induction keeps with
  | leafNode => exact .leafNode _
  | @branchNode _ impl _ multiplicityKeeps updaters trees _ _
      childrenHypothesis =>
    refine .branchNode ⟨?_, ?_, ?_, ?_⟩ childrenHypothesis
    · intro matcher _ filter _ event event' same
      rw [same.1]
    · intro updater member event event' same
      have keeps := keepsField_updater updaters trees updater member
      rw [same.1]
      cases run : updateEvent updater event with
      | error fault => exact .errors _ _
      | ok updated => exact .ok ⟨rfl, (keeps event updated run).trans same.2⟩
    · intro multiplicity _ event event' same
      rw [same.1]
    · intro multiplicity member event event' same index
      rw [same.1]
      exact ⟨rfl, (multiplicityKeeps multiplicity member event index).trans
        same.2⟩

end Field

/-! ## Ranked forms -/

/-- A population node becomes a ranked node without a ranked part over one pool
of the same people. -/
inductive RankedForm (pools : List VirtualPersonPool) :
    NodeType X (CompiledNode X) → NodeType X (CompiledNode X) → Prop
  | same (type : NodeType X (CompiledNode X)) : RankedForm pools type type
  | populationNode {config : PopulationNode} {pool : VirtualPersonPool}
      (isListed : pool ∈ pools)
      (samePeople : people [pool] = people config.pools)
      (small : exactPopulation config.pools ≤ 2 ^ 31 - 1) :
      RankedForm pools (.populationNode config)
        (.rankedPopulationNode ⟨[pool], config.randomSeed, 0, .fullPool⟩)

/-- The leaves find the same id for an event whose ranks allow the pools. -/
inductive RankedLeaf (X : Externals) (pools : List VirtualPersonPool) :
    LeafNode → LeafNode → Prop
  | same (leaf : LeafNode) : RankedLeaf X pools leaf leaf
  | populationNode {node : PopulationNodeImpl} {ranked : RankedPopulationNodeImpl}
      (sameId : ∀ event : X.Event, (∀ pool ∈ pools, RanksAllow pool event) →
        ranked.virtualPersonId event = node.virtualPersonId event) :
      RankedLeaf X pools (.populationNode node) (.rankedPopulationNode ranked)

/-- A ranked node without a ranked part finds the ids of a population node over
the same people. -/
theorem RankedPopulationNodeImpl.virtualPersonId_eq_samePeople
    {config : PopulationNode} {pool : VirtualPersonPool}
    {node : PopulationNodeImpl} {ranked : RankedPopulationNodeImpl}
    (isBuilt : ranked.IsBuiltFrom ⟨[pool], config.randomSeed, 0, .fullPool⟩)
    (built : PopulationNodeImpl.buildFromConfig config = .ok node)
    (samePeople : people [pool] = people config.pools)
    (small : exactPopulation config.pools ≤ 2 ^ 31 - 1) {event : X.Event}
    (allowed : RanksAllow pool event) :
    ranked.virtualPersonId event = node.virtualPersonId event := by
  obtain rfl := List.singleton_inj.mp isBuilt.1
  obtain ⟨_, -, built⟩ := bind_eq_ok_iff.mp built
  obtain ⟨selector, selectorBuilt, nodeEq⟩ := bind_eq_ok_iff.mp built
  have ids := VirtualPersonSelector.movesTo_of_people_eq samePeople
    (by omega) _ _ selectorBuilt
    (VirtualPersonSelector.build_singleton ranked.poolSize_ne_zero)
  obtain ⟨id, id', idEq, idEq', same⟩ := ids
    (X.fingerprint
      (config.randomSeed ++ toString (event.actingFingerprint.getD 0)))
  rw [virtualPersonId_eq_population isBuilt rfl rfl allowed,
    ← Except.ok.inj nodeEq]
  unfold PopulationNodeImpl.virtualPersonId
  simp only
  rw [idEq, idEq', same.resolve_right not_false]

/-- A ranked form is built to a leaf that finds the same ids. -/
theorem RankedForm.build_aligned {pools : List VirtualPersonPool}
    {type type' : NodeType X (CompiledNode X)}
    (form : RankedForm pools type type') (index index' : Option UInt32) :
    Aligned (ModelNode.Variant (RankedLeaf X pools))
      (ModelNode.build (.mk index type)).alone
      (ModelNode.build (.mk index' type')).alone := by
  cases form with
  | same type =>
    rw [alone_build_index index' index]
    intro node node' built built'
    rw [Except.ok.inj (built.symm.trans built')]
    exact .refl RankedLeaf.same node'
  | @populationNode config pool isListed samePeople small =>
    rw [alone_build_populationNode, alone_build_rankedPopulationNode]
    intro node node' built built'
    obtain ⟨plain, plainBuilt, nodeEq⟩ := bind_eq_ok_iff.mp built
    obtain ⟨ranked, rankedBuilt, nodeEq'⟩ := bind_eq_ok_iff.mp built'
    rw [← Except.ok.inj nodeEq, ← Except.ok.inj nodeEq']
    have isBuilt := RankedPopulationNodeImpl.isBuiltFrom_of_buildFromConfig X
      rankedBuilt
    exact .leafNode (.populationNode fun event allowed =>
      RankedPopulationNodeImpl.virtualPersonId_eq_samePeople isBuilt plainBuilt
        samePeople small (allowed pool isListed))

/-- What an event says about the mode and the ranks. -/
def modeAndInput (event : X.Event) : Option Bool × Option X.Input :=
  (event.poolIdentityMode, event.labelerInput)

/-- A leaf in ranked form applies alike to events whose ranks allow it. -/
theorem RankedLeaf.apply_lockstep {pools : List VirtualPersonPool}
    {leaf leaf' : LeafNode} (rankedLeaf : RankedLeaf X pools leaf leaf')
    {event : X.Event} (full : event.poolIdentityMode.getD false = false)
    (allowed : ∀ pool ∈ pools, RanksAllow pool event) :
    Lockstep (· = ·) (applyToCopy leaf.apply event)
      (applyToCopy leaf'.apply event) := by
  cases rankedLeaf with
  | same => exact .refl _
  | @populationNode node ranked sameId =>
    rw [LeafNode.applyToCopy_apply, LeafNode.applyToCopy_apply, full]
    simp only [LeafNode.virtualPersonId, sameId event allowed]
    exact .refl _

/-- Labeling does not change when population nodes become ranked nodes without
a ranked part, if the updates leave the mode and the labeler input as they are
and the input has no ranks, or one for each pool that is moved. -/
theorem Labeler.label_of_rankedForms {pools : List VirtualPersonPool}
    {root root' : CompiledNode X} {labeler labeler' : Labeler X}
    (forms : root.Variant (RankedForm pools) root')
    (built : build root = .ok labeler) (built' : build root' = .ok labeler')
    (keeps : labeler.root.KeepsField modeAndInput false) {input : X.Input}
    (allowed : ∀ pool ∈ pools, RanksAllow pool (prepareEvent input .full))
    (output : LabelerOutput X) :
    labeler.label input .full = .ok output ↔
      labeler'.label input .full = .ok output := by
  obtain ⟨node, nodeBuilt, labelerEq⟩ := bind_eq_ok_iff.mp built
  obtain ⟨node', nodeBuilt', labelerEq'⟩ := bind_eq_ok_iff.mp built'
  obtain rfl := Except.ok.inj labelerEq
  obtain rfl := Except.ok.inj labelerEq'
  have variant := ModelNode.build_aligned forms
    (fun index index' _ _ form => form.build_aligned index index')
    node node' nodeBuilt nodeBuilt'
  have applied : Lockstep (· = ·)
      (applyToCopy node.apply (prepareEvent input .full))
      (applyToCopy node'.apply (prepareEvent input .full)) := by
    refine variant.apply_match keeps.everyBranch_respects
      (keepsFingerprints_sameWith fun _ _ => rfl) ?_ ?_
      ⟨rfl, (rfl : modeAndInput (prepareEvent input .full) = _)⟩
    · intro leaf leaf' rankedLeaf event event' same
      obtain ⟨sameMode, sameInput⟩ := Prod.mk.inj same.2
      rw [same.1]
      refine rankedLeaf.apply_lockstep (by rw [sameMode]; rfl) fun pool member => ?_
      have allowedHere := allowed pool member
      unfold RanksAllow RankedPopulationNodeImpl.rankAssignments at allowedHere ⊢
      rwa [sameInput]
    · intro event event' clones clones' same each
      rw [List.forall₂_eq_eq_eq] at each
      rw [same.1, each]
  have labeled : Lockstep (· = ·) (label ⟨node⟩ input .full)
      (label ⟨node'⟩ input .full) :=
    applied.bind_eq fun event => .refl _
  exact labeled.eq_ok_iff (fun _ _ impossible => impossible) output

/-- A branch to a ranked node over a pool of ten people. -/
def oneRankedForm : CompiledNode .constant :=
  .mk none (.branchNode ⟨[⟨.node (.mk none (.rankedPopulationNode
    ⟨[⟨100, 10⟩], "seed", 0, .fullPool⟩)), .condition ()⟩], "seed", .notSet⟩)

/-- Ten people of a population node and of a ranked node. -/
theorem Labeler.label_of_rankedForms_tenPeople :
    ∃ labeler labeler' output,
      build (onePopulation [⟨100, 10⟩]) = .ok labeler ∧
      build oneRankedForm = .ok labeler' ∧
      labeler.label Externals.constant.emptyInput .full = .ok output ∧
      labeler'.label Externals.constant.emptyInput .full = .ok output := by
  obtain ⟨labeler, id, built, labeled⟩ := exists_label_onePopulation
  have forms : (onePopulation [⟨100, 10⟩]).Variant
      (RankedForm [⟨100, 10⟩]) oneRankedForm := by
    refine .branchNode (.cons rfl .nil) ?_
    intro pair member child child' isChild isChild'
    rw [List.mem_singleton.mp member] at isChild isChild'
    rw [← ChildNode.node.inj isChild, ← ChildNode.node.inj isChild']
    exact .leaf (@RankedForm.populationNode .constant _ ⟨[⟨100, 10⟩], "seed"⟩
      ⟨100, 10⟩ (List.mem_singleton_self _) rfl (by decide))
  have keeps : labeler.root.KeepsField modeAndInput false := by
    rw [← Except.ok.inj built]
    exact .branchNode nofun nofun nofun nofun
      (List.forall_mem_cons.mpr ⟨.leafNode nofun, nofun⟩)
  exact ⟨labeler, _, _, built, rfl, labeled, (label_of_rankedForms forms built
    rfl keeps (fun _ _ => .inl rfl) _).mp labeled⟩

end VirtualPeople.Cc
