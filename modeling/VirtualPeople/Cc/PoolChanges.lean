import VirtualPeople.Cc.CloneTree
import VirtualPeople.Cc.InternalFaults
import VirtualPeople.Cc.Variants
import VirtualPeople.PoolGrowth

/-!
# Changing the pools of a model

The pools of the population nodes of a model are changed and the rest of it
stays.  An event then takes the same route as before, and each leaf that it
reaches finds the same id, or moves the person as the change of its own pools
says.
-/

namespace VirtualPeople.Cc

variable {X : Externals}

/-! ## Labels do not fail for one id only -/

/-- Whether a quantum label can be collapsed does not depend on the seed. -/
theorem collapseQuantumLabel_lockstep (quantumLabel : QuantumLabel X.Label)
    (seedSuffix seedSuffix' : String) (label label' : X.Label) :
    Lockstep (fun _ _ => True)
      (collapseQuantumLabel X quantumLabel seedSuffix label)
      (collapseQuantumLabel X quantumLabel seedSuffix' label') := by
  unfold collapseQuantumLabel
  split_ifs with empty different
  · exact .errors _ _
  · exact .errors _ _
  cases built : DistributedConsistentHashing.build
      (enumerateChoices quantumLabel.probabilities) with
  | error fault => exact .errors _ _
  | ok hashing =>
    have inside (suffix : String) : IsPosition quantumLabel.labels.length
        (hashing.hash X
          ("quantum-label-collapse-" ++ quantumLabel.seed ++ suffix)) := by
      rw [not_not.mp different]
      exact isPosition_hash_enumerateChoices built _
    obtain ⟨collapsed, -, collapsedEq⟩ := (inside seedSuffix).elementAt_eq
    obtain ⟨collapsed', -, collapsedEq'⟩ := (inside seedSuffix').elementAt_eq
    simp only [bind, Except.bind, collapsedEq, collapsedEq']
    exact .ok trivial

/-- Whether quantum labels collapse does not depend on the seed. -/
theorem collapsedLabel_lockstep (quantumLabels : List (QuantumLabel X.Label))
    (seedSuffix seedSuffix' : String) (label : Option X.Label) :
    Lockstep (fun _ _ => True) (collapsedLabel X quantumLabels seedSuffix label)
      (collapsedLabel X quantumLabels seedSuffix' label) := by
  refine .foldlM (List.forall₂_same.mpr ?_) trivial
  intro quantumLabel _ label label' _
  rw [map_eq_pure_bind, map_eq_pure_bind]
  exact .bind (collapseQuantumLabel_lockstep _ _ _ _ _) fun _ _ _ => .ok trivial

/-- Whether a label is written does not depend on the id. -/
theorem writtenLabel_lockstep (event : X.Event) (id id' : UInt64) :
    Lockstep (fun _ _ => True) (writtenLabel X event id)
      (writtenLabel X event id') :=
  .bind (collapsedLabel_lockstep _ _ _ _) fun _ _ _ => .ok trivial

/-! ## People that move -/

variable {moves : UInt64 → Prop}

/-- The person is the same, or has another id that the moves allow. -/
def Moved (moves : UInt64 → Prop) (person person' : X.Activity) : Prop :=
  person' = person ∨ ∃ id, person'.virtualPersonId = some id ∧ moves id

/-- The second event is the first one, but for people that have moved. -/
structure MovedEvent (moves : UInt64 → Prop) (event event' : X.Event) :
    Prop where
  people : List.Forall₂ (Moved moves) event.virtualPersonActivities
    event'.virtualPersonActivities
  rest : event' = { event with
    virtualPersonActivities := event'.virtualPersonActivities }

theorem forall₂_moved_refl (people : List X.Activity) :
    List.Forall₂ (Moved moves) people people :=
  List.forall₂_same.mpr fun _ _ => .inl rfl

theorem MovedEvent.refl (event : X.Event) : MovedEvent moves event event where
  people := forall₂_moved_refl _
  rest := rfl

/-- A moved event announces the same pools. -/
theorem MovedEvent.poolAssignments_eq {event event' : X.Event}
    (moved : MovedEvent moves event event') :
    event'.poolAssignments = event.poolAssignments := by
  rw [moved.rest]

/-- Clones whose people have moved are folded back to people that have. -/
theorem MovedEvent.foldl {event : X.Event} {clones clones' : List X.Event}
    (each : List.Forall₂ (MovedEvent moves) clones clones') :
    MovedEvent moves (clones.foldl BranchNodeImpl.foldBack event)
      (clones'.foldl BranchNodeImpl.foldBack event) := by
  have people : List.Forall₂ (Moved moves)
      (clones.flatMap LabelerEvent.virtualPersonActivities)
      (clones'.flatMap LabelerEvent.virtualPersonActivities) :=
    List.rel_flatten (List.forall₂_map_left_iff.mpr
      (List.forall₂_map_right_iff.mpr (each.imp fun _ _ both => both.people)))
  have pools : List.Forall₂ (· = ·) (clones'.map LabelerEvent.poolAssignments)
      (clones.map LabelerEvent.poolAssignments) :=
    List.forall₂_map_left_iff.mpr (List.forall₂_map_right_iff.mpr
      (each.flip.imp fun _ _ both => both.poolAssignments_eq))
  rw [List.forall₂_eq_eq_eq] at pools
  rw [BranchNodeImpl.foldl_foldBack, BranchNodeImpl.foldl_foldBack,
    List.flatMap_def, List.flatMap_def, List.flatMap_def, List.flatMap_def,
    pools]
  exact ⟨List.rel_append (forall₂_moved_refl _) people, rfl⟩

/-- For every seed the second selector finds the id that the first one finds,
or one that the moves allow. -/
def VirtualPersonSelector.MovesTo (moves : UInt64 → Prop)
    (selector selector' : VirtualPersonSelector) : Prop :=
  ∀ randomSeed, ∃ id id', selector.getVirtualPersonId randomSeed = .ok id ∧
    selector'.getVirtualPersonId randomSeed = .ok id' ∧ (id' = id ∨ moves id')

/-- Equal leaves, or two population nodes between which the people move. -/
inductive MovedLeaf (moves : UInt64 → Prop) : LeafNode → LeafNode → Prop
  | same (leaf : LeafNode) : MovedLeaf moves leaf leaf
  | populationNode {node node' : PopulationNodeImpl}
      (sameSeed : node'.randomSeed = node.randomSeed)
      (ids : node.virtualPersonSelector.MovesTo moves
        node'.virtualPersonSelector) :
      MovedLeaf moves (.populationNode node) (.populationNode node')

/-- The created person moves as the id does. -/
theorem createdPerson_moved {event : X.Event} {id id' : UInt64}
    (ids : id' = id ∨ moves id') :
    Lockstep (List.Forall₂ (Moved moves)) (createdPerson event (.ok id))
      (createdPerson event (.ok id')) := by
  rcases ids with rfl | moved
  · exact (Match.refl _).mono fun people people' same =>
      same ▸ forall₂_moved_refl people
  · change Lockstep _ (writtenLabel X event id >>= _)
      (writtenLabel X event id' >>= _)
    refine .bind (writtenLabel_lockstep event id id') fun label label' _ => ?_
    have person : Moved moves (⟨some id, label⟩ : X.Activity)
        ⟨some id', label'⟩ := .inr ⟨id', rfl, moved⟩
    exact .ok (.cons person .nil)

/-- Moved leaves label moved people. -/
theorem MovedLeaf.apply_lockstep {leaf leaf' : LeafNode}
    (movedLeaf : MovedLeaf moves leaf leaf') (event : X.Event) :
    Lockstep (MovedEvent moves) (applyToCopy leaf.apply event)
      (applyToCopy leaf'.apply event) := by
  cases movedLeaf with
  | same =>
    exact (Match.refl _).mono fun final _ same => same ▸ MovedEvent.refl final
  | @populationNode node node' sameSeed ids =>
    rw [LeafNode.applyToCopy_apply, LeafNode.applyToCopy_apply]
    simp only [LeafNode.virtualPersonId]
    split_ifs
    · exact .ok (.refl _)
    · exact .errors _ _
    · obtain ⟨id, id', idEq, idEq', idMoves⟩ := ids
        (X.fingerprint
          (node.randomSeed ++ toString (event.actingFingerprint.getD 0)))
      unfold PopulationNodeImpl.virtualPersonId
      rw [sameSeed, idEq, idEq']
      exact .bind (createdPerson_moved idMoves) fun people people' moved =>
        .ok ⟨moved, rfl⟩

/-- A tree that has leaves in their place is its own variant. -/
theorem ModelNode.Variant.refl {leaves : LeafNode → LeafNode → Prop}
    (reflexive : ∀ leaf, leaves leaf leaf) (node : ModelNode X) :
    Variant leaves node node := by
  induction node using ModelNode.induction with
  | leaf leaf => exact .leafNode (reflexive leaf)
  | branch impl children _ =>
    exact .of_forall₂ (List.forall₂_same.mpr children)

/-! ## Models -/

/-- The pools of a population node are replaced by pools from which the same
people are found, or people to which the moves lead. -/
inductive ChangedPools (moves : UInt64 → Prop) :
    NodeType X (CompiledNode X) → NodeType X (CompiledNode X) → Prop
  | same (type : NodeType X (CompiledNode X)) : ChangedPools moves type type
  | populationNode {config config' : PopulationNode}
      (sameSeed : config'.randomSeed = config.randomSeed)
      (selectors : Aligned (VirtualPersonSelector.MovesTo moves)
        (VirtualPersonSelector.build config.pools)
        (VirtualPersonSelector.build config'.pools)) :
      ChangedPools moves (.populationNode config) (.populationNode config')

/-- Changed pools are built to moved leaves. -/
theorem ChangedPools.build_aligned {type type' : NodeType X (CompiledNode X)}
    (changed : ChangedPools moves type type') (index index' : Option UInt32) :
    Aligned (ModelNode.Variant (MovedLeaf moves))
      (ModelNode.build (.mk index type)).alone
      (ModelNode.build (.mk index' type')).alone := by
  cases changed with
  | same type =>
    rw [alone_build_index index' index]
    intro node node' built built'
    rw [Except.ok.inj (built.symm.trans built')]
    exact .refl MovedLeaf.same node'
  | @populationNode config config' sameSeed selectors =>
    rw [alone_build_populationNode, alone_build_populationNode]
    unfold PopulationNodeImpl.buildFromConfig
    simp only [bind_assoc, pure_bind]
    intro node node' built built'
    obtain ⟨_, -, built⟩ := bind_eq_ok_iff.mp built
    obtain ⟨_, -, built'⟩ := bind_eq_ok_iff.mp built'
    exact selectors.bind (fun selector selector' ids =>
      .ok (.leafNode (.populationNode sameSeed ids))) node node' built built'

/-- Selectors of the same people do not move anyone. -/
theorem VirtualPersonSelector.movesTo_of_people_eq
    {pools pools' : List VirtualPersonPool}
    (samePeople : people pools' = people pools)
    (small : exactPopulation pools < 2 ^ 31) :
    Aligned (MovesTo fun _ => False) (build pools) (build pools') := by
  intro selector selector' built built' randomSeed
  have sameCount : exactPopulation pools' = exactPopulation pools := by
    rw [← length_people, ← length_people, samePeople]
  obtain ⟨countEq, id, idEq, person⟩ :=
    getVirtualPersonId_eq_person built small randomSeed
  obtain ⟨countEq', id', idEq', person'⟩ :=
    getVirtualPersonId_eq_person built' (sameCount ▸ small) randomSeed
  have sameTotal : toInt32 selector'.totalPopulation =
      toInt32 selector.totalPopulation :=
    Int32.toInt_inj.mp (by rw [countEq, countEq', sameCount])
  rw [sameTotal, samePeople, person] at person'
  exact ⟨id, id', idEq, idEq', .inl (Option.some.inj person').symm⟩

/-- An event in which nobody moves is the same. -/
theorem MovedEvent.eq {event event' : X.Event}
    (moved : MovedEvent (fun _ => False) event event') : event' = event := by
  have samePeople : List.Forall₂ (· = ·) event.virtualPersonActivities
      event'.virtualPersonActivities := by
    refine moved.people.imp fun person person' personMoved => ?_
    rcases personMoved with same | ⟨id, -, impossible⟩
    · exact same.symm
    · exact impossible.elim
  rw [List.forall₂_eq_eq_eq] at samePeople
  rw [moved.rest, ← samePeople]

/-- A branch to a population node with the given pools. -/
def onePopulation (pools : List VirtualPersonPool) : CompiledNode .constant :=
  .mk none (.branchNode ⟨[⟨.node (.mk none (.populationNode ⟨pools, "seed"⟩)),
    .condition ()⟩], "seed", .notSet⟩)

theorem exists_label_onePopulation :
    ∃ labeler id, Labeler.build (onePopulation [⟨100, 10⟩]) = .ok labeler ∧
      labeler.label Externals.constant.emptyInput .full =
        .ok ⟨[⟨some id, none⟩], [], none⟩ := by
  obtain ⟨-, id, found, -⟩ :=
    @VirtualPersonSelector.getVirtualPersonId_eq_person [⟨100, 10⟩]
      ⟨10, [⟨100, 0⟩]⟩ rfl (by decide) 0
  refine ⟨_, id, rfl, ?_⟩
  change (applyToCopy (LeafNode.apply (X := .constant)
      (.populationNode ⟨⟨10, [⟨100, 0⟩]⟩, "seed"⟩))
    (Labeler.prepareEvent Externals.constant.emptyInput .full) >>=
      fun event => pure _) = _
  rw [LeafNode.applyToCopy_apply]
  change (Except.bind (Except.bind (createdPerson _
    (VirtualPersonSelector.getVirtualPersonId ⟨10, [⟨100, 0⟩]⟩ 0)) _) _) = _
  rw [found]
  rfl

end VirtualPeople.Cc
