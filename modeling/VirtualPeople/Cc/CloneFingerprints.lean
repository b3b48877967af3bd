import VirtualPeople.Cc.CloneTree
import VirtualPeople.Cc.RoutingAgreement
import VirtualPeople.HashChain

/-!
# Fingerprints of clones

The fingerprint of an event that arrives at a leaf is a chain of hashes, with
one hash for each clone on the way that is not the first of its event.  Where no
multiplicity stands below another one with the same seed, the arrivals have
different chains, so that two of them have the same fingerprint only if the
hash collides.
-/

namespace VirtualPeople.Cc

variable {X : Externals} {Node : Type}

/-! ## Clones as steps of a chain -/

/-- The clone of an event with an index, by a multiplicity with a seed. -/
@[ext]
structure CloneStep where
  randomSeed : String
  index : ℕ

namespace CloneStep

/-- What is hashed for a clone of an event with the fingerprint. -/
def text (fingerprint : UInt64) (step : CloneStep) : String :=
  step.randomSeed ++ "-clone-" ++ toString step.index ++ "-" ++
    toString fingerprint

/-- The chain of the clone with an index: the first one keeps the fingerprint
of the event. -/
def extend (randomSeed : String) (index : ℕ) (chain : List CloneStep) :
    List CloneStep :=
  if index = 0 then chain else ⟨randomSeed, index⟩ :: chain

/-- The digits of a number contain no hyphen. -/
theorem hyphen_notMem_repr (number : ℕ) : '-' ∉ number.repr.toList := by
  rw [Nat.toList_repr]
  intro member
  have digit := Nat.isDigit_of_mem_toDigits (by decide) (by decide) member
  exact absurd digit (by decide)

/-- The text tells the fingerprint and the clone, as the last two hyphens stand
before the index and before the fingerprint. -/
theorem text_injective2 : Function.Injective2 text := by
  intro fingerprint fingerprint' step step' same
  have letters := congrArg String.toList same
  unfold text at letters
  simp only [String.toList_append] at letters
  have front (seed index : List Char) (back : List Char) :
      seed ++ "-clone-".toList ++ index ++ "-".toList ++ back =
        (seed ++ "-clone".toList ++ '-' :: index) ++ '-' :: back := by
    simp
  rw [front, front] at letters
  obtain ⟨heads, fingerprints⟩ := HashChain.append_cons_inj_of_notMem_right
    (hyphen_notMem_repr _) (hyphen_notMem_repr _) letters
  obtain ⟨seeds, indexes⟩ := HashChain.append_cons_inj_of_notMem_right
    (hyphen_notMem_repr _) (hyphen_notMem_repr _) heads
  refine ⟨UInt64.toNat_inj.mp (Nat.repr_injective (String.toList_inj.mp
    fingerprints)), ?_⟩
  ext1
  · exact String.toList_inj.mp (List.append_cancel_right seeds)
  · exact Nat.repr_injective (String.toList_inj.mp indexes)

end CloneStep

/-- The digest that starts with a clone is that of the chain extended by it. -/
theorem MultiplicityImpl.getFingerprintForIndex_eq
    (multiplicity : MultiplicityImpl X) (fingerprint : UInt64) (index : ℕ)
    (chain : List CloneStep) :
    HashChain.digest X.fingerprint CloneStep.text
        (multiplicity.getFingerprintForIndex fingerprint index) chain =
      HashChain.digest X.fingerprint CloneStep.text fingerprint
        (CloneStep.extend multiplicity.randomSeed index chain) := by
  unfold getFingerprintForIndex CloneStep.extend
  split_ifs <;> rfl

/-! ## Chains of a tree -/

/-- The chains of clones, from those that are found for each clone. -/
def BranchNodeImpl.mergeChains (impl : BranchNodeImpl X Node)
    (chains : List (List (List CloneStep))) : List (List CloneStep) :=
  (chains.mapIdx fun index => List.map (CloneStep.extend
    ((impl.multiplicity.map (·.randomSeed)).getD "") index)).flatten

/-- A node as its behaviour and the chains of the leaves that an event reaches
below it. -/
structure ChainedNode (X : Externals) where
  behaviour : Behaviour X
  cloneChains : X.Event → Result (List (List CloneStep))

namespace ModelNode

/-- The tree, with the chains of clones that lead to each visit of a leaf. -/
def chained (node : ModelNode X) : ChainedNode X :=
  node.fold
    (fun impl => {
      behaviour := (impl.map ChainedNode.behaviour).apply
      cloneChains := impl.walk
        (fun updater => applyToCopy (updater.map ChainedNode.behaviour).update)
        ChainedNode.cloneChains (fun _ => impl.mergeChains) })
    fun leaf => {
      behaviour := leaf.apply
      cloneChains := fun _ => return [[]] }

/-- The clones on the way to each leaf that an event reaches, in order. -/
def cloneChains (node : ModelNode X) :
    X.Event → Result (List (List CloneStep)) :=
  node.chained.cloneChains

/-- The chained tree behaves as the tree does. -/
@[simp] theorem behaviour_chained (node : ModelNode X) :
    node.chained.behaviour = node.apply := by
  induction node using ModelNode.induction with
  | leaf leaf => rw [chained, fold_leafNode, apply_leafNode]
  | branch impl children trees =>
    rw [chained, fold_branchNode, apply_branchNode]
    change ((impl.map chained).map ChainedNode.behaviour).apply = _
    rw [BranchNodeImpl.map_map, BranchNodeImpl.map_congr children trees]

@[simp] theorem cloneChains_leafNode (leaf : LeafNode) (event : X.Event) :
    cloneChains (.leafNode leaf) event = .ok [[]] := by
  rw [cloneChains, chained, fold_leafNode]
  rfl

/-- The chains of a branch node are those of its children, extended by its
clones. -/
theorem cloneChains_branchNode (impl : BranchNodeImpl X (ModelNode X))
    (event : X.Event) :
    cloneChains (.branchNode impl) event =
      impl.walk updateEvent cloneChains (fun _ => impl.mergeChains) event := by
  rw [cloneChains, chained, fold_branchNode]
  change (impl.map chained).walk _ _ (fun _ => impl.mergeChains) event = _
  have updaterEq (updater : AttributesUpdaterInterface X (ModelNode X)) :
      (updater.map chained).map ChainedNode.behaviour = updater.map apply := by
    cases updater with
    | updateTree root =>
      exact congrArg AttributesUpdaterInterface.updateTree
        (behaviour_chained root)
    | _ => rfl
  rw [BranchNodeImpl.walk_map]
  simp only [updaterEq]
  rfl

end ModelNode

/-! ## Chains of a route -/

/-- The seeds of the multiplicities of a tree are new below each other and below
the seeds in use. -/
inductive ModelNode.FreshSeeds : List String → ModelNode X → Prop
  | leafNode {used : List String} (leaf : LeafNode) :
      FreshSeeds used (.leafNode leaf)
  | branchNode {used : List String} {impl : BranchNodeImpl X (ModelNode X)}
      (isNew : ∀ multiplicity ∈ impl.multiplicity,
        multiplicity.randomSeed ∉ used)
      (children : ∀ child ∈ impl.childNodes, FreshSeeds
        ((impl.multiplicity.map (·.randomSeed)).toList ++ used) child) :
      FreshSeeds used (.branchNode impl)

-- Below itself a seed makes the same clone of the first clone and of the event.
example (multiplicity : MultiplicityImpl X) (fingerprint : UInt64) :
    multiplicity.getFingerprintForIndex
        (multiplicity.getFingerprintForIndex fingerprint 0) 1 =
      multiplicity.getFingerprintForIndex
        (multiplicity.getFingerprintForIndex fingerprint 1) 0 := rfl

/-- The fingerprint that the event acts with at the leaf. -/
def Visit.fingerprint (visit : Visit X) : UInt64 :=
  visit.event.actingFingerprint.getD 0

/-- All that is hashed along the chains. -/
def cloneTexts (X : Externals) (fingerprint : UInt64)
    (chains : List (List CloneStep)) : Set String :=
  { text | ∃ chain ∈ chains,
    text ∈ HashChain.texts X.fingerprint CloneStep.text fingerprint chain }

/-- Each visit has a chain from the fingerprint to its own; the chains are
different, and none of them uses a seed that is in use. -/
structure Chained (used : List String) (fingerprint : UInt64)
    (visits : List (Visit X)) (chains : List (List CloneStep)) : Prop where
  each : List.Forall₂ (fun visit chain => visit.fingerprint =
    HashChain.digest X.fingerprint CloneStep.text fingerprint chain) visits
      chains
  distinct : chains.Nodup
  fresh : ∀ chain ∈ chains, ∀ step ∈ chain, step.randomSeed ∉ used

namespace Chained

variable {used used' : List String} {fingerprint : UInt64}
  {visits : List (Visit X)} {chains : List (List CloneStep)}

/-- Chains that avoid some seeds avoid fewer of them. -/
theorem mono (chained : Chained used fingerprint visits chains)
    (fewer : used' ⊆ used) : Chained used' fingerprint visits chains where
  each := chained.each
  distinct := chained.distinct
  fresh chain member step inChain isUsed :=
    chained.fresh chain member step inChain (fewer isUsed)

/-- Which clone of the multiplicity with the seed a chain starts with. -/
def firstIndex (randomSeed : String) : List CloneStep → ℕ
  | [] => 0
  | step :: _ => if step.randomSeed = randomSeed then step.index else 0

/-- The index of a seed that is new is the first one of the chain. -/
theorem firstIndex_extend {randomSeed : String} {chain : List CloneStep}
    (fresh : ∀ step ∈ chain, step.randomSeed ≠ randomSeed) (index : ℕ) :
    firstIndex randomSeed (CloneStep.extend randomSeed index chain) = index := by
  unfold CloneStep.extend
  split_ifs with isFirst
  · cases chain with
    | nil => exact isFirst.symm
    | cons step chain =>
      have other := (List.forall_mem_cons.mp fresh).1
      exact (if_neg other).trans isFirst.symm
  · exact if_pos rfl

/-- Chains that are extended alike are equal only if they were. -/
theorem extend_injective (randomSeed : String) (index : ℕ) :
    Function.Injective (CloneStep.extend randomSeed index) := by
  intro chain chain' same
  unfold CloneStep.extend at same
  split_ifs at same with isFirst
  · exact same
  · exact (List.cons.inj same).2

/-- The visits of all clones together are chained: the chains of one clone
differ from those of another in their first step, as no later step uses the
seed. -/
theorem flatMap {multiplicity : MultiplicityImpl X}
    (isNew : multiplicity.randomSeed ∉ used) {count : ℕ}
    {visitsOf : ℕ → List (Visit X)} {chainsOf : ℕ → List (List CloneStep)}
    (chained : ∀ index < count, Chained (multiplicity.randomSeed :: used)
      (multiplicity.getFingerprintForIndex fingerprint index)
      (visitsOf index) (chainsOf index)) :
    Chained used fingerprint ((List.range count).flatMap visitsOf)
      ((List.range count).flatMap fun index => (chainsOf index).map
        (CloneStep.extend multiplicity.randomSeed index)) := by
  have otherSeed {index : ℕ} (inside : index < count) {chain : List CloneStep}
      (member : chain ∈ chainsOf index) :
      ∀ step ∈ chain, step.randomSeed ≠ multiplicity.randomSeed := by
    intro step inChain same
    exact (chained index inside).fresh chain member step inChain
      (same ▸ List.mem_cons_self)
  refine ⟨?_, List.nodup_flatMap.mpr ⟨?_, ?_⟩, ?_⟩
  · refine List.rel_flatten ?_
    rw [List.forall₂_map_left_iff, List.forall₂_map_right_iff,
      List.forall₂_same]
    intro index member
    rw [List.forall₂_map_right_iff]
    refine (chained index (List.mem_range.mp member)).each.imp ?_
    intro visit chain same
    rw [same, MultiplicityImpl.getFingerprintForIndex_eq]
  · intro index member
    exact (chained index (List.mem_range.mp member)).distinct.map
      (extend_injective _ _)
  · refine List.nodup_range.imp_of_mem ?_
    intro index index' member member' different chain inFirst inSecond
    obtain ⟨rest, inRest, rfl⟩ := List.mem_map.mp inFirst
    obtain ⟨rest', inRest', same⟩ := List.mem_map.mp inSecond
    have indexes := congrArg (firstIndex multiplicity.randomSeed) same
    rw [firstIndex_extend (otherSeed (List.mem_range.mp member') inRest'),
      firstIndex_extend (otherSeed (List.mem_range.mp member) inRest)]
      at indexes
    exact different indexes.symm
  · intro chain member step inChain isUsed
    obtain ⟨index, inRange, inChains⟩ := List.mem_flatMap.mp member
    obtain ⟨rest, inRest, rfl⟩ := List.mem_map.mp inChains
    have later : step ∉ rest := fun inRest' =>
      (chained index (List.mem_range.mp inRange)).fresh rest inRest step inRest'
        (List.mem_cons_of_mem _ isUsed)
    unfold CloneStep.extend at inChain
    split_ifs at inChain
    · exact later inChain
    · rcases List.mem_cons.mp inChain with rfl | inRest'
      · exact isNew isUsed
      · exact later inRest'

/-- If the hash does not collide on the chains, the visits have different
fingerprints. -/
theorem nodup_fingerprints (chained : Chained used fingerprint visits chains)
    (free : HashChain.CollisionFree X.fingerprint fingerprint
      (cloneTexts X fingerprint chains)) :
    (visits.map Visit.fingerprint).Nodup := by
  have fingerprints : visits.map Visit.fingerprint =
      chains.map (HashChain.digest X.fingerprint CloneStep.text fingerprint) := by
    rw [← List.forall₂_eq_eq_eq, List.forall₂_map_left_iff,
      List.forall₂_map_right_iff]
    exact chained.each
  rw [fingerprints]
  exact free.nodup_digests CloneStep.text_injective2
    (fun chain member text inTexts => ⟨chain, member, inTexts⟩)
    chained.distinct

end Chained

namespace ModelNode

/-- The clone of an event has the fingerprint for its index. -/
theorem fingerprint_cloneEvent {multiplicity : MultiplicityImpl X}
    (keeps : multiplicity.KeepsField LabelerEvent.actingFingerprint)
    (event : X.Event) (index : ℕ) :
    (BranchNodeImpl.cloneEvent multiplicity event index).actingFingerprint.getD
        0 =
      multiplicity.getFingerprintForIndex (event.actingFingerprint.getD 0)
        index := by
  unfold BranchNodeImpl.cloneEvent
  rw [keeps]
  rfl

/-- What is chained for each clone is chained for the event. -/
theorem exists_chained_of_clones {impl : BranchNodeImpl X (ModelNode X)}
    {multiplicity : MultiplicityImpl X}
    (multiplicityEq : impl.multiplicity = some multiplicity)
    (keeps : multiplicity.KeepsField LabelerEvent.actingFingerprint)
    {used : List String} (isNew : multiplicity.randomSeed ∉ used)
    (ofChild : ∀ {event : X.Event} {visits : List (Visit X)},
      impl.walkChild route event = .ok visits →
        ∃ chains, impl.walkChild cloneChains event = .ok chains ∧
          Chained (multiplicity.randomSeed :: used)
            (event.actingFingerprint.getD 0) visits chains)
    {event : X.Event} {count : ℕ} {visits : List (Visit X)}
    (routed : impl.walkDispatched route (fun _ visits => visits.flatten) event
      (.clones ((List.range count).map
        (BranchNodeImpl.cloneEvent multiplicity event))) = .ok visits) :
    ∃ chains, impl.walkDispatched cloneChains (fun _ => impl.mergeChains) event
        (.clones ((List.range count).map
          (BranchNodeImpl.cloneEvent multiplicity event))) = .ok chains ∧
      Chained used (event.actingFingerprint.getD 0) visits chains := by
  obtain ⟨lists, mapped, visitsEq⟩ := bind_eq_ok_iff.mp routed
  rw [List.mapM_map] at mapped
  have each : ∀ index < count, ∃ list chains,
      impl.walkChild route
        (BranchNodeImpl.cloneEvent multiplicity event index) = .ok list ∧
      impl.walkChild cloneChains
        (BranchNodeImpl.cloneEvent multiplicity event index) = .ok chains ∧
      Chained (multiplicity.randomSeed :: used)
        (multiplicity.getFingerprintForIndex
          (event.actingFingerprint.getD 0) index) list chains := by
    intro index inside
    obtain ⟨list, -, listEq⟩ :=
      exists_mem_of_mapM_eq_ok mapped (List.mem_range.mpr inside)
    obtain ⟨chains, chainsEq, chained⟩ := ofChild listEq
    rw [fingerprint_cloneEvent keeps] at chained
    exact ⟨list, chains, listEq, chainsEq, chained⟩
  choose! listOf chainsOf listEq chainsEq chained using each
  have listsEq : lists = (List.range count).map listOf := by
    refine Except.ok.inj (mapped.symm.trans (mapM_eq_ok_iff.mpr ?_))
    rw [List.forall₂_map_right_iff, List.forall₂_same]
    exact fun index member => listEq index (List.mem_range.mp member)
  have chainsMapped : ((List.range count).map
      (BranchNodeImpl.cloneEvent multiplicity event)).mapM
        (impl.walkChild cloneChains) =
      .ok ((List.range count).map chainsOf) := by
    rw [List.mapM_map, mapM_eq_ok_iff, List.forall₂_map_right_iff,
      List.forall₂_same]
    exact fun index member => chainsEq index (List.mem_range.mp member)
  rw [← Except.ok.inj visitsEq, listsEq]
  refine ⟨_, bind_eq_ok_iff.mpr ⟨_, chainsMapped, rfl⟩, ?_⟩
  have merged : impl.mergeChains ((List.range count).map chainsOf) =
      (List.range count).flatMap fun index => (chainsOf index).map
        (CloneStep.extend multiplicity.randomSeed index) := by
    unfold BranchNodeImpl.mergeChains
    rw [multiplicityEq, List.flatMap_def]
    congr 1
    refine List.ext_getElem (by simp) fun index inside inside' => ?_
    simp
  change Chained _ _ _ (impl.mergeChains _)
  rw [merged]
  exact Chained.flatMap isNew chained

/-- The events that arrive at leaves are chained to the event that sets out. -/
theorem exists_chained_of_route {isUpdate : Bool} {node : ModelNode X}
    (keeps : node.KeepsField LabelerEvent.actingFingerprint isUpdate)
    {used : List String} (fresh : node.FreshSeeds used) {event : X.Event}
    {visits : List (Visit X)} (routed : node.route event = .ok visits) :
    ∃ chains, node.cloneChains event = .ok chains ∧
      Chained used (event.actingFingerprint.getD 0) visits chains := by
  induction keeps generalizing used event visits with
  | @leafNode _ leaf _ =>
    rw [route_leafNode] at routed
    rw [← Except.ok.inj routed, cloneChains_leafNode]
    refine ⟨_, rfl, .cons rfl .nil, List.nodup_singleton _, ?_⟩
    intro chain member step inChain
    rw [List.mem_singleton.mp member] at inChain
    contradiction
  | @branchNode _ impl _ multiplicityKeeps updaters trees _ _
      childrenHypothesis =>
    cases fresh with
    | branchNode isNew children =>
      have ofChild {event : X.Event} {visits : List (Visit X)}
          (routed : impl.walkChild route event = .ok visits) :
          ∃ chains, impl.walkChild cloneChains event = .ok chains ∧ Chained
            ((impl.multiplicity.map (·.randomSeed)).toList ++ used)
            (event.actingFingerprint.getD 0) visits chains := by
        obtain ⟨child, selected, routed⟩ := bind_eq_ok_iff.mp routed
        have member := BranchNodeImpl.mem_of_selectChild selected
        obtain ⟨chains, chainsEq, chained⟩ :=
          childrenHypothesis child member (children child member) routed
        exact ⟨chains, bind_eq_ok_iff.mpr ⟨child, selected, chainsEq⟩, chained⟩
      rw [route_branchNode] at routed
      rw [cloneChains_branchNode]
      obtain ⟨dispatched, dispatchEq, routed⟩ := bind_eq_ok_iff.mp routed
      suffices found : ∃ chains, impl.walkDispatched cloneChains
          (fun _ => impl.mergeChains) event dispatched = .ok chains ∧
            Chained used (event.actingFingerprint.getD 0) visits chains by
        obtain ⟨chains, chainsEq, chained⟩ := found
        exact ⟨chains, bind_eq_ok_iff.mpr ⟨_, dispatchEq, chainsEq⟩, chained⟩
      unfold BranchNodeImpl.dispatch at dispatchEq
      cases multiplicityEq : impl.multiplicity with
      | none =>
        rw [multiplicityEq] at dispatchEq ofChild
        obtain ⟨updated, run, onward⟩ := bind_eq_ok_iff.mp dispatchEq
        obtain rfl := Except.ok.inj onward
        have kept := keepsField_updateEvent updaters
          (fun updater member root isRoot =>
            (trees updater member root isRoot).update rfl) event updated run
        rw [← kept]
        exact ofChild routed
      | some multiplicity =>
        rw [multiplicityEq] at dispatchEq ofChild
        have keepsIndex := multiplicityKeeps multiplicity multiplicityEq
        simp only at dispatchEq
        split_ifs at dispatchEq
        obtain ⟨count, -, dispatchEq⟩ := bind_eq_ok_iff.mp dispatchEq
        split_ifs at dispatchEq with single
        · obtain rfl := Except.ok.inj dispatchEq
          obtain ⟨chains, chainsEq, chained⟩ := ofChild routed
          rw [keepsIndex] at chained
          exact ⟨chains, chainsEq,
            chained.mono (List.subset_append_right _ _)⟩
        · obtain rfl := Except.ok.inj dispatchEq
          exact exists_chained_of_clones multiplicityEq keepsIndex
            (isNew multiplicity multiplicityEq) ofChild routed

end ModelNode

/-- The fingerprint of the event that a labeling sets out with. -/
def startFingerprint (input : X.Input) : UInt64 :=
  (Labeler.prepareEvent input .full).actingFingerprint.getD 0

/-- The clones on the way to each leaf that a full labeling reaches. -/
def Labeler.cloneChains (labeler : Labeler X) (input : X.Input) :
    Result (List (List CloneStep)) :=
  labeler.root.cloneChains (prepareEvent input .full)

/-- The people of a full labeling come from visits of leaves, in order, and each
visit has a chain of clones of its own; if the hash does not collide on these
chains, then no two visits have the same fingerprint. -/
theorem Labeler.fingerprints_of_label {labeler : Labeler X}
    (neutral : labeler.root.NeutralRoutes)
    (keeps : labeler.root.KeepsField LabelerEvent.actingFingerprint false)
    (fresh : labeler.root.FreshSeeds []) {input : X.Input}
    {output : LabelerOutput X} (labeled : labeler.label input .full = .ok output) :
    ∃ visits people chains, labeler.route input .full = .ok visits ∧
      List.Forall₂ (fun visit people => Visit.people visit = .ok people) visits
        people ∧
      output.people = people.flatten ∧
      labeler.cloneChains input = .ok chains ∧
      Chained [] (startFingerprint input) visits chains ∧
      (HashChain.CollisionFree X.fingerprint (startFingerprint input)
          (cloneTexts X (startFingerprint input) chains) →
        (visits.map Visit.fingerprint).Nodup) := by
  obtain ⟨visits, people, routed, created, peopleEq⟩ :=
    label_full neutral labeled
  obtain ⟨chains, chainsEq, chained⟩ :=
    ModelNode.exists_chained_of_route keeps fresh routed
  exact ⟨visits, people, chains, routed, created, peopleEq, chainsEq, chained,
    chained.nodup_fingerprints⟩

/-- External functions that hash a text to its length. -/
def lengthExternals : Externals :=
  { personExternals with fingerprint64 := fun bytes => bytes.size.toUInt64 }

/-- Two clones of an event, with the seed. -/
def twoClones (randomSeed : String) (child : CompiledNode lengthExternals) :
    CompiledNode lengthExternals :=
  .mk none (.branchNode ⟨[⟨.node child, .condition PersonFilter.isTrue⟩], "seed",
    .multiplicity ⟨.expectedMultiplicity 2.0, some "person_index", some 2.0,
      some true, some randomSeed⟩⟩)

/-- The built node of two clones. -/
def builtTwoClones (randomSeed : String) (child : ModelNode lengthExternals) :
    ModelNode lengthExternals :=
  .branchNode ⟨[child], none, "seed", some ⟨[PersonFilter.isTrue]⟩, [],
    some ⟨.explicitValue 2.0, true, 2.0, (), randomSeed, rfl⟩⟩

theorem neutral_builtTwoClones {child : ModelNode lengthExternals}
    (neutral : child.NeutralRoutes) (randomSeed : String) :
    (builtTwoClones randomSeed child).NeutralRoutes := by
  refine .branchNode ⟨?_, nofun, ?_⟩
    (List.forall_mem_cons.mpr ⟨neutral, nofun⟩)
  · rintro matcher ⟨⟩ filter member event
    rw [List.mem_singleton.mp member]
    rfl
  · rintro multiplicity ⟨⟩
    exact ⟨fun _ => rfl, fun _ => ⟨fun _ => rfl, fun _ => rfl⟩⟩

theorem keepsField_builtTwoClones {child : ModelNode lengthExternals}
    (keeps : child.KeepsField LabelerEvent.actingFingerprint false)
    (randomSeed : String) :
    (builtTwoClones randomSeed child).KeepsField
      LabelerEvent.actingFingerprint false := by
  refine .branchNode nofun ?_ nofun nofun
    (List.forall_mem_cons.mpr ⟨keeps, nofun⟩)
  rintro multiplicity ⟨⟩ event index
  rfl

/-- Two clones of each of two clones, with different seeds, have four
fingerprints. -/
theorem Labeler.fingerprints_of_label_fourClones :
    ∃ labeler visits, build (twoClones "a" (twoClones "bb" (.mk none
        (.rankedPopulationNode ⟨[⟨7, 1⟩], "seed", 1, .disjoint⟩)))) =
          .ok labeler ∧
      labeler.route rankedInput .full = .ok visits ∧ visits.length = 4 ∧
      (visits.map Visit.fingerprint).Nodup := by
  let leaf : ModelNode lengthExternals := .leafNode (.rankedPopulationNode
    ⟨"seed", 1, .disjoint, 7, 1, by decide, by decide, by decide⟩)
  have neutral := neutral_builtTwoClones
    (@neutral_builtTwoClones leaf (.leafNode _) "bb") "a"
  have keeps := keepsField_builtTwoClones
    (@keepsField_builtTwoClones leaf (.leafNode nofun) "bb") "a"
  have fresh : (builtTwoClones "a" (builtTwoClones "bb" leaf)).FreshSeeds [] := by
    refine .branchNode (fun _ _ => List.not_mem_nil)
      (List.forall_mem_cons.mpr ⟨.branchNode ?_
        (List.forall_mem_cons.mpr ⟨.leafNode _, nofun⟩), nofun⟩)
    rintro multiplicity ⟨⟩
    decide
  obtain ⟨visits, people, chains, routed, -, -, chainsEq, -, distinct⟩ :=
    @fingerprints_of_label lengthExternals ⟨_⟩ neutral keeps fresh rankedInput
      _ rfl
  have four : chains =
      [[], [⟨"bb", 1⟩], [⟨"a", 1⟩], [⟨"a", 1⟩, ⟨"bb", 1⟩]] :=
    (Except.ok.inj chainsEq).symm
  subst four
  let hashTable : List (String × UInt64) :=
    [("a-clone-1-0", 11), ("bb-clone-1-0", 12), ("bb-clone-1-11", 13)]
  refine ⟨_, visits, rfl, routed, ?_, distinct ?_⟩
  · rw [← Except.ok.inj routed]
    rfl
  · have hashes : ∀ text ∈ cloneTexts lengthExternals
        (startFingerprint rankedInput) [[], [⟨"bb", 1⟩], [⟨"a", 1⟩],
          [⟨"a", 1⟩, ⟨"bb", 1⟩]],
        (text, lengthExternals.fingerprint text) ∈ hashTable := by
      rintro text ⟨chain, member, inTexts⟩
      simp only [List.mem_cons, List.not_mem_nil, or_false] at member
      rcases member with rfl | rfl | rfl | rfl
      · contradiction
      · rw [List.mem_singleton.mp inTexts]
        exact .tail _ (.head _)
      · rw [List.mem_singleton.mp inTexts]
        exact .head _
      · rcases List.mem_cons.mp inTexts with rfl | later
        · exact .head _
        · rw [List.mem_singleton.mp later]
          exact .tail _ (.tail _ (.head _))
    constructor
    · intro text inTexts text' inTexts' same
      have hashesDiffer : (hashTable.map Prod.snd).Nodup := by decide
      exact congrArg Prod.fst (List.inj_on_of_nodup_map hashesDiffer
        (hashes text inTexts) (hashes text' inTexts') same)
    · intro text inTexts same
      have listed := List.mem_map_of_mem (f := Prod.snd) (hashes text inTexts)
      rw [same] at listed
      exact absurd listed (show (0 : UInt64) ∉ hashTable.map Prod.snd by decide)

end VirtualPeople.Cc
