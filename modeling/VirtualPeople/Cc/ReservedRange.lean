import VirtualPeople.Cc.LeafNode
import VirtualPeople.Cc.ModelBuilder
import VirtualPeople.Cc.PoolContainment

/-!
# The reserved id range

Ids from `kCookieMonsterOffset` on are reserved.  The builder of a population
node checks the 64-bit end of each pool, and that of a ranked population node
checks nothing, so whether a leaf keeps out of the range is a condition on its
configuration.
-/

namespace VirtualPeople

/-! ## Configurations that respect the range -/

/-- Each pool, cut at the narrowed count, is empty or ends at or below the
range; without a positive count, the one id that is given instead is below. -/
def PopulationNode.RespectsReservedRange (config : PopulationNode) : Prop :=
  (Cc.FitsInt32 config.pools → ∀ part ∈ Cc.cutPools config.pools,
    part.totalPopulation = 0 ∨
      part.populationOffset.toNat + part.totalPopulation.toNat ≤
        Cc.kCookieMonsterOffset.toNat) ∧
    (¬Cc.FitsInt32 config.pools → ∀ id ∈ Cc.wrappedId config.pools,
      id < Cc.kCookieMonsterOffset)

/-- The number of the person that an event with the acting fingerprint is
hashed to. -/
def PopulationNode.hashedNumber (X : Externals) (config : PopulationNode)
    (actingFingerprint : UInt64) : ℕ :=
  Cc.hashedNumber config.pools
    (X.fingerprint (config.randomSeed ++ toString actingFingerprint))

/-- Every number below the narrowed count is that of some acting
fingerprint. -/
def PopulationNode.HashesToAll (X : Externals) (config : PopulationNode) :
    Prop :=
  ∀ number < Cc.narrowedCount config.pools,
    ∃ actingFingerprint, config.hashedNumber X actingFingerprint = number

/-- How many ids, counted from the offset, a ranked node gives to events. -/
def RankedPopulationNode.labeledSize (config : RankedPopulationNode)
    (poolSize : UInt64) : UInt64 :=
  match config.unrankedMode with
  | .disjoint | .fullPool => poolSize
  | _ => config.rankedSize

/-- The last of these ids is below the range. -/
def RankedPopulationNode.RespectsReservedRange
    (config : RankedPopulationNode) : Prop :=
  ∀ pool ∈ config.pools, config.labeledSize pool.totalPopulation = 0 ∨
    pool.populationOffset.toNat +
        (config.labeledSize pool.totalPopulation).toNat ≤
      Cc.kCookieMonsterOffset.toNat

/-- The leaf respects the range; other nodes give no ids themselves. -/
def NodeType.RespectsReservedRange {X : Externals} {Node : Type} :
    NodeType X Node → Prop
  | .populationNode config => config.RespectsReservedRange
  | .rankedPopulationNode config => config.RespectsReservedRange
  | _ => True

namespace Cc

variable {X : Externals}

@[simp] theorem toNat_kCookieMonsterOffset :
    kCookieMonsterOffset.toNat = 10 ^ 18 := rfl

/-! ## Population nodes -/

/-- Pools that end at or below the range, without wrapping, respect it. -/
theorem respectsReservedRange_of_pools {config : PopulationNode}
    (fits : FitsInt32 config.pools)
    (below : ∀ pool ∈ nonEmptyPools config.pools,
      pool.populationOffset.toNat + pool.totalPopulation.toNat ≤
        kCookieMonsterOffset.toNat) :
    config.RespectsReservedRange := by
  refine ⟨fun _ part member => .inr ?_, fun unfitting => absurd fits unfitting⟩
  obtain ⟨pool, poolMember, offsetEq, sizeLe⟩ := exists_of_mem_cutFrom member
  have := below pool poolMember
  rw [offsetEq]
  omega

namespace PopulationNodeImpl

variable {config : PopulationNode} {node : PopulationNodeImpl}

/-- The events of a respecting configuration are given ids below the range. -/
theorem virtualPersonId_lt (built : buildFromConfig config = .ok node)
    (respects : config.RespectsReservedRange) {event : X.Event} {vid : UInt64}
    (found : node.virtualPersonId event = .ok vid) :
    vid < kCookieMonsterOffset := by
  obtain ⟨-, selectorBuilt, -⟩ := @build_ok X none config node built
  by_cases fits : FitsInt32 config.pools
  · obtain ⟨id, idEq, part, member, contains⟩ :=
      VirtualPersonSelector.getVirtualPersonId_part selectorBuilt fits
        (X.fingerprint
          (node.randomSeed ++ toString (event.actingFingerprint.getD 0)))
    have sameId : vid = id := Except.ok.inj (found.symm.trans idEq)
    rw [← sameId] at contains
    rcases respects.1 fits part member with empty | below
    · rw [VirtualPersonPool.Contains, empty] at contains
      exact absurd contains UInt64.not_lt_zero
    · rw [toNat_kCookieMonsterOffset] at below
      rw [part.contains_iff (by omega)] at contains
      rw [UInt64.lt_iff_toNat_lt, toNat_kCookieMonsterOffset]
      exact lt_of_lt_of_le contains.2 below
  · obtain ⟨id, idEq, cases⟩ := @getVirtualPersonId_cases X none config node
      built (X.fingerprint
        (node.randomSeed ++ toString (event.actingFingerprint.getD 0)))
    have sameId : vid = id := Except.ok.inj (found.symm.trans idEq)
    rcases cases with ⟨fits', -⟩ | ⟨-, wrapped⟩
    · exact absurd fits' fits
    · rw [sameId]
      exact respects.2 fits id wrapped

/-- Without a positive count, every event is given the same id. -/
theorem virtualPersonId_of_unfitting
    (built : buildFromConfig config = .ok node)
    (unfitting : ¬FitsInt32 config.pools) (event : X.Event) :
    ∃ vid, node.virtualPersonId event = .ok vid ∧
      wrappedId config.pools = some vid := by
  obtain ⟨id, idEq, cases⟩ := @getVirtualPersonId_cases X none config node built
    (X.fingerprint
      (node.randomSeed ++ toString (event.actingFingerprint.getD 0)))
  rcases cases with ⟨fits, -⟩ | ⟨-, wrapped⟩
  · exact absurd fits unfitting
  · exact ⟨id, idEq, wrapped⟩

/-- An event with an acting fingerprint. -/
def hashedEvent (X : Externals) (actingFingerprint : UInt64) : X.Event :=
  { X.emptyEvent with actingFingerprint := some actingFingerprint }

/-- Every id of the pools, cut at the narrowed count, is given to some event
if every number below the count is hashed to. -/
theorem exists_virtualPersonId (built : buildFromConfig config = .ok node)
    (fits : FitsInt32 config.pools)
    (noWrap : exactPopulation config.pools < 2 ^ 64)
    (hashesToAll : config.HashesToAll X) {id : UInt64}
    (member : id ∈ people (cutPools config.pools)) :
    ∃ actingFingerprint,
      node.virtualPersonId (hashedEvent X actingFingerprint) = .ok id := by
  obtain ⟨-, selectorBuilt, seedEq⟩ := @build_ok X none config node built
  obtain ⟨number, below, returns⟩ :=
    VirtualPersonSelector.exists_number_of_mem selectorBuilt fits noWrap member
  obtain ⟨actingFingerprint, hashed⟩ := hashesToAll number below
  refine ⟨actingFingerprint, ?_⟩
  rw [virtualPersonId, seedEq]
  exact returns _ hashed

end PopulationNodeImpl

/-! ## Ranked population nodes -/

namespace RankedPopulationNodeImpl

variable {node : RankedPopulationNodeImpl}

/-- The ids of a ranked node that respects the range are below it. -/
theorem virtualPersonId_lt {config : RankedPopulationNode}
    (isBuilt : node.IsBuiltFrom config)
    (respects : config.RespectsReservedRange) {event : X.Event} {vid : UInt64}
    (found : node.virtualPersonId event = .ok vid) :
    vid < kCookieMonsterOffset := by
  obtain ⟨poolsEq, rankedSizeEq, modeEq, -⟩ := isBuilt
  have offsetLt : vid - node.poolOffset < config.labeledSize node.poolSize := by
    have below := virtualPersonId_sub_lt found
    unfold RankedPopulationNode.labeledSize
    rwa [← modeEq, ← rankedSizeEq]
  rw [UInt64.lt_iff_toNat_lt, UInt64.toNat_sub] at offsetLt
  rcases respects _ (poolsEq ▸ List.mem_singleton_self _) with zero | below
  · simp only at zero
    rw [zero, UInt64.toNat_zero] at offsetLt
    omega
  · simp only [toNat_kCookieMonsterOffset] at below
    have := vid.toNat_lt
    rw [UInt64.lt_iff_toNat_lt, toNat_kCookieMonsterOffset]
    omega

/-- An event with a rank in the pool. -/
def rankedEvent (X : Externals) (poolOffset localRank : UInt64) : X.Event :=
  let labelerInput : X.Input :=
    { X.emptyInput with rankAssignments := [⟨poolOffset, localRank⟩] }
  { X.emptyEvent with labelerInput := some labelerInput }

/-- Every id of the ranked part is given to some event. -/
theorem exists_virtualPersonId (X : Externals) (node : RankedPopulationNodeImpl)
    {permuted : UInt64} (inRanked : permuted < node.rankedSize) :
    ∃ localRank, node.virtualPersonId (rankedEvent X node.poolOffset localRank) =
      .ok (node.poolOffset + permuted) := by
  obtain ⟨localRank, rankLt, permutedEq⟩ := feistelPermute_surjective X
    node.randomSeed (lt_of_le_of_lt node.rankedSizeLe node.poolSizeLt) inRanked
  have lookup : node.lookupRank (rankedEvent X node.poolOffset localRank) =
      some ⟨node.poolOffset, localRank⟩ := by
    simp [lookupRank, rankAssignments, rankedEvent]
  refine ⟨localRank, ?_⟩
  unfold virtualPersonId
  rw [lookup]
  simp only [if_pos rankLt, rankedId, permutedEq]
  rfl

end RankedPopulationNodeImpl

/-! ## Leaves -/

/-- Whenever the leaf assigns an id to an event, the id is below the range. -/
def AssignsBelowReserved (X : Externals) (leaf : LeafNode) : Prop :=
  ∀ event final : X.Event, event.virtualPersonActivities = [] →
    leaf.apply event = .ok () final →
      ∀ activity ∈ final.virtualPersonActivities, ∀ vid,
        activity.virtualPersonId = some vid → vid < kCookieMonsterOffset

/-- A leaf that only finds ids below the range keeps out of it. -/
theorem assignsBelowReserved_of_ids {leaf : LeafNode}
    (below : ∀ (event : X.Event) (vid : UInt64),
      leaf.virtualPersonId event = some (.ok vid) →
        vid < kCookieMonsterOffset) :
    AssignsBelowReserved X leaf := by
  intro event final unlabeled applied activity member vid vidEq
  cases mode : event.poolIdentityMode.getD false with
  | true =>
    rw [leaf.apply_of_poolIdentity mode] at applied
    injection applied with _ sameEvent
    rw [← sameEvent, unlabeled] at member
    exact absurd member List.not_mem_nil
  | false =>
    obtain ⟨people, created, rfl⟩ :=
      (leaf.apply_of_full mode unlabeled).mp applied
    obtain ⟨vid', vidEq', found⟩ := LeafNode.people_ids created member
    rw [vidEq, Option.some_inj] at vidEq'
    exact below event vid (vidEq' ▸ found)

/-- An event without labels keeps the id that a leaf finds for it. -/
theorem AssignsBelowReserved.id_lt {leaf : LeafNode}
    (assigns : AssignsBelowReserved X leaf) {event : X.Event} {vid : UInt64}
    (full : event.poolIdentityMode = none)
    (unlabeled : event.virtualPersonActivities = [])
    (noQuantumLabels : event.quantumLabels = none)
    (noLabel : event.label = none)
    (found : leaf.virtualPersonId event = some (.ok vid)) :
    vid < kCookieMonsterOffset := by
  have written : writtenLabel X event vid = .ok none := by
    unfold writtenLabel
    rw [noQuantumLabels, noLabel]
    rfl
  have created : leaf.people event = .ok [⟨some vid, none⟩] := by
    cases leaf with
    | stopNode => simp [LeafNode.virtualPersonId] at found
    | populationNode node =>
      exact createdPerson_ok_iff.mpr
        ⟨vid, none, Option.some.inj found, written, rfl⟩
    | rankedPopulationNode node =>
      exact createdPerson_ok_iff.mpr
        ⟨vid, none, Option.some.inj found, written, rfl⟩
  have applied := (leaf.apply_of_full (by rw [full]; rfl) unlabeled).mpr
    ⟨_, created, rfl⟩
  exact assigns _ _ unlabeled applied _ (List.mem_singleton_self _) vid rfl

/-- The three kinds of leaves, with what their builders accept. -/
theorem build_leafNode {config : CompiledNode X} {leaf : LeafNode}
    (built : (ModelNode.build config).alone = .ok (.leafNode leaf)) :
    (config.type = .stopNode ∧ leaf = .stopNode) ∨
    (∃ population node, config.type = .populationNode population ∧
      PopulationNodeImpl.buildFromConfig population = .ok node ∧
        leaf = .populationNode node) ∨
    (∃ ranked node, config.type = .rankedPopulationNode ranked ∧
      RankedPopulationNodeImpl.buildFromConfig ranked = .ok node ∧
        leaf = .rankedPopulationNode node) := by
  obtain ⟨index, type⟩ := config
  obtain ⟨refs, run⟩ := Builder.alone_eq_ok_iff.mp built
  rw [ModelNode.build_mk] at run
  cases type with
  | branchNode branch =>
    simp only [NodeType.map, ModelNode.buildType, Step.run_bind_eq_ok_iff,
      Step.run_pure, EStateM.Result.ok.injEq] at run
    obtain ⟨impl, _, _, nodeEq, -⟩ := run
    contradiction
  | stopNode =>
    simp only [NodeType.map, ModelNode.buildType, Step.run_pure,
      EStateM.Result.ok.injEq, ModelNode.leafNode.injEq] at run
    exact Or.inl ⟨rfl, run.1.symm⟩
  | populationNode population =>
    simp only [NodeType.map, ModelNode.buildType, Step.run_bind_eq_ok_iff,
      Step.run_lift_eq_ok_iff, Step.run_pure, EStateM.Result.ok.injEq,
      ModelNode.leafNode.injEq] at run
    obtain ⟨node, _, ⟨nodeEq, -⟩, leafEq, -⟩ := run
    exact Or.inr (Or.inl ⟨population, node, rfl, nodeEq, leafEq.symm⟩)
  | rankedPopulationNode ranked =>
    simp only [NodeType.map, ModelNode.buildType, Step.run_bind_eq_ok_iff,
      Step.run_lift_eq_ok_iff, Step.run_pure, EStateM.Result.ok.injEq,
      ModelNode.leafNode.injEq] at run
    obtain ⟨node, _, ⟨nodeEq, -⟩, leafEq, -⟩ := run
    exact Or.inr (Or.inr ⟨ranked, node, rfl, nodeEq, leafEq.symm⟩)
  | notSet => simp [NodeType.map, ModelNode.buildType] at run

theorem RankedPopulationNodeImpl.isBuiltFrom_of_buildFromConfig (X : Externals)
    {config : RankedPopulationNode} {node : RankedPopulationNodeImpl}
    (built : RankedPopulationNodeImpl.buildFromConfig config = .ok node) :
    node.IsBuiltFrom config := by
  obtain ⟨other, typeEq, isBuilt⟩ := @RankedPopulationNodeImpl.build_ok X
    (.mk none (.rankedPopulationNode config)) node built
  have sameType : NodeType.rankedPopulationNode config = .rankedPopulationNode other :=
    typeEq
  injection sameType with sameConfig
  rwa [sameConfig]

/-- Both ends of the ranked part are given to events. -/
theorem AssignsBelowReserved.rankedPart_le {node : RankedPopulationNodeImpl}
    (assigns : AssignsBelowReserved X (.rankedPopulationNode node)) :
    node.rankedSize = 0 ∨ node.poolOffset.toNat + node.rankedSize.toNat ≤
      kCookieMonsterOffset.toNat := by
  rcases Nat.eq_zero_or_pos node.rankedSize.toNat with zero | positive
  · exact Or.inl (UInt64.toNat_inj.mp zero)
  have given {permuted : UInt64} (inRanked : permuted < node.rankedSize) :
      node.poolOffset + permuted < kCookieMonsterOffset := by
    obtain ⟨localRank, found⟩ :=
      RankedPopulationNodeImpl.exists_virtualPersonId X node inRanked
    exact assigns.id_lt rfl rfl rfl rfl (congrArg some found)
  have first := given (show (0 : UInt64) < node.rankedSize from positive)
  have lastEq : (node.rankedSize - 1).toNat = node.rankedSize.toNat - 1 :=
    UInt64.toNat_sub_of_le _ _ (UInt64.le_iff_toNat_le.mpr positive)
  have last := given (show node.rankedSize - 1 < node.rankedSize by
    rw [UInt64.lt_iff_toNat_lt]
    omega)
  have rankedSizeLe := node.rankedSizeLe
  have poolSizeLt := node.poolSizeLt
  rw [UInt64.add_zero, UInt64.lt_iff_toNat_lt] at first
  rw [UInt64.lt_iff_toNat_lt, UInt64.toNat_add, lastEq] at last
  rw [toNat_kCookieMonsterOffset] at first last ⊢
  rw [Nat.mod_eq_of_lt (by omega)] at last
  omega

/-- Both ends of each part of the pools are given to events. -/
theorem AssignsBelowReserved.respects {config : PopulationNode}
    {node : PopulationNodeImpl}
    (built : PopulationNodeImpl.buildFromConfig config = .ok node)
    (fits : FitsInt32 config.pools)
    (noWrap : exactPopulation config.pools < 2 ^ 64)
    (hashesToAll : config.HashesToAll X)
    (assigns : AssignsBelowReserved X (.populationNode node)) :
    config.RespectsReservedRange := by
  refine ⟨fun _ part member => ?_, fun unfitting => absurd fits unfitting⟩
  rcases Nat.eq_zero_or_pos part.totalPopulation.toNat with zero | positive
  · exact .inl (UInt64.toNat_inj.mp zero)
  have given {number : ℕ} (inPart : number < part.totalPopulation.toNat) :
      part.person number < kCookieMonsterOffset := by
    obtain ⟨actingFingerprint, found⟩ :=
      PopulationNodeImpl.exists_virtualPersonId built fits noWrap hashesToAll
        (mem_people.mpr ⟨part, member, number, inPart, rfl⟩)
    exact assigns.id_lt rfl rfl rfl rfl (congrArg some found)
  have first := given positive
  have last := given (Nat.sub_lt positive Nat.one_pos)
  have sizeLt := toNat_lt_of_mem_cutPools member
  have offsetLt := part.populationOffset.toNat_lt
  rw [UInt64.lt_iff_toNat_lt, toNat_kCookieMonsterOffset] at first last
  rw [VirtualPersonPool.toNat_person] at first last
  rw [toNat_kCookieMonsterOffset]
  exact .inr (by omega)

/-- A leaf keeps out of the reserved range when its configuration respects it.
The condition is necessary for a population node whose narrowed count is not
positive, for one whose numbers are all hashed to, and for the ranked part of a
ranked population node. -/
theorem assigns_below_reserved {config : CompiledNode X} {leaf : LeafNode}
    (built : (ModelNode.build config).alone = .ok (.leafNode leaf)) :
    (config.type.RespectsReservedRange → AssignsBelowReserved X leaf) ∧
    (∀ population, config.type = .populationNode population →
      ¬FitsInt32 population.pools → AssignsBelowReserved X leaf →
        population.RespectsReservedRange) ∧
    (∀ population, config.type = .populationNode population →
      FitsInt32 population.pools → exactPopulation population.pools < 2 ^ 64 →
        population.HashesToAll X → AssignsBelowReserved X leaf →
          population.RespectsReservedRange) ∧
    (∀ ranked, config.type = .rankedPopulationNode ranked →
      AssignsBelowReserved X leaf → ∀ pool ∈ ranked.pools,
        ranked.rankedSize = 0 ∨
          pool.populationOffset.toNat + ranked.rankedSize.toNat ≤
            kCookieMonsterOffset.toNat) := by
  rcases build_leafNode built with ⟨typeEq, rfl⟩ |
    ⟨population, node, typeEq, nodeBuilt, rfl⟩ |
    ⟨ranked, node, typeEq, nodeBuilt, rfl⟩ <;> rw [typeEq]
  · refine ⟨fun _ => assignsBelowReserved_of_ids fun event vid found => ?_,
      nofun, nofun, nofun⟩
    simp [LeafNode.virtualPersonId] at found
  · refine ⟨fun respects => assignsBelowReserved_of_ids fun event vid found =>
      PopulationNodeImpl.virtualPersonId_lt nodeBuilt respects
        (Option.some.inj found), ?_, ?_, nofun⟩
    · intro other sameType unfitting assigns
      injection sameType with same
      subst same
      refine ⟨fun fits => absurd fits unfitting, fun _ id wrapped => ?_⟩
      obtain ⟨vid, found, wrapped'⟩ :=
        PopulationNodeImpl.virtualPersonId_of_unfitting nodeBuilt unfitting
          X.emptyEvent
      rw [wrapped'] at wrapped
      rw [← Option.some.inj wrapped]
      exact assigns.id_lt rfl rfl rfl rfl (congrArg some found)
    · intro other sameType fits noWrap hashesToAll assigns
      injection sameType with same
      subst same
      exact assigns.respects nodeBuilt fits noWrap hashesToAll
  · have isBuilt :=
      RankedPopulationNodeImpl.isBuiltFrom_of_buildFromConfig X nodeBuilt
    refine ⟨fun respects => assignsBelowReserved_of_ids fun event vid found =>
      RankedPopulationNodeImpl.virtualPersonId_lt isBuilt respects
        (Option.some.inj found), nofun, nofun, ?_⟩
    intro other sameType assigns pool poolMem
    injection sameType with same
    subst same
    obtain ⟨poolsEq, rankedSizeEq, -, -⟩ := isBuilt
    rw [poolsEq, List.mem_singleton] at poolMem
    rw [poolMem, ← rankedSizeEq]
    exact assigns.rankedPart_le

/-- A ranked pool of ten people far below the range keeps out of it.  A
population node does not if its one person is the last 64-bit number, or if its
total population is narrowed to a negative count. -/
theorem assigns_below_reserved_ten :
    (∃ leaf, (ModelNode.build (X := .constant) (.mk none
        (.rankedPopulationNode ⟨[⟨100, 10⟩], "seed", 5, .disjoint⟩))).alone =
          .ok (.leafNode leaf) ∧
      AssignsBelowReserved .constant leaf) ∧
    (∃ leaf, (ModelNode.build (X := .constant) (.mk none
        (.populationNode ⟨[⟨18446744073709551615, 1⟩], "seed"⟩))).alone =
          .ok (.leafNode leaf) ∧
      ¬AssignsBelowReserved .constant leaf) ∧
    (∃ leaf, (ModelNode.build (X := .constant) (.mk none
        (.populationNode ⟨[⟨0, 2147483648⟩], "seed"⟩))).alone =
          .ok (.leafNode leaf) ∧
      ¬AssignsBelowReserved .constant leaf) := by
  refine ⟨⟨.rankedPopulationNode
      ⟨"seed", 5, .disjoint, 100, 10, by decide, by decide, by decide⟩, rfl, ?_⟩,
    ⟨.populationNode ⟨⟨1, [⟨18446744073709551615, 0⟩]⟩, "seed"⟩, rfl, ?_⟩,
    ⟨.populationNode ⟨⟨2147483648, [⟨0, 0⟩]⟩, "seed"⟩, rfl, ?_⟩⟩
  · refine (@assigns_below_reserved .constant (.mk none
      (.rankedPopulationNode ⟨[⟨100, 10⟩], "seed", 5, .disjoint⟩)) _ rfl).1 ?_
    intro pool poolMem
    rw [List.mem_singleton] at poolMem
    rw [poolMem]
    exact Or.inr (by decide)
  · intro assigns
    have respects := (@assigns_below_reserved .constant (.mk none
      (.populationNode ⟨[⟨18446744073709551615, 1⟩], "seed"⟩)) _ rfl).2.2.1
        _ rfl (by decide) (by decide) ?_ assigns
    · exact absurd (respects.1 (by decide)) (by decide)
    · intro number below
      have count : narrowedCount [⟨18446744073709551615, 1⟩] = 1 := by decide
      rw [count, Nat.lt_one_iff] at below
      exact ⟨0, below ▸ by decide +kernel⟩
  · intro assigns
    have respects := (@assigns_below_reserved .constant (.mk none
      (.populationNode ⟨[⟨0, 2147483648⟩], "seed"⟩)) _ rfl).2.1
        _ rfl (by decide) assigns
    exact absurd (respects.2 (by decide) 18446744073709551615 rfl) (by decide)

/-- A ranked pool inside the range is accepted, and its first id is given to
an event. -/
theorem ranked_assigns_reserved :
    let event := RankedPopulationNodeImpl.rankedEvent .constant
      1000000000000000000 0
    ∃ node, (ModelNode.build (X := .constant) (.mk none
        (.rankedPopulationNode
          ⟨[⟨1000000000000000000, 1⟩], "seed", 1, .disjoint⟩))).alone =
            .ok (.leafNode (.rankedPopulationNode node)) ∧
      (LeafNode.rankedPopulationNode node).apply event = .ok () { event with
        virtualPersonActivities := [⟨some 1000000000000000000, none⟩] } ∧
      ¬(1000000000000000000 : UInt64) < kCookieMonsterOffset := by
  refine ⟨⟨"seed", 1, .disjoint, 1000000000000000000, 1, by decide, by decide,
    by decide⟩, rfl, rfl, by decide⟩

end Cc

end VirtualPeople
