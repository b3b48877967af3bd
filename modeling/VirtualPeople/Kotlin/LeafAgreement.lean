import VirtualPeople.Cc.ModelNode
import VirtualPeople.Cc.People
import VirtualPeople.Kotlin.PopulationNode
import VirtualPeople.Kotlin.RankedPopulationNode

/-!
# Leaves of both languages

A leaf that both languages have built finds the same id for an event, so that
it leaves the same event behind.  For a population node this needs pools whose
starts do not wrap around: C++ looks a pool up by halving the list, and Kotlin
from its front.
-/

namespace VirtualPeople

namespace Kotlin

variable {X : Externals}

/-! ## Looking a pool up -/

/-- The first pool that starts above a number comes right after the last one
that does not. -/
theorem indexOfFirst_of_sorted {pools : List VirtualPersonIdPool}
    (sorted : pools.Pairwise fun first second =>
      first.populationIndexOffset ≤ second.populationIndexOffset)
    {populationIndex : UInt64} {position : ℕ} {pool : VirtualPersonIdPool}
    (found : pools[position]? = some pool)
    (startLe : pool.populationIndexOffset ≤ populationIndex)
    (nextAbove : ∀ next, pools[position + 1]? = some next →
      populationIndex < next.populationIndexOffset) :
    indexOfFirst pools (fun pool =>
        populationIndex < pool.populationIndexOffset) =
      if position + 1 < pools.length then ((position + 1 : ℕ) : ℤ) else -1 := by
  obtain ⟨inside, poolEq⟩ := List.getElem?_eq_some_iff.mp found
  have notAbove (earlier : ℕ) (earlierLt : earlier < pools.length)
      (earlierLe : earlier ≤ position) :
      ¬populationIndex < pools[earlier].populationIndexOffset := by
    rw [UInt64.not_lt]
    refine UInt64.le_trans ?_ startLe
    rcases Nat.lt_or_eq_of_le earlierLe with less | rfl
    · rw [← poolEq]
      exact List.pairwise_iff_getElem.mp sorted earlier position _ inside less
    · rw [← poolEq]
      exact UInt64.le_refl _
  unfold indexOfFirst
  split_ifs with hasNext
  · have first : pools.findIdx? (fun pool => decide
        (populationIndex < pool.populationIndexOffset)) =
          some (position + 1) := by
      refine List.findIdx?_eq_some_iff_getElem.mpr ⟨hasNext, ?_, ?_⟩
      · simpa using nextAbove _ (List.getElem?_eq_getElem hasNext)
      · intro earlier earlierLt
        simpa using notAbove earlier (by omega) (by omega)
    rw [first]
  · have none : pools.findIdx? (fun pool => decide
        (populationIndex < pool.populationIndexOffset)) = none := by
      rw [List.findIdx?_eq_none_iff]
      intro pool member
      obtain ⟨earlier, earlierLt, rfl⟩ := List.mem_iff_getElem.mp member
      simpa using notAbove earlier (by omega) (by omega)
    rw [none]

namespace VirtualPeopleSelector

/-- Both languages pick the same person. -/
theorem getVirtualPersonId_eq {pools : List VirtualPersonPool}
    {selector : Cc.VirtualPersonSelector}
    (built : Cc.VirtualPersonSelector.build pools = .ok selector)
    (noWrap : exactPopulation pools < 2 ^ 64) (randomSeed : UInt64) :
    (ofCc selector).getVirtualPersonId randomSeed =
      selector.getVirtualPersonId randomSeed := by
  have indexEq : (ofCc selector).populationIndex randomSeed =
      selector.populationIndex randomSeed :=
    congrArg signExtend (jumpConsistentHash_eq _ _)
  obtain ⟨position, idPool, found, idEq, startLe, nextAbove⟩ :=
    Cc.VirtualPersonSelector.lookUp_eq built
      (selector.populationIndex randomSeed)
  obtain ⟨compiledFrom, -⟩ := Cc.VirtualPersonSelector.build_ok built
  have sorted := (compiledFrom.starts_le (by
    rw [Cc.exactPopulation_nonEmptyPools]
    simpa using noWrap)).2
  have found' : (ofCc selector).pools[position]? = some
      ⟨idPool.virtualPeopleIdOffset, idPool.populationIndexOffset⟩ := by
    rw [ofCc, List.getElem?_map, found]
    rfl
  have firstAbove := @indexOfFirst_of_sorted (ofCc selector).pools
    (List.pairwise_map.mpr sorted) (selector.populationIndex randomSeed)
    position _ found' startLe (by
      intro next nextFound
      rw [ofCc, List.getElem?_map, Option.map_eq_some_iff] at nextFound
      obtain ⟨nextPool, nextEq, rfl⟩ := nextFound
      exact nextAbove nextPool nextEq)
  have inside := (List.getElem?_eq_some_iff.mp found').1
  have preIndexEq : (ofCc selector).preIndex
      (selector.populationIndex randomSeed) = ((position + 1 : ℕ) : ℤ) - 1 := by
    unfold preIndex
    simp only [firstAbove]
    by_cases hasNext : position + 1 < (ofCc selector).pools.length
    · rw [if_pos hasNext, if_neg (by omega)]
    · rw [if_neg hasNext, if_pos rfl]
      omega
  unfold getVirtualPersonId Cc.VirtualPersonSelector.getVirtualPersonId
  rw [idEq]
  simp only [indexEq, preIndexEq, Cc.elementAt_sub_one found']
  rfl

end VirtualPeopleSelector

/-! ## The application of a leaf -/

/-- A leaf of Kotlin that finds the id of the C++ leaf ends as it does. -/
theorem createActivity_agreeAt {α : Type} {event : X.Event}
    (unlabeled : event.virtualPersonActivities = []) {found : Result UInt64}
    {found' : Result α} {finish : α → Step X.Event Unit}
    (ids : Lockstep (fun vid value => finish value =
      PopulationNodeHelper.addActivity X (some vid) (toString vid))
        found found') :
    Step.AgreeAt (· = ·) (Cc.createActivity X found event)
      ((Step.lift found' >>= finish) event) := by
  unfold Cc.createActivity
  rw [Step.run_bind_of_ok _ (Cc.run_setActivity X ⟨none, none⟩ event)]
  cases ids with
  | excuse isExcused _ => exact isExcused.elim
  | errors fault fault' => exact .errors _ _ _ _
  | @ok vid value finishEq =>
    change Step.AgreeAt _ (Cc.writeLabels X vid _) (finish value event)
    rw [finishEq]
    exact PopulationNodeHelper.addActivity_agreeAt vid unlabeled
      [⟨none, none⟩]

namespace PopulationNodeImpl

variable {config : PopulationNode} {node : Cc.PopulationNodeImpl}
  {node' : PopulationNodeImpl}

/-- A node of both languages holds the same selector: pools without people are
rejected in C++. -/
theorem build_related
    (built : Cc.PopulationNodeImpl.buildFromConfig config = .ok node)
    (built' : buildFromConfig config = .ok node') :
    Cc.VirtualPersonSelector.build config.pools =
        .ok node.virtualPersonSelector ∧
      node'.virtualPeopleSelector =
        some (.ofCc node.virtualPersonSelector) ∧
      node'.randomSeed = node.randomSeed := by
  obtain ⟨_, -, rest⟩ := bind_eq_ok_iff.mp built
  obtain ⟨selector, selectorEq, nodeEq⟩ := bind_eq_ok_iff.mp rest
  rw [← Except.ok.inj nodeEq]
  unfold buildFromConfig at built'
  split_ifs at built' with empty
  · rw [isEmptyPopulationPool_iff.mp empty] at selectorEq
    contradiction
  · obtain ⟨selector', selectorEq', nodeEq'⟩ := bind_eq_ok_iff.mp built'
    rw [← Except.ok.inj nodeEq']
    have same := (VirtualPeopleSelector.build_lockstep config.pools).aligned
      selector selector' selectorEq selectorEq'
    exact ⟨selectorEq, congrArg some same, rfl⟩

/-- Both languages find the same id in a population node. -/
theorem virtualPersonId_lockstep
    (built : Cc.PopulationNodeImpl.buildFromConfig config = .ok node)
    (built' : buildFromConfig config = .ok node')
    (noWrap : exactPopulation config.pools < 2 ^ 64) (event : X.Event) :
    Lockstep (fun vid found => found = some vid) (node.virtualPersonId event)
      (node'.virtualPersonId event) := by
  obtain ⟨selectorBuilt, selectorEq, seedEq⟩ := build_related built built'
  unfold Cc.PopulationNodeImpl.virtualPersonId virtualPersonId
    PopulationNodeHelper.computeVidSeed
  simp only [selectorEq, seedEq, UInt64.toUInt64_toInt64,
    VirtualPeopleSelector.getVirtualPersonId_eq selectorBuilt noWrap]
  cases node.virtualPersonSelector.getVirtualPersonId _ with
  | error fault => exact .errors _ _
  | ok vid => exact .ok rfl

/-- Both languages apply a population node alike. -/
theorem apply_agree
    (built : Cc.PopulationNodeImpl.buildFromConfig config = .ok node)
    (built' : buildFromConfig config = .ok node')
    (noWrap : exactPopulation config.pools < 2 ^ 64) :
    Step.Agree (σ := X.Event) (· = ·) node.apply node'.apply := by
  intro event
  unfold Cc.PopulationNodeImpl.apply apply
  rw [Step.run_bind_of_ok _ (Step.run_get event),
    Step.run_bind_of_ok _ (Step.run_get event)]
  split_ifs with identity occupied
  · exact .ok rfl event
  · exact .errors _ _ _ _
  · refine createActivity_agreeAt (by simpa using occupied)
      ((virtualPersonId_lockstep built built' noWrap event).mono ?_)
    rintro vid _ rfl
    rfl

end PopulationNodeImpl

namespace RankedPopulationNodeImpl

variable {config : RankedPopulationNode} {node : Cc.RankedPopulationNodeImpl}
  {node' : RankedPopulationNodeImpl}

/-- The nodes of both languages hold the same fields. -/
structure SameNode (node : Cc.RankedPopulationNodeImpl)
    (node' : RankedPopulationNodeImpl) : Prop where
  randomSeed : node'.randomSeed = node.randomSeed
  rankedSize : node'.rankedSize = node.rankedSize
  unrankedMode : node'.unrankedMode = node.unrankedMode
  poolOffset : node'.poolOffset = node.poolOffset
  poolSize : node'.poolSize = node.poolSize

/-- Both languages build the same ranked node. -/
theorem build_related
    (built : Cc.RankedPopulationNodeImpl.buildFromConfig config = .ok node)
    (built' : buildFromConfig config = .ok node') : SameNode node node' := by
  unfold Cc.RankedPopulationNodeImpl.buildFromConfig at built
  unfold buildFromConfig at built'
  split at built
  · rename_i pool poolsEq
    rw [poolsEq] at built'
    simp only [UInt64.toUInt64_toInt64] at built built'
    split_ifs at built built'
    rw [← Except.ok.inj built, ← Except.ok.inj built']
    exact ⟨rfl, rfl, rfl, rfl, rfl⟩
  · contradiction

theorem unrankedId_lockstep (same : SameNode node node')
    (actingFingerprint : UInt64) :
    Lockstep (· = ·) (node.unrankedId X actingFingerprint)
      (node'.unrankedId X actingFingerprint.toInt64) := by
  unfold Cc.RankedPopulationNodeImpl.unrankedId unrankedId
    PopulationNodeHelper.computeVidSeed
  rw [same.unrankedMode, same.randomSeed, same.poolSize, same.poolOffset,
    same.rankedSize]
  simp only [UInt64.toUInt64_toInt64, jumpConsistentHash_eq]
  cases node.unrankedMode with
  | disjoint =>
    simp only
    by_cases noSpace : node.poolSize - node.rankedSize = 0
    · rw [if_pos noSpace, noSpace, if_neg (by decide)]
      exact .errors _ _
    · have hasSpace : node.poolSize - node.rankedSize > 0 := by
        rw [gt_iff_lt, UInt64.lt_iff_toNat_lt]
        exact Nat.pos_of_ne_zero fun zero => noSpace (UInt64.toNat_inj.mp zero)
      rw [if_neg noSpace, if_pos hasSpace]
      exact .refl _
  | fullPool => exact .refl _
  | _ => exact .errors _ _

theorem rankAssignment_eq (same : SameNode node node') (event : X.Event) :
    node'.rankAssignment event = node.lookupRank event := by
  unfold rankAssignment Cc.RankedPopulationNodeImpl.lookupRank
  simp only [UInt64.toUInt64_toInt64, same.poolOffset]
  rfl

/-- C++ looks at the assignment first, and Kotlin at whether there should be
one. -/
theorem virtualPersonId_lockstep (same : SameNode node node')
    (event : X.Event) :
    Lockstep (· = ·) (node.virtualPersonId event)
      (node'.virtualPersonId event) := by
  have unranked := unrankedId_lockstep (X := X) same
    (event.actingFingerprint.getD 0)
  have assignmentsEq : rankAssignments event =
      Cc.RankedPopulationNodeImpl.rankAssignments event := rfl
  unfold Cc.RankedPopulationNodeImpl.virtualPersonId virtualPersonId
  simp only [rankAssignment_eq same, assignmentsEq, UInt64.toUInt64_toInt64]
  cases node.lookupRank event with
  | none =>
    cases Cc.RankedPopulationNodeImpl.rankAssignments event with
    | nil => exact unranked
    | cons rank ranks => exact .errors _ _
  | some rank =>
    have matched : ¬((Cc.RankedPopulationNodeImpl.rankAssignments
        event).isEmpty = false ∧ some rank = none) := by
      simp
    rw [if_neg matched, same.rankedSize]
    simp only
    split_ifs
    · unfold Cc.RankedPopulationNodeImpl.rankedId
      rw [same.poolOffset, same.randomSeed, Feistel.permute_eq]
      exact .refl _
    · exact unranked

/-- Both languages apply a ranked node alike. -/
theorem apply_agree (same : SameNode node node') :
    Step.Agree (σ := X.Event) (· = ·) node.apply node'.apply := by
  intro event
  unfold Cc.RankedPopulationNodeImpl.apply apply
  rw [Step.run_bind_of_ok _ (Step.run_get event),
    Step.run_bind_of_ok _ (Step.run_get event)]
  split_ifs with identity occupied
  · have assignmentEq : node'.poolAssignment = node.poolAssignment := by
      unfold poolAssignment Cc.RankedPopulationNodeImpl.poolAssignment
      simp only [UInt64.toUInt64_toInt64, same.poolOffset, same.poolSize,
        same.rankedSize]
    rw [assignmentEq]
    exact .ok rfl _
  · exact .errors _ _ _ _
  · refine createActivity_agreeAt (by simpa using occupied)
      ((virtualPersonId_lockstep same event).mono ?_)
    rintro vid _ rfl
    rfl

end RankedPopulationNodeImpl

end Kotlin

end VirtualPeople
