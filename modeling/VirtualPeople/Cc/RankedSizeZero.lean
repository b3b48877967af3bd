import VirtualPeople.Cc.PopulationNode
import VirtualPeople.Cc.RankedPopulationNode

/-!
# A ranked node without ranks

With no ranked part every event goes through the hash, and in FULL_POOL mode
that is the hash of a population node over the same pool.  The selector of such
a node holds one pool that starts at zero, so its lookup only adds the offset.
-/

namespace VirtualPeople.Cc

variable {X : Externals} {pool : VirtualPersonPool}

namespace VirtualPersonSelector

/-- A single pool is compiled to itself. -/
theorem build_singleton (nonempty : pool.totalPopulation ≠ 0) :
    build [pool] =
      .ok ⟨pool.totalPopulation, [⟨pool.populationOffset, 0⟩]⟩ := by
  have compiled : [pool].foldl compilePool ⟨0, []⟩ =
      ⟨pool.totalPopulation, [⟨pool.populationOffset, 0⟩]⟩ := by
    rw [List.foldl_cons, List.foldl_nil, compilePool, if_neg nonempty,
      UInt64.zero_add, List.nil_append]
  unfold build
  rw [compiled, if_neg nonempty]
  rfl

/-- In a single pool every number is looked up from the offset. -/
theorem lookUp_singleton (nonempty : pool.totalPopulation ≠ 0)
    (populationIndex : UInt64) :
    lookUp ⟨pool.totalPopulation, [⟨pool.populationOffset, 0⟩]⟩
        populationIndex = .ok (pool.populationOffset + populationIndex) := by
  obtain ⟨position, idPool, found, idEq, -, -⟩ :=
    lookUp_eq (build_singleton nonempty) populationIndex
  have onlyPool := List.mem_singleton.mp (List.mem_of_getElem? found)
  rw [idEq, onlyPool, UInt64.sub_zero, UInt64.add_comm]

end VirtualPersonSelector

/-- The labeler input names no ranks, or one for this pool. -/
def RanksAllow (pool : VirtualPersonPool) (event : X.Event) : Prop :=
  RankedPopulationNodeImpl.rankAssignments event = [] ∨
    ∃ rank ∈ RankedPopulationNodeImpl.rankAssignments event,
      rank.poolOffset = pool.populationOffset

namespace RankedPopulationNodeImpl

variable {ranked : RankedPopulationNodeImpl} {event : X.Event}

theorem poolSize_ne_zero (ranked : RankedPopulationNodeImpl) :
    ranked.poolSize ≠ 0 := by
  intro zero
  have positive := ranked.poolSizePositive
  rw [zero] at positive
  exact absurd positive (by decide)

/-- Without a ranked part a rank does not matter, whatever its value. -/
theorem virtualPersonId_of_rankedSize_zero (noneRanked : ranked.rankedSize = 0)
    (allowed : RanksAllow ⟨ranked.poolOffset, ranked.poolSize⟩ event) :
    ranked.virtualPersonId event =
      ranked.unrankedId X (event.actingFingerprint.getD 0) := by
  unfold virtualPersonId
  cases lookup : ranked.lookupRank event with
  | some rank =>
    simp only
    rw [if_neg (by rw [noneRanked, UInt64.lt_iff_toNat_lt]; simp)]
  | none =>
    have noRanks : rankAssignments event = [] := by
      refine allowed.resolve_right ?_
      rintro ⟨rank, member, same⟩
      have different := List.find?_eq_none.mp lookup rank member
      simp [same] at different
    simp only
    rw [if_neg (by simpa using noRanks)]

/-- Both leaves find the same id. -/
theorem virtualPersonId_eq_population {config : RankedPopulationNode}
    (isBuilt : ranked.IsBuiltFrom config) (noneRanked : config.rankedSize = 0)
    (fullPool : config.unrankedMode = .fullPool)
    (allowed : RanksAllow ⟨ranked.poolOffset, ranked.poolSize⟩ event) :
    ranked.virtualPersonId event =
      PopulationNodeImpl.virtualPersonId
        ⟨⟨ranked.poolSize, [⟨ranked.poolOffset, 0⟩]⟩, config.randomSeed⟩
        event := by
  obtain ⟨-, sizeEq, modeEq, seedEq⟩ := isBuilt
  rw [virtualPersonId_of_rankedSize_zero (sizeEq.trans noneRanked) allowed,
    unrankedId, modeEq, fullPool, PopulationNodeImpl.virtualPersonId,
    VirtualPersonSelector.getVirtualPersonId,
    @VirtualPersonSelector.lookUp_singleton
      ⟨ranked.poolOffset, ranked.poolSize⟩ ranked.poolSize_ne_zero, seedEq]
  rfl

/-- A ranked node without ranked part in FULL_POOL mode does to an event what
the population node over the same pool with the same seed does. -/
theorem apply_eq_population {pool : VirtualPersonPool} {randomSeed : String}
    {index index' : Option UInt32} {plain : PopulationNodeImpl}
    (rankedBuilt : build (X := X) (.mk index (.rankedPopulationNode
      ⟨[pool], randomSeed, 0, .fullPool⟩)) = .ok ranked)
    (plainBuilt : PopulationNodeImpl.build (X := X) (.mk index'
      (.populationNode ⟨[pool], randomSeed⟩)) = .ok plain)
    (labeling : event.poolIdentityMode.getD false = false)
    (allowed : RanksAllow pool event) :
    ranked.apply event = plain.apply event := by
  obtain ⟨config, typeEq, isBuilt⟩ := build_ok rankedBuilt
  obtain rfl := NodeType.rankedPopulationNode.inj typeEq
  obtain ⟨-, selectorBuilt, seedEq⟩ := PopulationNodeImpl.build_ok plainBuilt
  obtain rfl := List.singleton_inj.mp isBuilt.1
  rw [VirtualPersonSelector.build_singleton ranked.poolSize_ne_zero]
    at selectorBuilt
  obtain ⟨selector, seed⟩ := plain
  obtain rfl : seed = randomSeed := seedEq
  obtain rfl := Except.ok.inj selectorBuilt
  have sameId := virtualPersonId_eq_population isBuilt rfl rfl allowed
  unfold apply PopulationNodeImpl.apply
  rw [Step.run_bind_of_ok _ (Step.run_get event),
    Step.run_bind_of_ok _ (Step.run_get event), labeling, sameId]
  rfl

/-- The leaves of a pool of 500 people. -/
theorem apply_eq_population_same_seed :
    ∃ ranked plain,
      build (X := .constant) (.mk none (.rankedPopulationNode
        ⟨[⟨100, 500⟩], "same-seed", 0, .fullPool⟩)) = .ok ranked ∧
      PopulationNodeImpl.build (X := .constant) (.mk none (.populationNode
        ⟨[⟨100, 500⟩], "same-seed"⟩)) = .ok plain ∧
      ranked.apply (X := .constant) Externals.constant.emptyEvent =
        plain.apply (X := .constant) Externals.constant.emptyEvent :=
  ⟨⟨"same-seed", 0, .fullPool, 100, 500, by decide, by decide, by decide⟩,
    ⟨⟨500, [⟨100, 0⟩]⟩, "same-seed"⟩, rfl, rfl,
    @apply_eq_population .constant _ _ ⟨100, 500⟩ "same-seed" none none _ rfl
      rfl rfl (.inl rfl)⟩

end RankedPopulationNodeImpl

end VirtualPeople.Cc
