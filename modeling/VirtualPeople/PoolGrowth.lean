import VirtualPeople.Kotlin.LeafAgreement

/-!
# Adding pools

The selector hashes the seed to a number and returns the person with that
number in the list of all people, pool by pool.  More pools make the list
longer, and jump hashing keeps the number or moves it to the new part.
-/

namespace VirtualPeople

namespace Kotlin.VirtualPeopleSelector

variable {pools : List VirtualPersonPool}

theorem build_ofCc {selector : Cc.VirtualPersonSelector}
    (built : Cc.VirtualPersonSelector.build pools = .ok selector) :
    build pools = .ok (ofCc selector) := by
  have lockstep := build_lockstep pools
  rw [built] at lockstep
  obtain ⟨selector', builtEq, rfl⟩ := lockstep.ok_of_ok rfl
  exact builtEq

theorem build_congr {pools' : List VirtualPersonPool}
    (same : Cc.nonEmptyPools pools' = Cc.nonEmptyPools pools) :
    build pools' = build pools := by
  have compiled := Cc.VirtualPersonSelector.foldl_compilePool_congr same
  have fold := foldl_compilePool_ofCc pools ⟨0, []⟩
  rw [← compiled, ← foldl_compilePool_ofCc] at fold
  unfold build
  rw [show (⟨0, []⟩ : VirtualPeopleSelector) = ofCc ⟨0, []⟩ from rfl, fold]

end Kotlin.VirtualPeopleSelector

/-! ## More pools -/

@[simp] theorem exactPopulation_append (pools pools' : List VirtualPersonPool) :
    exactPopulation (pools ++ pools') =
      exactPopulation pools + exactPopulation pools' := by
  unfold exactPopulation
  rw [List.map_append, List.sum_append]

/-- The id of a longer list of pools is the id of the shorter list, or that of
a person in the pools that are added. -/
theorem Cc.VirtualPersonSelector.getVirtualPersonId_append
    {pools added : List VirtualPersonPool}
    {selector grown : VirtualPersonSelector}
    (built : build pools = .ok selector)
    (grownBuilt : build (pools ++ added) = .ok grown)
    (small : exactPopulation (pools ++ added) < 2 ^ 31) (randomSeed : UInt64) :
    ∃ id id', selector.getVirtualPersonId randomSeed = .ok id ∧
      grown.getVirtualPersonId randomSeed = .ok id' ∧
      (id' = id ∨ id' ∈ people added) := by
  have sum := exactPopulation_append pools added
  obtain ⟨countEq, id, idEq, person⟩ :=
    getVirtualPersonId_eq_person built (by omega) randomSeed
  obtain ⟨countEq', id', idEq', person'⟩ :=
    getVirtualPersonId_eq_person grownBuilt small randomSeed
  refine ⟨id, id', idEq, idEq', ?_⟩
  rw [people_append] at person'
  have countLe : (toInt32 selector.totalPopulation).toInt ≤
      (toInt32 grown.totalPopulation).toInt := by omega
  rcases jumpConsistentHash_of_le randomSeed countLe with same | later
  · left
    rw [same] at person'
    have inside := (List.getElem?_eq_some_iff.mp person).1
    rw [List.getElem?_append_left inside, person] at person'
    exact (Option.some.inj person').symm
  · right
    rw [List.getElem?_append_right (by rw [length_people]; omega)] at person'
    exact List.mem_of_getElem? person'

/-- With more pools both languages find the same id as before, or one in a pool
that was added, and empty pools do not matter. -/
theorem growing_pools {pools added : List VirtualPersonPool}
    (positive : 0 < exactPopulation pools)
    (small : exactPopulation (pools ++ added) ≤ 2 ^ 31 - 1) :
    (∃ selector grown selector' grown',
      Cc.VirtualPersonSelector.build pools = .ok selector ∧
      Cc.VirtualPersonSelector.build (pools ++ added) = .ok grown ∧
      Kotlin.VirtualPeopleSelector.build pools = .ok selector' ∧
      Kotlin.VirtualPeopleSelector.build (pools ++ added) = .ok grown' ∧
      ∀ randomSeed, ∃ id id',
        selector.getVirtualPersonId randomSeed = .ok id ∧
        grown.getVirtualPersonId randomSeed = .ok id' ∧
        selector'.getVirtualPersonId randomSeed = .ok id ∧
        grown'.getVirtualPersonId randomSeed = .ok id' ∧
        (id' = id ∨ ∃ pool ∈ added, ∃ number < pool.totalPopulation.toNat,
          id' = pool.populationOffset + UInt64.ofNat number)) ∧
    ∀ pools' added', Cc.nonEmptyPools pools' = Cc.nonEmptyPools pools →
      Cc.nonEmptyPools added' = Cc.nonEmptyPools added →
        Cc.VirtualPersonSelector.build pools' =
            Cc.VirtualPersonSelector.build pools ∧
          Cc.VirtualPersonSelector.build (pools' ++ added') =
            Cc.VirtualPersonSelector.build (pools ++ added) ∧
          Kotlin.VirtualPeopleSelector.build pools' =
            Kotlin.VirtualPeopleSelector.build pools ∧
          Kotlin.VirtualPeopleSelector.build (pools' ++ added') =
            Kotlin.VirtualPeopleSelector.build (pools ++ added) := by
  have sum := exactPopulation_append pools added
  constructor
  · obtain ⟨selector, built⟩ :=
      Cc.VirtualPersonSelector.exists_build positive (by omega)
    have grownPositive : 0 < exactPopulation (pools ++ added) := by omega
    obtain ⟨grown, grownBuilt⟩ :=
      Cc.VirtualPersonSelector.exists_build grownPositive (by omega)
    refine ⟨selector, grown, .ofCc selector, .ofCc grown, built, grownBuilt,
      Kotlin.VirtualPeopleSelector.build_ofCc built,
      Kotlin.VirtualPeopleSelector.build_ofCc grownBuilt, fun randomSeed => ?_⟩
    obtain ⟨id, id', idEq, idEq', sameOrAdded⟩ :=
      Cc.VirtualPersonSelector.getVirtualPersonId_append built grownBuilt
        (by omega) randomSeed
    refine ⟨id, id', idEq, idEq', ?_, ?_, sameOrAdded.imp_right mem_people.mp⟩
    · rwa [Kotlin.VirtualPeopleSelector.getVirtualPersonId_eq built (by omega)]
    · rwa [Kotlin.VirtualPeopleSelector.getVirtualPersonId_eq grownBuilt
        (by omega)]
  · intro pools' added' same sameAdded
    have sameAll : Cc.nonEmptyPools (pools' ++ added') =
        Cc.nonEmptyPools (pools ++ added) := by
      rw [Cc.nonEmptyPools, List.filter_append]
      exact (congrArg₂ (· ++ ·) same sameAdded).trans
        (List.filter_append ..).symm
    exact ⟨Cc.VirtualPersonSelector.build_congr same,
      Cc.VirtualPersonSelector.build_congr sameAll,
      Kotlin.VirtualPeopleSelector.build_congr same,
      Kotlin.VirtualPeopleSelector.build_congr sameAll⟩

theorem growing_pools_twice :
    ∃ selector grown,
      Cc.VirtualPersonSelector.build [⟨100, 10⟩, ⟨200, 0⟩] = .ok selector ∧
      Cc.VirtualPersonSelector.build [⟨100, 10⟩, ⟨200, 0⟩, ⟨300, 5⟩] =
        .ok grown ∧
      ∃ id id', selector.getVirtualPersonId 7 = .ok id ∧
        grown.getVirtualPersonId 7 = .ok id' ∧
        (id' = id ∨ ∃ number < 5, id' = 300 + UInt64.ofNat number) := by
  obtain ⟨⟨selector, grown, _, _, built, grownBuilt, -, -, ids⟩, -⟩ :=
    @growing_pools [⟨100, 10⟩, ⟨200, 0⟩] [⟨300, 5⟩] (by decide) (by decide)
  obtain ⟨id, id', idEq, idEq', -, -, sameOrAdded⟩ := ids 7
  exact ⟨selector, grown, built, grownBuilt, id, id', idEq, idEq',
    sameOrAdded.imp_right (by simp)⟩

end VirtualPeople
