import VirtualPeople.Cc.PopulationNode

/-!
# The people of a list of pools

The selector hashes the seed to a number and returns the person with that
number in the list of all people, pool by pool, as long as the 64-bit sums in
which it keeps the starts of the pools do not wrap around.
-/

namespace VirtualPeople

/-! ## The list of people -/

/-- The number of people in all the pools. -/
def exactPopulation (pools : List VirtualPersonPool) : ℕ :=
  (pools.map (·.totalPopulation.toNat)).sum

/-- The person of the pool with this number. -/
def VirtualPersonPool.person (pool : VirtualPersonPool) (number : ℕ) : UInt64 :=
  pool.populationOffset + UInt64.ofNat number

/-- The id of a person is the offset plus the number, modulo `2 ^ 64`. -/
theorem VirtualPersonPool.toNat_person (pool : VirtualPersonPool)
    (number : ℕ) :
    (pool.person number).toNat =
      (pool.populationOffset.toNat + number) % 2 ^ 64 := by
  rw [person, UInt64.toNat_add, UInt64.toNat_ofNat', Nat.add_mod_mod]

/-- The ids of all people in the order of their numbers. -/
def people (pools : List VirtualPersonPool) : List UInt64 :=
  pools.flatMap fun pool =>
    (List.range pool.totalPopulation.toNat).map pool.person

/-- The people of the first pool come first. -/
@[simp] theorem people_cons (pool : VirtualPersonPool)
    (pools : List VirtualPersonPool) :
    people (pool :: pools) =
      (List.range pool.totalPopulation.toNat).map pool.person ++ people pools :=
  List.flatMap_cons

/-- The people of two lists of pools are listed one after the other. -/
@[simp] theorem people_append (pools pools' : List VirtualPersonPool) :
    people (pools ++ pools') = people pools ++ people pools' :=
  List.flatMap_append

/-- There are as many people as the sizes of the pools add up to. -/
@[simp] theorem length_people (pools : List VirtualPersonPool) :
    (people pools).length = exactPopulation pools := by
  simp [people, exactPopulation, List.length_flatMap]

/-- Empty pools have no people. -/
@[simp] theorem people_nonEmptyPools (pools : List VirtualPersonPool) :
    people (Cc.nonEmptyPools pools) = people pools := by
  unfold Cc.nonEmptyPools
  induction pools with
  | nil => rfl
  | cons pool pools inductionHypothesis =>
    by_cases empty : pool.totalPopulation = 0
    · rw [List.filter_cons_of_neg (by simpa using empty), inductionHypothesis,
        people_cons, empty]
      rfl
    · rw [List.filter_cons_of_pos (by simpa using empty), people_cons,
        people_cons, inductionHypothesis]

/-- The people are the persons of the pools. -/
theorem mem_people {pools : List VirtualPersonPool} {id : UInt64} :
    id ∈ people pools ↔ ∃ pool ∈ pools,
      ∃ number < pool.totalPopulation.toNat,
        id = pool.populationOffset + UInt64.ofNat number := by
  simp [people, VirtualPersonPool.person, eq_comm]

/-- The first numbers are those of the first pool. -/
theorem getElem?_people_of_lt {pool : VirtualPersonPool} {number : ℕ}
    (pools : List VirtualPersonPool)
    (inPool : number < pool.totalPopulation.toNat) :
    (people (pool :: pools))[number]? = some (pool.person number) := by
  rw [people_cons, List.getElem?_append_left (by simpa using inPool)]
  simp [inPool]

/-- The numbers after the first pool are those of the other pools. -/
theorem getElem?_people_of_le {pool : VirtualPersonPool} {number : ℕ}
    (pools : List VirtualPersonPool)
    (past : pool.totalPopulation.toNat ≤ number) :
    (people (pool :: pools))[number]? =
      (people pools)[number - pool.totalPopulation.toNat]? := by
  rw [people_cons, List.getElem?_append_right (by simpa using past)]
  simp

/-! ## What the selector returns -/

namespace Cc

/-- Empty pools do not count. -/
@[simp] theorem exactPopulation_nonEmptyPools (pools : List VirtualPersonPool) :
    exactPopulation (nonEmptyPools pools) = exactPopulation pools := by
  unfold exactPopulation nonEmptyPools
  induction pools with
  | nil => rfl
  | cons pool pools inductionHypothesis =>
    by_cases empty : pool.totalPopulation = 0
    · rw [List.filter_cons_of_neg (by simpa using empty), inductionHypothesis,
        List.map_cons, List.sum_cons, empty, UInt64.toNat_zero, Nat.zero_add]
    · rw [List.filter_cons_of_pos (by simpa using empty), List.map_cons,
        List.map_cons, List.sum_cons, List.sum_cons, inductionHypothesis]

/-- Without wrapping around, the pools start in ascending order. -/
theorem CompiledFrom.starts_le {start total : UInt64}
    {pools : List VirtualPersonPool} {compiled : List VirtualPersonIdPool}
    (compiledFrom : CompiledFrom start pools compiled total)
    (noWrap : start.toNat + exactPopulation pools < 2 ^ 64) :
    (∀ idPool ∈ compiled, start ≤ idPool.populationIndexOffset) ∧
      compiled.Pairwise fun first second =>
        first.populationIndexOffset ≤ second.populationIndexOffset := by
  induction compiledFrom with
  | nil => exact ⟨nofun, .nil⟩
  | @cons start total pools compiled pool rest inductionHypothesis =>
    rw [exactPopulation, List.map_cons, List.sum_cons, ← Nat.add_assoc]
      at noWrap
    have nextStart : (start + pool.totalPopulation).toNat =
        start.toNat + pool.totalPopulation.toNat := by
      rw [UInt64.toNat_add, Nat.mod_eq_of_lt (by omega)]
    obtain ⟨above, sorted⟩ :=
      inductionHypothesis (by rw [nextStart]; exact noWrap)
    have startLe : start ≤ start + pool.totalPopulation := by
      rw [UInt64.le_iff_toNat_le, nextStart]
      omega
    have restAbove : ∀ idPool ∈ compiled,
        start ≤ idPool.populationIndexOffset :=
      fun idPool member => UInt64.le_trans startLe (above idPool member)
    exact ⟨List.forall_mem_cons.mpr ⟨UInt64.le_refl start, restAbove⟩,
      List.pairwise_cons.mpr ⟨restAbove, sorted⟩⟩


/-- The people of the first pool and of the others add up. -/
@[simp] theorem exactPopulation_cons (pool : VirtualPersonPool)
    (pools : List VirtualPersonPool) :
    exactPopulation (pool :: pools) =
      pool.totalPopulation.toNat + exactPopulation pools := by
  rw [exactPopulation, List.map_cons, List.sum_cons]
  rfl

/-- The next pool starts where the sum says, if the sum does not wrap around. -/
theorem toNat_start_add {start size : UInt64} {rest : ℕ}
    (noWrap : start.toNat + (size.toNat + rest) < 2 ^ 64) :
    (start + size).toNat = start.toNat + size.toNat := by
  rw [UInt64.toNat_add, Nat.mod_eq_of_lt (by omega)]

/-- The pool that starts last at or below the number has the person. -/
theorem CompiledFrom.person {start total : UInt64}
    {pools : List VirtualPersonPool} {compiled : List VirtualPersonIdPool}
    (compiledFrom : CompiledFrom start pools compiled total)
    (noWrap : start.toNat + exactPopulation pools < 2 ^ 64)
    {populationIndex : UInt64} {number position : ℕ}
    (indexEq : populationIndex.toNat = start.toNat + number)
    (below : number < exactPopulation pools) {idPool : VirtualPersonIdPool}
    (found : compiled[position]? = some idPool)
    (startLe : idPool.populationIndexOffset ≤ populationIndex)
    (nextAbove : ∀ next, compiled[position + 1]? = some next →
      populationIndex < next.populationIndexOffset) :
    (people pools)[number]? = some (populationIndex -
      idPool.populationIndexOffset + idPool.virtualPeopleIdOffset) := by
  induction compiledFrom generalizing number position with
  | nil => simp at found
  | @cons start total pools compiled pool rest inductionHypothesis =>
    rw [exactPopulation_cons] at noWrap below
    have nextStart := toNat_start_add noWrap
    cases position with
    | zero =>
      rw [List.getElem?_cons_zero, Option.some_inj] at found
      subst found
      have inPool : number < pool.totalPopulation.toNat := by
        cases rest with
        | nil => exact below
        | cons nextPool rest =>
          have above := nextAbove _ rfl
          rw [UInt64.lt_iff_toNat_lt] at above
          simp only [nextStart] at above
          omega
      rw [getElem?_people_of_lt pools inPool, VirtualPersonPool.person,
        UInt64.add_comm]
      congr 2
      rw [← UInt64.toNat_inj, UInt64.toNat_sub_of_le _ _ startLe]
      simp only [UInt64.toNat_ofNat', indexEq]
      omega
    | succ position =>
      rw [List.getElem?_cons_succ] at found
      have starts := (rest.starts_le (by rw [nextStart]; omega)).1 idPool
        (List.mem_of_getElem? found)
      have past := UInt64.le_iff_toNat_le.mp (UInt64.le_trans starts startLe)
      rw [getElem?_people_of_le pools (by omega)]
      exact inductionHypothesis (by rw [nextStart]; omega) (by omega)
        (by omega) found nextAbove

/-- The 64-bit sum of the sizes is exact if it does not wrap around. -/
theorem toNat_foldl_totalPopulation (pools : List VirtualPersonPool)
    (sum : UInt64) (noWrap : sum.toNat + exactPopulation pools < 2 ^ 64) :
    (pools.foldl (fun sum pool => sum + pool.totalPopulation) sum).toNat =
      sum.toNat + exactPopulation pools := by
  induction pools generalizing sum with
  | nil => rfl
  | cons pool pools inductionHypothesis =>
    rw [exactPopulation_cons] at noWrap ⊢
    have next := toNat_start_add noWrap
    rw [List.foldl_cons, inductionHypothesis _ (by omega), next, Nat.add_assoc]

/-- The 64-bit population is exact if it does not wrap around. -/
theorem toNat_populationSum {pools : List VirtualPersonPool}
    (noWrap : exactPopulation pools < 2 ^ 64) :
    (populationSum pools).toNat = exactPopulation pools := by
  rw [populationSum, toNat_foldl_totalPopulation pools 0 (by simpa using noWrap)]
  simp

namespace VirtualPersonSelector

variable {pools : List VirtualPersonPool} {selector : VirtualPersonSelector}

/-- Pools with people are compiled. -/
theorem exists_build (positive : 0 < exactPopulation pools)
    (noWrap : exactPopulation pools < 2 ^ 64) :
    ∃ selector, build pools = .ok selector := by
  have total := totalPopulation_foldl_compilePool pools ⟨0, []⟩
  change _ = populationSum pools at total
  have nonzero : populationSum pools ≠ 0 := by
    intro zero
    have sumEq := toNat_populationSum noWrap
    rw [zero, UInt64.toNat_zero] at sumEq
    omega
  refine ⟨pools.foldl compilePool ⟨0, []⟩, ?_⟩
  unfold build
  rw [if_neg (by rwa [total])]
  rfl

/-- Empty pools leave no trace in the selector. -/
theorem foldl_compilePool_nonEmptyPools (pools : List VirtualPersonPool)
    (selector : VirtualPersonSelector) :
    (nonEmptyPools pools).foldl compilePool selector =
      pools.foldl compilePool selector := by
  unfold nonEmptyPools
  induction pools generalizing selector with
  | nil => rfl
  | cons pool pools inductionHypothesis =>
    by_cases empty : pool.totalPopulation = 0
    · rw [List.filter_cons_of_neg (by simpa using empty), List.foldl_cons,
        inductionHypothesis, compilePool, if_pos empty]
    · rw [List.filter_cons_of_pos (by simpa using empty), List.foldl_cons,
        List.foldl_cons, inductionHypothesis]

/-- Lists with the same non-empty pools are compiled alike. -/
theorem foldl_compilePool_congr {pools' : List VirtualPersonPool}
    (same : nonEmptyPools pools' = nonEmptyPools pools) :
    pools'.foldl compilePool ⟨0, []⟩ = pools.foldl compilePool ⟨0, []⟩ := by
  rw [← foldl_compilePool_nonEmptyPools pools', same,
    foldl_compilePool_nonEmptyPools]

/-- Lists with the same non-empty pools are built alike. -/
theorem build_congr {pools' : List VirtualPersonPool}
    (same : nonEmptyPools pools' = nonEmptyPools pools) :
    build pools' = build pools := by
  unfold build
  rw [foldl_compilePool_congr same]

/-- While the narrowed count is positive, the person with the hashed number is
returned. -/
theorem getVirtualPersonId_person (built : build pools = .ok selector)
    (noWrap : exactPopulation pools < 2 ^ 64)
    (fits : 0 < (toInt32 selector.totalPopulation).toInt)
    (randomSeed : UInt64) :
    ∃ id, selector.getVirtualPersonId randomSeed = .ok id ∧
      (people pools)[(jumpConsistentHash randomSeed
        (toInt32 selector.totalPopulation)).toInt.toNat]? = some id := by
  obtain ⟨compiledFrom, -⟩ := build_ok built
  have totalEq : selector.totalPopulation.toNat = exactPopulation pools := by
    rw [totalPopulation_eq built, toNat_populationSum noWrap]
  obtain ⟨nonneg, -⟩ := jumpConsistentHash_mem randomSeed fits
  have indexEq : (selector.populationIndex randomSeed).toNat =
      (jumpConsistentHash randomSeed
        (toInt32 selector.totalPopulation)).toInt.toNat :=
    toNat_signExtend nonneg
  have below := UInt64.lt_iff_toNat_lt.mp (populationIndex_lt fits randomSeed).2
  obtain ⟨position, idPool, found, idEq, startLe, nextAbove⟩ :=
    lookUp_eq built (selector.populationIndex randomSeed)
  refine ⟨_, idEq, ?_⟩
  rw [← people_nonEmptyPools]
  have sameSize := exactPopulation_nonEmptyPools pools
  exact compiledFrom.person (by simp only [UInt64.toNat_zero]; omega)
    (by simpa using indexEq) (by omega) found startLe nextAbove

/-- With less than `2 ^ 31` people the narrowed count is the exact one. -/
theorem getVirtualPersonId_eq_person (built : build pools = .ok selector)
    (small : exactPopulation pools < 2 ^ 31) (randomSeed : UInt64) :
    (toInt32 selector.totalPopulation).toInt = exactPopulation pools ∧
      ∃ id, selector.getVirtualPersonId randomSeed = .ok id ∧
        (people pools)[(jumpConsistentHash randomSeed
          (toInt32 selector.totalPopulation)).toInt.toNat]? = some id := by
  obtain ⟨-, totalNonzero⟩ := build_ok built
  have totalEq : selector.totalPopulation.toNat = exactPopulation pools := by
    rw [totalPopulation_eq built, toNat_populationSum (by omega)]
  have countEq := toInt_toInt32_of_lt (totalEq.trans_lt small)
  rw [totalEq] at countEq
  have positive : 0 < exactPopulation pools := by
    rw [← totalEq]
    exact Nat.pos_of_ne_zero fun zero => totalNonzero (UInt64.toNat_inj.mp zero)
  exact ⟨countEq, getVirtualPersonId_person built (by omega) (by omega)
    randomSeed⟩

end VirtualPersonSelector

end Cc

end VirtualPeople
