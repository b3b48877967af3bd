import VirtualPeople.Cc.ConsistentHash
import VirtualPeople.Cc.PopulationNodeHelper

/-!
# Population nodes

A population node picks an id from a list of pools.  The selector numbers the
people of its non-empty pools consecutively, hashes the seed to one of the
numbers, and looks the pool up by binary search.  The count is narrowed to 32
bits on the way, and what the selector returns depends on what that leaves.
-/

namespace VirtualPeople

namespace Cc

/-! ## Binary search -/

/-- `std::upper_bound` on positions: the halving search for the first position
of `[first, first + len)` that is above the value. -/
def upperBound (above : ℕ → Bool) (first len : ℕ) : ℕ :=
  if len = 0 then first
  else
    let half := len / 2
    let middle := first + half
    if above middle then upperBound above first half
    else upperBound above (middle + 1) (len - half - 1)
  termination_by len

/-- Sorted or not, the search ends between a position that is not above the
value and one that is, the ends of the range counting as such. -/
theorem upperBound_spec (above : ℕ → Bool) (first len : ℕ) :
    first ≤ upperBound above first len ∧
      upperBound above first len ≤ first + len ∧
      (first < upperBound above first len →
        above (upperBound above first len - 1) = false) ∧
      (upperBound above first len < first + len →
        above (upperBound above first len) = true) := by
  fun_induction upperBound above first len with
  | case1 first => simp
  | case2 first len nonempty half middle isAbove inductionHypothesis =>
    obtain ⟨lower, upper, before, after⟩ := inductionHypothesis
    refine ⟨lower, by omega, before, fun inside => ?_⟩
    rcases Nat.lt_or_eq_of_le upper with less | equal
    · exact after less
    · rw [equal]
      exact isAbove
  | case3 first len nonempty half middle notAbove inductionHypothesis =>
    obtain ⟨lower, upper, before, after⟩ := inductionHypothesis
    refine ⟨by omega, by omega, fun _ => ?_, fun inside => after (by omega)⟩
    rcases Nat.lt_or_eq_of_le lower with less | equal
    · exact before less
    · rw [← equal]
      simpa using notAbove

/-! ## The selector -/

/-- A pool, with its offset and the number of its first person. -/
structure VirtualPersonIdPool where
  virtualPeopleIdOffset : UInt64
  populationIndexOffset : UInt64

/-- The compiled pools, in the order of the numbers of their people. -/
structure VirtualPersonSelector where
  totalPopulation : UInt64
  pools : List VirtualPersonIdPool

namespace VirtualPersonSelector

/-- One round of the loop over the pools. -/
def compilePool (compiled : VirtualPersonSelector) (pool : VirtualPersonPool) :
    VirtualPersonSelector :=
  if pool.totalPopulation = 0 then compiled
  else
    { totalPopulation := compiled.totalPopulation + pool.totalPopulation
      pools := compiled.pools ++
        [⟨pool.populationOffset, compiled.totalPopulation⟩] }

/-- `VirtualPersonSelector::Build`. -/
def build (pools : List VirtualPersonPool) : Result VirtualPersonSelector :=
  let compiled := pools.foldl compilePool ⟨0, []⟩
  if compiled.totalPopulation = 0 then
    throw (invalidArgument
      "The total population of the pools is 0. The model is invalid.")
  else return compiled

/-- The number of the person that the seed is hashed to. -/
def populationIndex (selector : VirtualPersonSelector)
    (randomSeed : UInt64) : UInt64 :=
  signExtend
    (jumpConsistentHash randomSeed (toInt32 selector.totalPopulation))

/-- The comparison of the search: the pool starts above the number. -/
def startsAbove (selector : VirtualPersonSelector) (populationIndex : UInt64)
    (position : ℕ) : Bool :=
  match selector.pools[position]? with
  | some pool => populationIndex < pool.populationIndexOffset
  | none => false

/-- The id of the person with the number. -/
def lookUp (selector : VirtualPersonSelector) (populationIndex : UInt64) :
    Result UInt64 := do
  let position := upperBound (selector.startsAbove populationIndex) 0
    selector.pools.length
  let pool ← elementAt selector.pools ((position : ℤ) - 1)
  return populationIndex - pool.populationIndexOffset +
    pool.virtualPeopleIdOffset

/-- `GetVirtualPersonId`: the person with the hashed number. -/
def getVirtualPersonId (selector : VirtualPersonSelector)
    (randomSeed : UInt64) : Result UInt64 :=
  selector.lookUp (selector.populationIndex randomSeed)

end VirtualPersonSelector

/-! ## The node -/

/-- 10^18 -/
def kCookieMonsterOffset : UInt64 :=
  1000000000000000000

/-- 10^14 -/
def kCookieMonsterSize : UInt64 :=
  100000000000000

/-- `IsCookieMonsterPool`: the one pool that may use the reserved ids. -/
def isCookieMonsterPool (pools : List VirtualPersonPool) : Bool :=
  match pools with
  | [pool] =>
    pool.populationOffset == kCookieMonsterOffset &&
      pool.totalPopulation == kCookieMonsterSize
  | _ => false

/-- The first pool outside of the allowed range fails the check. -/
def isValidPools (pools : List VirtualPersonPool) : Result Unit :=
  if isCookieMonsterPool pools then return
  else
    pools.forM fun pool =>
      if kCookieMonsterOffset < pool.populationOffset + pool.totalPopulation
      then throw (invalidArgument
        ("The virtual person pool contains ID range >= CookieMonsterOffset: " ++
          toString kCookieMonsterOffset))
      else pure ()

/-- A built population node. -/
structure PopulationNodeImpl where
  virtualPersonSelector : VirtualPersonSelector
  randomSeed : String

namespace PopulationNodeImpl

/-- The node of a configuration whose pools are valid. -/
def buildFromConfig (config : PopulationNode) :
    Result PopulationNodeImpl := do
  isValidPools config.pools
  let virtualPersonSelector ← VirtualPersonSelector.build config.pools
  return ⟨virtualPersonSelector, config.randomSeed⟩

/-- `PopulationNodeImpl::Build`. -/
def build {X : Externals} (nodeConfig : CompiledNode X) :
    Result PopulationNodeImpl :=
  match nodeConfig.type with
  | .populationNode config => buildFromConfig config
  | _ => throw (invalidArgument "This is not a population node.")

variable {X : Externals} (node : PopulationNodeImpl)

/-- The id a full labeling run gives to the event. -/
def virtualPersonId (event : X.Event) : Result UInt64 :=
  node.virtualPersonSelector.getVirtualPersonId
    (X.fingerprint
      (node.randomSeed ++ toString (event.actingFingerprint.getD 0)))

/-- `PopulationNodeImpl::Apply`. -/
def apply : Step X.Event Unit := do
  let event ← get
  if event.poolIdentityMode.getD false then return
  else if 0 < event.virtualPersonActivities.length then
    throw (invalidArgument
      "virtual_person_activities should only be created in leaf nodes.")
  else createActivity X (node.virtualPersonId event)

end PopulationNodeImpl

/-! ## What the selector holds -/

/-- The compiled form of consecutive non-empty pools, numbered from `start`;
sums are taken in 64 bits. -/
inductive CompiledFrom : UInt64 → List VirtualPersonPool →
    List VirtualPersonIdPool → UInt64 → Prop
  | nil (total : UInt64) : CompiledFrom total [] [] total
  | cons {start total : UInt64} {pools : List VirtualPersonPool}
      {compiled : List VirtualPersonIdPool} (pool : VirtualPersonPool)
      (rest : CompiledFrom (start + pool.totalPopulation) pools compiled
        total) :
      CompiledFrom start (pool :: pools)
        (⟨pool.populationOffset, start⟩ :: compiled) total

/-- The pools that are not empty. -/
def nonEmptyPools (pools : List VirtualPersonPool) : List VirtualPersonPool :=
  pools.filter (·.totalPopulation ≠ 0)

/-- The loop compiles the non-empty pools after those it has. -/
theorem foldl_compilePool (pools : List VirtualPersonPool)
    (selector : VirtualPersonSelector) :
    ∃ compiled, CompiledFrom selector.totalPopulation (nonEmptyPools pools)
        compiled (pools.foldl VirtualPersonSelector.compilePool
          selector).totalPopulation ∧
      (pools.foldl VirtualPersonSelector.compilePool selector).pools =
        selector.pools ++ compiled := by
  induction pools generalizing selector with
  | nil => exact ⟨[], .nil _, by simp⟩
  | cons pool pools inductionHypothesis =>
    rw [List.foldl_cons]
    obtain ⟨compiled, compiledFrom, poolsEq⟩ := inductionHypothesis
      (selector.compilePool pool)
    unfold nonEmptyPools at compiledFrom ⊢
    by_cases empty : pool.totalPopulation = 0
    · have same : selector.compilePool pool = selector := by
        simp [VirtualPersonSelector.compilePool, empty]
      rw [same] at compiledFrom poolsEq ⊢
      rw [List.filter_cons_of_neg (by simpa using empty)]
      exact ⟨compiled, compiledFrom, poolsEq⟩
    · have grown : selector.compilePool pool =
          ⟨selector.totalPopulation + pool.totalPopulation, selector.pools ++
            [⟨pool.populationOffset, selector.totalPopulation⟩]⟩ := by
        simp [VirtualPersonSelector.compilePool, empty]
      rw [grown] at compiledFrom poolsEq ⊢
      rw [List.filter_cons_of_pos (by simpa using empty)]
      exact ⟨_, .cons pool compiledFrom, by rw [poolsEq]; simp⟩

/-- A built selector has compiled the non-empty pools, and has people. -/
theorem VirtualPersonSelector.build_ok {pools : List VirtualPersonPool}
    {selector : VirtualPersonSelector} (built : build pools = .ok selector) :
    CompiledFrom 0 (nonEmptyPools pools) selector.pools
        selector.totalPopulation ∧
      selector.totalPopulation ≠ 0 := by
  unfold build at built
  simp only at built
  split_ifs at built with zero
  obtain ⟨compiled, compiledFrom, poolsEq⟩ := foldl_compilePool pools ⟨0, []⟩
  rw [Except.ok.inj built] at compiledFrom poolsEq zero
  rw [List.nil_append] at poolsEq
  rw [poolsEq]
  exact ⟨compiledFrom, zero⟩

/-- As many pools are compiled as there are. -/
theorem CompiledFrom.length_eq {start total : UInt64}
    {pools : List VirtualPersonPool} {compiled : List VirtualPersonIdPool}
    (compiledFrom : CompiledFrom start pools compiled total) :
    compiled.length = pools.length := by
  induction compiledFrom with
  | nil => rfl
  | cons pool rest inductionHypothesis => simp [inductionHypothesis]

/-- Each compiled pool starts where the sum before it ends. -/
theorem CompiledFrom.get {start total : UInt64}
    {pools : List VirtualPersonPool} {compiled : List VirtualPersonIdPool}
    (compiledFrom : CompiledFrom start pools compiled total) {position : ℕ}
    {idPool : VirtualPersonIdPool}
    (found : compiled[position]? = some idPool) :
    ∃ pool, pools[position]? = some pool ∧
      idPool.virtualPeopleIdOffset = pool.populationOffset ∧
      idPool.populationIndexOffset + pool.totalPopulation =
        (compiled[position + 1]?.map (·.populationIndexOffset)).getD total := by
  induction compiledFrom generalizing position with
  | nil => simp at found
  | cons pool rest inductionHypothesis =>
    cases position with
    | zero =>
      rw [List.getElem?_cons_zero, Option.some_inj] at found
      subst found
      refine ⟨pool, rfl, rfl, ?_⟩
      cases rest with
      | nil => rfl
      | cons next rest => rfl
    | succ position =>
      rw [List.getElem?_cons_succ] at found
      obtain ⟨pool', poolEq, offsetEq, sumEq⟩ := inductionHypothesis found
      exact ⟨pool', poolEq, offsetEq, sumEq⟩

/-- The first compiled pool starts at the start. -/
theorem CompiledFrom.head {start total : UInt64}
    {pools : List VirtualPersonPool} {compiled : List VirtualPersonIdPool}
    (compiledFrom : CompiledFrom start pools compiled total)
    {idPool : VirtualPersonIdPool} (found : compiled[0]? = some idPool) :
    idPool.populationIndexOffset = start := by
  cases compiledFrom with
  | nil => simp at found
  | cons pool rest =>
    rw [List.getElem?_cons_zero, Option.some_inj] at found
    rw [← found]

/-- A selector that holds a pool is never empty. -/
theorem CompiledFrom.pools_ne_nil {total : UInt64}
    {pools : List VirtualPersonPool} {compiled : List VirtualPersonIdPool}
    (compiledFrom : CompiledFrom 0 pools compiled total)
    (totalNonzero : total ≠ 0) : compiled ≠ [] := by
  rintro rfl
  cases compiledFrom
  exact totalNonzero rfl

theorem elementAt_sub_one {α : Type} {elements : List α} {position : ℕ}
    {element : α} (found : elements[position]? = some element) :
    elementAt elements (((position + 1 : ℕ) : ℤ) - 1) = .ok element := by
  unfold elementAt
  rw [if_neg (by omega)]
  have : (((position + 1 : ℕ) : ℤ) - 1).toNat = position := by omega
  rw [this, found]
  rfl

/-! ## What the selector returns -/

end Cc

/-- The pool holds the id: it is one of the `total_population` numbers counted
from the offset in 64 bits. -/
def VirtualPersonPool.Contains (pool : VirtualPersonPool) (id : UInt64) :
    Prop :=
  id - pool.populationOffset < pool.totalPopulation

/-- The id is in the interval of the pool, which ends with the 64-bit range at
the latest. -/
def VirtualPersonPool.Covers (pool : VirtualPersonPool) (id : UInt64) : Prop :=
  pool.populationOffset.toNat ≤ id.toNat ∧
    id.toNat < pool.populationOffset.toNat + pool.totalPopulation.toNat

instance (pool : VirtualPersonPool) (id : UInt64) :
    Decidable (pool.Covers id) :=
  inferInstanceAs (Decidable (_ ∧ _))

/-- A pool that does not run past the end of the 64-bit range holds the ids of
its interval. -/
theorem VirtualPersonPool.contains_iff {pool : VirtualPersonPool}
    (noWrap : pool.populationOffset.toNat + pool.totalPopulation.toNat ≤
      2 ^ 64) (id : UInt64) : pool.Contains id ↔ pool.Covers id := by
  have := id.toNat_lt
  unfold Contains Covers
  rw [UInt64.lt_iff_toNat_lt, UInt64.toNat_sub]
  omega

namespace Cc

namespace VirtualPersonSelector

variable {pools : List VirtualPersonPool} {selector : VirtualPersonSelector}

/-- The search never leaves the pools: it finds one that starts at or below
the number, and whose successor starts above it. -/
theorem lookUp_eq (built : build pools = .ok selector)
    (populationIndex : UInt64) :
    ∃ position idPool, selector.pools[position]? = some idPool ∧
      selector.lookUp populationIndex =
        .ok (populationIndex - idPool.populationIndexOffset +
          idPool.virtualPeopleIdOffset) ∧
      idPool.populationIndexOffset ≤ populationIndex ∧
      ∀ next, selector.pools[position + 1]? = some next →
        populationIndex < next.populationIndexOffset := by
  obtain ⟨compiledFrom, totalNonzero⟩ := build_ok built
  have nonempty := compiledFrom.pools_ne_nil totalNonzero
  have lengthPos := List.length_pos_of_ne_nil nonempty
  have aboveAt {position : ℕ} {idPool : VirtualPersonIdPool}
      (found : selector.pools[position]? = some idPool) :
      selector.startsAbove populationIndex position =
        decide (populationIndex < idPool.populationIndexOffset) := by
    rw [startsAbove, found]
  obtain ⟨-, upper, before, after⟩ := upperBound_spec
    (selector.startsAbove populationIndex) 0 selector.pools.length
  obtain ⟨bound, boundEq⟩ : ∃ bound, upperBound
      (selector.startsAbove populationIndex) 0 selector.pools.length =
        bound := ⟨_, rfl⟩
  rw [boundEq] at upper before after
  -- The first pool starts at zero, so the bound is past it.
  have boundPos : 0 < bound := by
    rcases Nat.eq_zero_or_pos bound with zero | positive
    · have firstFound := List.getElem?_eq_getElem lengthPos
      have isAbove := after (by omega)
      rw [zero, aboveAt firstFound, compiledFrom.head firstFound] at isAbove
      simp at isAbove
    · exact positive
  obtain ⟨position, rfl⟩ : ∃ position, bound = position + 1 :=
    ⟨bound - 1, by omega⟩
  have inside : position < selector.pools.length := by omega
  have found := List.getElem?_eq_getElem inside
  refine ⟨position, selector.pools[position], found, ?_, ?_, ?_⟩
  · simp only [lookUp, boundEq, elementAt_sub_one found]
    rfl
  · have notAbove := before (by omega)
    rw [Nat.add_sub_cancel, aboveAt found] at notAbove
    exact UInt64.not_lt.mp (by simpa using notAbove)
  · intro next nextFound
    have nextInside := (List.getElem?_eq_some_iff.mp nextFound).1
    have isAbove := after (by omega)
    rw [aboveAt nextFound] at isAbove
    simpa using isAbove

/-- The pool found for a number below the total has a person with it. -/
theorem lookUp_found (built : build pools = .ok selector)
    {populationIndex : UInt64}
    (indexLt : populationIndex < selector.totalPopulation) :
    ∃ (position : ℕ) (idPool : VirtualPersonIdPool)
        (pool : VirtualPersonPool),
      selector.pools[position]? = some idPool ∧
      (nonEmptyPools pools)[position]? = some pool ∧
      selector.lookUp populationIndex =
        .ok (populationIndex - idPool.populationIndexOffset +
          pool.populationOffset) ∧
      idPool.populationIndexOffset ≤ populationIndex ∧
      populationIndex.toNat - idPool.populationIndexOffset.toNat <
        pool.totalPopulation.toNat := by
  obtain ⟨position, idPool, found, idEq, startLe, next⟩ :=
    lookUp_eq built populationIndex
  obtain ⟨compiledFrom, -⟩ := build_ok built
  obtain ⟨pool, poolFound, offsetEq, sumEq⟩ := compiledFrom.get found
  rw [offsetEq] at idEq
  refine ⟨position, idPool, pool, found, poolFound, idEq, startLe, ?_⟩
  have endAbove : populationIndex.toNat <
      (idPool.populationIndexOffset + pool.totalPopulation).toNat := by
    rw [sumEq]
    cases nextFound : selector.pools[position + 1]? with
    | none => simpa using UInt64.lt_iff_toNat_lt.mp indexLt
    | some nextPool =>
      simpa using UInt64.lt_iff_toNat_lt.mp (next nextPool nextFound)
  -- A sum that wrapped would end below its start.
  have startLe' := UInt64.le_iff_toNat_le.mp startLe
  have sizeLt := pool.totalPopulation.toNat_lt
  have startLt := idPool.populationIndexOffset.toNat_lt
  rw [UInt64.toNat_add] at endAbove
  omega

/-- That pool holds the id of the number. -/
theorem lookUp_contained (built : build pools = .ok selector)
    {populationIndex : UInt64}
    (indexLt : populationIndex < selector.totalPopulation) :
    ∃ id, selector.lookUp populationIndex = .ok id ∧
      ∃ pool ∈ nonEmptyPools pools, pool.Contains id := by
  obtain ⟨position, idPool, pool, -, poolFound, idEq, startLe, below⟩ :=
    lookUp_found built indexLt
  refine ⟨_, idEq, pool, List.mem_of_getElem? poolFound, ?_⟩
  unfold VirtualPersonPool.Contains
  rwa [UInt64.add_sub_cancel, UInt64.lt_iff_toNat_lt,
    UInt64.toNat_sub_of_le _ _ startLe]

/-- While the narrowed count is positive, the hashed number is below it, and
it is below the count as well. -/
theorem populationIndex_lt
    (fits : 0 < (toInt32 selector.totalPopulation).toInt)
    (randomSeed : UInt64) :
    ((selector.populationIndex randomSeed).toNat : ℤ) <
        (toInt32 selector.totalPopulation).toInt ∧
      selector.populationIndex randomSeed < selector.totalPopulation := by
  obtain ⟨nonneg, bound⟩ := jumpConsistentHash_mem randomSeed fits
  rw [UInt64.lt_iff_toNat_lt, populationIndex, toNat_signExtend nonneg]
  refine ⟨by omega, ?_⟩
  rw [toInt_toInt32, Int.bmod_def] at fits bound
  split_ifs at fits bound <;> omega

/-- While the narrowed count is positive, the found pool holds the id. -/
theorem getVirtualPersonId_contained (built : build pools = .ok selector)
    (fits : 0 < (toInt32 selector.totalPopulation).toInt)
    (randomSeed : UInt64) :
    ∃ id, selector.getVirtualPersonId randomSeed = .ok id ∧
      ∃ pool ∈ nonEmptyPools pools, pool.Contains id :=
  lookUp_contained built (populationIndex_lt fits randomSeed).2

/-- The number that is looked up at -1, counted from the end of the last pool. -/
theorem wrapped_eq (start offset size : UInt64) :
    -1 - start + offset = offset + size - 1 - (start + size) := by
  grind

/-- Otherwise the last pool is found, and its end is missed by one more than
the total. -/
theorem getVirtualPersonId_unfitting (built : build pools = .ok selector)
    (unfitting : (toInt32 selector.totalPopulation).toInt ≤ 0)
    (randomSeed : UInt64) :
    ∃ last, (nonEmptyPools pools).getLast? = some last ∧
      selector.getVirtualPersonId randomSeed = .ok
        (last.populationOffset + last.totalPopulation - 1 -
          selector.totalPopulation) := by
  obtain ⟨position, idPool, found, idEq, startLe, next⟩ :=
    lookUp_eq built (selector.populationIndex randomSeed)
  obtain ⟨compiledFrom, -⟩ := build_ok built
  have indexEq : selector.populationIndex randomSeed = -1 := by
    rw [populationIndex, jumpConsistentHash_of_nonpos randomSeed unfitting,
      signExtend_neg_one]
  have nextNone : selector.pools[position + 1]? = none := by
    cases nextFound : selector.pools[position + 1]? with
    | none => rfl
    | some nextPool =>
      have above := next nextPool nextFound
      rw [indexEq, UInt64.lt_iff_toNat_lt] at above
      have := nextPool.populationIndexOffset.toNat_lt
      have : (-1 : UInt64).toNat = 2 ^ 64 - 1 := by decide
      omega
  obtain ⟨pool, poolFound, offsetEq, sumEq⟩ := compiledFrom.get found
  rw [nextNone, Option.map_none, Option.getD_none] at sumEq
  refine ⟨pool, ?_, ?_⟩
  · have lengthEq := compiledFrom.length_eq
    have inside := (List.getElem?_eq_some_iff.mp found).1
    rw [List.getElem?_eq_none_iff] at nextNone
    rw [List.getLast?_eq_getElem?, ← poolFound]
    congr 1
    omega
  · rw [getVirtualPersonId, idEq, indexEq, offsetEq, ← sumEq, wrapped_eq]

end VirtualPersonSelector

/-! ## Containment -/

/-- The total population, summed in 64 bits. -/
def populationSum (pools : List VirtualPersonPool) : UInt64 :=
  pools.foldl (fun sum pool => sum + pool.totalPopulation) 0

/-- The total of the loop is the 64-bit sum of the sizes. -/
theorem totalPopulation_foldl_compilePool (pools : List VirtualPersonPool)
    (selector : VirtualPersonSelector) :
    (pools.foldl VirtualPersonSelector.compilePool selector).totalPopulation =
      pools.foldl (fun sum pool => sum + pool.totalPopulation)
        selector.totalPopulation := by
  induction pools generalizing selector with
  | nil => rfl
  | cons pool pools inductionHypothesis =>
    rw [List.foldl_cons, List.foldl_cons, inductionHypothesis]
    congr 1
    unfold VirtualPersonSelector.compilePool
    split_ifs with empty
    · rw [empty, UInt64.add_zero]
    · rfl

/-- The total population of a selector is the 64-bit sum of the sizes. -/
theorem VirtualPersonSelector.totalPopulation_eq
    {pools : List VirtualPersonPool} {selector : VirtualPersonSelector}
    (built : build pools = .ok selector) :
    selector.totalPopulation = populationSum pools := by
  unfold build at built
  simp only at built
  split_ifs at built
  rw [← Except.ok.inj built, totalPopulation_foldl_compilePool]
  rfl

/-- The count that reaches the hash is positive: the lowest 32 bits of the
total, read as a signed integer. -/
def FitsInt32 (pools : List VirtualPersonPool) : Prop :=
  0 < (toInt32 (populationSum pools)).toInt

instance (pools : List VirtualPersonPool) : Decidable (FitsInt32 pools) :=
  inferInstanceAs (Decidable (0 < _))

/-- The number before the last pool that is as far from its end as the total
population. -/
def wrappedId (pools : List VirtualPersonPool) : Option UInt64 :=
  (nonEmptyPools pools).getLast?.map fun last =>
    last.populationOffset + last.totalPopulation - 1 - populationSum pools

namespace PopulationNodeImpl

variable {X : Externals}

/-- What a built node was built from. -/
theorem build_ok {index : Option UInt32} {config : PopulationNode}
    {node : PopulationNodeImpl}
    (built : build (X := X) (.mk index (.populationNode config)) = .ok node) :
    isValidPools config.pools = .ok () ∧
      VirtualPersonSelector.build config.pools =
        .ok node.virtualPersonSelector ∧
      node.randomSeed = config.randomSeed := by
  change (isValidPools config.pools >>= fun _ => _) = _ at built
  obtain ⟨_, valid, built⟩ := bind_eq_ok_iff.mp built
  obtain ⟨selector, selectorEq, nodeEq⟩ := bind_eq_ok_iff.mp built
  rw [← Except.ok.inj nodeEq]
  exact ⟨valid, selectorEq, rfl⟩

/-- What the selector of an accepted node returns, in both cases. -/
theorem getVirtualPersonId_cases {index : Option UInt32}
    {config : PopulationNode} {node : PopulationNodeImpl}
    (built : build (X := X) (.mk index (.populationNode config)) = .ok node)
    (randomSeed : UInt64) :
    ∃ id, node.virtualPersonSelector.getVirtualPersonId randomSeed = .ok id ∧
      ((FitsInt32 config.pools ∧ ∃ pool ∈ config.pools, pool.Contains id) ∨
        (¬FitsInt32 config.pools ∧ wrappedId config.pools = some id)) := by
  obtain ⟨-, selectorBuilt, -⟩ := build_ok built
  have totalEq := VirtualPersonSelector.totalPopulation_eq selectorBuilt
  by_cases fits : FitsInt32 config.pools
  · obtain ⟨id, idEq, pool, poolMem, contains⟩ :=
      VirtualPersonSelector.getVirtualPersonId_contained selectorBuilt
        (by rwa [totalEq]) randomSeed
    exact ⟨id, idEq, Or.inl
      ⟨fits, pool, List.mem_of_mem_filter poolMem, contains⟩⟩
  · obtain ⟨last, lastEq, idEq⟩ :=
      VirtualPersonSelector.getVirtualPersonId_unfitting selectorBuilt
        (by rw [totalEq]; exact not_lt.mp fits) randomSeed
    refine ⟨_, idEq, Or.inr ⟨fits, ?_⟩⟩
    rw [wrappedId, lastEq, Option.map_some, totalEq]

end PopulationNodeImpl

end Cc

end VirtualPeople
