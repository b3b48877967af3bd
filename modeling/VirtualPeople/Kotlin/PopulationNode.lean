import VirtualPeople.Cc.PopulationNode
import VirtualPeople.Kotlin.ColumnMatchers
import VirtualPeople.Kotlin.Hashing

/-!
# Population nodes, in Kotlin

The Kotlin selector numbers the people of its pools as the C++ one does, and
looks the pool up from the front.  A single pool without people at offset zero
is an empty population pool here: its node has no selector and assigns no id.
-/

namespace VirtualPeople.Kotlin

/-! ## The selector -/

/-- A pool, with its offset and the number of its first person. -/
structure VirtualPersonIdPool where
  virtualPeopleIdOffset : UInt64
  populationIndexOffset : UInt64

/-- The compiled pools, in the order of the numbers of their people. -/
structure VirtualPeopleSelector where
  totalPopulation : UInt64
  pools : List VirtualPersonIdPool

namespace VirtualPeopleSelector

/-- One round of the loop over the pools. -/
def compilePool (compiled : VirtualPeopleSelector) (pool : VirtualPersonPool) :
    VirtualPeopleSelector :=
  if pool.totalPopulation.toInt64.toUInt64 > 0 then
    { totalPopulation :=
        compiled.totalPopulation + pool.totalPopulation.toInt64.toUInt64
      pools := compiled.pools ++ [⟨pool.populationOffset.toInt64.toUInt64,
        compiled.totalPopulation⟩] }
  else compiled

/-- `VirtualPeopleSelector.build`. -/
def build (pools : List VirtualPersonPool) : Result VirtualPeopleSelector :=
  let compiled := pools.foldl compilePool ⟨0, []⟩
  if compiled.totalPopulation = 0 then
    throw (.illegalState
      "The total population of the pools is 0. The model is invalid.")
  else return compiled

/-- The number of the person that the seed is hashed to. -/
def populationIndex (selector : VirtualPeopleSelector)
    (randomSeed : UInt64) : UInt64 :=
  signExtend
    (jumpConsistentHash randomSeed (toInt32 selector.totalPopulation))

/-- The position of the pool of the person with the number. -/
def preIndex (selector : VirtualPeopleSelector) (populationIndex : UInt64) :
    ℤ :=
  let index := indexOfFirst selector.pools
    fun pool => populationIndex < pool.populationIndexOffset
  if index = -1 then selector.pools.length - 1 else index - 1

/-- `getVirtualPersonId`: the person with the hashed number. -/
def getVirtualPersonId (selector : VirtualPeopleSelector)
    (randomSeed : UInt64) : Result UInt64 := do
  let populationIndex := selector.populationIndex randomSeed
  let pool ← Cc.elementAt selector.pools (selector.preIndex populationIndex)
  return populationIndex - pool.populationIndexOffset +
    pool.virtualPeopleIdOffset

end VirtualPeopleSelector

/-! ## The node -/

/-- A built population node; the empty population pool has no selector. -/
structure PopulationNodeImpl where
  virtualPeopleSelector : Option VirtualPeopleSelector
  randomSeed : String

namespace PopulationNodeImpl

/-- `isEmptyPopulationPool`: the one pool (0, 0). -/
def isEmptyPopulationPool (pools : List VirtualPersonPool) : Bool :=
  match pools with
  | [pool] => pool.populationOffset.toInt64 == 0 &&
    pool.totalPopulation.toInt64 == 0
  | _ => false

/-- The node of a configuration. -/
def buildFromConfig (config : PopulationNode) :
    Result PopulationNodeImpl :=
  if isEmptyPopulationPool config.pools then return ⟨none, config.randomSeed⟩
  else do
    let virtualPeopleSelector ← VirtualPeopleSelector.build config.pools
    return ⟨some virtualPeopleSelector, config.randomSeed⟩

/-- `PopulationNodeImpl.build`. -/
def build {X : Externals} (nodeConfig : CompiledNode X) :
    Result PopulationNodeImpl :=
  match nodeConfig.type with
  | .populationNode config => buildFromConfig config
  | _ => throw (.illegalState "This is not a population node.")

variable {X : Externals} (node : PopulationNodeImpl)

/-- The id of the activity, unless the pools are an empty population pool. -/
def virtualPersonId (event : X.Event) : Result (Option UInt64) :=
  match node.virtualPeopleSelector with
  | some selector => do
    let seed := PopulationNodeHelper.computeVidSeed X node.randomSeed
      (event.actingFingerprint.getD 0).toInt64
    let virtualPersonId ← selector.getVirtualPersonId seed
    return some virtualPersonId.toInt64.toUInt64
  | none => return none

/-- The seed of quantum labels: the id, or the fingerprint if there is none. -/
def seedSuffix (event : X.Event) (virtualPersonId : Option UInt64) : String :=
  match virtualPersonId with
  | some virtualPersonId => toString virtualPersonId
  | none => toString (event.actingFingerprint.getD 0).toInt64.toUInt64

/-- `PopulationNodeImpl.apply`. -/
def apply : Step X.Event Unit := do
  let event ← get
  if event.poolIdentityMode.getD false then return
  else if 0 < event.virtualPersonActivities.length then
    throw (.illegalState
      "virtual_person_activities should only be created in leaf nodes.")
  else
    let virtualPersonId ← Step.lift (node.virtualPersonId event)
    PopulationNodeHelper.addActivity X virtualPersonId
      (seedSuffix event virtualPersonId)

end PopulationNodeImpl

/-! ## The selector and the C++ one -/

theorem toInt64_eq_zero_iff (value : UInt64) :
    value.toInt64 = 0 ↔ value = 0 := by
  constructor
  · intro zero
    rw [← UInt64.toUInt64_toInt64 value, zero]
    rfl
  · rintro rfl
    rfl

theorem isEmptyPopulationPool_iff {pools : List VirtualPersonPool} :
    PopulationNodeImpl.isEmptyPopulationPool pools = true ↔
      pools = [⟨0, 0⟩] := by
  unfold PopulationNodeImpl.isEmptyPopulationPool
  split
  · rename_i pool
    obtain ⟨offset, size⟩ := pool
    simp [toInt64_eq_zero_iff]
  · rename_i notSingle
    simp only [Bool.false_eq_true, false_iff]
    exact notSingle _

namespace VirtualPeopleSelector

/-- The Kotlin selector with the pools of the other one. -/
def ofCc (selector : Cc.VirtualPersonSelector) : VirtualPeopleSelector where
  totalPopulation := selector.totalPopulation
  pools := selector.pools.map
    fun pool => ⟨pool.virtualPeopleIdOffset, pool.populationIndexOffset⟩

theorem compilePool_ofCc (selector : Cc.VirtualPersonSelector)
    (pool : VirtualPersonPool) :
    (ofCc selector).compilePool pool = ofCc (selector.compilePool pool) := by
  unfold compilePool Cc.VirtualPersonSelector.compilePool
  rw [UInt64.toUInt64_toInt64, UInt64.toUInt64_toInt64]
  by_cases empty : pool.totalPopulation = 0
  · rw [if_pos empty, empty, if_neg (by decide)]
  · have positive : pool.totalPopulation > 0 := by
      rw [gt_iff_lt, UInt64.lt_iff_toNat_lt]
      exact Nat.pos_of_ne_zero fun zero => empty (UInt64.toNat_inj.mp zero)
    rw [if_neg empty, if_pos positive]
    simp [ofCc]

theorem foldl_compilePool_ofCc (pools : List VirtualPersonPool)
    (selector : Cc.VirtualPersonSelector) :
    pools.foldl compilePool (ofCc selector) =
      ofCc (pools.foldl Cc.VirtualPersonSelector.compilePool selector) := by
  induction pools generalizing selector with
  | nil => rfl
  | cons pool pools inductionHypothesis =>
    rw [List.foldl_cons, List.foldl_cons, compilePool_ofCc, inductionHypothesis]

theorem build_lockstep (pools : List VirtualPersonPool) :
    Lockstep (fun selector selector' => selector' = ofCc selector)
      (Cc.VirtualPersonSelector.build pools) (build pools) := by
  unfold Cc.VirtualPersonSelector.build build
  have compiled := foldl_compilePool_ofCc pools ⟨0, []⟩
  change pools.foldl compilePool ⟨0, []⟩ = _ at compiled
  simp only [compiled]
  by_cases zero : (pools.foldl Cc.VirtualPersonSelector.compilePool
      ⟨0, []⟩).totalPopulation = 0
  · rw [if_pos zero, if_pos (by exact zero)]
    exact .errors _ _
  · rw [if_neg zero, if_neg (by exact zero)]
    exact .ok rfl

end VirtualPeopleSelector

end VirtualPeople.Kotlin
