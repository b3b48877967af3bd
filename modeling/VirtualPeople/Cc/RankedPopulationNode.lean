import VirtualPeople.Cc.ConsistentHash
import VirtualPeople.Cc.Feistel
import VirtualPeople.Cc.PopulationNodeHelper

/-!
# Ranked population nodes

A ranked population node splits one pool into a ranked part, which ranked
events enter through a permutation, and an unranked part, which the other
events enter through a hash.  The node is built from a configuration whose
sizes the builder has checked, and these checks are fields of the built node.
-/

namespace VirtualPeople.Cc

/-- What `Build` stores, with the bounds it has checked. -/
structure RankedPopulationNodeImpl where
  randomSeed : String
  rankedSize : UInt64
  unrankedMode : UnrankedMode
  poolOffset : UInt64
  poolSize : UInt64
  poolSizePositive : 0 < poolSize.toNat
  poolSizeLt : poolSize.toNat < 2 ^ 31
  rankedSizeLe : rankedSize.toNat ≤ poolSize.toNat

namespace RankedPopulationNodeImpl

/-- `std::numeric_limits<int32_t>::max()` -/
def int32Max : UInt64 :=
  2147483647

/-- The node of a configuration with one pool of a size that fits in 32 bits. -/
def buildFromConfig (config : RankedPopulationNode) :
    Result RankedPopulationNodeImpl :=
  match config.pools with
  | [pool] =>
    let poolOffset := pool.populationOffset
    let poolSize := pool.totalPopulation
    if zero : poolSize = 0 then
      throw (invalidArgument
        "RankedPopulationNode total pool size must be > 0.")
    else if large : int32Max < poolSize then
      throw (invalidArgument ("pool_size (" ++ toString poolSize ++
        ") exceeds the maximum supported size (" ++ toString int32Max ++ ")."))
    else if exceeds : poolSize < config.rankedSize then
      throw (invalidArgument ("ranked_size (" ++ toString config.rankedSize ++
        ") must not exceed pool_size (" ++ toString poolSize ++ ")."))
    else
      return {
        randomSeed := config.randomSeed
        rankedSize := config.rankedSize
        unrankedMode := config.unrankedMode
        poolOffset := poolOffset
        poolSize := poolSize
        poolSizePositive := Nat.pos_of_ne_zero fun equal =>
          zero (UInt64.toNat_inj.mp equal)
        poolSizeLt := by
          have := UInt64.not_lt.mp large
          exact Nat.lt_succ_of_le (UInt64.le_iff_toNat_le.mp this)
        rankedSizeLe := UInt64.le_iff_toNat_le.mp (UInt64.not_lt.mp exceeds) }
  | pools =>
    throw (invalidArgument
      ("RankedPopulationNode requires exactly one pool, got " ++
        toString pools.length ++ "."))

/-- `RankedPopulationNodeImpl::Build`. -/
def build {X : Externals} (nodeConfig : CompiledNode X) :
    Result RankedPopulationNodeImpl :=
  match nodeConfig.type with
  | .rankedPopulationNode config => buildFromConfig config
  | _ => throw (invalidArgument "This is not a ranked population node.")

variable {X : Externals} (node : RankedPopulationNodeImpl)

/-- The rank assignments of the labeler input of an event. -/
def rankAssignments (event : X.Event) : List RankAssignment :=
  match event.labelerInput with
  | some labelerInput => labelerInput.rankAssignments
  | none => []

/-- The first rank assignment for the pool of the node. -/
def lookupRank (event : X.Event) : Option RankAssignment :=
  (rankAssignments event).find? (·.poolOffset == node.poolOffset)

/-- The ranked path is taken. -/
def IsRanked (event : X.Event) : Prop :=
  ∃ rank, node.lookupRank event = some rank ∧
    rank.localRank < node.rankedSize

/-- The id of a rank: the offset plus the permuted rank. -/
def rankedId (X : Externals) (localRank : UInt64) : Result UInt64 := do
  let permuted ← feistelPermute X node.randomSeed localRank node.rankedSize
  return node.poolOffset + permuted

/-- The id of an event without a rank in the ranked part, as the mode says. -/
def unrankedId (X : Externals) (actingFingerprint : UInt64) :
    Result UInt64 :=
  let seed := X.fingerprint (node.randomSeed ++ toString actingFingerprint)
  match node.unrankedMode with
  | .disjoint =>
    let unrankedSize := node.poolSize - node.rankedSize
    if unrankedSize = 0 then
      throw (invalidArgument
        "DISJOINT mode with ranked_size == pool_size leaves no unranked space.")
    else
      return node.poolOffset + node.rankedSize +
        signExtend (jumpConsistentHash seed (toInt32 unrankedSize))
  | .fullPool =>
    return node.poolOffset +
      signExtend (jumpConsistentHash seed (toInt32 node.poolSize))
  | _ => throw (invalidArgument "UnrankedMode must be DISJOINT or FULL_POOL.")

/-- The error for an event with ranks, but none for the pool. -/
def noneMatch (poolOffset : UInt64) : Fault :=
  invalidArgument ("RankAssignment provided but none match pool_offset=" ++
    toString poolOffset ++ ".")

/-- The id a full labeling run gives to the event. -/
def virtualPersonId (event : X.Event) : Result UInt64 :=
  match node.lookupRank event with
  | some rank =>
    if rank.localRank < node.rankedSize then node.rankedId X rank.localRank
    else node.unrankedId X (event.actingFingerprint.getD 0)
  | none =>
    if rankAssignments event ≠ [] then throw (noneMatch node.poolOffset)
    else node.unrankedId X (event.actingFingerprint.getD 0)

/-- What the node announces for a person to be ranked. -/
def poolAssignment : PoolAssignment where
  poolOffset := node.poolOffset
  poolSize := node.poolSize
  rankedSize := node.rankedSize

/-- `RankedPopulationNodeImpl::Apply`. -/
def apply : Step X.Event Unit := do
  let event ← get
  if event.poolIdentityMode.getD false then
    set { event with
      poolAssignments := event.poolAssignments ++ [node.poolAssignment] }
  else if 0 < event.virtualPersonActivities.length then
    throw (invalidArgument
      "virtual_person_activities should only be created in leaf nodes.")
  else createActivity X (node.virtualPersonId event)

/-! ## One application -/

/-- What a successful labeling has found and written. -/
theorem apply_ok {event final : X.Event}
    (labeling : event.poolIdentityMode.getD false = false)
    (applied : node.apply event = .ok () final) :
    ∃ vid label, node.virtualPersonId event = .ok vid ∧
      writtenLabel X event vid = .ok label ∧
      event.virtualPersonActivities = [] ∧
      final = { event with
        virtualPersonActivities := [⟨some vid, label⟩] } := by
  simp only [apply, Step.run_bind_eq_ok_iff, Step.run_get,
    EStateM.Result.ok.injEq] at applied
  obtain ⟨_, _, ⟨rfl, rfl⟩, applied⟩ := applied
  rw [labeling, if_neg (by simp)] at applied
  split_ifs at applied with occupied
  · simp at applied
  · obtain ⟨vid, label, found, labelEq, finalEq⟩ :=
      createActivity_ok_iff.mp applied
    exact ⟨vid, label, found, labelEq, by simpa using occupied, finalEq⟩

/-- Full labeling of the event succeeds and gives it this id. -/
def Assigns (event : X.Event) (vid : UInt64) : Prop :=
  event.poolIdentityMode.getD false = false ∧
    ∃ label, node.apply event = .ok () { event with
      virtualPersonActivities := [⟨some vid, label⟩] }

/-- The assigned id is the one that was found. -/
theorem Assigns.found {node : RankedPopulationNodeImpl} {event : X.Event}
    {vid : UInt64} (assigns : node.Assigns event vid) :
    node.virtualPersonId event = .ok vid := by
  obtain ⟨labeling, label, applied⟩ := assigns
  obtain ⟨vid', label', found, -, -, finalEq⟩ := node.apply_ok labeling applied
  simp only [LabelerEvent.mk.injEq, List.cons.injEq,
    VirtualPersonActivity.mk.injEq, Option.some.injEq] at finalEq
  rw [finalEq.2.2.2.1.1.1]
  exact found

/-- Whatever a full labeling run returns comes with an assigned id. -/
theorem assigns_of_apply {event final : X.Event}
    (labeling : event.poolIdentityMode.getD false = false)
    (applied : node.apply event = .ok () final) :
    ∃ vid, node.Assigns event vid ∧ ∃ label,
      final.virtualPersonActivities = [⟨some vid, label⟩] := by
  obtain ⟨vid, label, -, -, -, rfl⟩ := node.apply_ok labeling applied
  exact ⟨vid, ⟨labeling, label, applied⟩, label, rfl⟩

/-! ## Where the id lies -/

/-- The offset can be taken away again. -/
@[simp] theorem add_sub_self (offset value : UInt64) : offset + value - offset = value := by
  rw [UInt64.add_comm, UInt64.add_sub_cancel]

/-- The id of a rank is in the ranked part. -/
theorem rankedId_lt {localRank vid : UInt64}
    (isRanked : localRank < node.rankedSize)
    (found : node.rankedId X localRank = .ok vid) :
    vid - node.poolOffset < node.rankedSize := by
  obtain ⟨permuted, permutedEq, vidEq⟩ := bind_eq_ok_iff.mp found
  rw [← Except.ok.inj vidEq, add_sub_self]
  refine feistelPermute_lt X _ ?_ permutedEq
  rw [UInt64.lt_iff_toNat_lt] at isRanked ⊢
  exact Nat.zero_lt_of_lt isRanked

/-- The part of the pool that an unranked event may get. -/
def UnrankedRange (offset : UInt64) : Prop :=
  match node.unrankedMode with
  | .disjoint => node.rankedSize ≤ offset ∧ offset < node.poolSize
  | .fullPool => offset < node.poolSize
  | _ => False

/-- The id of an unranked event is in the part that the mode says. -/
theorem unrankedId_mem {actingFingerprint vid : UInt64}
    (found : node.unrankedId X actingFingerprint = .ok vid) :
    node.UnrankedRange (vid - node.poolOffset) := by
  have poolSizePositive := node.poolSizePositive
  have poolSizeLt := node.poolSizeLt
  have rankedSizeLe := node.rankedSizeLe
  unfold unrankedId at found
  unfold UnrankedRange
  split at found
  · -- DISJOINT: the bucket is shifted past the ranked part.
    simp only at found
    split_ifs at found with full
    have sizeEq : (node.poolSize - node.rankedSize).toNat =
        node.poolSize.toNat - node.rankedSize.toNat :=
      UInt64.toNat_sub_of_le _ _ (UInt64.le_iff_toNat_le.mpr rankedSizeLe)
    have sizePositive : 0 < (node.poolSize - node.rankedSize).toNat :=
      Nat.pos_of_ne_zero fun zero => full (UInt64.toNat_inj.mp zero)
    have bucketLt := toNat_jumpConsistentHash_lt
      (X.fingerprint (node.randomSeed ++ toString actingFingerprint))
      sizePositive (by omega)
    rw [← Except.ok.inj found, UInt64.add_assoc, add_sub_self,
      UInt64.le_iff_toNat_le, UInt64.lt_iff_toNat_lt, UInt64.toNat_add,
      Nat.mod_eq_of_lt (by omega)]
    omega
  · have bucketLt := toNat_jumpConsistentHash_lt
      (X.fingerprint (node.randomSeed ++ toString actingFingerprint))
      poolSizePositive poolSizeLt
    rw [← Except.ok.inj found]
    simp only [add_sub_self]
    rwa [UInt64.lt_iff_toNat_lt]
  · contradiction

/-- The ranked path gives the permuted rank, and every other event that gets
an id gets it on the unranked path. -/
theorem virtualPersonId_cases {event : X.Event} {vid : UInt64}
    (found : node.virtualPersonId event = .ok vid) :
    (∃ rank, node.lookupRank event = some rank ∧
      rank.localRank < node.rankedSize ∧
        node.rankedId X rank.localRank = .ok vid) ∨
      (¬node.IsRanked event ∧
        node.unrankedId X (event.actingFingerprint.getD 0) = .ok vid) := by
  unfold virtualPersonId at found
  unfold IsRanked
  split at found
  · rename_i rank lookup
    split_ifs at found with inRanked
    · exact Or.inl ⟨rank, lookup, inRanked, found⟩
    · refine Or.inr ⟨?_, found⟩
      rintro ⟨other, same, less⟩
      rw [lookup, Option.some_inj] at same
      exact inRanked (same ▸ less)
  · rename_i lookup
    split_ifs at found
    refine Or.inr ⟨?_, found⟩
    rintro ⟨other, same, -⟩
    rw [lookup] at same
    contradiction

/-- The offsets that an event can get within the pool. -/
theorem virtualPersonId_sub_lt {node : RankedPopulationNodeImpl}
    {event : X.Event} {vid : UInt64} (found : node.virtualPersonId event = .ok vid) :
    vid - node.poolOffset < match node.unrankedMode with
      | .disjoint | .fullPool => node.poolSize
      | _ => node.rankedSize := by
  have rankedSizeLe := UInt64.le_iff_toNat_le.mpr node.rankedSizeLe
  rcases node.virtualPersonId_cases found with
    ⟨rank, -, inRanked, idEq⟩ | ⟨-, idEq⟩
  · have below := node.rankedId_lt inRanked idEq
    split
    · exact UInt64.lt_of_lt_of_le below rankedSizeLe
    · exact UInt64.lt_of_lt_of_le below rankedSizeLe
    · exact below
  · have inRange := node.unrankedId_mem idEq
    unfold UnrankedRange at inRange
    split at inRange
    · rename_i mode
      simpa only [mode] using inRange.2
    · rename_i mode
      simpa only [mode] using inRange
    · contradiction

/-- A ranked event is given an id of the ranked part. -/
theorem Assigns.ranked_lt {node : RankedPopulationNodeImpl} {event : X.Event}
    {vid : UInt64} (assigns : node.Assigns event vid)
    (isRanked : node.IsRanked event) :
    vid - node.poolOffset < node.rankedSize := by
  rcases node.virtualPersonId_cases assigns.found with
    ⟨rank, -, inRanked, found⟩ | ⟨notRanked, -⟩
  · exact node.rankedId_lt inRanked found
  · exact absurd isRanked notRanked

/-- An unranked event is given an id of the unranked part. -/
theorem Assigns.unranked_mem {node : RankedPopulationNodeImpl}
    {event : X.Event} {vid : UInt64} (assigns : node.Assigns event vid)
    (notRanked : ¬node.IsRanked event) :
    node.UnrankedRange (vid - node.poolOffset) := by
  rcases node.virtualPersonId_cases assigns.found with
    ⟨rank, lookup, inRanked, -⟩ | ⟨-, found⟩
  · exact absurd ⟨rank, lookup, inRanked⟩ notRanked
  · exact node.unrankedId_mem found

/-- Distinct ranks of one node are permuted to distinct ids. -/
theorem rankedId_injective {localRank localRank' vid : UInt64}
    (isRanked : localRank < node.rankedSize)
    (isRanked' : localRank' < node.rankedSize)
    (found : node.rankedId X localRank = .ok vid)
    (found' : node.rankedId X localRank' = .ok vid) :
    localRank = localRank' := by
  obtain ⟨permuted, permutedEq, vidEq⟩ := bind_eq_ok_iff.mp found
  obtain ⟨permuted', permutedEq', vidEq'⟩ := bind_eq_ok_iff.mp found'
  have sameId := (Except.ok.inj vidEq).trans (Except.ok.inj vidEq').symm
  have same := congrArg (· - node.poolOffset) sameId
  simp only [add_sub_self] at same
  rw [← same] at permutedEq'
  exact feistelPermute_injective X node.randomSeed
    (lt_of_le_of_lt node.rankedSizeLe node.poolSizeLt) isRanked isRanked'
    permutedEq permutedEq'

/-! ## The contract of the node -/

/-- The node holds what the configuration says. -/
def IsBuiltFrom (config : RankedPopulationNode) : Prop :=
  config.pools = [⟨node.poolOffset, node.poolSize⟩] ∧
    node.rankedSize = config.rankedSize ∧
    node.unrankedMode = config.unrankedMode ∧
    node.randomSeed = config.randomSeed

/-- What a built node was built from. -/
theorem build_ok {nodeConfig : CompiledNode X}
    {node : RankedPopulationNodeImpl} (built : build nodeConfig = .ok node) :
    ∃ config, nodeConfig.type = .rankedPopulationNode config ∧
      node.IsBuiltFrom config := by
  unfold build at built
  split at built
  · rename_i config typeEq
    refine ⟨config, typeEq, ?_⟩
    unfold buildFromConfig at built
    split at built
    · rename_i pool poolsEq
      simp only at built
      split_ifs at built
      rw [← Except.ok.inj built]
      exact ⟨poolsEq, rfl, rfl, rfl⟩
    · contradiction
  · contradiction

/-- Every id of a built node lies in its part of the pool, two ranked events
with different ranks never share one, and in DISJOINT mode a ranked and an
unranked event never do. -/
theorem assigned_ids {nodeConfig : CompiledNode X}
    {node : RankedPopulationNodeImpl} (built : build nodeConfig = .ok node) :
    (∃ config, nodeConfig.type = .rankedPopulationNode config ∧
      node.IsBuiltFrom config) ∧
    (∀ (event final : X.Event),
      event.poolIdentityMode.getD false = false →
        node.apply event = .ok () final →
          ∃ vid, node.Assigns event vid ∧ ∃ label,
            final.virtualPersonActivities = [⟨some vid, label⟩]) ∧
    (∀ (event : X.Event) (vid : UInt64), node.Assigns event vid →
      (node.IsRanked event → vid - node.poolOffset < node.rankedSize) ∧
      (¬node.IsRanked event → node.UnrankedRange (vid - node.poolOffset))) ∧
    (∀ (event event' : X.Event) (rank rank' : RankAssignment)
      (vid vid' : UInt64), node.Assigns event vid →
        node.Assigns event' vid' →
        node.lookupRank event = some rank →
        node.lookupRank event' = some rank' →
        rank.localRank < node.rankedSize →
        rank'.localRank < node.rankedSize →
        rank.localRank ≠ rank'.localRank → vid ≠ vid') ∧
    (node.unrankedMode = .disjoint →
      ∀ (event event' : X.Event) (vid vid' : UInt64),
        node.Assigns event vid → node.Assigns event' vid' →
        node.IsRanked event → ¬node.IsRanked event' → vid ≠ vid') := by
  refine ⟨build_ok built, fun event final => node.assigns_of_apply,
    fun event vid assigns => ⟨assigns.ranked_lt, assigns.unranked_mem⟩, ?_, ?_⟩
  · intro event event' rank rank' vid vid' assigns assigns' lookup lookup'
      inRanked inRanked' different same
    rcases node.virtualPersonId_cases assigns.found with
      ⟨found, foundEq, -, idEq⟩ | ⟨notRanked, -⟩
    · rcases node.virtualPersonId_cases assigns'.found with
        ⟨found', foundEq', -, idEq'⟩ | ⟨notRanked', -⟩
      · rw [lookup, Option.some_inj] at foundEq
        rw [lookup', Option.some_inj] at foundEq'
        rw [← foundEq] at idEq
        rw [← foundEq', ← same] at idEq'
        exact different
          (node.rankedId_injective inRanked inRanked' idEq idEq')
      · exact notRanked' ⟨rank', lookup', inRanked'⟩
    · exact notRanked ⟨rank, lookup, inRanked⟩
  · intro disjoint event event' vid vid' assigns assigns' isRanked notRanked same
    have below := assigns.ranked_lt isRanked
    have above := assigns'.unranked_mem notRanked
    simp only [UnrankedRange, disjoint] at above
    rw [same, UInt64.lt_iff_toNat_lt] at below
    have := UInt64.le_iff_toNat_le.mp above.1
    omega

/-- A disjoint leaf of four people, two of which are ranked. -/
def twoRankedPeople : RankedPopulationNodeImpl :=
  ⟨"seed", 2, .disjoint, 7, 4, by decide, by decide, by decide⟩

/-- An event with the given ranks and no other field. -/
def eventOfRanks (ranks : List RankAssignment) : Externals.constant.Event :=
  { Externals.constant.emptyEvent with
    labelerInput := some ⟨none, none, 0, ranks, false, ()⟩ }

/-- The id that is found for such an event is assigned to it. -/
theorem assigns_eventOfRanks {ranks : List RankAssignment} {vid : UInt64}
    (found : twoRankedPeople.virtualPersonId (X := .constant)
      (eventOfRanks ranks) = .ok vid) :
    twoRankedPeople.Assigns (X := .constant) (eventOfRanks ranks) vid := by
  refine ⟨rfl, none, ?_⟩
  rw [apply, Step.run_bind_of_ok _ (Step.run_get _)]
  change createActivity _ (twoRankedPeople.virtualPersonId _) _ = _
  rw [found]
  rfl

/-- The contract for two ranks and an event without a rank. -/
theorem assigned_ids_twoRanks :
    build (X := .constant) (.mk none (.rankedPopulationNode
        ⟨[⟨7, 4⟩], "seed", 2, .disjoint⟩)) = .ok twoRankedPeople ∧
      ∃ vid vid' unranked : UInt64,
        twoRankedPeople.Assigns (X := .constant) (eventOfRanks [⟨7, 0⟩]) vid ∧
        twoRankedPeople.Assigns (X := .constant) (eventOfRanks [⟨7, 1⟩]) vid' ∧
        twoRankedPeople.Assigns (X := .constant) (eventOfRanks []) unranked ∧
        vid - 7 < 2 ∧ vid' - 7 < 2 ∧ vid ≠ vid' ∧
        2 ≤ unranked - 7 ∧ unranked - 7 < 4 ∧ vid ≠ unranked := by
  have built : build (X := .constant) (.mk none (.rankedPopulationNode
      ⟨[⟨7, 4⟩], "seed", 2, .disjoint⟩)) = .ok twoRankedPeople := rfl
  obtain ⟨-, -, ranges, distinct, disjoint⟩ := assigned_ids built
  have first := @assigns_eventOfRanks [⟨7, 0⟩] 7 (by decide +kernel)
  have second := @assigns_eventOfRanks [⟨7, 1⟩] 8 (by decide +kernel)
  have third := @assigns_eventOfRanks [] 9 (by decide +kernel)
  have isRanked : twoRankedPeople.IsRanked (X := .constant)
      (eventOfRanks [⟨7, 0⟩]) := ⟨⟨7, 0⟩, rfl, by decide⟩
  have isRanked' : twoRankedPeople.IsRanked (X := .constant)
      (eventOfRanks [⟨7, 1⟩]) := ⟨⟨7, 1⟩, rfl, by decide⟩
  have notRanked : ¬twoRankedPeople.IsRanked (X := .constant)
      (eventOfRanks []) := by
    rintro ⟨rank, found, -⟩
    cases found
  have range : twoRankedPeople.UnrankedRange (9 - 7) :=
    (ranges _ 9 third).2 notRanked
  exact ⟨built, 7, 8, 9, first, second, third, (ranges _ 7 first).1 isRanked,
    (ranges _ 8 second).1 isRanked', distinct _ _ ⟨7, 0⟩ ⟨7, 1⟩ 7 8 first second
      rfl rfl (by decide) (by decide) (by decide), range.1, range.2,
    disjoint rfl _ _ 7 9 first third isRanked notRanked⟩

end RankedPopulationNodeImpl

end VirtualPeople.Cc
