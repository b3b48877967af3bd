import VirtualPeople.Cc.RankedPopulationNode
import VirtualPeople.Kotlin.Hashing
import VirtualPeople.Kotlin.PopulationNodeHelper

/-!
# Ranked population nodes, in Kotlin

The builder checks the sizes against each other, but not against the largest
count that the hash accepts: an unranked size whose lowest 32 bits are not a
positive signed integer is hashed to `-1`, one below its range.
-/

namespace VirtualPeople.Kotlin

open Cc.RankedPopulationNodeImpl (add_sub_self)

/-- What `build` stores, with the bounds it has checked. -/
structure RankedPopulationNodeImpl where
  randomSeed : String
  rankedSize : UInt64
  unrankedMode : UnrankedMode
  poolOffset : UInt64
  poolSize : UInt64
  poolSizePositive : 0 < poolSize.toNat
  rankedSizeLe : rankedSize.toNat ≤ poolSize.toNat

namespace RankedPopulationNodeImpl

/-- The node of a configuration; sizes go through signed numbers and back. -/
def buildFromConfig (config : RankedPopulationNode) :
    Result RankedPopulationNodeImpl :=
  match config.pools with
  | [pool] =>
    let poolOffset := pool.populationOffset.toInt64.toUInt64
    let poolSize := pool.totalPopulation.toInt64.toUInt64
    let rankedSize := config.rankedSize.toInt64.toUInt64
    if positive : poolSize > 0 then
      if fits : rankedSize ≤ poolSize then
        return {
          randomSeed := config.randomSeed
          rankedSize := rankedSize
          unrankedMode := config.unrankedMode
          poolOffset := poolOffset
          poolSize := poolSize
          poolSizePositive := UInt64.lt_iff_toNat_lt.mp positive
          rankedSizeLe := UInt64.le_iff_toNat_le.mp fits }
      else
        throw (.illegalArgument ("ranked_size (" ++ toString rankedSize ++
          ") must not exceed pool_size (" ++ toString poolSize ++ ")."))
    else
      throw (.illegalArgument
        "RankedPopulationNode total pool size must be > 0.")
  | pools =>
    throw (.illegalArgument
      ("RankedPopulationNode requires exactly one pool, got " ++
        toString pools.length ++ "."))

/-- `RankedPopulationNodeImpl.build`. -/
def build {X : Externals} (nodeConfig : CompiledNode X) :
    Result RankedPopulationNodeImpl :=
  match nodeConfig.type with
  | .rankedPopulationNode config => buildFromConfig config
  | _ => throw (.illegalState "This is not a ranked population node.")

variable {X : Externals} (node : RankedPopulationNodeImpl)

/-- The rank assignments that the labeler input holds. -/
def rankAssignments (event : X.Event) : List RankAssignment :=
  match event.labelerInput with
  | some labelerInput => labelerInput.rankAssignments
  | none => []

/-- The first rank assignment for the pool of the node. -/
def rankAssignment (event : X.Event) : Option RankAssignment :=
  (rankAssignments event).find?
    fun rank => rank.poolOffset.toInt64.toUInt64 == node.poolOffset

/-- The number of unranked ids, before it is narrowed. -/
def unrankedId (X : Externals) (actingFingerprint : Int64) : Result UInt64 :=
  let seed := PopulationNodeHelper.computeVidSeed X node.randomSeed
    actingFingerprint
  match node.unrankedMode with
  | .disjoint =>
    let unrankedSize := node.poolSize - node.rankedSize
    if unrankedSize > 0 then
      return node.poolOffset + node.rankedSize +
        signExtend (jumpConsistentHash seed (toInt32 unrankedSize))
    else
      throw (.illegalState
        "DISJOINT mode with ranked_size == pool_size leaves no unranked space.")
  | .fullPool =>
    return node.poolOffset +
      signExtend (jumpConsistentHash seed (toInt32 node.poolSize))
  | _ =>
    throw (.illegalState "UnrankedMode must be DISJOINT or FULL_POOL.")

/-- The id a full labeling run gives to the event. -/
def virtualPersonId (event : X.Event) : Result UInt64 :=
  let rankAssignment := node.rankAssignment event
  if (rankAssignments event).isEmpty = false ∧ rankAssignment = none then
    throw (.illegalState ("RankAssignment provided but none match " ++
      "pool_offset=" ++ toString node.poolOffset ++ "."))
  else
    match rankAssignment with
    | some rank =>
      let localRank := rank.localRank.toInt64.toUInt64
      if localRank < node.rankedSize then do
        let permuted ← Feistel.permute X localRank node.rankedSize
          node.randomSeed
        return node.poolOffset + permuted
      else node.unrankedId X (event.actingFingerprint.getD 0).toInt64
    | none => node.unrankedId X (event.actingFingerprint.getD 0).toInt64

/-- What the node announces for a person to be ranked. -/
def poolAssignment : PoolAssignment where
  poolOffset := node.poolOffset.toInt64.toUInt64
  poolSize := node.poolSize.toInt64.toUInt64
  rankedSize := node.rankedSize.toInt64.toUInt64

/-- `RankedPopulationNodeImpl.apply`. -/
def apply : Step X.Event Unit := do
  let event ← get
  if event.poolIdentityMode.getD false then
    set { event with
      poolAssignments := event.poolAssignments ++ [node.poolAssignment] }
  else if 0 < event.virtualPersonActivities.length then
    throw (.illegalState
      "virtual_person_activities should only be created in leaf nodes.")
  else
    let virtualPersonId ← Step.lift (node.virtualPersonId event)
    PopulationNodeHelper.addActivity X (some virtualPersonId)
      (toString virtualPersonId)

/-! ## One application -/

/-- The ranked path is taken. -/
def IsRanked (event : X.Event) : Prop :=
  ∃ rank, node.rankAssignment event = some rank ∧
    rank.localRank < node.rankedSize

/-- Full labeling of the event succeeds and gives it this id. -/
def Assigns (event : X.Event) (vid : UInt64) : Prop :=
  event.poolIdentityMode.getD false = false ∧
    ∃ label, node.apply event = .ok () { event with
      virtualPersonActivities := [⟨some vid, label⟩] }

theorem apply_ok {event final : X.Event}
    (labeling : event.poolIdentityMode.getD false = false)
    (applied : node.apply event = .ok () final) :
    ∃ vid label, node.virtualPersonId event = .ok vid ∧
      final = { event with
        virtualPersonActivities := [⟨some vid, label⟩] } := by
  simp only [apply, Step.run_bind_eq_ok_iff, Step.run_get,
    EStateM.Result.ok.injEq] at applied
  obtain ⟨_, _, ⟨rfl, rfl⟩, applied⟩ := applied
  rw [labeling, if_neg (by simp)] at applied
  split_ifs at applied with occupied
  · simp at applied
  · have empty : event.virtualPersonActivities = [] := by simpa using occupied
    simp only [PopulationNodeHelper.addActivity, Step.run_bind_eq_ok_iff,
      Step.run_lift_eq_ok_iff, Step.run_get, Step.run_set,
      EStateM.Result.ok.injEq] at applied
    obtain ⟨vid, _, ⟨found, rfl⟩, _, _, ⟨rfl, rfl⟩, label, _, ⟨-, rfl⟩, -,
      rfl⟩ := applied
    exact ⟨vid, label, found, by rw [empty, List.nil_append]⟩

theorem Assigns.found {node : RankedPopulationNodeImpl} {event : X.Event}
    {vid : UInt64} (assigns : node.Assigns event vid) :
    node.virtualPersonId event = .ok vid := by
  obtain ⟨labeling, label, applied⟩ := assigns
  obtain ⟨vid', label', found, finalEq⟩ := node.apply_ok labeling applied
  simp only [LabelerEvent.mk.injEq, List.cons.injEq,
    VirtualPersonActivity.mk.injEq, Option.some.injEq] at finalEq
  rw [finalEq.2.2.2.1.1.1]
  exact found

/-- Whatever a full labeling run returns comes with an assigned id. -/
theorem assigns_of_apply {event final : X.Event}
    (labeling : event.poolIdentityMode.getD false = false)
    (applied : node.apply event = .ok () final) :
    ∃ vid, node.Assigns event vid ∧ ∃ label,
      final.virtualPersonActivities = [⟨some vid, label⟩] := by
  obtain ⟨vid, label, -, rfl⟩ := node.apply_ok labeling applied
  exact ⟨vid, ⟨labeling, label, applied⟩, label, rfl⟩

/-- The ranked path gives the permuted rank, and every other event that gets
an id gets it on the unranked path. -/
theorem virtualPersonId_cases {event : X.Event} {vid : UInt64}
    (found : node.virtualPersonId event = .ok vid) :
    (node.IsRanked event ∧ ∃ rank permuted, rank < node.rankedSize ∧
      Feistel.permute X rank node.rankedSize node.randomSeed = .ok permuted ∧
        vid = node.poolOffset + permuted) ∨
      (¬node.IsRanked event ∧
        node.unrankedId X (event.actingFingerprint.getD 0).toInt64 =
          .ok vid) := by
  unfold virtualPersonId at found
  unfold IsRanked
  simp only at found
  split_ifs at found with unmatched
  cases lookup : node.rankAssignment event with
  | none =>
    rw [lookup] at found
    exact Or.inr ⟨by simp, found⟩
  | some rank =>
    simp only [lookup, UInt64.toUInt64_toInt64] at found
    split_ifs at found with inRanked
    · obtain ⟨permuted, permutedEq, vidEq⟩ := bind_eq_ok_iff.mp found
      exact Or.inl ⟨⟨rank, rfl, inRanked⟩, rank.localRank, permuted, inRanked,
        permutedEq, (Except.ok.inj vidEq).symm⟩
    · refine Or.inr ⟨?_, found⟩
      rintro ⟨other, same, less⟩
      exact inRanked (Option.some.inj same ▸ less)

/-! ## Where the id lies -/

/-- The size that the hash of an unranked event receives, before it is
narrowed. -/
def hashedSize : UInt64 :=
  match node.unrankedMode with
  | .disjoint => node.poolSize - node.rankedSize
  | _ => node.poolSize

theorem narrowed_le {size : UInt64} (positive : 0 < (toInt32 size).toInt) :
    (toInt32 size).toInt.toNat ≤ size.toNat := by
  have := size.toNat_lt
  rw [toInt_toInt32, Int.bmod_def] at positive ⊢
  split_ifs at positive ⊢ <;> omega

/-- The hash of a size whose narrowed value is positive. -/
theorem jumpConsistentHash_lt (key : UInt64) {size : UInt64}
    (positive : 0 < (toInt32 size).toInt) :
    (signExtend (jumpConsistentHash key (toInt32 size))).toNat <
      size.toNat := by
  rw [jumpConsistentHash_eq]
  obtain ⟨nonneg, bound⟩ := Cc.jumpConsistentHash_mem key positive
  rw [toNat_signExtend nonneg]
  have := narrowed_le positive
  omega

/-- The hash of every other size. -/
theorem jumpConsistentHash_of_nonpos (key : UInt64) {size : UInt64}
    (nonpos : ¬0 < (toInt32 size).toInt) :
    signExtend (jumpConsistentHash key (toInt32 size)) = -1 := by
  rw [jumpConsistentHash_eq,
    Cc.jumpConsistentHash_of_nonpos key (not_lt.mp nonpos),
    signExtend_neg_one]

/-- The id lies in the pool, and in DISJOINT mode past its ranked part. -/
def InUnrankedPart (vid : UInt64) : Prop :=
  vid - node.poolOffset < node.poolSize ∧
    (node.unrankedMode = .disjoint →
      ¬vid - node.poolOffset < node.rankedSize)

theorem neg_one_not_lt (size : UInt64) : ¬(-1 : UInt64) < size := by
  rw [UInt64.lt_iff_toNat_lt]
  have := size.toNat_lt
  have : (-1 : UInt64).toNat = 2 ^ 64 - 1 := by decide
  omega

/-- An unranked id is where it should be exactly when the hash got a positive
count. -/
theorem unrankedId_mem_iff {actingFingerprint : Int64} {vid : UInt64}
    (found : node.unrankedId X actingFingerprint = .ok vid) :
    node.InUnrankedPart vid ↔ 0 < (toInt32 node.hashedSize).toInt := by
  have rankedSizeLe := node.rankedSizeLe
  unfold unrankedId at found
  unfold InUnrankedPart hashedSize
  split at found
  · -- DISJOINT: without a bucket, the id is the last of the ranked part.
    rename_i disjoint
    simp only at found
    split_ifs at found with remaining
    have sizeEq : (node.poolSize - node.rankedSize).toNat =
        node.poolSize.toNat - node.rankedSize.toNat :=
      UInt64.toNat_sub_of_le _ _ (UInt64.le_iff_toNat_le.mpr rankedSizeLe)
    rw [← Except.ok.inj found, UInt64.add_assoc, add_sub_self, disjoint]
    simp only [forall_const]
    by_cases positive : 0 < (toInt32 (node.poolSize - node.rankedSize)).toInt
    · have bucketLt := jumpConsistentHash_lt
        (PopulationNodeHelper.computeVidSeed X node.randomSeed
          actingFingerprint) positive
      have poolSizeLt := node.poolSize.toNat_lt
      refine iff_of_true ?_ positive
      rw [UInt64.lt_iff_toNat_lt, UInt64.lt_iff_toNat_lt, UInt64.toNat_add,
        Nat.mod_eq_of_lt (by omega)]
      omega
    · refine iff_of_false ?_ positive
      rw [jumpConsistentHash_of_nonpos _ positive]
      rcases UInt64.le_iff_lt_or_eq.mp (UInt64.zero_le (a := node.rankedSize))
        with rankedPositive | noRanked
      · rintro ⟨-, past⟩
        apply past
        rw [UInt64.lt_iff_toNat_lt] at rankedPositive ⊢
        have below := UInt64.toNat_sub_of_le node.rankedSize 1
          (UInt64.le_iff_toNat_le.mpr (Nat.succ_le_of_lt rankedPositive))
        have oneEq : (1 : UInt64).toNat = 1 := rfl
        have zeroEq : (0 : UInt64).toNat = 0 := rfl
        rw [← UInt64.sub_eq_add_neg, below]
        omega
      · rintro ⟨inPool, -⟩
        rw [← noRanked, UInt64.zero_add] at inPool
        exact neg_one_not_lt _ inPool
  · rename_i fullPool
    rw [← Except.ok.inj found, fullPool]
    simp only [add_sub_self]
    by_cases positive : 0 < (toInt32 node.poolSize).toInt
    · refine iff_of_true ⟨?_, by simp⟩ positive
      rw [UInt64.lt_iff_toNat_lt]
      exact jumpConsistentHash_lt _ positive
    · refine iff_of_false ?_ positive
      rw [jumpConsistentHash_of_nonpos _ positive]
      exact fun inPart => neg_one_not_lt _ inPart.1
  · contradiction

/-! ## The contract of the node -/

/-- The node holds what the configuration says. -/
def IsBuiltFrom (config : RankedPopulationNode) : Prop :=
  config.pools = [⟨node.poolOffset, node.poolSize⟩] ∧
    node.rankedSize = config.rankedSize ∧
    node.unrankedMode = config.unrankedMode ∧
    node.randomSeed = config.randomSeed

theorem build_ok {nodeConfig : CompiledNode X}
    {node : RankedPopulationNodeImpl} (built : build nodeConfig = .ok node) :
    ∃ config, nodeConfig.type = .rankedPopulationNode config ∧
      node.IsBuiltFrom config := by
  unfold build at built
  split at built
  · rename_i config typeEq
    refine ⟨config, typeEq, ?_⟩
    unfold buildFromConfig at built
    split at built
    · rename_i pool poolsEq
      simp only at built
      split_ifs at built
      rw [← Except.ok.inj built]
      exact ⟨by simpa using poolsEq, by simp, rfl, rfl⟩
    · contradiction
  · contradiction

/-- Every id of a built node lies in its pool, and past the ranked part when
the node is DISJOINT and the event is unranked, exactly when the event is
ranked or the size left to the hash is still positive when it is narrowed. -/
theorem assignedId_mem_iff {nodeConfig : CompiledNode X}
    {node : RankedPopulationNodeImpl} (built : build nodeConfig = .ok node) :
    (∃ config, nodeConfig.type = .rankedPopulationNode config ∧
      node.IsBuiltFrom config) ∧
    (∀ (event final : X.Event),
      event.poolIdentityMode.getD false = false →
        node.apply event = .ok () final →
          ∃ vid, node.Assigns event vid ∧ ∃ label,
            final.virtualPersonActivities = [⟨some vid, label⟩]) ∧
    ∀ (event : X.Event) (vid : UInt64), node.Assigns event vid →
      ((vid - node.poolOffset < node.poolSize ∧
          (node.unrankedMode = .disjoint → ¬node.IsRanked event →
            ¬vid - node.poolOffset < node.rankedSize)) ↔
        node.IsRanked event ∨ 0 < (toInt32 node.hashedSize).toInt) := by
  refine ⟨build_ok built, fun event final => node.assigns_of_apply, ?_⟩
  intro event vid assigns
  rcases node.virtualPersonId_cases assigns.found with
    ⟨isRanked, rank, permuted, rankLt, permutedEq, rfl⟩ | ⟨notRanked, found⟩
  · refine iff_of_true ⟨?_, fun _ notRanked => absurd isRanked notRanked⟩
      (Or.inl isRanked)
    have permutedLt := Cc.feistelPermute_lt X node.randomSeed
      (UInt64.lt_iff_toNat_lt.mpr (Nat.zero_lt_of_lt
        (UInt64.lt_iff_toNat_lt.mp rankLt))) permutedEq
    rw [UInt64.lt_iff_toNat_lt] at permutedLt ⊢
    rw [add_sub_self]
    exact lt_of_lt_of_le permutedLt node.rankedSizeLe
  · have memIff := node.unrankedId_mem_iff found
    simpa [InUnrankedPart, notRanked] using memIff

open Cc.RankedPopulationNodeImpl (eventOfRanks)

/-- A disjoint leaf of five people, two of which are ranked. -/
def twoRankedPeople : RankedPopulationNodeImpl :=
  ⟨"seed", 2, .disjoint, 7, 5, by decide, by decide⟩

/-- The id that is found for an event with ranks is assigned to it. -/
theorem assigns_eventOfRanks {ranks : List RankAssignment} {vid : UInt64}
    (found : twoRankedPeople.virtualPersonId (X := .constant)
      (eventOfRanks ranks) = .ok vid) :
    twoRankedPeople.Assigns (X := .constant) (eventOfRanks ranks) vid := by
  refine ⟨rfl, none, ?_⟩
  rw [apply, Step.run_bind_of_ok _ (Step.run_get _)]
  change (Step.lift (twoRankedPeople.virtualPersonId _) >>= fun vid =>
    PopulationNodeHelper.addActivity Externals.constant (some vid)
      (toString vid)) _ = _
  rw [found]
  rfl

/-- A ranked event and an unranked one in a disjoint leaf. -/
theorem assignedId_mem_iff_twoRanked :
    build (X := .constant) (.mk none (.rankedPopulationNode
        ⟨[⟨7, 5⟩], "seed", 2, .disjoint⟩)) = .ok twoRankedPeople ∧
      ∃ ranked unranked : UInt64,
        twoRankedPeople.Assigns (X := .constant) (eventOfRanks [⟨7, 1⟩])
          ranked ∧
        twoRankedPeople.Assigns (X := .constant) (eventOfRanks []) unranked ∧
        ranked - 7 < 5 ∧ unranked - 7 < 5 ∧ ¬unranked - 7 < 2 := by
  have built : build (X := .constant) (.mk none (.rankedPopulationNode
      ⟨[⟨7, 5⟩], "seed", 2, .disjoint⟩)) = .ok twoRankedPeople := rfl
  obtain ⟨-, -, inPool⟩ := assignedId_mem_iff built
  have first := @assigns_eventOfRanks [⟨7, 1⟩] 8 (by decide +kernel)
  have second := @assigns_eventOfRanks [] 9 (by decide +kernel)
  have notRanked : ¬twoRankedPeople.IsRanked (X := .constant)
      (eventOfRanks []) := by
    rintro ⟨rank, found, -⟩
    cases found
  obtain ⟨ranked, -⟩ :=
    (inPool _ 8 first).mpr (.inl ⟨⟨7, 1⟩, rfl, by decide⟩)
  obtain ⟨unranked, past⟩ := (inPool _ 9 second).mpr (.inr (by decide))
  exact ⟨built, 8, 9, first, second, ranked, unranked, past rfl notRanked⟩

/-- An accepted pool of `2 ^ 31` people gives an event the number before its
first. -/
theorem assignedId_before_pool :
    ∃ node, build (X := .constant) (.mk none (.rankedPopulationNode
        ⟨[⟨7, 2147483648⟩], "seed", 0, .fullPool⟩)) = .ok node ∧
      node.Assigns Externals.constant.emptyEvent 6 ∧
        ¬(6 : UInt64) - node.poolOffset < node.poolSize := by
  refine ⟨⟨"seed", 0, .fullPool, 7, 2147483648, by decide, by decide⟩, rfl,
    ⟨rfl, none, ?_⟩, by decide⟩
  have found : (⟨"seed", 0, .fullPool, 7, 2147483648, by decide, by decide⟩ :
      RankedPopulationNodeImpl).virtualPersonId
        Externals.constant.emptyEvent = .ok 6 := by
    change Except.ok (7 + signExtend (jumpConsistentHash 0
      (toInt32 2147483648))) = _
    rw [jumpConsistentHash_of_nonpos _ (by decide)]
    rfl
  rw [apply, Step.run_bind_of_ok _ (Step.run_get _), if_neg (by decide),
    if_neg (by decide), found]
  rfl

end RankedPopulationNodeImpl

end VirtualPeople.Kotlin
