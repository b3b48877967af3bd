import VirtualPeople.Cc.People

/-!
# Ids inside of the pools

The selector returns a person as the offset of a pool plus a number, added in
64 bits.  An accepted pool can run past the end of the 64-bit range, so whether
the id is in the interval of a pool depends on how far the pool is used: up to
the count that is left when the total is narrowed to 32 bits.
-/

namespace VirtualPeople

/-- The id is in the interval of one of the pools. -/
def InPools (pools : List VirtualPersonPool) (id : UInt64) : Prop :=
  ∃ pool ∈ pools, pool.Covers id

instance (pools : List VirtualPersonPool) (id : UInt64) :
    Decidable (InPools pools id) :=
  inferInstanceAs (Decidable (∃ _ ∈ _, _))

/-! ## Pools cut at a count -/

/-- The part of a pool from its start up to a count. -/
def VirtualPersonPool.part (pool : VirtualPersonPool) (start : UInt64)
    (count : ℕ) : VirtualPersonPool where
  populationOffset := pool.populationOffset
  totalPopulation :=
    UInt64.ofNat (min pool.totalPopulation.toNat (count - start.toNat))

@[simp] theorem VirtualPersonPool.toNat_part (pool : VirtualPersonPool)
    (start : UInt64) (count : ℕ) :
    (pool.part start count).totalPopulation.toNat =
      min pool.totalPopulation.toNat (count - start.toNat) := by
  have := pool.totalPopulation.toNat_lt
  rw [part, UInt64.toNat_ofNat', Nat.mod_eq_of_lt (by omega)]

/-- The parts of consecutive pools, each of which starts at the 64-bit sum of
the sizes before it. -/
def cutFrom (count : ℕ) : UInt64 → List VirtualPersonPool →
    List VirtualPersonPool
  | _, [] => []
  | start, pool :: pools =>
    pool.part start count :: cutFrom count (start + pool.totalPopulation) pools

/-- A part has the offset of a pool, and no more people than it. -/
theorem exists_of_mem_cutFrom {count : ℕ} {start : UInt64}
    {pools : List VirtualPersonPool} {part : VirtualPersonPool}
    (member : part ∈ cutFrom count start pools) :
    ∃ pool ∈ pools, part.populationOffset = pool.populationOffset ∧
      part.totalPopulation.toNat ≤ pool.totalPopulation.toNat := by
  induction pools generalizing start with
  | nil => exact absurd member List.not_mem_nil
  | cons pool pools inductionHypothesis =>
    rcases List.mem_cons.mp member with rfl | inRest
    · refine ⟨pool, List.mem_cons_self, rfl, ?_⟩
      rw [VirtualPersonPool.toNat_part]
      exact min_le_left _ _
    · obtain ⟨found, inPools, same⟩ := inductionHypothesis inRest
      exact ⟨found, List.mem_cons_of_mem _ inPools, same⟩

/-- A part has no more people than the count. -/
theorem toNat_le_of_mem_cutFrom {count : ℕ} {start : UInt64}
    {pools : List VirtualPersonPool} {part : VirtualPersonPool}
    (member : part ∈ cutFrom count start pools) :
    part.totalPopulation.toNat ≤ count := by
  induction pools generalizing start with
  | nil => exact absurd member List.not_mem_nil
  | cons pool pools inductionHypothesis =>
    rcases List.mem_cons.mp member with rfl | inRest
    · rw [VirtualPersonPool.toNat_part]
      omega
    · exact inductionHypothesis inRest

/-- Without wrapping around, the people of the parts are the first ones. -/
theorem people_cutFrom {count : ℕ} {start : UInt64}
    {pools : List VirtualPersonPool}
    (noWrap : start.toNat + exactPopulation pools < 2 ^ 64) :
    people (cutFrom count start pools) =
      (people pools).take (count - start.toNat) := by
  induction pools generalizing start with
  | nil => simp [cutFrom, people]
  | cons pool pools inductionHypothesis =>
    rw [Cc.exactPopulation_cons] at noWrap
    have nextStart := Cc.toNat_start_add noWrap
    rw [cutFrom, people_cons, people_cons, inductionHypothesis (by omega),
      VirtualPersonPool.toNat_part, nextStart, List.take_append,
      List.length_map, List.length_range, ← List.map_take, List.take_range]
    congr 2
    · rw [Nat.min_comm]
    · omega

namespace Cc

/-- The number of people that the hash is given, if there are any. -/
def narrowedCount (pools : List VirtualPersonPool) : ℕ :=
  (toInt32 (populationSum pools)).toInt.toNat

/-- The pools that are not empty, cut at the narrowed count. -/
def cutPools (pools : List VirtualPersonPool) : List VirtualPersonPool :=
  cutFrom (narrowedCount pools) 0 (nonEmptyPools pools)

/-- The number of the person that a seed is hashed to. -/
def hashedNumber (pools : List VirtualPersonPool) (randomSeed : UInt64) : ℕ :=
  (jumpConsistentHash randomSeed (toInt32 (populationSum pools))).toInt.toNat

/-- Every number below the narrowed count is that of some seed. -/
def HashesToAll (pools : List VirtualPersonPool) : Prop :=
  ∀ number < narrowedCount pools, ∃ randomSeed,
    hashedNumber pools randomSeed = number

/-- A part has fewer people than an unsigned 31-bit number. -/
theorem toNat_lt_of_mem_cutPools {pools : List VirtualPersonPool}
    {part : VirtualPersonPool} (member : part ∈ cutPools pools) :
    part.totalPopulation.toNat < 2 ^ 31 := by
  have sizeLe := toNat_le_of_mem_cutFrom member
  have countLt := (toInt32 (populationSum pools)).toInt_lt
  unfold narrowedCount at sizeLe
  omega

/-- A compiled pool and the part of it have the same position. -/
theorem CompiledFrom.part {start total : UInt64}
    {pools : List VirtualPersonPool} {compiled : List VirtualPersonIdPool}
    (compiledFrom : CompiledFrom start pools compiled total) (count : ℕ)
    {position : ℕ} {idPool : VirtualPersonIdPool} {pool : VirtualPersonPool}
    (found : compiled[position]? = some idPool)
    (poolFound : pools[position]? = some pool) :
    (cutFrom count start pools)[position]? =
      some (pool.part idPool.populationIndexOffset count) := by
  induction compiledFrom generalizing position with
  | nil => simp at found
  | cons first rest inductionHypothesis =>
    cases position with
    | zero =>
      rw [List.getElem?_cons_zero, Option.some_inj] at found poolFound
      rw [cutFrom, List.getElem?_cons_zero, ← found, poolFound]
    | succ position =>
      rw [List.getElem?_cons_succ] at found poolFound
      rw [cutFrom, List.getElem?_cons_succ]
      exact inductionHypothesis found poolFound

namespace VirtualPersonSelector

variable {pools : List VirtualPersonPool} {selector : VirtualPersonSelector}

/-- A number below the count and the total is given an id of a part. -/
theorem lookUp_part (built : build pools = .ok selector)
    {populationIndex : UInt64}
    (indexLt : populationIndex < selector.totalPopulation) {count : ℕ}
    (countLt : populationIndex.toNat < count) :
    ∃ id, selector.lookUp populationIndex = .ok id ∧
      ∃ part ∈ cutFrom count 0 (nonEmptyPools pools), part.Contains id := by
  obtain ⟨position, idPool, pool, found, poolFound, idEq, startLe, below⟩ :=
    lookUp_found built indexLt
  obtain ⟨compiledFrom, -⟩ := build_ok built
  have startLe' := UInt64.le_iff_toNat_le.mp startLe
  refine ⟨_, idEq, _, List.mem_of_getElem?
    (compiledFrom.part count found poolFound), ?_⟩
  unfold VirtualPersonPool.Contains
  rw [VirtualPersonPool.part, UInt64.add_sub_cancel, UInt64.lt_iff_toNat_lt,
    UInt64.toNat_sub_of_le _ _ startLe]
  have size := pool.toNat_part idPool.populationIndexOffset count
  rw [VirtualPersonPool.part] at size
  rw [size]
  omega

/-- Every id that the selector of a positive count returns is one of a part. -/
theorem getVirtualPersonId_part (built : build pools = .ok selector)
    (fits : FitsInt32 pools) (randomSeed : UInt64) :
    ∃ id, selector.getVirtualPersonId randomSeed = .ok id ∧
      ∃ part ∈ cutPools pools, part.Contains id := by
  have totalEq := totalPopulation_eq built
  unfold FitsInt32 at fits
  rw [← totalEq] at fits
  obtain ⟨below, indexLt⟩ := populationIndex_lt fits randomSeed
  refine lookUp_part built indexLt ?_
  unfold narrowedCount
  rw [← totalEq]
  omega

/-- Each person of the parts is the one of all seeds that are hashed to a
number below the count. -/
theorem exists_number_of_mem (built : build pools = .ok selector)
    (fits : FitsInt32 pools) (noWrap : exactPopulation pools < 2 ^ 64)
    {id : UInt64} (member : id ∈ people (cutPools pools)) :
    ∃ number < narrowedCount pools, ∀ randomSeed,
      hashedNumber pools randomSeed = number →
        selector.getVirtualPersonId randomSeed = .ok id := by
  have totalEq := totalPopulation_eq built
  unfold cutPools at member
  rw [people_cutFrom (by simpa [exactPopulation_nonEmptyPools] using noWrap),
    people_nonEmptyPools, UInt64.toNat_zero, Nat.sub_zero] at member
  obtain ⟨number, below, person⟩ := List.mem_take_iff_getElem.mp member
  rw [lt_min_iff] at below
  refine ⟨number, below.1, fun randomSeed hashed => ?_⟩
  obtain ⟨id', idEq, person'⟩ := getVirtualPersonId_person built noWrap
    (by rwa [totalEq]) randomSeed
  unfold hashedNumber at hashed
  rw [totalEq, hashed, List.getElem?_eq_getElem below.2, person,
    Option.some_inj] at person'
  rw [idEq, person']

end VirtualPersonSelector

/-! ## Persons past the end of the range -/

/-- The pool of a person, and the number of the person in it. -/
def locate : List VirtualPersonPool → ℕ → Option (VirtualPersonPool × ℕ)
  | [], _ => none
  | pool :: pools, number =>
    if number < pool.totalPopulation.toNat then some (pool, number)
    else locate pools (number - pool.totalPopulation.toNat)

/-- Counted on from the offset of the pool, the number does not pass the end of
the 64-bit range, or wraps around to the interval of a pool. -/
def StaysInPools (pools : List VirtualPersonPool) (pool : VirtualPersonPool)
    (number : ℕ) : Prop :=
  pool.populationOffset.toNat + number < 2 ^ 64 ∨
    ∃ other ∈ pools,
      other.populationOffset.toNat + 2 ^ 64 ≤
          pool.populationOffset.toNat + number ∧
        pool.populationOffset.toNat + number <
          other.populationOffset.toNat + other.totalPopulation.toNat + 2 ^ 64

instance (pools : List VirtualPersonPool) (pool : VirtualPersonPool)
    (number : ℕ) : Decidable (StaysInPools pools pool number) :=
  inferInstanceAs (Decidable (_ ∨ ∃ _ ∈ _, _))

/-- The person with a number is the one it is located at. -/
theorem locate_spec {pools : List VirtualPersonPool} {number : ℕ}
    {id : UInt64} (found : (people pools)[number]? = some id) :
    ∃ pool ∈ pools, ∃ inPool < pool.totalPopulation.toNat,
      locate pools number = some (pool, inPool) ∧ id = pool.person inPool := by
  induction pools generalizing number with
  | nil => simp [people] at found
  | cons pool pools inductionHypothesis =>
    unfold locate
    split_ifs with inPool
    · rw [getElem?_people_of_lt pools inPool, Option.some_inj] at found
      exact ⟨pool, List.mem_cons_self, number, inPool, rfl, found.symm⟩
    · rw [getElem?_people_of_le pools (not_lt.mp inPool)] at found
      obtain ⟨other, member, rest⟩ := inductionHypothesis found
      exact ⟨other, List.mem_cons_of_mem _ member, rest⟩

/-- The id of a person that does not leave the pools is in one of them. -/
theorem inPools_person_iff {pools : List VirtualPersonPool}
    {pool : VirtualPersonPool} (member : pool ∈ pools) {number : ℕ}
    (inPool : number < pool.totalPopulation.toNat) :
    InPools pools (pool.person number) ↔ StaysInPools pools pool number := by
  have sizeLt := pool.totalPopulation.toNat_lt
  have offsetLt := pool.populationOffset.toNat_lt
  unfold InPools StaysInPools VirtualPersonPool.Covers
  rw [pool.toNat_person]
  rcases lt_or_ge (pool.populationOffset.toNat + number) (2 ^ 64) with
    inside | past
  · rw [Nat.mod_eq_of_lt inside]
    exact iff_of_true ⟨pool, member, by omega⟩ (.inl inside)
  · rw [Nat.mod_eq_sub_mod past, Nat.mod_eq_of_lt (by omega)]
    constructor
    · rintro ⟨other, otherMember, lower, upper⟩
      exact .inr ⟨other, otherMember, by omega⟩
    · rintro (inside | ⟨other, otherMember, lower, upper⟩)
      · omega
      · exact ⟨other, otherMember, by omega⟩

/-- The ids of a part are ids of the pools, if its persons stay in them. -/
theorem inPools_of_part {pools : List VirtualPersonPool} {count : ℕ}
    {start : UInt64} {part : VirtualPersonPool}
    (member : part ∈ cutFrom count start (nonEmptyPools pools))
    (stays : ∀ number < part.totalPopulation.toNat,
      StaysInPools pools part number)
    {id : UInt64} (contains : part.Contains id) : InPools pools id := by
  obtain ⟨pool, poolMember, offsetEq, sizeLe⟩ := exists_of_mem_cutFrom member
  unfold VirtualPersonPool.Contains at contains
  rw [UInt64.lt_iff_toNat_lt] at contains
  have staysInPools := stays _ contains
  have idEq : pool.person (id - part.populationOffset).toNat = id := by
    rw [VirtualPersonPool.person, UInt64.ofNat_toNat, ← offsetEq,
      UInt64.add_comm, UInt64.sub_add_cancel]
  rw [← idEq, inPools_person_iff (List.mem_of_mem_filter poolMember)
    (lt_of_lt_of_le contains sizeLe)]
  unfold StaysInPools at staysInPools ⊢
  rwa [← offsetEq]

/-- No person of the pools, cut at the count that the hash is given, leaves
the intervals of the pools. -/
def KeepsInPools (pools : List VirtualPersonPool) : Prop :=
  ∀ part ∈ cutPools pools, ∀ number < part.totalPopulation.toNat,
    StaysInPools pools part number

/-- None does if no part runs past the end of the 64-bit range. -/
theorem keepsInPools_of_noWrap {pools : List VirtualPersonPool}
    (noWrap : ∀ part ∈ cutPools pools, part.populationOffset.toNat +
      part.totalPopulation.toNat ≤ 2 ^ 64) : KeepsInPools pools := by
  intro part member number inPart
  have := noWrap part member
  exact .inl (by omega)

/-! ## Containment -/

/-- The seed is given an id in the interval of one of the pools. -/
def VirtualPersonSelector.GivesIdIn (selector : VirtualPersonSelector)
    (pools : List VirtualPersonPool) (randomSeed : UInt64) : Prop :=
  ∃ id, selector.getVirtualPersonId randomSeed = .ok id ∧ InPools pools id

/-- Whether the seed is given an id of the pools is seen from the id. -/
theorem VirtualPersonSelector.givesIdIn_iff {selector : VirtualPersonSelector}
    {pools : List VirtualPersonPool} {randomSeed id : UInt64}
    (returned : selector.getVirtualPersonId randomSeed = .ok id) :
    selector.GivesIdIn pools randomSeed ↔ InPools pools id := by
  constructor
  · rintro ⟨other, otherReturned, inPools⟩
    rwa [Except.ok.inj (returned.symm.trans otherReturned)]
  · exact fun inPools => ⟨id, returned, inPools⟩

/-- A part has the persons of a pool with more people. -/
theorem staysInPools_of_part {pools : List VirtualPersonPool} {count : ℕ}
    {start : UInt64} {part : VirtualPersonPool}
    (member : part ∈ cutFrom count start (nonEmptyPools pools)) {number : ℕ}
    (inPart : number < part.totalPopulation.toNat)
    (inPools : InPools pools (part.person number)) :
    StaysInPools pools part number := by
  obtain ⟨pool, poolMember, offsetEq, sizeLe⟩ := exists_of_mem_cutFrom member
  have samePerson : part.person number = pool.person number := by
    unfold VirtualPersonPool.person
    rw [offsetEq]
  rw [samePerson, inPools_person_iff (List.mem_of_mem_filter poolMember)
    (lt_of_lt_of_le inPart sizeLe)] at inPools
  unfold StaysInPools at inPools ⊢
  rwa [offsetEq]

namespace PopulationNodeImpl

variable {X : Externals}

/-- When an accepted node gives the seeds ids of the intervals of its pools.
With a positive narrowed count it does if no person below that count leaves the
pools by wrapping around.  While the sizes do not add up to `2 ^ 64`, this is
necessary if every number below the count is hashed to, and a seed is given
such an id exactly if the person it is hashed to stays in the pools.  Otherwise
every seed gives one number, which can happen to be in a pool. -/
theorem contained_iff {index : Option UInt32} {config : PopulationNode}
    {node : PopulationNodeImpl}
    (built : build (X := X) (.mk index (.populationNode config)) = .ok node) :
    (FitsInt32 config.pools → KeepsInPools config.pools → ∀ randomSeed,
      node.virtualPersonSelector.GivesIdIn config.pools randomSeed) ∧
    (FitsInt32 config.pools → exactPopulation config.pools < 2 ^ 64 →
      HashesToAll config.pools →
        (∀ randomSeed,
          node.virtualPersonSelector.GivesIdIn config.pools randomSeed) →
            KeepsInPools config.pools) ∧
    (FitsInt32 config.pools → exactPopulation config.pools < 2 ^ 64 →
      ∀ randomSeed,
        (node.virtualPersonSelector.GivesIdIn config.pools randomSeed ↔
          ∃ pool number, locate config.pools
              (hashedNumber config.pools randomSeed) = some (pool, number) ∧
            StaysInPools config.pools pool number)) ∧
    (¬FitsInt32 config.pools → ∀ randomSeed,
      (node.virtualPersonSelector.GivesIdIn config.pools randomSeed ↔
        ∃ id ∈ wrappedId config.pools, InPools config.pools id)) := by
  obtain ⟨-, selectorBuilt, -⟩ := build_ok built
  have totalEq := VirtualPersonSelector.totalPopulation_eq selectorBuilt
  refine ⟨fun fits keeps randomSeed => ?_, fun fits noWrap hashesToAll gives =>
    ?_, fun fits noWrap randomSeed => ?_, fun unfitting randomSeed => ?_⟩
  · obtain ⟨id, idEq, part, member, contains⟩ :=
      VirtualPersonSelector.getVirtualPersonId_part selectorBuilt fits
        randomSeed
    exact ⟨id, idEq, inPools_of_part member (keeps part member) contains⟩
  · intro part member number inPart
    obtain ⟨hashed, below, returns⟩ := VirtualPersonSelector.exists_number_of_mem
      selectorBuilt fits noWrap
        (mem_people.mpr ⟨part, member, number, inPart, rfl⟩)
    obtain ⟨randomSeed, seedEq⟩ := hashesToAll hashed below
    exact staysInPools_of_part member inPart
      ((VirtualPersonSelector.givesIdIn_iff (returns randomSeed seedEq)).mp
        (gives randomSeed))
  · obtain ⟨id, idEq, person⟩ := VirtualPersonSelector.getVirtualPersonId_person
      selectorBuilt noWrap (by rwa [totalEq]) randomSeed
    rw [totalEq] at person
    obtain ⟨pool, member, number, inPool, located, same⟩ := locate_spec person
    unfold hashedNumber
    rw [located, VirtualPersonSelector.givesIdIn_iff idEq, same,
      inPools_person_iff member inPool]
    constructor
    · exact fun stays => ⟨pool, number, rfl, stays⟩
    · rintro ⟨_, _, samePerson, stays⟩
      obtain ⟨samePool, sameNumber⟩ :=
        Prod.mk.inj (Option.some.inj samePerson)
      rwa [samePool, sameNumber]
  · obtain ⟨id, idEq, cases⟩ := getVirtualPersonId_cases built randomSeed
    rcases cases with ⟨fits, -⟩ | ⟨-, wrapped⟩
    · exact absurd fits unfitting
    · rw [VirtualPersonSelector.givesIdIn_iff idEq, wrapped]
      constructor
      · exact fun inPools => ⟨id, rfl, inPools⟩
      · rintro ⟨_, sameId, inPools⟩
        rwa [Option.some.inj sameId]

/-- A pool of ten people keeps every seed, a pool of `2 ^ 31` none, and one of
two people that starts at the last 64-bit number keeps only the seeds that are
hashed to its first person. -/
theorem contained_iff_ten :
    (∃ node, build (X := .constant) (.mk none (.populationNode
        ⟨[⟨100, 10⟩], "seed"⟩)) = .ok node ∧
      ∀ randomSeed,
        node.virtualPersonSelector.GivesIdIn [⟨100, 10⟩] randomSeed) ∧
    (∃ node, build (X := .constant) (.mk none (.populationNode
        ⟨[⟨18446744073709551615, 2⟩], "seed"⟩)) = .ok node ∧
      node.virtualPersonSelector.GivesIdIn [⟨18446744073709551615, 2⟩] 0 ∧
      ¬node.virtualPersonSelector.GivesIdIn [⟨18446744073709551615, 2⟩] 4) ∧
    (∃ node, build (X := .constant) (.mk none (.populationNode
        ⟨[⟨0, 2147483648⟩], "seed"⟩)) = .ok node ∧
      ∀ randomSeed,
        ¬node.virtualPersonSelector.GivesIdIn [⟨0, 2147483648⟩]
          randomSeed) := by
  refine ⟨⟨⟨⟨10, [⟨100, 0⟩]⟩, "seed"⟩, rfl, ?_⟩,
    ⟨⟨⟨2, [⟨18446744073709551615, 0⟩]⟩, "seed"⟩, rfl, ?_, ?_⟩,
    ⟨⟨⟨2147483648, [⟨0, 0⟩]⟩, "seed"⟩, rfl, fun randomSeed => ?_⟩⟩
  · exact (@contained_iff .constant none ⟨[⟨100, 10⟩], "seed"⟩ _ rfl).1
      (by decide) (keepsInPools_of_noWrap (by decide))
  · exact ((@contained_iff .constant none
      ⟨[⟨18446744073709551615, 2⟩], "seed"⟩ _ rfl).2.2.1
      (by decide) (by decide) 0).mpr
        ⟨⟨18446744073709551615, 2⟩, 0, by decide +kernel, .inl (by decide)⟩
  · intro gives
    -- The numbers 0 and 1 are those of the seeds 0 and 4.
    refine absurd ((@contained_iff .constant none
      ⟨[⟨18446744073709551615, 2⟩], "seed"⟩ _ rfl).2.2.1
      (by decide) (by decide) 4 |>.mp gives) ?_
    have second : locate [⟨18446744073709551615, 2⟩]
        (hashedNumber [⟨18446744073709551615, 2⟩] 4) =
        some (⟨18446744073709551615, 2⟩, 1) := by decide +kernel
    rintro ⟨pool, number, located, stays⟩
    rw [second] at located
    obtain ⟨rfl, rfl⟩ := Prod.mk.inj (Option.some.inj located)
    exact absurd stays (by decide)
  · exact mt ((@contained_iff .constant none ⟨[⟨0, 2147483648⟩], "seed"⟩ _
      rfl).2.2.2 (by decide) randomSeed).mp (by decide)

/-- An accepted pool of `2 ^ 31` people gives an id far outside of it. -/
theorem not_contained_two_pow_31 :
    ∃ node, build (X := .constant) (.mk none (.populationNode
        ⟨[⟨0, 2147483648⟩], "seed"⟩)) = .ok node ∧
      node.virtualPersonSelector.getVirtualPersonId 0 =
          .ok 18446744073709551615 ∧
        ¬InPools [⟨0, 2147483648⟩] 18446744073709551615 := by
  refine ⟨⟨⟨2147483648, [⟨0, 0⟩]⟩, "seed"⟩, rfl, ?_, by decide⟩
  obtain ⟨id, idEq, cases⟩ := @getVirtualPersonId_cases .constant none
    ⟨[⟨0, 2147483648⟩], "seed"⟩ ⟨⟨2147483648, [⟨0, 0⟩]⟩, "seed"⟩ rfl 0
  rcases cases with ⟨fits, -⟩ | ⟨-, wrapped⟩
  · exact absurd fits (by decide)
  · rw [idEq, ← Option.some.inj wrapped]
    rfl

end PopulationNodeImpl

end Cc

end VirtualPeople
