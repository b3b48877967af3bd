import VirtualPeople.Cc.RoutingAgreement

/-!
# Two passes with ranks

The first pass collects the pool assignments of all inputs, a ranking gives
each of them a rank within its pool, and the second pass labels each input with
the ranks of its own assignments.  A leaf finds its rank by the offset of its
pool, so that two assignments of one input with the same offset share the first
rank; where that does not happen, ranked people of one leaf never share an id.
-/

namespace VirtualPeople.Cc

variable {X : Externals}

/-- One rank assignment for each pool assignment, in order. -/
def assignRanks (assignments : List PoolAssignment) (localRanks : List UInt64) :
    List RankAssignment :=
  (assignments.zip localRanks).map fun (assignment, localRank) =>
    ⟨assignment.poolOffset, localRank⟩

/-- Both passes over one input, and the leaves that create the people of the
second one. -/
structure TwoPassRun (labeler : Labeler X) where
  input : X.Input
  first : LabelerOutput X
  firstPass : labeler.label input .poolIdentity = .ok first
  localRanks : List UInt64
  localRanksLength : localRanks.length = first.poolAssignments.length
  second : LabelerOutput X
  secondPass : labeler.label
    (withRanks input (assignRanks first.poolAssignments localRanks)) .full =
      .ok second
  visits : List (Visit X)
  routed : labeler.route
    (withRanks input (assignRanks first.poolAssignments localRanks)) .full =
      .ok visits
  people : List (List X.Activity)
  created : List.Forall₂
    (fun visit people => Visit.people visit = .ok people) visits people
  peopleEq : second.people = people.flatten

/-- A person of a ranked leaf, with the rank its pool assignment was given. -/
structure RankedPerson (X : Externals) where
  node : RankedPopulationNodeImpl
  localRank : UInt64
  person : X.Activity

/-- The rank that the person was given in the pool of the leaf. -/
def RankedPerson.rank (person : RankedPerson X) : RankAssignment :=
  ⟨person.node.poolOffset, person.localRank⟩

/-- If both are ranked people of one leaf, then their ids differ. -/
def RankedPerson.Distinct (first second : RankedPerson X) : Prop :=
  first.node = second.node → first.localRank < first.node.rankedSize →
    second.localRank < second.node.rankedSize →
      first.person.virtualPersonId ≠ second.person.virtualPersonId

namespace TwoPassRun

variable {labeler : Labeler X} (run : TwoPassRun labeler)

/-- The rank assignments of the second pass. -/
def rankAssignments : List RankAssignment :=
  assignRanks run.first.poolAssignments run.localRanks

/-- The people that the ranked leaves create in the second pass, with the ranks
of the assignments that the first pass emitted for them. -/
def rankedPeople : List (RankedPerson X) :=
  ((Cc.rankedPeople run.visits run.people).zip run.localRanks).map
    fun ((node, person), localRank) => ⟨node, localRank, person⟩

end TwoPassRun

/-- The conditions and updaters of the branch are neutral. -/
structure BranchNodeImpl.NeutralSelection
    (impl : BranchNodeImpl X (ModelNode X)) : Prop where
  conditions : ∀ matcher ∈ impl.matcher, matcher.Neutral
  updaters : ∀ updater ∈ impl.updaters,
    NeutralUpdate (ModelNode.updateEvent updater)

/-- A neutral selection is neutral if the fields of numbers are. -/
theorem BranchNodeImpl.NeutralSelection.neutral
    {impl : BranchNodeImpl X (ModelNode X)} (selection : impl.NeutralSelection)
    (fields : NeutralNumberFields X) : impl.Neutral ModelNode.updateEvent :=
  ⟨selection.conditions, selection.updaters,
    fun multiplicity _ => fields.multiplicity multiplicity⟩

/-- Two successful passes are a run. -/
theorem TwoPassRun.exists_of_passes {labeler : Labeler X}
    (neutral : labeler.root.NeutralRoutes) {input : X.Input}
    {first second : LabelerOutput X} {localRanks : List UInt64}
    (firstPass : labeler.label input .poolIdentity = .ok first)
    (localRanksLength : localRanks.length = first.poolAssignments.length)
    (secondPass : labeler.label
      (withRanks input (assignRanks first.poolAssignments localRanks)) .full =
        .ok second) :
    ∃ run : TwoPassRun labeler, run.input = input ∧ run.first = first ∧
      run.localRanks = localRanks ∧ run.second = second := by
  obtain ⟨visits, people, routed, created, peopleEq⟩ :=
    Labeler.label_full neutral secondPass
  exact ⟨⟨input, first, firstPass, localRanks, localRanksLength, second,
    secondPass, visits, routed, people, created, peopleEq⟩, rfl, rfl, rfl, rfl⟩

/-- A first pass and the people of the second one are a run. -/
theorem TwoPassRun.exists_of_created {labeler : Labeler X}
    (neutral : labeler.root.NeutralRoutes) {input : X.Input}
    {first : LabelerOutput X} {localRanks : List UInt64}
    (firstPass : labeler.label input .poolIdentity = .ok first)
    (localRanksLength : localRanks.length = first.poolAssignments.length)
    {visits : List (Visit X)}
    (routed : labeler.route
      (withRanks input (assignRanks first.poolAssignments localRanks)) .full =
        .ok visits)
    {people : List (List X.Activity)}
    (created : List.Forall₂
      (fun visit people => Visit.people visit = .ok people) visits people) :
    ∃ run : TwoPassRun labeler, run.input = input ∧ run.first = first ∧
      run.localRanks = localRanks ∧ run.visits = visits ∧
      run.people = people := by
  obtain ⟨second, secondPass⟩ := Labeler.label_of_created neutral routed created
  obtain ⟨visits', people', routed', created', peopleEq⟩ :=
    Labeler.label_full neutral secondPass
  obtain rfl := Except.ok.inj (routed.symm.trans routed')
  obtain rfl := Except.ok.inj ((mapM_eq_ok_iff.mpr created).symm.trans
    (mapM_eq_ok_iff.mpr created'))
  exact ⟨⟨input, first, firstPass, localRanks, localRanksLength, second,
    secondPass, visits, routed, people, created, peopleEq⟩,
    rfl, rfl, rfl, rfl, rfl⟩

/-- No pool offset is announced twice on the route of the input. -/
def Labeler.ReachesPoolsOnce (labeler : Labeler X) (input : X.Input) : Prop :=
  ∀ visits, labeler.route input .poolIdentity = .ok visits →
    ((visits.flatMap fun visit => visit.leaf.announced).map
      PoolAssignment.poolOffset).Nodup

/-! ## One run -/

/-- A ranked person was created by a ranked leaf that was visited. -/
theorem rankedPeople_cases {visits : List (Visit X)}
    {people : List (List X.Activity)}
    (created : List.Forall₂
      (fun visit people => Visit.people visit = .ok people) visits people)
    {node : RankedPopulationNodeImpl} {person : X.Activity}
    (member : (node, person) ∈ rankedPeople visits people) :
    ∃ visit ∈ visits, ∃ vid, visit.leaf = .rankedPopulationNode node ∧
      node.virtualPersonId visit.event = .ok vid ∧
        person.virtualPersonId = some vid := by
  induction created with
  | nil => exact absurd member List.not_mem_nil
  | @cons visit people visits peoples head _ inductionHypothesis =>
    obtain ⟨leaf, event⟩ := visit
    rcases List.mem_append.mp member with inHead | inRest
    · cases leaf with
      | stopNode => exact absurd inHead List.not_mem_nil
      | populationNode other => exact absurd inHead List.not_mem_nil
      | rankedPopulationNode other =>
        obtain ⟨vid, label, found, -, rfl⟩ := createdPerson_ok_iff.mp head
        obtain ⟨rfl, rfl⟩ := Prod.mk.inj (List.mem_singleton.mp inHead)
        exact ⟨⟨.rankedPopulationNode node, event⟩, List.mem_cons_self, vid, rfl,
          found, rfl⟩
    · obtain ⟨visit, visitMember, found⟩ := inductionHypothesis inRest
      exact ⟨visit, List.mem_cons_of_mem _ visitMember, found⟩

/-- The ranks are those of the announced pools. -/
theorem map_rank_of_announces {assignments : List PoolAssignment}
    {entries : List (RankedPopulationNodeImpl × X.Activity)}
    (announces : List.Forall₂ AnnouncesPerson assignments entries)
    (localRanks : List UInt64) :
    (entries.zip localRanks).map (fun ((node, _), localRank) =>
        (⟨node.poolOffset, localRank⟩ : RankAssignment)) =
      assignRanks assignments localRanks := by
  unfold assignRanks
  induction announces generalizing localRanks with
  | nil => rfl
  | cons head _ inductionHypothesis =>
    cases localRanks with
    | nil => rfl
    | cons localRank localRanks =>
      simp only [List.zip_cons_cons, List.map_cons, inductionHypothesis,
        head.1, RankedPopulationNodeImpl.poolAssignment]

namespace TwoPassRun

variable {labeler : Labeler X} (run : TwoPassRun labeler)

/-- The ranks of the ranked people are the rank assignments. -/
theorem map_rank_rankedPeople (neutral : labeler.root.NeutralRoutes) :
    run.rankedPeople.map RankedPerson.rank = run.rankAssignments := by
  rw [rankedPeople, List.map_map]
  exact map_rank_of_announces
    (Labeler.label_announces neutral run.firstPass run.routed run.created)
    run.localRanks

/-- When no offset repeats, the rank for an offset is the only one. -/
theorem eq_of_poolOffset_eq (neutral : labeler.root.NeutralRoutes)
    (once : labeler.ReachesPoolsOnce run.input) {rank rank' : RankAssignment}
    (member : rank ∈ run.rankAssignments)
    (member' : rank' ∈ run.rankAssignments)
    (same : rank.poolOffset = rank'.poolOffset) : rank = rank' := by
  obtain ⟨visits, routed, -, announced⟩ :=
    (Labeler.label_poolIdentity neutral).ok_of_ok run.firstPass
  have offsetsEq : run.rankAssignments.map RankAssignment.poolOffset =
      run.first.poolAssignments.map PoolAssignment.poolOffset := by
    rw [rankAssignments, assignRanks, List.map_map]
    calc (run.first.poolAssignments.zip run.localRanks).map
          (fun entry => entry.1.poolOffset)
        = ((run.first.poolAssignments.zip run.localRanks).map Prod.fst).map
            PoolAssignment.poolOffset := by rw [List.map_map]; rfl
      _ = run.first.poolAssignments.map PoolAssignment.poolOffset := by
          rw [List.map_fst_zip run.localRanksLength.ge]
  have nodup := once visits routed
  rw [← announced, ← offsetsEq] at nodup
  exact List.inj_on_of_nodup_map nodup member member' same

/-- The event of a ranked person finds the rank that was given to it. -/
theorem exists_lookupRank_of_mem (neutral : labeler.root.NeutralRoutes)
    (once : labeler.ReachesPoolsOnce run.input) {person : RankedPerson X}
    (member : person ∈ run.rankedPeople) :
    ∃ (event : X.Event) (vid : UInt64),
      person.node.virtualPersonId event = .ok vid ∧
      person.person.virtualPersonId = some vid ∧
      person.node.lookupRank event = some person.rank := by
  have assigned : person.rank ∈ run.rankAssignments := by
    rw [← run.map_rank_rankedPeople neutral]
    exact List.mem_map_of_mem member
  obtain ⟨⟨⟨node, activity⟩, localRank⟩, zipped, rfl⟩ := List.mem_map.mp member
  obtain ⟨visit, visitMember, vid, -, found, vidEq⟩ :=
    rankedPeople_cases run.created (List.of_mem_zip zipped).1
  have ranksEq : RankedPopulationNodeImpl.rankAssignments visit.event =
      run.rankAssignments :=
    congrArg ControlFields.rankAssignments
      (Labeler.controlFields_of_route neutral run.routed visitMember)
  refine ⟨visit.event, vid, found, vidEq, ?_⟩
  obtain ⟨rank, rankEq⟩ : ∃ rank, node.lookupRank visit.event = some rank :=
    Option.isSome_iff_exists.mp (List.find?_isSome.mpr
      ⟨_, ranksEq ▸ assigned, beq_iff_eq.mpr rfl⟩)
  have rankMember : rank ∈ run.rankAssignments :=
    ranksEq ▸ List.mem_of_find?_eq_some rankEq
  have rankOffset := List.find?_some rankEq
  rw [rankEq, run.eq_of_poolOffset_eq neutral once rankMember assigned
    (beq_iff_eq.mp rankOffset)]

/-- The rank of a ranked person decides its id. -/
theorem rankedId_of_mem (neutral : labeler.root.NeutralRoutes)
    (once : labeler.ReachesPoolsOnce run.input) {person : RankedPerson X}
    (member : person ∈ run.rankedPeople)
    (inRanked : person.localRank < person.node.rankedSize) :
    ∃ vid, person.person.virtualPersonId = some vid ∧
      person.node.rankedId X person.localRank = .ok vid := by
  obtain ⟨event, vid, found, vidEq, lookup⟩ :=
    run.exists_lookupRank_of_mem neutral once member
  rcases person.node.virtualPersonId_cases found with
    ⟨rank, rankEq, -, idEq⟩ | ⟨notRanked, -⟩
  · rw [lookup, Option.some_inj] at rankEq
    rw [← rankEq] at idEq
    exact ⟨vid, vidEq, idEq⟩
  · exact absurd ⟨_, lookup, inRanked⟩ notRanked

end TwoPassRun

/-! ## All runs -/

/-- People of one leaf with different ranks have different ids. -/
theorem RankedPerson.distinct_of_rank_ne {first second : RankedPerson X}
    (different : first.rank ≠ second.rank)
    (firstId : first.localRank < first.node.rankedSize →
      ∃ vid, first.person.virtualPersonId = some vid ∧
        first.node.rankedId X first.localRank = .ok vid)
    (secondId : second.localRank < second.node.rankedSize →
      ∃ vid, second.person.virtualPersonId = some vid ∧
        second.node.rankedId X second.localRank = .ok vid) :
    first.Distinct second := by
  intro sameNode inRanked inRanked' sameId
  obtain ⟨vid, vidEq, found⟩ := firstId inRanked
  obtain ⟨vid', vidEq', found'⟩ := secondId inRanked'
  obtain rfl : vid = vid' :=
    Option.some_inj.mp (vidEq.symm.trans (sameId.trans vidEq'))
  obtain ⟨node, localRank, person⟩ := first
  obtain ⟨node', localRank', person'⟩ := second
  obtain rfl : node = node' := sameNode
  have sameRank : localRank = localRank' :=
    node.rankedId_injective inRanked inRanked' found found'
  exact different (congrArg (RankAssignment.mk node.poolOffset) sameRank)

/-- When the ranks of all assignments differ within each pool and no input
announces a pool offset twice, ranked people of one leaf have different ids. -/
theorem two_pass_ids_distinct {labeler : Labeler X}
    (fields : NeutralNumberFields X)
    (neutral : labeler.root.EveryBranch BranchNodeImpl.NeutralSelection)
    (runs : List (TwoPassRun labeler))
    (ranks : (runs.flatMap TwoPassRun.rankAssignments).Nodup)
    (once : ∀ run ∈ runs, labeler.ReachesPoolsOnce run.input) :
    (runs.flatMap TwoPassRun.rankedPeople).Pairwise RankedPerson.Distinct := by
  have routes : labeler.root.NeutralRoutes :=
    neutral.mono fun _ selection => selection.neutral fields
  have ids : ∀ person ∈ runs.flatMap TwoPassRun.rankedPeople,
      person.localRank < person.node.rankedSize →
        ∃ vid, person.person.virtualPersonId = some vid ∧
          person.node.rankedId X person.localRank = .ok vid := by
    intro person member
    obtain ⟨run, runMember, personMember⟩ := List.mem_flatMap.mp member
    exact run.rankedId_of_mem routes (once run runMember) personMember
  have ranksEq : (runs.flatMap TwoPassRun.rankedPeople).map RankedPerson.rank =
      runs.flatMap TwoPassRun.rankAssignments := by
    rw [List.map_flatMap]
    exact List.flatMap_congr fun run _ => run.map_rank_rankedPeople routes
  rw [← ranksEq, List.Nodup, List.pairwise_map] at ranks
  exact ranks.imp_of_mem fun firstMember secondMember different =>
    RankedPerson.distinct_of_rank_ne different (ids _ firstMember)
      (ids _ secondMember)

theorem neutralNumberFields_constant : NeutralNumberFields .constant where
  read _ _ _ := rfl
  write _ _ _ := ⟨fun _ => rfl, fun _ => rfl⟩

open RankedPopulationNodeImpl (twoRankedPeople)

/-- A labeler with one leaf, two people of which are ranked. -/
def twoRankedLabeler : Labeler .constant :=
  ⟨.leafNode (.rankedPopulationNode twoRankedPeople)⟩

/-- The event of the second pass over an empty input. -/
def eventWithRank (localRank : UInt64) : Externals.constant.Event :=
  Labeler.prepareEvent
    (withRanks Externals.constant.emptyInput [⟨7, localRank⟩]) .full

/-- The run over an empty input, whose person is given the rank. -/
theorem exists_run_of_id {localRank vid : UInt64}
    (found : twoRankedPeople.virtualPersonId (eventWithRank localRank) =
      .ok vid) :
    ∃ run : TwoPassRun twoRankedLabeler,
      run.rankAssignments = [⟨7, localRank⟩] ∧
      run.rankedPeople = [⟨twoRankedPeople, localRank, ⟨some vid, none⟩⟩] ∧
      twoRankedLabeler.ReachesPoolsOnce run.input := by
  obtain ⟨run, inputEq, firstEq, ranksEq, visitsEq, peopleEq⟩ :=
    @TwoPassRun.exists_of_created .constant twoRankedLabeler (.leafNode _)
      Externals.constant.emptyInput ⟨[], [⟨7, 4, 2⟩], none⟩ [localRank] rfl rfl
      [⟨.rankedPopulationNode twoRankedPeople, eventWithRank localRank⟩] rfl _
      (.cons (createdPerson_ok_iff.mpr ⟨_, none, found, rfl, rfl⟩) .nil)
  refine ⟨run, ?_, ?_, ?_⟩
  · rw [TwoPassRun.rankAssignments, firstEq, ranksEq]
    rfl
  · rw [TwoPassRun.rankedPeople, visitsEq, peopleEq, ranksEq]
    rfl
  · intro visits routed
    rw [inputEq] at routed
    rw [← Except.ok.inj routed]
    exact List.nodup_singleton _

/-- The contract for three inputs that reach one leaf, of which the last one is
given a rank past the ranked people. -/
theorem two_pass_ids_distinct_three :
    ∃ runs : List (TwoPassRun twoRankedLabeler),
      runs.flatMap TwoPassRun.rankAssignments = [⟨7, 0⟩, ⟨7, 1⟩, ⟨7, 3⟩] ∧
      (runs.flatMap TwoPassRun.rankedPeople).length = 3 ∧
      (runs.flatMap TwoPassRun.rankedPeople).Pairwise
        RankedPerson.Distinct := by
  have neutral : twoRankedLabeler.root.EveryBranch
      BranchNodeImpl.NeutralSelection := .leafNode _
  obtain ⟨first, firstRank, firstPeople, firstOnce⟩ :=
    @exists_run_of_id 0 7 (by decide +kernel)
  obtain ⟨second, secondRank, secondPeople, secondOnce⟩ :=
    @exists_run_of_id 1 8 (by decide +kernel)
  obtain ⟨third, thirdRank, thirdPeople, thirdOnce⟩ :=
    @exists_run_of_id 3 9 (by decide +kernel)
  have ranksEq : [first, second, third].flatMap TwoPassRun.rankAssignments =
      [⟨7, 0⟩, ⟨7, 1⟩, ⟨7, 3⟩] := by
    simp [firstRank, secondRank, thirdRank]
  refine ⟨[first, second, third], ranksEq,
    by simp [firstPeople, secondPeople, thirdPeople], ?_⟩
  exact two_pass_ids_distinct neutralNumberFields_constant neutral
    [first, second, third] (by rw [ranksEq]; decide)
    (by simp [firstOnce, secondOnce, thirdOnce])

/-- Two clones that reach one leaf share the first of their ranks. -/
theorem two_pass_ids_collide :
    let node : RankedPopulationNodeImpl :=
      ⟨"seed", 2, .disjoint, 7, 2, by decide, by decide, by decide⟩
    let labeler : Labeler .constant := ⟨.branchNode
      ⟨[.leafNode (.rankedPopulationNode node)], none, "", some ⟨[()]⟩, [],
        some ⟨.explicitValue 2.0, true, 2.0, (), "", rfl⟩⟩⟩
    Labeler.build (X := .constant) (.mk none (.branchNode
      ⟨[⟨.node (.mk none (.rankedPopulationNode
        ⟨[⟨7, 2⟩], "seed", 2, .disjoint⟩)), .condition ()⟩], "",
        .multiplicity ⟨.expectedMultiplicity 2.0, some "person_index",
          some 2.0, some true, some ""⟩⟩)) = .ok labeler ∧
    NeutralNumberFields .constant ∧
    labeler.root.EveryBranch BranchNodeImpl.NeutralSelection ∧
    ∃ run : TwoPassRun labeler, run.input.rankAssignments = [] ∧
      run.rankAssignments = [⟨7, 0⟩, ⟨7, 1⟩] ∧
      (∃ vid, run.rankedPeople =
        [⟨node, 0, ⟨some vid, none⟩⟩, ⟨node, 1, ⟨some vid, none⟩⟩]) ∧
      ¬run.rankedPeople.Pairwise RankedPerson.Distinct := by
  intro node labeler
  have neutral : labeler.root.EveryBranch BranchNodeImpl.NeutralSelection := by
    refine .branchNode ⟨?_, ?_⟩ ?_
    · rintro matcher ⟨⟩ filter _ event
      rfl
    · rintro updater ⟨⟩
    · intro child member
      rw [List.mem_singleton.mp member]
      exact .leafNode _
  refine ⟨rfl, neutralNumberFields_constant, neutral, ?_⟩
  let event : Externals.constant.Event :=
    { Labeler.prepareEvent (withRanks Externals.constant.emptyInput
        [⟨7, 0⟩, ⟨7, 1⟩]) .full with actingFingerprint := some 0 }
  obtain ⟨permuted, permutedEq⟩ := @feistelPermute_isOk .constant node.randomSeed
    0 node.rankedSize (by decide) (by decide)
  have found : node.virtualPersonId event = .ok (7 + permuted) := by
    change node.rankedId .constant 0 = _
    rw [RankedPopulationNodeImpl.rankedId, permutedEq]
    rfl
  have created : (⟨.rankedPopulationNode node, event⟩ : Visit _).people =
      .ok [⟨some (7 + permuted), none⟩] :=
    createdPerson_ok_iff.mpr ⟨_, none, found, rfl, rfl⟩
  obtain ⟨run, inputEq, firstEq, ranksEq, visitsEq, peopleEq⟩ :=
    @TwoPassRun.exists_of_created .constant labeler
      (neutral.mono fun _ selection =>
        selection.neutral neutralNumberFields_constant)
      Externals.constant.emptyInput ⟨[], [⟨7, 2, 2⟩, ⟨7, 2, 2⟩], none⟩ [0, 1] rfl
      rfl [⟨.rankedPopulationNode node, event⟩,
        ⟨.rankedPopulationNode node, event⟩] rfl _
      (.cons created (.cons created .nil))
  have rankedEq : run.rankedPeople =
      [⟨node, 0, ⟨some (7 + permuted), none⟩⟩,
        ⟨node, 1, ⟨some (7 + permuted), none⟩⟩] := by
    rw [TwoPassRun.rankedPeople, visitsEq, peopleEq, ranksEq]
    rfl
  refine ⟨run, ?_, ?_, ⟨_, rankedEq⟩, fun distinct => ?_⟩
  · rw [inputEq]
    rfl
  · rw [TwoPassRun.rankAssignments, firstEq, ranksEq]
    rfl
  · rw [rankedEq] at distinct
    exact (List.rel_of_pairwise_cons distinct (List.mem_singleton_self _)) rfl
      (show (0 : UInt64) < 2 by decide) (show (1 : UInt64) < 2 by decide) rfl

end VirtualPeople.Cc
