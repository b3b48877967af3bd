import VirtualPeople.Cc.TwoPass

/-!
# Dense ranks

In a run of two passes a disjoint leaf gives ids of its ranked range to exactly
those of its people whose ranks are in the range, and when each of these ranks
is given to one of its people, then no id of the range is left over.
-/

namespace VirtualPeople.Cc

variable {X : Externals} {labeler : Labeler X}

/-- A person of a disjoint leaf has an id of the ranked range exactly when its
rank is in the range. -/
theorem TwoPassRun.id_inRanked_iff (run : TwoPassRun labeler)
    (neutral : labeler.root.NeutralRoutes)
    (once : labeler.ReachesPoolsOnce run.input) {person : RankedPerson X}
    (member : person ∈ run.rankedPeople)
    (disjoint : person.node.unrankedMode = .disjoint) {vid : UInt64}
    (isId : person.person.virtualPersonId = some vid) :
    vid - person.node.poolOffset < person.node.rankedSize ↔
      person.localRank < person.node.rankedSize := by
  obtain ⟨event, vid', found, isId', lookup⟩ :=
    run.exists_lookupRank_of_mem neutral once member
  obtain rfl := Option.some.inj (isId.symm.trans isId')
  rcases person.node.virtualPersonId_cases found with
    ⟨rank, rankEq, inRanked, idEq⟩ | ⟨notRanked, idEq⟩
  · rw [lookup, Option.some_inj] at rankEq
    rw [← rankEq] at inRanked
    exact iff_of_true (person.node.rankedId_lt (rankEq ▸ inRanked) idEq) inRanked
  · refine iff_of_false (fun inRange => ?_) fun inRanked =>
      notRanked ⟨_, lookup, inRanked⟩
    have outside := person.node.unrankedId_mem idEq
    unfold RankedPopulationNodeImpl.UnrankedRange at outside
    rw [disjoint] at outside
    exact absurd inRange (UInt64.not_lt.mpr outside.1)

/-- In runs in which no input announces a pool offset twice, the people of a
disjoint leaf have ids of the ranked range exactly when their ranks are in it;
and if all these ranks are given to a leaf, then all ids of its range are. -/
theorem two_pass_ranked_range (fields : NeutralNumberFields X)
    (neutral : labeler.root.EveryBranch BranchNodeImpl.NeutralSelection)
    (runs : List (TwoPassRun labeler))
    (once : ∀ run ∈ runs, labeler.ReachesPoolsOnce run.input) :
    (∀ person ∈ runs.flatMap TwoPassRun.rankedPeople,
      person.node.unrankedMode = .disjoint →
      ∀ vid, person.person.virtualPersonId = some vid →
        (vid - person.node.poolOffset < person.node.rankedSize ↔
          person.localRank < person.node.rankedSize)) ∧
    ∀ node : RankedPopulationNodeImpl,
      (∀ localRank < node.rankedSize,
        ∃ person ∈ runs.flatMap TwoPassRun.rankedPeople,
          person.node = node ∧ person.localRank = localRank) →
      ∀ offset < node.rankedSize,
        ∃ person ∈ runs.flatMap TwoPassRun.rankedPeople,
          person.node = node ∧
          person.person.virtualPersonId = some (node.poolOffset + offset) := by
  have routes : labeler.root.NeutralRoutes :=
    neutral.mono fun _ selection => selection.neutral fields
  refine ⟨fun person member disjoint vid isId => ?_,
    fun node dense offset inRange => ?_⟩
  · obtain ⟨run, runMember, personMember⟩ := List.mem_flatMap.mp member
    exact run.id_inRanked_iff routes (once run runMember) personMember disjoint
      isId
  · -- The permutation of the ranked range takes some rank to the offset.
    have small : node.rankedSize.toNat < 2 ^ 31 :=
      node.rankedSizeLe.trans_lt node.poolSizeLt
    obtain ⟨localRank, inRanked, permuted⟩ :=
      @feistelPermute_surjective X node.randomSeed _ _ small inRange
    obtain ⟨person, member, rfl, rfl⟩ := dense localRank inRanked
    obtain ⟨run, runMember, personMember⟩ := List.mem_flatMap.mp member
    obtain ⟨vid, isId, found⟩ := run.rankedId_of_mem routes (once run runMember)
      personMember inRanked
    rw [RankedPopulationNodeImpl.rankedId, permuted] at found
    rw [← Except.ok.inj found] at isId
    exact ⟨person, member, rfl, isId⟩

open RankedPopulationNodeImpl (twoRankedPeople)

/-- The two ranks of a ranked range give both of its ids away, and a rank past
the range another one. -/
theorem two_pass_ranked_range_twoRanks :
    ∃ runs : List (TwoPassRun twoRankedLabeler),
      runs.flatMap TwoPassRun.rankAssignments = [⟨7, 0⟩, ⟨7, 1⟩, ⟨7, 3⟩] ∧
      (∀ person ∈ runs.flatMap TwoPassRun.rankedPeople,
        ∀ vid, person.person.virtualPersonId = some vid →
          (vid - 7 < 2 ↔ person.localRank < 2)) ∧
      ∀ offset < 2, ∃ person ∈ runs.flatMap TwoPassRun.rankedPeople,
        person.person.virtualPersonId = some (7 + offset) := by
  obtain ⟨first, firstRank, firstPeople, firstOnce⟩ :=
    @exists_run_of_id 0 7 (by decide +kernel)
  obtain ⟨second, secondRank, secondPeople, secondOnce⟩ :=
    @exists_run_of_id 1 8 (by decide +kernel)
  obtain ⟨third, thirdRank, thirdPeople, thirdOnce⟩ :=
    @exists_run_of_id 3 9 (by decide +kernel)
  have peopleEq : [first, second, third].flatMap TwoPassRun.rankedPeople =
      [⟨twoRankedPeople, 0, ⟨some 7, none⟩⟩,
        ⟨twoRankedPeople, 1, ⟨some 8, none⟩⟩,
        ⟨twoRankedPeople, 3, ⟨some 9, none⟩⟩] := by
    simp [firstPeople, secondPeople, thirdPeople]
  obtain ⟨inRange, dense⟩ := @two_pass_ranked_range .constant twoRankedLabeler
    neutralNumberFields_constant (.leafNode _) [first, second, third]
    (by simp [firstOnce, secondOnce, thirdOnce])
  rw [peopleEq] at inRange dense
  refine ⟨[first, second, third], by simp [firstRank, secondRank, thirdRank],
    ?_, ?_⟩
  · rw [peopleEq]
    intro person member vid isId
    have isNode : person.node = twoRankedPeople := by
      simp only [List.mem_cons, List.not_mem_nil, or_false] at member
      rcases member with rfl | rfl | rfl <;> rfl
    have both := inRange person member (by rw [isNode]; rfl) vid isId
    rwa [isNode] at both
  · intro offset below
    rw [peopleEq]
    have ranks : ∀ localRank < twoRankedPeople.rankedSize,
        localRank = 0 ∨ localRank = 1 := by
      intro localRank inRanked
      have below : localRank.toNat < 2 := inRanked
      simp only [← UInt64.toNat_inj, UInt64.toNat_zero, UInt64.toNat_one]
      omega
    obtain ⟨person, member, -, isId⟩ := dense twoRankedPeople
      (fun localRank inRanked => by
        rcases ranks localRank inRanked with rfl | rfl
        · exact ⟨_, List.mem_cons_self, rfl, rfl⟩
        · exact ⟨_, List.mem_cons_of_mem _ List.mem_cons_self, rfl, rfl⟩)
      offset below
    exact ⟨person, member, isId⟩

end VirtualPeople.Cc
